import ArmStudio.Machine.Image
import ArmStudio.Machine.Status

/-!
# State of the machine

The machine has words of 32 bits, a stack with one frame for each call, and globals. A frame is
three words (the return address, the place of the frame before and the number of its locals),
followed by the locals and the operands.

* A failed access sets the status and gives zero; what comes after it in the same operation is
  still done, so the last failure is the one that is seen.
* Places of frames and numbers of locals are kept in eight bits.
* A push at the end of the stack goes to a spare word; only the next one overflows.
-/

namespace ArmStudio.Machine

inductive Waiting where
  | nothing
  | delay
  | allJoints
  | joint
  deriving DecidableEq

structure State where
  image : Image
  pc : UInt16 := 0
  stack : Array UInt32
  top : UInt16
  frame : UInt8 := 0
  locals : UInt8 := 0
  globals : Array UInt32 := #[]
  waiting : Waiting := .nothing
  joint : UInt32 := 0
  status : Status := .running

/-- What is not in the memory, with the sizes of the areas that are. -/
structure Registers where
  codeSize : UInt16
  constantCount : Nat
  globalCount : Nat
  pc : UInt16
  top : UInt16
  frame : UInt8
  locals : UInt8
  waiting : Waiting
  joint : UInt32
  status : Status

def State.registers (m : State) : Registers :=
  ⟨m.image.codeSize, m.image.constantCount, m.image.globalCount, m.pc, m.top, m.frame, m.locals,
    m.waiting, m.joint, m.status⟩

def stackSize : Nat := 1024

def State.start (image : Image) : State where
  image := image
  stack := Array.replicate (stackSize + 1) 0
  top := 0
  globals := Array.replicate image.globalCount 0

abbrev Exec := StateM State

namespace Exec

def fail (s : Status) : Exec Unit := modify fun m => { m with status := s }

def fetch (count : Nat) : Exec Nat := do
  let m ← get
  if m.image.codeSize.toNat < m.pc.toNat + count then
    fail .badProgramRead
    return 0
  else
    set { m with pc := m.pc + count.toUInt16 }
    return m.image.codeNumber count m.pc.toNat

def push (w : UInt32) : Exec Unit := do
  let m ← get
  if stackSize < m.top.toNat then fail .stackOverflow
  else set { m with stack := m.stack.setIfInBounds m.top.toNat w, top := m.top + 1 }

def word (i : Nat) : Exec UInt32 := do return ((← get).stack[i]?).getD 0

def pop : Exec UInt32 := do
  let m ← get
  if m.top = 0 then
    fail .stackUnderflow
    return 0
  else
    set { m with top := m.top - 1 }
    word (m.top.toNat - 1)

/-- Pops an operand of the current frame. Only the place right above the frame counts as empty. -/
def popOperand : Exec UInt32 := do
  let m ← get
  if m.top.toNat = m.frame.toNat + 3 then
    fail .operandUnderflow
    return 0
  else pop

def readConstant (i : Nat) : Exec UInt32 := do
  let m ← get
  if i < m.image.constantCount then return m.image.constant i
  else
    fail .badConstant
    return 0

def readGlobal (i : Nat) : Exec UInt32 := do
  match (← get).globals[i]? with
  | some w => return w
  | none =>
    fail .badGlobalRead
    return 0

def writeGlobal (i : Nat) (w : UInt32) : Exec Unit := do
  let m ← get
  if i < m.globals.size then set { m with globals := m.globals.setIfInBounds i w }
  else fail .badGlobalWrite

def localPlace (m : State) (i : Nat) : Nat := m.frame.toNat + 3 + i

def readLocal (i : Nat) : Exec UInt32 := do
  let m ← get
  if i < m.locals.toNat then word (localPlace m i)
  else
    fail .badLocalRead
    return 0

def writeLocal (i : Nat) (w : UInt32) : Exec Unit := do
  let m ← get
  if i < m.locals.toNat then set { m with stack := m.stack.setIfInBounds (localPlace m i) w }
  else fail .badLocalWrite

def popMany : Nat → List UInt32 → Exec (List UInt32)
  | 0, acc => return acc
  | n + 1, acc => do
    let w ← pop
    popMany n (w :: acc)

def pushMany : List UInt32 → Exec Unit
  | [] => return ()
  | w :: rest => do
    push w
    pushMany rest

/-- Starts a frame above which the arguments stand again. -/
def pushFrame (back : UInt16) (count : Nat) : Exec Unit := do
  let args ← popMany count []
  push back.toUInt32
  push (← get).frame.toUInt32
  modify fun m => { m with frame := (m.top - 2).toUInt8 }
  push (← get).locals.toUInt32
  pushMany args

def popFrame : Exec Unit := do
  let base := (← get).frame.toNat
  let back ← word base
  let frame ← word (base + 1)
  let locals ← word (base + 2)
  modify fun m => { m with
    locals := locals.toUInt8
    pc := back.toUInt16
    top := m.frame.toUInt16
    frame := frame.toUInt8 }

end Exec

end ArmStudio.Machine
