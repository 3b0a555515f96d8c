import ArmStudio.Code.Instr
import ArmStudio.Machine.Action
import ArmStudio.Machine.State

/-!
# Steps of the machine

`State.step` does one operation, or looks whether what the machine waits for is done. An operation
gives the actions that it asks of the hardware.

* Integers are two's complement and wrap; floating-point numbers are single precision.
* Equality of floating-point numbers gives a floating-point truth value; the other comparisons of
  floating-point numbers compare the words as integers.
* The bitwise complement takes two operands and complements the upper one.
-/

namespace ArmStudio.Machine

open Code Number Motion

def Exec.signed (w : UInt32) : Int32 := w.toInt32

def Exec.ofBool (b : Bool) : UInt32 := if b then 1 else 0

/-- What the operations are made of. They see the registers, and the memory only through these
accesses. -/
class Operates (M : Type → Type) where
  registers : M Registers
  fail : Status → M Unit
  fetch : Nat → M Nat
  push : UInt32 → M Unit
  pop : M UInt32
  popOperand : M UInt32
  readConstant : Nat → M UInt32
  readGlobal : Nat → M UInt32
  writeGlobal : Nat → UInt32 → M Unit
  readLocal : Nat → M UInt32
  writeLocal : Nat → UInt32 → M Unit
  pushFrame : UInt16 → Nat → M Unit
  popFrame : M Unit
  jump : UInt16 → M Unit
  reserve : Nat → M Unit
  wait : Waiting → M Unit
  waitJoint : UInt32 → M Unit

namespace Operates

open Exec (signed ofBool)

variable {M : Type → Type} [Monad M] [Operates M]

def unary (f : UInt32 → UInt32) : M (List Action) := do
  let a ← popOperand
  push (f a)
  return []

def binary (f : UInt32 → UInt32 → UInt32) : M (List Action) := do
  let b ← popOperand
  let a ← popOperand
  push (f a b)
  return []

def onInts (f : Int32 → Int32 → Int32) : M (List Action) :=
  binary fun a b => (f (signed a) (signed b)).toUInt32

def compareInts (f : Int32 → Int32 → Bool) : M (List Action) :=
  binary fun a b => ofBool (f (signed a) (signed b))

def onReals (f : Single → Single → Single) : M (List Action) :=
  binary fun a b => (f ⟨a⟩ ⟨b⟩).bits

def quietly (e : M Unit) : M (List Action) := do
  e
  return []

/-- Goes to an address of the program, or fails, before anything else is done. -/
def withAddress (next : UInt16 → M Unit) : M (List Action) := do
  let address := (← fetch 2).toUInt16
  if (← registers).codeSize ≤ address then fail .overstep else next address
  return []

def callTo (address : UInt16) : M Unit := do
  let count ← fetch 1
  pushFrame (← registers).pc count
  jump address

def jumpIf (test : UInt32 → Bool) : M (List Action) := withAddress fun address => do
  let w ← pop
  if test w then jump address

def popJoint : M (UInt32 × Single) := do
  let a ← popOperand
  let id ← popOperand
  return (id, ⟨a⟩)

def movePose (andWait : Bool) : M (List Action) := do
  let tilt ← popOperand
  let z ← popOperand
  let y ← popOperand
  let x ← popOperand
  match reach ⟨⟨x⟩, ⟨y⟩, ⟨z⟩, toRadians ⟨tilt⟩⟩ with
  | (.ok, angles) =>
    if andWait then wait .allJoints
    return Action.joints 1 angles.motors
  | _ => return []

def moveJoints (andWait : Bool) : M (List Action) := do
  let s2 ← popOperand
  let s1 ← popOperand
  let m4 ← popOperand
  let m3 ← popOperand
  let m2 ← popOperand
  let m1 ← popOperand
  if andWait then wait .allJoints
  return Action.joints 1 [⟨m1⟩, ⟨m2⟩, ⟨m3⟩, ⟨m4⟩] ++ [.wrist ⟨s1⟩, .gripper ⟨s2⟩]

def showNumber : M (List Action) := do
  let length ← popOperand
  let number ← popOperand
  let column ← popOperand
  let line ← popOperand
  return [.show line.toUInt8 column.toUInt8 number length.toUInt8]

variable (sensors : Sensors)

def perform : Opcode → M (List Action)
  | .nop => return []
  | .halt => quietly (fail .halted)
  | .jmp => withAddress jump
  | .jz => jumpIf (· == 0)
  | .jnz => jumpIf (· != 0)
  | .call => withAddress callTo
  | .enter => quietly do
    reserve (← fetch 1)
  | .ret => quietly do
    let w ← popOperand
    popFrame
    push w
  | .ret0 => quietly popFrame
  | .loadk => quietly do push (← readConstant (← fetch 2))
  | .loadg => quietly do push (← readGlobal (← fetch 2))
  | .loadl => quietly do push (← readLocal (← fetch 1))
  | .immi | .immf => quietly do push (← fetch 4).toUInt32
  | .pop => quietly do discard pop
  | .storl => quietly do
    let i ← fetch 1
    writeLocal i (← popOperand)
  | .storg => quietly do
    let i ← fetch 2
    writeGlobal i (← popOperand)
  | .iadd => onInts (· + ·)
  | .isub => onInts (· - ·)
  | .imul => onInts (· * ·)
  | .idiv => onInts (· / ·)
  | .imod => onInts (· % ·)
  | .ineg => unary fun a => (-signed a).toUInt32
  | .fadd => onReals (· + ·)
  | .fsub => onReals (· - ·)
  | .fmul => onReals (· * ·)
  | .fdiv => onReals (· / ·)
  | .fneg => unary fun a => (-(⟨a⟩ : Single)).bits
  | .lnot => unary fun a => ofBool (a == 0)
  | .land => binary fun a b => ofBool (a != 0 && b != 0)
  | .lor => binary fun a b => ofBool (a != 0 || b != 0)
  | .band => binary (· &&& ·)
  | .bor => binary (· ||| ·)
  | .bxor => binary (· ^^^ ·)
  | .bnot => binary fun _ b => ~~~b
  | .shl => onInts (· <<< ·)
  | .shr => onInts (· >>> ·)
  | .ieq => compareInts (· == ·)
  | .ine | .fne => compareInts (· != ·)
  | .igt | .fgt => compareInts fun a b => b < a
  | .ilt | .flt => compareInts fun a b => a < b
  | .ige | .fge => compareInts fun a b => b ≤ a
  | .ile | .fle => compareInts fun a b => a ≤ b
  | .feq => binary fun a b => (if (⟨a⟩ : Single).eqv ⟨b⟩ then (1 : Single) else 0).bits
  | .i2f => unary fun a => (Single.ofInt (signed a).toInt).bits
  | .f2i => unary fun a => ((⟨a⟩ : Single).truncate % 0x100000000).toNat.toUInt32
  | .delay => do
    let ms ← popOperand
    wait .delay
    return [.delay ms.toUInt16]
  | .rst => return [.reset]
  | .wait => quietly (wait .allJoints)
  | .waitj => quietly do waitJoint (← popOperand)
  | .movj => do
    let (id, angle) ← popJoint
    waitJoint id
    return Action.move id angle
  | .setj => do
    let (id, angle) ← popJoint
    return Action.move id angle
  | .readj => quietly do
    let id ← popOperand
    push (sensors.angle id).bits
  | .movoc => movePose true
  | .setoc => movePose false
  | .movjc => moveJoints true
  | .setjc => moveJoints false
  | .gripperOpen => return [.gripperOpen]
  | .gripperClose => return [.gripperClose]
  | .setjspd => do
    let (id, percent) ← popJoint
    return Action.speed id percent
  | .oledi => showNumber
  | .print => quietly do discard popOperand
  | .label => quietly (fail .badOperation)

def operate : M (List Action) := do
  match Opcode.ofCode? (← fetch 1).toUInt8 with
  | some op => perform sensors op
  | none => quietly (fail .badOperation)

/-- Looks whether what the machine waits for is done. Numbers that are no joint are not waited
for. -/
def poll : M (List Action) := do
  let r ← registers
  let finished := sensors.settled ||
    (r.waiting == .joint && !(1 ≤ r.joint && r.joint ≤ 6))
  if finished then wait .nothing
  return []

end Operates

namespace Exec

def jump (address : UInt16) : Exec Unit := modify fun m => { m with pc := address }

/-- Makes room for the locals of a function. -/
def reserve (count : Nat) : Exec Unit := modify fun m => { m with
  locals := count.toUInt8
  top := m.frame.toUInt16 + 3 + count.toUInt16 }

def wait (w : Waiting) : Exec Unit := modify fun m => { m with waiting := w }

def waitJoint (id : UInt32) : Exec Unit := modify fun m => { m with waiting := .joint, joint := id }

@[default_instance]
instance : Operates Exec :=
  ⟨return (← get).registers, fail, fetch, push, pop, popOperand, readConstant, readGlobal,
    writeGlobal, readLocal, writeLocal, pushFrame, popFrame, jump, reserve, wait, waitJoint⟩

export Operates (unary binary onInts compareInts onReals quietly withAddress callTo jumpIf popJoint
  moveJoints showNumber)

abbrev movePose (andWait : Bool) : Exec (List Action) := Operates.movePose andWait

variable (sensors : Sensors)

abbrev perform (op : Opcode) : Exec (List Action) := Operates.perform sensors op

abbrev operate : Exec (List Action) := Operates.operate sensors

abbrev poll : Exec (List Action) := Operates.poll sensors

end Exec

namespace State

def step (sensors : Sensors) (m : State) : List Action × State :=
  if m.waiting = .nothing then Exec.operate sensors m else Exec.poll sensors m

def topWord (m : State) : UInt32 :=
  if m.top = 0 then 0 else (m.stack[m.top.toNat - 1]?).getD 0

end State

namespace Waiting

def code : Waiting → UInt8
  | nothing => 0
  | delay => Opcode.delay.code
  | allJoints => Opcode.wait.code
  | joint => Opcode.waitj.code

end Waiting

end ArmStudio.Machine
