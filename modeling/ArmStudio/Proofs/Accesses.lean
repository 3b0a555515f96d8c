import ArmStudio.Proofs.Stepping

/-!
# Accesses to the memory

The operations of the machine as trees of single accesses to its memory. Between two accesses an
operation sees nothing but the registers, so the accesses in its tree are all that it makes.
-/

namespace ArmStudio.Machine

open Code Number Motion Exec

/-- A place of the memory: a word of the stack, a global, a constant or a byte of the code. -/
inductive Access where
  | word (i : Nat)
  | global (i : Nat)
  | constant (i : Nat)
  | byte (i : Nat)
  deriving DecidableEq

/-- The stack, the globals, and the file with the constants and the code. -/
structure Memory where
  image : Image
  stack : Array UInt32
  globals : Array UInt32

namespace Memory

variable (mem : Memory)

def read : Access → UInt32
  | .word i => (mem.stack[i]?).getD 0
  | .global i => (mem.globals[i]?).getD 0
  | .constant i => mem.image.constant i
  | .byte i => (Image.byteOf mem.image.bytes (mem.image.codeStart + i)).toUInt32

def writeWord (i : Nat) (w : UInt32) : Memory :=
  { mem with stack := mem.stack.setIfInBounds i w }

def writeGlobal (i : Nat) (w : UInt32) : Memory :=
  { mem with globals := mem.globals.setIfInBounds i w }

end Memory

namespace State

variable (m : State)

def memory : Memory := ⟨m.image, m.stack, m.globals⟩

/-- There are as many globals as the file says. -/
def Fits : Prop := m.globals.size = m.image.globalCount

end State

/-! ## Trees of accesses -/

/-- Accesses to the memory, one after the other, up to a result. -/
inductive Query (α : Type) where
  | done (a : α)
  | read (x : Access) (next : UInt32 → Query α)
  | writeWord (i : Nat) (w : UInt32) (next : Query α)
  | writeGlobal (i : Nat) (w : UInt32) (next : Query α)

namespace Query

variable {α β : Type}

def bind : Query α → (α → Query β) → Query β
  | done a, f => f a
  | read x next, f => read x fun w => (next w).bind f
  | writeWord i w next, f => writeWord i w (next.bind f)
  | writeGlobal i w next, f => writeGlobal i w (next.bind f)

instance : Monad Query where
  pure := done
  bind := bind

/-- The result, and the memory afterwards. -/
def run : Query α → Memory → α × Memory
  | done a, mem => (a, mem)
  | read x next, mem => (next (mem.read x)).run mem
  | writeWord i w next, mem => next.run (mem.writeWord i w)
  | writeGlobal i w next, mem => next.run (mem.writeGlobal i w)

/-- The places that are read or written, in this order. -/
def accesses : Query α → Memory → List Access
  | done _, _ => []
  | read x next, mem => x :: (next (mem.read x)).accesses mem
  | writeWord i w next, mem => .word i :: next.accesses (mem.writeWord i w)
  | writeGlobal i w next, mem => .global i :: next.accesses (mem.writeGlobal i w)

lemma run_bind (t : Query α) (f : α → Query β) (mem : Memory) :
    (t.bind f).run mem = (f (t.run mem).1).run (t.run mem).2 := by
  induction t generalizing mem with
  | done a => rfl
  | read x next ih => exact ih (mem.read x) mem
  | writeWord i w next ih => exact ih (mem.writeWord i w)
  | writeGlobal i w next ih => exact ih (mem.writeGlobal i w)

lemma accesses_bind (t : Query α) (f : α → Query β) (mem : Memory) : (t.bind f).accesses mem =
      t.accesses mem ++ (f (t.run mem).1).accesses (t.run mem).2 := by
  induction t generalizing mem with
  | done a => rfl
  | read x next ih => exact congrArg (x :: ·) (ih (mem.read x) mem)
  | writeWord i w next ih => exact congrArg (.word i :: ·) (ih (mem.writeWord i w))
  | writeGlobal i w next ih => exact congrArg (.global i :: ·) (ih (mem.writeGlobal i w))

end Query

/-! ## Operations as trees -/

/-- A part of an operation: the registers give a tree, and its result new registers. -/
abbrev Part := StateT Registers Query

namespace Part

def readAt (x : Access) : Part UInt32 := fun r => .read x fun w => .done (w, r)

def writeWordAt (i : Nat) (w : UInt32) : Part Unit := fun r => .writeWord i w (.done ((), r))

def writeGlobalAt (i : Nat) (w : UInt32) : Part Unit := fun r => .writeGlobal i w (.done ((), r))

def fail (s : Status) : Part Unit := modify fun r => { r with status := s }

def codeNumber : Nat → Nat → Part Nat
  | 0, _ => return 0
  | count + 1, i => do
    let b ← readAt (.byte i)
    let rest ← codeNumber count (i + 1)
    return b.toNat + 256 * rest

def fetch (count : Nat) : Part Nat := do
  let r ← get
  if r.codeSize.toNat < r.pc.toNat + count then
    fail .badProgramRead
    return 0
  else
    set { r with pc := r.pc + count.toUInt16 }
    codeNumber count r.pc.toNat

def push (w : UInt32) : Part Unit := do
  let r ← get
  if stackSize < r.top.toNat then fail .stackOverflow
  else
    writeWordAt r.top.toNat w
    set { r with top := r.top + 1 }

def pop : Part UInt32 := do
  let r ← get
  if r.top = 0 then
    fail .stackUnderflow
    return 0
  else
    set { r with top := r.top - 1 }
    readAt (.word (r.top.toNat - 1))

def popOperand : Part UInt32 := do
  let r ← get
  if r.top.toNat = r.frame.toNat + 3 then
    fail .operandUnderflow
    return 0
  else pop

variable (i : Nat)

def readConstant : Part UInt32 := do
  let r ← get
  if i < r.constantCount then readAt (.constant i)
  else
    fail .badConstant
    return 0

def readGlobal : Part UInt32 := do
  let r ← get
  if i < r.globalCount then readAt (.global i)
  else
    fail .badGlobalRead
    return 0

def writeGlobal (w : UInt32) : Part Unit := do
  let r ← get
  if i < r.globalCount then writeGlobalAt i w else fail .badGlobalWrite

def readLocal : Part UInt32 := do
  let r ← get
  if i < r.locals.toNat then readAt (.word (r.frame.toNat + 3 + i))
  else
    fail .badLocalRead
    return 0

def writeLocal (w : UInt32) : Part Unit := do
  let r ← get
  if i < r.locals.toNat then writeWordAt (r.frame.toNat + 3 + i) w else fail .badLocalWrite

def popMany : Nat → List UInt32 → Part (List UInt32)
  | 0, acc => return acc
  | n + 1, acc => do
    let w ← pop
    popMany n (w :: acc)

def pushMany : List UInt32 → Part Unit
  | [] => return ()
  | w :: rest => do
    push w
    pushMany rest

def pushFrame (back : UInt16) (count : Nat) : Part Unit := do
  let args ← popMany count []
  push back.toUInt32
  push (← get).frame.toUInt32
  modify fun r => { r with frame := (r.top - 2).toUInt8 }
  push (← get).locals.toUInt32
  pushMany args

def popFrame : Part Unit := do
  let base := (← get).frame.toNat
  let back ← readAt (.word base)
  let frame ← readAt (.word (base + 1))
  let locals ← readAt (.word (base + 2))
  modify fun r => { r with
    locals := locals.toUInt8
    pc := back.toUInt16
    top := r.frame.toUInt16
    frame := frame.toUInt8 }

def jump (address : UInt16) : Part Unit := modify fun r => { r with pc := address }

def reserve (count : Nat) : Part Unit := modify fun r => { r with
  locals := count.toUInt8
  top := r.frame.toUInt16 + 3 + count.toUInt16 }

def wait (w : Waiting) : Part Unit := modify fun r => { r with waiting := w }

def waitJoint (id : UInt32) : Part Unit := modify fun r => { r with waiting := .joint, joint := id }

instance : Operates Part :=
  ⟨get, fail, fetch, push, pop, popOperand, readConstant, readGlobal, writeGlobal, readLocal,
    writeLocal, pushFrame, popFrame, jump, reserve, wait, waitJoint⟩

export Operates (unary binary onInts compareInts onReals quietly withAddress callTo jumpIf popJoint
  movePose moveJoints showNumber perform operate poll)

variable (sensors : Sensors)

def step : Part (List Action) := do
  if (← get).waiting = .nothing then operate sensors else poll sensors

end Part

/-! ## The trees do what the machine does -/

/-- From `m` the part gives the result of `e` and leaves the registers and the memory that `e`
leaves. The file and the number of globals stay. -/
structure Matches {α : Type} (p : Part α) (e : Exec α) (m : State) : Prop where
  run : (p m.registers).run m.memory = (((e m).1, (e m).2.registers), (e m).2.memory)
  image : (e m).2.image = m.image
  fits : (e m).2.Fits

variable {α β : Type} {p : Part α} {e : Exec α} {m : State}

lemma Matches.bind {f : α → Part β} {g : α → Exec β} (hp : Matches p e m)
    (hf : Matches (f (e m).1) (g (e m).1) (e m).2) : Matches (p >>= f) (e >>= g) m := by
  refine ⟨?_, hf.image.trans hp.image, hf.fits⟩
  calc ((p >>= f) m.registers).run m.memory
      = (f ((p m.registers).run m.memory).1.1 ((p m.registers).run m.memory).1.2).run
          ((p m.registers).run m.memory).2 := Query.run_bind _ _ _
    _ = (f (e m).1 (e m).2.registers).run (e m).2.memory := by rw [hp.run]
    _ = _ := hf.run

lemma Matches.discard (h : Matches p e m) :
    Matches (discard p : Part PUnit) (discard e : Exec PUnit) m := by
  refine ⟨?_, h.image, h.fits⟩
  calc ((Functor.discard p : Part PUnit) m.registers).run m.memory
      = ((⟨⟩, ((p m.registers).run m.memory).1.2), ((p m.registers).run m.memory).2) :=
        Query.run_bind _ _ _
    _ = ((⟨⟩, (e m).2.registers), (e m).2.memory) := by rw [h.run]

lemma run_codeNumber (count i : Nat) (r : Registers) (mem : Memory) :
    (Part.codeNumber count i r).run mem = ((mem.image.codeNumber count i, r), mem) := by
  induction count generalizing i with
  | zero => rfl
  | succ count ih =>
    have hread : (Part.codeNumber (count + 1) i r).run mem =
        ((Part.codeNumber count (i + 1) r).bind fun x =>
          .done ((mem.read (.byte i)).toNat + 256 * x.1, x.2)).run mem := rfl
    rw [hread, Query.run_bind, ih]
    simp [Query.run, Memory.read, Image.codeNumber, Image.numberOf, add_assoc]

lemma step_eq_get (sensors : Sensors) : State.step sensors = (get >>= fun m =>
    if m.waiting = .nothing then operate sensors else poll sensors : Exec _) := by
  funext m
  by_cases hidle : m.waiting = .nothing <;> simp [State.step, hidle]

end ArmStudio.Machine
