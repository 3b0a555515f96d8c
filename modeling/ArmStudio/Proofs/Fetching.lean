import ArmStudio.Proofs.StackMoves
import ArmStudio.Proofs.TwoPass

/-!
# Fetched instructions

Encoder and machine agree on where instructions end. A step at the first byte of an instruction
takes its bytes and no others, and the machine goes on at the first byte of an instruction.
-/

namespace ArmStudio

open Number List

namespace Code

/-- The form of an operand in the code. -/
inductive Shape where
  | u8
  | u16
  | u32
  | f32
  | label
  deriving DecidableEq

def Shape.width : Shape → Nat
  | u8 => 1
  | u16 | label => 2
  | u32 | f32 => 4

def Operand.shape : Operand → Shape
  | .u8 _ => .u8
  | .u16 _ => .u16
  | .u32 _ => .u32
  | .f32 _ => .f32
  | .label .. => .label

/-- The operands that an operation has in code. -/
def Opcode.shapes : Opcode → List Shape
  | jmp | jz | jnz | label => [.label]
  | call => [.label, .u8]
  | enter | loadl | storl => [.u8]
  | loadk | loadg | storg => [.u16]
  | immi => [.u32]
  | immf => [.f32]
  | _ => []

/-- The operands have the forms that the opcode reads. -/
def Instr.Shaped (i : Instr) : Prop := i.args.map Operand.shape = i.op.shapes
  deriving Decidable

def Payload.int : Payload → Int
  | .value v => v.toInt?.getD 0
  | _ => 0

/-- The pattern of a real operand; zero if it is none. -/
def Payload.pattern : Payload → Nat
  | .value v => (v.toReal.toOption.map fun x => (Single.ofDouble x).bits.toNat).getD 0
  | _ => 0

/-- The number that is encoded for an operand: integers and addresses modulo their widths. -/
def Operand.number : Operand → Nat
  | .u8 p => (p.int % 256).toNat
  | .u16 p => (p.int % 65536).toNat
  | .u32 p => (p.int % 4294967296).toNat
  | .f32 p => p.pattern
  | .label _ address => (address.getD 0 % 65536).toNat

def Instr.numbers (place : String → Int) (i : Instr) : List Nat :=
  (i.resolve place).args.map Operand.number

/-- Whether the machine goes to the label, with this word on top of the stack. -/
def Opcode.goes (w : UInt32) : Opcode → Bool
  | jmp | call => true
  | jz => w == 0
  | jnz => w != 0
  | _ => false

def Instr.next (place : String → Int) (w : UInt32) (behind : Nat) (i : Instr) : Int :=
  if i.op.goes w then (i.target?.map place).getD behind else behind

variable {bytes : List UInt8} {i : Instr} {op : Opcode} {w : UInt32}

lemma wordBytes_eq {count : Nat} {p} (h : wordBytes count p = .ok bytes) :
    bytes = intBytes count p.int := by
  cases p with
  | value v =>
    cases hv : v.toInt? with
    | none => simp [wordBytes, hv] at h
    | some n =>
      simp only [wordBytes, hv, Except.ok.injEq] at h
      simp [← h, Payload.int, hv]
  | text | nothing => simp [wordBytes] at h

open Machine.Image in
lemma Operand.bytes_eq {a : Operand} (h : a.bytes = .ok bytes) :
    ∃ n, bytes = intBytes a.width n ∧ lowBytes a.width n = a.number := by
  cases a with
  | u8 p => exact ⟨_, wordBytes_eq h, lowBytes_one _⟩
  | u16 p => exact ⟨_, wordBytes_eq h, lowBytes_two _⟩
  | u32 p => exact ⟨_, wordBytes_eq h, lowBytes_four _⟩
  | f32 p =>
    cases p with
    | value v =>
      cases hv : v.toReal with
      | error e => simp [Operand.bytes, realBytes, hv] at h
      | ok x =>
        simp only [Operand.bytes, realBytes, hv] at h
        split at h
        · cases h
        · cases h
          refine ⟨_, rfl, (lowBytes_four _).trans ?_⟩
          have hlt := (Single.ofDouble x).bits.toNat_lt
          simp only [number, Payload.pattern, hv, Except.toOption, Option.map_some,
            Option.getD_some]
          omega
    | text | nothing => simp [Operand.bytes, realBytes] at h
  | label name address =>
    cases address with
    | none => cases h
    | some n =>
      cases h
      exact ⟨n, rfl, lowBytes_two n⟩

lemma Instr.Fits.encoded_eq (h : i.Fits) (hl : i.op ≠ .label) (place : String → Int) :
    ∃ bytes, Instr.argBytes (i.resolve place).args = .ok bytes ∧
      i.encoded place = i.op.code :: bytes := by
  obtain ⟨heq, -⟩ | ⟨-, hj, name, address, rest, bytes, hargs, hbytes⟩ | ⟨-, hj, all, hall⟩ :=
    h.cases
  · exact absurd heq hl
  · refine ⟨_, ?_, Instr.encoded_jump place hj hargs hbytes⟩
    rw [Instr.resolve, if_pos hj, hargs]
    exact Instr.argBytes_cons.2 ⟨_, bytes, rfl, hbytes, rfl⟩
  · obtain ⟨bytes, hbytes, rfl⟩ := Instr.bytes_eq_ok.1 hall
    refine ⟨bytes, ?_, Instr.encoded_plain place hl hj hall⟩
    rwa [Instr.resolve, if_neg (by simp [hj])]

lemma Opcode.isJump_of_goes (h : op.goes w) : op.isJump ∧ op.shapes.head? = some .label := by
  cases op with
  | jmp | jz | jnz | call => exact ⟨rfl, rfl⟩
  | _ => cases h

lemma Opcode.operandBytes_eq (h : op.isStraight) (w : UInt32) :
    op.operandBytes = (op.shapes.map Shape.width).foldr (· + ·) 0 ∧ op.goes w = false := by
  cases op with
  | halt | jmp | jz | jnz | call | enter | ret | ret0 | label => cases h
  | _ => exact ⟨rfl, rfl⟩

lemma argsWidth_eq (args : List Operand) :
    argsWidth args = ((args.map Operand.shape).map Shape.width).foldr (· + ·) 0 := by
  induction args with
  | nil => rfl
  | cons a rest ih =>
    rw [argsWidth, ih]
    cases a <;> rfl

lemma map_width (args : List Operand) :
    args.map Operand.width = (args.map Operand.shape).map Shape.width := by
  rw [map_map]
  exact map_congr_left fun a _ => by cases a <;> rfl

lemma shape_resolve (place : String → Int) (i : Instr) :
    (i.resolve place).args.map Operand.shape = i.args.map Operand.shape := by
  unfold Instr.resolve
  split
  · split
    · rename_i h
      rw [h]
      rfl
    · rfl
  · rfl

lemma Instr.Shaped.head_numbers (h : i.Shaped) (place : String → Int) (hgoes : i.op.goes w) :
    ∃ name, i.target? = some name ∧ (i.numbers place).headD 0 = (place name % 65536).toNat := by
  have hjump := Opcode.isJump_of_goes hgoes
  rw [← h] at hjump
  cases hargs : i.args with
  | nil => simp [hargs] at hjump
  | cons arg rest =>
    cases arg with
    | label name address =>
      refine ⟨name, by simp [Instr.target?, hjump.1, hargs], ?_⟩
      simp [Instr.numbers, Instr.resolve, hjump.1, hargs, Operand.number]
    | _ => simp [hargs, Operand.shape] at hjump

lemma shaped_call {args} (h : Instr.Shaped ⟨.call, args⟩) :
    ∃ name address p, args = [.label name address, .u8 p] := by
  obtain ⟨first, rest, rfl, hfirst, hrest⟩ := map_eq_cons_iff.1 h
  obtain ⟨second, none, rfl, hsnd, hnone⟩ := map_eq_cons_iff.1 hrest
  obtain rfl := map_eq_nil_iff.1 hnone
  cases first <;> cases hfirst
  cases second <;> cases hsnd
  exact ⟨_, _, _, rfl⟩

end Code

namespace Machine

open Code

/-! ## Operations without their fetches -/

namespace Exec

/-- Takes numbers of these widths from the program. -/
def fetchAll : List Nat → Exec (List Nat)
  | [] => return []
  | count :: rest => do
    let n ← fetch count
    return n :: (← fetchAll rest)

variable {m : State} {op : Opcode}

lemma fetchAll_eq {args bytes} (h : Instr.argBytes args = .ok bytes)
    (hm : m.image.Holds m.pc.toNat bytes) :
    fetchAll (args.map Operand.width) m =
      (args.map Operand.number, m.advance (argsWidth args)) := by
  induction args generalizing bytes m with
  | nil => simp [fetchAll, State.advance, argsWidth]
  | cons a rest ih =>
    obtain ⟨first, others, hfirst, hothers, rfl⟩ := Instr.argBytes_cons.1 h
    obtain ⟨n, rfl, hn⟩ := Operand.bytes_eq hfirst
    have hsplit := Image.holds_append.1 hm
    have hend := hsplit.1.1
    rw [length_intBytes] at hend hsplit
    have hlt := m.image.codeSize.toNat_lt
    have hpc := State.toNat_advance_pc (m := m) (k := a.width) (by omega)
    have hrest := ih hothers (m := m.advance a.width) (by rw [hpc]; exact hsplit.2)
    simp [fetchAll, fetch_eq hm, hn, hrest, State.advance_advance, argsWidth]

/-- Does something with an address of the program, or fails. -/
def within (address : Nat) (next : UInt16 → Exec Unit) : Exec (List Action) := do
  if (← get).image.codeSize ≤ address.toUInt16 then fail .overstep else next address.toUInt16
  return []

def jumpOn (test : UInt32 → Bool) (address : UInt16) : Exec Unit := do
  let w ← pop
  if test w then jump address

def act (sensors : Sensors) : Opcode → List Nat → Exec (List Action)
  | .jmp, [a] => within a jump
  | .jz, [a] => within a (jumpOn (· == 0))
  | .jnz, [a] => within a (jumpOn (· != 0))
  | .call, [a, count] => within a fun address => do
    pushFrame (← get).pc count
    jump address
  | .enter, [count] => quietly do
    modify fun m => { m with
      locals := count.toUInt8
      top := m.frame.toUInt16 + 3 + count.toUInt16 }
  | .loadk, [i] => quietly do push (← readConstant i)
  | .loadg, [i] => quietly do push (← readGlobal i)
  | .loadl, [i] => quietly do push (← readLocal i)
  | .immi, [n] | .immf, [n] => quietly (push n.toUInt32)
  | .storl, [i] => quietly do writeLocal i (← popOperand)
  | .storg, [i] => quietly do writeGlobal i (← popOperand)
  | op, _ => perform sensors op

lemma perform_eq_act (sensors : Sensors) (hcall : op ≠ .call) (hlabel : op ≠ .label) (m : State) :
    perform sensors op m = act sensors op (fetchAll (op.shapes.map Shape.width) m).1
        (fetchAll (op.shapes.map Shape.width) m).2 := by
  cases op with
  | call => exact absurd rfl hcall
  | label => exact absurd rfl hlabel
  | _ => rfl

lemma within_apply (address : Nat) (next : UInt16 → Exec Unit) (m : State) :
    within address next m = if m.image.codeSize ≤ address.toUInt16
      then ([], { m with status := .overstep }) else ([], (next address.toUInt16 m).2) := by
  by_cases h : m.image.codeSize ≤ address.toUInt16 <;> simp [within, h, fail]

lemma call_after_fetch (sensors : Sensors) {m1 m2 : State} {address count : Nat}
    (hfirst : fetch 2 m = (address, m1)) (hsnd : fetch 1 m1 = (count, m2))
    (himage : m2.image = m1.image) :
    perform sensors .call m = if m1.image.codeSize ≤ address.toUInt16
      then ([], { m1 with status := .overstep }) else act sensors .call [address, count] m2 := by
  have hcall : perform sensors .call m = within (fetch 2 m).1 (fun address => do
      let count ← fetch 1
      pushFrame (← get).pc count
      jump address) (fetch 2 m).2 := rfl
  rw [hcall, hfirst, within_apply, act, within_apply, himage]
  split
  · rfl
  · simp [hsnd]

lemma pc_jumpOn (test : UInt32 → Bool) (address : UInt16) (m : State) :
    (jumpOn test address m).2.pc = if test m.topWord then address else m.pc := by
  have hpop : (pop m).1 = m.topWord ∧ (pop m).2.pc = m.pc := by
    by_cases htop : m.top = 0 <;> simp [pop, State.topWord, htop, fail, word]
  rw [jumpOn, bind_apply, hpop.1]
  split <;> simp [jump, hpop.2]

lemma pc_act (sensors : Sensors) (hstr : op.isStraight = false)
    (hop : op ∉ [.ret, .ret0, .label]) {numbers}
    (hlen : numbers.length = op.shapes.length)
    (hrun : (act sensors op numbers m).2.status = .running) :
    (act sensors op numbers m).2.pc =
      if op.goes m.topWord then (numbers.headD 0).toUInt16 else m.pc := by
  have hwithin : ∀ (a : Nat) next, (within a next m).2.status = .running →
      (within a next m).2 = (next a.toUInt16 m).2 := by
    intro a next h
    rw [within_apply] at h ⊢
    split at h
    · cases h
    · rename_i hle
      rw [if_neg hle]
  cases op with
  | halt => cases hrun
  | enter =>
    obtain ⟨n, rfl⟩ := length_eq_one_iff.1 hlen
    rfl
  | jmp =>
    obtain ⟨a, rfl⟩ := length_eq_one_iff.1 hlen
    exact congrArg State.pc (hwithin a _ hrun)
  | jz | jnz =>
    obtain ⟨a, rfl⟩ := length_eq_one_iff.1 hlen
    exact (congrArg State.pc (hwithin a _ hrun)).trans (pc_jumpOn _ _ m)
  | call =>
    obtain ⟨a, count, rfl⟩ := length_eq_two.1 hlen
    exact congrArg State.pc (hwithin a _ hrun)
  | ret | ret0 | label => simp at hop
  | _ => cases hstr

end Exec

/-! ## Steps -/

section

variable {place : String → Int} {i : Instr} {m : State} {a : Nat} (sensors : Sensors)
  (hm : m.At m.image a) (hshaped : i.Shaped) (hop : i.op ≠ .label) (hfits : i.Fits)
  (hholds : m.image.Holds a (i.encoded place)) (htgt : ∀ name, i.target? = some name →
    ∃ c : Nat, place name = c ∧ c ≤ m.image.codeSize.toNat)

include hm hshaped hop hfits hholds htgt

lemma step_eq_act : m.step sensors =
      if i.op = .call ∧ (i.numbers place).head? = some m.image.codeSize.toNat then
        ([], { m.advance 3 with status := .overstep })
      else Exec.act sensors i.op (i.numbers place) (m.advance i.width) := by
  obtain ⟨bytes, hbytes, hencoded⟩ := hfits.encoded_eq hop place
  rw [hencoded] at hholds
  obtain ⟨hstep, hargs⟩ := hm.perform hholds sensors
  have hall := Exec.fetchAll_eq hbytes hargs
  rw [map_width, shape_resolve, hshaped, argsWidth_eq, shape_resolve, ← argsWidth_eq,
    State.advance_advance] at hall
  have hwidth : i.width = 1 + argsWidth i.args := by rw [Instr.width, if_neg hop]
  by_cases hcall : i.op = .call
  · obtain ⟨op, args⟩ := i
    obtain rfl : op = .call := hcall
    obtain ⟨name, address, p, rfl⟩ := shaped_call hshaped
    obtain ⟨c, hc, hle⟩ := htgt name rfl
    obtain ⟨first, others, hfirst, hothers, rfl⟩ := Instr.argBytes_cons.1 hbytes
    cases hfirst
    have hone := Exec.fetch_eq hargs
    have htwo : Exec.fetch 1 ((m.advance 1).advance 2) = ((p.int % 256).toNat, m.advance 4) := by
      have hboth : Exec.fetchAll [2, 1] (m.advance 1) =
        ([(place name % 65536).toNat, (p.int % 256).toNat], m.advance 4) := hall
      simp only [Exec.fetchAll, Exec.bind_apply, hone, Exec.pure_apply] at hboth
      injection hboth with hnumbers hstate
      injection hnumbers with _ hrest
      exact Prod.ext (head_eq_of_cons_eq hrest) hstate
    have hcond : m.image.codeSize ≤ (place name % 65536).toNat.toUInt16 ↔
        (place name % 65536).toNat = m.image.codeSize.toNat := by
      have hlt := m.image.codeSize.toNat_lt
      rw [hc, UInt16.le_iff_toNat_le, UInt16.toNat_ofNat']
      omega
    have hnumbers : Instr.numbers place ⟨.call, [.label name address, .u8 p]⟩ =
      [(place name % 65536).toNat, (p.int % 256).toNat] := rfl
    rw [hstep, Exec.call_after_fetch sensors hone htwo rfl, Image.lowBytes_two, hnumbers,
      State.advance_advance]
    exact if_congr (by simpa using hcond) rfl rfl
  · rw [if_neg fun h => hcall h.1, hstep, Exec.perform_eq_act sensors hcall hop, hall, hwidth]
    rfl

lemma pc_step (hret : i.op ∉ [.ret, .ret0])
    (hrun : (m.step sensors).2.status = .running) :
    ((m.step sensors).2.pc.toNat : Int) = i.next place m.topWord (a + i.width) := by
  have hend : a + i.width ≤ m.image.codeSize.toNat := hfits.length_encoded place ▸ hholds.1
  have hpc := (hm.advance hend).pc
  by_cases hstr : i.op.isStraight = true
  · obtain ⟨bytes, _, hencoded⟩ := hfits.encoded_eq hop place
    rw [hencoded] at hholds
    have hstep := (hm.perform hholds sensors).1
    obtain ⟨hopnds, hgoes⟩ := Opcode.operandBytes_eq hstr m.topWord
    rw [← hshaped, ← argsWidth_eq] at hopnds
    have hmoved := (Exec.moves_perform sensors hstr (m.advance 1) (hstep ▸ hrun)).pc
    have hwidth : i.width = 1 + argsWidth i.args := by rw [Instr.width, if_neg hop]
    have hone := (hm.advance (k := 1) (by omega)).pc
    rw [hstep, hmoved, hone, hopnds, Instr.next, hgoes, if_neg (by decide), hwidth, add_assoc]
  · have hstep := step_eq_act sensors hm hshaped hop hfits hholds htgt
    split at hstep
    · rw [hstep] at hrun
      cases hrun
    rw [hstep] at hrun ⊢
    have hlen : (i.numbers place).length = i.op.shapes.length := by
      rw [← hshaped, ← shape_resolve place, Instr.numbers, length_map, length_map]
    have hact := Exec.pc_act sensors (by simpa using hstr) (by simp_all) hlen hrun
    rw [hact, Instr.next]
    change ((if i.op.goes m.topWord then _ else (m.advance i.width).pc).toNat : Int) = _
    split
    · obtain ⟨name, hname, hhead⟩ := hshaped.head_numbers place ‹_›
      obtain ⟨c, hc, hle⟩ := htgt name hname
      have hlt := m.image.codeSize.toNat_lt
      rw [hhead, hname, hc]
      simp only [Option.map_some, Option.getD_some, hc, UInt16.toNat_ofNat']
      omega
    · exact_mod_cast hpc

end

def spareCall : Instr := ⟨.call, [.label "f" none, .u8 (.ofInt 300)]⟩

def spareLabel : Instr := ⟨.label, [.label "f" none]⟩

/-- A machine before a call, of this address, that is the whole program. -/
def calling (address : UInt8) : State where
  image := ⟨#[0x05, address, 0, 44], 0, 0, 0, 4⟩
  stack := Array.replicate (stackSize + 1) 0
  top := 3

end Machine

end ArmStudio
