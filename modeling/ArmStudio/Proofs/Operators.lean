import ArmStudio.Proofs.Stepping

/-!
# Operators replace their operands

Arithmetic, logic, operations on bits, comparisons and conversions take their operands from the
stack and put one result in their place. The complement of bits is the one that does not: it has one
operand and takes two words.
-/

namespace ArmStudio

open Code Opcode

namespace Code.Opcode

/-- Arithmetic, logic, operations on bits, comparisons and conversions, which are together in the
table of bytes. -/
def isOperator (op : Opcode) : Bool := 0x21 ≤ op.code && op.code ≤ 0x82

def arity : Opcode → Nat
  | ineg | fneg | lnot | bnot | i2f | f2i => 1
  | _ => 2

lemma ne_label_of_isOperator {op : Opcode} (h : op.isOperator) : op ≠ .label := by
  rintro rfl
  exact absurd h (by decide)

lemma isJump_of_isOperator {op : Opcode} (h : op.isOperator) : op.isJump = false := by
  cases op <;> first | rfl | exact absurd h (by decide)

end Code.Opcode

namespace Machine

/-- The upper `k` words of the stack, the lowest of them first. -/
def State.upper (m : State) (k : Nat) : List UInt32 :=
  (List.range k).map fun i => (m.stack[m.top.toNat - k + i]?).getD 0

/-- The machine is running and stands before an operation, inside a frame with at least `k` words
above its header. -/
structure Poised (op : Opcode) (k : Nat) (m : State) : Prop where
  running : m.status = .running
  idle : m.waiting = .nothing
  code : m.image.Holds m.pc.toNat [op.code]
  size : m.stack.size = stackSize + 1
  inside : m.top.toNat ≤ stackSize + 1
  operands : m.frame.toNat + 3 + k ≤ m.top.toNat

/-- The upper `k` words of the stack are replaced by their image under `f`, the machine goes on
behind an operation of one byte, and nothing else changes. -/
structure Replaces (f : List UInt32 → UInt32) (k : Nat) (m m' : State) : Prop where
  running : m'.status = .running
  pc : m'.pc = m.pc + 1
  top : m'.top.toNat + k = m.top.toNat + 1
  result : m'.stack[m.top.toNat - k]? = some (f (m.upper k))
  below : ∀ i < m.top.toNat - k, m'.stack[i]? = m.stack[i]?
  globals : m'.globals = m.globals
  frame : m'.frame = m.frame
  locals : m'.locals = m.locals
  waiting : m'.waiting = m.waiting
  joint : m'.joint = m.joint
  image : m'.image = m.image

lemma perform_operator {op} (h : op.isOperator) :
    (op ≠ .bnot ∧ op.arity = 1 ∧ ∃ g, ∀ sensors, Exec.perform sensors op = Exec.unary g) ∨
      ((op = .bnot ∨ op.arity = 2) ∧ ∃ g, ∀ sensors, Exec.perform sensors op = Exec.binary g) := by
  cases op with
  | ineg | fneg | lnot | i2f | f2i => exact .inl ⟨by decide, rfl, _, fun _ => rfl⟩
  | bnot => exact .inr ⟨.inl rfl, _, fun _ => rfl⟩
  | iadd | isub | imul | idiv | imod | fadd | fsub | fmul | fdiv | land | lor | band | bor | bxor
  | shl | shr | ieq | ine | igt | ilt | ige | ile | feq | fne | fgt | flt | fge | fle =>
    exact .inr ⟨.inr rfl, _, fun _ => rfl⟩
  | _ => exact absurd h (by decide)

section

variable {op : Opcode} {m : State} {h k : Nat}

namespace Poised

lemma at_ (hp : Poised op k m) : m.At m.image m.pc.toNat := ⟨rfl, rfl, hp.idle, hp.running⟩

lemma codeAt (hp : Poised op k m) (hop : op.isOperator) :
    m.image.CodeAt (fun _ => 0) m.pc.toNat [.plain op] := by
  have hl := ne_label_of_isOperator hop
  have hj := isJump_of_isOperator hop
  have hbytes : (Instr.plain op).bytes = .ok [op.code] := rfl
  refine ⟨⟨?_, ?_, by simp [Instr.mark?, Instr.plain, hl]⟩, trivial⟩
  · simpa [Instr.Fits, Instr.plain, hl, hj] using ⟨_, hbytes⟩
  · rw [Instr.encoded_plain _ hl hj hbytes]
    exact hp.code

lemma replaces (hp : Poised op k m) (htop : m.top.toNat = h + k) (hk : 0 < k)
    {t : UInt16} (ht : t.toNat = h) (f : List UInt32 → UInt32) :
    Replaces f k m (State.pushed { m.advance 1 with top := t } (f (m.upper k))) := by
  have hsize := hp.size
  have hinside := hp.inside
  have hbound : stackSize + 1 < 65536 := by decide
  have hstack : (State.pushed { m.advance 1 with top := t } (f (m.upper k))).stack =
      m.stack.setIfInBounds h (f (m.upper k)) := by
    rw [State.pushed_stack, ht]
    rfl
  refine ⟨hp.running, rfl, ?_, ?_, fun i hi => ?_, rfl, rfl, rfl, rfl, rfl, rfl⟩
  · rw [State.toNat_pushed_top _ (by simp only [ht]; omega)]
    simp only [ht]
    omega
  · rw [hstack, show m.top.toNat - k = h by omega,
      Array.getElem?_setIfInBounds_self_of_lt (by omega)]
  · rw [hstack, Array.getElem?_setIfInBounds_ne (by omega)]

end Poised

/-- The result of an operation on one word, or on two, from the words. -/
def onOne (g : UInt32 → UInt32) (ws : List UInt32) : UInt32 := g (ws.getD 0 0)

def onTwo (g : UInt32 → UInt32 → UInt32) (ws : List UInt32) : UInt32 :=
  g (ws.getD 0 0) (ws.getD 1 0)

lemma replaces_unary {g} (hop : op.isOperator)
    (hg : ∀ sensors, Exec.perform sensors op = Exec.unary g) (hp : Poised op 1 m)
    (sensors : Sensors) : Replaces (onOne g) 1 m (m.step sensors).2 := by
  have hopnds := hp.operands
  have hinside := hp.inside
  obtain ⟨h, htop⟩ : ∃ h, m.top.toNat = h + 1 := ⟨m.top.toNat - 1, by omega⟩
  have hstep := hp.at_.step_unary sensors (hg sensors) (ne_label_of_isOperator hop)
    (isJump_of_isOperator hop) (hp.codeAt hop) htop (by omega) (by omega)
  have hword : g ((m.stack[h]?).getD 0) = onOne g (m.upper 1) := by
    simp [onOne, State.upper, htop, List.range_succ]
  rw [hstep, hword]
  exact hp.replaces htop Nat.one_pos (State.popped_top htop) _

lemma replaces_binary {g} (hop : op.isOperator)
    (hg : ∀ sensors, Exec.perform sensors op = Exec.binary g) (hp : Poised op 2 m)
    (sensors : Sensors) : Replaces (onTwo g) 2 m (m.step sensors).2 := by
  have hopnds := hp.operands
  have hinside := hp.inside
  obtain ⟨h, htop⟩ : ∃ h, m.top.toNat = h + 2 := ⟨m.top.toNat - 2, by omega⟩
  have hstep := hp.at_.step_binary sensors (hg sensors) (ne_label_of_isOperator hop)
    (isJump_of_isOperator hop) (hp.codeAt hop) htop (by omega) (by omega) (by omega)
  have hwords : g ((m.stack[h]?).getD 0) ((m.stack[h + 1]?).getD 0) = onTwo g (m.upper 2) := by
    simp [onTwo, State.upper, htop, List.range_succ]
  rw [hstep, hwords]
  exact hp.replaces htop Nat.two_pos (State.popped_top (State.popped_top htop)) _

/-- The complement of bits fails where it finds its operand alone above the header of the frame. -/
lemma complement_underflow (hp : Poised .bnot 1 m) (hone : m.top.toNat = m.frame.toNat + 4)
    (sensors : Sensors) : (m.step sensors).2.status = .operandUnderflow := by
  have hframe : m.frame.toNat < 256 := m.frame.toNat_lt
  have hroom : m.frame.toNat + 2 + 2 ≤ stackSize := by
    have : stackSize = 1024 := rfl
    omega
  exact hp.at_.step_binary_underflow sensors rfl (by decide) rfl (hp.codeAt rfl)
    (h := m.frame.toNat + 2) (by omega) (.inr rfl) hroom

end

lemma not_replaces_complement {m : State} (hp : Poised .bnot 1 m) {sensors} {f g}
    (htwo : m.frame.toNat + 5 ≤ m.top.toNat → Replaces g 2 m (m.step sensors).2) :
    ¬ Replaces f 1 m (m.step sensors).2 := by
  intro hone
  have hopnds : m.frame.toNat + 4 ≤ m.top.toNat := hp.operands
  -- it fails where the operand is alone, and takes one word too many where it is not
  rcases eq_or_lt_of_le hopnds with hshallow | hdeep
  · have hfailed := complement_underflow hp hshallow.symm sensors
    rw [hone.running] at hfailed
    cases hfailed
  · have h1 : (m.step sensors).2.top.toNat + 1 = m.top.toNat + 1 := hone.top
    have h2 := (htwo hdeep).top
    omega

/-- Inside every frame with its operands on the stack, an operator replaces exactly these by a
result that hangs on them alone, unless it is the complement of bits. That one does so in no state:
it fails where its operand is alone in the frame, and takes the word below along where there is
one. -/
theorem operator_replaces_operands {op : Opcode} (hop : op.isOperator = true) :
    ∃ f : List UInt32 → UInt32, ∀ (m : State) (sensors : Sensors), Poised op op.arity m →
      (op ≠ .bnot → Replaces f op.arity m (m.step sensors).2) ∧
      (op = .bnot → (∀ f', ¬ Replaces f' op.arity m (m.step sensors).2) ∧
        (m.top.toNat = m.frame.toNat + 4 → (m.step sensors).2.status = .operandUnderflow) ∧
        (m.frame.toNat + 5 ≤ m.top.toNat → Replaces f 2 m (m.step sensors).2)) := by
  rcases perform_operator hop with ⟨hne, harity, g, hg⟩ | ⟨hkind, g, hg⟩
  · refine ⟨onOne g, fun m sensors hp => ⟨fun _ => ?_, fun heq => absurd heq hne⟩⟩
    rw [harity] at hp ⊢
    exact replaces_unary hop hg hp sensors
  · refine ⟨onTwo g, fun m sensors hp => ⟨fun hne => ?_, ?_⟩⟩
    · rw [hkind.resolve_left hne] at hp ⊢
      exact replaces_binary hop hg hp sensors
    -- with a second word in the frame, the complement is an operator of two operands
    · rintro rfl
      have htwo (hdeep : m.frame.toNat + 5 ≤ m.top.toNat) :
          Replaces (onTwo g) 2 m (m.step sensors).2 :=
        replaces_binary hop hg { hp with operands := hdeep } sensors
      exact ⟨fun f' => not_replaces_complement hp htwo,
        fun hshallow => complement_underflow hp hshallow sensors, htwo⟩

def complementState : State where
  image := ⟨#[0x54], 0, 0, 0, 1⟩
  stack := Array.replicate (stackSize + 1) 5
  top := 4

theorem operator_replaces_complement : Poised .bnot 1 complementState ∧ ∀ sensors,
      (complementState.step sensors).2.status = .operandUnderflow ∧
      ∀ f, ¬ Replaces f 1 complementState (complementState.step sensors).2 := by
  have hpoised : Poised .bnot 1 complementState :=
    ⟨rfl, rfl, ⟨by decide, by decide⟩, by simp [complementState], by decide, by decide⟩
  obtain ⟨f, hf⟩ := @operator_replaces_operands .bnot rfl
  refine ⟨hpoised, fun sensors => ?_⟩
  obtain ⟨hnot, hshallow, -⟩ := (hf complementState sensors hpoised).2 rfl
  exact ⟨hshallow rfl, hnot⟩

end Machine

end ArmStudio
