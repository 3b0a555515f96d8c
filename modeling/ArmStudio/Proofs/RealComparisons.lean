import ArmStudio.Proofs.NearestNumbers
import ArmStudio.Proofs.Operators
import Mathlib

/-!
# Comparisons of real numbers

The numbers of the 32-bit format are in the order of their patterns without the sign, the negative
ones in the opposite order. The machine compares the words as integers, and for equality of numbers
it leaves the number one, not the integer. The instances of `WithBot (WithTop ℤ)` are those of
all of Mathlib.
-/

namespace ArmStudio

namespace Number

open Format

/-- The place of a number in the order of numbers. -/
def Single.rank (x : Single) : Int :=
  if x.bits.toNat < 2147483648 then x.magnitude else -(x.magnitude : Int)

lemma Single.units_lt_iff (x y : Single) : x.units < y.units ↔ x.rank < y.rank := by
  have hmono (k k' : Nat) := single.units_strictMono.lt_iff_lt (a := k) (b := k')
  have hpos := hmono 0
  rw [show single.units 0 = 0 from rfl] at hpos
  have hx := hpos x.magnitude
  have hy := hpos y.magnitude
  have hxy := hmono x.magnitude y.magnitude
  have hyx := hmono y.magnitude x.magnitude
  simp only [units, rank, isNegative, decide_eq_true_eq]
  split <;> split <;> (try split) <;> omega

/-- The number that a datum of the format denotes, as a multiple of the smallest positive one, among
the integers and both infinities. -/
def Datum.value? : Datum → Option (WithBot (WithTop ℤ))
  | .finite negative man exp =>
    let n : ℤ := man * Nat.pow 2 (exp - single.minExp).toNat
    some ((if negative then -n else n : ℤ) : WithTop ℤ)
  | .infinite negative => some (if negative then ⊥ else ⊤)
  | .notANumber _ => none

/-- The value at a multiple of the smallest positive number, with infinities at both ends. -/
def valueAt (u : Int) : WithBot (WithTop ℤ) :=
  if u ≤ -single.units 0x7f800000 then ⊥
  else if single.units 0x7f800000 ≤ u then ⊤ else (u : WithTop ℤ)

lemma valueAt_strictMonoOn : StrictMonoOn valueAt
    (Set.Icc (-single.units 0x7f800000) (single.units 0x7f800000)) := by
  intro r hr s hs h
  rw [Set.mem_Icc] at hr hs
  unfold valueAt
  generalize (single.units 0x7f800000 : Int) = most at *
  rw [if_neg (show ¬s ≤ -most by omega), if_neg (show ¬most ≤ r by omega)]
  split <;> split
  · exact WithBot.bot_lt_coe _
  · exact WithBot.bot_lt_coe _
  · exact WithBot.coe_lt_coe.2 (WithTop.coe_lt_top _)
  · exact WithBot.coe_lt_coe.2 (WithTop.coe_lt_coe.2 h)

lemma Single.units_mem {x : Single} (h : x.magnitude ≤ 0x7f800000) :
    x.units ∈ Set.Icc (-single.units 0x7f800000 : Int) (single.units 0x7f800000) := by
  have hle := single.units_strictMono.monotone h
  have hsize := x.natAbs_units
  rw [Set.mem_Icc]
  omega

lemma Single.value?_eq {x : Single} {X} (h : x.datum.value? = some X) :
    x.magnitude ≤ 0x7f800000 ∧ X = valueAt x.units := by
  rw [datum_eq, show single.infinity = 0x7f800000 from rfl] at h
  split at h
  next hin =>
    have hless := single.units_strictMono hin
    have hsize := x.natAbs_units
    cases h
    rw [valueAt, if_neg (show ¬x.units ≤ _ by omega), if_neg (show ¬_ ≤ x.units by omega), units,
      Format.units, show (single.minExp + (single.shift x.magnitude : Int) - single.minExp).toNat =
        single.shift x.magnitude by omega, Nat.shiftLeft_eq, Nat.cast_mul]
    exact ⟨hin.le, rfl⟩
  next =>
    split at h
    next hinf =>
      cases h
      have hpos := single.units_strictMono (show 0 < 0x7f800000 by decide)
      rw [show single.units 0 = 0 from rfl] at hpos
      refine ⟨hinf.le, ?_⟩
      rw [units, hinf, valueAt]
      cases x.isNegative
      · simp [hpos.ne']
      · simp
    next => cases h

end Number

namespace Code.Opcode

/-- The relation that a comparison is for. -/
def holds {α : Type} [LinearOrder α] : Opcode → α → α → Bool
  | feq, x, y => x = y
  | fne, x, y => x ≠ y
  | fgt, x, y => y < x
  | flt, x, y => x < y
  | fge, x, y => y ≤ x
  | fle, x, y => x ≤ y
  | _, _, _ => false

end Code.Opcode

namespace Machine

open Code Number

/-- The first of two numbers has the smaller word, but not the smaller value. -/
def Inverted (a b : Single) : Prop :=
  Exec.signed a.bits < 0 ∧ a ≠ b ∧ (Exec.signed b.bits < 0 ∨ a.datum.value? = b.datum.value?)

/-- The operands for which a comparison does not give the truth of its relation. -/
def GoesAstray : Opcode → Single → Single → Prop
  | .feq, a, b => a.datum.value? = b.datum.value?
  | .fne, a, b => a.datum.value? = b.datum.value? ∧ a ≠ b
  | .flt, a, b | .fge, a, b => Inverted a b
  | .fgt, a, b | .fle, a, b => Inverted b a
  | _, _, _ => False

lemma signed_and_rank (x : Single) : x.bits.toNat < 4294967296 ∧
    (x.bits.toNat < 2147483648 ∧ (Exec.signed x.bits).toInt = x.bits.toNat ∧ x.rank = x.bits.toNat ∨
      2147483648 ≤ x.bits.toNat ∧ (Exec.signed x.bits).toInt = x.bits.toNat - 4294967296 ∧
        x.rank = 2147483648 - x.bits.toNat) := by
  have hlt := x.bits.toNat_lt
  have hsigned : (Exec.signed x.bits).toInt = x.bits.toBitVec.toInt := rfl
  rw [hsigned, BitVec.toInt_eq_toNat_cond, UInt32.toNat_toBitVec]
  simp only [Single.rank, Single.magnitude]
  split <;> split <;> omega

section

variable {a b : Single} {A B : WithBot (WithTop ℤ)} (hA : a.datum.value? = some A)
  (hB : b.datum.value? = some B)
include hA hB

lemma value_lt_iff : A < B ↔ a.units < b.units := by
  obtain ⟨ha, rfl⟩ := Single.value?_eq hA
  obtain ⟨hb, rfl⟩ := Single.value?_eq hB
  exact valueAt_strictMonoOn.lt_iff_lt (Single.units_mem ha) (Single.units_mem hb)

lemma value_eq_iff : A = B ↔ a.units = b.units := by
  obtain ⟨ha, rfl⟩ := Single.value?_eq hA
  obtain ⟨hb, rfl⟩ := Single.value?_eq hB
  exact valueAt_strictMonoOn.eq_iff_eq (Single.units_mem ha) (Single.units_mem hb)

lemma signed_lt_iff [Decidable (Inverted a b)] : Exec.signed a.bits < Exec.signed b.bits ↔
    if Inverted a b then ¬ A < B else A < B := by
  have ha := signed_and_rank a
  have hb := signed_and_rank b
  have hne : a ≠ b ↔ a.bits.toNat ≠ b.bits.toNat := by
    rw [ne_eq, ne_eq, UInt32.toNat_inj, Single.mk.injEq]
  have hrank := a.units_lt_iff b
  have hrank' := b.units_lt_iff a
  rw [value_lt_iff hA hB, Int32.lt_iff_toInt_lt]
  split
  all_goals
    rename_i h
    rw [Inverted, hA, hB, Option.some_inj, value_eq_iff hA hB, hne, Int32.lt_iff_toInt_lt,
      Int32.lt_iff_toInt_lt, Int32.toInt_zero] at h
    omega

end

/-- A comparison replaces two numbers by the truth of its relation, unless they lead it astray. Then
equality leaves the number one instead, and the others the opposite. -/
theorem real_comparison_result {op : Opcode} (hop : op ∈ [.feq, .fne, .fgt, .flt, .fge, .fle])
    {m : State} (hp : Poised op 2 m) {a b : Single} (hwords : m.upper 2 = [a.bits, b.bits])
    {A B : WithBot (WithTop ℤ)} (hA : a.datum.value? = some A) (hB : b.datum.value? = some B)
    (sensors : Sensors) :
    ∃ w, Replaces (fun _ => w) 2 m (m.step sensors).2 ∧
      (¬ GoesAstray op a b → w = Exec.ofBool (op.holds A B)) ∧
      (GoesAstray op a b →
        w = if op = .feq then (1 : Single).bits else Exec.ofBool (!op.holds A B)) := by
  have hreplaces {g : UInt32 → UInt32 → UInt32} (hoper : op.isOperator = true)
      (hg : ∀ sensors, Exec.perform sensors op = Exec.binary g) :
      Replaces (fun _ => g a.bits b.bits) 2 m (m.step sensors).2 := by
    have hr := replaces_binary hoper hg hp sensors
    exact { hr with result := by rw [hr.result, hwords]; rfl }
  have heq : a.datum.value? = b.datum.value? ↔ A = B := by rw [hA, hB, Option.some_inj]
  have heqv : a.eqv b = decide (A = B) := by
    have ha := (Single.value?_eq hA).1
    have hb := (Single.value?_eq hB).1
    simp [Single.eqv, Single.isNaN, ha, hb, value_eq_iff hA hB]
  have hsame : (Exec.signed a.bits == Exec.signed b.bits) = decide (a = b) := by
    rw [Bool.eq_iff_iff, beq_iff_eq, decide_eq_true_iff]
    exact ⟨fun h => congrArg (fun w : Int32 => (⟨w.toUInt32⟩ : Single)) h, fun h => by rw [h]⟩
  have hle (x y : UInt32) : Exec.signed y ≤ Exec.signed x ↔ ¬ Exec.signed x < Exec.signed y :=
    Int32.not_lt.symm
  classical
  have hlt := signed_lt_iff hA hB
  have hgt := signed_lt_iff hB hA
  simp only [List.mem_cons, List.not_mem_nil, or_false] at hop
  rcases hop with rfl | rfl | rfl | rfl | rfl | rfl
  all_goals
    refine ⟨_, hreplaces rfl fun _ => rfl, fun h => ?_, fun h => ?_⟩
    all_goals simp only [GoesAstray, heq] at h
  · show (if a.eqv b then _ else _ : Single).bits = _
    simp [Opcode.holds, heqv, h, Exec.ofBool, show (0 : Single).bits = 0 by decide +kernel]
  · show (if a.eqv b then _ else _ : Single).bits = _
    simp [heqv, h]
  · have hfun : a = b → A = B := fun hab => heq.1 (hab ▸ rfl)
    simp [Opcode.holds, bne, hsame, show a = b ↔ A = B by grind]
  · simp [Opcode.holds, bne, hsame, h]
  -- the other four hang on the order alone
  all_goals simp [Opcode.holds, hle, hlt, hgt, h, ← decide_not]

/-- A machine before the comparison of -1.5 and -2.5. -/
def lessState : State where
  image := ⟨#[0x74], 0, 0, 0, 1⟩
  stack := (Array.replicate (stackSize + 1) 0xbfc00000).setIfInBounds 4 0xc0200000
  top := 5

theorem real_comparison_lessState :
    Poised .flt 2 lessState ∧ GoesAstray .flt ⟨0xbfc00000⟩ ⟨0xc0200000⟩ ∧
      ∀ sensors, Replaces (fun _ => 1) 2 lessState (lessState.step sensors).2 := by
  have hpoised : Poised .flt 2 lessState :=
    ⟨rfl, rfl, ⟨by decide, by decide⟩, by simp [lessState], by decide, by decide⟩
  have hastray : GoesAstray .flt ⟨0xbfc00000⟩ ⟨0xc0200000⟩ :=
    ⟨by decide, by decide, .inl (by decide)⟩
  have hwords : lessState.upper 2 =
      [(⟨0xbfc00000⟩ : Single).bits, (⟨0xc0200000⟩ : Single).bits] := by
    simp [State.upper, lessState, stackSize, List.range_succ]
  refine ⟨hpoised, hastray, fun sensors => ?_⟩
  obtain ⟨w, hreplaces, _, hw⟩ := real_comparison_result (by simp) hpoised hwords rfl rfl sensors
  cases hw hastray
  exact hreplaces

end Machine

end ArmStudio
