import ArmStudio.Motion.Trig
import Mathlib.Tactic.SplitIfs

/-!
# The sine of whole numbers of steps

The table holds a quarter of the wave, the rest is found by symmetry. `sineOfSteps_symmetries`: for
every whole number of hundredths of a degree the index lies in the table, and the wave has its
period and its reflections.

Each symmetry is one of places in the table (`sinePlace_neg`, `sinePlace_reflect`,
`sinePlace_half`). Only where the index is zero does the sign stay open, and the entry there is
zero.
-/

namespace ArmStudio.Motion

open Number

/-- The same number, zeros of either sign being equal. -/
def SameNumber (x y : Single) : Prop := x = y ∨ x.abs = 0 ∧ y.abs = 0

/-- The same place in the table, up to the sign at the index zero. -/
def SamePlace (p q : Bool × Int) : Prop := p = q ∨ p.2 = 0 ∧ q.2 = 0

def flip (p : Bool × Int) : Bool × Int := (!p.1, p.2)

/-! ## Places -/

lemma wrapped_eq_emod (a : Int) :
    (if a.tmod 36000 < 0 then a.tmod 36000 + 36000 else a.tmod 36000) = a % 36000 := by
  rw [Int.tmod_eq_emod]
  split_ifs <;> omega

lemma sinePlace_eq (a : Int) : sinePlace a =
    if a % 36000 < 9000 then (false, a % 36000)
    else if a % 36000 < 18000 then (false, 18000 - a % 36000)
    else if a % 36000 < 27000 then (true, a % 36000 - 18000)
    else (true, 36000 - a % 36000) := by
  simp only [sinePlace, wrapped_eq_emod]

variable (a : Int)

lemma sinePlace_inside : 0 ≤ (sinePlace a).2 ∧ (sinePlace a).2 ≤ 9000 := by
  rw [sinePlace_eq]
  split_ifs <;> constructor <;> dsimp only <;> omega

lemma sinePlace_period : sinePlace (a + 36000) = sinePlace a := by
  rw [sinePlace_eq, sinePlace_eq, Int.add_emod_right]

/-- Half a turn further the table is read at the same index, with the other sign. -/
lemma sinePlace_half : sinePlace (a + 18000) = flip (sinePlace a) := by
  simp only [sinePlace_eq, flip]
  split_ifs <;> simp <;> omega

lemma sinePlace_reflect : SamePlace (sinePlace (18000 - a)) (sinePlace a) := by
  simp only [SamePlace, sinePlace_eq]
  split_ifs <;> simp <;> omega

lemma sinePlace_neg : SamePlace (sinePlace (-a)) (flip (sinePlace a)) := by
  have hreflect := sinePlace_reflect (a + 18000)
  rwa [show 18000 - (a + 18000) = -a by omega, sinePlace_half] at hreflect

/-! ## Entries -/

lemma sineAt_flip (p : Bool × Int) : sineAt (flip p) = -sineAt p := by
  have hneg (x : Single) : - -x = x := by
    change (⟨x.bits + 0x80000000 + 0x80000000⟩ : Single) = x
    rw [UInt32.add_assoc, show (0x80000000 + 0x80000000 : UInt32) = 0 from rfl, UInt32.add_zero]
  rcases p with ⟨_ | _, i⟩ <;> simp [sineAt, flip, hneg]

lemma sameNumber_sineAt {p q} (h : SamePlace p q) : SameNumber (sineAt p) (sineAt q) := by
  have hzero (b : Bool) : (sineAt (b, 0)).abs = 0 := by
    cases b <;> decide +kernel
  rcases h with rfl | ⟨hp, hq⟩
  · exact .inl rfl
  · rcases p with ⟨b, i⟩
    rcases q with ⟨c, j⟩
    cases hp
    cases hq
    exact .inr ⟨hzero b, hzero c⟩

/-- The table is read inside, and the sine has the period of a turn, changes its sign with the angle
and over half a turn, and is the same at the supplement. -/
theorem sineOfSteps_symmetries :
    (0 ≤ (sinePlace a).2 ∧ (sinePlace a).2 ≤ 9000) ∧
      SameNumber (sineOfSteps (a + 36000)) (sineOfSteps a) ∧
      SameNumber (sineOfSteps (-a)) (-sineOfSteps a) ∧
      SameNumber (sineOfSteps (18000 - a)) (sineOfSteps a) ∧
      SameNumber (sineOfSteps (a + 18000)) (-sineOfSteps a) ∧
      ∀ i : Fin 9001, sineOfSteps i = sineEntry i := by
  refine ⟨sinePlace_inside a, .inl (by rw [sineOfSteps, sinePlace_period, sineOfSteps]), ?_,
    sameNumber_sineAt (sinePlace_reflect a), ?_, fun i => ?_⟩
  · rw [sineOfSteps, sineOfSteps, ← sineAt_flip]
    exact sameNumber_sineAt (sinePlace_neg a)
  · rw [sineOfSteps, sineOfSteps, ← sineAt_flip, sinePlace_half]
    exact .inl rfl
  · have hi : sinePlace i = (false, ((i : Nat) : Int)) := by
      rw [sinePlace_eq]
      split_ifs <;> simp <;> omega
    simp [sineOfSteps, sineAt, hi]

end ArmStudio.Motion
