import ArmStudio.Number.Single
import Mathlib.Algebra.Order.Ring.Abs
import Mathlib.Tactic.Ring
import Mathlib.Tactic.Zify

/-!
# Nearest numbers

The magnitudes of a format are in the order of their patterns (`units_strictMono`), and no magnitude
is nearer to a quotient than the one that it is rounded to (`roundUnits_nearest`).
-/

namespace ArmStudio.Number

namespace Format

variable (f : Format)

lemma leading_pos : 0 < f.leading := Nat.two_pow_pos _

/-- A pattern is made of digits and the power of two of their last place. -/
lemma units_digits {j m : Nat} (hm : m ≤ 2 * f.leading) (hj : j = 0 ∨ f.leading ≤ m) :
    f.units (j * f.leading + m) = m * Nat.pow 2 j := by
  have hpos := f.leading_pos
  have hfields (i r : Nat) (hr : r < f.leading) :
      f.units ((i + 1) * f.leading + r) = (f.leading + r) * Nat.pow 2 i := by
    have hdiv : ((i + 1) * f.leading + r) / f.leading = i + 1 := by
      rw [add_comm, Nat.add_mul_div_right _ _ hpos, Nat.div_eq_of_lt hr, zero_add]
    have hmod : ((i + 1) * f.leading + r) % f.leading = r := by
      rw [add_comm, Nat.add_mul_mod_self_right, Nat.mod_eq_of_lt hr]
    rw [units, digits, shift, if_neg (by rw [Nat.add_mul]; omega), hdiv, hmod, Nat.add_sub_cancel,
      Nat.shiftLeft_eq, Nat.pow_eq]
  rcases lt_or_ge m f.leading with hlow | hhigh
  · obtain rfl : j = 0 := by omega
    simp [units, digits, shift, hlow, Nat.div_eq_of_lt]
  · obtain ⟨r, rfl⟩ := Nat.exists_eq_add_of_le hhigh
    rcases lt_or_ge r f.leading with hr | hr
    · rw [← hfields j r hr, Nat.add_mul, one_mul, add_assoc]
    · obtain rfl : r = f.leading := by omega
      rw [show j * f.leading + (f.leading + f.leading) = (j + 1 + 1) * f.leading + 0 by ring,
        hfields (j + 1) 0 hpos, show Nat.pow 2 (j + 1) = Nat.pow 2 j * 2 from rfl]
      ring

lemma exists_digits (k : Nat) :
    ∃ j m, k = j * f.leading + m ∧ m < 2 * f.leading ∧ (j = 0 ∨ f.leading ≤ m) := by
  have hpos := f.leading_pos
  rcases lt_or_ge k f.leading with hlow | hhigh
  · exact ⟨0, k, by simp, by omega, .inl rfl⟩
  · have hmod := Nat.mod_lt k hpos
    have hsplit := Nat.div_add_mod' k f.leading
    obtain ⟨j, hj⟩ := Nat.exists_eq_add_of_le' (Nat.div_pos hhigh hpos)
    rw [hj, Nat.add_mul] at hsplit
    exact ⟨j, f.leading + k % f.leading, by omega, by omega, .inr (by omega)⟩

lemma units_strictMono : StrictMono f.units := by
  refine strictMono_nat_of_lt_succ fun k => ?_
  obtain ⟨j, m, rfl, hm, hj⟩ := f.exists_digits k
  rw [add_assoc, f.units_digits hm.le hj, f.units_digits hm (by omega)]
  exact Nat.mul_lt_mul_of_pos_right (Nat.lt_succ_self m) (Nat.two_pow_pos j)

/-! ## Rounding -/

/-- The digits of a natural before its last place make the pattern below it. -/
lemma patternBelow_spec (n : Nat) : ∃ j, (j = 0 ∨ f.leading * Nat.pow 2 j ≤ n) ∧
    f.units (f.patternBelow n) = n / Nat.pow 2 j * Nat.pow 2 j ∧
    f.units (f.patternBelow n + 1) = f.units (f.patternBelow n) + Nat.pow 2 j := by
  obtain ⟨j, hj⟩ : ∃ j, Nat.log2 n - f.fractionBits = j := ⟨_, rfl⟩
  have hpos : 0 < Nat.pow 2 j := Nat.two_pow_pos j
  have hmost : n < 2 * f.leading * Nat.pow 2 j := by
    calc n < 2 ^ (Nat.log2 n + 1) := Nat.lt_log2_self
      _ ≤ 2 ^ (1 + f.fractionBits + j) := Nat.pow_le_pow_right Nat.two_pos (by omega)
      _ = 2 * f.leading * Nat.pow 2 j := by rw [pow_add, pow_add, pow_one]; rfl
  have hleast : j = 0 ∨ f.leading * Nat.pow 2 j ≤ n := by
    refine Nat.eq_zero_or_pos j |>.imp_right fun hj0 => ?_
    calc f.leading * Nat.pow 2 j = 2 ^ (f.fractionBits + j) := (pow_add 2 _ _).symm
      _ = 2 ^ Nat.log2 n := by congr 1; omega
      _ ≤ n := Nat.log2_self_le (by rintro rfl; simp at hj; omega)
  have hdigits : n / Nat.pow 2 j < 2 * f.leading := (Nat.div_lt_iff_lt_mul hpos).2 hmost
  have hnormal : j = 0 ∨ f.leading ≤ n / Nat.pow 2 j :=
    hleast.imp_right (Nat.le_div_iff_mul_le hpos).2
  refine ⟨j, hleast, ?_⟩
  rw [patternBelow, hj, Nat.shiftRight_eq_div_pow, ← Nat.pow_eq, add_assoc,
    f.units_digits hdigits.le hnormal, f.units_digits hdigits (by omega), Nat.succ_mul]
  exact ⟨rfl, rfl⟩

variable {num den : Nat} (hden : 0 < den)

include hden

lemma patternBelow_quotient (num : Nat) : ∃ j, (j = 0 ∨ f.leading * Nat.pow 2 j * den ≤ num) ∧
    f.units (f.patternBelow (num / den)) * den ≤ num ∧
    num < f.units (f.patternBelow (num / den) + 1) * den ∧
    f.units (f.patternBelow (num / den) + 1) =
      f.units (f.patternBelow (num / den)) + Nat.pow 2 j := by
  obtain ⟨j, hj, hbelow, hnext⟩ := f.patternBelow_spec (num / den)
  have hpos : 0 < Nat.pow 2 j := Nat.two_pow_pos j
  refine ⟨j, hj.imp_right (Nat.le_div_iff_mul_le hden).1, (Nat.le_div_iff_mul_le hden).1 ?_,
    (Nat.div_lt_iff_lt_mul hden).1 ?_, hnext⟩
  · rw [hbelow]
    exact Nat.div_mul_le_self _ _
  · rw [hnext, hbelow]
    exact Nat.lt_div_mul_add hpos

/-- No magnitude is nearer to a quotient than the rounded one, and another is as near only if the
rounded one is even. -/
theorem roundUnits_nearest (num : Nat) {k : Nat} (hk : k ≤ f.infinity) :
    |(num : Int) - f.units (f.roundUnits num den) * den| ≤ |(num : Int) - f.units k * den| ∧
      (|(num : Int) - f.units (f.roundUnits num den) * den| = |(num : Int) - f.units k * den| →
        f.units k = f.units (f.roundUnits num den) ∨ f.roundUnits num den % 2 = 0) := by
  have hmono {k k' : Nat} (h : k ≤ k') : (f.units k : Int) * den ≤ f.units k' * den := by
    exact_mod_cast Nat.mul_le_mul_right den (f.units_strictMono.monotone h)
  have hcancel (r : Nat) : f.units k = f.units r ↔ (f.units k : Int) * den = f.units r * den := by
    exact_mod_cast (Nat.mul_left_inj hden.ne').symm
  obtain ⟨-, -, hleast, hmost, -⟩ := f.patternBelow_quotient hden num
  rw [hcancel]
  unfold roundUnits
  dsimp only
  generalize f.patternBelow (num / den) = below at hleast hmost ⊢
  rw [Nat.add_mul]
  zify at hleast hmost ⊢
  rcases lt_or_ge below f.infinity with hin | hout
  · -- one of the two neighbours, and all other magnitudes are beyond them
    rw [min_eq_right (by split <;> omega)]
    rcases lt_or_ge below k with h | h
    all_goals
      have := hmono h
      split <;> grind
  · rw [min_eq_left (by split <;> omega)]
    have := hmono hout
    have := hmono hk
    grind

lemma roundUnits_eq {k : Nat} (h : num = f.units k * den) (hk : k ≤ f.infinity) :
    f.roundUnits num den = k := by
  obtain ⟨hnear, -⟩ := f.roundUnits_nearest hden num hk
  rw [h, Nat.cast_mul, sub_self, abs_zero, abs_nonpos_iff, sub_eq_zero, ← h] at hnear
  exact f.units_strictMono.injective (Nat.mul_right_cancel hden (by exact_mod_cast hnear.symm))

lemma roundUnits_le {k : Nat} (h : num ≤ f.units k * den) : f.roundUnits num den ≤ k := by
  by_contra hlt
  have hmost : f.roundUnits num den ≤ f.infinity := Nat.min_le_left _ _
  have hnear := (f.roundUnits_nearest hden num (k := k) (by omega)).1
  have hunits : (f.units k : Int) * den < f.units (f.roundUnits num den) * den := by
    exact_mod_cast Nat.mul_lt_mul_of_pos_right (f.units_strictMono (not_le.1 hlt)) hden
  zify at h
  grind

/-- A quotient is rounded by half a unit of its last place at most. -/
lemma roundUnits_error (h : num < f.units f.infinity * den) : ∃ j,
    (j = 0 ∨ f.leading * Nat.pow 2 j * den ≤ num) ∧
      2 * |(num : Int) - f.units (f.roundUnits num den) * den| ≤ (Nat.pow 2 j * den : Nat) := by
  obtain ⟨j, hj, hleast, hmost, hnext⟩ := f.patternBelow_quotient hden num
  have hin := f.units_strictMono.lt_iff_lt.1 (Nat.lt_of_mul_lt_mul_right (hleast.trans_lt h))
  obtain ⟨hbelow, -⟩ := f.roundUnits_nearest hden num hin.le
  obtain ⟨habove, -⟩ := f.roundUnits_nearest hden num (Nat.succ_le_of_lt hin)
  refine ⟨j, hj, ?_⟩
  rw [Nat.succ_eq_add_one, hnext] at habove
  rw [hnext, Nat.add_mul] at hmost
  push_cast [add_mul] at habove ⊢
  zify at hleast hmost
  grind

end Format

namespace Single

open Format

variable (x : Single)

lemma natAbs_units : x.units.natAbs = single.units x.magnitude := by
  unfold units
  split <;> simp

lemma datum_eq : x.datum =
    if x.magnitude < single.infinity then
      .finite x.isNegative (single.digits x.magnitude) (single.minExp + single.shift x.magnitude)
    else if x.magnitude = single.infinity then .infinite x.isNegative
    else .notANumber x.isNegative := by
  have hlt := x.bits.toNat_lt
  have hsign : x.isNegative = (x.bits.toNat / single.signWeight % 2 == 1) := by
    rw [isNegative, Bool.eq_iff_iff, show single.signWeight = 2147483648 from rfl]
    simp
    omega
  rw [hsign]
  rfl

end Single

end ArmStudio.Number
