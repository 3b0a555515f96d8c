import ArmStudio.Digest
import Mathlib.Analysis.SpecialFunctions.Trigonometric.Basic
import Mathlib.Data.Nat.Cast.Field
import Mathlib.NumberTheory.Zsqrtd.GaussianInt

/-!
# The table of sines

The constants of the 64 steps are the integer parts of `4294967296 * |sin i|` for `i` from 1 on
(`toNat_sines`). The sines are the imaginary parts of the powers of `exp I`, which the first terms
of the exponential series give closely enough:

* `expSum` is that sum over the common denominator `20!`, a Gaussian integer, so that its powers are
  computed exactly;
* `norm_pow_sub_le`: powers of numbers close to each other are close;
* `sines_near`: each constant is the integer part of what the powers of `expSum` give, with room for
  the error.
-/

namespace ArmStudio.Digest

open Complex Finset Nat

/-- The sum of the first 21 terms of the exponential series at the imaginary unit, times `20!`. -/
def expSum : GaussianInt := ∑ m ∈ range 21, ((20)! / m ! : Nat) * (⟨0, 1⟩ : GaussianInt) ^ m

lemma toComplex_expSum : GaussianInt.toComplex expSum = (20)! * ∑ m ∈ range 21, I ^ m / m ! := by
  have hunit : GaussianInt.toComplex ⟨0, 1⟩ = I := by simp [GaussianInt.toComplex_def]
  rw [expSum, map_sum, mul_sum]
  -- `m !` divides `20!`, so no term of the sum is rounded
  refine sum_congr rfl fun m hm => ?_
  have hle : m ≤ 20 := by
    rw [mem_range] at hm
    omega
  have hne : (m ! : ℂ) ≠ 0 := by exact_mod_cast factorial_ne_zero m
  rw [map_mul, map_pow, hunit, map_natCast, Nat.cast_div (factorial_dvd_factorial hle) hne]
  ring

lemma norm_exp_sub_expSum :
    ‖exp I - GaussianInt.toComplex expSum / (20)!‖ ≤ 1 / 1000000000000000000 := by
  have hbound := exp_bound (x := I) (n := 21) (by simp) (by norm_num)
  have hne : ((20)! : ℂ) ≠ 0 := by exact_mod_cast factorial_ne_zero 20
  rw [toComplex_expSum, mul_div_cancel_left₀ _ hne]
  -- what is left of the series is about its next term, `1 / 21!`
  refine hbound.trans ?_
  norm_num [factorial]

lemma norm_pow_sub_le {z p : ℂ} {e : ℝ} (hz : ‖z‖ = 1) (h : ‖z - p‖ ≤ e) (k : Nat)
    (hk : 2 * k * e ≤ 1) : ‖z ^ k - p ^ k‖ ≤ 2 * k * e := by
  have he : 0 ≤ e := (norm_nonneg _).trans h
  induction k with
  | zero => simp
  | succ k ih =>
    push_cast at hk ⊢
    have hprev := ih (by nlinarith)
    have hp : ‖p ^ k‖ ≤ 2 := by
      have hdist := norm_sub_norm_le (p ^ k) (z ^ k)
      rw [norm_sub_rev, norm_pow z, hz, one_pow] at hdist
      nlinarith
    -- the error so far is turned by `z`, and one more factor adds the error of that factor
    have hsplit : z ^ (k + 1) - p ^ (k + 1) = (z ^ k - p ^ k) * z + p ^ k * (z - p) := by ring
    calc ‖z ^ (k + 1) - p ^ (k + 1)‖
        ≤ ‖z ^ k - p ^ k‖ * ‖z‖ + ‖p ^ k‖ * ‖z - p‖ := by
          rw [hsplit, ← norm_mul, ← norm_mul]
          exact norm_add_le _ _
      _ ≤ 2 * k * e * 1 + 2 * e := by
          rw [hz]
          gcongr
      _ = 2 * (k + 1) * e := by ring

lemma abs_sin_sub_expSum {k : Nat} (hk : k ≤ 64) :
    |Real.sin k - (expSum ^ k).im / ((20)! : ℝ) ^ k| ≤ 1 / 7000000000000000 := by
  have hpow : exp I ^ k = exp ((k : ℝ) * I) := by
    rw [← exp_nat_mul]
    push_cast
    rfl
  have hsin : (exp I ^ k).im = Real.sin k := by rw [hpow, exp_ofReal_mul_I_im]
  have him : ((GaussianInt.toComplex expSum / (20)!) ^ k).im =
      (expSum ^ k).im / ((20)! : ℝ) ^ k := by
    rw [div_pow, ← map_pow, ← Nat.cast_pow, ← Nat.cast_pow, div_natCast_im, GaussianInt.intCast_im]
  have hcircle : ‖exp I‖ = 1 := by simpa using norm_exp_ofReal_mul_I 1
  have hk' : (k : ℝ) ≤ 64 := by exact_mod_cast hk
  have hnorm := norm_pow_sub_le hcircle norm_exp_sub_expSum k (by linarith)
  rw [← hsin, ← him, ← sub_im]
  refine (abs_im_le_norm _).trans (hnorm.trans ?_)
  linarith

/-- Each constant is the integer part of what the powers of `expSum` give, which stays a thousandth
away from the next integers. -/
theorem sines_near : ∀ i < 64, (1000 * (sines.getD i 0).toNat + 1) * (20)! ^ (i + 1) ≤
        1000 * 4294967296 * (expSum ^ (i + 1)).im.natAbs ∧
      1000 * 4294967296 * (expSum ^ (i + 1)).im.natAbs ≤
        (1000 * (sines.getD i 0).toNat + 999) * (20)! ^ (i + 1) := by
  decide +kernel

lemma floor_eq_of_near {x : ℝ} {y : Int} {d t : Nat} (hd : 0 < d)
    (hx : |x - y / d| ≤ 1 / 7000000000000000)
    (hlow : (1000 * t + 1) * d ≤ 1000 * 4294967296 * y.natAbs)
    (hhigh : 1000 * 4294967296 * y.natAbs ≤ (1000 * t + 999) * d) :
    ⌊4294967296 * |x|⌋₊ = t := by
  have hd' : (0 : ℝ) < d := by exact_mod_cast hd
  have habs : |((y : ℝ) / d)| = (y.natAbs : ℝ) / d := by
    rw [abs_div, abs_of_pos hd', Nat.cast_natAbs, Int.cast_abs]
  have hlow' : (1000 * t + 1 : ℝ) ≤ 1000 * 4294967296 * (y.natAbs / d) := by
    rw [← mul_div_assoc, le_div_iff₀ hd']
    exact_mod_cast hlow
  have hhigh' : (1000 * 4294967296 * (y.natAbs / d) : ℝ) ≤ 1000 * t + 999 := by
    rw [← mul_div_assoc, div_le_iff₀ hd']
    exact_mod_cast hhigh
  -- the error is small against the thousandth that is left on either side
  have hnear := (abs_abs_sub_abs_le_abs_sub x (y / d)).trans hx
  rw [habs, abs_le] at hnear
  rw [Nat.floor_eq_iff (by positivity)]
  constructor <;> linarith

/-- The constant of a step is the integer part of `4294967296` times a sine. -/
theorem toNat_sines {i : Nat} (h : i < 64) :
    (sines.getD i 0).toNat = ⌊4294967296 * |Real.sin (i + 1 : Nat)|⌋₊ := by
  obtain ⟨hlow, hhigh⟩ := sines_near i h
  have herror := abs_sin_sub_expSum (k := i + 1) (by omega)
  rw [← Nat.cast_pow] at herror
  exact (floor_eq_of_near (by positivity) herror hlow hhigh).symm

end ArmStudio.Digest
