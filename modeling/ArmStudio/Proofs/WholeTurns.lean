import ArmStudio.Motion.Arm
import ArmStudio.Proofs.NumberCodec

/-!
# Removing whole turns

An angle is brought to its normal range by adding or taking off a turn until it lies there. Each
time the result is rounded, so this ends for the numbers up to 2^27 only (`normalize_ends_iff`). Up
to there a sum is rounded by four at most, which leaves more than two of the turn (`add_small`).
Above, the numbers are multiples of sixteen, and a turn more or less changes nothing (`add_large`).
-/

namespace ArmStudio

namespace Number.Single

open Format

variable {x y : Single}

/-- The numbers below infinity. -/
def Finite (x : Single) : Prop := x.magnitude < single.infinity

lemma finite_iff : x.Finite ↔ x.units.natAbs < 2 ^ 277 := by
  rw [natAbs_units, show 2 ^ 277 = single.units single.infinity by decide +kernel]
  exact single.units_strictMono.lt_iff_lt.symm

lemma Finite.isNaN (h : x.Finite) : x.isNaN = false := decide_eq_false h.not_gt

lemma lt_iff (hx : x.Finite) (hy : y.Finite) : x.lt y ↔ x.units < y.units := by
  simp [Single.lt, hx.isNaN, hy.isNaN]

lemma le_iff (hx : x.Finite) (hy : y.Finite) : x.le y ↔ x.units ≤ y.units := by
  simp [Single.le, hx.isNaN, hy.isNaN]

/-! ## Sums -/

lemma fields_ofUnits (negative : Bool) (n : Nat) :
    (ofUnits negative n).magnitude = single.roundUnits n 1 ∧
      (ofUnits negative n).isNegative = negative :=
  fields_pattern ((Nat.min_le_left _ _).trans_lt (by decide : single.infinity < single.signWeight))

section

variable (hx : x.Finite) (hy : y.Finite)
include hx hy

lemma error_add : ((x + y).units - (x.units + y.units)).natAbs =
    ((x.units + y.units).natAbs - single.units (single.roundUnits (x.units + y.units).natAbs 1) :
      Int).natAbs := by
  have hadd : x + y = ofUnits (if x.units + y.units = 0 then x.isNegative && y.isNegative
      else x.units + y.units < 0) (x.units + y.units).natAbs := by
    have hx' : x.magnitude ≠ 0x7f800000 := hx.ne
    have hy' : y.magnitude ≠ 0x7f800000 := hy.ne
    change x.add y = _
    simp [add, isInfinite, hx.isNaN, hy.isNaN, hx', hy']
  rw [hadd, units, (fields_ofUnits _ _).1, (fields_ofUnits _ _).2]
  generalize x.units + y.units = sum
  rcases lt_trichotomy sum 0 with h | rfl | h
  · simp only [h.ne, h, if_false, decide_true, if_true]
    omega
  · rw [show single.units (single.roundUnits (Int.natAbs 0) 1) = 0 by decide +kernel]
    simp
  · simp only [h.ne', h.not_gt, if_false, decide_false, Bool.false_eq_true]
    omega

/-- No number is nearer to a sum than the rounded one. -/
lemma add_nearest {z : Single} (hz : z.Finite) :
    ((x + y).units - (x.units + y.units)).natAbs ≤ (z.units - (x.units + y.units)).natAbs := by
  rw [error_add hx hy]
  have hnear := (single.roundUnits_nearest one_pos (x.units + y.units).natAbs hz.le).1
  rw [Int.abs_eq_natAbs, Int.abs_eq_natAbs] at hnear
  have hsize := z.natAbs_units
  omega

/-- A sum below 2^27 is rounded by four at most. -/
lemma add_small (hsum : (x.units + y.units).natAbs < 2 ^ 176) :
    (x + y).Finite ∧ ((x + y).units - (x.units + y.units)).natAbs ≤ 2 ^ 151 := by
  suffices herror : ((x + y).units - (x.units + y.units)).natAbs ≤ 2 ^ 151 from
    ⟨finite_iff.2 (by omega), herror⟩
  rw [error_add hx hy]
  obtain ⟨j, hleast, herror⟩ :=
    single.roundUnits_error one_pos (hsum.trans_le (by decide +kernel))
  have hj : Nat.pow 2 j ≤ 2 ^ 152 := by
    refine Nat.pow_le_pow_right Nat.two_pos (Nat.le_of_lt_succ ?_)
    rcases hleast with rfl | hleast
    · decide
    · refine (Nat.pow_lt_pow_iff_right Nat.one_lt_two).1
        (Nat.lt_of_mul_lt_mul_left (a := 2 ^ 23) ?_)
      rw [mul_one] at hleast
      exact hleast.trans_lt hsum
  rw [Int.abs_eq_natAbs] at herror
  omega

omit hx hy in
lemma dvd_units (h : 2 ^ 176 ≤ x.units.natAbs) : (2 ^ 153 : Int) ∣ x.units := by
  rw [natAbs_units, show 2 ^ 176 = single.units 0x4d000000 by decide +kernel,
    single.units_strictMono.le_iff_le] at h
  rw [← Int.dvd_natAbs, natAbs_units, Format.units, Nat.shiftLeft_eq]
  have hshift : 153 ≤ single.shift x.magnitude := by
    rw [shift, show single.leading = 8388608 from rfl]
    omega
  exact_mod_cast Dvd.dvd.mul_left (Nat.pow_dvd_pow 2 hshift) _

/-- Above 2^27 a number is not changed by less than eight. -/
lemma add_large (hlarge : 2 ^ 176 < x.units.natAbs) (hless : y.units.natAbs < 2 ^ 152) :
    (x + y).Finite ∧ (x + y).units = x.units := by
  have hnear := add_nearest hx hy hx
  obtain ⟨a, ha⟩ := dvd_units hlarge.le
  obtain ⟨b, hb⟩ := dvd_units (x := x + y) (by omega)
  have hsame : (x + y).units = x.units := by omega
  exact ⟨finite_iff.2 (hsame ▸ finite_iff.1 hx), hsame⟩

end

end Number.Single

namespace Motion

open Number Single

/-- With enough fuel the tests of both loops fail in the end, and the second one ends at `r`. -/
def NormalizesTo (low high x r : Single) : Prop :=
  ∃ n, (raiseTo low n x).lt low = false ∧ lowerTo high n (raiseTo low n x) = r ∧ high.le r = false

/-! ## One loop -/

/-- A turn, as a multiple of the least positive number. -/
def turn : Int := 13176794 * 2 ^ 128

/-- The loop `f` with the test `c` adds `t`, which is a turn in the direction of the sign `σ`, to
the numbers before `b`. No step goes beyond `z`. -/
structure Turning (σ b : Int) (z t : Single) (c : Single → Bool) (f : Nat → Single → Single) :
    Prop where
  sign : σ = 1 ∨ σ = -1
  test {y : Single} : y.Finite → (c y ↔ σ * y.units < b)
  finite : t.Finite ∧ z.Finite
  turn : t.units = σ * turn
  near : -Motion.turn ≤ b ∧ b + Motion.turn ≤ σ * z.units + 1 ∧ σ * z.units ≤ Motion.turn
  zero (x : Single) : f 0 x = x
  succ (n : Nat) (x : Single) : f (n + 1) x = if c x then f n (x + t) else x

namespace Turning

variable {σ b : Int} {x z t : Single} {c : Single → Bool} {f : Nat → Single → Single}
  (h : Turning σ b z t c f) (hx : x.Finite)

include h hx

lemma step_small (hsmall : -2 ^ 176 ≤ σ * x.units) (hcont : c x) :
    (x + t).Finite ∧ σ * x.units + 2 ^ 149 ≤ σ * (x + t).units ∧
      σ * (x + t).units ≤ σ * z.units := by
  obtain ⟨hsign, htest, ⟨ht, hz⟩, hturn, hnear, -, -⟩ := h
  rw [htest hx] at hcont
  have hbetween := add_nearest hx ht hz
  unfold Motion.turn at hturn hnear
  rcases hsign with rfl | rfl
  all_goals
    obtain ⟨hsum, herror⟩ := add_small hx ht (by omega)
    exact ⟨hsum, by omega, by omega⟩

lemma step_large (hlarge : σ * x.units < -2 ^ 176) :
    c x ∧ (x + t).Finite ∧ σ * (x + t).units < -2 ^ 176 := by
  obtain ⟨hsign, htest, ⟨ht, -⟩, hturn, hnear, -, -⟩ := h
  rw [htest hx]
  unfold Motion.turn at hturn hnear
  rcases hsign with rfl | rfl
  all_goals
    obtain ⟨hsum, hsame⟩ := add_large hx ht (by omega) (by omega)
    exact ⟨by omega, hsum, hsame ▸ hlarge⟩

/-- Each step takes one off the distance to the bound at least, so that distance bounds the
steps. -/
lemma ends {n : Nat} (hsmall : -2 ^ 176 ≤ σ * x.units) (hn : b ≤ σ * x.units + n * 2 ^ 149) :
    (f n x).Finite ∧ b ≤ σ * (f n x).units ∧
      σ * (f n x).units ≤ max (σ * x.units) (σ * z.units) := by
  induction n generalizing x with
  | zero =>
    rw [h.zero]
    exact ⟨hx, by omega, le_max_left _ _⟩
  | succ n ih =>
    rw [h.succ]
    split
    · next hcont =>
        obtain ⟨hnext, hmore, hmost⟩ := h.step_small hx hsmall hcont
        obtain ⟨hfin, hle, hmax⟩ := ih hnext (by omega) (by omega)
        exact ⟨hfin, hle, by omega⟩
    · next hdone => exact ⟨hx, not_lt.1 ((h.test hx).not.1 hdone), le_max_left _ _⟩

lemma not_ends (hlarge : σ * x.units < -2 ^ 176) (n : Nat) : c (f n x) := by
  induction n generalizing x with
  | zero =>
    rw [h.zero]
    exact (h.step_large hx hlarge).1
  | succ n ih =>
    obtain ⟨hcont, hnext, hlarge⟩ := h.step_large hx hlarge
    rw [h.succ, if_pos hcont]
    exact ih hnext hlarge

end Turning

/-! ## Both loops -/

/-- Two bounds a turn apart, with zero between them. -/
structure Range (low high : Single) : Prop where
  low_finite : low.Finite
  high_finite : high.Finite
  low_le : low.units ≤ 0
  high_pos : 0 < high.units
  apart : high.units = low.units + turn

section

variable {low high x : Single} (hrange : Range low high)
include hrange

lemma turning_up : Turning 1 low.units high (2 * pi) (·.lt low) (raiseTo low) := by
  obtain ⟨hlow, hhigh, hle, hpos, hapart⟩ := hrange
  refine ⟨.inl rfl, fun hy => ?_, ⟨finite_iff.2 (by decide +kernel), hhigh⟩, by decide +kernel,
    ⟨by omega, by omega, by omega⟩, fun _ => rfl, fun _ _ => rfl⟩
  rw [lt_iff hy hlow, one_mul]

lemma turning_down : Turning (-1) (1 - high.units) low (-(2 * pi)) high.le (lowerTo high) := by
  obtain ⟨hlow, hhigh, hle, hpos, hapart⟩ := hrange
  have hsub (x : Single) : x - 2 * pi = x + -(2 * pi) := by
    change x.sub (2 * pi) = _
    rw [sub, show isNaN (2 * pi) = false by decide +kernel]
    exact if_neg (by simp)
  refine ⟨.inr rfl, fun hy => ?_, ⟨finite_iff.2 (by decide +kernel), hlow⟩, by decide +kernel,
    ⟨by omega, by omega, by omega⟩, fun _ => rfl, fun n x => by rw [← hsub, lowerTo]⟩
  rw [le_iff hhigh hy]
  omega

variable (hx : x.Finite)
include hx

lemma normalizesTo_of_small (hsmall : x.units.natAbs ≤ 2 ^ 176) :
    let r := lowerTo high (turnsOf x) (raiseTo low (turnsOf x) x)
    NormalizesTo low high x r ∧ low.le r ∧ r.lt high := by
  have hup := turning_up hrange
  have hdown := turning_down hrange
  obtain ⟨hlow, hhigh, hle, hpos, hapart⟩ := hrange
  have hturns : x.units.natAbs < turnsOf x * 2 ^ 149 ∧ 8 ≤ turnsOf x := by
    unfold turnsOf
    rw [show Nat.pow 2 149 = 2 ^ 149 from rfl]
    omega
  unfold turn at hapart
  obtain ⟨hfin, hleast, hmost⟩ := hup.ends hx (n := turnsOf x) (by omega) (by omega)
  obtain ⟨hfin', hless, hin⟩ := hdown.ends hfin (n := turnsOf x) (by omega) (by omega)
  refine ⟨⟨_, ?_, rfl, ?_⟩, (le_iff hlow hfin').2 (by omega), (lt_iff hfin' hhigh).2 (by omega)⟩
  · rw [← Bool.not_eq_true, lt_iff hfin hlow]
    omega
  · rw [← Bool.not_eq_true, le_iff hhigh hfin']
    omega

lemma not_normalizesTo_of_large (hlarge : 2 ^ 176 < x.units.natAbs) (r : Single) :
    ¬NormalizesTo low high x r := by
  rintro ⟨n, hup, rfl, hdown⟩
  rcases lt_or_ge x.units 0 with hneg | hpos
  · rw [(turning_up hrange).not_ends hx (by omega)] at hup
    cases hup
  · -- nothing is added, and taking off turns does not end
    have hsame : raiseTo low n x = x := by
      cases n with
      | zero => rfl
      | succ n =>
        have hlow := hrange.low_le
        rw [raiseTo, if_neg]
        rw [lt_iff hx hrange.low_finite]
        omega
    rw [hsame, (turning_down hrange).not_ends hx (by omega)] at hdown
    cases hdown

end

/-- Removing whole turns ends, in the range, for the numbers up to 2^27 and for no others. -/
theorem normalize_ends_iff {x : Single} (hx : x.Finite) :
    (within (-134217728) 134217728 x →
      (NormalizesTo 0 (2 * pi) x (normalize x) ∧ Single.le 0 (normalize x) ∧
        (normalize x).lt (2 * pi)) ∧
      NormalizesTo (-pi) pi x (normalizeHalf x) ∧ (-pi).le (normalizeHalf x) ∧
        (normalizeHalf x).lt pi) ∧
    (within (-134217728) 134217728 x = false →
      ∀ r, ¬NormalizesTo 0 (2 * pi) x r ∧ ¬NormalizesTo (-pi) pi x r) := by
  have hrange {low high : Single} (hlow : low.units.natAbs < 2 ^ 277)
      (hhigh : high.units.natAbs < 2 ^ 277) := Range.mk (finite_iff.2 hlow) (finite_iff.2 hhigh)
  have hfull : Range 0 (2 * pi) := by apply hrange <;> decide +kernel
  have hhalf : Range (-pi) pi := by apply hrange <;> decide +kernel
  have hsmall : within (-134217728) 134217728 x ↔ x.units.natAbs ≤ 2 ^ 176 := by
    rw [within, Bool.and_eq_true, le_iff (finite_iff.2 (by decide +kernel)) hx,
      le_iff hx (finite_iff.2 (by decide +kernel)),
      show (134217728 : Single).units = 2 ^ 176 by decide +kernel,
      show (-134217728 : Single).units = -2 ^ 176 by decide +kernel]
    omega
  rw [← Bool.not_eq_true, hsmall, not_le]
  exact ⟨fun h => ⟨normalizesTo_of_small hfull hx h, normalizesTo_of_small hhalf hx h⟩, fun h r =>
    ⟨not_normalizesTo_of_large hfull hx h r, not_normalizesTo_of_large hhalf hx h r⟩⟩

theorem normalize_ends_iff_large : Single.Finite 268435456 ∧
    ∀ r, ¬NormalizesTo 0 (2 * pi) 268435456 r ∧ ¬NormalizesTo (-pi) pi 268435456 r := by
  have hfin : Single.Finite 268435456 := finite_iff.2 (by decide +kernel)
  exact ⟨hfin, (normalize_ends_iff hfin).2 (by decide +kernel)⟩

end Motion

end ArmStudio
