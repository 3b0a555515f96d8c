import ArmStudio.Proofs.NearestNumbers
import Mathlib.Tactic.Linarith

/-!
# Numbers as rationals

The value of a finite datum is `Datum.rational?`, and integers are compared with it. The number
nearest to a quotient of two integers is an integer exactly if the quotient is one, as long as the
integers are small against the precision (`compareInt?_ofQuotient`).
-/

namespace ArmStudio.Number

/-- The number that a datum denotes, unless it is an infinity or not a number. -/
def Datum.rational? : Datum → Option ℚ
  | .finite negative man exp => some ((if negative then -1 else 1) * man * 2 ^ exp)
  | _ => none

namespace Format

lemma scale_spec (man : Nat) (exp : Int) : 0 < (scale man 1 (-exp)).2 ∧
    ((scale man 1 (-exp)).1 : ℚ) = man * 2 ^ exp * (scale man 1 (-exp)).2 := by
  unfold scale
  split
  next h =>
    obtain ⟨k, hk⟩ := Int.eq_ofNat_of_zero_le h
    obtain rfl : exp = -k := by omega
    simp [Nat.pow_eq]
  next h =>
    obtain ⟨k, rfl⟩ := Int.eq_ofNat_of_zero_le (show 0 ≤ exp by omega)
    simp [Nat.pow_eq]

variable {f : Format} {num den k : Nat}

lemma unity_eq : f.unity = Nat.pow 2 (-f.minExp).toNat := Nat.one_shiftLeft _

lemma unity_pos : 0 < f.unity := unity_eq ▸ Nat.two_pow_pos _

lemma unity_mul (hmin : f.minExp ≤ 0) : (f.unity : ℚ) * 2 ^ f.minExp = 1 := by
  obtain ⟨n, hn⟩ := Int.eq_ofNat_of_zero_le (Int.neg_nonneg_of_nonpos hmin)
  rw [unity_eq, show f.minExp = -n by omega]
  simp [Nat.pow_eq]

/-- The number that a magnitude pattern denotes. -/
def value (f : Format) (k : Nat) : ℚ := f.units k * 2 ^ f.minExp

lemma digits_value (k : Nat) : f.digits k * 2 ^ (f.minExp + f.shift k) = f.value k := by
  rw [value, units, Nat.shiftLeft_eq, zpow_add₀ two_ne_zero, zpow_natCast]
  push_cast
  ring

lemma decode_pattern (negative : Bool) (hk : k < f.signWeight) :
    f.decode (f.signed negative k) =
      if k < f.infinity then .finite negative (f.digits k) (f.minExp + f.shift k)
      else if k = f.infinity then .infinite negative else .notANumber negative := by
  have hpos : 0 < f.signWeight := Nat.two_pow_pos _
  cases negative <;>
    simp [decode, signed, Nat.mod_eq_of_lt hk, Nat.div_eq_of_lt hk, Nat.add_div_left _ hpos]

lemma exists_units {m t : Nat} (hm : m < f.leading) : ∃ k, f.units k = m * Nat.pow 2 t := by
  obtain ⟨j, hj, hbelow, -⟩ := f.patternBelow_spec (m * Nat.pow 2 t)
  refine ⟨_, hbelow.trans (Nat.div_mul_cancel (Dvd.dvd.mul_left (Nat.pow_dvd_pow 2 ?_) m))⟩
  rcases hj with rfl | hj
  · exact Nat.zero_le _
  · refine Nat.le_of_lt ((Nat.pow_lt_pow_iff_right Nat.one_lt_two).1
      (Nat.lt_of_mul_lt_mul_left (a := f.leading) (hj.trans_lt ?_)))
    exact Nat.mul_lt_mul_of_pos_right hm (Nat.two_pow_pos _)

/-- A quotient of small naturals is rounded to an integer exactly if it is that integer. -/
lemma roundRatio_eq_iff (hden : 0 < den) (hnum : num < f.leading) (hfine : den < 2 * f.unity)
    (hroom : num * f.unity < f.units f.infinity) (n : Int) :
    (f.units (f.roundRatio num den) : Int) = n * f.unity ↔ (num : Int) = n * den := by
  have hpos : (0 : Int) < f.unity := by exact_mod_cast unity_pos
  have hden' : (0 : Int) < den := by exact_mod_cast hden
  rw [roundRatio]
  constructor
  · intro heq
    by_contra hne
    obtain ⟨j, hj, herror⟩ := f.roundUnits_error hden
      (hroom.trans_le (Nat.le_mul_of_pos_right _ hden))
    -- what is not an integer is away from it by more than rounding moves it
    have hfar : (f.unity : Int) ≤ |(num : Int) * f.unity - n * f.unity * den| := by
      rw [show (num : Int) * f.unity - n * f.unity * den = (num - n * den) * f.unity by ring,
        abs_mul, Nat.abs_cast]
      exact le_mul_of_one_le_left hpos.le (Int.one_le_abs (sub_ne_zero.2 hne))
    have hmost : 2 * f.unity ≤ Nat.pow 2 j * den := by
      zify
      rw [← heq] at hfar
      push_cast at herror
      exact le_trans (by linarith) herror
    rcases hj with rfl | hj
    · rw [Nat.pow_eq, Nat.pow_zero, one_mul] at hmost
      omega
    · have hless := hj.trans_lt (Nat.mul_lt_mul_of_pos_right hnum unity_pos)
      rw [mul_assoc] at hless
      have := Nat.lt_of_mul_lt_mul_left hless
      omega
  · intro heq
    obtain ⟨m, rfl⟩ := Int.eq_ofNat_of_zero_le (show 0 ≤ n by
      by_contra hneg
      have := mul_neg_of_neg_of_pos (not_le.1 hneg) hden'
      omega)
    norm_cast at heq ⊢
    have hle : m ≤ num := heq ▸ Nat.le_mul_of_pos_right m hden
    obtain ⟨k, hk⟩ := exists_units (f := f) (t := (-f.minExp).toNat) (hle.trans_lt hnum)
    rw [← unity_eq] at hk
    have hin : k < f.infinity := f.units_strictMono.lt_iff_lt.1
      ((hk ▸ Nat.mul_le_mul_right _ hle).trans_lt hroom)
    rw [f.roundUnits_eq hden (by rw [hk, heq, Nat.mul_right_comm]) hin.le, hk]

end Format

namespace Double

open Format

variable {x : Double} (negative : Bool) {k : Nat}

/-- The order of an integer and a number, by their values. -/
theorem compareInt?_eq {q : ℚ} (h : x.datum.rational? = some q) (n : Int) :
    compareInt? n x = some (compare (n : ℚ) q) := by
  unfold Datum.rational? at h
  split at h
  next negative man exp hx =>
    cases h
    obtain ⟨hpos, hratio⟩ := scale_spec man exp
    have hscaled : StrictMono fun y : ℚ => y * (scale man 1 (-exp)).2 :=
      fun y z hyz => mul_lt_mul_of_pos_right hyz (by exact_mod_cast hpos)
    simp only [compareInt?, hx, compareRatio, Option.some_inj]
    rw [← cmp_eq_compare, ← cmp_eq_compare, cmp_swap,
      ← Int.cast_strictMono (R := ℚ).cmp_map_eq, ← hscaled.cmp_map_eq (n : ℚ)]
    congr 1
    · simp
    · rw [mul_assoc, mul_assoc, ← mul_assoc (man : ℚ), ← hratio]
      cases negative <;> simp
  next => cases h

lemma toNat_bits (hk : k < double.signWeight) :
    (double.signed negative k).toUInt64.toNat = double.signed negative k := by
  have hweight : double.signWeight = 9223372036854775808 := rfl
  rw [hweight] at hk
  rw [signed, hweight]
  refine UInt64.toNat_ofNat_of_lt' ?_
  split <;> simp only [UInt64.size] <;> omega

lemma isFinite_pattern (hk : k < double.infinity) :
    isFinite ⟨(double.signed negative k).toUInt64⟩ := by
  rw [isFinite, toNat_bits negative (hk.trans (by decide)), decide_eq_true_eq, signed]
  have hweight : double.signWeight = 9223372036854775808 := rfl
  have hinfinity : double.infinity = 9218868437227405312 := rfl
  split <;> omega

lemma compareInt?_pattern (hk : k < double.infinity) (n : Int) :
    compareInt? n ⟨(double.signed negative k).toUInt64⟩ = some .eq ↔
      (if negative then -(double.units k : Int) else double.units k) = n * double.unity := by
  have hweight := hk.trans (by decide : _ < double.signWeight)
  rw [compareInt?_eq (q := (if negative then -1 else 1) * double.value k)]
  · have hone := unity_mul (f := double) (by decide)
    rw [Option.some_inj, compare_eq_iff_eq, ← mul_left_inj' (left_ne_zero_of_mul_eq_one hone),
      value, mul_assoc, mul_assoc, mul_comm (_ ^ _), hone, mul_one,
      eq_comm, ← Int.cast_inj (α := ℚ)]
    cases negative <;> simp
  · rw [datum, toNat_bits negative hweight, decode_pattern negative hweight, if_pos hk,
      Datum.rational?, mul_assoc, digits_value]

lemma signed_eq_iff {u w num den : Nat}
    (h : ∀ n : Int, (u : Int) = n * w ↔ (num : Int) = n * den) (n : Int) :
    (if negative then -(u : Int) else u) = n * w ↔
      (if negative then -(num : Int) else num) = n * den := by
  cases negative
  · simpa using h n
  · simpa [neg_eq_iff_eq_neg] using h (-n)

lemma signed_natAbs_eq_iff (a b n : Int) :
    (if (decide (a < 0) != decide (b < 0)) = true then -(a.natAbs : Int) else a.natAbs) =
        n * b.natAbs ↔ a = n * b := by
  rcases lt_or_ge a 0 with ha | ha <;> rcases lt_or_ge b 0 with hb | hb
  · rw [show (a.natAbs : Int) = -a by omega, show (b.natAbs : Int) = -b by omega]
    simp [ha, hb]
  · rw [show (a.natAbs : Int) = -a by omega, show (b.natAbs : Int) = b by omega]
    simp [ha, Int.not_lt.2 hb]
  · rw [show (a.natAbs : Int) = a by omega, show (b.natAbs : Int) = -b by omega]
    simp [Int.not_lt.2 ha, hb]
  · rw [show (a.natAbs : Int) = a by omega, show (b.natAbs : Int) = b by omega]
    simp [Int.not_lt.2 ha, Int.not_lt.2 hb]

lemma log2_le_of_le {n : Nat} (h : n ≤ 2147483648) : Nat.log2 n ≤ 31 := by
  by_cases hn : n = 0
  · simp [hn]
  · exact Nat.le_of_lt_succ ((Nat.log2_lt hn).2 (by omega))

/-- The number nearest to a quotient of naturals of 32 bits is finite, and equals an integer exactly
if the quotient itself does. -/
lemma ofRatio_spec {num den : Nat} (hnum : num ≤ 2147483648)
    (hden : den ≤ 2147483648) (hpos : 0 < den) :
    (ofRatio negative num den).isFinite = true ∧
      ∀ n, compareInt? n (ofRatio negative num den) = some .eq ↔
        (if negative then -(num : Int) else num) = n * den := by
  -- the pattern of the largest of them
  have hlargest : double.units 4746794007248502784 = 2147483648 * double.unity := by decide +kernel
  have htop : 4746794007248502784 < double.infinity := by decide
  have hmost : num * double.unity ≤ double.units 4746794007248502784 :=
    (Nat.mul_le_mul_right _ hnum).trans hlargest.ge
  have hin : double.roundRatio num den < double.infinity := by
    rw [roundRatio]
    exact (double.roundUnits_le hpos (hmost.trans (Nat.le_mul_of_pos_right _ hpos))).trans_lt htop
  have hequal := roundRatio_eq_iff hpos (hnum.trans_lt (by decide : _ < double.leading))
    (hden.trans_lt (by decide +kernel : _ < 2 * double.unity))
    (hmost.trans_lt (double.units_strictMono htop))
  refine ⟨isFinite_pattern negative hin, fun n => (compareInt?_pattern negative hin n).trans
    (signed_eq_iff negative hequal n)⟩

/-- The rounded quotient of two integers of 32 bits equals an integer exactly if the quotient itself
does. -/
theorem compareInt?_ofQuotient {a b : Int} (ha : a.natAbs ≤ 2147483648) (hb : b.natAbs ≤ 2147483648)
    (hzero : b ≠ 0) :
    ∃ q, ofQuotient? a b = some q ∧ ∀ n, compareInt? n q = some .eq ↔ a = n * b := by
  have hloga := log2_le_of_le ha
  have hlogb := log2_le_of_le hb
  obtain ⟨hfin, hequal⟩ := ofRatio_spec (decide (a < 0) != decide (b < 0)) ha hb
    (Int.natAbs_pos.2 hzero)
  refine ⟨_, ?_, fun n => (hequal n).trans (signed_natAbs_eq_iff a b n)⟩
  rw [ofQuotient?]
  simp only [if_neg (show ¬ Nat.log2 b.natAbs + 1100 < Nat.log2 a.natAbs by omega),
    if_neg (show ¬ Nat.log2 a.natAbs + 1200 < Nat.log2 b.natAbs by omega), hfin, if_true]

end Double

end ArmStudio.Number
