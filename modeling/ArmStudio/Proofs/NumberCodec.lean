import ArmStudio.Link.Command
import ArmStudio.Proofs.Quotients
import Mathlib.Algebra.Order.Field.Power
import Mathlib.Data.List.Forall2
import Mathlib.Tactic.LinearCombination
import Mathlib.Tactic.Qify

/-!
# Numbers on the wire

Numbers go over the port as words of 32 bits. A number of 32 bits comes back from 64
(`Single.ofDouble_toDouble`), one of 64 bits goes to the nearest one of 32
(`Single.isNearest_ofDouble`), so words that are numbers are read and written without loss, and
numbers are rounded once (`codec_exact`).
-/

namespace ArmStudio.Number

open Format

/-- Data that denote the same number or infinity, with its sign. -/
def Datum.Same : Datum → Datum → Prop
  | .finite n m e, .finite n' m' e' => n = n' ∧ (m * 2 ^ e : ℚ) = m' * 2 ^ e'
  | d, d' => d = d'

def Datum.negative : Datum → Bool
  | .finite n _ _ | .infinite n | .notANumber n => n

namespace Format

variable {f : Format} (hmin : f.minExp ≤ 0) (negative : Bool) {man k : Nat} {exp : Int}

include hmin

lemma round_eq (h : man * 2 ^ exp = f.value k) (hk : k ≤ f.infinity) :
    f.round negative man exp = f.signed negative k := by
  obtain ⟨hpos, hratio⟩ := scale_spec man exp
  change f.signed negative (f.roundRatio (scale man 1 (-exp)).1 (scale man 1 (-exp)).2) = _
  rw [roundRatio, f.roundUnits_eq hpos ?_ hk]
  have hone := unity_mul hmin
  generalize scale man 1 (-exp) = r at hratio ⊢
  rw [h, value] at hratio
  qify
  linear_combination f.unity * hratio + f.units k * r.2 * hone

/-- No magnitude is nearer than the rounded one, and another is as near only if the rounded one is
even. -/
lemma round_nearest (man : Nat) (exp : Int) : ∃ r ≤ f.infinity,
    f.round negative man exp = f.signed negative r ∧ ∀ k ≤ f.infinity,
      |man * 2 ^ exp - f.value r| ≤ |man * 2 ^ exp - f.value k| ∧
        (|man * 2 ^ exp - f.value r| = |man * 2 ^ exp - f.value k| →
          f.value k = f.value r ∨ r % 2 = 0) := by
  obtain ⟨hpos, hratio⟩ := scale_spec man exp
  have hone := unity_mul hmin
  refine ⟨f.roundUnits ((scale man 1 (-exp)).1 * f.unity) (scale man 1 (-exp)).2,
    Nat.min_le_left _ _, by rw [← roundRatio]; rfl, fun k hk => ?_⟩
  obtain ⟨hle, htie⟩ := f.roundUnits_nearest hpos ((scale man 1 (-exp)).1 * f.unity) hk
  generalize scale man 1 (-exp) = r at hpos hratio hle htie ⊢
  have hscale : (0 : ℚ) < f.unity * r.2 := by exact_mod_cast Nat.mul_pos f.unity_pos hpos
  have hdist (k : Nat) : |man * 2 ^ exp - f.value k| =
      (|((r.1 * f.unity : Nat) : Int) - f.units k * r.2| : Int) / (f.unity * r.2) := by
    rw [eq_div_iff hscale.ne', Int.cast_abs, ← abs_of_pos hscale, ← abs_mul, value]
    congr 1
    push_cast
    linear_combination -f.unity * hratio - f.units k * r.2 * hone
  rw [hdist, hdist, value, value]
  exact ⟨div_le_div_of_nonneg_right (by exact_mod_cast hle) hscale.le,
    fun h => (htie (by exact_mod_cast (div_left_inj' hscale.ne').1 h)).imp_left fun h => by rw [h]⟩

end Format

namespace Single

/-- The value of a number. An infinity counts as the number that would follow the greatest one. -/
def value (s : Single) : ℚ := (if s.isNegative then -1 else 1) * single.value s.magnitude

/-- No number is nearer, and none is as near unless this one has an even pattern. -/
def IsNearest (q : ℚ) (s : Single) : Prop :=
  s.isNaN = false ∧ ∀ t : Single, t.isNaN = false → |q - s.value| ≤ |q - t.value| ∧
    (|q - s.value| = |q - t.value| → t.value = s.value ∨ 2 ∣ s.bits.toNat)

variable {negative : Bool} {k : Nat}

lemma toNat_bits (hk : k < single.signWeight) :
    (single.signed negative k).toUInt32.toNat = single.signed negative k := by
  have hweight : single.signWeight = 2147483648 := rfl
  rw [hweight] at hk
  rw [signed, hweight]
  refine UInt32.toNat_ofNat_of_lt' ?_
  split <;> simp only [UInt32.size] <;> omega

lemma fields_pattern (hk : k < single.signWeight) :
    magnitude ⟨(single.signed negative k).toUInt32⟩ = k ∧
      isNegative ⟨(single.signed negative k).toUInt32⟩ = negative := by
  have hweight : single.signWeight = 2147483648 := rfl
  rw [magnitude, isNegative, toNat_bits hk, signed, hweight]
  cases negative <;> simp <;> omega

variable {s : Single}

lemma eq_pattern (s : Single) : s = ⟨(single.signed s.isNegative s.magnitude).toUInt32⟩ := by
  have hlt := s.bits.toNat_lt
  have hweight : single.signWeight = 2147483648 := rfl
  refine congrArg Single.mk (UInt32.toNat_inj.1 ?_)
  rw [toNat_bits (k := s.magnitude) (Nat.mod_lt _ (by decide)), signed, hweight, magnitude,
    isNegative]
  split <;> simp_all <;> omega

lemma magnitude_le (h : s.isNaN = false) : s.magnitude ≤ single.infinity := by
  rw [isNaN, decide_eq_false_iff_not, not_lt] at h
  exact h

/-- A finite number goes to the nearest one, with its sign. -/
lemma isNearest_ofDouble {x : Double} {q : ℚ} (hx : x.datum.rational? = some q) :
    (ofDouble x).IsNearest q ∧ (ofDouble x).isNegative = x.datum.negative := by
  unfold Datum.rational? at hx
  split at hx
  next negative man exp hdatum =>
    cases hx
    obtain ⟨r, hr, hround, hnear⟩ := round_nearest (f := single) (by decide) negative man exp
    have hlt := hr.trans_lt (by decide : _ < single.signWeight)
    have heq : ofDouble x = ⟨(single.signed negative r).toUInt32⟩ := by
      rw [ofDouble, hdatum, ← hround]
    obtain ⟨hmag, hsign⟩ := @fields_pattern negative r hlt
    rw [heq, hdatum]
    refine ⟨⟨by rw [isNaN, hmag]; exact decide_eq_false hr.not_gt, fun t ht => ?_⟩, hsign⟩
    have heven (h : r % 2 = 0) : 2 ∣ single.signed negative r :=
      dvd_add (by split <;> decide) (Nat.dvd_of_mod_eq_zero h)
    obtain ⟨hle, htie⟩ := hnear _ (magnitude_le ht)
    -- on the other side of zero nothing is nearer than zero itself
    obtain ⟨hzero, hzero'⟩ := hnear 0 (Nat.zero_le _)
    rw [show single.value 0 = 0 by simp [Format.value, show single.units 0 = 0 from rfl],
      sub_zero] at hzero hzero'
    rw [value, value, hmag, hsign, toNat_bits hlt, mul_assoc]
    have hpos : (0 : ℚ) ≤ man * 2 ^ exp := by positivity
    have hpos' : 0 ≤ single.value t.magnitude := by unfold Format.value; positivity
    generalize (man * 2 ^ exp : ℚ) = m at hle htie hzero hzero' hpos ⊢
    generalize single.signed negative r = bits at heven ⊢
    cases negative <;> cases t.isNegative <;> grind
  next => cases hx

/-- A finite number keeps its value and its sign. -/
lemma toDouble_spec (h : s.magnitude < single.infinity) : ∃ man exp,
    s.toDouble.datum = .finite s.isNegative man exp ∧ man * 2 ^ exp = single.value s.magnitude := by
  have hdigits : single.digits s.magnitude < double.leading := by
    have hmod := Nat.mod_lt s.magnitude single.leading_pos
    have hsmall : 2 * single.leading < double.leading := by decide
    rw [digits]
    split <;> omega
  obtain ⟨e, he, htop⟩ : ∃ e : Nat, single.minExp = e + double.minExp ∧
      single.units single.infinity * Nat.pow 2 e < double.units double.infinity :=
    ⟨925, rfl, by decide +kernel⟩
  obtain ⟨k, hk⟩ := exists_units (t := single.shift s.magnitude + e) hdigits
  have hunits : double.units k = single.units s.magnitude * Nat.pow 2 e := by
    rw [hk, Nat.pow_eq, Nat.pow_add, ← mul_assoc, Format.units, Nat.shiftLeft_eq, Nat.pow_eq]
  have hin : k < double.infinity := by
    refine double.units_strictMono.lt_iff_lt.1 (lt_of_le_of_lt ?_ htop)
    rw [hunits]
    exact Nat.mul_le_mul_right _ (single.units_strictMono.monotone h.le)
  have hvalue : double.value k = single.value s.magnitude := by
    rw [Format.value, Format.value, hunits, he, zpow_add₀ two_ne_zero, zpow_natCast, Nat.pow_eq]
    push_cast
    ring
  have hweight := hin.trans (by decide : _ < double.signWeight)
  refine ⟨double.digits k, double.minExp + double.shift k, ?_, (digits_value k).trans hvalue⟩
  rw [toDouble, datum_eq, if_pos h]
  change double.decode (double.round _ _ _).toUInt64.toNat = _
  rw [round_eq (by decide) _ ((digits_value _).trans hvalue.symm) hin.le,
    Double.toNat_bits _ hweight, decode_pattern _ hweight, if_pos hin]

lemma eq_infinity (h : s.isNaN = false) (hinf : ¬s.magnitude < single.infinity) :
    s = ⟨if s.isNegative then 0xff800000 else 0x7f800000⟩ := by
  have hmag := le_antisymm (magnitude_le h) (not_lt.1 hinf)
  conv_lhs => rw [eq_pattern s, hmag]
  cases s.isNegative <;> decide

/-- A number comes back from 64 bits, where it denotes the same. -/
lemma ofDouble_toDouble (h : s.isNaN = false) :
    ofDouble s.toDouble = s ∧ s.toDouble.datum.Same s.datum := by
  by_cases hin : s.magnitude < single.infinity
  · obtain ⟨man, exp, hdatum, hvalue⟩ := toDouble_spec hin
    constructor
    · rw [ofDouble, hdatum]
      dsimp only
      rw [round_eq (by decide) _ hvalue hin.le, ← eq_pattern]
    · rw [hdatum, datum_eq, if_pos hin]
      exact ⟨rfl, hvalue.trans (digits_value _).symm⟩
  · rw [eq_infinity h hin]
    cases s.isNegative <;> exact ⟨by decide +kernel, show _ = _ by decide +kernel⟩

end Single

end ArmStudio.Number

namespace ArmStudio.Link

open Code Number Script

/-- The words of bytes, their low bytes first. -/
def words : List UInt8 → List Single
  | a :: b :: c :: d :: rest =>
    ⟨(a.toNat + 256 * (b.toNat + 256 * (c.toNat + 256 * d.toNat))).toUInt32⟩ :: words rest
  | _ => []

def bytesOf (s : Single) : List UInt8 := intBytes 4 s.bits.toNat

/-- The second number is the number of 32 bits nearest to the first, with its sign. -/
def Narrowed (x y : Double) : Prop := ∃ (q : ℚ) (s : Single), x.datum.rational? = some q ∧
  s.IsNearest q ∧ s.isNegative = x.datum.negative ∧ y.datum.Same s.datum

lemma serialize_eq (xs : List Double) : serialize (xs.map Value.real) =
    .ok (xs.flatMap fun x => bytesOf (.ofDouble x)) := by
  induction xs with
  | nil => rfl
  | cons x rest ih =>
    rw [List.map_cons, serialize, ih]
    rfl

lemma deserialize_eq {b} (h : 4 ∣ b.length) :
    deserialize b = .ok ((words b).map Single.toDouble) ∧ (words b).flatMap bytesOf = b := by
  fun_induction words b with
  | case1 x y z w rest ih =>
    obtain ⟨hread, hbytes⟩ := ih (by simp at h; omega)
    rw [deserialize, hread]
    refine ⟨rfl, ?_⟩
    have hx := x.toNat_lt
    have hy := y.toNat_lt
    have hz := z.toNat_lt
    have hw := w.toNat_lt
    have hword : (x.toNat + 256 * (y.toNat + 256 * (z.toNat + 256 * w.toNat))).toUInt32.toNat =
        x.toNat + 256 * (y.toNat + 256 * (z.toNat + 256 * w.toNat)) :=
      UInt32.toNat_ofNat_of_lt' (by simp only [UInt32.size]; omega)
    have hbyte (n : ℤ) (v : UInt8) (h : n % 256 = v.toNat) : (n % 256).toNat.toUInt8 = v := by
      rw [h, Int.toNat_natCast]
      exact UInt8.ofNat_toNat
    rw [List.flatMap_cons, hbytes, bytesOf, hword]
    simp only [intBytes]
    rw [hbyte _ x (by omega), hbyte _ y (by omega), hbyte _ z (by omega), hbyte _ w (by omega)]
    rfl
  | case2 b hb =>
    obtain rfl : b = [] := by
      rcases b with _ | ⟨x, _ | ⟨y, _ | ⟨z, _ | ⟨w, rest⟩⟩⟩⟩
      · rfl
      iterate 3 simp at h
      · exact (hb x y z w rest rfl).elim
    exact ⟨rfl, rfl⟩

lemma words_flatMap (ss : List Single) : words (ss.flatMap bytesOf) = ss ∧
    4 ∣ (ss.flatMap bytesOf).length := by
  induction ss with
  | nil => exact ⟨rfl, dvd_zero 4⟩
  | cons s rest ih =>
    have hlt := s.bits.toNat_lt
    have hbyte (n : ℤ) : (n % 256).toNat.toUInt8.toNat = (n % 256).toNat :=
      UInt8.toNat_ofNat_of_lt' (by simp only [UInt8.size]; omega)
    rw [List.flatMap_cons, bytesOf]
    simp only [intBytes, List.cons_append, List.nil_append, words, ih.1, hbyte, List.length_cons]
    refine ⟨congrArg (· :: rest) (congrArg Single.mk ?_), by have := ih.2; omega⟩
    refine Eq.trans (congrArg Nat.toUInt32 ?_) (UInt32.ofNat_toNat (x := s.bits))
    omega

lemma serialize_widened {ss : List Single} (h : ∀ s ∈ ss, s.isNaN = false) :
    serialize ((ss.map Single.toDouble).map Value.real) = .ok (ss.flatMap bytesOf) := by
  rw [serialize_eq, List.flatMap_map]
  exact congrArg Except.ok
    (List.flatMap_congr fun s hs => by rw [(Single.ofDouble_toDouble (h s hs)).1])

/-- Words that are numbers are read and written without loss. Finite numbers go to the nearest ones
of 32 bits, and these come back unchanged. -/
theorem codec_exact (b : List UInt8) (xs : List Double) (hlength : 4 ∣ b.length)
    (hwords : ∀ s ∈ words b, s.isNaN = false) (hfinite : ∀ x ∈ xs, x.datum.rational?.isSome) :
    (∃ ys, deserialize b = .ok ys ∧ serialize (ys.map Value.real) = .ok b) ∧
      ∃ sent ys, serialize (xs.map Value.real) = .ok sent ∧ deserialize sent = .ok ys ∧
        List.Forall₂ Narrowed xs ys ∧ serialize (ys.map Value.real) = .ok sent := by
  obtain ⟨hread, hbytes⟩ := deserialize_eq hlength
  have hnarrow : ∀ x ∈ xs, ∃ q, x.datum.rational? = some q ∧ (Single.ofDouble x).IsNearest q ∧
      (Single.ofDouble x).isNegative = x.datum.negative := by
    intro x hx
    obtain ⟨q, hq⟩ := Option.isSome_iff_exists.1 (hfinite x hx)
    exact ⟨q, hq, Single.isNearest_ofDouble hq⟩
  have hnumbers : ∀ s ∈ xs.map Single.ofDouble, s.isNaN = false := by
    intro s hs
    obtain ⟨x, hx, rfl⟩ := List.mem_map.1 hs
    obtain ⟨q, -, hnear, -⟩ := hnarrow x hx
    exact hnear.1
  obtain ⟨hwords', hlength'⟩ := words_flatMap (xs.map Single.ofDouble)
  refine ⟨⟨_, hread, by rw [serialize_widened hwords, hbytes]⟩, _, _, ?_,
    (deserialize_eq hlength').1, ?_, ?_⟩
  · rw [serialize_eq, List.flatMap_map]
  · rw [hwords', List.map_map, List.forall₂_map_right_iff, List.forall₂_same]
    intro x hx
    obtain ⟨q, hq, hnear, hsign⟩ := hnarrow x hx
    exact ⟨q, _, hq, hnear, hsign, (Single.ofDouble_toDouble hnear.1).2⟩
  · rw [hwords', serialize_widened hnumbers]

/-- The words of minus infinity and of the least positive number, and the number of a tenth. -/
theorem codec_exact_tenth :
    (∃ ys, deserialize [0, 0, 128, 255, 1, 0, 0, 0] = .ok ys ∧
        serialize (ys.map Value.real) = .ok [0, 0, 128, 255, 1, 0, 0, 0]) ∧
      ∃ sent ys, serialize [.real ⟨0x3fb999999999999a⟩] = .ok sent ∧ deserialize sent = .ok ys ∧
        List.Forall₂ Narrowed [⟨0x3fb999999999999a⟩] ys ∧
        serialize (ys.map Value.real) = .ok sent :=
  codec_exact _ [_] (by decide) (by decide) (by decide)

end ArmStudio.Link
