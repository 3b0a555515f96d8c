import ArmStudio.Vision.Priority
import Mathlib

/-!
# The mark that is held

The time between two readings of the clock is a rounded difference. It compares with the duration of
a hold as long as the readings are finite, and is zero from a reading to itself. What is held behind
a run of calls is the greatest number since nothing was held. The lemmas on packed numbers come
only with all of Mathlib.
-/

namespace ArmStudio.Number

open Float.Model.UnpackedFloat Float.Model.Format

variable {b : BitVec 64} {u v : Float.Model.UnpackedFloat}

/-- What is a number is packed to one: with the top exponent only an infinity is packed. -/
lemma isNaNBits_pack (hu : u ≠ .notANumber) : isNaNBits (pack binary64 u) = false := by
  rw [isNaNBits, decide_eq_false_iff_not, not_and_not_right]
  intro htop
  rcases u with s | _ | s | ⟨s, m, e, hm⟩
  · simp [pack, packedInfinity]
  · exact absurd rfl hu
  · simp [pack, packedZero] at htop
  · unfold pack at htop ⊢
    dsimp only at htop ⊢
    split at htop
    next hbig =>
      rw [if_pos hbig]
      simp [packedInfinity]
    next hsmall =>
      have hsmall : ¬ 2048 ≤ (e + 1023 + 52).toNat + 1 := hsmall
      split at htop
      · rw [unpackExponent_packComponents] at htop
        have hexp : (e + 1023 + 52).toNat % 2048 = 2047 := congrArg BitVec.toNat htop
        omega
      · simp at htop

lemma isNaN_unpack (h : @isNaNBits binary64 b = false) : (unpack binary64 b).isNaN ≠ true := by
  intro hnan
  have hpack := @pack_unpack binary64 b (by decide)
  rw [isNaN_iff.1 hnan, h] at hpack
  have hbits := @isNaNBits_packedNaN binary64
  rw [show packedNaN binary64 = b from hpack, h] at hbits
  cases hbits

lemma sub_ne_notANumber (hu : u.isFinite) (hv : v.isFinite) : sub binary64 u v ≠ .notANumber := by
  have hnormalize : ∀ m e s, Float.Model.UnpackedFloat.normalize binary64 m e s ≠ .notANumber := by
    intro m e s
    unfold Float.Model.UnpackedFloat.normalize Float.Model.UnpackedFloat.round roundWithAccuracy
    dsimp only
    split
    · split <;> simp
    · simp
    · split <;> simp
  rcases u with _ | _ | _ | _ <;> rcases v with _ | _ | _ | _ <;>
    simp [isFinite, sub, hnormalize] at hu hv ⊢
  split <;> simp

lemma unpacked_sub_self (hu : u.isFinite) : sub binary64 u u = .zero .positive := by
  rcases u with _ | _ | s | _
  · cases hu
  · cases hu
  · cases s <;> rfl
  · simp only [sub, Int.sub_self, Float.Model.UnpackedFloat.normalize]
    rfl

namespace Double

/-- What a number unpacks to. -/
def unpacked (x : Double) : Float.Model.UnpackedFloat :=
  unpack binary64 (pack binary64 (unpack binary64 x.bits.toBitVec))

variable {x y : Double}

lemma isNaN_eq : x.isNaN = @isNaNBits binary64 x.bits.toBitVec := by
  have hexponent : (@unpackExponent binary64 x.bits.toBitVec).toNat =
      x.bits.toNat / 4503599627370496 % 2048 := by
    simp [unpackExponent, Nat.shiftRight_eq_div_pow]
  have hfraction : (@unpackMantissa binary64 x.bits.toBitVec).toNat =
      x.bits.toNat % 4503599627370496 := by simp [unpackMantissa]
  have hmag : (x.bits &&& 0x7fffffffffffffff).toNat = x.bits.toNat % 9223372036854775808 := by
    rw [UInt64.toNat_and]
    exact Nat.and_two_pow_sub_one_eq_mod x.bits.toNat 63
  have htop : (-1#(binary64.exponentBits)).toNat = 2047 := rfl
  have hzero : (0#(binary64.mantissaBitsWithoutImplicit)).toNat = 0 := rfl
  rw [Double.isNaN, isNaNBits, decide_eq_decide, gt_iff_lt, UInt64.lt_iff_toNat_lt, hmag,
    ne_eq, ← BitVec.toNat_inj, ← BitVec.toNat_inj, hexponent, hfraction, htop, hzero]
  simp
  omega

lemma isNaN_of_isFinite (h : x.unpacked.isFinite) : x.isNaN ≠ true := by
  intro hnan
  rw [unpacked, pack_unpack, if_pos (isNaN_eq ▸ hnan), unpack_packedNaN] at h
  cases h

/-- The difference of finite numbers is packed from that of what they unpack to. -/
lemma sub_eq (hx : x.unpacked.isFinite) (hy : y.unpacked.isFinite) :
    x - y = ⟨.ofBitVec (pack binary64 (.sub binary64 x.unpacked y.unpacked))⟩ := by
  have hnum : (x.toFloat - y.toFloat).isNaN ≠ true :=
    isNaN_unpack (isNaNBits_pack (sub_ne_notANumber hx hy))
  show Double.lift₂ (· - ·) x y = _
  rw [Double.lift₂, if_neg (isNaN_of_isFinite hx), if_neg (isNaN_of_isFinite hy), ofResult,
    if_neg hnum]
  rfl

lemma isNaN_sub (hx : x.unpacked.isFinite) (hy : y.unpacked.isFinite) : (x - y).isNaN = false := by
  rw [sub_eq hx hy, isNaN_eq]
  exact isNaNBits_pack (sub_ne_notANumber hx hy)

lemma sub_self (hx : x.unpacked.isFinite) : x - x = .zero := by
  rw [sub_eq hx hx, unpacked_sub_self hx]
  rfl

end Double

end ArmStudio.Number

namespace ArmStudio.Vision

open Number Script List

namespace Lock

/-! ## Times -/

/-- The value is a time: a finite number. -/
def IsTime (v : Value) : Prop := ∃ x, v.toReal = .ok x ∧ x.toFloat.isFinite = true

variable {start now : Value}

/-- The difference of two times is taken exactly if they are whole, and else rounded. -/
lemma sub_time (hstart : IsTime start) (hnow : IsTime now) :
    (∃ m n, now.toInt? = some m ∧ start.toInt? = some n ∧ now.sub start = .ok (.int (m - n))) ∨
      ∃ x y, now.toReal = .ok x ∧ start.toReal = .ok y ∧ x.unpacked.isFinite ∧ y.unpacked.isFinite ∧
        now.sub start = .ok (.real (x - y)) := by
  obtain ⟨x, hx, hfin⟩ := hnow
  obtain ⟨y, hy, hfin'⟩ := hstart
  have hreal : (do return .real ((← now.toReal) - (← start.toReal))) =
      (.ok (.real (x - y)) : Except ArithError Value) := by
    rw [hx, hy]
    rfl
  unfold Value.sub Value.arith
  split
  next m n hm hn => exact .inl ⟨m, n, hm, hn, rfl⟩
  next => exact .inr ⟨x, y, hx, hy, hfin, hfin', hreal⟩

/-- The time between two times compares with the duration of a hold. -/
lemma elapsed_ne_none (hstart : IsTime start) (hnow : IsTime now) :
    elapsed start now duration ≠ none := by
  obtain ⟨m, n, -, -, hsub⟩ | ⟨x, y, -, -, hx, hy, hsub⟩ := sub_time hstart hnow
  · have hdatum : duration.datum = .finite false 4503599627370496 (-51) := by decide +kernel
    simp [elapsed, hsub, Except.toOption, Value.order?, Value.toInt?, Double.compareInt?, hdatum]
  · have hnan : duration.isNaN = false := by decide +kernel
    simp [elapsed, hsub, Except.toOption, Value.order?, Double.isNaN_sub hx hy, hnan]

/-- No time passes between a time and itself. -/
lemma elapsed_self (h : IsTime now) : elapsed now now duration = some .lt := by
  obtain ⟨m, n, hm, hn, hsub⟩ | ⟨x, y, hx, hy, hfin, -, hsub⟩ := sub_time h h
  · cases hm.symm.trans hn
    rw [elapsed, hsub, Int.sub_self]
    decide +kernel
  · cases hx.symm.trans hy
    rw [elapsed, hsub, Double.sub_self hfin]
    decide +kernel

/-! ## One call -/

/-- A mark is taken where none is held or its number is greater than that held; another one frees a
lock that has run out, and leaves one that has not. -/
lemma update_cases (lock : Lock) (id : Int) (now : Value) :
    lock.update id now = ⟨some id, now⟩ ∧ (∀ held, lock.id = some held → held < id) ∨
      ∃ held, lock.id = some held ∧ id ≤ held ∧
        (lock.update id now = free ∧ elapsed lock.since now duration = some .gt ∨
          lock.update id now = lock ∧ elapsed lock.since now duration ≠ some .gt) := by
  unfold update
  cases lock.id with
  | none => exact .inl ⟨rfl, by simp⟩
  | some held =>
    dsimp only
    split
    next hless => exact .inl ⟨rfl, by simpa using hless⟩
    next hle =>
      refine .inr ⟨held, rfl, Int.not_lt.1 hle, ?_⟩
      split
      next hout => exact .inl ⟨rfl, hout⟩
      next hin => exact .inr ⟨rfl, hin⟩

/-! ## Runs of calls -/

variable (calls : List (Int × Value))

/-- The lock behind calls, each with a number and a time, from none. -/
def after : Lock := calls.foldl (fun l c => l.update c.1 c.2) free

lemma after_concat (id : Int) (now : Value) :
    after (calls ++ [(id, now)]) = (after calls).update id now := by
  rw [after, foldl_append]
  rfl

/-- Nothing is held behind the first calls, and something behind each of the others. -/
structure SinceFree (first last : List (Int × Value)) : Prop where
  free : (after first).id = none
  held : ∀ part, part ≠ [] → part <+: last → (after (first ++ part)).id ≠ none

/-- The number is the greatest of the calls, and the time is that of the first call with it. -/
def Leads (id : Int) (since : Value) : Prop :=
  ∃ early late, calls = early ++ (id, since) :: late ∧ (∀ c ∈ early, c.1 < id) ∧
    ∀ c ∈ late, c.1 ≤ id

namespace Leads

variable {calls : List (Int × Value)} {id held : Int} {since : Value}

lemma of_single (id : Int) (now : Value) : Leads [(id, now)] id now :=
  ⟨[], [], rfl, by simp, by simp⟩

lemma mem (h : Leads calls held since) : (held, since) ∈ calls := by
  obtain ⟨early, late, rfl, -⟩ := h
  simp

lemma le (h : Leads calls held since) : ∀ c ∈ calls, c.1 ≤ held := by
  obtain ⟨early, late, rfl, hearly, hlate⟩ := h
  intro c hc
  rcases mem_append.1 hc with hc | hc
  · exact Int.le_of_lt (hearly c hc)
  · rcases mem_cons.1 hc with rfl | hc
    · exact Int.le_refl _
    · exact hlate c hc

lemma raise (h : ∀ c ∈ calls, c.1 < id) (now : Value) : Leads (calls ++ [(id, now)]) id now :=
  ⟨calls, [], rfl, h, by simp⟩

lemma keep (h : Leads calls held since) (hle : id ≤ held) (now : Value) :
    Leads (calls ++ [(id, now)]) held since := by
  obtain ⟨early, late, rfl, hearly, hlate⟩ := h
  refine ⟨early, late ++ [(id, now)], by simp, hearly, ?_⟩
  intro c hc
  rcases mem_append.1 hc with hc | hc
  · exact hlate c hc
  · rwa [mem_singleton.1 hc]

end Leads

lemma SinceFree.concat {first last} (h : SinceFree first last)
    {c} (hheld : (after (first ++ (last ++ [c]))).id ≠ none) :
    SinceFree first (last ++ [c]) := by
  refine ⟨h.free, fun part hpart hprefix => ?_⟩
  rcases prefix_concat_iff.1 hprefix with rfl | hprefix
  · exact hheld
  · exact h.held part hpart hprefix

/-- What is held leads the calls since nothing was held. -/
theorem leads_after (calls : List (Int × Value)) : ∀ held, (after calls).id = some held →
    ∃ first last, calls = first ++ last ∧ SinceFree first last ∧
      Leads last held (after calls).since := by
  induction calls using reverseRecOn with
  | nil => exact fun held h => by cases h
  | append_singleton calls c ih =>
    obtain ⟨id, now⟩ := c
    intro held hheld
    have hsome : (after (calls ++ [(id, now)])).id ≠ none := by simp [hheld]
    rw [after_concat] at hheld ⊢
    obtain ⟨htaken, hless⟩ | ⟨old, hold, hle, ⟨hfree, -⟩ | ⟨hkept, -⟩⟩ :=
      update_cases (after calls) id now
    · rw [htaken] at hheld ⊢
      cases hheld
      cases hold : (after calls).id with
      | none =>
        have hnone : SinceFree calls [] :=
          ⟨hold, fun part hpart hprefix => absurd (prefix_nil.1 hprefix) hpart⟩
        exact ⟨calls, [(id, now)], rfl, hnone.concat hsome, .of_single id now⟩
      | some old =>
        obtain ⟨first, last, rfl, hsince, hleads⟩ := ih old hold
        refine ⟨first, last ++ [(id, now)], by simp, hsince.concat (by rwa [← append_assoc]), ?_⟩
        exact .raise (fun c hc => Int.lt_of_le_of_lt (hleads.le c hc) (hless old hold)) now
    · rw [hfree] at hheld
      cases hheld
    · rw [hkept] at hheld ⊢
      obtain rfl : old = held := Option.some.inj (hold.symm.trans hheld)
      obtain ⟨first, last, rfl, hsince, hleads⟩ := ih old hold
      exact ⟨first, last ++ [(id, now)], by simp, hsince.concat (by rwa [← append_assoc]),
        hleads.keep hle now⟩

/-- Behind each call nothing is held, or the greatest number of the calls since nothing was held,
since the first call with it. The time of the call is then no more than the duration of a hold
behind that time. What is held is let go exactly by a call with no greater number and a time more
than that duration behind. -/
theorem holds_greatest (calls : List (Int × Value)) (id : Int) (now : Value) :
    ((after (calls ++ [(id, now)])).id = none ∨
      ∃ held first last, (after (calls ++ [(id, now)])).id = some held ∧
        calls ++ [(id, now)] = first ++ last ∧ SinceFree first last ∧
        Leads last held (after (calls ++ [(id, now)])).since ∧
        ((∀ c ∈ calls ++ [(id, now)], IsTime c.2) →
          (after (calls ++ [(id, now)])).holds now = true)) ∧
      ∀ held, (after calls).id = some held → ((after (calls ++ [(id, now)])).id = none ↔
        id ≤ held ∧ elapsed (after calls).since now duration = some .gt) := by
  constructor
  · cases hid : (after (calls ++ [(id, now)])).id with
    | none => exact .inl rfl
    | some held =>
      obtain ⟨first, last, hcalls, hsince, hleads⟩ := leads_after _ held hid
      refine .inr ⟨held, first, last, rfl, hcalls, hsince, hleads, fun htimes => ?_⟩
      have hnow : IsTime now := htimes (id, now) (by simp)
      have hall := hcalls ▸ htimes
      have hstart := hall _ (mem_append_right first hleads.mem)
      rw [holds, hid, Option.isSome_some, Bool.true_and]
      rw [after_concat] at hid hstart ⊢
      obtain ⟨htaken, -⟩ | ⟨old, hold, -, ⟨hfree, -⟩ | ⟨hkept, hin⟩⟩ :=
        update_cases (after calls) id now
      · rw [htaken, elapsed_self hnow]
        rfl
      · rw [hfree] at hid
        cases hid
      · rw [hkept] at hstart ⊢
        cases hpass : elapsed (after calls).since now duration with
        | none => exact absurd hpass (elapsed_ne_none hstart hnow)
        | some order =>
          cases order with
          | gt => exact absurd hpass hin
          | _ => rfl
  · intro held hheld
    rw [after_concat]
    obtain ⟨htaken, hless⟩ | ⟨old, hold, hle, ⟨hfree, hout⟩ | ⟨hkept, hin⟩⟩ :=
      update_cases (after calls) id now
    · rw [htaken]
      have := hless held hheld
      exact iff_of_false (Option.some_ne_none _) fun h => by omega
    · cases hold.symm.trans hheld
      rw [hfree]
      exact iff_of_true rfl ⟨hle, hout⟩
    · rw [hkept]
      exact iff_of_false (by simp [hheld]) fun h => hin h.2

end Lock

end ArmStudio.Vision
