import ArmStudio.Panel.Request
import ArmStudio.Proofs.Quotients
import Mathlib.Data.List.Forall2

/-!
# What the buttons ask for

A field shows an address as wrong that its button writes to, where the address divides into pages
but not into sectors. Speeds are above zero and up to a hundred, or not numbers at all.
-/

namespace ArmStudio.Panel

open Link Number Script

/-! ## Addresses -/

lemma address?_eq_some_iff {text} {base a : Int} : address? text base = some a ↔
    readInt 16 text.toList = .ok a ∧ base ∣ a ∧ 0 ≤ a ∧ a ≤ flashEnd := by
  unfold address?
  cases readInt 16 text.toList with
  | error e => simp
  | ok n =>
    simp only [Option.ite_none_right_eq_some, Option.some_inj, Except.ok.injEq,
      Int.dvd_iff_emod_eq_zero]
    grind

/-- The field and the button agree about a text unless it is an address in the flash at which a page
of 256 bytes starts and no sector of 4096. The button writes wherever a page starts. -/
theorem write_address_agrees_iff {text : String} (htext : text ≠ "") (path : String) :
    ((FieldKind.writeAddress.colour text = "white" ↔ ∃ m, Request.writeFlash text path = .task m) ↔
      ¬ ∃ a, readInt 16 text.toList = .ok a ∧ 256 ∣ a ∧ ¬ 4096 ∣ a ∧ 0 ≤ a ∧ a ≤ flashEnd) ∧
    ∀ m, Request.writeFlash text path = .task m ↔ ∃ a, m = .writeFlash a path ∧
      readInt 16 text.toList = .ok a ∧ 256 ∣ a ∧ 0 ≤ a ∧ a ≤ flashEnd := by
  have htask (m : Message) : Request.writeFlash text path = .task m ↔ ∃ a, m = .writeFlash a path ∧
      readInt 16 text.toList = .ok a ∧ 256 ∣ a ∧ 0 ≤ a ∧ a ≤ flashEnd := by
    simp only [← address?_eq_some_iff]
    unfold Request.writeFlash
    cases address? text 256 with
    | none => simp [Request.wrong]
    | some a => simp [eq_comm]
  have hwhite : FieldKind.writeAddress.colour text = "white" ↔
      ∃ a, readInt 16 text.toList = .ok a ∧ 4096 ∣ a ∧ 0 ≤ a ∧ a ≤ flashEnd := by
    have haddr : (address? text writeBase).isSome = true ↔
        ∃ a, readInt 16 text.toList = .ok a ∧ 4096 ∣ a ∧ 0 ≤ a ∧ a ≤ flashEnd := by
      rw [Option.isSome_iff_exists]
      exact exists_congr fun a => address?_eq_some_iff
    rw [← haddr]
    cases h : address? text writeBase <;> simp [FieldKind.colour, FieldKind.accepts, htext, h]
  refine ⟨?_, htask⟩
  rw [hwhite, exists_congr htask]
  have hdvd (a : ℤ) : 4096 ∣ a → 256 ∣ a := Dvd.dvd.trans (by decide)
  grind

/-- The page at `100` is shown as wrong and is written to. -/
theorem write_address_agrees_page : ¬ (FieldKind.writeAddress.colour "100" = "white" ↔
      ∃ m, Request.writeFlash "100" "f" = .task m) := by
  rw [(write_address_agrees_iff (by decide) "f").1, not_not]
  exact ⟨256, by decide +kernel, by decide, by decide, by decide, by decide⟩

/-! ## Speeds -/

/-- Above zero and up to a hundred. -/
def IsSpeed (x : Double) : Prop := ∃ q, x.datum.rational? = some q ∧ 0 < q ∧ q ≤ 100

lemma speed?_eq_some_iff {text} {x : Double} : speed? text = some x ↔
    number? text = some x ∧ (IsSpeed x ∨ ∃ negative, x.datum = .notANumber negative) := by
  have haccepts (x : Double) : ((Double.compareInt? 0 x).any Ordering.isGE ||
      Double.compareInt? 100 x == some .lt) = false ↔
        IsSpeed x ∨ ∃ negative, x.datum = .notANumber negative := by
    cases hx : x.datum with
    | finite negative man exp =>
      obtain ⟨q, hq⟩ : ∃ q, x.datum.rational? = some q := ⟨_, congrArg Datum.rational? hx⟩
      have hspeed : IsSpeed x ↔ 0 < q ∧ q ≤ 100 := by simp [IsSpeed, hq]
      simp only [Double.compareInt?_eq hq, hspeed]
      simp [Ordering.isGE_eq_false, compare_lt_iff_lt]
    | infinite negative =>
      have hspeed : ¬ IsSpeed x := by simp [IsSpeed, hx, Datum.rational?]
      cases negative <;> simp [Double.compareInt?, hx, hspeed]
    | notANumber negative => simp [Double.compareInt?, hx]
  unfold speed?
  cases number? text with
  | none => simp
  | some y =>
    rw [← haccepts]
    grind

lemma mapM_cases {α β : Type} (f : α → Option β) (l : List α) :
    (∃ ys, l.mapM f = some ys ∧ List.Forall₂ (fun a y => f a = some y) l ys) ∨
      l.mapM f = none ∧ ∃ a ∈ l, f a = none := by
  induction l with
  | nil => exact .inl ⟨[], rfl, .nil⟩
  | cons a rest ih =>
    rw [List.mapM_cons]
    cases ha : f a with
    | none => exact .inr ⟨rfl, a, List.mem_cons_self, ha⟩
    | some y =>
      obtain ⟨ys, hys, hall⟩ | ⟨hnone, b, hb, hfb⟩ := ih
      · exact .inl ⟨y :: ys, by rw [hys]; rfl, .cons ha hall⟩
      · exact .inr ⟨by rw [hnone]; rfl, b, List.mem_cons_of_mem a hb, hfb⟩

/-- Six texts are sent as speeds if each is read as a speed or as not a number. Otherwise there is
one notice and no task. -/
theorem setSpeed_speeds (a b c d e f : String) :
    (∃ percents xs, Request.setSpeed [a, b, c, d, e, f] = .task (.setSpeed percents) ∧
      percents.toList = xs.map Value.real ∧
      List.Forall₂ (fun text x => number? text = some x ∧
        (IsSpeed x ∨ ∃ negative, x.datum = .notANumber negative)) [a, b, c, d, e, f] xs) ∨
    Request.setSpeed [a, b, c, d, e, f] = .notice (.errorWindow "请输入速度参数") ∧
      ∃ text ∈ [a, b, c, d, e, f], ∀ x, number? text = some x →
        ¬ (IsSpeed x ∨ ∃ negative, x.datum = .notANumber negative) := by
  rw [Request.setSpeed, Request.six?]
  obtain ⟨xs, hxs, hall⟩ | ⟨hnone, text, htext, hwrong⟩ := mapM_cases speed? [a, b, c, d, e, f]
  · rw [hxs]
    have hspeeds := hall.imp fun _ _ h => speed?_eq_some_iff.1 h
    rcases hall with _ | ⟨_, _ | ⟨_, _ | ⟨_, _ | ⟨_, _ | ⟨_, _ | ⟨_, _ | _⟩⟩⟩⟩⟩⟩
    exact .inl ⟨_, _, rfl, rfl, hspeeds⟩
  · refine .inr ⟨by rw [hnone]; rfl, text, htext, fun x hx hspeed => ?_⟩
    cases hwrong.symm.trans (speed?_eq_some_iff.2 ⟨hx, hspeed⟩)

end ArmStudio.Panel
