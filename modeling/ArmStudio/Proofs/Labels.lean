import ArmStudio.Proofs.Encoding
import ArmStudio.Proofs.Tables
import Mathlib.Data.List.Perm.Basic

/-!
# Names of labels

Labels of statements are named by a number and a word; labels of functions by the function, whose
name does not start with a digit.

* `labelNumber?` — the number in the name of a label;
* `contains_foldl_create`, `place_foldl_create` — labels that were created have no place yet.
-/

namespace ArmStudio.Code

variable (name : String)

def labelNumber? : Option Nat :=
  match name.toList.takeWhile Char.isDigit with
  | [] => none
  | digits => some (Nat.ofDigitChars 10 digits 0)

lemma labelNumber?_eq_none {name} (h : name.toList.head?.any Char.isDigit = false) :
    labelNumber? name = none := by
  unfold labelNumber?
  cases hname : name.toList with
  | nil => rfl
  | cons c rest =>
    have hc : c.isDigit = false := by simpa [hname] using h
    simp [hc]

lemma labelNumber?_append (k : Nat) {word : String}
    (h : word.toList.head?.any Char.isDigit = false) :
    labelNumber? (toString k ++ word) = some k := by
  have hdigits : ∀ c ∈ Nat.toDigits 10 k, c.isDigit = true := fun c hc =>
    Nat.isDigit_of_mem_toDigits (by omega) (by omega) hc
  have hword : word.toList.takeWhile Char.isDigit = [] := by
    cases hw : word.toList with
    | nil => rfl
    | cons c rest =>
      have hc : c.isDigit = false := by simpa [hw] using h
      simp [hc]
  have htake : (toString k ++ word).toList.takeWhile Char.isDigit = Nat.toDigits 10 k := by
    rw [String.toList_append, Nat.toString_eq_ofList_toDigits, String.toList_ofList,
      List.takeWhile_append_of_pos hdigits, hword, List.append_nil]
  unfold labelNumber?
  rw [htake]
  have hne : Nat.toDigits 10 k ≠ [] := Nat.toDigits_ne_nil
  have hread : Nat.ofDigitChars 10 (Nat.toDigits 10 k) 0 = k :=
    Nat.ofDigitChars_toDigits (by omega) (by omega)
  cases hd : Nat.toDigits 10 k with
  | nil => exact absurd hd hne
  | cons c rest => simpa [hd] using hread

/-! ## Created labels -/

namespace Labels

lemma contains_create (l : Labels) (name other : String) :
    (l.create name).places.contains other = (decide (name = other) || l.places.contains other) :=
  Table.contains_insert l.places name other unplaced

lemma place_create {l : Labels} (h : ∀ other, l.place other = unplaced) (name other : String) :
    (l.create name).place other = unplaced := by
  have hother := h other
  unfold place at hother ⊢
  by_cases hn : name = other
  · simp [create, hn]
  · simpa [create, Table.find?_insert_of_ne _ _ hn] using hother

lemma contains_foldl_create {names : List String} {name : String} (h : name ∈ names) :
    ∀ l : Labels, (names.foldl create l).places.contains name = true := by
  have hkeeps : ∀ (names : List String) (l : Labels), l.places.contains name = true →
      (names.foldl create l).places.contains name = true := by
    intro names
    induction names with
    | nil => exact fun l hl => hl
    | cons other rest ih => exact fun l hl => ih _ (by rw [contains_create, hl, Bool.or_true])
  induction names with
  | nil => cases h
  | cons other rest ih =>
    intro l
    rcases List.mem_cons.1 h with rfl | h
    · exact hkeeps rest _ (by simp [contains_create])
    · exact ih h _

lemma place_foldl_create (names : List String) : ∀ {l : Labels},
    (∀ other, l.place other = unplaced) →
      ∀ other, (names.foldl create l).place other = unplaced := by
  induction names with
  | nil => exact fun h => h
  | cons name rest ih => exact fun h => ih fun other => place_create h name other

end Labels

@[simp] lemma marks_nil : marks [] = [] := rfl

variable (rest : List Instr)

@[simp] lemma marks_label : marks (labelInstr name :: rest) = name :: marks rest := rfl

@[simp] lemma marks_jmp : marks (jumpInstr .jmp name :: rest) = marks rest := rfl

@[simp] lemma marks_jz : marks (jumpInstr .jz name :: rest) = marks rest := rfl

end ArmStudio.Code
