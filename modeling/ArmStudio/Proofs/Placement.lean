import ArmStudio.Proofs.Linking
import ArmStudio.Proofs.Loading

/-!
# Instructions in a loaded program

Where the instructions of an assembly stand in the program that the machine runs.
-/

namespace ArmStudio.Machine.Image

open Code

/-- Instructions stand at an address, and their labels are where `place` says. -/
def CodeAt (image : Image) (place : String → Int) : Nat → List Instr → Prop
  | _, [] => True
  | a, i :: rest =>
    (i.Fits ∧ image.Holds a (i.encoded place) ∧ ∀ name, i.mark? = some name → place name = a) ∧
      CodeAt image place (a + i.width) rest

variable {image : Image} {place : String → Int} {a : Nat} {is : List Instr}

@[simp] lemma codeAt_append {xs ys} : image.CodeAt place a (xs ++ ys) ↔
      image.CodeAt place a xs ∧ image.CodeAt place (a + width xs) ys := by
  induction xs generalizing a with
  | nil => simp [CodeAt]
  | cons i rest ih => simp only [List.cons_append, CodeAt, ih, width_cons, add_assoc, and_assoc]

lemma CodeAt.fits (h : image.CodeAt place a is) : ∀ i ∈ is, i.Fits := by
  induction is generalizing a with
  | nil =>
    intro i hi
    cases hi
  | cons i rest ih =>
    intro j hj
    rcases List.mem_cons.1 hj with rfl | hj
    · exact h.1.1
    · exact ih h.2 j hj

lemma CodeAt.end_le (h : image.CodeAt place a is) (hne : is ≠ []) :
    a + width is ≤ image.codeSize.toNat := by
  induction is generalizing a with
  | nil => exact absurd rfl hne
  | cons i rest ih =>
    rcases h with ⟨⟨hfit, hholds, _⟩, hrest⟩
    have hi : a + i.width ≤ image.codeSize.toNat := by
      have := hholds.1
      rwa [hfit.length_encoded] at this
    cases rest with
    | nil => simpa using hi
    | cons j others =>
      have := ih hrest (by simp)
      simpa [add_assoc] using this

lemma CodeAt.place_mark {name} {b : Nat} (h : image.CodeAt place b is)
    (hname : name ∈ marks is) : ∃ c : Nat, place name = c ∧ c ≤ image.codeSize.toNat := by
  induction is generalizing b with
  | nil => cases hname
  | cons i rest ih =>
    cases hmark : i.mark? with
    | none => exact ih h.2 (by simpa [marks, hmark] using hname)
    | some other =>
      have hsplit : name = other ∨ name ∈ marks rest := by simpa [marks, hmark] using hname
      rcases hsplit with rfl | hrest
      · have hle := h.1.2.1.1
        exact ⟨b, h.1.2.2 name hmark, by omega⟩
      · exact ih h.2 hrest

lemma codeAt_of_holds (is : List Instr) : ∀ done : List Instr,
    (∀ i ∈ is, i.Fits) → (marks (done ++ is)).Nodup →
    image.Holds (width done) (encodedCode (placeIn (done ++ is)) is) →
    image.CodeAt (placeIn (done ++ is)) (width done) is := by
  induction is with
  | nil =>
    intro done _ _ _
    trivial
  | cons i rest ih =>
    intro done hfit hnodup hholds
    have hi : i.Fits := hfit i (by simp)
    rw [encodedCode_cons, holds_append, hi.length_encoded] at hholds
    refine ⟨⟨hi, hholds.1, ?_⟩, ?_⟩
    · intro name hm
      have hnew : name ∉ marks done := by
        intro hmem
        rw [marks_append, List.nodup_append] at hnodup
        exact hnodup.2.2 name hmem name (by simp [marks, hm]) rfl
      have hnone : labelPlace name done = none := (labelPlace_eq_none_iff name done).2 hnew
      apply placeIn_of_some
      simp [labelPlace_append, hnone, labelPlace, hm]
    · have := ih (done ++ [i]) (fun j hj => hfit j (by simp [hj])) (by simpa using hnodup)
        (by simpa using hholds.2)
      simpa using this

section

variable {a : Assembly} {labels : Labels} {globalCount : Nat} {constants : List UInt8}

lemma link_file (hfresh : ∀ name, labels.place name = Labels.unplaced)
    (hfit : ∀ i ∈ a.startUp ++ a.code, i.Fits)
    (hc : ∀ name ∈ marks (a.startUp ++ a.code), labels.places.contains name = true)
    (hnodup : (marks (a.startUp ++ a.code)).Nodup)
    (hconsts : constantBytes a.constants = .ok constants) (hsize : a.globalSize = globalCount) :
    (link a labels).file = .ok (complete (header a.constants.length constants globalCount ++
      encodedCode (placeIn (a.startUp ++ a.code)) (a.startUp ++ a.code)).toArray) := by
  obtain ⟨l, htake, hbytes, _⟩ := Linker.takeAll_encodes
    (header a.constants.length constants globalCount) labels (a.startUp ++ a.code) hfresh hfit hc
    hnodup
  unfold header at htake
  rw [← hbytes]
  simp only [link, hconsts, hsize]
  rw [htake]

/-- A linked file within the machine's limits is loaded, and its instructions stand from address 0
on. -/
theorem load_linked (hfit : ∀ i ∈ a.startUp ++ a.code, i.Fits)
    (hnodup : (marks (a.startUp ++ a.code)).Nodup)
    (hlength : constants.length = 4 * a.constants.length)
    (hcount : a.constants.length ≤ constantLimit) (hglobs : globalCount ≤ globalLimit)
    (hwidth : width (a.startUp ++ a.code) < 65536) :
    ∃ image, load (complete (header a.constants.length constants globalCount ++
        encodedCode (placeIn (a.startUp ++ a.code)) (a.startUp ++ a.code)).toArray) = .ok image ∧
      image.globalCount = globalCount ∧
      image.codeSize.toNat = width (a.startUp ++ a.code) ∧
      image.CodeAt (placeIn (a.startUp ++ a.code)) 0 (a.startUp ++ a.code) := by
  have hlen := length_encodedCode hfit (placeIn (a.startUp ++ a.code))
  obtain ⟨hload, hs, hholds⟩ := load_complete hlength hcount hglobs (hlen ▸ hwidth)
  exact ⟨_, hload, rfl, by rw [hs, hlen], codeAt_of_holds _ [] hfit hnodup hholds⟩

lemma load_linked_refused (hfit : ∀ i ∈ a.startUp ++ a.code, i.Fits)
    (hlength : constants.length = 4 * a.constants.length)
    (hcount : a.constants.length ≤ constantLimit) (hglobs : globalLimit < globalCount)
    (hbound : globalCount < 65536) (hwidth : width (a.startUp ++ a.code) < 65536) :
    load (complete (header a.constants.length constants globalCount ++
      encodedCode (placeIn (a.startUp ++ a.code)) (a.startUp ++ a.code)).toArray) =
        .error .globalsTooLarge := by
  have hlen := length_encodedCode hfit (placeIn (a.startUp ++ a.code))
  rw [load_complete_cases hlength (hcount.trans_lt (by decide)) hbound
    (hlen ▸ hwidth.le), if_neg (not_lt.2 hcount), if_pos hglobs]

end

end ArmStudio.Machine.Image
