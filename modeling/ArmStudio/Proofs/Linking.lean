import ArmStudio.Proofs.Encoding
import ArmStudio.Proofs.Tables

/-!
# Linking in one pass

The linker meets a jump before it knows where the label is, leaves `ffff` and overwrites it when
the label comes. `takeAll_encodes` says that this is the same as encoding all instructions with
the final places: an invariant says what the bytes, the places and the awaited sites are after a
prefix of the instructions, `LinkedUpTo.take` takes it over one instruction, and an induction over
the rest.
-/

namespace ArmStudio.Code

open Instr Labels

/-- Where labels are once a list of instructions was taken in; `ffff` stands for a label that was
not placed. -/
def placeIn (is : List Instr) (name : String) : Int :=
  match labelPlace name is with
  | some place => place
  | none => 0xffff

variable {name : String} {i : Instr}

lemma placeIn_of_some {is} {place : Nat} (h : labelPlace name is = some place) :
    placeIn is name = place := by
  simp [placeIn, h]

lemma placeIn_snoc_of_unmarked (xs : List Instr) (h : i.mark? = none) :
    placeIn (xs ++ [i]) = placeIn xs := by
  funext name
  cases hp : labelPlace name xs <;> simp [placeIn, labelPlace_append, labelPlace, hp, h]

lemma placeIn_snoc_mark (xs : List Instr) (h : i.mark? = some name) (hnew : name ∉ marks xs) :
    placeIn (xs ++ [i]) = relabel (placeIn xs) name (width xs) := by
  have hnone : labelPlace name xs = none := (labelPlace_eq_none_iff name xs).2 hnew
  funext other
  by_cases ho : other = name
  · subst ho
    simp [placeIn, labelPlace_append, labelPlace, hnone, h, relabel]
  · cases hp : labelPlace other xs <;>
      simp [placeIn, labelPlace_append, labelPlace, hp, h, relabel, ho, Ne.symm ho]

/-! ## The invariant -/

namespace Linker

/-- What a linker holds after the instructions `done`, behind the bytes `head`: the instructions
encoded with the places known so far, those places, and for every label not placed the sites of
the jumps to it. -/
structure LinkedUpTo (head : List UInt8) (created : String → Bool) (done : List Instr)
    (l : Linker) : Prop where
  codeStart : l.codeStart = head.length
  bytes : l.bytes.toList = head ++ encodedCode (placeIn done) done
  created : ∀ name, l.labels.places.contains name = created name
  placed : ∀ name, l.labels.place name = match labelPlace name done with
    | some place => (place : Int)
    | none => unplaced
  awaited : ∀ name, name ∉ marks done →
    (l.awaited.find? name).getD [] = jumpSites name head.length done

variable {head : List UInt8} {created : String → Bool} {done : List Instr} {l : Linker}

lemma toList_foldl_patch (value : Int) (sites : List Nat) (bytes : Array UInt8) :
    (sites.foldl (patch · value ·) bytes).toList = sites.foldl (overwrite value) bytes.toList := by
  induction sites generalizing bytes with
  | nil => rfl
  | cons pos rest ih =>
    simp only [List.foldl_cons]
    rw [ih]
    congr 1
    simp [patch, overwrite]

lemma toList_append (l : Linker) (bytes : List UInt8) :
    (l.append bytes).bytes.toList = l.bytes.toList ++ bytes := by
  have h : ∀ (xs : List UInt8) (start : Array UInt8),
      (xs.foldl Array.push start).toList = start.toList ++ xs := by
    intro xs
    induction xs with
    | nil =>
      intro start
      simp
    | cons x rest ih =>
      intro start
      rw [List.foldl_cons, ih]
      simp
  exact h bytes l.bytes

namespace LinkedUpTo

lemma start (head : List UInt8) (labels : Labels)
    (hfresh : ∀ name, labels.place name = unplaced) :
    LinkedUpTo head labels.places.contains [] ⟨head.toArray, head.length, labels, .empty⟩ := by
  refine ⟨rfl, by simp, fun _ => rfl, fun name => hfresh name, ?_⟩
  intro name _
  simp [jumpSites]

section

variable (h : LinkedUpTo head created done l)

include h

variable (hfit : ∀ i ∈ done, i.Fits)

include hfit

lemma size_bytes : l.bytes.size = head.length + width done := by
  rw [← Array.length_toList, h.bytes, List.length_append, length_encodedCode hfit]

variable {i : Instr}

lemma takeLabel (hop : i.op = .label) {name} (hm : i.mark? = some name)
    (hc : created name) (hnew : name ∉ marks done) :
    ∃ l', l.take i = (l', none) ∧ LinkedUpTo head created (done ++ [i]) l' := by
  rcases hargs : i.args with _ | ⟨a, rest⟩
  · simp [mark?, hop, hargs] at hm
  · cases a with
    | label other address =>
      have ho : other = name := by simpa [mark?, hop, hargs] using hm
      subst ho
      have hcont : l.labels.places.contains other = true := by rw [h.created, hc]
      have hhere : (l.bytes.size : Int) - l.codeStart = width done := by
        rw [h.size_bytes hfit, h.codeStart]
        omega
      have hjump : i.target? = none := by simp [Instr.target?, hop, Opcode.isJump]
      have hwidth : i.width = 0 := by simp [Instr.width, hop]
      have htake : l.take i =
          (⟨((l.awaited.find? other).getD []).foldl (patch · (width done) ·) l.bytes, l.codeStart,
            ⟨l.labels.places.insert other (width done), l.labels.counter⟩, l.awaited⟩, none) := by
        simp [take, hop, hargs, placeLabel, setPlace?, hcont, hhere]
      refine ⟨_, htake, ?_⟩
      constructor
      · exact h.codeStart
      · rw [toList_foldl_patch, h.awaited other hnew, h.bytes, placeIn_snoc_mark done hm hnew,
          encodedCode_append, encodedCode_relabel hfit]
        simp [encodedCode, encoded_label _ hop]
      · intro key
        have : other = key → created key = true := by
          intro heq
          rw [← heq, hc]
        by_cases hk : other = key
        · simp [Table.contains_insert, hk, this hk]
        · simp [Table.contains_insert, hk, h.created]
      · intro key
        by_cases hk : other = key
        · subst hk
          have hnone := (labelPlace_eq_none_iff other done).2 hnew
          simp [place, labelPlace_append, labelPlace, hnone, hm]
        · have hplaced := h.placed key
          simp only [place] at hplaced ⊢
          rw [Table.find?_insert_of_ne _ _ hk, hplaced]
          cases hp : labelPlace key done <;>
            simp [labelPlace_append, labelPlace, hp, hm, hk]
      · intro key hkey
        have hkey' : key ∉ marks done := fun hmem => hkey (by simp [hmem])
        rw [h.awaited key hkey', jumpSites_append]
        simp [jumpSites, hjump]
    | u8 | u16 | u32 | f32 => simp [mark?, hop, hargs] at hm

lemma takeJump {name address rest bytes}
    (hl : i.op ≠ .label) (hj : i.op.isJump) (hargs : i.args = .label name address :: rest)
    (hr : argBytes rest = .ok bytes) :
    ∃ l', l.take i = (l', none) ∧ LinkedUpTo head created (done ++ [i]) l' := by
  have hmark : i.mark? = none := by simp [mark?, hl]
  have htgt : i.target? = some name := by simp [target?, hj, hargs]
  have hmarks : marks (done ++ [i]) = marks done := by simp [marks, hmark]
  have hplaces := placeIn_snoc_of_unmarked done hmark
  have henc : i.encoded (placeIn done) = i.op.code :: (intBytes 2 (placeIn done name) ++ bytes) :=
    encoded_jump _ hj hargs hr
  have hplaced : ∀ key, l.labels.place key = match labelPlace key (done ++ [i]) with
      | some place => (place : Int)
      | none => unplaced := by
    intro key
    rw [h.placed key]
    cases hp : labelPlace key done <;> simp [labelPlace_append, labelPlace, hp, hmark]
  -- whatever the search for the place does to the sites that wait for it
  have hnext awaited (haddr : l.addressOf name = (placeIn done name, { l with awaited }))
      (hawaited : ∀ key, key ∉ marks done →
        (awaited.find? key).getD [] = jumpSites key head.length (done ++ [i])) :
      ∃ l', l.take i = (l', none) ∧ LinkedUpTo head created (done ++ [i]) l' := by
    refine ⟨Linker.append { l with awaited } (i.encoded (placeIn done)), ?_, h.codeStart, ?_,
      h.created, hplaced, by rwa [hmarks]⟩
    · simp [take, hl, hj, hargs, haddr, bytes_jump hr, henc]
    · rw [toList_append, h.bytes, hplaces]
      simp [List.append_assoc]
  by_cases hknown : name ∈ marks done
  · rcases Option.isSome_iff_exists.1 ((labelPlace_isSome name done).2 hknown) with ⟨place, hp⟩
    have hplace : l.labels.place name = place := by rw [h.placed name, hp]
    refine hnext l.awaited (by simp [addressOf, hplace, placeIn, hp]) fun key hkey => ?_
    have hne : name ≠ key := fun heq => hkey (heq ▸ hknown)
    simpa [jumpSites_append, jumpSites, htgt, hne] using h.awaited key hkey
  · have hnone := (labelPlace_eq_none_iff name done).2 hknown
    have hplace : l.labels.place name = unplaced := by rw [h.placed name, hnone]
    let sites := jumpSites name head.length done ++ [head.length + width done + 1]
    refine hnext (l.awaited.insert name sites) ?_ fun key hkey => ?_
    · simp [addressOf, hplace, unplaced, placeIn, hnone, h.awaited name hknown, h.size_bytes hfit,
        sites]
    · by_cases hk : name = key
      · subst hk
        simp [jumpSites_append, jumpSites, htgt, sites]
      · simpa [jumpSites_append, jumpSites, htgt, hk, Table.find?_insert_of_ne] using
          h.awaited key hkey

omit hfit in
lemma takePlain {bytes} (hl : i.op ≠ .label) (hj : i.op.isJump = false) (hb : i.bytes = .ok bytes) :
    ∃ l', l.take i = (l', none) ∧ LinkedUpTo head created (done ++ [i]) l' := by
  have hmark : i.mark? = none := by simp [mark?, hl]
  have htgt : i.target? = none := by simp [target?, hj]
  refine ⟨l.append bytes, by simp [take, hl, hj, hb], h.codeStart, ?_, h.created, ?_, ?_⟩
  · rw [toList_append, h.bytes, placeIn_snoc_of_unmarked done hmark]
    simp [encoded_plain _ hl hj hb]
  · intro key
    have hplaced := h.placed key
    cases hp : labelPlace key done <;>
      simpa [labelPlace_append, labelPlace, hp, hmark, append] using hplaced
  · intro key hkey
    have hkey' : key ∉ marks done := fun hmem => hkey (by simp [hmem])
    have hsites := h.awaited key hkey'
    rw [jumpSites_append]
    simpa [jumpSites, htgt, append] using hsites

lemma take (hi : i.Fits) (hc : ∀ name, i.mark? = some name → created name)
    (hnew : ∀ name, i.mark? = some name → name ∉ marks done) :
    ∃ l', l.take i = (l', none) ∧ LinkedUpTo head created (done ++ [i]) l' := by
  obtain ⟨hl, name, address, rest, hargs⟩ | ⟨hl, hj, name, address, rest, bytes, hargs, hr⟩ |
    ⟨hl, hj, bytes, hb⟩ := hi.cases
  · have hm : i.mark? = some name := by simp [mark?, hl, hargs]
    exact h.takeLabel hfit hl hm (hc name hm) (hnew name hm)
  · exact h.takeJump hfit hl hj hargs hr
  · exact h.takePlain hl hj hb

end

lemma takeAll (is : List Instr) {done} {l : Linker}
    (h : LinkedUpTo head created done l) (hfit : ∀ i ∈ done ++ is, i.Fits)
    (hc : ∀ name ∈ marks is, created name = true) (hnodup : (marks (done ++ is)).Nodup) :
    ∃ l', l.takeAll is = (l', none) ∧ LinkedUpTo head created (done ++ is) l' := by
  induction is generalizing done l with
  | nil => exact ⟨l, rfl, by simpa using h⟩
  | cons i rest ih =>
    have hmarked : ∀ name, i.mark? = some name → name ∈ marks (i :: rest) := by
      intro name hm
      simp [marks, hm]
    have hnew : ∀ name, i.mark? = some name → name ∉ marks done := by
      intro name hm hmem
      rw [marks_append, List.nodup_append] at hnodup
      exact hnodup.2.2 name hmem name (hmarked name hm) rfl
    rcases h.take (fun j hj => hfit j (by simp [hj])) (hfit i (by simp))
      (fun name hm => hc name (hmarked name hm)) hnew with ⟨l1, htake, h1⟩
    have hrest : ∀ name ∈ marks rest, created name = true := by
      intro name hmem
      refine hc name ?_
      cases hm : i.mark? <;> simp_all [marks]
    rcases ih h1 (by simpa using hfit) hrest (by simpa using hnodup) with ⟨l2, hall, h2⟩
    refine ⟨l2, ?_, by simpa using h2⟩
    simp [Linker.takeAll, htake, hall]

end LinkedUpTo

/-- A linker that starts behind `head` with fresh labels takes in any instructions that fit and
place each of their labels once, and leaves them encoded with the final places. -/
theorem takeAll_encodes (head : List UInt8) (labels : Labels) (is : List Instr)
    (hfresh : ∀ name, labels.place name = unplaced) (hfit : ∀ i ∈ is, i.Fits)
    (hc : ∀ name ∈ marks is, labels.places.contains name = true) (hnodup : (marks is).Nodup) :
    ∃ l, takeAll ⟨head.toArray, head.length, labels, .empty⟩ is = (l, none) ∧
      l.bytes.toList = head ++ encodedCode (placeIn is) is ∧
      ∀ name place, labelPlace name is = some place → l.labels.place name = place := by
  rcases LinkedUpTo.takeAll is (.start head labels hfresh) (by simpa using hfit) hc
    (by simpa using hnodup) with ⟨l, hall, h⟩
  refine ⟨l, hall, by simpa using h.bytes, ?_⟩
  intro name place hp
  have := h.placed name
  simpa [hp] using this

end Linker

end ArmStudio.Code
