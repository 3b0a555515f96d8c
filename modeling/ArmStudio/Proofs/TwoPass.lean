import ArmStudio.Proofs.Labels
import ArmStudio.Proofs.Linking

/-!
# Linking as assembly in two passes

In two passes, the first finds where every label is (`placeIn`), and the second encodes the
instructions one after the other with those places (`secondPass`). The linker goes over the
instructions once and overwrites what it did not know; it leaves the same file or the same error.
-/

namespace ArmStudio.Code

open Linker Instr Labels

def Instr.placedBytes (place : String → Int) (i : Instr) : Except LinkError (List UInt8) :=
  if i.op = .label then
    match i.args with
    | .label .. :: _ => .ok []
    | [] => .error .noOperand
    | _ => .error .notALabel
  else if i.op.isJump then
    match i.args with
    | .label .. :: _ => (i.resolve place).bytes.mapError .encode
    | [] => .error .noOperand
    | _ => .error .notALabel
  else i.bytes.mapError .encode

/-- The bytes of code whose labels have their places. -/
def secondPass (place : String → Int) : List Instr → Except LinkError (List UInt8)
  | [] => .ok []
  | i :: rest => do return (← i.placedBytes place) ++ (← secondPass place rest)

/-- The bytes in front of the code of an assembly, before the size of the file is known. -/
def Assembly.head (a : Assembly) (constants : List UInt8) : List UInt8 :=
  List.replicate 4 0xff ++ intBytes 2 a.constants.length ++ constants ++ intBytes 2 a.globalSize

/-- The file that is linked in two passes: first the places of labels, then the bytes. -/
def twoPassFile (a : Assembly) : Except LinkError (List UInt8) := do
  let constants ← constantBytes a.constants
  let code ← secondPass (placeIn (a.startUp ++ a.code)) (a.startUp ++ a.code)
  return complete (a.head constants ++ code).toArray

/-! ## One instruction -/

variable {i : Instr} {is : List Instr} {name : String}

lemma Instr.Fits.placedBytes (h : i.Fits) (place : String → Int) :
    i.placedBytes place = .ok (i.encoded place) := by
  obtain ⟨hl, name, address, rest, ha⟩ | ⟨hl, hj, name, address, rest, bytes, ha, hr⟩ |
    ⟨hl, hj, bytes, hb⟩ := h.cases
  · simp [Instr.placedBytes, hl, ha, encoded_label place hl]
  · have hres : i.resolve place = ⟨i.op, .label name (some (place name)) :: rest⟩ := by
      simp [resolve, hj, ha]
    simp [Instr.placedBytes, hl, hj, ha, hres, bytes_jump hr, encoded_jump place hj ha hr,
      Except.mapError]
  · simp [Instr.placedBytes, hl, hj, hb, encoded_plain place hl hj hb, Except.mapError]

/-- Every instruction fits, or the linker and the second pass refuse it for one reason, wherever
labels are. -/
theorem Instr.fits_or_refused (i : Instr) :
    i.Fits ∨ ∃ e, (∀ place, i.placedBytes place = .error e) ∧
      ∀ l : Linker, ∃ l', l.take i = (l', some e) := by
  by_cases hl : i.op = .label
  · rcases ha : i.args with _ | ⟨a, rest⟩
    · right
      exact ⟨.noOperand, fun _ => by simp [placedBytes, hl, ha],
        fun l => ⟨l, by simp [take, hl, ha]⟩⟩
    · cases a with
      | label name address =>
        left
        simp [Fits, hl, ha]
      | u8 p | u16 p | u32 p | f32 p =>
        right
        exact ⟨.notALabel, fun _ => by simp [placedBytes, hl, ha],
          fun l => ⟨l, by simp [take, hl, ha]⟩⟩
  · by_cases hj : i.op.isJump = true
    · rcases ha : i.args with _ | ⟨a, rest⟩
      · right
        exact ⟨.noOperand, fun _ => by simp [placedBytes, hl, hj, ha],
          fun l => ⟨l, by simp [take, hl, hj, ha]⟩⟩
      · cases a with
        | label name address =>
          cases hr : argBytes rest with
          | ok bytes =>
            left
            simp [Fits, hl, hj, ha, hr]
          | error e =>
            -- The address does not matter: the operands behind it have no bytes.
            have hb : ∀ value : Int,
                bytes ⟨i.op, .label name (some value) :: rest⟩ = .error e := by
              intro value
              simp [bytes, argBytes, Operand.bytes, hr]
            right
            refine ⟨.encode e, fun place => ?_, fun l => ⟨(l.addressOf name).2, ?_⟩⟩
            · simp [placedBytes, resolve, hl, hj, ha, hb, Except.mapError]
            · simp [take, hl, hj, ha, hb]
        | u8 p | u16 p | u32 p | f32 p =>
          right
          exact ⟨.notALabel, fun _ => by simp [placedBytes, hl, hj, ha],
            fun l => ⟨l, by simp [take, hl, hj, ha]⟩⟩
    · cases hb : i.bytes with
      | ok bytes =>
        left
        simp [Fits, hl, hj, hb]
      | error e =>
        right
        exact ⟨.encode e, fun _ => by simp [placedBytes, hl, hj, hb, Except.mapError],
          fun l => ⟨l, by simp [take, hl, hj, hb]⟩⟩

/-! ## All instructions -/

lemma secondPass_of_fits (h : ∀ i ∈ is, i.Fits) (place : String → Int) :
    secondPass place is = .ok (encodedCode place is) := by
  induction is with
  | nil => rfl
  | cons i rest ih =>
    obtain ⟨hi, hrest⟩ := List.forall_mem_cons.1 h
    simp [secondPass, hi.placedBytes place, ih hrest]

lemma fits_of_secondPass {place code} (h : secondPass place is = .ok code) : ∀ i ∈ is, i.Fits := by
  induction is generalizing code with
  | nil =>
    intro i hi
    cases hi
  | cons i rest ih =>
    rcases i.fits_or_refused with hi | ⟨e, he, _⟩
    · cases hrest : secondPass place rest with
      | error e => simp [secondPass, hi.placedBytes place, hrest] at h
      | ok others =>
        intro j hj
        rcases List.mem_cons.1 hj with rfl | hj
        · exact hi
        · exact ih hrest j hj
    · simp [secondPass, he place] at h

namespace Linker

/-! ## The number of bytes -/

lemma size_append (l : Linker) (bytes : List UInt8) :
    (l.append bytes).bytes.size = l.bytes.size + bytes.length := by
  rw [← Array.length_toList, toList_append, List.length_append, Array.length_toList]

lemma size_foldl_patch (value : Int) (sites : List Nat) (bytes : Array UInt8) :
    (sites.foldl (patch · value ·) bytes).size = bytes.size := by
  induction sites generalizing bytes with
  | nil => rfl
  | cons pos rest ih =>
    rw [List.foldl_cons, ih]
    simp [patch]

lemma addressOf_keeps (l : Linker) (name : String) :
    (l.addressOf name).2.bytes = l.bytes ∧ (l.addressOf name).2.labels = l.labels := by
  by_cases hp : 0 ≤ l.labels.place name <;> simp [addressOf, hp]

lemma take_of_fits {l : Linker} {i : Instr} (hi : i.Fits)
    (hc : ∀ name, i.mark? = some name → l.labels.places.contains name) :
    ∃ l', l.take i = (l', none) ∧ l'.bytes.size = l.bytes.size + i.width ∧
      ∀ name, l.labels.places.contains name → l'.labels.places.contains name := by
  have hwidth := hi.length_encoded
  obtain ⟨hl, name, address, rest, ha⟩ | ⟨hl, hj, name, address, rest, bytes, ha, hr⟩ |
    ⟨hl, hj, bytes, hb⟩ := hi.cases
  · have hcontains := hc name (by simp [mark?, hl, ha])
    let here : Int := l.bytes.size - l.codeStart
    let l' : Linker := ⟨((l.awaited.find? name).getD []).foldl (patch · here ·) l.bytes,
      l.codeStart, ⟨l.labels.places.insert name here, l.labels.counter⟩, l.awaited⟩
    refine ⟨l', by simp [take, hl, ha, placeLabel, setPlace?, hcontains, l', here], ?_, ?_⟩
    -- a mark adds no bytes, and addresses that awaited it were two bytes before
    · simp [l', size_foldl_patch, Instr.width, hl]
    · intro other hother
      simp [l', Table.contains_insert, hother]
  · obtain ⟨hbytes, hlabels⟩ := l.addressOf_keeps name
    refine ⟨_, by simp [take, hl, hj, ha, bytes_jump hr]; rfl, ?_, ?_⟩
    · have hlen := hwidth (fun _ => (l.addressOf name).1)
      rw [encoded_jump _ hj ha hr] at hlen
      rw [size_append, hbytes, hlen]
    · intro other hother
      simpa [append, hlabels] using hother
  · have hlen := hwidth (fun _ => 0)
    rw [encoded_plain _ hl hj hb] at hlen
    exact ⟨l.append bytes, by simp [take, hl, hj, hb], by rw [size_append, hlen], fun _ h => h⟩

/-- The linker takes in instructions whose labels were created, or stops with the error of the
second pass. -/
theorem takeAll_secondPass (is : List Instr) : ∀ {l : Linker},
    (∀ name ∈ marks is, l.labels.places.contains name = true) →
    ((∀ i ∈ is, i.Fits) ∧ (l.takeAll is).2 = none ∧
        (l.takeAll is).1.bytes.size = l.bytes.size + width is) ∨
      ∃ l' e, l.takeAll is = (l', some e) ∧ ∀ place, secondPass place is = .error e := by
  induction is with
  | nil =>
    intro l _
    exact .inl ⟨by simp, rfl, rfl⟩
  | cons i rest ih =>
    intro l hc
    -- errors are compared instruction by instruction
    rcases i.fits_or_refused with hi | ⟨e, he, hstop⟩
    · obtain ⟨l1, htake, hsize, hkeeps⟩ := take_of_fits hi
        (fun name hm => hc name (by simp [marks, hm]))
      have hc1 : ∀ name ∈ marks rest, l1.labels.places.contains name = true := by
        intro name hmem
        refine hkeeps name (hc name ?_)
        cases hm : i.mark? <;> simp_all [marks]
      simp only [takeAll, htake]
      rcases ih hc1 with ⟨hfit, hnone, hrest⟩ | ⟨l2, e, hall, he⟩
      · left
        exact ⟨List.forall_mem_cons.2 ⟨hi, hfit⟩, hnone,
          by rw [hrest, hsize, width_cons, add_assoc]⟩
      · right
        refine ⟨l2, e, hall, fun place => ?_⟩
        simp [secondPass, hi.placedBytes place, he place]
    · obtain ⟨l', htake⟩ := hstop l
      right
      refine ⟨l', e, by simp [takeAll, htake], fun place => ?_⟩
      simp [secondPass, he place]

lemma takeAll_of_fits (is : List Instr) {l : Linker} (hfit : ∀ i ∈ is, i.Fits)
    (hc : ∀ name ∈ marks is, l.labels.places.contains name = true) :
    (l.takeAll is).2 = none ∧ (l.takeAll is).1.bytes.size = l.bytes.size + width is := by
  rcases takeAll_secondPass is hc with h | ⟨_, e, _, he⟩
  · exact h.2
  · have hok := secondPass_of_fits hfit fun _ => 0
    rw [he] at hok
    cases hok

/-- A linker that starts behind `head` with fresh labels, each placed once, leaves the bytes of the
second pass and the places of the first, or the error of the second pass. -/
lemma takeAll_two_passes (head : List UInt8) (labels : Labels) (is : List Instr)
    (hfresh : ∀ name, labels.place name = unplaced)
    (hc : ∀ name ∈ marks is, labels.places.contains name = true) (hnodup : (marks is).Nodup) :
    (∃ l code, takeAll ⟨head.toArray, head.length, labels, .empty⟩ is = (l, none) ∧
        secondPass (placeIn is) is = .ok code ∧ l.bytes = (head ++ code).toArray ∧
        ∀ name ∈ marks is, l.labels.place name = placeIn is name) ∨
      ∃ l e, takeAll ⟨head.toArray, head.length, labels, .empty⟩ is = (l, some e) ∧
        secondPass (placeIn is) is = .error e := by
  let start : Linker := ⟨head.toArray, head.length, labels, .empty⟩
  rcases takeAll_secondPass (l := start) is hc with ⟨hfit, _⟩ | ⟨l, e, hall, he⟩
  · left
    obtain ⟨l, hall, hbytes, hplaces⟩ := takeAll_encodes head labels is hfresh hfit hc hnodup
    refine ⟨l, _, hall, secondPass_of_fits hfit _, Array.ext' hbytes, ?_⟩
    intro name hname
    obtain ⟨place, hp⟩ := Option.isSome_iff_exists.1 ((labelPlace_isSome name is).2 hname)
    rw [hplaces name place hp, placeIn_of_some hp]
  · right
    exact ⟨l, e, hall, he (placeIn is)⟩

end Linker

lemma link_of_constants {a constants} (labels : Labels)
    (h : constantBytes a.constants = .ok constants) {l : Linker} {error?}
    (hall : takeAll ⟨(a.head constants).toArray, (a.head constants).length, labels, .empty⟩
      (a.startUp ++ a.code) = (l, error?)) :
    link a labels = ⟨error?.elim (.ok (complete l.bytes)) .error, l.labels, l.awaited⟩ := by
  unfold Assembly.head at hall
  simp only [link, h]
  rw [hall]
  cases error? <;> rfl

def namedLabels (is : List Instr) : List String := is.filterMap fun i => i.mark?.or i.target?

lemma mem_namedLabels_of_mem_marks (h : name ∈ marks is) : name ∈ namedLabels is := by
  obtain ⟨i, hi, hm⟩ := List.mem_filterMap.1 h
  exact List.mem_filterMap.2 ⟨i, hi, by simp [hm]⟩

lemma placeIn_eq_length {before behind} (hfit : ∀ j ∈ before, j.Fits)
    (hnodup : (marks is).Nodup) (his : is = before ++ i :: behind) (hm : i.mark? = some name)
    (place : String → Int) : placeIn is name = (encodedCode place before).length := by
  subst his
  have hnew : name ∉ marks before := by
    intro hmem
    rw [marks_append, List.nodup_append] at hnodup
    exact hnodup.2.2 name hmem name (by simp [marks, hm]) rfl
  have hnone : labelPlace name before = none := (labelPlace_eq_none_iff name before).2 hnew
  rw [length_encodedCode hfit]
  apply placeIn_of_some
  simp [labelPlace_append, hnone, labelPlace, hm]

/-- If every label that is placed or gone to was created and is placed exactly once, linking with
fresh labels leaves the file of two passes, or its error. Every label is then placed behind the
bytes of the instructions before it, in the table as in the file. -/
theorem link_eq_two_passes (a : Assembly) (labels : Labels)
    (hfresh : ∀ name, labels.place name = unplaced)
    (hlabels : ∀ name ∈ namedLabels (a.startUp ++ a.code),
      labels.places.contains name = true ∧ (marks (a.startUp ++ a.code)).count name = 1) :
    (link a labels).file = twoPassFile a ∧ ∀ file, twoPassFile a = .ok file →
        ∀ before i behind name, a.startUp ++ a.code = before ++ i :: behind → i.mark? = some name →
          ∃ bytes, secondPass (placeIn (a.startUp ++ a.code)) before = .ok bytes ∧
            placeIn (a.startUp ++ a.code) name = bytes.length ∧
            (link a labels).labels.place name = bytes.length := by
  have hmarks : ∀ name ∈ marks (a.startUp ++ a.code),
      labels.places.contains name = true ∧ (marks (a.startUp ++ a.code)).count name = 1 :=
    fun name hname => hlabels name (mem_namedLabels_of_mem_marks hname)
  have hnodup : (marks (a.startUp ++ a.code)).Nodup := by
    rw [List.nodup_iff_count]
    intro name
    by_cases hname : name ∈ marks (a.startUp ++ a.code)
    · exact le_of_eq (hmarks name hname).2
    · rw [List.count_eq_zero_of_not_mem hname]
      exact zero_le
  cases hconsts : constantBytes a.constants with
  | error e => simp [link, twoPassFile, hconsts]
  | ok constants =>
    rcases takeAll_two_passes (a.head constants) labels (a.startUp ++ a.code) hfresh
      (fun name hname => (hmarks name hname).1) hnodup with
      ⟨l, code, hall, hcode, hbytes, hplaces⟩ | ⟨l, e, hall, he⟩
    · have hfit := fits_of_secondPass hcode
      rw [link_of_constants labels hconsts hall]
      refine ⟨?_, ?_⟩
      · simp [twoPassFile, hconsts, hcode, hbytes]
      · intro file _ before i behind name his hm
        have hbefore : ∀ j ∈ before, j.Fits := fun j hj => hfit j (by simp [his, hj])
        have hplace := placeIn_eq_length hbefore hnodup his hm (placeIn (a.startUp ++ a.code))
        have hname : name ∈ marks (a.startUp ++ a.code) := by simp [his, marks, hm]
        exact ⟨_, secondPass_of_fits hbefore _, hplace, (hplaces name hname).trans hplace⟩
    · rw [link_of_constants labels hconsts hall]
      simp [twoPassFile, hconsts, he]

/-- A call forward, a jump back and a jump out of a loop. -/
def countdown : Assembly where
  globalSize := 1
  constants := []
  startUp := [⟨.call, [.label "main" none, .u8 (.ofInt 0)]⟩, .plain .halt]
  code := [⟨.label, [.label "main" none]⟩, ⟨.enter, [.u8 (.ofInt 0)]⟩,
    ⟨.label, [.label "0_while_begin" none]⟩, ⟨.loadg, [.u16 (.ofInt 0)]⟩,
    ⟨.jz, [.label "1_while_end" none]⟩, ⟨.jmp, [.label "0_while_begin" none]⟩,
    ⟨.label, [.label "1_while_end" none]⟩, .plain .ret0]

def countdownLabels : Labels :=
  ((empty.create "main").create "0_while_begin").create "1_while_end"

/-- The call and one jump go forward, the other jump goes back; the loop ends behind 16 bytes. -/
theorem link_eq_two_passes_countdown :
    (link countdown countdownLabels).file = twoPassFile countdown ∧
      (∃ file, twoPassFile countdown = .ok file) ∧
      (link countdown countdownLabels).labels.place "1_while_end" = 16 := by
  have hfresh : ∀ name, countdownLabels.place name = unplaced :=
    place_create (place_create (place_create (fun _ => rfl) _) _) _
  obtain ⟨hfile, hplaces⟩ := link_eq_two_passes countdown countdownLabels hfresh (by decide)
  have hok : ∃ file, twoPassFile countdown = .ok file := ⟨_, rfl⟩
  refine ⟨hfile, hok, ?_⟩
  obtain ⟨file, hok⟩ := hok
  obtain ⟨_, _, hplace, htable⟩ := hplaces file hok (countdown.startUp ++ countdown.code.take 6)
    ⟨.label, [.label "1_while_end" none]⟩ [.plain .ret0] "1_while_end" rfl rfl
  rw [htable, ← hplace]
  decide

end ArmStudio.Code
