import ArmStudio.Machine.State
import ArmStudio.Proofs.Placement
import ArmStudio.Proofs.TwoPass

/-!
# From an assembly to a machine that is ready

The linker writes a byte file and the machine reads it. Both know the layout: sizes, constants,
code and digest.

Nothing is asked of the labels but that they were created: a label that is placed twice, or that
had a place before, changes which addresses the code has, but not how it is read back.
-/

namespace ArmStudio.Code

open Script Linker List

/-- The code that linking makes of instructions, without anything in front. -/
def linkedCode (labels : Labels) (is : List Instr) : List UInt8 :=
  (takeAll ⟨#[], 0, labels, .empty⟩ is).1.bytes.toList

/-! ## Linking behind a head -/

lemma overwrite_behind (value : Int) (head bytes : List UInt8) (pos : Nat) :
    overwrite value (head ++ bytes) (head.length + pos) = head ++ overwrite value bytes pos := by
  simp [overwrite, add_assoc]

lemma foldl_overwrite_behind (value : Int) (head : List UInt8) (sites : List Nat) :
    ∀ bytes : List UInt8, (sites.map (head.length + ·)).foldl (overwrite value) (head ++ bytes) =
        head ++ sites.foldl (overwrite value) bytes := by
  induction sites with
  | nil =>
    intro bytes
    rfl
  | cons pos rest ih =>
    intro bytes
    rw [map_cons, foldl_cons, overwrite_behind, ih, foldl_cons]

namespace Linker

/-- `l'` is what `l` is, with the bytes `head` in front. -/
structure Behind (head : List UInt8) (l l' : Linker) : Prop where
  codeStart : l.codeStart = 0
  codeStart' : l'.codeStart = head.length
  bytes : l'.bytes.toList = head ++ l.bytes.toList
  labels : l'.labels = l.labels
  awaited : ∀ name, (l'.awaited.find? name).getD [] =
    ((l.awaited.find? name).getD []).map (head.length + ·)

namespace Behind

variable {head : List UInt8} {l l' : Linker}

section

variable (h : Behind head l l')

include h

lemma size : l'.bytes.size = head.length + l.bytes.size := by
  have hlength := congrArg length h.bytes
  simpa using hlength

lemma append (bytes : List UInt8) : Behind head (l.append bytes) (l'.append bytes) := by
  refine ⟨h.codeStart, h.codeStart', ?_, h.labels, h.awaited⟩
  rw [toList_append, toList_append, h.bytes, append_assoc]

lemma placeLabel (name : String) :
    (∃ e, l.placeLabel name = .error e ∧ l'.placeLabel name = .error e) ∨
      ∃ l1 l1', l.placeLabel name = .ok l1 ∧ l'.placeLabel name = .ok l1' ∧ Behind head l1 l1' := by
  -- places count from the start of the code, so the head does not enter
  have hhere : (l'.bytes.size : Int) - l'.codeStart = l.bytes.size - l.codeStart := by
    rw [h.size, h.codeStart, h.codeStart']
    omega
  simp only [Linker.placeLabel, hhere, h.labels]
  cases l.labels.setPlace? name (l.bytes.size - l.codeStart) with
  | none =>
    left
    exact ⟨_, rfl, rfl⟩
  | some labels =>
    right
    refine ⟨_, _, rfl, rfl, h.codeStart, h.codeStart', ?_, rfl, h.awaited⟩
    simp only [toList_foldl_patch, h.awaited, h.bytes, foldl_overwrite_behind]

lemma addressOf (name : String) : (l'.addressOf name).1 = (l.addressOf name).1 ∧
      Behind head (l.addressOf name).2 (l'.addressOf name).2 := by
  unfold Linker.addressOf
  rw [h.labels]
  by_cases hp : 0 ≤ l.labels.place name
  · rw [if_pos hp, if_pos hp]
    exact ⟨rfl, h⟩
  · rw [if_neg hp, if_neg hp]
    refine ⟨rfl, h.codeStart, h.codeStart', h.bytes, rfl, ?_⟩
    intro key
    by_cases hk : name = key
    · subst hk
      simp [h.awaited, h.size, add_assoc]
    · simp only [Table.find?_insert_of_ne _ _ hk]
      exact h.awaited key

lemma take (i : Instr) : (l'.take i).2 = (l.take i).2 ∧ Behind head (l.take i).1 (l'.take i).1 := by
  unfold Linker.take
  by_cases hl : i.op = .label
  · rw [if_pos hl, if_pos hl]
    rcases i.args with _ | ⟨_ | _ | _ | _ | ⟨name, address⟩, rest⟩
    case cons.label =>
      rcases h.placeLabel name with ⟨e, he, he'⟩ | ⟨l1, l1', hl1, hl1', hb⟩
      · simp only [he, he']
        exact ⟨trivial, h⟩
      · simp only [hl1, hl1']
        exact ⟨trivial, hb⟩
    all_goals exact ⟨rfl, h⟩
  · rw [if_neg hl, if_neg hl]
    by_cases hj : i.op.isJump = true
    · rw [if_pos hj, if_pos hj]
      rcases i.args with _ | ⟨_ | _ | _ | _ | ⟨name, address⟩, rest⟩
      case cons.label =>
        obtain ⟨haddr, hb⟩ := h.addressOf name
        simp only [haddr]
        cases Instr.bytes ⟨i.op, .label name (some (l.addressOf name).1) :: rest⟩ with
        | ok bytes => exact ⟨rfl, hb.append bytes⟩
        | error e => exact ⟨rfl, hb⟩
      all_goals exact ⟨rfl, h⟩
    · rw [if_neg hj, if_neg hj]
      cases i.bytes with
      | ok bytes => exact ⟨rfl, h.append bytes⟩
      | error e => exact ⟨rfl, h⟩

end

lemma takeAll (is : List Instr) : ∀ {l l' : Linker}, Behind head l l' →
    (l'.takeAll is).2 = (l.takeAll is).2 ∧ Behind head (l.takeAll is).1 (l'.takeAll is).1 := by
  induction is with
  | nil =>
    intro l l' h
    exact ⟨rfl, h⟩
  | cons i rest ih =>
    intro l l' h
    have hstep := h.take i
    rcases ht : l.take i with ⟨l1, error?⟩
    rcases ht' : l'.take i with ⟨l1', error?'⟩
    simp only [ht, ht'] at hstep
    obtain ⟨rfl, h1⟩ := hstep
    -- both go on, or both stop at this instruction
    simp only [Linker.takeAll, ht, ht']
    cases error?' with
    | none => exact ih h1
    | some e => exact ⟨rfl, h1⟩

end Behind

end Linker

lemma linkedCode_eq {labels : Labels} {is} (hfit : ∀ i ∈ is, i.Fits)
    (hc : ∀ name ∈ marks is, labels.places.contains name = true)
    (hfresh : ∀ name, labels.place name = Labels.unplaced) (hnodup : (marks is).Nodup) :
    linkedCode labels is = encodedCode (placeIn is) is := by
  obtain ⟨l, hall, hbytes, _⟩ := takeAll_encodes [] labels is hfresh hfit hc hnodup
  have hall' : takeAll ⟨#[], 0, labels, .empty⟩ is = (l, none) := hall
  simpa [linkedCode, hall'] using hbytes

lemma link_file_linkedCode {a} {labels : Labels} {constants}
    (hconsts : constantBytes a.constants = .ok constants)
    (hfit : ∀ i ∈ a.startUp ++ a.code, i.Fits)
    (hc : ∀ name ∈ marks (a.startUp ++ a.code), labels.places.contains name = true) :
    (link a labels).file =
      .ok (complete (a.head constants ++ linkedCode labels (a.startUp ++ a.code)).toArray) := by
  have hstart : Behind (a.head constants) ⟨#[], 0, labels, .empty⟩
      ⟨(a.head constants).toArray, (a.head constants).length, labels, .empty⟩ :=
    ⟨rfl, rfl, by simp, rfl, fun _ => rfl⟩
  obtain ⟨herror, hbehind⟩ := hstart.takeAll (a.startUp ++ a.code)
  rcases hall : takeAll ⟨(a.head constants).toArray, (a.head constants).length, labels,
    .empty⟩ (a.startUp ++ a.code) with ⟨l, error?⟩
  rw [hall] at herror hbehind
  have hnone : error? = none := herror.trans (takeAll_of_fits _ hfit hc).1
  have hbytes : l.bytes = (a.head constants ++ linkedCode labels (a.startUp ++ a.code)).toArray :=
    Array.ext' hbehind.bytes
  rw [link_of_constants labels hconsts hall, hnone, hbytes]
  rfl

/-! ## Constants -/

/-- Integer constants stand in order in the bytes, four for each. -/
def ConstantsIn (values : List Value) (bytes : List UInt8) : Prop :=
  ∀ k v n, values[k]? = some v → v.toInt? = some n → ∀ before behind : List UInt8,
    Machine.Image.StandsAt (before ++ bytes ++ behind) (before.length + 4 * k) (intBytes 4 n)

lemma constantBytes_of_ints {values} (h : ∀ v ∈ values, ∃ n, v.toInt? = some n) :
    ∃ bytes, constantBytes values = .ok bytes ∧ bytes.length = 4 * values.length ∧
      ConstantsIn values bytes := by
  induction values with
  | nil => exact ⟨[], rfl, rfl, by simp [ConstantsIn]⟩
  | cons first rest ih =>
    obtain ⟨m, hm⟩ := h first (by simp)
    obtain ⟨bytes, hok, hlength, hstands⟩ := ih (fun v hv => h v (by simp [hv]))
    refine ⟨intBytes 4 m ++ bytes, ?_, ?_, ?_⟩
    · simp [constantBytes, hm, hok]
    · simp [hlength]
      omega
    · intro k v n hk hn before behind
      cases k with
      | zero =>
        simp only [getElem?_cons_zero, Option.some.injEq] at hk
        subst hk
        rw [hm, Option.some.injEq] at hn
        subst hn
        simpa using Machine.Image.standsAt_append before (intBytes 4 m) (bytes ++ behind)
      | succ k =>
        -- the first constant belongs to what stands in front of the others
        have := hstands k v n (by simpa using hk) hn (before ++ intBytes 4 m) behind
        rw [length_append, length_intBytes, add_assoc,
          show 4 + 4 * k = 4 * (k + 1) by omega] at this
        simpa using this

end ArmStudio.Code

namespace ArmStudio.Machine

open Code

namespace Image

lemma numberOf_constant {values bytes code digest}
    {globalCount : Nat} (hstands : ConstantsIn values bytes) {k : Nat} {v} {n : Int}
    (hk : values[k]? = some v) (hn : v.toInt? = some n) :
    numberOf (fileBody values.length bytes globalCount code ++ digest).toArray 4 (6 + 4 * k) =
      (n % 4294967296).toNat := by
  have h := hstands k v n hk hn
    (intBytes 4 (8 + 4 * values.length + code.length + 16 : Nat) ++ intBytes 2 values.length)
    (intBytes 2 globalCount ++ code ++ digest)
  rw [List.length_append, length_intBytes, length_intBytes] at h
  have hnum := numberOf_intBytes h
  rw [lowBytes_four] at hnum
  simpa [fileBody] using hnum

/-- A file that was linked within the limits of the machine is loaded. The machine then holds the
number of constants, each constant modulo the width of a word, the number of globals and the code,
and stands at its first instruction with an empty stack; the file starts with its own size. With
fresh labels, each placed once, the code is that of two passes. -/
theorem load_link (a : Assembly) (labels : Labels)
    (hints : ∀ v ∈ a.constants, ∃ n, v.toInt? = some n) (hcount : a.constants.length ≤ 1024)
    (hnat : 0 ≤ a.globalSize) (hglobals : a.globalSize ≤ 4096)
    (hfit : ∀ i ∈ a.startUp ++ a.code, i.Fits)
    (hcreated : ∀ name ∈ marks (a.startUp ++ a.code), labels.places.contains name = true)
    (hlength : (linkedCode labels (a.startUp ++ a.code)).length < 65536) :
    ∃ file image, (link a labels).file = .ok file ∧ load file = .ok image ∧
      image.constantCount = a.constants.length ∧
      (∀ k v n, a.constants[k]? = some v → v.toInt? = some n →
        ((image.constant k).toNat : Int) = n % 4294967296) ∧
      (image.globalCount : Int) = a.globalSize ∧
      image.codeSize.toNat = (linkedCode labels (a.startUp ++ a.code)).length ∧
      image.Holds 0 (linkedCode labels (a.startUp ++ a.code)) ∧
      ((∀ name, labels.place name = Labels.unplaced) → (marks (a.startUp ++ a.code)).Nodup →
        secondPass (placeIn (a.startUp ++ a.code)) (a.startUp ++ a.code) =
          .ok (linkedCode labels (a.startUp ++ a.code))) ∧
      (State.start image).pc = 0 ∧ (State.start image).top = 0 ∧
      (State.start image).status = .running ∧
      numberOf file.toArray 4 0 = file.length := by
  obtain ⟨globalCount, hsize⟩ := Int.eq_ofNat_of_zero_le hnat
  obtain ⟨constants, hconsts, hbytes, hstands⟩ := constantBytes_of_ints hints
  have hfew : globalCount ≤ globalLimit := by
    simp only [globalLimit]
    omega
  have hhead : a.head constants = header a.constants.length constants globalCount := by
    simp [Assembly.head, header, hsize]
  have hfile := link_file_linkedCode hconsts hfit hcreated
  rw [hhead] at hfile
  obtain ⟨hload, hcodeSize, hholds⟩ := load_complete hbytes hcount hfew hlength
  refine ⟨_, _, hfile, hload, rfl, ?_, hsize.symm, hcodeSize, hholds, ?_, rfl, rfl, rfl, ?_⟩
  · intro k v n hk hn
    simp only [constant, imageOf, numberOf_constant hstands hk hn]
    simp
    omega
  · intro hfresh hnodup
    rw [linkedCode_eq hfit hcreated hfresh hnodup]
    exact secondPass_of_fits hfit _
  · rw [complete_header hbytes, numberOf_size hbytes (by omega), List.length_append,
      length_fileBody hbytes, length_md5]

/-- Two constants that do not fit into a word, and code that jumps both ways. -/
def overflowing : Assembly := { countdown with constants := [.int 5000000000, .int (-2)] }

/-- The constants are loaded modulo the width of a word. -/
theorem load_link_overflowing :
    ∃ file image, (link overflowing countdownLabels).file = .ok file ∧ load file = .ok image ∧
      image.constantCount = 2 ∧ ((image.constant 0).toNat : Int) = 705032704 ∧
      ((image.constant 1).toNat : Int) = 4294967294 ∧ image.codeSize.toNat = 17 ∧
      numberOf file.toArray 4 0 = file.length := by
  obtain ⟨file, image, hfile, hload, hcount, hconsts, _, hcode, _, _, _, _, _, hsize⟩ :=
    load_link overflowing countdownLabels
      (fun v hv => by
        rcases List.mem_cons.1 hv with rfl | hv
        · exact ⟨_, rfl⟩
        · rw [List.mem_singleton.1 hv]
          exact ⟨_, rfl⟩)
      (by decide) (by decide) (by decide)
      (fits_of_secondPass (show secondPass (fun _ => 0) _ = .ok _ from rfl)) (by decide) (by decide)
  exact ⟨file, image, hfile, hload, hcount, hconsts 0 _ _ rfl rfl, hconsts 1 _ _ rfl rfl,
    by rw [hcode]; decide, hsize⟩

end Image

end ArmStudio.Machine
