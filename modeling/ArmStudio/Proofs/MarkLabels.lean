import ArmStudio.Vision.Errand
import ArmStudio.Proofs.Numerals
import ArmStudio.Proofs.QuietSteps
import Mathlib.Data.List.Forall2

/-!
# Two ways of reading labels

The marks in a part of a picture are read by their lines as they stand, all others with the blanks
around the lines left out.
-/

namespace ArmStudio.Vision

open Number Script Text Label

/-- Digits, also those without a place value. -/
def IsDigits (line : List Char) : Prop := line ≠ [] ∧ ∀ c ∈ line, isDigit c = true

/-- The first line is a number in digits, or zero, and no blanks stand around the next two. Or it is
no number at all, and the next two are missing or say that nothing is known. -/
def Label.Plain (text : List Char) : Prop :=
  match readInt 10 (strip ((linesOf text).headD [])) with
  | .ok id => (IsDigits ((linesOf text).headD []) ∨ id = 0) ∧
    ∀ l ∈ ((linesOf text).drop 1).take 2, strip l = l
  | .error _ => ¬ IsDigits ((linesOf text).headD []) ∧
    ∀ l ∈ ((linesOf text).drop 1).take 2, l = "unknown".toList

lemma strip_digits {line} (h : IsDigits line) : strip line = line :=
  Script.trimBy_eq fun c hc => Script.isBlank_eq_false (by simp [isHexDigit, h.2 c hc])

lemma line_eq_iff (g : List Char → List Char) (lines : List (List Char)) :
    line g lines 1 = line (fun l => l) lines 1 ∧
        line g lines 2 = line (fun l => l) lines 2 ↔
      ∀ l ∈ (lines.drop 1).take 2, g l = l := by
  rcases lines with _ | ⟨_, _ | ⟨a, _ | ⟨b, rest⟩⟩⟩ <;> simp [line, String.ofList_inj]

lemma parseLines_eq_parse_iff (text : List Char) :
    parseLines text = .ok (parse text) ↔ Plain text := by
  have hdigits (line : List Char) :
      (line.isEmpty || !line.all isDigit) = true ↔ ¬ IsDigits line := by
    simp only [IsDigits, Bool.or_eq_true, List.isEmpty_iff, Bool.not_eq_true', List.all_eq_false]
    grind
  have hunknown (lines : List (List Char)) (n : Nat) :
      line (fun _ => "unknown".toList) lines n = "unknown" := by
    unfold line
    split <;> simp
  unfold parseLines parse Plain
  dsimp only
  generalize linesOf text = lines
  generalize lines.headD [] = first
  by_cases hd : IsDigits first
  · rw [if_neg (mt (hdigits _).1 (not_not.2 hd)), strip_digits hd]
    cases readInt 10 first with
    | error e => simp [hd]
    | ok id =>
      simp only [hd, true_or, true_and, ← line_eq_iff]
      simp [eq_comm]
  · rw [if_pos ((hdigits _).2 hd)]
    cases readInt 10 (strip first) with
    | error e =>
      simp only [hd, not_false_eq_true, true_and]
      rw [forall₂_congr fun l _ => eq_comm, ← line_eq_iff fun _ => "unknown".toList,
        hunknown, hunknown]
      simp [unknown, eq_comm]
    | ok id =>
      simp only [hd, false_or, ← line_eq_iff]
      simp [eq_comm]

/-- A code that was found has a place and this text. -/
def Bears (code : Option Barcode) (text : List Char) : Prop :=
  ∃ b place, code = some b ∧ b.regionParts = .ok place ∧ b.text = .ok text

lemma partFindings_labels_iff {codes texts}
    (h : List.Forall₂ Bears codes texts) (left top : Int) (source : String) :
    (∃ found, partFindings left top source codes = .ok found ∧
        found.map Finding.label = texts.map parse) ↔ ∀ text ∈ texts, Plain text := by
  induction h with
  | nil => simp [partFindings]
  | @cons code text codes texts hcode _ ih =>
    obtain ⟨b, place, rfl, hplace, htext⟩ := hcode
    rw [List.forall_mem_cons, ← ih, ← parseLines_eq_parse_iff, partFindings, hplace, htext]
    simp only [ok_bind]
    cases parseLines text with
    | error e => simp
    | ok label =>
      cases partFindings left top source codes with
      | error e => simp
      | ok found => simp

section

variable {codes : List (Option Barcode)} {s : Station}
  {rest : List (Except String (List (Option Barcode)))} (hcodes : s.cues.codes = .ok codes :: rest)
include hcodes

lemma read_codes_apply (left top : Int) (source : String) : ((do
      let codes ← Lab.readCodes
      return some (← Lab.lift (partFindings left top source codes)) :
        Lab (Option (List Finding))) s).1 =
      (partFindings left top source codes).map some := by
  have hread : Lab.readCodes s = (.ok codes, { s with cues := { s.cues with codes := rest } }) := by
    rw [Lab.readCodes, get_bind_apply, hcodes]
    rfl
  rw [bind_of_ok hread]
  cases hfound : partFindings left top source codes with
  | error e => exact congrArg Prod.fst (bind_of_error (e := e) rfl)
  | ok found => exact congrArg Prod.fst (bind_of_ok (a := found) rfl)

lemma searchPart_apply {p corners} {factor : Value} {origin}
    (horigin : partOrigin p corners factor = .ok (some origin)) :
    (searchPart p corners factor s).1 =
      (partFindings origin.1 origin.2 "zoomed" codes).map some := by
  have hlift : Lab.lift (.ok (some origin)) s = (.ok (some origin), s) := rfl
  rw [searchPart, horigin, bind_of_ok hlift]
  exact read_codes_apply hcodes origin.1 origin.2 "zoomed"

lemma zoomSearch_apply {p corners} {factor : Value} {origin}
    (horigin : partOrigin p corners factor = .ok (some origin)) :
    (zoomSearch (some p) (some corners) factor s).1 =
      .ok (partFindings origin.1 origin.2 "zoomed" codes).toOption := by
  rw [zoomSearch, bind_of_ok (Lab.attempt_apply _ s), searchPart_apply hcodes horigin]
  cases partFindings origin.1 origin.2 "zoomed" codes with
  | error e => exact congrArg Prod.fst (bind_of_ok (a := ()) rfl)
  | ok found => rfl

lemma readZoomed_apply (hzoomed : s.memory.zoomed.isSome) :
    (readZoomed s).1 = (partFindings 0 0 "zoomed_frame_analysis" codes).map some := by
  obtain ⟨picture, hpicture⟩ := Option.isSome_iff_exists.1 hzoomed
  have hmem : Lab.memory s = (.ok s.memory, s) := rfl
  rw [readZoomed, bind_of_ok hmem, hpicture]
  exact read_codes_apply hcodes 0 0 _

end

/-- Where marks with these texts are found in the searched part of a picture, or in the part that
was last shown, they get the labels that marks elsewhere get exactly if the texts are plain. -/
theorem zoomed_labels_iff {codes : List (Option Barcode)} {texts : List (List Char)}
    (h : List.Forall₂ Bears codes texts) {s : Station}
    {rest : List (Except String (List (Option Barcode)))}
    (hcodes : s.cues.codes = .ok codes :: rest) :
    (∀ p corners factor origin, partOrigin p corners factor = .ok (some origin) →
      ((∃ found, (zoomSearch (some p) (some corners) factor s).1 = .ok (some found) ∧
        found.map Finding.label = texts.map parse) ↔ ∀ text ∈ texts, Plain text)) ∧
    (s.memory.zoomed.isSome = true → ((∃ found, (readZoomed s).1 = .ok (some found) ∧
        found.map Finding.label = texts.map parse) ↔ ∀ text ∈ texts, Plain text)) := by
  refine ⟨fun p corners factor origin horigin => ?_, fun hzoomed => ?_⟩
  · rw [zoomSearch_apply hcodes horigin, ← partFindings_labels_iff h origin.1 origin.2 "zoomed"]
    cases partFindings origin.1 origin.2 "zoomed" codes <;> simp
  · rw [readZoomed_apply hcodes hzoomed, ← partFindings_labels_iff h 0 0 "zoomed_frame_analysis"]
    cases partFindings 0 0 "zoomed_frame_analysis" codes <;> simp [Except.map]

/-- A bench where the part that was last shown has a mark with a blank and a digit. -/
def blankStation : Station :=
  { Station.start ⟨.motion, ⟨false, false⟩, false, false, false, false, false⟩ with
    cues := { Cues.none with
      codes := [.ok [some ⟨[0x20, 0x35], "QRCODE", some (some [1, 2, 8, 8]), none⟩]] }
    memory := { Memory.fresh with zoomed := some (.uniform 20 20 (some 3) 100) } }

/-- The mark is 5 for all other searches, and not for this one. -/
theorem zoomed_labels_blank : ¬ ∃ found, (readZoomed blankStation).1 = .ok (some found) ∧
    found.map Finding.label = [parse [' ', '5']] := by
  have hcarries : List.Forall₂ Bears
      [some ⟨[0x20, 0x35], "QRCODE", some (some [1, 2, 8, 8]), none⟩] [[' ', '5']] :=
    .cons ⟨_, _, rfl, rfl, rfl⟩ .nil
  refine mt ((zoomed_labels_iff hcarries rfl).2 rfl).1 fun hplain => ?_
  have hplain := hplain _ List.mem_cons_self
  have hread : readInt 10 (strip ((linesOf [' ', '5']).headD [])) = .ok 5 := by decide +kernel
  rw [Plain, hread] at hplain
  have hblank : isDigit ' ' = false := by decide
  simp [IsDigits, linesOf, hblank] at hplain

end ArmStudio.Vision
