import ArmStudio.Proofs.Scanning
import Mathlib.Data.List.TakeWhile

/-!
# Numerals

Which runs of digits are read as integers, and the numbers at which a scanner fails without an error
of its own.
-/

namespace ArmStudio.Script

open Number Text List Except

section

variable {base : Nat} {run : List Char} {c : Char}

lemma digitRun?_eq (hne : run ≠ []) (h : '_' ∉ run) :
    digitRun? base run = if run.all fun c => (digitValue? base c).isSome then
      some (run.map fun c => (digitValue? base c).getD 0) else none := by
  fun_induction digitRun? base run with
  | case1 => exact absurd rfl hne
  | case2 c => cases hc : digitValue? base c <;> simp [hc]
  | case3 c rest => simp at h
  | case4 c d rest _ ih =>
    rw [ih (cons_ne_nil d rest) (by simp_all)]
    cases hc : digitValue? base c <;> simp [hc]
    split <;> simp_all

lemma leadingDigits_eq (h : '_' ∉ run) (hall : run.all fun c => (digitValue? base c).isSome) :
    leadingDigits base run = run.length := by
  fun_induction leadingDigits base run <;> simp_all

lemma isBlank_eq_false (h : isHexDigit c) : isBlank c = false := by
  let codes := List.range' 0x09 24 ++ [0x85, 0xa0, 0x1680] ++ List.range' 0x2000 11 ++
    [0x2028, 0x2029, 0x202f, 0x205f, 0x3000]
  have hcodes : ∀ n ∈ codes, isHexDigit (Char.ofNat n) = false := by decide
  by_contra hne
  have hmem : c.toNat ∈ codes := by
    simp only [isBlank, Bool.not_eq_false, Bool.and_eq_true, Bool.or_eq_true,
      decide_eq_true_eq, beq_iff_eq] at hne
    simp only [codes, mem_append, mem_range'_1, mem_cons, not_mem_nil]
    omega
  have hfalse := hcodes _ hmem
  rw [Char.ofNat_toNat, h] at hfalse
  cases hfalse

lemma trimBy_eq {p} (h : ∀ c ∈ run, p c = false) : trimBy p run = run := by
  have hdrop : ∀ r : List Char, (∀ c ∈ r, p c = false) → r.dropWhile p = r := by
    intro r hr
    cases r <;> simp_all
  rw [trimBy, hdrop run h, hdrop _ (by simpa using h), reverse_reverse]

/-- The value of a run of digits. It is not read if one of them has no value, nor if there are too
many decimal digits. -/
theorem readInt_digits (hne : run ≠ []) (h : ∀ c ∈ run, isHexDigit c = true) :
    (readInt base run).toOption =
      if (run.all fun c => (digitValue? base c).isSome) ∧ (base = 10 → run.length ≤ digitLimit) then
        some (ofDigits base (run.map fun c => (digitValue? base c).getD 0) : Int)
      else none := by
  have hother : ∀ d, isHexDigit d = false → d ∉ run := by
    intro d hd hmem
    simp [h d hmem] at hd
  have htrim : trimBy isMargin run = run :=
    trimBy_eq fun c hc => by simp [isMargin, isBlank_eq_false (h c hc)]
  have hsign : splitSign run = (false, run) := by
    have hminus := hother '-' (by decide)
    have hplus := hother '+' (by decide)
    unfold splitSign
    split <;> simp_all
  have hmark : dropBaseMark base run = run := by
    have hlower := hother 'x' (by decide)
    have hupper := hother 'X' (by decide)
    unfold dropBaseMark
    split <;> simp_all
    grind
  have hplain := hother '_' (by decide)
  simp only [readInt, htrim, hsign, hmark, digitRun?_eq hne hplain]
  by_cases hall : run.all fun c => (digitValue? base c).isSome
  · rw [leadingDigits_eq hplain hall]
    by_cases hmany : base = 10 ∧ digitLimit < run.length
    · simp [hmany, Except.toOption]
    · have hfew : base = 10 → run.length ≤ digitLimit := by omega
      rw [if_neg hmany, if_pos hall, if_pos ⟨hall, hfew⟩]
      rfl
  · simp only [hall]
    split <;> rfl

lemma isHexDigit_of_octal (h : isOctalDigit c) : isHexDigit c := by
  have hdigit : c.isDigit = true := by
    simp only [isOctalDigit, Bool.and_eq_true, decide_eq_true_eq] at h
    simp only [Char.isDigit, Bool.and_eq_true, decide_eq_true_eq]
    exact ⟨h.1, Char.le_trans h.2 (by decide : '7' ≤ '9')⟩
  simp [isHexDigit, isDigit, isDecimal, decimalValue?, hdigit]

end

/-! ## Numbers that are not read -/

/-- The line that an error of the scanner's own names. -/
def ScanError.line? : ScanError → Option Nat
  | unexpected _ line | badHex line | badBinary line | badOctal line | badReal _ line => some line
  | endOfText | notRead _ => none

/-- A number as it is scanned: its base, its digits and the text behind them. -/
structure Numeral where
  base : Nat
  digits : List Char
  rest : List Char

/-- The number at the head of a text, and what follows. -/
def numeral (s : List Char) : Numeral :=
  match s with
  | '0' :: c :: rest =>
    if c == 'x' || c == 'X' then ⟨16, rest.takeWhile isHexDigit, rest.dropWhile isHexDigit⟩
    else if c == 'b' || c == 'B' then
      ⟨2, rest.takeWhile isBinaryDigit, rest.dropWhile isBinaryDigit⟩
    else if c == 'o' || c == 'O' then ⟨8, rest.takeWhile isOctalDigit, rest.dropWhile isOctalDigit⟩
    else ⟨10, (takeDecimal false s).1, (takeDecimal false s).2⟩
  | _ => ⟨10, (takeDecimal false s).1, (takeDecimal false s).2⟩

structure Numeral.IsInt (n : Numeral) : Prop where
  some : n.digits ≠ []
  digits : ∀ c ∈ n.digits, isHexDigit c = true

/-- What a number is read as: an error that names the line, a number with a point, nothing where the
text ends, or an integer. -/
inductive Numeral.Reads (n : Numeral) (line : Nat) : Except ScanError (Lexeme × List Char) → Prop
  | bad {e : ScanError} : e.line? = some line → n.digits = [] ∨ '.' ∈ n.digits →
      n.Reads line (.error e)
  | real (x : Double) : '.' ∈ n.digits → n.Reads line (.ok (.real x, n.rest))
  | unended : n.IsInt → n.base = 16 → n.rest = [] → n.Reads line (.error .endOfText)
  | int : n.IsInt → (n.base = 16 → n.rest ≠ []) → n.Reads line (intLexeme n.base n.digits n.rest)

/-- A number that is scanned but cannot be read, an error without a line. -/
def Unread {α : Type} (r : Except ScanError α) : Prop := ∃ e, r = .error e ∧ e.line? = none

/-- An integer of base 16 with which the text ends, with a digit that has no value, as a
superscript, or with too many decimal digits. -/
def Numeral.Unreadable (n : Numeral) : Prop :=
  n.digits ≠ [] ∧ '.' ∉ n.digits ∧ (n.base = 16 ∧ n.rest = [] ∨
    (∃ c ∈ n.digits, digitValue? n.base c = none) ∨ n.base = 10 ∧ digitLimit < n.digits.length)

namespace Numeral.Reads

variable {n : Numeral} {line : Nat} {s : List Char} {c : Char} {e : ScanError}

lemma scanHex : (Numeral.mk 16 (s.takeWhile isHexDigit) (s.dropWhile isHexDigit)).Reads line
    (scanHex line s) := by
  unfold Script.scanHex
  split
  · next hrun => exact .bad rfl (.inl hrun)
  · next hrest hrun => exact .unended ⟨hrun, fun c hc => mem_takeWhile_imp hc⟩ rfl hrest
  · next hrun hrest => exact .int ⟨hrun, fun c hc => mem_takeWhile_imp hc⟩ fun _ => hrest

lemma scanBased {q} {base : Nat} (hbase : base ≠ 16)
    (hq : ∀ c, q c → isHexDigit c) (he : e.line? = some line) :
    (Numeral.mk base (s.takeWhile q) (s.dropWhile q)).Reads line (scanBased base q e s) := by
  unfold Script.scanBased
  split
  · next hrun => exact .bad he (.inl hrun)
  · next hrun =>
      exact .int ⟨hrun, fun c hc => hq c (mem_takeWhile_imp hc)⟩ fun h => absurd h hbase

lemma takeDecimal_digits (s : List Char) : ∀ b, ∀ c ∈ (takeDecimal b s).1, c ≠ '.' → isDigit c := by
  induction s with
  | nil => simp [takeDecimal]
  | cons c s ih =>
    intro b
    unfold takeDecimal
    split
    · next hc =>
        rw [forall_mem_cons]
        exact ⟨fun hne => by simpa [hne] using hc, ih _⟩
    · simp

lemma scanDecimal (hc : isDigit c) :
    (Numeral.mk 10 (takeDecimal false (c :: s)).1 (takeDecimal false (c :: s)).2).Reads line
      (scanDecimal line (c :: s)) := by
  simp only [Script.scanDecimal, contains_iff_mem]
  split
  · next hpoint =>
      cases readDouble? (takeDecimal false (c :: s)).1 with
      | some x => exact .real x hpoint
      | none => exact .bad rfl (.inr hpoint)
  · next hpoint =>
      refine .int ⟨by simp [takeDecimal, hc], fun d hd => ?_⟩ (by simp)
      simp [isHexDigit, takeDecimal_digits (c :: s) false d hd fun heq => hpoint (heq ▸ hd)]

lemma scanNumber (hc : isDigit c) (line : Nat) (s : List Char) :
    (numeral (c :: s)).Reads line (scanNumber line (c :: s)) := by
  unfold Script.scanNumber
  split
  · next d rest heq =>
      cases heq
      simp only [numeral]
      split_ifs
      · exact .scanHex
      · refine .scanBased (by simp) (fun d hd => ?_) rfl
        simp only [isBinaryDigit, Bool.or_eq_true, beq_iff_eq] at hd
        rcases hd with rfl | rfl <;> decide
      · exact .scanBased (by simp) (fun _ => isHexDigit_of_octal) rfl
      · exact .scanDecimal hc
  · next hmark =>
      unfold numeral
      split
      · next heq => exact (hmark _ _ heq).elim
      · exact .scanDecimal hc

lemma lexeme {l : Lexeme} (h : n.Reads line (.ok (l, s))) :
    (∃ x, l = .real x) ∨ ∃ i : Nat, l = .int i := by
  generalize hr : ok (l, s) = r at h
  cases h with
  | real x _ =>
    cases hr
    exact .inl ⟨x, rfl⟩
  | int hint _ =>
    have hread : (readInt n.base n.digits).toOption = _ := readInt_digits hint.some hint.digits
    unfold intLexeme at hr
    split at hr <;> cases hr
    next m heq =>
      rw [heq] at hread
      split at hread <;> cases hread
      exact .inr ⟨_, rfl⟩
  | _ => cases hr

lemma unread_iff {r} (h : n.Reads line r) : Unread r ↔ n.Unreadable := by
  have hpoint (hint : n.IsInt) : '.' ∉ n.digits :=
    fun hmem => absurd (hint.digits _ hmem) (by decide)
  cases h with
  | bad he hrun =>
    simp only [Unread, Unreadable, error.injEq, exists_eq_left', he]
    grind
  | real x hrun => simp [Unread, Unreadable, hrun]
  | unended hint hbase hrest =>
    simp [Unread, Unreadable, hint.some, hpoint hint, hbase, hrest, ScanError.line?]
  | int hint hrest =>
    have hnone : Unread (intLexeme n.base n.digits n.rest) ↔
        (readInt n.base n.digits).toOption = none := by
      unfold intLexeme
      cases readInt n.base n.digits <;> simp [Unread, ScanError.line?, Except.toOption]
    have hpoint := hpoint hint
    have hsome := hint.some
    rw [hnone, readInt_digits hsome hint.digits]
    simp only [all_eq_true, Option.isSome_iff_ne_none, ite_eq_right_iff, reduceCtorEq, Unreadable]
    grind

lemma names_line (h : n.Reads line (.error e)) : e.line? = some line ∨ e.line? = none := by
  generalize hr : error e = r at h
  cases h with
  | bad he _ => exact .inl (error.inj hr ▸ he)
  | real => cases hr
  | unended => exact .inr (error.inj hr ▸ rfl)
  | int =>
    unfold intLexeme at hr
    split at hr <;> cases hr
    exact .inr rfl

end Numeral.Reads

/-! ## Texts that are not scanned -/

section

variable {line : Nat} {s : List Char} {c : Char}

lemma scanStep_digit (hc : isDigit c) (line : Nat) (s : List Char) : scanStep line c s =
    (scanNumber line (c :: s)).map fun r => ⟨some ⟨r.1, line⟩, line, r.2⟩ := by
  have hne : ∀ d, isDigit d = false → c ≠ d := by
    rintro d hd rfl
    simp [hc] at hd
  simp [scanStep, hne ' ' (by decide), hne '\t' (by decide), hne '\n' (by decide),
    hne '/' (by decide), hc]
  cases scanNumber line (c :: s) <;> rfl

lemma scanStep_eq_error {e} (h : scanStep line c s = .error e) :
    e = .unexpected c line ∨ isDigit c ∧ scanNumber line (c :: s) = .error e := by
  by_cases hc : isDigit c = true
  · rw [scanStep_digit hc] at h
    cases hnum : scanNumber line (c :: s) <;> simp_all [Except.map]
  · unfold scanStep at h
    repeat' split at h
    all_goals cases h
    exact .inl rfl

end

/-- A scanner fails without an error of its own exactly if it comes to a number that is not read.
Every other error names the line that the scanner is at. -/
theorem scan_unread_iff (text : List Char) :
    (Unread (scan text) ↔ ∃ pieces line c s found, Scanning text pieces line (c :: s) found ∧
      isDigit c = true ∧ (numeral (c :: s)).Unreadable) ∧
    ∀ e line, scan text = .error e → e.line? = some line →
      ∃ pieces s found, s ≠ [] ∧ Scanning text pieces line s found := by
  refine ⟨⟨?_, ?_⟩, ?_⟩
  · rintro ⟨e, he, hline⟩
    obtain ⟨pieces, line, c, s, found, hscan, hstep⟩ := scan_eq_error_iff.1 he
    obtain rfl | ⟨hc, hnum⟩ := scanStep_eq_error hstep
    · cases hline
    · exact ⟨pieces, line, c, s, found, hscan, hc,
        (Numeral.Reads.scanNumber hc line s).unread_iff.1 ⟨e, hnum, hline⟩⟩
  · rintro ⟨pieces, line, c, s, found, hscan, hc, hunread⟩
    obtain ⟨e, he, hline⟩ := (Numeral.Reads.scanNumber hc line s).unread_iff.2 hunread
    exact ⟨e, hscan.eq_error (by rw [scanStep_digit hc, he]; rfl), hline⟩
  · intro e line he hline
    obtain ⟨pieces, line', c, s, found, hscan, hstep⟩ := scan_eq_error_iff.1 he
    have hat : e.line? = some line' ∨ e.line? = none := by
      obtain rfl | ⟨hc, hnum⟩ := scanStep_eq_error hstep
      · exact .inl rfl
      · exact (hnum ▸ Numeral.Reads.scanNumber hc line' s).names_line
    rw [hline] at hat
    obtain rfl : line = line' := by simpa using hat
    exact ⟨pieces, c :: s, found, List.cons_ne_nil c s, hscan⟩

end ArmStudio.Script
