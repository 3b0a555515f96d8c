import ArmStudio.Proofs.Numerals

/-!
# Tokens written as text

What is read as a token is read again from its text, so scanned tokens are found again.
-/

namespace ArmStudio.Script

open Number Text List Option

def spellings : List (List Char × Keyword) :=
  operators ++ Keyword.words.map fun w => (w.1.toList, w.2)

def Keyword.spelling (k : Keyword) : List Char :=
  ((spellings.find? fun o => o.2 == k).map Prod.fst).getD []

/-- The text of a lexeme. A floating-point number has none. -/
def Lexeme.text : Lexeme → List Char
  | name s => s.toList
  | keyword k => k.spelling
  | int n => '0' :: 'x' :: (hexText n.toNat).toList
  | real _ => []

def render (ls : List Lexeme) : List Char := ls.flatMap fun l => l.text ++ [' ']

/-- The text of a lexeme with a blank behind it is scanned as that lexeme. -/
def Lexeme.Rereads (l : Lexeme) : Prop := ∃ c t, l.text = c :: t ∧
  ∀ rest, lexemeStep c (t ++ ' ' :: rest) = some (some l, ' ' :: rest)

section

variable {c : Char} {s rest : List Char} {l : Lexeme}

lemma spelling_eq : ∀ o ∈ spellings, o.2.spelling = o.1 := by decide +kernel

lemma text_wordLexeme (w : List Char) : (wordLexeme w).text = w := by
  simp only [wordLexeme]
  split
  · next k hk =>
      obtain ⟨front, back, hwords, -⟩ := lookup_eq_some_iff.1 hk
      have hmem : (String.ofList w, k) ∈ Keyword.words := by simp [hwords]
      exact spelling_eq (w, k) (mem_append_right _ (List.mem_map.2 ⟨_, hmem, by simp⟩))
  · simp [Lexeme.text]

lemma rereads_word (hc : isDigit c = false) (hword : (isLetter c || c == '_') = true)
    (s : List Char) : (wordLexeme (c :: s.takeWhile isWordChar)).Rereads := by
  refine ⟨c, _, text_wordLexeme _, fun rest => ?_⟩
  have hne : ∀ d, (isLetter d || d == '_') = false → c ≠ d := by
    rintro d hd rfl
    simp [hword] at hd
  have hall : ∀ d ∈ s.takeWhile isWordChar, isWordChar d = true := fun d hd => mem_takeWhile_imp hd
  have hblank : isWordChar ' ' = false := by decide
  simp [lexemeStep, tokenStep, hne ' ' (by decide), hne '\t' (by decide), hne '\n' (by decide),
    hne '/' (by decide), hc, hword, takeWhile_append_of_pos hall,
    dropWhile_append_of_pos hall, hblank]

lemma operators_alone : ∀ o ∈ operators, operator? o.1 = some (o.2, o.1.length - 1) ∧
    let c := o.1.headD ' '
    isDigit c = false ∧ (isLetter c || c == '_') = false ∧
      (c == ' ' || c == '\t' || c == '\n') = false ∧
      (c = '/' → o.1.tail.head? ≠ some '/' ∧ o.1.tail.head? ≠ some '*') := by
  decide +kernel

lemma rereads_operator {k} {more : Nat} (h : operator? s = some (k, more)) :
    (Lexeme.keyword k).Rereads := by
  obtain ⟨⟨marks, k'⟩, hfind, heq⟩ := map_eq_some_iff.1 h
  cases heq
  have hmem := mem_of_find?_eq_some hfind
  obtain ⟨c, t, rfl⟩ := exists_cons_of_ne_nil (operators_tail _ hmem).1
  obtain ⟨hop, hdigit, hword, hblank, hslash⟩ := operators_alone _ hmem
  rw [headD_cons] at hdigit hword hblank hslash
  refine ⟨c, t, spelling_eq _ (mem_append_left _ hmem), fun rest => ?_⟩
  have hgap : operator? (c :: (t ++ ' ' :: rest)) = some (k', t.length) := by
    rwa [operator?_append ⟨rest, .inl rfl⟩]
  have hcomment : (c == '/' && (t ++ ' ' :: rest).head? == some '/') = false ∧
      (c == '/' && (t ++ ' ' :: rest).head? == some '*') = false := by
    cases t <;> simp_all
  simp only [lexemeStep, tokenStep, hblank, hcomment, hdigit, hword, hgap, Bool.false_eq_true,
    if_false, map_some, drop_left]

lemma toDigits_digits (n : Nat) :
    (∀ c ∈ Nat.toDigits 16 n, isHexDigit c ∧ (digitValue? 16 c).isSome) ∧
      ofDigits 16 ((Nat.toDigits 16 n).map fun c => (digitValue? 16 c).getD 0) = n := by
  have hdigit : ∀ d < 16, isHexDigit d.digitChar = true ∧ digitValue? 16 d.digitChar = some d := by
    decide
  induction n using Nat.strongRecOn with
  | ind n ih =>
    by_cases hn : n < 16
    · rw [Nat.toDigits_of_lt_base hn]
      simp [ofDigits, hdigit n hn]
    · obtain ⟨hall, hval⟩ := ih (n / 16) (by omega)
      have hlast := hdigit (n % 16) (by omega)
      rw [Nat.toDigits_of_base_le (by decide) (by omega)]
      refine ⟨forall_mem_append.2 ⟨hall, by simp [hlast]⟩, ?_⟩
      rw [ofDigits] at hval ⊢
      simp only [map_append, foldl_append, hval]
      simp [hlast]
      omega

lemma rereads_int (n : Nat) : (Lexeme.int n).Rereads := by
  refine ⟨'0', 'x' :: Nat.toDigits 16 n, by simp [Lexeme.text, hexText], fun rest => ?_⟩
  obtain ⟨hall, hval⟩ := toDigits_digits n
  have hhex := fun c hc => (hall c hc).1
  have hread : (readInt 16 (Nat.toDigits 16 n)).toOption = _ :=
    readInt_digits Nat.toDigits_ne_nil hhex
  rw [if_pos ⟨List.all_eq_true.2 fun c hc => (hall c hc).2, by simp⟩, hval] at hread
  have hscan : scanHex 1 (Nat.toDigits 16 n ++ ' ' :: rest) =
      intLexeme 16 (Nat.toDigits 16 n) (' ' :: rest) := by
    have hblank : isHexDigit ' ' = false := by decide
    obtain ⟨d, ds, hds⟩ := exists_cons_of_ne_nil (Nat.toDigits_ne_nil (b := 16) (n := n))
    simp only [scanHex, takeWhile_append_of_pos hhex, dropWhile_append_of_pos hhex,
      takeWhile_cons, dropWhile_cons, hblank, Bool.false_eq_true, if_false, append_nil]
    rw [hds]
  have hstep : lexemeStep '0' ('x' :: (Nat.toDigits 16 n ++ ' ' :: rest)) =
    (scanHex 1 (Nat.toDigits 16 n ++ ' ' :: rest)).toOption.map fun r => (some r.1, r.2) := rfl
  rw [cons_append, hstep, hscan, intLexeme_toOption, hread]
  rfl

lemma rereads_token (h : tokenStep c s = some (l, rest)) : (∃ x, l = .real x) ∨ l.Rereads := by
  unfold tokenStep at h
  split at h
  · next hc =>
      have hread := Numeral.Reads.scanNumber hc 1 s
      cases hnum : scanNumber 1 (c :: s) with
      | error e =>
        rw [hnum] at h
        cases h
      | ok r =>
        rw [hnum] at h hread
        cases h
        obtain hreal | ⟨n, rfl⟩ := hread.lexeme
        · exact .inl hreal
        · exact .inr (rereads_int n)
  next hc =>
    split at h
    · next hword =>
        cases h
        exact .inr (rereads_word (by simpa using hc) hword s)
    · obtain ⟨⟨k, more⟩, hop, heq⟩ := map_eq_some_iff.1 h
      cases heq
      exact .inr (rereads_operator hop)

lemma lexemes_of_rereads {ls} (h : ∀ l ∈ ls, l.Rereads) : lexemes (render ls) = some ls := by
  induction ls with
  | nil => rfl
  | cons l ls ih =>
    obtain ⟨⟨c, t, htext, hstep⟩, hrest⟩ := forall_mem_cons.1 h
    have hrender : render (l :: ls) = c :: (t ++ ' ' :: render ls) := by simp [render, htext]
    have hblank : lexemes (' ' :: render ls) = lexemes (render ls) := lexemes_of_skip rfl
    rw [hrender, lexemes_cons, hstep, bind_some, hblank, ih hrest]
    rfl

end

lemma Scanning.rereads {text rest pieces} {line : Nat}
    {found} (h : Scanning text pieces line rest found) :
    ∀ p ∈ found, (∃ x, p.2.lexeme = .real x) ∨ p.2.lexeme.Rereads := by
  induction h with
  | start => simp
  | @next pieces line c s found piece step _ hstep _ ih =>
    refine forall_mem_append.2 ⟨ih, List.forall_mem_map.2 fun t ht => ?_⟩
    obtain ⟨l, rest, hl, rfl⟩ := scanStep_eq_ok hstep
    obtain ⟨lexeme, rfl, rfl⟩ := map_eq_some_iff.1 (mem_toList.1 ht)
    unfold lexemeStep at hl
    iterate 3
      split at hl
      · cases hl
    obtain ⟨r, hr, heq⟩ := map_eq_some_iff.1 hl
    cases heq
    exact rereads_token hr

/-- Tokens that are scanned from a text are scanned again from their texts. -/
theorem lexemes_render {text : List Char} {tokens : List Token} (h : scan text = .ok tokens)
    (hreal : ∀ t ∈ tokens, ∀ x, t.lexeme ≠ .real x) :
    lexemes (render (tokens.map Token.lexeme)) = some (tokens.map Token.lexeme) := by
  obtain ⟨pieces, line, found, hscan, rfl⟩ := scan_eq_ok_iff.1 h
  refine lexemes_of_rereads fun l hl => ?_
  obtain ⟨t, ht, rfl⟩ := List.mem_map.1 hl
  obtain ⟨p, hp, rfl⟩ := List.mem_map.1 ht
  exact (hscan.rereads p hp).resolve_left fun hx => hx.elim (hreal _ ht)

def comparison : List Token :=
  [⟨.keyword .kwIf, 1⟩, ⟨.keyword .greater, 1⟩, ⟨.keyword .assign, 1⟩, ⟨.int 3, 1⟩,
    ⟨.keyword .divide, 1⟩, ⟨.name "x", 1⟩]

/-- The text `if>=0b11/x` is written as `if > = 0x3 / x `. -/
theorem lexemes_render_comparison :
    scan ['i', 'f', '>', '=', '0', 'b', '1', '1', '/', 'x'] = .ok comparison ∧
      lexemes ['i', 'f', ' ', '>', ' ', '=', ' ', '0', 'x', '3', ' ', '/', ' ', 'x', ' '] =
        some (comparison.map Token.lexeme) := by
  have h : scan ['i', 'f', '>', '=', '0', 'b', '1', '1', '/', 'x'] = .ok comparison := by
    decide +kernel
  exact ⟨h, lexemes_render h (by simp [comparison])⟩

end ArmStudio.Script
