import ArmStudio.Proofs.Comments

/-!
# Scanning step by step

How a scanner goes through a text, and the lines that it counts.
-/

namespace ArmStudio.Script

open Number Text List

/-- A scanner that starts with `text` has cut off pieces, is at the line and goes on with the rest.
Each token that it has found comes with the pieces in front of it. -/
inductive Scanning (text : List Char) :
    List (List Char) → Nat → List Char → List (List (List Char) × Token) → Prop
  | start : Scanning text [] 1 text []
  | next {pieces : List (List Char)} {line : Nat} {c : Char} {s : List Char}
      {found : List (List (List Char) × Token)} {piece : List Char} {step : Step} :
      Scanning text pieces line (c :: s) found → scanStep line c s = .ok step →
      c :: s = piece ++ step.rest →
      Scanning text (pieces ++ [piece]) step.line step.rest
        (found ++ step.token.toList.map (pieces, ·))

section

variable {c : Char} {e : ScanError}

lemma scanStep_suffix {line : Nat} {s} {step : Step}
    (h : scanStep line c s = .ok step) : step.rest <:+ s := by
  obtain ⟨l, rest, hl, rfl⟩ := scanStep_eq_ok h
  exact lexemeStep_suffix hl

variable {text rest : List Char} {pieces : List (List Char)} {line : Nat}
  {found : List (List (List Char) × Token)}

lemma Scanning.scan_eq (h : Scanning text pieces line rest found) : ∃ fuel, rest.length ≤ fuel ∧
      scan text = (scanFrom fuel line rest).map (found.map Prod.snd ++ ·) := by
  induction h with
  | start =>
    refine ⟨text.length, le_rfl, ?_⟩
    rw [scan]
    cases scanFrom text.length 1 text <;> rfl
  | @next pieces line c s found piece step _ hstep _ ih =>
    obtain ⟨fuel, hfuel, heq⟩ := ih
    have hlen := (scanStep_suffix hstep).length_le
    rw [length_cons] at hfuel
    obtain ⟨fuel, rfl⟩ : ∃ n, fuel = n + 1 := ⟨fuel - 1, by omega⟩
    refine ⟨fuel, by omega, ?_⟩
    rw [heq, scanFrom, hstep]
    simp only [bind, Except.bind]
    cases scanFrom fuel step.line step.rest <;> cases step.token <;>
      simp [Except.map, pure, Except.pure]

lemma Scanning.ends (n : Nat) : ∀ {pieces line rest found}, rest.length = n →
    Scanning text pieces line rest found → ∃ pieces line rest found,
      Scanning text pieces line rest found ∧
        (rest = [] ∨ ∃ c s e, rest = c :: s ∧ scanStep line c s = .error e) := by
  induction n using Nat.strongRecOn with
  | ind n ih =>
    intro pieces line rest found hn h
    cases rest with
    | nil => exact ⟨_, _, _, _, h, .inl rfl⟩
    | cons c s =>
      cases hstep : scanStep line c s with
      | error e => exact ⟨_, _, _, _, h, .inr ⟨c, s, e, rfl, hstep⟩⟩
      | ok step =>
        have hsuffix := scanStep_suffix hstep
        obtain ⟨piece, hpiece⟩ := hsuffix.trans (suffix_cons c s)
        have hlen := hsuffix.length_le
        rw [length_cons] at hn
        exact ih _ (by omega) rfl (h.next hstep hpiece.symm)

lemma Scanning.eq_ok (h : Scanning text pieces line [] found) :
    scan text = .ok (found.map Prod.snd) := by
  obtain ⟨fuel, _, heq⟩ := h.scan_eq
  rw [heq]
  cases fuel <;> simp [scanFrom, Except.map]

lemma Scanning.eq_error (h : Scanning text pieces line (c :: rest) found)
    (he : scanStep line c rest = .error e) : scan text = .error e := by
  obtain ⟨fuel, hfuel, heq⟩ := h.scan_eq
  obtain ⟨fuel, rfl⟩ : ∃ n, fuel = n + 1 := ⟨fuel - 1, by rw [length_cons] at hfuel; omega⟩
  rw [heq, scanFrom, he]
  rfl

lemma scan_eq_ok_iff {tokens} : scan text = .ok tokens ↔
    ∃ pieces line found, Scanning text pieces line [] found ∧ tokens = found.map Prod.snd := by
  constructor
  · intro h
    obtain ⟨pieces, line, rest, found, hscan, rfl | ⟨c, s, e, rfl, he⟩⟩ := Scanning.start.ends _ rfl
    · exact ⟨pieces, line, found, hscan, Except.ok.inj (h.symm.trans hscan.eq_ok)⟩
    · cases h.symm.trans (hscan.eq_error he)
  · rintro ⟨pieces, line, found, hscan, rfl⟩
    exact hscan.eq_ok

lemma scan_eq_error_iff : scan text = .error e ↔
    ∃ pieces line c s found, Scanning text pieces line (c :: s) found ∧
      scanStep line c s = .error e := by
  constructor
  · intro h
    obtain ⟨pieces, line, rest, found, hscan, rfl | ⟨c, s, e', rfl, he⟩⟩ :=
      Scanning.start.ends _ rfl
    · cases h.symm.trans hscan.eq_ok
    · cases h.symm.trans (hscan.eq_error he)
      exact ⟨pieces, line, c, s, found, hscan, he⟩
  · rintro ⟨pieces, line, c, s, found, hscan, he⟩
    exact hscan.eq_error he

end

/-! ## Lines -/

lemma Scanning.lines {text rest : List Char} {pieces : List (List Char)} {line : Nat}
    {found : List (List (List Char) × Token)} (h : Scanning text pieces line rest found) :
    text = pieces.flatten ++ rest ∧
      (rest ≠ [] → line + pieces.countP swallows = 1 + pieces.flatten.count '\n') ∧
      ∀ p ∈ found, p.1.flatten <+: text ∧
        p.2.line + p.1.countP swallows = 1 + p.1.flatten.count '\n' := by
  induction h with
  | start => simp
  | @next pieces line c s found piece step _ hstep hpiece ih =>
    obtain ⟨htext, hline, hfound⟩ := ih
    have hline := hline (cons_ne_nil c s)
    obtain ⟨l, rest, hl, rfl⟩ := scanStep_eq_ok hstep
    obtain ⟨run, hrun, hlines⟩ := lexemeStep_takes hl line
    obtain rfl : piece = c :: run :=
      append_cancel_right (hpiece.symm.trans (congrArg (List.cons c) hrun))
    refine ⟨by simp [htext, hpiece], fun hne => ?_, forall_mem_append.2 ⟨hfound, ?_⟩⟩
    · have := hlines hne
      simp only [countP_append, countP_singleton, flatten_append, count_append, flatten_singleton]
      omega
    · rw [forall_mem_map]
      intro t ht
      have ht : t.line = line := by cases l <;> simp_all
      exact ⟨⟨c :: s, htext.symm⟩, ht.symm ▸ hline⟩

/-- Each token has the line 1 and one more for each line end before it, less those that comments
take with them: the end of a line comment, or the character right behind a block comment. -/
theorem token_lines (text : List Char) (tokens : List Token) : scan text = .ok tokens ↔
    ∃ pieces line found, Scanning text pieces line [] found ∧ tokens = found.map Prod.snd ∧
      ∀ p ∈ found, p.1.flatten <+: text ∧
        p.2.line + p.1.countP swallows = 1 + p.1.flatten.count '\n' := by
  rw [scan_eq_ok_iff]
  constructor
  · rintro ⟨pieces, line, found, hscan, htokens⟩
    exact ⟨pieces, line, found, hscan, htokens, hscan.lines.2.2⟩
  · rintro ⟨pieces, line, found, hscan, htokens, _⟩
    exact ⟨pieces, line, found, hscan, htokens⟩

end ArmStudio.Script
