import ArmStudio.Proofs.ParsedTrees

/-!
# Names that a program takes from its text

Functions are named by tokens, and only the declaration of a function makes a function known.
-/

namespace ArmStudio.Script

open Code Text

lemma LaidOut.named {σ σ1 ds ps} (h : LaidOut σ ds σ1 ps) {f} (hf : .func f ∈ ds) :
    ∃ t ∈ spelt ps, t.lexeme = .name f.name := by
  induction h with
  | nil => cases hf
  | func _ hhead _ _ _ _ ih =>
    rcases List.mem_cons.1 hf with heq | hf
    · cases heq
      obtain ⟨⟨t, ht, hlex⟩, -⟩ := hhead.grows
      refine ⟨t, ?_, hlex⟩
      rcases List.mem_append.1 ht with ht | ht
      · simp [ht]
      · simp [List.mem_singleton.1 ht]
    · obtain ⟨t, ht, hlex⟩ := ih hf
      exact ⟨t, by simp [ht], hlex⟩
  | vars _ _ _ _ ih =>
    rcases List.mem_append.1 hf with hf | hf
    · simp at hf
    · obtain ⟨t, ht, hlex⟩ := ih hf
      exact ⟨t, by simp [ht], hlex⟩

variable {tokens : List Token} {rest s : List Char} {name : String} {line : Nat}

/-- The functions of a program are named by its tokens, and only they are known as functions. -/
theorem Program.ofTokens_functions {p} {symbols} (h : Program.ofTokens tokens = .ok (p, symbols)) :
    (∀ f, .func f ∈ p.decls → ∃ t ∈ tokens, t.lexeme = .name f.name) ∧
      ∀ x params result, symbols.outer.find? x = some (.ofFunction params result) →
        ∃ f, .func f ∈ p.decls ∧ f.name = x := by
  constructor
  · obtain ⟨ps, hps, rfl⟩ := Program.ofTokens_eq_ok_iff.1 h
    exact fun f hf => hps.named hf
  · intro x params result hx
    rcases (Program.ofTokens_globals h).grows.known x _ hx with hnone | ⟨t, isConst, hvar⟩ | hfunc
    · simp [Scopes.empty] at hnone
    · simp [Symbol.ofVar, Symbol.ofFunction] at hvar
    · exact mem_functionNames.1 hfunc

/-! ## Names of tokens -/

lemma intLexeme_ne_name {base : Nat} {run rest'} :
    intLexeme base run rest ≠ .ok (.name name, rest') := by
  unfold intLexeme
  split <;> simp

lemma scanNumber_ne_name : scanNumber line s ≠ .ok (.name name, rest) := by
  have hhex : ∀ s, scanHex line s ≠ .ok (.name name, rest) := by
    intro s
    unfold scanHex
    split <;> simp [intLexeme_ne_name]
  have hbased : ∀ base p onNone s, scanBased base p onNone s ≠ .ok (.name name, rest) := by
    intro base p onNone s
    unfold scanBased
    split <;> simp [intLexeme_ne_name]
  have hdecimal : scanDecimal line s ≠ .ok (.name name, rest) := by
    unfold scanDecimal
    simp only
    split
    · split <;> simp
    · exact intLexeme_ne_name
  unfold scanNumber
  split
  · split
    · exact hhex _
    · split
      · exact hbased _ _ _ _
      · split
        · exact hbased _ _ _ _
        · exact hdecimal
  · exact hdecimal

lemma scanStep_name {line' : Nat} {c : Char} {step : Step} (h : scanStep line c s = .ok step)
    (htoken : step.token = some ⟨.name name, line'⟩) :
    name.toList.head? = some c ∧ isDigit c = false := by
  unfold scanStep at h
  -- blanks and comments
  iterate 4
    split at h
    · cases h
      cases htoken
  split at h
  -- a number
  · obtain ⟨⟨lexeme, rest⟩, hnum, h⟩ := bind_eq_ok.1 h
    cases h
    cases htoken
    exact absurd hnum scanNumber_ne_name
  rename_i hdigit
  split at h
  -- a word
  · cases h
    simp only [wordLexeme, Option.some.injEq, Token.mk.injEq] at htoken
    obtain ⟨hword, _⟩ := htoken
    split at hword
    · cases hword
    · cases hword
      exact ⟨by simp, by simpa using hdigit⟩
  -- an operator
  · split at h
    · cases h
      cases htoken
    · cases h

lemma scanFrom_name (fuel : Nat) {line line' : Nat} {s tokens}
    {name} (h : scanFrom fuel line s = .ok tokens) (ht : ⟨.name name, line'⟩ ∈ tokens) :
    name.toList.head?.any Char.isDigit = false := by
  induction fuel generalizing line s tokens with
  | zero => cases s <;> (cases h; cases ht)
  | succ fuel ih =>
    cases s with
    | nil =>
      cases h
      cases ht
    | cons c rest =>
      obtain ⟨step, hstep, h⟩ := bind_eq_ok.1 h
      obtain ⟨others, hothers, h⟩ := bind_eq_ok.1 h
      cases h
      rcases List.mem_append.1 ht with ht | ht
      · obtain ⟨hhead, hdigit⟩ := scanStep_name hstep (Option.mem_toList.1 ht)
        rw [hhead, Option.any_some]
        cases hc : c.isDigit with
        | true => simp [isDigit, isDecimal, decimalValue?, hc] at hdigit
        | false => rfl
      · exact ih hothers ht

lemma scan_name {source} {t : Token} (h : scan source = .ok tokens) (ht : t ∈ tokens)
    (hname : t.lexeme = .name name) : name.toList.head?.any Char.isDigit = false := by
  have ht' : ⟨.name name, t.line⟩ ∈ tokens := hname ▸ ht
  exact scanFrom_name _ h ht'

end ArmStudio.Script
