import ArmStudio.Script.Token
import Mathlib.Data.List.Find

/-!
# Comments

A comment separates tokens as a blank does. A block comment also takes the character behind it.
-/

namespace ArmStudio.Script

open Number Text List

/-- The token at the head of a text that does not start with a blank or comment. -/
def tokenStep (c : Char) (s : List Char) : Option (Lexeme × List Char) :=
  if isDigit c then (scanNumber 1 (c :: s)).toOption
  else if isLetter c || c == '_' then
    some (wordLexeme (c :: s.takeWhile isWordChar), s.dropWhile isWordChar)
  else (operator? (c :: s)).map fun r => (.keyword r.1, s.drop r.2)

/-- One step of the scanner, without lines and messages. -/
def lexemeStep (c : Char) (s : List Char) : Option (Option Lexeme × List Char) :=
  if c == ' ' || c == '\t' || c == '\n' then some (none, s)
  else if c == '/' && s.head? == some '/' then some (none, skipLine (s.drop 1))
  else if c == '/' && s.head? == some '*' then some (none, (skipBlock 1 (s.drop 1)).2)
  else (tokenStep c s).map fun r => (some r.1, r.2)

lemma skipBlock_line (s : List Char) : ∀ line, (skipBlock line s).2 = (skipBlock 1 s).2 := by
  induction s with
  | nil => exact fun _ => rfl
  | cons c s ih =>
    intro line
    cases s with
    | nil => rfl
    | cons d s =>
      simp only [skipBlock]
      split
      · rfl
      · rw [ih, ← ih (if c == '\n' then 1 + 1 else 1)]

lemma scanNumber_line (line : Nat) (s : List Char) :
    (scanNumber line s).toOption = (scanNumber 1 s).toOption := by
  unfold scanNumber scanHex scanBased scanDecimal
  repeat' split
  all_goals rfl

def lineAfter (line : Nat) (c : Char) (s : List Char) : Nat :=
  if c == '\n' then line + 1
  else if c == '/' && s.head? == some '*' then (skipBlock line (s.drop 1)).1
  else line

lemma scanStep_eq (line : Nat) (c : Char) (s : List Char) : (scanStep line c s).toOption =
    (lexemeStep c s).map fun r => ⟨r.1.map (⟨·, line⟩), lineAfter line c s, r.2⟩ := by
  unfold scanStep lexemeStep lineAfter tokenStep
  rcases Bool.eq_false_or_eq_true (c == ' ' || c == '\t') with hblank | hblank
  · have hc : c = ' ' ∨ c = '\t' := by simpa using hblank
    rcases hc with rfl | rfl <;> rfl
  simp only [hblank, Bool.false_or, Bool.false_eq_true, if_false]
  split
  · rfl
  split
  · next hline =>
      simp only [Bool.and_eq_true, beq_iff_eq] at hline
      simp [hline, Except.toOption]
  split
  · simp only [← skipBlock_line _ line]
    rfl
  split
  · rw [← scanNumber_line line]
    cases scanNumber line (c :: s) <;> rfl
  split
  · rfl
  · cases operator? (c :: s) <;> rfl

lemma scanStep_eq_ok {line : Nat} {c : Char} {s} {step : Step} (h : scanStep line c s = .ok step) :
    ∃ l rest, lexemeStep c s = some (l, rest) ∧
      step = ⟨l.map (⟨·, line⟩), lineAfter line c s, rest⟩ := by
  have heq := scanStep_eq line c s
  rw [h] at heq
  obtain ⟨r, hr, hstep⟩ := Option.map_eq_some_iff.1 heq.symm
  exact ⟨r.1, r.2, hr, hstep.symm⟩

/-! ## Tokens in front of gaps -/

/-- A text that ends the token before it, whichever that is. -/
def IsGap (s : List Char) : Prop := ∃ rest, s = ' ' :: rest ∨ s = '/' :: rest

/-- Characters that no token has behind its first. -/
def breaks : List Char := [' ', '/', '\n']

lemma forall_breaks {P : Char → Prop} : (∀ d ∈ breaks, P d) ↔ P ' ' ∧ P '/' ∧ P '\n' := by
  simp [breaks]

/-- `rest` is the end of `s` behind characters that belong to one token. -/
def Leaves (s rest : List Char) : Prop := ∃ run, s = run ++ rest ∧ ∀ c ∈ run, c ∉ breaks

/-- `f` cuts off a head of the text, without breaks and the same before all gaps. -/
structure Cutting (f : List Char → Option (Lexeme × List Char)) : Prop where
  leaves : ∀ {s l rest}, f s = some (l, rest) → Leaves s rest
  append : ∀ p, ∃ r : Option (Lexeme × List Char), ∀ s, IsGap s →
    f (p ++ s) = r.map fun r => (r.1, r.2 ++ s)

section

variable {c : Char} {s rest : List Char} {f : List Char → Option (Lexeme × List Char)}
  {q : Char → Bool}

lemma IsGap.starts (hs : IsGap s) : ∃ d ∈ breaks, ∃ rest, s = d :: rest := by
  obtain ⟨rest, rfl | rfl⟩ := hs <;> exact ⟨_, by simp [breaks], rest, rfl⟩

lemma leaves_self (s : List Char) : Leaves s s := ⟨[], rfl, by simp⟩

lemma Leaves.cons (h : Leaves s rest) (hc : c ∉ breaks) : Leaves (c :: s) rest := by
  obtain ⟨run, rfl, hrun⟩ := h
  exact ⟨c :: run, rfl, forall_mem_cons.2 ⟨hc, hrun⟩⟩

lemma Cutting.of_cut (cut : List Char → List Char × List Char)
    (g : List Char → Bool → Option Lexeme) (hleaves : ∀ s, Leaves s (cut s).2)
    (happend : ∀ p s, IsGap s → cut (p ++ s) = ((cut p).1, (cut p).2 ++ s))
    (hf : ∀ s, f s = (g (cut s).1 (cut s).2.isEmpty).map fun l => (l, (cut s).2)) : Cutting f where
  leaves := by
    intro s a rest h
    rw [hf, Option.map_eq_some_iff] at h
    obtain ⟨_, _, h⟩ := h
    exact (Prod.mk.inj h).2 ▸ hleaves s
  append := by
    intro p
    refine ⟨(g (cut p).1 false).map fun l => (l, (cut p).2), fun s hs => ?_⟩
    have hempty : ((cut p).2 ++ s).isEmpty = false := by
      obtain ⟨rest, rfl | rfl⟩ := hs <;> simp
    rw [hf, happend p s hs, hempty, Option.map_map]
    rfl

lemma leaves_dropWhile (hq : ∀ d ∈ breaks, q d = false) (s : List Char) :
    Leaves s (s.dropWhile q) := by
  induction s with
  | nil => exact leaves_self []
  | cons c s ih =>
    rw [dropWhile_cons]
    split
    · next hc => exact ih.cons fun hmem => by simp [hq c hmem] at hc
    · exact leaves_self _

lemma Cutting.of_run (g : List Char → Bool → Option Lexeme) (hq : ∀ d ∈ breaks, q d = false)
    (hf : ∀ s, f s = (g (s.takeWhile q) (s.dropWhile q).isEmpty).map fun l => (l, s.dropWhile q)) :
    Cutting f := by
  refine .of_cut (fun s => (s.takeWhile q, s.dropWhile q)) g (leaves_dropWhile hq) ?_ hf
  intro p s hs
  induction p with
  | nil =>
    obtain ⟨d, hd, rest, rfl⟩ := hs.starts
    simp [hq d hd]
  | cons c p ih =>
    simp only [Prod.mk.injEq] at ih
    cases hc : q c <;> simp [hc, ih]

lemma takeDecimal_leaves (s : List Char) : ∀ b, Leaves s (takeDecimal b s).2 := by
  induction s with
  | nil => exact fun _ => leaves_self []
  | cons c s ih =>
    intro b
    unfold takeDecimal
    split
    · next hc =>
        refine (ih _).cons fun hmem => ?_
        have hbreaks : ∀ d ∈ breaks, (isDigit d || (d == '.' && !b)) = false :=
          forall_breaks.2 (by cases b <;> decide)
        simp [hbreaks c hmem] at hc
    · exact leaves_self _

lemma takeDecimal_append (p : List Char) (hs : IsGap s) : ∀ b,
    takeDecimal b (p ++ s) = ((takeDecimal b p).1, (takeDecimal b p).2 ++ s) := by
  induction p with
  | nil =>
    intro b
    obtain ⟨rest, rfl | rfl⟩ := hs <;> cases b <;> rfl
  | cons c p ih =>
    intro b
    simp only [cons_append, takeDecimal, ih]
    split <;> rfl

lemma intLexeme_toOption (base : Nat) (run rest : List Char) : (intLexeme base run rest).toOption =
      ((readInt base run).toOption.map .int).map fun l => (l, rest) := by
  unfold intLexeme
  cases readInt base run <;> rfl

lemma cutting_scanHex : Cutting fun s => (scanHex 1 s).toOption := by
  refine .of_run (q := isHexDigit) (fun run e => if run.isEmpty || e then none else
    (readInt 16 run).toOption.map .int) (forall_breaks.2 (by decide)) fun s => ?_
  unfold scanHex
  cases s.takeWhile isHexDigit <;> cases s.dropWhile isHexDigit <;>
    first | exact intLexeme_toOption .. | rfl

lemma cutting_scanBased (base : Nat) (e : ScanError) (hq : ∀ d ∈ breaks, q d = false) :
    Cutting fun s => (scanBased base q e s).toOption := by
  refine .of_run (fun run _ => if run.isEmpty then none else (readInt base run).toOption.map .int)
    hq fun s => ?_
  unfold scanBased
  cases s.takeWhile q <;> first | exact intLexeme_toOption .. | rfl

lemma cutting_scanDecimal (hc : isDigit c) :
    Cutting fun s => (scanDecimal 1 (c :: s)).toOption := by
  refine .of_cut (takeDecimal (c == '.')) (fun run _ => if (c :: run).contains '.' then
      (readDouble? (c :: run)).map .real else (readInt 10 (c :: run)).toOption.map .int)
    (fun s => takeDecimal_leaves s _) (fun p s hs => takeDecimal_append p hs _) fun s => ?_
  simp only [scanDecimal, takeDecimal, hc, Bool.true_or, if_true, Bool.false_or]
  split
  · cases readDouble? (c :: (takeDecimal (c == '.') s).1) <;> rfl
  · exact intLexeme_toOption ..

lemma scanNumber_cases (c d : Char) :
    (d ∉ breaks ∧ Cutting fun s => (scanNumber 1 (c :: d :: s)).toOption) ∨
      ∀ s, scanNumber 1 (c :: d :: s) = scanDecimal 1 (c :: d :: s) := by
  by_cases hc : c = '0'
  · subst hc
    by_cases hx : d = 'x' ∨ d = 'X'
    · refine .inl ?_
      rcases hx with rfl | rfl <;> exact ⟨by decide, cutting_scanHex⟩
    by_cases hb : d = 'b' ∨ d = 'B'
    · refine .inl ?_
      rcases hb with rfl | rfl <;>
        exact ⟨by decide, cutting_scanBased 2 _ (forall_breaks.2 (by decide))⟩
    by_cases ho : d = 'o' ∨ d = 'O'
    · refine .inl ?_
      rcases ho with rfl | rfl <;>
        exact ⟨by decide, cutting_scanBased 8 _ (forall_breaks.2 (by decide))⟩
    · simp [scanNumber, hx, hb, ho]
  · simp [scanNumber, hc]

lemma cutting_scanNumber (hc : isDigit c) : Cutting fun s => (scanNumber 1 (c :: s)).toOption := by
  have hdecimal := cutting_scanDecimal hc
  have hnil : scanNumber 1 [c] = scanDecimal 1 [c] := by simp [scanNumber]
  constructor
  · intro s l rest h
    cases s with
    | nil => exact hdecimal.leaves (hnil ▸ h)
    | cons d s =>
      rcases scanNumber_cases c d with ⟨hd, hcut⟩ | heq
      · exact (hcut.leaves h).cons hd
      · exact hdecimal.leaves (heq s ▸ h)
  · intro p
    cases p with
    | nil =>
      -- the gap itself is behind the digit, and selects nothing
      obtain ⟨r, hr⟩ := hdecimal.append []
      refine ⟨r, fun s hs => (hr s hs) ▸ ?_⟩
      obtain ⟨rest, rfl | rfl⟩ := hs
      · exact congrArg _ ((scanNumber_cases c ' ').resolve_left (by simp [breaks]) rest)
      · exact congrArg _ ((scanNumber_cases c '/').resolve_left (by simp [breaks]) rest)
    | cons d p =>
      rcases scanNumber_cases c d with ⟨_, hcut⟩ | heq
      · exact hcut.append p
      · obtain ⟨r, hr⟩ := hdecimal.append (d :: p)
        exact ⟨r, fun s hs => hr s hs ▸ congrArg _ (heq (p ++ s))⟩

lemma operators_tail : ∀ o ∈ operators, o.1 ≠ [] ∧ ∀ c ∈ o.1.tail, c ∉ breaks := by
  simp [operators, breaks]

lemma isPrefixOf_append {marks : List Char} (hmarks : ∀ c ∈ marks, c ∉ breaks) (hs : IsGap s)
    (p : List Char) : marks.isPrefixOf (p ++ s) = marks.isPrefixOf p := by
  induction marks generalizing p with
  | nil => simp
  | cons m marks ih =>
    rw [forall_mem_cons] at hmarks
    cases p with
    | nil =>
      obtain ⟨d, hd, rest, rfl⟩ := hs.starts
      have hne : m ≠ d := fun heq => hmarks.1 (heq ▸ hd)
      simp [List.isPrefixOf, hne]
    | cons c p => simp [List.isPrefixOf, ih hmarks.2]

lemma operator?_append (hs : IsGap s) (c : Char) (p : List Char) :
    operator? (c :: (p ++ s)) = operator? (c :: p) := by
  unfold operator?
  congr 1
  refine find?_congr fun o ho => ?_
  obtain ⟨hne, hmarks⟩ := operators_tail o ho
  obtain ⟨m, marks, ho⟩ := exists_cons_of_ne_nil hne
  rw [ho, tail_cons] at hmarks
  rw [ho, List.isPrefixOf, List.isPrefixOf, isPrefixOf_append hmarks hs]

lemma operator?_eq_some {k} {more : Nat} (h : operator? (c :: s) = some (k, more)) :
    ∃ marks, (∀ d ∈ marks, d ∉ breaks) ∧ more = marks.length ∧ marks <+: s := by
  obtain ⟨⟨marks, k'⟩, hfind, heq⟩ := Option.map_eq_some_iff.1 h
  cases heq
  have hpre : marks <+: c :: s := by simpa using find?_some hfind
  obtain ⟨hne, hmarks⟩ := operators_tail _ (mem_of_find?_eq_some hfind)
  obtain ⟨m, marks, rfl⟩ := exists_cons_of_ne_nil hne
  exact ⟨marks, hmarks, rfl, (cons_prefix_cons.1 hpre).2⟩

lemma cutting_tokenStep (c : Char) : Cutting (tokenStep c) := by
  unfold tokenStep
  split
  · next hc => exact cutting_scanNumber hc
  split
  · exact .of_run (fun run _ => some (wordLexeme (c :: run))) (forall_breaks.2 (by decide))
      fun s => rfl
  constructor
  · intro s l rest h
    obtain ⟨⟨k, more⟩, hop, heq⟩ := Option.map_eq_some_iff.1 h
    cases heq
    obtain ⟨marks, hmarks, rfl, tail, rfl⟩ := operator?_eq_some hop
    exact ⟨marks, by simp, hmarks⟩
  · intro p
    refine ⟨(operator? (c :: p)).map fun r => (.keyword r.1, p.drop r.2), fun s hs => ?_⟩
    rw [operator?_append hs]
    cases hop : operator? (c :: p) with
    | none => rfl
    | some r =>
      obtain ⟨marks, -, hlen, hpre⟩ := operator?_eq_some hop
      simp [drop_append_of_le_length (hlen ▸ hpre.length_le)]

end

/-! ## Steps and texts -/

/-- A comment that takes a line end with it. -/
def swallows (piece : List Char) : Bool :=
  (piece.take 2 == ['/', '/'] || piece.take 2 == ['/', '*']) && piece.getLast? == some '\n'

/-- A comment from behind its mark up to the rest: from line `n` it comes to line `n'`, where the
line end that it takes with it is not counted. -/
def Comments (n : Nat) (s : List Char) (n' : Nat) (rest : List Char) : Prop :=
  ∃ body, s = body ++ rest ∧ (rest ≠ [] → body ≠ [] ∧
    n' + (if body.getLast? = some '\n' then 1 else 0) = n + body.count '\n')

section

variable {c : Char} {s rest : List Char} {l : Option Lexeme}

lemma Comments.cons {n n' : Nat} (h : Comments (if c == '\n' then n + 1 else n) s n' rest) :
    Comments n (c :: s) n' rest := by
  obtain ⟨body, rfl, hbody⟩ := h
  refine ⟨c :: body, rfl, fun hrest => ⟨cons_ne_nil c body, ?_⟩⟩
  obtain ⟨hne, hlines⟩ := hbody hrest
  rw [getLast?_cons_of_ne_nil hne, hlines, count_cons]
  split <;> omega

lemma comments_skipLine (n : Nat) (s : List Char) : Comments n s n (skipLine s) := by
  induction s with
  | nil => exact ⟨[], rfl, by simp [skipLine]⟩
  | cons c s ih =>
    by_cases hc : c = '\n'
    · subst hc
      exact ⟨['\n'], by simp [skipLine], by simp⟩
    · have hskip : skipLine (c :: s) = skipLine s := by simp [skipLine, hc]
      rw [hskip]
      exact .cons (by simpa [hc] using ih)

lemma comments_skipBlock (s : List Char) : ∀ n,
    Comments n s (skipBlock n s).1 (skipBlock n s).2 := by
  induction s with
  | nil => exact fun n => ⟨[], rfl, by simp [skipBlock]⟩
  | cons c s ih =>
    intro n
    cases s with
    | nil => exact ⟨[c], rfl, by simp [skipBlock]⟩
    | cons d s =>
      rw [skipBlock]
      split
      · next hclose =>
          simp only [Bool.and_eq_true, beq_iff_eq] at hclose
          obtain ⟨rfl, rfl⟩ := hclose
          cases s with
          | nil => exact ⟨['*', '/'], rfl, by simp⟩
          | cons e s => exact ⟨['*', '/', e], rfl, fun _ => by simp [count_cons]⟩
      · exact (ih _).cons

lemma Leaves.length_le (h : Leaves s rest) : rest.length ≤ s.length := by
  obtain ⟨run, rfl, _⟩ := h
  simp

lemma lexemeStep_takes (h : lexemeStep c s = some (l, rest)) (line : Nat) :
    ∃ run, s = run ++ rest ∧ (rest ≠ [] →
      lineAfter line c s + (if swallows (c :: run) then 1 else 0) =
        line + (c :: run).count '\n') := by
  unfold lexemeStep at h
  split at h
  · next hblank =>
      cases h
      refine ⟨[], rfl, fun _ => ?_⟩
      have hc : c = ' ' ∨ c = '\t' ∨ c = '\n' := by simpa [or_assoc] using hblank
      rcases hc with rfl | rfl | rfl <;> rfl
  next hblank =>
    have hc : c ≠ '\n' := by simp_all
    split at h
    · next hline =>
        cases h
        simp only [Bool.and_eq_true, beq_iff_eq, head?_eq_some_iff] at hline
        obtain ⟨rfl, t, rfl⟩ := hline
        obtain ⟨body, hbody, hcount⟩ := comments_skipLine line t
        refine ⟨'/' :: body, congrArg (List.cons '/') hbody, fun hne => ?_⟩
        obtain ⟨hbody, hcount⟩ := hcount hne
        simpa [swallows, lineAfter, getLast?_cons_of_ne_nil, hbody] using hcount
    split at h
    · next hblock =>
        cases h
        simp only [Bool.and_eq_true, beq_iff_eq, head?_eq_some_iff] at hblock
        obtain ⟨rfl, t, rfl⟩ := hblock
        obtain ⟨body, hbody, hcount⟩ := comments_skipBlock t line
        rw [skipBlock_line] at hbody hcount
        refine ⟨'*' :: body, congrArg (List.cons '*') hbody, fun hne => ?_⟩
        obtain ⟨hbody, hcount⟩ := hcount hne
        simpa [swallows, lineAfter, getLast?_cons_of_ne_nil, hbody] using hcount
    · next hline hblock =>
        obtain ⟨r, hr, heq⟩ := Option.map_eq_some_iff.1 h
        cases heq
        obtain ⟨run, rfl, hrun⟩ := (cutting_tokenStep c).leaves hr
        have hend : (c :: run).count '\n' = 0 := by
          rw [count_eq_zero, mem_cons, not_or]
          exact ⟨hc.symm, fun hmem => hrun _ hmem (by decide)⟩
        have hmark : swallows (c :: run) = false := by
          cases run <;> simp_all [swallows]
        have hline : lineAfter line c (run ++ r.2) = line := by
          rw [lineAfter, if_neg (by simpa using hc), if_neg hblock]
        exact ⟨run, rfl, fun _ => by simp [hline, hmark, hend]⟩

lemma lexemeStep_suffix (h : lexemeStep c s = some (l, rest)) : rest <:+ s := by
  obtain ⟨run, hrun, _⟩ := lexemeStep_takes h 1
  exact ⟨run, hrun.symm⟩

def lexemesFrom (fuel line : Nat) (s : List Char) : Option (List Lexeme) :=
  (scanFrom fuel line s).toOption.map (List.map Token.lexeme)

/-- The lexemes of a text; none where it is not scanned. -/
def lexemes (s : List Char) : Option (List Lexeme) := (scan s).toOption.map (List.map Token.lexeme)

lemma lexemesFrom_cons {fuel : Nat} {g : List Char → Option (List Lexeme)} (line : Nat) (c : Char)
    (hg : ∀ line rest, rest.length ≤ s.length → lexemesFrom fuel line rest = g rest) :
    lexemesFrom (fuel + 1) line (c :: s) =
      (lexemeStep c s).bind fun r => (g r.2).map (r.1.toList ++ ·) := by
  rw [lexemesFrom, scanFrom]
  cases hstep : scanStep line c s with
  | error e =>
    have hnone := scanStep_eq line c s
    rw [hstep] at hnone
    rw [Option.map_eq_none_iff.1 hnone.symm]
    rfl
  | ok step =>
    obtain ⟨l, rest, hl, rfl⟩ := scanStep_eq_ok hstep
    rw [hl, Option.bind_some, ← hg (lineAfter line c s) rest (lexemeStep_suffix hl).length_le,
      lexemesFrom]
    simp only [bind, Except.bind]
    cases scanFrom fuel (lineAfter line c s) rest with
    | error e => rfl
    | ok tokens => cases l <;> rfl

lemma lexemesFrom_eq (fuel fuel' line line' : Nat) (s : List Char) (hs : s.length ≤ fuel)
    (hs' : s.length ≤ fuel') : lexemesFrom fuel line s = lexemesFrom fuel' line' s := by
  induction fuel generalizing fuel' line line' s with
  | zero =>
    obtain rfl := length_eq_zero_iff.1 (Nat.le_zero.1 hs)
    cases fuel' <;> rfl
  | succ fuel ih =>
    cases s with
    | nil => cases fuel' <;> rfl
    | cons c s =>
      rw [length_cons] at hs hs'
      obtain _ | fuel' := fuel'
      · omega
      rw [lexemesFrom_cons line c fun line rest h => ih fuel line 1 rest (by omega) (by omega),
        lexemesFrom_cons line' c fun line rest h =>
          (ih fuel' 1 line rest (by omega) (by omega)).symm]

lemma lexemes_cons (c : Char) (s : List Char) : lexemes (c :: s) =
    (lexemeStep c s).bind fun r => (lexemes r.2).map (r.1.toList ++ ·) :=
  lexemesFrom_cons 1 c fun line rest h => lexemesFrom_eq _ _ line 1 rest h le_rfl

lemma lexemes_of_skip (h : lexemeStep c s = some (none, rest)) :
    lexemes (c :: s) = lexemes rest := by
  rw [lexemes_cons, h]
  simp

end

/-! ## Texts in front of gaps -/

/-- What a scanner has seen of comments: none, a slash that may start one, a comment of a line, one
of a block, a star in it that may close it, and one that is closed but takes one more character. -/
inductive Mode where
  | code
  | slash
  | line
  | block
  | star
  | closed
  deriving DecidableEq

def Mode.next : Mode → Char → Mode
  | code, c => if c == '/' then slash else code
  | slash, c => if c == '/' then line else if c == '*' then block else code
  | line, c => if c == '\n' then code else line
  | block, c => if c == '*' then star else block
  | star, c => if c == '/' then closed else if c == '*' then star else block
  | closed, _ => code

/-- The text ends outside of its comments and not with a slash. -/
def OutsideComments (p : List Char) : Prop := p.foldl Mode.next .code = .code

instance (p : List Char) : Decidable (OutsideComments p) :=
  inferInstanceAs (Decidable (p.foldl Mode.next .code = .code))

/-- `skip` leaves a shorter text behind `p`, which again ends outside of comments. -/
def Skips (skip : List Char → List Char) (p : List Char) : Prop :=
  ∃ left, left.length ≤ p.length ∧ OutsideComments left ∧ ∀ s, skip (p ++ s) = left ++ s

lemma Skips.cons {skip} {c : Char} {p} (h : Skips skip p)
    (hc : ∀ s, skip (c :: (p ++ s)) = skip (p ++ s)) : Skips skip (c :: p) := by
  obtain ⟨left, hlen, hout, hskip⟩ := h
  exact ⟨left, hlen.trans (Nat.le_succ _), hout, fun s => (hc s).trans (hskip s)⟩

variable {p : List Char} {c : Char}

lemma skips_skipLine (h : p.foldl Mode.next .line = .code) : Skips skipLine p := by
  induction p with
  | nil => cases h
  | cons c p ih =>
    rw [foldl_cons, Mode.next] at h
    split at h
    · next hc => exact ⟨p, Nat.le_succ _, h, fun s => by simp [skipLine, beq_iff_eq.1 hc]⟩
    · next hc => exact (ih h).cons fun s => by simp_all [skipLine]

lemma skips_skipBlock (h : p.foldl Mode.next .block = .code) :
    Skips (fun s => (skipBlock 1 s).2) p := by
  induction p with
  | nil => cases h
  | cons c p ih =>
    cases p with
    | nil =>
      rw [foldl_cons, Mode.next] at h
      split at h <;> cases h
    | cons d p =>
      by_cases hclose : c = '*' ∧ d = '/'
      · obtain ⟨rfl, rfl⟩ := hclose
        cases p with
        | nil => cases h
        | cons e p => exact ⟨p, by simp only [length_cons]; omega, h, fun s => rfl⟩
      · refine (ih ?_).cons fun s => ?_
        -- a star that no slash follows is part of the comment, also before another star
        · rw [← h]
          simp only [foldl_cons, Mode.next, beq_iff_eq]
          grind
        · have hne : (c == '*' && d == '/') = false := by simpa using hclose
          simp only [cons_append, skipBlock, hne]
          exact skipBlock_line ..

lemma Mode.next_code (hc : c ≠ '/') : Mode.next .code c = .code := by simp [next, hc]

lemma OutsideComments.of_leaves {rest} (h : OutsideComments p)
    (hleaves : Leaves p rest) : OutsideComments rest := by
  obtain ⟨run, rfl, hrun⟩ := hleaves
  induction run with
  | nil => exact h
  | cons c run ih =>
    rw [forall_mem_cons] at hrun
    rw [OutsideComments, cons_append, foldl_cons,
      Mode.next_code (by rintro rfl; exact hrun.1 (by decide))] at h
    exact ih hrun.2 h

/-- A step over `c` and `p` is the same in front of every gap. -/
def StepsAlike (c : Char) (p : List Char) : Prop :=
  (∀ s, IsGap s → lexemeStep c (p ++ s) = none) ∨ ∃ l left, left.length ≤ p.length ∧
    OutsideComments left ∧ ∀ s, IsGap s → lexemeStep c (p ++ s) = some (l, left ++ s)

lemma stepsAlike_token (hp : OutsideComments p)
    (h : ∀ s, lexemeStep c (p ++ s) = (tokenStep c (p ++ s)).map fun r => (some r.1, r.2)) :
    StepsAlike c p := by
  obtain ⟨r, hr⟩ := (cutting_tokenStep c).append p
  cases r with
  | none => exact .inl fun s hs => by rw [h, hr s hs]; rfl
  | some r =>
    -- one gap shows what is left, and the others leave the same
    obtain ⟨run, hrun, hbreaks⟩ := (cutting_tokenStep c).leaves (hr [' '] ⟨[], .inl rfl⟩)
    rw [← append_assoc, append_left_inj] at hrun
    have hleaves : Leaves p r.2 := ⟨run, hrun, hbreaks⟩
    exact .inr ⟨some r.1, r.2, hleaves.length_le, hp.of_leaves hleaves,
      fun s hs => by rw [h, hr s hs]; rfl⟩

lemma stepsAlike (h : OutsideComments (c :: p)) : StepsAlike c p := by
  by_cases hc : c = '/'
  · subst hc
    cases p with
    | nil => cases h
    | cons d p =>
      by_cases hline : d = '/'
      · subst hline
        obtain ⟨left, hlen, hout, hskip⟩ := skips_skipLine h
        exact .inr ⟨none, left, hlen.trans (Nat.le_succ _), hout, fun s _ => hskip s ▸ rfl⟩
      by_cases hblock : d = '*'
      · subst hblock
        obtain ⟨left, hlen, hout, hskip⟩ := skips_skipBlock h
        exact .inr ⟨none, left, hlen.trans (Nat.le_succ _), hout, fun s _ => hskip s ▸ rfl⟩
      · refine stepsAlike_token ?_ fun s => by simp [lexemeStep, hline, hblock]
        simpa [OutsideComments, Mode.next, hline, hblock] using h
  · have hp : OutsideComments p := by
      rwa [OutsideComments, foldl_cons, Mode.next_code hc] at h
    by_cases hblank : (c == ' ' || c == '\t' || c == '\n') = true
    · exact .inr ⟨none, p, le_rfl, hp, fun s _ => by rw [lexemeStep, if_pos hblank]⟩
    · exact stepsAlike_token hp fun s => by simp [lexemeStep, hc, hblank]

lemma lexemes_append (n : Nat) : ∀ {p : List Char}, p.length = n → OutsideComments p →
    ∃ r : Option (List Lexeme), ∀ s, IsGap s →
      lexemes (p ++ s) = r.bind fun ls => (lexemes s).map (ls ++ ·) := by
  -- over the length, since a step may take any number of characters
  induction n using Nat.strongRecOn with
  | ind n ih =>
    intro p hn hp
    cases p with
    | nil => exact ⟨some [], by simp⟩
    | cons c p =>
      rcases stepsAlike hp with hnone | ⟨l, left, hlen, hleft, hstep⟩
      · exact ⟨none, fun s hs => by simp [lexemes_cons, hnone s hs]⟩
      · rw [length_cons] at hn
        obtain ⟨r, hr⟩ := ih _ (by omega) rfl hleft
        refine ⟨r.map (l.toList ++ ·), fun s hs => ?_⟩
        rw [cons_append, lexemes_cons, hstep s hs, Option.bind_some, hr s hs]
        cases r <;> cases lexemes s <;> simp

/-! ## Comments -/

inductive Comment where
  | line (body : List Char)
  | block (body : List Char)

namespace Comment

def text : Comment → List Char
  | line body => '/' :: '/' :: body
  | block body => '/' :: '*' :: (body ++ ['*', '/'])

/-- A comment ends in front of `q`: one of a line at its break, one of a block at its own end. -/
def EndsBefore (q : List Char) : Comment → Prop
  | line body => '\n' ∉ body ∧ (q = [] ∨ ∃ rest, q = '\n' :: rest)
  | block body => ¬ ['*', '/'] <:+: body

/-- What is left of the text behind the comment. -/
def leaves (q : List Char) : Comment → List Char
  | line _ => q
  | block _ => q.drop 1

lemma isGap (c : Comment) (q : List Char) : IsGap (c.text ++ q) := by
  cases c <;> exact ⟨_, .inr rfl⟩

lemma skipLine_append {body} (h : '\n' ∉ body) (q : List Char) :
    skipLine (body ++ q) = skipLine q := by
  induction body with
  | nil => rfl
  | cons c body ih =>
    rw [mem_cons, not_or] at h
    rw [← ih h.2]
    simp [skipLine, Ne.symm h.1]

lemma skipBlock_append {body} (h : ¬ ['*', '/'] <:+: body) (q : List Char) :
    (skipBlock 1 (body ++ '*' :: '/' :: q)).2 = q.drop 1 := by
  induction body with
  | nil => rfl
  | cons c body ih =>
    rw [infix_cons_iff, not_or] at h
    rw [← ih h.2]
    cases body with
    | nil => exact (skipBlock_line ..).symm ▸ by simp [skipBlock]
    | cons d body =>
      have hne : (c == '*' && d == '/') = false := by
        simpa [cons_prefix_cons, @eq_comm _ '*', @eq_comm _ '/'] using h.1
      simp only [cons_append, skipBlock, hne]
      exact skipBlock_line ..

lemma lexemes_text {c : Comment} {q} (h : c.EndsBefore q) :
    lexemes (c.text ++ q) = lexemes (' ' :: c.leaves q) := by
  have hblank : lexemes (' ' :: c.leaves q) = lexemes (c.leaves q) := lexemes_of_skip rfl
  rw [hblank]
  cases c with
  | line body =>
    obtain ⟨hbody, rfl | ⟨rest, rfl⟩⟩ := h
    · have hskip : lexemes ('/' :: '/' :: (body ++ [])) = _ := lexemes_of_skip rfl
      exact hskip.trans (congrArg lexemes (skipLine_append hbody []))
    · have hskip : lexemes ('/' :: '/' :: (body ++ '\n' :: rest)) = _ := lexemes_of_skip rfl
      have hline : lexemes ('\n' :: rest) = lexemes rest := lexemes_of_skip rfl
      exact (hskip.trans (congrArg lexemes (skipLine_append hbody _))).trans hline.symm
  | block body =>
    have hskip : lexemes ('/' :: '*' :: (body ++ '*' :: '/' :: q)) = _ := lexemes_of_skip rfl
    simpa [text, leaves] using hskip.trans (congrArg lexemes (skipBlock_append h q))

end Comment

/-- A comment is a blank, except that a block comment takes the next character with it. -/
theorem lexemes_comment {p q : List Char} {c : Comment} (hp : OutsideComments p)
    (hc : c.EndsBefore q) :
    lexemes (p ++ c.text ++ q) = lexemes (p ++ ' ' :: c.leaves q) := by
  obtain ⟨r, hr⟩ := lexemes_append _ rfl hp
  rw [List.append_assoc, hr _ (c.isGap q), hr _ ⟨_, .inl rfl⟩, c.lexemes_text hc]

/-- The comment of `a/* c */b` takes the `b` with it. -/
theorem lexemes_comment_swallowed :
    lexemes (['a'] ++ (Comment.block [' ', 'c', ' ']).text ++ ['b']) = some [.name "a"] :=
  (lexemes_comment (c := .block [' ', 'c', ' ']) (by decide)
    (show ¬ ['*', '/'] <:+: [' ', 'c', ' '] by decide)).trans (by decide +kernel)

end ArmStudio.Script
