import ArmStudio.Proofs.Stretches

/-!
# The layout of statements

A layout says of every token of a program what it is there for. Some are stepped over whatever they
are; all others are looked at.
-/

namespace ArmStudio.Script

open Code Cursor List ParseState Token

/-- A token in its place: one that is looked at, or one that is stepped over whatever it is. -/
inductive Place where
  | seen (t : Token)
  | passed (t : Token)

namespace Place

def token : Place → Token
  | seen t | passed t => t

def isPassed : Place → Bool
  | seen _ => false
  | passed _ => true

end Place

/-- The tokens of a layout. -/
def spelt (ps : List Place) : List Token := ps.map Place.token

@[simp] lemma spelt_nil : spelt [] = [] := rfl

@[simp] lemma spelt_cons (p : Place) (ps : List Place) :
    spelt (p :: ps) = p.token :: spelt ps := rfl

@[simp] lemma spelt_append (ps qs : List Place) : spelt (ps ++ qs) = spelt ps ++ spelt qs :=
  map_append

@[simp] lemma spelt_seen (ts : List Token) : spelt (ts.map .seen) = ts := by
  unfold spelt
  rw [map_map]
  exact map_id ts

@[simp] lemma Place.token_seen (t : Token) : (Place.seen t).token = t := rfl

@[simp] lemma Place.token_passed (t : Token) : (Place.passed t).token = t := rfl

/-- What a layout is for. A branch is a block or a conditional; its first token tells which. -/
inductive Part where
  | statements
  | statement
  | branch (first : Token)

/-- How statements stand in tokens. Only an expression and a return with a value are followed by a
token that is not looked at. -/
inductive Laid : Part → Symbols → List Stmt → Symbols → List Place → Prop
  | nil {σ} : Laid .statements σ [] σ []
  | cons {σ σ1 σ2 first rest ps qs}
      (hfirst : Laid .statement σ first σ1 ps) (hrest : Laid .statements σ1 rest σ2 qs) :
      Laid .statements σ (first ++ rest) σ2 (ps ++ qs)
  | expr {σ} {t : Token} {ts e close}
      (hopen : t.is .leftBrace = false) (hclose : t.is .rightBrace = false)
      (he : Spells σ (t :: ts) e close) :
      Laid .statement σ [.expr e] σ ((t :: ts).map .seen ++ [.passed close])
  | ret {σ} {word t : Token} {ts e close}
      (hword : word.is .kwReturn) (hval : t.is .semicolon = false)
      (he : Spells σ (t :: ts) e close) :
      Laid .statement σ [.ret (some e)] σ (.seen word :: ((t :: ts).map .seen ++ [.passed close]))
  | retNothing {σ} {word close : Token} (hword : word.is .kwReturn)
      (hclose : close.is .semicolon) :
      Laid .statement σ [.ret none] σ [.seen word, .seen close]
  | leaveLoop {σ} {word close : Token} (hword : word.is .kwBreak)
      (hclose : close.is .semicolon) :
      Laid .statement σ [.leaveLoop] σ [.seen word, .seen close]
  | decls {σ σ1} {word : Token} {ts} {ds : List VarDecl} {close : Token}
      (hword : word.is .kwLet ∨ word.is .kwConst)
      (hclose : close.is .semicolon) (hds : Declares σ (word :: ts) ds σ1 close) :
      Laid .statement σ (ds.map .decl) σ1 ((word :: ts).map .seen ++ [.seen close])
  | branch {σ σ1 first body ps}
      (hbody : Laid (.branch first) σ body σ1 ps) : Laid .statement σ body σ1 ps
  | whileDo {σ σ1} {word first : Token} {ts : List Token} {cond body ps} (hword : word.is .kwWhile)
      (hcond : Spells σ ts cond first)
      (hfirst : first.is .leftBrace) (hbody : Laid (.branch first) σ body σ1 ps) :
      Laid .statement σ [.whileDo cond body] σ1 (.seen word :: (ts.map .seen ++ ps))
  | loop {σ σ1} {word first : Token} {body ps}
      (hword : word.is .kwLoop) (hfirst : first.is .leftBrace)
      (hbody : Laid (.branch first) σ body σ1 ps) :
      Laid .statement σ [.loop body] σ1 (.seen word :: ps)
  | block {σ σ1 : Symbols} {first close : Token} {body ps}
      (hfirst : first.is .leftBrace) (hbody : Laid .statements σ.enter body σ1 ps)
      (hclose : close.is .rightBrace) :
      Laid (.branch first) σ body σ1.leave (.seen first :: (ps ++ [.seen close]))
  | ifOnly {σ σ1} {word first : Token} {ts : List Token} {cond yes ps} (hword : word.is .kwIf)
      (hcond : Spells σ ts cond first)
      (hfirst : first.is .leftBrace) (hyes : Laid (.branch first) σ yes σ1 ps) :
      Laid (.branch word) σ [.ifElse cond yes []] σ1 (.seen word :: (ts.map .seen ++ ps))
  | ifElse {σ σ1 σ2} {word first other : Token} {second} {ts : List Token} {cond yes no ps qs}
      (hword : word.is .kwIf)
      (hcond : Spells σ ts cond first) (hfirst : first.is .leftBrace)
      (hyes : Laid (.branch first) σ yes σ1 ps) (hother : other.is .kwElse)
      (hno : Laid (.branch second) σ1 no σ2 qs) :
      Laid (.branch word) σ [.ifElse cond yes no] σ2
        (.seen word :: (ts.map .seen ++ (ps ++ .seen other :: qs)))

/-- How declarations stand in tokens. -/
inductive LaidOut : Symbols → List Decl → Symbols → List Place → Prop
  | nil {σ} : LaidOut σ [] σ []
  | func {σ σ1} {σ2 : Symbols} {σ3} {word first close : Token} {ts : List Token}
      {head body rest ps qs} (hword : word.is .kwFn) (hhead : Heads σ ts head σ1 first)
      (hfirst : first.is .leftBrace) (hbody : Laid .statements σ1 body σ2 ps)
      (hclose : close.is .rightBrace) (hrest : LaidOut σ2.leave.resetCount rest σ3 qs) :
      LaidOut σ (.func (funcOf head body σ2) :: rest) σ3
        (.seen word :: (ts.map .seen ++ .seen first :: (ps ++ .seen close :: qs)))
  | vars {σ σ1 σ2} {word close : Token} {ts} {ds : List VarDecl} {rest qs}
      (hword : word.is .kwLet ∨ word.is .kwConst)
      (hds : Declares σ (word :: ts) ds σ1 close) (hclose : close.is .semicolon)
      (hrest : LaidOut σ1 rest σ2 qs) :
      LaidOut σ (ds.map .var ++ rest) σ2 ((word :: ts).map .seen ++ .seen close :: qs)

/-! ## Single steps -/

variable {t : Token} {k : Keyword}

lemma Token.is_eq_false_of_ne {k'} (h : t.is k) (hne : k ≠ k') : t.is k' = false := by
  rw [Bool.eq_false_iff]
  intro h'
  rw [is_eq_true_iff] at h h'
  exact hne (Option.some.inj (h.symm.trans h'))

/-- Reads a block or a conditional, as behind `else`. -/
def branch (fuel : Nat) (s : ParseState) : Except ParseError (List Stmt × ParseState) :=
  if s.cursor.sees .kwIf then do
    let (st, s) ← ifStatement fuel s
    return ([st], s)
  else scopedBlock fuel s

section

variable {fuel : Nat} {c c' : Cursor} {s s' : ParseState} {t : Token} {rest : List Token}
  {k : Keyword} {what : Expectation} {e : Expr}

lemma Cursor.sees_of_ahead (h : c.ahead = t :: rest) (k : Keyword) : c.sees k = t.is k := by
  rw [sees, h]

lemma Cursor.expect_of_ahead (h : c.ahead = t :: rest) (hk : t.is k) :
    c.expect k what = .ok c.skip := by
  rw [expect, if_pos (by rw [sees_of_ahead h, hk])]

lemma Cursor.expect_eq_ok_iff :
    c.expect k what = .ok c' ↔ ∃ t, c.peek? = some t ∧ t.is k ∧ c' = c.skip := by
  constructor
  · intro h
    unfold expect at h
    split at h
    · next hsees =>
        cases h
        obtain ⟨t, hpeek, hk⟩ := peek?_of_sees hsees
        exact ⟨t, hpeek, hk, rfl⟩
    · exact absurd h want_ne_ok
  · rintro ⟨t, hpeek, hk, rfl⟩
    exact expect_of_ahead (ahead_of_peek? hpeek) hk

lemma Cursor.exists_peek?_of_skip (h : c.skip.peek? ≠ none) : ∃ t, c.peek? = some t := by
  refine Option.ne_none_iff_exists'.1 fun hnone => h ?_
  have hahead : c.ahead = [] := head?_eq_none_iff.1 hnone
  rw [peek?, skip, hahead]
  rfl

namespace ParseState

@[simp] lemma cursor_skip (s : ParseState) : s.skip.cursor = s.cursor.skip := rfl

end ParseState

lemma ParseState.expression_eq_ok_iff : s.expression = .ok (e, s') ↔
    Script.expression s.symbols s.cursor = .ok (e, s'.cursor) ∧ s'.symbols = s.symbols := by
  unfold expression
  constructor
  · intro h
    obtain ⟨⟨e1, c1⟩, he, h⟩ := bind_eq_ok.1 h
    cases h
    exact ⟨he, rfl⟩
  · rintro ⟨he, hsyms⟩
    refine bind_eq_ok.2 ⟨_, he, ?_⟩
    cases s'
    cases hsyms
    rfl

lemma Spells.expression {symbols : Symbols} {ts : List Token} {next : Token}
    (h : Spells symbols ts e next) (hc : c.ahead = ts ++ next :: rest) :
    ∃ c', (⟨c, symbols⟩ : ParseState).expression = .ok (e, ⟨c', symbols⟩) ∧
      c'.ahead = next :: rest := by
  obtain ⟨c', hread, hahead⟩ := h c rest hc
  exact ⟨c', expression_eq_ok_iff.2 ⟨hread, rfl⟩, hahead⟩

lemma statement_operand (hopens : t.opensOperand) (hopen : t.is .leftBrace = false) :
    statement (fuel + 1) t s = do
      let (e, s) ← s.expression
      return ([.expr e], s) := by
  rw [statement]
  split
  case h_1 hk =>
    rw [is_eq_true_iff.2 hk] at hopen
    cases hopen
  case h_9 => rfl
  -- no operand starts with a word of a statement
  all_goals
    rename_i hk
    rw [Token.opensOperand, hk] at hopens
    cases hopens

lemma statement_branch (hpeek : s.cursor.peek? = some t)
    (ht : t.is .leftBrace ∨ t.is .kwIf) :
    statement (fuel + 1) t s = branch fuel s := by
  have hsees := sees_of_ahead (ahead_of_peek? hpeek) .kwIf
  rw [statement, branch, hsees]
  rcases ht with hopen | hif
  · rw [is_eq_true_iff.1 hopen, is_eq_false_of_ne hopen (by decide)]
    rfl
  · rw [is_eq_true_iff.1 hif, hif]
    rfl

lemma branch_block (hpeek : s.cursor.peek? = some t) (ht : t.is .leftBrace) :
    branch fuel s = scopedBlock fuel s := by
  have hsees := sees_of_ahead (ahead_of_peek? hpeek) .kwIf
  rw [branch, hsees, is_eq_false_of_ne ht (by decide)]
  rfl

lemma branch_conditional (hpeek : s.cursor.peek? = some t) (ht : t.is .kwIf) : branch fuel s = do
      let (st, s) ← ifStatement fuel s
      return ([st], s) := by
  rw [branch, if_pos (by rw [sees_of_ahead (ahead_of_peek? hpeek), ht])]

lemma ifStatement_eq : ifStatement (fuel + 1) s = do
    let (cond, s) ← s.skip.expression
    let (yes, s) ← scopedBlock fuel s
    if s.skip.cursor.sees .kwElse then
      let (no, s) ← branch fuel s.skip.skip
      return (.ifElse cond yes no, s)
    else return (.ifElse cond yes [], s) := by
  rw [ifStatement]
  refine bind_congr fun guard => bind_congr fun body => ?_
  simp only
  split
  · unfold branch
    split
    · rw [bind_assoc]
      rfl
    · rfl
  · rfl

end

/-! ## What is read has a layout -/

/-- Statements are laid out from one place to the closing brace at another. -/
def LaidUpTo (s : ParseState) (body : List Stmt) (s' : ParseState) : Prop :=
  ∃ ps close, Laid .statements s.symbols body s'.symbols ps ∧
    s.cursor.ahead = spelt ps ++ s'.cursor.ahead ∧ s'.cursor.peek? = some close ∧
    close.is .rightBrace = true

/-- A part is laid out from one place to the token at another, which is its last. -/
def LaidTo (part : Part) (s : ParseState) (body : List Stmt) (s' : ParseState) : Prop :=
  ∃ ps, Laid part s.symbols body s'.symbols ps ∧ s.cursor.ahead = spelt ps ++ s'.cursor.skip.ahead

/-- Statements that are read have a layout, with a given amount of fuel. -/
structure LaysOut (fuel : Nat) : Prop where
  statements : ∀ s body s', statements fuel s = .ok (body, s') → LaidUpTo s body s'
  statement : ∀ t s body s' last, s.cursor.peek? = some t → t.is .rightBrace = false →
    statement fuel t s = .ok (body, s') → s'.cursor.peek? = some last →
    LaidTo .statement s body s'
  block : ∀ s body s', block fuel s = .ok (body, s') →
    ∃ first, s.cursor.peek? = some first ∧ first.is .leftBrace ∧ LaidUpTo s.skip body s'
  scopedBlock : ∀ s body s', scopedBlock fuel s = .ok (body, s') →
    ∃ first, s.cursor.peek? = some first ∧ first.is .leftBrace ∧
      LaidTo (.branch first) s body s'
  ifStatement : ∀ t s st s', s.cursor.peek? = some t → t.is .kwIf →
    ifStatement fuel s = .ok (st, s') → LaidTo (.branch t) s [st] s'

section

variable {fuel : Nat} {s s' : ParseState} {body : List Stmt} {last : Token}

section

variable (ih : LaysOut fuel)

include ih

lemma statements_laid (h : statements (fuel + 1) s = .ok (body, s')) : LaidUpTo s body s' := by
  rw [statements] at h
  split at h
  · exact absurd h want_ne_ok
  · next t hpeek =>
      split at h
      · next hclose =>
          cases h
          exact ⟨[], t, .nil, rfl, hpeek, hclose⟩
      · next hclose =>
          obtain ⟨⟨first, s1⟩, hfirst, h⟩ := bind_eq_ok.1 h
          obtain ⟨⟨rest, s2⟩, hrest, h⟩ := bind_eq_ok.1 h
          cases h
          obtain ⟨qs, close, hqs, hahead, hnext, hbrace⟩ := ih.statements _ _ _ hrest
          -- the first statement is not at the end, as a closing brace comes later
          have hmore : s1.cursor.skip.peek? ≠ none := by
            unfold Cursor.peek?
            rw [show s1.cursor.skip.ahead = _ from hahead, ahead_of_peek? hnext]
            simp
          obtain ⟨last, hlast⟩ := exists_peek?_of_skip hmore
          obtain ⟨ps, hps, hahead1⟩ :=
            ih.statement _ _ _ _ _ hpeek (by simpa using hclose) hfirst hlast
          refine ⟨ps ++ qs, close, .cons hps hqs, ?_, hnext, hbrace⟩
          rw [hahead1, spelt_append, append_assoc, ← hahead]
          rfl

lemma block_laid (h : block (fuel + 1) s = .ok (body, s')) :
    ∃ first, s.cursor.peek? = some first ∧ first.is .leftBrace ∧ LaidUpTo s.skip body s' := by
  rw [block] at h
  obtain ⟨c, hopen, h⟩ := bind_eq_ok.1 h
  obtain ⟨first, hpeek, hfirst, rfl⟩ := expect_eq_ok_iff.1 hopen
  exact ⟨first, hpeek, hfirst, ih.statements _ _ _ h⟩

lemma scopedBlock_laid (h : scopedBlock (fuel + 1) s = .ok (body, s')) :
    ∃ first, s.cursor.peek? = some first ∧ first.is .leftBrace ∧
      LaidTo (.branch first) s body s' := by
  rw [scopedBlock] at h
  obtain ⟨⟨body', s1⟩, hblock, h⟩ := bind_eq_ok.1 h
  cases h
  obtain ⟨first, hpeek, hfirst, ps, close, hps, hahead, hnext, hclose⟩ := ih.block _ _ _ hblock
  refine ⟨first, hpeek, hfirst, _, .block hfirst hps hclose, ?_⟩
  have hstart : s.cursor.ahead = first :: s.cursor.skip.ahead := ahead_of_peek? hpeek
  rw [hstart, show s.cursor.skip.ahead = _ from hahead, ahead_of_peek? hnext]
  simp [ParseState.leave]

lemma branch_laid (h : branch fuel s = .ok (body, s')) :
    ∃ first, LaidTo (.branch first) s body s' := by
  unfold branch at h
  split at h
  · next hsees =>
      obtain ⟨first, hpeek, hif⟩ := peek?_of_sees hsees
      obtain ⟨⟨st, s1⟩, hst, h⟩ := bind_eq_ok.1 h
      cases h
      exact ⟨first, ih.ifStatement _ _ _ _ hpeek hif hst⟩
  · obtain ⟨first, -, -, hlaid⟩ := ih.scopedBlock _ _ _ h
    exact ⟨first, hlaid⟩

lemma guarded_laid {cond : Expr} {s1 s2} (hcond : s.expression = .ok (cond, s1))
    (hbody : scopedBlock fuel s1 = .ok (body, s2)) :
    ∃ ts first ps, Spells s.symbols ts cond first ∧ first.is .leftBrace ∧
      Laid (.branch first) s.symbols body s2.symbols ps ∧
      s.cursor.ahead = ts ++ (spelt ps ++ s2.cursor.skip.ahead) := by
  obtain ⟨hcond, hsyms⟩ := expression_eq_ok_iff.1 hcond
  obtain ⟨first, hpeek, hfirst, ps, hps, hahead⟩ := ih.scopedBlock _ _ _ hbody
  obtain ⟨ts, hahead1, hspells⟩ := exists_spells hcond hpeek
  rw [hsyms] at hps
  exact ⟨ts, first, ps, hspells, hfirst, hps, by rw [hahead1, hahead]⟩

variable {t : Token} {ds : List VarDecl}

lemma ifStatement_laid {st : Stmt} (hpeek : s.cursor.peek? = some t) (hif : t.is .kwIf)
    (h : ifStatement (fuel + 1) s = .ok (st, s')) : LaidTo (.branch t) s [st] s' := by
  rw [ifStatement_eq] at h
  obtain ⟨⟨cond, s1⟩, hcond, h⟩ := bind_eq_ok.1 h
  obtain ⟨⟨yes, s2⟩, hyes, h⟩ := bind_eq_ok.1 h
  obtain ⟨ts, first, ps, hspells, hfirst, hps, hahead⟩ := guarded_laid ih hcond hyes
  have hstart := ahead_of_peek? hpeek
  simp only at h
  split at h
  · next helse =>
      obtain ⟨other, hpeek2, hother⟩ := peek?_of_sees helse
      obtain ⟨⟨no, s3⟩, hno, h⟩ := bind_eq_ok.1 h
      cases h
      obtain ⟨second, qs, hqs, hahead2⟩ := branch_laid ih hno
      refine ⟨_, .ifElse hif hspells hfirst hps hother hqs, ?_⟩
      have hmiddle := ahead_of_peek? hpeek2
      simp only [ParseState.skip] at hahead hahead2 hmiddle
      rw [hstart, hahead, hmiddle, hahead2]
      simp
  · cases h
    refine ⟨_, .ifOnly hif hspells hfirst hps, ?_⟩
    simp only [ParseState.skip] at hahead
    rw [hstart, hahead]
    simp

end

lemma ahead_of_semicolon (hpeek : s.cursor.peek? = some t)
    (hsees : s.cursor.skip.sees .semicolon) :
    ∃ close : Token, close.is .semicolon ∧
      s.cursor.ahead = spelt [.seen t, .seen close] ++ s.cursor.skip.skip.ahead := by
  obtain ⟨close, hpeek1, hclose⟩ := peek?_of_sees hsees
  refine ⟨close, hclose, ?_⟩
  rw [ahead_of_peek? hpeek, ahead_of_peek? hpeek1]
  rfl

lemma varDecls_laid (hpeek : s.cursor.peek? = some t)
    (hword : t.is .kwLet ∨ t.is .kwConst) (h : varDecls s = .ok (ds, s')) :
    ∃ ts close, Declares s.symbols (t :: ts) ds s'.symbols close ∧ close.is .semicolon ∧
      s.cursor.ahead = t :: ts ++ close :: s'.cursor.skip.ahead := by
  obtain ⟨ts, close, hahead, hnext, hclose, hds⟩ := exists_declares hpeek h
  have hstart := ahead_of_peek? hpeek
  have hend := ahead_of_peek? hnext
  rw [hstart, hend] at hahead
  cases ts with
  | nil =>
    obtain rfl : t = close := by injection hahead
    rcases hword with hword | hword <;>
      cases hclose.symm.trans (is_eq_false_of_ne hword (by decide))
  | cons t' ts =>
    obtain rfl : t = t' := by injection hahead
    exact ⟨ts, close, hds, hclose, hstart.trans hahead⟩

lemma decls_laid (hpeek : s.cursor.peek? = some t)
    (hword : t.is .kwLet ∨ t.is .kwConst) (h : varDecls s = .ok (ds, s')) :
    LaidTo .statement s (ds.map .decl) s' := by
  obtain ⟨ts, close, hds, hclose, hahead⟩ := varDecls_laid hpeek hword h
  refine ⟨_, .decls hword hclose hds, ?_⟩
  rw [hahead]
  simp

lemma value_laid {e : Expr} (h : s.expression = .ok (e, s')) (hlast : s'.cursor.peek? = some last) :
    s'.symbols = s.symbols ∧ ∃ t ts, Spells s.symbols (t :: ts) e last ∧
      s.cursor.ahead = t :: ts ++ last :: s'.cursor.skip.ahead := by
  obtain ⟨he, hsyms⟩ := expression_eq_ok_iff.1 h
  obtain ⟨ts, hahead, hspells⟩ := exists_spells he hlast
  obtain ⟨t, ts, rfl, -⟩ := hspells.first
  exact ⟨hsyms, t, ts, hspells, by rw [hahead, ahead_of_peek? hlast]⟩

lemma statement_laid (ih : LaysOut fuel) (hpeek : s.cursor.peek? = some t)
    (hclose : t.is .rightBrace = false) (h : statement (fuel + 1) t s = .ok (body, s'))
    (hlast : s'.cursor.peek? = some last) : LaidTo .statement s body s' := by
  have hstart := ahead_of_peek? hpeek
  rw [statement] at h
  split at h
  -- a block and a conditional
  · obtain ⟨first, -, -, ps, hps, hahead⟩ := ih.scopedBlock _ _ _ h
    exact ⟨ps, .branch hps, hahead⟩
  · next hk =>
      obtain ⟨⟨st, s1⟩, hst, h⟩ := bind_eq_ok.1 h
      cases h
      obtain ⟨ps, hps, hahead⟩ := ih.ifStatement _ _ _ _ hpeek (is_eq_true_iff.2 hk) hst
      exact ⟨ps, .branch hps, hahead⟩
  -- loops
  · next hk =>
      obtain ⟨⟨cond, s1⟩, hcond, h⟩ := bind_eq_ok.1 h
      obtain ⟨⟨body', s2⟩, hbody, h⟩ := bind_eq_ok.1 h
      cases h
      obtain ⟨ts, first, ps, hspells, hfirst, hps, hahead⟩ := guarded_laid ih hcond hbody
      refine ⟨_, .whileDo (is_eq_true_iff.2 hk) hspells hfirst hps, ?_⟩
      rw [hstart, ← cursor_skip, hahead]
      simp
  · next hk =>
      obtain ⟨⟨body', s1⟩, hbody, h⟩ := bind_eq_ok.1 h
      cases h
      obtain ⟨first, -, hfirst, ps, hps, hahead⟩ := ih.scopedBlock _ _ _ hbody
      refine ⟨_, .loop (is_eq_true_iff.2 hk) hfirst hps, ?_⟩
      rw [hstart, ← cursor_skip, hahead]
      rfl
  -- a return without a value looks at its semicolon, one with a value does not
  · next hk =>
      split at h
      · next hsees =>
          cases h
          obtain ⟨close, hclose, hahead⟩ := ahead_of_semicolon hpeek hsees
          exact ⟨_, .retNothing (is_eq_true_iff.2 hk) hclose, hahead⟩
      · next hsees =>
          obtain ⟨⟨e, s1⟩, he, h⟩ := bind_eq_ok.1 h
          cases h
          obtain ⟨hsyms, t1, ts, hspells, hahead⟩ := value_laid he hlast
          unfold LaidTo
          rw [hsyms]
          refine ⟨_, .ret (is_eq_true_iff.2 hk) ?_ hspells, ?_⟩
          · rw [← sees_of_ahead hahead]
            simpa using hsees
          · rw [hstart, ← cursor_skip, hahead]
            simp
  · next hk =>
      split at h
      · next hsees =>
          cases h
          obtain ⟨close, hclose, hahead⟩ := ahead_of_semicolon hpeek hsees
          exact ⟨_, .leaveLoop (is_eq_true_iff.2 hk) hclose, hahead⟩
      · exact absurd h want_ne_ok
  -- declarations
  case h_7 hk | h_8 hk =>
    obtain ⟨⟨ds, s1⟩, hds, h⟩ := bind_eq_ok.1 h
    cases h
    exact decls_laid hpeek (by simp [is_eq_true_iff, hk]) hds
  -- an expression
  · next hbrace _ _ _ _ _ _ _ =>
      obtain ⟨⟨e, s1⟩, he, h⟩ := bind_eq_ok.1 h
      cases h
      obtain ⟨hsyms, t1, ts, hspells, hahead⟩ := value_laid he hlast
      obtain rfl : t = t1 := by
        rw [hstart] at hahead
        injection hahead
      have hopen : t.is .leftBrace = false :=
        Bool.eq_false_iff.2 fun his => hbrace (is_eq_true_iff.1 his)
      unfold LaidTo
      rw [hsyms]
      refine ⟨_, .expr hopen hclose hspells, ?_⟩
      rw [hahead]
      simp

lemma laysOut (fuel : Nat) : LaysOut fuel := by
  induction fuel with
  | zero => refine ⟨?_, ?_, ?_, ?_, ?_⟩ <;> intros <;> contradiction
  | succ fuel ih =>
    exact ⟨fun _ _ _ => statements_laid ih, fun _ _ _ _ _ => statement_laid ih,
      fun _ _ _ => block_laid ih, fun _ _ _ => scopedBlock_laid ih,
      fun _ _ _ _ => ifStatement_laid ih⟩

/-- Declarations are laid out from a place to the end. -/
def LaidFrom (s : ParseState) (ds : List Decl) (σ : Symbols) : Prop :=
  ∃ ps, LaidOut s.symbols ds σ ps ∧ s.cursor.ahead = spelt ps

section

variable {rest : List Decl} {σ : Symbols} {t : Token}

lemma funcDecl_laid {f} (hpeek : s.cursor.peek? = some t) (hword : t.is .kwFn)
    (h : funcDecl s = .ok (f, s')) (hrest : LaidFrom s'.skip rest σ) :
    LaidFrom s (.func f :: rest) σ := by
  obtain ⟨qs, hrest, hahead⟩ := hrest
  rw [cursor_skip] at hahead
  obtain ⟨c, symbols⟩ := s
  rw [funcDecl_eq] at h
  obtain ⟨⟨head, s1⟩, hhead, h⟩ := bind_eq_ok.1 h
  obtain ⟨⟨body, s2⟩, hbody, h⟩ := bind_eq_ok.1 h
  cases h
  obtain ⟨first, hnext, hfirst, ps, close, hps, hahead2, hend, hclose⟩ :=
    (laysOut _).block _ _ _ hbody
  obtain ⟨ts, hahead1, hheads⟩ := replays_funcHead.reads hhead hnext
  refine ⟨_, .func hword hheads hfirst hps hclose hrest, ?_⟩
  change _ = _ ++ s1.cursor.ahead at hahead1
  rw [ahead_of_peek? hpeek, hahead1, ahead_of_peek? hnext,
    show s1.cursor.skip.ahead = _ from hahead2, ahead_of_peek? hend, hahead]
  simp

lemma vars_laid {ds} (hpeek : s.cursor.peek? = some t)
    (hword : t.is .kwLet ∨ t.is .kwConst) (h : varDecls s = .ok (ds, s'))
    (hrest : LaidFrom s'.skip rest σ) : LaidFrom s (ds.map .var ++ rest) σ := by
  obtain ⟨qs, hrest, hahead⟩ := hrest
  rw [cursor_skip] at hahead
  obtain ⟨ts, close, hds, hclose, hahead1⟩ := varDecls_laid hpeek hword h
  refine ⟨_, .vars hword hds hclose hrest, ?_⟩
  rw [hahead1, hahead]
  simp

end

lemma exists_laidOut (fuel : Nat) : ∀ {s s' : ParseState} {ds : List Decl},
    declarations fuel s = .ok (ds, s') → LaidFrom s ds s'.symbols := by
  induction fuel with
  | zero =>
    intro s s' ds h
    cases h
  | succ fuel ih =>
    intro s s' ds h
    rw [declarations] at h
    split at h
    · next hnone =>
        cases h
        exact ⟨[], .nil, head?_eq_none_iff.1 hnone⟩
    · next t hpeek =>
        split at h
        · next hk =>
            obtain ⟨⟨f, s1⟩, hfunc, h⟩ := bind_eq_ok.1 h
            obtain ⟨⟨rest, s2⟩, hrest, h⟩ := bind_eq_ok.1 h
            cases h
            exact funcDecl_laid hpeek (is_eq_true_iff.2 hk) hfunc (ih hrest)
        case h_2 hk | h_3 hk =>
          obtain ⟨⟨vars, s1⟩, hvars, h⟩ := bind_eq_ok.1 h
          obtain ⟨⟨rest, s2⟩, hrest, h⟩ := bind_eq_ok.1 h
          cases h
          exact vars_laid hpeek (by simp [is_eq_true_iff, hk]) hvars (ih hrest)
        · cases h

end

/-! ## What has a layout is read -/

/-- A conditional before these tokens is over. -/
def NoElse (rest : List Token) : Prop := ∀ t, rest.head? = some t → t.is .kwElse = false

/-- Neither a closing brace nor `else`: a statement may start with the token. -/
def Token.Starts (t : Token) : Prop := t.is .rightBrace = false ∧ t.is .kwElse = false

lemma Token.starts_of_is (h : t.is k) (hbrace : k ≠ .rightBrace) (helse : k ≠ .kwElse) : t.Starts :=
  ⟨is_eq_false_of_ne h hbrace, is_eq_false_of_ne h helse⟩

lemma Token.is_eq_false_of_opensOperand (h : t.opensOperand)
    (hk : (k.isUnary || k == .leftParen || k.startsCall) = false) : t.is k = false := by
  rw [Bool.eq_false_iff]
  intro his
  rw [opensOperand, is_eq_true_iff.1 his] at h
  cases h.symm.trans hk

section

variable {part : Part} {σ σ1 σ2 : Symbols} {body : List Stmt} {ps qs : List Place}

lemma Laid.starts (h : Laid part σ body σ1 ps) :
    part = .statements ∧ ps = [] ∨ ∃ p qs, ps = p :: qs ∧ p.token.Starts := by
  induction h with
  | nil => exact .inl ⟨rfl, rfl⟩
  | cons _ _ ihfirst _ =>
    obtain ⟨hpart, -⟩ | ⟨p, qs, rfl, hp⟩ := ihfirst
    · cases hpart
    · exact .inr ⟨p, _, rfl, hp⟩
  | expr _ hclose he =>
    obtain ⟨t, ts, heq, hopens⟩ := he.first
    cases heq
    exact .inr ⟨_, _, rfl, hclose, is_eq_false_of_opensOperand hopens rfl⟩
  | decls hword _ _ =>
    refine .inr ⟨_, _, rfl, ?_⟩
    rcases hword with hword | hword <;> exact starts_of_is hword (by decide) (by decide)
  | branch _ ih =>
    obtain ⟨hpart, -⟩ | hstarts := ih
    · cases hpart
    · exact .inr hstarts
  | ret hword | retNothing hword | leaveLoop hword | whileDo hword | loop hword | block hword
  | ifOnly hword | ifElse hword =>
    exact .inr ⟨_, _, rfl, starts_of_is hword (by decide) (by decide)⟩

variable {first close word : Token} {ts rest : List Token} {cond : Expr} {c : Cursor}

lemma Laid.eq_cons_of_branch (h : Laid (.branch first) σ body σ1 ps) :
    ∃ qs, ps = .seen first :: qs := by
  cases h <;> exact ⟨_, rfl⟩

lemma Laid.is_of_branch (h : Laid (.branch first) σ body σ1 ps) :
    first.is .leftBrace = true ∨ first.is .kwIf := by
  cases h with
  | block hfirst => exact .inl hfirst
  | ifOnly hword | ifElse hword => exact .inr hword

/-- What is laid out is read, whatever stands behind it as long as no `else` is taken along. -/
def ReadsPart : Part → Symbols → List Stmt → Symbols → List Place → Prop
  | .statements, σ, body, σ1, ps => ∀ fuel c close rest, 4 * ps.length < fuel →
      close.is .rightBrace → c.ahead = spelt ps ++ close :: rest →
      ∃ c', statements fuel ⟨c, σ⟩ = .ok (body, ⟨c', σ1⟩) ∧ c'.ahead = close :: rest
  | .statement, σ, body, σ1, ps => ∀ fuel c t rest, 4 * ps.length ≤ fuel → NoElse rest →
      c.peek? = some t → c.ahead = spelt ps ++ rest →
      ∃ c', statement fuel t ⟨c, σ⟩ = .ok (body, ⟨c', σ1⟩) ∧ c'.skip.ahead = rest
  | .branch first, σ, body, σ1, ps => ∀ fuel c rest, 4 * ps.length ≤ fuel + 1 →
      (first.is .kwIf = true → NoElse rest) → c.ahead = spelt ps ++ rest →
      ∃ c', branch fuel ⟨c, σ⟩ = .ok (body, ⟨c', σ1⟩) ∧ c'.skip.ahead = rest

lemma readsPart_nil : ReadsPart .statements σ [] σ [] := by
  intro fuel c close rest hfuel hclose hc
  obtain _ | fuel := fuel
  · omega
  refine ⟨c, ?_, hc⟩
  rw [statements]
  simp only [peek?_of_ahead hc, hclose, if_true]

lemma Laid.noElse (h : Laid .statements σ body σ1 ps) (hclose : close.is .rightBrace)
    (rest : List Token) : NoElse (spelt ps ++ close :: rest) := by
  intro t ht
  obtain ⟨-, rfl⟩ | ⟨p, qs, rfl, hp⟩ := h.starts
  · cases ht
    exact is_eq_false_of_ne hclose (by decide)
  · cases ht
    exact hp.2

lemma readsPart_cons {first rest} (hfirst : Laid .statement σ first σ1 ps)
    (hrest : Laid .statements σ1 rest σ2 qs) (ihfirst : ReadsPart .statement σ first σ1 ps)
    (ihrest : ReadsPart .statements σ1 rest σ2 qs) :
    ReadsPart .statements σ (first ++ rest) σ2 (ps ++ qs) := by
  intro fuel c close tokens hfuel hclose hc
  obtain _ | fuel := fuel
  · omega
  obtain ⟨hpart, -⟩ | ⟨p, ps, rfl, hp⟩ := hfirst.starts
  · cases hpart
  · rw [spelt_append, append_assoc] at hc
    simp only [length_append, length_cons] at hfuel
    have hpeek : c.peek? = some p.token := peek?_of_ahead hc
    obtain ⟨c1, hread1, hahead1⟩ := ihfirst fuel c p.token _ (by rw [length_cons]; omega)
      (hrest.noElse hclose tokens) hpeek hc
    obtain ⟨c2, hread2, hahead2⟩ := ihrest fuel c1.skip close tokens (by omega) hclose hahead1
    refine ⟨c2, ?_, hahead2⟩
    rw [statements]
    simp only [hpeek, hp.1]
    exact bind_eq_ok.2 ⟨_, hread1, bind_eq_ok.2 ⟨_, hread2, rfl⟩⟩

lemma readsPart_block (hfirst : first.is .leftBrace) (hclose : close.is .rightBrace)
    (ih : ReadsPart .statements σ.enter body σ1 ps) :
    ReadsPart (.branch first) σ body σ1.leave (.seen first :: (ps ++ [.seen close])) := by
  intro fuel c rest hfuel _ hc
  simp only [length_cons, length_append, length_nil] at hfuel
  obtain ⟨fuel, rfl⟩ : ∃ n, fuel = n + 2 := ⟨fuel - 2, by omega⟩
  have hc' : c.ahead = first :: (spelt ps ++ close :: rest) := by rw [hc]; simp
  obtain ⟨c', hread, hahead⟩ := ih fuel c.skip close rest (by omega) hclose
    (ahead_skip_of_ahead hc')
  refine ⟨c', ?_, ahead_skip_of_ahead hahead⟩
  rw [branch_block (peek?_of_ahead hc') hfirst, scopedBlock]
  refine bind_eq_ok.2 ⟨(body, ⟨c', σ1⟩), ?_, rfl⟩
  rw [block]
  exact bind_eq_ok.2 ⟨c.skip, expect_of_ahead hc' hfirst, hread⟩

lemma reads_guarded (hcond : Spells σ ts cond first) (hfirst : first.is .leftBrace)
    (hbody : Laid (.branch first) σ body σ1 ps) (ih : ReadsPart (.branch first) σ body σ1 ps)
    (fuel : Nat) (hfuel : 4 * ps.length ≤ fuel + 1) (hc : c.ahead = ts ++ (spelt ps ++ rest)) :
    ∃ c1 c2, (⟨c, σ⟩ : ParseState).expression = .ok (cond, ⟨c1, σ⟩) ∧
      scopedBlock fuel ⟨c1, σ⟩ = .ok (body, ⟨c2, σ1⟩) ∧ c2.skip.ahead = rest := by
  obtain ⟨qs, rfl⟩ := hbody.eq_cons_of_branch
  obtain ⟨c1, hread1, hahead1⟩ := hcond.expression hc
  obtain ⟨c2, hread2, hahead2⟩ := ih fuel c1 rest hfuel
    (fun hif => by rw [is_eq_false_of_ne hfirst (by decide)] at hif; cases hif) hahead1
  rw [branch_block (peek?_of_ahead hahead1) hfirst] at hread2
  exact ⟨c1, c2, hread1, hread2, hahead2⟩

lemma readsPart_ifOnly (hword : word.is .kwIf) (hcond : Spells σ ts cond first)
    (hfirst : first.is .leftBrace) (hyes : Laid (.branch first) σ body σ1 ps)
    (ih : ReadsPart (.branch first) σ body σ1 ps) :
    ReadsPart (.branch word) σ [.ifElse cond body []] σ1 (.seen word :: (ts.map .seen ++ ps)) := by
  intro fuel c rest hfuel hnoElse hc
  simp only [length_cons, length_append] at hfuel
  obtain _ | fuel := fuel
  · omega
  have hc' : c.ahead = word :: (ts ++ (spelt ps ++ rest)) := by rw [hc]; simp
  obtain ⟨c1, c2, hread1, hread2, hahead⟩ := reads_guarded hcond hfirst hyes ih fuel (by omega)
    (ahead_skip_of_ahead hc')
  have hover : c2.skip.sees .kwElse = false := by
    rw [sees_eq_any, Cursor.peek?, hahead, Option.any_eq_false]
    exact fun t ht => by simp [hnoElse hword t ht]
  refine ⟨c2, ?_, hahead⟩
  rw [branch_conditional (peek?_of_ahead hc') hword, ifStatement_eq]
  refine bind_eq_ok.2 ⟨(.ifElse cond body [], ⟨c2, σ1⟩), ?_, rfl⟩
  refine bind_eq_ok.2 ⟨_, hread1, bind_eq_ok.2 ⟨_, hread2, ?_⟩⟩
  simp only [cursor_skip, hover]
  rfl

lemma readsPart_ifElse {other second : Token} {no} (hword : word.is .kwIf)
    (hcond : Spells σ ts cond first) (hfirst : first.is .leftBrace)
    (hyes : Laid (.branch first) σ body σ1 ps) (hother : other.is .kwElse)
    (ihyes : ReadsPart (.branch first) σ body σ1 ps)
    (ihno : ReadsPart (.branch second) σ1 no σ2 qs) :
    ReadsPart (.branch word) σ [.ifElse cond body no] σ2
      (.seen word :: (ts.map .seen ++ (ps ++ .seen other :: qs))) := by
  intro fuel c rest hfuel hnoElse hc
  simp only [length_cons, length_append] at hfuel
  obtain _ | fuel := fuel
  · omega
  have hc' : c.ahead = word :: (ts ++ (spelt ps ++ other :: (spelt qs ++ rest))) := by rw [hc]; simp
  obtain ⟨c1, c2, hread1, hread2, hahead2⟩ := reads_guarded hcond hfirst hyes ihyes fuel (by omega)
    (ahead_skip_of_ahead hc')
  obtain ⟨c3, hread3, hahead3⟩ := ihno fuel c2.skip.skip rest (by omega) (fun _ => hnoElse hword)
    (ahead_skip_of_ahead hahead2)
  refine ⟨c3, ?_, hahead3⟩
  rw [branch_conditional (peek?_of_ahead hc') hword, ifStatement_eq]
  refine bind_eq_ok.2 ⟨(.ifElse cond body no, ⟨c3, σ2⟩), ?_, rfl⟩
  refine bind_eq_ok.2 ⟨_, hread1, bind_eq_ok.2 ⟨_, hread2, ?_⟩⟩
  simp only [cursor_skip, sees_of_ahead hahead2, hother, if_true]
  exact bind_eq_ok.2 ⟨_, hread3, rfl⟩

lemma readsPart_statement (word : Token) (ts : List Token) (hspelt : spelt ps = word :: ts)
    (hread : ∀ fuel c rest, 4 * ps.length ≤ fuel + 1 → NoElse rest →
      c.ahead = word :: (ts ++ rest) →
      ∃ c', statement (fuel + 1) word ⟨c, σ⟩ = .ok (body, ⟨c', σ1⟩) ∧ c'.skip.ahead = rest) :
    ReadsPart .statement σ body σ1 ps := by
  intro fuel c t rest hfuel hnoElse hpeek hc
  have hlen : ps.length ≠ 0 := by
    intro hzero
    rw [length_eq_zero_iff.1 hzero] at hspelt
    cases hspelt
  obtain _ | fuel := fuel
  · omega
  rw [hspelt, cons_append] at hc
  rw [peek?_of_ahead hc] at hpeek
  cases hpeek
  exact hread fuel c rest hfuel hnoElse hc

lemma readsPart_closed (hclose : close.is .semicolon)
    (hread : ∀ fuel (c : Cursor), c.skip.sees .semicolon →
      statement (fuel + 1) word ⟨c, σ⟩ = .ok (body, ⟨c.skip, σ⟩)) :
    ReadsPart .statement σ body σ [.seen word, .seen close] := by
  refine readsPart_statement word [close] rfl fun fuel c rest _ _ hc => ?_
  have hc' := ahead_skip_of_ahead hc
  exact ⟨c.skip, hread fuel c (by rw [sees_of_ahead hc', hclose]), ahead_skip_of_ahead hc'⟩

lemma Laid.readsPart (h : Laid part σ body σ1 ps) : ReadsPart part σ body σ1 ps := by
  induction h with
  | nil => exact readsPart_nil
  | cons hfirst hrest ihfirst ihrest => exact readsPart_cons hfirst hrest ihfirst ihrest
  | @expr σ t ts e close hopen _ he =>
    refine readsPart_statement t (ts ++ [close]) (by simp) fun fuel c rest _ _ hc => ?_
    obtain ⟨_, _, heq, hopens⟩ := he.first
    cases heq
    rw [append_assoc] at hc
    obtain ⟨c', hread, hahead⟩ := he.expression hc
    refine ⟨c', ?_, ahead_skip_of_ahead hahead⟩
    rw [statement_operand hopens hopen]
    exact bind_eq_ok.2 ⟨_, hread, rfl⟩
  | @ret σ word t ts e close hword hval he =>
    refine readsPart_statement word (t :: ts ++ [close]) (by simp) fun fuel c rest _ _ hc => ?_
    have hc' := ahead_skip_of_ahead hc
    rw [append_assoc] at hc'
    obtain ⟨c', hread, hahead⟩ := he.expression hc'
    refine ⟨c', ?_, ahead_skip_of_ahead hahead⟩
    rw [statement, is_eq_true_iff.1 hword]
    simp only [cursor_skip, sees_of_ahead hc', hval]
    exact bind_eq_ok.2 ⟨_, hread, rfl⟩
  | retNothing hword hclose | leaveLoop hword hclose =>
    refine readsPart_closed hclose fun fuel c hsees => ?_
    rw [statement, is_eq_true_iff.1 hword]
    exact if_pos hsees
  | @decls σ σ1 word ts ds close hword hclose hds =>
    refine readsPart_statement word (ts ++ [close]) (by simp) fun fuel c rest _ _ hc => ?_
    obtain ⟨c', hread, hahead⟩ := hds c rest (by rw [hc]; simp)
    refine ⟨c', ?_, ahead_skip_of_ahead hahead⟩
    rw [statement]
    rcases hword with hword | hword
    all_goals
      rw [is_eq_true_iff.1 hword]
      exact bind_eq_ok.2 ⟨_, hread, rfl⟩
  | @branch σ σ1 first body ps hbody ih =>
    obtain ⟨qs, rfl⟩ := hbody.eq_cons_of_branch
    refine readsPart_statement first (spelt qs) rfl fun fuel c rest hfuel hnoElse hc => ?_
    obtain ⟨c', hread, hahead⟩ := ih fuel c rest hfuel (fun _ => hnoElse) hc
    refine ⟨c', ?_, hahead⟩
    rwa [statement_branch (peek?_of_ahead hc) hbody.is_of_branch]
  | @whileDo σ σ1 word first ts cond body ps hword hcond hfirst hbody ih =>
    refine readsPart_statement word (ts ++ spelt ps) (by simp) fun fuel c rest hfuel _ hc => ?_
    simp only [length_cons, length_append] at hfuel
    rw [append_assoc] at hc
    obtain ⟨c1, c2, hread1, hread2, hahead⟩ := reads_guarded hcond hfirst hbody ih fuel (by omega)
      (ahead_skip_of_ahead hc)
    refine ⟨c2, ?_, hahead⟩
    rw [statement, is_eq_true_iff.1 hword]
    exact bind_eq_ok.2 ⟨_, hread1, bind_eq_ok.2 ⟨_, hread2, rfl⟩⟩
  | @loop σ σ1 word first body ps hword hfirst hbody ih =>
    refine readsPart_statement word (spelt ps) rfl fun fuel c rest hfuel hnoElse hc => ?_
    rw [length_cons] at hfuel
    have hc' := ahead_skip_of_ahead hc
    obtain ⟨c', hread, hahead⟩ := ih fuel c.skip rest (by omega) (fun _ => hnoElse) hc'
    obtain ⟨qs, rfl⟩ := hbody.eq_cons_of_branch
    rw [branch_block (peek?_of_ahead hc') hfirst] at hread
    refine ⟨c', ?_, hahead⟩
    rw [statement, is_eq_true_iff.1 hword]
    exact bind_eq_ok.2 ⟨_, hread, rfl⟩
  | block hfirst _ hclose ih => exact readsPart_block hfirst hclose ih
  | ifOnly hword hcond hfirst hyes ih => exact readsPart_ifOnly hword hcond hfirst hyes ih
  | ifElse hword hcond hfirst hyes hother _ ihyes ihno =>
    exact readsPart_ifElse hword hcond hfirst hyes hother ihyes ihno

lemma reads_funcDecl {head : String × List Param × VarType} (hhead : Heads σ ts head σ1 first)
    (hfirst : first.is .leftBrace) (hbody : Laid .statements σ1 body σ2 ps)
    (hclose : close.is .rightBrace)
    (hc : c.ahead = word :: (ts ++ first :: (spelt ps ++ close :: rest))) :
    ∃ c', funcDecl ⟨c, σ⟩ = .ok (funcOf head body σ2, ⟨c', σ2.leave.resetCount⟩) ∧
      c'.skip.ahead = rest := by
  have hlen : c.ahead.length = ts.length + ps.length + rest.length + 3 := by
    rw [hc]
    simp [spelt]
    omega
  obtain ⟨c1, hread1, hahead1⟩ := hhead (4 * c.ahead.length + 4) (by omega) c.skip _
    (ahead_skip_of_ahead hc)
  obtain ⟨c2, hread2, hahead2⟩ := hbody.readsPart (4 * c.ahead.length + 3) c1.skip close rest
    (by omega) hclose (ahead_skip_of_ahead hahead1)
  refine ⟨c2, ?_, ahead_skip_of_ahead hahead2⟩
  rw [funcDecl_eq]
  refine bind_eq_ok.2 ⟨_, hread1, bind_eq_ok.2 ⟨(body, ⟨c2, σ2⟩), ?_, rfl⟩⟩
  rw [block]
  exact bind_eq_ok.2 ⟨c1.skip, expect_of_ahead hahead1 hfirst, hread2⟩

lemma LaidOut.declarations {ds : List Decl} (h : LaidOut σ ds σ1 ps) (fuel : Nat)
    (c : Cursor) (hfuel : ps.length < fuel) (hc : c.ahead = spelt ps) :
    ∃ c', declarations fuel ⟨c, σ⟩ = .ok (ds, ⟨c', σ1⟩) := by
  induction h generalizing fuel c with
  | nil =>
    obtain _ | fuel := fuel
    · omega
    refine ⟨c, ?_⟩
    rw [Script.declarations, Cursor.peek?, hc]
    rfl
  | @func σ σ1 σ2 σ3 word first close ts head body rest ps qs hword hhead hfirst hbody hclose _
      ih =>
    simp only [length_cons, length_append] at hfuel
    obtain _ | fuel := fuel
    · omega
    have hc' : c.ahead = word :: (ts ++ first :: (spelt ps ++ close :: spelt qs)) := by
      rw [hc]
      simp
    obtain ⟨c1, hread1, hahead1⟩ := reads_funcDecl hhead hfirst hbody hclose hc'
    obtain ⟨c2, hread2⟩ := ih fuel c1.skip (by omega) hahead1
    refine ⟨c2, ?_⟩
    rw [Script.declarations, peek?_of_ahead hc']
    simp only [is_eq_true_iff.1 hword]
    exact bind_eq_ok.2 ⟨_, hread1, bind_eq_ok.2 ⟨_, hread2, rfl⟩⟩
  | @vars σ σ1 σ2 word close ts ds rest qs hword hds _ _ ih =>
    simp only [length_cons, length_append] at hfuel
    obtain _ | fuel := fuel
    · omega
    have hc' : c.ahead = word :: ts ++ close :: spelt qs := by
      rw [hc]
      simp
    obtain ⟨c1, hread1, hahead1⟩ := hds c _ hc'
    obtain ⟨c2, hread2⟩ := ih fuel c1.skip (by omega) (ahead_skip_of_ahead hahead1)
    refine ⟨c2, ?_⟩
    rw [Script.declarations, peek?_of_ahead hc']
    rcases hword with hword | hword
    all_goals
      simp only [is_eq_true_iff.1 hword]
      exact bind_eq_ok.2 ⟨_, hread1, bind_eq_ok.2 ⟨_, hread2, rfl⟩⟩

lemma Program.ofTokens_eq_ok_iff {tokens p symbols} :
    Program.ofTokens tokens = .ok (p, symbols) ↔
      ∃ ps, LaidOut .empty p.decls symbols ps ∧ spelt ps = tokens := by
  unfold Program.ofTokens
  constructor
  · intro h
    obtain ⟨⟨decls, s⟩, hread, h⟩ := bind_eq_ok.1 h
    cases h
    obtain ⟨ps, hps, hahead⟩ := exists_laidOut _ hread
    exact ⟨ps, hps, hahead.symm⟩
  · rintro ⟨ps, hps, rfl⟩
    obtain ⟨c, hread⟩ := hps.declarations ((spelt ps).length + 1) (.start (spelt ps))
      (by simp [spelt]) rfl
    exact bind_eq_ok.2 ⟨_, hread, rfl⟩

end

end ArmStudio.Script
