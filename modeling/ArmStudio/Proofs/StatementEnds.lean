import ArmStudio.Proofs.UniqueLayout
import Mathlib.Data.List.Forall2

/-!
# What stands behind a statement

Behind every expression statement and every return with a value one token is stepped over. It need
not be a semicolon: it is not looked at, and other tokens in its place give the same program.
-/

namespace ArmStudio.Script

open Code List Place Program

mutual

/-- How many expressions and returns with a value there are in a statement. -/
def Stmt.closers : Stmt → Nat
  | .expr _ => 1
  | .ret value => value.toList.length
  | .ifElse _ yes no => bodyClosers yes + bodyClosers no
  | .whileDo _ body => bodyClosers body
  | .loop body => bodyClosers body
  | .decl _ | .leaveLoop | .blank => 0

def bodyClosers : List Stmt → Nat
  | [] => 0
  | st :: rest => st.closers + bodyClosers rest

end

def Decl.closers : Decl → Nat
  | .var _ => 0
  | .func f => bodyClosers f.body

def declClosers : List Decl → Nat
  | [] => 0
  | d :: rest => d.closers + declClosers rest

def Program.closers (p : Program) : Nat := declClosers p.decls

lemma bodyClosers_append (xs ys : List Stmt) :
    bodyClosers (xs ++ ys) = bodyClosers xs + bodyClosers ys := by
  induction xs with
  | nil => simp [bodyClosers]
  | cons st rest ih => simp only [cons_append, bodyClosers, ih, add_assoc]

lemma bodyClosers_decls (ds : List VarDecl) : bodyClosers (ds.map .decl) = 0 := by
  induction ds with
  | nil => rfl
  | cons d rest ih => simp only [map_cons, bodyClosers, Stmt.closers, ih]

lemma declClosers_vars (ds : List VarDecl) (rest : List Decl) :
    declClosers (ds.map .var ++ rest) = declClosers rest := by
  induction ds with
  | nil => rfl
  | cons d ds ih => simp only [map_cons, cons_append, declClosers, Decl.closers, ih, zero_add]

section

variable {part : Part} {σ σ1 : Symbols} {body : List Stmt} {ps qs : List Place}

lemma Laid.countP_passed (h : Laid part σ body σ1 ps) :
    ps.countP isPassed = bodyClosers body := by
  induction h with
  | nil => rfl
  | cons _ _ ihfirst ihrest => rw [countP_append, bodyClosers_append, ihfirst, ihrest]
  | expr | ret | retNothing | leaveLoop =>
    simp [bodyClosers, Stmt.closers, countP_cons, isPassed]
  | decls => simp [bodyClosers_decls, isPassed]
  | branch _ ih => exact ih
  | block _ _ _ ih => simp [isPassed, ih]
  | whileDo _ _ _ _ ih | loop _ _ _ ih | ifOnly _ _ _ _ ih =>
    simp [bodyClosers, Stmt.closers, isPassed, ih]
  | ifElse _ _ _ _ _ _ ihyes ihno => simp [bodyClosers, Stmt.closers, isPassed, ihyes, ihno]

lemma LaidOut.countP_passed {ds} (h : LaidOut σ ds σ1 ps) :
    ps.countP isPassed = declClosers ds := by
  induction h with
  | nil => rfl
  | func _ _ _ hbody _ _ ih =>
    simp [isPassed, hbody.countP_passed, ih, declClosers, Decl.closers, funcOf]
  | vars _ _ _ _ ih =>
    rw [declClosers_vars, ← ih]
    simp [isPassed]

end

/-! ## Other tokens in the places of closers -/

namespace Place

/-- What may stand in a place instead. -/
inductive Fills : Place → Place → Prop
  | same (p : Place) : Fills p p
  | stop {t t' : Token} (h : t'.stops) : Fills (passed t) (passed t')
  | operator {t t' : Token} (h : t.isOperator) : Fills (passed t) (passed t')

lemma fills_seen_iff {t : Token} {q : Place} : Fills (seen t) q ↔ q = seen t := by
  constructor
  · rintro ⟨⟩
    rfl
  · rintro rfl
    exact .same _

end Place

open Place (Fills)

section

variable {part : Part} {σ σ1 : Symbols} {body : List Stmt} {ps qs rs : List Place} {ts : List Token}

lemma forall₂_fills_seen_cons {t : Token} (h : Forall₂ Fills (.seen t :: ps) qs) :
    ∃ qs', qs = .seen t :: qs' ∧ Forall₂ Fills ps qs' := by
  obtain ⟨q, qs', hq, hqs, rfl⟩ := forall₂_cons_left_iff.1 h
  exact ⟨qs', by rw [fills_seen_iff.1 hq], hqs⟩

lemma forall₂_fills_append (h : Forall₂ Fills (ps ++ qs) rs) :
    ∃ ps' qs', rs = ps' ++ qs' ∧ Forall₂ Fills ps ps' ∧ Forall₂ Fills qs qs' := by
  induction ps generalizing rs with
  | nil => exact ⟨[], rs, rfl, .nil, h⟩
  | cons p ps ih =>
    obtain ⟨r, rs', hr, hrs, rfl⟩ := forall₂_cons_left_iff.1 h
    obtain ⟨ps', qs', rfl, hps, hqs⟩ := ih hrs
    exact ⟨r :: ps', qs', rfl, .cons hr hps, hqs⟩

lemma forall₂_fills_seen_append (h : Forall₂ Fills (ts.map .seen ++ ps) qs) :
    ∃ qs', qs = ts.map .seen ++ qs' ∧ Forall₂ Fills ps qs' := by
  induction ts generalizing qs with
  | nil => exact ⟨qs, rfl, h⟩
  | cons t ts ih =>
    obtain ⟨rs, rfl, hrs⟩ := forall₂_fills_seen_cons h
    obtain ⟨qs', rfl, hqs⟩ := ih hrs
    exact ⟨qs', rfl, hqs⟩

lemma forall₂_fills_seen (ts : List Token) (h : Forall₂ Fills (ts.map .seen) qs) :
    qs = ts.map .seen := by
  rw [← append_nil (ts.map _)] at h
  obtain ⟨qs', rfl, hqs⟩ := forall₂_fills_seen_append h
  rw [forall₂_nil_left_iff.1 hqs, append_nil]

lemma Spells.fills {e : Expr} {close : Token} (h : Spells σ ts e close)
    (hfill : Forall₂ Fills [.passed close] qs) :
    ∃ close', qs = [.passed close'] ∧ Spells σ ts e close' := by
  obtain ⟨q, qs', hq, hqs, rfl⟩ := forall₂_cons_left_iff.1 hfill
  obtain rfl := forall₂_nil_left_iff.1 hqs
  cases hq with
  | same => exact ⟨close, rfl, h⟩
  | stop hstops => exact ⟨_, rfl, h.fill (.inl hstops)⟩
  | operator hoperator => exact ⟨_, rfl, h.fill (.inr hoperator)⟩

lemma Laid.fill (h : Laid part σ body σ1 ps)
    (hfill : Forall₂ Fills ps qs) : Laid part σ body σ1 qs := by
  induction h generalizing qs with
  | nil =>
    obtain rfl := forall₂_nil_left_iff.1 hfill
    exact .nil
  | cons _ _ ihfirst ihrest =>
    obtain ⟨ps', qs', rfl, hps, hqs⟩ := forall₂_fills_append hfill
    exact .cons (ihfirst hps) (ihrest hqs)
  | expr hopen hclose he =>
    obtain ⟨qs', rfl, hqs⟩ := forall₂_fills_seen_append hfill
    obtain ⟨close', rfl, he'⟩ := he.fills hqs
    exact .expr hopen hclose he'
  | ret hword hval he =>
    obtain ⟨rs, rfl, hrs⟩ := forall₂_fills_seen_cons hfill
    obtain ⟨qs', rfl, hqs⟩ := forall₂_fills_seen_append hrs
    obtain ⟨close', rfl, he'⟩ := he.fills hqs
    exact .ret hword hval he'
  | @retNothing _ word close hword hclose | @leaveLoop _ word close hword hclose =>
    obtain rfl := forall₂_fills_seen [word, close] hfill
    first | exact .retNothing hword hclose | exact .leaveLoop hword hclose
  | @decls _ _ word ts ds close hword hclose hds =>
    obtain ⟨qs', rfl, hqs⟩ := forall₂_fills_seen_append hfill
    obtain rfl := forall₂_fills_seen [close] hqs
    exact .decls hword hclose hds
  | branch _ ih => exact .branch (ih hfill)
  | whileDo hword hcond hfirst _ ih | ifOnly hword hcond hfirst _ ih =>
    obtain ⟨rs, rfl, hrs⟩ := forall₂_fills_seen_cons hfill
    obtain ⟨qs', rfl, hqs⟩ := forall₂_fills_seen_append hrs
    first
      | exact .whileDo hword hcond hfirst (ih hqs)
      | exact .ifOnly hword hcond hfirst (ih hqs)
  | loop hword hfirst _ ih =>
    obtain ⟨rs, rfl, hrs⟩ := forall₂_fills_seen_cons hfill
    exact .loop hword hfirst (ih hrs)
  | @block _ _ first close body ps hfirst _ hclose ih =>
    obtain ⟨rs, rfl, hrs⟩ := forall₂_fills_seen_cons hfill
    obtain ⟨ps', qs', rfl, hps, hqs⟩ := forall₂_fills_append hrs
    obtain rfl := forall₂_fills_seen [close] hqs
    exact .block hfirst (ih hps) hclose
  | ifElse hword hcond hfirst _ hother _ ihyes ihno =>
    obtain ⟨rs, rfl, hrs⟩ := forall₂_fills_seen_cons hfill
    obtain ⟨rs', rfl, hrs'⟩ := forall₂_fills_seen_append hrs
    obtain ⟨ps', qs', rfl, hps, hqs⟩ := forall₂_fills_append hrs'
    obtain ⟨qs'', rfl, hqs'⟩ := forall₂_fills_seen_cons hqs
    exact .ifElse hword hcond hfirst (ihyes hps) hother (ihno hqs')

lemma LaidOut.fill {ds : List Decl} (h : LaidOut σ ds σ1 ps)
    (hfill : Forall₂ Fills ps qs) : LaidOut σ ds σ1 qs := by
  induction h generalizing qs with
  | nil =>
    obtain rfl := forall₂_nil_left_iff.1 hfill
    exact .nil
  | func hword hhead hfirst hbody hclose _ ih =>
    obtain ⟨rs1, rfl, hrs1⟩ := forall₂_fills_seen_cons hfill
    obtain ⟨rs2, rfl, hrs2⟩ := forall₂_fills_seen_append hrs1
    obtain ⟨rs3, rfl, hrs3⟩ := forall₂_fills_seen_cons hrs2
    obtain ⟨ps', rs4, rfl, hps, hrs4⟩ := forall₂_fills_append hrs3
    obtain ⟨qs', rfl, hqs⟩ := forall₂_fills_seen_cons hrs4
    exact .func hword hhead hfirst (hbody.fill hps) hclose (ih hqs)
  | vars hword hds hclose _ ih =>
    obtain ⟨rs, rfl, hrs⟩ := forall₂_fills_seen_append hfill
    obtain ⟨qs', rfl, hqs⟩ := forall₂_fills_seen_cons hrs
    exact .vars hword hds hclose (ih hqs)

end

/-- A program is read from tokens exactly if they lay it out, and they do so in one way. Each of its
expression statements and returns with a value is closed by one token that is not looked at:
whatever stops an expression may stand there, and anything at all in the place of an operator, and
the program is the same. -/
theorem Program.ofTokens_closers (tokens : List Token) (p : Program) (symbols : Symbols) :
    (ofTokens tokens = .ok (p, symbols) ↔
      ∃! ps, LaidOut .empty p.decls symbols ps ∧ spelt ps = tokens) ∧
    ∀ ps, LaidOut .empty p.decls symbols ps → ps.countP isPassed = p.closers ∧
      ∀ qs, Forall₂ Fills ps qs → ofTokens (spelt qs) = .ok (p, symbols) := by
  refine ⟨⟨fun h => ?_, fun h => ofTokens_eq_ok_iff.2 h.exists⟩, fun ps hps => ?_⟩
  · obtain ⟨ps, hps, hspelt⟩ := ofTokens_eq_ok_iff.1 h
    exact ⟨ps, ⟨hps, hspelt⟩, fun qs hqs => hqs.1.unique hps (hqs.2.trans hspelt.symm)⟩
  · refine ⟨hps.countP_passed, fun qs hfill => ?_⟩
    exact ofTokens_eq_ok_iff.2 ⟨qs, hps.fill hfill, rfl⟩

/-- The same place with another token, if the one there is not looked at. -/
def Place.put (t : Token) : Place → Place
  | seen s => seen s
  | passed _ => passed t

lemma forall₂_fills_put {t : Token} (ht : t.stops) (ps : List Place) :
    Forall₂ Fills ps (ps.map (put t)) := by
  induction ps with
  | nil => exact .nil
  | cons p rest ih =>
    refine .cons ?_ ih
    cases p with
    | seen s => exact .same _
    | passed s => exact .stop ht

/-- A function of one line whose body is `1 2`, without any semicolon. -/
def unclosed : List Token :=
  [.keyword .kwFn, .name "main", .keyword .leftParen, .keyword .rightParen, .keyword .leftBrace,
    .int 1, .int 2, .keyword .rightBrace].map fun lexeme => ⟨lexeme, 1⟩

/-- The body is the statement `1`, and the token behind it is no semicolon. With a semicolon in its
place the program is the same. -/
theorem ofTokens_closers_unclosed : ∃ symbols ps,
    let p : Program := ⟨[.func ⟨"main", [], .void, [.expr (.literal (.int 1))], 0⟩]⟩
    ofTokens unclosed = .ok (p, symbols) ∧ LaidOut .empty p.decls symbols ps ∧
      spelt ps = unclosed ∧ (∃ q ∈ ps, q.isPassed = true ∧ q.token.is .semicolon = false) ∧
      ofTokens (spelt (ps.map (put ⟨.keyword .semicolon, 1⟩))) = .ok (p, symbols) := by
  obtain ⟨symbols, hread⟩ : ∃ symbols, ofTokens unclosed =
      .ok (⟨[.func ⟨"main", [], .void, [.expr (.literal (.int 1))], 0⟩]⟩, symbols) := ⟨_, rfl⟩
  obtain ⟨hiff, hlaid⟩ := ofTokens_closers unclosed _ symbols
  obtain ⟨ps, hps, hspelt⟩ := (hiff.1 hread).exists
  obtain ⟨hcount, hfill⟩ := hlaid ps hps
  refine ⟨symbols, ps, hread, hps, hspelt, ?_, hfill _ (forall₂_fills_put (by decide) ps)⟩
  have hpos : 0 < ps.countP isPassed := by
    rw [hcount]
    decide
  obtain ⟨q, hq, hpass⟩ := countP_pos_iff.1 hpos
  have hno : ∀ t ∈ unclosed, t.is .semicolon = false := by decide
  exact ⟨q, hq, hpass, hno _ (hspelt ▸ mem_map_of_mem hq)⟩

end ArmStudio.Script
