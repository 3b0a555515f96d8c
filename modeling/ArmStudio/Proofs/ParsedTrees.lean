import ArmStudio.Proofs.Contexts
import ArmStudio.Proofs.Layout

/-!
# What the parser leaves

Trees that were parsed, and the symbols that were declared on the way.
-/

namespace ArmStudio.Script

open List Scopes

/-- A symbol as the declaration of a variable makes it. -/
def Symbol.IsVar (s : Symbol) : Prop := ∃ t isConst, s = .ofVar t isConst

/-- A symbol that a declaration makes. -/
def Symbol.IsDeclared (s : Symbol) : Prop :=
  s.IsVar ∨ ∃ params result, s = .ofFunction params result

lemma Symbol.isVar_ofVar (t : VarType) (isConst : Bool) : (Symbol.ofVar t isConst).IsVar :=
  ⟨t, isConst, rfl⟩

/-- All symbols are made by declarations, and functions are global. -/
structure Sound (symbols : Symbols) : Prop where
  outer : ∀ x symbol, symbols.outer.find? x = some symbol → symbol.IsDeclared
  inner : ∀ t ∈ symbols.inner, ∀ x symbol, t.find? x = some symbol → symbol.IsVar

variable {α : Type} {before after symbols : Symbols} {st : Stmt} {tokens : List Token} {p : Program}

lemma findFirst_mem {x : String} {v : α} {ts}
    (h : findFirst x ts = some v) : ∃ t ∈ ts, t.find? x = some v := by
  induction ts with
  | nil => cases h
  | cons t rest ih =>
    cases ht : t.find? x with
    | some w =>
      simp only [findFirst, ht, Option.orElse_some, Option.some.injEq] at h
      exact ⟨t, by simp, by rw [ht, h]⟩
    | none =>
      simp only [findFirst, ht, Option.orElse_none] at h
      obtain ⟨t', hmem, hfind⟩ := ih h
      exact ⟨t', by simp [hmem], hfind⟩

lemma find?_insert_forall {P : α → Prop} {t : Table α} (ht : ∀ x v, t.find? x = some v → P v)
    {name} {info : α} (hinfo : P info) :
    ∀ x v, (t.insert name info).find? x = some v → P v := by
  intro x v hx
  rw [Table.find?_insert] at hx
  split at hx
  · rw [Option.some.injEq] at hx
    exact hx ▸ hinfo
  · exact ht x v hx

namespace Sound

variable {symbols : Symbols} (h : Sound symbols)

include h

lemma lookup? {x : String} {symbol : Symbol} (hx : symbols.lookup? x = some symbol) :
    symbol.IsVar ∨ (∃ params result, symbol = .ofFunction params result) ∧
      symbols.outer.find? x = some symbol := by
  rw [lookup?_eq] at hx
  rcases Option.or_eq_some_iff.1 hx with hinner | ⟨_, houter⟩
  · obtain ⟨t, ht, hfind⟩ := findFirst_mem hinner
    exact .inl (h.inner t ht x symbol hfind)
  · rcases h.outer x symbol houter with hvar | hfunc
    · exact .inl hvar
    · exact .inr ⟨hfunc, houter⟩

lemma enter : Sound symbols.enter := by exact ⟨h.outer, forall_mem_cons.2 ⟨by simp, h.inner⟩⟩

lemma leave : Sound symbols.leave := ⟨h.outer, fun t ht => h.inner t (mem_of_mem_tail ht)⟩

end Sound

/-! ## Formed trees -/

/-- An expression of a form that the grammar has, whose names carry declared symbols. -/
inductive Expr.Formed (symbols : Symbols) : Expr → Prop
  | literal (v : Value) : Formed symbols (.literal v)
  | unary {op : Keyword} {e} (hop : op.isUnary) (he : Formed symbols e) :
      Formed symbols (.unary op e)
  | convert {e : Expr} (t : VarType) (he : Formed symbols e) : Formed symbols (e.convert t)
  | binary {op : Keyword} {a b} (hop : op.isBinary) (hcast : op ≠ .kwAs)
      (ha : Formed symbols a) (hb : Formed symbols b) : Formed symbols (.binary op a b)
  | var (name : String) (t : VarType) (isConst : Bool) :
      Formed symbols (.var name (.ofVar t isConst))
  | call {func params result args}
      (hfunc : symbols.outer.find? func = some (.ofFunction params result))
      (hargs : ∀ a ∈ args, Formed symbols a) :
      Formed symbols (.call func (.ofFunction params result) args)
  | sysCall {func : Keyword} {args} (hfunc : func.startsCall ∧ func ≠ .leftParen)
      (hargs : ∀ a ∈ args, Formed symbols a) : Formed symbols (.sysCall func args)

/-- A statement of a form that the grammar has, all of whose expressions satisfy `P`. -/
inductive Stmt.Each (P : Expr → Prop) : Stmt → Prop
  | expr {e : Expr} (he : P e) : Each P (.expr e)
  | decl {d : VarDecl} (hd : ∀ e ∈ d.init, P e) : Each P (.decl d)
  | ifElse {cond : Expr} {yes no : List Stmt} (hcond : P cond) (hyes : ∀ st ∈ yes, Each P st)
      (hno : ∀ st ∈ no, Each P st) : Each P (.ifElse cond yes no)
  | whileDo {cond : Expr} {body : List Stmt} (hcond : P cond) (hbody : ∀ st ∈ body, Each P st) :
      Each P (.whileDo cond body)
  | loop {body : List Stmt} (hbody : ∀ st ∈ body, Each P st) : Each P (.loop body)
  | ret {value : Option Expr} (hval : ∀ e ∈ value, P e) : Each P (.ret value)
  | leaveLoop : Each P .leaveLoop

/-- A statement of a form that the grammar has. -/
abbrev Stmt.Formed (symbols : Symbols) : Stmt → Prop := Stmt.Each (Expr.Formed symbols)

/-- Every symbol of the global scope is still there. -/
def KeepsOuter (before after : Symbols) : Prop :=
  ∀ x symbol, before.outer.find? x = some symbol → after.outer.find? x = some symbol

lemma Expr.Formed.mono (hkeeps : KeepsOuter before after) {e : Expr} (h : e.Formed before) :
    e.Formed after := by
  induction h with
  | literal v => exact .literal v
  | unary hop _ ih => exact .unary hop ih
  | convert t _ ih => exact .convert t ih
  | binary hop hcast _ _ iha ihb => exact .binary hop hcast iha ihb
  | var name t isConst => exact .var name t isConst
  | call hfunc _ ih => exact .call (hkeeps _ _ hfunc) ih
  | sysCall hfunc _ ih => exact .sysCall hfunc ih

lemma Stmt.Each.imp {P Q} (hPQ : ∀ e, P e → Q e) (h : st.Each P) : st.Each Q := by
  induction h with
  | expr he => exact .expr (hPQ _ he)
  | decl hd => exact .decl fun e he => hPQ e (hd e he)
  | ifElse hcond _ _ ihyes ihno => exact .ifElse (hPQ _ hcond) ihyes ihno
  | whileDo hcond _ ih => exact .whileDo (hPQ _ hcond) ih
  | loop _ ih => exact .loop ih
  | ret hval => exact .ret fun e he => hPQ e (hval e he)
  | leaveLoop => exact .leaveLoop

lemma Stmt.Formed.mono (hkeeps : KeepsOuter before after) (h : st.Formed before) :
    st.Formed after :=
  Each.imp (fun _ he => he.mono hkeeps) h

/-! ## Growing scopes -/

/-- What parsing does to the scopes: the global one gets the names `names`, for variables and for
the functions `funcs`, and those around the innermost stay. -/
structure Grows (before after : Symbols) (names funcs : List String) : Prop where
  outer : after.outer.names = before.outer.names ++ names
  keeps : KeepsOuter before after
  known : ∀ x symbol, after.outer.find? x = some symbol →
    before.outer.find? x = some symbol ∨ symbol.IsVar ∨ x ∈ funcs
  nodup : before.outer.names.Nodup → after.outer.names.Nodup
  around : after.inner.tail = before.inner.tail
  depth : after.inner.length = before.inner.length
  sound : Sound before → Sound after

namespace Grows

variable {s s1 s2 : Symbols} {xs ys fs gs : List String}

lemma refl (s : Symbols) : Grows s s [] [] :=
  ⟨by simp, fun _ _ h => h, fun _ _ h => .inl h, fun h => h, rfl, rfl, fun h => h⟩

lemma trans (h : Grows s s1 xs fs) (h' : Grows s1 s2 ys gs) : Grows s s2 (xs ++ ys) (fs ++ gs) := by
  refine ⟨by rw [h'.outer, h.outer, append_assoc],
    fun x symbol hx => h'.keeps x symbol (h.keeps x symbol hx), ?_, fun hn => h'.nodup (h.nodup hn),
    h'.around.trans h.around, h'.depth.trans h.depth, fun hd => h'.sound (h.sound hd)⟩
  intro x symbol hx
  rcases h'.known x symbol hx with hx | hvar | hfunc
  · rcases h.known x symbol hx with hx | hvar | hfunc
    · exact .inl hx
    · exact .inr (.inl hvar)
    · exact .inr (.inr (mem_append_left gs hfunc))
  · exact .inr (.inl hvar)
  · exact .inr (.inr (mem_append_right fs hfunc))

lemma leave (h : Grows s.enter s1 xs fs) : Grows s s1.leave xs fs := by
  have hinner : s1.leave.inner = s.inner := h.around
  exact ⟨h.outer, h.keeps, h.known, h.nodup, by rw [hinner], by rw [hinner],
    fun hd => (h.sound hd.enter).leave⟩

lemma resetCount (h : Grows s s1 xs fs) : Grows s s1.resetCount xs fs :=
  ⟨h.outer, h.keeps, h.known, h.nodup, h.around, h.depth,
    fun hd => ⟨(h.sound hd).outer, (h.sound hd).inner⟩⟩

lemma inner_ne_nil (h : Grows s s1 xs fs) (hs : s.inner ≠ []) : s1.inner ≠ [] := by
  rwa [← length_pos_iff, h.depth, length_pos_iff]

lemma isEmpty_eq (h : Grows s s1 xs fs) : s1.inner.isEmpty = s.inner.isEmpty := by
  rw [Bool.eq_iff_iff, isEmpty_iff_length_eq_zero, isEmpty_iff_length_eq_zero, h.depth]

variable {name : String} {info : Symbol}

lemma of_insert (hinfo : info.IsDeclared) (hvar : info.IsVar ∨ name ∈ fs)
    (hfree : s.isDefined name = false) (houter : s1.outer = s.outer.insert name info)
    (hinner : s1.inner = s.inner) : Grows s s1 [name] fs := by
  have hnone : s.outer.find? name = none := by
    have hlookup := (isDefined_eq_false s name).1 hfree
    rw [lookup?_eq] at hlookup
    exact (Option.or_eq_none_iff.1 hlookup).2
  have hnew : name ∉ s.outer.names := (Table.find?_eq_none_iff _ _).1 hnone
  have hnames : s1.outer.names = s.outer.names ++ [name] := by
    rw [houter, Table.names_insert_of_not_mem _ _ hnew]
  refine ⟨hnames, ?_, ?_, ?_, by rw [hinner], by rw [hinner], ?_⟩
  · intro x symbol hx
    have hne : name ≠ x := by
      intro heq
      rw [← heq, hnone] at hx
      cases hx
    rwa [houter, Table.find?_insert_of_ne _ _ hne]
  · intro x symbol hx
    rw [houter, Table.find?_insert] at hx
    split at hx
    · next heq =>
        rw [Option.some.injEq] at hx
        exact .inr (hx ▸ heq ▸ hvar)
    · exact .inl hx
  · intro hn
    rw [hnames, nodup_append]
    refine ⟨hn, by simp, ?_⟩
    rintro x hx y hy rfl
    rw [mem_singleton] at hy
    exact hnew (hy ▸ hx)
  · intro hd
    refine ⟨?_, by rw [hinner]; exact hd.inner⟩
    rw [houter]
    exact find?_insert_forall hd.outer hinfo

lemma declareGlobal (hinfo : info.IsDeclared) (hvar : info.IsVar ∨ name ∈ fs)
    (hfresh : (s.declareGlobal name info).1) :
    Grows s (s.declareGlobal name info).2 [name] fs := by
  cases hd : s.isDefined name with
  | true => simp [declareGlobal_of_defined s info hd] at hfresh
  | false =>
    simp only [Scopes.declareGlobal, hd]
    exact of_insert hinfo hvar hd rfl rfl

lemma declareLocal_inner (name : String) (hinfo : info.IsVar) (hinner : s.inner ≠ []) :
    Grows s (s.declareLocal name info).2 [] [] := by
  cases hd : s.isDefined name with
  | true =>
    rw [declareLocal_of_defined s info hd]
    exact .refl s
  | false =>
    obtain ⟨outer, _ | ⟨first, rest⟩, count⟩ := s
    · exact absurd rfl hinner
    · have hdecl : (declareLocal ⟨outer, first :: rest, count⟩ name info).2 =
          ⟨outer, first.insert name info :: rest, count + 1⟩ := by
        simp [declareLocal, hd]
      rw [hdecl]
      refine ⟨by simp, fun _ _ hx => hx, fun _ _ hx => .inl hx, fun hn => hn, rfl, rfl, fun h => ?_⟩
      exact ⟨h.outer, forall_mem_cons.2
        ⟨find?_insert_forall (h.inner first (by simp)) hinfo, fun t ht => h.inner t (by simp [ht])⟩⟩

lemma declareLocal_outer (hinfo : info.IsVar) (hinner : s.inner = [])
    (hfresh : (s.declareLocal name info).1) :
    Grows s (s.declareLocal name info).2 [name] [] := by
  cases hd : s.isDefined name with
  | true => simp [declareLocal_of_defined s info hd] at hfresh
  | false =>
    have hdecl : (s.declareLocal name info).2 =
        { s with outer := s.outer.insert name info, localCount := s.localCount + 1 } := by
      simp [declareLocal, hd, hinner]
    rw [hdecl]
    exact of_insert (.inl hinfo) (.inl hinfo) hd rfl rfl

end Grows

/-! ## Expressions -/

open Code

section

variable {symbols symbols' σ σ1 before after : Symbols} {e : Expr} {ts : List Token} {next : Token}
  {d : VarDecl} {s s' : ParseState} {isConst : Bool} {ds : List VarDecl} {ps : List Place}
  {body : List Stmt} {head : String × List Param × VarType}

lemma IsAtom.formed (hsound : Sound symbols) {t : Token} (h : IsAtom symbols t e) :
    e.Formed symbols := by
  rcases h with h | ⟨k, -, -, hparen, hstarts, rfl⟩
  · unfold atom? at h
    split at h
    · rename_i name _
      cases hlookup : symbols.lookup? name with
      | none => simp [hlookup] at h
      | some symbol =>
        rcases hsound.lookup? hlookup with ⟨t, isConst, rfl⟩ | ⟨⟨params, result, rfl⟩, houter⟩
        · simp only [hlookup, Symbol.ofVar, Except.ok.injEq, Option.some.injEq] at h
          exact h ▸ .var name t isConst
        · simp only [hlookup, Symbol.ofFunction, Except.ok.injEq, Option.some.injEq] at h
          exact h ▸ .call houter (by simp)
    · cases h
      exact .literal _
    · cases h
      exact .literal _
    · cases h
  · exact .sysCall ⟨hstarts, hparen⟩ (by simp)

lemma withArgs?_formed {e' : Expr} {args} (he : e.Formed symbols)
    (hargs : ∀ a ∈ args, a.Formed symbols) (h : e.withArgs? args = some e') :
    e'.Formed symbols := by
  cases he with
  | call hfunc _ =>
    cases h
    exact .call hfunc hargs
  | sysCall hfunc _ =>
    cases h
    exact .sysCall hfunc hargs
  | _ => simp [Expr.withArgs?, Expr.convert] at h

def ExprPart.Formed (symbols : Symbols) : ExprPart → Prop
  | operators _ left => left.Formed symbols
  | _ => True

lemma Parses.formed (hsound : Sound symbols) {part : ExprPart} {rest : List Token}
    {out : List Expr} (h : Parses symbols part ts out rest) :
    part.Formed symbols → ∀ e ∈ out, e.Formed symbols := by
  induction h with
  | expr _ _ ihleft ihrest => exact fun _ => ihrest (ihleft trivial _ (mem_singleton_self _))
  | atom hatom => exact fun _ => forall_mem_singleton.2 (hatom.formed hsound)
  | unary _ hunary _ ih =>
    intro _
    exact forall_mem_singleton.2 (.unary hunary (forall_mem_singleton.1 (ih trivial)))
  | paren _ _ _ ih | arguments _ _ _ ih | lastArgument _ _ _ _ ih => exact ih
  | ends _ => exact fun hleft _ he => mem_singleton.1 he ▸ hleft
  | convert _ _ _ _ ih => exact fun hleft => ih (.convert _ hleft)
  | binary _ hbin hcast _ _ _ ihright ihrest =>
    intro hleft
    exact ihrest (.binary hbin hcast hleft (forall_mem_singleton.1 (ihright trivial)))
  | call _ _ _ hcall ih =>
    intro hleft
    exact forall_mem_singleton.2 (withArgs?_formed hleft (ih trivial) hcall)
  | noArguments => simp
  | moreArguments _ _ _ ihe ihargs =>
    intro _
    exact forall_mem_cons.2 ⟨forall_mem_singleton.1 (ihe trivial), ihargs trivial⟩

lemma expression_formed (hsound : Sound symbols) {c c' : Cursor}
    (h : expression symbols c = .ok (e, c')) : e.Formed symbols := by
  obtain ⟨ts, -, hparses⟩ := expression_parses h
  exact forall_mem_singleton.1 (hparses.formed hsound trivial)

lemma Spells.formed (hsound : Sound symbols) (h : Spells symbols ts e next) :
    e.Formed symbols := by
  obtain ⟨c, hread, -⟩ := h (.start (ts ++ [next])) [] rfl
  exact expression_formed hsound hread

/-! ## Declarations of variables -/

/-- The names that become global where variables are declared: the constants, and all of them in the
outermost scope. -/
def globalNames (outermost : Bool) (ds : List VarDecl) : List String :=
  (ds.filter fun d => d.isConst || outermost).map VarDecl.name

lemma globalNames_cons (outermost : Bool) (d : VarDecl) (ds : List VarDecl) :
    globalNames outermost (d :: ds) = globalNames outermost [d] ++ globalNames outermost ds := by
  cases hd : d.isConst || outermost <;> simp [globalNames, hd]

lemma globalNames_inner (ds : List VarDecl) : globalNames false ds = constantNames ds := by
  simp [globalNames, constantNames]

lemma globalNames_outermost (ds : List VarDecl) : globalNames true ds = ds.map VarDecl.name := by
  simp [globalNames]

/-- What declarations of variables leave in the scopes. -/
structure DeclsParsed (before after : Symbols) (ds : List VarDecl) : Prop where
  grows : Grows before after (globalNames before.inner.isEmpty ds) []
  formed : ∀ d ∈ ds, ∀ e ∈ d.init, e.Formed after
  counted : after.localCount = before.localCount + variableCount ds

/-- A name is entered: a constant globally, a variable in the innermost scope, where it counts. -/
lemma enterDecl_grows {d'} (h : enterDecl d s = .ok (d', s')) :
    d' = d ∧ Grows s.symbols s'.symbols (globalNames s.symbols.inner.isEmpty [d]) [] ∧
      s'.symbols.localCount = s.symbols.localCount + variableCount [d] := by
  have hvar := Symbol.isVar_ofVar d.type d.isConst
  unfold enterDecl at h
  simp only at h
  cases hd : d.isConst with
  | true =>
    rw [hd, if_pos rfl] at h
    split at h
    · rename_i hfresh
      cases h
      refine ⟨rfl, ?_, ?_⟩
      · simpa [globalNames, hd] using
          Grows.declareGlobal (.inl (hd ▸ hvar)) (.inl (hd ▸ hvar)) hfresh
      · unfold declareGlobal
        split <;> simp [variableCount, hd]
    · obtain ⟨line, _, h⟩ := bind_eq_ok.1 h
      cases h
  | false =>
    rw [hd, if_neg Bool.false_ne_true] at h
    split at h
    · rename_i hfresh
      cases h
      refine ⟨rfl, ?_, ?_⟩
      · cases hinner : s.symbols.inner.isEmpty with
        | true =>
          simpa [globalNames, hd] using
            Grows.declareLocal_outer (hd ▸ hvar) (List.isEmpty_iff.1 hinner) hfresh
        | false =>
          have hne : s.symbols.inner ≠ [] := by simpa using hinner
          simpa [globalNames, hd] using Grows.declareLocal_inner d.name (hd ▸ hvar) hne
      · cases hdef : s.symbols.isDefined d.name with
        | true => simp [declareLocal_of_defined _ _ hdef] at hfresh
        | false => simp [localCount_declareLocal, hdef, variableCount, hd]
    · obtain ⟨line, _, h⟩ := bind_eq_ok.1 h
      cases h

lemma initialValue_formed {declared : Option VarType} {init}
    (hsound : Sound s.symbols) (h : initialValue declared s = .ok (init, s')) :
    s'.symbols = s.symbols ∧ ∀ e ∈ init, e.Formed s.symbols := by
  unfold initialValue at h
  split at h
  · obtain ⟨⟨e, s1⟩, hexpr, h⟩ := bind_eq_ok.1 h
    cases h
    obtain ⟨hexpr, hsame⟩ := ParseState.expression_eq_ok_iff.1 hexpr
    refine ⟨hsame, ?_⟩
    intro e' he'
    cases he'
    exact expression_formed hsound hexpr
  · split at h
    · cases h
      exact ⟨rfl, by simp⟩
    · exact absurd h Cursor.want_ne_ok

lemma singleDecl_parsed (hsound : Sound s.symbols) (h : singleDecl isConst s = .ok (d, s')) :
    DeclsParsed s.symbols s'.symbols [d] := by
  obtain ⟨⟨name, c⟩, _, h⟩ := bind_eq_ok.1 h
  obtain ⟨⟨declared, c1⟩, _, h⟩ := bind_eq_ok.1 h
  obtain ⟨⟨init, s1⟩, hinit, h⟩ := bind_eq_ok.1 h
  obtain ⟨type, _, h⟩ := bind_eq_ok.1 h
  obtain ⟨hsame, hformed⟩ := initialValue_formed (s := s.moveTo c1) hsound hinit
  obtain ⟨rfl, hgrows, hcount⟩ := enterDecl_grows h
  have hsyms : s1.symbols = s.symbols := hsame
  rw [hsyms] at hgrows hcount
  refine ⟨hgrows, ?_, hcount⟩
  exact forall_mem_singleton.2 fun e he => (hformed e he).mono hgrows.keeps

lemma declList_parsed (fuel : Nat) : ∀ {s s' : ParseState} {ds : List VarDecl},
    Sound s.symbols → declList isConst fuel s = .ok (ds, s') →
    DeclsParsed s.symbols s'.symbols ds := by
  induction fuel with
  | zero =>
    intro s s' ds _ h
    cases h
  | succ fuel ih =>
    intro s s' ds hsound h
    rw [declList] at h
    obtain ⟨⟨d, s1⟩, hd, h⟩ := bind_eq_ok.1 h
    have hfirst := singleDecl_parsed hsound hd
    simp only at h
    split at h
    · obtain ⟨⟨others, s2⟩, hothers, h⟩ := bind_eq_ok.1 h
      cases h
      have hrest := ih (s := s1.skip) (hfirst.grows.sound hsound) hothers
      have hgrows := hrest.grows
      -- both are declared in the same scope, outermost or not
      rw [show s1.skip.symbols = s1.symbols from rfl, hfirst.grows.isEmpty_eq] at hgrows
      refine ⟨by rw [globalNames_cons]; exact hfirst.grows.trans hgrows, ?_, ?_⟩
      · exact forall_mem_cons.2
          ⟨fun e he => (hfirst.formed d (by simp) e he).mono hgrows.keeps, hrest.formed⟩
      · have hcount := hrest.counted
        rwa [show s1.skip.symbols = s1.symbols from rfl, hfirst.counted, add_assoc,
          ← variableCount_append] at hcount
    · split at h
      · cases h
        exact hfirst
      · exact absurd h Cursor.want_ne_ok

lemma varDecls_parsed (hsound : Sound s.symbols) (h : varDecls s = .ok (ds, s')) :
    DeclsParsed s.symbols s'.symbols ds := by
  unfold varDecls at h
  simp only at h
  split at h
  · split at h
    · exact declList_parsed _ (s := s.skip.skip) hsound h
    · exact absurd h Cursor.want_ne_ok
  · exact declList_parsed _ (s := s.skip) hsound h

lemma Declares.parsed (hsound : Sound symbols) (h : Declares symbols ts ds symbols' next) :
    DeclsParsed symbols symbols' ds := by
  obtain ⟨c, hread, -⟩ := h (.start (ts ++ [next])) [] rfl
  exact varDecls_parsed (s := ⟨_, symbols⟩) hsound hread

/-! ## Statements -/

/-- What is left by statements of a function. -/
structure Parsed (before after : Symbols) (ss : List Stmt) : Prop where
  grows : Grows before after (constantNames (declsIn ss)) []
  formed : ∀ st ∈ ss, st.Formed after
  counted : after.localCount = before.localCount + variableCount (declsIn ss)

namespace Parsed

variable {before between after : Symbols} {xs ys : List Stmt}

lemma nil (symbols : Symbols) : Parsed symbols symbols [] := ⟨.refl symbols, by simp, rfl⟩

lemma append (h : Parsed before between xs) (h' : Parsed between after ys) :
    Parsed before after (xs ++ ys) := by
  refine ⟨by rw [declsIn_append, constantNames_append]; exact h.grows.trans h'.grows, ?_, ?_⟩
  · exact forall_mem_append.2
      ⟨fun st hst => (h.formed st hst).mono h'.grows.keeps, h'.formed⟩
  · rw [h'.counted, h.counted, declsIn_append, variableCount_append, add_assoc]

lemma leave (h : Parsed before.enter after xs) : Parsed before after.leave xs :=
  have hkeeps : KeepsOuter after after.leave := fun _ _ hx => hx
  ⟨h.grows.leave, fun st hst => (h.formed st hst).mono hkeeps, h.counted⟩

lemma single (h : Parsed before after xs) (hdecls : st.decls = declsIn xs)
    (hst : st.Formed after) : Parsed before after [st] :=
  ⟨by simpa [hdecls] using h.grows, forall_mem_singleton.2 hst, by simpa [hdecls] using h.counted⟩

lemma plain (hdecls : st.decls = []) (hst : st.Formed before) : Parsed before before [st] :=
  (nil before).single hdecls hst

lemma conditional {cond : Expr} (hcond : cond.Formed before) (h : Parsed before between xs)
    (h' : Parsed between after ys) : Parsed before after [.ifElse cond xs ys] := by
  have hkeeps := h'.grows.keeps
  refine (h.append h').single (by simp [Stmt.decls]) (.ifElse ?_ ?_ h'.formed)
  · exact (hcond.mono h.grows.keeps).mono hkeeps
  · exact fun st hst => (h.formed st hst).mono hkeeps

end Parsed

lemma declsIn_map_decl (ds : List VarDecl) : declsIn (ds.map .decl) = ds := by
  induction ds with
  | nil => rfl
  | cons d rest ih => simp [Stmt.decls, ih]

lemma Declares.statements (hsound : Sound symbols) (hinner : symbols.inner ≠ [])
    (h : Declares symbols ts ds symbols' next) : Parsed symbols symbols' (ds.map .decl) := by
  have hparsed := h.parsed hsound
  have hempty : symbols.inner.isEmpty = false := by simpa using hinner
  refine ⟨?_, ?_, by rw [declsIn_map_decl]; exact hparsed.counted⟩
  · rw [declsIn_map_decl, ← globalNames_inner, ← hempty]
    exact hparsed.grows
  · intro st hst
    obtain ⟨d, hd, rfl⟩ := mem_map.1 hst
    exact .decl (hparsed.formed d hd)

lemma Laid.parsed {part : Part} (h : Laid part σ body σ1 ps) (hsound : Sound σ)
    (hinner : σ.inner ≠ []) : Parsed σ σ1 body := by
  induction h with
  | nil => exact .nil _
  | cons _ _ ihfirst ihrest =>
    have hfirst := ihfirst hsound hinner
    exact hfirst.append
      (ihrest (hfirst.grows.sound hsound) (hfirst.grows.inner_ne_nil hinner))
  | expr _ _ he => exact .plain rfl (.expr (he.formed hsound))
  | ret _ _ he => exact .plain rfl (.ret fun e' he' => Option.mem_some_iff.1 he' ▸ he.formed hsound)
  | retNothing => exact .plain rfl (.ret (by simp))
  | leaveLoop => exact .plain rfl .leaveLoop
  | decls _ _ hds => exact hds.statements hsound hinner
  | branch _ ih => exact ih hsound hinner
  | whileDo _ hcond _ _ ih =>
    have hbody := ih hsound hinner
    exact hbody.single rfl (.whileDo ((hcond.formed hsound).mono hbody.grows.keeps) hbody.formed)
  | loop _ _ _ ih =>
    have hbody := ih hsound hinner
    exact hbody.single rfl (.loop hbody.formed)
  | block _ _ _ ih => exact (ih hsound.enter (by simp [enter])).leave
  | ifOnly _ hcond _ _ ih => exact .conditional (hcond.formed hsound) (ih hsound hinner) (.nil _)
  | ifElse _ hcond _ _ _ _ ihyes ihno =>
    have hyes := ihyes hsound hinner
    exact .conditional (hcond.formed hsound) hyes
      (ihno (hyes.grows.sound hsound) (hyes.grows.inner_ne_nil hinner))

/-! ## Programs -/

/-- The names that a declaration of the program makes global. -/
def Decl.globalNames : Decl → List String
  | .var d => [d.name]
  | .func f => f.name :: constantNames (declsIn f.body)

def functionNames (ds : List Decl) : List String := ds.filterMap fun
    | .func f => some f.name
    | .var _ => none

lemma mem_functionNames {ds name} :
    name ∈ functionNames ds ↔ ∃ f, .func f ∈ ds ∧ f.name = name := by
  simp only [functionNames, mem_filterMap]
  constructor
  · rintro ⟨d, hd, hname⟩
    cases d with
    | var d => cases hname
    | func f => exact ⟨f, hd, by simpa using hname⟩
  · rintro ⟨f, hf, rfl⟩
    exact ⟨.func f, hf, rfl⟩

@[simp] lemma functionNames_func (f : FuncDecl) (ds : List Decl) :
    functionNames (.func f :: ds) = f.name :: functionNames ds := rfl

/-- A declaration all of whose expressions satisfy `P`. -/
def Decl.Each (P : Expr → Prop) : Decl → Prop
  | .var d => ∀ e ∈ d.init, P e
  | .func f => ∀ st ∈ f.body, st.Each P

/-- A declaration whose trees are formed. -/
abbrev Decl.Formed (symbols : Symbols) : Decl → Prop := Decl.Each (Expr.Formed symbols)

lemma Decl.Formed.mono (hkeeps : KeepsOuter before after) {d : Decl} (h : d.Formed before) :
    d.Formed after := by
  cases d with
  | var d => exact fun e he => (h e he).mono hkeeps
  | func f => exact fun st hst => Stmt.Formed.mono hkeeps (h st hst)

def Program.globalNames (p : Program) : List String := p.decls.flatMap Decl.globalNames

/-- The function counts the variables of its body and the different names of its parameters, other
than its own and the names `names` that were global before. -/
def FuncDecl.Counts (names : List String) (f : FuncDecl) : Prop :=
  f.localCount = variableCount (declsIn f.body) +
    ((f.params.map Param.name).filter (· ∉ names ++ [f.name])).eraseDups.length

/-- What is left by declarations of a program. -/
structure GlobalsParsed (before after : Symbols) (ds : List Decl) : Prop where
  grows : Grows before after (ds.flatMap Decl.globalNames) (functionNames ds)
  formed : ∀ d ∈ ds, d.Formed after
  counted : ∀ f, .func f ∈ ds → ∃ front back, ds = front ++ .func f :: back ∧
    f.Counts (before.outer.names ++ front.flatMap Decl.globalNames)

lemma GlobalsParsed.append {between xs ys}
    (h : GlobalsParsed before between xs) (h' : GlobalsParsed between after ys) :
    GlobalsParsed before after (xs ++ ys) := by
  have hfuncs : functionNames (xs ++ ys) = _ := filterMap_append
  refine ⟨by rw [flatMap_append, hfuncs]; exact h.grows.trans h'.grows, ?_, ?_⟩
  · exact forall_mem_append.2 ⟨fun d hd => (h.formed d hd).mono h'.grows.keeps, h'.formed⟩
  · intro f hf
    rcases mem_append.1 hf with hf | hf
    · obtain ⟨front, back, hxs, hcount⟩ := h.counted f hf
      exact ⟨front, back ++ ys, by simp [hxs], hcount⟩
    · obtain ⟨front, back, hys, hcount⟩ := h'.counted f hf
      refine ⟨xs ++ front, back, by simp [hys], ?_⟩
      rwa [flatMap_append, ← append_assoc, ← h.grows.outer]

lemma GlobalsParsed.inner_eq_nil {ds} (h : GlobalsParsed before after ds)
    (hinner : before.inner = []) : after.inner = [] := by
  rw [← length_eq_zero_iff, h.grows.depth, hinner, length_nil]

lemma params_grow (params : List Param) : ∀ symbols : Symbols, symbols.inner ≠ [] →
    let after := params.foldl (fun (symbols : Symbols) p =>
      (symbols.declareLocal p.name (.ofVar p.type p.isConst)).2) symbols
    Grows symbols after [] [] ∧ after.localCount = symbols.localCount +
      ((params.map Param.name).filter (!symbols.isDefined ·)).eraseDups.length := by
  induction params with
  | nil =>
    intro symbols _
    exact ⟨.refl symbols, rfl⟩
  | cons p rest ih =>
    intro symbols hinner
    have hfirst := Grows.declareLocal_inner p.name (Symbol.isVar_ofVar p.type p.isConst) hinner
    obtain ⟨hgrows, hcount⟩ := ih _ (hfirst.inner_ne_nil hinner)
    refine ⟨hfirst.trans hgrows, ?_⟩
    rw [foldl_cons, hcount, localCount_declareLocal]
    cases hp : symbols.isDefined p.name with
    | true => simp [declareLocal_of_defined _ _ hp, hp]
    | false =>
      have hseen : ∀ x, isDefined (symbols.declareLocal p.name
          (.ofVar p.type p.isConst)).2 x = (x == p.name || symbols.isDefined x) := by
        intro x
        rw [isDefined, lookup?_declareLocal _ _ _ hp]
        by_cases hx : p.name = x <;> simp [hx, Ne.symm, isDefined]
      simp [hp, hseen, eraseDups_cons, filter_filter, add_assoc, add_comm 1]

/-- What a function up to its body leaves: its name is global, its parameters are in a scope of
their own and counted there, and a token has the name. -/
lemma Heads.grows (h : Heads σ ts head σ1 next) : (∃ t ∈ ts ++ [next], t.lexeme = .name head.1) ∧
      ∃ σ0, Grows σ σ0 [head.1] [head.1] ∧ Grows σ0.enter σ1 [] [] ∧ σ1.localCount =
        ((head.2.1.map Param.name).filter (!σ0.enter.isDefined ·)).eraseDups.length := by
  obtain ⟨c, hread, -⟩ := h (ts.length + 1) (by omega) (.start (ts ++ [next])) [] rfl
  obtain ⟨⟨name, c1⟩, hname, h⟩ := bind_eq_ok.1 hread
  obtain ⟨c2, -, h⟩ := bind_eq_ok.1 h
  obtain ⟨⟨params, c3⟩, -, h⟩ := bind_eq_ok.1 h
  obtain ⟨c4, -, h⟩ := bind_eq_ok.1 h
  obtain ⟨⟨result, c5⟩, -, h⟩ := bind_eq_ok.1 h
  simp only at h
  split at h
  · obtain ⟨line, -, h⟩ := bind_eq_ok.1 h
    cases h
  · next hfresh =>
      cases h
      refine ⟨?_, _, (Grows.declareGlobal (.inr ⟨_, _, rfl⟩) (.inr (by simp))
        (by simpa using hfresh)).resetCount, (params_grow params _ (by simp [enter])).1,
        (params_grow params _ (by simp [enter])).2.trans (zero_add _)⟩
      unfold nextName at hname
      split at hname
      · next hpeek =>
          cases hname
          obtain ⟨t, ht, hlex⟩ := Option.map_eq_some_iff.1 hpeek
          exact ⟨t, mem_of_mem_head? ht, hlex⟩
      · exact absurd hname Cursor.want_ne_ok

lemma Declares.globals (hsound : Sound symbols) (hinner : symbols.inner = [])
    (h : Declares symbols ts ds symbols' next) : GlobalsParsed symbols symbols' (ds.map .var) := by
  have hparsed := h.parsed hsound
  have hgrows := hparsed.grows
  rw [hinner, isEmpty_nil, globalNames_outermost] at hgrows
  refine ⟨?_, ?_, fun f hf => by simp at hf⟩
  · have hnames : (ds.map Decl.var).flatMap Decl.globalNames = ds.map VarDecl.name := by
      rw [flatMap_map, ← flatMap_pure_eq_map]
      rfl
    have hfuncs : functionNames (ds.map Decl.var) = [] := by simp [functionNames]
    rwa [hnames, hfuncs]
  · intro d hd
    obtain ⟨v, hv, rfl⟩ := mem_map.1 hd
    exact hparsed.formed v hv

lemma GlobalsParsed.func {σ σ0 σ1 σ2 : Symbols} (hinner : σ.inner = [])
    (hname : Grows σ σ0 [head.1] [head.1]) (hpars : Grows σ0.enter σ1 [] [])
    (hcount : σ1.localCount =
      ((head.2.1.map Param.name).filter (!σ0.enter.isDefined ·)).eraseDups.length)
    (hbody : Parsed σ1 σ2 body) :
    GlobalsParsed σ σ2.leave.resetCount [.func (funcOf head body σ2)] := by
  have hkeeps : KeepsOuter σ2 σ2.leave.resetCount := fun _ _ hx => hx
  refine ⟨?_, ?_, ?_⟩
  · simpa [Decl.globalNames, functionNames, funcOf] using
      (hname.trans (hpars.trans hbody.grows).leave).resetCount
  · exact forall_mem_singleton.2 fun st hst => (hbody.formed st hst).mono hkeeps
  · intro f hf
    obtain rfl : f = funcOf head body σ2 := by simpa using hf
    -- in front of the parameters, what is visible is global
    have hvisible : ∀ x, σ0.enter.isDefined x = decide (x ∈ σ.outer.names ++ [head.1]) := by
      intro x
      have hnil : σ0.inner = [] := by rw [← length_eq_zero_iff, hname.depth, hinner, length_nil]
      rw [isDefined, lookup?_eq, ← hname.outer, Bool.eq_iff_iff, decide_eq_true_iff,
        ← Table.contains_iff]
      simp [enter, hnil, findFirst, Table.contains]
    refine ⟨[], [], rfl, ?_⟩
    have htotal := hbody.counted
    simp only [hcount, hvisible, ← decide_not] at htotal
    simpa [FuncDecl.Counts, funcOf, leave, add_comm] using htotal

lemma LaidOut.parsed {ds : List Decl} (h : LaidOut σ ds σ1 ps) (hsound : Sound σ)
    (hinner : σ.inner = []) : GlobalsParsed σ σ1 ds := by
  induction h with
  | nil => exact ⟨.refl _, by simp, by simp⟩
  | func _ hhead _ hbody _ _ ih =>
    obtain ⟨-, σ0, hname, hpars, hcount⟩ := hhead.grows
    have hsound1 := hpars.sound (hname.sound hsound).enter
    have hfunc := GlobalsParsed.func hinner hname hpars hcount
      (hbody.parsed hsound1 (hpars.inner_ne_nil (by simp [enter])))
    exact hfunc.append (ih (hfunc.grows.sound hsound) (hfunc.inner_eq_nil hinner))
  | vars _ hds _ _ ih =>
    have hvars := hds.globals hsound hinner
    exact hvars.append (ih (hvars.grows.sound hsound) (hvars.inner_eq_nil hinner))

end

lemma Program.ofTokens_globals (h : Program.ofTokens tokens = .ok (p, symbols)) :
    GlobalsParsed .empty symbols p.decls := by
  obtain ⟨ps, hps, -⟩ := Program.ofTokens_eq_ok_iff.1 h
  exact hps.parsed ⟨by simp [empty], by simp [empty]⟩ rfl

/-- What is known of a program that was read, with the symbols that are left. -/
structure Program.Parsed (p : Program) (symbols : Symbols) : Prop where
  inner : symbols.inner = []
  names : symbols.outer.names = p.globalNames
  nodup : p.globalNames.Nodup
  sound : Sound symbols
  formed : ∀ d ∈ p.decls, d.Formed symbols

lemma Program.ofTokens_parsed (h : Program.ofTokens tokens = .ok (p, symbols)) :
    p.Parsed symbols := by
  have hparsed := Program.ofTokens_globals h
  have hnames : symbols.outer.names = p.globalNames := hparsed.grows.outer
  exact ⟨hparsed.inner_eq_nil rfl, hnames, hnames ▸ hparsed.grows.nodup .nil,
    hparsed.grows.sound ⟨by simp [empty], by simp [empty]⟩, hparsed.formed⟩

end ArmStudio.Script
