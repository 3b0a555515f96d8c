import ArmStudio.Proofs.ParsedTrees
import ArmStudio.Script.Check

/-!
# What the analysis leaves

The analysis changes expressions only: it inserts conversions and puts literals for constants. So
the declarations of a program stay where they are, and of the expressions it has accepted a few
things can be said.
-/

namespace ArmStudio.Script

open Code List

section

variable {symbols : Symbols}

@[simp] lemma name_checkDecl (d : VarDecl) : (checkDecl symbols d).tree.name = d.name := by
  unfold checkDecl
  split <;> rfl

@[simp] lemma isConst_checkDecl (d : VarDecl) : (checkDecl symbols d).tree.isConst = d.isConst := by
  unfold checkDecl
  split <;> rfl

variable (ds : List VarDecl)

/-- Of declarations, what the analysis keeps. -/
def kinds : List (String × Bool) := ds.map fun d => (d.name, d.isConst)

@[simp] lemma kinds_append (xs ys : List VarDecl) : kinds (xs ++ ys) = kinds xs ++ kinds ys :=
  map_append

lemma constantNames_eq : constantNames ds = ((kinds ds).filter Prod.snd).map Prod.fst := by
  rw [kinds, filter_map, map_map]
  rfl

lemma variableCount_eq : variableCount ds = (kinds ds).countP fun k => !k.2 := by
  rw [kinds, countP_map]
  rfl

lemma kinds_checkBlock_of {body} (hbody : ∀ st ∈ body, ∀ result inLoop,
      kinds (checkStmt symbols result inLoop st).tree.decls = kinds st.decls)
    (result : VarType) (inLoop : Bool) :
    kinds (declsIn (checkBlock symbols result inLoop body).tree) = kinds (declsIn body) := by
  induction body with
  | nil => rfl
  | cons st rest ih =>
    have hst := hbody st (by simp) result inLoop
    have hrest := ih fun st' hst' => hbody st' (by simp [hst'])
    rw [checkBlock]
    split <;> simp [hst, hrest]

lemma kinds_checkStmt (st : Stmt) (result : VarType) (inLoop : Bool) :
    kinds (checkStmt symbols result inLoop st).tree.decls = kinds st.decls := by
  induction st generalizing result inLoop with
  | expr e => rfl
  | decl d =>
    rw [checkStmt]
    simp [Stmt.decls, kinds]
  | ifElse cond yes no ihyes ihno =>
    have hyes := kinds_checkBlock_of ihyes result inLoop
    have hno := kinds_checkBlock_of ihno result inLoop
    rw [checkStmt]
    simp only
    split
    · rfl
    · split <;> simp [Stmt.decls, hyes, hno]
  | whileDo cond body ih =>
    have hbody := kinds_checkBlock_of ih result true
    rw [checkStmt]
    simp only
    split
    · rfl
    · simpa [Stmt.decls] using hbody
  | loop body ih =>
    rw [checkStmt]
    simpa [Stmt.decls] using kinds_checkBlock_of ih result true
  | ret value =>
    rw [checkStmt]
    unfold checkReturn
    cases value <;> (simp only; split <;> rfl)
  | leaveLoop | blank => rfl

lemma decls_checkBlock (symbols : Symbols) (body : List Stmt) (result : VarType)
    (inLoop : Bool) :
    constantNames (declsIn (checkBlock symbols result inLoop body).tree) =
        constantNames (declsIn body) ∧
      variableCount (declsIn (checkBlock symbols result inLoop body).tree) =
        variableCount (declsIn body) := by
  have hkinds : kinds (declsIn (checkBlock symbols result inLoop body).tree) =
      kinds (declsIn body) := kinds_checkBlock_of (fun st _ => kinds_checkStmt st) result inLoop
  rw [constantNames_eq, constantNames_eq, variableCount_eq, variableCount_eq, hkinds]
  exact ⟨rfl, rfl⟩

lemma Program.flatMap_check {β : Type} {g : Decl → List β}
    (hvar : ∀ d, g (.var (checkDecl symbols d).tree) = g (.var d))
    (hfunc : ∀ f, g (.func (checkFunc symbols f).tree) = g (.func f)) (p : Program) :
    (p.check symbols).tree.decls.flatMap g = p.decls.flatMap g := by
  have hdecls : ∀ ds, (checkDecls symbols ds).tree.flatMap g = ds.flatMap g := by
    intro ds
    induction ds with
    | nil => rfl
    | cons d rest ih =>
      cases d <;> rw [checkDecls] <;> simp only <;> split <;> simp [hvar, hfunc, ih]
  unfold Program.check
  split
  · rfl
  · exact hdecls p.decls

lemma Program.globalNames_check (p : Program) :
    (p.check symbols).tree.globalNames = p.globalNames := by
  refine p.flatMap_check (fun d => ?_) fun f => ?_
  · simp [Decl.globalNames]
  · simp [Decl.globalNames, checkFunc, decls_checkBlock]

end

/-! ## What is accepted -/

/-- What folding makes of a tree: a literal where it has a value, else the tree itself. -/
inductive Folds : Expr → Expr → Prop
  | keep {e : Expr} (h : evalConst e = .ok none) : Folds e e
  | value {e : Expr} {v : Value} (h : evalConst e = .ok (some v)) : Folds e (.literal v)

/-- Arguments and what the analysis stores for them, where `P` relates expressions to trees. What an
argument is folded to has the type of its parameter or is converted to it; in the first case the
argument is stored unfolded. -/
inductive Stored (symbols : Symbols) (P : Expr → Expr → Prop) :
    List Expr → List VarType → List Expr → Prop
  | nil : Stored symbols P [] [] []
  | keep {a tree a' param args trees params}
      (htree : P a tree) (hfolds : Folds tree a') (htype : typeOf symbols a' = .ok param)
      (hrest : Stored symbols P args params trees) :
      Stored symbols P (a :: args) (param :: params) (tree :: trees)
  | convert {a} {a' : Expr} {t param args trees params}
      (ha : P a a') (htype : typeOf symbols a' = .ok t)
      (hrest : Stored symbols P args params trees) :
      Stored symbols P (a :: args) (param :: params) (a'.convert param :: trees)

def Expr.IsLeaf : Expr → Prop
  | .unary .. | .binary .. | .call .. | .sysCall .. => False
  | _ => True

/-- A relation between expressions and trees that every accepting step of the analysis keeps. -/
structure Analysed (symbols : Symbols) (P : Expr → Expr → Prop) : Prop where
  leaf {e : Expr} : e.IsLeaf → P e e
  fold {e tree : Expr} {v : Value} : P e tree → evalConst tree = .ok (some v) → P e (.literal v)
  unary {op : Keyword} {a a' : Expr} : P a a' → P (.unary op a) (.unary op a')
  binary {op : Keyword} {a b a' b' : Expr} {lt rt : VarType} {r : Operands} : P a a' → P b b' →
    typeOf symbols a' = .ok lt → typeOf symbols b' = .ok rt → convertOperands op a' b' lt rt = r →
    r.error = none → P (.binary op a b) (.binary op r.left r.right)
  call {func : String} {symbol : Symbol} {args trees : List Expr} {params : List VarType} :
    callParams? symbols func args.length = .ok params → Stored symbols P args params trees →
    P (.call func symbol args) (.call func symbol trees)
  sysCall {func : Keyword} {args trees : List Expr} :
    Stored symbols P args func.callParams trees → P (.sysCall func args) (.sysCall func trees)

section

variable {symbols : Symbols}

lemma length_of_callParams? {func} {count : Nat} {params : List VarType}
    (h : callParams? symbols func count = .ok params) : count = params.length := by
  obtain ⟨symbol, _, h⟩ := bind_eq_ok.1 h
  split at h
  · obtain ⟨_, hthrow, _⟩ := bind_eq_ok.1 h
    cases hthrow
  · obtain ⟨ps, _, h⟩ := bind_eq_ok.1 h
    split at h
    · obtain ⟨_, hthrow, _⟩ := bind_eq_ok.1 h
      cases hthrow
    · rename_i hcount
      cases h
      exact Decidable.not_not.1 hcount

/-- A check that succeeds relates an expression to its tree before and after folding. -/
def Checked.Relates (P : Expr → Expr → Prop) (e : Expr) (r : Checked Expr Expr) : Prop :=
  ∀ e', r.outcome = .ok e' → P e r.tree ∧ P e e' ∧ Folds r.tree e'

namespace Analysed

variable {P : Expr → Expr → Prop}

lemma foldChecked (hP : Analysed symbols P) {e tree : Expr} (h : P e tree) (hints : List Hint) :
    (foldChecked tree hints).Relates P e := by
  intro e' hok
  unfold Script.foldChecked at hok ⊢
  split at hok
  · cases hok
  · rename_i hv
    cases hok
    exact ⟨h, h, .keep hv⟩
  · rename_i v hv
    cases hok
    exact ⟨h, hP.fold h hv, .value hv⟩

lemma stored_of_checkArgs {args}
    (hargs : ∀ a ∈ args, (checkExpr symbols a).Relates P a) {params : List VarType}
    {hint : VarType → VarType → Nat → Hint} {index : Nat} (hlen : args.length = params.length)
    (h : (checkArgs symbols hint index args params).outcome = .ok ()) :
    Stored symbols P args params (checkArgs symbols hint index args params).tree := by
  induction args generalizing params index with
  | nil =>
    rw [length_eq_zero_iff.1 hlen.symm]
    exact .nil
  | cons arg rest ih =>
    cases params with
    | nil => cases hlen
    | cons param params =>
      rw [checkArgs] at h ⊢
      unfold passArgument at h ⊢
      cases harg : (checkExpr symbols arg).outcome with
      | error e => simp [harg] at h
      | ok arg' =>
        obtain ⟨htree, hfolded, hfolds⟩ := hargs arg (by simp) arg' harg
        cases ht : typeOf symbols arg' with
        | error e => simp [harg, ht] at h
        | ok t =>
          simp only [harg, ht] at h ⊢
          have hothers : ∀ a ∈ rest, (checkExpr symbols a).Relates P a :=
            fun a ha => hargs a (by simp [ha])
          by_cases heq : t = param
          · rw [if_pos heq] at h ⊢
            exact .keep htree hfolds (heq ▸ ht) (ih hothers (Nat.succ.inj hlen) h)
          · rw [if_neg heq] at h ⊢
            exact .convert hfolded ht (ih hothers (Nat.succ.inj hlen) h)

/-- The analysis of an expression keeps what each of its steps keeps. The tree and what it is folded
to are not the same, so both are carried through the induction. -/
theorem checkExpr (hP : Analysed symbols P) (e : Expr) : (checkExpr symbols e).Relates P e := by
  induction e with
  | unary op a ih =>
    intro e' h
    rw [Script.checkExpr] at h ⊢
    split at h
    · cases h
    · rename_i a' ha'
      exact hP.foldChecked (hP.unary (ih a' ha').2.1) _ e' h
  | binary op a b iha ihb =>
    intro e' h
    rw [Script.checkExpr] at h ⊢
    simp only at h ⊢
    split at h
    · cases h
    · rename_i a' ha'
      split at h
      · cases h
      · rename_i b' hb'
        unfold checkOperator at h ⊢
        split at h
        · cases h
        · cases h
        · rename_i lt rt hlt hrt
          simp only at h ⊢
          split at h
          · cases h
          · rename_i herror
            exact hP.foldChecked
              (hP.binary (iha a' ha').2.1 (ihb b' hb').2.1 hlt hrt rfl herror) _ e' h
  | call func symbol args ih =>
    intro e' h
    rw [Script.checkExpr] at h ⊢
    split at h
    · cases h
    · rename_i params hpars
      simp only at h ⊢
      split at h
      · cases h
      · rename_i hargs
        have hstored := stored_of_checkArgs ih (length_of_callParams? hpars) hargs
        exact hP.foldChecked (hP.call hpars hstored) _ e' h
  | sysCall func args ih =>
    intro e' h
    rw [Script.checkExpr] at h ⊢
    -- the number of arguments is checked here, for functions by `callParams?`
    by_cases hlen : args.length = func.callParams.length
    · rw [if_neg (not_not.2 hlen)] at h ⊢
      simp only at h ⊢
      split at h
      · cases h
      · rename_i hargs
        exact hP.foldChecked (hP.sysCall (stored_of_checkArgs ih hlen hargs)) _ e' h
    · rw [if_pos hlen] at h
      cases h
  | _ =>
    intro e' h
    refine hP.foldChecked (hP.leaf ?_) [] e' h
    trivial

end Analysed

end

/-! ## Expressions that were accepted -/

/-- The operators whose left side the analysis wants to be a variable. -/
def Keyword.wantsTarget : Keyword → Bool
  | .assign | .addAssign | .subAssign | .mulAssign | .divAssign => true
  | _ => false

def Expr.IsTyped (symbols : Symbols) (e : Expr) : Prop := ∃ t, typeOf symbols e = .ok t

/-- An expression that the analysis has accepted, as it leaves it. -/
inductive Expr.Settled (symbols : Symbols) : Expr → Prop
  | literal (v : Value) : Settled symbols (.literal v)
  | unary {op : Keyword} {e} (hop : op.isUnary) (he : Settled symbols e) :
      Settled symbols (.unary op e)
  | convert {e : Expr} (t : VarType) (he : Settled symbols e) (htyped : e.IsTyped symbols) :
      Settled symbols (e.convert t)
  | binary {op : Keyword} {a b : Expr} (hop : op.isBinary) (hcast : op ≠ .kwAs)
      (ha : Settled symbols a) (hb : Settled symbols b) (hta : a.IsTyped symbols)
      (htb : b.IsTyped symbols)
      (htgt : op.wantsTarget → ∃ name symbol, a = .var name symbol) :
      Settled symbols (.binary op a b)
  | var (name : String) (t : VarType) (isConst : Bool) :
      Settled symbols (.var name (.ofVar t isConst))
  | call {func params result args}
      (hfunc : symbols.outer.find? func = some (.ofFunction params result))
      (hargs : ∀ a ∈ args, Settled symbols a) :
      Settled symbols (.call func (.ofFunction params result) args)
  | sysCall {func : Keyword} {args} (hfunc : func.startsCall)
      (hargs : ∀ a ∈ args, Settled symbols a) : Settled symbols (.sysCall func args)

section

variable {symbols : Symbols} {e : Expr} {p : Program}

lemma isTyped_convert (h : e.IsTyped symbols) (t : VarType) : (e.convert t).IsTyped symbols := by
  obtain ⟨s, hs⟩ := h
  refine ⟨t, ?_⟩
  simp only [Expr.convert, typeOf, hs]
  rfl

lemma targetError?_eq_none (h : targetError? e = none) : ∃ name symbol, e = .var name symbol := by
  unfold targetError? at h
  split at h
  · exact ⟨_, _, rfl⟩
  · cases h

/-- What the conversion of operands can do: either may be converted, but the left one not where a
variable is wanted there. -/
structure Operands.Convert (op : Keyword) (a b : Expr) (r : Operands) : Prop where
  left : r.left = a ∨ ∃ t, r.left = a.convert t
  right : r.right = b ∨ ∃ t, r.right = b.convert t
  target : op.wantsTarget → r.error = none → r.left = a ∧ targetError? a = none

lemma convertOperands_convert (op : Keyword) (a b : Expr) (lt rt : VarType) :
    (convertOperands op a b lt rt).Convert op a b := by
  unfold convertOperands
  split <;> (repeat' split) <;>
    exact ⟨by simp [Operands.keep], by simp [Operands.keep],
      by simp [Operands.keep, Keyword.wantsTarget]⟩

lemma settled_or_convert {e' : Expr} (he : e.Settled symbols) (htyped : e.IsTyped symbols)
    (h : e' = e ∨ ∃ t, e' = e.convert t) : e'.Settled symbols ∧ e'.IsTyped symbols := by
  rcases h with rfl | ⟨t, rfl⟩
  · exact ⟨he, htyped⟩
  · exact ⟨.convert t he htyped, isTyped_convert htyped t⟩

lemma Expr.Formed.binary_cases {op} {a b : Expr}
    (h : Expr.Formed symbols (.binary op a b)) : a.Formed symbols ∧
      ((op = .kwAs ∧ ∃ t, b = .typeName t) ∨ op.isBinary ∧ op ≠ .kwAs ∧ b.Formed symbols) := by
  generalize hx : Expr.binary op a b = x at h
  cases h with
  | convert t he =>
    cases hx
    exact ⟨he, .inl ⟨rfl, t, rfl⟩⟩
  | binary hop hcast ha hb =>
    cases hx
    exact ⟨ha, .inr ⟨hop, hcast, hb⟩⟩
  | _ => cases hx

lemma Stored.settled {args trees} {params : List VarType} {Q}
    (h : Stored symbols Q args params trees) (hQ : ∀ a t, Q a t → a.Formed symbols →
      t.Settled symbols) (hargs : ∀ a ∈ args, a.Formed symbols) :
    ∀ t ∈ trees, t.Settled symbols := by
  induction h with
  | nil => simp
  | keep htree _ _ _ ih =>
    have hrest := ih fun a ha => hargs a (by simp [ha])
    exact forall_mem_cons.2 ⟨hQ _ _ htree (hargs _ (by simp)), hrest⟩
  | convert ha htype _ ih =>
    have hrest := ih fun a ha => hargs a (by simp [ha])
    exact forall_mem_cons.2 ⟨.convert _ (hQ _ _ ha (hargs _ (by simp))) ⟨_, htype⟩, hrest⟩

/-- Trees of what the grammar has are settled; the type behind `as` stays. -/
lemma analysed_settled : Analysed symbols fun e tree =>
    (e.Formed symbols → tree.Settled symbols) ∧ ∀ t, e = .typeName t → tree = e where
  leaf := by
    intro e hleaf
    refine ⟨fun he => ?_, fun _ _ => rfl⟩
    cases he with
    | literal v => exact .literal v
    | var name t isConst => exact .var name t isConst
    | _ => cases hleaf
  fold := by
    rintro e tree v ⟨_, hname⟩ hv
    refine ⟨fun _ => .literal v, fun t ht => ?_⟩
    rw [hname t ht, ht] at hv
    cases hv
  unary := by
    rintro op a a' ⟨ha, _⟩
    refine ⟨fun he => ?_, fun t ht => by cases ht⟩
    cases he with
    | unary hop he => exact .unary hop (ha he)
  binary := by
    rintro op a b a' b' lt rt r ⟨ha, _⟩ ⟨hb, hname⟩ hlt hrt rfl herror
    refine ⟨fun he => ?_, fun t ht => by cases ht⟩
    rcases he.binary_cases with ⟨hea, ⟨rfl, t, rfl⟩ | ⟨hop, hcast, heb⟩⟩
    · rw [hname t rfl]
      exact .convert t (ha hea) ⟨lt, hlt⟩
    · have hconvert := convertOperands_convert op a' b' lt rt
      obtain ⟨hleft, htl⟩ := settled_or_convert (ha hea) ⟨lt, hlt⟩ hconvert.left
      obtain ⟨hright, htr⟩ := settled_or_convert (hb heb) ⟨rt, hrt⟩ hconvert.right
      refine .binary hop hcast hleft hright htl htr fun hwants => ?_
      -- where a variable is wanted, only the right operand may have been converted
      obtain ⟨hsame, htgt⟩ := hconvert.target hwants herror
      rw [hsame]
      exact targetError?_eq_none htgt
  call := by
    intro func symbol args trees params _ hstored
    refine ⟨fun he => ?_, fun t ht => by cases ht⟩
    cases he with
    | call hfunc hargs => exact .call hfunc (hstored.settled (fun _ _ h => h.1) hargs)
  sysCall := by
    intro func args trees hstored
    refine ⟨fun he => ?_, fun t ht => by cases ht⟩
    cases he with
    | sysCall hfunc hargs => exact .sysCall hfunc.1 (hstored.settled (fun _ _ h => h.1) hargs)

/-! ## Statements that were accepted -/

lemma map_eq_ok {ε α β : Type} {x : Except ε α} {f : α → β} {b : β} :
    x.map f = .ok b ↔ ∃ a, x = .ok a ∧ f a = b := by
  cases x <;> simp [Except.map]

/-- Of expressions with `A` the analysis leaves trees with `B`, and conversions keep that. -/
structure Accepting (symbols : Symbols) (A B : Expr → Prop) : Prop where
  expr {e : Expr} (he : A e) : ∀ e', (checkExpr symbols e).outcome = .ok e' →
    B (checkExpr symbols e).tree ∧ B e'
  convert {e : Expr} (t : VarType) : B e → e.IsTyped symbols → B (e.convert t)

lemma accepting_settled : Accepting symbols (Expr.Formed symbols) (Expr.Settled symbols) where
  expr he e' h := by
    obtain ⟨htree, hfolded, _⟩ := analysed_settled.checkExpr _ e' h
    exact ⟨htree.1 he, hfolded.1 he⟩
  convert := .convert

namespace Accepting

variable {A B : Expr → Prop} (hAB : Accepting symbols A B)

include hAB

lemma checkTyped {e : Expr} {target : VarType} {hint : VarType → Hint} (he : A e)
    (h : (checkTyped symbols e target hint).outcome = .ok ()) :
    B (checkTyped symbols e target hint).tree := by
  unfold Script.checkTyped at h ⊢
  simp only at h ⊢
  split at h
  · cases h
  · rename_i e' he'
    have hB := (hAB.expr he e' he').2
    split at h
    · cases h
    · rename_i t ht
      split
      · exact hB
      · exact hAB.convert target hB ⟨t, ht⟩

lemma checkDecl {d} (hd : ∀ e ∈ d.init, A e)
    (h : (checkDecl symbols d).outcome = .ok ()) : ∀ e ∈ (checkDecl symbols d).tree.init, B e := by
  unfold Script.checkDecl at h ⊢
  split at h
  · rename_i hinit
    simp [hinit]
  · rename_i e hinit
    simpa using hAB.checkTyped (hd e (by simp [hinit])) h

lemma checkReturn {value : Option Expr} {result : VarType} {returns : Bool}
    (hval : ∀ e ∈ value, A e) (h : (checkReturn symbols result value).outcome = .ok returns) :
    (checkReturn symbols result value).tree.Each B := by
  unfold Script.checkReturn at h ⊢
  cases value with
  | none =>
    simp only at h ⊢
    split <;> exact .ret (by simp)
  | some e =>
    simp only at h ⊢
    split at h
    · cases h
    · rename_i hres
      rw [if_neg hres]
      obtain ⟨_, htyped, _⟩ := map_eq_ok.1 h
      exact .ret (by simpa using hAB.checkTyped (hval e (by simp)) htyped)

end Accepting

section

variable (symbols) (result : VarType)

/-- Statements of which the analysis leaves these trees, in a loop or not; the last argument says
whether one of them surely returns. -/
inductive Passed : Bool → List Stmt → List Stmt → Bool → Prop
  | nil {l} : Passed l [] [] false
  | cons {l st st' rest rest' r r'} (hst : Passed l [st] [st'] r) (hrest : Passed l rest rest' r') :
      Passed l (st :: rest) (st' :: rest') (r || r')
  | expr {l e e'} (he : (checkExpr symbols e).outcome = .ok e') :
      Passed l [.expr e] [.expr (checkExpr symbols e).tree] false
  | decl {l d} (hd : (checkDecl symbols d).outcome = .ok ()) :
      Passed l [.decl d] [.decl (checkDecl symbols d).tree] false
  | ifElse {l cond yes yes' no no' r r'}
      (hcond : (checkTyped symbols cond .int .ifCondition).outcome = .ok ())
      (hyes : Passed l yes yes' r) (hno : Passed l no no' r') :
      Passed l [.ifElse cond yes no]
        [.ifElse (checkTyped symbols cond .int .ifCondition).tree yes' no'] (r && r')
  | whileDo {l cond body body' r}
      (hcond : (checkTyped symbols cond .int .whileCondition).outcome = .ok ())
      (hbody : Passed true body body' r) :
      Passed l [.whileDo cond body]
        [.whileDo (checkTyped symbols cond .int .whileCondition).tree body'] false
  | loop {l body body' r} (hbody : Passed true body body' r) :
      Passed l [.loop body] [.loop body'] false
  | ret {l value r} (hval : (checkReturn symbols result value).outcome = .ok r) :
      Passed l [.ret value] [(checkReturn symbols result value).tree] r
  | leaveLoop : Passed true [.leaveLoop] [.leaveLoop] false
  | blank {l} : Passed l [.blank] [.blank] false

end

section

variable {result : VarType} {inLoop returns : Bool} {body body' : List Stmt}

lemma passed_checkBlock_of
    (hbody : ∀ st ∈ body, ∀ {inLoop returns},
      (checkStmt symbols result inLoop st).outcome = .ok returns →
      Passed symbols result inLoop [st] [(checkStmt symbols result inLoop st).tree] returns) :
    ∀ {inLoop returns}, (checkBlock symbols result inLoop body).outcome = .ok returns →
      Passed symbols result inLoop body (checkBlock symbols result inLoop body).tree returns := by
  induction body with
  | nil =>
    intro inLoop returns h
    cases h
    exact .nil
  | cons st rest ih =>
    intro inLoop returns h
    rw [checkBlock] at h ⊢
    simp only at h ⊢
    split at h
    · cases h
    · rename_i first hfirst
      obtain ⟨_, hmore, rfl⟩ := map_eq_ok.1 h
      exact .cons (hbody st (by simp) hfirst)
        (ih (fun st' hst' => hbody st' (by simp [hst'])) hmore)

lemma passed_checkStmt (st : Stmt)
    (h : (checkStmt symbols result inLoop st).outcome = .ok returns) :
    Passed symbols result inLoop [st] [(checkStmt symbols result inLoop st).tree] returns := by
  induction st generalizing inLoop returns with
  | expr e =>
    obtain ⟨_, he, rfl⟩ := map_eq_ok.1 h
    exact .expr he
  | decl d =>
    obtain ⟨_, hd, rfl⟩ := map_eq_ok.1 h
    exact .decl hd
  | ifElse cond yes no ihyes ihno =>
    rw [checkStmt] at h ⊢
    simp only at h ⊢
    split at h
    · cases h
    · rename_i hcond
      split at h
      · cases h
      · rename_i thenReturns hthen
        obtain ⟨_, helse, rfl⟩ := map_eq_ok.1 h
        exact .ifElse hcond (passed_checkBlock_of ihyes hthen) (passed_checkBlock_of ihno helse)
  | whileDo cond body ih =>
    rw [checkStmt] at h ⊢
    simp only at h ⊢
    split at h
    · cases h
    · rename_i hcond
      obtain ⟨_, hbody, rfl⟩ := map_eq_ok.1 h
      exact .whileDo hcond (passed_checkBlock_of ih hbody)
  | loop body ih =>
    obtain ⟨_, hbody, rfl⟩ := map_eq_ok.1 h
    exact .loop (passed_checkBlock_of ih hbody)
  | ret value => exact .ret h
  | leaveLoop =>
    cases inLoop <;> cases h
    exact .leaveLoop
  | blank =>
    cases h
    exact .blank

lemma Passed.each {A B : Expr → Prop} (hAB : Accepting symbols A B)
    (h : Passed symbols result inLoop body body' returns) :
    (∀ st ∈ body, st.Each A) → ∀ st ∈ body', st.Each B := by
  induction h with
  | nil =>
    intro _ st hst
    cases hst
  | cons _ _ ihst ihrest =>
    intro hbody
    obtain ⟨hst, hrest⟩ := forall_mem_cons.1 hbody
    have hB := ihst (forall_mem_singleton.2 hst)
    exact forall_mem_cons.2 ⟨forall_mem_singleton.1 hB, ihrest hrest⟩
  | expr he =>
    simp only [forall_mem_singleton]
    rintro ⟨hA⟩
    exact .expr (hAB.expr hA _ he).1
  | decl hd =>
    simp only [forall_mem_singleton]
    rintro (_ | hA)
    exact .decl (hAB.checkDecl hA hd)
  | ifElse hcond _ _ ihyes ihno =>
    simp only [forall_mem_singleton]
    rintro (_ | _ | ⟨hA, hyes, hno⟩)
    exact .ifElse (hAB.checkTyped hA hcond) (ihyes hyes) (ihno hno)
  | whileDo hcond _ ih =>
    simp only [forall_mem_singleton]
    rintro (_ | _ | _ | ⟨hA, hbody⟩)
    exact .whileDo (hAB.checkTyped hA hcond) (ih hbody)
  | loop _ ih =>
    simp only [forall_mem_singleton]
    rintro (_ | _ | _ | _ | hbody)
    exact .loop (ih hbody)
  | ret hval =>
    simp only [forall_mem_singleton]
    rintro (_ | _ | _ | _ | _ | hA)
    exact hAB.checkReturn hA hval
  | leaveLoop =>
    simp only [forall_mem_singleton]
    exact fun _ => .leaveLoop
  | blank =>
    simp only [forall_mem_singleton]
    rintro ⟨⟩

end

/-! ## Programs that were accepted -/

/-- What the analysis leaves of a declaration. -/
def Decl.checked (symbols : Symbols) : Decl → Decl
  | .var d => .var (checkDecl symbols d).tree
  | .func f => .func (checkFunc symbols f).tree

/-- The analysis accepts a declaration. -/
def Decl.Passes (symbols : Symbols) : Decl → Prop
  | .var d => (checkDecl symbols d).outcome = .ok ()
  | .func f => (checkFunc symbols f).outcome = .ok ()

lemma Program.check_passes (h : (p.check symbols).outcome = .ok ()) :
    (p.check symbols).tree.decls = p.decls.map (Decl.checked symbols) ∧
      ∀ d ∈ p.decls, d.Passes symbols := by
  have hdecls : ∀ ds, (checkDecls symbols ds).outcome = .ok () →
      (checkDecls symbols ds).tree = ds.map (Decl.checked symbols) ∧
        ∀ d ∈ ds, d.Passes symbols := by
    intro ds
    induction ds with
    | nil => simp [checkDecls]
    | cons d rest ih =>
      intro h
      cases d
      all_goals
        rw [checkDecls] at h ⊢
        simp only at h ⊢
        split at h
        · cases h
        · next hd => exact ⟨congrArg _ (ih h).1, forall_mem_cons.2 ⟨hd, (ih h).2⟩⟩
  unfold Program.check at h ⊢
  split at h
  · cases h
  · exact hdecls p.decls h

lemma passed_checkFunc {f} (h : (checkFunc symbols f).outcome = .ok ()) :
    ∃ returns, (f.returnType ≠ .void → returns = true) ∧
      Passed symbols f.returnType false f.body (checkFunc symbols f).tree.body returns := by
  unfold checkFunc at h ⊢
  simp only at h ⊢
  split at h
  · cases h
  · rename_i returns hbody
    refine ⟨returns, fun hres => ?_,
      passed_checkBlock_of (fun st _ => passed_checkStmt st) hbody⟩
    by_contra hnot
    rw [if_pos ⟨hres, by simpa using hnot⟩] at h
    cases h

lemma Program.check_each {A B} (hAB : Accepting symbols A B)
    (hp : ∀ d ∈ p.decls, d.Each A) (h : (p.check symbols).outcome = .ok ()) :
    ∀ d ∈ (p.check symbols).tree.decls, d.Each B := by
  obtain ⟨htree, hpasses⟩ := Program.check_passes h
  rw [htree, forall_mem_map]
  intro d hd
  have hA := hp d hd
  have hpass := hpasses d hd
  cases d with
  | var d => exact hAB.checkDecl hA hpass
  | func f =>
    obtain ⟨_, _, hbody⟩ := passed_checkFunc hpass
    exact hbody.each hAB hA

lemma Program.check_settled (hp : ∀ d ∈ p.decls, d.Formed symbols)
    (h : (p.check symbols).outcome = .ok ()) :
    ∀ d ∈ (p.check symbols).tree.decls, d.Each (Expr.Settled symbols) :=
  Program.check_each accepting_settled hp h

end

end ArmStudio.Script
