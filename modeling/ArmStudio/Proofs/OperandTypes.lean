import ArmStudio.Proofs.CheckedTrees

/-!
# Types of operands and arguments

The analysis converts operands to one type and arguments to the types of their parameters. There
are two exceptions, and this module says exactly where they are.
-/

namespace ArmStudio.Script

open Code List Script.Expr

def Keyword.isOrder : Keyword → Bool
  | .less | .lessEqual | .greater | .greaterEqual => true
  | _ => false

def Keyword.convertsOperands : Keyword → Bool
  | .plus | .minus | .times | .divide => true
  | op => op.wantsTarget || op.isOrder

def VarType.IsNumeric (t : VarType) : Prop := t = .int ∨ t = .float

variable (symbols : Symbols)

/-- A floating-point number was converted to one, beside an integer. -/
def Needless (a b : Expr) : Prop :=
  ∃ x, a = x.convert .float ∧ typeOf symbols x = .ok .float ∧ typeOf symbols b = .ok .int

/-- The operand of a comparison was converted that should have stayed. -/
def Misplaced (op : Keyword) (a b : Expr) : Prop :=
  op.isOrder = true ∧ (Needless symbols a b ∨ Needless symbols b a)

/-! ## Arguments -/

/-- An argument has the type of its parameter exactly if it has that of its value, or no value. -/
def PassedAs (a : Expr) (param : VarType) : Prop :=
  typeOf symbols a = .ok param ↔
    ∀ v, evalConst a = .ok (some v) → typeOf symbols a = typeOf symbols (.literal v)

section

variable {symbols : Symbols} {a b : Expr} {s t lt rt : VarType} {op : Keyword}

lemma typeOf_convert (h : typeOf symbols a = .ok s) (t : VarType) :
    typeOf symbols (a.convert t) = .ok t := by
  simp only [convert, typeOf, h]
  rfl

lemma Needless.types (h : Needless symbols a b) :
    typeOf symbols a = .ok .float ∧ typeOf symbols b = .ok .int := by
  obtain ⟨x, rfl, hx, hb⟩ := h
  exact ⟨typeOf_convert hx .float, hb⟩

lemma Misplaced.ne (h : Misplaced symbols op a b) (hs : typeOf symbols a = .ok s)
    (ht : typeOf symbols b = .ok t) : s ≠ t := by
  rcases h.2 with h | h
  · cases hs.symm.trans h.types.1
    cases ht.symm.trans h.types.2
    decide
  · cases hs.symm.trans h.types.2
    cases ht.symm.trans h.types.1
    decide

/-- Operands that were accepted are of one type, or one of them was converted to the type of the
other, or it was the wrong one. -/
lemma convertOperands_cases (hop : op.convertsOperands) (a b : Expr)
    (herror : (convertOperands op a b lt rt).error = none) : let r := convertOperands op a b lt rt
    (r.left = a ∧ r.right = b ∧ (lt.IsNumeric → rt.IsNumeric → lt = rt)) ∨
      (r.left = a.convert rt ∧ r.right = b) ∨ (r.left = a ∧ r.right = b.convert lt) ∨
      (op.isOrder = true ∧ lt = .float ∧ rt = .int ∧ r.left = a.convert .float ∧ r.right = b) ∨
      op.isOrder = true ∧ lt = .int ∧ rt = .float ∧ r.left = a ∧ r.right = b.convert .float := by
  cases op <;> simp only [Keyword.convertsOperands, Keyword.wantsTarget, Keyword.isOrder,
    Bool.or_false, Bool.false_eq_true] at hop
  -- each operator accepts some pairs of types only
  all_goals
    cases lt <;> cases rt <;>
      simp_all [convertOperands, Operands.keep, VarType.IsNumeric, Keyword.isOrder]

lemma misplaced_of_ne {lt rt s t : VarType} (hop : op.convertsOperands)
    (hlt : typeOf symbols a = .ok lt) (hrt : typeOf symbols b = .ok rt)
    (herror : (convertOperands op a b lt rt).error = none)
    (hs : typeOf symbols (convertOperands op a b lt rt).left = .ok s)
    (ht : typeOf symbols (convertOperands op a b lt rt).right = .ok t) (hsn : s.IsNumeric)
    (htn : t.IsNumeric) (hne : s ≠ t) :
    Misplaced symbols op (convertOperands op a b lt rt).left
      (convertOperands op a b lt rt).right := by
  have hcases := convertOperands_cases hop a b herror
  generalize convertOperands op a b lt rt = r at hs ht hcases ⊢
  rcases hcases with ⟨hl, hr, hsame⟩ | ⟨hl, hr⟩ | ⟨hl, hr⟩ | ⟨hord, rfl, rfl, hl, hr⟩ |
    ⟨hord, rfl, rfl, hl, hr⟩ <;> rw [hl] at hs ⊢ <;> rw [hr] at ht ⊢
  · cases hs.symm.trans hlt
    cases ht.symm.trans hrt
    exact absurd (hsame hsn htn) hne
  · cases hs.symm.trans (typeOf_convert hlt rt)
    cases ht.symm.trans hrt
    exact absurd rfl hne
  · cases hs.symm.trans hlt
    cases ht.symm.trans (typeOf_convert hrt lt)
    exact absurd rfl hne
  · exact ⟨hord, .inl ⟨a, rfl, hlt, hrt⟩⟩
  · exact ⟨hord, .inr ⟨b, rfl, hrt, hlt⟩⟩

lemma passedAs_of_folds {tree : Expr} {param : VarType} (hfolds : Folds tree a)
    (htype : typeOf symbols a = .ok param) : PassedAs symbols tree param := by
  cases hfolds with
  | keep hnone =>
    refine iff_of_true htype fun v hv => ?_
    rw [hnone] at hv
    cases hv
  -- it was the value that was compared with the parameter, and the tree that was stored
  | value hv =>
    constructor
    · intro htree v' hv'
      cases hv.symm.trans hv'
      rw [htree, htype]
    · intro h
      rw [h _ hv, htype]

lemma typeOf_evalCast {x v : Value} (h : evalCast t x = .ok (some v)) :
    typeOf symbols (.literal v) = .ok t := by
  cases t with
  | int | float =>
    obtain ⟨_, _, hv⟩ := map_eq_ok.1 h
    cases hv
    rfl
  | _ => cases h

lemma passedAs_convert (htype : typeOf symbols a = .ok t) (param : VarType) :
    PassedAs symbols (a.convert param) param := by
  refine iff_of_true (typeOf_convert htype param) fun v hv => ?_
  rw [convert, evalConst] at hv
  obtain ⟨value, _, hv⟩ := bind_eq_ok.1 hv
  cases value with
  | none => cases hv
  | some x => rw [typeOf_convert htype param, typeOf_evalCast (mapError_eq_ok.1 hv)]

/-! ## Nodes -/

/-- What the analysis grants at a node. -/
def Expr.IsSound (symbols : Symbols) : Expr → Prop
  | .binary op a b => op.convertsOperands = true → ∀ s t, typeOf symbols a = .ok s →
      typeOf symbols b = .ok t → s.IsNumeric → t.IsNumeric → (s ≠ t ↔ Misplaced symbols op a b)
  | .call func _ args => ∃ params, callParams? symbols func args.length = .ok params ∧
      List.Forall₂ (PassedAs symbols) args params
  | .sysCall func args => List.Forall₂ (PassedAs symbols) args func.callParams
  | _ => True

/-- Everything in a tree is as the analysis grants it. -/
def Expr.AllSound (symbols : Symbols) (tree : Expr) : Prop := ∀ n ∈ tree.nodes, n.IsSound symbols

lemma allSound_convert {a' : Expr} (h : a.AllSound symbols)
    (ha' : a' = a ∨ ∃ t, a' = a.convert t) : a'.AllSound symbols := by
  rcases ha' with rfl | ⟨t, rfl⟩
  · exact h
  · intro n hn
    simp only [convert, nodes, mem_cons, mem_append, not_mem_nil, or_false] at hn
    rcases hn with rfl | hn | rfl
    · intro hop
      cases hop
    · exact h n hn
    · trivial

lemma Stored.sound {args trees} {params : List VarType}
    (h : Stored symbols (fun _ tree => tree.AllSound symbols) args params trees) :
    args.length = trees.length ∧ List.Forall₂ (PassedAs symbols) trees params ∧
      ∀ n ∈ nodesIn trees, n.IsSound symbols := by
  induction h with
  | nil => exact ⟨rfl, .nil, by simp [nodesIn]⟩
  | keep htree hfolds htype _ ih =>
    obtain ⟨hlen, hpass, hnodes⟩ := ih
    refine ⟨congrArg (· + 1) hlen, .cons (passedAs_of_folds hfolds htype) hpass, ?_⟩
    simpa only [nodesIn, forall_mem_append] using ⟨htree, hnodes⟩
  | convert ha htype _ ih =>
    obtain ⟨hlen, hpass, hnodes⟩ := ih
    refine ⟨congrArg (· + 1) hlen, .cons (passedAs_convert htype _) hpass, ?_⟩
    simpa only [nodesIn, forall_mem_append] using
      ⟨allSound_convert ha (.inr ⟨_, rfl⟩), hnodes⟩

lemma analysed_nodes : Analysed symbols fun _ tree => tree.AllSound symbols where
  leaf := by
    intro e hleaf
    cases e <;> first | cases hleaf; done | skip
    all_goals
      intro n hn
      rw [mem_singleton.1 hn]
      trivial
  fold := by
    intro e tree v _ _ n hn
    rw [mem_singleton.1 hn]
    trivial
  unary := by
    intro op a a' ha
    exact forall_mem_cons.2 ⟨trivial, ha⟩
  binary := by
    rintro op a b a' b' lt rt r ha hb hlt hrt rfl herror
    obtain ⟨hleft, hright, _⟩ := convertOperands_convert op a' b' lt rt
    refine forall_mem_cons.2 ⟨?_, forall_mem_append.2
      ⟨allSound_convert ha hleft, allSound_convert hb hright⟩⟩
    intro hop s t hs ht hsn htn
    exact ⟨misplaced_of_ne hop hlt hrt herror hs ht hsn htn, fun h => h.ne hs ht⟩
  call := by
    intro func symbol args trees params hpars hstored
    obtain ⟨hlen, hpass, hnodes⟩ := hstored.sound
    exact forall_mem_cons.2 ⟨⟨params, hlen ▸ hpars, hpass⟩, hnodes⟩
  sysCall := by
    intro func args trees hstored
    obtain ⟨_, hpass, hnodes⟩ := hstored.sound
    exact forall_mem_cons.2 ⟨hpass, hnodes⟩

end

/-- In what the analysis returns, numeric operands that it should have converted to one type differ
exactly where the floating-point operand of a comparison was converted for the integer. -/
theorem operands_differ_iff {symbols : Symbols} {e e' a b : Expr} {op : Keyword} {s t : VarType}
    (h : (checkExpr symbols e).outcome = .ok e') (hnode : .binary op a b ∈ e'.nodes)
    (hop : op.convertsOperands = true) (hs : typeOf symbols a = .ok s)
    (ht : typeOf symbols b = .ok t) (hsn : s.IsNumeric) (htn : t.IsNumeric) :
    s ≠ t ↔ Misplaced symbols op a b :=
  (analysed_nodes.checkExpr e e' h).2.1 _ hnode hop s t hs ht hsn htn

/-- A floating-point variable is compared with an integer one: they still differ. -/
theorem operands_differ_less : let x := var "x" (.ofVar .float false)
    let y := var "y" (.ofVar .int false)
    (checkExpr .empty (.binary .less x y)).outcome = .ok (.binary .less (x.convert .float) y) ∧
      typeOf .empty (x.convert .float) = .ok .float ∧ typeOf .empty y = .ok .int ∧
      Misplaced .empty .less (x.convert .float) y := by
  intro x y
  have hok : (checkExpr .empty (.binary .less x y)).outcome =
      .ok (.binary .less (x.convert .float) y) := by rfl
  have hnode : .binary .less (x.convert .float) y ∈
      (binary .less (x.convert .float) y).nodes := List.mem_cons_self ..
  refine ⟨hok, rfl, rfl, ?_⟩
  exact (operands_differ_iff hok hnode rfl rfl rfl (.inr rfl) (.inl rfl)).1 (by decide)

/-- In an analysed tree, calls have an argument for each parameter. Each of them has the type of the
parameter, unless it has a value that is of that type while it is not itself. -/
theorem arguments_typed_iff {symbols : Symbols} {e e' : Expr}
    (h : (checkExpr symbols e).outcome = .ok e') :
    (∀ func symbol args, .call func symbol args ∈ (checkExpr symbols e).tree.nodes →
      ∃ params, callParams? symbols func args.length = .ok params ∧
        List.Forall₂ (PassedAs symbols) args params) ∧
    ∀ func args, .sysCall func args ∈ (checkExpr symbols e).tree.nodes →
      List.Forall₂ (PassedAs symbols) args func.callParams := by
  have hsound := (analysed_nodes.checkExpr e e' h).1
  exact ⟨fun func symbol args hnode => hsound _ hnode, fun func args hnode => hsound _ hnode⟩

/-- The quotient of two integers is an integer, but its value is not. As an argument for a
floating-point parameter it stays as it is. -/
theorem arguments_typed_quotient :
    let symbols := (Scopes.empty.declareGlobal "f" (Symbol.ofFunction [.float] .void)).2
    let half := binary .divide (.literal (.int 1)) (.literal (.int 2))
    let call := call "f" (.ofFunction [.float] .void) [half]
    (checkExpr symbols call).tree = call ∧ (checkExpr symbols call).outcome = .ok call ∧
      typeOf symbols half = .ok .int ∧ PassedAs symbols half .float := by
  intro symbols half call
  have hok : (checkExpr symbols call).outcome = .ok call := by
    set_option maxRecDepth 10000 in with_unfolding_all rfl
  have htree : (checkExpr symbols call).tree = call := by
    set_option maxRecDepth 10000 in with_unfolding_all rfl
  refine ⟨htree, hok, rfl, ?_⟩
  obtain ⟨params, hpars, hpass⟩ := (arguments_typed_iff hok).1 "f" (.ofFunction [.float] .void)
    [half] (by rw [htree]; exact List.mem_cons_self ..)
  cases hpars
  cases hpass with
  | cons h _ => exact h

end ArmStudio.Script
