import ArmStudio.Proofs.Lookahead

/-!
# How operators group

A chain of operands with operators between them is read to its end. The tree keeps their order, and
in it the left operand of an operator binds more closely than the operator itself, the right operand
at least as closely. Operators of one power so group to the right.
-/

namespace ArmStudio.Script

open List

/-- A token that is an operand by itself, and its expression. -/
inductive IsOperand (symbols : Symbols) : Token → Expr → Prop
  | int (n : Int) (line : Nat) : IsOperand symbols ⟨.int n, line⟩ (.literal (.int n))
  | var {name : String} {symbol : Symbol} (line : Nat)
      (hfound : symbols.lookup? name = some symbol) (hkind : symbol.kind = .variable) :
      IsOperand symbols ⟨.name name, line⟩ (.var name symbol)

/-- A token that is a literal or a declared variable, and its expression. -/
inductive IsLeaf (symbols : Symbols) : Token → Expr → Prop
  | operand {t : Token} {e : Expr} (h : IsOperand symbols t e) : IsLeaf symbols t e
  | real (x : Number.Double) (line : Nat) : IsLeaf symbols ⟨.real x, line⟩ (.literal (.real x))

/-- An operator with the operand behind it. -/
structure Operation where
  op : Keyword
  line : Nat
  token : Token
  operand : Expr

namespace Operation

def tokens (o : Operation) : List Token := [⟨.keyword o.op, o.line⟩, o.token]

/-- The operator stands between operands, has the binding power and is no conversion. -/
structure HasPower (symbols : Symbols) (own : Nat) (o : Operation) : Prop where
  binary : o.op.isBinary
  noCast : o.op ≠ .kwAs
  power : o.op.precedence? = some own
  operand : IsOperand symbols o.token o.operand

/-- The operator stands between operands and is no conversion. -/
structure IsPlain (symbols : Symbols) (o : Operation) : Prop where
  binary : o.op.isBinary
  noCast : o.op ≠ .kwAs
  operand : IsLeaf symbols o.token o.operand

end Operation

def groupRight : Expr → List Operation → Expr
  | e, [] => e
  | e, o :: rest => .binary o.op e (groupRight o.operand rest)

def groupLeft (e : Expr) (os : List Operation) : Expr :=
  os.foldl (fun left o => .binary o.op left o.operand) e

lemma groupLeft_snoc (e : Expr) (os : List Operation) (o : Operation) :
    groupLeft e (os ++ [o]) = .binary o.op (groupLeft e os) o.operand := by
  simp [groupLeft]

lemma groupRight_eq_groupLeft_iff {e : Expr} (he : ∀ op a b, e ≠ .binary op a b)
    (os : List Operation) : groupRight e os = groupLeft e os ↔ os.length ≤ 1 := by
  match os with
  | [] => simp [groupRight, groupLeft]
  | [o] => simp [groupRight, groupLeft]
  | o :: o' :: rest =>
    -- On the right the first operand stands alone, on the left it is inside a tree.
    obtain ⟨init, final, hsplit⟩ : ∃ init final, o' :: rest = init ++ [final] :=
      ⟨_, _, (dropLast_concat_getLast (by simp)).symm⟩
    have hleft : groupLeft e (o :: o' :: rest) =
        .binary final.op (groupLeft e (o :: init)) final.operand := by
      rw [hsplit, ← cons_append, groupLeft_snoc]
    have hinner : ∃ op a b, groupLeft e (o :: init) = .binary op a b := by
      rcases eq_nil_or_concat init with rfl | ⟨before, last, hinit⟩
      · exact ⟨_, _, _, rfl⟩
      · rw [hinit, concat_eq_append, ← cons_append, groupLeft_snoc]
        exact ⟨_, _, _, rfl⟩
    obtain ⟨op, a, b, hinner⟩ := hinner
    constructor
    · intro heq
      rw [hleft, hinner, groupRight, Expr.binary.injEq] at heq
      exact absurd heq.2.1 (he op a b)
    · intro hlen
      simp at hlen

/-! ## Order and powers in a tree -/

def Keyword.power (k : Keyword) : Nat := k.precedence?.getD 0

/-- Operands and operators from left to right. -/
def Expr.inOrder : Expr → List (Expr ⊕ Keyword)
  | .binary op a b => a.inOrder ++ .inr op :: b.inOrder
  | e => [.inl e]

def chainInOrder (os : List Operation) : List (Expr ⊕ Keyword) :=
  os.flatMap fun o => [.inr o.op, .inl o.operand]

/-- An operator on top of the tree has at least the power. -/
def Expr.BindsAt (power : Nat) : Expr → Prop
  | .binary op _ _ => power ≤ op.power
  | _ => True

/-- Operators inside of left operands have more power, those inside of right operands at least as
much. -/
def Expr.IsClimbing : Expr → Prop
  | .binary op a b => a.BindsAt (op.power + 1) ∧ b.BindsAt op.power ∧ a.IsClimbing ∧ b.IsClimbing
  | _ => True

section

variable {symbols : Symbols} {t : Token} {e : Expr} {own : Nat} {o : Operation}

lemma Operation.HasPower.isPlain (h : o.HasPower symbols own) : o.IsPlain symbols :=
  ⟨h.binary, h.noCast, .operand h.operand⟩

namespace IsLeaf

variable (h : IsLeaf symbols t e)

include h

lemma isAtom : IsAtom symbols t e := by
  rcases h with (_ | ⟨_, hfound, hkind⟩) | _
  · exact .inl rfl
  · exact .inl (by simp [atom?, hfound, hkind])
  · exact .inl rfl

lemma ne_binary (op : Keyword) (a b : Expr) : e ≠ .binary op a b := by
  rcases h with (_ | _) | _ <;> simp

lemma inOrder_eq : e.inOrder = [.inl e] := by
  rcases h with (_ | _) | _ <;> rfl

lemma isClimbing : e.IsClimbing := by
  rcases h with (_ | _) | _ <;> trivial

lemma bindsAt (power : Nat) : e.BindsAt power := by
  rcases h with (_ | _) | _ <;> trivial

end IsLeaf

lemma Expr.inOrder_cases (e : Expr) : e.inOrder = [.inl e] ∨ ∃ op a b, e = .binary op a b := by
  cases e with
  | binary op a b => exact .inr ⟨op, a, b, rfl⟩
  | _ => exact .inl rfl

lemma Expr.power_eq_of_mem {os} (hos : ∀ o ∈ os, o.op.power = own) {k}
    (h : .inr k ∈ Sum.inl e :: chainInOrder os) : k.power = own := by
  simp only [chainInOrder, mem_cons, reduceCtorEq, false_or, mem_flatMap,
    not_mem_nil, or_false, Sum.inr.injEq] at h
  obtain ⟨o, ho, rfl⟩ := h
  exact hos o ho

lemma Expr.IsClimbing.eq_groupRight {tree : Expr} (h : tree.IsClimbing) :
    ∀ e os, (∀ o ∈ os, o.op.power = own) →
      tree.inOrder = .inl e :: chainInOrder os → tree = groupRight e os := by
  induction tree with
  | binary op a b _ ihb =>
    intro e os hos horder
    have hpower : ∀ k, .inr k ∈ Expr.inOrder (.binary op a b) → k.power = own := fun k hk =>
      power_eq_of_mem hos (horder ▸ hk)
    obtain ⟨hleft, -, -, hright⟩ := h
    rcases a.inOrder_cases with ha | ⟨op', a', b', rfl⟩
    · rw [inOrder, ha] at horder
      cases os with
      | nil => simp [chainInOrder] at horder
      | cons o os =>
        simp only [chainInOrder, flatMap_cons, cons_append, nil_append,
          List.cons.injEq, Sum.inl.injEq, Sum.inr.injEq] at horder
        obtain ⟨rfl, rfl, hb⟩ := horder
        rw [groupRight, ihb hright _ _ (fun o' ho' => hos o' (by simp [ho'])) hb]
    · have hop := hpower op (by simp [inOrder])
      have hop' := hpower op' (by simp [inOrder])
      rw [BindsAt] at hleft
      omega
  | _ =>
    intro e os _ horder
    cases os with
    | nil => simpa [chainInOrder, groupRight, inOrder] using horder
    | cons o os => simp [chainInOrder, inOrder] at horder

end

/-! ## Reading a chain -/

/-- What is read of a chain with a power: its first operations, in order and behind `first`. The
next operator has less power. -/
structure Takes (power : Nat) (first : List (Expr ⊕ Keyword)) (taken left : List Operation)
    (tree : Expr) : Prop where
  inOrder : tree.inOrder = first ++ chainInOrder taken
  climbing : tree.IsClimbing
  binds : tree.BindsAt power
  next : ∀ o ∈ left.head?, o.op.power < power

section

variable {symbols : Symbols} {rest : List Token} {past : Bool} {t : Token} {c : Cursor}

lemma parseExpr_chain {fuel power : Nat} (last : Option Token) {ahead}
    {e tree : Expr} (ht : IsLeaf symbols t e)
    (h : parseOperators symbols (fuel + 1) power e ⟨some t, ahead, past⟩ = .ok (tree, c)) :
    parseExpr symbols (fuel + 2) power ⟨last, t :: ahead, past⟩ = .ok (tree, c) :=
  parseExpr_eq_ok_iff.2
    ⟨e, _, parseOperand_eq_ok_iff.2 ⟨t, rfl, .inl ⟨ht.isAtom, rfl⟩⟩, h⟩

lemma parseOperators_takes (hrest : Stopped rest) (n : Nat) : ∀ (os : List Operation)
    (fuel power : Nat) (left : Expr) (last : Token), os.length = n →
    (∀ o ∈ os, o.IsPlain symbols) → 2 * n + 1 ≤ fuel → left.IsClimbing → left.BindsAt power →
    (∀ o ∈ os.head?, left.BindsAt (o.op.power + 1)) →
    ∃ tree final taken others, os = taken ++ others ∧ parseOperators symbols fuel power left
          ⟨some last, os.flatMap Operation.tokens ++ rest, past⟩ =
        .ok (tree, ⟨some final, others.flatMap Operation.tokens ++ rest, past⟩) ∧
      Takes power left.inOrder taken others tree := by
  induction n using Nat.strongRecOn with
  | ind n ih =>
    intro os fuel power left last hn hos hfuel hclimbing hbinds hfirst
    obtain ⟨fuel, rfl⟩ : ∃ k, fuel = k + 1 := ⟨fuel - 1, by omega⟩
    cases os with
    | nil =>
      exact ⟨left, last, [], [], rfl,
        parseOperators_eq_ok_iff.2 (.inl ⟨.of_stopped hrest, rfl, rfl⟩),
        by simp [chainInOrder], hclimbing, hbinds, by simp⟩
    | cons o os =>
      have ho := hos o (by simp)
      by_cases hless : o.op.power < power
      · refine ⟨left, last, [], o :: os, rfl, parseOperators_eq_ok_iff.2 (.inl ⟨?_, rfl, rfl⟩),
          by simp [chainInOrder], hclimbing, hbinds, by simpa using hless⟩
        rintro _ ⟨⟩
        refine ⟨fun _ => hless, fun hparen => ?_⟩
        have hbin := ho.binary
        rw [hparen] at hbin
        cases hbin
      · rw [length_cons] at hn
        obtain ⟨fuel, rfl⟩ : ∃ k, fuel = k + 2 := ⟨fuel - 2, by omega⟩
        -- the right operand takes in the operators that bind at least as closely
        obtain ⟨right, final, taken, others, rfl, hright, htakes⟩ := ih os.length (by omega) os
          (fuel + 1) o.op.power o.operand o.token rfl (fun o' ho' => hos o' (by simp [ho']))
          (by omega) ho.operand.isClimbing (ho.operand.bindsAt _)
          (fun _ _ => ho.operand.bindsAt _)
        have hopnd := parseExpr_chain (some ⟨.keyword o.op, o.line⟩) ho.operand hright
        rw [length_append] at hn
        -- the next operator binds less closely than this one
        obtain ⟨tree, final', taken', others', rfl, htree, htakes'⟩ := ih others.length
          (by omega) others (fuel + 2) power (.binary o.op left right) final rfl
          (fun o' ho' => hos o' (by simp [ho'])) (by omega)
          ⟨hfirst o rfl, htakes.binds, hclimbing, htakes.climbing⟩ (not_lt.1 hless)
          (fun o' ho' => htakes.next o' ho')
        refine ⟨tree, final', o :: (taken ++ taken'), others', by simp,
          parseOperators_eq_ok_iff.2 (.inr (.inl ⟨o.op, rfl, ho.binary, not_lt.1 hless,
            .inr ⟨ho.noCast, right, _, hopnd, htree⟩⟩)),
          ?_, htakes'.climbing, htakes'.binds, htakes'.next⟩
        rw [htakes'.inOrder, Expr.inOrder, htakes.inOrder, ho.operand.inOrder_eq]
        simp [chainInOrder]

lemma expression_takes {e : Expr} {os} (hrest : Stopped rest)
    (ht : IsLeaf symbols t e) (hos : ∀ o ∈ os, o.IsPlain symbols)
    (hahead : c.ahead = t :: os.flatMap Operation.tokens ++ rest) :
    ∃ tree final, expression symbols c = .ok (tree, ⟨some final, rest, c.past⟩) ∧
      tree.inOrder = .inl e :: chainInOrder os ∧ tree.IsClimbing := by
  have hlength : (os.flatMap Operation.tokens).length = 2 * os.length := by
    simp [length_flatMap, Operation.tokens, map_const', mul_comm]
  obtain ⟨fuel, hfuel, hle⟩ : ∃ fuel, c.fuel = fuel + 2 ∧ 2 * os.length + 1 ≤ fuel + 1 := by
    refine ⟨c.fuel - 2, ?_⟩
    rw [Cursor.fuel, hahead, length_append, length_cons, hlength]
    omega
  rcases c with ⟨last, ahead, past⟩
  subst hahead
  obtain ⟨tree, final, taken, others, rfl, htree, htakes⟩ := parseOperators_takes hrest os.length os
    (fuel + 1) 0 e t rfl hos hle ht.isClimbing (ht.bindsAt 0) (fun _ _ => ht.bindsAt _)
  obtain rfl : others = [] := by
    cases others with
    | nil => rfl
    | cons o _ => exact absurd (htakes.next o rfl) (Nat.not_lt_zero _)
  refine ⟨tree, final, ?_, ?_, htakes.climbing⟩
  · rw [expression, hfuel]
    exact parseExpr_chain last ht htree
  · rw [htakes.inOrder, ht.inOrder_eq, append_nil]
    rfl

end

/-- A chain in front of a token that does not carry it on is read to its end. The tree has its
operands and operators in their order, and no operator has an operand with less power. -/
theorem expression_inOrder {symbols : Symbols} {c : Cursor} {t next : Token} {e : Expr}
    {os : List Operation} {behind : List Token} (ht : IsLeaf symbols t e)
    (hos : ∀ o ∈ os, o.IsPlain symbols) (hnext : next.stops = true)
    (hahead : c.ahead = t :: os.flatMap Operation.tokens ++ next :: behind) :
    ∃ tree c', expression symbols c = .ok (tree, c') ∧ c'.ahead = next :: behind ∧
      tree.inOrder = .inl e :: chainInOrder os ∧ tree.IsClimbing := by
  obtain ⟨tree, final, hread, htree⟩ := expression_takes (stopped_cons hnext behind) ht hos hahead
  exact ⟨tree, _, hread, rfl, htree⟩

/-- The operations of `0.0 + 2 * 3 == 4)` behind its first operand. -/
def mixedOperations : List Operation :=
  [⟨.plus, 1, ⟨.int 2, 1⟩, .literal (.int 2)⟩, ⟨.times, 1, ⟨.int 3, 1⟩, .literal (.int 3)⟩,
    ⟨.equal, 1, ⟨.int 4, 2⟩, .literal (.int 4)⟩]

/-- Three powers in one chain. -/
theorem expression_inOrder_mixed : ∃ tree c', expression Scopes.empty ⟨none, ⟨.real .zero, 1⟩ ::
        (mixedOperations.flatMap Operation.tokens ++ [⟨.keyword .rightParen, 2⟩]), false⟩ =
          .ok (tree, c') ∧
      c'.ahead = [⟨.keyword .rightParen, 2⟩] ∧
      tree.inOrder = .inl (.literal (.real .zero)) :: chainInOrder mixedOperations ∧
      tree.IsClimbing :=
  expression_inOrder (.real _ 1) (by
    simp only [mixedOperations, List.forall_mem_cons, List.not_mem_nil, false_imp_iff, implies_true,
      and_true]
    exact ⟨⟨rfl, by decide, .operand (.int 2 1)⟩, ⟨rfl, by decide, .operand (.int 3 1)⟩,
      rfl, by decide, .operand (.int 4 2)⟩)
    rfl rfl

/-- An expression in front of a semicolon whose operators all have one binding power is read to the
semicolon and grouped to the right. That is the grouping to the left only if it has at most one
operator. -/
theorem expression_groups_right {symbols : Symbols} {c : Cursor} {t : Token} {e : Expr}
    {os : List Operation} {own line : Nat} {behind : List Token} (ht : IsOperand symbols t e)
    (hos : ∀ o ∈ os, o.HasPower symbols own)
    (hahead : c.ahead = t :: os.flatMap Operation.tokens ++ ⟨.keyword .semicolon, line⟩ :: behind) :
    (∃ final, expression symbols c =
      .ok (groupRight e os, ⟨some final, ⟨.keyword .semicolon, line⟩ :: behind, c.past⟩)) ∧
    (groupRight e os = groupLeft e os ↔ os.length ≤ 1) := by
  refine ⟨?_, groupRight_eq_groupLeft_iff (IsLeaf.operand ht).ne_binary os⟩
  obtain ⟨tree, final, hread, horder, hclimbing⟩ := expression_takes
    (stopped_cons rfl behind) (.operand ht) (fun o ho => (hos o ho).isPlain) hahead
  have hpower : ∀ o ∈ os, o.op.power = own := by
    intro o ho
    rw [Keyword.power, (hos o ho).power, Option.getD_some]
  exact ⟨final, hclimbing.eq_groupRight e os hpower horder ▸ hread⟩

/-- The tokens of `a - 2 - 3;` behind the declaration of `a`. -/
def twoDifferences : List Token :=
  [⟨.name "a", 1⟩, ⟨.keyword .minus, 1⟩, ⟨.int 2, 1⟩, ⟨.keyword .minus, 1⟩, ⟨.int 3, 1⟩,
    ⟨.keyword .semicolon, 1⟩]

/-- Of two differences, the second is taken first. -/
theorem expression_groups_right_differences :
    (∃ final, expression (Scopes.empty.declareLocal "a" (.ofVar .int false)).2
        ⟨none, twoDifferences, false⟩ =
      .ok (.binary .minus (.var "a" (.ofVar .int false))
        (.binary .minus (.literal (.int 2)) (.literal (.int 3))),
        ⟨some final, [⟨.keyword .semicolon, 1⟩], false⟩)) ∧
    Expr.binary .minus (.var "a" (.ofVar .int false))
        (.binary .minus (.literal (.int 2)) (.literal (.int 3))) ≠
      .binary .minus (.binary .minus (.var "a" (.ofVar .int false)) (.literal (.int 2)))
        (.literal (.int 3)) := by
  have ha : IsOperand (Scopes.empty.declareLocal "a" (Symbol.ofVar .int false)).2 ⟨.name "a", 1⟩
      (.var "a" (.ofVar .int false)) := .var 1 (by decide) rfl
  have hpower : ∀ o ∈ [Operation.mk .minus 1 ⟨.int 2, 1⟩ (.literal (.int 2)),
      ⟨.minus, 1, ⟨.int 3, 1⟩, .literal (.int 3)⟩],
      o.HasPower (Scopes.empty.declareLocal "a" (Symbol.ofVar .int false)).2 100 := by
    simp only [List.mem_cons, List.not_mem_nil, or_false]
    rintro o (rfl | rfl)
    · exact ⟨rfl, by decide, rfl, .int 2 1⟩
    · exact ⟨rfl, by decide, rfl, .int 3 1⟩
  have hahead : (⟨none, twoDifferences, false⟩ : Cursor).ahead =
      ⟨.name "a", 1⟩ :: [Operation.mk .minus 1 ⟨.int 2, 1⟩ (.literal (.int 2)),
        ⟨.minus, 1, ⟨.int 3, 1⟩, .literal (.int 3)⟩].flatMap Operation.tokens ++
        [⟨.keyword .semicolon, 1⟩] := rfl
  have hread := expression_groups_right ha hpower hahead
  exact ⟨hread.1, fun heq => absurd (hread.2.1 heq) (by decide)⟩

end ArmStudio.Script
