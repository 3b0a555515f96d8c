import ArmStudio.Proofs.Lookahead

/-!
# Where expressions end

An expression that is read with a power takes in the operators behind it that bind with at least
that power. There is one exception: an argument list ends the expression that it belongs to, and an
operator behind the list is left to the caller.
-/

namespace ArmStudio.Script

/-- At `c` stands something to be called with an argument list right behind it; together they are
`call`, and the list is closed in front of `c'`. The operand is read with one of the fuel less, its
arguments with two. -/
def ReadsCall (symbols : Symbols) (fuel : Nat) (c : Cursor) (call : Expr) (c' : Cursor) : Prop :=
  ∃ callee c1 args c2, parseOperand symbols (fuel - 1) c = .ok (callee, c1) ∧
    c1.peek?.bind Token.keyword? = some .leftParen ∧
    parseArguments symbols (fuel - 2) c1.skip = .ok (args, c2) ∧ c2.close .rightParen = .ok c' ∧
    callee.withArgs? args = some call

section

variable {symbols : Symbols} {power : Nat}

lemma not_binds_of_parseOperators (fuel : Nat) : ∀ {left e : Expr} {c c' : Cursor},
    (left.withArgs? []).isSome = false → parseOperators symbols fuel power left c = .ok (e, c') →
    ¬ Binds power c'.ahead := by
  induction fuel with
  | zero =>
    intro left e c c' _ h
    cases h
  | succ fuel ih =>
    intro left e c c' hleft h
    rcases parseOperators_eq_ok_iff.1 h with ⟨hends, -, rfl⟩ | ⟨k, -, -, -, h⟩ | ⟨-, hcall, -⟩
    · exact hends.not_binds
    -- what was read so far is the left operand of the next round, and that is no call
    · rcases h with ⟨-, t, c1, -, h⟩ | ⟨-, right, c1, -, h⟩
      · exact ih rfl h
      · exact ih rfl h
    · rw [hleft] at hcall
      cases hcall

end

/-- Behind an expression comes an operator of at least the power that it was read with exactly if
the expression is an operand with its argument list, and the operator stands behind the list. -/
theorem binds_behind_iff {symbols : Symbols} {fuel power : Nat} {c c' : Cursor} {e : Expr}
    (h : parseExpr symbols fuel power c = .ok (e, c')) :
    Binds power c'.ahead ↔ ∃ c1, ReadsCall symbols fuel c e c1 ∧ Binds power c1.ahead := by
  obtain ⟨fuel, rfl⟩ : ∃ n, fuel = n + 2 := by
    rcases fuel with _ | _ | n
    · cases h
    · cases h
    · exact ⟨n, rfl⟩
  obtain ⟨left, c1, hleft, hrest⟩ := parseExpr_eq_ok_iff.1 h
  constructor
  · intro hbinds
    rcases parseOperators_eq_ok_iff.1 hrest with ⟨hends, -, rfl⟩ | ⟨k, -, -, -, hloop⟩ |
      ⟨hparen, hcall, args, c2, hargs, hclose, he⟩
    · exact absurd hbinds hends.not_binds
    · rcases hloop with ⟨-, t, c2, -, hloop⟩ | ⟨-, right, c2, -, hloop⟩
      · exact absurd hbinds (not_binds_of_parseOperators fuel rfl hloop)
      · exact absurd hbinds (not_binds_of_parseOperators fuel rfl hloop)
    · exact ⟨c', ⟨left, c1, args, c2, hleft, hparen, hargs, hclose,
        Expr.withArgs?_eq_some_iff.2 ⟨hcall, he⟩⟩, hbinds⟩
  · rintro ⟨c2, ⟨callee, c3, args, c4, hcallee, hparen, hargs, hclose, he⟩, hbinds⟩
    cases hleft.symm.trans hcallee
    have hcall := Expr.withArgs?_eq_some_iff.1 he
    have hread : parseOperators symbols (fuel + 1) power left c1 = .ok (e, c2) :=
      parseOperators_eq_ok_iff.2 (.inr (.inr ⟨hparen, hcall.1, args, c4, hargs, hclose, hcall.2⟩))
    cases hrest.symm.trans hread
    exact hbinds

/-- The tokens of `f() + 1;` behind the declaration of a function `f`. -/
def callAndSum : List Token :=
  [⟨.name "f", 1⟩, ⟨.keyword .leftParen, 1⟩, ⟨.keyword .rightParen, 1⟩, ⟨.keyword .plus, 1⟩,
    ⟨.int 1, 1⟩, ⟨.keyword .semicolon, 1⟩]

/-- The sum is left behind the call. -/
theorem binds_behind_callAndSum :
    let symbols := (Scopes.empty.declareGlobal "f" (Symbol.ofFunction [] .int)).2
    let c : Cursor := ⟨none, callAndSum, false⟩
    ∃ c', parseExpr symbols c.fuel 0 c = .ok (.call "f" (.ofFunction [] .int) [], c') ∧
      Binds 0 c'.ahead ∧
      ∃ c1, ReadsCall symbols c.fuel c (.call "f" (.ofFunction [] .int) []) c1 ∧
        Binds 0 c1.ahead := by
  refine ⟨_, rfl, ?_, ?_⟩
  · exact ⟨⟨.keyword .plus, 1⟩, .plus, rfl, rfl, rfl, zero_le⟩
  · exact (binds_behind_iff rfl).1 ⟨⟨.keyword .plus, 1⟩, .plus, rfl, rfl, rfl, zero_le⟩

end ArmStudio.Script
