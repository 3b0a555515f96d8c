import ArmStudio.Script.Tree
import Mathlib.Tactic.Lemma

/-!
# Induction over trees

Expressions have arguments and statements have bodies, which are lists. The principles of this
module give the hypothesis for every member of such a list; `induction` uses them by default.
`Expr.nodes` are the expressions in an expression, itself included.
-/

namespace ArmStudio.Script

@[induction_eliminator]
lemma Expr.induct {motive : Expr → Prop} (literal : ∀ v, motive (.literal v))
    (hole : motive .hole) (blank : motive .blank)
    (unary : ∀ op operand, motive operand → motive (.unary op operand))
    (binary : ∀ op left right, motive left → motive right → motive (.binary op left right))
    (typeName : ∀ t, motive (.typeName t)) (var : ∀ name symbol, motive (.var name symbol))
    (call : ∀ func symbol args, (∀ a ∈ args, motive a) → motive (.call func symbol args))
    (sysCall : ∀ func args, (∀ a ∈ args, motive a) → motive (.sysCall func args)) (e : Expr) :
    motive e :=
  @Expr.rec motive (fun args => ∀ a ∈ args, motive a) literal hole blank unary binary typeName var
    call sysCall (by simp) (fun _ _ ha hrest => List.forall_mem_cons.2 ⟨ha, hrest⟩) e

@[induction_eliminator]
lemma Stmt.induct {motive : Stmt → Prop} (expr : ∀ e, motive (.expr e))
    (decl : ∀ d, motive (.decl d))
    (ifElse : ∀ cond thenBody elseBody, (∀ st ∈ thenBody, motive st) →
      (∀ st ∈ elseBody, motive st) → motive (.ifElse cond thenBody elseBody))
    (whileDo : ∀ cond body, (∀ st ∈ body, motive st) → motive (.whileDo cond body))
    (loop : ∀ body, (∀ st ∈ body, motive st) → motive (.loop body))
    (ret : ∀ value, motive (.ret value)) (leaveLoop : motive .leaveLoop) (blank : motive .blank)
    (st : Stmt) : motive st :=
  @Stmt.rec motive (fun body => ∀ st ∈ body, motive st) expr decl ifElse whileDo loop ret leaveLoop
    blank (by simp) (fun _ _ hst hrest => List.forall_mem_cons.2 ⟨hst, hrest⟩) st

/-! ## Nodes -/

mutual

/-- An expression and all that stands in it. -/
def Expr.nodes : Expr → List Expr
  | .unary op a => .unary op a :: a.nodes
  | .binary op a b => .binary op a b :: (a.nodes ++ b.nodes)
  | .call func symbol args => .call func symbol args :: nodesIn args
  | .sysCall func args => .sysCall func args :: nodesIn args
  | e => [e]

def nodesIn : List Expr → List Expr
  | [] => []
  | e :: rest => e.nodes ++ nodesIn rest

end

end ArmStudio.Script
