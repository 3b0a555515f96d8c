import ArmStudio.Proofs.CheckedTrees

/-!
# Targets of assignments

Which assignments of a program have a variable on their left side that may be assigned to. The
analysis looks at the left side of `=`, `+=`, `-=`, `*=` and `/=` only; behind the other six
operators it lets pass what the text says.
-/

namespace ArmStudio.Script

open Code Script.Expr

/-- An assignment in a tree: its operator and its left side. -/
structure Assignment where
  op : Keyword
  left : Expr

def Expr.symbol? : Expr → Option Symbol
  | .var _ symbol => some symbol
  | _ => none

/-- The left side is a variable that is not constant. -/
def Assignment.IsSettable (a : Assignment) : Prop :=
  ∃ name symbol, a.left = .var name symbol ∧ symbol.isConst = some false

mutual

def Expr.assignments : Expr → List Assignment
  | .unary _ e => e.assignments
  | .binary op a b =>
    (if op.isAssignment then [⟨op, a⟩] else []) ++ (a.assignments ++ b.assignments)
  | .call _ _ args => assignmentsIn args
  | .sysCall _ args => assignmentsIn args
  | _ => []

def assignmentsIn : List Expr → List Assignment
  | [] => []
  | e :: rest => e.assignments ++ assignmentsIn rest

end

mutual

def Stmt.assignments : Stmt → List Assignment
  | .expr e => e.assignments
  | .decl d => assignmentsIn d.init.toList
  | .ifElse cond yes no => cond.assignments ++ (bodyAssignments yes ++ bodyAssignments no)
  | .whileDo cond body => cond.assignments ++ bodyAssignments body
  | .loop body => bodyAssignments body
  | .ret value => assignmentsIn value.toList
  | .leaveLoop | .blank => []

def bodyAssignments : List Stmt → List Assignment
  | [] => []
  | st :: rest => st.assignments ++ bodyAssignments rest

end

def Decl.assignments : Decl → List Assignment
  | .var d => assignmentsIn d.init.toList
  | .func f => bodyAssignments f.body

def Program.assignments (p : Program) : List Assignment := p.decls.flatMap Decl.assignments

/-! ## Targets -/

/-- What the analysis leaves of an assignment as it is. -/
structure Target where
  op : Keyword
  symbol : Option Symbol

variable (a : Assignment)

def Assignment.target : Target := ⟨a.op, a.left.symbol?⟩

def Target.IsSettable (t : Target) : Prop := ∃ s, t.symbol = some s ∧ s.isConst = some false

/-- Where the analysis wants a variable, there is one that may be assigned to. -/
def Target.IsGuarded (t : Target) : Prop := t.op.wantsTarget = true → t.IsSettable

lemma Assignment.isSettable_target : a.target.IsSettable ↔ a.IsSettable := by
  rcases a with ⟨op, left⟩
  cases left <;> simp [Target.IsSettable, Assignment.IsSettable, target, symbol?]

variable (as : List Assignment)

def targets : List Target := as.map Assignment.target

@[simp] lemma targets_nil : targets [] = [] := rfl

@[simp] lemma targets_cons : targets (a :: as) = a.target :: targets as := rfl

@[simp] lemma targets_append (as bs : List Assignment) :
    targets (as ++ bs) = targets as ++ targets bs := List.map_append

lemma forall_targets {P : Target → Prop} {as : List Assignment} :
    (∀ t ∈ targets as, P t) ↔ ∀ a ∈ as, P a.target := by
  simp [targets]

/-- The assignments `before` the analysis and `after` it have the same targets, and those that the
analysis looks at are settable. -/
structure Kept (before after : List Assignment) : Prop where
  same : targets after = targets before
  guarded : ∀ t ∈ targets before, t.IsGuarded

namespace Kept

variable {as as' bs bs' : List Assignment}

lemma nil : Kept [] [] := ⟨rfl, by simp⟩

lemma append (ha : Kept as as') (hb : Kept bs bs') : Kept (as ++ bs) (as' ++ bs') := by
  refine ⟨by simp [ha.same, hb.same], ?_⟩
  intro t ht
  rw [targets_append] at ht
  rcases List.mem_append.1 ht with ht | ht
  · exact ha.guarded t ht
  · exact hb.guarded t ht

end Kept

/-! ## Expressions -/

section

variable {symbols : Symbols}

@[simp] lemma assignments_convert (e : Expr) (t : VarType) :
    (e.convert t).assignments = e.assignments := by
  simp [convert, assignments, Keyword.isAssignment]

variable {op : Keyword} {e : Expr} {result : VarType} {returns : Bool}

lemma isAssignment_eq_false_of_evalBinary {x y v : Value} (h : evalBinary op x y = .ok (some v)) :
    op.isAssignment = false := by
  cases op <;> first | rfl | simp [evalBinary] at h

lemma assignments_of_evalConst (e : Expr) :
    ∀ v, evalConst e = .ok (some v) → e.assignments = [] := by
  induction e with
  | unary op e ih =>
    intro v h
    rw [evalConst] at h
    obtain ⟨value, hval, h⟩ := bind_eq_ok.1 h
    cases value with
    | none => cases h
    | some a => exact ih a hval
  | binary op a b iha ihb =>
    intro v h
    by_cases hcast : op = .kwAs
    · subst hcast
      rw [evalConst] at h
      obtain ⟨value, hval, h⟩ := bind_eq_ok.1 h
      cases value with
      | none => cases h
      | some x =>
        cases b with
        | typeName t => simp [assignments, iha x hval, Keyword.isAssignment]
        | _ => cases h
    · rw [evalConst] at h
      · obtain ⟨left, hleft, h⟩ := bind_eq_ok.1 h
        obtain ⟨right, hright, h⟩ := bind_eq_ok.1 h
        cases left with
        | none => cases h
        | some x =>
          cases right with
          | none => cases h
          | some y =>
            have hop : op.isAssignment = false := by
              cases heval : evalBinary op x y with
              | error cause => simp [heval, Except.mapError] at h
              | ok value =>
                simp only [heval, Except.mapError, Except.ok.injEq] at h
                subst h
                exact isAssignment_eq_false_of_evalBinary heval
            simp [assignments, iha x hleft, ihb y hright, hop]
      · exact hcast
  | call | sysCall =>
    intro v h
    cases h
  | _ => simp [assignments]

lemma isConst_of_targetError? (h : targetError? e = none) :
    ∃ s, e.symbol? = some s ∧ s.isConst = some false := by
  unfold targetError? at h
  split at h
  · rename_i name symbol
    refine ⟨symbol, rfl, ?_⟩
    split at h
    · cases h
    · cases h
    · assumption
  · cases h

lemma left_convertOperands (hop : op.isAssignment) (a b : Expr) (lt rt : VarType) :
    (convertOperands op a b lt rt).left = a := by
  unfold convertOperands
  split <;> first | exact absurd hop (by decide) | ((repeat' split) <;> rfl)

lemma assignments_convertOperands (op : Keyword) (a b : Expr) (lt rt : VarType) :
    (convertOperands op a b lt rt).left.assignments = a.assignments ∧
      (convertOperands op a b lt rt).right.assignments = b.assignments := by
  obtain ⟨hleft, hright, _⟩ := convertOperands_convert op a b lt rt
  constructor
  · rcases hleft with h | ⟨t, h⟩ <;> simp [h]
  · rcases hright with h | ⟨t, h⟩ <;> simp [h]

lemma Stored.kept {args trees : List Expr} {params : List VarType} {Q : Expr → Expr → Prop}
    (h : Stored symbols Q args params trees)
    (hQ : ∀ a t, Q a t → Kept a.assignments t.assignments) :
    Kept (assignmentsIn args) (assignmentsIn trees) := by
  induction h with
  | nil => simpa [assignmentsIn] using Kept.nil
  | keep htree _ _ _ ih => simpa [assignmentsIn] using (hQ _ _ htree).append ih
  | convert ha _ _ ih => simpa [assignmentsIn] using (hQ _ _ ha).append ih

lemma analysed_kept : Analysed symbols fun e tree =>
    Kept e.assignments tree.assignments ∧ tree.symbol? = e.symbol? where
  leaf := by
    intro e hleaf
    have hnone : e.assignments = [] := by
      cases e <;> first | contradiction | simp [assignments]
    exact ⟨hnone ▸ .nil, rfl⟩
  fold := by
    -- what has a value holds no assignment and is no variable
    rintro e tree v ⟨hkept, hsymbol⟩ hv
    rw [assignments_of_evalConst tree v hv] at hkept
    refine ⟨hkept, hsymbol ▸ ?_⟩
    cases tree <;> first | rfl | cases hv
  unary := fun h => ⟨h.1, rfl⟩
  binary := by
    rintro op a b a' b' lt rt r ⟨ha, hsymbol⟩ ⟨hb, _⟩ _ _ rfl herror
    obtain ⟨hleft, hright⟩ := assignments_convertOperands op a' b' lt rt
    refine ⟨?_, rfl⟩
    simp only [assignments, hleft, hright]
    refine .append ?_ (.append ha hb)
    cases hop : op.isAssignment with
    | false => exact .nil
    | true =>
      refine ⟨?_, ?_⟩
      · simp [Assignment.target, left_convertOperands hop, hsymbol]
      -- where a variable is wanted, the left side was looked at
      · intro t ht hwants
        simp only [if_true, targets_cons, targets_nil, List.mem_singleton] at ht
        subst ht
        have htgt := ((convertOperands_convert op a' b' lt rt).target hwants herror).2
        obtain ⟨s, hs, hconst⟩ := isConst_of_targetError? htgt
        exact ⟨s, hsymbol.symm.trans hs, hconst⟩
  call := by
    intro func symbol args trees params _ hstored
    exact ⟨by simpa [assignments] using hstored.kept fun _ _ h => h.1, rfl⟩
  sysCall := by
    intro func args trees hstored
    exact ⟨by simpa [assignments] using hstored.kept fun _ _ h => h.1, rfl⟩

lemma checkExpr_kept (e : Expr) : ∀ e', (checkExpr symbols e).outcome = .ok e' →
    Kept e.assignments (checkExpr symbols e).tree.assignments ∧
      Kept e.assignments e'.assignments := by
  intro e' h
  obtain ⟨htree, hfolded, _⟩ := analysed_kept.checkExpr e e' h
  exact ⟨htree.1, hfolded.1⟩

/-! ## Statements -/

lemma checkTyped_kept {target : VarType} {hint : VarType → Hint}
    (h : (checkTyped symbols e target hint).outcome = .ok ()) :
    Kept e.assignments (checkTyped symbols e target hint).tree.assignments := by
  unfold checkTyped at h ⊢
  simp only at h ⊢
  split at h
  · cases h
  · rename_i e' he'
    have hkept := (checkExpr_kept e e' he').2
    split at h
    · cases h
    · split
      · exact hkept
      · simpa using hkept

lemma checkDecl_kept {d} (h : (checkDecl symbols d).outcome = .ok ()) :
    Kept (assignmentsIn d.init.toList) (assignmentsIn (checkDecl symbols d).tree.init.toList) := by
  unfold checkDecl at h ⊢
  split at h
  · rename_i hinit
    simpa [hinit, assignmentsIn] using Kept.nil
  · rename_i e hinit
    simpa [hinit, assignmentsIn] using checkTyped_kept h

lemma checkReturn_kept {value} (h : (checkReturn symbols result value).outcome = .ok returns) :
    Kept (assignmentsIn value.toList) (checkReturn symbols result value).tree.assignments := by
  unfold checkReturn at h ⊢
  cases value with
  | none =>
    simp only at h ⊢
    split <;> simpa [assignmentsIn, Stmt.assignments] using Kept.nil
  | some e =>
    simp only at h ⊢
    split at h
    · cases h
    · rename_i hres
      rw [if_neg hres]
      obtain ⟨_, htyped, _⟩ := map_eq_ok.1 h
      simpa [assignmentsIn, Stmt.assignments] using checkTyped_kept htyped

lemma Passed.kept {inLoop : Bool} {body body' : List Stmt}
    (h : Passed symbols result inLoop body body' returns) :
    Kept (bodyAssignments body) (bodyAssignments body') := by
  induction h with
  | nil => exact .nil
  | cons _ _ ihst ihrest => simpa [bodyAssignments] using ihst.append ihrest
  | expr he => simpa [bodyAssignments, Stmt.assignments] using (checkExpr_kept _ _ he).1
  | decl hd => simpa [bodyAssignments, Stmt.assignments] using checkDecl_kept hd
  | ifElse hcond _ _ ihyes ihno =>
    simpa [bodyAssignments, Stmt.assignments] using
      (checkTyped_kept hcond).append (ihyes.append ihno)
  | whileDo hcond _ ih =>
    simpa [bodyAssignments, Stmt.assignments] using (checkTyped_kept hcond).append ih
  | loop _ ih => simpa [bodyAssignments, Stmt.assignments] using ih
  | ret hval => simpa [bodyAssignments, Stmt.assignments] using checkReturn_kept hval
  | leaveLoop | blank => exact .nil

/-! ## Programs -/

lemma Program.check_kept {p : Program} (h : (p.check symbols).outcome = .ok ()) :
    Kept p.assignments (p.check symbols).tree.assignments := by
  obtain ⟨htree, hpasses⟩ := Program.check_passes h
  rw [Program.assignments, Program.assignments, htree]
  generalize p.decls = ds at hpasses
  induction ds with
  | nil => exact .nil
  | cons d rest ih =>
    obtain ⟨hd, hrest⟩ := List.forall_mem_cons.1 hpasses
    refine Kept.append ?_ (ih hrest)
    cases d with
    | var d => exact checkDecl_kept hd
    | func f =>
      obtain ⟨_, _, hbody⟩ := passed_checkFunc hd
      exact hbody.kept

end

/-- In a program that the analysis has accepted, `=`, `+=`, `-=`, `*=` and `/=` stand behind
variables that are not constant. All assignments do exactly if in the program as it was given the
assignments with the other six operators do. -/
theorem assignments_settable_iff {symbols : Symbols} {p : Program}
    (h : (p.check symbols).outcome = .ok ()) :
    (∀ a ∈ (p.check symbols).tree.assignments, a.op.wantsTarget = true → a.IsSettable) ∧
      ((∀ a ∈ (p.check symbols).tree.assignments, a.IsSettable) ↔
        ∀ a ∈ p.assignments, a.op.wantsTarget = false → a.IsSettable) := by
  have hkept := Program.check_kept h
  have hguarded : ∀ a ∈ (p.check symbols).tree.assignments,
      a.op.wantsTarget = true → a.IsSettable := by
    intro a ha hwants
    have htgt : a.target ∈ targets p.assignments := hkept.same ▸ List.mem_map_of_mem ha
    exact a.isSettable_target.1 (hkept.guarded _ htgt hwants)
  refine ⟨hguarded, ?_⟩
  -- both sides are conditions on the targets, which the analysis has left as they were
  calc (∀ a ∈ (p.check symbols).tree.assignments, a.IsSettable)
      ↔ ∀ t ∈ targets (p.check symbols).tree.assignments, t.IsSettable := by
        simp only [forall_targets, Assignment.isSettable_target]
    _ ↔ ∀ t ∈ targets p.assignments, t.op.wantsTarget = false → t.IsSettable := by
        rw [hkept.same]
        refine ⟨fun hall t ht _ => hall t ht, fun hother t ht => ?_⟩
        cases hwants : t.op.wantsTarget with
        | true => exact hkept.guarded t ht hwants
        | false => exact hother t ht hwants
    _ ↔ ∀ a ∈ p.assignments, a.op.wantsTarget = false → a.IsSettable := by
        simp only [forall_targets, Assignment.isSettable_target]
        exact Iff.rfl

open Keyword in
/-- The tokens of `const let c = 1; fn main() { c %= 2; }`. -/
def constantRemainder : List Token := onLine
  [kwConst, kwLet, .name "c", assign, .int 1, semicolon, kwFn, .name "main", leftParen, rightParen,
    leftBrace, .name "c", modAssign, .int 2, semicolon, rightBrace]

/-- The analysis accepts `constantRemainder`, which assigns to a constant. -/
theorem assignments_settable_iff_constantRemainder :
    ∃ p symbols, Program.ofTokens constantRemainder = .ok (p, symbols) ∧
      (p.check symbols).outcome = .ok () ∧
      p.assignments = [⟨.modAssign, .var "c" (.ofVar .int true)⟩] ∧
      ¬ ∀ a ∈ (p.check symbols).tree.assignments, a.IsSettable := by
  have hconstant : ∀ {p : Program} {symbols : Symbols}, (p.check symbols).outcome = .ok () →
      p.assignments = [⟨.modAssign, .var "c" (.ofVar .int true)⟩] →
      ¬ ∀ a ∈ (p.check symbols).tree.assignments, a.IsSettable := by
    intro p symbols hok hsource hall
    have hsettable := (assignments_settable_iff hok).2.1 hall
    obtain ⟨name, symbol, hleft, hconst⟩ := hsettable _ (hsource ▸ List.mem_singleton_self _) rfl
    cases hleft
    cases hconst
  exact ⟨_, _, rfl, rfl, rfl, hconstant rfl rfl⟩

end ArmStudio.Script
