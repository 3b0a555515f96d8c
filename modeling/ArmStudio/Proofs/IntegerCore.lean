import ArmStudio.Proofs.Meaning

/-!
# The integer core of the script language

Programs over integers only: global variables that start with a literal, functions with integer
parameters that always return an integer, and a `main` without parameters or result.

`execStmts_canEnd` says that what ends without a return could end.
-/

namespace ArmStudio.Script

open List

/-- What can be mentioned: global variables, functions by their number of parameters, and local
variables. -/
structure Visible where
  globals : List String
  arity : String → Option Nat
  locals : List String

def Visible.after (v : Visible) : Stmt → Visible
  | .decl d => { v with locals := v.locals ++ [d.name] }
  | _ => v

def Expr.isVar : Expr → Bool
  | .var .. => true
  | _ => false

mutual

/-- Integer expressions over what is visible. -/
def Expr.isCore (v : Visible) : Expr → Bool
  | .literal (.int _) => true
  | .var x symbol =>
    (decide (x ∈ v.locals) || decide (x ∈ v.globals)) && decide (symbol.varType = some .int)
  | .unary op e => (unaryMeaning op).isSome && e.isCore v
  | .binary op a b =>
    (decide (op = .assign) || (binaryMeaning op).isSome) && (!op.isAssignment || a.isVar) &&
      a.isCore v && b.isCore v
  | .call func symbol args =>
    decide (v.arity func = some args.length) && decide (symbol.returnType = some .int) &&
      argsAreCore v args
  | _ => false

def argsAreCore (v : Visible) : List Expr → Bool
  | [] => true
  | a :: rest => a.isCore v && argsAreCore v rest

end

mutual

/-- Statements of the core, in a function with the given result. A `break` stands directly in the
body of a loop. -/
def Stmt.isCore (v : Visible) (result : VarType) (inLoop : Bool) : Stmt → Bool
  | .expr e => e.isCore v
  | .decl d =>
    decide (d.type = .int) && !d.isConst &&
      match d.init with
      | some e => e.isCore v
      | none => false
  | .ifElse cond yes no =>
    cond.isCore v && stmtsAreCore v result false yes && stmtsAreCore v result false no
  | .whileDo cond body => cond.isCore v && stmtsAreCore v result true body
  | .loop body => stmtsAreCore v result true body
  | .ret none => decide (result = .void)
  | .ret (some e) => decide (result = .int) && e.isCore v
  | .leaveLoop => inLoop
  | .blank => false

def stmtsAreCore (v : Visible) (result : VarType) (inLoop : Bool) : List Stmt → Bool
  | [] => true
  | st :: rest => st.isCore v result inLoop && stmtsAreCore (v.after st) result inLoop rest

end

mutual

/-- The variables that a statement declares, in order. -/
def Stmt.declared : Stmt → List String
  | .decl d => [d.name]
  | .ifElse _ yes no => declaredIn yes ++ declaredIn no
  | .whileDo _ body => declaredIn body
  | .loop body => declaredIn body
  | _ => []

def declaredIn : List Stmt → List String
  | [] => []
  | st :: rest => st.declared ++ declaredIn rest

end

/-! ## Ways out of statements -/

mutual

/-- Whether a path through the statement gets to its end. -/
def Stmt.canEnd : Stmt → Bool
  | .ret _ => false
  | .leaveLoop => false
  | .ifElse _ yes no => Script.canEnd yes || Script.canEnd no
  | .loop body => Script.canBreak body
  | _ => true

/-- Whether a path through the statement gets to a `break` that belongs to a loop around it. -/
def Stmt.canBreak : Stmt → Bool
  | .leaveLoop => true
  | .ifElse _ yes no => Script.canBreak yes || Script.canBreak no
  | _ => false

def canEnd : List Stmt → Bool
  | [] => true
  | st :: rest => st.canEnd && canEnd rest

/-- Whether a path through the statements gets to a `break` that belongs to a loop around them. -/
def canBreak : List Stmt → Bool
  | [] => false
  | st :: rest => st.canBreak || (st.canEnd && canBreak rest)

end

/-! ## Programs -/

def Decl.name : Decl → String
  | .var d => d.name
  | .func f => f.name

/-- The symbol that a declaration gives its name. -/
def Decl.symbol : Decl → Symbol
  | .var d => .ofVar d.type d.isConst
  | .func f => .ofFunction (f.params.map Param.type) f.returnType

def Program.names (p : Program) : List String := p.decls.map Decl.name

variable {p : Program} {f : FuncDecl} {decls : List Decl}

lemma Program.mem_decls_of_mem_funcs (h : f ∈ p.funcs) : .func f ∈ p.decls := by
  rcases mem_filterMap.1 h with ⟨d, hd, heq⟩
  cases d with
  | var d => cases heq
  | func g =>
    cases heq
    exact hd

lemma Program.mem_decls_of_mem_vars {d} (h : d ∈ p.vars) : .var d ∈ p.decls := by
  rcases mem_filterMap.1 h with ⟨e, he, heq⟩
  cases e with
  | func g => cases heq
  | var v =>
    cases heq
    exact he

lemma Program.func?_eq_some {name} (h : p.func? name = some f) :
    .func f ∈ p.decls ∧ f.name = name :=
  ⟨Program.mem_decls_of_mem_funcs (mem_of_find?_eq_some h), by simpa using find?_some h⟩

lemma find?_decl (hdist : (decls.map Decl.name).Nodup) {d : Decl} (hd : d ∈ decls) :
    decls.find? (·.name = d.name) = some d := by
  induction decls with
  | nil => cases hd
  | cons first rest ih =>
    rw [map_cons, nodup_cons] at hdist
    rcases mem_cons.1 hd with rfl | hrest
    · simp
    · have hne : first.name ≠ d.name := fun heq =>
        hdist.1 (heq ▸ mem_map_of_mem hrest)
      rw [find?_cons_of_neg (by simpa using hne)]
      exact ih hdist.2 hrest

/-- The number of parameters of a function with an integer result. -/
def Program.arity (p : Program) (name : String) : Option Nat :=
  (p.func? name).bind fun f => if f.returnType = .int then some f.params.length else none

def FuncDecl.localNames (f : FuncDecl) : List String := f.params.map Param.name ++ declaredIn f.body

/-- A function of the core, behind the global variables `before`. -/
structure FuncDecl.IsCore (before : List String) (p : Program) (f : FuncDecl) : Prop where
  params : ∀ q ∈ f.params, q.type = .int
  named : f.name.toList.head?.any Char.isDigit = false
  distinct : f.localNames.Nodup
  apart : ∀ x ∈ f.localNames, x ∉ p.names
  counted : f.localCount = f.localNames.length
  small : f.localCount ≤ 255
  body : stmtsAreCore ⟨before, p.arity, f.params.map Param.name⟩ f.returnType false f.body = true
  result : (f.name = "main" ∧ f.returnType = .void ∧ f.params = []) ∨
    (f.name ≠ "main" ∧ f.returnType = .int ∧ canEnd f.body = false)

/-- A variable of integers with a literal for its first value. -/
structure VarDecl.IsCore (d : VarDecl) : Prop where
  type : d.type = .int
  notConst : d.isConst = false
  init : ∃ n, d.init = some (.literal (.int n))

/-- Declarations of the core, behind the global variables `before`. -/
def declsAreCore (p : Program) : List String → List Decl → Prop
  | _, [] => True
  | before, .var d :: rest => d.IsCore ∧ declsAreCore p (before ++ [d.name]) rest
  | before, .func f :: rest => f.IsCore before p ∧ declsAreCore p before rest

/-- Declarations whose variables and functions have properties that may depend on the global
variables before them; `before` are those before all. -/
def declsAre (isVar : List String → VarDecl → Prop) (isFunc : List String → FuncDecl → Prop) :
    List String → List Decl → Prop
  | _, [] => True
  | before, .var d :: rest => isVar before d ∧ declsAre isVar isFunc (before ++ [d.name]) rest
  | before, .func f :: rest => isFunc before f ∧ declsAre isVar isFunc before rest

section

variable {isVar isVar' : List String → VarDecl → Prop}
  {isFunc isFunc' : List String → FuncDecl → Prop} {decls : List Decl} {before : List String}

lemma declsAre_mem {d : Decl} (hdecls : declsAre isVar isFunc before decls) (hmem : d ∈ decls) :
    ∃ earlier, declsAre isVar isFunc earlier [d] := by
  induction decls generalizing before with
  | nil => cases hmem
  | cons decl rest ih =>
    rcases mem_cons.1 hmem with rfl | hrest
    · cases d <;> exact ⟨before, hdecls.1, trivial⟩
    · cases decl <;> exact ih hdecls.2 hrest

lemma declsAre_imp (hvar : ∀ before d, isVar before d → isVar' before d)
    (hfunc : ∀ before f, isFunc before f → isFunc' before f)
    (hdecls : declsAre isVar isFunc before decls) : declsAre isVar' isFunc' before decls := by
  induction decls generalizing before with
  | nil => trivial
  | cons decl rest ih =>
    cases decl with
    | var d => exact ⟨hvar before d hdecls.1, ih hdecls.2⟩
    | func f => exact ⟨hfunc before f hdecls.1, ih hdecls.2⟩

lemma declsAre_vars (hdecls : declsAre isVar isFunc before decls) :
    declsAre isVar isFunc before ((Program.mk decls).vars.map .var) := by
  induction decls generalizing before with
  | nil => trivial
  | cons decl rest ih =>
    cases decl with
    | var d => exact ⟨hdecls.1, ih hdecls.2⟩
    | func f => exact ih hdecls.2

end

lemma declsAre_of_core : ∀ {before : List String}, declsAreCore p before decls →
      declsAre (fun _ d => d.IsCore) (fun earlier f => f.IsCore earlier p) before decls := by
  induction decls with
  | nil => exact fun _ => trivial
  | cons d rest ih =>
    intro before hcore
    cases d <;> exact ⟨hcore.1, ih hcore.2⟩

/-- A program of integers whose names are declared once, with a function `main`. -/
structure Program.IsCore (p : Program) : Prop where
  distinct : p.names.Nodup
  main : (p.func? "main").isSome
  decls : declsAreCore p [] p.decls

/-- The symbols are those of the program's declarations, and no inner scope is left open. -/
structure Program.Declares (p : Program) (symbols : Symbols) : Prop where
  outermost : symbols.inner = []
  found : ∀ name, symbols.outer.find? name = (p.decls.find? (·.name = name)).map Decl.symbol

def Program.symbols (p : Program) : Symbols := ⟨⟨p.decls.map fun d => (d.name, d.symbol)⟩, [], 0⟩

lemma Program.declares_symbols (p : Program) : p.Declares p.symbols := by
  refine ⟨rfl, fun name => ?_⟩
  have hfind : ∀ decls : List Decl, Table.findIn name (decls.map fun d => (d.name, d.symbol)) =
      (decls.find? (·.name = name)).map Decl.symbol := by
    intro decls
    induction decls with
    | nil => rfl
    | cons d rest ih =>
      by_cases hd : d.name = name
      · simp [Table.findIn, hd]
      · simp [Table.findIn, hd, ih]
  exact hfind p.decls

/-! ## What ends could end -/

/-- An outcome that the shape of a statement allows. -/
def Outcome.Expected (ends breaks : Bool) : Outcome → Prop
  | .normal => ends = true
  | .broke => breaks = true
  | .returned _ => True

/-- With fuel `n`, statements have expected outcomes. -/
structure EndsAsExpected (room : Room) (p : Program) (n : Nat) : Prop where
  stmt : ∀ {h s st outcome s'}, execStmt room p n h s st = some (outcome, s') →
    outcome.Expected st.canEnd st.canBreak
  stmts : ∀ {h s body outcome s'}, execStmts room p n h s body = some (outcome, s') →
    outcome.Expected (canEnd body) (canBreak body)

section

variable {room : Room} {p : Program} {n h : Nat} {s s' : Store} {outcome : Outcome}

lemma Outcome.Expected.weaken {ends ends' breaks breaks' : Bool}
    (h : outcome.Expected ends breaks) (hends : ends → ends')
    (hbreaks : breaks → breaks') : outcome.Expected ends' breaks' := by
  cases outcome with
  | normal => exact hends h
  | broke => exact hbreaks h
  | returned v => trivial

lemma Outcome.Expected.of_normal {ends breaks : Bool} (hends : ends)
    (h : outcome = .normal) : outcome.Expected ends breaks := by
  subst h
  exact hends

lemma EndsAsExpected.stmt_succ (ih : EndsAsExpected room p n) {st : Stmt}
    (hexec : execStmt room p (n + 1) h s st = some (outcome, s')) :
    outcome.Expected st.canEnd st.canBreak := by
  cases st with
  | expr e => exact .of_normal (by simp [Stmt.canEnd]) (execStmt_expr hexec).1
  | decl d => exact .of_normal (by simp [Stmt.canEnd]) (execStmt_decl hexec).1
  | ifElse cond yes no =>
    rcases execStmt_ifElse hexec with ⟨v, s1, _, hbr⟩
    have hway := ih.stmts hbr
    split at hway
    all_goals
      exact hway.weaken (fun h => by simp [Stmt.canEnd, h]) fun h => by simp [Stmt.canBreak, h]
  | whileDo cond body =>
    rcases execStmt_whileDo hexec with ⟨v, s1, _, ⟨_, hnormal, _⟩ | ⟨_, first, s2, _, hrep⟩⟩
    · exact .of_normal (by simp [Stmt.canEnd]) hnormal
    · rcases hrep with ⟨_, hagain⟩ | ⟨_, hnormal, _⟩ | ⟨v, _, hret, _⟩
      · exact ih.stmt hagain
      · exact .of_normal (by simp [Stmt.canEnd]) hnormal
      · subst hret
        trivial
  | loop body =>
    rcases execStmt_loop hexec with ⟨first, s1, hbody, hrep⟩
    rcases hrep with ⟨_, hagain⟩ | ⟨hbroke, hnormal, _⟩ | ⟨v, _, hret, _⟩
    · exact ih.stmt hagain
    · subst hbroke
      exact .of_normal (ih.stmts hbody) hnormal
    · subst hret
      trivial
  | ret value =>
    cases value with
    | none =>
      simp only [execStmt] at hexec
      cases hexec
      trivial
    | some e =>
      rcases execStmt_ret hexec with ⟨v, _, rfl⟩
      trivial
  | leaveLoop =>
    simp only [execStmt] at hexec
    cases hexec
    simp [Outcome.Expected, Stmt.canBreak]
  | blank => simp [execStmt] at hexec

lemma EndsAsExpected.stmts_succ (ih : EndsAsExpected room p n) {body}
    (hexec : execStmts room p (n + 1) h s body = some (outcome, s')) :
    outcome.Expected (canEnd body) (canBreak body) := by
  cases body with
  | nil =>
    simp only [execStmts] at hexec
    cases hexec
    simp [Outcome.Expected, canEnd]
  | cons st rest =>
    rcases execStmts_cons hexec with ⟨first, s1, hfirst, ⟨rfl, hrest⟩ | ⟨hne, rfl, _⟩⟩
    · -- The statement ended, so what the rest can do the whole can do.
      have hst : st.canEnd = true := ih.stmt hfirst
      exact (ih.stmts hrest).weaken (fun hend => by simp [canEnd, hst, hend])
        fun hbreak => by simp [canBreak, hst, hbreak]
    · have hway := ih.stmt hfirst
      cases outcome with
      | normal => exact absurd rfl hne
      | broke =>
        have hst : st.canBreak = true := hway
        simp [Outcome.Expected, canBreak, hst]
      | returned v => trivial

end

lemma endsAsExpected (room : Room) (p : Program) (n : Nat) : EndsAsExpected room p n := by
  induction n with
  | zero =>
    exact ⟨fun hexec => by simp [execStmt] at hexec, fun hexec => by simp [execStmts] at hexec⟩
  | succ n ih => exact ⟨ih.stmt_succ, ih.stmts_succ⟩

end ArmStudio.Script
