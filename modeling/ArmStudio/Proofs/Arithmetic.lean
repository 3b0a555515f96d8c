import ArmStudio.Proofs.IntegerCore
import ArmStudio.Proofs.Trees
import ArmStudio.Script.Check

/-!
# Arithmetic of global variables

Programs that only give global variables their first values: sums, differences and products of
integers and of the variables before them.
-/

namespace ArmStudio.Script

open VarDecl Int32

def Keyword.isArithmetic : Keyword → Bool
  | .plus | .minus | .times => true
  | _ => false

/-- The operation of an operator, on any numbers. -/
def Keyword.onNumbers {α : Type} [Add α] [Sub α] [Mul α] : Keyword → α → α → α
  | .minus, a, b => a - b
  | .times, a, b => a * b
  | _, a, b => a + b

namespace Expr

/-- Sums, differences and products of integers and the variables `known`. -/
def isArithmetic (known : List String) : Expr → Bool
  | .literal (.int _) => true
  | .var x symbol => decide (x ∈ known) && decide (symbol.varType = some .int)
  | .binary op a b => op.isArithmetic && a.isArithmetic known && b.isArithmetic known
  | _ => false

/-- The value of an expression, given the values of variables. -/
def number (values : Table Int32) : Expr → Int32
  | .literal (.int n) => ofInt n
  | .var x _ => (values.find? x).getD 0
  | .binary op a b => op.onNumbers (a.number values) (b.number values)
  | _ => 0

/-- The number of words that stand on the stack at once while the expression is evaluated: the left
operand's value stands below the right operand. -/
def depth : Expr → Nat
  | .binary _ a b => max a.depth (b.depth + 1)
  | _ => 1

def literal? : Expr → Option Value
  | .literal v => some v
  | _ => none

end Expr

/-- An operator between two literals is replaced by its value. -/
def foldInts (op : Keyword) : Expr → Expr → Expr
  | .literal (.int m), .literal (.int n) => .literal (.int (op.onNumbers m n))
  | a, b => .binary op a b

/-- An expression in which operators between literals are replaced by their values. -/
def Expr.folded : Expr → Expr
  | .binary op a b => foldInts op a.folded b.folded
  | e => e

section

variable {known : List String} {e a b : Expr} {op : Keyword}

lemma Expr.isArithmetic_induct {motive : (e : Expr) → e.isArithmetic known → Prop}
    (literal : ∀ n, motive (.literal (.int n)) rfl)
    (var : ∀ x symbol h, x ∈ known → symbol.varType = some .int → motive (.var x symbol) h)
    (binary : ∀ op a b h ha hb, op.isArithmetic → motive a ha → motive b hb →
      motive (.binary op a b) h) (e : Expr) (he : e.isArithmetic known) : motive e he := by
  induction e with
  | literal v =>
    cases v with
    | int n => exact literal n
    | _ => simp [isArithmetic] at he
  | var x symbol =>
    have hparts := he
    simp only [isArithmetic, Bool.and_eq_true, decide_eq_true_eq] at hparts
    exact var x symbol he hparts.1 hparts.2
  | binary op a b iha ihb =>
    have hparts := he
    simp only [isArithmetic, Bool.and_eq_true] at hparts
    exact binary op a b he hparts.1.2 hparts.2 hparts.1.1 (iha hparts.1.2) (ihb hparts.2)
  | _ => simp [isArithmetic] at he

lemma binaryMeaning_arithmetic (h : op.isArithmetic) : binaryMeaning op = some op.onNumbers := by
  cases op <;> simp [Keyword.isArithmetic] at h <;> rfl

lemma isAssignment_arithmetic (h : op.isArithmetic) : op ≠ .assign ∧ op.isAssignment = false := by
  cases op <;> simp [Keyword.isArithmetic] at h <;> exact ⟨by decide, rfl⟩

lemma Expr.isCore_of_isArithmetic {v : Visible} (hv : ∀ x ∈ known, x ∈ v.globals)
    (he : e.isArithmetic known) : e.isCore v := by
  induction e, he using Expr.isArithmetic_induct with
  | literal n => rfl
  | var x symbol _ hx htype => simp [isCore, hv x hx, htype]
  | binary op a b _ ha hb hop iha ihb =>
    obtain ⟨_, hassign⟩ := isAssignment_arithmetic hop
    simp [isCore, binaryMeaning_arithmetic hop, hassign, iha, ihb]

lemma Expr.depth_pos (e : Expr) : 1 ≤ e.depth := by
  cases e with
  | binary op a b =>
    rw [depth]
    omega
  | _ => exact Nat.le.refl

/-! ## Folding -/

lemma foldInts_cases (op : Keyword) (ha : a.isArithmetic known)
    (hb : b.isArithmetic known) :
    (∃ m n, a = .literal (.int m) ∧ b = .literal (.int n) ∧
        foldInts op a b = .literal (.int (op.onNumbers m n))) ∨
      ((a.literal? = none ∨ b.literal? = none) ∧ foldInts op a b = .binary op a b) := by
  induction a, ha using Expr.isArithmetic_induct with
  | literal m =>
    induction b, hb using Expr.isArithmetic_induct with
    | literal n => exact .inl ⟨m, n, rfl, rfl, rfl⟩
    | var | binary => exact .inr ⟨.inr rfl, rfl⟩
  | var | binary => exact .inr ⟨.inl rfl, rfl⟩

lemma Expr.isArithmetic_folded (he : e.isArithmetic known) : e.folded.isArithmetic known := by
  induction e, he using Expr.isArithmetic_induct with
  | literal n => rfl
  | var x symbol _ hx htype => simp [folded, isArithmetic, hx, htype]
  | binary op a b _ _ _ hop iha ihb =>
    rw [folded]
    rcases foldInts_cases op iha ihb with ⟨m, n, _, _, hfold⟩ | ⟨_, hfold⟩
    · rw [hfold]
      rfl
    · simp [hfold, isArithmetic, hop, iha, ihb]

lemma ofInt_onNumbers (op : Keyword) (m n : Int) :
    ofInt (op.onNumbers m n) = op.onNumbers (ofInt m) (ofInt n) := by
  cases op <;> simp [Keyword.onNumbers, ofInt_add, ofInt_sub, ofInt_mul]

lemma Expr.number_folded (values : Table Int32) (he : e.isArithmetic known) :
    e.folded.number values = e.number values := by
  induction e, he using Expr.isArithmetic_induct with
  | literal | var => rfl
  | binary op a b _ ha hb _ iha ihb =>
    rw [folded, number, ← iha, ← ihb]
    rcases foldInts_cases op (isArithmetic_folded ha) (isArithmetic_folded hb) with
      ⟨m, n, hm, hn, hfold⟩ | ⟨_, hfold⟩
    · -- Folded without bounds and cut to 32 bits is the same as computed in 32 bits.
      rw [hfold, hm, hn]
      exact ofInt_onNumbers op m n
    · rw [hfold]
      rfl

/-! ## Analysis of expressions -/

lemma typeOf_arithmetic (symbols : Symbols) (he : e.isArithmetic known) :
    typeOf symbols e = .ok .int := by
  induction e, he using Expr.isArithmetic_induct with
  | literal n => rfl
  | var x symbol _ _ htype => simp [typeOf, htype, require]
  | binary op a b _ _ _ hop iha ihb =>
    rw [typeOf, iha, ihb]
    cases op <;> simp [Keyword.isArithmetic] at hop <;> rfl

lemma evalConst_binary_none (hop : op.isArithmetic) {x y}
    (ha : evalConst a = .ok x) (hb : evalConst b = .ok y) (hnone : x = none ∨ y = none) :
    evalConst (.binary op a b) = .ok none := by
  have hne : op ≠ .kwAs := by
    rintro rfl
    cases hop
  rw [evalConst]
  · simp only [ha, hb, bind, Except.bind]
    rcases hnone with rfl | rfl
    · rfl
    · cases x <;> rfl
  · exact hne

lemma evalConst_binary_ints (hop : op.isArithmetic) (m n : Int) :
    evalConst (.binary op (.literal (.int m)) (.literal (.int n))) =
      .ok (some (.int (op.onNumbers m n))) := by
  cases op <;> simp [Keyword.isArithmetic] at hop <;> rfl

lemma evalConst_folded (he : e.isArithmetic known) :
    evalConst e.folded = .ok e.folded.literal? := by
  induction e, he using Expr.isArithmetic_induct with
  | literal | var => rfl
  | binary op a b _ ha hb hop iha ihb =>
    rw [Expr.folded]
    rcases foldInts_cases op (Expr.isArithmetic_folded ha) (Expr.isArithmetic_folded hb) with
      ⟨m, n, _, _, hfold⟩ | ⟨hnone, hfold⟩
    · rw [hfold]
      rfl
    · rw [hfold]
      exact evalConst_binary_none hop iha ihb hnone

lemma foldChecked_ints (hop : op.isArithmetic) (ha : a.isArithmetic known)
    (hb : b.isArithmetic known) (hints : List Hint) :
    (foldChecked (.binary op a.folded b.folded) hints).outcome =
        .ok (foldInts op a.folded b.folded) ∧
      (foldChecked (.binary op a.folded b.folded) hints).hints = hints := by
  rcases foldInts_cases op (Expr.isArithmetic_folded ha) (Expr.isArithmetic_folded hb) with
    ⟨m, n, hm, hn, hfold⟩ | ⟨hnone, hfold⟩
  · rw [hm, hn, foldChecked, evalConst_binary_ints hop]
    exact ⟨rfl, rfl⟩
  · rw [hfold, foldChecked,
      evalConst_binary_none hop (evalConst_folded ha) (evalConst_folded hb) hnone]
    exact ⟨rfl, rfl⟩

lemma checkExpr_arithmetic (symbols : Symbols) (he : e.isArithmetic known) :
    (checkExpr symbols e).outcome = .ok e.folded ∧ (checkExpr symbols e).hints = [] := by
  induction e, he using Expr.isArithmetic_induct with
  | literal | var => exact ⟨rfl, rfl⟩
  | binary op a b _ ha hb hop iha ihb =>
    have hleft := typeOf_arithmetic symbols (Expr.isArithmetic_folded ha)
    have hright := typeOf_arithmetic symbols (Expr.isArithmetic_folded hb)
    have hkeep : convertOperands op a.folded b.folded .int .int = .keep a.folded b.folded none := by
      cases op <;> simp [Keyword.isArithmetic] at hop <;> rfl
    simp only [checkExpr, iha.1, ihb.1, iha.2, ihb.2, checkOperator, hleft, hright, hkeep,
      Operands.keep, List.append_nil]
    exact foldChecked_ints hop ha hb []

end

/-! ## Programs -/

/-- A variable that starts with a value made of those before it. -/
structure VarDecl.IsArithmetic (before : List String) (d : VarDecl) : Prop where
  type : d.type = .int
  notConst : d.isConst = false
  init : ∃ e, d.init = some e ∧ e.isArithmetic before

def emptyMain : FuncDecl := ⟨"main", [], .void, [], 0⟩

/-- A program that only gives global variables their first values. -/
structure Program.OnlyInitialises (p : Program) : Prop where
  distinct : p.names.Nodup
  main : .func emptyMain ∈ p.decls
  decls : declsAre IsArithmetic (fun _ f => f = emptyMain) [] p.decls

/-- A program whose functions are of the core, and whose global variables start with values made of
those before them. -/
structure Program.IsArithmetic (p : Program) : Prop where
  distinct : p.names.Nodup
  decls : declsAre VarDecl.IsArithmetic (fun before f => f.IsCore before p) [] p.decls

/-- The first value of a variable, given the values of those before it. -/
def VarDecl.number (values : Table Int32) (d : VarDecl) : Int32 :=
  match d.init with
  | some e => e.number values
  | none => 0

/-- The number of words that the first value of a variable needs. -/
def VarDecl.depth (d : VarDecl) : Nat :=
  match d.init with
  | some e => e.depth
  | none => 0

/-- The values of variables, behind `values`, in the order of their declarations. -/
def valuesFrom : Table Int32 → List VarDecl → Table Int32
  | values, [] => values
  | values, d :: rest => valuesFrom ⟨values.entries ++ [(d.name, d.number values)]⟩ rest

def Program.firstValues (p : Program) : Table Int32 := valuesFrom .empty p.vars

def VarDecl.folded (d : VarDecl) : VarDecl := { d with init := d.init.map Expr.folded }

def Decl.folded : Decl → Decl
  | .var d => .var d.folded
  | .func f => .func f

/-- The program with the first values of its variables folded. -/
def Program.folded (p : Program) : Program := ⟨p.decls.map Decl.folded⟩

section

variable {symbols : Symbols} {p : Program} {before : List String} {d : VarDecl} {decls : List Decl}

lemma VarDecl.IsArithmetic.folded (hd : d.IsArithmetic before) :
    d.folded.IsArithmetic before := by
  obtain ⟨e, hinit, he⟩ := hd.init
  exact ⟨hd.type, hd.notConst, e.folded, by rw [VarDecl.folded, hinit]; rfl,
    Expr.isArithmetic_folded he⟩

lemma Decl.name_folded (d : Decl) : d.folded.name = d.name := by
  cases d <;> rfl

lemma Decl.symbol_folded (d : Decl) : d.folded.symbol = d.symbol := by
  cases d <;> rfl

lemma Program.names_folded (p : Program) : p.folded.names = p.names := by
  simp [folded, names, Function.comp_def, Decl.name_folded]

lemma Program.vars_folded (p : Program) : p.folded.vars = p.vars.map VarDecl.folded := by
  simp only [vars, folded, List.filterMap_map, List.map_filterMap]
  congr 1
  funext d
  cases d <;> rfl

lemma Program.Declares.folded (hsym : p.Declares symbols) : p.folded.Declares symbols := by
  refine ⟨hsym.outermost, fun name => ?_⟩
  rw [hsym.found, Program.folded, List.find?_map, Option.map_map]
  simp only [Function.comp_def, Decl.name_folded, Decl.symbol_folded]

lemma declsAre_folded : ∀ {before : List String},
    declsAre IsArithmetic (fun _ f => f = emptyMain) before decls →
    declsAre IsArithmetic (fun _ f => f = emptyMain) before (decls.map Decl.folded) := by
  induction decls with
  | nil => exact fun _ => trivial
  | cons decl rest ih =>
    intro before hdecls
    cases decl with
    | var d => exact ⟨hdecls.1.folded, ih hdecls.2⟩
    | func f => exact ⟨hdecls.1, ih hdecls.2⟩

lemma VarDecl.IsArithmetic.number_folded (hd : d.IsArithmetic before) (values : Table Int32) :
    d.folded.number values = d.number values := by
  obtain ⟨e, hinit, he⟩ := hd.init
  simp only [VarDecl.number, VarDecl.folded, hinit, Option.map_some]
  exact Expr.number_folded values he

lemma valuesFrom_folded {vars} (h : ∀ d ∈ vars, ∃ before, d.IsArithmetic before)
    (values : Table Int32) :
    valuesFrom values (vars.map folded) = valuesFrom values vars := by
  induction vars generalizing values with
  | nil => rfl
  | cons d rest ih =>
    obtain ⟨before, hd⟩ := h d (by simp)
    have hname : d.folded.name = d.name := rfl
    rw [List.map_cons, valuesFrom, valuesFrom, hd.number_folded, hname]
    exact ih (fun d' hd' => h d' (by simp [hd'])) _

lemma names_valuesFrom (vars : List VarDecl) (values : Table Int32) :
    (valuesFrom values vars).names = values.names ++ vars.map name := by
  induction vars generalizing values with
  | nil => simp [valuesFrom]
  | cons d rest ih =>
    rw [valuesFrom, ih]
    simp [Table.names]

lemma checkDecl_arithmetic (hd : d.IsArithmetic before) :
    checkDecl symbols d = ⟨d.folded, [], .ok ()⟩ := by
  obtain ⟨e, hinit, he⟩ := hd.init
  obtain ⟨houtcome, hhints⟩ := checkExpr_arithmetic symbols he
  have htype := typeOf_arithmetic symbols (Expr.isArithmetic_folded he)
  simp [checkDecl, checkTyped, hinit, houtcome, hhints, htype, hd.type, folded]

lemma checkDecls_arithmetic : ∀ {before : List String},
    declsAre IsArithmetic (fun _ f => f = emptyMain) before decls →
    checkDecls symbols decls = ⟨decls.map Decl.folded, [], .ok ()⟩ := by
  induction decls with
  | nil =>
    intro before _
    rfl
  | cons decl rest ih =>
    intro before hdecls
    cases decl with
    | var d =>
      have hd : checkDecl symbols d = ⟨d.folded, [], .ok ()⟩ := checkDecl_arithmetic hdecls.1
      have hrest := ih hdecls.2
      simp [checkDecls, hd, hrest, Decl.folded]
    | func f =>
      obtain rfl := hdecls.1
      have hrest := ih hdecls.2
      simp [checkDecls, checkFunc, checkBlock, emptyMain, hrest, Decl.folded]

end

lemma Program.IsArithmetic.var {p : Program} (hp : p.IsArithmetic) {d : VarDecl}
    (hd : d ∈ p.vars) : ∃ before, d.IsArithmetic before :=
  (declsAre_mem hp.decls (Program.mem_decls_of_mem_vars hd)).imp fun _ h => h.1

/-! ## Programs of the core -/

namespace Program.IsCore

variable {p : Program}

lemma isArithmetic (hp : p.IsCore) : p.IsArithmetic := by
  refine ⟨hp.distinct, declsAre_imp ?_ (fun _ _ hf => hf) (declsAre_of_core hp.decls)⟩
  intro before d hd
  obtain ⟨n, hinit⟩ := hd.init
  exact ⟨hd.type, hd.notConst, _, hinit, rfl⟩

lemma var (hp : p.IsCore) {d : VarDecl} (hd : d ∈ p.vars) :
    ∃ n, d.init = some (.literal (.int n)) := by
  obtain ⟨_, hcore, -⟩ :=
    declsAre_mem (declsAre_of_core hp.decls) (Program.mem_decls_of_mem_vars hd)
  exact hcore.init

lemma depth_eq (hp : p.IsCore) {d} (hd : d ∈ p.vars) : d.depth = 1 := by
  obtain ⟨n, hinit⟩ := hp.var hd
  simp [depth, hinit, Expr.depth]

lemma firstValues_eq (hp : p.IsCore) : p.firstValues = p.initialGlobals := by
  have hvals : ∀ vars values,
      (∀ d ∈ vars, ∃ n, d.init = some (.literal (.int n))) →
      valuesFrom values vars = ⟨values.entries ++ vars.map fun d => (d.name, d.initial)⟩ := by
    intro vars
    induction vars with
    | nil => simp [valuesFrom]
    | cons d rest ih =>
      intro values hvars
      obtain ⟨n, hinit⟩ := hvars d (by simp)
      rw [valuesFrom, ih _ fun d' hd' => hvars d' (by simp [hd'])]
      simp [number, initial, initialInt, hinit, Expr.number]
  exact hvals p.vars .empty fun d hd => hp.var hd

end Program.IsCore

lemma emptyMain_isCore (before : List String) (p : Program) : emptyMain.IsCore before p where
  params := by simp [emptyMain]
  named := by decide
  distinct := by decide
  apart := by simp [emptyMain, FuncDecl.localNames, declaredIn]
  counted := by decide
  small := by decide
  body := rfl
  result := .inl ⟨rfl, rfl, rfl⟩

/-! ## Programs that only initialise -/

namespace Program.OnlyInitialises

variable {p : Program} {symbols : Symbols} (hp : p.OnlyInitialises)

include hp

lemma isArithmetic : p.IsArithmetic := by
  refine ⟨hp.distinct, declsAre_imp (fun _ _ hd => hd) ?_ hp.decls⟩
  rintro before f rfl
  exact emptyMain_isCore before p

lemma folded : p.folded.OnlyInitialises :=
  ⟨by rw [names_folded]; exact hp.distinct, List.mem_map.2 ⟨_, hp.main, rfl⟩,
    declsAre_folded hp.decls⟩

lemma firstValues_folded : p.folded.firstValues = p.firstValues := by
  rw [firstValues, vars_folded]
  exact valuesFrom_folded (fun d hd => hp.isArithmetic.var hd) _

lemma check_eq (hsym : p.Declares symbols) : p.check symbols = ⟨p.folded, [], .ok ()⟩ := by
  have hmain : mainError? symbols = none := by
    have hfound := hsym.found "main"
    have hfind : p.decls.find? (·.name = "main") = some (.func emptyMain) :=
      find?_decl hp.distinct hp.main
    rw [hfind] at hfound
    rw [mainError?, hfound]
    rfl
  rw [check, hmain]
  simp only [checkDecls_arithmetic hp.decls]
  rfl

end Program.OnlyInitialises

end ArmStudio.Script
