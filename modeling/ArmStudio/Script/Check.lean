import ArmStudio.Script.Folding
import ArmStudio.Script.Typing

/-!
# Analysis

The analysis inserts conversions where operand types differ, folds constants and refuses programs
whose types or control flow do not fit. It changes trees in place: what a failing analysis has
changed so far stays changed, so every step gives back the tree as it stands along with its
outcome.

* A folded expression replaces the expression where its parent stores it. Statements and arguments
  that need no conversion keep the unfolded one.
* Of operands of a comparison that differ, the floating-point one is converted.
-/

namespace ArmStudio.Script

inductive CheckError where
  | type (cause : TypeError)
  | fold (cause : FoldError)
  | assignment (left right : VarType)
  | notAVariable
  | constantTarget
  | operands (op : Keyword) (left right : VarType)
  | comparison (left right : VarType)
  | notAFunction (name : String)
  | argumentCount (name : String) (want got : Nat)
  | callArgumentCount (func : Keyword) (want got : Nat)
  | noMain
  | badMain
  | mustReturn (name : String) (t : VarType)
  | valueWanted
  | noValueWanted
  | breakOutsideLoop
  deriving DecidableEq

namespace CheckError

def message : CheckError → String
  | type cause => cause.message
  | fold cause => cause.message
  | assignment left right => s!"Incompatible assignment {left.name} -> {right.name}"
  | notAVariable => "Invalid left-hand side of assignment"
  | constantTarget => "Cannot assign to constant"
  | operands op left right => s!"Invalid operand types for {op.name}: {left.name}, {right.name}"
  | comparison left right => s!"Incompatible comparison {left.name} - {right.name}"
  | notAFunction name => s!"{name} is not a function"
  | argumentCount name want got => s!"Function {name} expects {want} args, got {got}"
  | callArgumentCount func want got => s!"System call {func.name} expects {want} args, got {got}"
  | noMain => "No main function found"
  | badMain => "No valid main function found"
  | mustReturn name t => s!"Function {name} must return {t.name}"
  | valueWanted => "Return must provide value"
  | noValueWanted => "Expected void return"
  | breakOutsideLoop => "Break statement not inside a loop"

end CheckError

inductive Hint where
  | leftOperand
  | rightOperand
  | assignToFloat
  | assignToInt
  | comparison
  | declaration (source target : VarType) (name : String)
  | returned (source target : VarType)
  | ifCondition (source : VarType)
  | whileCondition (source : VarType)
  | argument (source target : VarType) (index : Nat) (func : String)
  | callArgument (source target : VarType) (index : Nat) (func : Keyword)
  deriving DecidableEq

namespace Hint

def text : Hint → String
  | leftOperand => "[hint] implicit cast int -> float on left side"
  | rightOperand => "[hint] implicit cast int -> float on right side"
  | assignToFloat => "[hint] implicit cast int -> float in assignment"
  | assignToInt => "[hint] implicit cast float -> int in assignment"
  | comparison => "[hint] implicit cast int -> float in comparison"
  | declaration source target name =>
    s!"[hint] implicit cast {source.name} -> {target.name} in variable declaration of {name}"
  | returned source target => s!"[hint] implicit cast {source.name} -> {target.qualified} in return"
  | ifCondition source => s!"[hint] implicit cast {source.name} -> int in if condition"
  | whileCondition source => s!"[hint] implicit cast {source.name} -> bool in if condition"
  | argument source target index func =>
    s!"[hint] implicit cast {source.name} -> {target.name} in function arg {index} of {func}"
  | callArgument source target index func =>
    s!"[hint] implicit cast {source.name} -> {target.name} in system call arg {index}" ++
      s!" of {func.name}"

end Hint

/-- What an analysis step leaves: the tree as it stands, the remarks, and the outcome. -/
structure Checked (α β : Type) where
  tree : α
  hints : List Hint
  outcome : Except CheckError β

/-! ## Expressions -/

structure Operands where
  left : Expr
  right : Expr
  hints : List Hint
  error : Option CheckError

def Operands.keep (a b : Expr) (error : Option CheckError) : Operands := ⟨a, b, [], error⟩

def targetError? (e : Expr) : Option CheckError :=
  match e with
  | .var _ symbol =>
    match symbol.isConst with
    | none => some (.type (.missing .isConst))
    | some true => some .constantTarget
    | some false => none
  | _ => some .notAVariable

def convertOperands (op : Keyword) (a b : Expr) (lt rt : VarType) : Operands :=
  match op with
  | .plus | .minus | .times | .divide =>
    match lt, rt with
    | .int, .float => ⟨a.convert .float, b, [.leftOperand], none⟩
    | .float, .int => ⟨a, b.convert .float, [.rightOperand], none⟩
    | _, _ => .keep a b none
  | .assign | .addAssign | .subAssign | .mulAssign | .divAssign =>
    if lt = rt then .keep a b (targetError? a)
    else match lt, rt with
      | .float, .int => ⟨a, b.convert .float, [.assignToFloat], targetError? a⟩
      | .int, .float => ⟨a, b.convert .int, [.assignToInt], targetError? a⟩
      | _, _ => .keep a b (some (.assignment lt rt))
  | .less | .lessEqual | .greater | .greaterEqual =>
    match lt, rt with
    | .float, .int => ⟨a.convert .float, b, [.comparison], none⟩
    | .int, .float => ⟨a, b.convert .float, [.comparison], none⟩
    | _, _ => .keep a b none
  | .modulo | .bitAnd | .bitOr | .bitXor | .shiftLeft | .shiftRight =>
    .keep a b (if lt = .int ∧ rt = .int then none else some (.operands op lt rt))
  | .equal | .notEqual => .keep a b (if lt = rt then none else some (.comparison lt rt))
  | _ => .keep a b none

def foldChecked (e : Expr) (hints : List Hint) : Checked Expr Expr :=
  match evalConst e with
  | .error cause => ⟨e, hints, .error (.fold cause)⟩
  | .ok none => ⟨e, hints, .ok e⟩
  | .ok (some v) => ⟨e, hints, .ok (.literal v)⟩

def checkOperator (symbols : Symbols) (op : Keyword) (a b : Expr) (hints : List Hint) :
    Checked Expr Expr :=
  match typeOf symbols a, typeOf symbols b with
  | .error e, _ => ⟨.binary op a b, hints, .error (.type e)⟩
  | _, .error e => ⟨.binary op a b, hints, .error (.type e)⟩
  | .ok lt, .ok rt =>
    let r := convertOperands op a b lt rt
    let whole := .binary op r.left r.right
    match r.error with
    | some e => ⟨whole, hints ++ r.hints, .error e⟩
    | none => foldChecked whole (hints ++ r.hints)

/-- An argument after its own analysis: converted where its type is not the parameter's, else as
it stands unfolded. -/
def passArgument (symbols : Symbols) (r : Checked Expr Expr) (param : VarType)
    (hint : VarType → Hint) : Checked Expr Unit :=
  match r.outcome with
  | .error e => ⟨r.tree, r.hints, .error e⟩
  | .ok arg =>
    match typeOf symbols arg with
    | .error e => ⟨r.tree, r.hints, .error (.type e)⟩
    | .ok t =>
      if t = param then ⟨r.tree, r.hints, .ok ()⟩
      else ⟨arg.convert param, r.hints ++ [hint t], .ok ()⟩

def callParams? (symbols : Symbols) (func : String) (count : Nat) :
    Except CheckError (List VarType) := do
  let symbol ← (symbolOf symbols func).mapError CheckError.type
  if symbol.kind ≠ .function then throw (.notAFunction func)
  let params ← (require .params symbol.params).mapError CheckError.type
  if count ≠ params.length then throw (.argumentCount func params.length count)
  return params

mutual

def checkExpr (symbols : Symbols) : Expr → Checked Expr Expr
  | .binary op a b =>
    let l := checkExpr symbols a
    match l.outcome with
    | .error e => ⟨.binary op l.tree b, l.hints, .error e⟩
    | .ok a' =>
      let r := checkExpr symbols b
      match r.outcome with
      | .error e => ⟨.binary op a' r.tree, l.hints ++ r.hints, .error e⟩
      | .ok b' => checkOperator symbols op a' b' (l.hints ++ r.hints)
  | .unary op a =>
    let r := checkExpr symbols a
    match r.outcome with
    | .error e => ⟨.unary op r.tree, r.hints, .error e⟩
    | .ok a' => foldChecked (.unary op a') r.hints
  | .call func symbol args =>
    match callParams? symbols func args.length with
    | .error e => ⟨.call func symbol args, [], .error e⟩
    | .ok params =>
      let r := checkArgs symbols (fun s t i => .argument s t i func) 0 args params
      match r.outcome with
      | .error e => ⟨.call func symbol r.tree, r.hints, .error e⟩
      | .ok _ => foldChecked (.call func symbol r.tree) r.hints
  | .sysCall func args =>
    if args.length ≠ func.callParams.length then
      ⟨.sysCall func args, [], .error (.callArgumentCount func func.callParams.length args.length)⟩
    else
      let r := checkArgs symbols (fun s t i => .callArgument s t i func) 0 args func.callParams
      match r.outcome with
      | .error e => ⟨.sysCall func r.tree, r.hints, .error e⟩
      | .ok _ => foldChecked (.sysCall func r.tree) r.hints
  | e => foldChecked e []

/-- Analyses arguments against parameters, in order, up to the first that fails. -/
def checkArgs (symbols : Symbols) (hint : VarType → VarType → Nat → Hint) (index : Nat) :
    List Expr → List VarType → Checked (List Expr) Unit
  | arg :: args, param :: params =>
    let r := passArgument symbols (checkExpr symbols arg) param (hint · param index)
    match r.outcome with
    | .error e => ⟨r.tree :: args, r.hints, .error e⟩
    | .ok _ =>
      let rest := checkArgs symbols hint (index + 1) args params
      ⟨r.tree :: rest.tree, r.hints ++ rest.hints, rest.outcome⟩
  | args, _ => ⟨args, [], .ok ()⟩

end

/-! ## Statements -/

def checkTyped (symbols : Symbols) (e : Expr) (target : VarType) (hint : VarType → Hint) :
    Checked Expr Unit :=
  let r := checkExpr symbols e
  match r.outcome with
  | .error err => ⟨r.tree, r.hints, .error err⟩
  | .ok e' =>
    match typeOf symbols e' with
    | .error err => ⟨e', r.hints, .error (.type err)⟩
    | .ok t =>
      if t = target then ⟨e', r.hints, .ok ()⟩
      else ⟨e'.convert target, r.hints ++ [hint t], .ok ()⟩

def checkDecl (symbols : Symbols) (d : VarDecl) : Checked VarDecl Unit :=
  match d.init with
  | none => ⟨d, [], .ok ()⟩
  | some e =>
    let r := checkTyped symbols e d.type (.declaration · d.type d.name)
    ⟨{ d with init := some r.tree }, r.hints, r.outcome⟩

def checkReturn (symbols : Symbols) (result : VarType) (value : Option Expr) : Checked Stmt Bool :=
  match value with
  | none =>
    if result = .void then ⟨.ret none, [], .ok true⟩
    else ⟨.ret none, [], .error .valueWanted⟩
  | some e =>
    if result = .void then ⟨.ret (some e), [], .error .noValueWanted⟩
    else
      let r := checkTyped symbols e result (.returned · result)
      ⟨.ret (some r.tree), r.hints, r.outcome.map fun _ => true⟩

mutual

/-- Analyses a statement; the outcome says whether it surely returns. -/
def checkStmt (symbols : Symbols) (result : VarType) (inLoop : Bool) : Stmt → Checked Stmt Bool
  | .ret value => checkReturn symbols result value
  | .leaveLoop => ⟨.leaveLoop, [], if inLoop then .ok false else .error .breakOutsideLoop⟩
  | .ifElse cond thenBody elseBody =>
    let c := checkTyped symbols cond .int .ifCondition
    match c.outcome with
    | .error e => ⟨.ifElse c.tree thenBody elseBody, c.hints, .error e⟩
    | .ok _ =>
      let t := checkBlock symbols result inLoop thenBody
      match t.outcome with
      | .error e => ⟨.ifElse c.tree t.tree elseBody, c.hints ++ t.hints, .error e⟩
      | .ok thenReturns =>
        let f := checkBlock symbols result inLoop elseBody
        ⟨.ifElse c.tree t.tree f.tree, c.hints ++ t.hints ++ f.hints,
          f.outcome.map (thenReturns && ·)⟩
  | .whileDo cond body =>
    let c := checkTyped symbols cond .int .whileCondition
    match c.outcome with
    | .error e => ⟨.whileDo c.tree body, c.hints, .error e⟩
    | .ok _ =>
      let b := checkBlock symbols result true body
      ⟨.whileDo c.tree b.tree, c.hints ++ b.hints, b.outcome.map fun _ => false⟩
  | .loop body =>
    let b := checkBlock symbols result true body
    ⟨.loop b.tree, b.hints, b.outcome.map fun _ => false⟩
  | .decl d =>
    let r := checkDecl symbols d
    ⟨.decl r.tree, r.hints, r.outcome.map fun _ => false⟩
  | .expr e =>
    let r := checkExpr symbols e
    ⟨.expr r.tree, r.hints, r.outcome.map fun _ => false⟩
  | .blank => ⟨.blank, [], .ok false⟩

/-- Analyses statements in order, up to the first that fails; the outcome says whether one of them
surely returns. -/
def checkBlock (symbols : Symbols) (result : VarType) (inLoop : Bool) :
    List Stmt → Checked (List Stmt) Bool
  | [] => ⟨[], [], .ok false⟩
  | s :: rest =>
    let r := checkStmt symbols result inLoop s
    match r.outcome with
    | .error e => ⟨r.tree :: rest, r.hints, .error e⟩
    | .ok returns =>
      let more := checkBlock symbols result inLoop rest
      ⟨r.tree :: more.tree, r.hints ++ more.hints, more.outcome.map (returns || ·)⟩

end

/-! ## Programs -/

def checkFunc (symbols : Symbols) (f : FuncDecl) : Checked FuncDecl Unit :=
  let r := checkBlock symbols f.returnType false f.body
  ⟨{ f with body := r.tree }, r.hints, match r.outcome with
    | .error e => .error e
    | .ok returns =>
      if f.returnType ≠ .void ∧ returns = false then .error (.mustReturn f.name f.returnType)
      else .ok ()⟩

def checkDecls (symbols : Symbols) : List Decl → Checked (List Decl) Unit
  | [] => ⟨[], [], .ok ()⟩
  | .var d :: rest =>
    let r := checkDecl symbols d
    match r.outcome with
    | .error e => ⟨.var r.tree :: rest, r.hints, .error e⟩
    | .ok _ =>
      let more := checkDecls symbols rest
      ⟨.var r.tree :: more.tree, r.hints ++ more.hints, more.outcome⟩
  | .func f :: rest =>
    let r := checkFunc symbols f
    match r.outcome with
    | .error e => ⟨.func r.tree :: rest, r.hints, .error e⟩
    | .ok _ =>
      let more := checkDecls symbols rest
      ⟨.func r.tree :: more.tree, r.hints ++ more.hints, more.outcome⟩

/-- The program has a function `main` without parameters and result. -/
def mainError? (symbols : Symbols) : Option CheckError :=
  match symbols.outer.find? "main" with
  | none => some .noMain
  | some s =>
    if s.kind = .function ∧ s.params = some [] ∧ s.returnType = some .void then none
    else some .badMain

def Program.check (symbols : Symbols) (p : Program) : Checked Program Unit :=
  match mainError? symbols with
  | some e => ⟨p, [], .error e⟩
  | none =>
    let r := checkDecls symbols p.decls
    ⟨⟨r.tree⟩, r.hints, r.outcome⟩

end ArmStudio.Script
