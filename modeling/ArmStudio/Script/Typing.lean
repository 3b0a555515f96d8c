import ArmStudio.Script.Tree

/-!
# Types of expressions

`typeOf` gives the type of an expression without changing it. Sums, differences, products and
quotients are floating-point as soon as one operand is, whatever the other one is; comparisons and
logic give integers without a look at their operands.
-/

namespace ArmStudio.Script

inductive Facet where
  | varType
  | isConst
  | params
  | returnType
  | slot
  deriving DecidableEq

namespace Facet

def name : Facet → String
  | varType => "var_type"
  | isConst => "is_const"
  | params => "params"
  | returnType => "return_type"
  | slot => "offset"

end Facet

inductive TypeError where
  | unknownSymbol (name : String)
  | notAType (k : Keyword)
  | missing (facet : Facet)
  | badOperand (op : Keyword) (t : VarType)
  | badOperands (op : Keyword) (left right : VarType)
  | noTarget (form : String)
  | cannotInfer (mention : String)
  deriving DecidableEq

namespace TypeError

def message : TypeError → String
  | unknownSymbol name => s!"Symbol not found: {name}"
  | notAType k => s!"Invalid keyword type {k.qualified}"
  | missing facet => s!"'{facet.name}'"
  | badOperand op t => s!"Invalid operand type for {op.name}: {t.qualified}"
  | badOperands op left right =>
    s!"Invalid operand types for {op.name}: {left.qualified}, {right.qualified}"
  | noTarget form => s!"'{form}' object has no attribute 'var_type'"
  | cannotInfer mention => s!"Cannot infer type of {mention}"

end TypeError

def require {α : Type} (facet : Facet) : Option α → Except TypeError α
  | some a => .ok a
  | none => .error (.missing facet)

def Scopes.lookup {α : Type} (scopes : Scopes α) (name : String) : Except TypeError α :=
  match scopes.lookup? name with
  | some a => .ok a
  | none => .error (.unknownSymbol name)

def symbolOf (symbols : Symbols) (name : String) : Except TypeError Symbol := symbols.lookup name

def Keyword.varType (k : Keyword) : Except TypeError VarType :=
  match k.varType? with
  | some t => .ok t
  | none => .error (.notAType k)

def binaryType (op : Keyword) (right : Expr) (whole : Expr) (lt rt : VarType) :
    Except TypeError VarType :=
  match op with
  | .plus | .minus | .times | .divide =>
    .ok (if lt = .float ∨ rt = .float then .float else .int)
  | .modulo | .bitAnd | .bitOr | .bitXor | .shiftLeft | .shiftRight =>
    if lt = .int ∧ rt = .int then .ok .int else .error (.badOperands op lt rt)
  | .assign | .addAssign | .subAssign | .mulAssign | .divAssign | .modAssign | .andAssign
  | .orAssign | .xorAssign | .shlAssign | .shrAssign => .ok lt
  | .kwAs =>
    match right with
    | .typeName t => .ok t
    | _ => .error (.noTarget right.form)
  | .equal | .notEqual | .less | .lessEqual | .greater | .greaterEqual | .logicalAnd
  | .logicalOr => .ok .int
  | _ => .error (.cannotInfer whole.mention)

def unaryType (op : Keyword) (whole : Expr) (t : VarType) : Except TypeError VarType :=
  match op with
  | .minus => if t = .int ∨ t = .float then .ok t else .error (.cannotInfer whole.mention)
  | .bitNot | .logicalNot => if t = .int then .ok .int else .error (.badOperand op t)
  | _ => .error (.cannotInfer whole.mention)

def typeOf (symbols : Symbols) : Expr → Except TypeError VarType
  | .literal (.real _) => .ok .float
  | .literal _ => .ok .int
  | .var _ symbol => require .varType symbol.varType
  | .unary op e => do
    let t ← typeOf symbols e
    unaryType op (.unary op e) t
  | .binary op a b => do
    let lt ← typeOf symbols a
    let rt ← typeOf symbols b
    binaryType op b (.binary op a b) lt rt
  | .call func _ _ => do
    let symbol ← symbolOf symbols func
    require .returnType symbol.returnType
  | .sysCall func _ => .ok func.callResult
  | .typeName t => .ok t
  | .hole => .error (.cannotInfer Expr.hole.mention)
  | .blank => .error (.cannotInfer Expr.blank.mention)

end ArmStudio.Script
