import ArmStudio.Script.Tree

/-!
# Constant folding

`evalConst` gives the value of an expression that is built from literals, and nothing for any other
expression. Logic gives one of its operands; division of integers is real division.
-/

namespace ArmStudio.Script

inductive FoldError where
  | arith (cause : ArithError)
  | invalidCast
  deriving DecidableEq

namespace FoldError

def message : FoldError → String
  | arith cause => cause.message
  | invalidCast => "Invalid type cast"

end FoldError

/-- An operator on constants; nothing for operators that have no constant value. -/
def evalBinary (op : Keyword) (a b : Value) : Except ArithError (Option Value) :=
  match op with
  | .plus => (a.add b).map some
  | .minus => (a.sub b).map some
  | .times => (a.mul b).map some
  | .divide => (a.div b).map some
  | .modulo => (a.mod b).map some
  | .less => .ok (some (a.compareBy (· == .lt) false b))
  | .lessEqual => .ok (some (a.compareBy (· != .gt) false b))
  | .greater => .ok (some (a.compareBy (· == .gt) false b))
  | .greaterEqual => .ok (some (a.compareBy (· != .lt) false b))
  | .equal => .ok (some (a.compareBy (· == .eq) false b))
  | .notEqual => .ok (some (a.compareBy (· != .eq) true b))
  | .logicalAnd => .ok (some (if a.truth then b else a))
  | .logicalOr => .ok (some (if a.truth then a else b))
  | .bitAnd => (a.bitAnd b).map some
  | .bitOr => (a.bitOr b).map some
  | .bitXor => (a.bitXor b).map some
  | .shiftLeft => (a.shiftLeft b).map some
  | .shiftRight => (a.shiftRight b).map some
  | _ => .ok none

def evalUnary (op : Keyword) (a : Value) : Except ArithError (Option Value) :=
  match op with
  | .minus => .ok (some a.neg)
  | .logicalNot => .ok (some (.flag (!a.truth)))
  | .bitNot => a.bitNot.map some
  | _ => .ok none

def evalCast (t : VarType) (a : Value) : Except ArithError (Option Value) :=
  match t with
  | .int => a.truncate.map (some ∘ .int)
  | .float => a.toReal.map (some ∘ .real)
  | _ => .ok none

def evalConst : Expr → Except FoldError (Option Value)
  | .literal v => .ok (some v)
  | .unary op e => do
    match ← evalConst e with
    | none => return none
    | some a => (evalUnary op a).mapError .arith
  | .binary .kwAs a b => do
    match ← evalConst a with
    | none => return none
    | some v =>
      match b with
      | .typeName t => (evalCast t v).mapError .arith
      | _ => throw .invalidCast
  | .binary op a b => do
    let left ← evalConst a
    let right ← evalConst b
    match left, right with
    | some x, some y => (evalBinary op x y).mapError .arith
    | _, _ => return none
  | _ => .ok none

end ArmStudio.Script
