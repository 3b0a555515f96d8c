import ArmStudio.Script.Cursor

/-!
# Expressions from tokens

Operators bind by their powers. The right operand of an operator is read with the operator's own
power, so operators of one power group to the right. An argument list ends the expression it
belongs to: operators behind it are left to the caller.

Every function takes fuel; `Cursor.fuel` is enough for the tokens ahead.
-/

namespace ArmStudio.Script

/-- The expression that a name or literal at the head stands for. -/
def atom? (symbols : Symbols) (t : Token) : Except ParseError (Option Expr) :=
  match t.lexeme with
  | .name s =>
    match symbols.lookup? s with
    | none => .error (.undefined s t.line)
    | some symbol =>
      match symbol.kind with
      | .variable => .ok (some (.var s symbol))
      | .function => .ok (some (.call s symbol []))
  | .int n => .ok (some (.literal (.int n)))
  | .real x => .ok (some (.literal (.real x)))
  | .keyword _ => .ok none

/-- A call with its arguments; none where the expression is not a call. -/
def Expr.withArgs? (e : Expr) (args : List Expr) : Option Expr :=
  match e with
  | .call func symbol _ => some (.call func symbol args)
  | .sysCall func _ => some (.sysCall func args)
  | _ => none

def castTarget (c : Cursor) : Except ParseError (VarType × Cursor) :=
  match (c.peek?.bind Token.keyword?).bind Keyword.varType? with
  | some t => .ok (t, c.skip)
  | none => .error (.showing? c.peek? .unexpectedType)

mutual

/-- An expression whose operators bind with at least `power`. -/
def parseExpr (symbols : Symbols) : Nat → Nat → Cursor → Except ParseError (Expr × Cursor)
  | 0, _, _ => .error .exhausted
  | fuel + 1, power, c => do
    let (left, c) ← parseOperand symbols fuel c
    parseOperators symbols fuel power left c

/-- A name, literal, unary expression, parenthesis or bare system call. -/
def parseOperand (symbols : Symbols) : Nat → Cursor → Except ParseError (Expr × Cursor)
  | 0, _ => .error .exhausted
  | fuel + 1, c =>
    match c.peek? with
    | none => .error .unexpectedEnd
    | some t => do
      match ← atom? symbols t with
      | some e => return (e, c.skip)
      | none =>
        match t.keyword? with
        | none => throw (.showing t (.unexpectedAt · t.line))
        | some k =>
          if k.isUnary then
            let (operand, c) ← parseExpr symbols fuel Keyword.unaryPower c.skip
            return (.unary k operand, c)
          else if k = .leftParen then
            let (inner, c) ← parseExpr symbols fuel 0 c.skip
            return (inner, ← c.close .rightParen)
          else if k.startsCall then return (.sysCall k [], c.skip)
          else throw (.showing t (.unexpectedAt · t.line))

/-- The operators and operands behind a left operand, or the argument list of a call. -/
def parseOperators (symbols : Symbols) :
    Nat → Nat → Expr → Cursor → Except ParseError (Expr × Cursor)
  | 0, _, _, _ => .error .exhausted
  | fuel + 1, power, left, c =>
    match c.peek?.bind Token.keyword? with
    | none => .ok (left, c)
    | some k =>
      if k.isBinary then
        let own := k.precedence?.getD 0
        if own < power then .ok (left, c)
        else if k = .kwAs then do
          let (t, c) ← castTarget c.skip
          parseOperators symbols fuel power (left.convert t) c
        else do
          let (right, c) ← parseExpr symbols fuel own c.skip
          parseOperators symbols fuel power (.binary k left right) c
      else if k = .leftParen && (left.withArgs? []).isSome then do
        let (args, c) ← parseArguments symbols fuel c.skip
        return ((left.withArgs? args).getD left, ← c.close .rightParen)
      else .ok (left, c)

def parseArguments (symbols : Symbols) : Nat → Cursor → Except ParseError (List Expr × Cursor)
  | 0, _ => .error .exhausted
  | fuel + 1, c =>
    match c.peek? with
    | none => .error .noArgument
    | some t => if t.is .rightParen then .ok ([], c) else parseMoreArguments symbols fuel c

def parseMoreArguments (symbols : Symbols) : Nat → Cursor → Except ParseError (List Expr × Cursor)
  | 0, _ => .error .exhausted
  | fuel + 1, c => do
    let (arg, c) ← parseExpr symbols fuel 0 c
    match c.peek? with
    | none => throw .noKeyword
    | some t =>
      match t.keyword? with
      | none => throw .notAKeyword
      | some k =>
        if k = .comma then
          let (args, c) ← parseMoreArguments symbols fuel c.skip
          return (arg :: args, c)
        else return ([arg], c)

end

def Cursor.fuel (c : Cursor) : Nat := 3 * c.ahead.length + 3

def expression (symbols : Symbols) (c : Cursor) : Except ParseError (Expr × Cursor) :=
  parseExpr symbols c.fuel 0 c

end ArmStudio.Script
