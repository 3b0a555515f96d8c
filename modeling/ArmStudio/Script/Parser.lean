import ArmStudio.Script.ExprParser

/-!
# Programs from tokens

Declarations, functions and statements, with the symbols they declare. The token behind an
expression statement or a return is stepped over whatever it is.

Every recursive function takes fuel; the number of tokens is enough.
-/

namespace ArmStudio.Script

structure ParseState where
  cursor : Cursor
  symbols : Symbols

namespace ParseState

variable (s : ParseState)

def skip : ParseState := { s with cursor := s.cursor.skip }

def enter : ParseState := { s with symbols := s.symbols.enter }

def leave : ParseState := { s with symbols := s.symbols.leave }

def moveTo (c : Cursor) : ParseState := { s with cursor := c }

def expression : Except ParseError (Expr × ParseState) := do
  let (e, c) ← Script.expression s.symbols s.cursor
  return (e, s.moveTo c)

end ParseState

def nextName (c : Cursor) (what : Expectation) : Except ParseError (String × Cursor) :=
  match c.peek?.map Token.lexeme with
  | some (.name s) => .ok (s, c.skip)
  | _ => c.want what

/-- A declared type behind a colon, if there is one. Something other than a keyword is left for
what follows. -/
def declaredType (c : Cursor) : Except ParseError (Option VarType × Cursor) :=
  if c.sees .colon then
    let c := c.skip
    match c.peek?.bind Token.keyword? with
    | none => .ok (none, c)
    | some k =>
      match k.varType? with
      | some t => .ok (some t, c.skip)
      | none => c.want .variableType
  else .ok (none, c)

variable (declared : Option VarType)

/-- The initial value of a variable, which only a declared type makes dispensable. -/
def initialValue (s : ParseState) : Except ParseError (Option Expr × ParseState) :=
  if s.cursor.sees .assign then do
    let (e, s) ← s.skip.expression
    return (some e, s)
  else if declared.isSome then .ok (none, s)
  else s.cursor.want .assignmentOrType

/-- The type of a variable: the declared one or else that of its initial value. -/
def initialType (init : Option Expr) (symbols : Symbols) : Except ParseError VarType :=
  match declared with
  | some t => .ok t
  | none => (typeOf symbols (init.getD .blank)).mapError ParseError.type

/-- Enters a declaration: constants globally, variables locally. -/
def enterDecl (d : VarDecl) (s : ParseState) : Except ParseError (VarDecl × ParseState) := do
  let info := Symbol.ofVar d.type d.isConst
  let (fresh, symbols) :=
    if d.isConst then s.symbols.declareGlobal d.name info else s.symbols.declareLocal d.name info
  if fresh then return (d, { s with symbols := symbols })
  else throw (.redefined d.name (← s.cursor.lastLine))

def singleDecl (isConst : Bool) (s : ParseState) : Except ParseError (VarDecl × ParseState) := do
  let (name, c) ← nextName s.cursor .variableName
  let (declared, c) ← declaredType c
  let (init, s) ← initialValue declared (s.moveTo c)
  let type ← initialType declared init s.symbols
  enterDecl ⟨type, name, isConst, init⟩ s

def declList (isConst : Bool) : Nat → ParseState → Except ParseError (List VarDecl × ParseState)
  | 0, _ => .error .exhausted
  | fuel + 1, s => do
    let (d, s) ← singleDecl isConst s
    if s.cursor.sees .comma then
      let (ds, s) ← declList isConst fuel s.skip
      return (d :: ds, s)
    else if s.cursor.sees .semicolon then return ([d], s)
    else s.cursor.want .commaOrSemicolon

/-- A declaration of variables or constants; the place is left at its semicolon. -/
def varDecls (s : ParseState) : Except ParseError (List VarDecl × ParseState) :=
  let fuel := s.cursor.ahead.length
  if s.cursor.sees .kwConst then
    let s := s.skip
    if s.cursor.sees .kwLet then declList true fuel s.skip else s.cursor.want .letKeyword
  else declList false fuel s.skip

def constParamType (c : Cursor) : Except ParseError VarType :=
  match c.peek? with
  | none => .error .pastEnd
  | some t =>
    match t.keyword? with
    | none => .error .notAKeyword
    | some k =>
      match k.varType? with
      | some t => .ok t
      | none => c.want .parameterType

def paramType (c : Cursor) : Except ParseError (Bool × VarType × Cursor) := do
  let c ← c.expect .colon .colon
  match c.peek?.bind Token.keyword? with
  | none => c.want .parameterType
  | some k =>
    if k = .kwConst then
      let c := c.skip
      return (true, ← constParamType c, c.skip)
    else
      match k.varType? with
      | some t => return (false, t, c.skip)
      | none => c.want .parameterType

def paramList : Nat → Cursor → Except ParseError (List Param × Cursor)
  | 0, _ => .error .exhausted
  | fuel + 1, c =>
    match c.peek?.map Token.lexeme with
    | some (.name name) => do
      let (isConst, type, c) ← paramType c.skip
      if c.sees .comma then
        let (ps, c) ← paramList fuel c.skip
        return (⟨type, name, isConst⟩ :: ps, c)
      else return ([⟨type, name, isConst⟩], c)
    | _ => if c.sees .rightParen then .ok ([], c) else c.want .parameter

mutual

/-- A block in braces; the place is left at the closing brace. -/
def block : Nat → ParseState → Except ParseError (List Stmt × ParseState)
  | 0, _ => .error .exhausted
  | fuel + 1, s => do
    let c ← s.cursor.expect .leftBrace .leftBrace
    statements fuel (s.moveTo c)

def scopedBlock : Nat → ParseState → Except ParseError (List Stmt × ParseState)
  | 0, _ => .error .exhausted
  | fuel + 1, s => do
    let (body, s) ← block fuel s.enter
    return (body, s.leave)

def statements : Nat → ParseState → Except ParseError (List Stmt × ParseState)
  | 0, _ => .error .exhausted
  | fuel + 1, s =>
    match s.cursor.peek? with
    | none => s.cursor.want .rightBrace
    | some t =>
      if t.is .rightBrace then .ok ([], s)
      else do
        let (first, s) ← statement fuel t s
        let (rest, s) ← statements fuel s.skip
        return (first ++ rest, s)

/-- The statements that one construct gives; the place is left at its last token. -/
def statement : Nat → Token → ParseState → Except ParseError (List Stmt × ParseState)
  | 0, _, _ => .error .exhausted
  | fuel + 1, t, s =>
    match t.keyword? with
    | some .leftBrace => scopedBlock fuel s
    | some .kwIf => do
      let (st, s) ← ifStatement fuel s
      return ([st], s)
    | some .kwWhile => do
      let (cond, s) ← s.skip.expression
      let (body, s) ← scopedBlock fuel s
      return ([.whileDo cond body], s)
    | some .kwLoop => do
      let (body, s) ← scopedBlock fuel s.skip
      return ([.loop body], s)
    | some .kwReturn =>
      if s.skip.cursor.sees .semicolon then .ok ([.ret none], s.skip)
      else do
        let (e, s) ← s.skip.expression
        return ([.ret (some e)], s)
    | some .kwBreak =>
      if s.skip.cursor.sees .semicolon then .ok ([.leaveLoop], s.skip)
      else s.cursor.want .semicolon
    | some .kwLet | some .kwConst => do
      let (ds, s) ← varDecls s
      return (ds.map .decl, s)
    | _ => do
      let (e, s) ← s.expression
      return ([.expr e], s)

/-- A conditional with its other branches; the place is left at the last closing brace. -/
def ifStatement : Nat → ParseState → Except ParseError (Stmt × ParseState)
  | 0, _ => .error .exhausted
  | fuel + 1, s => do
    let (cond, s) ← s.skip.expression
    let (thenBody, s) ← scopedBlock fuel s
    if s.skip.cursor.sees .kwElse then
      let s := s.skip.skip
      if s.cursor.sees .kwIf then
        let (other, s) ← ifStatement fuel s
        return (.ifElse cond thenBody [other], s)
      else
        let (elseBody, s) ← scopedBlock fuel s
        return (.ifElse cond thenBody elseBody, s)
    else return (.ifElse cond thenBody [], s)

end

def resultType (c : Cursor) : Except ParseError (VarType × Cursor) :=
  if c.sees .arrow then
    let c := c.skip
    match c.peek?.bind Token.keyword? with
    | none => .ok (.void, c)
    | some k =>
      match k.varType? with
      | some t => .ok (t, c.skip)
      | none => c.want .returnType
  else .ok (.void, c)

/-- A function; the place is left at its closing brace. A parameter whose name is visible already
is not declared again. -/
def funcDecl (s : ParseState) : Except ParseError (FuncDecl × ParseState) := do
  let fuel := 4 * s.cursor.ahead.length + 4
  let (name, c) ← nextName s.cursor.skip .functionName
  let c ← c.expect .leftParen .leftParenthesis
  let (params, c) ← paramList fuel c
  let c ← c.expect .rightParen .rightParenthesis
  let (result, c) ← resultType c
  let (fresh, symbols) := s.symbols.declareGlobal name (.ofFunction (params.map Param.type) result)
  if !fresh then throw (.redefined name (← c.lastLine))
  let symbols := params.foldl (fun (symbols : Symbols) p =>
    (symbols.declareLocal p.name (.ofVar p.type p.isConst)).2) symbols.resetCount.enter
  let (body, s) ← block fuel ⟨c, symbols⟩
  let symbols := s.symbols.leave
  return (⟨name, params, result, body, symbols.localCount⟩,
    { s with symbols := symbols.resetCount })

def declarations : Nat → ParseState → Except ParseError (List Decl × ParseState)
  | 0, _ => .error .exhausted
  | fuel + 1, s =>
    match s.cursor.peek? with
    | none => .ok ([], s)
    | some t =>
      match t.keyword? with
      | some .kwFn => do
        let (f, s) ← funcDecl s
        let (rest, s) ← declarations fuel s.skip
        return (.func f :: rest, s)
      | some .kwLet | some .kwConst => do
        let (ds, s) ← varDecls s
        let (rest, s) ← declarations fuel s.skip
        return (ds.map .var ++ rest, s)
      | _ => .error (.showing t .unexpected)

def Program.ofTokens (tokens : List Token) : Except ParseError (Program × Symbols) := do
  let (decls, s) ← declarations (tokens.length + 1) ⟨.start tokens, .empty⟩
  return (⟨decls⟩, s.symbols)

end ArmStudio.Script
