import ArmStudio.Script.Token
import ArmStudio.Script.Typing

/-!
# Reading tokens

A `Cursor` stands between the token just read and the tokens ahead. Messages name the line of the
token just read; past the end there is none.
-/

namespace ArmStudio.Script

open Number

inductive Expectation where
  | functionName
  | leftParenthesis
  | rightParenthesis
  | returnType
  | letKeyword
  | commaOrSemicolon
  | variableName
  | variableType
  | assignmentOrType
  | leftBrace
  | rightBrace
  | semicolon
  | parameter
  | parameterType
  | colon
  deriving DecidableEq

namespace Expectation

def text : Expectation → String
  | functionName => "function name"
  | leftParenthesis => "left parenthesis"
  | rightParenthesis => "right parenthesis"
  | returnType => "return type"
  | letKeyword => "'let' keyword"
  | commaOrSemicolon => "comma or semicolon"
  | variableName => "variable name"
  | variableType => "variable type"
  | assignmentOrType => "assignment or type declaration"
  | leftBrace => "left brace"
  | rightBrace => "right brace"
  | semicolon => "semicolon"
  | parameter => "parameter"
  | parameterType => "parameter type"
  | colon => "colon"

end Expectation

inductive ParseError where
  | expected (what : Expectation) (line : Nat)
  | expectedMark (k : Keyword) (got : String)
  | redefined (name : String) (line : Nat)
  | undefined (name : String) (line : Nat)
  | unexpected (token : String)
  | unexpectedAt (token : String) (line : Nat)
  | unexpectedType (token : String)
  | unexpectedEnd
  | notAKeyword
  | noKeyword
  | noArgument
  | pastEnd
  | type (cause : TypeError)
  | text (cause : TextError)
  | exhausted
  deriving DecidableEq

namespace ParseError

def message : ParseError → String
  | expected what line => s!"Expected {what.text} at line {line}"
  | expectedMark k got => s!"Expected {k.qualified}, got {got}"
  | redefined name line => s!"Symbol {name} redefined at line {line}"
  | undefined name line => s!"Undefined identifier {name} at line {line}"
  | unexpected token => s!"Unexpected token {token}"
  | unexpectedAt token line => s!"Unexpected token {token} at line {line}"
  | unexpectedType token => s!"Unexpected type {token}"
  | unexpectedEnd => "Unexpected EOF in expression"
  | notAKeyword => "'Token' object has no attribute 'keyword_type'"
  | noKeyword => "'NoneType' object has no attribute 'keyword_type'"
  | noArgument => "'NoneType' object has no attribute 'token_type'"
  | pastEnd => "list index out of range"
  | type cause => cause.message
  | text cause => textErrorMessage cause
  | exhausted => "maximum recursion depth exceeded"

/-- An error that shows a token; a token that cannot be written is an error of its own. -/
def showing (t : Token) (f : String → ParseError) : ParseError :=
  match t.text? with
  | .ok s => f s
  | .error e => .text e

def showing? (t : Option Token) (f : String → ParseError) : ParseError :=
  match t with
  | some t => showing t f
  | none => f "None"

end ParseError

/-- A place among tokens: the token just behind, the tokens ahead, and whether the place is past
the end. -/
structure Cursor where
  last : Option Token
  ahead : List Token
  past : Bool
  deriving DecidableEq

namespace Cursor

def start (tokens : List Token) : Cursor := ⟨none, tokens, false⟩

def peek? (c : Cursor) : Option Token := c.ahead.head?

def skip (c : Cursor) : Cursor :=
  match c.ahead with
  | t :: rest => ⟨some t, rest, c.past⟩
  | [] => { c with past := true }

def sees (c : Cursor) (k : Keyword) : Bool :=
  match c.ahead with
  | t :: _ => t.is k
  | [] => false

def lastLine (c : Cursor) : Except ParseError Nat :=
  match c.past, c.last with
  | false, some t => .ok t.line
  | _, _ => .error .pastEnd

/-- Fails for want of something, naming the line of the token just behind. -/
def want {α : Type} (c : Cursor) (what : Expectation) : Except ParseError α := do
  throw (.expected what (← c.lastLine))

def expect (c : Cursor) (k : Keyword) (what : Expectation) : Except ParseError Cursor :=
  if c.sees k then .ok c.skip else c.want what

def close (c : Cursor) (k : Keyword) : Except ParseError Cursor :=
  match c.ahead with
  | [] => .error (.expectedMark k "None")
  | t :: _ =>
    match t.keyword? with
    | none => .error .notAKeyword
    | some found => if found = k then .ok c.skip else .error (.showing t (.expectedMark k))

end Cursor

end ArmStudio.Script
