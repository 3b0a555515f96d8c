import ArmStudio.Number.Reading
import ArmStudio.Script.Keyword
import ArmStudio.Text.Letter

/-!
# Tokens

`scan` cuts a text into tokens, each with its line. Blanks, tabs and line ends separate tokens.

* A `//` comment takes its line end with it, and that line is not counted.
* A block comment takes one more character with it; one that is not closed runs to the end.
* There is no token for `>=`: it reads as `>` and `=`.
-/

namespace ArmStudio.Script

open Number Text

inductive Lexeme where
  | name (s : String)
  | keyword (k : Keyword)
  | int (n : Int)
  | real (x : Double)
  deriving DecidableEq

structure Token where
  lexeme : Lexeme
  line : Nat
  deriving DecidableEq

namespace Token

variable (t : Token)

def is (k : Keyword) : Bool := t.lexeme == .keyword k

def keyword? : Option Keyword :=
  match t.lexeme with
  | .keyword k => some k
  | _ => none

def text? : Except TextError String :=
  match t.lexeme with
  | .name s => .ok ("Identifier: " ++ s)
  | .keyword k => .ok ("Keyword: " ++ k.name)
  | .int n => (intText? n).map ("Literal: " ++ ·)
  | .real x => .ok ("Literal: " ++ x.text)

end Token

inductive ScanError where
  | unexpected (c : Char) (line : Nat)
  | badHex (line : Nat)
  | badBinary (line : Nat)
  | badOctal (line : Nat)
  | badReal (text : List Char) (line : Nat)
  | endOfText
  | notRead (cause : ReadError)
  deriving DecidableEq

def quotationLimit : Nat := 200

/-- That a number has more digits than are converted, with their count if it is known. -/
def limitMessage (count : String) : String :=
  s!"Exceeds the limit ({digitLimit} digits) for integer string conversion" ++ count ++
    "; use sys.set_int_max_str_digits() to increase the limit"

def readErrorMessage : ReadError → String
  | .notAnInteger base text =>
    s!"invalid literal for int() with base {base}: " ++
      String.ofList (("'".toList ++ text ++ "'".toList).take quotationLimit)
  | .tooManyDigits count => limitMessage s!": value has {count} digits"

def textErrorMessage : TextError → String
  | .tooManyDigits => limitMessage ""

namespace ScanError

def message : ScanError → String
  | unexpected c line => s!"Unexpected character '{c}' at line {line}"
  | badHex line => s!"Invalid hex literal at line {line}"
  | badBinary line => s!"Invalid binary literal at line {line}"
  | badOctal line => s!"Invalid octal literal at line {line}"
  | badReal text line => "Invalid float literal '" ++ String.ofList text ++ s!"' at line {line}"
  | endOfText => "string index out of range"
  | notRead cause => readErrorMessage cause

end ScanError

/-! ## Numbers -/

variable (c : Char)

def isHexDigit : Bool := isDigit c || ('a' ≤ c && c ≤ 'f') || ('A' ≤ c && c ≤ 'F')

def isBinaryDigit : Bool := c == '0' || c == '1'

def isOctalDigit : Bool := '0' ≤ c && c ≤ '7'

/-- Digits with at most one point, and the rest. -/
def takeDecimal (pointSeen : Bool) : List Char → List Char × List Char
  | [] => ([], [])
  | c :: rest =>
    if isDigit c || (c == '.' && !pointSeen) then
      let (run, tail) := takeDecimal (pointSeen || c == '.') rest
      (c :: run, tail)
    else ([], c :: rest)

def intLexeme (base : Nat) (run rest : List Char) : Except ScanError (Lexeme × List Char) :=
  match readInt base run with
  | .ok n => .ok (.int n, rest)
  | .error e => .error (.notRead e)

variable (line : Nat) (s : List Char)

/-- A literal of base 16, from behind its mark. It has to be followed by another character. -/
def scanHex : Except ScanError (Lexeme × List Char) :=
  match s.takeWhile isHexDigit, s.dropWhile isHexDigit with
  | [], _ => .error (.badHex line)
  | _, [] => .error .endOfText
  | run, rest => intLexeme 16 run rest

/-- A literal of base 2 or 8, from behind its mark. -/
def scanBased (base : Nat) (p : Char → Bool) (onNone : ScanError) (s : List Char) :
    Except ScanError (Lexeme × List Char) :=
  match s.takeWhile p with
  | [] => .error onNone
  | run => intLexeme base run (s.dropWhile p)

/-- A decimal literal: an integer, or with a point a floating-point number. -/
def scanDecimal : Except ScanError (Lexeme × List Char) :=
  let (run, rest) := takeDecimal false s
  if run.contains '.' then
    match readDouble? run with
    | some x => .ok (.real x, rest)
    | none => .error (.badReal run line)
  else intLexeme 10 run rest

def scanNumber : Except ScanError (Lexeme × List Char) :=
  match s with
  | '0' :: c :: rest =>
    if c == 'x' || c == 'X' then scanHex line rest
    else if c == 'b' || c == 'B' then scanBased 2 isBinaryDigit (.badBinary line) rest
    else if c == 'o' || c == 'O' then scanBased 8 isOctalDigit (.badOctal line) rest
    else scanDecimal line s
  | _ => scanDecimal line s

/-! ## Words, operators and comments -/

def isWordChar (c : Char) : Bool := isLetter c || isDigit c || c == '_'

def wordLexeme (word : List Char) : Lexeme :=
  let s := String.ofList word
  match Keyword.ofWord? s with
  | some k => .keyword k
  | none => .name s

/-- Operators and marks, those of more characters before their beginnings. -/
def operators : List (List Char × Keyword) := [
  (['/', '='], .divAssign), (['/'], .divide), (['-', '>'], .arrow), (['-', '='], .subAssign),
  (['-'], .minus), ([':'], .colon), (['=', '='], .equal), (['='], .assign),
  (['!', '='], .notEqual), (['!'], .logicalNot), (['&', '&'], .logicalAnd),
  (['&', '='], .andAssign), (['&'], .bitAnd), (['|', '|'], .logicalOr), (['|', '='], .orAssign),
  (['|'], .bitOr), (['+', '='], .addAssign), (['+'], .plus), (['*', '='], .mulAssign),
  (['*'], .times), (['%', '='], .modAssign), (['%'], .modulo), (['^', '='], .xorAssign),
  (['^'], .bitXor), (['~'], .bitNot), (['<', '<', '='], .shlAssign), (['<', '<'], .shiftLeft),
  (['<', '='], .lessEqual), (['<'], .less), (['>', '>', '='], .shrAssign),
  (['>', '>'], .shiftRight), (['>'], .greater), (['('], .leftParen), ([')'], .rightParen),
  (['\x7b'], .leftBrace), (['\x7d'], .rightBrace), ([','], .comma), ([';'], .semicolon)]

/-- The longest operator or mark at the start, and how many characters follow its first. -/
def operator? (s : List Char) : Option (Keyword × Nat) :=
  (operators.find? fun o => o.1.isPrefixOf s).map fun o => (o.2, o.1.length - 1)

/-- The text behind a line comment and its line end. -/
def skipLine (s : List Char) : List Char := (s.dropWhile (· != '\n')).drop 1

/-- The line and the text behind a block comment, which takes one more character with it. The
last character of the text is not looked at. -/
def skipBlock (line : Nat) : List Char → Nat × List Char
  | [] => (line, [])
  | [_] => (line, [])
  | c :: d :: rest =>
    if c == '*' && d == '/' then (line, rest.drop 1)
    else skipBlock (if c == '\n' then line + 1 else line) (d :: rest)

/-! ## One step and the whole text -/

structure Step where
  token : Option Token
  line : Nat
  rest : List Char

def scanStep (line : Nat) (c : Char) (s : List Char) : Except ScanError Step :=
  if c == ' ' || c == '\t' then .ok ⟨none, line, s⟩
  else if c == '\n' then .ok ⟨none, line + 1, s⟩
  else if c == '/' && s.head? == some '/' then .ok ⟨none, line, skipLine (s.drop 1)⟩
  else if c == '/' && s.head? == some '*' then
    let (line, rest) := skipBlock line (s.drop 1)
    .ok ⟨none, line, rest⟩
  else if isDigit c then do
    let (lexeme, rest) ← scanNumber line (c :: s)
    return ⟨some ⟨lexeme, line⟩, line, rest⟩
  else if isLetter c || c == '_' then
    .ok ⟨some ⟨wordLexeme (c :: s.takeWhile isWordChar), line⟩, line, s.dropWhile isWordChar⟩
  else match operator? (c :: s) with
    | some (k, more) => .ok ⟨some ⟨.keyword k, line⟩, line, s.drop more⟩
    | none => .error (.unexpected c line)

/-- Scans a text from a line on. Each step takes at least one character, so `fuel` characters of
text need no more than `fuel` steps. -/
def scanFrom : Nat → Nat → List Char → Except ScanError (List Token)
  | _, _, [] => .ok []
  | 0, _, _ :: _ => .ok []
  | fuel + 1, line, c :: s => do
    let step ← scanStep line c s
    let tokens ← scanFrom fuel step.line step.rest
    return step.token.toList ++ tokens

def scan (s : List Char) : Except ScanError (List Token) := scanFrom s.length 1 s

end ArmStudio.Script
