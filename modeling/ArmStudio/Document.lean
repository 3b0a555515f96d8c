import ArmStudio.Number.Text

/-!
# Documents

A document is data without a type of its own: what is written to a file or shown to a caller. Its
text has one item a line, indented by four blanks a level, and is ASCII.
-/

namespace ArmStudio

open Number

/-- Structured data. The fields of a record keep their order. -/
inductive Document where
  | null
  | flag (b : Bool)
  | int (n : Int)
  | real (x : Double)
  | text (s : String)
  | list (items : List Document)
  | record (fields : List (String × Document))

namespace Document

instance : Inhabited Document := ⟨null⟩

def nat (n : Nat) : Document := int n

def texts (l : List String) : Document := list (l.map text)

def ofOption {α : Type} (f : α → Document) : Option α → Document
  | none => null
  | some a => f a

def unitEscape (n : Nat) : String := "\\u" ++ hexWide 4 n

def escapeChar (c : Char) : String :=
  if c = '"' then "\\\""
  else if c = '\\' then "\\\\"
  else if c = '\n' then "\\n"
  else if c = '\r' then "\\r"
  else if c = '\t' then "\\t"
  else if c.toNat = 8 then "\\b"
  else if c.toNat = 12 then "\\f"
  else if 32 ≤ c.toNat ∧ c.toNat < 127 then c.toString
  else if c.toNat < 0x10000 then unitEscape c.toNat
  else
    let n := c.toNat - 0x10000
    unitEscape (0xd800 + n / 0x400) ++ unitEscape (0xdc00 + n % 0x400)

def quote (s : String) : String := "\"" ++ String.join (s.toList.map escapeChar) ++ "\""

def realText (x : Double) : String :=
  if x.isNaN then "NaN"
  else if x.isInfinite then if x.isNegative then "-Infinity" else "Infinity"
  else x.text

def newLine (level : Nat) : String := "\n" ++ String.ofList (List.replicate (4 * level) ' ')

def enclose (level : Nat) (opening closing : String) (items : List String) : String :=
  if items.isEmpty then opening ++ closing
  else opening ++ newLine (level + 1) ++ ("," ++ newLine (level + 1)).intercalate items ++
    newLine level ++ closing

mutual

def textAt (level : Nat) : Document → Except TextError String
  | null => .ok "null"
  | flag b => .ok (if b then "true" else "false")
  | int n => intText? n
  | real x => .ok (realText x)
  | text s => .ok (quote s)
  | list items => do return enclose level "[" "]" (← itemsAt (level + 1) items)
  | record fields => do return enclose level "\x7b" "\x7d" (← fieldsAt (level + 1) fields)

def itemsAt (level : Nat) : List Document → Except TextError (List String)
  | [] => .ok []
  | d :: rest => do
    let first ← textAt level d
    let others ← itemsAt level rest
    return first :: others

def fieldsAt (level : Nat) : List (String × Document) → Except TextError (List String)
  | [] => .ok []
  | (name, d) :: rest => do
    let first ← textAt level d
    let others ← fieldsAt level rest
    return (quote name ++ ": " ++ first) :: others

end

def text? (d : Document) : Except TextError String := textAt 0 d

end Document

end ArmStudio
