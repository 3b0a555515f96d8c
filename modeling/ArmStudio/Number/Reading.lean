import ArmStudio.Number.Text
import ArmStudio.Text.Blank
import ArmStudio.Text.Digit

/-!
# Reading numbers

Texts of integers and of floating-point numbers. Digits of every script count by their value; one
underscore may stand between two digits; blanks around the number are ignored.

* `readInt base`: an optional sign and digits of the base, behind an optional `0x` in base 16;
* `readDouble`: a decimal with optional point and exponent, an infinity or `nan`.
-/

namespace ArmStudio.Number

open Text

inductive ReadError where
  | notAnInteger (base : Nat) (text : List Char)
  | tooManyDigits (count : Nat)
  deriving DecidableEq

variable (base : Nat)

def digitValue? (c : Char) : Option Nat :=
  let value :=
    match decimalValue? c with
    | some v => some v
    | none =>
      if 'a' ≤ c ∧ c ≤ 'f' then some (c.toNat - 'a'.toNat + 10)
      else if 'A' ≤ c ∧ c ≤ 'F' then some (c.toNat - 'A'.toNat + 10)
      else none
  value.filter (· < base)

/-- The values of a run of digits, single underscores between them left out; none where another
character, a doubled or a final underscore stands. -/
def digitRun? (base : Nat) : List Char → Option (List Nat)
  | [] => none
  | [c] => (digitValue? base c).map ([·])
  | c :: '_' :: rest => do return (← digitValue? base c) :: (← digitRun? base rest)
  | c :: d :: rest => do return (← digitValue? base c) :: (← digitRun? base (d :: rest))

/-- The number of digits in front, as far as the run is regular. -/
def leadingDigits (base : Nat) : List Char → Nat
  | [] => 0
  | [c] => if (digitValue? base c).isSome then 1 else 0
  | c :: '_' :: rest => if (digitValue? base c).isSome then leadingDigits base rest + 1 else 0
  | c :: d :: rest => if (digitValue? base c).isSome then leadingDigits base (d :: rest) + 1 else 0

def ofDigits (digits : List Nat) : Nat := digits.foldl (fun n d => n * base + d) 0

def splitSign : List Char → Bool × List Char
  | '-' :: rest => (true, rest)
  | '+' :: rest => (false, rest)
  | s => (false, s)

variable (s : List Char)

/-- What stands behind the mark of base 16. Its zero is that of any script. -/
def dropBaseMark : List Char :=
  match s with
  | zero :: x :: rest =>
    if base = 16 ∧ decimalValue? zero = some 0 ∧ (x = 'x' ∨ x = 'X') then
      match rest with
      | '_' :: more => more
      | _ => rest
    else s
  | _ => s

def readInt : Except ReadError Int :=
  let (negative, body) := splitSign (trimBy isMargin s)
  let digits := dropBaseMark base body
  let count := leadingDigits base digits
  if base = 10 ∧ digitLimit < count then .error (.tooManyDigits count)
  else
    match digitRun? base digits with
    | none => .error (.notAnInteger base s)
    | some run =>
      let n : Int := ofDigits base run
      .ok (if negative then -n else n)

/-- A run of decimal digits, possibly empty, and the rest. An underscore counts only between two
digits. -/
def takeDigits : List Char → List Nat × List Char
  | [] => ([], [])
  | c :: '_' :: d :: rest =>
    match decimalValue? c with
    | none => ([], c :: '_' :: d :: rest)
    | some v =>
      if isDecimal d then
        let (vs, r) := takeDigits (d :: rest)
        (v :: vs, r)
      else ([v], '_' :: d :: rest)
  | c :: rest =>
    match decimalValue? c with
    | none => ([], c :: rest)
    | some v =>
      let (vs, r) := takeDigits rest
      (v :: vs, r)

/-- The exponent at the end of a decimal; none where the text goes on otherwise. -/
def readExponent? : List Char → Option Int
  | [] => some 0
  | c :: rest =>
    if c = 'e' ∨ c = 'E' then
      let (negative, body) := splitSign rest
      match takeDigits body with
      | ([], _) => none
      | (ds, []) =>
        let n : Int := ofDigits 10 ds
        some (if negative then -n else n)
      | _ => none
    else none

def readDecimal? (negative : Bool) (s : List Char) : Option Double :=
  let (whole, rest) := takeDigits s
  let (fraction, tail) :=
    match rest with
    | '.' :: more => takeDigits more
    | _ => ([], rest)
  if whole.isEmpty ∧ fraction.isEmpty then none
  else
    (readExponent? tail).map fun e =>
      Double.ofDecimal negative (ofDigits 10 (whole ++ fraction)) (e - fraction.length)

def readDouble? : Option Double :=
  let (negative, body) := splitSign (trimBy isMargin s)
  let word := String.ofList (body.map Char.toLower)
  if word = "inf" ∨ word = "infinity" then
    some (if negative then -Double.infinity else Double.infinity)
  else if word = "nan" then some (if negative then -Double.nan else Double.nan)
  else readDecimal? negative body

end ArmStudio.Number
