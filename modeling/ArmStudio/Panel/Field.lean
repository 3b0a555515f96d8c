import ArmStudio.Number.Reading

/-!
# Input fields

What may be typed into the fields of the panel. A field shows by its colour whether its text is
acceptable; an empty field is acceptable except where a speed is asked for.
-/

namespace ArmStudio.Panel

open Number

def number? (text : String) : Option Double := readDouble? text.toList

def isNumber (text : String) : Bool := (number? text).isSome

def speed? (text : String) : Option Double :=
  match number? text with
  | some x =>
    if (Double.compareInt? 0 x).any Ordering.isGE || Double.compareInt? 100 x == some .lt then none
    else some x
  | none => none

def flashEnd : Int := 0x02000000

/-- An address in hexadecimal digits that a base divides, within the flash. -/
def address? (text : String) (base : Int) : Option Int :=
  match readInt 16 text.toList with
  | .ok n => if n % base = 0 ∧ 0 ≤ n ∧ n ≤ flashEnd then some n else none
  | .error _ => none

inductive FieldKind where
  | speed
  | number
  | writeAddress
  | readAddress
  | readLength
  deriving DecidableEq

def writeBase : Int := 4096
def readBase : Int := 1
def lengthBase : Int := 1024

def FieldKind.accepts (kind : FieldKind) (text : String) : Bool :=
  match kind with
  | speed => (speed? text).isSome
  | number => text = "" || isNumber text
  | writeAddress => text = "" || (address? text writeBase).isSome
  | readAddress => text = "" || (address? text readBase).isSome
  | readLength => text = "" || (address? text lengthBase).isSome

def FieldKind.colour (kind : FieldKind) (text : String) : String :=
  if kind.accepts text then "white" else "red"

end ArmStudio.Panel
