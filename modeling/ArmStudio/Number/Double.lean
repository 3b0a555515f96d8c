import ArmStudio.Number.Format

/-!
# 64-bit floating-point numbers

A `Double` is its bit pattern, so that the sign of what is not a number is kept: an invalid
operation gives the negative quiet pattern, and an operand that is not a number is passed on.

* `add`, `sub`, `mul`, `div`, `neg`, `sqrt`: arithmetic, rounded to nearest;
* `ofInt?`, `ofRatio?`: nearest number, unless it is too large;
* `truncate?`: the integer part.
-/

namespace ArmStudio.Number

open Format

/-- A number in the 64-bit interchange format. -/
structure Double where
  bits : UInt64
  deriving DecidableEq, Inhabited

namespace Double

def zero : Double := ⟨0⟩

def invalid : Double := ⟨0xfff8000000000000⟩

def nan : Double := ⟨0x7ff8000000000000⟩

def infinity : Double := ⟨0x7ff0000000000000⟩

variable (x : Double)

def isNaN : Bool := (x.bits &&& 0x7fffffffffffffff) > 0x7ff0000000000000

def isInfinite : Bool := (x.bits &&& 0x7fffffffffffffff) == 0x7ff0000000000000

def isFinite : Bool := x.bits.toNat % 0x8000000000000000 < 0x7ff0000000000000

def isNegative : Bool := x.bits &&& 0x8000000000000000 != 0

def isZero : Bool := x.bits &&& 0x7fffffffffffffff == 0

def toFloat : Float := Float.ofBits x.bits

def ofResult (x : Float) : Double := if x.isNaN then invalid else ⟨x.toBits⟩

def quiet : Double := ⟨x.bits ||| 0x0008000000000000⟩

/-- A binary operation: an operand that is not a number is passed on, the first one first. -/
def lift₂ (op : Float → Float → Float) (x y : Double) : Double :=
  if x.isNaN then x.quiet else if y.isNaN then y.quiet else ofResult (op x.toFloat y.toFloat)

def add : Double → Double → Double := lift₂ (· + ·)

def sub : Double → Double → Double := lift₂ (· - ·)

def mul : Double → Double → Double := lift₂ (· * ·)

def div : Double → Double → Double := lift₂ (· / ·)

def neg : Double := ⟨x.bits ^^^ 0x8000000000000000⟩

def abs : Double := ⟨x.bits &&& 0x7fffffffffffffff⟩

def sqrt : Double := if x.isNaN then x.quiet else ofResult x.toFloat.sqrt

instance : Add Double := ⟨add⟩
instance : Sub Double := ⟨sub⟩
instance : Mul Double := ⟨mul⟩
instance : Div Double := ⟨div⟩
instance : Neg Double := ⟨neg⟩

variable (x y : Double)

/-- Numeric order, false where an operand is not a number. -/
def lt : Bool := x.toFloat < y.toFloat

def le : Bool := x.toFloat ≤ y.toFloat

/-- Numeric equality: the zeros are equal, and what is not a number equals nothing. -/
def eqv : Bool := x.toFloat == y.toFloat

def datum : Datum := double.decode x.bits.toNat

/-- The number nearest to `±man * 2^exp`, or an infinity. -/
def ofScaled (negative : Bool) (man : Nat) (exp : Int) : Double :=
  ⟨(double.round negative man exp).toUInt64⟩

/-- The number nearest to `±num / den`, or an infinity. -/
def ofRatio (negative : Bool) (num den : Nat) : Double :=
  ⟨(double.signed negative (double.roundRatio num den)).toUInt64⟩

/-- The number nearest to an integer, unless it is too large. An integer of more than 1025 bits is
too large without a look at its digits. -/
def ofInt? (n : Int) : Option Double :=
  if 1024 < Nat.log2 n.natAbs then none
  else
    let x := ofRatio (n < 0) n.natAbs 1
    if x.isFinite then some x else none

/-- The number nearest to the quotient of two integers other than zero, unless it is too large.
Quotients far out of range are cut off before they are formed. -/
def ofQuotient? (m n : Int) : Option Double :=
  let negative := decide (m < 0) != decide (n < 0)
  let top := Nat.log2 m.natAbs
  let low := Nat.log2 n.natAbs
  if low + 1100 < top then none
  else if top + 1200 < low then some (ofRatio negative 0 1)
  else
    let x := ofRatio negative m.natAbs n.natAbs
    if x.isFinite then some x else none

def ofInt (n : Int) : Double := ofRatio (n < 0) n.natAbs 1

def ofNat (n : Nat) : Double := ofRatio false n 1

/-- The number that a decimal denotes: `digits * 10^exponent`. Exponents far out of range are cut
off before the power is formed. -/
def ofDecimal (negative : Bool) (digits : Nat) (exponent : Int) : Double :=
  if digits = 0 then ofRatio negative 0 1
  else if 400 < exponent then ⟨(if negative then neg infinity else infinity).bits⟩
  else if 0 ≤ exponent then ofRatio negative (digits * Nat.pow 10 exponent.toNat) 1
  else if (Nat.log2 digits : Int) < -3 * exponent - 1200 then ofRatio negative 0 1
  else ofRatio negative digits (Nat.pow 10 (-exponent).toNat)

instance : OfScientific Double where
  ofScientific m s e := ofDecimal false m (if s then -(e : Int) else e)

instance (n : Nat) : OfNat Double n := ⟨ofNat n⟩

def truncate? (x : Double) : Option Int :=
  match x.datum with
  | .finite negative man exp =>
    let (a, b) := scale man 1 (-exp)
    let size : Int := (a / b : Nat)
    some (if negative then -size else size)
  | _ => none

/-- The order of a finite number and `num / den`. -/
def compareRatio (negative : Bool) (man : Nat) (exp : Int) (n : Int) : Ordering :=
  let (a, b) := scale man 1 (-exp)
  let signed : Int := if negative then -(a : Int) else a
  compare signed (n * b)

/-- The order of an integer and a number, exactly; none where it is not a number. -/
def compareInt? (n : Int) (x : Double) : Option Ordering :=
  match x.datum with
  | .finite negative man exp => some (compareRatio negative man exp n).swap
  | .infinite negative => some (if negative then .gt else .lt)
  | .notANumber _ => none

/-- The remainder of finite numbers after division towards zero, exact, with the sign of the
dividend. -/
def truncatedRemainder (x y : Double) : Double :=
  if x.isNaN then x.quiet
  else if y.isNaN then y.quiet
  else match x.datum, y.datum with
    | .finite nx mx ex, .finite _ my ey =>
      if my = 0 then invalid
      else
        let low := min ex ey
        let a := mx * Nat.pow 2 (ex - low).toNat
        let b := my * Nat.pow 2 (ey - low).toNat
        ofScaled nx (a % b) low
    | .finite .., .infinite _ => x
    | _, _ => invalid

/-- The remainder with the sign of the divisor, which is not zero. -/
def remainder (x y : Double) : Double :=
  let rest := truncatedRemainder x y
  if rest.isNaN then rest
  else if rest.isZero then (if y.isNegative then ⟨0x8000000000000000⟩ else zero)
  else if y.isNegative != rest.isNegative then rest + y
  else rest

end Double

end ArmStudio.Number
