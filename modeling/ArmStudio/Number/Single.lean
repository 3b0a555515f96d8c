import ArmStudio.Number.Double

/-!
# 32-bit floating-point numbers

A `Single` is its bit pattern. Arithmetic rounds every operation to nearest; an invalid operation
gives the negative quiet pattern, and an operand that is not a number is passed on. Sums and the
order are exact arithmetic on multiples of the least positive number.

* `ofDouble`, `toDouble`: conversion, the first rounding to nearest with overflow to infinity;
* `ofInt`, `truncate?`: conversion from and to integers.
-/

namespace ArmStudio.Number

/-- A number in the 32-bit interchange format. -/
structure Single where
  bits : UInt32
  deriving DecidableEq, Inhabited

namespace Single

def zero : Single := ⟨0⟩

def invalid : Single := ⟨0xffc00000⟩

variable (x : Single)

/-- The pattern without its sign. -/
def magnitude : Nat := x.bits.toNat % 2147483648

def isNaN : Bool := 0x7f800000 < x.magnitude

def isInfinite : Bool := x.magnitude == 0x7f800000

def isNegative : Bool := 2147483648 ≤ x.bits.toNat

/-- The multiple of the least positive number that is denoted. An infinity counts as the number that
would follow the greatest one. -/
def units : Int :=
  if x.isNegative then -Format.single.units x.magnitude else Format.single.units x.magnitude

def toFloat : Float32 := Float32.ofBits x.bits

def ofResult (x : Float32) : Single := if x.isNaN then invalid else ⟨x.toBits⟩

def quiet : Single := ⟨x.bits ||| 0x00400000⟩

def lift₂ (op : Float32 → Float32 → Float32) (x y : Single) : Single :=
  if x.isNaN then x.quiet else if y.isNaN then y.quiet else ofResult (op x.toFloat y.toFloat)

def mul : Single → Single → Single := lift₂ (· * ·)

def div : Single → Single → Single := lift₂ (· / ·)

/-- The sign has the highest weight, so that adding this changes it and nothing else. -/
def neg : Single := ⟨x.bits + 0x80000000⟩

/-- The number nearest to a multiple of the least positive one. -/
def ofUnits (negative : Bool) (n : Nat) : Single :=
  ⟨((if negative then 2147483648 else 0) + Format.single.roundUnits n 1).toUInt32⟩

def add (x y : Single) : Single :=
  if x.isNaN then x.quiet
  else if y.isNaN then y.quiet
  else if x.isInfinite then if y = x.neg then invalid else x
  else if y.isInfinite then y
  else
    let sum := x.units + y.units
    ofUnits (if sum = 0 then x.isNegative && y.isNegative else sum < 0) sum.natAbs

def sub (x y : Single) : Single := if y.isNaN && !x.isNaN then y.quiet else x.add y.neg

def abs : Single := ⟨x.magnitude.toUInt32⟩

def sqrt : Single := if x.isNaN then x.quiet else ofResult x.toFloat.sqrt

instance : Add Single := ⟨add⟩
instance : Sub Single := ⟨sub⟩
instance : Mul Single := ⟨mul⟩
instance : Div Single := ⟨div⟩
instance : Neg Single := ⟨neg⟩

variable (x y : Single)

def lt : Bool := !x.isNaN && !y.isNaN && x.units < y.units

def le : Bool := !x.isNaN && !y.isNaN && x.units ≤ y.units

def eqv : Bool := !x.isNaN && !y.isNaN && x.units = y.units

def datum : Datum := Format.single.decode x.bits.toNat

def ofDouble (x : Double) : Single :=
  match x.datum with
  | .finite negative man exp => ⟨(Format.single.round negative man exp).toUInt32⟩
  | .infinite negative => ⟨if negative then 0xff800000 else 0x7f800000⟩
  | .notANumber negative => ⟨if negative then 0xffc00000 else 0x7fc00000⟩

def toDouble : Double :=
  match x.datum with
  | .finite negative man exp => Double.ofScaled negative man exp
  | .infinite negative => if negative then -Double.infinity else Double.infinity
  | .notANumber negative => if negative then Double.invalid else Double.nan

def ofInt (n : Int) : Single := ⟨(Format.single.round (n < 0) n.natAbs 0).toUInt32⟩

/-- The number nearest to a decimal `digits * 10^-places`. -/
def ofDecimal (digits places : Nat) : Single :=
  ⟨(Format.single.roundRatio digits (Nat.pow 10 places)).toUInt32⟩

instance : OfScientific Single where
  ofScientific m s e := if s then ofDecimal m e else ofDecimal (m * Nat.pow 10 e) 0

instance (n : Nat) : OfNat Single n := ⟨ofDecimal n 0⟩

def truncate? : Option Int :=
  match x.datum with
  | .finite negative man exp =>
    let (a, b) := Format.scale man 1 (-exp)
    let size : Int := (a / b : Nat)
    some (if negative then -size else size)
  | _ => none

def truncate : Int := x.truncate?.getD 0

end Single

end ArmStudio.Number
