import ArmStudio.Number.Text

/-!
# Values of constant expressions

A constant is a truth value, an integer of any size or a floating-point number. This module has
the arithmetic by which constants are folded: truth values count as 0 and 1, division of integers
is real division, and remainders take the sign of the divisor. A shift whose result finds no room
has no value.
-/

namespace ArmStudio.Script

open Number

inductive Value where
  | flag (b : Bool)
  | int (n : Int)
  | real (x : Double)
  deriving DecidableEq

inductive ArithError where
  | divisionByZero
  | realDivisionByZero
  | remainderByZero
  | realRemainderByZero
  | negativeShift
  | shiftTooFar
  | noRoom
  | intTooLarge
  | quotientTooLarge
  | infinityToInt
  | nanToInt
  | badOperand (op kind : String)
  | badOperands (op left right : String)
  deriving DecidableEq

namespace ArithError

def message : ArithError → String
  | divisionByZero => "division by zero"
  | realDivisionByZero => "float division by zero"
  | remainderByZero => "integer modulo by zero"
  | realRemainderByZero => "float modulo"
  | negativeShift => "negative shift count"
  | shiftTooFar => "too many digits in integer"
  | noRoom => ""
  | intTooLarge => "int too large to convert to float"
  | quotientTooLarge => "integer division result too large for a float"
  | infinityToInt => "cannot convert float infinity to integer"
  | nanToInt => "cannot convert float NaN to integer"
  | badOperand op kind => s!"bad operand type for unary {op}: '{kind}'"
  | badOperands op left right => s!"unsupported operand type(s) for {op}: '{left}' and '{right}'"

end ArithError

namespace Value

def kind : Value → String
  | flag _ => "bool"
  | int _ => "int"
  | real _ => "float"

/-- A constant counts as true unless it is zero. -/
def truth : Value → Bool
  | flag b => b
  | int n => n != 0
  | real x => !x.isZero

def text? : Value → Except TextError String
  | flag b => .ok (if b then "True" else "False")
  | int n => intText? n
  | real x => .ok x.text

def toInt? : Value → Option Int
  | flag b => some (if b then 1 else 0)
  | int n => some n
  | real _ => none

def toReal : Value → Except ArithError Double
  | flag b => .ok (if b then 1 else 0)
  | int n => match Double.ofInt? n with
    | some x => .ok x
    | none => .error .intTooLarge
  | real x => .ok x

def truncate : Value → Except ArithError Int
  | flag b => .ok (if b then 1 else 0)
  | int n => .ok n
  | real x =>
    match x.truncate? with
    | some n => .ok n
    | none => .error (if x.isNaN then .nanToInt else .infinityToInt)

def arith (onInt : Int → Int → Int) (onReal : Double → Double → Double) (a b : Value) :
    Except ArithError Value :=
  match a.toInt?, b.toInt? with
  | some m, some n => .ok (int (onInt m n))
  | _, _ => do return real (onReal (← a.toReal) (← b.toReal))

def add : Value → Value → Except ArithError Value := arith (· + ·) (· + ·)

def sub : Value → Value → Except ArithError Value := arith (· - ·) (· - ·)

def mul : Value → Value → Except ArithError Value := arith (· * ·) (· * ·)

def neg : Value → Value
  | flag b => int (if b then -1 else 0)
  | int n => int (-n)
  | real x => real (-x)

def div (a b : Value) : Except ArithError Value :=
  match a.toInt?, b.toInt? with
  | some m, some n =>
    if n = 0 then .error .divisionByZero
    else match Double.ofQuotient? m n with
      | some q => .ok (real q)
      | none => .error .quotientTooLarge
  | _, _ => do
    let x ← a.toReal
    let y ← b.toReal
    if y.isZero then .error .realDivisionByZero else return real (x / y)

/-- The remainder, with the sign of the divisor. -/
def mod (a b : Value) : Except ArithError Value :=
  match a.toInt?, b.toInt? with
  | some m, some n => if n = 0 then .error .remainderByZero else .ok (int (Int.fmod m n))
  | _, _ => do
    let x ← a.toReal
    let y ← b.toReal
    if y.isZero then .error .realRemainderByZero else return real (x.remainder y)

/-- The order of two constants, exactly; none where one is not a number. -/
def order? (a b : Value) : Option Ordering :=
  match a, b with
  | real x, real y =>
    if x.isNaN || y.isNaN then none
    else some (if x.lt y then .lt else if y.lt x then .gt else .eq)
  | real x, b => (b.toInt?.bind fun n => Double.compareInt? n x).map Ordering.swap
  | a, real y => a.toInt?.bind fun n => Double.compareInt? n y
  | a, b => do return compare (← a.toInt?) (← b.toInt?)

/-- A comparison; one with what is not a number holds only for inequality. -/
def compareBy (test : Ordering → Bool) (onNaN : Bool) (a b : Value) : Value :=
  flag (((order? a b).map test).getD onNaN)

/-- Bitwise operations work on integers; two truth values give a truth value. -/
def bitwise (op : String) (onFlag : Bool → Bool → Bool) (onInt : Int → Int → Int) (a b : Value) :
    Except ArithError Value :=
  match a, b with
  | flag x, flag y => .ok (flag (onFlag x y))
  | _, _ =>
    match a.toInt?, b.toInt? with
    | some m, some n => .ok (int (onInt m n))
    | _, _ => .error (.badOperands op a.kind b.kind)

/-- Bitwise operation on integers in two's complement, by cases on the signs. -/
def intAnd : Int → Int → Int
  | .ofNat m, .ofNat n => .ofNat (m &&& n)
  | .ofNat m, .negSucc n => .ofNat (m - (m &&& n))
  | .negSucc m, .ofNat n => .ofNat (n - (n &&& m))
  | .negSucc m, .negSucc n => .negSucc (m ||| n)

def intNot (n : Int) : Int := -n - 1

def intOr (m n : Int) : Int := intNot (intAnd (intNot m) (intNot n))

def intXor : Int → Int → Int
  | .ofNat m, .ofNat n => .ofNat (m ^^^ n)
  | .ofNat m, .negSucc n => .negSucc (m ^^^ n)
  | .negSucc m, .ofNat n => .negSucc (m ^^^ n)
  | .negSucc m, .negSucc n => .ofNat (m ^^^ n)

def bitAnd : Value → Value → Except ArithError Value := bitwise "&" (· && ·) intAnd

def bitOr : Value → Value → Except ArithError Value := bitwise "|" (· || ·) intOr

def bitXor : Value → Value → Except ArithError Value := bitwise "^" Bool.xor intXor

def bitNot (a : Value) : Except ArithError Value :=
  match a.toInt? with
  | some n => .ok (int (intNot n))
  | none => .error (.badOperand "~" a.kind)

/-- Integers are kept in digits of this many bits. -/
def digitBits : Nat := 30

/-- The digits that a shift to the left makes room for. -/
def shiftDigits (m : Int) (n : Nat) : Nat :=
  Nat.log2 m.natAbs / digitBits + 1 + (n + digitBits - 1) / digitBits

/-- An integer cannot have more digits than can be addressed. -/
def addressedDigits : Nat := (Nat.pow 2 63 - 25) / 4

/-- Digits beyond this number, of four bytes each, find no room. -/
def digitRoom : Nat := Nat.pow 2 30

def shiftStep : Nat := Nat.pow 2 31

def addZeros (m n : Nat) : Nat :=
  Nat.repeat (· <<< shiftStep) (n / shiftStep) (m <<< (n % shiftStep))

def dropBits (m n : Nat) : Nat :=
  Nat.repeat (· >>> shiftStep) (n / shiftStep) (m >>> (n % shiftStep))

def shiftLeft (a b : Value) : Except ArithError Value :=
  match a.toInt?, b.toInt? with
  | some m, some n =>
    if n < 0 then .error .negativeShift
    else if m = 0 then .ok (int 0)
    else if addressedDigits < shiftDigits m n.toNat then .error .shiftTooFar
    else if digitRoom < shiftDigits m n.toNat then .error .noRoom
    else
      let size : Int := addZeros m.natAbs n.toNat
      .ok (int (if m < 0 then -size else size))
  | _, _ => .error (.badOperands "<<" a.kind b.kind)

def shiftRight (a b : Value) : Except ArithError Value :=
  match a.toInt?, b.toInt? with
  | some m, some n =>
    if n < 0 then .error .negativeShift
    else
      let count := min n.toNat (Nat.log2 m.natAbs + 1)
      .ok (int (match m with
        | .ofNat k => .ofNat (dropBits k count)
        | .negSucc k => .negSucc (dropBits k count)))
  | _, _ => .error (.badOperands ">>" a.kind b.kind)

end Value

end ArmStudio.Script
