/-!
# Binary interchange formats

A format is given by the width of its fraction and of its exponent. This module defines

* `Datum`, what a bit pattern denotes: a finite number `±man * 2^exp`, an infinity or not a number;
* `Format.decode`, the denotation of a bit pattern;
* `Format.units`, `Format.roundUnits`: magnitudes as multiples of the least positive number.

Everything is exact arithmetic on `Nat` and `Int`.
-/

namespace ArmStudio.Number

inductive Datum where
  | finite (negative : Bool) (man : Nat) (exp : Int)
  | infinite (negative : Bool)
  | notANumber (negative : Bool)
  deriving DecidableEq

/-- A binary interchange format: widths of the fraction and of the exponent, in bits. -/
structure Format where
  fractionBits : Nat
  exponentBits : Nat
  deriving DecidableEq

namespace Format

def double : Format := ⟨52, 11⟩

def single : Format := ⟨23, 8⟩

variable (f : Format)

def topExponent : Nat := Nat.pow 2 f.exponentBits - 1

def infinity : Nat := f.topExponent * Nat.pow 2 f.fractionBits

/-- The power of two of the last place of the smallest numbers. -/
def minExp : Int := 2 - (Nat.pow 2 (f.exponentBits - 1) : Int) - f.fractionBits

def signWeight : Nat := Nat.pow 2 (f.fractionBits + f.exponentBits)

/-- The weight of the digit before the fraction. -/
def leading : Nat := Nat.pow 2 f.fractionBits

section

variable (k : Nat)

/-- The digits of a magnitude pattern, as a natural. -/
def digits : Nat := if k < f.leading then k else f.leading + k % f.leading

/-- The power of two of the last digit of a magnitude pattern, against that of the smallest
numbers. -/
def shift : Nat := k / f.leading - 1

/-- The multiple of the least positive number that a magnitude pattern denotes. -/
def units : Nat := f.digits k <<< f.shift k

end

def decode (bits : Nat) : Datum :=
  let negative := bits / f.signWeight % 2 == 1
  let k := bits % f.signWeight
  if k < f.infinity then .finite negative (f.digits k) (f.minExp + f.shift k)
  else if k = f.infinity then .infinite negative
  else .notANumber negative

/-- The greatest magnitude pattern that denotes `n` or less, as if there were no greatest number. -/
def patternBelow (n : Nat) : Nat :=
  let dropped := Nat.log2 n - f.fractionBits
  dropped * f.leading + n >>> dropped

variable (num den : Nat)

/-- The magnitude pattern nearest to the multiple `num / den` of the least positive number, a tie to
the even one; what is too large gives the pattern of infinity. -/
def roundUnits : Nat :=
  let k := f.patternBelow (num / den)
  let sum := (f.units k + f.units (k + 1)) * den
  min f.infinity (if 2 * num < sum ∨ 2 * num = sum ∧ k % 2 = 0 then k else k + 1)

/-- One, as a multiple of the least positive number. -/
def unity : Nat := 1 <<< (-f.minExp).toNat

/-- The magnitude pattern nearest to `num / den`. -/
@[irreducible]
def roundRatio : Nat := f.roundUnits (num * f.unity) den

/-- `num / den` scaled by `2^-exp`, as a quotient of naturals. -/
def scale (exp : Int) : Nat × Nat :=
  if 0 ≤ exp then (num, den * Nat.pow 2 exp.toNat) else (num * Nat.pow 2 (-exp).toNat, den)

/-- The quotient rounded to the nearest natural, a tie to the even one. -/
def nearestEven : Nat :=
  let quotient := num / den
  let rest := num % den
  if 2 * rest < den then quotient
  else if den < 2 * rest then quotient + 1
  else if quotient % 2 = 0 then quotient
  else quotient + 1

def signed (negative : Bool) (k : Nat) : Nat := (if negative then f.signWeight else 0) + k

def round (negative : Bool) (man : Nat) (exp : Int) : Nat :=
  let (a, b) := scale man 1 (-exp)
  f.signed negative (f.roundRatio a b)

end Format

end ArmStudio.Number
