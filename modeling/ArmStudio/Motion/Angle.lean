/-!
# Sines and angles in fixed point

Sines and arc tangents of rational arguments, as whole numbers of a very small unit. Rounded to
eight decimals they are the entries of the tables by which the arm computes.
-/

namespace ArmStudio.Motion.Angle

def one : Nat := Nat.pow 10 20

def halfTurn : Nat := 314159265358979323846

def sineTerms (square : Nat) : Nat → Nat → Nat → Bool → Nat → Nat
  | 0, _, _, _, sum => sum
  | fuel + 1, k, term, plus, sum =>
    let next := term * square / one / (2 * k * (2 * k + 1))
    sineTerms square fuel (k + 1) next (!plus) (if plus then sum + next else sum - next)

/-- The sine of an angle up to a quarter turn, given in units. -/
def sine (x : Nat) : Nat := sineTerms (x * x / one) 10 1 x false x

def arcTerms (num den : Nat) : Nat → Nat → Nat → Nat → Nat
  | 0, _, _, sum => sum
  | fuel + 1, n, term, sum =>
    let next := term * (2 * n * num) / ((2 * n + 1) * den)
    arcTerms num den fuel (n + 1) next (sum + next)

def arcTangentLow (y x : Nat) : Nat :=
  let square := y * y + x * x
  let first := one * (y * x) / square
  arcTerms (y * y) square 69 1 first first

/-- The angle of the point `(x, y)` of the first quadrant. -/
def arcTangent (y x : Nat) : Nat :=
  if y ≤ x then arcTangentLow y x else halfTurn / 2 - arcTangentLow x y

/-- The integer square root, by halving the interval `[low, low + 2^fuel)`. -/
def rootFrom (n : Nat) : Nat → Nat → Nat
  | 0, low => low
  | fuel + 1, low =>
    let middle := low + Nat.pow 2 fuel
    rootFrom n fuel (if middle * middle ≤ n then middle else low)

def arcSine (s : Nat) : Nat := arcTangent (s * one) (rootFrom ((1000000 - s * s) * one * one) 80 0)

def nearest (num den : Nat) : Nat := (2 * num + den) / (2 * den)

def decimals (x : Nat) : Nat := nearest (x * 100000000) one

/-- Eight decimals of an angle in degrees, at most 90. -/
def degrees (x : Nat) : Nat := min 9000000000 (nearest (x * 180 * Nat.pow 10 15) (one * 31415926))

end ArmStudio.Motion.Angle
