import ArmStudio.Number.Double

/-!
# Shortest decimal digits

The fewest digits that read back as a given number; of two candidates of that length the nearer,
a tie to the even one. The search tries the two neighbours of the value on each decimal grid, by
exact arithmetic.
-/

namespace ArmStudio.Number.Shortest

/-- A positive decimal `0.d₁d₂… * 10^point`, its digits as one natural of the given length. -/
structure Decimal where
  digits : Nat
  length : Nat
  point : Int
  deriving DecidableEq

structure Ratio where
  num : Nat
  den : Nat
  deriving DecidableEq

/-- The numbers that round to `man * 2^exp`: from `low` to `high`, ends included when `man` is
even. -/
structure Interval where
  low : Ratio
  high : Ratio
  closed : Bool

/-- The interval of a finite double number; below a power of two the spacing halves. -/
def interval (man : Nat) (exp : Int) : Interval :=
  let f := Format.double
  let edge := man = Nat.pow 2 f.fractionBits ∧ f.minExp < exp
  let (a, b) := Format.scale (if edge then 4 * man - 1 else 4 * man - 2) 4 (-exp)
  let (c, d) := Format.scale (4 * man + 2) 4 (-exp)
  ⟨⟨a, b⟩, ⟨c, d⟩, man % 2 == 0⟩

def Interval.contains (i : Interval) (digits : Nat) (scale : Int) : Bool :=
  let up := Nat.pow 10 scale.toNat
  let down := Nat.pow 10 (-scale).toNat
  let a := digits * up
  let test (x y : Nat) : Bool := if i.closed then x ≤ y else x < y
  test (i.low.num * down) (a * i.low.den) && test (a * i.high.den) (i.high.num * down)

/-- The least `k` with `num / den < 10^k`, searched upwards from `k`. -/
def pointFrom (num den : Nat) : Nat → Int → Int
  | 0, k => k
  | fuel + 1, k =>
    if num * Nat.pow 10 (-k).toNat < den * Nat.pow 10 k.toNat then k
    else pointFrom num den fuel (k + 1)

/-- The place of the decimal point: the value lies in `[10^(k-1), 10^k)`. -/
def point (num den : Nat) : Int :=
  let estimate := ((Nat.log2 num : Int) - Nat.log2 den - 1) * 30103 / 100000 - 1
  pointFrom num den 5 estimate

def search (i : Interval) (num den : Nat) (k : Int) : Nat → Nat → Decimal
  | 0, length => ⟨0, length, k⟩
  | fuel + 1, length =>
    let scale := k - length
    let a := num * Nat.pow 10 (-scale).toNat
    let b := den * Nat.pow 10 scale.toNat
    let below := a / b
    let above := below + 1
    let lowFits := i.contains below scale
    let highFits := i.contains above scale
    let pick (d : Nat) : Decimal :=
      if d = Nat.pow 10 length then ⟨Nat.pow 10 (length - 1), length, k + 1⟩ else ⟨d, length, k⟩
    if lowFits && highFits then
      let twice := 2 * (a % b)
      if twice < b then pick below
      else if b < twice then pick above
      else if below % 2 = 0 then pick below
      else pick above
    else if lowFits then pick below
    else if highFits then pick above
    else search i num den k fuel (length + 1)

def ofScaled (man : Nat) (exp : Int) : Decimal :=
  let (num, den) := Format.scale man 1 (-exp)
  search (interval man exp) num den (point num den) 17 1

end ArmStudio.Number.Shortest
