import ArmStudio.Motion.Trig

/-!
# Kinematics of the arm

The arm turns about a vertical axis (the first angle) and has three segments in the plane of that
turn (the other three). `Angles.pose` gives the place of the hand and its inclination; `reach`
looks for angles that give a pose, among four candidates in a fixed order, and `Angles.motors`
converts angles to those of the motors.

Angles are in radians, lengths in centimetres, and all arithmetic is single precision, from left
to right.
-/

namespace ArmStudio.Motion

open Number

structure Pose where
  x : Single
  y : Single
  z : Single
  tilt : Single
  deriving DecidableEq

structure Angles where
  turn : Single
  first : Single
  second : Single
  third : Single
  deriving DecidableEq

inductive Reach where
  | ok
  | invalid
  | unreachable
  | jointLimit
  | collision
  deriving DecidableEq

namespace Reach

def code : Reach → Nat
  | ok => 0
  | invalid => 1
  | unreachable => 2
  | jointLimit => 3
  | collision => 4

end Reach

def pi : Single := 3.1415926

def baseHeight : Single := 17.4
def length1 : Single := 19.8
def length2 : Single := 14.6
def length3 : Single := 34

def square (x : Single) : Single := x * x

namespace Angles

def zero : Angles := ⟨0, 0, 0, 0⟩

def pose (a : Angles) : Pose :=
  let reachOut := length1 * sin a.first - length2 * sin (a.first + a.second) +
    length3 * sin (a.first + a.second + a.third)
  let height := baseHeight - length1 * cos a.first + length2 * cos (a.first + a.second) -
    length3 * cos (a.first + a.second + a.third)
  { x := reachOut * cos a.turn
    y := height
    z := reachOut * sin a.turn
    tilt := a.first + a.second + a.third - 5 / 2 * pi }

def motors (a : Angles) : List Single :=
  let third := -toDegrees (a.second - pi)
  [toDegrees a.turn, toDegrees (a.first - pi), third, toDegrees (a.third - pi) - third]

end Angles

/-! ## Normal ranges -/

def raiseTo (low : Single) : Nat → Single → Single
  | 0, x => x
  | fuel + 1, x => if x.lt low then raiseTo low fuel (x + 2 * pi) else x

def lowerTo (high : Single) : Nat → Single → Single
  | 0, x => x
  | fuel + 1, x => if high.le x then lowerTo high fuel (x - 2 * pi) else x

def turnsOf (x : Single) : Nat := x.units.natAbs / Nat.pow 2 149 + 8

/-- The same direction, from zero up to a full turn. -/
def normalize (x : Single) : Single := lowerTo (2 * pi) (turnsOf x) (raiseTo 0 (turnsOf x) x)

/-- The same direction, within a half turn to either side. -/
def normalizeHalf (x : Single) : Single := lowerTo pi (turnsOf x) (raiseTo (-pi) (turnsOf x) x)

/-! ## Admissible angles -/

def within (low high x : Single) : Bool := low.le x && x.le high

def Angles.inLimits (a : Angles) : Bool :=
  within (-pi) pi a.turn && within (0.5 * pi) (1.5 * pi) a.first &&
    within (0.2 * pi) (1.6 * pi) a.second && within (0.6 * pi) (1.4 * pi) a.third

def lengthTolerance : Single := 0.1
def tiltTolerance : Single := 1

def Pose.agrees (p q : Pose) : Bool :=
  !(lengthTolerance.lt (p.x - q.x).abs) && !(lengthTolerance.lt (p.y - q.y).abs) &&
    !(lengthTolerance.lt (p.z - q.z).abs) && !(tiltTolerance.lt (p.tilt - q.tilt).abs)

def pedestalHeight : Single := 20
def pedestalRadius : Single := 15
def axisHeight : Single := 5
def margin : Single := 0.0002

/-- A joint is clear of the pedestal and of the ground around it. -/
def clearOfBase (x y : Single) : Bool :=
  if x.abs.le (pedestalRadius + axisHeight) then !(y.lt axisHeight)
  else !(y.lt (-pedestalHeight + axisHeight))

/-- A coordinate lies between those of two ends, widened by the axis on the outer sides. -/
def crosses (a b c : Single) : Bool := ((a - axisHeight).le c && c.le (b + axisHeight)) ||
    (c.le (a + axisHeight) && (b - axisHeight).le c)

def onFirst (x y x1 y1 : Single) : Bool :=
  (margin.le x1.abs && (((-axisHeight).le x && x.le (x1 + axisHeight)) ||
    (x.le axisHeight && (x1 - axisHeight).le x))) ||
  (margin.le y1.abs && (((-axisHeight).le y && y.le (y1 + axisHeight)) ||
    (y.le axisHeight && (y1 - axisHeight).le y)))

def onThird (x y x2 y2 x3 y3 : Single) : Bool :=
  (margin.le (x3 - x2).abs && crosses x2 x3 x) || (margin.le (y3 - y2).abs && crosses y2 y3 y)

def Angles.isClear (a : Angles) : Bool :=
  let second := a.first + a.second
  let third := a.first + a.second + a.third
  let x1 := length1 * sin a.first
  let y1 := -length1 * cos a.first
  let x2 := x1 - length2 * sin second
  let y2 := y1 + length2 * cos second
  let x3 := x2 + length3 * sin third
  let y3 := y2 - length3 * cos third
  if !clearOfBase x2 y2 || !clearOfBase x3 y3 then false
  else if x3.abs.le (pedestalRadius / 2) && y3.lt pedestalHeight then false
  else
    let a1 := -cos a.first
    let b1 := sin a.first
    let m := cos third
    let n := sin third
    let c := -sin third * (-length1 * cos a.first + length2 * cos second) -
      cos third * (length1 * sin a.turn - length2 * sin second)
    let y := if a1.abs.lt margin then 0 else -c * a1 / (b1 * m + n * a1)
    let x := if b1.abs.lt margin then 0 else -c * b1 / (b1 * m + n * a1)
    !(onFirst x y x1 y1 && onThird x y x2 y2 x3 y3)

def examine (p : Pose) (a : Angles) : Reach :=
  if !a.inLimits then .jointLimit
  else if !a.pose.agrees p then .invalid
  else if !a.isClear then .collision
  else .ok

/-! ## Candidates -/

/-- Tries candidates in order. The first admissible one is taken, otherwise the last one stays,
with what is wrong with it. -/
def tryAll (p : Pose) (turn : Single) : Reach × Angles → List (Single × Single × Single) →
    Reach × Angles
  | last, [] => last
  | _, (first, second, third) :: rest =>
    let a : Angles := ⟨turn, normalize first, normalize second, normalize third⟩
    let r := examine p a
    if r = .ok then (.ok, a) else tryAll p turn (r, a) rest

def reach (p : Pose) : Reach × Angles :=
  let turn := normalizeHalf (arctan2 p.z p.x)
  let unreachable : Reach × Angles := (.unreachable, { Angles.zero with turn := turn })
  let c1 := p.y - baseHeight - length3 * sin p.tilt
  let c2 := (square p.x + square p.z).sqrt - length3 * cos p.tilt
  let cosine := (square length1 + square length2 - square c1 - square c2) / (2 * length1 * length2)
  if (1 : Single).lt cosine || cosine.lt (-1) then unreachable
  else
    let q := arccos cosine
    let size := (square (length1 - length2 * cos q) + square (length2 * sin q)).sqrt
    let along := (length1 - length2 * cos q) / size
    let turned (b : Single) : Single := if along.lt 0 then pi - b else b
    let b1 := turned (arcsin (-(length2 * sin q) / size))
    let s := c2 / size
    if !((-1 : Single).le s && s.le 1) then unreachable
    else
      let b2 := turned (arcsin (length2 * sin q / size))
      tryAll p turn unreachable
        [(arcsin s - b1, q, p.tilt + 5 / 2 * pi - q - arcsin s + b1),
          (pi - arcsin s - b1, q, p.tilt - q + arcsin s + b1 + 3 / 2 * pi),
          (arccos s - b2, -q, p.tilt + 5 / 2 * pi - arcsin s + b2 + q),
          (pi - arcsin s - b2, -q, p.tilt + 3 / 2 * pi + arcsin s + b2 + q)]

end ArmStudio.Motion
