import ArmStudio.Motion.Angle
import ArmStudio.Number.Single

/-!
# Trigonometry of the arm

Trigonometric functions in 32-bit arithmetic by tables: sines in steps of a hundredth of a degree,
arc sines in steps of a thousandth, arc tangents in steps of a hundredth up to 10 and of one up to
999. An argument goes to the step below; nothing is interpolated.

Degrees and radians are converted with the half turn 3.141592.
-/

namespace ArmStudio.Motion

open Number Angle

variable (i : Nat)

/-- The table of sines: the entry of `i` hundredths of a degree, up to 90 degrees. -/
def sineEntry : Single := .ofDecimal (decimals (sine (i * halfTurn / 18000))) 8

/-- The table of arc sines: the entry of `i` thousandths. -/
def arcSineEntry : Single := .ofDecimal (degrees (arcSine i)) 8

/-- The table of arc tangents: the entry of `i` hundredths. -/
def arcTangentEntry : Single := .ofDecimal (degrees (arcTangent i 100)) 8

def arcTangentWhole : Single := .ofDecimal (degrees (arcTangent i 1)) 8

/-- Where the table has the sine of a whole number of steps: whether it is negated, and the
index. -/
def sinePlace (steps : Int) : Bool × Int :=
  let rest := steps.tmod 36000
  let a := if rest < 0 then rest + 36000 else rest
  if a < 9000 then (false, a)
  else if a < 18000 then (false, 18000 - a)
  else if a < 27000 then (true, a - 18000)
  else (true, 36000 - a)

def sineAt (place : Bool × Int) : Single :=
  if place.1 then -sineEntry place.2.toNat else sineEntry place.2.toNat

def sineOfSteps (steps : Int) : Single := sineAt (sinePlace steps)

variable (x : Single)

def sinDegree : Single := sineOfSteps (x * 100).truncate

def cosDegree : Single := sinDegree (x + 90)

def tanDegree : Single := sinDegree x / cosDegree x

def arcsinDegree : Single :=
  if (0 : Single).le x then arcSineEntry (x * 1000).truncate.toNat
  else -arcSineEntry (-x * 1000).truncate.toNat

def arccosDegree : Single := arcsinDegree (-x) + 90

def arctanOfPositive : Single :=
  if x.le 10 then arcTangentEntry (x * 100).truncate.toNat
  else if x.le 999 then arcTangentWhole x.truncate.toNat
  else 90

def arctanDegree : Single :=
  if x.lt 0 then -arctanOfPositive (-x) else arctanOfPositive x

/-- The angle of the point `(x, y)`; zero at the origin. -/
def arctan2Degree (y x : Single) : Single :=
  if (0 : Single).lt x then arctanDegree (y / x)
  else if x.lt 0 && (0 : Single).le y then arctanDegree (y / x) + 180
  else if x.lt 0 && y.lt 0 then arctanDegree (y / x) - 180
  else if x.eqv 0 && (0 : Single).lt y then 90
  else if x.eqv 0 && y.lt 0 then -90
  else 0

def shortPi : Single := 3.141592

def toDegrees : Single := x / shortPi * 180

def toRadians : Single := x / 180 * shortPi

def sin : Single := sinDegree (toDegrees x)

def cos : Single := cosDegree (toDegrees x)

def tan : Single := tanDegree (toDegrees x)

def arcsin : Single := toRadians (arcsinDegree x)

def arccos : Single := toRadians (arccosDegree x)

def arctan : Single := toRadians (arctanDegree x)

def arctan2 (y x : Single) : Single := toRadians (arctan2Degree y x)

end ArmStudio.Motion
