import ArmStudio.Motion.Angle
import ArmStudio.Number.Single

/-!
# Bearings

The angle of a direction, and the sine and cosine of an angle, rounded once to a double or a single
from twenty decimals.

* `bearing`, `bearingSingle`: the angle from the first axis, in radians, between minus and plus a
  half turn;
* `toDegrees`, `toRadians` and their forms for singles: products with a rounded constant;
* `cosineSingle`, `sineSingle`.
-/

namespace ArmStudio.Vision

open Number Motion Angle

/-- The sign and the size of the angle of the direction `(x, y)`. -/
def turn (y x : Double) : Bool × Nat :=
  match y.datum, x.datum with
  | .finite yNegative my ey, .finite xNegative mx ex =>
    let ey := if my = 0 then ex else ey
    let ex := if mx = 0 then ey else ex
    let low := min ey ex
    let angle :=
      arcTangent (my * Nat.pow 2 (ey - low).toNat) (mx * Nat.pow 2 (ex - low).toNat)
    (yNegative, if xNegative then halfTurn - angle else angle)
  | _, _ => (false, 0)

def bearing (y x : Double) : Double :=
  let (negative, size) := turn y x
  .ofRatio negative size one

def singleOfRatio (negative : Bool) (num den : Nat) : Single :=
  let size : Single := ⟨(Format.single.roundRatio num den).toUInt32⟩
  if negative then -size else size

def bearingSingle (y x : Single) : Single :=
  let (negative, size) := turn y.toDouble x.toDouble
  singleOfRatio negative size one

def halfTurn : Double := 3.141592653589793

def halfTurnSingle : Single := Single.ofDouble halfTurn

def toDegrees (x : Double) : Double := x * (180 / halfTurn)

variable (x : Single)

def toDegreesSingle : Single := x * (180 / halfTurnSingle)

def toRadians (x : Double) : Double := x * (halfTurn / 180)

def toRadiansSingle : Single := x * (halfTurnSingle / 180)

/-- The sine of an angle of at most a half turn, in units, with its sign. -/
def sineUnits (negative : Bool) (size : Nat) : Bool × Nat :=
  if Angle.halfTurn < size then (!negative, Angle.sine (size - Angle.halfTurn))
  else (negative, Angle.sine (if Angle.halfTurn < 2 * size then Angle.halfTurn - size else size))

def angleUnits : Bool × Nat :=
  match x.datum with
  | .finite negative man exp =>
    let (num, den) := Format.scale man 1 (-exp)
    (negative, nearest (num * one) den)
  | _ => (false, 0)

def sineSingle : Single :=
  let (negative, size) := angleUnits x
  let (sign, value) := sineUnits negative size
  singleOfRatio sign value one

def cosineSingle : Single :=
  let (_, size) := angleUnits x
  let quarter := Angle.halfTurn / 2
  if size ≤ quarter then singleOfRatio false (Angle.sine (quarter - size)) Angle.one
  else singleOfRatio true (Angle.sine (size - quarter)) Angle.one

end ArmStudio.Vision
