import ArmStudio.Vision.Fault
import ArmStudio.Vision.Library

/-!
# Squares

Quadrilaterals in a picture: the order of their corners, their right angles and their place in front
of the camera.
-/

namespace ArmStudio.Vision

open Number

/-- Corners from the left upper one with the clock, as singles. The two leftmost points are on the
left. -/
def orderCorners (p : List Point) : Option (List Point) :=
  let byX := sortBy (fun a b => a.x.lt b.x) p
  let byY := sortBy fun (a b : Point) => a.y.lt b.y
  match byY (byX.take 2), byY (byX.drop 2) with
  | upperLeft :: lowerLeft :: _, upperRight :: lowerRight :: _ =>
    some ([upperLeft, upperRight, lowerRight, lowerLeft].map Point.toSingle)
  | _, _ => none

/-- The cosine of the angle between two vectors, zero where one is too short. -/
def cosine (a b : Spot) : Double :=
  let length (v : Spot) : Double := (v.1 * v.1 + v.2 * v.2).sqrt
  let size := length a * length b
  if size.lt 1e-10 then 0
  else
    let c := (a.1 * b.1 + a.2 * b.2) / size
    if c.lt (-1) then -1 else if Double.lt 1 c then 1 else c

/-- Whether a place lies within a margin of the edge of a picture, or outside it. -/
def nearBorder (margin width height : Double) (s : Spot) : Bool :=
  s.1.lt margin || (width - margin).lt s.1 || s.2.lt margin || (height - margin).lt s.2

/-- The height of the camera over the table, in millimetres. -/
def cameraHeight : Int := 800

/-- A place in front of the camera: the middle in the picture, the offsets from the middle of the
picture in millimetres, the distance and the rotation in degrees. -/
structure Position where
  center : Option Point
  x : Double
  y : Double
  z : Int
  rotation : Double

def Position.unknown : Position := ⟨none, 0, 0, 0, 0⟩

/-- The place of corners in a picture of a size, unknown for less than four corners or an empty
picture. The rotation is that of the first edge. -/
def locate (lib : Library) (scale : Double) (corners : List Point)
    (width height : Int) : Position :=
  match corners with
  | a :: b :: _ :: _ :: _ =>
    if width ≤ 0 || height ≤ 0 then .unknown
    else
      let center := Point.mean corners
      { center := some center
        x := (center.x.toDouble - .ofInt (width / 2)) * scale
        y := (center.y.toDouble - .ofInt (height / 2)) * scale
        z := cameraHeight
        rotation := (lib.heading (b.sub a)).toDouble }
  | _ => .unknown

/-- The place of a square; a quarter turn leaves a square as it is. -/
def locateSquare (lib : Library) (scale : Double) (corners : List Point) (width height : Int) :
    Position :=
  let p := locate lib scale corners width height
  if p.center.isSome then { p with rotation := p.rotation.remainder 90 } else p

end ArmStudio.Vision
