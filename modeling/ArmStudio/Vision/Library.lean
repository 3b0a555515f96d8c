import ArmStudio.Vision.Polygon

/-!
# The library

What the program takes from its libraries for pictures and for numbers. The program calls these
functions and does not define them, so it works with any of them.

* `Library`: the functions and the versions that are told;
* `Library.plain`: a library whose tight boxes have their sides along the axes.
-/

namespace ArmStudio.Vision

open Number

/-- A box that may be turned: its corners and the lengths of its sides. -/
structure TurnedBox where
  corners : List Point
  width : Double
  height : Double

structure Library where
  numbersVersion : String
  picturesVersion : String
  area : List Point → Double
  perimeter : List Point → Double
  /-- The corners that keep a polygon within a distance of its outline. -/
  thin : List Point → Double → List Point
  isConvex : List Point → Bool
  /-- Whether a spot lies inside a polygon or on its edges. -/
  contains : List Point → Spot → Bool
  /-- The part of a polygon inside a convex one, which comes first. -/
  clip : List Spot → List Spot → List Spot
  /-- The smallest box around points. -/
  tightBox : List Point → TurnedBox
  /-- The left upper corner and the size of the smallest box of pixels. -/
  bounds : List Point → Int × Int × Int × Int
  /-- The angle of the direction `(x, y)`, given as `y x`, in radians. -/
  bearing : Double → Double → Double
  bearingSingle : Single → Single → Single
  cosineSingle : Single → Single
  sineSingle : Single → Single

namespace Library

/-- The direction of a vector in degrees. -/
def heading (lib : Library) (p : Point) : Coord :=
  match p.x, p.y with
  | .single x, .single y => .single (toDegreesSingle (lib.bearingSingle y x))
  | x, y => .double (toDegrees (lib.bearing y.toDouble x.toDouble))

def plain : Library where
  numbersVersion := "1.26.4"
  picturesVersion := "4.5.5"
  area := Polygon.area
  perimeter := Polygon.perimeter
  thin := Polygon.thin
  isConvex := Polygon.isConvex
  contains := Polygon.contains
  clip := Polygon.clip
  tightBox p :=
    let box := Box.around p
    ⟨box.corners, box.width, box.height⟩
  bounds p :=
    let box := Box.around p
    let whole (x : Double) : Int := x.truncate?.getD 0
    (whole box.left, whole box.top, whole box.width + 1, whole box.height + 1)
  bearing := Vision.bearing
  bearingSingle := Vision.bearingSingle
  cosineSingle := Vision.cosineSingle
  sineSingle := Vision.sineSingle

end Library

end ArmStudio.Vision
