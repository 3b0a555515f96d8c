import ArmStudio.Vision.Zoom

/-!
# Describing results

Results as documents, and geometry on points that are given as documents and may lack parts.

* `pointDocument`, `Finding.document`, `Position.document`.
-/

namespace ArmStudio.Vision

open Number Script

def pointDocument (p : Point) : Document := .list [decimal p.x.toDouble, decimal p.y.toDouble]

def pointsDocument (l : List Point) : Document := .list (l.map pointDocument)

def Source.document : Source → Document
  | layer n => .nat n
  | named text => .text text

def Finding.document (f : Finding) : Document :=
  let (x, y, w, h) := f.position
  .record ([("data", .text f.data), ("type", .text f.kind), ("position", wholes [x, y, w, h]),
    ("id", .int f.label.id), ("direction", .text f.label.direction),
    ("secure", .text f.label.secure), ("source", f.source.document)] ++
    (f.outline.map fun o => ("polygon", pointsDocument o)).toList ++
    (f.detection.map fun d => ("detection_type", Document.text d)).toList)

def findingsDocument (l : List Finding) : Document := .list (l.map Finding.document)

def Position.document (p : Position) : Document :=
  .record [("center", .ofOption pointDocument p.center), ("x", decimal p.x), ("y", decimal p.y),
    ("z", .int p.z), ("rot", .text (p.rotation.fixedUnsignedZero 2))]

def numberOf? : Document → Option Value
  | .flag b => some (.flag b)
  | .int n => some (.int n)
  | .real x => some (.real x)
  | _ => none

def rowOf : Document → List Value
  | .list l => l.filterMap numberOf?
  | _ => []

variable (kind : CoordKind)

def pointOf (row : List Value) : Point :=
  let nth (n : Nat) : Coord := .ofValue kind (row[n]?.getD (.int 0))
  ⟨nth 0, nth 1⟩

def pointsOf (d : Document) : Option (List Point) :=
  match d with
  | .list rows => some (rows.map fun r => pointOf kind (rowOf r))
  | _ => none

/-- Corners in order; rows of one number have no second column. -/
def orderLoose (d : Document) : Except VisionError (Option (List Point)) :=
  match d with
  | .list rows =>
    let width := (rows.map fun r => (rowOf r).length).headD 0
    if rows.length < 4 then .ok none
    else if width < 2 then .error (.axisEnd width 1 width)
    else .ok (orderCorners (rows.map fun r => pointOf kind (rowOf r)))
  | _ => .ok none

def columnDifference (a b : Document) (n : Nat) : Except VisionError Double := do
  match (rowOf a)[n]?, (rowOf b)[n]? with
  | some x, some y => ((do (← x.sub y).toReal : Except ArithError Double)).mapError .arithmetic
  | _, _ => throw .listEnd

/-- The cosine of the angle at the third of three points, zero where one is missing. -/
def cosineLoose (a b corner : Document) : Except VisionError Double := do
  match a, b, corner with
  | .null, _, _ | _, .null, _ | _, _, .null => return 0
  | _, _, _ =>
    let vector (p : Document) : Except VisionError Spot :=
      return (← columnDifference p corner 0, ← columnDifference p corner 1)
    return cosine (← vector a) (← vector b)

def kindName : Document → String
  | .null => "NoneType"
  | .flag _ => "bool"
  | .int _ => "int"
  | .real _ => "float"
  | .text _ => "str"
  | .list _ => "list"
  | .record _ => "dict"

def spotOf : Document → Except VisionError Spot
  | .list [x, y] =>
    let number (d : Document) : Double := ((numberOf? d).getD (.int 0)).toReal.toOption.getD .zero
    .ok (number x, number y)
  | .list l => .error (if l.length < 2 then .tooFew 2 l.length else .tooMany 2)
  | d => .error (.notSpread (kindName d))

def borderAmong (margin width height : Double) : List Document → Except VisionError Bool
  | [] => .ok false
  | .null :: rest | .list [] :: rest => borderAmong margin width height rest
  | .list (p :: _) :: rest => do
    if nearBorder margin width height (← spotOf p) then return true
    else borderAmong margin width height rest
  | d :: _ => .error (.noLength (kindName d))

/-- Whether an outline comes near the edge of a picture of a shape; a missing one does. -/
def borderLoose (contour shape : Document) (margin : Double) : Except VisionError Bool := do
  match contour, shape with
  | .list points, .list sizes =>
    let (height, width) ← spotOf (.list (sizes.take 2))
    borderAmong margin width height points
  | _, _ => return true

end ArmStudio.Vision
