import ArmStudio.Vision.Layers
import ArmStudio.Vision.Motion

/-!
# Reading marks

The marks in a picture, with their places.

* `readLayers`, `readTilted`: marks in the layers of a picture, as they are and in straightened
  parts; a number counts once, and greater numbers come first;
* `Detector`: codes in a picture as it is, then in the moving pictures taken together, then in
  straightened parts.
-/

namespace ArmStudio.Vision

open Number Lab

def sortFindings (l : List Finding) : List Finding :=
  sortBy (fun a b => decide (b.label.id < a.label.id)) l

def known (found : List Finding) (id : Int) : Bool := found.any fun f => f.label.id == id

def grayOf (p : Picture) : Lab Picture :=
  if p.planes.isSome then toGray p else return p

def findingOf (layer : Nat) (b : Barcode) : Except VisionError Finding := do
  let position ← b.regionParts
  let text ← b.text
  let outline := match b.outline with
    | some (some (p :: rest)) => (p :: rest).map Point.toSingle
    | _ => regionCorners position
  return ⟨String.ofList text, b.kind, position, some outline, none, .parse text, .layer layer,
    some "standard_qr"⟩

def addCodes (layer : Nat) : List (Option Barcode) → List Finding →
    Except VisionError (List Finding)
  | [], found => .ok found
  | none :: rest, found => addCodes layer rest found
  | some b :: rest, found => do
    let f ← findingOf layer b
    addCodes layer rest (if known found f.label.id then found else found ++ [f])

def readEach : List (Picture × Nat) → List Finding → Lab (List Finding)
  | [], found => return found
  | (p, n) :: rest, found => do
    discard (grayOf p)
    let codes ← readCodes
    readEach rest (← lift (addCodes n codes found))

variable (picture : Option Picture)

def readLayers : Lab (List Finding) := do
  match picture with
  | none => return []
  | some p =>
    let layers ← makeLayers p
    return sortFindings (← readEach layers.toList.zipIdx [])

/-! ## Straightened parts -/

def addTilted (layer : Nat) (position : Int × Int × Int × Int) (frame : List Point) :
    List (Option Barcode) → List Finding → List Finding
  | [], found => found
  | none :: rest, found => addTilted layer position frame rest found
  | some b :: rest, found =>
    match b.text with
    | .error _ => found
    | .ok text =>
      let label := Label.parse text
      if known found label.id then addTilted layer position frame rest found
      else
        match b.outline with
        | none => found
        | some outline =>
          match outline.filter fun o => 4 ≤ o.length with
          | none => addTilted layer position frame rest found
          | some corners =>
            addTilted layer position frame rest (found ++ [⟨String.ofList text, b.kind, position,
              some (corners.map Point.toSingle), some frame, label, .layer layer,
              some "tilted_qr"⟩])

def readPart (p : Picture) (layer : Nat) (contour : List Point) (found : List Finding) :
    Lab (List Finding) := do
  let area ← area contour
  if !(Double.lt 1000 area && area.lt 50000) then return found
  else
    let corners ← thin contour (0.02 * (← perimeter contour))
    if corners.length ≠ 4 then return found
    else
      let box ← tightBox corners
      let frame := box.corners.map Point.truncate
      let width := box.width.truncate?.getD 0
      let height := box.height.truncate?.getD 0
      let first := frame.headD default
      let step : Lab (List (Option Barcode)) := do
        discard (straighten p (corners.map Point.toSingle) width height)
        readCodes
      match ← attempt step with
      | .error _ => return found
      | .ok codes =>
        return addTilted layer (first.x.truncate, first.y.truncate, width, height) frame codes found

def readParts (p : Picture) (layer : Nat) : List (List Point) → List Finding → Lab (List Finding)
  | [], found => return found
  | contour :: rest, found => do readParts p layer rest (← readPart p layer contour found)

def readTiltedEach (p : Picture) : List (Picture × Nat) → List Finding → Lab (List Finding)
  | [], found => return found
  | (layer, n) :: rest, found => do
    let edges ← edges (← grayOf layer) 50 150
    let contours ← contours edges 3
    readTiltedEach p rest (← readParts p n (closed contours) found)

def readTilted : Lab (List Finding) := do
  match picture with
  | none => return []
  | some p =>
    let layers ← makeLayers p
    return sortFindings (← readTiltedEach p layers.toList.zipIdx [])

/-! ## Moving pictures -/

/-- The codes in straightened parts. A code cannot be given the place of its part, so that the first
one ends the search. -/
def straightCodes (p : Picture) : List Contour → Lab (List (Option Barcode))
  | [] => return []
  | contour :: rest => do
    let outline := contour.getD []
    let area ← area outline
    if area.lt 1000 then straightCodes p rest
    else
      let box ← tightBox outline
      discard (straighten p (box.corners.map fun q => q.truncate.toSingle)
        (box.width.truncate?.getD 0) (box.height.truncate?.getD 0))
      match ← readCodes with
      | [] => straightCodes p rest
      | some _ :: _ => throw .fixedMark
      | none :: _ => throw .noMark

def tiltedCodes (p : Picture) : Lab (List (Option Barcode)) := do
  let edges ← edges (← toGray p) 50 150
  straightCodes p (← contours edges 3)

/-- A task given to the workers, which run it at once; its failure shows when it is asked for. -/
def submit {α : Type} (task : Lab α) : Lab (Except VisionError α) := do
  touch .submit
  attempt task

def blurredCodes (processed : Option Picture) : Lab (List (Option Barcode)) := do
  match processed with
  | none => return []
  | some p =>
    let plain ← submit readCodes
    let tilted ← submit (tiltedCodes p)
    return plain.toOption.getD [] ++ tilted.toOption.getD []

variable (p : Picture)

def processPicture : Lab (Option Picture) := do
  let buffer ← bufferPicture (← get).buffer p
  modify fun s => { s with buffer := buffer }
  processBuffer buffer

def movingCodes : Lab (List (Option Barcode)) := do
  blurredCodes (← processPicture p)

/-- The codes in a picture, found by the first way that finds any. -/
def anyCodes : Lab (List (Option Barcode)) := do
  match ← readCodes with
  | [] =>
    match ← movingCodes p with
    | [] => tiltedCodes p
    | codes => return codes
  | codes => return codes

/-- The place of a code: its region, or the box around its outline; none where it has neither. -/
def placeOf (b : Barcode) : Lab (Option (Int × Int × Int × Int)) := do
  match b.region, b.outline with
  | some _, _ => return some (← lift b.regionParts)
  | none, none => return none
  | none, some none => throw (.notIterable "NoneType")
  | none, some (some outline) =>
    touch .bounds
    return some ((← library).bounds outline)

/-- The findings of codes, those without a place left out. -/
def formatCodes : List (Option Barcode) → Lab (List Finding)
  | [] => return []
  | none :: rest => formatCodes rest
  | some b :: rest => do
    match ← placeOf b with
    | none => formatCodes rest
    | some position =>
      let outline ← match b.outline with
        | none => pure (regionCorners position)
        | some none => throw (.notIterable "NoneType")
        | some (some outline) => pure (outline.map Point.toSingle)
      let text ← lift b.text
      let source := if b.region.isSome then "standard_qr" else "tilted_qr"
      return ⟨String.ofList text, b.kind, position, some outline, none, .parse text, .named source,
        none⟩ :: (← formatCodes rest)

/-- Runs a step with an empty buffer, which is given back afterwards. -/
def withFreshBuffer {α : Type} (step : Lab α) : Lab α := do
  let buffer := (← get).buffer
  modify fun s => { s with buffer := .empty }
  let result ← attempt step
  modify fun s => { s with buffer := buffer }
  lift result

/-- The marks in a picture by a detector that saw no picture before. -/
def readMotion : Lab (List Finding) := do
  match picture with
  | none => return []
  | some p => formatCodes (← withFreshBuffer (anyCodes p))

def readMarks : Lab (List Finding) := do
  match (← settings).method with
  | .layered => readLayers picture
  | .motion => readMotion picture

/-- The marks in straightened parts, which moving pictures leave to the detector. -/
def readTiltedMarks : Lab (List Finding) := do
  match (← settings).method with
  | .layered => readTilted picture
  | .motion => return []

end ArmStudio.Vision
