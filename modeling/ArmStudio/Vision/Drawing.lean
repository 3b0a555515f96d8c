import ArmStudio.Vision.Report
import ArmStudio.Vision.Zoom

/-!
# Drawing

What is drawn over pictures and saved from them.

* `textLines`, `drawLabel`: a text broken into short lines;
* `labelFindings`: where findings come from;
* `straightenSquare`, `saveSquares`: squares cut out of a picture.
-/

namespace ArmStudio.Vision

open Number Script Text Lab

def gridSpacing : Nat := 50

/-- The colours of the axes, and of the other lines. -/
def colourX : List Int := [0, 0, 255]

def colourY : List Int := [0, 255, 0]

def colourZ : List Int := [255, 0, 0]

def colourGrid : List Int := [50, 50, 50]

def colourOrigin : List Int := [200, 200, 200]

def gridPlaces (length : Nat) : List Int :=
  ((List.range length).filter fun n => n % gridSpacing == 0).map Int.ofNat

/-- Whether a line has a label, by its distance from the middle. -/
def isLabelled (offset : Int) : Bool := offset.natAbs % (gridSpacing * 5) == 0

def gridLabel (axis : String) (scale : Double) (offset : Int) : String :=
  if offset = 0 then axis ++ "=0" else toString (wholeOf (.ofInt offset * scale)) ++ "mm"

/-- Draws the grid for a picture of a size; an empty picture has none. -/
def drawGrid (width height : Int) : Lab (Option Picture) := do
  if width ≤ 0 || height ≤ 0 then return none
  else
    let scale := (← settings).method.scale
    let grid := Picture.uniform height.toNat width.toNat (some 3) 0
    let cx := width / 2
    let cy := height / 2
    let label (text : String) (x y : Int) (colour : List Int) : Lab Unit :=
      write grid text x y (decimal 0.5) colour 1
    for y in gridPlaces height.toNat do
      let colour := if y = cy then colourY else colourGrid
      drawLine grid 0 y width y colour (if y = cy then 3 else 1)
      if isLabelled (y - cy) then
        label (gridLabel "Y" scale (y - cy)) 5 (if y < cy then y + 5 else y - 5) colour
    for x in gridPlaces width.toNat do
      let colour := if x = cx then colourX else colourGrid
      drawLine grid x 0 x height colour (if x = cx then 3 else 1)
      if isLabelled (x - cx) then
        label (gridLabel "X" scale (x - cx)) (if x < cx then x - 20 else x - 25) 20 colour
    ask .arrow [grid.describe, wholes [cx, cy], wholes [cx - 100, cy - 100], wholes colourZ,
      .int 2, .record [("tipLength", decimal 0.2)]]
    label "Z" (cx - 120) (cy - 110) colourZ
    ask .marker [grid.describe, wholes [cx, cy], wholes colourOrigin, .int 0, .int 20, .int 2]
    label "O(0,0)" (cx + 5) (cy - 10) colourOrigin
    label "X" (width - 30) (cy - 10) colourX
    label "Y" (cx + 10) 30 colourY
    return some grid

/-! ## Texts -/

def lineLength : Nat := 10

/-- Words filled into lines, behind the words of the line that is begun. A word that does not fit
ends the line, even an empty one. -/
def fillLines (begun : List Char) : List (List Char) → List (List Char)
  | [] => if begun.isEmpty then [] else [begun]
  | word :: rest =>
    if begun.length + word.length + 1 ≤ lineLength then
      fillLines (if begun.isEmpty then word else begun ++ ' ' :: word) rest
    else begun :: fillLines word rest

def textLines (text : List Char) : List (List Char) := fillLines [] (words text)

def drawLabel (text : String) (size : Int) : Lab Picture := do
  if size < 0 then throw .negativeSize
  let display := Picture.uniform size.toNat size.toNat (some 3) 0
  drawBox display 0 0 (size - 1) (size - 1) [100, 100, 100] 2
  let lines := textLines text.toList
  let share := (0.7 : Double) / .ofNat (max 1 lines.length)
  let font := decimal (if share.lt 0.5 then share else 0.5)
  let step := wholeOf (.ofInt size * 0.8 / .ofNat (max 3 lines.length))
  for (line, i) in lines.zipIdx do
    ask .textSize [.text (String.ofList line), .int 0, font, .int 1]
    let x := (size - 10 * line.length) / 2
    let y := size / 2 - (((lines.length / 2 : Nat) : Int) - i) * step
    write display (String.ofList line) x y font [0, 0, 0] 2
    write display (String.ofList line) x y font [0, 255, 0] 1
  return display

/-! ## Where findings come from -/

def detectionColour (detection : String) : List Int :=
  match detection with
  | "standard_qr" => [0, 255, 0]
  | "tilted_qr" => [0, 255, 255]
  | "zoomed_qr" => [255, 165, 0]
  | "square" => [255, 0, 255]
  | "zoom_area" => [0, 165, 255]
  | _ => [255, 255, 255]

structure Trace where
  position : Option (Option (List Int))
  detection : Option String
  source : Option String

variable (picture : Option Picture)

def labelFindings (findings : List Trace) : Lab Unit := do
  if !(← settings).labelling then return
  match picture with
  | none => return
  | some p =>
    for f in findings do
      match f.position with
      | none => pure ()
      | some none => throw (.notSpread "NoneType")
      | some (some region) =>
        let (x, y, _, _) ← lift (spreadRegion region)
        let detection := f.detection.getD "unknown"
        let colour := detectionColour detection
        write p detection.toUpper x (y - 20) (decimal 0.5) colour 1
        match f.source with
        | none => pure ()
        | some source => write p ("Source: " ++ source) x (y - 5) (decimal 0.4) colour 1

/-! ## Squares cut out -/

def cornerDistance (a b : Point) : Double :=
  let dx := (a.sub b).x.toDouble
  let dy := (a.sub b).y.toDouble
  (dx * dx + dy * dy).sqrt

def straightenSquare (corners : List Point) : Lab (Option Picture) := do
  match picture, orderCorners corners with
  | some p, some [upperLeft, upperRight, lowerRight, lowerLeft] =>
    let length (a b : Point) : Int := wholeOf (cornerDistance a b)
    let width := max (length lowerRight lowerLeft) (length upperRight upperLeft)
    let height := max (length upperRight lowerRight) (length upperLeft lowerLeft)
    return some (← straighten p [upperLeft, upperRight, lowerRight, lowerLeft] width height)
  | _, _ => return none

def saveSquares (squares : List (Option (List Point)))
    (folder : String) : Lab Unit := do
  let stamp := "19700101_" ++ timeOfDay "" (← clock)
  for (square, i) in squares.zipIdx do
    match ← straightenSquare picture (square.getD []) with
    | none => pure ()
    | some p =>
      let path := folder ++ "/square_" ++ stamp ++ "_" ++ toString (i + 1) ++ ".jpg"
      ask .save [.text path, p.describe]
      print s!"Square {i + 1} saved as: {path}"
      showIn s!"Square {i + 1}" p

def showPicture (window : String) (p : Option Picture) : Lab Unit := do
  ask .showWindow [.text window, .ofOption Picture.describe p]
  ask .waitKey [.int 0]
  ask .closeWindows []

/-! ## Findings in a frame -/

variable (p : Picture)

def drawFinding (f : Finding) : Lab Unit := do
  match f.frame with
  | some frame =>
    let place (q : Point) : Document := .list [decimal q.x.toDouble, decimal q.y.toDouble]
    ask .polylines [p.describe, .list [.list (frame.map place)], .flag true,
      wholes (detectionColour "tilted_qr"), .int 2]
  | none =>
    let (x, y, w, h) := f.position
    drawBox p x y (x + w) (y + h) (detectionColour "standard_qr") 2
  for q in f.outline.getD [] do
    drawDot p q.x.truncate q.y.truncate 5 [0, 0, 255]

def drawOutline (corners : List Point) (index : Int) (colour : List Int) : Lab Unit :=
  let place (q : Point) : Document := .list [decimal q.x.toDouble, decimal q.y.toDouble]
  ask .drawContours [p.describe, .list [.list (corners.map fun q => place q.truncate)],
    .int index, wholes colour, .int 2]

/-- Draws a square with its place. The place is that in a picture as high as it has planes. -/
def drawSquare (square : List Point) : Lab Unit := do
  let colour := detectionColour "square"
  drawOutline p square (-1) colour
  for q in square do
    drawDot p q.x.truncate q.y.truncate 6 colour
  let place := locateSquare (← library) (← settings).method.scale square p.width (p.planes.getD 0)
  let center := place.center.getD default
  let x := wholeOf (center.x.toDouble - 100)
  let y := wholeOf (center.y.toDouble + 80)
  drawBox p (x - 5) (y - 50) (x + 220) (y + 30) [40, 40, 40] (-1)
  let line (text : String) (y : Int) (colour : List Int) : Lab Unit :=
    write p text x y (decimal 0.5) colour 1
  line ("X: " ++ place.x.fixed 1 ++ "mm") (y - 20) [0, 255, 255]
  line ("Y: " ++ place.y.fixed 1 ++ "mm") y [200, 100, 255]
  line ("Rot: " ++ place.rotation.fixed 1 ++ "°") (y + 20) [255, 200, 0]

def drawZoom (corners : List Point) : Lab Unit := do
  let colour := detectionColour "zoom_area"
  drawOutline p corners 0 colour
  let first := corners.headD default
  write p "ZOOM AREA" first.x.truncate first.y.truncate (decimal 0.7) colour 2

end ArmStudio.Vision
