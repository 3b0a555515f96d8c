import ArmStudio.Vision.Reader

/-!
# Zooming

A part of a picture that may hold a mark is searched on its own, and shown in a window.
-/

namespace ArmStudio.Vision

open Number Script Lab

def partEnd (size : Nat) (n : Int) : Nat :=
  if n < 0 then (n + size).toNat else min n.toNat size

def partFindings (left top : Int) (source : String) :
    List (Option Barcode) → Except VisionError (List Finding)
  | [] => .ok []
  | none :: rest => partFindings left top source rest
  | some b :: rest => do
    let (x, y, w, h) ← b.regionParts
    let text ← b.text
    let label ← Label.parseLines text
    return ⟨String.ofList text, b.kind, (x + left, y + top, w, h), none, none, label,
      .named source, none⟩ :: (← partFindings left top source rest)

def wholeOf (x : Double) : Int := x.truncate?.getD 0

/-- The left upper corner of the part around corners that is searched; none where it is empty. -/
def partOrigin (p : Picture) (corners : List Point) (factor : Value) :
    Except VisionError (Option (Int × Int)) := do
  if corners.isEmpty then throw (.dimension 1)
  let box := Box.around corners
  let left := wholeOf box.left
  let right := wholeOf box.right
  let top := wholeOf box.top
  let bottom := wholeOf box.bottom
  let widened (n : Int) : Except VisionError Int :=
    (do (← Value.mul (.int n) factor).truncate : Except ArithError Int).mapError .arithmetic
  let width ← widened (right - left)
  let height ← widened (bottom - top)
  let middle := (left + right) / 2
  let centre := (top + bottom) / 2
  let x1 := max 0 (middle - width / 2)
  let x2 := min (p.width : Int) (middle + width / 2)
  let y1 := max 0 (centre - height / 2)
  let y2 := min (p.height : Int) (centre + height / 2)
  let part := p.crop y1.toNat (partEnd p.height y2) x1.toNat (partEnd p.width x2)
  return if part.isEmpty then none else some (x1, y1)

def searchPart (p : Picture) (corners : List Point) (factor : Value) :
    Lab (Option (List Finding)) := do
  match ← lift (partOrigin p corners factor) with
  | none => return none
  | some (left, top) =>
    let codes ← readCodes
    return some (← lift (partFindings left top "zoomed" codes))

variable (picture : Option Picture) (corners : Option (List Point))

/-- The marks in a part of a picture; none where the search fails. -/
def zoomSearch (factor : Value) : Lab (Option (List Finding)) := do
  match picture, corners with
  | some p, some corners =>
    match ← attempt (searchPart p corners factor) with
    | .ok found => return found
    | .error e =>
      print ("Error in zoom_and_search: " ++ e.message)
      return none
  | _, _ => return none

def readZoomed : Lab (Option (List Finding)) := do
  match (← memory).zoomed with
  | none =>
    print "No zoomed frame available for analysis"
    return none
  | some _ =>
    let codes ← readCodes
    return some (← lift (partFindings 0 0 "zoomed_frame_analysis" codes))

def zoomWindow : String := "Zoomed Area"

def showBlank (text : String) : Lab Unit := do
  let blank := Picture.uniform 400 400 (some 3) 0
  write blank text 50 200 (.int 1) [255, 255, 255] 2
  showIn zoomWindow blank

def showPart (p : Picture) (corners : List Point) : Lab Unit := do
  let box ← tightBox corners
  let width := wholeOf box.width
  let height := wholeOf box.height
  let part ← straighten p (box.corners.map fun q => q.truncate.toSingle) width height
  if part.isEmpty then throw .emptyWarp
  let zoomed ← resize part 400 400
  remember fun m => { m with zoomed := some zoomed }
  let colour := [0, 255, 255]
  drawBox zoomed 0 0 399 399 colour 2
  write zoomed "ZOOMED VIEW" 10 30 (decimal 0.7) colour 2
  write zoomed "Zoom: 1.5x" 10 60 (decimal 0.5) colour 1
  showIn zoomWindow zoomed

/-- Shows the part of a picture around corners, or a window that says why there is none. -/
def showZoom : Lab Unit := do
  match picture, corners with
  | some p, some corners =>
    match ← attempt (showPart p corners) with
    | .ok _ => return
    | .error e =>
      print ("Error showing zoomed window: " ++ e.message)
      showBlank "Error in Zoom"
  | _, _ => showBlank "No Zoom Area"

end ArmStudio.Vision
