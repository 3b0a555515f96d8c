import ArmStudio.Vision.Given

/-!
# Errands

What can be asked of the bench. A request is a record: what the errand needs, and the cues for the
readers. The answer is a document.
-/

namespace ArmStudio.Vision

open Number Script

inductive Errand where
  | smooth
  | order
  | cosine
  | border
  | clear
  | rectangle
  | merge
  | locateSquare
  | locate
  | label
  | zoom
  | readZoomed
  | readMarks
  | brighten
  | level
  | light
  | secure
  | isSecure
  | lock
  | holds
  | report
  | setRunning
  | squares
  | zoomArea
  | straighten
  | showZoom
  | showPicture
  | showLayers
  | grid
  | textDisplay
  | layers
  | save
  | labelFindings
  | readTilted
  | estimate
  | integrate
  | deblur
  | process
  | movingCodes
  | anyCodes
  | tiltedCodes
  | device
  | watch
  deriving DecidableEq

def Station.start (settings : Settings) : Station where
  settings := settings
  library := .plain
  cues := .none
  counts := .empty
  clock := .real .zero
  times := []
  memory := .fresh
  buffer := .empty
  processor := .empty
  layers := none
  events := if settings.device.present then
      #[.asked .deviceEdges [.int 50, .int 150], .asked .deviceEqualiser [decimal 2, wholes [8, 8]]]
    else #[]
  printed := #[]

def valueDocument : Value → Document
  | .flag b => .flag b
  | .int n => .int n
  | .real x => .real x

def sixDecimals (x : Double) : Document := .text (x.fixedUnsignedZero 6)

def levelsDocument (p : Picture) : Document := .text (String.join (p.levels.map (hexWide 2)))

/-- A place that smoothing takes in. -/
def placeOf? (d : Document) : Option (Value × Value) :=
  match itemsOf d with
  | [x, y] => some (valueOf x, valueOf y)
  | _ => none

def sortedCorners (l : List Point) : Document :=
  let before (a b : Point) : Bool := decide (a.x.truncate < b.x.truncate) ||
      (a.x.truncate == b.x.truncate && decide (a.y.truncate < b.y.truncate))
  .list ((sortBy before l).map fun p => wholes [p.x.truncate, p.y.truncate])

namespace Errand

def smoothPlace (center : Document) : Lab Document := do
  let (mean, history) := Vision.smooth (← Lab.memory).smoothing (placeOf? center)
  Lab.remember fun m => { m with smoothing := history }
  let mean ← Lab.lift (mean.mapError .arithmetic)
  return .record [
    ("result", .ofOption (fun (x, y) => .list [valueDocument x, valueDocument y]) mean),
    ("history", .nat history.length)]

def reportPose (pose : Pose) (seen : Bool) (now : Value) : Lab Document := do
  modify fun s => { s with clock := now }
  Lab.remember fun m => { m with seen := seen, pose := pose }
  let told ← reportTrack
  let s ← get
  let said := s.events.toList.filterMap fun e => match e with
    | .said text => some text
    | _ => none
  return .record [
    ("result", .ofOption (fun p => .record [("x", valueDocument p.x), ("y", valueDocument p.y),
      ("rot", valueDocument p.rotation)]) told),
    ("said", .texts said), ("history", .nat s.memory.track.poses.length),
    ("last", valueDocument s.memory.track.last)]

def codesDocument (codes : List (Option Barcode)) : Document :=
  .list (codes.map (.ofOption fun b => .text (String.ofList (b.text.toOption.getD []))))

def shapeDocument (p : Option Picture) : Document := .ofOption Picture.describe p

def showLast (asked : Bool) : Lab Document := do
  let made := (← get).layers
  for l in (if asked then made else none).toList do
    Vision.showLayers l
  return .null

def keepLayers (picture : Option Picture) : Lab Document := do
  let made ← match picture with
    | none => pure none
    | some p => do pure (some (← makeLayers p))
  modify fun s => { s with layers := made }
  return .ofOption Layers.document made

def processNext (p : Picture) : Lab Document := do
  let buffer ← bufferPicture (← get).processor p
  modify fun s => { s with processor := buffer }
  return shapeDocument (← processBuffer buffer)

def tryDevice (picture : Option Picture) : Lab Document := do
  let sent ← match picture with
    | none => pure none
    | some p => upload p
  let nothing ← Vision.process none
  let made ← Vision.process sent
  return .list [.flag sent.isNone, .flag nothing.isNone, .flag made.isNone, .flag true]

def watchCamera (camera : Camera) (number : Int) : Lab Document := do
  Vision.watch camera number
  let m ← Lab.memory
  let rotation := m.pose.rotation.toReal.toOption.getD .zero
  return .record [("detected", .flag m.seen), ("x", decimalValue m.pose.x),
    ("y", decimalValue m.pose.y), ("rot", .text (rotation.fixedUnsignedZero 2)),
    ("lock", .ofOption .int m.lock.id), ("brightness", decimal m.brightness),
    ("history", .nat m.track.poses.length)]

def perform (e : Errand) (request : Document) : Lab Document := do
  let given := fieldOf request
  let picture := pictureOf? (given "image")
  let kind := coordKindOf request
  let place (f : Library → Double → List Point → Int → Int → Position) : Lab Document := do
    return (f (← Lab.library) (← Lab.settings).method.scale ((pointsOf kind (given "pts")).getD [])
      (intOf (given "w")) (intOf (given "h"))).document
  let orDefault (name : String) (d : Value) : Value := (fieldOf? request name).elim d valueOf
  let real (v : Value) : Double := v.toReal.toOption.getD .zero
  match e with
  | smooth => smoothPlace (given "center")
  | order => return .ofOption pointsDocument (← Lab.lift (orderLoose kind (given "pts")))
  | cosine =>
    match itemsOf (given "pts") with
    | [a, b, corner] => return sixDecimals (← Lab.lift (cosineLoose a b corner))
    | _ => return .null
  | border =>
    return .flag (← Lab.lift (borderLoose (given "contour") (given "shape")
      (real (orDefault "margin" (.int 20)))))
  | clear =>
    return .flag (← isClear ((pointsOf kind (given "contour")).getD [])
      ((itemsOf (given "rects")).map intsOf?))
  | rectangle =>
    return .ofOption sortedCorners (← largestRectangle (outlinesOf (given "contours"))
      (real (orDefault "min_area" (.int 1000))))
  | merge =>
    match given "squares" with
    | .list l =>
      return .list ((← mergeClose (l.map (pointsOf kind))).map (.ofOption pointsDocument))
    | _ => return .null
  | locateSquare => place Vision.locateSquare
  | locate => place Vision.locate
  | label =>
    let l := Label.parse (textOf (given "data")).toList
    return .list [.int l.id, .text l.direction, .text l.secure]
  | zoom =>
    return .ofOption findingsDocument (← zoomSearch picture (pointsOf .whole (given "rect"))
      (orDefault "zoom" (.real 1.5)))
  | readZoomed =>
    if (fieldOf? request "image").isSome then Lab.remember fun m => { m with zoomed := picture }
    return .ofOption findingsDocument (← Vision.readZoomed)
  | readMarks => return findingsDocument (← Vision.readMarks picture)
  | brighten =>
    return .ofOption levelsDocument (← adjustBrightness picture (realOf (given "brightness")))
  | level => return .ofOption sixDecimals (← regionLevel picture (intsOf? (given "rect")))
  | light =>
    let p ← updateBrightness picture ((itemsOf (given "qrs")).map fun q =>
      (fieldOf? q "position").map intsOf?)
    return .record [("image", .ofOption levelsDocument p),
      ("brightness", sixDecimals (← Lab.memory).brightness)]
  | secure =>
    Lab.remember fun m =>
      { m with security := m.security.update (intOf (given "id")) (flagOf (given "red")) }
    return .list ((← Lab.memory).security.map fun (id, sign) => .list [.int id, .flag sign])
  | isSecure => return .flag ((← Lab.memory).security.isSecure (intOf (given "id")))
  | lock =>
    Lab.remember fun m =>
      { m with lock := m.lock.update (intOf (given "id")) (valueOf (given "time")) }
    let l := (← Lab.memory).lock
    return .list [.ofOption .int l.id, valueDocument l.since]
  | holds => return .flag ((← Lab.memory).lock.holds (valueOf (given "time")))
  | report =>
    let pose : Pose := match (itemsOf (given "at")).map valueOf with
      | [x, y, rotation] => ⟨x, y, rotation⟩
      | _ => .zero
    reportPose pose (flagOf (given "detected")) (valueOf (given "time"))
  | setRunning =>
    Lab.remember fun m => { m with running := flagOf (given "value") }
    return .flag (← Lab.memory).running
  | squares => return .list ((← findSquares picture).map pointsDocument)
  | zoomArea =>
    let options := given "kw"
    let least := (fieldOf? options "min_area").elim zoomLeast realOf
    match given "list", flagOf (fieldOf options "qr_detected") with
    | .list contours, false =>
      return .ofOption pointsDocument (← Vision.zoomArea (contours.map (pointsOf .whole)) least)
    | _, _ => return .null
  | straighten =>
    return shapeDocument (← straightenSquare picture ((pointsOf .single (given "pts")).getD []))
  | showZoom =>
    Vision.showZoom picture (pointsOf .whole (given "area"))
    return .null
  | showPicture =>
    Vision.showPicture (textOf (given "name")) picture
    return .null
  | showLayers => showLast (flagOf (given "last"))
  | grid => return shapeDocument (← drawGrid (intOf (given "w")) (intOf (given "h")))
  | textDisplay =>
    let size := orDefault "size" (.int 100)
    return (← drawLabel (textOf (given "data")) (size.truncate.toOption.getD 0)).describe
  | layers => keepLayers picture
  | save =>
    match picture, given "squares" with
    | some p, .list l => saveSquares (some p) (l.map (pointsOf .single)) "out"
    | _, _ => pure ()
    return .null
  | labelFindings =>
    Vision.labelFindings picture ((itemsOf (given "detections")).map traceOf)
    return .null
  | readTilted => return findingsDocument (← readTiltedMarks picture)
  | estimate =>
    match picture, pictureOf? (given "image2") with
    | some a, some b =>
      let (x, y) ← estimateMotion a b
      return .list [decimal x.toDouble, decimal y.toDouble]
    | _, _ => return .null
  | integrate =>
    return shapeDocument (← Vision.integrate ((itemsOf (given "frames")).map levelsOf)
      ((itemsOf (given "motions")).map pairOf))
  | deblur =>
    match picture with
    | some p => return (← Vision.deblur p (pairOf (given "motion"))).describe
    | none => return .null
  | process => picture.elim (return .null) processNext
  | movingCodes => picture.elim (return .null) fun p => do
    return codesDocument (← Vision.movingCodes p)
  | anyCodes => picture.elim (return .null) fun p => do
    return codesDocument (← Vision.anyCodes p)
  | tiltedCodes => picture.elim (return .null) fun p => do
    return codesDocument (← Vision.tiltedCodes p)
  | device => tryDevice picture
  | watch => watchCamera (cameraOf (given "camera")) (intOf (given "id"))

end Errand

/-- Runs an errand with the cues and the time of its request; events and lines of earlier ones are
dropped. -/
def Station.perform (s : Station) (e : Errand) (request : Document) :
    Except VisionError Document × Station :=
  let task : Lab Document := do
    Lab.load (cuesOf request)
    e.perform request
  task.run { s with
    clock := (numberOf? (fieldOf request "time")).getD s.clock
    events := #[]
    printed := #[] }

/-- What happened in an errand: its events, the lines printed and, of the processor, how many
pictures and motions it holds. -/
def Station.account (s : Station) (e : Errand) (done : Bool) : List (String × Document) :=
  [("log", .list (s.events.toList.map Event.document))] ++
    (if s.printed.isEmpty then [] else [("printed", .texts s.printed.toList)]) ++
    (if done && e == .process then
      [("buffered", .list [.nat s.processor.pictures.length, .nat s.processor.motions.length])]
    else [])

end ArmStudio.Vision
