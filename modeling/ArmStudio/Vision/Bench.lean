import ArmStudio.Table
import ArmStudio.Vision.Tool
import ArmStudio.Vision.Track

/-!
# The bench

The bench is where pictures are looked at: a camera, a code reader and the picture library, which
answer from a script of cues, and what the program remembers between pictures.

* `Event`: what was asked, said, shown and sent;
* `Lab`: steps at the bench, which may fail; what was done before a failure stays.
-/

namespace ArmStudio.Vision

open Number Script

/-- The two ways of looking for marks: in layers of the picture, or along its motion. -/
inductive Method where
  | layered
  | motion
  deriving DecidableEq

def Method.scale : Method → Double
  | layered => 0.5
  | motion => 1.25

/-- An outline in a picture; the finder may give none. -/
abbrev Contour := Option (List Point)

structure Match where
  query : Nat
  train : Nat
  distance : Double

/-- What the readers answer next, in order, and which calls of which tools fail. -/
structure Cues where
  contours : List (List Contour)
  codes : List (Except String (List (Option Barcode)))
  flows : List (Single × Single)
  features : List (Option (List (Single × Single)))
  matchings : List (List (Match × Match))
  failures : List (String × Nat × String)

def Cues.none : Cues := ⟨[], [], [], [], [], []⟩

structure Target where
  id : Int
  pose : Pose
  deriving DecidableEq

inductive Event where
  | asked (tool : Tool) (args : List Document)
  | opened (camera : Int)
  | frame
  | said (text : String)
  | published (target : Target)
  | presented (picture : Document)
  | noted (level text : String)
  | dismissed
  | released

def decimal (x : Double) : Document := .text (x.fixedUnsignedZero 3)

def decimalValue (v : Value) : Document := decimal (v.toReal.toOption.getD .zero)

def targetKind : Int := 80

def Event.document : Event → Document
  | asked tool args => .list (.text tool.name :: args)
  | opened camera => .list [.text "VideoCapture", .int camera]
  | frame => .list [.text "frame"]
  | said text => .list [.text "say", .text text]
  | published target => .list [.text "task", .int targetKind, .record [
      ("x", decimalValue target.pose.x), ("y", decimalValue target.pose.y),
      ("rot", decimalValue target.pose.rotation), ("qr_id", .int target.id)]]
  | presented picture => .list [.text "set_image", picture]
  | noted level text => .list [.text "logger", .text level, .text text]
  | dismissed => .list [.text "shutdown"]
  | released => .list [.text "release"]

/-- The last pictures and the motions between them. -/
structure Buffer where
  pictures : List Picture
  motions : List (Single × Single)

def Buffer.empty : Buffer := ⟨[], []⟩

structure Memory where
  smoothing : List (Value × Value)
  security : Security
  lock : Lock
  brightness : Double
  track : Track
  seen : Bool
  pose : Pose
  zoomed : Option Picture
  running : Bool

def Memory.fresh : Memory := ⟨[], [], .free, 0, .empty, false, .zero, none, true⟩

/-- The device that works on pictures, if there is one; it may lack edges and equaliser. -/
structure Device where
  present : Bool
  equipped : Bool

/-- What can be set before the work starts. On a screen pictures are shown in its own colours. -/
structure Settings where
  method : Method
  device : Device
  thinning : Bool
  labelling : Bool
  zooming : Bool
  zoomWindow : Bool
  onScreen : Bool

/-- The bench and all that happened at it. The detector and the processor of moving pictures have a
buffer each; the layers are those made last. The clock tells a time, and then the next of the times
to come, if there is one. -/
structure Station where
  settings : Settings
  library : Library
  cues : Cues
  counts : Table Nat
  clock : Value
  times : List Value
  memory : Memory
  buffer : Buffer
  processor : Buffer
  layers : Option Layers
  events : Array Event
  printed : Array String

def Station.clockOn (s : Station) : Station :=
  { s with clock := s.times.headD s.clock, times := s.times.tail }

abbrev Lab := ExceptT VisionError (StateM Station)

namespace Lab

def record (e : Event) : Lab Unit := modify fun s => { s with events := s.events.push e }

def print (line : String) : Lab Unit := modify fun s => { s with printed := s.printed.push line }

def say (text : String) : Lab Unit := record (.said text)

def settings : Lab Settings := do return (← get).settings

def library : Lab Library := do return (← get).library

/-- Reads the clock, which then goes on. -/
def clock : Lab Value := do
  let s ← get
  set s.clockOn
  return s.clock

def memory : Lab Memory := do return (← get).memory

def remember (f : Memory → Memory) : Lab Unit := modify fun s => { s with memory := f s.memory }

def lift {α : Type} (r : Except VisionError α) : Lab α := ExceptT.mk (pure r)

/-- Uses a tool, without a record. It fails if its call of that number is to fail. -/
def touch (tool : Tool) : Lab Unit := do
  if tool.canFail then
    let count := ((← get).counts.find? tool.name).getD 0 + 1
    modify fun s => { s with counts := s.counts.insert tool.name count }
    match (← get).cues.failures.find? fun f => f.1 == tool.name && f.2.1 == count with
    | some (_, _, text) => throw (.tool text)
    | none => return

def ask (tool : Tool) (args : List Document) : Lab Unit := do
  record (.asked tool args)
  touch tool

def attempt {α : Type} (step : Lab α) : Lab (Except VisionError α) :=
  tryCatch (do return .ok (← step)) fun e => return .error e

def load (cues : Cues) : Lab Unit := modify fun s => { s with cues := cues, counts := .empty }

def nextContours : Lab (List Contour) := do
  let s ← get
  match s.cues.contours with
  | [] => return []
  | c :: rest =>
    set { s with cues := { s.cues with contours := rest } }
    return c

def readCodes : Lab (List (Option Barcode)) := do
  let s ← get
  match s.cues.codes with
  | [] => return []
  | c :: rest =>
    set { s with cues := { s.cues with codes := rest } }
    lift (c.mapError .tool)

def nextFlow : Lab (Single × Single) := do
  let s ← get
  match s.cues.flows with
  | [] => return (0, 0)
  | f :: rest =>
    set { s with cues := { s.cues with flows := rest } }
    return f

def nextFeatures : Lab (Option (List (Single × Single))) := do
  let s ← get
  match s.cues.features with
  | [] => return none
  | f :: rest =>
    set { s with cues := { s.cues with features := rest } }
    return f

def nextMatching : Lab (List (Match × Match)) := do
  let s ← get
  match s.cues.matchings with
  | [] => return []
  | m :: rest =>
    set { s with cues := { s.cues with matchings := rest } }
    return m

end Lab

/-! ## Asking for pictures and measures -/

def wholes (l : List Int) : Document := .list (l.map .int)

namespace Lab

def toGray (p : Picture) : Lab Picture := do
  ask .convert [p.describe, .int 6]
  return p.toGray

def toColour (p : Picture) : Lab Picture := do
  ask .convert [p.describe, .int 8]
  return p.toColour

def blur (p : Picture) (size : Int) : Lab Picture := do
  ask .blur [p.describe, wholes [size, size], .int 0]
  return p

def edges (p : Picture) (low high : Int) : Lab Picture := do
  ask .edges [p.describe, .int low, .int high]
  return p

def contours (p : Picture) (mode : Int) : Lab (List Contour) := do
  ask .contours [p.describe, .int mode, .int 2]
  nextContours

def measurable (p : List Point) : Bool := p.all fun q => match q.x with
    | .double _ => false
    | _ => true

def area (p : List Point) : Lab Double := do
  touch .area
  if measurable p then return (← library).area p else throw (.tool "unsupported kind of points")

def perimeter (p : List Point) : Lab Double := do
  touch .perimeter
  return (← library).perimeter p

def thin (p : List Point) (within : Double) : Lab (List Point) := do
  ask .thin [.nat p.length, decimal within, .flag true]
  if (← settings).thinning then return (← library).thin p within else return p

def tightBox (p : List Point) : Lab TurnedBox := do
  touch .tightBox
  return (← library).tightBox p

def straighten (p : Picture) (corners : List Point) (width height : Int) : Lab Picture := do
  let place (q : Point) : Document := .list [decimal q.x.toDouble, decimal q.y.toDouble]
  let goal : List Point :=
    [.single 0 0, .single (width - 1) 0, .single (width - 1) (height - 1), .single 0 (height - 1)]
  ask .perspective [.list (corners.map place), .list (goal.map place)]
  ask .warp [p.describe, .text "f64[3x3]", wholes [width, height]]
  return if width ≤ 0 || height ≤ 0 then p else p.resize width.toNat height.toNat

def resize (p : Picture) (width height : Nat) : Lab Picture := do
  ask .resize [p.describe, wholes [width, height]]
  return p.resize width height

def write (p : Picture) (text : String) (x y : Int) (size : Document) (colour : List Int)
    (thickness : Int) : Lab Unit :=
  ask .text [p.describe, .text text, wholes [x, y], .int 0, size, wholes colour, .int thickness]

def drawBox (p : Picture) (left top right bottom : Int) (colour : List Int) (thickness : Int) :
    Lab Unit :=
  ask .rectangle [p.describe, wholes [left, top], wholes [right, bottom], wholes colour,
    .int thickness]

def drawLine (p : Picture) (x1 y1 x2 y2 : Int) (colour : List Int) (thickness : Int) : Lab Unit :=
  ask .line [p.describe, wholes [x1, y1], wholes [x2, y2], wholes colour, .int thickness]

def drawDot (p : Picture) (x y : Int) (radius : Int) (colour : List Int) : Lab Unit :=
  ask .circle [p.describe, wholes [x, y], .int radius, wholes colour, .int (-1)]

def showIn (window : String) (p : Picture) : Lab Unit := ask .showWindow [.text window, p.describe]

end Lab

end ArmStudio.Vision
