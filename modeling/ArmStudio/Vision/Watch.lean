import ArmStudio.Vision.Drawing
import ArmStudio.Vision.Light

/-!
# Watching

The camera is watched frame by frame. Each frame is searched for squares and marks; the mark that
counts is chosen, its place is remembered and drawn, and once a second the place is published.

* `Frame`, `Camera`: what the camera gives;
* `watch`: the whole of it. In layers a failure ends the work, in moving pictures the next frame is
  taken.
-/

namespace ArmStudio.Vision

open Number Script Lab

/-- What the camera gives, what the readers then answer, and the times that the clock then tells. -/
structure Frame where
  readable : Bool
  picture : Picture
  cues : Cues
  times : List Value
  stops : Bool

/-- A camera: the numbers under which it opens, all of them where none are given, and its frames. -/
structure Camera where
  numbers : Option (List Int)
  frames : List Frame

def Camera.opens (c : Camera) (number : Int) : Bool :=
  match c.numbers with
  | none => true
  | some l => l.contains number

def takeFrame (f : Frame) : Lab (Option Picture) := do
  record .frame
  load f.cues
  modify fun s => { s with clock := f.times.headD s.clock, times := f.times.tail }
  if f.stops then remember fun m => { m with running := false }
  return if f.readable then some f.picture else none

/-! ## The target -/

/-- What a frame shows of the target: the square around it, its place, and the mark it was last
known by. -/
structure Sight where
  square : Option (List Point)
  place : Option Position
  mark : Option Finding

def squaresAround (lib : Library) (center : Point) : List (List Point) → Lab (List (List Point))
  | [] => return []
  | square :: rest => do
    touch .inside
    let around := lib.contains (square.map Point.toSingle) center.plane
    let more ← squaresAround lib center rest
    return if around then square :: more else more

/-- The largest of the squares, the first of several. -/
def largestSquare : List (List Point) → Option (List Point × Double) → Lab (Option (List Point))
  | [], best => return best.map (·.1)
  | square :: rest, best => do
    let area ← area square
    match best with
    | some (_, most) =>
      largestSquare rest (if most.lt area then some (square, area) else best)
    | none => largestSquare rest (some (square, area))

/-- The mark that counts and its place. The first finding counts, unless another number is held:
then the mark that was last known stands. A mark in a square has the place of the largest square
around its middle. Without findings the last mark stands as long as it is held. -/
def chooseTarget (lib : Library) (locateMark locateAround : List Point → Position)
    (findings : List Finding) (squares : List (List Point)) (last : Option Finding) (held : Bool)
    (lock : Lock) : Lab Sight := do
  let stand : Sight := ⟨none, last.map fun m => locateMark (m.outline.getD []), last⟩
  match findings with
  | [] => return if held then stand else ⟨none, none, last⟩
  | first :: _ =>
    if held && lock.id ≠ some first.label.id then return stand
    else
      let corners := first.outline.getD []
      if corners.isEmpty && !squares.isEmpty then throw (.notIterable "numpy.float32")
      match ← largestSquare (← squaresAround lib (Point.mean corners) squares) none with
      | some square => return ⟨some square, some (locateAround square), some first⟩
      | none => return ⟨none, some (locateMark corners), some first⟩

def Position.pose (p : Position) : Pose :=
  if p.center.isSome then ⟨.real p.x, .real p.y, .real p.rotation⟩ else .zero

/-- The first finding with corners, those of its region where it has none. -/
def withCorners : List Finding → List Finding
  | [] => []
  | f :: rest => { f with outline := some (f.outline.getD (regionCorners f.position)) } :: rest

/-- What is carried from frame to frame: the mark last known, the number last found, the grid, and
the count of frames since a time. -/
structure Watch where
  mark : Option Finding
  number : Option Int
  grid : Option Picture
  count : Nat
  since : Value

structure Scene where
  squares : List (List Point)
  findings : List Finding
  zoom : Option (List Point)

variable (p : Picture)

def searchPicture : Lab (Except VisionError (List (List Point) × List Finding)) := do
  let squares ← submit (findSquares (some p))
  let marks ← submit (readMarks (some p))
  let tilted ← submit (readTiltedMarks (some p))
  return do
    let squares ← squares
    let marks ← marks
    return (squares, sortFindings (marks ++ (← tilted)))

def outlinesIn : Lab (List Contour) := do
  let blurred ← blur (← toGray p) 5
  contours (← edges blurred 50 150) 0

/-- The least area of a part that is searched on its own. -/
def zoomLeast : Double := 2000

def Scene.lockAt (s : Scene) (lock : Lock) (now : Value) : Lock :=
  match s.findings with
  | [] => lock
  | f :: _ => lock.update f.label.id now

/-- What counts as the height of a picture in which a mark is located. -/
def Method.depth (m : Method) (p : Picture) : Int :=
  match m with
  | layered => p.planes.getD 0
  | motion => p.height

def Sight.keep (sight : Sight) : Lab Unit :=
  match sight.place with
  | none => pure ()
  | some place => remember fun m => { m with seen := true, pose := place.pose }

/-- Takes the number of the first finding into the lock, and puts down the target of the frame. -/
def sightTarget (w : Watch) (p : Picture) (s : Scene) : Lab Sight := do
  let method := (← settings).method
  let lib ← library
  let now ← clock
  remember fun m => { m with seen := false, lock := s.lockAt m.lock now }
  let lock := (← memory).lock
  let sight ← chooseTarget lib (fun c => locate lib method.scale c p.width (method.depth p))
    (fun c => locateSquare lib method.scale c p.width p.height) s.findings s.squares w.mark
    (lock.holds now) lock
  sight.keep
  return sight

/-- Publishes the pose of the target with a number, when a report is due. -/
def publish (number : Option Int) : Lab Unit := do
  match ← reportTrack with
  | none => return
  | some pose =>
    let id := number.getD 0
    say ("QR id: " ++ toString id)
    record (.published ⟨id, pose⟩)

/-- Shows the frame on the console; on a screen its colours are converted first. -/
def present : Lab Unit := do
  if (← settings).onScreen then
    touch .convert
    record (.presented p.describe)
  else
    record (.presented p.describe)
    touch .present

def layGrid (p grid : Picture) : Lab Unit :=
  ask .blend [p.describe, decimal 0.7, grid.describe, decimal 0.3, .int 0]

def regionsOf (findings : List Finding) : List (Option (Option (List Int))) := findings.map fun f =>
    let (x, y, w, h) := f.position
    some (some [x, y, w, h])

def inPlanes : Lab Picture :=
  if p.planes.isSome then return p else toColour p

def withFrame (f : Frame) (missing : String) (work : Picture → Lab Unit) : Lab Unit := do
  match ← takeFrame f with
  | none => say missing
  | some p => work p

/-- Works through a frame: it is searched, its target is chosen, and the rest is done. A frame that
the search gives up is passed over. -/
def workFrame {α : Type} (skipped : α) (search : Lab (Option (Picture × Scene)))
    (choose : Picture → Scene → Lab Sight) (finish : Picture → Scene → Sight → Lab α) : Lab α := do
  match ← search with
  | none => return skipped
  | some (p, scene) => finish p scene (← choose p scene)

/-! ## In layers -/

variable (p : Picture)

def zoomScene (contours : List Contour) (squares : List (List Point))
    (findings : List Finding) : Lab Scene := do
  let settings ← settings
  if !settings.zooming || !findings.isEmpty then return ⟨squares, findings, none⟩
  else
    match ← zoomArea contours zoomLeast with
    | none => return ⟨squares, findings, none⟩
    | some area =>
      match ← zoomSearch (some p) (some area) (.real 1.5) with
      | none | some [] =>
        if settings.zoomWindow && settings.method == .layered then showZoom (some p) (some area)
        return ⟨squares, findings, some area⟩
      | some found => return ⟨squares, sortFindings found, none⟩

variable (w : Watch)

def countFrame : Lab Watch := do
  if w.count + 1 < 10 then return { w with count := w.count + 1 }
  else
    let now ← clock
    let rate : Except ArithError Value := do (Value.int (w.count + 1)).div (← now.sub w.since)
    let rate ← lift (rate.mapError .arithmetic)
    say ("FPS: " ++ tenths rate)
    return { w with count := 0, since := ← clock }

def drawScene (s : Scene) (square : Option (List Point)) : Lab Unit := do
  for f in s.findings do
    drawFinding p f
  for q in square.toList do
    drawSquare p q
  for area in s.zoom.toList do
    drawZoom p area

/-- Searches a frame in layers, and gives it in three planes with what it was found to hold. The
search may fail, which is noted. -/
def searchLayers : Lab (Option (Picture × Scene)) := do
  let p ← inPlanes p
  match ← searchPicture p with
  | .error e =>
    record (.noted "error" ("并行处理超时: " ++ e.message))
    return none
  | .ok (squares, findings) =>
    let contours ← outlinesIn p
    let scene ← zoomScene p contours squares findings
    let merged ← mergeClose (scene.squares.map some)
    return some (p, { scene with
      squares := merged.filterMap id
      findings := withCorners scene.findings })

/-- The number of the first finding, or else the one that was last found. -/
def numberIn (s : Scene) : Option Int := (s.findings.head?.map (·.label.id)).or w.number

def lightScene (s : Scene) : Lab Unit := do
  if !s.findings.isEmpty then discard (updateBrightness (some p) (regionsOf s.findings))

/-- Runs a step whose failure is noted. -/
def orNote (what : String) (step : Lab Unit) : Lab Unit := do
  match ← attempt step with
  | .ok _ => return
  | .error e => record (.noted "error" (what ++ ": " ++ e.message))

def finishLayers (p : Picture) (scene : Scene) (sight : Sight) : Lab Watch := do
  orNote "亮度调整失败" (lightScene p scene)
  for grid in w.grid.toList do
    layGrid p grid
  orNote "绘制结果失败" (drawScene p scene sight.square)
  for area in scene.zoom.toList do
    drawZoom p area
  publish (numberIn w scene)
  present p
  countFrame { w with mark := sight.mark, number := numberIn w scene }

/-- Works through a frame in layers. Failures behind the search end the work. -/
def layeredFrame (p : Picture) : Lab (Option Watch) :=
  workFrame none (searchLayers p) (sightTarget w) fun p scene sight => do
    return some (← finishLayers w p scene sight)

def layeredFrames : List Frame → Watch → Lab Unit
  | [], _ => say "Error: Unable to get frame"
  | f :: rest, w => withFrame f "Error: Unable to get frame" fun p => do
    match ← layeredFrame w p with
    | none => layeredFrames rest w
    | some w => if (← memory).running then layeredFrames rest w

variable (camera : Camera) (number : Int)

def openCamera : Lab Bool := do
  record (.opened number)
  touch .camera
  return camera.opens number

def firstFrame : List Frame → Lab (Option Picture)
  | [] => return none
  | f :: _ => takeFrame f

/-- Opens a camera in layers and takes its first frame, over which the grid is drawn. -/
def beginLayers : Lab (Option Watch) := do
  remember fun m => { m with running := true }
  let lib ← library
  say ("NumPy版本:" ++ lib.numbersVersion)
  say ("OpenCV版本:" ++ lib.picturesVersion)
  if !(← openCamera camera number) then
    say "Error: Unable to open camera"
    return none
  else
    say "Multi-Square Detection Program Started (Center Coordinate System)..."
    match ← firstFrame camera.frames with
    | none =>
      say "Error: Unable to get first frame"
      return none
    | some p =>
      let grid ← drawGrid p.width p.height
      return some ⟨none, none, grid, 0, ← clock⟩

def watchLayered : Lab Unit := do
  match ← beginLayers camera number with
  | none => return
  | some w =>
    match ← attempt (layeredFrames camera.frames.tail w) with
    | .ok _ => pure ()
    | .error e => record (.noted "critical" ("程序发生严重错误: " ++ e.message))
    record .dismissed
    record .released
    ask .closeWindows []
    record (.noted "info" "程序正常退出")

/-! ## In moving pictures -/

/-- The result of a step, or another one when it fails, which the console is told. -/
def orSay {α : Type} (what : String) (other : α) (step : Lab α) : Lab α := do
  match ← attempt step with
  | .ok a => return a
  | .error e =>
    say (what ++ " failed: " ++ e.message)
    return other

variable (p : Picture)

/-- Draws what a frame was found to hold; what cannot be drawn is passed over. -/
def drawEach (s : Scene) (square : Option (List Point)) : Lab Unit := do
  for f in s.findings do
    orSay "draw qr" () (drawFinding p f)
  for q in square.toList do
    orSay "draw square" () (drawSquare p q)
  for area in s.zoom.toList do
    discard (attempt (drawZoom p area))

/-- How the work goes on after a frame. -/
inductive Next where
  | goOn (w : Watch)
  | stop

/-- What a frame of moving pictures was found to hold; what fails is left out. -/
def sceneOf (squares : List (List Point)) (findings : List Finding) : Lab Scene := do
  let contours ← orSay "edge detection" [] (outlinesIn p)
  let scene ← orSay "find zoom area" ⟨squares, findings, none⟩
    (zoomScene p contours squares findings)
  let merged ← orSay "merge squares" [] (mergeClose (scene.squares.map some))
  return { scene with
    squares := merged.filterMap id
    findings := withCorners scene.findings }

def searchMotion : Lab (Option (Picture × Scene)) := do
  match ← attempt (inPlanes p) with
  | .error _ => return none
  | .ok p =>
    match ← attempt (searchPicture p) with
    | .error e =>
      say ("parallel processing failed: " ++ e.message)
      return none
    | .ok (.error e) =>
      say ("parallel processing timeout: " ++ e.message)
      return none
    | .ok (.ok (squares, findings)) => return some (p, ← sceneOf p squares findings)

def showSearched (s : Scene) : Lab Unit := do
  if (← settings).zoomWindow then discard (attempt (showZoom (some p) s.zoom))

def finishMotion (w : Watch) (p : Picture) (scene : Scene) (sight : Sight) : Lab Next := do
  orSay "brightness adjustment" () (lightScene p scene)
  for grid in w.grid.toList do
    orSay "add grid layer" () (layGrid p grid)
  drawEach p scene sight.square
  showSearched p scene
  publish (numberIn w scene)
  match ← attempt (present p) with
  | .ok _ => return .goOn { w with mark := sight.mark, number := numberIn w scene }
  | .error _ => return .stop

def motionFrame (w : Watch) (p : Picture) : Lab Next := workFrame (.goOn w) (searchMotion p)
    (fun p scene => orSay "determine display content" ⟨none, none, w.mark⟩ (sightTarget w p scene))
    (finishMotion w)

def motionFrames : List Frame → Watch → Lab Unit
  | [], _ => do if (← memory).running then say "无法获取帧"
  | f :: rest, w => do
    if (← memory).running then
      withFrame f "无法获取帧" fun p => do
        match ← motionFrame w p with
        | .goOn w => motionFrames rest w
        | .stop => return

def firstGrid (frames : List Frame) : Lab (Option Picture) := do
  match ← firstFrame frames with
  | none => throw .noFirstFrame
  | some p => drawGrid p.width p.height

variable (number : Int)

def beginMotion : Lab (Option Watch) := do
  say "program start"
  let opening : Lab Unit := do
    if !(← openCamera camera number) then throw .notOpened
  match ← attempt opening with
  | .error e =>
    say ("camera init failed: " ++ e.message)
    say ("资源清理失败: " ++ VisionError.noWorkers.message)
    return none
  | .ok _ =>
    let grid ← orSay "init grid layer" none (firstGrid camera.frames)
    return some ⟨none, none, grid, 0, ← clock⟩

def watchMotion : Lab Unit := do
  match ← beginMotion camera number with
  | none => return
  | some w =>
    motionFrames camera.frames.tail w
    record .dismissed
    record .released
    ask .closeWindows []
    say "program exited"

def watch : Lab Unit := do
  match (← settings).method with
  | .layered => watchLayered camera number
  | .motion => watchMotion camera number

end ArmStudio.Vision
