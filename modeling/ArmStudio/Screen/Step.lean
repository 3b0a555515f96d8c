import ArmStudio.Screen.Work

/-!
# Steps

What a user, the link, the clock or the world does with the desk, one step after the other.
-/

namespace ArmStudio.Screen

open Number Script Act

/-- A step. Widgets are given by their number among those of their kind that are there. -/
inductive Step where
  | start
  | main
  | press (text : String) (n : Nat)
  | enter (n : Nat) (text : String)
  | click (n : Nat)
  | menu (n : Nat)
  | choose (n : Nat) (item : String)
  | kernel
  | poll
  | console (name : String)
  | message (kind : Int) (data : Document)
  | monitor (count : Nat)
  | scanCameras
  | texts
  | files
  | saved (name : String)
  | hold (held : Bool)
  | ports (names : List String)
  | readings (answers : List Link.Answer)
  | time (clock : Value)
  | camera (c : Vision.Camera)

def folder : String := "$DIR"

def Desk.empty (layout : Bool) (dialogs : List Document) (files : List (String × List UInt8))
    (readings writings : List Link.Answer) (ports : List String) (station : Vision.Station)
    (camera : Vision.Camera) : Desk where
  layout := layout
  widgets := #[]
  slots := #[]
  apps := #[]
  current := none
  polled := none
  dialogs := dialogs
  readings := readings
  writings := writings
  ports := ports
  disk := files.foldl (fun d (name, content) => d.write (folder ++ "/" ++ name) content)
    ⟨.empty, ["", folder]⟩
  station := station
  camera := camera
  held := false
  events := #[]
  printed := #[]

/-- The number of a widget among those of a kind that are there and pass a test. -/
def nth (kind : Kind) (test : Widget → Bool) (n : Nat) : Act (Nat × Widget) := do
  let live := (← get).widgets.toList.zipIdx.filter fun (w, _) =>
    w.alive && w.kind == kind && test w
  match live[n]? with
  | some (w, id) => return (id, w)
  | none => throw .noItem

def currentApp : Act Nat := do
  match (← get).current with
  | some app => return app
  | none => throw .noItem

/-- Makes a window, which steps act on if they act on none yet or if it is asked for. -/
def openWindow (takeOver : Bool) : Act Unit := do
  let app ← makeWindow
  modify fun d => { d with
    current := if takeOver || d.current.isNone then some app else d.current }

def listFiles (d : Disk) : List String :=
  let start := (folder ++ "/").toList
  Vision.sortBy (fun (a b : String) => decide (a < b)) (d.files.entries.filterMap fun (path, _) =>
    if start.isPrefixOf path.toList then some (String.ofList (path.toList.drop start.length))
    else none)

def Step.run : Step → Act (Option Document)
  | start => do
    openWindow true
    return none
  | main => do
    openWindow false
    record .looping
    return none
  | press text n => do
    let (_, w) ← nth .button (fun w => w.label == text) n
    match w.action with
    | some action => action.run w.app
    | none => pure ()
    return none
  | enter n text => do
    let (id, w) ← nth .entry (fun _ => true) n
    assign (w.slot.getD 0) (.text text)
    change id [("bg", .text ((w.field.getD .number).colour text))]
    return none
  | click n => do
    let (id, w) ← nth .menu (fun _ => true) n
    if w.listsPorts then
      let ports := (← get).ports
      updateWidget id fun w => { w with items := noPort :: ports }
    return none
  | menu n => do
    let (_, w) ← nth .menu (fun _ => true) n
    return some (.texts w.items)
  | choose n item => do
    let (_, w) ← nth .menu (fun _ => true) n
    if !w.items.contains item then throw .noItem
    assign (w.slot.getD 0) (.text item)
    return some (.text item)
  | kernel => do
    let app ← currentApp
    runTasks app (← Act.app app).1.tasks
    return none
  | poll => do
    match (← get).polled with
    | some app => takeMessages app (← Act.app app).1.inbox
    | none => throw .noItem
    return none
  | console name => do
    let app ← currentApp
    match Console.ofName? name with
    | some c => setConsole app c
    | none => pure ()
    return some (.text (← Act.app app).1.console.name)
  | message kind data => do
    updateApp (← currentApp) fun a => { a with inbox := a.inbox ++ [(kind, data)] }
    return none
  | monitor count => do
    let app ← currentApp
    for n in List.range count do
      monitorLine app (toString n)
    return none
  | scanCameras => do
    Screen.scanCameras (← currentApp)
    return none
  | texts => do
    let live := (← get).widgets.toList.filter fun w => w.alive && w.kind == .text
    return some (.texts (live.map fun w => String.ofList w.content))
  | files => do return some (.texts (listFiles (← get).disk))
  | saved name => do
    match (← get).disk.read? (folder ++ "/" ++ name) with
    | some b => return some (.text (hexBytes b))
    | none => throw (.noFile (folder ++ "/" ++ name))
  | hold held => do
    modify fun d => { d with held := held }
    return none
  | ports names => do
    modify fun d => { d with ports := names }
    return none
  | readings answers => do
    modify fun d => { d with readings := d.readings ++ answers }
    return none
  | time clock => do
    modify fun d => { d with station := { d.station with clock := clock } }
    return none
  | camera c => do
    modify fun d => { d with camera := c }
    return none

/-- Does a step, after dropping what was seen of earlier ones. -/
def Desk.step (d : Desk) (s : Step) : Except ScreenError (Option Document) × Desk :=
  s.run.run { d with events := #[], printed := #[] }

/-- What is seen of a step: its events and the lines printed. -/
def Desk.account (d : Desk) : List (String × Document) :=
  [("log", .list (d.events.toList.map Event.document))] ++
    if d.printed.isEmpty then [] else [("printed", .texts d.printed.toList)]

end ArmStudio.Screen
