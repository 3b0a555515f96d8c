import ArmStudio.Screen.Widget
import ArmStudio.Vision.Watch

/-!
# The desk

All that is on the screen and behind it: the widgets and variables, one or more windows with their
links, the scripts of port, dialogs and camera, the files and the bench for pictures.

`Act` is an act on the desk, which may fail; what was done before it failed stays done.
-/

namespace ArmStudio.Screen

open Number Script

/-- A message for a window or a task for its link: the number of its kind, and its data. -/
abbrev Parcel := Int × Document

/-- A window: the numbers of the widgets and variables it changes, the panel that stands in it, its
link, and what waits for the window and for the link. Tasks of the panel may be under way. -/
structure App where
  window : Nat
  modeLabel : Nat
  monitorText : Nat
  portVariable : Nat
  portLabel : Nat
  progressVariable : Nat
  console : Console
  frame : Nat
  portOpen : Bool
  monitoring : Bool
  monitorShown : Bool
  stamping : Bool
  inbox : List Parcel
  tasks : List Parcel
  compiling : Option Bool
  watching : Option Bool

/-- The widgets of the panel that are changed later: its text, the menu of cameras, the label over
it and the picture. -/
structure Parts where
  text : Nat
  menu : Nat
  caption : Nat
  picture : Nat

structure Desk where
  layout : Bool
  widgets : Array Widget
  slots : Array Variable
  apps : Array (App × Parts)
  current : Option Nat
  polled : Option Nat
  dialogs : List Document
  readings : List Link.Answer
  writings : List Link.Answer
  ports : List String
  disk : Disk
  station : Vision.Station
  camera : Vision.Camera
  held : Bool
  events : Array Event
  printed : Array String

inductive ScreenError where
  | noItem
  | noFile (path : String)
  | startedTwice
  | notJoined (kind : String)
  | noScan (console : String)
  | link (cause : Link.LinkError)
  | notText (cause : Text.Utf8.DecodeError)
  deriving DecidableEq

def ScreenError.message : ScreenError → String
  | noItem => "list index out of range"
  | noFile path => s!"[Errno 2] No such file or directory: '{path}'"
  | startedTwice => "threads can only be started once"
  | notJoined kind => "can only concatenate str (not \"" ++ kind ++ "\") to str"
  | noScan console => s!"'{console}' object has no attribute '_refresh_cameras'"
  | link cause => cause.message
  | notText cause => cause.message

abbrev Act := ExceptT ScreenError (StateM Desk)

namespace Act

def record (e : Event) : Act Unit := modify fun d => { d with events := d.events.push e }

def recordLayout (e : Event) : Act Unit := do
  if (← get).layout then record e

def newVariable (value : Document) (counter : Bool) : Act Nat := do
  let d ← get
  set { d with slots := d.slots.push ⟨value, counter⟩ }
  return d.slots.size

def assign (id : Nat) (value : Document) : Act Unit := do
  let d ← get
  let counter := (d.slots[id]?.map (·.counter)).getD false
  set { d with slots := d.slots.modify id fun v => { v with value := value } }
  if counter || d.layout then record (.assigned id value)

def textOf (id : Nat) : Act String := do
  match ((← get).slots[id]?).map Variable.value with
  | some (.text s) => return s
  | _ => return ""

def textVariable (text : String) : Act Nat := do
  let id ← newVariable (.text "") false
  assign id (.text text)
  return id

def newWidget (w : Widget) (options : Options) : Act Nat := do
  let d ← get
  set { d with widgets := d.widgets.push w }
  recordLayout (.made d.widgets.size w.kind w.parent options)
  return d.widgets.size

variable (id : Nat)

def updateWidget (f : Widget → Widget) : Act Unit :=
  modify fun d => { d with widgets := d.widgets.modify id f }

def change (options : Options) : Act Unit := do
  record (.changed id options)
  match options with
  | [("text", .text s)] => updateWidget id fun w => { w with label := s }
  | _ => return

def insert (text : String) : Act Unit := do
  updateWidget id fun w => { w with content := w.content ++ text.toList }
  record (.inserted id text)

def contentOf : Act (List Char) := do
  return ((← get).widgets[id]?.map (·.content)).getD []

def dropFront (id count : Nat) : Act Unit := do
  updateWidget id fun w => { w with content := w.content.drop count }
  record (.deleted id count)

def lineLimit : Nat := 100

def lineChars : Nat → List Char → Nat
  | 0, _ => 0
  | _ + 1, [] => 0
  | n + 1, c :: rest => 1 + if c = '\n' then lineChars n rest else lineChars (n + 1) rest

def addLine (line : String) : Act Unit := do
  let content ← contentOf id
  let count := content.count '\n' + 1
  if lineLimit < count then dropFront id (lineChars (count - lineLimit) content)
  insert id (line ++ "\n")

def answer (name : String) (args : List Document) : Act Document := do
  record (.dialog name args)
  let d ← get
  match d.dialogs with
  | [] => return .text ""
  | a :: rest =>
    set { d with dialogs := rest }
    return a

def updateApp (f : App → App) : Act Unit :=
  modify fun d => { d with apps := d.apps.modify id fun (a, p) => (f a, p) }

def app : Act (App × Parts) := do
  match (← get).apps[id]? with
  | some a => return a
  | none => throw .noItem

def tell (m : Link.Message) : Act Unit :=
  updateApp id fun a => { a with inbox := a.inbox ++ [(m.kind, m.data)] }

def addTask (m : Link.Message) : Act Unit :=
  updateApp id fun a => { a with tasks := a.tasks ++ [(m.kind, m.data)] }

end Act

end ArmStudio.Screen
