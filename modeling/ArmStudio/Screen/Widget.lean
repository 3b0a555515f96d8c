import ArmStudio.Link.Wire
import ArmStudio.Panel.Field

/-!
# Widgets

The window is made of widgets, numbered in the order in which they are made, and of variables, which
have numbers of their own.

* `Kind`: the kinds of widgets, by the names they are shown under;
* `Event`: what is seen of the window.
-/

namespace ArmStudio.Screen

open Number Script

inductive Console where
  | blank
  | immediate
  | flash
  | program
  | visual
  deriving DecidableEq

namespace Console

def name : Console → String
  | blank => "BlankConsole"
  | immediate => "ImmConsole"
  | flash => "RWFlashConsole"
  | program => "ProgramConsole"
  | visual => "VisualConsole"

def ofName? (name : String) : Option Console :=
  [immediate, flash, program, visual].find? fun c => c.name == name

end Console

inductive Kind where
  | window
  | frame
  | label
  | button
  | entry
  | text
  | menu
  | progress
  | commands
  | monitor
  | ports
  | messages
  | console (c : Console)
  deriving DecidableEq

namespace Kind

def name : Kind → String
  | window => "Application"
  | frame => "Frame"
  | label => "Label"
  | button => "Button"
  | entry => "Entry"
  | text => "Text"
  | menu => "OptionMenu"
  | progress => "Progressbar"
  | commands => "CommandButtons"
  | monitor => "PortMonitor"
  | ports => "PortSelect"
  | messages => "MessageChunk"
  | console c => c.name

def isFrame : Kind → Bool
  | frame | commands | monitor | ports | messages | console _ => true
  | _ => false

end Kind

/-- What a button does. Variables and widgets are given by number. -/
inductive Action where
  | openConsole (title : String) (c : Console)
  | toggleMonitor (button : Nat)
  | clearMonitor
  | toggleStamp
  | openPort
  | task (m : Link.Message)
  | setSpeed (slots : List Nat)
  | movePose (slots : List Nat)
  | moveJoints (slots : List Nat)
  | eraseFlash
  | chooseFile (slot : Nat) (title name pattern : String)
  | chooseTarget (slot : Nat)
  | writeFlash (address path : Nat)
  | readFlash (address length path : Nat)
  | compile (source : Nat) (download : Option Nat)
  | download (path : Nat)
  | startVision (camera : Nat)
  | stopVision

/-- A widget: its kind and place, the text on it, what it does, the variable it shows, what may be
typed, the items of a menu and whether they are the ports, and the text in it. -/
structure Widget where
  kind : Kind
  app : Nat
  parent : Option Nat
  alive : Bool
  label : String
  action : Option Action
  slot : Option Nat
  field : Option Panel.FieldKind
  items : List String
  listsPorts : Bool
  content : List Char

/-- A variable; changes of counters are always seen. -/
structure Variable where
  value : Document
  counter : Bool

abbrev Options := List (String × Document)

inductive Event where
  | made (id : Nat) (kind : Kind) (parent : Option Nat) (options : Options)
  | placed (id : Nat) (options : Options)
  | assigned (slot : Nat) (value : Document)
  | changed (id : Nat) (options : Options)
  | inserted (id : Nat) (text : String)
  | deleted (id count : Nat)
  | destroyed (id : Nat)
  | titled (text : String)
  | sized (text : String)
  | looping
  | dialog (name : String) (args : List Document)
  | port (e : Link.Event)

def hexBytes (b : List UInt8) : String := String.join (b.map fun x => hexWide 2 x.toNat)

def portDocument : Link.Event → Document
  | .wrote b => .list [.text "w", .text (hexBytes b)]
  | .asked size => .list [.text "r", .nat size]
  | .opened port baud timeout =>
    .list [.text "open", .text port, .int baud, Link.Message.valueDocument timeout]
  | .closed => .list [.text "close"]
  | .monitored text => .list [.text "mon", .text text]
  | .told m => .list [.text "msg", .int m.kind, m.data]

def Event.document : Event → Document
  | made id kind parent options =>
    .list [.text "new", .nat id, .text kind.name, .ofOption .nat parent, .record options]
  | placed id options => .list [.text "grid", .nat id, .record options]
  | assigned slot value => .list [.text "set", .nat slot, value]
  | changed id options => .list [.text "config", .nat id, .record options]
  | inserted id text => .list [.text "insert", .nat id, .text text]
  | deleted id count => .list [.text "delete", .nat id, .nat count]
  | destroyed id => .list [.text "destroy", .nat id]
  | titled text => .list [.text "title", .text text]
  | sized text => .list [.text "geometry", .text text]
  | looping => .list [.text "mainloop"]
  | dialog name args => .list (.text name :: args)
  | port e => portDocument e

end ArmStudio.Screen
