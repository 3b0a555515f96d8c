import ArmStudio.Document
import ArmStudio.Script.Value

/-!
# Messages

Messages go both ways between the panel and the link: tasks to the link, and what is to be shown
to the panel. Every kind has a number.
-/

namespace ArmStudio.Link

open Number Script

inductive ShapeError where
  | notSix
  | notFours
  deriving DecidableEq

def ShapeError.message : ShapeError → String
  | notSix => "joint_coord_list must contain exactly 6 elements"
  | notFours => "buffer size must be a multiple of element size"

/-- Six numbers: a place, an inclination and two servo angles, or six joint angles. -/
structure Coordinates where
  first : Value
  second : Value
  third : Value
  fourth : Value
  fifth : Value
  sixth : Value
  deriving DecidableEq

namespace Coordinates

def toList (c : Coordinates) : List Value :=
  [c.first, c.second, c.third, c.fourth, c.fifth, c.sixth]

def ofList : List Value → Except ShapeError Coordinates
  | [a, b, c, d, e, f] => .ok ⟨a, b, c, d, e, f⟩
  | _ => .error .notSix

end Coordinates

inductive Message where
  | errorWindow (text : String)
  | infoWindow (text : String)
  | enableMonitor
  | disableMonitor
  | openPort (text : String)
  | progress (percent : Value)
  | reset
  | stop
  | openGripper
  | closeGripper
  | movePose (target : Coordinates)
  | moveJoints (target : Coordinates)
  | setSpeed (percents : Coordinates)
  | readState
  | showText (text : String)
  | writeFlash (address : Int) (path : String)
  | readFlash (address length : Int) (path : String)
  | cleanFlash
  | track (x y rotation : Value) (id : Value)
  | other (kind : Int)
  deriving DecidableEq

namespace Message

def kind : Message → Int
  | errorWindow _ => 0
  | infoWindow _ => 1
  | enableMonitor => 2
  | disableMonitor => 3
  | openPort _ => 10
  | progress _ => 20
  | reset => 30
  | stop => 31
  | openGripper => 32
  | closeGripper => 33
  | movePose _ => 40
  | moveJoints _ => 41
  | setSpeed _ => 42
  | readState => 50
  | showText _ => 60
  | writeFlash .. => 70
  | readFlash .. => 71
  | cleanFlash => 72
  | track .. => 80
  | other kind => kind

def valueDocument : Value → Document
  | .flag b => .flag b
  | .int n => .int n
  | .real x => .real x

def speedNames : List String :=
  ["m1_speed", "m2_speed", "m3_speed", "m4_speed", "s1_speed", "s2_speed"]

def data : Message → Document
  | errorWindow text | infoWindow text | openPort text | showText text => .text text
  | progress percent => valueDocument percent
  | movePose c | moveJoints c => .list (c.toList.map valueDocument)
  | setSpeed c => .record (speedNames.zip (c.toList.map valueDocument))
  | writeFlash address path => .record [("file_path", .text path), ("address", .int address)]
  | readFlash address length path =>
    .record [("save_path", .text path), ("address", .int address), ("length", .int length)]
  | track x y rotation id =>
    .record [("x", valueDocument x), ("y", valueDocument y), ("rot", valueDocument rotation),
      ("qr_id", valueDocument id)]
  | _ => .null

inductive DataError where
  | absent
  | missing (field : String)
  | unfit
  deriving DecidableEq

def DataError.message : DataError → String
  | absent => "'NoneType' object is not subscriptable"
  | missing field => s!"'{field}'"
  | unfit => "unsupported data"

def field (data : Document) (name : String) : Except DataError Document :=
  match data with
  | .record fields =>
    match fields.lookup name with
    | some d => .ok d
    | none => .error (.missing name)
  | .null => .error .absent
  | _ => .error .unfit

def numberOf : Document → Except DataError Value
  | .flag b => .ok (.flag b)
  | .int n => .ok (.int n)
  | .real x => .ok (.real x)
  | _ => .error .unfit

def intOf : Document → Except DataError Int
  | .flag b => .ok (if b then 1 else 0)
  | .int n => .ok n
  | _ => .error .unfit

def textOf : Document → Except DataError String
  | .text s => .ok s
  | _ => .error .unfit

def number (data : Document) (name : String) : Except DataError Value :=
  field data name >>= numberOf

def coordinates (values : List Value) : Except DataError Coordinates :=
  (Coordinates.ofList values).mapError fun _ => .unfit

/-- The task of a kind with these data; fields are looked up in a fixed order. Data of messages
that are no tasks are not looked at. -/
def ofTask (kind : Int) (data : Document) : Except DataError Message :=
  match kind with
  | 10 => do return openPort (← textOf data)
  | 30 => .ok reset
  | 31 => .ok stop
  | 32 => .ok openGripper
  | 33 => .ok closeGripper
  | 40 => do return movePose (← list data)
  | 41 => do return moveJoints (← list data)
  | 42 => do return setSpeed (← coordinates (← speedNames.mapM (number data)))
  | 50 => .ok readState
  | 70 => do
    let address ← field data "address"
    let path ← field data "file_path"
    return writeFlash (← intOf address) (← textOf path)
  | 71 => do
    let address ← field data "address"
    let length ← field data "length"
    let path ← field data "save_path"
    return readFlash (← intOf address) (← intOf length) (← textOf path)
  | 72 => .ok cleanFlash
  | 80 => do
    let x ← number data "x"
    let y ← number data "y"
    let rotation ← number data "rot"
    let id ← number data "qr_id"
    return track x y rotation id
  | _ => .ok (other kind)
where
  list : Document → Except DataError Coordinates
    | .list items => do coordinates (← items.mapM numberOf)
    | _ => .error .unfit

end Message

end ArmStudio.Link
