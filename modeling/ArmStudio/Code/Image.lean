import ArmStudio.Code.Assembly
import ArmStudio.Digest

/-!
# Byte files

A byte file holds its own size (4 bytes), the number of constants (2), the constants (4 each), the
number of global variables (2), the code and the 16-byte digest of all that.

Labels are resolved in one pass: a jump to a label that is not placed yet leaves `ffff`, which is
overwritten when the label is placed.
-/

namespace ArmStudio.Code

open Script

inductive LinkError where
  | realConstant
  | undefinedLabel (name : String)
  | notALabel
  | noOperand
  | encode (cause : EncodeError)
  deriving DecidableEq

namespace LinkError

def message : LinkError → String
  | realConstant => "'float' object has no attribute 'value'"
  | undefinedLabel name => s!"Undefined label: {name}"
  | notALabel => "Invalid label type"
  | noOperand => "tuple index out of range"
  | encode cause => cause.message

end LinkError

/-- A byte file under way: its bytes, where the code starts, the labels and, for each label that
is awaited, the places to be overwritten. -/
structure Linker where
  bytes : Array UInt8
  codeStart : Nat
  labels : Labels
  awaited : Table (List Nat)

namespace Linker

def patch (bytes : Array UInt8) (value : Int) (pos : Nat) : Array UInt8 :=
  (bytes.setIfInBounds pos (value % 256).toNat.toUInt8).setIfInBounds (pos + 1)
    (value / 256 % 256).toNat.toUInt8

def placeLabel (l : Linker) (name : String) : Except LinkError Linker :=
  let here : Int := l.bytes.size - l.codeStart
  match l.labels.setPlace? name here with
  | none => .error (.undefinedLabel name)
  | some labels =>
    let places := (l.awaited.find? name).getD []
    .ok { l with labels := labels, bytes := places.foldl (patch · here ·) l.bytes }

def addressOf (l : Linker) (name : String) : Int × Linker :=
  let place := l.labels.place name
  if 0 ≤ place then (place, l)
  else
    let places := (l.awaited.find? name).getD [] ++ [l.bytes.size + 1]
    (0xffff, { l with awaited := l.awaited.insert name places })

def append (l : Linker) (bytes : List UInt8) : Linker :=
  { l with bytes := bytes.foldl Array.push l.bytes }

/-- Takes in one instruction; what was done before an error stays done. -/
def take (l : Linker) (i : Instr) : Linker × Option LinkError :=
  if i.op = .label then
    match i.args with
    | .label name _ :: _ =>
      match l.placeLabel name with
      | .ok l => (l, none)
      | .error e => (l, some e)
    | [] => (l, some .noOperand)
    | _ => (l, some .notALabel)
  else if i.op.isJump then
    match i.args with
    | .label name _ :: rest =>
      let (address, l) := l.addressOf name
      match Instr.bytes ⟨i.op, .label name (some address) :: rest⟩ with
      | .ok bytes => (l.append bytes, none)
      | .error e => (l, some (.encode e))
    | [] => (l, some .noOperand)
    | _ => (l, some .notALabel)
  else match i.bytes with
    | .ok bytes => (l.append bytes, none)
    | .error e => (l, some (.encode e))

def takeAll (l : Linker) : List Instr → Linker × Option LinkError
  | [] => (l, none)
  | i :: rest =>
    match l.take i with
    | (l, none) => l.takeAll rest
    | (l, some e) => (l, some e)

end Linker

def constantBytes : List Value → Except LinkError (List UInt8)
  | [] => .ok []
  | v :: rest =>
    match v.toInt? with
    | none => .error .realConstant
    | some n => do return intBytes 4 n ++ (← constantBytes rest)

structure Linked where
  file : Except LinkError (List UInt8)
  labels : Labels
  awaited : Table (List Nat)

def complete (bytes : Array UInt8) : List UInt8 :=
  let size : Int := bytes.size + 16
  let body := intBytes 4 size ++ bytes.toList.drop 4
  body ++ Digest.md5 body

def link (a : Assembly) (labels : Labels) : Linked :=
  match constantBytes a.constants with
  | .error e => ⟨.error e, labels, .empty⟩
  | .ok constants =>
    let head := List.replicate 4 0xff ++ intBytes 2 a.constants.length ++ constants ++
      intBytes 2 a.globalSize
    let start : Linker := ⟨head.toArray, head.length, labels, .empty⟩
    let (l, error?) := start.takeAll (a.startUp ++ a.code)
    ⟨match error? with
      | some e => .error e
      | none => .ok (complete l.bytes),
      l.labels, l.awaited⟩

end ArmStudio.Code
