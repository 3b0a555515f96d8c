import ArmStudio.Vision.Fault
import ArmStudio.Vision.Point

/-!
# Marks

A mark is a square code found in a picture. Its text has lines: a number, a direction and a word on
security.
-/

namespace ArmStudio.Vision

open Number Text

/-- A code as the reader gives it. The region and the outline may be missing, or be there and hold
nothing. -/
structure Barcode where
  data : List UInt8
  kind : String
  region : Option (Option (List Int))
  outline : Option (Option (List Point))

inductive Source where
  | layer (index : Nat)
  | named (text : String)
  deriving DecidableEq

/-- The lines of a mark's text. -/
structure Label where
  id : Int
  direction : String
  secure : String
  deriving DecidableEq

def linesOf : List Char → List (List Char)
  | [] => [[]]
  | c :: rest =>
    if c = '\n' then [] :: linesOf rest
    else
      match linesOf rest with
      | [] => [[c]]
      | line :: more => (c :: line) :: more

namespace Label

def unknown : Label := ⟨0, "unknown", "unknown"⟩

def line (f : List Char → List Char) (lines : List (List Char)) (n : Nat) : String :=
  match lines[n]? with
  | some l => String.ofList (f l)
  | none => "unknown"

/-- The label in a text; blanks around its lines are ignored. -/
def parse (text : List Char) : Label :=
  let lines := linesOf text
  match readInt 10 (strip (lines.headD [])) with
  | .ok id => ⟨id, line strip lines 1, line strip lines 2⟩
  | .error _ => unknown

/-- The label in the lines of a text; a first line of digits is its number. -/
def parseLines (text : List Char) : Except VisionError Label := do
  let lines := linesOf text
  let first := lines.headD []
  let number ← if first.isEmpty || !first.all isDigit then pure 0
    else (readInt 10 first).mapError .notNumber
  return ⟨number, line (fun l => l) lines 1, line (fun l => l) lines 2⟩

end Label

/-- A mark with its place in a picture: left, top, width and height, and the corners where they are
known. A mark found in a straightened part has the corners of that part as its frame. -/
structure Finding where
  data : String
  kind : String
  position : Int × Int × Int × Int
  outline : Option (List Point)
  frame : Option (List Point)
  label : Label
  source : Source
  detection : Option String

def spreadRegion (l : List Int) : Except VisionError (Int × Int × Int × Int) :=
  match l with
  | [x, y, w, h] => .ok (x, y, w, h)
  | _ => if l.length < 4 then .error (.tooFew 4 l.length) else .error (.tooMany 4)

def regionCorners (position : Int × Int × Int × Int) : List Point :=
  let (x, y, w, h) := position
  [.single x y, .single (x + w) y, .single (x + w) (y + h), .single x (y + h)]

namespace Barcode

def regionParts (b : Barcode) : Except VisionError (Int × Int × Int × Int) :=
  match b.region with
  | none => .error .noRegion
  | some none => .error (.notSpread "NoneType")
  | some (some l) => spreadRegion l

def text (b : Barcode) : Except VisionError (List Char) := (Utf8.decode b.data).mapError .notText

end Barcode

end ArmStudio.Vision
