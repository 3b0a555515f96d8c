import ArmStudio.Vision.Describe
import ArmStudio.Vision.Watch

/-!
# What is given

Pictures, codes and cues given as documents.

* `pictureOf?`: a picture as rows of pixels, or as a size with slopes for its planes;
* `codeOf?`, `cuesOf`: codes, and what the readers answer;
* `cameraOf`: a camera with its frames.
-/

namespace ArmStudio.Vision

open Number Script

variable (d : Document)

def fieldOf? (name : String) : Option Document :=
  match d with
  | .record fields => (fields.find? fun f => f.1 == name).map (·.2)
  | _ => none

def fieldOf (d : Document) (name : String) : Document := (fieldOf? d name).getD .null

def itemsOf : Document → List Document
  | .list l => l
  | _ => []

def items? : Document → Option (List Document)
  | .list l => some l
  | _ => none

def textOf : Document → String
  | .text s => s
  | _ => ""

def valueOf : Value := (numberOf? d).getD (.int 0)

def realOf : Double := (valueOf d).toReal.toOption.getD .zero

def intOf : Int := (valueOf d).truncate.toOption.getD 0

def natOf : Nat := (intOf d).toNat

def flagOf : Document → Bool
  | .flag b => b
  | _ => false

def intsOf? : Option (List Int) := (items? d).map fun l => l.map intOf

def bytesOf (s : List Char) : List UInt8 :=
  match s with
  | a :: b :: rest =>
    let digit (c : Char) : Nat := (digitValue? 16 c).getD 0
    (16 * digit a + digit b).toUInt8 :: bytesOf rest
  | _ => []

def pixelsOf : List (List (List Nat)) :=
  (itemsOf d).map fun row => (itemsOf row).map fun p => (itemsOf p).map natOf

def pictureOf? : Option Picture :=
  match fieldOf? d "rows", fieldOf? d "lin" with
  | some rows, _ => some (.ofRows (pixelsOf rows))
  | none, some slopes =>
    some (.even (natOf (fieldOf d "h")) (natOf (fieldOf d "w")) ((itemsOf slopes).map fun s =>
      match (itemsOf s).map intOf with
      | [a, b, k] => (a, b, k)
      | _ => (0, 0, 0)))
  | none, none => none

def codeOf? : Option Barcode :=
  match d with
  | .record _ => some {
      data := match fieldOf? d "hex" with
        | some digits => bytesOf (textOf digits).toList
        | none => (textOf (fieldOf d "data")).toUTF8.toList
      kind := match fieldOf? d "type" with
        | some kind => textOf kind
        | none => "QRCODE"
      region := (fieldOf? d "rect").map intsOf?
      outline := (fieldOf? d "polygon").map (pointsOf .double) }
  | _ => none

def pairOf : Single × Single :=
  match (itemsOf d).map realOf with
  | [x, y] => (.ofDouble x, .ofDouble y)
  | _ => (0, 0)

def matchOf : Match :=
  match itemsOf d with
  | [query, train, distance] => ⟨natOf query, natOf train, realOf distance⟩
  | _ => ⟨0, 0, 0⟩

def outlinesOf : List Contour := (itemsOf d).map (pointsOf .whole)

def cuesOf : Cues where
  contours := (itemsOf (fieldOf d "contours")).map outlinesOf
  codes := (itemsOf (fieldOf d "decode")).map fun c =>
    match c with
    | .text failure => .error failure
    | c => .ok ((itemsOf c).map codeOf?)
  flows := (itemsOf (fieldOf d "flow")).map pairOf
  features := (itemsOf (fieldOf d "orb")).map fun f => (items? f).map fun l => l.map pairOf
  matchings := (itemsOf (fieldOf d "matches")).map fun m => (itemsOf m).map fun p =>
    match itemsOf p with
    | [a, b] => (matchOf a, matchOf b)
    | _ => (matchOf .null, matchOf .null)
  failures := (itemsOf (fieldOf d "fail")).map fun f =>
    match itemsOf f with
    | [name, count, text] => (textOf name, natOf count, textOf text)
    | _ => ("", 0, "")

def coordKindOf : CoordKind :=
  match fieldOf d "dtype" with
  | .text "f64" => .double
  | .text "i32" => .whole
  | _ => .single

def levelsOf : Picture :=
  match itemsOf ((itemsOf ((itemsOf d).headD .null)).headD .null) with
  | [] =>
    let rows := (itemsOf d).map fun row => (itemsOf row).map natOf
    { height := rows.length
      width := (rows.headD []).length
      planes := none
      level := fun y x _ => (rows[y]?.getD [])[x]?.getD 0 }
  | _ => .ofRows (pixelsOf d)

def spoken : Document → String
  | .null => "None"
  | .flag b => if b then "True" else "False"
  | .int n => toString n
  | .real x => x.text
  | .text s => s
  | _ => ""

def traceOf : Trace where
  position := (fieldOf? d "position").map intsOf?
  detection := (fieldOf? d "detection_type").map textOf
  source := (fieldOf? d "source").map spoken

def shapeOf : List Nat :=
  match d with
  | .list l => l.map natOf
  | _ => [120, 160, 3]

def frameOf : Frame where
  readable := (fieldOf? d "ret").elim true flagOf
  picture :=
    let level := (fieldOf? d "fill").elim 100 natOf
    match shapeOf (fieldOf d "shape") with
    | [height, width] => .uniform height width none level
    | height :: width :: planes :: _ => .uniform height width (some planes) level
    | _ => .uniform 0 0 none level
  cues := cuesOf d
  times := (numberOf? (fieldOf d "time")).toList
  stops := flagOf (fieldOf d "stop")

def cameraOf : Camera where
  numbers := match fieldOf d "opened" with
    | .flag false => some []
    | .list numbers => some (numbers.map intOf)
    | _ => none
  frames := (itemsOf (fieldOf d "frames")).map frameOf

end ArmStudio.Vision
