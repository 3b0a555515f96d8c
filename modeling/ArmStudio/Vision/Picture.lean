import ArmStudio.Document

/-!
# Pictures

A picture is a size and a level of every place. Levels lie below 256; a picture of grey levels has
no planes, a coloured one has blue, green and red. `Layers` are the forms in which one picture is
searched for marks.
-/

namespace ArmStudio.Vision

open Number

/-- A picture; `level y x c` is the level of plane `c` in row `y` and column `x`. -/
structure Picture where
  height : Nat
  width : Nat
  planes : Option Nat
  level : Nat → Nat → Nat → Nat

def describeArray (kind : String) (shape : List Nat) : String :=
  kind ++ "[" ++ "x".intercalate (shape.map fun n => toString n) ++ "]"

namespace Picture

def uniform (height width : Nat) (planes : Option Nat) (level : Nat) : Picture :=
  ⟨height, width, planes, fun _ _ _ => level⟩

def ofRows (rows : List (List (List Nat))) : Picture where
  height := rows.length
  width := (rows.headD []).length
  planes := some 3
  level y x c := (((rows[y]?.getD [])[x]?).getD [])[c]?.getD 0

def even (height width : Nat) (slopes : List (Int × Int × Int)) : Picture where
  height := height
  width := width
  planes := some 3
  level y x c :=
    match slopes[c]? with
    | some (a, b, k) => ((a * y + b * x + k) % 256).toNat
    | none => 0

variable (p : Picture)

def shape : List Nat := [p.height, p.width] ++ p.planes.toList

def describe : Document := .text (describeArray "u8" p.shape)

def isEmpty : Bool := p.height == 0 || p.width == 0

/-- The grey level of a pixel from the levels of blue, green and red. -/
def luminance (b g r : Nat) : Nat := (3735 * b + 19235 * g + 9798 * r + 16384) / 32768

def toGray : Picture where
  height := p.height
  width := p.width
  planes := none
  level y x _ := luminance (p.level y x 0) (p.level y x 1) (p.level y x 2)

def toColour : Picture where
  height := p.height
  width := p.width
  planes := some 3
  level y x _ := p.level y x 0

def resize (width height : Nat) : Picture :=
  { p with width := width, height := height }

def crop (top bottom left right : Nat) : Picture where
  height := min bottom p.height - top
  width := min right p.width - left
  planes := p.planes
  level y x c := p.level (y + top) (x + left) c

def levels : List Nat := (List.range p.height).flatMap fun y =>
    (List.range p.width).flatMap fun x =>
      (List.range (p.planes.getD 1)).map fun c => p.level y x c

def mean : Double :=
  let l := p.levels
  .ofNat (l.foldl (· + ·) 0) / .ofNat l.length

/-- A level moved by an amount: the nearest whole number to the size of the sum, at most 255. -/
def moveLevel (amount : Single) (level : Nat) : Nat :=
  match (Single.ofInt level + amount).datum with
  | .finite _ man exp =>
    let (num, den) := Format.scale man 1 (-exp)
    min 255 (Format.nearestEven num den)
  | _ => 255

def brighten (amount : Double) : Picture :=
  { p with level := fun y x c => moveLevel (.ofDouble amount) (p.level y x c) }

end Picture

structure Layers where
  plain : Picture
  gray : Picture
  blurred : Picture
  adaptive : Picture
  equalised : Picture
  edges : Picture
  closed : Picture

namespace Layers

def toList (l : Layers) : List Picture :=
  [l.plain, l.gray, l.blurred, l.adaptive, l.equalised, l.edges, l.closed]

def document (l : Layers) : Document :=
  .record [("original", l.plain.describe), ("gray", l.gray.describe),
    ("blurred", l.blurred.describe), ("adaptive", l.adaptive.describe),
    ("clahe", l.equalised.describe), ("edges", l.edges.describe), ("morph", l.closed.describe)]

end Layers

end ArmStudio.Vision
