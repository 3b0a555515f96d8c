import ArmStudio.Vision.Outline

/-!
# Layers

A picture in seven forms in which marks may show: as it is, in grey, smoothed, cut at a level that
follows the light, equalised, as edges, and with its gaps closed.
-/

namespace ArmStudio.Vision

open Lab

def orMake (given : Option Picture) (make : Lab Picture) : Lab Picture :=
  match given with
  | some p => return p
  | none => make

def download? (picture : Option Picture) : Lab (Option Picture) := do
  match picture with
  | some p => return some (← download p)
  | none => return none

def makeLayers (p : Picture) : Lab Layers := do
  let made ← process (← upload p)
  let gray ← download? (made.map (·.gray))
  let blurred ← download? (made.map (·.blurred))
  let equalised ← download? (made.bind (·.equalised))
  let edges ← download? (made.bind (·.edges))
  let gray ← orMake gray (toGray p)
  let blurred ← orMake blurred (blur gray 3)
  let equalised ← orMake equalised do
    ask .equaliser [.record [("clipLimit", decimal 2), ("tileGridSize", wholes [8, 8])]]
    return gray
  let edges ← orMake edges (Lab.edges gray 50 150)
  Lab.ask .morphology [gray.describe, .int 3, .text "u8[3x3]"]
  ask .adaptive [blurred.describe, .int 255, .int 1, .int 0, .int 11, .int 2]
  return ⟨p, gray, blurred, blurred, equalised, edges, gray⟩

def showLayers (l : Layers) : Lab Unit := do
  let canvas := Picture.uniform 600 800 (some 3) 0
  let width : Nat := 266
  let height : Nat := 200
  let label (text : String) (column row : Nat) : Lab Unit :=
    write canvas text (width * column + 10) (height * row + 30) (decimal 0.7) [0, 255, 255] 2
  discard (resize l.plain width height)
  label "Original" 0 0
  for (p, text, column, row) in [(l.gray, "Gray", 1, 0), (l.blurred, "Blurred", 2, 0),
      (l.adaptive, "Adaptive", 0, 1), (l.equalised, "CLAHE", 1, 1), (l.edges, "Edges", 2, 1)] do
    discard (resize (← toColour p) width height)
    label text column row
  showIn "Processed Images" canvas

end ArmStudio.Vision
