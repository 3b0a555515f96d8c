import ArmStudio.Vision.Bench

/-!
# Light

The brightness of the pictures is moved so that the marks have a middle level.
-/

namespace ArmStudio.Vision

open Number

def goalLevel : Double := 120

variable (picture : Option Picture)

/-- A picture with its brightness moved; an amount of zero leaves it alone. -/
def adjustBrightness (amount : Double) : Lab (Option Picture) := do
  match picture with
  | none => return none
  | some p =>
    if amount.isZero then return some p
    else
      Lab.ask .scale [p.describe, .record [("alpha", decimal 1), ("beta", decimal amount)]]
      return some (p.brighten amount)

def within (last n : Int) : Int := max 0 (min n last)

def regionLevel (region : Option (List Int)) : Lab (Option Double) := do
  match picture, region with
  | some p, some [x, y, w, h] =>
    if w ≤ 0 || h ≤ 0 then return none
    else
      let left := within (p.width - 1) x
      let top := within (p.height - 1) y
      let right := within (p.width - 1) (x + w)
      let bottom := within (p.height - 1) (y + h)
      if right ≤ left || bottom ≤ top then return none
      else
        let gray ← Lab.toGray (p.crop top.toNat bottom.toNat left.toNat right.toNat)
        return some gray.mean
  | _, _ => return none

def clip (low high x : Double) : Double := if x.lt low then low else if high.lt x then high else x

/-- Moves the brightness towards the goal by a tenth of what the first mark lacks, within fifty
levels, and gives the picture with the brightness moved. A mark may have no region. -/
def updateBrightness (regions : List (Option (Option (List Int)))) : Lab (Option Picture) := do
  match picture, regions with
  | some p, region :: _ =>
    match region with
    | none => throw (.missingField "position")
    | some region =>
      match ← regionLevel (some p) region with
      | none => adjustBrightness picture (← Lab.memory).brightness
      | some level =>
        Lab.remember fun m =>
          { m with brightness := clip (-50) 50 (m.brightness + (goalLevel - level) * 0.1) }
        adjustBrightness picture (← Lab.memory).brightness
  | _, _ => adjustBrightness picture (← Lab.memory).brightness

end ArmStudio.Vision
