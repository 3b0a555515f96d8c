import ArmStudio.Vision.Bench
import ArmStudio.Vision.Group

/-!
# Outlines

What the outlines in a picture are good for.

* `mergeClose`: squares close together taken for one;
* `findSquares`: the squares in a picture.
-/

namespace ArmStudio.Vision

open Number Script Lab Double

/-- The area of a rectangle over that of the larger one; a rectangle may be negative. -/
def areaRatio (area region : Double) : Double :=
  let (small, large) := if region.lt area then (region, area) else (area, region)
  small / large

/-- Whether an outline and a region have no more than a hundredth of the smaller one in common. -/
def isDisjoint (corners : List Point) (box : Box) (area : Double) (x y w h : Int) : Lab Bool := do
  let region := ofInt (w * h)
  let right := ofInt (x + w)
  let bottom := ofInt (y + h)
  let left := ofInt x
  let top := ofInt y
  touch .overlap
  let flat (p : Point) : Point := p.toSingle
  let rectangle := [Point.single x y, .single (x + w) y, .single (x + w) (y + h), .single x (y + h)]
  let shared := (← library).clip (corners.map fun p => (flat p).plane) (rectangle.map Point.plane)
  let common ← if 3 ≤ shared.length then do
      touch .area
      pure ((← library).area (shared.map fun s =>
        ⟨.single (.ofDouble s.1), .single (.ofDouble s.2)⟩))
    else
      let atMost (a b : Double) : Double := if b.lt a then b else a
      let atLeast (a b : Double) : Double := if a.lt b then b else a
      pure (atLeast 0 (atMost box.right right - atLeast box.left left) *
        atLeast 0 (atMost box.bottom bottom - atLeast box.top top))
  let small := if region.lt area then region else area
  if small.isZero then throw (.arithmetic .realDivisionByZero)
  return !(lt 0.01 (common / small))

/-- Whether an outline differs from all regions: in area, or in place. A region whose common part
cannot be found is passed over. -/
def isClearOf (corners : List Point) (box : Box) (area : Double) :
    List (Option (List Int)) → Lab Bool
  | [] => return true
  | some [x, y, w, h] :: rest => do
    if lt 0.7 (areaRatio area (.ofInt (w * h))) then return false
    else if (ofInt (x + w)).lt box.left || box.right.lt (.ofInt x) ||
        (ofInt (y + h)).lt box.top || box.bottom.lt (.ofInt y) then
      isClearOf corners box area rest
    else
      match ← attempt (isDisjoint corners box area x y w h) with
      | .ok true => isClearOf corners box area rest
      | .ok false => return false
      | .error e =>
        print ("Intersection calc skipped: " ++ e.message)
        isClearOf corners box area rest
  | _ :: rest => isClearOf corners box area rest

/-- Whether an outline is not that of a mark in one of the regions. An outline that cannot be
measured is not. -/
def isClear (contour : List Point) (regions : List (Option (List Int))) : Lab Bool := do
  if regions.isEmpty || contour.length < 3 then return true
  else
    let step : Lab Bool := do
      let area ← area contour
      if area.lt 1 then return true
      else
        let corners ← thin contour (0.01 * (← perimeter contour))
        if corners.length < 3 then return true
        else isClearOf corners (Box.around corners) area regions
    match ← attempt step with
    | .ok clear => return clear
    | .error e =>
      print ("Error in is_not_barcode: " ++ e.message)
      return true

variable (contours : List Contour)

/-- The outlines with at least three points. -/
def closed : List (List Point) :=
  contours.filterMap fun c => c.filter fun p => 3 ≤ p.length

/-- The four corners of the largest outline that has four, if its area is greater than a bound. -/
def largestRectangle (least : Double) : Lab (Option (List Point)) := do
  let (best, _) ← (closed contours).foldlM (fun (best, most) contour => do
    let corners ← thin contour (0.02 * (← perimeter contour))
    if corners.length ≠ 4 then return (best, most)
    else
      let area ← area corners
      return if most.lt area && least.lt area then (some corners, area) else (best, most))
    (none, (0 : Double))
  return best

/-- The box around the largest outline whose area is greater than a bound. -/
def zoomArea (least : Double) : Lab (Option (List Point)) := do
  let (best, _) ← (closed contours).foldlM (fun (best, most) contour => do
    let area ← area contour
    return if most.lt area && least.lt area then (some contour, area) else (best, most))
    (none, (0 : Double))
  match best with
  | none => return none
  | some contour => return some ((← tightBox contour).corners.map Point.truncate)

def traitsOf : List (Option (List Point)) → Lab (List Traits)
  | [] => return []
  | square :: rest => do
    let corners := square.getD []
    if corners.length < 4 then traitsOf rest
    else
      let traits := Traits.of? (← library) (← area corners) corners
      return traits.toList ++ (← traitsOf rest)

def mergeClose (squares : List (Option (List Point))) : Lab (List (Option (List Point))) := do
  if squares.length < 2 then return squares
  else
    let traits ← traitsOf squares
    return (← lift (merge squares traits)).map some

/-! ## Squares -/

def levelCount : Nat := 11

/-- The vectors from a corner to its neighbours have small cosines. -/
def isRectangular (corners : List Point) : Bool :=
  let corner (n : Nat) : Point := corners[n % 4]?.getD default
  (List.range 4).all fun j =>
    let vector (n : Nat) : Spot :=
      let v := (corner n).sub (corner (j + 1))
      (v.x.toDouble, v.y.toDouble)
    (cosine (vector j) (vector (j + 2))).abs.lt 0.3

variable (p : Picture)

/-- The square of an outline, if it is one: away from the edge of the picture and from the marks,
large, convex and with right angles. -/
def squareOf? (regions : List (Option (List Int))) (contour : List Point) :
    Lab (Option (List Point)) := do
  let spot (q : Point) : Spot := (q.x.toDouble, q.y.toDouble)
  if contour.any fun q => nearBorder 20 (.ofNat p.width) (.ofNat p.height) (spot q) then return none
  else if !(← isClear contour regions) then return none
  else
    let corners ← thin contour (0.02 * (← perimeter contour))
    if corners.length ≠ 4 then return none
    else if !(lt 1000 (← area corners)) then return none
    else
      touch .convex
      return if (← library).isConvex corners && isRectangular corners then
        some (corners.map Point.toSingle) else none

def squaresAmong (p : Picture) (regions : List (Option (List Int))) :
    List (List Point) → Lab (List (List Point))
  | [] => return []
  | contour :: rest => do
    let square ← squareOf? p regions contour
    return square.toList ++ (← squaresAmong p regions rest)

structure Processed where
  gray : Picture
  blurred : Picture
  equalised : Option Picture
  edges : Option Picture

def upload : Lab (Option Picture) := do
  if (← settings).device.present then
    ask .upload [p.describe]
    return some p
  else return none

def download : Lab Picture := do
  ask .download [p.describe]
  return p

variable (picture : Option Picture)

def process : Lab (Option Processed) := do
  match picture with
  | none => return none
  | some p =>
    ask .deviceConvert [.int 6]
    let gray := p.toGray
    ask .deviceBlur [wholes [3, 3], .int 0]
    let equipped := (← settings).device.equipped
    return some ⟨gray, gray, if equipped then some gray else none,
      if equipped then some gray else none⟩

def squaresAtLevels (p edges blurred : Picture) (processed : Option Processed)
    (regions : List (Option (List Int))) : List Nat → Lab (List (List Point))
  | [] => return []
  | level :: rest => do
    let bound : Int := (level + 1) * 255 / levelCount
    let cut ← match level, processed with
      | 0, _ => pure edges
      | _, some made => do
        ask .deviceThreshold [.int bound, .int 255, .int 0]
        download made.blurred
      | _, none => do
        ask .threshold [blurred.describe, .int bound, .int 255, .int 0]
        pure blurred
    let contours ← Lab.contours cut 1
    let squares ← squaresAmong p regions (closed contours)
    return squares ++ (← squaresAtLevels p edges blurred processed regions rest)

def findSquares : Lab (List (List Point)) := do
  match picture with
  | none => return []
  | some p =>
    let processed ← process (← upload p)
    let made ← match processed.bind (·.edges) with
      | some e => do pure (← download e, e)
      | none => do
        let gray ← toGray p
        let blurred ← blur gray 3
        let edges ← edges blurred 0 100
        ask .widen [edges.describe, .null]
        pure (edges, blurred)
    let codes ← readCodes
    let regions := codes.filterMap fun c => c.bind (·.region)
    squaresAtLevels p made.1 made.2 processed regions (List.range levelCount)

end ArmStudio.Vision
