import ArmStudio.Vision.Square

/-!
# Groups of squares

Squares that lie close together, with like areas and rotations, are taken for one.
-/

namespace ArmStudio.Vision

open Number Script

def split {ε ι : Type} (test : ι → Except ε Bool) : List ι → Except ε (List ι × List ι)
  | [] => .ok ([], [])
  | i :: rest => do
    let passed ← test i
    let (near, far) ← split test rest
    return if passed then (i :: near, far) else (near, i :: far)

def groupsWithin {ε ι : Type} (close : ι → ι → Except ε Bool) :
    Nat → List ι → Except ε (List (List ι))
  | 0, _ => .ok []
  | _ + 1, [] => .ok []
  | bound + 1, i :: rest => do
    let (near, far) ← split (close i) rest
    return (i :: near) :: (← groupsWithin close bound far)

/-- The groups of items: the first item and all that are close to it, then those of the others. -/
def groups {ε ι : Type} (close : ι → ι → Except ε Bool) (items : List ι) :
    Except ε (List (List ι)) :=
  groupsWithin close items.length items

/-- What decides whether squares are close. -/
structure Traits where
  center : Point
  area : Double
  rotation : Coord

def Traits.of? (lib : Library) (area : Double) : List Point → Option Traits
  | a :: b :: c :: d :: rest =>
    some ⟨Point.mean (a :: b :: c :: d :: rest), area, lib.heading (b.sub a)⟩
  | _ => none

variable (traits : List Traits)

def traitsAt (i : Nat) : Except VisionError Traits :=
  match traits[i]? with
  | some t => .ok t
  | none => .error .listEnd

/-- Whether two squares are close: less than thirty pixels apart, neither twice as large as the
other, and less than thirty degrees turned. -/
def Traits.close (a b : Traits) : Except VisionError Bool := do
  let distance := (a.center.sub b.center).norm
  let (small, large) := if b.area.lt a.area then (b.area, a.area) else (a.area, b.area)
  if large.isZero then throw (.arithmetic .realDivisionByZero)
  let turn := (a.rotation.sub b.rotation).toDouble.abs
  let turn := if (360 - turn).lt turn then 360 - turn else turn
  return distance.lt 30 && Double.lt 0.5 (small / large) && turn.lt 30

def cornerAt (square : List Point) (n : Nat) : Except VisionError Point :=
  match square[n]? with
  | some p => .ok p
  | none => .error (.axisEnd n 0 square.length)

def nearestCorner (p : Point) (square : List Point) : Except VisionError (Option Point) := do
  let (best, _) ← (List.range 4).foldlM (fun (best, least) n => do
    let q ← cornerAt square n
    let d := (p.sub q).norm
    return if d.lt least then (some q, d) else (best, least)) (none, Double.infinity)
  return best

def addTo (sum : Single × Single) (p : Point) : Single × Single :=
  let add (s : Single) (c : Coord) : Single :=
    match c with
    | .single x => s + x
    | c => .ofDouble (s.toDouble + c.toDouble)
  (add sum.1 p.x, add sum.2 p.y)

def meanOf (points : List Point) : Point :=
  let sum := points.foldl addTo (0, 0)
  let count := Single.ofInt points.length
  ⟨.single (sum.1 / count), .single (sum.2 / count)⟩

/-- One square for a group: the corners of the largest one, each the mean of the nearest corners of
all. -/
def mergeGroup (squares : List (List Point)) (largest : List Point) :
    Except VisionError (List Point) :=
  (List.range 4).mapM fun n => do
    let p ← cornerAt largest n
    let near ← squares.mapM (nearestCorner p)
    match near.filterMap id with
    | [] => return p.toSingle
    | points => return meanOf points

def largestIn (first : Nat) (group : List Nat) : Except VisionError Nat :=
  group.foldlM (fun best i => do
    let a ← traitsAt traits i
    let b ← traitsAt traits best
    return if b.area.lt a.area then i else best) first

/-- Merges the squares that are close. The traits are those of the squares that have four corners,
in their order; what is no square joins no group. -/
def merge (squares : List (Option (List Point))) (traits : List Traits) :
    Except VisionError (List (List Point)) := do
  let square (i : Nat) : List Point := ((squares[i]?).getD none).getD []
  let items := (List.range squares.length).filter fun i => ((squares[i]?).getD none).isSome
  let found ← groups (fun i j => do (← traitsAt traits i).close (← traitsAt traits j)) items
  found.mapM fun group => do
    match group with
    | [i] => return square i
    | [] => return []
    | first :: _ =>
      mergeGroup (group.map square) (square (← largestIn traits first group))

end ArmStudio.Vision
