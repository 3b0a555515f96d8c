import ArmStudio.Vision.Point

/-!
# Polygons

Closed polygons, as lists of points.

* `area`, `perimeter`, `isConvex`, `contains`: measures and tests;
* `Box`: the smallest box with sides along the axes.
-/

namespace ArmStudio.Vision

open Number Double

abbrev Spot := Double × Double

namespace Polygon

def edges (p : List α) : List (α × α) :=
  match p.getLast? with
  | none => []
  | some last => (last :: p).zip p

def cross (a b : Spot) : Double := a.1 * b.2 - a.2 * b.1

def minus (a b : Spot) : Spot := (a.1 - b.1, a.2 - b.2)

/-- Twice the area, positive where the points go from the first axis to the second. -/
def doubleArea (p : List Spot) : Double := (edges p).foldl (fun sum (a, b) => sum + cross a b) 0

variable (p : List Point)

def area : Double := (doubleArea (p.map Point.plane) * 0.5).abs

def edgeLength (a b : Point) : Double :=
  let dx := b.x.toSingle - a.x.toSingle
  let dy := b.y.toSingle - a.y.toSingle
  (dx * dx + dy * dy).sqrt.toDouble

def perimeter : Double :=
  (edges p).foldl (fun sum (a, b) => sum + edgeLength a b) 0

/-- Whether the corners all turn one way; a straight corner turns no way. -/
def isConvex : Bool :=
  let sides := (edges (p.map Point.plane)).map fun (a, b) => minus b a
  let turns := (edges sides).map fun (a, b) => cross a b
  turns.all (fun t => lt 0 t) || turns.all (fun t => t.lt 0)

/-- What an edge says of a spot: it lies on the edge, or the ray from it crosses the edge or not. -/
def edgeTest (s a b : Spot) : Option Bool :=
  if (a.2.le s.2 && b.2.le s.2) || (s.2.lt a.2 && s.2.lt b.2) || (a.1.lt s.1 && b.1.lt s.1) then
    let between := (a.1.le s.1 && s.1.le b.1) || (b.1.le s.1 && s.1.le a.1)
    if s.2.eqv b.2 && (s.1.eqv b.1 || (s.2.eqv a.2 && between)) then none else some false
  else
    let side := cross (minus b a) (minus s a)
    if side.isZero then none
    else some (if b.2.lt a.2 then side.lt 0 else lt 0 side)

/-- Whether a spot lies inside a polygon or on its edges. -/
def contains (s : Spot) : Bool :=
  let tests := (edges (p.map Point.plane)).map fun (a, b) => edgeTest s a b
  tests.any Option.isNone || tests.countP (· == some true) % 2 == 1

end Polygon

structure Box where
  left : Double
  top : Double
  right : Double
  bottom : Double

namespace Box

def least (l : List Double) : Double := l.foldl (fun a b => if b.lt a then b else a) (l.headD 0)

def greatest (l : List Double) : Double := l.foldl (fun a b => if a.lt b then b else a) (l.headD 0)

def around (p : List Point) : Box :=
  let xs := p.map fun q => q.x.toDouble
  let ys := p.map fun q => q.y.toDouble
  ⟨least xs, least ys, greatest xs, greatest ys⟩

def width (b : Box) : Double := b.right - b.left

def height (b : Box) : Double := b.bottom - b.top

/-- The corners, from the left upper one with the clock. -/
def corners (b : Box) : List Point :=
  let corner (x y : Double) : Point := ⟨.single (.ofDouble x), .single (.ofDouble y)⟩
  [corner b.left b.top, corner b.right b.top, corner b.right b.bottom, corner b.left b.bottom]

end Box

namespace Polygon

/-! ## Thinning -/

def distance (a b : Spot) : Double :=
  let d := minus b a
  d.1 * d.1 + d.2 * d.2

/-- The first index with the greatest positive measure, and the measure. -/
def greatestAt (measure : Nat → Double) (indices : List Nat) (start : Nat) : Nat × Double :=
  indices.foldl (fun (best, most) i =>
    let m := measure i
    if most.lt m then (i, m) else (best, most)) (start, 0)

/-- Goes to the point farthest away, three times. Gives the last two points of the way, the step
between them and their squared distance. -/
def farApart (p : Array Spot) : Nat → Nat → Nat → Nat × Nat × Double
  | 0, _, step => (0, step, 0)
  | fuel + 1, origin, step =>
    let count := p.size
    let origin := (origin + step) % count
    let (step, most) := greatestAt
      (fun j => distance (p[origin]!) (p[(origin + j) % count]!))
      ((List.range (count - 1)).map (· + 1)) step
    if fuel = 0 then (origin, step, most) else farApart p fuel origin step

/-- The corners kept between two indices, the last one left out. -/
def keepBetween (p : Array Spot) (square : Double) : Nat → Nat → Nat → List Nat
  | 0, first, _ => [first]
  | fuel + 1, first, last =>
    let count := p.size
    let inner := (List.range ((last + count - first - 1) % count)).map
      fun k => (first + 1 + k) % count
    let a := p[first]!
    let chord := minus (p[last]!) a
    let (split, most) := greatestAt (fun i => (cross chord (minus (p[i]!) a)).abs) inner first
    if inner.isEmpty || (most * most).le (square * (chord.1 * chord.1 + chord.2 * chord.2)) then
      [first]
    else keepBetween p square fuel first split ++ keepBetween p square fuel split last

/-- Whether the middle of three spots lies on a nearly straight line that goes on. -/
def straight (square : Double) (a m b : Spot) : Bool :=
  let d := minus b a
  let off := (cross (minus m a) d).abs
  let along := (m.1 - a.1) * (b.1 - m.1) + (m.2 - a.2) * (b.2 - m.2)
  (off * off).le (0.5 * square * (d.1 * d.1 + d.2 * d.2)) && !d.1.isZero && !d.2.isZero &&
    le 0 along

/-- The state of the walk that drops straight corners: the corners as they are kept, where the
next one is read and written, the one before and the one under test, and how many are left. -/
structure Sweep where
  corners : Array Nat
  read : Nat
  write : Nat
  before : Nat
  tested : Nat
  left : Nat

/-- Drops corners on nearly straight lines, one step for each corner. -/
def sweep (p : Array Spot) (square : Double) (count : Nat) : Nat → Nat → Sweep → Sweep
  | 0, _, s => s
  | fuel + 1, i, s =>
    if count ≤ i || s.left ≤ 2 then s
    else
      let next := s.corners[s.read]!
      let read := (s.read + 1) % count
      let write := (s.write + 1) % count
      if straight square (p[s.before]!) (p[s.tested]!) (p[next]!) then
        let corners := s.corners.set! s.write next
        sweep p square count fuel (i + 2)
          ⟨corners, (read + 1) % count, write, next, corners[read]!, s.left - 1⟩
      else
        sweep p square count fuel (i + 1)
          ⟨s.corners.set! s.write s.tested, read, write, s.tested, next, s.left⟩

/-- The corners that keep a polygon within a distance of its outline. -/
def thin (points : List Point) (within : Double) : List Point :=
  let p := (points.map Point.plane).toArray
  let square := within * within
  if p.isEmpty then []
  else
    let (first, step, most) := farApart p 3 0 0
    let kept :=
      if most.le square then [first]
      else
        let last := (first + step) % p.size
        keepBetween p square p.size first last ++ keepBetween p square p.size last first
    let count := kept.length
    let corners := kept.toArray
    let s := sweep p square count (count + 1) 0
      ⟨corners, 1 % count, 0, corners[count - 1]!, corners[0]!, count⟩
    (s.corners.toList.take s.left).filterMap fun i => points[i]?

/-! ## Clipping -/

/-- Where an edge crosses the line of a side, given its ends and their distances from the line. -/
def crossing (a b : Spot) (da db : Double) : Spot :=
  let t := da / (da - db)
  (a.1 + t * (b.1 - a.1), a.2 + t * (b.2 - a.2))

/-- The part of a polygon on the inner side of a line. -/
def clipBy (inner : Spot → Double) (p : List Spot) : List Spot := (edges p).flatMap fun (a, b) =>
    let da := inner a
    let db := inner b
    if le 0 db then
      if le 0 da then [b] else [crossing a b da db, b]
    else if le 0 da then [crossing a b da db] else []

/-- The part of a polygon inside a convex one. -/
def clip (convex p : List Spot) : List Spot :=
  let back := (doubleArea convex).lt 0
  (edges convex).foldl (fun p (a, b) =>
    clipBy (fun s =>
      let side := cross (minus b a) (minus s a)
      if back then -side else side) p) p

end Polygon

end ArmStudio.Vision
