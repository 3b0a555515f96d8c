import ArmStudio.Script.Value
import ArmStudio.Vision.Bearing

/-!
# Points of a picture

A coordinate is a whole number of 32 bits, a single or a double, and arithmetic stays in the kind of
its operands: differences of whole numbers wrap, means of whole numbers are doubles.

* `Coord`, `Point`, `Point.mean`.
-/

namespace ArmStudio.Vision

open Number Script

inductive CoordKind where
  | whole
  | single
  | double
  deriving DecidableEq, Inhabited

inductive Coord where
  | whole (n : Int)
  | single (x : Single)
  | double (x : Double)
  deriving DecidableEq

namespace Coord

instance : Inhabited Coord := ⟨whole 0⟩

def toDouble : Coord → Double
  | whole n => .ofInt n
  | single x => x.toDouble
  | double x => x

def toSingle : Coord → Single
  | whole n => .ofInt n
  | single x => x
  | double x => .ofDouble x

def truncate : Coord → Int
  | whole n => n
  | single x => x.truncate
  | double x => x.truncate?.getD 0

def wrap (n : Int) : Coord := whole (Int.bmod n (Nat.pow 2 32))

def sub : Coord → Coord → Coord
  | whole m, whole n => wrap (m - n)
  | single x, single y => single (x - y)
  | a, b => double (a.toDouble - b.toDouble)

def lt (a b : Coord) : Bool :=
  match a, b with
  | whole m, whole n => m < n
  | a, b => a.toDouble.lt b.toDouble

def ofValue (kind : CoordKind) (v : Value) : Coord :=
  let real := v.toReal.toOption.getD .zero
  match kind with
  | .whole => wrap (v.truncate.toOption.getD 0)
  | .single => single (.ofDouble real)
  | .double => double real

def mean : List Coord → Coord
  | [] => double .nan
  | single x :: rest =>
    single (rest.foldl (fun sum c => sum + c.toSingle) x / .ofInt (rest.length + 1))
  | c :: rest =>
    double (rest.foldl (fun sum c => sum + c.toDouble) c.toDouble / .ofInt (rest.length + 1))

end Coord

structure Point where
  x : Coord
  y : Coord
  deriving DecidableEq, Inhabited

namespace Point

def whole (x y : Int) : Point := ⟨.whole x, .whole y⟩

def single (x y : Int) : Point := ⟨.single (.ofInt x), .single (.ofInt y)⟩

def toSingle (p : Point) : Point := ⟨.single p.x.toSingle, .single p.y.toSingle⟩

def truncate (p : Point) : Point := whole p.x.truncate p.y.truncate

def sub (p q : Point) : Point := ⟨p.x.sub q.x, p.y.sub q.y⟩

def mean (points : List Point) : Point := ⟨Coord.mean (points.map x), Coord.mean (points.map y)⟩

/-- The length of a vector. Products of singles are added as doubles. -/
def norm (p : Point) : Double :=
  match p.x, p.y with
  | .single x, .single y =>
    (Single.ofDouble ((x * x).toDouble + (y * y).toDouble)).sqrt.toDouble
  | x, y => (x.toDouble * x.toDouble + y.toDouble * y.toDouble).sqrt

/-- The coordinates as numbers of the plane, which holds singles. -/
def plane (p : Point) : Double × Double :=
  let flat (c : Coord) : Double :=
    match c with
    | .double x => x
    | c => c.toSingle.toDouble
  (flat p.x, flat p.y)

end Point

/-- Puts an element before the first one that is greater. -/
def insertBy {α : Type} (less : α → α → Bool) (a : α) : List α → List α
  | [] => [a]
  | b :: rest => if less a b then a :: b :: rest else b :: insertBy less a rest

/-- Sorts; equal elements keep their order. -/
def sortBy {α : Type} (less : α → α → Bool) (l : List α) : List α :=
  l.foldl (fun sorted a => insertBy less a sorted) []

end ArmStudio.Vision
