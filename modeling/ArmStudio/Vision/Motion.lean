import ArmStudio.Vision.Outline

/-!
# Motion

A mark that moves is blurred. The last pictures are laid over one another along their motion, and
the blur along the mean motion is taken back.

* `estimateMotion`: the motion between two pictures, from the flow, or from features where the flow
  is small;
* `integrate`: pictures laid over one another, the later ones with more weight;
* `processPicture`: takes a picture into the buffer; five of them give a result.
-/

namespace ArmStudio.Vision

open Number Lab

def motionLength (m : Single × Single) : Single := .ofDouble (Point.norm ⟨.single m.1, .single m.2⟩)

def median (l : List Single) : Single :=
  let sorted := sortBy Single.lt l
  let half := sorted.length / 2
  let nth (n : Nat) : Single := sorted[n]?.getD 0
  if sorted.length % 2 = 1 then nth half else (nth (half - 1) + nth half) / 2

variable (l : List (Single × Single))

def featureAt (n : Nat) : Except VisionError (Single × Single) :=
  match l[n]? with
  | some f => .ok f
  | none => .error .listEnd

def estimateMotion (a b : Picture) : Lab (Single × Single) := do
  let gray ← toGray a
  let next ← toGray b
  ask .flow [gray.describe, next.describe, .null, decimal 0.5, .int 3, .int 15, .int 3, .int 5,
    decimal 1.2, .int 0]
  let flow ← nextFlow
  if !((motionLength flow).lt 2) then return flow
  else
    ask .features [.int 100]
    let before ← nextFeatures
    let after ← nextFeatures
    match before, after with
    | some before, some after =>
      ask .matcher [.int 6]
      let pairs ← nextMatching
      let good := pairs.filter fun (m, n) => m.distance.lt (0.75 * n.distance)
      if good.length ≤ 10 then return flow
      else
        let source ← lift (good.mapM fun (m, _) => featureAt before m.query)
        let goal ← lift (good.mapM fun (m, _) => featureAt after m.train)
        let moves := source.zip goal
        return (median (moves.map fun (s, g) => g.1 - s.1),
          median (moves.map fun (s, g) => g.2 - s.2))
    | _, _ => return flow

def weight (n count : Nat) : Single := .ofDouble (0.5 + 0.5 * Double.ofNat n / Double.ofNat count)

def addWeighted (sums : List Single) (p : Picture) (w : Single) : List Single :=
  sums.zipWith (fun s level => s + Single.ofInt (level : Nat) * w) p.levels

def shapeText (shape : List Nat) : String :=
  "(" ++ ",".intercalate (shape.map fun n => toString n) ++ ")"

def align (first : Picture) : List Picture → List (Single × Single) → Lab Unit
  | [], _ => return
  | _ :: _, [] => throw .listEnd
  | p :: rest, m :: motions => do
    let number (x : Single) : Document := decimal x.toDouble
    ask .shift [p.describe,
      .list [.list [number 1, number 0, number (-m.1)], .list [number 0, number 1, number (-m.2)]],
      wholes [first.width, first.height]]
    align first rest motions

def weightedSums (first : Picture) (count : Nat) :
    List (Picture × Nat) → List Single → Except VisionError (List Single)
  | [], sums => .ok sums
  | (p, n) :: rest, sums =>
    if p.shape = first.shape then
      weightedSums first count rest (addWeighted sums p (weight n count))
    else .error (.unequalShapes (shapeText first.shape) (shapeText p.shape))

def inColour : List Picture → Lab (List Picture)
  | [] => return []
  | p :: rest => do
    let p ← if p.planes.isSome then pure p else toColour p
    return p :: (← inColour rest)

def integrate (pictures : List Picture) (motions : List (Single × Single)) :
    Lab (Option Picture) := do
  if pictures.isEmpty || motions.isEmpty then return none
  else
    match ← inColour pictures with
    | [] => return none
    | first :: rest =>
      align first rest motions
      let count := rest.length + 1
      let zero := first.levels.map fun _ => (0 : Single)
      let sums ← lift (weightedSums first count (first :: rest).zipIdx zero)
      let most := sums.foldl (fun a b => if a.lt b then b else a) (sums.headD 0)
      let shares := sums.map fun s => s / most
      let mean := shares.foldl (fun sum s => sum + s.toDouble) 0 / Double.ofNat shares.length
      ask .normalize [.text (describeArray "f32" first.shape), .text (mean.fixedUnsignedZero 4)]
      return some first

/-- Takes back the blur along a motion. A motion of less than a pixel blurs nothing; for any other
the first correction has no place in a picture of whole levels. -/
def deblur (p : Picture) (m : Single × Single) : Lab Picture := do
  let lib ← library
  let angle := toRadiansSingle (toDegreesSingle (lib.bearingSingle m.2 m.1))
  let length := motionLength m
  if length.lt 1 then return p
  else
    let size := (length.toDouble * 2).truncate?.getD 0 + 1
    let middle := size / 2
    let reach (share : Single) : Int :=
      (Double.ofInt middle + (length * share).toDouble).truncate?.getD 0
    let kernel : Document := .text (describeArray "f64" [size.toNat, size.toNat])
    ask .line [kernel, wholes [middle, middle],
      wholes [reach (lib.cosineSingle angle), reach (lib.sineSingle angle)], .int 1,
      .record [("thickness", .int 1)]]
    let gray ← toGray p
    ask .convolve [gray.describe, .int (-1), kernel]
    ask .divide [gray.describe, .text (describeArray "f64" gray.shape),
      .record [("dtype", .int 5)]]
    ask .convolve [.text (describeArray "f32" gray.shape), .int (-1), kernel]
    throw .notCast

def meanMotion : Single × Single :=
  let count := Single.ofInt l.length
  let sum (l : List Single) : Single :=
    match l with
    | [] => 0
    | x :: rest => rest.foldl (· + ·) x
  (sum (l.map (·.1)) / count, sum (l.map (·.2)) / count)

def windowLength : Nat := 5

def bufferPicture (buffer : Buffer) (p : Picture) : Lab Buffer := do
  let motions ← match buffer.pictures.getLast? with
    | none => pure buffer.motions
    | some before => do
      let motion ← estimateMotion before p
      pure (keepLast (windowLength - 1) buffer.motions motion)
  return ⟨keepLast windowLength buffer.pictures p, motions⟩

def processBuffer (buffer : Buffer) : Lab (Option Picture) := do
  if buffer.pictures.length < windowLength then return none
  else
    match ← integrate buffer.pictures buffer.motions with
    | none => return none
    | some p => return some (← deblur p (meanMotion buffer.motions))

end ArmStudio.Vision
