import ArmStudio.Vision.Priority

/-!
# Tracks

The places at which a target was seen.

* `Track`: the places of the last second, and what is told once a second.
-/

namespace ArmStudio.Vision

open Number Script

def smoothingLength : Nat := 5

def keepLast {α : Type} (limit : Nat) (l : List α) (a : α) : List α :=
  let l := l ++ [a]
  l.drop (l.length - limit)

def meanValue (l : List Value) : Except ArithError Value := do
  (← l.foldlM Value.add (.int 0)).div (.int l.length)

/-- The mean of the last places, and those places. No place leaves all as it is. -/
def smooth (history : List (Value × Value)) (center : Option (Value × Value)) :
    Except ArithError (Option (Value × Value)) × List (Value × Value) :=
  match center with
  | none => (.ok none, history)
  | some c =>
    let history := keepLast smoothingLength history c
    (do return some (← meanValue (history.map (·.1)), ← meanValue (history.map (·.2))), history)

structure Pose where
  x : Value
  y : Value
  rotation : Value
  deriving DecidableEq

/-- The pose of a target that was never seen. -/
def Pose.zero : Pose := ⟨.int 0, .int 0, .int 0⟩

structure Track where
  poses : List (Value × Pose)
  last : Value
  deriving DecidableEq

inductive Report where
  | lost
  | seen (mean : Pose) (count : Nat)
  deriving DecidableEq

namespace Track

def empty : Track := ⟨[], .real .zero⟩

def capacity : Nat := 100

def meanPose (poses : List Pose) : Except ArithError Pose := do
  return ⟨← meanValue (poses.map (·.x)), ← meanValue (poses.map (·.y)),
    ← meanValue (poses.map (·.rotation))⟩

/-- Adds the pose of a target that is seen. Once a second the poses older than a second are
dropped, and a report is due. -/
def advance (t : Track) (now : Value) (seen : Bool) (pose : Pose) :
    Except ArithError (Option Report) × Track :=
  let poses := if seen then keepLast capacity t.poses (now, pose) else t.poses
  if !(Lock.elapsed t.last now 1).any Ordering.isGE then (.ok none, { t with poses := poses })
  else
    let recent := poses.filter fun p => (Lock.elapsed p.1 now 1).any Ordering.isLE
    let report := if recent.isEmpty || !seen then .ok (some .lost)
      else do return some (.seen (← meanPose (recent.map (·.2))) recent.length)
    (report, ⟨recent, now⟩)

end Track

end ArmStudio.Vision
