import ArmStudio.Vision.Bench

/-!
# Reports

Once a second the console is told where the target is, or that there is none.
-/

namespace ArmStudio.Vision

open Number Script

def wholeSeconds : Value → Int
  | .real x =>
    let n := x.truncate?.getD 0
    if x.lt (.ofInt n) then n - 1 else n
  | v => v.truncate.toOption.getD 0

def timeOfDay (mark : String) (clock : Value) : String :=
  let n := (wholeSeconds clock % 86400).toNat
  mark.intercalate ([n / 3600, n / 60 % 60, n % 60].map fun k => padZeros 2 (toString k))

def tenths (v : Value) : String := (v.toReal.toOption.getD .zero).fixed 1

def poseText (p : Pose) (count : Nat) : String :=
  "平均坐标 - X: " ++ tenths p.x ++ "mm, Y: " ++ tenths p.y ++ "mm, 旋转: " ++
    tenths p.rotation ++ s!"° (基于{count}帧)"

/-- Takes the pose of the target into the track. When a report is due, the console is told, and the
pose is given if the target is seen. -/
def reportTrack : Lab (Option Pose) := do
  let now ← Lab.clock
  let m ← Lab.memory
  let (report, track) := m.track.advance now m.seen m.pose
  Lab.remember fun m => { m with track := track }
  let stamp := "[" ++ timeOfDay ":" now ++ "] "
  match ← Lab.lift (report.mapError .arithmetic) with
  | none => return none
  | some .lost =>
    Lab.say (stamp ++ "未检测到目标")
    return none
  | some (.seen mean count) =>
    let told := match (← Lab.settings).method with
      | .layered => m.pose
      | .motion => mean
    Lab.say (stamp ++ poseText told count)
    return some m.pose

end ArmStudio.Vision
