import ArmStudio.Motion.Arm

/-!
# Actions on the arm

What the machine asks of motors, servos, gripper, timer and display, and what it reads from them.
-/

namespace ArmStudio.Machine

open Number Motion

/-- Something asked of the hardware. Joints are numbered from 1; the wrist servo and the gripper
have actions of their own. -/
inductive Action where
  | delay (ms : UInt16)
  | reset
  | joint (id : Nat) (angle : Single)
  | jointSpeed (id : Nat) (percent : Single)
  | wrist (angle : Single)
  | wristSpeed (percent : Single)
  | gripper (angle : Single)
  | gripperSpeed (percent : Single)
  | gripperOpen
  | gripperClose
  | show (line column : UInt8) (number : UInt32) (length : UInt8)
  deriving DecidableEq

namespace Action

def move (id : UInt32) (angle : Single) : List Action :=
  match id.toNat with
  | 1 => [joint 1 angle]
  | 2 => [joint 2 angle]
  | 3 => [joint 3 angle]
  | 4 => [joint 4 angle]
  | 5 => [wrist angle]
  | 6 => [gripper angle]
  | _ => []

def speed (id : UInt32) (percent : Single) : List Action :=
  match id.toNat with
  | 1 => [jointSpeed 1 percent]
  | 2 => [jointSpeed 2 percent]
  | 3 => [jointSpeed 3 percent]
  | 4 => [jointSpeed 4 percent]
  | 5 => [wristSpeed percent]
  | 6 => [gripperSpeed percent]
  | _ => []

def joints : Nat → List Single → List Action
  | _, [] => []
  | id, a :: rest => joint id a :: joints (id + 1) rest

end Action

/-- What the hardware tells: whether all that was asked is done, and the angles of joints 1 to 4,
wrist and gripper. -/
structure Sensors where
  settled : Bool
  angles : List Single

namespace Sensors

def angle (s : Sensors) (id : UInt32) : Single :=
  if id = 0 then .zero else (s.angles[id.toNat - 1]?).getD .zero

end Sensors

end ArmStudio.Machine
