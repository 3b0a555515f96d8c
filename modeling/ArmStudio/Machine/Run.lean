import ArmStudio.Machine.Step

/-!
# Runs

A run steps the machine while it is running. The hardware needs a number of polls for everything
it is asked; a negative number stands for hardware that is never done.
-/

namespace ArmStudio.Machine

open Number

structure Hardware where
  patience : Int
  angles : List Single

/-- A step of a run: what was asked of the hardware, and the registers after it. -/
structure Moment where
  actions : List Action
  pc : UInt16
  top : UInt16
  frame : UInt8
  locals : UInt8
  waiting : Waiting
  status : Status
  topWord : UInt32

def Moment.after (actions : List Action) (m : State) : Moment :=
  ⟨actions, m.pc, m.top, m.frame, m.locals, m.waiting, m.status, m.topWord⟩

/-- Runs a machine for at most `limit` steps; gives the moments, the latest first, and the machine
at the end. `polls` counts the steps since the machine began to wait. -/
def runFrom (h : Hardware) : Nat → Nat → List Moment → State → List Moment × State
  | 0, _, past, m => (past, m)
  | limit + 1, polls, past, m =>
    let polls := if m.waiting = .nothing then 0 else polls + 1
    let settled := 0 ≤ h.patience && h.patience < polls
    let (actions, m) := m.step ⟨settled, h.angles⟩
    let past := Moment.after actions m :: past
    if m.status = .running then runFrom h limit polls past m else (past, m)

def run (h : Hardware) (limit : Nat) (image : Image) : List Moment × State :=
  let (past, m) := runFrom h limit 0 [] (.start image)
  (past.reverse, m)

end ArmStudio.Machine
