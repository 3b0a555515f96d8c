import ArmStudio.Link.Command

/-!
# Tasks

What the link does with the messages that it is given. A reply other than done is told in an error
window.
-/

namespace ArmStudio.Link

open Number Script

namespace Talk

def tellReply (r : Int) : Talk Unit := do
  if r = Reply.busy.toNat then tell (.errorWindow "机械臂繁忙")
  else if r = Reply.failed.toNat then tell (.errorWindow "出现未知错误")
  else if r = Reply.timedOut.toNat then tell (.errorWindow "通信超时")

def report (t : Talk Reply) : Talk Unit := do tellReply (← t).toNat

def stateText (joints : List Value) : String :=
  let text (i : Nat) : String :=
    match joints[i]? with
    | some (.real x) => x.fixed 2
    | _ => "0.00"
  s!"M1: {text 0}  M2: {text 1}  M3: {text 2}\nM4: {text 3}  S1: {text 4}  S2: {text 5}\n"

def baudRate : Int := 115200
def portTimeout : Value := .int 1

/-- Does a task. Messages that are no tasks are passed over. -/
def perform : Message → Talk Unit
  | .openPort port => openPort port baudRate portTimeout
  | .reset => report reset
  | .stop => report stop
  | .openGripper => report openGripper
  | .closeGripper => report closeGripper
  | .movePose c => report (movePose c)
  | .moveJoints c => report (moveJoints c)
  | .setSpeed c => report (setSpeed c)
  | .readState => do
    let s ← readState
    if s.reply = Reply.done then tell (.showText (stateText s.joints))
    else tell (.showText "获取状态失败")
  | .writeFlash address path => report (writeFlash address path)
  | .readFlash address length path => report (readFlash address length path)
  | .cleanFlash => report cleanFlash
  | .track x y rotation id => report (track x y rotation id)
  | _ => return ()

def performData (kind : Int) (data : Document) : Talk Unit :=
  match Message.ofTask kind data with
  | .ok m => perform m
  | .error e => throw (.data e)

end Talk

end ArmStudio.Link
