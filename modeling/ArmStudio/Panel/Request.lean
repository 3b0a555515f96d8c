import ArmStudio.Build
import ArmStudio.Link.Message
import ArmStudio.Panel.Field

/-!
# Requests

What the buttons of the panel ask for, given the texts of the fields: a task for the link, or a
notice that an input is wrong. The first wrong input is the one that is told.
-/

namespace ArmStudio.Panel

open Link Number Script

inductive Request where
  | task (m : Message)
  | notice (m : Message)
  deriving DecidableEq

namespace Request

def wrong (text : String) : Request := notice (.errorWindow text)

def six? (read : String → Option Double) (texts : List String) : Option Coordinates := do
  let values ← texts.mapM read
  (Coordinates.ofList (values.map Value.real)).toOption

variable (texts : List String)

def setSpeed : Request :=
  match six? speed? texts with
  | some c => task (.setSpeed c)
  | none => wrong "请输入速度参数"

def movePose : Request :=
  match six? number? texts with
  | some c => task (.movePose c)
  | none => wrong "请输入参数"

def moveJoints : Request :=
  match six? number? texts with
  | some c => task (.moveJoints c)
  | none => wrong "请输入参数"

def readFlash (address length path : String) : Request :=
  match address? address readBase with
  | none => wrong "读Flash起始地址输入错误"
  | some a =>
    match address? length lengthBase with
    | none => wrong "读Flash长度输入错误"
    | some l => if a + l > flashEnd then wrong "读Flash长度超出范围" else task (.readFlash a l path)

def writeFlash (address path : String) : Request :=
  match address? address 256 with
  | none => wrong "写入地址输入错误"
  | some a => task (.writeFlash a path)

def programAddress : Int := 0x01ff3000

def download (path : String) : Request := task (.writeFlash programAddress path)

def downloadBuilt (b : Build) (source : String) : Option Request :=
  if b.success then some (download (byteFile source)) else none

end Request

end ArmStudio.Panel
