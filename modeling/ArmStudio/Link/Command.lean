import ArmStudio.Code.Instr
import ArmStudio.Link.Wire

/-!
# Commands to the arm

Commands are one byte, followed by 32-bit floating-point numbers or integers, least significant
byte first. The arm answers with one byte: done, busy, failed or timed out.

* A command that gets no byte back counts as timed out, and one whose port fails as failed; only
  reading the state and the end of a write pass a failing port on.
* Progress of a transfer is told after every packet, before the answer to it is looked at. It is
  the integer 100 once it would be above.
-/

namespace ArmStudio.Link

open Number Script Code

abbrev Reply := UInt8

namespace Reply

def done : Reply := 0xaa
def busy : Reply := 0xad
def failed : Reply := 0xb0
def timedOut : Reply := 0xb3

end Reply

def stopByte : UInt8 := 0x55
def poseByte : UInt8 := 0x58
def jointByte : UInt8 := 0x5b
def openByte : UInt8 := 0x5e
def closeByte : UInt8 := 0x61
def stateByte : UInt8 := 0x64
def trackByte : UInt8 := 0x67
def writeByte : UInt8 := 0x6a
def readByte : UInt8 := 0x6d
def resetByte : UInt8 := 0x70
def endByte : UInt8 := 0x73
def speedByte : UInt8 := 0x76

def cleanBytes : List UInt8 := [0xab, 0xcd, 0xef, 0x01]

def packetSize : Nat := 64

def blockSize : Nat := 4096

/-- The bytes of the nearest 32-bit number; overflow goes to infinity. -/
def numberBytes (v : Value) : Except ArithError (List UInt8) := do
  return intBytes 4 (Single.ofDouble (← v.toReal)).bits.toNat

/-- The words of numbers in order. What arrives hangs on how they are rounded, so that is fixed. -/
def serialize : List Value → Except ArithError (List UInt8)
  | [] => .ok []
  | v :: rest => do
    let first ← numberBytes v
    let others ← serialize rest
    return first ++ others

def deserialize : List UInt8 → Except ShapeError (List Double)
  | [] => .ok []
  | a :: b :: c :: d :: rest => do
    let bits := a.toNat + 256 * (b.toNat + 256 * (c.toNat + 256 * d.toNat))
    let others ← deserialize rest
    return (Single.mk bits.toUInt32).toDouble :: others
  | _ => .error .notFours

def coordinateSizes : Nat × Nat := (28, 24)

namespace Talk

def numbers (values : List Value) : Talk (List UInt8) :=
  match serialize values with
  | .ok b => return b
  | .error e => throw (.number e)

def replyOf : LinkError → Reply
  | .timeout => Reply.timedOut
  | _ => Reply.failed

def guarded (t : Talk Reply) : Talk Reply := tryCatch t fun e => return replyOf e

def firstOf : List UInt8 → Reply
  | [] => Reply.timedOut
  | b :: _ => b

/-- Sends bytes and waits for the reply; `notice` is given before the reply is looked at. -/
def exchangeWith (notice : Talk Unit) (bytes : List UInt8) : Talk Reply := do
  send bytes
  let b ← receive 1
  notice
  return firstOf b

def exchange (bytes : List UInt8) : Talk Reply := exchangeWith (return ()) bytes

def andThen (t next : Talk Reply) : Talk Reply := do
  let r ← t
  if r = Reply.done then next else return r

def tracked (t : Talk Reply) : Talk Reply := do
  progress 0
  let r ← t
  progress 100
  return r

def byteCommand (b : UInt8) : Talk Reply := guarded (exchange [b])

def numbersCommand (b : UInt8) (values : List Value) : Talk Reply := do
  let bytes ← numbers values
  guarded (exchange (b :: bytes))

def stop : Talk Reply := tracked (byteCommand stopByte)

def reset : Talk Reply := tracked (byteCommand resetByte)

variable (c : Coordinates)

def movePose : Talk Reply := tracked (numbersCommand poseByte c.toList)

def moveJoints : Talk Reply := tracked (numbersCommand jointByte c.toList)

def setSpeed : Talk Reply := tracked (numbersCommand speedByte c.toList)

def openGripper : Talk Reply := byteCommand openByte

def closeGripper : Talk Reply := byteCommand closeByte

/-- Tells where a tracked object is. The number of the object is cut to 32 bits. -/
def track (x y rotation id : Value) : Talk Reply := do
  let place ← numbers [x, y, rotation]
  match id.toInt? with
  | none => throw (.number (.badOperands "&" id.kind "int"))
  | some n => guarded (exchange (trackByte :: place ++ intBytes 4 n))

structure ArmState where
  reply : Reply
  joints : List Value

def noJoints : List Value := List.replicate 6 (.int 0)

def readStateBody : Talk ArmState := do
  send [stateByte]
  let b ← receive packet
  if b.length ≠ packet then return ⟨Reply.timedOut, noJoints⟩
  else if b.head? ≠ some Reply.done then return ⟨Reply.failed, noJoints⟩
  else return ⟨Reply.done, ((deserialize (b.drop 4)).toOption.getD []).map .real⟩
where
  packet : Nat := 28

/-- Reads the state, with its progress shown also where the port fails. -/
def readState : Talk ArmState := do
  progress 0
  let r ← tryCatch readStateBody fun
    | .timeout => return ⟨Reply.timedOut, noJoints⟩
    | e => do
      progress 100
      throw e
  progress 100
  return r

/-! ## Flash -/

def writeCommand (address : Int) : List UInt8 := writeByte :: intBytes 4 address

variable (address length : Int)

def readCommand : List UInt8 :=
  readByte :: intBytes 4 address ++ intBytes 4 length

def advance (percent : Double) (part : Nat) (size : Double) : Double :=
  let next := percent + .ofNat part / size * .ofNat 100
  if (Double.ofNat 100).lt next then .ofNat 100 else next

def percentValue (percent : Double) (part : Nat) (size : Double) : Value :=
  let next := percent + .ofNat part / size * .ofNat 100
  if (Double.ofNat 100).lt next then .int 100 else .real next

def divisor (size : Int) : Except ArithError Double :=
  match Double.ofInt? size with
  | none => .error .intTooLarge
  | some s => if s.isZero then .error .realDivisionByZero else .ok s

def pieces (n : Nat) (bytes : List UInt8) : List (List UInt8) :=
  (List.range ((bytes.length + n - 1) / n)).map fun i => (bytes.drop (n * i)).take n

def padded (packet : List UInt8) : List UInt8 :=
  packet ++ List.replicate (packetSize - packet.length) 0xff

def packetsOf (content : List UInt8) : List (List UInt8) :=
  ((pieces blockSize content).flatMap (pieces packetSize)).map padded

def sendPacket (size percent : Double) (packet : List UInt8) : Talk Reply :=
  guarded (exchangeWith (tell (.progress (percentValue percent packet.length size))) packet)

def sendPackets (size : Double) : Double → List (List UInt8) → Talk Reply
  | _, [] => return Reply.done
  | percent, packet :: rest =>
    (sendPacket size percent packet).andThen
      (sendPackets size (advance percent packet.length size) rest)

def tellWritten : Talk Unit := do
  progress 100
  tell (.infoWindow "写入Flash成功")

/-- Ends a write. A port that fails other than by a timeout is passed on. -/
def endWrite : Talk Reply := tryCatch (exchangeWith tellWritten [endByte]) fun
    | .timeout => return Reply.timedOut
    | e => throw e

/-- A file that is not found: the panel is told, and the task counts as done. -/
def notFound : Talk Reply := do
  tell (.errorWindow "文件无法打开")
  return Reply.done

/-- Writes a file into the flash. That the path is that of a directory is passed on as a failure. -/
def writeFlash (address : Int) (path : String) : Talk Reply :=
  (guarded (exchange (writeCommand address))).andThen do
    progress 0
    let disk := (← get).disk
    match disk.read? path with
    | none => if disk.isDir path then throw .failure else notFound
    | some content =>
      (sendPackets (.ofNat content.length) .zero (packetsOf content)).andThen endWrite

variable (path : String)

def save (bytes : List UInt8) : Talk Unit := modify fun w =>
    { w with disk := w.disk.write path ((w.disk.read? path).getD [] ++ bytes) }

def keepPacket (size : Int) (percent : Double) (packet : List UInt8) : Talk Double := do
  save path packet
  send [Reply.done]
  match divisor size with
  | .error e => throw (.number e)
  | .ok s =>
    tell (.progress (percentValue percent packetSize s))
    return advance percent packetSize s

def tellRead : Talk Unit := do
  progress 100
  tell (.infoWindow "读取Flash成功")

/-- Receives packets into a file until the arm is done. Only full packets are saved. -/
def receivePackets (path : String) (size : Int) : Nat → Double → Talk Reply
  | 0, _ => return Reply.failed
  | fuel + 1, percent => do
    let b ← receive packetSize
    if b.length = packetSize then
      let next ← keepPacket path size percent b
      receivePackets path size fuel next
    else if b = [Reply.done] then
      tellRead
      return Reply.done
    else return Reply.failed

def fetch : Talk Reply := do
  send (readCommand address length)
  receivePackets path length ((← get).readings.length + 1) .zero

/-- Reads a stretch of the flash into a file. The file is there as soon as it can be. -/
def readFlash : Talk Reply := do
  progress 0
  let disk := (← get).disk
  if disk.canWrite path then
    modify fun w => { w with disk := w.disk.write path [] }
    guarded (fetch address length path)
  else if disk.isDir path then return Reply.failed
  else notFound

def awaitClean : Nat → Int → Talk Reply
  | 0, _ => return Reply.timedOut
  | fuel + 1, percent => do
    progress percent
    let b ← receive 1
    if b.head? = some Reply.done then
      progress 100
      tell (.infoWindow "擦除Flash成功")
      return Reply.done
    else awaitClean fuel (percent + 1)

def cleanFlash : Talk Reply := do
  progress 0
  guarded do
    send cleanBytes
    let b ← receive 1
    if b.head? ≠ some Reply.done then return Reply.failed
    awaitClean 100 1

def openPort (port : String) (baud : Int) (timeout : Value) : Talk Unit := do
  if (← get).isOpen then
    emit .closed
    modify fun w => { w with isOpen := false }
  emit (.opened port baud timeout)
  if (← get).ports.contains port then
    modify fun w => { w with isOpen := true }
    tell (.openPort "OK")
  else tell (.openPort "FAILED")

end Talk

end ArmStudio.Link
