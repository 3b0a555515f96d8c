import ArmStudio.Disk
import ArmStudio.Link.Message

/-!
# The wire

A conversation over a serial port, as a function of what the port answers. `Talk` is a part of a
conversation: it takes answers, leaves a trace of events, and may fail. What it did before it failed
stays done.

Every read is answered by the next reading; used-up readings give nothing, and used-up writings
succeed.
-/

namespace ArmStudio.Link

open Number Script

inductive Answer where
  | bytes (b : List UInt8)
  | timeout
  | failure
  deriving DecidableEq

inductive Event where
  | wrote (bytes : List UInt8)
  | asked (size : Nat)
  | monitored (text : String)
  | told (message : Message)
  | opened (port : String) (baud : Int) (timeout : Value)
  | closed
  deriving DecidableEq

inductive LinkError where
  | timeout
  | failure
  | number (cause : ArithError)
  | data (cause : Message.DataError)
  deriving DecidableEq

namespace LinkError

def message : LinkError → String
  | timeout => "Write timeout"
  | failure => "io"
  | number cause => cause.message
  | data cause => cause.message

end LinkError

structure Wire where
  readings : List Answer
  writings : List Answer
  ports : List String
  isOpen : Bool
  monitor : Bool
  disk : Disk
  trace : Array Event

abbrev Talk := ExceptT LinkError (StateM Wire)

namespace Talk

def emit (e : Event) : Talk Unit := modify fun w => { w with trace := w.trace.push e }

def tell (m : Message) : Talk Unit := emit (.told m)

def progress (percent : Int) : Talk Unit := tell (.progress (.int percent))

def nextReading : Talk Answer := modifyGet fun w =>
  match w.readings with
  | [] => (.bytes [], w)
  | a :: rest => (a, { w with readings := rest })

def nextWriting : Talk Answer := modifyGet fun w =>
  match w.writings with
  | [] => (.bytes [], w)
  | a :: rest => (a, { w with writings := rest })

def accept : Answer → Talk (List UInt8)
  | .bytes b => return b
  | .timeout => throw .timeout
  | .failure => throw .failure

/-- Bytes as the monitor shows them: in groups of two, counted from the end. -/
def grouped : List UInt8 → String
  | [] => ""
  | b :: rest =>
    let head := hexWide 2 b.toNat
    if rest.isEmpty then head
    else if rest.length % 2 = 0 then head ++ " " ++ grouped rest
    else head ++ grouped rest

def watch (bytes : List UInt8) : Talk Unit := do
  if (← get).monitor then emit (.monitored (grouped bytes))

def send (bytes : List UInt8) : Talk Unit := do
  emit (.wrote bytes)
  let _ ← accept (← nextWriting)
  watch bytes

def receive (size : Nat) : Talk (List UInt8) := do
  emit (.asked size)
  let b := (← accept (← nextReading)).take size
  watch b
  return b

end Talk

end ArmStudio.Link
