import ArmStudio.Script.Token
import ArmStudio.Script.Value
import ArmStudio.Text.Utf8

/-!
# Failures of the bench

Why a step at the bench does not come to its end, and how the failure is worded.
-/

namespace ArmStudio.Vision

open Number Script Text

inductive VisionError where
  | tool (text : String)
  | notOpened
  | noFirstFrame
  | emptyWarp
  | notText (cause : Utf8.DecodeError)
  | notNumber (cause : ReadError)
  | arithmetic (cause : ArithError)
  | noRegion
  | fixedMark
  | noMark
  | listEnd
  | axisEnd (index axis size : Nat)
  | dimension (given : Nat)
  | tooFew (expected got : Nat)
  | tooMany (expected : Nat)
  | notIterable (kind : String)
  | notSpread (kind : String)
  | noLength (kind : String)
  | missingField (name : String)
  | notCast
  | negativeSize
  | noWorkers
  | unequalShapes (sum frame : String)
  deriving DecidableEq

namespace VisionError

def message : VisionError → String
  | tool text => text
  | notOpened => "无法打开摄像头"
  | noFirstFrame => "无法获取第一帧"
  | emptyWarp => "Invalid warped image"
  | notText cause => cause.message
  | notNumber cause => readErrorMessage cause
  | arithmetic cause => cause.message
  | noRegion => "'Barcode' object has no attribute 'rect'"
  | fixedMark => "can't set attribute"
  | noMark => "'NoneType' object has no attribute 'rect'"
  | listEnd => "list index out of range"
  | axisEnd index axis size => s!"index {index} is out of bounds for axis {axis} with size {size}"
  | dimension given =>
    s!"too many indices for array: array is {given}-dimensional, but 2 were indexed"
  | tooFew expected got => s!"not enough values to unpack (expected {expected}, got {got})"
  | tooMany expected => s!"too many values to unpack (expected {expected})"
  | notIterable kind => s!"'{kind}' object is not iterable"
  | notSpread kind => s!"cannot unpack non-iterable {kind} object"
  | noLength kind => s!"object of type '{kind}' has no len()"
  | missingField name => s!"'{name}'"
  | notCast =>
    "Cannot cast ufunc 'multiply' output from dtype('float32') to dtype('uint8')" ++
      " with casting rule 'same_kind'"
  | negativeSize => "negative dimensions are not allowed"
  | noWorkers => "cannot access local variable 'executor' where it is not associated with a value"
  | unequalShapes sum frame =>
    s!"operands could not be broadcast together with shapes {sum} {frame} {sum} "

end VisionError

end ArmStudio.Vision
