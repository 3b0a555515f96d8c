import ArmStudio.Code.Instr
import ArmStudio.Code.Label
import ArmStudio.Script.Typing

/-!
# Storage of a program

Where constants, global and local variables were put, by name. The record of a program's storage
is also what a debugger is given.
-/

namespace ArmStudio.Code

open Script

structure ConstantInfo where
  type : VarType
  value : Value
  offset : Int

structure SlotInfo where
  type : VarType
  offset : Int

structure FunctionInfo where
  returnType : VarType
  localCount : Nat
  locals : Table SlotInfo
  paramCount : Nat

structure Storage where
  constants : Table ConstantInfo
  globals : Table SlotInfo
  functions : Table FunctionInfo

namespace Storage

def empty : Storage := ⟨.empty, .empty, .empty⟩

def constantOffset? (s : Storage) (name : String) : Option Int :=
  (s.constants.find? name).map ConstantInfo.offset

def globalOffset? (s : Storage) (name : String) : Option Int :=
  (s.globals.find? name).map SlotInfo.offset

end Storage

inductive GenError where
  | type (cause : TypeError)
  | unaryOperator (op : Keyword)
  | binaryOperator (op : Keyword)
  | target (mention : String)
  | systemCall (func : Keyword)
  | voidCall
  | voidSystemCall
  | statement (form : String)
  | constantInit
  | unknownFunction (name : String)
  deriving DecidableEq

namespace GenError

def message : GenError → String
  | type cause => cause.message
  | unaryOperator op => s!"Unsupported unary operator: {op.qualified}"
  | binaryOperator op => s!"Unsupported binary operator: {op.qualified}"
  | target mention => s!"Unsupported left operand of assignment: {mention}"
  | systemCall func => s!"Unsupported system call: {func.qualified}"
  | voidCall => "Function call with void return type must not be used as an expression"
  | voidSystemCall => "System call with no return must not be used as an expression"
  | statement form => s!"Unsupported statement type: <class 'compiler.ast_node.{form}'>"
  | constantInit => "Constant variable must be initialized with a literal value"
  | unknownFunction name => s!"'{name}'"

end GenError

end ArmStudio.Code
