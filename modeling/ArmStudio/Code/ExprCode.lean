import ArmStudio.Code.Storage

/-!
# Code of expressions

Operands are computed from left to right onto the stack. An expression whose result is not wanted
drops it, with three exceptions: a conversion leaves its result, a conversion to the type that the
operand already has makes no code at all, and a call drops a result also where it has none.
-/

namespace ArmStudio.Code

open Script

/-- The operations of an operator on integers and, where it has one, on floating-point numbers. -/
def operatorCode? : Keyword → Option (Opcode × Option Opcode)
  | .equal => some (.ieq, some .feq)
  | .notEqual => some (.ine, some .fne)
  | .greater => some (.igt, some .fgt)
  | .less => some (.ilt, some .flt)
  | .greaterEqual => some (.ige, some .fge)
  | .lessEqual => some (.ile, some .fle)
  | .logicalAnd => some (.band, none)
  | .logicalOr => some (.bor, none)
  | .plus | .addAssign => some (.iadd, some .fadd)
  | .minus | .subAssign => some (.isub, some .fsub)
  | .times | .mulAssign => some (.imul, some .fmul)
  | .divide | .divAssign => some (.idiv, some .fdiv)
  | .modulo | .modAssign => some (.imod, none)
  | .bitAnd | .andAssign => some (.band, none)
  | .bitOr | .orAssign => some (.bor, none)
  | .bitXor | .xorAssign => some (.bxor, none)
  | .shiftLeft | .shlAssign => some (.shl, none)
  | .shiftRight | .shrAssign => some (.shr, none)
  | _ => none

def callCode? : Keyword → Option Opcode
  | .delay => some .delay
  | .reset => some .rst
  | .wait => some .wait
  | .waitJoint => some .waitj
  | .movJoint => some .movj
  | .setJoint => some .setj
  | .readJoint => some .readj
  | .movOrthCoord => some .movoc
  | .setOrthCoord => some .setoc
  | .movJointCoord => some .movjc
  | .setJointCoord => some .setjc
  | .gripperOpen => some .gripperOpen
  | .gripperClose => some .gripperClose
  | .setJointSpeed => some .setjspd
  | .oledShowInt => some .oledi
  | .print => some .print
  | _ => none

def typedCode (op : Keyword) (lt rt : VarType) : Except GenError Instr :=
  match operatorCode? op with
  | none => .error (.binaryOperator op)
  | some (onInt, onFloat?) =>
    match lt, rt, onFloat? with
    | .int, .int, _ => .ok (.plain onInt)
    | .float, .float, some onFloat => .ok (.plain onFloat)
    | _, _, _ => .error (.binaryOperator op)

def slotOf (symbols : Symbols) (name : String) : Except GenError Int :=
  ((symbolOf symbols name).bind fun s => require .slot s.slot).mapError .type

variable (storage : Storage)

/-- Loads a variable: a constant, a global or a local one, in this order. -/
def loadVar (symbols : Symbols) (name : String) : Except GenError Instr :=
  match storage.constantOffset? name, storage.globalOffset? name with
  | some offset, _ => .ok ⟨.loadk, [.u16 (.ofInt offset)]⟩
  | none, some offset => .ok ⟨.loadg, [.u16 (.ofInt offset)]⟩
  | none, none => do return ⟨.loadl, [.u8 (.ofInt (← slotOf symbols name))]⟩

def storeVar (symbols : Symbols) (name : String) : Except GenError Instr :=
  match storage.globalOffset? name with
  | some offset => .ok ⟨.storg, [.u16 (.ofInt offset)]⟩
  | none => do return ⟨.storl, [.u8 (.ofInt (← slotOf symbols name))]⟩

def dropUnless (wanted : Bool) : List Instr := if wanted then [] else [.plain .pop]

/-- Stores what is on the stack into the left side and loads it again where it is wanted. -/
def assignCode (symbols : Symbols) (wanted : Bool) (left : Expr)
    (onOther : GenError) : Except GenError (List Instr) :=
  match left with
  | .var name _ => do
    let store ← storeVar storage symbols name
    if wanted then return [store, ← loadVar storage symbols name] else return [store]
  | _ => .error onOther

def literalCode (v : Value) : Instr :=
  match v with
  | .real _ => ⟨.immf, [.f32 (.value v)]⟩
  | _ => ⟨.immi, [.u32 (.value v)]⟩

def conversionCode (target : VarType) (operand : List Instr) : List Instr :=
  match target with
  | .int => operand ++ [.plain .f2i]
  | .float => operand ++ [.plain .i2f]
  | _ => operand

def unaryCode (symbols : Symbols) (op : Keyword) (operand : Expr) : Except GenError Instr :=
  match op with
  | .minus => do
    let t ← (typeOf symbols operand).mapError GenError.type
    return .plain (if t = .int then .ineg else .fneg)
  | .logicalNot => .ok (.plain .lnot)
  | .bitNot => .ok (.plain .bnot)
  | _ => .error (.unaryOperator op)

def callTail (func : Keyword) (wanted : Bool) : Except GenError (List Instr) :=
  match callCode? func with
  | none => .error (.systemCall func)
  | some op => .ok (.plain op :: if func = .readJoint then dropUnless wanted else [])

mutual

def exprCode (storage : Storage) (symbols : Symbols) : Bool → Expr → Except GenError (List Instr)
  | wanted, .unary op e =>
    if op.isUnary then do
      let operand ← exprCode storage symbols true e
      let last ← unaryCode symbols op e
      return operand ++ [last] ++ dropUnless wanted
    else .error (.unaryOperator op)
  | wanted, .binary .assign a b => do
    let right ← exprCode storage symbols true b
    let tail ← assignCode storage symbols wanted a (.binaryOperator .assign)
    return right ++ tail
  | _, .binary .kwAs a b =>
    match b with
    | .typeName target => do
      let t ← (typeOf symbols a).mapError GenError.type
      if target = t then return []
      else return conversionCode target (← exprCode storage symbols true a)
    | _ => .error (.binaryOperator .kwAs)
  | wanted, .binary op a b =>
    if (operatorCode? op).isSome then do
      let left ← exprCode storage symbols true a
      let right ← exprCode storage symbols true b
      let lt ← (typeOf symbols a).mapError GenError.type
      let rt ← (typeOf symbols b).mapError GenError.type
      let last ← typedCode op lt rt
      let tail ←
        if op.isAssignment then assignCode storage symbols wanted a (.target a.mention)
        else pure (dropUnless wanted)
      return left ++ right ++ [last] ++ tail
    else .error (.binaryOperator op)
  | wanted, .literal v => .ok (literalCode v :: dropUnless wanted)
  | wanted, .hole => .ok (⟨.immf, [.f32 .nothing]⟩ :: dropUnless wanted)
  | wanted, .var name _ => do
    let load ← loadVar storage symbols name
    return load :: dropUnless wanted
  | wanted, .call func symbol args => do
    let result ← (require .returnType symbol.returnType).mapError GenError.type
    if result = .void ∧ wanted = true then throw .voidCall
    let code ← argsCode storage symbols args
    return code ++ [⟨.call, [.label func none, .u8 (.ofInt args.length)]⟩] ++ dropUnless wanted
  | wanted, .sysCall func args =>
    if func ≠ .readJoint ∧ wanted = true then .error .voidSystemCall
    else do
      let code ← argsCode storage symbols args
      let tail ← callTail func wanted
      return code ++ tail
  | _, .typeName _ => .ok []
  | _, .blank => .ok []

def argsCode (storage : Storage) (symbols : Symbols) : List Expr → Except GenError (List Instr)
  | [] => .ok []
  | a :: rest => do
    let first ← exprCode storage symbols true a
    let others ← argsCode storage symbols rest
    return first ++ others

end

end ArmStudio.Code
