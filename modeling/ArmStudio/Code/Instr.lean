import ArmStudio.Script.Value

/-!
# Instructions

An instruction is an operation with operands. Operands are words of one, two or four bytes, 32-bit
floating-point numbers and labels; all are written least significant byte first.
-/

namespace ArmStudio.Code

open Number Script

/-- Operations of the machine; `label` marks a place and has no code. -/
inductive Opcode where
  | nop
  | halt
  | jmp
  | jz
  | jnz
  | call
  | enter
  | ret
  | ret0
  | loadk
  | loadg
  | loadl
  | immi
  | immf
  | pop
  | storl
  | storg
  | iadd
  | isub
  | imul
  | idiv
  | imod
  | ineg
  | fadd
  | fsub
  | fmul
  | fdiv
  | fneg
  | lnot
  | land
  | lor
  | band
  | bor
  | bxor
  | bnot
  | shl
  | shr
  | ieq
  | ine
  | igt
  | ilt
  | ige
  | ile
  | feq
  | fne
  | fgt
  | flt
  | fge
  | fle
  | i2f
  | f2i
  | delay
  | rst
  | wait
  | waitj
  | movj
  | setj
  | readj
  | movoc
  | setoc
  | movjc
  | setjc
  | gripperOpen
  | gripperClose
  | setjspd
  | oledi
  | print
  | label
  deriving DecidableEq

namespace Opcode

def all : List Opcode :=
  [nop, halt, jmp, jz, jnz, call, enter, ret, ret0, loadk, loadg, loadl, immi, immf, pop, storl,
    storg, iadd, isub, imul, idiv, imod, ineg, fadd, fsub, fmul, fdiv, fneg, lnot, land, lor,
    band, bor, bxor, bnot, shl, shr, ieq, ine, igt, ilt, ige, ile, feq, fne, fgt, flt, fge, fle,
    i2f, f2i, delay, rst, wait, waitj, movj, setj, readj, movoc, setoc, movjc, setjc, gripperOpen,
    gripperClose, setjspd, oledi, print, label]

def code : Opcode → UInt8
  | nop => 0x00
  | halt => 0x01
  | jmp => 0x02
  | jz => 0x03
  | jnz => 0x04
  | call => 0x05
  | enter => 0x06
  | ret => 0x07
  | ret0 => 0x08
  | loadk => 0x11
  | loadg => 0x12
  | loadl => 0x13
  | immi => 0x14
  | immf => 0x15
  | pop => 0x16
  | storl => 0x17
  | storg => 0x18
  | iadd => 0x21
  | isub => 0x22
  | imul => 0x23
  | idiv => 0x24
  | imod => 0x25
  | ineg => 0x26
  | fadd => 0x31
  | fsub => 0x32
  | fmul => 0x33
  | fdiv => 0x34
  | fneg => 0x35
  | lnot => 0x41
  | land => 0x42
  | lor => 0x43
  | band => 0x51
  | bor => 0x52
  | bxor => 0x53
  | bnot => 0x54
  | shl => 0x55
  | shr => 0x56
  | ieq => 0x61
  | ine => 0x62
  | igt => 0x63
  | ilt => 0x64
  | ige => 0x65
  | ile => 0x66
  | feq => 0x71
  | fne => 0x72
  | fgt => 0x73
  | flt => 0x74
  | fge => 0x75
  | fle => 0x76
  | i2f => 0x81
  | f2i => 0x82
  | delay => 0x91
  | rst => 0x92
  | wait => 0x93
  | waitj => 0x94
  | movj => 0x95
  | setj => 0x96
  | readj => 0x97
  | movoc => 0x98
  | setoc => 0x99
  | movjc => 0x9a
  | setjc => 0x9b
  | gripperOpen => 0x9c
  | gripperClose => 0x9d
  | setjspd => 0x9e
  | oledi => 0xa1
  | print => 0xb1
  | label => 0xff

def name : Opcode → String
  | nop => "NOP"
  | halt => "HALT"
  | jmp => "JMP"
  | jz => "JZ"
  | jnz => "JNZ"
  | call => "CALL"
  | enter => "ENTER"
  | ret => "RET"
  | ret0 => "RET0"
  | loadk => "LOADK"
  | loadg => "LOADG"
  | loadl => "LOADL"
  | immi => "IMMI"
  | immf => "IMMF"
  | pop => "POP"
  | storl => "STORL"
  | storg => "STORG"
  | iadd => "IADD"
  | isub => "ISUB"
  | imul => "IMUL"
  | idiv => "IDIV"
  | imod => "IMOD"
  | ineg => "INEG"
  | fadd => "FADD"
  | fsub => "FSUB"
  | fmul => "FMUL"
  | fdiv => "FDIV"
  | fneg => "FNEG"
  | lnot => "LNOT"
  | land => "LAND"
  | lor => "LOR"
  | band => "BAND"
  | bor => "BOR"
  | bxor => "BXOR"
  | bnot => "BNOT"
  | shl => "SHL"
  | shr => "SHR"
  | ieq => "IEQ"
  | ine => "INE"
  | igt => "IGT"
  | ilt => "ILT"
  | ige => "IGE"
  | ile => "ILE"
  | feq => "FEQ"
  | fne => "FNE"
  | fgt => "FGT"
  | flt => "FLT"
  | fge => "FGE"
  | fle => "FLE"
  | i2f => "I2F"
  | f2i => "F2I"
  | delay => "DELAY"
  | rst => "RST"
  | wait => "WAIT"
  | waitj => "WAITJ"
  | movj => "MOVJ"
  | setj => "SETJ"
  | readj => "READJ"
  | movoc => "MOVOC"
  | setoc => "SETOC"
  | movjc => "MOVJC"
  | setjc => "SETJC"
  | gripperOpen => "GRIPPER_OPEN"
  | gripperClose => "GRIPPER_CLOSE"
  | setjspd => "SETJSPD"
  | oledi => "OLEDI"
  | print => "PRINT"
  | label => "LABEL"

def ofName? (s : String) : Option Opcode := all.find? fun op => op.name == s

def ofCode? (b : UInt8) : Option Opcode := all.find? fun op => op.code == b

def isJump : Opcode → Bool
  | jmp | jz | jnz | call => true
  | _ => false

end Opcode

/-- The content of an operand: a constant, a text or nothing. -/
inductive Payload where
  | value (v : Value)
  | text (s : String)
  | nothing
  deriving DecidableEq

namespace Payload

def ofInt (n : Int) : Payload := value (.int n)

def text? : Payload → Except TextError String
  | value v => v.text?
  | text s => .ok s
  | nothing => .ok "None"

def kind : Payload → String
  | value v => v.kind
  | text _ => "str"
  | nothing => "NoneType"

end Payload

/-- An operand. A label has an address once it was placed. -/
inductive Operand where
  | u8 (p : Payload)
  | u16 (p : Payload)
  | u32 (p : Payload)
  | f32 (p : Payload)
  | label (name : String) (address : Option Int)
  deriving DecidableEq

structure Instr where
  op : Opcode
  args : List Operand
  deriving DecidableEq

inductive EncodeError where
  | notAnInteger (kind : String)
  | notAReal
  | tooLarge
  | tooLargeInt
  | noAddress
  deriving DecidableEq

namespace EncodeError

def message : EncodeError → String
  | notAnInteger kind => s!"unsupported operand type(s) for &: '{kind}' and 'int'"
  | notAReal => "required argument is not a float"
  | tooLarge => "float too large to pack with f format"
  | tooLargeInt => "int too large to convert"
  | noAddress => "Label address is not set"

end EncodeError

/-- The `count` low bytes of an integer, least significant first. -/
def intBytes : Nat → Int → List UInt8
  | 0, _ => []
  | count + 1, n => (n % 256).toNat.toUInt8 :: intBytes count (n / 256)

def wordBytes (count : Nat) (p : Payload) : Except EncodeError (List UInt8) :=
  match p with
  | .value v =>
    match v.toInt? with
    | some n => .ok (intBytes count n)
    | none => .error (.notAnInteger p.kind)
  | _ => .error (.notAnInteger p.kind)

/-- The bytes of the nearest 32-bit floating-point number; a finite one that becomes infinite is
refused. -/
def realBytes (p : Payload) : Except EncodeError (List UInt8) :=
  match p with
  | .value v =>
    match v.toReal with
    | .error _ => .error .notAReal
    | .ok x =>
      let y := Single.ofDouble x
      if y.isInfinite && x.isFinite then
        .error (match v with
          | .real _ => .tooLarge
          | _ => .tooLargeInt)
      else .ok (intBytes 4 y.bits.toNat)
  | _ => .error .notAReal

namespace Operand

def text? : Operand → Except TextError String
  | u8 p | u16 p | u32 p | f32 p => p.text?
  | label name _ => .ok name

def bytes : Operand → Except EncodeError (List UInt8)
  | u8 p => wordBytes 1 p
  | u16 p => wordBytes 2 p
  | u32 p => wordBytes 4 p
  | f32 p => realBytes p
  | label _ (some address) => .ok (intBytes 2 address)
  | label _ none => .error .noAddress

end Operand

namespace Instr

def plain (op : Opcode) : Instr := ⟨op, []⟩

def text? (i : Instr) : Except TextError String := do
  let args ← i.args.mapM Operand.text?
  return i.op.name ++ " " ++ " ".intercalate args

def argBytes : List Operand → Except EncodeError (List UInt8)
  | [] => .ok []
  | a :: rest => do return (← a.bytes) ++ (← argBytes rest)

def bytes (i : Instr) : Except EncodeError (List UInt8) := do
  return i.op.code :: (← argBytes i.args)

end Instr

end ArmStudio.Code
