/-!
# Status of the machine
-/

namespace ArmStudio.Machine

inductive Status where
  | running
  | halted
  | stackOverflow
  | stackUnderflow
  | operandUnderflow
  | badConstant
  | badGlobalRead
  | badGlobalWrite
  | badLocalRead
  | badLocalWrite
  | badProgramRead
  | overstep
  | badOperation
  | notStarted
  deriving DecidableEq

namespace Status

def all : List Status :=
  [running, halted, stackOverflow, stackUnderflow, operandUnderflow, badConstant, badGlobalRead,
    badGlobalWrite, badLocalRead, badLocalWrite, badProgramRead, overstep, badOperation,
    notStarted]

def code : Status → Int
  | running => 0x00
  | halted => 0x01
  | stackOverflow => 0x11
  | stackUnderflow => 0x12
  | operandUnderflow => 0x13
  | badConstant => 0x21
  | badGlobalRead => 0x22
  | badGlobalWrite => 0x23
  | badLocalRead => 0x24
  | badLocalWrite => 0x25
  | badProgramRead => 0x31
  | overstep => 0x32
  | badOperation => 0x33
  | notStarted => 0x41

def text : Status → String
  | running => "RUNNING"
  | halted => "HALT"
  | stackOverflow => "STACK OVERFLOW"
  | stackUnderflow => "STACK UNDERFLOW"
  | operandUnderflow => "OPERANT STACK UNDERFLOW"
  | badConstant => "READ INVALID CONSTANT"
  | badGlobalRead => "READ INVALID GLOBAL VARIABLE"
  | badGlobalWrite => "WRITE INVALID GLOBAL VARIABLE"
  | badLocalRead => "READ INVALID LOCAL VARIABLE"
  | badLocalWrite => "WRITE INVALID VARIABLE"
  | badProgramRead => "READ INVALID PROGRAM"
  | overstep => "PORGRAM OVERSTEP"
  | badOperation => "INVALID OPERATOR"
  | notStarted => "INIT FAILED"

def ofCode? (code : Int) : Option Status := all.find? fun s => s.code == code

def textOfCode (code : Int) : String := ((ofCode? code).map text).getD "UNKNOW ERROR"

end Status

end ArmStudio.Machine
