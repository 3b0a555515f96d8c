/-!
# Keywords

Words, operators and marks of the script language, in the order that numbers them, with

* the spelling of the words and the names by which trees and messages mention keywords;
* the binding power of operators and which of them stand before or between operands;
* the arguments and results of system calls.
-/

namespace ArmStudio.Script

inductive VarType where
  | auto
  | void
  | int
  | float
  deriving DecidableEq, Inhabited

namespace VarType

def name : VarType → String
  | auto => "AUTO"
  | void => "VOID"
  | int => "INT"
  | float => "FLOAT"

/-- The name with its class, as messages give it. -/
def qualified (t : VarType) : String := "VarType." ++ t.name

def ofName? (s : String) : Option VarType := [auto, void, int, float].find? fun t => t.name == s

end VarType

inductive Keyword where
  | kwFn
  | arrow
  | kwReturn
  | kwLet
  | kwConst
  | colon
  | kwInt
  | kwFloat
  | assign
  | kwAs
  | kwIf
  | kwElse
  | kwWhile
  | kwLoop
  | kwBreak
  | equal
  | notEqual
  | greater
  | less
  | greaterEqual
  | lessEqual
  | logicalAnd
  | logicalOr
  | logicalNot
  | plus
  | minus
  | times
  | divide
  | modulo
  | addAssign
  | subAssign
  | mulAssign
  | divAssign
  | modAssign
  | bitAnd
  | bitOr
  | bitXor
  | bitNot
  | andAssign
  | orAssign
  | xorAssign
  | shiftLeft
  | shiftRight
  | shlAssign
  | shrAssign
  | delay
  | reset
  | wait
  | waitJoint
  | movJoint
  | setJoint
  | readJoint
  | movOrthCoord
  | setOrthCoord
  | movJointCoord
  | setJointCoord
  | gripperOpen
  | gripperClose
  | setJointSpeed
  | oledShowInt
  | leftParen
  | rightParen
  | leftBrace
  | rightBrace
  | comma
  | semicolon
  | print
  deriving DecidableEq

namespace Keyword

def all : List Keyword :=
  [kwFn, arrow, kwReturn, kwLet, kwConst, colon, kwInt, kwFloat, assign, kwAs, kwIf, kwElse,
    kwWhile, kwLoop, kwBreak, equal, notEqual, greater, less, greaterEqual, lessEqual, logicalAnd,
    logicalOr, logicalNot, plus, minus, times, divide, modulo, addAssign, subAssign, mulAssign,
    divAssign, modAssign, bitAnd, bitOr, bitXor, bitNot, andAssign, orAssign, xorAssign, shiftLeft,
    shiftRight, shlAssign, shrAssign, delay, reset, wait, waitJoint, movJoint, setJoint, readJoint,
    movOrthCoord, setOrthCoord, movJointCoord, setJointCoord, gripperOpen, gripperClose,
    setJointSpeed, oledShowInt, leftParen, rightParen, leftBrace, rightBrace, comma, semicolon,
    print]

def number (k : Keyword) : Nat := k.ctorIdx + 1

def name : Keyword → String
  | kwFn => "FN"
  | arrow => "ARROW"
  | kwReturn => "RETURN"
  | kwLet => "LET"
  | kwConst => "CONST"
  | colon => "COLON"
  | kwInt => "INT"
  | kwFloat => "FLOAT"
  | assign => "ASSIGNMENT"
  | kwAs => "AS"
  | kwIf => "IF"
  | kwElse => "ELSE"
  | kwWhile => "WHILE"
  | kwLoop => "LOOP"
  | kwBreak => "BREAK"
  | equal => "EQUAL"
  | notEqual => "NOT_EQUAL"
  | greater => "GREATER"
  | less => "LESS"
  | greaterEqual => "GREATER_EQUAL"
  | lessEqual => "LESS_EQUAL"
  | logicalAnd => "AND"
  | logicalOr => "OR"
  | logicalNot => "NOT"
  | plus => "PLUS"
  | minus => "MINUS"
  | times => "MULTIPLY"
  | divide => "DIVIDE"
  | modulo => "MODULO"
  | addAssign => "ADD_ASSIGNMENT"
  | subAssign => "SUBTRACT_ASSIGNMENT"
  | mulAssign => "MULTIPLY_ASSIGNMENT"
  | divAssign => "DIVIDE_ASSIGNMENT"
  | modAssign => "MODULO_ASSIGNMENT"
  | bitAnd => "BIT_AND"
  | bitOr => "BIT_OR"
  | bitXor => "BIT_XOR"
  | bitNot => "BIT_NOT"
  | andAssign => "BIT_AND_ASSIGNMENT"
  | orAssign => "BIT_OR_ASSIGNMENT"
  | xorAssign => "BIT_XOR_ASSIGNMENT"
  | shiftLeft => "LEFT_SHIFT"
  | shiftRight => "RIGHT_SHIFT"
  | shlAssign => "LEFT_SHIFT_ASSIGNMENT"
  | shrAssign => "RIGHT_SHIFT_ASSIGNMENT"
  | delay => "DELAY"
  | reset => "RESET"
  | wait => "WAIT"
  | waitJoint => "WAIT_JOINT"
  | movJoint => "MOV_JOINT"
  | setJoint => "SET_JOINT"
  | readJoint => "READ_JOINT"
  | movOrthCoord => "MOV_ORTH_COORD"
  | setOrthCoord => "SET_ORTH_COORD"
  | movJointCoord => "MOV_JOINT_COORD"
  | setJointCoord => "SET_JOINT_COORD"
  | gripperOpen => "GRIPPER_OPEN"
  | gripperClose => "GRIPPER_CLOSE"
  | setJointSpeed => "SET_JOINT_SPEED"
  | oledShowInt => "OLED_SHOW_INT"
  | leftParen => "LEFT_PARENTHESIS"
  | rightParen => "RIGHT_PARENTHESIS"
  | leftBrace => "LEFT_BRACE"
  | rightBrace => "RIGHT_BRACE"
  | comma => "COMMA"
  | semicolon => "SEMICOLON"
  | print => "PRINT"

def qualified (k : Keyword) : String := "KeywordType." ++ k.name

def ofName? (s : String) : Option Keyword := all.find? fun k => k.name == s

def words : List (String × Keyword) :=
  [("fn", kwFn), ("return", kwReturn), ("let", kwLet), ("const", kwConst), ("int", kwInt),
    ("float", kwFloat), ("as", kwAs), ("if", kwIf), ("else", kwElse), ("while", kwWhile),
    ("loop", kwLoop), ("break", kwBreak), ("delay", delay), ("reset", reset), ("wait", wait),
    ("wait_joint", waitJoint), ("mov_joint", movJoint), ("set_joint", setJoint),
    ("read_joint", readJoint), ("mov_orth_coord", movOrthCoord),
    ("set_orth_coord", setOrthCoord), ("mov_joint_coord", movJointCoord),
    ("set_joint_coord", setJointCoord), ("gripper_open", gripperOpen),
    ("gripper_close", gripperClose), ("set_joint_speed", setJointSpeed),
    ("oled_show_int", oledShowInt), ("print", print)]

def ofWord? (s : String) : Option Keyword := words.lookup s

/-- The binding power of an operator; a larger one binds closer. -/
def precedence? : Keyword → Option Nat
  | assign | addAssign | subAssign | mulAssign | divAssign | modAssign | orAssign | xorAssign
  | andAssign | shlAssign | shrAssign => some 10
  | logicalOr => some 20
  | logicalAnd => some 30
  | bitOr => some 40
  | bitXor => some 50
  | bitAnd => some 60
  | equal | notEqual => some 70
  | less | lessEqual | greater | greaterEqual => some 80
  | shiftLeft | shiftRight => some 90
  | plus | minus => some 100
  | times | divide | modulo => some 110
  | logicalNot | bitNot | kwAs => some 120
  | _ => none

/-- Operators that stand before their operand. -/
def isUnary : Keyword → Bool
  | logicalNot | bitNot | minus => true
  | _ => false

/-- Operators that stand between their operands. -/
def isBinary (k : Keyword) : Bool := k.precedence?.isSome && k != logicalNot && k != bitNot

/-- The binding power with which the operand of a unary operator is read. -/
def unaryPower : Nat := 120

/-- A keyword that starts a system call. Marks and braces are numbered among the calls and count
as such. -/
def startsCall (k : Keyword) : Bool := delay.number ≤ k.number && k.number ≤ print.number

def varType? : Keyword → Option VarType
  | kwInt => some .int
  | kwFloat => some .float
  | _ => none

def callResult : Keyword → VarType
  | readJoint => .float
  | _ => .void

def callParams : Keyword → List VarType
  | delay | waitJoint | readJoint | print => [.int]
  | movJoint | setJoint | setJointSpeed => [.int, .float]
  | movOrthCoord | setOrthCoord => List.replicate 4 .float
  | movJointCoord | setJointCoord => List.replicate 6 .float
  | oledShowInt => List.replicate 4 .int
  | _ => []

def isAssignment : Keyword → Bool
  | assign | addAssign | subAssign | mulAssign | divAssign | modAssign | andAssign | orAssign
  | xorAssign | shlAssign | shrAssign => true
  | _ => false

end Keyword

end ArmStudio.Script
