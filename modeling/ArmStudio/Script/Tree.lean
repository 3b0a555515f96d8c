import ArmStudio.Script.Keyword
import ArmStudio.Script.Scope
import ArmStudio.Script.Value

/-!
# Trees

Expressions, statements and declarations of a script. A name in an expression carries the symbol
that it was resolved to.
-/

namespace ArmStudio.Script

inductive SymbolKind where
  | variable
  | function
  deriving DecidableEq

/-- What is known of a name. Variables have a type and may be constant, functions have parameter
and result types; a slot is known once code was made. -/
structure Symbol where
  kind : SymbolKind
  varType : Option VarType
  isConst : Option Bool
  params : Option (List VarType)
  returnType : Option VarType
  slot : Option Int
  deriving DecidableEq

namespace Symbol

def ofVar (t : VarType) (isConst : Bool) : Symbol :=
  ⟨.variable, some t, some isConst, none, none, none⟩

def ofFunction (params : List VarType) (result : VarType) : Symbol :=
  ⟨.function, none, none, some params, some result, none⟩

end Symbol

/-- An expression. `hole` is a literal without a value and `blank` an expression of no form. -/
inductive Expr where
  | literal (v : Value)
  | hole
  | blank
  | unary (op : Keyword) (operand : Expr)
  | binary (op : Keyword) (left right : Expr)
  | typeName (t : VarType)
  | var (name : String) (symbol : Symbol)
  | call (func : String) (symbol : Symbol) (args : List Expr)
  | sysCall (func : Keyword) (args : List Expr)

namespace Expr

instance : Inhabited Expr := ⟨blank⟩

def form : Expr → String
  | literal _ | hole => "LiteralExpr"
  | blank => "Expr"
  | unary .. => "UnaryExpr"
  | binary .. => "BinaryExpr"
  | typeName _ => "TypeCastExpr"
  | var .. => "VarExpr"
  | call .. => "FuncCallExpr"
  | sysCall .. => "SysCallExpr"

def mention (e : Expr) : String := s!"<compiler.ast_node.{e.form} object at 0xADDR>"

def convert (e : Expr) (t : VarType) : Expr := binary .kwAs e (typeName t)

end Expr

structure VarDecl where
  type : VarType
  name : String
  isConst : Bool
  init : Option Expr

/-- A statement. `blank` is a statement of no form. -/
inductive Stmt where
  | expr (e : Expr)
  | decl (d : VarDecl)
  | ifElse (cond : Expr) (thenBody elseBody : List Stmt)
  | whileDo (cond : Expr) (body : List Stmt)
  | loop (body : List Stmt)
  | ret (value : Option Expr)
  | leaveLoop
  | blank

instance : Inhabited Stmt := ⟨.blank⟩

structure Param where
  type : VarType
  name : String
  isConst : Bool
  deriving DecidableEq

structure FuncDecl where
  name : String
  params : List Param
  returnType : VarType
  body : List Stmt
  localCount : Nat

inductive Decl where
  | var (d : VarDecl)
  | func (f : FuncDecl)

structure Program where
  decls : List Decl

abbrev Symbols := Scopes Symbol

end ArmStudio.Script
