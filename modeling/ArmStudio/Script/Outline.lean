import ArmStudio.Document
import ArmStudio.Script.Typing

/-!
# Outlines of trees

The outline of a tree is a document that shows its form. A variable is shown with its type, so a
tree that names a function as a variable has no outline.
-/

namespace ArmStudio.Script

open Document (record text list)

def Value.document : Value → Document
  | flag b => .flag b
  | int n => .int n
  | real x => .real x

mutual

def Expr.outline : Expr → Except TypeError Document
  | .literal v => .ok (record [("type", text "literal"), ("value", v.document)])
  | .hole => .ok (record [("type", text "literal"), ("value", .null)])
  | .blank => .ok .null
  | .unary op e => do
    return record [("type", text "unary"), ("op", text op.name), ("operand", ← e.outline)]
  | .binary op a b => do
    let left ← a.outline
    let right ← b.outline
    return record [("type", text "binary"), ("op", text op.name), ("left", left), ("right", right)]
  | .typeName t => .ok (record [("type", text "type_cast"), ("var_type", text t.name)])
  | .var name symbol => do
    let t ← require .varType symbol.varType
    return record [("type", text "var"), ("name", text name), ("var_type", text t.name)]
  | .call func _ args => do
    return record [("type", text "func_call"), ("func", text func),
      ("args", list (← outlines args))]
  | .sysCall func args => do
    return record [("type", text "sys_call"), ("func", text func.name),
      ("args", list (← outlines args))]

def outlines : List Expr → Except TypeError (List Document)
  | [] => .ok []
  | e :: rest => do
    let first ← e.outline
    let others ← outlines rest
    return first :: others

end

def optionOutline : Option Expr → Except TypeError Document
  | none => .ok .null
  | some e => e.outline

def VarDecl.outline (d : VarDecl) : Except TypeError Document := do
  return record [("type", text "var_decl"), ("var_type", text d.type.name),
    ("var_name", text d.name), ("is_const", .flag d.isConst), ("init_expr", ← optionOutline d.init)]

mutual

def Stmt.outline : Stmt → Except TypeError Document
  | .expr e => e.outline
  | .decl d => d.outline
  | .ifElse cond thenBody elseBody => do
    let c ← cond.outline
    let yes ← blockOutlines thenBody
    let no ← blockOutlines elseBody
    return record [("type", text "if_stmt"), ("cond_expr", c), ("then_stmt", list yes),
      ("else_stmt", list no)]
  | .whileDo cond body => do
    let c ← cond.outline
    return record [("type", text "while_stmt"), ("cond_expr", c),
      ("body", list (← blockOutlines body))]
  | .loop body => do
    return record [("type", text "loop_stmt"), ("body", list (← blockOutlines body))]
  | .ret value => do return record [("type", text "return_stmt"), ("expr", ← optionOutline value)]
  | .leaveLoop => .ok (record [("type", text "break_stmt")])
  | .blank => .ok .null

def blockOutlines : List Stmt → Except TypeError (List Document)
  | [] => .ok []
  | s :: rest => do
    let first ← s.outline
    let others ← blockOutlines rest
    return first :: others

end

def Param.outline (p : Param) : Document :=
  record [("var_type", text p.type.name), ("var_name", text p.name)]

def FuncDecl.outline (f : FuncDecl) : Except TypeError Document := do
  return record [("type", text "func_decl"), ("name", text f.name),
    ("params", list (f.params.map Param.outline)), ("return_type", text f.returnType.name),
    ("body", list (← blockOutlines f.body)), ("local_var_num", .nat f.localCount)]

def Decl.outline : Decl → Except TypeError Document
  | .var d => d.outline
  | .func f => f.outline

def Program.outline (p : Program) : Except TypeError Document := do
  return record [("global_decls", list (← p.decls.mapM Decl.outline))]

namespace Symbol

def document (s : Symbol) : Document :=
  let typeText (t : VarType) : Document := text t.name
  let field {α : Type} (name : String) (f : α → Document) (a : Option α) :
      List (String × Document) := a.toList.map fun a => (name, f a)
  record ([("type", text (match s.kind with | .variable => "var" | .function => "fn"))] ++
    field "params" (fun ps => list (ps.map typeText)) s.params ++
    field "return_type" typeText s.returnType ++
    field "var_type" typeText s.varType ++
    field "is_const" Document.flag s.isConst ++
    field "offset" Document.int s.slot)

end Symbol

end ArmStudio.Script
