import ArmStudio.Code.Storage
import ArmStudio.Script.Outline

/-!
# Storage as a document
-/

namespace ArmStudio.Code

open Script
open Document (record text)

def ConstantInfo.document (c : ConstantInfo) : Document :=
  record [("type", text c.type.name), ("value", c.value.document), ("offset", .int c.offset)]

def SlotInfo.document (s : SlotInfo) : Document :=
  record [("type", text s.type.name), ("offset", .int s.offset)]

def tableDocument {α : Type} (f : α → Document) (t : Table α) : Document :=
  record (t.entries.map fun (name, a) => (name, f a))

def FunctionInfo.document (f : FunctionInfo) : Document :=
  record [("return_type", text f.returnType.name), ("local_var_num", .nat f.localCount),
    ("local_var", tableDocument SlotInfo.document f.locals), ("param_num", .nat f.paramCount),
    ("offset", .null)]

def Storage.document (s : Storage) : Document :=
  record [("constants", tableDocument ConstantInfo.document s.constants),
    ("globals", tableDocument SlotInfo.document s.globals),
    ("functions", tableDocument FunctionInfo.document s.functions)]

end ArmStudio.Code
