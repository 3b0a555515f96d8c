import ArmStudio.Code.ExprCode

/-!
# Assembly

Code of statements, functions and programs. Functions are laid out in order of declaration;
initialisers of global variables run first, then `main` is called.

* A local variable's slot is the number of names its function has so far, so a name declared a
  second time takes a new slot without making room for the next.
* The branches of a conditional do not know the loop around it.
-/

namespace ArmStudio.Code

open Number Script

structure Assembly where
  constants : List Value
  globalSize : Int
  startUp : List Instr
  code : List Instr

namespace Assembly

def empty : Assembly := ⟨[], 0, [], []⟩

def text? (a : Assembly) : Except TextError String := do
  let constants ← a.constants.mapM Value.text?
  let size ← intText? a.globalSize
  let instrs ← (a.startUp ++ a.code).mapM Instr.text?
  let line (s : String) : String := "\t" ++ s ++ "\n"
  return "CONSTANTS:\n" ++ String.join (constants.map line) ++ "GLOBAL_VAR_NUM: " ++ size ++
    "\nCODE:\n" ++ String.join (instrs.map line)

end Assembly

structure GenState where
  labels : Labels
  storage : Storage
  symbols : Symbols

namespace GenState

def start (symbols : Symbols) : GenState := ⟨.empty, .empty, symbols⟩

variable (s : GenState)

def enter : GenState := { s with symbols := s.symbols.enter }

def leave : GenState := { s with symbols := s.symbols.leave }

def label (suffix : String) : String × GenState :=
  let name := toString s.labels.counter ++ suffix
  (name, { s with labels := s.labels.create name })

def exprCode (wanted : Bool) (e : Expr) : Except GenError (List Instr) :=
  Code.exprCode s.storage s.symbols wanted e

def setSlot (name : String) (slot : Int) : Except GenError GenState :=
  match s.symbols.lookup? name with
  | none => .error (.type (.unknownSymbol name))
  | some _ =>
    .ok { s with symbols := s.symbols.modify name fun i => { i with slot := some slot } }

end GenState

def labelInstr (name : String) : Instr := ⟨.label, [.label name none]⟩

def jumpInstr (op : Opcode) (name : String) : Instr := ⟨op, [.label name none]⟩

def constantDecl (d : VarDecl) (index : Nat) (s : GenState) : Except GenError (Value × GenState) :=
  match d.init with
  | some (.literal v) => do
    let info : ConstantInfo := ⟨d.type, v, index⟩
    let storage := { s.storage with constants := s.storage.constants.insert d.name info }
    let s ← { s with storage := storage }.setSlot d.name index
    return (v, s)
  | _ => .error .constantInit

structure StmtCode where
  code : List Instr
  constants : List Value

namespace StmtCode

def empty : StmtCode := ⟨[], []⟩

def ofCode (code : List Instr) : StmtCode := ⟨code, []⟩

def append (a b : StmtCode) : StmtCode := ⟨a.code ++ b.code, a.constants ++ b.constants⟩

instance : Append StmtCode := ⟨append⟩

end StmtCode

def localDecl (func : String) (d : VarDecl) (s : GenState) :
    Except GenError (List Instr × GenState) :=
  match s.storage.functions.find? func with
  | none => .error (.unknownFunction func)
  | some f => do
    let slot : Int := f.locals.size
    let f := { f with locals := f.locals.insert d.name ⟨d.type, slot⟩ }
    let storage := { s.storage with functions := s.storage.functions.insert func f }
    let info := { Symbol.ofVar d.type d.isConst with slot := some slot }
    let s := { s with storage := storage, symbols := (s.symbols.declareLocal d.name info).2 }
    match d.init with
    | none => return ([], s)
    | some e =>
      let code ← s.exprCode true e
      return (code ++ [⟨.storl, [.u8 (.ofInt slot)]⟩], s)

mutual

/-- The code of a statement. `index` is the number of constants so far and `exit?` the label
behind the innermost loop, where it is known. -/
def stmtCode (func : String) (exit? : Option String) (index : Nat) (s : GenState) :
    Stmt → Except GenError (StmtCode × GenState)
  | .ifElse cond thenBody elseBody => do
    let test ← s.exprCode true cond
    let (other, s) := s.label "_if_else"
    let (final, s) := s.label "_if_end"
    let (yes, s) ← stmtsCode func none index s.enter thenBody
    let s := s.leave
    let (no, s) ← stmtsCode func none (index + yes.constants.length) s.enter elseBody
    return (.ofCode (test ++ [jumpInstr .jz other]) ++ yes ++
      .ofCode [jumpInstr .jmp final, labelInstr other] ++ no ++ .ofCode [labelInstr final], s.leave)
  | .whileDo cond body => do
    let (final, s) := s.label "_while_end"
    let (first, s) := s.label "_while_begin"
    let test ← s.exprCode true cond
    let (inner, s) ← stmtsCode func (some final) index s.enter body
    return (.ofCode (labelInstr first :: test ++ [jumpInstr .jz final]) ++ inner ++
      .ofCode [jumpInstr .jmp first, labelInstr final], s.leave)
  | .loop body => do
    let (first, s) := s.label "_loop_begin"
    let (final, s) := s.label "_loop_end"
    let (inner, s) ← stmtsCode func (some final) index s.enter body
    return (.ofCode [labelInstr first] ++ inner ++
      .ofCode [jumpInstr .jmp first, labelInstr final], s.leave)
  | .ret none => .ok (.ofCode [.plain .ret0], s)
  | .ret (some e) => do
    let code ← s.exprCode true e
    return (.ofCode (code ++ [.plain .ret]), s)
  | .decl d =>
    if d.isConst then do
      let (v, s) ← constantDecl d index s
      return (⟨[], [v]⟩, s)
    else do
      let (code, s) ← localDecl func d s
      return (.ofCode code, s)
  | .expr e => do
    let code ← s.exprCode false e
    return (.ofCode code, s)
  | .leaveLoop =>
    match exit? with
    | some exit => .ok (.ofCode [jumpInstr .jmp exit], s)
    | none => .error (.statement "BreakStmt")
  | .blank => .error (.statement "Node")

def stmtsCode (func : String) (exit? : Option String) (index : Nat) (s : GenState) :
    List Stmt → Except GenError (StmtCode × GenState)
  | [] => .ok (.empty, s)
  | st :: rest => do
    let (first, s) ← stmtCode func exit? index s st
    let (others, s) ← stmtsCode func exit? (index + first.constants.length) s rest
    return (first ++ others, s)

end

/-- Parameters take the first slots. One whose name is visible already is only recorded. -/
def declareParams : Nat → List Param → FunctionInfo → Symbols → FunctionInfo × Symbols
  | _, [], f, symbols => (f, symbols)
  | i, p :: rest, f, symbols =>
    let info := { Symbol.ofVar p.type false with slot := some (i : Int) }
    declareParams (i + 1) rest { f with locals := f.locals.insert p.name ⟨p.type, i⟩ }
      (symbols.declareLocal p.name info).2

/-- The code of a function without result ends in a return. -/
def closeFunction (result : VarType) (code : List Instr) : List Instr :=
  if result = .void ∧ (code.getLast?.map Instr.op) ≠ some .ret0 then code ++ [.plain .ret0]
  else code

def funcCode (f : FuncDecl) (index : Nat) (s : GenState) :
    Except GenError (StmtCode × GenState) := do
  let info : FunctionInfo := ⟨f.returnType, f.localCount, .empty, f.params.length⟩
  let (info, symbols) := declareParams 0 f.params info s.symbols.enter
  let storage := { s.storage with functions := s.storage.functions.insert f.name info }
  let s : GenState := ⟨s.labels.create f.name, storage, symbols⟩
  let (body, s) ← stmtsCode f.name none index s f.body
  let head := [labelInstr f.name, ⟨.enter, [.u8 (.ofInt f.localCount)]⟩]
  return (⟨closeFunction f.returnType (head ++ body.code), body.constants⟩, s.leave)

def globalCode (d : VarDecl) (slot : Int) (s : GenState) :
    Except GenError (List Instr × GenState) := do
  let storage := { s.storage with globals := s.storage.globals.insert d.name ⟨d.type, slot⟩ }
  let s ← { s with storage := storage }.setSlot d.name slot
  match d.init with
  | none => return ([], s)
  | some e =>
    let code ← s.exprCode true e
    return (code ++ [⟨.storg, [.u16 (.ofInt slot)]⟩], s)

def declCode (a : Assembly) (s : GenState) : Decl → Except GenError (Assembly × GenState)
  | .func f => do
    let (body, s) ← funcCode f a.constants.length s
    return ({ a with code := a.code ++ body.code, constants := a.constants ++ body.constants }, s)
  | .var d =>
    if d.isConst then do
      let (v, s) ← constantDecl d a.constants.length s
      return ({ a with constants := a.constants ++ [v] }, s)
    else do
      let (code, s) ← globalCode d a.globalSize s
      return ({ a with startUp := a.startUp ++ code, globalSize := a.globalSize + 1 }, s)

def declsCode (a : Assembly) (s : GenState) : List Decl → Except GenError (Assembly × GenState)
  | [] => .ok (a, s)
  | d :: rest => do
    let (a, s) ← declCode a s d
    declsCode a s rest

def callMain : List Instr := [⟨.call, [.label "main" none, .u8 (.ofInt 0)]⟩, .plain .halt]

def assemble (symbols : Symbols) (p : Program) : Except GenError (Assembly × GenState) := do
  let (a, s) ← declsCode .empty (.start symbols) p.decls
  return ({ a with startUp := a.startUp ++ callMain }, s)

end ArmStudio.Code
