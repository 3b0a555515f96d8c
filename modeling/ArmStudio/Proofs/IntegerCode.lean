import ArmStudio.Proofs.Encoding
import ArmStudio.Proofs.IntegerCore

/-!
# Code of the integer core

The code of expressions and statements over integers, given where each name is kept and without
the bookkeeping of the assembler.
-/

namespace ArmStudio.Code

open Script

/-- Where a variable is kept. -/
inductive Cell where
  | global (i : Nat)
  | slot (i : Nat)
  deriving DecidableEq

namespace Cell

def load : Cell → Instr
  | global i => ⟨.loadg, [.u16 (.ofInt i)]⟩
  | slot i => ⟨.loadl, [.u8 (.ofInt i)]⟩

def store : Cell → Instr
  | global i => ⟨.storg, [.u16 (.ofInt i)]⟩
  | slot i => ⟨.storl, [.u8 (.ofInt i)]⟩

end Cell

/-- The cells of a function: its own names have the slots, in order, and all others are global. -/
def cellOf (globals names : List String) (x : String) : Cell :=
  if x ∈ names then .slot (names.idxOf x) else .global (globals.idxOf x)

/-- Cells keep global names in their order, and local names apart in `count` slots. -/
structure Layout (globals : List String) (count : Nat) (cell : String → Cell) : Prop where
  global : ∀ x ∈ globals, cell x = .global (globals.idxOf x)
  bound : ∀ x i, cell x = .slot i → i < count
  apart : ∀ x y i, cell x = .slot i → cell y = .slot i → x = y

variable {globals : List String} {cell : String → Cell} {exit? : Option String} {code : List Instr}

lemma layout_cellOf {names} (h : ∀ x ∈ names, x ∉ globals) :
    Layout globals names.length (cellOf globals names) := by
  refine ⟨?_, ?_, ?_⟩
  · intro x hx
    have hnot : x ∉ names := fun hmem => h x hmem hx
    simp [cellOf, hnot]
  · intro x i hi
    by_cases hx : x ∈ names
    · simp only [cellOf, hx, if_true, Cell.slot.injEq] at hi
      rw [← hi]
      exact List.idxOf_lt_length_of_mem hx
    · simp [cellOf, hx] at hi
  · intro x y i hi hj
    by_cases hx : x ∈ names <;> by_cases hy : y ∈ names <;> simp [cellOf, hx, hy] at hi hj
    exact (List.idxOf_inj hx).1 (hi.trans hj.symm)

lemma cellOf_param {f : FuncDecl} (hdist : f.localNames.Nodup) {i : Nat} {x : String}
    (hi : (f.params.map Param.name)[i]? = some x) : cellOf globals f.localNames x = .slot i := by
  have hget : f.localNames[i]? = some x := by
    rw [FuncDecl.localNames, List.getElem?_append_left]
    · exact hi
    · exact (List.getElem?_eq_some_iff.1 hi).1
  rcases List.getElem?_eq_some_iff.1 hget with ⟨hlt, hx⟩
  have hmem : x ∈ f.localNames := hx ▸ List.getElem_mem hlt
  have hidx : f.localNames.idxOf x = i := by
    rw [← hx]
    exact hdist.idxOf_getElem i hlt
  simp [cellOf, hmem, hidx]

/-! ## Expressions -/

def unaryOpcode : Keyword → Opcode
  | .minus => .ineg
  | _ => .lnot

variable (op : Keyword)

def binaryOpcode : Opcode := ((operatorCode? op).map Prod.fst).getD .nop

lemma unaryOpcode_ne_label : unaryOpcode op ≠ .label := by
  cases op <;> decide

lemma isJump_unaryOpcode : (unaryOpcode op).isJump = false := by
  cases op <;> rfl

lemma binaryOpcode_ne_label : binaryOpcode op ≠ .label := by
  cases op <;> decide

lemma isJump_binaryOpcode : (binaryOpcode op).isJump = false := by
  cases op <;> rfl

/-- Stores a result into a variable and loads it again where it is wanted. -/
def storeBack (cell : String → Cell) (wanted : Bool) : Expr → List Instr
  | .var x _ => (cell x).store :: if wanted then [(cell x).load] else []
  | _ => []

mutual

/-- The code of an expression of the integer core; `wanted` says whether its value stays. -/
def coreExpr (cell : String → Cell) : Bool → Expr → List Instr
  | wanted, .literal v => literalCode v :: dropUnless wanted
  | wanted, .var x _ => (cell x).load :: dropUnless wanted
  | wanted, .unary op e => coreExpr cell true e ++ [.plain (unaryOpcode op)] ++ dropUnless wanted
  | wanted, .binary op a b =>
    if op = .assign then coreExpr cell true b ++ storeBack cell wanted a
    else
      coreExpr cell true a ++ coreExpr cell true b ++ [.plain (binaryOpcode op)] ++
        if op.isAssignment then storeBack cell wanted a else dropUnless wanted
  | wanted, .call func _ args =>
    coreArgs cell args ++ [⟨.call, [.label func none, .u8 (.ofInt args.length)]⟩] ++
      dropUnless wanted
  | _, _ => []

def coreArgs (cell : String → Cell) : List Expr → List Instr
  | [] => []
  | a :: rest => coreExpr cell true a ++ coreArgs cell rest

end

/-! ## Statements -/

mutual

/-- Code that is that of a statement; `exit?` is the label behind the loop around it. -/
inductive StmtIs (cell : String → Cell) : Option String → Stmt → List Instr → Prop
  | expr {exit? : Option String} (e : Expr) : StmtIs cell exit? (.expr e) (coreExpr cell false e)
  | decl {exit? : Option String} {d : VarDecl} {e i} (hinit : d.init = some e)
      (hcell : cell d.name = .slot i) :
      StmtIs cell exit? (.decl d) (coreExpr cell true e ++ [(Cell.slot i).store])
  | ifElse {exit? : Option String} {cond yes no yesCode noCode}
      (other final : String) (hyes : StmtsAre cell none yes yesCode)
      (hno : StmtsAre cell none no noCode) :
      StmtIs cell exit? (.ifElse cond yes no)
        (coreExpr cell true cond ++ [jumpInstr .jz other] ++ yesCode ++
          [jumpInstr .jmp final, labelInstr other] ++ noCode ++ [labelInstr final])
  | whileDo {exit? : Option String} {cond body} {code : List Instr}
      (first final : String) (hbody : StmtsAre cell (some final) body code) :
      StmtIs cell exit? (.whileDo cond body)
        ([labelInstr first] ++ coreExpr cell true cond ++ [jumpInstr .jz final] ++ code ++
          [jumpInstr .jmp first, labelInstr final])
  | loop {exit? : Option String} {body} {code : List Instr}
      (first final : String) (hbody : StmtsAre cell (some final) body code) :
      StmtIs cell exit? (.loop body)
        ([labelInstr first] ++ code ++ [jumpInstr .jmp first, labelInstr final])
  | ret {exit? : Option String} (e : Expr) :
      StmtIs cell exit? (.ret (some e)) (coreExpr cell true e ++ [.plain .ret])
  | retNone {exit? : Option String} : StmtIs cell exit? (.ret none) [.plain .ret0]
  | leaveLoop (exit : String) : StmtIs cell (some exit) .leaveLoop [jumpInstr .jmp exit]

/-- Code that is that of statements in order. -/
inductive StmtsAre (cell : String → Cell) : Option String → List Stmt → List Instr → Prop
  | nil {exit? : Option String} : StmtsAre cell exit? [] []
  | cons {exit? : Option String} {st : Stmt} {rest : List Stmt} {first others : List Instr}
      (hst : StmtIs cell exit? st first) (hrest : StmtsAre cell exit? rest others) :
      StmtsAre cell exit? (st :: rest) (first ++ others)

end

lemma StmtIs.width_pos {st : Stmt} (his : StmtIs cell exit? st code) (hcan : st.canEnd = false) :
    0 < width code := by
  cases his with
  | expr | decl | whileDo => simp [Stmt.canEnd] at hcan
  | ifElse other final hyes hno =>
    simp only [width_append, width_cons, width_jz]
    omega
  | loop first final hbody =>
    simp only [width_append, width_cons, width_jmp]
    omega
  | ret e =>
    have : (Instr.plain .ret).width = 1 := rfl
    simp only [width_append, width_cons]
    omega
  | retNone => decide
  | leaveLoop exit =>
    simp only [width_cons, width_jmp]
    omega

lemma StmtsAre.width_pos {body} (his : StmtsAre cell exit? body code)
    (hcan : canEnd body = false) : 0 < width code := by
  induction body generalizing code with
  | nil => simp [canEnd] at hcan
  | cons st rest ih =>
    cases his with
    | cons hst hrest =>
      simp only [canEnd, Bool.and_eq_false_iff] at hcan
      rw [width_append]
      rcases hcan with hcan | hcan
      · have := hst.width_pos hcan
        omega
      · have := ih hrest hcan
        omega

end ArmStudio.Code
