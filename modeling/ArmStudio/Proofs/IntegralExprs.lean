import ArmStudio.Proofs.CoreAssembly

/-!
# Integer expressions without calls

Integer expressions over literals, variables, operators and assignments, wherever their variables
are kept. Two names may share a place, so values belong to places.
-/

namespace ArmStudio.Script

namespace Expr

/-- An expression of integer literals and variables, with operators that have code for integers. -/
def isIntegral : Expr → Bool
  | .literal (.int _) => true
  | .var _ symbol => decide (symbol.varType = some .int)
  | .unary op e => (unaryMeaning op).isSome && e.isIntegral
  | .binary op a b =>
    (decide (op = .assign) || (binaryMeaning op).isSome) && (!op.isAssignment || a.isVar) &&
      a.isIntegral && b.isIntegral
  | _ => false

def mentioned : Expr → List String
  | .var x _ => [x]
  | .unary _ e => e.mentioned
  | .binary _ a b => a.mentioned ++ b.mentioned
  | _ => []

def name? : Expr → Option String
  | .var x _ => some x
  | _ => none

def assigned : Expr → List String
  | .unary _ e => e.assigned
  | .binary op a b => a.assigned ++ b.assigned ++ if op.isAssignment then a.name?.toList else []
  | _ => []

/-- The number of words that an expression needs on the stack. -/
def height : Expr → Nat
  | .unary _ e => e.height
  | .binary op a b => if op = .assign then b.height else max a.height (b.height + 1)
  | _ => 1

lemma height_pos (e : Expr) : 0 < e.height := by
  induction e with
  | unary op a ih => exact ih
  | binary op a b iha ihb =>
    rw [height]
    split
    · exact ihb
    · exact iha.trans_le (Nat.le_max_left _ _)
  | _ => exact Nat.one_pos

variable {e : Expr} {x : String}

lemma eq_var_of_isVar (h : e.isVar) : ∃ x symbol, e = .var x symbol := by
  cases e with
  | var x symbol => exact ⟨x, symbol, rfl⟩
  | _ => simp [isVar] at h

lemma name?_mem_mentioned (h : e.name? = some x) : x ∈ e.mentioned := by
  cases e with
  | var y symbol => simpa [mentioned, name?, eq_comm] using h
  | _ => simp [name?] at h

lemma mem_mentioned_of_mem_assigned (h : x ∈ e.assigned) : x ∈ e.mentioned := by
  induction e with
  | unary op a ih => exact ih h
  | binary op a b iha ihb =>
    rw [assigned, List.mem_append, List.mem_append] at h
    rw [mentioned, List.mem_append]
    rcases h with (h | h) | h
    · exact .inl (iha h)
    · exact .inr (ihb h)
    · split at h
      · exact .inl (name?_mem_mentioned (Option.mem_toList.1 h))
      · cases h
  | _ => cases h

end Expr

end ArmStudio.Script

namespace ArmStudio.Code

open Script List Expr

/-! ## Values -/

variable (cell : String → Cell)

/-- A value is put into the place of a variable. -/
def assignTo (target : Expr) (v : Int32) (s : Cell → Int32) : Cell → Int32 :=
  match target.name? with
  | some x => fun c => if c = cell x then v else s c
  | none => s

/-- The value of an expression and what it leaves in the places of variables. Operands are evaluated
from left to right, in 32 bits that wrap. -/
def evaluate (cell : String → Cell) : Expr → (Cell → Int32) → Int32 × (Cell → Int32)
  | .literal (.int n), s => (Int32.ofInt n, s)
  | .var x _, s => (s (cell x), s)
  | .unary op a, s =>
    let operand := evaluate cell a s
    (((unaryMeaning op).getD id) operand.1, operand.2)
  | .binary op a b, s =>
    if op = .assign then
      let right := evaluate cell b s
      (right.1, assignTo cell a right.1 right.2)
    else
      let left := evaluate cell a s
      let right := evaluate cell b left.2
      let result := ((binaryMeaning op).getD fun v _ => v) left.1 right.1
      (result, if op.isAssignment then assignTo cell a result right.2 else right.2)
  | _, s => (0, s)

/-! ## Code -/

/-- The assembler keeps a variable, which is no constant, in a place. -/
def KeptAt (storage : Storage) (symbols : Symbols) (x : String) (c : Cell) : Prop :=
  storage.constantOffset? x = none ∧ match c with
    | .global i => storage.globalOffset? x = some (i : Int)
    | .slot i => storage.globalOffset? x = none ∧ slotOf symbols x = .ok (i : Int)

def Cell.isGlobal : Cell → Bool
  | global _ => true
  | slot _ => false

/-- The names that are kept in global places and in slots. -/
def visibleIn (names : List String) : Visible where
  globals := names.filter fun x => (cell x).isGlobal
  arity := fun _ => none
  locals := names.filter fun x => !(cell x).isGlobal

variable {storage : Storage} {symbols : Symbols} {cell : String → Cell} {names : List String}
  {e : Expr} {i : Instr}

lemma mem_visibleIn {x : String} (hx : x ∈ names) :
    x ∈ (visibleIn cell names).locals ∨ x ∈ (visibleIn cell names).globals := by
  cases h : cell x with
  | global i => exact .inr (by simp [visibleIn, hx, h, Cell.isGlobal])
  | slot i => exact .inl (by simp [visibleIn, hx, h, Cell.isGlobal])

lemma known_visibleIn (h : ∀ x ∈ names, KeptAt storage symbols x (cell x)) :
    Known (visibleIn cell names) cell storage symbols := by
  refine ⟨fun x hx => ?_, fun x hx => ?_, fun x hx => ?_, fun f n hf => by cases hf⟩
  · have hmem : x ∈ names := by
      rcases hx with hx | hx <;> exact (mem_filter.1 hx).1
    exact (h x hmem).1
  · obtain ⟨hmem, hkind⟩ := mem_filter.1 hx
    have hkept := (h x hmem).2
    cases hcell : cell x with
    | global i => exact ⟨i, by simpa [hcell] using hkept, rfl⟩
    | slot i => simp [hcell, Cell.isGlobal] at hkind
  · obtain ⟨hmem, hkind⟩ := mem_filter.1 hx
    have hkept := (h x hmem).2
    cases hcell : cell x with
    | global i => simp [hcell, Cell.isGlobal] at hkind
    | slot i =>
      rw [hcell] at hkept
      exact ⟨hkept.1, i, hkept.2, rfl⟩

lemma isCore_of_isIntegral {v} (he : e.isIntegral)
    (h : ∀ x ∈ e.mentioned, x ∈ v.locals ∨ x ∈ v.globals) : e.isCore v := by
  induction e with
  | literal value => cases value <;> simp_all [isIntegral, isCore]
  | var x symbol =>
    have hx := h x (by simp [mentioned])
    simp_all [isIntegral, isCore]
  | unary op a ih =>
    simp only [isIntegral, Bool.and_eq_true] at he
    simp [isCore, he.1, ih he.2 h]
  | binary op a b iha ihb =>
    simp only [isIntegral, Bool.and_eq_true] at he
    have ha := iha he.1.2 fun x hx => h x (by simp [mentioned, hx])
    have hb := ihb he.2 fun x hx => h x (by simp [mentioned, hx])
    simp only [isCore, Bool.and_eq_true]
    exact ⟨⟨he.1.1, ha⟩, hb⟩
  | _ => simp [isIntegral] at he

lemma exprCode_integral (he : e.isIntegral)
    (h : ∀ x ∈ e.mentioned, KeptAt storage symbols x (cell x)) (wanted : Bool) :
    exprCode storage symbols wanted e = .ok (coreExpr cell wanted e) :=
  exprCode_core (known_visibleIn h) (isCore_of_isIntegral he fun _ hx => mem_visibleIn hx) wanted

/-! ## Bytes -/

/-- The instruction has bytes, and goes to no label and places none. -/
def Instr.IsPlain (i : Instr) : Prop :=
  i.op ≠ .label ∧ i.op.isJump = false ∧ ∃ bytes, i.bytes = .ok bytes

lemma isPlain_plain {op} (hl : op ≠ .label) (hj : op.isJump = false) : (Instr.plain op).IsPlain :=
  ⟨hl, hj, _, rfl⟩

lemma isPlain_load (c : Cell) : c.load.IsPlain := by
  cases c <;> exact ⟨by simp [Cell.load], rfl, _, rfl⟩

lemma isPlain_store (c : Cell) : c.store.IsPlain := by
  cases c <;> exact ⟨by simp [Cell.store], rfl, _, rfl⟩

lemma isPlain_coreExpr (he : e.isIntegral) (wanted : Bool) :
    ∀ i ∈ coreExpr cell wanted e, i.IsPlain := by
  refine forall_coreExpr (Q := fun e => e.isIntegral = true) isPlain_plain isPlain_load
    isPlain_store (fun {value} h => ?_) ?_ ?_ (by simp [isIntegral]) he wanted
  · cases value with
    | int n => exact ⟨by simp [literalCode], rfl, _, rfl⟩
    | _ => simp [isIntegral] at h
  · simp [isIntegral]
  · simp +contextual [isIntegral]

lemma mapM_bytes {code} (h : ∀ i ∈ code, i.IsPlain) (place : String → Int) :
    ∃ parts, code.mapM Instr.bytes = .ok parts ∧ parts.flatten = encodedCode place code := by
  induction code with
  | nil => exact ⟨[], rfl, rfl⟩
  | cons i rest ih =>
    obtain ⟨hl, hj, bytes, hbytes⟩ := h i (by simp)
    obtain ⟨parts, hparts, hflatten⟩ := ih fun j hj => h j (by simp [hj])
    refine ⟨bytes :: parts, ?_, ?_⟩
    · rw [mapM_cons, hbytes, hparts]
      rfl
    · rw [flatten_cons, hflatten, encodedCode_cons, Instr.encoded_plain place hl hj hbytes]

lemma Instr.IsPlain.fits (h : i.IsPlain) : i.Fits := by
  obtain ⟨hl, hj, hbytes⟩ := h
  simpa [Instr.Fits, hl, hj] using hbytes

lemma Instr.IsPlain.mark? (h : i.IsPlain) : i.mark? = none := by simp [Instr.mark?, h.1]

end ArmStudio.Code
