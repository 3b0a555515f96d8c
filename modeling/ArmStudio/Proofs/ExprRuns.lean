import ArmStudio.Proofs.IntegralExprs
import ArmStudio.Proofs.OperandRuns

/-!
# Runs of the code of integer expressions

The bytes of an integer expression, wherever they stand in a program and whatever lies on the stack,
leave its value on the stack and assign its variables, and touch nothing else.
-/

namespace ArmStudio.Machine

open Code Script List Expr

section

variable {image : Image} {place : String → Int} {a h : Nat} {s : Cell → Int32} {m : State}
  {x : String} {symbol : Symbol} {op : Keyword} {e e1 e2 : Expr} {code : List Instr}

/-- From every frame with room, the code of an expression leaves its value and its assignments. -/
def Computes (image : Image) (place : String → Int) (cell : String → Cell) (e : Expr) : Prop :=
  ∀ {wanted s h m a}, (∀ x ∈ e.mentioned, m.Covers (cell x)) → m.At image a → Within s h m →
    h + e.height ≤ stackSize + 1 → image.CodeAt place a (coreExpr cell wanted e) →
    Arrives image (coreExpr cell wanted e).length m (a + width (coreExpr cell wanted e))
      (Results (evaluate cell e s).2 (evaluate cell e s).1 wanted (e.assigned.map cell) h m)

variable {cell : String → Cell}

lemma computes_literal (n : Int) : Computes image place cell (.literal (.int n)) := by
  intro wanted s h m a _ hm hw hroom hc
  have hpush := literal_arrives hm hw (Nat.le_of_succ_le_succ hroom) hc
  have hdropped := hpush.trans fun m1 hm1 hr =>
    drop_arrives hm1 hr (hr.unchanged.inside hw) wanted hc.2
  simp only [coreExpr, length_cons, width_cons, ← add_assoc, add_comm _ 1]
  exact hdropped

lemma computes_var (x : String) (symbol : Symbol) : Computes image place cell (.var x symbol) := by
  intro wanted s h m a hcov hm hw hroom hc
  have hload := load_arrives hm hw (Nat.le_of_succ_le_succ hroom)
    (hcov x (by simp [mentioned])) hc
  have hdropped := hload.trans fun m1 hm1 hr =>
    drop_arrives hm1 hr (hr.unchanged.inside hw) wanted hc.2
  simp only [coreExpr, length_cons, width_cons, ← add_assoc, add_comm _ 1]
  exact hdropped

lemma computes_unary (hop : (unaryMeaning op).isSome) (ih : Computes image place cell e) :
    Computes image place cell (.unary op e) := by
  intro wanted s h m a hcov hm hw hroom hc
  obtain ⟨f, hf⟩ := Option.isSome_iff_exists.1 hop
  have hval : (evaluate cell (.unary op e) s).1 = f (evaluate cell e s).1 := by
    simp [evaluate, hf]
  have hwidth := width_plain (unaryOpcode_ne_label op)
  simp only [coreExpr, Image.codeAt_append, width_append, width_cons, width_nil, hwidth,
    add_zero, ← add_assoc] at hc
  obtain ⟨⟨hopnd, hoper⟩, hdrop⟩ := hc
  have hheight : 0 < e.height := e.height_pos
  have hstart : h ≤ stackSize := by
    have : h + e.height ≤ stackSize + 1 := hroom
    omega
  have hcomp := ((ih hcov hm hw hroom hopnd).trans fun m1 hm1 hr1 =>
      unary_arrives hm1 hr1 (hr1.unchanged.inside hw) hstart hf hoper).trans
    fun m2 hm2 hr2 => drop_arrives hm2 hr2 (hr2.unchanged.inside hw) wanted hdrop
  simp only [coreExpr, length_append, length_cons, length_nil, width_append,
    width_cons, width_nil, hwidth, zero_add, add_zero, ← add_assoc, hval]
  exact hcomp

lemma computes_assign (ih : Computes image place cell e) :
    Computes image place cell (.binary .assign (.var x symbol) e) := by
  intro wanted s h m a hcov hm hw hroom hc
  simp only [coreExpr, if_true, Image.codeAt_append] at hc
  have hheight : 0 < e.height := e.height_pos
  have hroom' : h + e.height ≤ stackSize + 1 := hroom
  have hright (y : String) (hy : y ∈ e.mentioned) : m.Covers (cell y) :=
    hcov y (by simp [mentioned, hy])
  have hcell : m.Covers (cell x) := hcov x (by simp [mentioned])
  have hcomp := (ih hright hm hw hroom' hc.1).trans fun m1 hm1 hr1 =>
    storeBack_arrives hm1 hr1 (hr1.unchanged.inside hw) (by omega) wanted
      (hr1.unchanged.covers hcell) hc.2
  have hassigned : (binary .assign (.var x symbol) e).assigned.map cell =
      e.assigned.map cell ++ [cell x] := by
    simp [assigned, name?, Keyword.isAssignment]
  simp only [coreExpr, if_true, length_append, width_append, ← add_assoc, hassigned]
  exact hcomp

section

variable (ih1 : Computes image place cell e1) (ih2 : Computes image place cell e2)
  (hcov : ∀ x ∈ e1.mentioned ++ e2.mentioned, m.Covers (cell x)) (hm : m.At image a)
  (hw : Within s h m) (hroom : h + max e1.height (e2.height + 1) ≤ stackSize + 1)

include ih1 ih2 hcov hm hw hroom

/-- Both operands come to stand on the stack. The left one waits there while the right one assigns
variables, which are below it. -/
lemma operands_arrive
    (hc : image.CodeAt place a (coreExpr cell true e1 ++ coreExpr cell true e2)) :
    Arrives image ((coreExpr cell true e1).length + (coreExpr cell true e2).length) m
      (a + width (coreExpr cell true e1) + width (coreExpr cell true e2)) fun m' =>
        Within (evaluate cell e2 (evaluate cell e1 s).2).2 (h + 2) m' ∧
        m'.stack[h]? = some (evaluate cell e1 s).1.toUInt32 ∧
        m'.stack[h + 1]? = some (evaluate cell e2 (evaluate cell e1 s).2).1.toUInt32 ∧
        Unchanged (e1.assigned.map cell ++ e2.assigned.map cell) h m m' := by
  obtain ⟨hleft, hright⟩ := Image.codeAt_append.1 hc
  have hcov1 (x : String) (hx : x ∈ e1.mentioned) : m.Covers (cell x) :=
    hcov x (mem_append_left _ hx)
  have hcov2 (x : String) (hx : x ∈ e2.mentioned) : m.Covers (cell x) :=
    hcov x (mem_append_right _ hx)
  refine (ih1 hcov1 hm hw (by omega) hleft).trans fun m1 hm1 hr1 => ?_
  have hu1 := hr1.unchanged
  have hw1 : Within (evaluate cell e1 s).2 (h + 1) m1 := hr1.within
  refine (ih2 (fun x hx => hu1.covers (hcov2 x hx)) hm1 hw1 (by omega) hright).imp
    fun m2 hr2 => ⟨hr2.within, ?_, hr2.value rfl, hu1.trans hr2.unchanged (Nat.le_succ h)⟩
  -- the word of the left operand is in no slot of a variable
  rw [hr2.unchanged.below h (Nat.lt_succ_self h) fun j hj hmem => ?_, hr1.value rfl]
  obtain ⟨x, hx, hslot⟩ := mem_map.1 hmem
  have hcovered : m.Covers (.slot j) := hslot ▸ hcov2 x (mem_mentioned_of_mem_assigned hx)
  have hbelow := hw.slot_lt hcovered
  rw [hu1.frame] at hj
  omega

lemma operation_arrives {f} (hop : binaryMeaning op = some f) (hc : image.CodeAt place a
      (coreExpr cell true e1 ++ coreExpr cell true e2 ++ [.plain (binaryOpcode op)])) :
    Arrives image ((coreExpr cell true e1).length + (coreExpr cell true e2).length + 1) m
      (a + width (coreExpr cell true e1) + width (coreExpr cell true e2) + 1)
      (Results (evaluate cell e2 (evaluate cell e1 s).2).2
        (f (evaluate cell e1 s).1 (evaluate cell e2 (evaluate cell e1 s).2).1) true
        (e1.assigned.map cell ++ e2.assigned.map cell) h m) := by
  obtain ⟨hopnds, hoper⟩ := Image.codeAt_append.1 hc
  rw [width_append, ← add_assoc] at hoper
  refine (operands_arrive ih1 ih2 hcov hm hw hroom hopnds).trans fun m1 hm1 hq => ?_
  obtain ⟨hw1, hlower, hupper, hu1⟩ := hq
  exact (binary_arrives hm1 hw1 hlower hupper (hu1.inside hw) (by omega) hop hoper).imp
    fun m2 hr2 => (hr2.behind hu1).append_nil

end

lemma computes_binary (hne : op ≠ .assign) (hop : (binaryMeaning op).isSome)
    (htgt : op.isAssignment → e1.isVar) (ih1 : Computes image place cell e1)
    (ih2 : Computes image place cell e2) : Computes image place cell (.binary op e1 e2) := by
  intro wanted s h m a hcov hm hw hroom hc
  obtain ⟨f, hf⟩ := Option.isSome_iff_exists.1 hop
  have hwidth := width_plain (binaryOpcode_ne_label op)
  have hroom' : h + max e1.height (e2.height + 1) ≤ stackSize + 1 := by
    rwa [height, if_neg hne] at hroom
  simp only [coreExpr, if_neg hne] at hc ⊢
  obtain ⟨hhead, htail⟩ := Image.codeAt_append.1 hc
  have hcomp := operation_arrives ih1 ih2 hcov hm hw hroom' hf hhead
  simp only [width_append, width_cons, width_nil, hwidth, add_zero, ← add_assoc] at htail
  simp only [length_append, length_cons, length_nil, zero_add, width_append,
    width_cons, width_nil, hwidth, add_zero, ← add_assoc, evaluate, if_neg hne, hf,
    Option.getD_some, assigned, map_append]
  -- an assignment stores the result and may load it again, all others may drop it
  by_cases hassign : op.isAssignment = true
  · simp only [if_pos hassign] at htail ⊢
    obtain ⟨x, symbol, rfl⟩ := eq_var_of_isVar (htgt hassign)
    refine hcomp.trans fun m1 hm1 hr1 => ?_
    have hcell := hcov x (by simp [mentioned])
    exact storeBack_arrives hm1 hr1 (hr1.unchanged.inside hw) (by omega) wanted
      (hr1.unchanged.covers hcell) htail
  · simp only [if_neg hassign] at htail ⊢
    rw [map_nil, append_nil]
    exact hcomp.trans fun m1 hm1 hr1 =>
      drop_arrives hm1 hr1 (hr1.unchanged.inside hw) wanted htail

lemma computes_of_isIntegral (he : e.isIntegral) : Computes image place cell e := by
  induction e with
  | literal value =>
    cases value with
    | int n => exact computes_literal n
    | _ => simp [isIntegral] at he
  | var x symbol => exact computes_var x symbol
  | unary op a ih =>
    simp only [isIntegral, Bool.and_eq_true] at he
    exact computes_unary he.1 (ih he.2)
  | binary op a b iha ihb =>
    simp only [isIntegral, Bool.and_eq_true, Bool.or_eq_true, decide_eq_true_eq,
      Bool.not_eq_true'] at he
    obtain ⟨⟨⟨hop, htgt⟩, ha⟩, hb⟩ := he
    by_cases hassign : op = .assign
    · subst hassign
      have hvar : a.isVar = true := by simpa [Keyword.isAssignment] using htgt
      obtain ⟨x, symbol, rfl⟩ := eq_var_of_isVar hvar
      exact computes_assign (ihb hb)
    · have hmeaning := hop.resolve_left hassign
      exact computes_binary hassign hmeaning (fun h => by simpa [h] using htgt) (iha ha)
        (ihb hb)
  | _ => simp [isIntegral] at he

/-! ## The assembler's code -/

lemma codeAt_of_holds (hcode : ∀ i ∈ code, i.IsPlain) (h : image.Holds a (encodedCode place code)) :
    image.CodeAt place a code := by
  induction code generalizing a with
  | nil => trivial
  | cons i rest ih =>
    have hi := hcode i (by simp)
    rw [encodedCode_cons, Image.holds_append, hi.fits.length_encoded] at h
    exact ⟨⟨hi.fits, h.1, by simp [hi.mark?]⟩, ih (fun j hj => hcode j (by simp [hj])) h.2⟩

/-- Plain instructions have bytes. Where the machine comes to these bytes, what holds behind the
instructions holds behind the bytes. -/
lemma bytes_run (hcode : ∀ i ∈ code, i.IsPlain) : ∃ parts, code.mapM Instr.bytes = .ok parts ∧
      ∀ m Q, m.status = .running → m.waiting = .nothing →
        m.image.Holds m.pc.toNat parts.flatten →
        (∀ place, m.At m.image m.pc.toNat → m.image.CodeAt place m.pc.toNat code →
          Arrives m.image code.length m (m.pc.toNat + width code) Q) →
        ∀ sensors : Nat → Sensors, (∀ k ≤ code.length, (m.after sensors k).status = .running) ∧
          (m.after sensors code.length).At m.image (m.pc.toNat + parts.flatten.length) ∧
          Q (m.after sensors code.length) := by
  -- the code has no labels, so any places of them do
  obtain ⟨parts, hparts, hflatten⟩ := mapM_bytes hcode fun _ => 0
  refine ⟨parts, hparts, fun m Q hrun hidle hholds harrives sensors => ?_⟩
  rw [hflatten] at hholds ⊢
  have hat := codeAt_of_holds hcode hholds
  obtain ⟨m', hleads, hend, hq⟩ := harrives _ ⟨rfl, rfl, hidle, hrun⟩ hat
  obtain ⟨rfl, hway⟩ := hleads sensors
  rw [length_encodedCode hat.fits]
  exact ⟨fun k hk => (hway k hk).2, hend, hq⟩

end

/-- The machine is running inside a frame. It has the places of an expression's variables, and the
stack has room for its operands. -/
structure ReadyFor (cell : String → Cell) (e : Expr) (m : State) : Prop where
  running : m.status = .running
  idle : m.waiting = .nothing
  size : m.stack.size = stackSize + 1
  few : m.globals.size ≤ 65536
  inside : m.frame.toNat + 3 + m.locals.toNat ≤ m.top.toNat
  covers : ∀ x ∈ e.mentioned, m.Covers (cell x)
  room : m.top.toNat + e.height ≤ stackSize + 1

lemma ReadyFor.within {cell : String → Cell} {e : Expr} {m : State} (h : ReadyFor cell e m) :
    Within m.valueIn m.top.toNat m :=
  within_valueIn h.size h.inside h.few

/-- The assembler has code for an integer expression, and the code has bytes. Where the machine
comes to these bytes inside a frame with room, it runs to their end. The value of the expression is
then on the stack if it was wanted, and nothing else; every variable has the value that the
expression leaves in it. Apart from assigned variables all globals and all words that were on the
stack, those of the frame's header among them, are as before. -/
theorem exprCode_runs {storage : Storage} {symbols : Symbols} {cell : String → Cell} {e : Expr}
    (he : e.isIntegral = true) (hkept : ∀ x ∈ e.mentioned, KeptAt storage symbols x (cell x))
    (wanted : Bool) :
    ∃ code parts, exprCode storage symbols wanted e = .ok code ∧ code.mapM Instr.bytes = .ok parts ∧
      ∀ m : State, ReadyFor cell e m → m.image.Holds m.pc.toNat parts.flatten →
        ∀ sensors : Nat → Sensors, (∀ k ≤ code.length, (m.after sensors k).status = .running) ∧
          (m.after sensors code.length).At m.image (m.pc.toNat + parts.flatten.length) ∧
          (m.after sensors code.length).top.toNat = m.top.toNat + (if wanted then 1 else 0) ∧
          (wanted = true → (m.after sensors code.length).stack[m.top.toNat]? =
            some (evaluate cell e m.valueIn).1.toUInt32) ∧
          (∀ c, m.Covers c → (m.after sensors code.length).wordIn c =
            some ((evaluate cell e m.valueIn).2 c).toUInt32) ∧
          Unchanged (e.assigned.map cell) m.top.toNat m (m.after sensors code.length) := by
  have hplain : ∀ i ∈ coreExpr cell wanted e, i.IsPlain := isPlain_coreExpr he wanted
  obtain ⟨parts, hparts, hruns⟩ := bytes_run hplain
  refine ⟨_, parts, exprCode_integral he hkept wanted, hparts, fun m hready hholds sensors => ?_⟩
  obtain ⟨hway, hat, hr⟩ := hruns m _ hready.running hready.idle hholds
    (fun place hm hcode =>
      computes_of_isIntegral he hready.covers hm hready.within hready.room hcode)
    sensors
  refine ⟨hway, hat, ?_, hr.value, fun c hc => hr.within.values c (hr.unchanged.covers hc),
    hr.unchanged⟩
  have htop := hr.within.top
  cases wanted <;> exact htop

/-- The expression `x = (g += x) * g`. -/
def nested : Expr := .binary .assign (.var "x" (.ofVar .int false))
    (.binary .times
      (.binary .addAssign (.var "g" (.ofVar .int false)) (.var "x" (.ofVar .int false)))
      (.var "g" (.ofVar .int false)))

/-- The variable `g` is global and `x` is the first local. -/
def nestedStorage : Storage := ⟨.empty, ⟨[("g", ⟨.int, 0⟩)]⟩, .empty⟩

def nestedSymbols : Symbols where
  outer := ⟨[("g", .ofVar .int false)]⟩
  inner := [⟨[("x", { Symbol.ofVar .int false with slot := some 0 })]⟩]
  localCount := 1

def nestedCell (x : String) : Cell := if x = "g" then .global 0 else .slot 0

def nestedCode : List Instr :=
  [(Cell.global 0).load, (Cell.slot 0).load, .plain .iadd, (Cell.global 0).store,
    (Cell.global 0).load, (Cell.global 0).load, .plain .imul, (Cell.slot 0).store,
    (Cell.slot 0).load]

/-- The code of the expression is entered in a frame at the second word, with all words 7 and the
global variable 5. -/
def nestedState : State where
  image := ⟨#[18, 0, 0, 19, 0, 33, 24, 0, 0, 18, 0, 0, 18, 0, 0, 35, 23, 0, 19, 0], 0, 1, 0, 20⟩
  stack := Array.replicate (stackSize + 1) 7
  top := 5
  frame := 1
  locals := 1
  globals := #[5]

theorem exprCode_runs_nested : ReadyFor nestedCell nested nestedState ∧ ∀ sensors : Nat → Sensors,
      (nestedState.after sensors 9).status = .running ∧
      (nestedState.after sensors 9).top.toNat = 6 ∧
      (nestedState.after sensors 9).stack[5]? = some 144 ∧
      (nestedState.after sensors 9).wordIn (nestedCell "x") = some 144 ∧
      (nestedState.after sensors 9).wordIn (nestedCell "g") = some 12 := by
  have hnames : ∀ x ∈ nested.mentioned, x = "x" ∨ x = "g" := by decide
  have hkept : ∀ x ∈ nested.mentioned, KeptAt nestedStorage nestedSymbols x (nestedCell x) := by
    intro x hx
    rcases hnames x hx with rfl | rfl
    · exact ⟨rfl, rfl, rfl⟩
    · exact ⟨rfl, rfl⟩
  have hready : ReadyFor nestedCell nested nestedState := by
    refine ⟨rfl, rfl, by simp [nestedState], by decide, by decide, fun x hx => ?_, by decide⟩
    rcases hnames x hx with rfl | rfl
    · exact Nat.one_pos
    · exact Nat.one_pos
  obtain ⟨code, parts, hcode, hparts, hruns⟩ := exprCode_runs rfl hkept true
  have hmade : exprCode nestedStorage nestedSymbols true nested = .ok nestedCode := rfl
  cases hmade.symm.trans hcode
  have hbytes : nestedCode.mapM Instr.bytes = .ok
      [[18, 0, 0], [19, 0], [33], [24, 0, 0], [18, 0, 0], [18, 0, 0], [35], [23, 0], [19, 0]] := rfl
  cases hbytes.symm.trans hparts
  have hholds : nestedState.image.Holds nestedState.pc.toNat
      [18, 0, 0, 19, 0, 33, 24, 0, 0, 18, 0, 0, 18, 0, 0, 35, 23, 0, 19, 0] :=
    ⟨by decide, by decide⟩
  refine ⟨hready, fun sensors => ?_⟩
  obtain ⟨hrun, -, htop, hval, hwords, -⟩ := hruns nestedState hready hholds sensors
  have hvals : (evaluate nestedCell nested nestedState.valueIn).1.toUInt32 = 144 ∧
      ((evaluate nestedCell nested nestedState.valueIn).2 (nestedCell "x")).toUInt32 = 144 ∧
      ((evaluate nestedCell nested nestedState.valueIn).2 (nestedCell "g")).toUInt32 = 12 := by
    decide +kernel
  have hcov : nestedState.Covers (nestedCell "x") ∧ nestedState.Covers (nestedCell "g") :=
    ⟨Nat.one_pos, Nat.one_pos⟩
  refine ⟨hrun 9 le_rfl, htop, ?_, ?_, ?_⟩
  · exact (hval rfl).trans (congrArg some hvals.1)
  · exact (hwords _ hcov.1).trans (congrArg some hvals.2.1)
  · exact (hwords _ hcov.2).trans (congrArg some hvals.2.2)

end ArmStudio.Machine
