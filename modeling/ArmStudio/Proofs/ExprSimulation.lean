import ArmStudio.Proofs.Agreement

/-!
# The machine follows the evaluator: expressions

Where a program of the integer core is loaded, every result of the evaluator is reached by steps of
the machine. The induction is on the fuel of the evaluator. `Simulates` says what holds for one
amount of fuel, with one part for each function of the evaluator; the lemmas of this module take
the parts of expressions from fuel `n` to fuel `n + 1`.
-/

namespace ArmStudio.Machine

open Code Script

/-- A function's code is in its place, and its variables are kept apart. -/
structure Installed (globals : List String) (image : Image) (place : String → Int)
    (f : FuncDecl) : Prop where
  distinct : f.localNames.Nodup
  apart : ∀ x ∈ f.localNames, x ∉ globals
  counted : f.localCount = f.localNames.length
  small : f.localCount ≤ 255
  code : ∃ (b : Nat) (body tail : List Instr), place f.name = b ∧
    StmtsAre (cellOf globals f.localNames) none f.body body ∧
    image.CodeAt place b
      ([labelInstr f.name, ⟨.enter, [.u8 (.ofInt f.localCount)]⟩] ++ body ++ tail) ∧
    (canEnd f.body = true → ∃ rest, tail = .plain .ret0 :: rest)

/-- Every function of a program stands in an image. -/
structure Loaded (p : Program) (globals : List String) (image : Image) (place : String → Int) :
    Prop where
  few : globals.length ≤ 65536
  installed : ∀ name f, p.func? name = some f → Installed globals image place f

/-- The room that the machine has: its stack and the locals of a frame. -/
def machineRoom : Room := ⟨stackSize, 255⟩

/-! ## What is reached -/

/-- Steps lead to an address and a state with a property. -/
def Reaches (sensors : Sensors) (image : Image) (m : State) (b : Nat) (Q : State → Prop) : Prop :=
  ∃ m', Runs sensors m m' ∧ m'.At image b ∧ Q m'

/-- What the code of an expression leaves: its value on top of the stack, where it is wanted. -/
structure Left (globals : List String) (fr : Frame) (h : Nat) (s : Store) (v : Int32)
    (wanted : Bool) (m m' : State) : Prop where
  stands : Stands globals fr (if wanted then h + 1 else h) s m'
  value : wanted → m'.stack[h]? = some v.toUInt32
  kept : Kept fr h m m'

/-- The machine is behind a return to `back`: the frame at `base` is gone, and the result, if there
is one, stands in its place. -/
structure Back (globals : List String) (base : Nat) (frame locals : UInt8)
    (result : Option Int32) (values : Table Int32) (m m' : State) : Prop where
  size : m'.stack.size = stackSize + 1
  frame : m'.frame = frame
  locals : m'.locals = locals
  globals : HasGlobals globals values m'
  below : ∀ i, i < base → m'.stack[i]? = m.stack[i]?
  top : m'.top.toNat = if result.isSome then base + 1 else base
  value : ∀ v, result = some v → m'.stack[base]? = some v.toUInt32

section

variable {sensors : Sensors} {image : Image} {place : String → Int} {p : Program}
  {globals : List String} {fr : Frame} {a b c h : Nat} {s s' : Store} {v : Int32}
  {m m' : State} {Q R : State → Prop} {rest : List Instr}

lemma Reaches.trans (hq : Reaches sensors image m b Q)
    (hnext : ∀ m', m'.At image b → Q m' → Reaches sensors image m' c R) :
    Reaches sensors image m c R := by
  rcases hq with ⟨m1, hruns, hat, hm1⟩
  rcases hnext m1 hat hm1 with ⟨m2, hruns2, hat2, hm2⟩
  exact ⟨m2, hruns.trans hruns2, hat2, hm2⟩

lemma Reaches.step (hm : m.At image a) (h : (m.step sensors).2 = m') (hat : m'.At image b)
    (hq : Q m') : Reaches sensors image m b Q :=
  ⟨m', .step hm h, hat, hq⟩

lemma Reaches.refl (hm : m.At image a) (hq : Q m) : Reaches sensors image m a Q :=
  ⟨m, .refl m, hm, hq⟩

lemma Reaches.imp (hq : Reaches sensors image m b Q) (himp : ∀ m', Q m' → R m') :
    Reaches sensors image m b R :=
  hq.trans fun _ hat hm' => .refl hat (himp _ hm')

lemma Arrives.reaches {n : Nat} (harrives : Arrives image n m b Q) :
    Reaches sensors image m b Q := by
  obtain ⟨m', hleads, hat, hq⟩ := harrives
  exact ⟨m', hleads.runs sensors, hat, hq⟩

/-! ## Loads, stores and dropped results -/

variable {m0 : State} {x : String} {wanted : Bool} {values : Cell → Int32} {k : Nat}

section

variable (hleft : Left globals fr h s v true m0 m)

include hleft

lemma Left.stands_succ : Stands globals fr (h + 1) s m := by simpa using hleft.stands

lemma Left.room : h ≤ stackSize := by
  have hsize := hleft.stands.size
  have hval := hleft.value rfl
  have := (Array.getElem?_eq_some_iff.1 hval).1
  omega

omit hleft in
lemma Left.after (hleft : Left globals fr h s v wanted m m') (hkept : Kept fr h m0 m) :
    Left globals fr h s v wanted m0 m' :=
  ⟨hleft.stands, hleft.value, hkept.trans hleft.kept le_rfl⟩

lemma Left.results (hfew : globals.length ≤ 65536) : Results m.valueIn v true [] h m m :=
  ⟨hleft.stands_succ.within hfew, hleft.value, .refl m h⟩

end

lemma Stands.left (hs : Stands globals fr k s m) (hl : Layout globals fr.count fr.cell)
    (hbound : fr.base + 3 + fr.count ≤ h) (hr : Results values v wanted [] h m m') :
    Left globals fr h s v wanted m m' := by
  obtain ⟨hstands, hkept⟩ := hs.unchanged hl hbound hr.within (by split <;> omega) hr.unchanged
  exact ⟨hstands, hr.value, hkept⟩

lemma Stands.inside (hs : Stands globals fr k s m) (hbound : fr.base + 3 + fr.count ≤ h) :
    m.frame.toNat + 3 + m.locals.toNat ≤ h := by
  rwa [hs.frame, hs.locals]

section

variable (hl : Layout globals fr.count fr.cell) (hfew : globals.length ≤ 65536)
  (hbound : fr.base + 3 + fr.count ≤ h) (hm : m.At image a)
include hl hfew hbound hm

lemma storeBack_reaches {target : Expr} (hleft : Left globals fr h s v true m0 m)
    (hassign : s.assign target v = some s')
    (hc : image.CodeAt place a (storeBack fr.cell wanted target)) :
    Reaches sensors image m (a + width (storeBack fr.cell wanted target))
      (Left globals fr h s' v wanted m0) := by
  cases target with
  | var x symbol =>
    have hs := hleft.stands_succ
    have hassigns := hs.assigns hassign
    have hcov := hs.covers hl hassigns
    refine (storeBack_arrives hm (hleft.results hfew) (hs.inside hbound) hleft.room wanted hcov
      hc).reaches.imp fun m1 hr => ?_
    obtain ⟨hstands, hkept⟩ := hs.write hl hbound hassigns hr.within (by split <;> omega)
      hr.unchanged (hr.unchanged.covers hcov)
    exact Left.after ⟨hstands, hr.value, hkept⟩ hleft.kept
  | _ => simp [Store.assign] at hassign

lemma drop_reaches (hleft : Left globals fr h s v true m0 m)
    (hc : image.CodeAt place a (dropUnless wanted)) :
    Reaches sensors image m (a + width (dropUnless wanted)) (Left globals fr h s v wanted m0) :=
  have hs := hleft.stands_succ
  (drop_arrives hm (hleft.results hfew) (hs.inside hbound) wanted hc).reaches.imp fun _ hr =>
    (hs.left hl hbound hr).after hleft.kept

end

/-! ## The parts of the simulation -/

/-- How statements end on the machine: behind their code, behind the loop around them or behind
the call. -/
def Ends (sensors : Sensors) (image : Image) (place : String → Int) (globals : List String)
    (fr : Frame) (h : Nat) (exit? : Option String) (b : Nat) (s : Store) (m : State) :
    Outcome → Prop
  | .normal => Reaches sensors image m b fun m' => Stands globals fr h s m' ∧ Kept fr h m m'
  | .broke => ∃ (exit : String) (e : Nat), exit? = some exit ∧ place exit = e ∧
    Reaches sensors image m e fun m' => Stands globals fr h s m' ∧ Kept fr h m m'
  | .returned result =>
    Reaches sensors image m fr.back.toNat
      (Back globals fr.base fr.outerFrame fr.outerLocals result s.globals m)

section

variable (sensors : Sensors) (image : Image) (place : String → Int) (p : Program)
  (globals : List String) (n : Nat)

/-- Wherever the code of the expression stands, what the evaluator finds is reached. -/
def ExprSimulated (e : Expr) : Prop :=
  ∀ {fr h s v s' wanted m a}, evalExpr machineRoom p n h s e = some (v, s') →
    Layout globals fr.count fr.cell → Stands globals fr h s m → m.At image a →
    image.CodeAt place a (coreExpr fr.cell wanted e) →
    Reaches sensors image m (a + width (coreExpr fr.cell wanted e))
      (Left globals fr h s' v wanted m)

/-- Where arguments have values, their code leaves these on the stack in order. -/
def ArgsSimulated (args : List Expr) : Prop :=
  ∀ {fr h s values s' m a}, evalArgs machineRoom p n h s args = some (values, s') →
    Layout globals fr.count fr.cell → Stands globals fr h s m → m.At image a →
    image.CodeAt place a (coreArgs fr.cell args) →
    Reaches sensors image m (a + width (coreArgs fr.cell args)) fun m' =>
      Stands globals fr (h + values.length) s' m' ∧
      (∀ i v, values[i]? = some v → m'.stack[h + i]? = some v.toUInt32) ∧ Kept fr h m m'

/-- Wherever code that belongs to statements stands, they end as the evaluator finds. -/
def CodeSimulated (exec : Nat → Store → Option (Outcome × Store)) (ends breaks : Bool)
    (belongs : (String → Cell) → Option String → List Instr → Prop) : Prop :=
  ∀ {fr h s outcome s' exit? code m a}, exec h s = some (outcome, s') →
    belongs fr.cell exit? code → Layout globals fr.count fr.cell → Stands globals fr h s m →
    m.At image a → image.CodeAt place a code →
    (ends = true → a + width code < image.codeSize.toNat) →
    (∀ exit, exit? = some exit → breaks →
      ∃ e : Nat, place exit = e ∧ e < image.codeSize.toNat) →
    Ends sensors image place globals fr h exit? (a + width code) s' m outcome

abbrev StmtSimulated (st : Stmt) : Prop :=
  CodeSimulated sensors image place globals (execStmt machineRoom p n · · st) st.canEnd st.canBreak
    (StmtIs · · st ·)

abbrev StmtsSimulated (body : List Stmt) : Prop :=
  CodeSimulated sensors image place globals (execStmts machineRoom p n · · body) (canEnd body)
    (canBreak body) (StmtsAre · · body ·)

/-- What the evaluator finds with fuel `n` is reached by the machine. -/
structure Simulates : Prop where
  expr : ∀ {e}, ExprSimulated sensors image place p globals n e
  args : ∀ {args}, ArgsSimulated sensors image place p globals n args
  call : ∀ {h before name values result after m a rest},
    callFunc machineRoom p n h before name values = some (result, after) → m.At image a →
    m.stack.size = stackSize + 1 → m.top.toNat = h + values.length →
    (∀ i v, values[i]? = some v → m.stack[h + i]? = some v.toUInt32) →
    HasGlobals globals before m →
    image.CodeAt place a (⟨.call, [.label name none, .u8 (.ofInt values.length)]⟩ :: rest) →
    Reaches sensors image m (a + 4) (Back globals h m.frame m.locals result after m)
  stmt : ∀ {st}, StmtSimulated sensors image place p globals n st
  stmts : ∀ {body}, StmtsSimulated sensors image place p globals n body

end

section

variable {sensors : Sensors} {image : Image} {place : String → Int} {p : Program}
  {globals : List String} {n : Nat} {fr : Frame} {a h : Nat} {s s' : Store} {v : Int32} {m : State}

/-! ## Expressions -/

variable {symbol : Symbol} {op : Keyword} {e : Expr} {args : List Expr}

lemma Left.of_back {m1 m2 : State} {values} {k : Nat}
    (hl : Layout globals fr.count fr.cell) (hbound : fr.base + 3 + fr.count ≤ h)
    (hs : Stands globals fr k s m1) (hkept : Kept fr h m m1)
    (hback : Back globals h m1.frame m1.locals (some v) values m1 m2) :
    Left globals fr h { s with globals := values } v true m m2 := by
  have hsame : ∀ i, i < h → m2.stack[i]? = m1.stack[i]? := hback.below
  refine ⟨⟨hback.size, ?_, ?_, by simpa using hback.top, ?_, ?_, ?_, ?_, hback.globals, ?_⟩,
    fun _ => hback.value v rfl, ?_⟩
  · rw [hback.frame, hs.frame]
  · rw [hback.locals, hs.locals]
  · show fr.base + 3 + fr.count ≤ h + 1
    omega
  · rw [hsame _ (by omega), hs.back]
  · rw [hsame _ (by omega), hs.outerFrame]
  · rw [hsame _ (by omega), hs.outerLocals]
  · intro x w hx
    rcases hs.slots x w hx with ⟨i, hcell, hw⟩
    have := hl.bound x i hcell
    exact ⟨i, hcell, by rw [hsame _ (by omega), hw]⟩
  · intro i hi
    rw [hsame i (by omega), hkept i hi]

section

variable (hload : Loaded p globals image place)
include hload

lemma literal_simulated {k : Int} :
    ExprSimulated sensors image place p globals (n + 1) (.literal (.int k)) := by
  intro fr h s v s' wanted m a heval hl hs hm hc
  rcases evalExpr_literal.1 heval with ⟨hroom, rfl, rfl⟩
  simp only [coreExpr, width_cons, ← add_assoc] at hc ⊢
  refine (literal_arrives hm (hs.within hload.few) hroom hc).reaches.trans fun m1 hm1 hr => ?_
  exact drop_reaches hl hload.few hs.room hm1 (hs.left hl hs.room hr) hc.2

lemma var_simulated {x : String} :
    ExprSimulated sensors image place p globals (n + 1) (.var x symbol) := by
  intro fr h s v s' wanted m a heval hl hs hm hc
  rcases evalExpr_var.1 heval with ⟨hroom, hread, rfl⟩
  obtain ⟨hcov, hword⟩ := hs.read hl hread
  have hval : m.valueIn (fr.cell x) = v := by simp [State.valueIn, hword]
  simp only [coreExpr, width_cons, ← add_assoc] at hc ⊢
  refine (load_arrives hm (hs.within hload.few) hroom hcov hc).reaches.trans fun m1 hm1 hr => ?_
  rw [hval] at hr
  exact drop_reaches hl hload.few hs.room hm1 (hs.left hl hs.room hr) hc.2

variable (ih : Simulates sensors image place p globals n)
include ih

lemma unary_simulated :
    ExprSimulated sensors image place p globals (n + 1) (.unary op e) := by
  intro fr h s v s' wanted m a heval hl hs hm hc
  rcases evalExpr_unary heval with ⟨f, w, hf, hw, rfl⟩
  simp only [coreExpr, width_append, ← add_assoc, Image.codeAt_append] at hc ⊢
  rcases hc with ⟨⟨hopnd, hop⟩, hdrop⟩
  rw [width_cons, width_nil, add_zero, width_plain (unaryOpcode_ne_label op)] at hdrop ⊢
  refine (ih.expr hw hl hs hm hopnd).trans fun m1 hm1 hleft1 => ?_
  have hs1 := hleft1.stands_succ
  refine (unary_arrives hm1 (hleft1.results hload.few) (hs1.inside hs.room) hleft1.room hf
    hop).reaches.trans fun m2 hm2 hr => ?_
  exact drop_reaches hl hload.few hs.room hm2 ((hs1.left hl hs.room hr).after hleft1.kept) hdrop

lemma assign_simulated {target : Expr} :
    ExprSimulated sensors image place p globals (n + 1) (.binary .assign target e) := by
  intro fr h s v s' wanted m a heval hl hs hm hc
  rcases evalExpr_assign heval with ⟨s1, hv, hassign⟩
  simp only [coreExpr, if_true, width_append, ← add_assoc, Image.codeAt_append] at hc ⊢
  exact (ih.expr hv hl hs hm hc.1).trans fun m1 hm1 hleft1 =>
    storeBack_reaches hl hload.few hs.room hm1 hleft1 hassign hc.2

lemma binary_simulated {x y : Expr} (hop : op ≠ .assign) :
    ExprSimulated sensors image place p globals (n + 1) (.binary op x y) := by
  intro fr h s v s' wanted m a heval hl hs hm hc
  rcases evalExpr_binary hop heval with ⟨f, v1, v2, s1, s2, hf, hv1, hv2, rfl, hupdate⟩
  simp only [coreExpr, hop, if_false, width_append, ← add_assoc, Image.codeAt_append] at hc ⊢
  rcases hc with ⟨⟨⟨hleftCode, hrightCode⟩, hopCode⟩, htail⟩
  rw [width_cons, width_nil, add_zero, width_plain (binaryOpcode_ne_label op)] at htail ⊢
  refine (ih.expr hv1 hl hs hm hleftCode).trans fun m1 hm1 hleft1 => ?_
  refine (ih.expr hv2 hl hleft1.stands_succ hm1 hrightCode).trans fun m2 hm2 hleft2 => ?_
  have hs2 := hleft2.stands_succ
  -- The left operand still stands under the right one.
  have hlower : m2.stack[h]? = some v1.toUInt32 := by
    rw [hleft2.kept h (.inr ⟨hs.room, by omega⟩), hleft1.value rfl]
  refine (binary_arrives hm2 (hs2.within hload.few) hlower (hleft2.value rfl) (hs2.inside hs.room)
    hleft1.room hf hopCode).reaches.trans fun m3 hm3 hr => ?_
  have hleft := (hs2.left hl hs.room hr).after (hleft1.kept.trans hleft2.kept (Nat.le_succ h))
  by_cases hassign : op.isAssignment = true
  · rw [Store.update, if_pos hassign] at hupdate
    rw [if_pos hassign] at htail ⊢
    exact storeBack_reaches hl hload.few hs.room hm3 hleft hupdate htail
  · rw [Store.update, if_neg hassign, Option.some.injEq] at hupdate
    subst hupdate
    rw [if_neg hassign] at htail ⊢
    exact drop_reaches hl hload.few hs.room hm3 hleft htail

lemma call_simulated {func} :
    ExprSimulated sensors image place p globals (n + 1) (.call func symbol args) := by
  intro fr h s v s' wanted m a heval hl hs hm hc
  rcases evalExpr_call heval with ⟨values, s1, after, hargs, hcall, rfl⟩
  simp only [coreExpr, width_append, ← add_assoc, Image.codeAt_append] at hc ⊢
  rcases hc with ⟨⟨hargsCode, hcallCode⟩, hdrop⟩
  refine (ih.args hargs hl hs hm hargsCode).trans ?_
  rintro m1 hm1 ⟨hstands1, hvals, hkept1⟩
  rw [← length_evalArgs hargs] at hcallCode
  refine (ih.call hcall hm1 hstands1.size hstands1.top hvals hstands1.globals hcallCode).trans
    fun m2 hm2 hback => ?_
  have hleft := Left.of_back hl hs.room hstands1 hkept1 hback
  exact drop_reaches hl hload.few hs.room hm2 hleft hdrop

lemma expr_simulated :
    ExprSimulated sensors image place p globals (n + 1) e := by
  intro fr h s v s' wanted m a heval hl hs hm hc
  cases e with
  | literal value =>
    cases value with
    | int k => exact literal_simulated hload heval hl hs hm hc
    | flag | real => simp [evalExpr] at heval
  | var x symbol => exact var_simulated hload heval hl hs hm hc
  | unary op e => exact unary_simulated hload ih heval hl hs hm hc
  | binary op x y =>
    by_cases hop : op = .assign
    · subst hop
      exact assign_simulated hload ih heval hl hs hm hc
    · exact binary_simulated hload ih hop heval hl hs hm hc
  | call func symbol args => exact call_simulated hload ih heval hl hs hm hc
  | hole | blank | typeName | sysCall => simp [evalExpr] at heval

end

lemma args_simulated (ih : Simulates sensors image place p globals n) :
    ArgsSimulated sensors image place p globals (n + 1) args := by
  intro fr h s values s' m a heval hl hs hm hc
  cases args with
  | nil =>
    simp only [evalArgs, Option.some.injEq, Prod.mk.injEq] at heval
    rcases heval with ⟨rfl, rfl⟩
    exact .refl hm ⟨hs, by simp, .refl m⟩
  | cons e rest =>
    rcases evalArgs_cons heval with ⟨v, s1, vs, hv, hvs, rfl⟩
    simp only [coreArgs, width_append, ← add_assoc, Image.codeAt_append] at hc ⊢
    refine (ih.expr hv hl hs hm hc.1).trans fun m1 hm1 hleft1 => ?_
    refine (ih.args hvs hl hleft1.stands_succ hm1 hc.2).imp ?_
    rintro m2 ⟨hstands2, hvals, hkept2⟩
    refine ⟨?_, ?_, hleft1.kept.trans hkept2 (Nat.le_succ h)⟩
    · rwa [List.length_cons, add_comm vs.length 1, ← add_assoc]
    · intro i w hi
      cases i with
      | zero =>
        cases hi
        rw [add_zero, hkept2 h (.inr ⟨hs.room, by omega⟩), hleft1.value rfl]
      | succ i =>
        rw [add_comm i 1, ← add_assoc]
        exact hvals i w hi

end

end

end ArmStudio.Machine
