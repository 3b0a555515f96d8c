import ArmStudio.Proofs.Arithmetic
import ArmStudio.Proofs.CoreProgram
import ArmStudio.Proofs.StmtSimulation

/-!
# Arithmetic outside of all functions

Start-up code runs where there is no frame. The machine takes a stack of three words there for a
frame without operands, so an operation fails if one of its operands is the third word.
-/

namespace ArmStudio.Script

/-- Above `t` words, an operation of the expression finds the third word. -/
def Expr.trips : Nat → Expr → Bool
  | t, .binary _ a b => a.trips t || (b.trips (t + 1) || (t == 1 || t == 2))
  | _, _ => false

lemma Expr.trips_one (e : Expr) : e.trips 1 = decide (2 ≤ e.depth) := by
  cases e with
  | binary op a b =>
    have hb := b.depth_pos
    have hdepth : 2 ≤ (Expr.binary op a b).depth := by
      rw [depth]
      omega
    simp [trips, hdepth]
  | _ => rfl

lemma Expr.trips_zero (e : Expr) : e.trips 0 = decide (3 ≤ e.depth) := by
  induction e with
  | binary op a b iha _ =>
    rw [trips, iha, trips_one, depth, Bool.eq_iff_iff]
    simp only [Bool.or_eq_true, decide_eq_true_eq, beq_iff_eq]
    omega
  | _ => rfl

end ArmStudio.Script

namespace ArmStudio.Machine

open Code Script List VarDecl

/-! ## The stack outside of all functions -/

/-- The machine is outside of all functions, with these words on the stack and these globals. -/
structure Holding (words globals : List UInt32) (m : State) : Prop where
  size : m.stack.size = stackSize + 1
  frame : m.frame.toNat = 0
  top : m.top.toNat = words.length
  words : ∀ (i : Nat) w, words[i]? = some w → m.stack[i]? = some w
  globals : m.globals.toList = globals

namespace Holding

variable {words globals : List UInt32} {m : State}

lemma start (image : Image) : Holding [] (List.replicate image.globalCount 0) (State.start image) :=
  ⟨by simp [State.start], rfl, rfl, by simp, by simp [State.start]⟩

lemma advance (h : Holding words globals m) (k : Nat) : Holding words globals (m.advance k) :=
  ⟨h.size, h.frame, h.top, h.words, h.globals⟩

lemma pushed (h : Holding words globals m) (w : UInt32) (hroom : words.length ≤ stackSize) :
    Holding (words ++ [w]) globals (m.pushed w) := by
  have htop := h.top
  have hsize := h.size
  have hsmall : stackSize < 65535 := by decide
  refine ⟨by simpa using hsize, h.frame, ?_, ?_, h.globals⟩
  · rw [State.toNat_pushed_top _ (by omega), htop, length_append, length_singleton]
  · intro i v hi
    rw [State.pushed_stack, htop, Array.getElem?_setIfInBounds]
    by_cases hlast : words.length = i
    · subst hlast
      have hv : w = v := by simpa using hi
      rw [if_pos rfl, if_pos (by omega), hv]
    · have hlt : i < words.length := by
        have := (List.getElem?_eq_some_iff.1 hi).1
        rw [length_append, length_singleton] at this
        omega
      rw [if_neg hlast]
      rw [getElem?_append_left hlt] at hi
      exact h.words i v hi

lemma popped {w : UInt32} (h : Holding (words ++ [w]) globals m) :
    Holding words globals m.popped := by
  refine ⟨h.size, h.frame, State.popped_top (by simpa using h.top), ?_, h.globals⟩
  intro i v hi
  have hlt := (List.getElem?_eq_some_iff.1 hi).1
  exact h.words i v (by rwa [getElem?_append_left hlt])

end Holding

/-! ## Code that fails or reaches its end -/

/-- Steps lead to a machine that has found its operands missing. -/
def Fails (sensors : Sensors) (m : State) : Prop :=
  ∃ m', Runs sensors m m' ∧ m'.status = .operandUnderflow

/-- Code that fails if it is `bad`, and otherwise reaches an address and a state with a property. -/
def Goes (sensors : Sensors) (image : Image) (bad : Bool) (m : State) (b : Nat)
    (Q : State → Prop) : Prop :=
  if bad = true then Fails sensors m else Reaches sensors image m b Q

section

variable {sensors : Sensors} {image : Image} {place : String → Int} {bad bad' : Bool}
  {words : List UInt32} {a b c : Nat} {m m' : State} {Q R : State → Prop} {rest : List Instr}

lemma Fails.behind (h : Fails sensors m') (hruns : Runs sensors m m') : Fails sensors m := by
  rcases h with ⟨m'', hruns', hstatus⟩
  exact ⟨m'', hruns.trans hruns', hstatus⟩

lemma Goes.of_reaches (h : Reaches sensors image m b Q) : Goes sensors image false m b Q := h

lemma Goes.trans (hq : Goes sensors image bad m b Q)
    (hnext : ∀ m', m'.At image b → Q m' → Goes sensors image bad' m' c R) :
    Goes sensors image (bad || bad') m c R := by
  cases bad with
  | true => exact hq
  | false =>
    rcases hq with ⟨m1, hruns, hat, hm1⟩
    have hgoes := hnext m1 hat hm1
    cases bad' with
    | true => exact Fails.behind hgoes hruns
    | false =>
      rcases hgoes with ⟨m2, hruns2, hat2, hm2⟩
      exact ⟨m2, hruns.trans hruns2, hat2, hm2⟩

/-! ## Expressions -/

variable {known : List String} {values : Table Int32} {cell : String → Cell} {globals : List UInt32}
  {op : Keyword} {later : List String} {others : List UInt32} {old : UInt32}

lemma coreExpr_arithmetic (hop : op.isArithmetic) (x y : Expr) :
    coreExpr cell true (.binary op x y) =
      coreExpr cell true x ++ coreExpr cell true y ++ [.plain (binaryOpcode op)] := by
  obtain ⟨hassign, his⟩ := isAssignment_arithmetic hop
  simp [coreExpr, hassign, his, dropUnless]

lemma operator_goes (hop : op.isArithmetic) {v w : Int32} (hm : m.At image a)
    (hh : Holding (words ++ [v.toUInt32] ++ [w.toUInt32]) globals m)
    (hroom : words.length ≤ stackSize)
    (hc : image.CodeAt place a (.plain (binaryOpcode op) :: rest)) :
    Goes sensors image (words.length == 1 || words.length == 2) m (a + 1)
      (Holding (words ++ [(op.onNumbers v w).toUInt32]) globals) := by
  have hwidth : (Instr.plain (binaryOpcode op)).width = 1 := width_plain (binaryOpcode_ne_label op)
  have htop : m.top.toNat = words.length + 2 := by simpa using hh.top
  rcases perform_binaryOpcode (binaryMeaning_arithmetic hop) sensors with ⟨g, hg, hval⟩
  have hframe := hh.frame
  -- The pops look at the heights `words.length + 2` and `words.length + 1`, and fail at 3.
  by_cases hbad : words.length = 1 ∨ words.length = 2
  · have hfour : 4 ≤ stackSize := by decide
    have hstatus := hm.step_binary_underflow sensors hg (binaryOpcode_ne_label op)
      (isJump_binaryOpcode op) hc htop (by omega) (by omega)
    have htrue : (words.length == 1 || words.length == 2) = true := by simpa using hbad
    rw [Goes, if_pos htrue]
    exact ⟨_, .step hm rfl, hstatus⟩
  · have hstep := hm.step_binary sensors hg (binaryOpcode_ne_label op) (isJump_binaryOpcode op) hc
      htop (by omega) (by omega) hroom
    have hlower : m.stack[words.length]? = some v.toUInt32 := hh.words _ _ (by simp)
    have hupper : m.stack[words.length + 1]? = some w.toUInt32 := hh.words _ _ (by simp)
    rw [hlower, hupper, Option.getD_some, Option.getD_some, hval] at hstep
    have hfalse : ¬ (words.length == 1 || words.length == 2) = true := by simpa using hbad
    rw [Goes, if_neg hfalse]
    exact .step hm hstep ((hm.behind hc hwidth).same rfl rfl rfl rfl)
      ((hh.advance 1).popped.popped.pushed _ hroom)

/-- The known variables are globals that hold their values. -/
def Loads (known : List String) (values : Table Int32) (cell : String → Cell)
    (globals : List UInt32) : Prop :=
  ∀ x ∈ known, ∃ i : Nat, cell x = .global i ∧ i < 65536 ∧
    globals[i]? = some ((values.find? x).getD 0).toUInt32

lemma expr_goes {e : Expr} (hloads : Loads known values cell globals)
    (he : e.isArithmetic known) {words} {a : Nat} {m : State}
    (hm : m.At image a) (hh : Holding words globals m)
    (hroom : words.length + e.depth ≤ stackSize + 1)
    (hc : image.CodeAt place a (coreExpr cell true e)) :
    Goes sensors image (e.trips words.length) m (a + width (coreExpr cell true e))
      (Holding (words ++ [(e.number values).toUInt32]) globals) := by
  induction e, he using Expr.isArithmetic_induct generalizing words a m with
  | literal n =>
    have hfits : words.length ≤ stackSize := Nat.le_of_succ_le_succ hroom
    have hstep := hm.step_immi sensors hc (by rw [hh.top]; exact hfits)
    rw [toUInt32_lowBytes] at hstep
    exact .of_reaches (.step hm hstep ((hm.behind hc rfl).same rfl rfl rfl rfl)
      ((hh.advance 5).pushed _ hfits))
  | var x symbol _ hx _ =>
    have hfits : words.length ≤ stackSize := Nat.le_of_succ_le_succ hroom
    obtain ⟨i, hcell, hi, hword⟩ := hloads x hx
    rw [coreExpr, hcell] at hc ⊢
    have hglob : m.globals[i]? = some ((values.find? x).getD 0).toUInt32 := by
      rw [← Array.getElem?_toList, hh.globals, hword]
    have hstep := hm.step_loadg sensors hc hi hglob (by rw [hh.top]; exact hfits)
    exact .of_reaches (.step hm hstep ((hm.behind hc rfl).same rfl rfl rfl rfl)
      ((hh.advance 3).pushed _ hfits))
  | binary op x y _ _ _ hop ihx ihy =>
    rw [Expr.depth] at hroom
    have hpos := y.depth_pos
    rw [coreExpr_arithmetic hop] at hc ⊢
    simp only [width_append, ← add_assoc, Image.codeAt_append] at hc ⊢
    refine (ihx hm hh (by omega) hc.1.1).trans fun m1 hm1 hh1 => ?_
    -- The right operand runs above the value of the left one.
    have hlength : (words ++ [(x.number values).toUInt32]).length = words.length + 1 := by simp
    have hright := ihy hm1 hh1 (by rw [hlength]; omega) hc.1.2
    rw [hlength] at hright
    refine hright.trans fun m2 hm2 hh2 => ?_
    rw [width_cons, width_nil, add_zero, width_plain (binaryOpcode_ne_label op)]
    exact operator_goes hop hm2 hh2 (by omega) hc.2

/-! ## Global variables -/

/-- The code of a global variable's first value, and its store. -/
def exprInit (globals : List String) (i : Nat) (d : VarDecl) : List Instr := (match d.init with
    | some e => coreExpr (cellOf globals []) true e
    | none => []) ++ [(Cell.global i).store]

def tableWords (values : Table Int32) : List UInt32 := values.entries.map fun e => e.2.toUInt32

lemma loads_before (hfew : values.names.length ≤ 65536) :
    Loads values.names values (cellOf (values.names ++ later) [])
      (tableWords values ++ others) := by
  intro x hx
  have hidx : (values.names ++ later).idxOf x = values.names.idxOf x := idxOf_append_of_mem hx
  have hlt := idxOf_lt_length_of_mem hx
  have hsome : (values.find? x).isSome = true := by rwa [← Table.contains_iff] at hx
  obtain ⟨v, hv⟩ := Option.isSome_iff_exists.1 hsome
  refine ⟨values.names.idxOf x, by simp [cellOf, hidx], by omega, ?_⟩
  have hentry := Table.getElem?_entries hv
  rw [getElem?_append_left (by simpa [tableWords, Table.names] using hlt), tableWords,
    getElem?_map, hentry, hv]
  rfl

lemma storeGlobal_reaches {done} {w : UInt32} (hm : m.At image a)
    (hh : Holding [w] (done ++ old :: others) m) (hfew : done.length < 65536)
    (hc : image.CodeAt place a ((Cell.global done.length).store :: rest)) :
    Reaches sensors image m (a + 3) (Holding [] (done ++ w :: others)) := by
  have hframe := hh.frame
  have hsize : done.length < m.globals.size := by
    rw [← Array.length_toList, hh.globals]
    simp
  have hword : m.stack[0]? = some w := hh.words 0 w rfl
  have htop : m.top.toNat = 0 + 1 := hh.top
  have hstep := hm.step_storg sensors hc hfew hsize htop (by omega)
  rw [hword, Option.getD_some] at hstep
  have hpop : Holding [] (done ++ old :: others) (m.advance 3).popped :=
    Holding.popped (hh.advance 3)
  refine .step hm hstep ((hm.behind hc rfl).same rfl rfl rfl rfl)
    ⟨hpop.size, hpop.frame, hpop.top, by simp, ?_⟩
  simp [State.assigned, hh.globals]

lemma var_goes {d} (hd : d.IsArithmetic values.names)
    (hfew : values.names.length < 65536) (hroom : d.depth ≤ stackSize) (hm : m.At image a)
    (hh : Holding [] (tableWords values ++ old :: others) m)
    (hc : image.CodeAt place a (exprInit (values.names ++ later) values.names.length d)) :
    Goes sensors image (decide (3 ≤ d.depth)) m
      (a + width (exprInit (values.names ++ later) values.names.length d))
      (Holding [] (tableWords values ++ (d.number values).toUInt32 :: others)) := by
  obtain ⟨e, hinit, he⟩ := hd.init
  have hlength : values.names.length = (tableWords values).length := by
    simp [tableWords, Table.names]
  simp only [exprInit, hinit, depth, number, width_append, ← add_assoc,
    Image.codeAt_append] at hc hroom ⊢
  have hexpr : Goes sensors image _ m _ _ :=
    expr_goes (loads_before (by omega)) he hm hh (by simp; omega) hc.1
  rw [length_nil, Expr.trips_zero] at hexpr
  rw [← Bool.or_false (decide (3 ≤ e.depth))]
  refine hexpr.trans fun m1 hm1 hh1 => ?_
  rw [hlength] at hc hfew
  exact .of_reaches (storeGlobal_reaches hm1 hh1 hfew hc.2)

lemma vars_goes {isFunc} (vars : List VarDecl) :
    ∀ values old a m,
    declsAre IsArithmetic isFunc values.names (vars.map .var) →
    values.names.length + vars.length ≤ 65536 → (∀ d ∈ vars, d.depth ≤ stackSize) →
    old.length = vars.length → m.At image a → Holding [] (tableWords values ++ old) m →
    image.CodeAt place a (startCode (exprInit (values.names ++ vars.map name))
      values.names.length vars) →
    Goes sensors image (vars.any fun d => decide (3 ≤ d.depth)) m
      (a + width (startCode (exprInit (values.names ++ vars.map name))
        values.names.length vars))
      (Holding [] (tableWords (valuesFrom values vars))) := by
  induction vars with
  | nil =>
    intro values old a m _ _ _ hlen hm hh _
    have hold : old = [] := by simpa using hlen
    subst hold
    rw [append_nil] at hh
    exact .of_reaches (.refl hm hh)
  | cons d rest ih =>
    intro values old a m hvars hfew hroom hlen hm hh hc
    cases old with
    | nil => simp at hlen
    | cons first others =>
      simp only [length_cons] at hfew hlen
      simp only [map_cons, startCode, width_append, ← add_assoc, Image.codeAt_append] at hc ⊢
      rw [any_cons]
      refine (var_goes hvars.1 (by omega) (hroom d (by simp)) hm hh hc.1).trans
        fun m1 hm1 hh1 => ?_
      -- The rest runs behind a table that ends with the new variable.
      let next : Table Int32 := ⟨values.entries ++ [(d.name, d.number values)]⟩
      have hnames : next.names = values.names ++ [d.name] := by simp [next, Table.names]
      have hwords : tableWords next ++ others =
          tableWords values ++ (d.number values).toUInt32 :: others := by
        simp [next, tableWords]
      have hall : values.names ++ d.name :: rest.map name =
          next.names ++ rest.map name := by
        simp [hnames]
      have hcount : values.names.length + 1 = next.names.length := by simp [hnames]
      rw [← hwords] at hh1
      rw [hall] at hc hm1 ⊢
      rw [hcount] at hc ⊢
      refine ih next others _ m1 ?_ (by omega) (fun d' hd' => hroom d' (by simp [hd']))
        (by omega) hm1 hh1 hc.2
      rw [hnames]
      exact hvars.2

end

section

variable {p : Program} {symbols : Symbols} {globals before : List String} {d : VarDecl}

/-! ## Assembly -/

lemma hasInit_arithmetic (hd : d.IsArithmetic before) :
    HasInit p globals (exprInit globals) before d := by
  obtain ⟨e, hinit, he⟩ := hd.init
  refine ⟨hd.notConst, e, hinit, fun c s htracks hc => ?_⟩
  -- The assembler has noted the variable itself already, but its first value does not use it.
  let visible : Visible := ⟨before ++ [d.name], fun _ => none, []⟩
  have hknown : Known visible (cellOf globals []) s.storage s.symbols :=
    CoreContext.known hc htracks (by simp) (by simp [visible])
  have hcore : e.isCore visible = true :=
    Expr.isCore_of_isArithmetic (fun x hx => mem_append_left _ hx) he
  exact ⟨_, exprCode_core hknown hcore true, by simp [exprInit, hinit]⟩

lemma fits_exprInit (hd : d.IsArithmetic before) (i : Nat) :
    ∀ instr ∈ exprInit globals i d, instr.Fits := by
  obtain ⟨e, hinit, he⟩ := hd.init
  have hcore : e.isCore ⟨before, fun _ => none, []⟩ = true :=
    Expr.isCore_of_isArithmetic (fun x hx => hx) he
  simp only [exprInit, hinit, forall_mem_append, forall_mem_cons, not_mem_nil,
    false_implies, implies_true, and_true]
  exact ⟨fits_coreExpr hcore true, fits_store _⟩

lemma assemble_arithmetic (hp : p.IsArithmetic) (hsym : p.Declares symbols) :
    ∃ a s, assemble symbols p = .ok (a, s) ∧ Complete p (p.vars.map name)
      (startCode (exprInit (p.vars.map name)) 0 p.vars) a s := by
  refine assemble_complete hp.distinct hsym (fun _ _ hd => hasInit_arithmetic hd) hp.decls
    (fits_startUp (fun d hd => ?_) 0)
  obtain ⟨before, harith⟩ := hp.var hd
  exact fits_exprInit harith

lemma length_le_width_startCode (globals : List String) (vars : List VarDecl) (i : Nat) :
    vars.length ≤ width (startCode (exprInit globals) i vars) := by
  induction vars generalizing i with
  | nil => exact zero_le
  | cons d rest ih =>
    have hstore : (Cell.global i).store.width = 3 := rfl
    have hrest := ih (i + 1)
    simp only [startCode, exprInit, width_append, width_cons, width_nil, hstore, length_cons]
    omega

end

end ArmStudio.Machine
