import ArmStudio.Machine.Run
import ArmStudio.Proofs.Placement

/-!
# Steps of the machine on placed code

What one step does where an instruction stands at the program counter.
-/

namespace ArmStudio.Machine

open Code Exec Image Relation.ReflTransGen State Instr

namespace State

variable (m : State)

def advance (k : Nat) : State := { m with pc := m.pc + k.toUInt16 }

def goto (a : UInt16) : State := { m with pc := a }

def pushed (w : UInt32) : State :=
  { m with stack := m.stack.setIfInBounds m.top.toNat w, top := m.top + 1 }

def popped : State := { m with top := m.top - 1 }

def stored (i : Nat) (w : UInt32) : State :=
  { m with stack := m.stack.setIfInBounds (m.frame.toNat + 3 + i) w }

def assigned (i : Nat) (w : UInt32) : State :=
  { m with globals := m.globals.setIfInBounds i w }

section

variable (m : State) (k : Nat) (a : UInt16) (w : UInt32)

@[simp] lemma advance_image : (m.advance k).image = m.image := rfl
@[simp] lemma advance_stack : (m.advance k).stack = m.stack := rfl
@[simp] lemma advance_top : (m.advance k).top = m.top := rfl
@[simp] lemma advance_frame : (m.advance k).frame = m.frame := rfl
@[simp] lemma advance_globals : (m.advance k).globals = m.globals := rfl
@[simp] lemma advance_waiting : (m.advance k).waiting = m.waiting := rfl

@[simp] lemma goto_image : (m.goto a).image = m.image := rfl
@[simp] lemma goto_pc : (m.goto a).pc = a := rfl
@[simp] lemma goto_stack : (m.goto a).stack = m.stack := rfl
@[simp] lemma goto_top : (m.goto a).top = m.top := rfl
@[simp] lemma goto_frame : (m.goto a).frame = m.frame := rfl
@[simp] lemma goto_waiting : (m.goto a).waiting = m.waiting := rfl
@[simp] lemma goto_status : (m.goto a).status = m.status := rfl

@[simp] lemma pushed_stack : (m.pushed w).stack = m.stack.setIfInBounds m.top.toNat w := rfl

@[simp] lemma popped_stack : m.popped.stack = m.stack := rfl
@[simp] lemma popped_frame : m.popped.frame = m.frame := rfl
@[simp] lemma popped_globals : m.popped.globals = m.globals := rfl

end

lemma toNat_advance_pc {m : State} {k : Nat} (h : m.pc.toNat + k < 65536) :
    (m.advance k).pc.toNat = m.pc.toNat + k := by
  have hk : k % 65536 = k := Nat.mod_eq_of_lt (by omega)
  simp [advance, UInt16.toNat_add, hk, Nat.mod_eq_of_lt h]

lemma toNat_pushed_top {m : State} (w : UInt32) (h : m.top.toNat + 1 < 65536) :
    (m.pushed w).top.toNat = m.top.toNat + 1 := by
  simp [pushed, UInt16.toNat_add, Nat.mod_eq_of_lt h]

lemma popped_top {m : State} {h : Nat} (ht : m.top.toNat = h + 1) : m.popped.top.toNat = h := by
  have hle : (1 : UInt16) ≤ m.top := by
    rw [UInt16.le_iff_toNat_le, ht]
    exact Nat.le_add_left 1 h
  simp [popped, UInt16.toNat_sub_of_le _ _ hle, ht]

lemma exists_top {m : State} (h : m.top ≠ 0) : ∃ k, m.top.toNat = k + 1 :=
  Nat.exists_eq_succ_of_ne_zero fun h0 => h (UInt16.toNat_inj.1 h0)

end State

/-! ## Parts of operations -/

namespace Exec

variable {α β : Type} {m : State}

@[simp] lemma pure_apply (a : α) (m : State) : (pure a : Exec α) m = (a, m) := rfl

@[simp] lemma bind_apply (e : Exec α) (f : α → Exec β) (m : State) :
    (e >>= f) m = f (e m).1 (e m).2 := rfl

@[simp] lemma get_apply (m : State) : (get : Exec State) m = (m, m) := rfl

@[simp] lemma set_apply (m' m : State) : (set m' : Exec PUnit) m = (⟨⟩, m') := rfl

@[simp] lemma modify_apply (f : State → State) (m : State) :
    (modify f : Exec PUnit) m = (⟨⟩, f m) := rfl

@[simp] lemma map_apply (f : α → β) (e : Exec α) (m : State) :
    (f <$> e) m = (f (e m).1, (e m).2) := rfl

@[simp] lemma discard_apply (e : Exec α) (m : State) :
    (discard e : Exec PUnit) m = (⟨⟩, (e m).2) := rfl

@[simp] lemma quietly_apply (e : Exec Unit) (m : State) : quietly e m = ([], (e m).2) := rfl

variable {n : Int} {bytes : List UInt8} {h i : Nat} {w : UInt32}

lemma fetch_eq {count : Nat} (h : m.image.Holds m.pc.toNat (intBytes count n ++ bytes)) :
    fetch count m = (Image.lowBytes count n, m.advance count) := by
  have hin : ¬ m.image.codeSize.toNat < m.pc.toNat + count := by
    have := (holds_append.1 h).1.1
    rw [length_intBytes] at this
    omega
  have hread := codeNumber_of_holds h
  simp [fetch, hin, hread, advance]

lemma push_eq (w : UInt32) (h : m.top.toNat ≤ stackSize) : push w m = ((), m.pushed w) := by
  have hroom : ¬ stackSize < m.top.toNat := by omega
  simp [push, hroom, pushed]

lemma pop_eq (ht : m.top.toNat = h + 1) : pop m = ((m.stack[h]?).getD 0, m.popped) := by
  have hne : m.top ≠ 0 := by
    intro h0
    simp [h0] at ht
  simp [pop, hne, word, ht, popped]

lemma popOperand_eq (ht : m.top.toNat = h + 1) (hf : h + 1 ≠ m.frame.toNat + 3) :
    popOperand m = ((m.stack[h]?).getD 0, m.popped) := by
  have hne : ¬ m.top.toNat = m.frame.toNat + 3 := by omega
  have := pop_eq ht
  simp [popOperand, hne, this]

lemma popOperand_underflow (h : m.top.toNat = m.frame.toNat + 3) :
    popOperand m = (0, { m with status := .operandUnderflow }) := by
  simp [popOperand, h, fail]

lemma readLocal_eq (h : i < m.locals.toNat) :
    readLocal i m = ((m.stack[m.frame.toNat + 3 + i]?).getD 0, m) := by
  simp [readLocal, h, word, localPlace]

lemma readGlobal_eq (h : m.globals[i]? = some w) : readGlobal i m = (w, m) := by
  simp [readGlobal, h]

lemma writeLocal_eq (h : i < m.locals.toNat) : writeLocal i w m = ((), m.stored i w) := by
  simp [writeLocal, h, stored, localPlace]

lemma writeGlobal_eq (h : i < m.globals.size) : writeGlobal i w m = ((), m.assigned i w) := by
  simp [writeGlobal, h, assigned]

lemma withAddress_eq {next : UInt16 → Exec Unit}
    (h : m.image.Holds m.pc.toNat (intBytes 2 n ++ bytes)) (h0 : 0 ≤ n)
    (hn : n < m.image.codeSize.toNat) :
    withAddress next m = ([], (next n.toNat.toUInt16 (m.advance 2)).2) := by
  have hlt : m.image.codeSize.toNat < 65536 := m.image.codeSize.toNat_lt
  have hmod : Image.lowBytes 2 n = n.toNat := by
    rw [lowBytes_two]
    omega
  have hsmall : n.toNat.toUInt16.toNat = n.toNat := by
    simp
    omega
  have hin : ¬ (m.advance 2).image.codeSize ≤ n.toNat.toUInt16 := by
    rw [advance_image, UInt16.le_iff_toNat_le, hsmall]
    omega
  have hfetch := fetch_eq h
  rw [hmod] at hfetch
  have htest : ∀ (no yes : Exec (List Action)),
      (if (m.advance 2).image.codeSize ≤ n.toNat.toUInt16 then no else yes) (m.advance 2) =
        yes (m.advance 2) := fun no yes => by rw [if_neg hin]
  dsimp only [withAddress, Operates.fetch]
  rw [bind_apply, hfetch]
  exact htest _ _

end Exec

/-! ## The step at an instruction -/

lemma argBytes_u8 (n : Int) : argBytes [.u8 (.ofInt n)] = .ok (intBytes 1 n ++ []) := rfl

lemma argBytes_u16 (n : Int) : argBytes [.u16 (.ofInt n)] = .ok (intBytes 2 n ++ []) := rfl

lemma argBytes_u32 (n : Int) : argBytes [.u32 (.ofInt n)] = .ok (intBytes 4 n ++ []) := rfl

lemma ofCode?_code (op : Opcode) : Opcode.ofCode? op.code = some op := by
  cases op <;> rfl

variable {m : State} {op : Opcode} {bytes : List UInt8}

lemma Exec.fetch_op (h : m.image.Holds m.pc.toNat (op.code :: bytes)) :
    ∃ n, fetch 1 m = (n, m.advance 1) ∧ n.toUInt8 = op.code := by
  have hbyte : intBytes 1 op.code.toNat = [op.code] := by
    cases op <;> rfl
  have hholds : m.image.Holds m.pc.toNat (intBytes 1 op.code.toNat ++ bytes) := by
    simpa [hbyte] using h
  refine ⟨_, fetch_eq hholds, ?_⟩
  cases op <;> rfl

/-- A machine that waits for nothing does the operation that stands at the program counter. -/
theorem step_eq_perform (sensors : Sensors) (hidle : m.waiting = .nothing)
    (h : m.image.Holds m.pc.toNat (op.code :: bytes)) :
    m.step sensors = perform sensors op (m.advance 1) := by
  obtain ⟨n, hfetch, hcode⟩ := fetch_op h
  simp only [step, hidle, if_true, Operates.operate, Operates.fetch, bind_apply, hfetch, hcode,
    ofCode?_code]

namespace Image.CodeAt

variable {image : Image} {place : String → Int} {a : Nat} {rest : List Instr} {op : Opcode}
  {args : List Operand} {bytes : List UInt8}

lemma holds_plain (h : image.CodeAt place a (⟨op, args⟩ :: rest)) (hl : op ≠ .label)
    (hj : op.isJump = false) (hb : argBytes args = .ok bytes) :
    image.Holds a (op.code :: bytes) := by
  have hbytes : Instr.bytes ⟨op, args⟩ = .ok (op.code :: bytes) :=
    Instr.bytes_eq_ok.2 ⟨bytes, hb, rfl⟩
  have := h.1.2.1
  rwa [encoded_plain place hl hj hbytes] at this

lemma holds_jump {name address}
    (h : image.CodeAt place a (⟨op, .label name address :: args⟩ :: rest)) (hj : op.isJump)
    (hb : argBytes args = .ok bytes) :
    image.Holds a (op.code :: (intBytes 2 (place name) ++ bytes)) := by
  have := h.1.2.1
  rwa [encoded_jump place hj rfl hb] at this

end Image.CodeAt

/-- The machine is running at an address of a program and waits for nothing. -/
structure State.At (image : Image) (a : Nat) (m : State) : Prop where
  image : m.image = image
  pc : m.pc.toNat = a
  idle : m.waiting = .nothing
  running : m.status = .running

namespace State

lemma advance_advance (m : State) (j k : Nat) : (m.advance j).advance k = m.advance (j + k) := by
  simp [advance, UInt16.add_assoc, UInt16.ofNat_add]

namespace At

variable {image : Image} {place : String → Int} {a : Nat} {rest : List Instr} {m : State}
  {sensors : Sensors} (hm : At image a m)

include hm

lemma advance {k : Nat} (h : a + k ≤ image.codeSize.toNat) : At image (a + k) (m.advance k) := by
  have hlt : image.codeSize.toNat < 65536 := image.codeSize.toNat_lt
  have hpc := hm.pc
  exact ⟨hm.image, by rw [toNat_advance_pc (by omega), hpc], hm.idle, hm.running⟩

variable {op : Opcode} {i h b : Nat} {f : UInt32 → UInt32 → UInt32} {name : String}

/-- The machine does the operation whose byte stands at the program counter, and the operands
stand behind it. -/
lemma perform {bytes} (h : image.Holds a (op.code :: bytes)) (sensors : Sensors) :
    m.step sensors = perform sensors op (m.advance 1) ∧
      (m.advance 1).image.Holds (m.advance 1).pc.toNat bytes := by
  have hsplit : image.Holds a [op.code] ∧ image.Holds (a + 1) bytes := by
    rw [← List.singleton_append] at h
    exact holds_append.1 h
  have hnext := hm.advance (show a + 1 ≤ image.codeSize.toNat from hsplit.1.1)
  have hhere : m.image.Holds m.pc.toNat (op.code :: bytes) := by rwa [hm.image, hm.pc]
  refine ⟨step_eq_perform sensors hm.idle hhere, ?_⟩
  rw [hnext.image, hnext.pc]
  exact hsplit.2

/-! ## Steps by instruction -/

variable (sensors : Sensors)

lemma step_operand {g} {n : Int} {k : Nat} {bytes}
    (hop : Exec.perform sensors op = Exec.quietly (Exec.fetch k >>= g))
    (hc : image.Holds a (op.code :: (intBytes k n ++ bytes))) :
    (m.step sensors).2 = (g (Image.lowBytes k n) (m.advance (k + 1))).2 := by
  rcases hm.perform hc sensors with ⟨hstep, hargs⟩
  rw [hstep, hop, quietly_apply, bind_apply, fetch_eq hargs, advance_advance, add_comm]

lemma step_immi {n : Int} (hc : image.CodeAt place a (⟨.immi, [.u32 (.ofInt n)]⟩ :: rest))
    (ht : m.top.toNat ≤ stackSize) :
    (m.step sensors).2 = (m.advance 5).pushed (Image.lowBytes 4 n).toUInt32 := by
  rw [hm.step_operand sensors rfl (hc.holds_plain (by decide) rfl (argBytes_u32 n))]
  dsimp only [Operates.push]
  rw [push_eq (m := m.advance 5) _ ht]

lemma step_loadl (hc : image.CodeAt place a (⟨.loadl, [.u8 (.ofInt i)]⟩ :: rest))
    (hi : i < m.locals.toNat) (ht : m.top.toNat ≤ stackSize) :
    (m.step sensors).2 = (m.advance 2).pushed ((m.stack[m.frame.toNat + 3 + i]?).getD 0) := by
  rw [hm.step_operand sensors rfl (hc.holds_plain (by decide) rfl (argBytes_u8 i)),
    lowBytes_one_of_lt (lt_trans hi m.locals.toNat_lt), bind_apply]
  dsimp only [Operates.readLocal, Operates.push]
  rw [readLocal_eq (m := m.advance 2) hi, push_eq (m := m.advance 2) _ ht]
  rfl

lemma step_loadg {w : UInt32} (hc : image.CodeAt place a (⟨.loadg, [.u16 (.ofInt i)]⟩ :: rest))
    (hi : i < 65536) (hw : m.globals[i]? = some w) (ht : m.top.toNat ≤ stackSize) :
    (m.step sensors).2 = (m.advance 3).pushed w := by
  rw [hm.step_operand sensors rfl (hc.holds_plain (by decide) rfl (argBytes_u16 i)),
    lowBytes_two_of_lt hi, bind_apply]
  dsimp only [Operates.readGlobal, Operates.push]
  rw [readGlobal_eq (m := m.advance 3) hw, push_eq (m := m.advance 3) _ ht]

lemma step_pop (hc : image.CodeAt place a (.plain .pop :: rest)) (ht : m.top.toNat = h + 1) :
    (m.step sensors).2 = (m.advance 1).popped := by
  rcases hm.perform (hc.holds_plain (by decide) rfl rfl) sensors with ⟨hstep, _⟩
  have hpop : Exec.pop (m.advance 1) = _ := pop_eq ht
  rw [hstep]
  dsimp only [Exec.perform, Operates.perform, Operates.pop]
  rw [quietly_apply, discard_apply, hpop]

lemma step_storl (hc : image.CodeAt place a (⟨.storl, [.u8 (.ofInt i)]⟩ :: rest))
    (hi : i < m.locals.toNat) (ht : m.top.toNat = h + 1) (hf : h + 1 ≠ m.frame.toNat + 3) :
    (m.step sensors).2 = (m.advance 2).popped.stored i ((m.stack[h]?).getD 0) := by
  rw [hm.step_operand sensors rfl (hc.holds_plain (by decide) rfl (argBytes_u8 i)),
    lowBytes_one_of_lt (lt_trans hi m.locals.toNat_lt), bind_apply]
  dsimp only [Operates.popOperand, Operates.writeLocal]
  rw [popOperand_eq (m := m.advance 2) ht hf, writeLocal_eq (m := (m.advance 2).popped) hi]
  rfl

lemma step_storg (hc : image.CodeAt place a (⟨.storg, [.u16 (.ofInt i)]⟩ :: rest))
    (hlt : i < 65536) (hi : i < m.globals.size) (ht : m.top.toNat = h + 1)
    (hf : h + 1 ≠ m.frame.toNat + 3) :
    (m.step sensors).2 = (m.advance 3).popped.assigned i ((m.stack[h]?).getD 0) := by
  rw [hm.step_operand sensors rfl (hc.holds_plain (by decide) rfl (argBytes_u16 i)),
    lowBytes_two_of_lt hlt, bind_apply]
  dsimp only [Operates.popOperand, Operates.writeGlobal]
  rw [popOperand_eq (m := m.advance 3) ht hf, writeGlobal_eq (m := (m.advance 3).popped) hi]
  rfl

lemma step_unary {f} (hop : Exec.perform sensors op = Exec.unary f)
    (hl : op ≠ .label) (hj : op.isJump = false) (hc : image.CodeAt place a (.plain op :: rest))
    (ht : m.top.toNat = h + 1) (hf : h + 1 ≠ m.frame.toNat + 3) (hroom : h ≤ stackSize) :
    (m.step sensors).2 = (m.advance 1).popped.pushed (f ((m.stack[h]?).getD 0)) := by
  have htop := popped_top (m := m.advance 1) ht
  rw [(hm.perform (hc.holds_plain hl hj rfl) sensors).1, hop]
  dsimp only [unary, Operates.popOperand, Operates.push]
  rw [bind_apply, popOperand_eq (m := m.advance 1) ht hf, bind_apply, push_eq _ (htop ▸ hroom)]
  rfl

/-- An operation on the two words on top of the stack. The check of both pops looks for the height
of a frame without operands. -/
lemma step_binary (hop : Exec.perform sensors op = Exec.binary f) (hl : op ≠ .label)
    (hj : op.isJump = false) (hc : image.CodeAt place a (.plain op :: rest))
    (ht : m.top.toNat = h + 2) (hf : h + 2 ≠ m.frame.toNat + 3) (hf' : h + 1 ≠ m.frame.toNat + 3)
    (hroom : h ≤ stackSize) :
    (m.step sensors).2 =
      (m.advance 1).popped.popped.pushed (f ((m.stack[h]?).getD 0) ((m.stack[h + 1]?).getD 0)) := by
  have htop : (m.advance 1).popped.top.toNat = h + 1 := popped_top ht
  rw [(hm.perform (hc.holds_plain hl hj rfl) sensors).1, hop]
  dsimp only [binary, Operates.popOperand, Operates.push]
  rw [bind_apply, popOperand_eq (m := m.advance 1) (h := h + 1) ht hf, bind_apply,
    popOperand_eq htop hf', bind_apply, push_eq _ (popped_top htop ▸ hroom)]
  rfl

/-- An operation fails where one of its words stands at the height of a frame without operands. -/
lemma step_binary_underflow (hop : Exec.perform sensors op = Exec.binary f) (hl : op ≠ .label)
    (hj : op.isJump = false) (hc : image.CodeAt place a (.plain op :: rest))
    (ht : m.top.toNat = h + 2) (hf : h + 2 = m.frame.toNat + 3 ∨ h + 1 = m.frame.toNat + 3)
    (hroom : h + 2 ≤ stackSize) : (m.step sensors).2.status = .operandUnderflow := by
  rw [(hm.perform (hc.holds_plain hl hj rfl) sensors).1, hop]
  dsimp only [binary, Operates.popOperand, Operates.push]
  rw [bind_apply, bind_apply]
  rcases hf with hf | hf
  · -- A failed pop leaves the stack, so that the second one fails too.
    have hfail : ∀ m' : State, m'.top = m.top → m'.frame = m.frame →
        popOperand m' = (0, { m' with status := .operandUnderflow }) := by
      intro m' htop hframe
      exact popOperand_underflow (by rw [htop, hframe, ht, hf])
    have hagain := hfail { m.advance 1 with status := .operandUnderflow } rfl rfl
    rw [hfail (m.advance 1) rfl rfl]
    simp only [hagain]
    rw [bind_apply, push_eq _ (by simp only [advance_top]; omega)]
    rfl
  · have htop : (m.advance 1).popped.top.toNat = h + 1 := popped_top ht
    rw [popOperand_eq (m := m.advance 1) (h := h + 1) ht (by simp only [advance_frame]; omega),
      popOperand_underflow (htop.trans hf), bind_apply,
      push_eq _ (by simp only [htop]; omega)]
    rfl

lemma step_jmp (hc : image.CodeAt place a (jumpInstr .jmp name :: rest)) (hb : place name = b)
    (hin : b < image.codeSize.toNat) : (m.step sensors).2 = m.goto b.toUInt16 := by
  rcases hm.perform (hc.holds_jump rfl rfl) sensors with ⟨hstep, hargs⟩
  rw [hb] at hargs
  rw [hstep, Exec.perform, Operates.perform,
    withAddress_eq hargs (by omega) (by rw [advance_image, hm.image]; omega)]
  simp [Operates.jump, Exec.jump, State.goto, State.advance]

lemma step_jz (hc : image.CodeAt place a (jumpInstr .jz name :: rest)) (hb : place name = b)
    (hin : b < image.codeSize.toNat) (ht : m.top.toNat = h + 1) :
    (m.step sensors).2 =
      if (m.stack[h]?).getD 0 = 0 then m.popped.goto b.toUInt16 else (m.advance 3).popped := by
  rcases hm.perform (hc.holds_jump rfl rfl) sensors with ⟨hstep, hargs⟩
  rw [hb] at hargs
  have hpop : Exec.pop ((m.advance 1).advance 2) = _ := pop_eq ht
  rw [hstep, Exec.perform, Operates.perform, jumpIf,
    withAddress_eq hargs (by omega) (by rw [advance_image, hm.image]; omega)]
  simp only [bind_apply, Operates.pop, hpop, advance_stack, Int.toNat_natCast]
  by_cases hzero : (m.stack[h]?).getD 0 = 0
  · simp [hzero, Operates.jump, jump, State.goto, State.advance, State.popped]
  · simp [hzero, advance_advance]

lemma step_halt (hc : image.CodeAt place a (.plain .halt :: rest)) :
    (m.step sensors).2 = { m.advance 1 with status := .halted } := by
  rcases hm.perform (hc.holds_plain (by decide) rfl rfl) sensors with ⟨hstep, _⟩
  rw [hstep]
  rfl

end At

/-! ## Counted steps -/

/-- The machine after a number of steps; `sensors` tells what the hardware says at each of them. -/
def after (sensors : Nat → Sensors) : Nat → State → State
  | 0, m => m
  | n + 1, m => ((m.after sensors n).step (sensors n)).2

lemma after_add (sensors : Nat → Sensors) (m : State) (i j : Nat) :
    m.after sensors (i + j) = (m.after sensors i).after (fun n => sensors (i + n)) j := by
  induction j with
  | zero => rfl
  | succ j ih =>
    show ((m.after sensors (i + j)).step (sensors (i + j))).2 = _
    rw [ih]
    rfl

end State

/-! ## Runs -/

/-- A step of a machine that runs and waits for nothing. -/
def Steps (sensors : Sensors) (m m' : State) : Prop :=
  m.waiting = .nothing ∧ m.status = .running ∧ (m.step sensors).2 = m'

def Runs (sensors : Sensors) : State → State → Prop := Relation.ReflTransGen (Steps sensors)

namespace Runs

variable {sensors : Sensors} {m m' m'' : State}

lemma refl (m : State) : Runs sensors m m := Relation.ReflTransGen.refl

lemma trans (h : Runs sensors m m') (h' : Runs sensors m' m'') : Runs sensors m m'' :=
  Relation.ReflTransGen.trans h h'

lemma step {image : Image} {a : Nat} (hm : m.At image a) (h : (m.step sensors).2 = m') :
    Runs sensors m m' :=
  single ⟨hm.idle, hm.running, h⟩

lemma runFrom_eq {hardware} (h : Runs ⟨false, hardware.angles⟩ m m')
    (hrun : m.status = .running) (hstop : m'.status ≠ .running) :
    ∃ n, ∀ limit, n ≤ limit → ∀ polls past, (runFrom hardware limit polls past m).2 = m' := by
  induction h using head_induction_on with
  | refl => exact absurd hrun hstop
  | head hstep hrest ih =>
    rename_i m c
    rcases hstep with ⟨hidle, _, hc⟩
    -- While the machine waits for nothing there are no polls, so the hardware is not settled.
    have hsettled : (decide (0 ≤ hardware.patience) &&
        decide (hardware.patience < ((0 : Nat) : Int))) = false := by
      by_cases hp : 0 ≤ hardware.patience <;> simp [hp]
    have hnext : ∀ limit polls past, (runFrom hardware (limit + 1) polls past m).2 =
        if c.status = .running then
          (runFrom hardware limit 0
            (Moment.after (m.step ⟨false, hardware.angles⟩).1 c :: past) c).2
        else c := by
      intro limit polls past
      simp only [runFrom, hidle, if_true, hsettled, hc]
      split <;> rfl
    by_cases hcrun : c.status = .running
    · rcases ih hcrun with ⟨n, hn⟩
      refine ⟨n + 1, fun limit hle polls past => ?_⟩
      obtain ⟨limit, rfl⟩ : ∃ k, limit = k + 1 := ⟨limit - 1, by omega⟩
      rw [hnext, if_pos hcrun, hn limit (by omega)]
    · -- The machine stopped at `c`, from where no step leads on.
      have hend : m' = c := by
        rcases cases_head hrest with rfl | ⟨d, ⟨_, hd, _⟩, _⟩
        · rfl
        · exact absurd hd hcrun
      refine ⟨1, fun limit hle polls past => ?_⟩
      obtain ⟨limit, rfl⟩ : ∃ k, limit = k + 1 := ⟨limit - 1, by omega⟩
      rw [hnext, if_neg hcrun, hend]

end Runs

end ArmStudio.Machine
