import ArmStudio.Proofs.Stepping

/-!
# Calls and returns

A call moves the arguments up by three words, under which it puts the frame: the return address,
the place of the frame before and the number of its locals. A return drops all of it.
-/

namespace ArmStudio.Machine

open Code Array Exec State List

namespace Exec

lemma popMany_eq {h : Nat} (n : Nat) : ∀ acc m, m.top.toNat = h + n →
    popMany n acc m = ((List.range n).map (fun i => (m.stack[h + i]?).getD 0) ++ acc,
        { m with top := h.toUInt16 }) := by
  induction n with
  | zero =>
    intro acc m ht
    have htop : m.top = h.toUInt16 := by
      rw [← UInt16.toNat_inj]
      have := m.top.toNat_lt
      simp only [add_zero] at ht
      simp [← ht]
    rw [← htop]
    simp [popMany]
  | succ n ih =>
    intro acc m ht
    rw [popMany, bind_apply, pop_eq (show m.top.toNat = h + n + 1 from ht), ih _ _ (popped_top ht)]
    simp [List.range_succ, State.popped]

lemma pushMany_eq (ws : List UInt32) : ∀ m : State, m.stack.size = stackSize + 1 →
    m.top.toNat + ws.length ≤ stackSize + 1 →
    ∃ stack top, pushMany ws m = ((), { m with stack := stack, top := top }) ∧
      top.toNat = m.top.toNat + ws.length ∧ stack.size = m.stack.size ∧
      (∀ i, i < ws.length → stack[m.top.toNat + i]? = ws[i]?) ∧
      ∀ i, i < m.top.toNat → stack[i]? = m.stack[i]? := by
  induction ws with
  | nil =>
    intro m _ _
    exact ⟨m.stack, m.top, rfl, rfl, rfl, fun i hi => absurd hi (by simp), fun i _ => rfl⟩
  | cons w rest ih =>
    intro m hsize hroom
    simp only [length_cons] at hroom
    have hbound : m.top.toNat ≤ stackSize := by omega
    have hwide : m.top.toNat + 1 < 65536 := by
      simp only [stackSize] at hbound
      omega
    have htop := toNat_pushed_top w hwide
    have hsize' : (m.pushed w).stack.size = stackSize + 1 := by simpa using hsize
    obtain ⟨stack, top, hpush, ht, hs, hnew, hold⟩ := ih (m.pushed w) hsize' (by omega)
    refine ⟨stack, top, ?_, ?_, ?_, ?_, ?_⟩
    · rw [pushMany, bind_apply, push_eq w hbound, hpush]
      rfl
    · rw [ht, htop, length_cons]
      omega
    · rw [hs, hsize', hsize]
    · intro i hi
      cases i with
      | zero =>
        have hin : m.top.toNat < m.stack.size := by omega
        rw [add_zero, hold _ (by omega)]
        simp [hin]
      | succ i =>
        have := hnew i (by simpa using hi)
        rw [htop] at this
        rw [getElem?_cons_succ, ← this]
        congr 1
        omega
    · intro i hi
      rw [hold i (by omega), pushed_stack, getElem?_setIfInBounds_ne (by omega)]

end Exec

/-! ## Frames -/

namespace State

variable (m : State) (back : UInt16)

/-- A frame is put on top of the stack. Its place keeps the low eight bits. -/
def framed : State := { m with
    stack := ((m.stack.setIfInBounds m.top.toNat back.toUInt32).setIfInBounds (m.top.toNat + 1)
      m.frame.toUInt32).setIfInBounds (m.top.toNat + 2) m.locals.toUInt32
    top := m.top + 3
    frame := m.top.toUInt8 }

lemma framed_stack : (m.framed back).stack =
    ((m.stack.setIfInBounds m.top.toNat back.toUInt32).setIfInBounds (m.top.toNat + 1)
      m.frame.toUInt32).setIfInBounds (m.top.toNat + 2) m.locals.toUInt32 := by
  simp only [framed]

lemma framed_words (hin : m.top.toNat + 2 < m.stack.size) :
    (m.framed back).stack[m.top.toNat]? = some back.toUInt32 ∧
      (m.framed back).stack[m.top.toNat + 1]? = some m.frame.toUInt32 ∧
      (m.framed back).stack[m.top.toNat + 2]? = some m.locals.toUInt32 := by
  rw [framed_stack]
  refine ⟨?_, ?_, ?_⟩
  · rw [getElem?_setIfInBounds_ne (by omega), getElem?_setIfInBounds_ne (by omega),
      getElem?_setIfInBounds_self_of_lt (by omega)]
  · rw [getElem?_setIfInBounds_ne (by omega),
      getElem?_setIfInBounds_self_of_lt (by simp only [size_setIfInBounds]; omega)]
  · exact getElem?_setIfInBounds_self_of_lt
      (by simp only [size_setIfInBounds]; omega)

variable {m : State} {back : UInt16}

lemma framed_stack_of_ne {i : Nat} (hi : i < m.top.toNat ∨ m.top.toNat + 2 < i) :
    (m.framed back).stack[i]? = m.stack[i]? := by
  rw [framed_stack, getElem?_setIfInBounds_ne (by omega),
    getElem?_setIfInBounds_ne (by omega), getElem?_setIfInBounds_ne (by omega)]

section

variable (m : State) (back : UInt16)

@[simp] lemma framed_image : (m.framed back).image = m.image := by simp only [framed]
@[simp] lemma framed_waiting : (m.framed back).waiting = m.waiting := by simp only [framed]
@[simp] lemma framed_status : (m.framed back).status = m.status := by simp only [framed]
@[simp] lemma framed_frame : (m.framed back).frame = m.top.toUInt8 := by simp only [framed]

end

lemma toNat_framed_top (back : UInt16) (h : m.top.toNat + 2 ≤ stackSize) :
    (m.framed back).top.toNat = m.top.toNat + 3 := by
  have hbig : stackSize = 1024 := rfl
  show (m.top + 3).toNat = _
  rw [UInt16.toNat_add]
  exact Nat.mod_eq_of_lt (by simp; omega)

/-- The frame is dropped, and the machine is back behind the call. -/
def returned (m : State) (back : UInt16) (frame locals : UInt8) : State :=
  { m with locals := locals, pc := back, top := m.frame.toUInt16, frame := frame }

/-- The frame is dropped, whatever its words are. -/
def unframed (m : State) : State := m.returned ((m.stack[m.frame.toNat]?).getD 0).toUInt16
    ((m.stack[m.frame.toNat + 1]?).getD 0).toUInt8 ((m.stack[m.frame.toNat + 2]?).getD 0).toUInt8

lemma unframed_eq {frame locals : UInt8} (hback : m.stack[m.frame.toNat]? = some back.toUInt32)
    (hframe : m.stack[m.frame.toNat + 1]? = some frame.toUInt32)
    (hlocs : m.stack[m.frame.toNat + 2]? = some locals.toUInt32) :
    m.unframed = m.returned back frame locals := by
  simp [unframed, hback, hframe, hlocs]

/-- The locals of a new frame get their room. -/
def entered (m : State) (count : Nat) : State :=
  { m with locals := count.toUInt8, top := m.frame.toUInt16 + 3 + count.toUInt16 }

end State

/-- The words of a frame are pushed where the arguments were, and the arguments above them. -/
theorem pushFrame_eq {h n : Nat} (back : UInt16) {m : State} (ht : m.top.toNat = h + n)
    (hroom : h + 2 ≤ stackSize) :
    pushFrame back n m = pushMany ((List.range n).map fun i => (m.stack[h + i]?).getD 0)
        (({ m with top := h.toUInt16 } : State).framed back) := by
  have hbig : stackSize = 1024 := rfl
  let m0 : State := { m with top := h.toUInt16 }
  have ht0 : m0.top.toNat = h := by
    show h.toUInt16.toNat = h
    simp
    omega
  have ht1 : (m0.pushed back.toUInt32).top.toNat = m0.top.toNat + 1 := toNat_pushed_top _ (by omega)
  let m2 := (m0.pushed back.toUInt32).pushed m.frame.toUInt32
  have ht2 : m2.top.toNat = m0.top.toNat + 2 := by
    show ((m0.pushed back.toUInt32).pushed m.frame.toUInt32).top.toNat = _
    rw [toNat_pushed_top _ (by omega), ht1]
  have htop2 : m2.top - 2 = m0.top := by
    show m0.top + 1 + 1 - 2 = m0.top
    rw [UInt16.add_assoc]
    exact UInt16.add_sub_cancel _ _
  let m3 : State := { m2 with frame := (m2.top - 2).toUInt8 }
  have hframed : m3.pushed m.locals.toUInt32 = m0.framed back := by
    have hstack : m2.stack = (m.stack.setIfInBounds m0.top.toNat back.toUInt32).setIfInBounds
        (m0.top.toNat + 1) m.frame.toUInt32 := by
      show (m.stack.setIfInBounds _ _).setIfInBounds (m0.pushed back.toUInt32).top.toNat _ = _
      rw [ht1]
    have htop : m2.top + 1 = m0.top + 3 := by
      show m0.top + 1 + 1 + 1 = m0.top + 3
      simp [UInt16.add_assoc]
    simp only [State.pushed, m3, hstack, ht2, htop, htop2, State.framed]
    rfl
  have hlast : push m.locals.toUInt32 m3 = ((), m0.framed back) :=
    hframed ▸ push_eq _ (show m2.top.toNat ≤ stackSize by omega)
  have hroom0 : m0.top.toNat ≤ stackSize := by omega
  have hroom1 : (m0.pushed back.toUInt32).top.toNat ≤ stackSize := by omega
  rw [pushFrame, bind_apply, popMany_eq n [] m ht, append_nil]
  rw [bind_apply, push_eq _ hroom0, bind_apply, get_apply, bind_apply,
    push_eq _ hroom1, bind_apply, modify_apply, bind_apply, get_apply,
    bind_apply]
  exact congrArg (fun r => pushMany _ r.2) hlast

/-! ## Calls -/

/-- What a call leaves of a machine whose stack has height `h` under the `n` arguments. -/
structure Called (h n : Nat) (back : UInt16) (m m' : State) : Prop where
  image : m'.image = m.image
  waiting : m'.waiting = m.waiting
  status : m'.status = m.status
  globals : m'.globals = m.globals
  size : m'.stack.size = m.stack.size
  top : m'.top.toNat = h + 3 + n
  frame : m'.frame.toNat = h
  back : m'.stack[h]? = some back.toUInt32
  outerFrame : m'.stack[h + 1]? = some m.frame.toUInt32
  outerLocals : m'.stack[h + 2]? = some m.locals.toUInt32
  args : ∀ i, i < n → m'.stack[h + 3 + i]? = some ((m.stack[h + i]?).getD 0)
  below : ∀ i, i < h → m'.stack[i]? = m.stack[i]?

lemma pushFrame_called {h n : Nat} (back : UInt16) {m : State} (ht : m.top.toNat = h + n)
    (hh : h ≤ 255) (hn : n ≤ 255) (hsize : m.stack.size = stackSize + 1) :
    Called h n back m (pushFrame back n m).2 := by
  have hbig : stackSize = 1024 := rfl
  let m0 : State := { m with top := h.toUInt16 }
  have ht0 : m0.top.toNat = h := by
    show h.toUInt16.toNat = h
    simp
    omega
  have ht3 : (m0.framed back).top.toNat = h + 3 := by rw [toNat_framed_top back (by omega), ht0]
  have hsize3 : (m0.framed back).stack.size = stackSize + 1 := by simp [framed_stack, m0, hsize]
  let args := (List.range n).map fun i => (m.stack[h + i]?).getD 0
  obtain ⟨stack, top, hpush, htop, hs, hnew, hold⟩ :=
    pushMany_eq args (m0.framed back) hsize3 (by rw [ht3]; simp [args]; omega)
  obtain ⟨hback, hframe, hlocs⟩ := m0.framed_words back
    (show m0.top.toNat + 2 < m.stack.size by omega)
  rw [ht0] at hback hframe hlocs
  rw [ht3] at htop hnew hold
  rw [pushFrame_eq back ht (by omega), hpush]
  refine ⟨rfl, rfl, rfl, rfl, hs.trans (hsize3.trans hsize.symm), ?_, ?_,
    (hold h (by omega)).trans hback,
    (hold _ (by omega)).trans hframe, (hold _ (by omega)).trans hlocs, ?_, ?_⟩
  · show top.toNat = h + 3 + n
    rw [htop]
    simp [args]
  · show m0.top.toUInt8.toNat = h
    rw [UInt16.toNat_toUInt8, ht0]
    exact Nat.mod_eq_of_lt (by omega)
  · intro i hi
    show stack[h + 3 + i]? = _
    rw [hnew i (by simpa [args] using hi)]
    simp [args, hi]
  · intro i hi
    exact (hold i (by omega)).trans (framed_stack_of_ne (by omega))

namespace State.At

variable {image : Image} {place : String → Int} {a n b h : Nat} {rest : List Instr} {m : State}
  (sensors : Sensors) (hm : At image a m)

include hm

lemma step_pushFrame (hc : image.Holds a (Opcode.call.code :: (intBytes 2 b ++ intBytes 1 n)))
    (hb : b < image.codeSize.toNat) (hn : n ≤ 255) :
    (m.step sensors).2 = (pushFrame (a + 4).toUInt16 n (m.advance 4)).2.goto b.toUInt16 := by
  rcases hm.perform hc sensors with ⟨hstep, hargs⟩
  have hend := hc.1
  simp only [length_cons, length_append, length_intBytes] at hend
  have hm1 := hm.advance (show a + 1 ≤ image.codeSize.toNat by omega)
  have hm3 := hm1.advance (show a + 1 + 2 ≤ image.codeSize.toNat by omega)
  have hcount : ((m.advance 1).advance 2).image.Holds ((m.advance 1).advance 2).pc.toNat
      (intBytes 1 n ++ []) := by
    have := (Image.holds_append.1 hargs).2
    rw [length_intBytes, hm1.pc, ← hm3.pc] at this
    simpa using this
  have hfetch := fetch_eq hcount
  rw [Image.lowBytes_one_of_lt (Nat.lt_succ_of_le hn), advance_advance, advance_advance] at hfetch
  have hback : (m.advance 4).pc = (a + 4).toUInt16 := by
    have hpc := hm.pc
    simp [State.advance, ← hpc]
  rw [hstep, Exec.perform, Operates.perform,
    withAddress_eq hargs (by omega) (by rw [advance_image, hm.image]; omega)]
  simp only [Operates.callTo, Operates.fetch, Operates.registers, advance_advance, bind_apply,
    hfetch, get_apply, State.registers, hback]
  rfl

lemma step_call (hc : image.Holds a (Opcode.call.code :: (intBytes 2 b ++ intBytes 1 n)))
    (hb : b < image.codeSize.toNat) (hn : n ≤ 255) (ht : m.top.toNat = h + n) (hh : h ≤ 255)
    (hsize : m.stack.size = stackSize + 1) :
    (m.step sensors).2.At image b ∧ Called h n (a + 4).toUInt16 m (m.step sensors).2 := by
  have hc1 := pushFrame_called (m := m.advance 4) (a + 4).toUInt16 ht hh hn hsize
  have hlt : b < 65536 := lt_trans hb image.codeSize.toNat_lt
  rw [hm.step_pushFrame sensors hc hb hn]
  generalize (pushFrame (a + 4).toUInt16 n (m.advance 4)).2 = m1 at hc1 ⊢
  exact ⟨⟨hc1.image.trans hm.image, by simp [Nat.mod_eq_of_lt hlt], hc1.waiting.trans hm.idle,
    hc1.status.trans hm.running⟩, ⟨hc1.image, hc1.waiting, hc1.status, hc1.globals, hc1.size,
    hc1.top, hc1.frame, hc1.back, hc1.outerFrame, hc1.outerLocals, hc1.args, hc1.below⟩⟩

lemma step_enter (hc : image.Holds a (Opcode.enter.code :: (intBytes 1 n ++ []))) (hn : n ≤ 255) :
    (m.step sensors).2 = (m.advance 2).entered n := by
  rw [hm.step_operand sensors rfl hc, Image.lowBytes_one_of_lt (Nat.lt_succ_of_le hn)]
  rfl

lemma step_ret0 (hc : image.Holds a [Opcode.ret0.code]) : (m.step sensors).2 = m.unframed := by
  rcases hm.perform hc sensors with ⟨hstep, _⟩
  rw [hstep, Exec.perform, Operates.perform, quietly_apply]
  rfl

lemma step_ret (hc : image.Holds a [Opcode.ret.code]) (ht : m.top.toNat = h + 1)
    (hf : h + 1 ≠ m.frame.toNat + 3) :
    (m.step sensors).2 = m.unframed.pushed ((m.stack[h]?).getD 0) := by
  rcases hm.perform hc sensors with ⟨hstep, _⟩
  have hpop : popOperand (m.advance 1) = _ := popOperand_eq ht hf
  have htop : (m.advance 1).popped.unframed.top.toNat ≤ stackSize := by
    have := m.frame.toNat_lt
    show m.frame.toUInt16.toNat ≤ 1024
    rw [UInt8.toNat_toUInt16]
    omega
  have hpush : Exec.push ((m.stack[h]?).getD 0) (m.advance 1).popped.unframed = _ := push_eq _ htop
  rw [hstep]
  dsimp only [Exec.perform, Operates.perform, Operates.popOperand]
  rw [quietly_apply, bind_apply, hpop]
  exact congrArg Prod.snd hpush

end State.At

end ArmStudio.Machine
