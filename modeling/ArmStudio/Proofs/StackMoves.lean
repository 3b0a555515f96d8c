import ArmStudio.Proofs.Stepping

/-!
# How operations move the top of the stack

Operations that neither jump nor change the frame take and leave a fixed number of words, wherever
they succeed.
-/

namespace ArmStudio

open Code Motion

namespace Code.Opcode

/-- Operations that go on behind themselves, in the same frame. -/
def isStraight : Opcode → Bool
  | halt | jmp | jz | jnz | call | enter | ret | ret0 | label => false
  | _ => true

/-- The words that a straight operation leaves less those that it takes. -/
def balance : Opcode → Int
  | loadk | loadg | loadl | immi | immf => 1
  | nop | ineg | fneg | lnot | i2f | f2i | readj | rst | wait | gripperOpen | gripperClose => 0
  | movj | setj | setjspd => -2
  | movoc | setoc | oledi => -4
  | movjc | setjc => -6
  | _ => -1

def operandBytes : Opcode → Nat
  | loadl | storl => 1
  | loadk | loadg | storg => 2
  | immi | immf => 4
  | _ => 0

end Code.Opcode

namespace Machine

/-- From `m` to `m'` the top of the stack has moved by `d` and the program counter by `k`, in the
same frame. -/
structure Moved (d : Int) (k : Nat) (m m' : State) : Prop where
  running : m.status = .running
  image : m'.image = m.image
  frame : m'.frame = m.frame
  locals : m'.locals = m.locals
  pc : m'.pc.toNat = m.pc.toNat + k
  top : (m'.top.toNat : Int) = m.top.toNat + d

lemma Moved.trans {d d' : Int} {k k' : Nat} {m m1 m2 : State} (h : Moved d k m m1)
    (h' : Moved d' k' m1 m2) : Moved (d + d') (k + k') m m2 := by
  have hpc := h.pc
  have hpc' := h'.pc
  have htop := h.top
  have htop' := h'.top
  exact ⟨h.running, h'.image.trans h.image, h'.frame.trans h.frame, h'.locals.trans h.locals,
    by omega, by omega⟩

namespace Exec

variable {α β : Type} {d d' : Int} {k k' : Nat} {e : Exec α}

/-- Wherever the part of an operation succeeds, it moves the top of the stack by `d` and the program
counter by `k`. -/
def Moves (e : Exec α) (d : Int) (k : Nat) : Prop :=
  ∀ m, (e m).2.status = .running → Moved d k m (e m).2

/-! ## Parts of operations -/

lemma Moves.modify {f} (hstatus : ∀ m, (f m).status = m.status)
    (himage : ∀ m, (f m).image = m.image) (hframe : ∀ m, (f m).frame = m.frame)
    (hlocs : ∀ m, (f m).locals = m.locals) (hpc : ∀ m, (f m).pc = m.pc)
    (htop : ∀ m, (f m).top = m.top) : Moves (modify f) 0 0 := by
  intro m hrun
  rw [modify_apply] at hrun ⊢
  exact ⟨(hstatus m).symm.trans hrun, himage m, hframe m, hlocs m, by simp [hpc], by simp [htop]⟩

lemma Moves.pure (a : α) : Moves (pure a : Exec α) 0 0 := by
  intro m hrun
  exact ⟨hrun, rfl, rfl, rfl, rfl, by simp⟩

lemma Moves.bind {f : α → Exec β} (he : Moves e d k) (hf : ∀ a, Moves (f a) d' k') :
    Moves (e >>= f) (d + d') (k + k') := by
  intro m hrun
  rw [bind_apply] at hrun ⊢
  have hsnd := hf (e m).1 (e m).2 hrun
  exact (he m hsnd.running).trans hsnd

lemma Moves.quietly {e} (he : Moves e d k) : Moves (quietly e) d k := by
  intro m hrun
  exact he m hrun

lemma Moves.discard (he : Moves e d k) : Moves (discard e : Exec PUnit) d k := by
  intro m hrun
  exact he m hrun

lemma moves_fetch (count : Nat) : Moves (fetch count) 0 count := by
  intro m hrun
  by_cases hin : m.image.codeSize.toNat < m.pc.toNat + count
  · simp [fetch, hin, fail] at hrun
  · have hlt : m.image.codeSize.toNat < 65536 := m.image.codeSize.toNat_lt
    have hafter : (fetch count m).2 = m.advance count := by simp [fetch, hin, State.advance]
    rw [hafter] at hrun ⊢
    exact ⟨hrun, rfl, rfl, rfl, State.toNat_advance_pc (by omega), by simp⟩

lemma moves_push (w : UInt32) : Moves (push w) 1 0 := by
  intro m hrun
  by_cases hroom : stackSize < m.top.toNat
  · simp [push, hroom, fail] at hrun
  · have hle : m.top.toNat ≤ 1024 := not_lt.1 hroom
    rw [push_eq w hle] at hrun ⊢
    exact ⟨hrun, rfl, rfl, rfl, rfl, by rw [State.toNat_pushed_top w (by omega)]; omega⟩

lemma moves_pop : Moves pop (-1) 0 := by
  intro m hrun
  by_cases htop : m.top = 0
  · simp [pop, htop, fail] at hrun
  · obtain ⟨h, ht⟩ := State.exists_top htop
    rw [pop_eq ht] at hrun ⊢
    exact ⟨hrun, rfl, rfl, rfl, rfl, by rw [State.popped_top ht, ht]; omega⟩

lemma moves_popOperand : Moves popOperand (-1) 0 := by
  intro m hrun
  by_cases hempty : m.top.toNat = m.frame.toNat + 3
  · simp [popOperand, hempty, fail] at hrun
  · have hsame : popOperand m = pop m := by
      simp [popOperand, hempty]
    rw [hsame] at hrun ⊢
    exact moves_pop m hrun

variable (i : Nat)

lemma moves_readConstant : Moves (readConstant i) 0 0 := by
  intro m hrun
  by_cases hi : i < m.image.constantCount
  · have hsame : (readConstant i m).2 = m := by
      simp [readConstant, hi]
    rw [hsame] at hrun ⊢
    exact Moves.pure () m hrun
  · simp [readConstant, hi, fail] at hrun

lemma moves_readGlobal : Moves (readGlobal i) 0 0 := by
  intro m hrun
  cases hi : m.globals[i]? with
  | none => simp [readGlobal, hi, fail] at hrun
  | some w =>
    rw [readGlobal_eq hi] at hrun ⊢
    exact Moves.pure () m hrun

lemma moves_readLocal : Moves (readLocal i) 0 0 := by
  intro m hrun
  by_cases hi : i < m.locals.toNat
  · rw [readLocal_eq hi] at hrun ⊢
    exact Moves.pure () m hrun
  · simp [readLocal, hi, fail] at hrun

lemma moves_writeGlobal (w : UInt32) : Moves (writeGlobal i w) 0 0 := by
  intro m hrun
  by_cases hi : i < m.globals.size
  · rw [writeGlobal_eq hi] at hrun ⊢
    exact ⟨hrun, rfl, rfl, rfl, rfl, by simp [State.assigned]⟩
  · simp [writeGlobal, hi, fail] at hrun

lemma moves_writeLocal (w : UInt32) : Moves (writeLocal i w) 0 0 := by
  intro m hrun
  by_cases hi : i < m.locals.toNat
  · rw [writeLocal_eq hi] at hrun ⊢
    exact ⟨hrun, rfl, rfl, rfl, rfl, by simp [State.stored]⟩
  · simp [writeLocal, hi, fail] at hrun

lemma moves_wait (w : Waiting) : Moves (wait w) 0 0 :=
  Moves.modify (fun _ => rfl) (fun _ => rfl) (fun _ => rfl) (fun _ => rfl) (fun _ => rfl)
    fun _ => rfl

lemma moves_waitJoint (id : UInt32) : Moves (waitJoint id) 0 0 :=
  Moves.modify (fun _ => rfl) (fun _ => rfl) (fun _ => rfl) (fun _ => rfl) (fun _ => rfl)
    fun _ => rfl

/-! ## Operations -/

lemma Moves.of_eq (he : Moves e d k) (hd : d = d') (hk : k = k') : Moves e d' k' := by
  subst hd hk
  exact he

lemma moves_unary (f : UInt32 → UInt32) : Moves (unary f) 0 0 :=
  (moves_popOperand.bind fun _ => (moves_push _).bind fun _ => .pure _).of_eq rfl rfl

lemma moves_binary (f : UInt32 → UInt32 → UInt32) : Moves (binary f) (-1) 0 :=
  (moves_popOperand.bind fun _ => moves_popOperand.bind fun _ => (moves_push _).bind fun _ =>
    .pure _).of_eq rfl rfl

lemma moves_popJoint : Moves popJoint (-2) 0 :=
  (moves_popOperand.bind fun _ => moves_popOperand.bind fun _ => .pure _).of_eq rfl rfl

variable (andWait : Bool)

lemma moves_waitIf (actions : List Action) : Moves (do
      if andWait then wait .allJoints
      return actions) 0 0 := by
  cases andWait with
  | false => exact .pure _
  | true => exact (moves_wait _).bind fun _ => .pure _

lemma moves_movePose : Moves (movePose andWait) (-4) 0 := by
  apply Moves.of_eq (d := -1 + (-1 + (-1 + (-1 + 0)))) (k := 0 + (0 + (0 + (0 + 0)))) _ rfl rfl
  refine moves_popOperand.bind fun tilt => moves_popOperand.bind fun z =>
    moves_popOperand.bind fun y => moves_popOperand.bind fun x => ?_
  -- A pose that cannot be reached moves nothing.
  split
  · exact moves_waitIf andWait _
  · exact .pure _

lemma moves_moveJoints : Moves (moveJoints andWait) (-6) 0 :=
  (moves_popOperand.bind fun _ => moves_popOperand.bind fun _ => moves_popOperand.bind fun _ =>
    moves_popOperand.bind fun _ => moves_popOperand.bind fun _ => moves_popOperand.bind fun _ =>
      moves_waitIf andWait _).of_eq rfl rfl

lemma moves_showNumber : Moves showNumber (-4) 0 :=
  (moves_popOperand.bind fun _ => moves_popOperand.bind fun _ => moves_popOperand.bind fun _ =>
    moves_popOperand.bind fun _ => .pure _).of_eq rfl rfl

lemma moves_perform (sensors : Sensors) {op : Opcode} (h : op.isStraight) :
    Moves (perform sensors op) op.balance op.operandBytes := by
  cases op with
  | halt | jmp | jz | jnz | call | enter | ret | ret0 | label => cases h
  | nop | rst | gripperOpen | gripperClose => exact .pure _
  | ineg | fneg | lnot | i2f | f2i => exact moves_unary _
  | loadk =>
    exact (((moves_fetch 2).bind fun i => (moves_readConstant i).bind moves_push).quietly).of_eq
      rfl rfl
  | loadg =>
    exact (((moves_fetch 2).bind fun i => (moves_readGlobal i).bind moves_push).quietly).of_eq
      rfl rfl
  | loadl =>
    exact (((moves_fetch 1).bind fun i => (moves_readLocal i).bind moves_push).quietly).of_eq
      rfl rfl
  | immi | immf =>
    exact (((moves_fetch 4).bind fun n => moves_push n.toUInt32).quietly).of_eq rfl rfl
  | pop => exact moves_pop.discard.quietly
  | storl =>
    exact (((moves_fetch 1).bind fun i =>
      moves_popOperand.bind (moves_writeLocal i)).quietly).of_eq rfl rfl
  | storg =>
    exact (((moves_fetch 2).bind fun i =>
      moves_popOperand.bind (moves_writeGlobal i)).quietly).of_eq rfl rfl
  | delay =>
    exact (moves_popOperand.bind fun _ => (moves_wait _).bind fun _ => .pure _).of_eq rfl rfl
  | wait => exact (moves_wait _).quietly
  | waitj => exact ((moves_popOperand.bind moves_waitJoint).quietly).of_eq rfl rfl
  | movj =>
    exact (moves_popJoint.bind fun r => (moves_waitJoint r.1).bind fun _ => .pure _).of_eq rfl rfl
  | setj | setjspd => exact (moves_popJoint.bind fun _ => .pure _).of_eq rfl rfl
  | readj => exact ((moves_popOperand.bind fun _ => moves_push _).quietly).of_eq rfl rfl
  | movoc | setoc => exact moves_movePose _
  | movjc | setjc => exact moves_moveJoints _
  | oledi => exact moves_showNumber
  | print => exact moves_popOperand.discard.quietly
  | _ => exact moves_binary _

end Exec

end Machine

end ArmStudio
