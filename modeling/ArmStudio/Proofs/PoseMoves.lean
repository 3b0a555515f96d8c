import ArmStudio.Proofs.Stepping

/-!
# Moves to a pose

Two operations move the arm to a pose that is given by four operands. Angles for it are looked for
among four candidates, and only angles that passed every test go to the motors.
-/

namespace ArmStudio.Motion

open Number

/-- The angles are within the limits of their joints, give the pose up to the tolerances, and leave
the arm clear of its base and of itself. -/
structure Angles.Admissible (p : Pose) (a : Angles) : Prop where
  turn : (-pi).le a.turn ∧ a.turn.le pi
  first : (0.5 * pi).le a.first ∧ a.first.le (1.5 * pi)
  second : (0.2 * pi).le a.second ∧ a.second.le (1.6 * pi)
  third : (0.6 * pi).le a.third ∧ a.third.le (1.4 * pi)
  x : ¬ lengthTolerance.lt (a.pose.x - p.x).abs
  y : ¬ lengthTolerance.lt (a.pose.y - p.y).abs
  z : ¬ lengthTolerance.lt (a.pose.z - p.z).abs
  tilt : ¬ tiltTolerance.lt (a.pose.tilt - p.tilt).abs
  clear : a.isClear

variable {p : Pose} {a : Angles}

lemma examine_eq_ok (h : examine p a = .ok) : a.inLimits ∧ a.pose.agrees p ∧ a.isClear := by
  cases hlimits : a.inLimits with
  | false => simp [examine, hlimits] at h
  | true =>
    cases hagrees : a.pose.agrees p with
    | false => simp [examine, hlimits, hagrees] at h
    | true =>
      cases hclear : a.isClear with
      | false => simp [examine, hlimits, hagrees, hclear] at h
      | true => exact ⟨rfl, rfl, rfl⟩

lemma admissible_of_examine (h : examine p a = .ok) : a.Admissible p := by
  obtain ⟨hlimits, hagrees, hclear⟩ := examine_eq_ok h
  simp only [Angles.inLimits, within, Bool.and_eq_true] at hlimits
  simp only [Pose.agrees, Bool.and_eq_true, Bool.not_eq_true'] at hagrees
  obtain ⟨⟨⟨hturn, hfirst⟩, hsnd⟩, hthird⟩ := hlimits
  obtain ⟨⟨⟨hx, hy⟩, hz⟩, htilt⟩ := hagrees
  exact ⟨hturn, hfirst, hsnd, hthird, by simp [hx], by simp [hy], by simp [hz], by simp [htilt],
    hclear⟩

lemma examine_of_tryAll {turn : Single} (candidates : List (Single × Single × Single))
    (last : Reach × Angles) (hlast : last.1 ≠ .ok) (h : tryAll p turn last candidates = (.ok, a)) :
    examine p a = .ok := by
  induction candidates generalizing last with
  | nil => exact absurd (congrArg Prod.fst h) hlast
  | cons candidate rest ih =>
    unfold tryAll at h
    dsimp only at h
    split at h
    · next hok =>
        obtain rfl := congrArg Prod.snd h
        exact hok
    · next hno =>
        refine ih _ ?_ h
        simpa only using hno

lemma reach_admissible (h : reach p = (.ok, a)) : a.Admissible p := by
  apply admissible_of_examine
  unfold reach at h
  dsimp only at h
  split at h
  · cases h
  · split at h
    · cases h
    · exact examine_of_tryAll _ _ (by simp) h

end ArmStudio.Motion

namespace ArmStudio.Machine

open Number Motion Code

/-! ## Operands -/

namespace State

variable (m : State)

/-- How often an operand can be popped. Below the current frame only the end of the stack counts. -/
def room : Nat :=
  if m.frame.toNat + 3 ≤ m.top.toNat then m.top.toNat - (m.frame.toNat + 3) else m.top.toNat

/-- The operand that is popped behind `i` others: a word of the stack, or zero where there is none
left. -/
def operand (i : Nat) : UInt32 :=
  if i < m.room then (m.stack[m.top.toNat - 1 - i]?).getD 0 else 0

/-- The pose that four operands give; its tilt is popped first and is in degrees. -/
def target : Pose :=
  ⟨⟨m.operand 3⟩, ⟨m.operand 2⟩, ⟨m.operand 1⟩, toRadians ⟨m.operand 0⟩⟩

end State

namespace Exec

lemma popOperand_operand (m : State) :
    (popOperand m).1 = m.operand 0 ∧ (∀ i, (popOperand m).2.operand i = m.operand (i + 1)) ∧
      (popOperand m).2.waiting = m.waiting := by
  by_cases hframe : m.top.toNat = m.frame.toNat + 3
  · rw [popOperand_underflow hframe]
    simp [State.operand, State.room, hframe]
  · cases htop : m.top.toNat with
    | zero =>
      have hzero : m.top = 0 := UInt16.toNat_inj.1 htop
      simp [popOperand, hzero, pop, fail, State.operand, State.room]
    | succ h =>
      have hpop := State.popped_top htop
      have hroom : m.room = m.popped.room + 1 := by
        simp only [State.room, hpop, htop, State.popped_frame]
        split <;> split <;> omega
      rw [popOperand_eq htop (by omega)]
      refine ⟨?_, fun i => ?_, rfl⟩
      · simp [State.operand, hroom, htop]
      · have hplace : h - 1 - i = h - (i + 1) := by omega
        simp [State.operand, hroom, hpop, htop, hplace]

lemma movePose_apply (andWait : Bool) (m : State) :
    (∃ a, reach m.target = (.ok, a) ∧ (movePose andWait m).1 = Action.joints 1 a.motors ∧
        (movePose andWait m).2.waiting = if andWait then .allJoints else m.waiting) ∨
      (reach m.target).1 ≠ .ok ∧ (movePose andWait m).1 = [] ∧
        (movePose andWait m).2.waiting = m.waiting := by
  obtain ⟨htilt, hrest1, hwait1⟩ := popOperand_operand m
  obtain ⟨hz, hrest2, hwait2⟩ := popOperand_operand (popOperand m).2
  obtain ⟨hy, hrest3, hwait3⟩ := popOperand_operand (popOperand (popOperand m).2).2
  obtain ⟨hx, -, hwait4⟩ := popOperand_operand (popOperand (popOperand (popOperand m).2).2).2
  rw [hrest1] at hz
  rw [hrest2, hrest1] at hy
  rw [hrest3, hrest2, hrest1] at hx
  have hwait := hwait4.trans (hwait3.trans (hwait2.trans hwait1))
  simp only [Operates.movePose, Operates.popOperand, bind_apply, htilt, hz, hy, hx]
  cases hreach : reach m.target with
  | mk result a =>
    unfold State.target at hreach
    simp only [hreach]
    cases result with
    | ok =>
      refine .inl ⟨a, rfl, ?_⟩
      cases andWait with
      | true => exact ⟨rfl, rfl⟩
      | false => exact ⟨rfl, hwait⟩
    | invalid | unreachable | jointLimit | collision => exact .inr ⟨by simp, rfl, hwait⟩

end Exec

/-- One step with a move to a pose, in every state: nothing is asked of the motors and the machine
waits as before, or the first four joints are moved, in order, to the motor angles of angles that
passed all tests for the pose that was popped; then the operation that waits begins to wait, and the
other does not. -/
theorem step_toPose (sensors : Sensors) (m : State) (op : Opcode) (hop : op = .movoc ∨ op = .setoc)
    (hidle : m.waiting = .nothing) (hcode : m.image.Holds m.pc.toNat [op.code]) :
    (reach m.target).1 ≠ .ok ∧ (m.step sensors).1 = [] ∧ (m.step sensors).2.waiting = m.waiting ∨
      ∃ a m1 m2 m3 m4, reach m.target = (.ok, a) ∧ a.Admissible m.target ∧
        a.motors = [m1, m2, m3, m4] ∧
        (m.step sensors).1 = [.joint 1 m1, .joint 2 m2, .joint 3 m3, .joint 4 m4] ∧
        (m.step sensors).2.waiting = if op = .movoc then .allJoints else m.waiting := by
  have hperform : Exec.perform sensors op = Exec.movePose (decide (op = .movoc)) := by
    rcases hop with rfl | rfl <;> rfl
  rw [step_eq_perform sensors hidle hcode, hperform]
  -- the operation byte is behind the program counter, and the operands are those of before
  have htgt : (m.advance 1).target = m.target := rfl
  rcases Exec.movePose_apply (decide (op = .movoc)) (m.advance 1) with
    ⟨a, hreach, hmoves, hwait⟩ | ⟨hno, hnone, hwait⟩
  · rw [htgt] at hreach
    refine .inr ⟨a, _, _, _, _, hreach, reach_admissible hreach, rfl, hmoves, ?_⟩
    simpa using hwait
  · exact .inl ⟨hno, hnone, hwait⟩

/-- A machine with a move to a pose at its start and four operands in its frame. -/
def atMove : State := { State.start ⟨#[Opcode.movoc.code], 0, 0, 0, 1⟩ with
    stack := #[0, 0, 0, 0x41f00000, 0x41f00000, 0, 0]
    top := 7 }

theorem step_toPose_atMove :
    atMove.waiting = .nothing ∧ atMove.image.Holds atMove.pc.toNat [Opcode.movoc.code] ∧
      (atMove.step ⟨false, []⟩).1.length = 4 ∧
      (atMove.step ⟨false, []⟩).2.waiting = .allJoints := by
  have hcode : atMove.image.Holds atMove.pc.toNat [Opcode.movoc.code] := by
    unfold Image.Holds
    decide
  have hreach : (reach atMove.target).1 = .ok := by decide +kernel
  refine ⟨rfl, hcode, ?_⟩
  rcases step_toPose ⟨false, []⟩ atMove .movoc (.inl rfl) rfl hcode with
    ⟨hno, -⟩ | ⟨a, m1, m2, m3, m4, -, -, -, hmoves, hwait⟩
  · exact absurd hreach hno
  · rw [hmoves]
    exact ⟨rfl, hwait⟩

end ArmStudio.Machine
