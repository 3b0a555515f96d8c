import ArmStudio.Proofs.Drift
import ArmStudio.Proofs.Frames

/-!
# Paths of the machine through a piece of code

A path goes from instruction to instruction of a piece of code. Jumps stay among its labels, waiting
takes any number of polls, and a call is one move, from the call to behind it, whatever the callee
did in between, if it returns with the frame that the call made.
-/

namespace ArmStudio.Machine

open Code Exec State

/-- The machine is running at an address of a program, in a frame with `h` words above its
locals. -/
structure Standing (image : Image) (f n : UInt8) (b : Nat) (h : Int) (m : State) : Prop where
  image : m.image = image
  running : m.status = .running
  frame : m.frame = f
  locals : m.locals = n
  pc : m.pc.toNat = b
  top : (m.top.toNat : Int) = f.toNat + 3 + n.toNat + h

/-- A machine that was at `m1` behind a call stands before a return, with or without a result, and
the frame is as the call made it. -/
structure Returning (valued : Bool) (m1 m2 : State) : Prop where
  image : m2.image = m1.image
  idle : m2.waiting = .nothing
  frame : m2.frame = m1.frame
  header : ∀ i, i < 3 → m2.stack[m1.frame.toNat + i]? = m1.stack[m1.frame.toNat + i]?
  code : m2.image.Holds m2.pc.toNat [(if valued then Opcode.ret else .ret0).code]

/-- One move through code at an address. `valued` tells which functions return with a result. -/
inductive Move (valued : String → Bool) (a : Nat) (code : List Instr) : State → State → Prop
  | poll {m : State} (sensors : Sensors) (hwaits : m.waiting ≠ .nothing) :
      Move valued a code m (m.step sensors).2
  | step {m : State} {xs ys : List Instr} {i : Instr} (sensors : Sensors)
      (hcode : code = xs ++ i :: ys) (hpc : m.pc.toNat = a + width xs)
      (hidle : m.waiting = .nothing) (hop : i.op ∉ [.label, .call, .ret, .ret0])
      (htgt : ∀ name, i.target? = some name → name ∈ marks code)
      (hrun : (m.step sensors).2.status = .running) : Move valued a code m (m.step sensors).2
  | call {m m2 : State} {xs ys : List Instr} {func : String} {n h : Nat}
      (sensors sensors' : Sensors)
      (hcode : code = xs ++ ⟨.call, [.label func none, .u8 (.ofInt n)]⟩ :: ys)
      (hpc : m.pc.toNat = a + width xs) (hidle : m.waiting = .nothing)
      (htop : m.top.toNat = h + n % 256)
      (hcall : Called h (n % 256) (m.pc.toNat + 4).toUInt16 m (m.step sensors).2)
      (hret : Returning (valued func) (m.step sensors).2 m2)
      (hrun : (m2.step sensors').2.status = .running) : Move valued a code m (m2.step sensors').2

/-- A path of `k` moves through code at an address. -/
inductive Path (valued : String → Bool) (a : Nat) (code : List Instr) : Nat → State → State → Prop
  | refl (m : State) : Path valued a code 0 m m
  | head {k : Nat} {m m1 m' : State} (hmove : Move valued a code m m1)
      (h : Path valued a code k m1 m') : Path valued a code (k + 1) m m'

lemma eq_of_width_eq {xs xs' ys ys'} {i i' : Instr}
    (h : xs ++ i :: ys = xs' ++ i' :: ys') (hwidth : width xs = width xs') (hi : 0 < i.width)
    (hi' : 0 < i'.width) : i = i' ∧ ys = ys' := by
  have hfirst {j j' : Instr} {us us' zs : List Instr} (hzs : j :: us = zs ++ j' :: us')
      (hnone : width zs = 0) (hj : 0 < j.width) : j = j' ∧ us = us' := by
    cases zs with
    | nil => simpa using hzs
    | cons z zs =>
      rw [List.cons_append, List.cons.injEq] at hzs
      rw [width_cons, ← hzs.1] at hnone
      omega
  rcases List.append_eq_append_iff.1 h with ⟨zs, rfl, hzs⟩ | ⟨zs, rfl, hzs⟩ <;>
    rw [width_append] at hwidth
  · exact hfirst hzs (by omega) hi
  · simpa only [eq_comm] using hfirst hzs (by omega) hi'

lemma Exec.withAddress_overstep {m : State} {next : UInt16 → Exec Unit} {c : Nat}
    {bytes : List UInt8} (h : m.image.Holds m.pc.toNat (intBytes 2 c ++ bytes)) (hlt : c < 65536)
    (hout : m.image.codeSize.toNat ≤ c) :
    (withAddress next m).2.status = .overstep := by
  have hsmall : c.toUInt16.toNat = c := by simp [Nat.mod_eq_of_lt hlt]
  have hle : (m.advance 2).image.codeSize ≤ c.toUInt16 := by
    rwa [UInt16.le_iff_toNat_le, hsmall]
  have hfetch := fetch_eq h
  rw [Image.lowBytes_two, show ((c : Int) % 65536).toNat = c by omega] at hfetch
  have htest : ∀ (no yes : Exec (List Action)),
      (if (m.advance 2).image.codeSize ≤ c.toUInt16 then no else yes) (m.advance 2) =
        no (m.advance 2) := fun no yes => by rw [if_pos hle]
  dsimp only [withAddress, Operates.fetch]
  rw [bind_apply, hfetch]
  exact congrArg (fun r => r.2.status) (htest _ _)

lemma State.step_waiting {m : State} (hwaits : m.waiting ≠ .nothing) (sensors : Sensors) :
    (m.step sensors).2 = m ∨ (m.step sensors).2 = { m with waiting := .nothing } := by
  have hif (finished : Bool) : let polled : Exec (List Action) :=
      if finished = true then do wait .nothing; pure [] else pure []
      (polled m).2 = m ∨ (polled m).2 = { m with waiting := .nothing } := by
    cases finished with
    | false => exact .inl rfl
    | true => exact .inr rfl
  rw [State.step, if_neg hwaits]
  exact hif _

namespace Standing

variable {image : Image} {place : String → Int} {f n : UInt8} {b : Nat} {h : Int} {m : State}
  {rest : List Instr} (hm : Standing image f n b h m)

include hm

section

variable (hidle : m.waiting = .nothing)

include hidle

lemma at_ : m.At image b := ⟨hm.image, hm.pc, hidle, hm.running⟩

omit hidle in
lemma poll (hwaits : m.waiting ≠ .nothing) (sensors : Sensors) :
    Standing image f n b h (m.step sensors).2 := by
  rcases step_waiting hwaits sensors with hafter | hafter
  · rwa [hafter]
  · rw [hafter]
    exact ⟨hm.image, hm.running, hm.frame, hm.locals, hm.pc, hm.top⟩

variable {sensors : Sensors} {name : String} {c : Nat}

lemma straight {i : Instr} (hc : image.CodeAt place b (i :: rest)) (hop : i.op.isStraight)
    (hwidth : argsWidth i.args = i.op.operandBytes) (hrun : (m.step sensors).2.status = .running) :
    Standing image f n (b + i.width) (h + i.op.balance) (m.step sensors).2 := by
  have hlabel : i.op ≠ .label := by
    intro hl
    simp [hl, Opcode.isStraight] at hop
  have hjump : i.op.isJump = false := by
    cases hi : i.op <;> first | rfl | simp [hi, Opcode.isStraight] at hop
  obtain ⟨bytes, hbytes⟩ : ∃ bytes, i.bytes = .ok bytes := by
    have hfits := hc.1.1
    simpa [Instr.Fits, hlabel, hjump] using hfits
  rcases Instr.bytes_eq_ok.1 hbytes with ⟨args, hargs, rfl⟩
  rcases (hm.at_ hidle).perform (hc.holds_plain hlabel hjump hargs) sensors with ⟨hstep, _⟩
  have hwide : i.width = 1 + i.op.operandBytes := by rw [Instr.width, if_neg hlabel, hwidth]
  have hend : b + i.width ≤ image.codeSize.toNat := by
    have hle := hc.1.2.1.1
    rwa [hc.1.1.length_encoded] at hle
  have hpc : (m.advance 1).pc.toNat = b + 1 := ((hm.at_ hidle).advance (by omega)).pc
  rw [hstep] at hrun ⊢
  have hmoved := moves_perform sensors hop (m.advance 1) hrun
  have htop := hm.top
  have htop' := hmoved.top
  refine ⟨hmoved.image.trans hm.image, hrun, hmoved.frame.trans hm.frame,
    hmoved.locals.trans hm.locals, ?_, ?_⟩
  · rw [hmoved.pc, hpc]
    omega
  · rw [advance_top] at htop'
    omega

lemma lt_of_jump {op : Opcode} {next : UInt16 → Exec Unit} (hjump : op.isJump)
    (hop : perform sensors op = withAddress next)
    (hc : image.CodeAt place b (⟨op, [.label name none]⟩ :: rest)) (hplace : place name = c)
    (hlt : c < 65536) (hrun : (m.step sensors).2.status = .running) :
    c < image.codeSize.toNat := by
  by_contra hout
  rcases (hm.at_ hidle).perform (hc.holds_jump hjump rfl) sensors with ⟨hstep, hargs⟩
  rw [hplace] at hargs
  rw [hstep, hop, withAddress_overstep hargs hlt (by rw [advance_image, hm.image]; omega)] at hrun
  cases hrun

lemma jmp (hc : image.CodeAt place b (jumpInstr .jmp name :: rest)) (hplace : place name = c)
    (hlt : c < 65536) (hrun : (m.step sensors).2.status = .running) :
    Standing image f n c h (m.step sensors).2 := by
  have hin := hm.lt_of_jump hidle rfl rfl hc hplace hlt hrun
  rw [(hm.at_ hidle).step_jmp sensors hc hplace hin]
  exact ⟨hm.image, hm.running, hm.frame, hm.locals, by simp [Nat.mod_eq_of_lt hlt], hm.top⟩

lemma jz (hc : image.CodeAt place b (jumpInstr .jz name :: rest)) (hplace : place name = c)
    (hlt : c < 65536) (hrun : (m.step sensors).2.status = .running) :
    Standing image f n c (h - 1) (m.step sensors).2 ∨
      Standing image f n (b + 3) (h - 1) (m.step sensors).2 := by
  have hat := hm.at_ hidle
  have htop := hm.top
  have hin := hm.lt_of_jump hidle rfl (by rw [perform, Operates.perform, jumpIf]) hc hplace hlt hrun
  have hne : m.top ≠ 0 := by
    -- At an empty stack the word that is tested could not be popped.
    intro hempty
    rcases hat.perform (hc.holds_jump rfl rfl) sensors with ⟨hstep, hargs⟩
    rw [hplace] at hargs
    rw [hstep, perform, Operates.perform, jumpIf, withAddress_eq hargs (by omega)
      (by rw [advance_image, hm.image]; omega)] at hrun
    simp [Operates.pop, pop, hempty, fail, Operates.jump, jump] at hrun
  obtain ⟨k, hk⟩ := exists_top hne
  have hpop : (m.popped.top.toNat : Int) = f.toNat + 3 + n.toNat + (h - 1) := by
    rw [popped_top hk]
    omega
  rw [hat.step_jz sensors hc hplace hin hk]
  split
  · exact .inl ⟨hm.image, hm.running, hm.frame, hm.locals, by simp [Nat.mod_eq_of_lt hlt], hpop⟩
  · refine .inr ⟨hm.image, hm.running, hm.frame, hm.locals, ?_, hpop⟩
    have hend : b + 3 ≤ image.codeSize.toNat := by
      have hle := hc.1.2.1.1
      rwa [hc.1.1.length_encoded] at hle
    exact (hat.advance hend).pc

end

lemma returned {valued : Bool} {base k : Nat} {m1 m2 : State}
    (hend : b + 4 ≤ image.codeSize.toNat) (htop : m.top.toNat = base + k)
    (hcall : Called base k (b + 4).toUInt16 m m1) (hret : Returning valued m1 m2)
    (hrun : (m2.step sensors).2.status = .running) :
    Standing image f n (b + 4) (h + ((if valued then 1 else 0) - k)) (m2.step sensors).2 := by
  have hlt : image.codeSize.toNat < 65536 := image.codeSize.toNat_lt
  have hpc : (b + 4).toUInt16.toNat = b + 4 := by
    simp
    omega
  have hframe : m2.frame.toNat = base := by rw [hret.frame, hcall.frame]
  have hword {i : Nat} (hi : i < 3) {w : UInt32} (hw : m1.stack[base + i]? = some w) :
      m2.stack[m2.frame.toNat + i]? = some w := by
    rw [hret.frame, hret.header i hi, hcall.frame, hw]
  have hback := hword (i := 0) (by decide) hcall.back
  have hcaller := hword (i := 1) (by decide) hcall.outerFrame
  have hcount := hword (i := 2) (by decide) hcall.outerLocals
  have himage : m2.image = image := hret.image.trans (hcall.image.trans hm.image)
  have hunder := hm.top
  cases valued with
  | false =>
    have hcode : m2.image.Holds m2.pc.toNat [Opcode.ret0.code] := hret.code
    have hpop : popFrame (m2.advance 1) = _ :=
      congrArg ((), ·) (unframed_eq (m := m2.advance 1) hback hcaller hcount)
    have hafter : (m2.step sensors).2 =
        (m2.advance 1).returned (b + 4).toUInt16 m.frame m.locals := by
      rw [step_eq_perform sensors hret.idle hcode]
      dsimp only [perform, Operates.perform, Operates.popFrame]
      rw [quietly_apply, hpop]
    rw [hafter] at hrun ⊢
    refine ⟨himage, hrun, hm.frame, hm.locals, hpc, ?_⟩
    show ((m2.frame.toUInt16.toNat : Nat) : Int) = _
    rw [UInt8.toNat_toUInt16, hframe]
    simp only [Bool.false_eq_true, if_false]
    omega
  | true =>
    have hcode : m2.image.Holds m2.pc.toNat [Opcode.ret.code] := hret.code
    have hstep : (m2.step sensors).2 = (push (popOperand (m2.advance 1)).1
        (popFrame (popOperand (m2.advance 1)).2).2).2 := by
      rw [step_eq_perform sensors hret.idle hcode]
      rfl
    -- The operand was popped, since the machine is still running.
    have hpopped : (popOperand (m2.advance 1)).2.status = .running := by
      rw [hstep] at hrun
      exact (moves_push _ _ hrun).running
    have hmoved := moves_popOperand (m2.advance 1) hpopped
    have hheight := hmoved.top
    obtain ⟨k', hk'⟩ : ∃ k', m2.top.toNat = k' + 1 :=
      ⟨m2.top.toNat - 1, by rw [advance_top] at hheight; omega⟩
    have hfull : k' + 1 ≠ m2.frame.toNat + 3 := by
      intro hempty
      simp [popOperand, hk', hempty, fail] at hpopped
    have hpop : popOperand (m2.advance 1) = _ := popOperand_eq hk' hfull
    have hdrop : popFrame (m2.advance 1).popped = _ :=
      congrArg ((), ·) (unframed_eq (m := (m2.advance 1).popped) hback hcaller hcount)
    have hroom : ((m2.advance 1).popped.returned (b + 4).toUInt16 m.frame m.locals).top.toNat ≤
        stackSize := by
      have hsmall := m2.frame.toNat_lt
      show m2.frame.toUInt16.toNat ≤ 1024
      rw [UInt8.toNat_toUInt16]
      omega
    rw [hstep, hpop, hdrop, push_eq _ hroom] at hrun ⊢
    refine ⟨himage, hrun, hm.frame, hm.locals, hpc, ?_⟩
    rw [toNat_pushed_top _ (by rw [stackSize] at hroom; omega)]
    show ((m2.frame.toUInt16.toNat + 1 : Nat) : Int) = _
    rw [UInt8.toNat_toUInt16, hframe]
    simp only [if_true]
    omega

end Standing

end ArmStudio.Machine
