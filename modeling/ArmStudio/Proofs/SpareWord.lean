import ArmStudio.Proofs.Bounds

/-!
# The word behind the stack

A push finds the stack full one word too late, so there is a spare word behind the stack that
operations touch. This module says which operations do, at which heights of the stack.
-/

namespace ArmStudio.Machine

open Code Number Motion Machine.Part State Image

/-- A part of a step touches the spare word above the stack. -/
def Hits {α : Type} (p : Part α) (m : State) : Prop := .word stackSize ∈ p.touches m

/-- The part touches the spare word wherever the top of the stack satisfies `P`. -/
def Strikes {α : Type} (P : Nat → Prop) (p : Part α) : Prop :=
  ∀ m : State, m.Fits → P m.top.toNat → Hits p m

section

variable {α β : Type} {limit : Nat} {P Q : Nat → Prop} {p : Part α} {e : Exec α} {m : State}
  {f : α → Part β} {op : Opcode} {n : Nat}

lemma hits_bind (h : Matches p e m) : Hits (p >>= f) m ↔ Hits p m ∨ Hits (f (e m).1) (e m).2 := by
  rw [Hits, touches_bind h, List.mem_append]
  rfl

lemma Bounded.not_hits (h : Bounded limit p e Q m) (hlimit : limit ≤ stackSize) : ¬ Hits p m := by
  intro hhit
  have hlt : stackSize < limit := h.inside _ hhit
  omega

lemma bounded_fetch (count : Nat) (hm : m.Fits) :
    Bounded 0 (fetch count) (Exec.fetch count) (fun _ => True) m :=
  stays_fetch (P := fun _ => True) count m hm trivial

lemma not_hits_fetch (count : Nat) (hm : m.Fits) : ¬ Hits (fetch count) m :=
  (bounded_fetch count hm).not_hits zero_le

lemma Strikes.first (hp : Strikes P p) : Strikes P (p >>= f) := by
  intro m hm ht
  have hsplit := Query.accesses_bind (p m.registers) (fun x => f x.1 x.2) m.memory
  show _ ∈ ((p m.registers).bind fun x => f x.1 x.2).accesses m.memory
  rw [hsplit]
  exact List.mem_append_left _ (hp m hm ht)

lemma Strikes.next (hp : Stays stackSize P p e Q) (hf : ∀ a, Strikes Q (f a)) :
    Strikes P (p >>= f) := by
  intro m hm ht
  have hfirst := hp m hm ht
  exact (hits_bind hfirst.matched).2 (.inr (hf _ _ hfirst.matched.fits hfirst.top))

lemma Strikes.discard (hp : Strikes P p) : Strikes P (discard p : Part PUnit) := by
  intro m hm ht
  rw [Hits, touches_discard]
  exact hp m hm ht

variable (w : UInt32)

lemma strikes_push : Strikes (· = stackSize) (push w) := by
  intro m _ ht
  show _ ∈ ((if stackSize < m.top.toNat then _ else _ : Part Unit) m.registers).accesses m.memory
  rw [if_neg (by omega)]
  exact List.mem_singleton.2 (congrArg Access.word ht.symm)

lemma strikes_pop : Strikes (· = stackSize + 1) pop := by
  intro m _ ht
  have hne : m.top ≠ 0 := by
    intro h
    rw [h] at ht
    cases ht
  show _ ∈ ((if m.top = 0 then _ else _ : Part UInt32) m.registers).accesses m.memory
  rw [if_neg hne]
  refine List.mem_singleton.2 (congrArg Access.word ?_)
  show stackSize = m.top.toNat - 1
  omega

lemma strikes_popOperand : Strikes (· = stackSize + 1) popOperand := by
  intro m hm ht
  have hbig : stackSize = 1024 := rfl
  have hframe : m.frame.toNat < 256 := m.frame.toNat_lt
  have hne : ¬ m.top.toNat = m.frame.toNat + 3 := by omega
  show _ ∈ ((if m.top.toNat = m.frame.toNat + 3 then _ else _ : Part UInt32)
    m.registers).accesses m.memory
  rw [if_neg hne]
  exact strikes_pop m hm ht

lemma strikes_puts (sensors : Sensors) (huse : op.use = .puts) :
    Strikes (· = stackSize) (perform sensors op) := by
  cases op with
  | loadk => exact .first (.next (stays_fetch 2) fun i => .next (stays_readConstant i) strikes_push)
  | loadg => exact .first (.next (stays_fetch 2) fun i => .next (stays_readGlobal i) strikes_push)
  | loadl =>
    exact .first (.next (stays_fetch 1) fun i =>
      .next (stays_readLocal i (by decide)) strikes_push)
  | immi | immf => exact .first (.next (stays_fetch 4) fun n => strikes_push n.toUInt32)
  | _ => cases huse

lemma strikes_takes (sensors : Sensors) (huse : op.use = .takes) :
    Strikes (· = stackSize + 1) (perform sensors op) := by
  have htake := strikes_popOperand
  cases op with
  | ret | waitj | readj | movj | setj | setjspd => exact .first htake.first
  | pop => exact strikes_pop.discard.first
  | print => exact htake.discard.first
  | storl => exact .first (.next (stays_fetch 1) fun _ => htake.first)
  | storg => exact .first (.next (stays_fetch 2) fun _ => htake.first)
  | nop | halt | jmp | enter | ret0 | rst | wait | gripperOpen | gripperClose | label | loadk
  | loadg | loadl | immi | immf | jz | jnz | call => cases huse
  | _ => exact htake.first

/-! ### Calls that reach the spare word -/

/-- From a top inside the stack, the part touches the spare word or moves the top up by `n`, to a
place that is still inside. -/
def Climbs (n : Nat) (p : Part α) (e : Exec α) : Prop :=
  ∀ m : State, m.Fits → m.top.toNat ≤ stackSize →
    Hits p m ∨ (e m).2.top.toNat = m.top.toNat + n ∧ (e m).2.top.toNat ≤ stackSize

lemma Climbs.bind {k : Nat} {g} (hp : Climbs n p e)
    (h : Stays (stackSize + 1) (fun _ => True) p e fun _ => True)
    (hf : ∀ a, Climbs k (f a) (g a)) : Climbs (n + k) (p >>= f) (e >>= g) := by
  intro m hm ht
  have hmatch := (h m hm trivial).matched
  rw [hits_bind hmatch]
  rcases hp m hm ht with hhit | ⟨hup, hin⟩
  · exact .inl (.inl hhit)
  · rcases hf (e m).1 (e m).2 hmatch.fits hin with hhit | ⟨hup', hin'⟩
    · exact .inl (.inr hhit)
    · refine .inr ⟨?_, hin'⟩
      exact hup'.trans (by omega)

lemma stays_anyPush :
    Stays (stackSize + 1) (fun _ => True) (push w) (Exec.push w) (fun _ => True) :=
  stays_push w (fun _ _ hle => ⟨Nat.lt_succ_of_le hle, trivial⟩) fun _ _ _ => trivial

lemma climbs_push : Climbs 1 (push w) (Exec.push w) := by
  intro m hm ht
  have hbig : stackSize = 1024 := rfl
  rcases eq_or_lt_of_le ht with hfull | hlt
  · exact .inl (strikes_push w m hm hfull)
  · right
    rw [Exec.push_eq w ht, toNat_pushed_top w (by omega)]
    exact ⟨rfl, hlt⟩

lemma climbs_pushMany (ws : List UInt32) :
    Climbs ws.length (pushMany ws) (Exec.pushMany ws) := by
  induction ws with
  | nil => exact fun m _ ht => .inr ⟨rfl, ht⟩
  | cons w rest ih =>
    have hboth := (climbs_push w).bind (stays_anyPush w) fun _ => ih
    rwa [add_comm] at hboth

lemma Climbs.get_bind {f : Registers → Part β} {g : State → Exec β}
    (h : ∀ m, Climbs n (f m.registers) (g m)) : Climbs n (get >>= f) (get >>= g) :=
  fun m hm ht => h m m hm ht

lemma Climbs.modify {f g} (htop : ∀ m, (g m).top = m.top) : Climbs 0 (modify f) (modify g) := by
  intro m _ ht
  right
  show (g m).top.toNat = m.top.toNat + 0 ∧ (g m).top.toNat ≤ stackSize
  rw [htop]
  exact ⟨rfl, ht⟩

lemma climbs_frame (back : UInt16) (args : List UInt32) : Climbs (1 + (1 + (0 + (1 + args.length))))
      (do
        push back.toUInt32
        push (← get).frame.toUInt32
        modify fun r => { r with frame := (r.top - 2).toUInt8 }
        push (← get).locals.toUInt32
        pushMany args)
      (do
        Exec.push back.toUInt32
        Exec.push (← get).frame.toUInt32
        modify fun m => { m with frame := (m.top - 2).toUInt8 }
        Exec.push (← get).locals.toUInt32
        Exec.pushMany args) := by
  refine (climbs_push _).bind (stays_anyPush _) fun _ => .get_bind fun m => ?_
  refine (climbs_push _).bind (stays_anyPush _) fun _ => ?_
  refine Climbs.bind (.modify fun _ => rfl)
    (.modify (fun _ => rfl) (fun _ => rfl) fun _ _ => trivial) fun _ => .get_bind fun m => ?_
  exact (climbs_push _).bind (stays_anyPush _) fun _ => climbs_pushMany args

lemma hits_pushFrame_iff (back : UInt16) {count : Nat} (hcount : count < 256) (hm : m.Fits)
    (ht : m.top.toNat ≤ stackSize + 1) :
    Hits (pushFrame back count) m ↔
      stackSize ≤ m.top.toNat + 2 ∧ (m.top.toNat = stackSize + 1 → 0 < count) := by
  have hbig : stackSize = 1024 := rfl
  constructor
  · intro hhit
    by_cases hlow : m.top.toNat ≤ 1021
    · -- The arguments make room for themselves, and three more words are inside.
      have hstay : Stays stackSize (· ≤ 1021) _ _ _ :=
        stays_pushFrame_low back (show count ≤ 1021 by omega) (by decide)
      exact absurd hhit ((hstay m hm hlow).not_hits le_rfl)
    · refine ⟨by omega, fun hbehind => Nat.pos_of_ne_zero ?_⟩
      rintro rfl
      have hstay : Stays stackSize (· = stackSize + 1) _ _ _ := stays_pushFrame_behind back
      exact (hstay m hm hbehind).not_hits le_rfl hhit
  · rintro ⟨hreach, hargs⟩
    rcases eq_or_lt_of_le ht with hbehind | hin
    · -- The last argument stands in the spare word.
      obtain ⟨n, rfl⟩ : ∃ n, count = n + 1 := ⟨count - 1, by have := hargs hbehind; omega⟩
      exact strikes_pop.first.first m hm hbehind
    · have hpop : Stays stackSize (fun t => stackSize - 2 ≤ t ∧ t ≤ stackSize) _ _ _ :=
        stays_popMany count [] le_rfl
      have hfirst := hpop m hm ⟨by omega, by omega⟩
      refine (hits_bind hfirst.matched).2 (.inr ?_)
      have hlow := hfirst.top.1
      have hlen := length_popMany count [] m
      rcases climbs_frame back (Exec.popMany count [] m).1 (Exec.popMany count [] m).2
        hfirst.matched.fits (by have := hfirst.top.2; omega) with hhit | ⟨hup, hinside⟩
      · exact hhit
      · -- Without a hit the frame would end inside the stack, but it is too long for that.
        rw [List.length_nil] at hlen
        omega

end

/-! ## Which operations touch the spare word -/

namespace State

/-- The address that follows in the code is inside of it. -/
def TargetInside (m : State) : Prop := (Exec.fetch 2 m).1.toUInt16 < m.image.codeSize

/-- The number of arguments that a call fetches behind its address. -/
def argumentCount (m : State) : Nat := (Exec.fetch 1 (Exec.fetch 2 m).2).1

end State

/-- An operation with this use of the stack touches the spare word when the top of the stack is at
`top`. -/
def Spills (top count : Nat) (inside : Prop) : StackUse → Prop
  | .rests => False
  | .puts => top = stackSize
  | .takes => top = stackSize + 1
  | .branches => inside ∧ top = stackSize + 1
  | .calls => inside ∧ stackSize ≤ top + 2 ∧ (top = stackSize + 1 → 0 < count)

/-- The next step touches the spare word. -/
def State.Spills (m : State) : Prop :=
  m.waiting = .nothing ∧ ∃ op, Opcode.ofCode? (Exec.fetch 1 m).1.toUInt8 = some op ∧
    Machine.Spills m.top.toNat (Exec.fetch 1 m).2.argumentCount (Exec.fetch 1 m).2.TargetInside
      op.use

section

variable {m : State}

lemma top_fetch (count : Nat) (m : State) : (Exec.fetch count m).2.top = m.top := by
  by_cases hin : m.image.codeSize.toNat < m.pc.toNat + count <;>
    simp [Exec.fetch, hin, Exec.fail]

lemma not_hits_modify (f : Registers → Registers) : ¬ Hits (modify f : Part PUnit) m := by
  intro hhit
  cases hhit

lemma not_hits_pure {α : Type} (a : α) : ¬ Hits (pure a : Part α) m := by
  intro hhit
  cases hhit

lemma hits_withAddress_iff {p : UInt16 → Part Unit} {e : UInt16 → Exec Unit}
    (hm : m.Fits) (h : ∀ address, Matches (p address) (e address) (Exec.fetch 2 m).2) :
    Hits (withAddress p) m ↔
      m.TargetInside ∧ Hits (p (Exec.fetch 2 m).1.toUInt16) (Exec.fetch 2 m).2 := by
  have hfetch := (bounded_fetch 2 hm).matched
  rw [withAddress]
  dsimp only [Operates.fetch]
  rw [hits_bind hfetch, TargetInside, ← hfetch.image, or_iff_right (not_hits_fetch 2 hm)]
  clear hfetch
  -- What was fetched is named, so that only the test of the address is left to reduce.
  generalize (Exec.fetch 2 m).1.toUInt16 = address
  generalize (Exec.fetch 2 m).2 = m' at h
  show Hits (if m'.image.codeSize ≤ address then _ else _ : Part (List Action)) m' ↔ _
  by_cases hout : m'.image.codeSize ≤ address
  · rw [if_pos hout]
    exact iff_of_false (fun hhit => by cases hhit) fun hin => absurd hin.1 (UInt16.not_lt.2 hout)
  · rw [if_neg hout, hits_bind (h address), or_iff_left (not_hits_pure _)]
    exact (and_iff_right (UInt16.not_le.1 hout)).symm

lemma hits_pop_iff (hm : m.Fits) (ht : m.top.toNat ≤ stackSize + 1) :
    Hits pop m ↔ m.top.toNat = stackSize + 1 := by
  refine ⟨fun hhit => ?_, strikes_pop m hm⟩
  by_contra hne
  have hpop : Stays stackSize (· ≤ stackSize) pop Exec.pop fun _ => True :=
    stays_pop (fun t ht => ⟨ht, trivial⟩) fun _ => trivial
  exact (hpop m hm (by omega)).not_hits le_rfl hhit

lemma hits_jumpIf_iff (test : UInt32 → Bool) (hm : m.Fits) (ht : m.top.toNat ≤ stackSize + 1) :
    Hits (jumpIf test) m ↔ m.TargetInside ∧ m.top.toNat = stackSize + 1 := by
  have hfits := (bounded_fetch 2 hm).matched.fits
  have hpop : Stays (stackSize + 1) (· ≤ stackSize + 1) pop Exec.pop fun _ => True :=
    stays_pop (fun t ht => ⟨ht, trivial⟩) fun _ => trivial
  rw [← top_fetch 2 m] at ht ⊢
  refine (hits_withAddress_iff hm fun address =>
    ((hpop.bind fun w => .ite (stays_jump address) (.pure (fun _ ht => ht) ()))
      _ hfits ht).matched).trans (and_congr_right fun _ => ?_)
  rw [← hits_pop_iff hfits ht, hits_bind (hpop _ hfits ht).matched, or_iff_left]
  split
  · exact not_hits_modify _
  · exact not_hits_pure _

lemma hits_callTo_iff (address : UInt16) (hm : m.Fits) (ht : m.top.toNat ≤ stackSize + 1) :
    Hits (callTo address) m ↔ stackSize ≤ m.top.toNat + 2 ∧
      (m.top.toNat = stackSize + 1 → 0 < (Exec.fetch 1 m).1) := by
  have hfetch := (bounded_fetch 1 hm).matched
  have hfits := hfetch.fits
  rw [← top_fetch 1 m] at ht ⊢
  rw [← hits_pushFrame_iff (Exec.fetch 1 m).2.pc (fetch_byte_lt m) hfits ht, callTo]
  dsimp only [Operates.fetch]
  rw [hits_bind hfetch, or_iff_right (not_hits_fetch 1 hm)]
  clear hfetch
  generalize (Exec.fetch 1 m).1 = count
  generalize (Exec.fetch 1 m).2 = m' at hfits ht
  show Hits (pushFrame m'.pc count >>= fun _ => jump address) m' ↔ _
  rw [hits_bind (stays_pushFrame_spare m'.pc count m' hfits ht).matched]
  exact or_iff_left (not_hits_modify _)

lemma hits_perform_iff (sensors : Sensors) (op : Opcode) (hm : m.Fits)
    (ht : m.top.toNat ≤ stackSize + 1) :
    Hits (perform sensors op) m ↔
      Machine.Spills m.top.toNat m.argumentCount m.TargetInside op.use := by
  cases huse : op.use with
  | rests =>
    have hstay : Stays stackSize _ _ _ _ := stays_rests sensors huse (by decide)
    exact iff_of_false ((hstay m hm ht).not_hits le_rfl) id
  | puts =>
    refine ⟨fun hhit => ?_, strikes_puts sensors huse m hm⟩
    by_contra hne
    have hstay : Stays stackSize (· ≠ stackSize) _ _ fun _ => True :=
      stays_puts sensors huse (by decide) fun w =>
        stays_push w (fun t ht hle => ⟨lt_of_le_of_ne hle ht, trivial⟩) fun _ _ _ => trivial
    exact (hstay m hm hne).not_hits le_rfl hhit
  | takes =>
    refine ⟨fun hhit => ?_, strikes_takes sensors huse m hm⟩
    by_contra hne
    have hstay : Stays stackSize _ _ _ _ := stays_takes sensors huse (by decide)
    have hle : m.top.toNat ≤ stackSize := Nat.le_of_lt_succ (lt_of_le_of_ne ht hne)
    exact (hstay m hm hle).not_hits le_rfl hhit
  | branches =>
    cases op with
    | jz | jnz => exact hits_jumpIf_iff _ hm ht
    | _ => cases huse
  | calls =>
    cases op with
    | call =>
      have hfits := (bounded_fetch 2 hm).matched.fits
      rw [← top_fetch 2 m] at ht ⊢
      refine (hits_withAddress_iff hm fun address =>
        (stays_callTo address _ hfits ht).matched).trans (and_congr_right fun _ => ?_)
      rw [hits_callTo_iff _ hfits ht]
      rfl
    | _ => cases huse

lemma hits_step_iff (sensors : Sensors) (hm : m.Fits) (ht : m.top.toNat ≤ stackSize + 1) :
    Hits (step sensors) m ↔ m.Spills := by
  show Hits (if m.waiting = .nothing then operate sensors else poll sensors) m ↔ _
  by_cases hidle : m.waiting = .nothing
  · have hfetch := (bounded_fetch 1 hm).matched
    rw [if_pos hidle, operate]
    dsimp only [Operates.fetch]
    rw [hits_bind hfetch, or_iff_right (not_hits_fetch 1 hm), State.Spills, and_iff_right hidle]
    cases Opcode.ofCode? (Exec.fetch 1 m).1.toUInt8 with
    | none =>
      refine iff_of_false (fun hhit => by cases hhit) ?_
      rintro ⟨op, hop, _⟩
      cases hop
    | some op =>
      have hop := hits_perform_iff sensors op hfetch.fits (by rw [top_fetch]; exact ht)
      rw [top_fetch] at hop
      simpa using hop
  · rw [if_neg hidle]
    have hstay : Stays stackSize (fun _ => True) _ _ _ := stays_poll sensors
    exact iff_of_false ((hstay m hm trivial).not_hits le_rfl) fun h => hidle h.1

lemma after_start (image : Image) (sensors : Nat → Sensors) (n : Nat) :
    ((start image).after sensors n).image = image ∧
      ((start image).after sensors n).Fits ∧
      ((start image).after sensors n).top.toNat ≤ stackSize + 1 := by
  induction n with
  | zero => exact ⟨rfl, Array.size_replicate, zero_le⟩
  | succ n ih =>
    obtain ⟨himage, hfits, htop⟩ := ih
    have hnext := stays_step (sensors n) _ hfits htop
    exact ⟨hnext.matched.image.trans himage, hnext.matched.fits, hnext.top⟩

end

/-! ## A program that fills the stack -/

/-- Pushes zeros for ever. -/
def fillCode : List Instr := [labelInstr "fill", ⟨.immi, [.u32 (.ofInt 0)]⟩, jumpInstr .jmp "fill"]

lemma filled {image : Image} {place} (hcode : image.CodeAt place 0 fillCode)
    (sensors : Nat → Sensors) {k : Nat} (hk : k ≤ stackSize) :
    ((start image).after sensors (2 * k)).At image 0 ∧
      ((start image).after sensors (2 * k)).top.toNat = k := by
  have hbig : stackSize = 1024 := rfl
  obtain ⟨⟨_, _, hplace⟩, himmi⟩ := hcode
  have hfill : place "fill" = 0 := hplace "fill" rfl
  have hjmp : image.CodeAt place 5 [jumpInstr .jmp "fill"] := himmi.2
  induction k with
  | zero => exact ⟨⟨rfl, rfl, rfl, rfl⟩, rfl⟩
  | succ k ih =>
    obtain ⟨hm, htop⟩ := ih (by omega)
    have hpush := hm.step_immi (sensors (2 * k)) himmi (by omega)
    have hend : 0 + 8 ≤ image.codeSize.toNat := himmi.end_le (by simp)
    have hm1 :
        (((start image).after sensors (2 * k)).step (sensors (2 * k))).2.At image 5 := by
      rw [hpush]
      have hnext := hm.advance (show 0 + 5 ≤ image.codeSize.toNat by omega)
      exact ⟨hnext.image, hnext.pc, hnext.idle, hnext.running⟩
    have hjump := hm1.step_jmp (sensors (2 * k + 1)) hjmp hfill
      (show 0 < image.codeSize.toNat by omega)
    have htwo : (start image).after sensors (2 * (k + 1)) =
        ((((start image).after sensors (2 * k)).advance 5).pushed
          (lowBytes 4 0).toUInt32).goto (0 : Nat).toUInt16 := by
      rw [← hpush, ← hjump]
      rfl
    rw [htwo]
    refine ⟨⟨hm.image, rfl, hm.idle, hm.running⟩, ?_⟩
    rw [goto_top, toNat_pushed_top _ (by rw [advance_top]; omega),
      advance_top, htop]

/-- A step is a tree of accesses, whatever the file and whatever the hardware has answered before.
None of them is outside of the code, the constants, the globals, the words of the stack and the
spare word behind them; and none is outside of the words of the stack exactly if the operation is
not one of those that touch the spare word. -/
theorem accesses_inside_iff (image : Image) (sensors : Nat → Sensors) (n : Nat) :
    let m := (start image).after sensors n
    (step (sensors n) m.registers).run m.memory =
        (((m.step (sensors n)).1, (m.step (sensors n)).2.registers),
          (m.step (sensors n)).2.memory) ∧
      (∀ x ∈ m.accesses (sensors n), x.Inside image (stackSize + 1)) ∧
      ((∀ x ∈ m.accesses (sensors n), x.Inside image stackSize) ↔ ¬ m.Spills) := by
  intro m
  obtain ⟨himage, hfits, htop⟩ := after_start image sensors n
  have hstep := stays_step (sensors n) m hfits htop
  have hinside := hstep.inside
  rw [show m.image = image from himage] at hinside
  refine ⟨hstep.matched.run, hinside, ?_⟩
  rw [← hits_step_iff (sensors n) hfits htop]
  constructor
  · intro hall hhit
    exact absurd (hall _ hhit) (lt_irrefl stackSize)
  · intro hno x hx
    have hx' := hinside x hx
    cases x with
    | word i =>
      refine lt_of_le_of_ne (Nat.le_of_lt_succ hx') ?_
      rintro rfl
      exact hno hx
    | global i => exact hx'
    | constant i => exact hx'
    | byte i => exact hx'

/-- At its 2049th step the machine that pushes zeros for ever touches the spare word. -/
theorem accesses_inside_iff_filled : ∃ image, load (complete (header 0 [] 0 ++
      encodedCode (placeIn fillCode) fillCode).toArray) = .ok image ∧
    ((start image).after (fun _ => ⟨false, []⟩) (2 * stackSize)).status = .running ∧
    ¬ ∀ x ∈ ((start image).after (fun _ => ⟨false, []⟩) (2 * stackSize)).accesses ⟨false, []⟩,
      x.Inside image stackSize := by
  have hfit : ∀ i ∈ fillCode, i.Fits := by
    simp only [fillCode, List.forall_mem_cons]
    exact ⟨⟨_, _, _, rfl⟩, ⟨_, rfl⟩, ⟨_, _, _, _, rfl, rfl⟩, fun i hi => by cases hi⟩
  have hwidth : (encodedCode (placeIn fillCode) fillCode).length < 65536 := by
    rw [length_encodedCode hfit]
    decide
  obtain ⟨hload, _, hholds⟩ := load_complete (show ([] : List UInt8).length = 4 * 0 from rfl)
    (by decide) zero_le hwidth
  generalize imageOf 0 [] 0 (encodedCode (placeIn fillCode) fillCode) = image at hload hholds
  have hcode := codeAt_of_holds fillCode [] hfit (by decide) hholds
  obtain ⟨hm, htop⟩ := filled hcode (fun _ => ⟨false, []⟩) le_rfl
  refine ⟨image, hload, hm.running, fun hall => ?_⟩
  refine (accesses_inside_iff image (fun _ => ⟨false, []⟩) (2 * stackSize)).2.2.1 hall ?_
  have hop : image.Holds 0 (Opcode.immi.code :: (intBytes 4 0 ++ [])) :=
    hcode.2.holds_plain (by decide) rfl (argBytes_u32 0)
  rw [← hm.image, ← hm.pc] at hop
  obtain ⟨n, hfetch, hop⟩ := Exec.fetch_op hop
  refine ⟨hm.idle, .immi, ?_, htop⟩
  rw [hfetch, hop]
  rfl

end ArmStudio.Machine
