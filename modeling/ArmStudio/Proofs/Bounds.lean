import ArmStudio.Proofs.Accesses

/-!
# How far operations reach into the memory

A step is a tree of accesses. By its use of the stack it stays inside the code, the constants, the
globals and the words of the stack, or reaches the word behind them and no further.
-/

namespace ArmStudio.Machine

open Code Number Motion

/-- The place is inside its area; of the stack there are `limit` words. -/
def Access.Inside (image : Image) (limit : Nat) : Access → Prop
  | .word i => i < limit
  | .global i => i < image.globalCount
  | .constant i => i < image.constantCount
  | .byte i => i < image.codeSize.toNat

def Part.touches {α : Type} (p : Part α) (m : State) : List Access :=
  (p m.registers).accesses m.memory

def State.accesses (sensors : Sensors) (m : State) : List Access := (Part.step sensors).touches m

section

variable {α β : Type} {p : Part α} {e : Exec α} {m : State} {limit : Nat} {Q : Nat → Prop}

lemma Part.touches_bind {f : α → Part β} (h : Matches p e m) :
    (p >>= f).touches m = p.touches m ++ (f (e m).1).touches (e m).2 := by
  calc (p >>= f).touches m
      = p.touches m ++ (f ((p m.registers).run m.memory).1.1
          ((p m.registers).run m.memory).1.2).accesses ((p m.registers).run m.memory).2 :=
        Query.accesses_bind _ _ _
    _ = _ := by rw [h.run]; rfl

lemma Part.touches_discard (p : Part α) (m : State) :
    (discard p : Part PUnit).touches m = p.touches m := by
  calc (discard p : Part PUnit).touches m = p.touches m ++ [] := Query.accesses_bind _ _ _
    _ = _ := List.append_nil _

/-! ## Staying inside -/

/-- From `m` the part follows `e`, touches nothing outside, and leaves the top of the stack where
`Q` holds. -/
structure Bounded (limit : Nat) (p : Part α) (e : Exec α) (Q : Nat → Prop) (m : State) : Prop where
  matched : Matches p e m
  inside : ∀ x ∈ p.touches m, x.Inside m.image limit
  top : Q (e m).2.top.toNat

lemma Bounded.untouched (h : Matches p e m) (htouches : p.touches m = [])
    (htop : Q (e m).2.top.toNat) : Bounded limit p e Q m :=
  ⟨h, by simp [htouches], htop⟩

lemma Bounded.single {x : Access} (h : Matches p e m) (htouches : p.touches m = [x])
    (hx : x.Inside m.image limit) (htop : Q (e m).2.top.toNat) : Bounded limit p e Q m :=
  ⟨h, by simpa [htouches] using hx, htop⟩

/-- From wherever the top of the stack satisfies `P`, the part stays inside and leaves the top where
`Q` holds. -/
def Stays (limit : Nat) (P : Nat → Prop) (p : Part α) (e : Exec α) (Q : Nat → Prop) : Prop :=
  ∀ m : State, m.Fits → P m.top.toNat → Bounded limit p e Q m

end

namespace Stays

variable {α β : Type} {limit : Nat} {P Q R : Nat → Prop} {p : Part α} {e : Exec α} {f : α → Part β}
  {g : α → Exec β}

lemma pure (h : ∀ t, P t → Q t) (a : α) : Stays limit P (pure a) (pure a) Q :=
  fun _ hm ht => .untouched ⟨rfl, rfl, hm⟩ rfl (h _ ht)

lemma bind_result (hp : Stays limit P p e Q) (hf : ∀ m, Stays limit Q (f (e m).1) (g (e m).1) R) :
    Stays limit P (p >>= f) (e >>= g) R := by
  intro m hm ht
  have hfirst := hp m hm ht
  have hsnd := hf m (e m).2 hfirst.matched.fits hfirst.top
  refine ⟨hfirst.matched.bind hsnd.matched, ?_, hsnd.top⟩
  intro x hx
  rw [Part.touches_bind hfirst.matched, List.mem_append] at hx
  rcases hx with hx | hx
  · exact hfirst.inside x hx
  · rw [← hfirst.matched.image]
    exact hsnd.inside x hx

lemma bind (hp : Stays limit P p e Q) (hf : ∀ a, Stays limit Q (f a) (g a) R) :
    Stays limit P (p >>= f) (e >>= g) R :=
  hp.bind_result fun m => hf (e m).1

lemma returns (hp : Stays limit P p e Q) (r : α → β) :
    Stays limit P (p >>= fun a => Pure.pure (r a)) (e >>= fun a => Pure.pure (r a)) Q :=
  hp.bind fun a => .pure (fun _ ht => ht) (r a)

lemma get_bind {f : Registers → Part β} {g : State → Exec β}
    (h : ∀ m, m.Fits → P m.top.toNat → Bounded limit (f m.registers) (g m) Q m) :
    Stays limit P (get >>= f) (get >>= g) Q :=
  fun m hm ht => ⟨⟨(h m hm ht).matched.run, (h m hm ht).matched.image, (h m hm ht).matched.fits⟩,
    (h m hm ht).inside, (h m hm ht).top⟩

lemma weaken (h : Stays limit P p e Q) (hpre : ∀ t, R t → P t) : Stays limit R p e Q :=
  fun m hm ht => h m hm (hpre _ ht)

lemma conclude (h : Stays limit P p e Q) (hpost : ∀ t, Q t → R t) : Stays limit P p e R :=
  fun m hm ht => ⟨(h m hm ht).matched, (h m hm ht).inside, hpost _ (h m hm ht).top⟩

lemma modify {f g}
    (hregs : ∀ m, (g m).registers = f m.registers) (hmem : ∀ m, (g m).memory = m.memory)
    (htop : ∀ m, P m.top.toNat → Q (g m).top.toNat) :
    Stays limit P (modify f) (modify g) Q := by
  intro m hm ht
  have himage : (g m).image = m.image := congrArg Memory.image (hmem m)
  have hglobs : (g m).globals = m.globals := congrArg Memory.globals (hmem m)
  refine .untouched ⟨?_, himage, ?_⟩ rfl (htop m ht)
  · show (((), f m.registers), m.memory) = (((), (g m).registers), (g m).memory)
    rw [hregs, hmem]
  · show (g m).globals.size = (g m).image.globalCount
    rwa [himage, hglobs]

lemma quietly {p e} (h : Stays limit P p e Q) : Stays limit P (Part.quietly p) (Exec.quietly e) Q :=
  h.returns _

lemma ite {c : Prop} [Decidable c] {q : Part α} {e' : Exec α} (ht : Stays limit P p e Q)
    (hf : Stays limit P q e' Q) : Stays limit P (if c then p else q) (if c then e else e') Q := by
  split
  · exact ht
  · exact hf

lemma discard (h : Stays limit P p e Q) :
    Stays limit P (discard p : Part PUnit) (discard e : Exec PUnit) Q := by
  intro m hm ht
  have hfirst := h m hm ht
  refine ⟨hfirst.matched.discard, ?_, hfirst.top⟩
  intro x hx
  rw [Part.touches_discard] at hx
  exact hfirst.inside x hx

end Stays

/-- A part that keeps to the first `limit` words of the stack. -/
abbrev Confined {α : Type} (limit : Nat) (p : Part α) (e : Exec α) : Prop :=
  Stays limit (· ≤ limit) p e (· ≤ limit)

/-! ## Parts of operations -/

section

variable {limit : Nat} {P Q : Nat → Prop}

lemma stays_fail (s : Status) (h : ∀ t, P t → Q t) : Stays limit P (Part.fail s) (Exec.fail s) Q :=
  .modify (fun _ => rfl) (fun _ => rfl) fun _ ht => h _ ht

lemma stays_wait (w : Waiting) (h : ∀ t, P t → Q t) : Stays limit P (Part.wait w) (Exec.wait w) Q :=
  .modify (fun _ => rfl) (fun _ => rfl) fun _ ht => h _ ht

lemma stays_waitJoint (id : UInt32) (h : ∀ t, P t → Q t) :
    Stays limit P (Part.waitJoint id) (Exec.waitJoint id) Q :=
  .modify (fun _ => rfl) (fun _ => rfl) fun _ ht => h _ ht

lemma stays_jump (address : UInt16) : Stays limit P (Part.jump address) (Exec.jump address) P :=
  .modify (fun _ => rfl) (fun _ => rfl) fun _ ht => ht

lemma stays_fail_pure {α : Type} (s : Status) (a : α) :
    Stays limit P (do Part.fail s; return a) (do Exec.fail s; return a) P :=
  (stays_fail s fun _ ht => ht).returns _

variable (i : Nat) (w : UInt32) (count : Nat) (andWait : Bool)

lemma accesses_codeNumber (i : Nat) (r : Registers) (mem : Memory) :
    (Part.codeNumber count i r).accesses mem = (List.range' i count).map Access.byte := by
  induction count generalizing i with
  | zero => rfl
  | succ count ih =>
    have hread : (Part.codeNumber (count + 1) i r).accesses mem =
        .byte i :: ((Part.codeNumber count (i + 1) r).bind fun x =>
          .done ((mem.read (.byte i)).toNat + 256 * x.1, x.2)).accesses mem := rfl
    rw [hread, Query.accesses_bind, ih]
    simp [Query.accesses, List.range'_succ]

lemma stays_fetch : Stays limit P (Part.fetch count) (Exec.fetch count) P := by
  refine .get_bind fun m hm ht => ?_
  show Bounded limit (if m.image.codeSize.toNat < m.pc.toNat + count then _ else _) _ P m
  split
  case isTrue => exact stays_fail_pure _ _ m hm ht
  case isFalse hin =>
    refine ⟨⟨run_codeNumber _ _ _ _, rfl, hm⟩, ?_, ht⟩
    intro x hx
    have hbytes : x ∈ (List.range' m.pc.toNat count).map Access.byte := by
      rwa [← accesses_codeNumber]
    obtain ⟨i, hi, rfl⟩ := List.mem_map.1 hbytes
    rw [List.mem_range'_1] at hi
    show i < m.image.codeSize.toNat
    omega

lemma fetch_result (m : State) : (Exec.fetch count m).1 =
    if m.image.codeSize.toNat < m.pc.toNat + count then 0
    else m.image.codeNumber count m.pc.toNat := by
  by_cases hin : m.image.codeSize.toNat < m.pc.toNat + count <;> simp [Exec.fetch, hin]

lemma fetch_byte_lt (m : State) : (Exec.fetch 1 m).1 < 256 := by
  rw [fetch_result]
  split
  case isTrue => decide
  case isFalse =>
    have hbyte := (Image.byteOf m.image.bytes (m.image.codeStart + m.pc.toNat)).toNat_lt
    rw [Image.codeNumber, Image.numberOf, Image.numberOf]
    omega

/-- A push writes the word at the top of the stack, unless the top is behind the spare word. -/
lemma stays_push (hput : ∀ t, P t → t ≤ stackSize → t < limit ∧ Q (t + 1))
    (hfull : ∀ t, P t → stackSize < t → Q t) : Stays limit P (Part.push w) (Exec.push w) Q := by
  refine .get_bind fun m hm ht => ?_
  show Bounded limit (if stackSize < m.top.toNat then _ else _) _ Q m
  split
  case isTrue hroom => exact .untouched ⟨rfl, rfl, hm⟩ rfl (hfull _ ht hroom)
  case isFalse hroom =>
    have hle : m.top.toNat ≤ stackSize := not_lt.1 hroom
    have hbig : stackSize = 1024 := rfl
    obtain ⟨hlt, hnext⟩ := hput _ ht hle
    rw [← State.toNat_pushed_top w (by omega)] at hnext
    exact .single ⟨rfl, rfl, hm⟩ rfl hlt hnext

lemma stays_pop (hpop : ∀ t, P (t + 1) → t < limit ∧ Q t) (hempty : P 0 → Q 0) :
    Stays limit P Part.pop Exec.pop Q := by
  refine .get_bind fun m hm ht => ?_
  show Bounded limit (if m.top = 0 then _ else _) _ Q m
  split
  case isTrue hzero =>
    have htop : m.top.toNat = 0 := by rw [hzero]; rfl
    rw [htop] at ht
    exact .untouched ⟨rfl, rfl, hm⟩ rfl (htop.symm ▸ hempty ht)
  case isFalse hzero =>
    obtain ⟨t, htop⟩ := State.exists_top hzero
    obtain ⟨hlt, hnext⟩ := hpop t (htop ▸ ht)
    rw [← State.popped_top htop] at hnext
    exact .single ⟨rfl, rfl, hm⟩ rfl (show m.top.toNat - 1 < limit by rwa [htop]) hnext

/-- An operand is popped unless the top is right above the frame, which is at 258 or below. -/
lemma stays_popOperand (hpop : ∀ t, P (t + 1) → t < limit ∧ Q t)
    (hempty : ∀ t, t ≤ 258 → P t → Q t) : Stays limit P Part.popOperand Exec.popOperand Q := by
  refine .get_bind fun m hm ht => ?_
  show Bounded limit (if m.top.toNat = m.frame.toNat + 3 then _ else _) _ Q m
  split
  case isTrue hbare =>
    have hframe : m.frame.toNat < 256 := m.frame.toNat_lt
    exact .untouched ⟨rfl, rfl, hm⟩ rfl (hempty m.top.toNat (by omega) ht)
  case isFalse => exact stays_pop hpop (hempty 0 (by omega)) m hm ht

lemma stays_readConstant : Stays limit P (Part.readConstant i) (Exec.readConstant i) P := by
  refine .get_bind fun m hm ht => ?_
  show Bounded limit (if i < m.image.constantCount then _ else _) _ P m
  split
  case isTrue hi => exact .single ⟨rfl, rfl, hm⟩ rfl hi ht
  case isFalse => exact stays_fail_pure _ _ m hm ht

-- The machine looks for the global itself, a tree compares with the declared number of globals:
-- here it matters that the two agree.
lemma stays_readGlobal : Stays limit P (Part.readGlobal i) (Exec.readGlobal i) P := by
  refine .get_bind fun m hm ht => ?_
  show Bounded limit (if i < m.image.globalCount then _ else _) _ P m
  have hsize : m.globals.size = m.image.globalCount := hm
  by_cases hi : i < m.image.globalCount
  · obtain ⟨w, hw⟩ : ∃ w, m.globals[i]? = some w := ⟨_, Array.getElem?_eq_getElem (hsize.symm ▸ hi)⟩
    rw [if_pos hi, hw]
    refine .single ⟨?_, rfl, hm⟩ rfl hi ht
    show (((m.globals[i]?).getD 0, m.registers), m.memory) = ((w, m.registers), m.memory)
    rw [hw, Option.getD_some]
  · rw [if_neg hi, Array.getElem?_eq_none_iff.2 (by omega)]
    exact stays_fail_pure _ _ m hm ht

lemma stays_writeGlobal (h : ∀ t, P t → Q t) :
    Stays limit P (Part.writeGlobal i w) (Exec.writeGlobal i w) Q := by
  refine .get_bind fun m hm ht => ?_
  show Bounded limit (if i < m.image.globalCount then _ else _)
    (if i < m.globals.size then _ else _) Q m
  rw [hm]
  split
  case isTrue hi =>
    refine .single ⟨rfl, rfl, ?_⟩ rfl hi (h _ ht)
    show (m.globals.setIfInBounds i w).size = m.image.globalCount
    rwa [Array.size_setIfInBounds]
  case isFalse => exact stays_fail _ h m hm ht

lemma State.local_lt {m : State} (hi : i < m.locals.toNat) (hlimit : 513 ≤ limit) :
    m.frame.toNat + 3 + i < limit := by
  have hframe : m.frame.toNat < 256 := m.frame.toNat_lt
  have hlocs : m.locals.toNat < 256 := m.locals.toNat_lt
  omega

lemma stays_readLocal (hlimit : 513 ≤ limit) :
    Stays limit P (Part.readLocal i) (Exec.readLocal i) P := by
  refine .get_bind fun m hm ht => ?_
  show Bounded limit (if i < m.locals.toNat then _ else _) _ P m
  split
  case isTrue hi => exact .single ⟨rfl, rfl, hm⟩ rfl (State.local_lt i hi hlimit) ht
  case isFalse => exact stays_fail_pure _ _ m hm ht

lemma stays_writeLocal (hlimit : 513 ≤ limit) (h : ∀ t, P t → Q t) :
    Stays limit P (Part.writeLocal i w) (Exec.writeLocal i w) Q := by
  refine .get_bind fun m hm ht => ?_
  show Bounded limit (if i < m.locals.toNat then _ else _) _ Q m
  split
  case isTrue hi => exact .single ⟨rfl, rfl, hm⟩ rfl (State.local_lt i hi hlimit) (h _ ht)
  case isFalse => exact stays_fail _ h m hm ht

lemma stays_popFrame (hlimit : 258 ≤ limit) :
    Stays limit P Part.popFrame Exec.popFrame (· ≤ 255) := by
  intro m hm _
  have hframe : m.frame.toNat < 256 := m.frame.toNat_lt
  refine ⟨⟨rfl, rfl, hm⟩, ?_, ?_⟩
  · intro x hx
    have hwords : x ∈ [Access.word m.frame.toNat, .word (m.frame.toNat + 1),
        .word (m.frame.toNat + 2)] := hx
    simp only [List.mem_cons, List.not_mem_nil, or_false] at hwords
    rcases hwords with rfl | rfl | rfl <;> simp only [Access.Inside] <;> omega
  · show m.frame.toUInt16.toNat ≤ 255
    rw [UInt8.toNat_toUInt16]
    omega

lemma stays_withAddress {p : UInt16 → Part Unit} {e : UInt16 → Exec Unit}
    (h : ∀ address, Stays limit P (p address) (e address) Q) (hkeep : ∀ t, P t → Q t) :
    Stays limit P (Part.withAddress p) (Exec.withAddress e) Q := by
  refine (stays_fetch 2).bind fun n => .get_bind fun m hm ht => ?_
  exact Stays.ite ((stays_fail .overstep hkeep).returns _) ((h n.toUInt16).returns _) m hm ht

lemma stays_jumpIf (test : UInt32 → Bool) :
    Confined limit (Part.jumpIf test) (Exec.jumpIf test) := by
  refine stays_withAddress (fun address => ?_) fun _ ht => ht
  have hpop : Confined limit Part.pop Exec.pop :=
    stays_pop (fun t ht => ⟨ht, by omega⟩) fun ht => ht
  exact hpop.bind fun _ => .ite (stays_jump address) (.pure (fun _ ht => ht) ())

/-! ## Operations that take or put words -/

section

variable (hlimit : 259 ≤ limit)

include hlimit

lemma stays_take : Stays limit (· ≤ limit) Part.popOperand Exec.popOperand (· < limit) :=
  stays_popOperand (fun _ ht => ⟨ht, ht⟩) fun _ ht _ => by omega

lemma stays_takeMore : Stays limit (· < limit) Part.popOperand Exec.popOperand (· < limit) :=
  (stays_take hlimit).weaken fun _ ht => ht.le

omit hlimit in
lemma stays_put : Stays limit (· < limit) (Part.push w) (Exec.push w) (· ≤ limit) :=
  stays_push w (fun _ ht _ => ⟨ht, ht⟩) fun _ ht _ => ht.le

omit hlimit in
lemma stays_waitIf (actions : List Action) (h : ∀ t, P t → Q t) : Stays limit P
      (do
        if andWait then Part.wait .allJoints
        return actions)
      (do
        if andWait then Exec.wait .allJoints
        return actions) Q := by
  cases andWait with
  | false => exact .pure h _
  | true => exact (stays_wait _ h).returns _

lemma stays_movePose : Confined limit (Part.movePose andWait) (Exec.movePose andWait) := by
  refine (stays_take hlimit).bind fun tilt => (stays_takeMore hlimit).bind fun z =>
    (stays_takeMore hlimit).bind fun y => (stays_takeMore hlimit).bind fun x => ?_
  rcases reach ⟨⟨x⟩, ⟨y⟩, ⟨z⟩, toRadians ⟨tilt⟩⟩ with ⟨outcome, angles⟩
  cases outcome with
  | ok => exact stays_waitIf andWait _ fun _ => le_of_lt
  | _ => exact .pure (fun _ => le_of_lt) _

lemma stays_moveJoints : Confined limit (Part.moveJoints andWait) (Exec.moveJoints andWait) :=
  (stays_take hlimit).bind fun _ => (stays_takeMore hlimit).bind fun _ =>
    (stays_takeMore hlimit).bind fun _ => (stays_takeMore hlimit).bind fun _ =>
      (stays_takeMore hlimit).bind fun _ => (stays_takeMore hlimit).bind fun _ =>
        stays_waitIf andWait _ fun _ => le_of_lt

lemma stays_showNumber : Confined limit Part.showNumber Exec.showNumber :=
  (stays_take hlimit).bind fun _ => (stays_takeMore hlimit).bind fun _ =>
    (stays_takeMore hlimit).bind fun _ => (stays_takeMore hlimit).bind fun _ =>
      .pure (fun _ => le_of_lt) _

lemma stays_popJoint : Confined limit Part.popJoint Exec.popJoint :=
  (stays_take hlimit).bind fun _ => (stays_takeMore hlimit).bind fun _ =>
    .pure (fun _ => le_of_lt) _

end

lemma stays_unary (f : UInt32 → UInt32) (hlimit : 259 ≤ limit) :
    Confined limit (Part.unary f) (Exec.unary f) :=
  (stays_take hlimit).bind fun _ => (stays_put _).returns _

lemma stays_binary (f : UInt32 → UInt32 → UInt32) (hlimit : 259 ≤ limit) :
    Confined limit (Part.binary f) (Exec.binary f) :=
  (stays_take hlimit).bind fun _ => (stays_takeMore hlimit).bind fun _ =>
    (stays_put _).returns _

end

end ArmStudio.Machine

namespace ArmStudio.Code

/-- What an operation does with the words of the stack first. -/
inductive StackUse where
  | rests
  | puts
  | takes
  | branches
  | calls
  deriving DecidableEq

def Opcode.use : Opcode → StackUse
  | nop | halt | jmp | enter | ret0 | rst | wait | gripperOpen | gripperClose | label => .rests
  | loadk | loadg | loadl | immi | immf => .puts
  | jz | jnz => .branches
  | call => .calls
  | _ => .takes

end ArmStudio.Code

namespace ArmStudio.Machine

open Code Number Motion

section

variable {limit b count : Nat} {P Q : Nat → Prop} {op : Opcode} (sensors : Sensors) (back : UInt16)

/-- Operations that start with a push touch nothing else outside the words of the locals. -/
theorem stays_puts (huse : op.use = .puts) (hlimit : 513 ≤ limit)
    (hpush : ∀ w, Stays limit P (Part.push w) (Exec.push w) Q) :
    Stays limit P (Part.perform sensors op) (Exec.perform sensors op) Q := by
  cases op with
  | loadk => exact ((stays_fetch 2).bind fun i => (stays_readConstant i).bind hpush).quietly
  | loadg => exact ((stays_fetch 2).bind fun i => (stays_readGlobal i).bind hpush).quietly
  | loadl => exact ((stays_fetch 1).bind fun i => (stays_readLocal i hlimit).bind hpush).quietly
  | immi | immf => exact ((stays_fetch 4).bind fun n => hpush n.toUInt32).quietly
  | _ => cases huse

/-- Operations that start with a pop stay inside as long as there are no more words than `limit`. -/
theorem stays_takes (huse : op.use = .takes) (hlimit : 513 ≤ limit) :
    Confined limit (Part.perform sensors op) (Exec.perform sensors op) := by
  have hwide : 259 ≤ limit := by omega
  have htake := stays_take hwide
  cases op with
  | ret =>
    refine (htake.bind fun w => (stays_popFrame (by omega)).bind fun _ => ?_).quietly
    exact (stays_put w).weaken fun t ht => by omega
  | pop =>
    refine Stays.quietly (.discard (stays_pop (fun _ ht => ⟨ht, ?_⟩) fun ht => ht))
    exact Nat.le_of_succ_le ht
  | storl =>
    exact ((stays_fetch 1).bind fun i => htake.bind fun w =>
      stays_writeLocal i w hlimit fun _ => le_of_lt).quietly
  | storg =>
    exact ((stays_fetch 2).bind fun i => htake.bind fun w =>
      stays_writeGlobal i w fun _ => le_of_lt).quietly
  | ineg | fneg | lnot | i2f | f2i => exact stays_unary _ hwide
  | delay => exact htake.bind fun _ => (stays_wait _ fun _ => le_of_lt).returns _
  | waitj => exact (htake.bind fun id => stays_waitJoint id fun _ => le_of_lt).quietly
  | movj =>
    exact (stays_popJoint hwide).bind fun r => (stays_waitJoint r.1 fun _ ht => ht).returns _
  | setj | setjspd => exact (stays_popJoint hwide).returns _
  | readj => exact (htake.bind fun _ => stays_put _).quietly
  | movoc | setoc => exact stays_movePose _ hwide
  | movjc | setjc => exact stays_moveJoints _ hwide
  | oledi => exact stays_showNumber hwide
  | print =>
    refine Stays.quietly (.discard (stays_popOperand (fun _ ht => ⟨ht, ?_⟩) fun _ _ ht => ht))
    exact Nat.le_of_succ_le ht
  | nop | halt | jmp | enter | ret0 | rst | wait | gripperOpen | gripperClose | label | loadk
  | loadg | loadl | immi | immf | jz | jnz | call => cases huse
  | _ => exact stays_binary _ hwide

lemma stays_rests (huse : op.use = .rests) (hlimit : 258 ≤ limit) :
    Stays limit (· ≤ stackSize + 1) (Part.perform sensors op) (Exec.perform sensors op)
      (· ≤ stackSize + 1) := by
  have hkeep : ∀ t, t ≤ stackSize + 1 → t ≤ stackSize + 1 := fun _ ht => ht
  cases op with
  | nop | rst | gripperOpen | gripperClose => exact .pure hkeep _
  | halt | label => exact (stays_fail _ hkeep).quietly
  | jmp => exact stays_withAddress stays_jump hkeep
  | wait => exact (stays_wait _ hkeep).quietly
  | ret0 =>
    refine ((stays_popFrame hlimit).conclude fun t ht => ?_).quietly
    exact ht.trans (by decide)
  | enter =>
    refine .quietly (.bind_result (stays_fetch 1) fun m0 =>
      .modify (fun _ => rfl) (fun _ => rfl) ?_)
    intro m _
    have hcount := fetch_byte_lt m0
    have hframe : m.frame.toNat < 256 := m.frame.toNat_lt
    have hbig : stackSize = 1024 := rfl
    show (m.frame.toUInt16 + 3 + (Exec.fetch 1 m0).1.toUInt16).toNat ≤ stackSize + 1
    rw [UInt16.toNat_add, UInt16.toNat_add, UInt8.toNat_toUInt16, UInt16.toNat_ofNat']
    simp only [UInt16.reduceToNat]
    omega
  | _ => cases huse

/-! ## Calls -/

lemma stays_popMany {a : Nat} (n : Nat) (acc : List UInt32) (hb : b ≤ limit) :
    Stays limit (fun t => a ≤ t ∧ t ≤ b) (Part.popMany n acc) (Exec.popMany n acc)
      (fun t => a - n ≤ t ∧ t ≤ b - n) := by
  induction n generalizing acc a b with
  | zero => exact .pure (fun _ ht => ht) acc
  | succ n ih =>
    have hpop : Stays limit (fun t => a ≤ t ∧ t ≤ b) Part.pop Exec.pop
        (fun t => a - 1 ≤ t ∧ t ≤ b - 1) :=
      stays_pop (fun t ht => by omega) fun ht => by omega
    refine (hpop.bind fun w => ih (w :: acc) (by omega)).conclude fun t ht => ?_
    omega

lemma length_popMany (n : Nat) (acc : List UInt32) (m : State) :
    (Exec.popMany n acc m).1.length = acc.length + n := by
  induction n generalizing acc m with
  | zero => rfl
  | succ n ih =>
    have hnext := ih ((Exec.pop m).1 :: acc) (Exec.pop m).2
    rw [List.length_cons] at hnext
    exact hnext.trans (by omega)

lemma stays_pushMany (ws : List UInt32) (hb : b + ws.length ≤ limit) :
    Stays limit (· ≤ b) (Part.pushMany ws) (Exec.pushMany ws) (· ≤ b + ws.length) := by
  induction ws generalizing b with
  | nil => exact .pure (fun _ ht => ht) ()
  | cons w rest ih =>
    rw [List.length_cons] at hb ⊢
    have hpush : Stays limit (· ≤ b) (Part.push w) (Exec.push w) (· ≤ b + 1) :=
      stays_push w (fun t ht _ => ⟨by omega, by omega⟩) fun t ht _ => by omega
    refine (hpush.bind fun _ => ih (by omega)).conclude fun t ht => ?_
    omega

lemma stays_pushFrame {P1 P2 P3 P4 : Nat → Prop}
    (hpop : Stays limit P (Part.popMany count []) (Exec.popMany count []) P1)
    (hback : ∀ w, Stays limit P1 (Part.push w) (Exec.push w) P2)
    (hframe : ∀ w, Stays limit P2 (Part.push w) (Exec.push w) P3)
    (hlocs : ∀ w, Stays limit P3 (Part.push w) (Exec.push w) P4)
    (hargs : ∀ ws, ws.length = count → Stays limit P4 (Part.pushMany ws) (Exec.pushMany ws) Q) :
    Stays limit P (Part.pushFrame back count) (Exec.pushFrame back count) Q := by
  refine hpop.bind_result fun m0 => (hback _).bind fun _ => .get_bind fun m hm ht => ?_
  refine ((hframe m.frame.toUInt32).bind fun _ => ?_) m hm ht
  refine Stays.bind (.modify (fun _ => rfl) (fun _ => rfl) fun _ ht => ht) fun _ =>
    .get_bind fun m' hm' ht' => ?_
  refine ((hlocs m'.locals.toUInt32).bind fun _ => hargs _ ?_) m' hm' ht'
  simpa using length_popMany count [] m0

lemma stays_pushFrame_low (hcount : count ≤ b) (hb : b + 3 ≤ limit) :
    Stays limit (· ≤ b) (Part.pushFrame back count) (Exec.pushFrame back count) (· ≤ b + 3) := by
  have hpush : ∀ c, c < limit → ∀ w, Stays limit (· ≤ c) (Part.push w) (Exec.push w) (· ≤ c + 1) :=
    fun c hc w => stays_push w (fun t ht _ => ⟨by omega, by omega⟩) fun t ht _ => by omega
  have hpop : Stays limit (· ≤ b) (Part.popMany count []) (Exec.popMany count []) (· ≤ b - count) :=
    ((stays_popMany count [] (show b ≤ limit by omega)).weaken fun t ht =>
      ⟨zero_le, ht⟩).conclude fun t ht => ht.2
  refine stays_pushFrame back hpop (hpush _ (by omega)) (hpush _ (by omega)) (hpush _ (by omega)) ?_
  intro ws hws
  exact (stays_pushMany ws (by omega)).conclude fun t ht => by omega

lemma stays_pushFrame_spare (count : Nat) :
    Confined (stackSize + 1) (Part.pushFrame back count) (Exec.pushFrame back count) := by
  have hpush : ∀ w, Confined (stackSize + 1) (Part.push w) (Exec.push w) :=
    fun w => stays_push w (fun t _ hle => ⟨by omega, by omega⟩) fun t ht _ => ht
  refine stays_pushFrame back ?_ hpush hpush hpush ?_
  · exact ((stays_popMany count [] le_rfl).weaken fun t ht =>
      ⟨zero_le, ht⟩).conclude fun t ht => by omega
  · -- Full or not, each push leaves the top where it may be, whatever the number of arguments.
    intro ws hws
    clear hws
    induction ws with
    | nil => exact .pure (fun _ ht => ht) ()
    | cons w rest ih => exact (hpush w).bind fun _ => ih

lemma stays_pushFrame_behind :
    Stays limit (· = stackSize + 1) (Part.pushFrame back 0) (Exec.pushFrame back 0)
      (· = stackSize + 1) := by
  have hpush : ∀ w, Stays limit (· = stackSize + 1) (Part.push w) (Exec.push w)
      (· = stackSize + 1) :=
    fun w => stays_push w (fun t ht hle => by omega) fun t ht _ => ht
  refine stays_pushFrame back (.pure (fun _ ht => ht) []) hpush hpush hpush ?_
  intro ws hws
  obtain rfl := List.eq_nil_of_length_eq_zero hws
  exact .pure (fun _ ht => ht) ()

lemma stays_callTo (address : UInt16) :
    Confined (stackSize + 1) (Part.callTo address) (Exec.callTo address) := by
  refine (stays_fetch 1).bind fun count => .get_bind fun m hm ht => ?_
  exact ((stays_pushFrame_spare m.pc count).bind fun _ => stays_jump address) m hm ht

lemma stays_perform (op : Opcode) :
    Confined (stackSize + 1) (Part.perform sensors op) (Exec.perform sensors op) := by
  cases huse : op.use with
  | rests => exact stays_rests sensors huse (by decide)
  | puts =>
    refine stays_puts sensors huse (by decide) fun w => ?_
    exact stays_push w (fun t _ hle => ⟨by omega, by omega⟩) fun t ht _ => ht
  | takes => exact stays_takes sensors huse (by decide)
  | branches =>
    cases op with
    | jz | jnz => exact stays_jumpIf _
    | _ => cases huse
  | calls =>
    cases op with
    | call => exact stays_withAddress stays_callTo fun _ ht => ht
    | _ => cases huse

lemma stays_operate : Confined (stackSize + 1) (Part.operate sensors) (Exec.operate sensors) := by
  refine (stays_fetch 1).bind fun n => ?_
  cases Opcode.ofCode? n.toUInt8 with
  | some op => exact stays_perform sensors op
  | none => exact (stays_fail _ fun _ ht => ht).quietly

lemma stays_poll : Stays limit P (Part.poll sensors) (Exec.poll sensors) P := by
  refine .get_bind fun m hm ht => ?_
  exact Stays.ite ((stays_wait .nothing fun _ ht => ht).returns _)
    (.pure (fun _ ht => ht) []) m hm ht

lemma stays_step : Confined (stackSize + 1) (Part.step sensors) (State.step sensors) := by
  rw [step_eq_get]
  refine .get_bind fun m hm ht => ?_
  exact Stays.ite (stays_operate sensors) (stays_poll sensors) m hm ht

end

end ArmStudio.Machine
