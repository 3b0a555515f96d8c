import ArmStudio.Proofs.Frames
import ArmStudio.Proofs.IntegerCode

/-!
# Steps of the machine inside a frame

The instructions that integer code is made of, inside a frame and whatever lies on the stack: what
they leave on the stack and in the places of variables, and that they touch nothing else.
-/

namespace ArmStudio.Machine

open Code Script Array State Exec Option

lemma toUInt32_inj (a b : Int32) : a.toUInt32 = b.toUInt32 ↔ a = b := by
  constructor
  · intro h
    have := congrArg UInt32.toInt32 h
    simpa using this
  · rintro rfl
    rfl

lemma ofBool_eq (b : Bool) : ofBool b = (truthValue b).toUInt32 := by
  cases b <;> rfl

lemma toUInt32_lowBytes (n : Int) : (Image.lowBytes 4 n).toUInt32 = (Int32.ofInt n).toUInt32 := by
  rw [← UInt32.toNat_inj, Image.lowBytes_four]
  show _ = (BitVec.ofInt 32 n).toNat
  rw [BitVec.toNat_ofInt]
  simp
  omega

lemma perform_unaryOpcode {op f} (h : unaryMeaning op = some f) (sensors : Sensors) :
    ∃ g, perform sensors (unaryOpcode op) = unary g ∧
      ∀ v : Int32, g v.toUInt32 = (f v).toUInt32 := by
  cases op <;> simp only [unaryMeaning, some.injEq, reduceCtorEq] at h
  case logicalNot =>
    subst h
    refine ⟨_, rfl, fun v => ?_⟩
    have hzero : (v.toUInt32 == 0) = (v == 0) := by
      rw [Bool.eq_iff_iff, beq_iff_eq, beq_iff_eq]
      exact toUInt32_inj v 0
    rw [hzero, ofBool_eq]
  case minus =>
    subst h
    refine ⟨_, rfl, fun v => ?_⟩
    simp [signed]

lemma perform_binaryOpcode {op f} (h : binaryMeaning op = some f) (sensors : Sensors) :
    ∃ g, perform sensors (binaryOpcode op) = binary g ∧
      ∀ v w : Int32, g v.toUInt32 w.toUInt32 = (f v w).toUInt32 := by
  cases op <;> simp only [binaryMeaning, some.injEq, reduceCtorEq] at h <;> subst h <;>
    exact ⟨_, rfl, fun v w => by simp [signed, ofBool_eq]⟩

/-! ## Steps with the machine running -/

section

variable {image : Image} {place : String → Int} {a b : Nat} {m m' : State} {rest : List Instr}

lemma State.At.same (hm : m.At image a) (himage : m'.image = m.image) (hpc : m'.pc = m.pc)
    (hwait : m'.waiting = m.waiting) (hstatus : m'.status = m.status) : m'.At image a :=
  ⟨himage.trans hm.image, by rw [hpc, hm.pc], hwait.trans hm.idle, hstatus.trans hm.running⟩

lemma State.At.goto (hm : m.At image a) (hb : b < image.codeSize.toNat) :
    (m.goto b.toUInt16).At image b := by
  have hlt : b < 65536 := lt_trans hb image.codeSize.toNat_lt
  exact ⟨hm.image, by simp [Nat.mod_eq_of_lt hlt], hm.idle, hm.running⟩

lemma State.At.behind (hm : m.At image a) {i : Instr} {k : Nat}
    (hc : image.CodeAt place a (i :: rest)) (hk : i.width = k) :
    (m.advance k).At image (a + k) := by
  have hend : a + i.width ≤ image.codeSize.toNat := by
    have := hc.1.2.1.1
    rwa [hc.1.1.length_encoded] at this
  exact hm.advance (hk ▸ hend)

end

/-- A number of steps lead from one state to the other, whatever the hardware answers, and the
machine is running all the way and waits for nothing. -/
def Leads (n : Nat) (m m' : State) : Prop := ∀ sensors, m.after sensors n = m' ∧
    ∀ k ≤ n, (m.after sensors k).waiting = .nothing ∧ (m.after sensors k).status = .running

/-- A number of steps lead to an address and a state with a property. -/
def Arrives (image : Image) (n : Nat) (m : State) (b : Nat) (Q : State → Prop) : Prop :=
  ∃ m', Leads n m m' ∧ m'.At image b ∧ Q m'

section

variable {image : Image} {a b c n k : Nat} {m m1 m2 : State} {Q R : State → Prop}

lemma Leads.trans (h : Leads n m m1) (h' : Leads k m1 m2) : Leads (n + k) m m2 := by
  intro sensors
  obtain ⟨hend, hway⟩ := h sensors
  obtain ⟨hend', hway'⟩ := h' fun i => sensors (n + i)
  refine ⟨by rw [after_add, hend, hend'], fun i hi => ?_⟩
  by_cases hin : i ≤ n
  · exact hway i hin
  · obtain ⟨j, rfl⟩ := Nat.exists_eq_add_of_le (Nat.le_of_not_le hin)
    rw [after_add, hend]
    exact hway' j (by omega)

lemma Leads.step (hm : m.At image a) (hstep : ∀ sensors, (m.step sensors).2 = m1)
    (hm1 : m1.At image b) : Leads 1 m m1 := by
  intro sensors
  refine ⟨hstep _, fun i hi => ?_⟩
  rcases Nat.le_one_iff_eq_zero_or_eq_one.1 hi with rfl | rfl
  · exact ⟨hm.idle, hm.running⟩
  · rw [show m.after sensors 1 = m1 from hstep _]
    exact ⟨hm1.idle, hm1.running⟩

lemma Leads.runs (h : Leads n m m1) (sensors : Sensors) : Runs sensors m m1 := by
  obtain ⟨rfl, hway⟩ := h fun _ => sensors
  clear h
  induction n with
  | zero => exact .refl m
  | succ n ih =>
    obtain ⟨hidle, hrun⟩ := hway n (Nat.le_succ n)
    exact (ih fun k hk => hway k (Nat.le_succ_of_le hk)).tail ⟨hidle, hrun, rfl⟩

lemma Arrives.refl (hm : m.At image a) (hq : Q m) : Arrives image 0 m a Q :=
  ⟨m, fun sensors => ⟨rfl, fun i hi => by rw [Nat.le_zero.1 hi]; exact ⟨hm.idle, hm.running⟩⟩,
    hm, hq⟩

lemma Arrives.step (hm : m.At image a) (hstep : ∀ sensors, (m.step sensors).2 = m1)
    (hm1 : m1.At image b) (hq : Q m1) : Arrives image 1 m b Q :=
  ⟨m1, .step hm hstep hm1, hm1, hq⟩

lemma Arrives.trans (h : Arrives image n m b Q)
    (hnext : ∀ m', m'.At image b → Q m' → Arrives image k m' c R) :
    Arrives image (n + k) m c R := by
  obtain ⟨m1, hleads, hat, hq⟩ := h
  obtain ⟨m2, hleads', hat', hr⟩ := hnext m1 hat hq
  exact ⟨m2, hleads.trans hleads', hat', hr⟩

lemma Arrives.imp (h : Arrives image n m b Q) (himp : ∀ m', Q m' → R m') :
    Arrives image n m b R := by
  obtain ⟨m1, hleads, hat, hq⟩ := h
  exact ⟨m1, hleads, hat, himp m1 hq⟩

end

/-! ## Places of variables -/

namespace State

/-- The word that the machine has in a cell. -/
def wordIn (m : State) : Cell → Option UInt32
  | .global i => m.globals[i]?
  | .slot i => m.stack[m.frame.toNat + 3 + i]?

/-- The machine has the place of a variable: a global, or a local of the current frame. -/
def Covers (m : State) : Cell → Prop
  | .global i => i < m.globals.size
  | .slot i => i < m.locals.toNat

end State

/-- The machine is inside a frame with `h` words on the stack, and the places of variables have
these values. -/
structure Within (s : Cell → Int32) (h : Nat) (m : State) : Prop where
  size : m.stack.size = stackSize + 1
  top : m.top.toNat = h
  inside : m.frame.toNat + 3 + m.locals.toNat ≤ h
  few : m.globals.size ≤ 65536
  values : ∀ c, m.Covers c → m.wordIn c = some (s c).toUInt32

/-- Between two states only these places changed, as far as globals and the first `h` words of the
stack are concerned. -/
structure Unchanged (cells : List Cell) (h : Nat) (m m' : State) : Prop where
  frame : m'.frame = m.frame
  locals : m'.locals = m.locals
  globalCount : m'.globals.size = m.globals.size
  below : ∀ i < h, (∀ j, i = m.frame.toNat + 3 + j → Cell.slot j ∉ cells) →
    m'.stack[i]? = m.stack[i]?
  globals : ∀ i, Cell.global i ∉ cells → m'.globals[i]? = m.globals[i]?

namespace Unchanged

variable {xs ys : List Cell} {h h' : Nat} {m m1 m2 : State}

lemma covers (hu : Unchanged xs h m m1) {c : Cell} (hc : m.Covers c) : m1.Covers c := by
  cases c with
  | global i => exact lt_of_lt_of_eq hc hu.globalCount.symm
  | slot i => exact lt_of_lt_of_eq hc (congrArg UInt8.toNat hu.locals.symm)

lemma inside {s : Cell → Int32} (hu : Unchanged xs h m m1) (hw : Within s h' m) :
    m1.frame.toNat + 3 + m1.locals.toNat ≤ h' := by
  rw [hu.frame, hu.locals]
  exact hw.inside

lemma trans (hu : Unchanged xs h m m1) (hu' : Unchanged ys h' m1 m2) (hle : h ≤ h') :
    Unchanged (xs ++ ys) h m m2 := by
  refine ⟨hu'.frame.trans hu.frame, hu'.locals.trans hu.locals,
    hu'.globalCount.trans hu.globalCount, fun i hi hcells => ?_, fun i hcells => ?_⟩
  · rw [hu'.below i (by omega) fun j hj hmem => ?_, hu.below i hi fun j hj hmem => ?_]
    · exact hcells j hj (List.mem_append_left _ hmem)
    · exact hcells j (hu.frame ▸ hj) (List.mem_append_right _ hmem)
  · rw [List.mem_append, not_or] at hcells
    rw [hu'.globals i hcells.2, hu.globals i hcells.1]

variable (m : State)

lemma refl (h : Nat) : Unchanged [] h m m :=
  ⟨rfl, rfl, rfl, fun _ _ _ => rfl, fun _ _ => rfl⟩

lemma advance (h k : Nat) : Unchanged [] h m (m.advance k) :=
  ⟨rfl, rfl, rfl, fun _ _ _ => rfl, fun _ _ => rfl⟩

lemma popped (h : Nat) : Unchanged [] h m m.popped :=
  ⟨rfl, rfl, rfl, fun _ _ _ => rfl, fun _ _ => rfl⟩

lemma advance_popped (h k : Nat) : Unchanged [] h m (m.advance k).popped :=
  (advance m h k).trans (popped _ h) le_rfl

end Unchanged

namespace Within

variable {s : Cell → Int32} {h : Nat} {m : State} (hw : Within s h m)

include hw

lemma advance (k : Nat) : Within s h (m.advance k) :=
  ⟨hw.size, hw.top, hw.inside, hw.few, hw.values⟩

lemma slot_lt {j : Nat} (hj : m.Covers (.slot j)) : m.frame.toNat + 3 + j < h := by
  have hlt : j < m.locals.toNat := hj
  have := hw.inside
  omega

lemma pushed (w : UInt32) (hroom : h ≤ stackSize) :
    Within s (h + 1) (m.pushed w) ∧ (m.pushed w).stack[h]? = some w ∧
      Unchanged [] h m (m.pushed w) := by
  have hsize := hw.size
  have hbound : stackSize + 1 < 65536 := by decide
  have hsame (i : Nat) (hi : i < h) : (m.pushed w).stack[i]? = m.stack[i]? := by
    rw [pushed_stack, hw.top, getElem?_setIfInBounds_ne (by omega)]
  refine ⟨⟨?_, ?_, ?_, hw.few, fun c hc => ?_⟩, ?_, rfl, rfl, rfl, fun i hi _ => hsame i hi,
    fun _ _ => rfl⟩
  · simpa using hsize
  · rw [toNat_pushed_top w (by rw [hw.top]; omega), hw.top]
  · exact Nat.le_succ_of_le hw.inside
  · rw [← hw.values c hc]
    cases c with
    | global i => rfl
    | slot i => exact hsame _ (hw.slot_lt hc)
  · rw [pushed_stack, hw.top, getElem?_setIfInBounds_self_of_lt (by omega)]

omit hw in
lemma popped (hw : Within s (h + 1) m) (hinside : m.frame.toNat + 3 + m.locals.toNat ≤ h) :
    Within s h m.popped :=
  ⟨hw.size, popped_top hw.top, hinside, hw.few, hw.values⟩

lemma stored {i : Nat} (hi : m.Covers (.slot i)) (v : Int32) :
    Within (fun c => if c = .slot i then v else s c) h (m.stored i v.toUInt32) ∧
      Unchanged [.slot i] h m (m.stored i v.toUInt32) := by
  have hin := (Array.getElem?_eq_some_iff.1 (hw.values _ hi)).1
  have hother (k : Nat) (hk : m.frame.toNat + 3 + i ≠ k) :
      (m.stored i v.toUInt32).stack[k]? = m.stack[k]? := getElem?_setIfInBounds_ne hk
  refine ⟨⟨?_, hw.top, hw.inside, hw.few, fun c hc => ?_⟩, rfl, rfl, rfl, fun k _ hcells => ?_,
    fun _ _ => rfl⟩
  · simpa [State.stored] using hw.size
  · by_cases hci : c = .slot i
    · subst hci
      rw [if_pos rfl]
      exact getElem?_setIfInBounds_self_of_lt hin
    · rw [if_neg hci, ← hw.values c hc]
      cases c with
      | global j => rfl
      | slot j =>
        have hji : j ≠ i := fun heq => hci (by rw [heq])
        exact hother _ (show m.frame.toNat + 3 + i ≠ m.frame.toNat + 3 + j by omega)
  · exact hother k fun heq => hcells i heq.symm (by simp)

lemma assigned {i : Nat} (hi : m.Covers (.global i)) (v : Int32) :
    Within (fun c => if c = .global i then v else s c) h (m.assigned i v.toUInt32) ∧
      Unchanged [.global i] h m (m.assigned i v.toUInt32) := by
  have hother (k : Nat) (hk : i ≠ k) :
      (m.assigned i v.toUInt32).globals[k]? = m.globals[k]? := getElem?_setIfInBounds_ne hk
  have hcount : (m.assigned i v.toUInt32).globals.size = m.globals.size := by simp [State.assigned]
  refine ⟨⟨hw.size, hw.top, hw.inside, by rw [hcount]; exact hw.few, fun c hc => ?_⟩, rfl, rfl,
    hcount, fun _ _ _ => rfl, fun k hcells => ?_⟩
  · by_cases hci : c = .global i
    · subst hci
      rw [if_pos rfl]
      exact getElem?_setIfInBounds_self_of_lt hi
    · rw [if_neg hci]
      cases c with
      | slot j => exact hw.values (.slot j) hc
      | global j =>
        have hj : m.Covers (.global j) := lt_of_lt_of_eq hc hcount
        rw [← hw.values (.global j) hj]
        exact hother j fun heq => hci (by rw [heq])
  · exact hother k (by rintro rfl; simp at hcells)

end Within

def State.valueIn (m : State) (c : Cell) : Int32 := ((m.wordIn c).getD 0).toInt32

lemma within_valueIn {m : State} (hsize : m.stack.size = stackSize + 1)
    (hinside : m.frame.toNat + 3 + m.locals.toNat ≤ m.top.toNat) (hfew : m.globals.size ≤ 65536) :
    Within m.valueIn m.top.toNat m := by
  refine ⟨hsize, rfl, hinside, hfew, fun c hc => ?_⟩
  have hsome : ∃ w, m.wordIn c = some w := by
    cases c with
    | global i => exact ⟨_, getElem?_eq_getElem hc⟩
    | slot i =>
      -- The frame's place and the number of its locals have eight bits, so slots are on the stack.
      have hlt : i < m.locals.toNat := hc
      have hsmall : stackSize = 1024 := rfl
      have := m.frame.toNat_lt
      have := m.locals.toNat_lt
      exact ⟨_, getElem?_eq_getElem (by omega)⟩
  obtain ⟨w, hw⟩ := hsome
  simp [valueIn, hw]

/-! ## Parts of expressions -/

/-- What the code of an expression leaves: these values in the places of variables, the result on
top of the stack where it is wanted, and no changes but in these places. -/
structure Results (s : Cell → Int32) (v : Int32) (wanted : Bool) (cells : List Cell) (h : Nat)
    (m m' : State) : Prop where
  within : Within s (if wanted then h + 1 else h) m'
  value : wanted → m'.stack[h]? = some v.toUInt32
  unchanged : Unchanged cells h m m'

section

variable {image : Image} {place : String → Int} {a h : Nat} {s : Cell → Int32} {v : Int32}
  {m m0 : State} {rest : List Instr} {cells : List Cell} {wanted : Bool}

lemma Within.results (hw : Within s h m) (v : Int32) (hroom : h ≤ stackSize) :
    Results s v true [] h m (m.pushed v.toUInt32) := by
  obtain ⟨hwithin, hval, hunchanged⟩ := hw.pushed v.toUInt32 hroom
  exact ⟨hwithin, fun _ => hval, hunchanged⟩

lemma Results.append_nil {m' : State} (hr : Results s v wanted (cells ++ []) h m m') :
    Results s v wanted cells h m m' := by
  rwa [List.append_nil] at hr

lemma Results.behind {m1 : State} {before : List Cell} (hr : Results s v wanted cells h m m1)
    (hu : Unchanged before h m0 m) : Results s v wanted (before ++ cells) h m0 m1 :=
  ⟨hr.within, hr.value, hu.trans hr.unchanged le_rfl⟩

variable (hm : m.At image a)

include hm

lemma literal_arrives (hw : Within s h m) (hroom : h ≤ stackSize) {n : Int}
    (hc : image.CodeAt place a (literalCode (.int n) :: rest)) :
    Arrives image 1 m (a + 5) (Results s (Int32.ofInt n) true [] h m) := by
  have hstep (sensors : Sensors) := hm.step_immi sensors hc (hw.top ▸ hroom)
  simp only [toUInt32_lowBytes] at hstep
  have hr := (hw.advance 5).results (Int32.ofInt n) hroom
  exact .step hm hstep ((hm.behind hc rfl).same rfl rfl rfl rfl) (hr.behind (.advance m h 5))

variable {c : Cell} {x : String} {symbol : Symbol} {op : Keyword} {e e1 e2 : Expr}
  {code : List Instr}

lemma load_arrives (hw : Within s h m) (hroom : h ≤ stackSize) (hcov : m.Covers c)
    (hc : image.CodeAt place a (c.load :: rest)) :
    Arrives image 1 m (a + c.load.width) (Results s (s c) true [] h m) := by
  have htop : m.top.toNat ≤ stackSize := hw.top ▸ hroom
  have hword := hw.values c hcov
  cases c with
  | slot i =>
    have hstep (sensors : Sensors) := hm.step_loadl sensors hc hcov htop
    have hslot : m.stack[m.frame.toNat + 3 + i]? = some (s (.slot i)).toUInt32 := hword
    simp only [hslot, getD_some] at hstep
    have hr := (hw.advance 2).results (s (.slot i)) hroom
    exact .step hm hstep ((hm.behind hc rfl).same rfl rfl rfl rfl) (hr.behind (.advance m h 2))
  | global i =>
    have hlt : i < 65536 := hcov.trans_le hw.few
    have hstep (sensors : Sensors) := hm.step_loadg sensors hc hlt hword htop
    have hr := (hw.advance 3).results (s (.global i)) hroom
    exact .step hm hstep ((hm.behind hc rfl).same rfl rfl rfl rfl) (hr.behind (.advance m h 3))

lemma store_arrives (hw : Within s (h + 1) m) (hinside : m.frame.toNat + 3 + m.locals.toNat ≤ h)
    (hv : m.stack[h]? = some v.toUInt32) (hcov : m.Covers c)
    (hc : image.CodeAt place a (c.store :: rest)) :
    Arrives image 1 m (a + c.store.width) fun m' =>
      Within (fun d => if d = c then v else s d) h m' ∧ Unchanged [c] h m m' := by
  have hne : h + 1 ≠ m.frame.toNat + 3 := by omega
  cases c with
  | slot i =>
    have hstep (sensors : Sensors) := hm.step_storl sensors hc hcov hw.top hne
    simp only [hv, getD_some] at hstep
    obtain ⟨hwithin, hunchanged⟩ := ((hw.advance 2).popped hinside).stored hcov v
    exact .step hm hstep ((hm.behind hc rfl).same rfl rfl rfl rfl)
      ⟨hwithin, (Unchanged.advance_popped m h 2).trans hunchanged le_rfl⟩
  | global i =>
    have hlt : i < 65536 := hcov.trans_le hw.few
    have hstep (sensors : Sensors) := hm.step_storg sensors hc hlt hcov hw.top hne
    simp only [hv, getD_some] at hstep
    obtain ⟨hwithin, hunchanged⟩ := ((hw.advance 3).popped hinside).assigned hcov v
    exact .step hm hstep ((hm.behind hc rfl).same rfl rfl rfl rfl)
      ⟨hwithin, (Unchanged.advance_popped m h 3).trans hunchanged le_rfl⟩

section

variable (hr : Results s v true cells h m0 m)

include hr

lemma drop_arrives (hinside : m.frame.toNat + 3 + m.locals.toNat ≤ h) (wanted : Bool)
    (hc : image.CodeAt place a (dropUnless wanted)) :
    Arrives image (dropUnless wanted).length m (a + width (dropUnless wanted))
      (Results s v wanted cells h m0) := by
  cases wanted with
  | true => exact .refl hm hr
  | false =>
    have hstep (sensors : Sensors) := hm.step_pop sensors hc hr.within.top
    have hpop := (hr.within.advance 1).popped hinside
    have hdrop : Results s v false [] h m (m.advance 1).popped :=
      ⟨hpop, by simp, .advance_popped m h 1⟩
    exact .step hm hstep ((hm.behind hc rfl).same rfl rfl rfl rfl)
      (hdrop.behind hr.unchanged).append_nil

lemma storeBack_arrives {cell} (hinside : m.frame.toNat + 3 + m.locals.toNat ≤ h)
    (hroom : h ≤ stackSize) (wanted : Bool) (hcov : m.Covers (cell x))
    (hc : image.CodeAt place a (storeBack cell wanted (.var x symbol))) :
    Arrives image (storeBack cell wanted (.var x symbol)).length m
      (a + width (storeBack cell wanted (.var x symbol)))
      (Results (fun d => if d = cell x then v else s d) v wanted (cells ++ [cell x]) h m0) := by
  have hstored := store_arrives hm hr.within hinside (hr.value rfl) hcov hc
  cases wanted with
  | false =>
    refine hstored.imp fun m1 hm1 => ?_
    exact ⟨hm1.1, by simp, hr.unchanged.trans hm1.2 le_rfl⟩
  | true =>
    have hload (m1 : State) (hm1 : m1.At image (a + (cell x).store.width))
        (hq : Within (fun d => if d = cell x then v else s d) h m1 ∧ Unchanged [cell x] h m m1) :
        Arrives image 1 m1 (a + (cell x).store.width + (cell x).load.width)
          (Results (fun d => if d = cell x then v else s d) v true (cells ++ [cell x]) h m0) := by
      refine (load_arrives hm1 hq.1 hroom (hq.2.covers hcov) hc.2).imp fun m2 hr2 => ?_
      rw [if_pos rfl] at hr2
      exact (hr2.behind (hr.unchanged.trans hq.2 le_rfl)).append_nil
    exact add_assoc a _ _ ▸ hstored.trans hload

lemma unary_arrives (hinside : m.frame.toNat + 3 + m.locals.toNat ≤ h) (hroom : h ≤ stackSize)
    {f} (hop : unaryMeaning op = some f)
    (hc : image.CodeAt place a (.plain (unaryOpcode op) :: rest)) :
    Arrives image 1 m (a + 1) (Results s (f v) true cells h m0) := by
  have hwidth := width_plain (unaryOpcode_ne_label op)
  have hstep (sensors : Sensors) :
      (m.step sensors).2 = (m.advance 1).popped.pushed (f v).toUInt32 := by
    obtain ⟨g, hperform, hg⟩ := perform_unaryOpcode hop sensors
    rw [hm.step_unary sensors hperform (unaryOpcode_ne_label op) (isJump_unaryOpcode op) hc
      hr.within.top (by omega) hroom, hr.value rfl, getD_some, hg]
  have hres := ((hr.within.advance 1).popped hinside).results (f v) hroom
  have hbefore := hr.unchanged.trans (.advance_popped m h 1) le_rfl
  rw [List.append_nil] at hbefore
  exact .step hm hstep ((hm.behind hc hwidth).same rfl rfl rfl rfl)
    (hres.behind hbefore).append_nil

end

variable {lower upper : Int32} (hw : Within s (h + 2) m)
  (hlower : m.stack[h]? = some lower.toUInt32) (hupper : m.stack[h + 1]? = some upper.toUInt32)
  (hinside : m.frame.toNat + 3 + m.locals.toNat ≤ h) (hroom : h ≤ stackSize)

include hw hlower hupper hinside hroom

lemma operator_arrives {code} (hlabel : code ≠ .label) (hjump : code.isJump = false)
    (hperform : ∀ sensors, ∃ g, perform sensors code = binary g ∧
      g lower.toUInt32 upper.toUInt32 = v.toUInt32)
    (hc : image.CodeAt place a (.plain code :: rest)) :
    Arrives image 1 m (a + 1) (Results s v true [] h m) := by
  have hstep (sensors : Sensors) :
      (m.step sensors).2 = (m.advance 1).popped.popped.pushed v.toUInt32 := by
    obtain ⟨g, hg, hval⟩ := hperform sensors
    rw [hm.step_binary sensors hg hlabel hjump hc hw.top (by omega) (by omega) hroom, hlower,
      hupper, getD_some, getD_some, hval]
  have hpop := ((hw.advance 1).popped (Nat.le_succ_of_le hinside)).popped hinside
  have hbefore : Unchanged [] h m (m.advance 1).popped.popped :=
    (Unchanged.advance_popped m h 1).trans (.popped _ h) le_rfl
  exact .step hm hstep ((hm.behind hc (width_plain hlabel)).same rfl rfl rfl rfl)
    ((hpop.results v hroom).behind hbefore)

lemma binary_arrives {f} (hop : binaryMeaning op = some f)
    (hc : image.CodeAt place a (.plain (binaryOpcode op) :: rest)) :
    Arrives image 1 m (a + 1) (Results s (f lower upper) true [] h m) := by
  refine operator_arrives hm hw hlower hupper hinside hroom (binaryOpcode_ne_label op)
    (isJump_binaryOpcode op) (fun sensors => ?_) hc
  obtain ⟨g, hg, hval⟩ := perform_binaryOpcode hop sensors
  exact ⟨g, hg, hval lower upper⟩

end

end ArmStudio.Machine
