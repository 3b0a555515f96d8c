import ArmStudio.Proofs.Frames

/-!
# Nested calls

Functions without arguments and locals call each other, one inside the other, and return. A frame
takes three words, but its place is kept in eight bits: what is found as the frame of a call that
was made above word 255 are three words at the bottom of the stack.
-/

namespace ArmStudio.Machine

open Code List State Opcode

namespace State

lemma pushFrame_zero {m : State} (back : UInt16) (hroom : m.top.toNat + 2 ≤ stackSize) :
    Exec.pushFrame back 0 m = ((), m.framed back) := by
  have hsame : ({ m with top := m.top.toNat.toUInt16 } : State) = m := by simp
  rw [pushFrame_eq back (add_zero _).symm hroom, hsame]
  rfl

/-- The machine inside a function without locals that it has just called. -/
def inside (m : State) (back : UInt16) (b : Nat) : State :=
  (((m.framed back).goto b.toUInt16).advance 2).entered 0

section

variable (m : State) (back : UInt16) (b : Nat)

@[simp] lemma inside_image : (m.inside back b).image = m.image := by
  simp only [inside, entered, advance_image, goto_image, framed_image]

@[simp] lemma inside_stack : (m.inside back b).stack = (m.framed back).stack := by
  simp only [inside, entered, advance_stack, goto_stack]

@[simp] lemma inside_frame : (m.inside back b).frame = m.top.toUInt8 := by
  simp only [inside, entered, advance_frame, goto_frame, framed_frame]

lemma size_inside : (m.inside back b).stack.size = m.stack.size := by
  simp only [inside_stack, framed_stack, Array.size_setIfInBounds]

@[simp] lemma unframed_stack : m.unframed.stack = m.stack := by simp only [unframed, returned]

end

lemma toNat_inside_top (m : State) (back : UInt16) (b : Nat) :
    (m.inside back b).top.toNat = m.top.toNat % 256 + 3 := by
  have hlt : m.top.toNat % 256 < 256 := Nat.mod_lt _ (by decide)
  show (m.top.toUInt8.toUInt16 + 3 + (0 : Nat).toUInt16).toNat = _
  simp [UInt16.toNat_add]
  omega

namespace At

variable {image : Image} {a b : Nat} {m : State} (sensors : Sensors)

lemma after_call (hm : At image a m) (sensors : Nat → Sensors)
    (hc : image.Holds a (call.code :: (intBytes 2 b ++ intBytes 1 0)))
    (he : image.Holds b (enter.code :: intBytes 1 0)) (hroom : m.top.toNat + 2 ≤ stackSize) :
    m.after sensors 2 = m.inside (a + 4).toUInt16 b ∧
      (m.inside (a + 4).toUInt16 b).At image (b + 2) := by
  have hb : b < image.codeSize.toNat := he.lt_codeSize
  have hlt : b < 65536 := lt_trans hb image.codeSize.toNat_lt
  have hcall := hm.step_pushFrame (sensors 0) hc hb zero_le
  rw [pushFrame_zero (m := m.advance 4) _ hroom] at hcall
  have hm1 : ((m.framed (a + 4).toUInt16).goto b.toUInt16).At image b :=
    ⟨by simp [hm.image], by simp [Nat.mod_eq_of_lt hlt], by simp [hm.idle], by simp [hm.running]⟩
  constructor
  · show ((m.step (sensors 0)).2.step (sensors 1)).2 = _
    rw [hcall]
    exact hm1.step_enter (sensors 1) (n := 0) he zero_le
  · have hend := he.1
    simp only [length_cons, length_intBytes] at hend
    have hm2 := hm1.advance (show b + 2 ≤ image.codeSize.toNat by omega)
    simp only [inside, entered]
    exact ⟨hm2.image, hm2.pc, hm2.idle, hm2.running⟩

end At

end State

/-! ## The code of nested calls -/

/-- The address behind nested calls: without any, it is where they would start. -/
def behind (a : Nat) : List Nat → Nat
  | [] => a
  | _ :: _ => a + 4

/-- Calls that stand one inside the other. The first stands at `a` and goes to the first target;
there the function starts, with no locals, the further calls follow, and behind them it returns. -/
def Image.NestedAt (image : Image) : Nat → List Nat → Prop
  | _, [] => True
  | a, b :: rest =>
    image.Holds a (call.code :: (intBytes 2 b ++ intBytes 1 0)) ∧
      image.Holds b (enter.code :: intBytes 1 0) ∧
      image.NestedAt (b + 2) rest ∧ image.Holds (behind (b + 2) rest) [ret0.code]

/-- Where call number `i` stands; behind the last call, where the innermost function returns. -/
def site : Nat → List Nat → Nat → Nat
  | a, _, 0 => a
  | _, b :: rest, i + 1 => site (b + 2) rest i
  | a, [], _ + 1 => a

@[simp] lemma site_zero (a : Nat) (targets : List Nat) : site a targets 0 = a := by
  cases targets <;> rfl

@[simp] lemma site_succ (a b : Nat) (rest : List Nat) (i : Nat) :
    site a (b :: rest) (i + 1) = site (b + 2) rest i := rfl

/-- Nested calls come back. Each call takes two steps up to the next one, each return one step, and
the returns are in the opposite order: that of call number `i` comes `i` steps before the last one.
In the end the registers and the words that were on the stack are as before the first call. -/
structure ComesBack (sensors : Nat → Sensors) (a : Nat) (targets : List Nat) (m : State) :
    Prop where
  calls : ∀ i, i ≤ targets.length → (m.after sensors (2 * i)).At m.image (site a targets i)
  returns : ∀ i, i < targets.length →
    (m.after sensors (3 * targets.length - i)).At m.image (site a targets i + 4)
  top : (m.after sensors (3 * targets.length)).top = m.top
  frame : (m.after sensors (3 * targets.length)).frame = m.frame
  locals : (m.after sensors (3 * targets.length)).locals = m.locals
  below : ∀ i, i < m.top.toNat → (m.after sensors (3 * targets.length)).stack[i]? = m.stack[i]?

variable {sensors : Nat → Sensors} {m : State} {image : Image} {k h : Nat}

lemma ComesBack.at_behind {a : Nat} {targets} (h : ComesBack sensors a targets m) :
    (m.after sensors (3 * targets.length)).At m.image (behind a targets) := by
  cases targets with
  | nil => exact h.calls 0 le_rfl
  | cons b rest => exact h.returns 0 (by simp)

/-! ## Frames up to word 255 -/

/-- The frame of a call is as it was made, once the calls inside of the function have come back. -/
lemma unframed_inside {m' : State} {back : UInt16} {b : Nat}
    (hsize : m.stack.size = stackSize + 1) (hplace : m.top.toNat ≤ 255)
    (hframe : m'.frame = (m.inside back b).frame)
    (hbelow : ∀ i, i < (m.inside back b).top.toNat → m'.stack[i]? = (m.inside back b).stack[i]?) :
    m'.unframed = m'.returned back m.frame m.locals ∧ m'.frame.toUInt16 = m.top := by
  have hbig : stackSize = 1024 := rfl
  have hplace' : m'.frame.toNat = m.top.toNat := by
    rw [hframe, inside_frame, UInt16.toNat_toUInt8]
    omega
  have htop := m.toNat_inside_top back b
  obtain ⟨hback, houter, hlocs⟩ := m.framed_words back (by omega)
  have hword : ∀ i, i ≤ 2 →
      m'.stack[m'.frame.toNat + i]? = (m.framed back).stack[m.top.toNat + i]? := by
    intro i hi
    rw [hplace', hbelow _ (by omega), inside_stack]
  have hword0 := hword 0 (by omega)
  rw [add_zero, add_zero] at hword0
  constructor
  · simp [State.unframed, hword0, hword 1, hword 2, hback, houter, hlocs]
  · rw [← UInt16.toNat_inj, UInt8.toNat_toUInt16, hplace']

section

variable {image : Image} {sensors : Nat → Sensors} {a b : Nat} {rest : List Nat} {m : State}

lemma State.At.after_inside (hm : m.At image a) (sensors : Nat → Sensors)
    (hcall : image.Holds a (call.code :: (intBytes 2 b ++ intBytes 1 0)))
    (henter : image.Holds b (enter.code :: intBytes 1 0))
    (hroom : m.top.toNat + 2 ≤ stackSize) (j : Nat) :
    m.after sensors (2 + j) = (m.inside (a + 4).toUInt16 b).after (fun n => sensors (2 + n)) j := by
  rw [after_add, (hm.after_call sensors hcall henter hroom).1]

lemma ComesBack.last_return
    (hinner : ComesBack (fun n => sensors (2 + n)) (b + 2) rest (m.inside (a + 4).toUInt16 b))
    (hafter : ∀ j, m.after sensors (2 + j) =
      (m.inside (a + 4).toUInt16 b).after (fun n => sensors (2 + n)) j)
    (hret : m.image.Holds (behind (b + 2) rest) [ret0.code])
    (hsize : m.stack.size = stackSize + 1) (hplace : m.top.toNat ≤ 255) :
    m.after sensors (3 * (rest.length + 1)) =
        (m.after sensors (2 + 3 * rest.length)).returned (a + 4).toUInt16 m.frame m.locals ∧
      (m.after sensors (2 + 3 * rest.length)).frame.toUInt16 = m.top := by
  have hm3 := hinner.at_behind
  rw [inside_image, ← hafter] at hm3
  have hstep := hm3.step_ret0 (sensors (2 + 3 * rest.length)) hret
  have hkept : (m.after sensors (2 + 3 * rest.length)).frame =
      (m.inside (a + 4).toUInt16 b).frame := by
    rw [hafter]
    exact hinner.frame
  obtain ⟨hunframed, hframe⟩ := unframed_inside hsize hplace hkept
    (by rw [hafter]; exact hinner.below)
  refine ⟨?_, hframe⟩
  rw [show 3 * (rest.length + 1) = 2 + 3 * rest.length + 1 by omega, ← hunframed, ← hstep]
  rfl

/-- A call whose frame has a place up to 255 comes back if the calls inside of its function do. -/
theorem ComesBack.cons
    (hcall : image.Holds a (call.code :: (intBytes 2 b ++ intBytes 1 0)))
    (henter : image.Holds b (enter.code :: intBytes 1 0))
    (hret : image.Holds (behind (b + 2) rest) [ret0.code]) (hm : m.At image a)
    (hsize : m.stack.size = stackSize + 1) (hplace : m.top.toNat ≤ 255)
    (hinner : ComesBack (fun n => sensors (2 + n)) (b + 2) rest (m.inside (a + 4).toUInt16 b)) :
    ComesBack sensors a (b :: rest) m := by
  have hbig : stackSize = 1024 := rfl
  have hafter := hm.after_inside sensors hcall henter (by omega)
  have htop2 := m.toNat_inside_top (a + 4).toUInt16 b
  have hm3 := hinner.at_behind
  rw [inside_image, ← hafter] at hm3
  obtain ⟨hlast, htop⟩ := hinner.last_return hafter (by rw [hm.image]; exact hret) hsize hplace
  have hpc : (a + 4).toUInt16.toNat = a + 4 := by
    have hend := hcall.1
    have hlt : image.codeSize.toNat < 65536 := image.codeSize.toNat_lt
    simp only [length_cons, length_append, length_intBytes] at hend
    simp
    omega
  refine ⟨?_, ?_, ?_, ?_, ?_, ?_⟩
  · intro i hi
    cases i with
    | zero => exact ⟨rfl, hm.pc, hm.idle, hm.running⟩
    | succ i =>
      have hcalls := hinner.calls i (by simpa using hi)
      rw [inside_image, ← hafter] at hcalls
      rwa [show 2 * (i + 1) = 2 + 2 * i by omega, site_succ]
  · intro i hi
    simp only [length_cons] at hi ⊢
    cases i with
    | zero =>
      rw [Nat.sub_zero, hlast]
      exact ⟨hm3.image, hpc, hm3.idle, hm3.running⟩
    | succ i =>
      have hrets := hinner.returns i (by omega)
      rw [inside_image, ← hafter] at hrets
      rwa [show 3 * (rest.length + 1) - (i + 1) = 2 + (3 * rest.length - i) by omega, site_succ]
  · rwa [length_cons, hlast]
  · rw [length_cons, hlast]
    rfl
  · rw [length_cons, hlast]
    rfl
  · -- The words below the frame are those below the calls inside of the function.
    intro i hi
    rw [length_cons, hlast]
    show (m.after sensors (2 + 3 * rest.length)).stack[i]? = m.stack[i]?
    rw [hafter, hinner.below i (by omega), inside_stack, framed_stack_of_ne (.inl hi)]

end

lemma comesBack (targets : List Nat) :
    ∀ a m sensors, image.NestedAt a targets → m.At image a →
      m.stack.size = stackSize + 1 → (targets = [] ∨ m.top.toNat + 3 * targets.length ≤ 258) →
      ComesBack sensors a targets m := by
  induction targets with
  | nil =>
    intro a m sensors _ hm _ _
    refine ⟨?_, fun i hi => absurd hi (by simp), rfl, rfl, rfl, fun i _ => rfl⟩
    intro i hi
    obtain rfl : i = 0 := by simpa using hi
    exact ⟨rfl, hm.pc, hm.idle, hm.running⟩
  | cons b rest ih =>
    rintro a m sensors ⟨hcall, henter, hnest, hret⟩ hm hsize hplaces
    have hbig : stackSize = 1024 := rfl
    have hroom : m.top.toNat + 3 * rest.length ≤ 255 := by
      rcases hplaces with hnil | hroom
      · cases hnil
      · simp only [length_cons] at hroom
        omega
    have htop2 := m.toNat_inside_top (a + 4).toUInt16 b
    have hm2 := (hm.after_call sensors hcall henter (by omega)).2
    have hinner := ih (b + 2) (m.inside (a + 4).toUInt16 b) (fun n => sensors (2 + n)) hnest hm2
      (by rw [size_inside, hsize]) (.inr (by omega))
    exact .cons hcall henter hret hm hsize (by omega) hinner

/-! ## What the places have to be -/

section

variable {image : Image} {sensors : Nat → Sensors} {a : Nat} {targets : List Nat} {m : State}

lemma Image.NestedAt.code_at {i : Nat} : ∀ {a : Nat} {targets : List Nat},
    image.NestedAt a targets → i < targets.length →
    ∃ b, site a targets (i + 1) = b + 2 ∧
      image.Holds (site a targets i) (call.code :: (intBytes 2 b ++ intBytes 1 0)) ∧
      image.Holds b (enter.code :: intBytes 1 0) ∧
      image.Holds (behind (b + 2) (targets.drop (i + 1))) [ret0.code] := by
  induction i with
  | zero =>
    rintro a (_ | ⟨b, rest⟩) hnest hi
    · cases hi
    · rcases hnest with ⟨hcall, henter, _, hret⟩
      exact ⟨b, by simp, by simpa using hcall, henter, by simpa using hret⟩
  | succ i ih =>
    rintro a (_ | ⟨b, rest⟩) hnest hi
    · cases hi
    · rcases hnest with ⟨_, _, hinner, _⟩
      simpa using ih hinner (by simpa using hi)

/-- A word of the stack behind a call was there, is the place of a frame or a number of locals, or
is the return address. -/
lemma State.framed_word_cases {back : UInt16} (hin : m.top.toNat + 2 < m.stack.size) {x : Nat}
    {w : UInt32} (hw : (m.framed back).stack[x]? = some w) :
    m.stack[x]? = some w ∨ w.toNat < 256 ∨ (x = m.top.toNat ∧ w = back.toUInt32) := by
  obtain ⟨hback, houter, hlocs⟩ := m.framed_words back hin
  have hsmall (n : UInt8) (hn : some n.toUInt32 = some w) : w.toNat < 256 := by
    rw [← Option.some.inj hn, UInt8.toNat_toUInt32]
    exact n.toNat_lt
  by_cases h0 : x = m.top.toNat
  · rw [h0, hback] at hw
    exact .inr (.inr ⟨h0, (Option.some.inj hw).symm⟩)
  by_cases h1 : x = m.top.toNat + 1
  · rw [h1, houter] at hw
    exact .inr (.inl (hsmall _ hw))
  by_cases h2 : x = m.top.toNat + 2
  · rw [h2, hlocs] at hw
    exact .inr (.inl (hsmall _ hw))
  rw [framed_stack_of_ne (by omega)] at hw
  exact .inl hw

/-- A word that calls leave on the stack was there, is the place of a frame or a number of locals,
or is the return address of a call that found the top of the stack there. -/
lemma words_after_calls (targets : List Nat) :
    ∀ (a : Nat) (m : State) (sensors : Nat → Sensors), image.NestedAt a targets → m.At image a →
      m.stack.size = stackSize + 1 → m.top.toNat + 2 ≤ stackSize →
      ∀ x w, (m.after sensors (2 * targets.length)).stack[x]? = some w →
        m.stack[x]? = some w ∨ w.toNat < 256 ∨
          ∃ i, i < targets.length ∧ x = (m.after sensors (2 * i)).top.toNat ∧
            w = (site a targets i + 4).toUInt16.toUInt32 := by
  induction targets with
  | nil =>
    intro a m sensors _ _ _ _ x w hw
    exact .inl hw
  | cons b rest ih =>
    rintro a m sensors ⟨hcall, henter, hnest, _⟩ hm hsize hroom x w hw
    have hm2 := (hm.after_call sensors hcall henter hroom).2
    have hafter := hm.after_inside sensors hcall henter hroom
    have htop2 := m.toNat_inside_top (a + 4).toUInt16 b
    have hbig : stackSize = 1024 := rfl
    have hsize2 : (m.inside (a + 4).toUInt16 b).stack.size = stackSize + 1 := by
      rw [size_inside, hsize]
    rw [length_cons, show 2 * (rest.length + 1) = 2 + 2 * rest.length by omega, hafter] at hw
    rcases ih (b + 2) _ _ hnest hm2 hsize2 (by omega) x w hw with
      hold | hsmall | ⟨i, hi, hx, hword⟩
    · -- The word stood there after the first call: it is one of the frame, or older.
      rw [inside_stack] at hold
      rcases framed_word_cases (by omega) hold with hkept | hsmall | ⟨hx, hword⟩
      · exact .inl hkept
      · exact .inr (.inl hsmall)
      · exact .inr (.inr ⟨0, by simp, hx, hword⟩)
    · exact .inr (.inl hsmall)
    · refine .inr (.inr ⟨i + 1, by simpa using hi, ?_, hword⟩)
      rwa [show 2 * (i + 1) = 2 + 2 * i by omega, hafter]

namespace ComesBack

variable {i : Nat} (hback : ComesBack sensors a targets m)

include hback

lemma at_return (hi : i < targets.length) :
    (m.after sensors (3 * targets.length - (i + 1))).At m.image
      (behind (site a targets (i + 1)) (targets.drop (i + 1))) := by
  rcases lt_or_ge (i + 1) targets.length with hlt | hge
  · -- Further calls have come back inside of the function.
    rw [drop_eq_getElem_cons hlt]
    exact hback.returns (i + 1) hlt
  · have hlast : i + 1 = targets.length := by omega
    rw [drop_of_length_le hge, show 3 * targets.length - (i + 1) = 2 * (i + 1) by omega]
    exact hback.calls (i + 1) (by omega)

variable (hnest : m.image.NestedAt a targets)

include hnest

lemma after_return (hi : i < targets.length) : m.after sensors (3 * targets.length - i) =
      (m.after sensors (3 * targets.length - (i + 1))).unframed := by
  obtain ⟨b, hsite, _, _, hret⟩ := hnest.code_at hi
  have hm := hback.at_return hi
  rw [hsite] at hm
  have hstep := hm.step_ret0 (sensors (3 * targets.length - (i + 1))) hret
  rw [← hstep, show 3 * targets.length - i = 3 * targets.length - (i + 1) + 1 by omega]
  rfl

lemma stack_after {j : Nat} (hj : j ≤ targets.length) :
    (m.after sensors (2 * targets.length + j)).stack =
      (m.after sensors (2 * targets.length)).stack := by
  induction j with
  | zero => rfl
  | succ j ih =>
    have hreturn := hback.after_return hnest
      (show targets.length - (j + 1) < targets.length by omega)
    rw [show 3 * targets.length - (targets.length - (j + 1)) = 2 * targets.length + (j + 1) by
        omega,
      show 3 * targets.length - (targets.length - (j + 1) + 1) = 2 * targets.length + j by omega]
      at hreturn
    rw [hreturn, ← ih (by omega), unframed_stack]

/-- If no other word can be taken for a return address, every call has found the top of the stack at
a place that fits into eight bits. -/
theorem top_le (hm : m.At m.image a) (hsize : m.stack.size = stackSize + 1)
    (hroom : m.top.toNat + 2 ≤ stackSize)
    (hwords : ∀ (x : Nat) (w : UInt32), m.stack[x]? = some w → w.toNat < 256)
    (hfar : ∀ i, i < targets.length → 252 ≤ site a targets i)
    (hdist : ∀ i j, i < targets.length → j < targets.length →
      site a targets i = site a targets j → i = j) (hi : i < targets.length) :
    (m.after sensors (2 * i)).top.toNat ≤ 255 := by
  have hpc := (hback.returns i hi).pc
  rw [hback.after_return hnest hi] at hpc
  -- The return goes to the word at the place of the frame, which is below 256.
  have hplace := (m.after sensors (3 * targets.length - (i + 1))).frame.toNat_lt
  have hstack := hback.stack_after hnest (show targets.length - (i + 1) ≤ targets.length by omega)
  rw [show 2 * targets.length + (targets.length - (i + 1)) = 3 * targets.length - (i + 1) by omega]
    at hstack
  have hword : (((m.after sensors (2 * targets.length)).stack[
      (m.after sensors (3 * targets.length - (i + 1))).frame.toNat]?).getD 0).toUInt16.toNat =
        site a targets i + 4 := by
    rwa [← hstack]
  have hfar := hfar i hi
  cases hw : (m.after sensors (2 * targets.length)).stack[
      (m.after sensors (3 * targets.length - (i + 1))).frame.toNat]? with
  | none =>
    rw [hw] at hword
    simp at hword
  | some w =>
    rw [hw, Option.getD_some, UInt32.toNat_toUInt16] at hword
    rcases words_after_calls targets a m sensors hnest hm hsize hroom _ w hw with
      hold | hsmall | ⟨j, hj, hx, rfl⟩
    · have := hwords _ w hold
      omega
    · omega
    · -- Return addresses differ, so the word is the one that this call has put there.
      obtain ⟨b, _, hcall, _, _⟩ := hnest.code_at hj
      have hend := hcall.1
      have hlt : m.image.codeSize.toNat < 65536 := m.image.codeSize.toNat_lt
      simp only [length_cons, length_append, length_intBytes] at hend
      simp only [UInt16.toNat_toUInt32, Nat.toUInt16_eq, UInt16.toNat_ofNat'] at hword
      obtain rfl := hdist j i hj hi (by omega)
      omega

lemma top_after (hroom : m.top.toNat + 2 ≤ stackSize)
    (hfit : ∀ i, i < targets.length → (m.after sensors (2 * i)).top.toNat ≤ 255)
    (hi : i < targets.length) : (m.after sensors (2 * i)).top.toNat = m.top.toNat + 3 * i := by
  induction i with
  | zero => rfl
  | succ i ih =>
    have hlt : i < targets.length := by omega
    obtain ⟨b, _, hcall, henter, _⟩ := hnest.code_at hlt
    have hplace := hfit i hlt
    have hbig : stackSize = 1024 := rfl
    obtain ⟨htwo, _⟩ := (hback.calls i (by omega)).after_call (fun n => sensors (2 * i + n)) hcall
      henter (by omega)
    rw [show 2 * (i + 1) = 2 * i + 2 by omega, after_add, htwo, toNat_inside_top, ih hlt]
    rw [ih hlt] at hplace
    omega

end ComesBack

end

/-! ## A chain of functions -/

/-- The code of nested calls in a row: a call to the function behind it, a return, and the start of
that function, in which the further calls follow. -/
def chainCode : Nat → Nat → List UInt8
  | _, 0 => [ret0.code]
  | a, k + 1 =>
    (call.code :: (intBytes 2 (a + 5 : Nat) ++ intBytes 1 0)) ++ ([ret0.code] ++
      ((enter.code :: intBytes 1 0) ++ chainCode (a + 7) k))

/-- The functions that the chain calls. -/
def chainTargets : Nat → Nat → List Nat
  | _, 0 => []
  | a, k + 1 => (a + 5) :: chainTargets (a + 7) k

lemma length_chainCode (k : Nat) : ∀ a, (chainCode a k).length = 7 * k + 1 := by
  induction k with
  | zero => intro a; rfl
  | succ k ih =>
    intro a
    simp only [chainCode, length_append, length_cons, length_intBytes, length_nil, ih]
    omega

lemma length_chainTargets (k : Nat) : ∀ a, (chainTargets a k).length = k := by
  induction k with
  | zero => intro a; rfl
  | succ k ih => intro a; simp [chainTargets, ih]

lemma site_chainTargets (i : Nat) : ∀ a k, i ≤ k → site a (chainTargets a k) i = a + 7 * i := by
  induction i with
  | zero => intro a k _; simp
  | succ i ih =>
    intro a k hi
    obtain ⟨k, rfl⟩ : ∃ j, k = j + 1 := ⟨k - 1, by omega⟩
    rw [chainTargets, site_succ, show a + 5 + 2 = a + 7 by omega, ih (a + 7) k (by omega)]
    omega

lemma nestedAt_chain (k : Nat) : ∀ a, image.Holds a (chainCode a k) →
    image.NestedAt a (chainTargets a k) ∧
      image.Holds (behind a (chainTargets a k)) [ret0.code] := by
  induction k with
  | zero =>
    intro a hcode
    exact ⟨trivial, hcode⟩
  | succ k ih =>
    intro a hcode
    rw [chainCode, Image.holds_append, Image.holds_append, Image.holds_append] at hcode
    simp only [length_cons, length_append, length_intBytes, length_nil] at hcode
    rcases hcode with ⟨hcall, hret, henter, hrest⟩
    obtain ⟨hnest, hinner⟩ := ih (a + 7) hrest
    exact ⟨⟨hcall, henter, hnest, hinner⟩, hret⟩

/-- There is room for a chain behind 256 bytes, so that no return address is below 256. -/
lemma exists_chain (hk : 7 * k + 257 < 65536) :
    ∃ image : Image, image.NestedAt 256 (chainTargets 256 k) := by
  have hsmall : (List.replicate 256 0 ++ chainCode 256 k).length < 65536 := by
    rw [length_append, length_replicate, length_chainCode]
    omega
  obtain ⟨_, _, hcode⟩ := Image.load_complete (show ([] : List UInt8).length = 4 * 0 from rfl)
    (by decide) zero_le hsmall
  rw [Image.holds_append, length_replicate, zero_add] at hcode
  exact ⟨_, (nestedAt_chain k 256 hcode.2).1⟩

/-- The machine in front of the chain, with `h` zeros on the stack. -/
def chainStart (image : Image) (h : Nat) : State :=
  { State.start image with pc := 256, top := h.toUInt16 }

lemma at_chainStart (image : Image) (h : Nat) : (chainStart image h).At image 256 :=
  ⟨rfl, rfl, rfl, rfl⟩

lemma size_chainStart (image : Image) (h : Nat) :
    (chainStart image h).stack.size = stackSize + 1 := by
  simp [chainStart, State.start]

lemma top_chainStart (image : Image) (hh : h < 65536) : (chainStart image h).top.toNat = h := by
  simp [chainStart, Nat.mod_eq_of_lt hh]

lemma ComesBack.chain_le (hback : ComesBack sensors 256 (chainTargets 256 k) (chainStart image h))
    (hnest : image.NestedAt 256 (chainTargets 256 k)) (hpos : 0 < k)
    (hroom : h + 3 * k ≤ stackSize) :
    h + 3 * k ≤ 258 := by
  have hbig : stackSize = 1024 := rfl
  have htop := top_chainStart image (show h < 65536 by omega)
  have hlen := length_chainTargets k 256
  -- The words of the stack are zeros, so they are not mistaken for return addresses.
  have hwords : ∀ (x : Nat) (w : UInt32),
      (chainStart image h).stack[x]? = some w → w.toNat < 256 := by
    intro x w hw
    obtain rfl : w = 0 := by
      have := Array.mem_of_getElem? hw
      simpa [chainStart, State.start] using this
    decide
  have hsite : ∀ i, i < (chainTargets 256 k).length →
      site 256 (chainTargets 256 k) i = 256 + 7 * i := by
    intro i hi
    exact site_chainTargets i 256 k (by omega)
  have hfit : ∀ i, i < (chainTargets 256 k).length →
      ((chainStart image h).after sensors (2 * i)).top.toNat ≤ 255 := by
    intro i hi
    refine hback.top_le hnest (at_chainStart image h) (size_chainStart image h) (by omega) hwords
      ?_ ?_ hi
    · intro j hj
      rw [hsite j hj]
      omega
    · intro j l hj hl heq
      rw [hsite j hj, hsite l hl] at heq
      omega
  have hlast : k - 1 < (chainTargets 256 k).length := by omega
  have hplace := hfit (k - 1) hlast
  rw [hback.top_after hnest (by omega) hfit hlast, htop] at hplace
  omega

/-! ## When nested calls always come back -/

/-- From every machine whose stack has height `h`, `k` nested calls come back, wherever they stand
and whatever the hardware answers. -/
def AlwaysComesBack (h k : Nat) : Prop :=
  ∀ image a targets m sensors,
    image.NestedAt a targets → targets.length = k → m.At image a → m.stack.size = stackSize + 1 →
      m.top.toNat = h → ComesBack sensors a targets m

/-- Where the stack has room for the frames of `k` calls above height `h`, the calls always come
back exactly if there are none or their frames have places up to 255. -/
theorem alwaysComesBack_iff (h k : Nat) (hroom : h + 3 * k ≤ stackSize) :
    AlwaysComesBack h k ↔ k = 0 ∨ h + 3 * k ≤ 258 := by
  have hbig : stackSize = 1024 := rfl
  constructor
  · intro halways
    rcases Nat.eq_zero_or_pos k with hzero | hpos
    · exact .inl hzero
    · obtain ⟨image, hnest⟩ := exists_chain (show 7 * k + 257 < 65536 by omega)
      have hback := halways image 256 _ (chainStart image h) (fun _ => ⟨false, []⟩) hnest
        (length_chainTargets k 256) (at_chainStart image h) (size_chainStart image h)
        (top_chainStart image (by omega))
      exact .inr (hback.chain_le hnest hpos hroom)
  · intro hplaces image a targets m sensors hnest hlen hm hsize htop
    refine comesBack targets a m sensors hnest hm hsize ?_
    rw [hlen, htop]
    rcases hplaces with hzero | hplaces
    · exact .inl (List.eq_nil_of_length_eq_zero (hlen.trans hzero))
    · exact .inr hplaces

/-- From an empty stack, 86 nested calls come back, and 87 need not, though the stack has room for
the frames of 341. -/
theorem alwaysComesBack_iff_empty :
    (0 + 3 * 341 ≤ stackSize) ∧ AlwaysComesBack 0 86 ∧ ¬ AlwaysComesBack 0 87 := by
  refine ⟨by decide, (alwaysComesBack_iff 0 86 (by decide)).2 (by decide), ?_⟩
  intro halways
  exact absurd ((alwaysComesBack_iff 0 87 (by decide)).1 halways) (by decide)

end ArmStudio.Machine
