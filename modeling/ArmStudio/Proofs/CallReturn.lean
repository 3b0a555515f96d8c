import ArmStudio.Proofs.Frames

/-!
# From a call to its return

A call and the entry of the function that it goes to make the arguments the first locals. Whatever
the function does above the header of its frame, its return finds the caller there.
-/

namespace ArmStudio.Machine

open Code State

/-- The machine has entered a function with `k` locals, the first `n` of which are the words that
`caller` has from height `h` on. -/
structure Entered (caller : State) (h n k : Nat) (m : State) : Prop where
  size : m.stack.size = caller.stack.size
  frame : m.frame.toNat = h
  locals : m.locals.toNat = k
  top : m.top.toNat = m.frame.toNat + 3 + k
  args : ∀ i < n, Exec.readLocal i m = ((caller.stack[h + i]?).getD 0, m)

/-- The machine runs at address `a` in the frame of `caller`, whose stack it has up to height `h`,
with the words `ws` above. The globals are those of the function that has returned. -/
structure Resumed (caller callee : State) (a h : Nat) (ws : List UInt32) (m : State) : Prop where
  at_ : m.At callee.image a
  frame : m.frame = caller.frame
  locals : m.locals = caller.locals
  globals : m.globals = callee.globals
  top : m.top.toNat = h + ws.length
  results : ∀ i < ws.length, m.stack[h + i]? = ws[i]?
  below : ∀ i < h, m.stack[i]? = caller.stack[i]?

namespace Called

variable {h n k a : Nat} {back : UInt16} {caller m : State}

lemma entered (hc : Called h n back caller m) (hh : h ≤ 255) (hnk : n ≤ k) (hk : k ≤ 255) :
    Entered caller h n k ((m.advance 2).entered k) := by
  have hframe : ((m.advance 2).entered k).frame.toNat = h := hc.frame
  have hlocs : ((m.advance 2).entered k).locals.toNat = k := by
    show k.toUInt8.toNat = k
    simp
    omega
  refine ⟨hc.size, hframe, hlocs, ?_, ?_⟩
  · show (m.frame.toUInt16 + 3 + k.toUInt16).toNat = m.frame.toNat + 3 + k
    have := hc.frame
    simp [UInt16.toNat_add]
    omega
  · intro i hi
    have harg : ((m.advance 2).entered k).stack[h + 3 + i]? = _ := hc.args i hi
    rw [Exec.readLocal_eq (by omega), hframe, harg]
    rfl

/-- A machine that still has the words of the frame and those below goes back to the caller. -/
theorem resumed (hc : Called h n back caller m) {callee : State} (hm : callee.At callee.image a)
    (hframe : callee.frame = m.frame) (hbelow : ∀ i < h + 3, callee.stack[i]? = m.stack[i]?) :
    Resumed caller callee back.toNat h [] callee.unframed := by
  have hplace := hframe ▸ hc.frame
  have hsame : callee.unframed = callee.returned back caller.frame caller.locals := by
    refine unframed_eq ?_ ?_ ?_ <;> rw [hplace, hbelow _ (by omega)]
    · exact hc.back
    · exact hc.outerFrame
    · exact hc.outerLocals
  rw [hsame]
  refine ⟨⟨hm.image, rfl, hm.idle, hm.running⟩, rfl, rfl, rfl, ?_, fun i hi => absurd hi (by simp),
    fun i hi => (hbelow i (by omega)).trans (hc.below i hi)⟩
  show callee.frame.toUInt16.toNat = h
  rw [UInt8.toNat_toUInt16, hplace]

end Called

lemma Resumed.pushed {caller callee m : State} {a h : Nat}
    (hr : Resumed caller callee a h [] m) (v : UInt32) (hroom : h < 65535)
    (hin : h < m.stack.size) :
    Resumed caller callee a h [v] (m.pushed v) := by
  have htop : m.top.toNat = h := hr.top
  refine ⟨⟨hr.at_.image, hr.at_.pc, hr.at_.idle, hr.at_.running⟩, hr.frame, hr.locals, hr.globals,
    ?_, ?_, ?_⟩
  · rw [toNat_pushed_top _ (by omega), htop]
    rfl
  · intro i hi
    obtain rfl : i = 0 := by simpa using hi
    rw [pushed_stack, htop]
    exact Array.getElem?_setIfInBounds_self_of_lt hin
  · intro i hi
    rw [pushed_stack, htop, Array.getElem?_setIfInBounds_ne (by omega)]
    exact hr.below i hi

/-- A call and the entry of its function make the arguments the first locals. From every later state
of the same frame that has kept the words up to the header, a return goes behind the call, with the
caller's registers, the stack under the arguments and the result. -/
theorem call_return_resumes_caller {image : Image} {a b h n k : Nat} {m : State}
    (hm : m.At image a) (hsize : m.stack.size = stackSize + 1)
    (hcall : image.Holds a (Opcode.call.code :: (intBytes 2 b ++ intBytes 1 n)))
    (henter : image.Holds b (Opcode.enter.code :: intBytes 1 k)) (hnk : n ≤ k) (hk : k ≤ 255)
    (htop : m.top.toNat = h + n) (hh : h ≤ 255) (sensors : Nat → Sensors) :
    (m.after sensors 2).At image (b + 2) ∧ Entered m h n k (m.after sensors 2) ∧
    ∀ (callee : State) (c : Nat) (s : Sensors), callee.At image c →
      callee.frame = (m.after sensors 2).frame →
      (∀ i < h + 3, callee.stack[i]? = (m.after sensors 2).stack[i]?) →
      (image.Holds c [Opcode.ret0.code] → Resumed m callee (a + 4) h [] (callee.step s).2) ∧
      (∀ v, image.Holds c [Opcode.ret.code] → h + 3 < callee.top.toNat →
        callee.stack[callee.top.toNat - 1]? = some v →
        Resumed m callee (a + 4) h [v] (callee.step s).2) := by
  obtain ⟨hm1, hcalled⟩ := hm.step_call (sensors 0) hcall henter.lt_codeSize
    (by omega) htop hh hsize
  have hafter : m.after sensors 2 = (((m.step (sensors 0)).2.advance 2).entered k) :=
    hm1.step_enter (sensors 1) henter hk
  rw [hafter]
  generalize (m.step (sensors 0)).2 = m1 at hm1 hcalled
  have hm2 := hm1.advance (k := 2) henter.1
  have hback : (a + 4).toUInt16.toNat = a + 4 := by
    have hlt := image.codeSize.toNat_lt
    have hend : a + 4 ≤ image.codeSize.toNat := hcall.1
    simp
    omega
  refine ⟨⟨hm2.image, hm2.pc, hm2.idle, hm2.running⟩, hcalled.entered hh hnk hk, ?_⟩
  intro callee c s hc hframe hbelow
  have hresumed := hcalled.resumed ⟨rfl, hc.pc, hc.idle, hc.running⟩ hframe hbelow
  rw [hback] at hresumed
  refine ⟨fun hret0 => ?_, fun v hret hdeep hv => ?_⟩
  · rw [hc.step_ret0 s hret0]
    exact hresumed
  · have hplace := hframe ▸ hcalled.frame
    obtain ⟨hin, _⟩ := Array.getElem?_eq_some_iff.1 hv
    rw [hc.step_ret s hret (h := callee.top.toNat - 1) (by omega) (by omega), hv]
    exact hresumed.pushed v (by omega) (show h < callee.stack.size by omega)

/-- A machine before a call with one argument of a function with two locals. -/
def callState : State where
  image := ⟨#[0x05, 4, 0, 1, 0x06, 2, 0x07, 0x08], 0, 0, 0, 8⟩
  stack := Array.replicate (stackSize + 1) 9
  top := 4

theorem call_return_resumes_callState :
    callState.At callState.image 0 ∧ ∀ (sensors : Nat → Sensors) (s : Sensors),
      Entered callState 3 1 2 (callState.after sensors 2) ∧
        Resumed callState ((callState.after sensors 2).pushed 7) 4 3 [7]
          (((callState.after sensors 2).pushed 7).step s).2 := by
  refine ⟨⟨rfl, rfl, rfl, rfl⟩, fun sensors s => ?_⟩
  obtain ⟨hm, hentered, hreturn⟩ := call_return_resumes_caller (m := callState) (a := 0) (b := 4)
    (h := 3) (n := 1) (k := 2) ⟨rfl, rfl, rfl, rfl⟩ (by simp [callState]) ⟨by decide, by decide⟩
    ⟨by decide, by decide⟩ (by decide) (by decide) (by decide) (by decide) sensors
  generalize callState.after sensors 2 = m at hm hentered hreturn ⊢
  have htop : m.top.toNat = 8 := by rw [hentered.top, hentered.frame]
  have hsize : m.stack.size = 1025 := hentered.size.trans (by simp [callState, stackSize])
  have hpush := toNat_pushed_top (m := m) 7 (by omega)
  have hkept : ∀ i < 3 + 3, (m.pushed 7).stack[i]? = m.stack[i]? := by
    intro i hi
    rw [pushed_stack, Array.getElem?_setIfInBounds_ne (by omega)]
  have hval : (m.pushed 7).stack[(m.pushed 7).top.toNat - 1]? = some 7 := by
    rw [hpush, pushed_stack, htop]
    exact Array.getElem?_setIfInBounds_self_of_lt (by omega)
  exact ⟨hentered, (hreturn (m.pushed 7) 6 s ⟨hm.image, hm.pc, hm.idle, hm.running⟩ rfl hkept).2 7
    ⟨by decide, by decide⟩ (by omega) hval⟩

end ArmStudio.Machine
