import ArmStudio.Proofs.Flow
import ArmStudio.Proofs.Paths

/-!
# Where statements leave the top of the stack

A statement that starts right above the locals of its frame ends there, on every path through its
code, but for the words that its expressions leave too many or too few.
-/

namespace ArmStudio.Machine

open Code Script

/-- Every path of at most `k` moves that gets from `h` words at address `b` to the end of the code
gets there with a number of words that `Q` allows. -/
def PathsEnd (image : Image) (valued : String → Bool) (a : Nat) (code : List Instr) (f n : UInt8)
    (Q : Int → Prop) (k b : Nat) (h : Int) : Prop :=
  ∀ j, j ≤ k → ∀ m m', Standing image f n b h m → Path valued a code j m m' →
    m'.pc.toNat = a + width code → ∃ d, Q d ∧ Standing image f n (a + width code) d m'

section

variable {image : Image} {place : String → Int} {valued : String → Bool} {a : Nat}
  {code : List Instr} {f n : UInt8} {Q : Int → Prop} {k b : Nat} {h : Int}

lemma PathsEnd.mono (he : PathsEnd image valued a code f n Q k b h) {j : Nat} (hj : j ≤ k) :
    PathsEnd image valued a code f n Q j b h :=
  fun i hi => he i (hi.trans hj)

lemma width_call (func : String) (address : Option Int) (p : Payload) :
    Instr.width ⟨.call, [.label func address, .u8 p]⟩ = 4 := rfl

lemma Move.pc_lt {m m' : State} (hmove : Move valued a code m m') (hidle : m.waiting = .nothing) :
    m.pc.toNat < a + width code := by
  cases hmove with
  | poll _ hwaits => exact absurd hidle hwaits
  | @step xs ys i _ hcode hpc _ hop _ _ =>
    have hlabel : i.op ≠ .label := fun hl => hop (by simp [hl])
    rw [hpc, hcode, width_append, width_cons, Instr.width, if_neg hlabel]
    omega
  | call _ _ hcode hpc _ _ _ _ _ =>
    rw [hpc, hcode, width_append, width_cons, width_call]
    omega

lemma ends_of_moves (hhere : b = a + width code → Q h)
    (hnext : ∀ m m1, Standing image f n b h m → m.waiting = .nothing →
      Move valued a code m m1 → ∃ b' h', Standing image f n b' h' m1 ∧
        ∀ j, j < k → PathsEnd image valued a code f n Q j b' h') :
    PathsEnd image valued a code f n Q k b h := by
  intro j
  induction j with
  | zero =>
    intro _ m m' hm hpath hend
    cases hpath
    have hb : b = a + width code := hm.pc.symm.trans hend
    exact ⟨h, hhere hb, hb ▸ hm⟩
  | succ j ih =>
    intro hj m m' hm hpath hend
    cases hpath with
    | head hmove hrest =>
      by_cases hidle : m.waiting = .nothing
      · obtain ⟨b', h', hm1, hends⟩ := hnext m _ hm hidle hmove
        exact hends j (by omega) j le_rfl _ m' hm1 hrest hend
      · cases hmove with
        | poll sensors hwaits => exact ih (by omega) _ m' (hm.poll hwaits sensors) hrest hend
        | step _ _ _ hno | call _ _ _ _ hno => exact absurd hno hidle

lemma ends_behind (hq : Q h) : PathsEnd image valued a code f n Q k (a + width code) h := by
  refine ends_of_moves (fun _ => hq) fun m m1 hm hidle hmove => ?_
  have hlt := hmove.pc_lt hidle
  rw [hm.pc] at hlt
  omega

variable {xs ys : List Instr} {name : String}

lemma PathsEnd.next {i : Instr} {j : Nat} (hj : j < k)
    (he : PathsEnd image valued a code f n Q k (a + width (xs ++ [i])) h) :
    PathsEnd image valued a code f n Q j (a + width xs + i.width) h := by
  have hmono := he.mono hj.le
  rwa [width_append, width_cons, width_nil, add_zero, ← add_assoc] at hmono

lemma ends_at {i : Instr} (hcode : code = xs ++ i :: ys) (hwide : 0 < i.width)
    (hstep : image.CodeAt place (a + width xs) (i :: ys) →
      ∀ m sensors, Standing image f n (a + width xs) h m → m.waiting = .nothing →
      i.op ∉ [.label, .call, .ret, .ret0] →
      (∀ name, i.target? = some name → name ∈ marks code) →
      (m.step sensors).2.status = .running →
      ∃ b' h', Standing image f n b' h' (m.step sensors).2 ∧
        ∀ j, j < k → PathsEnd image valued a code f n Q j b' h')
    (hcall : ∀ func (n' : Nat), i = ⟨.call, [.label func none, .u8 (.ofInt n')]⟩ →
      ∀ j, j < k → PathsEnd image valued a code f n Q j (a + width xs + i.width)
        (h + ((if valued func then 1 else 0) - ((n' % 256 : Nat) : Int))))
    (hplaced : image.CodeAt place a code) :
    PathsEnd image valued a code f n Q k (a + width xs) h := by
  have hc : image.CodeAt place (a + width xs) (i :: ys) := by
    rw [hcode] at hplaced
    exact (Image.codeAt_append.1 hplaced).2
  have hend : a + width xs + i.width ≤ image.codeSize.toNat := by
    have hle := hc.1.2.1.1
    rwa [hc.1.1.length_encoded] at hle
  refine ends_of_moves (fun hb => ?_) fun m m1 hm hidle hmove => ?_
  · rw [hcode, width_append, width_cons] at hb
    omega
  · cases hmove with
    | poll _ hwaits => exact absurd hidle hwaits
    | @step xs' ys' i' sensors hcode' hpc _ hop htgt hrun =>
      have hlabel : i'.op ≠ .label := fun hl => hop (by simp [hl])
      have hwide' : 0 < i'.width := by
        rw [Instr.width, if_neg hlabel]
        omega
      have hsame := eq_of_width_eq (hcode.symm.trans hcode')
        (by have := hm.pc; omega) hwide hwide'
      rw [← hsame.1] at hop htgt
      exact hstep hc m sensors hm hidle hop htgt hrun
    | @call m2 xs' ys' func n' base sensors sensors' hcode' hpc _ htop hcalled hret hrun =>
      have hsame := eq_of_width_eq (hcode.symm.trans hcode')
        (by have := hm.pc; omega) hwide (Nat.zero_lt_succ _)
      have hfour : i.width = 4 := by rw [hsame.1, width_call]
      rw [hm.pc] at hcalled
      have hreturned := hm.returned (by omega) htop hcalled hret hrun
      rw [← hfour] at hreturned
      exact ⟨_, _, hreturned, hcall func n' hsame.1⟩

/-! ## Pieces of code -/

lemma ends_parts {d : Int} {part} (hparts : Parts valued part d)
    (hplaced : image.CodeAt place a code) : ∀ {xs ys : List Instr} {h : Int},
      code = xs ++ part ++ ys →
      PathsEnd image valued a code f n Q k (a + width (xs ++ part)) (h + d) →
      PathsEnd image valued a code f n Q k (a + width xs) h := by
  induction hparts with
  | nil =>
    intro xs ys h _ he
    simpa using he
  | @op i rest d hstr hwidth _ ih =>
    intro xs ys h hcode he
    have hcode' : code = xs ++ i :: (rest ++ ys) := by simpa using hcode
    have hrest : PathsEnd image valued a code f n Q k (a + width (xs ++ [i]))
        (h + i.op.balance) :=
      @ih (xs ++ [i]) ys _ (by simpa using hcode) (by simpa [Int.add_assoc] using he)
    have hlabel : i.op ≠ .label := by
      intro hl
      simp [hl, Opcode.isStraight] at hstr
    apply ends_at hcode' _ _ _ hplaced
    · rw [Instr.width, if_neg hlabel]
      omega
    · intro hc m sensors hm hidle _ _ hrun
      exact ⟨_, _, hm.straight hidle hc hstr hwidth hrun, fun j hj => hrest.next hj⟩
    · rintro func n' rfl
      cases hstr
  | @call func n' rest d _ ih =>
    intro xs ys h hcode he
    have hcode' : code = xs ++ ⟨.call, [.label func none, .u8 (.ofInt n')]⟩ :: (rest ++ ys) := by
      simpa using hcode
    have hrest : PathsEnd image valued a code f n Q k
        (a + width (xs ++ [⟨.call, [.label func none, .u8 (.ofInt n')]⟩]))
        (h + ((if valued func then 1 else 0) - ((n' % 256 : Nat) : Int))) :=
      @ih (xs ++ [_]) ys _ (by simpa using hcode) (by simpa [Int.add_assoc] using he)
    apply ends_at hcode' _ _ _ hplaced
    · exact Nat.zero_lt_succ _
    · intro _ m sensors _ _ hop
      simp at hop
    · intro func' n'' hsame j hj
      simp only [Instr.mk.injEq, List.cons.injEq, Operand.label.injEq, Operand.u8.injEq,
        Payload.ofInt, Payload.value.injEq, Value.int.injEq, Int.natCast_inj] at hsame
      obtain ⟨_, ⟨rfl, _⟩, rfl, _⟩ := hsame
      exact hrest.next hj

variable (hplaced : image.CodeAt place a code)

include hplaced

lemma ends_jmp (hcode : code = xs ++ jumpInstr .jmp name :: ys) (htgt : name ∈ marks code →
      ∀ j, j < k → PathsEnd image valued a code f n Q j (place name).toNat h) :
    PathsEnd image valued a code f n Q k (a + width xs) h := by
  apply ends_at hcode (Nat.zero_lt_succ _) _ _ hplaced
  · intro hhere m sensors hm hidle _ hmarks hrun
    obtain ⟨c, hc, hle⟩ := hplaced.place_mark (hmarks name rfl)
    have hlt := hle.trans_lt image.codeSize.toNat_lt
    refine ⟨_, _, hm.jmp hidle hhere hc hlt hrun, fun j hj => ?_⟩
    simpa [hc] using htgt (hmarks name rfl) j hj
  · intro func n' hsame
    cases hsame

lemma ends_jz (hcode : code = xs ++ jumpInstr .jz name :: ys) (htgt : name ∈ marks code →
      ∀ j, j < k → PathsEnd image valued a code f n Q j (place name).toNat (h - 1))
    (hnext : PathsEnd image valued a code f n Q k (a + width (xs ++ [jumpInstr .jz name])) (h - 1))
    : PathsEnd image valued a code f n Q k (a + width xs) h := by
  apply ends_at hcode (Nat.zero_lt_succ _) _ _ hplaced
  · intro hhere m sensors hm hidle _ hmarks hrun
    obtain ⟨c, hc, hle⟩ := hplaced.place_mark (hmarks name rfl)
    have hlt := hle.trans_lt image.codeSize.toNat_lt
    rcases hm.jz hidle hhere hc hlt hrun with hjumped | hwent
    · refine ⟨_, _, hjumped, fun j hj => ?_⟩
      simpa [hc] using htgt (hmarks name rfl) j hj
    · exact ⟨_, _, hwent, fun j hj => hnext.next hj⟩
  · intro func n' hsame
    cases hsame

lemma ends_return {op} (hop : op = .ret ∨ op = .ret0) (hcode : code = xs ++ .plain op :: ys) :
    PathsEnd image valued a code f n Q k (a + width xs) h := by
  have hwide : 0 < (Instr.plain op).width := by
    rcases hop with rfl | rfl <;> exact Nat.zero_lt_succ _
  apply ends_at hcode hwide _ _ hplaced
  · intro _ m sensors _ _ hnot
    rcases hop with rfl | rfl <;> exact absurd hnot (by decide)
  · intro func n' hsame
    cases hsame

lemma flowRules_pathsEnd :
    FlowRules valued code (fun k xs h => PathsEnd image valued a code f n Q k (a + width xs) h)
      fun k name h => name ∈ marks code →
        ∀ j, j < k → PathsEnd image valued a code f n Q j (place name).toNat h where
  mono he hj := he.mono hj
  parts hparts := ends_parts hparts hplaced
  jmp := ends_jmp hplaced
  jz := ends_jz hplaced
  ret hop := ends_return hplaced hop
  label _ hnext := by simpa using hnext
  lands xs hcode h _ j hj := by
    rw [hcode] at hplaced
    have hhere := (Image.codeAt_append.1 hplaced).2.1.2.2 _ rfl
    rw [hhere, Int.toNat_natCast]
    exact h j hj

end

/-- A statement that starts right above the locals of its frame ends, on every path through its code
to its end, the words above them that a way through it leaves. -/
theorem top_behind_statement {func : String} {exit? : Option String} {index : Nat}
    {s s' : GenState} {st : Stmt} {r : StmtCode}
    (hmade : stmtCode func exit? index s st = .ok (r, s')) {image : Image} {place : String → Int}
    {a : Nat} (hplaced : image.CodeAt place a r.code) (valued : String → Bool) {k : Nat}
    {m m' : State} (hstart : Standing image m.frame m.locals a 0 m)
    (hpath : Path valued a r.code k m m') (hend : m'.pc.toNat = a + width r.code) :
    (∃ d, Ways (excess s.symbols valued) [st] .behind d ∧
      Standing image m.frame m.locals (a + width r.code) d m') ∧
    ((∀ wanted e, (wanted, e) ∈ stmtParts st → excess s.symbols valued wanted e = 0) →
      m'.top.toNat = m'.frame.toNat + 3 + m'.locals.toNat) ∧
    (∀ e, st = .expr e → (m'.top.toNat = m'.frame.toNat + 3 + m'.locals.toNat ↔
      excess s.symbols valued false e = 0)) ∧
    ∀ v e, st = .decl v → v.isConst = false → v.init = some e →
      (m'.top.toNat = m'.frame.toNat + 3 + m'.locals.toNat ↔
        excess s.symbols valued true e = 0) := by
  have hrules : FlowRules valued r.code (fun k xs h =>
    PathsEnd image valued a r.code m.frame m.locals
      (Ways (excess s.symbols valued) [st] .behind) k (a + width xs) h) _ :=
    flowRules_pathsEnd hplaced
  have hends := flows_coded hrules (coded_stmtCode st hmade) (fun _ => rfl) [] [] (by simp)
    k 0 ?_ ?_
  · obtain ⟨d, hways, hm'⟩ := hends k le_rfl m m' (by simpa using hstart) hpath hend
    have htop := hm'.top
    rw [← hm'.frame, ← hm'.locals] at htop
    refine ⟨⟨d, hways, hm'⟩, ?_, ?_, ?_⟩
    · intro hlevel
      have hzero : d = 0 := hways.eq_zero fun p hp => hlevel p.1 p.2 (by simpa [partsOf] using hp)
      omega
    · rintro e rfl
      have hd := Ways.expr_iff.1 hways
      omega
    · rintro v e rfl hvar hinit
      have hd := (Ways.let_iff hvar hinit).1 hways
      omega
  · intro d hd
    rw [List.nil_append, Int.zero_add]
    exact ends_behind hd
  · intro exit _ d hd hmark
    -- A statement that leaves the loop is a jump, without a label.
    cases hd.eq_leaveLoop
    rcases stmtCode_leaveLoop.1 hmade with ⟨_, _, rfl, _⟩
    cases hmark

/-- A call of a function without result, as a statement. -/
def voidCall : Stmt := .expr (.call "v" (.ofFunction [] .void) [])

def voidCallCode : List Instr := [⟨.call, [.label "v" none, .u8 (.ofInt 0)]⟩, .plain .pop]

/-- The machine around the call, which is followed by the function. -/
def voidCallState (pc top : UInt16) (frame : UInt8) (word : UInt32) : State where
  image := ⟨#[0x05, 5, 0, 0, 0x16, 0x06, 0, 0x08], 0, 0, 0, 8⟩
  pc := pc
  stack := #[0, 0, 0, word, 0, 0]
  top := top
  frame := frame

/-- Behind the call of a function without result a word of the frame is gone. -/
theorem top_behind_void_call : stmtCode "main" none 0 (.start .empty) voidCall =
        .ok (.ofCode voidCallCode, .start .empty) ∧
      Path (fun _ => false) 0 voidCallCode 2 (voidCallState 0 3 0 0) (voidCallState 5 2 0 4) ∧
      (voidCallState 5 2 0 4).top.toNat ≠
        (voidCallState 5 2 0 4).frame.toNat + 3 + (voidCallState 5 2 0 4).locals.toNat := by
  have hmade : stmtCode "main" none 0 (.start .empty) voidCall =
      .ok (.ofCode voidCallCode, .start .empty) := rfl
  have hplaced : (voidCallState 0 3 0 0).image.CodeAt (fun _ => 5) 0 voidCallCode :=
    ⟨⟨⟨"v", none, _, _, rfl, rfl⟩, ⟨by decide, by decide⟩, by decide⟩,
      ⟨⟨_, rfl⟩, ⟨by decide, by decide⟩, by decide⟩, trivial⟩
  have hholds : (voidCallState 0 3 0 0).image.Holds (voidCallState 0 3 0 0).pc.toNat
      (Opcode.call.code :: [5, 0, 0]) := ⟨by decide, by decide⟩
  have hcallStep : ((voidCallState 0 3 0 0).step ⟨false, []⟩).2 = voidCallState 5 6 3 4 := by
    rw [step_eq_perform ⟨false, []⟩ rfl hholds]
    rfl
  have hretStep : ((voidCallState 7 6 3 4).step ⟨false, []⟩).2 = voidCallState 4 3 0 4 := rfl
  have hpopStep : ((voidCallState 4 3 0 4).step ⟨false, []⟩).2 = voidCallState 5 2 0 4 := rfl
  have hcalled : Called 3 (0 % 256) ((voidCallState 0 3 0 0).pc.toNat + 4).toUInt16
      (voidCallState 0 3 0 0) ((voidCallState 0 3 0 0).step ⟨false, []⟩).2 := by
    rw [hcallStep]
    exact ⟨rfl, rfl, rfl, rfl, rfl, rfl, rfl, rfl, rfl, rfl, by decide, by decide⟩
  have hret : Returning false ((voidCallState 0 3 0 0).step ⟨false, []⟩).2
      (voidCallState 7 6 3 4) := by
    rw [hcallStep]
    exact ⟨rfl, rfl, rfl, by decide, ⟨by decide, by decide⟩⟩
  have hcall : Move (fun _ => false) 0 voidCallCode (voidCallState 0 3 0 0)
      ((voidCallState 7 6 3 4).step ⟨false, []⟩).2 :=
    @Move.call _ _ _ _ _ [] _ "v" 0 _ _ _ rfl rfl rfl rfl hcalled hret (by rw [hretStep]; rfl)
  have hpop : Move (fun _ => false) 0 voidCallCode (voidCallState 4 3 0 4)
      ((voidCallState 4 3 0 4).step ⟨false, []⟩).2 :=
    @Move.step _ _ _ _ [⟨.call, [.label "v" none, .u8 (.ofInt 0)]⟩] _ _ _ rfl rfl rfl (by decide)
      (by intro name hname; cases hname) (by rw [hpopStep]; rfl)
  rw [hretStep] at hcall
  rw [hpopStep] at hpop
  have hpath := Path.head hcall (.head hpop (.refl _))
  refine ⟨hmade, hpath, fun hneutral => ?_⟩
  have hexcess := ((top_behind_statement hmade hplaced _ ⟨rfl, rfl, rfl, rfl, rfl, rfl⟩ hpath
    rfl).2.2.1 _ rfl).1 hneutral
  exact absurd hexcess (by decide)

end ArmStudio.Machine
