import ArmStudio.Proofs.ExprSimulation

/-!
# The machine follows the evaluator: calls and statements

The remaining parts of the simulation, and the simulation itself.

* `Back.of_ret`, `Back.of_ret0` — returns;
* `callFunc_simulated` — calls: the frame of the callee is entered with its arguments in the first
  slots, and a return leaves the caller's stack as it was;
* `stmt_simulated`, `stmts_simulated` — statements;
* `simulates` — for every amount of fuel.
-/

namespace ArmStudio.Machine

open Code Script Image Option

variable {sensors : Sensors} {image : Image} {place : String → Int} {p : Program}
  {globals : List String} {n : Nat} {fr : Frame} {a b c h : Nat} {s s' s1 : Store} {v : Int32}
  {m m1 : State} {exit? : Option String} {outcome : Outcome} {code rest : List Instr}

variable {result : Option Int32} {m0 : State} {values : List Int32} {before : Table Int32}
  {name : String}

lemma Back.after_kept {values} {m2 : State} {frame locals : UInt8} {base : Nat}
    (hback : Back globals base frame locals result values m1 m2)
    (hkept : ∀ i, i < base → m1.stack[i]? = m.stack[i]?) :
    Back globals base frame locals result values m m2 :=
  ⟨hback.size, hback.frame, hback.locals, hback.globals,
    fun i hi => by rw [hback.below i hi, hkept i hi], hback.top, hback.value⟩

lemma Stands.frame_words (hs : Stands globals fr h s m) :
    m.stack[m.frame.toNat]? = some fr.back.toUInt32 ∧
      m.stack[m.frame.toNat + 1]? = some fr.outerFrame.toUInt32 ∧
      m.stack[m.frame.toNat + 2]? = some fr.outerLocals.toUInt32 := by
  rw [hs.frame]
  exact ⟨hs.back, hs.outerFrame, hs.outerLocals⟩

lemma State.At.returned (hm : m.At image a) (back : UInt16) (frame locals : UInt8) :
    (m.returned back frame locals).At image back.toNat :=
  ⟨hm.image, rfl, hm.idle, hm.running⟩

lemma ret0_reaches (hm : m.At image a) (hs : Stands globals fr h s m)
    (hc : image.CodeAt place a (.plain .ret0 :: rest)) :
    Reaches sensors image m fr.back.toNat
      (Back globals fr.base fr.outerFrame fr.outerLocals none s.globals m) := by
  rcases hs.frame_words with ⟨hback, hframe, hlocs⟩
  have hstep := hm.step_ret0 sensors (hc.holds_plain (by decide) rfl rfl)
  rw [State.unframed_eq hback hframe hlocs] at hstep
  refine .step hm hstep (hm.returned _ _ _) ?_
  refine ⟨hs.size, rfl, rfl, ⟨hs.globals.names, hs.globals.values⟩, fun _ _ => rfl, ?_, by simp⟩
  show m.frame.toUInt16.toNat = fr.base
  rw [UInt8.toNat_toUInt16, hs.frame]

lemma ret_reaches (hm : m.At image a) (hleft : Left globals fr h s v true m0 m)
    (hbound : fr.base + 3 + fr.count ≤ h) (hc : image.CodeAt place a (.plain .ret :: rest)) :
    Reaches sensors image m fr.back.toNat
      (Back globals fr.base fr.outerFrame fr.outerLocals (some v) s.globals m) := by
  have hs := hleft.stands_succ
  rcases hs.frame_words with ⟨hback, hframe, hlocs⟩
  have hstep := hm.step_ret sensors (hc.holds_plain (by decide) rfl rfl) hs.top
    (by rw [hs.frame]; omega)
  rw [State.unframed_eq hback hframe hlocs, hleft.value rfl, getD_some] at hstep
  have htop : (m.returned fr.back fr.outerFrame fr.outerLocals).top.toNat = fr.base := by
    show m.frame.toUInt16.toNat = fr.base
    rw [UInt8.toNat_toUInt16, hs.frame]
  have hsmall : fr.base < 256 := by
    rw [← hs.frame]
    exact m.frame.toNat_lt
  have hsize : m.stack.size = 1024 + 1 := hs.size
  refine .step hm hstep
    ((hm.returned fr.back fr.outerFrame fr.outerLocals).same rfl rfl rfl rfl) ?_
  refine ⟨?_, rfl, rfl, ⟨hs.globals.names, hs.globals.values⟩, ?_, ?_, ?_⟩
  · rw [State.pushed_stack, Array.size_setIfInBounds]
    exact hs.size
  · intro i hi
    rw [State.pushed_stack, htop, Array.getElem?_setIfInBounds_ne (by omega)]
    rfl
  · rw [State.toNat_pushed_top _ (by omega), htop]
    rfl
  · intro w hw
    cases hw
    have hin : fr.base < (m.returned fr.back fr.outerFrame fr.outerLocals).stack.size := by
      show fr.base < m.stack.size
      omega
    rw [State.pushed_stack, htop, Array.getElem?_setIfInBounds_self_of_lt hin]

/-! ## Calls -/

lemma findIn_zip {names : List String} {x : String}
    (hx : Table.findIn x (names.zip values) = some v) :
    ∃ i : Nat, names[i]? = some x ∧ values[i]? = some v := by
  induction names generalizing values with
  | nil => simp [Table.findIn] at hx
  | cons name names ih =>
    cases values with
    | nil => simp [Table.findIn] at hx
    | cons value values =>
      by_cases hname : name = x
      · refine ⟨0, by simp [hname], ?_⟩
        simpa [Table.findIn, hname] using hx
      · have hrest : Table.findIn x (names.zip values) = some v := by
          simpa [Table.findIn, hname] using hx
        rcases ih hrest with ⟨i, hi, hv⟩
        exact ⟨i + 1, by simpa using hi, by simpa using hv⟩

/-- The frame that a call from address `a` makes. -/
def calleeFrame (globals : List String) (f : FuncDecl) (h a : Nat) (m : State) : Frame :=
  ⟨h, f.localCount, cellOf globals f.localNames, (a + 4).toUInt16, m.frame, m.locals⟩

lemma Called.stands {f : FuncDecl} (hcalled : Called h values.length (a + 4).toUInt16 m m1)
    (hf : Installed globals image place f) (hh : h ≤ 255) (hsize : m.stack.size = stackSize + 1)
    (hvals : ∀ i v, values[i]? = some v → m.stack[h + i]? = some v.toUInt32)
    (hglobs : HasGlobals globals before m) (k : Nat) :
    Stands globals (calleeFrame globals f h a m) (h + 3 + f.localCount)
      ⟨before, bindParams f.params values⟩ ((m1.advance k).entered f.localCount) := by
  have hsmall := hf.small
  refine ⟨hcalled.size.trans hsize, hcalled.frame, ?_, ?_, le_rfl, hcalled.back,
    hcalled.outerFrame, hcalled.outerLocals, ⟨hglobs.names, ?_⟩, ?_⟩
  · show f.localCount.toUInt8.toNat = f.localCount
    simp
    omega
  · show (m1.frame.toUInt16 + 3 + f.localCount.toUInt16).toNat = h + 3 + f.localCount
    have hframe := hcalled.frame
    simp only [UInt16.toNat_add, UInt8.toNat_toUInt16, hframe, UInt16.toNat_ofNat,
      Nat.toUInt16_eq, UInt16.toNat_ofNat']
    omega
  · show m1.globals.toList = _
    rw [hcalled.globals, hglobs.values]
  · intro x v hx
    rcases findIn_zip hx with ⟨i, hi, hv⟩
    refine ⟨i, cellOf_param hf.distinct hi, ?_⟩
    have hlt : i < values.length := (List.getElem?_eq_some_iff.1 hv).1
    show m1.stack[h + 3 + i]? = some v.toUInt32
    rw [hcalled.args i hlt, hvals i v hv, getD_some]

lemma callFunc_simulated (hload : Loaded p globals image place)
    (ih : Simulates sensors image place p globals n) {after}
    (heval : callFunc machineRoom p (n + 1) h before name values = some (result, after))
    (hm : m.At image a) (hsize : m.stack.size = stackSize + 1)
    (htop : m.top.toNat = h + values.length)
    (hvals : ∀ i v, values[i]? = some v → m.stack[h + i]? = some v.toUInt32)
    (hglobs : HasGlobals globals before m) (hc : image.CodeAt place a
      (⟨.call, [.label name none, .u8 (.ofInt values.length)]⟩ :: rest)) :
    Reaches sensors image m (a + 4) (Back globals h m.frame m.locals result after m) := by
  rcases callFunc_eq_some.1 heval with
    ⟨f, outcome, s, hfunc, hh, hlen, hexec, hres, rfl⟩
  have hname : f.name = name := (Program.func?_eq_some hfunc).2
  have hf := hload.installed name f hfunc
  rcases hf.code with ⟨b, body, tail, hplace, hbody, hcode, hend⟩
  have hsmall := hf.small
  have hpars : f.params.length ≤ f.localCount := by
    rw [hf.counted, FuncDecl.localNames]
    simp
  simp only [codeAt_append] at hcode
  rcases hcode with ⟨⟨hhead, hbodyCode⟩, htail⟩
  -- The label has no width, so the function starts with its `enter`.
  have henter : image.CodeAt place b [⟨.enter, [.u8 (.ofInt f.localCount)]⟩] := hhead.2
  have hin : b < image.codeSize.toNat := henter.1.2.1.lt_codeSize
  have hback : (a + 4).toUInt16.toNat = a + 4 := by
    have hle : a + 4 ≤ image.codeSize.toNat := hc.1.2.1.1
    have hlt := image.codeSize.toNat_lt
    simp
    omega
  have hbytes := hc.holds_jump rfl (argBytes_u8 values.length)
  rw [← hname, hplace] at hbytes
  obtain ⟨hm1, hcalled⟩ := hm.step_call sensors hbytes hin (by omega) htop hh hsize
  generalize hcall : (m.step sensors).2 = m1 at hm1 hcalled
  have hm2 : ((m1.advance 2).entered f.localCount).At image (b + 2) :=
    (hm1.behind henter rfl).same rfl rfl rfl rfl
  have hstands := hcalled.stands hf hh hsize hvals hglobs 2
  have hlayout : Layout globals f.localCount (cellOf globals f.localNames) := by
    rw [hf.counted]
    exact layout_cellOf hf.apart
  have hbodyIs : StmtsAre (calleeFrame globals f h a m).cell none f.body body := hbody
  have hbodyEnd : canEnd f.body = true → b + 2 + width body < image.codeSize.toNat := by
    intro hcan
    rcases hend hcan with ⟨others, rfl⟩
    rw [width_append, ← add_assoc] at htail
    exact htail.1.2.1.lt_codeSize
  have hends := ih.stmts hexec hbodyIs hlayout hstands hm2 hbodyCode hbodyEnd (by simp)
  have hfirst : Reaches sensors image m (b + 2) (· = (m1.advance 2).entered f.localCount) :=
    (Reaches.step hm hcall hm1 rfl).trans fun m' _ hm' => by
      subst hm'
      exact .step hm1 (hm1.step_enter sensors
        (henter.holds_plain (by decide) rfl (argBytes_u8 _)) hsmall) hm2 rfl
  rw [← hback]
  refine hfirst.trans fun m' _ hm' => ?_
  subst hm'
  cases outcome with
  | normal =>
    cases hres
    -- The body was left at its end, so a return without result stands there.
    rcases hend ((endsAsExpected machineRoom p n).stmts hexec) with ⟨others, rfl⟩
    rw [width_append, ← add_assoc] at htail
    refine hends.trans ?_
    rintro m3 hm3 ⟨hstands3, hkept3⟩
    refine (ret0_reaches hm3 hstands3 htail).imp fun m4 hback4 => ?_
    refine hback4.after_kept fun i hi => ?_
    rw [hkept3 i (.inl hi)]
    exact hcalled.below i hi
  | broke => cases hres
  | returned v =>
    cases hres
    exact hends.imp fun m3 hback3 => hback3.after_kept hcalled.below

/-! ## Statements -/

lemma Reaches.through (hfirst : Reaches sensors image m c (· = m1)) (hkept : Kept fr h m m1)
    (hnext : Reaches sensors image m1 b fun m' => Stands globals fr h s' m' ∧ Kept fr h m1 m') :
    Reaches sensors image m b fun m' => Stands globals fr h s' m' ∧ Kept fr h m m' := by
  refine hfirst.trans fun m' _ hm' => ?_
  subst hm'
  refine hnext.imp ?_
  rintro m2 ⟨hstands2, hkept2⟩
  exact ⟨hstands2, hkept.trans hkept2 le_rfl⟩

lemma Reaches.kept (hfirst : Reaches sensors image m c fun m' =>
      Stands globals fr h s1 m' ∧ Kept fr h m m')
    (hnext : ∀ m', m'.At image c → Stands globals fr h s1 m' →
      Reaches sensors image m' b fun m'' => Stands globals fr h s' m'' ∧ Kept fr h m' m'') :
    Reaches sensors image m b fun m' => Stands globals fr h s' m' ∧ Kept fr h m m' := by
  rcases hfirst with ⟨m1, hruns1, hm1, hstands1, hkept1⟩
  exact .through ⟨m1, hruns1, hm1, rfl⟩ hkept1 (hnext m1 hm1 hstands1)

lemma Ends.after (hfirst : Reaches sensors image m c fun m' =>
      Stands globals fr h s1 m' ∧ Kept fr h m m')
    (hnext : ∀ m', m'.At image c → Stands globals fr h s1 m' →
      Ends sensors image place globals fr h exit? b s' m' outcome) :
    Ends sensors image place globals fr h exit? b s' m outcome := by
  rcases hfirst with ⟨m1, hruns1, hm1, hstands1, hkept1⟩
  have hends := hnext m1 hm1 hstands1
  have hreach : Reaches sensors image m c (· = m1) := ⟨m1, hruns1, hm1, rfl⟩
  cases outcome with
  | normal => exact hreach.through hkept1 hends
  | broke =>
    rcases hends with ⟨exit, e, hexit, hplace, hreach2⟩
    exact ⟨exit, e, hexit, hplace, hreach.through hkept1 hreach2⟩
  | returned v =>
    refine hreach.trans fun m' _ hm' => ?_
    subst hm'
    exact hends.imp fun m2 hback => hback.after_kept fun i hi => hkept1 i (.inl hi)

lemma Ends.of_none (hends : Ends sensors image place globals fr h none b s' m outcome) :
    Ends sensors image place globals fr h exit? b s' m outcome := by
  cases outcome with
  | normal | returned => exact hends
  | broke =>
    rcases hends with ⟨exit, _, hexit, _⟩
    cases hexit

lemma jmp_reaches (hm : m.At image a) (hs : Stands globals fr h s m)
    (hc : image.CodeAt place a (jumpInstr .jmp name :: rest)) (hplace : place name = b)
    (hin : b < image.codeSize.toNat) :
    Reaches sensors image m b fun m' => Stands globals fr h s m' ∧ Kept fr h m m' :=
  .step hm (hm.step_jmp sensors hc hplace hin) (hm.goto hin) ⟨hs.goto _, fun _ _ => rfl⟩

lemma jz_reaches (hm : m.At image a) (hleft : Left globals fr h s v true m0 m)
    (hbound : fr.base + 3 + fr.count ≤ h) (hc : image.CodeAt place a (jumpInstr .jz name :: rest))
    (hplace : place name = b) (hin : b < image.codeSize.toNat) :
    Reaches sensors image m (if v = 0 then b else a + 3) fun m' =>
      Stands globals fr h s m' ∧ Kept fr h m0 m' := by
  have hs := hleft.stands_succ
  have hstep := hm.step_jz sensors hc hplace hin hs.top
  rw [hleft.value rfl, getD_some] at hstep
  have hzero : v.toUInt32 = 0 ↔ v = 0 := toUInt32_inj v 0
  have hpop := hs.popped hbound
  by_cases h0 : v = 0
  · rw [if_pos (hzero.2 h0)] at hstep
    rw [if_pos h0]
    have hat : m.popped.At image a := hm.same rfl rfl rfl rfl
    exact .step hm hstep (hat.goto hin) ⟨hpop.goto _, hleft.kept⟩
  · rw [if_neg (fun h' => h0 (hzero.1 h'))] at hstep
    rw [if_neg h0]
    exact .step hm hstep ((hm.behind hc rfl).same rfl rfl rfl rfl) ⟨hpop.goto _, hleft.kept⟩

lemma start_lt {cell body} (his : StmtsAre cell exit? body code) (hc : image.CodeAt place a code)
    (hend : canEnd body → a + width code < image.codeSize.toNat) :
    a < image.codeSize.toNat := by
  cases hcan : canEnd body with
  | true =>
    have := hend hcan
    omega
  | false =>
    have hpos := his.width_pos hcan
    have hne : code ≠ [] := by
      rintro rfl
      simp at hpos
    have := hc.end_le hne
    omega

section

variable (hl : Layout globals fr.count fr.cell) (hs : Stands globals fr h s m) (hm : m.At image a)
include hl hs hm

lemma decl_simulated (hload : Loaded p globals image place)
    (ih : Simulates sensors image place p globals n) {d} {e : Expr}
    {i : Nat} (hexec : execStmt machineRoom p (n + 1) h s (.decl d) = some (outcome, s'))
    (hinit : d.init = some e) (hcell : fr.cell d.name = .slot i)
    (hcode : code = coreExpr fr.cell true e ++ [(Cell.slot i).store])
    (hc : image.CodeAt place a code) :
    Ends sensors image place globals fr h exit? (a + width code) s' m outcome := by
  subst hcode
  rcases execStmt_decl hexec with ⟨rfl, e', v, s1, he', hv, rfl⟩
  rw [hinit, some.injEq] at he'
  subst he'
  simp only [width_append, ← add_assoc, codeAt_append] at hc ⊢
  refine (ih.expr hv hl hs hm hc.1).trans fun m1 hm1 hleft1 => ?_
  have hs1 := hleft1.stands_succ
  have hassigns : Assigns globals fr.cell d.name v s1 _ := .inl ⟨i, hcell, rfl⟩
  have hcov := hs1.covers hl hassigns
  rw [← hcell] at hc ⊢
  refine (store_arrives hm1 (hs1.within hload.few) (hs1.inside hs.room) (hleft1.value rfl) hcov
    hc.2).reaches.imp fun m2 hm2 => ?_
  obtain ⟨hstands, hkept⟩ := hs1.write hl hs.room hassigns hm2.1 le_rfl hm2.2
    (hm2.2.covers hcov)
  exact ⟨hstands, hleft1.kept.trans hkept le_rfl⟩

variable {cond : Expr} {final first : String} {body : List Stmt}
  (ih : Simulates sensors image place p globals n)

include ih

lemma ifElse_simulated {yes no yesCode noCode} {other : String}
    (hexec : execStmt machineRoom p (n + 1) h s (.ifElse cond yes no) = some (outcome, s'))
    (hyes : StmtsAre fr.cell none yes yesCode) (hno : StmtsAre fr.cell none no noCode)
    (hcode : code = coreExpr fr.cell true cond ++ [jumpInstr .jz other] ++ yesCode ++
      [jumpInstr .jmp final, labelInstr other] ++ noCode ++ [labelInstr final])
    (hc : image.CodeAt place a code)
    (hend : (canEnd yes || canEnd no) = true → a + width code < image.codeSize.toNat) :
    Ends sensors image place globals fr h exit? (a + width code) s' m outcome := by
  subst hcode
  rcases execStmt_ifElse hexec with ⟨v, s1, hv, hbr⟩
  simp only [width_append, width_cons, width_nil, width_jz, width_jmp, width_labelInstr,
    add_zero, ← add_assoc, codeAt_append] at hc hend ⊢
  rcases hc with ⟨⟨⟨⟨⟨htest, hjz⟩, hyesCode⟩, hjmp⟩, hnoCode⟩, hfinal⟩
  have hotherPlace : place other = _ := hjmp.2.1.2.2 other rfl
  have hfinalPlace : place final = _ := hfinal.1.2.2 final rfl
  -- The address of the jump is checked also where the condition holds.
  have hotherIn := start_lt hno hnoCode fun hcan => hend (by simp [hcan])
  refine Ends.after ((ih.expr hv hl hs hm htest).trans fun m1 hm1 hleft1 =>
    jz_reaches hm1 hleft1 hs.room hjz hotherPlace hotherIn) fun m2 hm2 hstands2 => ?_
  by_cases h0 : v = 0
  · rw [if_pos h0] at hbr hm2
    exact (ih.stmts hbr hno hl hstands2 hm2 hnoCode (fun hcan => hend (by simp [hcan]))
      (by simp)).of_none
  · rw [if_neg h0] at hbr hm2
    have hjmpIn := hjmp.1.2.1.lt_codeSize
    have hends := ih.stmts hbr hyes hl hstands2 hm2 hyesCode (fun _ => hjmpIn) (by simp)
    cases outcome with
    | normal =>
      have hcan : canEnd yes = true := (endsAsExpected machineRoom p n).stmts hbr
      exact hends.kept fun m3 hm3 hstands3 =>
        jmp_reaches hm3 hstands3 hjmp hfinalPlace (hend (by simp [hcan]))
    | broke => exact hends.of_none
    | returned r => exact hends

lemma repeats_simulated {again firstOutcome}
    {s2 : Store} (hexec : execStmts machineRoom p n h s body = some (firstOutcome, s2))
    (hrepeats : Repeats again firstOutcome s2 outcome s')
    (hbody : StmtsAre fr.cell (some final) body code) (hcode : image.CodeAt place a code)
    (hjmp : image.CodeAt place (a + width code) [jumpInstr .jmp first, labelInstr final])
    (hfirst : place first = b) (hin : b < image.codeSize.toNat)
    (hend : canBreak body → a + width code + 3 < image.codeSize.toNat)
    (hagain : ∀ m', m'.At image b → Stands globals fr h s2 m' → again s2 = some (outcome, s') →
      Ends sensors image place globals fr h exit? (a + width code + 3) s' m' outcome) :
    Ends sensors image place globals fr h exit? (a + width code + 3) s' m outcome := by
  have hfinal : place final = (a + width code + 3 : Nat) := hjmp.2.1.2.2 final rfl
  have hexit : ∀ exit, some final = some exit → canBreak body = true →
      ∃ e : Nat, place exit = e ∧ e < image.codeSize.toNat := by
    rintro exit hsome hcan
    cases hsome
    exact ⟨_, hfinal, hend hcan⟩
  have hends := ih.stmts hexec hbody hl hs hm hcode (fun _ => hjmp.1.2.1.lt_codeSize) hexit
  rcases hrepeats with ⟨rfl, hmore⟩ | ⟨rfl, rfl, rfl⟩ | ⟨v, rfl, rfl, rfl⟩
  · exact Ends.after
      (hends.kept fun m1 hm1 hstands1 => jmp_reaches hm1 hstands1 hjmp hfirst hin)
      fun m2 hm2 hstands2 => hagain m2 hm2 hstands2 hmore
  · rcases hends with ⟨exit, e, hsome, hplace, hreach⟩
    cases hsome
    -- The place of the label is known twice.
    have he : e = a + width code + 3 := by
      rw [hfinal] at hplace
      omega
    exact he ▸ hreach
  · exact hends

lemma whileDo_simulated {inner}
    (hexec : execStmt machineRoom p (n + 1) h s (.whileDo cond body) = some (outcome, s'))
    (hbody : StmtsAre fr.cell (some final) body inner)
    (hcode : code = [labelInstr first] ++ coreExpr fr.cell true cond ++ [jumpInstr .jz final] ++
      inner ++ [jumpInstr .jmp first, labelInstr final]) (hc : image.CodeAt place a code)
    (hend : a + width code < image.codeSize.toNat) :
    Ends sensors image place globals fr h exit? (a + width code) s' m outcome := by
  subst hcode
  rcases execStmt_whileDo hexec with ⟨v, s1, hv, hcases⟩
  have hagain : ∀ m' s2, m'.At image a → Stands globals fr h s2 m' →
      execStmt machineRoom p n h s2 (.whileDo cond body) = some (outcome, s') →
      Ends sensors image place globals fr h exit? _ s' m' outcome := fun m' s2 hm' hstands' hmore =>
    ih.stmt hmore (.whileDo first final hbody) hl hstands' hm' hc (fun _ => hend)
      (by simp [Stmt.canBreak])
  simp only [width_append, width_cons, width_nil, width_jz, width_jmp, width_labelInstr,
    add_zero, zero_add, ← add_assoc, codeAt_append] at hc hend hagain ⊢
  rcases hc with ⟨⟨⟨⟨hlabel, htest⟩, hjz⟩, hcode⟩, hjmp⟩
  have hfirst : place first = a := hlabel.1.2.2 first rfl
  have hfinal : place final = _ := hjmp.2.1.2.2 final rfl
  refine Ends.after ((ih.expr hv hl hs hm htest).trans fun m1 hm1 hleft1 =>
    jz_reaches hm1 hleft1 hs.room hjz hfinal hend) fun m2 hm2 hstands2 => ?_
  rcases hcases with ⟨h0, rfl, rfl⟩ | ⟨h0, firstOutcome, s2, hfirstExec, hrepeats⟩
  · rw [if_pos h0] at hm2
    exact .refl hm2 ⟨hstands2, .refl m2⟩
  · rw [if_neg h0] at hm2
    exact repeats_simulated hl hstands2 hm2 ih hfirstExec hrepeats hbody hcode hjmp hfirst
      (by omega) (fun _ => hend) fun m' hm' hstands' hmore => hagain m' s2 hm' hstands' hmore

lemma loop_simulated {inner}
    (hexec : execStmt machineRoom p (n + 1) h s (.loop body) = some (outcome, s'))
    (hbody : StmtsAre fr.cell (some final) body inner)
    (hcode : code = [labelInstr first] ++ inner ++ [jumpInstr .jmp first, labelInstr final])
    (hc : image.CodeAt place a code)
    (hend : canBreak body → a + width code < image.codeSize.toNat) :
    Ends sensors image place globals fr h exit? (a + width code) s' m outcome := by
  subst hcode
  rcases execStmt_loop hexec with ⟨firstOutcome, s1, hfirstExec, hrepeats⟩
  have hagain : ∀ m' s2, m'.At image a → Stands globals fr h s2 m' →
      execStmt machineRoom p n h s2 (.loop body) = some (outcome, s') →
      Ends sensors image place globals fr h exit? _ s' m' outcome := fun m' s2 hm' hstands' hmore =>
    ih.stmt hmore (.loop first final hbody) hl hstands' hm' hc
      (fun hcan => hend (by simpa [Stmt.canEnd] using hcan)) (by simp [Stmt.canBreak])
  simp only [width_append, width_cons, width_nil, width_jmp, width_labelInstr,
    add_zero, zero_add, ← add_assoc, codeAt_append] at hc hend hagain ⊢
  rcases hc with ⟨⟨hlabel, hcode⟩, hjmp⟩
  have hfirst : place first = a := hlabel.1.2.2 first rfl
  have hin : a < image.codeSize.toNat := by
    have := hjmp.1.2.1.lt_codeSize
    omega
  exact repeats_simulated hl hs hm ih hfirstExec hrepeats hbody hcode hjmp hfirst hin hend
    fun m' hm' hstands' hmore => hagain m' s1 hm' hstands' hmore

omit hl hs hm in
theorem stmt_simulated (hload : Loaded p globals image place) {st : Stmt} :
    StmtSimulated sensors image place p globals (n + 1) st := by
  intro fr h s outcome s' exit? code m a hexec his hl hs hm hc hend hexit
  cases his with
  | expr e =>
    rcases execStmt_expr hexec with ⟨rfl, v, hv⟩
    exact (ih.expr hv hl hs hm hc).imp fun m1 hleft => ⟨by simpa using hleft.stands, hleft.kept⟩
  | decl hinit hcell => exact decl_simulated hl hs hm hload ih hexec hinit hcell rfl hc
  | ifElse other final hyes hno =>
    exact ifElse_simulated hl hs hm ih hexec hyes hno rfl hc fun hcan =>
      hend (by simpa [Stmt.canEnd] using hcan)
  | whileDo first final hbody =>
    exact whileDo_simulated hl hs hm ih hexec hbody rfl hc (hend (by simp [Stmt.canEnd]))
  | loop first final hbody =>
    exact loop_simulated hl hs hm ih hexec hbody rfl hc fun hcan =>
      hend (by simpa [Stmt.canEnd] using hcan)
  | ret e =>
    rcases execStmt_ret hexec with ⟨v, hv, rfl⟩
    rw [codeAt_append] at hc
    refine (ih.expr hv hl hs hm hc.1).trans fun m1 hm1 hleft1 => ?_
    exact (ret_reaches hm1 hleft1 hs.room hc.2).imp fun m2 hback =>
      hback.after_kept fun i hi => hleft1.kept i (.inl hi)
  | retNone =>
    simp only [execStmt, some.injEq, Prod.mk.injEq] at hexec
    rcases hexec with ⟨rfl, rfl⟩
    exact ret0_reaches hm hs hc
  | leaveLoop exit =>
    simp only [execStmt, some.injEq, Prod.mk.injEq] at hexec
    rcases hexec with ⟨rfl, rfl⟩
    rcases hexit exit rfl (by simp [Stmt.canBreak]) with ⟨e, hplace, hin⟩
    exact ⟨exit, e, rfl, hplace, jmp_reaches hm hs hc hplace hin⟩

omit hl hs hm in
lemma stmts_simulated : StmtsSimulated sensors image place p globals (n + 1) body := by
  intro fr h s outcome s' exit? code m a hexec his hl hs hm hc hend hexit
  cases his with
  | nil =>
    simp only [execStmts, some.injEq, Prod.mk.injEq] at hexec
    rcases hexec with ⟨rfl, rfl⟩
    exact .refl hm ⟨hs, .refl m⟩
  | @cons _ st rest firstCode others hst hrest =>
    rcases execStmts_cons hexec with ⟨first, s1, hfirst, hcases⟩
    simp only [width_append, ← add_assoc, codeAt_append] at hc hend ⊢
    have hrestEnd : st.canEnd = true → canEnd rest = true →
        a + width firstCode + width others < image.codeSize.toNat :=
      fun hcan hcanRest => hend (by simp [canEnd, hcan, hcanRest])
    have hends := ih.stmt hfirst hst hl hs hm hc.1
      (fun hcan => start_lt hrest hc.2 (hrestEnd hcan))
      fun exit hsome hbreak => hexit exit hsome (by simp [canBreak, hbreak])
    rcases hcases with ⟨rfl, hrestExec⟩ | ⟨hne, rfl, rfl⟩
    · have hcan : st.canEnd = true := (endsAsExpected machineRoom p n).stmt hfirst
      exact Ends.after hends fun m1 hm1 hstands1 =>
        ih.stmts hrestExec hrest hl hstands1 hm1 hc.2 (hrestEnd hcan)
          fun exit hsome hbreak => hexit exit hsome (by simp [canBreak, hcan, hbreak])
    · cases outcome with
      | normal => exact absurd rfl hne
      | broke | returned => exact hends

end

lemma simulates (sensors : Sensors) (hload : Loaded p globals image place) (n : Nat) :
    Simulates sensors image place p globals n := by
  induction n with
  | zero =>
    exact ⟨fun heval => by simp [evalExpr] at heval, fun heval => by simp [evalArgs] at heval,
      fun heval => by simp [callFunc] at heval, fun hexec => by simp [execStmt] at hexec,
      fun hexec => by simp [execStmts] at hexec⟩
  | succ n ih =>
    exact ⟨expr_simulated hload ih, args_simulated ih, callFunc_simulated hload ih,
      stmt_simulated ih hload, stmts_simulated ih⟩

end ArmStudio.Machine
