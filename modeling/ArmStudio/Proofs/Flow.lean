import ArmStudio.Proofs.Drift

/-!
# Control through the code of statements

What is known behind code is carried back to its start: over operations, from jumps to where they
land, and round after round through loops.
-/

namespace ArmStudio.Code

open Script Symbols

/-- `P k xs h` is known behind the instructions `xs` of the code, with `k` moves left and `h` words
on the stack, and `L k name h` of a jump to the label `name` there. -/
structure FlowRules (valued : String → Bool) (code : List Instr)
    (P : Nat → List Instr → Int → Prop) (L : Nat → String → Int → Prop) : Prop where
  mono : ∀ {j k xs h}, P k xs h → j ≤ k → P j xs h
  parts : ∀ {part d}, Parts valued part d → ∀ {k xs ys h}, code = xs ++ part ++ ys →
    P k (xs ++ part) (h + d) → P k xs h
  jmp : ∀ {k xs ys name h}, code = xs ++ jumpInstr .jmp name :: ys → L k name h → P k xs h
  jz : ∀ {k xs ys name h}, code = xs ++ jumpInstr .jz name :: ys → L k name (h - 1) →
    P k (xs ++ [jumpInstr .jz name]) (h - 1) → P k xs h
  ret : ∀ {k xs ys op h}, op = .ret ∨ op = .ret0 → code = xs ++ .plain op :: ys → P k xs h
  label : ∀ {k xs ys name h}, code = xs ++ labelInstr name :: ys →
    P k (xs ++ [labelInstr name]) h → P k xs h
  lands : ∀ {k ys name h} xs, code = xs ++ labelInstr name :: ys → (∀ j < k, P j xs h) → L k name h

section

variable {valued : String → Bool} {symbols : Symbols} {code : List Instr}
  {P : Nat → List Instr → Int → Prop} {L : Nat → String → Int → Prop}

/-- What is known behind the code of statements, with the words that a way through them leaves, and
behind the loop that they leave, is carried back to its start. -/
def Flows (symbols : Symbols) (valued : String → Bool) (code : List Instr)
    (P : Nat → List Instr → Int → Prop) (L : Nat → String → Int → Prop) (exit? : Option String)
    (body : List Stmt) (part : List Instr) : Prop :=
  ∀ xs ys, code = xs ++ part ++ ys → ∀ k h,
    (∀ d, Ways (excess symbols valued) body .behind d → P k (xs ++ part) (h + d)) →
    (∀ exit, exit? = some exit → ∀ d, Ways (excess symbols valued) body .outOfLoop d →
      L k exit (h + d)) → P k xs h

variable (rules : FlowRules valued code P L)
include rules

variable {exit? : Option String} {cond : Expr} {body yes no : List Stmt}
  {test inner yesPart noPart : List Instr}

lemma flows_ifElse (htest : Parts valued test (1 + excess symbols valued true cond))
    (hyes : Flows symbols valued code P L none yes yesPart)
    (hno : Flows symbols valued code P L none no noPart) (other final : String) :
    Flows symbols valued code P L exit? [.ifElse cond yes no]
      (test ++ [jumpInstr .jz other] ++ yesPart ++ [jumpInstr .jmp final, labelInstr other] ++
        noPart ++ [labelInstr final]) := by
  intro xs ys hcode k h hbehind _
  -- Behind either branch the last label is next.
  have hend : ∀ d, Ways (excess symbols valued) [.ifElse cond yes no] .behind
        (excess symbols valued true cond + d) →
      P k (xs ++ test ++ [jumpInstr .jz other] ++ yesPart ++
        [jumpInstr .jmp final, labelInstr other] ++ noPart)
        (h + (1 + excess symbols valued true cond) - 1 + d) := by
    intro d hd
    refine rules.label (by simpa using hcode) ?_
    simpa [show h + (1 + excess symbols valued true cond) - 1 + d =
      h + (excess symbols valued true cond + d) by omega] using hbehind _ hd
  refine rules.parts htest (by simpa using hcode) ?_
  refine rules.jz (by simpa using hcode) ?_ ?_
  · refine rules.lands (xs ++ test ++ [jumpInstr .jz other] ++ yesPart ++ [jumpInstr .jmp final])
      (by simpa using hcode) fun j hj => ?_
    refine rules.label (by simpa using hcode) ?_
    refine hno _ ([labelInstr final] ++ ys) (by simpa using hcode) j _ (fun d hd => ?_) (by simp)
    simpa using rules.mono (hend d (by simpa using Ways.no hd .nil)) hj.le
  · refine hyes _ ([jumpInstr .jmp final, labelInstr other] ++ noPart ++ [labelInstr final] ++ ys)
      (by simpa using hcode) k _ (fun d hd => ?_) (by simp)
    refine rules.jmp (by simpa using hcode) (rules.lands (xs ++ test ++ [jumpInstr .jz other] ++
      yesPart ++ [jumpInstr .jmp final, labelInstr other] ++ noPart) (by simpa using hcode) ?_)
    exact fun j hj => rules.mono (hend d (by simpa using Ways.yes hd .nil)) hj.le

lemma flows_round {st : Stmt} {head} {e : Int} {first final : String}
    (hbody : Flows symbols valued code P L (some final) body inner)
    (hhead : ∀ xs ys, code = xs ++ head ++ ys → ∀ k h, P k (xs ++ head) (h + e) →
      (Ways (excess symbols valued) [st] .behind e → L k final (h + e)) → P k xs h)
    (hagain : ∀ {d d'}, Ways (excess symbols valued) body .behind d →
      Ways (excess symbols valued) [st] .behind d' →
      Ways (excess symbols valued) [st] .behind (e + d + d'))
    (hleave : ∀ {d}, Ways (excess symbols valued) body .outOfLoop d →
      Ways (excess symbols valued) [st] .behind (e + d)) :
    Flows symbols valued code P L exit? [st]
      ([labelInstr first] ++ head ++ inner ++ [jumpInstr .jmp first, labelInstr final]) := by
  intro xs ys hcode k h hbehind hout
  clear hout
  -- A round takes a jump, so fewer moves are left for the next round.
  induction k using Nat.strongRecOn generalizing h with
  | ind k ih =>
    have hend : ∀ d, Ways (excess symbols valued) [st] .behind d → L k final (h + d) := by
      intro d hd
      refine rules.lands (xs ++ [labelInstr first] ++ head ++ inner ++ [jumpInstr .jmp first])
        (by simpa using hcode) fun j hj => rules.label (by simpa using hcode) ?_
      simpa using rules.mono (hbehind d hd) hj.le
    refine rules.label (by simpa using hcode) ?_
    refine hhead _ (inner ++ [jumpInstr .jmp first, labelInstr final] ++ ys)
      (by simpa using hcode) k h ?_ (hend e)
    refine hbody _ ([jumpInstr .jmp first, labelInstr final] ++ ys) (by simpa using hcode) k _
      (fun d hd => ?_) fun exit hexit d hd => ?_
    · refine rules.jmp (by simpa using hcode) (rules.lands xs (by simpa using hcode) ?_)
      refine fun j hj => ih j hj _ fun d' hd' => ?_
      simpa [Int.add_assoc] using rules.mono (hbehind _ (hagain hd hd')) hj.le
    · cases hexit
      rw [Int.add_assoc]
      exact hend _ (hleave hd)

lemma flows_whileDo (htest : Parts valued test (1 + excess symbols valued true cond))
    (first final : String) (hbody : Flows symbols valued code P L (some final) body inner) :
    Flows symbols valued code P L exit? [.whileDo cond body]
      ([labelInstr first] ++ (test ++ [jumpInstr .jz final]) ++ inner ++
        [jumpInstr .jmp first, labelInstr final]) := by
  refine flows_round rules hbody ?_ .whileAgain fun hd => by simpa using Ways.whileOut hd .nil
  intro xs ys hcode k h hnext hdone
  have hwords : h + (1 + excess symbols valued true cond) - 1 =
      h + excess symbols valued true cond := by omega
  refine rules.parts htest (by simpa using hcode) (rules.jz (by simpa using hcode) ?_ ?_)
  · rw [hwords]
    exact hdone (by simpa using Ways.whileDone .nil)
  · simpa [hwords] using hnext

lemma flows_loop (first final : String)
    (hbody : Flows symbols valued code P L (some final) body inner) :
    Flows symbols valued code P L exit? [.loop body]
      ([labelInstr first] ++ [] ++ inner ++ [jumpInstr .jmp first, labelInstr final]) := by
  refine flows_round (e := 0) rules hbody ?_ (fun hd hd' => ?_) fun hd => ?_
  · intro xs ys _ k h hnext _
    simpa using hnext
  · simpa using Ways.loopAgain hd hd'
  · simpa using Ways.loopOut hd .nil

omit rules in
lemma parts_of_exprCode {s : GenState} {wanted : Bool} {e : Expr} {part}
    (hmade : s.exprCode wanted e = .ok part)
    (hsame : ∀ g, result? s.symbols g = result? symbols g) :
    Parts valued part (nominal wanted + excess symbols valued wanted e) := by
  rw [← excess_congr valued hsame]
  exact (exprCoded e hmade).parts.of_eq (Int.add_zero _)

lemma flows_coded {func} {index : Nat} {s s' : GenState} {r : StmtCode}
    (hcoded : Coded func exit? index s body r s')
    (hsame : ∀ g, result? s.symbols g = result? symbols g) :
    Flows symbols valued code P L exit? body r.code := by
  induction hcoded with
  | nil =>
    intro xs ys _ k h hbehind _
    simpa [StmtCode.empty] using hbehind 0 .nil
  | @cons _ _ _ _ _ st rest first others hfirst _ ihfirst ihrest =>
    intro xs ys hcode k h hbehind hout
    rw [StmtCode.code_append] at hcode hbehind
    have hsame1 g := (hfirst.keeps.result? g).symm.trans (hsame g)
    refine ihfirst hsame xs (others.code ++ ys) (by simpa using hcode) k h ?_ ?_
    · intro d hd
      refine ihrest hsame1 (xs ++ first.code) ys (by simpa using hcode) k _ ?_ ?_
      · intro d' hd'
        rw [List.append_assoc, Int.add_assoc]
        exact hbehind _ (hd.append hd')
      · intro exit hexit d' hd'
        rw [Int.add_assoc]
        exact hout exit hexit _ (hd.append hd')
    · exact fun exit hexit d hd => hout exit hexit d (hd.outOfLoop_append rest)
  | expr hpart =>
    intro xs ys hcode k h hbehind _
    refine rules.parts (parts_of_exprCode hpart hsame) hcode ?_
    simpa [nominal] using hbehind _ (.expr .nil)
  | @ret _ _ _ _ part hpart =>
    intro xs ys hcode k h _ _
    have hcode' : code = xs ++ part ++ .plain .ret :: ys := by simpa using hcode
    exact rules.parts (parts_of_exprCode hpart hsame) hcode' (rules.ret (.inl rfl) hcode')
  | ret0 =>
    intro xs ys hcode k h _ _
    exact rules.ret (.inr rfl) (by simpa using hcode)
  | @leaveLoop exit _ _ =>
    intro xs ys hcode k h _ hout
    exact rules.jmp (by simpa using hcode) (by simpa using hout exit rfl 0 .leave)
  | constant hconst _ =>
    intro xs ys _ k h hbehind _
    simpa using hbehind 0 (.decl (.inl hconst) .nil)
  | declare _ _ hinit =>
    intro xs ys _ k h hbehind _
    simpa using hbehind 0 (.decl (.inr hinit) .nil)
  | @initialise _ _ s d g e part hconst _ hinit hpart =>
    intro xs ys hcode k h hbehind _
    have hkeeps := keeps_declare s func g d
    have hstore : Parts valued [⟨.storl, [.u8 (.ofInt g.locals.size)]⟩] (-1) := .single rfl rfl
    have hinner : Parts valued part (1 + excess symbols valued true e) :=
      parts_of_exprCode hpart fun g => (hkeeps.result? g).symm.trans (hsame g)
    refine rules.parts ((hinner.append hstore).of_eq ?_) hcode
      (hbehind _ (.letInit hconst hinit .nil))
    omega
  | ifElse htest hyes _ ihyes ihno =>
    have hkeeps := hyes.keeps.leave
    have hyesFlows := ihyes fun g => (result?_enter _ g).trans (hsame g)
    have hnoFlows := ihno fun g =>
      (result?_enter _ g).trans ((hkeeps.result? g).symm.trans (hsame g))
    exact flows_ifElse rules (parts_of_exprCode htest hsame) hyesFlows hnoFlows _ _
  | whileDo htest _ ih =>
    have hbody := ih fun g => (result?_enter _ g).trans (hsame g)
    simpa using flows_whileDo rules (parts_of_exprCode htest hsame) _ _ hbody
  | loop _ ih =>
    exact flows_loop rules _ _ (ih fun g => (result?_enter _ g).trans (hsame g))

end

end ArmStudio.Code
