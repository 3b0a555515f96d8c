import ArmStudio.Proofs.Flow
import ArmStudio.Proofs.Returns

/-!
# Control flow of functions

Control that enters a function leaves it by a return. The analysis looks at the returns in a tree
and the assembler lays out jumps; the two are tied together by induction over statements.
-/

namespace ArmStudio.Code

open Script List

/-- Control goes from a position of the code to another: on to the next instruction, behind a call
too, or from a jump to its label. -/
inductive Goes (code : List Instr) : Nat → Nat → Prop
  | on {k : Nat} {i : Instr} (hi : code[k]? = some i) (hleaves : i.op.leaves = false)
      (hjmp : i.op ≠ .jmp) : Goes code k (k + 1)
  | jump {k j : Nat} {i mark : Instr} {name : String} (hi : code[k]? = some i)
      (hbranches : i.op.branches) (htgt : i.target? = some name)
      (hj : code[j]? = some mark) (hmark : mark.mark? = some name) : Goes code k j

/-- On paths of fewer than `n` moves from position `k`, every position is in the code, and a jump
goes to a label of the code. -/
def Stays (code : List Instr) : Nat → Nat → Prop
  | 0, _ => True
  | n + 1, k =>
    (∃ i, code[k]? = some i ∧ (i.op.branches = true → ∃ name ∈ marks code, i.target? = some name)) ∧
    ∀ k', Goes code k k' → Stays code n k'

/-- Jumps to a label stay in the code, where `n` moves are left before the jump. -/
structure Lands (code : List Instr) (n : Nat) (name : String) : Prop where
  placed : name ∈ marks code
  stays : ∀ m, m < n → ∀ j i, code[j]? = some i → i.mark? = some name → Stays code m j

section

variable {code xs ys : List Instr} {i : Instr} {n k : Nat} {name : String}

lemma Stays.mono {m : Nat} (h : Stays code n k) (hm : m ≤ n) : Stays code m k := by
  induction m generalizing n k with
  | zero => trivial
  | succ m ih =>
    cases n with
    | zero => omega
    | succ n => exact ⟨h.1, fun k' hgoes => ih (h.2 k' hgoes) (by omega)⟩

lemma stays_of_goes (hi : code[k]? = some i)
    (hplaced : i.op.branches → ∃ name ∈ marks code, i.target? = some name)
    (hnext : ∀ m, m < n → ∀ k', Goes code k k' → Stays code m k') : Stays code n k := by
  cases n with
  | zero => trivial
  | succ n => exact ⟨⟨i, hi, hplaced⟩, hnext n (Nat.lt_succ_self n)⟩

lemma getElem?_at (hcode : code = xs ++ i :: ys) : code[xs.length]? = some i := by simp [hcode]

lemma stays_next (hcode : code = xs ++ i :: ys) (hbranches : i.op.branches = false)
    (h : i.op.leaves = false → Stays code n (xs ++ [i]).length) : Stays code n xs.length := by
  refine stays_of_goes (getElem?_at hcode) (fun hjump => ?_) fun m hm k' hgoes => ?_
  · rw [hbranches] at hjump
    cases hjump
  · cases hgoes with
    | on hi hleaves _ =>
      cases hi.symm.trans (getElem?_at hcode)
      simpa using (h hleaves).mono hm.le
    | jump hi hjump =>
      cases hi.symm.trans (getElem?_at hcode)
      rw [hbranches] at hjump
      cases hjump

lemma stays_parts {valued part} {d : Int}
    (hpart : Parts valued part d) : ∀ {xs : List Instr}, code = xs ++ part ++ ys →
      Stays code n (xs ++ part).length → Stays code n xs.length := by
  induction hpart with
  | nil =>
    intro xs _ h
    simpa using h
  | @op i rest d hstr _ _ ih =>
    intro xs hcode h
    have hbranches : i.op.branches = false := by
      cases hop : i.op <;> simp [hop, Opcode.isStraight, Opcode.branches] at hstr ⊢
    exact stays_next (by simpa using hcode) hbranches fun _ =>
      ih (by simpa using hcode) (by simpa using h)
  | call _ ih =>
    intro xs hcode h
    exact stays_next (i := ⟨.call, _⟩) (by simpa using hcode) rfl fun _ =>
      ih (by simpa using hcode) (by simpa using h)

lemma stays_jump {op} (hjump : op.isJump)
    (hcode : code = xs ++ jumpInstr op name :: ys) (hlands : Lands code n name)
    (h : op ≠ .jmp → Stays code n (xs ++ [jumpInstr op name]).length) : Stays code n xs.length := by
  have hname : (jumpInstr op name).target? = some name := by simp [Instr.target?, jumpInstr, hjump]
  refine stays_of_goes (getElem?_at hcode) (fun _ => ⟨name, hlands.placed, hname⟩) ?_
  intro m hm k' hgoes
  cases hgoes with
  | on hi _ hjmp =>
    cases hi.symm.trans (getElem?_at hcode)
    simpa using (h hjmp).mono hm.le
  | jump hi _ htgt hj hmark =>
    cases hi.symm.trans (getElem?_at hcode)
    cases htgt.symm.trans hname
    exact hlands.stays m hm _ _ hj hmark

lemma eq_of_nodup_marks (hnodup : (marks code).Nodup) {j : Nat} {i' : Instr}
    (hj : code[j]? = some i) (hmark : i.mark? = some name) (hk : code[k]? = some i')
    (hmark' : i'.mark? = some name) : j = k := by
  induction code generalizing j k with
  | nil => simp at hj
  | cons head rest ih =>
    have hlater : ∀ {l : Nat} {i'' : Instr}, rest[l]? = some i'' → i''.mark? = some name →
        name ∈ marks rest := fun hl hm =>
    mem_filterMap.2 ⟨_, mem_of_getElem? hl, hm⟩
    have hhead : head.mark? = some name → name ∉ marks rest := by
      intro hm
      rw [marks, filterMap_cons_some hm, nodup_cons] at hnodup
      exact hnodup.1
    have hrest : (marks rest).Nodup :=
      hnodup.sublist ((sublist_cons_self head rest).filterMap _)
    cases j with
    | zero =>
      cases k with
      | zero => rfl
      | succ k =>
        cases hj
        exact absurd (hlater hk hmark') (hhead hmark)
    | succ j =>
      cases k with
      | zero =>
        cases hk
        exact absurd (hlater hj hmark) (hhead hmark')
      | succ k => rw [ih hrest hj hk]

end

/-! ## Statements -/

section

variable {code : List Instr}

/-- A jump lands at its label. The first instruction is the label of the function, which may have
any name, so all that counts is that paths from there stay. -/
lemma lands_label {x : Instr} {xs ys name} {n : Nat}
    (hnodup : (marks code).Nodup) (hcode : code = xs ++ labelInstr name :: ys)
    (hzero : ∀ m, m < n → Stays (x :: code) m 0)
    (h : ∀ m, m < n → Stays (x :: code) m (xs.length + 1)) : Lands (x :: code) n name := by
  refine ⟨mem_filterMap.2 ⟨labelInstr name, by simp [hcode], rfl⟩, fun m hm j i hj hmark => ?_⟩
  cases j with
  | zero => exact hzero m hm
  | succ j =>
    have hsame := eq_of_nodup_marks hnodup hj hmark (getElem?_at hcode) rfl
    rw [hsame]
    exact h m hm

/-- Behind the first instruction of a function, staying in the code is carried back. A jump to its
label starts over, with fewer moves left. -/
theorem flowRules_stays (valued : String → Bool) (x : Instr) (hnodup : (marks code).Nodup) :
    FlowRules valued code
      (fun n xs _ => ∀ m ≤ n, (∀ l < m, Stays (x :: code) l 0) →
        Stays (x :: code) m (x :: xs).length)
      fun n name _ => ∀ m ≤ n, (∀ l < m, Stays (x :: code) l 0) → Lands (x :: code) m name where
  mono h hj m hm := h m (hm.trans hj)
  parts hpart _ _ _ _ hcode h m hm hzero :=
    stays_parts hpart (congrArg (x :: ·) hcode) (h m hm hzero)
  jmp hcode h m hm hzero := stays_jump rfl (congrArg (x :: ·) hcode) (h m hm hzero) (absurd rfl)
  jz hcode hlands h m hm hzero :=
    stays_jump rfl (congrArg (x :: ·) hcode) (hlands m hm hzero) fun _ => h m hm hzero
  ret hop hcode _ _ _ := by
    refine stays_next (congrArg (x :: ·) hcode) ?_ ?_ <;>
      rcases hop with rfl | rfl <;> simp [Instr.plain, Opcode.leaves, Opcode.branches]
  label hcode h m hm hzero := stays_next (congrArg (x :: ·) hcode) rfl fun _ => h m hm hzero
  lands _ hcode h m hm hzero := lands_label hnodup hcode hzero fun l hl =>
    h l (by omega) l le_rfl fun i hi => hzero i (by omega)

/-- A way that goes on behind statements passes no return. -/
theorem Ways.bodyReturns {drift} {body} {d : Int}
    (h : Ways drift body .behind d) : bodyReturns body = false := by
  generalize hbehind : Exit.behind = exit at h
  induction h with
  | leave => cases hbehind
  | _ => simp_all [Script.bodyReturns, Stmt.returns]

end

/-! ## Functions -/

variable {f : FuncDecl} {index : Nat} {s s' : GenState} {r : StmtCode}

/-- Labels of a function differ, but for its own, which may be named like any of them. -/
lemma nodup_marks_tail_funcCode (h : funcCode f index s = .ok (r, s')) :
    (marks r.code.tail).Nodup := by
  obtain ⟨body, s1, hbody, rfl, rfl⟩ := funcCode_eq_ok h
  obtain ⟨names, hnames⟩ := (coded_stmtsCode hbody).creates
  have htail : marks (closeFunction f.returnType
      ([labelInstr f.name, ⟨.enter, [.u8 (.ofInt f.localCount)]⟩] ++ body.code)).tail =
        marks body.code := by
    unfold closeFunction
    split
    · exact (marks_append body.code _).trans (append_nil _)
    · rfl
  rw [htail]
  exact hnames.placed.nodup hnames.nodup

lemma stays_funcCode (hf : f.Returns) (h : funcCode f index s = .ok (r, s')) (n : Nat) :
    Stays r.code n 0 := by
  have hnodup := nodup_marks_tail_funcCode h
  obtain ⟨body, s1, hbody, rfl, rfl⟩ := funcCode_eq_ok h
  obtain ⟨close, hclose, hend⟩ := exists_closeFunction hf hbody
    (show ∀ i ∈ [labelInstr f.name, ⟨.enter, [.u8 (.ofInt f.localCount)]⟩], i.op ≠ .ret0 by
      simp [labelInstr])
  rw [hclose] at hnodup ⊢
  obtain ⟨code, hcode⟩ : ∃ code, code =
      [⟨.enter, [.u8 (.ofInt f.localCount)]⟩] ++ body.code ++ close := ⟨_, rfl⟩
  change (marks ([⟨.enter, [.u8 (.ofInt f.localCount)]⟩] ++ body.code ++ close)).Nodup at hnodup
  change Stays (labelInstr f.name :: ([⟨.enter, _⟩] ++ body.code ++ close)) n 0
  rw [← hcode] at hnodup ⊢
  have hrules := flowRules_stays (fun _ => false) (labelInstr f.name) hnodup
  -- A jump to a label with the function's own name starts over, with fewer moves left.
  induction n using Nat.strongRecOn with
  | ind n ih =>
    have hblock := flows_coded hrules (coded_stmtsCode hbody) (fun _ => rfl) _ close hcode n 0
      (fun d hways m hm hzero => ?_) (by simp) n le_rfl ih
    · have henter : Stays (labelInstr f.name :: code) n [labelInstr f.name].length :=
        stays_next (i := ⟨.enter, [.u8 (.ofInt f.localCount)]⟩) (congrArg (_ :: ·) hcode) rfl
          fun _ => hblock
      have hlabel : Stays (labelInstr f.name :: code) n ([] : List Instr).length :=
        stays_next (i := labelInstr f.name) rfl rfl fun _ => henter
      exact hlabel
    · rw [hend hways.bodyReturns] at hcode
      exact hrules.ret (h := 0) (.inr rfl) hcode m le_rfl hzero

lemma exists_of_stays {code} {k k' : Nat} (h : ∀ n, Stays code n k)
    (hpath : Relation.ReflTransGen (Goes code) k k') : ∀ n, Stays code n k' := by
  induction hpath with
  | refl => exact h
  | tail _ hgoes ih => exact fun n => (ih (n + 1)).2 _ hgoes

/-- Control that enters a function of an accepted program stays in its code until it leaves by a
return: on every path from the start of the function, through both outcomes of conditional jumps and
on behind calls, there is an instruction of the function. Jumps go to labels of the function, and
what leaves is the return with a value, if the function has a result, and the other one if not. -/
theorem control_stays_in_function {symbols : Symbols} {p : Program} {a : Assembly} {s : GenState}
    (hcheck : (p.check symbols).outcome = .ok ())
    (hassemble : assemble symbols (p.check symbols).tree = .ok (a, s)) {front back : List Decl}
    {f : FuncDecl} (hf : (p.check symbols).tree.decls = front ++ .func f :: back) :
    ∃ r, IsCodeOf symbols a front f r ∧ r.code[1]? = some ⟨.enter, [.u8 (.ofInt f.localCount)]⟩ ∧
      ∀ k, Relation.ReflTransGen (Goes r.code) 1 k → ∃ i, r.code[k]? = some i ∧
        (i.op.leaves = true → i.op = returnOp f.returnType) ∧
        (i.op.branches = true → ∃ name ∈ marks r.code, i.target? = some name) := by
  have hrets : f.Returns := Program.check_returns hcheck (by simp [hf])
  obtain ⟨r, hr⟩ := exists_isCodeOf hassemble hf
  refine ⟨r, hr, ?_⟩
  obtain ⟨a1, s1, s2, rest, _, hfunc, _⟩ := hr
  have hhead : r.code[0]? = some (labelInstr f.name) ∧
      r.code[1]? = some ⟨.enter, [.u8 (.ofInt f.localCount)]⟩ := by
    obtain ⟨body, _, _, rfl, _⟩ := funcCode_eq_ok hfunc
    unfold closeFunction
    split <;> exact ⟨rfl, rfl⟩
  have hstart : ∀ n, Stays r.code n 1 := fun n =>
    (stays_funcCode hrets hfunc (n + 1)).2 1 (.on hhead.1 rfl (by simp [labelInstr]))
  refine ⟨hhead.2, fun k hpath => ?_⟩
  obtain ⟨⟨i, hi, hplaced⟩, _⟩ := exists_of_stays hstart hpath 1
  exact ⟨i, hi, returnsBy_funcCode hrets hfunc i (mem_of_getElem? hi), hplaced⟩

open Keyword in
/-- The tokens of `fn f() -> int { loop { break; } if 1 { return 1; } else { return 2; } }` and
`fn main() { }`. -/
def returnsInBranches : List Token :=
  onLine [kwFn, .name "f", leftParen, rightParen, arrow, kwInt, leftBrace, kwLoop, leftBrace,
    kwBreak, semicolon, rightBrace, kwIf, .int 1, leftBrace, kwReturn, .int 1, semicolon,
    rightBrace, kwElse, leftBrace, kwReturn, .int 2, semicolon, rightBrace, rightBrace] ++
  mainWith []

/-- The function of `returnsInBranches` ends in a label. No path comes there, since it would go on
behind the function. -/
theorem control_stays_in_returnsInBranches :
    ∃ p symbols a s f back r, Program.ofTokens returnsInBranches = .ok (p, symbols) ∧
      (p.check symbols).outcome = .ok () ∧
      assemble symbols (p.check symbols).tree = .ok (a, s) ∧
      (p.check symbols).tree.decls = [] ++ .func f :: back ∧ f.returnType = .int ∧
      IsCodeOf symbols a [] f r ∧
      r.code.map Instr.op = [.label, .enter, .label, .jmp, .jmp, .label, .immi, .jz, .immi, .ret,
        .jmp, .label, .immi, .ret, .label] ∧
      ¬ Relation.ReflTransGen (Goes r.code) 1 14 := by
  obtain ⟨p, symbols, f, back, hparse, hcheck, hf, hint, hcode, hops⟩ : ∃ p symbols f back,
      Program.ofTokens returnsInBranches = .ok (p, symbols) ∧ (p.check symbols).outcome = .ok () ∧
        (p.check symbols).tree.decls = [] ++ .func f :: back ∧ f.returnType = .int ∧
        (assemble symbols (p.check symbols).tree).toOption.isSome = true ∧
        (funcCode f 0 (.start symbols)).toOption.map (fun r => r.1.code.map Instr.op) =
          some [.label, .enter, .label, .jmp, .jmp, .label, .immi, .jz, .immi, .ret, .jmp, .label,
            .immi, .ret, .label] :=
    ⟨_, _, _, _, rfl, rfl, rfl, rfl, by decide +kernel, by decide +kernel⟩
  obtain ⟨⟨a, s⟩, hres⟩ := Option.isSome_iff_exists.1 hcode
  have hassemble := toOption_eq_some.1 hres
  obtain ⟨r, hr, _, hpaths⟩ := control_stays_in_function hcheck hassemble hf
  have hops' : r.code.map Instr.op = [.label, .enter, .label, .jmp, .jmp, .label, .immi, .jz, .immi,
      .ret, .jmp, .label, .immi, .ret, .label] := by
    obtain ⟨a1, s1, s2, _, hfront, hfunc, _⟩ := hr
    cases hfront
    rw [show funcCode f 0 (.start symbols) = .ok (r, s2) from hfunc] at hops
    exact Option.some.inj hops
  refine ⟨p, symbols, a, s, f, back, r, hparse, hcheck, hassemble, hf, hint, hr, hops', ?_⟩
  intro hpath
  obtain ⟨i, hi, _⟩ := hpaths 14 hpath
  have hop : i.op = .label := by
    have hmap := congrArg (·[14]?) hops'
    simpa [hi] using hmap
  -- behind the label the code is over
  obtain ⟨j, hj, _⟩ := hpaths 15 (hpath.tail
    (.on hi (by simp [hop, Opcode.leaves]) (by simp [hop])))
  have hmap := congrArg (·[15]?) hops'
  simp [hj] at hmap

end ArmStudio.Code
