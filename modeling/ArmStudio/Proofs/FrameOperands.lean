import ArmStudio.Proofs.LabelHygiene
import ArmStudio.Proofs.OperandTypes
import ArmStudio.Proofs.ProgramContexts

/-!
# Operands that are bytes

The room of a frame, the slots in it and the numbers of arguments are operands of one byte. The room
is what the parser counts, the slots are what the assembler numbers, and the two do not count alike:
a parameter whose name is visible already takes a slot but no room.
-/

namespace ArmStudio.Code

open Script List Program Param

lemma length_filter_eraseDups_iff (xs : List String) (keep : String → Bool) :
    (xs.filter keep).eraseDups.length = xs.length ↔ xs.Nodup ∧ ∀ x ∈ xs, keep x = true := by
  have hdist := length_eraseDups_le (xs.filter keep)
  have hkept := length_filter_le keep xs
  constructor
  · intro h
    have hall := length_filter_eq_length_iff.1 (show (xs.filter keep).length = _ by omega)
    rw [filter_eq_self.2 hall] at h
    exact ⟨length_eraseDups_eq_iff.1 h, hall⟩
  · rintro ⟨hnodup, hall⟩
    rw [filter_eq_self.2 hall, length_eraseDups_eq_iff.2 hnodup]

variable {front back : List Decl} {f : FuncDecl} {symbols : Symbols}

lemma front_unique {front' back'} (h : front ++ .func f :: back = front' ++ .func f :: back')
    (hnodup : ((front ++ .func f :: back).flatMap Decl.globalNames).Nodup) : front = front' := by
  have hname : f.name ∈ Decl.globalNames (.func f) := by simp [Decl.globalNames]
  have hmem : ∀ {ds : List Decl}, .func f ∈ ds → f.name ∈ ds.flatMap Decl.globalNames :=
    fun hds => mem_flatMap.2 ⟨_, hds, hname⟩
  rw [flatMap_append, flatMap_cons] at hnodup
  obtain ⟨_, hrest, happart⟩ := nodup_append.1 hnodup
  refine ((append_cons_inj_of_notMem ?_ ?_).1 h).1
  · exact fun hfront => happart _ (hmem hfront) _ (mem_append_left _ hname) rfl
  · exact fun hback => (nodup_append.1 hrest).2.2 _ hname _ (hmem hback) rfl

lemma globalNames_checked (d : Decl) : (d.checked symbols).globalNames = d.globalNames := by
  cases d <;> simp [Decl.checked, Decl.globalNames, checkFunc, decls_checkBlock]

/-- The analysis keeps the room of every function. -/
theorem Program.counts_check {tokens} {p} (hparse : ofTokens tokens = .ok (p, symbols))
    (hcheck : (p.check symbols).outcome = .ok ())
    (hf : (p.check symbols).tree.decls = front ++ .func f :: back) :
    f.Counts (front.flatMap Decl.globalNames) := by
  rw [(check_passes hcheck).1] at hf
  obtain ⟨front0, rest0, hdecls, rfl, hrest⟩ := map_eq_append_iff.1 hf
  obtain ⟨d, back0, rfl, hd, _⟩ := map_eq_cons_iff.1 hrest
  cases d with
  | var d => cases hd
  | func f0 =>
    cases hd
    -- the parser's count is for some place of the function, and it has only one
    obtain ⟨front1, back1, hsplit, hcount⟩ :=
      (ofTokens_globals hparse).counted f0 (by simp [hdecls])
    have hnodup := (Program.ofTokens_parsed hparse).nodup
    rw [Program.globalNames, hdecls] at hnodup
    rw [← front_unique (hdecls.symm.trans hsplit) hnodup] at hcount
    have hnames : (front0.map (Decl.checked symbols)).flatMap Decl.globalNames =
        front0.flatMap Decl.globalNames := by
      simp [flatMap_map, globalNames_checked]
    rw [hnames]
    unfold FuncDecl.Counts at hcount ⊢
    simpa [checkFunc, decls_checkBlock, Scopes.empty] using hcount

/-! ## Calls -/

/-- A call has as many arguments as the function that it goes to has parameters. -/
def CallFits (symbols : Symbols) (i : Instr) : Prop :=
  i.op = .call → ∃ func params, callParams? symbols func params.length = .ok params ∧
    i.args = [.label func none, .u8 (.ofInt params.length)]

section

variable {symbols : Symbols}

lemma accepting_sound (A : Expr → Prop) : Accepting symbols A (Expr.AllSound symbols) where
  expr := by
    intro e _ e' h
    obtain ⟨htree, hfolded, _⟩ := analysed_nodes.checkExpr e e' h
    exact ⟨htree, hfolded⟩
  convert := fun t h _ => allSound_convert h (.inr ⟨t, rfl⟩)

lemma exprCode_callFits {e : Expr} (he : e.AllSound symbols) {s : GenState} {wanted : Bool}
    {code} (h : s.exprCode wanted e = .ok code) : ∀ i ∈ code, CallFits symbols i := by
  refine (exprCoded e h).each (fun i hi hop => ?_) ?_
  · rw [hop] at hi
    cases hi
  · rw [nodesIn, nodesIn, append_nil]
    intro n hn
    have hsound := he n hn
    cases n with
    | call func symbol args =>
      obtain ⟨params, hpars, _⟩ := hsound
      have hcount := length_of_callParams? hpars
      rw [hcount] at hpars
      exact fun _ => ⟨func, params, hpars, hcount ▸ rfl⟩
    | _ => trivial

lemma Coded.callFits {func exit?} {index : Nat} {s s' : GenState}
    {body} {r : StmtCode} (h : Coded func exit? index s body r s')
    (hbody : ∀ st ∈ body, st.Each (Expr.AllSound symbols)) : ∀ i ∈ r.code, CallFits symbols i := by
  intro i hi
  cases h.origin hbody i hi with
  | expr he hcode hi => exact exprCode_callFits he hcode i hi
  | label | store => exact fun hop => by cases hop
  | jump hop | ret hop =>
    intro hcall
    rcases hop with rfl | rfl <;> cases hcall

end

/-! ## Functions -/

lemma forall_closeFunction {Q : Instr → Prop} {result : VarType} {code : List Instr}
    (h : ∀ i ∈ code, Q i) (hret : Q (.plain .ret0)) : ∀ i ∈ closeFunction result code, Q i := by
  unfold closeFunction
  split
  · exact forall_mem_append.2 ⟨h, forall_mem_singleton.2 hret⟩
  · exact h

def Context.atEnd (c : Context) (f : FuncDecl) : Context :=
  (c.enterFunction (f.params.map name)).afterAll f.body

lemma length_declared_atEnd (c : Context) (f : FuncDecl) :
    (c.atEnd f).declared.length = f.params.length + variableCount (declsIn f.body) := by
  have hbare := congrArg (fun c => c.declared.length)
    (Context.bare_afterAll f.body (c.enterFunction (f.params.map name)))
  refine hbare.trans ((Context.length_declared_foldl _ _).trans ?_)
  rw [(c.enterFunction_keeps _).2.2.2, length_map]

lemma Outermost.framed {names : List String} {c : Context} {a : Assembly} {s s' : GenState}
    (h : Outermost names c a s) {r : StmtCode}
    (hfresh : ∀ x ∈ Decl.globalNames (.func f), x ∈ c.outer ∧ x ∉ names)
    (hcode : funcCode f a.constants.length s = .ok (r, s')) : Framed (c.atEnd f) r.code := by
  obtain ⟨body, s1, hbody, rfl, rfl⟩ := funcCode_eq_ok hcode
  rw [h.constants, ← (c.enterFunction_keeps (f.params.map name)).2.1] at hbody
  have hleads := leads_stmtsCode f.body none _ _ s1 body (Follows.entry h.tracks h.inner f).1
    (h.admits hfresh) hbody
  refine forall_closeFunction (Framed.append (.quiet rfl) hleads.framed) fun hop => ?_
  rcases hop with hop | hop <;> cases hop

lemma exists_u8_byte (n : Nat) :
    ∃ b : UInt8, (Operand.u8 (.ofInt n)).bytes = .ok [b] ∧ (b.toNat = n ↔ n ≤ 255) := by
  refine ⟨_, rfl, ?_⟩
  have hbyte : ((n : Int) % 256).toNat.toUInt8.toNat = n % 256 := by
    simp
    omega
  rw [hbyte]
  omega

/-- The operands of one byte in the code of a function. Its frame has room for the variables of the
body and for the different names of parameters that are not global yet, the function's own included.
Loads and stores are of slots below the number of variables and parameters, but for stores to
constants, and calls have the number of the parameters. So what has a slot has room in the frame if
the parameters have different names that are not global; if not, the frame is smaller. A byte has
the number that it was made from up to 255. -/
theorem frame_operands {tokens : List Token} {p : Program} {symbols : Symbols} {a : Assembly}
    {s : GenState} (hparse : ofTokens tokens = .ok (p, symbols))
    (hcheck : (p.check symbols).outcome = .ok ())
    (hassemble : assemble symbols (p.check symbols).tree = .ok (a, s)) {front back : List Decl}
    {f : FuncDecl} (hf : (p.check symbols).tree.decls = front ++ .func f :: back) :
    ∃ r, IsCodeOf symbols a front f r ∧ r.code[1]? = some ⟨.enter, [.u8 (.ofInt f.localCount)]⟩ ∧
      f.Counts (front.flatMap Decl.globalNames) ∧
      (∀ i ∈ r.code, i.op = .loadl ∨ i.op = .storl → ∃ n : Nat, i.args = [.u8 (.ofInt n)] ∧
        (n < f.params.length + variableCount (declsIn f.body) ∨ i.op = .storl ∧ ∃ x, (x, n) ∈
            ((front.foldl Context.afterDecl (.start symbols.outer.names)).atEnd f).constants)) ∧
      (∀ i ∈ r.code, CallFits symbols i) ∧
      f.localCount ≤ f.params.length + variableCount (declsIn f.body) ∧
      (f.localCount = f.params.length + variableCount (declsIn f.body) ↔
        (f.params.map name).Nodup ∧
          ∀ x ∈ f.params.map name, x ∉ front.flatMap Decl.globalNames ∧ x ≠ f.name) ∧
      ∀ n : Nat, ∃ b, (Operand.u8 (.ofInt n)).bytes = .ok [b] ∧ (b.toNat = n ↔ n ≤ 255) := by
  have hparsed := Program.ofTokens_parsed hparse
  have hcounts := Program.counts_check hparse hcheck hf
  obtain ⟨r, hr⟩ := exists_isCodeOf hassemble hf
  refine ⟨r, hr, ?_⟩
  obtain ⟨a1, s1, s2, rest, hfront, hfunc, _⟩ := hr
  obtain ⟨houtermost, hfresh⟩ := Outermost.function hparsed (globalNames_check p) hf hfront
  have hframed := houtermost.framed hfresh hfunc
  obtain ⟨body, s3, hbody, rfl, _⟩ := funcCode_eq_ok hfunc
  have hsound : ∀ st ∈ f.body, st.Each (Expr.AllSound symbols) :=
    check_each (accepting_sound _) hparsed.formed hcheck (.func f) (by simp [hf])
  have hcalls := (coded_stmtsCode hbody).callFits hsound
  -- the body's variables count on both sides, so room and slots differ by the parameters alone
  have hroom := length_filter_eraseDups_iff (f.params.map name)
    (· ∉ front.flatMap Decl.globalNames ++ [f.name])
  have hdist := length_eraseDups_le ((f.params.map name).filter
    (· ∉ front.flatMap Decl.globalNames ++ [f.name]))
  have hkept := List.length_filter_le (· ∉ front.flatMap Decl.globalNames ++ [f.name])
    (f.params.map name)
  have hcount := hcounts
  unfold FuncDecl.Counts at hcount
  rw [List.length_map] at hroom hkept
  refine ⟨?_, hcounts, ?_, ?_, by omega, ?_, exists_u8_byte⟩
  · unfold closeFunction
    split <;> rfl
  · rw [← length_declared_atEnd (front.foldl Context.afterDecl (.start symbols.outer.names))]
    exact hframed
  · refine forall_closeFunction (List.forall_mem_append.2 ⟨?_, hcalls⟩) fun hop => by cases hop
    intro i hi hop
    simp only [List.mem_cons, List.not_mem_nil, or_false] at hi
    rcases hi with rfl | rfl <;> cases hop
  · have hiff : f.localCount = f.params.length + variableCount (declsIn f.body) ↔ _ :=
      Iff.trans (by omega) hroom
    simpa using hiff

open Keyword in
/-- The tokens of `let g = 1; fn f(g : int, h : int) { h = 2; } fn main() { f(1, 2); }`. -/
def hiddenParameter : List Token :=
  onLine [kwLet, .name "g", assign, .int 1, semicolon, kwFn, .name "f", leftParen, .name "g", colon,
    kwInt, comma, .name "h", colon, kwInt, rightParen, leftBrace, .name "h", assign, .int 2,
    semicolon, rightBrace] ++
  mainWith [.name "f", leftParen, .int 1, comma, .int 2, rightParen, semicolon]

/-- The first parameter of `f` is not counted, and the second has a slot without room. -/
theorem frame_operands_hiddenParameter :
    ∃ p symbols a s f front back r, ofTokens hiddenParameter = .ok (p, symbols) ∧
      (p.check symbols).outcome = .ok () ∧
      assemble symbols (p.check symbols).tree = .ok (a, s) ∧
      (p.check symbols).tree.decls = front ++ .func f :: back ∧ IsCodeOf symbols a front f r ∧
      r.code[1]? = some ⟨.enter, [.u8 (.ofInt 1)]⟩ ∧
      r.code[3]? = some ⟨.storl, [.u8 (.ofInt 1)]⟩ ∧
      ¬ ((f.params.map name).Nodup ∧
        ∀ x ∈ f.params.map name, x ∉ front.flatMap Decl.globalNames ∧ x ≠ f.name) := by
  obtain ⟨p, symbols, d, f, back, hparse, hcheck, hf, hcode, hcount, hhidden, hstore⟩ :
      ∃ p symbols d f back, ofTokens hiddenParameter = .ok (p, symbols) ∧
        (p.check symbols).outcome = .ok () ∧
        (p.check symbols).tree.decls = [d] ++ .func f :: back ∧
        (assemble symbols (p.check symbols).tree).toOption.isSome = true ∧ f.localCount = 1 ∧
        f.localCount ≠ f.params.length + variableCount (declsIn f.body) ∧
        ((declsCode .empty (.start symbols) [d]).toOption.bind fun before =>
          (funcCode f before.1.constants.length before.2).toOption.map fun r => r.1.code[3]?) =
          some (some ⟨.storl, [.u8 (.ofInt 1)]⟩) :=
    ⟨_, _, _, _, _, rfl, rfl, rfl, by decide +kernel, rfl, by decide +kernel, by decide +kernel⟩
  obtain ⟨⟨a, s⟩, hres⟩ := Option.isSome_iff_exists.1 hcode
  have hassemble := toOption_eq_some.1 hres
  obtain ⟨r, hr, henter, _, _, _, _, hroom, _⟩ := frame_operands hparse hcheck hassemble hf
  have hstored : r.code[3]? = some ⟨.storl, [.u8 (.ofInt 1)]⟩ := by
    obtain ⟨a1, s1, s2, _, hfront, hfunc, _⟩ := hr
    rw [hfront] at hstore
    simpa [hfunc] using hstore
  rw [hcount] at henter
  exact ⟨p, symbols, a, s, f, [d], back, r, hparse, hcheck, hassemble, hf, hr, henter, hstored,
    fun h => hhidden (hroom.2 h)⟩

end ArmStudio.Code
