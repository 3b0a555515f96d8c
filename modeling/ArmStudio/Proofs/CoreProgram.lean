import ArmStudio.Proofs.CoreAssembly
import ArmStudio.Proofs.LabelHygiene
import ArmStudio.Proofs.ProgramContexts

/-!
# Assembly of programs of the integer core

The code of a function, whose parameters get the first slots, and of a whole program.
-/

namespace ArmStudio.Code

open Script List Program Decl Symbols

/-- Parameters of different names, which are not in use, have the slots of their positions. -/
theorem Context.lookup_bindParams (params : List String) : ∀ c : Context, params.Nodup →
    (∀ x ∈ params, c.isFree x = true) → ∀ x, (params.foldl bindParam c).own.lookup x =
      if x ∈ params then some (c.declared.length + params.idxOf x) else c.own.lookup x := by
  induction params with
  | nil => simp
  | cons name rest ih =>
    intro c hdist hfree x
    obtain ⟨hname, hrest⟩ := nodup_cons.1 hdist
    have hbind : c.bindParam name = { c with
        own := (name, c.declared.length) :: c.own, declared := c.declared ++ [name] } := by
      simp [bindParam, bind, hfree name (by simp)]
    have hstill : ∀ y ∈ rest, (c.bindParam name).isFree y = true := by
      intro y hy
      have hne : y ≠ name := fun heq => hname (heq ▸ hy)
      have hold := hfree y (by simp [hy])
      rw [hbind]
      simpa [isFree, lookup_cons_of_ne hne] using hold
    rw [foldl_cons, ih _ hrest hstill, hbind]
    by_cases hx : x = name
    · subst hx
      simp [hname]
    · by_cases hmem : x ∈ rest
      · simp [hmem, idxOf_cons_ne _ (Ne.symm hx), add_assoc, add_comm 1]
      · simp [hmem, hx, lookup_cons_of_ne hx]

variable {cell : String → Cell}

lemma getLast?_coreExpr {v} {e : Expr} (he : e.isCore v) :
    (coreExpr cell false e).getLast?.map Instr.op ≠ some .ret0 := by
  have hdrop : ∀ xs : List Instr, (xs ++ dropUnless false).getLast?.map Instr.op = some .pop := by
    intro xs
    simp [dropUnless, Instr.plain]
  have hstore : ∀ xs left, left.isVar = true →
      (xs ++ storeBack cell false left).getLast?.map Instr.op ≠ some .ret0 := by
    intro xs left hleft
    cases left with
    | var x symbol =>
      cases hc : cell x <;> simp [storeBack, hc, Cell.store]
    | _ => simp [Expr.isVar] at hleft
  cases e with
  | literal value =>
    have := hdrop [literalCode value]
    simp only [singleton_append] at this
    simp [coreExpr, this]
  | var x symbol =>
    have := hdrop [(cell x).load]
    simp only [singleton_append] at this
    simp [coreExpr, this]
  | unary | call => simp only [coreExpr, hdrop]; decide
  | binary op left right =>
    simp only [Expr.isCore, Bool.and_eq_true, Bool.or_eq_true, Bool.not_eq_true',
      decide_eq_true_eq] at he
    by_cases hassign : op = .assign
    · have hvar : left.isVar = true := by
        simpa [hassign, Keyword.isAssignment] using he.1.1.2
      simp only [coreExpr, hassign, if_true]
      exact hstore _ _ hvar
    · by_cases his : op.isAssignment = true
      · have hvar : left.isVar = true := by
          simpa [his] using he.1.1.2
        simp only [coreExpr, hassign, his, if_true, if_false]
        exact hstore _ _ hvar
      · simp only [coreExpr, hassign, his, if_false]
        rw [if_neg (by simp), hdrop]
        decide
  | _ => simp [Expr.isCore] at he

lemma StmtsAre.canEnd_of_last {result : VarType} {inLoop : Bool} {exit?}
    {body v code} (hare : StmtsAre cell exit? body code)
    (hcore : stmtsAreCore v result inLoop body)
    (hlast : code.getLast?.map Instr.op = some .ret0) : canEnd body = false := by
  induction body generalizing v code with
  | nil =>
    cases hare
    simp at hlast
  | cons st rest ih =>
    simp only [stmtsAreCore, Bool.and_eq_true] at hcore
    cases hare with
    | @cons _ _ _ first others hst hrest =>
      by_cases hothers : others = []
      · subst hothers
        rw [append_nil] at hlast
        have hend : st.canEnd = false := by
          cases hst with
          | expr e => exact absurd hlast (getLast?_coreExpr (by simpa [Stmt.isCore] using hcore.1))
          | retNone => simp [Stmt.canEnd]
          | leaveLoop exit => simp [jumpInstr] at hlast
          | _ =>
            rw [getLast?_append] at hlast
            simp [Cell.store, labelInstr, Instr.plain] at hlast
        simp [canEnd, hend]
      · have hlast' : others.getLast?.map Instr.op = some .ret0 := by
          rw [getLast?_append] at hlast
          cases hgl : others.getLast? with
          | none => exact absurd (getLast?_eq_none_iff.1 hgl) hothers
          | some i => simpa [hgl] using hlast
        simp [canEnd, ih hrest hcore.2 hlast']

/-- Code that is that of a function; behind a body that can end is a return. -/
def FuncCodeIs (globals : List String) (f : FuncDecl) (code : List Instr) : Prop :=
  ∃ body tail, code = [labelInstr f.name, ⟨.enter, [.u8 (.ofInt f.localCount)]⟩] ++ body ++ tail ∧
    StmtsAre (cellOf globals f.localNames) none f.body body ∧
    (canEnd f.body = true → tail = [.plain .ret0])

section

variable {p done : Program} {globals before : List String} {f : FuncDecl} {s : GenState}
  {symbols : Symbols} {init : Nat → VarDecl → List Instr} {c : Context} {a : Assembly} {x : String}
  {isVar : List String → VarDecl → Prop}

lemma CoreContext.enterFunction (h : CoreContext p globals [] before [] c)
    (hf : f.IsCore before p) : CoreContext p globals f.localNames before (f.params.map Param.name)
      (c.enterFunction (f.params.map Param.name)) := by
  obtain ⟨houter, hconsts, hglobs, _⟩ := c.enterFunction_keeps (f.params.map Param.name)
  have hmem : ∀ x ∈ f.params.map Param.name, x ∈ f.localNames := fun x hx =>
    mem_append_left _ hx
  have hdist : (f.params.map Param.name).Nodup := (nodup_append.1 hf.distinct).1
  refine ⟨houter.trans h.outer, hconsts.trans h.constants, fun x hx => ?_, fun x => ?_, hmem⟩
  · rw [hglobs]
    exact h.globals x hx
  · rw [Context.enterFunction, Context.lookup_bindParams _ _ hdist]
    · by_cases hx : x ∈ f.params.map Param.name
      · simp [hx, FuncDecl.localNames, idxOf_append_of_mem hx]
      · simp [hx]
    · intro y hy
      simpa [Context.isFree, h.outer] using hf.apart y (hmem y hy)

lemma closeFunction_core (hf : f.IsCore before p) {body}
    (hare : StmtsAre (cellOf globals f.localNames) none f.body body) :
    ∃ tail, closeFunction f.returnType
        ([labelInstr f.name, ⟨.enter, [.u8 (.ofInt f.localCount)]⟩] ++ body) =
        [labelInstr f.name, ⟨.enter, [.u8 (.ofInt f.localCount)]⟩] ++ body ++ tail ∧
      (canEnd f.body = true → tail = [.plain .ret0]) ∧ ∀ i ∈ tail, i.Fits := by
  rcases hf.result with ⟨_, hvoid, _⟩ | ⟨_, hint, hend⟩
  · by_cases hlast : body.getLast?.map Instr.op = some .ret0
    · have hend := hare.canEnd_of_last hf.body hlast
      have hwhole : (([labelInstr f.name, ⟨.enter, [.u8 (.ofInt f.localCount)]⟩] ++
          body).getLast?.map Instr.op) = some .ret0 := by
        rcases Option.map_eq_some_iff.1 hlast with ⟨i, hi, hop⟩
        rw [getLast?_append, hi]
        simp [hop]
      refine ⟨[], ?_, by simp [hend], by simp⟩
      rw [closeFunction, if_neg (by rw [hwhole]; simp), append_nil]
    · have hwhole : (([labelInstr f.name, ⟨.enter, [.u8 (.ofInt f.localCount)]⟩] ++
          body).getLast?.map Instr.op) ≠ some .ret0 := by
        rw [getLast?_append]
        cases hi : body.getLast? with
        | none => simp
        | some i => simpa [hi] using hlast
      refine ⟨[.plain .ret0], ?_, fun _ => rfl, ?_⟩
      · rw [closeFunction, if_pos ⟨hvoid, hwhole⟩]
      · have hret : (Instr.plain .ret0).Fits := fits_plain (by decide) rfl
        simpa using hret
  · refine ⟨[], ?_, by simp [hend], by simp⟩
    rw [closeFunction, if_neg (by simp [hint]), append_nil]

lemma funcCode_core {names} (h : Outermost names c a s) (hc : CoreContext p globals [] before [] c)
    (hsame : ∀ g, result? s.symbols g = result? symbols g)
    (hresults : ∀ g n, p.arity g = some n → result? symbols g = some .int)
    (hf : f.IsCore before p) :
    ∃ code s', funcCode f a.constants.length s = .ok (.ofCode code, s') ∧
      FuncCodeIs globals f code ∧ ∀ i ∈ code, i.Fits := by
  obtain ⟨_, hconsts, _, hdeclared⟩ := c.enterFunction_keeps (f.params.map Param.name)
  have hin : InFunction p symbols globals f ⟨before, p.arity, f.params.map Param.name⟩
      (c.enterFunction (f.params.map Param.name)) (funcStart f s) :=
    ⟨h.informed hsame f, hc.enterFunction hf, rfl, hf.distinct, hf.apart, hresults⟩
  obtain ⟨body, s1, hcode, hare, hfits⟩ := stmtsCode_of_hasCode (fun st _ => hasCode st) none _ _ []
    (funcStart f s) hin hf.body (by simp [FuncDecl.localNames, hdeclared])
  rw [hconsts, ← h.constants] at hcode
  obtain ⟨tail, hclose, hend, htail⟩ := closeFunction_core hf hare
  refine ⟨_, s1.leave, ?_, ⟨body, tail, rfl, hare, hend⟩, ?_⟩
  · have hclose' : closeFunction f.returnType ([labelInstr f.name,
        ⟨.enter, [.u8 (.ofInt f.localCount)]⟩] ++ (StmtCode.ofCode body).code) = _ := hclose
    simp only [funcStart] at hcode
    simp only [funcCode, hcode, hclose', ok_bind, pure_ok]
    rfl
  · have henter : (⟨.enter, [.u8 (.ofInt f.localCount)]⟩ : Instr).Fits := ⟨_, rfl⟩
    simp only [forall_mem_append, forall_mem_cons, not_mem_nil, false_implies,
      implies_true, and_true]
    exact ⟨⟨⟨fits_label _, henter⟩, hfits⟩, htail⟩

/-! ## Global variables -/

/-- The start-up code of global variables from slot `i` on, where `init` gives the code of each. -/
def startCode (init : Nat → VarDecl → List Instr) : Nat → List VarDecl → List Instr
  | _, [] => []
  | i, d :: rest => init i d ++ startCode init (i + 1) rest

lemma startCode_append (init : Nat → VarDecl → List Instr) (xs ys : List VarDecl) (i : Nat) :
    startCode init i (xs ++ ys) = startCode init i xs ++ startCode init (i + xs.length) ys := by
  induction xs generalizing i with
  | nil => rfl
  | cons d rest ih =>
    simp only [cons_append, startCode, ih, length_cons, append_assoc]
    rw [show i + 1 + rest.length = i + (rest.length + 1) by omega]

lemma fits_startUp {vars} (hinit : ∀ d ∈ vars, ∀ i, ∀ instr ∈ init i d, instr.Fits) (i : Nat) :
    ∀ instr ∈ startCode init i vars ++ callMain, instr.Fits := by
  induction vars generalizing i with
  | nil =>
    have hcall : (⟨.call, [.label "main" none, .u8 (.ofInt 0)]⟩ : Instr).Fits :=
      ⟨"main", none, [.u8 (.ofInt 0)], _, rfl, rfl⟩
    have hhalt : (Instr.plain .halt).Fits := fits_plain (by decide) rfl
    simpa [startCode, callMain] using ⟨hcall, hhalt⟩
  | cons d rest ih =>
    rw [startCode, append_assoc, forall_mem_append]
    exact ⟨hinit d (by simp) i, ih (fun d' hd' => hinit d' (by simp [hd'])) (i + 1)⟩

/-- The assembler has code for the first value of a global variable, where it knows the variable
itself already. -/
def HasInit (p : Program) (globals : List String) (init : Nat → VarDecl → List Instr)
    (before : List String) (d : VarDecl) : Prop :=
  d.isConst = false ∧ ∃ e, d.init = some e ∧ ∀ c (s : GenState), Tracks c s.storage s.symbols →
    CoreContext p globals [] (before ++ [d.name]) [] c → ∃ code, s.exprCode true e = .ok code ∧
      init (globals.idxOf d.name) d = code ++ [(Cell.global (globals.idxOf d.name)).store]

lemma CoreContext.declareGlobal (h : CoreContext p globals [] before [] c) (hnew : x ∉ before)
    (hslot : globals.idxOf x = c.globals.length) :
    CoreContext p globals [] (before ++ [x]) [] (c.declareGlobal x) := by
  refine ⟨h.outer, h.constants, forall_mem_append.2 ⟨fun y hy => ?_, ?_⟩, h.own, h.mem⟩
  · have hne : y ≠ x := fun heq => hnew (heq ▸ hy)
    simp only [Context.declareGlobal, lookup_cons_of_ne hne]
    exact h.globals y hy
  · simp [Context.declareGlobal, hslot]

/-! ## Programs -/

/-- What has been assembled behind the declarations `done`. -/
structure Assembled (p : Program) (symbols : Symbols) (globals : List String)
    (init : Nat → VarDecl → List Instr) (done : Program) (a : Assembly) (s : GenState) : Prop where
  constants : a.constants = []
  globalSize : a.globalSize = (done.vars.length : Nat)
  startUp : a.startUp = startCode init 0 done.vars
  funcs : ∀ f ∈ done.funcs,
    ∃ pre code post, a.code = pre ++ code ++ post ∧ FuncCodeIs globals f code
  fits : ∀ i ∈ a.code, i.Fits
  context : ∃ c, Outermost (done.decls.map name) c a s ∧
    CoreContext p globals [] (done.vars.map VarDecl.name) [] c
  same : ∀ g, result? s.symbols g = result? symbols g

lemma mem_names_of_mem_vars {q : Program} (h : x ∈ q.vars.map VarDecl.name) :
    x ∈ q.decls.map name := by
  rcases mem_map.1 h with ⟨w, hw, rfl⟩
  exact mem_map.2 ⟨.var w, mem_decls_of_mem_vars hw, rfl⟩

lemma assembled_empty (hsym : p.Declares symbols) :
    Assembled p symbols globals init ⟨[]⟩ .empty (.start symbols) := by
  refine ⟨rfl, rfl, rfl, by simp [funcs], by simp [Assembly.empty],
    ⟨.start p.names, ?_, rfl, rfl, by simp [vars], fun _ => rfl, by simp⟩, fun _ => rfl⟩
  refine ⟨⟨fun x => ?_, fun _ => rfl, fun _ => rfl, fun _ => .inl rfl, ?_, ?_, ?_, ?_, ?_⟩,
    hsym.outermost, rfl, rfl, fun _ _ => ⟨rfl, rfl⟩⟩
  · simp [GenState.start, Table.contains, hsym.found, Context.start, names]
  · intro x symbol hx _
    simp only [GenState.start, hsym.found] at hx
    obtain ⟨d, _, rfl⟩ := Option.map_eq_some_iff.1 hx
    cases d <;> rfl
  · intro x
    simp [GenState.start, hsym.outermost, Scopes.findFirst, Context.start]
  · intro x n hn
    cases hn
  · intro x k hk
    cases hk
  · intro x k hk
    cases hk

lemma result?_of_arity (hdist : p.names.Nodup) (hsym : p.Declares symbols) {g : String}
    {n : Nat} (hg : p.arity g = some n) : result? symbols g = some .int := by
  rcases Option.bind_eq_some_iff.1 hg with ⟨f, hf, harity⟩
  have hint : f.returnType = .int := by
    by_contra hne
    simp [hne] at harity
  rcases func?_eq_some hf with ⟨hmem, rfl⟩
  have hfound := hsym.found (func f).name
  rw [find?_decl hdist hmem] at hfound
  rw [result?_eq, Scopes.lookup?_eq, hsym.outermost]
  simp only [name] at hfound
  simp [Scopes.findFirst, hfound, symbol, Symbol.ofFunction, hint]

lemma Outermost.next {done : List Decl} {d : Decl} {a' : Assembly} {s' : GenState}
    (h : Outermost (done.map name) c a s) (hnames : d.globalNames = [d.name])
    (hmem : d.name ∈ c.outer) (hnew : d.name ∉ done.map name)
    (hcode : Code.declCode a s d = .ok (a', s')) :
    Outermost ((done ++ [d]).map name) (c.afterDecl d) a' s' := by
  have hfresh : ∀ x ∈ d.globalNames, x ∈ c.outer ∧ x ∉ done.map name := by
    rw [hnames, forall_mem_singleton]
    exact ⟨hmem, hnew⟩
  rw [map_append, map_singleton, ← hnames]
  exact h.declCode hfresh hcode

lemma Assembled.func {a : Assembly} (h : Assembled p symbols globals init done a s)
    (hresults : ∀ g n, p.arity g = some n → result? symbols g = some .int)
    (hf : f.IsCore (done.vars.map VarDecl.name) p) (hmem : f.name ∈ p.names)
    (hnew : f.name ∉ done.decls.map name) :
    ∃ a' s', declCode a s (.func f) = .ok (a', s') ∧
      Assembled p symbols globals init ⟨done.decls ++ [.func f]⟩ a' s' := by
  obtain ⟨c, houtermost, hc⟩ := h.context
  obtain ⟨code, s', hcode, his, hfits⟩ := funcCode_core houtermost hc h.same hresults hf
  have hfuncs : (Program.mk (done.decls ++ [.func f])).funcs = done.funcs ++ [f] := by
    simp [Program.funcs]
  have hvars : (Program.mk (done.decls ++ [.func f])).vars = done.vars := by simp [Program.vars]
  have hdecl : declCode a s (.func f) = .ok ({ a with code := a.code ++ code }, s') := by
    simp only [declCode, hcode, StmtCode.ofCode, append_nil, ok_bind, pure_ok]
  have hnames : Decl.globalNames (.func f) = [f.name] := by
    simp [Decl.globalNames, constantNames_of_vars (declsIn_core hf.body).2]
  have hbehind := houtermost.next hnames (hc.outer ▸ hmem) hnew hdecl
  refine ⟨_, s', hdecl, ⟨h.constants, ?_, ?_, ?_, forall_mem_append.2 ⟨h.fits, hfits⟩,
    ⟨_, hbehind, ?_⟩, fun g => ?_⟩⟩
  · rw [hvars]
    exact h.globalSize
  · rw [hvars]
    exact h.startUp
  · intro g hg
    rw [hfuncs, mem_append, mem_singleton] at hg
    rcases hg with hg | rfl
    · rcases h.funcs g hg with ⟨pre, gcode, post, heq, hgis⟩
      exact ⟨pre, gcode, post ++ code, by simp [heq], hgis⟩
    · exact ⟨a.code, code, [], by simp, his⟩
  · obtain ⟨hinside, _⟩ := (hc.enterFunction hf).body hf.body
    rw [hvars]
    exact ⟨hinside.outer, hinside.constants, hinside.globals, hc.own, hc.mem⟩
  · exact ((keeps_declCode hdecl).result? g).symm.trans (h.same g)

lemma Assembled.var {a : Assembly} (h : Assembled p symbols globals init done a s) {d : VarDecl}
    (hd : HasInit p globals init (done.vars.map VarDecl.name) d) (hmem : d.name ∈ p.names)
    (hnew : d.name ∉ done.decls.map name) (hslot : globals.idxOf d.name = done.vars.length) :
    ∃ a' s', declCode a s (.var d) = .ok (a', s') ∧
      Assembled p symbols globals init ⟨done.decls ++ [.var d]⟩ a' s' := by
  obtain ⟨c, houtermost, hc⟩ := h.context
  obtain ⟨hconst, e, hinit, hexpr⟩ := hd
  have hsize : c.globals.length = done.vars.length := by
    have hglobs := houtermost.globals
    rw [h.globalSize] at hglobs
    exact (Int.ofNat.inj hglobs).symm
  have hunused : d.name ∉ done.vars.map VarDecl.name := mt mem_names_of_mem_vars hnew
  have hknown := hc.declareGlobal hunused (hslot.trans hsize.symm)
  have houter : d.name ∈ c.outer := hc.outer ▸ hmem
  obtain ⟨code, hcode, hwhole⟩ := hexpr _ (s.noteGlobal d c.globals.length)
    (houtermost.tracks.global houter (by simp [hc.constants])).1 hknown
  rw [hslot] at hwhole
  have hglob : globalCode d a.globalSize s =
      .ok (init done.vars.length d, s.noteGlobal d c.globals.length) := by
    rw [houtermost.globals, hwhole, ← hsize]
    exact globalCode_eq_ok.2 ⟨houtermost.tracks.isDefined_of_mem_outer houter, rfl,
      .inr ⟨e, code, hinit, hcode, rfl⟩⟩
  have hdecl : declCode a s (.var d) = .ok ({ a with
      startUp := a.startUp ++ init done.vars.length d, globalSize := a.globalSize + 1 },
      s.noteGlobal d c.globals.length) := by
    simp only [declCode, hconst, hglob, ok_bind]
    rfl
  have hbehind := houtermost.next (d := .var d) rfl houter hnew hdecl
  rw [Context.afterDecl, hconst, if_neg Bool.false_ne_true] at hbehind
  have hfuncs : (Program.mk (done.decls ++ [.var d])).funcs = done.funcs := by simp [Program.funcs]
  have hvars : (Program.mk (done.decls ++ [.var d])).vars = done.vars ++ [d] := by
    simp [vars]
  refine ⟨_, _, hdecl, ⟨h.constants, ?_, ?_, ?_, h.fits, ⟨_, hbehind, ?_⟩, fun g => ?_⟩⟩
  · rw [hvars]
    simp [h.globalSize]
  · rw [hvars, startCode_append, zero_add, h.startUp]
    simp [startCode]
  · rw [hfuncs]
    exact h.funcs
  · rwa [hvars, map_append]
  · exact ((keeps_declCode hdecl).result? g).symm.trans (h.same g)

lemma declsCode_assembled (hdist : p.names.Nodup) (hsym : p.Declares symbols)
    (hinit : ∀ before d, isVar before d → HasInit p (p.vars.map VarDecl.name) init before d) :
    ∀ rest done a s, p.decls = done ++ rest →
    declsAre isVar (fun before f => f.IsCore before p) ((mk done).vars.map VarDecl.name)
      rest →
    Assembled p symbols (p.vars.map VarDecl.name) init ⟨done⟩ a s →
    ∃ a' s', declsCode a s rest = .ok (a', s') ∧
      Assembled p symbols (p.vars.map VarDecl.name) init p a' s' := by
  intro rest
  induction rest with
  | nil =>
    intro done a s hdecls _ h
    rw [append_nil] at hdecls
    exact ⟨a, s, rfl, by rwa [← hdecls] at h⟩
  | cons d rest ih =>
    intro done a s hdecls hcore h
    have hnames : d.name ∉ done.map name := by
      rw [names, hdecls, map_append, map_cons, nodup_append] at hdist
      exact fun hmem => hdist.2.2 _ hmem _ (by simp) rfl
    have hmem : d.name ∈ p.names := by simp [names, hdecls]
    have hdecls' : p.decls = done ++ [d] ++ rest := by simp [hdecls]
    cases d with
    | func f =>
      obtain ⟨a', s', hcode, h'⟩ :=
        h.func (fun _ _ => result?_of_arity hdist hsym) hcore.1 hmem hnames
      have hvars : (mk (done ++ [.func f])).vars = (mk done).vars := by
        simp [vars]
      obtain ⟨a'', s'', hrest, h''⟩ := ih _ a' s' hdecls' (by rw [hvars]; exact hcore.2) h'
      exact ⟨a'', s'', by simp only [declsCode, hcode, hrest, ok_bind], h''⟩
    | var v =>
      have hnew : v.name ∉ (mk done).vars.map VarDecl.name :=
        mt mem_names_of_mem_vars hnames
      have hslot : (p.vars.map VarDecl.name).idxOf v.name = (mk done).vars.length := by
        have hvars : p.vars = (mk done).vars ++ v :: (mk rest).vars := by
          simp [vars, hdecls]
        rw [hvars, map_append, map_cons, idxOf_append_of_notMem hnew]
        simp
      obtain ⟨a', s', hcode, h'⟩ := h.var (hinit _ v hcore.1) hmem hnames hslot
      have hvars : (mk (done ++ [.var v])).vars.map VarDecl.name =
          (mk done).vars.map VarDecl.name ++ [v.name] := by
        simp [vars]
      obtain ⟨a'', s'', hrest, h''⟩ := ih _ a' s' hdecls' (by rw [hvars]; exact hcore.2) h'
      exact ⟨a'', s'', by simp only [declsCode, hcode, hrest, ok_bind], h''⟩

/-- The assembly of a whole program, with the start-up code of its global variables. -/
structure Complete (p : Program) (globals : List String) (startUp : List Instr) (a : Assembly)
    (s : GenState) : Prop where
  constants : a.constants = []
  globalSize : a.globalSize = (p.vars.length : Nat)
  startUp : a.startUp = startUp ++ callMain
  funcs : ∀ f ∈ p.funcs, ∃ pre code post, a.code = pre ++ code ++ post ∧ FuncCodeIs globals f code
  fits : ∀ i ∈ a.startUp ++ a.code, i.Fits
  fresh : ∀ name, s.labels.place name = Labels.unplaced
  created : ∀ name ∈ marks (a.startUp ++ a.code), s.labels.places.contains name = true
  nodup : (marks (a.startUp ++ a.code)).Nodup

lemma functionNames_sublist_names (ds : List Decl) :
    (functionNames ds).Sublist (ds.map name) := by
  induction ds with
  | nil => exact .slnil
  | cons d rest ih =>
    cases d with
    | var d => exact ih.cons d.name
    | func f => exact ih.cons_cons f.name

lemma assemble_complete (hdist : p.names.Nodup) (hsym : p.Declares symbols)
    (hinit : ∀ before d, isVar before d → HasInit p (p.vars.map VarDecl.name) init before d)
    (hdecls : declsAre isVar (fun before f => f.IsCore before p) [] p.decls)
    (hfits : ∀ i ∈ startCode init 0 p.vars ++ callMain, i.Fits) :
    ∃ a s, assemble symbols p = .ok (a, s) ∧
      Complete p (p.vars.map VarDecl.name) (startCode init 0 p.vars) a s := by
  obtain ⟨a, s, hcode, h⟩ := declsCode_assembled hdist hsym hinit p.decls [] .empty
    (.start symbols) rfl hdecls (assembled_empty hsym)
  have hasm : assemble symbols p = .ok ({ a with startUp := a.startUp ++ callMain }, s) := by
    simp only [assemble, hcode, ok_bind, pure_ok]
  have hnames : ∀ name ∈ functionNames p.decls, labelNumber? name = none := by
    intro name hname
    obtain ⟨f, hf, rfl⟩ := mem_functionNames.1 hname
    obtain ⟨_, hcore, -⟩ := declsAre_mem hdecls hf
    exact labelNumber?_eq_none hcore.named
  obtain ⟨_, hcreates, _⟩ :=
    assemble_creates hnames ((functionNames_sublist_names p.decls).nodup hdist) hasm
  obtain ⟨hfresh, hcreated, hnodup⟩ := hcreates.linkable
  refine ⟨_, s, hasm, h.constants, h.globalSize, ?_, h.funcs, ?_, hfresh, hcreated, hnodup⟩
  · simp only [h.startUp]
  · simp only [h.startUp]
    exact forall_mem_append.2 ⟨hfits, h.fits⟩

end

end ArmStudio.Code
