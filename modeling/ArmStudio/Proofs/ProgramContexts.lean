import ArmStudio.Proofs.CheckedTrees
import ArmStudio.Proofs.Results

/-!
# Contexts across a program

From one declaration of a program to the next, and into its functions.
-/

namespace ArmStudio.Code

open Script List Context Decl

namespace Context

/-- The context in front of a program that declares the names `outer` globally. -/
def start (outer : List String) : Context := ⟨outer, [], [], [], []⟩

def afterDecl (c : Context) : Decl → Context
  | .var d => if d.isConst then c.declareConstant d.name else c.declareGlobal d.name
  | .func f =>
    { (c.enterFunction (f.params.map Param.name)).afterAll f.body with own := c.own }

/-! ### What functions leave as it is -/

lemma bindParams_keeps (params : List String) : ∀ c : Context,
    (params.foldl bindParam c).outer = c.outer ∧
      (params.foldl bindParam c).constants = c.constants ∧
      (params.foldl bindParam c).globals = c.globals ∧
      (params.foldl bindParam c).declared = c.declared ++ params := by
  induction params with
  | nil =>
    intro c
    exact ⟨rfl, rfl, rfl, by simp⟩
  | cons p rest ih =>
    intro c
    obtain ⟨ho, hc, hg, hd⟩ := ih (c.bindParam p)
    refine ⟨ho, hc, hg, ?_⟩
    rw [foldl_cons, hd]
    simp [bindParam, bind]

lemma enterFunction_keeps (c : Context) (params : List String) :
    (c.enterFunction params).outer = c.outer ∧ (c.enterFunction params).constants = c.constants ∧
      (c.enterFunction params).globals = c.globals ∧
      (c.enterFunction params).declared = params :=
  bindParams_keeps params _

lemma outer_afterDecl (c : Context) (d : Decl) : (c.afterDecl d).outer = c.outer := by
  cases d with
  | var d => cases hd : d.isConst <;> simp [afterDecl, hd, declareConstant, declareGlobal]
  | func f => exact (Extends.afterAll f.body _).outer.trans (c.enterFunction_keeps _).1

lemma outer_foldl_afterDecl (ds : List Decl) : ∀ c : Context,
    (ds.foldl afterDecl c).outer = c.outer := by
  induction ds with
  | nil => exact fun _ => rfl
  | cons d rest ih => exact fun c => (ih (c.afterDecl d)).trans (c.outer_afterDecl d)

lemma lookup_constants_foldl_declare {x : String} (ds : List VarDecl) : ∀ {c : Context},
    c.constants.lookup x = none → x ∉ constantNames ds →
    (ds.foldl declare c).constants.lookup x = none := by
  induction ds with
  | nil => exact fun h _ => h
  | cons d rest ih =>
    intro c h hx
    cases hd : d.isConst with
    | true =>
      have hne : x ≠ d.name ∧ x ∉ constantNames rest := by simpa [constantNames, hd] using hx
      refine ih ?_ hne.2
      simp only [declare, hd, if_true, declareConstant, lookup_cons_of_ne hne.1]
      exact h
    | false =>
      refine ih ?_ (by simpa [constantNames, hd] using hx)
      simp only [declare, hd, Bool.false_eq_true, if_false, bind]
      exact h

lemma lookup_constants_afterAll {c : Context} {x : String} {body}
    (h : c.constants.lookup x = none) (hx : x ∉ constantNames (declsIn body)) :
    (c.afterAll body).constants.lookup x = none := by
  have hsame : (c.afterAll body).bare.constants =
      ((declsIn body).foldl declare c).bare.constants := by
    rw [bare_afterAll]
  refine Eq.trans (congrArg (List.lookup x) hsame) ?_
  exact lookup_constants_foldl_declare _ h hx

end Context

/-! ## The start of a function -/

lemma Tracks.declareParams {storage} (params : List Param) (info : FunctionInfo)
    {c symbols} (h : Tracks c storage symbols) (hinner : symbols.inner ≠ [])
    (hnames : info.locals.names = c.declared.eraseDups) :
    Tracks ((params.map Param.name).foldl bindParam c) storage
        (declareParams c.declared.length params info symbols).2 ∧
      (declareParams c.declared.length params info symbols).2.inner ≠ [] ∧
      (declareParams c.declared.length params info symbols).2.inner.tail = symbols.inner.tail ∧
      (declareParams c.declared.length params info symbols).1.locals.names =
        ((params.map Param.name).foldl bindParam c).declared.eraseDups := by
  induction params generalizing info c symbols with
  | nil => exact ⟨h, hinner, rfl, hnames⟩
  | cons p rest ih =>
    -- `declared` has the parameters so far, so its length is the position of the next
    have hslot : ({ Symbol.ofVar p.type false with slot := some (c.declared.length : Int) } :
        Symbol).slot = some (Int.ofNat c.declared.length) := rfl
    obtain ⟨_, htail, hne⟩ := Scopes.declareLocal_keeps symbols p.name
      { Symbol.ofVar p.type false with slot := some (c.declared.length : Int) } hinner
    have hlen : (c.bind p.name c.declared.length).declared.length = c.declared.length + 1 := by
      simp [Context.bind]
    let slot : SlotInfo := ⟨p.type, c.declared.length⟩
    have hinserted : ({ info with locals := info.locals.insert p.name slot } :
        FunctionInfo).locals.names = (c.bind p.name c.declared.length).declared.eraseDups :=
      names_insert_eraseDups hnames p.name slot
    obtain ⟨htracks, hne', htail', hnames'⟩ :=
      ih _ (h.bind hinner p.name hslot le_rfl) hne hinserted
    rw [hlen] at htracks hne' htail' hnames'
    exact ⟨htracks, hne', htail'.trans htail, hnames'⟩

lemma Follows.entry {c : Context} {s : GenState} (h : Tracks c s.storage s.symbols)
    (hinner : s.symbols.inner = []) (f : FuncDecl) :
    Follows f.name (c.enterFunction (f.params.map Param.name)) (funcStart f s) ∧
      (funcStart f s).symbols.inner.tail = s.symbols.inner := by
  -- between declarations there are no inner scopes, so nothing is in reach
  have hempty : Tracks { c with own := [], declared := [] } s.storage s.symbols.enter := by
    refine ⟨h.outer, h.constants, h.globals, h.disjoint, h.slots, ?_, by simp, h.constants_outer,
      h.globals_outer⟩
    intro x
    simp [Scopes.enter, hinner, Scopes.findFirst]
  obtain ⟨htracks, hne, htail, hnames⟩ := Tracks.declareParams f.params
    ⟨f.returnType, f.localCount, .empty, f.params.length⟩ hempty (by simp [Scopes.enter]) rfl
  refine ⟨⟨?_, hne, ?_⟩, htail⟩
  · exact ⟨htracks.outer, htracks.constants, htracks.globals, htracks.disjoint, htracks.slots,
      htracks.own, htracks.apart, htracks.constants_outer, htracks.globals_outer⟩
  · exact ⟨_, Table.find?_insert_self _ _ _, hnames⟩

/-! ## Between declarations -/

/-- Declarations behind those that made `names` global: what they make global is new. -/
structure Pending (names : List String) (c : Context) (ds : List Decl) : Prop where
  outer : ∀ x ∈ ds.flatMap globalNames, x ∈ c.outer
  nodup : (names ++ ds.flatMap globalNames).Nodup

namespace Pending

variable {names : List String} {c : Context} {d : Decl} {xs ys : List Decl}

lemma append (h : Pending names c (xs ++ ys)) : Pending names c xs ∧
    Pending (names ++ xs.flatMap globalNames) (xs.foldl afterDecl c) ys := by
  obtain ⟨houter, hnodup⟩ := h
  rw [flatMap_append] at houter hnodup
  rw [← append_assoc] at hnodup
  refine ⟨⟨fun x hx => houter x (mem_append_left _ hx), (nodup_append.1 hnodup).1⟩, ?_, hnodup⟩
  intro x hx
  rw [outer_foldl_afterDecl]
  exact houter x (mem_append_right _ hx)

lemma head (h : Pending names c (d :: xs)) : ∀ x ∈ d.globalNames, x ∈ c.outer ∧ x ∉ names := by
  intro x hx
  have hmem : x ∈ (d :: xs).flatMap globalNames := by
    rw [flatMap_cons]
    exact mem_append_left _ hx
  exact ⟨h.outer x hmem, fun hname => (nodup_append.1 h.nodup).2.2 x hname x hmem rfl⟩

lemma tail (h : Pending names c (d :: xs)) :
    Pending (names ++ d.globalNames) (c.afterDecl d) xs := by
  have hsplit : Pending names c ([d] ++ xs) := h
  simpa using hsplit.append.2

lemma start {p q : Program} {symbols : Symbols} (h : p.Parsed symbols)
    (hnames : q.globalNames = p.globalNames) :
    Pending [] (.start symbols.outer.names) q.decls := by
  have hall : q.decls.flatMap globalNames = symbols.outer.names := by
    rw [h.names, ← hnames, Program.globalNames]
  refine ⟨fun x hx => hall ▸ hx, ?_⟩
  rw [nil_append, hall, h.names]
  exact h.nodup

end Pending

/-- The assembler between declarations of a program; those in front made `names` global. -/
structure Outermost (names : List String) (c : Context) (a : Assembly) (s : GenState) : Prop where
  tracks : Tracks c s.storage s.symbols
  inner : s.symbols.inner = []
  constants : a.constants.length = c.constants.length
  globals : a.globalSize = c.globals.length
  unknown : ∀ x, x ∉ names → c.constants.lookup x = none ∧ c.globals.lookup x = none

namespace Outermost

variable {names : List String} {c : Context} {a a' : Assembly} {s s' : GenState} {f : FuncDecl}

section

variable (h : Outermost names c a s)

include h

lemma informed {symbols0}
    (hresults : ∀ f, Symbols.result? s.symbols f = Symbols.result? symbols0 f) (f : FuncDecl) :
    Informed symbols0 f.name (c.enterFunction (f.params.map Param.name)) (funcStart f s) := by
  refine ⟨(Follows.entry h.tracks h.inner f).1, fun g => ?_⟩
  rw [← (keeps_funcStart f s).result? g, Symbols.result?_enter, hresults]

lemma admits (hfresh : ∀ x ∈ globalNames (.func f), x ∈ c.outer ∧ x ∉ names) :
    (c.enterFunction (f.params.map Param.name)).Admits (constantNames (declsIn f.body)) := by
  obtain ⟨houter, _, hglobs, _⟩ := c.enterFunction_keeps (f.params.map Param.name)
  intro x hx
  obtain ⟨hmem, hnew⟩ := hfresh x (by simp [Decl.globalNames, hx])
  rw [houter, hglobs]
  exact ⟨hmem, (h.unknown x hnew).2⟩

lemma func (hfresh : ∀ x ∈ globalNames (.func f), x ∈ c.outer ∧ x ∉ names)
    (hcode : declCode a s (.func f) = .ok (a', s')) :
    Outermost (names ++ globalNames (.func f)) (c.afterDecl (.func f)) a' s' := by
  obtain ⟨r, hr, rfl⟩ := declCode_func hcode
  obtain ⟨body, s1, hbody, rfl, rfl⟩ := funcCode_eq_ok hr
  obtain ⟨hentry, htail⟩ := Follows.entry h.tracks h.inner f
  obtain ⟨houter, hconsts, hglobs, _⟩ := c.enterFunction_keeps (f.params.map Param.name)
  -- constants of the body are numbered on from those in front of the function
  rw [h.constants, ← hconsts] at hbody
  have hleads := leads_stmtsCode f.body none _ _ s1 body hentry (h.admits hfresh) hbody
  have hinner : s1.symbols.inner.tail = s.symbols.inner := hleads.around.trans htail
  have hsame := Extends.afterAll f.body (c.enterFunction (f.params.map Param.name))
  have hown : ∀ x n, c.own.lookup x = some n →
      n < ((c.enterFunction (f.params.map Param.name)).afterAll f.body).declared.length := by
    intro x n hn
    have hnone := h.tracks.own x
    rw [h.inner, hn] at hnone
    cases hnone
  refine ⟨h.tracks.leave hleads.follows.tracks hinner (hsame.outer.trans houter) hown,
    ?_, ?_, ?_, ?_⟩
  · exact hinner.trans h.inner
  · have hcount := hleads.counted
    rw [hconsts] at hcount
    simp only [length_append, h.constants, afterDecl]
    exact hcount.symm
  · simp only [afterDecl, hsame.globals, hglobs]
    exact h.globals
  · intro x hx
    have hparts : x ∉ names ∧ x ≠ f.name ∧ x ∉ constantNames (declsIn f.body) := by
      simpa [Decl.globalNames] using hx
    simp only [afterDecl, hsame.globals, hglobs]
    refine ⟨lookup_constants_afterAll ?_ hparts.2.2, (h.unknown x hparts.1).2⟩
    rw [hconsts]
    exact (h.unknown x hparts.1).1

lemma var {d : VarDecl} (hfresh : ∀ x ∈ globalNames (.var d), x ∈ c.outer ∧ x ∉ names)
    (hcode : declCode a s (.var d) = .ok (a', s')) :
    Outermost (names ++ Decl.globalNames (.var d)) (c.afterDecl (.var d)) a' s' := by
  obtain ⟨hmem, hnew⟩ := hfresh d.name (by simp [Decl.globalNames])
  have hunknown : ∀ x, x ∉ names ++ Decl.globalNames (.var d) →
      (c.afterDecl (.var d)).constants.lookup x = none ∧
        (c.afterDecl (.var d)).globals.lookup x = none := by
    intro x hx
    have hparts : x ∉ names ∧ x ≠ d.name := by simpa [Decl.globalNames] using hx
    cases hd : d.isConst <;>
      simp [afterDecl, hd, declareConstant, declareGlobal,
        lookup_cons_of_ne hparts.2, h.unknown x hparts.1]
  cases hd : d.isConst with
  | true =>
    obtain ⟨v, hv, rfl⟩ := declCode_const hd hcode
    obtain ⟨_, _, rfl⟩ := constantDecl_eq_ok.1 hv
    have hafter : c.afterDecl (.var d) = c.declareConstant d.name := by simp [afterDecl, hd]
    rw [hafter] at hunknown ⊢
    rw [h.constants]
    obtain ⟨htracks, hinner⟩ := h.tracks.constant v hmem (h.unknown d.name hnew).2
    refine ⟨htracks, hinner.trans h.inner, ?_, h.globals, hunknown⟩
    simp [declareConstant, h.constants]
  | false =>
    obtain ⟨code, hglob, rfl⟩ := declCode_global hd hcode
    obtain ⟨_, rfl, _⟩ := globalCode_eq_ok.1 hglob
    have hafter : c.afterDecl (.var d) = c.declareGlobal d.name := by simp [afterDecl, hd]
    rw [hafter] at hunknown ⊢
    rw [h.globals]
    obtain ⟨htracks, hinner⟩ := h.tracks.global hmem (h.unknown d.name hnew).1
    refine ⟨htracks, hinner.trans h.inner, h.constants, ?_, hunknown⟩
    simp [declareGlobal]

lemma declCode {d : Decl} (hfresh : ∀ x ∈ d.globalNames, x ∈ c.outer ∧ x ∉ names)
    (hcode : declCode a s d = .ok (a', s')) :
    Outermost (names ++ d.globalNames) (c.afterDecl d) a' s' := by
  cases d with
  | func f => exact h.func hfresh hcode
  | var d => exact h.var hfresh hcode

end

lemma declsCode (ds : List Decl) {names c a s} (h : Outermost names c a s)
    (hpend : Pending names c ds) (hcode : declsCode a s ds = .ok (a', s')) :
    Outermost (names ++ ds.flatMap globalNames) (ds.foldl afterDecl c) a' s' := by
  induction ds generalizing names c a s with
  | nil =>
    cases hcode
    simpa using h
  | cons d rest ih =>
    obtain ⟨a1, s1, hd, hrest⟩ := declsCode_cons.1 hcode
    rw [flatMap_cons, ← append_assoc]
    exact ih (h.declCode hpend.head hd) hpend.tail hrest

lemma start {p : Program} {symbols : Symbols} (h : p.Parsed symbols) :
    Outermost [] (.start symbols.outer.names) .empty (.start symbols) := by
  refine ⟨⟨?_, fun _ => rfl, fun _ => rfl, fun _ => .inl rfl, ?_, ?_, ?_, ?_, ?_⟩,
    h.inner, rfl, rfl, fun _ _ => ⟨rfl, rfl⟩⟩
  · exact fun x => Table.contains_iff _ _
  · intro x symbol hx _
    rcases h.sound.outer x symbol hx with ⟨t, isConst, rfl⟩ | ⟨params, result, rfl⟩ <;> rfl
  · intro x
    simp [GenState.start, h.inner, Scopes.findFirst, Context.start]
  · intro x n hn
    cases hn
  · intro x k hk
    cases hk
  · intro x k hk
    cases hk

end Outermost

/-- The assembler comes to each function of a program with the context of the declarations in front
of it, and what the function makes global is new there. -/
theorem Outermost.function {p q : Program} {symbols : Symbols} (h : p.Parsed symbols)
    (hnames : q.globalNames = p.globalNames) {before after : List Decl} {f : FuncDecl}
    (hsplit : q.decls = before ++ .func f :: after) {a : Assembly} {s : GenState}
    (hbefore : Code.declsCode .empty (.start symbols) before = .ok (a, s)) :
    Outermost (before.flatMap globalNames)
        (before.foldl afterDecl (.start symbols.outer.names)) a s ∧
      ∀ x ∈ globalNames (.func f),
        x ∈ (before.foldl afterDecl (.start symbols.outer.names)).outer ∧
          x ∉ before.flatMap globalNames := by
  have hpend := Pending.start h hnames
  rw [hsplit] at hpend
  obtain ⟨hbefores, hlater⟩ := hpend.append
  exact ⟨Outermost.declsCode before (Outermost.start h) hbefores hbefore, hlater.head⟩

end ArmStudio.Code
