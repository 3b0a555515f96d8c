import ArmStudio.Proofs.ProgramContexts

/-!
# Points of a function

A point of a function is a place in its text together with the assembler as it comes there. The
assembler sees statements only, so the blocks in which the text puts some of them are lost. The
points of this module are those of every way to put them back: behind statements that were a block,
what they declare is not visible any more.
-/

namespace ArmStudio.Code

open Script Context

/-- A parameter or local variable that is visible at a point of a function. -/
structure Local where
  name : String
  /-- The slot that the assembler has given its declaration. -/
  slot : Nat
  isParam : Bool
  /-- The names that the function declares in front of it. -/
  before : List String
  /-- The slot in which the assembler finds the name where it is declared once more. -/
  reached : Option Nat
  deriving DecidableEq

/-- The slot of the name in the assembler's reach, behind the declaration. -/
def Local.kept (b : Local) : Nat := b.reached.getD b.slot

/-- A point of a function. -/
structure Spot where
  /-- The label behind the innermost loop, where it is known. -/
  exit? : Option String
  /-- The number of constants so far. -/
  index : Nat
  /-- What is visible by the blocks of the text, the latest first. -/
  locals : List Local
  context : Context
  state : GenState

/-- The number of names that are recorded for a function: the slot that the next local gets. -/
def GenState.frameSize (s : GenState) (func : String) : Nat :=
  ((s.storage.functions.find? func).map fun f => f.locals.size).getD 0

namespace Spot

variable (p : Spot)

def goOn (c : Context) (r : StmtCode) (s : GenState) : Spot :=
  { p with index := p.index + r.constants.length, context := c, state := s }

def declares (func : String) : Stmt → List Local
  | .decl d =>
    if d.isConst then []
    else [⟨d.name, p.state.frameSize func, false, p.context.declared, p.context.own.lookup d.name⟩]
  | _ => []

/-- The point behind a statement. -/
def behind (func : String) (st : Stmt) (r : StmtCode) (s : GenState) : Spot :=
  { p.goOn (p.context.after st) r s with locals := p.declares func st ++ p.locals }

def body (first second : String) (exit? : Option String) : Spot :=
  { p with exit? := exit?, state := ((p.state.label first).2.label second).2.enter }

/-- The first point of the second branch of a conditional, behind the code of the first. -/
def other (yes : List Stmt) (r : StmtCode) (s : GenState) : Spot :=
  { p.goOn { p.context.afterAll yes with own := p.context.own } r s.leave.enter with exit? := none }

end Spot

/-- From the statements `ss` at the point `p`, the point `q` is reached, with the statements `more`
behind it. -/
inductive Reaches (func : String) : Spot → List Stmt → Spot → List Stmt → Prop
  | here (p : Spot) (ss : List Stmt) : Reaches func p ss p ss
  | behind {p : Spot} {q st rest more r s}
      (hcode : stmtCode func p.exit? p.index p.state st = .ok (r, s))
      (h : Reaches func (p.behind func st r s) rest q more) : Reaches func p (st :: rest) q more
  /-- Behind a block, what it declares is not visible. -/
  | behindBlock {p : Spot} {q block rest more r s}
      (hcode : stmtsCode func p.exit? p.index p.state block = .ok (r, s))
      (h : Reaches func (p.goOn (p.context.afterAll block) r s) rest q more) :
      Reaches func p (block ++ rest) q more
  /-- In its initial value a local is not visible, but the assembler has declared it. -/
  | initial {p : Spot} {d : VarDecl} {e f rest}
      (hd : d.isConst = false) (hinit : d.init = some e)
      (hf : p.state.storage.functions.find? func = some f) :
      Reaches func p (.decl d :: rest)
        { p with context := p.context.declare d, state := p.state.declare func f d } [.expr e]
  | inThen {p : Spot} {q cond yes no rest more}
      (h : Reaches func (p.body "_if_else" "_if_end" none) yes q more) :
      Reaches func p (.ifElse cond yes no :: rest) q more
  | inElse {p : Spot} {q cond yes no rest more r s}
      (hcode : stmtsCode func none p.index (p.body "_if_else" "_if_end" none).state yes =
        .ok (r, s))
      (h : Reaches func (p.other yes r s) no q more) :
      Reaches func p (.ifElse cond yes no :: rest) q more
  | inWhile {p : Spot} {q cond body rest more}
      (h : Reaches func (p.body "_while_end" "_while_begin" (p.state.label "_while_end").1)
        body q more) :
      Reaches func p (.whileDo cond body :: rest) q more
  | inLoop {p : Spot} {q body rest more}
      (h : Reaches func (p.body "_loop_begin" "_loop_end"
        ((p.state.label "_loop_begin").2.label "_loop_end").1) body q more) :
      Reaches func p (.loop body :: rest) q more

/-! ## Contexts further on -/

namespace Context

lemma lookup_bind_self (c : Context) {name} (slot : Nat) (h : name ∉ c.outer) :
    (c.bind name slot).own.lookup name = some ((c.own.lookup name).getD slot) := by
  cases hown : c.own.lookup name with
  | none => simp [bind, isFree, h, hown]
  | some n => simp [bind, isFree, hown]

end Context

/-! ## Points at which the assembler keeps up -/

/-- The slot of a parameter is its position, that of a local the number of different names in front
of it. -/
def Local.Numbered (b : Local) : Prop :=
  b.slot = if b.isParam then b.before.length else b.before.eraseDups.length

/-- The visible locals are numbered and in order, and their names have the slots in which they were
found. -/
structure Listed (params : List String) (c : Context) (locals : List Local) : Prop where
  kept : ∀ b ∈ locals, b.name ∉ c.outer → c.own.lookup b.name = some b.kept
  numbered : ∀ b ∈ locals, b.Numbered
  among : ∀ b ∈ locals, b.isParam → b.before ++ [b.name] <+: params
  past : ∀ b ∈ locals, b.isParam = false → params <+: b.before
  declared : ∀ b ∈ locals, b.before ++ [b.name] <+: c.declared
  ordered : locals.Pairwise fun b b' => b'.before ++ [b'.name] <+: b.before

namespace Listed

variable {params : List String} {c c' : Context} {locals : List Local}

lemma nil (params : List String) (c : Context) : Listed params c [] :=
  ⟨by simp, by simp, by simp, by simp, by simp, .nil⟩

lemma of_extends (h : Listed params c locals) (hext : c.Extends c') :
    Listed params c' locals := by
  refine ⟨?_, h.numbered, h.among, h.past, ?_, h.ordered⟩
  · intro b hb hname
    rw [hext.outer] at hname
    exact hext.own _ _ (h.kept b hb hname)
  · exact fun b hb => (h.declared b hb).trans hext.declared

lemma bind (h : Listed params c locals) {name} {slot : Nat} {isParam : Bool}
    (hnumbered : Local.Numbered ⟨name, slot, isParam, c.declared, c.own.lookup name⟩)
    (hparam : isParam → c.declared ++ [name] <+: params)
    (hlocal : isParam = false → params <+: c.declared) :
    Listed params (c.bind name slot)
      (⟨name, slot, isParam, c.declared, c.own.lookup name⟩ :: locals) := by
  have hold := h.of_extends (.bind c name slot)
  refine ⟨?_, ?_, ?_, ?_, ?_, ?_⟩
  · exact List.forall_mem_cons.2 ⟨c.lookup_bind_self slot, hold.kept⟩
  · exact List.forall_mem_cons.2 ⟨hnumbered, h.numbered⟩
  · exact List.forall_mem_cons.2 ⟨hparam, h.among⟩
  · exact List.forall_mem_cons.2 ⟨hlocal, h.past⟩
  · exact List.forall_mem_cons.2 ⟨List.prefix_rfl, hold.declared⟩
  · exact List.pairwise_cons.2 ⟨h.declared, h.ordered⟩

end Listed

/-- A point whose context and locals agree with the state of the assembler. -/
structure Spot.Valid (func : String) (params : List String) (p : Spot) : Prop where
  follows : Follows func p.context p.state
  index : p.index = p.context.constants.length
  past : params <+: p.context.declared
  listed : Listed params p.context p.locals

variable {func : String} {c : Context} {s : GenState} {params : List String} {q : Spot}
  {more : List Stmt} {a : Assembly}

lemma Follows.frameSize (h : Follows func c s) : s.frameSize func = c.nextSlot := by
  obtain ⟨f, hf, hnames⟩ := h.locals
  rw [GenState.frameSize, hf, nextSlot, ← hnames, ← Table.size_eq_length_names]
  rfl

namespace Spot.Valid

variable {func : String} {params : List String} {p : Spot} (h : p.Valid func params)

include h

lemma goOn {c s exit?} {index : Nat}
    (hfollows : Follows func c s) (hindex : index = c.constants.length)
    (hext : p.context.Extends c) : Spot.Valid func params ⟨exit?, index, p.locals, c, s⟩ :=
  ⟨hfollows, hindex, h.past.trans hext.declared, h.listed.of_extends hext⟩

lemma behind {st : Stmt} {r : StmtCode} {s : GenState}
    (hadm : p.context.Admits (constantNames st.decls))
    (hcode : stmtCode func p.exit? p.index p.state st = .ok (r, s)) :
    (p.behind func st r s).Valid func params := by
  rw [h.index] at hcode
  have hleads := leads_stmtCode st _ _ _ _ _ h.follows hadm hcode
  have hindex : p.index + r.constants.length = (p.context.after st).constants.length := by
    rw [h.index, hleads.counted]
  have hkeep : Spot.Valid func params ⟨p.exit?, _, p.locals, _, s⟩ :=
    h.goOn hleads.follows hindex (.after p.context st)
  cases st with
  | decl d =>
    cases hd : d.isConst with
    | true => simpa [Spot.behind, Spot.goOn, Spot.declares, hd] using hkeep
    | false =>
      -- the local is listed with the context in front of it, by which it is numbered
      have hafter : p.context.after (.decl d) = p.context.bind d.name p.context.nextSlot := by
        simp [after, declare, hd]
      have hnumbered : Local.Numbered ⟨d.name, p.context.nextSlot, false, p.context.declared,
          p.context.own.lookup d.name⟩ := by
        simp [Local.Numbered, nextSlot]
      refine ⟨hleads.follows, hindex, hkeep.past, ?_⟩
      simp only [Spot.behind, Spot.goOn, Spot.declares, hd, Bool.false_eq_true, if_false, hafter,
        h.follows.frameSize]
      exact h.listed.bind hnumbered (by simp) fun _ => h.past
  | _ => exact hkeep

lemma body (first second : String) (exit? : Option String) :
    (p.body first second exit?).Valid func params :=
  h.goOn ((h.follows.label first).label second).enter h.index (.refl p.context)

end Spot.Valid

lemma Reaches.valid {p : Spot} {ss : List Stmt} (h : Reaches func p ss q more)
    (hp : p.Valid func params) (hadm : p.context.Admits (constantNames (declsIn ss))) :
    q.Valid func params ∧ q.context.outer = p.context.outer := by
  -- the constants still to come can be declared, at every point on the way
  induction h with
  | here p ss => exact ⟨hp, rfl⟩
  | @behind p q st rest more r s hcode _ ih =>
    rw [declsIn_cons, constantNames_append] at hadm
    have hext := Extends.after p.context st
    obtain ⟨hq, houter⟩ := ih
      (hp.behind hadm.left hcode)
      (hadm.right hext)
    exact ⟨hq, houter.trans hext.outer⟩
  | @behindBlock p q block rest more r s hcode _ ih =>
    rw [declsIn_append, constantNames_append] at hadm
    rw [hp.index] at hcode
    have hleads := leads_stmtsCode block _ _ _ _ _ hp.follows
      hadm.left hcode
    have hext := Extends.afterAll block p.context
    -- what the block declares is in the assembler's reach, but not listed
    obtain ⟨hq, houter⟩ := ih
      (hp.goOn hleads.follows (by rw [hp.index, hleads.counted]) hext)
      (hadm.right hext)
    exact ⟨hq, houter.trans hext.outer⟩
  | @initial p d e f rest hd hinit hf =>
    have hdecl := (hp.follows.declare hf hd).2
    have hindex : p.index = (p.context.declare d).constants.length := by
      simp [hp.index, Context.declare, hd, Context.bind]
    exact ⟨hp.goOn hdecl hindex (.declare p.context d), (Context.Extends.declare p.context d).outer⟩
  | @inThen p q cond yes no rest more _ ih =>
    exact ih (hp.body _ _ none) fun x hx => hadm x (by simp [Stmt.decls, hx])
  | @inElse p q cond yes no rest more r s hcode _ ih =>
    have hbody := hp.body "_if_else" "_if_end" none
    rw [hp.index] at hcode
    have hleads := leads_stmtsCode yes _ _ _ _ _ hbody.follows
      (fun x hx => hadm x (by simp [Stmt.decls, hx])) hcode
    have hext := Extends.afterAll yes p.context
    obtain ⟨hfollows, _⟩ := hleads.body ((hp.follows.label "_if_else").label "_if_end") hext
    have hindex : p.index + r.constants.length = (p.context.afterAll yes).constants.length := by
      rw [hp.index]
      exact hleads.counted.symm
    obtain ⟨hq, houter⟩ := ih
      (hp.goOn hfollows.enter hindex hext.leave)
      (Admits.of_extends (fun x hx => hadm x (by simp [Stmt.decls, hx])) hext.leave)
    exact ⟨hq, houter.trans hext.outer⟩
  | inWhile _ ih | inLoop _ ih =>
    exact ih (hp.body _ _ _) fun x hx => hadm x (by simp [Stmt.decls, hx])

/-! ## The start of a function -/

def paramLocals (c : Context) (locals : List Local) : List String → List Local
  | [] => locals
  | name :: rest =>
    paramLocals (c.bindParam name)
      (⟨name, c.declared.length, true, c.declared, c.own.lookup name⟩ :: locals) rest

lemma listed_paramLocals (names : List String) :
    ∀ {c : Context} {locals : List Local}, Listed params c locals → c.declared ++ names = params →
      Listed params (names.foldl bindParam c) (paramLocals c locals names) := by
  induction names with
  | nil => exact fun h _ => h
  | cons name rest ih =>
    intro c locals h hpars
    have hprefix : c.declared ++ [name] <+: params := ⟨rest, by simpa using hpars⟩
    refine ih (h.bind (by simp [Local.Numbered]) (fun _ => hprefix) (by simp)) ?_
    simpa [Context.bindParam, Context.bind] using hpars

def Spot.entry (f : FuncDecl) (c : Context) (a : Assembly) (s : GenState) : Spot where
  exit? := none
  index := a.constants.length
  locals := paramLocals { c with own := [], declared := [] } [] (f.params.map Param.name)
  context := c.enterFunction (f.params.map Param.name)
  state := funcStart f s

lemma Outermost.entry {names : List String} (h : Outermost names c a s) (f : FuncDecl) :
    (Spot.entry f c a s).Valid f.name (f.params.map Param.name) := by
  obtain ⟨_, hconsts, _, hdecl⟩ := c.enterFunction_keeps (f.params.map Param.name)
  refine ⟨(Follows.entry h.tracks h.inner f).1, ?_, ?_, listed_paramLocals _ (.nil _ _) rfl⟩
  · simp only [Spot.entry, hconsts]
    exact h.constants
  · simp only [Spot.entry, hdecl]
    exact List.prefix_rfl

lemma Reaches.valid_of_parsed {p tree : Program} {symbols} (hparsed : p.Parsed symbols)
    (hnames : tree.globalNames = p.globalNames) {before after} {f : FuncDecl}
    (hsplit : tree.decls = before ++ .func f :: after)
    (hbefore : declsCode .empty (.start symbols) before = .ok (a, s)) (h : Reaches f.name
      (.entry f (before.foldl afterDecl (.start symbols.outer.names)) a s) f.body q more) :
    q.Valid f.name (f.params.map Param.name) ∧ q.context.outer = symbols.outer.names := by
  obtain ⟨houtermost, hfresh⟩ := Outermost.function hparsed hnames hsplit hbefore
  obtain ⟨hvalid, houter⟩ := h.valid (houtermost.entry f) (houtermost.admits hfresh)
  refine ⟨hvalid, houter.trans ?_⟩
  simp only [Spot.entry]
  rw [(enterFunction_keeps _ _).1, outer_foldl_afterDecl]
  rfl

end ArmStudio.Code
