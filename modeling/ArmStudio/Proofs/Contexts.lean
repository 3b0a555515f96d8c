import ArmStudio.Proofs.ExprShapes
import Mathlib.Data.Finset.Card

/-!
# What the assembler knows of names

The declarations in front of a point of a program, and what the assembler makes of them there.
Every constant is numbered and every global has a slot. A parameter or local variable has a slot of
the frame, but only the first of a name takes effect while it is in reach of the assembler, and none
whose name the program declares globally, before or later.
-/

namespace ArmStudio.Script

mutual

def Stmt.decls : Stmt → List VarDecl
  | .decl d => [d]
  | .ifElse _ yes no => declsIn yes ++ declsIn no
  | .whileDo _ body => declsIn body
  | .loop body => declsIn body
  | _ => []

def declsIn : List Stmt → List VarDecl
  | [] => []
  | st :: rest => st.decls ++ declsIn rest

end

@[simp] lemma declsIn_nil : declsIn [] = [] := by simp [declsIn]

@[simp] lemma declsIn_cons (st : Stmt) (rest : List Stmt) :
    declsIn (st :: rest) = st.decls ++ declsIn rest := by
  simp [declsIn]

@[simp] lemma declsIn_append (xs ys : List Stmt) :
    declsIn (xs ++ ys) = declsIn xs ++ declsIn ys := by
  induction xs with
  | nil => rfl
  | cons st rest ih => simp [ih]

def constantNames (ds : List VarDecl) : List String := (ds.filter VarDecl.isConst).map VarDecl.name

variable (xs ys : List VarDecl)

@[simp] lemma constantNames_append :
    constantNames (xs ++ ys) = constantNames xs ++ constantNames ys := by
  simp [constantNames]

/-- The number of the variables among declarations. -/
def variableCount (ds : List VarDecl) : Nat := ds.countP fun d => !d.isConst

@[simp] lemma variableCount_append :
    variableCount (xs ++ ys) = variableCount xs + variableCount ys :=
  List.countP_append

/-! ## Uses of names -/

/-- A use of a name in an expression. -/
inductive Use where
  | load (name : String)
  | store (name : String)
  deriving DecidableEq

/-- The uses where a value is assigned to an expression, and left or not. -/
def targetUses (wanted : Bool) : Expr → List Use
  | .var name _ => .store name :: if wanted then [.load name] else []
  | _ => []

section

variable (symbols : Symbols)

mutual

def Expr.uses : Bool → Expr → List Use
  | _, .var name _ => [.load name]
  | _, .unary _ e => e.uses true
  | wanted, .binary .assign a b => b.uses true ++ targetUses wanted a
  | _, .binary .kwAs a b =>
    -- what has the type already is not evaluated
    if (typeOf symbols a).toOption = (typeOf symbols b).toOption then [] else a.uses true
  | wanted, .binary op a b =>
    a.uses true ++ b.uses true ++ if op.isAssignment then targetUses wanted a else []
  | _, .call _ _ args => usesIn args
  | _, .sysCall _ args => usesIn args
  | _, _ => []

def usesIn : List Expr → List Use
  | [] => []
  | e :: rest => e.uses true ++ usesIn rest

end

lemma usesIn_eq (args : List Expr) :
    usesIn symbols args = args.flatMap (Expr.uses symbols true) := by
  induction args with
  | nil => rfl
  | cons a rest ih => rw [usesIn, ih, List.flatMap_cons]

lemma Expr.uses_operator {op} (hassign : op ≠ .assign) (hcast : op ≠ .kwAs)
    (wanted : Bool) (a b : Expr) : uses symbols wanted (.binary op a b) =
      a.uses symbols true ++ b.uses symbols true ++
        if op.isAssignment then targetUses wanted a else [] := by
  rw [uses]
  · exact hassign
  · exact hcast

end

end ArmStudio.Script

namespace ArmStudio.Code

open Script List Option Scopes Expr Table GenState StmtCode

/-! ## Places -/

/-- Where a variable or constant is kept. -/
inductive Place where
  | constant (index : Nat)
  | global (slot : Nat)
  | slot (slot : Nat)
  deriving DecidableEq

namespace Place

def load : Place → Instr
  | constant i => ⟨.loadk, [.u16 (.ofInt i)]⟩
  | global i => ⟨.loadg, [.u16 (.ofInt i)]⟩
  | slot i => ⟨.loadl, [.u8 (.ofInt i)]⟩

def store : Place → Instr
  | global i => ⟨.storg, [.u16 (.ofInt i)]⟩
  | constant i | slot i => ⟨.storl, [.u8 (.ofInt i)]⟩

end Place

/-! ## Contexts -/

lemma lookup_cons_of_ne {x name : String} (h : x ≠ name) (n : Nat) (l : List (String × Nat)) :
    ((name, n) :: l).lookup x = l.lookup x := by
  have hne : (x == name) = false := by simpa using h
  rw [lookup_cons, hne]

lemma length_eraseDups (xs : List String) : xs.eraseDups.length = xs.toFinset.card := by
  induction xs using reverseRecOn with
  | nil => rfl
  | append_singleton xs x ih =>
    rw [eraseDups_append, length_append, ih]
    by_cases hx : x ∈ xs <;> simp [removeAll, hx, eraseDups_cons, Finset.union_singleton]

lemma length_eraseDups_le (xs : List String) : xs.eraseDups.length ≤ xs.length :=
  (length_eraseDups xs).trans_le xs.toFinset_card_le

lemma length_eraseDups_eq_iff {xs : List String} : xs.eraseDups.length = xs.length ↔ xs.Nodup := by
  rw [length_eraseDups]
  exact Multiset.toFinset_card_eq_card_iff_nodup (m := (xs : Multiset String))

/-- What the declarations in front of a point amount to; lists of names with their numbers have the
latest first. -/
structure Context where
  /-- The names that the program declares globally, also those it declares later. -/
  outer : List String
  constants : List (String × Nat)
  globals : List (String × Nat)
  /-- The parameters and locals that took effect and are in reach. -/
  own : List (String × Nat)
  /-- The names of the function's parameters and locals so far, in reach or not. -/
  declared : List String
  deriving DecidableEq

namespace Context

variable (c : Context)

/-- The slot of the next local variable: the number of different names so far. -/
def nextSlot : Nat := c.declared.eraseDups.length

variable (name : String)

/-- Whether the name can still take effect as that of a parameter or local. -/
def isFree : Bool :=
  decide (name ∉ c.outer) && (c.own.lookup name).isNone

/-- A parameter or local is declared. -/
def bind (slot : Nat) : Context := { c with
    own := if c.isFree name then (name, slot) :: c.own else c.own
    declared := c.declared ++ [name] }

def declareConstant : Context :=
  { c with constants := (name, c.constants.length) :: c.constants }

def declareGlobal : Context :=
  { c with globals := (name, c.globals.length) :: c.globals }

def declare (d : VarDecl) : Context :=
  if d.isConst then c.declareConstant d.name else c.bind d.name c.nextSlot

/-- The context behind a statement. Locals of bodies are out of reach there. -/
def after : Stmt → Context
  | .decl d => c.declare d
  | st => { st.decls.foldl declare c with own := c.own }

def afterAll (ss : List Stmt) : Context := ss.foldl after c

/-- A parameter is declared: its slot is its position. -/
def bindParam : Context := c.bind name c.declared.length

/-- The context at the start of a function's body. -/
def enterFunction (params : List String) : Context :=
  params.foldl bindParam { c with own := [], declared := [] }

/-- The place that the assembler takes a name to mean. -/
def place? : Option Place :=
  ((c.constants.lookup name).map .constant).or
    (((c.globals.lookup name).map .global).or ((c.own.lookup name).map .slot))

/-! ### Contexts up to what is in reach -/

def bare : Context := { c with own := [] }

lemma eq_of_bare {c c' : Context} (h : c.bare = c'.bare) (hown : c.own = c'.own) : c = c' := by
  rcases c with ⟨outer, constants, globals, own, declared⟩
  rcases c' with ⟨outer', constants', globals', own', declared'⟩
  simp_all [bare]

@[simp] lemma bare_withOwn (own : List (String × Nat)) :
    ({ c with own := own } : Context).bare = c.bare := rfl

lemma bare_declare {c c' : Context} (h : c.bare = c'.bare) (d : VarDecl) :
    (c.declare d).bare = (c'.declare d).bare := by
  rcases c with ⟨outer, constants, globals, own, declared⟩
  rcases c' with ⟨outer', constants', globals', own', declared'⟩
  simp only [bare, Context.mk.injEq, true_and] at h
  rcases h with ⟨rfl, rfl, rfl, rfl⟩
  cases hd : d.isConst <;> simp [declare, hd, declareConstant, bind, bare]

lemma bare_foldl_declare (ds : List VarDecl) : ∀ {c c' : Context}, c.bare = c'.bare →
    (ds.foldl declare c).bare = (ds.foldl declare c').bare := by
  induction ds with
  | nil => exact fun h => h
  | cons d rest ih => exact fun h => ih (bare_declare h d)

lemma bare_after (c : Context) (st : Stmt) :
    (c.after st).bare = (st.decls.foldl declare c).bare := by
  cases st <;> rfl

lemma bare_afterAll (ss : List Stmt) : ∀ c : Context,
    (c.afterAll ss).bare = ((declsIn ss).foldl declare c).bare := by
  induction ss with
  | nil =>
    intro c
    rfl
  | cons st rest ih =>
    intro c
    rw [declsIn_cons, foldl_append]
    exact (ih (c.after st)).trans (bare_foldl_declare _ (bare_after c st))

lemma after_eq_of_body (c : Context) (st : Stmt) {body} (hst : ∀ d, st ≠ .decl d)
    (hdecls : st.decls = declsIn body) : { c.afterAll body with own := c.own } = c.after st := by
  have hown : (c.after st).own = c.own := by
    cases st with
    | decl d => exact absurd rfl (hst d)
    | _ => rfl
  apply eq_of_bare
  · rw [bare_withOwn, bare_afterAll, bare_after, hdecls]
  · exact hown.symm

lemma after_ifElse (c : Context) (cond : Expr) (yes no : List Stmt) :
    { ({ c.afterAll yes with own := c.own } : Context).afterAll no with own := c.own } =
      c.after (.ifElse cond yes no) := by
  apply eq_of_bare
  · rw [bare_withOwn, bare_afterAll, bare_after, Stmt.decls, foldl_append]
    exact bare_foldl_declare _ (bare_afterAll yes c)
  · rfl

lemma length_declared_foldl (ds : List VarDecl) : ∀ c : Context,
    (ds.foldl declare c).declared.length = c.declared.length + variableCount ds := by
  induction ds with
  | nil => exact fun _ => rfl
  | cons d rest ih =>
    intro c
    rw [foldl_cons, ih]
    cases hd : d.isConst <;> simp [declare, hd, declareConstant, bind, variableCount]
    omega

/-! ### Later contexts of the same function -/

/-- What a later context of the same function keeps. -/
structure Extends (c c' : Context) : Prop where
  outer : c'.outer = c.outer
  constants : c.constants <:+ c'.constants
  globals : c'.globals = c.globals
  own : ∀ x n, c.own.lookup x = some n → c'.own.lookup x = some n
  declared : c.declared <+: c'.declared

namespace Extends

variable {c c1 c2 : Context}

lemma refl (c : Context) : c.Extends c := ⟨rfl, suffix_rfl, rfl, fun _ _ h => h, prefix_rfl⟩

lemma trans (h : c.Extends c1) (h' : c1.Extends c2) : c.Extends c2 :=
  ⟨h'.outer.trans h.outer, h.constants.trans h'.constants, h'.globals.trans h.globals,
    fun x n hx => h'.own x n (h.own x n hx), h.declared.trans h'.declared⟩

lemma leave (h : c.Extends c1) : c.Extends { c1 with own := c.own } :=
  ⟨h.outer, h.constants, h.globals, fun _ _ hx => hx, h.declared⟩

lemma bind (c : Context) (name : String) (slot : Nat) : c.Extends (c.bind name slot) := by
  refine ⟨rfl, suffix_rfl, rfl, ?_, prefix_append _ _⟩
  intro x n hx
  cases hfree : c.isFree name with
  | false => simpa [Context.bind, hfree] using hx
  | true =>
    have hne : x ≠ name := by
      rintro rfl
      simp [isFree, hx] at hfree
    simp only [Context.bind, hfree, if_true, lookup_cons_of_ne hne]
    exact hx

lemma declare (c : Context) (d : VarDecl) : c.Extends (c.declare d) := by
  unfold Context.declare
  split
  · exact ⟨rfl, suffix_cons _ _, rfl, fun _ _ h => h, prefix_rfl⟩
  · exact .bind c d.name c.nextSlot

lemma foldl_declare (ds : List VarDecl) :
    ∀ c : Context, c.Extends (ds.foldl Context.declare c) := by
  induction ds with
  | nil => exact refl
  | cons d rest ih => exact fun c => (declare c d).trans (ih (c.declare d))

lemma after (c : Context) (st : Stmt) : c.Extends (c.after st) := by
  cases st with
  | decl d => exact declare c d
  | _ => exact (foldl_declare _ c).leave

lemma afterAll (ss : List Stmt) : ∀ c : Context, c.Extends (c.afterAll ss) := by
  induction ss with
  | nil => exact refl
  | cons st rest ih => exact fun c => (after c st).trans (ih (c.after st))

end Extends

end Context

/-! ## The bookkeeping of the assembler -/

/-- Storage and symbols of the assembler are those of a context. -/
structure Tracks (c : Context) (storage : Storage) (symbols : Symbols) : Prop where
  outer : ∀ x, symbols.outer.contains x ↔ x ∈ c.outer
  constants : ∀ x, storage.constantOffset? x = (c.constants.lookup x).map Int.ofNat
  globals : ∀ x, storage.globalOffset? x = (c.globals.lookup x).map Int.ofNat
  disjoint : ∀ x, c.constants.lookup x = none ∨ c.globals.lookup x = none
  slots : ∀ x symbol, symbols.outer.find? x = some symbol → c.globals.lookup x = none →
    symbol.slot = (c.constants.lookup x).map Int.ofNat
  own : ∀ x, (Scopes.findFirst x symbols.inner).map Symbol.slot =
    (c.own.lookup x).map fun n => some (Int.ofNat n)
  apart : ∀ x n, c.own.lookup x = some n → x ∉ c.outer ∧ n < c.declared.length
  constants_outer : ∀ x k, c.constants.lookup x = some k → x ∈ c.outer
  globals_outer : ∀ x k, c.globals.lookup x = some k → x ∈ c.outer

namespace Tracks

variable {c : Context} {storage : Storage} {symbols : Symbols}

section

variable (h : Tracks c storage symbols)

include h

lemma findFirst_isSome (x : String) :
    (Scopes.findFirst x symbols.inner).isSome = (c.own.lookup x).isSome := by
  have hown := congrArg Option.isSome (h.own x)
  simpa using hown

lemma isDefined_eq (x : String) : symbols.isDefined x = !c.isFree x := by
  have hsome := h.findFirst_isSome x
  have houter := h.outer x
  unfold Table.contains at houter
  rw [Scopes.isDefined, lookup?_eq, Context.isFree, isSome_or, hsome]
  by_cases hx : x ∈ c.outer
  · simp [hx, houter.2 hx]
  · have hnone : (symbols.outer.find? x).isSome = false := by
      simpa using mt houter.1 hx
    cases c.own.lookup x <;> simp [hx, hnone]

variable {x name : String}

lemma isDefined_of_mem_outer (hx : x ∈ c.outer) : symbols.isDefined x := by
  simp [h.isDefined_eq, Context.isFree, hx]

lemma constants_eq_none (hx : x ∉ c.outer) : c.constants.lookup x = none := by
  cases hk : c.constants.lookup x with
  | none => rfl
  | some k => exact absurd (h.constants_outer x k hk) hx

/-! ### Loads and stores -/

lemma slotOf_eq (hglob : c.globals.lookup x = none) :
    (slotOf symbols x).toOption = ((c.constants.lookup x).or (c.own.lookup x)).map Int.ofNat := by
  unfold slotOf symbolOf Scopes.lookup
  rw [lookup?_eq]
  have hown := h.own x
  cases hc : c.own.lookup x with
  | some n =>
    -- a name in reach is global nowhere, so it is no constant either
    have hconst := h.constants_eq_none (h.apart x n hc).1
    rw [hc] at hown
    obtain ⟨symbol, hsymbol, hslot⟩ := map_eq_some_iff.1 hown
    simp [hsymbol, hslot, hconst, Except.bind, require]
  | none =>
    rw [hc, map_none, map_eq_none_iff] at hown
    cases hfind : symbols.outer.find? x with
    | none =>
      have hx : x ∉ c.outer := by
        rw [← h.outer x, Table.contains, hfind]
        simp
      simp [hown, h.constants_eq_none hx, Except.bind]
    | some symbol =>
      have hslot := h.slots x symbol hfind hglob
      cases hk : c.constants.lookup x <;>
        simp [hown, hslot, hk, Except.bind, require]

lemma loadVar_eq (x : String) :
    (loadVar storage symbols x).toOption = (c.place? x).map Place.load := by
  unfold loadVar Context.place?
  rw [h.constants x, h.globals x]
  cases hk : c.constants.lookup x with
  | some k => simp [Place.load]
  | none =>
    cases hg : c.globals.lookup x with
    | some g => simp [Place.load]
    | none =>
      have hslot := h.slotOf_eq hg
      rw [hk, none_or] at hslot
      cases hs : slotOf symbols x <;> cases ho : c.own.lookup x <;>
        simp_all [Place.load]

lemma storeVar_eq (x : String) :
    (storeVar storage symbols x).toOption = (c.place? x).map Place.store := by
  unfold storeVar Context.place?
  rw [h.globals x]
  -- stores do not look among the constants: they find one by its symbol, whose slot is its number
  cases hg : c.globals.lookup x with
  | some g =>
    have hk : c.constants.lookup x = none := by
      rcases h.disjoint x with hk | hk
      · exact hk
      · rw [hg] at hk
        cases hk
    simp [hk, Place.store]
  | none =>
    have hslot := h.slotOf_eq hg
    cases hs : slotOf symbols x <;> cases hk : c.constants.lookup x <;>
      cases ho : c.own.lookup x <;>
      simp_all [Place.store]

/-! ### Scopes -/

lemma enter : Tracks c storage symbols.enter := by
  refine ⟨h.outer, h.constants, h.globals, h.disjoint, h.slots, ?_, h.apart, h.constants_outer,
    h.globals_outer⟩
  intro x
  simpa [Scopes.enter, Scopes.findFirst] using h.own x

lemma leave {c1 storage1 symbols1}
    (h1 : Tracks c1 storage1 symbols1) (hinner : symbols1.inner.tail = symbols.inner)
    (houter : c1.outer = c.outer) (hown : ∀ x n, c.own.lookup x = some n → n < c1.declared.length) :
    Tracks { c1 with own := c.own } storage1 symbols1.leave := by
  refine ⟨h1.outer, h1.constants, h1.globals, h1.disjoint, h1.slots, ?_, ?_, h1.constants_outer,
    h1.globals_outer⟩
  · intro x
    simp only [Scopes.leave, hinner]
    exact h.own x
  · intro x n hn
    simp only [houter]
    exact ⟨(h.apart x n hn).1, hown x n hn⟩

/-! ### Declarations -/

lemma bind (hinside : symbols.inner ≠ []) (name : String) {slot : Nat} {info : Symbol}
    (hslot : info.slot = some (Int.ofNat slot)) (hle : slot ≤ c.declared.length) :
    Tracks (c.bind name slot) storage (symbols.declareLocal name info).2 := by
  have hdef := h.isDefined_eq name
  have houter := (declareLocal_keeps symbols name info hinside).1
  refine ⟨?_, h.constants, h.globals, h.disjoint, ?_, ?_, ?_, h.constants_outer, h.globals_outer⟩
  · intro x
    rw [houter]
    exact h.outer x
  · intro x symbol hx
    rw [houter] at hx
    exact h.slots x symbol hx
  · intro x
    cases hfree : c.isFree name with
    | false =>
      -- the assembler sees the name already, and declares nothing
      rw [hfree, Bool.not_false] at hdef
      simp only [declareLocal_of_defined _ _ hdef, Context.bind, hfree,
        Bool.false_eq_true, if_false]
      exact h.own x
    | true =>
      rw [hfree, Bool.not_true] at hdef
      simp only [findFirst_declareLocal _ _ _ hdef hinside, Context.bind, hfree, if_true]
      by_cases hx : name = x
      · subst hx
        simp [hslot]
      · rw [if_neg hx, lookup_cons_of_ne (Ne.symm hx)]
        exact h.own x
  · intro x n hn
    have hlen : (c.bind name slot).declared.length = c.declared.length + 1 := by
      simp [Context.bind]
    rw [hlen]
    cases hfree : c.isFree name with
    | false =>
      simp only [Context.bind, hfree, Bool.false_eq_true, if_false] at hn
      exact ⟨(h.apart x n hn).1, Nat.lt_succ_of_lt (h.apart x n hn).2⟩
    | true =>
      simp only [Context.bind, hfree, if_true] at hn
      by_cases hx : x = name
      · subst hx
        have hboth : x ∉ c.outer ∧ c.own.lookup x = none := by simpa [Context.isFree] using hfree
        rw [lookup_cons_self, Option.some.injEq] at hn
        exact ⟨hboth.1, by omega⟩
      · rw [lookup_cons_of_ne hx] at hn
        exact ⟨(h.apart x n hn).1, Nat.lt_succ_of_lt (h.apart x n hn).2⟩

lemma modify_outer (houter : name ∈ c.outer) (f : Symbol → Symbol) :
    symbols.modify name f = { symbols with outer := symbols.outer.modify name f } := by
  have hown : c.own.lookup name = none := by
    cases ho : c.own.lookup name with
    | none => rfl
    | some n => exact absurd houter (h.apart name n ho).1
  have hinner : symbols.inner.any (·.contains name) = false := by
    rw [← isSome_findFirst, h.findFirst_isSome, hown]
    rfl
  simp [Scopes.modify, hinner]

lemma number (hname : name ∈ c.outer) {constants globals : List (String × Nat)}
    {storage' : Storage} {f : Symbol → Symbol}
    (hothers : ∀ x, x ≠ name → constants.lookup x = c.constants.lookup x ∧
      globals.lookup x = c.globals.lookup x ∧
      storage'.constantOffset? x = storage.constantOffset? x ∧
      storage'.globalOffset? x = storage.globalOffset? x)
    (hconstant : storage'.constantOffset? name = (constants.lookup name).map Int.ofNat)
    (hglob : storage'.globalOffset? name = (globals.lookup name).map Int.ofNat)
    (hdisj : constants.lookup name = none ∨ globals.lookup name = none)
    (hslot : globals.lookup name = none →
      ∀ old, (f old).slot = (constants.lookup name).map Int.ofNat) :
    Tracks { c with constants := constants, globals := globals } storage'
      (symbols.modify name f) ∧ (symbols.modify name f).inner = symbols.inner := by
  rw [h.modify_outer hname]
  have hall : ∀ x, storage'.constantOffset? x = (constants.lookup x).map Int.ofNat ∧
      storage'.globalOffset? x = (globals.lookup x).map Int.ofNat ∧
      (constants.lookup x = none ∨ globals.lookup x = none) ∧
      (∀ k, constants.lookup x = some k → x ∈ c.outer) ∧
      ∀ k, globals.lookup x = some k → x ∈ c.outer := by
    intro x
    by_cases hx : x = name
    · subst hx
      exact ⟨hconstant, hglob, hdisj, fun _ _ => hname, fun _ _ => hname⟩
    · obtain ⟨hk, hg, hko, hgo⟩ := hothers x hx
      rw [hk, hg, hko, hgo]
      exact ⟨h.constants x, h.globals x, h.disjoint x, h.constants_outer x, h.globals_outer x⟩
  refine ⟨⟨?_, fun x => (hall x).1, fun x => (hall x).2.1, fun x => (hall x).2.2.1, ?_, h.own,
    h.apart, fun x => (hall x).2.2.2.1, fun x => (hall x).2.2.2.2⟩, rfl⟩
  · intro x
    simpa using h.outer x
  · intro x symbol hfind hx
    simp only [find?_modify] at hfind
    by_cases hne : name = x
    · subst hne
      simp only [if_true, map_eq_some_iff] at hfind
      obtain ⟨old, _, rfl⟩ := hfind
      exact hslot hx old
    · rw [if_neg hne] at hfind
      obtain ⟨hk, hg, _⟩ := hothers x (Ne.symm hne)
      simp only [hg] at hx
      simp only [hk]
      exact h.slots x symbol hfind hx

end

variable {s : GenState} {d : VarDecl}

lemma constant (h : Tracks c s.storage s.symbols) (v : Value) (houter : d.name ∈ c.outer)
    (hglob : c.globals.lookup d.name = none) :
    Tracks (c.declareConstant d.name) (s.noteConstant d v c.constants.length).storage
        (s.noteConstant d v c.constants.length).symbols ∧
      (s.noteConstant d v c.constants.length).symbols.inner = s.symbols.inner := by
  refine h.number houter (fun x hx => ⟨lookup_cons_of_ne hx _ _, rfl, ?_, rfl⟩) ?_ ?_
    (.inr hglob) fun _ _ => ?_
  · simp [Storage.constantOffset?, noteConstant, find?_insert_of_ne _ _ (Ne.symm hx)]
  · simp [Storage.constantOffset?, noteConstant]
  · exact h.globals d.name
  · simp

lemma global (h : Tracks c s.storage s.symbols) (houter : d.name ∈ c.outer)
    (hconstant : c.constants.lookup d.name = none) :
    Tracks (c.declareGlobal d.name) (s.noteGlobal d c.globals.length).storage
        (s.noteGlobal d c.globals.length).symbols ∧
      (s.noteGlobal d c.globals.length).symbols.inner = s.symbols.inner := by
  refine h.number houter (fun x hx => ⟨rfl, lookup_cons_of_ne hx _ _, rfl, ?_⟩) ?_ ?_
    (.inl hconstant) fun hnone => ?_
  · simp [Storage.globalOffset?, noteGlobal, find?_insert_of_ne _ _ (Ne.symm hx)]
  · exact h.constants d.name
  · simp [Storage.globalOffset?, noteGlobal]
  · simp at hnone

end Tracks

/-! ## Loads and stores in the code of an expression -/

/-- The instruction loads or stores a variable or constant. -/
def Instr.isAccess (i : Instr) : Bool :=
  match i.op with
  | .loadk | .loadg | .loadl | .storl | .storg => true
  | _ => false

lemma Place.isAccess_load (place : Place) : place.load.isAccess := by
  cases place <;> rfl

lemma Place.isAccess_store (place : Place) : place.store.isAccess := by
  cases place <;> rfl

def Context.access? (c : Context) : Use → Option Instr
  | .load name => (c.place? name).map Place.load
  | .store name => (c.place? name).map Place.store

/-- The loads and stores in the code are those of the uses, one for each and in order. -/
def Accesses (c : Context) (uses : List Use) (code : List Instr) : Prop :=
  (code.filter Instr.isAccess).map some = uses.map c.access?

namespace Accesses

variable {c : Context} {us us' : List Use} {code code' : List Instr}

lemma append (h : Accesses c us code) (h' : Accesses c us' code') :
    Accesses c (us ++ us') (code ++ code') := by
  unfold Accesses at *
  rw [filter_append, map_append, map_append, h, h']

lemma cons {i : Instr} (hi : i.isAccess = false) (h : Accesses c us code) :
    Accesses c us (i :: code) := by
  unfold Accesses at *
  rw [filter_cons_of_neg (by simp [hi]), h]

lemma nil : Accesses c [] [] := rfl

lemma drop (wanted : Bool) : Accesses c [] (dropUnless wanted) := by
  cases wanted with
  | true => exact nil
  | false => exact .cons rfl nil

lemma behind (h : Accesses c us code) (h' : Accesses c [] code') :
    Accesses c us (code ++ code') := by
  simpa using h.append h'

end Accesses

lemma Instr.Computes.isAccess {i : Instr} {d : Int} (h : i.Computes d) : i.isAccess = false := by
  have hbytes := h.width
  rw [h.bare] at hbytes
  unfold Instr.isAccess
  split <;> simp_all [Opcode.operandBytes, argsWidth]

section

variable {c : Context} {storage : Storage} {symbols : Symbols} {x : String} {i : Instr}
  {wanted : Bool} {code : List Instr} (h : Tracks c storage symbols)

include h

lemma accesses_load (hload : loadVar storage symbols x = .ok i) : Accesses c [.load x] [i] := by
  have hplace := h.loadVar_eq x
  rw [toOption_eq_some.2 hload] at hplace
  obtain ⟨place, _, rfl⟩ := map_eq_some_iff.1 hplace.symm
  simp [Accesses, Context.access?, place.isAccess_load, hplace]

lemma accesses_store (hstore : storeVar storage symbols x = .ok i) : Accesses c [.store x] [i] := by
  have hplace := h.storeVar_eq x
  rw [toOption_eq_some.2 hstore] at hplace
  obtain ⟨place, _, rfl⟩ := map_eq_some_iff.1 hplace.symm
  simp [Accesses, Context.access?, place.isAccess_store, hplace]

lemma accesses_assignCode {left : Expr} {onOther}
    (hcode : assignCode storage symbols wanted left onOther = .ok code) :
    Accesses c (targetUses wanted left) code := by
  obtain ⟨_, _, store, more, rfl, hstore, rfl, ⟨rfl, rfl⟩ | ⟨rfl, load, hload, rfl⟩⟩ :=
    assignCode_eq_ok hcode
  · exact accesses_store h hstore
  · exact (accesses_store h hstore).append (accesses_load h hload)

omit h in
lemma ExprCoded.accesses {es} (hcode : ExprCoded storage symbols wanted es code)
    (h : Tracks c storage symbols) : Accesses c (es.flatMap (uses symbols wanted)) code := by
  induction hcode with
  | nil | blank | typeName => exact .nil
  | cons _ _ iha ihrest => simpa using iha.append ihrest
  | @literal w v => exact .cons (by cases v <;> rfl) (.drop w)
  | @hole w => exact .cons rfl (.drop w)
  | @var w _ _ _ hload => exact (accesses_load h hload).append (.drop w)
  | @unary w _ _ _ _ _ hlast ih =>
    simpa [uses] using ih.behind (.cons hlast.isAccess (.drop w))
  -- the left side of `=` has no code but the store
  | assign _ htail ih => simpa [uses] using ih.append (accesses_assignCode h htail)
  | @same w a t ht =>
    have htgt : typeOf symbols (.typeName t) = .ok t := rfl
    simpa [uses, ht, htgt] using Accesses.nil
  | @convert w a t target operand ht hne _ ih =>
    have htgt : typeOf symbols (.typeName target) = .ok target := rfl
    have hdiff : t ≠ target := Ne.symm hne
    have hopnd : Accesses c (a.uses symbols true) (conversionCode target operand) := by
      rw [flatMap_singleton] at ih
      cases target with
      | int | float => exact ih.behind (.cons rfl .nil)
      | _ => exact ih
    simpa [uses, ht, htgt, hdiff] using hopnd
  | @operator w _ _ _ _ _ _ hassign hcast hop _ _ hlast iha ihb =>
    simpa [uses_operator symbols hassign hcast, hop] using
      (iha.append ihb).behind (.cons hlast.isAccess (.drop w))
  | update hassign hcast hop _ _ hlast htail iha ihb =>
    simpa [uses_operator symbols hassign hcast, hop] using
      (iha.append ihb).append (.cons hlast.isAccess (accesses_assignCode h htail))
  | @call w _ _ _ _ _ ih => simpa [Expr.uses, usesIn_eq] using ih.behind (.cons rfl (.drop w))
  | @read w _ _ _ _ hop ih =>
    simpa [Expr.uses, usesIn_eq] using
      ih.behind (.cons (computes_callCode hop).isAccess (.drop w))
  | sysCall _ _ hop ih =>
    simpa [Expr.uses, usesIn_eq] using ih.behind (.cons (computes_callCode hop).isAccess .nil)

lemma exprCode_accesses (e : Expr) (wanted : Bool) (code : List Instr)
    (hcode : exprCode storage symbols wanted e = .ok code) :
    Accesses c (e.uses symbols wanted) code := by
  simpa using (exprCoded e hcode).accesses h

end

/-! ## Slots of the frame in code -/

/-- The slots of the frame that the code loads from and stores to belong to parameters and locals. A
store to a constant has its number for a slot. -/
def Framed (c : Context) (code : List Instr) : Prop :=
  ∀ i ∈ code, i.op = .loadl ∨ i.op = .storl → ∃ n : Nat, i.args = [.u8 (.ofInt n)] ∧
    (n < c.declared.length ∨ i.op = .storl ∧ ∃ x, (x, n) ∈ c.constants)

namespace Framed

variable {c c' : Context} {xs ys : List Instr}

lemma append (hx : Framed c xs) (hy : Framed c ys) : Framed c (xs ++ ys) :=
  forall_mem_append.2 ⟨hx, hy⟩

lemma quiet (h : xs.any Instr.isAccess = false) : Framed c xs := by
  intro i hi hop
  have hnot := any_eq_false.1 h i hi
  rcases hop with hop | hop <;> simp [Instr.isAccess, hop] at hnot

lemma labelled {name} (h : Framed c xs) : Framed c (labelInstr name :: xs) :=
  show Framed c ([labelInstr name] ++ xs) from append (.quiet rfl) h

lemma mono {own} (h : Framed c xs)
    (hext : Context.Extends { c with own := own } c') : Framed c' xs := by
  intro i hi hop
  obtain ⟨n, hargs, hn | ⟨hstore, x, hx⟩⟩ := h i hi hop
  · exact ⟨n, hargs, .inl (hn.trans_le hext.declared.length_le)⟩
  · exact ⟨n, hargs, .inr ⟨hstore, x, hext.constants.subset hx⟩⟩

end Framed

lemma Accesses.framed {c storage symbols us}
    {code} (h : Accesses c us code) (htracks : Tracks c storage symbols) :
    Framed c code := by
  intro i hi hop
  have haccess : i.isAccess = true := by
    rcases hop with hop | hop <;> simp [Instr.isAccess, hop]
  have hmem : some i ∈ us.map c.access? := by
    rw [← h]
    exact mem_map_of_mem (mem_filter.2 ⟨hi, haccess⟩)
  obtain ⟨x, place, hplace, hi⟩ :
      ∃ x place, c.place? x = some place ∧ (place.load = i ∨ place.store = i) := by
    obtain ⟨_ | _, _, huse⟩ := mem_map.1 hmem <;>
      obtain ⟨place, hplace, hi⟩ := map_eq_some_iff.1 huse
    · exact ⟨_, place, hplace, .inl hi⟩
    · exact ⟨_, place, hplace, .inr hi⟩
  simp only [Context.place?, or_eq_some_iff, map_eq_some_iff] at hplace
  rcases hplace with ⟨k, hk, rfl⟩ | ⟨_, ⟨g, _, rfl⟩ | ⟨_, n, hn, rfl⟩⟩ <;> rcases hi with rfl | rfl
  case inl.inr =>
    obtain ⟨_, _, hconsts, _⟩ := lookup_eq_some_iff.1 hk
    exact ⟨k, rfl, .inr ⟨rfl, x, by simp [hconsts]⟩⟩
  iterate 3 rcases hop with hop | hop <;> cases hop
  all_goals exact ⟨n, rfl, .inl (htracks.apart x n hn).2⟩

/-! ## Inside a function -/

/-- The assembler is in the function `func`, with the names and slots of a context. -/
structure Follows (func : String) (c : Context) (s : GenState) : Prop where
  tracks : Tracks c s.storage s.symbols
  inside : s.symbols.inner ≠ []
  locals : ∃ f, s.storage.functions.find? func = some f ∧ f.locals.names = c.declared.eraseDups

lemma names_insert_eraseDups {α : Type} {t : Table α} {names}
    (h : t.names = names.eraseDups) (name : String) (info : α) :
    (t.insert name info).names = (names ++ [name]).eraseDups := by
  by_cases hname : name ∈ names
  -- a name that is entered again keeps its position
  · have hmem : name ∈ t.names := by simpa [h] using hname
    rw [names_insert_of_mem _ _ hmem, h, eraseDups_append]
    simp [removeAll, hname]
  · have hmem : name ∉ t.names := by simpa [h] using hname
    rw [names_insert_of_not_mem _ _ hmem, h, eraseDups_append]
    simp [removeAll, hname, eraseDups_cons]

namespace Follows

variable {func : String} {c : Context} {s : GenState} (h : Follows func c s)

include h

lemma declare {f : FunctionInfo} (hf : s.storage.functions.find? func = some f) {d : VarDecl}
    (hd : d.isConst = false) :
    f.locals.size = c.nextSlot ∧ Follows func (c.declare d) (s.declare func f d) := by
  obtain ⟨f', hf', hnames⟩ := h.locals
  rw [hf, Option.some.injEq] at hf'
  subst hf'
  have hsize : f.locals.size = c.nextSlot := by
    rw [size_eq_length_names, hnames, Context.nextSlot]
  have hdeclare : c.declare d = c.bind d.name c.nextSlot := by simp [Context.declare, hd]
  rw [hdeclare]
  refine ⟨hsize, ?_, (declareLocal_keeps _ _ _ h.inside).2.2, ?_⟩
  · have hbind := h.tracks.bind h.inside d.name
      (show ({ Symbol.ofVar d.type d.isConst with slot := some (f.locals.size : Int) } :
        Symbol).slot = some (Int.ofNat c.nextSlot) by rw [hsize]; rfl) (length_eraseDups_le _)
    exact ⟨hbind.outer, hbind.constants, hbind.globals, hbind.disjoint, hbind.slots, hbind.own,
      hbind.apart, hbind.constants_outer, hbind.globals_outer⟩
  · refine ⟨_, find?_insert_self _ _ _, ?_⟩
    exact names_insert_eraseDups hnames _ _

lemma constant {d : VarDecl} (hd : d.isConst) (v : Value) (houter : d.name ∈ c.outer)
    (hglob : c.globals.lookup d.name = none) :
    Follows func (c.declare d) (s.noteConstant d v c.constants.length) ∧
      (s.noteConstant d v c.constants.length).symbols.inner = s.symbols.inner := by
  obtain ⟨htracks, hinner⟩ := h.tracks.constant v houter hglob
  have hdeclare : c.declare d = c.declareConstant d.name := by simp [Context.declare, hd]
  rw [hdeclare]
  exact ⟨⟨htracks, by rw [hinner]; exact h.inside, h.locals⟩, hinner⟩

lemma framed {wanted : Bool} {e : Expr} {code}
    (hcode : s.exprCode wanted e = .ok code) : Framed c code :=
  (exprCode_accesses h.tracks e wanted code hcode).framed h.tracks

lemma enter : Follows func c s.enter :=
  ⟨h.tracks.enter, by simp [GenState.enter, Scopes.enter], h.locals⟩

lemma leave {c1 s1} (h1 : Follows func c1 s1)
    (hinner : s1.symbols.inner.tail = s.symbols.inner) (hext : c.Extends c1) :
    Follows func { c1 with own := c.own } s1.leave := by
  have hown : ∀ x n, c.own.lookup x = some n → n < c1.declared.length := fun x n hn =>
    Nat.lt_of_lt_of_le (h.tracks.apart x n hn).2 hext.declared.length_le
  refine ⟨h.tracks.leave h1.tracks hinner hext.outer hown, ?_, h1.locals⟩
  simp only [GenState.leave, Scopes.leave, hinner]
  exact h.inside

lemma label (suffix : String) : Follows func c (s.label suffix).2 := ⟨h.tracks, h.inside, h.locals⟩

end Follows

/-! ## Statements -/

/-- Constants of these names can be declared: they are global and no variables. -/
def Context.Admits (c : Context) (names : List String) : Prop :=
  ∀ x ∈ names, x ∈ c.outer ∧ c.globals.lookup x = none

lemma Context.Admits.of_extends {c c' : Context} {names} (h : c.Admits names)
    (hext : c.Extends c') : c'.Admits names := by
  intro x hx
  rw [hext.outer, hext.globals]
  exact h x hx

lemma Context.Admits.left {c : Context} {xs ys : List String} (h : c.Admits (xs ++ ys)) :
    c.Admits xs :=
  fun x hx => h x (mem_append_left _ hx)

lemma Context.Admits.right {c c' : Context} {xs ys : List String} (h : c.Admits (xs ++ ys))
    (hext : c.Extends c') : c'.Admits ys :=
  of_extends (fun x hx => h x (mem_append_right _ hx)) hext

@[simp] lemma StmtCode.constants_ofCode (code : List Instr) :
    (ofCode code).constants = [] := rfl

@[simp] lemma StmtCode.constants_append (a b : StmtCode) :
    (a ++ b).constants = a.constants ++ b.constants := rfl

/-- What making the code of statements does: it leads to the context `c'`, keeps the scopes around,
gives as many constants as the context got and code for its frame. -/
structure Leads (func : String) (s : GenState) (c c' : Context) (r : StmtCode) (s' : GenState) :
    Prop where
  follows : Follows func c' s'
  around : s'.symbols.inner.tail = s.symbols.inner.tail
  counted : c'.constants.length = c.constants.length + r.constants.length
  framed : Framed c' r.code

section

variable {func : String} {r : StmtCode}

lemma Leads.body {c c1 : Context} {s s1 : GenState} (h : Follows func c s)
    (hbody : Leads func s.enter c c1 r s1) (hext : c.Extends c1) :
    Follows func { c1 with own := c.own } s1.leave ∧ s1.leave.symbols.inner = s.symbols.inner := by
  have hinner : s1.symbols.inner.tail = s.symbols.inner := by
    rw [hbody.around]
    rfl
  exact ⟨h.leave hbody.follows hinner hext, hinner⟩

variable {body : List Stmt}

lemma Leads.round {c : Context} (s : GenState) {s0 s1 : GenState} {st : Stmt} {inner : StmtCode}
    {front back : List Instr} (hbody : Leads func s0.enter c (c.afterAll body) inner s1)
    (hlabs : Follows func c s0) (hsame : s0.symbols = s.symbols)
    (hafter : { c.afterAll body with own := c.own } = c.after st) (hfront : Framed c front)
    (hback : Framed c back) :
    Leads func s c (c.after st) (.ofCode front ++ inner ++ .ofCode back) s1.leave := by
  have hext := Context.Extends.afterAll body c
  obtain ⟨h1, hinner⟩ := hbody.body hlabs hext
  have hcount := hbody.counted
  rw [hafter] at h1
  refine ⟨h1, by rw [hinner, hsame], ?_, ?_⟩ <;> rw [← hafter]
  · simpa using hcount
  · exact ((hfront.mono hext).append hbody.framed).append (hback.mono hext)

lemma Coded.leads {exit?} {index : Nat} {s s'}
    (hcoded : Coded func exit? index s body r s') (c : Context)
    (hindex : index = c.constants.length)
    (h : Follows func c s) (hadm : c.Admits (constantNames (declsIn body))) :
    Leads func s c (c.afterAll body) r s' := by
  induction hcoded generalizing c with
  | @cons exit? index s s1 s2 st rest first others _ _ ihfirst ihrest =>
    rw [declsIn_cons, constantNames_append] at hadm
    have hst : Leads func s c (c.after st) first s1 := by
      exact ihfirst c hindex h (by simpa using hadm.left)
    -- the constants of the first statement are counted in its context
    have hrest := ihrest (c.after st) (by rw [hindex, hst.counted]) hst.follows
      (hadm.right (.after c st))
    refine ⟨hrest.follows, hrest.around.trans hst.around, ?_,
      (hst.framed.mono (.afterAll rest (c.after st))).append hrest.framed⟩
    have hcount := hrest.counted
    have hlen : (first ++ others).constants.length =
        first.constants.length + others.constants.length := length_append
    rwa [hlen, ← add_assoc, ← hst.counted]
  | @constant _ _ s _ d v hd hdecl =>
    subst hindex
    obtain ⟨_, _, rfl⟩ := constantDecl_eq_ok.1 hdecl
    obtain ⟨houter, hglob⟩ := hadm d.name (by simp [Stmt.decls, constantNames, hd])
    obtain ⟨hfollows, hinner⟩ := h.constant hd v houter hglob
    refine ⟨hfollows, by rw [hinner], ?_, .quiet rfl⟩
    simp [Context.afterAll, Context.after, Context.declare, hd, Context.declareConstant]
  | declare hd hf _ =>
    refine ⟨(h.declare hf hd).2, (declareLocal_keeps _ _ _ h.inside).2.1, ?_, .quiet rfl⟩
    simp [Context.afterAll, Context.after, Context.declare, hd, Context.bind, ofCode]
  | initialise hd hf _ hcode =>
    obtain ⟨hsize, hfollows⟩ := h.declare hf hd
    refine ⟨hfollows, (declareLocal_keeps _ _ _ h.inside).2.1, ?_,
      (hfollows.framed hcode).append ?_⟩
    · simp [Context.afterAll, Context.after, Context.declare, hd, Context.bind, ofCode]
    · have hnext := length_eraseDups_le c.declared
      rw [← Context.nextSlot, ← hsize] at hnext
      rintro i hi -
      rw [mem_singleton.1 hi]
      refine ⟨_, rfl, .inl ?_⟩
      simp only [Context.declare, hd, Context.bind, Bool.false_eq_true, if_false,
        length_append, length_singleton]
      omega
  | @ifElse _ _ s s1 s2 cond yes no _ _ _ htest _ _ ihyes ihno =>
    rw [declsIn_cons, declsIn_nil, append_nil, Stmt.decls, constantNames_append] at hadm
    have hlabs := (h.label "_if_else").label "_if_end"
    have hleads1 := ihyes c hindex hlabs.enter hadm.left
    have hext := Context.Extends.afterAll yes c
    obtain ⟨h1, hinner1⟩ := hleads1.body hlabs hext
    -- constants of the first branch are known in the second, its locals are not
    have hleads2 := ihno { c.afterAll yes with own := c.own }
      (by rw [hindex, ← hleads1.counted]) h1.enter (hadm.right hext.leave)
    have hext2 := Context.Extends.afterAll no { c.afterAll yes with own := c.own }
    obtain ⟨h2, hinner2⟩ := hleads2.body h1 hext2
    rw [Context.after_ifElse c cond] at h2
    refine ⟨h2, ?_, ?_, ?_⟩
    · rw [hinner2, hinner1]
      rfl
    · have hcount := hleads2.counted
      show (c.after (.ifElse cond yes no)).constants.length = _
      rw [← Context.after_ifElse c cond]
      simp only [hleads1.counted] at hcount
      simp only [hcount, constants_append, constants_ofCode, length_append,
        length_nil]
      omega
    · show Framed (c.after (.ifElse cond yes no)) _
      rw [← Context.after_ifElse c cond]
      exact (((((((h.framed htest).append (.quiet rfl)).mono hext).append
        hleads1.framed).mono hext2).append (.quiet rfl)).append hleads2.framed).append
          (.quiet rfl)
  | @whileDo _ _ s _ cond body _ _ htest _ ih =>
    have hlabs := (h.label "_while_end").label "_while_begin"
    refine (ih c hindex hlabs.enter ?_).round s hlabs rfl
      (c.after_eq_of_body (.whileDo cond body) (fun _ => by simp) rfl)
      ((hlabs.framed htest).append (.quiet rfl)).labelled (.quiet rfl)
    simpa [Stmt.decls] using hadm
  | @loop _ _ s _ body _ _ ih =>
    have hlabs := (h.label "_loop_begin").label "_loop_end"
    refine (ih c hindex hlabs.enter ?_).round s hlabs rfl
      (c.after_eq_of_body (.loop body) (fun _ => by simp) rfl) (.quiet rfl) (.quiet rfl)
    simpa [Stmt.decls] using hadm
  | expr hcode => exact ⟨h, rfl, rfl, h.framed hcode⟩
  | ret hcode => exact ⟨h, rfl, rfl, (h.framed hcode).append (.quiet rfl)⟩
  | _ => exact ⟨h, rfl, rfl, .quiet rfl⟩

lemma leads_stmtCode (st : Stmt) : ∀ exit? c s s' r, Follows func c s →
    c.Admits (constantNames st.decls) →
    stmtCode func exit? c.constants.length s st = .ok (r, s') →
    Leads func s c (c.after st) r s' :=
  fun _ c _ _ _ h hadm hcode =>
    (coded_stmtCode st hcode).leads c rfl h (by simpa using hadm)

lemma leads_stmtsCode (body : List Stmt) : ∀ exit? c s s' r, Follows func c s →
    c.Admits (constantNames (declsIn body)) →
    stmtsCode func exit? c.constants.length s body = .ok (r, s') →
    Leads func s c (c.afterAll body) r s' :=
  fun _ c _ _ _ h hadm hcode => (coded_stmtsCode hcode).leads c rfl h hadm

end

end ArmStudio.Code
