import ArmStudio.Proofs.Slots

/-!
# What names mean to the assembler

The text binds a name to the latest declaration that is visible, and the assembler to one of its
own: it keeps to the first local of a name as long as that is in reach, which may be longer than the
block of the text, and it never takes a parameter or local for meant where the name is global
anywhere in the program.
-/

namespace ArmStudio.Code

open Script Context Program Option

variable (c : Context) (x : String)

def Context.globalPlace? : Option Place :=
  ((c.constants.lookup x).map .constant).or ((c.globals.lookup x).map .global)

def Spot.local? (q : Spot) (x : String) : Option Local := q.locals.find? fun b => b.name == x

/-- The storage of the declaration that a name is bound to by the blocks of the text. -/
def Spot.bound? (q : Spot) (x : String) : Option Place :=
  match q.local? x with
  | some b => some (.slot b.slot)
  | none => q.context.globalPlace? x

lemma Context.place?_eq : c.place? x = (c.globalPlace? x).or ((c.own.lookup x).map .slot) := by
  rw [place?, globalPlace?, Option.or_assoc]

lemma Context.globalPlace?_ne_slot (n : Nat) : c.globalPlace? x ≠ some (.slot n) := by
  unfold globalPlace?
  cases c.constants.lookup x <;> cases c.globals.lookup x <;> simp

lemma Spot.mem_of_local? {q : Spot} {x : String} {b : Local} (h : q.local? x = some b) :
    b ∈ q.locals ∧ b.name = x :=
  ⟨List.mem_of_find?_eq_some h, by simpa using List.find?_some h⟩

namespace Spot.Valid

variable {func x : String} {params : List String} {q : Spot} (h : q.Valid func params)

include h

lemma place?_of_mem_outer (hx : x ∈ q.context.outer) :
    q.context.place? x = q.context.globalPlace? x := by
  have hown : q.context.own.lookup x = none := by
    cases ho : q.context.own.lookup x with
    | none => rfl
    | some n => exact absurd hx (h.follows.tracks.apart x n ho).1
  rw [place?_eq, hown, map_none, or_none]

/-- Any other name means the slot in which the assembler has found it behind its declaration. -/
theorem place?_of_local {b : Local} (hb : q.local? x = some b) (hx : x ∉ q.context.outer) :
    q.context.place? x = some (.slot b.kept) := by
  obtain ⟨hmem, rfl⟩ := Spot.mem_of_local? hb
  have hconst : q.context.constants.lookup b.name = none := h.follows.tracks.constants_eq_none hx
  have hglob : q.context.globals.lookup b.name = none := by
    cases hg : q.context.globals.lookup b.name with
    | none => rfl
    | some n => exact absurd (h.follows.tracks.globals_outer _ n hg) hx
  have hnone : q.context.globalPlace? b.name = none := by
    simp only [globalPlace?, hconst, hglob, map_none, or_none]
  rw [place?_eq, hnone, h.listed.kept b hmem hx]
  rfl

/-- A name means the storage that it is bound to, unless it is bound to a parameter or local whose
name is global or was found in another slot. -/
lemma place?_eq_bound?_iff {place : Place} (hbound : q.bound? x = some place) :
    q.context.place? x = some place ↔
      ∀ b, q.local? x = some b → x ∉ q.context.outer ∧ b.kept = b.slot := by
  unfold Spot.bound? at hbound
  cases hlocal : q.local? x with
  | none =>
    simp only [hlocal] at hbound
    have hplace : q.context.place? x = some place := by
      rw [place?_eq, hbound, some_or]
    simp [hplace]
  | some b =>
    simp only [hlocal, some.injEq] at hbound
    subst hbound
    by_cases hx : x ∈ q.context.outer
    · have hother := q.context.globalPlace?_ne_slot x b.slot
      rw [h.place?_of_mem_outer hx]
      simp [hx, hother]
    · rw [h.place?_of_local hlocal hx]
      simp [hx]

end Spot.Valid

/-- At every point of a function of a parsed program, the code of an expression loads and stores the
places of its names. A name that is global anywhere in the program means a constant or global there,
and any other name of a parameter or local the slot in which it was found behind its declaration. So
the storage that the text binds it to is meant exactly if the name is bound to no parameter or
local, or if it is not global and was found in the slot of the declaration. That slot is where the
initial value was stored. -/
theorem place_eq_bound_iff {tokens : List Token} {p : Program} {symbols : Symbols}
    {before after : List Decl} {f : FuncDecl} {a : Assembly} {s : GenState} {q : Spot}
    {more : List Stmt} (hparse : ofTokens tokens = .ok (p, symbols))
    (hsplit : (p.check symbols).tree.decls = before ++ .func f :: after)
    (hbefore : declsCode .empty (.start symbols) before = .ok (a, s))
    (hreach : Reaches f.name
      (.entry f (before.foldl afterDecl (.start symbols.outer.names)) a s) f.body q more) :
    (∀ x, (loadVar q.state.storage q.state.symbols x).toOption =
        (q.context.place? x).map Place.load ∧
      (storeVar q.state.storage q.state.symbols x).toOption =
        (q.context.place? x).map Place.store) ∧
    (∀ wanted e code, q.state.exprCode wanted e = .ok code →
      Accesses q.context (e.uses q.state.symbols wanted) code) ∧
    (∀ x ∈ p.globalNames, q.context.place? x = q.context.globalPlace? x) ∧
    (∀ x b, q.local? x = some b → x ∉ p.globalNames → q.context.place? x = some (.slot b.kept)) ∧
    (∀ x place, q.bound? x = some place → (q.context.place? x = some place ↔
        ∀ b, q.local? x = some b → x ∉ p.globalNames ∧ b.kept = b.slot)) ∧
    (∀ d rest r s', more = .decl d :: rest → d.isConst = false →
      stmtCode f.name q.exit? q.index q.state (.decl d) = .ok (r, s') →
      ∃ b, (q.behind f.name (.decl d) r s').local? d.name = some b ∧
        (d.init.isSome → ∃ code, r.code = code ++ [Place.store (.slot b.slot)])) := by
  have hparsed := ofTokens_parsed hparse
  obtain ⟨hvalid, houter⟩ :=
    hreach.valid_of_parsed hparsed (globalNames_check p) hsplit hbefore
  have hnames : q.context.outer = p.globalNames := houter.trans hparsed.names
  have htracks := hvalid.follows.tracks
  refine ⟨fun x => ⟨htracks.loadVar_eq x, htracks.storeVar_eq x⟩, ?_, ?_, ?_, ?_, ?_⟩
  · exact fun wanted e => exprCode_accesses htracks e wanted
  · exact fun x hx => hvalid.place?_of_mem_outer (hnames ▸ hx)
  · exact fun x b hb hx => hvalid.place?_of_local hb (hnames ▸ hx)
  · intro x place hbound
    rw [← hnames]
    exact hvalid.place?_eq_bound?_iff hbound
  · intro d rest r s' _ hd hcode
    refine ⟨⟨d.name, q.state.frameSize f.name, false, q.context.declared,
      q.context.own.lookup d.name⟩, ?_, (stmtCode_let_stores hd hcode).2⟩
    simp [Spot.behind, Spot.declares, Spot.local?, hd]

open Keyword in
/-- The tokens of `fn main() { { let x = 1; } { let x = 2; x; } }`. -/
def twoBlocks : List Token := mainWith
  [leftBrace, kwLet, .name "x", assign, .int 1, semicolon, rightBrace, leftBrace, kwLet, .name "x",
    assign, .int 2, semicolon, .name "x", semicolon, rightBrace]

def twoBlocksMain : FuncDecl := ⟨"main", [], .void,
    [.decl ⟨.int, "x", false, some (.literal (.int 1))⟩] ++
      [.decl ⟨.int, "x", false, some (.literal (.int 2))⟩, .expr (.var "x" (.ofVar .int false))], 2⟩

/-- In the second block, `x` is bound to the slot 1, where its initial value is stored, but it is
loaded from the slot 0 of the first block. -/
theorem place_eq_bound_iff_twoBlocks :
    ofTokens twoBlocks = .ok (⟨[.func twoBlocksMain]⟩, mainSymbols) ∧
    ∃ q, Reaches "main" (.entry twoBlocksMain (.start ["main"]) .empty (.start mainSymbols))
        twoBlocksMain.body q [.expr (.var "x" (.ofVar .int false))] ∧
      q.bound? "x" = some (.slot 1) ∧
      (loadVar q.state.storage q.state.symbols "x").toOption = some (Place.load (.slot 0)) ∧
      q.context.place? "x" ≠ some (.slot 1) := by
  have hparse : ofTokens twoBlocks = .ok (⟨[.func twoBlocksMain]⟩, mainSymbols) := rfl
  have hsplit : (check mainSymbols ⟨[.func twoBlocksMain]⟩).tree.decls =
      [] ++ .func twoBlocksMain :: [] := rfl
  have hmeaning := place_eq_bound_iff hparse hsplit rfl (.behindBlock rfl (.behind rfl (.here _ _)))
  refine ⟨hparse, _, .behindBlock rfl (.behind rfl (.here _ _)), rfl, (hmeaning.1 "x").1, ?_⟩
  exact fun hsame => absurd (((hmeaning.2.2.2.2.1 "x" (.slot 1) rfl).1 hsame _ rfl).2) (by decide)

end ArmStudio.Code
