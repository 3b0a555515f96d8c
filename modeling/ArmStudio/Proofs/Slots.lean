import ArmStudio.Proofs.Points

/-!
# Slots of visible locals

A local variable gets the number of different names that its function declares in front of it. A
name that was declared before, in a scope that is left by now, does not count again, so the local
behind it can get the same slot.
-/

namespace ArmStudio.Code

open Script Local Program

lemma length_eraseDups_append_eq_iff (xs ys : List String) :
    (xs ++ ys).eraseDups.length = xs.eraseDups.length ↔ ∀ y ∈ ys, y ∈ xs := by
  have hsub : xs.toFinset ⊆ (xs ++ ys).toFinset := by simp
  rw [length_eraseDups, length_eraseDups, eq_comm, ← (Finset.card_le_card hsub).ge_iff_eq,
    Finset.eq_iff_card_ge_of_superset hsub]
  simp [Finset.subset_iff]

lemma length_eraseDups_le_of_prefix {xs ys : List String} (h : xs <+: ys) :
    xs.eraseDups.length ≤ ys.eraseDups.length := by
  obtain ⟨rest, rfl⟩ := h
  rw [List.eraseDups_append, List.length_append]
  exact Nat.le_add_right _ _

/-! ## Two visible locals -/

/-- When a parameter or local `b` has another slot than an earlier one: parameters always, a local
behind a parameter if the number of different names is not the parameter's position, and a local
behind a local if a new name is declared from the earlier one on. -/
def Local.Apart (b earlier : Local) : Prop :=
  match b.isParam, earlier.isParam with
  | true, _ => True
  | false, true => b.before.eraseDups.length ≠ earlier.before.length
  | false, false => ∃ y ∈ b.before.drop earlier.before.length, y ∉ earlier.before

lemma slot_ne_iff_apart {b earlier : Local} (hb : b.Numbered) (hearlier : earlier.Numbered)
    (hordered : earlier.before ++ [earlier.name] <+: b.before) :
    b.slot ≠ earlier.slot ↔ b.Apart earlier := by
  obtain ⟨rest, hrest⟩ := hordered
  unfold Numbered at hb hearlier
  cases hparam : b.isParam with
  | true =>
    -- the slot of a parameter is its position, and no slot in front is as large
    have hlen : earlier.before.length < b.before.length := by
      rw [← hrest]
      simp
    have hslot : earlier.slot ≤ earlier.before.length := by
      cases he : earlier.isParam with
      | true => simp [hearlier, he]
      | false =>
        rw [hearlier, he, if_neg Bool.false_ne_true]
        exact length_eraseDups_le _
    simp only [hb, hparam, if_true, Apart, iff_true]
    omega
  | false =>
    cases he : earlier.isParam with
    | true => simp [Apart, hb, hearlier, hparam, he]
    | false =>
      -- two counts of different names, of which the later one has the earlier name and more
      have hdrop : b.before.drop earlier.before.length = earlier.name :: rest := by
        rw [← hrest, List.append_assoc, List.drop_left]
        rfl
      have hsplit : b.before = earlier.before ++ (earlier.name :: rest) := by
        rw [← hrest, List.append_assoc]
        rfl
      have hsame := length_eraseDups_append_eq_iff earlier.before (earlier.name :: rest)
      rw [← hsplit] at hsame
      simp only [Apart, hb, hearlier, hparam, he, Bool.false_eq_true, if_false, hdrop, Ne,
        hsame, not_forall, exists_prop]

lemma apart_of_param {params : List String} (hpars : params.Nodup) {b earlier : Local}
    (hearlier : earlier.isParam) (hamong : earlier.before ++ [earlier.name] <+: params)
    (hpast : b.isParam = false → params <+: b.before) : b.Apart earlier := by
  cases hparam : b.isParam with
  | true => simp [Apart, hparam]
  | false =>
    have hpos : earlier.before.length + 1 ≤ params.length := by simpa using hamong.length_le
    have hnames : params.length ≤ b.before.eraseDups.length := by
      rw [← length_eraseDups_eq_iff.2 hpars]
      exact length_eraseDups_le_of_prefix (hpast hparam)
    simp only [Apart, hparam, hearlier]
    omega

/-! ## All that is visible -/

lemma pairwise_iff_of_pairwise {α : Type} {R S T} {l : List α}
    (h : l.Pairwise R) (hST : ∀ a ∈ l, ∀ b ∈ l, R a b → (S a b ↔ T a b)) :
    l.Pairwise S ↔ l.Pairwise T := by
  constructor
  · intro hS
    exact (h.and hS).imp_of_mem fun ha hb hboth => (hST _ ha _ hb hboth.1).1 hboth.2
  · intro hT
    exact (h.and hT).imp_of_mem fun ha hb hboth => (hST _ ha _ hb hboth.1).2 hboth.2

lemma Listed.nodup_slots_iff {params c locals} (h : Listed params c locals) :
    (locals.map slot).Nodup ↔ locals.Pairwise Apart := by
  rw [List.Nodup, List.pairwise_map]
  exact pairwise_iff_of_pairwise h.ordered fun b hb earlier hearlier hordered =>
    slot_ne_iff_apart (h.numbered b hb) (h.numbered earlier hearlier) hordered

def GenState.recorded (s : GenState) (func name : String) : Option Int :=
  ((s.storage.functions.find? func).bind fun f => f.locals.find? name).map SlotInfo.offset

lemma stmtCode_let_stores {func exit?} {index : Nat} {s s'} {d r} (hd : d.isConst = false)
    (h : stmtCode func exit? index s (.decl d) = .ok (r, s')) :
    s'.recorded func d.name = some (s.frameSize func) ∧
      (d.init.isSome → ∃ code, r.code = code ++ [⟨.storl, [.u8 (.ofInt (s.frameSize func))]⟩]) := by
  obtain ⟨code, hdecl, rfl⟩ := stmtCode_let hd h
  obtain ⟨f, hf, rfl, hinit⟩ := localDecl_eq_ok hdecl
  have hsize : s.frameSize func = f.locals.size := by simp [GenState.frameSize, hf]
  rw [hsize]
  refine ⟨by simp [GenState.recorded, GenState.declare], ?_⟩
  rcases hinit with ⟨hnone, _⟩ | ⟨e, inner, _, _, rfl⟩
  · simp [hnone]
  · exact fun _ => ⟨inner, rfl⟩

/-- What is visible at a point of a function has different slots exactly if any two of it are apart.
Parameters have the slots of their positions, and a local has the number of different names in front
of it, where its initial value is stored. -/
theorem visible_slots_apart_iff {tokens : List Token} {p : Program} {symbols : Symbols}
    {before after : List Decl} {f : FuncDecl} {a : Assembly} {s : GenState} {q : Spot}
    {more : List Stmt} (hparse : ofTokens tokens = .ok (p, symbols))
    (hsplit : (p.check symbols).tree.decls = before ++ .func f :: after)
    (hbefore : declsCode .empty (.start symbols) before = .ok (a, s))
    (hreach : Reaches f.name
      (.entry f (before.foldl Context.afterDecl (.start symbols.outer.names)) a s) f.body q more) :
    (∀ b ∈ q.locals, b.slot = if b.isParam then b.before.length else b.before.eraseDups.length) ∧
    ((q.locals.map slot).Nodup ↔ q.locals.Pairwise Apart) ∧
    ((f.params.map Param.name).Nodup →
      ∀ b ∈ q.locals, ∀ earlier ∈ q.locals, earlier.isParam = true → b.Apart earlier) ∧
    (∀ d rest r s', more = .decl d :: rest → d.isConst = false →
      stmtCode f.name q.exit? q.index q.state (.decl d) = .ok (r, s') →
      s'.recorded f.name d.name = some (q.state.frameSize f.name) ∧ (d.init.isSome →
          ∃ code, r.code = code ++ [⟨.storl, [.u8 (.ofInt (q.state.frameSize f.name))]⟩])) := by
  have hparsed := ofTokens_parsed hparse
  obtain ⟨hvalid, _⟩ := hreach.valid_of_parsed hparsed (globalNames_check p) hsplit hbefore
  have hlisted := hvalid.listed
  refine ⟨hlisted.numbered, hlisted.nodup_slots_iff, ?_, ?_⟩
  · intro hpars b hb earlier hearlier hparam
    exact apart_of_param hpars hparam (hlisted.among earlier hearlier hparam) (hlisted.past b hb)
  · intro d rest r s' _ hd hcode
    exact stmtCode_let_stores hd hcode

open Keyword in
/-- The tokens of `fn main() { if 1 { let x = 1; } if 1 { let x = 2; let y = 3; } }`. -/
def siblings : List Token := mainWith
  [kwIf, .int 1, leftBrace, kwLet, .name "x", assign, .int 1, semicolon, rightBrace, kwIf, .int 1,
    leftBrace, kwLet, .name "x", assign, .int 2, semicolon, kwLet, .name "y", assign, .int 3,
    semicolon, rightBrace]

def siblingsMain : FuncDecl := ⟨"main", [], .void,
    [.ifElse (.literal (.int 1)) [.decl ⟨.int, "x", false, some (.literal (.int 1))⟩] [],
      .ifElse (.literal (.int 1)) [.decl ⟨.int, "x", false, some (.literal (.int 2))⟩,
        .decl ⟨.int, "y", false, some (.literal (.int 3))⟩] []], 3⟩

def mainSymbols : Symbols := ⟨⟨[("main", .ofFunction [] .void)]⟩, [], 0⟩

/-- In the second conditional of `siblings`, both `x` and `y` have the slot 1. -/
theorem visible_slots_apart_iff_siblings :
    ofTokens siblings = .ok (⟨[.func siblingsMain]⟩, mainSymbols) ∧
    ∃ q, Reaches "main" (.entry siblingsMain (.start ["main"]) .empty (.start mainSymbols))
        siblingsMain.body q [] ∧
      q.locals.map (fun b => (b.name, b.slot)) = [("y", 1), ("x", 1)] ∧
      ¬ q.locals.Pairwise Apart := by
  have hparse : ofTokens siblings = .ok (⟨[.func siblingsMain]⟩, mainSymbols) := rfl
  have hsplit : (check mainSymbols ⟨[.func siblingsMain]⟩).tree.decls =
      [] ++ .func siblingsMain :: [] := rfl
  refine ⟨hparse, _, .behind rfl (.inThen (.behind rfl (.behind rfl (.here _ _)))), rfl, ?_⟩
  intro hapart
  have hslots := visible_slots_apart_iff hparse hsplit rfl
    (.behind rfl (.inThen (.behind rfl (.behind rfl (.here _ _)))))
  exact absurd (hslots.2.1.2 hapart) (by decide)

end ArmStudio.Code
