import ArmStudio.Proofs.Contexts

/-!
# Result types of visible functions

The type of an expression hangs on the symbols only through the result types of the functions that
it calls. While the code of a statement is made, slots are noted and locals are declared, but the
result types that are seen stay the same.
-/

namespace ArmStudio

namespace Script

def resultIn? (tables : List (Table Symbol)) (func : String) : Option VarType :=
  (Scopes.findFirst func tables).bind Symbol.returnType

def Scopes.tables {α : Type} (s : Scopes α) : List (Table α) := s.inner ++ [s.outer]

variable (symbols : Symbols) (func : String)

/-- The result type of what a visible name stands for. -/
def Symbols.result? : Option VarType :=
  resultIn? symbols.tables func

lemma Symbols.result?_eq :
    result? symbols func = (symbols.lookup? func).bind Symbol.returnType := rfl

@[simp] lemma Symbols.result?_enter :
    result? symbols.enter func = result? symbols func := by
  simp [result?_eq]

lemma typeOf_call {symbols func} {symbol : Symbol} {args}
    {t : VarType} : typeOf symbols (.call func symbol args) = .ok t ↔
      Symbols.result? symbols func = some t := by
  rw [Symbols.result?_eq]
  simp only [typeOf, Code.bind_eq_ok, Code.require_eq_ok, symbolOf, Scopes.lookup]
  cases symbols.lookup? func <;> simp

lemma typeOf_congr {symbols symbols'}
    (h : ∀ f, Symbols.result? symbols f = Symbols.result? symbols' f) (e : Expr) (t : VarType) :
    typeOf symbols e = .ok t ↔ typeOf symbols' e = .ok t := by
  induction e generalizing t with
  | literal v => cases v <;> rfl
  | unary op e ih => simp only [typeOf, Code.bind_eq_ok, ih]
  | binary op a b iha ihb => simp only [typeOf, Code.bind_eq_ok, iha, ihb]
  | call func symbol args _ => rw [typeOf_call, typeOf_call, h]
  | hole | blank | typeName | var | sysCall => rfl

end Script

namespace Code

open Script Symbols Scopes List

/-- The same result types are seen from every scope on. -/
structure Keeps (before after : Symbols) : Prop where
  depth : after.inner.length = before.inner.length
  results : ∀ k f, resultIn? (before.tables.drop k) f = resultIn? (after.tables.drop k) f

namespace Keeps

variable {s s1 s2 : Symbols}

lemma refl (s : Symbols) : Keeps s s := ⟨rfl, fun _ _ => rfl⟩

lemma trans (h : Keeps s s1) (h' : Keeps s1 s2) : Keeps s s2 :=
  ⟨h'.depth.trans h.depth, fun k f => (h.results k f).trans (h'.results k f)⟩

lemma result? (h : Keeps s s1) (f : String) : result? s f = result? s1 f :=
  h.results 0 f

lemma leave (h : Keeps s.enter s1) : Keeps s s1.leave := by
  rcases s1 with ⟨outer, inner, count⟩
  cases inner with
  | nil => exact absurd h.depth (by simp [enter])
  | cons t rest =>
    refine ⟨by simpa [enter, leave] using h.depth, fun k f => ?_⟩
    exact h.results (k + 1) f

lemma declareLocal (s : Symbols) (name : String) {info : Symbol}
    (hinfo : info.returnType = none) : Keeps s (s.declareLocal name info).2 := by
  cases hdef : s.isDefined name with
  | true =>
    rw [declareLocal_of_defined s info hdef]
    exact .refl s
  | false =>
    have hall : ∀ f, Symbols.result? s f = Symbols.result? (s.declareLocal name info).2 f := by
      intro f
      rw [result?_eq, result?_eq, lookup?_declareLocal s info f hdef]
      by_cases hname : name = f
      · rw [← hname, (isDefined_eq_false s name).1 hdef]
        simp [hinfo]
      · simp [hname]
    rcases s with ⟨outer, _ | ⟨t, rest⟩, count⟩
    all_goals
      refine ⟨by simp [Scopes.declareLocal, hdef], fun k f => ?_⟩
      cases k with
      | zero => exact hall f
      | succ k => simp [Scopes.declareLocal, hdef, Scopes.tables]

end Keeps

/-- Both tables have the same names with the same results. -/
def SameResults (t t' : Table Symbol) : Prop :=
  ∀ name, (t'.find? name).map Symbol.returnType = (t.find? name).map Symbol.returnType

variable {f : Symbol → Symbol}

lemma sameResults_modify (t : Table Symbol) (name : String)
    (hf : ∀ i, (f i).returnType = i.returnType) : SameResults t (t.modify name f) := by
  intro key
  rw [Table.find?_modify]
  by_cases hkey : name = key
  · cases t.find? key <;> simp [hkey, hf]
  · simp [hkey]

lemma resultIn?_congr {ts ts'} (h : Forall₂ SameResults ts ts')
    (k : Nat) (f : String) : resultIn? (ts.drop k) f = resultIn? (ts'.drop k) f := by
  induction h generalizing k with
  | nil => simp
  | @cons t t' rest rest' ht hrest ih =>
    cases k with
    | succ k => exact ih k
    | zero =>
      have hsame := ht f
      have hlater := ih 0
      simp only [drop_zero] at hlater
      simp only [resultIn?, drop_zero, Scopes.findFirst] at hlater ⊢
      cases hfind : t.find? f <;> cases hfind' : t'.find? f <;> simp_all

lemma forall₂_modifyFirst (name : String) (hf : ∀ i, (f i).returnType = i.returnType)
    (ts : List (Table Symbol)) : Forall₂ SameResults ts (modifyFirst name f ts) := by
  have hrefl : ∀ ts : List (Table Symbol), Forall₂ SameResults ts ts := fun ts =>
    forall₂_same.2 fun _ _ _ => rfl
  induction ts with
  | nil => exact .nil
  | cons t rest ih =>
    rw [modifyFirst]
    split
    · exact .cons (sameResults_modify t name hf) (hrefl rest)
    · exact .cons (fun _ => rfl) ih

lemma Keeps.modify (s : Symbols) (name : String) (hf : ∀ i, (f i).returnType = i.returnType) :
    Keeps s (s.modify name f) := by
  have hinner := forall₂_modifyFirst name hf s.inner
  unfold Scopes.modify
  split
  · refine ⟨hinner.length_eq.symm, resultIn?_congr ?_⟩
    exact rel_append hinner (.cons (fun _ => rfl) .nil)
  · refine ⟨rfl, resultIn?_congr ?_⟩
    exact rel_append (forall₂_same.2 fun _ _ _ => rfl)
      (.cons (sameResults_modify s.outer name hf) .nil)

/-! ## Symbols while code is made -/

section

variable {func : String} {exit? : Option String} {index : Nat} {s s' : GenState}

lemma keeps_setSlot {name} {slot : Int} (h : s.setSlot name slot = .ok s') :
    Keeps s.symbols s'.symbols := by
  unfold GenState.setSlot at h
  split at h
  · cases h
  · cases h
    exact .modify _ _ fun _ => rfl

lemma keeps_constantDecl {d} {v : Value} (h : constantDecl d index s = .ok (v, s')) :
    Keeps s.symbols s'.symbols := by
  unfold constantDecl at h
  split at h
  · simp only [bind_eq_ok, pure_eq_ok, Prod.mk.injEq] at h
    rcases h with ⟨s1, hslot, _, rfl⟩
    have hkeep := keeps_setSlot hslot
    exact hkeep
  · cases h

lemma keeps_declare (s : GenState) (func : String) (f : FunctionInfo) (d : VarDecl) :
    Keeps s.symbols (s.declare func f d).symbols :=
  .declareLocal s.symbols d.name rfl

lemma Coded.keeps {exit? : Option String} {index : Nat} {body : List Stmt} {r : StmtCode}
    (h : Coded func exit? index s body r s') : Keeps s.symbols s'.symbols := by
  induction h with
  | cons _ _ ihfirst ihrest => exact ihfirst.trans ihrest
  | constant _ hdecl => exact keeps_constantDecl hdecl
  | declare _ _ _ | initialise _ _ _ _ => exact keeps_declare _ _ _ _
  | @ifElse _ _ s s1 _ _ _ _ _ _ _ _ _ _ ihyes ihno =>
    have hfirst : Keeps s.symbols s1.leave.symbols := ihyes.leave
    exact hfirst.trans ihno.leave
  | whileDo _ _ ih | loop _ ih => exact ih.leave
  | _ => exact .refl _

end

/-! ## Contexts with result types -/

/-- The assembler follows a context and sees the result types that the analysis saw. -/
structure Informed (symbols0 : Symbols) (func : String) (c : Context) (s : GenState) : Prop where
  follows : Follows func c s
  results : ∀ f, result? s.symbols f = result? symbols0 f

namespace Informed

variable {symbols0 : Symbols} {func : String} {exit? : Option String} {c : Context}
  {s s' : GenState} {r : StmtCode} (h : Informed symbols0 func c s)

include h

lemma enter : Informed symbols0 func c s.enter :=
  ⟨h.follows.enter, fun f => (result?_enter s.symbols f).trans (h.results f)⟩

lemma label (suffix : String) : Informed symbols0 func c (s.label suffix).2 :=
  ⟨h.follows.label suffix, h.results⟩

lemma declare {f : FunctionInfo} (hf : s.storage.functions.find? func = some f) {d : VarDecl}
    (hd : d.isConst = false) : Informed symbols0 func (c.declare d) (s.declare func f d) :=
  ⟨(h.follows.declare hf hd).2,
    fun g => ((keeps_declare s func f d).result? g).symm.trans (h.results g)⟩

lemma stmt {st : Stmt} (hadm : c.Admits (constantNames st.decls))
    (hcode : stmtCode func exit? c.constants.length s st = .ok (r, s')) :
    Informed symbols0 func (c.after st) s' := by
  have hkeeps := (coded_stmtCode st hcode).keeps
  exact ⟨(leads_stmtCode st _ _ _ _ _ h.follows hadm hcode).follows,
    fun f => (hkeeps.result? f).symm.trans (h.results f)⟩

lemma body {body : List Stmt} (hadm : c.Admits (constantNames (declsIn body)))
    (hcode : stmtsCode func exit? c.constants.length s.enter body = .ok (r, s')) :
    Informed symbols0 func { c.afterAll body with own := c.own } s'.leave := by
  have hkeeps : Keeps s.symbols s'.leave.symbols := (coded_stmtsCode hcode).keeps.leave
  have hleads := leads_stmtsCode body _ _ _ _ _ h.follows.enter hadm hcode
  exact ⟨(hleads.body h.follows (.afterAll body c)).1,
    fun f => (hkeeps.result? f).symm.trans (h.results f)⟩

end Informed

/-! ## Declarations of a program -/

section

variable {s s' : GenState}

lemma keeps_declareParams (params : List Param) : ∀ i info symbols,
    Keeps symbols (declareParams i params info symbols).2 := by
  induction params with
  | nil =>
    intro i info symbols
    exact .refl symbols
  | cons p rest ih =>
    intro i info symbols
    rw [declareParams]
    exact (Keeps.declareLocal symbols p.name rfl).trans (ih _ _ _)

lemma keeps_funcStart (f : FuncDecl) (s : GenState) :
    Keeps s.symbols.enter (funcStart f s).symbols :=
  keeps_declareParams f.params _ _ _

lemma keeps_declCode {a a'} {d : Decl} (h : declCode a s d = .ok (a', s')) :
    Keeps s.symbols s'.symbols := by
  cases d with
  | func f =>
    obtain ⟨r, hr, _⟩ := declCode_func h
    obtain ⟨body, s1, hbody, _, rfl⟩ := funcCode_eq_ok hr
    have hinside := (coded_stmtsCode hbody).keeps
    exact ((keeps_funcStart f s).trans hinside).leave
  | var d =>
    cases hd : d.isConst with
    | true =>
      obtain ⟨v, hv, _⟩ := declCode_const hd h
      exact keeps_constantDecl hv
    | false =>
      obtain ⟨code, hcode, _⟩ := declCode_global hd h
      obtain ⟨_, rfl, _⟩ := globalCode_eq_ok.1 hcode
      exact .modify s.symbols d.name fun _ => rfl

end

end Code

end ArmStudio
