import ArmStudio.Proofs.Slots

/-!
# Numbers of constants and globals

An assembly has one constant for each that the program declares, in functions too, and one global
for each variable that it declares outside of them. The storage keeps both by name, which are as
many since a program does not declare a name twice.
-/

namespace ArmStudio.Script

def Decl.constantNames : Decl → List String
  | .var d => Script.constantNames [d]
  | .func f => Script.constantNames (declsIn f.body)

/-- The variable that a declaration makes global. -/
def Decl.variableNames : Decl → List String
  | .var d => if d.isConst then [] else [d.name]
  | .func _ => []

def Program.constantNames (p : Program) : List String := p.decls.flatMap Decl.constantNames

def Program.variableNames (p : Program) : List String := p.decls.flatMap Decl.variableNames

lemma Decl.constantNames_sublist (d : Decl) : d.constantNames.Sublist d.globalNames := by
  cases d with
  | var d =>
    cases hd : d.isConst <;>
      simp [Decl.constantNames, Script.constantNames, Decl.globalNames, hd]
  | func f => exact List.sublist_cons_self _ _

lemma Decl.variableNames_sublist (d : Decl) : d.variableNames.Sublist d.globalNames := by
  cases d with
  | var d => cases hd : d.isConst <;> simp [Decl.variableNames, Decl.globalNames, hd]
  | func f => exact List.nil_sublist _

lemma Program.nodup_names {p : Program} (h : p.globalNames.Nodup) :
    p.constantNames.Nodup ∧ p.variableNames.Nodup := by
  have hsublist : ∀ f : Decl → List String, (∀ d, (f d).Sublist d.globalNames) →
      (p.decls.flatMap f).Nodup := by
    intro f hf
    refine h.sublist ?_
    rw [Program.globalNames]
    induction p.decls with
    | nil => exact .slnil
    | cons d rest ih => exact (hf d).append ih
  exact ⟨hsublist _ Decl.constantNames_sublist, hsublist _ Decl.variableNames_sublist⟩

lemma Program.names_check {symbols} (p : Program) :
    (p.check symbols).tree.constantNames = p.constantNames ∧
      (p.check symbols).tree.variableNames = p.variableNames := by
  constructor
  · refine p.flatMap_check (fun d => ?_) fun f => ?_
    · cases hd : d.isConst <;> simp [Decl.constantNames, Script.constantNames, hd]
    · simp [Decl.constantNames, checkFunc, decls_checkBlock]
  · refine p.flatMap_check (fun d => ?_) fun f => rfl
    cases hd : d.isConst <;> simp [Decl.variableNames, hd]

end ArmStudio.Script

namespace ArmStudio.Code

open Script List

/-! ## Constants of statements -/

/-! Labels and scopes are not kept in the storage. -/

variable (s : GenState)

@[simp] lemma GenState.storage_label (suffix : String) :
    (s.label suffix).2.storage = s.storage := rfl

@[simp] lemma GenState.storage_enter : s.enter.storage = s.storage := rfl

@[simp] lemma GenState.storage_leave : s.leave.storage = s.storage := rfl

/-- Between two records of storage the constants `names` are noted, with values as many as names. -/
structure Notes (names : List String) (before after : Storage) (values : List Value) : Prop where
  counted : values.length = names.length
  constants : ∀ known : List String, before.constants.names = known.eraseDups →
    after.constants.names = (known ++ names).eraseDups
  globals : after.globals = before.globals

namespace Notes

variable {xs ys : List String} {before between after : Storage} {vs ws : List Value}

lemma nothing (hconsts : after.constants = before.constants)
    (hglobs : after.globals = before.globals) : Notes [] before after [] :=
  ⟨rfl, fun known h => by rw [hconsts, h, append_nil], hglobs⟩

lemma append (hx : Notes xs before between vs) (hy : Notes ys between after ws) :
    Notes (xs ++ ys) before after (vs ++ ws) := by
  refine ⟨?_, ?_, hy.globals.trans hx.globals⟩
  · rw [length_append, length_append, hx.counted, hy.counted]
  · intro known h
    rw [← append_assoc]
    exact hy.constants _ (hx.constants known h)

lemma constant {d : VarDecl} {index : Nat} {s s' : GenState} {v : Value}
    (h : constantDecl d index s = .ok (v, s')) : Notes [d.name] s.storage s'.storage [v] := by
  obtain ⟨_, _, rfl⟩ := constantDecl_eq_ok.1 h
  exact ⟨rfl, fun known hknown => names_insert_eraseDups hknown _ _, rfl⟩

end Notes

section

variable {func : String}

lemma Coded.notes {exit?} {index : Nat} {s s' body} {r} (h : Coded func exit? index s body r s') :
    Notes (constantNames (declsIn body)) s.storage s'.storage r.constants := by
  induction h with
  | cons _ _ ihfirst ihrest =>
    rw [← singleton_append, declsIn_append, constantNames_append]
    exact ihfirst.append ihrest
  | constant hconst hdecl => simpa [Stmt.decls, constantNames, hconst] using Notes.constant hdecl
  | @declare _ _ _ d _ hconst _ _ | @initialise _ _ _ d _ _ _ hconst _ _ _ =>
    have hnone : constantNames (declsIn [.decl d]) = [] := by
      simp [Stmt.decls, constantNames, hconst]
    rw [hnone]
    exact .nothing rfl rfl
  | ifElse _ _ _ ihyes ihno => simpa [Stmt.decls, constantNames_append] using ihyes.append ihno
  | whileDo _ _ ih | loop _ ih => simpa [Stmt.decls] using ih
  | _ => exact .nothing rfl rfl

end

/-! ## Constants and globals of programs -/

/-- An assembly of declarations with the constants `cs` and the variables `vs`, and its storage. -/
structure Tallied (cs vs : List String) (a : Assembly) (storage : Storage) : Prop where
  constants : a.constants.length = cs.length
  globals : a.globalSize = vs.length
  constantTable : storage.constants.names = cs.eraseDups
  globalTable : storage.globals.names = vs.eraseDups

namespace Tallied

variable {cs vs : List String} {a a' : Assembly} {s s' : GenState}

lemma declCode {d : Decl} (h : Tallied cs vs a s.storage)
    (hcode : declCode a s d = .ok (a', s')) :
    Tallied (cs ++ d.constantNames) (vs ++ d.variableNames) a' s'.storage := by
  cases d with
  | func f =>
    obtain ⟨r, hr, rfl⟩ := declCode_func hcode
    obtain ⟨body, s1, hbody, rfl, rfl⟩ := funcCode_eq_ok hr
    -- entering a function makes a record of it, and changes neither constants nor globals
    have hentry : Notes [] s.storage (funcStart f s).storage [] := .nothing rfl rfl
    have hnotes : Notes (constantNames (declsIn f.body)) s.storage s1.storage body.constants :=
      hentry.append ((coded_stmtsCode hbody).notes)
    refine ⟨?_, ?_, hnotes.constants cs h.constantTable, ?_⟩
    · simp [Decl.constantNames, h.constants, hnotes.counted]
    · simpa [Decl.variableNames] using h.globals
    · simpa [Decl.variableNames, GenState.leave, hnotes.globals] using h.globalTable
  | var d =>
    cases hconst : d.isConst with
    | true =>
      obtain ⟨v, hv, rfl⟩ := declCode_const hconst hcode
      have hnotes := Notes.constant hv
      have hnames : Decl.constantNames (.var d) = [d.name] ∧ Decl.variableNames (.var d) = [] := by
        simp [Decl.constantNames, Decl.variableNames, constantNames, hconst]
      rw [hnames.1, hnames.2, append_nil]
      refine ⟨?_, h.globals, hnotes.constants cs h.constantTable, ?_⟩
      · simp [h.constants]
      · rw [hnotes.globals, h.globalTable]
    | false =>
      obtain ⟨code, hglob, rfl⟩ := declCode_global hconst hcode
      obtain ⟨_, rfl, _⟩ := globalCode_eq_ok.1 hglob
      have hnames : Decl.constantNames (.var d) = [] ∧ Decl.variableNames (.var d) = [d.name] := by
        simp [Decl.constantNames, Decl.variableNames, constantNames, hconst]
      rw [hnames.1, hnames.2, append_nil]
      refine ⟨h.constants, ?_, h.constantTable, names_insert_eraseDups h.globalTable _ _⟩
      simp [h.globals]

lemma declsCode {ds} (h : Tallied cs vs a s.storage) (hcode : declsCode a s ds = .ok (a', s')) :
    Tallied (cs ++ ds.flatMap Decl.constantNames) (vs ++ ds.flatMap Decl.variableNames) a'
      s'.storage := by
  induction ds generalizing cs vs a s with
  | nil =>
    cases hcode
    simpa using h
  | cons d rest ih =>
    obtain ⟨a1, s1, hfirst, hmore⟩ := declsCode_cons.1 hcode
    simpa using ih (h.declCode hfirst) hmore

end Tallied

variable {p : Program} {a : Assembly}

lemma tallied_assemble {symbols s} (h : assemble symbols p = .ok (a, s)) :
    Tallied p.constantNames p.variableNames a s.storage := by
  obtain ⟨⟨a', s'⟩, hdecls, h⟩ := bind_eq_ok.1 h
  cases h
  have hstart : Tallied [] [] .empty (GenState.start symbols).storage := ⟨rfl, rfl, rfl, rfl⟩
  have hall := hstart.declsCode hdecls
  exact ⟨hall.constants, hall.globals, hall.constantTable, hall.globalTable⟩

/-- For a program without double names, the tables are as large as its numbers of constants and of
variables. -/
theorem Tallied.sizes {storage : Storage} (h : Tallied p.constantNames p.variableNames a storage)
    (hnodup : p.globalNames.Nodup) :
    storage.constants.size = p.constantNames.length ∧
      storage.globals.size = p.variableNames.length := by
  obtain ⟨hconsts, hvariables⟩ := Program.nodup_names hnodup
  rw [Table.size_eq_length_names, Table.size_eq_length_names, h.constantTable, h.globalTable]
  exact ⟨length_eraseDups_eq_iff.2 hconsts, length_eraseDups_eq_iff.2 hvariables⟩

end ArmStudio.Code
