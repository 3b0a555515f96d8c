import ArmStudio.Proofs.IntegerCode
import ArmStudio.Proofs.Results

/-!
# Assembly of expressions and statements of the integer core

The assembler has code for every expression and statement of the integer core, and it is the code
of `coreExpr` and `StmtsAre`.
-/

namespace ArmStudio.Code

open Script List Stmt StmtCode Instr VarDecl

/-- What the assembler has noted agrees with the cells of what is visible. -/
structure Known (v : Visible) (cell : String → Cell) (storage : Storage) (symbols : Symbols) :
    Prop where
  constants : ∀ x, x ∈ v.locals ∨ x ∈ v.globals → storage.constantOffset? x = none
  globals : ∀ x ∈ v.globals, ∃ i : Nat, storage.globalOffset? x = some i ∧ cell x = .global i
  locals : ∀ x ∈ v.locals, storage.globalOffset? x = none ∧
    ∃ i : Nat, slotOf symbols x = .ok i ∧ cell x = .slot i
  funcs : ∀ f n, v.arity f = some n → Symbols.result? symbols f = some .int

section

variable {v : Visible} {cell : String → Cell} {storage : Storage} {symbols : Symbols} {x : String}
  {e : Expr} {op : Keyword} (hk : Known v cell storage symbols)

include hk

section

variable (hx : x ∈ v.locals ∨ x ∈ v.globals)

include hx

lemma Known.cell_cases : (∃ i : Nat, storage.globalOffset? x = some i ∧ cell x = .global i) ∨
      (storage.globalOffset? x = none ∧
        ∃ i : Nat, slotOf symbols x = .ok i ∧ cell x = .slot i) := by
  rcases hx with hx | hx
  · exact .inr (hk.locals x hx)
  · exact .inl (hk.globals x hx)

lemma loadVar_core : loadVar storage symbols x = .ok (cell x).load := by
  rcases hk.cell_cases hx with ⟨i, hg, hcell⟩ | ⟨hg, i, hslot, hcell⟩
  · simp [loadVar, hk.constants x hx, hg, hcell, Cell.load]
  · simp [loadVar, hk.constants x hx, hg, hslot, hcell, Cell.load]

lemma storeVar_core : storeVar storage symbols x = .ok (cell x).store := by
  rcases hk.cell_cases hx with ⟨i, hg, hcell⟩ | ⟨hg, i, hslot, hcell⟩
  · simp [storeVar, hg, hcell, Cell.store]
  · simp [storeVar, hg, hslot, hcell, Cell.store]

end

lemma typeOf_core (he : e.isCore v) : typeOf symbols e = .ok .int := by
  induction e with
  | literal value =>
    cases value with
    | int n => rfl
    | flag | real => simp [Expr.isCore] at he
  | var x symbol =>
    simp only [Expr.isCore, Bool.and_eq_true, decide_eq_true_eq] at he
    simp [typeOf, he.2, require]
  | unary op operand ih =>
    simp only [Expr.isCore, Bool.and_eq_true] at he
    have hop := he.1
    rw [typeOf, ih he.2]
    cases op <;> simp [unaryMeaning] at hop <;> rfl
  | binary op left right ihl ihr =>
    simp only [Expr.isCore, Bool.and_eq_true, Bool.or_eq_true, decide_eq_true_eq] at he
    have hop := he.1.1.1
    rw [typeOf, ihl he.1.2, ihr he.2]
    cases op <;> simp [binaryMeaning] at hop <;> rfl
  | call func symbol args =>
    simp only [Expr.isCore, Bool.and_eq_true, decide_eq_true_eq] at he
    exact typeOf_call.2 (hk.funcs func _ he.1.1)
  | _ => simp [Expr.isCore] at he

lemma assignCode_core (wanted : Bool) {left : Expr} (hvar : left.isVar)
    (hleft : left.isCore v) (onOther : GenError) :
    assignCode storage symbols wanted left onOther = .ok (storeBack cell wanted left) := by
  cases left with
  | var x symbol =>
    simp only [Expr.isCore, Bool.and_eq_true, Bool.or_eq_true, decide_eq_true_eq] at hleft
    have hstore := storeVar_core hk hleft.1
    have hload := loadVar_core hk hleft.1
    cases wanted <;>
      simp [assignCode, storeBack, hstore, hload]
  | _ => simp [Expr.isVar] at hvar

omit hk in
lemma typedCode_core (h : (binaryMeaning op).isSome = true) :
    (operatorCode? op).isSome = true ∧ typedCode op .int .int = .ok (.plain (binaryOpcode op)) := by
  cases op <;> simp [binaryMeaning] at h <;> exact ⟨rfl, rfl⟩

omit hk in
lemma argsCode_of_exprCode {args} (hargs : argsAreCore v args = true)
    (h : ∀ a ∈ args, a.isCore v = true →
      exprCode storage symbols true a = .ok (coreExpr cell true a)) :
    argsCode storage symbols args = .ok (coreArgs cell args) := by
  induction args with
  | nil => rfl
  | cons a rest ih =>
    simp only [argsAreCore, Bool.and_eq_true] at hargs
    have hfirst := h a (by simp) hargs.1
    have hrest := ih hargs.2 fun b hb => h b (by simp [hb])
    simp [argsCode, hfirst, hrest, coreArgs]

lemma exprCode_core (he : e.isCore v) (wanted : Bool) :
    exprCode storage symbols wanted e = .ok (coreExpr cell wanted e) := by
  induction e generalizing wanted with
  | literal value => rfl
  | var x symbol =>
    simp only [Expr.isCore, Bool.and_eq_true, Bool.or_eq_true, decide_eq_true_eq] at he
    simp [exprCode, loadVar_core hk he.1, coreExpr]
  | unary op operand ih =>
    simp only [Expr.isCore, Bool.and_eq_true] at he
    have hop := he.1
    have htype := typeOf_core hk he.2
    rw [exprCode, ih he.2 true]
    cases op <;> simp [unaryMeaning] at hop <;>
      simp [unaryCode, htype, coreExpr, unaryOpcode, Keyword.isUnary]
  | binary op left right ihl ihr =>
    simp only [Expr.isCore, Bool.and_eq_true, Bool.or_eq_true, Bool.not_eq_true',
      decide_eq_true_eq] at he
    rcases he with ⟨⟨⟨hop, hvar⟩, hl⟩, hr⟩
    by_cases hassign : op = .assign
    · subst hassign
      have hvar : left.isVar = true := by simpa [Keyword.isAssignment] using hvar
      have hstore := assignCode_core hk wanted hvar hl (.binaryOperator .assign)
      simp [exprCode, ihr hr true, hstore, coreExpr]
    · have hmeaning : (binaryMeaning op).isSome = true := by simpa [hassign] using hop
      have has : op ≠ .kwAs := by
        rintro rfl
        simp [binaryMeaning] at hmeaning
      rcases typedCode_core hmeaning with ⟨hcode, htyped⟩
      have htail : (if op.isAssignment then
          assignCode storage symbols wanted left (.target left.mention)
          else .ok (dropUnless wanted)) =
          .ok (if op.isAssignment then storeBack cell wanted left else dropUnless wanted) := by
        split
        · next his => exact assignCode_core hk wanted (by simpa [his] using hvar) hl _
        · rfl
      exact (exprCode_operator hassign has).2 ⟨hcode, _, _, _, _, _, _, ihl hl true, ihr hr true,
        typeOf_core hk hl, typeOf_core hk hr, htyped, htail, by simp [coreExpr, hassign]⟩
  | call func symbol args ih =>
    simp only [Expr.isCore, Bool.and_eq_true, decide_eq_true_eq] at he
    have hargs := argsCode_of_exprCode he.2 fun a ha hcore => ih a ha hcore true
    simp [exprCode, he.1.2, require, hargs, coreExpr]
  | _ => simp [Expr.isCore] at he

end

/-! ## Bytes of expressions -/

variable {op : Opcode} {ds : List VarDecl}

lemma fits_plain (hl : op ≠ .label) (hj : op.isJump = false) : (plain op).Fits := by
  simp [Fits, plain, hl, hj, bytes, argBytes]

lemma fits_load (c : Cell) : c.load.Fits := by
  cases c <;> exact ⟨_, rfl⟩

lemma fits_store (c : Cell) : c.store.Fits := by
  cases c <;> exact ⟨_, rfl⟩

lemma fits_label (name : String) : (labelInstr name).Fits := ⟨name, none, [], rfl⟩

lemma fits_jump (hl : op ≠ .label) (hj : op.isJump) (name : String) : (jumpInstr op name).Fits := by
  simp [Fits, jumpInstr, hl, hj, argBytes]

lemma forall_coreExpr {P : Instr → Prop} {Q : Expr → Prop} {cell : String → Cell} {e : Expr}
    (hplain : ∀ {op : Opcode}, op ≠ .label → op.isJump = false → P (.plain op))
    (hload : ∀ c : Cell, P c.load) (hstore : ∀ c : Cell, P c.store)
    (hliteral : ∀ {v}, Q (.literal v) → P (literalCode v))
    (hunary : ∀ {op a}, Q (.unary op a) → Q a)
    (hbin : ∀ {op a b}, Q (.binary op a b) → Q a ∧ Q b)
    (hcall : ∀ {f symbol args}, Q (.call f symbol args) →
      P ⟨.call, [.label f none, .u8 (.ofInt args.length)]⟩ ∧ ∀ a ∈ args, Q a)
    (he : Q e) (wanted : Bool) : ∀ i ∈ coreExpr cell wanted e, P i := by
  have hdrop (w : Bool) : ∀ i ∈ dropUnless w, P i := by
    have hpop : P (.plain .pop) := hplain (by decide) rfl
    cases w <;> simp [dropUnless, hpop]
  have hback (w : Bool) (a : Expr) : ∀ i ∈ storeBack cell w a, P i := by
    cases a with
    | var x symbol => cases w <;> simp [storeBack, hstore, hload]
    | _ => simp [storeBack]
  have hargs (rest : List Expr) (h : ∀ a ∈ rest, ∀ i ∈ coreExpr cell true a, P i) :
      ∀ i ∈ coreArgs cell rest, P i := by
    induction rest with
    | nil => simp [coreArgs]
    | cons a rest ih =>
      obtain ⟨ha, hrest⟩ := forall_mem_cons.1 h
      exact forall_mem_append.2 ⟨ha, ih hrest⟩
  induction e generalizing wanted with
  | literal value => exact forall_mem_cons.2 ⟨hliteral he, hdrop wanted⟩
  | var x symbol => exact forall_mem_cons.2 ⟨hload _, hdrop wanted⟩
  | unary op a ih =>
    have hop := hplain (unaryOpcode_ne_label op) (isJump_unaryOpcode op)
    simp only [coreExpr, forall_mem_append, forall_mem_singleton]
    exact ⟨⟨ih (hunary he) true, hop⟩, hdrop wanted⟩
  | binary op a b iha ihb =>
    obtain ⟨ha, hb⟩ := hbin he
    have hop := hplain (binaryOpcode_ne_label op) (isJump_binaryOpcode op)
    rw [coreExpr]
    -- a plain assignment has no code of its target before the value
    split
    · exact forall_mem_append.2 ⟨ihb hb true, hback wanted a⟩
    · simp only [forall_mem_append, forall_mem_singleton]
      refine ⟨⟨⟨iha ha true, ihb hb true⟩, hop⟩, ?_⟩
      split
      · exact hback wanted a
      · exact hdrop wanted
  | call func symbol args ih =>
    obtain ⟨hins, hcore⟩ := hcall he
    simp only [coreExpr, forall_mem_append, forall_mem_singleton]
    exact ⟨⟨hargs args fun a ha => ih a ha (hcore a ha) true, hins⟩, hdrop wanted⟩
  | _ => simp [coreExpr]

lemma fits_coreExpr {v : Visible} {cell : String → Cell} {e : Expr} (he : e.isCore v)
    (wanted : Bool) : ∀ i ∈ coreExpr cell wanted e, i.Fits := by
  refine forall_coreExpr (Q := fun e => e.isCore v = true) fits_plain fits_load fits_store
    (fun {value} h => ?_) ?_ ?_ (fun {f symbol args} h => ?_) he wanted
  · cases value with
    | int n => exact ⟨_, rfl⟩
    | _ => simp [Expr.isCore] at h
  · simp [Expr.isCore]
  · simp +contextual [Expr.isCore]
  · simp only [Expr.isCore, Bool.and_eq_true] at h
    refine ⟨⟨f, none, [.u8 (.ofInt args.length)], _, rfl, rfl⟩, ?_⟩
    have hcore := h.2
    clear h
    induction args with
    | nil => simp
    | cons a rest ih =>
      simp only [argsAreCore, Bool.and_eq_true] at hcore
      exact forall_mem_cons.2 ⟨hcore.1, ih hcore.2⟩

/-! ## Contexts of the core -/

section

variable {v : Visible} {result : VarType} {inLoop : Bool} {body : List Stmt}

lemma declsIn_core_of (h : ∀ st ∈ body, ∀ {v result inLoop}, st.isCore v result inLoop →
      st.decls.map name = st.declared ∧ ∀ d ∈ st.decls, d.isConst = false)
    (hcore : stmtsAreCore v result inLoop body) :
    (declsIn body).map name = declaredIn body ∧ ∀ d ∈ declsIn body, d.isConst = false := by
  induction body generalizing v with
  | nil => exact ⟨rfl, by simp⟩
  | cons st rest ih =>
    simp only [stmtsAreCore, Bool.and_eq_true] at hcore
    obtain ⟨hfirst, hvars⟩ := h st (by simp) hcore.1
    obtain ⟨hothers, hvars'⟩ := ih (fun st' hst' => h st' (by simp [hst'])) hcore.2
    rw [declsIn_cons, map_append, hfirst, hothers, declaredIn]
    exact ⟨rfl, forall_mem_append.2 ⟨hvars, hvars'⟩⟩

lemma decls_core (st : Stmt) (hcore : st.isCore v result inLoop) :
    st.decls.map name = st.declared ∧ ∀ d ∈ st.decls, d.isConst = false := by
  induction st generalizing v result inLoop with
  | decl d =>
    simp only [isCore, Bool.and_eq_true, Bool.not_eq_true'] at hcore
    simp [decls, declared, hcore.1.2]
  | ifElse cond yes no ihyes ihno =>
    simp only [isCore, Bool.and_eq_true] at hcore
    obtain ⟨hyes, hvars⟩ := declsIn_core_of ihyes hcore.1.2
    obtain ⟨hno, hvars'⟩ := declsIn_core_of ihno hcore.2
    rw [decls, map_append, hyes, hno, declared]
    exact ⟨rfl, forall_mem_append.2 ⟨hvars, hvars'⟩⟩
  | whileDo cond body ih =>
    simp only [isCore, Bool.and_eq_true] at hcore
    exact declsIn_core_of ih hcore.2
  | loop body ih => exact declsIn_core_of ih hcore
  | _ => exact ⟨rfl, by simp [decls]⟩

lemma declsIn_core (h : stmtsAreCore v result inLoop body) :
    (declsIn body).map name = declaredIn body ∧ ∀ d ∈ declsIn body, d.isConst = false :=
  declsIn_core_of (fun st _ => decls_core st) h

end

lemma constantNames_of_vars (h : ∀ d ∈ ds, d.isConst = false) : constantNames ds = [] := by
  rw [constantNames, filter_eq_nil_iff.2 (by simpa using h), map_nil]

lemma Context.foldl_declare_vars (h : ∀ d ∈ ds, d.isConst = false) :
    ∀ c : Context, (ds.foldl declare c).constants = c.constants ∧
      (ds.foldl declare c).declared = c.declared ++ ds.map name := by
  induction ds with
  | nil => exact fun c => ⟨rfl, (append_nil _).symm⟩
  | cons d rest ih =>
    intro c
    obtain ⟨hd, hrest⟩ := forall_mem_cons.1 h
    obtain ⟨hconsts, hdecl⟩ := ih hrest (c.declare d)
    have hbind : c.declare d = c.bind d.name c.nextSlot := by simp [declare, hd]
    rw [foldl_cons, hconsts, hdecl, hbind]
    exact ⟨rfl, by simp [bind]⟩

/-- The context of a point of the core: the global variables `before` and the locals `visible` have
the places that come with `globals` and `locals`. -/
structure CoreContext (p : Program) (globals locals before visible : List String) (c : Context) :
    Prop where
  outer : c.outer = p.names
  constants : c.constants = []
  globals : ∀ x ∈ before, c.globals.lookup x = some (globals.idxOf x)
  own : ∀ x, c.own.lookup x = if x ∈ visible then some (locals.idxOf x) else none
  mem : ∀ x ∈ visible, x ∈ locals

section

variable {p : Program} {symbols : Symbols} {globals locals before visible : List String}
  {f : FuncDecl} {v : Visible} {c : Context} {s : GenState} {cond : Expr}

lemma CoreContext.known (h : CoreContext p globals locals v.globals v.locals c)
    (htracks : Tracks c s.storage s.symbols) (hapart : ∀ x ∈ locals, x ∉ p.names)
    (hresults : ∀ g n, v.arity g = some n → Symbols.result? s.symbols g = some .int) :
    Known v (cellOf globals locals) s.storage s.symbols := by
  refine ⟨fun x _ => ?_, fun x hx => ⟨globals.idxOf x, ?_, ?_⟩, fun x hx => ?_, hresults⟩
  · rw [htracks.constants, h.constants]
    rfl
  · rw [htracks.globals, h.globals x hx]
    rfl
  · have hname : x ∈ p.names := h.outer ▸ htracks.globals_outer x _ (h.globals x hx)
    have hnot : x ∉ locals := fun hmem => hapart x hmem hname
    simp [cellOf, hnot]
  · have hown := h.own x
    rw [if_pos hx] at hown
    have hglob : c.globals.lookup x = none := by
      cases hg : c.globals.lookup x with
      | none => rfl
      | some k => exact absurd (htracks.globals_outer x k hg) (htracks.apart x _ hown).1
    have hslot := htracks.slotOf_eq hglob
    rw [h.constants, hown] at hslot
    refine ⟨by rw [htracks.globals, hglob]; rfl, locals.idxOf x, toOption_eq_some.1 hslot, ?_⟩
    simp [cellOf, h.mem x hx]

section

variable (h : CoreContext p globals locals before visible c)

include h

lemma CoreContext.goOn {c'} (hext : c.Extends c')
    (hconsts : c'.constants = c.constants) (hown : c'.own = c.own) :
    CoreContext p globals locals before visible c' :=
  ⟨hext.outer.trans h.outer, hconsts.trans h.constants,
    fun x hx => hext.globals ▸ h.globals x hx, fun x => hown ▸ h.own x, h.mem⟩

lemma CoreContext.body {body : List Stmt} {result : VarType} {inLoop : Bool}
    (hcore : stmtsAreCore v result inLoop body) :
    CoreContext p globals locals before visible { c.afterAll body with own := c.own } ∧
      (c.afterAll body).declared = c.declared ++ declaredIn body := by
  obtain ⟨hnames, hvars⟩ := declsIn_core hcore
  obtain ⟨hconsts, hdecl⟩ := Context.foldl_declare_vars hvars c
  have hbare := c.bare_afterAll body
  simp only [Context.bare, Context.mk.injEq] at hbare
  refine ⟨h.goOn (Context.Extends.afterAll body c).leave ?_ rfl, ?_⟩
  · exact hbare.2.1.trans hconsts
  · rw [hbare.2.2.2.2, hdecl, hnames]

omit h in
lemma idxOf_next {x : String} {seen later} (hdist : locals.Nodup)
    (hnames : locals = seen ++ [x] ++ later) :
    seen.Nodup ∧ x ∈ locals ∧ locals.idxOf x = seen.length := by
  subst hnames
  rw [append_assoc, nodup_append] at hdist
  have hnew : x ∉ seen := fun hx => hdist.2.2 x hx x (by simp) rfl
  refine ⟨hdist.1, by simp, ?_⟩
  rw [append_assoc, idxOf_append_of_notMem hnew]
  simp

lemma CoreContext.declare (htracks : Tracks c s.storage s.symbols) (hdist : locals.Nodup)
    (hapart : ∀ x ∈ locals, x ∉ p.names) {d : VarDecl} {later : List String}
    (hd : d.isConst = false) (hnames : locals = c.declared ++ [d.name] ++ later) :
    CoreContext p globals locals before (visible ++ [d.name]) (c.declare d) ∧
      locals.idxOf d.name = c.nextSlot := by
  obtain ⟨hnodup, hmem, hidx⟩ := idxOf_next hdist hnames
  have hnext : c.nextSlot = c.declared.length := length_eraseDups_eq_iff.2 hnodup
  -- a name in reach has the slot of an earlier one
  have hhidden : d.name ∉ visible := by
    intro hvisible
    have hlt := (htracks.apart d.name _ (by rw [h.own, if_pos hvisible])).2
    omega
  have hfree : c.isFree d.name = true := by
    simp [Context.isFree, h.outer, hapart d.name hmem, h.own, hhidden]
  have hdeclare : c.declare d =
      { c with own := (d.name, c.nextSlot) :: c.own, declared := c.declared ++ [d.name] } := by
    simp [Context.declare, hd, Context.bind, hfree]
  rw [hdeclare]
  refine ⟨⟨h.outer, h.constants, h.globals, fun x => ?_, ?_⟩, hidx.trans hnext.symm⟩
  · by_cases hx : x = d.name
    · subst hx
      simp [hidx, hnext]
    · simp [lookup_cons_of_ne hx, h.own, hx]
  · exact forall_mem_append.2 ⟨h.mem, by simpa using hmem⟩

end

/-! ## Statements -/

lemma StmtCode.ofCode_append (xs ys : List Instr) :
    ofCode xs ++ ofCode ys = ofCode (xs ++ ys) := rfl

/-- The assembler is at a point of a function of the core. -/
structure InFunction (p : Program) (symbols : Symbols) (globals : List String) (f : FuncDecl)
    (v : Visible) (c : Context) (s : GenState) : Prop where
  informed : Informed symbols f.name c s
  context : CoreContext p globals f.localNames v.globals v.locals c
  arity : v.arity = p.arity
  distinct : f.localNames.Nodup
  apart : ∀ x ∈ f.localNames, x ∉ p.names
  results : ∀ g n, p.arity g = some n → Symbols.result? symbols g = some .int

namespace InFunction

variable (h : InFunction p symbols globals f v c s)

include h

lemma enter : InFunction p symbols globals f v c s.enter := { h with informed := h.informed.enter }

lemma label (suffix : String) : InFunction p symbols globals f v c (s.label suffix).2 :=
  { h with informed := h.informed.label suffix }

lemma known : Known v (cellOf globals f.localNames) s.storage s.symbols := by
  refine h.context.known h.informed.follows.tracks h.apart fun g n hg => ?_
  rw [h.informed.results]
  exact h.results g n (h.arity ▸ hg)

lemma exprCode {e : Expr} (he : e.isCore v) (wanted : Bool) :
    s.exprCode wanted e = .ok (coreExpr (cellOf globals f.localNames) wanted e) :=
  exprCode_core h.known he wanted

variable {exit? : Option String} {r : StmtCode} {s' : GenState}

lemma stmt {st : Stmt} {later} (hcore : st.isCore v f.returnType exit?.isSome)
    (hnames : f.localNames = c.declared ++ st.declared ++ later)
    (hcode : stmtCode f.name exit? c.constants.length s st = .ok (r, s')) :
    InFunction p symbols globals f (v.after st) (c.after st) s' ∧
      (c.after st).declared = c.declared ++ st.declared := by
  obtain ⟨hdecls, hvars⟩ := decls_core st hcore
  obtain ⟨hconsts, hdecl⟩ := Context.foldl_declare_vars hvars c
  have hadm : c.Admits (constantNames st.decls) := by
    simp [constantNames_of_vars hvars, Context.Admits]
  have hinformed := h.informed.stmt hadm hcode
  have hafter : (c.after st).declared = c.declared ++ st.declared := by
    have hbare := congrArg Context.declared (c.bare_after st)
    rwa [← hdecls, ← hdecl]
  refine ⟨{ h with informed := hinformed, context := ?_, arity := ?_ }, hafter⟩
  · cases st with
    | decl d =>
      exact (h.context.declare h.informed.follows.tracks h.distinct h.apart
        (hvars d (by simp [decls])) (by simpa [declared] using hnames)).1
    | _ => exact h.context.goOn (.after c _) hconsts rfl
  · cases st <;> exact h.arity

lemma body {body : List Stmt} {inLoop : Bool}
    (hcore : stmtsAreCore v f.returnType inLoop body)
    (hcode : stmtsCode f.name exit? c.constants.length s.enter body = .ok (r, s')) :
    InFunction p symbols globals f v { c.afterAll body with own := c.own } s'.leave ∧
      (c.afterAll body).declared = c.declared ++ declaredIn body := by
  obtain ⟨_, hvars⟩ := declsIn_core hcore
  have hadm : c.Admits (constantNames (declsIn body)) := by
    simp [constantNames_of_vars hvars, Context.Admits]
  obtain ⟨hcontext, hdecl⟩ := h.context.body hcore
  exact ⟨{ h with informed := h.informed.body hadm hcode, context := hcontext }, hdecl⟩

end InFunction

/-- The assembler has code for a statement of the core, wherever it stands in its function. -/
def HasCode (p : Program) (symbols : Symbols) (globals : List String) (f : FuncDecl) (st : Stmt) :
    Prop :=
  ∀ exit? v c later s,
    InFunction p symbols globals f v c s → st.isCore v f.returnType exit?.isSome = true →
    f.localNames = c.declared ++ st.declared ++ later →
    ∃ code s', stmtCode f.name exit? c.constants.length s st = .ok (.ofCode code, s') ∧
      StmtIs (cellOf globals f.localNames) exit? st code ∧ ∀ i ∈ code, i.Fits

variable {body : List Stmt}

lemma stmtsCode_of_hasCode (h : ∀ st ∈ body, HasCode p symbols globals f st) :
    ∀ exit? v c later s,
      InFunction p symbols globals f v c s →
      stmtsAreCore v f.returnType exit?.isSome body →
      f.localNames = c.declared ++ declaredIn body ++ later →
      ∃ code s', stmtsCode f.name exit? c.constants.length s body = .ok (.ofCode code, s') ∧
        StmtsAre (cellOf globals f.localNames) exit? body code ∧ ∀ i ∈ code, i.Fits := by
  induction body with
  | nil => exact fun _ _ _ _ s _ _ _ => ⟨[], s, rfl, .nil, by simp⟩
  | cons st rest ih =>
    intro exit? v c later s hs hcore hnames
    simp only [stmtsAreCore, Bool.and_eq_true] at hcore
    rw [declaredIn, ← append_assoc, append_assoc _ _ later] at hnames
    obtain ⟨first, s1, hfirst, hfirstIs, hfits1⟩ := h st (by simp) exit? v c _ s hs hcore.1 hnames
    obtain ⟨hs1, hdecl⟩ := hs.stmt hcore.1 hnames hfirst
    rw [← hdecl, ← append_assoc] at hnames
    obtain ⟨others, s2, hrest, hrestAre, hfits2⟩ :=
      ih (fun st' hst' => h st' (by simp [hst'])) exit? (v.after st) (c.after st) later s1 hs1
        hcore.2 hnames
    refine ⟨first ++ others, s2, ?_, .cons hfirstIs hrestAre, forall_mem_append.2 ⟨hfits1, hfits2⟩⟩
    have hindex : c.constants.length + (ofCode first).constants.length =
        (c.after st).constants.length := by
      rw [hs.context.constants, hs1.context.constants]
      rfl
    simp only [stmtsCode, hfirst, hindex, hrest, ofCode_append, ok_bind, pure_ok]

lemma hasCode_ifElse {yes no} (hyes : ∀ st ∈ yes, HasCode p symbols globals f st)
    (hno : ∀ st ∈ no, HasCode p symbols globals f st) :
    HasCode p symbols globals f (.ifElse cond yes no) := by
  intro exit? v c later s h hcore hnames
  simp only [isCore, Bool.and_eq_true] at hcore
  rw [declared, ← append_assoc, append_assoc _ _ later] at hnames
  have hlabs := (h.label "_if_else").label "_if_end"
  obtain ⟨yesCode, s1, hyesCode, hyesAre, hfits1⟩ :=
    stmtsCode_of_hasCode hyes none v c _ _ hlabs.enter hcore.1.2 hnames
  obtain ⟨h1, hdecl⟩ := hlabs.body hcore.1.2 hyesCode
  rw [← hdecl, ← append_assoc] at hnames
  obtain ⟨noCode, s2, hnoCode, hnoAre, hfits2⟩ :=
    stmtsCode_of_hasCode hno none v _ later _ h1.enter hcore.2 hnames
  have htest := h.exprCode hcore.1.1 true
  have hindex : c.constants.length + (ofCode yesCode).constants.length =
      (c.afterAll yes).constants.length := by
    have hnone := h1.context.constants
    simp only at hnone
    rw [h.context.constants, hnone]
    rfl
  refine ⟨_, s2.leave, ?_, .ifElse (s.label "_if_else").1 ((s.label "_if_else").2.label "_if_end").1
    hyesAre hnoAre, ?_⟩
  · simp only [stmtCode, htest, hyesCode, hindex, hnoCode, ofCode_append, ok_bind]
    rfl
  · simp only [forall_mem_append, forall_mem_cons, not_mem_nil, false_implies,
      implies_true, and_true]
    exact ⟨⟨⟨⟨⟨fits_coreExpr hcore.1.1 true, fits_jump (by decide) rfl _⟩, hfits1⟩,
      fits_jump (by decide) rfl _, fits_label _⟩, hfits2⟩, fits_label _⟩

lemma hasCode_whileDo (hbody : ∀ st ∈ body, HasCode p symbols globals f st) :
    HasCode p symbols globals f (.whileDo cond body) := by
  intro exit? v c later s h hcore hnames
  simp only [isCore, Bool.and_eq_true] at hcore
  rw [declared] at hnames
  have hlabs := (h.label "_while_end").label "_while_begin"
  obtain ⟨code, s1, hcode, hare, hfits⟩ :=
    stmtsCode_of_hasCode hbody (some (s.label "_while_end").1) v c later _ hlabs.enter hcore.2
      hnames
  have htest := hlabs.exprCode hcore.1 true
  refine ⟨_, s1.leave, ?_,
    .whileDo ((s.label "_while_end").2.label "_while_begin").1 (s.label "_while_end").1 hare, ?_⟩
  · simp only [stmtCode, htest, hcode, ofCode_append, ok_bind]
    rfl
  · simp only [forall_mem_append, forall_mem_cons, not_mem_nil, false_implies,
      implies_true, and_true]
    exact ⟨⟨⟨⟨fits_label _, fits_coreExpr hcore.1 true⟩, fits_jump (by decide) rfl _⟩, hfits⟩,
      fits_jump (by decide) rfl _, fits_label _⟩

lemma hasCode_loop (hbody : ∀ st ∈ body, HasCode p symbols globals f st) :
    HasCode p symbols globals f (.loop body) := by
  intro exit? v c later s h hcore hnames
  simp only [isCore] at hcore
  rw [declared] at hnames
  have hlabs := (h.label "_loop_begin").label "_loop_end"
  obtain ⟨code, s1, hcode, hare, hfits⟩ :=
    stmtsCode_of_hasCode hbody (some ((s.label "_loop_begin").2.label "_loop_end").1) v c later _
      hlabs.enter hcore hnames
  refine ⟨_, s1.leave, ?_,
    .loop (s.label "_loop_begin").1 ((s.label "_loop_begin").2.label "_loop_end").1 hare, ?_⟩
  · simp only [stmtCode, hcode, ofCode_append, ok_bind]
    rfl
  · simp only [forall_mem_append, forall_mem_cons, not_mem_nil, false_implies,
      implies_true, and_true]
    exact ⟨⟨fits_label _, hfits⟩, fits_jump (by decide) rfl _, fits_label _⟩

lemma hasCode_decl (d : VarDecl) : HasCode p symbols globals f (.decl d) := by
  intro exit? v c later s h hcore hnames
  simp only [isCore, Bool.and_eq_true, Bool.not_eq_true', decide_eq_true_eq] at hcore
  rcases hcore with ⟨⟨_, hconst⟩, hinit⟩
  rw [declared] at hnames
  cases he : d.init with
  | none => simp [he] at hinit
  | some e =>
    simp only [he] at hinit
    obtain ⟨info, hinfo, _⟩ := h.informed.follows.locals
    have htracks := h.informed.follows.tracks
    obtain ⟨hcontext, hidx⟩ := h.context.declare htracks h.distinct h.apart hconst hnames
    have hsize := (h.informed.follows.declare hinfo hconst).1
    have hinside : InFunction p symbols globals f (v.after (.decl d)) (c.declare d)
        (s.declare f.name info d) :=
      { h with informed := h.informed.declare hinfo hconst, context := hcontext }
    have hknown : Known v (cellOf globals f.localNames) (s.declare f.name info d).storage
        (s.declare f.name info d).symbols := by
      obtain ⟨hconsts, hglobs, hlocs, hfuncs⟩ := hinside.known
      refine ⟨fun x hx => hconsts x ?_, hglobs, fun x hx => hlocs x ?_, hfuncs⟩
      · exact hx.imp (mem_append_left _) id
      · exact mem_append_left _ hx
    have hcode : (s.declare f.name info d).exprCode true e = _ := exprCode_core hknown hinit true
    have hcell : cellOf globals f.localNames d.name = .slot c.nextSlot := by
      rw [← hidx]
      exact if_pos (by simp [hnames])
    refine ⟨_, s.declare f.name info d, ?_, .decl he hcell, ?_⟩
    · rw [← hsize]
      simp only [GenState.declare, hconst] at hcode
      simp only [stmtCode, hconst, Bool.false_eq_true, if_false, localDecl, hinfo, he, hcode,
        GenState.declare, ok_bind]
      rfl
    · simp only [forall_mem_append, forall_mem_singleton]
      exact ⟨fits_coreExpr hinit true, fits_store _⟩

lemma hasCode (st : Stmt) : HasCode p symbols globals f st := by
  induction st with
  | expr e =>
    intro exit? v c later s h hcore _
    simp only [isCore] at hcore
    refine ⟨_, s, ?_, .expr e, fits_coreExpr hcore false⟩
    simp only [stmtCode, h.exprCode hcore false, ok_bind]
    rfl
  | decl d => exact hasCode_decl d
  | ifElse cond yes no hyes hno => exact hasCode_ifElse hyes hno
  | whileDo cond body hbody => exact hasCode_whileDo hbody
  | loop body hbody => exact hasCode_loop hbody
  | ret value =>
    intro exit? v c later s h hcore _
    cases value with
    | none =>
      have hret : (plain .ret0).Fits := fits_plain (by decide) rfl
      exact ⟨_, s, rfl, .retNone, by simpa using hret⟩
    | some e =>
      simp only [isCore, Bool.and_eq_true, decide_eq_true_eq] at hcore
      refine ⟨_, s, ?_, .ret e, ?_⟩
      · simp only [stmtCode, h.exprCode hcore.2 true, ok_bind]
        rfl
      · simp only [forall_mem_append, forall_mem_singleton]
        exact ⟨fits_coreExpr hcore.2 true, fits_plain (by decide) rfl⟩
  | leaveLoop =>
    intro exit? v c later s h hcore _
    simp only [isCore, Option.isSome_iff_exists] at hcore
    rcases hcore with ⟨exit, rfl⟩
    have hjump : (jumpInstr .jmp exit).Fits := fits_jump (by decide) rfl exit
    exact ⟨_, s, rfl, .leaveLoop exit, by simpa using hjump⟩
  | blank =>
    intro exit? v c later s _ hcore
    simp [isCore] at hcore

end

end ArmStudio.Code
