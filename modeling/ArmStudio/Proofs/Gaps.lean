import ArmStudio.Proofs.ProgramContexts

/-!
# Gaps between analysis and assembler

Not everything that the analysis accepts has code. `Gap` lists the reasons. They are found in the
tree, with the context of the declarations in front.
-/

namespace ArmStudio.Code

open Script List Option Symbols Program

/-- Why a tree that the analysis accepts has no code. -/
inductive Gap where
  /-- The name has no storage so far. -/
  | place (name : String)
  /-- The operator has no operation on these types. -/
  | operands (op : Keyword) (left right : VarType)
  /-- The left side of the assignment is no variable. -/
  | target (op : Keyword)
  /-- A minus stands before an expression without a type. -/
  | negation
  /-- The function has no result, but its value is used. -/
  | value (func : String)
  /-- The system call has no result, but its value is used. -/
  | systemValue (func : Keyword)
  /-- The mark is read as a system call. -/
  | mark (func : Keyword)
  /-- The value of the constant is no literal. -/
  | constant (name : String)
  /-- A loop is left from inside a conditional. -/
  | leaveLoop
  deriving DecidableEq

/-- The operators that are there for floating-point numbers, too. -/
def onFloats : Keyword → Bool
  | .equal | .notEqual | .greater | .less | .greaterEqual | .lessEqual | .plus | .minus | .times
  | .divide | .addAssign | .subAssign | .mulAssign | .divAssign => true
  | _ => false

def hasOperation (op : Keyword) (left right : VarType) : Bool :=
  (left == .int && right == .int) || (left == .float && right == .float && onFloats op)

def isMark : Keyword → Bool
  | .leftParen | .rightParen | .leftBrace | .rightBrace | .comma | .semicolon => true
  | _ => false

section

variable (symbols : Symbols) (place? : String → Option Place)

def placeGaps (name : String) : List Gap := if (place? name).isSome then [] else [.place name]

variable (op : Keyword)

/-- Gaps in the left side of an assignment, which the analysis has not seen to for all operators. -/
def targetGaps : Expr → List Gap
  | .var name _ => placeGaps place? name
  | _ => if op.wantsTarget then [] else [.target op]

def operandGaps (a b : Expr) : List Gap :=
  match typeOf symbols a, typeOf symbols b with
  | .ok left, .ok right => if hasOperation op left right then [] else [.operands op left right]
  | _, _ => []

def negationGaps (e : Expr) : List Gap :=
  if op = .minus ∧ (typeOf symbols e).toOption = none then [.negation] else []

mutual

def exprGaps : Bool → Expr → List Gap
  | _, .unary op e => exprGaps true e ++ negationGaps symbols op e
  | _, .binary .assign a b => exprGaps true b ++ targetGaps place? .assign a
  | _, .binary .kwAs a b =>
    -- a conversion to the type that the operand has makes no code
    if (typeOf symbols a).toOption = (typeOf symbols b).toOption then [] else exprGaps true a
  | _, .binary op a b =>
    exprGaps true a ++ exprGaps true b ++ operandGaps symbols op a b ++
      (if op.isAssignment then targetGaps place? op a else [])
  | _, .var name _ => placeGaps place? name
  | wanted, .call func symbol args =>
    (if wanted ∧ symbol.returnType = some .void then [.value func] else []) ++ argsGaps args
  | wanted, .sysCall func args =>
    (if wanted ∧ func ≠ .readJoint then [.systemValue func] else []) ++ argsGaps args ++
      (if isMark func then [.mark func] else [])
  | _, _ => []

def argsGaps : List Expr → List Gap
  | [] => []
  | a :: rest => exprGaps true a ++ argsGaps rest

end

def valueGaps : Option Expr → List Gap
  | none => []
  | some e => exprGaps symbols place? true e

def constantGaps (d : VarDecl) : List Gap :=
  match d.init with
  | some (.literal _) => []
  | _ => [.constant d.name]

end

section

variable (symbols : Symbols)

/-- The gaps in a declaration with the context `behind` it: its name is known in its own value. -/
def varGaps (behind : Context) (d : VarDecl) : List Gap :=
  if d.isConst then constantGaps d else valueGaps symbols behind.place? d.init

mutual

def stmtGaps (c : Context) (inLoop : Bool) : Stmt → List Gap
  | .expr e => exprGaps symbols c.place? false e
  | .decl d => varGaps symbols (c.declare d) d
  | .ifElse cond yes no =>
    -- the branches do not know the loop around
    exprGaps symbols c.place? true cond ++ bodyGaps c false yes ++
      bodyGaps { c.afterAll yes with own := c.own } false no
  | .whileDo cond body => exprGaps symbols c.place? true cond ++ bodyGaps c true body
  | .loop body => bodyGaps c true body
  | .ret value => valueGaps symbols c.place? value
  | .leaveLoop => if inLoop then [] else [.leaveLoop]
  | .blank => []

def bodyGaps (c : Context) (inLoop : Bool) : List Stmt → List Gap
  | [] => []
  | st :: rest => stmtGaps c inLoop st ++ bodyGaps (c.after st) inLoop rest

end

/-- The gaps in a declaration of a program, with the context in front of it. -/
def declGaps (c : Context) : Decl → List Gap
  | .var d => varGaps symbols (c.afterDecl (.var d)) d
  | .func f => bodyGaps symbols (c.enterFunction (f.params.map Param.name)) false f.body

def declsGaps (c : Context) : List Decl → List Gap
  | [] => []
  | d :: rest => declGaps symbols c d ++ declsGaps (c.afterDecl d) rest

end

def programGaps (symbols : Symbols) (p : Program) : List Gap :=
  declsGaps symbols (.start symbols.outer.names) p.decls

/-! ## Expressions -/

section

variable {symbols0 symbols : Symbols} {storage : Storage} {c : Context}

/-- An expression has code exactly if it has no gaps. -/
def ExprDecided (symbols0 symbols : Symbols) (storage : Storage) (c : Context) (e : Expr) : Prop :=
  ∀ wanted, (∃ code, exprCode storage symbols wanted e = .ok code) ↔
    exprGaps symbols0 c.place? wanted e = []

lemma isSome_toOption {ε α : Type} {x : Except ε α} : x.toOption.isSome ↔ ∃ a, x = .ok a := by
  cases x <;> simp

lemma loadVar_ok_iff (h : Tracks c storage symbols) (name : String) :
    (∃ i, loadVar storage symbols name = .ok i) ↔ placeGaps c.place? name = [] := by
  rw [← isSome_toOption, h.loadVar_eq, isSome_map, placeGaps]
  cases (c.place? name).isSome <;> simp

lemma storeVar_ok_iff (h : Tracks c storage symbols) (name : String) :
    (∃ i, storeVar storage symbols name = .ok i) ↔ placeGaps c.place? name = [] := by
  rw [← isSome_toOption, h.storeVar_eq, isSome_map, placeGaps]
  cases (c.place? name).isSome <;> simp

variable {op : Keyword} {a b : Expr}

lemma assignCode_ok_iff (h : Tracks c storage symbols) (wanted : Bool) {left : Expr}
    (htgt : op.wantsTarget → ∃ name symbol, left = .var name symbol) (onOther : GenError) :
    (∃ code, assignCode storage symbols wanted left onOther = .ok code) ↔
      targetGaps c.place? op left = [] := by
  cases left with
  | var name symbol =>
    rw [targetGaps, ← storeVar_ok_iff h]
    have hload := (loadVar_ok_iff h name).trans (storeVar_ok_iff h name).symm
    simp only [assignCode, bind_eq_ok]
    constructor
    · rintro ⟨code, store, hstore, _⟩
      exact ⟨store, hstore⟩
    · rintro ⟨store, hstore⟩
      -- what can be stored to can be loaded, so the result can be left
      obtain ⟨load, hload⟩ := hload.2 ⟨store, hstore⟩
      cases wanted with
      | true => exact ⟨[store, load], store, hstore, by rw [if_pos rfl, hload]; rfl⟩
      | false => exact ⟨[store], store, hstore, rfl⟩
  | _ => simpa [assignCode, targetGaps] using htgt

lemma operatorCode?_isSome (hop : op.isBinary) (hassign : op ≠ .assign)
    (hcast : op ≠ .kwAs) : (operatorCode? op).isSome := by
  cases op <;> simp_all [operatorCode?, Keyword.isBinary, Keyword.precedence?]

lemma isSome_onFloat? {onInt : Opcode} {onFloat?}
    (h : operatorCode? op = some (onInt, onFloat?)) : onFloat?.isSome = onFloats op := by
  unfold operatorCode? at h
  split at h <;> cases h <;> rfl

lemma typedCode_ok_iff (hop : (operatorCode? op).isSome) (left right : VarType) :
    (∃ i, typedCode op left right = .ok i) ↔ hasOperation op left right := by
  obtain ⟨⟨onInt, onFloat?⟩, hcode⟩ := isSome_iff_exists.1 hop
  have hfloat := isSome_onFloat? hcode
  unfold typedCode hasOperation
  rw [hcode, ← hfloat]
  cases onFloat? <;> cases left <;> cases right <;> simp

lemma callCode?_eq_none_iff {func} (h : func.startsCall) : callCode? func = none ↔ isMark func := by
  revert h
  cases func <;> decide

lemma unaryCode_ok_iff (hresults : ∀ f, result? symbols f = result? symbols0 f)
    (hop : op.isUnary) (e : Expr) :
    (∃ i, unaryCode symbols op e = .ok i) ↔ negationGaps symbols0 op e = [] := by
  unfold Keyword.isUnary at hop
  split at hop
  · simp [unaryCode, negationGaps]
  · simp [unaryCode, negationGaps]
  · simp only [unaryCode, bind_eq_ok, mapError_eq_ok, pure_eq_ok, typeOf_congr hresults,
      negationGaps, true_and]
    cases htype : typeOf symbols0 e <;> simp
  · cases hop

lemma argsCode_ok_iff {args} (hargs : ∀ a ∈ args, ExprDecided symbols0 symbols storage c a) :
    (∃ code, argsCode storage symbols args = .ok code) ↔ argsGaps symbols0 c.place? args = [] := by
  induction args with
  | nil => simp [argsCode, argsGaps]
  | cons a rest ih =>
    have hrest := ih fun b hb => hargs b (by simp [hb])
    rw [argsGaps, append_eq_nil_iff, ← hargs a (by simp) true, ← hrest, argsCode]
    exact exists_bind_eq_ok fun _ _ => exists_bind_ok

/-- An operator other than `=` and `as` has code if both operands have, there is an operation on
their types, and something to assign to. -/
lemma operator_ok_iff (h : Tracks c storage symbols)
    (hresults : ∀ f, result? symbols f = result? symbols0 f)
    (hop : op.isBinary) (hassign : op ≠ .assign) (hcast : op ≠ .kwAs)
    (hta : a.IsTyped symbols0) (htb : b.IsTyped symbols0)
    (htgt : op.wantsTarget → ∃ name symbol, a = .var name symbol)
    (ha : ExprDecided symbols0 symbols storage c a)
    (hb : ExprDecided symbols0 symbols storage c b) :
    ExprDecided symbols0 symbols storage c (.binary op a b) := by
  intro wanted
  -- both operands have types, so the operation is all that the types can fail at
  obtain ⟨lt, hlt⟩ := hta
  obtain ⟨rt, hrt⟩ := htb
  have hsome := operatorCode?_isSome hop hassign hcast
  have hopnds : operandGaps symbols0 op a b = [] ↔ ∃ i, typedCode op lt rt = .ok i := by
    rw [typedCode_ok_iff hsome]
    cases hhas : hasOperation op lt rt <;> simp [operandGaps, hlt, hrt, hhas]
  have htail : (if op.isAssignment then targetGaps c.place? op a else []) = [] ↔
      ∃ tail, (if op.isAssignment then assignCode storage symbols wanted a (.target a.mention)
        else .ok (dropUnless wanted)) = .ok tail := by
    cases op.isAssignment with
    | true => simpa using (assignCode_ok_iff h wanted htgt (.target a.mention)).symm
    | false => simp
  rw [exprGaps, append_eq_nil_iff, append_eq_nil_iff, append_eq_nil_iff, hopnds,
    htail, ← ha, ← hb]
  rotate_left
  · exact hassign
  · exact hcast
  simp only [exprCode_operator hassign hcast, hsome, typeOf_congr hresults, true_and]
  constructor
  · rintro ⟨code, left, right, lt', rt', last, tail, hleft, hright, hlt', hrt', hlast, htail, _⟩
    cases hlt.symm.trans hlt'
    cases hrt.symm.trans hrt'
    exact ⟨⟨⟨⟨left, hleft⟩, right, hright⟩, last, hlast⟩, tail, htail⟩
  · rintro ⟨⟨⟨⟨left, hleft⟩, right, hright⟩, last, hlast⟩, tail, htail⟩
    exact ⟨_, left, right, lt, rt, last, tail, hleft, hright, hlt, hrt, hlast, htail, rfl⟩

lemma exprCode_ok_iff (h : Tracks c storage symbols)
    (hresults : ∀ f, result? symbols f = result? symbols0 f) {e : Expr}
    (he : e.Settled symbols0) : ExprDecided symbols0 symbols storage c e := by
  induction he with
  | literal v =>
    intro wanted
    simp [exprCode, exprGaps]
  | @unary op e hop _ ih =>
    intro wanted
    rw [exprGaps, append_eq_nil_iff, ← ih true, ← unaryCode_ok_iff hresults hop, exprCode,
      if_pos hop]
    exact exists_bind_eq_ok fun _ _ => exists_bind_ok
  | @convert e t _ htyped ih =>
    intro wanted
    obtain ⟨s, hs⟩ := htyped
    have htgt : typeOf symbols0 (.typeName t) = .ok t := rfl
    simp only [Expr.convert, exprGaps, exprCode_as, typeOf_congr hresults, hs, htgt,
      Except.toOption, Option.some.injEq, Expr.typeName.injEq, Except.ok.injEq]
    by_cases hsame : t = s
    -- without code there is nothing that could be missing
    · subst hsame
      simp
    · rw [if_neg (Ne.symm hsame), ← ih true]
      constructor
      · rintro ⟨code, _, _, rfl, rfl, ⟨hno, _⟩ | ⟨_, operand, hopnd, _⟩⟩
        · exact absurd hno hsame
        · exact ⟨operand, hopnd⟩
      · rintro ⟨operand, hopnd⟩
        exact ⟨_, t, s, rfl, rfl, .inr ⟨hsame, operand, hopnd, rfl⟩⟩
  | @binary op a b hop hcast _ _ hta htb htgt iha ihb =>
    intro wanted
    by_cases hassign : op = .assign
    · subst hassign
      rw [exprGaps, append_eq_nil_iff, ← ihb true,
        ← assignCode_ok_iff h wanted htgt (.binaryOperator .assign), exprCode]
      exact exists_bind_eq_ok fun _ _ => exists_bind_ok
    · exact operator_ok_iff h hresults hop hassign hcast hta htb htgt iha ihb wanted
  | var name t isConst =>
    intro wanted
    rw [exprGaps, ← loadVar_ok_iff h, exprCode]
    exact exists_bind_ok
  | @call func params result args hfunc _ ih =>
    intro wanted
    rw [exprGaps, append_eq_nil_iff, ← argsCode_ok_iff ih]
    simp only [exprCode_call, Symbol.ofFunction, Option.some.injEq]
    constructor
    · rintro ⟨code, _, inner, rfl, hval, hinner, _⟩
      exact ⟨if_neg fun hboth => hval hboth.symm, inner, hinner⟩
    · rintro ⟨hval, inner, hinner⟩
      refine ⟨_, result, inner, rfl, ?_, hinner, rfl⟩
      rintro ⟨rfl, rfl⟩
      simp at hval
  | @sysCall func args hfunc _ ih =>
    intro wanted
    rw [exprGaps, append_eq_nil_iff, append_eq_nil_iff, ← argsCode_ok_iff ih]
    simp only [exprCode_sysCall]
    have hmark := callCode?_eq_none_iff hfunc
    constructor
    · rintro ⟨code, hval, inner, op, hinner, hop, _⟩
      refine ⟨⟨if_neg fun hboth => hval hboth.symm, inner, hinner⟩, if_neg ?_⟩
      rw [← hmark, hop]
      simp
    · rintro ⟨⟨hval, inner, hinner⟩, hnomark⟩
      cases hop : callCode? func with
      | none => simp [hmark.1 hop] at hnomark
      | some op =>
        refine ⟨_, ?_, inner, op, hinner, rfl, rfl⟩
        rintro ⟨hfunc, rfl⟩
        simp [hfunc] at hval

end

/-! ## Statements -/

lemma Informed.exprCode_ok_iff {symbols0 func c s}
    (h : Informed symbols0 func c s) {e : Expr} (he : e.Settled symbols0) (wanted : Bool) :
    (∃ code, s.exprCode wanted e = .ok code) ↔ exprGaps symbols0 c.place? wanted e = [] :=
  Code.exprCode_ok_iff h.follows.tracks h.results he wanted

section

variable {symbols0 : Symbols} {func : String} {s : GenState} {d : VarDecl} {body : List Stmt}

lemma constantDecl_ok_iff {index : Nat} (hdef : s.symbols.isDefined d.name) :
    (∃ out, constantDecl d index s = .ok out) ↔ constantGaps d = [] := by
  simp only [Prod.exists, constantDecl_eq_ok, hdef, true_and, constantGaps]
  split
  · rename_i v hinit
    simp [hinit]
  · rename_i hinit
    simpa using hinit

lemma localDecl_ok_iff {c} (h : Informed symbols0 func c s) (hd : d.isConst = false)
    (hinit : ∀ e ∈ d.init, e.Settled symbols0) :
    (∃ out, localDecl func d s = .ok out) ↔
      valueGaps symbols0 (c.declare d).place? d.init = [] := by
  obtain ⟨f, hf, _⟩ := h.follows.locals
  unfold localDecl
  rw [hf]
  cases he : d.init with
  | none => simp [valueGaps]
  | some e =>
    rw [valueGaps, ← (h.declare hf hd).exprCode_ok_iff (hinit e he)]
    exact exists_bind_ok

/-- A statement has code exactly if it has no gaps, wherever the context is known. -/
def StmtDecided (symbols0 : Symbols) (func : String) (st : Stmt) : Prop :=
  ∀ exit? c s, Informed symbols0 func c s → c.Admits (constantNames st.decls) →
    ((∃ out, stmtCode func exit? c.constants.length s st = .ok out) ↔
      stmtGaps symbols0 c exit?.isSome st = [])

lemma stmtsCode_ok_iff (hbody : ∀ st ∈ body, StmtDecided symbols0 func st) :
    ∀ exit? c s, Informed symbols0 func c s → c.Admits (constantNames (declsIn body)) →
      ((∃ out, stmtsCode func exit? c.constants.length s body = .ok out) ↔
        bodyGaps symbols0 c exit?.isSome body = []) := by
  induction body with
  | nil =>
    intro exit? c s _ _
    simp [stmtsCode, bodyGaps]
  | cons st rest ih =>
    intro exit? c s h hadm
    rw [declsIn_cons, constantNames_append] at hadm
    have hfirst := hadm.left
    rw [bodyGaps, append_eq_nil_iff, ← hbody st (by simp) exit? c s h hfirst, stmtsCode]
    -- the rest starts from a state that is there only if the first statement has code
    refine exists_bind_eq_ok ?_
    rintro ⟨first, s1⟩ hcode
    have hcnt := (leads_stmtCode st _ _ _ _ _ h.follows hfirst hcode).counted
    have hrest := ih (fun st' hst' => hbody st' (by simp [hst'])) exit? (c.after st) s1
      (h.stmt hfirst hcode) (hadm.right (.after c st))
    rw [hcnt] at hrest
    rw [← hrest]
    exact exists_bind_ok

lemma stmtCode_ok_iff {st : Stmt} (hst : st.Each (Expr.Settled symbols0)) :
    StmtDecided symbols0 func st := by
  induction hst with
  | @expr e he =>
    intro exit? c s h _
    rw [stmtGaps, ← h.exprCode_ok_iff he, stmtCode]
    exact exists_bind_ok
  | @decl d hinit =>
    intro exit? c s h hadm
    rw [stmtGaps, varGaps, stmtCode]
    cases hd : d.isConst with
    | true =>
      obtain ⟨houter, _⟩ := hadm d.name (by simp [Stmt.decls, constantNames, hd])
      rw [if_pos rfl, if_pos rfl,
        ← constantDecl_ok_iff (h.follows.tracks.isDefined_of_mem_outer houter)]
      exact exists_bind_ok
    | false =>
      rw [if_neg (by simp), if_neg (by simp), ← localDecl_ok_iff h hd hinit]
      exact exists_bind_ok
  | @ifElse cond yes no hcond _ _ ihyes ihno =>
    intro exit? c s h hadm
    rw [Stmt.decls, constantNames_append] at hadm
    have hyes := hadm.left
    have hno := hadm.right (Context.Extends.afterAll yes c).leave
    have hlabs := (h.label "_if_else").label "_if_end"
    have hfirst := stmtsCode_ok_iff ihyes none c _ hlabs.enter hyes
    rw [stmtGaps, append_eq_nil_iff, append_eq_nil_iff, and_assoc,
      ← h.exprCode_ok_iff hcond, ← isSome_none, ← hfirst, stmtCode]
    refine exists_bind_eq_ok fun _ _ => exists_bind_eq_ok ?_
    rintro ⟨code, s1⟩ hcode
    have hcnt := (leads_stmtsCode yes _ _ _ _ _ hlabs.follows.enter hyes hcode).counted
    have hsnd := stmtsCode_ok_iff ihno none _ _ (hlabs.body hyes hcode).enter hno
    simp only [hcnt] at hsnd
    rw [← hsnd]
    exact exists_bind_ok
  | @whileDo cond body hcond _ ih =>
    intro exit? c s h hadm
    have hlabs := (h.label "_while_end").label "_while_begin"
    have hbody := stmtsCode_ok_iff ih (some (s.label "_while_end").1) c _ hlabs.enter hadm
    rw [isSome_some] at hbody
    rw [stmtGaps, append_eq_nil_iff, ← hlabs.exprCode_ok_iff hcond, ← hbody, stmtCode]
    exact exists_bind_eq_ok fun _ _ => exists_bind_ok
  | @loop body _ ih =>
    intro exit? c s h hadm
    have hlabs := (h.label "_loop_begin").label "_loop_end"
    have hbody := stmtsCode_ok_iff ih (some ((s.label "_loop_begin").2.label "_loop_end").1) c _
      hlabs.enter hadm
    rw [isSome_some] at hbody
    rw [stmtGaps, ← hbody, stmtCode]
    exact exists_bind_ok
  | @ret value hval =>
    intro exit? c s h _
    cases value with
    | none => simp [stmtGaps, valueGaps, stmtCode]
    | some e =>
      rw [stmtGaps, valueGaps, ← h.exprCode_ok_iff (hval e rfl), stmtCode]
      exact exists_bind_ok
  | leaveLoop =>
    intro exit? c s _ _
    cases exit? <;> simp [stmtGaps, stmtCode]

end

/-! ## Declarations of a program -/

section

variable {symbols0 : Symbols} {names : List String} {c : Context} {a : Assembly} {s : GenState}

section

variable (h : Outermost names c a s)
  (hresults : ∀ f, result? s.symbols f = result? symbols0 f)

include h hresults

lemma funcCode_ok_iff {f} (hbody : ∀ st ∈ f.body, st.Each (Expr.Settled symbols0))
    (hfresh : ∀ x ∈ Decl.globalNames (.func f), x ∈ c.outer ∧ x ∉ names) :
    (∃ out, funcCode f a.constants.length s = .ok out) ↔ declGaps symbols0 c (.func f) = [] := by
  have hiff := stmtsCode_ok_iff (fun st hst => stmtCode_ok_iff (hbody st hst)) none _ _
    (h.informed hresults f) (h.admits hfresh)
  rw [(c.enterFunction_keeps (f.params.map Param.name)).2.1, ← h.constants, isSome_none] at hiff
  rw [declGaps, ← hiff, funcCode]
  exact exists_bind_ok

lemma globalCode_ok_iff {d} (hinit : ∀ e ∈ d.init, e.Settled symbols0)
    (hfresh : ∀ x ∈ Decl.globalNames (.var d), x ∈ c.outer ∧ x ∉ names) :
    (∃ out, globalCode d a.globalSize s = .ok out) ↔
      valueGaps symbols0 (c.declareGlobal d.name).place? d.init = [] := by
  obtain ⟨houter, hnew⟩ := hfresh d.name (by simp [Decl.globalNames])
  have hdef := h.tracks.isDefined_of_mem_outer houter
  have htracks := (h.tracks.global houter (h.unknown d.name hnew).1).1
  have hkeeps : Keeps s.symbols (s.noteGlobal d c.globals.length).symbols :=
    .modify s.symbols d.name fun _ => rfl
  have hresults' := fun f => (hkeeps.result? f).symm.trans (hresults f)
  simp only [Prod.exists, globalCode_eq_ok, hdef, true_and, h.globals]
  cases he : d.init with
  | none => simp [valueGaps]
  | some e =>
    rw [valueGaps, ← exprCode_ok_iff htracks hresults' (hinit e he) true]
    constructor
    · rintro ⟨code, _, rfl, ⟨hno, _⟩ | ⟨_, inner, hsame, hinner, _⟩⟩
      · cases hno
      · cases hsame
        exact ⟨inner, hinner⟩
    · rintro ⟨inner, hinner⟩
      exact ⟨_, _, rfl, .inr ⟨e, inner, rfl, hinner, rfl⟩⟩

lemma declCode_ok_iff {d : Decl} (hd : d.Each (Expr.Settled symbols0))
    (hfresh : ∀ x ∈ d.globalNames, x ∈ c.outer ∧ x ∉ names) :
    (∃ out, declCode a s d = .ok out) ↔ declGaps symbols0 c d = [] := by
  cases d with
  | func f =>
    rw [← funcCode_ok_iff h hresults hd hfresh, declCode]
    exact exists_bind_ok
  | var d =>
    obtain ⟨houter, _⟩ := hfresh d.name (by simp [Decl.globalNames])
    have hdef := h.tracks.isDefined_of_mem_outer houter
    rw [declGaps, varGaps, declCode, Context.afterDecl]
    cases hconst : d.isConst with
    | true =>
      rw [if_pos rfl, if_pos rfl, ← constantDecl_ok_iff hdef]
      exact exists_bind_ok
    | false =>
      rw [if_neg (by simp), if_neg (by simp), if_neg (by simp),
        ← globalCode_ok_iff h hresults hd hfresh]
      exact exists_bind_ok

end

lemma declsCode_ok_iff (ds : List Decl) : ∀ {names c a s}, Outermost names c a s →
    Pending names c ds → (∀ f, result? s.symbols f = result? symbols0 f) →
    (∀ d ∈ ds, d.Each (Expr.Settled symbols0)) →
    ((∃ out, declsCode a s ds = .ok out) ↔ declsGaps symbols0 c ds = []) := by
  induction ds with
  | nil =>
    intro names c a s _ _ _ _
    simp [declsCode, declsGaps]
  | cons d rest ih =>
    intro names c a s h hpend hresults hds
    obtain ⟨hd, hrest⟩ := forall_mem_cons.1 hds
    rw [declsGaps, append_eq_nil_iff, ← declCode_ok_iff h hresults hd hpend.head, declsCode]
    refine exists_bind_eq_ok ?_
    rintro ⟨a1, s1⟩ hcode
    have hkeeps := keeps_declCode hcode
    exact ih (h.declCode hpend.head hcode) hpend.tail
      (fun f => (hkeeps.result? f).symm.trans (hresults f)) hrest

end

/-! ## Programs -/

/-- A program that the analysis has accepted is assembled exactly if it has no gaps. -/
theorem assemble_iff_no_gaps {tokens : List Token} {p : Program} {symbols : Symbols}
    (hparsed : ofTokens tokens = .ok (p, symbols))
    (hchecked : (p.check symbols).outcome = .ok ()) :
    (∃ out, assemble symbols (p.check symbols).tree = .ok out) ↔
      programGaps symbols (p.check symbols).tree = [] := by
  have hp := ofTokens_parsed hparsed
  have hsettled := check_settled hp.formed hchecked
  have hresults : ∀ f, result? (GenState.start symbols).symbols f =
      result? symbols f := fun _ => rfl
  have hdecls := declsCode_ok_iff _ (Outermost.start hp) (Pending.start hp p.globalNames_check)
    hresults hsettled
  rw [programGaps, ← hdecls, assemble]
  exact exists_bind_ok

open Keyword in
/-- `fn main() { while 1 { if 1 { break; } } }`. -/
def breakUnderIf : List Token := mainWith
  [kwWhile, .int 1, leftBrace, kwIf, .int 1, leftBrace, kwBreak, semicolon, rightBrace, rightBrace]

/-- The analysis accepts `breakUnderIf`, but it has a gap, so there is no assembly of it. -/
theorem assemble_iff_no_gaps_breakUnderIf :
    ∃ p symbols, ofTokens breakUnderIf = .ok (p, symbols) ∧
      (p.check symbols).outcome = .ok () ∧
      programGaps symbols (p.check symbols).tree = [.leaveLoop] ∧
      ¬ ∃ out, assemble symbols (p.check symbols).tree = .ok out := by
  refine ⟨_, _, rfl, rfl, rfl, ?_⟩
  intro hassembled
  have hgaps := (assemble_iff_no_gaps (show ofTokens breakUnderIf = .ok (_, _) from rfl)
    rfl).1 hassembled
  cases hgaps

end ArmStudio.Code
