import ArmStudio.Code.Assembly
import ArmStudio.Proofs.Attempts
import ArmStudio.Proofs.Trees

/-!
# Results of the assembler taken apart

For every form of expression and statement: what the assembler made on the way to its code.

* `bind_eq_ok`, `pure_eq_ok`, `mapError_eq_ok` — computations that may fail;
* `exists_bind_eq_ok` — when one that has two steps does not;
* `exprCode_unary` to `exprCode_sysCall` — expressions;
* `Coded`, `coded_stmtsCode` — the code of statements as a derivation, to reason by induction;
* `funcCode_eq_ok` to `declsCode_cons` — declarations of a program.
-/

namespace ArmStudio.Code

open Script Except

section

variable {ε ε' α β : Type} {x : Except ε α} {f : α → Except ε β} {a : α}

lemma bind_eq_ok {b : β} : (x >>= f) = .ok b ↔ ∃ a, x = .ok a ∧ f a = .ok b := by
  cases x <;> simp

lemma pure_eq_ok {b : α} : (pure a : Except ε α) = .ok b ↔ a = b := by simp

lemma mapError_eq_ok {f : ε → ε'} : x.mapError f = .ok a ↔ x = .ok a := by
  cases x <;> simp

lemma toOption_eq_some : x.toOption = some a ↔ x = .ok a := by
  cases x <;> simp

lemma exists_bind_eq_ok {p : Prop} (h : ∀ a, x = .ok a → ((∃ b, f a = .ok b) ↔ p)) :
    (∃ b, (x >>= f) = .ok b) ↔ (∃ a, x = .ok a) ∧ p := by
  cases x with
  | error e => simp
  | ok a => simpa using h a rfl

lemma exists_bind_ok {g : α → β} : (∃ b, (x >>= fun a => .ok (g a)) = .ok b) ↔ ∃ a, x = .ok a := by
  cases x <;> simp

lemma require_eq_ok {facet : Facet} {x} : require facet x = .ok a ↔ x = some a := by
  cases x <;> simp [require]

end

/-! ## Expressions -/

section

variable {storage : Storage} {symbols : Symbols} {wanted : Bool} {code : List Instr} {op : Keyword}
  {a b : Expr} {args : List Expr}

lemma exprCode_unary {e : Expr} (h : exprCode storage symbols wanted (.unary op e) = .ok code) :
    ∃ operand last, exprCode storage symbols true e = .ok operand ∧
      unaryCode symbols op e = .ok last ∧ code = operand ++ [last] ++ dropUnless wanted := by
  rw [exprCode] at h
  by_cases hop : op.isUnary = true
  · simp only [hop, if_true, bind_eq_ok, pure_eq_ok] at h
    obtain ⟨operand, hopnd, last, hlast, rfl⟩ := h
    exact ⟨operand, last, hopnd, hlast, rfl⟩
  · simp [hop] at h

example : exprCode .empty .empty true (.unary .minus (.literal (.int 1))) =
    .ok [literalCode (.int 1), .plain .ineg] := by
  cbv

lemma exprCode_as : exprCode storage symbols wanted (.binary .kwAs a b) = .ok code ↔
      ∃ target t, b = .typeName target ∧ typeOf symbols a = .ok t ∧ ((target = t ∧ code = []) ∨
          (target ≠ t ∧ ∃ operand, exprCode storage symbols true a = .ok operand ∧
            code = conversionCode target operand)) := by
  cases b with
  | typeName target =>
    simp only [exprCode, bind_eq_ok, mapError_eq_ok, Expr.typeName.injEq]
    constructor
    · rintro ⟨t, ht, hcode⟩
      refine ⟨target, t, rfl, ht, ?_⟩
      by_cases hsame : target = t
      · rw [if_pos hsame, pure_eq_ok] at hcode
        exact .inl ⟨hsame, hcode.symm⟩
      · simp only [hsame, if_false, bind_eq_ok, pure_eq_ok] at hcode
        rcases hcode with ⟨operand, hopnd, rfl⟩
        exact .inr ⟨hsame, operand, hopnd, rfl⟩
    · rintro ⟨_, t, rfl, ht, hcases⟩
      refine ⟨t, ht, ?_⟩
      rcases hcases with ⟨hsame, rfl⟩ | ⟨hdiff, operand, hopnd, rfl⟩
      · rw [if_pos hsame]
        rfl
      · rw [if_neg hdiff, hopnd]
        rfl
  | _ => simp [exprCode]

lemma exprCode_operator (hassign : op ≠ .assign) (has : op ≠ .kwAs) :
    exprCode storage symbols wanted (.binary op a b) = .ok code ↔
      (operatorCode? op).isSome ∧ ∃ left right lt rt last tail,
        exprCode storage symbols true a = .ok left ∧ exprCode storage symbols true b = .ok right ∧
        typeOf symbols a = .ok lt ∧ typeOf symbols b = .ok rt ∧ typedCode op lt rt = .ok last ∧
        (if op.isAssignment then assignCode storage symbols wanted a (.target a.mention)
          else .ok (dropUnless wanted)) = .ok tail ∧
        code = left ++ right ++ [last] ++ tail := by
  rw [exprCode]
  · by_cases hop : (operatorCode? op).isSome = true
    · simp only [hop, if_true, bind_eq_ok, mapError_eq_ok, true_and]
      constructor
      · rintro ⟨left, hleft, right, hright, lt, hlt, rt, hrt, last, hlast, htail⟩
        by_cases his : op.isAssignment = true
        · simp only [his, if_true, bind_eq_ok, pure_eq_ok] at htail
          rcases htail with ⟨tail, htail, rfl⟩
          exact ⟨left, right, lt, rt, last, tail, hleft, hright, hlt, hrt, hlast,
            by rw [if_pos his]; exact htail, rfl⟩
        · rw [if_neg his] at htail
          exact ⟨left, right, lt, rt, last, dropUnless wanted, hleft, hright, hlt, hrt, hlast,
            by rw [if_neg his], (pure_eq_ok.1 htail).symm⟩
      · rintro ⟨left, right, lt, rt, last, tail, hleft, hright, hlt, hrt, hlast, htail, rfl⟩
        refine ⟨left, hleft, right, hright, lt, hlt, rt, hrt, last, hlast, ?_⟩
        by_cases his : op.isAssignment = true
        · rw [if_pos his] at htail
          rw [if_pos his, htail]
          rfl
        · rw [if_neg his, ok.injEq] at htail
          rw [if_neg his, htail]
          rfl
    · simp [hop]
  · exact hassign
  · exact has

lemma exprCode_call {func} {symbol : Symbol} :
    exprCode storage symbols wanted (.call func symbol args) = .ok code ↔
      ∃ result inner, symbol.returnType = some result ∧ ¬ (result = .void ∧ wanted) ∧
        argsCode storage symbols args = .ok inner ∧
        code = inner ++ [⟨.call, [.label func none, .u8 (.ofInt args.length)]⟩] ++
          dropUnless wanted := by
  simp only [exprCode, bind_eq_ok, mapError_eq_ok, require_eq_ok]
  constructor
  · rintro ⟨result, hres, hcode⟩
    by_cases hvoid : result = .void ∧ wanted = true
    · simp [hvoid, throw, throwThe, MonadExceptOf.throw] at hcode
    · simp only [hvoid, if_false, bind_eq_ok, pure_eq_ok] at hcode
      rcases hcode with ⟨inner, hinner, rfl⟩
      exact ⟨result, inner, hres, hvoid, hinner, rfl⟩
  · rintro ⟨result, inner, hres, hvoid, hinner, rfl⟩
    refine ⟨result, hres, ?_⟩
    simp only [hvoid, if_false, bind_eq_ok, pure_eq_ok]
    exact ⟨inner, hinner, rfl⟩

lemma exprCode_sysCall {func} :
    exprCode storage symbols wanted (.sysCall func args) = .ok code ↔
      ¬ (func ≠ .readJoint ∧ wanted) ∧ ∃ inner op,
        argsCode storage symbols args = .ok inner ∧ callCode? func = some op ∧
        code = inner ++ (.plain op :: if func = .readJoint then dropUnless wanted else []) := by
  rw [exprCode]
  by_cases hvoid : func ≠ .readJoint ∧ wanted = true
  · simp [hvoid]
  · simp only [hvoid, if_false, bind_eq_ok, pure_eq_ok, not_false_eq_true, true_and]
    constructor
    · rintro ⟨inner, hinner, tail, htail, rfl⟩
      cases hop : callCode? func with
      | none => simp [callTail, hop] at htail
      | some op =>
        simp only [callTail, hop, ok.injEq] at htail
        exact ⟨inner, op, hinner, rfl, by rw [htail]⟩
    · rintro ⟨inner, op, hinner, hop, rfl⟩
      exact ⟨inner, hinner, _, by simp [callTail, hop], rfl⟩

end

/-! ## Statements -/

@[simp] lemma StmtCode.code_ofCode (code : List Instr) : (StmtCode.ofCode code).code = code := rfl

@[simp] lemma StmtCode.code_append (a b : StmtCode) : (a ++ b).code = a.code ++ b.code := rfl

section

variable {func : String} {exit? : Option String} {index : Nat} {s s' : GenState} {r : StmtCode}

lemma stmtCode_leaveLoop : stmtCode func exit? index s .leaveLoop = .ok (r, s') ↔
      ∃ exit, exit? = some exit ∧ r = .ofCode [jumpInstr .jmp exit] ∧ s' = s := by
  cases exit? with
  | none => simp [stmtCode]
  | some exit => simp [stmtCode, @eq_comm _ r, @eq_comm _ s']

example : stmtCode "main" none 0 (.start .empty) (.expr (.literal (.int 1))) =
    .ok (.ofCode [literalCode (.int 1), .plain .pop], .start .empty) := by
  cbv

lemma stmtCode_let {d} (h : d.isConst = false)
    (hcode : stmtCode func exit? index s (.decl d) = .ok (r, s')) :
    ∃ code, localDecl func d s = .ok (code, s') ∧ r = .ofCode code := by
  simp only [stmtCode, h, Bool.false_eq_true, if_false, bind_eq_ok, pure_eq_ok] at hcode
  obtain ⟨⟨code, s1⟩, hdecl, heq⟩ := hcode
  cases heq
  exact ⟨code, hdecl, rfl⟩

def GenState.declare (s : GenState) (func : String) (f : FunctionInfo) (d : VarDecl) : GenState :=
  let slot : Int := f.locals.size
  let f := { f with locals := f.locals.insert d.name ⟨d.type, slot⟩ }
  let info := { Symbol.ofVar d.type d.isConst with slot := some slot }
  { s with
    storage := { s.storage with functions := s.storage.functions.insert func f }
    symbols := (s.symbols.declareLocal d.name info).2 }

lemma localDecl_eq_ok {d code} (h : localDecl func d s = .ok (code, s')) :
    ∃ f, s.storage.functions.find? func = some f ∧ s' = s.declare func f d ∧
      ((d.init = none ∧ code = []) ∨ ∃ e inner, d.init = some e ∧ s'.exprCode true e = .ok inner ∧
        code = inner ++ [⟨.storl, [.u8 (.ofInt f.locals.size)]⟩]) := by
  unfold localDecl at h
  cases hf : s.storage.functions.find? func with
  | none => simp [hf] at h
  | some f =>
    simp only [hf] at h
    cases hinit : d.init with
    | none =>
      simp only [hinit, pure_eq_ok, Prod.mk.injEq] at h
      obtain ⟨rfl, rfl⟩ := h
      exact ⟨f, rfl, rfl, .inl ⟨rfl, rfl⟩⟩
    | some e =>
      simp only [hinit, bind_eq_ok, pure_eq_ok, Prod.mk.injEq] at h
      obtain ⟨inner, hinner, rfl, rfl⟩ := h
      exact ⟨f, rfl, rfl, .inr ⟨e, inner, rfl, hinner, rfl⟩⟩

end

/-- How the code of statements is put together, between the assembler in front of them and behind
them. One statement is a list of one. -/
inductive Coded (func : String) :
    Option String → Nat → GenState → List Stmt → StmtCode → GenState → Prop
  | nil {exit? index s} : Coded func exit? index s [] .empty s
  | cons {exit? index s s1 s2 st rest first others}
      (hfirst : Coded func exit? index s [st] first s1)
      (hrest : Coded func exit? (index + first.constants.length) s1 rest others s2) :
      Coded func exit? index s (st :: rest) (first ++ others) s2
  | expr {exit? index s e code} (hcode : GenState.exprCode s false e = .ok code) :
      Coded func exit? index s [.expr e] (.ofCode code) s
  | ret {exit? index s e code} (hcode : GenState.exprCode s true e = .ok code) :
      Coded func exit? index s [.ret (some e)] (.ofCode (code ++ [.plain .ret])) s
  | ret0 {exit? index s} : Coded func exit? index s [.ret none] (.ofCode [.plain .ret0]) s
  | leaveLoop {exit index s} :
      Coded func (some exit) index s [.leaveLoop] (.ofCode [jumpInstr .jmp exit]) s
  | constant {exit? index s s' d v} (hconst : VarDecl.isConst d)
      (hdecl : constantDecl d index s = .ok (v, s')) :
      Coded func exit? index s [.decl d] ⟨[], [v]⟩ s'
  | declare {exit? index s d f} (hconst : VarDecl.isConst d = false)
      (hf : s.storage.functions.find? func = some f) (hinit : d.init = none) :
      Coded func exit? index s [.decl d] (.ofCode []) (s.declare func f d)
  | initialise {exit? index s d f e code} (hconst : VarDecl.isConst d = false)
      (hf : s.storage.functions.find? func = some f) (hinit : d.init = some e)
      (hcode : (s.declare func f d).exprCode true e = .ok code) :
      Coded func exit? index s [.decl d]
        (.ofCode (code ++ [⟨.storl, [.u8 (.ofInt f.locals.size)]⟩])) (s.declare func f d)
  | ifElse {exit? index s s1 s2 cond yes no test yesCode noCode}
      (htest : GenState.exprCode s true cond = .ok test)
      (hyes : Coded func none index ((s.label "_if_else").2.label "_if_end").2.enter yes yesCode s1)
      (hno : Coded func none (index + yesCode.constants.length) s1.leave.enter no noCode s2) :
      Coded func exit? index s [.ifElse cond yes no]
        (.ofCode (test ++ [jumpInstr .jz (s.label "_if_else").1]) ++ yesCode ++
          .ofCode [jumpInstr .jmp ((s.label "_if_else").2.label "_if_end").1,
            labelInstr (s.label "_if_else").1] ++ noCode ++
          .ofCode [labelInstr ((s.label "_if_else").2.label "_if_end").1]) s2.leave
  | whileDo {exit? index s s1 cond body test inner}
      (htest : ((s.label "_while_end").2.label "_while_begin").2.exprCode true cond = .ok test)
      (hbody : Coded func (some (s.label "_while_end").1) index
        ((s.label "_while_end").2.label "_while_begin").2.enter body inner s1) :
      Coded func exit? index s [.whileDo cond body]
        (.ofCode (labelInstr ((s.label "_while_end").2.label "_while_begin").1 :: test ++
            [jumpInstr .jz (s.label "_while_end").1]) ++ inner ++
          .ofCode [jumpInstr .jmp ((s.label "_while_end").2.label "_while_begin").1,
            labelInstr (s.label "_while_end").1]) s1.leave
  | loop {exit? index s s1 body inner}
      (hbody : Coded func (some ((s.label "_loop_begin").2.label "_loop_end").1) index
        ((s.label "_loop_begin").2.label "_loop_end").2.enter body inner s1) :
      Coded func exit? index s [.loop body]
        (.ofCode [labelInstr (s.label "_loop_begin").1] ++ inner ++
          .ofCode [jumpInstr .jmp (s.label "_loop_begin").1,
            labelInstr ((s.label "_loop_begin").2.label "_loop_end").1]) s1.leave

section

variable {func : String} {exit? : Option String} {index : Nat} {s s' : GenState} {r : StmtCode}
  {body : List Stmt}

lemma coded_stmtsCode_of
    (hbody : ∀ st ∈ body, ∀ {exit? index s s' r}, stmtCode func exit? index s st = .ok (r, s') →
      Coded func exit? index s [st] r s') (h : stmtsCode func exit? index s body = .ok (r, s')) :
    Coded func exit? index s body r s' := by
  induction body generalizing index s r with
  | nil =>
    simp only [stmtsCode, ok.injEq, Prod.mk.injEq] at h
    obtain ⟨rfl, rfl⟩ := h
    exact .nil
  | cons st rest ih =>
    simp only [stmtsCode, bind_eq_ok, pure_eq_ok] at h
    obtain ⟨⟨first, s1⟩, hfirst, ⟨others, s2⟩, hothers, heq⟩ := h
    cases heq
    exact .cons (hbody st (by simp) hfirst)
      (ih (fun st' hst' => hbody st' (by simp [hst'])) hothers)

lemma coded_stmtCode (st : Stmt) (h : stmtCode func exit? index s st = .ok (r, s')) :
    Coded func exit? index s [st] r s' := by
  induction st generalizing exit? index s r s' with
  | expr e =>
    simp only [stmtCode, bind_eq_ok, pure_eq_ok] at h
    obtain ⟨code, hcode, heq⟩ := h
    cases heq
    exact .expr hcode
  | decl d =>
    cases hconst : d.isConst with
    | true =>
      simp only [stmtCode, hconst, if_true, bind_eq_ok, pure_eq_ok] at h
      obtain ⟨⟨v, s1⟩, hdecl, heq⟩ := h
      cases heq
      exact .constant hconst hdecl
    | false =>
      obtain ⟨code, hdecl, rfl⟩ := stmtCode_let hconst h
      obtain ⟨f, hf, rfl, ⟨hinit, rfl⟩ | ⟨e, inner, hinit, hinner, rfl⟩⟩ := localDecl_eq_ok hdecl
      · exact .declare hconst hf hinit
      · exact .initialise hconst hf hinit hinner
  | ifElse cond yes no ihyes ihno =>
    simp only [stmtCode, bind_eq_ok, pure_eq_ok] at h
    obtain ⟨test, htest, ⟨yesCode, s1⟩, hyes, ⟨noCode, s2⟩, hno, heq⟩ := h
    cases heq
    exact .ifElse htest (coded_stmtsCode_of ihyes hyes) (coded_stmtsCode_of ihno hno)
  | whileDo cond body ih =>
    simp only [stmtCode, bind_eq_ok, pure_eq_ok] at h
    obtain ⟨test, htest, ⟨inner, s1⟩, hbody, heq⟩ := h
    cases heq
    exact .whileDo htest (coded_stmtsCode_of ih hbody)
  | loop body ih =>
    simp only [stmtCode, bind_eq_ok, pure_eq_ok] at h
    obtain ⟨⟨inner, s1⟩, hbody, heq⟩ := h
    cases heq
    exact .loop (coded_stmtsCode_of ih hbody)
  | ret value =>
    cases value with
    | none =>
      simp only [stmtCode, ok.injEq] at h
      cases h
      exact .ret0
    | some e =>
      simp only [stmtCode, bind_eq_ok, pure_eq_ok] at h
      obtain ⟨code, hcode, heq⟩ := h
      cases heq
      exact .ret hcode
  | leaveLoop =>
    obtain ⟨exit, rfl, rfl, rfl⟩ := stmtCode_leaveLoop.1 h
    exact .leaveLoop
  | blank => simp [stmtCode] at h

lemma coded_stmtsCode (h : stmtsCode func exit? index s body = .ok (r, s')) :
    Coded func exit? index s body r s' :=
  coded_stmtsCode_of (fun st _ => coded_stmtCode st) h

end

/-! ## Declarations of a program -/

section

variable {s s' : GenState}

def funcStart (f : FuncDecl) (s : GenState) : GenState :=
  let inside := declareParams 0 f.params ⟨f.returnType, f.localCount, .empty, f.params.length⟩
    s.symbols.enter
  ⟨s.labels.create f.name,
    { s.storage with functions := s.storage.functions.insert f.name inside.1 }, inside.2⟩

variable {f : FuncDecl} {index : Nat} {d : VarDecl} {a a' : Assembly}

lemma funcCode_eq_ok {r} (h : funcCode f index s = .ok (r, s')) :
    ∃ body s1, stmtsCode f.name none index (funcStart f s) f.body = .ok (body, s1) ∧
      r = ⟨closeFunction f.returnType
        ([labelInstr f.name, ⟨.enter, [.u8 (.ofInt f.localCount)]⟩] ++ body.code),
        body.constants⟩ ∧
      s' = s1.leave := by
  simp only [funcCode, bind_eq_ok, pure_eq_ok] at h
  obtain ⟨⟨body, s1⟩, hbody, heq⟩ := h
  cases heq
  exact ⟨body, s1, hbody, rfl, rfl⟩

def GenState.noteConstant (s : GenState) (d : VarDecl) (v : Value) (index : Nat) : GenState :=
  { s with
    storage := { s.storage with constants := s.storage.constants.insert d.name ⟨d.type, v, index⟩ }
    symbols := s.symbols.modify d.name fun i => { i with slot := some (index : Int) } }

lemma constantDecl_eq_ok {v : Value} : constantDecl d index s = .ok (v, s') ↔
      d.init = some (.literal v) ∧ s.symbols.isDefined d.name ∧ s' = s.noteConstant d v index := by
  unfold constantDecl
  split
  · rename_i w hinit
    simp only [bind_eq_ok, pure_eq_ok, Prod.mk.injEq, GenState.setSlot, hinit, Option.some.injEq,
      Expr.literal.injEq, Scopes.isDefined]
    cases hlookup : s.symbols.lookup? d.name with
    | none => simp
    | some symbol =>
      simp only [ok.injEq, exists_eq_left', Option.isSome_some, true_and]
      constructor <;>
        · rintro ⟨rfl, rfl⟩
          exact ⟨rfl, rfl⟩
  · rename_i hinit
    simp only [reduceCtorEq, false_iff, not_and]
    intro h
    exact absurd h (hinit v)

def GenState.noteGlobal (s : GenState) (d : VarDecl) (slot : Int) : GenState := { s with
    storage := { s.storage with globals := s.storage.globals.insert d.name ⟨d.type, slot⟩ }
    symbols := s.symbols.modify d.name fun i => { i with slot := some slot } }

lemma globalCode_eq_ok {slot : Int} {code} : globalCode d slot s = .ok (code, s') ↔
      s.symbols.isDefined d.name ∧ s' = s.noteGlobal d slot ∧
        ((d.init = none ∧ code = []) ∨ ∃ e inner, d.init = some e ∧
          s'.exprCode true e = .ok inner ∧ code = inner ++ [⟨.storg, [.u16 (.ofInt slot)]⟩]) := by
  unfold globalCode
  simp only [GenState.setSlot, Scopes.isDefined]
  cases hlookup : s.symbols.lookup? d.name with
  | none => simp
  | some symbol =>
    cases hinit : d.init with
    | none =>
      simp only [bind_eq_ok, pure_eq_ok, Prod.mk.injEq, ok.injEq, exists_eq_left']
      constructor
      · rintro ⟨rfl, rfl⟩
        exact ⟨rfl, rfl, .inl ⟨trivial, rfl⟩⟩
      · rintro ⟨_, rfl, ⟨_, rfl⟩ | ⟨_, _, hnone, _⟩⟩
        · exact ⟨rfl, rfl⟩
        · cases hnone
    | some e =>
      simp only [bind_eq_ok, pure_eq_ok, Prod.mk.injEq, ok.injEq, exists_eq_left']
      constructor
      · rintro ⟨inner, hinner, rfl, rfl⟩
        exact ⟨rfl, rfl, .inr ⟨e, inner, rfl, hinner, rfl⟩⟩
      · rintro ⟨_, rfl, ⟨hnone, _⟩ | ⟨_, inner, he, hinner, rfl⟩⟩
        · cases hnone
        · cases he
          exact ⟨inner, hinner, rfl, rfl⟩

lemma declCode_func (h : declCode a s (.func f) = .ok (a', s')) :
    ∃ r, funcCode f a.constants.length s = .ok (r, s') ∧
      a' = { a with code := a.code ++ r.code, constants := a.constants ++ r.constants } := by
  simp only [declCode, bind_eq_ok, pure_eq_ok] at h
  obtain ⟨⟨r, s1⟩, hr, heq⟩ := h
  cases heq
  exact ⟨r, hr, rfl⟩

lemma declCode_const (hd : d.isConst) (h : declCode a s (.var d) = .ok (a', s')) :
    ∃ v, constantDecl d a.constants.length s = .ok (v, s') ∧
      a' = { a with constants := a.constants ++ [v] } := by
  simp only [declCode, hd, if_true, bind_eq_ok, pure_eq_ok] at h
  obtain ⟨⟨v, s1⟩, hv, heq⟩ := h
  cases heq
  exact ⟨v, hv, rfl⟩

lemma declCode_global (hd : d.isConst = false) (h : declCode a s (.var d) = .ok (a', s')) :
    ∃ code, globalCode d a.globalSize s = .ok (code, s') ∧
      a' = { a with startUp := a.startUp ++ code, globalSize := a.globalSize + 1 } := by
  simp only [declCode, hd, Bool.false_eq_true, if_false, bind_eq_ok, pure_eq_ok] at h
  obtain ⟨⟨code, s1⟩, hcode, heq⟩ := h
  cases heq
  exact ⟨code, hcode, rfl⟩

lemma declsCode_cons {d : Decl} {rest} : declsCode a s (d :: rest) = .ok (a', s') ↔
      ∃ a1 s1, declCode a s d = .ok (a1, s1) ∧ declsCode a1 s1 rest = .ok (a', s') := by
  simp only [declsCode, bind_eq_ok]
  constructor
  · rintro ⟨⟨a1, s1⟩, hd, hrest⟩
    exact ⟨a1, s1, hd, hrest⟩
  · rintro ⟨a1, s1, hd, hrest⟩
    exact ⟨(a1, s1), hd, hrest⟩

end

end ArmStudio.Code
