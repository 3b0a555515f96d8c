import ArmStudio.Proofs.Assembling
import ArmStudio.Proofs.StackMoves

/-!
# The shapes of the code of expressions
-/

namespace ArmStudio.Code

open Script

/-- An operation that goes on behind its operands and leaves `d` words more than it takes. -/
structure Instr.Straight (d : Int) (i : Instr) : Prop where
  straight : i.op.isStraight
  width : argsWidth i.args = i.op.operandBytes
  balance : i.op.balance = d

/-- An operation on words of the stack that leaves `d` words more than it takes. -/
structure Instr.Computes (d : Int) (i : Instr) : Prop extends i.Straight d where
  bare : i.args = []

section

variable {storage : Storage} {symbols : Symbols} {name : String} {i : Instr} {op : Keyword}

lemma straight_loadVar (h : loadVar storage symbols name = .ok i) : i.Straight 1 := by
  unfold loadVar at h
  split at h
  · cases h
    exact ⟨rfl, rfl, rfl⟩
  · cases h
    exact ⟨rfl, rfl, rfl⟩
  · obtain ⟨slot, _, hi⟩ := bind_eq_ok.1 h
    cases hi
    exact ⟨rfl, rfl, rfl⟩

lemma straight_storeVar (h : storeVar storage symbols name = .ok i) : i.Straight (-1) := by
  unfold storeVar at h
  split at h
  · cases h
    exact ⟨rfl, rfl, rfl⟩
  · obtain ⟨slot, _, hi⟩ := bind_eq_ok.1 h
    cases hi
    exact ⟨rfl, rfl, rfl⟩

lemma straight_literalCode (v : Value) : (literalCode v).Straight 1 := by
  cases v <;> exact ⟨rfl, rfl, rfl⟩

lemma assignCode_eq_ok {wanted : Bool} {left : Expr} {onOther code}
    (h : assignCode storage symbols wanted left onOther = .ok code) :
    ∃ name symbol store more, left = .var name symbol ∧ storeVar storage symbols name = .ok store ∧
      code = store :: more ∧ ((wanted = false ∧ more = []) ∨
        wanted ∧ ∃ load, loadVar storage symbols name = .ok load ∧ more = [load]) := by
  cases left with
  | var name symbol =>
    obtain ⟨store, hstore, hrest⟩ := bind_eq_ok.1 h
    cases wanted with
    | false =>
      cases hrest
      exact ⟨name, symbol, store, [], rfl, hstore, rfl, .inl ⟨rfl, rfl⟩⟩
    | true =>
      obtain ⟨load, hload, hcode⟩ := bind_eq_ok.1 hrest
      cases hcode
      exact ⟨name, symbol, store, [load], rfl, hstore, rfl, .inr ⟨rfl, load, hload, rfl⟩⟩
  | _ => cases h

lemma computes_unaryCode {e : Expr} (h : unaryCode symbols op e = .ok i) :
    i.Computes (-if op = .bitNot then 1 else 0) := by
  cases op with
  | minus =>
    obtain ⟨t, _, hi⟩ := bind_eq_ok.1 h
    cases hi
    cases t <;> exact ⟨⟨rfl, rfl, rfl⟩, rfl⟩
  | logicalNot | bitNot =>
    cases h
    exact ⟨⟨rfl, rfl, rfl⟩, rfl⟩
  | _ => cases h

lemma computes_typedCode {lt rt : VarType} (h : typedCode op lt rt = .ok i) : i.Computes (-1) := by
  unfold typedCode at h
  split at h
  · cases h
  · rename_i onInt onFloat? hop
    have hboth : ∀ o ∈ onInt :: onFloat?.toList, (Instr.plain o).Computes (-1) := by
      intro o ho
      have hfacts : o.isStraight = true ∧ 0 = o.operandBytes ∧ o.balance = -1 := by
        cases op <;> cases hop <;> revert o <;> decide
      exact ⟨⟨hfacts.1, hfacts.2.1, hfacts.2.2⟩, rfl⟩
    split at h <;> cases h <;> exact hboth _ (by simp)

lemma computes_callCode {func op} (h : callCode? func = some op) :
    (Instr.plain op).Computes
      ((if func = .readJoint then 1 else 0) - func.callParams.length) := by
  have hop : op.isStraight = true ∧ 0 = op.operandBytes ∧
      op.balance = (if func = .readJoint then 1 else 0) - func.callParams.length := by
    cases func <;> cases h <;> decide
  exact ⟨⟨hop.1, hop.2.1, hop.2.2⟩, rfl⟩

end

/-! ## Expressions -/

section

variable (storage : Storage) (symbols : Symbols)

/-- The code that expressions have, wanted or not; arguments are all wanted. -/
inductive ExprCoded : Bool → List Expr → List Instr → Prop
  | nil : ExprCoded true [] []
  | cons {a rest first others} (ha : ExprCoded true [a] first)
      (hrest : ExprCoded true rest others) :
      ExprCoded true (a :: rest) (first ++ others)
  | literal {w v} : ExprCoded w [.literal v] (literalCode v :: dropUnless w)
  | hole {w} : ExprCoded w [.hole] (⟨.immf, [.f32 .nothing]⟩ :: dropUnless w)
  | blank {w} : ExprCoded w [.blank] []
  | typeName {w t} : ExprCoded w [.typeName t] []
  | var {w name symbol load} (hload : loadVar storage symbols name = .ok load) :
      ExprCoded w [.var name symbol] (load :: dropUnless w)
  | unary {w op e operand last} (he : ExprCoded true [e] operand)
      (hlast : last.Computes (-if op = .bitNot then 1 else 0)) :
      ExprCoded w [.unary op e] (operand ++ last :: dropUnless w)
  | assign {w a b right tail onOther} (hb : ExprCoded true [b] right)
      (htail : assignCode storage symbols w a onOther = .ok tail) :
      ExprCoded w [.binary .assign a b] (right ++ tail)
  | same {w a t} (ht : typeOf symbols a = .ok t) : ExprCoded w [.binary .kwAs a (.typeName t)] []
  | convert {w a t target operand} (ht : typeOf symbols a = .ok t) (hne : target ≠ t)
      (ha : ExprCoded true [a] operand) :
      ExprCoded w [.binary .kwAs a (.typeName target)] (conversionCode target operand)
  | operator {w op a b left right last} (hassign : op ≠ .assign) (hcast : op ≠ .kwAs)
      (hop : op.isAssignment = false) (ha : ExprCoded true [a] left) (hb : ExprCoded true [b] right)
      (hlast : last.Computes (-1)) :
      ExprCoded w [.binary op a b] (left ++ right ++ last :: dropUnless w)
  | update {w op a b left right last tail onOther} (hassign : op ≠ .assign) (hcast : op ≠ .kwAs)
      (hop : op.isAssignment) (ha : ExprCoded true [a] left) (hb : ExprCoded true [b] right)
      (hlast : last.Computes (-1)) (htail : assignCode storage symbols w a onOther = .ok tail) :
      ExprCoded w [.binary op a b] (left ++ right ++ last :: tail)
  | call {w func symbol args inner} (hargs : ExprCoded true args inner) :
      ExprCoded w [.call func symbol args]
        (inner ++ ⟨.call, [.label func none, .u8 (.ofInt args.length)]⟩ :: dropUnless w)
  | read {w args inner op} (hargs : ExprCoded true args inner)
      (hop : callCode? .readJoint = some op) :
      ExprCoded w [.sysCall .readJoint args] (inner ++ .plain op :: dropUnless w)
  | sysCall {func args inner op} (hfunc : func ≠ .readJoint) (hargs : ExprCoded true args inner)
      (hop : callCode? func = some op) :
      ExprCoded false [.sysCall func args] (inner ++ [.plain op])

end

variable {storage : Storage} {symbols : Symbols}

lemma exprCoded_args {args}
    (hargs : ∀ a ∈ args, ∀ {wanted code}, exprCode storage symbols wanted a = .ok code →
      ExprCoded storage symbols wanted [a] code) {code}
    (h : argsCode storage symbols args = .ok code) : ExprCoded storage symbols true args code := by
  induction args generalizing code with
  | nil =>
    cases h
    exact .nil
  | cons a rest ih =>
    simp only [argsCode, bind_eq_ok, pure_eq_ok] at h
    obtain ⟨first, hfirst, others, hothers, rfl⟩ := h
    exact .cons (hargs a (by simp) hfirst)
      (ih (fun b hb => hargs b (by simp [hb])) hothers)

lemma exprCoded (e : Expr) {wanted : Bool} {code}
    (h : exprCode storage symbols wanted e = .ok code) :
    ExprCoded storage symbols wanted [e] code := by
  induction e generalizing wanted code with
  | literal v =>
    cases h
    exact .literal
  | hole =>
    cases h
    exact .hole
  | blank =>
    cases h
    exact .blank
  | typeName t =>
    cases h
    exact .typeName
  | var name symbol =>
    simp only [exprCode, bind_eq_ok, pure_eq_ok] at h
    obtain ⟨load, hload, rfl⟩ := h
    exact .var hload
  | unary op e ih =>
    obtain ⟨operand, last, hopnd, hlast, rfl⟩ := exprCode_unary h
    rw [List.append_assoc]
    exact .unary (ih hopnd) (computes_unaryCode hlast)
  | binary op a b iha ihb =>
    by_cases hassign : op = .assign
    · subst hassign
      simp only [exprCode, bind_eq_ok, pure_eq_ok] at h
      obtain ⟨right, hright, tail, htail, rfl⟩ := h
      exact .assign (ihb hright) htail
    by_cases hcast : op = .kwAs
    · subst hcast
      obtain ⟨target, t, rfl, ht, ⟨rfl, rfl⟩ | ⟨hne, operand, ha, rfl⟩⟩ := exprCode_as.1 h
      · exact .same ht
      · exact .convert ht hne (iha ha)
    · obtain ⟨_, left, right, lt, rt, last, tail, ha, hb, _, _, hlast, htail, rfl⟩ :=
        (exprCode_operator hassign hcast).1 h
      have hcomputes := computes_typedCode hlast
      rw [List.append_assoc (left ++ right)]
      cases hop : op.isAssignment with
      | true =>
        rw [hop, if_pos rfl] at htail
        exact .update hassign hcast hop (iha ha) (ihb hb) hcomputes htail
      | false =>
        rw [hop, if_neg Bool.false_ne_true] at htail
        cases htail
        exact .operator hassign hcast hop (iha ha) (ihb hb) hcomputes
  | call func symbol args ih =>
    obtain ⟨result, inner, _, _, hinner, rfl⟩ := exprCode_call.1 h
    rw [List.append_assoc]
    exact .call (exprCoded_args ih hinner)
  | sysCall func args ih =>
    obtain ⟨hwanted, inner, op, hinner, hop, rfl⟩ := exprCode_sysCall.1 h
    by_cases hread : func = .readJoint
    · subst hread
      exact .read (exprCoded_args ih hinner) hop
    · cases wanted with
      | true => exact absurd ⟨hread, rfl⟩ hwanted
      | false =>
        rw [if_neg hread]
        exact .sysCall hread (exprCoded_args ih hinner) hop

end ArmStudio.Code
