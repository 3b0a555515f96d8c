import ArmStudio.Proofs.LabelHygiene

/-!
# Returns of functions

The analysis of a program finds out whether statements surely return. What it says is a property of
the trees that it leaves, and of the code that is made of them.
-/

namespace ArmStudio.Script

mutual

/-- Whether a statement surely returns. Loops do not count, whatever is in them. -/
def Stmt.returns : Stmt → Bool
  | .ret _ => true
  | .ifElse _ yes no => bodyReturns yes && bodyReturns no
  | _ => false

def bodyReturns : List Stmt → Bool
  | [] => false
  | st :: rest => st.returns || bodyReturns rest

end

mutual

def Stmt.results : Stmt → List (Option Expr)
  | .ret value => [value]
  | .ifElse _ yes no => resultsIn yes ++ resultsIn no
  | .whileDo _ body => resultsIn body
  | .loop body => resultsIn body
  | _ => []

def resultsIn : List Stmt → List (Option Expr)
  | [] => []
  | st :: rest => st.results ++ resultsIn rest

end

/-- Returns have a value in a function with a result, and none in one without. -/
def ResultsFit (result : VarType) (values : List (Option Expr)) : Prop :=
  ∀ value ∈ values, value = none ↔ result = .void

lemma ResultsFit.append {result : VarType} {xs ys}
    (hx : ResultsFit result xs) (hy : ResultsFit result ys) : ResultsFit result (xs ++ ys) :=
  List.forall_mem_append.2 ⟨hx, hy⟩

lemma ResultsFit.nil {result : VarType} : ResultsFit result [] := by
  intro value hval
  cases hval

section

variable {symbols : Symbols} {result : VarType} {returns : Bool}

lemma checkReturn_returns {value} (h : (checkReturn symbols result value).outcome = .ok returns) :
    (checkReturn symbols result value).tree.returns = returns ∧
      ResultsFit result (checkReturn symbols result value).tree.results := by
  unfold checkReturn at h ⊢
  cases value with
  | none =>
    by_cases hvoid : result = .void
    · rw [if_pos hvoid] at h ⊢
      cases h
      simp [Stmt.returns, Stmt.results, ResultsFit, hvoid]
    · rw [if_neg hvoid] at h
      cases h
  | some e =>
    simp only at h ⊢
    by_cases hvoid : result = .void
    · rw [if_pos hvoid] at h
      cases h
    · rw [if_neg hvoid] at h ⊢
      obtain ⟨_, _, rfl⟩ := map_eq_ok.1 h
      simp [Stmt.returns, Stmt.results, ResultsFit, hvoid]

/-- What the analysis says of statements is what their trees show, and their returns fit the
result. -/
theorem Passed.returns_eq {inLoop : Bool} {body body'}
    (h : Passed symbols result inLoop body body' returns) :
    bodyReturns body' = returns ∧ ResultsFit result (resultsIn body') := by
  induction h with
  | nil => exact ⟨rfl, .nil⟩
  | cons _ _ ihst ihrest =>
    obtain ⟨rfl, hfit⟩ := ihst
    obtain ⟨rfl, hfits⟩ := ihrest
    simp only [resultsIn, List.append_nil] at hfit
    exact ⟨by simp [bodyReturns], hfit.append hfits⟩
  | ifElse _ _ _ ihyes ihno =>
    obtain ⟨rfl, hyes⟩ := ihyes
    obtain ⟨rfl, hno⟩ := ihno
    simpa [bodyReturns, Stmt.returns, resultsIn, Stmt.results] using hyes.append hno
  -- what a body surely does is dropped, since the loop may not be entered
  | whileDo _ _ ih | loop _ ih =>
    simpa [bodyReturns, Stmt.returns, resultsIn, Stmt.results] using ih.2
  | ret hval => simpa [bodyReturns, resultsIn] using checkReturn_returns hval
  | expr _ | decl _ | leaveLoop | blank => exact ⟨rfl, .nil⟩

/-- A function whose returns fit its result, and which surely returns if it has one. -/
structure FuncDecl.Returns (f : FuncDecl) : Prop where
  fit : ResultsFit f.returnType (resultsIn f.body)
  surely : f.returnType ≠ .void → bodyReturns f.body

lemma Program.check_returns {p : Program} (h : (p.check symbols).outcome = .ok ())
    {f : FuncDecl} (hf : .func f ∈ (p.check symbols).tree.decls) : f.Returns := by
  obtain ⟨htree, hpasses⟩ := Program.check_passes h
  rw [htree] at hf
  obtain ⟨d, hd, hfd⟩ := List.mem_map.1 hf
  have hpass := hpasses d hd
  cases d with
  | var d => cases hfd
  | func g =>
    cases hfd
    obtain ⟨returns, hsurely, hbody⟩ := passed_checkFunc hpass
    obtain ⟨rfl, hfit⟩ := hbody.returns_eq
    exact ⟨hfit, hsurely⟩

end

end ArmStudio.Script

namespace ArmStudio.Code

open Script List

/-! ## Returns in code -/

/-- Operations behind which a function does not go on. -/
def Opcode.leaves : Opcode → Bool
  | .ret | .ret0 | .halt => true
  | _ => false

/-- Operations that may go to a label of their function. -/
def Opcode.branches : Opcode → Bool
  | .jmp | .jz | .jnz => true
  | _ => false

def returnOp (result : VarType) : Opcode := if result = .void then .ret0 else .ret

/-- Code leaves the function only by the return that goes with its result. -/
def ReturnsBy (result : VarType) (code : List Instr) : Prop :=
  ∀ i ∈ code, i.op.leaves = true → i.op = returnOp result

namespace ReturnsBy

variable {result : VarType} {xs ys : List Instr}

lemma append (hx : ReturnsBy result xs) (hy : ReturnsBy result ys) : ReturnsBy result (xs ++ ys) :=
  forall_mem_append.2 ⟨hx, hy⟩

lemma cons {i : Instr} (hi : i.op.leaves = false) (hx : ReturnsBy result xs) :
    ReturnsBy result (i :: xs) := by
  refine forall_mem_cons.2 ⟨fun hleaves => ?_, hx⟩
  rw [hi] at hleaves
  cases hleaves

lemma nil : ReturnsBy result [] := by
  intro i hi
  cases hi

lemma single {i : Instr} (hi : i.op = returnOp result) : ReturnsBy result [i] :=
  forall_mem_singleton.2 fun _ => hi

end ReturnsBy

variable {P : String → Prop} {code : List Instr}

lemma CallsOnly.branches_leaves (h : CallsOnly P code) {i : Instr} (hi : i ∈ code) :
    i.op.branches = false ∧ i.op.leaves = false := by
  rcases h i hi with hstr | ⟨func, n, rfl, _⟩
  · cases hop : i.op <;> simp [hop, Opcode.isStraight, Opcode.branches, Opcode.leaves] at hstr ⊢
  · exact ⟨rfl, rfl⟩

lemma CallsOnly.returnsBy (h : CallsOnly P code) (result : VarType) : ReturnsBy result code := by
  intro i hi hleaves
  rw [(h.branches_leaves hi).2] at hleaves
  cases hleaves

section

variable {func : String} {result : VarType} {exit? : Option String} {index : Nat} {s s' : GenState}
  {body : List Stmt} {r : StmtCode} {f : FuncDecl}

lemma Coded.returnsBy (h : Coded func exit? index s body r s')
    (hfit : ResultsFit result (resultsIn body)) : ReturnsBy result r.code := by
  induction h with
  | nil | constant _ _ | declare _ _ _ => exact .nil
  | cons _ _ ihfirst ihrest =>
    obtain ⟨hst, hrest⟩ := forall_mem_append.1 hfit
    exact (ihfirst (by simpa [resultsIn, ResultsFit] using hst)).append (ihrest hrest)
  | expr hcode => exact (exprCode_callsOnly _ false _ hcode).returnsBy result
  | initialise _ _ _ hcode =>
    exact ((exprCode_callsOnly _ true _ hcode).returnsBy result).append (.cons rfl .nil)
  | ifElse htest _ _ ihyes ihno =>
    obtain ⟨hfityes, hfitno⟩ := forall_mem_append.1 (forall_mem_append.1 hfit).1
    have hcond := (exprCode_callsOnly _ true _ htest).returnsBy result
    exact ((((hcond.append (.cons rfl .nil)).append (ihyes hfityes)).append
      (.cons rfl (.cons rfl .nil))).append (ihno hfitno)).append (.cons rfl .nil)
  | whileDo htest _ ih =>
    have hcond := (exprCode_callsOnly _ true _ htest).returnsBy result
    exact ((hcond.append (.cons rfl .nil)).cons rfl).append
      (ih (forall_mem_append.1 hfit).1) |>.append (.cons rfl (.cons rfl .nil))
  | loop _ ih =>
    exact ((ReturnsBy.nil.cons rfl).append (ih (forall_mem_append.1 hfit).1)).append
      (.cons rfl (.cons rfl .nil))
  | ret0 =>
    have hval := hfit none (by simp [resultsIn, Stmt.results])
    exact .single (if_pos (hval.1 rfl)).symm
  | @ret _ _ _ e _ hcode =>
    have hval := hfit (some e) (by simp [resultsIn, Stmt.results])
    -- a value is returned only where the result asks for one
    have hres : result ≠ .void := fun hvoid => by cases hval.2 hvoid
    exact ((exprCode_callsOnly _ true _ hcode).returnsBy result).append
      (.single (if_neg hres).symm)
  | leaveLoop => exact .cons rfl .nil

lemma returnsBy_funcCode (hf : f.Returns) (h : funcCode f index s = .ok (r, s')) :
    ReturnsBy f.returnType r.code := by
  obtain ⟨body, s1, hbody, rfl, rfl⟩ := funcCode_eq_ok h
  have hcode : ReturnsBy f.returnType
      ([labelInstr f.name, ⟨.enter, [.u8 (.ofInt f.localCount)]⟩] ++ body.code) :=
    .cons rfl (.cons rfl ((coded_stmtsCode hbody).returnsBy hf.fit))
  unfold closeFunction
  split
  · rename_i hvoid
    exact hcode.append (.single (if_pos hvoid.1).symm)
  · exact hcode

lemma Coded.bodyReturns_of_getLast? (h : Coded func exit? index s body r s') {i : Instr}
    (hlast : r.code.getLast? = some i) (hi : i.op = .ret0) : bodyReturns body := by
  induction h with
  | nil => cases hlast
  | cons _ _ ihfirst ihrest =>
    rw [StmtCode.code_append, getLast?_append, Option.or_eq_some_iff] at hlast
    rw [bodyReturns, Bool.or_eq_true]
    rcases hlast with hlast | ⟨_, hlast⟩
    · exact .inr (ihrest hlast)
    -- all that follows is without code, so it is the statement itself that ends so
    · exact .inl (by simpa [bodyReturns] using ihfirst hlast)
  | expr hcode =>
    have hleaves := ((exprCode_callsOnly _ false _ hcode).branches_leaves
      (mem_of_getLast? hlast)).2
    rw [hi] at hleaves
    cases hleaves
  | ret | ret0 => rfl
  | constant | declare => cases hlast
  | leaveLoop =>
    cases hlast
    cases hi
  | initialise | ifElse =>
    simp only [StmtCode.code_append, StmtCode.code_ofCode, getLast?_concat,
      Option.some.injEq] at hlast
    subst hlast
    cases hi
  | whileDo | loop =>
    rw [StmtCode.code_append, getLast?_append] at hlast
    cases hlast
    cases hi

/-- What is put behind the body of a function that returns: a return, if the body need not. -/
theorem exists_closeFunction (hf : f.Returns) {body}
    (hbody : stmtsCode f.name none index s f.body = .ok (body, s')) {head}
    (hhead : ∀ i ∈ head, i.op ≠ .ret0) :
    ∃ close, closeFunction f.returnType (head ++ body.code) = head ++ body.code ++ close ∧
      (bodyReturns f.body = false → close = [.plain .ret0]) := by
  unfold closeFunction
  split
  · exact ⟨_, rfl, fun _ => rfl⟩
  · rename_i hnot
    refine ⟨[], (append_nil _).symm, fun hrets => absurd ⟨?_, fun hlast => ?_⟩ hnot⟩
    · by_contra hres
      rw [hf.surely hres] at hrets
      cases hrets
    · obtain ⟨i, hi, hop⟩ := Option.map_eq_some_iff.1 hlast
      rw [getLast?_append, Option.or_eq_some_iff] at hi
      rcases hi with hi | ⟨_, hi⟩
      · rw [(coded_stmtsCode hbody).bodyReturns_of_getLast? hi hop] at hrets
        cases hrets
      · exact hhead i (mem_of_getLast? hi) hop

end

end ArmStudio.Code
