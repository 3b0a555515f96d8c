import ArmStudio.Proofs.Results

/-!
# Words that statements leave on the stack

The code of an expression should leave one word where its result is wanted and none where it is not.
It does not always: a conversion keeps its result, a conversion to the operand's own type has no
code at all, the complement takes two words, and a call drops a result also where there is none.
-/

namespace ArmStudio.Code

open Script List

def isOfType (symbols : Symbols) (e : Expr) (t : VarType) : Bool :=
  match typeOf symbols e with
  | .ok t' => decide (t' = t)
  | .error _ => false

lemma isOfType_iff {symbols} {e : Expr} {t : VarType} :
    isOfType symbols e t = true ↔ typeOf symbols e = .ok t := by
  cases h : typeOf symbols e <;> simp [isOfType, h]

mutual

/-- The words that the code of an expression leaves beyond one where its result is wanted, and
beyond none where it is not. -/
def excess (symbols : Symbols) (valued : String → Bool) : Bool → Expr → Int
  | _, .literal _ | _, .hole | _, .var .. => 0
  | wanted, .typeName _ | wanted, .blank => if wanted then -1 else 0
  | _, .unary op e => excess symbols valued true e - if op = .bitNot then 1 else 0
  | _, .binary .assign _ b => excess symbols valued true b
  | wanted, .binary .kwAs a b =>
    match b with
    | .typeName target =>
      if isOfType symbols a target then if wanted then -1 else 0
      else excess symbols valued true a + if wanted then 0 else 1
    | _ => 0
  | _, .binary _ a b => excess symbols valued true a + excess symbols valued true b
  -- The number of arguments is passed in one byte.
  | _, .call func _ args =>
    argsExcess symbols valued args + (args.length - args.length % 256) -
      if valued func then 0 else 1
  | _, .sysCall func args => argsExcess symbols valued args + args.length - func.callParams.length

/-- The words that the code of arguments leaves beyond one for each. -/
def argsExcess (symbols : Symbols) (valued : String → Bool) : List Expr → Int
  | [] => 0
  | a :: rest => excess symbols valued true a + argsExcess symbols valued rest

end

lemma excess_congr {symbols symbols'} (valued : String → Bool)
    (h : ∀ f, Symbols.result? symbols f = Symbols.result? symbols' f) (wanted : Bool) (e : Expr) :
    excess symbols valued wanted e = excess symbols' valued wanted e := by
  have hargs : ∀ args : List Expr,
      (∀ a ∈ args, ∀ wanted, excess symbols valued wanted a = excess symbols' valued wanted a) →
      argsExcess symbols valued args = argsExcess symbols' valued args := by
    intro args hall
    induction args with
    | nil => rfl
    | cons a rest ih =>
      rw [argsExcess, argsExcess, hall a (by simp), ih fun b hb => hall b (by simp [hb])]
  induction e generalizing wanted with
  | literal | hole | blank | typeName | var => rfl
  | unary op e ih => rw [excess, excess, ih]
  | binary op a b iha ihb =>
    have htype : ∀ t, isOfType symbols a t = isOfType symbols' a t := fun t => by
      rw [Bool.eq_iff_iff, isOfType_iff, isOfType_iff, typeOf_congr h]
    cases op with
    | assign => simp only [excess, ihb]
    | kwAs => cases b <;> simp only [excess, iha, htype]
    | _ => simp only [excess, iha, ihb]
  | call _ _ _ ih | sysCall _ _ ih => rw [excess, excess, hargs _ ih]

/-- Code of operations and calls that leaves `d` words more than it takes. -/
inductive Parts (valued : String → Bool) : List Instr → Int → Prop
  | nil : Parts valued [] 0
  | op {i : Instr} {rest : List Instr} {d : Int} (hstr : i.op.isStraight)
      (hwidth : argsWidth i.args = i.op.operandBytes) (h : Parts valued rest d) :
      Parts valued (i :: rest) (i.op.balance + d)
  | call {func : String} {n : Nat} {rest : List Instr} {d : Int} (h : Parts valued rest d) :
      Parts valued (⟨.call, [.label func none, .u8 (.ofInt n)]⟩ :: rest)
        ((if valued func then 1 else 0) - ((n % 256 : Nat) : Int) + d)

namespace Parts

variable {valued : String → Bool} {xs ys : List Instr} {d d' : Int}

lemma append (hx : Parts valued xs d) (hy : Parts valued ys d') :
    Parts valued (xs ++ ys) (d + d') := by
  induction hx with
  | nil => simpa using hy
  | op hstr hwidth _ ih => rw [Int.add_assoc]; exact .op hstr hwidth ih
  | call _ ih => rw [Int.add_assoc]; exact .call ih

lemma of_eq (h : Parts valued xs d) (hd : d = d') : Parts valued xs d' := hd ▸ h

lemma single {i : Instr} (hstr : i.op.isStraight)
    (hwidth : argsWidth i.args = i.op.operandBytes) : Parts valued [i] i.op.balance := by
  simpa using Parts.op hstr hwidth (.nil : Parts valued [] 0)

end Parts

/-! ## What the code of an expression leaves -/

section

variable {valued : String → Bool} {storage : Storage} {symbols : Symbols} {code : List Instr}
  {wanted : Bool}

/-- The words that the code of an expression should leave. -/
def nominal (wanted : Bool) : Int := if wanted then 1 else 0

@[simp] lemma nominal_true : nominal true = 1 := rfl

lemma parts_dropUnless (wanted : Bool) : Parts valued (dropUnless wanted) (nominal wanted - 1) := by
  cases wanted with
  | true => exact .nil
  | false => exact .single rfl rfl

lemma Parts.cons {i : Instr} {d d' : Int} (hi : i.Straight d) (h : Parts valued code d') :
    Parts valued (i :: code) (d + d') :=
  hi.balance ▸ .op hi.straight hi.width h

lemma parts_assignCode {left : Expr} {onOther}
    (h : assignCode storage symbols wanted left onOther = .ok code) :
    Parts valued code (nominal wanted - 1) := by
  obtain ⟨_, _, store, more, _, hstore, rfl, ⟨rfl, rfl⟩ | ⟨rfl, load, hload, rfl⟩⟩ :=
    assignCode_eq_ok h
  · exact .cons (straight_storeVar hstore) .nil
  · exact .cons (straight_storeVar hstore) (.cons (straight_loadVar hload) .nil)

lemma parts_conversionCode {target : VarType} {operand} {d : Int}
    (h : Parts valued operand d) : Parts valued (conversionCode target operand) d := by
  have hsame : ∀ {i : Instr}, Parts valued [i] 0 → Parts valued (operand ++ [i]) d := fun hi =>
    (h.append hi).of_eq (by simp)
  cases target with
  | int | float => exact hsame (.single rfl rfl)
  | _ => exact h

/-- The words that the code of expressions leaves. -/
def leaves (symbols : Symbols) (valued : String → Bool) (wanted : Bool) : List Expr → Int
  | [] => 0
  | e :: rest => nominal wanted + excess symbols valued wanted e + leaves symbols valued wanted rest

lemma leaves_args (args : List Expr) :
    leaves symbols valued true args = args.length + argsExcess symbols valued args := by
  induction args with
  | nil => rfl
  | cons a rest ih =>
    simp only [leaves, nominal_true, ih, argsExcess, length_cons]
    push_cast
    omega

lemma excess_operator {op} (hassign : op ≠ .assign) (hcast : op ≠ .kwAs) (wanted : Bool)
    (a b : Expr) : excess symbols valued wanted (.binary op a b) =
      excess symbols valued true a + excess symbols valued true b := by
  cases op <;> first | exact absurd rfl hassign | exact absurd rfl hcast | rfl

lemma ExprCoded.parts {es : List Expr} (h : ExprCoded storage symbols wanted es code) :
    Parts valued code (leaves symbols valued wanted es) := by
  induction h with
  | nil => exact .nil
  | @blank w | @typeName w _ => cases w <;> exact .nil
  | cons _ _ iha ihrest =>
    refine (iha.append ihrest).of_eq ?_
    simp only [leaves]
    omega
  | literal =>
    refine (Parts.cons (straight_literalCode _) (parts_dropUnless _)).of_eq ?_
    simp only [leaves, excess]
    omega
  | hole =>
    refine (Parts.cons ⟨rfl, rfl, rfl⟩ (parts_dropUnless _)).of_eq (d := 1 + _) ?_
    simp only [leaves, excess]
    omega
  | var hload =>
    refine (Parts.cons (straight_loadVar hload) (parts_dropUnless _)).of_eq ?_
    simp only [leaves, excess]
    omega
  | unary _ hlast ih =>
    refine (ih.append (.cons hlast.toStraight (parts_dropUnless _))).of_eq ?_
    simp only [leaves, excess, nominal_true]
    omega
  | assign _ htail ih =>
    refine (ih.append (parts_assignCode htail)).of_eq ?_
    simp only [leaves, excess, nominal_true]
    omega
  | @same w a t ht =>
    have his : isOfType symbols a t = true := isOfType_iff.2 ht
    refine Parts.nil.of_eq ?_
    cases w <;> simp [leaves, excess, nominal, his]
  | @convert w a t target _ ht hne _ ih =>
    have his : isOfType symbols a target = false := by
      rw [Bool.eq_false_iff, Ne, isOfType_iff, ht]
      simpa using Ne.symm hne
    refine (parts_conversionCode ih).of_eq ?_
    cases w with
    | true => simp [leaves, excess, nominal, his]
    | false =>
      simp only [leaves, excess, nominal, his, Bool.false_eq_true, if_true, if_false]
      omega
  | operator hassign hcast _ _ _ hlast iha ihb =>
    refine ((iha.append ihb).append (.cons hlast.toStraight (parts_dropUnless _))).of_eq ?_
    simp only [leaves, excess_operator hassign hcast, nominal_true]
    omega
  | update hassign hcast _ _ _ hlast htail iha ihb =>
    refine ((iha.append ihb).append (.cons hlast.toStraight (parts_assignCode htail))).of_eq ?_
    simp only [leaves, excess_operator hassign hcast, nominal_true]
    omega
  | call _ ih =>
    refine (ih.append (.call (parts_dropUnless _))).of_eq ?_
    simp only [leaves, leaves_args, excess]
    split <;> omega
  | read _ hop ih =>
    refine (ih.append (.cons (computes_callCode hop).toStraight (parts_dropUnless _))).of_eq ?_
    simp only [leaves, leaves_args, excess, if_true]
    omega
  | sysCall hfunc _ hop ih =>
    refine (ih.append (.cons (computes_callCode hop).toStraight .nil)).of_eq ?_
    simp only [leaves, leaves_args, excess, nominal, if_neg hfunc, Bool.false_eq_true, if_false]
    omega

end

/-! ## Statements -/

/-- How statements are left: behind the last, or by leaving the loop around them. -/
inductive Exit where
  | behind
  | outOfLoop

/-- A way through statements on which their expressions leave `d` words, if an expression `e` leaves
`drift wanted e`. -/
inductive Ways (drift : Bool → Expr → Int) : List Stmt → Exit → Int → Prop
  | nil : Ways drift [] .behind 0
  | expr {e rest exit d} (h : Ways drift rest exit d) :
      Ways drift (.expr e :: rest) exit (drift false e + d)
  | decl {v : VarDecl} {rest exit d}
      (hno : v.isConst ∨ v.init = none) (h : Ways drift rest exit d) :
      Ways drift (.decl v :: rest) exit d
  | letInit {v : VarDecl} {e rest exit d}
      (hvar : v.isConst = false) (hinit : v.init = some e) (h : Ways drift rest exit d) :
      Ways drift (.decl v :: rest) exit (drift true e + d)
  | yes {cond thenBody elseBody rest exit d d'}
      (hbody : Ways drift thenBody .behind d) (h : Ways drift rest exit d') :
      Ways drift (.ifElse cond thenBody elseBody :: rest) exit (drift true cond + d + d')
  | no {cond thenBody elseBody rest exit d d'}
      (hbody : Ways drift elseBody .behind d) (h : Ways drift rest exit d') :
      Ways drift (.ifElse cond thenBody elseBody :: rest) exit (drift true cond + d + d')
  | whileDone {cond body rest exit d}
      (h : Ways drift rest exit d) :
      Ways drift (.whileDo cond body :: rest) exit (drift true cond + d)
  | whileAgain {cond body rest exit d d'}
      (hbody : Ways drift body .behind d) (h : Ways drift (.whileDo cond body :: rest) exit d') :
      Ways drift (.whileDo cond body :: rest) exit (drift true cond + d + d')
  | whileOut {cond body rest exit d d'}
      (hbody : Ways drift body .outOfLoop d) (h : Ways drift rest exit d') :
      Ways drift (.whileDo cond body :: rest) exit (drift true cond + d + d')
  | loopAgain {body rest exit d d'}
      (hbody : Ways drift body .behind d) (h : Ways drift (.loop body :: rest) exit d') :
      Ways drift (.loop body :: rest) exit (d + d')
  | loopOut {body rest exit d d'}
      (hbody : Ways drift body .outOfLoop d) (h : Ways drift rest exit d') :
      Ways drift (.loop body :: rest) exit (d + d')
  | leave {rest} : Ways drift (.leaveLoop :: rest) .outOfLoop 0

mutual

/-- The expressions that a statement computes, and whether their results are wanted. -/
def stmtParts : Stmt → List (Bool × Expr)
  | .expr e => [(false, e)]
  | .decl v => if v.isConst then [] else v.init.toList.map (true, ·)
  | .ifElse cond thenBody elseBody => (true, cond) :: (partsOf thenBody ++ partsOf elseBody)
  | .whileDo cond body => (true, cond) :: partsOf body
  | .loop body => partsOf body
  | .ret value => value.toList.map (true, ·)
  | .leaveLoop | .blank => []

/-- The expressions that statements compute. -/
def partsOf : List Stmt → List (Bool × Expr)
  | [] => []
  | st :: rest => stmtParts st ++ partsOf rest

end

namespace Ways

variable {drift : Bool → Expr → Int} {xs ys : List Stmt} {exit : Exit} {d d' : Int}

/-- Statements go on in those behind them, unless they have left the loop. -/
lemma append_of {first : Exit} (hx : Ways drift xs first d)
    (hy : first = .behind → Ways drift ys exit d')
    (hout : first = .outOfLoop → exit = .outOfLoop ∧ d' = 0) :
    Ways drift (xs ++ ys) exit (d + d') := by
  induction hx with
  | nil => simpa using hy rfl
  | expr _ ih => rw [Int.add_assoc]; exact .expr (ih hy hout)
  | decl hno _ ih => exact .decl hno (ih hy hout)
  | letInit hvar hinit _ ih => rw [Int.add_assoc]; exact .letInit hvar hinit (ih hy hout)
  | yes hbody _ _ ih => rw [Int.add_assoc]; exact .yes hbody (ih hy hout)
  | no hbody _ _ ih => rw [Int.add_assoc]; exact .no hbody (ih hy hout)
  | whileDone _ ih => rw [Int.add_assoc]; exact .whileDone (ih hy hout)
  | whileAgain hbody _ _ ih => rw [Int.add_assoc]; exact .whileAgain hbody (ih hy hout)
  | whileOut hbody _ _ ih => rw [Int.add_assoc]; exact .whileOut hbody (ih hy hout)
  | loopAgain hbody _ _ ih => rw [Int.add_assoc]; exact .loopAgain hbody (ih hy hout)
  | loopOut hbody _ _ ih => rw [Int.add_assoc]; exact .loopOut hbody (ih hy hout)
  | leave =>
    obtain ⟨rfl, rfl⟩ := hout rfl
    exact .leave

lemma append (hx : Ways drift xs .behind d) (hy : Ways drift ys exit d') :
    Ways drift (xs ++ ys) exit (d + d') :=
  hx.append_of (fun _ => hy) fun h => by cases h

lemma outOfLoop_append (hx : Ways drift xs .outOfLoop d) (ys : List Stmt) :
    Ways drift (xs ++ ys) .outOfLoop d := by
  have hboth : Ways drift (xs ++ ys) .outOfLoop (d + 0) :=
    hx.append_of (fun h => by cases h) fun _ => ⟨rfl, rfl⟩
  simpa using hboth

/-- Only a statement that does nothing else leaves the loop around it, since the code of a branch
does not know the loop. -/
lemma eq_leaveLoop {st : Stmt} (h : Ways drift [st] .outOfLoop d) : st = .leaveLoop := by
  generalize hxs : [st] = xs at h
  generalize hout : Exit.outOfLoop = exit at h
  induction h with
  | nil => cases hout
  | whileAgain _ _ _ ih | loopAgain _ _ _ ih => exact ih hxs hout
  | leave => exact (List.cons.inj hxs).1
  | expr hrest | decl _ hrest | letInit _ _ hrest | yes _ hrest | no _ hrest | whileDone hrest
  | whileOut _ hrest | loopOut _ hrest =>
    cases hxs
    cases hrest
    cases hout

lemma expr_iff {e : Expr} : Ways drift [.expr e] .behind d ↔ d = drift false e := by
  constructor
  · intro h
    cases h with
    | expr hrest =>
      cases hrest
      exact Int.add_zero _
  · rintro rfl
    simpa using Ways.expr .nil

lemma let_iff {v} {e : Expr} (hvar : v.isConst = false) (hinit : v.init = some e) :
    Ways drift [.decl v] .behind d ↔ d = drift true e := by
  constructor
  · intro h
    cases h with
    | decl hno hrest => simp [hvar, hinit] at hno
    | letInit _ hinit' hrest =>
      cases hrest
      rw [hinit, Option.some.injEq] at hinit'
      rw [hinit']
      exact Int.add_zero _
  · rintro rfl
    simpa using Ways.letInit hvar hinit .nil

lemma eq_zero (h : Ways drift xs exit d) (hlevel : ∀ p ∈ partsOf xs, drift p.1 p.2 = 0) :
    d = 0 := by
  induction h with
  | nil | leave => rfl
  | decl _ _ ih => exact ih (forall_mem_append.1 hlevel).2
  | @letInit _ e _ _ _ hvar hinit _ ih =>
    have hhead : drift true e = 0 := hlevel (true, e) (by simp [partsOf, stmtParts, hvar, hinit])
    have hrest := ih (forall_mem_append.1 hlevel).2
    omega
  | expr _ ih | whileDone _ ih =>
    simp only [partsOf, stmtParts, forall_mem_append, forall_mem_cons] at hlevel
    have hrest := ih hlevel.2
    omega
  | yes _ _ ihbody ih | no _ _ ihbody ih | whileOut _ _ ihbody ih | loopOut _ _ ihbody ih =>
    have hbody := ihbody fun p hp => hlevel p (by simp [partsOf, stmtParts, hp])
    simp only [partsOf, stmtParts, forall_mem_append, forall_mem_cons] at hlevel
    have hrest := ih hlevel.2
    omega
  | whileAgain _ _ ihbody ih | loopAgain _ _ ihbody ih =>
    have hrest := ih hlevel
    have hbody := ihbody fun p hp => hlevel p (by simp [partsOf, stmtParts, hp])
    simp only [partsOf, stmtParts, forall_mem_append, forall_mem_cons] at hlevel
    omega

end Ways

end ArmStudio.Code
