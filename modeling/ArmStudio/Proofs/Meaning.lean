import ArmStudio.Proofs.Tables

/-!
# Meaning of integer scripts

An evaluator for scripts over integers, on the tree and without code: operands are evaluated from
left to right, integers are 32 bits wide and wrap, and a store has the values of globals and of the
locals of the current call by name.

The evaluator takes fuel and counts the words that stand on the stack. It has no result where a
program does something without a meaning, where the fuel runs out, or where a word or a frame
would stand higher than the `Room` allows.
-/

namespace ArmStudio.Script

open Option

/-- Values of globals, and of the locals of the current call. -/
structure Store where
  globals : Table Int32
  locals : Table Int32

namespace Store

variable (s : Store)

/-- The value of a name: a local one, or else a global one. -/
def read (name : String) : Option Int32 :=
  (s.locals.find? name).or (s.globals.find? name)

/-- The store after an assignment to a name that has a value. -/
def write (name : String) (v : Int32) : Option Store :=
  if s.locals.contains name then some { s with locals := s.locals.insert name v }
  else if s.globals.contains name then some { s with globals := s.globals.insert name v }
  else none

def assign (target : Expr) (v : Int32) : Option Store :=
  match target with
  | .var name _ => s.write name v
  | _ => none

/-- The store behind an operation with result `v`: an assigning one writes it to its left
operand. -/
def update (op : Keyword) (left : Expr) (v : Int32) : Option Store :=
  if op.isAssignment then s.assign left v else some s

end Store

/-- How a statement ends. -/
inductive Outcome where
  | normal
  | broke
  | returned (value : Option Int32)
  deriving DecidableEq

/-- The highest places of the stack where a word and where a frame may be put. -/
structure Room where
  words : Nat
  frames : Nat

/-! ## Operators -/

def truthValue (b : Bool) : Int32 := if b then 1 else 0

def unaryMeaning : Keyword → Option (Int32 → Int32)
  | .minus => some fun a => -a
  | .logicalNot => some fun a => truthValue (a == 0)
  | _ => none

/-- The meaning of an operator between its operands; for an assignment with an operation, that
of the operation. -/
def binaryMeaning : Keyword → Option (Int32 → Int32 → Int32)
  | .plus | .addAssign => some fun a b => a + b
  | .minus | .subAssign => some fun a b => a - b
  | .times | .mulAssign => some fun a b => a * b
  | .bitAnd | .andAssign => some fun a b => a &&& b
  | .bitOr | .orAssign => some fun a b => a ||| b
  | .bitXor | .xorAssign => some fun a b => a ^^^ b
  | .equal => some fun a b => truthValue (a == b)
  | .notEqual => some fun a b => truthValue (a != b)
  | .less => some fun a b => truthValue (a < b)
  | .lessEqual => some fun a b => truthValue (a ≤ b)
  | .greater => some fun a b => truthValue (b < a)
  | .greaterEqual => some fun a b => truthValue (b ≤ a)
  | _ => none

/-! ## Programs -/

variable (p : Program)

def Program.funcs : List FuncDecl := p.decls.filterMap fun
    | .func f => some f
    | .var _ => none

def Program.vars : List VarDecl := p.decls.filterMap fun
    | .func _ => none
    | .var d => some d

def Program.func? (name : String) : Option FuncDecl :=
  p.funcs.find? fun f => f.name = name

def VarDecl.initialInt (d : VarDecl) : Int :=
  match d.init with
  | some (.literal (.int n)) => n
  | _ => 0

def VarDecl.initial (d : VarDecl) : Int32 := Int32.ofInt d.initialInt

def Program.initialGlobals : Table Int32 := ⟨p.vars.map fun d => (d.name, d.initial)⟩

/-- The locals that a call starts with. -/
def bindParams (params : List Param) (values : List Int32) : Table Int32 :=
  ⟨(params.map Param.name).zip values⟩

/-! ## The evaluator -/

mutual

/-- The value of an expression, with `h` words on the stack. -/
def evalExpr (room : Room) (p : Program) : Nat → Nat → Store → Expr → Option (Int32 × Store)
  | 0, _, _, _ => none
  | n + 1, h, s, e =>
    match e with
    | .literal (.int k) => if h ≤ room.words then some (Int32.ofInt k, s) else none
    | .var x _ => if h ≤ room.words then (s.read x).map fun v => (v, s) else none
    | .unary op a => do
      let f ← unaryMeaning op
      let (v, s) ← evalExpr room p n h s a
      return (f v, s)
    | .binary op a b =>
      if op = .assign then do
        let (v, s) ← evalExpr room p n h s b
        let s ← s.assign a v
        return (v, s)
      else do
        let f ← binaryMeaning op
        let (v, s) ← evalExpr room p n h s a
        let (w, s) ← evalExpr room p n (h + 1) s b
        let s ← s.update op a (f v w)
        return (f v w, s)
    | .call func _ args => do
      let (values, s) ← evalArgs room p n h s args
      let (result, globals) ← callFunc room p n h s.globals func values
      let v ← result
      return (v, { s with globals := globals })
    | _ => none

def evalArgs (room : Room) (p : Program) :
    Nat → Nat → Store → List Expr → Option (List Int32 × Store)
  | 0, _, _, _ => none
  | n + 1, h, s, args =>
    match args with
    | [] => some ([], s)
    | a :: rest => do
      let (v, s) ← evalExpr room p n h s a
      let (vs, s) ← evalArgs room p n (h + 1) s rest
      return (v :: vs, s)

/-- The result of a call, with `h` words on the stack under the arguments. -/
def callFunc (room : Room) (p : Program) :
    Nat → Nat → Table Int32 → String → List Int32 → Option (Option Int32 × Table Int32)
  | 0, _, _, _, _ => none
  | n + 1, h, globals, name, values =>
    match p.func? name with
    | none => none
    | some f =>
      if h ≤ room.frames ∧ values.length = f.params.length then do
        let (outcome, s) ←
          execStmts room p n (h + 3 + f.localCount) ⟨globals, bindParams f.params values⟩ f.body
        match outcome with
        | .normal => return (none, s.globals)
        | .returned v => return (v, s.globals)
        | .broke => none
      else none

def execStmt (room : Room) (p : Program) : Nat → Nat → Store → Stmt → Option (Outcome × Store)
  | 0, _, _, _ => none
  | n + 1, h, s, st =>
    match st with
    | .expr e => do
      let (_, s) ← evalExpr room p n h s e
      return (.normal, s)
    | .decl d =>
      match d.init with
      | none => none
      | some e => do
        let (v, s) ← evalExpr room p n h s e
        return (.normal, { s with locals := s.locals.insert d.name v })
    | .ifElse cond yes no => do
      let (v, s) ← evalExpr room p n h s cond
      if v = 0 then execStmts room p n h s no else execStmts room p n h s yes
    | .whileDo cond body => do
      let (v, s) ← evalExpr room p n h s cond
      if v = 0 then return (.normal, s)
      else do
        let (outcome, s) ← execStmts room p n h s body
        match outcome with
        | .normal => execStmt room p n h s (.whileDo cond body)
        | .broke => return (.normal, s)
        | .returned v => return (.returned v, s)
    | .loop body => do
      let (outcome, s) ← execStmts room p n h s body
      match outcome with
      | .normal => execStmt room p n h s (.loop body)
      | .broke => return (.normal, s)
      | .returned v => return (.returned v, s)
    | .ret none => some (.returned none, s)
    | .ret (some e) => do
      let (v, s) ← evalExpr room p n h s e
      return (.returned (some v), s)
    | .leaveLoop => some (.broke, s)
    | .blank => none

def execStmts (room : Room) (p : Program) : Nat → Nat → Store → List Stmt → Option (Outcome × Store)
  | 0, _, _, _ => none
  | n + 1, h, s, body =>
    match body with
    | [] => some (.normal, s)
    | st :: rest => do
      let (outcome, s) ← execStmt room p n h s st
      match outcome with
      | .normal => execStmts room p n h s rest
      | .broke => return (.broke, s)
      | .returned v => return (.returned v, s)

end

/-- The globals that a program ends with: they get their first values, then `main` is called. -/
def Program.meaning (room : Room) (fuel : Nat) (p : Program) : Option (Table Int32) :=
  (callFunc room p fuel 0 p.initialGlobals "main" []).map Prod.snd

/-! ## Results taken apart -/

section

variable {room : Room} {p : Program} {n h : Nat} {s s' : Store} {v : Int32}

lemma evalExpr_literal {k : Int} : evalExpr room p (n + 1) h s (.literal (.int k)) = some (v, s') ↔
      h ≤ room.words ∧ v = Int32.ofInt k ∧ s' = s := by
  by_cases hroom : h ≤ room.words <;> simp [evalExpr, hroom, eq_comm]

variable {symbol : Symbol} {op : Keyword} {a b e cond : Expr} {args : List Expr}
  {values : List Int32} {body : List Stmt}

lemma evalExpr_var {x : String} : evalExpr room p (n + 1) h s (.var x symbol) = some (v, s') ↔
      h ≤ room.words ∧ s.read x = some v ∧ s' = s := by
  by_cases hroom : h ≤ room.words
  · cases hx : s.read x <;> simp [evalExpr, hroom, hx, eq_comm]
  · simp [evalExpr, hroom]

lemma evalExpr_unary (heval : evalExpr room p (n + 1) h s (.unary op a) = some (v, s')) :
    ∃ f w, unaryMeaning op = some f ∧ evalExpr room p n h s a = some (w, s') ∧ v = f w := by
  simp only [evalExpr, bind_eq_bind, bind_eq_some_iff] at heval
  obtain ⟨f, hf, ⟨w, s1⟩, hw, hr⟩ := heval
  cases hr
  exact ⟨f, w, hf, hw, rfl⟩

lemma evalExpr_assign (heval : evalExpr room p (n + 1) h s (.binary .assign a b) = some (v, s')) :
    ∃ s1, evalExpr room p n h s b = some (v, s1) ∧ s1.assign a v = some s' := by
  simp only [evalExpr, if_true, bind_eq_bind, bind_eq_some_iff] at heval
  obtain ⟨⟨w, s1⟩, hw, s2, hs2, hr⟩ := heval
  cases hr
  exact ⟨s1, hw, hs2⟩

/-- An operation evaluates its operands one above the other; with an assignment, it also writes
the left one. -/
lemma evalExpr_binary (hop : op ≠ .assign)
    (heval : evalExpr room p (n + 1) h s (.binary op a b) = some (v, s')) :
    ∃ f x y s1 s2, binaryMeaning op = some f ∧ evalExpr room p n h s a = some (x, s1) ∧
      evalExpr room p n (h + 1) s1 b = some (y, s2) ∧ v = f x y ∧
      s2.update op a v = some s' := by
  simp only [evalExpr, hop, if_false, bind_eq_bind, bind_eq_some_iff] at heval
  obtain ⟨f, hf, ⟨x, s1⟩, hx, ⟨y, s2⟩, hy, s3, hs3, hr⟩ := heval
  cases hr
  exact ⟨f, x, y, s1, s2, hf, hx, hy, rfl, hs3⟩

lemma evalExpr_call {func}
    (heval : evalExpr room p (n + 1) h s (.call func symbol args) = some (v, s')) :
    ∃ values s1 globals, evalArgs room p n h s args = some (values, s1) ∧
      callFunc room p n h s1.globals func values = some (some v, globals) ∧
      s' = { s1 with globals := globals } := by
  simp only [evalExpr, bind_eq_bind, bind_eq_some_iff] at heval
  obtain ⟨⟨values, s1⟩, hargs, ⟨result, globals⟩, hcall, w, hres, hr⟩ := heval
  cases hr
  subst hres
  exact ⟨values, s1, globals, hargs, hcall, rfl⟩

lemma evalArgs_cons {rest} (heval : evalArgs room p (n + 1) h s (a :: rest) = some (values, s')) :
    ∃ v s1 vs, evalExpr room p n h s a = some (v, s1) ∧
      evalArgs room p n (h + 1) s1 rest = some (vs, s') ∧ values = v :: vs := by
  simp only [evalArgs, bind_eq_bind, bind_eq_some_iff] at heval
  obtain ⟨⟨v, s1⟩, hv, ⟨vs, s2⟩, hvs, hr⟩ := heval
  cases hr
  exact ⟨v, s1, vs, hv, hvs, rfl⟩

lemma length_evalArgs (heval : evalArgs room p n h s args = some (values, s')) :
    values.length = args.length := by
  induction n generalizing h s args values with
  | zero => simp [evalArgs] at heval
  | succ n ih =>
    cases args with
    | nil =>
      simp only [evalArgs, Option.some.injEq, Prod.mk.injEq] at heval
      simp [← heval.1]
    | cons a rest =>
      rcases evalArgs_cons heval with ⟨v, s1, vs, _, hvs, rfl⟩
      simp [ih hvs]

def Outcome.result? : Outcome → Option (Option Int32)
  | .normal => some none
  | .broke => none
  | .returned v => some v

lemma callFunc_eq_some {globals globals' name result} :
    callFunc room p (n + 1) h globals name values = some (result, globals') ↔
      ∃ f outcome s, p.func? name = some f ∧ h ≤ room.frames ∧ values.length = f.params.length ∧
        execStmts room p n (h + 3 + f.localCount) ⟨globals, bindParams f.params values⟩ f.body =
          some (outcome, s) ∧
        outcome.result? = some result ∧ globals' = s.globals := by
  cases hf : p.func? name with
  | none => simp [callFunc, hf]
  | some f =>
    by_cases hok : h ≤ room.frames ∧ values.length = f.params.length
    · simp only [callFunc, hf]
      rw [if_pos hok]
      simp only [bind_eq_bind, bind_eq_some_iff]
      constructor
      · rintro ⟨⟨outcome, s⟩, hexec, hr⟩
        refine ⟨f, outcome, s, rfl, hok.1, hok.2, hexec, ?_⟩
        cases outcome <;> cases hr <;> exact ⟨rfl, rfl⟩
      · rintro ⟨g, outcome, s, hg, _, _, hexec, hres, rfl⟩
        cases hg
        refine ⟨(outcome, s), hexec, ?_⟩
        cases outcome <;> cases hres <;> rfl
    · simp only [callFunc, hf, hok, if_false]
      constructor
      · intro hr
        cases hr
      · rintro ⟨g, _, _, hg, hh, hl, _⟩
        cases hg
        exact absurd ⟨hh, hl⟩ hok

/-! ## Outcomes taken apart -/

variable {outcome : Outcome}

lemma execStmt_expr (hexec : execStmt room p (n + 1) h s (.expr e) = some (outcome, s')) :
    outcome = .normal ∧ ∃ v, evalExpr room p n h s e = some (v, s') := by
  simp only [execStmt, bind_eq_bind, bind_eq_some_iff] at hexec
  obtain ⟨⟨v, s1⟩, hv, hr⟩ := hexec
  cases hr
  exact ⟨rfl, v, hv⟩

lemma execStmt_decl {d} (hexec : execStmt room p (n + 1) h s (.decl d) = some (outcome, s')) :
    outcome = .normal ∧ ∃ e v s1, d.init = some e ∧ evalExpr room p n h s e = some (v, s1) ∧
      s' = { s1 with locals := s1.locals.insert d.name v } := by
  cases he : d.init with
  | none => simp [execStmt, he] at hexec
  | some e =>
    simp only [execStmt, he, bind_eq_bind, bind_eq_some_iff] at hexec
    obtain ⟨⟨v, s1⟩, hv, hr⟩ := hexec
    cases hr
    exact ⟨rfl, e, v, s1, rfl, hv, rfl⟩

lemma execStmt_ifElse {yes no}
    (hexec : execStmt room p (n + 1) h s (.ifElse cond yes no) = some (outcome, s')) :
    ∃ v s1, evalExpr room p n h s cond = some (v, s1) ∧
      execStmts room p n h s1 (if v = 0 then no else yes) = some (outcome, s') := by
  simp only [execStmt, bind_eq_bind, bind_eq_some_iff] at hexec
  obtain ⟨⟨v, s1⟩, hv, hr⟩ := hexec
  refine ⟨v, s1, hv, ?_⟩
  by_cases h0 : v = 0 <;> simpa [h0] using hr

/-- The body of a loop was run: the loop goes on, is left or the function returns. -/
def Repeats (again : Store → Option (Outcome × Store)) (first : Outcome) (s1 : Store)
    (outcome : Outcome) (s' : Store) : Prop :=
  (first = .normal ∧ again s1 = some (outcome, s')) ∨
    (first = .broke ∧ outcome = .normal ∧ s' = s1) ∨
    (∃ v, first = .returned v ∧ outcome = .returned v ∧ s' = s1)

lemma execStmt_loop (hexec : execStmt room p (n + 1) h s (.loop body) = some (outcome, s')) :
    ∃ first s1, execStmts room p n h s body = some (first, s1) ∧
      Repeats (fun s => execStmt room p n h s (.loop body)) first s1 outcome s' := by
  simp only [execStmt, bind_eq_bind, bind_eq_some_iff] at hexec
  obtain ⟨⟨first, s1⟩, hbody, hr⟩ := hexec
  refine ⟨first, s1, hbody, ?_⟩
  cases first with
  | normal => exact .inl ⟨rfl, hr⟩
  | broke => cases hr; exact .inr (.inl ⟨rfl, rfl, rfl⟩)
  | returned v => cases hr; exact .inr (.inr ⟨v, rfl, rfl, rfl⟩)

lemma execStmt_whileDo
    (hexec : execStmt room p (n + 1) h s (.whileDo cond body) = some (outcome, s')) :
    ∃ v s1, evalExpr room p n h s cond = some (v, s1) ∧ ((v = 0 ∧ outcome = .normal ∧ s' = s1) ∨
        (v ≠ 0 ∧ ∃ first s2, execStmts room p n h s1 body = some (first, s2) ∧
          Repeats (fun s => execStmt room p n h s (.whileDo cond body)) first s2 outcome s')) := by
  simp only [execStmt, bind_eq_bind, bind_eq_some_iff] at hexec
  obtain ⟨⟨v, s1⟩, hv, hr⟩ := hexec
  refine ⟨v, s1, hv, ?_⟩
  by_cases h0 : v = 0
  · simp only [h0, if_true] at hr
    cases hr
    exact .inl ⟨h0, rfl, rfl⟩
  · simp only [h0, if_false, bind_eq_some_iff] at hr
    obtain ⟨⟨first, s2⟩, hbody, hr⟩ := hr
    refine .inr ⟨h0, first, s2, hbody, ?_⟩
    cases first with
    | normal => exact .inl ⟨rfl, hr⟩
    | broke => cases hr; exact .inr (.inl ⟨rfl, rfl, rfl⟩)
    | returned v => cases hr; exact .inr (.inr ⟨v, rfl, rfl, rfl⟩)

lemma execStmt_ret (hexec : execStmt room p (n + 1) h s (.ret (some e)) = some (outcome, s')) :
    ∃ v, evalExpr room p n h s e = some (v, s') ∧ outcome = .returned (some v) := by
  simp only [execStmt, bind_eq_bind, bind_eq_some_iff] at hexec
  obtain ⟨⟨v, s1⟩, hv, hr⟩ := hexec
  cases hr
  exact ⟨v, hv, rfl⟩

lemma execStmts_cons {st : Stmt} {rest}
    (hexec : execStmts room p (n + 1) h s (st :: rest) = some (outcome, s')) :
    ∃ first s1, execStmt room p n h s st = some (first, s1) ∧
      ((first = .normal ∧ execStmts room p n h s1 rest = some (outcome, s')) ∨
        (first ≠ .normal ∧ outcome = first ∧ s' = s1)) := by
  simp only [execStmts, bind_eq_bind, bind_eq_some_iff] at hexec
  obtain ⟨⟨first, s1⟩, hst, hr⟩ := hexec
  refine ⟨first, s1, hst, ?_⟩
  cases first with
  | normal => exact .inl ⟨rfl, hr⟩
  | broke | returned => cases hr; exact .inr ⟨by simp, rfl, rfl⟩

end

end ArmStudio.Script
