import ArmStudio.Proofs.Lookahead

/-!
# Expressions in parentheses

A tree is written with every operator, conversion and call in parentheses of its own, and reading
gives it back.
-/

namespace ArmStudio.Script

open List Token

def Keyword.isSystemFunction (k : Keyword) : Bool :=
  (delay.number ≤ k.number && k.number ≤ oledShowInt.number) || k == print

def VarType.keyword : VarType → Keyword
  | float => .kwFloat
  | _ => .kwInt

def inParentheses (ls : List Lexeme) : List Lexeme :=
  .keyword .leftParen :: (ls ++ [.keyword .rightParen])

mutual

/-- The lexemes of a tree, with every operator, conversion and call in parentheses of its own. -/
def Expr.printed : Expr → List Lexeme
  | .literal (.int n) => [.int n]
  | .literal (.real x) => [.real x]
  | .var name _ => [.name name]
  | .typeName t => [.keyword t.keyword]
  | .unary op e => inParentheses (.keyword op :: e.printed)
  | .binary op a b => inParentheses (a.printed ++ .keyword op :: b.printed)
  | .call func _ args => inParentheses (.name func :: inParentheses (printedArgs args))
  | .sysCall func args => inParentheses (.keyword func :: inParentheses (printedArgs args))
  | _ => []

def printedArgs : List Expr → List Lexeme
  | [] => []
  | [a] => a.printed
  | a :: b :: rest => a.printed ++ .keyword .comma :: printedArgs (b :: rest)

end

/-- The trees over numbers and declared names that can be written. -/
inductive Expr.Writable (symbols : Symbols) : Expr → Prop
  | int (n : Int) : Writable symbols (.literal (.int n))
  | real (x : Number.Double) : Writable symbols (.literal (.real x))
  | var {name} {symbol : Symbol} (hfound : symbols.lookup? name = some symbol)
      (hkind : symbol.kind = .variable) : Writable symbols (.var name symbol)
  | unary {op : Keyword} {e} (hop : op.isUnary) (he : Writable symbols e) :
      Writable symbols (.unary op e)
  | binary {op : Keyword} {a b} (hop : op.isBinary) (hcast : op ≠ .kwAs)
      (ha : Writable symbols a) (hb : Writable symbols b) : Writable symbols (.binary op a b)
  | convert {e : Expr} {t} (ht : t = .int ∨ t = .float) (he : Writable symbols e) :
      Writable symbols (e.convert t)
  | call {func} {symbol : Symbol} {args}
      (hfound : symbols.lookup? func = some symbol) (hkind : symbol.kind = .function)
      (hargs : ∀ a ∈ args, Writable symbols a) : Writable symbols (.call func symbol args)
  | sysCall {func : Keyword} {args} (hfunc : func.isSystemFunction)
      (hargs : ∀ a ∈ args, Writable symbols a) : Writable symbols (.sysCall func args)

/-! ## Reading written trees -/

/-- However its tokens are placed and whatever follows, the tree is an operand where it is
written. -/
def Expr.ReadBack (symbols : Symbols) (e : Expr) : Prop :=
  ∀ ts : List Token, ts.map lexeme = e.printed → ∀ rest, Parses symbols .operand ts [e] rest

section

variable {symbols : Symbols} {power : Nat} {e a b : Expr} {t : Token} {ts rest : List Token}
  {k : Keyword} {args : List Expr} {ls : List Lexeme} {l : Lexeme}

lemma Token.keyword?_of_lexeme (h : t.lexeme = .keyword k) : t.keyword? = some k := by
  simp [keyword?, h]

lemma stopped_of_keyword? (hk : t.keyword? = some k) (hbin : k.isBinary = false)
    (hparen : k ≠ .leftParen) (rest : List Token) : Stopped (t :: rest) := by
  refine stopped_cons ?_ rest
  simp [stops, hk, hbin, hparen]

lemma Stopped.ends (h : Stopped rest) (power : Nat) (e : Expr) :
    Parses symbols (.operators power e) [] [e] rest :=
  .ends (.of_stopped h)

lemma Expr.ReadBack.expr (h : e.ReadBack symbols) (hts : ts.map lexeme = e.printed)
    (hrest : Stopped rest) (power : Nat) : Parses symbols (.expr power) ts [e] rest := by
  simpa using Parses.expr (h ts hts rest) (hrest.ends power e)

lemma exists_of_inParentheses (h : ts.map lexeme = inParentheses ls) :
    ∃ l us r, ts = l :: (us ++ [r]) ∧ l.keyword? = some .leftParen ∧ us.map lexeme = ls ∧
      r.keyword? = some .rightParen := by
  obtain ⟨l, rest, rfl, hl, hrest⟩ := map_eq_cons_iff.1 h
  obtain ⟨us, rs, rfl, hus, hrs⟩ := map_eq_append_iff.1 hrest
  obtain ⟨r, rfl, hr⟩ := map_eq_singleton_iff.1 hrs
  exact ⟨l, us, r, rfl, keyword?_of_lexeme hl, hus, keyword?_of_lexeme hr⟩

lemma readBack_of_atom (hprinted : e.printed = [l])
    (h : ∀ t : Token, t.lexeme = l → atom? symbols t = .ok (some e)) : e.ReadBack symbols := by
  intro ts hts rest
  obtain ⟨t, rfl, ht⟩ := map_eq_singleton_iff.1 (hts.trans hprinted)
  exact .atom (.inl (h t ht))

lemma readBack_of_expr (hprinted : e.printed = inParentheses ls)
    (h : ∀ us rest : List Token, us.map lexeme = ls → Stopped rest →
      Parses symbols (.expr 0) us [e] rest) : e.ReadBack symbols := by
  intro ts hts rest
  obtain ⟨l, us, r, rfl, hl, hus, hr⟩ := exists_of_inParentheses (hts.trans hprinted)
  exact .paren hl (h us _ hus (stopped_of_keyword? hr rfl (by decide) rest)) hr

/-! ## Argument lists -/

lemma parses_moreArguments (hrest : t.keyword? = some .rightParen) : ∀ args : List Expr,
    args ≠ [] → (∀ a ∈ args, a.ReadBack symbols) → ∀ ts : List Token,
    ts.map lexeme = printedArgs args → Parses symbols .moreArguments ts args (t :: rest)
  | [], hne, _, _, _ => absurd rfl hne
  | [a], _, hargs, ts, hts =>
    .lastArgument ((hargs a (by simp)).expr hts (stopped_of_keyword? hrest rfl (by decide) _) 0) rfl
      hrest (by decide)
  | a :: b :: others, _, hargs, ts, hts => by
      rw [printedArgs] at hts
      obtain ⟨us, vs, rfl, hus, hvs⟩ := map_eq_append_iff.1 hts
      obtain ⟨t, ws, rfl, ht, hws⟩ := map_eq_cons_iff.1 hvs
      have hcomma := keyword?_of_lexeme ht
      exact .moreArguments
        ((hargs a (by simp)).expr hus (stopped_of_keyword? hcomma rfl (by decide) _) 0) hcomma
        (parses_moreArguments hrest (b :: others) (by simp)
          (fun x hx => hargs x (by simp [hx])) ws hws)

lemma Expr.Writable.printed_eq_cons (h : e.Writable symbols) :
    ∃ l ls, e.printed = l :: ls ∧ l ≠ .keyword .rightParen := by
  cases h <;> exact ⟨_, _, rfl, by simp⟩

lemma parses_arguments (hargs : ∀ a ∈ args, a.Writable symbols ∧ a.ReadBack symbols)
    (hts : ts.map lexeme = printedArgs args) (hrest : t.keyword? = some .rightParen) :
    Parses symbols .arguments ts args (t :: rest) := by
  cases args with
  | nil =>
    obtain rfl := map_eq_nil_iff.1 hts
    exact .noArguments rfl (is_eq_true_iff.2 hrest)
  | cons a others =>
    -- the first token of an argument does not close the list
    obtain ⟨l, ls, hprinted, hl⟩ := (hargs a (by simp)).1.printed_eq_cons
    obtain ⟨t', us, rfl, ht'⟩ : ∃ t' us, ts = t' :: us ∧ t'.lexeme = l := by
      cases others <;> simp only [printedArgs, hprinted, cons_append] at hts <;>
        exact (map_eq_cons_iff.1 hts).imp fun t => .imp fun us h => ⟨h.1, h.2.1⟩
    exact .arguments rfl (by simpa [is, ht'] using hl) (parses_moreArguments hrest _ (by simp)
      (fun x hx => (hargs x hx).2) _ hts)

lemma readBack_of_call
    (hprinted : e.printed = inParentheses (l :: inParentheses (printedArgs args)))
    (hcallee : ∀ t : Token, t.lexeme = l → IsAtom symbols t a) (hcall : a.withArgs? args = some e)
    (hargs : ∀ a ∈ args, a.Writable symbols ∧ a.ReadBack symbols) : e.ReadBack symbols := by
  refine readBack_of_expr hprinted fun us rest hus _ => ?_
  obtain ⟨t, vs, rfl, ht, hvs⟩ := map_eq_cons_iff.1 hus
  obtain ⟨l, ws, r, rfl, hl, hws, hr⟩ := exists_of_inParentheses hvs
  exact Parses.expr (.atom (hcallee t ht)) (.call hl (parses_arguments hargs hws hr) hr hcall)

/-! ## Trees -/

lemma Keyword.startsCall_of_isSystemFunction (h : k.isSystemFunction) :
    k.isUnary = false ∧ k ≠ .leftParen ∧ k.startsCall := by
  revert h
  cases k <;> decide

lemma Expr.Writable.readBack (h : e.Writable symbols) : e.ReadBack symbols := by
  induction h with
  | int | real => exact readBack_of_atom rfl fun t ht => by simp [atom?, ht]
  | var hfound hkind => exact readBack_of_atom rfl fun t ht => by simp [atom?, ht, hfound, hkind]
  | unary hop _ ih =>
    refine readBack_of_expr rfl fun us rest hus hrest => ?_
    obtain ⟨t, ts, rfl, ht, hts⟩ := map_eq_cons_iff.1 hus
    simpa using Parses.expr (.unary (keyword?_of_lexeme ht) hop (ih.expr hts hrest _))
      (hrest.ends 0 _)
  | binary hop hcast _ _ iha ihb =>
    refine readBack_of_expr rfl fun us rest hus hrest => ?_
    obtain ⟨ts, vs, rfl, hts, hvs⟩ := map_eq_append_iff.1 hus
    obtain ⟨t, ws, rfl, ht, hws⟩ := map_eq_cons_iff.1 hvs
    simpa using Parses.expr (iha ts hts _) (.binary (keyword?_of_lexeme ht) hop hcast
      zero_le (ihb.expr hws hrest _) (hrest.ends 0 _))
  | convert htype _ ih =>
    refine readBack_of_expr rfl fun us rest hus hrest => ?_
    obtain ⟨ts, vs, rfl, hts, hvs⟩ := map_eq_append_iff.1 hus
    obtain ⟨t, ws, rfl, ht, hws⟩ := map_eq_cons_iff.1 hvs
    obtain ⟨t', rfl, ht'⟩ := map_eq_singleton_iff.1 hws
    refine .expr (ih ts hts _) (.convert (keyword?_of_lexeme ht) zero_le ?_
      (hrest.ends 0 _))
    rw [keyword?_of_lexeme ht']
    rcases htype with rfl | rfl <;> rfl
  | call hfound hkind hargs ih =>
    exact readBack_of_call (a := .call _ _ []) rfl
      (fun t ht => .inl (by simp [atom?, ht, hfound, hkind])) rfl fun a ha => ⟨hargs a ha, ih a ha⟩
  | sysCall hfunc hargs ih =>
    obtain ⟨hunary, hparen, hstarts⟩ := Keyword.startsCall_of_isSystemFunction hfunc
    exact readBack_of_call (a := .sysCall _ []) rfl
      (fun t ht => .inr ⟨_, keyword?_of_lexeme ht, hunary, hparen, hstarts, rfl⟩) rfl
      fun a ha => ⟨hargs a ha, ih a ha⟩

end

/-- A written tree in front of a semicolon is read back, and reading stops at the semicolon. -/
theorem expression_printed {symbols : Symbols} {e : Expr} (he : e.Writable symbols) {c : Cursor}
    {ts : List Token} {close : Token} {rest : List Token} (hts : ts.map lexeme = e.printed)
    (hclose : close.is .semicolon = true) (hahead : c.ahead = ts ++ close :: rest) :
    ∃ c', expression symbols c = .ok (e, c') ∧ c'.ahead = close :: rest :=
  (he.readBack.expr hts (stopped_of_keyword? (is_eq_true_iff.1 hclose) rfl (by decide) rest)
    0).expression hahead

def oneFunction : Symbols := (Scopes.empty.declareLocal "f" (.ofFunction [.int, .int] .int)).2

/-- The tree of `f(read_joint(1) as int, -2)`. -/
def nestedCalls : Expr := .call "f" (.ofFunction [.int, .int] .int)
    [(Expr.sysCall .readJoint [.literal (.int 1)]).convert .int, .unary .minus (.literal (.int 2))]

/-- Arguments that are calls, conversions and operators. -/
theorem expression_printed_nested :
    ∃ c', expression oneFunction ⟨none, nestedCalls.printed.map (⟨·, 1⟩) ++
        [⟨.keyword .semicolon, 1⟩], false⟩ = .ok (nestedCalls, c') ∧
      c'.ahead = [⟨.keyword .semicolon, 1⟩] :=
  expression_printed (.call (by decide) rfl (by
    simp only [List.forall_mem_cons, List.not_mem_nil, false_imp_iff, implies_true, and_true]
    exact ⟨.convert (.inl rfl) (.sysCall rfl (by simpa using .int 1)), .unary rfl (.int 2)⟩))
    rfl rfl rfl

end ArmStudio.Script
