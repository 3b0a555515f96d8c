import ArmStudio.Proofs.Assembling
import ArmStudio.Script.Parser

/-!
# What reading depends on

What is read depends on the tokens that are read and on the one behind them. An expression looks at
the token behind it only for whether it goes on.
-/

namespace ArmStudio.Script

open Code Cursor List Token Keyword

instance : Coe Keyword Lexeme := ⟨.keyword⟩

/-- The tokens of a text of one line. -/
def onLine (lexemes : List Lexeme) : List Token := lexemes.map (⟨·, 1⟩)

/-- The tokens of `fn main() { body }`. -/
def mainWith (body : List Lexeme) : List Token :=
  onLine (kwFn :: .name "main" :: leftParen :: rightParen :: leftBrace ::
    (body ++ [.keyword rightBrace]))

namespace Token

variable (t : Token)

/-- No expression goes on at the token. -/
def stops : Bool :=
  match t.keyword? with
  | none => true
  | some k => !k.isBinary && k != .leftParen

def isOperator : Bool := t.keyword?.any isBinary

def opensOperand : Bool :=
  t.keyword?.all fun k => k.isUnary || k == .leftParen || k.startsCall

lemma is_eq_true_iff {t : Token} {k} : t.is k ↔ t.keyword? = some k := by
  unfold is keyword?
  cases t.lexeme <;> simp

end Token

/-! ## One step of each function -/

namespace Cursor

variable {c c' : Cursor} {t : Token} {rest : List Token} {k : Keyword}

lemma want_ne_ok {α : Type} {what} {a : α} : c.want what ≠ .ok a := by
  intro h
  obtain ⟨line, _, h⟩ := bind_eq_ok.1 h
  cases h

lemma peek?_of_ahead (h : c.ahead = t :: rest) : c.peek? = some t := by
  rw [peek?, h]
  rfl

lemma ahead_skip_of_ahead (h : c.ahead = t :: rest) : c.skip.ahead = rest := by rw [skip, h]

lemma ahead_of_peek? (h : c.peek? = some t) : c.ahead = t :: c.skip.ahead := by
  obtain ⟨rest, hrest⟩ : ∃ rest, c.ahead = t :: rest := by
    rwa [peek?, head?_eq_some_iff] at h
  rw [ahead_skip_of_ahead hrest, hrest]

lemma keyword_of_ahead (h : c.ahead = t :: rest) (hk : t.keyword? = some k) :
    c.peek?.bind keyword? = some k := by
  rwa [peek?_of_ahead h]

lemma peek?_eq_of_append {d : Cursor} {ts old new} (hc : c.ahead = ts ++ old)
    (hd : d.ahead = ts ++ new) (hsame : new.head? = old.head?) : d.peek? = c.peek? := by
  rw [peek?, peek?, hc, hd, head?_append, head?_append, hsame]

lemma close_eq_ok_iff :
    c.close k = .ok c' ↔ ∃ t, c.peek? = some t ∧ t.keyword? = some k ∧ c' = c.skip := by
  unfold close peek?
  cases c.ahead with
  | nil => simp
  | cons t rest =>
    cases hk : t.keyword? with
    | none => simp [hk]
    | some found =>
      by_cases hfound : found = k
      · simp [hk, hfound, eq_comm]
      · simp [hk, hfound]

lemma close_of_ahead (h : c.ahead = t :: rest) (hk : t.keyword? = some k) :
    c.close k = .ok c.skip :=
  close_eq_ok_iff.2 ⟨t, peek?_of_ahead h, hk, rfl⟩

end Cursor

section Steps

variable {symbols : Symbols} {fuel power : Nat} {c c' : Cursor} {e left : Expr} {args : List Expr}

lemma parseExpr_eq_ok_iff : parseExpr symbols (fuel + 1) power c = .ok (e, c') ↔
    ∃ left c1, parseOperand symbols fuel c = .ok (left, c1) ∧
      parseOperators symbols fuel power left c1 = .ok (e, c') := by
  rw [parseExpr, bind_eq_ok, Prod.exists]

/-- A token that is an operand by itself. -/
def IsAtom (symbols : Symbols) (t : Token) (e : Expr) : Prop := atom? symbols t = .ok (some e) ∨
    ∃ k, t.keyword? = some k ∧ k.isUnary = false ∧ k ≠ .leftParen ∧ k.startsCall = true ∧
      e = .sysCall k []

lemma atom?_of_keyword {t : Token} {k} (h : t.keyword? = some k) : atom? symbols t = .ok none := by
  unfold keyword? at h
  unfold atom?
  split at h
  · next hlex => rw [hlex]
  · cases h

lemma parseOperand_eq_ok_iff : parseOperand symbols (fuel + 1) c = .ok (e, c') ↔
    ∃ t, c.peek? = some t ∧ (IsAtom symbols t e ∧ c' = c.skip ∨
        (∃ k operand, t.keyword? = some k ∧ k.isUnary ∧ e = .unary k operand ∧
          parseExpr symbols fuel unaryPower c.skip = .ok (operand, c')) ∨
        t.keyword? = some .leftParen ∧
          ∃ c1, parseExpr symbols fuel 0 c.skip = .ok (e, c1) ∧ c1.close .rightParen = .ok c') := by
  rw [parseOperand]
  constructor
  · intro h
    split at h
    · cases h
    · next t hpeek =>
        refine ⟨t, hpeek, ?_⟩
        obtain ⟨atom, hatom, h⟩ := bind_eq_ok.1 h
        cases atom with
        | some atom =>
          cases h
          exact .inl ⟨.inl hatom, rfl⟩
        | none =>
          simp only at h
          split at h
          · cases h
          · next k hk =>
              split at h
              · next hunary =>
                  obtain ⟨⟨operand, c1⟩, hopnd, h⟩ := bind_eq_ok.1 h
                  cases h
                  exact .inr (.inl ⟨k, operand, hk, hunary, rfl, hopnd⟩)
              · next hunary =>
                  split at h
                  · next hparen =>
                      obtain ⟨⟨inner, c1⟩, hinner, h⟩ := bind_eq_ok.1 h
                      obtain ⟨c2, hclose, h⟩ := bind_eq_ok.1 h
                      cases h
                      exact .inr (.inr ⟨hparen ▸ hk, c1, hinner, hclose⟩)
                  · next hparen =>
                      split at h
                      · next hcall =>
                          cases h
                          exact .inl ⟨.inr ⟨k, hk, by simpa using hunary, hparen, hcall, rfl⟩, rfl⟩
                      · cases h
  · rintro ⟨t, hpeek, h⟩
    simp only [hpeek]
    rcases h with ⟨hatom | ⟨k, hk, hunary, hparen, hcall, rfl⟩, rfl⟩ |
      ⟨k, operand, hk, hunary, rfl, hopnd⟩ | ⟨hk, c1, hinner, hclose⟩
    · exact bind_eq_ok.2 ⟨some e, hatom, rfl⟩
    · refine bind_eq_ok.2 ⟨none, atom?_of_keyword hk, ?_⟩
      simp only [hk, hunary, hparen, hcall]
      rfl
    · refine bind_eq_ok.2 ⟨none, atom?_of_keyword hk, ?_⟩
      simp only [hk, hunary, if_true]
      exact bind_eq_ok.2 ⟨(operand, c'), hopnd, rfl⟩
    · refine bind_eq_ok.2 ⟨none, atom?_of_keyword hk, ?_⟩
      simp only [hk]
      exact bind_eq_ok.2 ⟨(e, c1), hinner, bind_eq_ok.2 ⟨c', hclose, rfl⟩⟩

lemma castTarget_eq_ok_iff {t : VarType} : castTarget c = .ok (t, c') ↔
    ∃ token, c.peek? = some token ∧ token.keyword?.bind varType? = some t ∧
      c' = c.skip := by
  unfold castTarget
  cases c.peek? with
  | none => simp
  | some token =>
    cases htype : token.keyword?.bind varType? with
    | none => simp [htype]
    | some found => simp [htype, eq_comm]

/-- Nothing goes on behind a left operand: neither an operator nor an argument list. -/
def Ends (power : Nat) (left : Expr) (rest : List Token) : Prop :=
  ∀ k, rest.head?.bind keyword? = some k →
    (k.isBinary = true → k.precedence?.getD 0 < power) ∧
      (k = .leftParen → (left.withArgs? []).isSome = false)

lemma Expr.withArgs?_eq_some_iff {callee call : Expr} : callee.withArgs? args = some call ↔
      (callee.withArgs? []).isSome ∧ call = (callee.withArgs? args).getD callee := by
  cases callee <;> simp [withArgs?, eq_comm]

lemma parseOperators_eq_ok_iff : parseOperators symbols (fuel + 1) power left c = .ok (e, c') ↔
    Ends power left c.ahead ∧ e = left ∧ c' = c ∨
      (∃ k, c.peek?.bind keyword? = some k ∧ k.isBinary ∧ power ≤ k.precedence?.getD 0 ∧
        (k = .kwAs ∧ (∃ t c1, castTarget c.skip = .ok (t, c1) ∧
            parseOperators symbols fuel power (left.convert t) c1 = .ok (e, c')) ∨
          k ≠ .kwAs ∧ ∃ right c1,
            parseExpr symbols fuel (k.precedence?.getD 0) c.skip = .ok (right, c1) ∧
            parseOperators symbols fuel power (.binary k left right) c1 = .ok (e, c'))) ∨
      c.peek?.bind keyword? = some .leftParen ∧ (left.withArgs? []).isSome ∧
        ∃ args c1, parseArguments symbols fuel c.skip = .ok (args, c1) ∧
          c1.close .rightParen = .ok c' ∧ e = (left.withArgs? args).getD left := by
  rw [parseOperators]
  constructor
  · intro h
    split at h
    · next hnone =>
        cases h
        exact .inl ⟨fun k hk => absurd (hnone.symm.trans hk) (by simp), rfl, rfl⟩
    · next k hk =>
        split at h
        · next hbin =>
            simp only at h
            split at h
            · next hpower =>
                cases h
                refine .inl ⟨fun k' hk' => ?_, rfl, rfl⟩
                cases hk.symm.trans hk'
                refine ⟨fun _ => hpower, fun heq => ?_⟩
                rw [heq] at hbin
                cases hbin
            · next hpower =>
                refine .inr (.inl ⟨k, hk, hbin, not_lt.1 hpower, ?_⟩)
                split at h
                · next has =>
                    obtain ⟨⟨t, c1⟩, htgt, h⟩ := bind_eq_ok.1 h
                    exact .inl ⟨has, t, c1, htgt, h⟩
                · next has =>
                    obtain ⟨⟨right, c1⟩, hright, h⟩ := bind_eq_ok.1 h
                    exact .inr ⟨has, right, c1, hright, h⟩
        · next hbin =>
            split at h
            · next hcall =>
                obtain ⟨⟨args, c1⟩, hargs, h⟩ := bind_eq_ok.1 h
                obtain ⟨c2, hclose, h⟩ := bind_eq_ok.1 h
                cases h
                simp only [Bool.and_eq_true, decide_eq_true_eq] at hcall
                exact .inr (.inr ⟨hcall.1 ▸ hk, hcall.2, args, c1, hargs, hclose, rfl⟩)
            · next hcall =>
                cases h
                refine .inl ⟨fun k' hk' => ?_, rfl, rfl⟩
                cases hk.symm.trans hk'
                exact ⟨fun h => absurd h hbin, by simpa using hcall⟩
  · rintro (⟨hends, rfl, rfl⟩ | ⟨k, hk, hbin, hpower, h⟩ |
      ⟨hk, hcall, args, c1, hargs, hclose, rfl⟩)
    · split
      · rfl
      · next k hk =>
          obtain ⟨hbelow, hparen⟩ := hends k hk
          split
          · next hbin => simp only [hbelow hbin, if_true]
          · split
            · next hcall =>
                simp only [Bool.and_eq_true, decide_eq_true_eq] at hcall
                rw [hparen hcall.1] at hcall
                cases hcall.2
            · rfl
    · simp only [hk, hbin, if_true, if_neg (not_lt.2 hpower)]
      rcases h with ⟨rfl, t, c1, htgt, h⟩ | ⟨has, right, c1, hright, h⟩
      · exact bind_eq_ok.2 ⟨(t, c1), htgt, h⟩
      · rw [if_neg has]
        exact bind_eq_ok.2 ⟨(right, c1), hright, h⟩
    · simp only [hk, hcall]
      exact bind_eq_ok.2 ⟨(args, c1), hargs, bind_eq_ok.2 ⟨c', hclose, rfl⟩⟩

lemma parseArguments_eq_ok_iff :
    parseArguments symbols (fuel + 1) c = .ok (args, c') ↔ ∃ t, c.peek? = some t ∧
      (t.is .rightParen = true ∧ args = [] ∧ c' = c ∨
        t.is .rightParen = false ∧ parseMoreArguments symbols fuel c = .ok (args, c')) := by
  rw [parseArguments]
  cases c.peek? with
  | none => simp
  | some t =>
    cases hclose : t.is .rightParen with
    | true =>
      simp only [hclose, if_true, Option.some.injEq, exists_eq_left', true_and, reduceCtorEq,
        false_and, or_false, Except.ok.injEq, Prod.mk.injEq]
      exact and_congr eq_comm eq_comm
    | false => simp [hclose]

lemma parseMoreArguments_eq_ok_iff : parseMoreArguments symbols (fuel + 1) c = .ok (args, c') ↔
      ∃ arg c1 t k, parseExpr symbols fuel 0 c = .ok (arg, c1) ∧ c1.peek? = some t ∧
        t.keyword? = some k ∧
        (k = .comma ∧ (∃ others, args = arg :: others ∧
            parseMoreArguments symbols fuel c1.skip = .ok (others, c')) ∨
          k ≠ .comma ∧ args = [arg] ∧ c' = c1) := by
  rw [parseMoreArguments]
  constructor
  · intro h
    obtain ⟨⟨arg, c1⟩, harg, h⟩ := bind_eq_ok.1 h
    simp only at h
    split at h
    · cases h
    · next t hpeek =>
        split at h
        · cases h
        · next k hk =>
            refine ⟨arg, c1, t, k, harg, hpeek, hk, ?_⟩
            split at h
            · next hcomma =>
                obtain ⟨⟨others, c2⟩, hothers, h⟩ := bind_eq_ok.1 h
                cases h
                exact .inl ⟨hcomma, others, rfl, hothers⟩
            · next hcomma =>
                cases h
                exact .inr ⟨hcomma, rfl, rfl⟩
  · rintro ⟨arg, c1, t, k, harg, hpeek, hk, h⟩
    refine bind_eq_ok.2 ⟨(arg, c1), harg, ?_⟩
    simp only [hpeek, hk]
    rcases h with ⟨hcomma, others, rfl, hothers⟩ | ⟨hcomma, rfl, rfl⟩
    · rw [if_pos hcomma]
      exact bind_eq_ok.2 ⟨(others, c'), hothers, rfl⟩
    · rw [if_neg hcomma]
      rfl

end Steps

/-! ## What may follow -/

/-- No expression goes on in front of the tokens. -/
def Stopped (rest : List Token) : Prop := ∀ t, rest.head? = some t → t.stops = true

/-- What follows looks alike to an expression: it starts with the same token, or it stops it. -/
def Alike (old new : List Token) : Prop :=
  new.head? = old.head? ∨ ∀ t, new.head? = some t → t.stops = true

/-- An operator that binds with the power comes next. -/
def Binds (power : Nat) (rest : List Token) : Prop :=
  ∃ t k, rest.head? = some t ∧ t.keyword? = some k ∧ k.isBinary = true ∧
    power ≤ k.precedence?.getD 0

section

variable {power : Nat} {left : Expr} {rest old new : List Token}

lemma stopped_cons {t : Token} (h : t.stops) (rest : List Token) : Stopped (t :: rest) := by
  rintro _ ⟨⟩
  exact h

lemma Alike.append (ts : List Token) (h : ts = [] → Alike old new) :
    Alike (ts ++ old) (ts ++ new) := by
  cases ts with
  | nil => exact h rfl
  | cons t rest => exact .inl rfl

lemma Ends.of_stopped (h : Stopped rest) : Ends power left rest := by
  intro k hk
  obtain ⟨t, ht, hk⟩ := Option.bind_eq_some_iff.1 hk
  have hstop := h t ht
  rw [stops, hk] at hstop
  simp only [Bool.and_eq_true, Bool.not_eq_true', bne_iff_ne] at hstop
  exact ⟨fun hbin => by simp [hbin] at hstop, fun hparen => absurd hparen hstop.2⟩

lemma Ends.of_alike (h : Ends power left old) (hnew : Alike old new) : Ends power left new := by
  rcases hnew with hsame | hstops
  · unfold Ends
    rwa [hsame]
  · exact .of_stopped hstops

lemma Ends.not_binds (h : Ends power left rest) : ¬ Binds power rest := by
  rintro ⟨t, k, ht, hk, hbin, hpower⟩
  have hbelow := (h k (Option.bind_eq_some_iff.2 ⟨t, ht, hk⟩)).1 hbin
  omega

end

/-! ## The grammar of expressions -/

/-- What the functions that read expressions read. -/
inductive ExprPart where
  | expr (power : Nat)
  | operand
  | operators (power : Nat) (left : Expr)
  | arguments
  | moreArguments

/-- The tokens are the part of an expression where `rest` follows, with these trees. -/
inductive Parses (symbols : Symbols) : ExprPart → List Token → List Expr → List Token → Prop
  | expr {power ts us rest left e}
      (hleft : Parses symbols .operand ts [left] (us ++ rest))
      (hrest : Parses symbols (.operators power left) us [e] rest) :
      Parses symbols (.expr power) (ts ++ us) [e] rest
  | atom {t rest e} (h : IsAtom symbols t e) :
      Parses symbols .operand [t] [e] rest
  | unary {t : Token} {ts rest} {k : Keyword} {e} (hk : t.keyword? = some k)
      (hunary : k.isUnary) (he : Parses symbols (.expr unaryPower) ts [e] rest) :
      Parses symbols .operand (t :: ts) [.unary k e] rest
  | paren {t t' : Token} {ts rest e} (hopen : t.keyword? = some .leftParen)
      (he : Parses symbols (.expr 0) ts [e] (t' :: rest))
      (hclose : t'.keyword? = some .rightParen) :
      Parses symbols .operand (t :: (ts ++ [t'])) [e] rest
  | ends {power left rest} (h : Ends power left rest) :
      Parses symbols (.operators power left) [] [left] rest
  | convert {power} {left : Expr} {e} {t t' : Token} {ts rest type}
      (hk : t.keyword? = some .kwAs) (hpower : power ≤ kwAs.precedence?.getD 0)
      (htype : t'.keyword?.bind varType? = some type)
      (hrest : Parses symbols (.operators power (left.convert type)) ts [e] rest) :
      Parses symbols (.operators power left) (t :: t' :: ts) [e] rest
  | binary {power left right e} {t : Token} {ts us rest} {k : Keyword}
      (hk : t.keyword? = some k) (hbin : k.isBinary) (hcast : k ≠ .kwAs)
      (hpower : power ≤ k.precedence?.getD 0)
      (hright : Parses symbols (.expr (k.precedence?.getD 0)) ts [right] (us ++ rest))
      (hrest : Parses symbols (.operators power (.binary k left right)) us [e] rest) :
      Parses symbols (.operators power left) (t :: (ts ++ us)) [e] rest
  | call {power} {left : Expr} {e} {t t' : Token} {ts rest args}
      (hopen : t.keyword? = some .leftParen)
      (hargs : Parses symbols .arguments ts args (t' :: rest))
      (hclose : t'.keyword? = some .rightParen) (hcall : left.withArgs? args = some e) :
      Parses symbols (.operators power left) (t :: (ts ++ [t'])) [e] rest
  | noArguments {t : Token} {rest : List Token} (ht : rest.head? = some t)
      (hclose : t.is .rightParen) : Parses symbols .arguments [] [] rest
  | arguments {t : Token} {ts rest args}
      (ht : (ts ++ rest).head? = some t) (hopen : t.is .rightParen = false)
      (hargs : Parses symbols .moreArguments ts args rest) : Parses symbols .arguments ts args rest
  | lastArgument {t : Token} {ts} {rest : List Token} {k e}
      (he : Parses symbols (.expr 0) ts [e] rest) (ht : rest.head? = some t)
      (hk : t.keyword? = some k) (hcomma : k ≠ .comma) : Parses symbols .moreArguments ts [e] rest
  | moreArguments {t : Token} {ts us rest e args}
      (he : Parses symbols (.expr 0) ts [e] (t :: (us ++ rest))) (hk : t.keyword? = some .comma)
      (hargs : Parses symbols .moreArguments us args rest) :
      Parses symbols .moreArguments (ts ++ t :: us) (e :: args) rest

def ExprPart.Read (symbols : Symbols) (fuel : Nat) (c : Cursor) (out : List Expr) (c' : Cursor) :
    ExprPart → Prop
  | expr power => ∃ e, out = [e] ∧ parseExpr symbols fuel power c = .ok (e, c')
  | operand => ∃ e, out = [e] ∧ parseOperand symbols fuel c = .ok (e, c')
  | operators power left => ∃ e, out = [e] ∧ parseOperators symbols fuel power left c = .ok (e, c')
  | arguments => parseArguments symbols fuel c = .ok (out, c')
  | moreArguments => parseMoreArguments symbols fuel c = .ok (out, c')

section

variable {symbols : Symbols} {fuel power : Nat} {c c' : Cursor} {e left : Expr} {part : ExprPart}
  {ts rest : List Token} {out : List Expr}

lemma ExprPart.Read.parses (fuel : Nat) : ∀ (part : ExprPart) {c c' : Cursor} {out : List Expr},
    part.Read symbols fuel c out c' →
    ∃ ts, c.ahead = ts ++ c'.ahead ∧ Parses symbols part ts out c'.ahead := by
  induction fuel with
  | zero =>
    intro part c c' out h
    cases part with
    | arguments | moreArguments => cases h
    | _ =>
      obtain ⟨e, -, h⟩ := h
      cases h
  | succ fuel ih =>
    intro part c c' out h
    cases part with
    | expr power =>
      obtain ⟨e, rfl, h⟩ := h
      obtain ⟨left, c1, hleft, hrest⟩ := parseExpr_eq_ok_iff.1 h
      obtain ⟨ts, hts, hleft⟩ := ih .operand ⟨left, rfl, hleft⟩
      obtain ⟨us, hus, hrest⟩ := ih (.operators power left) ⟨e, rfl, hrest⟩
      exact ⟨ts ++ us, by rw [hts, hus, append_assoc], .expr (hus ▸ hleft) hrest⟩
    | operand =>
      obtain ⟨e, rfl, h⟩ := h
      obtain ⟨t, hpeek, h⟩ := parseOperand_eq_ok_iff.1 h
      have hahead := ahead_of_peek? hpeek
      rcases h with ⟨hatom, rfl⟩ | ⟨k, a, hk, hunary, rfl, ha⟩ | ⟨hk, c1, he, hclose⟩
      · exact ⟨[t], hahead, .atom hatom⟩
      · obtain ⟨ts, hts, ha⟩ := ih (.expr _) ⟨a, rfl, ha⟩
        exact ⟨t :: ts, by rw [hahead, hts, cons_append], .unary hk hunary ha⟩
      · obtain ⟨ts, hts, he⟩ := ih (.expr _) ⟨e, rfl, he⟩
        obtain ⟨t', hpeek', hk', rfl⟩ := close_eq_ok_iff.1 hclose
        rw [ahead_of_peek? hpeek'] at hts he
        exact ⟨t :: (ts ++ [t']), by rw [hahead, hts]; simp, .paren hk he hk'⟩
    | operators power left =>
      obtain ⟨e, rfl, h⟩ := h
      rcases parseOperators_eq_ok_iff.1 h with ⟨hends, rfl, rfl⟩ | ⟨k, hk, hbin, hpower, h⟩ |
        ⟨hk, hcall, args, c1, hargs, hclose, he⟩
      · exact ⟨[], rfl, .ends hends⟩
      · obtain ⟨t, hpeek, hk⟩ := Option.bind_eq_some_iff.1 hk
        have hahead := ahead_of_peek? hpeek
        rcases h with ⟨rfl, type, c1, htgt, hrest⟩ | ⟨hcast, right, c1, hright, hrest⟩
        · obtain ⟨t', hpeek', htype, rfl⟩ := castTarget_eq_ok_iff.1 htgt
          obtain ⟨ts, hts, hrest⟩ := ih (.operators _ _) ⟨e, rfl, hrest⟩
          rw [ahead_of_peek? hpeek', hts] at hahead
          exact ⟨t :: t' :: ts, hahead, .convert hk hpower htype hrest⟩
        · obtain ⟨ts, hts, hright⟩ := ih (.expr _) ⟨right, rfl, hright⟩
          obtain ⟨us, hus, hrest⟩ := ih (.operators _ _) ⟨e, rfl, hrest⟩
          exact ⟨t :: (ts ++ us), by rw [hahead, hts, hus]; simp,
            .binary hk hbin hcast hpower (hus ▸ hright) hrest⟩
      · obtain ⟨t, hpeek, hk⟩ := Option.bind_eq_some_iff.1 hk
        obtain ⟨ts, hts, hargs⟩ := ih .arguments hargs
        obtain ⟨t', hpeek', hk', rfl⟩ := close_eq_ok_iff.1 hclose
        rw [ahead_of_peek? hpeek'] at hts hargs
        exact ⟨t :: (ts ++ [t']), by rw [ahead_of_peek? hpeek, hts]; simp,
          .call hk hargs hk' (Expr.withArgs?_eq_some_iff.2 ⟨hcall, he⟩)⟩
    | arguments =>
      obtain ⟨t, hpeek, ⟨hclose, rfl, rfl⟩ | ⟨hopen, hargs⟩⟩ := parseArguments_eq_ok_iff.1 h
      · exact ⟨[], rfl, .noArguments hpeek hclose⟩
      · obtain ⟨ts, hts, hargs⟩ := ih .moreArguments hargs
        exact ⟨ts, hts, .arguments (hts ▸ hpeek) hopen hargs⟩
    | moreArguments =>
      obtain ⟨e, c1, t, k, he, hpeek, hk, hrest⟩ := parseMoreArguments_eq_ok_iff.1 h
      obtain ⟨ts, hts, he⟩ := ih (.expr _) ⟨e, rfl, he⟩
      rcases hrest with ⟨rfl, args, rfl, hargs⟩ | ⟨hcomma, rfl, rfl⟩
      · obtain ⟨us, hus, hargs⟩ := ih .moreArguments hargs
        rw [ahead_of_peek? hpeek, hus] at hts he
        exact ⟨ts ++ t :: us, by rw [hts]; simp, .moreArguments he hk hargs⟩
      · exact ⟨ts, hts, .lastArgument he hpeek hk hcomma⟩

/-- A part takes more fuel than this and three for each of its tokens. -/
def ExprPart.extraFuel : ExprPart → Nat
  | operand => 0
  | expr _ | operators _ _ => 1
  | moreArguments => 2
  | arguments => 3

def ExprPart.IsNonempty (rest : List Token) : ExprPart → Prop
  | operators power _ => Binds power rest
  | arguments => False
  | _ => True

lemma Parses.ne_nil (h : Parses symbols part ts out rest) : part.IsNonempty rest → ts ≠ [] := by
  induction h with
  | expr _ _ ihleft _ => simpa using fun _ h => absurd h (ihleft trivial)
  | ends h => exact fun hbinds => absurd hbinds h.not_binds
  | noArguments | arguments => exact False.elim
  | lastArgument _ _ _ _ ih => exact fun _ => ih trivial
  | _ => simp

/-- A part is read from these tokens in front of others with any fuel above `n`. -/
def ExprPart.IsRead (symbols : Symbols) (part : ExprPart) (ts : List Token) (out : List Expr)
    (rest : List Token) (n : Nat) : Prop :=
  ∀ fuel (c : Cursor), n < fuel → c.ahead = ts ++ rest →
    ∃ c', part.Read symbols fuel c out c' ∧ c'.ahead = rest

lemma ExprPart.IsRead.of_succ {n : Nat}
    (h : ∀ fuel (c : Cursor), n ≤ fuel → c.ahead = ts ++ rest →
      ∃ c', part.Read symbols (fuel + 1) c out c' ∧ c'.ahead = rest) :
    part.IsRead symbols ts out rest n := by
  intro fuel c hfuel hc
  cases fuel with
  | zero => exact absurd hfuel (Nat.not_lt_zero n)
  | succ fuel => exact h fuel c (Nat.le_of_lt_succ hfuel) hc

lemma Parses.read (h : Parses symbols part ts out rest) :
    part.IsRead symbols ts out rest (3 * ts.length + part.extraFuel) := by
  induction h with
  | @expr power ts us rest left e hleft _ ihleft ihrest =>
    refine .of_succ fun fuel c hfuel hc => ?_
    -- the operand has tokens, so its fuel pays for the call of the loop behind it
    have hpos := length_pos_iff.2 (hleft.ne_nil trivial)
    simp only [length_append, ExprPart.extraFuel] at hfuel ihleft ihrest
    obtain ⟨c1, ⟨_, ⟨⟩, hleft⟩, hc1⟩ := ihleft fuel c (by omega) (by rw [hc, append_assoc])
    obtain ⟨c2, ⟨_, ⟨⟩, hrest⟩, hc2⟩ := ihrest fuel c1 (by omega) hc1
    exact ⟨c2, ⟨e, rfl, parseExpr_eq_ok_iff.2 ⟨left, c1, hleft, hrest⟩⟩, hc2⟩
  | @atom t rest e hatom =>
    refine .of_succ fun fuel c _ hc => ?_
    exact ⟨c.skip, ⟨e, rfl, parseOperand_eq_ok_iff.2
      ⟨t, peek?_of_ahead hc, .inl ⟨hatom, rfl⟩⟩⟩, ahead_skip_of_ahead hc⟩
  | @unary t ts rest k e hk hunary _ ih =>
    refine .of_succ fun fuel c hfuel hc => ?_
    simp only [length_cons, ExprPart.extraFuel] at hfuel ih
    obtain ⟨c1, ⟨_, ⟨⟩, he⟩, hc1⟩ := ih fuel c.skip (by omega) (ahead_skip_of_ahead hc)
    exact ⟨c1, ⟨_, rfl, parseOperand_eq_ok_iff.2
      ⟨t, peek?_of_ahead hc, .inr (.inl ⟨k, e, hk, hunary, rfl, he⟩)⟩⟩, hc1⟩
  | @paren t t' ts rest e hopen _ hclose ih =>
    refine .of_succ fun fuel c hfuel hc => ?_
    simp only [length_cons, length_append, ExprPart.extraFuel] at hfuel ih
    have hc : c.ahead = t :: (ts ++ t' :: rest) := by simp [hc]
    obtain ⟨c1, ⟨_, ⟨⟩, he⟩, hc1⟩ := ih fuel c.skip (by omega) (ahead_skip_of_ahead hc)
    exact ⟨c1.skip, ⟨e, rfl, parseOperand_eq_ok_iff.2 ⟨t, peek?_of_ahead hc,
      .inr (.inr ⟨hopen, c1, he, close_of_ahead hc1 hclose⟩)⟩⟩,
      ahead_skip_of_ahead hc1⟩
  | @ends power left rest hends =>
    refine .of_succ fun fuel c _ hc => ?_
    rw [nil_append] at hc
    exact ⟨c, ⟨left, rfl, parseOperators_eq_ok_iff.2 (.inl ⟨hc ▸ hends, rfl, rfl⟩)⟩, hc⟩
  | @convert power left e t t' ts rest type hk hpower htype _ ih =>
    refine .of_succ fun fuel c hfuel hc => ?_
    simp only [length_cons, ExprPart.extraFuel] at hfuel ih
    have hc1 := ahead_skip_of_ahead hc
    obtain ⟨c2, ⟨_, ⟨⟩, hrest⟩, hc2⟩ := ih fuel c.skip.skip (by omega)
      (ahead_skip_of_ahead hc1)
    have htgt := castTarget_eq_ok_iff.2 ⟨t', peek?_of_ahead hc1, htype, rfl⟩
    exact ⟨c2, ⟨e, rfl, parseOperators_eq_ok_iff.2 (.inr (.inl ⟨_, keyword_of_ahead hc hk,
      rfl, hpower, .inl ⟨rfl, type, _, htgt, hrest⟩⟩))⟩, hc2⟩
  | @binary power left right e t ts us rest k hk hbin hcast hpower _ _ ihright ihrest =>
    refine .of_succ fun fuel c hfuel hc => ?_
    simp only [length_cons, length_append, ExprPart.extraFuel] at hfuel ihright ihrest
    have hc : c.ahead = t :: (ts ++ (us ++ rest)) := by simp [hc]
    obtain ⟨c1, ⟨_, ⟨⟩, hright⟩, hc1⟩ := ihright fuel c.skip (by omega)
      (ahead_skip_of_ahead hc)
    obtain ⟨c2, ⟨_, ⟨⟩, hrest⟩, hc2⟩ := ihrest fuel c1 (by omega) hc1
    exact ⟨c2, ⟨e, rfl, parseOperators_eq_ok_iff.2 (.inr (.inl ⟨k, keyword_of_ahead hc hk,
      hbin, hpower, .inr ⟨hcast, right, c1, hright, hrest⟩⟩))⟩, hc2⟩
  | @call power left e t t' ts rest args hopen _ hclose hcall ih =>
    refine .of_succ fun fuel c hfuel hc => ?_
    simp only [length_cons, length_append, ExprPart.extraFuel] at hfuel ih
    have hc : c.ahead = t :: (ts ++ t' :: rest) := by simp [hc]
    obtain ⟨c1, hargs, hc1⟩ := ih fuel c.skip (by omega) (ahead_skip_of_ahead hc)
    obtain ⟨hsome, he⟩ := Expr.withArgs?_eq_some_iff.1 hcall
    exact ⟨c1.skip, ⟨e, rfl, parseOperators_eq_ok_iff.2 (.inr (.inr
      ⟨keyword_of_ahead hc hopen, hsome, args, c1, hargs, close_of_ahead hc1 hclose, he⟩))⟩,
      ahead_skip_of_ahead hc1⟩
  | @noArguments t rest ht hclose =>
    refine .of_succ fun fuel c _ hc => ?_
    rw [nil_append] at hc
    exact ⟨c, parseArguments_eq_ok_iff.2
      ⟨t, by rw [Cursor.peek?, hc, ht], .inl ⟨hclose, rfl, rfl⟩⟩, hc⟩
  | @arguments t ts rest args ht hopen _ ih =>
    refine .of_succ fun fuel c hfuel hc => ?_
    simp only [ExprPart.extraFuel] at hfuel ih
    obtain ⟨c1, hargs, hc1⟩ := ih fuel c (by omega) hc
    exact ⟨c1, parseArguments_eq_ok_iff.2
      ⟨t, by rw [Cursor.peek?, hc, ht], .inr ⟨hopen, hargs⟩⟩, hc1⟩
  | @lastArgument t ts rest k e _ ht hk hcomma ih =>
    refine .of_succ fun fuel c hfuel hc => ?_
    simp only [ExprPart.extraFuel] at hfuel ih
    obtain ⟨c1, ⟨_, ⟨⟩, he⟩, hc1⟩ := ih fuel c (by omega) hc
    exact ⟨c1, parseMoreArguments_eq_ok_iff.2 ⟨e, c1, t, k, he, by rw [Cursor.peek?, hc1, ht], hk,
      .inr ⟨hcomma, rfl, rfl⟩⟩, hc1⟩
  | @moreArguments t ts us rest e args _ hk _ ihe ihargs =>
    refine .of_succ fun fuel c hfuel hc => ?_
    simp only [length_cons, length_append, ExprPart.extraFuel] at hfuel ihe ihargs
    obtain ⟨c1, ⟨_, ⟨⟩, he⟩, hc1⟩ := ihe fuel c (by omega) (by simp [hc])
    obtain ⟨c2, hargs, hc2⟩ := ihargs fuel c1.skip (by omega) (ahead_skip_of_ahead hc1)
    exact ⟨c2, parseMoreArguments_eq_ok_iff.2 ⟨e, c1, t, _, he, peek?_of_ahead hc1, hk,
      .inl ⟨rfl, args, rfl, hargs⟩⟩, hc2⟩

/-! ## Expressions read again -/

/-- What may follow a part instead. -/
def ExprPart.Admits (old new : List Token) : ExprPart → Prop
  | expr power | operators power _ => Alike old new ∨ Binds power old
  | operand => Alike old new
  | arguments | moreArguments => new.head? = old.head?

lemma Parses.alike_append (h : Parses symbols (.operators power left) ts out rest)
    {new} (hnew : Alike rest new ∨ Binds power rest) :
    Alike (ts ++ rest) (ts ++ new) :=
  .append _ fun hnil => hnew.resolve_right fun hbinds => h.ne_nil hbinds hnil

lemma Parses.again (h : Parses symbols part ts out rest) : ∀ {new : List Token},
    part.Admits rest new → Parses symbols part ts out new := by
  induction h with
  | expr _ hrest ihleft ihrest =>
    exact fun hnew => .expr (ihleft (hrest.alike_append hnew)) (ihrest hnew)
  | atom h => exact fun _ => .atom h
  | unary hk hunary _ ih => exact fun hnew => .unary hk hunary (ih (.inl hnew))
  | paren hopen _ hclose ih => exact fun _ => .paren hopen (ih (.inl (.inl rfl))) hclose
  | ends h => exact fun hnew => .ends (h.of_alike (hnew.resolve_right h.not_binds))
  | convert hk hpower htype _ ih => exact fun hnew => .convert hk hpower htype (ih hnew)
  | binary hk hbin hcast hpower _ hrest ihright ihrest =>
    exact fun hnew => .binary hk hbin hcast hpower
      (ihright (.inl (hrest.alike_append hnew))) (ihrest hnew)
  | call hopen _ hclose hcall ih => exact fun _ => .call hopen (ih rfl) hclose hcall
  | noArguments ht hclose => exact fun hnew => .noArguments (hnew.trans ht) hclose
  | arguments ht hopen _ ih =>
    intro new hnew
    rw [head?_append, ← hnew, ← head?_append] at ht
    exact .arguments ht hopen (ih hnew)
  | lastArgument _ ht hk hcomma ih =>
    exact fun hnew => .lastArgument (ih (.inl (.inl hnew))) (hnew.trans ht) hk hcomma
  | moreArguments _ hk _ ihe ihargs =>
    exact fun hnew => .moreArguments (ihe (.inl (.inl rfl))) hk (ihargs hnew)

lemma Parses.expression (h : Parses symbols (.expr 0) ts [e] rest) (hc : c.ahead = ts ++ rest) :
    ∃ c', expression symbols c = .ok (e, c') ∧ c'.ahead = rest := by
  have hfuel : 3 * ts.length + 1 < c.fuel := by
    rw [Cursor.fuel, hc, length_append]
    omega
  obtain ⟨c', ⟨_, ⟨⟩, hread⟩, hc'⟩ := h.read c.fuel c hfuel hc
  exact ⟨c', hread, hc'⟩

variable (h : expression symbols c = .ok (e, c'))

include h

lemma expression_parses :
    ∃ ts, c.ahead = ts ++ c'.ahead ∧ Parses symbols (.expr 0) ts [e] c'.ahead :=
  ExprPart.Read.parses c.fuel (.expr 0) ⟨e, rfl, h⟩

/-- An expression is read again wherever its tokens stand, if what follows starts with the same
token or stops it. Where an operator follows, which it left aside, anything may follow. -/
theorem expression_again : ∃ ts, ts ≠ [] ∧ c.ahead = ts ++ c'.ahead ∧ ∀ d rest,
      Alike c'.ahead rest ∨ Binds 0 c'.ahead → d.ahead = ts ++ rest →
        ∃ d', expression symbols d = .ok (e, d') ∧ d'.ahead = rest := by
  obtain ⟨ts, hahead, hparses⟩ := expression_parses h
  exact ⟨ts, hparses.ne_nil trivial, hahead, fun d rest hfollows hd =>
    (hparses.again hfollows).expression hd⟩

omit h in
lemma IsAtom.opensOperand {t : Token} (h : IsAtom symbols t e) : t.opensOperand = true := by
  unfold Token.opensOperand
  rcases h with hatom | ⟨k, hk, -, -, hcall, -⟩
  · cases hk : t.keyword? with
    | none => rfl
    | some k =>
      rw [atom?_of_keyword hk] at hatom
      cases hatom
  · simp [hk, hcall]

omit h in
lemma parseOperand_opens (h : parseOperand symbols fuel c = .ok (e, c')) :
    ∃ t, c.peek? = some t ∧ t.opensOperand = true := by
  cases fuel with
  | zero => cases h
  | succ fuel =>
    obtain ⟨t, hpeek, h⟩ := parseOperand_eq_ok_iff.1 h
    refine ⟨t, hpeek, ?_⟩
    rcases h with ⟨hatom, -⟩ | ⟨k, -, hk, hunary, -⟩ | ⟨hk, -⟩
    · exact hatom.opensOperand
    · simp [opensOperand, hk, hunary]
    · simp [opensOperand, hk]

lemma expression_opens : ∃ t, c.peek? = some t ∧ t.opensOperand := by
  obtain ⟨left, c1, hleft, -⟩ := parseExpr_eq_ok_iff.1 h
  exact parseOperand_opens hleft

end

end ArmStudio.Script
