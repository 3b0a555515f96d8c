import ArmStudio.Proofs.Lookahead

/-!
# Stretches of tokens

A stretch of tokens that was read once is read again wherever it stands, as long as the same token
comes next.
-/

namespace ArmStudio.Script

open Code Cursor List

/-- Something read, with the place behind it. -/
class Ended (β : Type) where
  place : β → Cursor
  moved : β → Cursor → β
  moved_place (r : β) : moved r (place r) = r
  place_moved (r : β) (c : Cursor) : place (moved r c) = c
  moved_moved (r : β) (c d : Cursor) : moved (moved r c) d = moved r d

open Ended (place moved moved_place place_moved moved_moved)

instance : Ended Cursor := ⟨id, fun _ c => c, fun _ => rfl, fun _ _ => rfl, fun _ _ _ => rfl⟩

instance : Ended ParseState :=
  ⟨ParseState.cursor, ParseState.moveTo, fun _ => rfl, fun _ _ => rfl, fun _ _ _ => rfl⟩

instance {α β : Type} [Ended β] : Ended (α × β) :=
  ⟨fun r => place r.2, fun r c => (r.1, moved r.2 c), fun r => by rw [moved_place],
    fun r => place_moved r.2, fun r c d => by rw [moved_moved]⟩

/-- What `f` reads from `c` on, `g` reads from every place with the same tokens ahead, up to the
one after them, as soon as there is fuel for the tokens and `m` more. -/
def Replays {β : Type} [Ended β] (m : Nat) (f : Cursor → Except ParseError β)
    (g : Nat → Cursor → Except ParseError β) (c : Cursor) : Prop :=
  ∀ r, f c = .ok r → ∃ ts, c.ahead = ts ++ (place r).ahead ∧ ∀ n d rest, ts.length + m ≤ n →
    rest.head? = (place r).ahead.head? → d.ahead = ts ++ rest →
      ∃ d', g n d = .ok (moved r d') ∧ d'.ahead = rest

namespace Cursor

variable {c : Cursor} {k : Keyword}

lemma sees_eq_any (c : Cursor) (k : Keyword) : c.sees k = c.peek?.any (Token.is · k) := by
  unfold sees peek?
  cases c.ahead <;> rfl

lemma peek?_of_sees (h : c.sees k) : ∃ t, c.peek? = some t ∧ t.is k := by
  rwa [sees_eq_any, Option.any_eq_true] at h

end Cursor

def onType {α : Type} (other : α) (typed : VarType → α) (k : Keyword) : α :=
  match k.varType? with
  | some t => typed t
  | none => other

def onKeyword {α : Type} (other : α) (worded : Keyword → α) (next : Option Token) : α :=
  match next.bind Token.keyword? with
  | none => other
  | some k => worded k

def onName {α : Type} (named : String → α) (other : α) (next : Option Token) : α :=
  match next.map Token.lexeme with
  | some (.name s) => named s
  | _ => other

namespace Replays

variable {α β γ : Type} [Ended β] [Ended γ] {m : Nat} {f f' : Cursor → Except ParseError β}
  {g g' : Nat → Cursor → Except ParseError β} {c : Cursor} {t : Token}

lemma done (r : β) : Replays m (fun c => .ok (moved r c)) (fun _ c => .ok (moved r c)) c := by
  rintro _ ⟨⟩
  exact ⟨[], by rw [place_moved, nil_append], fun _ d _ _ _ hd => ⟨d, by rw [moved_moved], hd⟩⟩

lemma want {what} :
    Replays m (fun c => (c.want what : Except ParseError β)) (fun _ c => c.want what) c :=
  fun _ h => absurd h want_ne_ok

lemma look {p : Option Token → Cursor → Except ParseError β}
    {q : Option Token → Nat → Cursor → Except ParseError β}
    (h : Replays m (p c.peek?) (q c.peek?) c) :
    Replays m (fun c => p c.peek? c) (fun n c => q c.peek? n c) c := by
  intro r hr
  obtain ⟨ts, hahead, hagain⟩ := h r hr
  refine ⟨ts, hahead, fun n d rest hn hnext hd => ?_⟩
  simp only [peek?_eq_of_append hahead hd hnext]
  exact hagain n d rest hn hnext hd

lemma skip (hpeek : c.peek? = some t) (h : Replays (m + 1) f g c.skip) :
    Replays m (fun c => f c.skip) (fun n c => g n c.skip) c := by
  intro r hr
  obtain ⟨ts, hahead, hagain⟩ := h r hr
  refine ⟨t :: ts, by rw [ahead_of_peek? hpeek, hahead, cons_append], ?_⟩
  intro n d rest hn hnext hd
  rw [length_cons] at hn
  exact hagain n d.skip rest (by omega) hnext (ahead_skip_of_ahead hd)

lemma bind {k : β → Except ParseError γ} {k' : Nat → β → Except ParseError γ}
    (h : Replays m f g c)
    (h' : ∀ r c, Replays m (fun d => k (moved r d)) (fun n d => k' n (moved r d)) c) :
    Replays m (fun c => f c >>= k) (fun n c => g n c >>= k' n) c := by
  intro r' hr'
  obtain ⟨r, hr, hr'⟩ := bind_eq_ok.1 hr'
  obtain ⟨ts, hahead, hagain⟩ := h r hr
  obtain ⟨ts', hahead', hagain'⟩ := h' r (place r) r' (by simpa only [moved_place] using hr')
  refine ⟨ts ++ ts', by rw [hahead, hahead', append_assoc], fun n d rest hn hnext hd => ?_⟩
  rw [length_append] at hn
  have hmiddle : (ts' ++ rest).head? = (place r).ahead.head? := by
    rw [hahead', head?_append, head?_append, hnext]
  obtain ⟨d1, hd1, hahead1⟩ := hagain n d (ts' ++ rest) (by omega) hmiddle
    (by rw [hd, append_assoc])
  obtain ⟨d2, hd2, hahead2⟩ := hagain' n d1 rest (by omega) hnext hahead1
  exact ⟨d2, bind_eq_ok.2 ⟨_, hd1, hd2⟩, hahead2⟩

lemma map {f : Cursor → Except ParseError (α × β)} {g : Nat → Cursor → Except ParseError (α × β)}
    {α' : Type} (v : α → α') (h : Replays m f g c) :
    Replays m (fun c => f c >>= fun r => .ok (v r.1, r.2))
      (fun n c => g n c >>= fun r => .ok (v r.1, r.2)) c := by
  intro _ h'
  obtain ⟨r, hr, ⟨⟩⟩ := bind_eq_ok.1 h'
  obtain ⟨ts, hahead, hagain⟩ := h r hr
  refine ⟨ts, hahead, fun n d rest hn hnext hd => ?_⟩
  obtain ⟨d', hd', hahead'⟩ := hagain n d rest hn hnext hd
  exact ⟨d', bind_eq_ok.2 ⟨_, hd', rfl⟩, hahead'⟩

lemma succ (h : Replays m f (fun n => g (n + 1)) c) : Replays (m + 1) f g c := by
  intro r hr
  obtain ⟨ts, hahead, hagain⟩ := h r hr
  refine ⟨ts, hahead, fun n d rest hn hnext hd => ?_⟩
  obtain ⟨n, rfl⟩ : ∃ k, n = k + 1 := ⟨n - 1, by omega⟩
  exact hagain n d rest (by omega) hnext hd

lemma ite {k} (h : ∀ t, c.peek? = some t → Replays m f g c) (h' : Replays m f' g' c) :
    Replays m (fun c => if c.sees k then f c else f' c)
      (fun n c => if c.sees k then g n c else g' n c) c := by
  simp only [sees_eq_any]
  refine look (p := fun o c => if o.any (Token.is · k) then f c else f' c)
    (q := fun o n c => if o.any (Token.is · k) then g n c else g' n c) ?_
  cases hpeek : c.peek? with
  | none => exact h'
  | some t =>
    cases hk : t.is k
    · simpa [hk] using h'
    · simpa [hk] using h t hpeek

lemma keyword {fs : Keyword → Cursor → Except ParseError β}
    {gs : Keyword → Nat → Cursor → Except ParseError β} (h : Replays m f g c)
    (h' : ∀ k t, c.peek? = some t → Replays m (fs k) (gs k) c) :
    Replays m (fun c => onKeyword (f c) (fs · c) c.peek?)
      (fun n c => onKeyword (g n c) (gs · n c) c.peek?) c := by
  refine look (p := fun o c => onKeyword (f c) (fs · c) o)
    (q := fun o n c => onKeyword (g n c) (gs · n c) o) ?_
  unfold onKeyword
  cases hk : c.peek?.bind Token.keyword? with
  | none => exact h
  | some k =>
    obtain ⟨t, hpeek, -⟩ := Option.bind_eq_some_iff.1 hk
    exact h' k t hpeek

lemma type {what : Expectation} (hpeek : c.peek? = some t) (k : Keyword) (b : VarType → β) :
    Replays m (fun c => onType (c.want what) (fun v => .ok (moved (b v) c.skip)) k)
      (fun _ c => onType (c.want what) (fun v => .ok (moved (b v) c.skip)) k) c := by
  unfold onType
  cases k.varType? with
  | none => exact .want
  | some v => exact .skip hpeek (.done (b v))

lemma name {fs : String → Cursor → Except ParseError β}
    {gs : String → Nat → Cursor → Except ParseError β}
    (h : ∀ s t, c.peek? = some t → Replays m (fs s) (gs s) c) (h' : Replays m f g c) :
    Replays m (fun c => onName (fs · c) (f c) c.peek?)
      (fun n c => onName (gs · n c) (g n c) c.peek?) c := by
  refine look (p := fun o c => onName (fs · c) (f c) o)
    (q := fun o n c => onName (gs · n c) (g n c) o) ?_
  cases hpeek : c.peek? with
  | none => exact h'
  | some t =>
    obtain ⟨lexeme, _⟩ := t
    cases lexeme with
    | name s => exact h s _ hpeek
    | _ => exact h'

end Replays

/-! ## Declarations -/

section

variable {m : Nat} {c : Cursor} {symbols : Symbols} {what : Expectation} {k : Keyword}
  {d : VarDecl} {isConst : Bool}

lemma Cursor.replays_expect :
    Replays m (fun c => c.expect k what) (fun _ c => c.expect k what) c :=
  .ite (fun _ hpeek => .skip hpeek (.done c)) .want

lemma replays_nextName : Replays m (nextName · what) (fun _ c => nextName c what) c :=
  .name (fun s _ hpeek => .skip hpeek (.done (s, c))) .want

lemma replays_declaredType : Replays m declaredType (fun _ => declaredType) c :=
  .ite (fun _ hpeek => .skip hpeek (.keyword (.done (none, c)) fun k _ hpeek =>
    .type hpeek k fun v => (some v, c))) (.done (none, c))

lemma replays_resultType : Replays m resultType (fun _ => resultType) c :=
  .ite (fun _ hpeek => .skip hpeek (.keyword (.done (VarType.void, c)) fun k _ hpeek =>
    .type hpeek k fun v => (v, c))) (.done (VarType.void, c))

lemma replays_expression : Replays m (fun c => (⟨c, symbols⟩ : ParseState).expression)
    (fun _ c => (⟨c, symbols⟩ : ParseState).expression) c := by
  intro r h
  obtain ⟨⟨e, c'⟩, hexpr, ⟨⟩⟩ := bind_eq_ok.1 h
  obtain ⟨ts, -, hahead, hagain⟩ := expression_again hexpr
  refine ⟨ts, hahead, fun _ d rest _ hnext hd => ?_⟩
  obtain ⟨d', hd', hahead'⟩ := hagain d rest (.inl (.inl hnext)) hd
  exact ⟨d', bind_eq_ok.2 ⟨(e, d'), hd', rfl⟩, hahead'⟩

lemma replays_initialValue {declared : Option VarType} :
    Replays m (fun c => initialValue declared ⟨c, symbols⟩)
      (fun _ c => initialValue declared ⟨c, symbols⟩) c := by
  refine .ite (fun t hpeek => .skip hpeek (replays_expression.map some)) ?_
  cases declared with
  | none => exact .want
  | some type => exact .done (none, (⟨c, symbols⟩ : ParseState))

lemma replays_enterDecl :
    Replays m (fun c => enterDecl d ⟨c, symbols⟩) (fun _ c => enterDecl d ⟨c, symbols⟩) c := by
  unfold enterDecl
  simp only
  generalize (if d.isConst then symbols.declareGlobal _ _ else _) = entered
  obtain ⟨_ | _, symbols'⟩ := entered
  · intro r h
    obtain ⟨line, -, ⟨⟩⟩ := bind_eq_ok.1 h
  · exact .done (d, (⟨c, symbols'⟩ : ParseState))

lemma replays_singleDecl : Replays m (fun c => singleDecl isConst ⟨c, symbols⟩)
    (fun _ c => singleDecl isConst ⟨c, symbols⟩) c := by
  unfold singleDecl
  simp only [ParseState.moveTo]
  refine .bind replays_nextName fun named _ => ?_
  dsimp only [moved]
  refine .bind replays_declaredType fun typed _ => ?_
  dsimp only [moved]
  refine .bind replays_initialValue fun valued _ => ?_
  dsimp only [moved, ParseState.moveTo]
  cases initialType typed.1 valued.1 valued.2.symbols with
  | error e => exact fun _ h => by cases h
  | ok type => exact replays_enterDecl

lemma replays_declList (fuel : Nat) : ∀ {m : Nat} {c : Cursor} {symbols : Symbols},
    Replays (m + 1) (fun c => declList isConst fuel ⟨c, symbols⟩)
      (fun n c => declList isConst n ⟨c, symbols⟩) c := by
  induction fuel with
  | zero => exact fun _ h => by cases h
  | succ fuel ih =>
    intro m c symbols
    refine .succ (.bind replays_singleDecl fun r _ => .ite (fun t hpeek => ?_)
      (.ite (fun _ _ => .done ([r.1], (⟨c, r.2.symbols⟩ : ParseState))) .want))
    exact .skip hpeek (ih.map (r.1 :: ·))

lemma sees_semicolon_of_declList {fuel : Nat} : ∀ {s s' : ParseState} {ds : List VarDecl},
    declList isConst fuel s = .ok (ds, s') → s'.cursor.sees .semicolon := by
  induction fuel with
  | zero => exact fun h => by cases h
  | succ fuel ih =>
    intro s s' ds h
    obtain ⟨⟨d, s1⟩, -, h⟩ := bind_eq_ok.1 h
    simp only at h
    split at h
    · obtain ⟨_, hrest, ⟨⟩⟩ := bind_eq_ok.1 h
      exact ih hrest
    · split at h
      · next hsemi =>
          cases h
          exact hsemi
      · exact absurd h want_ne_ok

lemma sees_semicolon_of_varDecls {s s' ds}
    (h : varDecls s = .ok (ds, s')) : s'.cursor.sees .semicolon := by
  revert h
  fun_cases varDecls s with
  | case2 => exact fun h => absurd h want_ne_ok
  | _ => exact sees_semicolon_of_declList

/-- A declaration with given fuel. -/
def varDeclsWith (n : Nat) (c : Cursor) (symbols : Symbols) :
    Except ParseError (List VarDecl × ParseState) :=
  if c.sees .kwConst then
    if c.skip.sees .kwLet then declList true n ⟨c.skip.skip, symbols⟩
    else c.skip.want .letKeyword
  else declList false n ⟨c.skip, symbols⟩

lemma replays_varDecls {t : Token} {n : Nat} (hpeek : c.peek? = some t) :
    Replays 0 (varDeclsWith n · symbols) (varDeclsWith · · symbols) c := by
  exact .ite (fun _ _ => .skip hpeek (.ite (fun _ hlet => .skip hlet (replays_declList n)) .want))
    (.skip hpeek (replays_declList n))

/-! ## Heads of functions -/

lemma constParamType_eq_ok_iff : constParamType c = .ok v ↔
    ∃ t, c.peek? = some t ∧ t.keyword?.bind Keyword.varType? = some v := by
  unfold constParamType
  cases c.peek? with
  | none => simp
  | some t =>
    cases hk : t.keyword? with
    | none => simp [hk]
    | some k =>
      cases htype : k.varType? with
      | none => simp [hk, htype, want_ne_ok]
      | some found => simp [hk, htype]

def constTypeThere (c : Cursor) : Except ParseError (Bool × VarType × Cursor) := do
  return (true, ← constParamType c, c.skip)

lemma replays_constTypeThere : Replays m constTypeThere (fun _ => constTypeThere) c := by
  intro r h
  obtain ⟨found, hfound, ⟨⟩⟩ := bind_eq_ok.1 h
  obtain ⟨t, hpeek, hword⟩ := constParamType_eq_ok_iff.1 hfound
  refine ⟨[t], ahead_of_peek? hpeek, fun _ d rest _ _ hd => ⟨d.skip, ?_, ahead_skip_of_ahead hd⟩⟩
  exact bind_eq_ok.2 ⟨found, constParamType_eq_ok_iff.2 ⟨t, by rw [peek?, hd]; rfl, hword⟩, rfl⟩

lemma replays_paramType : Replays m paramType (fun _ => paramType) c := by
  refine .bind replays_expect fun _ _ => ?_
  refine .keyword .want fun k t hpeek => ?_
  by_cases hk : k = .kwConst
  · subst hk
    exact .skip hpeek replays_constTypeThere
  · simp only [hk]
    exact .type hpeek k fun v => (false, v, c)

def paramBehind (name : String) (n : Nat) (c : Cursor) :
    Except ParseError (List Param × Cursor) := do
  let (isConst, type, c) ← paramType c
  if c.sees .comma then
    let (ps, c) ← paramList n c.skip
    return (⟨type, name, isConst⟩ :: ps, c)
  else return ([⟨type, name, isConst⟩], c)

lemma replays_paramList (fuel : Nat) : ∀ {m : Nat} {c : Cursor},
    Replays (m + 1) (paramList fuel) paramList c := by
  induction fuel with
  | zero => exact fun _ h => by cases h
  | succ fuel ih =>
    intro m c
    refine .succ (.name (fun name t hpeek => ?_) (.ite (fun _ _ => .done ([], c)) .want))
    refine .skip (f := paramBehind name fuel) (g := paramBehind name) hpeek
      (.bind replays_paramType fun r _ => ?_)
    dsimp only [moved]
    exact .ite (fun _ hcomma => .skip hcomma (ih.map (_ :: ·))) (.done ([_], c))

def Symbols.inside (symbols : Symbols) (params : List Param) : Symbols :=
  params.foldl (fun (symbols : Symbols) p =>
    (symbols.declareLocal p.name (.ofVar p.type p.isConst)).2) symbols.resetCount.enter

/-- A function from its name to before its body, with given fuel. -/
def funcHead (n : Nat) (c : Cursor) (symbols : Symbols) :
    Except ParseError ((String × List Param × VarType) × ParseState) := do
  let (name, c) ← nextName c .functionName
  let c ← c.expect .leftParen .leftParenthesis
  let (params, c) ← paramList n c
  let c ← c.expect .rightParen .rightParenthesis
  let (result, c) ← resultType c
  let declared := symbols.declareGlobal name (.ofFunction (params.map Param.type) result)
  if !declared.1 then throw (.redefined name (← c.lastLine))
  return ((name, params, result), ⟨c, Symbols.inside declared.2 params⟩)

def funcOf (head : String × List Param × VarType) (body : List Stmt) (symbols : Symbols) :
    FuncDecl :=
  ⟨head.1, head.2.1, head.2.2, body, symbols.leave.localCount⟩

lemma funcDecl_eq (c : Cursor) (symbols : Symbols) : funcDecl ⟨c, symbols⟩ = do
    let (head, s) ← funcHead (4 * c.ahead.length + 4) c.skip symbols
    let (body, s) ← block (4 * c.ahead.length + 4) s
    return (funcOf head body s.symbols, ⟨s.cursor, s.symbols.leave.resetCount⟩) := by
  unfold funcDecl funcHead
  simp only [bind_assoc]
  refine bind_congr fun named => bind_congr fun c1 => bind_congr fun listed => ?_
  refine bind_congr fun c2 => bind_congr fun typed => ?_
  split
  · cases typed.2.lastLine <;> rfl
  · rfl

lemma replays_funcHead {n : Nat} :
    Replays 1 (funcHead n · symbols) (funcHead · · symbols) c := by
  unfold funcHead
  refine .bind replays_nextName fun named _ => ?_
  dsimp +instances only [moved]
  refine .bind replays_expect fun _ _ => ?_
  refine .bind (replays_paramList n) fun listed _ => ?_
  dsimp +instances only [moved]
  refine .bind replays_expect fun _ _ => ?_
  refine .bind replays_resultType fun typed _ => ?_
  dsimp +instances only [moved]
  generalize symbols.declareGlobal _ _ = declared
  obtain ⟨_ | _, symbols'⟩ := declared
  · intro r h
    obtain ⟨line, -, ⟨⟩⟩ := bind_eq_ok.1 h
  · exact .done (_, (⟨c, _⟩ : ParseState))

end

/-! ## Tokens before a given one -/

/-- Wherever the tokens stand before `next`, they are read and give `b`. -/
def Reads {β : Type} (f : Cursor → Except ParseError β) (ts : List Token) (b : Cursor → β)
    (next : Token) : Prop :=
  ∀ c rest, c.ahead = ts ++ next :: rest → ∃ c', f c = .ok (b c') ∧ c'.ahead = next :: rest

variable (symbols : Symbols) (ts : List Token)

/-- The tokens are read as the expression if `next` stands behind them. -/
def Spells (e : Expr) (next : Token) : Prop :=
  Reads (expression symbols) ts (fun c => (e, c)) next

/-- The tokens are read as the declarations if `next` stands behind them. -/
def Declares (ds : List VarDecl) (symbols' : Symbols)
    (next : Token) : Prop :=
  Reads (fun c => varDecls ⟨c, symbols⟩) ts (fun c => (ds, ⟨c, symbols'⟩)) next

/-- The tokens are a function from its name on, where `next` is the first of its body. -/
def Heads (head : String × List Param × VarType)
    (symbols' : Symbols) (next : Token) : Prop :=
  ∀ n, ts.length < n →
    Reads (fun c => funcHead n c symbols) ts (fun c => (head, ⟨c, symbols'⟩)) next

lemma Replays.reads {β : Type} [Ended β] {m : Nat} {f : Cursor → Except ParseError β}
    {g : Nat → Cursor → Except ParseError β} {c : Cursor} {r : β} {next : Token}
    (h : Replays m f g c) (hr : f c = .ok r) (hnext : (place r).peek? = some next) :
    ∃ ts, c.ahead = ts ++ (place r).ahead ∧
      ∀ n, ts.length + m ≤ n → Reads (g n) ts (moved r) next := by
  obtain ⟨ts, hahead, hagain⟩ := h r hr
  exact ⟨ts, hahead, fun n hn d rest hd => hagain n d (next :: rest) hn hnext.symm hd⟩

section

variable {c c' : Cursor} {symbols symbols' : Symbols} {ts : List Token} {e : Expr} {t next : Token}
  {s' : ParseState}

lemma exists_spells (h : expression symbols c = .ok (e, c')) (hnext : c'.peek? = some next) :
    ∃ ts, c.ahead = ts ++ c'.ahead ∧ Spells symbols ts e next := by
  obtain ⟨ts, -, hahead, hagain⟩ := expression_again h
  exact ⟨ts, hahead, fun d rest hd => hagain d (next :: rest) (.inl (.inl hnext.symm)) hd⟩

lemma Spells.fill (h : Spells symbols ts e t) (ht : next.stops ∨ t.isOperator) :
    Spells symbols ts e next := by
  obtain ⟨c', hread, hahead⟩ := h (.start (ts ++ [t])) [] rfl
  obtain ⟨ts', -, hahead', hagain⟩ := expression_again hread
  rw [hahead] at hahead' hagain
  obtain rfl : ts = ts' := append_cancel_right hahead'
  refine fun d rest hd => hagain d (next :: rest) ?_ hd
  rcases ht with hstops | hoperator
  · refine .inl (.inr fun t' ht' => ?_)
    cases ht'
    exact hstops
  · obtain ⟨k, hk, hbin⟩ := Option.any_eq_true _ _ |>.1 hoperator
    exact .inr ⟨t, k, rfl, hk, hbin, zero_le⟩

lemma Spells.first (h : Spells symbols ts e next) : ∃ t rest, ts = t :: rest ∧ t.opensOperand := by
  obtain ⟨c', hread, hahead⟩ := h (.start (ts ++ [next])) [] rfl
  obtain ⟨ts', hne, hahead', -⟩ := expression_again hread
  rw [hahead] at hahead'
  obtain rfl : ts = ts' := append_cancel_right hahead'
  obtain ⟨t, rest, rfl⟩ := exists_cons_of_ne_nil hne
  obtain ⟨t', hpeek, hopens⟩ := expression_opens hread
  cases hpeek
  exact ⟨t, rest, rfl, hopens⟩

lemma exists_declares {ds} (hpeek : c.peek? = some t)
    (h : varDecls ⟨c, symbols⟩ = .ok (ds, s')) : ∃ ts semicolon, c.ahead = ts ++ s'.cursor.ahead ∧
      s'.cursor.peek? = some semicolon ∧ semicolon.is .semicolon ∧
      Declares symbols ts ds s'.symbols semicolon := by
  obtain ⟨semicolon, hnext, his⟩ := peek?_of_sees (sees_semicolon_of_varDecls h)
  obtain ⟨ts, hahead, hreads⟩ := (replays_varDecls hpeek).reads h hnext
  refine ⟨ts, semicolon, hahead, hnext, his, fun d rest hd => ?_⟩
  exact hreads d.ahead.length (by rw [hd, length_append]; omega) d rest hd

end

end ArmStudio.Script
