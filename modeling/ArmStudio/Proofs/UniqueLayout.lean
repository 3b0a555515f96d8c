import ArmStudio.Proofs.Layout

/-!
# Tokens have one layout

Reading is a function, so where a part of a layout ends is settled by where it starts. What the
tokens of the part are there for then follows from the first of them.
-/

namespace ArmStudio.Script

open Code List Token

/-- Reading settles where a stretch of tokens ends, and what it gives. -/
theorem Reads.determined {β : Type} (place : β → Cursor) {f}
    {b b'} {ts ts' rest rest'} {next next' : Token}
    (h : Reads f ts b next) (h' : Reads f ts' b' next') (hb : ∀ c, place (b c) = c)
    (hb' : ∀ c, place (b' c) = c) (heq : ts ++ next :: rest = ts' ++ next' :: rest') :
    (∃ c, b c = b' c) ∧ ts = ts' ∧ next = next' ∧ rest = rest' := by
  obtain ⟨c, hread, hahead⟩ := h (.start (ts ++ next :: rest)) rest rfl
  obtain ⟨c', hread', hahead'⟩ := h' (.start (ts ++ next :: rest)) rest' heq
  have hsame : b c = b' c' := Except.ok.inj (hread.symm.trans hread')
  obtain rfl : c = c' := by rw [← hb c, hsame, hb']
  obtain ⟨rfl, rfl⟩ := cons.inj (hahead.symm.trans hahead')
  exact ⟨⟨c, hsame⟩, append_cancel_right heq, rfl, rfl⟩

section

variable {part : Part} {σ σ1 σ1' : Symbols} {body body' : List Stmt} {ps ps' : List Place}
  {rest rest' : List Token}

/-- What may stand behind a part, so that reading it stops there. -/
def Follows : Part → List Token → Prop
  | .statements, rest => ∃ close tail, rest = close :: tail ∧ close.is .rightBrace
  | .statement, rest => NoElse rest
  | .branch first, rest => first.is .kwIf = true → NoElse rest

lemma Laid.determined (h : Laid part σ body σ1 ps) (h' : Laid part σ body' σ1' ps')
    (hrest : Follows part rest) (hrest' : Follows part rest')
    (heq : spelt ps ++ rest = spelt ps' ++ rest') :
    body = body' ∧ σ1 = σ1' ∧ rest = rest' := by
  let c : Cursor := .start (spelt ps ++ rest)
  let fuel := 4 * (ps.length + ps'.length) + 1
  cases part with
  | statements =>
    obtain ⟨close, tail, rfl, hclose⟩ := hrest
    obtain ⟨close', tail', rfl, hclose'⟩ := hrest'
    obtain ⟨c1, hread, hahead⟩ := h.readsPart fuel c close tail (by omega) hclose rfl
    obtain ⟨c2, hread', hahead'⟩ := h'.readsPart fuel c close' tail' (by omega) hclose' heq
    cases hread.symm.trans hread'
    exact ⟨rfl, rfl, hahead.symm.trans hahead'⟩
  | statement =>
    obtain ⟨hpart, -⟩ | ⟨p, qs, rfl, -⟩ := h.starts
    · cases hpart
    · obtain ⟨c1, hread, hahead⟩ := h.readsPart fuel c p.token rest (by omega) hrest rfl rfl
      obtain ⟨c2, hread', hahead'⟩ := h'.readsPart fuel c p.token rest' (by omega) hrest' rfl heq
      cases hread.symm.trans hread'
      exact ⟨rfl, rfl, hahead.symm.trans hahead'⟩
  | branch first =>
    obtain ⟨c1, hread, hahead⟩ := h.readsPart fuel c rest (by omega) hrest rfl
    obtain ⟨c2, hread', hahead'⟩ := h'.readsPart fuel c rest' (by omega) hrest' heq
    cases hread.symm.trans hread'
    exact ⟨rfl, rfl, hahead.symm.trans hahead'⟩

variable {word first first' t : Token} {ts ts' : List Token}

section

variable (h : Laid (.branch first) σ body σ1 ps)

include h

lemma Laid.ne_of_branch (hbrace : word.is .leftBrace = false) (hif : word.is .kwIf = false) :
    word :: ts ≠ spelt ps := by
  intro heq
  obtain ⟨qs, rfl⟩ := h.eq_cons_of_branch
  obtain rfl : word = first := (cons.inj heq).1
  rcases h.is_of_branch with hfirst | hfirst
  · cases hfirst.symm.trans hbrace
  · cases hfirst.symm.trans hif

lemma Laid.ne_of_branch_word {k} (hword : word.is k)
    (hbrace : k ≠ .leftBrace := by decide) (hif : k ≠ .kwIf := by decide) : word :: ts ≠ spelt ps :=
  h.ne_of_branch (is_eq_false_of_ne hword hbrace) (is_eq_false_of_ne hword hif)

lemma Laid.first_eq {σ'} (h' : Laid (.branch first') σ' body' σ1' ps')
    (heq : spelt ps = spelt ps') : first = first' := by
  obtain ⟨qs, rfl⟩ := h.eq_cons_of_branch
  obtain ⟨qs', rfl⟩ := h'.eq_cons_of_branch
  exact (cons.inj heq).1

end

lemma Token.ne_if_of_brace (h : t.is .leftBrace) : t.is .kwIf ≠ true := by
  rw [is_eq_false_of_ne h (by decide)]
  exact Bool.false_ne_true

lemma guarded_unique {cond cond' : Expr} (hcond : Spells σ ts cond first)
    (hcond' : Spells σ ts' cond' first') (hfirst : first.is .leftBrace)
    (h : Laid (.branch first) σ body σ1 ps) (h' : Laid (.branch first') σ body' σ1' ps')
    (ih : ∀ {body' σ1' ps'}, Laid (.branch first) σ body' σ1' ps' → body' = body →
      spelt ps = spelt ps' → ps = ps') (rest rest' : List Token)
    (heq : ts ++ (spelt ps ++ rest) = ts' ++ (spelt ps' ++ rest')) :
    ts = ts' ∧ ps = ps' ∧ σ1 = σ1' ∧ rest = rest' := by
  obtain ⟨rfl, rfl⟩ : ts = ts' ∧ first = first' := by
    obtain ⟨qs, rfl⟩ := h.eq_cons_of_branch
    obtain ⟨qs', rfl⟩ := h'.eq_cons_of_branch
    obtain ⟨-, hts, hnext, -⟩ := Reads.determined Prod.snd hcond hcond' (fun _ => rfl)
      (fun _ => rfl) heq
    exact ⟨hts, hnext⟩
  have hblock (rest : List Token) : Follows (.branch first) rest :=
    fun hif => absurd hif (ne_if_of_brace hfirst)
  have htail := append_cancel_left heq
  obtain ⟨hbody, hsyms, rfl⟩ := h.determined h' (hblock _) (hblock _) htail
  exact ⟨rfl, ih h' hbody.symm (append_cancel_right htail), hsyms, rfl⟩

lemma closed_unique {f : Token → Place} (hf : ∀ t, (f t).token = t) {close close' : Token}
    (heq : spelt (ts.map .seen ++ [f close]) = spelt (ts'.map .seen ++ [f close'])) :
    ts.map .seen ++ [f close] = ts'.map .seen ++ [f close'] := by
  simp only [spelt_append, spelt_seen, spelt_cons, spelt_nil, hf] at heq
  obtain ⟨rfl, hclose⟩ := append_inj' heq rfl
  cases hclose
  rfl

lemma Laid.unique_of_body (h : Laid part σ body σ1 ps) (h' : Laid part σ body' σ1' ps')
    (hbody : body' = body) (heq : spelt ps = spelt ps') : ps = ps' := by
  induction h generalizing body' σ1' ps' with
  | nil => exact (map_eq_nil_iff.1 heq.symm).symm
  | @cons σ σ1 σ2 first rest ps qs hfirst hrest ihfirst ihrest =>
    cases h' with
    | nil => exact map_eq_nil_iff.1 heq
    | @cons _ σ1' _ first' rest' ps' qs' hfirst' hrest' =>
      let brace : Token := ⟨.keyword .rightBrace, 0⟩
      have heq' : spelt ps ++ (spelt qs ++ [brace]) = spelt ps' ++ (spelt qs' ++ [brace]) := by
        rw [← append_assoc, ← spelt_append, heq]
        simp
      obtain ⟨rfl, rfl, hleft⟩ := hfirst.determined hfirst' (hrest.noElse rfl [])
        (hrest'.noElse rfl []) heq'
      rw [hleft] at heq'
      rw [ihfirst hfirst' rfl (append_cancel_right heq'),
        ihrest hrest' (append_cancel_left hbody) (append_cancel_right hleft)]
  | @expr σ t ts e close hopen hclose he =>
    cases h' with
    | expr => exact closed_unique Place.token_passed heq
    | branch hbr =>
      obtain ⟨_, _, hts, hopens⟩ := he.first
      cases hts
      exact absurd heq (hbr.ne_of_branch hopen
        (is_eq_false_of_opensOperand hopens rfl))
    | _ => simp at hbody
  | @ret σ word t ts e close hword _ _ =>
    cases h' with
    | ret =>
      obtain ⟨rfl, htail⟩ := cons.inj heq
      exact congrArg _ (closed_unique Place.token_passed htail)
    | branch hbr => exact absurd heq (hbr.ne_of_branch_word hword)
    | _ => simp at hbody
  | retNothing hword | leaveLoop hword =>
    cases h' with
    | branch hbr => exact absurd heq (hbr.ne_of_branch_word hword)
    | retNothing | leaveLoop => first | (simp at hbody; done) | (cases heq; rfl)
    | _ => simp at hbody
  | @decls σ σ1 word ts ds close hword _ _ =>
    cases h' with
    | decls => exact closed_unique Place.token_seen heq
    | branch hbr =>
      rcases hword with hword | hword <;> exact absurd heq (hbr.ne_of_branch_word hword)
    | _ => cases ds <;> cases hbody
  | @branch σ σ1 first body ps hbr ih =>
    cases h' with
    | branch hbr' =>
      obtain rfl := hbr.first_eq hbr' heq
      exact ih hbr' hbody heq
    | expr hopen _ he =>
      obtain ⟨_, _, hts, hopens⟩ := he.first
      cases hts
      exact absurd heq.symm (hbr.ne_of_branch hopen
        (is_eq_false_of_opensOperand hopens rfl))
    | decls hword =>
      rcases hword with hword | hword <;> exact absurd heq.symm (hbr.ne_of_branch_word hword)
    | ret hword | retNothing hword | leaveLoop hword | whileDo hword | loop hword =>
      exact absurd heq.symm (hbr.ne_of_branch_word hword)
  | @whileDo σ σ1 word first ts cond body ps hword hcond hfirst hwhile ih =>
    cases h' with
    | whileDo _ hcond' _ hwhile' =>
      simp only [spelt_cons, spelt_append, spelt_seen] at heq
      obtain ⟨hword, htail⟩ := cons.inj heq
      obtain ⟨rfl, rfl, -⟩ := guarded_unique hcond hcond' hfirst hwhile hwhile' ih [] []
        (by simpa using htail)
      cases hword
      rfl
    | branch hbr => exact absurd heq (hbr.ne_of_branch_word hword)
    | _ => simp at hbody
  | @loop σ σ1 word first body ps hword hfirst hloop ih =>
    cases h' with
    | loop _ _ hloop' =>
      obtain ⟨rfl, htail⟩ := cons.inj heq
      cases hbody
      obtain rfl := hloop.first_eq hloop' htail
      rw [ih hloop' rfl htail]
      rfl
    | branch hbr => exact absurd heq (hbr.ne_of_branch_word hword)
    | _ => simp at hbody
  | @block σ σ1 first close body ps hfirst hstmts hclose ih =>
    cases h' with
    | block _ hstmts' _ =>
      simp only [spelt_cons, spelt_append, spelt_nil] at heq
      obtain ⟨hps, hend⟩ := append_inj' (cons.inj heq).2 rfl
      cases hend
      rw [ih hstmts' hbody hps]
    | ifOnly hword | ifElse hword => exact absurd hword (ne_if_of_brace hfirst)
  | @ifOnly σ σ1 word first ts cond yes ps hword hcond hfirst hyes ih =>
    cases h' with
    | block hbrace => exact absurd hword (ne_if_of_brace hbrace)
    | ifOnly _ hcond' _ hyes' =>
      obtain ⟨rfl, rfl, -⟩ := guarded_unique hcond hcond' hfirst hyes hyes' ih [] []
        (by simpa using heq)
      rfl
    | @ifElse _ _ _ _ _ other' _ _ _ _ _ _ qs' _ hcond' _ hyes' _ _ =>
      obtain ⟨-, -, -, hrest⟩ := guarded_unique hcond hcond' hfirst hyes hyes' ih []
        (other' :: spelt qs') (by simpa using heq)
      cases hrest
  | @ifElse σ σ1 σ2 word first other second ts cond yes no ps qs hword hcond hfirst hyes hother hno
      ihyes ihno =>
    cases h' with
    | block hbrace => exact absurd hword (ne_if_of_brace hbrace)
    | ifOnly _ hcond' _ hyes' =>
      obtain ⟨-, -, -, hrest⟩ := guarded_unique hcond hcond' hfirst hyes hyes' ihyes
        (other :: spelt qs) [] (by simpa using heq)
      cases hrest
    | @ifElse _ _ _ _ _ other' _ _ _ _ _ _ qs' _ hcond' _ hyes' _ hno' =>
      cases hbody
      obtain ⟨rfl, rfl, rfl, hrest⟩ := guarded_unique hcond hcond' hfirst hyes hyes' ihyes
        (other :: spelt qs) (other' :: spelt qs') (by simpa using heq)
      obtain ⟨rfl, hqs⟩ := cons.inj hrest
      obtain rfl := hno.first_eq hno' hqs
      rw [ihno hno' rfl hqs]

lemma Laid.unique (h : Laid .statements σ body σ1 ps) (h' : Laid .statements σ body' σ1' ps')
    (hrest : Follows .statements rest) (hrest' : Follows .statements rest')
    (heq : spelt ps ++ rest = spelt ps' ++ rest') : ps = ps' ∧ σ1 = σ1' ∧ rest = rest' := by
  obtain ⟨hbody, hsyms, rfl⟩ := h.determined h' hrest hrest' heq
  exact ⟨h.unique_of_body h' hbody.symm (append_cancel_right heq), hsyms, rfl⟩

lemma Token.not_declares_of_fn (h : t.is .kwFn) : ¬(t.is .kwLet = true ∨ t.is .kwConst) := by
  rw [is_eq_false_of_ne h (by decide), is_eq_false_of_ne h (by decide)]
  simp

lemma LaidOut.unique {ds} (h : LaidOut σ ds σ1 ps) {ds'} (h' : LaidOut σ ds' σ1' ps')
    (heq : spelt ps = spelt ps') : ps = ps' := by
  induction h generalizing ds' σ1' ps' with
  | nil => exact (map_eq_nil_iff.1 heq.symm).symm
  | @func σ σ1 σ2 σ3 word first close ts head body rest ps qs hword hhead _ hbody hclose _ ih =>
    cases h' with
    | nil => cases heq
    | vars hword' =>
      obtain ⟨rfl, -⟩ := cons.inj heq
      exact absurd hword' (not_declares_of_fn hword)
    | @func _ σ1' σ2' _ _ first' close' ts' _ _ _ ps' qs' _ hhead' _ hbody' hclose' hrest' =>
      simp only [spelt_cons, spelt_append, spelt_seen, Place.token_seen] at heq
      obtain ⟨rfl, htail⟩ := cons.inj heq
      let fuel := ts.length + ts'.length + 1
      obtain ⟨⟨_, hsame⟩, rfl, rfl, hinner⟩ := Reads.determined (fun r => r.2.cursor)
        (hhead fuel (by omega)) (hhead' fuel (by omega)) (fun _ => rfl) (fun _ => rfl) htail
      cases hsame
      obtain ⟨rfl, rfl, hend⟩ := hbody.unique hbody' ⟨_, _, rfl, hclose⟩ ⟨_, _, rfl, hclose'⟩
        hinner
      obtain ⟨rfl, hqs⟩ := cons.inj hend
      rw [ih hrest' hqs]
  | @vars σ σ1 σ2 word close ts ds rest qs hword hds hclose hrest ih =>
    cases h' with
    | nil => cases heq
    | func hword' =>
      obtain ⟨rfl, -⟩ := cons.inj heq
      exact absurd hword (not_declares_of_fn hword')
    | vars _ hds' _ hrest' =>
      simp only [spelt_cons, spelt_append, spelt_seen, Place.token_seen] at heq
      obtain ⟨⟨_, hsame⟩, hts, rfl, hqs⟩ := Reads.determined (fun r => r.2.cursor) hds hds'
        (fun _ => rfl) (fun _ => rfl) heq
      cases hsame
      cases hts
      rw [ih hrest' hqs]

end

end ArmStudio.Script
