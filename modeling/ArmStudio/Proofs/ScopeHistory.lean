import ArmStudio.Proofs.Tables
import Mathlib.Data.List.Induction

/-!
# Scopes after a history of steps

A table of scopes is changed by entering and leaving scopes and by declarations. `run_disciplined`
says what holds after every history. It rests on `found_run`: the entries of each scope are the
declarations of the history whose scope has not been left.
-/

namespace ArmStudio.Script.Scopes

/-- What is done to the scopes. -/
inductive Step (α : Type) where
  | enter
  | exit
  | declareLocal (name : String) (info : α)
  | declareGlobal (name : String) (info : α)

open Step

variable {α : Type}

/-- The table after a step. Leaving the global scope fails and changes nothing. -/
def after (s : Scopes α) : Step α → Scopes α
  | .enter => s.enter
  | .exit => s.exit.toOption.getD s
  | .declareLocal name info => (s.declareLocal name info).2
  | .declareGlobal name info => (s.declareGlobal name info).2

def run (steps : List (Step α)) : Scopes α := steps.foldl after empty

/-- What a step declares successfully: the name, its information, and how many scopes are around the
one where it is entered. -/
def declared? (s : Scopes α) : Step α → Option (String × α × Nat)
  | .declareLocal name info =>
    if (s.declareLocal name info).1 then some (name, info, s.inner.length) else none
  | .declareGlobal name info => if (s.declareGlobal name info).1 then some (name, info, 0) else none
  | _ => none

/-- The step at place `i` of a history declared a name, in the scope with `level` scopes around it,
and that scope has not been left since. -/
inductive InForce (name : String) (info : α) : List (Step α) → Nat → Nat → Prop
  | declared {steps step level} (h : (run steps).declared? step = some (name, info, level)) :
      InForce name info (steps ++ [step]) steps.length level
  | kept {steps step i level} (h : InForce name info steps i level)
      (hinside : level ≤ (run (steps ++ [step])).inner.length) :
      InForce name info (steps ++ [step]) i level

/-- The scopes entered in a list of steps are left in it, and `n` others besides. Nothing is
declared globally. -/
def Closes : Nat → List (Step α) → Prop
  | n, [] => n = 0
  | n, .enter :: rest => Closes (n + 1) rest
  | 0, .exit :: _ => False
  | n + 1, .exit :: rest => Closes n rest
  | n, .declareLocal _ _ :: rest => Closes n rest
  | _, .declareGlobal _ _ :: _ => False

/-- A scope is entered, and left behind the steps inside. -/
def block (body : List (Step α)) : List (Step α) := .enter :: body ++ [.exit]

/-- The number of steps that declare a local name successfully. -/
def localsDeclared (s : Scopes α) : List (Step α) → Nat
  | [] => 0
  | .declareLocal name info :: rest =>
    (if (s.declareLocal name info).1 then 1 else 0) +
      localsDeclared (s.declareLocal name info).2 rest
  | step :: rest => localsDeclared (s.after step) rest

/-! ## Entries by scope -/

/-- What a level of the scopes has under a name. -/
def found (s : Scopes α) (level : Nat) (name : String) : Option α :=
  s.all[level]?.bind (·.find? name)

section

variable (s : Scopes α) (level : Nat) (name : String)

lemma lookup?_eq_findSome? : s.lookup? name = s.all.reverse.findSome? (·.find? name) := by
  simp [lookup?, all, findFirst_eq]

variable {s level name} in
lemma le_of_found {info : α} (h : s.found level name = some info) : level ≤ s.inner.length := by
  obtain ⟨t, ht, -⟩ := Option.bind_eq_some_iff.1 h
  obtain ⟨hlt, -⟩ := List.getElem?_eq_some_iff.1 ht
  simp only [all, List.length_cons, List.length_reverse] at hlt
  omega

lemma isDefined_iff : s.isDefined name ↔ ∃ t ∈ s.all, t.contains name := by
  rw [isDefined, lookup?_eq_findSome?, List.isSome_findSome?]
  simp [Table.contains]

variable {s level name} in
lemma isDefined_of_found {info : α} (h : s.found level name = some info) : s.isDefined name := by
  obtain ⟨t, ht, hname⟩ := Option.bind_eq_some_iff.1 h
  exact (isDefined_iff s name).2 ⟨t, List.mem_of_getElem? ht, by simp [Table.contains, hname]⟩

lemma found_eq_ite :
    s.found level name = if level ≤ s.inner.length then s.found level name else none := by
  split
  next => rfl
  next hlt => exact Option.eq_none_iff_forall_ne_some.2 fun _ h => hlt (le_of_found h)

/-- The entries of the innermost scope, and those of the scopes around it. -/
lemma found_cons (outer t : Table α) (rest : List (Table α)) (count : Nat) :
    found ⟨outer, t :: rest, count⟩ level name =
      if level = rest.length + 1 then t.find? name else found ⟨outer, rest, count⟩ level name := by
  have hall : all ⟨outer, t :: rest, count⟩ = all ⟨outer, rest, count⟩ ++ [t] := by simp [all]
  have hlen : (all ⟨outer, rest, count⟩).length = rest.length + 1 := by simp [all]
  rw [found, found, hall]
  split
  next heq => simp [heq, ← hlen]
  next hne => grind

lemma found_insert_outer (key : String) (info : α) (count : Nat) :
    found ⟨s.outer.insert key info, s.inner, count⟩ level name =
      if level = 0 ∧ key = name then some info else s.found level name := by
  cases level with
  | zero => simp [found, all, Table.find?_insert]
  | succ level => simp [found, all]

/-- A step that declares a name enters it in its scope and changes nothing else. -/
lemma found_declared {step : Step α} {key : String} {info : α} {place : Nat}
    (h : s.declared? step = some (key, info, place)) : s.isDefined key = false ∧
      (s.after step).found level name =
        (if level = place ∧ key = name then some info else s.found level name) ∧
      (s.after step).inner.length = s.inner.length := by
  cases step with
  | enter | exit => cases h
  | declareLocal x value =>
    cases hdef : s.isDefined x with
    | true => simp [declared?, declareLocal, hdef] at h
    | false =>
      rcases s with ⟨outer, _ | ⟨t, rest⟩, count⟩ <;>
        simp [declared?, declareLocal, hdef] at h <;> obtain ⟨rfl, rfl, rfl⟩ := h <;>
        simp only [after, declareLocal, hdef, Bool.false_eq_true, if_false]
      · exact ⟨trivial, found_insert_outer ⟨outer, [], count⟩ _ _ _ _ _, trivial⟩
      · refine ⟨trivial, ?_, rfl⟩
        rw [found_cons, found_cons, Table.find?_insert]
        split <;> simp_all [found, all]
  | declareGlobal x value =>
    cases hdef : s.isDefined x with
    | true => simp [declared?, declareGlobal, hdef] at h
    | false =>
      simp only [declared?, declareGlobal, hdef] at h
      cases h
      rw [after, declareGlobal, if_neg (by simp [hdef])]
      exact ⟨hdef, found_insert_outer _ _ _ _ _ _, rfl⟩

/-- A step that declares nothing leaves the entries, but for those of a scope that is left. -/
lemma found_undeclared {step : Step α} (h : s.declared? step = none) :
    (s.after step).found level name =
      if level ≤ (s.after step).inner.length then s.found level name else none := by
  rw [found_eq_ite (s.after step)]
  split
  next hin =>
    rcases s with ⟨outer, inner, count⟩
    cases step with
    | enter =>
      -- the new scope has no entries
      show found ⟨outer, .empty :: inner, count⟩ level name = _
      rw [found_cons, Table.find?_empty]
      split
      next heq => rw [found_eq_ite, if_neg (by simp [heq])]
      next => rfl
    | exit =>
      cases inner with
      | nil => rfl
      | cons t rest =>
        have hin : level ≤ rest.length := hin
        rw [found_cons, if_neg (by omega)]
        rfl
    | declareLocal x value =>
      by_cases hdef : isDefined ⟨outer, inner, count⟩ x = true
      · rw [after, declareLocal, if_pos hdef]
      · cases inner <;> simp [declared?, declareLocal, hdef] at h
    | declareGlobal x value =>
      by_cases hdef : isDefined ⟨outer, inner, count⟩ x = true
      · rw [after, declareGlobal, if_pos hdef]
      · simp [declared?, declareGlobal, hdef] at h
  next => rfl

end

lemma run_concat (steps : List (Step α)) (step : Step α) :
    run (steps ++ [step]) = (run steps).after step := by
  simp [run]

variable {name : String} {info info' : α} {i i' level level' : Nat} {steps : List (Step α)}

lemma inForce_concat {step : Step α} :
    InForce name info (steps ++ [step]) i level ↔
      (run steps).declared? step = some (name, info, level) ∧ i = steps.length ∨
        InForce name info steps i level ∧ level ≤ ((run steps).after step).inner.length := by
  rw [← run_concat]
  constructor
  · generalize hsteps : steps ++ [step] = all
    rintro (h | ⟨h, hinside⟩) <;> obtain ⟨rfl, hstep⟩ := List.append_inj' hsteps rfl <;> cases hstep
    · exact .inl ⟨h, rfl⟩
    · exact .inr ⟨h, hinside⟩
  · rintro (⟨h, rfl⟩ | ⟨h, hinside⟩)
    · exact .declared h
    · exact .kept h hinside

/-- The entries of a scope are the declarations in force there. -/
lemma found_run :
    (run steps).found level name = some info ↔ ∃ i, InForce name info steps i level := by
  induction steps using List.reverseRecOn with
  | nil =>
    have hnone : ¬∃ i, InForce name info [] i level := by
      rintro ⟨i, h⟩
      generalize hsteps : [] = steps at h
      cases h <;> simp at hsteps
    simp only [hnone, iff_false]
    simp only [run, List.foldl_nil, found, all, empty]
    grind [Table.find?_empty]
  | append_singleton steps step ih =>
    simp only [inForce_concat, exists_or, exists_and_left, exists_eq, and_true, exists_and_right,
      ← ih, run_concat]
    cases h : (run steps).declared? step with
    | none =>
      rw [found_undeclared _ _ _ h]
      grind
    | some d =>
      rcases d with ⟨key, value, place⟩
      obtain ⟨hnew, hfound, hlen⟩ := found_declared _ level name h
      have hold := @isDefined_of_found _ (run steps) level name info
      have hinside := @le_of_found _ (run steps) level name info
      grind

/-- A name is declared only while it is not visible, so that at most one declaration is in force. -/
lemma InForce.unique (h : InForce name info steps i level)
    (h' : InForce name info' steps i' level') : i = i' ∧ level = level' := by
  induction steps using List.reverseRecOn with
  | nil =>
    generalize hsteps : [] = steps at h
    cases h <;> simp at hsteps
  | append_singleton steps step ih =>
    have hno {value value' : α} {j place place' : Nat}
        (hnew : (run steps).declared? step = some (name, value, place))
        (hold : InForce name value' steps j place') : False := by
      have hdef := isDefined_of_found (found_run.2 ⟨j, hold⟩)
      rw [(found_declared _ 0 name hnew).1] at hdef
      cases hdef
    rcases inForce_concat.1 h with ⟨hd, rfl⟩ | ⟨hk, -⟩ <;>
      rcases inForce_concat.1 h' with ⟨hd', rfl⟩ | ⟨hk', -⟩
    · rw [hd] at hd'
      cases hd'
      exact ⟨rfl, rfl⟩
    · exact (hno hd hk').elim
    · exact (hno hd' hk).elim
    · exact ih hk hk'

lemma inForce_of_lookup? (h : (run steps).lookup? name = some info) :
    ∃ i level, InForce name info steps i level := by
  rw [lookup?_eq_findSome?] at h
  obtain ⟨t, ht, hname⟩ := List.exists_of_findSome?_eq_some h
  obtain ⟨level, hlevel⟩ := List.mem_iff_getElem?.1 (List.mem_reverse.1 ht)
  have hfound : (run steps).found level name = some info := by simp [found, hlevel, hname]
  obtain ⟨i, hi⟩ := found_run.1 hfound
  exact ⟨i, level, hi⟩

lemma lookup?_of_inForce (h : InForce name info steps i level) :
    (run steps).lookup? name = some info := by
  have hfound := found_run.2 ⟨i, h⟩
  obtain ⟨info', hlookup⟩ := Option.isSome_iff_exists.1 (isDefined_of_found hfound)
  obtain ⟨i', level', h'⟩ := inForce_of_lookup? hlookup
  obtain ⟨-, rfl⟩ := h.unique h'
  rw [hlookup, ← hfound, found_run.2 ⟨i', h'⟩]

/-! ## Inside a scope -/

lemma fst_declareLocal (s : Scopes α) (name : String) (info : α) :
    (s.declareLocal name info).1 = !s.isDefined name := by
  cases h : s.isDefined name <;> simp only [declareLocal, h] <;> grind

lemma fst_declareGlobal (s : Scopes α) (name : String) (info : α) :
    (s.declareGlobal name info).1 = !s.isDefined name := by
  cases h : s.isDefined name <;> simp [declareGlobal, h]

lemma localCount_foldl (s : Scopes α) (steps : List (Step α)) :
    (steps.foldl after s).localCount = s.localCount + localsDeclared s steps := by
  fun_induction localsDeclared s steps with
  | case1 => rfl
  | case2 s name info rest ih =>
    rw [List.foldl_cons, after, ih, localCount_declareLocal, fst_declareLocal]
    cases s.isDefined name <;> simp [Nat.add_assoc]
  | case3 s step rest hstep ih =>
    have hsame : (s.after step).localCount = s.localCount := by
      cases step with
      | enter => rfl
      | exit => rcases s with ⟨outer, _ | _, count⟩ <;> rfl
      | declareLocal name info => exact (hstep name info rfl).elim
      | declareGlobal name info =>
        simp only [after, declareGlobal]
        split <;> rfl
    rw [List.foldl_cons, ih, hsame]

/-- Steps that leave what they enter and the innermost `n` scopes, but not the one around these,
keep all scopes outside. -/
lemma outside_unchanged (s : Scopes α) (n : Nat) (body : List (Step α)) (hn : n < s.inner.length)
    (h : Closes n body) : (body.foldl after s).outer = s.outer ∧ (body.foldl after s).inner ≠ [] ∧
      (body.foldl after s).inner.tail = s.inner.drop (n + 1) := by
  fun_induction Closes n body generalizing s with
  | case1 n =>
    subst h
    exact ⟨rfl, List.ne_nil_of_length_pos hn, by simp⟩
  | case2 n rest ih => simpa [after, enter] using ih s.enter (by simpa [enter] using hn) h
  | case3 | case6 => cases h
  | case4 n rest ih =>
    rcases s with ⟨outer, _ | ⟨t, inner⟩, count⟩
    · simp at hn
    · exact ih ⟨outer, inner, count⟩ (by simpa using hn) h
  | case5 n name info rest ih =>
    obtain ⟨houter, htail, hne⟩ := s.declareLocal_keeps name info
      (List.ne_nil_of_length_pos (Nat.zero_lt_of_lt hn))
    have hlen := congrArg List.length htail
    have hpos := List.length_pos_iff.2 hne
    rw [List.length_tail, List.length_tail] at hlen
    have hih := ih (s.declareLocal name info).2 (by omega) h
    rwa [houter, ← List.drop_tail, htail, List.drop_tail] at hih

/-- The scopes after a history. Names stand in one scope only, and are declared exactly if they are
visible in none. A lookup gives the latest declaration in force and fails if there is none. Entering
a scope, steps inside and leaving it change nothing but the count, by the names declared. -/
theorem run_disciplined (steps : List (Step α)) :
    ((run steps).all.Pairwise fun t u => ∀ name, ¬(t.contains name ∧ u.contains name)) ∧
      (∀ name info,
        (((run steps).declareLocal name info).1 ↔ ∀ t ∈ (run steps).all, ¬t.contains name) ∧
        (((run steps).declareGlobal name info).1 ↔ ∀ t ∈ (run steps).all, ¬t.contains name)) ∧
      (∀ name info, (run steps).lookup? name = some info ↔
        ∃ i level, InForce name info steps i level ∧
          ∀ info' i' level', InForce name info' steps i' level' → i' ≤ i) ∧
      (∀ name, (run steps).lookup? name = none ↔ ∀ info i level, ¬InForce name info steps i level) ∧
      ∀ body, Closes 0 body → (block body).foldl after (run steps) =
        { run steps with
          localCount := (run steps).localCount + localsDeclared (run steps) (block body) } := by
  refine ⟨?_, fun name info => ⟨?_, ?_⟩, fun name info => ⟨fun h => ?_, ?_⟩, fun name => ?_,
    fun body hbody => ?_⟩
  · refine List.pairwise_iff_getElem.2 fun i j hi hj hlt name hboth => ?_
    obtain ⟨info, hinfo⟩ := Option.isSome_iff_exists.1 hboth.1
    obtain ⟨info', hinfo'⟩ := Option.isSome_iff_exists.1 hboth.2
    have hfound : (run steps).found i name = some info := by simp [found, hi, hinfo]
    have hfound' : (run steps).found j name = some info' := by simp [found, hj, hinfo']
    obtain ⟨_, h⟩ := found_run.1 hfound
    obtain ⟨_, h'⟩ := found_run.1 hfound'
    have hsame := (h.unique h').2
    omega
  · rw [fst_declareLocal]
    simpa using (isDefined_iff (run steps) name).not
  · rw [fst_declareGlobal]
    simpa using (isDefined_iff (run steps) name).not
  · obtain ⟨i, level, hi⟩ := inForce_of_lookup? h
    exact ⟨i, level, hi, fun _ _ _ h' => Nat.le_of_eq (h'.unique hi).1⟩
  · rintro ⟨i, level, hi, -⟩
    exact lookup?_of_inForce hi
  · rw [Option.eq_none_iff_forall_ne_some]
    refine ⟨fun h info i level hi => h info (lookup?_of_inForce hi), fun h info hinfo => ?_⟩
    obtain ⟨i, level, hi⟩ := inForce_of_lookup? hinfo
    exact h info i level hi
  · obtain ⟨houter, hne, htail⟩ :=
      outside_unchanged (run steps).enter 0 body (by simp [enter]) hbody
    have hcount := localCount_foldl (run steps) (block body)
    rw [← hcount, block, List.cons_append, List.foldl_cons, List.foldl_append, after]
    rcases hinside : body.foldl after (run steps).enter with ⟨outer, _ | ⟨t, inner⟩, count⟩
    · exact absurd (by rw [hinside]) hne
    · rw [hinside] at houter htail
      cases houter
      cases htail
      rfl

end ArmStudio.Script.Scopes
