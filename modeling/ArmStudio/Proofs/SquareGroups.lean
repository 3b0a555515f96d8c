import ArmStudio.Proofs.Assembling
import ArmStudio.Vision.Errand
import Mathlib.Data.List.Sublists

/-!
# Groups of squares that lie close together

The first square and all that are close to it are a group, then those of the others, so the groups
take every square apart although closeness is not transitive. Traits are kept of the squares that
are there and looked up by the places in the whole list: a list in which squares are missing is
merged like the others alone only if nothing is missing in front of the last one.
-/

namespace ArmStudio.Vision

open Number List

/-- The step succeeds, with a result that has the property. -/
def Yields {ε α : Type} (x : Except ε α) (P : α → Prop) : Prop := ∃ a, x = .ok a ∧ P a

namespace Yields

variable {ε α β : Type} {x : Except ε α} {P : α → Prop} {Q : β → Prop}

lemma of_ok {a : α} (h : P a) : Yields (.ok a : Except ε α) P := ⟨a, rfl, h⟩

lemma bind {f} (hx : Yields x P) (hf : ∀ a, P a → Yields (f a) Q) : Yields (x >>= f) Q := by
  obtain ⟨a, rfl, ha⟩ := hx
  exact hf a ha

lemma foldlM {f : α → β → Except ε α} : ∀ {l : List β} {a : α}, P a →
    (∀ b ∈ l, ∀ a, P a → Yields (f a b) P) → Yields (l.foldlM f a) P
  | [], _, ha, _ => of_ok ha
  | b :: _, a, ha, h => (h b mem_cons_self a ha).bind fun _ ha' =>
    foldlM ha' fun c hc => h c (mem_cons_of_mem b hc)

lemma mapM {f : α → Except ε β} {R : α → β → Prop} : ∀ {l : List α},
    (∀ a ∈ l, Yields (f a) (R a)) → Yields (l.mapM f) (Forall₂ R l)
  | [], _ => of_ok .nil
  | a :: rest, h => by
    rw [mapM_cons]
    exact (h a mem_cons_self).bind fun b hb =>
      (mapM fun c hc => h c (mem_cons_of_mem a hc)).bind fun bs hbs => of_ok (.cons hb hbs)

end Yields

/-! ## Groups -/

section

variable {ε ι : Type} {near : ι → ι → Bool} {items : List ι} {gs : List (List ι)}

/-- The first item and those near to it are a group, and the others are grouped in the same way. -/
inductive Grouped (near : ι → ι → Bool) : List ι → List (List ι) → Prop
  | nil : Grouped near [] []
  | cons (i : ι) {rest : List ι} {gs} (h : Grouped near (rest.filter (!near i ·)) gs) :
      Grouped near (i :: rest) ((i :: rest.filter (near i ·)) :: gs)

lemma split_yields {test : ι → Except ε Bool} {passes : ι → Bool} : ∀ {l : List ι},
    (∀ i ∈ l, Yields (test i) (· = passes i)) →
      Yields (split test l) (· = (l.filter passes, l.filter (!passes ·)))
  | [], _ => .of_ok rfl
  | i :: rest, h => by
    refine (h i mem_cons_self).bind fun passed hpass =>
      (split_yields fun j hj => h j (mem_cons_of_mem i hj)).bind fun parts hparts => .of_ok ?_
    subst hpass hparts
    cases hi : passes i <;> simp [hi]

lemma groupsWithin_yields {close : ι → ι → Except ε Bool} : ∀ {bound : Nat} {items : List ι},
    items.length ≤ bound → (∀ i ∈ items, ∀ j ∈ items, Yields (close i j) (· = near i j)) →
      Yields (groupsWithin close bound items) (Grouped near items)
  | 0, items, hlen, _ => by
    rw [length_eq_zero_iff.1 (Nat.le_zero.1 hlen)]
    exact .of_ok .nil
  | _ + 1, [], _, _ => .of_ok .nil
  | bound + 1, i :: rest, hlen, hclose => by
    -- The items far from the first are fewer, so the smaller bound is enough for them.
    have hin : ∀ j ∈ rest.filter (!near i ·), j ∈ i :: rest :=
      fun j hj => mem_cons_of_mem i (mem_filter.1 hj).1
    have hshort : (rest.filter (!near i ·)).length ≤ bound :=
      (length_filter_le _ _).trans (Nat.le_of_succ_le_succ hlen)
    have hfar := groupsWithin_yields hshort fun j hj k hk => hclose j (hin j hj) k (hin k hk)
    refine (split_yields fun j hj => hclose i mem_cons_self j (mem_cons_of_mem i hj)).bind
      fun parts hparts => ?_
    subst hparts
    exact hfar.bind fun gs hgs => .of_ok (.cons i hgs)

namespace Grouped

lemma perm (h : Grouped near items gs) : gs.flatten.Perm items := by
  induction h with
  | nil => exact .nil
  | cons i _ ih =>
    rw [flatten_cons, cons_append]
    exact .cons i ((Perm.append_left _ ih).trans (filter_append_perm _ _))

/-- A group is a part of the items in their order, behind an item that is near to all of it. -/
lemma led (h : Grouped near items gs) : ∀ g ∈ gs,
    ∃ i rest, g = i :: rest ∧ g <+ items ∧ ∀ j ∈ rest, near i j = true := by
  induction h with
  | nil => simp
  | @cons i rest gs _ ih =>
    rintro g (_ | ⟨_, hg⟩)
    · exact ⟨i, _, rfl, filter_sublist.cons_cons i, fun j hj => (mem_filter.1 hj).2⟩
    · obtain ⟨k, others, rfl, hsub, hnear⟩ := ih g hg
      exact ⟨k, others, rfl, (hsub.trans filter_sublist).cons i, hnear⟩

/-- The first item of a group stands before those of later groups, and is near to none of them. -/
lemma apart (h : Grouped near items gs) {before : ι → ι → Prop} (hitems : items.Pairwise before) :
    gs.Pairwise fun g g' => ∀ i ∈ g.head?, ∀ j ∈ g'.head?, before i j ∧ near i j = false := by
  induction h with
  | nil => exact .nil
  | @cons i rest gs hrest ih =>
    obtain ⟨hfirst, hothers⟩ := pairwise_cons.1 hitems
    refine .cons (fun g hg => ?_) (ih (hothers.sublist filter_sublist))
    obtain ⟨k, others, rfl, hsub, -⟩ := hrest.led g hg
    obtain ⟨hk, hfar⟩ := mem_filter.1 (hsub.mem mem_cons_self)
    simpa [hfirst k hk] using hfar

end Grouped

end

/-! ## Traits -/

variable (traits : List Traits)

/-- Whether the squares with these traits at two places are close. -/
def closeAt (i j : Nat) : Except VisionError Bool := do
  (← traitsAt traits i).close (← traitsAt traits j)

def nearAt (i j : Nat) : Bool := (closeAt traits i j).toOption.getD false

variable {traits : List Traits} {i j : Nat}

/-- Neither area being zero, closeness is decided. -/
lemma Traits.close_yields {a b : Traits} (ha : a.area.isZero = false) (hb : b.area.isZero = false) :
    Yields (a.close b) fun _ => True := by
  unfold Traits.close
  by_cases hless : b.area.lt a.area = true
  · simp only [hless, if_true, ha]
    exact .of_ok trivial
  · simp only [hless, Bool.false_eq_true, if_false, hb]
    exact .of_ok trivial

section

variable (htraits : ∀ t ∈ traits, t.area.isZero = false)

include htraits

lemma traitsAt_yields (h : i < traits.length) :
    Yields (traitsAt traits i) fun t => t.area.isZero = false := by
  rw [traitsAt, getElem?_eq_getElem h]
  exact .of_ok (htraits _ (getElem_mem h))

/-- A place without traits ends the test. -/
lemma closeAt_eq (i j : Nat) : closeAt traits i j =
    if i < traits.length ∧ j < traits.length then .ok (nearAt traits i j) else .error .listEnd := by
  by_cases hi : i < traits.length
  · obtain ⟨a, hat, ha⟩ := traitsAt_yields htraits hi
    by_cases hj : j < traits.length
    · obtain ⟨b, hbt, hb⟩ := traitsAt_yields htraits hj
      obtain ⟨c, hc, -⟩ := Traits.close_yields ha hb
      have hclose : closeAt traits i j = .ok c := by rw [closeAt, hat, hbt]; exact hc
      rw [if_pos ⟨hi, hj⟩, nearAt, hclose]
      rfl
    · rw [if_neg fun h => hj h.2, closeAt, hat, traitsAt, getElem?_eq_none (not_lt.1 hj)]
      rfl
  · rw [if_neg fun h => hi h.1, closeAt, traitsAt, getElem?_eq_none (not_lt.1 hi)]
    rfl

lemma largestIn_yields {group : List Nat} {first} (h : ∀ i ∈ first :: group, i < traits.length) :
    Yields (largestIn traits first group) (· ∈ first :: group) := by
  refine .foldlM mem_cons_self fun i hi best hbest => ?_
  have hi := mem_cons_of_mem first hi
  refine (traitsAt_yields htraits (h i hi)).bind fun _ _ =>
    (traitsAt_yields htraits (h best hbest)).bind fun _ _ => .of_ok ?_
  split
  · exact hi
  · exact hbest

end

/-! ## Squares -/

/-- Four corners of a kind that the library measures, around some area. -/
def IsSquare (lib : Library) (p : List Point) : Prop :=
  p.length = 4 ∧ Lab.measurable p = true ∧ (lib.area p).isZero = false

instance (lib : Library) (p : List Point) : Decidable (IsSquare lib p) :=
  inferInstanceAs (Decidable (_ ∧ _))

lemma cornerAt_yields {p} (h : p.length = 4) {n : Nat} (hn : n ∈ range 4) :
    Yields (cornerAt p n) fun _ => True := by
  have hn : n < p.length := h ▸ mem_range.1 hn
  rw [cornerAt, getElem?_eq_getElem hn]
  exact .of_ok trivial

lemma nearestCorner_yields (p : Point) {q : List Point} (hq : q.length = 4) :
    Yields (nearestCorner p q) fun _ => True := by
  refine .bind (.foldlM (P := fun _ => True) trivial fun n hn b _ => ?_) fun _ _ => .of_ok trivial
  exact (cornerAt_yields hq hn).bind fun _ _ => .of_ok trivial

lemma mergeGroup_yields (squares : List (List Point)) (hsqs : ∀ p ∈ squares, p.length = 4)
    {largest} (hlargest : largest.length = 4) :
    ∃ p, mergeGroup squares largest = .ok p := by
  refine (Yields.mapM (R := fun _ _ => True) fun n hn => ?_).imp fun _ h => h.1
  refine (cornerAt_yields hlargest hn).bind fun p _ => ?_
  refine .bind (.mapM (R := fun _ _ => True) fun q hq => nearestCorner_yields p (hsqs q hq))
    fun near _ => ?_
  split <;> exact .of_ok trivial

/-! ## Merging -/

variable (squares : List (Option (List Point)))

def squareAt (i : Nat) : List Point :=
  ((squares[i]?).getD none).getD []

/-- The places of the squares that are there. -/
def places : List Nat :=
  (range squares.length).filter fun i => ((squares[i]?).getD none).isSome

/-- What a group of places is merged to: a square alone stays, others are merged around one. -/
def Merged (group : List Nat) (p : List Point) : Prop :=
  (∀ i, group = [i] → p = squareAt squares i) ∧ (1 < group.length →
    ∃ k ∈ group, mergeGroup (group.map (squareAt squares)) (squareAt squares k) = .ok p)

variable {squares} {s : Station}

/-- The squares that are there have traits: they are grouped, and each group is merged. -/
lemma merge_yields (htraits : ∀ t ∈ traits, t.area.isZero = false)
    (hplaces : ∀ i ∈ places squares, i < traits.length ∧ (squareAt squares i).length = 4) :
    ∃ gs, groups (closeAt traits) (places squares) = .ok gs ∧
      Grouped (nearAt traits) (places squares) gs ∧
      Yields (merge squares traits) (Forall₂ (Merged squares) gs) := by
  obtain ⟨gs, hgs, hgrp⟩ : Yields (groups (closeAt traits) (places squares))
      (Grouped (nearAt traits) (places squares)) := by
    refine groupsWithin_yields le_rfl fun i hi j hj => ?_
    rw [closeAt_eq htraits, if_pos ⟨(hplaces i hi).1, (hplaces j hj).1⟩]
    exact .of_ok rfl
  refine ⟨gs, hgs, hgrp, ?_⟩
  show Yields (groups (closeAt traits) (places squares) >>= _) _
  rw [hgs]
  refine .mapM fun g hg => ?_
  obtain ⟨i, rest, rfl, hsub, -⟩ := hgrp.led g hg
  cases rest with
  | nil => exact .of_ok ⟨by rintro _ ⟨⟩; rfl, by simp⟩
  | cons j rest =>
    have hfirst : ∀ k ∈ i :: i :: j :: rest, k ∈ i :: j :: rest := by simp
    have hin : ∀ k ∈ i :: j :: rest, k ∈ places squares := fun k hk => hsub.mem hk
    refine (largestIn_yields htraits fun k hk => (hplaces k (hin k (hfirst k hk))).1).bind
      fun k hk => ?_
    have hk := hfirst k hk
    obtain ⟨p, hp⟩ := mergeGroup_yields ((i :: j :: rest).map (squareAt squares))
      (forall_mem_map.2 fun n hn => (hplaces n (hin n hn)).2) (hplaces k (hin k hk)).2
    exact ⟨p, hp, by simp, fun _ => ⟨k, hk, hp⟩⟩

/-! ## Measuring squares -/

/-- A station at which nothing has happened. -/
def Station.idle : Station := .start ⟨.layered, ⟨false, false⟩, false, false, false, false, false⟩

/-- The traits of what has four corners. -/
def traitsFor (lib : Library) (squares : List (Option (List Point))) : List Traits :=
  squares.filterMap fun p => Traits.of? lib (lib.area (p.getD [])) (p.getD [])

lemma area_apply (hs : s.cues.failures = []) {p} (hp : Lab.measurable p = true) :
    ∃ s', Lab.area p s = (.ok (s.library.area p), s') ∧ s'.library = s.library ∧
      s'.cues.failures = [] := by
  have htouch : Lab.touch .area s = (.ok (), { s with
      counts := s.counts.insert Tool.area.name ((s.counts.find? Tool.area.name).getD 0 + 1) }) := by
    rw [Lab.touch, if_pos (show Tool.area.canFail = true from rfl), get_bind_apply,
      bind_of_ok (show (modify _ : Lab Unit) s = (.ok (), _) from rfl), get_bind_apply]
    dsimp only
    rw [hs]
    rfl
  rw [Lab.area, bind_of_ok htouch, if_pos hp]
  exact ⟨_, rfl, rfl, hs⟩

lemma Traits.of?_eq {lib p} (hp : IsSquare lib p) :
    ∃ t, Traits.of? lib (lib.area p) p = some t ∧ t.area.isZero = false := by
  obtain ⟨hcorners, -, harea⟩ := hp
  rcases p with _ | ⟨a, _ | ⟨b, _ | ⟨c, _ | ⟨d, rest⟩⟩⟩⟩ <;> simp at hcorners
  exact ⟨_, rfl, harea⟩

/-- Every square that is there has traits, and its area is not zero. -/
lemma traitsOf_apply {lib} : ∀ {squares : List (Option (List Point))} {s : Station},
    s.library = lib → s.cues.failures = [] → (∀ p, some p ∈ squares → IsSquare lib p) →
      (∃ s', traitsOf squares s = (.ok (traitsFor lib squares), s')) ∧
      (traitsFor lib squares).length = (squares.filterMap id).length ∧
      ∀ t ∈ traitsFor lib squares, t.area.isZero = false
  | [], s, _, _, _ => ⟨⟨s, rfl⟩, rfl, by simp [traitsFor]⟩
  | none :: rest, s, hlib, hs, h => by
    have hspec := traitsOf_apply hlib hs fun p hp => h p (mem_cons_of_mem none hp)
    exact hspec
  | some p :: rest, s, hlib, hs, h => by
    have hp := h p mem_cons_self
    obtain ⟨s1, harea, hset, hs1⟩ := area_apply hs hp.2.1
    rw [hlib] at harea
    obtain ⟨⟨s2, hrest⟩, hlen, hareas⟩ := traitsOf_apply (hset ▸ hlib) hs1 fun q hq =>
      h q (mem_cons_of_mem (some p) hq)
    obtain ⟨t, ht, hzero⟩ := Traits.of?_eq hp
    have hcons : traitsFor lib (some p :: rest) = t :: traitsFor lib rest := by simp [traitsFor, ht]
    refine ⟨⟨s2, ?_⟩, by simp [hcons, hlen], by simpa [hcons, hzero] using hareas⟩
    rw [traitsOf, if_neg (by simp [hp.1]), Option.getD_some,
      bind_of_ok (show Lab.library s = (.ok lib, s) from hlib ▸ rfl), bind_of_ok harea,
      bind_of_ok hrest, ht, hcons]
    rfl

/-- A list of one square or none is its own merging, unless it lacks one. -/
lemma mergeClose_eq (hsqs : ∀ p, some p ∈ squares → IsSquare s.library p)
    (hs : s.cues.failures = []) (hne : squares ≠ [none]) : (mergeClose squares s).1 =
      (merge squares (traitsFor s.library squares)).map (map some) := by
  obtain ⟨s', htraits⟩ := (traitsOf_apply rfl hs hsqs).1
  rcases squares with _ | ⟨p, _ | ⟨q, rest⟩⟩
  · rfl
  · cases p with
    | none => exact absurd rfl hne
    | some p => rfl
  · rw [mergeClose, if_neg (by simp), bind_of_ok htraits]
    cases merge (p :: q :: rest) (traitsFor s.library (p :: q :: rest)) <;> rfl

/-! ## Squares all of which are there -/

section

/-- Whether the squares at two places are close. -/
def closeIn (lib : Library) (squares : List (List Point)) : Nat → Nat → Except VisionError Bool :=
  closeAt (traitsFor lib (squares.map some))

variable {squares : List (List Point)}

lemma places_map_some : places (squares.map some) = range squares.length := by
  rw [places, length_map, filter_eq_self]
  intro i hi
  simp [mem_range.1 hi]

variable {s : Station} (hsqs : ∀ p ∈ squares, IsSquare s.library p)
  (hs : s.cues.failures = [])

include hsqs hs

lemma mergeClose_grouped :
    ∃ near gs result, (∀ i ∈ range squares.length, ∀ j ∈ range squares.length,
        closeIn s.library squares i j = .ok (near i j)) ∧
      groups (closeIn s.library squares) (range squares.length) = .ok gs ∧
      Grouped near (range squares.length) gs ∧
      (mergeClose (squares.map some) s).1 = .ok (result.map some) ∧
      Forall₂ (Merged (squares.map some)) gs result := by
  have hmap : ∀ p, some p ∈ squares.map some → IsSquare s.library p := by simpa
  obtain ⟨-, hlen, htraits⟩ := traitsOf_apply rfl hs hmap
  rw [filterMap_map, Function.id_comp, filterMap_some] at hlen
  have hplaces : ∀ i ∈ places (squares.map some),
      i < (traitsFor s.library (squares.map some)).length ∧
      (squareAt (squares.map some) i).length = 4 := by
    intro i hi
    rw [places_map_some, mem_range] at hi
    exact ⟨hlen ▸ hi, by simpa [squareAt, hi] using (hsqs _ (getElem_mem hi)).1⟩
  obtain ⟨gs, hgs, hgrp, result, hres, hmerged⟩ := merge_yields htraits hplaces
  rw [places_map_some] at hgs hgrp
  refine ⟨_, gs, result, fun i hi j hj => ?_, hgs, hgrp, ?_, hmerged⟩
  · rw [closeIn, closeAt_eq htraits, hlen, if_pos ⟨mem_range.1 hi, mem_range.1 hj⟩]
  · rw [mergeClose_eq hmap hs (by cases squares <;> simp), hres]
    rfl

/-- Each place of a list of squares is in one group. The first place of a group is its least, close
to all others of it, and close to no first place of a later group. There is one square for each
group, in their order; for a place alone it is the square there. -/
theorem mergeClose_partition :
    ∃ gs result, groups (closeIn s.library squares) (range squares.length) = .ok gs ∧
      gs.flatten.Perm (range squares.length) ∧
      (∀ g ∈ gs, ∃ i rest, g = i :: rest ∧
        ∀ j ∈ rest, i < j ∧ closeIn s.library squares i j = .ok true) ∧
      gs.Pairwise (fun g g' => ∀ i ∈ g.head?, ∀ j ∈ g'.head?,
        i < j ∧ closeIn s.library squares i j = .ok false) ∧
      (mergeClose (squares.map some) s).1 = .ok (result.map some) ∧
      Forall₂ (Merged (squares.map some)) gs result := by
  obtain ⟨near, gs, result, hclose, hgs, hgrp, hres, hmerged⟩ :=
    mergeClose_grouped hsqs hs
  refine ⟨gs, result, hgs, hgrp.perm, fun g hg => ?_, ?_, hres, hmerged⟩
  · obtain ⟨i, rest, rfl, hsub, hnear⟩ := hgrp.led g hg
    refine ⟨i, rest, rfl, fun j hj => ⟨?_, ?_⟩⟩
    · exact rel_of_pairwise_cons (pairwise_lt_range.sublist hsub) hj
    · rw [hclose i (hsub.mem mem_cons_self) j (hsub.mem (mem_cons_of_mem i hj)), hnear j hj]
  · refine (hgrp.apart pairwise_lt_range).imp_of_mem ?_
    intro g g' hg hg' hapart i hi j hj
    obtain ⟨_, _, rfl, hsub, -⟩ := hgrp.led g hg
    obtain ⟨_, _, rfl, hsub', -⟩ := hgrp.led g' hg'
    obtain ⟨hlt, hfar⟩ := hapart i hi j hj
    rw [head?_cons, Option.mem_some_iff] at hi hj
    subst hi hj
    rw [hclose _ (hsub.mem mem_cons_self) _ (hsub'.mem mem_cons_self), hfar]
    exact ⟨hlt, rfl⟩

end

/-- The square of ten by ten on the first axis from `x` on. -/
def squareFrom (x : Int) : List Point :=
  [⟨.whole x, .whole 0⟩, ⟨.whole (x + 10), .whole 0⟩, ⟨.whole (x + 10), .whole 10⟩,
    ⟨.whole x, .whole 10⟩]

/-- Three squares in a row, of which the third is close to the second only. -/
def squaresInRow : List (List Point) := [squareFrom 0, squareFrom 20, squareFrom 40]

/-- The first square takes the second with it, and the third stays alone. -/
theorem mergeClose_partition_row : ∃ result,
    (mergeClose (squaresInRow.map some) .idle).1 = .ok (result.map some) ∧
      Forall₂ (Merged (squaresInRow.map some)) [[0, 1], [2]] result := by
  obtain ⟨gs, result, hgs, -, -, -, hres, hmerged⟩ := mergeClose_partition
    (show ∀ p ∈ squaresInRow, IsSquare Station.idle.library p by decide +kernel) rfl
  have hgroups : groups (closeIn .plain squaresInRow) (range 3) = .ok [[0, 1], [2]] :=
    Code.toOption_eq_some.1 (by decide +kernel)
  obtain rfl := Except.ok.inj (hgs.symm.trans hgroups)
  exact ⟨result, hres, hmerged⟩

/-! ## Lists with squares missing -/

lemma map_places : ∀ squares : List (Option (List Point)),
    (places squares).map (squareAt squares) = squares.filterMap id
  | [] => rfl
  | p :: rest => by
    have hplaces : places (p :: rest) =
        (if p.isSome then [0] else []) ++ (places rest).map (· + 1) := by
      rw [places, length_cons, range_succ_eq_map, filter_cons, filter_map]
      cases p <;> rfl
    have hrest : (places rest).map (squareAt (p :: rest) ∘ (· + 1)) = rest.filterMap id :=
      map_places rest
    rw [hplaces, map_append, map_map, hrest]
    cases p <;> rfl

lemma mem_places {i : Nat} : i ∈ places squares ↔ ((squares[i]?).getD none).isSome = true := by
  rw [places, mem_filter, mem_range, and_iff_right_iff_imp]
  intro hthere
  by_contra hlong
  simp [not_lt.1 hlong] at hthere

lemma length_places : (places squares).length = (squares.filterMap id).length := by
  rw [← map_places, length_map]

/-- The squares stand at the first places, or one stands at a place no less than their number. -/
lemma first_or_behind : places squares = range (squares.filterMap id).length ∨
    ∃ i ∈ places squares, (squares.filterMap id).length ≤ i := by
  refine or_iff_not_imp_right.2 fun hnone => ?_
  push Not at hnone
  obtain ⟨m, hm⟩ := Nat.exists_eq_add_of_le (length_filterMap_le id squares)
  refine Sublist.eq_of_length ?_ (by rw [length_places, length_range])
  rw [places, hm, range_add, filter_append] at hnone ⊢
  -- With none behind, the places are a part of the first ones, and as many.
  have hend : ((range m).map ((squares.filterMap id).length + ·)).filter
      (fun i => ((squares[i]?).getD none).isSome) = [] := by
    refine filter_eq_nil_iff.2 fun i hi hthere => ?_
    have hlt := hnone i (mem_append_right _ (mem_filter.2 ⟨hi, hthere⟩))
    obtain ⟨j, -, rfl⟩ := mem_map.1 hi
    omega
  rw [hend, append_nil]
  exact filter_sublist

lemma split_error {ε ι : Type} {test} {e : ε} {i : ι} {l : List ι} (hi : i ∈ l)
    (he : test i = .error e) (hall : ∀ j, (∃ c, test j = .ok c) ∨ test j = .error e) :
    split test l = .error e := by
  induction l with
  | nil => cases hi
  | cons j rest ih =>
    rw [split]
    rcases hall j with ⟨c, hc⟩ | hj
    · have hrest : i ∈ rest := (mem_cons.1 hi).resolve_left (by rintro rfl; cases hc.symm.trans he)
      rw [hc, ih hrest]
      rfl
    · rw [hj]
      rfl

/-- Of several squares one stands at a place without traits. -/
lemma merge_error (htraits : ∀ t ∈ traits, t.area.isZero = false)
    (hseveral : 1 < (places squares).length) {k : Nat} (hk : k ∈ places squares)
    (hout : traits.length ≤ k) : merge squares traits = .error .listEnd := by
  show (groups (closeAt traits) (places squares) >>= _) = _
  generalize places squares = l at hseveral hk ⊢
  rcases l with _ | ⟨i, _ | ⟨j, rest⟩⟩
  · cases hk
  · simp at hseveral
  -- The first place is tested with each of the others, and one of the two has no traits.
  have hfails : ∃ n ∈ j :: rest, closeAt traits i n = .error .listEnd := by
    rcases mem_cons.1 hk with rfl | hk
    · exact ⟨j, mem_cons_self, by rw [closeAt_eq htraits, if_neg (by omega)]⟩
    · exact ⟨k, hk, by rw [closeAt_eq htraits, if_neg (by omega)]⟩
  obtain ⟨n, hn, herror⟩ := hfails
  rw [groups, length_cons, groupsWithin, split_error hn herror fun m => ?_]
  · rfl
  · rw [closeAt_eq htraits]
    split
    · exact .inl ⟨_, rfl⟩
    · exact .inr rfl

/-- A square alone is merged with none. -/
lemma merge_few (h : (places squares).length ≤ 1) :
    merge squares traits = .ok (squares.filterMap id) := by
  rw [← map_places]
  show (groups (closeAt traits) (places squares) >>= _) = _
  rcases hplaces : places squares with _ | ⟨i, _ | ⟨j, rest⟩⟩
  · rfl
  · rfl
  · simp [hplaces] at h

/-- What is missing behind all squares changes nothing. -/
lemma merge_first {l} (hl : squares.filterMap id = l)
    (h : places squares = range l.length) : merge squares traits = merge (l.map some) traits := by
  have hsame := h.trans places_map_some.symm
  have hview (i : Nat) : (squares[i]?).getD none = ((l.map some)[i]?).getD none := by
    have hthere : ((squares[i]?).getD none).isSome = (((l.map some)[i]?).getD none).isSome := by
      rw [Bool.eq_iff_iff, ← mem_places, ← mem_places, hsame]
    have hget : i ∈ places squares → squareAt squares i = squareAt (l.map some) i := by
      have hmap := map_places (l.map some)
      rw [← hsame, filterMap_map, Function.id_comp, filterMap_some] at hmap
      exact fun hi => map_inj_left.1 ((map_places squares).trans (hl.trans hmap.symm)) i hi
    rw [mem_places, squareAt, squareAt] at hget
    generalize (squares[i]?).getD none = a at *
    cases a <;> cases hb : ((l.map some)[i]?).getD none <;> simp_all
  have hplaces : (range squares.length).filter (fun i => (((l.map some)[i]?).getD none).isSome) =
      places (l.map some) := by
    simp only [← hview, ← hsame]
    rfl
  unfold merge
  simp only [hview]
  rw [hplaces]
  rfl

lemma traitsFor_present (lib : Library) :
    traitsFor lib ((squares.filterMap id).map some) = traitsFor lib squares := by
  rw [traitsFor, filterMap_map, filterMap_filterMap]
  refine filterMap_congr fun p _ => ?_
  cases p <;> rfl

/-- Squares that are missing are passed over exactly if the others stand at the first places, or
there is no more than one other and the list is not of one missing square, which stays as it is.
Else merging fails at the end of the traits. -/
theorem mergeClose_missing_iff
    (hpresent : ∀ p ∈ squares.filterMap id, IsSquare s.library p) (hs : s.cues.failures = []) :
    ((mergeClose squares s).1 = (mergeClose ((squares.filterMap id).map some) s).1 ↔
      squares ≠ [none] ∧ ((squares.filterMap id).length ≤ 1 ∨
        places squares = range (squares.filterMap id).length)) ∧
      (1 < (squares.filterMap id).length → places squares ≠ range (squares.filterMap id).length →
        (mergeClose squares s).1 = .error .listEnd) := by
  have hsqs : ∀ p, some p ∈ squares → IsSquare s.library p := by simpa using hpresent
  obtain ⟨-, hlen, htraits⟩ := traitsOf_apply rfl hs hsqs
  obtain ⟨_, _, result, -, -, -, hres, -⟩ := mergeClose_grouped hpresent hs
  have herror : 1 < (squares.filterMap id).length →
      places squares ≠ range (squares.filterMap id).length →
      (mergeClose squares s).1 = .error .listEnd := by
    intro hseveral hnot
    obtain ⟨i, hi, hbehind⟩ := first_or_behind.resolve_left hnot
    rw [mergeClose_eq hsqs hs (by rintro rfl; cases hseveral),
      merge_error htraits (by rwa [length_places]) hi (by rwa [hlen])]
    rfl
  refine ⟨⟨fun heq => ⟨?_, ?_⟩, ?_⟩, herror⟩
  · rintro rfl
    cases heq
  · by_contra hneither
    rw [not_or, not_le] at hneither
    rw [herror hneither.1 hneither.2, hres] at heq
    cases heq
  · rintro ⟨hne, hcase⟩
    rw [mergeClose_eq hsqs hs hne, mergeClose_eq (by simpa using hpresent) hs
      (by cases squares.filterMap id <;> simp), traitsFor_present]
    rcases hcase with hfew | hfirst
    · have hagain : ((squares.filterMap id).map some).filterMap id = squares.filterMap id := by simp
      rw [merge_few (length_places ▸ hfew), merge_few (by rwa [length_places, hagain]), hagain]
    · rw [merge_first rfl hfirst]

/-- A square that is missing in front of two others. -/
theorem mergeClose_missing_front :
    (mergeClose [none, some (squareFrom 0), some (squareFrom 200)] .idle).1 = .error .listEnd :=
  (mergeClose_missing_iff (by decide +kernel) rfl).2 (by decide) (by decide)

end ArmStudio.Vision
