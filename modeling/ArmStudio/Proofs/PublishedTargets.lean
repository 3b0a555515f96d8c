import ArmStudio.Proofs.Sightings
import ArmStudio.Vision.Errand

/-!
# Published targets

A published target has the pose of the mark that was last taken and the number of the one that was
last found. These are two marks when one was found since and not taken.
-/

namespace ArmStudio.Vision

open Sighting List

variable {mark : Option Finding} {number : Option Int} {α : Type} {s : Station} {gs : List Sighting}
  {m : Finding} {t : Lab α} {f : α → Lab Unit}

lemma withFrame_seen {gs work}
    (h : ∀ p s, Seen mark number (gs p s) s (work p s).2) (f : Frame) (missing : String)
    (s : Station) : Seen mark number (inFrame f gs s) s (withFrame f missing work s).2 := by
  have htaken := Seen.of_quiet (takeFrame f) mark number s
  unfold withFrame inFrame
  cases htake : takeFrame f s with
  | mk taken s1 =>
    rw [htake] at htaken
    cases taken with
    | error e =>
      rwa [bind_of_error htake]
    | ok taken =>
      rw [bind_of_ok htake]
      cases taken with
      | none => exact htaken.trans (.of_quiet (Lab.say missing) _ _ s1)
      | some p => exact htaken.trans (h p s1)

lemma Seen.bind {xs gs} (h : Seen mark number xs s (t s).2)
    (hf : ∀ a, (t s).1 = .ok a → Seen (markAfter mark xs) (numberAfter number xs)
      (gs a (t s).2) (t s).2 (f a (t s).2).2) :
    Seen mark number (xs ++ behind (t s) gs) s ((t >>= f) s).2 := by
  unfold behind
  cases hres : (t s).1 with
  | ok a =>
    rw [bind_ok hres]
    exact h.trans (hf a hres)
  | error e =>
    rw [bind_error hres]
    simpa using h

lemma Seen.after {gs : α → Station → List Sighting} [Quiet t]
    (hf : ∀ a, (t s).1 = .ok a → Seen mark number (gs a (t s).2) (t s).2 (f a (t s).2).2) :
    Seen mark number (behind (t s) gs) s ((t >>= f) s).2 :=
  (Seen.of_quiet t mark number s).bind hf

variable (frames : List Frame)

lemma layeredFrames_seen (w : Watch) (s : Station) :
    Seen w.mark w.number (layeredSightings frames w s) s (layeredFrames frames w s).2 := by
  induction frames generalizing w s with
  | nil => exact .of_quiet (Lab.say _) _ _ s
  | cons f rest ih =>
    unfold layeredFrames layeredSightings
    refine withFrame_seen (fun p s => ?_) f _ s
    have hframe := layeredFrame_seen w p s
    refine hframe.seen.bind fun next hnext => ?_
    -- the mark and the number behind the frame are those the other frames begin with
    obtain ⟨hmark, hnum⟩ := hframe.carried next _ hnext rfl
    rw [← hmark, ← hnum]
    cases next with
    | none => exact ih w _
    | some w' =>
      dsimp only
      rw [bind_of_ok (show Lab.memory _ = (.ok _, _) from rfl)]
      split
      · exact ih w' _
      · exact .of_quiet (pure ()) _ _ _

lemma motionFrames_seen (w : Watch) (s : Station) :
    Seen w.mark w.number (motionSightings frames w s) s (motionFrames frames w s).2 := by
  induction frames generalizing w s with
  | nil =>
    have hsay : Quiet (motionFrames [] w) := by
      unfold motionFrames
      infer_instance
    exact .of_quiet (motionFrames [] w) _ _ s
  | cons f rest ih =>
    unfold motionFrames motionSightings
    rw [bind_of_ok (show Lab.memory _ = (.ok _, _) from rfl)]
    split
    · refine withFrame_seen (fun p s => ?_) f _ s
      have hframe := motionFrame_seen w p s
      refine hframe.seen.bind fun next hnext => ?_
      cases next with
      | goOn w' =>
        obtain ⟨hmark, hnum⟩ := hframe.carried _ _ hnext rfl
        rw [← hmark, ← hnum]
        exact ih w' _
      | stop => exact .of_quiet (pure ()) _ _ _
    · exact .of_quiet (pure ()) _ _ s

variable (camera : Camera)

lemma returns_beginLayers (number : Int) :
    Returns (fun begun : Option Watch => ∀ w, begun = some w → w.mark = none ∧ w.number = none)
      (beginLayers camera number) := by
  refine .andThen fun _ => .andThen fun _ => .andThen fun _ => .andThen fun _ =>
    .andThen fun opened => ?_
  split
  · exact .andThen fun _ => .of_pure (by rintro w ⟨⟩)
  · refine .andThen fun _ => .andThen fun p => ?_
    cases p with
    | none => exact .andThen fun _ => .of_pure (by rintro w ⟨⟩)
    | some p =>
      refine .andThen fun grid => .andThen fun now => .of_pure ?_
      rintro w ⟨⟩
      exact ⟨rfl, rfl⟩

lemma returns_beginMotion (number : Int) :
    Returns (fun begun : Option Watch => ∀ w, begun = some w → w.mark = none ∧ w.number = none)
      (beginMotion camera number) := by
  refine .andThen fun _ => .andThen fun opened => ?_
  cases opened with
  | error e => exact .andThen fun _ => .andThen fun _ => .of_pure (by rintro w ⟨⟩)
  | ok _ =>
    refine .andThen fun grid => .andThen fun now => .of_pure ?_
    rintro w ⟨⟩
    exact ⟨rfl, rfl⟩

lemma Seen.attempt (h : Seen mark number gs s (t s).2) :
    Seen mark number gs s (Lab.attempt t s).2 := by
  rwa [Lab.attempt_apply]

lemma watch_seen (number : Int) (s : Station) :
    Seen none none (sightings camera number s) s (watch camera number s).2 := by
  unfold watch sightings
  rw [bind_of_ok (show Lab.settings s = (.ok s.settings, s) from rfl)]
  cases s.settings.method with
  | layered =>
    refine Seen.after fun begun hbegun => ?_
    cases begun with
    | none => exact .of_quiet (pure ()) _ _ _
    | some w =>
      obtain ⟨hmark, hnum⟩ := returns_beginLayers camera number s _ hbegun w rfl
      rw [← hmark, ← hnum]
      refine (layeredFrames_seen camera.frames.tail w _).attempt.before fun result => ?_
      cases result <;> infer_instance
  | motion =>
    refine Seen.after fun begun hbegun => ?_
    cases begun with
    | none => exact .of_quiet (pure ()) _ _ _
    | some w =>
      obtain ⟨hmark, hnum⟩ := returns_beginMotion camera number s _ hbegun w rfl
      rw [← hmark, ← hnum]
      exact (motionFrames_seen camera.frames.tail w _).before fun _ => inferInstance

/-! ## The number of a published target -/

/-- The mark of the last sighting with one. -/
def lastFound (gs : List Sighting) : Option Finding := (gs.filterMap found?).getLast?

lemma numberAfter_eq (number : Option Int) (gs : List Sighting) :
    numberAfter number gs = ((lastFound gs).map (·.label.id)).or number := by
  induction gs generalizing number with
  | nil => rfl
  | cons g rest ih =>
    show numberAfter (g.number?.or number) rest = _
    rw [ih, number?]
    cases hfound : g.found? with
    | none => simp [lastFound, hfound]
    | some f =>
      simp only [lastFound, filterMap_cons, hfound, getLast?_cons]
      cases (rest.filterMap found?).getLast? <;> rfl

lemma Sighting.found?_of_taken? {g : Sighting} (h : g.taken? = some m) : g.found? = some m := by
  unfold taken? at h
  split at h
  · cases h
  · exact (Option.filter_eq_some_iff.1 h).1

/-- The mark last taken was there before, or some frame took it, and none was taken since. -/
lemma exists_taker (h : markAfter mark gs = some m) : (mark = some m ∧ ∀ g ∈ gs, g.taken? = none) ∨
      ∃ before taker after, gs = before ++ taker :: after ∧ taker.taken? = some m ∧
        ∀ g ∈ after, g.taken? = none := by
  induction gs generalizing mark with
  | nil => exact .inl ⟨h, by simp⟩
  | cons g rest ih =>
    have hrest : markAfter (g.taken?.or mark) rest = some m := h
    rcases ih hrest with ⟨hmark, hnone⟩ | ⟨before, taker, after, rfl, htaker, hafter⟩
    · cases htaken : g.taken? with
      | none =>
        rw [htaken, Option.none_or] at hmark
        exact .inl ⟨hmark, by simpa [htaken] using hnone⟩
      | some f =>
        rw [htaken, Option.some_or] at hmark
        exact .inr ⟨[], g, rest, rfl, htaken.trans hmark, hnone⟩
    · exact .inr ⟨g :: before, taker, after, rfl, htaker, hafter⟩

/-- The sightings of a run tell what it publishes. A published target has the pose of the mark that
was last taken. Its number is that of the mark that was last found, which is the same mark unless
others were found since and not taken: passed over while another number was held, or given up when
their squares could not be compared. -/
theorem published_id_iff (camera : Camera) (number : Int) (s : Station) :
    (watch camera number s).2.targets =
        s.targets ++ (sightings camera number s).flatMap told ∧
      ∀ earlier g later, sightings camera number s = earlier ++ g :: later → ∀ t ∈ g.told,
        ∃ before taker after m, earlier ++ [g] = before ++ taker :: after ∧
          taker.taken? = some m ∧ (∀ g' ∈ after, g'.taken? = none) ∧ g.Locates m t.pose ∧
          t.id = ((lastFound after).getD m).label.id ∧
          (t.id = m.label.id ↔ ∀ f, lastFound after = some f → f.label.id = m.label.id) := by
  have hseen := watch_seen camera number s
  refine ⟨hseen.targets, fun earlier g later hgs t ht => ?_⟩
  have htells := hseen.tells
  rw [hgs, tells_append] at htells
  obtain ⟨m, hm, hlocates, hid⟩ := htells.2.1 t ht
  have hmark : markAfter none (earlier ++ [g]) = some m := by simpa [markAfter] using hm
  -- the run is split at the frame that took the mark; behind it only the number goes on
  obtain ⟨before, taker, after, hsplit, htaker, hafter⟩ :=
    (exists_taker hmark).resolve_left fun hnone => by cases hnone.1
  have hnum : (g.number?.or (numberAfter none earlier)) =
      ((lastFound after).map (·.label.id)).or (some m.label.id) := by
    calc g.number?.or (numberAfter none earlier)
        = numberAfter none (earlier ++ [g]) := by simp [numberAfter]
      _ = numberAfter (taker.number?.or (numberAfter none before)) after := by
          rw [hsplit]
          simp [numberAfter]
      _ = ((lastFound after).map (·.label.id)).or (some m.label.id) := by
          rw [numberAfter_eq, number?, found?_of_taken? htaker]
          rfl
  rw [hnum] at hid
  refine ⟨before, taker, after, m, hsplit, htaker, hafter, hlocates, ?_⟩
  cases hlast : lastFound after with
  | none => simp [hid, hlast]
  | some f => simp [hid, hlast]

/-- A frame that shows a mark whose text is a digit. The code is read in the plain picture. -/
def showing (time : Int) (digit : Char) (x : Int) : Frame where
  readable := true
  picture := .uniform 120 160 (some 3) 100
  cues := { Cues.none with
    codes := [.ok [],
      .ok [some ⟨[digit.toNat.toUInt8], "QRCODE", some (some [x, 20, 8, 8]), none⟩]] }
  times := [.int time]
  stops := false

/-- Behind the first frame, a mark with a lesser number is shown while the first one is held. -/
def heldCamera : Camera := ⟨none, [showing 0 '5' 20, showing 1 '5' 20, showing 2 '3' 100]⟩

def heldStation : Station := .start ⟨.layered, ⟨false, false⟩, false, false, false, false, false⟩

/-- The pose of the mark 5 is published with the number 3. -/
theorem published_id_iff_held :
    ∃ g ∈ sightings heldCamera 0 heldStation, ∃ t ∈ g.told, ∃ m : Finding,
      g.Locates m t.pose ∧ t.id = 3 ∧ m.label.id = 5 := by
  have hnumbers : (sightings heldCamera 0 heldStation).map (fun g =>
      (g.taken?.map (·.label.id), g.told.map Target.id)) = [(some 5, [5]), (none, [3])] := by
    decide +kernel
  obtain ⟨g1, rest, hrun, hfirst, hrest⟩ := map_eq_cons_iff.1 hnumbers
  obtain ⟨g2, rest, rfl, hsnd, hnil⟩ := map_eq_cons_iff.1 hrest
  cases map_eq_nil_iff.1 hnil
  simp only [Prod.mk.injEq, Option.map_eq_none_iff] at hfirst hsnd
  obtain ⟨t, htold, hid⟩ : ∃ t ∈ g2.told, t.id = 3 := by
    have hmem : (3 : Int) ∈ g2.told.map Target.id := by rw [hsnd.2]; simp
    exact mem_map.1 hmem
  obtain ⟨before, taker, after, m, hsplit, htaker, -, hlocates, -, -⟩ :=
    (published_id_iff heldCamera 0 heldStation).2 [g1] g2 [] hrun t htold
  have hmem : taker ∈ [g1] ++ [g2] := by rw [hsplit]; simp
  refine ⟨g2, by rw [hrun]; simp, t, htold, m, hlocates, hid, ?_⟩
  rcases mem_append.1 hmem with hmem | hmem
  · cases mem_singleton.1 hmem
    simpa [htaker] using hfirst.1
  · cases mem_singleton.1 hmem
    cases hsnd.1.symm.trans htaker

end ArmStudio.Vision
