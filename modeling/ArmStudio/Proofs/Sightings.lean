import ArmStudio.Proofs.QuietSteps

/-!
# Sightings of a target

A frame that is searched shows a mark, or none. A mark that was found is taken for the target unless
another number is held, or the squares around it cannot be compared. The mark that was last taken
and the number that was last found are carried from frame to frame.
-/

namespace ArmStudio.Vision

open Number Script List Option Quiet

/-- A frame that was searched: the picture and what it holds, the number held and the time when the
target was chosen, whether that failed, and the targets published at it. -/
structure Sighting where
  method : Method
  library : Library
  picture : Picture
  scene : Scene
  lock : Lock
  now : Value
  failed : Bool
  told : List Target

namespace Sighting

variable (g : Sighting)

/-- The mark that was found: the first one. -/
def found? : Option Finding := g.scene.findings.head?

/-- A mark is passed over while another number is held. -/
def isPassedOver (f : Finding) : Bool :=
  g.lock.holds g.now && g.lock.id ≠ some f.label.id

/-- The mark that is found and not passed over, unless the search fails. -/
def taken? : Option Finding :=
  if g.failed then none else g.found?.filter fun f => !g.isPassedOver f

/-- Where a mark with these corners is. -/
def place (corners : List Point) : Position :=
  locate g.library g.method.scale corners g.picture.width (g.method.depth g.picture)

/-- A pose is that of a mark in the picture: by the corners of the mark or, if the mark is taken
now, by those of a square around its middle. -/
def Locates (m : Finding) (pose : Pose) : Prop :=
  pose = (g.place (m.outline.getD [])).pose ∨ g.taken? = some m ∧ ∃ square ∈ g.scene.squares,
      g.library.contains (square.map Point.toSingle) (Point.mean (m.outline.getD [])).plane = true ∧
      pose = (locateSquare g.library g.method.scale square g.picture.width g.picture.height).pose

end Sighting

/-- What is in sight of the camera in a picture, with the targets told for it. -/
def look (w : Watch) (p : Picture) (scene : Scene) (s : Station) (told : List Target) :
    Sighting where
  method := s.settings.method
  library := s.library
  picture := p
  scene := scene
  lock := scene.lockAt s.memory.lock s.clock
  now := s.clock
  failed := (sightTarget w p scene s).1.toOption.isNone
  told := told

/-- The sighting of a frame that was worked through between two states, unless its search failed. -/
def sighted (search : Lab (Option (Picture × Scene))) (w : Watch) (s s' : Station) :
    List Sighting :=
  match search s with
  | (.ok (some (p, scene)), s1) => [look w p scene s1 (s'.targets.drop s.targets.length)]
  | _ => []

def inFrame (f : Frame) (gs : Picture → Station → List Sighting) (s : Station) : List Sighting :=
  match takeFrame f s with
  | (.ok (some p), s1) => gs p s1
  | _ => []

/-- The sightings behind a step, unless it failed. -/
def behind {α : Type} (worked : Except VisionError α × Station)
    (gs : α → Station → List Sighting) : List Sighting :=
  match worked.1 with
  | .ok a => gs a worked.2
  | .error _ => []

def layeredSightings : List Frame → Watch → Station → List Sighting
  | [], _, _ => []
  | f :: rest, w, s => inFrame f (fun p s =>
    sighted (searchLayers p) w s (layeredFrame w p s).2 ++ behind (layeredFrame w p s) fun next s =>
        match next with
        | none => layeredSightings rest w s
        | some w => if s.memory.running then layeredSightings rest w s else []) s

def motionSightings : List Frame → Watch → Station → List Sighting
  | [], _, _ => []
  | f :: rest, w, s =>
    if s.memory.running then
      inFrame f (fun p s =>
        sighted (searchMotion p) w s (motionFrame w p s).2 ++
          behind (motionFrame w p s) fun next s =>
            match next with
            | .goOn w => motionSightings rest w s
            | .stop => []) s
    else []

/-- All that comes in sight while a camera is watched. -/
def sightings (camera : Camera) (number : Int) (s : Station) : List Sighting :=
  match s.settings.method with
  | .layered => behind (beginLayers camera number s) fun begun s =>
    begun.elim [] fun w => layeredSightings camera.frames.tail w s
  | .motion => behind (beginMotion camera number s) fun begun s =>
    begun.elim [] fun w => motionSightings camera.frames.tail w s

/-! ## Choosing the target -/

lemma returns_squaresAround (lib : Library) (center : Point) (squares : List (List Point)) :
    Returns (fun around : List (List Point) => ∀ q ∈ around,
      q ∈ squares ∧ lib.contains (q.map Point.toSingle) center.plane)
      (squaresAround lib center squares) := by
  induction squares with
  | nil => exact .of_pure (by simp)
  | cons square rest ih =>
    refine .andThen fun _ => ih.bind fun around haround => .of_pure fun q hq => ?_
    split at hq
    next hinside =>
      rcases mem_cons.1 hq with rfl | hq
      · exact ⟨by simp, hinside⟩
      · exact ⟨by simp [(haround q hq).1], (haround q hq).2⟩
    next => exact ⟨by simp [(haround q hq).1], (haround q hq).2⟩

lemma returns_largestSquare (squares : List (List Point)) (best : Option (List Point × Double)) :
    Returns (fun largest : Option (List Point) =>
      ∀ q, largest = some q → q ∈ squares ∨ best.map Prod.fst = some q)
      (largestSquare squares best) := by
  induction squares generalizing best with
  | nil => exact .of_pure fun q hq => .inr hq
  | cons square rest ih =>
    refine .andThen fun area => ?_
    cases best with
    | none =>
      refine (ih _).imp fun largest h q hq => .inl ?_
      rcases h q hq with hmem | hbest
      · exact mem_cons_of_mem _ hmem
      · cases hbest
        exact mem_cons_self
    | some best =>
      refine (ih _).imp fun largest h q hq => ?_
      rcases h q hq with hmem | hbest
      · exact .inl (mem_cons_of_mem _ hmem)
      · split at hbest
        · cases hbest
          exact .inl mem_cons_self
        · exact .inr hbest

variable (g : Sighting)

lemma Sighting.locates_last {last place}
    (h : (last.map fun m => g.place (m.outline.getD [])) = some place) :
    ∃ m, last = some m ∧ g.Locates m place.pose := by
  obtain ⟨m, hm, rfl⟩ := map_eq_some_iff.1 h
  exact ⟨m, hm, .inl rfl⟩

/-- What a choice comes to: the mark is the one taken or the last one, and only a mark that locates
the target gives a place. -/
def Chosen (last : Option Finding) (sight : Sight) : Prop :=
  sight.mark = g.taken?.or last ∧
    ∀ place, sight.place = some place → ∃ m, sight.mark = some m ∧ g.Locates m place.pose

lemma returns_chooseTarget (hfailed : g.failed = false) (last : Option Finding) :
    Returns (Chosen g last) (chooseTarget g.library g.place
      (fun c => locateSquare g.library g.method.scale c g.picture.width g.picture.height)
      g.scene.findings g.scene.squares last (g.lock.holds g.now) g.lock) := by
  have htaken : g.taken? = g.found?.filter fun f => !g.isPassedOver f := by
    rw [Sighting.taken?, hfailed, if_neg Bool.false_ne_true]
  have hfound : g.found? = g.scene.findings.head? := rfl
  unfold chooseTarget
  cases hfindings : g.scene.findings with
  | nil =>
    rw [hfound, hfindings, head?_nil, filter_none] at htaken
    dsimp only
    -- nothing is found: the last mark stands for the target as long as its number is held
    split
    · exact .of_pure ⟨by rw [htaken, none_or], fun place h => g.locates_last h⟩
    · exact .of_pure ⟨by rw [htaken, none_or], fun place h => by cases h⟩
  | cons first rest =>
    rw [hfound, hfindings, head?_cons] at htaken
    dsimp only
    cases hpass : g.isPassedOver first with
    | true =>
      rw [if_pos (by exact hpass)]
      have hnone : g.taken? = none := by rw [htaken, filter_some, hpass]; rfl
      exact .of_pure ⟨by rw [hnone, none_or], fun place h => g.locates_last h⟩
    | false =>
      rw [if_neg (by rw [Bool.not_eq_true]; exact hpass)]
      have hfirst : g.taken? = some first := by rw [htaken, filter_some, hpass]; rfl
      have hmark : some first = g.taken?.or last := by rw [hfirst, some_or]
      -- squares are compared with the middle of the mark, which fails if it has no corners; a
      -- square around the middle comes before the corners of the mark
      split
      · exact (Returns.of_throw (P := fun _ => False) _).bind fun _ h => h.elim
      · refine (returns_squaresAround _ _ _).bind fun around haround =>
          (returns_largestSquare around none).bind fun largest hlargest => ?_
        cases largest with
        | none => exact .of_pure ⟨hmark, by rintro place ⟨⟩; exact ⟨first, rfl, .inl rfl⟩⟩
        | some square =>
          have hmem : square ∈ around := by simpa using hlargest square rfl
          obtain ⟨hsquare, hinside⟩ := haround square hmem
          refine .of_pure ⟨hmark, ?_⟩
          rintro place ⟨⟩
          exact ⟨first, rfl, .inr ⟨hfirst, square, hsquare, hinside, rfl⟩⟩

/-- The station when the target is chosen: none is seen, and the first finding is in the lock. -/
def Station.unseen (s : Station) (scene : Scene) : Station := { s.clockOn with
    memory := { s.memory with
      seen := false
      lock := scene.lockAt s.memory.lock s.clock } }

/-- The choice of a target from what is in sight. -/
def choice (w : Watch) (g : Sighting) : Lab Sight :=
  chooseTarget g.library g.place
    (fun c => locateSquare g.library g.method.scale c g.picture.width g.picture.height)
    g.scene.findings g.scene.squares w.mark (g.lock.holds g.now) g.lock

instance (w : Watch) (g : Sighting) : Quiet (choice w g) := by
  unfold choice
  infer_instance

section

variable {w : Watch} {p : Picture} {scene : Scene} {s : Station} {told : List Target}

lemma sightTarget_of_error {e s'}
    (h : choice w (look w p scene s told) (s.unseen scene) = (.error e, s')) :
    sightTarget w p scene s = (.error e, s') :=
  bind_of_error (f := fun sight : Sight => do sight.keep; return sight) h

lemma sightTarget_of_ok {sight : Sight} {s'}
    (h : choice w (look w p scene s told) (s.unseen scene) = (.ok sight, s')) :
    sightTarget w p scene s = (.ok sight, (sight.keep s').2) := by
  have hkeep : sight.keep s' = (.ok (), (sight.keep s').2) := by
    unfold Sight.keep
    cases sight.place <;> rfl
  calc sightTarget w p scene s
      = (do sight.keep; return sight : Lab Sight) s' :=
        bind_of_ok (f := fun sight : Sight => do sight.keep; return sight) h
    _ = (.ok sight, (sight.keep s').2) := bind_of_ok hkeep

/-- Choosing the target fails and none is seen, or it gives a sight and remembers its place. -/
lemma sightTarget_cases (w : Watch) (p : Picture) (scene : Scene) (s : Station)
    (told : List Target) :
    (sightTarget w p scene s).2.targets = s.targets ∧
      ((∃ e, (sightTarget w p scene s).1 = .error e ∧
          (sightTarget w p scene s).2.memory.seen = false) ∨
        ∃ sight, (sightTarget w p scene s).1 = .ok sight ∧
          Chosen (look w p scene s told) w.mark sight ∧
          ((sightTarget w p scene s).2.memory.seen = true → ∃ place, sight.place = some place ∧
            (sightTarget w p scene s).2.memory.pose = place.pose)) := by
  have hseen : (choice w (look w p scene s told) (s.unseen scene)).2.memory.seen = false :=
    seen _ _
  have htgts : (choice w (look w p scene s told) (s.unseen scene)).2.targets = s.targets :=
    targets _ _
  cases hres : (choice w (look w p scene s told) (s.unseen scene)).1 with
  | error e =>
    rw [sightTarget_of_error (Prod.ext hres rfl)]
    exact ⟨htgts, .inl ⟨e, rfl, hseen⟩⟩
  | ok sight =>
    have hok := sightTarget_of_ok (Prod.ext hres rfl)
    have hfailed : (look w p scene s told).failed = false := by
      show (sightTarget w p scene s).1.toOption.isNone = false
      rw [hok]
      rfl
    have hchosen := returns_chooseTarget _ hfailed w.mark _ sight hres
    rw [hok]
    cases hplace : sight.place with
    | none =>
      simp only [Sight.keep, hplace]
      exact ⟨htgts, .inr ⟨sight, rfl, hchosen, fun h => by
        rw [pure_apply, hseen] at h; cases h⟩⟩
    | some place =>
      simp only [Sight.keep, hplace]
      exact ⟨htgts, .inr ⟨sight, rfl, hchosen, fun _ => ⟨place, hplace, rfl⟩⟩⟩

end

/-- Choosing the target of a frame publishes nothing. The mark is then the one of its sighting, and
where the target is seen, its pose is that of the mark. -/
def Chooses (w : Watch) (p : Picture) (scene : Scene) (t : Lab Sight) : Prop :=
  ∀ s told, (t s).2.targets = s.targets ∧ ∀ sight, (t s).1 = .ok sight →
    sight.mark = (look w p scene s told).taken?.or w.mark ∧
      ((t s).2.memory.seen = true → ∃ m, sight.mark = some m ∧
        (look w p scene s told).Locates m (t s).2.memory.pose)

variable (w : Watch) (p : Picture) (scene : Scene) (sight : Sight)

lemma chooses_sightTarget : Chooses w p scene (sightTarget w p scene) := by
  intro s told
  obtain ⟨htgts, hcases⟩ := sightTarget_cases w p scene s told
  refine ⟨htgts, fun sight hok => ?_⟩
  rcases hcases with ⟨e, he, _⟩ | ⟨_, hsight, hchosen, hpose⟩
  · rw [he] at hok
    cases hok
  · cases hsight.symm.trans hok
    refine ⟨hchosen.1, fun hseen => ?_⟩
    obtain ⟨place, hplace, heq⟩ := hpose hseen
    rw [heq]
    exact hchosen.2 place hplace

variable {α : Type} {what : String} {s s' : Station} {pose : Pose} {step : Lab α}

lemma orSay_of_ok {other a : α} (h : step s = (.ok a, s')) :
    orSay what other step s = (.ok a, s') := by
  have hattempt : Lab.attempt step s = (.ok (.ok a), s') := tryCatch_of_ok (bind_of_ok h)
  exact bind_of_ok hattempt

lemma orSay_of_error {other : α} {e} (h : step s = (.error e, s')) :
    orSay what other step s = (.ok other, (Lab.say (what ++ " failed: " ++ e.message) s').2) := by
  have hattempt : Lab.attempt step s = (.ok (.error e), s') := tryCatch_of_error (bind_of_error h)
  exact bind_of_ok hattempt

lemma chooses_orSay (what : String) :
    Chooses w p scene (orSay what ⟨none, none, w.mark⟩ (sightTarget w p scene)) := by
  intro s told
  have hchooses := chooses_sightTarget w p scene s told
  rcases (sightTarget_cases w p scene s told).2 with ⟨e, he, hseen⟩ | ⟨sight, hsight, _, _⟩
  · have hnone : (look w p scene s told).taken? = none := by
      have hfailed : (look w p scene s told).failed = true := by
        show (sightTarget w p scene s).1.toOption.isNone = true
        rw [he]
        rfl
      rw [Sighting.taken?, hfailed, if_pos rfl]
    rw [orSay_of_error (Prod.ext he rfl)]
    refine ⟨(targets (Lab.say _) _).trans hchooses.1, ?_⟩
    rintro sight ⟨⟩
    refine ⟨by rw [hnone, none_or], fun h => ?_⟩
    cases hseen.symm.trans ((seen (Lab.say _) _).symm.trans h)
  · rw [orSay_of_ok (Prod.ext hsight rfl)]
    exact ⟨hchooses.1, fun other hother => hchooses.2 other (hsight.trans hother)⟩

/-! ## Publishing -/

/-- What a part of the watch publishes: only the pose that is remembered as seen, under the
number. -/
def Publishes {α : Type} (number : Option Int) (t : Lab α) : Prop :=
  ∀ s, ∃ told, (t s).2.targets = s.targets ++ told ∧
    ∀ x ∈ told, s.memory.seen = true ∧ x = ⟨number.getD 0, s.memory.pose⟩

namespace Publishes

variable {α β : Type} {number : Option Int} {t : Lab α} {f : α → Lab β}

lemma of_quiet [Quiet t] : Publishes number t := fun s =>
  ⟨[], by rw [append_nil]; exact targets t s, by simp⟩

lemma after [Quiet t] (hf : ∀ a, Publishes number (f a)) : Publishes number (t >>= f) := by
  intro s
  cases hres : (t s).1 with
  | ok a =>
    rw [bind_ok hres, ← seen t s, ← pose t s, ← targets t s]
    exact hf a _
  | error e =>
    rw [bind_error hres]
    exact of_quiet (t := t) s

lemma before (ht : Publishes number t) (hf : ∀ a, Quiet (f a)) : Publishes number (t >>= f) := by
  intro s
  obtain ⟨told, htgts, htold⟩ := ht s
  refine ⟨told, ?_, htold⟩
  cases hres : (t s).1 with
  | ok a =>
    rw [bind_ok hres, ← htgts]
    exact targets (f a) _
  | error e =>
    rwa [bind_error hres]

end Publishes

lemma Track.advance_seen {track : Track} {now : Value} {seen : Bool} {mean : Pose} {count : Nat}
    (h : (track.advance now seen pose).1 = .ok (some (.seen mean count))) : seen := by
  cases seen with
  | true => rfl
  | false =>
    rw [Track.advance] at h
    split at h
    · cases h
    · simp at h

lemma reportTrack_pose (h : (reportTrack s).1 = .ok (some pose)) : pose = s.memory.pose ∧
    ∃ mean count, (s.memory.track.advance s.clock s.memory.seen s.memory.pose).1 =
      .ok (some (.seen mean count)) := by
  unfold reportTrack at h
  rw [bind_of_ok (show Lab.clock s = (.ok s.clock, s.clockOn) from rfl),
    bind_of_ok (show Lab.memory s.clockOn = (.ok s.memory, s.clockOn) from rfl)] at h
  generalize s.memory.track.advance s.clock s.memory.seen s.memory.pose = advanced at h ⊢
  obtain ⟨report, track⟩ := advanced
  refine (?_ : Returns (fun r : Option Pose => ∀ pose, r = some pose →
    pose = s.memory.pose ∧ ∃ mean count, report = .ok (some (.seen mean count))) _) _ _ h pose rfl
  refine .andThen fun _ => .bind (P := fun r => report = .ok r) ?_ fun report hreport => ?_
  · intro _ r hr
    cases report <;> cases hr
    rfl
  · cases report with
    | none => exact .of_pure fun pose hpose => by cases hpose
    | some report =>
      cases report with
      | lost => exact .andThen fun _ => .of_pure fun pose hpose => by cases hpose
      | seen mean count =>
        refine .andThen fun _ => .andThen fun _ => .of_pure fun pose hpose => ?_
        cases hpose
        exact ⟨rfl, mean, count, hreport⟩

variable (number : Option Int)

lemma publishes_publish : Publishes number (publish number) := by
  intro s
  have htgts : (reportTrack s).2.targets = s.targets := targets reportTrack s
  cases hres : (reportTrack s).1 with
  | error e =>
    rw [publish, bind_error hres]
    exact ⟨[], by rw [append_nil]; exact htgts, by simp⟩
  | ok report =>
    rw [publish, bind_ok hres]
    cases report with
    | none => exact ⟨[], by rw [append_nil]; exact htgts, by simp⟩
    | some pose =>
      obtain ⟨rfl, _, _, hreport⟩ := reportTrack_pose hres
      have hsaid := targets (Lab.say ("QR id: " ++ toString (number.getD 0)))
        (reportTrack s).2
      refine ⟨[⟨number.getD 0, s.memory.pose⟩], ?_, by simp [Track.advance_seen hreport]⟩
      rw [← htgts, ← hsaid]
      exact Station.targets_push _ (.published ⟨number.getD 0, s.memory.pose⟩)

lemma publishes_finishLayers : Publishes (numberIn w scene) (finishLayers w p scene sight) := by
  refine .after fun _ => .after fun _ => .after fun _ => .after fun _ => ?_
  exact (publishes_publish _).before fun _ => inferInstance

lemma publishes_finishMotion : Publishes (numberIn w scene) (finishMotion w p scene sight) := by
  refine .after fun _ => .after fun _ => .after fun _ => .after fun _ => ?_
  refine (publishes_publish _).before fun _ => .andThen fun presented => ?_
  cases presented <;> infer_instance

/-! ## What is carried to the next frame -/

/-- A frame hands the mark and the number on to the next. -/
def Carries (w w' : Watch) (scene : Scene) (sight : Sight) : Prop :=
  w'.mark = sight.mark ∧ w'.number = numberIn w scene

lemma returns_countFrame :
    Returns (fun w' : Watch => w'.mark = w.mark ∧ w'.number = w.number) (countFrame w) := by
  unfold countFrame
  split
  · exact .of_pure ⟨rfl, rfl⟩
  · refine .andThen fun now => .andThen fun rate => .andThen fun _ => .andThen fun since => ?_
    exact .of_pure ⟨rfl, rfl⟩

lemma returns_finishLayers :
    Returns (fun w' => Carries w w' scene sight) (finishLayers w p scene sight) := by
  refine .andThen fun _ => .andThen fun _ => .andThen fun _ => .andThen fun _ => ?_
  exact .andThen fun _ => .andThen fun _ => returns_countFrame _

lemma returns_finishMotion : Returns (fun next => ∀ w', next = .goOn w' → Carries w w' scene sight)
      (finishMotion w p scene sight) := by
  refine .andThen fun _ => .andThen fun _ => .andThen fun _ => .andThen fun _ => ?_
  refine .andThen fun _ => .andThen fun presented => ?_
  cases presented with
  | ok _ => exact .of_pure (by rintro w' ⟨⟩; exact ⟨rfl, rfl⟩)
  | error _ => exact .of_pure (by rintro w' ⟨⟩)

def Sighting.number? (g : Sighting) : Option Int := g.found?.map (·.label.id)

/-- The mark that is kept behind a run of sightings. -/
def markAfter (mark : Option Finding) (gs : List Sighting) : Option Finding :=
  gs.foldl (fun mark g => g.taken?.or mark) mark

/-- The number last found. -/
def numberAfter (gs : List Sighting) : Option Int :=
  gs.foldl (fun number g => g.number?.or number) number

/-- Every published target has the pose of the mark last taken and the number last found. -/
def Tells : Option Finding → Option Int → List Sighting → Prop
  | _, _, [] => True
  | mark, number, g :: rest =>
    (∀ t ∈ g.told, ∃ m, g.taken?.or mark = some m ∧ g.Locates m t.pose ∧
      t.id = (g.number?.or number).getD 0) ∧ Tells (g.taken?.or mark) (g.number?.or number) rest

lemma tells_append {mark number xs ys} :
    Tells mark number (xs ++ ys) ↔
      Tells mark number xs ∧ Tells (markAfter mark xs) (numberAfter number xs) ys := by
  induction xs generalizing mark number with
  | nil => simp [Tells, markAfter, numberAfter]
  | cons g rest ih => simp [Tells, markAfter, numberAfter, ih, and_assoc]

/-- From one state to the other, what the sightings tell is published, and nothing else. -/
structure Seen (mark : Option Finding) (number : Option Int) (gs : List Sighting)
    (s s' : Station) : Prop where
  targets : s'.targets = s.targets ++ gs.flatMap Sighting.told
  tells : Tells mark number gs

namespace Seen

variable {α β : Type} {mark : Option Finding} {number : Option Int} {xs ys : List Sighting}
  {s s1 s2 : Station}

lemma of_quiet (t : Lab α) [Quiet t] (mark : Option Finding) (number : Option Int) (s : Station) :
    Seen mark number [] s (t s).2 :=
  ⟨by simpa using Quiet.targets t s, trivial⟩

lemma trans (h : Seen mark number xs s s1)
    (h' : Seen (markAfter mark xs) (numberAfter number xs) ys s1 s2) :
    Seen mark number (xs ++ ys) s s2 := by
  refine ⟨?_, tells_append.2 ⟨h.tells, h'.tells⟩⟩
  rw [h'.targets, h.targets, append_assoc, flatMap_append]

lemma before {t : Lab α} {f : α → Lab β} (h : Seen mark number xs s (t s).2)
    (hf : ∀ a, Quiet (f a)) : Seen mark number xs s ((t >>= f) s).2 := by
  cases hres : (t s).1 with
  | ok a =>
    rw [bind_ok hres]
    exact ⟨(Quiet.targets (f a) _).trans h.targets, h.tells⟩
  | error e =>
    rwa [bind_error hres]

end Seen

/-- What a frame does, as its sightings have it: it publishes what they tell, and carries on the
mark last taken and the number last found. -/
structure FrameSeen {α : Type} (w : Watch) (goesOn : α → Watch → Prop) (gs : List Sighting)
    (s : Station) (worked : Except VisionError α × Station) : Prop where
  seen : Seen w.mark w.number gs s worked.2
  carried : ∀ a w', worked.1 = .ok a → goesOn a w' →
    w'.mark = markAfter w.mark gs ∧ w'.number = numberAfter w.number gs

section

variable {α : Type} {skipped : α} {search : Lab (Option (Picture × Scene))}
  {choose : Picture → Scene → Lab Sight} {finish : Picture → Scene → Sight → Lab α}
  {s s' : Station}

variable {w : Watch} {goesOn : α → Watch → Prop} {p : Picture} {scene : Scene}

lemma chosen_seen (hchoose : Chooses w p scene (choose p scene))
    (hfinish : ∀ sight, Publishes (numberIn w scene) (finish p scene sight))
    (hcarries : ∀ sight,
      Returns (fun a => ∀ w', goesOn a w' → Carries w w' scene sight) (finish p scene sight))
    (hs : s'.targets = s.targets) :
    FrameSeen w goesOn [look w p scene s'
        (((choose p scene >>= finish p scene) s').2.targets.drop s.targets.length)]
      s ((choose p scene >>= finish p scene) s') := by
  cases hres : (choose p scene s').1 with
  | error e =>
    have htgts := (hchoose s' []).1.trans hs
    rw [bind_error hres, htgts, drop_length]
    exact ⟨⟨by simpa [look] using htgts, by simp [look], trivial⟩, by rintro a w' ⟨⟩⟩
  | ok sight =>
    obtain ⟨told, htgts, htold⟩ := hfinish sight (choose p scene s').2
    rw [(hchoose s' []).1, hs] at htgts
    obtain ⟨hmark, hpose⟩ := (hchoose s' told).2 sight hres
    rw [bind_ok hres, htgts, drop_left]
    refine ⟨⟨by simpa [look] using htgts, fun t ht => ?_, trivial⟩, fun a w' ha hnext => ?_⟩
    · obtain ⟨hseen, rfl⟩ := htold t ht
      obtain ⟨m, hm, hlocates⟩ := hpose hseen
      exact ⟨m, hmark.symm.trans hm, hlocates, rfl⟩
    · obtain ⟨hmark', hnum⟩ := hcarries sight _ a ha w' hnext
      exact ⟨hmark'.trans hmark, hnum⟩

lemma workFrame_seen [Quiet search]
    (hchoose : ∀ p scene, Chooses w p scene (choose p scene))
    (hfinish : ∀ p scene sight, Publishes (numberIn w scene) (finish p scene sight))
    (hcarries : ∀ p scene sight,
      Returns (fun a => ∀ w', goesOn a w' → Carries w w' scene sight) (finish p scene sight))
    (hskipped : ∀ w', goesOn skipped w' → w' = w) (s : Station) :
    FrameSeen w goesOn (sighted search w s (workFrame skipped search choose finish s).2) s
      (workFrame skipped search choose finish s) := by
  -- searching is quiet, so that all that is told comes behind it
  have hquiet := Seen.of_quiet search w.mark w.number s
  cases hsearch : search s with
  | mk found s1 =>
    rw [hsearch] at hquiet
    cases found with
    | error e =>
      rw [workFrame, bind_of_error hsearch]
      simp only [sighted, hsearch]
      exact ⟨hquiet, by rintro a w' ⟨⟩⟩
    | ok found =>
      cases found with
      | none =>
        rw [workFrame, bind_of_ok hsearch]
        simp only [sighted, hsearch]
        refine ⟨hquiet, ?_⟩
        rintro a w' ⟨⟩ hnext
        rw [hskipped w' hnext]
        exact ⟨rfl, rfl⟩
      | some found =>
        obtain ⟨p, scene⟩ := found
        rw [workFrame, bind_of_ok hsearch]
        simp only [sighted, hsearch]
        exact chosen_seen (hchoose p scene) (hfinish p scene) (hcarries p scene)
          (by simpa using hquiet.targets)

end

lemma layeredFrame_seen (s : Station) : FrameSeen w (fun (a : Option Watch) w' => w' = a.getD w)
      (sighted (searchLayers p) w s (layeredFrame w p s).2) s (layeredFrame w p s) := by
  refine workFrame_seen (fun p scene => chooses_sightTarget w p scene)
    (fun p scene sight => (publishes_finishLayers w p scene sight).before fun _ => inferInstance)
    (fun p scene sight => (returns_finishLayers w p scene sight).bind fun w' h => .of_pure ?_)
    (fun w' h => h) s
  rintro _ rfl
  exact h

lemma motionFrame_seen (s : Station) : FrameSeen w (fun a w' => a = .goOn w')
      (sighted (searchMotion p) w s (motionFrame w p s).2) s (motionFrame w p s) := by
  refine workFrame_seen (fun p scene => chooses_orSay w p scene _) (publishes_finishMotion w)
    (returns_finishMotion w) ?_ s
  rintro _ ⟨⟩
  rfl

end ArmStudio.Vision
