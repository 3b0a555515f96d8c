import ArmStudio.Proofs.Attempts
import ArmStudio.Vision.Watch

/-!
# Quiet steps at the bench

Most of the work on a frame asks tools, reads codes and draws. It publishes no target, and what is
known of the target's pose stays as it is.
-/

namespace ArmStudio.Vision

open Number Script Lab

def Event.target? : Event → Option Target
  | published target => some target
  | _ => none

namespace Station

variable (s : Station)

/-- The targets published so far. -/
def targets : List Target := s.events.toList.filterMap Event.target?

/-- All of a station that the target it publishes hangs on, and those it has published. -/
def outlook : Bool × Pose × List Target := (s.memory.seen, s.memory.pose, s.targets)

lemma targets_push (e : Event) :
    { s with events := s.events.push e }.targets = s.targets ++ e.target?.toList := by
  cases h : e.target? <;> simp [targets, h]

end Station

/-- A step that publishes nothing and leaves what is known of the target, even if it fails. -/
class Quiet {α : Type} (t : Lab α) : Prop where
  leaves : Preserves Station.outlook t

namespace Quiet

variable {α β ι : Type} (t : Lab α)

lemma seen [h : Quiet t] (s : Station) : (t s).2.memory.seen = s.memory.seen :=
  congrArg (fun o => o.1) (h.leaves s)

lemma pose [h : Quiet t] (s : Station) : (t s).2.memory.pose = s.memory.pose :=
  congrArg (fun o => o.2.1) (h.leaves s)

lemma targets [h : Quiet t] (s : Station) : (t s).2.targets = s.targets :=
  congrArg (fun o => o.2.2) (h.leaves s)

/-! ## Putting steps together -/

instance of_pure (a : α) : Quiet (pure a) := ⟨.of_pure a⟩

instance of_throw (e : VisionError) : Quiet (throw e : Lab α) := ⟨.of_throw e⟩

instance bind (t : Lab α) (f : α → Lab β) [ht : Quiet t] [hf : ∀ a, Quiet (f a)] :
    Quiet (t >>= f) :=
  ⟨ht.leaves.bind fun a => (hf a).leaves⟩

lemma andThen {t : Lab α} {f : α → Lab β} [Quiet t] (hf : ∀ a, Quiet (f a)) : Quiet (t >>= f) :=
  bind t f

instance ite (c : Prop) [Decidable c] (t e : Lab α) [Quiet t] [Quiet e] :
    Quiet (if c then t else e) := by
  split <;> assumption

instance forIn (l : List ι) (b : β) (body : ι → β → Lab (ForInStep β))
    [h : ∀ i b, Quiet (body i b)] : Quiet (ForIn.forIn l b body) :=
  ⟨.forIn (fun i b => (h i b).leaves) l b⟩

instance foldlM (f : β → ι → Lab β) (b : β) (l : List ι) [h : ∀ b i, Quiet (f b i)] :
    Quiet (l.foldlM f b) :=
  ⟨.foldlM (fun b i => (h b i).leaves) l b⟩

instance attempt (t : Lab α) [ht : Quiet t] : Quiet (attempt t) :=
  ⟨.of_tryCatch (ht.leaves.bind fun _ => .of_pure _) fun _ => .of_pure _⟩

instance discard (t : Lab α) [Quiet t] : Quiet (discard t) := bind t fun _ => pure ()

instance lift (r : Except VisionError α) : Quiet (lift r) := ⟨fun _ => rfl⟩

instance get : Quiet (MonadState.get : Lab Station) := ⟨fun _ => rfl⟩

lemma modify {f} (h : ∀ s, (f s).outlook = s.outlook) :
    Quiet (modify f : Lab Unit) := ⟨.of_modify h⟩

end Quiet

/-! ## Tools and readers -/

namespace Lab

lemma attempt_apply {α : Type} (t : Lab α) (s : Station) :
    attempt t s = (.ok (t s).1, (t s).2) := by
  cases hres : (t s).1 with
  | ok a => exact tryCatch_of_ok (bind_ok hres)
  | error e => exact tryCatch_of_error (bind_error hres)

lemma quiet_record {e : Event} (h : e.target? = none) : Quiet (record e) := by
  refine .modify fun s => ?_
  have htgts := s.targets_push e
  rw [h, Option.toList_none, List.append_nil] at htgts
  simp only [Station.outlook, htgts]

variable (tool : Tool) (args : List Document) (text : String) (p : Picture) (x y thickness : Int)
  (colour : List Int)

instance : Quiet (record (.asked tool args)) := quiet_record rfl

instance (camera : Int) : Quiet (record (.opened camera)) := quiet_record rfl

instance : Quiet (record .frame) := quiet_record rfl

instance (picture : Document) : Quiet (record (.presented picture)) := quiet_record rfl

instance (level : String) : Quiet (record (.noted level text)) := quiet_record rfl

instance : Quiet (record .dismissed) := quiet_record rfl

instance : Quiet (record .released) := quiet_record rfl

instance : Quiet (say text) := quiet_record rfl

instance (line : String) : Quiet (print line) := .modify fun _ => rfl

instance : Quiet settings := ⟨fun _ => rfl⟩

instance : Quiet library := ⟨fun _ => rfl⟩

instance : Quiet clock := ⟨fun _ => rfl⟩

instance : Quiet memory := ⟨fun _ => rfl⟩

instance (cues : Cues) : Quiet (load cues) := .modify fun _ => rfl

lemma quiet_remember {f} (hseen : ∀ m, (f m).seen = m.seen)
    (hpose : ∀ m, (f m).pose = m.pose) : Quiet (remember f) := by
  refine .modify fun s => ?_
  show ((f s.memory).seen, (f s.memory).pose, s.targets) = _
  rw [hseen, hpose]
  rfl

instance : Quiet (touch tool) := by
  have hcount (count : Nat) : Quiet (modify fun s : Station =>
      { s with counts := s.counts.insert tool.name count } : Lab Unit) := .modify fun _ => rfl
  unfold touch
  split
  · refine .andThen fun s => .andThen fun _ => .andThen fun s' => ?_
    split <;> infer_instance
  · infer_instance

instance : Quiet (ask tool args) := .bind _ _

-- Readers take their answers from the cues.

instance : Quiet nextContours := by
  refine ⟨.get_bind fun s => ?_⟩
  cases s.cues.contours <;> rfl

instance : Quiet readCodes := by
  refine ⟨.get_bind fun s => ?_⟩
  cases s.cues.codes <;> rfl

instance : Quiet nextFlow := by
  refine ⟨.get_bind fun s => ?_⟩
  cases s.cues.flows <;> rfl

instance : Quiet nextFeatures := by
  refine ⟨.get_bind fun s => ?_⟩
  cases s.cues.features <;> rfl

instance : Quiet nextMatching := by
  refine ⟨.get_bind fun s => ?_⟩
  cases s.cues.matchings <;> rfl

instance : Quiet (toGray p) := .bind _ _

instance : Quiet (toColour p) := .bind _ _

instance (size : Int) : Quiet (blur p size) := .bind _ _

instance (low high : Int) : Quiet (edges p low high) := .bind _ _

instance (mode : Int) : Quiet (contours p mode) := .bind _ _

instance (p : List Point) : Quiet (area p) := .bind _ _

instance (p : List Point) : Quiet (perimeter p) := .bind _ _

instance (p : List Point) (within : Double) : Quiet (thin p within) := .bind _ _

instance (p : List Point) : Quiet (tightBox p) := .bind _ _

instance (corners : List Point) (width height : Int) :
    Quiet (straighten p corners width height) := .bind _ _

instance (width height : Nat) : Quiet (resize p width height) := .bind _ _

instance (size : Document) : Quiet (write p text x y size colour thickness) := .bind _ _

instance (left top right bottom : Int) :
    Quiet (drawBox p left top right bottom colour thickness) := .bind _ _

instance (x1 y1 x2 y2 : Int) : Quiet (drawLine p x1 y1 x2 y2 colour thickness) := .bind _ _

instance (radius : Int) : Quiet (drawDot p x y radius colour) := .bind _ _

instance (window : String) : Quiet (showIn window p) := .bind _ _

end Lab

/-! ## Outlines and squares -/

variable (corners contour : List Point) (box : Box) (area : Double)
  (regions : List (Option (List Int))) (contours : List Contour) (p : Picture)
  (picture : Option Picture) (pictures : List Picture) (motions : List (Single × Single))
  (buffer : Buffer) (layers : List (Picture × Nat)) (found findings : List Finding) (layer : Nat)
  (factor : Value) (squares : List (List Point)) (what : String) (scene : Scene)
  (square : Option (List Point)) (camera : Camera) (number : Int) (frames : List Frame)

instance (x y w h : Int) : Quiet (isDisjoint corners box area x y w h) := by
  unfold isDisjoint
  dsimp only
  infer_instance

instance : Quiet (isClearOf corners box area regions) := by
  fun_induction isClearOf corners box area regions with
  | case1 => infer_instance
  | case2 => infer_instance
  | case3 => assumption
  | case4 x y w h rest _ _ _ =>
    refine .andThen fun clear => ?_
    split <;> infer_instance
  | case5 => infer_instance

instance : Quiet (isClear contour regions) := by
  unfold isClear
  split
  · infer_instance
  · refine .andThen fun clear => ?_
    split <;> infer_instance

instance (least : Double) : Quiet (zoomArea contours least) := by
  unfold zoomArea
  refine .andThen fun largest => ?_
  obtain ⟨best, most⟩ := largest
  cases best <;> infer_instance

instance (squares : List (Option (List Point))) : Quiet (traitsOf squares) := by
  fun_induction traitsOf squares <;> infer_instance

instance (squares : List (Option (List Point))) : Quiet (mergeClose squares) := .ite _ _ _

instance : Quiet (squareOf? p regions contour) := .ite _ _ _

instance (contours : List (List Point)) : Quiet (squaresAmong p regions contours) := by
  fun_induction squaresAmong p regions contours <;> infer_instance

instance : Quiet (upload p) := .bind _ _

instance : Quiet (download p) := .bind _ _

instance : Quiet (process picture) := by
  fun_cases process picture <;> infer_instance

instance (edges blurred : Picture) (processed : Option Processed) (levels : List Nat) :
    Quiet (squaresAtLevels p edges blurred processed regions levels) := by
  induction levels with
  | nil => exact Quiet.of_pure _
  | cons level rest ih =>
    unfold squaresAtLevels
    dsimp only
    split <;> infer_instance

instance : Quiet (findSquares picture) := by
  unfold findSquares
  cases picture with
  | none => infer_instance
  | some p =>
    refine .andThen fun sent => .andThen fun processed => ?_
    dsimp only
    split <;> infer_instance

/-! ## Layers and motion -/

instance (given : Option Picture) (make : Lab Picture) [Quiet make] :
    Quiet (orMake given make) := by
  cases given <;> unfold orMake <;> infer_instance

instance : Quiet (download? picture) := by
  fun_cases download? picture <;> infer_instance

instance : Quiet (makeLayers p) := by
  unfold makeLayers
  refine .andThen fun sent => .andThen fun made => .andThen fun gray => .andThen fun blurred => ?_
  infer_instance

instance (a b : Picture) : Quiet (estimateMotion a b) := by
  unfold estimateMotion
  refine .andThen fun gray => .andThen fun next => .andThen fun _ => .andThen fun flow => ?_
  split
  · infer_instance
  · refine .andThen fun _ => .andThen fun before => .andThen fun after => ?_
    cases before <;> cases after <;> infer_instance

instance (first : Picture) : Quiet (align first pictures motions) := by
  induction pictures generalizing motions with
  | nil => exact Quiet.of_pure _
  | cons p rest ih => cases motions <;> unfold align <;> infer_instance

instance : Quiet (inColour pictures) := by
  fun_induction inColour pictures <;> infer_instance

instance : Quiet (integrate pictures motions) := by
  unfold integrate
  split
  · infer_instance
  · refine .andThen fun coloured => ?_
    cases coloured <;> infer_instance

instance (m : Single × Single) : Quiet (deblur p m) := .bind _ _

instance : Quiet (bufferPicture buffer p) := by
  fun_cases bufferPicture buffer p <;> infer_instance

instance : Quiet (processBuffer buffer) := by
  unfold processBuffer
  split
  · infer_instance
  · refine .andThen fun made => ?_
    cases made <;> infer_instance

/-! ## Reading marks -/

instance : Quiet (grayOf p) := .ite _ _ _

instance : Quiet (readEach layers found) := by
  fun_induction readEach layers found <;> infer_instance

instance : Quiet (readLayers picture) := by
  fun_cases readLayers picture <;> infer_instance

instance : Quiet (readPart p layer contour found) := by
  unfold readPart
  refine .andThen fun area => ?_
  split
  · infer_instance
  · refine .andThen fun length => .andThen fun corners => ?_
    split
    · infer_instance
    · refine .andThen fun box => .andThen fun codes => ?_
      cases codes <;> infer_instance

instance (contours : List (List Point)) : Quiet (readParts p layer contours found) := by
  fun_induction readParts p layer contours found <;> infer_instance

instance : Quiet (readTiltedEach p layers found) := by
  fun_induction readTiltedEach p layers found <;> infer_instance

instance : Quiet (readTilted picture) := by
  fun_cases readTilted picture <;> infer_instance

instance : Quiet (straightCodes p contours) := by
  induction contours with
  | nil => exact Quiet.of_pure _
  | cons contour rest ih =>
    unfold straightCodes
    refine .andThen fun area => ?_
    split
    · infer_instance
    · refine .andThen fun box => .andThen fun _ => .andThen fun codes => ?_
      split <;> infer_instance

instance : Quiet (tiltedCodes p) := .bind _ _

instance {α : Type} (task : Lab α) [Quiet task] : Quiet (submit task) := .bind _ _

instance (processed : Option Picture) : Quiet (blurredCodes processed) := by
  fun_cases blurredCodes processed <;> infer_instance

lemma quiet_keepBuffer (buffer : Buffer) :
    Quiet (modify fun s : Station => { s with buffer := buffer } : Lab Unit) := .modify fun _ => rfl

instance : Quiet (processPicture p) := by
  have := quiet_keepBuffer
  unfold processPicture
  infer_instance

instance : Quiet (movingCodes p) := .bind _ _

instance : Quiet (anyCodes p) := by
  unfold anyCodes
  refine .andThen fun codes => ?_
  split
  · refine .andThen fun moving => ?_
    split <;> infer_instance
  · infer_instance

instance (b : Barcode) : Quiet (placeOf b) := by
  fun_cases placeOf b <;> infer_instance

instance (codes : List (Option Barcode)) : Quiet (formatCodes codes) := by
  induction codes with
  | nil => exact Quiet.of_pure _
  | cons code rest ih =>
    cases code with
    | none => exact ih
    | some b =>
      unfold formatCodes
      refine .andThen fun position => ?_
      cases position with
      | none => infer_instance
      | some position =>
        dsimp only
        split <;> infer_instance

instance {α : Type} (step : Lab α) [Quiet step] : Quiet (withFreshBuffer step) := by
  have := quiet_keepBuffer
  unfold withFreshBuffer
  infer_instance

instance : Quiet (readMotion picture) := by
  fun_cases readMotion picture <;> infer_instance

instance : Quiet (readMarks picture) := by
  unfold readMarks
  refine .andThen fun settings => ?_
  split <;> infer_instance

instance : Quiet (readTiltedMarks picture) := by
  unfold readTiltedMarks
  refine .andThen fun settings => ?_
  split <;> infer_instance

/-! ## Zooming and light -/

instance : Quiet (searchPart p corners factor) := by
  unfold searchPart
  refine .andThen fun origin => ?_
  split <;> infer_instance

instance (corners : Option (List Point)) : Quiet (zoomSearch picture corners factor) := by
  unfold zoomSearch
  split
  · refine .andThen fun found => ?_
    split <;> infer_instance
  · infer_instance

instance (text : String) : Quiet (showBlank text) := .bind _ _

instance : Quiet (showPart p corners) := by
  have hkeep (zoomed : Picture) : Quiet (remember fun m => { m with zoomed := some zoomed }) :=
    quiet_remember (fun _ => rfl) fun _ => rfl
  unfold showPart
  dsimp only
  refine .andThen fun box => .andThen fun part => ?_
  split <;> infer_instance

instance (corners : Option (List Point)) : Quiet (showZoom picture corners) := by
  unfold showZoom
  split
  · refine .andThen fun shown => ?_
    split <;> infer_instance
  · infer_instance

instance (amount : Double) : Quiet (adjustBrightness picture amount) := by
  fun_cases adjustBrightness picture amount <;> infer_instance

instance (region : Option (List Int)) : Quiet (regionLevel picture region) := by
  fun_cases regionLevel picture region <;> infer_instance

instance (regions : List (Option (Option (List Int)))) :
    Quiet (updateBrightness picture regions) := by
  have hmove (level : Double) : Quiet (remember fun m =>
      { m with brightness := clip (-50) 50 (m.brightness + (goalLevel - level) * 0.1) }) :=
    quiet_remember (fun _ => rfl) fun _ => rfl
  unfold updateBrightness
  split
  · split
    · infer_instance
    · refine .andThen fun level => ?_
      split <;> infer_instance
  · infer_instance

/-! ## Drawing -/

instance (width height : Int) : Quiet (drawGrid width height) := by
  unfold drawGrid
  split
  · infer_instance
  · refine .andThen fun settings => .andThen fun _ => .andThen fun _ => .andThen fun _ => ?_
    dsimp only
    infer_instance

instance (f : Finding) : Quiet (drawFinding p f) := by
  fun_cases drawFinding p f <;> infer_instance

instance (index : Int) (colour : List Int) : Quiet (drawOutline p corners index colour) := .bind _ _

instance (square : List Point) : Quiet (drawSquare p square) := .bind _ _

instance : Quiet (drawZoom p corners) := .bind _ _

/-! ## The work on a frame -/

instance (f : Frame) : Quiet (takeFrame f) := by
  have hstop : Quiet (remember fun m => { m with running := false }) :=
    quiet_remember (fun _ => rfl) fun _ => rfl
  have htime : Quiet (modify fun s : Station =>
      { s with clock := f.times.headD s.clock, times := f.times.tail } : Lab Unit) :=
    .modify fun _ => rfl
  unfold takeFrame
  infer_instance

instance : Quiet (inPlanes p) := .ite _ _ _

instance : Quiet (searchPicture p) := .bind _ _

instance : Quiet (outlinesIn p) := .bind _ _

instance : Quiet (zoomScene p contours squares findings) := by
  unfold zoomScene
  refine .andThen fun settings => ?_
  split
  · infer_instance
  · refine .andThen fun area => ?_
    cases area with
    | none => infer_instance
    | some area =>
      refine .andThen fun found => ?_
      split <;> infer_instance

instance : Quiet (searchLayers p) := by
  unfold searchLayers
  refine .andThen fun p => .andThen fun found => ?_
  cases found <;> infer_instance

instance {α : Type} (other : α) (step : Lab α) [Quiet step] : Quiet (orSay what other step) := by
  unfold orSay
  refine .andThen fun result => ?_
  cases result <;> infer_instance

instance : Quiet (sceneOf p squares findings) := .bind _ _

instance : Quiet (searchMotion p) := by
  unfold searchMotion
  refine .andThen fun planes => ?_
  cases planes with
  | error e => infer_instance
  | ok p =>
    refine .andThen fun found => ?_
    split <;> infer_instance

instance : Quiet (lightScene p scene) := .ite _ _ _

instance (step : Lab Unit) [Quiet step] : Quiet (orNote what step) := by
  unfold orNote
  refine .andThen fun result => ?_
  cases result <;> infer_instance

instance : Quiet (showSearched p scene) := .bind _ _

instance (grid : Picture) : Quiet (layGrid p grid) := .bind _ _

instance : Quiet (drawScene p scene square) := .bind _ _

instance : Quiet (drawEach p scene square) := .bind _ _

instance (lib : Library) (center : Point) : Quiet (squaresAround lib center squares) := by
  fun_induction squaresAround lib center squares <;> infer_instance

instance (best : Option (List Point × Double)) : Quiet (largestSquare squares best) := by
  induction squares generalizing best with
  | nil => exact Quiet.of_pure _
  | cons square rest ih =>
    unfold largestSquare
    refine .andThen fun area => ?_
    cases best <;> infer_instance

instance (lib : Library) (locateMark locateAround : List Point → Position) (last : Option Finding)
    (held : Bool) (lock : Lock) :
    Quiet (chooseTarget lib locateMark locateAround findings squares last held lock) := by
  unfold chooseTarget
  cases findings with
  | nil => infer_instance
  | cons first rest =>
    dsimp only
    split
    · infer_instance
    · split
      · refine .andThen fun _ => .andThen fun around => .andThen fun largest => ?_
        cases largest <;> infer_instance
      · refine .andThen fun around => .andThen fun largest => ?_
        cases largest <;> infer_instance

instance : Quiet reportTrack := by
  have htrack (track : Track) : Quiet (remember fun m => { m with track := track }) :=
    quiet_remember (fun _ => rfl) fun _ => rfl
  unfold reportTrack
  refine .andThen fun now => .andThen fun m => .andThen fun _ => .andThen fun report => ?_
  split <;> infer_instance

instance : Quiet (present p) := .bind _ _

instance (w : Watch) : Quiet (countFrame w) := .ite _ _ _

instance : Quiet (openCamera camera number) := .bind _ _

instance : Quiet (firstFrame frames) := by
  cases frames <;> unfold firstFrame <;> infer_instance

instance : Quiet (firstGrid frames) := by
  unfold firstGrid
  refine .andThen fun p => ?_
  cases p <;> infer_instance

instance : Quiet (beginLayers camera number) := by
  have hrun : Quiet (remember fun m => { m with running := true }) :=
    quiet_remember (fun _ => rfl) fun _ => rfl
  unfold beginLayers
  refine .andThen fun _ => .andThen fun _ => .andThen fun _ => .andThen fun _ =>
    .andThen fun opened => ?_
  split
  · infer_instance
  · refine .andThen fun _ => .andThen fun p => ?_
    cases p <;> infer_instance

instance : Quiet (beginMotion camera number) := by
  unfold beginMotion
  refine .andThen fun _ => .andThen fun opened => ?_
  cases opened <;> infer_instance

end ArmStudio.Vision
