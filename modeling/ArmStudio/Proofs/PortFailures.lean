import ArmStudio.Link.Task
import ArmStudio.Proofs.FlashWriting

/-!
# Ports that fail

A port may fail at every read and write. A task takes failures up and tells them, with two
exceptions: reading the state, and the end of a write to the flash, pass on a failure that is no
timeout.
-/

namespace ArmStudio.Link

open Number Script Answer

/-- Write number `i` fails other than by a timeout, or it succeeds and read number `i` fails so. -/
def Wire.Breaks (w : Wire) (i : Nat) : Prop := outcome w.writings[i]? = .error .failure ∨
    (∃ b, outcome w.writings[i]? = .ok b) ∧ outcome w.readings[i]? = .error .failure

lemma Answer.outcome_error {a e} (h : outcome a = .error e) : e = .timeout ∨ e = .failure := by
  unfold outcome at h
  split at h <;> simp_all

lemma Did.breaks_iff {w w1 : Wire} {xs} (h : Did w w1 xs) {n : Nat}
    (hreads : xs.countP Event.isRead = n) (hwrites : xs.countP Event.isWrite = n) (i : Nat) :
    w1.Breaks i ↔ w.Breaks (n + i) := by
  unfold Wire.Breaks
  rw [h.readings, h.writings, hreads, hwrites, List.getElem?_drop, List.getElem?_drop]

namespace Talk

variable {α β : Type}

/-- The part fails in this wire exactly if `p` holds, and then with a failure of the port. -/
def FailsIf (p : Prop) (t : Talk α) (w : Wire) : Prop := ∀ e, (t w).1 = .error e ↔ e = .failure ∧ p

namespace FailsIf

variable {p : Prop} {t : Talk α} {w : Wire}

lemma of_succeeds (h : Succeeds t) (w : Wire) : FailsIf False t w := by
  intro e
  obtain ⟨a, ha⟩ := h.ok w
  simp [ha]

lemma bind {f : α → Talk β} (ht : FailsIf p t w) (hf : ∀ a, Succeeds (f a)) :
    FailsIf p (t >>= f) w := by
  intro e
  rw [← ht e]
  cases hres : (t w).1 with
  | ok a =>
    obtain ⟨b, hb⟩ := (hf a).ok (t w).2
    rw [bind_ok hres, hb]
    simp
  | error e' =>
    rw [bind_error hres]
    simp

lemma quiet_bind {u} (hu : Quiet u) {next : Talk β}
    (h : ∀ w1, Did w w1 [] → FailsIf p next w1) : FailsIf p (do u; next) w := by
  obtain ⟨hok, hdid⟩ := hu w
  intro e
  rw [bind_ok hok]
  exact h _ hdid e

end FailsIf

/-! ## Parts that never fail -/

lemma succeeds_emit (e : Event) : Succeeds (emit e) := .of_modify _

lemma succeeds_tell (m : Message) : Succeeds (tell m) := succeeds_emit _

lemma succeeds_guarded (t : Talk Reply) : Succeeds (guarded t) := .of_tryCatch fun _ => .of_pure _

lemma succeeds_tellReply (r : Int) : Succeeds (tellReply r) := by
  unfold tellReply
  split
  · exact succeeds_tell _
  · split
    · exact succeeds_tell _
    · split
      · exact succeeds_tell _
      · exact .of_pure _

variable {t next : Talk Reply} {values : List Value} {p : Prop} {w w1 : Wire}
  {handler : LinkError → Talk α} {f : List UInt8 → Talk α} {frame : List UInt8}

lemma succeeds_tracked (h : Succeeds t) : Succeeds (tracked t) :=
  (succeeds_tell _).bind fun _ => h.bind fun _ => (succeeds_tell _).bind fun _ => .of_pure _

lemma succeeds_byteCommand (b : UInt8) : Succeeds (byteCommand b) := succeeds_guarded _

/-- The value is a number that has a nearest double. -/
def IsNumber (v : Value) : Prop := ∃ x, v.toReal = .ok x

lemma serialize_ok (h : ∀ v ∈ values, IsNumber v) : ∃ b, serialize values = .ok b := by
  induction values with
  | nil => exact ⟨[], rfl⟩
  | cons v rest ih =>
    obtain ⟨x, hx⟩ := h v (by simp)
    obtain ⟨b, hb⟩ := ih fun v' hv' => h v' (by simp [hv'])
    exact ⟨_, by rw [serialize, numberBytes, hx, hb]; rfl⟩

lemma succeeds_numbers (h : ∀ v ∈ values, IsNumber v) : Succeeds (numbers values) := by
  obtain ⟨b, hb⟩ := serialize_ok h
  unfold numbers
  rw [hb]
  exact .of_pure b

lemma succeeds_numbersCommand (b : UInt8) (h : ∀ v ∈ values, IsNumber v) :
    Succeeds (numbersCommand b values) :=
  (succeeds_numbers h).bind fun _ => succeeds_guarded _

lemma succeeds_track {x y rotation id : Value} (h : ∀ v ∈ [x, y, rotation], IsNumber v)
    (hid : id.toInt?.isSome) : Succeeds (track x y rotation id) := by
  obtain ⟨n, hn⟩ := Option.isSome_iff_exists.1 hid
  refine (succeeds_numbers h).bind fun place => ?_
  rw [hn]
  exact succeeds_guarded _

lemma succeeds_notFound : Succeeds notFound := (succeeds_tell _).bind fun _ => .of_pure _

lemma succeeds_readFlash (address length : Int) (path : String) :
    Succeeds (readFlash address length path) := by
  refine (succeeds_tell _).bind fun _ => .get_bind fun w _ => ?_
  dsimp only
  split
  · exact (Succeeds.of_modify _).bind fun _ => succeeds_guarded _
  split
  · exact .of_pure _
  · exact succeeds_notFound

lemma succeeds_cleanFlash : Succeeds cleanFlash :=
  (succeeds_tell _).bind fun _ => succeeds_guarded _

lemma succeeds_openPort (port : String) (baud : Int) (timeout : Value) :
    Succeeds (openPort port baud timeout) := by
  have hopens (w : Wire) : Succeeds (if w.ports.contains port then do
      modify fun w => { w with isOpen := true }
      tell (.openPort "OK")
    else tell (.openPort "FAILED")) := by
    split
    · exact (Succeeds.of_modify _).bind fun _ => succeeds_tell _
    · exact succeeds_tell _
  refine .get_bind fun w _ => ?_
  split
  · exact (succeeds_emit _).bind fun _ => (Succeeds.of_modify _).bind fun _ =>
      (succeeds_emit _).bind fun _ => .get_bind fun w _ => hopens w
  · exact (succeeds_emit _).bind fun _ => .get_bind fun w _ => hopens w

/-! ## Parts that pass a failure on -/

/-- The handler takes up a timeout and passes all else on. -/
structure PassesOn (handler : LinkError → Talk α) : Prop where
  timeout : Succeeds (handler .timeout)
  failure : ∀ w, (handler .failure w).1 = .error .failure

lemma FailsIf.tryCatch {t : Talk α} (hhandler : PassesOn handler)
    (h : ∀ e, (t w).1 = .error e → e = .timeout ∨ e = .failure)
    (hp : (t w).1 = .error .failure ↔ p) :
    FailsIf p (tryCatch t handler) w := by
  intro e
  rw [← hp]
  cases hres : (t w).1 with
  | ok a =>
    rw [tryCatch_ok hres]
    simp
  | error e' =>
    rw [tryCatch_error hres]
    rcases h e' hres with rfl | rfl
    · obtain ⟨a, ha⟩ := hhandler.timeout.ok (t w).2
      simp [ha]
    · rw [hhandler.failure]
      simp [eq_comm]

lemma send_receive_error_iff (hf : ∀ b, Succeeds (f b)) (bytes : List UInt8) (size : Nat)
    (w : Wire) (e : LinkError) :
    ((do send bytes; let b ← receive size; f b) w).1 = .error e ↔
      outcome w.writings[0]? = .error e ∨ (∃ b, outcome w.writings[0]? = .ok b) ∧
          outcome w.readings[0]? = .error e := by
  obtain ⟨hsend, hdid⟩ := did_send bytes w
  have hsame : (send bytes w).2.readings = w.readings := hdid.readings
  cases hwrite : outcome w.writings[0]? with
  | error e' =>
    rw [hwrite] at hsend
    rw [bind_error hsend]
    simp
  | ok written =>
    rw [hwrite] at hsend
    obtain ⟨hrecv, -⟩ := did_receive size (send bytes w).2
    rw [hsame] at hrecv
    rw [bind_ok hsend]
    cases hread : outcome w.readings[0]? with
    | error e' =>
      rw [hread] at hrecv
      rw [bind_error hrecv]
      simp
    | ok b =>
      rw [hread] at hrecv
      obtain ⟨a, ha⟩ := (hf (b.take size)).ok (receive size (send bytes w).2).2
      rw [bind_ok hrecv, ha]
      simp

lemma FailsIf.of_send_receive (hf : ∀ b, Succeeds (f b)) (hhandler : PassesOn handler)
    (bytes : List UInt8) (size : Nat) (w : Wire) :
    FailsIf (w.Breaks 0) (MonadExcept.tryCatch (do send bytes; let b ← receive size; f b) handler)
      w := by
  refine .tryCatch hhandler (fun e he => ?_) (send_receive_error_iff hf bytes size w .failure)
  rcases (send_receive_error_iff hf bytes size w e).1 he with hwrite | ⟨-, hread⟩
  · exact outcome_error hwrite
  · exact outcome_error hread

lemma failsIf_readState (w : Wire) : FailsIf (w.Breaks 0) readState w := by
  refine .quiet_bind (quiet_tell _) fun w1 hdid => .bind ?_ fun r =>
    (succeeds_tell _).bind fun _ => .of_pure r
  have hsame : w1.Breaks 0 ↔ w.Breaks 0 := hdid.breaks_iff rfl rfl 0
  rw [← hsame]
  refine .of_send_receive (fun b => ?_) ?_ _ _ w1
  · split
    · exact .of_pure _
    · split
      · exact .of_pure _
      · exact .of_pure _
  · exact ⟨.of_pure _, fun w2 => rfl⟩

lemma failsIf_endWrite (w : Wire) : FailsIf (w.Breaks 0) endWrite w := by
  refine .of_send_receive (fun b => ?_) ?_ _ _ w
  · exact ((succeeds_tell _).bind fun _ => succeeds_tell _).bind fun _ => .of_pure _
  · exact ⟨.of_pure _, fun w1 => rfl⟩

/-! ## Writing to the flash -/

/-- All exchanges before number `n` are answered with done, and that one breaks. -/
def BreaksFirst (n : Nat) (w : Wire) : Prop := (∀ i < n, w.Answered i) ∧ w.Breaks n

lemma breaksFirst_quiet (h : Did w w1 []) (n : Nat) : BreaksFirst n w1 ↔ BreaksFirst n w := by
  simp only [BreaksFirst, h.answered_iff (n := 0) rfl rfl, h.breaks_iff (n := 0) rfl rfl,
    zero_add]

lemma breaksFirst_succ (h : Did w w1 [.wrote frame, .asked 1]) (n : Nat) :
    w.Answered 0 ∧ BreaksFirst n w1 ↔ BreaksFirst (n + 1) w := by
  simp only [BreaksFirst, h.answered_iff (n := 1) rfl rfl, h.breaks_iff (n := 1) rfl rfl,
    Nat.forall_lt_succ_left, add_comm 1, and_assoc]

lemma Exchanges.andThen_failsIf {p : Wire → Prop} (h : Exchanges frame t w) (ht : Succeeds t)
    (hnext : ∀ w1, Did w w1 [.wrote frame, .asked 1] → FailsIf (p w1) next w1) :
    FailsIf (w.Answered 0 ∧ p (t w).2) (t.andThen next) w := by
  intro e
  by_cases hyes : w.Answered 0
  · have hdid := h.did.resolve_right fun hno => hno.1 hyes
    rw [h.andThen_of_answered hyes, hnext _ hdid e]
    simp [hyes]
  · obtain ⟨r, hr⟩ := ht.ok w
    rw [h.andThen_of_not hyes, hr]
    simp [hyes]

lemma Exchanges.andThen_breaksFirst {n : Nat} (h : Exchanges frame t w) (ht : Succeeds t)
    (hnext : ∀ w1, Did w w1 [.wrote frame, .asked 1] → FailsIf (BreaksFirst n w1) next w1) :
    FailsIf (BreaksFirst (n + 1) w) (t.andThen next) w := by
  have hboth : w.Answered 0 ∧ BreaksFirst n (t w).2 ↔ BreaksFirst (n + 1) w := by
    rcases h.did with hdid | ⟨hno, -⟩
    · exact breaksFirst_succ hdid n
    · exact ⟨fun hyes => absurd hyes.1 hno, fun hall => absurd (hall.1 0 n.succ_pos) hno⟩
  rw [← hboth]
  exact h.andThen_failsIf ht hnext

lemma failsIf_sendPackets (size : Double) (packets : List (List UInt8)) (percent : Double)
    (w : Wire) :
    FailsIf (BreaksFirst packets.length w) ((sendPackets size percent packets).andThen endWrite)
      w := by
  induction packets generalizing percent w with
  | nil =>
    have h := failsIf_endWrite w
    have hzero : BreaksFirst 0 w ↔ w.Breaks 0 := by simp [BreaksFirst]
    rwa [← hzero] at h
  | cons packet rest ih =>
    rw [sendPackets, andThen_assoc]
    exact (exchanges_guarded (quiet_tell _) packet w).andThen_breaksFirst (succeeds_guarded _)
      fun w1 _ => ih _ w1

lemma failsIf_writeFlash (address : Int) (path : String) (w : Wire) :
    FailsIf ((∃ content, w.disk.read? path = some content ∧
        BreaksFirst ((packetsOf content).length + 1) w) ∨
      w.disk.read? path = none ∧ w.disk.isDir path = true ∧ w.Answered 0)
      (writeFlash address path) w := by
  have hhead := exchanges_guarded quiet_return (writeCommand address) w
  cases hfile : w.disk.read? path with
  | none =>
    -- without a file nothing is sent behind the command
    have hfails : FailsIf (w.Answered 0 ∧ w.disk.isDir path) (writeFlash address path) w := by
      refine hhead.andThen_failsIf (p := fun _ => w.disk.isDir path) (succeeds_guarded _)
        fun w1 hdid => .quiet_bind (quiet_tell _) fun w2 hdid' e => ?_
      rw [← hdid.disk, ← hdid'.disk] at hfile ⊢
      rw [get_bind_apply]
      simp only [hfile]
      split
      case isTrue hdir => simp [hdir, eq_comm]
      case isFalse hdir =>
        simpa [hdir] using FailsIf.of_succeeds succeeds_notFound w2 e
    simpa [and_comm] using hfails
  | some content =>
    simp only [Option.some.injEq, exists_eq_left', reduceCtorEq, false_and, or_false]
    refine hhead.andThen_breaksFirst (succeeds_guarded _) fun w1 hdid =>
      .quiet_bind (quiet_tell _) fun w2 hdid' e => ?_
    rw [← hdid.disk, ← hdid'.disk] at hfile
    rw [← breaksFirst_quiet hdid', get_bind_apply, hfile]
    exact failsIf_sendPackets _ _ _ w2 e

lemma failsIf_report (h : FailsIf p t w) : FailsIf p (report t) w :=
  h.bind fun _ => succeeds_tellReply _

lemma failsIf_report_of_succeeds (h : Succeeds t) (w : Wire) : FailsIf False (report t) w :=
  failsIf_report (.of_succeeds h w)

end Talk

namespace Message

/-- The task is one that the link knows, with numbers that can be sent. -/
def WellFormed : Message → Prop
  | openPort _ | reset | stop | openGripper | closeGripper | readState | cleanFlash => True
  | writeFlash .. | readFlash .. => True
  | movePose c | moveJoints c | setSpeed c => ∀ v ∈ c.toList, Talk.IsNumber v
  | track x y rotation id => (∀ v ∈ [x, y, rotation], Talk.IsNumber v) ∧ id.toInt?.isSome
  | _ => False

/-- The task passes a failure of the port on. Reading the state does so with every failure of its
exchange that is no timeout, and a write to the flash with such a failure of its end, which is sent
when the command and all packets are answered, or if a directory is to be written. -/
def Exposed (w : Wire) : Message → Prop
  | readState => w.Breaks 0
  | writeFlash _ path => (∃ content, w.disk.read? path = some content ∧
        (∀ i < (Talk.packetsOf content).length + 1, w.Answered i) ∧
        w.Breaks ((Talk.packetsOf content).length + 1)) ∨
      w.disk.read? path = none ∧ w.disk.isDir path = true ∧ w.Answered 0
  | _ => False

end Message

lemma Talk.failsIf_perform {m : Message} (hm : m.WellFormed) (w : Wire) :
    FailsIf (m.Exposed w) (perform m) w := by
  cases m with
  | openPort port => exact .of_succeeds (succeeds_openPort _ _ _) w
  | reset | stop => exact failsIf_report_of_succeeds (succeeds_tracked (succeeds_byteCommand _)) w
  | openGripper | closeGripper => exact failsIf_report_of_succeeds (succeeds_byteCommand _) w
  | movePose c | moveJoints c | setSpeed c =>
    exact failsIf_report_of_succeeds (succeeds_tracked (succeeds_numbersCommand _ hm)) w
  | readState =>
    refine (failsIf_readState w).bind fun s => ?_
    split <;> exact succeeds_tell _
  | writeFlash address path => exact failsIf_report (failsIf_writeFlash address path w)
  | readFlash address length path => exact failsIf_report_of_succeeds (succeeds_readFlash _ _ _) w
  | cleanFlash => exact failsIf_report_of_succeeds succeeds_cleanFlash w
  | track x y rotation id => exact failsIf_report_of_succeeds (succeeds_track hm.1 hm.2) w
  | _ => exact hm.elim

/-! ## Tasks by number and data -/

namespace Message

lemma numberOf_valueDocument (v : Value) : numberOf (valueDocument v) = .ok v := by
  cases v <;> rfl

lemma number_eq {fields name} {v : Value}
    (h : fields.lookup name = some (valueDocument v)) : number (.record fields) name = .ok v := by
  simp only [number, field, h]
  exact numberOf_valueDocument v

lemma ofTask_list (c : Coordinates) : ofTask.list (.list (c.toList.map valueDocument)) = .ok c := by
  simp [ofTask.list, Coordinates.toList, numberOf_valueDocument, coordinates, Coordinates.ofList]

lemma ofTask_kind_data {m : Message} (hm : m.WellFormed) : ofTask m.kind m.data = .ok m := by
  cases m with
  | movePose c | moveJoints c =>
    simp only [ofTask, kind, data, ofTask_list]
    rfl
  | setSpeed c =>
    have h1 : number (setSpeed c).data "m1_speed" = .ok c.first := number_eq rfl
    have h2 : number (setSpeed c).data "m2_speed" = .ok c.second := number_eq rfl
    have h3 : number (setSpeed c).data "m3_speed" = .ok c.third := number_eq rfl
    have h4 : number (setSpeed c).data "m4_speed" = .ok c.fourth := number_eq rfl
    have h5 : number (setSpeed c).data "s1_speed" = .ok c.fifth := number_eq rfl
    have h6 : number (setSpeed c).data "s2_speed" = .ok c.sixth := number_eq rfl
    simp only [ofTask, kind, speedNames, List.mapM_cons, List.mapM_nil, h1, h2, h3, h4, h5, h6]
    rfl
  | track x y rotation id =>
    have hx : number (track x y rotation id).data "x" = .ok x := number_eq rfl
    have hy : number (track x y rotation id).data "y" = .ok y := number_eq rfl
    have hrotation : number (track x y rotation id).data "rot" = .ok rotation := number_eq rfl
    have hid : number (track x y rotation id).data "qr_id" = .ok id := number_eq rfl
    simp only [ofTask, kind, hx, hy, hrotation, hid]
    rfl
  | openPort | reset | stop | openGripper | closeGripper | readState | cleanFlash | writeFlash
  | readFlash => rfl
  | _ => exact hm.elim

end Message

end ArmStudio.Link
