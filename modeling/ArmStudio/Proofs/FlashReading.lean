import ArmStudio.Proofs.FlashWriting
import ArmStudio.Proofs.Tables

/-!
# Reading the flash, and transfers that are done

A read saves full packets as they come, and ends with the first answer that is none. It is done if
that answer is the single byte done: how many bytes were asked for is not looked at again.
-/

namespace ArmStudio.Link

open Number Code List Reply Answer

/-- Bytes were added to a file, and no other file was touched. -/
structure Grew (path : String) (bytes : List UInt8) (d d' : Disk) : Prop where
  file : ∀ old, d.read? path = some old → d'.read? path = some (old ++ bytes)
  others : ∀ other ≠ path, d'.read? other = d.read? other
  dirs : d'.dirs = d.dirs

namespace Grew

variable {path : String} {xs ys : List UInt8} {d d1 d2 : Disk}

lemma refl (path : String) (d : Disk) : Grew path [] d d := ⟨by simp, fun _ _ => rfl, rfl⟩

lemma trans (h : Grew path xs d d1) (h' : Grew path ys d1 d2) : Grew path (xs ++ ys) d d2 where
  file old hold := by rw [h'.file _ (h.file old hold), append_assoc]
  others other hne := (h'.others other hne).trans (h.others other hne)
  dirs := h'.dirs.trans h.dirs

lemma write (path : String) (bytes : List UInt8) (d : Disk) :
    Grew path bytes d (d.write path ((d.read? path).getD [] ++ bytes)) where
  file old hold := by
    rw [hold]
    exact Table.find?_insert_self _ _ _
  others other hne := Table.find?_insert_of_ne _ _ (Ne.symm hne)
  dirs := rfl

end Grew

/-- Between two wires these reads and writes were made, and bytes were added to a file. -/
structure Saved (path : String) (bytes : List UInt8) (w w' : Wire)
    (events : List Event) : Prop where
  did : Did { w with disk := w'.disk } w' events
  grew : Grew path bytes w.disk w'.disk

lemma Did.saved {w w' : Wire} {events : List Event} (h : Did w w' events) (path : String) :
    Saved path [] w w' events :=
  ⟨⟨h.port, h.readings, h.writings, rfl⟩, h.disk ▸ .refl path w.disk⟩

namespace Saved

variable {path : String} {xs ys : List UInt8} {w w1 w2 : Wire} {events events' : List Event}

lemma trans (h : Saved path xs w w1 events) (h' : Saved path ys w1 w2 events') :
    Saved path (xs ++ ys) w w2 (events ++ events') := by
  have hdid : Did { w with disk := w2.disk } { w1 with disk := w2.disk } events :=
    ⟨h.did.port, h.did.readings, h.did.writings, rfl⟩
  exact ⟨hdid.trans h'.did, h.grew.trans h'.grew⟩

end Saved

/-! ## Packets that come -/

/-- The full packets before the first answer that is none. -/
def leadingPackets : List Answer → List (List UInt8)
  | .bytes b :: rest =>
    if packetSize ≤ b.length then b.take packetSize :: leadingPackets rest else []
  | _ => []

section Packets

variable {readings : List Answer} {b : List UInt8}

lemma leadingPackets_of_full (h : outcome readings[0]? = .ok b)
    (hfull : packetSize ≤ b.length) :
    leadingPackets readings = b.take packetSize :: leadingPackets (readings.drop 1) := by
  rcases readings with _ | ⟨_ | _ | _, rest⟩
  · cases h
    exact absurd hfull (by decide)
  · cases h
    rw [leadingPackets, if_pos hfull]
    rfl
  · cases h
  · cases h

lemma leadingPackets_of_short
    (hshort : ∀ b, outcome readings[0]? = .ok b → b.length < packetSize) :
    leadingPackets readings = [] := by
  rcases readings with _ | ⟨b | _ | _, rest⟩
  · rfl
  · have := hshort b rfl
    rw [leadingPackets, if_neg (by omega)]
  · rfl
  · rfl

lemma ne_nil_of_full (h : outcome readings[0]? = .ok b) (hfull : packetSize ≤ b.length) :
    readings ≠ [] := by
  rintro rfl
  cases h
  exact absurd hfull (by decide)

lemma length_of_mem_leadingPackets {packet} (h : packet ∈ leadingPackets readings) :
    packet.length = packetSize := by
  induction readings with
  | nil => cases h
  | cons a rest ih =>
    cases a with
    | bytes b =>
      rw [leadingPackets] at h
      split at h
      · next hfull =>
          rcases mem_cons.1 h with rfl | h
          · exact length_take_of_le hfull
          · exact ih h
      · cases h
    | timeout => cases h
    | failure => cases h

lemma length_flatten_leadingPackets (readings : List Answer) :
    (leadingPackets readings).flatten.length = packetSize * (leadingPackets readings).length := by
  rw [length_flatten, map_congr_left fun _ => length_of_mem_leadingPackets]
  simp [mul_comm]

/-- Behind its packets the arm gives an answer with a property, and all of them can be acknowledged
and counted. -/
structure Ends (P : List UInt8 → Prop) (size : Int) (readings writings : List Answer) : Prop where
  closed : ∃ b, outcome readings[(leadingPackets readings).length]? = .ok b ∧ P b
  acknowledged : ∀ i < (leadingPackets readings).length, ∃ b, outcome writings[i]? = .ok b
  counted : leadingPackets readings = [] ∨ ∃ s, Talk.divisor size = .ok s

/-- Behind its packets the arm answers done. -/
abbrev Completes : Int → List Answer → List Answer → Prop := Ends (· = [done])

lemma Ends.ends {P : List UInt8 → Prop} {size : Int} {writings : List Answer}
    (h : Ends P size readings writings) : Ends (fun _ => True) size readings writings :=
  ⟨h.closed.imp fun _ hb => ⟨hb.1, trivial⟩, h.acknowledged, h.counted⟩

variable (P : List UInt8 → Prop) (size : Int) (writings : List Answer)

lemma ends_iff_of_full (h : outcome readings[0]? = .ok b) (hfull : packetSize ≤ b.length) :
    Ends P size readings writings ↔ (∃ b, outcome writings[0]? = .ok b) ∧
      (∃ s, Talk.divisor size = .ok s) ∧ Ends P size (readings.drop 1) (writings.drop 1) := by
  have hpkts := leadingPackets_of_full h hfull
  constructor
  · rintro ⟨hclosed, hack, hcnt⟩
    rw [hpkts] at hclosed hack hcnt
    have hsize := hcnt.resolve_left (cons_ne_nil _ _)
    refine ⟨hack 0 (by simp), hsize, ?_, ?_, .inr hsize⟩
    · simpa [add_comm] using hclosed
    · intro i hi
      simpa [add_comm] using hack (i + 1) (by simpa using hi)
  · rintro ⟨hfirst, hsize, hclosed, hack, -⟩
    refine ⟨?_, ?_, .inr hsize⟩
    · simpa [hpkts, add_comm] using hclosed
    · intro i hi
      cases i with
      | zero => exact hfirst
      | succ i =>
        rw [hpkts, length_cons] at hi
        simpa [add_comm] using hack i (by omega)

lemma ends_iff_of_short
    (hshort : ∀ b, outcome readings[0]? = .ok b → b.length < packetSize) :
    Ends P size readings writings ↔ ∃ b, outcome readings[0]? = .ok b ∧ P b := by
  have hpkts := leadingPackets_of_short hshort
  constructor
  · intro h
    simpa [hpkts] using h.closed
  · intro h
    exact ⟨by simpa [hpkts] using h, by simp [hpkts], .inl hpkts⟩

lemma taken_and_completes_iff (readings writings : List Answer) :
    (∃ b, outcome writings[0]? = .ok b) ∧ Completes size readings (writings.drop 1) ↔
      (∀ i ≤ (leadingPackets readings).length, ∃ b, outcome writings[i]? = .ok b) ∧
        outcome readings[(leadingPackets readings).length]? = .ok [done] ∧
        (leadingPackets readings = [] ∨ ∃ s, Talk.divisor size = .ok s) := by
  constructor
  · rintro ⟨hfirst, ⟨b, hclosed, rfl⟩, hack, hcnt⟩
    refine ⟨fun i hi => ?_, hclosed, hcnt⟩
    cases i with
    | zero => exact hfirst
    | succ i => simpa [add_comm] using hack i (by omega)
  · rintro ⟨htaken, hclosed, hcnt⟩
    refine ⟨htaken 0 zero_le, ⟨_, hclosed, rfl⟩, fun i hi => ?_, hcnt⟩
    simpa [add_comm] using htaken (i + 1) hi

end Packets

namespace Talk

variable (packets : List (List UInt8))

/-- The reads and writes of a read: packets with their acknowledgements, and the end. -/
def receipts : List Event :=
  packets.flatMap (fun _ => [.asked packetSize, .wrote [done]]) ++ [.asked packetSize]

/-- The window that tells of a read. -/
def success : Event := .told (.infoWindow "读取Flash成功")

def successes (w : Wire) : Nat := w.trace.toList.count success

lemma preserves_emit {e : Event} (he : e ≠ success) : Preserves successes (emit e) :=
  fun w => by simp [successes, emit_apply, count_append, he]

lemma preserves_accept (a : Answer) : Preserves successes (accept a) := by
  cases a with
  | bytes b => exact .of_pure b
  | _ => exact .of_throw _

lemma preserves_watch (bytes : List UInt8) : Preserves successes (watch bytes) := by
  refine .get_bind fun w => ?_
  split
  · exact preserves_emit (by simp [success]) w
  · rfl

lemma preserves_send (bytes : List UInt8) : Preserves successes (send bytes) :=
  (preserves_emit (by simp [success])).bind fun _ =>
    Preserves.bind (fun w => by rw [nextWriting_apply]; rfl) fun a =>
      (preserves_accept a).bind fun _ => preserves_watch bytes

lemma preserves_receive (size : Nat) : Preserves successes (receive size) :=
  (preserves_emit (by simp [success])).bind fun _ =>
    Preserves.bind (fun w => by rw [nextReading_apply]; rfl) fun a =>
      (preserves_accept a).bind fun _ => (preserves_watch _).bind fun _ => .of_pure _

lemma preserves_keepPacket (path : String) (size : Int) (percent : Double) (packet : List UInt8) :
    Preserves successes (keepPacket path size percent packet) := by
  refine Preserves.bind (fun _ => rfl) fun _ => (preserves_send _).bind fun _ => ?_
  cases divisor size with
  | error e => exact .of_throw _
  | ok s => exact (preserves_emit (by simp [success])).bind fun _ => .of_pure _

/-- The part is done exactly if the read completes, and tells of it only then. Once the arm ends the
read it has saved all packets. -/
structure Receives (path : String) (size : Int) (t : Talk Reply) (w : Wire) : Prop where
  done_iff : (t w).1 = .ok done ↔ Completes size w.readings w.writings
  told : successes (t w).2 = successes w + if (t w).1 = .ok done then 1 else 0
  saved : Ends (fun _ => True) size w.readings w.writings →
    ((t w).1 = .ok done ∨ (t w).1 = .ok failed) ∧
      Saved path (leadingPackets w.readings).flatten w (t w).2
        (receipts (leadingPackets w.readings))

variable {path : String} {size : Int} {t : Talk Reply} {w : Wire}

lemma Receives.of_error {w' : Wire} {e} (hrun : t w = (.error e, w'))
    (htold : successes w' = successes w)
    (hno : ¬ Ends (fun _ => True) size w.readings w.writings) : Receives path size t w := by
  constructor
  · rw [hrun]
    exact ⟨nofun, fun h => absurd h.ends hno⟩
  · simp [hrun, htold]
  · exact fun h => absurd h hno

/-- A packet is kept if its acknowledgement is taken and the length can be divided by. -/
lemma keepPacket_apply (path : String) (size : Int) (percent : Double) (packet : List UInt8)
    (w : Wire) :
    (∃ next w', keepPacket path size percent packet w = (.ok next, w') ∧
        (∃ b, outcome w.writings[0]? = .ok b) ∧ (∃ s, divisor size = .ok s) ∧
        Saved path packet w w' [.wrote [done]]) ∨
      ∃ e w', keepPacket path size percent packet w = (.error e, w') ∧
        ¬ ((∃ b, outcome w.writings[0]? = .ok b) ∧ ∃ s, divisor size = .ok s) := by
  let w1 : Wire := { w with disk := w.disk.write path ((w.disk.read? path).getD [] ++ packet) }
  have hsave : Saved path packet w w1 [] :=
    ⟨⟨by simp [w1, Wire.port], rfl, rfl, rfl⟩, .write path packet w.disk⟩
  obtain ⟨hsend, hsent⟩ := did_send [done] w1
  have hrun : save path packet w = (.ok (), w1) := rfl
  rw [keepPacket, bind_of_ok hrun]
  cases hwrite : outcome w.writings[0]? with
  | error e =>
    have hfails : (send [done] w1).1 = .error e := by rw [hsend, hwrite]; rfl
    exact .inr ⟨_, _, bind_error hfails, by simp⟩
  | ok b =>
    have htaken : (send [done] w1).1 = .ok () := by rw [hsend, hwrite]; rfl
    rw [bind_ok htaken]
    cases hsize : divisor size with
    | error e => exact .inr ⟨_, _, rfl, by simp⟩
    | ok s =>
      obtain ⟨hok, htold⟩ := quiet_tell (.progress (percentValue percent packetSize s))
        (send [done] w1).2
      refine .inl ⟨_, _, bind_ok hok, ⟨b, rfl⟩, ⟨s, rfl⟩, ?_⟩
      have hkept := hsave.trans ((hsent.trans htold).saved path)
      rwa [append_nil] at hkept

lemma tell_apply (m : Message) (w : Wire) :
    tell m w = (.ok (), { w with trace := w.trace.push (.told m) }) := rfl

lemma quiet_tellRead : Quiet tellRead := (quiet_tell _).bind (quiet_tell _)

lemma receives_of_short {fuel : Nat} {percent : Double}
    (hshort : ∀ b, outcome w.readings[0]? = .ok b → b.length < packetSize) :
    Receives path size (receivePackets path size (fuel + 1) percent) w := by
  obtain ⟨hrecv, hdid⟩ := did_receive packetSize w
  have hkept := preserves_receive packetSize w
  have hpkts := leadingPackets_of_short hshort
  have hends := fun P => ends_iff_of_short P size w.writings hshort
  cases hread : outcome w.readings[0]? with
  | error e =>
    rw [hread] at hrecv
    exact .of_error (bind_error hrecv) hkept (by simp [hends, hread])
  | ok b =>
    have hlt := hshort b hread
    have hwhole : (receive packetSize w).1 = .ok b := by
      rw [hrecv, hread]
      exact congrArg Except.ok (take_of_length_le hlt.le)
    have hcompletes : Completes size w.readings w.writings ↔ b = [done] := by
      simp [hends, hread]
    by_cases hdone : b = [done]
    · obtain ⟨hok, htold⟩ := quiet_tellRead (receive packetSize w).2
      have hrun : receivePackets path size (fuel + 1) percent w =
          (.ok done, (tellRead (receive packetSize w).2).2) := by
        rw [receivePackets, bind_ok hwhole, if_neg (ne_of_lt hlt),
          if_pos hdone, bind_ok hok]
        rfl
      have htells : successes (tellRead (receive packetSize w).2).2 =
          successes (receive packetSize w).2 + 1 := by
        rw [tellRead, progress, bind_of_ok (tell_apply _ _), tell_apply]
        simp [successes, success, count_append]
      refine ⟨by simp [hrun, hcompletes, hdone], by simp [hrun, htells, hkept], fun _ => ?_⟩
      rw [hrun, hpkts]
      exact ⟨.inl rfl, (hdid.trans htold).saved path⟩
    · have hrun : receivePackets path size (fuel + 1) percent w =
          (.ok failed, (receive packetSize w).2) := by
        rw [receivePackets, bind_ok hwhole, if_neg (ne_of_lt hlt),
          if_neg hdone]
        rfl
      have hne : failed ≠ done := by decide
      refine ⟨by simp [hrun, hcompletes, hdone, hne], by simp [hrun, hkept, hne], fun _ => ?_⟩
      rw [hrun, hpkts]
      exact ⟨.inr rfl, hdid.saved path⟩

/-- One packet after the other, as long as there are answers left: what is read beyond the last one
is empty and ends the read. -/
theorem receives_receivePackets (path : String) (size : Int) (fuel : Nat) (percent : Double)
    (w : Wire) (hfuel : w.readings.length < fuel) :
    Receives path size (receivePackets path size fuel percent) w := by
  induction fuel generalizing percent w with
  | zero => omega
  | succ fuel ih =>
    by_cases hshort : ∀ b, outcome w.readings[0]? = .ok b → b.length < packetSize
    · exact receives_of_short hshort
    · simp only [not_forall, not_lt] at hshort
      obtain ⟨b, hread, hfull⟩ := hshort
      obtain ⟨hrecv, hdid⟩ := did_receive packetSize w
      rw [hread] at hrecv
      have hstep : receivePackets path size (fuel + 1) percent w = (do
            let next ← keepPacket path size percent (b.take packetSize)
            receivePackets path size fuel next) (receive packetSize w).2 := by
        rw [receivePackets, bind_ok hrecv, if_pos (length_take_of_le hfull)]
      have hsame : (receive packetSize w).2.writings = w.writings := hdid.writings
      have hpkts := leadingPackets_of_full hread hfull
      have hends := fun P => ends_iff_of_full P size w.writings hread hfull
      have hkept := (preserves_keepPacket path size percent (b.take packetSize) _).trans
        (preserves_receive packetSize w)
      obtain ⟨next, w2, hkeep, htaken, hsize, hsaved⟩ | ⟨e, w2, hkeep, hno⟩ :=
        keepPacket_apply path size percent (b.take packetSize) (receive packetSize w).2
      · rw [bind_of_ok hkeep] at hstep
        rw [hkeep] at hkept
        have hreadings : w2.readings = w.readings.drop 1 := hsaved.did.readings.trans hdid.readings
        have hwritings : w2.writings = w.writings.drop 1 := by
          rw [hsaved.did.writings]
          exact congrArg (drop 1) hsame
        have hpos := length_pos_iff.2 (ne_nil_of_full hread hfull)
        have hrest := ih next w2 (by rw [hreadings, length_drop]; omega)
        have hboth (P : List UInt8 → Prop) : Ends P size w.readings w.writings ↔
            Ends P size w2.readings w2.writings := by
          rw [hends, hreadings, hwritings]
          exact ⟨fun h => h.2.2, fun h => ⟨hsame ▸ htaken, hsize, h⟩⟩
        constructor
        · rw [hstep, hrest.done_iff]
          exact (hboth _).symm
        · rw [hstep, hrest.told, hkept]
        · intro h
          obtain ⟨hres, hsavedRest⟩ := hrest.saved ((hboth _).1 h)
          rw [hstep, hpkts, ← hreadings]
          exact ⟨hres, (hdid.saved path).trans (hsaved.trans hsavedRest)⟩
      · rw [bind_of_error hkeep] at hstep
        rw [hkeep] at hkept
        refine .of_error hstep hkept fun h => hno ?_
        obtain ⟨htaken, hsize, -⟩ := (hends _).1 h
        exact ⟨hsame ▸ htaken, hsize⟩

/-! ## Transfers that are done -/

lemma guarded_done (t : Talk Reply) (w : Wire) : (guarded t w).2 = (t w).2 ∧
    ((guarded t w).1 = .ok done ↔ (t w).1 = .ok done) := by
  cases hres : (t w).1 with
  | ok r =>
    rw [guarded, tryCatch_ok hres]
    simp
  | error e =>
    rw [guarded, tryCatch_error hres]
    exact ⟨rfl, fun h => absurd h (refuses_replyOf e w).1, nofun⟩

def cannotOpen : Event := .told (.errorWindow "文件无法打开")

lemma writeFlash_of_none (address : Int) (hfile : w.disk.read? path = none)
    (hyes : w.Answered 0) : ∃ w1, writeFlash address path w =
      (if w.disk.isDir path then throw .failure else notFound) w1 := by
  have hhead := exchanges_guarded quiet_return (writeCommand address) w
  have hdid := hhead.did.resolve_right fun hno => hno.1 hyes
  rw [← hdid.disk] at hfile ⊢
  rw [writeFlash, exchange, hhead.andThen_of_answered hyes, progress, bind_of_ok (tell_apply _ _),
    get_bind_apply]
  simp only [hfile]
  exact ⟨_, rfl⟩

lemma trace_writeFlash_of_none {address : Int} (hfile : w.disk.read? path = none)
    (hdir : w.disk.isDir path = false) (hyes : w.Answered 0) :
    (writeFlash address path w).2.trace.back? = some cannotOpen := by
  obtain ⟨w1, hrun⟩ := writeFlash_of_none address hfile hyes
  rw [hrun, hdir, if_neg Bool.false_ne_true, notFound, bind_of_ok (tell_apply _ _)]
  simp [cannotOpen]

lemma writeFlash_of_isDir {address : Int} (hfile : w.disk.read? path = none)
    (hdir : w.disk.isDir path = true) : (writeFlash address path w).1 ≠ .ok done := by
  by_cases hyes : w.Answered 0
  · obtain ⟨w1, hrun⟩ := writeFlash_of_none address hfile hyes
    rw [hrun, if_pos hdir]
    exact nofun
  · have hhead := exchanges_guarded quiet_return (writeCommand address) w
    rw [writeFlash, exchange, hhead.andThen_of_not hyes]
    exact mt hhead.done_iff.1 hyes

lemma fetch_receives {b} (address size : Int) (path : String)
    (hwrite : outcome w.writings[0]? = .ok b) :
    ((fetch address size path w).1 = .ok done ↔
        Completes size w.readings (w.writings.drop 1)) ∧
      successes (fetch address size path w).2 =
        successes w + (if (fetch address size path w).1 = .ok done then 1 else 0) ∧
      (Ends (fun _ => True) size w.readings (w.writings.drop 1) →
        ((fetch address size path w).1 = .ok done ∨
          (fetch address size path w).1 = .ok failed) ∧
        Saved path (leadingPackets w.readings).flatten w (fetch address size path w).2
          (.wrote (readCommand address size) :: receipts (leadingPackets w.readings))) := by
  obtain ⟨hsend, hdid⟩ := did_send (readCommand address size) w
  have hreadings : (send (readCommand address size) w).2.readings = w.readings := hdid.readings
  have hwritings : (send (readCommand address size) w).2.writings = w.writings.drop 1 :=
    hdid.writings
  rw [hwrite] at hsend
  rw [fetch, bind_ok hsend, get_bind_apply, hreadings]
  obtain ⟨hdone, htold, hsaved⟩ := receives_receivePackets path size (w.readings.length + 1) .zero
    (send (readCommand address size) w).2 (by rw [hreadings]; exact Nat.lt_succ_self _)
  rw [preserves_send] at htold
  rw [hreadings, hwritings] at hdone hsaved
  exact ⟨hdone, htold, fun h => ⟨(hsaved h).1, (hdid.saved path).trans (hsaved h).2⟩⟩

lemma fetch_done (address size : Int) (path : String) (w : Wire) :
    ((fetch address size path w).1 = .ok done ↔ (∃ b, outcome w.writings[0]? = .ok b) ∧
          Completes size w.readings (w.writings.drop 1)) ∧
      ((fetch address size path w).1 = .ok done →
        Saved path (leadingPackets w.readings).flatten w (fetch address size path w).2
          (.wrote (readCommand address size) :: receipts (leadingPackets w.readings))) := by
  cases hwrite : outcome w.writings[0]? with
  | error e =>
    obtain ⟨hsend, -⟩ := did_send (readCommand address size) w
    rw [hwrite] at hsend
    rw [fetch, bind_error hsend]
    simp
  | ok b =>
    obtain ⟨hdone, -, hsaved⟩ := fetch_receives address size path hwrite
    exact ⟨by simpa using hdone, fun h => (hsaved (hdone.1 h).ends).2⟩

/-- The wire on which a read starts: the panel is told, and the file is empty. -/
def started (path : String) (w : Wire) : Wire :=
  { w with trace := w.trace.push (.told (.progress (.int 0))), disk := w.disk.write path [] }

lemma readFlash_apply_of_canWrite (h : w.disk.canWrite path) (address size : Int) :
    readFlash address size path w = guarded (fetch address size path) (started path w) := by
  rw [readFlash, progress, bind_of_ok (tell_apply _ _), get_bind_apply]
  simp only [h, if_true]
  rfl

lemma Saved.of_started {bytes} {w' : Wire} {events}
    (h : Saved path bytes (started path w) w' events) : w'.port = w.port ++ events ∧
      w'.disk.read? path = some bytes ∧
        ∀ other ≠ path, w'.disk.read? other = w.disk.read? other := by
  refine ⟨?_, h.grew.file [] (Table.find?_insert_self _ _ _), fun other hne => ?_⟩
  · rw [h.did.port]
    simp [started, Wire.port, Event.isAtPort]
  · rw [h.grew.others other hne]
    exact Table.find?_insert_of_ne _ _ hne.symm

lemma writeFlash_eq_done_iff (address : Int) (path : String) (w : Wire) :
    let written := (writeFlash address path w).2
    (writeFlash address path w).1 = .ok done ↔ w.disk.read? path = none ∧
          w.disk.isDir path = false ∧ w.Answered 0 ∧
          Did w written (exchanges [writeCommand address]) ∧
          written.trace.back? = some cannotOpen ∨
        ∃ content, w.disk.read? path = some content ∧
          (∀ i < (packetsOf content).length + 2, w.Answered i) ∧
          Did w written
            (exchanges (writeCommand address :: (packetsOf content ++ [[endByte]]))) := by
  intro written
  by_cases hdir : w.disk.read? path = none ∧ w.disk.isDir path = true
  · refine iff_of_false (writeFlash_of_isDir hdir.1 hdir.2) ?_
    simp [hdir.1, hdir.2]
  have hpath : w.disk.read? path = none → w.disk.isDir path = false := by simpa using hdir
  have htransfers := transfers_writeFlash address path w hpath
  constructor
  · intro hdone
    have hall := htransfers.done_iff.1 hdone
    have hdid := htransfers.delivery.did hall
    cases hfile : w.disk.read? path with
    | none =>
      rw [hfile] at hall hdid
      have hfirst := hall 0 Nat.one_pos
      have hmissing := hpath hfile
      exact .inl ⟨rfl, hmissing, hfirst, hdid, trace_writeFlash_of_none hfile hmissing hfirst⟩
    | some content =>
      rw [hfile] at hall hdid
      refine .inr ⟨content, rfl, fun i hi => hall i ?_, hdid⟩
      rwa [length_writeFrames_some]
  · rintro (⟨hfile, -, hfirst, -⟩ | ⟨content, hfile, hall, -⟩)
    · rw [hfile] at htransfers
      refine htransfers.done_iff.2 fun i hi => ?_
      obtain rfl : i = 0 := by simpa [writeFrames] using hi
      exact hfirst
    · rw [hfile] at htransfers
      refine htransfers.done_iff.2 fun i hi => hall i ?_
      rwa [length_writeFrames_some] at hi

lemma readFlash_eq_done_iff (address size : Int) (path : String) (w : Wire) :
    let read := (readFlash address size path w).2
    (readFlash address size path w).1 = .ok done ↔
      w.disk.canWrite path = false ∧ w.disk.isDir path = false ∧ Did w read [] ∧
          read.trace.back? = some cannotOpen ∨
        w.disk.canWrite path = true ∧ ((∃ b, outcome w.writings[0]? = .ok b) ∧
            Completes size w.readings (w.writings.drop 1)) ∧
          read.port = w.port ++ .wrote (readCommand address size) ::
            receipts (leadingPackets w.readings) ∧
          read.disk.read? path = some (leadingPackets w.readings).flatten ∧
          ∀ other ≠ path, read.disk.read? other = w.disk.read? other := by
  intro read
  cases hpath : w.disk.canWrite path with
  | false =>
    cases hdir : w.disk.isDir path with
    | true =>
      rw [readFlash, progress, bind_of_ok (tell_apply _ _), get_bind_apply]
      simp only [hpath, hdir]
      simp [done, failed]
    | false =>
      have hrun : readFlash address size path w = (.ok done,
          { w with trace := (w.trace.push (.told (.progress (.int 0)))).push cannotOpen }) := by
        rw [readFlash, progress, bind_of_ok (tell_apply _ _), get_bind_apply]
        simp only [hpath, hdir]
        rfl
      have hdid : Did w read [] := by
        simp only [read, hrun]
        exact ⟨by simp [Wire.port, Event.isAtPort, cannotOpen], rfl, rfl, rfl⟩
      have htold : read.trace.back? = some cannotOpen := by simp [read, hrun]
      simp [hrun, hdid, htold]
  | true =>
    have hrun := readFlash_apply_of_canWrite hpath address size
    obtain ⟨hdone, hsaved⟩ := fetch_done address size path (started path w)
    constructor
    · intro h
      rw [hrun, (guarded_done _ _).2] at h
      have hfetched := hsaved h
      rw [← (guarded_done _ _).1, ← hrun] at hfetched
      exact .inr ⟨rfl, hdone.1 h, Saved.of_started hfetched⟩
    · rintro (⟨hno, -⟩ | ⟨-, hcompletes, -⟩)
      · cases hno
      · rw [hrun, (guarded_done _ _).2]
        exact hdone.2 hcompletes

/-- When a transfer is done, and what it did then. A write without a file, and a read whose file
cannot be created, are done as well, unless a directory is there: the panel is told instead. A read
saves what the arm sends, which need not be as long as it was asked for. -/
theorem flash_done_iff (address size : Int) (path : String) (w : Wire) :
    let written := (writeFlash address path w).2
    let read := (readFlash address size path w).2
    let packets := leadingPackets w.readings
    ((writeFlash address path w).1 = .ok done ↔ w.disk.read? path = none ∧
            w.disk.isDir path = false ∧ w.Answered 0 ∧
            Did w written (exchanges [writeCommand address]) ∧
            written.trace.back? = some cannotOpen ∨
          ∃ content, w.disk.read? path = some content ∧
            (∃ k < 64, (packetsOf content).flatten = content ++ replicate k 0xff) ∧
            (∀ i < (packetsOf content).length + 2, w.Answered i) ∧
            Did w written (exchanges (writeCommand address :: (packetsOf content ++ [[0x73]])))) ∧
      ((readFlash address size path w).1 = .ok done ↔
        w.disk.canWrite path = false ∧ w.disk.isDir path = false ∧ Did w read [] ∧
            read.trace.back? = some cannotOpen ∨
          w.disk.canWrite path = true ∧
            (∀ i ≤ packets.length, ∃ b, outcome w.writings[i]? = .ok b) ∧
            outcome w.readings[packets.length]? = .ok [0xaa] ∧
            (packets = [] ∨ ∃ s, divisor size = .ok s) ∧
            read.port = w.port ++ .wrote (readCommand address size) :: receipts packets ∧
            read.disk.read? path = some packets.flatten ∧
            packets.flatten.length = 64 * packets.length ∧
            ∀ other ≠ path, read.disk.read? other = w.disk.read? other) := by
  intro written read packets
  constructor
  · refine (writeFlash_eq_done_iff address path w).trans ?_
    have hwhole (content : List UInt8) : ∃ k < 64,
        (packetsOf content).flatten = content ++ replicate k 0xff := flatten_packetsOf content
    simp only [hwhole, true_and]
    rfl
  · refine (readFlash_eq_done_iff address size path w).trans ?_
    have hlen : packets.flatten.length = 64 * packets.length :=
      length_flatten_leadingPackets w.readings
    rw [taken_and_completes_iff]
    simp only [hlen, true_and, and_assoc]
    rfl

/-- A port without files whose arm answers everything with done. -/
def hasty : Wire where
  readings := [.bytes [done]]
  writings := []
  ports := []
  isOpen := true
  monitor := false
  disk := ⟨⟨[]⟩, [""]⟩
  trace := #[]

/-- A write that is done without an end, and a read that is done without any of the 1024 bytes that
were asked for. -/
theorem flash_done_short :
    ((writeFlash 0 "f" hasty).1 = .ok done ∧ [0x73] ∉ (writeFlash 0 "f" hasty).2.sent) ∧
      (readFlash 0 1024 "f" hasty).1 = .ok done ∧
        (readFlash 0 1024 "f" hasty).2.disk.read? "f" = some [] := by
  decide +kernel

/-! ## Reads without failures of the port -/

lemma outcome_of_bytes {answers : List Answer} (h : ∀ a ∈ answers, ∃ b, a = .bytes b) (i : Nat) :
    ∃ b, outcome answers[i]? = .ok b := by
  cases ha : answers[i]? with
  | none => exact ⟨[], rfl⟩
  | some a =>
    obtain ⟨b, rfl⟩ := h a (mem_of_getElem? ha)
    exact ⟨b, rfl⟩

lemma sent_receipts :
    (receipts packets).filterMap Event.bytes? = replicate packets.length [done] := by
  induction packets with
  | nil => rfl
  | cons packet rest ih => exact congrArg (cons [done]) ih

/-- Without failures of the port, a read sends its command and acknowledges each of the full packets
that the arm sends first. The file holds these packets. The read is done, and tells so, exactly if
the answer behind them is done. -/
theorem readFlash_collects (address size : Int) (hpath : w.disk.canWrite path = true)
    (hreadings : ∀ a ∈ w.readings, ∃ b, a = .bytes b)
    (hwritings : ∀ a ∈ w.writings, ∃ b, a = .bytes b)
    (hsize : leadingPackets w.readings = [] ∨ ∃ s, divisor size = .ok s) :
    let packets := leadingPackets w.readings
    let closed := outcome w.readings[packets.length]? = .ok [0xaa]
    let read := (readFlash address size path w).2
    (readCommand address size).length = 9 ∧
      read.sent = w.sent ++ readCommand address size :: replicate packets.length [0xaa] ∧
      read.disk.read? path = some packets.flatten ∧
      (closed ∧ (readFlash address size path w).1 = .ok 0xaa ∧ successes read = successes w + 1 ∨
        ¬ closed ∧ (readFlash address size path w).1 = .ok 0xb0 ∧
          successes read = successes w) := by
  intro packets closed read
  obtain ⟨b, hwrite⟩ := outcome_of_bytes hwritings 0
  have hends : Ends (fun _ => True) size w.readings (w.writings.drop 1) := by
    refine ⟨?_, fun i _ => ?_, hsize⟩
    · obtain ⟨b, hb⟩ := outcome_of_bytes hreadings (leadingPackets w.readings).length
      exact ⟨b, hb, trivial⟩
    · rw [getElem?_drop]
      exact outcome_of_bytes hwritings (1 + i)
  have hclosed : closed ↔ Completes size w.readings (w.writings.drop 1) := by
    refine ⟨fun h => ⟨⟨_, h, rfl⟩, hends.acknowledged, hends.counted⟩, ?_⟩
    rintro ⟨⟨b, hb, rfl⟩, -, -⟩
    exact hb
  obtain ⟨hdone, htold, hsaved⟩ : _ ∧ _ ∧ (Ends _ size w.readings (w.writings.drop 1) → _) :=
    fetch_receives (w := started path w) address size path hwrite
  obtain ⟨hres, hsaved⟩ := hsaved hends
  obtain ⟨hport, hfile, -⟩ := Saved.of_started hsaved
  have hrun : readFlash address size path w = fetch address size path (started path w) := by
    rw [readFlash_apply_of_canWrite hpath, guarded]
    rcases hres with h | h <;> exact (tryCatch_ok h).trans (Prod.ext h.symm rfl)
  have hquiet : successes (started path w) = successes w := preserves_emit (by simp [success]) w
  rw [hquiet] at htold
  have hdone : _ ↔ Completes size w.readings (w.writings.drop 1) := hdone
  simp only [read, hrun]
  refine ⟨by simp [readCommand, intBytes], ?_, hfile, ?_⟩
  · rw [Wire.sent_eq_port, hport, filterMap_append, ← Wire.sent_eq_port]
    exact congrArg (fun sent => w.sent ++ readCommand address size :: sent) (sent_receipts _)
  · by_cases hyes : closed
    · have hok := hdone.2 (hclosed.1 hyes)
      exact .inl ⟨hyes, hok, by rw [htold, if_pos hok]⟩
    · have hnot := mt (fun h => hclosed.2 (hdone.1 h)) hyes
      exact .inr ⟨hyes, hres.resolve_left hnot, by rw [htold, if_neg hnot]; rfl⟩

/-- A port whose arm sends one packet and then done. -/
def onePacket : Wire := { hasty with readings := [.bytes (replicate 64 0), .bytes [0xaa]] }

theorem readFlash_collects_onePacket : (readFlash 0 100 "f" onePacket).1 = .ok 0xaa ∧
      (readFlash 0 100 "f" onePacket).2.sent = [readCommand 0 100, [0xaa]] ∧
      (readFlash 0 100 "f" onePacket).2.disk.read? "f" = some (replicate 64 0) := by
  have hpath : onePacket.disk.canWrite "f" = true := by decide +kernel
  obtain ⟨-, hsent, hfile, ⟨-, hres, -⟩ | ⟨hopen, -⟩⟩ := readFlash_collects 0 100 hpath
    (by simp [onePacket]) (by simp [onePacket, hasty]) (.inr ⟨Double.ofNat 100, by decide +kernel⟩)
  · exact ⟨hres, hsent, hfile⟩
  · exact absurd rfl hopen

/-- The length that was asked for is too large for a floating-point number: the packet is saved and
acknowledged, and the read fails though the arm ends it. -/
theorem readFlash_huge : (readFlash 0 (Nat.pow 10 309 : Nat) "f" onePacket).1 = .ok 0xb0 ∧
      successes (readFlash 0 (Nat.pow 10 309 : Nat) "f" onePacket).2 = 0 := by
  decide +kernel

end Talk

end ArmStudio.Link
