import ArmStudio.Proofs.Conversations

/-!
# Writing to the flash

A write is a list of frames: the command with its address, the packets of the file, the end. Each
frame is sent as soon as the one before it is answered with done.
-/

namespace ArmStudio.Link.Talk

open Number Code List Reply

section Pieces

variable {n : Nat}

@[simp] lemma pieces_nil (hn : 0 < n) : pieces n [] = [] := by
  have hcount : (([] : List UInt8).length + n - 1) / n = 0 :=
    Nat.div_eq_of_lt (by rw [length_nil]; omega)
  rw [pieces, hcount]
  rfl

lemma pieces_of_ne_nil (hn : 0 < n) {bytes} (hbytes : bytes ≠ []) :
    pieces n bytes = bytes.take n :: pieces n (bytes.drop n) := by
  have hlen : 0 < bytes.length := length_pos_iff.2 hbytes
  have hcount : (bytes.length + n - 1) / n = ((bytes.drop n).length + n - 1) / n + 1 := by
    rw [length_drop]
    by_cases hlong : n ≤ bytes.length
    · rw [← Nat.add_div_right _ hn]
      congr 1
      omega
    · have hzero : (bytes.length - n + n - 1) / n = 0 := Nat.div_eq_of_lt (by omega)
      rw [hzero, Nat.div_eq_of_lt_le] <;> omega
  rw [pieces, hcount, range_succ_eq_map, map_cons, map_map, pieces]
  simp [Function.comp_def, Nat.mul_add, add_comm]

lemma pieces_induction (hn : 0 < n) {motive : List UInt8 → Prop} (nil : motive [])
    (step : ∀ bytes, bytes ≠ [] → motive (bytes.drop n) → motive bytes) (bytes : List UInt8) :
    motive bytes := by
  induction hlen : bytes.length using Nat.strongRecOn generalizing bytes with
  | _ length ih =>
    by_cases hbytes : bytes = []
    · exact hbytes ▸ nil
    · have hpos := length_pos_iff.2 hbytes
      exact step bytes hbytes (ih _ (by rw [length_drop]; omega) _ rfl)

lemma length_le_of_mem_pieces {bytes piece} (h : piece ∈ pieces n bytes) : piece.length ≤ n := by
  obtain ⟨i, -, rfl⟩ := mem_map.1 h
  exact length_take_le _ _

lemma pieces_take_append_drop (hn : 0 < n) (m : Nat) (bytes : List UInt8) :
    pieces n (bytes.take (n * m)) ++ pieces n (bytes.drop (n * m)) = pieces n bytes := by
  induction m generalizing bytes with
  | zero => simp [hn]
  | succ m ih =>
    by_cases hbytes : bytes = []
    · simp [hbytes, hn]
    · have htake : bytes.take (n * (m + 1)) ≠ [] := by
        have hpos : 0 < n * (m + 1) := Nat.mul_pos hn m.succ_pos
        simp [hbytes, take_eq_nil_iff]
        omega
      have hle : min n (n * (m + 1)) = n := min_eq_left (Nat.le_mul_of_pos_right n m.succ_pos)
      have hrest : n * (m + 1) - n = n * m := by rw [Nat.mul_succ, Nat.add_sub_cancel]
      have hdrop : bytes.drop (n * (m + 1)) = (bytes.drop n).drop (n * m) := by
        rw [drop_drop, Nat.mul_succ, add_comm]
      rw [pieces_of_ne_nil hn htake, pieces_of_ne_nil hn hbytes, take_take, hle,
        drop_take, hrest, hdrop, cons_append, ih]

lemma flatMap_pieces (hn : 0 < n) {m : Nat} (hm : 0 < m) (bytes : List UInt8) :
    (pieces (n * m) bytes).flatMap (pieces n) = pieces n bytes := by
  have hpos : 0 < n * m := Nat.mul_pos hn hm
  induction bytes using pieces_induction hpos with
  | nil => simp [hn, hpos]
  | step bytes hbytes ih =>
    rw [pieces_of_ne_nil hpos hbytes, flatMap_cons, ih, pieces_take_append_drop hn]

end Pieces

variable (content : List UInt8)

lemma packetsOf_eq_pieces : packetsOf content = (pieces packetSize content).map padded :=
  congrArg (List.map padded) (flatMap_pieces (n := 64) (m := 64) (by decide) (by decide) content)

variable {packet frame : List UInt8} {frames : List (List UInt8)} {t next : Talk Reply} {w : Wire}

lemma length_padded (h : packet.length ≤ packetSize) : (padded packet).length = packetSize := by
  rw [padded, length_append, length_replicate]
  omega

lemma length_of_mem_packetsOf {content} (h : packet ∈ packetsOf content) :
    packet.length = packetSize := by
  rw [packetsOf_eq_pieces] at h
  obtain ⟨piece, hpiece, rfl⟩ := mem_map.1 h
  exact length_padded (length_le_of_mem_pieces hpiece)

lemma flatten_packetsOf :
    ∃ k < packetSize, (packetsOf content).flatten = content ++ List.replicate k 0xff := by
  have hsize : 0 < packetSize := by decide
  rw [packetsOf_eq_pieces]
  induction content using pieces_induction hsize with
  | nil => exact ⟨0, hsize, by simp [hsize]⟩
  | step content hcontent ih =>
    have hpos := length_pos_iff.2 hcontent
    rw [pieces_of_ne_nil hsize hcontent, map_cons, flatten_cons]
    by_cases hlong : packetSize ≤ content.length
    · obtain ⟨k, hk, hflatten⟩ := ih
      have hfull : padded (content.take packetSize) = content.take packetSize := by
        simp [padded, min_eq_left hlong]
      exact ⟨k, hk, by rw [hfull, hflatten, ← append_assoc, take_append_drop]⟩
    · have hle : content.length ≤ packetSize := by omega
      refine ⟨packetSize - content.length, by omega, ?_⟩
      rw [take_of_length_le hle, drop_of_length_le hle, pieces_nil hsize, padded]
      simp

/-! ## Transfers -/

/-- The reads and writes of frames that are sent and answered one by one. -/
def exchanges (frames : List (List UInt8)) : List Event :=
  frames.flatMap fun frame => [.wrote frame, .asked 1]

/-- Frames are sent, each behind an answer to the one before, up to the first without one. -/
inductive Delivery : Wire → List (List UInt8) → Wire → Prop where
  | nil {w w' : Wire} : Did w w' [] → Delivery w [] w'
  | answered {w w1 w' : Wire} {frame : List UInt8} {rest : List (List UInt8)} : w.Answered 0 →
      Did w w1 [.wrote frame, .asked 1] → Delivery w1 rest w' → Delivery w (frame :: rest) w'
  | stopped {w w' : Wire} {frame : List UInt8} {rest : List (List UInt8)} : ¬ w.Answered 0 →
      Did w w' [.wrote frame, .asked 1] ∨ Did w w' [.wrote frame] → Delivery w (frame :: rest) w'

namespace Delivery

variable {w w' : Wire} {frames : List (List UInt8)}

lemma of_quiet {w0 : Wire} (hdid : Did w0 w []) (h : Delivery w frames w') :
    Delivery w0 frames w' := by
  have hanswered : w.Answered 0 ↔ w0.Answered 0 := hdid.answered_iff rfl rfl 0
  cases h with
  | nil hdid' => exact .nil (hdid.trans hdid')
  | answered hyes hdid' hrest => exact .answered (hanswered.1 hyes) (hdid.trans hdid') hrest
  | stopped hno hdid' => exact .stopped (hanswered.not.1 hno) (hdid'.imp hdid.trans hdid.trans)

lemma did (h : Delivery w frames w') (hall : ∀ i < frames.length, w.Answered i) :
    Did w w' (exchanges frames) := by
  induction h with
  | nil hdid => exact hdid
  | @answered w w1 w' frame rest _ hdid _ ih =>
    refine hdid.trans (ih fun i hi => ?_)
    rw [hdid.answered_iff rfl rfl]
    exact hall (1 + i) (by rw [length_cons]; omega)
  | stopped hno _ => exact absurd (hall 0 (by simp)) hno

lemma sent (h : Delivery w frames w') :
    ∃ n, (∀ i, i < n ↔ i < frames.length ∧ ∀ j < i, w.Answered j) ∧
      w'.sent = w.sent ++ frames.take n ∧ w'.port <+: w.port ++ exchanges (frames.take n) := by
  induction h with
  | nil hdid => exact ⟨0, by simp, by simpa using hdid.sent, by simp [exchanges, hdid.port]⟩
  | @answered w w1 w' frame rest hyes hdid _ ih =>
    obtain ⟨n, hn, hsent, hport⟩ := ih
    have hnext (j : Nat) : w1.Answered j ↔ w.Answered (1 + j) := hdid.answered_iff rfl rfl j
    refine ⟨n + 1, ?_, ?_, ?_⟩
    · intro i
      cases i with
      | zero => simp
      | succ i =>
        rw [Nat.add_lt_add_iff_right, hn, length_cons, Nat.add_lt_add_iff_right]
        simp only [hnext, Nat.lt_add_one_iff, and_congr_right_iff]
        intro _
        constructor
        · intro hall j hj
          cases j with
          | zero => exact hyes
          | succ j => exact add_comm 1 j ▸ hall j (by omega)
        · intro hall j hj
          exact hall (1 + j) (by omega)
    · rw [hsent, hdid.sent, append_assoc]
      rfl
    · rw [hdid.port] at hport
      simpa [exchanges] using hport
  | @stopped w w' frame rest hno hdid =>
    refine ⟨1, ?_, ?_, ?_⟩
    · intro i
      constructor
      · intro hi
        obtain rfl : i = 0 := by omega
        simp
      · rintro ⟨-, hall⟩
        by_contra hi
        exact hno (hall 0 (by omega))
    · rcases hdid with hdid | hdid
      · exact hdid.sent
      · exact hdid.sent
    · rcases hdid with hdid | hdid
      · simp [exchanges, hdid.port]
      · simp [exchanges, hdid.port]

end Delivery

/-- The part delivers frames, and is done exactly if all of them are answered. -/
structure Transfers (frames : List (List UInt8)) (t : Talk Reply) (w : Wire) : Prop where
  delivery : Delivery w frames (t w).2
  done_iff : (t w).1 = .ok done ↔ ∀ i < frames.length, w.Answered i

namespace Transfers

variable {frames : List (List UInt8)} {w : Wire}

lemma of_eq {t result} {w' : Wire} (hrun : t w = (result, w')) (hdelivery : Delivery w frames w')
    (hdone : result = .ok done ↔ ∀ i < frames.length, w.Answered i) : Transfers frames t w := by
  constructor
  · rwa [hrun]
  · rwa [hrun]

lemma get {f : Wire → Talk Reply} (h : Transfers frames (f w) w) :
    Transfers frames (MonadState.get >>= f) w :=
  .of_eq (get_bind_apply f w) h.delivery h.done_iff

end Transfers

lemma andThen_done (t : Talk Reply) : t.andThen (return done) = t := by
  have hsame (r : Reply) :
      (if r = done then return done else return r : Talk Reply) = return r := by
    split
    · next hr => rw [hr]
    · rfl
  simp only [andThen, hsame, bind_pure]

lemma andThen_assoc (t u v : Talk Reply) : (t.andThen u).andThen v = t.andThen (u.andThen v) := by
  unfold andThen
  rw [bind_assoc]
  congr 1
  funext r
  split
  · rfl
  · next hr =>
      rw [pure_bind, if_neg hr]

lemma Exchanges.andThen_of_answered (h : Exchanges frame t w) (hyes : w.Answered 0)
    (next : Talk Reply) : t.andThen next w = next (t w).2 := bind_ok (h.done_iff.2 hyes)

/-- An exchange that is not answered with done ends the talk with its own result. -/
lemma Exchanges.andThen_of_not (h : Exchanges frame t w) (hno : ¬ w.Answered 0)
    (next : Talk Reply) : t.andThen next w = t w := by
  cases hres : (t w).1 with
  | error e => exact (bind_error hres).trans (Prod.ext hres.symm rfl)
  | ok r =>
    have hr : r ≠ done := by
      rintro rfl
      exact hno (h.done_iff.1 hres)
    rw [Talk.andThen, bind_ok hres, if_neg hr]
    exact Prod.ext hres.symm rfl

lemma Exchanges.andThen (h : Exchanges frame t w)
    (hnext : ∀ w1, Did w w1 [.wrote frame, .asked 1] → Transfers frames next w1) :
    Transfers (frame :: frames) (t.andThen next) w := by
  by_cases hyes : w.Answered 0
  · have hdid := h.did.resolve_right fun hno => hno.1 hyes
    have hrest := hnext _ hdid
    refine .of_eq (h.andThen_of_answered hyes next) (.answered hyes hdid hrest.delivery) ?_
    rw [hrest.done_iff]
    simp only [hdid.answered_iff rfl rfl, length_cons]
    constructor
    · intro hall i hi
      cases i with
      | zero => exact hyes
      | succ i => exact add_comm 1 i ▸ hall i (by omega)
    · intro hall i hi
      exact hall (1 + i) (by omega)
  · have hdid : Did w (t w).2 [.wrote frame, .asked 1] ∨ Did w (t w).2 [.wrote frame] :=
      h.did.imp_right And.right
    refine .of_eq (h.andThen_of_not hyes next) (.stopped hyes hdid) ?_
    exact ⟨fun hdone => absurd (h.done_iff.1 hdone) hyes,
      fun hall => absurd (hall 0 (by simp)) hyes⟩

lemma transfers_done (w : Wire) : Transfers [] (return done) w :=
  .of_eq rfl (.nil (.refl w)) (by simp)

lemma Exchanges.transfers (h : Exchanges frame t w) : Transfers [frame] t w := by
  rw [← andThen_done t]
  exact h.andThen fun w1 _ => transfers_done w1

lemma Quiet.transfers {t} (ht : Quiet t)
    (hnext : ∀ w1, Did w w1 [] → Transfers frames next w1) : Transfers frames (do t; next) w := by
  obtain ⟨hok, hdid⟩ := ht w
  have hrest := hnext _ hdid
  have hsame (i : Nat) : (t w).2.Answered i ↔ w.Answered i := by
    simpa using hdid.answered_iff rfl rfl i
  refine .of_eq (bind_ok hok) (hrest.delivery.of_quiet hdid) ?_
  simp only [hrest.done_iff, hsame]

/-! ## A write -/

lemma transfers_endWrite (w : Wire) : Transfers [[endByte]] endWrite w := by
  refine Exchanges.transfers (.tryCatch (exchanges_exchangeWith ?_ [endByte] w) ?_)
  · exact (quiet_tell _).bind (quiet_tell _)
  · intro e w1
    cases e <;> exact ⟨by simp [done, timedOut], rfl⟩

lemma transfers_sendPackets (size : Double) (packets : List (List UInt8)) (percent : Double)
    (w : Wire) :
    Transfers (packets ++ [[endByte]]) ((sendPackets size percent packets).andThen endWrite) w := by
  induction packets generalizing percent w with
  | nil => exact transfers_endWrite w
  | cons packet rest ih =>
    rw [sendPackets, andThen_assoc]
    exact (exchanges_guarded (quiet_tell _) packet w).andThen fun w1 _ => ih _ w1

variable (address : Int)

def writeFrames : Option (List UInt8) → List (List UInt8)
  | none => [writeCommand address]
  | some content => writeCommand address :: (packetsOf content ++ [[endByte]])

lemma length_writeFrames_some (content : List UInt8) :
    (writeFrames address (some content)).length = (packetsOf content).length + 2 := by
  rw [writeFrames, length_cons, length_append]
  rfl

lemma transfers_writeFlash (path : String) (w : Wire)
    (hpath : w.disk.read? path = none → w.disk.isDir path = false) :
    Transfers (writeFrames address (w.disk.read? path)) (writeFlash address path) w := by
  have hhead := exchanges_guarded quiet_return (writeCommand address) w
  unfold writeFlash
  -- the file is looked for behind the command, when the files are still the same
  cases hfile : w.disk.read? path with
  | none =>
    refine hhead.andThen fun w1 hdid => (quiet_tell _).transfers fun w2 hdid' => .get ?_
    have hdir := hpath hfile
    rw [← hdid.disk, ← hdid'.disk] at hfile hdir
    simp only [hfile, hdir]
    exact (quiet_tell _).transfers fun w3 _ => transfers_done w3
  | some content =>
    refine hhead.andThen fun w1 hdid => (quiet_tell _).transfers fun w2 hdid' => .get ?_
    rw [← hdid.disk, ← hdid'.disk] at hfile
    simp only [hfile]
    exact transfers_sendPackets _ _ _ w2

lemma intBytes_four (n : Int) : ∃ a b c d : UInt8, intBytes 4 n = [a, b, c, d] ∧
    (a.toNat + 256 * b.toNat + 65536 * c.toNat + 16777216 * d.toNat : Int) = n % 4294967296 := by
  refine ⟨_, _, _, _, rfl, ?_⟩
  have hbyte (m : Int) : ((m % 256).toNat.toUInt8.toNat : Int) = m % 256 := by
    have hnonneg := Int.emod_nonneg m (show (256 : Int) ≠ 0 by decide)
    have hlt := Int.emod_lt_of_pos m (show (0 : Int) < 256 by decide)
    simp [Nat.toUInt8, UInt8.toNat_ofNat']
    omega
  simp only [hbyte]
  omega

/-- The bytes that a write hands to the port are frames in order: the command with its address, the
packets of the file and the end. Frame `i` is sent exactly if each frame before it was taken by the
port and answered with done. -/
theorem sent_writeFlash (address : Int) (path : String) (w : Wire) (content : List UInt8)
    (hfile : w.disk.read? path = some content) :
    ∃ (a b c d : UInt8) (packets : List (List UInt8)) (n : Nat),
      let frames := [0x6a, a, b, c, d] :: (packets ++ [[0x73]])
      let w' := (writeFlash address path w).2
      (a.toNat + 256 * b.toNat + 65536 * c.toNat + 16777216 * d.toNat : Int) =
          address % 4294967296 ∧
        (∀ packet ∈ packets, packet.length = 64) ∧
        (∃ k < 64, packets.flatten = content ++ List.replicate k 0xff) ∧
        w'.sent = w.sent ++ frames.take n ∧ w'.port <+: w.port ++ exchanges (frames.take n) ∧
        ∀ i, i < n ↔ i < frames.length ∧ ∀ j < i, w.Answered j := by
  obtain ⟨a, b, c, d, hbytes, haddr⟩ := intBytes_four address
  have htransfers := transfers_writeFlash address path w (by simp [hfile])
  rw [hfile, writeFrames, writeCommand, hbytes] at htransfers
  obtain ⟨n, hn, hsent, hport⟩ := htransfers.delivery.sent
  exact ⟨a, b, c, d, packetsOf content, n, haddr, fun _ => length_of_mem_packetsOf,
    flatten_packetsOf content, hsent, hport, hn⟩

/-- A port with a short file at hand, whose arm takes the command and refuses the packet. -/
def refusing : Wire where
  readings := [.bytes [done], .bytes [busy]]
  writings := []
  ports := []
  isOpen := true
  monitor := true
  disk := ⟨⟨[("f", [7, 7])]⟩, [""]⟩
  trace := #[]

theorem sent_writeFlash_refusing : refusing.disk.read? "f" = some [7, 7] ∧ ¬ refusing.Answered 1 ∧
      ∃ packets : List (List UInt8), packets.length = 1 ∧
        (writeFlash 258 "f" refusing).2.sent = [0x6a, 2, 1, 0, 0] :: packets := by
  have hfile : refusing.disk.read? "f" = some [7, 7] := by decide
  have hyes : refusing.Answered 0 := ⟨⟨[], rfl⟩, [], rfl⟩
  have hno : ¬ refusing.Answered 1 := by
    rintro ⟨-, rest, heq⟩
    cases heq
  obtain ⟨a, b, c, d, packets, n, haddr, hlen, ⟨k, hk, hflatten⟩, hsent, -, hn⟩ :=
    sent_writeFlash 258 "f" refusing [7, 7] hfile
  have hcount : packets.length = 1 := by
    have htotal := congrArg List.length hflatten
    rw [List.length_flatten, List.map_congr_left hlen] at htotal
    simp at htotal
    omega
  have htwo : n = 2 := by
    have hsnd : 1 < n := (hn 1).2 ⟨by simp [hcount], fun j hj => by
      obtain rfl : j = 0 := by omega
      exact hyes⟩
    have hlast : ¬ 2 < n := fun hlt => hno (((hn 2).1 hlt).2 1 (by decide))
    omega
  have hbytes : a = 2 ∧ b = 1 ∧ c = 0 ∧ d = 0 := by
    have := a.toNat_lt
    have := b.toNat_lt
    have := c.toNat_lt
    have := d.toNat_lt
    refine ⟨UInt8.toNat_inj.1 ?_, UInt8.toNat_inj.1 ?_, UInt8.toNat_inj.1 ?_, UInt8.toNat_inj.1 ?_⟩
      <;> simp <;> omega
  obtain ⟨rfl, rfl, rfl, rfl⟩ := hbytes
  obtain ⟨packet, rfl⟩ := List.length_eq_one_iff.1 hcount
  exact ⟨hfile, hno, [packet], hcount, by rw [hsent, htwo]; rfl⟩

end ArmStudio.Link.Talk
