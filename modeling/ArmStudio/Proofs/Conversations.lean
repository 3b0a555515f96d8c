import ArmStudio.Link.Command
import ArmStudio.Proofs.Attempts

/-!
# What parts of a conversation do

A part of a conversation takes answers of the port in order and leaves events. What it does at the
port is told by its reads and writes; all other events are told to the panel or the monitor.
-/

namespace ArmStudio.Link

open List Event Reply Answer Wire

/-- What an answer of the port comes to. Where none is left, nothing is read and a write
succeeds. -/
def Answer.outcome : Option Answer → Except LinkError (List UInt8)
  | none => .ok []
  | some (.bytes b) => .ok b
  | some .timeout => .error .timeout
  | some .failure => .error .failure

namespace Event

def isAtPort : Event → Bool
  | wrote _ | asked _ => true
  | _ => false

def bytes? : Event → Option (List UInt8)
  | wrote b => some b
  | _ => none

def isRead : Event → Bool
  | asked _ => true
  | _ => false

def isWrite : Event → Bool
  | wrote _ => true
  | _ => false

end Event

namespace Wire

variable (w : Wire)

def port : List Event := w.trace.toList.filter isAtPort

/-- What was handed to the port, write by write. -/
def sent : List (List UInt8) := w.trace.toList.filterMap bytes?

lemma sent_eq_port : w.sent = w.port.filterMap bytes? := by
  unfold sent port
  induction w.trace.toList with
  | nil => rfl
  | cons e rest ih =>
    cases e <;> simpa [filterMap_cons, filter_cons, isAtPort, bytes?] using ih

/-- Write number `i` succeeds, and read number `i` answers it with done. -/
def Answered (i : Nat) : Prop := (∃ b, outcome w.writings[i]? = .ok b) ∧
    ∃ rest, outcome w.readings[i]? = .ok (done :: rest)

end Wire

/-! ## Reads and writes -/

/-- Between two wires the reads and writes `events` were made. Each of them took one answer, and the
files stayed. -/
structure Did (w w' : Wire) (events : List Event) : Prop where
  port : w'.port = w.port ++ events
  readings : w'.readings = w.readings.drop (events.countP isRead)
  writings : w'.writings = w.writings.drop (events.countP isWrite)
  disk : w'.disk = w.disk

namespace Did

variable {w w1 w2 : Wire} {xs ys : List Event}

lemma refl (w : Wire) : Did w w [] := ⟨by simp, by simp, by simp, rfl⟩

lemma trans (h : Did w w1 xs) (h' : Did w1 w2 ys) : Did w w2 (xs ++ ys) :=
  ⟨by rw [h'.port, h.port, append_assoc], by rw [h'.readings, h.readings, drop_drop, countP_append],
    by rw [h'.writings, h.writings, drop_drop, countP_append],
    h'.disk.trans h.disk⟩

lemma sent (h : Did w w1 xs) : w1.sent = w.sent ++ xs.filterMap bytes? := by
  rw [w1.sent_eq_port, h.port, filterMap_append, ← w.sent_eq_port]

lemma answered_iff (h : Did w w1 xs) {n : Nat} (hreads : xs.countP isRead = n)
    (hwrites : xs.countP isWrite = n) (i : Nat) : w1.Answered i ↔ w.Answered (n + i) := by
  unfold Answered
  rw [h.readings, h.writings, hreads, hwrites, getElem?_drop, getElem?_drop]

end Did

namespace Talk

/-- The part succeeds and does nothing at the port. -/
def Quiet (t : Talk Unit) : Prop := ∀ w, (t w).1 = .ok () ∧ Did w (t w).2 []

lemma emit_apply (e : Event) (w : Wire) :
    emit e w = (.ok (), { w with trace := w.trace.push e }) := rfl

lemma quiet_tell (m : Message) : Quiet (tell m) := by
  intro w
  rw [tell, emit_apply]
  exact ⟨rfl, by simp [port, isAtPort], rfl, rfl, rfl⟩

lemma quiet_watch (bytes : List UInt8) : Quiet (watch bytes) := by
  intro w
  rw [watch, get_bind_apply]
  split
  · exact ⟨rfl, by simp [emit_apply, port, isAtPort], rfl, rfl, rfl⟩
  · exact ⟨rfl, .refl w⟩

lemma nextWriting_apply (w : Wire) : nextWriting w =
    (.ok ((w.writings.head?).getD (.bytes [])), { w with writings := w.writings.drop 1 }) := by
  rcases w with ⟨readings, writings, ports, isOpen, monitor, disk, trace⟩
  cases writings <;> rfl

lemma nextReading_apply (w : Wire) : nextReading w =
    (.ok ((w.readings.head?).getD (.bytes [])), { w with readings := w.readings.drop 1 }) := by
  rcases w with ⟨readings, writings, ports, isOpen, monitor, disk, trace⟩
  cases readings <;> rfl

lemma accept_getD (a : Option Answer) (w : Wire) :
    accept (a.getD (.bytes [])) w = (outcome a, w) := by
  cases a with
  | none => rfl
  | some a => cases a <;> rfl

lemma did_send (bytes : List UInt8) (w : Wire) :
    (send bytes w).1 = (outcome w.writings[0]?).map (fun _ => ()) ∧
      Did w (send bytes w).2 [.wrote bytes] := by
  let w1 : Wire := { w with trace := w.trace.push (.wrote bytes), writings := w.writings.drop 1 }
  have hdid : Did w w1 [.wrote bytes] := ⟨by simp [w1, port, isAtPort], rfl, rfl, rfl⟩
  have haccept := accept_getD w.writings.head? w1
  rw [send, bind_of_ok (emit_apply _ w), bind_of_ok (nextWriting_apply _)]
  rw [← head?_eq_getElem?]
  cases houtcome : outcome w.writings.head? with
  | error e =>
    rw [houtcome] at haccept
    rw [bind_of_error haccept]
    exact ⟨rfl, hdid⟩
  | ok b =>
    rw [houtcome] at haccept
    rw [bind_of_ok haccept]
    obtain ⟨hok, hwatched⟩ := quiet_watch bytes w1
    exact ⟨hok, hdid.trans hwatched⟩

lemma did_receive (size : Nat) (w : Wire) :
    (receive size w).1 = (outcome w.readings[0]?).map (List.take size) ∧
      Did w (receive size w).2 [.asked size] := by
  let w1 : Wire := { w with trace := w.trace.push (.asked size), readings := w.readings.drop 1 }
  have hdid : Did w w1 [.asked size] := ⟨by simp [w1, port, isAtPort], rfl, rfl, rfl⟩
  have haccept := accept_getD w.readings.head? w1
  rw [receive, bind_of_ok (emit_apply _ w), bind_of_ok (nextReading_apply _)]
  rw [← head?_eq_getElem?]
  cases houtcome : outcome w.readings.head? with
  | error e =>
    rw [houtcome] at haccept
    rw [bind_of_error haccept]
    exact ⟨rfl, hdid⟩
  | ok b =>
    rw [houtcome] at haccept
    rw [bind_of_ok haccept]
    obtain ⟨hok, hwatched⟩ := quiet_watch (b.take size) w1
    rw [bind_ok hok]
    exact ⟨rfl, hdid.trans hwatched⟩

/-! ## Exchanges -/

lemma Quiet.bind {t u} (ht : Quiet t) (hu : Quiet u) : Quiet (do t; u) := by
  intro w
  obtain ⟨hok, hdid⟩ := ht w
  obtain ⟨hok', hdid'⟩ := hu (t w).2
  rw [bind_ok hok]
  exact ⟨hok', hdid.trans hdid'⟩

lemma quiet_return : Quiet (return ()) := fun w => ⟨rfl, .refl w⟩

/-- The bytes are sent and, if the port takes them, one byte is read. The result is done exactly if
that byte is. -/
structure Exchanges (bytes : List UInt8) (t : Talk Reply) (w : Wire) : Prop where
  done_iff : (t w).1 = .ok done ↔ w.Answered 0
  did : Did w (t w).2 [.wrote bytes, .asked 1] ∨ ¬ w.Answered 0 ∧ Did w (t w).2 [.wrote bytes]

variable {bytes : List UInt8} {t : Talk Reply} {w : Wire} {notice : Talk Unit}

lemma Exchanges.of_eq {w' : Wire} {result} (hrun : t w = (result, w'))
    (hdone : result = .ok done ↔ w.Answered 0)
    (hdid : Did w w' [.wrote bytes, .asked 1] ∨ ¬ w.Answered 0 ∧ Did w w' [.wrote bytes]) :
    Exchanges bytes t w := by
  constructor
  · rwa [hrun]
  · rwa [hrun]

lemma error_eq_done_iff {e} (h : ¬ w.Answered 0) :
    (.error e : Except LinkError Reply) = .ok done ↔ w.Answered 0 :=
  ⟨fun heq => (nomatch heq), fun hyes => absurd hyes h⟩

lemma firstOf_take_eq_done_iff (b : List UInt8) :
    firstOf (b.take 1) = done ↔ ∃ rest, b = done :: rest := by
  cases b with
  | nil => simp [firstOf, done, timedOut]
  | cons first rest => simp [firstOf]

/-- An exchange, in all ways that the port may behave: the write fails, the read fails, or a byte or
none is read. -/
theorem exchanges_exchangeWith (hnotice : Quiet notice) (bytes : List UInt8) (w : Wire) :
    Exchanges bytes (exchangeWith notice bytes) w := by
  obtain ⟨hsend, hdid⟩ := did_send bytes w
  have hsame : (send bytes w).2.readings = w.readings := hdid.readings
  cases hwrite : outcome w.writings[0]? with
  | error e =>
    have hno : ¬ w.Answered 0 := by simp [Answered, hwrite]
    rw [hwrite] at hsend
    exact .of_eq (bind_error hsend) (error_eq_done_iff hno) (.inr ⟨hno, hdid⟩)
  | ok written =>
    rw [hwrite] at hsend
    obtain ⟨hrecv, hdid'⟩ := did_receive 1 (send bytes w).2
    rw [hsame] at hrecv
    have hboth := hdid.trans hdid'
    cases hread : outcome w.readings[0]? with
    | error e =>
      have hno : ¬ w.Answered 0 := by simp [Answered, hread]
      rw [hread] at hrecv
      have hrun : exchangeWith notice bytes w = (.error e, (receive 1 (send bytes w).2).2) := by
        rw [exchangeWith, bind_ok hsend, bind_error hrecv]
      exact .of_eq hrun (error_eq_done_iff hno) (.inl hboth)
    | ok b =>
      rw [hread] at hrecv
      obtain ⟨hok, hnoticed⟩ := hnotice (receive 1 (send bytes w).2).2
      have hdone : w.Answered 0 ↔ firstOf (b.take 1) = done := by
        simp [Answered, hwrite, hread, firstOf_take_eq_done_iff]
      refine .of_eq ?_ (by rw [hdone, Except.ok.injEq]) (.inl (hboth.trans hnoticed))
      rw [exchangeWith, bind_ok hsend, bind_ok hrecv,
        bind_ok hok]
      rfl

/-- The handler makes no done of a failure, and does nothing besides. -/
def Refuses (handler : LinkError → Talk Reply) : Prop :=
  ∀ e w, (handler e w).1 ≠ .ok done ∧ (handler e w).2 = w

lemma Exchanges.tryCatch {handler} (h : Exchanges bytes t w)
    (hhandler : Refuses handler) : Exchanges bytes (tryCatch t handler) w := by
  cases hres : (t w).1 with
  | ok r =>
    refine .of_eq (tryCatch_ok hres) ?_ h.did
    rw [← hres]
    exact h.done_iff
  | error e =>
    obtain ⟨hrefused, hsame⟩ := hhandler e (t w).2
    have hno : ¬ w.Answered 0 := by
      rw [← h.done_iff, hres]
      exact nofun
    refine .of_eq (tryCatch_error hres) ?_ (hsame.symm ▸ h.did)
    exact ⟨fun hdone => absurd hdone hrefused, fun hyes => absurd hyes hno⟩

lemma refuses_replyOf : Refuses fun e => return replyOf e := by
  intro e w
  refine ⟨?_, rfl⟩
  cases e <;> simp [replyOf, done, timedOut, failed]

lemma exchanges_guarded (hnotice : Quiet notice) (bytes : List UInt8) (w : Wire) :
    Exchanges bytes (guarded (exchangeWith notice bytes)) w :=
  (exchanges_exchangeWith hnotice bytes w).tryCatch refuses_replyOf

end Talk

end ArmStudio.Link
