import ArmStudio.Proofs.PortFailures
import ArmStudio.Screen.Step
import ArmStudio.Vision.Errand

/-!
# The queue of tasks

The link of a window does the tasks that wait for it one by one. A task that passes a failure of the
port on ends this for good, and the tasks behind it stay where they are.
-/

namespace ArmStudio.Screen

open Link Message

/-- A task as it waits for the link. -/
def parcel (m : Message) : Parcel := (m.kind, m.data)

namespace Desk

/-- The tasks that a worker has not taken yet. -/
def waiting (app : Nat) (d : Desk) : Option (List Parcel) := d.apps[app]?.map (·.1.tasks)

/-- What a conversation leaves at the desk. -/
def withWire (d : Desk) (app : Nat) (wire : Wire) : Desk := { d with
    readings := wire.readings
    writings := wire.writings
    disk := wire.disk
    apps := d.apps.modify app fun w => ({ w.1 with portOpen := wire.isOpen }, w.2) }

def leave (d : Desk) (app : Nat) (tasks : List Parcel) : Desk :=
  { d with apps := d.apps.modify app fun w => ({ w.1 with tasks := tasks }, w.2) }

variable {app : Nat}

lemma waiting_eq_some {d : Desk} {tasks} (h : d.waiting app = some tasks) :
    ∃ a p, d.apps[app]? = some (a, p) ∧ a.tasks = tasks := by
  obtain ⟨w, hw, htasks⟩ := Option.map_eq_some_iff.1 h
  exact ⟨w.1, w.2, hw, htasks⟩

lemma waiting_modify (d : Desk) (id : Nat) {f} (hf : ∀ w, (f w).1.tasks = w.1.tasks) :
    waiting app { d with apps := d.apps.modify id f } = d.waiting app := by
  simp only [waiting, Array.getElem?_modify]
  split
  · cases d.apps[app]? with
    | none => rfl
    | some w => simp [hf]
  · rfl

@[simp] lemma waiting_withWire (d : Desk) (wire : Wire) :
    (d.withWire app wire).waiting app = d.waiting app :=
  waiting_modify d app fun _ => rfl

lemma getElem?_leave {d : Desk} {a : App} {p : Parts} (h : d.apps[app]? = some (a, p))
    (tasks : List Parcel) :
    (d.leave app tasks).apps[app]? = some ({ a with tasks := tasks }, p) := by
  simp [leave, Array.getElem?_modify, h]

end Desk

open Desk

variable {app : Nat}

/-! ## Taking up what was seen of a conversation -/

namespace Act

variable {tasks : List Parcel}

lemma app_apply {d : Desk} {a : App} {p : Parts} (h : d.apps[app]? = some (a, p)) :
    Act.app app d = (.ok (a, p), d) := by
  rw [Act.app, get_bind_apply, h]
  rfl

lemma maintains_addLine (id : Nat) (line : String) :
    Maintains (fun d => d.waiting app = some tasks) (addLine id line) := by
  have hboth (f : Widget → Widget) (e : Event) :
      Maintains (fun d => d.waiting app = some tasks) (do updateWidget id f; record e) :=
    (Maintains.of_modify fun _ hd => hd).bind fun _ => .of_modify fun _ hd => hd
  refine .get_bind fun d _ => ?_
  split
  · exact (hboth _ _).bind fun _ => hboth _ _
  · exact hboth _ _

end Act

variable (tasks : List Parcel)

lemma maintains_linkEvent (e : Link.Event) :
    Maintains (fun d => d.waiting app = some tasks) (linkEvent app e) := by
  cases e with
  | monitored text =>
    intro d hd
    obtain ⟨a, p, hwindow, -⟩ := waiting_eq_some hd
    rw [linkEvent, monitorLine, bind_of_ok (Act.app_apply hwindow)]
    exact Maintains.get_bind (fun _ _ => Act.maintains_addLine _ _) d hd
  | told m =>
    refine .of_modify fun d hd => ?_
    rw [← hd]
    exact waiting_modify d app fun _ => rfl
  | wrote _ | asked _ | opened _ _ _ | closed => exact .of_modify fun _ hd => hd

/-! ## One task -/

variable {d : Desk} {a : App} {p : Parts} {m : Message}

lemma runTask_apply (h : d.apps[app]? = some (a, p)) {task : Parcel}
    {result} {wire : Wire}
    (hrun : Talk.performData task.1 task.2 (wireOf d a) = (result, wire)) :
    runTask app task d = (do
      for e in wire.trace.toList do linkEvent app e
      ExceptT.mk (pure (result.mapError ScreenError.link)) : Act Unit) (d.withWire app wire) := by
  rw [runTask, bind_of_ok (Act.app_apply h)]
  dsimp only
  rw [get_bind_apply, ExceptT.run, hrun]
  cases result <;> rfl

/-- The port of a window exposes a task, if the task were begun now. -/
def ExposedAt (app : Nat) (m : Message) (d : Desk) : Prop :=
  ∃ a p, d.apps[app]? = some (a, p) ∧ m.Exposed (wireOf d a)

lemma exposedAt_iff (h : d.apps[app]? = some (a, p)) (m : Message) :
    ExposedAt app m d ↔ m.Exposed (wireOf d a) := by
  simp [ExposedAt, h]

/-- A task fails exactly if it is exposed, and then as the port does. The tasks behind it go on
waiting in both cases. -/
lemma runTask_parcel (hm : m.WellFormed) {tasks} (hd : d.waiting app = some tasks) :
    (∀ e, (runTask app (parcel m) d).1 = .error e ↔ e = .link .failure ∧ ExposedAt app m d) ∧
      (runTask app (parcel m) d).2.waiting app = some tasks := by
  obtain ⟨a, p, hwindow, -⟩ := waiting_eq_some hd
  have hrun : Talk.performData (parcel m).1 (parcel m).2 (wireOf d a) =
      ((Talk.perform m (wireOf d a)).1, (Talk.perform m (wireOf d a)).2) := by
    rw [parcel, Talk.performData, ofTask_kind_data hm]
    rfl
  obtain ⟨⟨_, hok⟩, hwait⟩ := Maintains.forIn (maintains_linkEvent tasks)
    (Talk.perform m (wireOf d a)).2.trace.toList _ ((waiting_withWire d _).trans hd)
  rw [runTask_apply hwindow hrun, bind_ok hok, exposedAt_iff hwindow]
  refine ⟨fun e => ?_, hwait⟩
  have hfails := Talk.failsIf_perform hm (wireOf d a)
  show ((Talk.perform m (wireOf d a)).1.mapError ScreenError.link = .error e) ↔ _
  cases hres : (Talk.perform m (wireOf d a)).1 with
  | ok _ =>
    have hno : ¬ m.Exposed (wireOf d a) := fun hyes => by
      have herror := (hfails .failure).2 ⟨rfl, hyes⟩
      rw [hres] at herror
      cases herror
    simp [Except.mapError, hno]
  | error cause =>
    obtain ⟨rfl, hyes⟩ := (hfails cause).1 hres
    simp [Except.mapError, hyes, eq_comm]

/-! ## The queue -/

/-- The link of a window, with these tasks waiting, does the first of them and comes to the desk
`d'` when it begins the others. -/
inductive Reaches (app : Nat) : List Parcel → Desk → List Parcel → Desk → Prop where
  | here {tasks : List Parcel} {d : Desk} : Reaches app tasks d tasks d
  | next {task : Parcel} {rest tasks : List Parcel} {d d1 d' : Desk} :
      runTask app task (d.leave app rest) = (.ok (), d1) → Reaches app rest d1 tasks d' →
      Reaches app (task :: rest) d tasks d'

lemma runTasks_cons (task : Parcel) (rest : List Parcel) (d : Desk) :
    runTasks app (task :: rest) d =
      (runTask app task >>= fun _ => runTasks app rest) (d.leave app rest) := rfl

lemma ExposedAt.wellFormed (h : ExposedAt app m d) : m.WellFormed := by
  obtain ⟨a, p, -, hexposed⟩ := h
  cases m <;> trivial

lemma exposedAt_leave (m : Message) (d : Desk) (tasks : List Parcel) :
    ExposedAt app m (d.leave app tasks) ↔ ExposedAt app m d := by
  cases h : d.apps[app]? with
  | none => simp [ExposedAt, leave, Array.getElem?_modify, h]
  | some w =>
    rw [exposedAt_iff (getElem?_leave h tasks), exposedAt_iff h]
    rfl

lemma parcel_injective {m'} (hm : m.WellFormed) (hm' : m'.WellFormed)
    (h : parcel m = parcel m') : m = m' := by
  have hsame : ofTask (parcel m).1 (parcel m).2 = .ok m := ofTask_kind_data hm
  rw [h, parcel, ofTask_kind_data hm'] at hsame
  exact (Except.ok.inj hsame).symm

lemma runTasks_ends (ms : List Message) (hms : ∀ m ∈ ms, m.WellFormed) (d : Desk)
    (hd : d.waiting app = some (ms.map parcel)) :
    let run := runTasks app (ms.map parcel) d
    (run.1 = .ok () ∧ Reaches app (ms.map parcel) d [] run.2 ∧ run.2.waiting app = some [] ∧
        ∀ m rest d', Reaches app (ms.map parcel) d (parcel m :: rest) d' → ¬ ExposedAt app m d') ∨
      run.1 = .error (.link .failure) ∧
        ∃ m rest d', Reaches app (ms.map parcel) d (parcel m :: rest) d' ∧ ExposedAt app m d' ∧
          run.2.waiting app = some rest := by
  -- over the queue; a task begins when the others have been put back to wait
  induction ms generalizing d with
  | nil => exact .inl ⟨rfl, .here, hd, fun m rest d' h => by cases h⟩
  | cons m ms ih =>
    have hm : m.WellFormed := hms m (by simp)
    obtain ⟨a, p, hwindow, -⟩ := waiting_eq_some hd
    have hleft : (d.leave app (ms.map parcel)).waiting app = some (ms.map parcel) := by
      simp [waiting, getElem?_leave hwindow]
    obtain ⟨hfails, hwait⟩ := runTask_parcel hm hleft
    simp only [List.map_cons, runTasks_cons]
    by_cases hexposed : ExposedAt app m (d.leave app (ms.map parcel))
    · have hres := (hfails _).2 ⟨rfl, hexposed⟩
      rw [bind_error hres]
      exact .inr ⟨rfl, m, _, d, .here, (exposedAt_leave m d _).1 hexposed, hwait⟩
    · have hok : (runTask app (parcel m) (d.leave app (ms.map parcel))).1 = .ok () := by
        cases hres : (runTask app (parcel m) (d.leave app (ms.map parcel))).1 with
        | ok _ => rfl
        | error e => exact absurd ((hfails e).1 hres).2 hexposed
      have hrun : runTask app (parcel m) (d.leave app (ms.map parcel)) =
          (.ok (), (runTask app (parcel m) (d.leave app (ms.map parcel))).2) := Prod.ext hok rfl
      rw [bind_of_ok hrun]
      -- the rest goes on from the desk that the task leaves, where the same tasks wait
      rcases ih (fun m' hm' => hms m' (by simp [hm'])) _ hwait with
        ⟨hdone, hreached, hnone, hnever⟩ | ⟨hstopped, m', rest, d', hreached, hyes, hbehind⟩
      · refine .inl ⟨hdone, .next hrun hreached, hnone, fun m' rest d' h => ?_⟩
        generalize htasks : parcel m' :: rest = tasks at h
        cases h with
        | here =>
          -- the first task itself, which its number and data determine
          intro hyes
          obtain ⟨hsame, -⟩ := List.cons.inj htasks
          rw [parcel_injective hyes.wellFormed hm hsame] at hyes
          exact hexposed ((exposedAt_leave m d _).2 hyes)
        | next hfirst hrest =>
          subst htasks
          obtain rfl := congrArg Prod.snd (hfirst.symm.trans hrun)
          exact hnever m' rest d' hrest
      · exact .inr ⟨hstopped, m', rest, d', .next hrun hreached, hyes, hbehind⟩

/-- The link of a window survives a queue of well-formed tasks exactly if it comes to no task that
the port exposes: reading the state while its exchange breaks, or writing to the flash while the end
of the write breaks. If so, all tasks are done and none waits. Otherwise the failure of the port
ends the work at the first such task, and the tasks behind it are left waiting. -/
theorem runTasks_ok_iff (app : Nat) (ms : List Message) (hms : ∀ m ∈ ms, m.WellFormed) (d : Desk)
    (hd : d.waiting app = some (ms.map parcel)) :
    let run := runTasks app (ms.map parcel) d
    (run.1 = .ok () ↔
        ∀ m rest d', Reaches app (ms.map parcel) d (parcel m :: rest) d' → ¬ ExposedAt app m d') ∧
      (run.1 = .ok () → Reaches app (ms.map parcel) d [] run.2 ∧ run.2.waiting app = some []) ∧
      ∀ e, run.1 = .error e → e = .link .failure ∧
        ∃ m rest d', Reaches app (ms.map parcel) d (parcel m :: rest) d' ∧ ExposedAt app m d' ∧
          run.2.waiting app = some rest := by
  intro run
  rcases runTasks_ends ms hms d hd with
    ⟨hok, hreached, hnone, hnever⟩ | ⟨herror, m, rest, d', hreached, hyes, hbehind⟩
  · refine ⟨⟨fun _ => hnever, fun _ => hok⟩, fun _ => ⟨hreached, hnone⟩, fun e he => ?_⟩
    rw [show run.1 = .ok () from hok] at he
    cases he
  · have hne : run.1 ≠ .ok () := fun hok => by cases herror.symm.trans hok
    refine ⟨⟨fun hok => absurd hok hne, fun hnever => ?_⟩, fun hok => absurd hok hne,
      fun e he => ?_⟩
    · exact absurd hyes (hnever m rest d' hreached)
    · refine ⟨?_, m, rest, d', hreached, hyes, hbehind⟩
      exact (Except.error.inj (herror.symm.trans he)).symm

/-- A desk with one window, for whose link tasks wait, and a port that fails when it is read. -/
def failingRead : Desk :=
  let settings : Vision.Settings := ⟨.layered, ⟨false, false⟩, false, false, false, false, false⟩
  let window : App := ⟨0, 0, 0, 0, 0, 0, .blank, 0, true, true, false, false, [], tasks, none, none⟩
  { Desk.empty false [] [] [.failure] [] [] (.start settings) ⟨none, []⟩ with
    apps := #[(window, ⟨0, 0, 0, 0⟩)] }

theorem runTasks_ok_iff_failingRead : let tasks := [readState, .reset].map parcel
    (∀ m ∈ [readState, .reset], m.WellFormed) ∧
      (failingRead tasks).waiting 0 = some tasks ∧ ExposedAt 0 .readState (failingRead tasks) ∧
      (runTasks 0 tasks (failingRead tasks)).1 = .error (.link .failure) := by
  intro tasks
  have hwell : ∀ m ∈ [readState, .reset], m.WellFormed := by simp [WellFormed]
  have hexposed : ExposedAt 0 .readState (failingRead tasks) := ⟨_, _, rfl, .inr ⟨⟨[], rfl⟩, rfl⟩⟩
  obtain ⟨hiff, -, hfailed⟩ := runTasks_ok_iff 0 _ hwell (failingRead tasks) rfl
  refine ⟨hwell, rfl, hexposed, ?_⟩
  cases hres : (runTasks 0 tasks (failingRead tasks)).1 with
  | ok _ => exact absurd hexposed (hiff.1 hres .readState _ _ .here)
  | error e => rw [(hfailed e hres).1]

end ArmStudio.Screen
