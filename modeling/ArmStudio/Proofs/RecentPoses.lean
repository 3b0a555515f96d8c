import ArmStudio.Proofs.Assembling
import ArmStudio.Proofs.Sightings
import ArmStudio.Vision.Errand
import Mathlib.Data.List.DropRight

/-!
# The poses of the last second

Once a second the mean of the poses of the last second is formed, while what the report gives is the
pose of the moment. The poses older than a second are dropped only when a report is due, and more
than a hundred are never kept: on a clock that does not go back, what is left at a report is still
all of the last second, or the most recent hundred.
-/

namespace ArmStudio.Vision

open Number Script List Track

/-- A call: the time, whether the target is seen, and its pose. -/
abbrev Look := Value × Bool × Pose

/-- The call that a station would make. -/
def Station.look (s : Station) : Look := (s.clock, s.memory.seen, s.memory.pose)

namespace Track

/-- A time is of the second before another, as the clock tells it. -/
def recent (now time : Value) : Bool := (Lock.elapsed time now 1).any Ordering.isLE

/-- The clock does not go back: what is of the last second at a time was so before, and is so no
longer than what comes after it. -/
def InOrder (times : List Value) : Prop :=
  times.Pairwise fun a b => ∀ t ∈ times, (recent b t → recent a t) ∧ (recent t a → recent t b)

instance (times : List Value) : Decidable (InOrder times) :=
  inferInstanceAs (Decidable (Pairwise _ times))

lemma recent_int (now time : Int) : recent (.int now) (.int time) ↔ now - time ≤ 1 := by
  have hone : (1 : Double).datum = .finite false 4503599627370496 (-52) := by decide +kernel
  show (Double.compareInt? (now - time) 1).any Ordering.isLE = true ↔ _
  simp only [Double.compareInt?, hone, Double.compareRatio, Format.scale]
  simp
  rw [Std.isGE_compare]
  omega

/-- A clock of whole seconds whose times do not decrease does not go back. -/
lemma inOrder_map_int {times : List Int} (h : times.Pairwise (· ≤ ·)) :
    InOrder (times.map .int) := by
  refine pairwise_map.2 (h.imp fun {a b} hab => forall_mem_map.2 fun t _ => ?_)
  simp only [recent_int]
  omega

/-- The track behind calls. -/
def after (calls : List Look) : Track :=
  calls.foldl (fun t c => (t.advance c.1 c.2.1 c.2.2).2) .empty

/-- The poses of the calls that saw the target, with their times. -/
def recorded (calls : List Look) : List (Value × Pose) :=
  (calls.filter (·.2.1)).map fun c => (c.1, c.2.2)

/-- The poses of the last second, the most recent hundred of them. -/
def window (now : Value) (poses : List (Value × Pose)) : List (Value × Pose) :=
  (poses.filter fun p => recent now p.1).rtake capacity

section

variable {α : Type} {l l' : List α} (n : Nat)

lemma length_rtake_le : (l.rtake n).length ≤ n := by
  rw [rtake, length_drop]
  omega

lemma rtake_append_congr (h : l.rtake n = l'.rtake n) (r : List α) :
    (l ++ r).rtake n = (l' ++ r).rtake n := by
  simp only [rtake_eq_reverse_take_reverse, reverse_append, take_append, reverse_inj] at h ⊢
  have htake := congrArg (take (n - r.reverse.length)) h
  rw [take_take, take_take, min_eq_left (Nat.sub_le _ _)] at htake
  rw [htake]

/-- When what follows a chosen entry is chosen, only the last entries count for the last chosen. -/
lemma rtake_filter_rtake (p : α → Bool) (h : l.Pairwise fun a b => p a → p b) :
    ((l.rtake n).filter p).rtake n = (l.filter p).rtake n := by
  have hsplit : l.take (l.length - n) ++ l.rtake n = l := take_append_drop (l.length - n) l
  have hlen (hpos : 0 < (l.take (l.length - n)).length) : (l.rtake n).length = n := by
    simp only [length_take, rtake, length_drop] at hpos ⊢
    omega
  generalize l.take (l.length - n) = front at hsplit hlen
  generalize l.rtake n = back at hsplit hlen ⊢
  subst hsplit
  rw [filter_append]
  by_cases hnone : ∀ a ∈ front, ¬ p a
  · rw [filter_eq_nil_iff.2 hnone, nil_append]
  · push Not at hnone
    obtain ⟨a, ha, hpa⟩ := hnone
    rw [filter_eq_self.2 fun b hb => (pairwise_append.1 h).2.2 a ha b hb hpa]
    simp [rtake, hlen (length_pos_of_mem ha)]

end

variable {t : Track} (c : Look)

lemma recorded_append (calls calls' : List Look) :
    recorded (calls ++ calls') = recorded calls ++ recorded calls' := by simp [recorded]

lemma after_concat (calls : List Look) :
    after (calls ++ [c]) = ((after calls).advance c.1 c.2.1 c.2.2).2 := by
  rw [after, foldl_append]
  rfl

/-- A call keeps the last of the poses before and its own, and when a report is due only those of
the last second. -/
lemma advance_poses (ht : t.poses.length ≤ capacity) :
    (t.advance c.1 c.2.1 c.2.2).2.poses = (t.poses ++ recorded [c]).rtake capacity ∨
      (t.advance c.1 c.2.1 c.2.2).2.poses =
        ((t.poses ++ recorded [c]).rtake capacity).filter fun p => recent c.1 p.1 := by
  obtain ⟨now, seen, pose⟩ := c
  have hposes : (if seen then keepLast capacity t.poses (now, pose) else t.poses) =
      (t.poses ++ recorded [(now, seen, pose)]).rtake capacity := by
    cases seen with
    | true => rfl
    | false => simp [recorded, rtake, Nat.sub_eq_zero_of_le ht]
  rw [← hposes]
  unfold advance
  dsimp only
  split
  · exact .inl rfl
  · exact .inr rfl

lemma poses_after (calls : List Look) :
    (after calls).poses <+ recorded calls ∧ (after calls).poses.length ≤ capacity := by
  induction calls using reverseRecOn with
  | nil => exact ⟨.refl _, zero_le⟩
  | append_singleton calls c ih =>
    have hsub : ((after calls).poses ++ recorded [c]).rtake capacity <+
        recorded (calls ++ [c]) := by
      rw [recorded_append]
      exact (drop_sublist _ _).trans (ih.1.append (.refl _))
    rw [after_concat]
    obtain h | h := advance_poses c ih.2
    · exact h ▸ ⟨hsub, length_rtake_le _⟩
    · exact h ▸ ⟨filter_sublist.trans hsub, (length_filter_le _ _).trans (length_rtake_le _)⟩

/-- At a later time a call has lost nothing of the last second. -/
lemma window_advance {later : Value} (ht : t.poses.length ≤ capacity)
    (hlater : ∀ p ∈ t.poses ++ recorded [c], recent later p.1 → recent c.1 p.1)
    (hposes : (t.poses ++ recorded [c]).Pairwise fun a b => recent later a.1 → recent later b.1) :
    window later (t.advance c.1 c.2.1 c.2.2).2.poses = window later (t.poses ++ recorded [c]) := by
  have hlast := rtake_filter_rtake capacity (fun p : Value × Pose => recent later p.1) hposes
  obtain h | h := advance_poses c ht
  · rw [window, h, hlast, window]
  · have hboth : ∀ p ∈ (t.poses ++ recorded [c]).rtake capacity,
        (recent later p.1 && recent c.1 p.1) = recent later p.1 := by
      intro p hp
      have hp := hlater p (mem_of_mem_drop hp)
      cases hrecent : recent later p.1 <;> simp_all
    rw [window, h, filter_filter, filter_congr hboth, hlast, window]

lemma window_after {later : Value} (calls : List Look)
    (hlater : ∀ c ∈ calls, ∀ p ∈ recorded calls, recent later p.1 → recent c.1 p.1)
    (hposes : (recorded calls).Pairwise fun a b => recent later a.1 → recent later b.1) :
    window later (after calls).poses = window later (recorded calls) := by
  induction calls using reverseRecOn with
  | nil => rfl
  | append_singleton calls c ih =>
    rw [recorded_append] at hlater hposes ⊢
    have hbefore := ih (fun d hd p hp => hlater d (mem_append_left _ hd) p (mem_append_left _ hp))
      (pairwise_append.1 hposes).1
    obtain ⟨hsub, hlen⟩ := poses_after calls
    have hall := hsub.append (.refl (recorded [c]))
    rw [after_concat, window_advance c hlen
      (fun p hp => hlater c mem_concat_self p (hall.subset hp)) (hposes.sublist hall)]
    rw [window, window, filter_append, filter_append]
    exact rtake_append_congr _ hbefore _

lemma window_eq_self {kept} {now : Value} (hlen : kept.length ≤ capacity)
    (hrecent : ∀ p ∈ kept, recent now p.1) : window now kept = kept := by
  rw [window, filter_eq_self.2 hrecent, rtake, Nat.sub_eq_zero_of_le hlen, drop_zero]

/-- On a clock that does not go back, what is left when all that is left is of the last second is
the whole of it. -/
lemma poses_eq_window {calls} (horder : InOrder ((calls ++ [c]).map (·.1)))
    (hrecent : ∀ p ∈ (after (calls ++ [c])).poses, recent c.1 p.1) :
    (after (calls ++ [c])).poses = window c.1 (recorded (calls ++ [c])) := by
  rw [← window_eq_self (poses_after _).2 hrecent]
  have hpairs := pairwise_map.1 horder
  have htime : ∀ p ∈ recorded (calls ++ [c]), p.1 ∈ (calls ++ [c]).map (·.1) := by
    intro p hp
    obtain ⟨d, hd, rfl⟩ := mem_map.1 hp
    exact mem_map_of_mem (mem_filter.1 hd).1
  refine window_after _ (fun d hd p hp hnow => ?_) (pairwise_map.2 ?_)
  · obtain hd | rfl := mem_append.1 hd |>.imp_right mem_singleton.1
    · exact ((pairwise_append.1 hpairs).2.2 d hd c (mem_singleton_self c) p.1 (htime p hp)).1 hnow
    · exact hnow
  · exact (hpairs.imp fun h => (h c.1 (mem_map_of_mem mem_concat_self)).2).filter _

/-- A report of the target is the mean of what is kept, all of which is of the last second. -/
lemma advance_seen_mean {mean : Pose} {count : Nat}
    (h : (t.advance c.1 c.2.1 c.2.2).1 = .ok (some (.seen mean count))) :
    meanPose ((t.advance c.1 c.2.1 c.2.2).2.poses.map (·.2)) = .ok mean ∧
      count = (t.advance c.1 c.2.1 c.2.2).2.poses.length ∧
      ∀ p ∈ (t.advance c.1 c.2.1 c.2.2).2.poses, recent c.1 p.1 := by
  unfold advance at h ⊢
  dsimp only at h ⊢
  generalize (if c.2.1 then keepLast capacity t.poses (c.1, c.2.2) else t.poses) = poses at h ⊢
  split at h
  · cases h
  next hdue =>
    rw [if_neg hdue]
    generalize hkept : poses.filter _ = kept at h ⊢
    dsimp only at h ⊢
    split at h
    · cases h
    · cases hmean : meanPose (kept.map (·.2)) with
      | error e =>
        rw [hmean] at h
        cases h
      | ok m =>
        rw [hmean] at h
        cases h
        refine ⟨rfl, rfl, fun p hp => ?_⟩
        rw [← hkept] at hp
        exact (mem_filter.1 hp).2

end Track

/-- What a report gives is the pose of the moment. The mean that it tells is that of poses seen in
the last second, a hundred at most, and on a clock that does not go back of all of these or the most
recent hundred. -/
theorem reportTrack_moment (calls : List Look) {s : Station}
    (htrack : s.memory.track = .after calls) {pose : Pose}
    (h : (reportTrack s).1 = .ok (some pose)) :
    pose = s.memory.pose ∧ s.memory.seen = true ∧ ∃ kept mean,
      kept <+ recorded (calls ++ [s.look]) ∧
      kept.length ≤ capacity ∧ (∀ p ∈ kept, recent s.clock p.1) ∧
      (InOrder ((calls ++ [s.look]).map (·.1)) → kept = window s.clock
          (recorded (calls ++ [s.look]))) ∧
      meanPose (kept.map (·.2)) = .ok mean ∧
      (s.memory.track.advance s.clock s.memory.seen s.memory.pose).1 =
        .ok (some (.seen mean kept.length)) := by
  obtain ⟨hpose, mean, count, hreport⟩ := reportTrack_pose h
  have hseen := advance_seen hreport
  rw [htrack] at hreport ⊢
  obtain ⟨hmean, rfl, hrecent⟩ := advance_seen_mean s.look hreport
  rw [← after_concat] at hmean hrecent hreport
  obtain ⟨hsub, hlen⟩ := poses_after (calls ++ [s.look])
  exact ⟨hpose, hseen, _, mean, hsub, hlen, hrecent,
    fun horder => poses_eq_window _ horder hrecent, hmean, hreport⟩

/-- What was seen a second before the station `moving`. -/
def Look.past : Look := (.real 1000, true, ⟨.real 2, .real 4, .real 6⟩)

/-- A station whose target has moved. -/
def Station.moving : Station :=
  { Station.start ⟨.layered, ⟨false, false⟩, false, false, false, false, false⟩ with
    clock := .real 1001
    memory := { Memory.fresh with
      track := .after [.past], seen := true, pose := ⟨.real 4, .real 8, .real 10⟩ } }

/-- No coordinate that the report gives is the mean of the last second. -/
theorem reportTrack_moment_moving :
    (reportTrack .moving).1 = .ok (some ⟨.real 4, .real 8, .real 10⟩) ∧
      InOrder [.real 1000, .real 1001] ∧
      ∃ kept : List (Value × Pose),
        kept = window (.real 1001) (recorded [.past, Station.moving.look]) ∧
        meanPose (kept.map (·.2)) = .ok ⟨.real 3, .real 6, .real 8⟩ := by
  have hreport : (reportTrack .moving).1 = .ok (some ⟨.real 4, .real 8, .real 10⟩) :=
    Code.toOption_eq_some.1 (by decide +kernel)
  have horder : InOrder [.real 1000, .real 1001] := by decide +kernel
  obtain ⟨-, -, kept, mean, -, -, -, hkept, -, -⟩ := reportTrack_moment [.past] rfl hreport
  refine ⟨hreport, horder, kept, hkept horder, ?_⟩
  rw [hkept horder]
  exact Code.toOption_eq_some.1 (by decide +kernel)

end ArmStudio.Vision
