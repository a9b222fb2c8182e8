import Mathlib.Data.List.Nodup
import Mathlib.Data.List.Perm.Subperm

/-!
# The probes an agent runs

Every push carries the whole list. The agent stops the probes that are not on
it as they run, leaves the others their timers and starts what is missing,
never more than its own ceiling. A handle is the number of the start it came
from, so a probe that was restarted has another one.
-/

namespace Romi.AgentProbes

/-- A probe as the hub sends it. -/
structure PingTask where
  /-- The key of the probe. -/
  id : Int
  /-- The host and port it dials. -/
  target : String
  /-- The seconds between two rounds. -/
  interval : Nat
  deriving DecidableEq

/-- The probe loops of a session. -/
structure Probes where
  /-- The probes that run, each with its handle. -/
  running : List (PingTask × Nat)
  /-- The handle of the next start. -/
  next : Nat
  /-- The handles that were aborted. -/
  aborted : List Nat

/-- `MAX_PING_TASKS`. -/
def maxPingTasks : Nat := 64

/-- A new session. -/
def Probes.start : Probes := ⟨[], 0, []⟩

/-- A running probe is on the list as it runs. -/
def keep (wanted : List PingTask) (p : PingTask × Nat) : Bool :=
  wanted.any fun w => w.id = p.1.id ∧ w.target = p.1.target ∧ w.interval = p.1.interval

/-- `retain`: the probes that are not kept are aborted. -/
def Probes.retain (s : Probes) (wanted : List PingTask) : Probes :=
  { s with
    running := s.running.filter (keep wanted)
    aborted := s.aborted ++ (s.running.filter fun p => !keep wanted p).map Prod.snd }

/-- One round of the loop: a probe whose id does not run is started. -/
def Probes.spawn (s : Probes) (task : PingTask) : Probes :=
  if s.running.any fun p => p.1.id = task.id then s
  else { s with running := s.running ++ [(task, s.next)], next := s.next + 1 }

/-- `respawn_ping_tasks`. -/
def Probes.respawn (s : Probes) (wanted : List PingTask) : Probes :=
  let wanted := if wanted.length > maxPingTasks then wanted.take maxPingTasks else wanted
  wanted.foldl Probes.spawn (s.retain wanted)

/-- A session after some pushes. -/
def run (pushes : List (List PingTask)) : Probes := pushes.foldl Probes.respawn .start

/-! ## What a session keeps -/

/-- Every id runs once, and handles are neither given twice nor run on once aborted. -/
structure Orderly (s : Probes) : Prop where
  /-- No probe runs twice. -/
  ids : (s.running.map fun p => p.1.id).Nodup
  /-- Every handle was given. -/
  handles : ∀ p ∈ s.running, p.2 < s.next
  /-- None was given twice. -/
  distinct : (s.running.map Prod.snd).Nodup
  /-- What was aborted does not run. -/
  aborted : ∀ h ∈ s.aborted, h < s.next ∧ ∀ p ∈ s.running, p.2 ≠ h

/-- What is kept is wanted as it is. -/
theorem keep_iff {wanted : List PingTask} {p : PingTask × Nat} :
    keep wanted p = true ↔ p.1 ∈ wanted := by
  unfold keep
  rw [List.any_eq_true]
  constructor
  · rintro ⟨w, hw, hsame⟩
    obtain ⟨hid, htarget, hinterval⟩ := of_decide_eq_true hsame
    have heq : w = p.1 := by
      obtain ⟨⟨id, target, interval⟩, handle⟩ := p
      obtain ⟨id', target', interval'⟩ := w
      dsimp only at hid htarget hinterval
      rw [hid, htarget, hinterval]
    rwa [← heq]
  · intro hmem
    exact ⟨p.1, hmem, decide_eq_true ⟨rfl, rfl, rfl⟩⟩

/-- The list that is acted on is its beginning. -/
theorem respawn_eq (s : Probes) (wanted : List PingTask) :
    s.respawn wanted = (wanted.take maxPingTasks).foldl Probes.spawn
      (s.retain (wanted.take maxPingTasks)) := by
  unfold Probes.respawn
  dsimp only
  split
  · rfl
  · rename_i hshort
    rw [List.take_of_length_le (Nat.not_lt.mp hshort)]

/-- Aborting what is not wanted. -/
theorem Orderly.retain {s : Probes} (h : Orderly s) (wanted : List PingTask) :
    Orderly (s.retain wanted) := by
  have hsub : (s.running.filter (keep wanted)).Sublist s.running := List.filter_sublist
  refine ⟨h.ids.sublist (hsub.map _), fun p hp => h.handles p (hsub.subset hp),
    h.distinct.sublist (hsub.map _), ?_⟩
  intro handle hhandle
  rcases List.mem_append.mp hhandle with hhandle | hhandle
  · obtain ⟨hlt, hne⟩ := h.aborted handle hhandle
    exact ⟨hlt, fun p hp => hne p (hsub.subset hp)⟩
  · obtain ⟨q, hq, rfl⟩ := List.mem_map.mp hhandle
    obtain ⟨hmem, hdropped⟩ := List.mem_filter.mp hq
    refine ⟨h.handles q hmem, ?_⟩
    intro p hp heq
    obtain ⟨hp, hkept⟩ := List.mem_filter.mp hp
    have hsame : p = q := List.inj_on_of_nodup_map h.distinct hp hmem heq
    rw [hsame] at hkept
    rw [hkept] at hdropped
    cases hdropped

/-- Whether a probe runs already. -/
theorem any_id_iff {s : Probes} {task : PingTask} :
    (s.running.any fun p => p.1.id = task.id) = true ↔
      task.id ∈ s.running.map fun p => p.1.id := by
  rw [List.any_eq_true, List.mem_map]
  simp only [decide_eq_true_eq]

/-- Starting a probe that does not run. -/
theorem Orderly.spawn {s : Probes} (h : Orderly s) (task : PingTask) : Orderly (s.spawn task) := by
  unfold Probes.spawn
  split
  · exact h
  · rename_i hnew
    rw [any_id_iff] at hnew
    have hfresh : s.next ∉ s.running.map Prod.snd := by
      intro hmem
      obtain ⟨p, hp, heq⟩ := List.mem_map.mp hmem
      have hlt := h.handles p hp
      omega
    have hmem : ∀ p ∈ s.running ++ [(task, s.next)], p ∈ s.running ∨ p = (task, s.next) := by
      intro p hp
      rcases List.mem_append.mp hp with hp | hp
      · exact .inl hp
      · exact .inr (List.mem_singleton.mp hp)
    refine ⟨?_, ?_, ?_, ?_⟩
    · rw [List.map_append]
      exact h.ids.append (List.nodup_singleton _) (List.disjoint_singleton.mpr hnew)
    · intro p hp
      rcases hmem p hp with hp | rfl
      · exact Nat.lt_succ_of_lt (h.handles p hp)
      · exact Nat.lt_succ_self _
    · rw [List.map_append]
      exact h.distinct.append (List.nodup_singleton _) (List.disjoint_singleton.mpr hfresh)
    · intro handle hhandle
      obtain ⟨hlt, hne⟩ := h.aborted handle hhandle
      refine ⟨Nat.lt_succ_of_lt hlt, ?_⟩
      intro p hp
      rcases hmem p hp with hp | rfl
      · exact hne p hp
      · exact Nat.ne_of_gt hlt

/-! ## The loop over the list -/

/-- What starting the missing probes does. -/
structure Started (s s' : Probes) (tasks : List PingTask) : Prop where
  /-- In order. -/
  orderly : Orderly s'
  /-- What ran runs on. -/
  kept : ∀ p ∈ s.running, p ∈ s'.running
  /-- What runs now ran before or is wanted. -/
  origin : ∀ p ∈ s'.running, p ∈ s.running ∨ p.1 ∈ tasks
  /-- Everything wanted runs. -/
  covered : ∀ t ∈ tasks, ∃ p ∈ s'.running, p.1.id = t.id
  /-- Nothing is aborted. -/
  aborted : s'.aborted = s.aborted

/-- Starting one probe. -/
theorem started_spawn {s : Probes} (h : Orderly s) (task : PingTask) :
    Started s (s.spawn task) [task] := by
  have horderly := h.spawn task
  by_cases hruns : (s.running.any fun p => p.1.id = task.id) = true
  · have hsame : s.spawn task = s := if_pos hruns
    rw [hsame]
    refine ⟨h, fun _ hp => hp, fun _ hp => .inl hp, ?_, rfl⟩
    intro t ht
    rw [List.mem_singleton] at ht
    rw [ht]
    exact List.mem_map.mp (any_id_iff.mp hruns)
  · have hadded : (s.spawn task).running = s.running ++ [(task, s.next)] := by
      unfold Probes.spawn
      rw [if_neg hruns]
    have haborted : (s.spawn task).aborted = s.aborted := by
      unfold Probes.spawn
      rw [if_neg hruns]
    refine ⟨horderly, ?_, ?_, ?_, haborted⟩
    · intro p hp
      rw [hadded]
      exact List.mem_append_left _ hp
    · intro p hp
      rw [hadded] at hp
      rcases List.mem_append.mp hp with hp | hp
      · exact .inl hp
      · rw [List.mem_singleton] at hp
        rw [hp]
        exact .inr List.mem_cons_self
    · intro t ht
      rw [List.mem_singleton] at ht
      rw [ht, hadded]
      exact ⟨_, List.mem_append_right _ List.mem_cons_self, rfl⟩

/-- Starting several. -/
theorem started_foldl {s : Probes} (h : Orderly s) (tasks : List PingTask) :
    Started s (tasks.foldl Probes.spawn s) tasks := by
  induction tasks generalizing s with
  | nil => exact ⟨h, fun _ hp => hp, fun _ hp => .inl hp, fun _ ht => (by cases ht), rfl⟩
  | cons task rest ih =>
    have hone := started_spawn h task
    have hmore := ih hone.orderly
    rw [List.foldl_cons]
    refine ⟨hmore.orderly, fun p hp => hmore.kept p (hone.kept p hp), ?_, ?_,
      hmore.aborted.trans hone.aborted⟩
    · intro p hp
      rcases hmore.origin p hp with hp | hp
      · rcases hone.origin p hp with hp | hp
        · exact .inl hp
        · rw [List.mem_singleton] at hp
          rw [hp]
          exact .inr List.mem_cons_self
      · exact .inr (List.mem_cons_of_mem task hp)
    · intro t ht
      rcases List.mem_cons.mp ht with rfl | ht
      · obtain ⟨p, hp, hid⟩ := hone.covered t List.mem_cons_self
        exact ⟨p, hmore.kept p hp, hid⟩
      · exact hmore.covered t ht

/-- Starting those that are wanted. -/
theorem started_respawn {s : Probes} (h : Orderly s) (wanted : List PingTask) :
    Started (s.retain (wanted.take maxPingTasks)) (s.respawn wanted) (wanted.take maxPingTasks) := by
  rw [respawn_eq]
  exact started_foldl (h.retain _) _

/-- Nothing runs at first. -/
theorem start_orderly : Orderly .start :=
  ⟨List.nodup_nil, fun _ h => (by cases h), List.nodup_nil, fun _ h => (by cases h)⟩

/-- Every reachable set of probes is orderly. -/
theorem run_orderly (pushes : List (List PingTask)) : Orderly (run pushes) := by
  have hfold : ∀ {s : Probes}, Orderly s → Orderly (pushes.foldl Probes.respawn s) := by
    induction pushes with
    | nil => exact fun h => h
    | cons wanted rest ih => exact fun h => ih (started_respawn h wanted).orderly
  exact hfold start_orderly

/-- After a push every running probe is on the part of the list that counts. -/
theorem runs_wanted {s : Probes} (h : Orderly s) {wanted : List PingTask} {p : PingTask × Nat}
    (hp : p ∈ (s.respawn wanted).running) : p.1 ∈ wanted.take maxPingTasks := by
  rcases (started_respawn h wanted).origin p hp with hp | hp
  · exact keep_iff.mp (List.mem_filter.mp hp).2
  · exact hp

/-- With distinct ids the probes that run are those of the list. -/
theorem runs_iff {s : Probes} (h : Orderly s) {wanted : List PingTask}
    (hids : (wanted.map PingTask.id).Nodup) (t : PingTask) :
    (∃ handle, (t, handle) ∈ (s.respawn wanted).running) ↔ t ∈ wanted.take maxPingTasks := by
  constructor
  · rintro ⟨handle, hp⟩
    exact runs_wanted h hp
  · intro ht
    obtain ⟨p, hp, hid⟩ := (started_respawn h wanted).covered t ht
    have hsub : (wanted.take maxPingTasks).Sublist wanted := List.take_sublist _ _
    have hsame : p.1 = t := List.inj_on_of_nodup_map hids (hsub.subset (runs_wanted h hp))
      (hsub.subset ht) hid
    rw [← hsame]
    exact ⟨p.2, hp⟩

/-- What a push leaves running, whatever ran before and whatever is on the list. -/
theorem agent_runs_list (pushes : List (List PingTask)) (wanted : List PingTask) :
    let before := run pushes
    let after := run (pushes ++ [wanted])
    after.running.length ≤ maxPingTasks ∧
      (after.running.map fun p => p.1.id).Nodup ∧
      (∀ p ∈ after.running, p.1 ∈ wanted ∧ p.2 ∉ after.aborted) ∧
      ((wanted.map PingTask.id).Nodup →
        (∀ t, (∃ handle, (t, handle) ∈ after.running) ↔ t ∈ wanted.take maxPingTasks) ∧
        (∀ p ∈ before.running, p.1 ∈ wanted.take maxPingTasks → p ∈ after.running) ∧
        (∀ p ∈ before.running, p.1 ∉ wanted.take maxPingTasks → p.2 ∈ after.aborted) ∧
        ∀ others : List (List PingTask),
          (after.running.map Prod.fst).Perm ((run (others ++ [wanted])).running.map Prod.fst)) := by
  dsimp only
  have hrun : ∀ others : List (List PingTask),
      run (others ++ [wanted]) = (run others).respawn wanted := by
    intro others
    rw [run, List.foldl_append]
    rfl
  rw [hrun]
  have horderly := run_orderly pushes
  have hafter := started_respawn horderly wanted
  have hnodup : ∀ others, ((run others).respawn wanted).running.map Prod.fst |>.Nodup := by
    intro others
    have hids := (started_respawn (run_orderly others) wanted).orderly.ids
    refine List.Nodup.of_map PingTask.id ?_
    rwa [List.map_map]
  refine ⟨?_, hafter.orderly.ids, ?_, ?_⟩
  · -- The tasks that run are different entries of a list no longer than the ceiling.
    have hsub : (((run pushes).respawn wanted).running.map Prod.fst).Subperm
        (wanted.take maxPingTasks) := by
      refine List.subperm_of_subset (hnodup pushes) ?_
      intro t ht
      obtain ⟨p, hp, rfl⟩ := List.mem_map.mp ht
      exact runs_wanted horderly hp
    have hlength := hsub.length_le
    rw [List.length_map] at hlength
    exact Nat.le_trans hlength (List.length_take_le _ _)
  · intro p hp
    refine ⟨List.mem_of_mem_take (runs_wanted horderly hp), ?_⟩
    intro haborted
    exact (hafter.orderly.aborted _ haborted).2 p hp rfl
  · intro hids
    refine ⟨runs_iff horderly hids, ?_, ?_, ?_⟩
    · intro p hp hmem
      exact hafter.kept p (List.mem_filter.mpr ⟨hp, keep_iff.mpr hmem⟩)
    · intro p hp hmem
      rw [hafter.aborted]
      refine List.mem_append_right _ (List.mem_map_of_mem (List.mem_filter.mpr ⟨hp, ?_⟩))
      rw [Bool.not_eq_true', ← Bool.not_eq_true, keep_iff]
      exact hmem
    · intro others
      rw [hrun]
      refine (List.perm_ext_iff_of_nodup (hnodup pushes) (hnodup others)).mpr ?_
      intro t
      have hmem : ∀ others : List (List PingTask),
          t ∈ ((run others).respawn wanted).running.map Prod.fst ↔
            t ∈ wanted.take maxPingTasks := by
        intro others
        rw [← runs_iff (run_orderly others) hids t, List.mem_map]
        constructor
        · rintro ⟨p, hp, rfl⟩
          exact ⟨p.2, hp⟩
        · rintro ⟨handle, hp⟩
          exact ⟨_, hp, rfl⟩
      rw [hmem pushes, hmem others]

example : (run [[⟨1, "a:1", 60⟩, ⟨2, "b:2", 60⟩], [⟨1, "a:1", 60⟩, ⟨2, "c:3", 60⟩]]).running =
    [(⟨1, "a:1", 60⟩, 0), (⟨2, "c:3", 60⟩, 2)] := by decide

end Romi.AgentProbes
