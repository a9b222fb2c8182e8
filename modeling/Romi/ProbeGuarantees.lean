import Romi.ProbeConvergence

/-!
# What an agent is left with after edits of its probes

With the queues in the order of the reads every agent ends up with the current
list; two handlers that cross leave it with the older one for good.
-/

namespace Romi.ProbeGuarantees

open CachedTransactions KeyedTable ProbeConvergence ProbePushes StoreAnswers StoreGuard StoreJobs
  StoreOperations StoreSchema

variable {host : Host} {s s' : State}

/-! ## Steps that are orderly -/

/-- The other handlers stand still. -/
theorem handler_other {i j : Nat} (h : HandlerStep host s j s') (hne : i ≠ j) :
    s'.handler i = s.handler i := by
  cases h <;> exact Function.update_of_ne hne _ _

/-- A handler's step is orderly when the list it queues is the latest. -/
theorem orderly_handles (h : OrderlyRun host s) {j : Nat} (hstep : HandlerStep host s j s')
    (hlatest : ∀ a m rest, s.handler j = .loaded a m rest →
      m.read = true ∧ ∀ m' ∈ (s.box a.2).handed, m'.version ≤ m.version) : OrderlyRun host s' := by
  refine h.step (.handler j _ hstep) ⟨?_, ?_⟩
  · intro i a m rest hat hto _
    by_cases hi : i = j
    · rw [hi] at hat
      exact hlatest a m rest hat
    · rw [handler_other hstep hi, hat] at hto
      cases hto
  · intro σ m hnot hm
    have hsame : s'.phase = s.phase := by cases hstep <;> rfl
    rw [hsame] at hm
    exact absurd hm hnot

/-- A session's turn is, when its greeting was read. -/
theorem orderly_turns (h : OrderlyRun host s) {σ : Nat} (hstep : SessionStep s σ s')
    (hread : ∀ m, s'.phase σ = .greeting m → m.read = true) : OrderlyRun host s' := by
  refine h.step (.session σ _ hstep) ⟨?_, ?_⟩
  · intro i a m rest hat hto _
    have hsame : s'.handler = s.handler := by cases hstep <;> rfl
    rw [hsame, hat] at hto
    cases hto
  · intro τ m hnot hm
    by_cases hτ : τ = σ
    · rw [hτ] at hm
      exact hread m hm
    · have hsame : s'.phase τ = s.phase τ := by
        cases hstep with
        | sent hat hmore => rfl
        | _ => exact Function.update_of_ne hτ _ _
      rw [hsame] at hm
      exact absurd hm hnot

/-- An agent can connect at any time. -/
theorem orderly_installs (h : OrderlyRun host s) (n : Int) :
    ∃ s', OrderlyRun host s' ∧ s' = { s with
      agents := (n, s.next) :: without n s.agents
      next := s.next + 1
      node := Function.update s.node s.next n
      phase := Function.update s.phase s.next .activated
      box := Function.update s.box s.next ⟨none, [], 0⟩
      born := Function.update s.born s.next s.version } := by
  refine ⟨_, h.step (.installed n) ⟨?_, ?_⟩, rfl⟩
  · intro i a m rest hat hto _
    rw [hat] at hto
    cases hto
  · intro σ m hnot hm
    change Function.update s.phase s.next .activated σ = _ at hm
    by_cases hσ : σ = s.next
    · rw [hσ, Function.update_self] at hm
      cases hm
    · rw [Function.update_of_ne hσ] at hm
      exact absurd hm hnot

/-! ## Two deletions -/

/-- A hub that keeps tokens as they are. -/
def tokenHost : Host := ⟨fun token => token, fun _ => none⟩

/-- Two probes of one node. -/
def probeStore : Store :=
  { Store.blank with
    pingTask := ((Table.empty PingTaskRow.id).put ⟨1, "one", "192.0.2.1:80", 60⟩).put
      ⟨2, "two", "192.0.2.2:80", 60⟩
    pingNode := ((Table.empty PingNodeRow.key).put ⟨1, 1⟩).put ⟨2, 1⟩ }

/-- The store without a probe. -/
def withoutTask (id : Int) (db : Store) : Store := (taskSweep id).foldl (fun db f => f db) db

/-- Deleting a probe, as the writer runs it. -/
theorem deletePingTask_ran (host : Host) (id : Int) (db : Store) :
    Ran host (Edit.delete id).solo db (.ok .nothing) (withoutTask id db) := by
  have hjob : ∀ g, (Solo.deletePingTask id).job host (willing db g) =
      (.ok .nothing, willing (withoutTask id db) (g.forgetTask id)) :=
    fun g => bind_run (commitThen_run (executeAll_run (taskSweep id) db g))
  exact willing_ran (hjob ⟨∅, ∅, fun _ => none, fun _ => none⟩)

/-- What the first deletion leaves on the list. -/
theorem first_left : ⟨1, "192.0.2.1:80", 60⟩ ∈ pingTasksFor (withoutTask 2 probeStore) 1 := by
  refine mem_pingTasksFor.mpr ⟨⟨1, "one", "192.0.2.1:80", 60⟩, ?_, ?_, rfl⟩
  · refine Table.mem_deleteWhere.mpr ⟨?_, by decide⟩
    exact Table.mem_put.mpr (.inr ⟨Table.mem_put.mpr (.inl rfl), by decide⟩)
  · refine ⟨⟨1, 1⟩, Table.mem_deleteWhere.mpr ⟨?_, by decide⟩, rfl⟩
    exact Table.mem_put.mpr (.inr ⟨Table.mem_put.mpr (.inl rfl), by decide⟩)

/-- The second leaves nothing of it. -/
theorem first_gone (db : Store) (n : Int) (p : Probe) (hp : p.id = 1) :
    p ∉ pingTasksFor (withoutTask 1 db) n := by
  intro hin
  obtain ⟨t, ht, -, rfl⟩ := mem_pingTasksFor.mp hin
  exact (Table.mem_deleteWhere.mp ht).2 hp

/-! ## The moves of a handler put together -/

/-- A handler has committed a deletion and read the list of the only session. -/
def deleted (s : State) (j : Nat) (id : Int) (a : Int × Nat) : State :=
  { s with
    db := withoutTask id s.db
    version := s.version + 1
    handler := Function.update s.handler j
      (.loaded a (pingTasksMessage (withoutTask id s.db) a.1 (s.version + 1) true) []) }

/-- It has put the list on the queue and is done. -/
def handedOver (s : State) (j : Nat) (a : Int × Nat) (m : Message) : State :=
  { s with
    box := Function.update s.box a.2 { s.box a.2 with handed := m :: (s.box a.2).handed }
    handler := Function.update s.handler j .finished }

/-- A deletion up to the reading of the list. -/
theorem orderly_deleted (h : OrderlyRun host s) {j : Nat} (id : Int) {a : Int × Nat}
    (hat : s.handler j = .absent) (hagents : s.agents = [a]) :
    OrderlyRun host (deleted s j id a) := by
  have hself : ∀ (f : Nat → Handler) x, Function.update f j x j = x :=
    fun f x => Function.update_self j x f
  have h₁ := orderly_handles h (.writing (.delete id) hat) (by
    rw [hat]
    nofun)
  have h₂ := orderly_handles h₁ (.committed _ _ _ (hself _ _) (deletePingTask_ran _ _ _)) (by
    intro b m rest hloaded
    cases (hself _ _).symm.trans hloaded)
  have h₃ := orderly_handles h₂ (.listed [a] (hself _ _) (by
    change [a].Perm s.agents
    rw [hagents])) (by
    intro b m rest hloaded
    cases (hself _ _).symm.trans hloaded)
  have h₄ := orderly_handles h₃ (.loaded a [] true (hself _ _)) (by
    intro b m rest hloaded
    cases (hself _ _).symm.trans hloaded)
  simp only [State.handlerTo, Function.update_idem] at h₄
  exact h₄

/-- The list goes onto the queue, in whatever order the reads were. -/
theorem reachable_handedOver (h : Reachable host s) {j : Nat} {a : Int × Nat} {m : Message}
    (hat : s.handler j = .loaded a m []) (hopen : s.phase a.2 ≠ .closed)
    (hroom : (s.box a.2).handed.length < (s.box a.2).gone + capacity) :
    Reachable host (handedOver s j a m) := by
  have h₁ := h.step (.handler j _ (.handed a m [] hat hopen hroom))
  have h₂ := h₁.step (.handler j _ (.finished (Function.update_self j _ s.handler)))
  simp only [State.handlerTo, State.boxTo, Function.update_idem] at h₂
  exact h₂

/-- It goes onto a queue that has only earlier ones. -/
theorem orderly_handedOver (h : OrderlyRun host s) {j : Nat} {a : Int × Nat} {m : Message}
    (hat : s.handler j = .loaded a m []) (hopen : s.phase a.2 ≠ .closed)
    (hroom : (s.box a.2).handed.length < (s.box a.2).gone + capacity) (hread : m.read = true)
    (hlatest : ∀ m' ∈ (s.box a.2).handed, m'.version ≤ m.version) :
    OrderlyRun host (handedOver s j a m) := by
  have h₁ := orderly_handles h (.handed a m [] hat hopen hroom) (by
    intro b m' rest hloaded
    cases hat.symm.trans hloaded
    exact ⟨hread, hlatest⟩)
  have h₂ := orderly_handles h₁ (.finished (Function.update_self j _ s.handler)) (by
    intro b m' rest hloaded
    cases (Function.update_self j _ s.handler).symm.trans hloaded)
  simp only [State.handlerTo, State.boxTo, Function.update_idem] at h₂
  exact h₂

/-- One agent is connected and was sent its first list. -/
def connected : State :=
  { State.start probeStore with
    agents := [(1, 0)]
    next := 1
    node := Function.update (fun _ => 0) 0 1
    phase := Function.update (fun _ => .unborn) 0 .looping
    box := Function.update (fun _ => ⟨none, [], 0⟩) 0
      ⟨some (pingTasksMessage probeStore 1 0 true), [], 0⟩
    born := Function.update (fun _ => 0) 0 0 }

/-- The run up to the connection is orderly. -/
theorem orderly_connected : OrderlyRun tokenHost connected := by
  have h₀ : OrderlyRun tokenHost (.start probeStore) := .start probeStore
  obtain ⟨s₁, h₁, rfl⟩ := orderly_installs h₀ 1
  have h₂ := orderly_turns h₁ (show SessionStep _ 0 _ from .greeting true rfl) (by
    intro m hm
    cases hm
    rfl)
  have h₃ := orderly_turns h₂ (show SessionStep _ 0 _ from .looping _ rfl) (by
    intro m hm
    cases hm)
  simp only [State.start, State.phaseTo, State.boxTo, Function.update_idem] at h₃
  exact h₃

/-! ## The last list an agent receives -/

/-- In every run in which no list failed to be read and each was put on its
queue after those read before it, once all handlers are done and all that was
queued is sent, every connected agent has the current list of its node. -/
theorem probe_lists_converge (h : OrderlyRun host s) (hquiet : Quiet s) : Converged s := by
  have hcarried := reachable_carried h.reachable
  intro a ha hlooping
  have hgone : (s.box a.2).gone = (s.box a.2).handed.length := by
    rcases hquiet.sessions a ha with hclosed | ⟨-, hgone⟩
    · rw [hlooping] at hclosed
      cases hclosed
    · exact hgone
  rw [delivered_last hgone]
  cases hlast : (s.box a.2).handed.head?.or (s.box a.2).greeting with
  | none => exact absurd (Option.or_eq_none_iff.mp hlast).2 (hcarried.greeted a.2 hlooping)
  | some m =>
    rw [Option.map_some, newest_current hcarried h.inOrder hquiet ha hlooping hlast]

/-- The agent after one deletion, put on its queue. -/
def deletedOnce : State :=
  handedOver (deleted connected 0 2 (1, 0)) 0 (1, 0)
    (pingTasksMessage (withoutTask 2 probeStore) 1 1 true)

/-- The agent has received the list as well. -/
def receivedOnce : State :=
  deletedOnce.boxTo 0 { deletedOnce.box 0 with gone := 1 }

/-- And up to the list the agent received. -/
theorem orderly_receivedOnce : OrderlyRun tokenHost receivedOnce := by
  have h₁ : OrderlyRun tokenHost (deleted connected 0 2 (1, 0)) :=
    orderly_deleted orderly_connected 2 rfl rfl
  have h₂ : OrderlyRun tokenHost deletedOnce :=
    orderly_handedOver h₁ rfl nofun (by decide) rfl nofun
  exact orderly_turns h₂ (.sent rfl (by decide)) nofun

/-- Nothing is left to send there. -/
theorem quiet_receivedOnce : Quiet receivedOnce := by
  refine ⟨?_, ?_⟩
  · intro j
    by_cases hj : j = 0
    · rw [hj]
      exact .inr rfl
    · exact .inl ((Function.update_of_ne hj _ _).trans (Function.update_of_ne hj _ _))
  · intro a ha
    cases List.mem_singleton.mp ha
    exact .inr ⟨rfl, rfl⟩

/-- A probe deleted while an agent is connected. -/
theorem probe_lists_converge_deleted : Converged receivedOnce :=
  probe_lists_converge orderly_receivedOnce quiet_receivedOnce

/-! ## Two handlers that cross -/

/-- The first handler has read its list, then the second one its own, which it
has put on the queue. -/
def overtaken : State :=
  handedOver (deleted (deleted connected 0 2 (1, 0)) 1 1 (1, 0)) 1 (1, 0)
    (pingTasksMessage (withoutTask 1 (withoutTask 2 probeStore)) 1 2 true)

/-- Then the first one comes with the older list. -/
def crossed : State :=
  handedOver overtaken 0 (1, 0) (pingTasksMessage (withoutTask 2 probeStore) 1 1 true)

/-- The session sends both. -/
def receivedBoth : State :=
  (crossed.boxTo 0 { crossed.box 0 with gone := 1 }).boxTo 0 { crossed.box 0 with gone := 2 }

/-- The run in which one push overtakes another. -/
theorem reachable_overtaken : Reachable tokenHost overtaken := by
  have h₁ : OrderlyRun tokenHost (deleted connected 0 2 (1, 0)) :=
    orderly_deleted orderly_connected 2 rfl rfl
  have h₂ : OrderlyRun tokenHost (deleted (deleted connected 0 2 (1, 0)) 1 1 (1, 0)) :=
    orderly_deleted h₁ 1 rfl rfl
  exact reachable_handedOver h₂.reachable rfl nofun (by decide)

/-- Which goes on until both lists are received. -/
theorem reachable_receivedBoth : Reachable tokenHost receivedBoth := by
  have h₁ : Reachable tokenHost crossed :=
    reachable_handedOver reachable_overtaken rfl nofun (by decide)
  have h₂ : Reachable tokenHost (crossed.boxTo 0 { crossed.box 0 with gone := 1 }) :=
    h₁.step (.session 0 _ (.sent rfl (by decide)))
  exact h₂.step (.session 0 _ (.sent rfl (by decide)))

/-- Then it is quiet, on the wrong list. -/
theorem quiet_receivedBoth : Quiet receivedBoth := by
  refine ⟨?_, ?_⟩
  · intro j
    by_cases hj : j = 0
    · rw [hj]
      exact .inr rfl
    · by_cases hj' : j = 1
      · rw [hj']
        exact .inr rfl
      · refine .inl ?_
        have hthird : receivedBoth.handler j = connected.handler j := by
          change Function.update (Function.update (Function.update
            (Function.update connected.handler 0 _) 1 _) 1 _) 0 _ j = _
          simp only [Function.update_of_ne hj, Function.update_of_ne hj']
        exact hthird
  · intro a ha
    cases List.mem_singleton.mp ha
    exact .inr ⟨rfl, rfl⟩

/-- Two deletions cross: the agent is left with a probe that is gone. -/
theorem deleted_probe_delivered_last :
    ∃ s : State, Reachable tokenHost s ∧ Quiet s ∧ ¬ Converged s := by
  refine ⟨receivedBoth, reachable_receivedBoth, quiet_receivedBoth, ?_⟩
  intro hconverged
  have hlists := Option.some.inj (hconverged (1, 0) List.mem_cons_self rfl)
  change pingTasksFor (withoutTask 2 probeStore) 1 =
    pingTasksFor (withoutTask 1 (withoutTask 2 probeStore)) 1 at hlists
  refine first_gone (withoutTask 2 probeStore) 1 ⟨1, "192.0.2.1:80", 60⟩ rfl ?_
  rw [← hlists]
  exact first_left

end Romi.ProbeGuarantees
