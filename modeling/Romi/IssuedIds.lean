import Romi.SavedProbes

/-!
# Ids come from counters that only grow

Nodes and probes get their ids from two rows of `romi_id`. Whatever a write
does and wherever it breaks off, no counter falls and every row it leaves has
an id behind its counter.
-/

namespace Romi.IssuedIds

open CachedTransactions CachedTransactions.Job KeyedTable NodeContinuity SavedProbes StoreAnswers
  StoreAreas StoreGuard StoreInvariant StoreJobs StoreOperations StoreSchema

/-- A table whose rows get their id from a counter. -/
inductive IdSource
  | node | pingTask
  deriving DecidableEq

/-- Its entry in `ID_SOURCES`. -/
def IdSource.name : IdSource → String
  | .node => "node"
  | .pingTask => "ping_task"

/-- The counter of the source has passed this id. -/
def Passed (db : Store) (source : IdSource) (n : Int) : Prop :=
  ∃ c ∈ db.romiId.rows, c.name = source.name ∧ n < c.next

/-- The ids in use. -/
def presentIds (db : Store) : IdSource → Finset Int
  | .node => db.node.rows.image NodeRow.id
  | .pingTask => db.pingTask.rows.image PingTaskRow.id

/-- The ids that are there are those of nodes. -/
theorem mem_presentIds_node {db : Store} {n : Int} :
    n ∈ presentIds db .node ↔ db.node.Has n := Finset.mem_image

/-- Or those of probes. -/
theorem mem_presentIds_pingTask {db : Store} {n : Int} :
    n ∈ presentIds db .pingTask ↔ db.pingTask.Has n := Finset.mem_image

/-- From the first store to the second no id was dropped by the counter of the
source and none came into use ahead of it. -/
structure AdvancesOn (source : IdSource) (db db' : Store) : Prop where
  /-- What was passed stays passed. -/
  passed : ∀ n, Passed db source n → Passed db' source n
  /-- What is there was there or has been passed. -/
  present : ∀ n ∈ presentIds db' source, n ∈ presentIds db source ∨ Passed db' source n

/-- The same for both sources. -/
def Advances (db db' : Store) : Prop := ∀ source, AdvancesOn source db db'

/-- Nothing advances by nothing. -/
theorem AdvancesOn.refl (source : IdSource) (db : Store) : AdvancesOn source db db :=
  ⟨fun _ h => h, fun _ h => .inl h⟩

/-- One write after the other. -/
theorem AdvancesOn.trans {source : IdSource} {a b c : Store} (h : AdvancesOn source a b)
    (h' : AdvancesOn source b c) : AdvancesOn source a c := by
  refine ⟨fun n hn => h'.passed n (h.passed n hn), ?_⟩
  intro n hn
  rcases h'.present n hn with hn | hn
  · rcases h.present n hn with hn | hn
    · exact .inl hn
    · exact .inr (h'.passed n hn)
  · exact .inr hn

/-- Every row is behind its counter, and both counters exist. -/
structure Ahead (db : Store) : Prop where
  /-- There is a counter for each kind. -/
  seeded : ∀ source, ∃ n, Passed db source n
  /-- Every id that is there has been passed. -/
  rows : ∀ source, ∀ n ∈ presentIds db source, Passed db source n

/-- A write that advances keeps the counters ahead. -/
theorem Ahead.advance {db db' : Store} (h : Ahead db) (hadv : Advances db db') : Ahead db' := by
  refine ⟨?_, ?_⟩
  · intro source
    obtain ⟨n, hn⟩ := h.seeded source
    exact ⟨n, (hadv source).passed n hn⟩
  · intro source n hn
    rcases (hadv source).present n hn with hn | hn
    · exact (hadv source).passed n (h.rows source n hn)
    · exact hn

/-- An id the counter has passed is below the next one. -/
theorem passed_lt {db : Store} {source : IdSource} {next n : Int}
    (h : db.romiId.find? source.name = some ⟨source.name, next⟩) (hn : Passed db source n) :
    n < next := by
  obtain ⟨c, hc, hname, hlt⟩ := hn
  obtain ⟨hrow, -⟩ := Table.find?_eq_some.mp h
  have hsame : c = ⟨source.name, next⟩ := db.romiId.unique c hc _ hrow hname
  rw [hsame] at hlt
  exact hlt

/-- Handing out an id moves its counter past it. -/
theorem passed_next {db : Store} {source : IdSource} {next : Int}
    (h : db.romiId.find? source.name = some ⟨source.name, next⟩) :
    Passed (counted source.name db) source next := by
  obtain ⟨hrow, -⟩ := Table.find?_eq_some.mp h
  have hstep : stepped source.name ⟨source.name, next⟩ = ⟨source.name, next + 1⟩ := if_pos rfl
  refine ⟨_, mem_counted hrow, by rw [hstep], ?_⟩
  rw [hstep]
  exact Int.lt_add_one_of_le (le_refl _)

/-- Counting on passes more. -/
theorem passed_counted {db : Store} {name : String} {source : IdSource} {n : Int}
    (h : Passed db source n) : Passed (counted name db) source n := by
  obtain ⟨c, hc, hname, hlt⟩ := h
  obtain ⟨hsame, hle⟩ := stepped_le name c
  exact ⟨stepped name c, mem_counted hc, hsame.trans hname, lt_of_lt_of_le hlt hle⟩

/-! ## Nodes -/

/-- What a write does to node rows is an advance on nodes. -/
theorem advancesOn_node {t : Touches} {db db' : Store} (h : Continues t db db') :
    AdvancesOn .node db db' := by
  refine ⟨h.issued, ?_⟩
  intro n hn
  obtain ⟨r', hr', rfl⟩ := mem_presentIds_node.mp hn
  rcases h.rows r' hr' with ⟨r, hr, hkept⟩ | hnew
  · rw [hkept.id]
    exact .inl (mem_presentIds_node.mpr ⟨r, hr, rfl⟩)
  · exact .inr hnew.issued

/-! ## Probes -/

/-- Fewer probes, and the counters as they were. -/
theorem advancesOn_fewer {db db' : Store} (hids : db'.romiId = db.romiId)
    (htasks : ∀ n, db'.pingTask.Has n → db.pingTask.Has n) : AdvancesOn .pingTask db db' := by
  refine ⟨?_, ?_⟩
  · intro n hn
    unfold Passed at hn ⊢
    rwa [hids]
  · intro n hn
    exact .inl (mem_presentIds_pingTask.mpr (htasks n (mem_presentIds_pingTask.mp hn)))

/-- Writes about nodes are an advance on probes. -/
theorem advancesOn_bystanding : Bystanding (AdvancesOn .pingTask) where
  trans := AdvancesOn.trans
  aside h := by
    simp only [bystanders, Prod.mk.injEq] at h
    obtain ⟨-, -, htasks, -, hids⟩ := h
    refine advancesOn_fewer hids ?_
    intro n hn
    rwa [htasks] at hn
  counted _ _ := ⟨fun _ h => passed_counted h, fun _ h => .inl h⟩

/-- A save edits a probe that was there or files one under the next id. -/
theorem advancesOn_saved {t : PingTask} {id : Int} {db : Store} (h : FilesUnder t id db) :
    AdvancesOn .pingTask db (saved t id db) := by
  unfold FilesUnder at h
  unfold saved filed
  split at h
  · rename_i hold
    rw [if_pos hold]
    refine advancesOn_fewer rfl ?_
    intro n hn
    exact (Table.has_updateWhere (edited_id t)).mp hn
  · rename_i hnew
    rw [if_neg hnew]
    refine ⟨fun n hn => @passed_counted db "ping_task" .pingTask n hn, ?_⟩
    intro n hn
    rcases Table.has_put.mp (mem_presentIds_pingTask.mp hn) with rfl | hn
    · exact .inr (@passed_next db .pingTask _ h.1)
    · exact .inl (mem_presentIds_pingTask.mpr hn)

/-- Saving a probe advances. -/
theorem savePingTask_advances (db₀ : Store) (t : PingTask) :
    Keeps (AdvancesOn .pingTask db₀) (savePingTask t) := by
  refine Preserves.commitThen (savePingTaskBody_cacheKept t) ?_
  intro s id s' h hs
  obtain ⟨hsavable, hdb⟩ := savePingTaskBody_spec h
  rw [hdb]
  exact hs.trans (advancesOn_saved hsavable.files)

/-! ## Every write -/

/-- Every write of its own is an advance on probes, wherever it breaks off. -/
theorem solo_advances (host : Host) (db₀ : Store) (op : Solo) :
    Keeps (AdvancesOn .pingTask db₀) (op.job host) := by
  have houtside : ∀ {f : Store → Store} (g : Unit → Payload),
      (∀ db, (f db).romiId = db.romiId ∧ (f db).pingTask = db.pingTask) →
      Keeps (AdvancesOn .pingTask db₀) (boxed (execute f) g) := by
    intro f g hf
    refine boxed_preserves (Preserves.execute fun db _ h => h.trans ?_) _
    refine advancesOn_fewer (hf db).1 ?_
    intro n hn
    rwa [(hf db).2] at hn
  cases op with
  | set key value => exact houtside _ fun _ => ⟨rfl, rfl⟩
  | createSession tokenHash expiresAt => exact houtside _ fun _ => ⟨rfl, rfl⟩
  | dropSession tokenHash => exact houtside _ fun _ => ⟨rfl, rfl⟩
  | dropAllSessions => exact houtside _ fun _ => ⟨rfl, rfl⟩
  | expireSessions now => exact houtside _ fun _ => ⟨rfl, rfl⟩
  | deleteNode id =>
    refine boxed_preserves (Keeps.commitThen (Keeps.executeAll ?_) _) _
    intro f hf db h
    simp only [nodeSweep, List.mem_cons, List.not_mem_nil, or_false] at hf
    rcases hf with rfl | rfl | rfl | rfl | rfl | rfl | rfl <;>
      exact h.trans (advancesOn_fewer rfl fun _ hn => hn)
  | savePingTask t => exact boxed_preserves (savePingTask_advances db₀ t) _
  | deletePingTask id =>
    refine boxed_preserves (Keeps.commitThen (Keeps.executeAll ?_) _) _
    intro f hf db h
    simp only [taskSweep, List.mem_cons, List.not_mem_nil, or_false] at hf
    rcases hf with rfl | rfl | rfl | rfl
    · exact h.trans (advancesOn_fewer rfl fun _ hn => hn)
    · exact h.trans (advancesOn_fewer rfl fun _ hn => hn)
    · exact h.trans (advancesOn_fewer rfl fun _ hn => hn)
    · refine h.trans (advancesOn_fewer rfl ?_)
      rintro n ⟨r, hr, rfl⟩
      exact ⟨r, (Table.mem_deleteWhere.mp hr).1, rfl⟩
  | _ => exact solo_related advancesOn_bystanding host rfl

/-- However a write ends, no counter fell and no row is ahead of its counter
that was not before. -/
theorem ran_advances {host : Host} {op : Solo} {db db' : Store} {answer : Except Failure Payload}
    (h : Ran host op db answer db') : Advances db db' := by
  intro source
  cases source with
  | node => exact advancesOn_node (ran_continues h)
  | pingTask =>
    obtain ⟨session, rfl, rfl, -⟩ := h
    exact solo_advances host _ op session (.refl _ _)

/-- So does telemetry. -/
theorem telemetry_advances (host : Host) (op : Telemetry) (session : Session Store Guard) :
    Advances session.db (op.job host session).2.db := by
  intro source
  cases source with
  | node => exact advancesOn_node (telemetry_continues host _ op session (.refl _ _))
  | pingTask => exact telemetry_related advancesOn_bystanding host op session (.refl _ _)

end Romi.IssuedIds
