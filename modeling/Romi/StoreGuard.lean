import Romi.StoreSchema

/-!
# The writer's relationship cache

The guard mirrors the small relations the hot-path writes are checked
against. Nodes and assignments are exact; the newest stamp of a key is an
upper bound for the stamps stored under it, which is all that deciding
between a plain insert and a delete before it needs.
-/

namespace Romi.StoreGuard

open KeyedTable StoreSchema

/-- What the writer knows without a query. -/
structure Guard where
  /-- Ids of the existing nodes. -/
  nodes : Finset Int
  /-- Every (node, task) assignment. -/
  assignments : Finset (Int × Int)
  /-- The newest minute a metric row was written for, by node. -/
  minutes : Int → Option Int
  /-- The newest stamp a probe result was filed for, by (node, task). -/
  stamps : Int × Int → Option Int

/-- MAX over a column, null when there is no row. -/
def newest (stamps : Finset Int) : Option Int := stamps.max

/-- Largest stamp of a set bounds each of its stamps. -/
theorem newest_bound {stamps : Finset Int} {ts : Int} (h : ts ∈ stamps) :
    ∃ m, newest stamps = some m ∧ ts ≤ m := by
  obtain ⟨m, hm⟩ := Finset.max_of_mem h
  exact ⟨m, hm, Finset.le_max_of_eq h hm⟩

namespace Guard

/-- `Guard::load`: rebuilds the cache from the database. -/
def load (db : Store) : Guard where
  nodes := db.node.rows.image NodeRow.id
  assignments := db.pingNode.rows.image fun r => (r.nodeId, r.taskId)
  minutes n := newest ((db.metric.rows.filter fun r => r.nodeId = n).image MetricRow.ts)
  stamps k := newest
    ((db.pingRecord.rows.filter fun r => (r.nodeId, r.taskId) = k).image PingRecordRow.ts)

/-- `forget_task`: drops everything about one task's assignments. -/
def forgetTask (g : Guard) (taskId : Int) : Guard :=
  { g with
    assignments := g.assignments.filter fun a => a.2 ≠ taskId
    stamps := fun k => if k.2 = taskId then none else g.stamps k }

/-- `forget_node`: drops everything about one node. -/
def forgetNode (g : Guard) (nodeId : Int) : Guard where
  nodes := g.nodes.erase nodeId
  assignments := g.assignments.filter fun a => a.1 ≠ nodeId
  minutes := fun n => if n = nodeId then none else g.minutes n
  stamps := fun k => if k.1 = nodeId then none else g.stamps k

/-- `entry(..).or_insert(ts)` followed by taking the maximum. -/
def raised (old : Option Int) (ts : Int) : Option Int :=
  match old with
  | none => some ts
  | some m => some (max m ts)

/-- Records a minute that has just been written. -/
def raiseMinute (g : Guard) (nodeId ts : Int) : Guard :=
  { g with minutes := fun n => if n = nodeId then raised (g.minutes n) ts else g.minutes n }

/-- Records a probe stamp that has just been filed. -/
def raiseStamp (g : Guard) (key : Int × Int) (ts : Int) : Guard :=
  { g with stamps := fun k => if k = key then raised (g.stamps k) ts else g.stamps k }

/-- Whether the newest recorded stamp is at or after `ts`, which is when the
row may already exist and is deleted before the insert. -/
def mayExist (newest : Option Int) (ts : Int) : Bool :=
  match newest with
  | none => false
  | some m => ts ≤ m

/-- `ts` is at or before the recorded stamp. -/
def Covers (recorded : Option Int) (ts : Int) : Prop := ∃ m, recorded = some m ∧ ts ≤ m

/-- The guard asks whether the time is covered. -/
theorem mayExist_iff {recorded : Option Int} {ts : Int} :
    mayExist recorded ts = true ↔ Covers recorded ts := by
  cases recorded with
  | none => simp [mayExist, Covers]
  | some m => simp [mayExist, Covers]

/-- A raised mark covers what the old one did, and the new time. -/
theorem covers_raised {old : Option Int} {ts s : Int} (h : Covers old s ∨ s = ts) :
    Covers (raised old ts) s := by
  cases old with
  | none =>
    rcases h with ⟨m, hm, -⟩ | rfl
    · cases hm
    · exact ⟨s, rfl, le_rfl⟩
  | some m =>
    rcases h with ⟨n, hn, hs⟩ | rfl
    · cases hn
      exact ⟨max m ts, rfl, hs.trans (le_max_left _ _)⟩
    · exact ⟨max m s, rfl, le_max_right _ _⟩

/-- The cache agrees with the database as far as any write relies on it. -/
structure Coherent (db : Store) (g : Guard) : Prop where
  /-- The known nodes are exactly the node rows. -/
  nodes : ∀ n, n ∈ g.nodes ↔ db.node.Has n
  /-- The known assignments are exactly the assignment rows. -/
  assignments : ∀ n t, (n, t) ∈ g.assignments ↔ db.pingNode.Has (t, n)
  /-- No metric row is newer than its node's recorded minute. -/
  minutes : ∀ r ∈ db.metric.rows, Covers (g.minutes r.nodeId) r.ts
  /-- No probe row is newer than its pair's recorded stamp. -/
  stamps : ∀ r ∈ db.pingRecord.rows, Covers (g.stamps (r.nodeId, r.taskId)) r.ts

/-- A rebuilt cache is coherent with what it was built from. -/
theorem load_coherent (db : Store) : Coherent db (load db) where
  nodes n := by
    simp only [load, Finset.mem_image]
    exact Iff.rfl
  assignments n t := by
    simp only [load, Finset.mem_image, Prod.mk.injEq]
    constructor
    · rintro ⟨r, hr, rfl, rfl⟩
      exact ⟨r, hr, rfl⟩
    · rintro ⟨r, hr, hk⟩
      have hk' := Prod.mk.inj hk
      exact ⟨r, hr, hk'.2, hk'.1⟩
  minutes r hr :=
    newest_bound (Finset.mem_image_of_mem _ (Finset.mem_filter.mpr ⟨hr, rfl⟩))
  stamps r hr :=
    newest_bound (Finset.mem_image_of_mem _ (Finset.mem_filter.mpr ⟨hr, rfl⟩))

/-- A cache stays coherent when its four relations stay as they are or,
for the two histories, only lose rows. -/
theorem Coherent.of_subset {db db' : Store} {g : Guard} (h : Coherent db g)
    (hn : ∀ n, db'.node.Has n ↔ db.node.Has n) (ha : db'.pingNode = db.pingNode)
    (hm : db'.metric.rows ⊆ db.metric.rows) (hp : db'.pingRecord.rows ⊆ db.pingRecord.rows) :
    Coherent db' g where
  nodes n := (h.nodes n).trans (hn n).symm
  assignments n t := by
    rw [ha]
    exact h.assignments n t
  minutes r hr := h.minutes r (hm hr)
  stamps r hr := h.stamps r (hp hr)

/-- One cache knows at least the stamps of another and the same relations. -/
structure Raises (g g' : Guard) : Prop where
  /-- The same nodes. -/
  nodes : g'.nodes = g.nodes
  /-- The same assignments. -/
  assignments : g'.assignments = g.assignments
  /-- Every recorded minute is still covered. -/
  minutes : ∀ n ts, Covers (g.minutes n) ts → Covers (g'.minutes n) ts
  /-- Every recorded stamp is still covered. -/
  stamps : ∀ k ts, Covers (g.stamps k) ts → Covers (g'.stamps k) ts

/-- Nothing raised. -/
theorem Raises.refl (g : Guard) : Raises g g := ⟨rfl, rfl, fun _ _ h => h, fun _ _ h => h⟩

/-- One after the other. -/
theorem Raises.trans {g g' g'' : Guard} (h : Raises g g') (h' : Raises g' g'') : Raises g g'' :=
  ⟨h'.nodes.trans h.nodes, h'.assignments.trans h.assignments,
    fun n ts hc => h'.minutes n ts (h.minutes n ts hc),
    fun k ts hc => h'.stamps k ts (h.stamps k ts hc)⟩

/-- Recording more than the database holds never breaks coherence, which is
why a rolled-back insert may leave its stamp behind. -/
theorem Coherent.raises {db : Store} {g g' : Guard} (h : Coherent db g) (hr : Raises g g') :
    Coherent db g' where
  nodes n := by
    rw [hr.nodes]
    exact h.nodes n
  assignments n t := by
    rw [hr.assignments]
    exact h.assignments n t
  minutes r hm := hr.minutes _ _ (h.minutes r hm)
  stamps r hp := hr.stamps _ _ (h.stamps r hp)

/-- The mark of a minute. -/
theorem raises_raiseMinute (g : Guard) (nodeId ts : Int) : Raises g (g.raiseMinute nodeId ts) := by
  refine ⟨rfl, rfl, ?_, fun _ _ h => h⟩
  intro n s h
  simp only [raiseMinute]
  split
  · exact covers_raised (.inl h)
  · exact h

/-- The mark of a probe. -/
theorem raises_raiseStamp (g : Guard) (key : Int × Int) (ts : Int) :
    Raises g (g.raiseStamp key ts) := by
  refine ⟨rfl, rfl, fun _ _ h => h, ?_⟩
  intro k s h
  simp only [raiseStamp]
  split
  · exact covers_raised (.inl h)
  · exact h

end Guard

end Romi.StoreGuard
