import Romi.StoreJobs
import Romi.StoreRelations

/-!
# Every job keeps the guard coherent and the tables related

What a table's rows refer to is collected once, so a job is judged by which
references it adds and which nodes and probes it removes. The flag of `Sound`
says whether the relationships are assumed beside coherence; coherence never
needs them, while the telemetry inserts need coherence to keep them.
-/

namespace Romi.StoreInvariant

open CachedTransactions HourlyRollup JsonValue KeyedTable StoreGuard StoreJobs StoreRelations
open StoreSchema TrafficFold CachedTransactions.Job StoreGuard.Guard

/-! ## References -/

/-- Some row other than a node's own refers to the node. -/
def NodeRef (db : Store) (n : Int) : Prop :=
  db.traffic.Has n ∨ (∃ r ∈ db.metric.rows, r.nodeId = n) ∨
    (∃ r ∈ db.metricHour.rows, r.nodeId = n) ∨ (∃ r ∈ db.pingHour.rows, r.nodeId = n) ∨
    (∃ r ∈ db.pingNode.rows, r.nodeId = n) ∨ ∃ r ∈ db.pingRecord.rows, r.nodeId = n

/-- Some row other than a probe's own refers to the probe. -/
def TaskRef (db : Store) (t : Int) : Prop :=
  (∃ r ∈ db.pingHour.rows, r.taskId = t) ∨ (∃ r ∈ db.pingNode.rows, r.taskId = t) ∨
    ∃ r ∈ db.pingRecord.rows, r.taskId = t

/-- The relationships as four facts about references. -/
theorem related_iff {db : Store} : Related db ↔
    (∀ n, NodeRef db n → db.node.Has n) ∧ (∀ t, TaskRef db t → db.pingTask.Has t) ∧
      (∀ n, db.node.Has n → db.traffic.Has n) ∧ db.TokensUnique := by
  constructor
  · intro h
    refine ⟨?_, ?_, ?_, h.tokens⟩
    · rintro n (⟨r, hr, rfl⟩ | ⟨r, hr, rfl⟩ | ⟨r, hr, rfl⟩ | ⟨r, hr, rfl⟩ | ⟨r, hr, rfl⟩ |
        ⟨r, hr, rfl⟩)
      · exact h.traffic r hr
      · exact h.metric r hr
      · exact h.metricHour r hr
      · exact h.pingHourNode r hr
      · exact h.pingNodeNode r hr
      · exact h.pingRecordNode r hr
    · rintro t (⟨r, hr, rfl⟩ | ⟨r, hr, rfl⟩ | ⟨r, hr, rfl⟩)
      · exact h.pingHourTask r hr
      · exact h.pingNodeTask r hr
      · exact h.pingRecordTask r hr
    · rintro n ⟨r, hr, rfl⟩
      exact h.counters r hr
  · rintro ⟨hn, ht, hc, htok⟩
    exact
      { traffic := fun r hr => hn _ (.inl ⟨r, hr, rfl⟩)
        metric := fun r hr => hn _ (.inr (.inl ⟨r, hr, rfl⟩))
        metricHour := fun r hr => hn _ (.inr (.inr (.inl ⟨r, hr, rfl⟩)))
        pingHourNode := fun r hr => hn _ (.inr (.inr (.inr (.inl ⟨r, hr, rfl⟩))))
        pingHourTask := fun r hr => ht _ (.inl ⟨r, hr, rfl⟩)
        pingNodeNode := fun r hr => hn _ (.inr (.inr (.inr (.inr (.inl ⟨r, hr, rfl⟩)))))
        pingNodeTask := fun r hr => ht _ (.inr (.inl ⟨r, hr, rfl⟩))
        pingRecordNode := fun r hr => hn _ (.inr (.inr (.inr (.inr (.inr ⟨r, hr, rfl⟩)))))
        pingRecordTask := fun r hr => ht _ (.inr (.inr ⟨r, hr, rfl⟩))
        counters := fun r hr => hc _ ⟨r, hr, rfl⟩
        tokens := htok }

/-- What a writer between two jobs relies on: a coherent guard and, where the
flag says so, related tables. -/
structure Sound (related : Prop) (db : Store) (g : Guard) : Prop where
  /-- The guard agrees with the tables. -/
  coherent : Coherent db g
  /-- The tables agree with each other. -/
  related : related → Related db

/-- A rebuilt guard is sound for any database, related if that is. -/
theorem sound_load {related : Prop} {db : Store} (h : related → Related db) :
    Sound related db (Guard.load db) := ⟨load_coherent db, h⟩

/-- A guard that is looser is right as well. -/
theorem Sound.raises {related : Prop} {db : Store} {g g' : Guard} (h : Sound related db g)
    (hr : Raises g g') : Sound related db g' := ⟨h.coherent.raises hr, h.related⟩

/-- A change that leaves the cached relations alone and only loses history. -/
theorem Sound.of_frame {related : Prop} {db db' : Store} {g : Guard} (h : Sound related db g)
    (hn : ∀ n, db'.node.Has n ↔ db.node.Has n) (ha : db'.pingNode = db.pingNode)
    (hm : db'.metric.rows ⊆ db.metric.rows) (hp : db'.pingRecord.rows ⊆ db.pingRecord.rows)
    (hrel : Related db → Related db') : Sound related db' g :=
  ⟨h.coherent.of_subset hn ha hm hp, fun hr => hrel (h.related hr)⟩

/-! ## Changes to single columns -/

/-- An update of node columns other than the identity and the token. -/
theorem related_updateNode {db : Store} {p : NodeRow → Prop} [DecidablePred p]
    {f : NodeRow → NodeRow} {hf : ∀ r, (f r).id = r.id} (ht : ∀ r, (f r).tokenHash = r.tokenHash)
    (h : Related db) : Related { db with node := db.node.updateWhere p f hf } := by
  obtain ⟨hn, htask, hc, htok⟩ := related_iff.mp h
  refine related_iff.mpr ⟨?_, htask, ?_, ?_⟩
  · intro n hr
    exact (Table.has_updateWhere hf).mpr (hn n hr)
  · intro n hr
    exact hc n ((Table.has_updateWhere hf).mp hr)
  · intro r hr s hs hrs
    obtain ⟨a, ha, rfl⟩ := (Table.mem_updateWhere hf).mp hr
    obtain ⟨b, hb, rfl⟩ := (Table.mem_updateWhere hf).mp hs
    have htoken : ∀ x : NodeRow, (if p x then f x else x).tokenHash = x.tokenHash := by
      intro x
      split
      · exact ht x
      · rfl
    rw [htoken, htoken] at hrs
    rw [htok a ha b hb hrs]

/-- Changing a node keeps a store sound as long as tokens stay unique. -/
theorem sound_updateNode {related : Prop} {db : Store} {g : Guard} {p : NodeRow → Prop}
    [DecidablePred p] {f : NodeRow → NodeRow} {hf : ∀ r, (f r).id = r.id}
    (ht : ∀ r, (f r).tokenHash = r.tokenHash) (h : Sound related db g) :
    Sound related { db with node := db.node.updateWhere p f hf } g :=
  h.of_frame (fun _ => Table.has_updateWhere hf) rfl (fun _ hr => hr) (fun _ hr => hr)
    (related_updateNode ht)

/-- An update of a traffic row's columns. -/
theorem sound_updateTraffic {related : Prop} {db : Store} {g : Guard} {p : TrafficRow → Prop}
    [DecidablePred p] {f : TrafficRow → TrafficRow} {hf : ∀ r, (f r).nodeId = r.nodeId}
    (h : Sound related db g) :
    Sound related { db with traffic := db.traffic.updateWhere p f hf } g := by
  refine h.of_frame (fun _ => Iff.rfl) rfl (fun _ hr => hr) (fun _ hr => hr) ?_
  intro hrel
  obtain ⟨hn, htask, hc, htok⟩ := related_iff.mp hrel
  refine related_iff.mpr ⟨?_, htask, ?_, htok⟩
  · rintro n (ht | hrest)
    · exact hn n (.inl ((Table.has_updateWhere hf).mp ht))
    · exact hn n (.inr hrest)
  · intro n hr
    exact (Table.has_updateWhere hf).mpr (hc n hr)

/-- The identity counters, settings and sessions are outside both relations. -/
theorem sound_outside {related : Prop} {db db' : Store} {g : Guard} (h : Sound related db g)
    (hdb : db' = { db with
      setting := db'.setting, session := db'.session
      romiId := db'.romiId, romiSchema := db'.romiSchema }) : Sound related db' g := by
  rw [hdb]
  refine h.of_frame (fun _ => Iff.rfl) rfl (fun _ hr => hr) (fun _ hr => hr) ?_
  intro hrel
  exact hrel.congr rfl rfl rfl rfl rfl rfl rfl rfl

/-! ## Allocating an identity -/

/-- An allocated id leaves everything but the counter alone. -/
theorem allocId_ok {name : String} {s s' : Session Store Guard} {id : Int}
    (h : allocId name s = (.ok id, s')) :
    s'.db = { s.db with romiId := s'.db.romiId } ∧ s'.cache = s.cache := by
  obtain ⟨found, s₁, hstmt, hrest⟩ := bind_ok h
  obtain ⟨htake, hc⟩ := statement_ok hstmt
  have hs' : s' = s₁ := by
    cases found with
    | none => exact absurd hrest fail_ne_ok
    | some i => exact (pure_ok hrest).2
  simp only [takeId, Except.ok.injEq, Prod.mk.injEq] at htake
  rw [hs', hc]
  exact ⟨by rw [← htake.2], rfl⟩

/-- Giving an id keeps the guard. -/
theorem allocId_cacheKept (name : String) : CacheKept (allocId name) := by
  refine (CacheKept.statement _).bind ?_
  intro found
  cases found with
  | none => exact CacheKept.fail _
  | some i => exact CacheKept.pure i

/-! ## Creating and deleting nodes -/

/-- A node with its traffic row, added under a free id with a fresh token. -/
theorem sound_addNode {related : Prop} {db : Store} {g : Guard} {row : NodeRow}
    (trow : TrafficRow) {nodes : Table NodeRow.id} {traffic : Table TrafficRow.nodeId}
    (h : Sound related db g) (hid : trow.nodeId = row.id)
    (hfresh : ¬ ∃ r ∈ db.node.rows, r.tokenHash = row.tokenHash)
    (hnode : db.node.insert? row = some nodes) (htraffic : db.traffic.insert? trow = some traffic) :
    Sound related { db with node := nodes, traffic := traffic }
      { g with nodes := insert row.id g.nodes } := by
  have hhasNode : ∀ n, nodes.Has n ↔ n = row.id ∨ db.node.Has n := by
    intro n
    have hfree := Table.insert?_of_free (Table.insert?_eq_some hnode).1
    rw [hnode, Option.some.injEq] at hfree
    rw [hfree]
    exact Table.has_put
  have hhasTraffic : ∀ n, traffic.Has n ↔ n = row.id ∨ db.traffic.Has n := by
    intro n
    have hfree := Table.insert?_of_free (Table.insert?_eq_some htraffic).1
    rw [htraffic, Option.some.injEq] at hfree
    rw [hfree, ← hid]
    exact Table.has_put
  refine ⟨⟨?_, h.coherent.assignments, h.coherent.minutes, h.coherent.stamps⟩, ?_⟩
  · intro n
    rw [Finset.mem_insert, hhasNode, h.coherent.nodes]
  · intro hrel
    obtain ⟨hn, htask, hc, htok⟩ := related_iff.mp (h.related hrel)
    refine related_iff.mpr ⟨?_, htask, ?_, ?_⟩
    · rintro n (ht | hrest)
      · rcases (hhasTraffic n).mp ht with rfl | ht
        · exact (hhasNode _).mpr (.inl rfl)
        · exact (hhasNode n).mpr (.inr (hn n (.inl ht)))
      · exact (hhasNode n).mpr (.inr (hn n (.inr hrest)))
    · intro n hr
      rcases (hhasNode n).mp hr with rfl | hr
      · exact (hhasTraffic _).mpr (.inl rfl)
      · exact (hhasTraffic n).mpr (.inr (hc n hr))
    · intro r hr s hs hrs
      rcases (Table.mem_of_insert? hnode).mp hr with rfl | hr <;>
        rcases (Table.mem_of_insert? hnode).mp hs with rfl | hs
      · rfl
      · exact absurd ⟨s, hs, hrs.symm⟩ hfresh
      · exact absurd ⟨r, hr, hrs⟩ hfresh
      · exact htok r hr s hs hrs

/-- Counting against a limit changes nothing. -/
theorem checkCap_ok {cap : Option (Int × Int)} {s s' : Session Store Guard} {u : Unit}
    (h : checkCap cap s = (.ok u, s')) : s'.db = s.db ∧ s'.cache = s.cache := by
  cases cap with
  | none =>
    rw [(pure_ok h).2]
    exact ⟨rfl, rfl⟩
  | some c =>
    obtain ⟨made, s₁, hq, hens⟩ := bind_ok h
    obtain ⟨-, hdb, hc⟩ := query_ok hq
    rw [(ensure_ok hens).2]
    exact ⟨hdb, hc⟩

/-- It keeps the guard. -/
theorem checkCap_cacheKept (cap : Option (Int × Int)) : CacheKept (checkCap cap) := by
  cases cap with
  | none => exact CacheKept.pure ()
  | some c => exact (CacheKept.query _).bind fun _ => CacheKept.ensure _ _

/-- So does inserting a node, before it commits. -/
theorem createNodeBody_cacheKept (sha256 : String → String) (now : Int) (n : NewNode)
    (token : String) (cap : Option (Int × Int)) :
    CacheKept (createNodeBody sha256 now n token cap) :=
  (checkCap_cacheKept cap).bind fun _ => (allocId_cacheKept "node").bind fun id =>
    (CacheKept.statement _).bind fun _ => (CacheKept.statement _).bind fun _ =>
      (CacheKept.execute _).bind fun _ => CacheKept.pure id

/-- What the transaction of a creation did: both rows, then the remaining columns. -/
theorem createNodeBody_ok {sha256 : String → String} {now : Int} {n : NewNode} {token : String}
    {cap : Option (Int × Int)} {s s' : Session Store Guard} {id : Int}
    (h : createNodeBody sha256 now n token cap s = (.ok id, s')) :
    ∃ ids row nodes traffic, row.id = id ∧
      (¬ ∃ r ∈ s.db.node.rows, r.tokenHash = row.tokenHash) ∧
      s.db.node.insert? row = some nodes ∧
      s.db.traffic.insert? (newTrafficRow id) = some traffic ∧
      s'.db = updateNodeRow id (setNewNode n) (fun _ => rfl)
        { s.db with romiId := ids, node := nodes, traffic := traffic } := by
  obtain ⟨_, s₁, hcap, h⟩ := bind_ok h
  obtain ⟨id', s₂, halloc, h⟩ := bind_ok h
  obtain ⟨_, s₃, hinsert, h⟩ := bind_ok h
  obtain ⟨_, s₄, htraffic, h⟩ := bind_ok h
  obtain ⟨_, s₅, hset, h⟩ := bind_ok h
  obtain ⟨rfl, rfl⟩ := pure_ok h
  have hdb₁ := (checkCap_ok hcap).1
  have hdb₂ := (allocId_ok halloc).1
  rw [hdb₁] at hdb₂
  obtain ⟨hins, -⟩ := statement_ok hinsert
  obtain ⟨htr, -⟩ := statement_ok htraffic
  have hset' := (execute_ok hset).1
  unfold insertNode at hins
  split at hins
  · cases hins
  · rename_i hfresh
    obtain ⟨nodes, hnodes, hdb₃⟩ := inserted_ok hins
    obtain ⟨traffic, htraffic', hdb₄⟩ := inserted_ok htr
    refine ⟨s₂.db.romiId, newNodeRow id' n (sha256 token) (nextSort s₂.db) now, nodes, traffic,
      rfl, ?_, ?_, ?_, ?_⟩
    · rw [hdb₂] at hfresh
      exact hfresh
    · rw [hdb₂] at hnodes
      rw [← hnodes, hdb₂]
    · rw [← htraffic', hdb₃, hdb₂]
    · rw [hset', hdb₄, hdb₃, hdb₂]

/-- `create_node_within` keeps both relations wherever it breaks off. -/
theorem createNodeWithin_preserves (related : Prop) (sha256 : String → String) (now : Int)
    (n : NewNode) (token : String) (cap : Option (Int × Int)) :
    Preserves (Sound related) (createNodeWithin sha256 now n token cap) := by
  refine Preserves.commitThen (createNodeBody_cacheKept sha256 now n token cap) ?_
  intro s id s' h hs
  obtain ⟨ids, row, nodes, traffic, rfl, hfresh, hnodes, htraffic, hdb⟩ := createNodeBody_ok h
  have hids : Sound related { s.db with romiId := ids } s.cache := sound_outside hs rfl
  have hadd := sound_addNode (newTrafficRow row.id) hids rfl hfresh hnodes htraffic
  rw [hdb]
  exact sound_updateNode (fun _ => rfl) hadd

/-- A table after a delete still has the keys of the rows that stayed. -/
theorem has_deleteWhere {ρ κ : Type} {key : ρ → κ} [DecidableEq κ] {t : Table key}
    {p : ρ → Prop} [DecidablePred p] {k : κ} :
    (t.deleteWhere p).Has k ↔ ∃ r ∈ t.rows, ¬ p r ∧ key r = k := by
  unfold Table.Has
  constructor
  · rintro ⟨r, hr, hk⟩
    obtain ⟨hr, hp⟩ := Table.mem_deleteWhere.mp hr
    exact ⟨r, hr, hp, hk⟩
  · rintro ⟨r, hr, hp, hk⟩
    exact ⟨r, Table.mem_deleteWhere.mpr ⟨hr, hp⟩, hk⟩

/-- The store after the deletes of `delete_node`. -/
def withoutNode (id : Int) (db : Store) : Store := (nodeSweep id).foldl (fun db f => f db) db

/-- The sweep removes a node with every reference to it. -/
theorem sound_withoutNode {related : Prop} {db : Store} {g : Guard} (id : Int)
    (h : Sound related db g) : Sound related (withoutNode id db) (g.forgetNode id) := by
  have hnode : ∀ n, (withoutNode id db).node.Has n ↔ n ≠ id ∧ db.node.Has n := by
    intro n
    refine has_deleteWhere.trans ?_
    constructor
    · rintro ⟨r, hr, hp, rfl⟩
      exact ⟨hp, r, hr, rfl⟩
    · rintro ⟨hp, r, hr, rfl⟩
      exact ⟨r, hr, hp, rfl⟩
  refine ⟨⟨?_, ?_, ?_, ?_⟩, ?_⟩
  · intro n
    simp only [forgetNode, Finset.mem_erase, h.coherent.nodes, hnode]
  · intro n t
    simp only [forgetNode, Finset.mem_filter, h.coherent.assignments]
    refine Iff.trans ?_ has_deleteWhere.symm
    constructor
    · rintro ⟨⟨r, hr, hk⟩, hn⟩
      have hk' := (Prod.mk.inj hk).2
      exact ⟨r, hr, by rwa [hk'], hk⟩
    · rintro ⟨r, hr, hp, hk⟩
      have hk' := (Prod.mk.inj hk).2
      exact ⟨⟨r, hr, hk⟩, by rwa [hk'] at hp⟩
  · intro r hr
    obtain ⟨hr, hp⟩ := Table.mem_deleteWhere.mp hr
    simp only [forgetNode, if_neg hp]
    exact h.coherent.minutes r hr
  · intro r hr
    obtain ⟨hr, hp⟩ := Table.mem_deleteWhere.mp hr
    simp only [forgetNode, if_neg hp]
    exact h.coherent.stamps r hr
  · intro hrel
    obtain ⟨hn, ht, hc, htok⟩ := related_iff.mp (h.related hrel)
    refine related_iff.mpr ⟨?_, ?_, ?_, ?_⟩
    · -- Every row that stayed refers to another node, which stayed as well.
      rintro n (hr | ⟨r, hr, rfl⟩ | ⟨r, hr, rfl⟩ | ⟨r, hr, rfl⟩ | ⟨r, hr, rfl⟩ | ⟨r, hr, rfl⟩)
      · obtain ⟨r, hq, hp, rfl⟩ := has_deleteWhere.mp hr
        exact (hnode _).mpr ⟨hp, hn _ (.inl ⟨r, hq, rfl⟩)⟩
      all_goals obtain ⟨hr, hp⟩ := Table.mem_deleteWhere.mp hr
      · exact (hnode _).mpr ⟨hp, hn _ (.inr (.inl ⟨r, hr, rfl⟩))⟩
      · exact (hnode _).mpr ⟨hp, hn _ (.inr (.inr (.inl ⟨r, hr, rfl⟩)))⟩
      · exact (hnode _).mpr ⟨hp, hn _ (.inr (.inr (.inr (.inl ⟨r, hr, rfl⟩))))⟩
      · exact (hnode _).mpr ⟨hp, hn _ (.inr (.inr (.inr (.inr (.inl ⟨r, hr, rfl⟩)))))⟩
      · exact (hnode _).mpr ⟨hp, hn _ (.inr (.inr (.inr (.inr (.inr ⟨r, hr, rfl⟩)))))⟩
    · rintro t (⟨r, hr, rfl⟩ | ⟨r, hr, rfl⟩ | ⟨r, hr, rfl⟩)
      all_goals obtain ⟨hr, -⟩ := Table.mem_deleteWhere.mp hr
      · exact ht _ (.inl ⟨r, hr, rfl⟩)
      · exact ht _ (.inr (.inl ⟨r, hr, rfl⟩))
      · exact ht _ (.inr (.inr ⟨r, hr, rfl⟩))
    · intro n hr
      obtain ⟨hp, hold⟩ := (hnode n).mp hr
      obtain ⟨r, hq, rfl⟩ := hc n hold
      exact has_deleteWhere.mpr ⟨r, hq, hp, rfl⟩
    · intro r hr s hs hrs
      exact htok r (Table.mem_deleteWhere.mp hr).1 s (Table.mem_deleteWhere.mp hs).1 hrs

/-- `delete_node` keeps both relations wherever it breaks off. -/
theorem deleteNode_preserves (related : Prop) (id : Int) :
    Preserves (Sound related) (deleteNode id) := by
  refine Preserves.commitThen (CacheKept.executeAll _) ?_
  intro s u s' h hs
  rw [(executeAll_ok h).1]
  exact sound_withoutNode id hs

/-- The store after the deletes of `delete_ping_task`. -/
def withoutTask (id : Int) (db : Store) : Store := (taskSweep id).foldl (fun db f => f db) db

/-- The sweep removes a probe with every reference to it. -/
theorem sound_withoutTask {related : Prop} {db : Store} {g : Guard} (id : Int)
    (h : Sound related db g) : Sound related (withoutTask id db) (g.forgetTask id) := by
  have htask : ∀ t, (withoutTask id db).pingTask.Has t ↔ t ≠ id ∧ db.pingTask.Has t := by
    intro t
    refine has_deleteWhere.trans ?_
    constructor
    · rintro ⟨r, hr, hp, rfl⟩
      exact ⟨hp, r, hr, rfl⟩
    · rintro ⟨hp, r, hr, rfl⟩
      exact ⟨r, hr, hp, rfl⟩
  refine ⟨⟨h.coherent.nodes, ?_, h.coherent.minutes, ?_⟩, ?_⟩
  · intro n t
    simp only [forgetTask, Finset.mem_filter, h.coherent.assignments]
    refine Iff.trans ?_ has_deleteWhere.symm
    constructor
    · rintro ⟨⟨r, hr, hk⟩, ht⟩
      have hk' := (Prod.mk.inj hk).1
      exact ⟨r, hr, by rwa [hk'], hk⟩
    · rintro ⟨r, hr, hp, hk⟩
      have hk' := (Prod.mk.inj hk).1
      exact ⟨⟨r, hr, hk⟩, by rwa [hk'] at hp⟩
  · intro r hr
    obtain ⟨hr, hp⟩ := Table.mem_deleteWhere.mp hr
    simp only [forgetTask, if_neg hp]
    exact h.coherent.stamps r hr
  · intro hrel
    obtain ⟨hn, ht, hc, htok⟩ := related_iff.mp (h.related hrel)
    refine related_iff.mpr ⟨?_, ?_, hc, htok⟩
    · rintro n (hr | hr | hr | ⟨r, hr, rfl⟩ | ⟨r, hr, rfl⟩ | ⟨r, hr, rfl⟩)
      · exact hn n (.inl hr)
      · exact hn n (.inr (.inl hr))
      · exact hn n (.inr (.inr (.inl hr)))
      all_goals obtain ⟨hr, -⟩ := Table.mem_deleteWhere.mp hr
      · exact hn _ (.inr (.inr (.inr (.inl ⟨r, hr, rfl⟩))))
      · exact hn _ (.inr (.inr (.inr (.inr (.inl ⟨r, hr, rfl⟩)))))
      · exact hn _ (.inr (.inr (.inr (.inr (.inr ⟨r, hr, rfl⟩)))))
    · rintro t (⟨r, hr, rfl⟩ | ⟨r, hr, rfl⟩ | ⟨r, hr, rfl⟩)
      all_goals obtain ⟨hr, hp⟩ := Table.mem_deleteWhere.mp hr
      · exact (htask _).mpr ⟨hp, ht _ (.inl ⟨r, hr, rfl⟩)⟩
      · exact (htask _).mpr ⟨hp, ht _ (.inr (.inl ⟨r, hr, rfl⟩))⟩
      · exact (htask _).mpr ⟨hp, ht _ (.inr (.inr ⟨r, hr, rfl⟩))⟩

/-- `delete_ping_task` keeps both relations wherever it breaks off. -/
theorem deletePingTask_preserves (related : Prop) (id : Int) :
    Preserves (Sound related) (deletePingTask id) := by
  refine Preserves.commitThen (CacheKept.executeAll _) ?_
  intro s u s' h hs
  rw [(executeAll_ok h).1]
  exact sound_withoutTask id hs

/-! ## Tokens and traffic -/

/-- `reset_token` cannot make two tokens equal. -/
theorem resetToken_preserves (related : Prop) (sha256 : String → String) (id : Int)
    (token : String) : Preserves (Sound related) (resetToken sha256 id token) := by
  refine Preserves.statement ?_
  intro db u db' g h hs
  unfold setToken at h
  split at h
  · cases h
  · rename_i hfree
    cases h
    have hkey : ∀ r, (withToken (sha256 token) r).id = r.id := fun _ => rfl
    refine hs.of_frame (fun _ => Table.has_updateWhere hkey) rfl (fun _ hr => hr) (fun _ hr => hr) ?_
    intro hrel
    obtain ⟨hn, ht, hc, htok⟩ := related_iff.mp hrel
    refine related_iff.mpr ⟨?_, ht, ?_, ?_⟩
    · intro n hr
      exact (Table.has_updateWhere hkey).mpr (hn n hr)
    · intro n hr
      exact hc n ((Table.has_updateWhere hkey).mp hr)
    · intro r hr s hs hrs
      obtain ⟨a, ha, rfl⟩ := (Table.mem_updateWhere hkey).mp hr
      obtain ⟨b, hb, rfl⟩ := (Table.mem_updateWhere hkey).mp hs
      -- Nobody else holds the new token once its own row exists.
      have hother : ∀ x ∈ db.node.rows, ∀ y ∈ db.node.rows, x.id = id →
          y.tokenHash = sha256 token → y.id = id := by
        intro x hx y hy hxid hytok
        by_contra hne
        exact hfree ⟨⟨x, hx, hxid⟩, y, hy, hytok, hne⟩
      by_cases hai : a.id = id <;> by_cases hbi : b.id = id
      · rw [db.node.unique a ha b hb (hai.trans hbi.symm)]
      · rw [if_pos hai, if_neg hbi] at hrs
        exact absurd (hother a ha b hb hai hrs.symm) hbi
      · rw [if_neg hai, if_pos hbi] at hrs
        exact absurd (hother b hb a ha hbi hrs) hai
      · rw [if_neg hai, if_neg hbi] at hrs ⊢
        exact htok a ha b hb hrs

/-- `accumulate_on` only writes a traffic row back. -/
theorem sound_accumulateOn {related : Prop} {nodeId : Int} {r : Report} {db db' : Store}
    {g : Guard} {t : Traffic} (h : accumulateOn nodeId r db = .ok (t, db'))
    (hs : Sound related db g) : Sound related db' g := by
  unfold accumulateOn at h
  split at h
  · cases h
    exact sound_updateTraffic hs
  · cases h

/-- Booking counters keeps a store sound. -/
theorem accumulate_preserves (related : Prop) (nodeId : Int) (r : Report) :
    Preserves (Sound related) (accumulate nodeId r) := by
  refine Preserves.readCache.bind ?_
  intro known
  have hfold : Preserves (Sound related) (statement (accumulateOn nodeId r)) :=
    Preserves.statement fun _ _ _ _ h hs => sound_accumulateOn h hs
  exact Preserves.ite _ (hfold.bind fun folded => Preserves.pure (some folded))
    (Preserves.pure none)

/-- And it keeps the guard. -/
theorem accumulate_cacheKept (nodeId : Int) (r : Report) : CacheKept (accumulate nodeId r) :=
  CacheKept.readCache.bind fun _ => CacheKept.ite _
    ((CacheKept.statement _).bind fun _ => CacheKept.pure _) (CacheKept.pure none)

/-- `set_traffic` only corrects a traffic row. -/
theorem setTraffic_preserves (related : Prop) (nodeId : Int) (p : TrafficPatch) (clock : Clock) :
    Preserves (Sound related) (setTraffic nodeId p clock) := by
  refine (Preserves.query _).bind ?_
  intro resetDay
  cases resetDay with
  | none => exact Preserves.pure _
  | some day =>
    exact (Preserves.execute fun _ _ hs => sound_updateTraffic hs).bind fun _ => Preserves.pure _

/-! ## Node columns -/

/-- A job that only writes node columns other than identity and token. -/
theorem updateNodeRow_preserves (related : Prop) (id : Int) {f : NodeRow → NodeRow}
    {hf : ∀ r, (f r).id = r.id} (ht : ∀ r, (f r).tokenHash = r.tokenHash) :
    Preserves (Sound related) (execute (updateNodeRow id f hf)) :=
  Preserves.execute fun _ _ hs => sound_updateNode ht hs

/-- Noting when a node was seen keeps a store sound. -/
theorem touchSeen_preserves (related : Prop) (tryCast : String → Option Int) (id ts : Int) :
    Preserves (Sound related) (touchSeen tryCast id ts) :=
  Preserves.execute fun db _ hs =>
    sound_updateNode (f := seen (graceSeconds tryCast db) ts) (fun _ => rfl) hs

/-- So does editing a node. -/
theorem updateNode_preserves (related : Prop) (id : Int) (p : NodePatch) :
    Preserves (Sound related) (updateNode id p) := by
  refine Preserves.statement ?_
  intro db b db' g h hs
  cases h
  exact sound_updateNode (fun _ => rfl) hs

/-- So does what a machine tells of itself. -/
theorem saveFacts_preserves (related : Prop) (id : Int) (f : Json) (ip : String) :
    Preserves (Sound related) (saveFacts id f ip) := by
  have hupdate : Preserves (Sound related) (execute (updateNodeRow id (storeFacts f ip) fun _ => rfl)) :=
    updateNodeRow_preserves related id fun _ => rfl
  refine hupdate.bind fun _ => Preserves.statement ?_
  intro db b db' g h hs
  split at h
  · cases h
    exact hs
  · cases h

/-- So does ordering nodes. -/
theorem reorderFrom_preserves (related : Prop) (count sort : Nat) (ids : List Int) :
    Preserves (Sound related) (reorderFrom count sort ids) := by
  induction ids generalizing sort with
  | nil => exact Preserves.pure ()
  | cons id rest ih =>
    refine Preserves.bind (Preserves.statement ?_) fun _ => (Preserves.ensure _ _).bind fun _ =>
      ih (sort + 1)
    intro db n db' g h hs
    cases h
    exact sound_updateNode (fun _ => rfl) hs

/-- And it keeps the guard. -/
theorem reorderFrom_cacheKept (count sort : Nat) (ids : List Int) :
    CacheKept (reorderFrom count sort ids) := by
  induction ids generalizing sort with
  | nil => exact CacheKept.pure ()
  | cons id rest ih =>
    exact (CacheKept.statement _).bind fun _ => (CacheKept.ensure _ _).bind fun _ => ih (sort + 1)

/-- `reorder_nodes` only moves positions. -/
theorem reorderNodes_preserves (related : Prop) (ids : List Int) :
    Preserves (Sound related) (reorderNodes ids) := by
  have hkept : CacheKept (reorderBody ids) := (CacheKept.query _).bind fun _ =>
    (CacheKept.ensure _ _).bind fun _ => reorderFrom_cacheKept _ _ _
  have hbody : Preserves (Sound related) (reorderBody ids) := (Preserves.query _).bind fun _ =>
    (Preserves.ensure _ _).bind fun _ => reorderFrom_preserves related _ _ _
  refine (Preserves.ensure _ _).bind fun _ => Preserves.transaction hkept ?_
  intro s u s' h hs
  rw [← hkept.eq h]
  exact hbody.apply h hs

/-! ## History -/

/-- Rows that replace or join a node's minutes keep the references it had. -/
theorem related_putMetric {db : Store} {row : MetricRow} (h : Related db)
    (hnode : db.node.Has row.nodeId) : Related { db with metric := db.metric.put row } := by
  obtain ⟨hn, ht, hc, htok⟩ := related_iff.mp h
  refine related_iff.mpr ⟨?_, ht, hc, htok⟩
  rintro n (hr | ⟨r, hr, rfl⟩ | hr)
  · exact hn n (.inl hr)
  · rcases Table.mem_put.mp hr with rfl | ⟨hr, -⟩
    · exact hnode
    · exact hn _ (.inr (.inl ⟨r, hr, rfl⟩))
  · exact hn n (.inr (.inr hr))

/-- A result of a node and a probe that are there keeps every relation. -/
theorem related_putPing {db : Store} {row : PingRecordRow} (h : Related db)
    (hnode : db.node.Has row.nodeId) (htask : db.pingTask.Has row.taskId) :
    Related { db with pingRecord := db.pingRecord.put row } := by
  obtain ⟨hn, ht, hc, htok⟩ := related_iff.mp h
  refine related_iff.mpr ⟨?_, ?_, hc, htok⟩
  · rintro n (hr | hr | hr | hr | hr | ⟨r, hr, rfl⟩)
    · exact hn n (.inl hr)
    · exact hn n (.inr (.inl hr))
    · exact hn n (.inr (.inr (.inl hr)))
    · exact hn n (.inr (.inr (.inr (.inl hr))))
    · exact hn n (.inr (.inr (.inr (.inr (.inl hr)))))
    · rcases Table.mem_put.mp hr with rfl | ⟨hr, -⟩
      · exact hnode
      · exact hn _ (.inr (.inr (.inr (.inr (.inr ⟨r, hr, rfl⟩)))))
  · rintro t (hr | hr | ⟨r, hr, rfl⟩)
    · exact ht t (.inl hr)
    · exact ht t (.inr (.inl hr))
    · rcases Table.mem_put.mp hr with rfl | ⟨hr, -⟩
      · exact htask
      · exact ht _ (.inr (.inr ⟨r, hr, rfl⟩))

/-- Deleting what may exist and then inserting a key is a replacement, and no
key constraint can refuse it when the guard covers every stamp of the key. -/
theorem replaceMinute {db : Store} (row : MetricRow) {recorded : Option Int}
    (hcover : ∀ r ∈ db.metric.rows, r.nodeId = row.nodeId → Covers recorded r.ts) :
    insertMetricRow row (if mayExist recorded row.ts = true then
      { db with metric := db.metric.deleteWhere fun r => r.key = (row.nodeId, row.ts) }
      else db) = .ok ((), { db with metric := db.metric.put row }) := by
  by_cases hmay : mayExist recorded row.ts = true
  · have hins := Table.insert?_deleteWhere db.metric row
    rw [if_pos hmay]
    change inserted ((db.metric.deleteWhere fun r => r.key = row.key).insert? row) _ = _
    rw [hins]
    rfl
  · have hfree : ¬ db.metric.Has row.key := by
      rintro ⟨r, hr, hk⟩
      have hk' := Prod.mk.inj hk
      have hc := hcover r hr hk'.1
      rw [hk'.2] at hc
      exact hmay (mayExist_iff.mpr hc)
    rw [if_neg hmay]
    change inserted (db.metric.insert? row) _ = _
    rw [Table.insert?_of_free hfree]
    rfl

/-- The same for a probe result. -/
theorem replaceStamp {db : Store} (row : PingRecordRow) {recorded : Option Int}
    (hcover : ∀ r ∈ db.pingRecord.rows, (r.nodeId, r.taskId) = (row.nodeId, row.taskId) →
      Covers recorded r.ts) :
    insertPingRow row (if mayExist recorded row.ts = true then
      { db with pingRecord := db.pingRecord.deleteWhere fun r =>
          r.key = (row.nodeId, row.ts, row.taskId) }
      else db) = .ok ((), { db with pingRecord := db.pingRecord.put row }) := by
  by_cases hmay : mayExist recorded row.ts = true
  · have hins := Table.insert?_deleteWhere db.pingRecord row
    rw [if_pos hmay]
    change inserted ((db.pingRecord.deleteWhere fun r => r.key = row.key).insert? row) _ = _
    rw [hins]
    rfl
  · have hfree : ¬ db.pingRecord.Has row.key := by
      rintro ⟨r, hr, hk⟩
      obtain ⟨hnode, hrest⟩ := Prod.mk.inj hk
      obtain ⟨hts, htask⟩ := Prod.mk.inj hrest
      have hc := hcover r hr (by rw [hnode, htask])
      rw [hts] at hc
      exact hmay (mayExist_iff.mpr hc)
    rw [if_neg hmay]
    change inserted (db.pingRecord.insert? row) _ = _
    rw [Table.insert?_of_free hfree]
    rfl

/-- What `insert_metric` can do under a coherent guard: nothing for an unknown
node, a replacement for a known one, and no failure but the engine's. -/
theorem insertMetric_cases {nodeId ts : Int} {m : Json} {s s' : Session Store Guard}
    {r : Except Failure Unit} (h : insertMetric nodeId ts m s = (r, s'))
    (hs : Coherent s.db s.cache) :
    (r = .error .engine ∧ s'.cache = s.cache) ∨
    (r = .ok () ∧ ¬ s.db.node.Has nodeId ∧ s'.db = s.db ∧ s'.cache = s.cache) ∨
    (r = .ok () ∧ s.db.node.Has nodeId ∧
      s'.db = { s.db with metric := s.db.metric.put (metricRowOf nodeId ts m) } ∧
      s'.cache = s.cache.raiseMinute nodeId ts) := by
  change (if nodeId ∈ s.cache.nodes then _ else _ : StoreJob Unit) s = _ at h
  by_cases hknown : nodeId ∈ s.cache.nodes
  · rw [if_pos hknown] at h
    have hcover : ∀ q ∈ s.db.metric.rows, q.nodeId = nodeId → Covers (s.cache.minutes nodeId) q.ts := by
      intro q hq hk
      have hc := hs.minutes q hq
      rwa [hk] at hc
    have hreplace := replaceMinute (metricRowOf nodeId ts m) hcover
    rcases replaceThen_cases hreplace h with herr | ⟨hr, hdb, hc⟩
    · exact .inl herr
    · exact .inr (.inr ⟨hr, (hs.nodes nodeId).mp hknown, hdb, hc⟩)
  · rw [if_neg hknown] at h
    cases r with
    | error e => exact absurd h pure_ne_error
    | ok u =>
      obtain ⟨-, rfl⟩ := pure_ok h
      exact .inr (.inl ⟨rfl, fun hn => hknown ((hs.nodes nodeId).mpr hn), rfl, rfl⟩)

/-- What `insert_ping` can do under a coherent guard. -/
theorem insertPing_cases {nodeId taskId ts latency : Int} {s s' : Session Store Guard}
    {r : Except Failure Unit} (h : insertPing nodeId taskId ts latency s = (r, s'))
    (hs : Coherent s.db s.cache) :
    (r = .error .engine ∧ s'.cache = s.cache) ∨
    (r = .ok () ∧ ¬ s.db.pingNode.Has (taskId, nodeId) ∧ s'.db = s.db ∧ s'.cache = s.cache) ∨
    (r = .ok () ∧ s.db.pingNode.Has (taskId, nodeId) ∧
      s'.db = { s.db with pingRecord := s.db.pingRecord.put ⟨nodeId, taskId, ts, latency⟩ } ∧
      s'.cache = s.cache.raiseStamp (nodeId, taskId) ts) := by
  change (if (nodeId, taskId) ∈ s.cache.assignments then _ else _ : StoreJob Unit) s = _ at h
  by_cases hknown : (nodeId, taskId) ∈ s.cache.assignments
  · rw [if_pos hknown] at h
    have hcover : ∀ q ∈ s.db.pingRecord.rows, (q.nodeId, q.taskId) = (nodeId, taskId) →
        Covers (s.cache.stamps (nodeId, taskId)) q.ts := by
      intro q hq hk
      have hc := hs.stamps q hq
      rwa [hk] at hc
    have hreplace := replaceStamp ⟨nodeId, taskId, ts, latency⟩ hcover
    rcases replaceThen_cases hreplace h with herr | ⟨hr, hdb, hc⟩
    · exact .inl herr
    · exact .inr (.inr ⟨hr, (hs.assignments nodeId taskId).mp hknown, hdb, hc⟩)
  · rw [if_neg hknown] at h
    cases r with
    | error e => exact absurd h pure_ne_error
    | ok u =>
      obtain ⟨-, rfl⟩ := pure_ok h
      exact .inr (.inl ⟨rfl, fun hn => hknown ((hs.assignments nodeId taskId).mpr hn), rfl, rfl⟩)

/-- Writing a minute and recording it keeps the guard coherent. -/
theorem sound_putMetric {related : Prop} {db : Store} {g : Guard} (row : MetricRow)
    (h : Sound related db g) (hnode : db.node.Has row.nodeId) :
    Sound related { db with metric := db.metric.put row } (g.raiseMinute row.nodeId row.ts) := by
  refine ⟨⟨h.coherent.nodes, h.coherent.assignments, ?_, h.coherent.stamps⟩,
    fun hrel => related_putMetric (h.related hrel) hnode⟩
  intro r hr
  simp only [raiseMinute]
  rcases Table.mem_put.mp hr with rfl | ⟨hr, -⟩
  · rw [if_pos rfl]
    exact covers_raised (.inr rfl)
  · have hc := h.coherent.minutes r hr
    split
    · exact covers_raised (.inl hc)
    · exact hc

/-- Filing a result and recording its stamp keeps the guard coherent. -/
theorem sound_putPing {related : Prop} {db : Store} {g : Guard} (row : PingRecordRow)
    (h : Sound related db g) (ha : db.pingNode.Has (row.taskId, row.nodeId)) :
    Sound related { db with pingRecord := db.pingRecord.put row }
      (g.raiseStamp (row.nodeId, row.taskId) row.ts) := by
  refine ⟨⟨h.coherent.nodes, h.coherent.assignments, h.coherent.minutes, ?_⟩, ?_⟩
  · intro r hr
    simp only [raiseStamp]
    rcases Table.mem_put.mp hr with rfl | ⟨hr, -⟩
    · rw [if_pos rfl]
      exact covers_raised (.inr rfl)
    · have hc := h.coherent.stamps r hr
      split
      · exact covers_raised (.inl hc)
      · exact hc
  · intro hrel
    have hr := h.related hrel
    obtain ⟨a, ha, hk⟩ := ha
    obtain ⟨htask, hnode⟩ := Prod.mk.inj hk
    refine related_putPing hr ?_ ?_
    · rw [← hnode]
      exact hr.pingNodeNode a ha
    · rw [← htask]
      exact hr.pingNodeTask a ha

/-- The store after the transaction of `prune`. -/
def pruned (cutoff oldest : Int) (db : Store) : Store :=
  { rollPings cutoff oldest (rollMetrics cutoff oldest db) with
    metric := db.metric.deleteWhere fun r => r.ts < cutoff
    pingRecord := db.pingRecord.deleteWhere fun r => r.ts < cutoff
    metricHour := (rollMetrics cutoff oldest db).metricHour.deleteWhere fun r => r.ts < oldest
    pingHour := (rollPings cutoff oldest db).pingHour.deleteWhere fun r => r.ts < oldest }

/-- Pruning that succeeds leaves the pruned store. -/
theorem pruneBody_ok {cutoff oldest : Int} {s s' : Session Store Guard} {n : Nat}
    (h : pruneBody cutoff oldest s = (.ok n, s')) :
    s'.db = pruned cutoff oldest s.db ∧ s'.cache = s.cache ∧
      n = (s.db.metric.rows.filter fun r => r.ts < cutoff).card +
        (s.db.pingRecord.rows.filter fun r => r.ts < cutoff).card := by
  obtain ⟨_, s₁, h₁, h⟩ := bind_ok h
  obtain ⟨_, s₂, h₂, h⟩ := bind_ok h
  obtain ⟨a, s₃, h₃, h⟩ := bind_ok h
  obtain ⟨b, s₄, h₄, h⟩ := bind_ok h
  obtain ⟨_, s₅, h₅, h⟩ := bind_ok h
  obtain ⟨_, s₆, h₆, h⟩ := bind_ok h
  obtain ⟨rfl, rfl⟩ := pure_ok h
  obtain ⟨hdb₁, hc₁⟩ := execute_ok h₁
  obtain ⟨hdb₂, hc₂⟩ := execute_ok h₂
  obtain ⟨hdb₃, hc₃⟩ := statement_ok h₃
  obtain ⟨hdb₄, hc₄⟩ := statement_ok h₄
  obtain ⟨hdb₅, hc₅⟩ := execute_ok h₅
  obtain ⟨hdb₆, hc₆⟩ := execute_ok h₆
  simp only [Except.ok.injEq, Prod.mk.injEq] at hdb₃ hdb₄
  refine ⟨?_, by rw [hc₆, hc₅, hc₄, hc₃, hc₂, hc₁], ?_⟩
  · rw [hdb₆, hdb₅, ← hdb₄.2, ← hdb₃.2, hdb₂, hdb₁]
    rfl
  · rw [← hdb₃.1, ← hdb₄.1, ← hdb₃.2, hdb₂, hdb₁]
    rfl

/-- It keeps the guard until it commits. -/
theorem pruneBody_cacheKept (cutoff oldest : Int) : CacheKept (pruneBody cutoff oldest) :=
  (CacheKept.execute _).bind fun _ => (CacheKept.execute _).bind fun _ =>
    (CacheKept.statement _).bind fun _ => (CacheKept.statement _).bind fun _ =>
      (CacheKept.execute _).bind fun _ => (CacheKept.execute _).bind fun _ => CacheKept.pure _

/-- An hour left by a prune was there before or was formed from minutes. -/
theorem metricHour_pruned {cutoff oldest : Int} {db : Store} {r : MetricHourRow}
    (hr : r ∈ (pruned cutoff oldest db).metricHour.rows) :
    (∃ q ∈ db.metricHour.rows, q.nodeId = r.nodeId) ∨ ∃ q ∈ db.metric.rows, q.nodeId = r.nodeId := by
  have hroll := (Table.mem_deleteWhere.mp hr).1
  rcases has_rollMetrics.mp ⟨r, hroll, rfl⟩ with ⟨q, hq, hk⟩ | ⟨q, hq, -, hk⟩
  · exact .inl ⟨q, hq, (Prod.mk.inj hk).1⟩
  · exact .inr ⟨q, hq, (Prod.mk.inj hk).1⟩

/-- An hour after pruning is one from before, or made of its results. -/
theorem pingHour_pruned {cutoff oldest : Int} {db : Store} {r : PingHourRow}
    (hr : r ∈ (pruned cutoff oldest db).pingHour.rows) :
    (∃ q ∈ db.pingHour.rows, q.nodeId = r.nodeId ∧ q.taskId = r.taskId) ∨
      ∃ q ∈ db.pingRecord.rows, q.nodeId = r.nodeId ∧ q.taskId = r.taskId := by
  have hroll := (Table.mem_deleteWhere.mp hr).1
  rcases has_rollPings.mp ⟨r, hroll, rfl⟩ with ⟨q, hq, hk⟩ | ⟨q, hq, -, hk⟩
  all_goals
    obtain ⟨hn, hrest⟩ := Prod.mk.inj hk
    obtain ⟨-, hrest⟩ := Prod.mk.inj hrest
    have ht := (Prod.mk.inj hrest).1
  · exact .inl ⟨q, hq, hn, ht⟩
  · exact .inr ⟨q, hq, hn, ht⟩

/-- Pruning moves history between tables of the same nodes and probes. -/
theorem related_pruned {cutoff oldest : Int} {db : Store} (h : Related db) :
    Related (pruned cutoff oldest db) := by
  obtain ⟨hn, ht, hc, htok⟩ := related_iff.mp h
  refine related_iff.mpr ⟨?_, ?_, hc, htok⟩
  · rintro n (hr | ⟨r, hr, rfl⟩ | ⟨r, hr, rfl⟩ | ⟨r, hr, rfl⟩ | hr | ⟨r, hr, rfl⟩)
    · exact hn n (.inl hr)
    · exact hn _ (.inr (.inl ⟨r, (Table.mem_deleteWhere.mp hr).1, rfl⟩))
    · rcases metricHour_pruned hr with hq | hq
      · exact hn _ (.inr (.inr (.inl hq)))
      · exact hn _ (.inr (.inl hq))
    · rcases pingHour_pruned hr with ⟨q, hq, hk, -⟩ | ⟨q, hq, hk, -⟩
      · exact hn _ (.inr (.inr (.inr (.inl ⟨q, hq, hk⟩))))
      · exact hn _ (.inr (.inr (.inr (.inr (.inr ⟨q, hq, hk⟩)))))
    · exact hn n (.inr (.inr (.inr (.inr (.inl hr)))))
    · exact hn _ (.inr (.inr (.inr (.inr (.inr ⟨r, (Table.mem_deleteWhere.mp hr).1, rfl⟩)))))
  · rintro t (⟨r, hr, rfl⟩ | hr | ⟨r, hr, rfl⟩)
    · rcases pingHour_pruned hr with ⟨q, hq, -, hk⟩ | ⟨q, hq, -, hk⟩
      · exact ht _ (.inl ⟨q, hq, hk⟩)
      · exact ht _ (.inr (.inr ⟨q, hq, hk⟩))
    · exact ht t (.inr (.inl hr))
    · exact ht _ (.inr (.inr ⟨r, (Table.mem_deleteWhere.mp hr).1, rfl⟩))

/-- `prune` keeps both relations wherever it breaks off. -/
theorem prune_preserves (related : Prop) (now keepDays : Int) :
    Preserves (Sound related) (prune now keepDays) := by
  refine Preserves.transaction (pruneBody_cacheKept _ _) ?_
  intro s n s' h hs
  rw [(pruneBody_ok h).1]
  exact hs.of_frame (fun _ => Iff.rfl) rfl
    (fun _ hr => (Table.mem_deleteWhere.mp hr).1) (fun _ hr => (Table.mem_deleteWhere.mp hr).1)
    related_pruned

/-! ## Saving a probe -/

/-- The probe row exists afterwards, and nothing but it and a counter changed. -/
theorem savePingTaskRow_ok {t : PingTask} {s s' : Session Store Guard} {id : Int}
    (h : savePingTaskRow t s = (.ok id, s')) :
    ∃ tasks ids, s'.db = { s.db with pingTask := tasks, romiId := ids } ∧ s'.cache = s.cache ∧
      ∀ k, tasks.Has k ↔ k = id ∨ s.db.pingTask.Has k := by
  unfold savePingTaskRow at h
  split at h
  · obtain ⟨n, s₁, hupd, h⟩ := bind_ok h
    obtain ⟨_, s₂, hens, h⟩ := bind_ok h
    obtain ⟨rfl, rfl⟩ := pure_ok h
    obtain ⟨hone, rfl⟩ := ensure_ok hens
    obtain ⟨hstmt, hc⟩ := statement_ok hupd
    simp only [Except.ok.injEq, Prod.mk.injEq] at hstmt
    refine ⟨_, s.db.romiId, hstmt.2.symm, hc, ?_⟩
    intro k
    refine (Table.has_updateWhere _).trans ⟨.inr, ?_⟩
    rintro (rfl | hk)
    · -- One row was touched, so the probe existed.
      have hpos : 0 < (s.db.pingTask.rows.filter fun r => r.id = t.id).card := by omega
      obtain ⟨r, hr⟩ := Finset.card_pos.mp hpos
      exact ⟨r, (Finset.mem_filter.mp hr).1, (Finset.mem_filter.mp hr).2⟩
    · exact hk
  · obtain ⟨i, s₁, halloc, h⟩ := bind_ok h
    obtain ⟨_, s₂, hins, h⟩ := bind_ok h
    obtain ⟨rfl, rfl⟩ := pure_ok h
    obtain ⟨hdb₁, hc₁⟩ := allocId_ok halloc
    obtain ⟨hstmt, hc₂⟩ := statement_ok hins
    obtain ⟨tasks, htasks, hdb₂⟩ := inserted_ok hstmt
    have hput := Table.insert?_of_free (Table.insert?_eq_some htasks).1
    rw [htasks, Option.some.injEq] at hput
    refine ⟨tasks, s₁.db.romiId, by rw [hdb₂, hdb₁], hc₂.trans hc₁, ?_⟩
    intro k
    rw [hput, hdb₁]
    exact Table.has_put

/-- Saving the row of a probe keeps the guard. -/
theorem savePingTaskRow_cacheKept (t : PingTask) : CacheKept (savePingTaskRow t) := by
  unfold savePingTaskRow
  refine CacheKept.ite _ ?_ ?_
  · exact (CacheKept.statement _).bind fun _ => (CacheKept.ensure _ _).bind fun _ => CacheKept.pure _
  · exact (allocId_cacheKept _).bind fun id => (CacheKept.statement _).bind fun _ => CacheKept.pure id

/-- The loop assigns exactly the named nodes, all of which exist. -/
theorem assignNodes_ok {id : Int} {seen nodes : List Int} {s s' : Session Store Guard} {u : Unit}
    (h : assignNodes id seen nodes s = (.ok u, s')) :
    ∃ assigned, s'.db = { s.db with pingNode := assigned } ∧ s'.cache = s.cache ∧
      (∀ k, assigned.Has k ↔ s.db.pingNode.Has k ∨ ∃ n ∈ nodes, k = (id, n)) ∧
      ∀ n ∈ nodes, s.db.node.Has n := by
  induction nodes generalizing seen s with
  | nil =>
    rw [(pure_ok h).2]
    exact ⟨s.db.pingNode, rfl, rfl, fun k => by simp, by simp⟩
  | cons node rest ih =>
    obtain ⟨_, s₁, hfresh, h₁⟩ := bind_ok h
    obtain ⟨known, s₂, hquery, h₂⟩ := bind_ok h₁
    obtain ⟨_, s₃, hens, h₃⟩ := bind_ok h₂
    obtain ⟨_, s₄, hins, h₄⟩ := bind_ok h₃
    have hs₁ := (ensure_ok hfresh).2
    obtain ⟨hknown, hdb₂, hc₂⟩ := query_ok hquery
    obtain ⟨htrue, hs₃⟩ := ensure_ok hens
    obtain ⟨hstmt, hc₄⟩ := statement_ok hins
    obtain ⟨one, hone, hdb₄⟩ := inserted_ok hstmt
    obtain ⟨assigned, hdb, hc, hhas, hnodes⟩ := ih h₄
    rw [hs₁] at hknown hdb₂ hc₂
    rw [hs₃] at hone hdb₄ hc₄
    have hput := Table.insert?_of_free (Table.insert?_eq_some hone).1
    rw [hone, Option.some.injEq] at hput
    have hnode : s.db.node.Has node := by
      rw [hknown] at htrue
      exact of_decide_eq_true htrue
    rw [hdb₄, hdb₂] at hdb hnodes hhas
    refine ⟨assigned, hdb, hc.trans (hc₄.trans hc₂), ?_, ?_⟩
    · intro k
      have hk : one.Has k ↔ k = (id, node) ∨ s.db.pingNode.Has k := by
        rw [hput, hdb₂]
        exact Table.has_put
      rw [hhas k]
      constructor
      · rintro (h | ⟨n, hn, hkn⟩)
        · rcases hk.mp h with hkn | h
          · exact .inr ⟨node, List.mem_cons_self, hkn⟩
          · exact .inl h
        · exact .inr ⟨n, List.mem_cons_of_mem node hn, hkn⟩
      · rintro (h | ⟨n, hn, hkn⟩)
        · exact .inl (hk.mpr (.inr h))
        · rcases List.mem_cons.mp hn with rfl | hn
          · exact .inl (hk.mpr (.inl hkn))
          · exact .inr ⟨n, hn, hkn⟩
    · intro n hn
      rcases List.mem_cons.mp hn with rfl | hn
      · exact hnode
      · exact hnodes n hn

/-- So does assigning it to nodes. -/
theorem assignNodes_cacheKept (id : Int) (seen nodes : List Int) :
    CacheKept (assignNodes id seen nodes) := by
  induction nodes generalizing seen with
  | nil => exact CacheKept.pure ()
  | cons node rest ih =>
    exact (CacheKept.ensure _ _).bind fun _ => (CacheKept.query _).bind fun _ =>
      (CacheKept.ensure _ _).bind fun _ => (CacheKept.statement _).bind fun _ => ih _

/-- So does refusing one probe too many. -/
theorem refuseCrowd_cacheKept : CacheKept refuseCrowd := by
  refine (CacheKept.query _).bind ?_
  intro found
  cases found with
  | none => exact CacheKept.pure ()
  | some node => exact CacheKept.fail _

/-- Where it is not refused, nothing has changed. -/
theorem refuseCrowd_ok {s s' : Session Store Guard} {u : Unit}
    (h : refuseCrowd s = (.ok u, s')) : s'.db = s.db := by
  obtain ⟨found, s₁, hq, h⟩ := bind_ok h
  obtain ⟨-, hdb, -⟩ := query_ok hq
  cases found with
  | none =>
    rw [(pure_ok h).2]
    exact hdb
  | some node => exact absurd h fail_ne_ok

/-- What the transaction of `save_ping_task` did. -/
theorem savePingTaskBody_ok {t : PingTask} {s s' : Session Store Guard} {id : Int}
    (h : savePingTaskBody t s = (.ok id, s')) :
    ∃ tasks ids assigned,
      s'.db = { s.db with pingTask := tasks, romiId := ids, pingNode := assigned } ∧
      (∀ k, tasks.Has k ↔ k = id ∨ s.db.pingTask.Has k) ∧
      (∀ k, assigned.Has k ↔
        (s.db.pingNode.deleteWhere fun r => r.taskId = id).Has k ∨ ∃ n ∈ t.nodes, k = (id, n)) ∧
      ∀ n ∈ t.nodes, s.db.node.Has n := by
  obtain ⟨i, s₁, hrow, h⟩ := bind_ok h
  obtain ⟨_, s₂, hdel, h⟩ := bind_ok h
  obtain ⟨_, s₃, hassign, h⟩ := bind_ok h
  obtain ⟨_, s₄, hcrowd, h⟩ := bind_ok h
  obtain ⟨rfl, rfl⟩ := pure_ok h
  obtain ⟨tasks, ids, hdb₁, -, htasks⟩ := savePingTaskRow_ok hrow
  have hdb₂ := (execute_ok hdel).1
  obtain ⟨assigned, hdb₃, -, hhas, hnodes⟩ := assignNodes_ok hassign
  rw [hdb₂, hdb₁] at hdb₃ hhas hnodes
  exact ⟨tasks, ids, assigned, by rw [refuseCrowd_ok hcrowd, hdb₃], htasks, hhas, hnodes⟩

/-- So saving a probe keeps the guard until it commits. -/
theorem savePingTaskBody_cacheKept (t : PingTask) : CacheKept (savePingTaskBody t) :=
  (savePingTaskRow_cacheKept t).bind fun id => (CacheKept.execute _).bind fun _ =>
    (assignNodes_cacheKept _ _ _).bind fun _ => refuseCrowd_cacheKept.bind fun _ =>
      CacheKept.pure id

/-- `save_ping_task` keeps both relations wherever it breaks off. -/
theorem savePingTask_preserves (related : Prop) (t : PingTask) :
    Preserves (Sound related) (savePingTask t) := by
  refine Preserves.commitThen (savePingTaskBody_cacheKept t) ?_
  intro s id s' h hs
  obtain ⟨tasks, ids, assigned, hdb, htasks, hhas, hnodes⟩ := savePingTaskBody_ok h
  rw [hdb]
  have hold : ∀ k, (s.db.pingNode.deleteWhere fun r => r.taskId = id).Has k ↔
      k.1 ≠ id ∧ s.db.pingNode.Has k := by
    intro k
    refine has_deleteWhere.trans ?_
    constructor
    · rintro ⟨r, hr, hp, rfl⟩
      exact ⟨hp, r, hr, rfl⟩
    · rintro ⟨hp, r, hr, rfl⟩
      exact ⟨r, hr, hp, rfl⟩
  refine ⟨⟨hs.coherent.nodes, ?_, hs.coherent.minutes, hs.coherent.stamps⟩, ?_⟩
  · intro n k
    simp only [assignInGuard, Finset.mem_union, Finset.mem_filter, List.mem_toFinset,
      List.mem_map, Prod.mk.injEq]
    rw [hs.coherent.assignments, hhas, hold]
    constructor
    · rintro (⟨ha, hk⟩ | ⟨m, hm, rfl, rfl⟩)
      · exact .inl ⟨hk, ha⟩
      · exact .inr ⟨m, hm, rfl⟩
    · rintro (⟨hk, ha⟩ | ⟨m, hm, hk⟩)
      · exact .inl ⟨ha, hk⟩
      · obtain ⟨rfl, rfl⟩ := Prod.mk.inj hk
        exact .inr ⟨n, hm, rfl, rfl⟩
  · intro hrel
    obtain ⟨hn, ht, hc, htok⟩ := related_iff.mp (hs.related hrel)
    -- An assignment that stands afterwards is an old one or names this probe.
    have hassigned : ∀ r ∈ assigned.rows, s.db.node.Has r.nodeId ∧ tasks.Has r.taskId := by
      intro r hr
      rcases (hhas r.key).mp ⟨r, hr, rfl⟩ with h | ⟨n, hn', hk⟩
      · obtain ⟨q, hq, hk⟩ := ((hold _).mp h).2
        obtain ⟨hkt, hkn⟩ := Prod.mk.inj hk
        rw [← hkt, ← hkn]
        exact ⟨hn _ (.inr (.inr (.inr (.inr (.inl ⟨q, hq, rfl⟩))))),
          (htasks _).mpr (.inr (ht _ (.inr (.inl ⟨q, hq, rfl⟩))))⟩
      · obtain ⟨hkt, hkn⟩ := Prod.mk.inj hk
        rw [hkt, hkn]
        exact ⟨hnodes n hn', (htasks id).mpr (.inl rfl)⟩
    refine related_iff.mpr ⟨?_, ?_, hc, htok⟩
    · rintro n (hr | hr | hr | hr | ⟨r, hr, rfl⟩ | hr)
      · exact hn n (.inl hr)
      · exact hn n (.inr (.inl hr))
      · exact hn n (.inr (.inr (.inl hr)))
      · exact hn n (.inr (.inr (.inr (.inl hr))))
      · exact (hassigned r hr).1
      · exact hn n (.inr (.inr (.inr (.inr (.inr hr)))))
    · rintro k (hr | ⟨r, hr, rfl⟩ | hr)
      · exact (htasks k).mpr (.inr (ht k (.inl hr)))
      · exact (hassigned r hr).2
      · exact (htasks k).mpr (.inr (ht k (.inr (.inr hr))))

end Romi.StoreInvariant
