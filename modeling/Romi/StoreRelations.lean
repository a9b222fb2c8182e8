import Mathlib.Data.Fintype.Basic
import Romi.CachedTransactions
import Romi.StoreSchema

/-!
# The relationships between tables

The schema declares no foreign keys. `checks` are the queries a restore runs
over the rows it rebuilt, `Related` is what they mean, and the two agree. The
statements that write one table are followed here as facts about `Related`,
so that a job only has to say which rows it adds, changes and removes.
-/

namespace Romi.StoreRelations

open CachedTransactions KeyedTable StoreSchema

/-- How many rows have no partner in the table joined to them. -/
def orphans {ρ : Type} (rows : Finset ρ) (partner : ρ → Prop) [DecidablePred partner] : Nat :=
  (rows.filter fun r => ¬ partner r).card

/-- How many token hashes occur more than once. -/
def repeatedTokens (db : Store) : Nat :=
  ((db.node.rows.image NodeRow.tokenHash).filter fun h =>
    1 < (db.node.rows.filter fun r => r.tokenHash = h).card).card

/-- The queries of `verify_relationships` with what each of them guards. -/
def checks (db : Store) : List (String × Nat) :=
  [("traffic 指向不存在的节点", orphans db.traffic.rows fun r => db.node.Has r.nodeId),
   ("metric 指向不存在的节点", orphans db.metric.rows fun r => db.node.Has r.nodeId),
   ("metric_hour 指向不存在的节点", orphans db.metricHour.rows fun r => db.node.Has r.nodeId),
   ("ping_hour 指向不存在的节点", orphans db.pingHour.rows fun r => db.node.Has r.nodeId),
   ("ping_hour 指向不存在的探测", orphans db.pingHour.rows fun r => db.pingTask.Has r.taskId),
   ("ping_node 指向不存在的节点", orphans db.pingNode.rows fun r => db.node.Has r.nodeId),
   ("ping_node 指向不存在的探测", orphans db.pingNode.rows fun r => db.pingTask.Has r.taskId),
   ("ping_record 指向不存在的节点", orphans db.pingRecord.rows fun r => db.node.Has r.nodeId),
   ("ping_record 指向不存在的探测", orphans db.pingRecord.rows fun r => db.pingTask.Has r.taskId),
   ("有节点没有 traffic 行", orphans db.node.rows fun r => db.traffic.Has r.id),
   ("node.token_hash 重复", repeatedTokens db)]

/-- Runs checks in order and stops at the first that finds a row. -/
def runChecks : List (String × Nat) → Except Failure Unit
  | [] => .ok ()
  | (what, n) :: rest =>
    if n = 0 then runChecks rest else .error (.declined s!"备份校验失败：{what}（{n} 行）")

/-- `verify_relationships`. -/
def verifyRelationships (db : Store) : Except Failure Unit := runChecks (checks db)

/-- Every relationship the application enforces. -/
structure Related (db : Store) : Prop where
  /-- Counters are those of a node. -/
  traffic : ∀ r ∈ db.traffic.rows, db.node.Has r.nodeId
  /-- So is a minute. -/
  metric : ∀ r ∈ db.metric.rows, db.node.Has r.nodeId
  /-- So is an hour. -/
  metricHour : ∀ r ∈ db.metricHour.rows, db.node.Has r.nodeId
  /-- So is an hour of results. -/
  pingHourNode : ∀ r ∈ db.pingHour.rows, db.node.Has r.nodeId
  /-- And it is of a probe. -/
  pingHourTask : ∀ r ∈ db.pingHour.rows, db.pingTask.Has r.taskId
  /-- An assignment is of a node. -/
  pingNodeNode : ∀ r ∈ db.pingNode.rows, db.node.Has r.nodeId
  /-- And of a probe. -/
  pingNodeTask : ∀ r ∈ db.pingNode.rows, db.pingTask.Has r.taskId
  /-- A result is of a node. -/
  pingRecordNode : ∀ r ∈ db.pingRecord.rows, db.node.Has r.nodeId
  /-- And of a probe. -/
  pingRecordTask : ∀ r ∈ db.pingRecord.rows, db.pingTask.Has r.taskId
  /-- Every node has its counters. -/
  counters : ∀ r ∈ db.node.rows, db.traffic.Has r.id
  /-- No two nodes have one token. -/
  tokens : db.TokensUnique

/-- No row is without its partner. -/
theorem orphans_eq_zero {ρ : Type} {rows : Finset ρ} {partner : ρ → Prop} [DecidablePred partner] :
    orphans rows partner = 0 ↔ ∀ r ∈ rows, partner r := by
  rw [orphans, Finset.card_eq_zero, Finset.filter_eq_empty_iff]
  simp only [not_not]

/-- No token is there twice. -/
theorem repeatedTokens_eq_zero {db : Store} : repeatedTokens db = 0 ↔ db.TokensUnique := by
  rw [repeatedTokens, Finset.card_eq_zero, Finset.filter_eq_empty_iff]
  simp only [Finset.mem_image, forall_exists_index, and_imp, forall_apply_eq_imp_iff₂, not_lt]
  constructor
  · intro h r hr s hs hrs
    have hcard := h s hs
    exact Finset.card_le_one.mp hcard r (Finset.mem_filter.mpr ⟨hr, hrs⟩) s
      (Finset.mem_filter.mpr ⟨hs, rfl⟩)
  · intro h s _
    rw [Finset.card_le_one]
    intro a ha b hb
    obtain ⟨ha, hat⟩ := Finset.mem_filter.mp ha
    obtain ⟨hb, hbt⟩ := Finset.mem_filter.mp hb
    exact h a ha b hb (hat.trans hbt.symm)

/-- Every check counts nothing. -/
theorem runChecks_ok_iff {list : List (String × Nat)} :
    runChecks list = .ok () ↔ ∀ c ∈ list, c.2 = 0 := by
  induction list with
  | nil => simp [runChecks]
  | cons c rest ih =>
    rw [runChecks, List.forall_mem_cons]
    by_cases hc : c.2 = 0
    · rw [if_pos hc, ih]
      exact ⟨fun h => ⟨hc, h⟩, And.right⟩
    · rw [if_neg hc]
      exact ⟨nofun, fun h => absurd h.1 hc⟩

/-- The queries pass exactly on related databases. -/
theorem verifyRelationships_ok_iff {db : Store} :
    verifyRelationships db = .ok () ↔ Related db := by
  rw [verifyRelationships, runChecks_ok_iff]
  simp only [checks, List.forall_mem_cons, orphans_eq_zero, repeatedTokens_eq_zero,
    List.not_mem_nil, false_imp_iff, implies_true, and_true]
  constructor
  · rintro ⟨h1, h2, h3, h4, h5, h6, h7, h8, h9, h10, h11⟩
    exact ⟨h1, h2, h3, h4, h5, h6, h7, h8, h9, h10, h11⟩
  · rintro ⟨h1, h2, h3, h4, h5, h6, h7, h8, h9, h10, h11⟩
    exact ⟨h1, h2, h3, h4, h5, h6, h7, h8, h9, h10, h11⟩

/-- A database just created is related. -/
theorem related_blank : Related Store.blank := by
  refine ⟨?_, ?_, ?_, ?_, ?_, ?_, ?_, ?_, ?_, ?_, ?_⟩ <;>
    · intro r hr
      exact absurd hr (Finset.notMem_empty r)

/-- The relationships only see the nine backup tables other than settings. -/
theorem Related.congr {db db' : Store} (h : Related db) (hn : db'.node = db.node)
    (ht : db'.traffic = db.traffic) (hm : db'.metric = db.metric)
    (hmh : db'.metricHour = db.metricHour) (hpt : db'.pingTask = db.pingTask)
    (hpn : db'.pingNode = db.pingNode) (hpr : db'.pingRecord = db.pingRecord)
    (hph : db'.pingHour = db.pingHour) : Related db' := by
  obtain ⟨h1, h2, h3, h4, h5, h6, h7, h8, h9, h10, h11⟩ := h
  constructor
  all_goals simp only [hn, ht, hm, hmh, hpt, hpn, hpr, hph, Store.TokensUnique]
  all_goals assumption

end Romi.StoreRelations
