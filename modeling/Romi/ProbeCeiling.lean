import Romi.AgentProbes
import Romi.ProbePushes
import Romi.ReachedStores

/-!
# A probe is saved as asked or not at all

The assignments are counted after they are in, over every node. That the count
is about the nodes of the request alone rests on no node having been over the
ceiling before; and so the list for an agent is never longer than what it runs.
-/

namespace Romi.ProbeCeiling

open CachedTransactions CachedTransactions.Job CrashRecovery IssuedIds KeyedTable NodeContinuity
  ProbePushes ReachedStores SavedProbes StoreAnswers StoreAreas StoreGuard StoreGuard.Guard
  StoreInvariant StoreJobs StoreOperations StoreRelations StoreSchema

/-! ## No node over the ceiling -/

/-- No node has more probes than its agent runs. -/
def Uncrowded (db : Store) : Prop := ∀ n, probesOf db n ≤ maxProbesPerNode

/-- Fewer assignments crowd nobody. -/
theorem Uncrowded.mono {db db' : Store} (h : Uncrowded db)
    (hsub : db'.pingNode.rows ⊆ db.pingNode.rows) : Uncrowded db' := by
  intro n
  exact le_trans (Finset.card_le_card (Finset.filter_subset_filter _ hsub)) (h n)

/-- Nor do the same ones. -/
theorem Uncrowded.of_eq {db db' : Store} (h : Uncrowded db) (heq : db'.pingNode = db.pingNode) :
    Uncrowded db' := h.mono (by rw [heq])

/-- A write about probes that got through counted them, or made them fewer. -/
theorem ran_uncrowded {host : Host} {op : Solo} {db db' : Store} {answer : Except Failure Payload}
    (hdb : Uncrowded db) (h : Ran host op db answer db') : Uncrowded db' := by
  by_cases hop : areaOf op = .probes
  · cases op with
    | savePingTask t =>
      cases answer with
      | error e =>
        rw [ran_commitThen_refused (p := .id) rfl h]
        exact hdb
      | ok p =>
        obtain ⟨id, s, s', -, rfl, hbody, rfl⟩ := ran_commitThen_ok (p := .id) rfl h
        obtain ⟨hsavable, hsaved⟩ := savePingTaskBody_spec hbody
        rw [hsaved]
        exact hsavable.fits
    | deletePingTask id =>
      cases answer with
      | error e =>
        rw [ran_commitThen_refused (p := fun _ => .nothing) rfl h]
        exact hdb
      | ok p =>
        obtain ⟨_, s, s', -, rfl, hbody, rfl⟩ := ran_commitThen_ok (p := fun _ => .nothing) rfl h
        rw [(executeAll_ok hbody).1]
        exact hdb.mono (Finset.filter_subset _ _)
    | deleteNode id =>
      cases answer with
      | error e =>
        rw [ran_commitThen_refused (p := fun _ => .nothing) rfl h]
        exact hdb
      | ok p =>
        obtain ⟨_, s, s', -, rfl, hbody, rfl⟩ := ran_commitThen_ok (p := fun _ => .nothing) rfl h
        rw [(executeAll_ok hbody).1]
        exact hdb.mono (Finset.filter_subset _ _)
    | _ => cases hop
  · exact hdb.of_eq ((ran_within h).probes hop).2

/-- No store that is reached is crowded. -/
theorem Reached.uncrowded {host : Host} {db : Store} {g : Guard} (h : Reached host db g) :
    Uncrowded db := by
  induction h with
  | fresh writtenBy now =>
    intro n
    have hframe := initSchema_frame writtenBy now Store.blank
    rw [Store.fresh, hframe]
    exact Nat.zero_le _
  | @solo session h op ih => exact ran_uncrowded ih ⟨session, rfl, rfl, rfl⟩
  | @telemetry session h op ih =>
    have hwithin := telemetry_within host session.db op session (.refl _ _)
    exact ih.of_eq (hwithin.probes (fun heq => (by cases heq))).2
  | reloaded h ih => exact ih
  | reopened h writtenBy now ih =>
    refine ih.of_eq ?_
    rw [startup, resyncIds_frame, initSchema_frame]
    rfl

/-! ## When a save fits -/

/-- The probes of a node but for the one that is saved. -/
def othersOf (db : Store) (t : PingTask) (n : Int) : Nat :=
  (db.pingNode.rows.filter fun r => r.nodeId = n ∧ ¬ (t.id > 0 ∧ r.taskId = t.id)).card

/-- What a save asks for can be done. -/
structure Fitting (t : PingTask) (db : Store) : Prop where
  /-- It is a new probe or one that is there. -/
  present : t.id > 0 → db.pingTask.Has t.id
  /-- No node is named twice. -/
  distinct : t.nodes.Nodup
  /-- Every node is there. -/
  known : ∀ n ∈ t.nodes, db.node.Has n
  /-- No node of the list would be over the ceiling. -/
  room : ∀ n ∈ t.nodes, othersOf db t n + 1 ≤ maxProbesPerNode

/-- The assignments afterwards are those of other probes and the list. -/
theorem mem_saved {t : PingTask} {id : Int} {db : Store} {r : PingNodeRow} :
    r ∈ (saved t id db).pingNode.rows ↔
      (r ∈ db.pingNode.rows ∧ r.taskId ≠ id) ∨ (r.taskId = id ∧ r.nodeId ∈ t.nodes) := by
  change r ∈ (assigned id t.nodes (db.pingNode.deleteWhere fun r => r.taskId = id)).rows ↔ _
  rw [mem_assigned, Table.mem_deleteWhere]

/-- A node of the list has its other probes and this one. -/
theorem probesOf_listed {t : PingTask} {id n : Int} {db : Store} (hn : n ∈ t.nodes) :
    probesOf (saved t id db) n =
      (db.pingNode.rows.filter fun r => r.nodeId = n ∧ r.taskId ≠ id).card + 1 := by
  have hrows : (saved t id db).pingNode.rows.filter (fun r => r.nodeId = n) =
      insert ⟨id, n⟩ (db.pingNode.rows.filter fun r => r.nodeId = n ∧ r.taskId ≠ id) := by
    ext r
    rw [Finset.mem_filter, mem_saved, Finset.mem_insert, Finset.mem_filter]
    constructor
    · rintro ⟨⟨hr, htask⟩ | ⟨htask, -⟩, hnode⟩
      · exact .inr ⟨hr, hnode, htask⟩
      · exact .inl (by rw [← htask, ← hnode])
    · rintro (rfl | ⟨hr, hnode, htask⟩)
      · exact ⟨.inr ⟨rfl, hn⟩, rfl⟩
      · exact ⟨.inl ⟨hr, htask⟩, hnode⟩
  unfold probesOf
  rw [hrows, Finset.card_insert_of_notMem]
  intro hmem
  exact (Finset.mem_filter.mp hmem).2.2 rfl

/-- Any other node has what it had, or less. -/
theorem probesOf_unlisted {t : PingTask} {id n : Int} {db : Store} (hn : n ∉ t.nodes) :
    probesOf (saved t id db) n ≤ probesOf db n := by
  refine Finset.card_le_card ?_
  intro r hr
  rw [Finset.mem_filter, mem_saved] at hr
  obtain ⟨⟨hr, -⟩ | ⟨-, hlisted⟩, hnode⟩ := hr
  · exact Finset.mem_filter.mpr ⟨hr, hnode⟩
  · rw [hnode] at hlisted
    exact absurd hlisted hn

/-- No assignment names the id a new probe is about to get. -/
theorem othersOf_eq {t : PingTask} {id : Int} {db : Store} (hrelated : Related db)
    (h : FilesUnder t id db) (n : Int) : othersOf db t n =
      (db.pingNode.rows.filter fun r => r.nodeId = n ∧ r.taskId ≠ id).card := by
  unfold othersOf
  congr 1
  refine Finset.filter_congr ?_
  intro r hr
  unfold FilesUnder at h
  split at h
  · rename_i hold
    rw [h.1]
    exact and_congr_right fun _ => not_congr ⟨fun hsame => hsame.2, fun htask => ⟨hold, htask⟩⟩
  · rename_i hnew
    have hother : r.taskId ≠ id := fun heq => h.2 (heq ▸ hrelated.pingNodeTask r hr)
    exact and_congr_right fun _ => ⟨fun _ => hother, fun _ hsame => hnew hsame.1⟩

variable {host : Host} {db : Store} {g : Guard}

/-- In a reached store there is always an id to file under, unless the probe is missing. -/
theorem exists_filesUnder (h : Reached host db g) {t : PingTask}
    (hpresent : t.id > 0 → db.pingTask.Has t.id) : ∃ id, FilesUnder t id db := by
  unfold FilesUnder
  by_cases hold : t.id > 0
  · exact ⟨t.id, by rw [if_pos hold]; exact ⟨rfl, hpresent hold⟩⟩
  · obtain ⟨n, c, hc, hname, -⟩ := h.ahead.seeded .pingTask
    have hfind : db.romiId.find? "ping_task" = some ⟨"ping_task", c.next⟩ := by
      refine Table.find?_eq_some.mpr ⟨?_, rfl⟩
      have hrow : c = ⟨"ping_task", c.next⟩ := by
        obtain ⟨name, next⟩ := c
        dsimp only at hname ⊢
        rw [hname]
        rfl
      rwa [← hrow]
    refine ⟨c.next, ?_⟩
    rw [if_neg hold]
    refine ⟨hfind, ?_⟩
    intro hhas
    have hpassed := h.ahead.rows .pingTask c.next (mem_presentIds_pingTask.mpr hhas)
    exact lt_irrefl _ (@passed_lt db .pingTask c.next c.next hfind hpassed)

/-- The count over all nodes is a count over those of the list. -/
theorem savable_iff (h : Reached host db g) {t : PingTask} :
    (∃ id, Savable t id db) ↔ Fitting t db := by
  have hrelated := h.sound.related trivial
  constructor
  · rintro ⟨id, hsavable⟩
    refine ⟨?_, hsavable.distinct, hsavable.known, ?_⟩
    · intro hold
      have hfiles := hsavable.files
      unfold FilesUnder at hfiles
      rw [if_pos hold] at hfiles
      exact hfiles.1 ▸ hfiles.2
    · intro n hn
      rw [othersOf_eq hrelated hsavable.files, ← probesOf_listed hn]
      exact hsavable.fits n
  · intro hfitting
    obtain ⟨id, hfiles⟩ := exists_filesUnder h hfitting.present
    refine ⟨id, hfiles, hfitting.distinct, hfitting.known, ?_⟩
    intro n
    by_cases hn : n ∈ t.nodes
    · rw [probesOf_listed hn, ← othersOf_eq hrelated hfiles]
      exact hfitting.room n hn
    · exact le_trans (probesOf_unlisted hn) (Reached.uncrowded h n)

/-! ## What a save leaves -/

/-- The second store has the probe as it was sent, and else what the first had. -/
structure SavedAs (t : PingTask) (id : Int) (db db' : Store) : Prop where
  /-- Under its own id, or a new one. -/
  under : if t.id > 0 then id = t.id else ¬ db.pingTask.Has id
  /-- This is its row. -/
  row : ⟨id, t.name, t.target, t.interval⟩ ∈ db'.pingTask.rows
  /-- The other probes are as they were. -/
  otherRows : ∀ r : PingTaskRow, r.id ≠ id → (r ∈ db'.pingTask.rows ↔ r ∈ db.pingTask.rows)
  /-- Its nodes are those of the list. -/
  nodes : ∀ n, db'.pingNode.Has (id, n) ↔ n ∈ t.nodes
  /-- Those of other probes are as they were. -/
  otherNodes : ∀ r : PingNodeRow, r.taskId ≠ id → (r ∈ db'.pingNode.rows ↔ r ∈ db.pingNode.rows)
  /-- No result is lost. -/
  results : db'.pingRecord = db.pingRecord ∧ db'.pingHour = db.pingHour

/-- That is what saving leaves. -/
theorem savedAs_saved {t : PingTask} {id : Int} (h : FilesUnder t id db) :
    SavedAs t id db (saved t id db) := by
  have hnodes : ∀ n, (saved t id db).pingNode.Has (id, n) ↔ n ∈ t.nodes := by
    intro n
    constructor
    · rintro ⟨r, hr, hkey⟩
      obtain ⟨htask, hnode⟩ := Prod.mk.inj hkey
      rcases mem_saved.mp hr with ⟨-, hne⟩ | ⟨-, hn⟩
      · exact absurd htask hne
      · rwa [hnode] at hn
    · intro hn
      exact ⟨⟨id, n⟩, mem_saved.mpr (.inr ⟨rfl, hn⟩), rfl⟩
  have hothers : ∀ r : PingNodeRow, r.taskId ≠ id →
      (r ∈ (saved t id db).pingNode.rows ↔ r ∈ db.pingNode.rows) := by
    intro r hne
    rw [mem_saved]
    constructor
    · rintro (⟨hr, -⟩ | ⟨htask, -⟩)
      · exact hr
      · exact absurd htask hne
    · exact fun hr => .inl ⟨hr, hne⟩
  unfold FilesUnder at h
  by_cases hold : t.id > 0
  · rw [if_pos hold] at h
    obtain ⟨rfl, q, hq, hid⟩ := h
    have hrows : ∀ r, r ∈ (saved t t.id db).pingTask.rows ↔
        ∃ p ∈ db.pingTask.rows, (if p.id = t.id then edited t p else p) = r := by
      intro r
      have htable : (saved t t.id db).pingTask =
          db.pingTask.updateWhere (fun r => r.id = t.id) (edited t) (edited_id t) := by
        unfold saved filed
        rw [if_pos hold]
      rw [htable]
      exact Table.mem_updateWhere (edited_id t)
    refine ⟨by rw [if_pos hold], ?_, ?_, hnodes, hothers, ?_⟩
    · refine (hrows _).mpr ⟨q, hq, ?_⟩
      rw [if_pos hid, ← hid]
      rfl
    · intro r hne
      rw [hrows]
      constructor
      · rintro ⟨p, hp, rfl⟩
        by_cases hp' : p.id = t.id
        · rw [if_pos hp'] at hne
          exact absurd hp' hne
        · rw [if_neg hp']
          exact hp
      · intro hr
        exact ⟨r, hr, if_neg hne⟩
    · unfold saved filed
      rw [if_pos hold]
      exact ⟨rfl, rfl⟩
  · rw [if_neg hold] at h
    have htable : (saved t id db).pingTask =
        db.pingTask.put ⟨id, t.name, t.target, t.interval⟩ := by
      unfold saved filed
      rw [if_neg hold]
    refine ⟨by rw [if_neg hold]; exact h.2, ?_, ?_, hnodes, hothers, ?_⟩
    · rw [htable]
      exact Table.mem_put.mpr (.inl rfl)
    · intro r hne
      rw [htable, Table.mem_put]
      constructor
      · rintro (rfl | ⟨hr, -⟩)
        · exact absurd rfl hne
        · exact hr
      · exact fun hr => .inr ⟨hr, hne⟩
    · unfold saved filed
      rw [if_neg hold]
      exact ⟨rfl, rfl⟩

/-- A save that failed changed neither the store nor the guard. -/
theorem savePingTask_error {t : PingTask} {s s' : Session Store Guard} {e : Failure}
    (h : savePingTask t s = (.error e, s')) : s'.db = s.db ∧ s'.cache = s.cache := by
  rcases bind_error h with htransaction | ⟨id, s₁, -, hrest⟩
  · exact ⟨transaction_error htransaction,
      (CacheKept.transaction (savePingTaskBody_cacheKept t)).eq htransaction⟩
  · rcases bind_error hrest with hmodify | ⟨u, s₂, -, hpure⟩
    · exact absurd hmodify modifyCache_ne_error
    · exact absurd hpure pure_ne_error

/-! ## The list for an agent -/

/-- A list has an entry for an assignment at most. -/
theorem pingTasksFor_length (db : Store) (n : Int) : (pingTasksFor db n).length ≤ probesOf db n := by
  unfold pingTasksFor
  refine le_trans (List.length_filterMap_le _ _) ?_
  rw [ascending, Finset.length_sort]
  refine le_trans Finset.card_image_le ?_
  refine Finset.card_le_card_of_injOn (fun t => ⟨t.id, n⟩) ?_ ?_
  · intro t ht
    obtain ⟨-, r, hr, hkey⟩ := Finset.mem_filter.mp ht
    have hrow : r = ⟨t.id, n⟩ := pingNodeRow_ext hkey
    rw [hrow] at hr
    exact Finset.mem_coe.mpr (Finset.mem_filter.mpr ⟨hr, rfl⟩)
  · intro t ht t' ht' hsame
    exact db.pingTask.unique t (Finset.mem_filter.mp ht).1 t' (Finset.mem_filter.mp ht').1
      (PingNodeRow.mk.inj hsame).1

/-- From every store the hub comes to: a save succeeds exactly when what it asks
for fits, and then the probe is as it was sent and nothing else about probes
changed; one that fails leaves store and guard as they were. No node is ever
over the ceiling, so no agent leaves out a probe of its list. -/
theorem save_exact_or_nothing (h : Reached host db g) (t : PingTask) :
    ((∃ id, ((Solo.savePingTask t).job host (willing db g)).1 = .ok (.id id)) ↔ Fitting t db) ∧
    (∀ session answer after, session.db = db → session.cache = g →
      (Solo.savePingTask t).job host session = (answer, after) →
      (∃ id, answer = .ok (.id id) ∧ Fitting t db ∧ SavedAs t id db after.db ∧
        Coherent after.db after.cache) ∨
      ((∃ e, answer = .error e) ∧ after.db = db ∧ after.cache = g ∧
        Coherent after.db after.cache)) ∧
    (∀ n, probesOf db n ≤ maxProbesPerNode) ∧
    ∀ n, (pingTasksFor db n).take AgentProbes.maxPingTasks = pingTasksFor db n := by
  have hall : ∀ session answer after, session.db = db → session.cache = g →
      (Solo.savePingTask t).job host session = (answer, after) →
      (∃ id, answer = .ok (.id id) ∧ Fitting t db ∧ SavedAs t id db after.db ∧
        Coherent after.db after.cache) ∨
      ((∃ e, answer = .error e) ∧ after.db = db ∧ after.cache = g ∧
        Coherent after.db after.cache) := by
    rintro session answer after rfl rfl hrun
    have hsound := ((Solo.savePingTask t).preserves True host).apply hrun h.sound
    cases answer with
    | error e =>
      obtain ⟨hdb, hc⟩ := savePingTask_error (boxed_error hrun)
      exact .inr ⟨⟨e, rfl⟩, hdb, hc, hsound.coherent⟩
    | ok p =>
      have hran : Ran host (.savePingTask t) session.db (.ok p) after.db :=
        ⟨session, rfl, by rw [hrun], by rw [hrun]⟩
      obtain ⟨id, s, s', rfl, hdb, hbody, hdb'⟩ := ran_commitThen_ok (p := .id) rfl hran
      obtain ⟨hsavable, hsaved⟩ := savePingTaskBody_spec hbody
      rw [hdb] at hsavable hsaved
      refine .inl ⟨id, rfl, (savable_iff h).mp ⟨id, hsavable⟩, ?_, hsound.coherent⟩
      rw [← hdb', hsaved]
      exact savedAs_saved hsavable.files
  refine ⟨⟨?_, ?_⟩, hall, Reached.uncrowded h, ?_⟩
  · rintro ⟨id, hok⟩
    cases hrun : (Solo.savePingTask t).job host (willing db g) with
    | mk answer after =>
      rw [hrun] at hok
      rcases hall (willing db g) answer after rfl rfl hrun with ⟨i, -, hfitting, -⟩ | ⟨⟨e, rfl⟩, -⟩
      · exact hfitting
      · cases hok
  · intro hfitting
    obtain ⟨id, hsavable⟩ := (savable_iff h).mpr hfitting
    refine ⟨id, ?_⟩
    have hjob : (Solo.savePingTask t).job host (willing db g) =
        (.ok (.id id), willing (saved t id db) (assignInGuard t.nodes id g)) :=
      bind_run (commitThen_run (savePingTaskBody_run g hsavable))
    rw [hjob]
  · intro n
    exact List.take_of_length_le (le_trans (pingTasksFor_length db n) (Reached.uncrowded h n))

/-- A host whose digests are the tokens themselves. -/
def openHost : Host := ⟨fun token => token, fun _ => none⟩

/-- One write after another. -/
def written (host : Host) (s : Session Store Guard) (ops : List Solo) : Session Store Guard :=
  ops.foldl (fun s op => (op.job host s).2) s

/-- What closures lead to is reached. -/
theorem written_reached {s : Session Store Guard} (h : Reached host s.db s.cache) (ops : List Solo) :
    Reached host (written host s ops).db (written host s ops).cache := by
  induction ops generalizing s with
  | nil => exact h
  | cons op rest ih => exact ih (h.solo op)

/-- A hub with two nodes and a probe of the first. -/
def twoNodes : Session Store Guard :=
  written openHost (willing (.fresh "romi" 0) (.load (.fresh "romi" 0)))
    [.createNodeWithin 0 sampleNode "one" none, .createNodeWithin 0 sampleNode "two" none,
      .savePingTask ⟨0, "p", "192.0.2.1:80", 60, [1]⟩]

/-- So is the example. -/
theorem twoNodes_reached : Reached openHost twoNodes.db twoNodes.cache :=
  written_reached (.fresh "romi" 0) _

/-- The probe is saved again, now for both nodes, and both agents run it. -/
theorem save_exact_or_nothing_second :
    (∃ id, ((Solo.savePingTask ⟨1, "p", "192.0.2.2:80", 30, [2, 1]⟩).job openHost
      (willing twoNodes.db twoNodes.cache)).1 = .ok (.id id)) ∧
      probesOf twoNodes.db 1 = 1 ∧ probesOf twoNodes.db 2 = 0 :=
  ⟨(save_exact_or_nothing twoNodes_reached ⟨1, "p", "192.0.2.2:80", 30, [2, 1]⟩).1.mpr
    ⟨by decide +kernel, by decide, by decide +kernel, by decide +kernel⟩,
    by decide +kernel, by decide +kernel⟩

end Romi.ProbeCeiling
