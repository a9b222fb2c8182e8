import Romi.StoreAreas

/-!
# What saving a probe does

The row is edited or made, the assignments are rewritten one by one, and then
all of them are counted. What comes out is told without the job, and so is when
the job gets through.
-/

namespace Romi.SavedProbes

open CachedTransactions CachedTransactions.Job KeyedTable NodeContinuity StoreAnswers StoreGuard
  StoreInvariant StoreJobs StoreOperations StoreSchema

/-! ## The row -/

/-- The id a save files under: that of a probe that is there, or the next one. -/
def FilesUnder (t : PingTask) (id : Int) (db : Store) : Prop :=
  if t.id > 0 then id = t.id ∧ db.pingTask.Has id
  else db.romiId.find? "ping_task" = some ⟨"ping_task", id⟩ ∧ ¬ db.pingTask.Has id

/-- A row with what the panel sent. -/
def edited (t : PingTask) (r : PingTaskRow) : PingTaskRow :=
  { r with name := t.name, target := t.target, interval := t.interval }

/-- A probe that is edited stays the same one. -/
theorem edited_id (t : PingTask) (r : PingTaskRow) : (edited t r).id = r.id := rfl

/-- The store with the row filed. -/
def filed (t : PingTask) (id : Int) (db : Store) : Store :=
  if t.id > 0 then { db with
    pingTask := db.pingTask.updateWhere (fun r => r.id = t.id) (edited t) (edited_id t) }
  else { counted "ping_task" db with pingTask := db.pingTask.put ⟨id, t.name, t.target, t.interval⟩ }

/-- Filing its row leaves the assignments alone. -/
theorem filed_pingNode (t : PingTask) (id : Int) (db : Store) :
    (filed t id db).pingNode = db.pingNode := by
  unfold filed
  split <;> rfl

/-- And the nodes. -/
theorem filed_node (t : PingTask) (id : Int) (db : Store) : (filed t id db).node = db.node := by
  unfold filed
  split <;> rfl

/-- A row that is saved is filed under its id. -/
theorem savePingTaskRow_spec {t : PingTask} {s s' : Session Store Guard} {id : Int}
    (h : savePingTaskRow t s = (.ok id, s')) :
    FilesUnder t id s.db ∧ s'.db = filed t id s.db := by
  unfold savePingTaskRow at h
  unfold FilesUnder filed
  split at h
  · rename_i hold
    obtain ⟨n, s₁, hupdate, hchecked⟩ := bind_ok h
    obtain ⟨_, s₂, hens, hpure⟩ := bind_ok hchecked
    obtain ⟨rfl, rfl⟩ := pure_ok hpure
    obtain ⟨hone, rfl⟩ := ensure_ok hens
    obtain ⟨hstatement, -⟩ := statement_ok hupdate
    rw [Except.ok.injEq, Prod.mk.injEq, hone] at hstatement
    rw [if_pos hold, if_pos hold]
    exact ⟨⟨rfl, Table.card_key_eq_one.mp hstatement.1⟩, hstatement.2.symm⟩
  · rename_i hnew
    obtain ⟨i, s₁, halloc, hinsert⟩ := bind_ok h
    obtain ⟨_, s₂, hrow, hpure⟩ := bind_ok hinsert
    obtain ⟨rfl, rfl⟩ := pure_ok hpure
    obtain ⟨hcounter, hdb₁⟩ := allocId_spec halloc
    obtain ⟨hstatement, -⟩ := statement_ok hrow
    obtain ⟨tasks, htasks, hdb₂⟩ := inserted_ok hstatement
    have hfree := (Table.insert?_eq_some htasks).1
    rw [Table.insert?_of_free hfree, Option.some.injEq] at htasks
    rw [hdb₁] at hdb₂ hfree htasks
    rw [if_neg hnew, if_neg hnew]
    exact ⟨⟨hcounter, hfree⟩, by rw [hdb₂, ← htasks]; rfl⟩

/-- And where it can be, it is. -/
theorem savePingTaskRow_run {t : PingTask} {id : Int} {db : Store} (g : Guard)
    (h : FilesUnder t id db) :
    savePingTaskRow t (willing db g) = (.ok id, willing (filed t id db) g) := by
  unfold FilesUnder at h
  unfold savePingTaskRow filed
  split at h
  · rename_i hold
    obtain ⟨rfl, hhas⟩ := h
    rw [if_pos hold, if_pos hold]
    refine (bind_run (statement_run g rfl)).trans ?_
    refine (bind_run (ensure_run _ _ (Table.card_key_eq_one.mpr hhas))).trans ?_
    rfl
  · rename_i hnew
    obtain ⟨hcounter, hfree⟩ := h
    rw [if_neg hnew, if_neg hnew]
    have halloc : allocId "ping_task" (willing db g) =
        (.ok id, willing (counted "ping_task" db) g) := by
      have htake : takeId "ping_task" db = .ok (some id, counted "ping_task" db) := by
        unfold takeId
        rw [hcounter]
        rfl
      unfold allocId
      rw [bind_run (statement_run g htake)]
      rfl
    have hinsert : insertPingTask ⟨id, t.name, t.target, t.interval⟩ (counted "ping_task" db) =
        .ok ((), { counted "ping_task" db with
          pingTask := db.pingTask.put ⟨id, t.name, t.target, t.interval⟩ }) := by
      unfold insertPingTask
      have hfree' : ¬ (counted "ping_task" db).pingTask.Has id := hfree
      rw [Table.insert?_of_free hfree']
      rfl
    rw [bind_run halloc, bind_run (statement_run g hinsert)]
    rfl

/-! ## The assignments -/

/-- Some nodes assigned to a probe. -/
def assigned (id : Int) (nodes : List Int) (t : Table PingNodeRow.key) : Table PingNodeRow.key :=
  nodes.foldl (fun t node => t.put ⟨id, node⟩) t

/-- An assignment is nothing but its key. -/
theorem pingNodeRow_ext {a b : PingNodeRow} (h : a.key = b.key) : a = b := by
  obtain ⟨task, node⟩ := a
  obtain ⟨task', node'⟩ := b
  obtain ⟨rfl, rfl⟩ := Prod.mk.inj h
  rfl

/-- The assignments after a list was assigned. -/
theorem mem_assigned {id : Int} {nodes : List Int} {t : Table PingNodeRow.key} {r : PingNodeRow} :
    r ∈ (assigned id nodes t).rows ↔ r ∈ t.rows ∨ (r.taskId = id ∧ r.nodeId ∈ nodes) := by
  induction nodes generalizing t with
  | nil =>
    constructor
    · exact .inl
    · rintro (hr | ⟨-, hr⟩)
      · exact hr
      · cases hr
  | cons node rest ih =>
    rw [assigned, List.foldl_cons, ← assigned, ih, Table.mem_put, List.mem_cons]
    constructor
    · rintro ((rfl | ⟨hr, -⟩) | ⟨htask, hr⟩)
      · exact .inr ⟨rfl, .inl rfl⟩
      · exact .inl hr
      · exact .inr ⟨htask, .inr hr⟩
    · rintro (hr | ⟨htask, hnode | hr⟩)
      · by_cases hkey : r.key = PingNodeRow.key ⟨id, node⟩
        · exact .inl (.inl (pingNodeRow_ext hkey))
        · exact .inl (.inr ⟨hr, hkey⟩)
      · exact .inl (.inl (by rw [← htask, ← hnode]))
      · exact .inr ⟨htask, hr⟩

/-- The store once the loop is through. -/
theorem assignNodes_spec {id : Int} {seen nodes : List Int} {s s' : Session Store Guard} {u : Unit}
    (h : assignNodes id seen nodes s = (.ok u, s')) :
    nodes.Nodup ∧ (∀ n ∈ nodes, n ∉ seen) ∧ (∀ n ∈ nodes, s.db.node.Has n) ∧
      s'.db = { s.db with pingNode := assigned id nodes s.db.pingNode } := by
  induction nodes generalizing seen s with
  | nil =>
    rw [(pure_ok h).2]
    exact ⟨List.nodup_nil, fun _ hn => (by cases hn), fun _ hn => (by cases hn), rfl⟩
  | cons node rest ih =>
    obtain ⟨_, s₁, hfresh, h₁⟩ := bind_ok h
    obtain ⟨known, s₂, hquery, h₂⟩ := bind_ok h₁
    obtain ⟨_, s₃, hens, h₃⟩ := bind_ok h₂
    obtain ⟨_, s₄, hinsert, h₄⟩ := bind_ok h₃
    obtain ⟨hunseen, rfl⟩ := ensure_ok hfresh
    obtain ⟨hknown, hdb₂, -⟩ := query_ok hquery
    obtain ⟨htrue, rfl⟩ := ensure_ok hens
    obtain ⟨hstatement, -⟩ := statement_ok hinsert
    obtain ⟨one, hone, hdb₄⟩ := inserted_ok hstatement
    rw [Table.insert?_of_free (Table.insert?_eq_some hone).1, Option.some.injEq] at hone
    rw [← hone, hdb₂] at hdb₄
    have hnode : s₁.db.node.Has node := by
      rw [hknown] at htrue
      exact of_decide_eq_true htrue
    obtain ⟨hnodup, hseen, hhas, hdb⟩ := ih h₄
    rw [hdb₄] at hhas hdb
    refine ⟨?_, ?_, ?_, hdb⟩
    · exact List.nodup_cons.mpr ⟨fun hmem => hseen node hmem List.mem_cons_self, hnodup⟩
    · intro n hn
      rcases List.mem_cons.mp hn with rfl | hn
      · exact hunseen
      · exact fun hmem => hseen n hn (List.mem_cons_of_mem _ hmem)
    · intro n hn
      rcases List.mem_cons.mp hn with rfl | hn
      · exact hnode
      · exact hhas n hn

/-- A list without repetitions, of nodes that are there, is assigned. -/
theorem assignNodes_run {id : Int} {seen nodes : List Int} {db : Store} (g : Guard)
    (hnodup : nodes.Nodup) (hseen : ∀ n ∈ nodes, n ∉ seen) (hhas : ∀ n ∈ nodes, db.node.Has n)
    (hfree : ∀ n ∈ nodes, ¬ db.pingNode.Has (id, n)) :
    assignNodes id seen nodes (willing db g) =
      (.ok (), willing { db with pingNode := assigned id nodes db.pingNode } g) := by
  induction nodes generalizing seen db with
  | nil => rfl
  | cons node rest ih =>
    obtain ⟨hnot, hrest⟩ := List.nodup_cons.mp hnodup
    have hquery : query (fun db : Store => decide (db.node.Has node)) (willing db g) =
        (.ok (decide (db.node.Has node)), willing db g) := statement_run g rfl
    have hinsert : insertAssignment id node db =
        .ok ((), { db with pingNode := db.pingNode.put ⟨id, node⟩ }) := by
      unfold insertAssignment
      have hfree' : ¬ db.pingNode.Has (PingNodeRow.key ⟨id, node⟩) := hfree node List.mem_cons_self
      rw [Table.insert?_of_free hfree']
      rfl
    rw [assignNodes, bind_run (ensure_run _ _ (hseen node List.mem_cons_self)), bind_run hquery,
      bind_run (ensure_run _ _ (decide_eq_true (hhas node List.mem_cons_self))),
      bind_run (statement_run g hinsert)]
    refine ih hrest ?_ (fun n hn => hhas n (List.mem_cons_of_mem _ hn)) ?_
    · intro n hn hmem
      rcases List.mem_cons.mp hmem with rfl | hmem
      · exact hnot hn
      · exact hseen n (List.mem_cons_of_mem _ hn) hmem
    · intro n hn hhas'
      rcases Table.has_put.mp hhas' with heq | hold
      · have hsame : n = node := (Prod.mk.inj heq).2
        exact hnot (hsame ▸ hn)
      · exact hfree n (List.mem_cons_of_mem _ hn) hold

/-! ## The count -/

/-- How many probes a node has. -/
def probesOf (db : Store) (n : Int) : Nat := (db.pingNode.rows.filter fun r => r.nodeId = n).card

/-- No node is crowded. -/
theorem crowded_eq_none {db : Store} :
    crowded db = none ↔ ∀ n, probesOf db n ≤ maxProbesPerNode := by
  unfold crowded probesOf
  change Finset.min _ = ⊤ ↔ _
  rw [Finset.min_eq_top, Finset.filter_eq_empty_iff]
  constructor
  · intro h n
    by_cases hn : ∃ r ∈ db.pingNode.rows, r.nodeId = n
    · obtain ⟨r, hr, rfl⟩ := hn
      exact Nat.not_lt.mp (h (Finset.mem_image_of_mem _ hr))
    · have hempty : (db.pingNode.rows.filter fun r => r.nodeId = n) = ∅ :=
        Finset.filter_eq_empty_iff.mpr fun r hr hrn => hn ⟨r, hr, hrn⟩
      rw [hempty]
      exact Nat.zero_le _
  · intro h n _
    exact Nat.not_lt.mpr (h n)

/-! ## The whole transaction -/

/-- The store after a save that got through. -/
def saved (t : PingTask) (id : Int) (db : Store) : Store :=
  { filed t id db with
    pingNode := assigned id t.nodes (db.pingNode.deleteWhere fun r => r.taskId = id) }

/-- When it gets through. -/
structure Savable (t : PingTask) (id : Int) (db : Store) : Prop where
  /-- There is an id to file it under. -/
  files : FilesUnder t id db
  /-- No node is named twice. -/
  distinct : t.nodes.Nodup
  /-- Every node is there. -/
  known : ∀ n ∈ t.nodes, db.node.Has n
  /-- No node gets one probe too many. -/
  fits : ∀ n, probesOf (saved t id db) n ≤ maxProbesPerNode

/-- A probe that is saved could be. -/
theorem savePingTaskBody_spec {t : PingTask} {s s' : Session Store Guard} {id : Int}
    (h : savePingTaskBody t s = (.ok id, s')) : Savable t id s.db ∧ s'.db = saved t id s.db := by
  obtain ⟨i, s₁, hrow, h₁⟩ := bind_ok h
  obtain ⟨_, s₂, hdelete, h₂⟩ := bind_ok h₁
  obtain ⟨_, s₃, hassign, h₃⟩ := bind_ok h₂
  obtain ⟨_, s₄, hcrowd, h₄⟩ := bind_ok h₃
  obtain ⟨rfl, rfl⟩ := pure_ok h₄
  obtain ⟨hfiles, hdb₁⟩ := savePingTaskRow_spec hrow
  have hdb₂ := (execute_ok hdelete).1
  obtain ⟨hnodup, -, hhas, hdb₃⟩ := assignNodes_spec hassign
  have hsaved : s₃.db = saved t i s.db := by
    rw [hdb₃, hdb₂, hdb₁]
    unfold saved
    rw [filed_pingNode]
  rw [hdb₂, hdb₁] at hhas
  obtain ⟨found, s₅, hquery, hfound⟩ := bind_ok hcrowd
  obtain ⟨hcrowded, hdb₅, -⟩ := query_ok hquery
  cases found with
  | some node => exact absurd hfound fail_ne_ok
  | none =>
    have hdb : s'.db = saved t i s.db := by rw [(pure_ok hfound).2, hdb₅, hsaved]
    refine ⟨⟨hfiles, hnodup, ?_, ?_⟩, hdb⟩
    · intro n hn
      have hnode := hhas n hn
      rwa [filed_node] at hnode
    · rw [hsaved] at hcrowded
      exact crowded_eq_none.mp hcrowded.symm

/-- And one that can be is. -/
theorem savePingTaskBody_run {t : PingTask} {id : Int} {db : Store} (g : Guard)
    (h : Savable t id db) :
    savePingTaskBody t (willing db g) = (.ok id, willing (saved t id db) g) := by
  have hdelete : (execute fun db : Store => { db with
      pingNode := db.pingNode.deleteWhere fun r => r.taskId = id } : StoreJob Unit)
      (willing (filed t id db) g) = (.ok (), willing { filed t id db with
        pingNode := db.pingNode.deleteWhere fun r => r.taskId = id } g) := by
    refine statement_run g ?_
    change Except.ok ((), { filed t id db with
      pingNode := (filed t id db).pingNode.deleteWhere fun r => r.taskId = id }) = _
    rw [filed_pingNode]
  have hassign : assignNodes id [] t.nodes (willing { filed t id db with
      pingNode := db.pingNode.deleteWhere fun r => r.taskId = id } g) =
      (.ok (), willing (saved t id db) g) := by
    refine assignNodes_run g h.distinct (fun _ _ hmem => (by cases hmem)) ?_ ?_
    · intro n hn
      have hnode := h.known n hn
      rwa [← filed_node t id db] at hnode
    · rintro n - ⟨r, hr, hkey⟩
      exact (Table.mem_deleteWhere.mp hr).2 (Prod.mk.inj hkey).1
  have hcrowd : refuseCrowd (willing (saved t id db) g) = (.ok (), willing (saved t id db) g) := by
    have hquery : query crowded (willing (saved t id db) g) =
        (.ok none, willing (saved t id db) g) := by
      rw [← crowded_eq_none.mpr h.fits]
      exact statement_run g rfl
    unfold refuseCrowd
    rw [bind_run hquery]
    rfl
  unfold savePingTaskBody
  rw [bind_run (savePingTaskRow_run g h.files), bind_run hdelete, bind_run hassign, bind_run hcrowd]
  rfl

end Romi.SavedProbes
