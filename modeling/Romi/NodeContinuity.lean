import Romi.StoreOperations

/-!
# What the writes of the hub do to the node rows

Ids of nodes come from a counter that only grows, so a row is either the same
node as before or a node nobody has heard of. Most writes leave the token, the
creation time and `down_since` of a row alone; `Touches` names the nodes for
which a write does not.
-/

namespace Romi.NodeContinuity

open CachedTransactions CachedTransactions.Job KeyedTable StoreGuard StoreInvariant StoreJobs
  StoreOperations StoreSchema TrafficFold

/-! ## One store after another -/

/-- The counter of node ids has passed this one. -/
def Issued (db : Store) (n : Int) : Prop :=
  ∃ c ∈ db.romiId.rows, c.name = "node" ∧ n < c.next

/-- The nodes a write singles out. -/
structure Touches where
  /-- Their `down_since` may change. -/
  moved : Int → Prop
  /-- Their token may change. -/
  rekeyed : Int → Prop
  /-- They may vanish. -/
  removed : Int → Prop

/-- No node at all. -/
def Touches.none : Touches := ⟨fun _ => False, fun _ => False, fun _ => False⟩

/-- The same node in a later row. -/
structure Kept (t : Touches) (r r' : NodeRow) : Prop where
  /-- The id is the same. -/
  id : r'.id = r.id
  /-- So is when it went down, unless the write is about that. -/
  downSince : ¬ t.moved r.id → r'.downSince = r.downSince
  /-- So is its token, unless the write is about that. -/
  tokenHash : ¬ t.rekeyed r.id → r'.tokenHash = r.tokenHash
  /-- So is when it was created. -/
  createdAt : r'.createdAt = r.createdAt
  /-- It was last seen no earlier. -/
  lastSeen : r.lastSeen ≤ r'.lastSeen

/-- A row is its own later row. -/
theorem Kept.refl (t : Touches) (r : NodeRow) : Kept t r r :=
  ⟨rfl, fun _ => rfl, fun _ => rfl, rfl, le_refl _⟩

/-- And so is a later row of a later row. -/
theorem Kept.trans {t : Touches} {a b c : NodeRow} (h : Kept t a b) (h' : Kept t b c) :
    Kept t a c := by
  refine ⟨h'.id.trans h.id, ?_, ?_, h'.createdAt.trans h.createdAt, h.lastSeen.trans h'.lastSeen⟩
  · intro hn
    rw [h'.downSince (by rwa [h.id]), h.downSince hn]
  · intro hn
    rw [h'.tokenHash (by rwa [h.id]), h.tokenHash hn]

/-- A row nobody had before: its id was not issued yet. -/
structure Newborn (t : Touches) (db db' : Store) (r : NodeRow) : Prop where
  /-- Its id was not given before. -/
  unissued : ¬ Issued db r.id
  /-- It is given now. -/
  issued : Issued db' r.id
  /-- No row had it, unless that is deleted. -/
  absent : ¬ t.removed r.id → ¬ db.node.Has r.id
  /-- It is up, unless the write is about that. -/
  downSince : ¬ t.moved r.id → r.downSince = 0
  /-- It was last seen at some time. -/
  lastSeen : 0 ≤ r.lastSeen

/-- The node table of the second store continues that of the first. -/
structure Continues (t : Touches) (db db' : Store) : Prop where
  /-- Every row is a later row or a new one. -/
  rows : ∀ r' ∈ db'.node.rows, (∃ r ∈ db.node.rows, Kept t r r') ∨ Newborn t db db' r'
  /-- No row vanishes unless it is to be deleted. -/
  stays : ∀ r ∈ db.node.rows, ¬ t.removed r.id → db'.node.Has r.id
  /-- An id that was given stays given. -/
  issued : ∀ n, Issued db n → Issued db' n

/-- A store continues itself. -/
theorem Continues.refl (t : Touches) (db : Store) : Continues t db db :=
  ⟨fun r hr => .inl ⟨r, hr, Kept.refl t r⟩, fun r hr _ => ⟨r, hr, rfl⟩, fun _ h => h⟩

/-- And so does what continues a store that does. -/
theorem Continues.trans {t : Touches} {a b c : Store} (h : Continues t a b)
    (h' : Continues t b c) : Continues t a c := by
  refine ⟨?_, ?_, fun n hn => h'.issued n (h.issued n hn)⟩
  · intro r hr
    rcases h'.rows r hr with ⟨q, hq, hkept⟩ | hnew
    · rcases h.rows q hq with ⟨p, hp, hkept'⟩ | hnew
      · exact .inl ⟨p, hp, hkept'.trans hkept⟩
      · refine .inr ⟨?_, ?_, ?_, ?_, hnew.lastSeen.trans hkept.lastSeen⟩
        · rw [hkept.id]
          exact hnew.unissued
        · rw [hkept.id]
          exact h'.issued _ hnew.issued
        · rw [hkept.id]
          exact hnew.absent
        · intro hn
          rw [hkept.id] at hn
          rw [hkept.downSince hn, hnew.downSince hn]
    · refine .inr ⟨fun hi => hnew.unissued (h.issued _ hi), hnew.issued, ?_, hnew.downSince,
        hnew.lastSeen⟩
      rintro hn ⟨q, hq, hid⟩
      have hstays := h.stays q hq (by rwa [hid])
      rw [hid] at hstays
      exact hnew.absent hn hstays
  · intro r hr hn
    obtain ⟨q, hq, hid⟩ := h.stays r hr hn
    have hstays := h'.stays q hq (by rwa [hid])
    rwa [hid] at hstays

/-- A write that leaves nodes and counters alone. -/
theorem Continues.of_eq {t : Touches} {db db' : Store} (hnode : db'.node = db.node)
    (hids : db'.romiId = db.romiId) : Continues t db db' := by
  refine ⟨?_, ?_, ?_⟩
  · intro r hr
    rw [hnode] at hr
    exact .inl ⟨r, hr, Kept.refl t r⟩
  · intro r hr _
    rw [hnode]
    exact ⟨r, hr, rfl⟩
  · intro n hn
    unfold Issued at hn ⊢
    rwa [hids]

/-- A row that is gone stays gone: its id was issued. -/
theorem Continues.gone {t : Touches} {db db' : Store} (h : Continues t db db') {n : Int}
    (hissued : Issued db n) (hno : ¬ db.node.Has n) : ¬ db'.node.Has n := by
  rintro ⟨r', hr', rfl⟩
  rcases h.rows r' hr' with ⟨r, hr, hkept⟩ | hnew
  · exact hno ⟨r, hr, hkept.id.symm⟩
  · exact hnew.unissued hissued

/-- A row that is not removed is still there. -/
theorem Continues.kept {t : Touches} {db db' : Store} (h : Continues t db db') {r : NodeRow}
    (hr : r ∈ db.node.rows) (hstays : ¬ t.removed r.id) : ∃ r' ∈ db'.node.rows, Kept t r r' := by
  obtain ⟨r', hr', hid⟩ := h.stays r hr hstays
  refine ⟨r', hr', ?_⟩
  rcases h.rows r' hr' with ⟨q, hq, hsame⟩ | hnew
  · have hqr : q = r := db.node.unique q hq r hr (hsame.id.symm.trans hid)
    rwa [hqr] at hsame
  · rw [← hid] at hstays
    exact absurd ⟨r, hr, hid.symm⟩ (hnew.absent hstays)

/-- A row that is not singled out is still there under its token. -/
theorem Continues.token {t : Touches} {db db' : Store} (h : Continues t db db') {r : NodeRow}
    (hr : r ∈ db.node.rows) (hkept : ¬ t.rekeyed r.id) (hstays : ¬ t.removed r.id) :
    ∃ r' ∈ db'.node.rows, r'.id = r.id ∧ r'.tokenHash = r.tokenHash := by
  obtain ⟨r', hr', hsame⟩ := h.kept hr hstays
  exact ⟨r', hr', hsame.id, hsame.tokenHash hkept⟩

/-! ## Statements -/

/-- An update of rows that keeps what is to be kept. -/
theorem continues_updateWhere {t : Touches} {db : Store} {p : NodeRow → Prop} [DecidablePred p]
    {f : NodeRow → NodeRow} {hf : ∀ r, (f r).id = r.id} (hkept : ∀ r, p r → Kept t r (f r)) :
    Continues t db { db with node := db.node.updateWhere p f hf } := by
  refine ⟨?_, ?_, fun _ h => h⟩
  · intro r' hr'
    obtain ⟨r, hr, rfl⟩ := (Table.mem_updateWhere hf).mp hr'
    refine .inl ⟨r, hr, ?_⟩
    by_cases hp : p r
    · rw [if_pos hp]
      exact hkept r hp
    · rw [if_neg hp]
      exact Kept.refl t r
  · intro r hr _
    exact (Table.has_updateWhere hf).mpr ⟨r, hr, rfl⟩

/-- The same for the rows with one id. -/
theorem continues_updateNodeRow {t : Touches} {db : Store} {id : Int} {f : NodeRow → NodeRow}
    {hf : ∀ r, (f r).id = r.id} (hkept : ∀ r, r.id = id → Kept t r (f r)) :
    Continues t db (updateNodeRow id f hf db) := continues_updateWhere hkept

/-- A job that relates the store to one before it by what it keeps of nodes. -/
theorem keeps_execute {t : Touches} {db₀ : Store} {f : Store → Store}
    (hf : ∀ db, Continues t db (f db)) : Keeps (Continues t db₀) (execute f : StoreJob Unit) :=
  Preserves.execute fun db _ h => h.trans (hf db)

/-- A statement that leads on keeps it so. -/
theorem keeps_statement {α : Type} {t : Touches} {db₀ : Store}
    {f : Store → Except Failure (α × Store)} (hf : ∀ db a db', f db = .ok (a, db') →
      Continues t db db') : Keeps (Continues t db₀) (statement f : StoreJob α) :=
  Preserves.statement fun db a db' _ h hs => hs.trans (hf db a db' h)

/-- A statement about other tables. -/
theorem keeps_aside {t : Touches} {db₀ : Store} {f : Store → Store}
    (hnode : ∀ db, (f db).node = db.node) (hids : ∀ db, (f db).romiId = db.romiId) :
    Keeps (Continues t db₀) (execute f : StoreJob Unit) :=
  keeps_execute fun db => .of_eq (hnode db) (hids db)

/-- The update of one node's row as a job. -/
theorem keeps_updateNodeRow {t : Touches} {db₀ : Store} {id : Int} {f : NodeRow → NodeRow}
    {hf : ∀ r, (f r).id = r.id} (hkept : ∀ r, r.id = id → Kept t r (f r)) :
    Keeps (Continues t db₀) (execute (updateNodeRow id f hf) : StoreJob Unit) :=
  keeps_execute fun _ => continues_updateNodeRow hkept

/-! ## Creating a node -/

/-- Counting on keeps the name of a counter. -/
theorem next_name (r : RomiIdRow) : ({ r with next := r.next + 1 } : RomiIdRow).name = r.name := rfl

/-- The counter one further. -/
def counted (name : String) (db : Store) : Store :=
  { db with
    romiId := db.romiId.updateWhere (fun r => r.name = name)
      (fun r => { r with next := r.next + 1 }) next_name }

/-- `alloc_id` hands out the counter and moves it on. -/
theorem allocId_spec {name : String} {s s' : Session Store Guard} {id : Int}
    (h : allocId name s = (.ok id, s')) :
    s.db.romiId.find? name = some ⟨name, id⟩ ∧
      s'.db = counted name s.db := by
  obtain ⟨found, s₁, hstmt, hrest⟩ := bind_ok h
  obtain ⟨htake, -⟩ := statement_ok hstmt
  rw [takeId, Except.ok.injEq, Prod.mk.injEq] at htake
  cases found with
  | none => exact absurd hrest fail_ne_ok
  | some i =>
    obtain ⟨rfl, rfl⟩ := pure_ok hrest
    refine ⟨?_, htake.2.symm⟩
    cases hfind : s.db.romiId.find? name with
    | none =>
      rw [hfind, Option.map_none] at htake
      cases htake.1
    | some c =>
      rw [hfind, Option.map_some, Option.some.injEq] at htake
      have hname : c.name = name := (Table.find?_eq_some.mp hfind).2
      rw [← htake.1, ← hname]

/-- What the transaction of a creation did, with the id and the row it made. -/
theorem createNodeBody_spec {sha256 : String → String} {now : Int} {n : NewNode} {token : String}
    {cap : Option (Int × Int)} {s s' : Session Store Guard} {id : Int}
    (h : createNodeBody sha256 now n token cap s = (.ok id, s')) :
    s.db.romiId.find? "node" = some ⟨"node", id⟩ ∧
      (∀ since limit, cap = some (since, limit) →
        ((s.db.node.rows.filter fun r => r.createdAt ≥ since).card : Int) < limit) ∧
      ∃ nodes traffic,
        s.db.node.insert? (newNodeRow id n (sha256 token) (nextSort s.db) now) = some nodes ∧
        s'.db = updateNodeRow id (setNewNode n) (fun _ => rfl)
          { counted "node" s.db with node := nodes, traffic := traffic } := by
  obtain ⟨_, s₁, hcap, h⟩ := bind_ok h
  obtain ⟨id', s₂, halloc, h⟩ := bind_ok h
  obtain ⟨_, s₃, hinsert, h⟩ := bind_ok h
  obtain ⟨_, s₄, htraffic, h⟩ := bind_ok h
  obtain ⟨_, s₅, hset, h⟩ := bind_ok h
  obtain ⟨rfl, rfl⟩ := pure_ok h
  have hdb₁ := (checkCap_ok hcap).1
  obtain ⟨hcounter, hdb₂⟩ := allocId_spec halloc
  rw [hdb₁] at hcounter hdb₂
  obtain ⟨hins, -⟩ := statement_ok hinsert
  obtain ⟨htr, -⟩ := statement_ok htraffic
  have hset' := (execute_ok hset).1
  refine ⟨hcounter, ?_, ?_⟩
  · intro since limit hsome
    rw [hsome] at hcap
    obtain ⟨made, s₆, hq, hens⟩ := bind_ok hcap
    rw [← (query_ok hq).1]
    exact (ensure_ok hens).1
  · unfold insertNode at hins
    split at hins
    · cases hins
    · obtain ⟨nodes, hnodes, hdb₃⟩ := inserted_ok hins
      obtain ⟨traffic, -, hdb₄⟩ := inserted_ok htr
      refine ⟨nodes, traffic, ?_, ?_⟩
      · rw [hdb₂] at hnodes
        exact hnodes
      · rw [hset', hdb₄, hdb₃, hdb₂]

/-- The counter stands at an id that was not issued. -/
theorem unissued_next {db : Store} {id : Int}
    (h : db.romiId.find? "node" = some ⟨"node", id⟩) : ¬ Issued db id := by
  rintro ⟨c, hc, hname, hlt⟩
  obtain ⟨hrow, -⟩ := Table.find?_eq_some.mp h
  have hsame : c = ⟨"node", id⟩ := db.romiId.unique c hc _ hrow hname
  rw [hsame] at hlt
  exact lt_irrefl _ hlt

/-- A counter after an id was handed out. -/
def stepped (name : String) (c : RomiIdRow) : RomiIdRow :=
  if c.name = name then { c with next := c.next + 1 } else c

/-- A counter that steps goes up. -/
theorem stepped_le (name : String) (c : RomiIdRow) :
    (stepped name c).name = c.name ∧ c.next ≤ (stepped name c).next := by
  unfold stepped
  split
  · exact ⟨rfl, by dsimp only; omega⟩
  · exact ⟨rfl, le_refl _⟩

/-- Every counter is there after one has stepped. -/
theorem mem_counted {db : Store} {name : String} {c : RomiIdRow} (h : c ∈ db.romiId.rows) :
    stepped name c ∈ (counted name db).romiId.rows := by
  have hkey : ∀ r : RomiIdRow, ({ r with next := r.next + 1 } : RomiIdRow).name = r.name :=
    fun _ => rfl
  exact (Table.mem_updateWhere hkey).mpr ⟨c, h, rfl⟩

/-- Counters only grow. -/
theorem issued_counted {db : Store} {name : String} {n : Int} (h : Issued db n) :
    Issued (counted name db) n := by
  obtain ⟨c, hc, hname, hlt⟩ := h
  obtain ⟨hsame, hle⟩ := stepped_le name c
  exact ⟨stepped name c, mem_counted hc, hsame.trans hname, lt_of_lt_of_le hlt hle⟩

/-- The id handed out is issued from then on. -/
theorem issued_next {db : Store} {id : Int}
    (h : db.romiId.find? "node" = some ⟨"node", id⟩) : Issued (counted "node" db) id := by
  obtain ⟨hrow, -⟩ := Table.find?_eq_some.mp h
  have hstep : stepped "node" ⟨"node", id⟩ = ⟨"node", id + 1⟩ := rfl
  exact ⟨_, mem_counted hrow, by rw [hstep], by rw [hstep]; exact Int.lt_add_one_of_le (le_refl _)⟩

/-- A creation adds one newborn row. -/
theorem continues_createNode {t : Touches} {sha256 : String → String} {now : Int} {n : NewNode}
    {token : String} {cap : Option (Int × Int)} {s s' : Session Store Guard} {id : Int}
    (h : createNodeBody sha256 now n token cap s = (.ok id, s')) : Continues t s.db s'.db := by
  obtain ⟨hcounter, -, nodes, traffic, hinsert, hdb⟩ := createNodeBody_spec h
  rw [hdb]
  refine Continues.trans (b := { counted "node" s.db with node := nodes, traffic := traffic }) ?_ ?_
  · refine ⟨?_, ?_, fun k hk => issued_counted hk⟩
    · intro r hr
      rcases (Table.mem_of_insert? hinsert).mp hr with rfl | hr
      · exact .inr ⟨unissued_next hcounter, issued_next hcounter,
          fun _ => (Table.insert?_eq_some hinsert).1, fun _ => rfl, le_refl _⟩
      · exact .inl ⟨r, hr, Kept.refl t r⟩
    · intro r hr _
      exact ⟨r, (Table.mem_of_insert? hinsert).mpr (.inr hr), rfl⟩
  · exact continues_updateNodeRow fun r _ => ⟨rfl, fun _ => rfl, fun _ => rfl, rfl, le_refl _⟩

/-- Creating a node adds a row nobody had. -/
theorem createNodeWithin_continues (t : Touches) (db₀ : Store) (sha256 : String → String)
    (now : Int) (n : NewNode) (token : String) (cap : Option (Int × Int)) :
    Keeps (Continues t db₀) (createNodeWithin sha256 now n token cap) := by
  refine Preserves.commitThen (createNodeBody_cacheKept sha256 now n token cap) ?_
  intro s id s' h hs
  exact hs.trans (continues_createNode h)

/-! ## The other writes -/

/-- The nodes a write singles out. -/
def touchesOf : Solo → Touches
  | .setDownSince id _ => { Touches.none with moved := fun n => n = id }
  | .resetToken id _ => { Touches.none with rekeyed := fun n => n = id }
  | .deleteNode id => { Touches.none with removed := fun n => n = id }
  | _ => Touches.none

/-- Deleting a node takes away its row. -/
theorem deleteNode_continues (t : Touches) (db₀ : Store) (id : Int) (hid : t.removed id) :
    Keeps (Continues t db₀) (deleteNode id) := by
  refine Preserves.commitThen (CacheKept.executeAll _) ?_
  intro s u s' h hs
  rw [(executeAll_ok h).1]
  refine hs.trans ⟨?_, ?_, fun _ hi => hi⟩
  · intro r hr
    obtain ⟨hr, -⟩ := Table.mem_deleteWhere.mp hr
    exact .inl ⟨r, hr, Kept.refl t r⟩
  · intro r hr hn
    refine ⟨r, Table.mem_deleteWhere.mpr ⟨hr, ?_⟩, rfl⟩
    intro heq
    exact hn (heq ▸ hid)

/-- Resetting a token changes that of the node. -/
theorem resetToken_continues (t : Touches) (db₀ : Store) (sha256 : String → String) (id : Int)
    (token : String) (hid : t.rekeyed id) :
    Keeps (Continues t db₀) (resetToken sha256 id token) := by
  refine keeps_statement ?_
  intro db u db' h
  unfold setToken at h
  split at h
  · cases h
  · cases h
    refine continues_updateNodeRow ?_
    intro r hr
    exact ⟨rfl, fun _ => rfl, fun hn => absurd (hr ▸ hid) hn, rfl, le_refl _⟩

/-- Ordering nodes keeps their rows. -/
theorem reorderFrom_continues (t : Touches) (db₀ : Store) (count sort : Nat) (ids : List Int) :
    Keeps (Continues t db₀) (reorderFrom count sort ids) := by
  induction ids generalizing sort with
  | nil => exact Preserves.pure ()
  | cons id rest ih =>
    refine Preserves.bind (keeps_statement ?_) fun _ => (Preserves.ensure _ _).bind fun _ =>
      ih (sort + 1)
    intro db n db' h
    cases h
    exact continues_updateNodeRow fun r _ => ⟨rfl, fun _ => rfl, fun _ => rfl, rfl, le_refl _⟩

/-- So does ordering all of them. -/
theorem reorderNodes_continues (t : Touches) (db₀ : Store) (ids : List Int) :
    Keeps (Continues t db₀) (reorderNodes ids) :=
  (Preserves.ensure _ _).bind fun _ => Keeps.transaction ((Preserves.query _).bind fun _ =>
    (Preserves.ensure _ _).bind fun _ => reorderFrom_continues t db₀ _ _ _)

/-- Pruning leaves the nodes alone. -/
theorem prune_continues (t : Touches) (db₀ : Store) (now keepDays : Int) :
    Keeps (Continues t db₀) (prune now keepDays) := by
  refine Preserves.transaction (pruneBody_cacheKept _ _) ?_
  intro s n s' h hs
  rw [(pruneBody_ok h).1]
  exact hs.trans (.of_eq rfl rfl)

/-- A counter moves on. -/
theorem continues_counted (t : Touches) (name : String) (db : Store) :
    Continues t db (counted name db) :=
  ⟨fun r hr => .inl ⟨r, hr, Kept.refl t r⟩, fun r hr _ => ⟨r, hr, rfl⟩,
    fun _ hi => issued_counted hi⟩

/-- An id that is given was not given before. -/
theorem allocId_continues (t : Touches) (db₀ : Store) (name : String) :
    Keeps (Continues t db₀) (allocId name) := by
  refine Preserves.bind (keeps_statement ?_) ?_
  · intro db found db' h
    rw [takeId, Except.ok.injEq, Prod.mk.injEq] at h
    rw [← h.2]
    exact continues_counted t name db
  · intro found
    cases found with
    | none => exact Preserves.fail _
    | some i => exact Preserves.pure i

/-- Saving the row of a probe leaves the nodes alone. -/
theorem savePingTaskRow_continues (t : Touches) (db₀ : Store) (task : PingTask) :
    Keeps (Continues t db₀) (savePingTaskRow task) := by
  unfold savePingTaskRow
  refine Preserves.ite _ ?_ ?_
  · refine Preserves.bind (keeps_statement ?_) fun _ => (Preserves.ensure _ _).bind fun _ =>
      Preserves.pure _
    intro db n db' h
    rw [Except.ok.injEq, Prod.mk.injEq] at h
    rw [← h.2]
    exact .of_eq rfl rfl
  · refine Preserves.bind (allocId_continues t db₀ _) fun id =>
      Preserves.bind (keeps_statement ?_) fun _ => Preserves.pure id
    intro db u db' h
    obtain ⟨tasks, -, hdb⟩ := inserted_ok h
    rw [hdb]
    exact .of_eq rfl rfl

/-- So does assigning it to nodes. -/
theorem assignNodes_continues (t : Touches) (db₀ : Store) (id : Int) (seen list : List Int) :
    Keeps (Continues t db₀) (assignNodes id seen list) := by
  induction list generalizing seen with
  | nil => exact Preserves.pure ()
  | cons node rest ih =>
    refine (Preserves.ensure _ _).bind fun _ => (Preserves.query _).bind fun _ =>
      (Preserves.ensure _ _).bind fun _ => Preserves.bind (keeps_statement ?_) fun _ => ih _
    intro db u db' h
    obtain ⟨assigned, -, hdb⟩ := inserted_ok h
    rw [hdb]
    exact .of_eq rfl rfl

/-- So does refusing one probe too many. -/
theorem refuseCrowd_continues (t : Touches) (db₀ : Store) : Keeps (Continues t db₀) refuseCrowd := by
  refine (Preserves.query _).bind ?_
  intro found
  cases found with
  | none => exact Preserves.pure ()
  | some node => exact Preserves.fail _

/-- So does saving a probe. -/
theorem savePingTask_continues (t : Touches) (db₀ : Store) (task : PingTask) :
    Keeps (Continues t db₀) (savePingTask task) := by
  refine Keeps.commitThen ?_ _
  exact (savePingTaskRow_continues t db₀ task).bind fun id =>
    Preserves.bind (keeps_aside (by intro; rfl) (by intro; rfl)) fun _ =>
      (assignNodes_continues t db₀ _ _ _).bind fun _ =>
        (refuseCrowd_continues t db₀).bind fun _ => Preserves.pure id

/-- So does deleting one. -/
theorem deletePingTask_continues (t : Touches) (db₀ : Store) (id : Int) :
    Keeps (Continues t db₀) (deletePingTask id) := by
  refine Preserves.commitThen (CacheKept.executeAll _) ?_
  intro s u s' h hs
  rw [(executeAll_ok h).1]
  exact hs.trans (.of_eq rfl rfl)

/-- What a machine tells of itself keeps its row. -/
theorem saveFacts_continues (t : Touches) (db₀ : Store) (id : Int) (f : JsonValue.Json)
    (ip : String) : Keeps (Continues t db₀) (saveFacts id f ip) := by
  refine Preserves.bind (keeps_updateNodeRow fun r _ =>
    ⟨rfl, fun _ => rfl, fun _ => rfl, rfl, le_refl _⟩) fun _ => keeps_statement ?_
  intro db b db' h
  split at h
  · cases h
    exact .refl t db
  · cases h

/-- Correcting counters leaves the nodes alone. -/
theorem setTraffic_continues (t : Touches) (db₀ : Store) (nodeId : Int) (p : TrafficPatch)
    (clock : Clock) : Keeps (Continues t db₀) (setTraffic nodeId p clock) := by
  refine (Preserves.query _).bind ?_
  intro day
  cases day with
  | none => exact Preserves.pure false
  | some d =>
    exact Preserves.bind (keeps_aside (by intro; rfl) (by intro; rfl)) fun _ => Preserves.pure true

/-- Every write of its own keeps the rows it does not single out. -/
theorem solo_continues (host : Host) (db₀ : Store) (op : Solo) :
    Keeps (Continues (touchesOf op) db₀) (op.job host) := by
  have houtside : ∀ {f : Store → Store} (g : Unit → Payload), (∀ db, (f db).node = db.node) →
      (∀ db, (f db).romiId = db.romiId) →
      Keeps (Continues Touches.none db₀) (boxed (execute f) g) := by
    intro f g hnode hids
    exact boxed_preserves (keeps_aside hnode hids) _
  cases op with
  | set key value => exact houtside _ (fun _ => rfl) fun _ => rfl
  | createNodeWithin now n token cap =>
    exact boxed_preserves (createNodeWithin_continues _ _ _ _ _ _ _) _
  | updateNode id p =>
    refine boxed_preserves (keeps_statement ?_) _
    intro db b db' h
    rw [Except.ok.injEq, Prod.mk.injEq] at h
    rw [← h.2]
    exact continues_updateNodeRow fun r _ => ⟨rfl, fun _ => rfl, fun _ => rfl, rfl, le_refl _⟩
  | setExpiry id date =>
    refine boxed_preserves (keeps_updateNodeRow ?_) _
    intro r _
    exact ⟨rfl, fun _ => rfl, fun _ => rfl, rfl, le_refl _⟩
  | setDownSince id ts =>
    refine boxed_preserves (keeps_updateNodeRow ?_) _
    intro r hr
    exact ⟨rfl, fun hn => absurd hr hn, fun _ => rfl, rfl, le_refl _⟩
  | reorderNodes ids => exact boxed_preserves (reorderNodes_continues _ _ ids) _
  | deleteNode id => exact boxed_preserves (deleteNode_continues _ _ id rfl) _
  | resetToken id token => exact boxed_preserves (resetToken_continues _ _ _ id token rfl) _
  | saveFacts id f ip => exact boxed_preserves (saveFacts_continues _ _ id f ip) _
  | setCountry id cc ip =>
    refine boxed_preserves (keeps_execute fun db => continues_updateWhere ?_) _
    intro r _
    exact ⟨rfl, fun _ => rfl, fun _ => rfl, rfl, le_refl _⟩
  | setTraffic nodeId p clock => exact boxed_preserves (setTraffic_continues _ _ nodeId p clock) _
  | prune now keepDays => exact boxed_preserves (prune_continues _ _ now keepDays) _
  | savePingTask task => exact boxed_preserves (savePingTask_continues _ _ task) _
  | deletePingTask id => exact boxed_preserves (deletePingTask_continues _ _ id) _
  | createSession tokenHash expiresAt => exact houtside _ (fun _ => rfl) fun _ => rfl
  | dropSession tokenHash => exact houtside _ (fun _ => rfl) fun _ => rfl
  | dropAllSessions => exact houtside _ (fun _ => rfl) fun _ => rfl
  | expireSessions now => exact houtside _ (fun _ => rfl) fun _ => rfl

/-- Telemetry singles out nobody. -/
theorem telemetry_continues (host : Host) (db₀ : Store) (op : Telemetry) :
    Keeps (Continues Touches.none db₀) (op.job host) := by
  cases op with
  | touchSeen id ts =>
    refine boxed_preserves (keeps_execute fun db => continues_updateNodeRow ?_) _
    intro r _
    exact ⟨rfl, fun _ => rfl, fun _ => rfl, rfl, le_max_left _ _⟩
  | accumulate nodeId r =>
    refine boxed_preserves (Preserves.readCache.bind fun g => Preserves.ite _ ?_
      (Preserves.pure none)) _
    refine Preserves.bind (keeps_statement ?_) fun folded => Preserves.pure (some folded)
    intro db folded db' h
    unfold accumulateOn at h
    split at h
    · cases h
      exact .of_eq rfl rfl
    · cases h
  | insertMetric nodeId ts m =>
    refine boxed_preserves (Preserves.readCache.bind fun g => Preserves.ite _ ?_
      (Preserves.pure ())) _
    refine Preserves.bind (Preserves.ite _ (keeps_aside (by intro; rfl) (by intro; rfl))
      (Preserves.pure ())) fun _ => Preserves.bind (keeps_statement ?_) fun _ =>
        Keeps.modifyCache _
    intro db u db' h
    obtain ⟨rows, -, hdb⟩ := inserted_ok h
    rw [hdb]
    exact .of_eq rfl rfl
  | insertPing nodeId taskId ts latency =>
    refine boxed_preserves (Preserves.readCache.bind fun g => Preserves.ite _ ?_
      (Preserves.pure ())) _
    refine Preserves.bind (Preserves.ite _ (keeps_aside (by intro; rfl) (by intro; rfl))
      (Preserves.pure ())) fun _ => Preserves.bind (keeps_statement ?_) fun _ =>
        Keeps.modifyCache _
    intro db u db' h
    obtain ⟨rows, -, hdb⟩ := inserted_ok h
    rw [hdb]
    exact .of_eq rfl rfl

end Romi.NodeContinuity
