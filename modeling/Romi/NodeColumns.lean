import Romi.StoreAreas

/-!
# Which columns of the nodes a write leaves alone

Where the panel lists a node and which country it is shown in rest on a few
columns. A write that sets only others leaves those of every node as they were,
wherever it breaks off, so each subject judges the few writes that are left.
-/

namespace Romi.NodeColumns

open CachedTransactions CachedTransactions.Job KeyedTable NodeContinuity StoreAnswers StoreGuard
  StoreInvariant StoreJobs StoreOperations StoreSchema TrafficFold

variable {β : Type} [DecidableEq β] (φ : NodeRow → β)

/-- Some columns of the nodes that are there. -/
def columns (db : Store) : Finset β := db.node.rows.image φ

/-- The nodes that are there show the same in these columns. -/
def Same (db db' : Store) : Prop := columns φ db' = columns φ db

/-- A write that neither makes nor removes nodes and leaves the columns of each alone. -/
def Spares : Solo → Prop
  | .createNodeWithin _ _ _ _ | .deleteNode _ => False
  | .updateNode _ p => ∀ r, φ (p.applyTo r) = φ r
  | .setExpiry _ date => ∀ r, φ { r with expiresAt := some date } = φ r
  | .setDownSince _ ts => ∀ r, φ { r with downSince := ts } = φ r
  | .reorderNodes _ => ∀ (r : NodeRow) (sort priority : Int),
      φ { r with sort := sort, priority := priority } = φ r
  | .resetToken _ _ => ∀ r hash, φ (withToken hash r) = φ r
  | .saveFacts _ f ip => ∀ r, φ (storeFacts f ip r) = φ r
  | .setCountry _ cc _ => ∀ r, φ { r with country := cc } = φ r
  | _ => True

variable {φ}

/-- A column is that of the rows. -/
theorem mem_columns {db : Store} {c : β} : c ∈ columns φ db ↔ ∃ r ∈ db.node.rows, φ r = c :=
  Finset.mem_image

/-- The same nodes have the same columns. -/
theorem same_of_node {db db' : Store} (h : db'.node = db.node) : Same φ db db' := by
  unfold Same columns
  rw [h]

/-- One write after the other. -/
theorem Same.trans {db db' db'' : Store} (h : Same φ db db') (h' : Same φ db' db'') :
    Same φ db db'' := Eq.trans h' h

/-- An update of other columns. -/
theorem same_updateWhere {db : Store} {p : NodeRow → Prop} [DecidablePred p]
    {f : NodeRow → NodeRow} {hf : ∀ r, (f r).id = r.id} (h : ∀ r, φ (f r) = φ r) :
    Same φ db { db with node := db.node.updateWhere p f hf } := by
  have hrow : ∀ r, φ (if p r then f r else r) = φ r := by
    intro r
    split
    · exact h r
    · rfl
  unfold Same
  ext c
  rw [mem_columns, mem_columns]
  constructor
  · rintro ⟨s, hs, rfl⟩
    obtain ⟨r, hr, rfl⟩ := (Table.mem_updateWhere hf).mp hs
    exact ⟨r, hr, (hrow r).symm⟩
  · rintro ⟨r, hr, rfl⟩
    exact ⟨_, (Table.mem_updateWhere hf).mpr ⟨r, hr, rfl⟩, hrow r⟩

section Jobs

variable {db₀ : Store}

/-- A statement that keeps a column. -/
theorem same_statement {α : Type} {f : Store → Except Failure (α × Store)}
    (hf : ∀ db x db', f db = .ok (x, db') → Same φ db db') :
    Keeps (Same φ db₀) (statement f : StoreJob α) :=
  Preserves.statement fun db x db' _ h hs => hs.trans (hf db x db' h)

/-- An update that keeps it. -/
theorem same_execute {f : Store → Store} (hf : ∀ db, Same φ db (f db)) :
    Keeps (Same φ db₀) (execute f : StoreJob Unit) :=
  Preserves.execute fun db _ hs => hs.trans (hf db)

/-- A statement about other tables. -/
theorem same_aside {f : Store → Store} (hf : ∀ db, (f db).node = db.node) :
    Keeps (Same φ db₀) (execute f : StoreJob Unit) := same_execute fun db => same_of_node (hf db)

/-- One that answers too. -/
theorem same_answer {α : Type} {f : Store → α} {g : Store → Store} (hg : ∀ db, Same φ db (g db)) :
    Keeps (Same φ db₀) (statement fun db => .ok (f db, g db) : StoreJob α) := by
  refine same_statement ?_
  intro db x db' h
  rw [Except.ok.injEq, Prod.mk.injEq] at h
  rw [← h.2]
  exact hg db

/-- An INSERT into another table. -/
theorem same_inserted {ρ κ : Type} [DecidableEq ρ] [DecidableEq κ] {key : ρ → κ}
    {t : Store → Option (Table key)} {g : Table key → Store → Store}
    (hg : ∀ rows db, (g rows db).node = db.node) :
    Keeps (Same φ db₀)
      (statement fun db => inserted (t db) fun rows => g rows db : StoreJob Unit) := by
  refine same_statement ?_
  intro db x db' h
  obtain ⟨rows, -, hdb⟩ := inserted_ok h
  rw [hdb]
  exact same_of_node (hg rows db)

/-- Ordering nodes keeps what does not depend on the order. -/
theorem reorderFrom_same (hmoved : ∀ (r : NodeRow) (sort priority : Int),
    φ { r with sort := sort, priority := priority } = φ r) (count sort : Nat) (ids : List Int) :
    Keeps (Same φ db₀) (reorderFrom count sort ids) := by
  induction ids generalizing sort with
  | nil => exact Preserves.pure ()
  | cons id rest ih =>
    exact (same_answer fun db => same_updateWhere fun r => hmoved r _ _).bind fun _ =>
      (Preserves.ensure _ _).bind fun _ => ih (sort + 1)

/-- Resetting a token keeps what does not depend on it. -/
theorem resetToken_same (htoken : ∀ r hash, φ (withToken hash r) = φ r)
    (sha256 : String → String) (id : Int) (token : String) :
    Keeps (Same φ db₀) (resetToken sha256 id token) := by
  refine same_statement ?_
  intro db x db' h
  unfold setToken at h
  split at h
  · cases h
  · cases h
    exact same_updateWhere fun r => htoken r _

/-- What a machine tells keeps what does not depend on that. -/
theorem saveFacts_same {f : JsonValue.Json} {ip : String} (hfacts : ∀ r, φ (storeFacts f ip r) = φ r)
    (id : Int) : Keeps (Same φ db₀) (saveFacts id f ip) := by
  refine (same_execute fun db => same_updateWhere hfacts).bind fun _ => same_statement ?_
  intro db b db' h
  split at h
  · cases h
    exact same_of_node rfl
  · cases h

/-- Correcting counters keeps every column. -/
theorem setTraffic_same (nodeId : Int) (p : TrafficPatch) (clock : Clock) :
    Keeps (Same φ db₀) (setTraffic nodeId p clock) := by
  refine (Preserves.query _).bind ?_
  intro day
  cases day with
  | none => exact Preserves.pure false
  | some d => exact Preserves.bind (same_aside (by intro; rfl)) fun _ => Preserves.pure true

/-- So does pruning. -/
theorem prune_same (now keepDays : Int) : Keeps (Same φ db₀) (prune now keepDays) :=
  Keeps.transaction <| Preserves.bind (same_aside (by intro; rfl)) fun _ =>
    Preserves.bind (same_aside (by intro; rfl)) fun _ =>
      Preserves.bind (same_answer (by intro; exact same_of_node rfl)) fun _ =>
        Preserves.bind (same_answer (by intro; exact same_of_node rfl)) fun _ =>
          Preserves.bind (same_aside (by intro; rfl)) fun _ =>
            Preserves.bind (same_aside (by intro; rfl)) fun _ => Preserves.pure _

/-- So does giving an id. -/
theorem allocId_same (name : String) : Keeps (Same φ db₀) (allocId name) := by
  refine (same_statement ?_).bind ?_
  · intro db found db' h
    rw [takeId, Except.ok.injEq, Prod.mk.injEq] at h
    rw [← h.2]
    exact same_of_node rfl
  · intro found
    cases found with
    | none => exact Preserves.fail _
    | some i => exact Preserves.pure i

/-- So does assigning a probe. -/
theorem assignNodes_same (id : Int) (seen list : List Int) :
    Keeps (Same φ db₀) (assignNodes id seen list) := by
  induction list generalizing seen with
  | nil => exact Preserves.pure ()
  | cons node rest ih =>
    exact (Preserves.ensure _ _).bind fun _ => (Preserves.query _).bind fun _ =>
      (Preserves.ensure _ _).bind fun _ =>
        Preserves.bind (same_inserted (by intro _ _; rfl)) fun _ => ih _

/-- So does saving one. -/
theorem savePingTask_same (t : PingTask) : Keeps (Same φ db₀) (savePingTask t) := by
  refine Keeps.commitThen (Preserves.bind ?_ fun id => Preserves.bind (same_aside (by intro; rfl))
    fun _ => (assignNodes_same _ _ _).bind fun _ => Preserves.bind ?_ fun _ => Preserves.pure id) _
  · unfold savePingTaskRow
    refine Preserves.ite _ ?_ ?_
    · exact Preserves.bind (same_answer (by intro; exact same_of_node rfl)) fun _ =>
        (Preserves.ensure _ _).bind fun _ => Preserves.pure _
    · exact (allocId_same _).bind fun id =>
        Preserves.bind (same_inserted (by intro _ _; rfl)) fun _ => Preserves.pure id
  · refine (Preserves.query _).bind fun found => ?_
    cases found with
    | none => exact Preserves.pure ()
    | some node => exact Preserves.fail _

/-- So does deleting one. -/
theorem deletePingTask_same (id : Int) : Keeps (Same φ db₀) (deletePingTask id) := by
  refine Keeps.commitThen (Keeps.executeAll ?_) _
  intro f hf db hs
  simp only [taskSweep, List.mem_cons, List.not_mem_nil, or_false] at hf
  rcases hf with rfl | rfl | rfl | rfl <;> exact hs.trans (same_of_node rfl)

end Jobs

/-! ## Every write -/

/-- What a write spares is the same after it. -/
theorem solo_same (host : Host) (db₀ : Store) {op : Solo} (hop : Spares φ op) :
    Keeps (Same φ db₀) (op.job host) := by
  cases op with
  | createNodeWithin now n token cap => exact absurd hop (fun h => h)
  | deleteNode id => exact absurd hop (fun h => h)
  | updateNode id p => exact boxed_preserves (same_answer fun _ => same_updateWhere hop) _
  | setExpiry id date => exact boxed_preserves (same_execute fun _ => same_updateWhere hop) _
  | setDownSince id ts => exact boxed_preserves (same_execute fun _ => same_updateWhere hop) _
  | reorderNodes ids =>
    refine boxed_preserves ((Preserves.ensure _ _).bind fun _ => Keeps.transaction ?_) _
    exact (Preserves.query _).bind fun _ => (Preserves.ensure _ _).bind fun _ =>
      reorderFrom_same hop _ _ _
  | resetToken id token => exact boxed_preserves (resetToken_same hop _ id token) _
  | saveFacts id f ip => exact boxed_preserves (saveFacts_same hop id) _
  | setCountry id cc ip => exact boxed_preserves (same_execute fun _ => same_updateWhere hop) _
  | setTraffic nodeId p clock => exact boxed_preserves (setTraffic_same nodeId p clock) _
  | prune now keepDays => exact boxed_preserves (prune_same now keepDays) _
  | savePingTask t => exact boxed_preserves (savePingTask_same t) _
  | deletePingTask id => exact boxed_preserves (deletePingTask_same id) _
  | set key value => exact boxed_preserves (same_aside (by intro; rfl)) _
  | createSession tokenHash expiresAt => exact boxed_preserves (same_aside (by intro; rfl)) _
  | dropSession tokenHash => exact boxed_preserves (same_aside (by intro; rfl)) _
  | dropAllSessions => exact boxed_preserves (same_aside (by intro; rfl)) _
  | expireSessions now => exact boxed_preserves (same_aside (by intro; rfl)) _

/-- Telemetry sets no column of a node but those of its last report. -/
theorem telemetry_same (hseen : ∀ grace ts r, φ (seen grace ts r) = φ r) (host : Host) (db₀ : Store)
    (op : Telemetry) : Keeps (Same φ db₀) (op.job host) := by
  cases op with
  | touchSeen id ts => exact boxed_preserves (same_execute fun _ => same_updateWhere (hseen _ ts)) _
  | accumulate nodeId r =>
    refine boxed_preserves (Preserves.readCache.bind fun g => Preserves.ite _ ?_
      (Preserves.pure none)) _
    refine (same_statement ?_).bind fun folded => Preserves.pure (some folded)
    intro db folded db' h
    unfold accumulateOn at h
    split at h
    · cases h
      exact same_of_node rfl
    · cases h
  | insertMetric nodeId ts m =>
    refine boxed_preserves (Preserves.readCache.bind fun g => Preserves.ite _ ?_
      (Preserves.pure ())) _
    exact Preserves.bind (Preserves.ite _ (same_aside (by intro; rfl)) (Preserves.pure ()))
      fun _ => Preserves.bind (same_inserted (by intro _ _; rfl)) fun _ => Keeps.modifyCache _
  | insertPing nodeId taskId ts latency =>
    refine boxed_preserves (Preserves.readCache.bind fun g => Preserves.ite _ ?_
      (Preserves.pure ())) _
    exact Preserves.bind (Preserves.ite _ (same_aside (by intro; rfl)) (Preserves.pure ()))
      fun _ => Preserves.bind (same_inserted (by intro _ _; rfl)) fun _ => Keeps.modifyCache _

/-- However a write ends. -/
theorem ran_same {host : Host} {op : Solo} (hop : Spares φ op) {db db' : Store}
    {answer : Except Failure Payload} (h : Ran host op db answer db') : Same φ db db' := by
  obtain ⟨session, rfl, rfl, -⟩ := h
  exact solo_same host _ hop session rfl

/-! ## Nodes that come and go -/

/-- A creation adds one node; the columns set after its insert are none of these. -/
theorem made_columns {host : Host} {now : Int} {n : NewNode} {token : String}
    {cap : Option (Int × Int)} {id : Int} {db db' : Store} (hset : ∀ r, φ (setNewNode n r) = φ r)
    (h : Ran host (.createNodeWithin now n token cap) db (.ok (.id id)) db') (c : β) :
    c ∈ columns φ db' ↔
      c = φ (newNodeRow id n (host.sha256 token) (nextSort db) now) ∨ c ∈ columns φ db := by
  obtain ⟨made, s, s', hid, rfl, hbody, rfl⟩ := ran_commitThen_ok (p := .id) rfl h
  cases hid
  obtain ⟨-, -, rows, traffic, hinsert, hafter⟩ := createNodeBody_spec hbody
  have hsame : Same φ { counted "node" s.db with node := rows, traffic := traffic }
      (updateNodeRow id (setNewNode n) (fun _ => rfl)
        { counted "node" s.db with node := rows, traffic := traffic }) := same_updateWhere hset
  rw [hafter, hsame, mem_columns, mem_columns]
  constructor
  · rintro ⟨r, hr, rfl⟩
    rcases (Table.mem_of_insert? hinsert).mp hr with rfl | hr
    · exact .inl rfl
    · exact .inr ⟨r, hr, rfl⟩
  · rintro (rfl | ⟨r, hr, rfl⟩)
    · exact ⟨_, (Table.mem_of_insert? hinsert).mpr (.inl rfl), rfl⟩
    · exact ⟨r, (Table.mem_of_insert? hinsert).mpr (.inr hr), rfl⟩

/-- A deletion leaves the other nodes. -/
theorem removed_columns {host : Host} {id : Int} {db db' : Store}
    (h : Ran host (.deleteNode id) db (.ok .nothing) db') (c : β) :
    c ∈ columns φ db' ↔ ∃ r ∈ db.node.rows, r.id ≠ id ∧ φ r = c := by
  obtain ⟨_, s, s', -, rfl, hbody, rfl⟩ := ran_commitThen_ok (p := fun _ => .nothing) rfl h
  have hswept : s'.db = withoutNode id s.db := (executeAll_ok hbody).1
  have hrows : ∀ q, q ∈ (withoutNode id s.db).node.rows ↔ q ∈ s.db.node.rows ∧ q.id ≠ id :=
    fun q => Table.mem_deleteWhere
  rw [hswept, mem_columns]
  constructor
  · rintro ⟨r, hr, rfl⟩
    exact ⟨r, ((hrows r).mp hr).1, ((hrows r).mp hr).2, rfl⟩
  · rintro ⟨r, hr, hne, rfl⟩
    exact ⟨r, (hrows r).mpr ⟨hr, hne⟩, rfl⟩

end Romi.NodeColumns
