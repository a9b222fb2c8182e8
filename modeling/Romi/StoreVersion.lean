import Romi.StoreOperations

/-!
# No write touches the version row

The schema record is written when a database is opened or built and by nobody
else, so a database that could be opened can be opened again after any
sequence of writes, whether they succeed or break off.
-/

namespace Romi.StoreVersion

open CachedTransactions HourlyRollup JsonValue KeyedTable StoreGuard StoreJobs StoreOperations
  StoreSchema TrafficFold
open CachedTransactions.Job

/-- The database carries this schema record. -/
def Recorded (version : Table RomiSchemaRow.id) (db : Store) : Prop := db.romiSchema = version

section Statements

variable {version : Table RomiSchemaRow.id}

/-- An update that leaves the version alone does so as a job. -/
theorem execute_keeps {f : Store → Store} (hf : ∀ db, (f db).romiSchema = db.romiSchema) :
    Keeps (Recorded version) (execute f : StoreJob Unit) :=
  Preserves.execute fun db _ h => (hf db).trans h

/-- So does a statement. -/
theorem statement_keeps {α : Type} {f : Store → Except Failure (α × Store)}
    (hf : ∀ db a db', f db = .ok (a, db') → db'.romiSchema = db.romiSchema) :
    Keeps (Recorded version) (statement f : StoreJob α) :=
  Preserves.statement fun db a db' _ h hdb => (hf db a db' h).trans hdb

/-- A plain INSERT. -/
theorem insert_keeps {τ : Type} {ins : Store → Except Failure (Unit × Store)}
    {t : Store → Option τ} {f : Store → τ → Store} (hins : ∀ db, ins db = inserted (t db) (f db))
    (hf : ∀ db t, (f db t).romiSchema = db.romiSchema) :
    Keeps (Recorded version) (statement ins : StoreJob Unit) := by
  refine statement_keeps ?_
  intro db u db' h
  rw [hins] at h
  obtain ⟨t', -, rfl⟩ := inserted_ok h
  exact hf db t'

/-- The counters of a new node leave it alone. -/
theorem insertTraffic_keeps (id : Int) :
    Keeps (Recorded version) (statement (insertTraffic id) : StoreJob Unit) :=
  insert_keeps (fun _ => rfl) fun _ _ => rfl

/-- So does a new probe. -/
theorem insertPingTask_keeps (row : PingTaskRow) :
    Keeps (Recorded version) (statement (insertPingTask row) : StoreJob Unit) :=
  insert_keeps (fun _ => rfl) fun _ _ => rfl

/-- So does an assignment. -/
theorem insertAssignment_keeps (taskId nodeId : Int) :
    Keeps (Recorded version) (statement (insertAssignment taskId nodeId) : StoreJob Unit) :=
  insert_keeps (fun _ => rfl) fun _ _ => rfl

/-- So does a minute. -/
theorem insertMetricRow_keeps (row : MetricRow) :
    Keeps (Recorded version) (statement (insertMetricRow row) : StoreJob Unit) :=
  insert_keeps (fun _ => rfl) fun _ _ => rfl

/-- So does a result. -/
theorem insertPingRow_keeps (row : PingRecordRow) :
    Keeps (Recorded version) (statement (insertPingRow row) : StoreJob Unit) :=
  insert_keeps (fun _ => rfl) fun _ _ => rfl

/-- What is done with an answer leaves it alone. -/
theorem boxed_keeps {α : Type} {x : StoreJob α} (hx : Keeps (Recorded version) x)
    (f : α → Payload) : Keeps (Recorded version) (boxed x f) := hx.bind fun _ => Preserves.pure _

/-- So does giving an id. -/
theorem allocId_keeps (name : String) : Keeps (Recorded version) (allocId name) := by
  refine (statement_keeps ?_).bind ?_
  · intro db a db' h
    cases h
    rfl
  · intro id
    cases id with
    | none => exact Preserves.fail _
    | some id => exact Preserves.pure id

/-! ## The writes that run on their own -/

/-- So does creating a node. -/
theorem createNode_keeps (sha256 : String → String) (now : Int) (n : NewNode) (token : String)
    (cap : Option (Int × Int)) :
    Keeps (Recorded version) (createNodeWithin sha256 now n token cap) := by
  have hcap : Keeps (Recorded version) (checkCap cap) := by
    cases cap with
    | none => exact Preserves.pure ()
    | some c => exact (Preserves.query _).bind fun _ => Preserves.ensure _ _
  have hnode : ∀ id, Keeps (Recorded version) (statement fun db =>
      insertNode (newNodeRow id n (sha256 token) (nextSort db) now) db : StoreJob Unit) := by
    intro id
    refine statement_keeps ?_
    intro db u db' h
    unfold insertNode at h
    split at h
    · cases h
    · obtain ⟨t, -, rfl⟩ := inserted_ok h
      rfl
  exact Keeps.commitThen (hcap.bind fun _ => (allocId_keeps "node").bind fun id =>
    (hnode id).bind fun _ => (insertTraffic_keeps id).bind fun _ => (execute_keeps fun _ => by rfl).bind fun _ => Preserves.pure id) _

/-- So does ordering nodes. -/
theorem reorderFrom_keeps (count sort : Nat) (ids : List Int) :
    Keeps (Recorded version) (reorderFrom count sort ids) := by
  induction ids generalizing sort with
  | nil => exact Preserves.pure ()
  | cons id rest ih =>
    refine (statement_keeps ?_).bind fun _ => (Preserves.ensure _ _).bind fun _ => ih (sort + 1)
    intro db a db' h
    cases h
    rfl

/-- So does setting a token. -/
theorem setToken_keeps (id : Int) (hash : String) :
    Keeps (Recorded version) (statement (setToken id hash) : StoreJob Unit) := by
  refine statement_keeps ?_
  intro db a db' h
  unfold setToken at h
  split at h
  · cases h
  · cases h
    rfl

/-- So does what a machine tells of itself. -/
theorem saveFacts_keeps (id : Int) (f : Json) (ip : String) :
    Keeps (Recorded version) (saveFacts id f ip) := by
  refine (execute_keeps fun _ => by rfl).bind fun _ => statement_keeps ?_
  intro db a db' h
  split at h
  · cases h
    rfl
  · cases h

/-- So does correcting counters. -/
theorem setTraffic_keeps (nodeId : Int) (p : TrafficPatch) (clock : Clock) :
    Keeps (Recorded version) (setTraffic nodeId p clock) := by
  refine (Preserves.query _).bind ?_
  intro day
  cases day with
  | none => exact Preserves.pure false
  | some day => exact (execute_keeps fun _ => by rfl).bind fun _ => Preserves.pure true

/-- So does pruning. -/
theorem prune_keeps (now keepDays : Int) : Keeps (Recorded version) (prune now keepDays) := by
  have hcount : ∀ f : Store → Nat × Store, (∀ db, (f db).2.romiSchema = db.romiSchema) →
      Keeps (Recorded version) (statement fun db => .ok (f db) : StoreJob Nat) := by
    intro f hf
    refine statement_keeps ?_
    intro db a db' h
    have hfdb := hf db
    rwa [Except.ok.inj h] at hfdb
  exact Keeps.transaction ((execute_keeps fun _ => by rfl).bind fun _ =>
    (execute_keeps fun _ => by rfl).bind fun _ => (hcount _ fun _ => by rfl).bind fun a =>
    (hcount _ fun _ => by rfl).bind fun b => (execute_keeps fun _ => by rfl).bind fun _ =>
    (execute_keeps fun _ => by rfl).bind fun _ => Preserves.pure (a + b))

/-- So does saving the row of a probe. -/
theorem savePingTaskRow_keeps (t : PingTask) : Keeps (Recorded version) (savePingTaskRow t) := by
  refine Preserves.ite _ ?_ ?_
  · refine (statement_keeps ?_).bind fun _ => (Preserves.ensure _ _).bind fun _ => Preserves.pure t.id
    intro db a db' h
    cases h
    rfl
  · exact (allocId_keeps "ping_task").bind fun id => (insertPingTask_keeps _).bind
      fun _ => Preserves.pure id

/-- So does assigning it to nodes. -/
theorem assignNodes_keeps (taskId : Int) (seen nodes : List Int) :
    Keeps (Recorded version) (assignNodes taskId seen nodes) := by
  induction nodes generalizing seen with
  | nil => exact Preserves.pure ()
  | cons node rest ih =>
    exact (Preserves.ensure _ _).bind fun _ => (Preserves.query _).bind fun _ =>
      (Preserves.ensure _ _).bind fun _ => (insertAssignment_keeps taskId node).bind
        fun _ => ih (node :: seen)

/-- So does saving a probe. -/
theorem savePingTask_keeps (t : PingTask) : Keeps (Recorded version) (savePingTask t) := by
  have hcrowd : Keeps (Recorded version) refuseCrowd := by
    refine (Preserves.query _).bind ?_
    intro found
    cases found with
    | none => exact Preserves.pure ()
    | some node => exact Preserves.fail _
  exact Keeps.commitThen ((savePingTaskRow_keeps t).bind fun id =>
    (execute_keeps fun _ => by rfl).bind fun _ => (assignNodes_keeps id [] t.nodes).bind fun _ =>
    hcrowd.bind fun _ => Preserves.pure id) _

/-- Deletes by key from application tables. -/
theorem sweep_keeps {fs : List (Store → Store)}
    (hf : ∀ f ∈ fs, ∀ db, (f db).romiSchema = db.romiSchema) {α : Type} (g : Unit → Guard → Guard)
    (k : Unit → α) : Keeps (Recorded version) (do
      let u ← commitThen (executeAll fs) g
      pure (k u) : StoreJob α) :=
  (Keeps.commitThen (Keeps.executeAll fun f hmem db h => (hf f hmem db).trans h) g).bind
    fun _ => Preserves.pure _

/-- Wherever a write that runs on its own breaks off, the schema record stands. -/
theorem Solo.keeps (host : Host) (op : Solo) : Keeps (Recorded version) (op.job host) := by
  have hexec : ∀ {f : Store → Store} (k : Unit → Payload),
      (∀ db, (f db).romiSchema = db.romiSchema) →
      Keeps (Recorded version) (boxed (execute f : StoreJob Unit) k) :=
    fun k hf => boxed_keeps (execute_keeps hf) k
  cases op with
  | set key value => exact hexec _ fun _ => by rfl
  | createNodeWithin now n token cap => exact boxed_keeps (createNode_keeps _ now n token cap) _
  | updateNode id p =>
    refine boxed_keeps (statement_keeps ?_) _
    intro db a db' h
    cases h
    rfl
  | setExpiry id date => exact hexec _ fun _ => by rfl
  | setDownSince id ts => exact hexec _ fun _ => by rfl
  | reorderNodes ids =>
    exact boxed_keeps ((Preserves.ensure _ _).bind fun _ => Keeps.transaction
      ((Preserves.query _).bind fun _ => (Preserves.ensure _ _).bind fun _ =>
        reorderFrom_keeps _ _ _)) _
  | deleteNode id =>
    refine sweep_keeps ?_ _ _
    intro f hf db
    simp only [nodeSweep, List.mem_cons, List.not_mem_nil, or_false] at hf
    rcases hf with rfl | rfl | rfl | rfl | rfl | rfl | rfl <;> rfl
  | resetToken id token => exact boxed_keeps (setToken_keeps id _) _
  | saveFacts id f ip => exact boxed_keeps (saveFacts_keeps id f ip) _
  | setCountry id cc ip => exact hexec _ fun _ => by rfl
  | setTraffic nodeId p clock => exact boxed_keeps (setTraffic_keeps nodeId p clock) _
  | prune now keepDays => exact boxed_keeps (prune_keeps now keepDays) _
  | savePingTask t => exact boxed_keeps (savePingTask_keeps t) _
  | deletePingTask id =>
    refine sweep_keeps ?_ _ _
    intro f hf db
    simp only [taskSweep, List.mem_cons, List.not_mem_nil, or_false] at hf
    rcases hf with rfl | rfl | rfl | rfl <;> rfl
  | createSession tokenHash expiresAt => exact hexec _ fun _ => by rfl
  | dropSession tokenHash => exact hexec _ fun _ => by rfl
  | dropAllSessions => exact hexec _ fun _ => by rfl
  | expireSessions now => exact hexec _ fun _ => by rfl

/-! ## Telemetry -/

/-- So does booking counters. -/
theorem accumulate_keeps (nodeId : Int) (r : Report) :
    Keeps (Recorded version) (accumulate nodeId r) := by
  refine Preserves.readCache.bind fun _ => Preserves.ite _ ?_ (Preserves.pure none)
  refine (statement_keeps ?_).bind fun _ => Preserves.pure _
  intro db a db' h
  unfold accumulateOn at h
  split at h
  · cases h
    rfl
  · cases h

/-- The two inserts: a guarded delete, the insert, the guard. -/
theorem replace_keeps {p : Prop} [Decidable p] {del : Store → Store}
    {ins : Store → Except Failure (Unit × Store)} (raise : Guard → Guard)
    (hdel : ∀ db, (del db).romiSchema = db.romiSchema)
    (hins : Keeps (Recorded version) (statement ins : StoreJob Unit)) :
    Keeps (Recorded version) (do
      onlyIf p (execute del)
      statement ins
      modifyCache raise : StoreJob Unit) :=
  (Preserves.ite _ (execute_keeps hdel) (Preserves.pure ())).bind fun _ =>
    hins.bind fun _ => Keeps.modifyCache raise

/-- Wherever a telemetry write breaks off, the schema record stands. -/
theorem Telemetry.keeps (host : Host) (op : Telemetry) : Keeps (Recorded version) (op.job host) := by
  cases op with
  | touchSeen id ts => exact boxed_keeps (execute_keeps fun _ => by rfl) _
  | accumulate nodeId r => exact boxed_keeps (accumulate_keeps nodeId r) _
  | insertMetric nodeId ts m =>
    refine boxed_keeps (Preserves.readCache.bind fun _ => Preserves.ite _ ?_ (Preserves.pure ())) _
    exact replace_keeps _ (fun _ => by rfl) (insertMetricRow_keeps _)
  | insertPing nodeId taskId ts latency =>
    refine boxed_keeps (Preserves.readCache.bind fun _ => Preserves.ite _ ?_ (Preserves.pure ())) _
    exact replace_keeps _ (fun _ => by rfl) (insertPingRow_keeps _)

end Statements

end Romi.StoreVersion
