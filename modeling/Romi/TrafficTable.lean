import Romi.StoreAreas

/-!
# What the writes do to booked traffic

A node's traffic is made with the node, folded by its reports, corrected by the
panel and removed with the node; every other write leaves the table alone. A
property of the table that the four keep is kept by every write, wherever it
breaks off.
-/

namespace Romi.TrafficTable

open CachedTransactions CachedTransactions.Job KeyedTable StoreAnswers StoreAreas StoreJobs
  StoreOperations StoreSchema TrafficFold

/-- A property of the traffic table that a new node's row and the reports keep. -/
structure Trafficked (P : Store → Prop) : Prop where
  /-- What leaves the counters alone. -/
  aside : ∀ {db db' : Store}, db'.traffic = db.traffic → P db → P db'
  /-- A node gets its counters. -/
  made : ∀ (id : Int) {db db' : Store} {u : Unit}, insertTraffic id db = .ok (u, db') → P db → P db'
  /-- A report is booked. -/
  reported : ∀ (nodeId : Int) (r : Report) {db db' : Store} {t : Traffic},
    accumulateOn nodeId r db = .ok (t, db') → P db → P db'

variable {P : Store → Prop} (hP : Trafficked P)

include hP

/-! ## Statements -/

/-- An update that leaves the counters alone. -/
theorem traffic_execute {f : Store → Store} (hf : ∀ db, (f db).traffic = db.traffic) :
    Keeps P (execute f : StoreJob Unit) :=
  Preserves.execute fun db _ hdb => hP.aside (hf db) hdb

/-- A statement that does. -/
theorem traffic_statement {α : Type} {f : Store → Except Failure (α × Store)}
    (hf : ∀ db x db', f db = .ok (x, db') → db'.traffic = db.traffic) :
    Keeps P (statement f : StoreJob α) :=
  Preserves.statement fun db x db' _ h hdb => hP.aside (hf db x db' h) hdb

/-- A statement that answers and does not look at traffic. -/
theorem traffic_answering {α : Type} {f : Store → α} {g : Store → Store}
    (hg : ∀ db, (g db).traffic = db.traffic) :
    Keeps P (statement fun db => .ok (f db, g db) : StoreJob α) := by
  refine traffic_statement hP ?_
  intro db x db' h
  rw [Except.ok.injEq, Prod.mk.injEq] at h
  rw [← h.2]
  exact hg db

/-- An INSERT into another table. -/
theorem traffic_inserted {ρ κ : Type} [DecidableEq ρ] [DecidableEq κ] {key : ρ → κ}
    {t : Store → Option (Table key)} {g : Table key → Store → Store}
    (hg : ∀ rows db, (g rows db).traffic = db.traffic) :
    Keeps P (statement fun db => inserted (t db) fun rows => g rows db : StoreJob Unit) := by
  refine traffic_statement hP ?_
  intro db x db' h
  obtain ⟨rows, -, hdb⟩ := inserted_ok h
  rw [hdb]
  exact hg rows db

/-! ## The writes of several statements -/

/-- Giving an id. -/
theorem allocId_trafficked (name : String) : Keeps P (allocId name) := by
  refine Preserves.bind (traffic_statement hP ?_) ?_
  · intro db found db' h
    rw [takeId, Except.ok.injEq, Prod.mk.injEq] at h
    rw [← h.2]
  · intro found
    cases found with
    | none => exact Preserves.fail _
    | some i => exact Preserves.pure i

/-- Creating a node. -/
theorem createNodeWithin_trafficked (sha256 : String → String) (now : Int) (n : NewNode)
    (token : String) (cap : Option (Int × Int)) :
    Keeps P (createNodeWithin sha256 now n token cap) := by
  have hcap : Keeps P (checkCap cap) := by
    cases cap with
    | none => exact Preserves.pure ()
    | some c => exact (Preserves.query _).bind fun _ => Preserves.ensure _ _
  refine Keeps.commitThen ?_ _
  refine hcap.bind fun _ => (allocId_trafficked hP _).bind fun id =>
    Preserves.bind (traffic_statement hP ?_) fun _ =>
      (Preserves.statement fun db u db' _ h hdb => hP.made id h hdb).bind fun _ =>
        Preserves.bind (traffic_execute hP (by intro; rfl)) fun _ => Preserves.pure id
  intro db x db' h
  unfold insertNode at h
  split at h
  · cases h
  · obtain ⟨rows, -, hdb⟩ := inserted_ok h
    rw [hdb]

/-- Ordering nodes. -/
theorem reorderFrom_trafficked (count sort : Nat) (ids : List Int) :
    Keeps P (reorderFrom count sort ids) := by
  induction ids generalizing sort with
  | nil => exact Preserves.pure ()
  | cons id rest ih =>
    exact Preserves.bind (traffic_answering hP (by intro; rfl)) fun _ =>
      (Preserves.ensure _ _).bind fun _ => ih (sort + 1)

/-- Resetting a token. -/
theorem resetToken_trafficked (sha256 : String → String) (id : Int) (token : String) :
    Keeps P (resetToken sha256 id token) := by
  refine traffic_statement hP ?_
  intro db x db' h
  unfold setToken at h
  split at h
  · cases h
  · cases h
    rfl

/-- What a machine tells of itself. -/
theorem saveFacts_trafficked (id : Int) (f : JsonValue.Json) (ip : String) :
    Keeps P (saveFacts id f ip) := by
  refine Preserves.bind (traffic_execute hP (by intro; rfl)) fun _ => traffic_statement hP ?_
  intro db b db' h
  split at h
  · cases h
    rfl
  · cases h

/-- Saving a probe. -/
theorem savePingTask_trafficked (t : PingTask) : Keeps P (savePingTask t) := by
  have hassign : ∀ (id : Int) (seen list : List Int), Keeps P (assignNodes id seen list) := by
    intro id seen list
    induction list generalizing seen with
    | nil => exact Preserves.pure ()
    | cons node rest ih =>
      exact (Preserves.ensure _ _).bind fun _ => (Preserves.query _).bind fun _ =>
        (Preserves.ensure _ _).bind fun _ =>
          Preserves.bind (traffic_inserted hP (by intros; rfl)) fun _ => ih _
  refine Keeps.commitThen (Preserves.bind ?_ fun id =>
    Preserves.bind (traffic_execute hP (by intro; rfl)) fun _ =>
      (hassign _ _ _).bind fun _ => Preserves.bind ?_ fun _ => Preserves.pure id) _
  · unfold savePingTaskRow
    refine Preserves.ite _ ?_ ?_
    · exact Preserves.bind (traffic_answering hP (by intro; rfl)) fun _ => (Preserves.ensure _ _).bind
        fun _ => Preserves.pure _
    · exact (allocId_trafficked hP _).bind fun id =>
        Preserves.bind (traffic_inserted hP (by intros; rfl)) fun _ => Preserves.pure id
  · refine (Preserves.query _).bind fun found => ?_
    cases found with
    | none => exact Preserves.pure ()
    | some node => exact Preserves.fail _

/-- Pruning. -/
theorem prune_trafficked (now keepDays : Int) : Keeps P (prune now keepDays) :=
  Keeps.transaction <| Preserves.bind (traffic_execute hP (by intro; rfl)) fun _ =>
    Preserves.bind (traffic_execute hP (by intro; rfl)) fun _ =>
      Preserves.bind (traffic_answering hP (by intro; rfl)) fun _ =>
        Preserves.bind (traffic_answering hP (by intro; rfl)) fun _ =>
          Preserves.bind (traffic_execute hP (by intro; rfl)) fun _ =>
            Preserves.bind (traffic_execute hP (by intro; rfl)) fun _ => Preserves.pure _

/-! ## Every write -/

/-- A write keeps such a property wherever it breaks off, if a removal of a node
and a correction do. -/
theorem solo_trafficked (host : Host) {op : Solo}
    (hremoved : ∀ id, op = .deleteNode id → ∀ db, P db →
      P { db with traffic := db.traffic.deleteWhere fun r => r.nodeId = id })
    (hcorrected : ∀ nodeId p clock, op = .setTraffic nodeId p clock →
      Keeps P (setTraffic nodeId p clock)) : Keeps P (op.job host) := by
  cases op with
  | set key value => exact boxed_preserves (traffic_execute hP (by intro; rfl)) _
  | createNodeWithin now n token cap => exact boxed_preserves (createNodeWithin_trafficked hP _ _ _ _ _) _
  | updateNode id p => exact boxed_preserves (traffic_answering hP (by intro; rfl)) _
  | setExpiry id date => exact boxed_preserves (traffic_execute hP (by intro; rfl)) _
  | setDownSince id ts => exact boxed_preserves (traffic_execute hP (by intro; rfl)) _
  | reorderNodes ids =>
    refine boxed_preserves ((Preserves.ensure _ _).bind fun _ => Keeps.transaction ?_) _
    exact (Preserves.query _).bind fun _ => (Preserves.ensure _ _).bind fun _ =>
      reorderFrom_trafficked hP _ _ _
  | deleteNode id =>
    refine boxed_preserves (Keeps.commitThen (Keeps.executeAll ?_) _) _
    intro f hf db hdb
    simp only [nodeSweep, List.mem_cons, List.not_mem_nil, or_false] at hf
    rcases hf with rfl | rfl | rfl | rfl | rfl | rfl | rfl
    case inr.inr.inr.inr.inl => exact hremoved id rfl db hdb
    all_goals
      refine hP.aside ?_ hdb
      rfl
  | resetToken id token => exact boxed_preserves (resetToken_trafficked hP _ id token) _
  | saveFacts id f ip => exact boxed_preserves (saveFacts_trafficked hP id f ip) _
  | setCountry id cc ip => exact boxed_preserves (traffic_execute hP (by intro; rfl)) _
  | setTraffic nodeId p clock => exact boxed_preserves (hcorrected nodeId p clock rfl) _
  | prune now keepDays => exact boxed_preserves (prune_trafficked hP now keepDays) _
  | savePingTask t => exact boxed_preserves (savePingTask_trafficked hP t) _
  | deletePingTask id =>
    refine boxed_preserves (Keeps.commitThen (Keeps.executeAll ?_) _) _
    intro f hf db hdb
    simp only [taskSweep, List.mem_cons, List.not_mem_nil, or_false] at hf
    refine hP.aside ?_ hdb
    rcases hf with rfl | rfl | rfl | rfl <;> rfl
  | createSession tokenHash expiresAt => exact boxed_preserves (traffic_execute hP (by intro; rfl)) _
  | dropSession tokenHash => exact boxed_preserves (traffic_execute hP (by intro; rfl)) _
  | dropAllSessions => exact boxed_preserves (traffic_execute hP (by intro; rfl)) _
  | expireSessions now => exact boxed_preserves (traffic_execute hP (by intro; rfl)) _

/-- So with telemetry. -/
theorem telemetry_trafficked (host : Host) (op : Telemetry) : Keeps P (op.job host) := by
  cases op with
  | touchSeen id ts => exact boxed_preserves (traffic_execute hP (by intro; rfl)) _
  | accumulate nodeId r =>
    refine boxed_preserves (Preserves.readCache.bind fun g => Preserves.ite _ ?_
      (Preserves.pure none)) _
    exact Preserves.bind (Preserves.statement fun db t db' _ hrun hdb =>
      hP.reported nodeId r hrun hdb) fun t => Preserves.pure (some t)
  | insertMetric nodeId ts m =>
    refine boxed_preserves (Preserves.readCache.bind fun g => Preserves.ite _ ?_
      (Preserves.pure ())) _
    exact Preserves.bind (Preserves.ite _ (traffic_execute hP (by intro; rfl)) (Preserves.pure ()))
      fun _ => Preserves.bind (traffic_inserted hP (by intros; rfl)) fun _ => Keeps.modifyCache _
  | insertPing nodeId taskId ts latency =>
    refine boxed_preserves (Preserves.readCache.bind fun g => Preserves.ite _ ?_
      (Preserves.pure ())) _
    exact Preserves.bind (Preserves.ite _ (traffic_execute hP (by intro; rfl)) (Preserves.pure ()))
      fun _ => Preserves.bind (traffic_inserted hP (by intros; rfl)) fun _ => Keeps.modifyCache _

end Romi.TrafficTable
