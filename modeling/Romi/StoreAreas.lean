import Romi.StoreAnswers

/-!
# Which part of the store a write is about

Settings, sessions and probes are read by handlers that know nothing of each
other; a write about one of them leaves the others as they are, wherever it
breaks off.
-/

namespace Romi.StoreAreas

open CachedTransactions CachedTransactions.Job KeyedTable NodeContinuity StoreAnswers StoreGuard
  StoreInvariant StoreJobs StoreOperations StoreSchema TrafficFold

/-- What a write is about. -/
inductive Area
  /-- The settings. -/
  | settings
  /-- The sessions. -/
  | sessions
  /-- Probes and their assignments. -/
  | probes
  /-- Nodes, their traffic and their history. -/
  | nodes
  deriving DecidableEq

/-- The area of a write; deleting a node takes its assignments along. -/
def areaOf : Solo → Area
  | .set _ _ => .settings
  | .createSession _ _ | .dropSession _ | .dropAllSessions | .expireSessions _ => .sessions
  | .savePingTask _ | .deletePingTask _ | .deleteNode _ => .probes
  | _ => .nodes

/-- The second store differs from the first only inside an area, or in tables no area claims. -/
structure Within (a : Area) (db db' : Store) : Prop where
  /-- The settings are the same unless they are meant. -/
  settings : a ≠ .settings → db'.setting = db.setting
  /-- So are the sessions. -/
  sessions : a ≠ .sessions → db'.session = db.session
  /-- So are probes and assignments. -/
  probes : a ≠ .probes → db'.pingTask = db.pingTask ∧ db'.pingNode = db.pingNode

/-- The tables the areas are told apart by. -/
def claimed (db : Store) : Table SettingRow.key × Table SessionRow.tokenHash ×
    Table PingTaskRow.id × Table PingNodeRow.key :=
  (db.setting, db.session, db.pingTask, db.pingNode)

/-- What touches none of these is within any of them. -/
theorem Within.of_claimed {a : Area} {db db' : Store} (h : claimed db' = claimed db) :
    Within a db db' := by
  simp only [claimed, Prod.mk.injEq] at h
  exact ⟨fun _ => h.1, fun _ => h.2.1, fun _ => h.2.2⟩

/-- Nothing is touched by doing nothing. -/
theorem Within.refl (a : Area) (db : Store) : Within a db db := .of_claimed rfl

/-- Two writes within an area are one. -/
theorem Within.trans {a : Area} {db db' db'' : Store} (h : Within a db db')
    (h' : Within a db' db'') : Within a db db'' := by
  refine ⟨?_, ?_, ?_⟩
  · intro ha
    rw [h'.settings ha, h.settings ha]
  · intro ha
    rw [h'.sessions ha, h.sessions ha]
  · intro ha
    rw [(h'.probes ha).1, (h'.probes ha).2]
    exact h.probes ha

/-! ## Writes about nodes -/

/-- The tables that only writes about something else than nodes change; the
counters are among them but for the ids handed out. -/
def bystanders (db : Store) : Table SettingRow.key × Table SessionRow.tokenHash ×
    Table PingTaskRow.id × Table PingNodeRow.key × Table RomiIdRow.name :=
  (db.setting, db.session, db.pingTask, db.pingNode, db.romiId)

/-- A relation between a store and a later one that statements on the other
tables do not break, nor a counter that hands out an id. -/
structure Bystanding (R : Store → Store → Prop) : Prop where
  /-- One after the other. -/
  trans : ∀ {db db' db'' : Store}, R db db' → R db' db'' → R db db''
  /-- What leaves the bystanders alone. -/
  aside : ∀ {db db' : Store}, bystanders db' = bystanders db → R db db'
  /-- An id is given. -/
  counted : ∀ (name : String) (db : Store), R db (counted name db)

section Nodes

variable {R : Store → Store → Prop} (hR : Bystanding R) {db₀ : Store}

include hR

/-- An update that keeps the relation does so as a job. -/
theorem related_execute {f : Store → Store} (hf : ∀ db, R db (f db)) :
    Keeps (R db₀) (execute f : StoreJob Unit) :=
  Preserves.execute fun db _ h => hR.trans h (hf db)

/-- So does a statement. -/
theorem related_statement {α : Type} {f : Store → Except Failure (α × Store)}
    (hf : ∀ db x db', f db = .ok (x, db') → R db db') :
    Keeps (R db₀) (statement f : StoreJob α) :=
  Preserves.statement fun db x db' _ h hs => hR.trans hs (hf db x db' h)

/-- A statement about other tables. -/
theorem aside_execute {f : Store → Store} (hf : ∀ db, bystanders (f db) = bystanders db) :
    Keeps (R db₀) (execute f : StoreJob Unit) :=
  related_execute hR fun db => hR.aside (hf db)

/-- One that answers too. -/
theorem aside_statement {α : Type} {f : Store → α} {g : Store → Store}
    (hg : ∀ db, bystanders (g db) = bystanders db) :
    Keeps (R db₀) (statement fun db => .ok (f db, g db) : StoreJob α) := by
  refine related_statement hR ?_
  intro db x db' h
  rw [Except.ok.injEq, Prod.mk.injEq] at h
  rw [← h.2]
  exact hR.aside (hg db)

/-- An INSERT into a table that a key may refuse. -/
theorem inserted_statement {ρ κ : Type} [DecidableEq ρ] [DecidableEq κ] {key : ρ → κ}
    {t : Store → Option (Table key)} {g : Table key → Store → Store}
    (hg : ∀ rows db, R db (g rows db)) :
    Keeps (R db₀)
      (statement fun db => inserted (t db) fun rows => g rows db : StoreJob Unit) := by
  refine related_statement hR ?_
  intro db x db' h
  obtain ⟨rows, -, hdb⟩ := inserted_ok h
  rw [hdb]
  exact hg rows db

/-- Giving an id keeps it. -/
theorem allocId_related (name : String) : Keeps (R db₀) (allocId name) := by
  refine Preserves.bind (related_statement hR ?_) ?_
  · intro db found db' h
    rw [takeId, Except.ok.injEq, Prod.mk.injEq] at h
    rw [← h.2]
    exact hR.counted name db
  · intro found
    cases found with
    | none => exact Preserves.fail _
    | some i => exact Preserves.pure i

omit hR in
/-- Counting against a limit does. -/
theorem checkCap_related (cap : Option (Int × Int)) : Keeps (R db₀) (checkCap cap) := by
  cases cap with
  | none => exact Preserves.pure ()
  | some c => exact (Preserves.query _).bind fun _ => Preserves.ensure _ _

/-- Creating a node does. -/
theorem createNodeWithin_related (sha256 : String → String) (now : Int) (n : NewNode)
    (token : String) (cap : Option (Int × Int)) :
    Keeps (R db₀) (createNodeWithin sha256 now n token cap) := by
  refine Keeps.commitThen ?_ _
  refine (checkCap_related cap).bind fun _ => (allocId_related hR _).bind fun id =>
    Preserves.bind (related_statement hR ?_) fun _ =>
      Preserves.bind (inserted_statement hR fun _ _ => hR.aside rfl) fun _ =>
        Preserves.bind (aside_execute hR (by intro; rfl)) fun _ => Preserves.pure id
  intro db x db' h
  unfold insertNode at h
  split at h
  · cases h
  · obtain ⟨rows, -, hdb⟩ := inserted_ok h
    rw [hdb]
    exact hR.aside rfl

/-- Ordering nodes does. -/
theorem reorderFrom_related (count sort : Nat) (ids : List Int) :
    Keeps (R db₀) (reorderFrom count sort ids) := by
  induction ids generalizing sort with
  | nil => exact Preserves.pure ()
  | cons id rest ih =>
    exact Preserves.bind (aside_statement hR (by intro; rfl)) fun _ =>
      (Preserves.ensure _ _).bind fun _ => ih (sort + 1)

/-- Resetting a token does. -/
theorem resetToken_related (sha256 : String → String) (id : Int) (token : String) :
    Keeps (R db₀) (resetToken sha256 id token) := by
  refine related_statement hR ?_
  intro db x db' h
  unfold setToken at h
  split at h
  · cases h
  · cases h
    exact hR.aside rfl

/-- What a machine tells of itself does. -/
theorem saveFacts_related (id : Int) (f : JsonValue.Json) (ip : String) :
    Keeps (R db₀) (saveFacts id f ip) := by
  refine Preserves.bind (aside_execute hR (by intro; rfl)) fun _ => related_statement hR ?_
  intro db b db' h
  split at h
  · cases h
    exact hR.aside rfl
  · cases h

/-- Correcting counters does. -/
theorem setTraffic_related (nodeId : Int) (p : TrafficPatch) (clock : Clock) :
    Keeps (R db₀) (setTraffic nodeId p clock) := by
  refine (Preserves.query _).bind ?_
  intro day
  cases day with
  | none => exact Preserves.pure false
  | some d => exact Preserves.bind (aside_execute hR (by intro; rfl)) fun _ => Preserves.pure true

/-- Pruning does. -/
theorem prune_related (now keepDays : Int) : Keeps (R db₀) (prune now keepDays) :=
  Keeps.transaction <| Preserves.bind (aside_execute hR (by intro; rfl)) fun _ =>
    Preserves.bind (aside_execute hR (by intro; rfl)) fun _ =>
      Preserves.bind (aside_statement hR (by intro; rfl)) fun _ =>
        Preserves.bind (aside_statement hR (by intro; rfl)) fun _ =>
          Preserves.bind (aside_execute hR (by intro; rfl)) fun _ =>
            Preserves.bind (aside_execute hR (by intro; rfl)) fun _ => Preserves.pure _

/-- A write about nodes keeps every such relation. -/
theorem solo_related (host : Host) {op : Solo} (hop : areaOf op = .nodes) :
    Keeps (R db₀) (op.job host) := by
  cases op with
  | createNodeWithin now n token cap =>
    exact boxed_preserves (createNodeWithin_related hR _ _ _ _ _) _
  | updateNode id p => exact boxed_preserves (aside_statement hR (by intro; rfl)) _
  | setExpiry id date => exact boxed_preserves (aside_execute hR (by intro; rfl)) _
  | setDownSince id ts => exact boxed_preserves (aside_execute hR (by intro; rfl)) _
  | reorderNodes ids =>
    refine boxed_preserves ((Preserves.ensure _ _).bind fun _ => Keeps.transaction ?_) _
    exact (Preserves.query _).bind fun _ => (Preserves.ensure _ _).bind fun _ =>
      reorderFrom_related hR _ _ _
  | resetToken id token => exact boxed_preserves (resetToken_related hR _ id token) _
  | saveFacts id f ip => exact boxed_preserves (saveFacts_related hR id f ip) _
  | setCountry id cc ip => exact boxed_preserves (aside_execute hR (by intro; rfl)) _
  | setTraffic nodeId p clock => exact boxed_preserves (setTraffic_related hR nodeId p clock) _
  | prune now keepDays => exact boxed_preserves (prune_related hR now keepDays) _
  | _ => cases hop

/-- Telemetry is about nodes. -/
theorem telemetry_related (host : Host) (op : Telemetry) : Keeps (R db₀) (op.job host) := by
  cases op with
  | touchSeen id ts => exact boxed_preserves (aside_execute hR (by intro; rfl)) _
  | accumulate nodeId r =>
    refine boxed_preserves (Preserves.readCache.bind fun g => Preserves.ite _ ?_
      (Preserves.pure none)) _
    refine Preserves.bind (related_statement hR ?_) fun folded => Preserves.pure (some folded)
    intro db folded db' h
    unfold accumulateOn at h
    split at h
    · cases h
      exact hR.aside rfl
    · cases h
  | insertMetric nodeId ts m =>
    refine boxed_preserves (Preserves.readCache.bind fun g => Preserves.ite _ ?_
      (Preserves.pure ())) _
    exact Preserves.bind (Preserves.ite _ (aside_execute hR (by intro; rfl)) (Preserves.pure ()))
      fun _ => Preserves.bind (inserted_statement hR fun _ _ => hR.aside rfl) fun _ =>
        Keeps.modifyCache _
  | insertPing nodeId taskId ts latency =>
    refine boxed_preserves (Preserves.readCache.bind fun g => Preserves.ite _ ?_
      (Preserves.pure ())) _
    exact Preserves.bind (Preserves.ite _ (aside_execute hR (by intro; rfl)) (Preserves.pure ()))
      fun _ => Preserves.bind (inserted_statement hR fun _ _ => hR.aside rfl) fun _ =>
        Keeps.modifyCache _

end Nodes

/-! ## The other writes -/

variable {a : Area} {db₀ : Store}

/-- Staying within an area is such a relation. -/
theorem within_bystanding (a : Area) : Bystanding (Within a) where
  trans := Within.trans
  aside h := by
    simp only [bystanders, Prod.mk.injEq] at h
    exact ⟨fun _ => h.1, fun _ => h.2.1, fun _ => ⟨h.2.2.1, h.2.2.2.1⟩⟩
  counted _ _ := .of_claimed rfl

/-- An update within an area is a job within it. -/
theorem within_execute {f : Store → Store} (hf : ∀ db, Within a db (f db)) :
    Keeps (Within a db₀) (execute f : StoreJob Unit) := related_execute (within_bystanding a) hf

/-- A write about a single area, as a statement. -/
theorem area_execute {f : Store → Store} (hf : ∀ db, Within a db (f db)) (g : Unit → Payload) :
    Keeps (Within a db₀) (boxed (execute f) g) := boxed_preserves (within_execute hf) g

/-- What leaves settings and sessions alone is within the probes. -/
theorem probes_within {db db' : Store} (hsetting : db'.setting = db.setting)
    (hsession : db'.session = db.session) : Within .probes db db' :=
  ⟨fun _ => hsetting, fun _ => hsession, fun h => absurd rfl h⟩

/-- A write to the settings is within them. -/
theorem settings_within {f : Store → Table SettingRow.key} (db : Store) :
    Within .settings db { db with setting := f db } :=
  ⟨fun h => absurd rfl h, fun _ => rfl, fun _ => ⟨rfl, rfl⟩⟩

/-- A write to the sessions is within them. -/
theorem sessions_within {f : Store → Table SessionRow.tokenHash} (db : Store) :
    Within .sessions db { db with session := f db } :=
  ⟨fun _ => rfl, fun h => absurd rfl h, fun _ => ⟨rfl, rfl⟩⟩

/-- Saving a probe is within the probes. -/
theorem savePingTask_within (t : PingTask) : Keeps (Within .probes db₀) (savePingTask t) := by
  have hassign : ∀ (id : Int) (seen list : List Int),
      Keeps (Within .probes db₀) (assignNodes id seen list) := by
    intro id seen list
    induction list generalizing seen with
    | nil => exact Preserves.pure ()
    | cons node rest ih =>
      exact (Preserves.ensure _ _).bind fun _ => (Preserves.query _).bind fun _ =>
        (Preserves.ensure _ _).bind fun _ =>
          Preserves.bind (inserted_statement (within_bystanding _) fun _ _ =>
            probes_within rfl rfl) fun _ => ih _
  refine Keeps.commitThen (Preserves.bind ?_ fun id =>
    Preserves.bind (within_execute (by intro; exact probes_within rfl rfl)) fun _ =>
      (hassign _ _ _).bind fun _ => Preserves.bind ?_ fun _ => Preserves.pure id) _
  · unfold savePingTaskRow
    refine Preserves.ite _ ?_ ?_
    · refine Preserves.bind (related_statement (within_bystanding _) ?_) fun _ =>
        (Preserves.ensure _ _).bind fun _ => Preserves.pure _
      intro db n db' h
      rw [Except.ok.injEq, Prod.mk.injEq] at h
      rw [← h.2]
      exact probes_within rfl rfl
    · exact (allocId_related (within_bystanding _) _).bind fun id =>
        Preserves.bind (inserted_statement (within_bystanding _) fun _ _ =>
          probes_within rfl rfl) fun _ => Preserves.pure id
  · refine (Preserves.query _).bind fun found => ?_
    cases found with
    | none => exact Preserves.pure ()
    | some node => exact Preserves.fail _

/-! ## Every write -/

/-- Every write of its own stays within its area. -/
theorem solo_within (host : Host) (db₀ : Store) (op : Solo) :
    Keeps (Within (areaOf op) db₀) (op.job host) := by
  cases op with
  | set key value =>
    exact area_execute settings_within _
  | deleteNode id =>
    refine boxed_preserves (Keeps.commitThen (Keeps.executeAll ?_) _) _
    intro f hf db h
    simp only [nodeSweep, List.mem_cons, List.not_mem_nil, or_false] at hf
    rcases hf with rfl | rfl | rfl | rfl | rfl | rfl | rfl <;>
      exact h.trans (probes_within rfl rfl)
  | savePingTask t => exact boxed_preserves (savePingTask_within t) _
  | deletePingTask id =>
    refine boxed_preserves (Keeps.commitThen (Keeps.executeAll ?_) _) _
    intro f hf db h
    simp only [taskSweep, List.mem_cons, List.not_mem_nil, or_false] at hf
    rcases hf with rfl | rfl | rfl | rfl <;> exact h.trans (probes_within rfl rfl)
  | createSession tokenHash expiresAt => exact area_execute sessions_within _
  | dropSession tokenHash => exact area_execute sessions_within _
  | dropAllSessions => exact area_execute sessions_within _
  | expireSessions now => exact area_execute sessions_within _
  | _ => exact solo_related (within_bystanding _) host rfl

/-- So does telemetry. -/
theorem telemetry_within (host : Host) (db₀ : Store) (op : Telemetry) :
    Keeps (Within .nodes db₀) (op.job host) := telemetry_related (within_bystanding _) host op

/-- However a write ends. -/
theorem ran_within {host : Host} {op : Solo} {db db' : Store} {answer : Except Failure Payload}
    (h : Ran host op db answer db') : Within (areaOf op) db db' := by
  obtain ⟨session, rfl, rfl, -⟩ := h
  exact solo_within host _ op session (.refl _ _)

end Romi.StoreAreas
