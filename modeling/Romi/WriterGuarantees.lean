import Romi.WriterRuns

/-!
# What callers of the writer can rely on

Three consequences of the invariant of the writer's runs: the guard agrees
with the tables between any two steps and no telemetry insert meets a taken
key; a job runs on the database it was accepted for and what was acknowledged
stays until a restore; and a database that was always written through the
writer passes the checks its own backup will be put through.
-/

namespace Romi.WriterGuarantees

open ArchiveTables BackupArchive CachedTransactions GroupCommit KeyedTable LiveDatabase
  RestoreStaging StoreGuard StoreGuard.Guard StoreInvariant StoreJobs StoreOperations
  StoreRelations StoreSchema WriterBatch WriterQueue WriterRuns
open CachedTransactions.Job

/-! ## Telemetry under a coherent guard -/

/-- Rows were only added for nodes and assignments there were. -/
def OnlyKnown (before after : Store) : Prop :=
  (∀ r ∈ after.metric.rows, r ∈ before.metric.rows ∨ before.node.Has r.nodeId) ∧
    ∀ r ∈ after.pingRecord.rows,
      r ∈ before.pingRecord.rows ∨ before.pingNode.Has (r.taskId, r.nodeId)

/-- A store knows its own nodes. -/
theorem onlyKnown_refl (db : Store) : OnlyKnown db db :=
  ⟨fun _ hr => .inl hr, fun _ hr => .inl hr⟩

/-- A statement that leaves both histories alone adds nothing to them. -/
theorem OnlyKnown.congr {before db db' : Store} (h : OnlyKnown before db)
    (hmetric : db'.metric = db.metric) (hping : db'.pingRecord = db.pingRecord) :
    OnlyKnown before db' := by
  unfold OnlyKnown
  rw [hmetric, hping]
  exact h

/-- A guarded delete, an insert and a raise of the guard add what the insert adds. -/
theorem replace_onlyKnown {before : Store} {p : Prop} [Decidable p] {del : Store → Store}
    {ins : Store → Except Failure (Unit × Store)} (raise : Guard → Guard)
    (hdel : ∀ db, OnlyKnown before db → OnlyKnown before (del db))
    (hins : ∀ db u db', OnlyKnown before db → ins db = .ok (u, db') → OnlyKnown before db') :
    Keeps (OnlyKnown before) (do
      onlyIf p (execute del)
      statement ins
      modifyCache raise : StoreJob Unit) := by
  have hexecute : Keeps (OnlyKnown before) (execute del : StoreJob Unit) :=
    Preserves.execute fun db _ h => hdel db h
  have hstatement : Keeps (OnlyKnown before) (statement ins : StoreJob Unit) :=
    Preserves.statement fun db u db' _ h hdb => hins db u db' hdb h
  exact (Preserves.ite _ hexecute (Preserves.pure ())).bind fun _ =>
    hstatement.bind fun _ => Keeps.modifyCache raise

/-- A metric of a known node, wherever its write breaks off. -/
theorem insertMetric_onlyKnown {before : Store} {nodeId : Int} (hnode : before.node.Has nodeId)
    (ts : Int) (m : JsonValue.Json) : Keeps (OnlyKnown before) (insertMetric nodeId ts m) := by
  refine Preserves.readCache.bind fun _ => Preserves.ite _ ?_ (Preserves.pure ())
  refine replace_onlyKnown _ ?_ ?_
  · intro db h
    refine ⟨fun r hr => h.1 r (Table.mem_deleteWhere.mp hr).1, h.2⟩
  · intro db u db' h hins
    obtain ⟨t, ht, rfl⟩ := inserted_ok hins
    refine ⟨?_, h.2⟩
    intro r hr
    rcases (Table.mem_of_insert? ht).mp hr with hr | hr
    · rw [hr]
      exact .inr hnode
    · exact h.1 r hr

/-- A probe result of a known assignment, wherever its write breaks off. -/
theorem insertPing_onlyKnown {before : Store} {nodeId taskId : Int}
    (hassigned : before.pingNode.Has (taskId, nodeId)) (ts latency : Int) :
    Keeps (OnlyKnown before) (insertPing nodeId taskId ts latency) := by
  refine Preserves.readCache.bind fun _ => Preserves.ite _ ?_ (Preserves.pure ())
  refine replace_onlyKnown _ ?_ ?_
  · intro db h
    refine ⟨h.1, fun r hr => h.2 r (Table.mem_deleteWhere.mp hr).1⟩
  · intro db u db' h hins
    obtain ⟨t, ht, rfl⟩ := inserted_ok hins
    refine ⟨h.1, ?_⟩
    intro r hr
    rcases (Table.mem_of_insert? ht).mp hr with hr | hr
    · rw [hr]
      exact .inr hassigned
    · exact h.2 r hr

/-- Booking a report makes no node. -/
theorem accumulate_onlyKnown (before : Store) (nodeId : Int) (r : TrafficFold.Report) :
    Keeps (OnlyKnown before) (accumulate nodeId r) := by
  refine Preserves.readCache.bind fun _ => Preserves.ite _ ?_ (Preserves.pure none)
  refine Preserves.bind (Preserves.statement ?_) fun _ => Preserves.pure _
  intro db a db' _ h hdb
  unfold TrafficFold.accumulateOn at h
  split at h
  · cases h
    exact hdb.congr rfl rfl
  · cases h

/-- Whatever comes of a telemetry write under a coherent guard, it stores
nothing for a node or an assignment that does not exist. -/
theorem telemetry_onlyKnown {host : Host} {op : Telemetry} {s s' : Session Store Guard}
    {r : Except Failure Payload} (h : op.job host s = (r, s')) (hs : Coherent s.db s.cache) :
    OnlyKnown s.db s'.db := by
  have hstart := onlyKnown_refl s.db
  cases op with
  | touchSeen id ts =>
    have hkeeps : Keeps (OnlyKnown s.db) (touchSeen host.tryCast id ts) :=
      Preserves.execute fun db _ hdb => hdb.congr rfl rfl
    exact (boxed_preserves hkeeps _).apply h hstart
  | accumulate nodeId r =>
    exact (boxed_preserves (accumulate_onlyKnown s.db nodeId r) _).apply h hstart
  | insertMetric nodeId ts m =>
    by_cases hnode : s.db.node.Has nodeId
    · exact (boxed_preserves (insertMetric_onlyKnown hnode ts m) _).apply h hstart
    · have hunknown : nodeId ∉ s.cache.nodes := fun hn => hnode ((hs.nodes nodeId).mp hn)
      have hidle : insertMetric nodeId ts m s = (.ok (), s) := by
        change (if nodeId ∈ s.cache.nodes then _ else _ : StoreJob Unit) s = _
        rw [if_neg hunknown]
        rfl
      have hrun : s' = s := by
        have hsame : (Telemetry.insertMetric nodeId ts m).job host s = (.ok .nothing, s) := by
          change boxed (insertMetric nodeId ts m) _ s = _
          simp only [boxed, bind, andThen, hidle]
          rfl
        rw [hsame] at h
        exact (Prod.mk.inj h).2.symm
      rw [hrun]
      exact hstart
  | insertPing nodeId taskId ts latency =>
    by_cases hassigned : s.db.pingNode.Has (taskId, nodeId)
    · exact (boxed_preserves (insertPing_onlyKnown hassigned ts latency) _).apply h hstart
    · have hunknown : (nodeId, taskId) ∉ s.cache.assignments :=
        fun hn => hassigned ((hs.assignments nodeId taskId).mp hn)
      have hidle : insertPing nodeId taskId ts latency s = (.ok (), s) := by
        change (if (nodeId, taskId) ∈ s.cache.assignments then _ else _ : StoreJob Unit) s = _
        rw [if_neg hunknown]
        rfl
      have hrun : s' = s := by
        have hsame : (Telemetry.insertPing nodeId taskId ts latency).job host s =
            (.ok .nothing, s) := by
          change boxed (insertPing nodeId taskId ts latency) _ s = _
          simp only [boxed, bind, andThen, hidle]
          rfl
        rw [hsame] at h
        exact (Prod.mk.inj h).2.symm
      rw [hrun]
      exact hstart

/-- Nor does it meet a key that is taken. -/
theorem telemetry_uncollided {host : Host} {op : Telemetry} {s s' : Session Store Guard}
    {r : Except Failure Payload} (h : op.job host s = (r, s')) (hs : Coherent s.db s.cache) :
    r ≠ .error .constraint := by
  rintro rfl
  rcases (op.job_spec h hs).2 with he | ⟨e, he, heffect⟩ | ⟨p, hp, -⟩
  · cases he
  · cases he
    cases op with
    | touchSeen id ts => cases heffect
    | accumulate nodeId r =>
      rw [Telemetry.effect] at heffect
      split at heffect
      · unfold TrafficFold.accumulateOn at heffect
        split at heffect <;> cases heffect
      · cases heffect
    | insertMetric nodeId ts m =>
      rw [Telemetry.effect] at heffect
      split at heffect <;> cases heffect
    | insertPing nodeId taskId ts latency =>
      rw [Telemetry.effect] at heffect
      split at heffect <;> cases heffect
  · cases hp

/-! ## The guard -/

/-- A run of a telemetry write that met no taken key and stored nothing for a
node or assignment that was not there. -/
structure Clean (e : Execution Ticket Store Guard Payload) : Prop where
  /-- No write ran into a constraint. -/
  uncollided : e.outcome ≠ .error .constraint
  /-- No row of an unknown node was written. -/
  onlyKnown : OnlyKnown e.before e.after

/-- What holds of the guard between two steps of the writer. -/
structure GuardCoherent {β : Type} (s : State β) : Prop where
  /-- It agrees with the database in service. -/
  coherent : ∃ db, s.live.Serves db ∧ Coherent db s.guard
  /-- So every insert that ran, also one that was rolled back, was clean. -/
  clean : ∀ r ∈ s.history.telemetry, Clean r.execution

/-- Genuine requests execute cleanly. -/
theorem genuine_clean {β : Type} {host : Host} {related : Prop} {submitted : List (Job β)} {r : Ran}
    (h : Genuine host (Sound related) submitted r) : Clean r.execution := by
  obtain ⟨q, -, -, refusals, c', hrun⟩ := h.body
  obtain ⟨s', hs, hdb, -⟩ := body_eq hrun
  refine ⟨telemetry_uncollided hs h.met.coherent, ?_⟩
  rw [← hdb]
  exact telemetry_onlyKnown hs h.met.coherent

/-- Whatever is submitted in whatever order, and however groups, replays,
commits and replacements go, the guard agrees with the database between any
two steps, provided it can be rebuilt after a restore. -/
theorem guard_coherent {β : Type} (lib : Libraries β) (host : Host) {live : Live} {db : Store}
    (hserves : live.Serves db) (hversion : storedVersion db = some schemaVersion)
    (events : List (Event β)) (hreload : ∀ a, Event.write a ∈ events → a.reloads = true) :
    GuardCoherent ((opened live db).run lib host events) := by
  have hstart : Sustained host (Sound False) (opened live db : State β) :=
    opened_sustained hserves hversion (sound_load False.elim)
  have hrun := hstart.run lib (sound_upheld False host)
    (fun a ha => .inl (hreload a ha))
  obtain ⟨now, hkept⟩ := hrun.kept
  exact ⟨⟨now, hkept.serves, hkept.sound.coherent⟩,
    fun r hr => genuine_clean (hkept.telemetry r hr)⟩

/-! ## A run to look at -/

/-- An engine that refuses nothing. -/
def willing : EngineRun where
  shared := ⟨none, none, true⟩
  replays _ := ⟨none, none, true⟩
  first _ := []
  alone _ := []
  solo := []
  reusable := .ok 0
  restore := ⟨⟨none, 0, none, none⟩, "romi", 0, .none⟩
  compact := ⟨none, .none⟩
  reloads := true

/-- A host whose digests are the tokens themselves. -/
def plainHost : Host := ⟨id, fun _ => none⟩

/-- A node and a probe of it are stored. A result and a metric of it run together
with a metric of no node, and a checkpoint runs after them; a restore that fails
refuses what was queued behind it. -/
def firstRequests : List (Event Wrapped) :=
  [.build (.solo (.createNodeWithin 0 sampleNode "token" none)), .send 0, .write willing,
    .build (.solo (.savePingTask ⟨0, "p", "192.0.2.1:80", 60, [1]⟩)), .send 0, .write willing,
    .build (.batch (.insertMetric 1 60 .null)), .build (.batch (.insertPing 1 1 60 20)),
    .build (.batch (.insertMetric 2 60 .null)), .build .maintenance,
    .build (.replace (.restore (.tar []))), .build (.batch (.touchSeen 1 90)),
    .send 1, .write willing, .send 0, .write willing, .send 0, .write willing, .write willing,
    .send 0, .write willing, .send 0, .write willing, .send 0, .write willing, .write willing,
    .write willing]

/-- The hub after them. -/
def firstRun : State Wrapped :=
  (opened (.memory (Store.fresh "romi" 0)) (Store.fresh "romi" 0)).run wrapping plainHost
    firstRequests

/-- Each of the requests reloads the guard. -/
theorem firstRequests_reload (a : EngineRun) (ha : Event.write a ∈ firstRequests) :
    a.reloads = true := by
  simp only [firstRequests, List.mem_cons, Event.write.injEq, List.not_mem_nil, or_false,
    reduceCtorEq, false_or] at ha
  rw [show a = willing by tauto]
  rfl

/-- The three inserts ran, and the guard is coherent after all. -/
theorem guard_coherent_firstRequests :
    GuardCoherent firstRun ∧ firstRun.history.telemetry.length = 3 :=
  ⟨guard_coherent wrapping plainHost (memory_serves _) (storedVersion_initSchema "romi" 0 _)
    firstRequests firstRequests_reload, by decide +kernel⟩

/-! ## Generations and acknowledged writes -/

/-- What holds of jobs, generations and answers between two steps. -/
structure Barrier {β : Type} (host : Host) (s : State β) : Prop where
  /-- Every telemetry body that ran is one of a job submitted against the
  generation it ran on. -/
  telemetry : ∀ r ∈ s.history.telemetry, r.execution.id.generation = r.epoch ∧
    ∃ q, Job.batch q ∈ s.submitted ∧ r.execution.id = q.ticket .batch ∧
      ∃ refusals, r.execution.RunOf ((q.work.job host).body refusals)
  /-- The same for every other write. -/
  solo : ∀ r ∈ s.history.solo, r.execution.id.generation = r.epoch ∧
    ∃ q, Job.solo q ∈ s.submitted ∧ r.execution.id = q.ticket .solo ∧
      ∃ refusals, r.execution.RunOf ((q.work.job host).body refusals)
  /-- And for every checkpoint. -/
  maintenance : ∀ r ∈ s.history.maintenance, r.ticket.generation = r.epoch ∧
    ∃ q, Job.maintenance q ∈ s.submitted ∧ r.ticket = q.ticket .maintenance
  /-- Each executed replacement advances the generation once. -/
  advances : reached s = s.history.replacements.length
  /-- The executed replacements were accepted against the generations 0, 1, 2, … -/
  generations : s.history.replacements.map Ticket.generation =
    List.range s.history.replacements.length
  /-- A replacement accepted against a generation that another one ended is refused. -/
  behind : ∀ a ∈ s.answers, a.reply.ticket.kind = .replace →
    ∀ t ∈ s.history.replacements, t ≠ a.reply.ticket →
      t.generation = a.reply.ticket.generation → a.reply.status = .refused
  /-- No job is answered twice. -/
  once : (s.answers.map fun a => a.reply.ticket.id).Nodup
  /-- The database in service is the last one opened or restored with bodies
  that ran applied to it, among them every write answered with success since. -/
  durable : ∃ db, s.live.Serves db ∧ Chain s.history.base s.history.applied db ∧
    (∀ e ∈ s.history.applied, ∃ r ∈ s.history.telemetry ++ s.history.solo, r.execution = e) ∧
    ∀ a ∈ s.answers, ∀ p, a.reply.outcome = .ok p →
      a.reply.ticket.kind = .batch ∨ a.reply.ticket.kind = .solo →
      a.restores = s.history.restores →
      ∃ e ∈ s.history.applied, e.id = a.reply.ticket ∧ e.outcome = .ok p

/-- Two executed replacements were never accepted against the same generation. -/
theorem replacements_distinct {ts : List Ticket}
    (h : ts.map Ticket.generation = List.range ts.length) {t t' : Ticket} (ht : t ∈ ts)
    (ht' : t' ∈ ts) (hgen : t.generation = t'.generation) : t = t' := by
  have hnodup : (ts.map Ticket.generation).Nodup := by
    rw [h]
    exact List.nodup_range
  exact List.inj_on_of_nodup_map hnodup ht ht' hgen

/-- Over every interleaving of submissions, writes, checkpoints, restores,
compactions and failing replacements. -/
theorem generation_barrier {β : Type} (lib : Libraries β) (host : Host) {live : Live} {db : Store}
    (hserves : live.Serves db) (hversion : storedVersion db = some schemaVersion)
    (events : List (Event β)) : Barrier host ((opened live db).run lib host events) := by
  have hstart : Sustained host (fun _ _ => True) (opened live db : State β) :=
    opened_sustained hserves hversion trivial
  have hrun : Sustained host (fun _ _ => True) ((opened live db).run lib host events) :=
    hstart.run lib (trivial_upheld host) fun a _ => .inr fun _ _ => trivial
  obtain ⟨now, hkept⟩ := hrun.kept
  have hplaced := hrun.placed
  refine ⟨?_, ?_, ?_, hplaced.count, hplaced.generations, ?_, ?_, ?_⟩
  · intro r hr
    have hgenuine := hkept.telemetry r hr
    exact ⟨hgenuine.generation, hgenuine.body⟩
  · intro r hr
    have hgenuine := hkept.solo r hr
    exact ⟨hgenuine.generation, hgenuine.body⟩
  · intro r hr
    have hgenuine := hkept.maintenance r hr
    exact ⟨hgenuine.generation, hgenuine.job⟩
  · intro a ha hkind t ht hne hgen
    by_contra hstatus
    have hexecuted := (hkept.answers a ha).executed hkind hstatus
    exact hne (replacements_distinct hplaced.generations ht hexecuted hgen)
  · have hids := hplaced.ids.nodup_iff.mpr List.nodup_range
    rw [tickets, List.map_append] at hids
    have hanswered := (List.nodup_append.mp hids).2.1
    rw [List.map_map] at hanswered
    exact hanswered
  · exact ⟨now, hkept.serves, hkept.chain, hkept.applied, fun a ha => (hkept.answers a ha).durable⟩

/-- A checkpoint and a replacement are among what ran, and a write was refused. -/
theorem generation_barrier_firstRequests :
    Barrier plainHost firstRun ∧ firstRun.history.maintenance.length = 1 ∧
      firstRun.history.replacements.length = 1 ∧
      (firstRun.answers.map fun a => a.reply.status).count .refused = 1 :=
  ⟨generation_barrier wrapping plainHost (memory_serves _) (storedVersion_initSchema "romi" 0 _)
    firstRequests, by decide +kernel, by decide +kernel, by decide +kernel⟩

/-! ## Backups of what was written -/

/-- The databases a hub starts its life on. -/
inductive Origin {β : Type} (lib : Libraries β) : Store → Prop
  /-- A store just made. -/
  | fresh (writtenBy : String) (now : Int) : Origin lib (Store.fresh writtenBy now)
  /-- Or one built from an archive. -/
  | restored {staging : StagingHost} {writtenBy : String} {now : Int} {archive : β}
    {floor : List (String × Int)} {report : BackupReport} {db : Store}
    (h : buildStaging lib staging writtenBy now archive floor = .ok (report, db)) : Origin lib db

/-- Either way its relations hold, under the current schema. -/
theorem Origin.restorable {β : Type} {lib : Libraries β} {db : Store} (h : Origin lib db) :
    Related db ∧ storedVersion db = some schemaVersion := by
  cases h with
  | fresh writtenBy now =>
    refine ⟨?_, storedVersion_initSchema writtenBy now Store.blank⟩
    rw [Store.fresh, initSchema_frame]
    exact related_blank.congr rfl rfl rfl rfl rfl rfl rfl rfl
  | restored h =>
    have hrestorable := buildStaging_restorable h
    exact ⟨hrestorable.related, hrestorable.version⟩

/-- A database whose backup passes the checks a restore makes. -/
structure BacksUp {β : Type} (lib : Libraries β) (db : Store) : Prop where
  /-- It passes them itself. -/
  verified : verifyRelationships db = .ok ()
  /-- So do its rows in a staging database. -/
  rebuilt : ∀ writtenBy now,
    verifyRelationships (retireSettings (transplant (Store.fresh writtenBy now) db)) = .ok ()
  /-- So its archive is accepted wherever its size is. -/
  accepted : lib.Faithful → ∀ (staging : StagingHost) (writtenBy : String) (now taken : Int)
    (floor : List (String × Int)),
    WithinLimits lib defaultArchiveLimits (writeArchive lib taken db).1 (archiveFiles lib taken db) →
    staging.Suffices ((archiveFiles lib taken db).map fun f => lib.size f.2).sum
      (reportOn lib taken db) →
    ∃ staged, buildStaging lib staging writtenBy now (writeArchive lib taken db).1 floor =
      .ok (reportOn lib taken db, staged)

/-- A store whose relations hold can be backed up. -/
theorem related_backsUp {β : Type} (lib : Libraries β) {db : Store} (h : Related db) :
    BacksUp lib db where
  verified := verifyRelationships_ok_iff.mpr h
  rebuilt writtenBy now := by
    refine verifyRelationships_ok_iff.mpr (related_retire ?_)
    exact h.congr rfl rfl rfl rfl rfl rfl rfl rfl
  accepted hlib staging writtenBy now taken floor hlimits hhost :=
    ⟨_, buildStaging_writeArchive hlib h hlimits hhost⟩

/-- Whatever was written in whatever order, for whatever node or task, pruned,
compacted and restored in between, the database in service passes its own
restore check. -/
theorem always_backs_up {β : Type} (lib : Libraries β) (host : Host) {live : Live} {db : Store}
    (hserves : live.Serves db) (horigin : Origin lib db) (events : List (Event β))
    (hreload : ∀ a, Event.write a ∈ events → a.reloads = true) :
    ∃ now, ((opened live db).run lib host events).live.Serves now ∧ BacksUp lib now := by
  obtain ⟨hrelated, hversion⟩ := horigin.restorable
  have hstart : Sustained host (Sound True) (opened live db : State β) :=
    opened_sustained hserves hversion (sound_load fun _ => hrelated)
  have hrun := hstart.run lib (sound_upheld True host)
    (fun a ha => .inl (hreload a ha))
  obtain ⟨now, hkept⟩ := hrun.kept
  exact ⟨now, hkept.serves, related_backsUp lib (hkept.sound.related trivial)⟩

/-- Also when a metric was written for a node that does not exist. -/
theorem always_backs_up_firstRequests :
    (∃ now, firstRun.live.Serves now ∧ BacksUp wrapping now) ∧
      (firstRun.live.read.map fun db => (db.node.rows.card, db.pingNode.rows.card,
        db.metric.rows.card, db.pingRecord.rows.card)) = some (1, 1, 1, 1) :=
  ⟨always_backs_up wrapping plainHost (memory_serves _) (.fresh "romi" 0) firstRequests
    firstRequests_reload, by decide +kernel⟩

end Romi.WriterGuarantees
