import Romi.BackupArchive
import Romi.StoreInvariant

/-!
# The writes the hub submits

Telemetry may share a group commit, every other write runs on its own in
autocommit. A telemetry write has one effect on the store that the guard only
helps to reach: `Telemetry.effect` says what it is without the guard.
-/

namespace Romi.StoreOperations

open CachedTransactions JsonValue KeyedTable StoreGuard StoreGuard.Guard StoreInvariant StoreJobs
  StoreSchema TrafficFold
open CachedTransactions.Job

/-- What the jobs take from outside the store. -/
structure Host where
  /-- The digest of a token. -/
  sha256 : String → String
  /-- `TRY_CAST(value AS BIGINT)`. -/
  tryCast : String → Option Int

/-- What a write answers with. -/
inductive Payload
  /-- Only that it is done. -/
  | nothing
  /-- Whether there was such a row. -/
  | flag (b : Bool)
  /-- The id that was given. -/
  | id (n : Int)
  /-- How many rows there were. -/
  | count (n : Nat)
  /-- The counters. -/
  | traffic (t : Option Traffic)
  /-- What was restored. -/
  | report (r : BackupArchive.BackupReport)
  deriving DecidableEq

/-- The writes that go through `write_batch`. -/
inductive Telemetry
  /-- `touch_seen`. -/
  | touchSeen (id ts : Int)
  /-- `accumulate`. -/
  | accumulate (nodeId : Int) (r : Report)
  /-- `insert_metric`. -/
  | insertMetric (nodeId ts : Int) (m : Json)
  /-- `insert_ping`. -/
  | insertPing (nodeId taskId ts latency : Int)

/-- The writes that go through `write` as `Kind::Solo`. -/
inductive Solo
  /-- `set`. -/
  | set (key value : String)
  /-- `create_node_within`. -/
  | createNodeWithin (now : Int) (n : NewNode) (token : String) (cap : Option (Int × Int))
  /-- `update_node`. -/
  | updateNode (id : Int) (p : NodePatch)
  /-- `set_expiry`. -/
  | setExpiry (id : Int) (date : String)
  /-- `set_down_since`. -/
  | setDownSince (id ts : Int)
  /-- `reorder_nodes`. -/
  | reorderNodes (ids : List Int)
  /-- `delete_node`. -/
  | deleteNode (id : Int)
  /-- `reset_token`. -/
  | resetToken (id : Int) (token : String)
  /-- `save_facts`. -/
  | saveFacts (id : Int) (f : Json) (ip : String)
  /-- `set_country`. -/
  | setCountry (id : Int) (cc ip : String)
  /-- `set_traffic`. -/
  | setTraffic (nodeId : Int) (p : TrafficPatch) (clock : Clock)
  /-- `prune`. -/
  | prune (now keepDays : Int)
  /-- `save_ping_task`. -/
  | savePingTask (t : PingTask)
  /-- `delete_ping_task`. -/
  | deletePingTask (id : Int)
  /-- `create_session`. -/
  | createSession (tokenHash : String) (expiresAt : Int)
  /-- `drop_session`. -/
  | dropSession (tokenHash : String)
  /-- `drop_all_sessions`. -/
  | dropAllSessions
  /-- `expire_sessions`. -/
  | expireSessions (now : Int)

/-- A job with its answer boxed as a payload. -/
def boxed {α : Type} (x : StoreJob α) (f : α → Payload) : StoreJob Payload := do
  let a ← x
  pure (f a)

/-- The closure a telemetry write hands to the writer. -/
def Telemetry.job (host : Host) : Telemetry → StoreJob Payload
  | .touchSeen id ts => boxed (StoreJobs.touchSeen host.tryCast id ts) fun _ => .nothing
  | .accumulate nodeId r => boxed (StoreJobs.accumulate nodeId r) .traffic
  | .insertMetric nodeId ts m => boxed (StoreJobs.insertMetric nodeId ts m) fun _ => .nothing
  | .insertPing nodeId taskId ts latency =>
    boxed (StoreJobs.insertPing nodeId taskId ts latency) fun _ => .nothing

/-- The closure any other write hands to the writer. -/
def Solo.job (host : Host) : Solo → StoreJob Payload
  | .set key value => boxed (StoreJobs.set key value) fun _ => .nothing
  | .createNodeWithin now n token cap =>
    boxed (StoreJobs.createNodeWithin host.sha256 now n token cap) .id
  | .updateNode id p => boxed (StoreJobs.updateNode id p) .flag
  | .setExpiry id date => boxed (StoreJobs.setExpiry id date) fun _ => .nothing
  | .setDownSince id ts => boxed (StoreJobs.setDownSince id ts) fun _ => .nothing
  | .reorderNodes ids => boxed (StoreJobs.reorderNodes ids) fun _ => .nothing
  | .deleteNode id => boxed (StoreJobs.deleteNode id) fun _ => .nothing
  | .resetToken id token => boxed (StoreJobs.resetToken host.sha256 id token) fun _ => .nothing
  | .saveFacts id f ip => boxed (StoreJobs.saveFacts id f ip) .flag
  | .setCountry id cc ip => boxed (StoreJobs.setCountry id cc ip) fun _ => .nothing
  | .setTraffic nodeId p clock => boxed (StoreJobs.setTraffic nodeId p clock) .flag
  | .prune now keepDays => boxed (StoreJobs.prune now keepDays) .count
  | .savePingTask t => boxed (StoreJobs.savePingTask t) .id
  | .deletePingTask id => boxed (StoreJobs.deletePingTask id) fun _ => .nothing
  | .createSession tokenHash expiresAt =>
    boxed (StoreJobs.createSession tokenHash expiresAt) fun _ => .nothing
  | .dropSession tokenHash => boxed (StoreJobs.dropSession tokenHash) fun _ => .nothing
  | .dropAllSessions => boxed StoreJobs.dropAllSessions fun _ => .nothing
  | .expireSessions now => boxed (StoreJobs.expireSessions now) fun _ => .nothing

/-! ## Every write keeps the guard and the tables together -/

/-- What is done with an answer keeps what the job keeps. -/
theorem boxed_preserves {α : Type} {P : Store → Guard → Prop} {x : StoreJob α} (hx : Preserves P x)
    (f : α → Payload) : Preserves P (boxed x f) := hx.bind fun _ => Preserves.pure _

/-- A boxed job succeeds when the job does. -/
theorem boxed_ok {α : Type} {x : StoreJob α} {f : α → Payload} {s s' : Session Store Guard}
    {p : Payload} (h : boxed x f s = (.ok p, s')) : ∃ a, x s = (.ok a, s') ∧ p = f a := by
  obtain ⟨a, s₁, hx, hp⟩ := bind_ok h
  obtain ⟨rfl, rfl⟩ := pure_ok hp
  exact ⟨a, hx, rfl⟩

/-- And it fails when the job does. -/
theorem boxed_error {α : Type} {x : StoreJob α} {f : α → Payload} {s s' : Session Store Guard}
    {e : Failure} (h : boxed x f s = (.error e, s')) : x s = (.error e, s') := by
  rcases bind_error h with hx | ⟨a, s₁, -, hp⟩
  · exact hx
  · exact absurd hp pure_ne_error

/-- A write outside the two relations. -/
theorem outside_preserves (related : Prop) {f : Store → Store}
    (hf : ∀ db, f db = { db with
      setting := (f db).setting, session := (f db).session
      romiId := (f db).romiId, romiSchema := (f db).romiSchema }) :
    Preserves (Sound related) (execute f : StoreJob Unit) :=
  Preserves.execute fun db _ hs => sound_outside hs (hf db)

/-- Wherever a write that runs on its own breaks off, the guard fits the tables. -/
theorem Solo.preserves (related : Prop) (host : Host) (op : Solo) :
    Preserves (Sound related) (op.job host) := by
  cases op with
  | set key value => exact boxed_preserves (outside_preserves related fun _ => rfl) _
  | createNodeWithin now n token cap =>
    exact boxed_preserves (createNodeWithin_preserves related _ now n token cap) _
  | updateNode id p => exact boxed_preserves (updateNode_preserves related id p) _
  | setExpiry id date =>
    exact boxed_preserves (updateNodeRow_preserves related id
      (f := fun r => { r with expiresAt := some date }) fun _ => rfl) _
  | setDownSince id ts =>
    exact boxed_preserves (updateNodeRow_preserves related id
      (f := fun r => { r with downSince := ts }) fun _ => rfl) _
  | reorderNodes ids => exact boxed_preserves (reorderNodes_preserves related ids) _
  | deleteNode id => exact boxed_preserves (deleteNode_preserves related id) _
  | resetToken id token => exact boxed_preserves (resetToken_preserves related _ id token) _
  | saveFacts id f ip => exact boxed_preserves (saveFacts_preserves related id f ip) _
  | setCountry id cc ip =>
    exact boxed_preserves (Preserves.execute fun _ _ hs =>
      sound_updateNode (f := fun r => { r with country := cc }) (fun _ => rfl) hs) _
  | setTraffic nodeId p clock => exact boxed_preserves (setTraffic_preserves related nodeId p clock) _
  | prune now keepDays => exact boxed_preserves (prune_preserves related now keepDays) _
  | savePingTask t => exact boxed_preserves (savePingTask_preserves related t) _
  | deletePingTask id => exact boxed_preserves (deletePingTask_preserves related id) _
  | createSession tokenHash expiresAt =>
    exact boxed_preserves (outside_preserves related fun _ => rfl) _
  | dropSession tokenHash => exact boxed_preserves (outside_preserves related fun _ => rfl) _
  | dropAllSessions => exact boxed_preserves (outside_preserves related fun _ => rfl) _
  | expireSessions now => exact boxed_preserves (outside_preserves related fun _ => rfl) _

/-! ## The effect of telemetry -/

/-- What a telemetry write does to the store, read off the tables alone. -/
def Telemetry.effect (host : Host) (db : Store) : Telemetry → Except Failure (Payload × Store)
  | .touchSeen id ts =>
    .ok (.nothing, updateNodeRow id (seen (graceSeconds host.tryCast db) ts) (fun _ => rfl) db)
  | .accumulate nodeId r =>
    if db.node.Has nodeId then (accumulateOn nodeId r db).map fun q => (.traffic (some q.1), q.2)
    else .ok (.traffic none, db)
  | .insertMetric nodeId ts m =>
    if db.node.Has nodeId then
      .ok (.nothing, { db with metric := db.metric.put (metricRowOf nodeId ts m) })
    else .ok (.nothing, db)
  | .insertPing nodeId taskId ts latency =>
    if db.pingNode.Has (taskId, nodeId) then
      .ok (.nothing, { db with pingRecord := db.pingRecord.put ⟨nodeId, taskId, ts, latency⟩ })
    else .ok (.nothing, db)

/-- What `accumulate` does under a coherent guard. -/
theorem accumulate_cases {nodeId : Int} {report : Report} {s s' : Session Store Guard}
    {r : Except Failure (Option Traffic)} (h : StoreJobs.accumulate nodeId report s = (r, s'))
    (hs : Coherent s.db s.cache) :
    r = .error .engine ∨
      (∃ e, r = .error e ∧ s.db.node.Has nodeId ∧ accumulateOn nodeId report s.db = .error e) ∨
      (r = .ok none ∧ ¬ s.db.node.Has nodeId ∧ s'.db = s.db) ∨
      ∃ t, r = .ok (some t) ∧ s.db.node.Has nodeId ∧
        accumulateOn nodeId report s.db = .ok (t, s'.db) := by
  change (if nodeId ∈ s.cache.nodes then _ else _ : StoreJob (Option Traffic)) s = _ at h
  by_cases hknown : nodeId ∈ s.cache.nodes
  · have hhas := (hs.nodes nodeId).mp hknown
    rw [if_pos hknown] at h
    cases r with
    | error e =>
      rcases bind_error h with hx | ⟨t, s₁, -, hp⟩
      · obtain ⟨-, -, rfl | he⟩ := statement_error hx
        · exact .inl rfl
        · exact .inr (.inl ⟨e, rfl, hhas, he⟩)
      · exact absurd hp pure_ne_error
    | ok t =>
      obtain ⟨folded, s₁, hfold, hp⟩ := bind_ok h
      obtain ⟨rfl, rfl⟩ := pure_ok hp
      exact .inr (.inr (.inr ⟨folded, rfl, hhas, (statement_ok hfold).1⟩))
  · have hno : ¬ s.db.node.Has nodeId := fun hn => hknown ((hs.nodes nodeId).mpr hn)
    rw [if_neg hknown] at h
    cases r with
    | error e => exact absurd h pure_ne_error
    | ok t =>
      obtain ⟨rfl, rfl⟩ := pure_ok h
      exact .inr (.inr (.inl ⟨rfl, hno, rfl⟩))

/-- Under a coherent guard a telemetry write has its effect unless the engine
refuses a statement, and it loosens the guard at most. -/
theorem Telemetry.job_spec {host : Host} {op : Telemetry} {s s' : Session Store Guard}
    {r : Except Failure Payload} (h : op.job host s = (r, s')) (hs : Coherent s.db s.cache) :
    Raises s.cache s'.cache ∧
      (r = .error .engine ∨
        (∃ e, r = .error e ∧ op.effect host s.db = .error e) ∨
        ∃ p, r = .ok p ∧ op.effect host s.db = .ok (p, s'.db)) := by
  cases op with
  | touchSeen id ts =>
    cases r with
    | error e =>
      obtain ⟨-, hc, rfl⟩ := execute_error (boxed_error h)
      exact ⟨hc ▸ Raises.refl _, .inl rfl⟩
    | ok p =>
      obtain ⟨u, hx, rfl⟩ := boxed_ok h
      obtain ⟨hdb, hc⟩ := execute_ok hx
      exact ⟨hc ▸ Raises.refl _, .inr (.inr ⟨.nothing, rfl, by rw [effect, hdb]⟩)⟩
  | accumulate nodeId report =>
    have hkept : CacheKept (boxed (StoreJobs.accumulate nodeId report) .traffic) :=
      (accumulate_cacheKept nodeId report).bind fun _ => CacheKept.pure _
    have hc : s'.cache = s.cache := hkept.eq h
    refine ⟨hc ▸ Raises.refl _, ?_⟩
    rw [effect]
    cases r with
    | error e =>
      rcases accumulate_cases (boxed_error h) hs with he | ⟨e', he, hhas, hfails⟩ | ⟨he, -⟩ | ⟨t, he, -⟩
      · rw [Except.error.injEq] at he
        exact .inl (by rw [he])
      · rw [Except.error.injEq] at he
        exact .inr (.inl ⟨e, rfl, by rw [if_pos hhas, hfails, he]; rfl⟩)
      · cases he
      · cases he
    | ok p =>
      obtain ⟨u, hx, rfl⟩ := boxed_ok h
      rcases accumulate_cases hx hs with he | ⟨e, he, -⟩ | ⟨he, hno, hdb⟩ | ⟨t, he, hhas, hdone⟩
      · cases he
      · cases he
      · rw [Except.ok.injEq] at he
        exact .inr (.inr ⟨_, rfl, by rw [if_neg hno, hdb, he]⟩)
      · rw [Except.ok.injEq] at he
        exact .inr (.inr ⟨_, rfl, by rw [if_pos hhas, hdone, he]; rfl⟩)
  | insertMetric nodeId ts m =>
    rw [effect]
    cases r with
    | error e =>
      rcases insertMetric_cases (boxed_error h) hs with ⟨he, hc⟩ | ⟨he, -⟩ | ⟨he, -⟩
      · rw [Except.error.injEq] at he
        exact ⟨hc ▸ Raises.refl _, .inl (by rw [he])⟩
      · cases he
      · cases he
    | ok p =>
      obtain ⟨u, hx, rfl⟩ := boxed_ok h
      rcases insertMetric_cases hx hs with ⟨he, -⟩ | ⟨-, hno, hdb, hc⟩ | ⟨-, hhas, hdb, hc⟩
      · cases he
      · exact ⟨hc ▸ Raises.refl _, .inr (.inr ⟨_, rfl, by rw [if_neg hno, hdb]⟩)⟩
      · rw [hc]
        exact ⟨raises_raiseMinute _ _ _, .inr (.inr ⟨_, rfl, by rw [if_pos hhas, hdb]⟩)⟩
  | insertPing nodeId taskId ts latency =>
    rw [effect]
    cases r with
    | error e =>
      rcases insertPing_cases (boxed_error h) hs with ⟨he, hc⟩ | ⟨he, -⟩ | ⟨he, -⟩
      · rw [Except.error.injEq] at he
        exact ⟨hc ▸ Raises.refl _, .inl (by rw [he])⟩
      · cases he
      · cases he
    | ok p =>
      obtain ⟨u, hx, rfl⟩ := boxed_ok h
      rcases insertPing_cases hx hs with ⟨he, -⟩ | ⟨-, hno, hdb, hc⟩ | ⟨-, hhas, hdb, hc⟩
      · cases he
      · exact ⟨hc ▸ Raises.refl _, .inr (.inr ⟨_, rfl, by rw [if_neg hno, hdb]⟩)⟩
      · rw [hc]
        exact ⟨raises_raiseStamp _ _ _, .inr (.inr ⟨_, rfl, by rw [if_pos hhas, hdb]⟩)⟩

/-- A telemetry write that succeeds keeps the guard and the tables together. -/
theorem Telemetry.job_sound {related : Prop} {host : Host} {op : Telemetry}
    {s s' : Session Store Guard} {p : Payload} (h : op.job host s = (.ok p, s'))
    (hs : Sound related s.db s.cache) : Sound related s'.db s'.cache := by
  cases op with
  | touchSeen id ts => exact (boxed_preserves (touchSeen_preserves related _ id ts) _).apply h hs
  | accumulate nodeId r => exact (boxed_preserves (accumulate_preserves related nodeId r) _).apply h hs
  | insertMetric nodeId ts m =>
    obtain ⟨u, hx, rfl⟩ := boxed_ok h
    rcases insertMetric_cases hx hs.coherent with ⟨he, -⟩ | ⟨-, -, hdb, hc⟩ | ⟨-, hhas, hdb, hc⟩
    · cases he
    · rw [hdb, hc]
      exact hs
    · rw [hdb, hc]
      exact sound_putMetric (metricRowOf nodeId ts m) hs hhas
  | insertPing nodeId taskId ts latency =>
    obtain ⟨u, hx, rfl⟩ := boxed_ok h
    rcases insertPing_cases hx hs.coherent with ⟨he, -⟩ | ⟨-, -, hdb, hc⟩ | ⟨-, hhas, hdb, hc⟩
    · cases he
    · rw [hdb, hc]
      exact hs
    · rw [hdb, hc]
      exact sound_putPing ⟨nodeId, taskId, ts, latency⟩ hs hhas

/-- `accumulate_on` never blames the engine. -/
theorem accumulateOn_ne_engine (nodeId : Int) (r : Report) (db : Store) :
    accumulateOn nodeId r db ≠ .error .engine := by
  unfold accumulateOn
  split
  · exact nofun
  · intro h
    cases h

/-- No telemetry write fails by the engine when the engine refuses nothing. -/
theorem Telemetry.steady (host : Host) (op : Telemetry) : Steady (op.job host) := by
  have hinsert : ∀ {τ : Type} (t : Option τ) (f : τ → Store), inserted t f ≠ .error .engine := by
    intro τ t f h
    cases t with
    | none => cases h
    | some t => cases h
  have hbox : ∀ {α : Type} {x : StoreJob α} (f : α → Payload), Steady x → Steady (boxed x f) :=
    fun f hx => hx.bind fun _ => Steady.pure _
  cases op with
  | touchSeen id ts => exact hbox _ (Steady.execute _)
  | accumulate nodeId r =>
    exact hbox _ (Steady.readCache.bind fun _ => Steady.ite _
      ((Steady.statement (accumulateOn_ne_engine nodeId r)).bind fun _ => Steady.pure _)
      (Steady.pure none))
  | insertMetric nodeId ts m =>
    exact hbox _ (Steady.readCache.bind fun _ => Steady.ite _
      ((Steady.onlyIf _ (Steady.execute _)).bind fun _ =>
        (Steady.statement fun _ => hinsert _ _).bind fun _ => Steady.modifyCache _)
      (Steady.pure ()))
  | insertPing nodeId taskId ts latency =>
    exact hbox _ (Steady.readCache.bind fun _ => Steady.ite _
      ((Steady.onlyIf _ (Steady.execute _)).bind fun _ =>
        (Steady.statement fun _ => hinsert _ _).bind fun _ => Steady.modifyCache _)
      (Steady.pure ()))

end Romi.StoreOperations
