import Romi.IssuedIds
import Romi.UpgradePaths

/-!
# Stores a hub can come to

From a database just created, by writes that may break off anywhere, guards
that are built anew and starts of the hub. In all of them the guard agrees with
the tables, the tables with each other, and every id is behind its counter.
-/

namespace Romi.ReachedStores

open CachedTransactions CachedTransactions.Job CrashRecovery IssuedIds KeyedTable StoreGuard
  StoreInvariant StoreJobs StoreOperations StoreRelations StoreSchema UpgradePaths

/-- A store with the guard beside it. -/
inductive Reached (host : Host) : Store → Guard → Prop
  /-- A store that was just made. -/
  | fresh (writtenBy : String) (now : Int) :
    Reached host (.fresh writtenBy now) (.load (.fresh writtenBy now))
  /-- A closure runs. -/
  | solo {session : Session Store Guard} (h : Reached host session.db session.cache) (op : Solo) :
    Reached host (op.job host session).2.db (op.job host session).2.cache
  /-- Telemetry runs. -/
  | telemetry {session : Session Store Guard} (h : Reached host session.db session.cache)
      (op : Telemetry) : Reached host (op.job host session).2.db (op.job host session).2.cache
  /-- The guard is loaded again. -/
  | reloaded {db : Store} {g : Guard} (h : Reached host db g) : Reached host db (.load db)
  /-- The hub starts again. -/
  | reopened {db : Store} {g : Guard} (h : Reached host db g) (writtenBy : String) (now : Int) :
    Reached host (startup writtenBy now db) (.load (startup writtenBy now db))

/-! ## Telemetry that breaks off -/

/-- A replacement that broke off left the row out at most. -/
theorem replace_error {σ γ : Type} {p : Prop} [Decidable p] {del : σ → σ}
    {ins : σ → Except Failure (Unit × σ)} {raise : γ → γ} {s s' : Session σ γ} {e : Failure}
    (h : (do onlyIf p (execute del); statement ins; modifyCache raise : Job σ γ Unit) s =
      (.error e, s')) : (s'.db = s.db ∨ s'.db = del s.db) ∧ s'.cache = s.cache := by
  rcases bind_error h with hdel | ⟨_, s₁, hdel, hrest⟩
  · obtain ⟨hdb, hc, -⟩ := execute_error (onlyIf_error hdel).2
    exact ⟨.inl hdb, hc⟩
  · obtain ⟨hdb₁, hc₁⟩ := onlyIf_execute_ok hdel
    rcases bind_error hrest with hins | ⟨_, s₂, -, hmodify⟩
    · obtain ⟨hdb, hc, -⟩ := statement_error hins
      refine ⟨?_, hc.trans hc₁⟩
      rw [hdb, hdb₁]
      split
      · exact .inr rfl
      · exact .inl rfl
    · exact absurd hmodify modifyCache_ne_error

/-- Losing minutes breaks nothing. -/
theorem sound_fewerMinutes {related : Prop} {db : Store} {g : Guard} {p : MetricRow → Prop}
    [DecidablePred p] (h : Sound related db g) :
    Sound related { db with metric := db.metric.deleteWhere p } g :=
  h.of_frame (fun _ => Iff.rfl) rfl (fun _ hr => (Table.mem_deleteWhere.mp hr).1) (fun _ hr => hr)
    fun hrel => { hrel with metric := fun r hr => hrel.metric r (Table.mem_deleteWhere.mp hr).1 }

/-- Nor does losing results. -/
theorem sound_fewerResults {related : Prop} {db : Store} {g : Guard} {p : PingRecordRow → Prop}
    [DecidablePred p] (h : Sound related db g) :
    Sound related { db with pingRecord := db.pingRecord.deleteWhere p } g :=
  h.of_frame (fun _ => Iff.rfl) rfl (fun _ hr => hr) (fun _ hr => (Table.mem_deleteWhere.mp hr).1)
    fun hrel => { hrel with
      pingRecordNode := fun r hr => hrel.pingRecordNode r (Table.mem_deleteWhere.mp hr).1
      pingRecordTask := fun r hr => hrel.pingRecordTask r (Table.mem_deleteWhere.mp hr).1 }

/-- A telemetry write keeps guard and tables together however it ends. -/
theorem telemetry_sound {related : Prop} {host : Host} {op : Telemetry} {s s' : Session Store Guard}
    {r : Except Failure Payload} (h : op.job host s = (r, s')) (hs : Sound related s.db s.cache) :
    Sound related s'.db s'.cache := by
  cases r with
  | ok p => exact Telemetry.job_sound h hs
  | error e =>
    cases op with
    | touchSeen id ts =>
      exact (boxed_preserves (touchSeen_preserves related _ id ts) _).apply h hs
    | accumulate nodeId r =>
      exact (boxed_preserves (accumulate_preserves related nodeId r) _).apply h hs
    | insertMetric nodeId ts m =>
      have hx := boxed_error h
      change (if nodeId ∈ s.cache.nodes then _ else _ : StoreJob Unit) s = _ at hx
      split at hx
      · obtain ⟨hdb | hdb, hc⟩ := replace_error hx
        · rw [hdb, hc]
          exact hs
        · rw [hdb, hc]
          exact sound_fewerMinutes hs
      · exact absurd hx pure_ne_error
    | insertPing nodeId taskId ts latency =>
      have hx := boxed_error h
      change (if (nodeId, taskId) ∈ s.cache.assignments then _ else _ : StoreJob Unit) s = _ at hx
      split at hx
      · obtain ⟨hdb | hdb, hc⟩ := replace_error hx
        · rw [hdb, hc]
          exact hs
        · rw [hdb, hc]
          exact sound_fewerResults hs
      · exact absurd hx pure_ne_error

/-! ## Counters at a start -/

/-- An id that was passed is so after seeding. -/
theorem passed_seedId {db : Store} {name : String} {source : IdSource} {n : Int}
    (h : Passed db source n) : Passed (seedId db name) source n := by
  obtain ⟨c, hc, hname, hlt⟩ := h
  unfold seedId
  split
  · rename_i ids hids
    exact ⟨c, (Table.mem_of_insert? hids).mpr (.inr hc), hname, hlt⟩
  · exact ⟨c, hc, hname, hlt⟩

/-- A counter that was just seeded is there. -/
theorem passed_seeded {db : Store} {source : IdSource}
    (h : ¬ db.romiId.Has source.name) : Passed (seedId db source.name) source 0 := by
  have hput := @Table.insert?_of_free _ _ _ _ _ db.romiId ⟨source.name, 1⟩ h
  refine ⟨⟨source.name, 1⟩, ?_, rfl, Int.one_pos⟩
  unfold seedId
  rw [hput]
  exact Table.mem_put.mpr (.inl rfl)

/-- And after raising. -/
theorem passed_raiseId {db : Store} {name : String} {floor : Int} {source : IdSource} {n : Int}
    (h : Passed db source n) : Passed (raiseId db name floor) source n := by
  have hkey : ∀ r : RomiIdRow, ({ r with next := max r.next floor } : RomiIdRow).name = r.name :=
    fun _ => rfl
  obtain ⟨c, hc, hname, hlt⟩ := h
  refine ⟨_, (Table.mem_updateWhere hkey).mpr ⟨c, hc, rfl⟩, ?_, ?_⟩
  · split <;> exact hname
  · split
    · exact lt_of_lt_of_le hlt (le_max_left _ _)
    · exact hlt

/-- What keeps a counter passed at each entry keeps it passed for all of them. -/
theorem passed_foldl {α : Type} {step : Store → α → Store} {source : IdSource} {n : Int}
    (hstep : ∀ db a, Passed db source n → Passed (step db a) source n)
    (list : List α) {db : Store} (h : Passed db source n) :
    Passed (list.foldl step db) source n := by
  induction list generalizing db with
  | nil => exact h
  | cons a rest ih => exact ih (hstep db a h)

/-- And after the schema was set up. -/
theorem passed_initSchema {db : Store} {source : IdSource} {n : Int} (writtenBy : String)
    (now : Int) (h : Passed db source n) : Passed (initSchema writtenBy now db) source n := by
  have hseeded := @passed_foldl _ seedId source n (fun _ _ => passed_seedId) idSources db h
  unfold Passed at hseeded ⊢
  exact hseeded

/-- And after settings were retired. -/
theorem passed_retireSettings {db : Store} {source : IdSource} {n : Int}
    (h : Passed db source n) : Passed (retireSettings db) source n := h

/-- And after the counters were set right. -/
theorem passed_resyncIds {db : Store} {source : IdSource} {n : Int}
    (h : Passed db source n) : Passed (resyncIds db) source n := by
  unfold resyncIds
  exact @passed_foldl _ _ source n (fun _ _ => passed_raiseId) idSources db h

/-- A start lets no counter fall. -/
theorem advances_startup (writtenBy : String) (now : Int) (db : Store) :
    Advances db (startup writtenBy now db) := by
  have hnode : (startup writtenBy now db).node = db.node := by
    rw [startup, resyncIds_frame, initSchema_frame]
    rfl
  have htask : (startup writtenBy now db).pingTask = db.pingTask := by
    rw [startup, resyncIds_frame, initSchema_frame]
    rfl
  intro source
  refine ⟨?_, ?_⟩
  · intro n hn
    exact passed_resyncIds (passed_retireSettings (passed_initSchema writtenBy now hn))
  · intro n hn
    left
    cases source with
    | node =>
      rw [presentIds, hnode] at hn
      exact hn
    | pingTask =>
      rw [presentIds, htask] at hn
      exact hn

/-- A database just created has both counters and no rows. -/
theorem ahead_fresh (writtenBy : String) (now : Int) : Ahead (.fresh writtenBy now) := by
  have hframe := initSchema_frame writtenBy now Store.blank
  refine ⟨?_, ?_⟩
  · intro source
    refine ⟨0, ?_⟩
    cases source with
    | node =>
      have hfree : ¬ Store.blank.romiId.Has IdSource.node.name := by
        rintro ⟨r, hr, -⟩
        cases hr
      exact @passed_seedId _ "ping_task" _ _ (passed_seeded hfree)
    | pingTask =>
      refine @passed_seeded (seedId Store.blank "node") .pingTask ?_
      have hput := @Table.insert?_of_free _ _ _ _ _ Store.blank.romiId ⟨"node", 1⟩
        (by rintro ⟨r, hr, -⟩; cases hr)
      unfold seedId
      rw [hput]
      rintro ⟨r, hr, hname⟩
      rcases Table.mem_put.mp hr with rfl | ⟨hr, -⟩
      · exact absurd hname (by decide)
      · cases hr
  · intro source n hn
    rw [Store.fresh, hframe] at hn
    cases source with
    | node =>
      obtain ⟨r, hr, -⟩ := mem_presentIds_node.mp hn
      cases hr
    | pingTask =>
      obtain ⟨r, hr, -⟩ := mem_presentIds_pingTask.mp hn
      cases hr

/-! ## Every store reached -/

/-- A fresh store has every relation. -/
theorem related_fresh (writtenBy : String) (now : Int) : Related (.fresh writtenBy now) := by
  have hframe := initSchema_frame writtenBy now Store.blank
  rw [Store.fresh, hframe]
  exact related_blank.congr rfl rfl rfl rfl rfl rfl rfl rfl

variable {host : Host} {db : Store} {g : Guard}

/-- A store that is reached is sound. -/
theorem Reached.sound (h : Reached host db g) : Sound True db g := by
  induction h with
  | fresh writtenBy now => exact sound_load fun _ => related_fresh writtenBy now
  | solo h op ih => exact op.preserves True host _ ih
  | telemetry h op ih => exact telemetry_sound rfl ih
  | reloaded h ih => exact sound_load ih.related
  | reopened h writtenBy now ih =>
    exact sound_load fun _ => related_startup_iff.mpr (ih.related trivial)

/-- And its counters are ahead of its ids. -/
theorem Reached.ahead (h : Reached host db g) : Ahead db := by
  induction h with
  | fresh writtenBy now => exact ahead_fresh writtenBy now
  | @solo session h op ih => exact ih.advance (ran_advances ⟨session, rfl, rfl, rfl⟩)
  | @telemetry session h op ih => exact ih.advance (telemetry_advances host op session)
  | reloaded h ih => exact ih
  | reopened h writtenBy now ih => exact ih.advance (advances_startup writtenBy now _)

end Romi.ReachedStores
