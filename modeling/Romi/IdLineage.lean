import Romi.FailedUndo
import Romi.ReachedStores

/-!
# Counters from one database to the next

A start seeds the two counters and brings them past the rows it found. A
restore builds a new database whose counters start over: they are brought past
the rows of the archive and then raised to what the old database had reached.
-/

namespace Romi.IdLineage

open BackupArchive CachedTransactions CrashRecovery FailedUndo FileSwap IssuedIds KeyedTable
  LiveDatabase ReachedStores RestoreStaging StoreAnswers StoreGuard StoreOperations StoreSchema
  StoreVersion

/-! ## Raising a counter -/

variable {source : IdSource} {n : Int} {db : Store}

/-- What is passed is read off the counters alone. -/
theorem passed_of_romiId {db' : Store} (hids : db'.romiId = db.romiId) (h : Passed db source n) :
    Passed db' source n := by
  unfold Passed at h ⊢
  rwa [hids]

/-- A counter that is there is raised past everything below the floor. -/
theorem passed_raised {floor : Int} (hseeded : ∃ k, Passed db source k) (hn : n < floor) :
    Passed (raiseId db source.name floor) source n := by
  have hkey : ∀ r : RomiIdRow, ({ r with next := max r.next floor } : RomiIdRow).name = r.name :=
    fun _ => rfl
  obtain ⟨k, c, hc, hname, -⟩ := hseeded
  refine ⟨{ c with next := max c.next floor }, ?_, hname, lt_of_lt_of_le hn (le_max_right _ _)⟩
  exact (Table.mem_updateWhere hkey).mpr ⟨c, hc, if_pos hname⟩

/-- A seeded source has a counter, whatever was there before. -/
theorem seeded_seedId (db : Store) (source : IdSource) :
    ∃ k, Passed (seedId db source.name) source k := by
  by_cases hhas : db.romiId.Has source.name
  · obtain ⟨c, hc, hname⟩ := hhas
    exact ⟨c.next - 1, passed_seedId ⟨c, hc, hname, Int.sub_one_lt_of_le (le_refl _)⟩⟩
  · exact ⟨0, passed_seeded hhas⟩

/-- A schema just laid down has its counters. -/
theorem seeded_initSchema (writtenBy : String) (now : Int) (db : Store) (source : IdSource) :
    ∃ k, Passed (initSchema writtenBy now db) source k := by
  have hids : (initSchema writtenBy now db).romiId = (seedId (seedId db "node") "ping_task").romiId := by
    simp only [initSchema, idSources, List.foldl_cons, List.foldl_nil, stamp]
  cases source with
  | node =>
    obtain ⟨k, hk⟩ := seeded_seedId db .node
    exact ⟨k, passed_of_romiId hids (passed_seedId hk)⟩
  | pingTask =>
    obtain ⟨k, hk⟩ := seeded_seedId (seedId db "node") .pingTask
    exact ⟨k, passed_of_romiId hids hk⟩

/-- The highest id of a source bounds all of them. -/
theorem le_maxId (h : n ∈ presentIds db source) : n ≤ maxId db source.name := by
  obtain ⟨m, hm⟩ := Finset.max_of_mem h
  have hle := Finset.le_max_of_eq h hm
  cases source with
  | node =>
    have hmax : maxId db IdSource.node.name = m := by
      change (presentIds db .node).max.unbotD 0 = m
      rw [hm]
      rfl
    rwa [hmax]
  | pingTask =>
    have hmax : maxId db IdSource.pingTask.name = m := by
      change (presentIds db .pingTask).max.unbotD 0 = m
      rw [hm]
      rfl
    rwa [hmax]

/-- After `resync_ids` every row is behind its counter. -/
theorem ahead_resyncIds (hseeded : ∀ source, ∃ k, Passed db source k) : Ahead (resyncIds db) := by
  refine ⟨?_, ?_⟩
  · intro source
    obtain ⟨k, hk⟩ := hseeded source
    exact ⟨k, passed_resyncIds hk⟩
  · intro source n hn
    cases source with
    | node =>
      have hle : n ≤ maxId db "node" := @le_maxId .node n db hn
      exact passed_raiseId (@passed_raised .node n db _ (hseeded .node) (Int.lt_add_one_of_le hle))
    | pingTask =>
      have hle : n ≤ maxId (raiseId db "node" (maxId db "node" + 1)) "ping_task" :=
        @le_maxId .pingTask n db hn
      obtain ⟨k, hk⟩ := hseeded .pingTask
      exact @passed_raised .pingTask n _ _ ⟨k, passed_raiseId hk⟩ (Int.lt_add_one_of_le hle)

/-- A start leaves every row behind its counter, whatever file it found. -/
theorem ahead_startup (writtenBy : String) (now : Int) (db : Store) :
    Ahead (startup writtenBy now db) := by
  refine ahead_resyncIds ?_
  intro source
  obtain ⟨k, hk⟩ := seeded_initSchema writtenBy now db source
  exact ⟨k, passed_retireSettings hk⟩

/-! ## The floor of a restore -/

/-- Raising the counters keeps what was passed. -/
theorem passed_raiseIds (floor : List (String × Int)) (h : Passed db source n) :
    Passed (raiseIds db floor) source n := by
  unfold raiseIds
  exact passed_foldl (fun _ _ => passed_raiseId) floor h

/-- An entry of the floor raises its counter. -/
theorem passed_floor {floor : List (String × Int)} {next : Int} (hseeded : ∃ k, Passed db source k)
    (hmem : (source.name, next) ∈ floor) (hn : n < next) : Passed (raiseIds db floor) source n := by
  induction floor generalizing db with
  | nil => cases hmem
  | cons f rest ih =>
    rcases List.mem_cons.mp hmem with rfl | hmem
    · exact passed_raiseIds rest (passed_raised hseeded hn)
    · obtain ⟨k, hk⟩ := hseeded
      exact ih ⟨k, passed_raiseId hk⟩ hmem

/-- What the counters of one database have passed, those raised to them have. -/
theorem passed_idCounters {old : Store} (h : Passed old source n)
    (hseeded : ∃ k, Passed db source k) : Passed (raiseIds db (idCounters old)) source n := by
  obtain ⟨c, hc, hname, hlt⟩ := h
  refine passed_floor hseeded ?_ hlt
  refine List.mem_filterMap.mpr ⟨source.name, ?_, ?_⟩
  · cases source with
    | node => exact List.mem_cons_self
    | pingTask => exact List.mem_cons_of_mem _ List.mem_cons_self
  · rw [Table.find?_eq_some.mpr ⟨hc, hname⟩, Option.map_some, hname]

/-- A staging build ends with `resync_ids` and `raise_ids` on seeded counters. -/
theorem buildStaging_counters {β : Type} {lib : Libraries β} {host : StagingHost}
    {writtenBy : String} {now : Int} {archive : β} {floor : List (String × Int)}
    {report : BackupReport} {staged : Store}
    (h : buildStaging lib host writtenBy now archive floor = .ok (report, staged)) :
    ∃ loaded, (∀ source, ∃ k, Passed loaded source k) ∧
      staged = raiseIds (resyncIds loaded) floor := by
  obtain ⟨loaded, houtside, hfinish⟩ := buildStaging_loaded h
  obtain ⟨u, -, hstaged⟩ := bind_eq_ok.mp hfinish
  cases hstaged
  refine ⟨_, ?_, rfl⟩
  intro source
  obtain ⟨k, hk⟩ := (ahead_fresh writtenBy now).seeded source
  exact ⟨k, passed_of_romiId (congrArg Prod.fst houtside) hk⟩

/-! ## A database that knows these ids -/

/-- Every row is behind its counter, and so is every one of these ids. -/
structure Carries (known : Set (IdSource × Int)) (db : Store) : Prop where
  /-- The schema is the current one. -/
  version : storedVersion db = some schemaVersion
  /-- The counters are ahead of the rows. -/
  ahead : Ahead db
  /-- All that was known is passed. -/
  passed : ∀ p ∈ known, Passed db p.1 p.2

variable {known : Set (IdSource × Int)}

/-- It knows the ids in use as well. -/
theorem Carries.present (h : Carries known db) :
    Carries (known ∪ {p | p.2 ∈ presentIds db p.1}) db := by
  refine ⟨h.version, h.ahead, ?_⟩
  rintro p (hp | hp)
  · exact h.passed p hp
  · exact h.ahead.rows p.1 p.2 hp

/-- A write that advances the counters carries on. -/
theorem Carries.advance {db' : Store} (h : Carries known db) (hadvances : Advances db db')
    (hschema : db'.romiSchema = db.romiSchema) : Carries known db' := by
  refine ⟨?_, h.ahead.advance hadvances, fun p hp => (hadvances p.1).passed p.2 (h.passed p hp)⟩
  rw [storedVersion, hschema]
  exact h.version

/-- Every write of the hub does. -/
theorem carries_write {host : Host} {op : Solo} {answer : Except Failure Payload} {db' : Store}
    (h : Carries known db) (hran : Ran host op db answer db') : Carries known db' := by
  refine h.advance (ran_advances hran) ?_
  obtain ⟨session, rfl, rfl, -⟩ := hran
  exact Solo.keeps host op session rfl

/-- And every batch of telemetry. -/
theorem carries_telemetry {host : Host} {op : Telemetry} {session : Session Store Guard}
    (h : Carries known session.db) : Carries known (op.job host session).2.db :=
  h.advance (telemetry_advances host op session) (Telemetry.keeps host op session rfl)

/-- A start on a database that has passed these ids. -/
theorem carries_startup (hpassed : ∀ p ∈ known, Passed db p.1 p.2) (writtenBy : String)
    (now : Int) : Carries known (startup writtenBy now db) :=
  ⟨storedVersion_initSchema writtenBy now db, ahead_startup writtenBy now db, fun p hp =>
    (advances_startup writtenBy now db p.1).passed p.2 (hpassed p hp)⟩

/-- What a restore puts in service knows the ids its floor was read with. -/
theorem carries_switched {β : Type} {lib : Libraries β} {host : StagingHost} {writtenBy : String}
    {now : Int} {archive : β} {report : BackupReport} {staged : Store} (h : Carries known db)
    (hbuild : buildStaging lib host writtenBy now archive (idCounters db) = .ok (report, staged))
    (live : Live) : Carries known (live.switched staged db) := by
  cases live with
  | file hub =>
    have hversion := (buildStaging_restorable hbuild).version
    obtain ⟨loaded, hseeded, rfl⟩ := buildStaging_counters hbuild
    have hahead := ahead_resyncIds hseeded
    have hframe := raiseIds_frame (resyncIds loaded) (idCounters db)
    refine ⟨hversion, ⟨?_, ?_⟩, ?_⟩
    · intro source
      obtain ⟨k, hk⟩ := hahead.seeded source
      exact ⟨k, passed_raiseIds _ hk⟩
    · intro source n hn
      rw [Live.switched, hframe] at hn
      cases source with
      | node => exact passed_raiseIds _ (hahead.rows .node n hn)
      | pingTask => exact passed_raiseIds _ (hahead.rows .pingTask n hn)
    · intro p hp
      exact passed_idCounters (h.passed p hp) (hahead.seeded p.1)
  | memory m =>
    refine ⟨h.version, ahead_resyncIds fun source => h.ahead.seeded source, ?_⟩
    intro p hp
    refine passed_resyncIds (passed_of_romiId ?_ (h.passed p hp))
    rfl

end Romi.IdLineage
