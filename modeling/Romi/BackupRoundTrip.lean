import Romi.WriterGuarantees

/-!
# A backup restores to what was backed up

The archive of any database the writer can reach, restored over any live
database, file or memory, leaves exactly the archived rows in service, and a
backup of the result has the same files.
-/

namespace Romi.BackupRoundTrip

open ArchiveTables BackupArchive CachedTransactions FileSwap KeyedTable LiveDatabase RestoreStaging
  StoreInvariant StoreOperations StoreRelations StoreSchema WriterGuarantees WriterQueue WriterRuns

/-- A copy of a database through a backup. -/
structure Replica {β : Type} (lib : Libraries β) (src copy : Store) : Prop where
  /-- The backup tables hold exactly the rows of the source, without the
  retired settings. -/
  tables : ∀ t ∈ backupTables, table copy t = table (retireSettings src) t
  /-- Other than settings nothing is left out. -/
  complete : ∀ t ∈ backupTables, t ≠ .setting → table copy t = table src t
  /-- The settings are copied, but for those retired. -/
  settings : ∀ r, r ∈ copy.setting.rows ↔ r ∈ src.setting.rows ∧ r.key ∉ retiredSettings
  /-- No session is. -/
  session : copy.session = .empty _
  /-- The copy is of the current schema. -/
  version : storedVersion copy = some schemaVersion
  /-- Its own backup has the same files. -/
  archive : ∀ taken, archiveFiles lib taken copy = archiveFiles lib taken (retireSettings src)

/-- An archive shows the backup tables and nothing else. -/
theorem archiveFiles_congr {β : Type} (lib : Libraries β) {db db' : Store}
    (h : ∀ t ∈ backupTables, table db t = table db' t) (taken : Int) :
    archiveFiles lib taken db = archiveFiles lib taken db' := by
  have hdata : ∀ t ∈ backupTables, tableData lib db t = tableData lib db' t := by
    intro t ht
    rw [tableData, tableData, exportTable, exportTable, h t ht]
  have hmembers : ∀ t ∈ backupTables, (t.sql, memberOf lib db t) = (t.sql, memberOf lib db' t) := by
    intro t ht
    rw [memberOf, memberOf, countRows, countRows, h t ht, hdata t ht]
  have hmanifest : manifestOf lib taken db = manifestOf lib taken db' := by
    rw [manifestOf, manifestOf, List.map_congr_left hmembers]
  have hfiles : ∀ t ∈ backupTables,
      (parquetName t, tableData lib db t) = (parquetName t, tableData lib db' t) := by
    intro t ht
    rw [hdata t ht]
  rw [archiveFiles, archiveFiles, hmanifest, List.map_congr_left hfiles]

/-- What a restore of `src` puts in service holds the rows of `src`. -/
theorem table_switched (live : Live) (writtenBy : String) (now : Int) (floor : List (String × Int))
    (src db : Store) {t : TableName} (ht : t ∈ backupTables) :
    table (live.switched (restored writtenBy now floor src) db) t = table (retireSettings src) t := by
  have hne : t ≠ .session := mem_backupTables.mp ht
  have hrestored : table (restored writtenBy now floor src) t = table (retireSettings src) t := by
    rw [restored, raiseIds_frame, resyncIds_frame]
    cases t with
    | session => exact absurd rfl hne
    | _ => rfl
  cases live with
  | file h => exact hrestored
  | memory m =>
    rw [← hrestored]
    change table (absorbed _ db) t = _
    rw [absorbed, resyncIds_frame]
    cases t with
    | session => exact absurd rfl hne
    | _ => rfl

/-- A restored database is a copy of what was archived. -/
theorem switched_replica {β : Type} (lib : Libraries β) {live : Live} {writtenBy : String}
    {now : Int} {floor : List (String × Int)} {src db : Store}
    (hcomplete : Restorable (restored writtenBy now floor src))
    (hversion : storedVersion db = some schemaVersion) :
    Replica lib src (live.switched (restored writtenBy now floor src) db) where
  tables _ ht := table_switched live writtenBy now floor src db ht
  complete t ht hne := by
    rw [table_switched live writtenBy now floor src db ht]
    cases t with
    | setting => exact absurd rfl hne
    | _ => rfl
  settings r := by
    have hsetting := table_switched live writtenBy now floor src db
      (show TableName.setting ∈ backupTables by decide)
    change (live.switched _ db).setting = (retireSettings src).setting at hsetting
    rw [hsetting]
    exact Table.mem_deleteWhere
  session := (switched_restorable hcomplete hversion).session
  version := (switched_restorable hcomplete hversion).version
  archive taken :=
    archiveFiles_congr lib (fun _ ht => table_switched live writtenBy now floor src db ht) taken

/-- Restoring the archive of a database the writer reached, over any live
database: without a fault it succeeds, and whenever it succeeds the archived
rows are in service and their own backup has the same files. -/
theorem backup_restore_identity {β : Type} {lib : Libraries β} (hlib : lib.Faithful) (host : Host)
    {start : Live} {origin src : Store} (hstart : start.Serves origin)
    (horigin : Origin lib origin) (events : List (Event β))
    (hreload : ∀ a, Event.write a ∈ events → a.reloads = true)
    (hsrc : ((opened start origin).run lib host events).live.Serves src)
    {live : Live} {db : Store} (hlive : live.Serves db)
    (hversion : storedVersion db = some schemaVersion) (taken : Int)
    (hlimits : WithinLimits lib defaultArchiveLimits (writeArchive lib taken src).1
      (archiveFiles lib taken src))
    {staging : StagingHost}
    (hstaging : staging.Suffices ((archiveFiles lib taken src).map fun f => lib.size f.2).sum
      (reportOn lib taken src)) (writtenBy : String) (now : Int) :
    (restore lib ⟨staging, writtenBy, now, .none⟩ (writeArchive lib taken src).1 live).1 =
        .ok (reportOn lib taken src) ∧
      ∀ faults report, (restore lib ⟨staging, writtenBy, now, faults⟩
          (writeArchive lib taken src).1 live).1 = .ok report →
        ∃ copy, (restore lib ⟨staging, writtenBy, now, faults⟩
            (writeArchive lib taken src).1 live).2.Serves copy ∧ Replica lib src copy := by
  obtain ⟨now', hserves, hbacks⟩ := always_backs_up lib host hstart horigin events hreload
  have hrelated : Related src := by
    rw [← hserves.unique hsrc]
    exact verifyRelationships_ok_iff.mp hbacks.verified
  have hbuild : buildStaging lib staging writtenBy now (writeArchive lib taken src).1
      (idCounters db) = .ok (reportOn lib taken src,
        restored writtenBy now (idCounters db) src) :=
    buildStaging_writeArchive hlib hrelated hlimits hstaging
  have hcomplete := buildStaging_restorable hbuild
  have hfloor : live.floor = idCounters db := by rw [Live.floor, hlive.read]
  refine ⟨?_, ?_⟩
  · have hclear := activate_clear hlive ⟨schemaVersion, hcomplete.version, le_rfl⟩
      hcomplete.related.tokens
    unfold restore
    rw [hfloor, hbuild]
    dsimp only
    generalize (live.stage _).activate _ _ = switch at hclear
    obtain ⟨outcome, served⟩ := switch
    obtain ⟨rfl, -⟩ := hclear
    rfl
  · intro faults report hok
    have hspec := @restore_spec β lib ⟨staging, writtenBy, now, faults⟩
      (writeArchive lib taken src).1 live db hlive ⟨schemaVersion, hversion, le_rfl⟩
    rcases hspec with ⟨report', staged, hstaged, -, hserve⟩ | ⟨⟨e, he⟩, -⟩
    · rw [hbuild] at hstaged
      cases hstaged
      exact ⟨_, hserve, switched_replica lib hcomplete hversion⟩
    · rw [hok] at he
      cases he

/-- A wrapped file has one byte, so an archive of a few files is small enough. -/
theorem wrapping_small (archive : Wrapped) {files : List (String × Wrapped)}
    (hfew : files.length ≤ defaultArchiveLimits.total) :
    WithinLimits wrapping defaultArchiveLimits archive files where
  compressed := by
    change 1 ≤ maxArchive
    decide
  member f _ := by
    change 1 ≤ defaultArchiveLimits.limitOf f.1
    unfold ArchiveLimits.limitOf
    split <;> decide
  total := by
    have hsum : (files.map fun f => wrapping.size f.2).sum = files.length := by
      clear hfew
      induction files with
      | nil => rfl
      | cons f rest ih =>
        rw [List.map_cons, List.sum_cons, ih, List.length_cons]
        exact Nat.add_comm 1 rest.length
    rw [hsum]
    exact hfew

/-- The archive is within the limits. -/
theorem wrapping_within (taken : Int) (src : Store) :
    WithinLimits wrapping defaultArchiveLimits (writeArchive wrapping taken src).1
      (archiveFiles wrapping taken src) := by
  refine wrapping_small _ ?_
  rw [archiveFiles, List.length_append, List.length_map, List.length_singleton]
  decide

/-- A platform that cannot say what it has lets any build pass. -/
theorem silent_suffices (expanded : Nat) (report : BackupReport) :
    StagingHost.Suffices ⟨none, 0, none, none⟩ expanded report where
  disk := rfl
  memory := by
    refine ⟨_, bind_eq_ok.mpr ⟨(), require_of ?_ _, rfl⟩⟩
    exact (min_le_right _ _).trans (le_max_left _ _)
  engine := rfl

/-- One node, registered. -/
def oneNode : List (Event Wrapped) :=
  [.build (.solo (.createNodeWithin 60 ⟨"node", true, 0, "USD", "month", none, "", 0, "sum", 1, 0,
    "GB", 0, 0, true, false⟩ "token" none)), .send 0, .write willing]

/-- Its backup restores over an unrelated hub. -/
theorem backup_restore_identity_oneNode :
    ∃ src, ((opened (.memory (Store.fresh "romi" 0)) (Store.fresh "romi" 0)).run wrapping plainHost
        oneNode).live.Serves src ∧
      (restore wrapping ⟨⟨none, 0, none, none⟩, "romi", 90, .none⟩ (writeArchive wrapping 60 src).1
        (.memory (Store.fresh "other" 7))).1 = .ok (reportOn wrapping 60 src) := by
  have hreload : ∀ a, Event.write a ∈ oneNode → a.reloads = true := by
    intro a ha
    simp only [oneNode, List.mem_cons, Event.write.injEq, List.not_mem_nil, or_false,
      reduceCtorEq, false_or] at ha
    rw [ha]
    rfl
  obtain ⟨src, hsrc, -⟩ := always_backs_up wrapping plainHost (memory_serves _)
    (.fresh "romi" 0) oneNode hreload
  exact ⟨src, hsrc, (backup_restore_identity wrapping_faithful plainHost (memory_serves _)
    (.fresh "romi" 0) oneNode hreload hsrc (memory_serves (Store.fresh "other" 7))
    (storedVersion_initSchema "other" 7 _) 60 (wrapping_within 60 src) (silent_suffices _ _)
    "romi" 90).1⟩

end Romi.BackupRoundTrip
