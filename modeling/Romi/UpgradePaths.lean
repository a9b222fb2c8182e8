import Romi.BackupRoundTrip
import Romi.SchemaUpgrade

/-!
# Two ways up from the schema before

A database of schema 2 can be opened in place, or a hub of its time writes an
archive of it and this build restores that. The first adds the missing columns
by statement, the second leaves them out of its INSERT and takes the defaults
of the table it loads into; both end with the completed rows, less the settings
that were retired.
-/

namespace Romi.UpgradePaths

open ArchiveTables BackupArchive BackupRoundTrip CachedTransactions CrashRecovery FileSwap KeyedTable
open LiveDatabase RestoreStaging SchemaUpgrade StoreRelations StoreSchema

/-! ## The archive of a schema-2 hub -/

section Archive

variable {β : Type} (lib : Libraries β) (engine : String) (taken : Int) (old : SchemaTwo)

/-- The members a schema-2 hub writes: every table under the columns it has. -/
def oldFiles : List (String × β) := filesFor lib 2 engine taken old.tables

/-- The archive of a schema-2 hub. -/
def oldArchive : β := lib.pack (oldFiles lib engine taken old)

/-- Files that were packed are the files unpacked, when nothing refuses them. -/
theorem unpack_files {limits : ArchiveLimits} {files : List (String × β)} {u u' : Unpacked β}
    (h : (files.map fun f => (⟨f.1, true, lib.size f.2, f.2⟩ : Entry β)).foldlM
      (unpackEntry lib limits) u = .ok u') : u'.files = u.files ++ files := by
  induction files generalizing u with
  | nil =>
    cases h
    rw [List.append_nil]
  | cons f rest ih =>
    rw [List.map_cons, List.foldlM_cons] at h
    obtain ⟨mid, hone, hrest⟩ := bind_eq_ok.mp h
    rw [ih hrest, (unpacked_entry hone).2.1, List.append_assoc]
    rfl

/-- What is extracted from the archive is what was packed. -/
theorem extract_old {lib : Libraries β} (hlib : lib.Faithful) {limits : ArchiveLimits}
    {x : Extracted β}
    (h : extractAndValidateWith lib limits (oldArchive lib engine taken old) = .ok x) :
    x.files = oldFiles lib engine taken old ∧ x.report.schema = 2 ∧
      x.report.rows = backupTables.map fun t => (t.sql, ((old.tables t).rows.card : Int)) := by
  obtain ⟨_, -, h⟩ := bind_eq_ok.mp h
  rw [oldArchive, hlib.pack] at h
  obtain ⟨unpacked, hunpacked, h⟩ := bind_eq_ok.mp h
  have hfiles : unpacked.files = oldFiles lib engine taken old := unpack_files lib hunpacked
  rw [hfiles, oldFiles, lookup_manifest] at h
  obtain ⟨_, -, h⟩ := bind_eq_ok.mp h
  rw [hlib.json] at h
  obtain ⟨_, -, h⟩ := bind_eq_ok.mp h
  obtain ⟨rows, hrows, h⟩ := bind_eq_ok.mp h
  rw [checkMembers_ok] at hrows
  cases hrows
  cases h
  exact ⟨rfl, rfl, rfl⟩

end Archive

/-! ## Loading it -/

/-- The two lists of added columns are the same. -/
theorem newColumns_names (t : TableName) :
    (newColumns t).map AddColumn.name = addedColumns t := by
  cases t <;> decide

/-- An old table has a column under its name exactly where it has it with its kind. -/
theorem mem_names_iff (old : SchemaTwo) {t : TableName} {c : Column} (hc : c ∈ (layout t).columns) :
    (c.name, c.kind) ∈ (old.tables t).columns ↔ c.name ∈ old.names t := by
  refine ⟨fun h => List.mem_map_of_mem h, ?_⟩
  intro h
  obtain ⟨c', hc', hname⟩ := List.mem_map.mp h
  obtain ⟨d, hd, rfl⟩ := List.mem_map.mp (old.native t c' hc')
  obtain rfl : d = c := List.inj_on_of_nodup_map (layout t).names_nodup hd hc hname
  exact hc'

/-- The columns a restore asks for are those the file has. -/
theorem mem_expected_iff (old : SchemaTwo) {t : TableName} {c : Column}
    (hc : c ∈ (layout t).columns) :
    c.name ∈ (expectedColumns 2 t (old.tables t).columns).map Prod.fst ↔ c.name ∈ old.names t := by
  have hexpected : expectedColumns 2 t (old.tables t).columns =
      (nativeColumns t).filter fun c => c.1 ∉ addedColumns t ∨ c.1 ∈ old.names t :=
    if_pos (by decide)
  rw [hexpected, List.mem_map]
  constructor
  · rintro ⟨c', hc', hname⟩
    obtain ⟨-, hkeep⟩ := List.mem_filter.mp hc'
    rw [hname, decide_eq_true_iff] at hkeep
    rcases hkeep with hold | hhas
    · rw [← newColumns_names] at hold
      exact old.names_present hc hold
    · exact hhas
  · intro hn
    refine ⟨(c.name, c.kind), List.mem_filter.mpr ⟨List.mem_map_of_mem hc, ?_⟩, rfl⟩
    exact decide_eq_true (.inr hn)

/-- A column the old table has passes the check. -/
theorem checkColumn_old (old : SchemaTwo) {t : TableName} {c : Column}
    (hc : (c.name, c.kind) ∈ (old.tables t).columns) :
    checkColumn t (old.tables t).columns (c.name, c.kind) = .ok () := by
  have hlookup := lookup_map_append (f := Prod.fst) (g := Prod.snd) []
    (fun _ ha h => List.inj_on_of_nodup_map (old.names_nodup t) ha hc h) hc
  rw [List.append_nil, show (fun a : String × String => (a.1, a.2)) = id from rfl, List.map_id]
    at hlookup
  rw [checkColumn, hlookup]
  exact require_of rfl _

/-- The data files of the archive load as the completed rows. -/
theorem loads_old (old : SchemaTwo) {full : Store} (hfull : ∀ t, (old.tables t).rows =
    (table full t).rows.val.map (storedCells t (old.names t))) {report : BackupReport}
    (hschema : report.schema = 2) {t : TableName}
    (hclaim : claimedRows report t = ((old.tables t).rows.card : Int)) :
    Loads report (completeStore old.names full) t (old.tables t) := by
  refine ⟨?_, ?_, ?_⟩
  · rw [hschema]
    refine forM_ok_iff.mpr ?_
    intro c hc
    have hname := List.mem_map_of_mem (f := Prod.fst) hc
    have hnative : c ∈ nativeColumns t := by
      rw [expectedColumns, if_pos (by decide)] at hc
      exact (List.mem_filter.mp hc).1
    obtain ⟨d, hd, rfl⟩ := List.mem_map.mp hnative
    exact checkColumn_old old ((mem_names_iff old hd).mpr ((mem_expected_iff old hd).mp hname))
  · rw [hschema, table_completeStore, completeTable_rows, hfull t, Multiset.map_map,
      Multiset.map_map]
    refine Multiset.map_congr rfl ?_
    intro r _
    rw [Function.comp_apply, Function.comp_apply, cells_eq, namedRow]
    refine List.map_congr_left ?_
    intro c hc
    rw [cellOf_complete (fun _ hd hold => old.names_present hd hold) r hc, kept]
    by_cases hn : c.name ∈ old.names t
    · rw [if_pos ((mem_expected_iff old hc).mpr hn), if_pos hn]
      exact lookupCell_map _ hn
    · rw [if_neg (fun h => hn ((mem_expected_iff old hc).mp h)), if_neg hn]
  · rw [hclaim, countRows, table_completeStore, ← Finset.card_val, completeTable_rows, hfull t,
      Multiset.card_map, Multiset.card_map]

/-- The claims of a report on the archive. -/
theorem claimedRows_old (old : SchemaTwo) {report : BackupReport}
    (hrows : report.rows = backupTables.map fun t => (t.sql, ((old.tables t).rows.card : Int)))
    {t : TableName} (ht : t ∈ backupTables) :
    claimedRows report t = ((old.tables t).rows.card : Int) := by
  have h := lookup_map_append (f := TableName.sql) (g := fun t => ((old.tables t).rows.card : Int)) []
    (fun _ _ h => sql_injective h) ht
  rw [List.append_nil] at h
  rw [claimedRows, hrows, h, Option.getD_some]

section Restoring

variable {β : Type} {lib : Libraries β} (hlib : lib.Faithful) {engine : String} {taken : Int}
  {old : SchemaTwo} {full : Store} (hfull : ∀ t, (old.tables t).rows =
    (table full t).rows.val.map (storedCells t (old.names t))) (htokens : full.TokensUnique)

include hlib hfull htokens

/-- The loading loop does not refuse what was extracted. -/
theorem loadTables_old {limits : ArchiveLimits} {x : Extracted β}
    (hx : extractAndValidateWith lib limits (oldArchive lib engine taken old) = .ok x)
    (writtenBy : String) (now : Int) :
    ∃ st, backupTables.foldlM (loadTable lib x.report x.files)
        ⟨Store.fresh writtenBy now, fun _ => 0⟩ = .ok st ∧
      Loaded (Store.fresh writtenBy now) (completeStore old.names full) backupTables.reverse st := by
  obtain ⟨hfiles, hschema, hrows⟩ := extract_old engine taken old hlib hx
  have hread : ∀ t ∈ backupTables,
      (x.files.lookup (parquetName t)).bind lib.readParquet = some (old.tables t) := by
    intro t ht
    rw [hfiles, oldFiles, lookup_table lib _ _ _ _ ht, Option.bind_some, hlib.parquet]
  obtain ⟨st, hload, hst⟩ := loadTables_ok (table_fresh writtenBy now)
    (tokensUnique_completeStore htokens)
    (loaded_nil (Store.fresh writtenBy now) (completeStore old.names full)) (by decide) hread
    (fun t ht => loads_old old hfull hschema (claimedRows_old old hrows ht))
  rw [List.append_nil] at hst
  exact ⟨st, hload, hst⟩

/-- Whatever a staging build makes of the archive is the completed rows. -/
theorem buildStaging_old {host : StagingHost} {writtenBy : String} {now : Int}
    {floor : List (String × Int)} {report : BackupReport} {db : Store}
    (h : buildStaging lib host writtenBy now (oldArchive lib engine taken old) floor =
      .ok (report, db)) : db = restored writtenBy now floor (completeStore old.names full) := by
  obtain ⟨x, hx, h⟩ := bind_eq_ok.mp h
  obtain ⟨_, -, h⟩ := bind_eq_ok.mp h
  obtain ⟨_, -, h⟩ := bind_eq_ok.mp h
  obtain ⟨st', hload', hst⟩ := loadTables_old hlib hfull htokens hx writtenBy now
  split at h
  · cases h
  · obtain ⟨st, hload, h⟩ := bind_eq_ok.mp h
    obtain rfl : st' = st := Except.ok.inj (hload'.symm.trans hload)
    obtain ⟨keyed, hkeys, h⟩ := bind_eq_ok.mp h
    rw [addLargeTableKeys_loaded hst] at hkeys
    cases hkeys
    obtain ⟨last, hfinish, h⟩ := bind_eq_ok.mp h
    cases h
    rw [finishStaging_transplant] at hfinish
    cases hverify : verifyRelationships
        (retireSettings (transplant (Store.fresh writtenBy now) (completeStore old.names full))) with
    | error e =>
      rw [hverify] at hfinish
      cases hfinish
    | ok u =>
      rw [hverify] at hfinish
      cases hfinish
      rfl

/-- The report on the archive. -/
def oldReport {β : Type} (lib : Libraries β) (engine : String) (taken : Int) (old : SchemaTwo) :
    BackupReport :=
  ⟨backupFormat, BackupArchive.kind, 2, engine, taken, lib.size (oldArchive lib engine taken old),
    backupTables.map fun t => (t.sql, ((old.tables t).rows.card : Int)), true⟩

/-- Nothing but limits and relationships stands in its way. -/
theorem buildStaging_old_ok {host : StagingHost} (hrelated : Related (completeStore old.names full))
    (hw : WithinLimits lib defaultArchiveLimits (oldArchive lib engine taken old)
      (oldFiles lib engine taken old))
    (hhost : host.Suffices ((oldFiles lib engine taken old).map fun f => lib.size f.2).sum
      (oldReport lib engine taken old)) (writtenBy : String) (now : Int)
    (floor : List (String × Int)) :
    buildStaging lib host writtenBy now (oldArchive lib engine taken old) floor =
      .ok (oldReport lib engine taken old,
        restored writtenBy now floor (completeStore old.names full)) := by
  have hx := extract_filesFor lib 2 engine taken old.tables hlib (by decide) hw
  obtain ⟨limit, hmemory⟩ := hhost.memory
  obtain ⟨st, hload, hst⟩ := loadTables_old hlib hfull htokens hx writtenBy now
  refine bind_eq_ok.mpr ⟨_, hx, bind_eq_ok.mpr ⟨(), hhost.disk,
    bind_eq_ok.mpr ⟨limit, hmemory, ?_⟩⟩⟩
  rw [hhost.engine]
  exact bind_eq_ok.mpr ⟨st, hload, bind_eq_ok.mpr ⟨_, addLargeTableKeys_loaded hst,
    bind_eq_ok.mpr ⟨_, finishStaging_related floor hrelated, rfl⟩⟩⟩

end Restoring

/-! ## The two ways agree -/

/-- A start keeps a database related. -/
theorem related_startup_iff {writtenBy : String} {now : Int} {store : Store} :
    Related (startup writtenBy now store) ↔ Related store := by
  have hframe : startup writtenBy now store = { store with
      setting := (startup writtenBy now store).setting
      romiId := (startup writtenBy now store).romiId
      romiSchema := (startup writtenBy now store).romiSchema } := by
    rw [startup, resyncIds_frame, initSchema_frame]
    rfl
  rw [hframe]
  constructor
  · intro h
    exact h.congr rfl rfl rfl rfl rfl rfl rfl rfl
  · intro h
    exact h.congr rfl rfl rfl rfl rfl rfl rfl rfl

/-- What the migrated database reads as before a start touches it. -/
def upgraded (old : SchemaTwo) (full : Store) : Store :=
  { completeStore old.names full with romiId := old.romiId, romiSchema := old.romiSchema }

/-- An upgraded table is the completed one. -/
theorem table_upgraded (old : SchemaTwo) (full : Store) (t : TableName) :
    table (upgraded old full) t = table (completeStore old.names full) t := by
  cases t <;> rfl

/-- A database this build has opened opens again as it is. -/
theorem reopen_unchanged {opened : Database} {store : Store}
    (hversion : opened.version = some schemaVersion)
    (hids : store.romiId = opened.romiId) (hschema : store.romiSchema = opened.romiSchema)
    (h : ∀ t, Reads t (opened.tables t) (table store t))
    (hretired : retireRows (opened.tables .setting) = opened.tables .setting)
    (writtenBy : String) (now : Int) :
    ∃ again, openDatabase writtenBy now opened = .ok again ∧
      ∀ t, again.tables t = opened.tables t := by
  have hcurrent : (if schemaVersion < schemaVersion then migrate opened schemaVersion else opened) =
      opened := if_neg (lt_irrefl schemaVersion)
  obtain ⟨again, hopen, -, -, -, htables⟩ := @openDatabase_of_reads writtenBy now opened store
    schemaVersion hversion le_rfl hids hschema (by rwa [hcurrent])
  refine ⟨again, hopen, ?_⟩
  intro t
  rw [htables t, hcurrent]
  by_cases ht : t = .setting
  · subst ht
    rw [if_pos rfl, hretired]
  · rw [if_neg ht]

/-- However many of the added columns a schema-2 database already has, opening
it and restoring the archive of it end with the same rows: whenever a restore
over some hub succeeds, what it puts in service has in every backup table the
rows of the opened database, and it succeeds where the limits, the host and the
relationships it checks allow it. Opening the opened database again changes no
table. -/
theorem upgrade_paths_agree {β : Type} {lib : Libraries β} (hlib : lib.Faithful) (old : SchemaTwo)
    (writtenBy : String) (now : Int) :
    ∃ opened store, openDatabase writtenBy now old.toDatabase = .ok opened ∧
      opened.store? = some store ∧
      (∀ engine taken host live current, Live.Serves live current → Servable current →
        (∀ report, (restore lib host (oldArchive lib engine taken old) live).1 = .ok report →
          ∃ db, (restore lib host (oldArchive lib engine taken old) live).2.Serves db ∧
            ∀ t ∈ backupTables, table db t = table store t) ∧
        (Related store →
          WithinLimits lib defaultArchiveLimits (oldArchive lib engine taken old)
            (oldFiles lib engine taken old) →
          host.staging.Suffices ((oldFiles lib engine taken old).map fun f => lib.size f.2).sum
            (oldReport lib engine taken old) → host.faults = .none →
          (restore lib host (oldArchive lib engine taken old) live).1 =
            .ok (oldReport lib engine taken old))) ∧
      ∀ writtenBy' now', ∃ again, openDatabase writtenBy' now' opened = .ok again ∧
        ∀ t, again.tables t = opened.tables t := by
  obtain ⟨full, htokens, hfull⟩ := old.allowed
  obtain ⟨opened, hopen, hreads, hids, hschema, htables⟩ :=
    @openDatabase_of_reads writtenBy now old.toDatabase (upgraded old full) 2 old.version
      (by decide) rfl rfl (by
        intro t
        rw [if_pos (by decide), table_upgraded]
        exact old.reads_migrate hfull t)
  have hrelated : Related (startup writtenBy now (upgraded old full)) ↔
      Related (completeStore old.names full) := by
    rw [related_startup_iff]
    constructor
    · intro h
      exact h.congr rfl rfl rfl rfl rfl rfl rfl rfl
    · intro h
      exact h.congr rfl rfl rfl rfl rfl rfl rfl rfl
  have hrows : ∀ t ∈ backupTables,
      table (startup writtenBy now (upgraded old full)) t =
        table (retireSettings (completeStore old.names full)) t := by
    intro t ht
    rw [table_startup]
    cases t <;> rfl
  refine ⟨opened, startup writtenBy now (upgraded old full), hopen,
    store?_of_reads hreads hids.symm hschema.symm, ?_, ?_⟩
  · intro engine taken host live current hlive hcurrent
    refine ⟨?_, ?_⟩
    · intro report hok
      rcases @restore_spec β lib host (oldArchive lib engine taken old) live current hlive hcurrent
        with ⟨report', staged, hstaged, -, hserve⟩ | ⟨⟨e, he⟩, -⟩
      · have hdb := buildStaging_old hlib hfull htokens hstaged
        subst hdb
        refine ⟨_, hserve, ?_⟩
        intro t ht
        rw [hrows t ht]
        exact table_switched live host.writtenBy host.now (idCounters current) _ current ht
      · rw [hok] at he
        cases he
    · intro hstore hw hhost hfaults
      have hbuild := buildStaging_old_ok hlib hfull htokens (hrelated.mp hstore) hw hhost
        host.writtenBy host.now (idCounters current)
      have hcomplete := buildStaging_restorable hbuild
      have hclear := activate_clear hlive ⟨schemaVersion, hcomplete.version, le_rfl⟩
        hcomplete.related.tokens
      have hfloor : live.floor = idCounters current := by rw [Live.floor, hlive.read]
      unfold restore
      rw [hfloor, hbuild, hfaults]
      dsimp only
      generalize (live.stage _).activate _ _ = switch at hclear
      obtain ⟨outcome, served⟩ := switch
      obtain ⟨rfl, -⟩ := hclear
      rfl
  · refine reopen_unchanged ?_ hids.symm hschema.symm hreads ?_
    · rw [Database.version, hschema]
      exact storedVersion_initSchema writtenBy now (upgraded old full)
    · rw [htables .setting, if_pos rfl]
      exact retireRows_twice _

/-! ## A database without any of the added columns -/

/-- The columns a table had before schema 3. -/
def baseColumns (t : TableName) : List (String × String) :=
  (nativeColumns t).filter fun c => c.1 ∉ (newColumns t).map AddColumn.name

/-- A store cut down to the columns of schema 2. -/
def cutDown (full : Store) (htokens : full.TokensUnique) : SchemaTwo where
  tables t := ⟨baseColumns t,
    (table full t).rows.val.map (storedCells t ((baseColumns t).map Prod.fst))⟩
  romiId := full.romiId
  romiSchema := (Table.empty _).put ⟨1, 2, engineVersion, "romi", 0⟩
  version := rfl
  names_nodup t := (layout t).names_nodup.sublist (by
    rw [← Layout.names, ← nativeColumns_names]
    exact List.filter_sublist.map Prod.fst)
  native _ _ hc := (List.mem_filter.mp hc).1
  present _ _ hc hold := List.mem_filter.mpr ⟨hc, decide_eq_true hold⟩
  allowed := ⟨full, htokens, fun _ => rfl⟩

/-- The node of a hub of schema 2. -/
def legacyNode : NodeRow :=
  StoreJobs.newNodeRow 1 ⟨"private legacy", false, 0, "USD", "monthly", none, "", 0, "sum", 1, 0, "GB",
    0, 0, true, false⟩ "digest" 0 0

/-- A hub of schema 2 with one node, one minute of its history and a retired setting. -/
def legacy : SchemaTwo :=
  cutDown
    { Store.blank with
      setting := (Table.empty _).put ⟨"github_client_secret", "secret"⟩
      node := (Table.empty _).put legacyNode
      traffic := (Table.empty _).put ⟨1, "", 0, 0, 0, 0, 0, 0, "", 0, 0, ""⟩
      metric := (Table.empty _).put ⟨1, 60, 33, 0, 0, 0, 0, 0, 0, 0, 0, some 5, none, none, none⟩ }
    (by
      intro r hr s hs _
      have hnode : ∀ x ∈ ((Table.empty NodeRow.id).put legacyNode).rows, x = legacyNode := by
        intro x hx
        exact (Table.mem_put.mp hx).resolve_right fun h => absurd h.1 (Finset.notMem_empty x)
      rw [hnode r hr, hnode s hs])

/-- Its upgraded rows are related. -/
theorem legacy_related {opened : Database} {store : Store}
    (hopen : openDatabase "romi" 60 legacy.toDatabase = .ok opened)
    (hstore : opened.store? = some store) : Related store := by
  have hcheck : ((openDatabase "romi" 60 legacy.toDatabase).toOption.bind Database.store?).map
      (fun s => (verifyRelationships s).toBool) = some true := by decide +kernel
  rw [hopen] at hcheck
  change opened.store?.map (fun s => (verifyRelationships s).toBool) = some true at hcheck
  rw [hstore, Option.map_some, Option.some.injEq] at hcheck
  refine verifyRelationships_ok_iff.mp ?_
  cases hverify : verifyRelationships store with
  | ok u => rfl
  | error e =>
    rw [hverify] at hcheck
    cases hcheck

/-- The hub is opened in place, and its archive restored over another one. -/
theorem upgrade_paths_agree_legacy :
    ∃ opened store db, openDatabase "romi" 60 legacy.toDatabase = .ok opened ∧
      opened.store? = some store ∧
      (restore wrapping ⟨⟨none, 0, none, none⟩, "romi", 90, .none⟩
          (oldArchive wrapping engineVersion 0 legacy) (.memory (Store.fresh "other" 7))).1 =
        .ok (oldReport wrapping engineVersion 0 legacy) ∧
      (restore wrapping ⟨⟨none, 0, none, none⟩, "romi", 90, .none⟩
          (oldArchive wrapping engineVersion 0 legacy)
          (.memory (Store.fresh "other" 7))).2.Serves db ∧
      (∀ t ∈ backupTables, table db t = table store t) ∧
      ∃ again, openDatabase "romi" 120 opened = .ok again ∧ ∀ t, again.tables t = opened.tables t := by
  obtain ⟨opened, store, hopen, hstore, hrestore, hagain⟩ :=
    upgrade_paths_agree wrapping_faithful legacy "romi" 60
  obtain ⟨hserves, hsucceeds⟩ := hrestore engineVersion 0 ⟨⟨none, 0, none, none⟩, "romi", 90, .none⟩
    (.memory (Store.fresh "other" 7)) _ (memory_serves _)
    ⟨schemaVersion, storedVersion_initSchema "other" 7 _, le_rfl⟩
  have hfew : (oldFiles wrapping engineVersion 0 legacy).length ≤ defaultArchiveLimits.total := by
    rw [oldFiles, filesFor, List.length_append, List.length_map, List.length_singleton]
    decide
  have hok := hsucceeds (legacy_related hopen hstore) (wrapping_small _ hfew)
    (silent_suffices _ _) rfl
  obtain ⟨db, hdb, hsame⟩ := hserves _ hok
  exact ⟨opened, store, db, hopen, hstore, hok, hdb, hsame, hagain "romi" 120⟩

end Romi.UpgradePaths
