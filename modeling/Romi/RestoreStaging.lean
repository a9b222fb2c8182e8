import Romi.BackupArchive
import Romi.StoreRelations
import Romi.TrafficFold

/-!
# Rebuilding an archive into a staging database

The staging database has the tables of this build, with the keys of the four
large ones left off until their rows are in. Rows are inserted by column name,
counted against the manifest and checked against each other before anything
live is touched. What comes out is either refused or a complete, related
database; for an archive this build wrote it is the exported rows.
-/

namespace Romi.RestoreStaging

open ArchiveTables BackupArchive CachedTransactions KeyedTable StoreRelations StoreSchema
open TrafficFold (saturatingAdd)

/-! ## Resources -/

/-- What the host answers during a staging build. -/
structure StagingHost where
  /-- `available_bytes`, `none` when the platform cannot say. -/
  free : Option Nat
  /-- The configured memory limit in bytes. -/
  configured : Nat
  /-- `system_memory_bytes`. -/
  system : Option Nat
  /-- A refusal of the engine or the filesystem somewhere in the build. -/
  refusal : Option Failure

/-- `u64::saturating_mul` and `saturating_add` stop here. -/
def capU64 (n : Nat) : Nat := min n u64Max

/-- The advisory disk check of `build_staging`. -/
def checkDisk (free : Option Nat) (expanded : Nat) : Except Failure Unit :=
  match free with
  | none => pure ()
  | some free =>
    let needed := capU64 (capU64 (expanded * 2) + 16 * 1024 * 1024)
    require (needed ≤ free)
      s!"构建恢复 staging 数据库的可用磁盘空间不足：剩余 {free} 字节，预计至少需要 {needed} 字节"

/-- `staging_memory_limit` on parsed sizes. -/
def stagingMemoryLimit (configured : Nat) (system : Option Nat) (indexedRows : Int) :
    Except Failure Nat := do
  let needed := capU64 (256 * 1024 * 1024 + capU64 ((max indexedRows 0).toNat * 64))
  let systemCap := (system.map fun bytes => capU64 (bytes * 3) / 4).getD u64Max
  let cap := max systemCap configured
  require (needed ≤ cap)
    s!"恢复这个归档需要约 {needed / 1024 / 1024} MiB 的 staging 内存，但本机可用预算约 {cap / 1024 / 1024} MiB；请释放内存、在更大的主机上恢复，或提高 --db-memory"
  pure (min (max configured needed) cap)

/-- The rows a report claims for one table, 0 when it does not mention it. -/
def claimedRows (report : BackupReport) (t : TableName) : Int :=
  (report.rows.lookup t.sql).getD 0

/-- The rows that will sit under a deferred key. -/
def indexedRows (report : BackupReport) : Int :=
  saturatingAdd (saturatingAdd (saturatingAdd (claimedRows report .metric)
    (claimedRows report .pingRecord)) (claimedRows report .metricHour)) (claimedRows report .pingHour)

/-! ## Loading -/

/-- The staging database while its large tables have no key. -/
structure Staging where
  /-- Everything that has its constraints. -/
  db : Store
  /-- The rows of the tables that do not have theirs yet. -/
  bulk : (t : TableName) → Multiset t.Row

/-- The columns schema 3 added, which an older archive may lack. -/
def addedColumns : TableName → List String
  | .node => ["traffic_unit", "priority", "bandwidth_up", "bandwidth_down", "has_ipv4", "has_ipv6",
      "online_since"]
  | .metric => ["zram_used", "swap_disk_used", "swapfile_used", "swap_partition_used"]
  | .metricHour => ["tcp_sum", "tcp_samples", "udp_sum", "udp_samples", "procs_sum",
      "procs_samples", "zram_used_sum", "zram_used_samples", "swap_disk_used_sum",
      "swap_disk_used_samples", "swapfile_used_sum", "swapfile_used_samples",
      "swap_partition_used_sum", "swap_partition_used_samples"]
  | _ => []

/-- The columns to load: all of this build's, less the added ones an old file lacks. -/
def expectedColumns (schema : Int) (t : TableName) (theirs : List (String × String)) :
    List (String × String) :=
  if schema < 3 then
    (nativeColumns t).filter fun c =>
      c.1 ∉ addedColumns t ∨ c.1 ∈ theirs.map Prod.fst
  else nativeColumns t

/-- A column must be in the file under its own name and type. -/
def checkColumn (t : TableName) (theirs : List (String × String)) (ours : String × String) :
    Except Failure Unit :=
  match theirs.lookup ours.1 with
  | none => .error (.declined s!"{t.sql} 的数据文件缺少列 {ours.1}")
  | some kind =>
    require (kind = ours.2) s!"{t.sql}.{ours.1} 的类型是 {kind}，本版本要求 {ours.2}"

/-- One row under a column list: named columns from the file, the rest defaults. -/
def namedRow {ρ : Type} (l : Layout ρ) (names theirs : List String) (row : List Cell) : List Cell :=
  l.columns.map fun c => if c.name ∈ names then lookupCell theirs row c.name else c.default

/-- Every row built, or `none` when one violates its columns. -/
def buildRows {ρ : Type} (l : Layout ρ) (rows : Multiset (List Cell)) : Option (Multiset ρ) :=
  if ∀ row ∈ rows, (l.build row).isSome = true then some (rows.filterMap l.build) else none

instance (db : Store) : Decidable db.TokensUnique :=
  inferInstanceAs (Decidable (∀ r ∈ db.node.rows, ∀ s ∈ db.node.rows,
    r.tokenHash = s.tokenHash → r = s))

/-- INSERT of rows into a table with its key and UNIQUE(token_hash) in force. -/
def fillTable (db : Store) (t : TableName) (rows : Multiset t.Row) : Option Store :=
  match (table db t).insertAll? rows with
  | none => none
  | some filled =>
    if (withTable db t filled).TokensUnique then some (withTable db t filled) else none

/-- INSERT of rows into one staging table, under the constraints it has so far. -/
def insertRows (st : Staging) (t : TableName) (rows : Multiset t.Row) : Option Staging :=
  if t ∈ deferredTables then
    some { st with bulk := Function.update st.bulk t (st.bulk t + rows) }
  else (fillTable st.db t rows).map fun db => { st with db := db }

/-- `SELECT COUNT(*)` on one staging table. -/
def countStaged (st : Staging) (t : TableName) : Int :=
  if t ∈ deferredTables then (st.bulk t).card else (table st.db t).rows.card

/-- `INSERT INTO table (list) SELECT list FROM read_parquet(file)`. -/
def insertSelected (st : Staging) (t : TableName) (names : List String) (file : Relation) :
    Option Staging := do
  let rows ← buildRows (layout t)
    (file.rows.map (namedRow (layout t) names (file.columns.map Prod.fst)))
  insertRows st t rows

/-- One round of the loading loop. -/
def loadTable {β : Type} (lib : Libraries β) (report : BackupReport) (files : List (String × β))
    (st : Staging) (t : TableName) : Except Failure Staging := do
  match (files.lookup (parquetName t)).bind lib.readParquet with
  | none => .error .engine
  | some file => do
    let ours := expectedColumns report.schema t file.columns
    ours.forM (checkColumn t file.columns)
    match insertSelected st t (ours.map Prod.fst) file with
    | none => .error (.declined s!"rebuilding table {t.sql}")
    | some st => do
      require (countStaged st t = claimedRows report t)
        s!"{t.sql} 期望 {claimedRows report t} 行，实际装入 {countStaged st t} 行"
      pure st

/-- One ADD PRIMARY KEY: the rows become a table unless a key repeats. -/
def addKey (bulk : (t : TableName) → Multiset t.Row) (db : Store) (t : TableName) : Option Store :=
  (Table.ofRows? t.key (bulk t)).map (withTable db t)

/-- `add_large_table_keys`. -/
def addLargeTableKeys (st : Staging) : Except Failure Store :=
  match deferredTables.foldlM (addKey st.bulk) st.db with
  | some db => .ok db
  | none => .error (.declined "adding the large history primary keys to the staging database")

/-- Sessions and retired settings go, then the rows are checked against each
other and the identity counters brought past them. -/
def finishStaging (floor : List (String × Int)) (db : Store) : Except Failure Store := do
  let db := retireSettings { db with session := .empty _ }
  verifyRelationships db
  pure (raiseIds (resyncIds db) floor)

/-- `build_staging`: the report on the archive and the complete database. -/
def buildStaging {β : Type} (lib : Libraries β) (host : StagingHost) (writtenBy : String)
    (now : Int) (archive : β) (floor : List (String × Int)) :
    Except Failure (BackupReport × Store) := do
  let extracted ← extractAndValidateWith lib defaultArchiveLimits archive
  checkDisk host.free extracted.expanded
  let _ ← stagingMemoryLimit host.configured host.system (indexedRows extracted.report)
  match host.refusal with
  | some e => .error e
  | none => do
    let st ← backupTables.foldlM (loadTable lib extracted.report extracted.files)
      ⟨Store.fresh writtenBy now, fun _ => 0⟩
    let db ← addLargeTableKeys st
    let db ← finishStaging floor db
    pure (extracted.report, db)

/-! ## Whatever comes out is complete -/

/-- A staging database that may become the live one. -/
structure Restorable (db : Store) : Prop where
  /-- Every relation holds. -/
  related : Related db
  /-- Nobody is signed in. -/
  session : db.session = .empty _
  /-- It has the schema of the program. -/
  version : storedVersion db = some schemaVersion

/-- Counters and stamps are no matter of the relations. -/
theorem related_outside {db : Store} (h : Related db) (floor : List (String × Int)) :
    Related (raiseIds (resyncIds db) floor) := by
  rw [raiseIds_frame, resyncIds_frame]
  exact h.congr rfl rfl rfl rfl rfl rfl rfl rfl

/-- A store that passes the last checks meets them. -/
theorem finishStaging_ok {floor : List (String × Int)} {db db' : Store}
    (h : finishStaging floor db = .ok db') :
    Related db' ∧ db'.session = .empty _ ∧ storedVersion db' = storedVersion db := by
  obtain ⟨u, hverify, hdb⟩ := bind_eq_ok.mp h
  cases hdb
  refine ⟨related_outside (verifyRelationships_ok_iff.mp hverify) floor, ?_, ?_⟩
  · rw [raiseIds_frame, resyncIds_frame]
    rfl
  · rw [raiseIds_frame, resyncIds_frame]
    rfl

/-- A table is filled with rows of which no two have one key. -/
theorem fillTable_some {db db' : Store} {t : TableName} {rows : Multiset t.Row}
    (h : fillTable db t rows = some db') :
    ∃ filled, (table db t).insertAll? rows = some filled ∧ db' = withTable db t filled := by
  unfold fillTable at h
  split at h
  · cases h
  · rename_i filled hfill
    split at h
    · cases h
      exact ⟨filled, hfill, rfl⟩
    · cases h

/-- The counters and the version row, which no backup table is. -/
def Store.outside (db : Store) : Table RomiIdRow.name × Table RomiSchemaRow.id :=
  (db.romiId, db.romiSchema)

/-- Filling a table leaves the rest alone. -/
theorem outside_withTable (db : Store) (t : TableName) (rows : Table t.key) :
    Store.outside (withTable db t rows) = Store.outside db := by
  rw [Store.outside, withTable_romiId, withTable_romiSchema]
  rfl

/-- So does inserting rows. -/
theorem insertRows_outside {st st' : Staging} {t : TableName} {rows : Multiset t.Row}
    (h : insertRows st t rows = some st') : Store.outside st'.db = Store.outside st.db := by
  unfold insertRows at h
  split at h
  · cases h
    rfl
  · obtain ⟨db', hfill, rfl⟩ := Option.map_eq_some_iff.mp h
    obtain ⟨filled, -, rfl⟩ := fillTable_some hfill
    exact outside_withTable _ _ _

/-- So does loading a table. -/
theorem loadTable_outside {β : Type} {lib : Libraries β} {report : BackupReport}
    {files : List (String × β)} {st st' : Staging} {t : TableName}
    (h : loadTable lib report files st t = .ok st') :
    Store.outside st'.db = Store.outside st.db := by
  unfold loadTable at h
  split at h
  · cases h
  · obtain ⟨u, -, hrest⟩ := bind_eq_ok.mp h
    split at hrest
    · cases hrest
    · rename_i filled hins
      obtain ⟨u, -, hpure⟩ := bind_eq_ok.mp hrest
      cases hpure
      obtain ⟨rows, -, hrows⟩ := Option.bind_eq_some_iff.mp hins
      exact insertRows_outside hrows

/-- So does loading all of them. -/
theorem loadTables_outside {β : Type} {lib : Libraries β} {report : BackupReport}
    {files : List (String × β)} {names : List TableName} {st st' : Staging}
    (h : names.foldlM (loadTable lib report files) st = .ok st') :
    Store.outside st'.db = Store.outside st.db := by
  induction names generalizing st with
  | nil =>
    cases h
    rfl
  | cons t names ih =>
    rw [List.foldlM_cons] at h
    obtain ⟨mid, hone, hrest⟩ := bind_eq_ok.mp h
    exact (ih hrest).trans (loadTable_outside hone)

/-- So does adding the keys of the large ones. -/
theorem addKeys_outside {bulk : (t : TableName) → Multiset t.Row} {names : List TableName}
    {db db' : Store} (h : names.foldlM (addKey bulk) db = some db') :
    Store.outside db' = Store.outside db := by
  induction names generalizing db with
  | nil =>
    cases h
    rfl
  | cons t names ih =>
    rw [List.foldlM_cons] at h
    obtain ⟨mid, hone, hrest⟩ := Option.bind_eq_some_iff.mp h
    obtain ⟨filled, -, rfl⟩ := Option.map_eq_some_iff.mp hone
    exact (ih hrest).trans (outside_withTable _ _ _)

/-- What the last steps of a build start from: the rows of the archive beside
the counters and the version of a new database. -/
theorem buildStaging_loaded {β : Type} {lib : Libraries β} {host : StagingHost}
    {writtenBy : String} {now : Int} {archive : β} {floor : List (String × Int)}
    {report : BackupReport} {db : Store}
    (h : buildStaging lib host writtenBy now archive floor = .ok (report, db)) :
    ∃ loaded, Store.outside loaded = Store.outside (.fresh writtenBy now) ∧
      finishStaging floor loaded = .ok db := by
  obtain ⟨extracted, -, h⟩ := bind_eq_ok.mp h
  obtain ⟨u, -, h⟩ := bind_eq_ok.mp h
  obtain ⟨limit, -, h⟩ := bind_eq_ok.mp h
  split at h
  · cases h
  · obtain ⟨st, hload, h⟩ := bind_eq_ok.mp h
    obtain ⟨keyed, hkeys, h⟩ := bind_eq_ok.mp h
    obtain ⟨last, hfinish, h⟩ := bind_eq_ok.mp h
    cases h
    refine ⟨keyed, ?_, hfinish⟩
    have hkeyed : Store.outside keyed = Store.outside st.db := by
      unfold addLargeTableKeys at hkeys
      split at hkeys
      · rename_i db hfold
        cases hkeys
        exact addKeys_outside hfold
      · cases hkeys
    exact hkeyed.trans (loadTables_outside hload)

/-- Whatever archive was uploaded: a staging build that does not refuse it ends
in a related database of this version without sessions. -/
theorem buildStaging_restorable {β : Type} {lib : Libraries β} {host : StagingHost}
    {writtenBy : String} {now : Int} {archive : β} {floor : List (String × Int)}
    {report : BackupReport} {db : Store}
    (h : buildStaging lib host writtenBy now archive floor = .ok (report, db)) : Restorable db := by
  obtain ⟨loaded, houtside, hfinish⟩ := buildStaging_loaded h
  obtain ⟨hrelated, hsession, hversion⟩ := finishStaging_ok hfinish
  refine ⟨hrelated, hsession, hversion.trans ?_⟩
  have hschema : loaded.romiSchema = (Store.fresh writtenBy now).romiSchema :=
    congrArg Prod.snd houtside
  rw [storedVersion, hschema]
  exact storedVersion_initSchema writtenBy now Store.blank

/-! ## An archive this build wrote comes back as it was -/

/-- The backup tables of one store in the place of another's. -/
def transplant (base src : Store) : Store :=
  { src with session := base.session, romiId := base.romiId, romiSchema := base.romiSchema }

/-- A store that was moved has the tables of the other, sessions apart. -/
theorem table_transplant (base src : Store) {t : TableName} (h : t ≠ .session) :
    table (transplant base src) t = table src t := by
  cases t <;> first | rfl | exact absurd rfl h

/-- The database a restore of `src` builds. -/
def restored (writtenBy : String) (now : Int) (floor : List (String × Int)) (src : Store) : Store :=
  raiseIds (resyncIds (retireSettings (transplant (Store.fresh writtenBy now) src))) floor

/-- A row exported and read back under the same columns is the same cells. -/
theorem namedRow_cells {ρ : Type} (l : Layout ρ) (r : ρ) :
    namedRow l l.names l.names (l.cells r) = l.cells r := by
  have hmem : ∀ c ∈ l.columns, (if c.name ∈ l.names then lookupCell l.names (l.cells r) c.name
      else c.default) = lookupCell l.names (l.cells r) c.name := by
    intro c hc
    exact if_pos (List.mem_map_of_mem hc)
  have hback := map_lookupCell l.names_nodup
    ((l.length_cells r).trans (List.length_map Column.name).symm)
  rw [namedRow, List.map_congr_left hmem]
  rw [List.map_map] at hback
  exact hback

/-- Rows are built from the cells they were taken apart into. -/
theorem buildRows_cells {ρ : Type} (l : Layout ρ) (rows : Multiset ρ) :
    buildRows l (rows.map l.cells) = some rows := by
  have hall : ∀ row ∈ rows.map l.cells, (l.build row).isSome = true := by
    intro row hrow
    obtain ⟨r, -, rfl⟩ := Multiset.mem_map.mp hrow
    rw [l.build_cells]
    rfl
  have hback : (rows.map l.cells).filterMap l.build = rows := by
    rw [Multiset.filterMap_map, show l.build ∘ l.cells = some from funext l.build_cells,
      Multiset.filterMap_some]
  rw [buildRows, if_pos hall, hback]

/-- The columns of the program have the names of the layout. -/
theorem nativeColumns_names (t : TableName) : (nativeColumns t).map Prod.fst = (layout t).names := by
  rw [nativeColumns, List.map_map]
  rfl

/-- Each of them passes its check. -/
theorem checkColumn_native {t : TableName} {c : String × String} (hc : c ∈ nativeColumns t) :
    checkColumn t (nativeColumns t) c = .ok () := by
  obtain ⟨col, hcol, rfl⟩ := List.mem_map.mp hc
  have hlookup := lookup_map_append (f := Column.name) (g := Column.kind) []
    (fun a ha h => List.inj_on_of_nodup_map (layout t).names_nodup ha hcol h) hcol
  rw [List.append_nil] at hlookup
  have hfound : (nativeColumns t).lookup (col.name, col.kind).1 = some col.kind := hlookup
  rw [checkColumn, hfound]
  exact require_of rfl _

/-- Where the loading loop stands: the tables named hold the exported rows,
the others what the database began with. -/
structure Loaded (base src : Store) (names : List TableName) (st : Staging) : Prop where
  /-- The rows of the large tables that were loaded wait beside the store. -/
  bulk : ∀ t ∈ deferredTables, st.bulk t = if t ∈ names then (table src t).rows.val else 0
  /-- Those tables are as they were. -/
  waiting : ∀ t ∈ deferredTables, table st.db t = table base t
  /-- The others that were loaded are the source's. -/
  keyed : ∀ t, t ∉ deferredTables → table st.db t = if t ∈ names then table src t else table base t
  /-- The counters are as they were. -/
  romiId : st.db.romiId = base.romiId
  /-- So is what is known of the file. -/
  romiSchema : st.db.romiSchema = base.romiSchema

/-- UNIQUE(token_hash) is a property of the node table. -/
theorem tokensUnique_of_node {db db' : Store} (h : table db' .node = table db .node)
    (hdb : db.TokensUnique) : db'.TokensUnique := by
  have hnode : db'.node = db.node := h
  intro r hr s hs
  rw [hnode] at hr hs
  exact hdb r hr s hs

/-- Filling an empty table with the rows of another database's. -/
theorem fillTable_empty {db src : Store} {t : TableName} (hempty : table db t = .empty _)
    (htokens : (withTable db t (table src t)).TokensUnique) :
    fillTable db t (table src t).rows.val = some (withTable db t (table src t)) := by
  rw [fillTable, hempty, Table.insertAll?_empty]
  exact if_pos htokens

section Loading

variable {base src : Store} {names : List TableName} {st : Staging}

/-- Loading one more table. -/
theorem insertRows_loaded (hst : Loaded base src names st)
    (hempty : ∀ u, table base u = .empty _) (htokens : src.TokensUnique) {t : TableName}
    (ht : t ∉ names) : ∃ st', insertRows st t (table src t).rows.val = some st' ∧
      Loaded base src (t :: names) st' ∧ countStaged st' t = countRows src t := by
  by_cases hd : t ∈ deferredTables
  · refine ⟨{ st with bulk := Function.update st.bulk t (st.bulk t + (table src t).rows.val) },
      if_pos hd, ⟨?_, hst.waiting, ?_, hst.romiId, hst.romiSchema⟩, ?_⟩
    · intro u hu
      by_cases hut : u = t
      · subst hut
        dsimp only
        rw [Function.update_self, hst.bulk u hu, if_neg ht, if_pos List.mem_cons_self, zero_add]
      · dsimp only
        rw [Function.update_of_ne hut, hst.bulk u hu]
        simp only [List.mem_cons, hut, false_or]
    · intro u hu
      have hut : u ≠ t := fun h => hu (h ▸ hd)
      dsimp only
      rw [hst.keyed u hu]
      simp only [List.mem_cons, hut, false_or]
    · rw [countStaged, if_pos hd]
      dsimp only
      rw [Function.update_self, hst.bulk t hd, if_neg ht, zero_add]
      rfl
  · have hempty' : table st.db t = .empty _ := by rw [hst.keyed t hd, if_neg ht, hempty]
    have hkeyed : ∀ u, u ∉ deferredTables → table (withTable st.db t (table src t)) u =
        if u ∈ t :: names then table src u else table base u := by
      intro u hu
      by_cases hut : u = t
      · subst hut
        rw [table_withTable, if_pos List.mem_cons_self]
      · rw [table_withTable_of_ne _ _ hut, hst.keyed u hu]
        simp only [List.mem_cons, hut, false_or]
    have hunique : (withTable st.db t (table src t)).TokensUnique := by
      have hnode := hkeyed .node (by decide)
      by_cases hn : TableName.node ∈ t :: names
      · rw [if_pos hn] at hnode
        exact tokensUnique_of_node hnode htokens
      · rw [if_neg hn, hempty] at hnode
        exact tokensUnique_of_node (show _ = table Store.blank .node from hnode)
          fun r hr => absurd hr (Finset.notMem_empty r)
    refine ⟨{ st with db := withTable st.db t (table src t) }, ?_,
      ⟨?_, ?_, hkeyed, ?_, ?_⟩, ?_⟩
    · rw [insertRows, if_neg hd, fillTable_empty hempty' hunique]
      rfl
    · intro u hu
      have hut : u ≠ t := fun h => hd (h ▸ hu)
      dsimp only
      rw [hst.bulk u hu]
      simp only [List.mem_cons, hut, false_or]
    · intro u hu
      have hut : u ≠ t := fun h => hd (h ▸ hu)
      exact (table_withTable_of_ne _ _ hut).trans (hst.waiting u hu)
    · exact (withTable_romiId _ _ _).trans hst.romiId
    · exact (withTable_romiSchema _ _ _).trans hst.romiSchema
    · rw [countStaged, if_neg hd]
      dsimp only
      rw [table_withTable]
      rfl

/-- A data file that loads as the rows a store has. -/
structure Loads (report : BackupReport) (src : Store) (t : TableName) (file : Relation) : Prop where
  /-- The file has the columns that are expected. -/
  columns : (expectedColumns report.schema t file.columns).forM (checkColumn t file.columns) = .ok ()
  /-- Its rows are those of the source. -/
  rows : file.rows.map (namedRow (layout t)
      ((expectedColumns report.schema t file.columns).map Prod.fst) (file.columns.map Prod.fst)) =
    (table src t).rows.val.map (layout t).cells
  /-- The report tells how many they are. -/
  claim : claimedRows report t = countRows src t

/-- What this build exported loads as it was. -/
theorem loads_exportTable {report : BackupReport} (hschema : report.schema = schemaVersion)
    {t : TableName} (hclaim : claimedRows report t = countRows src t) :
    Loads report src t (exportTable src t) := by
  have hcols : expectedColumns report.schema t (exportTable src t).columns = nativeColumns t := by
    rw [expectedColumns, hschema]
    exact if_neg (by decide)
  refine ⟨?_, ?_, hclaim⟩
  · rw [hcols]
    exact forM_ok_iff.mpr fun c hc => checkColumn_native hc
  · rw [hcols, show (exportTable src t).columns = nativeColumns t from rfl, nativeColumns_names,
      show (exportTable src t).rows = (table src t).rows.val.map (layout t).cells from rfl,
      Multiset.map_map]
    exact Multiset.map_congr rfl fun r _ => namedRow_cells (layout t) r

variable {β : Type} {lib : Libraries β} {report : BackupReport} {files : List (String × β)}

/-- One round of the loading loop. -/
theorem loadTable_ok (hst : Loaded base src names st) (hempty : ∀ u, table base u = .empty _)
    (htokens : src.TokensUnique) {t : TableName} (ht : t ∉ names) {file : Relation}
    (hread : (files.lookup (parquetName t)).bind lib.readParquet = some file)
    (hloads : Loads report src t file) :
    ∃ st', loadTable lib report files st t = .ok st' ∧ Loaded base src (t :: names) st' := by
  obtain ⟨st', hins, hloaded, hcount⟩ := insertRows_loaded hst hempty htokens ht
  refine ⟨st', ?_, hloaded⟩
  have hselect : insertSelected st t
      ((expectedColumns report.schema t file.columns).map Prod.fst) file = some st' := by
    rw [insertSelected, hloads.rows, buildRows_cells]
    exact hins
  rw [loadTable, hread]
  dsimp only
  rw [hloads.columns]
  change (match insertSelected st t
    ((expectedColumns report.schema t file.columns).map Prod.fst) file with
    | none => _
    | some st => _ : Except Failure Staging) = _
  rw [hselect]
  dsimp only
  rw [require_of (hcount.trans hloads.claim.symm)]
  rfl

/-- The whole loading loop. -/
theorem loadTables_ok (hempty : ∀ u, table base u = .empty _) (htokens : src.TokensUnique)
    {rest : List TableName} (hst : Loaded base src names st) (hnodup : (rest ++ names).Nodup)
    {data : TableName → Relation}
    (hread : ∀ t ∈ rest, (files.lookup (parquetName t)).bind lib.readParquet = some (data t))
    (hloads : ∀ t ∈ rest, Loads report src t (data t)) :
    ∃ st', rest.foldlM (loadTable lib report files) st = .ok st' ∧
      Loaded base src (rest.reverse ++ names) st' := by
  induction rest generalizing names st with
  | nil => exact ⟨st, rfl, hst⟩
  | cons t rest ih =>
    rw [List.cons_append, List.nodup_cons] at hnodup
    have ht : t ∉ names := fun h => hnodup.1 (List.mem_append_right rest h)
    obtain ⟨mid, hone, hmid⟩ := loadTable_ok hst hempty htokens ht
      (hread t List.mem_cons_self) (hloads t List.mem_cons_self)
    have hnext : (rest ++ t :: names).Nodup :=
      List.nodup_middle.mpr (List.nodup_cons.mpr hnodup)
    obtain ⟨st', hrest, hlast⟩ := ih hmid hnext
      (fun x hx => hread x (List.mem_cons_of_mem t hx))
      (fun x hx => hloads x (List.mem_cons_of_mem t hx))
    refine ⟨st', ?_, ?_⟩
    · rw [List.foldlM_cons, hone]
      exact hrest
    · rw [List.reverse_cons, List.append_assoc]
      exact hlast

end Loading

/-- Adding the deferred keys to rows that came from tables. -/
theorem addKeys_ok {src db : Store} {bulk : (t : TableName) → Multiset t.Row}
    {names : List TableName} (hbulk : ∀ t ∈ names, bulk t = (table src t).rows.val) :
    ∃ db', names.foldlM (addKey bulk) db = some db' ∧
      (∀ t ∈ names, table db' t = table src t) ∧
      (∀ t, t ∉ names → table db' t = table db t) ∧
      db'.romiId = db.romiId ∧ db'.romiSchema = db.romiSchema := by
  induction names generalizing db with
  | nil => exact ⟨db, rfl, nofun, fun _ _ => rfl, rfl, rfl⟩
  | cons t names ih =>
    have hone : addKey bulk db t = some (withTable db t (table src t)) := by
      rw [addKey, hbulk t List.mem_cons_self, Table.ofRows?_rows, Option.map_some]
    obtain ⟨db', hfold, hin, hout, hids, hschema⟩ :=
      ih fun u hu => hbulk u (List.mem_cons_of_mem t hu)
    refine ⟨db', ?_, ?_, ?_, ?_, ?_⟩
    · rw [List.foldlM_cons, hone]
      exact hfold
    · intro u hu
      by_cases hmem : u ∈ names
      · exact hin u hmem
      · have hut : u = t := (List.mem_cons.mp hu).resolve_right hmem
        subst hut
        rw [hout u hmem, table_withTable]
    · intro u hu
      rw [List.mem_cons, not_or] at hu
      rw [hout u hu.2, table_withTable_of_ne _ _ hu.1]
    · rw [hids, withTable_romiId]
    · rw [hschema, withTable_romiSchema]

/-- The disk and the memory suffice for a build. -/
structure StagingHost.Suffices (host : StagingHost) (expanded : Nat) (report : BackupReport) :
    Prop where
  /-- There is room on the disk. -/
  disk : checkDisk host.free expanded = .ok ()
  /-- There is memory to work with. -/
  memory : ∃ limit, stagingMemoryLimit host.configured host.system (indexedRows report) = .ok limit
  /-- The engine refuses nothing. -/
  engine : host.refusal = none

/-- The report a check of an archive of this build gives. -/
def reportOn {β : Type} (lib : Libraries β) (now : Int) (src : Store) : BackupReport :=
  ⟨backupFormat, kind, schemaVersion, engineVersion, now, lib.size (writeArchive lib now src).1,
    backupTables.map fun t => (t.sql, countRows src t), true⟩

/-- The report on a store tells how many rows its tables have. -/
theorem claimedRows_reportOn {β : Type} (lib : Libraries β) (now : Int) (src : Store)
    {t : TableName} (ht : t ∈ backupTables) :
    claimedRows (reportOn lib now src) t = countRows src t := by
  have h := lookup_map_append (f := TableName.sql) (g := countRows src) []
    (fun _ _ h => sql_injective h) ht
  rw [List.append_nil] at h
  have hfound : (reportOn lib now src).rows.lookup t.sql = some (countRows src t) := h
  rw [claimedRows, hfound, Option.getD_some]

/-- A fresh store has no rows. -/
theorem table_fresh (writtenBy : String) (now : Int) (t : TableName) :
    table (Store.fresh writtenBy now) t = .empty _ := by
  rw [Store.fresh, initSchema_frame]
  cases t <;> rfl

/-- Retiring settings keeps every relation. -/
theorem related_retire {db : Store} (h : Related db) : Related (retireSettings db) :=
  h.congr rfl rfl rfl rfl rfl rfl rfl rfl

section Finishing

variable {writtenBy : String} {now : Int} {src : Store}

/-- Once every backup table is loaded, the keys can be added. -/
theorem addLargeTableKeys_loaded {st : Staging}
    (hst : Loaded (Store.fresh writtenBy now) src backupTables.reverse st) :
    addLargeTableKeys st = .ok (transplant (Store.fresh writtenBy now) src) := by
  have hbackup : ∀ t, t ∈ backupTables.reverse ↔ t ≠ .session := fun t =>
    List.mem_reverse.trans mem_backupTables
  have hdeferred : ∀ t ∈ deferredTables, t ≠ .session := by
    rintro t ht rfl
    revert ht
    decide
  obtain ⟨keyed, hkeys, hin, hout, hids, hschema⟩ := @addKeys_ok src st.db st.bulk
    deferredTables (by
      intro t ht
      rw [hst.bulk t ht, if_pos ((hbackup t).mpr (hdeferred t ht))])
  have hkeyed : keyed = transplant (Store.fresh writtenBy now) src := by
    refine store_ext ?_ (hids.trans hst.romiId) (hschema.trans hst.romiSchema)
    intro t
    by_cases hd : t ∈ deferredTables
    · rw [hin t hd, table_transplant _ _ (hdeferred t hd)]
    · rw [hout t hd, hst.keyed t hd]
      by_cases hs : t = .session
      · subst hs
        rw [if_neg fun h => (hbackup .session).mp h rfl]
        rfl
      · rw [if_pos ((hbackup t).mpr hs), table_transplant _ _ hs]
  rw [addLargeTableKeys, hkeys, hkeyed]

/-- The last steps refuse or end in the restored database. -/
theorem finishStaging_transplant (floor : List (String × Int)) :
    finishStaging floor (transplant (Store.fresh writtenBy now) src) =
      (verifyRelationships (retireSettings (transplant (Store.fresh writtenBy now) src))).map
        fun _ => restored writtenBy now floor src := by
  have hsession : { transplant (Store.fresh writtenBy now) src with session := .empty _ } =
      transplant (Store.fresh writtenBy now) src := by
    have hempty : (transplant (Store.fresh writtenBy now) src).session = .empty _ :=
      table_fresh writtenBy now .session
    rw [← hempty]
  rw [finishStaging, hsession]
  cases verifyRelationships (retireSettings (transplant (Store.fresh writtenBy now) src)) with
  | error e => rfl
  | ok u => rfl

/-- The tables of a related source pass the last checks. -/
theorem finishStaging_related (floor : List (String × Int)) (hsrc : Related src) :
    finishStaging floor (transplant (Store.fresh writtenBy now) src) =
      .ok (restored writtenBy now floor src) := by
  have hverify : verifyRelationships
      (retireSettings (transplant (Store.fresh writtenBy now) src)) = .ok () :=
    verifyRelationships_ok_iff.mpr (related_retire (hsrc.congr rfl rfl rfl rfl rfl rfl rfl rfl))
  rw [finishStaging_transplant, hverify]
  rfl

/-- Before the first table. -/
theorem loaded_nil (base src : Store) : Loaded base src [] ⟨base, fun _ => 0⟩ :=
  ⟨fun _ _ => rfl, fun _ _ => rfl, fun _ _ => rfl, rfl, rfl⟩

end Finishing

/-- The archive of a related database rebuilds to exactly its rows, less the
retired settings, whatever database is being replaced. -/
theorem buildStaging_writeArchive {β : Type} {lib : Libraries β} (hlib : lib.Faithful)
    {host : StagingHost} {writtenBy : String} {now taken : Int} {floor : List (String × Int)}
    {src : Store} (hsrc : Related src)
    (hw : WithinLimits lib defaultArchiveLimits (writeArchive lib taken src).1
      (archiveFiles lib taken src))
    (hhost : host.Suffices ((archiveFiles lib taken src).map fun f => lib.size f.2).sum
      (reportOn lib taken src)) :
    buildStaging lib host writtenBy now (writeArchive lib taken src).1 floor =
      .ok (reportOn lib taken src, restored writtenBy now floor src) := by
  have hextract := extract_writeArchive lib taken src hlib hw
  obtain ⟨limit, hmemory⟩ := hhost.memory
  have hread : ∀ t ∈ backupTables, ((archiveFiles lib taken src).lookup (parquetName t)).bind
      lib.readParquet = some (exportTable src t) := by
    intro t ht
    rw [archiveFiles_eq, lookup_table lib _ _ _ _ ht, Option.bind_some, hlib.parquet]
  obtain ⟨st, hload, hst⟩ := loadTables_ok (table_fresh writtenBy now) hsrc.tokens
    (loaded_nil (Store.fresh writtenBy now) src) (by decide) hread
    (fun t ht => loads_exportTable rfl (claimedRows_reportOn lib taken src ht))
  rw [List.append_nil] at hst
  refine bind_eq_ok.mpr ⟨_, hextract, bind_eq_ok.mpr ⟨(), hhost.disk,
    bind_eq_ok.mpr ⟨limit, hmemory, ?_⟩⟩⟩
  rw [hhost.engine]
  exact bind_eq_ok.mpr ⟨st, hload, bind_eq_ok.mpr ⟨_, addLargeTableKeys_loaded hst,
    bind_eq_ok.mpr ⟨_, finishStaging_related floor hsrc, rfl⟩⟩⟩

end Romi.RestoreStaging
