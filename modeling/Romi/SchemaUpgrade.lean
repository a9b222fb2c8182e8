import Romi.RestoreStaging
import Romi.CrashRecovery

/-!
# Opening a database of the schema before

A database is its tables under the columns they really have. Migrating adds
the columns of schema 3 that are missing, each with its own default, behind
the columns that are there; afterwards every row can be read under the columns
of this build. The row read is the stored one wherever the column existed and
the declared default elsewhere.
-/

namespace Romi.SchemaUpgrade

open ArchiveTables BackupArchive CrashRecovery KeyedTable StoreSchema

/-! ## Tables under their own columns -/

/-- The names of a relation's columns. -/
def namesOf (rel : Relation) : List String := rel.columns.map Prod.fst

/-- A database file. -/
structure Database where
  /-- The tables of the backup, as they are in the file. -/
  tables : TableName → Relation
  /-- The counters. -/
  romiId : Table RomiIdRow.name
  /-- What is known of the file. -/
  romiSchema : Table RomiSchemaRow.id

/-- `stored_version`. -/
def Database.version (db : Database) : Option Int :=
  (db.romiSchema.find? 1).map RomiSchemaRow.version

/-- A row under the columns of this build, by name. -/
def nativeRow (t : TableName) (names : List String) (row : List Cell) : List Cell :=
  (layout t).names.map (lookupCell names row)

/-- The rows of a table as this build reads them, if it can. -/
def readTable (t : TableName) (rel : Relation) : Option (Table t.key) :=
  (RestoreStaging.buildRows (layout t) (rel.rows.map (nativeRow t (namesOf rel)))).bind
    (Table.ofRows? t.key)

/-- The database as this build reads it. -/
def Database.store? (db : Database) : Option Store := do
  return {
    setting := ← readTable .setting (db.tables .setting)
    node := ← readTable .node (db.tables .node)
    traffic := ← readTable .traffic (db.tables .traffic)
    metric := ← readTable .metric (db.tables .metric)
    metricHour := ← readTable .metricHour (db.tables .metricHour)
    pingTask := ← readTable .pingTask (db.tables .pingTask)
    pingNode := ← readTable .pingNode (db.tables .pingNode)
    pingRecord := ← readTable .pingRecord (db.tables .pingRecord)
    pingHour := ← readTable .pingHour (db.tables .pingHour)
    session := ← readTable .session (db.tables .session)
    romiId := db.romiId
    romiSchema := db.romiSchema }

/-! ## Migrating -/

/-- `ALTER TABLE … ADD COLUMN IF NOT EXISTS`. -/
structure AddColumn where
  /-- The table. -/
  table : TableName
  /-- The column. -/
  name : String
  /-- Its type. -/
  kind : String
  /-- What the rows already there get; null without a DEFAULT. -/
  default : Cell

/-- The statements for a database from before schema 3. -/
def addedInThree : List AddColumn :=
  [⟨.node, "traffic_unit", "VARCHAR", .text "GB"⟩,
   ⟨.node, "priority", "BIGINT", .int 0⟩,
   ⟨.node, "bandwidth_up", "DOUBLE", .real 0⟩,
   ⟨.node, "bandwidth_down", "DOUBLE", .real 0⟩,
   ⟨.node, "has_ipv4", "BOOLEAN", .bool true⟩,
   ⟨.node, "has_ipv6", "BOOLEAN", .bool false⟩,
   ⟨.node, "online_since", "BIGINT", .int 0⟩,
   ⟨.metric, "zram_used", "BIGINT", .null⟩,
   ⟨.metric, "swap_disk_used", "BIGINT", .null⟩,
   ⟨.metric, "swapfile_used", "BIGINT", .null⟩,
   ⟨.metric, "swap_partition_used", "BIGINT", .null⟩,
   ⟨.metricHour, "tcp_sum", "DECIMAL(38,0)", .null⟩,
   ⟨.metricHour, "tcp_samples", "BIGINT", .int 0⟩,
   ⟨.metricHour, "udp_sum", "DECIMAL(38,0)", .null⟩,
   ⟨.metricHour, "udp_samples", "BIGINT", .int 0⟩,
   ⟨.metricHour, "procs_sum", "DECIMAL(38,0)", .null⟩,
   ⟨.metricHour, "procs_samples", "BIGINT", .int 0⟩,
   ⟨.metricHour, "zram_used_sum", "DECIMAL(38,0)", .null⟩,
   ⟨.metricHour, "zram_used_samples", "BIGINT", .int 0⟩,
   ⟨.metricHour, "swap_disk_used_sum", "DECIMAL(38,0)", .null⟩,
   ⟨.metricHour, "swap_disk_used_samples", "BIGINT", .int 0⟩,
   ⟨.metricHour, "swapfile_used_sum", "DECIMAL(38,0)", .null⟩,
   ⟨.metricHour, "swapfile_used_samples", "BIGINT", .int 0⟩,
   ⟨.metricHour, "swap_partition_used_sum", "DECIMAL(38,0)", .null⟩,
   ⟨.metricHour, "swap_partition_used_samples", "BIGINT", .int 0⟩]

/-- One statement on its table. -/
def addColumn (rel : Relation) (a : AddColumn) : Relation :=
  if a.name ∈ namesOf rel then rel
  else ⟨rel.columns ++ [(a.name, a.kind)], rel.rows.map fun row => row ++ [a.default]⟩

/-- One statement on the database. -/
def alter (db : Database) (a : AddColumn) : Database :=
  { db with tables := Function.update db.tables a.table (addColumn (db.tables a.table) a) }

/-- `migrate`. -/
def migrate (db : Database) (fromVersion : Int) : Database :=
  if fromVersion < 3 then addedInThree.foldl alter db else db

/-- `retire_settings` on the table as it is stored. -/
def retireRows (rel : Relation) : Relation :=
  { rel with rows := rel.rows.filter fun row =>
      lookupCell (namesOf rel) row "key" ∉ retiredSettings.map Cell.text }

/-- `Db::open` on a file: the version is checked, the columns are added, and the
counters and the version row are set as on any start. A file whose rows this
build cannot read after that is outside the model. -/
def openDatabase (writtenBy : String) (now : Int) (db : Database) : Except String Database :=
  match db.version with
  | none => .error "这不是 romi 的 DuckDB 数据库"
  | some v =>
    if v ≤ schemaVersion then
      let db := if v < schemaVersion then migrate db v else db
      match db.store? with
      | none => .error "creating the romi DuckDB schema"
      | some store => .ok {
          tables := Function.update db.tables .setting (retireRows (db.tables .setting))
          romiId := (startup writtenBy now store).romiId
          romiSchema := (startup writtenBy now store).romiSchema }
    else .error s!"数据库 schema 版本为 {v}，高于本服务支持的 {schemaVersion}；请先升级 romi"

/-! ## Databases of schema 2 -/

/-- The columns of a table that schema 3 added. -/
def newColumns (t : TableName) : List AddColumn := addedInThree.filter fun a => a.table = t

/-- The part of a row that is stored under some columns. -/
def storedCells (t : TableName) (names : List String) (r : t.Row) : List Cell :=
  names.map (lookupCell (layout t).names ((layout t).cells r))

/-- A database of schema 2: rows the current schema allows, of which only the
columns that exist are stored. -/
structure SchemaTwo extends Database where
  /-- It says that it has schema two. -/
  version : toDatabase.version = some 2
  /-- No table has a column twice. -/
  names_nodup : ∀ t, (namesOf (tables t)).Nodup
  /-- Every column is one of the program's. -/
  native : ∀ t, ∀ c ∈ (tables t).columns, c ∈ nativeColumns t
  /-- Only columns of schema 3 may be missing, in any combination. -/
  present : ∀ t, ∀ c ∈ nativeColumns t, c.1 ∉ (newColumns t).map AddColumn.name →
    c ∈ (tables t).columns
  /-- The rows are those of a store, without what was added later. -/
  allowed : ∃ full : Store, full.TokensUnique ∧ ∀ t, (tables t).rows =
    (table full t).rows.val.map (storedCells t (namesOf (tables t)))

/-! ## Added columns -/

/-- The names of the columns. -/
theorem namesOf_mk (columns : List (String × String)) (rows : Multiset (List Cell)) :
    namesOf ⟨columns, rows⟩ = columns.map Prod.fst := rfl

/-- The columns of a list that a table does not have. -/
def missing (names : List String) (added : List AddColumn) : List AddColumn :=
  added.filter fun a => a.name ∉ names

/-- Statements for other tables leave a table alone. -/
theorem foldl_alter_tables (added : List AddColumn) (db : Database) (t : TableName) :
    (added.foldl alter db).tables t =
      (added.filter fun a => a.table = t).foldl addColumn (db.tables t) := by
  induction added generalizing db with
  | nil => rfl
  | cons a added ih =>
    rw [List.foldl_cons, ih]
    by_cases h : a.table = t
    · subst h
      have hkeep : (a :: added).filter (fun b => b.table = a.table) =
          a :: added.filter fun b => b.table = a.table :=
        List.filter_cons_of_pos (decide_eq_true rfl)
      rw [hkeep, List.foldl_cons, alter]
      dsimp only
      rw [Function.update_self]
    · rw [List.filter_cons_of_neg (by rwa [decide_eq_true_iff]), alter]
      dsimp only
      rw [Function.update_of_ne (Ne.symm h)]

/-- Adding columns leaves counters and stamp alone. -/
theorem foldl_alter_outside (added : List AddColumn) (db : Database) :
    (added.foldl alter db).romiId = db.romiId ∧
      (added.foldl alter db).romiSchema = db.romiSchema := by
  induction added generalizing db with
  | nil => exact ⟨rfl, rfl⟩
  | cons a added ih => exact ih (alter db a)

/-- The missing columns come behind the others, with their defaults in every row. -/
theorem foldl_addColumn {added : List AddColumn} (hn : (added.map AddColumn.name).Nodup)
    (rel : Relation) : added.foldl addColumn rel =
      ⟨rel.columns ++ (missing (namesOf rel) added).map fun a => (a.name, a.kind),
        rel.rows.map fun row => row ++ (missing (namesOf rel) added).map AddColumn.default⟩ := by
  induction added generalizing rel with
  | nil =>
    have hrows : (rel.rows.map fun row => row ++ []) = rel.rows := by
      simp only [List.append_nil, Multiset.map_id']
    rw [List.foldl_nil, missing, List.filter_nil, List.map_nil, List.map_nil, List.append_nil, hrows]
  | cons a added ih =>
    obtain ⟨hfresh, hn⟩ := List.nodup_cons.mp hn
    rw [List.foldl_cons, ih hn]
    by_cases ha : a.name ∈ namesOf rel
    · have hmissing : missing (namesOf rel) (a :: added) = missing (namesOf rel) added :=
        List.filter_cons_of_neg (by simpa using ha)
      rw [addColumn, if_pos ha, hmissing]
    · have hnames : namesOf (addColumn rel a) = namesOf rel ++ [a.name] := by
        rw [addColumn, if_neg ha, namesOf_mk, List.map_append]
        rfl
      have hkeep : missing (namesOf (addColumn rel a)) added = missing (namesOf rel) added := by
        refine List.filter_congr ?_
        intro b hb
        have hne : b.name ≠ a.name := fun h => hfresh (h ▸ List.mem_map_of_mem hb)
        rw [hnames]
        simp only [List.mem_append, List.mem_singleton, hne, or_false]
      have hmissing : missing (namesOf rel) (a :: added) = a :: missing (namesOf rel) added :=
        List.filter_cons_of_pos (by simpa using ha)
      rw [hkeep, hmissing, addColumn, if_neg ha]
      dsimp only
      rw [Multiset.map_map, List.append_assoc]
      simp only [Function.comp_def, List.append_assoc, List.singleton_append, List.map_cons]

/-! ## Looking cells up -/

/-- A column is looked up where it is stored. -/
theorem lookupCell_append {names more : List String} {row cells : List Cell}
    (h : row.length = names.length) (n : String) :
    lookupCell (names ++ more) (row ++ cells) n =
      if n ∈ names then lookupCell names row n else lookupCell more cells n := by
  rw [lookupCell, lookupCell, lookupCell, List.zip_append h.symm, List.lookup_append]
  by_cases hn : n ∈ names
  · have hsome : ((names.zip row).lookup n).isSome := by
      rw [List.lookup_isSome_iff]
      have hfst : (names.zip row).map Prod.fst = names := List.map_fst_zip h.ge
      rw [← hfst] at hn
      obtain ⟨c, hc, rfl⟩ := List.mem_map.mp hn
      exact ⟨c, hc, beq_self_eq_true c.1⟩
    obtain ⟨c, hc⟩ := Option.isSome_iff_exists.mp hsome
    rw [if_pos hn, hc]
    rfl
  · have hnone : (names.zip row).lookup n = none := by
      rw [List.lookup_eq_none_iff]
      intro c hc
      refine bne_iff_ne.mpr fun hcn => hn ?_
      rw [hcn]
      exact (List.of_mem_zip hc).1
    rw [if_neg hn, hnone]
    rfl

/-- The cell of a column that is there. -/
theorem lookupCell_map {names : List String} (g : String → Cell) {n : String} (hn : n ∈ names) :
    lookupCell names (names.map g) n = g n := by
  have h := lookup_map_append (f := id) (g := g) [] (fun _ _ h => h) hn
  rw [List.append_nil] at h
  have hzip := @List.zip_map' _ _ _ id g names
  rw [List.map_id] at hzip
  rw [lookupCell, hzip]
  exact congrArg (fun o => Option.getD o Cell.null) h

/-- The cell of a column that was added. -/
theorem lookupCell_default {added : List AddColumn} (hn : (added.map AddColumn.name).Nodup)
    {a : AddColumn} (ha : a ∈ added) :
    lookupCell (added.map AddColumn.name) (added.map AddColumn.default) a.name = a.default := by
  have h := lookup_map_append (f := AddColumn.name) (g := AddColumn.default) []
    (fun _ hb hba => List.inj_on_of_nodup_map hn hb ha hba) ha
  rw [List.append_nil] at h
  rw [lookupCell, List.zip_map']
  exact congrArg (fun o => Option.getD o Cell.null) h

/-! ## Completed rows -/

/-- A stored value, or the default of a column that is not there. -/
def kept {α : Type} (names : List String) (name : String) (value default : α) : α :=
  if name ∈ names then value else default

/-- A row of `node` of which only some columns are stored. -/
def completeNode (names : List String) (r : NodeRow) : NodeRow :=
  { r with
    priority := kept names "priority" r.priority 0
    trafficUnit := kept names "traffic_unit" r.trafficUnit "GB"
    bandwidthUp := kept names "bandwidth_up" r.bandwidthUp 0
    bandwidthDown := kept names "bandwidth_down" r.bandwidthDown 0
    hasIpv4 := kept names "has_ipv4" r.hasIpv4 true
    hasIpv6 := kept names "has_ipv6" r.hasIpv6 false
    onlineSince := kept names "online_since" r.onlineSince 0 }

/-- A row of `metric` of which only some columns are stored. -/
def completeMetric (names : List String) (r : MetricRow) : MetricRow :=
  { r with
    zramUsed := kept names "zram_used" r.zramUsed none
    swapDiskUsed := kept names "swap_disk_used" r.swapDiskUsed none
    swapfileUsed := kept names "swapfile_used" r.swapfileUsed none
    swapPartitionUsed := kept names "swap_partition_used" r.swapPartitionUsed none }

/-- A row of `metric_hour` of which only some columns are stored. -/
def completeHour (names : List String) (r : MetricHourRow) : MetricHourRow :=
  { r with
    gaugeSum := fun g => kept names (gaugeName g ++ "_sum") (r.gaugeSum g) none
    gaugeSamples := fun g => kept names (gaugeName g ++ "_samples") (r.gaugeSamples g) 0 }

/-- The row this build has for a stored one. -/
def complete : (t : TableName) → List String → t.Row → t.Row
  | .setting => fun _ r => r
  | .node => completeNode
  | .traffic => fun _ r => r
  | .metric => completeMetric
  | .metricHour => completeHour
  | .pingTask => fun _ r => r
  | .pingNode => fun _ r => r
  | .pingRecord => fun _ r => r
  | .pingHour => fun _ r => r
  | .session => fun _ r => r

/-- No key column is among the added ones. -/
theorem key_complete (t : TableName) (names : List String) (r : t.Row) :
    t.key (complete t names r) = t.key r := by
  cases t <;> rfl

/-- A value of a row, by the name of its column. -/
def cellOf (t : TableName) (r : t.Row) (name : String) : Cell :=
  lookupCell (layout t).names ((layout t).cells r) name

/-- The columns of schema 3 with the defaults this build declares for them. -/
theorem newColumns_declared (t : TableName) : ∀ c ∈ (layout t).columns, ∀ a ∈ newColumns t,
    a.name = c.name → (a.kind, a.default) = (c.kind, c.default) := by
  cases t <;> decide

/-- What is done with a cell that is kept or replaced. -/
theorem apply_kept {α : Type} (f : α → Cell) (names : List String) (name : String) (a b : α) :
    f (kept names name a b) = kept names name (f a) (f b) := apply_ite f _ a b

/-- A completed row has the stored value under a column that was always there,
and under an added one the stored value or the declared default. -/
def Completed (t : TableName) (names : List String) (r : t.Row) (c : Column) : Prop :=
  cellOf t (complete t names r) c.name =
    if c.name ∈ (newColumns t).map AddColumn.name then
      kept names c.name (cellOf t r c.name) c.default
    else cellOf t r c.name

/-- A row of a node, with what was added. -/
theorem completed_node (names : List String) (r : NodeRow) :
    ∀ c ∈ nodeLayout.columns, Completed .node names r c := by
  simp only [nodeLayout, List.forall_mem_cons]
  and_intros
  all_goals first
    | exact (if_neg (by decide)).symm
    | exact (apply_kept Cell.int _ _ _ _).trans (if_pos (by decide)).symm
    | exact (apply_kept Cell.text _ _ _ _).trans (if_pos (by decide)).symm
    | exact (apply_kept Cell.real _ _ _ _).trans (if_pos (by decide)).symm
    | exact (apply_kept Cell.bool _ _ _ _).trans (if_pos (by decide)).symm
    | nofun

/-- A minute, with what was added. -/
theorem completed_metric (names : List String) (r : MetricRow) :
    ∀ c ∈ metricLayout.columns, Completed .metric names r c := by
  simp only [metricLayout, List.forall_mem_cons]
  and_intros
  all_goals first
    | exact (if_neg (by decide)).symm
    | exact (apply_kept Cell.ofInt? _ _ _ _).trans (if_pos (by decide)).symm
    | nofun

/-- An hour, with what was added. -/
theorem completed_hour (names : List String) (r : MetricHourRow) :
    ∀ c ∈ metricHourLayout.columns, Completed .metricHour names r c := by
  have hgauges : ∀ g : Gauge, ∀ c ∈ gaugeColumns g, Completed .metricHour names r c := by
    intro g
    simp only [gaugeColumns, List.forall_mem_cons]
    refine ⟨?_, ?_, nofun⟩
    · cases g <;> exact (apply_kept Cell.ofInt? _ _ _ _).trans (if_pos (by decide)).symm
    · cases g <;> exact (apply_kept Cell.int _ _ _ _).trans (if_pos (by decide)).symm
  simp only [metricHourLayout, List.forall_mem_append, List.forall_mem_cons]
  constructor
  · and_intros
    all_goals first | exact (if_neg (by decide)).symm | nofun
  · intro c hc
    obtain ⟨g, -, hc⟩ := List.mem_flatMap.mp hc
    exact hgauges g c hc

/-- A row of any table, with what was added. -/
theorem completed (t : TableName) (names : List String) (r : t.Row) :
    ∀ c ∈ (layout t).columns, Completed t names r c := by
  cases t with
  | node => exact completed_node names r
  | metric => exact completed_metric names r
  | metricHour => exact completed_hour names r
  | _ => exact fun c _ => (if_neg (List.not_mem_nil (a := c.name))).symm

/-- When only added columns are missing, the completed row has under every
column the stored value or the default. -/
theorem cellOf_complete {t : TableName} {names : List String}
    (hnames : ∀ c ∈ (layout t).columns, c.name ∉ (newColumns t).map AddColumn.name → c.name ∈ names)
    (r : t.Row) {c : Column} (hc : c ∈ (layout t).columns) :
    cellOf t (complete t names r) c.name = kept names c.name (cellOf t r c.name) c.default := by
  rw [show cellOf t (complete t names r) c.name = _ from completed t names r c hc]
  split
  · rfl
  · rename_i hold
    exact (if_pos (hnames c hc hold)).symm

/-! ## Reading a migrated table -/

/-- The rows of a relation are those of a table. -/
def Reads (t : TableName) (rel : Relation) (rows : Table t.key) : Prop :=
  rel.rows.map (nativeRow t (namesOf rel)) = rows.rows.val.map (layout t).cells

/-- A table whose rows can be read is read. -/
theorem readTable_of_reads {t : TableName} {rel : Relation} {rows : Table t.key}
    (h : Reads t rel rows) : readTable t rel = some rows := by
  rw [readTable, show rel.rows.map (nativeRow t (namesOf rel)) = _ from h,
    RestoreStaging.buildRows_cells, Option.bind_some, Table.ofRows?_rows]

/-- So is a store of such tables. -/
theorem store?_of_reads {db : Database} {store : Store}
    (h : ∀ t, Reads t (db.tables t) (table store t)) (hids : store.romiId = db.romiId)
    (hschema : store.romiSchema = db.romiSchema) : db.store? = some store := by
  have hread : ∀ t, readTable t (db.tables t) = some (table store t) := fun t =>
    readTable_of_reads (h t)
  simp only [Database.store?, hread, ← hids, ← hschema]
  rfl

/-- The names of a row's cells in declaration order. -/
theorem cells_eq (t : TableName) (r : t.Row) :
    (layout t).cells r = (layout t).columns.map fun c => cellOf t r c.name := by
  have hback := map_lookupCell (layout t).names_nodup
    (((layout t).length_cells r).trans (List.length_map Column.name).symm)
  rw [List.map_map] at hback
  exact hback.symm

/-- No column is added twice. -/
theorem newColumns_nodup (t : TableName) : ((newColumns t).map AddColumn.name).Nodup := by
  cases t <;> decide

/-- A stored row behind which the missing columns were added reads as the
completed row. -/
theorem nativeRow_added {t : TableName} {names : List String}
    (hnames : ∀ c ∈ (layout t).columns, c.name ∉ (newColumns t).map AddColumn.name → c.name ∈ names)
    (r : t.Row) :
    nativeRow t (names ++ (missing names (newColumns t)).map AddColumn.name)
        (storedCells t names r ++ (missing names (newColumns t)).map AddColumn.default) =
      (layout t).cells (complete t names r) := by
  rw [cells_eq, nativeRow, Layout.names, List.map_map]
  refine List.map_congr_left ?_
  intro c hc
  have hlength : (storedCells t names r).length = names.length := List.length_map _
  rw [cellOf_complete hnames r hc, Function.comp_apply, lookupCell_append hlength, kept]
  by_cases hn : c.name ∈ names
  · rw [if_pos hn, if_pos hn]
    exact lookupCell_map _ hn
  · rw [if_neg hn, if_neg hn]
    have hnew : c.name ∈ (newColumns t).map AddColumn.name := by
      by_contra hold
      exact hn (hnames c hc hold)
    obtain ⟨a, ha, hac⟩ := List.mem_map.mp hnew
    have hmissing : a ∈ missing names (newColumns t) := by
      refine List.mem_filter.mpr ⟨ha, decide_eq_true ?_⟩
      rwa [hac]
    have hnodup : ((missing names (newColumns t)).map AddColumn.name).Nodup :=
      (newColumns_nodup t).sublist (List.filter_sublist.map _)
    have hdefault := lookupCell_default hnodup hmissing
    rw [hac] at hdefault
    rw [hdefault]
    exact congrArg Prod.snd (newColumns_declared t c hc a ha hac)

/-- A table of completed rows. -/
def completeTable (t : TableName) (names : List String) (rows : Table t.key) : Table t.key :=
  rows.updateWhere (fun _ => True) (complete t names) (key_complete t names)

/-- The rows of a table, each with what was added. -/
theorem completeTable_rows (t : TableName) (names : List String) (rows : Table t.key) :
    (completeTable t names rows).rows.val = rows.rows.val.map (complete t names) := by
  have himage : (completeTable t names rows).rows = rows.rows.image (complete t names) := by
    rw [completeTable, Table.updateWhere]
    simp only [if_true]
  rw [himage, Finset.image_val_of_injOn]
  intro r hr s hs hrs
  refine rows.unique r hr s hs ?_
  rw [← key_complete t names r, ← key_complete t names s, hrs]

/-- A database of completed rows. -/
def completeStore (names : TableName → List String) (full : Store) : Store where
  setting := completeTable .setting (names .setting) full.setting
  node := completeTable .node (names .node) full.node
  traffic := completeTable .traffic (names .traffic) full.traffic
  metric := completeTable .metric (names .metric) full.metric
  metricHour := completeTable .metricHour (names .metricHour) full.metricHour
  pingTask := completeTable .pingTask (names .pingTask) full.pingTask
  pingNode := completeTable .pingNode (names .pingNode) full.pingNode
  pingRecord := completeTable .pingRecord (names .pingRecord) full.pingRecord
  pingHour := completeTable .pingHour (names .pingHour) full.pingHour
  session := completeTable .session (names .session) full.session
  romiId := full.romiId
  romiSchema := full.romiSchema

/-- The tables of a store, each with what was added. -/
theorem table_completeStore (names : TableName → List String) (full : Store) (t : TableName) :
    table (completeStore names full) t = completeTable t (names t) (table full t) := by
  cases t <;> rfl

/-- Completing rows leaves the token digests alone. -/
theorem tokensUnique_completeStore {names : TableName → List String} {full : Store}
    (h : full.TokensUnique) : (completeStore names full).TokensUnique := by
  intro r hr s hs hrs
  obtain ⟨r', hr', rfl⟩ := (Table.mem_updateWhere (key_complete .node (names .node))).mp hr
  obtain ⟨s', hs', rfl⟩ := (Table.mem_updateWhere (key_complete .node (names .node))).mp hs
  rw [if_pos trivial, if_pos trivial] at hrs ⊢
  rw [h r' hr' s' hs' hrs]

namespace SchemaTwo

variable (old : SchemaTwo)

/-- The columns each table has. -/
def names (t : TableName) : List String := namesOf (old.tables t)

/-- A column that was not added was there. -/
theorem names_present {t : TableName} {c : Column} (hc : c ∈ (layout t).columns)
    (hold : c.name ∉ (newColumns t).map AddColumn.name) : c.name ∈ old.names t := by
  have hnative : (c.name, c.kind) ∈ nativeColumns t := List.mem_map_of_mem hc
  exact List.mem_map_of_mem (old.present t _ hnative hold)

/-- The migrated tables read as the completed rows. -/
theorem reads_migrate {full : Store} (hfull : ∀ t, (old.tables t).rows =
    (table full t).rows.val.map (storedCells t (old.names t))) (t : TableName) :
    Reads t ((migrate old.toDatabase 2).tables t) (table (completeStore old.names full) t) := by
  have hmigrate : (migrate old.toDatabase 2).tables t =
      (newColumns t).foldl addColumn (old.tables t) := by
    rw [migrate, if_pos (by decide), foldl_alter_tables]
    rfl
  rw [Reads, hmigrate, foldl_addColumn (newColumns_nodup t), namesOf_mk, List.map_append,
    table_completeStore, completeTable_rows, hfull t, Multiset.map_map, Multiset.map_map,
    Multiset.map_map, List.map_map]
  refine Multiset.map_congr rfl ?_
  intro r _
  exact nativeRow_added (fun c hc hold => old.names_present hc hold) r

end SchemaTwo

/-! ## Opening -/

/-- Retiring settings in the file is retiring them in the table it holds. -/
theorem reads_retireRows {rel : Relation} {rows : Table SettingRow.key}
    (h : Reads .setting rel rows) :
    Reads .setting (retireRows rel) (rows.deleteWhere fun r => r.key ∈ retiredSettings) := by
  have hkeep : ∀ row : List Cell, nativeRow .setting (namesOf rel) row =
      [lookupCell (namesOf rel) row "key", lookupCell (namesOf rel) row "value"] := fun _ => rfl
  have hrows : rel.rows.map (nativeRow .setting (namesOf rel)) = rows.rows.val.map settingLayout.cells := h
  have hfilter := congrArg
    (Multiset.filter fun cells : List Cell => cells.headD .null ∉ retiredSettings.map Cell.text) hrows
  rw [Multiset.filter_map, Multiset.filter_map] at hfilter
  have hcell : ∀ r : SettingRow, (settingLayout.cells r).headD .null ∉ retiredSettings.map Cell.text ↔
      ¬ r.key ∈ retiredSettings := by
    intro r
    change Cell.text r.key ∉ _ ↔ _
    rw [List.mem_map_of_injective (fun a b hab => Cell.text.inj hab)]
  have hdelete : (rows.deleteWhere fun r => r.key ∈ retiredSettings).rows.val =
      rows.rows.val.filter fun r => ¬ r.key ∈ retiredSettings := rfl
  unfold Reads
  rw [hdelete]
  exact hfilter.trans (congrArg _ (Multiset.filter_congr fun r _ => hcell r))

/-- Retired settings are gone for good. -/
theorem retireRows_twice (rel : Relation) : retireRows (retireRows rel) = retireRows rel := by
  have hrows : (retireRows (retireRows rel)).rows = (retireRows rel).rows :=
    Multiset.filter_eq_self.mpr fun row hrow => (Multiset.mem_filter.mp hrow).2
  exact congrArg (Relation.mk (retireRows rel).columns) hrows

/-- A start changes the rows of the settings only. -/
theorem table_startup (writtenBy : String) (now : Int) (store : Store) (t : TableName) :
    table (startup writtenBy now store) t = table (retireSettings store) t := by
  rw [startup, resyncIds_frame, initSchema_frame]
  cases t <;> rfl

/-- Retiring settings leaves the other tables alone. -/
theorem table_retire_of_ne (store : Store) {t : TableName} (h : t ≠ .setting) :
    table (retireSettings store) t = table store t := by
  cases t <;> first | rfl | exact absurd rfl h

/-- A file that reads as a store opens as a start makes that store, and only
retired settings leave its tables. -/
theorem openDatabase_of_reads {writtenBy : String} {now : Int} {db : Database} {store : Store}
    {v : Int} (hversion : db.version = some v) (hle : v ≤ schemaVersion)
    (hids : store.romiId = db.romiId) (hschema : store.romiSchema = db.romiSchema)
    (h : ∀ t, Reads t ((if v < schemaVersion then migrate db v else db).tables t) (table store t)) :
    ∃ opened, openDatabase writtenBy now db = .ok opened ∧
      (∀ t, Reads t (opened.tables t) (table (startup writtenBy now store) t)) ∧
      opened.romiId = (startup writtenBy now store).romiId ∧
      opened.romiSchema = (startup writtenBy now store).romiSchema ∧
      ∀ t, opened.tables t = if t = .setting then
          retireRows ((if v < schemaVersion then migrate db v else db).tables t)
        else (if v < schemaVersion then migrate db v else db).tables t := by
  generalize hmigrated : (if v < schemaVersion then migrate db v else db) = migrated at h
  have houtside : migrated.romiId = db.romiId ∧ migrated.romiSchema = db.romiSchema := by
    rw [← hmigrated]
    split
    · unfold migrate
      split
      · exact foldl_alter_outside addedInThree db
      · exact ⟨rfl, rfl⟩
    · exact ⟨rfl, rfl⟩
  have hstore : migrated.store? = some store :=
    store?_of_reads h (hids.trans houtside.1.symm) (hschema.trans houtside.2.symm)
  refine ⟨{
    tables := Function.update migrated.tables .setting (retireRows (migrated.tables .setting))
    romiId := (startup writtenBy now store).romiId
    romiSchema := (startup writtenBy now store).romiSchema }, ?_, ?_, rfl, rfl, ?_⟩
  · rw [openDatabase, hversion]
    dsimp only
    rw [if_pos hle, hmigrated, hstore]
  · intro t
    rw [table_startup]
    dsimp only
    by_cases ht : t = .setting
    · subst ht
      rw [Function.update_self]
      exact reads_retireRows (h .setting)
    · rw [Function.update_of_ne ht, table_retire_of_ne store ht]
      exact h t
  · intro t
    by_cases ht : t = .setting
    · subst ht
      rw [if_pos rfl]
      exact Function.update_self .setting (retireRows (migrated.tables .setting)) migrated.tables
    · rw [if_neg ht]
      exact Function.update_of_ne ht (retireRows (migrated.tables .setting)) migrated.tables

end Romi.SchemaUpgrade
