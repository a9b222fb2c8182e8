import Mathlib
import Romi.StoreSchema

/-!
# The tables as an archive sees them

An archive knows tables by name and rows as cells under named, typed columns.
`Layout` ties a row type to its columns; what it writes it reads back, and
that is a field of the layout. Rows are addressed by column name, so a file
whose columns stand in another order, or lack one that has a default, still
loads.
-/

namespace Romi.ArchiveTables

open KeyedTable StoreSchema

/-! ## Table names -/

/-- The application tables. -/
inductive TableName
  | setting | node | traffic | metric | metricHour | pingTask | pingNode | pingRecord | pingHour
  /-- The sessions, which no backup has. -/
  | session
  deriving DecidableEq

namespace TableName

/-- The name in SQL, in archives and in manifests. -/
def sql : TableName → String
  | setting => "setting"
  | node => "node"
  | traffic => "traffic"
  | metric => "metric"
  | metricHour => "metric_hour"
  | pingTask => "ping_task"
  | pingNode => "ping_node"
  | pingRecord => "ping_record"
  | pingHour => "ping_hour"
  | session => "session"

/-- The rows of a table. -/
def Row : TableName → Type
  | setting => SettingRow
  | node => NodeRow
  | traffic => TrafficRow
  | metric => MetricRow
  | metricHour => MetricHourRow
  | pingTask => PingTaskRow
  | pingNode => PingNodeRow
  | pingRecord => PingRecordRow
  | pingHour => PingHourRow
  | session => SessionRow

/-- The values of a table's primary key. -/
def Key : TableName → Type
  | setting => String
  | node => Int
  | traffic => Int
  | metric => Int × Int
  | metricHour => Int × Int
  | pingTask => Int
  | pingNode => Int × Int
  | pingRecord => Int × Int × Int
  | pingHour => Int × Int × Int × Int
  | session => String

/-- The primary key of a row. -/
def key : (t : TableName) → t.Row → t.Key
  | setting => SettingRow.key
  | node => NodeRow.id
  | traffic => TrafficRow.nodeId
  | metric => MetricRow.key
  | metricHour => MetricHourRow.key
  | pingTask => PingTaskRow.id
  | pingNode => PingNodeRow.key
  | pingRecord => PingRecordRow.key
  | pingHour => PingHourRow.key
  | session => SessionRow.tokenHash

instance : (t : TableName) → DecidableEq t.Row
  | setting => inferInstanceAs (DecidableEq SettingRow)
  | node => inferInstanceAs (DecidableEq NodeRow)
  | traffic => inferInstanceAs (DecidableEq TrafficRow)
  | metric => inferInstanceAs (DecidableEq MetricRow)
  | metricHour => inferInstanceAs (DecidableEq MetricHourRow)
  | pingTask => inferInstanceAs (DecidableEq PingTaskRow)
  | pingNode => inferInstanceAs (DecidableEq PingNodeRow)
  | pingRecord => inferInstanceAs (DecidableEq PingRecordRow)
  | pingHour => inferInstanceAs (DecidableEq PingHourRow)
  | session => inferInstanceAs (DecidableEq SessionRow)

instance : (t : TableName) → DecidableEq t.Key
  | setting => inferInstanceAs (DecidableEq String)
  | node => inferInstanceAs (DecidableEq Int)
  | traffic => inferInstanceAs (DecidableEq Int)
  | metric => inferInstanceAs (DecidableEq (Int × Int))
  | metricHour => inferInstanceAs (DecidableEq (Int × Int))
  | pingTask => inferInstanceAs (DecidableEq Int)
  | pingNode => inferInstanceAs (DecidableEq (Int × Int))
  | pingRecord => inferInstanceAs (DecidableEq (Int × Int × Int))
  | pingHour => inferInstanceAs (DecidableEq (Int × Int × Int × Int))
  | session => inferInstanceAs (DecidableEq String)

end TableName

open TableName

/-- `TABLES`. -/
def tables : List TableName :=
  [setting, node, traffic, metric, metricHour, pingTask, pingNode, pingRecord, pingHour, session]

/-- `BACKUP_TABLES`. -/
def backupTables : List TableName :=
  [setting, node, traffic, metric, metricHour, pingTask, pingNode, pingRecord, pingHour]

/-- The tables whose keys a staging build defers. -/
def deferredTables : List TableName := [metric, metricHour, pingRecord, pingHour]

/-- No table is forgotten in the list. -/
theorem mem_tables (t : TableName) : t ∈ tables := by
  cases t <;> decide

/-- A backup leaves out the sessions and nothing else. -/
theorem mem_backupTables {t : TableName} : t ∈ backupTables ↔ t ≠ session := by
  cases t <;> decide

/-- One table of a store. -/
def table (db : Store) : (t : TableName) → Table t.key
  | setting => db.setting
  | node => db.node
  | traffic => db.traffic
  | metric => db.metric
  | metricHour => db.metricHour
  | pingTask => db.pingTask
  | pingNode => db.pingNode
  | pingRecord => db.pingRecord
  | pingHour => db.pingHour
  | session => db.session

/-- A store with one table exchanged. -/
def withTable (db : Store) : (t : TableName) → Table t.key → Store
  | setting, rows => { db with setting := rows }
  | node, rows => { db with node := rows }
  | traffic, rows => { db with traffic := rows }
  | metric, rows => { db with metric := rows }
  | metricHour, rows => { db with metricHour := rows }
  | pingTask, rows => { db with pingTask := rows }
  | pingNode, rows => { db with pingNode := rows }
  | pingRecord, rows => { db with pingRecord := rows }
  | pingHour, rows => { db with pingHour := rows }
  | session, rows => { db with session := rows }

/-- The table is the one that was put in. -/
@[simp] theorem table_withTable (db : Store) (t : TableName) (rows : Table t.key) :
    table (withTable db t rows) t = rows := by
  cases t <;> rfl

/-- The others are as they were. -/
theorem table_withTable_of_ne (db : Store) {t u : TableName} (rows : Table t.key) (h : u ≠ t) :
    table (withTable db t rows) u = table db u := by
  cases t <;> cases u <;> first | rfl | exact absurd rfl h

/-- So are the counters. -/
@[simp] theorem withTable_romiId (db : Store) (t : TableName) (rows : Table t.key) :
    (withTable db t rows).romiId = db.romiId := by
  cases t <;> rfl

/-- And what is known of the file. -/
@[simp] theorem withTable_romiSchema (db : Store) (t : TableName) (rows : Table t.key) :
    (withTable db t rows).romiSchema = db.romiSchema := by
  cases t <;> rfl

/-- A store is its application tables, its counters and its version row. -/
theorem store_ext {db db' : Store} (h : ∀ t, table db t = table db' t)
    (hids : db.romiId = db'.romiId) (hschema : db.romiSchema = db'.romiSchema) : db = db' :=
  Store.ext (h setting) (h node) (h traffic) (h metric) (h metricHour) (h pingTask) (h pingNode)
    (h pingRecord) (h pingHour) (h session) hids hschema

/-! ## Cells -/

/-- One value of a row. -/
inductive Cell
  /-- Nothing. -/
  | null
  /-- A text. -/
  | text (s : String)
  /-- An integer. -/
  | int (n : Int)
  /-- A double, by its exact value. -/
  | real (q : Rat)
  /-- A truth value. -/
  | bool (b : Bool)
  deriving DecidableEq

/-- A declared column. -/
structure Column where
  /-- Its name. -/
  name : String
  /-- The type as `DESCRIBE` shows it. -/
  kind : String
  /-- What an INSERT that does not name the column stores; null without a DEFAULT. -/
  default : Cell
  deriving DecidableEq

/-- The value stored under a name, looked up in parallel lists. -/
def lookupCell (names : List String) (row : List Cell) (name : String) : Cell :=
  ((names.zip row).lookup name).getD .null

/-- A row read back by its own column names, in their own order. -/
theorem map_lookupCell {names : List String} {row : List Cell} (hn : names.Nodup)
    (hlen : row.length = names.length) : names.map (lookupCell names row) = row := by
  induction names generalizing row with
  | nil => exact (List.length_eq_zero_iff.mp hlen).symm
  | cons name names ih =>
    cases row with
    | nil => cases hlen
    | cons cell row =>
      have hnot := (List.nodup_cons.mp hn).1
      have htail : ∀ m ∈ names, lookupCell (name :: names) (cell :: row) m = lookupCell names row m := by
        intro m hm
        have hne : (m == name) = false := beq_false_of_ne fun h => hnot (h ▸ hm)
        simp only [lookupCell, List.zip_cons_cons, List.lookup_cons, hne]
      rw [List.map_cons, List.map_congr_left htail,
        ih (List.nodup_cons.mp hn).2 (Nat.succ.inj hlen)]
      simp only [lookupCell, List.zip_cons_cons, List.lookup_cons_self, Option.getD_some]

/-- How a row type is stored: its columns and the way to cells and back. -/
structure Layout (ρ : Type) where
  /-- The columns, in order. -/
  columns : List Column
  /-- A row in cells. -/
  cells : ρ → List Cell
  /-- The row with these cells, `none` where a type, a NOT NULL or a CHECK is violated. -/
  build : List Cell → Option ρ
  /-- No column is there twice. -/
  names_nodup : (columns.map Column.name).Nodup
  /-- A row has a cell for each column. -/
  length_cells : ∀ r, (cells r).length = columns.length
  /-- From its cells the row is built again. -/
  build_cells : ∀ r, build (cells r) = some r

/-- The names of a layout's columns, in declaration order. -/
def Layout.names {ρ : Type} (l : Layout ρ) : List String := l.columns.map Column.name

/-! ## Reading cells in declaration order -/

/-- Reads a row's cells from left to right. -/
abbrev Reader (α : Type) : Type := StateT (List Cell) Option α

namespace Reader

/-- The next cell. -/
def cell : Reader Cell := fun
  | [] => none
  | c :: rest => some (c, rest)

/-- A cell turned into a value. -/
def take {α : Type} (f : Cell → Option α) : Reader α := do
  let c ← cell
  match f c with
  | some a => pure a
  | none => fun _ => none

/-- VARCHAR NOT NULL. -/
def text : Reader String := take fun
  | .text s => some s
  | _ => none

/-- A VARCHAR that may be null. -/
def text? : Reader (Option String) := take fun
  | .text s => some (some s)
  | .null => some none
  | _ => none

/-- BIGINT or DECIMAL(38,0), NOT NULL. -/
def int : Reader Int := take fun
  | .int n => some n
  | _ => none

/-- A BIGINT or DECIMAL(38,0) that may be null. -/
def int? : Reader (Option Int) := take fun
  | .int n => some (some n)
  | .null => some none
  | _ => none

/-- DOUBLE NOT NULL. -/
def real : Reader Rat := take fun
  | .real q => some q
  | _ => none

/-- BOOLEAN NOT NULL. -/
def bool : Reader Bool := take fun
  | .bool b => some b
  | _ => none

/-- The value read when nothing is left over. -/
def all {α : Type} (x : Reader α) (row : List Cell) : Option α :=
  match x row with
  | some (a, []) => some a
  | _ => none

end Reader

/-- A nullable text as a cell. -/
def Cell.ofText? : Option String → Cell
  | some s => .text s
  | none => .null

/-- A nullable number as a cell. -/
def Cell.ofInt? : Option Int → Cell
  | some n => .int n
  | none => .null

/-! ## Column declarations -/

namespace Column

/-- VARCHAR without a DEFAULT. -/
def varchar (name : String) : Column := ⟨name, "VARCHAR", .null⟩

/-- VARCHAR with a DEFAULT. -/
def varcharOr (name value : String) : Column := ⟨name, "VARCHAR", .text value⟩

/-- BIGINT without a DEFAULT. -/
def bigint (name : String) : Column := ⟨name, "BIGINT", .null⟩

/-- BIGINT with a DEFAULT. -/
def bigintOr (name : String) (value : Int) : Column := ⟨name, "BIGINT", .int value⟩

/-- DOUBLE without a DEFAULT. -/
def double (name : String) : Column := ⟨name, "DOUBLE", .null⟩

/-- DOUBLE with a DEFAULT. -/
def doubleOr (name : String) (value : Rat) : Column := ⟨name, "DOUBLE", .real value⟩

/-- BOOLEAN with a DEFAULT. -/
def booleanOr (name : String) (value : Bool) : Column := ⟨name, "BOOLEAN", .bool value⟩

/-- DECIMAL(38,0) without a DEFAULT. -/
def decimal (name : String) : Column := ⟨name, "DECIMAL(38,0)", .null⟩

end Column

open Column

/-! ## The layouts -/

/-- The columns of `setting`. -/
def settingLayout : Layout SettingRow where
  columns := [varchar "key", varchar "value"]
  cells r := [.text r.key, .text r.value]
  build := Reader.all do return { key := ← Reader.text, value := ← Reader.text }
  names_nodup := by decide
  length_cells _ := rfl
  build_cells _ := rfl

/-- The columns of `node`. -/
def nodeLayout : Layout NodeRow where
  columns :=
    [bigint "id", varchar "name", varchar "token_hash", bigintOr "sort" 0, booleanOr "public" false,
     doubleOr "price" 0, varcharOr "currency" "USD", varcharOr "billing_cycle" "monthly",
     varchar "expires_at", varcharOr "remark" "", bigintOr "traffic_limit" 0,
     varcharOr "traffic_mode" "sum", bigintOr "traffic_reset_day" 1, varcharOr "hostname" "",
     varcharOr "os" "", varcharOr "kernel" "", varcharOr "arch" "", varcharOr "virt" "",
     varcharOr "cpu_name" "", bigintOr "cpu_cores" 0, bigintOr "mem_total" 0,
     bigintOr "swap_total" 0, bigintOr "disk_total" 0, varcharOr "agent_version" "",
     varcharOr "ip" "", varcharOr "ipv4" "", varcharOr "ipv6" "", varcharOr "country" "",
     bigintOr "last_seen" 0, booleanOr "notify" false, bigintOr "down_since" 0,
     bigint "created_at", bigintOr "priority" 0, varcharOr "traffic_unit" "GB",
     doubleOr "bandwidth_up" 0, doubleOr "bandwidth_down" 0, booleanOr "has_ipv4" true,
     booleanOr "has_ipv6" false, bigintOr "online_since" 0]
  cells r :=
    [.int r.id, .text r.name, .text r.tokenHash, .int r.sort, .bool r.isPublic,
     .real r.price, .text r.currency, .text r.billingCycle,
     .ofText? r.expiresAt, .text r.remark, .int r.trafficLimit,
     .text r.trafficMode, .int r.trafficResetDay, .text r.hostname,
     .text r.os, .text r.kernel, .text r.arch, .text r.virt,
     .text r.cpuName, .int r.cpuCores, .int r.memTotal,
     .int r.swapTotal, .int r.diskTotal, .text r.agentVersion,
     .text r.ip, .text r.ipv4, .text r.ipv6, .text r.country,
     .int r.lastSeen, .bool r.notify, .int r.downSince,
     .int r.createdAt, .int r.priority, .text r.trafficUnit,
     .real r.bandwidthUp, .real r.bandwidthDown, .bool r.hasIpv4,
     .bool r.hasIpv6, .int r.onlineSince]
  build := Reader.all do
    return {
      id := ← Reader.int, name := ← Reader.text, tokenHash := ← Reader.text
      sort := ← Reader.int, isPublic := ← Reader.bool, price := ← Reader.real
      currency := ← Reader.text, billingCycle := ← Reader.text
      expiresAt := ← Reader.text?, remark := ← Reader.text, trafficLimit := ← Reader.int
      trafficMode := ← Reader.text, trafficResetDay := ← Reader.int
      hostname := ← Reader.text, os := ← Reader.text, kernel := ← Reader.text
      arch := ← Reader.text, virt := ← Reader.text, cpuName := ← Reader.text
      cpuCores := ← Reader.int, memTotal := ← Reader.int, swapTotal := ← Reader.int
      diskTotal := ← Reader.int, agentVersion := ← Reader.text, ip := ← Reader.text
      ipv4 := ← Reader.text, ipv6 := ← Reader.text, country := ← Reader.text
      lastSeen := ← Reader.int, notify := ← Reader.bool, downSince := ← Reader.int
      createdAt := ← Reader.int, priority := ← Reader.int, trafficUnit := ← Reader.text
      bandwidthUp := ← Reader.real, bandwidthDown := ← Reader.real
      hasIpv4 := ← Reader.bool, hasIpv6 := ← Reader.bool, onlineSince := ← Reader.int }
  names_nodup := by decide
  length_cells _ := rfl
  build_cells r := by
    cases r with
    | mk id name tokenHash sort isPublic price currency billingCycle expiresAt =>
      cases expiresAt <;> rfl

/-- The columns of `traffic`. -/
def trafficLayout : Layout TrafficRow where
  columns :=
    [bigint "node_id", varcharOr "boot_id" "", bigintOr "last_rx" 0, bigintOr "last_tx" 0,
     bigintOr "total_rx" 0, bigintOr "total_tx" 0, bigintOr "month_rx" 0, bigintOr "month_tx" 0,
     varcharOr "month_start" "", bigintOr "day_rx" 0, bigintOr "day_tx" 0, varcharOr "day_start" ""]
  cells r :=
    [.int r.nodeId, .text r.bootId, .int r.lastRx, .int r.lastTx,
     .int r.totalRx, .int r.totalTx, .int r.monthRx, .int r.monthTx,
     .text r.monthStart, .int r.dayRx, .int r.dayTx, .text r.dayStart]
  build := Reader.all do
    return {
      nodeId := ← Reader.int, bootId := ← Reader.text, lastRx := ← Reader.int
      lastTx := ← Reader.int, totalRx := ← Reader.int, totalTx := ← Reader.int
      monthRx := ← Reader.int, monthTx := ← Reader.int, monthStart := ← Reader.text
      dayRx := ← Reader.int, dayTx := ← Reader.int, dayStart := ← Reader.text }
  names_nodup := by decide
  length_cells _ := rfl
  build_cells _ := rfl

/-- The columns of `metric`. -/
def metricLayout : Layout MetricRow where
  columns :=
    [bigint "node_id", bigint "ts", double "cpu", bigint "mem_used", bigint "swap_used",
     bigint "disk_used", bigint "net_rx", bigint "net_tx", bigint "tcp", bigint "udp",
     bigint "procs", bigint "zram_used", bigint "swap_disk_used", bigint "swapfile_used",
     bigint "swap_partition_used"]
  cells r :=
    [.int r.nodeId, .int r.ts, .real r.cpu, .int r.memUsed, .int r.swapUsed,
     .int r.diskUsed, .int r.netRx, .int r.netTx, .int r.tcp, .int r.udp,
     .int r.procs, .ofInt? r.zramUsed, .ofInt? r.swapDiskUsed, .ofInt? r.swapfileUsed,
     .ofInt? r.swapPartitionUsed]
  build := Reader.all do
    return {
      nodeId := ← Reader.int, ts := ← Reader.int, cpu := ← Reader.real
      memUsed := ← Reader.int, swapUsed := ← Reader.int, diskUsed := ← Reader.int
      netRx := ← Reader.int, netTx := ← Reader.int, tcp := ← Reader.int, udp := ← Reader.int
      procs := ← Reader.int, zramUsed := ← Reader.int?, swapDiskUsed := ← Reader.int?
      swapfileUsed := ← Reader.int?, swapPartitionUsed := ← Reader.int? }
  names_nodup := by decide
  length_cells _ := rfl
  build_cells r := by
    cases r with
    | mk nodeId ts cpu memUsed swapUsed diskUsed netRx netTx tcp udp procs a b c d =>
      cases a <;> cases b <;> cases c <;> cases d <;> rfl

/-- The name a gauge's columns start with. -/
def gaugeName : Gauge → String
  | .tcp => "tcp"
  | .udp => "udp"
  | .procs => "procs"
  | .zramUsed => "zram_used"
  | .swapDiskUsed => "swap_disk_used"
  | .swapfileUsed => "swapfile_used"
  | .swapPartitionUsed => "swap_partition_used"

/-- The sum and the sample count of one gauge. -/
def gaugeColumns (g : Gauge) : List Column :=
  [decimal (gaugeName g ++ "_sum"), bigintOr (gaugeName g ++ "_samples") 0]

/-- Their values. -/
def gaugeCells (r : MetricHourRow) (g : Gauge) : List Cell :=
  [.ofInt? (r.gaugeSum g), .int (r.gaugeSamples g)]

/-- Reads the sum and the sample count of every gauge, in column order. -/
def readGauges : List Gauge → Reader ((Gauge → Option Int) × (Gauge → Int))
  | [] => pure (fun _ => none, fun _ => 0)
  | g :: rest => do
    let sum ← Reader.int?
    let samples ← Reader.int
    let (sums, counts) ← readGauges rest
    pure (Function.update sums g sum, Function.update counts g samples)

/-- The gauges of an hour are read as they were written. -/
theorem readGauges_cells (r : MetricHourRow) {gauges : List Gauge} (hn : gauges.Nodup) :
    ∃ sums counts, readGauges gauges (gauges.flatMap (gaugeCells r)) = some ((sums, counts), []) ∧
      ∀ g ∈ gauges, sums g = r.gaugeSum g ∧ counts g = r.gaugeSamples g := by
  induction gauges with
  | nil => exact ⟨_, _, rfl, nofun⟩
  | cons g rest ih =>
    obtain ⟨sums, counts, hread, hval⟩ := ih (List.nodup_cons.mp hn).2
    refine ⟨Function.update sums g (r.gaugeSum g), Function.update counts g (r.gaugeSamples g),
      ?_, ?_⟩
    · have hstep : ∀ tail, readGauges (g :: rest) (gaugeCells r g ++ tail) =
          (readGauges rest tail).map fun q => ((Function.update q.1.1 g (r.gaugeSum g),
            Function.update q.1.2 g (r.gaugeSamples g)), q.2) := by
        intro tail
        simp only [gaugeCells, readGauges, List.cons_append, List.nil_append]
        cases hs : r.gaugeSum g <;> cases htail : readGauges rest tail <;>
          simp [Cell.ofInt?, Reader.int?, Reader.int, Reader.take, Reader.cell, bind, StateT.bind,
            pure, StateT.pure, htail]
      rw [List.flatMap_cons, hstep, hread]
      rfl
    · intro a ha
      by_cases hag : a = g
      · subst hag
        exact ⟨Function.update_self _ _ _, Function.update_self _ _ _⟩
      · rw [Function.update_of_ne hag, Function.update_of_ne hag]
        exact hval a ((List.mem_cons.mp ha).resolve_left hag)

/-- A row of `metric_hour` once its cells are read; the CHECK may refuse it. -/
def hourRow (base : Int × Int × Int × Rat × Int × Int × Int × Int)
    (gauges : (Gauge → Option Int) × (Gauge → Int)) : Option MetricHourRow :=
  let (nodeId, ts, samples, cpuSum, memSum, diskSum, rxSum, txSum) := base
  if h : 0 < samples then
    some ⟨nodeId, ts, samples, cpuSum, memSum, diskSum, rxSum, txSum, gauges.1, gauges.2, h⟩
  else none

/-- The columns of `metric_hour` before the gauges. -/
def readHourBase : Reader (Int × Int × Int × Rat × Int × Int × Int × Int) := do
  return (← Reader.int, ← Reader.int, ← Reader.int, ← Reader.real, ← Reader.int, ← Reader.int,
    ← Reader.int, ← Reader.int)

/-- The columns of `metric_hour`. -/
def metricHourLayout : Layout MetricHourRow where
  columns :=
    [bigint "node_id", bigint "ts", bigint "samples", double "cpu_sum", decimal "mem_sum",
     decimal "disk_sum", decimal "rx_sum", decimal "tx_sum"] ++ Gauge.all.flatMap gaugeColumns
  cells r :=
    [.int r.nodeId, .int r.ts, .int r.samples, .real r.cpuSum, .int r.memSum,
     .int r.diskSum, .int r.rxSum, .int r.txSum] ++ Gauge.all.flatMap (gaugeCells r)
  build row := (Reader.all (do return (← readHourBase, ← readGauges Gauge.all)) row).bind
    fun q => hourRow q.1 q.2
  names_nodup := by decide
  length_cells _ := rfl
  build_cells r := by
    obtain ⟨sums, counts, hread, hval⟩ := readGauges_cells r
      (show Gauge.all.Nodup by decide)
    have hsums : sums = r.gaugeSum := funext fun g => (hval g (Gauge.mem_all g)).1
    have hcounts : counts = r.gaugeSamples := funext fun g => (hval g (Gauge.mem_all g)).2
    subst hsums hcounts
    have hall : Reader.all (do return (← readHourBase, ← readGauges Gauge.all))
        ([.int r.nodeId, .int r.ts, .int r.samples, .real r.cpuSum, .int r.memSum,
          .int r.diskSum, .int r.rxSum, .int r.txSum] ++ Gauge.all.flatMap (gaugeCells r)) =
        some ((r.nodeId, r.ts, r.samples, r.cpuSum, r.memSum, r.diskSum, r.rxSum, r.txSum),
          (r.gaugeSum, r.gaugeSamples)) := by
      simp only [Reader.all, readHourBase, Reader.int, Reader.real, Reader.take, Reader.cell, bind,
        StateT.bind, pure, StateT.pure, List.cons_append, List.nil_append, Option.bind_some, hread]
    rw [hall]
    exact dif_pos r.samples_pos

/-- The columns of `ping_task`. -/
def pingTaskLayout : Layout PingTaskRow where
  columns := [bigint "id", varchar "name", varchar "target", bigintOr "interval" 60]
  cells r := [.int r.id, .text r.name, .text r.target, .int r.interval]
  build := Reader.all do
    return { id := ← Reader.int, name := ← Reader.text, target := ← Reader.text
             interval := ← Reader.int }
  names_nodup := by decide
  length_cells _ := rfl
  build_cells _ := rfl

/-- The columns of `ping_node`. -/
def pingNodeLayout : Layout PingNodeRow where
  columns := [bigint "task_id", bigint "node_id"]
  cells r := [.int r.taskId, .int r.nodeId]
  build := Reader.all do return { taskId := ← Reader.int, nodeId := ← Reader.int }
  names_nodup := by decide
  length_cells _ := rfl
  build_cells _ := rfl

/-- The columns of `ping_record`. -/
def pingRecordLayout : Layout PingRecordRow where
  columns := [bigint "node_id", bigint "task_id", bigint "ts", bigint "latency"]
  cells r := [.int r.nodeId, .int r.taskId, .int r.ts, .int r.latency]
  build := Reader.all do
    return { nodeId := ← Reader.int, taskId := ← Reader.int, ts := ← Reader.int
             latency := ← Reader.int }
  names_nodup := by decide
  length_cells _ := rfl
  build_cells _ := rfl

/-- The columns of `ping_hour`; the CHECK may refuse a row. -/
def pingHourLayout : Layout PingHourRow where
  columns := [bigint "node_id", bigint "ts", bigint "task_id", bigint "latency", bigint "samples"]
  cells r := [.int r.nodeId, .int r.ts, .int r.taskId, .int r.latency, .int r.samples]
  build row := (Reader.all (do
    return (← Reader.int, ← Reader.int, ← Reader.int, ← Reader.int, ← Reader.int)) row).bind
      fun (nodeId, ts, taskId, latency, samples) =>
        if h : 0 < samples then some ⟨nodeId, ts, taskId, latency, samples, h⟩ else none
  names_nodup := by decide
  length_cells _ := rfl
  build_cells r := dif_pos r.samples_pos

/-- The columns of `session`. -/
def sessionLayout : Layout SessionRow where
  columns := [varchar "token_hash", bigint "expires_at"]
  cells r := [.text r.tokenHash, .int r.expiresAt]
  build := Reader.all do return { tokenHash := ← Reader.text, expiresAt := ← Reader.int }
  names_nodup := by decide
  length_cells _ := rfl
  build_cells _ := rfl

/-- The columns of every table. -/
def layout : (t : TableName) → Layout t.Row
  | setting => settingLayout
  | node => nodeLayout
  | traffic => trafficLayout
  | metric => metricLayout
  | metricHour => metricHourLayout
  | pingTask => pingTaskLayout
  | pingNode => pingNodeLayout
  | pingRecord => pingRecordLayout
  | pingHour => pingHourLayout
  | session => sessionLayout

end Romi.ArchiveTables
