import Mathlib.Data.Fintype.Pi
import Mathlib.Data.Rat.Defs
import Romi.KeyedTable

/-!
# The tables of the store

Rows follow the columns of the schema. A column declared NOT NULL is a plain
field, a nullable one an option, and a CHECK is a field of the row. The seven
counts that an hour keeps with their own sample numbers are indexed by
`Gauge`. DOUBLE columns hold exact rationals.
-/

namespace Romi.StoreSchema

open KeyedTable

/-! ## Rows -/

/-- A row of `setting`. -/
structure SettingRow where
  /-- Its name. -/
  key : String
  /-- What it is set to, as text. -/
  value : String
  deriving DecidableEq

/-- A row of `node`. -/
structure NodeRow where
  /-- The key; no id is given twice. -/
  id : Int
  /-- What the panel calls the node. -/
  name : String
  /-- The digest of the agent's credential. -/
  tokenHash : String
  /-- Its place in the administrator's order. -/
  sort : Int
  /-- Whether visitors see it. -/
  isPublic : Bool
  /-- What a billing cycle costs. -/
  price : Rat
  /-- The currency of the price. -/
  currency : String
  /-- How long a billing cycle is. -/
  billingCycle : String
  /-- Absent is no expiry date, which is not an empty text. -/
  expiresAt : Option String
  /-- What the administrator noted about it. -/
  remark : String
  /-- The bytes a period allows, zero where there is no limit. -/
  trafficLimit : Int
  /-- How the two directions count against the limit. -/
  trafficMode : String
  /-- The day of the month a period begins on. -/
  trafficResetDay : Int
  /-- What the machine calls itself. -/
  hostname : String
  /-- Its operating system. -/
  os : String
  /-- The release of its kernel. -/
  kernel : String
  /-- Its processor architecture. -/
  arch : String
  /-- What virtualizes it. -/
  virt : String
  /-- The model of its processor. -/
  cpuName : String
  /-- How many cores it has. -/
  cpuCores : Int
  /-- Its memory in bytes. -/
  memTotal : Int
  /-- Its swap in bytes. -/
  swapTotal : Int
  /-- The bytes its disks hold. -/
  diskTotal : Int
  /-- The version of its agent. -/
  agentVersion : String
  /-- The address it connected from. -/
  ip : String
  /-- The IPv4 address it told. -/
  ipv4 : String
  /-- The IPv6 address it told. -/
  ipv6 : String
  /-- The country of `ip`, empty until it is looked up. -/
  country : String
  /-- When it last reported. -/
  lastSeen : Int
  /-- Whether its comings and goings are announced. -/
  notify : Bool
  /-- Since when it is taken to be down, zero while it is up. -/
  downSince : Int
  /-- When it was created. -/
  createdAt : Int
  /-- Its rank among the nodes, before the order. -/
  priority : Int
  /-- The unit its traffic is shown in. -/
  trafficUnit : String
  /-- The bandwidth it was sold with, upwards. -/
  bandwidthUp : Rat
  /-- The same downwards. -/
  bandwidthDown : Rat
  /-- Whether it was sold with an IPv4 address. -/
  hasIpv4 : Bool
  /-- Whether it was sold with an IPv6 address. -/
  hasIpv6 : Bool
  /-- Where its unbroken presence began, zero before it ever reported. -/
  onlineSince : Int
  deriving DecidableEq

/-- A row of `traffic`. -/
structure TrafficRow where
  /-- Whose counters these are. -/
  nodeId : Int
  /-- The boot the last counters belong to. -/
  bootId : String
  /-- The received bytes of the last report. -/
  lastRx : Int
  /-- The sent bytes of the last report. -/
  lastTx : Int
  /-- All bytes received so far. -/
  totalRx : Int
  /-- All bytes sent so far. -/
  totalTx : Int
  /-- The bytes received in the period. -/
  monthRx : Int
  /-- The bytes sent in the period. -/
  monthTx : Int
  /-- The day the period began on. -/
  monthStart : String
  /-- The bytes received on the day. -/
  dayRx : Int
  /-- The bytes sent on the day. -/
  dayTx : Int
  /-- The day. -/
  dayStart : String
  deriving DecidableEq

/-- A row of `metric`: one node, one minute. -/
structure MetricRow where
  /-- Whose minute it is. -/
  nodeId : Int
  /-- The second the minute begins on. -/
  ts : Int
  /-- The mean load of the processor in percent. -/
  cpu : Rat
  /-- The mean of the memory in use. -/
  memUsed : Int
  /-- The mean of the swap in use. -/
  swapUsed : Int
  /-- The mean of the disk space in use. -/
  diskUsed : Int
  /-- The mean rate of what was received. -/
  netRx : Int
  /-- The mean rate of what was sent. -/
  netTx : Int
  /-- The mean number of TCP connections. -/
  tcp : Int
  /-- The mean number of UDP sockets. -/
  udp : Int
  /-- The mean number of processes. -/
  procs : Int
  /-- Swap in use on compressed memory, where the agent told. -/
  zramUsed : Option Int
  /-- Swap in use on disks, where the agent told. -/
  swapDiskUsed : Option Int
  /-- Swap in use in files, where the agent told. -/
  swapfileUsed : Option Int
  /-- Swap in use on partitions, where the agent told. -/
  swapPartitionUsed : Option Int
  deriving DecidableEq

/-- The columns an hourly row keeps as a sum with its own sample count. -/
inductive Gauge
  | tcp | udp | procs | zramUsed | swapDiskUsed | swapfileUsed | swapPartitionUsed
  deriving DecidableEq

/-- Every gauge, in column order. -/
def Gauge.all : List Gauge :=
  [.tcp, .udp, .procs, .zramUsed, .swapDiskUsed, .swapfileUsed, .swapPartitionUsed]

/-- No gauge is forgotten in the list. -/
theorem Gauge.mem_all (g : Gauge) : g ∈ Gauge.all := by
  cases g <;> decide

instance : Fintype Gauge := ⟨⟨(Gauge.all : Multiset Gauge), by decide⟩, fun g => Gauge.mem_all g⟩

/-- The column of a minute row that feeds a gauge. -/
def MetricRow.gauge (r : MetricRow) : Gauge → Option Int
  | .tcp => some r.tcp
  | .udp => some r.udp
  | .procs => some r.procs
  | .zramUsed => r.zramUsed
  | .swapDiskUsed => r.swapDiskUsed
  | .swapfileUsed => r.swapfileUsed
  | .swapPartitionUsed => r.swapPartitionUsed

/-- A row of `metric_hour`: one node, one hour. -/
structure MetricHourRow where
  /-- Whose hour it is. -/
  nodeId : Int
  /-- The second the hour begins on. -/
  ts : Int
  /-- How many minutes are summed. -/
  samples : Int
  /-- The sum of their loads. -/
  cpuSum : Rat
  /-- The sum of their memory. -/
  memSum : Int
  /-- The sum of their disk space. -/
  diskSum : Int
  /-- The sum of the rates received. -/
  rxSum : Int
  /-- The sum of the rates sent. -/
  txSum : Int
  /-- `tcp_sum`, `udp_sum` and so on; null until a sample had the field. -/
  gaugeSum : Gauge → Option Int
  /-- `tcp_samples`, `udp_samples` and so on. -/
  gaugeSamples : Gauge → Int
  /-- CHECK (samples > 0). -/
  samples_pos : 0 < samples
  deriving DecidableEq

/-- A row of `ping_task`. -/
structure PingTaskRow where
  /-- The key; no id is given twice. -/
  id : Int
  /-- What the panel calls the probe. -/
  name : String
  /-- The host and port it dials. -/
  target : String
  /-- The seconds between two rounds. -/
  interval : Int
  deriving DecidableEq

/-- A row of `ping_node`: an assignment. -/
structure PingNodeRow where
  /-- The probe. -/
  taskId : Int
  /-- A node that makes it. -/
  nodeId : Int
  deriving DecidableEq

/-- A row of `ping_record`: one probe result. -/
structure PingRecordRow where
  /-- Who measured. -/
  nodeId : Int
  /-- Which probe. -/
  taskId : Int
  /-- When the result came. -/
  ts : Int
  /-- The milliseconds it took, -1 for a timeout. -/
  latency : Int
  deriving DecidableEq

/-- A row of `ping_hour`: how often one latency occurred in one hour. -/
structure PingHourRow where
  /-- Who measured. -/
  nodeId : Int
  /-- The second the hour begins on. -/
  ts : Int
  /-- Which probe. -/
  taskId : Int
  /-- The latency that is counted. -/
  latency : Int
  /-- How many results of the hour had it. -/
  samples : Int
  /-- CHECK (samples > 0). -/
  samples_pos : 0 < samples
  deriving DecidableEq

/-- A row of `session`. -/
structure SessionRow where
  /-- The digest of the session's token. -/
  tokenHash : String
  /-- When it ends. -/
  expiresAt : Int
  deriving DecidableEq

/-- A row of `romi_id`: the next id an identity source hands out. -/
structure RomiIdRow where
  /-- The table the ids are for. -/
  name : String
  /-- The next id to hand out. -/
  next : Int
  deriving DecidableEq

/-- A row of `romi_schema`. -/
structure RomiSchemaRow where
  /-- Always one: there is one such row. -/
  id : Int
  /-- The version of the application's schema. -/
  version : Int
  /-- The engine that wrote the file. -/
  engine : String
  /-- The version of the hub that wrote it. -/
  writtenBy : String
  /-- When the row was last written. -/
  updatedAt : Int
  deriving DecidableEq

/-- PRIMARY KEY (node_id, ts) of `metric`. -/
def MetricRow.key (r : MetricRow) : Int × Int := (r.nodeId, r.ts)

/-- PRIMARY KEY (node_id, ts) of `metric_hour`. -/
def MetricHourRow.key (r : MetricHourRow) : Int × Int := (r.nodeId, r.ts)

/-- PRIMARY KEY (task_id, node_id) of `ping_node`. -/
def PingNodeRow.key (r : PingNodeRow) : Int × Int := (r.taskId, r.nodeId)

/-- PRIMARY KEY (node_id, ts, task_id) of `ping_record`. -/
def PingRecordRow.key (r : PingRecordRow) : Int × Int × Int := (r.nodeId, r.ts, r.taskId)

/-- PRIMARY KEY (node_id, ts, task_id, latency) of `ping_hour`. -/
def PingHourRow.key (r : PingHourRow) : Int × Int × Int × Int :=
  (r.nodeId, r.ts, r.taskId, r.latency)

/-! ## The store -/

/-- Every table of the database. -/
@[ext] structure Store where
  setting : Table SettingRow.key
  /-- The nodes. -/
  node : Table NodeRow.id
  /-- The counters of each node. -/
  traffic : Table TrafficRow.nodeId
  /-- The minutes of each node. -/
  metric : Table MetricRow.key
  /-- The hours that minutes were summed into. -/
  metricHour : Table MetricHourRow.key
  /-- The probes. -/
  pingTask : Table PingTaskRow.id
  /-- Which node makes which probe. -/
  pingNode : Table PingNodeRow.key
  /-- The results of the probes. -/
  pingRecord : Table PingRecordRow.key
  /-- The hours that results were counted into. -/
  pingHour : Table PingHourRow.key
  /-- The sessions of the administrator. -/
  session : Table SessionRow.tokenHash
  /-- The ids to be given next. -/
  romiId : Table RomiIdRow.name
  /-- What is known of the file. -/
  romiSchema : Table RomiSchemaRow.id

/-- A file the engine has just created. -/
def Store.blank : Store :=
  ⟨.empty _, .empty _, .empty _, .empty _, .empty _, .empty _,
    .empty _, .empty _, .empty _, .empty _, .empty _, .empty _⟩

instance : Inhabited Store := ⟨Store.blank⟩

/-- UNIQUE on `node.token_hash`, the one constraint that is not a key. -/
def Store.TokensUnique (db : Store) : Prop :=
  ∀ r ∈ db.node.rows, ∀ s ∈ db.node.rows, r.tokenHash = s.tokenHash → r = s

/-! ## Schema maintenance -/

/-- `SCHEMA_VERSION`. -/
def schemaVersion : Int := 3

/-- `ENGINE_VERSION`. -/
def engineVersion : String := "v1.5.5"

/-- `ID_SOURCES`: tables that carry an allocated identity. -/
def idSources : List String := ["node", "ping_task"]

/-- `RETIRED_SETTINGS`. -/
def retiredSettings : List String :=
  ["github_client_id", "github_client_secret", "github_allowed_users"]

/-- `stored_version`. -/
def storedVersion (db : Store) : Option Int := (db.romiSchema.find? 1).map RomiSchemaRow.version

/-- `stamp`: the current version and the engine that wrote it. -/
def stamp (writtenBy : String) (now : Int) (db : Store) : Store :=
  { db with romiSchema := db.romiSchema.put ⟨1, schemaVersion, engineVersion, writtenBy, now⟩ }

/-- Adds an identity source that is not there yet, starting at 1. -/
def seedId (db : Store) (name : String) : Store :=
  match db.romiId.insert? ⟨name, 1⟩ with
  | some t => { db with romiId := t }
  | none => db

/-- `schema::initialize` on the current shape: the tables exist in the type, so the
idempotent DDL leaves only the identity sources and the version row. -/
def initSchema (writtenBy : String) (now : Int) (db : Store) : Store :=
  stamp writtenBy now (idSources.foldl seedId db)

/-- `retire_settings`. -/
def retireSettings (db : Store) : Store :=
  { db with setting := db.setting.deleteWhere fun r => r.key ∈ retiredSettings }

/-- Highest id of an identity source's table, 0 when it is empty. -/
def maxId (db : Store) (name : String) : Int :=
  if name = "node" then (db.node.rows.image NodeRow.id).max.unbotD 0
  else (db.pingTask.rows.image PingTaskRow.id).max.unbotD 0

/-- Raises one identity counter to at least `floor`. -/
def raiseId (db : Store) (name : String) (floor : Int) : Store :=
  { db with
    romiId := db.romiId.updateWhere (fun r => r.name = name)
      (fun r => { r with next := max r.next floor }) (fun _ => rfl) }

/-- `resync_ids`: every counter past the highest id present. -/
def resyncIds (db : Store) : Store :=
  idSources.foldl (fun db name => raiseId db name (maxId db name + 1)) db

/-- `id_counters`: the counters of the sources, by name. -/
def idCounters (db : Store) : List (String × Int) :=
  idSources.filterMap fun name => (db.romiId.find? name).map fun r => (r.name, r.next)

/-- `raise_ids`. -/
def raiseIds (db : Store) (floor : List (String × Int)) : Store :=
  floor.foldl (fun db f => raiseId db f.1 f.2) db

/-- A database just created and initialized. -/
def Store.fresh (writtenBy : String) (now : Int) : Store := initSchema writtenBy now Store.blank

/-! The maintenance statements touch only the tables they name. -/

/-- A stamp leaves the nodes alone. -/
@[simp] theorem stamp_node (w : String) (n : Int) (db : Store) : (stamp w n db).node = db.node := rfl

/-- Seeding an id touches only the table of ids. -/
theorem seedId_frame (db : Store) (name : String) :
    seedId db name = { db with romiId := (seedId db name).romiId } := by
  unfold seedId
  split <;> rfl

/-- Seeding and stamping leave every application table alone. -/
theorem initSchema_frame (w : String) (n : Int) (db : Store) :
    initSchema w n db = { db with
      romiId := (initSchema w n db).romiId
      romiSchema := db.romiSchema.put ⟨1, schemaVersion, engineVersion, w, n⟩ } := by
  simp only [initSchema, idSources, List.foldl_cons, List.foldl_nil, stamp]
  rw [seedId_frame (seedId db "node"), seedId_frame db]

/-- Resynchronizing changes the counters only. -/
theorem resyncIds_frame (db : Store) : resyncIds db = { db with romiId := (resyncIds db).romiId } := rfl

/-- So does raising all of them. -/
theorem raiseIds_frame (db : Store) (floor : List (String × Int)) :
    raiseIds db floor = { db with romiId := (raiseIds db floor).romiId } := by
  unfold raiseIds
  induction floor generalizing db with
  | nil => rfl
  | cons f floor ih =>
    rw [List.foldl_cons, ih]
    rfl

/-- Initializing records the current version. -/
theorem storedVersion_initSchema (w : String) (n : Int) (db : Store) :
    storedVersion (initSchema w n db) = some schemaVersion := by
  rw [initSchema_frame]
  have hf : (db.romiSchema.put ⟨1, schemaVersion, engineVersion, w, n⟩).find? 1 =
      some ⟨1, schemaVersion, engineVersion, w, n⟩ :=
    Table.find?_eq_some.mpr ⟨Table.mem_put.mpr (.inl rfl), rfl⟩
  rw [storedVersion, hf, Option.map_some]

end Romi.StoreSchema
