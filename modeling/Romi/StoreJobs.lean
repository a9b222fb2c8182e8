import Romi.HourlyRollup
import Romi.JsonValue
import Romi.StoreGuard
import Romi.TrafficFold

/-!
# The bodies of the writer's jobs

Each definition is one closure handed to the writer, statement by statement.
Clock readings, the token digest and the engine's text-to-number cast are
parameters. A job that opens its own transaction updates the guard only after
the commit; the telemetry bodies run inside whatever transaction surrounds
them and consult the guard to choose their statements.
-/

namespace Romi.StoreJobs

open CachedTransactions HourlyRollup JsonValue KeyedTable StoreGuard StoreSchema TrafficFold
open CachedTransactions.Job

/-- A program over the store and its guard. -/
abbrev StoreJob (α : Type) : Type := Job Store Guard α

/-! ## Statements shared by several jobs -/

/-- Result of a plain INSERT whose key may be taken. -/
def inserted {τ : Type} (t : Option τ) (f : τ → Store) : Except Failure (Unit × Store) :=
  match t with
  | some t => .ok ((), f t)
  | none => .error .constraint

/-- An insert that succeeds had a free key. -/
theorem inserted_ok {τ : Type} {t : Option τ} {f : τ → Store} {u : Unit} {db : Store}
    (h : inserted t f = .ok (u, db)) : ∃ t', t = some t' ∧ db = f t' := by
  cases t with
  | none => cases h
  | some t' =>
    cases h
    exact ⟨t', rfl, rfl⟩

/-- UPDATE of the node rows with one id. -/
def updateNodeRow (id : Int) (f : NodeRow → NodeRow) (hf : ∀ r, (f r).id = r.id) (db : Store) :
    Store :=
  { db with node := db.node.updateWhere (fun r => r.id = id) f hf }

/-- How many rows an UPDATE by id touched. -/
def touched (id : Int) (db : Store) : Nat := (db.node.rows.filter fun r => r.id = id).card

/-- `UPDATE romi_id SET next = next + 1 … RETURNING next - 1`. -/
def takeId (name : String) (db : Store) : Except Failure (Option Int × Store) :=
  .ok ((db.romiId.find? name).map RomiIdRow.next, { db with
    romiId := db.romiId.updateWhere (fun r => r.name = name)
      (fun r => { r with next := r.next + 1 }) (fun _ => rfl) })

/-- `alloc_id`. -/
def allocId (name : String) : StoreJob Int := do
  let id ← statement (takeId name)
  match id with
  | some id => pure id
  | none => fail (.declined s!"identity source {name} is missing")

/-! ## Settings and sessions -/

/-- `set`. -/
def set (key value : String) : StoreJob Unit :=
  execute fun db => { db with setting := db.setting.put ⟨key, value⟩ }

/-- `create_session`. -/
def createSession (tokenHash : String) (expiresAt : Int) : StoreJob Unit :=
  execute fun db => { db with session := db.session.put ⟨tokenHash, expiresAt⟩ }

/-- `drop_session`. -/
def dropSession (tokenHash : String) : StoreJob Unit :=
  execute fun db => { db with session := db.session.deleteWhere fun r => r.tokenHash = tokenHash }

/-- `drop_all_sessions`. -/
def dropAllSessions : StoreJob Unit :=
  execute fun db => { db with session := .empty _ }

/-- `expire_sessions`. -/
def expireSessions (now : Int) : StoreJob Unit :=
  execute fun db => { db with session := db.session.deleteWhere fun r => r.expiresAt ≤ now }

/-! ## Nodes -/

/-- The fields of a node that its creation reads. -/
structure NewNode where
  /-- What the panel calls the node. -/
  name : String
  /-- Whether visitors see it. -/
  isPublic : Bool
  /-- What a billing cycle costs. -/
  price : Rat
  /-- The currency of the price. -/
  currency : String
  /-- How long a billing cycle is. -/
  billingCycle : String
  /-- The day it is paid until. -/
  expiresAt : Option String
  /-- What the administrator noted about it. -/
  remark : String
  /-- The bytes a period allows. -/
  trafficLimit : Int
  /-- How the two directions count against the limit. -/
  trafficMode : String
  /-- The day of the month a period begins on. -/
  trafficResetDay : Nat
  /-- Its rank among the nodes. -/
  priority : Int
  /-- The unit its traffic is shown in. -/
  trafficUnit : String
  /-- The bandwidth it was sold with, upwards. -/
  bandwidthUp : Rat
  /-- The same downwards. -/
  bandwidthDown : Rat
  /-- Whether it was sold with an IPv4 address. -/
  hasIpv4 : Bool
  /-- Whether it was sold with an IPv6 address. -/
  hasIpv6 : Bool

/-- `REGISTRATION_FULL`. -/
def registrationFull : String := "this window has registered enough nodes"

/-- `(SELECT COALESCE(MAX(sort),-1)+1 FROM node)`. -/
def nextSort (db : Store) : Int := (db.node.rows.image NodeRow.sort).max.unbotD (-1) + 1

/-- The row of a new node: named columns from the caller, the rest defaults. -/
def newNodeRow (id : Int) (n : NewNode) (tokenHash : String) (sort now : Int) : NodeRow where
  id := id
  name := n.name
  tokenHash := tokenHash
  sort := sort
  isPublic := n.isPublic
  price := n.price
  currency := n.currency
  billingCycle := n.billingCycle
  expiresAt := n.expiresAt
  remark := n.remark
  trafficLimit := n.trafficLimit
  trafficMode := n.trafficMode
  trafficResetDay := n.trafficResetDay
  hostname := ""
  os := ""
  kernel := ""
  arch := ""
  virt := ""
  cpuName := ""
  cpuCores := 0
  memTotal := 0
  swapTotal := 0
  diskTotal := 0
  agentVersion := ""
  ip := ""
  ipv4 := ""
  ipv6 := ""
  country := ""
  lastSeen := 0
  notify := false
  downSince := 0
  createdAt := now
  priority := 0
  trafficUnit := "GB"
  bandwidthUp := 0
  bandwidthDown := 0
  hasIpv4 := true
  hasIpv6 := false
  onlineSince := 0

/-- INSERT INTO node: the key and UNIQUE(token_hash) may both refuse it. -/
def insertNode (row : NodeRow) (db : Store) : Except Failure (Unit × Store) :=
  if ∃ r ∈ db.node.rows, r.tokenHash = row.tokenHash then .error .constraint
  else inserted (db.node.insert? row) fun t => { db with node := t }

/-- The traffic row of a node that has never reported. -/
def newTrafficRow (id : Int) : TrafficRow := ⟨id, "", 0, 0, 0, 0, 0, 0, "", 0, 0, ""⟩

/-- INSERT INTO traffic (node_id). -/
def insertTraffic (id : Int) (db : Store) : Except Failure (Unit × Store) :=
  inserted (db.traffic.insert? (newTrafficRow id)) fun t => { db with traffic := t }

/-- The registration ceiling, counted inside the insert's own transaction. -/
def checkCap (cap : Option (Int × Int)) : StoreJob Unit :=
  match cap with
  | none => pure ()
  | some (since, limit) => do
    let made ← query fun db => ((db.node.rows.filter fun r => r.createdAt ≥ since).card : Int)
    ensure (made < limit) registrationFull

/-- The columns `create_node_within` sets after its insert. -/
def setNewNode (n : NewNode) (r : NodeRow) : NodeRow :=
  { r with
    priority := n.priority, bandwidthUp := n.bandwidthUp, bandwidthDown := n.bandwidthDown
    hasIpv4 := n.hasIpv4, hasIpv6 := n.hasIpv6
    trafficUnit := if n.trafficUnit = "TB" then "TB" else "GB" }

/-- The transaction of `create_node_within`. -/
def createNodeBody (sha256 : String → String) (now : Int) (n : NewNode) (token : String)
    (cap : Option (Int × Int)) : StoreJob Int := do
  checkCap cap
  let id ← allocId "node"
  statement fun db => insertNode (newNodeRow id n (sha256 token) (nextSort db) now) db
  statement (insertTraffic id)
  execute (updateNodeRow id (setNewNode n) fun _ => rfl)
  pure id

/-- `create_node_within`. -/
def createNodeWithin (sha256 : String → String) (now : Int) (n : NewNode) (token : String)
    (cap : Option (Int × Int)) : StoreJob Int :=
  commitThen (createNodeBody sha256 now n token cap) fun id g =>
    { g with nodes := insert id g.nodes }

/-- `create_node`. -/
def createNode (sha256 : String → String) (now : Int) (n : NewNode) (token : String) :
    StoreJob Int :=
  createNodeWithin sha256 now n token none

/-- The grace of `touch_seen` in seconds, five minutes unless a setting says otherwise. -/
def graceSeconds (tryCast : String → Option Int) (db : Store) : Int :=
  match (db.setting.find? "online_grace_minutes").bind fun r => tryCast r.value with
  | some minutes => minutes * 60
  | none => 300

/-- What `touch_seen` does to a row. -/
def seen (grace ts : Int) (r : NodeRow) : NodeRow :=
  { r with
    onlineSince := if r.onlineSince = 0 ∨ ts - r.lastSeen > grace then ts else r.onlineSince
    lastSeen := max r.lastSeen ts }

/-- `touch_seen`. -/
def touchSeen (tryCast : String → Option Int) (id ts : Int) : StoreJob Unit :=
  execute fun db => updateNodeRow id (seen (graceSeconds tryCast db) ts) (fun _ => rfl) db

/-- Omitted settings stay unchanged; an explicit null clears the expiry date. -/
structure NodePatch where
  /-- Another unit. -/
  trafficUnit : Option String
  /-- Another rank. -/
  priority : Option Int
  /-- Another bandwidth upwards. -/
  bandwidthUp : Option Rat
  /-- Another bandwidth downwards. -/
  bandwidthDown : Option Rat
  /-- With an IPv4 address or without. -/
  hasIpv4 : Option Bool
  /-- With an IPv6 address or without. -/
  hasIpv6 : Option Bool
  /-- Another name. -/
  name : Option String
  /-- Another place. -/
  sort : Option Int
  /-- Shown to visitors or not. -/
  isPublic : Option Bool
  /-- Another price. -/
  price : Option Rat
  /-- Another currency. -/
  currency : Option String
  /-- Another billing cycle. -/
  billingCycle : Option String
  /-- Another day it is paid until, or none at all. -/
  expiresAt : Option (Option String)
  /-- Another remark. -/
  remark : Option String
  /-- Another allowance. -/
  trafficLimit : Option Int
  /-- Another way of counting. -/
  trafficMode : Option String
  /-- Another day for a period to begin on. -/
  trafficResetDay : Option Nat
  /-- Announced or not. -/
  notify : Option Bool

/-- The SET clause of `update_node`. -/
def NodePatch.applyTo (p : NodePatch) (r : NodeRow) : NodeRow :=
  { r with
    name := p.name.getD r.name
    sort := p.sort.getD r.sort
    isPublic := p.isPublic.getD r.isPublic
    price := p.price.getD r.price
    currency := p.currency.getD r.currency
    billingCycle := p.billingCycle.getD r.billingCycle
    expiresAt := p.expiresAt.getD r.expiresAt
    remark := p.remark.getD r.remark
    trafficLimit := p.trafficLimit.getD r.trafficLimit
    trafficMode := p.trafficMode.getD r.trafficMode
    trafficResetDay := (p.trafficResetDay.map Int.ofNat).getD r.trafficResetDay
    notify := p.notify.getD r.notify
    priority := p.priority.getD r.priority
    bandwidthUp := p.bandwidthUp.getD r.bandwidthUp
    bandwidthDown := p.bandwidthDown.getD r.bandwidthDown
    hasIpv4 := p.hasIpv4.getD r.hasIpv4
    hasIpv6 := p.hasIpv6.getD r.hasIpv6
    trafficUnit := p.trafficUnit.getD r.trafficUnit }

/-- `update_node`. -/
def updateNode (id : Int) (p : NodePatch) : StoreJob Bool :=
  statement fun db => .ok (touched id db == 1, updateNodeRow id p.applyTo (fun _ => rfl) db)

/-- `set_expiry`. -/
def setExpiry (id : Int) (date : String) : StoreJob Unit :=
  execute (updateNodeRow id (fun r => { r with expiresAt := some date }) fun _ => rfl)

/-- `set_down_since`. -/
def setDownSince (id ts : Int) : StoreJob Unit :=
  execute (updateNodeRow id (fun r => { r with downSince := ts }) fun _ => rfl)

/-- The loop of `reorder_nodes`, from position `sort` on. -/
def reorderFrom (count : Nat) : Nat → List Int → StoreJob Unit
  | _, [] => pure ()
  | sort, id :: rest => do
    let changed ← statement fun db => .ok (touched id db, updateNodeRow id
      (fun r => { r with sort := sort, priority := (count : Int) - sort }) (fun _ => rfl) db)
    ensure (changed = 1) "node order contains an unknown node"
    reorderFrom count (sort + 1) rest

/-- The transaction of `reorder_nodes`. -/
def reorderBody (ids : List Int) : StoreJob Unit := do
  let count ← query fun db => db.node.rows.card
  ensure (count = ids.length) "node order must include every node"
  reorderFrom ids.length 0 ids

/-- `reorder_nodes`; the duplicates are refused before anything is queued. -/
def reorderNodes (ids : List Int) : StoreJob Unit := do
  ensure ids.Nodup "node order contains duplicates"
  transaction (reorderBody ids)

/-- The deletes of `delete_node`, children first. -/
def nodeSweep (id : Int) : List (Store → Store) :=
  [fun db => { db with pingRecord := db.pingRecord.deleteWhere fun r => r.nodeId = id },
   fun db => { db with pingHour := db.pingHour.deleteWhere fun r => r.nodeId = id },
   fun db => { db with metric := db.metric.deleteWhere fun r => r.nodeId = id },
   fun db => { db with metricHour := db.metricHour.deleteWhere fun r => r.nodeId = id },
   fun db => { db with traffic := db.traffic.deleteWhere fun r => r.nodeId = id },
   fun db => { db with pingNode := db.pingNode.deleteWhere fun r => r.nodeId = id },
   fun db => { db with node := db.node.deleteWhere fun r => r.id = id }]

/-- `delete_node`. -/
def deleteNode (id : Int) : StoreJob Unit :=
  commitThen (executeAll (nodeSweep id)) fun _ g => g.forgetNode id

/-- A row under another token. -/
def withToken (hash : String) (r : NodeRow) : NodeRow := { r with tokenHash := hash }

/-- UPDATE of a token hash, which UNIQUE may refuse. -/
def setToken (id : Int) (hash : String) (db : Store) : Except Failure (Unit × Store) :=
  if db.node.Has id ∧ ∃ r ∈ db.node.rows, r.tokenHash = hash ∧ r.id ≠ id then .error .constraint
  else .ok ((), updateNodeRow id (withToken hash) (fun _ => rfl) db)

/-- `reset_token`. -/
def resetToken (sha256 : String → String) (id : Int) (token : String) : StoreJob Unit :=
  statement (setToken id (sha256 token))

/-- `char::is_control`. -/
def isControl (c : Char) : Bool := c.toNat < 32 ∨ (127 ≤ c.toNat ∧ c.toNat < 160)

/-- A text fact: control characters dropped, at most 128 characters kept. -/
def factText (f : Json) (name : String) : String :=
  String.ofList ((((f.get name).bind Json.asStr).getD "").toList.filter
    (fun c => ! isControl c) |>.take 128)

/-- A number fact, 0 when absent. -/
def factNumber (f : Json) (name : String) : Int := ((f.get name).bind Json.asInt).getD 0

/-- The SET clause of `save_facts`, which reads the row as it was. -/
def storeFacts (f : Json) (ip : String) (r : NodeRow) : NodeRow :=
  { r with
    hostname := factText f "hostname", os := factText f "os", kernel := factText f "kernel"
    arch := factText f "arch", virt := factText f "virt", cpuName := factText f "cpu_name"
    cpuCores := factNumber f "cpu_cores", memTotal := factNumber f "mem_total"
    swapTotal := factNumber f "swap_total", diskTotal := factNumber f "disk_total"
    agentVersion := factText f "agent_version", ip := ip
    ipv4 := factText f "ipv4", ipv6 := factText f "ipv6"
    country := if r.ip = ip then r.country else "" }

/-- `save_facts`: the update, then whether the country is still to be looked up. -/
def saveFacts (id : Int) (f : Json) (ip : String) : StoreJob Bool := do
  execute (updateNodeRow id (storeFacts f ip) fun _ => rfl)
  statement fun db =>
    match db.node.find? id with
    | some r => .ok (r.country == "", db)
    | none => .error noRows

/-- `set_country`, unless the node moved to another address meanwhile. -/
def setCountry (id : Int) (cc ip : String) : StoreJob Unit :=
  execute fun db => { db with
    node := db.node.updateWhere (fun r => r.id = id ∧ r.ip = ip)
      (fun r => { r with country := cc }) (fun _ => rfl) }

/-! ## Traffic -/

/-- `accumulate`: a report racing its node's deletion answers `none`. -/
def accumulate (nodeId : Int) (r : Report) : StoreJob (Option Traffic) := do
  let known ← readCache
  if nodeId ∈ known.nodes then do
    let folded ← statement (accumulateOn nodeId r)
    pure (some folded)
  else pure none

/-- Figures a panel corrects; absent ones are left as they are. -/
structure TrafficPatch where
  /-- All bytes received. -/
  totalRx : Option Int
  /-- All bytes sent. -/
  totalTx : Option Int
  /-- The bytes received in the period. -/
  monthRx : Option Int
  /-- The bytes sent in the period. -/
  monthTx : Option Int

/-- The SET clause of `set_traffic`. -/
def TrafficPatch.applyTo (p : TrafficPatch) (period : String) (r : TrafficRow) : TrafficRow :=
  { r with
    totalRx := p.totalRx.getD r.totalRx
    totalTx := p.totalTx.getD r.totalTx
    monthRx := p.monthRx.getD (if r.monthStart = period then r.monthRx else 0)
    monthTx := p.monthTx.getD (if r.monthStart = period then r.monthTx else 0)
    monthStart := period }

/-- `set_traffic`: whether a node with this id existed. -/
def setTraffic (nodeId : Int) (p : TrafficPatch) (clock : Clock) : StoreJob Bool := do
  let resetDay ← query fun db => (db.node.find? nodeId).map NodeRow.trafficResetDay
  match resetDay with
  | none => pure false
  | some day => do
    execute fun db => { db with
      traffic := db.traffic.updateWhere (fun r => r.nodeId = nodeId)
        (p.applyTo (clock.periodStart day).toText) (fun _ => rfl) }
    pure true

/-! ## History -/

/-- A non-negative integer field, null otherwise. -/
def optionalField (m : Json) (name : String) : Option Int :=
  ((m.get name).bind Json.asInt).filter fun n => 0 ≤ n

/-- The row `insert_metric` builds from a report. -/
def metricRowOf (nodeId ts : Int) (m : Json) : MetricRow where
  nodeId := nodeId
  ts := ts
  cpu := ((m.get "cpu").bind Json.asFloat).getD 0
  memUsed := factNumber m "mem_used"
  swapUsed := factNumber m "swap_used"
  diskUsed := factNumber m "disk_used"
  netRx := factNumber m "net_rx"
  netTx := factNumber m "net_tx"
  tcp := factNumber m "tcp"
  udp := factNumber m "udp"
  procs := factNumber m "procs"
  zramUsed := optionalField m "zram_used"
  swapDiskUsed := optionalField m "swap_disk_used"
  swapfileUsed := optionalField m "swapfile_used"
  swapPartitionUsed := optionalField m "swap_partition_used"

/-- INSERT INTO metric. -/
def insertMetricRow (row : MetricRow) (db : Store) : Except Failure (Unit × Store) :=
  inserted (db.metric.insert? row) fun t => { db with metric := t }

/-- `insert_metric`. -/
def insertMetric (nodeId ts : Int) (m : Json) : StoreJob Unit := do
  let known ← readCache
  if nodeId ∈ known.nodes then do
    onlyIf (Guard.mayExist (known.minutes nodeId) ts = true) (execute fun db =>
      { db with metric := db.metric.deleteWhere fun r => r.key = (nodeId, ts) })
    statement (insertMetricRow (metricRowOf nodeId ts m))
    modifyCache fun g => g.raiseMinute nodeId ts
  else pure ()

/-- `now` minus a number of days, cut down to the hour. -/
def hourBefore (now days : Int) : Int := hourStart (now - days * 86400)

/-- The transaction of `prune`. -/
def pruneBody (cutoff oldest : Int) : StoreJob Nat := do
  execute (rollMetrics cutoff oldest)
  execute (rollPings cutoff oldest)
  let a ← statement fun db => .ok ((db.metric.rows.filter fun r => r.ts < cutoff).card,
    { db with metric := db.metric.deleteWhere fun r => r.ts < cutoff })
  let b ← statement fun db => .ok ((db.pingRecord.rows.filter fun r => r.ts < cutoff).card,
    { db with pingRecord := db.pingRecord.deleteWhere fun r => r.ts < cutoff })
  execute fun db => { db with metricHour := db.metricHour.deleteWhere fun r => r.ts < oldest }
  execute fun db => { db with pingHour := db.pingHour.deleteWhere fun r => r.ts < oldest }
  pure (a + b)

/-- `prune`. -/
def prune (now keepDays : Int) : StoreJob Nat :=
  transaction (pruneBody (hourBefore now (max 0 (min keepDays 3650))) (hourBefore now 365))

/-! ## Probes -/

/-- A probe as the panel saves it; id 0 asks for a new one. -/
structure PingTask where
  /-- The key, zero for a new probe. -/
  id : Int
  /-- What the panel calls it. -/
  name : String
  /-- The host and port it dials. -/
  target : String
  /-- The seconds between two rounds. -/
  interval : Int
  /-- The nodes that make it. -/
  nodes : List Int

/-- `MAX_PROBES_PER_NODE`. -/
def maxProbesPerNode : Nat := 64

/-- INSERT INTO ping_task. -/
def insertPingTask (row : PingTaskRow) (db : Store) : Except Failure (Unit × Store) :=
  inserted (db.pingTask.insert? row) fun t => { db with pingTask := t }

/-- Updates the named probe or files a new one; its id. -/
def savePingTaskRow (t : PingTask) : StoreJob Int :=
  if t.id > 0 then do
    let changed ← statement fun db => .ok ((db.pingTask.rows.filter fun r => r.id = t.id).card,
      { db with
        pingTask := db.pingTask.updateWhere (fun r => r.id = t.id)
          (fun r => { r with name := t.name, target := t.target, interval := t.interval })
          (fun _ => rfl) })
    ensure (changed = 1) s!"探测任务 {t.id} 不存在"
    pure t.id
  else do
    let id ← allocId "ping_task"
    statement (insertPingTask ⟨id, t.name, t.target, t.interval⟩)
    pure id

/-- INSERT INTO ping_node. -/
def insertAssignment (taskId nodeId : Int) (db : Store) : Except Failure (Unit × Store) :=
  inserted (db.pingNode.insert? ⟨taskId, nodeId⟩) fun t => { db with pingNode := t }

/-- The loop of `save_ping_task` over the nodes still to be assigned. -/
def assignNodes (taskId : Int) : List Int → List Int → StoreJob Unit
  | _, [] => pure ()
  | seen, node :: rest => do
    ensure (node ∉ seen) s!"节点 {node} 被重复分配"
    let known ← query fun db => decide (db.node.Has node)
    ensure (known = true) s!"节点 {node} 不存在"
    statement (insertAssignment taskId node)
    assignNodes taskId (node :: seen) rest

/-- A node over the agent's probe ceiling, if there is one. -/
def crowded (db : Store) : Option Int :=
  ((db.pingNode.rows.image PingNodeRow.nodeId).filter fun n =>
    maxProbesPerNode < (db.pingNode.rows.filter fun r => r.nodeId = n).card).min

/-- Refuses an edit that crowds a node. -/
def refuseCrowd : StoreJob Unit := do
  let found ← query crowded
  match found with
  | none => pure ()
  | some node => fail (.declined
      s!"节点 {node} 会被分配超过 {maxProbesPerNode} 个探测任务，agent 最多只跑这么多，多出来的会被静默丢掉")

/-- The transaction of `save_ping_task`. -/
def savePingTaskBody (t : PingTask) : StoreJob Int := do
  let id ← savePingTaskRow t
  execute fun db => { db with pingNode := db.pingNode.deleteWhere fun r => r.taskId = id }
  assignNodes id [] t.nodes
  refuseCrowd
  pure id

/-- Replaces a task's assignments in the guard; its stamps stay. -/
def assignInGuard (nodes : List Int) (id : Int) (g : Guard) : Guard :=
  { g with
    assignments := (g.assignments.filter fun a => a.2 ≠ id) ∪
      (nodes.map fun node => (node, id)).toFinset }

/-- `save_ping_task`. -/
def savePingTask (t : PingTask) : StoreJob Int :=
  commitThen (savePingTaskBody t) (assignInGuard t.nodes)

/-- The deletes of `delete_ping_task`. -/
def taskSweep (id : Int) : List (Store → Store) :=
  [fun db => { db with pingRecord := db.pingRecord.deleteWhere fun r => r.taskId = id },
   fun db => { db with pingHour := db.pingHour.deleteWhere fun r => r.taskId = id },
   fun db => { db with pingNode := db.pingNode.deleteWhere fun r => r.taskId = id },
   fun db => { db with pingTask := db.pingTask.deleteWhere fun r => r.id = id }]

/-- `delete_ping_task`. -/
def deletePingTask (id : Int) : StoreJob Unit :=
  commitThen (executeAll (taskSweep id)) fun _ g => g.forgetTask id

/-- INSERT INTO ping_record. -/
def insertPingRow (row : PingRecordRow) (db : Store) : Except Failure (Unit × Store) :=
  inserted (db.pingRecord.insert? row) fun t => { db with pingRecord := t }

/-- `insert_ping`. -/
def insertPing (nodeId taskId ts latency : Int) : StoreJob Unit := do
  let known ← readCache
  if (nodeId, taskId) ∈ known.assignments then do
    onlyIf (Guard.mayExist (known.stamps (nodeId, taskId)) ts = true) (execute fun db =>
      { db with pingRecord := db.pingRecord.deleteWhere fun r => r.key = (nodeId, ts, taskId) })
    statement (insertPingRow ⟨nodeId, taskId, ts, latency⟩)
    modifyCache fun g => g.raiseStamp (nodeId, taskId) ts
  else pure ()

/-! ## A store to look at -/

/-- A node as the panel adds it. -/
def sampleNode : NewNode :=
  ⟨"n", true, 0, "USD", "monthly", none, "", 0, "sum", 1, 0, "GB", 0, 0, true, false⟩

/-- A fresh database with one node and a probe of it. -/
def probedStore : Store :=
  let db := Store.fresh "romi" 0
  { db with
    romiId := (db.romiId.put ⟨"node", 2⟩).put ⟨"ping_task", 2⟩
    node := db.node.put (newNodeRow 1 sampleNode "token" 0 0)
    traffic := db.traffic.put ⟨1, "", 0, 0, 0, 0, 0, 0, "", 0, 0, ""⟩
    pingTask := db.pingTask.put ⟨1, "p", "192.0.2.1:80", 60⟩
    pingNode := db.pingNode.put ⟨1, 1⟩ }

end Romi.StoreJobs
