import Romi.AgentCounters
import Romi.AgentSessions
import Romi.BookedTraffic
import Romi.NodeFrames

/-!
# Reports of one agent session

A frame is any text the agent sends. A report is checked field by field before
anything is written; only then is its traffic booked, are the hub's own totals
put in, and does it become the session's live report. What a frame does to the
session and asks of the store is a course of writes.
-/

namespace Romi.LiveReports

open BookedTraffic CachedTransactions DoublePrecision JsonObjects JsonValue NodeFrames StoreAnswers
  StoreOperations StoreSchema TrafficFold
open AgentCounters (reportOf)
open AgentSessions (FrameWrite)

/-! ## Validation -/

/-- `OPTIONAL`. -/
def optional : List String :=
  ["zram_used", "zram_total", "zram_devices", "swap_disk_used", "swap_disk_total",
    "swapfile_used", "swap_partition_used"]

/-- `INJECTED`: the figures the hub puts in itself. -/
def injected : List String := ["total_rx", "total_tx", "month_rx", "month_tx"]

/-- `report_fields`. -/
def reportFields : List String :=
  ["boot_id", "net_rx_total", "net_tx_total"] ++ publicMetrics.filter fun k => !injected.contains k

/-- `numeric_fields`. -/
def numericFields : List String := reportFields.filter fun k => k != "boot_id" && k != "load"

/-- `number`: a finite number that is not negative. A decoded number is finite. -/
def number (v : Json) : Bool :=
  match v.asFloat with
  | some q => decide (0 ≤ q)
  | none => false

/-- `is_null`. -/
def isNull : Json → Bool
  | .null => true
  | _ => false

/-- What the loop over the numeric fields accepts under one key. -/
def acceptable (m : Members) (key : String) : Bool :=
  match m.get key with
  | none => true
  | some v => isNull v && optional.contains key || number v

/-- An array of three numbers. -/
def threeNumbers : Json → Bool
  | .arr items => items.length == 3 && items.all number
  | _ => false

/-- The check of `load`. -/
def loadAcceptable (m : Members) : Bool :=
  match m.get "load" with
  | none => true
  | some v => threeNumbers v

/-- The checks of `report` on an object: the text of the first that fails. -/
def invalidField (m : Members) : Option String :=
  match numericFields.find? fun k => !acceptable m k with
  | some key => some s!"invalid report field {key}"
  | none => if loadAcceptable m then none else some "invalid load"

/-! ## The minute in progress -/

/-- `MEAN_FLOAT`. -/
def meanFloat : List String := ["cpu"]

/-- `MEAN_INT`. -/
def meanInt : List String :=
  ["mem_used", "swap_used", "disk_used", "tcp", "udp", "procs", "zram_used", "swap_disk_used",
    "swapfile_used", "swap_partition_used"]

/-- `Minute`: running sums and counts, by field, all of them doubles. -/
structure Minute where
  /-- What the readings of a field add up to. -/
  sums : String → Double
  /-- How many there were. -/
  counts : String → Double
  /-- How many reports were folded in. -/
  reports : Double

/-- `Minute::default`. -/
def Minute.empty : Minute := ⟨fun _ => .finite 0, fun _ => .finite 0, .finite 0⟩

/-- `Minute::add`. -/
def Minute.add (minute : Minute) (m : Members) : Minute where
  sums k :=
    match (m.get k).bind Json.asFloat with
    | some value => (minute.sums k).add (.finite value)
    | none => minute.sums k
  counts k :=
    match (m.get k).bind Json.asFloat with
    | some _ => (minute.counts k).add (.finite 1)
    | none => minute.counts k
  reports := minute.reports.add (.finite 1)

/-- `mean.round() as i64`: halves go away from zero, what is out of range to its end. -/
def rounded : Double → Int
  | .nan => 0
  | .infinite negative => if negative then i64Min else i64Max
  | .finite q => max i64Min (min i64Max (if 0 ≤ q then (q + 1 / 2).floor else (q - 1 / 2).ceil))

/-- The mean of one field as `write_into` stores it. -/
def Minute.mean (minute : Minute) (key : String) : Json :=
  let mean := (minute.sums key).div (minute.counts key)
  if meanFloat.contains key then .ofDouble mean else .int (rounded mean)

/-- `Minute::write_into`. -/
def Minute.writeInto (minute : Minute) (row : Members) : Members :=
  if minute.reports = .finite 0 then row
  else (meanFloat ++ meanInt).foldl (fun row key =>
    if (row.get key).isNone ∨ minute.counts key = .finite 0 then row
    else row.insert key (minute.mean key)) row

/-! ## The session -/

/-- `AgentState`; no report yet is `Null`. A mark is a monotonic instant in
nanoseconds with the totals as of then. -/
structure AgentState where
  /-- The last report that was taken in. -/
  metrics : Option Members
  /-- When that was. -/
  lastSeen : Int
  /-- The minute of the last row. -/
  lastMinute : Int
  /-- When the interval began, and the counters then. -/
  mark : Option (Nat × Int × Int)
  /-- What was summed since. -/
  minute : Minute

/-- `AgentState::default` in the minute in progress. -/
def AgentState.fresh (minute : Int) : AgentState := ⟨none, 0, minute, none, .empty⟩

/-- Metrics as a value. -/
def readingOf : Option Members → Json
  | some m => m.toJson
  | none => .null

/-- What a report is read as is read from its members. -/
theorem readingOf_metrics : (metrics : Option Members) → Metrics (readingOf metrics)
  | some m => m.ascending
  | none => trivial

/-- A session as the hub holds it: its report state, what it has published and
whether it is in the map, or marked as retired. -/
structure Session where
  /-- What the hub keeps of the agent. -/
  state : AgentState
  /-- What others see of it. -/
  published : Published
  /-- It is in the map. -/
  listed : Bool
  /-- It was sent away. -/
  retired : Bool

/-- `Agent::new`, just put in the map. -/
def Session.fresh (minute : Int) : Session := ⟨.fresh minute, .silent, true, false⟩

/-- What `publish` shows of a state. -/
def AgentState.shown (state : AgentState) : Published :=
  ⟨readingOf state.metrics, state.lastSeen, readingOf_metrics state.metrics⟩

/-- `publish`. -/
def Session.publish (s : Session) : Session := { s with published := s.state.shown }

/-! ## Frames -/

/-- `Rpc`: a frame that could be read. -/
structure Rpc where
  /-- What is asked for. -/
  method : String
  /-- What it is asked with. -/
  params : Json
  /-- A decoded object keeps its members in order. -/
  ordered : Ordered params

/-- The parameters when they are an object. -/
def Rpc.object (rpc : Rpc) : Option Members :=
  match rpc.params, rpc.ordered with
  | .obj members, h => some ⟨members, h⟩
  | _, _ => none

/-- The clocks a report reads. -/
structure Moment where
  /-- Wall-clock seconds. -/
  now : Int
  /-- Monotonic nanoseconds. -/
  tick : Nat
  /-- Local dates, for the booking. -/
  clock : Clock

/-- Why `dispatch` returned an error. -/
inductive Refusal
  /-- The frame is no request. -/
  | unreadable
  /-- The session was sent away. -/
  | retired
  /-- The parameters are not what they should be. -/
  | invalid (text : String)
  /-- The node is gone. -/
  | unknownNode (text : String)
  /-- The store refused. -/
  | storage (e : Failure)
  deriving DecidableEq

/-- What is left of a frame: the next write, or the session it leaves and its
answer. -/
inductive Course
  /-- The frame is answered. -/
  | done (session : Session) (answer : Except Refusal Bool)
  /-- A write, and what follows from its answer. -/
  | write (op : FrameWrite) (next : Except Failure Payload → Course)

/-- The hub's totals in a report, over whatever the agent sent there. -/
def withTotals (t : Traffic) (m : Members) : Members :=
  (((m.insert "total_rx" (.int t.totalRx)).insert "total_tx" (.int t.totalTx)).insert
    "month_rx" (.int t.monthRx)).insert "month_tx" (.int t.monthTx)

/-- The rates of a history row: the climb of the totals since the mark. -/
def withRates (time : Moment) (t : Traffic) (mark : Option (Nat × Int × Int)) (row : Members) :
    Members :=
  match mark with
  | none => row
  | some (since, rx, tx) =>
    let elapsed : Int := max ((time.tick - since) / 1000000000 : Nat) 1
    (row.insert "net_rx" (.int ((max (t.totalRx - rx) 0).tdiv elapsed))).insert
      "net_tx" (.int ((max (t.totalTx - tx) 0).tdiv elapsed))

/-- What an accepted report makes of the session's state, and the history row
it completes. -/
def AgentState.fold (state : AgentState) (time : Moment) (t : Traffic) (m : Members) :
    AgentState × Option Members :=
  let minute := time.now.tdiv 60
  let folded := state.minute.add m
  if state.lastMinute ≠ minute then
    (⟨some m, time.now, minute, some (time.tick, t.totalRx, t.totalTx), .empty⟩,
      some (withRates time t state.mark (folded.writeInto m)))
  else
    (⟨some m, time.now, state.lastMinute,
      some (state.mark.getD (time.tick, t.totalRx, t.totalTx)), folded⟩, none)

/-- `touch_seen` and the end of a report. -/
def touched (time : Moment) (s : Session) : Course :=
  .write (.touchSeen time.now) fun
    | .ok _ => .done s (.ok false)
    | .error e => .done s (.error (.storage e))

/-- A report once its traffic is booked; the state is published however the
writes end. -/
def booked (time : Moment) (s : Session) (m : Members) (t : Traffic) : Course :=
  let folded := s.state.fold time t (withTotals t m)
  let after := { s with state := folded.1 }.publish
  match folded.2 with
  | some row => .write (.insertMetric (time.now.tdiv 60 * 60) row.toJson) fun
    | .ok _ => touched time after
    | .error e => .done after (.error (.storage e))
  | none => touched time after

/-- `report` and the publication after it. -/
def report (node : Int) (time : Moment) (rpc : Rpc) (s : Session) : Course :=
  match rpc.object with
  | none => .done s.publish (.error (.invalid "report must be an object"))
  | some m =>
    match invalidField m with
    | some text => .done s.publish (.error (.invalid text))
    | none => .write (.accumulate (reportOf m.toJson time.clock)) fun
      | .ok (.traffic (some t)) => booked time s m t
      | .ok _ => .done s.publish (.error (.unknownNode s!"节点 {node} 已不存在，这次上报没有计入"))
      | .error e => .done s.publish (.error (.storage e))

/-- `ping.result`. -/
def pingResult (time : Moment) (rpc : Rpc) (s : Session) : Course :=
  match (rpc.params.get "latency_ms").bind Json.asInt with
  | some latency =>
    let task := ((rpc.params.get "task_id").bind Json.asInt).getD 0
    if 0 < task then .write (.insertPing task time.now latency) fun
      | .ok _ => .done s (.ok false)
      | .error e => .done s (.error (.storage e))
    else .done s (.ok false)
  | none => .done s (.ok false)

/-- `dispatch`; a text that cannot be read as a frame is `none`. -/
def dispatch (node : Int) (time : Moment) (frame : Option Rpc) (s : Session) : Course :=
  match frame with
  | none => .done s (.error .unreadable)
  | some rpc =>
    if s.listed = false ∨ s.retired = true then .done s (.error .retired)
    else if rpc.method = "hello" then .write (.saveFacts rpc.params) fun
      | .ok p => .done s (.ok (decide (p = .flag true)))
      | .error e => .done s (.error (.storage e))
    else if rpc.method = "report" then report node time rpc s
    else if rpc.method = "ping.result" then pingResult time rpc s
    else .done s (.ok false)

/-! ## The same frames between two locks -/

/-- What a course asks of the store while nothing fails. -/
def Course.plan : Course → AgentSessions.Plan
  | .done _ (.ok owed) => .done owed
  | .done _ (.error _) => .done false
  | .write op next => .write op fun p => (next (.ok p)).plan

/-- A frame as the connection's task tells it apart. -/
def frameOf (time : Moment) (session : Session) (rpc : Rpc) : AgentSessions.Frame :=
  if rpc.method = "hello" then .hello rpc.params
  else if rpc.method = "report" then
    match rpc.object.filter fun m => (invalidField m).isNone with
    | some m => .report (reportOf m.toJson time.clock) (fun t =>
        (session.state.fold time t (withTotals t m)).2.map fun row =>
          (time.now.tdiv 60 * 60, row.toJson)) time.now
    | none => .unknown
  else if rpc.method = "ping.result" then
    .pingResult (((rpc.params.get "task_id").bind Json.asInt).getD 0) time.now
      ((rpc.params.get "latency_ms").bind Json.asInt)
  else .unknown

/-- What is written once the counters are booked: the row of a minute that is over, if there is
one. -/
theorem plan_booked (time : Moment) (session : Session) (m : Members) (t : Traffic) :
    (booked time session m t).plan =
      match (session.state.fold time t (withTotals t m)).2.map fun row =>
        (time.now.tdiv 60 * 60, row.toJson) with
      | some (minute, row) => .write (.insertMetric minute row) fun _ =>
        AgentSessions.seenThenDone time.now
      | none => AgentSessions.seenThenDone time.now := by
  unfold booked
  dsimp only
  cases (session.state.fold time t (withTotals t m)).2 <;> rfl

/-- A session in use plans for a frame what its task plans for it. -/
theorem plan_dispatch (node : Int) (time : Moment) (rpc : Rpc) {session : Session}
    (hlisted : session.listed = true) (hactive : session.retired = false) :
    (dispatch node time (some rpc) session).plan = (frameOf time session rpc).plan := by
  have hin : ¬ (session.listed = false ∨ session.retired = true) := by
    rw [hlisted, hactive]
    decide
  unfold dispatch frameOf
  dsimp only
  rw [if_neg hin]
  split
  · rfl
  · split
    · unfold report
      cases hobject : rpc.object with
      | none => rfl
      | some m =>
        dsimp only
        cases hinvalid : invalidField m with
        | some text =>
          rw [Option.filter_some, if_neg (by simp [hinvalid])]
          rfl
        | none =>
          rw [Option.filter_some, if_pos (by rw [hinvalid]; rfl)]
          refine congrArg (AgentSessions.Plan.write _) (funext fun p => ?_)
          cases p with
          | traffic answer =>
            cases answer with
            | some t => exact plan_booked time session m t
            | none => rfl
          | nothing | flag | id | count | report => rfl
    · split
      · unfold pingResult
        cases (rpc.params.get "latency_ms").bind Json.asInt with
        | none => rfl
        | some latency =>
          dsimp only [AgentSessions.Frame.plan]
          split <;> rfl
      · rfl

/-! ## Runs -/

/-- A session beside the store, and the figures its reports were answered
with, the latest first. -/
structure State where
  /-- What the database holds. -/
  db : Store
  /-- The session of the node. -/
  session : Session
  /-- What `accumulate` has answered so far. -/
  answers : List Traffic

/-- A frame's write: it ran and left this store, or it failed and left none of
itself behind. -/
inductive Answers (host : Host) (node : Int) (ip : String) (op : FrameWrite) (db : Store) :
    Except Failure Payload → Store → Prop
  /-- The job has run on a guard that fits the store. -/
  | stored (session after : CachedTransactions.Session Store StoreGuard.Guard) (p : Payload)
      (hdb : session.db = db) (hguard : StoreGuard.Guard.Coherent session.db session.cache)
      (hrun : op.job host node ip session = (.ok p, after)) : Answers host node ip op db (.ok p) after.db
  /-- It was refused, or failed, and nothing is written. -/
  | refused (e : Failure) : Answers host node ip op db (.error e) db

/-- A write of the hub that does not come from this session. -/
inductive Elsewhere (host : Host) (db : Store) : Store → Prop
  /-- A closure of somebody else. -/
  | solo (op : Solo) (hchecked : Checked op) (answer : Except Failure Payload) (db' : Store)
      (h : Ran host op db answer db') : Elsewhere host db db'
  /-- Telemetry of somebody else. -/
  | telemetry (op : Telemetry) (session after : CachedTransactions.Session Store StoreGuard.Guard)
      (p : Payload) (hdb : session.db = db) (hrun : op.job host session = (.ok p, after)) :
      Elsewhere host db after.db

/-- The figures a booking was answered with come before those heard so far. -/
def heard : FrameWrite → Except Failure Payload → List Traffic → List Traffic
  | .accumulate _, .ok (.traffic (some t)), answers => t :: answers
  | _, _, answers => answers

/-- A course to its end, other writes coming in between. -/
inductive Runs (host : Host) (node : Int) (ip : String) :
    Course → State → State → Except Refusal Bool → Prop
  /-- Nothing is left to write. -/
  | done (session : Session) (answer : Except Refusal Bool) (s : State) :
      Runs host node ip (.done session answer) s { s with session := session } answer
  /-- The next write is answered. -/
  | write (op : FrameWrite) (next : Except Failure Payload → Course) (s s' : State)
      (a : Except Failure Payload) (answer : Except Refusal Bool) (db : Store)
      (h : Answers host node ip op s.db a db)
      (hrest : Runs host node ip (next a) { s with db := db, answers := heard op a s.answers } s' answer) :
      Runs host node ip (.write op next) s s' answer
  /-- Somebody else writes in between. -/
  | elsewhere (course : Course) (s s' : State) (answer : Except Refusal Bool) (db : Store)
      (h : Elsewhere host s.db db) (hrest : Runs host node ip course { s with db := db } s' answer) :
      Runs host node ip course s s' answer

/-- One thing that happens to a session. A restore replaces the whole database
and retires every session. -/
inductive Step (host : Host) (node : Int) (ip : String) (s : State) : State → Prop
  /-- A frame comes and is dealt with. -/
  | frame (time : Moment) (frame : Option Rpc) (answer : Except Refusal Bool) (s' : State)
      (h : Runs host node ip (dispatch node time frame s.session) s s' answer) :
      Step host node ip s s'
  /-- Somebody else writes. -/
  | elsewhere (db : Store) (h : Elsewhere host s.db db) : Step host node ip s { s with db := db }
  /-- The session leaves the map. -/
  | unlisted : Step host node ip s { s with session := { s.session with listed := false } }
  /-- It is sent away. -/
  | retired : Step host node ip s { s with session := { s.session with retired := true } }
  /-- The file is replaced, and every session with it. -/
  | restored (db : Store) : Step host node ip s
      { s with db := db, session := { s.session with listed := false, retired := true } }

/-- States a session can come to, from its handshake on. -/
inductive Reachable (host : Host) (node : Int) (ip : String) : State → Prop
  /-- A session that has just begun, on a store whose counters are in order. -/
  | start (db : Store) (minute : Int) (hbooked : Booked db) :
      Reachable host node ip ⟨db, .fresh minute, []⟩
  /-- One step more. -/
  | step (s s' : State) (h : Reachable host node ip s) (hstep : Step host node ip s s') :
      Reachable host node ip s'

end Romi.LiveReports
