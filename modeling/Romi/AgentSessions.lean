import Romi.NodeContinuity

/-!
# Agent connections, one thread against another

Every connection is served by a task of its own, and an administrator's action
or a restore takes sessions out of the map while their tasks still run. The
map, the session lock and the retirement flag are touched under different
locks; a step below is what happens between two of them.
-/

namespace Romi.AgentSessions

open CachedTransactions JsonValue KeyedTable NodeContinuity StoreGuard StoreJobs StoreOperations
  StoreSchema TrafficFold

/-! ## Frames -/

/-- The writes a frame may ask for, on the node of its session. -/
inductive FrameWrite
  /-- `save_facts`. -/
  | saveFacts (facts : Json)
  /-- `accumulate`. -/
  | accumulate (r : Report)
  /-- `insert_metric`. -/
  | insertMetric (ts : Int) (m : Json)
  /-- `touch_seen`. -/
  | touchSeen (ts : Int)
  /-- `insert_ping`. -/
  | insertPing (taskId ts latency : Int)

/-- A write as the store knows it. -/
def FrameWrite.job (host : Host) (node : Int) (ip : String) : FrameWrite → StoreJob Payload
  | .saveFacts facts => (Solo.saveFacts node facts ip).job host
  | .accumulate r => (Telemetry.accumulate node r).job host
  | .insertMetric ts m => (Telemetry.insertMetric node ts m).job host
  | .touchSeen ts => (Telemetry.touchSeen node ts).job host
  | .insertPing taskId ts latency => (Telemetry.insertPing node taskId ts latency).job host

/-- What is left to do for a frame: the next write and what follows its answer,
or whether the node is owed a country lookup. -/
inductive Plan
  /-- Nothing more is written; perhaps the address is to be looked up. -/
  | done (owed : Bool)
  /-- A write, and what follows from its answer. -/
  | write (op : FrameWrite) (next : Payload → Plan)

/-- A frame as `dispatch` reads it. What a report makes of the session's report
state is part of the frame: the history row due, if one is, from the figures
`accumulate` answers. -/
inductive Frame
  /-- The agent introduces itself. -/
  | hello (facts : Json)
  /-- It reports. -/
  | report (r : Report) (row : Traffic → Option (Int × Json)) (now : Int)
  /-- It tells the result of a probe. -/
  | pingResult (taskId now : Int) (latency : Option Int)
  /-- Any other method. -/
  | unknown

/-- The end of a report: `touch_seen`. -/
def seenThenDone (now : Int) : Plan := .write (.touchSeen now) fun _ => .done false

/-- The body of `dispatch` once the session turned out not to be retired. -/
def Frame.plan : Frame → Plan
  | .hello facts => .write (.saveFacts facts) fun p => .done (decide (p = .flag true))
  | .report r row now => .write (.accumulate r) fun
    | .traffic (some t) =>
      match row t with
      | some (minute, m) => .write (.insertMetric minute m) fun _ => seenThenDone now
      | none => seenThenDone now
    | _ => .done false
  | .pingResult taskId now latency =>
    match latency with
    | some l => if 0 < taskId then .write (.insertPing taskId now l) fun _ => .done false
      else .done false
    | none => .done false
  | .unknown => .done false

/-! ## State -/

/-- An upgraded connection: what its token was found to belong to. -/
structure Upgrade where
  /-- The node its token belongs to. -/
  node : Int
  /-- The token it came with. -/
  token : String
  /-- The address it came from. -/
  ip : String

/-- The ways the loop of `serve` can end. -/
inductive Exit
  /-- A close frame, or the end of the stream. -/
  | peerClosed
  /-- A frame could not be read. -/
  | readError
  /-- A message of the channel could not be sent, as a pushed probe list. -/
  | pushFailed
  /-- A ping could not be sent. -/
  | heartbeatFailed
  /-- A heartbeat was due and nothing had come for `SILENCE`. -/
  | silent
  /-- The retirement of the session dropped its sender. -/
  | channelClosed
  deriving DecidableEq

/-- The sends whose failure is returned with `?`, past the cleanup. -/
def Exit.early : Exit → Bool
  | .pushFailed | .heartbeatFailed => true
  | _ => false

/-- Where the task of one session is. -/
inductive Task
  /-- There is no such session. -/
  | unborn
  /-- In `activate`. -/
  | activating
  /-- In the loop, between two frames. -/
  | idle
  /-- `dispatch` has cloned the handle. -/
  | found (f : Frame)
  /-- It holds the session lock. -/
  | holding (f : Frame)
  /-- It was not retired and is writing. -/
  | writing (plan : Plan)
  /-- It released the lock and owes a country lookup. -/
  | looking
  /-- The loop is over. -/
  | leaving
  /-- `release` took it out of the map. -/
  | removed
  /-- The task is over. -/
  | returned

/-- The task holds its session's lock. -/
def Task.Holds : Task → Prop
  | .holding _ | .writing _ => True
  | _ => False

/-- What an administrator does to one node. -/
inductive NodeErrand
  /-- The node is given another token. -/
  | rotate (token : String)
  /-- The node is deleted. -/
  | delete

/-- The closure handed to `retire_node_then`. -/
def NodeErrand.solo (n : Int) : NodeErrand → Solo
  | .rotate token => .resetToken n token
  | .delete => .deleteNode n

/-- Who holds `agents_admin`. -/
inductive Errand
  /-- A session is put in the map. -/
  | activate (session : Nat)
  /-- A node is changed while nobody speaks for it. -/
  | node (n : Int) (op : NodeErrand)
  /-- Every session is sent away. -/
  | all

/-- How far the holder has got. -/
inductive Phase
  /-- The lock was just taken. -/
  | entered
  /-- The token check passed. -/
  | checked
  /-- Sessions taken out of the map and still to be retired, whether the first
  is marked, and those whose lock is held. -/
  | retiring (todo : List Nat) (marked : Bool) (held : List Nat)
  /-- The closure runs, or the new session is about to be inserted. -/
  | acting (held : List Nat)
  /-- The errand is done, and these sessions are still held up. -/
  | acted (held : List Nat)

/-- The session locks the holder has. -/
def Phase.held : Phase → List Nat
  | .retiring _ _ held | .acting held | .acted held => held
  | _ => []

/-- `agents_admin` while it is held. -/
structure Gate where
  /-- What it was taken for. -/
  errand : Errand
  /-- How far that is. -/
  phase : Phase

/-- What has happened, for the record. -/
inductive Entry
  /-- A session was put in the map. -/
  | activated (session : Nat)
  /-- The closure of a retirement of one node, or of all, has started. -/
  | closure (scope : Option Int)
  /-- A write of `dispatch` took effect. -/
  | wrote (session : Nat)
  /-- A country lookup stored what it found, if it found anything. -/
  | country (session : Nat)
  /-- The loop of `serve` is over, in this way. -/
  | exited (session : Nat) (exit : Exit)
  deriving DecidableEq

/-- The hub's side of all connections. -/
structure State where
  /-- What the database holds. -/
  db : Store
  /-- The session map. -/
  agents : List (Int × Nat)
  /-- Who has the lock of the map. -/
  gate : Option Gate
  /-- The retirement flags. -/
  retired : Nat → Bool
  /-- What is known of each upgrade. -/
  info : Nat → Upgrade
  /-- Where the task of each session is. -/
  task : Nat → Task
  /-- `SESSION`. -/
  next : Nat
  /-- Upgrades whose task has not started. -/
  upgrades : List Upgrade
  /-- What has happened, the oldest first. -/
  log : List Entry

/-- A hub that has just started on a store. -/
def State.start (db : Store) : State where
  db := db
  agents := []
  gate := none
  retired := fun _ => false
  info := fun _ => ⟨0, "", ""⟩
  task := fun _ => .unborn
  next := 0
  upgrades := []
  log := []

/-- `node_by_token` answers with this node. -/
def TokenOf (db : Store) (hash : String) (n : Int) : Prop :=
  ∃ r ∈ db.node.rows, r.id = n ∧ r.tokenHash = hash

/-- The session of a node in the map. -/
def State.lookup (s : State) (n : Int) : Option Nat :=
  (s.agents.find? fun e => e.1 = n).map Prod.snd

/-- The map without one node. -/
def without (n : Int) (agents : List (Int × Nat)) : List (Int × Nat) :=
  agents.filter fun e => e.1 ≠ n

/-- A retirement of one node, or of all, concerns this node. -/
def covers : Option Int → Int → Bool
  | some n, m => decide (m = n)
  | none, _ => true

/-- The nodes an errand takes out of the map. -/
def State.scope (s : State) : Errand → Option Int
  | .activate session => some (s.info session).node
  | .node n _ => some n
  | .all => none

/-- The errand may now take sessions out of the map. -/
def Errand.Ready : Errand → Phase → Prop
  | .activate _, .checked => True
  | .node _ _, .entered => True
  | .all, .entered => True
  | _, _ => False

/-! ## Steps -/

/-- One move of a session's own task that leaves map, flags and gate alone:
from one place to another, with the store afterwards and what to record. -/
inductive Turn (host : Host) (s : State) (σ : Nat) : Task → Task → Store → List Entry → Prop
  /-- `dispatch` looks its session up in the map. -/
  | received (f : Frame) : Turn host s σ .idle
      (if s.lookup (s.info σ).node = some σ then .found f else .idle) s.db []
  /-- It gets the session lock once nobody holds it. -/
  | seized (f : Frame) (hfree : ∀ g, s.gate = some g → σ ∉ g.phase.held) :
      Turn host s σ (.found f) (.holding f) s.db []
  /-- The retirement check comes after the lock. -/
  | examined (f : Frame) : Turn host s σ (.holding f)
      (if s.retired σ = true then .idle else .writing f.plan) s.db []
  /-- A write of the frame succeeds. -/
  | succeeded (op : FrameWrite) (next : Payload → Plan) (session : Session Store Guard)
    (hdb : session.db = s.db) (p : Payload)
    (hok : (op.job host (s.info σ).node (s.info σ).ip session).1 = .ok p) :
    Turn host s σ (.writing (.write op next)) (.writing (next p))
      (op.job host (s.info σ).node (s.info σ).ip session).2.db [.wrote σ]
  /-- A write of the frame fails. -/
  | failed (op : FrameWrite) (next : Payload → Plan) (session : Session Store Guard)
    (hdb : session.db = s.db) (e : Failure)
    (hfail : (op.job host (s.info σ).node (s.info σ).ip session).1 = .error e) :
    Turn host s σ (.writing (.write op next)) .idle
      (op.job host (s.info σ).node (s.info σ).ip session).2.db [.wrote σ]
  /-- The frame is dealt with. -/
  | finished (owed : Bool) : Turn host s σ (.writing (.done owed))
      (if owed = true then .looking else .idle) s.db []
  /-- The worker panicked; its poisoned lock is recovered. -/
  | panicked (t : Task) (h : t.Holds) : Turn host s σ t .idle s.db []
  /-- `locate` outside the lock. -/
  | located (cc : String) (session : Session Store Guard) (hdb : session.db = s.db) :
    Turn host s σ .looking .idle
      ((Solo.setCountry (s.info σ).node cc (s.info σ).ip).job host session).2.db [.country σ]
  /-- The address need not be looked up. -/
  | unlocated : Turn host s σ .looking .idle s.db []
  /-- The loop ends: a `break` goes on to `release`, a `?` does not. -/
  | ended (exit : Exit) : Turn host s σ .idle
      (if exit.early = true then .returned else .leaving) s.db [.exited σ exit]

/-- `release`, up to the flag. -/
def State.released (s : State) (σ : Nat) : State :=
  if s.lookup (s.info σ).node = some σ then
    { s with agents := without (s.info σ).node s.agents, task := Function.update s.task σ .removed }
  else { s with task := Function.update s.task σ .returned }

/-- A session leaves the map only where it is still its node's. -/
theorem released_cases (s : State) (σ : Nat) :
    s.lookup (s.info σ).node = some σ ∧ s.released σ = { s with
        agents := without (s.info σ).node s.agents, task := Function.update s.task σ .removed } ∨
      s.lookup (s.info σ).node ≠ some σ ∧
        s.released σ = { s with task := Function.update s.task σ .returned } := by
  unfold State.released
  by_cases hlookup : s.lookup (s.info σ).node = some σ
  · exact .inl ⟨hlookup, if_pos hlookup⟩
  · exact .inr ⟨hlookup, if_neg hlookup⟩

/-- `release` changes the map and its own task. -/
theorem released_frame (s : State) (σ : Nat) : ∃ agents task,
    s.released σ = { s with agents := agents, task := task } ∧ ∀ a ∈ agents, a ∈ s.agents := by
  rcases released_cases s σ with ⟨-, heq⟩ | ⟨-, heq⟩
  · exact ⟨_, _, heq, fun _ ha => (List.mem_filter.mp ha).1⟩
  · exact ⟨_, _, heq, fun _ ha => ha⟩

/-- `mark_retired` at the end of `release`. -/
def State.retire (s : State) (σ : Nat) : State :=
  { s with retired := Function.update s.retired σ true }

/-- One step of any thread. -/
inductive Step (host : Host) (s : State) : State → Prop
  /-- `handler` finds the token. -/
  | upgraded (u : Upgrade) (htoken : TokenOf s.db (host.sha256 u.token) u.node) :
    Step host s { s with upgrades := u :: s.upgrades }
  /-- `serve` draws a session number. -/
  | served (u : Upgrade) (before after : List Upgrade) (hu : s.upgrades = before ++ u :: after) :
    Step host s { s with
      upgrades := before ++ after
      info := Function.update s.info s.next u
      task := Function.update s.task s.next .activating
      next := s.next + 1 }
  /-- Somebody takes the lock. -/
  | entered (e : Errand) (hgate : s.gate = none)
    (hactive : ∀ σ, e = .activate σ → s.task σ = .activating) :
    Step host s { s with gate := some ⟨e, .entered⟩ }
  /-- The re-check of the token in `activate`. -/
  | admitted (σ : Nat) (hgate : s.gate = some ⟨.activate σ, .entered⟩)
    (htoken : TokenOf s.db (host.sha256 (s.info σ).token) (s.info σ).node) :
    Step host s { s with gate := some ⟨.activate σ, .checked⟩ }
  /-- The session may not be put in the map. -/
  | refused (σ : Nat) (hgate : s.gate = some ⟨.activate σ, .entered⟩) :
    Step host s { s with gate := none, task := Function.update s.task σ .returned }
  /-- The sessions concerned leave the map. -/
  | took (e : Errand) (phase : Phase) (hgate : s.gate = some ⟨e, phase⟩) (hready : e.Ready phase) :
    Step host s { s with
      agents := s.agents.filter fun a => covers (s.scope e) a.1 = false
      gate := some ⟨e, .retiring ((s.agents.filter fun a => covers (s.scope e) a.1 = true).map
        Prod.snd) false []⟩ }
  /-- A session in the way is marked as retired. -/
  | marked (e : Errand) (σ : Nat) (todo held : List Nat)
    (hgate : s.gate = some ⟨e, .retiring (σ :: todo) false held⟩) :
    Step host s { s.retire σ with gate := some ⟨e, .retiring (σ :: todo) true held⟩ }
  /-- The holder waits out the frame in flight. -/
  | locked (e : Errand) (σ : Nat) (todo held : List Nat)
    (hgate : s.gate = some ⟨e, .retiring (σ :: todo) true held⟩) (hfree : ¬ (s.task σ).Holds) :
    Step host s { s with gate := some ⟨e, .retiring todo false (σ :: held)⟩ }
  /-- Nobody is in the way any more. -/
  | begun (e : Errand) (marked : Bool) (held : List Nat)
    (hgate : s.gate = some ⟨e, .retiring [] marked held⟩) (he : ∀ σ, e ≠ .activate σ) :
    Step host s { s with
      gate := some ⟨e, .acting held⟩
      log := s.log ++ [.closure (s.scope e)] }
  /-- The node is changed. -/
  | acted (n : Int) (op : NodeErrand) (held : List Nat) (session : Session Store Guard)
    (hgate : s.gate = some ⟨.node n op, .acting held⟩) (hdb : session.db = s.db) :
    Step host s { s with
      db := ((op.solo n).job host session).2.db
      gate := some ⟨.node n op, .acted held⟩ }
  /-- A restore that succeeded brings another store, one that failed the same. -/
  | restored (held : List Nat) (db : Store) (hgate : s.gate = some ⟨.all, .acting held⟩) :
    Step host s { s with db := db, gate := some ⟨.all, .acted held⟩ }
  /-- The lock is given back. -/
  | left (e : Errand) (held : List Nat) (hgate : s.gate = some ⟨e, .acted held⟩) :
    Step host s { s with gate := none }
  /-- `activate` lets go of the old session before it takes the map. -/
  | unlocked (σ : Nat) (marked : Bool) (held : List Nat)
    (hgate : s.gate = some ⟨.activate σ, .retiring [] marked held⟩) :
    Step host s { s with gate := some ⟨.activate σ, .acting []⟩ }
  /-- The session is in the map. -/
  | installed (σ : Nat) (hgate : s.gate = some ⟨.activate σ, .acting []⟩) :
    Step host s { s with
      agents := ((s.info σ).node, σ) :: without (s.info σ).node s.agents
      gate := none
      task := Function.update s.task σ .idle
      log := s.log ++ [.activated σ] }
  /-- The task of a session goes on. -/
  | turned (σ : Nat) (t : Task) (db : Store) (entries : List Entry)
    (hturn : Turn host s σ (s.task σ) t db entries) :
    Step host s { s with
      db := db, task := Function.update s.task σ t, log := s.log ++ entries }
  /-- The task of a session leaves the map. -/
  | released (σ : Nat) (htask : s.task σ = .leaving) : Step host s (s.released σ)
  /-- It marks itself as retired and returns. -/
  | silenced (σ : Nat) (htask : s.task σ = .removed) :
    Step host s { s.retire σ with task := Function.update s.task σ .returned }
  /-- Writes of other parts of the hub. -/
  | wrote (op : Solo) (hop : (∀ n token, op ≠ .resetToken n token) ∧ ∀ n, op ≠ .deleteNode n)
    (session : Session Store Guard) (hdb : session.db = s.db) :
    Step host s { s with db := (op.job host session).2.db }

/-- What can happen to a hub started on some store. -/
inductive Reachable (host : Host) : State → Prop
  /-- A hub that has just started. -/
  | start (db : Store) : Reachable host (.start db)
  /-- One step more. -/
  | step {s s' : State} (h : Reachable host s) (hstep : Step host s s') : Reachable host s'

end Romi.AgentSessions
