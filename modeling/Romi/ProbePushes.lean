import Romi.StoreAreas

/-!
# Probe lists on their way to the agents

Whoever edits a probe writes it first and then, for one connected agent after
the other, reads that agent's list and puts it on the queue of its session. A
session that is new reads its list for itself and sends it before anything on
the queue. No queue is full here.
-/

namespace Romi.ProbePushes

open CachedTransactions KeyedTable StoreAnswers StoreAreas StoreGuard StoreJobs StoreOperations
  StoreSchema

/-! ## Lists -/

/-- One entry of `ping.tasks`. -/
structure Probe where
  /-- The key of the probe. -/
  id : Int
  /-- The host and port it dials. -/
  target : String
  /-- The seconds between two rounds. -/
  interval : Int
  deriving DecidableEq

/-- What an agent is told of a probe. -/
def probeOf (t : PingTaskRow) : Probe := ⟨t.id, t.target, t.interval⟩

/-- `ping_tasks_for`: the join with the assignments of the node, ordered by id. -/
def pingTasksFor (db : Store) (n : Int) : List Probe :=
  (ascending ((db.pingTask.rows.filter fun t => db.pingNode.Has (t.id, n)).image
    PingTaskRow.id)).filterMap fun id => (db.pingTask.find? id).map probeOf

/-- Just the probes assigned to the node are on its list. -/
theorem mem_pingTasksFor {db : Store} {n : Int} {p : Probe} :
    p ∈ pingTasksFor db n ↔
      ∃ t ∈ db.pingTask.rows, db.pingNode.Has (t.id, n) ∧ probeOf t = p := by
  unfold pingTasksFor
  rw [List.mem_filterMap]
  constructor
  · rintro ⟨id, hid, hp⟩
    rw [mem_ascending, Finset.mem_image] at hid
    obtain ⟨t, ht, rfl⟩ := hid
    obtain ⟨ht, hassigned⟩ := Finset.mem_filter.mp ht
    rw [Table.find?_eq_some.mpr ⟨ht, rfl⟩, Option.map_some, Option.some.injEq] at hp
    exact ⟨t, ht, hassigned, hp⟩
  · rintro ⟨t, ht, hassigned, rfl⟩
    refine ⟨t.id, ?_, ?_⟩
    · rw [mem_ascending, Finset.mem_image]
      exact ⟨t, Finset.mem_filter.mpr ⟨ht, hassigned⟩, rfl⟩
    · rw [Table.find?_eq_some.mpr ⟨ht, rfl⟩, Option.map_some]

/-- A write about something else leaves every list as it is. -/
theorem pingTasksFor_congr {a : Area} {db db' : Store} (h : Within a db db') (ha : a ≠ .probes)
    (n : Int) : pingTasksFor db' n = pingTasksFor db n := by
  obtain ⟨htask, hnode⟩ := h.probes ha
  unfold pingTasksFor
  rw [htask, hnode]

/-- A list as it was read, or the empty one if the read failed; with the number
of edits there had been. -/
structure Message where
  /-- The probes. -/
  tasks : List Probe
  /-- Whether the read succeeded. -/
  read : Bool
  /-- How many edits there had been. -/
  version : Nat

/-- `ping_tasks_message`. -/
def pingTasksMessage (db : Store) (n : Int) (version : Nat) (ok : Bool) : Message where
  tasks := if ok = true then pingTasksFor db n else []
  read := ok
  version := version

/-! ## State -/

/-- Where the task of a session is. -/
inductive Phase
  /-- There is no such session. -/
  | unborn
  /-- In the map, its list not read yet. -/
  | activated
  /-- About to send its first list. -/
  | greeting (m : Message)
  /-- It takes lists off its queue. -/
  | looping
  /-- The task has returned, and with it the receiving end of its queue. -/
  | closed

/-- What a session was given to send. -/
structure Outbox where
  /-- What it sent first. -/
  greeting : Option Message
  /-- What was put on its queue, newest first. -/
  handed : List Message
  /-- How many of these it has sent, from the oldest on. -/
  gone : Nat

/-- What the agent has received, in this order. -/
def Outbox.delivered (b : Outbox) : List Message :=
  b.greeting.toList ++ b.handed.reverse.take b.gone

/-- The room in a queue. -/
def capacity : Nat := 16

/-- What a panel does to the probes. -/
inductive Edit
  /-- A probe is saved. -/
  | save (t : PingTask)
  /-- A probe is deleted. -/
  | delete (id : Int)

/-- The closure handed to the writer. -/
def Edit.solo : Edit → Solo
  | .save t => .savePingTask t
  | .delete id => .deletePingTask id

/-- Where the handler of an edit is. -/
inductive Handler
  /-- There is no such handler. -/
  | absent
  /-- Its write is queued. -/
  | writing (e : Edit)
  /-- Its write is done. -/
  | written
  /-- In the loop of `push_ping_tasks`. -/
  | pushing (todo : List (Int × Nat))
  /-- It has read the list for a session. -/
  | loaded (a : Int × Nat) (m : Message) (todo : List (Int × Nat))
  /-- It has pushed the list to everybody. -/
  | finished

/-- The hub as far as probe lists go. -/
structure State where
  /-- What the database holds. -/
  db : Store
  /-- The session map. -/
  agents : List (Int × Nat)
  /-- `SESSION`. -/
  next : Nat
  /-- Whose agent a session is. -/
  node : Nat → Int
  /-- Where its task is. -/
  phase : Nat → Phase
  /-- What it was given to send. -/
  box : Nat → Outbox
  /-- Where the handler of each edit is. -/
  handler : Nat → Handler
  /-- How many edits have been committed. -/
  version : Nat
  /-- How many there were when a session was put in the map. -/
  born : Nat → Nat

/-- A hub that has just started. -/
def State.start (db : Store) : State where
  db := db
  agents := []
  next := 0
  node := fun _ => 0
  phase := fun _ => .unborn
  box := fun _ => ⟨none, [], 0⟩
  handler := fun _ => .absent
  version := 0
  born := fun _ => 0

/-- A handler goes on. -/
def State.handlerTo (s : State) (j : Nat) (x : Handler) : State :=
  { s with handler := Function.update s.handler j x }

/-- The task of a session goes on. -/
def State.phaseTo (s : State) (σ : Nat) (x : Phase) : State :=
  { s with phase := Function.update s.phase σ x }

/-- A session is given something, or sends it. -/
def State.boxTo (s : State) (σ : Nat) (b : Outbox) : State :=
  { s with box := Function.update s.box σ b }

/-- The map without one node. -/
def without (n : Int) (agents : List (Int × Nat)) : List (Int × Nat) :=
  agents.filter fun e => e.1 ≠ n

/-! ## Steps -/

/-- A move of the handler of one edit that passed its checks. -/
inductive HandlerStep (host : Host) (s : State) (j : Nat) : State → Prop
  /-- A request comes in. -/
  | writing (e : Edit) (hat : s.handler j = .absent) :
    HandlerStep host s j (s.handlerTo j (.writing e))
  /-- Its write succeeds. -/
  | committed (e : Edit) (answer : Payload) (db : Store) (hat : s.handler j = .writing e)
    (hran : Ran host e.solo s.db (.ok answer) db) :
    HandlerStep host s j { s.handlerTo j .written with db := db, version := s.version + 1 }
  /-- Its write fails. -/
  | rejected (e : Edit) (failure : Failure) (db : Store) (hat : s.handler j = .writing e)
    (hran : Ran host e.solo s.db (.error failure) db) :
    HandlerStep host s j { s.handlerTo j .finished with db := db }
  /-- It takes down who is connected, in whatever order the map has. -/
  | listed (todo : List (Int × Nat)) (hat : s.handler j = .written)
    (htodo : todo.Perm s.agents) : HandlerStep host s j (s.handlerTo j (.pushing todo))
  /-- It reads the list for the next session. -/
  | loaded (a : Int × Nat) (todo : List (Int × Nat)) (ok : Bool)
    (hat : s.handler j = .pushing (a :: todo)) :
    HandlerStep host s j
      (s.handlerTo j (.loaded a (pingTasksMessage s.db a.1 s.version ok) todo))
  /-- `try_send`. -/
  | handed (a : Int × Nat) (m : Message) (todo : List (Int × Nat))
    (hat : s.handler j = .loaded a m todo) (hopen : s.phase a.2 ≠ .closed)
    (hroom : (s.box a.2).handed.length < (s.box a.2).gone + capacity) :
    HandlerStep host s j ((s.handlerTo j (.pushing todo)).boxTo a.2
      { s.box a.2 with handed := m :: (s.box a.2).handed })
  /-- Nobody is at the other end. -/
  | missed (a : Int × Nat) (m : Message) (todo : List (Int × Nat))
    (hat : s.handler j = .loaded a m todo) (hclosed : s.phase a.2 = .closed) :
    HandlerStep host s j (s.handlerTo j (.pushing todo))
  /-- Nobody is left. -/
  | finished (hat : s.handler j = .pushing []) : HandlerStep host s j (s.handlerTo j .finished)

/-- A move of the task of one session. -/
inductive SessionStep (s : State) (σ : Nat) : State → Prop
  /-- The list for the beginning is read. -/
  | greeting (ok : Bool) (hat : s.phase σ = .activated) :
    SessionStep s σ (s.phaseTo σ (.greeting (pingTasksMessage s.db (s.node σ) s.version ok)))
  /-- It is sent. -/
  | looping (m : Message) (hat : s.phase σ = .greeting m) :
    SessionStep s σ ((s.phaseTo σ .looping).boxTo σ { s.box σ with greeting := some m })
  /-- The oldest list on the queue is sent. -/
  | sent (hat : s.phase σ = .looping) (hmore : (s.box σ).gone < (s.box σ).handed.length) :
    SessionStep s σ (s.boxTo σ { s.box σ with gone := (s.box σ).gone + 1 })
  /-- However the task returns. -/
  | closed (hat : s.phase σ ≠ .unborn) : SessionStep s σ (s.phaseTo σ .closed)

/-- One step of anybody. -/
inductive Step (host : Host) (s : State) : State → Prop
  /-- A handler goes on. -/
  | handler (j : Nat) (s' : State) (h : HandlerStep host s j s') : Step host s s'
  /-- A session goes on. -/
  | session (σ : Nat) (s' : State) (h : SessionStep s σ s') : Step host s s'
  /-- `activate` puts a new session in the map. -/
  | installed (n : Int) : Step host s { s with
      agents := (n, s.next) :: without n s.agents
      next := s.next + 1
      node := Function.update s.node s.next n
      phase := Function.update s.phase s.next .activated
      box := Function.update s.box s.next ⟨none, [], 0⟩
      born := Function.update s.born s.next s.version }
  /-- A node leaves the map, for whatever reason. -/
  | left (n : Int) : Step host s { s with agents := without n s.agents }
  /-- Writes about something else. -/
  | wrote (op : Solo) (hop : areaOf op ≠ .probes) (answer : Except Failure Payload) (db : Store)
    (hran : Ran host op s.db answer db) : Step host s { s with db := db }
  /-- Telemetry is written. -/
  | reported (op : Telemetry) (session : Session Store Guard) (hdb : session.db = s.db) :
    Step host s { s with db := (op.job host session).2.db }

/-- What can happen to a hub started on some store. -/
inductive Reachable (host : Host) : State → Prop
  /-- A hub that has just started. -/
  | start (db : Store) : Reachable host (.start db)
  /-- One step more. -/
  | step {s s' : State} (h : Reachable host s) (hstep : Step host s s') : Reachable host s'

end Romi.ProbePushes
