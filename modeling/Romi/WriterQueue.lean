import Romi.LiveDatabase
import Romi.StoreVersion
import Romi.WriterBatch

/-!
# The writer and its queue

Callers read the generation, build a job and send it later; in between the
writer may do anything. One step of the writer is one receive or one thing it
does between two receives: it gathers a group, refuses what a replacement
found queued, or finishes a replacement by advancing the generation. A run is
any list of such events with any answers of the engine to them.
-/

namespace Romi.WriterQueue

open BackupArchive CachedTransactions GroupCommit KeyedTable LiveDatabase StoreGuard
  StoreOperations StoreSchema WriterBatch

/-! ## Jobs -/

/-- An operation that replaces the database. -/
inductive Replacement (β : Type)
  /-- A backup is restored. -/
  | restore (archive : β)
  /-- The database is compacted. -/
  | compact

/-- What a job is to do once it runs. -/
structure Queued (α : Type) where
  /-- Its number. -/
  id : Nat
  /-- The database generation the job was accepted against. -/
  generation : Nat
  /-- What it is to do. -/
  work : α

/-- The ticket of a queued job. -/
def Queued.ticket {α : Type} (q : Queued α) (kind : Kind) : Ticket := ⟨q.id, kind, q.generation⟩

/-- A job in the queue, by kind. -/
inductive Job (β : Type)
  /-- Telemetry. -/
  | batch (q : Queued Telemetry)
  /-- A closure. -/
  | solo (q : Queued Solo)
  /-- The checkpoint half of maintenance. -/
  | maintenance (q : Queued Unit)
  /-- A replacement of the file. -/
  | replace (q : Queued (Replacement β))

/-- The ticket of a job. -/
def Job.ticket {β : Type} : Job β → Ticket
  | .batch q => q.ticket .batch
  | .solo q => q.ticket .solo
  | .maintenance q => q.ticket .maintenance
  | .replace q => q.ticket .replace

/-- What a caller wants done. -/
inductive Request (β : Type)
  /-- Telemetry. -/
  | batch (op : Telemetry)
  /-- A closure. -/
  | solo (op : Solo)
  /-- The checkpoint half of maintenance. -/
  | maintenance
  /-- A replacement of the file. -/
  | replace (r : Replacement β)

/-- The job a caller builds. -/
def Request.job {β : Type} (id generation : Nat) : Request β → Job β
  | .batch op => .batch ⟨id, generation, op⟩
  | .solo op => .solo ⟨id, generation, op⟩
  | .maintenance => .maintenance ⟨id, generation, ()⟩
  | .replace r => .replace ⟨id, generation, r⟩

/-- A compaction is only asked for after `plan_maintenance` proposed it, which
it never does for a hub in memory. -/
def Request.offered {β : Type} (live : Live) : Request β → Bool
  | .replace .compact => live.isFile
  | _ => true

/-! ## The state -/

/-- Where the writer thread stands. -/
inductive Phase (β : Type)
  /-- Between jobs, possibly holding one that ended the last group. -/
  | idle (deferred : Option (Job β))
  /-- Collecting a group. -/
  | gathering (group : List (Queued Telemetry))
  /-- About to replace the database, refusing what is queued. -/
  | draining (q : Queued (Replacement β))
  /-- The replacement ran; the generation has not advanced yet. -/
  | replaced (ticket : Ticket) (outcome : Except Failure Payload)

/-- A body that ran, with how many replacements had been executed before. -/
structure Ran where
  /-- The generation it ran in. -/
  epoch : Nat
  /-- The body, what it started from and what it left. -/
  execution : Execution Ticket Store Guard Payload

/-- A checkpoint that ran, with how many replacements had been executed before. -/
structure Planned where
  /-- The generation it ran in. -/
  epoch : Nat
  /-- Its ticket. -/
  ticket : Ticket

/-- What happened so far. No step reads it; statements about runs do. -/
structure History where
  /-- The telemetry bodies that ran, also those rolled back. -/
  telemetry : List Ran
  /-- The bodies that ran on their own. -/
  solo : List Ran
  /-- The checkpoints that ran. -/
  maintenance : List Planned
  /-- The replacements that were executed, in order. -/
  replacements : List Ticket
  /-- How many restores succeeded. -/
  restores : Nat
  /-- What the last successful restore, or the opening, put in service. -/
  base : Store
  /-- What has been applied to it since, in order. -/
  applied : List (Execution Ticket Store Guard Payload)

/-- An answer with the number of successful restores before it. -/
structure Answer where
  /-- How many replacements there had been. -/
  restores : Nat
  /-- What the caller gets. -/
  reply : Reply

/-- The hub as far as the writer is concerned. -/
structure State (β : Type) where
  /-- The database in service. -/
  live : Live
  /-- The mirror of its keys. -/
  guard : Guard
  /-- How many replacements have been counted. -/
  generation : Nat
  /-- Jobs that callers have built and not sent yet. -/
  built : List (Job β)
  /-- Jobs that were sent, oldest first. -/
  queue : List (Job β)
  /-- Where the writer stands. -/
  phase : Phase β
  /-- The number of the next job. -/
  nextId : Nat
  /-- What was answered, oldest first. -/
  answers : List Answer
  /-- Every job a caller has built; like the history, no step reads it. -/
  submitted : List (Job β)
  /-- What has run. -/
  history : History

/-- What the engine and the host answer during one step of the writer. -/
structure EngineRun where
  /-- Around a group's transaction. -/
  shared : EngineAnswers
  /-- Around each replay. -/
  replays : Ticket → EngineAnswers
  /-- To the statements of a body inside a group. -/
  first : Ticket → List Bool
  /-- To the statements of a replay. -/
  alone : Ticket → List Bool
  /-- To the statements of a job that runs on its own. -/
  solo : List Bool
  /-- The reusable bytes a checkpoint reports. -/
  reusable : Except Failure Int
  /-- To the steps of a restore. -/
  restore : RestoreHost
  /-- To the steps of a compaction. -/
  compact : CompactFaults
  /-- Whether a reload of the guard succeeds. -/
  reloads : Bool

section Machine

variable {β : Type} (lib : Libraries β) (host : Host)

/-! ## Steps -/

/-- One answer. -/
def State.answer (s : State β) (r : Reply) : State β :=
  { s with answers := s.answers ++ [⟨s.history.restores, r⟩] }

/-- Several answers. -/
def State.answerAll (s : State β) (rs : List Reply) : State β :=
  { s with answers := s.answers ++ rs.map (Answer.mk s.history.restores) }

/-- How many replacements have been executed. -/
def State.epoch (s : State β) : Nat := s.history.replacements.length

/-- A telemetry job as `run_batch` gets it. -/
def Queued.batchJob (host : Host) (a : EngineRun) (q : Queued Telemetry) : BatchJob :=
  telemetryTask host (q.ticket .batch) q.work (a.first (q.ticket .batch)) (a.alone (q.ticket .batch))

/-- `run_batch` on a collected group. -/
def State.runGroup (s : State β) (a : EngineRun) (group : List (Queued Telemetry)) : State β :=
  let jobs := group.map (Queued.batchJob host a)
  match s.live.read with
  | none =>
    s.answerAll (runBatch s.generation false a.shared a.replays jobs Store.blank s.guard).replies
  | some db =>
    let turn := runBatch s.generation true a.shared a.replays jobs db s.guard
    { s with
      live := s.live.write fun _ => turn.db
      guard := turn.guard
      history := { s.history with
        telemetry := s.history.telemetry ++ turn.executions.map (Ran.mk s.epoch)
        applied := s.history.applied ++ turn.commits } }.answerAll turn.replies

/-- `reload_guard`, which reads through the prototype connection. -/
def State.reload (s : State β) (reloads : Bool) : State β :=
  match s.live.readPrototype with
  | some db => { s with guard := if reloads then Guard.load db else s.guard }
  | none => s

/-- `run_one` on a write in autocommit: what its statements did stays done. -/
def State.runSolo (s : State β) (a : EngineRun) (q : Queued Solo) : State β :=
  let ticket := q.ticket .solo
  if q.generation ≠ s.generation then s.answer (refusal superseded ticket)
  else
    match s.live.read with
    | none => s.answer (refusal databaseClosed ticket)
    | some db =>
      let (r, db', g) := (q.work.job host).body a.solo db s.guard
      let e : Execution Ticket Store Guard Payload := ⟨ticket, db, s.guard, r, db'⟩
      let s := { s with
        live := s.live.write fun _ => db'
        guard := g
        history := { s.history with
          solo := s.history.solo ++ [Ran.mk s.epoch e], applied := s.history.applied ++ [e] } }
      match r with
      | .ok _ => s.answer ⟨ticket, r, .committed⟩
      | .error _ => (s.reload a.reloads).answer ⟨ticket, r, .failed⟩

/-- `run_one` on the checkpoint half of maintenance. -/
def State.runMaintenance (s : State β) (a : EngineRun) (q : Queued Unit) : State β :=
  let ticket := q.ticket .maintenance
  if q.generation ≠ s.generation then s.answer (refusal superseded ticket)
  else
    match s.live.read with
    | none => s.answer (refusal databaseClosed ticket)
    | some _ =>
      let (r, live) := planMaintenance a.reusable s.live
      let s := { s with
        live := live
        history := { s.history with
          maintenance := s.history.maintenance ++ [Planned.mk s.epoch ticket] } }
      match r with
      | .ok rewrite => s.answer ⟨ticket, .ok (.flag rewrite), .committed⟩
      | .error e => (s.reload a.reloads).answer ⟨ticket, .error e, .failed⟩

/-- The replacement itself: its outcome, the database in service afterwards and
whether other rows are in service now. -/
def replacement (live : Live) (a : EngineRun) :
    Replacement β → Except Failure Payload × Live × Bool
  | .restore archive =>
    let (r, live) := restore lib a.restore archive live
    (r.map Payload.report, live, r.toBool)
  | .compact =>
    let (r, live) := applyMaintenance a.compact live
    (r.map fun _ => Payload.nothing, live, false)

/-- The replacement half of `run_replace`, up to the reload of the guard. -/
def State.runReplacement (s : State β) (a : EngineRun) (q : Queued (Replacement β)) : State β :=
  let ticket := q.ticket .replace
  let (outcome, live, restored) := replacement lib s.live a q.work
  let history := { s.history with replacements := s.history.replacements ++ [ticket] }
  let history := if restored then
      { history with
        restores := history.restores + 1, base := live.read.getD history.base, applied := [] }
    else history
  { s with live := live, history := history, phase := .replaced ticket outcome }.reload a.reloads

/-- What the writer does with the next job. -/
def State.dispatch (s : State β) (a : EngineRun) : Job β → State β
  | .batch q => { s with phase := .gathering [q] }
  | .solo q => s.runSolo host a q
  | .maintenance q => s.runMaintenance a q
  | .replace q =>
    if q.generation ≠ s.generation then s.answer (refusal superseded (q.ticket .replace))
    else { s with phase := .draining q }

/-- `BATCH_OPS`. -/
def batchCapacity : Nat := 256

/-- One round of the loop that collects a group. -/
def State.gather (s : State β) (a : EngineRun) (group : List (Queued Telemetry)) : State β :=
  if group.length < batchCapacity then
    match s.queue with
    | .batch q :: rest => { s with queue := rest, phase := .gathering (group ++ [q]) }
    | j :: rest => { s with queue := rest, phase := .idle (some j) }.runGroup host a group
    | [] => { s with phase := .idle none }.runGroup host a group
  else { s with phase := .idle none }.runGroup host a group

/-- One round of the loop that refuses what is queued, or the replacement. -/
def State.drain (s : State β) (a : EngineRun) (q : Queued (Replacement β)) : State β :=
  match s.queue with
  | j :: rest => { s with queue := rest }.answer (refusal superseded j.ticket)
  | [] => s.runReplacement lib a q

/-- The next step of `writer_loop`. -/
def State.writerStep (s : State β) (a : EngineRun) : State β :=
  match s.phase with
  | .idle (some j) => { s with phase := .idle none }.dispatch host a j
  | .idle none =>
    match s.queue with
    | [] => s
    | j :: rest => { s with queue := rest }.dispatch host a j
  | .gathering group => s.gather host a group
  | .draining q => s.drain lib a q
  | .replaced ticket outcome =>
    { s with generation := s.generation + 1, phase := .idle none }.answer
      ⟨ticket, outcome, statusOf outcome⟩

/-- What can happen next. -/
inductive Event (β : Type)
  /-- A caller reads the generation and builds its job. -/
  | build (r : Request β)
  /-- A caller sends one of the jobs built and not sent yet. -/
  | send (i : Nat)
  /-- The writer goes on. -/
  | write (a : EngineRun)

/-- One event. -/
def State.step (s : State β) : Event β → State β
  | .build r =>
    if r.offered s.live then
      { s with
        built := s.built ++ [r.job s.nextId s.generation]
        nextId := s.nextId + 1
        submitted := s.submitted ++ [r.job s.nextId s.generation] }
    else s
  | .send i =>
    match s.built[i]? with
    | some j => { s with built := s.built.eraseIdx i, queue := s.queue ++ [j] }
    | none => s
  | .write a => s.writerStep lib host a

/-- One event after another. -/
def State.run (s : State β) (events : List (Event β)) : State β :=
  events.foldl (State.step lib host) s

end Machine

/-- A hub that has just been opened on `db`. -/
def opened {β : Type} (live : Live) (db : Store) : State β where
  live := live
  guard := Guard.load db
  generation := 0
  built := []
  queue := []
  phase := .idle none
  nextId := 0
  answers := []
  submitted := []
  history := ⟨[], [], [], [], 0, db, []⟩

end Romi.WriterQueue
