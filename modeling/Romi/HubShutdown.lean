import Romi.WriterAccounting

/-!
# Closing a hub

`close` refuses new work, takes the sender, takes and joins the writer thread,
takes the gate, drops the prototype and the read pool and releases the lock.
Several closes may run at once, each somewhere else, next to submissions, reads
and the writer, which leaves its loop when the sender is gone and the queue is
drained. The drop of the last handle does the same with a channel to wait on;
it borrows no handle, so no call is under way then.
-/

namespace Romi.HubShutdown

open BackupArchive LiveDatabase StoreOperations StoreSchema WriterAccounting WriterQueue WriterTurns

/-! ## The state -/

/-- Where the writer thread is. -/
inductive Writer
  /-- In its loop, with its connection. -/
  | running
  /-- Past the loop: the connection is dropped. -/
  | disconnected
  /-- It has sent on `done`. -/
  | announced
  /-- The thread has ended. -/
  | ended
  deriving DecidableEq

/-- The step of `close` a call is about to take. -/
inductive CloseStage
  | refusing | disconnecting | taking | joining | gating | droppingPrototype | emptyingReaders
  | unlocking | returning | returned
  deriving DecidableEq

/-- The step of `shutdown_after_last_handle` that comes next. -/
inductive DropStage
  | refusing | disconnecting | receiving | taking | joining | droppingPrototype | emptyingReaders
  | unlocking | dropped
  deriving DecidableEq

/-- The lock on the database path. -/
inductive Lock
  /-- A hub in memory has none. -/
  | absent
  /-- The hub holds it. -/
  | held
  /-- It has been given back. -/
  | released
  deriving DecidableEq

/-- The lock file is taken out of its slot. -/
def Lock.take : Lock → Lock
  | .absent => .absent
  | _ => .released

/-- What the handles of a hub share, and the calls on them. -/
structure Shared (β : Type) where
  /-- The writer with its queue, the `closed` flag, the sender and the submissions. -/
  ledger : Ledger β
  /-- The thread that writes. -/
  writer : Writer
  /-- Whether the thread's handle is in its slot. -/
  thread : Bool
  /-- Whether `writer_done` is in its slot. -/
  done : Bool
  /-- The prototype of a hub in memory; that of a file hub is in what it serves. -/
  prototype : Bool
  /-- Likewise the read pool. -/
  readers : Bool
  /-- The lock on the file. -/
  lock : Lock
  /-- How many `Db` there are. -/
  handles : Nat
  /-- The calls of `close` so far. -/
  closes : List CloseStage
  /-- Reads past `ensure_open` that do not have the gate yet. -/
  arriving : Nat
  /-- Reads that have the gate, and whether there was a connection for them. -/
  reads : List Bool
  /-- How far the drop of the last handle is. -/
  last : Option DropStage

/-- Drops the connections that `f` drops from a hub with a file. -/
def closing (f : FileSwap.Hub → FileSwap.Hub) : Live → Live
  | .file h => .file (f h)
  | .memory db => .memory db

section Machine

variable {β : Type}

/-- Whether there is a prototype connection. -/
def Shared.prototypeOpen (s : Shared β) : Bool :=
  match s.ledger.hub.live with
  | .file h => h.prototype.isSome
  | .memory _ => s.prototype

/-- Whether the read pool has connections. -/
def Shared.readersOpen (s : Shared β) : Bool :=
  match s.ledger.hub.live with
  | .file h => h.readers.isSome
  | .memory _ => s.readers

/-- Changes what is in service. -/
def Shared.setLive (s : Shared β) (live : Live) : Shared β :=
  { s with ledger := { s.ledger with hub := { s.ledger.hub with live := live } } }

/-- `*prototype = None`. -/
def Shared.dropPrototype (s : Shared β) : Shared β :=
  { s with prototype := false }.setLive
    (closing (fun h => { h with prototype := none }) s.ledger.hub.live)

/-- The read pool is replaced by an empty one and dropped. -/
def Shared.emptyReaders (s : Shared β) : Shared β :=
  { s with readers := false }.setLive
    (closing (fun h => { h with readers := none }) s.ledger.hub.live)

/-- A close that has the gate to itself. -/
def CloseStage.holdsGate : CloseStage → Bool
  | .droppingPrototype | .emptyingReaders | .unlocking | .returning => true
  | _ => false

/-- Whether a close has the gate. -/
def Shared.gated (s : Shared β) : Bool := s.closes.any CloseStage.holdsGate

/-- The gate is free for a close. -/
def Shared.gateFree (s : Shared β) : Bool := !s.gated && s.reads.isEmpty

/-- A close goes on to its next step. -/
def Shared.onward (s : Shared β) (i : Nat) (stage : CloseStage) : Shared β :=
  { s with closes := s.closes.set i stage }

/-- No submission is under way. -/
def submitting (l : Ledger β) : Bool :=
  l.admitted.length + l.entered.length + l.uncounted.length + (waiting l.hub).length != 0 ||
    l.hub.built.any fun j => j.ticket.id ∉ l.dropped

/-- No call borrows a handle. -/
def Shared.quiet (s : Shared β) : Bool :=
  s.closes.all (· == .returned) && s.arriving == 0 && s.reads.isEmpty && !submitting s.ledger

/-! ## Events -/

/-- What can happen next. -/
inductive Event (β : Type)
  /-- A caller's submission goes on. -/
  | submit (e : WriterAccounting.Event β)
  /-- The writer goes on inside its loop. -/
  | write (a : EngineRun)
  /-- The writer finds no sender and nothing queued: it leaves the loop. -/
  | leave
  /-- It sends on `done`. -/
  | announce
  /-- The thread ends. -/
  | finish
  /-- A handle is cloned. -/
  | clone
  /-- A handle is dropped. -/
  | drop
  /-- The drop of the last handle goes on. -/
  | dropOn
  /-- `close` is called. -/
  | close
  /-- A close goes on. -/
  | closeOn (i : Nat)
  /-- A read passes `ensure_open`. -/
  | read
  /-- A read takes the gate, for a pooled connection or the prototype. -/
  | enter (short : Bool)
  /-- A read is done. -/
  | exit (i : Nat)

variable (lib : Libraries β) (host : Host)

/-- Steps of a submission, as opposed to those of the writer and of a close. -/
def ofSubmission : WriterAccounting.Event β → Bool
  | .write _ | .shut | .disconnect => false
  | _ => true

/-- One step of a close. -/
def Shared.closeStep (s : Shared β) (i : Nat) : CloseStage → Shared β
  | .refusing => { s with ledger := s.ledger.step lib host .shut }.onward i .disconnecting
  | .disconnecting => { s with ledger := s.ledger.step lib host .disconnect }.onward i .taking
  | .taking =>
    if s.thread then { s with thread := false }.onward i .joining else s.onward i .gating
  | .joining => if s.writer = .ended then s.onward i .gating else s
  | .gating => if s.gateFree then s.onward i .droppingPrototype else s
  | .droppingPrototype => s.dropPrototype.onward i .emptyingReaders
  | .emptyingReaders => s.emptyReaders.onward i .unlocking
  | .unlocking => { s with lock := s.lock.take }.onward i .returning
  | .returning => s.onward i .returned
  | .returned => s

/-- One step of the drop of the last handle. -/
def Shared.dropStep (s : Shared β) : DropStage → Shared β
  | .refusing => { s with ledger := s.ledger.step lib host .shut, last := some .disconnecting }
  | .disconnecting =>
    { s with ledger := s.ledger.step lib host .disconnect, last := some .receiving }
  | .receiving =>
    if s.done = false then { s with last := some .taking }
    else if s.writer = .announced ∨ s.writer = .ended then
      { s with done := false, last := some .taking }
    else s
  | .taking =>
    if s.thread then { s with thread := false, last := some .joining }
    else { s with last := some .droppingPrototype }
  | .joining => if s.writer = .ended then { s with last := some .droppingPrototype } else s
  | .droppingPrototype => { s.dropPrototype with last := some .emptyingReaders }
  | .emptyingReaders => { s.emptyReaders with last := some .unlocking }
  | .unlocking => { s with lock := s.lock.take, last := some .dropped }
  | .dropped => s

/-- One event. A replacement would also wait for the gate, and does not here:
that only adds runs. -/
def Shared.step (s : Shared β) : Event β → Shared β
  | .submit e =>
    if 0 < s.handles ∧ ofSubmission e = true then { s with ledger := s.ledger.step lib host e } else s
  | .write a =>
    if s.writer = .running then { s with ledger := s.ledger.step lib host (.write a) } else s
  | .leave =>
    match s.writer, s.ledger.hub.phase, s.ledger.hub.queue, s.ledger.sender with
    | .running, .idle none, [], false =>
      { s with writer := .disconnected }.setLive
        (closing (fun h => { h with writer := none }) s.ledger.hub.live.checkpoint)
    | _, _, _, _ => s
  | .announce => if s.writer = .disconnected then { s with writer := .announced } else s
  | .finish => if s.writer = .announced then { s with writer := .ended } else s
  | .clone => if 0 < s.handles then { s with handles := s.handles + 1 } else s
  | .drop =>
    if 1 < s.handles then { s with handles := s.handles - 1 }
    else if s.handles = 1 ∧ s.quiet then { s with handles := 0, last := some .refusing }
    else s
  | .dropOn =>
    match s.last with
    | some stage => s.dropStep lib host stage
    | none => s
  | .close => if 0 < s.handles then { s with closes := s.closes ++ [.refusing] } else s
  | .closeOn i =>
    match s.closes[i]? with
    | some stage => s.closeStep lib host i stage
    | none => s
  | .read =>
    if 0 < s.handles ∧ s.ledger.closed = false then { s with arriving := s.arriving + 1 } else s
  | .enter short =>
    if 0 < s.arriving ∧ s.gated = false then
      { s with
        arriving := s.arriving - 1
        reads := s.reads ++ [if short then s.prototypeOpen else s.readersOpen] }
    else s
  | .exit i => { s with reads := s.reads.eraseIdx i }

/-- One event after another. -/
def Shared.run (s : Shared β) (events : List (Event β)) : Shared β :=
  events.foldl (Shared.step lib host) s

/-! ## The condition -/

/-- A close that takes the gate does so when the writer has dropped its
connection. One that joined the thread always does, one that found the slot
emptied by another close need not. -/
def Shared.waits (s : Shared β) : Event β → Bool
  | .closeOn i =>
    if s.closes[i]? = some .gating ∧ s.gateFree then s.writer != .running else true
  | _ => true

/-- No close of the run takes the gate while the writer runs. -/
def Shared.patient (s : Shared β) : List (Event β) → Bool
  | [] => true
  | e :: rest => s.waits e && (s.step lib host e).patient rest

end Machine

/-- A hub that has just been opened on `db`. -/
def inService {β : Type} (live : Live) (db : Store) : Shared β where
  ledger := fresh live db
  writer := .running
  thread := true
  done := true
  prototype := true
  readers := true
  lock := if live.isFile then .held else .absent
  handles := 1
  closes := []
  arriving := 0
  reads := []
  last := none

end Romi.HubShutdown
