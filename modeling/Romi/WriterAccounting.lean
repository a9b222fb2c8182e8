import Romi.WriterGuarantees
import Romi.WriterTurns

/-!
# The counters of the writer

A submission passes `ensure_open`, counts itself as queued, sends its job and
counts it as accepted; the writer counts a job once more when it answers it.
Callers are free between any two of these steps, and a close may come between
them. Every job that was sent is with the writer or answered, once, under one
status; the counters are the numbers of these; and the writer comes to rest
unless callers keep sending.
-/

namespace Romi.WriterAccounting

open BackupArchive LiveDatabase StoreOperations StoreSchema WriterBatch WriterGuarantees WriterQueue
  WriterTurns

/-! ## Submissions and counters -/

/-- The counters of `Inner` that `submit` and `resolve` move. -/
structure Counters where
  /-- Counted when a submission enters, and off when its job is answered. -/
  queued : Int
  /-- The jobs that were sent. -/
  accepted : Nat
  /-- Answered after a commit. -/
  committed : Nat
  /-- Answered without having run. -/
  refused : Nat
  /-- Answered after a run that failed. -/
  failed : Nat
  /-- All that were answered. -/
  completed : Nat
  /-- The jobs that could not be sent. -/
  submitFailed : Nat

/-- `resolve`. -/
def Counters.resolve (c : Counters) (r : Reply) : Counters :=
  let c := { c with queued := c.queued - 1, completed := c.completed + 1 }
  match r.status with
  | .committed => { c with committed := c.committed + 1 }
  | .refused => { c with refused := c.refused + 1 }
  | .failed => { c with failed := c.failed + 1 }

/-- The hub with its counters and the submissions under way, by job id. -/
structure Ledger (β : Type) where
  /-- The writer and its queue. -/
  hub : State β
  /-- The counters. -/
  counters : Counters
  /-- What `ensure_open` looks at. -/
  closed : Bool
  /-- Whether the sender is still in its slot. -/
  sender : Bool
  /-- Past `ensure_open`, and not counted as queued. -/
  admitted : List Nat
  /-- Counted as queued, and not sent. -/
  entered : List Nat
  /-- Sent, and not counted as accepted. -/
  uncounted : List Nat
  /-- Refused by `ensure_open`, or by the missing sender. -/
  dropped : List Nat
  /-- The jobs in the order in which they were sent; no step reads it. -/
  sent : List Ticket

/-- What can happen next. -/
inductive Event (β : Type)
  /-- A caller builds its job. -/
  | build (r : Request β)
  /-- `ensure_open`. -/
  | ensureOpen (id : Nat)
  /-- The job is counted as queued. -/
  | enter (id : Nat)
  /-- The job is sent, or there is no sender any more. -/
  | send (id : Nat)
  /-- The job is counted as accepted. -/
  | count (id : Nat)
  /-- The writer goes on. -/
  | write (a : EngineRun)
  /-- `close` refuses new work. -/
  | shut
  /-- `close` takes the sender. -/
  | disconnect

section Machine

variable {β : Type} (lib : Libraries β) (host : Host)

/-- One event. -/
def Ledger.step (s : Ledger β) : Event β → Ledger β
  | .build r => { s with hub := s.hub.step lib host (.build r) }
  | .ensureOpen id =>
    if id ∈ (ticketsOf s.hub.built).map Ticket.id ∧ id ∉ s.admitted ++ s.entered ++ s.dropped then
      if s.closed then { s with dropped := s.dropped ++ [id] }
      else { s with admitted := s.admitted ++ [id] }
    else s
  | .enter id =>
    if id ∈ s.admitted then
      { s with
        admitted := s.admitted.erase id
        entered := s.entered ++ [id]
        counters := { s.counters with queued := s.counters.queued + 1 } }
    else s
  | .send id =>
    if id ∈ s.entered then
      if s.sender then
        match s.hub.built.findIdx? fun j => j.ticket.id == id with
        | some i =>
          { s with
            hub := s.hub.step lib host (.send i)
            entered := s.entered.erase id
            uncounted := s.uncounted ++ [id]
            sent := s.sent ++ ticketsOf s.hub.built[i]?.toList }
        | none => s
      else
        { s with
          entered := s.entered.erase id
          dropped := s.dropped ++ [id]
          counters := { s.counters with
            queued := s.counters.queued - 1, submitFailed := s.counters.submitFailed + 1 } }
    else s
  | .count id =>
    if id ∈ s.uncounted then
      { s with
        uncounted := s.uncounted.erase id
        counters := { s.counters with accepted := s.counters.accepted + 1 } }
    else s
  | .write a =>
    let hub := s.hub.writerStep lib host a
    -- What the step answered passed through `resolve`, one after another.
    let replies := (hub.answers.map Answer.reply).drop s.hub.answers.length
    { s with hub := hub, counters := replies.foldl Counters.resolve s.counters }
  | .shut => { s with closed := true }
  | .disconnect => if s.closed then { s with sender := false } else s

/-- One event after another. -/
def Ledger.run (s : Ledger β) (events : List (Event β)) : Ledger β :=
  events.foldl (Ledger.step lib host) s

end Machine

/-- The books of a hub that has just been opened on `db`. -/
def fresh {β : Type} (live : Live) (db : Store) : Ledger β where
  hub := opened live db
  counters := ⟨0, 0, 0, 0, 0, 0, 0⟩
  closed := false
  sender := true
  admitted := []
  entered := []
  uncounted := []
  dropped := []
  sent := []

/-! ## The books -/

/-- The counter of an outcome. -/
def Counters.of (c : Counters) : Status → Nat
  | .committed => c.committed
  | .refused => c.refused
  | .failed => c.failed

/-- How many answers have a status. -/
def tally (replies : List Reply) (status : Status) : Nat :=
  replies.countP fun r => r.status = status

/-- Replies of a status in two lists. -/
theorem tally_append (rs rs' : List Reply) (status : Status) :
    tally (rs ++ rs') status = tally rs status + tally rs' status := List.countP_append

/-- Every answer has one status. -/
theorem tally_total (rs : List Reply) :
    tally rs .committed + tally rs .refused + tally rs .failed = rs.length := by
  induction rs with
  | nil => rfl
  | cons r rest ih =>
    have hcons : ∀ status, tally (r :: rest) status =
        tally rest status + if r.status = status then 1 else 0 := by
      intro status
      simp only [tally, List.countP_cons, decide_eq_true_eq]
    rw [hcons, hcons, hcons, List.length_cons]
    cases r.status <;> simp <;> omega

/-- A reply counts under its status. -/
theorem Counters.resolve_of (c : Counters) (r : Reply) (status : Status) :
    (c.resolve r).of status = c.of status + tally [r] status := by
  unfold Counters.resolve tally
  cases hr : r.status <;> cases status <;> simp [Counters.of, hr]

/-- It takes one off the queue and is completed. -/
theorem Counters.resolve_rest (c : Counters) (r : Reply) :
    (c.resolve r).queued = c.queued - 1 ∧ (c.resolve r).completed = c.completed + 1 ∧
      (c.resolve r).accepted = c.accepted := by
  unfold Counters.resolve
  cases r.status <;> exact ⟨rfl, rfl, rfl⟩

/-- Several jobs settled. -/
theorem Counters.resolve_all (replies : List Reply) (c : Counters) :
    (replies.foldl Counters.resolve c).queued = c.queued - replies.length ∧
    (replies.foldl Counters.resolve c).completed = c.completed + replies.length ∧
    (replies.foldl Counters.resolve c).accepted = c.accepted ∧
    ∀ status, (replies.foldl Counters.resolve c).of status = c.of status + tally replies status := by
  induction replies generalizing c with
  | nil => exact ⟨(sub_zero _).symm, rfl, rfl, fun _ => rfl⟩
  | cons r rest ih =>
    obtain ⟨hqueued, hcompleted, haccepted, hof⟩ := ih (c.resolve r)
    obtain ⟨hq, hc, ha⟩ := c.resolve_rest r
    rw [List.foldl_cons, hqueued, hcompleted, haccepted, hq, hc, ha, List.length_cons]
    refine ⟨?_, ?_, rfl, ?_⟩
    · push_cast
      omega
    · omega
    · intro status
      rw [hof, c.resolve_of, show r :: rest = [r] ++ rest from rfl, tally_append]
      omega

variable {β : Type} {lib : Libraries β} {host : Host}

/-- The counters against what was sent and answered. -/
structure Books (s : Ledger β) : Prop where
  /-- What was sent went through rounds. -/
  taken : ∃ rounds drained, Taken s.hub s.sent rounds drained
  /-- No two jobs have one number. -/
  distinct : ((ticketsOf s.hub.built ++ s.sent).map Ticket.id).Nodup
  /-- Nor has the next one. -/
  fresh : ∀ t ∈ ticketsOf s.hub.built ++ s.sent, t.id < s.hub.nextId
  /-- What entered or was sent is queued or answered. -/
  queued : s.counters.queued + s.hub.answers.length = s.entered.length + s.sent.length
  /-- What was sent is accepted, or about to be. -/
  accepted : s.counters.accepted + s.uncounted.length = s.sent.length
  /-- What was answered is completed. -/
  completed : s.counters.completed = s.hub.answers.length
  /-- Each outcome is counted. -/
  outcomes : ∀ status, s.counters.of status = tally (s.hub.answers.map Answer.reply) status

/-- The job a caller builds is new. -/
theorem Books.build {s : Ledger β} (h : Books s) (r : Request β) :
    Books (s.step lib host (.build r)) := by
  unfold Ledger.step State.step
  dsimp only
  split
  · obtain ⟨rounds, drained, htaken⟩ := h.taken
    have hid : (r.job s.hub.nextId s.hub.generation).ticket.id = s.hub.nextId := by
      cases r <;> rfl
    have hperm : (ticketsOf (s.hub.built ++ [r.job s.hub.nextId s.hub.generation]) ++ s.sent).Perm
        ((r.job s.hub.nextId s.hub.generation).ticket :: (ticketsOf s.hub.built ++ s.sent)) := by
      rw [ticketsOf, List.map_append, List.append_assoc]
      exact List.perm_middle
    refine ⟨⟨rounds, drained, ?_⟩, ?_, ?_, h.queued, h.accepted, h.completed, h.outcomes⟩
    · exact ⟨htaken.taken, htaken.answered, htaken.orderly, htaken.underway, htaken.telemetry,
        htaken.solo, htaken.replacements⟩
    · rw [(hperm.map Ticket.id).nodup_iff, List.map_cons, List.nodup_cons, hid]
      refine ⟨?_, h.distinct⟩
      intro hmem
      obtain ⟨t, ht, heq⟩ := List.mem_map.mp hmem
      have hlt := h.fresh t ht
      omega
    · intro t ht
      rcases List.mem_cons.mp (hperm.mem_iff.mp ht) with rfl | ht
      · rw [hid]
        exact Nat.lt_succ_self _
      · exact Nat.lt_succ_of_lt (h.fresh t ht)
  · exact h

/-- A job that is sent moves from one list to the other. -/
theorem Books.send {s : Ledger β} (h : Books s) (id : Nat) : Books (s.step lib host (.send id)) := by
  unfold Ledger.step
  dsimp only
  split
  · rename_i hentered
    have hlength := List.length_erase_of_mem hentered
    have hpos := List.length_pos_of_mem hentered
    have hqueued := h.queued
    split
    · split
      · rename_i i hi
        obtain ⟨hlt, -⟩ := List.findIdx?_eq_some_iff_getElem.mp hi
        obtain ⟨rounds, drained, htaken⟩ := h.taken
        have hj : s.hub.built[i]? = some s.hub.built[i] := List.getElem?_eq_getElem hlt
        have hperm : (ticketsOf (s.hub.built.eraseIdx i) ++
            (s.sent ++ ticketsOf s.hub.built[i]?.toList)).Perm (ticketsOf s.hub.built ++ s.sent) := by
          rw [hj, ← List.append_assoc]
          refine List.perm_append_comm.trans ?_
          rw [← List.append_assoc]
          refine List.Perm.append_right _ ?_
          have herase := List.getElem_cons_eraseIdx_perm hlt
          exact herase.map Job.ticket
        have hbuilt : (s.hub.step lib host (.send i)).built = s.hub.built.eraseIdx i ∧
            (s.hub.step lib host (.send i)).nextId = s.hub.nextId ∧
            (s.hub.step lib host (.send i)).answers = s.hub.answers := by
          simp only [State.step, hj]
          exact ⟨trivial, trivial, trivial⟩
        obtain ⟨hbuilt, hnext, hanswers⟩ := hbuilt
        have haccepted := h.accepted
        have hsent : (s.sent ++ ticketsOf s.hub.built[i]?.toList).length = s.sent.length + 1 := by
          rw [hj, List.length_append]
          rfl
        refine ⟨⟨rounds, drained, ?_⟩, ?_, ?_, ?_, ?_, ?_, ?_⟩
        · rw [hj]
          exact htaken.send lib host i hj
        · dsimp only
          rw [hbuilt, (hperm.map Ticket.id).nodup_iff]
          exact h.distinct
        · dsimp only
          rw [hbuilt, hnext]
          intro t ht
          exact h.fresh t (hperm.mem_iff.mp ht)
        · dsimp only
          rw [hanswers, hsent, hlength]
          omega
        · dsimp only
          rw [hsent, List.length_append, List.length_singleton]
          omega
        · dsimp only
          rw [hanswers]
          exact h.completed
        · dsimp only
          rw [hanswers]
          exact h.outcomes
      · exact h
    · refine ⟨h.taken, h.distinct, h.fresh, ?_, h.accepted, h.completed, h.outcomes⟩
      dsimp only
      rw [hlength]
      omega
  · exact h

/-- What the writer answers it counts. -/
theorem Books.write {s : Ledger β} (h : Books s) (a : EngineRun) :
    Books (s.step lib host (.write a)) := by
  obtain ⟨rounds, drained, htaken⟩ := h.taken
  obtain ⟨htaken', hgoes⟩ := @Taken.writerStep _ host _ _ _ lib s.hub htaken a
  have hsame : (s.hub.writerStep lib host a).built = s.hub.built ∧
      (s.hub.writerStep lib host a).nextId = s.hub.nextId ∧
      s.hub.answers.map Answer.reply <+: (s.hub.writerStep lib host a).answers.map Answer.reply := by
    rcases hgoes with ⟨-, heq⟩ | hgoes
    · rw [heq]
      exact ⟨rfl, rfl, List.prefix_rfl⟩
    · exact ⟨hgoes.built, hgoes.nextId, hgoes.answers⟩
  obtain ⟨hbuilt, hnext, late, hlate⟩ := hsame
  have hdrop : ((s.hub.writerStep lib host a).answers.map Answer.reply).drop s.hub.answers.length =
      late := by
    have hlength : (s.hub.answers.map Answer.reply).length = s.hub.answers.length :=
      List.length_map Answer.reply
    rw [← hlate, ← hlength]
    exact List.drop_left
  have hcount : (s.hub.writerStep lib host a).answers.length =
      s.hub.answers.length + late.length := by
    have hlength := congrArg List.length hlate
    rw [List.length_append, List.length_map, List.length_map] at hlength
    exact hlength.symm
  obtain ⟨hqueued, hcompleted, haccepted, hof⟩ := s.counters.resolve_all late
  unfold Ledger.step
  dsimp only
  rw [hdrop]
  refine ⟨htaken', ?_, ?_, ?_, ?_, ?_, ?_⟩
  · dsimp only
    rw [hbuilt]
    exact h.distinct
  · dsimp only
    rw [hbuilt, hnext]
    exact h.fresh
  · dsimp only
    have hbefore := h.queued
    rw [hqueued, hcount]
    push_cast
    omega
  · dsimp only
    rw [haccepted]
    exact h.accepted
  · dsimp only
    rw [hcompleted, hcount, h.completed]
  · intro status
    dsimp only
    rw [hof, h.outcomes, ← hlate, tally_append]

/-- Every event keeps the books. -/
theorem Books.step {s : Ledger β} (h : Books s) (e : Event β) : Books (s.step lib host e) := by
  cases e with
  | build r => exact h.build r
  | send id => exact h.send id
  | write a => exact h.write a
  | ensureOpen id =>
    unfold Ledger.step
    dsimp only
    split
    · split
      · exact ⟨h.taken, h.distinct, h.fresh, h.queued, h.accepted, h.completed, h.outcomes⟩
      · exact ⟨h.taken, h.distinct, h.fresh, h.queued, h.accepted, h.completed, h.outcomes⟩
    · exact h
  | enter id =>
    unfold Ledger.step
    dsimp only
    split
    · refine ⟨h.taken, h.distinct, h.fresh, ?_, h.accepted, h.completed, h.outcomes⟩
      have hqueued := h.queued
      dsimp only
      rw [List.length_append, List.length_singleton]
      push_cast
      omega
    · exact h
  | count id =>
    unfold Ledger.step
    dsimp only
    split
    · rename_i hmem
      refine ⟨h.taken, h.distinct, h.fresh, h.queued, ?_, h.completed, h.outcomes⟩
      have haccepted := h.accepted
      have hpos := List.length_pos_of_mem hmem
      dsimp only
      rw [List.length_erase_of_mem hmem]
      omega
    · exact h
  | shut => exact ⟨h.taken, h.distinct, h.fresh, h.queued, h.accepted, h.completed, h.outcomes⟩
  | disconnect =>
    unfold Ledger.step
    dsimp only
    split
    · exact ⟨h.taken, h.distinct, h.fresh, h.queued, h.accepted, h.completed, h.outcomes⟩
    · exact h

/-- A new hub's books. -/
theorem fresh_books (live : Live) (db : Store) : Books (fresh live db : Ledger β) where
  taken := ⟨[], [], opened_taken live db⟩
  distinct := List.nodup_nil
  fresh := nofun
  queued := rfl
  accepted := rfl
  completed := rfl
  outcomes status := by
    cases status <;> rfl

/-- The books are right in every run. -/
theorem Books.run {s : Ledger β} (h : Books s) (events : List (Event β)) :
    Books (s.run lib host events) := by
  induction events generalizing s with
  | nil => exact h
  | cons e rest ih => exact ih (h.step e)

/-! ## The writer comes to rest -/

/-- Whether the writer takes a step. -/
def Event.writes : Event β → Nat
  | .write _ => 1
  | _ => 0

/-- Whether a job is sent. -/
def Event.sends : Event β → Nat
  | .send _ => 1
  | _ => 0

/-- What an event does to the hub: nothing, or one step of the hub's own. -/
theorem step_hub (s : Ledger β) (e : Event β) :
    (e.writes = 0 ∧ (s.step lib host e).hub = s.hub) ∨
      (∃ r, e = .build r ∧ (s.step lib host e).hub = s.hub.step lib host (.build r)) ∨
      (∃ id i, e = .send id ∧ s.sender = true ∧
        (s.step lib host e).hub = s.hub.step lib host (.send i)) ∨
      ∃ a, e = .write a ∧ (s.step lib host e).hub = s.hub.writerStep lib host a := by
  cases e with
  | build r => exact .inr (.inl ⟨r, rfl, rfl⟩)
  | send id =>
    unfold Ledger.step
    dsimp only
    split
    · split
      · rename_i hsender
        split
        · exact .inr (.inr (.inl ⟨id, _, rfl, hsender, rfl⟩))
        · exact .inl ⟨rfl, rfl⟩
      · exact .inl ⟨rfl, rfl⟩
    · exact .inl ⟨rfl, rfl⟩
  | write a => exact .inr (.inr (.inr ⟨a, rfl, rfl⟩))
  | ensureOpen id =>
    unfold Ledger.step
    dsimp only
    split
    · split <;> exact .inl ⟨rfl, rfl⟩
    · exact .inl ⟨rfl, rfl⟩
  | enter id | count id | disconnect =>
    unfold Ledger.step
    dsimp only
    split <;> exact .inl ⟨rfl, rfl⟩
  | shut => exact .inl ⟨rfl, rfl⟩

/-- A step of the writer lightens its load, a job that is sent adds to it. -/
theorem Books.load_step {s : Ledger β} (h : Books s) (hbusy : ¬ Waits s.hub) (e : Event β) :
    load (s.step lib host e).hub + e.writes ≤ load s.hub + 3 * e.sends := by
  rcases step_hub s e with ⟨hwrites, hhub⟩ | ⟨r, rfl, hhub⟩ | ⟨id, i, rfl, -, hhub⟩ | ⟨a, rfl, hhub⟩
  · rw [hhub, hwrites]
    exact Nat.le_add_right _ _
  · rw [hhub]
    unfold State.step
    dsimp only
    split <;> exact Nat.le_refl _
  · rw [hhub]
    unfold State.step
    dsimp only
    split
    · change 3 * (s.hub.queue ++ [_]).length + phaseLoad s.hub.phase + 0 ≤ load s.hub + 3 * 1
      rw [List.length_append, load, List.length_singleton]
      omega
    · exact Nat.le_add_right _ 3
  · obtain ⟨rounds, drained, htaken⟩ := h.taken
    rw [hhub]
    rcases (@Taken.writerStep _ host _ _ _ lib s.hub htaken a).2 with ⟨hwaits, -⟩ | hgoes
    · exact absurd hwaits hbusy
    · exact hgoes.load

/-- With enough steps of the writer for all that is sent, there is a moment at
which it has nothing left to do. -/
theorem Books.rests {s : Ledger β} (h : Books s) (more : List (Event β))
    (hsteps : load s.hub + 3 * (more.map Event.sends).sum ≤ (more.map Event.writes).sum) :
    ∃ before after, more = before ++ after ∧ Waits (s.run lib host before).hub := by
  induction more generalizing s with
  | nil =>
    have hload : load s.hub = 0 := by simpa using hsteps
    exact ⟨[], [], rfl, waits_of_load hload⟩
  | cons e rest ih =>
    by_cases hwaits : Waits s.hub
    · exact ⟨[], e :: rest, rfl, hwaits⟩
    · have hload := @Books.load_step _ lib host s h hwaits e
      rw [List.map_cons, List.map_cons, List.sum_cons, List.sum_cons] at hsteps
      obtain ⟨before, after, hsplit, hrest⟩ := ih (@Books.step _ lib host s h e) (by omega)
      exact ⟨e :: before, after, by rw [hsplit, List.cons_append], hrest⟩

/-! ## What the counters say -/

/-- The answers, by ticket. -/
def answeredTickets (s : Ledger β) : List Ticket := s.hub.answers.map fun a => a.reply.ticket

/-- No submission is under way, and the writer has answered everything. -/
def AtRest (s : Ledger β) : Prop := s.entered = [] ∧ s.uncounted = [] ∧ Waits s.hub

/-- What holds of jobs and counters between any two steps. -/
structure Accounted (lib : Libraries β) (host : Host) (s : Ledger β) : Prop where
  /-- No two jobs that were sent are the same. -/
  distinct : (s.sent.map Ticket.id).Nodup
  /-- Each is answered, once, or still with the writer. -/
  once : (answeredTickets s ++ waiting s.hub).Perm s.sent
  /-- It does not stay there while the writer goes on, unless callers go on sending. -/
  answered : ∀ more : List (Event β),
    load s.hub + 3 * (more.map Event.sends).sum ≤ (more.map Event.writes).sum →
    ∃ before after, more = before ++ after ∧
      (answeredTickets (s.run lib host before)).Perm (s.run lib host before).sent
  /-- Each answer is counted under its status, and once as completed. -/
  counted : (∀ status, s.counters.of status = tally (s.hub.answers.map Answer.reply) status) ∧
    s.counters.completed = s.hub.answers.length ∧
    s.counters.completed = s.counters.committed + s.counters.refused + s.counters.failed
  /-- Jobs are taken up, run and answered in rounds that follow the order in
  which they were sent. Each round is orderly: no group is larger than its
  capacity, and only the refusals of stale telemetry of a group, and of what was
  queued behind a replacement that runs, come before the rest of their round. -/
  order : ∃ rounds drained, Taken s.hub s.sent rounds drained
  /-- The queue is never counted below what it holds. -/
  queued : 0 ≤ s.counters.queued
  /-- At rest the counters agree. -/
  settled : AtRest s → s.counters.accepted = s.counters.completed ∧
    s.counters.completed = s.counters.committed + s.counters.refused + s.counters.failed ∧
    s.counters.queued = 0

/-- Every job is answered or waits. -/
theorem Books.answered_perm {s : Ledger β} (h : Books s) :
    (answeredTickets s ++ waiting s.hub).Perm s.sent := by
  obtain ⟨rounds, drained, htaken⟩ := h.taken
  exact htaken.perm

/-- Once the writer waits, everything that was sent is answered. -/
theorem Books.all_answered {s : Ledger β} (h : Books s) (hwaits : Waits s.hub) :
    (answeredTickets s).Perm s.sent := by
  have hperm := h.answered_perm
  have hnone : waiting s.hub = [] := by
    rw [waiting, hwaits.1, hwaits.2]
    rfl
  rwa [hnone, List.append_nil] at hperm

/-- What is completed was committed, refused or failed. -/
theorem Books.completed_eq {s : Ledger β} (h : Books s) :
    s.counters.completed = s.counters.committed + s.counters.refused + s.counters.failed := by
  have hcommitted := h.outcomes .committed
  have hrefused := h.outcomes .refused
  have hfailed := h.outcomes .failed
  have htotal := tally_total (s.hub.answers.map Answer.reply)
  rw [← hcommitted, ← hrefused, ← hfailed, List.length_map] at htotal
  rw [h.completed]
  exact htotal.symm

/-- So it is all accounted for. -/
theorem Books.accounted {s : Ledger β} (h : Books s) : Accounted lib host s where
  distinct := by
    have hdistinct := h.distinct
    rw [List.map_append] at hdistinct
    exact (List.nodup_append.mp hdistinct).2.1
  once := h.answered_perm
  answered := by
    intro more hsteps
    obtain ⟨before, after, hsplit, hwaits⟩ := h.rests more hsteps
    exact ⟨before, after, hsplit, (h.run before).all_answered hwaits⟩
  counted := ⟨h.outcomes, h.completed, h.completed_eq⟩
  order := h.taken
  queued := by
    have hlength := h.answered_perm.length_eq
    have hqueued := h.queued
    rw [List.length_append, answeredTickets, List.length_map] at hlength
    omega
  settled := by
    rintro ⟨hentered, huncounted, hwaits⟩
    have hlength := (h.all_answered hwaits).length_eq
    have hqueued := h.queued
    have haccepted := h.accepted
    have hcompleted := h.completed
    rw [answeredTickets, List.length_map] at hlength
    rw [hentered, List.length_nil] at hqueued
    rw [huncounted, List.length_nil] at haccepted
    refine ⟨?_, h.completed_eq, ?_⟩
    · omega
    · omega

/-- Whatever is submitted, replaced and closed in whatever order, and whatever
the engine answers. -/
theorem writer_accounted (lib : Libraries β) (host : Host) (live : Live) (db : Store)
    (events : List (Event β)) : Accounted lib host ((fresh live db).run lib host events) :=
  ((fresh_books live db).run events).accounted

/-! ## Refusals and answers come early -/

/-- The steps of one submission up to its sending. -/
def submission (id : Nat) : List (Event Wrapped) := [.ensureOpen id, .enter id, .send id]

/-- A restore and a telemetry write behind it, as far as the refusal of the write. -/
def drainedWrite : List (Event Wrapped) :=
  [.build (.replace (.restore (.tar []))), .build (.batch (.touchSeen 1 5))] ++ submission 0 ++
    submission 1 ++ [.write willing, .write willing]

/-- Telemetry built before a restore and sent after telemetry built behind it. -/
def staleWrite : List (Event Wrapped) :=
  [.build (.replace (.restore (.tar []))), .build (.batch (.touchSeen 1 5))] ++ submission 0 ++
    [.write willing, .write willing, .write willing, .build (.batch (.touchSeen 1 6))] ++
    submission 2 ++ submission 1 ++ [.write willing, .write willing, .write willing]

/-- A telemetry write that is answered before its sender has counted it. -/
def uncountedWrite : List (Event Wrapped) :=
  [.build (.batch (.touchSeen 1 5))] ++ submission 0 ++ [.write willing, .write willing]

/-- A fresh hub in memory after some events. -/
def hubAfter (events : List (Event Wrapped)) : Ledger Wrapped :=
  (fresh (.memory (Store.fresh "romi" 0)) (Store.fresh "romi" 0)).run wrapping plainHost events

/-- Two of the runs do not answer in the order in which the jobs were sent; in
the third no job is pending, and one was answered that is not counted as accepted. -/
theorem refusals_and_answers_early :
    (¬ answeredTickets (hubAfter drainedWrite) <+: (hubAfter drainedWrite).sent ∧
      ¬ answeredTickets (hubAfter staleWrite) <+: (hubAfter staleWrite).sent) ∧
      answeredTickets (hubAfter uncountedWrite) = (hubAfter uncountedWrite).sent ∧
      waiting (hubAfter uncountedWrite).hub = [] ∧
      (hubAfter uncountedWrite).counters.accepted = 0 ∧
      (hubAfter uncountedWrite).counters.completed = 1 := by
  decide +kernel

end Romi.WriterAccounting
