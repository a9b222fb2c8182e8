import Romi.WriterQueue

/-!
# The writer takes up what it was sent in order

The writer goes through the queue in rounds. A round is a job on its own, a
group of at most `batchCapacity` telemetry jobs, or a replacement with all that
was queued behind it. Rounds follow the order in which the jobs were sent, and
no round begins before the last one has been answered. Inside a round only
refusals are early: a group first refuses what an earlier replacement made
stale, and a replacement refuses what it found queued before it runs.
-/

namespace Romi.WriterTurns

open BackupArchive CachedTransactions GroupCommit LiveDatabase StoreGuard StoreOperations StoreSchema
  WriterBatch WriterQueue

/-! ## Rounds -/

/-- Whether a ticket was accepted against this generation. -/
def stands (generation : Nat) (t : Ticket) : Bool := t.generation == generation

/-- What the writer takes up at once and what comes of it. -/
inductive Round
  /-- `run_batch`: the generation it met, the replies to the jobs that were not
  stale, the bodies that ran in one transaction and those that ran alone. -/
  | group (generation : Nat) (tickets : List Ticket) (live : List Reply)
    (first replayed : List Ticket)
  /-- A job on its own. -/
  | alone (reply : Reply)
  /-- A replacement that ran, and what was queued behind it. -/
  | replaced (reply : Reply) (drained : List Ticket)

namespace Round

/-- What the round took from the queue. -/
def taken : Round → List Ticket
  | group _ tickets _ _ _ => tickets
  | alone reply => [reply.ticket]
  | replaced reply drained => reply.ticket :: drained

/-- The answers it gave, in order. -/
def answered : Round → List Reply
  | group generation tickets live _ _ =>
    (tickets.filter fun t => !stands generation t).map (refusal superseded) ++ live
  | alone reply => [reply]
  | replaced reply drained => drained.map (refusal superseded) ++ [reply]

/-- The jobs whose bodies ran, in order; a replayed one is there twice. -/
def executed : Round → List Ticket
  | group _ _ _ first replayed => first ++ replayed
  | alone reply => if reply.status = .refused then [] else [reply.ticket]
  | replaced reply _ => [reply.ticket]

/-- What else is to be said of a round. -/
inductive Orderly : Round → Prop
  /-- A group holds telemetry only and no more than there is room for; it runs
  and answers what is not stale in the order it was taken. -/
  | group {generation : Nat} {tickets : List Ticket} {live : List Reply} {first replayed : List Ticket}
    (size : tickets.length ≤ batchCapacity) (kind : ∀ t ∈ tickets, t.kind = .batch)
    (live_eq : live.map Reply.ticket = tickets.filter (stands generation))
    (first_starts : first <+: tickets.filter (stands generation))
    (replayed_sublist : replayed.Sublist (tickets.filter (stands generation)))
    (refused : ∀ r ∈ live, r.status = .refused → first = [] ∧ replayed = []) :
    Orderly (group generation tickets live first replayed)
  /-- Telemetry never comes alone. -/
  | alone {reply : Reply} (kind : reply.ticket.kind ≠ .batch)
    (replace : reply.ticket.kind = .replace → reply.status = .refused) : Orderly (alone reply)
  /-- A replacement that ran was not refused. -/
  | replaced {reply : Reply} {drained : List Ticket} (kind : reply.ticket.kind = .replace)
    (status : reply.status ≠ .refused) : Orderly (replaced reply drained)

/-- A round answers what it took, each job once. -/
theorem answered_perm {r : Round} (h : r.Orderly) : (r.answered.map Reply.ticket).Perm r.taken := by
  cases h with
  | @group generation tickets live _ _ _ _ live_eq =>
    have hstale : ((tickets.filter fun t => !stands generation t).map (refusal superseded)).map
        Reply.ticket = tickets.filter fun t => !stands generation t := by
      rw [List.map_map]
      exact List.map_id _
    simp only [answered, taken, List.map_append]
    rw [hstale, live_eq]
    exact List.perm_append_comm.trans (List.filter_append_perm (stands generation) tickets)
  | alone => exact List.Perm.refl _
  | @replaced reply drained =>
    have hdrained : (drained.map (refusal superseded)).map Reply.ticket = drained := by
      rw [List.map_map]
      exact List.map_id _
    simp only [answered, taken, List.map_append, List.map_cons, List.map_nil]
    rw [hdrained]
    exact List.perm_append_comm

end Round

/-! ## The round under way -/

/-- The tickets of a list of jobs. -/
def ticketsOf {β : Type} (jobs : List (Job β)) : List Ticket := jobs.map Job.ticket

/-- What the writer has taken up and not answered. -/
def inHand {β : Type} : Phase β → List Ticket
  | .idle deferred => ticketsOf deferred.toList
  | .gathering group => group.map fun q => q.ticket .batch
  | .draining q => [q.ticket .replace]
  | .replaced ticket _ => [ticket]

/-- The replacement that ran and is not answered yet. -/
def ranUnanswered {β : Type} : Phase β → List Ticket
  | .replaced ticket _ => [ticket]
  | _ => []

/-- The round under way holds together. -/
def Underway {β : Type} : Phase β → List Ticket → Prop
  | .idle _, drained => drained = []
  | .gathering group, drained => drained = [] ∧ group.length ≤ batchCapacity
  | .draining _, _ => True
  | .replaced ticket _, _ => ticket.kind = .replace

/-- The jobs of a kind among those that ran. -/
def ofKind (kind : Kind) (ran : List Ticket) : List Ticket := ran.filter fun t => t.kind = kind

/-- What was sent, taken up, run and answered so far, when the writer has
already refused `drained` in the round under way. -/
structure Taken {β : Type} (s : State β) (sent : List Ticket) (rounds : List Round)
    (drained : List Ticket) : Prop where
  /-- What was sent was taken, is underway or is in the queue. -/
  taken : sent =
    rounds.flatMap Round.taken ++ (inHand s.phase ++ drained ++ ticketsOf s.queue)
  /-- The answers are those of the rounds, one after the other. -/
  answered : s.answers.map Answer.reply =
    rounds.flatMap Round.answered ++ drained.map (refusal superseded)
  /-- Each round is in order. -/
  orderly : ∀ r ∈ rounds, r.Orderly
  /-- What is underway fits the phase. -/
  underway : Underway s.phase drained
  /-- The telemetry that ran is that of the rounds. -/
  telemetry : s.history.telemetry.map (fun r => r.execution.id) =
    ofKind .batch (rounds.flatMap Round.executed)
  /-- So are the closures that ran. -/
  solo : s.history.solo.map (fun r => r.execution.id) = ofKind .solo (rounds.flatMap Round.executed)
  /-- So are the replacements. -/
  replacements : s.history.replacements =
    ofKind .replace (rounds.flatMap Round.executed) ++ ranUnanswered s.phase

/-! ## One round -/

section Rounds

variable {β : Type} {host : Host}

/-- What a group does, whatever it meets. -/
theorem runBatch_round (generation : Nat) (connected : Bool) (a : EngineAnswers)
    (replays : Ticket → EngineAnswers) (jobs : List BatchJob) (db : Store) (g : Guard)
    (hsize : jobs.length ≤ batchCapacity) (hkind : ∀ j ∈ jobs, j.id.kind = .batch) :
    ∃ live first replayed,
      (Round.group generation (jobs.map Task.id) live first replayed).Orderly ∧
      (runBatch generation connected a replays jobs db g).replies =
        (Round.group generation (jobs.map Task.id) live first replayed).answered ∧
      (runBatch generation connected a replays jobs db g).executions.map Execution.id =
        first ++ replayed := by
  have hids : (liveJobs generation jobs).map Task.id =
      (jobs.map Task.id).filter (stands generation) := by
    rw [liveJobs, List.filter_map]
    rfl
  have hstale : staleReplies generation jobs =
      ((jobs.map Task.id).filter fun t => !stands generation t).map (refusal superseded) := by
    rw [staleReplies, List.filter_map, List.map_map]
    rfl
  have hkinds : ∀ t ∈ jobs.map Task.id, t.kind = .batch := by
    intro t ht
    obtain ⟨j, hj, rfl⟩ := List.mem_map.mp ht
    exact hkind j hj
  have hlength : (jobs.map Task.id).length ≤ batchCapacity := by
    rw [List.length_map]
    exact hsize
  have hrefused : ∀ replies : List Reply, replies.map Reply.ticket =
      (jobs.map Task.id).filter (stands generation) →
      (Round.group generation (jobs.map Task.id) replies [] []).Orderly := fun replies h =>
    .group hlength hkinds h List.nil_prefix (List.nil_sublist _) fun _ _ _ => ⟨rfl, rfl⟩
  unfold runBatch
  dsimp only
  by_cases hlive : liveJobs generation jobs = []
  · rw [if_pos hlive]
    rw [hlive] at hids
    refine ⟨[], [], [], hrefused [] hids, ?_, rfl⟩
    rw [Round.answered, List.append_nil]
    exact hstale
  · rw [if_neg hlive]
    cases connected with
    | false =>
      rw [if_pos rfl]
      refine ⟨_, [], [], hrefused ((liveJobs generation jobs).map fun j =>
        refusal databaseClosed j.id) ?_, ?_, rfl⟩
      · rw [List.map_map]
        exact hids
      · rw [Round.answered, ← hstale]
        rfl
    | true =>
      rw [if_neg (show ¬ true = false from Bool.noConfusion)]
      obtain ⟨hreplies, first, replayed, hran, hfirst, hreplayed⟩ :=
        @runGroup_order _ _ _ _ Guard.load a.shared (fun t => (replays t).alone)
          (liveJobs generation jobs) db g
      generalize runGroup Guard.load a.shared (fun t => (replays t).alone)
        (liveJobs generation jobs) db g = o at hreplies hran
      rw [hids] at hreplies hfirst hreplayed
      refine ⟨o.replies.map WriterBatch.answered, first, replayed, ?_, ?_, hran⟩
      · refine .group hlength hkinds ?_ hfirst hreplayed ?_
        · rw [List.map_map]
          exact hreplies
        · intro r hr hstatus
          obtain ⟨⟨t, outcome⟩, -, rfl⟩ := List.mem_map.mp hr
          cases outcome with
          | error e => cases hstatus
          | ok p => cases hstatus
      · rw [Round.answered, ← hstale]
        rfl

/-- A step that did a whole round and nothing else. -/
structure Finishes (s s' : State β) (r : Round) : Prop where
  /-- The round is in order. -/
  orderly : r.Orderly
  /-- The phase is the same. -/
  phase : s'.phase = s.phase
  /-- So is the queue. -/
  queue : s'.queue = s.queue
  /-- So is the group that is built. -/
  built : s'.built = s.built
  /-- No ticket is given. -/
  nextId : s'.nextId = s.nextId
  /-- The answers gain those of the round. -/
  answers : s'.answers.map Answer.reply = s.answers.map Answer.reply ++ r.answered
  /-- The history gains the telemetry of the round. -/
  telemetry : s'.history.telemetry.map (fun r => r.execution.id) =
    s.history.telemetry.map (fun r => r.execution.id) ++ ofKind .batch r.executed
  /-- And its closures. -/
  solo : s'.history.solo.map (fun r => r.execution.id) =
    s.history.solo.map (fun r => r.execution.id) ++ ofKind .solo r.executed
  /-- No file is replaced. -/
  replacements : s'.history.replacements = s.history.replacements
  /-- And none was to be. -/
  replaces : ofKind .replace r.executed = []

/-- Of the jobs that run in a group all are telemetry. -/
theorem executed_kind {generation : Nat} {tickets : List Ticket} {live : List Reply}
    {first replayed : List Ticket}
    (h : (Round.group generation tickets live first replayed).Orderly) :
    ∀ t ∈ first ++ replayed, t.kind = .batch := by
  cases h with
  | group _ kind _ first_starts replayed_sublist =>
    intro t ht
    have hlive : t ∈ tickets.filter (stands generation) := by
      rcases List.mem_append.mp ht with ht | ht
      · exact first_starts.subset ht
      · exact replayed_sublist.subset ht
    exact kind t (List.mem_of_mem_filter hlive)

/-- The tickets of a kind in two lists. -/
theorem ofKind_append (kind : Kind) (ran ran' : List Ticket) :
    ofKind kind (ran ++ ran') = ofKind kind ran ++ ofKind kind ran' := List.filter_append ran ran'

/-- All of one kind are of that kind. -/
theorem ofKind_self {kind : Kind} {ran : List Ticket} (h : ∀ t ∈ ran, t.kind = kind) :
    ofKind kind ran = ran := List.filter_eq_self.mpr fun t ht => decide_eq_true (h t ht)

/-- And none is of another. -/
theorem ofKind_other {kind other : Kind} {ran : List Ticket} (h : ∀ t ∈ ran, t.kind = kind)
    (hne : kind ≠ other) : ofKind other ran = [] := by
  refine List.filter_eq_nil_iff.mpr ?_
  intro t ht
  rw [h t ht]
  simpa using hne

/-- Answers are added at the end. -/
theorem answerAll_replies (s : State β) (rs : List Reply) :
    (s.answerAll rs).answers.map Answer.reply = s.answers.map Answer.reply ++ rs := by
  simp only [State.answerAll, List.map_append, List.map_map]
  exact congrArg _ (List.map_id rs)

/-- `run_batch`. -/
theorem runGroup_finishes (s : State β) (a : EngineRun) {group : List (Queued Telemetry)}
    (hsize : group.length ≤ batchCapacity) :
    ∃ r, Finishes s (s.runGroup host a group) r ∧ r.taken = group.map fun q => q.ticket .batch := by
  have hids : (group.map (Queued.batchJob host a)).map Task.id =
      group.map fun q => q.ticket .batch := by
    rw [List.map_map]
    rfl
  have hlength : (group.map (Queued.batchJob host a)).length ≤ batchCapacity := by
    rw [List.length_map]
    exact hsize
  have hkind : ∀ j ∈ group.map (Queued.batchJob host a), j.id.kind = .batch := by
    intro j hj
    obtain ⟨q, -, rfl⟩ := List.mem_map.mp hj
    rfl
  unfold State.runGroup
  cases s.live.read with
  | none =>
    obtain ⟨live, first, replayed, horderly, hreplies, hran⟩ := runBatch_round s.generation false
      a.shared a.replays (group.map (Queued.batchJob host a)) Store.blank s.guard hlength hkind
    have hnone : first ++ replayed = [] := by
      rw [← hran]
      unfold runBatch
      dsimp only
      split <;> rfl
    have hexecuted : (Round.group s.generation ((group.map (Queued.batchJob host a)).map Task.id)
        live first replayed).executed = [] := hnone
    dsimp only
    refine ⟨_, ⟨horderly, rfl, rfl, rfl, rfl, ?_, ?_, ?_, rfl, ?_⟩, hids⟩
    · rw [answerAll_replies, hreplies]
    · rw [hexecuted]
      exact (List.append_nil _).symm
    · rw [hexecuted]
      exact (List.append_nil _).symm
    · rw [hexecuted]
      rfl
  | some db =>
    obtain ⟨live, first, replayed, horderly, hreplies, hran⟩ := runBatch_round s.generation true
      a.shared a.replays (group.map (Queued.batchJob host a)) db s.guard hlength hkind
    have hkinds := executed_kind horderly
    have hsolo : ofKind .solo (first ++ replayed) = [] := ofKind_other hkinds (by decide)
    have hreplace : ofKind .replace (first ++ replayed) = [] := ofKind_other hkinds (by decide)
    dsimp only
    generalize runBatch s.generation true a.shared a.replays _ db s.guard = turn at hreplies hran
    refine ⟨_, ⟨horderly, rfl, rfl, rfl, rfl, ?_, ?_, ?_, rfl, hreplace⟩, hids⟩
    · rw [answerAll_replies, hreplies]
    · rw [Round.executed, ofKind_self hkinds, ← hran]
      simp only [State.answerAll, List.map_append, List.map_map]
      rfl
    · rw [Round.executed, hsolo]
      exact (List.append_nil _).symm

/-- A job on its own that is refused. -/
theorem refused_finishes (s : State β) (text : String) {t : Ticket} (hkind : t.kind ≠ .batch) :
    Finishes s (s.answer (refusal text t)) (.alone (refusal text t)) where
  orderly := .alone hkind fun _ => rfl
  phase := rfl
  queue := rfl
  built := rfl
  nextId := rfl
  answers := answerAll_replies s [refusal text t]
  telemetry := (List.append_nil _).symm
  solo := (List.append_nil _).symm
  replacements := rfl
  replaces := rfl

/-- A reload changes the guard at most. -/
theorem reload_finishes {s s₁ : State β} {r : Round} {late : Reply} (reloads : Bool)
    (h : Finishes s (s₁.answer late) r) : Finishes s ((s₁.reload reloads).answer late) r := by
  unfold State.reload
  split
  · exact ⟨h.orderly, h.phase, h.queue, h.built, h.nextId, h.answers, h.telemetry, h.solo,
      h.replacements, h.replaces⟩
  · exact h

/-- `run_one` on a write. -/
theorem runSolo_finishes (s : State β) (a : EngineRun) (q : Queued Solo) :
    ∃ r, Finishes s (s.runSolo host a q) r ∧ r.taken = [q.ticket .solo] := by
  have hkind : (q.ticket .solo).kind ≠ .batch := show Kind.solo ≠ .batch by decide
  have hreplace : (q.ticket .solo).kind ≠ .replace := show Kind.solo ≠ .replace by decide
  unfold State.runSolo
  by_cases hgen : q.generation ≠ s.generation
  · rw [if_pos hgen]
    exact ⟨_, refused_finishes s superseded hkind, rfl⟩
  · rw [if_neg hgen]
    cases s.live.read with
    | none => exact ⟨_, refused_finishes s databaseClosed hkind, rfl⟩
    | some db =>
      dsimp only
      generalize (q.work.job host).body a.solo db s.guard = ran
      obtain ⟨r, db', g⟩ := ran
      have hran : ∀ status, status ≠ Status.refused →
          Finishes s (State.answer { s with
            live := s.live.write fun _ => db'
            guard := g
            history := { s.history with
              solo := s.history.solo ++ [Ran.mk s.epoch ⟨q.ticket .solo, db, s.guard, r, db'⟩]
              applied := s.history.applied ++ [⟨q.ticket .solo, db, s.guard, r, db'⟩] } }
            ⟨q.ticket .solo, r, status⟩) (.alone ⟨q.ticket .solo, r, status⟩) := by
        intro status hstatus
        have hexecuted : (Round.alone ⟨q.ticket .solo, r, status⟩).executed = [q.ticket .solo] :=
          if_neg hstatus
        refine ⟨.alone hkind fun h => absurd h hreplace, rfl, rfl, rfl, rfl,
          answerAll_replies s [⟨q.ticket .solo, r, status⟩], ?_, ?_, rfl, ?_⟩
        · rw [hexecuted]
          exact (List.append_nil _).symm
        · rw [hexecuted]
          simp only [State.answer, List.map_append]
          rfl
        · rw [hexecuted]
          rfl
      cases r with
      | ok p => exact ⟨_, hran .committed (by decide), rfl⟩
      | error e => exact ⟨_, reload_finishes a.reloads (hran .failed (by decide)), rfl⟩

/-- `run_one` on a checkpoint. -/
theorem runMaintenance_finishes (s : State β) (a : EngineRun) (q : Queued Unit) :
    ∃ r, Finishes s (s.runMaintenance a q) r ∧ r.taken = [q.ticket .maintenance] := by
  have hkind : (q.ticket .maintenance).kind ≠ .batch := show Kind.maintenance ≠ .batch by decide
  have hreplace : (q.ticket .maintenance).kind ≠ .replace := show Kind.maintenance ≠ .replace by decide
  unfold State.runMaintenance
  by_cases hgen : q.generation ≠ s.generation
  · rw [if_pos hgen]
    exact ⟨_, refused_finishes s superseded hkind, rfl⟩
  · rw [if_neg hgen]
    cases s.live.read with
    | none => exact ⟨_, refused_finishes s databaseClosed hkind, rfl⟩
    | some db =>
      dsimp only
      generalize planMaintenance a.reusable s.live = planned
      obtain ⟨r, live⟩ := planned
      have hran : ∀ outcome status, status ≠ Status.refused →
          Finishes s (State.answer { s with
            live := live
            history := { s.history with maintenance := s.history.maintenance ++
              [Planned.mk s.epoch (q.ticket .maintenance)] } }
            ⟨q.ticket .maintenance, outcome, status⟩)
            (.alone ⟨q.ticket .maintenance, outcome, status⟩) := by
        intro outcome status hstatus
        have hexecuted : (Round.alone ⟨q.ticket .maintenance, outcome, status⟩).executed =
            [q.ticket .maintenance] := if_neg hstatus
        refine ⟨.alone hkind fun h => absurd h hreplace, rfl, rfl, rfl, rfl,
          answerAll_replies s [⟨q.ticket .maintenance, outcome, status⟩], ?_, ?_, rfl, ?_⟩
        · rw [hexecuted]
          exact (List.append_nil _).symm
        · rw [hexecuted]
          exact (List.append_nil _).symm
        · rw [hexecuted]
          rfl
      cases r with
      | ok rewrite => exact ⟨_, hran (.ok (.flag rewrite)) .committed (by decide), rfl⟩
      | error e => exact ⟨_, reload_finishes a.reloads (hran (.error e) .failed (by decide)), rfl⟩

/-! ## Steps of the writer -/

/-- What the writer still has to do before it is done with a phase. -/
def phaseLoad : Phase β → Nat
  | .idle none => 0
  | .idle (some _) => 3
  | .gathering _ => 1
  | .draining _ => 2
  | .replaced _ _ => 1

/-- It bounds the steps the writer takes until it waits for a job. -/
def load (s : State β) : Nat := 3 * s.queue.length + phaseLoad s.phase

/-- A step that brings the writer closer to waiting and answers some jobs. -/
structure Goes (s s' : State β) : Prop where
  /-- The group that is built is the same. -/
  built : s'.built = s.built
  /-- No ticket is given. -/
  nextId : s'.nextId = s.nextId
  /-- No answer is taken back. -/
  answers : s.answers.map Answer.reply <+: s'.answers.map Answer.reply
  /-- There is less to do. -/
  load : load s' < load s

variable {sent : List Ticket} {rounds : List Round} {drained : List Ticket}

/-- A round that finishes goes on. -/
theorem Finishes.goes {s s₁ s' : State β} {r : Round} (h : Finishes s₁ s' r)
    (hbuilt : s₁.built = s.built) (hnext : s₁.nextId = s.nextId) (hanswers : s₁.answers = s.answers)
    (hload : load s₁ < load s) : Goes s s' where
  built := h.built.trans hbuilt
  nextId := h.nextId.trans hnext
  answers := by
    rw [h.answers, hanswers]
    exact List.prefix_append _ _
  load := by
    rwa [load, h.queue, h.phase]

/-- A round was done between two jobs. -/
theorem Taken.finish {s s₁ s' : State β} {r : Round} (h : Taken s sent rounds [])
    (hround : Finishes s₁ s' r)
    (hjobs : inHand s.phase ++ ticketsOf s.queue =
      r.taken ++ inHand s₁.phase ++ ticketsOf s₁.queue)
    (hanswers : s₁.answers = s.answers) (hhistory : s₁.history = s.history)
    (hidle : ∃ deferred, s₁.phase = .idle deferred) (hran : ranUnanswered s.phase = []) :
    Taken s' sent (rounds ++ [r]) [] := by
  obtain ⟨deferred, hidle⟩ := hidle
  have hexecuted : (rounds ++ [r]).flatMap Round.executed =
      rounds.flatMap Round.executed ++ r.executed := by
    rw [List.flatMap_append, List.flatMap_singleton]
  refine ⟨?_, ?_, ?_, ?_, ?_, ?_, ?_⟩
  · rw [h.taken, List.append_nil, List.append_nil, hjobs, hround.phase, hround.queue,
      List.flatMap_append, List.flatMap_singleton]
    simp only [List.append_assoc]
  · rw [hround.answers, hanswers, h.answered, List.flatMap_append, List.flatMap_singleton]
    simp only [List.map_nil, List.append_nil]
  · intro x hx
    rcases List.mem_append.mp hx with hx | hx
    · exact h.orderly x hx
    · rw [List.mem_singleton.mp hx]
      exact hround.orderly
  · rw [hround.phase, hidle]
    rfl
  · rw [hround.telemetry, hhistory, h.telemetry, hexecuted, ofKind_append]
  · rw [hround.solo, hhistory, h.solo, hexecuted, ofKind_append]
  · rw [hround.replacements, hhistory, h.replacements, hexecuted, ofKind_append, hround.replaces,
      List.append_nil, hran, hround.phase, hidle]
    rfl

/-- Jobs only went from the queue to the writer's hands. -/
theorem Taken.move {s s' : State β} (h : Taken s sent rounds drained)
    (hjobs : inHand s'.phase ++ drained ++ ticketsOf s'.queue =
      inHand s.phase ++ drained ++ ticketsOf s.queue)
    (hanswers : s'.answers = s.answers) (hhistory : s'.history = s.history)
    (hunderway : Underway s'.phase drained)
    (hran : ranUnanswered s'.phase = ranUnanswered s.phase) : Taken s' sent rounds drained := by
  refine ⟨?_, ?_, h.orderly, hunderway, ?_, ?_, ?_⟩
  · rw [h.taken, hjobs]
  · rw [hanswers, h.answered]
  · rw [hhistory, h.telemetry]
  · rw [hhistory, h.solo]
  · rw [hhistory, h.replacements, hran]

/-- The next job, which came from the queue or ended the last group. -/
theorem Taken.dispatch {s : State β} (h : Taken s sent rounds []) (a : EngineRun) (s₁ : State β)
    {j : Job β}    (hjobs : inHand s.phase ++ ticketsOf s.queue = j.ticket :: ticketsOf s₁.queue)
    (hanswers : s₁.answers = s.answers) (hhistory : s₁.history = s.history)
    (hidle : s₁.phase = .idle none) (hran : ranUnanswered s.phase = [])
    (hbuilt : s₁.built = s.built) (hnext : s₁.nextId = s.nextId)
    (hload : load s = 3 * s₁.queue.length + 3) :
    (∃ rounds', Taken (s₁.dispatch host a j) sent rounds' []) ∧ Goes s (s₁.dispatch host a j) := by
  have hsame : s.answers.map Answer.reply <+: s₁.answers.map Answer.reply := by
    rw [hanswers]
  have hone : ∀ {s' : State β} {r : Round}, Finishes s₁ s' r → r.taken = [j.ticket] →
      (∃ rounds', Taken s' sent rounds' []) ∧ Goes s s' := by
    intro s' r hround htaken
    refine ⟨⟨rounds ++ [r], h.finish hround ?_ hanswers hhistory ⟨none, hidle⟩ hran⟩,
      hround.goes hbuilt hnext hanswers ?_⟩
    · rw [hjobs, htaken, hidle]
      rfl
    · rw [hload, load, hidle]
      exact Nat.lt_add_of_pos_right (by decide)
  cases j with
  | batch q =>
    refine ⟨⟨rounds, h.move ?_ hanswers hhistory ⟨rfl, Nat.le_add_left 1 255⟩ hran.symm⟩,
      hbuilt, hnext, hsame, ?_⟩
    · rw [List.append_nil, List.append_nil, hjobs]
      rfl
    · rw [hload]
      exact Nat.add_lt_add_left (show 1 < 3 by decide) _
  | solo q =>
    obtain ⟨r, hround, htaken⟩ := @runSolo_finishes _ host s₁ a q
    exact hone hround htaken
  | maintenance q =>
    obtain ⟨r, hround, htaken⟩ := runMaintenance_finishes s₁ a q
    exact hone hround htaken
  | replace q =>
    rw [State.dispatch]
    by_cases hgen : q.generation ≠ s₁.generation
    · rw [if_pos hgen]
      exact hone (refused_finishes s₁ superseded (show Kind.replace ≠ .batch by decide)) rfl
    · rw [if_neg hgen]
      refine ⟨⟨rounds, h.move ?_ hanswers hhistory trivial hran.symm⟩, hbuilt, hnext, hsame, ?_⟩
      · rw [List.append_nil, List.append_nil, hjobs]
        rfl
      · rw [hload]
        exact Nat.add_lt_add_left (show 2 < 3 by decide) _

/-- Running the group in hand, with the job that ended it put aside. -/
theorem Taken.runGroup {s s₁ : State β} {group : List (Queued Telemetry)}
    (h : Taken s sent rounds drained) (a : EngineRun) (hphase : s.phase = .gathering group)
    (hjobs : ticketsOf s.queue = inHand s₁.phase ++ ticketsOf s₁.queue)
    (hanswers : s₁.answers = s.answers) (hhistory : s₁.history = s.history)
    (hidle : ∃ deferred, s₁.phase = .idle deferred) (hbuilt : s₁.built = s.built)
    (hnext : s₁.nextId = s.nextId) (hload : load s₁ < load s) :
    (∃ rounds' drained', Taken (s₁.runGroup host a group) sent rounds' drained') ∧
      Goes s (s₁.runGroup host a group) := by
  have hunderway := h.underway
  rw [hphase] at hunderway
  obtain ⟨rfl, hsize⟩ := hunderway
  obtain ⟨r, hround, htaken⟩ := @runGroup_finishes _ host s₁ a group hsize
  have hran : ranUnanswered s.phase = [] := by
    rw [hphase]
    rfl
  refine ⟨⟨_, _, h.finish hround ?_ hanswers hhistory hidle hran⟩,
    hround.goes hbuilt hnext hanswers hload⟩
  rw [hjobs, htaken, hphase, List.append_assoc]
  rfl

/-- Collecting a group. -/
theorem Taken.gather {s : State β} {group : List (Queued Telemetry)}
    (h : Taken s sent rounds drained) (a : EngineRun) (hphase : s.phase = .gathering group) :
    (∃ rounds' drained', Taken (s.gather host a group) sent rounds' drained') ∧
      Goes s (s.gather host a group) := by
  have hload : load s = 3 * s.queue.length + 1 := by
    rw [load, hphase]
    rfl
  unfold State.gather
  split
  · rename_i hroom
    split
    · rename_i q rest hqueue
      have hunderway := h.underway
      rw [hphase] at hunderway
      obtain ⟨rfl, -⟩ := hunderway
      refine ⟨⟨rounds, [], h.move ?_ rfl rfl ⟨rfl, ?_⟩ ?_⟩, rfl, rfl, List.prefix_rfl, ?_⟩
      · rw [hphase, hqueue]
        simp only [inHand, ticketsOf, List.map_append, List.map_cons, List.map_nil, List.append_nil,
          List.append_assoc]
        rfl
      · rw [List.length_append]
        exact hroom
      · rw [hphase]
        rfl
      · change 3 * rest.length + 1 < load s
        rw [hload, hqueue, List.length_cons]
        omega
    · rename_i j rest _ hqueue
      refine h.runGroup a hphase ?_ rfl rfl ⟨some j, rfl⟩ rfl rfl ?_
      · rw [hqueue]
        rfl
      · change 3 * rest.length + 3 < load s
        rw [hload, hqueue, List.length_cons]
        omega
    · rename_i hqueue
      refine h.runGroup a hphase ?_ rfl rfl ⟨none, rfl⟩ rfl rfl ?_
      · rw [hqueue]
        rfl
      · rw [hload]
        exact Nat.lt_succ_self _
  · refine h.runGroup a hphase rfl rfl rfl ⟨none, rfl⟩ rfl rfl ?_
    rw [hload]
    exact Nat.lt_succ_self _

variable {lib : Libraries β}

/-- Refusing what is queued, or replacing. -/
theorem Taken.drain {s : State β} {q : Queued (Replacement β)} (h : Taken s sent rounds drained)
    (a : EngineRun) (hphase : s.phase = .draining q) :
    (∃ rounds' drained', Taken (s.drain lib a q) sent rounds' drained') ∧
      Goes s (s.drain lib a q) := by
  have hload : load s = 3 * s.queue.length + 2 := by
    rw [load, hphase]
    rfl
  unfold State.drain
  split
  · rename_i j rest hqueue
    have hreplies := answerAll_replies { s with queue := rest } [refusal superseded j.ticket]
    refine ⟨⟨rounds, drained ++ [j.ticket], ?_, ?_, h.orderly, ?_, h.telemetry, h.solo,
      h.replacements⟩, rfl, rfl, ?_, ?_⟩
    · rw [h.taken, hqueue]
      simp only [State.answer, ticketsOf, List.map_cons, List.append_assoc, List.cons_append,
        List.nil_append]
    · rw [List.map_append, ← List.append_assoc, ← h.answered]
      exact hreplies
    · change Underway s.phase _
      rw [hphase]
      trivial
    · exact ⟨_, hreplies.symm⟩
    · change 3 * rest.length + phaseLoad s.phase < load s
      rw [hload, hqueue, hphase, List.length_cons, phaseLoad]
      omega
  · rename_i hqueue
    have hran : ∃ outcome, (s.runReplacement lib a q).phase = .replaced (q.ticket .replace) outcome ∧
        (s.runReplacement lib a q).queue = s.queue ∧
        (s.runReplacement lib a q).built = s.built ∧
        (s.runReplacement lib a q).nextId = s.nextId ∧
        (s.runReplacement lib a q).answers = s.answers ∧
        (s.runReplacement lib a q).history.telemetry = s.history.telemetry ∧
        (s.runReplacement lib a q).history.solo = s.history.solo ∧
        (s.runReplacement lib a q).history.replacements =
          s.history.replacements ++ [q.ticket .replace] := by
      unfold State.runReplacement
      generalize replacement lib s.live a q.work = result
      obtain ⟨outcome, live, restored⟩ := result
      refine ⟨outcome, ?_⟩
      unfold State.reload
      cases restored <;> dsimp only <;> split <;> exact ⟨rfl, rfl, rfl, rfl, rfl, rfl, rfl, rfl⟩
    obtain ⟨outcome, hphase', hqueue', hbuilt, hnext, hanswers, htelemetry, hsolo, hreplacements⟩ :=
      hran
    refine ⟨⟨rounds, drained, ?_, ?_, h.orderly, ?_, ?_, ?_, ?_⟩, hbuilt, hnext, ?_, ?_⟩
    · rw [h.taken, hphase', hqueue', hphase]
      rfl
    · rw [hanswers, h.answered]
    · rw [hphase']
      rfl
    · rw [htelemetry, h.telemetry]
    · rw [hsolo, h.solo]
    · rw [hreplacements, h.replacements, hphase', hphase]
      rw [show ranUnanswered (Phase.draining q) = [] from rfl, List.append_nil]
      rfl
    · rw [hanswers]
    · rw [hload, load, hqueue', hphase']
      exact Nat.lt_succ_self _

/-- A replacement that ran is answered. -/
theorem Taken.advance {s : State β} {ticket : Ticket} {outcome : Except Failure Payload}
    (h : Taken s sent rounds drained) (hphase : s.phase = .replaced ticket outcome) (n : Nat) :
    Taken (State.answer { s with generation := n, phase := .idle none }
      ⟨ticket, outcome, statusOf outcome⟩) sent
      (rounds ++ [.replaced ⟨ticket, outcome, statusOf outcome⟩ drained]) [] := by
  have hkind : ticket.kind = .replace := by
    have hunderway := h.underway
    rw [hphase] at hunderway
    exact hunderway
  have hstatus : statusOf outcome ≠ .refused := by
    cases outcome with
    | error e => exact nofun
    | ok p => exact nofun
  have hother : ∀ kind : Kind, kind ≠ .replace →
      ofKind kind ((rounds ++ [Round.replaced ⟨ticket, outcome, statusOf outcome⟩ drained]).flatMap
        Round.executed) = ofKind kind (rounds.flatMap Round.executed) := by
    intro kind hne
    rw [List.flatMap_append, List.flatMap_singleton, ofKind_append]
    have hnone : ofKind kind (Round.replaced ⟨ticket, outcome, statusOf outcome⟩ drained).executed =
        [] := ofKind_other (fun t ht => (List.mem_singleton.mp ht ▸ hkind)) hne.symm
    rw [hnone, List.append_nil]
  refine ⟨?_, ?_, ?_, rfl, ?_, ?_, ?_⟩
  · rw [h.taken, hphase, List.flatMap_append, List.flatMap_singleton, List.append_assoc,
      List.append_assoc]
    rfl
  · rw [List.flatMap_append, List.flatMap_singleton, Round.answered, ← List.append_assoc, ← h.answered,
      List.map_nil, List.append_nil]
    exact answerAll_replies _ [⟨ticket, outcome, statusOf outcome⟩]
  · intro r hr
    rcases List.mem_append.mp hr with hr | hr
    · exact h.orderly r hr
    · rw [List.mem_singleton.mp hr]
      exact .replaced hkind hstatus
  · rw [hother .batch (by decide)]
    exact h.telemetry
  · rw [hother .solo (by decide)]
    exact h.solo
  · have hself : ofKind .replace (Round.replaced ⟨ticket, outcome, statusOf outcome⟩ drained).executed =
        [ticket] := ofKind_self fun t ht => (List.mem_singleton.mp ht ▸ hkind)
    rw [List.flatMap_append, List.flatMap_singleton, ofKind_append, hself]
    have hreplacements := h.replacements
    rw [hphase] at hreplacements
    exact hreplacements.trans (List.append_nil _).symm

/-- Nothing is in hand and nothing queued. -/
def Waits (s : State β) : Prop := s.phase = .idle none ∧ s.queue = []

/-- One step of the writer. -/
theorem Taken.writerStep {s : State β} (h : Taken s sent rounds drained) (a : EngineRun) :
    (∃ rounds' drained', Taken (s.writerStep lib host a) sent rounds' drained') ∧
      (Waits s ∧ s.writerStep lib host a = s ∨ Goes s (s.writerStep lib host a)) := by
  have hunderway := h.underway
  unfold State.writerStep
  split
  · rename_i j hphase
    rw [hphase] at hunderway
    cases hunderway
    obtain ⟨⟨rounds', h'⟩, hgoes⟩ := @Taken.dispatch _ host _ _ _ h a { s with phase := .idle none }
      j (by rw [hphase]; rfl) rfl rfl rfl (by rw [hphase]; rfl) rfl rfl (by rw [load, hphase]; rfl)
    exact ⟨⟨rounds', [], h'⟩, .inr hgoes⟩
  · rename_i hphase
    rw [hphase] at hunderway
    cases hunderway
    split
    · rename_i hqueue
      exact ⟨⟨rounds, [], h⟩, .inl ⟨⟨hphase, hqueue⟩, rfl⟩⟩
    · rename_i j rest hqueue
      obtain ⟨⟨rounds', h'⟩, hgoes⟩ := @Taken.dispatch _ host _ _ _ h a { s with queue := rest }
        j (by rw [hphase, hqueue]; rfl) rfl rfl hphase (by rw [hphase]; rfl) rfl rfl
        (by rw [load, hphase, hqueue]; rfl)
      exact ⟨⟨rounds', [], h'⟩, .inr hgoes⟩
  · rename_i group hphase
    obtain ⟨h', hgoes⟩ := h.gather a hphase
    exact ⟨h', .inr hgoes⟩
  · rename_i q hphase
    obtain ⟨h', hgoes⟩ := h.drain a hphase
    exact ⟨h', .inr hgoes⟩
  · rename_i ticket outcome hphase
    refine ⟨⟨_, _, h.advance hphase _⟩, .inr ⟨rfl, rfl, ?_, ?_⟩⟩
    · exact ⟨_, (answerAll_replies _ [⟨ticket, outcome, statusOf outcome⟩]).symm⟩
    · rw [load, load, hphase]
      exact Nat.lt_succ_self _

/-- Sending a job puts it behind all others. -/
theorem Taken.send (lib : Libraries β) (host : Host) {s : State β}
    (h : Taken s sent rounds drained) (i : Nat) {j : Job β} (hj : s.built[i]? = some j) :
    Taken (s.step lib host (.send i)) (sent ++ [j.ticket]) rounds drained := by
  have hstep : s.step lib host (.send i) =
      { s with built := s.built.eraseIdx i, queue := s.queue ++ [j] } := by
    simp only [State.step, hj]
  rw [hstep]
  refine ⟨?_, h.answered, h.orderly, h.underway, h.telemetry, h.solo, h.replacements⟩
  rw [h.taken]
  simp only [ticketsOf, List.map_append, List.map_cons, List.map_nil, List.append_assoc]

/-- With nothing to do the writer waits. -/
theorem waits_of_load {s : State β} (h : load s = 0) : Waits s := by
  unfold load at h
  have hqueue : s.queue = [] := List.eq_nil_of_length_eq_zero (by omega)
  refine ⟨?_, hqueue⟩
  have hphase : phaseLoad s.phase = 0 := by omega
  unfold phaseLoad at hphase
  split at hphase
  · assumption
  · cases hphase
  · cases hphase
  · cases hphase
  · cases hphase

/-- What was sent and not answered yet. -/
def waiting (s : State β) : List Ticket := inHand s.phase ++ ticketsOf s.queue

/-- Whoever was taken in orderly rounds is answered. -/
theorem answered_perm_taken {rounds : List Round} (h : ∀ r ∈ rounds, r.Orderly) :
    ((rounds.flatMap Round.answered).map Reply.ticket).Perm (rounds.flatMap Round.taken) := by
  induction rounds with
  | nil => exact List.Perm.refl _
  | cons r rest ih =>
    rw [List.flatMap_cons, List.flatMap_cons, List.map_append]
    exact (Round.answered_perm (h r List.mem_cons_self)).append
      (ih fun x hx => h x (List.mem_cons_of_mem r hx))

/-- What was sent is answered or waits, every job once. -/
theorem Taken.perm {s : State β} (h : Taken s sent rounds drained) :
    ((s.answers.map fun a => a.reply.ticket) ++ waiting s).Perm sent := by
  have hanswers : (s.answers.map fun a => a.reply.ticket) =
      (rounds.flatMap Round.answered).map Reply.ticket ++ drained := by
    have hmap := congrArg (List.map Reply.ticket) h.answered
    rw [List.map_map, List.map_append, List.map_map] at hmap
    refine hmap.trans (congrArg _ ?_)
    exact List.map_id _
  rw [hanswers, h.taken, waiting]
  have hrounds := (answered_perm_taken h.orderly).append_right (drained ++ waiting s)
  rw [waiting] at hrounds
  rw [List.append_assoc]
  refine hrounds.trans (List.Perm.append_left _ ?_)
  rw [← List.append_assoc]
  exact List.perm_append_comm.append_right _

/-- A hub that has just been opened was sent nothing. -/
theorem opened_taken (live : Live) (db : Store) : Taken (opened live db : State β) [] [] [] where
  taken := rfl
  answered := rfl
  orderly r hr := by cases hr
  underway := rfl
  telemetry := rfl
  solo := rfl
  replacements := rfl

end Rounds

end Romi.WriterTurns
