import Romi.WriterQueue

/-!
# What every run of the writer keeps

`Upheld` is what a relation between store and guard must satisfy to survive
jobs, groups, replays and restores. `Sustained` is the invariant of the whole
hub under such a relation: the database in service is what was opened or
restored with everything applied to it since, the generation counts the
executed replacements, and every answer is backed by what happened. Each step
keeps it, so every run does.
-/

namespace Romi.WriterRuns

open BackupArchive CachedTransactions GroupCommit KeyedTable LiveDatabase RestoreStaging StoreGuard
  StoreGuard.Guard StoreInvariant StoreOperations StoreRelations StoreSchema StoreVersion
  WriterBatch WriterQueue
open CachedTransactions.Job FileSwap

/-! ## One group -/

/-- An answer to a job of a group, against what the group committed. -/
inductive Honest (commits : List (Execution Ticket Store Guard Payload)) : Reply → Prop
  /-- A job that was turned away. -/
  | refused {text : String} (ticket : Ticket) (h : text = superseded ∨ text = databaseClosed) :
    Honest commits (refusal text ticket)
  /-- A job that failed. -/
  | failed (ticket : Ticket) (e : Failure) : Honest commits ⟨ticket, .error e, .failed⟩
  /-- A job whose execution was committed. -/
  | committed {e : Execution Ticket Store Guard Payload} {p : Payload} (he : e ∈ commits)
    (hp : e.outcome = .ok p) : Honest commits ⟨e.id, .ok p, .committed⟩

/-- All that can be said of a turn over some jobs. -/
structure Accounted (P : Store → Guard → Prop) (generation : Nat) (jobs : List BatchJob)
    (db : Store) (t : Turn) : Prop where
  /-- The store is sound in the end. -/
  sound : P t.db t.guard
  /-- The commits lead from the store before to the one now. -/
  chain : Chain db t.commits t.db
  /-- Every execution began on a sound store and belongs to a job of the group. -/
  executions : ∀ e ∈ t.executions, P e.before e.cache ∧ e.id.generation = generation ∧
    ∃ j ∈ jobs, j.id = e.id ∧ (e.RunOf j.first ∨ e.RunOf j.alone)
  /-- Every commit is an execution that succeeded. -/
  committed : ∀ e ∈ t.commits, e ∈ t.executions ∧ ∃ p, e.outcome = .ok p
  /-- Every reply tells the truth. -/
  replies : ∀ r ∈ t.replies, Honest t.commits r
  /-- Every job of the group has one reply. -/
  tickets : (t.replies.map Reply.ticket).Perm (jobs.map Task.id)

/-- The jobs of a group are the stale ones and the live ones. -/
theorem stale_tickets (generation : Nat) (jobs : List BatchJob) :
    ((staleReplies generation jobs).map Reply.ticket ++ (liveJobs generation jobs).map Task.id).Perm
      (jobs.map Task.id) := by
  induction jobs with
  | nil => exact List.Perm.nil
  | cons j rest ih =>
    by_cases hj : current generation j = true
    · have hstale : staleReplies generation (j :: rest) = staleReplies generation rest := by
        rw [staleReplies, List.filter_cons_of_neg (by rw [hj]; decide)]
        rfl
      have hlive : liveJobs generation (j :: rest) = j :: liveJobs generation rest :=
        List.filter_cons_of_pos hj
      rw [hstale, hlive]
      exact List.perm_middle.trans (ih.cons j.id)
    · have hstale : staleReplies generation (j :: rest) =
          refusal superseded j.id :: staleReplies generation rest := by
        rw [staleReplies, List.filter_cons_of_pos (by simpa using hj), List.map_cons]
        rfl
      have hlive : liveJobs generation (j :: rest) = liveJobs generation rest :=
        List.filter_cons_of_neg hj
      rw [hstale, hlive]
      exact ih.cons j.id

/-- A stale job is told that it was superseded. -/
theorem stale_honest (generation : Nat) (jobs : List BatchJob)
    (commits : List (Execution Ticket Store Guard Payload)) :
    ∀ r ∈ staleReplies generation jobs, Honest commits r := by
  intro r hr
  obtain ⟨j, -, rfl⟩ := List.mem_map.mp hr
  exact .refused j.id (.inl rfl)

/-- Whoever is turned away is told why. -/
theorem refusal_honest (commits : List (Execution Ticket Store Guard Payload)) {text : String}
    (htext : text = superseded ∨ text = databaseClosed) (jobs : List BatchJob) :
    ∀ r ∈ jobs.map fun j => refusal text j.id, Honest commits r := by
  intro r hr
  obtain ⟨j, -, rfl⟩ := List.mem_map.mp hr
  exact .refused j.id htext

/-- A turn that only answers leaves everything as it was. -/
theorem idle_accounted {P : Store → Guard → Prop} {generation : Nat} {jobs : List BatchJob}
    {db : Store} {g : Guard} {replies : List Reply} (h : P db g)
    (hreplies : ∀ r ∈ replies, Honest [] r)
    (htickets : (replies.map Reply.ticket).Perm (jobs.map Task.id)) :
    Accounted P generation jobs db (.idle replies db g) where
  sound := h
  chain := .nil db
  executions := List.forall_mem_nil _
  committed := List.forall_mem_nil _
  replies := hreplies
  tickets := htickets

/-- An answer keeps the ticket of its job. -/
theorem answered_tickets (replies : List (Ticket × Except Failure Payload)) :
    (replies.map answered).map Reply.ticket = replies.map Prod.fst := by
  rw [List.map_map]
  rfl

/-- A turn that ran jobs is accounted for by what it ran. -/
theorem ran_accounted {P : Store → Guard → Prop} {generation : Nat} {jobs live : List BatchJob}
    {db : Store} {refused : List Reply} {o : Outcome Ticket Store Guard Payload}
    (hlive : ∀ j ∈ live, j ∈ jobs ∧ j.id.generation = generation)
    (hrefused : ∀ r ∈ refused, Honest o.commits r)
    (htickets : (refused.map Reply.ticket ++ live.map Task.id).Perm (jobs.map Task.id))
    (ho : o.Accounted P live db) : Accounted P generation jobs db (.ran refused o) where
  sound := ho.sound
  chain := ho.commits
  executions := by
    intro e he
    obtain ⟨hp, j, hj, hid, hrun⟩ := ho.executions e he
    exact ⟨hp, hid ▸ (hlive j hj).2, j, (hlive j hj).1, hid, hrun⟩
  committed := ho.committed
  replies := by
    intro r hr
    rcases List.mem_append.mp hr with hr | hr
    · exact hrefused r hr
    · obtain ⟨⟨ticket, outcome⟩, hq, rfl⟩ := List.mem_map.mp hr
      cases outcome with
      | error e => exact .failed ticket e
      | ok p =>
        obtain ⟨e, he, rfl, hp⟩ := (ho.answered ticket p).mp hq
        exact .committed he hp
  tickets := by
    change ((refused ++ o.replies.map answered).map Reply.ticket).Perm _
    rw [List.map_append, answered_tickets, ho.ids]
    exact htickets

/-- Whatever the engine answers, a turn over lawful jobs is accounted for. -/
theorem runBatch_accounted {P : Store → Guard → Prop} {Loosens : Guard → Guard → Prop}
    (hreg : Regime Guard.load P Loosens) (generation : Nat) (connected : Bool) (a : EngineAnswers)
    (replays : Ticket → EngineAnswers) {jobs : List BatchJob}
    (hjobs : ∀ j ∈ jobs, j.Lawful P Loosens) {db : Store} {g : Guard} (h : P db g) :
    Accounted P generation jobs db (runBatch generation connected a replays jobs db g) := by
  have hperm := stale_tickets generation jobs
  have hstale := stale_honest generation jobs
  have hmem : ∀ j ∈ liveJobs generation jobs, j ∈ jobs ∧ j.id.generation = generation := by
    intro j hj
    obtain ⟨hin, hgen⟩ := List.mem_filter.mp hj
    exact ⟨hin, by simpa [current] using hgen⟩
  unfold runBatch
  by_cases hlive : liveJobs generation jobs = []
  · rw [hlive, List.map_nil, List.append_nil] at hperm
    rw [if_pos hlive]
    exact idle_accounted h (hstale []) hperm
  · rw [if_neg hlive]
    cases connected with
    | false =>
      rw [if_pos rfl]
      refine idle_accounted h ?_ ?_
      · intro r hr
        rcases List.mem_append.mp hr with hr | hr
        · exact hstale [] r hr
        · exact refusal_honest [] (.inr rfl) _ r hr
      · rw [List.map_append, List.map_map]
        exact hperm
    | true =>
      rw [if_neg nofun]
      exact ran_accounted hmem (hstale _) hperm
        (runGroup_accounted hreg a.shared (fun t => (replays t).alone)
          (fun j hj => hjobs j (hmem j hj).1) h)

/-! ## What the writer relies on between two jobs -/

/-- A relation between store and guard that every kind of job keeps. -/
structure Upheld (host : Host) (P : Store → Guard → Prop) (Loosens : Guard → Guard → Prop) :
    Prop where
  /-- The invariant of the store goes with the guard's. -/
  regime : Regime Guard.load P Loosens
  /-- Telemetry keeps it, whatever the engine refuses. -/
  telemetry : ∀ (op : Telemetry) (refusals : List Bool),
    GroupCommit.Lawful P Loosens ((op.job host).body refusals)
  /-- So does any other closure. -/
  solo : ∀ op : Solo, Preserves P (op.job host)
  /-- A store that may be restored has it. -/
  restored : ∀ db : Store, Restorable db → P db (Guard.load db)

/-- A coherent guard, with related tables where the flag says so, is upheld. -/
theorem sound_upheld (related : Prop) (host : Host) : Upheld host (Sound related) Raises where
  regime := sound_regime related
  telemetry := telemetry_lawful related host
  solo := Solo.preserves related host
  restored _ h := sound_load fun _ => h.related

/-- So is nothing at all. -/
theorem trivial_upheld (host : Host) : Upheld host (fun _ _ => True) fun _ _ => True where
  regime := ⟨fun _ => trivial, fun _ _ => trivial, fun _ => trivial, fun _ _ => trivial⟩
  telemetry _ _ := ⟨fun _ _ => trivial, fun _ _ => trivial⟩
  solo _ _ _ := trivial
  restored _ _ := trivial

/-- What an answer promises about the history. -/
structure Backed (h : History) (a : Answer) : Prop where
  /-- It was given in the era of the current restore or before. -/
  era : a.restores ≤ h.restores
  /-- A write answered with success in the current era is among what the
  database in service was built from. -/
  durable : ∀ p, a.reply.outcome = .ok p →
    a.reply.ticket.kind = .batch ∨ a.reply.ticket.kind = .solo → a.restores = h.restores →
    ∃ e ∈ h.applied, e.id = a.reply.ticket ∧ e.outcome = .ok p
  /-- A replacement that was not refused was executed. -/
  executed : a.reply.ticket.kind = .replace → a.reply.status ≠ .refused →
    a.reply.ticket ∈ h.replacements

section Submitted

variable {β : Type}

/-- A telemetry body that ran, against the jobs that were submitted. -/
structure Genuine (host : Host) (P : Store → Guard → Prop) (submitted : List (Job β)) (r : Ran) :
    Prop where
  /-- It ran on the database it was accepted for. -/
  generation : r.execution.id.generation = r.epoch
  /-- It began on a sound store. -/
  met : P r.execution.before r.execution.cache
  /-- It is the job of a submission, run as the hub runs it. -/
  body : ∃ q, Job.batch q ∈ submitted ∧ r.execution.id = q.ticket .batch ∧
    ∃ refusals, r.execution.RunOf ((q.work.job host).body refusals)

/-- The same for a body that ran on its own. -/
structure GenuineSolo (host : Host) (submitted : List (Job β)) (r : Ran) : Prop where
  /-- It ran in the generation it was submitted for. -/
  generation : r.execution.id.generation = r.epoch
  /-- It is the closure of a submission, run as the hub runs it. -/
  body : ∃ q, Job.solo q ∈ submitted ∧ r.execution.id = q.ticket .solo ∧
    ∃ refusals, r.execution.RunOf ((q.work.job host).body refusals)

/-- The same for a checkpoint. -/
structure GenuinePlan (submitted : List (Job β)) (r : Planned) : Prop where
  /-- It ran in the generation it was submitted for. -/
  generation : r.ticket.generation = r.epoch
  /-- It was submitted. -/
  job : ∃ q, Job.maintenance q ∈ submitted ∧ r.ticket = q.ticket .maintenance

/-- More submissions do not make it less genuine. -/
theorem Genuine.mono {host : Host} {P : Store → Guard → Prop} {jobs jobs' : List (Job β)} {r : Ran}
    (h : Genuine host P jobs r) (hsub : jobs ⊆ jobs') : Genuine host P jobs' r := by
  obtain ⟨q, hq, hrun⟩ := h.body
  exact ⟨h.generation, h.met, q, hsub hq, hrun⟩

/-- More submissions do not make it less genuine. -/
theorem GenuineSolo.mono {host : Host} {jobs jobs' : List (Job β)} {r : Ran}
    (h : GenuineSolo host jobs r) (hsub : jobs ⊆ jobs') : GenuineSolo host jobs' r := by
  obtain ⟨q, hq, hrun⟩ := h.body
  exact ⟨h.generation, q, hsub hq, hrun⟩

/-- More submissions do not make it less genuine. -/
theorem GenuinePlan.mono {jobs jobs' : List (Job β)} {r : Planned} (h : GenuinePlan jobs r)
    (hsub : jobs ⊆ jobs') : GenuinePlan jobs' r := by
  obtain ⟨q, hq, hticket⟩ := h.job
  exact ⟨h.generation, q, hsub hq, hticket⟩

end Submitted

section Machine

variable {β : Type} {lib : Libraries β} {host : Host} {P : Store → Guard → Prop}
  {Loosens : Guard → Guard → Prop}

/-- The store, the guard and the history fit together. -/
structure Kept (host : Host) (P : Store → Guard → Prop) (s : State β) (db : Store) : Prop where
  /-- The file serves this store. -/
  serves : s.live.Serves db
  /-- It has the schema of the program. -/
  version : storedVersion db = some schemaVersion
  /-- It is sound together with the writer's guard. -/
  sound : P db s.guard
  /-- The database in service is the last one opened or restored with
  everything applied to it since. -/
  chain : Chain s.history.base s.history.applied db
  /-- Every telemetry job that ran is genuine. -/
  telemetry : ∀ r ∈ s.history.telemetry, Genuine host P s.submitted r
  /-- So is every closure. -/
  solo : ∀ r ∈ s.history.solo, GenuineSolo host s.submitted r
  /-- So is every maintenance plan. -/
  maintenance : ∀ r ∈ s.history.maintenance, GenuinePlan s.submitted r
  /-- What was applied are bodies that ran. -/
  applied : ∀ e ∈ s.history.applied, ∃ r ∈ s.history.telemetry ++ s.history.solo, r.execution = e
  /-- Every answer has its reason in the history. -/
  answers : ∀ a ∈ s.answers, Backed s.history a

/-- Only these five fields matter to it, and jobs may be submitted. -/
theorem Kept.congr {s s' : State β} {db : Store} (h : Kept host P s db) (hlive : s'.live = s.live)
    (hguard : s'.guard = s.guard) (hhistory : s'.history = s.history)
    (hanswers : s'.answers = s.answers) (hsubmitted : s.submitted ⊆ s'.submitted) :
    Kept host P s' db where
  serves := by
    rw [hlive]
    exact h.serves
  version := h.version
  sound := by
    rw [hguard]
    exact h.sound
  chain := by
    rw [hhistory]
    exact h.chain
  telemetry := by
    rw [hhistory]
    exact fun r hr => (h.telemetry r hr).mono hsubmitted
  solo := by
    rw [hhistory]
    exact fun r hr => (h.solo r hr).mono hsubmitted
  maintenance := by
    rw [hhistory]
    exact fun r hr => (h.maintenance r hr).mono hsubmitted
  applied := by
    rw [hhistory]
    exact h.applied
  answers := by
    rw [hhistory, hanswers]
    exact h.answers

/-- A database of this version can be opened again. -/
theorem Kept.servable {s : State β} {db : Store} (h : Kept host P s db) : Servable db :=
  ⟨schemaVersion, h.version, le_rfl⟩

/-- Answering with what the history backs. -/
theorem Kept.answerAll {s : State β} {db : Store} (h : Kept host P s db) {rs : List Reply}
    (hrs : ∀ r ∈ rs, Backed s.history ⟨s.history.restores, r⟩) : Kept host P (s.answerAll rs) db where
  serves := h.serves
  version := h.version
  sound := h.sound
  chain := h.chain
  telemetry := h.telemetry
  solo := h.solo
  maintenance := h.maintenance
  applied := h.applied
  answers := by
    intro a ha
    rcases List.mem_append.mp ha with ha | ha
    · exact h.answers a ha
    · obtain ⟨r, hr, rfl⟩ := List.mem_map.mp ha
      exact hrs r hr

/-- An answer that has its reason may be given. -/
theorem Kept.answer {s : State β} {db : Store} (h : Kept host P s db) {r : Reply}
    (hr : Backed s.history ⟨s.history.restores, r⟩) : Kept host P (s.answer r) db :=
  h.answerAll fun _ hq => List.mem_singleton.mp hq ▸ hr

/-- A refusal promises nothing. -/
theorem backed_refusal (h : History) (text : String) (ticket : Ticket) :
    Backed h ⟨h.restores, refusal text ticket⟩ where
  era := le_rfl
  durable p hp := by cases hp
  executed _ hs := absurd rfl hs

/-- A failure promises that a replacement was executed, and nothing else. -/
theorem backed_failure (h : History) {ticket : Ticket} (e : Failure) (status : Status)
    (hticket : ticket.kind ≠ .replace) : Backed h ⟨h.restores, ⟨ticket, .error e, status⟩⟩ where
  era := le_rfl
  durable p hp := by cases hp
  executed hk _ := absurd hk hticket

/-! ## Jobs -/

/-- Rebuilding the guard from the database in service is harmless. -/
theorem Kept.reload (hup : Upheld host P Loosens) {s : State β} {db : Store} (h : Kept host P s db)
    (reloads : Bool) : Kept host P (s.reload reloads) db := by
  have hread : s.live.readPrototype = some db := h.serves.readPrototype
  unfold State.reload
  rw [hread]
  refine { h with sound := ?_ }
  cases reloads with
  | true => exact hup.regime.load h.sound
  | false => exact h.sound

/-- What is promised stays promised while the history only grows. -/
theorem Backed.grow {h h' : History} {a : Answer} (hb : Backed h a) (hera : h'.restores = h.restores)
    (happlied : h.applied ⊆ h'.applied) (hreplaced : h.replacements ⊆ h'.replacements) :
    Backed h' a where
  era := hera ▸ hb.era
  durable p hp hk hr := by
    obtain ⟨e, he, hid, ho⟩ := hb.durable p hp hk (hera ▸ hr)
    exact ⟨e, happlied he, hid, ho⟩
  executed hk hs := hreplaced (hb.executed hk hs)

/-- A body of the writer leaves the version alone. -/
theorem keeps_version {x : Job Store Guard Payload}
    (hx : ∀ version, Keeps (Recorded version) x) {e : Execution Ticket Store Guard Payload}
    {refusals : List Bool} (he : e.RunOf (x.body refusals)) :
    storedVersion e.after = storedVersion e.before := by
  obtain ⟨c', hrun⟩ := he
  obtain ⟨s', hs, hdb, -⟩ := body_eq hrun
  have hsame : Recorded e.before.romiSchema s'.db := (hx e.before.romiSchema).apply hs rfl
  rw [hdb] at hsame
  unfold storedVersion
  rw [hsame]

/-- So does a chain of them. -/
theorem chain_version {a b : Store} {es : List (Execution Ticket Store Guard Payload)}
    (h : Chain a es b) (hes : ∀ e ∈ es, storedVersion e.after = storedVersion e.before) :
    storedVersion b = storedVersion a := by
  induction h with
  | nil => rfl
  | cons _ ih =>
    rw [ih fun e he => hes e (List.mem_cons_of_mem _ he)]
    exact hes _ List.mem_cons_self

/-- Every answer of a turn is backed by a history that holds its commits. -/
theorem honest_backed {h : History} {commits : List (Execution Ticket Store Guard Payload)}
    (hcommits : commits ⊆ h.applied) {r : Reply} (hr : Honest commits r)
    (hkind : r.ticket.kind = .batch) : Backed h ⟨h.restores, r⟩ := by
  cases hr with
  | refused ticket _ => exact backed_refusal h _ ticket
  | failed ticket e => exact backed_failure h e _ (by rw [hkind]; decide)
  | committed he hp =>
    refine ⟨le_rfl, ?_, ?_⟩
    · intro p hok _ _
      exact ⟨_, hcommits he, rfl, hp.trans hok⟩
    · intro hk _
      rw [hkind] at hk
      cases hk

/-- A group keeps everything together. -/
theorem Kept.runGroup (hup : Upheld host P Loosens) {s : State β} {db : Store}
    (h : Kept host P s db) (hepoch : s.generation = s.epoch) (a : EngineRun)
    {group : List (Queued Telemetry)} (hgroup : ∀ q ∈ group, Job.batch q ∈ s.submitted) :
    ∃ db', Kept host P (s.runGroup host a group) db' := by
  have hread : s.live.read = some db := h.serves.read
  have hlawful : ∀ j ∈ group.map (Queued.batchJob host a), j.Lawful P Loosens := by
    intro j hj
    obtain ⟨q, -, rfl⟩ := List.mem_map.mp hj
    exact ⟨hup.telemetry q.work _, hup.telemetry q.work _⟩
  have hturn := runBatch_accounted hup.regime s.generation true a.shared a.replays hlawful h.sound
  unfold State.runGroup
  rw [hread]
  dsimp only
  generalize runBatch s.generation true a.shared a.replays _ db s.guard = turn at hturn
  have hgenuine : ∀ r ∈ turn.executions.map (Ran.mk s.epoch), Genuine host P s.submitted r := by
    intro r hr
    obtain ⟨e, he, rfl⟩ := List.mem_map.mp hr
    obtain ⟨hmet, hgen, j, hj, hid, hrun⟩ := hturn.executions e he
    obtain ⟨q, hq, rfl⟩ := List.mem_map.mp hj
    refine ⟨hgen.trans hepoch, hmet, q, hgroup q hq, hid.symm, ?_⟩
    rcases hrun with hrun | hrun
    · exact ⟨_, hrun⟩
    · exact ⟨_, hrun⟩
  have hversion : storedVersion turn.db = storedVersion db := by
    refine chain_version hturn.chain ?_
    intro e he
    have hin : Ran.mk s.epoch e ∈ turn.executions.map (Ran.mk s.epoch) :=
      List.mem_map_of_mem (hturn.committed e he).1
    obtain ⟨q, -, -, refusals, hrun⟩ := (hgenuine _ hin).body
    exact keeps_version (fun _ => Telemetry.keeps host q.work) hrun
  have hkind : ∀ r ∈ turn.replies, r.ticket.kind = .batch := by
    intro r hr
    have hin := hturn.tickets.subset (List.mem_map_of_mem hr)
    obtain ⟨j, hj, hid⟩ := List.mem_map.mp hin
    obtain ⟨q, -, rfl⟩ := List.mem_map.mp hj
    rw [← hid]
    rfl
  refine ⟨turn.db, Kept.answerAll ?_ ?_⟩
  · refine ⟨h.serves.write _, hversion.trans h.version, hturn.sound, h.chain.append hturn.chain,
      ?_, h.solo, h.maintenance, ?_, ?_⟩
    · intro r hr
      rcases List.mem_append.mp hr with hr | hr
      · exact h.telemetry r hr
      · exact hgenuine r hr
    · intro e he
      rcases List.mem_append.mp he with he | he
      · obtain ⟨r, hr, hre⟩ := h.applied e he
        rcases List.mem_append.mp hr with hr | hr
        · exact ⟨r, List.mem_append_left _ (List.mem_append_left _ hr), hre⟩
        · exact ⟨r, List.mem_append_right _ hr, hre⟩
      · have hin : Ran.mk s.epoch e ∈ turn.executions.map (Ran.mk s.epoch) :=
          List.mem_map_of_mem (hturn.committed e he).1
        exact ⟨_, List.mem_append_left _ (List.mem_append_right _ hin), rfl⟩
    · intro q hq
      exact (h.answers q hq).grow rfl (List.subset_append_left _ _) fun _ ht => ht
  · intro r hr
    exact honest_backed (List.subset_append_right _ _) (hturn.replies r hr) (hkind r hr)

/-- So does a write on its own, also where it breaks off half-way. -/
theorem Kept.runSolo (hup : Upheld host P Loosens) {s : State β} {db : Store}
    (h : Kept host P s db) (hepoch : s.generation = s.epoch) (a : EngineRun) {q : Queued Solo}
    (hsubmitted : Job.solo q ∈ s.submitted) : ∃ db', Kept host P (s.runSolo host a q) db' := by
  have hread : s.live.read = some db := h.serves.read
  unfold State.runSolo
  by_cases hgen : q.generation ≠ s.generation
  · exact ⟨db, by
      rw [if_pos hgen]
      exact h.answer (backed_refusal s.history superseded _)⟩
  · rw [if_neg hgen, hread]
    have hq : q.generation = s.epoch := (not_not.mp hgen).trans hepoch
    dsimp only
    generalize hrun : (q.work.job host).body a.solo db s.guard = ran
    obtain ⟨r, db', g⟩ := ran
    obtain ⟨t, ht, hdb, hg⟩ := body_eq hrun
    have hsound : P db' g := by
      have hp := (hup.solo q.work).apply ht h.sound
      rwa [hdb, hg] at hp
    have hversion : storedVersion db' = storedVersion db :=
      keeps_version (e := ⟨q.ticket .solo, db, s.guard, r, db'⟩)
        (fun _ => Solo.keeps host q.work) ⟨g, hrun⟩
    have hkept : Kept host P { s with
        live := s.live.write fun _ => db'
        guard := g
        history := { s.history with
          solo := s.history.solo ++ [Ran.mk s.epoch ⟨q.ticket .solo, db, s.guard, r, db'⟩]
          applied := s.history.applied ++ [⟨q.ticket .solo, db, s.guard, r, db'⟩] } } db' := by
      refine ⟨h.serves.write _, hversion.trans h.version, hsound,
        h.chain.append (Chain.run (.nil db')), h.telemetry, ?_, h.maintenance, ?_, ?_⟩
      · intro x hx
        rcases List.mem_append.mp hx with hx | hx
        · exact h.solo x hx
        · rw [List.mem_singleton.mp hx]
          exact ⟨hq, q, hsubmitted, rfl, a.solo, g, hrun⟩
      · intro e he
        change ∃ r ∈ s.history.telemetry ++ (s.history.solo ++ [_]), r.execution = e
        rw [← List.append_assoc]
        rcases List.mem_append.mp he with he | he
        · obtain ⟨r, hr, hre⟩ := h.applied e he
          exact ⟨r, List.mem_append_left _ hr, hre⟩
        · rw [List.mem_singleton.mp he]
          exact ⟨_, List.mem_append_right _ (List.mem_singleton_self _), rfl⟩
      · intro x hx
        exact (h.answers x hx).grow rfl (List.subset_append_left _ _) fun _ hm => hm
    cases r with
    | ok p =>
      refine ⟨db', hkept.answer ⟨le_rfl, ?_, nofun⟩⟩
      intro p' hp _ _
      exact ⟨_, List.mem_append_right _ (List.mem_singleton_self _), rfl, hp⟩
    | error e =>
      have hreloaded := hkept.reload hup a.reloads
      exact ⟨db', hreloaded.answer (backed_failure _ e _ nofun)⟩

/-- A checkpoint changes nothing that anybody reads. -/
theorem Kept.runMaintenance (hup : Upheld host P Loosens) {s : State β} {db : Store}
    (h : Kept host P s db) (hepoch : s.generation = s.epoch) (a : EngineRun) {q : Queued Unit}
    (hsubmitted : Job.maintenance q ∈ s.submitted) :
    Kept host P (s.runMaintenance a q) db := by
  have hread : s.live.read = some db := h.serves.read
  unfold State.runMaintenance
  by_cases hgen : q.generation ≠ s.generation
  · rw [if_pos hgen]
    exact h.answer (backed_refusal s.history superseded _)
  · rw [if_neg hgen, hread]
    unfold planMaintenance
    dsimp only
    have hq : q.generation = s.epoch := (not_not.mp hgen).trans hepoch
    have hkept : Kept host P { s with
        live := s.live.checkpoint
        history := { s.history with maintenance := s.history.maintenance ++
          [Planned.mk s.epoch (q.ticket .maintenance)] } } db := by
      refine ⟨h.serves.checkpoint, h.version, h.sound, h.chain, h.telemetry, h.solo, ?_, h.applied,
        ?_⟩
      · intro r hr
        rcases List.mem_append.mp hr with hr | hr
        · exact h.maintenance r hr
        · rw [List.mem_singleton.mp hr]
          exact ⟨hq, q, hsubmitted, rfl⟩
      · intro x hx
        exact (h.answers x hx).grow rfl (List.Subset.refl _) (List.Subset.refl _)
    cases a.reusable with
    | ok n => exact hkept.answer ⟨le_rfl, nofun, nofun⟩
    | error e => exact (hkept.reload hup a.reloads).answer (backed_failure _ e _ nofun)

/-- What was promised before a successful restore is promised no more, except
that a replacement was executed. -/
theorem Backed.restored {h : History} {a : Answer} (hb : Backed h a) (base : Store)
    {replacements : List Ticket} (hsub : h.replacements ⊆ replacements) :
    Backed { h with
      replacements := replacements, restores := h.restores + 1, base := base, applied := [] } a where
  era := Nat.le_succ_of_le hb.era
  durable p _ _ hr := by
    have hera : a.restores ≤ h.restores := hb.era
    dsimp only at hr
    omega
  executed hk hs := hsub (hb.executed hk hs)

/-- A compaction or a failed restore leaves the database as it was. -/
theorem Kept.unreplaced {s : State β} {db : Store} (h : Kept host P s db) {live : Live}
    (hserves : live.Serves db) (ticket : Ticket) (outcome : Except Failure Payload) :
    Kept host P { s with
      live := live
      history := { s.history with replacements := s.history.replacements ++ [ticket] }
      phase := .replaced ticket outcome } db where
  serves := hserves
  version := h.version
  sound := h.sound
  chain := h.chain
  telemetry := h.telemetry
  solo := h.solo
  maintenance := h.maintenance
  applied := h.applied
  answers a ha :=
    (h.answers a ha).grow rfl (List.Subset.refl _) (List.subset_append_left _ [ticket])

/-- A successful restore starts a new era on what it put in service. -/
theorem Kept.replaced {s : State β} {db staged : Store} (h : Kept host P s db) {live : Live}
    (hserves : live.Serves staged) (hversion : storedVersion staged = some schemaVersion)
    {g : Guard} (hsound : P staged g) (ticket : Ticket) (outcome : Except Failure Payload) :
    Kept host P { s with
      live := live
      guard := g
      history := { s.history with
        replacements := s.history.replacements ++ [ticket]
        restores := s.history.restores + 1
        base := live.read.getD s.history.base
        applied := [] }
      phase := .replaced ticket outcome } staged where
  serves := hserves
  version := hversion
  sound := hsound
  chain := by
    rw [hserves.read]
    exact .nil staged
  telemetry := h.telemetry
  solo := h.solo
  maintenance := h.maintenance
  applied := List.forall_mem_nil _
  answers a ha := (h.answers a ha).restored _ (List.subset_append_left _ [ticket])

/-- Whether it succeeds or fails, a replacement keeps everything together; a
successful restore needs its guard rebuilt where the guard matters. -/
theorem Kept.runReplacement (hup : Upheld host P Loosens) {s : State β} {db : Store}
    (h : Kept host P s db) (a : EngineRun) (hreload : a.reloads = true ∨ ∀ db g, P db g)
    (q : Queued (Replacement β)) (hoffered : q.work = .compact → s.live.isFile = true) :
    ∃ db', Kept host P (s.runReplacement lib a q) db' := by
  unfold State.runReplacement
  cases hwork : q.work with
  | compact =>
    have hserves : (applyMaintenance a.compact s.live).2.Serves db :=
      applyMaintenance_spec h.serves h.servable (hoffered hwork)
    exact ⟨db, (h.unreplaced hserves _ _).reload hup a.reloads⟩
  | restore archive =>
    rcases @restore_spec β lib a.restore archive s.live db h.serves h.servable with
      ⟨report, staged, hbuild, hok, hserves⟩ | ⟨⟨e, he⟩, hserves⟩
    · have hrestorable : Restorable (s.live.switched staged db) :=
        switched_restorable (buildStaging_restorable hbuild) h.version
      refine ⟨s.live.switched staged db, ?_⟩
      have hsound : P (s.live.switched staged db)
          (if a.reloads = true then Guard.load (s.live.switched staged db) else s.guard) := by
        rcases hreload with hr | hall
        · rw [if_pos hr]
          exact hup.restored _ hrestorable
        · exact hall _ _
      simp only [replacement, hok, Except.toBool, if_true, State.reload, hserves.readPrototype]
      exact h.replaced hserves hrestorable.version hsound (q.ticket .replace) _
    · refine ⟨db, ?_⟩
      simp only [replacement, he, Except.toBool]
      exact (h.unreplaced hserves _ _).reload hup a.reloads

/-! ## Jobs are neither lost nor answered twice -/

/-- The jobs the writer holds in a phase. -/
def Phase.jobs : Phase β → List (Job β)
  | .idle deferred => deferred.toList
  | .gathering group => group.map .batch
  | .draining q => [.replace q]
  | .replaced _ _ => []

/-- The replacement that ran and has not been answered. -/
def Phase.pending : Phase β → List Ticket
  | .replaced ticket _ => [ticket]
  | _ => []

/-- The generation once a replacement that ran has been counted. -/
def reached (s : State β) : Nat := s.generation + (Phase.pending s.phase).length

/-- The jobs that have not been run or refused. -/
def outstanding (s : State β) : List (Job β) := s.built ++ Phase.jobs s.phase ++ s.queue

/-- Every ticket there has been, when the writer has these jobs in hand. -/
def tickets (s : State β) (held : List (Job β)) : List Ticket :=
  (held ++ outstanding s).map Job.ticket ++ Phase.pending s.phase ++
    s.answers.map fun a => a.reply.ticket

/-- A compaction is only asked of a hub with a file. -/
def Offered (live : Live) : Job β → Prop
  | .replace q => q.work = .compact → live.isFile = true
  | _ => True

/-- The queue, the phase and the generation fit together. -/
structure Placed (s : State β) (held : List (Job β)) : Prop where
  /-- The generation counts the executed replacements. -/
  count : reached s = s.epoch
  /-- Each was accepted against the generation it ended. -/
  generations : s.history.replacements.map Ticket.generation = List.range s.epoch
  /-- While it drains for a replacement, that is of the generation. -/
  draining : ∀ q, s.phase = .draining q → q.generation = s.generation
  /-- What waits to be answered is a replacement that ran. -/
  pending : ∀ t ∈ Phase.pending s.phase, t.kind = .replace ∧ t ∈ s.history.replacements
  /-- What is held or outstanding was offered to this file. -/
  offered : ∀ j ∈ held ++ outstanding s, Offered s.live j
  /-- And it was submitted. -/
  submitted : ∀ j ∈ held ++ outstanding s, j ∈ s.submitted
  /-- Every ticket is in one place. -/
  ids : ((tickets s held).map Ticket.id).Perm (List.range s.nextId)

/-- What a step leaves alone that only answers some jobs and writes. -/
structure Settles (s s' : State β) (settled : List Ticket) : Prop where
  /-- The writer is where it was. -/
  phase : s'.phase = s.phase
  /-- So is its queue. -/
  queue : s'.queue = s.queue
  /-- And the group it was building. -/
  built : s'.built = s.built
  /-- The generation is the same. -/
  generation : s'.generation = s.generation
  /-- No ticket is given. -/
  nextId : s'.nextId = s.nextId
  /-- No file is replaced. -/
  replacements : s'.history.replacements = s.history.replacements
  /-- The file stays what it is. -/
  isFile : s'.live.isFile = s.live.isFile
  /-- Nothing is submitted. -/
  submitted : s'.submitted = s.submitted
  /-- The answers gain those of the settled tickets. -/
  answers : (s'.answers.map fun a => a.reply.ticket).Perm
    ((s.answers.map fun a => a.reply.ticket) ++ settled)

/-- Answering a list of jobs settles just these. -/
theorem answerAll_settles (s : State β) (rs : List Reply) {settled : List Ticket}
    (hrs : (rs.map Reply.ticket).Perm settled) : Settles s (s.answerAll rs) settled where
  phase := rfl
  queue := rfl
  built := rfl
  generation := rfl
  nextId := rfl
  replacements := rfl
  isFile := rfl
  submitted := rfl
  answers := by
    have hmap : ((s.answerAll rs).answers.map fun a => a.reply.ticket) =
        (s.answers.map fun a => a.reply.ticket) ++ rs.map Reply.ticket := by
      simp only [State.answerAll, List.map_append, List.map_map]
      rfl
    rw [hmap]
    exact hrs.append_left _

/-- Answering one job settles just this one. -/
theorem answer_settles (s : State β) (r : Reply) : Settles s (s.answer r) [r.ticket] :=
  answerAll_settles s [r] (.refl _)

/-- A change of what is served, of the guard or of what is recorded of writes
comes before the answers and touches none of this. -/
theorem Settles.after {s s₁ s₂ : State β} {settled : List Ticket} (h : Settles s₁ s₂ settled)
    (hphase : s₁.phase = s.phase) (hqueue : s₁.queue = s.queue) (hbuilt : s₁.built = s.built)
    (hgeneration : s₁.generation = s.generation) (hnext : s₁.nextId = s.nextId)
    (hreplacements : s₁.history.replacements = s.history.replacements)
    (hfile : s₁.live.isFile = s.live.isFile) (hsubmitted : s₁.submitted = s.submitted)
    (hanswers : s₁.answers = s.answers) : Settles s s₂ settled where
  phase := h.phase.trans hphase
  queue := h.queue.trans hqueue
  built := h.built.trans hbuilt
  generation := h.generation.trans hgeneration
  nextId := h.nextId.trans hnext
  replacements := h.replacements.trans hreplacements
  isFile := h.isFile.trans hfile
  submitted := h.submitted.trans hsubmitted
  answers := hanswers ▸ h.answers

/-- A reload changes the guard at most. -/
theorem reload_eq (s : State β) (reloads : Bool) : ∃ g, s.reload reloads = { s with guard := g } := by
  unfold State.reload
  split
  · exact ⟨_, rfl⟩
  · exact ⟨s.guard, rfl⟩

/-- A group is answered job by job. -/
theorem runGroup_settles (s : State β) (a : EngineRun) (group : List (Queued Telemetry))
    {db : Store} (hread : s.live.read = some db) (htrue : Upheld host P Loosens) (hP : P db s.guard) :
    Settles s (s.runGroup host a group) (group.map fun q => q.ticket .batch) := by
  have hlawful : ∀ j ∈ group.map (Queued.batchJob host a), j.Lawful P Loosens := by
    intro j hj
    obtain ⟨q, -, rfl⟩ := List.mem_map.mp hj
    exact ⟨htrue.telemetry q.work _, htrue.telemetry q.work _⟩
  have hturn := runBatch_accounted htrue.regime s.generation true a.shared a.replays hlawful hP
  unfold State.runGroup
  rw [hread]
  dsimp only
  generalize runBatch s.generation true a.shared a.replays _ db s.guard = turn at hturn
  have htickets := hturn.tickets
  rw [List.map_map] at htickets
  refine (answerAll_settles _ turn.replies htickets).after rfl rfl rfl rfl rfl rfl ?_ rfl rfl
  exact isFile_write s.live _

/-- A closure is answered once. -/
theorem runSolo_settles (s : State β) (a : EngineRun) (q : Queued Solo) :
    Settles s (s.runSolo host a q) [q.ticket .solo] := by
  unfold State.runSolo
  by_cases hgen : q.generation ≠ s.generation
  · rw [if_pos hgen]
    exact answer_settles s (refusal superseded (q.ticket .solo))
  · rw [if_neg hgen]
    cases s.live.read with
    | none => exact answer_settles s (refusal databaseClosed (q.ticket .solo))
    | some db =>
      dsimp only
      generalize (q.work.job host).body a.solo db s.guard = ran
      obtain ⟨r, db', g⟩ := ran
      cases r with
      | ok p =>
        exact (answer_settles _ ⟨q.ticket .solo, .ok p, .committed⟩).after rfl rfl rfl rfl rfl rfl
          (isFile_write s.live _) rfl rfl
      | error e =>
        dsimp only
        generalize hs₁ : State.mk _ _ _ _ _ _ _ _ _ _ = s₁
        obtain ⟨g', hg'⟩ := reload_eq s₁ a.reloads
        rw [hg', ← hs₁]
        exact (answer_settles _ ⟨q.ticket .solo, .error e, .failed⟩).after rfl rfl rfl rfl rfl rfl
          (isFile_write s.live _) rfl rfl

/-- So is a maintenance plan. -/
theorem runMaintenance_settles (s : State β) (a : EngineRun) (q : Queued Unit) :
    Settles s (s.runMaintenance a q) [q.ticket .maintenance] := by
  unfold State.runMaintenance
  by_cases hgen : q.generation ≠ s.generation
  · rw [if_pos hgen]
    exact answer_settles s (refusal superseded (q.ticket .maintenance))
  · rw [if_neg hgen]
    cases s.live.read with
    | none => exact answer_settles s (refusal databaseClosed (q.ticket .maintenance))
    | some db =>
      unfold planMaintenance
      dsimp only
      cases a.reusable with
      | ok n =>
        exact (answer_settles _ ⟨q.ticket .maintenance, _, .committed⟩).after rfl rfl rfl rfl rfl
          rfl (isFile_checkpoint s.live) rfl rfl
      | error e =>
        dsimp only [Except.map]
        generalize hs₁ : State.mk _ _ _ _ _ _ _ _ _ _ = s₁
        obtain ⟨g', hg'⟩ := reload_eq s₁ a.reloads
        rw [hg', ← hs₁]
        exact (answer_settles _ ⟨q.ticket .maintenance, .error e, .failed⟩).after rfl rfl rfl rfl
          rfl rfl (isFile_checkpoint s.live) rfl rfl

/-- Moving jobs between the writer's hands, the phase and the queue. -/
theorem Placed.move {s s' : State β} {held held' : List (Job β)} (h : Placed s held)
    (hjobs : (held' ++ outstanding s').Perm (held ++ outstanding s))
    (hpending : Phase.pending s'.phase = Phase.pending s.phase)
    (hgeneration : s'.generation = s.generation) (hnext : s'.nextId = s.nextId)
    (hreplacements : s'.history.replacements = s.history.replacements)
    (hfile : s'.live.isFile = s.live.isFile) (hsubmitted : s'.submitted = s.submitted)
    (hanswers : s'.answers = s.answers)
    (hdraining : ∀ q, s'.phase = .draining q → q.generation = s'.generation) :
    Placed s' held' where
  count := by
    have hepoch : s'.epoch = s.epoch := by rw [State.epoch, hreplacements, State.epoch]
    rw [hepoch, reached, hpending, hgeneration]
    exact h.count
  generations := by
    rw [State.epoch, hreplacements]
    exact h.generations
  draining := hdraining
  pending := by
    rw [hpending, hreplacements]
    exact h.pending
  offered j hj := by
    have hold : Offered s.live j := h.offered j (hjobs.subset hj)
    cases j with
    | replace q =>
      intro hwork
      rw [hfile]
      exact hold hwork
    | _ => trivial
  submitted j hj := by
    rw [hsubmitted]
    exact h.submitted j (hjobs.subset hj)
  ids := by
    have htickets : (tickets s' held').Perm (tickets s held) := by
      unfold tickets
      rw [hpending, hanswers]
      exact ((hjobs.map _).append_right _).append_right _
    rw [hnext]
    exact (htickets.map _).trans h.ids

/-- Answering the jobs in hand. -/
theorem Placed.settle {s s' : State β} {held : List (Job β)} (h : Placed s held)
    (hs : Settles s s' (held.map Job.ticket)) : Placed s' [] where
  count := by
    have hepoch : s'.epoch = s.epoch := by rw [State.epoch, hs.replacements, State.epoch]
    rw [hepoch, reached, hs.phase, hs.generation]
    exact h.count
  generations := by
    rw [State.epoch, hs.replacements]
    exact h.generations
  draining q hq := by
    rw [hs.generation]
    exact h.draining q (hs.phase ▸ hq)
  pending := by
    rw [hs.phase, hs.replacements]
    exact h.pending
  offered j hj := by
    rw [List.nil_append, outstanding, hs.built, hs.phase, hs.queue] at hj
    have hold : Offered s.live j := h.offered j (List.mem_append_right _ hj)
    cases j with
    | replace q =>
      intro hwork
      rw [hs.isFile]
      exact hold hwork
    | _ => trivial
  submitted j hj := by
    rw [List.nil_append, outstanding, hs.built, hs.phase, hs.queue] at hj
    rw [hs.submitted]
    exact h.submitted j (List.mem_append_right _ hj)
  ids := by
    have htickets : (tickets s' []).Perm (tickets s held) := by
      have hanswers := hs.answers
      unfold tickets outstanding
      have hsplit : (held ++ (s.built ++ Phase.jobs s.phase ++ s.queue)).map Job.ticket =
          held.map Job.ticket ++ (s.built ++ Phase.jobs s.phase ++ s.queue).map Job.ticket :=
        List.map_append
      rw [hs.built, hs.phase, hs.queue, List.nil_append, hsplit]
      generalize (s.answers.map fun a => a.reply.ticket) = old at hanswers
      generalize (s.built ++ Phase.jobs s.phase ++ s.queue).map Job.ticket = rest
      have hall := hanswers.append_left (rest ++ Phase.pending s.phase)
      rw [← List.append_assoc] at hall
      refine hall.trans (List.perm_append_comm.trans ?_)
      rw [List.append_assoc, List.append_assoc, List.append_assoc]
    rw [hs.nextId]
    exact (htickets.map _).trans h.ids

/-- The replacement in hand ran: the generation is about to advance. -/
theorem Placed.runReplacement {s : State β} {q : Queued (Replacement β)} (h : Placed s [])
    (hphase : s.phase = .draining q) (a : EngineRun) : Placed (s.runReplacement lib a q) [] := by
  have hgen : q.generation = s.generation := h.draining q hphase
  have hcount : s.generation = s.history.replacements.length := by
    have hold := h.count
    rw [reached, hphase] at hold
    exact hold
  obtain ⟨live, g, history, outcome, hrun, hreplacements, hfile⟩ : ∃ live g history outcome,
      s.runReplacement lib a q = { s with
        live := live
        guard := g
        history := history
        phase := .replaced (q.ticket .replace) outcome } ∧
      history.replacements = s.history.replacements ++ [q.ticket .replace] ∧
      live.isFile = s.live.isFile := by
    unfold State.runReplacement
    have hfile : (replacement lib s.live a q.work).2.1.isFile = s.live.isFile := by
      cases q.work with
      | restore archive => exact isFile_restore lib a.restore archive s.live
      | compact => exact isFile_applyMaintenance a.compact s.live
    generalize replacement lib s.live a q.work = ran at hfile
    obtain ⟨outcome, live, restored⟩ := ran
    dsimp only
    generalize hs₁ : State.mk _ _ _ _ _ _ _ _ _ _ = s₁
    obtain ⟨g', hg'⟩ := reload_eq s₁ a.reloads
    rw [hg', ← hs₁]
    refine ⟨live, g', _, outcome, rfl, ?_, hfile⟩
    cases restored with
    | true => rfl
    | false => rfl
  rw [hrun]
  have hlength : history.replacements.length = s.history.replacements.length + 1 := by
    rw [hreplacements, List.length_append, List.length_singleton]
  have hfewer : outstanding { s with
      live := live
      guard := g
      history := history
      phase := .replaced (q.ticket .replace) outcome } ⊆ outstanding s := by
    intro j hj
    rcases List.mem_append.mp hj with hj | hj
    · rcases List.mem_append.mp hj with hj | hj
      · exact List.mem_append_left _ (List.mem_append_left _ hj)
      · cases hj
    · exact List.mem_append_right _ hj
  refine ⟨?_, ?_, nofun, ?_, ?_, ?_, ?_⟩
  · change s.generation + 1 = history.replacements.length
    omega
  · change history.replacements.map Ticket.generation = List.range history.replacements.length
    have hold : s.history.replacements.map Ticket.generation =
        List.range s.history.replacements.length := h.generations
    rw [hlength, List.range_succ, hreplacements, List.map_append, hold, ← hcount, ← hgen]
    rfl
  · intro t ht
    change t.kind = .replace ∧ t ∈ history.replacements
    rw [List.mem_singleton.mp ht, hreplacements]
    exact ⟨rfl, List.mem_append_right _ (List.mem_singleton_self _)⟩
  · intro j hj
    have hold : Offered s.live j := h.offered j (hfewer hj)
    cases j with
    | replace q' =>
      intro hwork
      exact hfile.trans (hold hwork)
    | _ => trivial
  · intro j hj
    exact h.submitted j (hfewer hj)
  · refine List.Perm.trans ?_ h.ids
    refine List.Perm.map _ ?_
    unfold tickets outstanding
    simp only [hphase, Phase.jobs, Phase.pending, List.nil_append, List.append_nil,
      List.map_append, List.map_cons, List.map_nil, List.append_assoc]
    refine List.Perm.append_left _ ?_
    exact List.perm_middle

/-! ## Steps and runs -/

/-- The hub is in order: what is served, what is queued and what was said. -/
structure Sustained (host : Host) (P : Store → Guard → Prop) (s : State β) : Prop where
  /-- The store behind the file is kept sound. -/
  kept : ∃ db, Kept host P s db
  /-- Every job is where it belongs. -/
  placed : Placed s []

/-- Between jobs the generation has caught up with the replacements. -/
theorem Placed.caughtUp {s : State β} {held : List (Job β)} (h : Placed s held)
    (hpending : Phase.pending s.phase = []) : s.generation = s.epoch := by
  have hcount := h.count
  rw [reached, hpending] at hcount
  exact hcount

/-- Running a group in hand. -/
theorem Sustained.runGroup (hup : Upheld host P Loosens) {s : State β} {db : Store}
    (hkept : Kept host P s db) {group : List (Queued Telemetry)}
    (hplaced : Placed s (group.map .batch)) (hpending : Phase.pending s.phase = [])
    (a : EngineRun) : Sustained host P (s.runGroup host a group) where
  kept := by
    refine hkept.runGroup hup (hplaced.caughtUp hpending) a ?_
    intro q hq
    exact hplaced.submitted _ (List.mem_append_left _ (List.mem_map_of_mem hq))
  placed := by
    refine hplaced.settle ?_
    rw [List.map_map]
    exact runGroup_settles s a group hkept.serves.read hup hkept.sound

/-- The next job. -/
theorem Sustained.dispatch (hup : Upheld host P Loosens) {s : State β} {db : Store}
    (hkept : Kept host P s db) {j : Job β} (hplaced : Placed s [j]) (hidle : s.phase = .idle none)
    (a : EngineRun) : Sustained host P (s.dispatch host a j) := by
  have hcaught : s.generation = s.epoch := hplaced.caughtUp (by rw [hidle]; rfl)
  have hphase : ∀ p : Phase β, Phase.jobs p = [j] → Phase.pending p = [] →
      (∀ q, p = .draining q → q.generation = s.generation) →
      Sustained host P { s with phase := p } := by
    intro p hjobs hpending hdraining
    refine ⟨⟨db, hkept.congr rfl rfl rfl rfl (List.Subset.refl _)⟩, ?_⟩
    refine hplaced.move ?_ ?_ rfl rfl rfl rfl rfl rfl hdraining
    · have hafter : outstanding { s with phase := p } = s.built ++ [j] ++ s.queue := by
        rw [← hjobs]
        rfl
      have hbefore : outstanding s = s.built ++ s.queue := by
        rw [outstanding, hidle, Phase.jobs, Option.toList_none, List.append_nil]
      rw [hafter, hbefore, List.nil_append, List.append_assoc]
      exact List.perm_middle
    · rw [hidle, hpending]
      rfl
  cases j with
  | batch q => exact hphase _ rfl rfl nofun
  | solo q =>
    have hsubmitted : Job.solo q ∈ s.submitted := hplaced.submitted _ List.mem_cons_self
    exact ⟨hkept.runSolo hup hcaught a hsubmitted, hplaced.settle (runSolo_settles s a q)⟩
  | maintenance q =>
    have hsubmitted : Job.maintenance q ∈ s.submitted := hplaced.submitted _ List.mem_cons_self
    exact ⟨⟨db, hkept.runMaintenance hup hcaught a hsubmitted⟩,
      hplaced.settle (runMaintenance_settles s a q)⟩
  | replace q =>
    unfold State.dispatch
    dsimp only
    by_cases hgen : q.generation ≠ s.generation
    · rw [if_pos hgen]
      exact ⟨⟨db, hkept.answer (backed_refusal s.history superseded _)⟩,
        hplaced.settle (answer_settles s (refusal superseded (q.ticket .replace)))⟩
    · rw [if_neg hgen]
      refine hphase _ rfl rfl ?_
      intro q' hq'
      cases hq'
      exact not_not.mp hgen

/-- A group takes another job, or is run with the queue's next job put aside. -/
theorem gather_cases (s : State β) (a : EngineRun) (group : List (Queued Telemetry)) :
    (∃ q rest, s.queue = .batch q :: rest ∧
      s.gather host a group = { s with queue := rest, phase := .gathering (group ++ [q]) }) ∨
    ∃ deferred rest, s.queue = Option.toList deferred ++ rest ∧
      s.gather host a group =
        State.runGroup host { s with queue := rest, phase := .idle deferred } a group := by
  unfold State.gather
  by_cases hfull : group.length < batchCapacity
  · rw [if_pos hfull]
    cases hqueue : s.queue with
    | nil => exact .inr ⟨none, [], rfl, rfl⟩
    | cons j rest =>
      cases j with
      | batch q => exact .inl ⟨q, rest, rfl, rfl⟩
      | _ => exact .inr ⟨some _, rest, rfl, rfl⟩
  · rw [if_neg hfull]
    exact .inr ⟨none, s.queue, rfl, rfl⟩

/-- Collecting a group. -/
theorem Sustained.gather (hup : Upheld host P Loosens) {s : State β} (h : Sustained host P s)
    {group : List (Queued Telemetry)} (hphase : s.phase = .gathering group) (a : EngineRun) :
    Sustained host P (s.gather host a group) := by
  obtain ⟨db, hkept⟩ := h.kept
  rcases gather_cases s a group with ⟨q, rest, hqueue, hrun⟩ | ⟨deferred, rest, hqueue, hrun⟩
  · rw [hrun]
    refine ⟨⟨db, hkept.congr rfl rfl rfl rfl (List.Subset.refl _)⟩, ?_⟩
    refine h.placed.move ?_ (by rw [hphase]; rfl) rfl rfl rfl rfl rfl rfl nofun
    simp only [outstanding, hphase, hqueue, Phase.jobs, List.map_append, List.map_cons,
      List.map_nil, List.append_assoc, List.singleton_append, List.nil_append]
    exact .refl _
  · rw [hrun]
    have hmoved : Kept host P { s with queue := rest, phase := .idle deferred } db :=
      hkept.congr rfl rfl rfl rfl (List.Subset.refl _)
    refine Sustained.runGroup hup hmoved ?_ rfl a
    refine h.placed.move ?_ (by rw [hphase]; rfl) rfl rfl rfl rfl rfl rfl nofun
    simp only [outstanding, hphase, hqueue, Phase.jobs, List.append_assoc, List.nil_append]
    rw [← List.append_assoc, ← List.append_assoc s.built]
    exact List.perm_append_comm.append_right _

/-- Refusing what is queued, or replacing. -/
theorem Sustained.drain (hup : Upheld host P Loosens) {s : State β} (h : Sustained host P s)
    {q : Queued (Replacement β)} (hphase : s.phase = .draining q) (a : EngineRun)
    (hreload : a.reloads = true ∨ ∀ db g, P db g) : Sustained host P (s.drain lib a q) := by
  obtain ⟨db, hkept⟩ := h.kept
  unfold State.drain
  cases hqueue : s.queue with
  | nil =>
    dsimp only
    refine ⟨hkept.runReplacement hup a hreload q ?_, h.placed.runReplacement hphase a⟩
    refine h.placed.offered (.replace q) ?_
    rw [outstanding, hphase]
    simp only [Phase.jobs, List.mem_append, List.mem_singleton, true_or, or_true]
  | cons j rest =>
    dsimp only
    have hmoved : Kept host P { s with queue := rest } db := hkept.congr rfl rfl rfl rfl (List.Subset.refl _)
    refine ⟨⟨db, hmoved.answer (backed_refusal _ superseded _)⟩, ?_⟩
    have hsettles := answer_settles { s with queue := rest } (refusal superseded j.ticket)
    refine Placed.settle (show Placed { s with queue := rest } [j] from ?_) hsettles
    refine h.placed.move ?_ rfl rfl rfl rfl rfl rfl rfl h.placed.draining
    simp only [outstanding, hqueue, List.nil_append]
    rw [← List.append_assoc, List.singleton_append]
    exact List.perm_middle.symm

/-- A replacement that ran is counted and answered. -/
theorem Sustained.advance {s : State β} (h : Sustained host P s) {ticket : Ticket}
    {outcome : Except Failure Payload} (hphase : s.phase = .replaced ticket outcome) :
    Sustained host P (State.answer
      { s with generation := s.generation + 1, phase := .idle none }
      ⟨ticket, outcome, statusOf outcome⟩) := by
  obtain ⟨db, hkept⟩ := h.kept
  have hin : ticket ∈ Phase.pending s.phase := by
    rw [hphase]
    exact List.mem_singleton_self _
  obtain ⟨hkind, hexecuted⟩ := h.placed.pending ticket hin
  have hmoved : Kept host P { s with generation := s.generation + 1, phase := .idle none } db :=
    hkept.congr rfl rfl rfl rfl (List.Subset.refl _)
  refine ⟨⟨db, hmoved.answer ⟨le_rfl, ?_, fun _ _ => hexecuted⟩⟩, ?_⟩
  · intro p _ hwrite
    rcases hwrite with hw | hw
    · rw [hkind] at hw
      cases hw
    · rw [hkind] at hw
      cases hw
  · have hcount := h.placed.count
    rw [reached, hphase] at hcount
    have hsame : outstanding s = outstanding
        { s with generation := s.generation + 1, phase := .idle none } := by
      rw [outstanding, hphase]
      rfl
    refine ⟨hcount, h.placed.generations, nofun, nofun, ?_, ?_, ?_⟩
    · intro j hj
      refine h.placed.offered j ?_
      rw [hsame]
      exact hj
    · intro j hj
      refine h.placed.submitted j ?_
      rw [hsame]
      exact hj
    · refine List.Perm.trans ?_ h.placed.ids
      refine List.Perm.map _ ?_
      simp only [tickets, outstanding, State.answer, hphase, Phase.jobs, Phase.pending,
        Option.toList_none, List.nil_append, List.append_nil, List.map_append, List.map_cons,
        List.map_nil, List.append_assoc]
      exact (List.perm_append_comm.append_left _).append_left _

/-- One step of the writer. -/
theorem Sustained.writerStep (hup : Upheld host P Loosens) {s : State β} (h : Sustained host P s)
    (a : EngineRun) (hreload : a.reloads = true ∨ ∀ db g, P db g) :
    Sustained host P (s.writerStep lib host a) := by
  obtain ⟨db, hkept⟩ := h.kept
  unfold State.writerStep
  cases hphase : s.phase with
  | idle deferred =>
    cases deferred with
    | some j =>
      dsimp only
      have hmoved : Kept host P { s with phase := .idle none } db := hkept.congr rfl rfl rfl rfl (List.Subset.refl _)
      refine Sustained.dispatch hup hmoved ?_ rfl a
      refine h.placed.move ?_ (by rw [hphase]; rfl) rfl rfl rfl rfl rfl rfl nofun
      simp only [outstanding, hphase, Phase.jobs, Option.toList_none, Option.toList_some,
        List.nil_append, List.append_nil, List.append_assoc, List.singleton_append]
      exact List.perm_middle.symm
    | none =>
      dsimp only
      cases hqueue : s.queue with
      | nil => exact h
      | cons j rest =>
        dsimp only
        have hmoved : Kept host P { s with queue := rest, phase := .idle none } db :=
          hkept.congr rfl rfl rfl rfl (List.Subset.refl _)
        refine Sustained.dispatch hup hmoved ?_ rfl a
        refine h.placed.move ?_ (by rw [hphase]) rfl rfl rfl rfl rfl rfl nofun
        simp only [outstanding, hphase, hqueue, Phase.jobs, Option.toList_none,
          List.nil_append, List.append_nil, List.singleton_append]
        exact List.perm_middle.symm
  | gathering group => exact h.gather hup hphase a
  | draining q => exact h.drain hup hphase a hreload
  | replaced ticket outcome => exact h.advance hphase

/-- The job a caller builds is offered when the request was. -/
theorem job_offered {live : Live} {r : Request β} (h : r.offered live = true) (id generation : Nat) :
    Offered live (r.job id generation) := by
  cases r with
  | replace w =>
    intro hw
    change w = .compact at hw
    rw [hw] at h
    exact h
  | _ => trivial

/-- Whatever happens next, the hub stays in order; a step of the writer that
finishes a restore has to rebuild the guard where the guard matters. -/
theorem Sustained.step (hup : Upheld host P Loosens) {s : State β} (h : Sustained host P s)
    (e : Event β) (hreload : ∀ a, e = .write a → a.reloads = true ∨ ∀ db g, P db g) :
    Sustained host P (s.step lib host e) := by
  obtain ⟨db, hkept⟩ := h.kept
  cases e with
  | build r =>
    unfold State.step
    dsimp only
    by_cases hoffered : r.offered s.live = true
    · rw [if_pos hoffered]
      refine ⟨⟨db, hkept.congr rfl rfl rfl rfl (List.subset_append_left _ _)⟩, ?_⟩
      have hmore : ∀ j ∈ [] ++ outstanding { s with
          built := s.built ++ [r.job s.nextId s.generation] },
          j ∈ [] ++ outstanding s ∨ j = r.job s.nextId s.generation := by
        intro j hj
        simp only [outstanding, List.nil_append, List.mem_append, List.mem_singleton] at hj ⊢
        tauto
      refine ⟨h.placed.count, h.placed.generations, h.placed.draining, h.placed.pending, ?_, ?_, ?_⟩
      · intro j hj
        rcases hmore j hj with hj | rfl
        · exact h.placed.offered j hj
        · exact job_offered hoffered s.nextId s.generation
      · intro j hj
        rcases hmore j hj with hj | rfl
        · exact List.mem_append_left _ (h.placed.submitted j hj)
        · exact List.mem_append_right _ (List.mem_singleton_self _)
      · have hid : (r.job s.nextId s.generation).ticket.id = s.nextId := by cases r <;> rfl
        have hids := (h.placed.ids.append_right [s.nextId])
        rw [← List.range_succ] at hids
        refine List.Perm.trans ?_ hids
        generalize r.job s.nextId s.generation = j at hid
        rw [← hid]
        refine List.perm_iff_count.mpr ?_
        intro id
        simp only [tickets, outstanding, List.nil_append, List.map_append, List.map_cons,
          List.map_nil, List.count_append]
        omega
    · rw [if_neg hoffered]
      exact h
  | send i =>
    unfold State.step
    dsimp only
    cases hj : s.built[i]? with
    | none => exact h
    | some j =>
      refine ⟨⟨db, hkept.congr rfl rfl rfl rfl (List.Subset.refl _)⟩, ?_⟩
      refine h.placed.move ?_ rfl rfl rfl rfl rfl rfl rfl h.placed.draining
      obtain ⟨hlt, hget⟩ := List.getElem?_eq_some_iff.mp hj
      have htaken : s.built.Perm (j :: s.built.eraseIdx i) := by
        rw [← hget]
        exact (List.getElem_cons_eraseIdx_perm hlt).symm
      have hmoved := (List.perm_append_singleton j (s.built.eraseIdx i ++
        (Phase.jobs s.phase ++ s.queue)))
      have hsame := (htaken.append_right (Phase.jobs s.phase ++ s.queue)).symm
      rw [List.cons_append] at hsame
      simp only [outstanding, List.nil_append, List.append_assoc] at hmoved ⊢
      exact hmoved.trans hsame
  | write a => exact h.writerStep hup a (hreload a rfl)

/-- A hub opened on a database of this version is in order. -/
theorem opened_sustained {live : Live} {db : Store} (hserves : live.Serves db)
    (hversion : storedVersion db = some schemaVersion) (hsound : P db (Guard.load db)) :
    Sustained host P (opened live db : State β) where
  kept := ⟨db, hserves, hversion, hsound, .nil db, List.forall_mem_nil _, List.forall_mem_nil _,
    List.forall_mem_nil _, List.forall_mem_nil _, List.forall_mem_nil _⟩
  placed := ⟨rfl, rfl, nofun, List.forall_mem_nil _, List.forall_mem_nil _, List.forall_mem_nil _,
    .refl _⟩

/-- Every run keeps the hub in order. -/
theorem Sustained.run (lib : Libraries β) (hup : Upheld host P Loosens) {events : List (Event β)}
    (hreload : ∀ a, Event.write a ∈ events → a.reloads = true ∨ ∀ db g, P db g) {s : State β}
    (h : Sustained host P s) : Sustained host P (s.run lib host events) := by
  induction events generalizing s with
  | nil => exact h
  | cons e rest ih =>
    refine ih ?_ ?_
    · intro a ha
      exact hreload a (List.mem_cons_of_mem e ha)
    · refine h.step hup e ?_
      rintro a rfl
      exact hreload a List.mem_cons_self

end Machine

end Romi.WriterRuns
