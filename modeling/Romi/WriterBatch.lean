import Romi.GroupCommit
import Romi.StoreOperations

/-!
# The writer's group commit

`runBatch` is one turn of the writer over queued telemetry: stale jobs are
refused, the rest share a transaction, and a failing one sends them all
through a replay. `oneByOne` is the same jobs each in its own transaction, in
the order they were submitted.
-/

namespace Romi.WriterBatch

open CachedTransactions GroupCommit StoreGuard StoreGuard.Guard StoreInvariant StoreJobs
  StoreOperations StoreSchema

/-- `SUPERSEDED`. -/
def superseded : String := "数据库已被恢复或重建，这次写入没有执行；请重试"

/-- The refusal of a writer without a connection. -/
def databaseClosed : String := "数据库已关闭"

/-- The final outcome of one accepted operation. -/
inductive Status
  | committed | refused | failed
  deriving DecidableEq

/-- How a job relates to other work. -/
inductive Kind
  | batch | solo | maintenance | replace
  deriving DecidableEq

/-- What the writer knows of a job before it runs it. -/
structure Ticket where
  /-- Its number. -/
  id : Nat
  /-- What kind of job it is for. -/
  kind : Kind
  /-- The database generation the job was accepted against. -/
  generation : Nat
  deriving DecidableEq

/-- One job's answer. -/
structure Reply where
  /-- Whose it is. -/
  ticket : Ticket
  /-- What came of the job. -/
  outcome : Except Failure Payload
  /-- Whether it was committed, failed or was refused. -/
  status : Status

/-- A job of `Kind::Batch`: its body and its replay. -/
abbrev BatchJob : Type := Task Ticket Store Guard Payload

/-- What the engine says around a transaction, in its own words. -/
structure EngineAnswers where
  /-- How `BEGIN` fails. -/
  begins : Option String
  /-- How `COMMIT` fails. -/
  commits : Option String
  /-- Whether the guard can be loaded again. -/
  reloads : Bool

/-- The answers as `run_batch` passes them on. -/
def EngineAnswers.shared (a : EngineAnswers) : Answers where
  begins := a.begins.map fun e => .declined s!"could not open a transaction: {e}"
  commits := a.commits.map fun e => .declined s!"commit failed: {e}"
  reloads := a.reloads

/-- The answers as `run_alone` passes them on. -/
def EngineAnswers.alone (a : EngineAnswers) : Answers where
  begins := a.begins.map fun e => .declined e
  commits := a.commits.map fun e => .declined e
  reloads := a.reloads

/-- The status `resolve` is called with for a job that ran. -/
def statusOf : Except Failure Payload → Status
  | .ok _ => .committed
  | .error _ => .failed

/-- The answer to a job that ran. -/
def answered (r : Ticket × Except Failure Payload) : Reply := ⟨r.1, r.2, statusOf r.2⟩

/-- The answer to a job that is not run. -/
def refusal (text : String) (ticket : Ticket) : Reply := ⟨ticket, .error (.declined text), .refused⟩

/-- What one turn of the writer did. -/
structure Turn where
  /-- The replies, in order. -/
  replies : List Reply
  /-- The store in the end. -/
  db : Store
  /-- The guard in the end. -/
  guard : Guard
  /-- What has run. -/
  executions : List (Execution Ticket Store Guard Payload)
  /-- What was committed of it. -/
  commits : List (Execution Ticket Store Guard Payload)

/-- A turn that only answers. -/
def Turn.idle (replies : List Reply) (db : Store) (g : Guard) : Turn := ⟨replies, db, g, [], []⟩

/-- A turn that ran jobs after refusing some. -/
def Turn.ran (refused : List Reply) (o : Outcome Ticket Store Guard Payload) : Turn :=
  ⟨refused ++ o.replies.map answered, o.db, o.cache, o.executions, o.commits⟩

/-- Whether a job was accepted against this generation. -/
def current (generation : Nat) (j : BatchJob) : Bool := j.id.generation == generation

/-- The refusals of the stale jobs. -/
def staleReplies (generation : Nat) (jobs : List BatchJob) : List Reply :=
  (jobs.filter fun j => !current generation j).map fun j => refusal superseded j.id

/-- The jobs that are run. -/
def liveJobs (generation : Nat) (jobs : List BatchJob) : List BatchJob :=
  jobs.filter fun j => current generation j

/-- `run_batch`. -/
def runBatch (generation : Nat) (connected : Bool) (a : EngineAnswers)
    (replays : Ticket → EngineAnswers) (jobs : List BatchJob) (db : Store) (g : Guard) : Turn :=
  let stale := staleReplies generation jobs
  let live := liveJobs generation jobs
  if live = [] then .idle stale db g
  else if connected = false then
    .idle (stale ++ live.map fun j => refusal databaseClosed j.id) db g
  else .ran stale (runGroup Guard.load a.shared (fun t => (replays t).alone) live db g)

/-- Each job in its own transaction, in submission order; stale ones are refused. -/
def oneByOne (generation : Nat) (answers : Ticket → EngineAnswers) :
    List BatchJob → Store → Guard → List Reply × Store
  | [], db, _ => ([], db)
  | j :: rest, db, g =>
    if current generation j then
      let o := runAlone Guard.load (answers j.id).alone j db g
      let last := oneByOne generation answers rest o.db o.cache
      (o.replies.map answered ++ last.1, last.2)
    else
      let last := oneByOne generation answers rest db g
      (refusal superseded j.id :: last.1, last.2)

/-- Neither begin nor commit fails. -/
def EngineAnswers.Clear (a : EngineAnswers) : Prop := a.begins = none ∧ a.commits = none

/-- What is clear is so for the group. -/
theorem EngineAnswers.Clear.shared {a : EngineAnswers} (h : a.Clear) : a.shared.Clear := by
  rw [Answers.Clear, EngineAnswers.shared, h.1, h.2]
  exact ⟨rfl, rfl⟩

/-- And for a job by itself. -/
theorem EngineAnswers.Clear.alone {a : EngineAnswers} (h : a.Clear) : a.alone.Clear := by
  rw [Answers.Clear, EngineAnswers.alone, h.1, h.2]
  exact ⟨rfl, rfl⟩

/-! ## The regime of the guard -/

/-- Reloading and raising keep a guard sound. -/
theorem sound_regime (related : Prop) : Regime Guard.load (Sound related) Raises where
  load h := sound_load h.related
  loose h hr := h.raises hr
  refl := Raises.refl
  trans := Raises.trans

/-- Reloading and raising keep a guard coherent. -/
theorem coherent_regime : Regime Guard.load Coherent Raises where
  load _ := load_coherent _
  loose h hr := h.raises hr
  refl := Raises.refl
  trans := Raises.trans

/-- A telemetry write as a task: the engine may refuse statements of either run. -/
def telemetryTask (host : Host) (ticket : Ticket) (op : Telemetry) (first alone : List Bool) :
    BatchJob :=
  ⟨ticket, (op.job host).body first, (op.job host).body alone⟩

/-- The body of a job is a run of its program. -/
theorem body_eq {α : Type} {x : StoreJobs.StoreJob α} {refusals : List Bool} {db db' : Store}
    {g g' : Guard} {r : Except Failure α} (h : x.body refusals db g = (r, db', g')) :
    ∃ s' : Session Store Guard, x ⟨db, g, refusals⟩ = (r, s') ∧ s'.db = db' ∧ s'.cache = g' := by
  obtain ⟨hr, hs⟩ := Prod.mk.inj h
  obtain ⟨hdb, hg⟩ := Prod.mk.inj hs
  exact ⟨(x ⟨db, g, refusals⟩).2, by rw [← hr], hdb, hg⟩

/-- Whatever the engine refuses, a telemetry body is lawful. -/
theorem telemetry_lawful (related : Prop) (host : Host) (op : Telemetry) (refusals : List Bool) :
    Lawful (Sound related) Raises ((op.job host).body refusals) where
  sound h hb := by
    obtain ⟨s', hrun, rfl, rfl⟩ := body_eq hb
    exact op.job_sound hrun h
  loosens h hb := by
    obtain ⟨s', hrun, rfl, rfl⟩ := body_eq hb
    exact (op.job_spec hrun h.coherent).1

/-- The same for coherence alone. -/
theorem telemetry_lawful_coherent (host : Host) (op : Telemetry) (refusals : List Bool) :
    Lawful Coherent Raises ((op.job host).body refusals) where
  sound h hb := ((telemetry_lawful False host op refusals).sound ⟨h, False.elim⟩ hb).coherent
  loosens h hb := (telemetry_lawful False host op refusals).loosens ⟨h, False.elim⟩ hb

/-- Refused nothing, a telemetry body has exactly its effect. -/
theorem telemetry_body (host : Host) (op : Telemetry) {db : Store} {g : Guard}
    (h : Coherent db g) : ∃ r db' g', (op.job host).body [] db g = (r, db', g') ∧
      ((∃ e, r = .error e ∧ op.effect host db = .error e) ∨
        ∃ p, r = .ok p ∧ op.effect host db = .ok (p, db')) := by
  refine ⟨_, _, _, rfl, ?_⟩
  have hsteady := op.steady host ⟨db, g, []⟩ rfl
  have hrun : op.job host ⟨db, g, []⟩ = ((op.job host ⟨db, g, []⟩).1, (op.job host ⟨db, g, []⟩).2) :=
    rfl
  rcases (op.job_spec hrun h).2 with he | hspec
  · exact absurd he hsteady.2
  · exact hspec

/-- Inside a group a telemetry write may meet any refusal; alone it meets none
and does what its effect says under every coherent guard. -/
theorem telemetry_restartable (host : Host) (ticket : Ticket) (op : Telemetry)
    (first : List Bool) : (telemetryTask host ticket op first []).Restartable Coherent where
  follows {db c d p db' c'} hc hd hb := by
    obtain ⟨s', hrun, rfl, rfl⟩ := body_eq hb
    obtain ⟨r, db'', d', halone, hout⟩ := telemetry_body host op hd
    rcases (op.job_spec hrun hc).2 with he | ⟨e, he, -⟩ | ⟨q, hq, heff⟩
    · cases he
    · cases he
    · rw [heff] at hout
      rcases hout with ⟨e, -, he⟩ | ⟨q', rfl, hq'⟩
      · cases he
      · cases hq'
        cases hq
        exact ⟨d', halone⟩
  agrees {db c d r db' c'} hc hd hb := by
    obtain ⟨r₁, db₁, g₁, hrun₁, hout₁⟩ := telemetry_body host op hc
    obtain ⟨r₂, db₂, g₂, hrun₂, hout₂⟩ := telemetry_body host op hd
    have hsame : (r, db', c') = (r₁, db₁, g₁) := hb.symm.trans hrun₁
    cases hsame
    refine ⟨db₂, g₂, ?_, ?_⟩
    · have hr : r₂ = r := by
        rcases hout₁ with ⟨e, rfl, he⟩ | ⟨p, rfl, hp⟩ <;>
          rcases hout₂ with ⟨e', rfl, he'⟩ | ⟨p', rfl, hp'⟩
        · rw [he, Except.error.injEq] at he'
          rw [he']
        · rw [he] at hp'
          cases hp'
        · rw [hp] at he'
          cases he'
        · rw [hp] at hp'
          cases hp'
          rfl
      rw [← hr]
      exact hrun₂
    · rintro p rfl
      rcases hout₁ with ⟨e, he, -⟩ | ⟨q, -, hq⟩
      · cases he
      · rcases hout₂ with ⟨e', -, he'⟩ | ⟨q', -, hq'⟩
        · rw [hq] at he'
          cases he'
        · rw [hq] at hq'
          cases hq'
          rfl

/-- A job that always fails, after changing tables and raising the guard. -/
def brokenTask (ticket : Ticket) (e : Failure) (change : Store → Store) (raise : Guard → Guard) :
    BatchJob :=
  ⟨ticket, fun db g => (.error e, change db, raise g), fun db g => (.error e, change db, raise g)⟩

/-- A job that always fails keeps to the rules. -/
theorem broken_lawful (ticket : Ticket) (e : Failure) (change : Store → Store)
    {raise : Guard → Guard} (hraise : ∀ g, Raises g (raise g)) :
    (brokenTask ticket e change raise).Lawful Coherent Raises := by
  have hbody : Lawful Coherent Raises (brokenTask ticket e change raise).first := by
    constructor
    · intro db c p db' c' _ hb
      cases hb
    · intro db c r db' c' _ hb
      cases hb
      exact hraise c
  exact ⟨hbody, hbody⟩

/-- And it can be run again. -/
theorem broken_restartable (ticket : Ticket) (e : Failure) (change : Store → Store)
    (raise : Guard → Guard) : (brokenTask ticket e change raise).Restartable Coherent where
  follows _ _ hb := by cases hb
  agrees _ _ hb := by
    cases hb
    exact ⟨_, _, rfl, nofun⟩

/-! ## A group commit cannot be told from single commits -/

/-- A telemetry job with what its body must respect to be run twice. -/
structure Submission where
  /-- The job. -/
  job : BatchJob
  /-- It keeps to the rules. -/
  lawful : job.Lawful Coherent Raises
  /-- It can be run again. -/
  restartable : job.Restartable Coherent

/-- A telemetry write is a submission whatever the engine does to its first run. -/
def Submission.telemetry (host : Host) (ticket : Ticket) (op : Telemetry) (first : List Bool) :
    Submission where
  job := telemetryTask host ticket op first []
  lawful := ⟨telemetry_lawful_coherent host op first, telemetry_lawful_coherent host op []⟩
  restartable := telemetry_restartable host ticket op first

/-- So is a job that scribbles and then fails. -/
def Submission.broken (ticket : Ticket) (e : Failure) (change : Store → Store)
    (raise : Guard → Guard) (hraise : ∀ g, Raises g (raise g)) : Submission where
  job := brokenTask ticket e change raise
  lawful := broken_lawful ticket e change hraise
  restartable := broken_restartable ticket e change raise

/-- Refusing the stale jobs on the way or beforehand answers the same. -/
theorem oneByOne_eq_replay (generation : Nat) (answers : Ticket → EngineAnswers)
    (jobs : List BatchJob) (db : Store) (g : Guard) :
    (oneByOne generation answers jobs db g).1.Perm (staleReplies generation jobs ++
      (replay Guard.load (fun t => (answers t).alone) (liveJobs generation jobs) db g).replies.map
        answered) ∧
    (oneByOne generation answers jobs db g).2 =
      (replay Guard.load (fun t => (answers t).alone) (liveJobs generation jobs) db g).db := by
  induction jobs generalizing db g with
  | nil => exact ⟨List.Perm.nil, rfl⟩
  | cons j rest ih =>
    rw [oneByOne]
    by_cases hj : current generation j = true
    · have hstale : staleReplies generation (j :: rest) = staleReplies generation rest := by
        rw [staleReplies, List.filter_cons_of_neg (by rw [hj]; decide)]
        rfl
      have hlive : liveJobs generation (j :: rest) = j :: liveJobs generation rest := by
        rw [liveJobs, List.filter_cons_of_pos hj]
        rfl
      obtain ⟨hperm, hdb⟩ := ih (runAlone Guard.load (answers j.id).alone j db g).db
        (runAlone Guard.load (answers j.id).alone j db g).cache
      rw [if_pos hj, hstale, hlive]
      refine ⟨?_, hdb⟩
      simp only [replay, Outcome.andThen, List.map_append]
      exact (hperm.append_left _).trans (List.perm_append_comm_assoc _ _ _)
    · have hstale : staleReplies generation (j :: rest) =
          refusal superseded j.id :: staleReplies generation rest := by
        rw [staleReplies, List.filter_cons_of_pos (by simpa using hj), List.map_cons]
        rfl
      have hlive : liveJobs generation (j :: rest) = liveJobs generation rest := by
        rw [liveJobs, List.filter_cons_of_neg hj]
        rfl
      obtain ⟨hperm, hdb⟩ := ih db g
      rw [if_neg hj, hstale, hlive]
      exact ⟨hperm.cons _, hdb⟩

/-- When the commits succeed, one group commit leaves the store that single
commits in submission order leave, and answers every job as they do. -/
theorem run_batch_eq_one_by_one (generation : Nat) (a : EngineAnswers)
    (replays answers : Ticket → EngineAnswers) (jobs : List Submission) (db : Store) (g : Guard)
    (hg : Coherent db g) (ha : a.Clear) (hreplays : ∀ t, (replays t).Clear)
    (hanswers : ∀ t, (answers t).Clear) :
    (runBatch generation true a replays (jobs.map Submission.job) db g).replies.Perm
        (oneByOne generation answers (jobs.map Submission.job) db g).1 ∧
      (runBatch generation true a replays (jobs.map Submission.job) db g).db =
        (oneByOne generation answers (jobs.map Submission.job) db g).2 := by
  obtain ⟨hperm, hstore⟩ :=
    oneByOne_eq_replay generation answers (jobs.map Submission.job) db g
  have hmem : ∀ t ∈ liveJobs generation (jobs.map Submission.job),
      t.Lawful Coherent Raises ∧ t.Restartable Coherent := by
    intro t ht
    obtain ⟨q, -, rfl⟩ := List.mem_map.mp (List.mem_of_mem_filter ht)
    exact ⟨q.lawful, q.restartable⟩
  unfold runBatch
  by_cases hlive : liveJobs generation (jobs.map Submission.job) = []
  · rw [hlive] at hperm hstore
    rw [if_pos hlive]
    refine ⟨?_, hstore.symm⟩
    rw [replay] at hperm
    simpa [Turn.idle, Outcome.none] using hperm.symm
  · have hgroup := runGroup_eq_replay coherent_regime (fun t ht => (hmem t ht).1)
      (fun t ht => (hmem t ht).2) ha.shared (fun t => (hreplays t).alone)
      (fun t => (hanswers t).alone) hg
    rw [if_neg hlive, if_neg (of_eq_false Bool.true_eq_false)]
    refine ⟨?_, hgroup.2.trans hstore.symm⟩
    simp only [Turn.ran]
    rw [hgroup.1]
    exact hperm.symm

/-- A metric and a probe result, a job that scribbles and fails, and a stale one. -/
def fourJobs : List Submission :=
  [.telemetry ⟨id, fun _ => none⟩ ⟨0, .batch, 0⟩ (.insertMetric 1 60 .null) [],
    .broken ⟨1, .batch, 0⟩ (.declined "no") (fun _ => Store.blank) id Raises.refl,
    .telemetry ⟨id, fun _ => none⟩ ⟨2, .batch, 0⟩ (.insertPing 1 1 60 20) [],
    .telemetry ⟨id, fun _ => none⟩ ⟨3, .batch, 7⟩ (.insertPing 1 1 90 20) []]

/-- The failing job costs neither of the others anything: both rows are stored. -/
theorem run_batch_eq_one_by_one_fourJobs :
    let turn := runBatch 0 true ⟨none, none, false⟩ (fun _ => ⟨none, none, true⟩)
      (fourJobs.map Submission.job) probedStore (Guard.load probedStore)
    turn.db = (oneByOne 0 (fun _ => ⟨none, none, true⟩) (fourJobs.map Submission.job) probedStore
        (Guard.load probedStore)).2 ∧
      turn.db.metric.rows.card = 1 ∧ turn.db.pingRecord.rows.card = 1 :=
  ⟨(run_batch_eq_one_by_one 0 ⟨none, none, false⟩ (fun _ => ⟨none, none, true⟩)
    (fun _ => ⟨none, none, true⟩) fourJobs probedStore _ (load_coherent _)
    ⟨rfl, rfl⟩ (fun _ => ⟨rfl, rfl⟩) fun _ => ⟨rfl, rfl⟩).2, by decide +kernel, by decide +kernel⟩

end Romi.WriterBatch
