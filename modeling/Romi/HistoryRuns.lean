import Romi.FoldedRows
import Romi.HistoryQueries
import Romi.StoreAnswers

/-!
# Inserts and prunes one after another

A run is a list of writes that were committed, the newest first. Along it is
kept which keys were rolled up so far, and no insert may use one of them again.
For a fixed window start the rows that pruning moved into hours are accounted
for against the store that has had the same inserts and no prune.
-/

namespace Romi.HistoryRuns

open CachedTransactions CachedTransactions.Job FoldedRows HistoryQueries HourlyRollup JsonValue
  KeyedTable StoreAnswers StoreGuard StoreInvariant StoreJobs StoreOperations StoreSchema

/-! ## Runs -/

/-- A write about history. -/
inductive Entry
  /-- The row of a minute. -/
  | metric (n ts : Int) (m : Json)
  /-- The result of a probe. -/
  | ping (n task ts latency : Int)
  /-- What is old is rolled up or deleted. -/
  | prune (now keepDays : Int)

/-- It files a sample. -/
def Entry.isInsert : Entry → Bool
  | .metric _ _ _ | .ping _ _ _ _ => true
  | .prune _ _ => false

/-- When the prunes of a run took place. -/
def pruneTimes (entries : List Entry) : List Int :=
  entries.filterMap fun
    | .prune now _ => some now
    | _ => none

/-- A store and the keys that were rolled up on the way to it. -/
structure Past where
  /-- What the database holds. -/
  db : Store
  /-- The minutes that were rolled up. -/
  minutes : Finset (Int × Int)
  /-- The results that were rolled up. -/
  results : Finset (Int × Int × Int)

/-- A telemetry write that succeeded, with whatever guard the writer had then. -/
def Filed (host : Host) (op : Telemetry) (db db' : Store) : Prop :=
  ∃ (session after : Session Store Guard) (p : Payload), session.db = db ∧
    Guard.Coherent session.db session.cache ∧ op.job host session = (.ok p, after) ∧ after.db = db'

/-- Where `prune` stops keeping minutes. -/
def cutoffOf (now keepDays : Int) : Int := hourBefore now (max 0 (min keepDays 3650))

/-- Where it stops keeping hours. -/
def oldestOf (now : Int) : Int := hourBefore now 365

/-- The minutes `ROLL_METRICS_SQL` selects. -/
def rolledMinutes (cutoff oldest : Int) (db : Store) : Finset MetricRow :=
  db.metric.rows.filter fun r => r.ts < cutoff ∧ r.ts ≥ oldest

/-- The results `ROLL_PINGS_SQL` selects. -/
def rolledResults (cutoff oldest : Int) (db : Store) : Finset PingRecordRow :=
  db.pingRecord.rows.filter fun r => r.ts < cutoff ∧ r.ts ≥ oldest

/-- The past after a prune that left this store. -/
def Past.pruned (s : Past) (cutoff oldest : Int) (db : Store) : Past where
  db := db
  minutes := s.minutes ∪ (rolledMinutes cutoff oldest s.db).image MetricRow.key
  results := s.results ∪ (rolledResults cutoff oldest s.db).image PingRecordRow.key

/-- One committed write; an insert does not use a key that was rolled up. -/
inductive Step (host : Host) (s : Past) : Entry → Past → Prop
  /-- A minute is filed that was not before. -/
  | metric (n ts : Int) (m : Json) (db : Store) (hnew : (n, ts) ∉ s.minutes)
    (hfiled : Filed host (.insertMetric n ts m) s.db db) :
    Step host s (.metric n ts m) { s with db := db }
  /-- A result is filed that was not before. -/
  | ping (n task ts latency : Int) (db : Store) (hnew : (n, ts, task) ∉ s.results)
    (hfiled : Filed host (.insertPing n task ts latency) s.db db) :
    Step host s (.ping n task ts latency) { s with db := db }
  /-- The store is pruned. -/
  | prune (now keepDays : Int) (p : Payload) (db : Store)
    (hran : Ran host (.prune now keepDays) s.db (.ok p) db) :
    Step host s (.prune now keepDays) (s.pruned (cutoffOf now keepDays) (oldestOf now) db)

/-- A run from a store, the newest write first. -/
inductive History (host : Host) (start : Store) : List Entry → Past → Prop
  /-- Nothing has been filed. -/
  | start : History host start [] ⟨start, ∅, ∅⟩
  /-- One step more. -/
  | step {entries : List Entry} {s s' : Past} {e : Entry} (h : History host start entries s)
    (hstep : Step host s e s') : History host start (e :: entries) s'

/-! ## What one write does -/

variable {host : Host} {start : Store}

/-- The table of minutes after an insert. -/
def withMinute (n ts : Int) (m : Json) (db : Store) : Store :=
  if db.node.Has n then { db with metric := db.metric.put (metricRowOf n ts m) } else db

/-- The table of results after an insert. -/
def withResult (n task ts latency : Int) (db : Store) : Store :=
  if db.pingNode.Has (task, n) then
    { db with pingRecord := db.pingRecord.put ⟨n, task, ts, latency⟩ } else db

/-- A minute is no matter of the other tables. -/
theorem withMinute_frame (n ts : Int) (m : Json) (db : Store) :
    withMinute n ts m db = { db with metric := (withMinute n ts m db).metric } := by
  unfold withMinute
  split <;> rfl

/-- Nor is a result. -/
theorem withResult_frame (n task ts latency : Int) (db : Store) :
    withResult n task ts latency db =
      { db with pingRecord := (withResult n task ts latency db).pingRecord } := by
  unfold withResult
  split <;> rfl

/-- A minute that is filed is in the store. -/
theorem filed_metric {n ts : Int} {m : Json} {db db' : Store}
    (h : Filed host (.insertMetric n ts m) db db') : db' = withMinute n ts m db := by
  obtain ⟨session, after, p, rfl, hcoherent, hrun, rfl⟩ := h
  rcases (Telemetry.job_spec hrun hcoherent).2 with herror | ⟨e, herror, -⟩ | ⟨q, -, heffect⟩
  · cases herror
  · cases herror
  · unfold withMinute
    rw [Telemetry.effect] at heffect
    by_cases hnode : session.db.node.Has n
    · rw [if_pos hnode] at heffect ⊢
      exact (congrArg Prod.snd (Except.ok.inj heffect)).symm
    · rw [if_neg hnode] at heffect ⊢
      exact (congrArg Prod.snd (Except.ok.inj heffect)).symm

/-- So is a result. -/
theorem filed_ping {n task ts latency : Int} {db db' : Store}
    (h : Filed host (.insertPing n task ts latency) db db') :
    db' = withResult n task ts latency db := by
  obtain ⟨session, after, p, rfl, hcoherent, hrun, rfl⟩ := h
  rcases (Telemetry.job_spec hrun hcoherent).2 with herror | ⟨e, herror, -⟩ | ⟨q, -, heffect⟩
  · cases herror
  · cases herror
  · unfold withResult
    rw [Telemetry.effect] at heffect
    by_cases hassigned : session.db.pingNode.Has (task, n)
    · rw [if_pos hassigned] at heffect ⊢
      exact (congrArg Prod.snd (Except.ok.inj heffect)).symm
    · rw [if_neg hassigned] at heffect ⊢
      exact (congrArg Prod.snd (Except.ok.inj heffect)).symm

/-- A prune that succeeded did all of its statements. -/
theorem ran_prune {now keepDays : Int} {p : Payload} {db db' : Store}
    (h : Ran host (.prune now keepDays) db (.ok p) db') :
    db' = StoreInvariant.pruned (cutoffOf now keepDays) (oldestOf now) db := by
  obtain ⟨session, rfl, rfl, hanswer⟩ := h
  cases hrun : (Solo.prune now keepDays).job host session with
  | mk r after =>
    rw [hrun] at hanswer
    cases hanswer
    obtain ⟨count, hprune, -⟩ := boxed_ok hrun
    obtain ⟨s₁, s₂, hdb, -, hbody, hdb', -⟩ := transaction_ok hprune
    change after.db = _
    rw [hdb', (pruneBody_ok hbody).1, hdb]
    rfl

/-- A telemetry write that cannot fail of itself succeeds on a willing engine. -/
theorem filed_willing (op : Telemetry) (db : Store) (hop : ∀ e, op.effect host db ≠ .error e) :
    ∃ db', Filed host op db db' := by
  cases hrun : op.job host (willing db (Guard.load db)) with
  | mk r after =>
    have hengine := (Telemetry.steady host op (willing db (Guard.load db)) rfl).2
    rw [hrun] at hengine
    rcases (Telemetry.job_spec hrun (Guard.load_coherent db)).2 with
      herror | ⟨e, -, heffect⟩ | ⟨p, hdone, -⟩
    · exact absurd herror hengine
    · exact absurd heffect (hop e)
    · refine ⟨after.db, willing db (Guard.load db), after, p, rfl, Guard.load_coherent db, ?_, rfl⟩
      rw [hrun, hdone]

/-- And it can be filed so. -/
theorem filed_withMinute (host : Host) (n ts : Int) (m : Json) (db : Store) :
    Filed host (.insertMetric n ts m) db (withMinute n ts m db) := by
  obtain ⟨db', hfiled⟩ := filed_willing (.insertMetric n ts m) db (by
    intro e herror
    rw [Telemetry.effect] at herror
    split at herror
    · cases herror
    · cases herror)
  rwa [filed_metric hfiled] at hfiled

/-- And so can a result. -/
theorem filed_withResult (host : Host) (n task ts latency : Int) (db : Store) :
    Filed host (.insertPing n task ts latency) db (withResult n task ts latency db) := by
  obtain ⟨db', hfiled⟩ := filed_willing (.insertPing n task ts latency) db (by
    intro e herror
    rw [Telemetry.effect] at herror
    split at herror
    · cases herror
    · cases herror)
  rwa [filed_ping hfiled] at hfiled

/-- A store can always be pruned. -/
theorem ran_pruned (host : Host) (now keepDays : Int) (db : Store) :
    ∃ p, Ran host (.prune now keepDays) db (.ok p)
      (StoreInvariant.pruned (cutoffOf now keepDays) (oldestOf now) db) :=
  ⟨_, willing db (Guard.load db), rfl, rfl, rfl⟩

/-- The inserts of a run can be done without its prunes. -/
theorem inserts_alone {entries : List Entry} {s : Past} (hrun : History host start entries s) :
    ∃ q, History host start (entries.filter Entry.isInsert) q ∧ q.minutes = ∅ ∧ q.results = ∅ := by
  induction hrun with
  | start => exact ⟨_, .start, rfl, rfl⟩
  | step _ hstep ih =>
    obtain ⟨q, hplain, hminutes, hresults⟩ := ih
    cases hstep with
    | metric n ts m db hnew hfiled =>
      refine ⟨_, hplain.step (.metric n ts m _ ?_ (filed_withMinute host n ts m q.db)), hminutes,
        hresults⟩
      rw [hminutes]
      exact Finset.notMem_empty _
    | ping n task ts latency db hnew hfiled =>
      refine ⟨_, hplain.step (.ping n task ts latency _ ?_
        (filed_withResult host n task ts latency q.db)), hminutes, hresults⟩
      rw [hresults]
      exact Finset.notMem_empty _
    | prune now keepDays p db hran => exact ⟨q, hplain, hminutes, hresults⟩

/-! ## Hours -/

/-- Later minutes belong to later hours. -/
theorem hourStart_mono {a b : Int} (h : a ≤ b) : hourStart a ≤ hourStart b :=
  Int.mul_le_mul_of_nonneg_right (Int.tdiv_le_tdiv (by decide) h) (by decide)

/-- The hour of a time after 1970 does not begin later. -/
theorem hourStart_le {ts : Int} (h : 0 ≤ ts ∨ 0 < hourStart ts) : hourStart ts ≤ ts := by
  have hts : 0 ≤ ts := by
    rcases h with hts | hhour
    · exact hts
    · by_contra hneg
      have hle := hourStart_mono (show ts ≤ 0 by omega)
      have hzero : hourStart 0 = 0 := rfl
      omega
  unfold hourStart idiv
  rw [Int.tdiv_eq_ediv_of_nonneg hts]
  omega

/-- A whole number of hours is its own hour. -/
theorem hourStart_aligned {since : Int} (h : 3600 ∣ since) : hourStart since = since :=
  Int.tdiv_mul_cancel h

/-- A time is in a window that begins on the hour just when its hour is. -/
theorem since_le_hourStart {since ts : Int} (haligned : 3600 ∣ since)
    (hclock : since ≤ hourStart ts → hourStart ts ≤ ts) :
    since ≤ hourStart ts ↔ since ≤ ts := by
  constructor
  · intro h
    exact h.trans (hclock h)
  · intro h
    rw [← hourStart_aligned haligned]
    exact hourStart_mono h

/-! ## The two stores side by side -/

/-- Pruned and not pruned: what is missing of the raw rows is in the hours. -/
structure Mirrors (since : Int) (R : Finset MetricRow) (P : Finset PingRecordRow) (s : Past)
    (plain : Store) : Prop where
  /-- The nodes are the same. -/
  node : s.db.node = plain.node
  /-- So are the assignments. -/
  pingNode : s.db.pingNode = plain.pingNode
  /-- The minutes of the run without prunes, since some time, are here as minutes or summed into
  hours. -/
  minutes : Folded metricHourKey (fun k => since ≤ k.2) minuteWeight hourWeight R plain.metric
    s.db.metric s.db.metricHour
  /-- So are its results. -/
  results : Folded pingHourKey (fun k => since ≤ k.2.1) (fun _ => (1 : Int)) PingHourRow.samples P
    plain.pingRecord s.db.pingRecord s.db.pingHour
  /-- A minute that was summed is known to be rolled up. -/
  knownMinutes : ∀ r ∈ R, r.key ∈ s.minutes
  /-- So is a result. -/
  knownResults : ∀ r ∈ P, r.key ∈ s.results
  /-- Since that time an hour begins before its minutes. -/
  minuteClock : ∀ r ∈ plain.metric.rows, since ≤ hourStart r.ts → hourStart r.ts ≤ r.ts
  /-- And before its results. -/
  resultClock : ∀ r ∈ plain.pingRecord.rows, since ≤ hourStart r.ts → hourStart r.ts ≤ r.ts

/-- A store that has no history yet. -/
structure Unrecorded (db : Store) : Prop where
  /-- No minute. -/
  metric : db.metric = .empty _
  /-- No hour of minutes. -/
  metricHour : db.metricHour = .empty _
  /-- No result. -/
  pingRecord : db.pingRecord = .empty _
  /-- No hour of results. -/
  pingHour : db.pingHour = .empty _

/-- Both runs begin with nothing. -/
theorem mirrors_start (h : Unrecorded start) (since : Int) :
    Mirrors since ∅ ∅ ⟨start, ∅, ∅⟩ start := by
  refine ⟨rfl, rfl, ?_, ?_, ?_, ?_, ?_, ?_⟩
  · rw [h.metricHour]
    exact folded_start _ _ _ _ _
  · rw [h.pingHour]
    exact folded_start _ _ _ _ _
  · intro r hr
    exact absurd hr (Finset.notMem_empty r)
  · intro r hr
    exact absurd hr (Finset.notMem_empty r)
  · intro r hr
    rw [h.metric] at hr
    exact absurd hr (Finset.notMem_empty r)
  · intro r hr
    rw [h.pingRecord] at hr
    exact absurd hr (Finset.notMem_empty r)

variable {since : Int} {R : Finset MetricRow} {P : Finset PingRecordRow} {s : Past} {plain : Store}

/-- A minute is filed in both. -/
theorem Mirrors.metric (h : Mirrors since R P s plain) (n ts : Int) (m : Json)
    (hnew : (n, ts) ∉ s.minutes) (hclock : since ≤ hourStart ts → hourStart ts ≤ ts) :
    Mirrors since R P { s with db := withMinute n ts m s.db } (withMinute n ts m plain) := by
  unfold withMinute
  by_cases hnode : s.db.node.Has n
  · have hnode' : plain.node.Has n := by rwa [← h.node]
    rw [if_pos hnode, if_pos hnode']
    refine ⟨h.node, h.pingNode, h.minutes.put _ ?_, h.results, h.knownMinutes, h.knownResults, ?_,
      h.resultClock⟩
    · intro r hr hkey
      refine hnew ?_
      have hknown := h.knownMinutes r hr
      rwa [hkey] at hknown
    · intro r hr
      rcases Table.mem_put.mp hr with rfl | ⟨hr, -⟩
      · exact hclock
      · exact h.minuteClock r hr
  · have hnode' : ¬ plain.node.Has n := by rwa [← h.node]
    rw [if_neg hnode, if_neg hnode']
    exact h

/-- A result is filed in both. -/
theorem Mirrors.ping (h : Mirrors since R P s plain) (n task ts latency : Int)
    (hnew : (n, ts, task) ∉ s.results) (hclock : since ≤ hourStart ts → hourStart ts ≤ ts) :
    Mirrors since R P { s with db := withResult n task ts latency s.db }
      (withResult n task ts latency plain) := by
  unfold withResult
  by_cases hassigned : s.db.pingNode.Has (task, n)
  · have hassigned' : plain.pingNode.Has (task, n) := by rwa [← h.pingNode]
    rw [if_pos hassigned, if_pos hassigned']
    refine ⟨h.node, h.pingNode, h.minutes, h.results.put _ ?_, h.knownMinutes, h.knownResults,
      h.minuteClock, ?_⟩
    · intro r hr hkey
      refine hnew ?_
      have hknown := h.knownResults r hr
      rwa [hkey] at hknown
    · intro r hr
      rcases Table.mem_put.mp hr with rfl | ⟨hr, -⟩
      · exact hclock
      · exact h.resultClock r hr
  · have hassigned' : ¬ plain.pingNode.Has (task, n) := by rwa [← h.pingNode]
    rw [if_neg hassigned, if_neg hassigned']
    exact h

/-- The minutes of the window that a prune deletes are in its hours. -/
theorem Mirrors.minutesPruned (h : Mirrors since R P s plain) (cutoff : Int) {oldest : Int}
    (hold : oldest ≤ since) :
    Folded metricHourKey (fun k => since ≤ k.2) minuteWeight hourWeight
      (R ∪ (rolledMinutes cutoff oldest s.db).filter fun r => since ≤ (metricHourKey r).2)
      plain.metric (s.db.metric.deleteWhere fun r => r.ts < cutoff)
      ((rollMetrics cutoff oldest s.db).metricHour.deleteWhere fun r => r.ts < oldest) := by
  refine Folded.trim (h.minutes.fold (fun r => r.ts < cutoff) (Finset.filter_subset _ _) ?_ ?_ ?_
    ?_) _ ?_
  · intro r hr
    exact (Finset.mem_filter.mp hr).2.1
  · intro r hr hwindow hlate
    have hle := h.minuteClock r ((h.minutes.rows r hwindow).mpr (.inl hr)) hwindow
    exact Finset.mem_filter.mpr ⟨hr, hlate, hold.trans (hwindow.trans hle)⟩
  · intro p _
    exact rollMetrics_sum cutoff oldest s.db p
  · intro k
    rw [has_rollMetrics]
    simp only [Finset.mem_filter, and_assoc]
  · intro a _ hgone hwindow
    exact absurd (hgone.trans_le hold) (not_lt.mpr hwindow)

/-- So are its results. -/
theorem Mirrors.resultsPruned (h : Mirrors since R P s plain) (cutoff : Int) {oldest : Int}
    (hold : oldest ≤ since) :
    Folded pingHourKey (fun k => since ≤ k.2.1) (fun _ => (1 : Int)) PingHourRow.samples
      (P ∪ (rolledResults cutoff oldest s.db).filter fun r => since ≤ (pingHourKey r).2.1)
      plain.pingRecord (s.db.pingRecord.deleteWhere fun r => r.ts < cutoff)
      ((rollPings cutoff oldest s.db).pingHour.deleteWhere fun r => r.ts < oldest) := by
  refine Folded.trim (h.results.fold (fun r => r.ts < cutoff) (Finset.filter_subset _ _) ?_ ?_ ?_
    ?_) _ ?_
  · intro r hr
    exact (Finset.mem_filter.mp hr).2.1
  · intro r hr hwindow hlate
    have hle := h.resultClock r ((h.results.rows r hwindow).mpr (.inl hr)) hwindow
    exact Finset.mem_filter.mpr ⟨hr, hlate, hold.trans (hwindow.trans hle)⟩
  · intro p _
    exact rollPings_sum cutoff oldest s.db p
  · intro k
    rw [has_rollPings]
    simp only [Finset.mem_filter, and_assoc]
  · intro a _ hgone hwindow
    exact absurd (hgone.trans_le hold) (not_lt.mpr hwindow)

/-- A prune moves the rows of the window into hours of the window. -/
theorem Mirrors.prune (h : Mirrors since R P s plain) (cutoff : Int) {oldest : Int}
    (hold : oldest ≤ since) : ∃ R' P', Mirrors since R' P'
      (s.pruned cutoff oldest (StoreInvariant.pruned cutoff oldest s.db)) plain := by
  refine ⟨_, _, h.node, h.pingNode, h.minutesPruned cutoff hold, h.resultsPruned cutoff hold, ?_,
    ?_, h.minuteClock, h.resultClock⟩
  · intro r hr
    rcases Finset.mem_union.mp hr with hr | hr
    · exact Finset.mem_union_left _ (h.knownMinutes r hr)
    · exact Finset.mem_union_right _ (Finset.mem_image_of_mem _ (Finset.mem_filter.mp hr).1)
  · intro r hr
    rcases Finset.mem_union.mp hr with hr | hr
    · exact Finset.mem_union_left _ (h.knownResults r hr)
    · exact Finset.mem_union_right _ (Finset.mem_image_of_mem _ (Finset.mem_filter.mp hr).1)

/-! ## Whole runs -/

/-- The stamp of a sample is not before 1970. -/
def Entry.Stamped : Entry → Prop
  | .metric _ ts _ | .ping _ _ ts _ => 0 ≤ ts
  | .prune _ _ => True

/-- A window that begins after 1970 has no hour that reaches back to before. -/
theorem hour_clock {ts : Int} (h : 0 < since ∨ 0 ≤ ts) :
    since ≤ hourStart ts → hourStart ts ≤ ts := by
  intro hhour
  refine hourStart_le ?_
  rcases h with hsince | hts
  · exact .inr (hsince.trans_le hhour)
  · exact .inl hts

/-- The inserts of a run with their prunes leave what the inserts alone do. -/
theorem mirrors_run (hempty : Unrecorded start) {entries : List Entry} {q : Past}
    (hrun : History host start entries s)
    (hplain : History host start (entries.filter Entry.isInsert) q)
    (hold : ∀ now ∈ pruneTimes entries, oldestOf now ≤ since)
    (hclock : 0 < since ∨ ∀ e ∈ entries, e.Stamped) :
    ∃ R P, Mirrors since R P s q.db := by
  induction hrun generalizing q with
  | start =>
    cases hplain
    exact ⟨∅, ∅, mirrors_start hempty since⟩
  | @step entries s s' e _ hstep ih =>
    have hclock' : 0 < since ∨ ∀ e ∈ entries, e.Stamped := by
      refine hclock.imp_right ?_
      intro hall x hx
      exact hall x (List.mem_cons_of_mem e hx)
    cases hstep with
    | metric n ts m db hnew hfiled =>
      cases hplain with
      | step hbefore hlast =>
        cases hlast with
        | metric _ _ _ db' hnew' hfiled' =>
          obtain ⟨R, P, hmirrors⟩ := ih hbefore hold hclock'
          rw [filed_metric hfiled, filed_metric hfiled']
          refine ⟨R, P, hmirrors.metric n ts m hnew (hour_clock (hclock.imp_right ?_))⟩
          intro hall
          exact hall (.metric n ts m) List.mem_cons_self
    | ping n task ts latency db hnew hfiled =>
      cases hplain with
      | step hbefore hlast =>
        cases hlast with
        | ping _ _ _ _ db' hnew' hfiled' =>
          obtain ⟨R, P, hmirrors⟩ := ih hbefore hold hclock'
          rw [filed_ping hfiled, filed_ping hfiled']
          refine ⟨R, P, hmirrors.ping n task ts latency hnew (hour_clock (hclock.imp_right ?_))⟩
          intro hall
          exact hall (.ping n task ts latency) List.mem_cons_self
    | prune now keepDays p db hran =>
      obtain ⟨R, P, hmirrors⟩ := ih hplain
        (fun t ht => hold t (List.mem_cons_of_mem now ht)) hclock'
      rw [ran_prune hran]
      exact hmirrors.prune _ (hold now List.mem_cons_self)

/-- Of times that do not decrease the last one is the latest. -/
theorem oldest_le {times : List Int} (htimes : times.Pairwise fun later earlier => earlier ≤ later)
    (hlast : ∀ now ∈ times.head?, oldestOf now ≤ since) : ∀ now ∈ times, oldestOf now ≤ since := by
  intro now hnow
  cases times with
  | nil => cases hnow
  | cons last rest =>
    have hle : now ≤ last := by
      rcases List.mem_cons.mp hnow with rfl | hrest
      · exact le_refl _
      · exact (List.pairwise_cons.mp htimes).1 now hrest
    have hmono : oldestOf now ≤ oldestOf last := hourStart_mono (by omega)
    exact hmono.trans (hlast last rfl)

/-- No write of a run is about traffic. -/
theorem traffic_run {entries : List Entry} (hrun : History host start entries s) :
    s.db.traffic = start.traffic := by
  induction hrun with
  | start => rfl
  | step _ hstep ih =>
    cases hstep with
    | metric n ts m db hnew hfiled =>
      rw [filed_metric hfiled, withMinute_frame]
      exact ih
    | ping n task ts latency db hnew hfiled =>
      rw [filed_ping hfiled, withResult_frame]
      exact ih
    | prune now keepDays p db hran =>
      rw [ran_prune hran]
      exact ih

/-- A run without prunes has no hours. -/
theorem hours_empty (hempty : Unrecorded start) {entries : List Entry}
    (hrun : History host start entries s) (hinserts : ∀ e ∈ entries, e.isInsert = true) :
    s.db.metricHour = .empty _ ∧ s.db.pingHour = .empty _ := by
  induction hrun with
  | start => exact ⟨hempty.metricHour, hempty.pingHour⟩
  | step _ hstep ih =>
    have hbefore := ih fun e he => hinserts e (List.mem_cons_of_mem _ he)
    cases hstep with
    | metric n ts m db hnew hfiled =>
      rw [filed_metric hfiled, withMinute_frame]
      exact hbefore
    | ping n task ts latency db hnew hfiled =>
      rw [filed_ping hfiled, withResult_frame]
      exact hbefore
    | prune now keepDays p db hran => cases hinserts _ List.mem_cons_self

end Romi.HistoryRuns
