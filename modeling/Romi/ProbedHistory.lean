import Romi.LatencyRange
import Romi.ProbeRounds

/-!
# The statistics of what agents measure

Nothing an agent measures is above 900 ms, and every reading that is stored was one
result. So what `ping_records` computes of them stays in range, whatever was pruned.
-/

namespace Romi.ProbedHistory

open CachedTransactions CachedTransactions.Job HistoryQueries HistoryRuns HourlyRollup
  JsonValue KeyedTable LatencyBuckets LatencyRange ProbeRounds StoreAnswers StoreInvariant
  StoreOperations StoreSchema

variable {host : Host} {start : Store}

/-- A latency that a probe tells. -/
def Measured (latency : Int) : Prop := -1 ≤ latency ∧ latency ≤ 900

/-- What a round has for a result is measured. -/
theorem tcpPing_measured {lookup : Lookup} {latency : Int} (h : tcpPing lookup = some latency) :
    Measured latency := by
  rw [tcpPing_eq] at h
  split at h
  · cases h
  · rw [← Option.some.inj h]
    exact firstAnswer_range

/-- The write files a result. -/
def isResult : Entry → Bool
  | .ping _ _ _ _ => true
  | .metric _ _ _ | .prune _ _ => false

/-- How many results the tables stand for. -/
def readingsStored (db : Store) : Int :=
  db.pingRecord.rows.card + db.pingHour.sumWhere (fun _ => True) PingHourRow.samples

/-- A store of measured results, of so many at most. -/
structure Probed (count : Nat) (db : Store) : Prop where
  /-- Every latency was measured. -/
  results : ∀ r ∈ db.pingRecord.rows, Measured r.latency
  /-- So was every one that is counted by the hour. -/
  hours : ∀ r ∈ db.pingHour.rows, Measured r.latency
  /-- No more readings are stored than were filed. -/
  stored : readingsStored db ≤ count

/-- Nothing is stored yet. -/
theorem probed_start (h : Unrecorded start) : Probed 0 start := by
  refine ⟨?_, ?_, ?_⟩
  · rw [h.pingRecord]
    intro r hr
    exact absurd hr (Finset.notMem_empty r)
  · rw [h.pingHour]
    intro r hr
    exact absurd hr (Finset.notMem_empty r)
  · unfold readingsStored
    rw [h.pingRecord, h.pingHour, Table.sumWhere_empty]
    exact le_refl 0

variable {count : Nat} {db : Store}

/-- A result is filed. -/
theorem Probed.result (h : Probed count db) (n task ts : Int) {latency : Int}
    (hlatency : Measured latency) : Probed (count + 1) (withResult n task ts latency db) := by
  have hstored := h.stored
  unfold withResult
  split
  · refine ⟨?_, h.hours, ?_⟩
    · intro r hr
      rcases Table.mem_put.mp hr with rfl | ⟨hr, -⟩
      · exact hlatency
      · exact h.results r hr
    · have hcard : (db.pingRecord.put ⟨n, task, ts, latency⟩).rows.card ≤
          db.pingRecord.rows.card + 1 :=
        (Finset.card_insert_le _ _).trans (Nat.add_le_add_right (Finset.card_filter_le _ _) 1)
      unfold readingsStored at hstored ⊢
      dsimp only
      omega
  · exact ⟨h.results, h.hours, by omega⟩

/-- Deleting hours leaves no more readings. -/
theorem sumWhere_deleteWhere_le (t : Table PingHourRow.key) (q : PingHourRow → Prop)
    [DecidablePred q] : (t.deleteWhere q).sumWhere (fun _ => True) PingHourRow.samples ≤
      t.sumWhere (fun _ => True) PingHourRow.samples := by
  refine Finset.sum_le_sum_of_subset_of_nonneg ?_ fun r _ _ => r.samples_pos.le
  exact Finset.filter_subset_filter _ (Finset.filter_subset _ _)

/-- A rollup moves results into hours, and what pruning deletes is gone. -/
theorem Probed.pruned (h : Probed count db) (cutoff oldest : Int) :
    Probed count (StoreInvariant.pruned cutoff oldest db) := by
  refine ⟨?_, ?_, ?_⟩
  · intro r hr
    exact h.results r (Table.mem_deleteWhere.mp hr).1
  · intro r hr
    have hhas := has_rollPings.mp ⟨r, (Table.mem_deleteWhere.mp hr).1, rfl⟩
    rcases hhas with ⟨old, hold, hkey⟩ | ⟨raw, hraw, -, hkey⟩
    · have hlatency : old.latency = r.latency := congrArg (fun k => k.2.2.2) hkey
      rw [← hlatency]
      exact h.hours old hold
    · have hlatency : raw.latency = r.latency := congrArg (fun k => k.2.2.2) hkey
      rw [← hlatency]
      exact h.results raw hraw
  · have hsum := rollPings_sum cutoff oldest db (fun _ => True)
    have hhours := sumWhere_deleteWhere_le (rollPings cutoff oldest db).pingHour
      (fun r => r.ts < oldest)
    have hrolled : ((db.pingRecord.rows.filter fun r => r.ts < cutoff ∧ r.ts ≥ oldest).filter
        fun r => True).card ≤ (db.pingRecord.rows.filter fun r => r.ts < cutoff).card := by
      refine (Finset.card_filter_le _ _).trans (Finset.card_le_card ?_)
      exact Finset.monotone_filter_right _ fun r _ hr => hr.1
    have hsplit := @Finset.card_filter_add_card_filter_not _ db.pingRecord.rows
      (fun r => r.ts < cutoff) _ _
    rw [Finset.sum_const, nsmul_eq_mul, mul_one] at hsum
    have hstored := h.stored
    unfold readingsStored at hstored ⊢
    change ((db.pingRecord.rows.filter fun r => ¬ r.ts < cutoff).card : Int) +
      ((rollPings cutoff oldest db).pingHour.deleteWhere fun r => r.ts < oldest).sumWhere
        (fun _ => True) PingHourRow.samples ≤ count
    omega

/-! ## Runs -/

/-- One committed write about history, whatever key it uses. -/
inductive Committed (host : Host) (db : Store) : Entry → Store → Prop
  /-- A minute is filed. -/
  | metric (n ts : Int) (m : Json) (db' : Store)
    (hfiled : Filed host (.insertMetric n ts m) db db') : Committed host db (.metric n ts m) db'
  /-- A result is filed. -/
  | ping (n task ts latency : Int) (db' : Store)
    (hfiled : Filed host (.insertPing n task ts latency) db db') :
    Committed host db (.ping n task ts latency) db'
  /-- The store is pruned. -/
  | prune (now keepDays : Int) (p : Payload) (db' : Store)
    (hran : Ran host (.prune now keepDays) db (.ok p) db') :
    Committed host db (.prune now keepDays) db'

/-- Such writes one after another, the newest first. -/
inductive Writes (host : Host) (start : Store) : List Entry → Store → Prop
  /-- Nothing has been written. -/
  | start : Writes host start [] start
  /-- One write more. -/
  | step {entries : List Entry} {db db' : Store} {e : Entry} (h : Writes host start entries db)
    (hcommitted : Committed host db e db') : Writes host start (e :: entries) db'

/-- The results of a run are what probes told. -/
def FromProbes (entries : List Entry) : Prop :=
  ∀ n task ts latency, .ping n task ts latency ∈ entries →
    ∃ lookup, tcpPing lookup = some latency

/-- Every stored reading was a result of the run. -/
theorem probed_run (hempty : Unrecorded start) {entries : List Entry}
    (hrun : Writes host start entries db) (hprobes : FromProbes entries) :
    Probed (entries.countP isResult) db := by
  induction hrun with
  | start => exact probed_start hempty
  | @step entries db db' e _ hcommitted ih =>
    have hbefore := ih fun n task ts latency h =>
      hprobes n task ts latency (List.mem_cons_of_mem e h)
    cases hcommitted with
    | metric n ts m _ hfiled =>
      rw [filed_metric hfiled, withMinute_frame]
      exact ⟨hbefore.results, hbefore.hours, hbefore.stored⟩
    | ping n task ts latency _ hfiled =>
      obtain ⟨lookup, hlatency⟩ := hprobes n task ts latency List.mem_cons_self
      rw [filed_ping hfiled, List.countP_cons_of_pos rfl]
      exact hbefore.result n task ts (tcpPing_measured hlatency)
    | prune now keepDays p _ hran =>
      rw [ran_prune hran]
      exact hbefore.pruned _ _

/-! ## Readings -/

/-- Every single reading was measured. -/
theorem singles_measured (h : Probed count db) {n since : Int} :
    ∀ r ∈ singles db n since, Measured r.latency := by
  intro r hr
  obtain ⟨sample, hsample, hr⟩ := Multiset.mem_bind.mp hr
  rw [Multiset.eq_of_mem_replicate hr]
  rcases Multiset.mem_add.mp (Multiset.mem_filter.mp hsample).1 with hmem | hmem
  · obtain ⟨raw, hraw, rfl⟩ := Multiset.mem_map.mp hmem
    exact h.results raw (Finset.mem_filter.mp hraw).1
  · obtain ⟨hour, hhour, rfl⟩ := Multiset.mem_map.mp hmem
    exact h.hours hour (Finset.mem_filter.mp hhour).1

/-- No more readings are in a window than the tables stand for. -/
theorem card_singles_le (db : Store) (n since : Int) :
    ((singles db n since).card : Int) ≤ readingsStored db := by
  have hcard : (singles db n since).card ≤
      ((pingHistory db n since).map fun r => r.samples.toNat).sum := by
    obtain ⟨rest, hrest⟩ := Multiset.le_iff_exists_add.mp
      (Multiset.filter_le (fun r => db.pingNode.Has (r.taskId, n)) (pingHistory db n since))
    have hsum : ((pingHistory db n since).map fun r => r.samples.toNat).sum =
        (singles db n since).card + (rest.map fun r => r.samples.toNat).sum := by
      rw [singles, Multiset.card_bind]
      conv_lhs => rw [hrest]
      rw [Multiset.map_add, Multiset.sum_add]
      simp only [Function.comp_def, Multiset.card_replicate]
    omega
  have hraw : (((db.pingRecord.rows.filter fun r => r.nodeId = n ∧ r.ts ≥ since).val.map
      fun r => (⟨r.ts, r.taskId, r.latency, 1⟩ : PingSample)).map fun r => r.samples.toNat).sum ≤
      db.pingRecord.rows.card := by
    rw [Multiset.map_map]
    simp only [Function.comp_def, Int.toNat_one, Multiset.map_const', Multiset.sum_replicate,
      smul_eq_mul, mul_one]
    exact Finset.card_filter_le _ _
  have hhours : (((((db.pingHour.rows.filter fun r => r.nodeId = n ∧ r.ts ≥ since).val.map
      fun r => (⟨r.ts, r.taskId, r.latency, r.samples⟩ : PingSample)).map
      fun r => r.samples.toNat).sum : Nat) : Int) ≤
      db.pingHour.sumWhere (fun _ => True) PingHourRow.samples := by
    rw [Multiset.map_map]
    have hnat : (((db.pingHour.rows.filter fun r => r.nodeId = n ∧ r.ts ≥ since).sum
        fun r => r.samples.toNat : Nat) : Int) =
        (db.pingHour.rows.filter fun r => r.nodeId = n ∧ r.ts ≥ since).sum PingHourRow.samples := by
      rw [Nat.cast_sum]
      exact Finset.sum_congr rfl fun r _ => Int.toNat_of_nonneg r.samples_pos.le
    refine hnat.le.trans (Finset.sum_le_sum_of_subset_of_nonneg ?_ fun r _ _ => r.samples_pos.le)
    intro r hr
    exact Finset.mem_filter.mpr ⟨(Finset.mem_filter.mp hr).1, trivial⟩
  unfold readingsStored
  rw [pingHistory, Multiset.map_add, Multiset.sum_add] at hcard
  omega

/-- A probe has no more readings than there are. -/
theorem card_readingsOfProbe_le (all : Multiset PingRecordRow) (task : Int) :
    (readingsOfProbe all task).card ≤ all.card := by
  rw [readingsOfProbe, Multiset.card_map]
  exact Multiset.card_le_card (Multiset.filter_le _ _)

/-- Nor has a bucket. -/
theorem card_readingsIn_le (all : Multiset PingRecordRow) (width b task : Int) :
    (readingsIn all width b task).card ≤ all.card := by
  rw [readingsIn, Multiset.card_map]
  exact Multiset.card_le_card (Multiset.filter_le _ _)

/-- What answered did so within the deadline. -/
theorem Probed.answered (h : Probed count db) (n since width b task : Int) :
    ∀ v ∈ answers (readingsIn (singles db n since) width b task),
      0 ≤ v ∧ v ≤ 900 := by
  intro v hv
  rw [answers, inOrder, Multiset.mem_sort] at hv
  obtain ⟨hread, hpos⟩ := Multiset.mem_filter.mp hv
  obtain ⟨r, hr, rfl⟩ := Multiset.mem_map.mp hread
  exact ⟨hpos, (singles_measured h r (Multiset.mem_filter.mp hr).1).2⟩

/-- Few enough measured results leave room in every window and bucket. -/
theorem Probed.fits (h : Probed count db) (hfew : 101 * (count : Int) ≤ i64Max)
    (n since width : Int) : Fits db n since width := by
  have hall := (card_singles_le db n since).trans h.stored
  refine ⟨fun task => ?_, fun b task _ => ?_, fun b task low high hmiddle => ?_⟩
  · have hsub := card_readingsOfProbe_le (singles db n since) task
    omega
  · have hsub := card_readingsIn_le (singles db n since) width b task
    have hsplit := card_split (readingsIn (singles db n since) width b task)
    omega
  · obtain ⟨front, back, hsorted, -⟩ := hmiddle
    have hlow := h.answered n since width b task low
      (hsorted ▸ List.mem_append_right _ List.mem_cons_self)
    have hhigh := h.answered n since width b task high
      (hsorted ▸ List.mem_append_right _ (List.mem_cons_of_mem _ List.mem_cons_self))
    have hmax : (1800 : Int) ≤ i64Max := by decide
    omega

/-- What a point of measured readings shows. -/
structure Sensible (p : PingPoint) : Prop where
  /-- The median is a measured latency. -/
  latency : ∀ median, p.latency = some median → 0 ≤ median ∧ median ≤ 900
  /-- So are both ends of the band, and they differ. -/
  band : ∀ low high, p.band = some (low, high) → 0 ≤ low ∧ low < high ∧ high ≤ 900
  /-- The loss is a share, and not none. -/
  loss : ∀ loss, p.loss = some loss → 1 ≤ loss ∧ loss ≤ 100

/-- The share that was lost is within its range. -/
theorem share_range {readings : Multiset Int} (h : 0 < lostOf readings) :
    0 < (100 * lostOf readings : Rat) / readings.card ∧
      (100 * lostOf readings : Rat) / readings.card ≤ 100 := by
  have hsplit := card_split readings
  have hlost : (0 : Rat) < lostOf readings := Nat.cast_pos.mpr h
  have hle : (lostOf readings : Rat) ≤ readings.card := Nat.cast_le.mpr (by omega)
  have hcard : (0 : Rat) < readings.card := hlost.trans_le hle
  refine ⟨by positivity, ?_⟩
  rw [div_le_iff₀ hcard]
  exact mul_le_mul_of_nonneg_left hle (by norm_num)

/-- A point over measured latencies is sensible. -/
theorem sensible_point {readings : Multiset Int}
    (hanswers : ∀ v ∈ answers readings, 0 ≤ v ∧ v ≤ 900) (ts task : Int) :
    Sensible (plainPoint ts task readings) := by
  refine ⟨fun median h => ?_, fun low high h => ?_, fun loss h => ?_⟩
  · obtain ⟨low, high, hlow, hhigh, hbelow, habove⟩ := plainMedian_between
      (Multiset.pairwise_sort _ _) (fun v hv => (hanswers v hv).1) h
    have hfirst := hanswers low (List.mem_of_mem_head? hlow)
    have hlast := hanswers high (List.mem_of_mem_getLast? hhigh)
    exact ⟨hfirst.1.trans hbelow, habove.trans hlast.2⟩
  · change plainBand (answers readings) = _ at h
    unfold plainBand at h
    simp only [Option.bind_eq_bind, Option.bind_eq_some_iff] at h
    obtain ⟨first, hfirst, last, hlast, h⟩ := h
    split at h
    · rename_i hlt
      cases h
      exact ⟨(hanswers low (List.mem_of_mem_head? hfirst)).1, hlt,
        (hanswers high (List.mem_of_mem_getLast? hlast)).2⟩
    · cases h
  · change plainLoss readings = _ at h
    unfold plainLoss at h
    split at h
    · rename_i hlost
      have hrange := share_range hlost
      rw [← Option.some.inj h]
      refine ⟨Int.add_one_le_of_lt (Int.ceil_pos.mpr hrange.1), Int.ceil_le.mpr ?_⟩
      exact_mod_cast hrange.2
    · cases h

/-- As long as a hundred and one times the results that were filed fit into 64 bits, no
step of the statistics of what probes tell overflows, for any window of any store that
inserts and prunes lead to, and no point shows a latency over 900 ms or a share
over 100. -/
theorem measured_statistics {host : Host} {start db : Store} {entries : List Entry}
    (hempty : Unrecorded start) (hrun : Writes host start entries db)
    (hprobes : FromProbes entries) (hfew : 101 * (entries.countP isResult : Int) ≤ i64Max)
    (n since width : Int) :
    readChecked (pingRows db n since width) = some (readRows (pingRows db n since width)) ∧
    (∀ p ∈ (readRows (pingRows db n since width)).1, Sensible p) ∧
    ∀ task share, (readRows (pingRows db n since width)).2 task = some share →
      0 < share ∧ share ≤ 100 := by
  have hprobed := probed_run hempty hrun hprobes
  refine ⟨?_, ?_, ?_⟩
  · refine (readChecked_eq_some (rows_pos db n since width) (rows_time db n since width)).mpr ?_
    exact ⟨(fits_iff db n since width).mp (hprobed.fits hfew n since width), rfl⟩
  · intro p hp
    rw [readRows_eq] at hp
    obtain ⟨k, -, rfl⟩ := List.mem_map.mp hp
    exact sensible_point (hprobed.answered n since width _ _) _ _
  · intro task share h
    rw [readRows_eq] at h
    change plainLosses (singles db n since) task = _ at h
    unfold plainLosses at h
    dsimp only at h
    split at h
    · rename_i hlost
      rw [← Option.some.inj h]
      exact share_range hlost
    · cases h

/-- A hub that keeps tokens as they are. -/
def sampleHost : Host := ⟨fun token => token, fun _ => none⟩

/-- The slowest answer and a lost round a minute later, rolled up after a day. -/
theorem measured_statistics_slowest : ∃ db,
    Writes sampleHost probed [.prune 90000 0, .ping 1 1 60 (-1), .ping 1 1 0 900] db ∧
      readChecked (pingRows db 1 0 3600) = some (readRows (pingRows db 1 0 3600)) := by
  have hfirst : Writes sampleHost probed [.ping 1 1 0 900] _ :=
    .step .start (.ping 1 1 0 900 _ (filed_withResult sampleHost 1 1 0 900 probed))
  have hsecond := hfirst.step (.ping 1 1 60 (-1) _ (filed_withResult sampleHost 1 1 60 (-1) _))
  obtain ⟨p, hran⟩ := ran_pruned sampleHost 90000 0
    (withResult 1 1 60 (-1) (withResult 1 1 0 900 probed))
  have hrun := hsecond.step (.prune 90000 0 p _ hran)
  refine ⟨_, hrun, (measured_statistics ⟨rfl, rfl, rfl, rfl⟩ hrun ?_ (by decide) 1 0 3600).1⟩
  intro n task ts latency hmem
  simp only [List.mem_cons, reduceCtorEq, Entry.ping.injEq, List.not_mem_nil, or_false,
    false_or] at hmem
  rcases hmem with ⟨-, -, -, rfl⟩ | ⟨-, -, -, rfl⟩
  · exact ⟨.fails 0, rfl⟩
  · exact ⟨.finds 0 [.accepts 900000], rfl⟩

end Romi.ProbedHistory
