import Romi.HistoryRuns

/-!
# Charts of a store that was pruned

Every sum of a bucket is a sum over raw rows and hours, and a whole number of
hours per bucket puts a minute and its hour into the same one. So what moved
into hours is read where it was before.
-/

namespace Romi.PrunedHistory

open CachedTransactions FoldedRows GroupedRows HistoryQueries HistoryRuns HourlyRollup KeyedTable
  StoreJobs StoreOperations StoreSchema

variable {since step : Int} {R : Finset MetricRow} {P : Finset PingRecordRow} {s : Past}
  {plain : Store}

/-! ## Hours and buckets -/

/-- Dividing twice is dividing by the product, also towards zero. -/
theorem tdiv_tdiv (a : Int) {b : Int} (hb : 0 ≤ b) (c : Int) :
    (a.tdiv b).tdiv c = a.tdiv (b * c) := by
  have hpos : ∀ x : Int, 0 ≤ x → (x.tdiv b).tdiv c = x.tdiv (b * c) := by
    intro x hx
    rw [Int.tdiv_eq_ediv_of_nonneg hx, Int.tdiv_eq_ediv_of_nonneg hx,
      Int.tdiv_eq_ediv_of_nonneg (Int.ediv_nonneg hx hb)]
    exact Int.ediv_ediv_of_nonneg hb
  rcases Int.le_total 0 a with ha | ha
  · exact hpos a ha
  · have h := hpos (-a) (by omega)
    rw [Int.neg_tdiv, Int.neg_tdiv, Int.neg_tdiv, Int.neg_inj] at h
    exact h

/-- An hour is in the bucket of its minutes. -/
theorem idiv_hourStart (hstep : 3600 ∣ step) (ts : Int) : idiv (hourStart ts) step = idiv ts step := by
  obtain ⟨k, rfl⟩ := hstep
  have hhour : idiv (hourStart ts) (3600 * k) = (ts.tdiv 3600).tdiv k := by
    unfold idiv hourStart idiv
    rw [Int.mul_comm (ts.tdiv 3600) 3600]
    exact Int.mul_tdiv_mul_of_pos _ _ (by decide)
  rw [hhour]
  exact tdiv_tdiv ts (by decide) k

/-- A bucket of whole hours stays as it is, whether there are hours or not. -/
theorem historyStep_aligned (hstep : 3600 ∣ step) (hourly : Bool) :
    historyStep hourly step = if 1 ≤ step ∧ step ≤ 365 * 86400 then .ok step
      else .error (.declined "unsupported history bucket width") := by
  unfold historyStep
  by_cases hrange : 1 ≤ step ∧ step ≤ 365 * 86400
  · have haligned : step ≥ 3600 ∧ step % 3600 = 0 := by omega
    rw [if_neg (not_not.mpr hrange), if_pos haligned, if_pos hrange]
  · rw [if_pos hrange, if_neg hrange]

/-! ## Sums over raw rows and hours -/

/-- A minute or an hour of the node falls into the bucket. -/
def Inside (n since step b : Int) (k : Int × Int) : Prop :=
  k.1 = n ∧ k.2 ≥ since ∧ idiv k.2 step = b

instance (n since step b : Int) : DecidablePred (Inside n since step b) := fun k =>
  inferInstanceAs (Decidable (k.1 = n ∧ k.2 ≥ since ∧ idiv k.2 step = b))

/-- What the rows of one kind contribute to a bucket. -/
theorem total_part {ρ : Type} (rows : Finset ρ) (key : ρ → Int × Int) (f : ρ → Sample)
    (hf : ∀ r, (f r).ts = (key r).2) (n since step b : Int) :
    total (((rows.filter fun r => (key r).1 = n ∧ (key r).2 ≥ since).val.map f).filter
      fun r => idiv r.ts step = b) =
      ∑ r ∈ rows.filter (fun r => Inside n since step b (key r)), weight (f r) := by
  have hrows : rows.filter (fun r => Inside n since step b (key r)) =
      (rows.filter fun r => (key r).1 = n ∧ (key r).2 ≥ since).filter
        fun r => idiv (f r).ts step = b := by
    rw [Finset.filter_filter]
    refine Finset.filter_congr ?_
    intro r _
    rw [hf]
    exact and_assoc.symm
  rw [total, Multiset.filter_map, Multiset.map_map, hrows]
  rfl

/-- The sums of a bucket are those of its minutes and of its hours. -/
theorem total_bucket (db : Store) (n since step b : Int) :
    total (bucketOf (metricHistory db n since) step b) =
      ∑ r ∈ db.metric.rows.filter (fun r => Inside n since step b r.key), minuteWeight r +
        db.metricHour.sumWhere (Inside n since step b) hourWeight := by
  have hminutes := total_part db.metric.rows MetricRow.key minuteSample (fun _ => rfl) n since step b
  have hhours := total_part db.metricHour.rows MetricHourRow.key hourSample (fun _ => rfl) n since
    step b
  simp only [weight_minuteSample] at hminutes
  simp only [weight_hourSample] at hhours
  rw [Table.sumWhere, ← hminutes, ← hhours, bucketOf, metricHistory, Multiset.filter_add, total,
    Multiset.map_add, Multiset.sum_add]
  rfl

/-- The buckets are those of some minute or of some hour. -/
theorem mem_buckets {db : Store} {n since step b : Int} :
    b ∈ bucketsOf (metricHistory db n since) step ↔
      (∃ r ∈ db.metric.rows, Inside n since step b r.key) ∨
        ∃ r ∈ db.metricHour.rows, Inside n since step b r.key := by
  unfold bucketsOf metricHistory
  rw [Multiset.mem_toFinset, Multiset.map_add, Multiset.mem_add, Multiset.map_map, Multiset.map_map,
    Multiset.mem_map, Multiset.mem_map]
  refine or_congr (exists_congr fun r => ?_) (exists_congr fun r => ?_)
  · rw [Finset.mem_val, Finset.mem_filter]
    constructor
    · rintro ⟨⟨hr, hnode, hlate⟩, hb⟩
      exact ⟨hr, hnode, hlate, hb⟩
    · rintro ⟨hr, hnode, hlate, hb⟩
      exact ⟨⟨hr, hnode, hlate⟩, hb⟩
  · rw [Finset.mem_val, Finset.mem_filter]
    constructor
    · rintro ⟨⟨hr, hnode, hlate⟩, hb⟩
      exact ⟨hr, hnode, hlate, hb⟩
    · rintro ⟨hr, hnode, hlate, hb⟩
      exact ⟨⟨hr, hnode, hlate⟩, hb⟩

/-- A minute of the window is where its hour is. -/
theorem inside_hour (haligned : 3600 ∣ since) (hstep : 3600 ∣ step) (n b : Int) {r : MetricRow}
    (hclock : since ≤ hourStart r.ts → hourStart r.ts ≤ r.ts) :
    Inside n since step b r.key ↔ Inside n since step b (metricHourKey r) := by
  have hwindow := since_le_hourStart haligned hclock
  refine and_congr Iff.rfl (and_congr hwindow.symm ?_)
  rw [show (metricHourKey r).2 = hourStart r.ts from rfl, idiv_hourStart hstep]
  exact Iff.rfl

/-- The clocks of the rows that are left. -/
theorem minute_clock (h : Mirrors since R P s plain) {r : MetricRow} (hr : r ∈ s.db.metric.rows) :
    since ≤ hourStart r.ts → hourStart r.ts ≤ r.ts :=
  fun hwindow => h.minuteClock r ((h.minutes.rows r hwindow).mpr (.inl hr)) hwindow

/-! ## Metrics -/

/-- Every hour with samples of a gauge has a sum of it. -/
def HoursCounted (db : Store) : Prop := ∀ r ∈ db.metricHour.rows, Counted (hourSample r)

/-- An hour formed out of minutes has a sum of every gauge it counts. -/
theorem counted_metricHourOf (k : Int × Int) (group : Finset MetricRow) (h : group.Nonempty) :
    Counted (hourSample (metricHourOf k group h)) := by
  intro g hcount hnone
  have hnone' : sqlSum group (fun r => r.gauge g) = none := hnone
  refine hcount ?_
  change sqlCount group (fun r => r.gauge g) = 0
  unfold sqlSum at hnone'
  split at hnone'
  · cases hnone'
  · rename_i habsent
    refine Finset.sum_eq_zero ?_
    intro r hr
    exact if_neg fun hsome => habsent ⟨r, hr, hsome⟩

/-- Pruning leaves hours that count their samples. -/
theorem hoursCounted_pruned (cutoff oldest : Int) {db : Store} (h : HoursCounted db) :
    HoursCounted (StoreInvariant.pruned cutoff oldest db) := by
  intro r hr
  have hroll : r ∈ (rollMetrics cutoff oldest db).metricHour.rows := (Table.mem_deleteWhere.mp hr).1
  rcases (Table.mem_mergeAll mergeMetricHour_key).mp hroll with
    ⟨old, -, new, -, -, rfl⟩ | ⟨hold, -⟩ | ⟨hnew, -⟩
  · intro g _
    exact Option.some_ne_none _
  · exact h r hold
  · obtain ⟨q, hq, rfl⟩ := mem_groupBy.mp hnew
    exact counted_metricHourOf _ _ _

/-- In every history the hours count their samples. -/
theorem hoursCounted_run {host : Host} {start : Store} (hempty : Unrecorded start)
    {entries : List Entry} (hrun : History host start entries s) : HoursCounted s.db := by
  induction hrun with
  | start =>
    intro r hr
    change r ∈ start.metricHour.rows at hr
    rw [hempty.metricHour] at hr
    exact absurd hr (Finset.notMem_empty r)
  | step _ hstep ih =>
    cases hstep with
    | metric n ts m db hnew hfiled =>
      rw [filed_metric hfiled, withMinute_frame]
      exact ih
    | ping n task ts latency db hnew hfiled =>
      rw [filed_ping hfiled, withResult_frame]
      exact ih
    | prune now keepDays p db hran =>
      rw [ran_prune hran]
      exact hoursCounted_pruned _ _ ih

/-- What is read back counts its samples too. -/
theorem counted_history {db : Store} (h : HoursCounted db) (n since : Int) :
    ∀ r ∈ metricHistory db n since, Counted r := by
  intro r hr
  rcases Multiset.mem_add.mp hr with hr | hr
  · obtain ⟨q, -, rfl⟩ := Multiset.mem_map.mp hr
    exact counted_minuteSample q
  · obtain ⟨q, hq, rfl⟩ := Multiset.mem_map.mp hr
    exact h q (Finset.mem_filter.mp hq).1

/-- A bucket of the pruned store sums up the rows of the other one. -/
theorem total_mirrored (h : Mirrors since R P s plain) (haligned : 3600 ∣ since)
    (hstep : 3600 ∣ step) (n b : Int) :
    total (bucketOf (metricHistory s.db n since) step b) =
      ∑ r ∈ plain.metric.rows.filter (fun r => Inside n since step b r.key), minuteWeight r := by
  have hraw : s.db.metric.rows.filter (fun r => Inside n since step b r.key) =
      s.db.metric.rows.filter fun r => Inside n since step b (metricHourKey r) :=
    Finset.filter_congr fun r hr => inside_hour haligned hstep n b (minute_clock h hr)
  have hplain : plain.metric.rows.filter (fun r => Inside n since step b r.key) =
      plain.metric.rows.filter fun r => Inside n since step b (metricHourKey r) :=
    Finset.filter_congr fun r hr => inside_hour haligned hstep n b (h.minuteClock r hr)
  rw [total_bucket, hraw, hplain]
  exact h.minutes.total (Inside n since step b) fun k hk => hk.2.1

/-- It is a bucket just when it is one of the other store. -/
theorem buckets_mirrored (h : Mirrors since R P s plain) (hhours : plain.metricHour = .empty _)
    (haligned : 3600 ∣ since) (hstep : 3600 ∣ step) (n : Int) :
    bucketsOf (metricHistory s.db n since) step = bucketsOf (metricHistory plain n since) step := by
  ext b
  rw [mem_buckets, mem_buckets, hhours]
  have hraw : (∃ r ∈ s.db.metric.rows, Inside n since step b r.key) ↔
      ∃ r ∈ s.db.metric.rows, Inside n since step b (metricHourKey r) :=
    exists_congr fun r => and_congr_right fun hr =>
      inside_hour haligned hstep n b (minute_clock h hr)
  have hplain : (∃ r ∈ plain.metric.rows, Inside n since step b r.key) ↔
      ∃ r ∈ plain.metric.rows, Inside n since step b (metricHourKey r) :=
    exists_congr fun r => and_congr_right fun hr =>
      inside_hour haligned hstep n b (h.minuteClock r hr)
  have hnone : ¬ ∃ r ∈ (Table.empty MetricHourRow.key).rows, Inside n since step b r.key := by
    rintro ⟨r, hr, -⟩
    exact absurd hr (Finset.notMem_empty r)
  rw [hraw, hplain, or_iff_left hnone]
  exact h.minutes.exists_iff (Inside n since step b) fun k hk => hk.2.1

/-- The means are those of the other store. -/
theorem means_mirrored (h : Mirrors since R P s plain) (hhours : plain.metricHour = .empty _)
    (hcounted : HoursCounted s.db) (haligned : 3600 ∣ since) (hstep : 3600 ∣ step) (n : Int) :
    metricMeans s.db n since step = metricMeans plain n since step := by
  have hnone : HoursCounted plain := by
    intro r hr
    rw [hhours] at hr
    exact absurd hr (Finset.notMem_empty r)
  refine means_congr (counted_history hcounted n since) (counted_history hnone n since)
    (buckets_mirrored h hhours haligned hstep n) ?_
  intro b
  rw [total_mirrored h haligned hstep, total_bucket, hhours, Table.sumWhere_empty, add_zero]

/-- How many samples a bucket answers for. -/
def metricCount (db : Store) (n since step b : Int) : Int :=
  ((bucketOf (metricHistory db n since) step b).map Sample.samples).sum

/-- They are as many as the other store has minutes there. -/
theorem metricCount_mirrored (h : Mirrors since R P s plain) (haligned : 3600 ∣ since)
    (hstep : 3600 ∣ step) (n b : Int) :
    metricCount s.db n since step b =
      (plain.metric.rows.filter fun r => Inside n since step b r.key).card := by
  have hsum := congrFun (total_mirrored h haligned hstep n b) .samples
  rw [total_apply, Finset.sum_apply] at hsum
  have hone : ∀ r : MetricRow, minuteWeight r .samples = 1 := fun _ => rfl
  simp only [hone, Finset.sum_const, nsmul_eq_mul, mul_one] at hsum
  have hcast : ((metricCount s.db n since step b : Int) : Rat) =
      ((plain.metric.rows.filter fun r => Inside n since step b r.key).card : Int) := by
    unfold metricCount
    rw [cast_sum, Int.cast_natCast]
    exact hsum
  exact Int.cast_injective hcast

/-! ## Probes -/

/-- A result or a counted latency of the node falls into the group. -/
def Answers (assigned : Table PingNodeRow.key) (n since step : Int) (k : Int ×ₗ Int ×ₗ Int)
    (x : Int × Int × Int × Int) : Prop :=
  x.1 = n ∧ x.2.1 ≥ since ∧ assigned.Has (x.2.2.1, n) ∧
    toLex (idiv x.2.1 step * step, toLex (x.2.2.1, x.2.2.2)) = k

instance (assigned : Table PingNodeRow.key) (n since step : Int) (k : Int ×ₗ Int ×ₗ Int) :
    DecidablePred (Answers assigned n since step k) := fun x =>
  inferInstanceAs (Decidable (x.1 = n ∧ x.2.1 ≥ since ∧ assigned.Has (x.2.2.1, n) ∧
    toLex (idiv x.2.1 step * step, toLex (x.2.2.1, x.2.2.2)) = k))

/-- What a result is counted under, with the time itself. -/
def resultKey (r : PingRecordRow) : Int × Int × Int × Int := (r.nodeId, r.ts, r.taskId, r.latency)

/-- The assigned part of the history. -/
def assignedHistory (db : Store) (n since : Int) : Multiset PingSample :=
  (pingHistory db n since).filter fun r => db.pingNode.Has (r.taskId, n)

/-- How many samples a group answers for. -/
def pingCount (db : Store) (n since step : Int) (k : Int ×ₗ Int ×ₗ Int) : Int :=
  (((assignedHistory db n since).filter fun r => pingGroup step r = k).map PingSample.samples).sum

/-- What the rows of one kind contribute to a group. -/
theorem count_part {ρ : Type} (rows : Finset ρ) (key : ρ → Int × Int × Int × Int)
    (f : ρ → PingSample) (hf : ∀ r, f r = ⟨(key r).2.1, (key r).2.2.1, (key r).2.2.2, (f r).samples⟩)
    (assigned : Table PingNodeRow.key) (n since step : Int) (k : Int ×ₗ Int ×ₗ Int) :
    (((((rows.filter fun r => (key r).1 = n ∧ (key r).2.1 ≥ since).val.map f).filter
      fun r => assigned.Has (r.taskId, n)).filter fun r => pingGroup step r = k).map
        PingSample.samples).sum =
      ∑ r ∈ rows.filter (fun r => Answers assigned n since step k (key r)), (f r).samples := by
  have hrows : rows.filter (fun r => Answers assigned n since step k (key r)) =
      ((rows.filter fun r => (key r).1 = n ∧ (key r).2.1 ≥ since).filter
        fun r => assigned.Has ((f r).taskId, n)).filter fun r => pingGroup step (f r) = k := by
    rw [Finset.filter_filter, Finset.filter_filter]
    refine Finset.filter_congr ?_
    intro r _
    rw [hf r]
    exact ⟨fun ⟨hnode, hlate, hin, hk⟩ => ⟨⟨hnode, hlate⟩, hin, hk⟩,
      fun ⟨⟨hnode, hlate⟩, hin, hk⟩ => ⟨hnode, hlate, hin, hk⟩⟩
  rw [Multiset.filter_map, Multiset.filter_map, Multiset.map_map, hrows]
  rfl

/-- The samples of a group are its results and what its hours count. -/
theorem pingCount_eq (db : Store) (n since step : Int) (k : Int ×ₗ Int ×ₗ Int) :
    pingCount db n since step k =
      ∑ _r ∈ db.pingRecord.rows.filter (fun r => Answers db.pingNode n since step k (resultKey r)),
        (1 : Int) + db.pingHour.sumWhere (Answers db.pingNode n since step k) PingHourRow.samples := by
  have hresults := count_part db.pingRecord.rows resultKey
    (fun r => ⟨r.ts, r.taskId, r.latency, 1⟩) (fun _ => rfl) db.pingNode n since step k
  have hhours := count_part db.pingHour.rows PingHourRow.key
    (fun r => ⟨r.ts, r.taskId, r.latency, r.samples⟩) (fun _ => rfl) db.pingNode n since step k
  rw [Table.sumWhere, ← hresults, ← hhours, pingCount, assignedHistory, pingHistory,
    Multiset.filter_add, Multiset.filter_add, Multiset.map_add, Multiset.sum_add]
  rfl

/-- The groups are those of some result or of some hour. -/
theorem mem_groups {db : Store} {n since step : Int} {k : Int ×ₗ Int ×ₗ Int} :
    k ∈ ((assignedHistory db n since).map (pingGroup step)).toFinset ↔
      (∃ r ∈ db.pingRecord.rows, Answers db.pingNode n since step k (resultKey r)) ∨
        ∃ r ∈ db.pingHour.rows, Answers db.pingNode n since step k r.key := by
  rw [Multiset.mem_toFinset, Multiset.mem_map]
  constructor
  · rintro ⟨q, hq, hk⟩
    obtain ⟨hq, hassigned⟩ := Multiset.mem_filter.mp hq
    rcases Multiset.mem_add.mp hq with hq | hq
    · obtain ⟨r, hr, rfl⟩ := Multiset.mem_map.mp hq
      obtain ⟨hr, hnode, hlate⟩ := Finset.mem_filter.mp hr
      exact .inl ⟨r, hr, hnode, hlate, hassigned, hk⟩
    · obtain ⟨r, hr, rfl⟩ := Multiset.mem_map.mp hq
      obtain ⟨hr, hnode, hlate⟩ := Finset.mem_filter.mp hr
      exact .inr ⟨r, hr, hnode, hlate, hassigned, hk⟩
  · rintro (⟨r, hr, hnode, hlate, hassigned, hk⟩ | ⟨r, hr, hnode, hlate, hassigned, hk⟩)
    · refine ⟨⟨r.ts, r.taskId, r.latency, 1⟩, Multiset.mem_filter.mpr ⟨?_, hassigned⟩, hk⟩
      exact Multiset.mem_add.mpr (.inl (Multiset.mem_map.mpr
        ⟨r, Finset.mem_filter.mpr ⟨hr, hnode, hlate⟩, rfl⟩))
    · refine ⟨⟨r.ts, r.taskId, r.latency, r.samples⟩, Multiset.mem_filter.mpr ⟨?_, hassigned⟩, hk⟩
      exact Multiset.mem_add.mpr (.inr (Multiset.mem_map.mpr
        ⟨r, Finset.mem_filter.mpr ⟨hr, hnode, hlate⟩, rfl⟩))

/-- A result of the window is where its hour is. -/
theorem answers_hour (haligned : 3600 ∣ since) (hstep : 3600 ∣ step)
    (assigned : Table PingNodeRow.key) (n : Int) (k : Int ×ₗ Int ×ₗ Int) {r : PingRecordRow}
    (hclock : since ≤ hourStart r.ts → hourStart r.ts ≤ r.ts) :
    Answers assigned n since step k (resultKey r) ↔
      Answers assigned n since step k (pingHourKey r) := by
  have hwindow := since_le_hourStart haligned hclock
  refine and_congr Iff.rfl (and_congr hwindow.symm (and_congr Iff.rfl ?_))
  rw [show (pingHourKey r).2.1 = hourStart r.ts from rfl, idiv_hourStart hstep]
  exact Iff.rfl

/-- A result falls in the hour it is filed under. -/
theorem result_clock (h : Mirrors since R P s plain) {r : PingRecordRow}
    (hr : r ∈ s.db.pingRecord.rows) : since ≤ hourStart r.ts → hourStart r.ts ≤ r.ts :=
  fun hwindow => h.resultClock r ((h.results.rows r hwindow).mpr (.inl hr)) hwindow

/-- A group of the pruned store counts the results of the other one. -/
theorem pingCount_mirrored (h : Mirrors since R P s plain) (haligned : 3600 ∣ since)
    (hstep : 3600 ∣ step) (n : Int) (k : Int ×ₗ Int ×ₗ Int) :
    pingCount s.db n since step k = (plain.pingRecord.rows.filter fun r =>
      Answers plain.pingNode n since step k (resultKey r)).card := by
  have hraw : s.db.pingRecord.rows.filter
      (fun r => Answers plain.pingNode n since step k (resultKey r)) =
      s.db.pingRecord.rows.filter fun r => Answers plain.pingNode n since step k (pingHourKey r) :=
    Finset.filter_congr fun r hr => answers_hour haligned hstep _ n k (result_clock h hr)
  have hplain : plain.pingRecord.rows.filter
      (fun r => Answers plain.pingNode n since step k (resultKey r)) =
      plain.pingRecord.rows.filter fun r => Answers plain.pingNode n since step k (pingHourKey r) :=
    Finset.filter_congr fun r hr => answers_hour haligned hstep _ n k (h.resultClock r hr)
  rw [pingCount_eq, h.pingNode, hraw, hplain,
    h.results.total (Answers plain.pingNode n since step k) fun x hx => hx.2.1, Finset.sum_const,
    nsmul_eq_mul, mul_one]

/-- Both histories have the same buckets. -/
theorem groups_mirrored (h : Mirrors since R P s plain) (hhours : plain.pingHour = .empty _)
    (haligned : 3600 ∣ since) (hstep : 3600 ∣ step) (n : Int) :
    ((assignedHistory s.db n since).map (pingGroup step)).toFinset =
      ((assignedHistory plain n since).map (pingGroup step)).toFinset := by
  ext k
  rw [mem_groups, mem_groups, hhours, h.pingNode]
  have hraw : (∃ r ∈ s.db.pingRecord.rows, Answers plain.pingNode n since step k (resultKey r)) ↔
      ∃ r ∈ s.db.pingRecord.rows, Answers plain.pingNode n since step k (pingHourKey r) :=
    exists_congr fun r => and_congr_right fun hr =>
      answers_hour haligned hstep _ n k (result_clock h hr)
  have hplain : (∃ r ∈ plain.pingRecord.rows, Answers plain.pingNode n since step k (resultKey r)) ↔
      ∃ r ∈ plain.pingRecord.rows, Answers plain.pingNode n since step k (pingHourKey r) :=
    exists_congr fun r => and_congr_right fun hr =>
      answers_hour haligned hstep _ n k (h.resultClock r hr)
  have hnone : ¬ ∃ r ∈ (Table.empty PingHourRow.key).rows,
      Answers plain.pingNode n since step k r.key := by
    rintro ⟨r, hr, -⟩
    exact absurd hr (Finset.notMem_empty r)
  rw [hraw, hplain, or_iff_left hnone]
  exact h.results.exists_iff (Answers plain.pingNode n since step k) fun x hx => hx.2.1

/-- The rows of the probe query, by their groups. -/
theorem pingRows_eq (db : Store) (n since step : Int) :
    pingRows db n since step =
      (((assignedHistory db n since).map (pingGroup step)).toFinset.sort (· ≤ ·)).map fun k =>
        ⟨(ofLex k).1, (ofLex (ofLex k).2).1, (ofLex (ofLex k).2).2, pingCount db n since step k⟩ :=
  rfl

/-- They are those of the other store. -/
theorem pingRows_mirrored (h : Mirrors since R P s plain) (hhours : plain.pingHour = .empty _)
    (haligned : 3600 ∣ since) (hstep : 3600 ∣ step) (n : Int) :
    pingRows s.db n since step = pingRows plain n since step := by
  rw [pingRows_eq, pingRows_eq, groups_mirrored h hhours haligned hstep]
  refine List.map_congr_left ?_
  intro k _
  rw [pingCount_mirrored h haligned hstep, pingCount_eq plain, hhours, Table.sumWhere_empty,
    add_zero, Finset.sum_const, nsmul_eq_mul, mul_one]

/-! ## What history answers -/

/-- Both stores answer alike, and for each sample once. -/
structure SameHistory (db plain : Store) (n since step : Int) : Prop where
  /-- Also before the means are cut down to integers. -/
  means : metricMeans db n since step = metricMeans plain n since step
  /-- The same points of the machine. -/
  metrics : metrics db n since step = metrics plain n since step
  /-- The same points of the probes. -/
  pings : pingRecords db n since step = pingRecords plain n since step
  /-- A bucket counts the samples it had. -/
  metricCount : ∀ b, metricCount db n since step b =
    (plain.metric.rows.filter fun r => Inside n since step b r.key).card
  /-- So does a bucket of a probe. -/
  pingCount : ∀ k, pingCount db n since step k = (plain.pingRecord.rows.filter fun r =>
    Answers plain.pingNode n since step k (resultKey r)).card

/-- A mirrored store shows the history of the plain one. -/
theorem same_mirrored (h : Mirrors since R P s plain) (hmetric : plain.metricHour = .empty _)
    (hping : plain.pingHour = .empty _) (hcounted : HoursCounted s.db) (haligned : 3600 ∣ since)
    (hstep : 3600 ∣ step) (n : Int) : SameHistory s.db plain n since step := by
  have hmeans := means_mirrored h hmetric hcounted haligned hstep n
  have hrows := pingRows_mirrored h hping haligned hstep n
  refine ⟨hmeans, ?_, ?_, metricCount_mirrored h haligned hstep n,
    pingCount_mirrored h haligned hstep n⟩
  · unfold metrics
    dsimp only
    rw [historyStep_aligned hstep, historyStep_aligned hstep]
    split
    · exact congrArg (fun means => Except.ok (means.map (pointOf step))) hmeans
    · rfl
  · unfold pingRecords
    dsimp only
    rw [historyStep_aligned hstep, historyStep_aligned hstep]
    split
    · exact congrArg (fun rows => Except.ok (readRows rows)) hrows
    · rfl

/-- Whatever was filed and pruned in between, a chart of whole hours within the
last year shows what it would without a prune, and traffic is as it was. -/
theorem pruning_keeps_history {host : Host} {start : Store} (hempty : Unrecorded start)
    {entries : List Entry} {q : Past} (hrun : History host start entries s)
    (hplain : History host start (entries.filter Entry.isInsert) q)
    (htimes : (pruneTimes entries).Pairwise fun later earlier => earlier ≤ later)
    (hlast : ∀ now ∈ (pruneTimes entries).head?, oldestOf now ≤ since)
    (hclock : 0 < since ∨ ∀ e ∈ entries, e.Stamped) (haligned : 3600 ∣ since)
    (hstep : 3600 ∣ step) (n : Int) :
    SameHistory s.db q.db n since step ∧ s.db.traffic = start.traffic := by
  obtain ⟨R, P, hmirrors⟩ := mirrors_run hempty hrun hplain (oldest_le htimes hlast) hclock
  obtain ⟨hmetric, hping⟩ := hours_empty hempty hplain fun e he => (List.mem_filter.mp he).2
  exact ⟨same_mirrored hmirrors hmetric hping (hoursCounted_run hempty hrun) haligned hstep n,
    traffic_run hrun⟩

/-- A hub that keeps tokens as they are. -/
def sampleHost : Host := ⟨fun token => token, fun _ => none⟩

/-- A store that knows one node. -/
def watched : Store :=
  { Store.blank with
    node := (Table.empty NodeRow.id).put (newNodeRow 1
      ⟨"one", true, 0, "", "", none, "", 0, "", 1, 0, "GB", 0, 0, true, false⟩ "hash" 0 0) }

/-- A minute was filed, rolled up, and then another one of the same hour came. -/
def lateSample : Store :=
  withMinute 1 1699995720 .null (StoreInvariant.pruned (cutoffOf 1700000000 0) (oldestOf 1700000000)
    (withMinute 1 1699995660 .null watched))

/-- Both minutes were filed. -/
def bothSamples : Store := withMinute 1 1699995720 .null (withMinute 1 1699995660 .null watched)

/-- A sample taken late, after its hour was folded. -/
theorem pruning_keeps_history_late : SameHistory lateSample bothSamples 1 1699995600 7200 ∧
    lateSample.traffic = watched.traffic := by
  obtain ⟨p, hran⟩ := ran_pruned sampleHost 1700000000 0 (withMinute 1 1699995660 .null watched)
  have hfirst : History sampleHost watched [.metric 1 1699995660 .null]
      ⟨withMinute 1 1699995660 .null watched, ∅, ∅⟩ :=
    History.start.step (.metric 1 1699995660 .null _ (Finset.notMem_empty _)
      (filed_withMinute _ _ _ _ _))
  have hnew : (1, 1699995720) ∉ (Past.pruned ⟨withMinute 1 1699995660 .null watched, ∅, ∅⟩
      (cutoffOf 1700000000 0) (oldestOf 1700000000) (StoreInvariant.pruned (cutoffOf 1700000000 0)
        (oldestOf 1700000000) (withMinute 1 1699995660 .null watched))).minutes := by
    intro hin
    rcases Finset.mem_union.mp hin with hin | hin
    · exact absurd hin (Finset.notMem_empty _)
    · obtain ⟨r, hr, hkey⟩ := Finset.mem_image.mp hin
      have hfiled := (Finset.mem_filter.mp hr).1
      have hnode : watched.node.Has 1 := ⟨_, Table.mem_put.mpr (.inl rfl), rfl⟩
      unfold withMinute at hfiled
      rw [if_pos hnode] at hfiled
      rcases Table.mem_put.mp hfiled with rfl | ⟨hold, -⟩
      · exact absurd (congrArg Prod.snd hkey) (by decide)
      · exact absurd hold (Finset.notMem_empty r)
  have hlate := (hfirst.step (.prune 1700000000 0 p _ hran)).step
    (.metric 1 1699995720 .null lateSample hnew (filed_withMinute _ _ _ _ _))
  have hboth : History sampleHost watched
      [.metric 1 1699995720 .null, .metric 1 1699995660 .null] ⟨bothSamples, ∅, ∅⟩ :=
    hfirst.step (.metric 1 1699995720 .null _ (Finset.notMem_empty _) (filed_withMinute _ _ _ _ _))
  exact pruning_keeps_history ⟨rfl, rfl, rfl, rfl⟩ hlate hboth (List.pairwise_singleton _ _)
    (by decide) (.inl (by decide)) (by decide) (by decide) 1

end Romi.PrunedHistory
