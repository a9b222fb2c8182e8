import Mathlib
import Romi.CachedTransactions
import Romi.HourlyRollup

/-!
# What the history of one node answers

A chart reads the minutes and the hours of its window as one relation, groups
it into buckets and divides, column by column, a sum by the number of samples
behind it. Probe results come as one row for each latency of a bucket; the
median, the band and the losses are counted out of these rows in time order.
-/

namespace Romi.HistoryQueries

open CachedTransactions HourlyRollup KeyedTable StoreSchema

/-! ## Metrics -/

/-- A row of the relation `history` of `METRICS_SQL`. -/
structure Sample where
  /-- When it was. -/
  ts : Int
  /-- How many minutes it stands for. -/
  samples : Int
  /-- The sum of their loads. -/
  cpuSum : Rat
  /-- The sum of their memory. -/
  memSum : Int
  /-- The sum of their disk space. -/
  diskSum : Int
  /-- The sum of the rates received. -/
  rxSum : Int
  /-- The sum of the rates sent. -/
  txSum : Int
  /-- The sum of a gauge, null where it was never told. -/
  gaugeSum : Gauge → Option Int
  /-- How many minutes told it. -/
  gaugeSamples : Gauge → Int

/-- A minute is one sample of itself. -/
def minuteSample (r : MetricRow) : Sample where
  ts := r.ts
  samples := 1
  cpuSum := r.cpu
  memSum := r.memUsed
  diskSum := r.diskUsed
  rxSum := r.netRx
  txSum := r.netTx
  gaugeSum := r.gauge
  gaugeSamples g := if r.gauge g = none then 0 else 1

/-- An hour brings the sums it keeps. -/
def hourSample (r : MetricHourRow) : Sample where
  ts := r.ts
  samples := r.samples
  cpuSum := r.cpuSum
  memSum := r.memSum
  diskSum := r.diskSum
  rxSum := r.rxSum
  txSum := r.txSum
  gaugeSum := r.gaugeSum
  gaugeSamples := r.gaugeSamples

/-- The UNION ALL of `METRICS_SQL`. -/
def metricHistory (db : Store) (n since : Int) : Multiset Sample :=
  (db.metric.rows.filter fun r => r.nodeId = n ∧ r.ts ≥ since).val.map minuteSample +
    (db.metricHour.rows.filter fun r => r.nodeId = n ∧ r.ts ≥ since).val.map hourSample

/-- SUM over a column that may be null: of what there is, null when nothing is. -/
def sumOption (values : Multiset (Option Int)) : Option Int :=
  let present := values.filterMap id
  if present = 0 then none else some present.sum

/-- The means of one bucket before they are cut down to integers. -/
structure Means where
  /-- Where the bucket begins. -/
  ts : Int
  /-- The mean load. -/
  cpu : Rat
  /-- The mean of the memory in use. -/
  mem : Rat
  /-- The mean of the disk space in use. -/
  disk : Rat
  /-- The mean rate received. -/
  rx : Rat
  /-- The mean rate sent. -/
  tx : Rat
  /-- The mean of a gauge over the minutes that told it. -/
  gauge : Gauge → Option Rat

/-- `SUM(..)/NULLIF(SUM(.._samples),0)`. -/
def gaugeMean (group : Multiset Sample) (g : Gauge) : Option Rat :=
  let count := (group.map fun r => r.gaugeSamples g).sum
  if count = 0 then none
  else (sumOption (group.map fun r => r.gaugeSum g)).map fun (sum : Int) => (sum : Rat) / count

/-- One row of the SELECT of `METRICS_SQL`. -/
def meansOf (step : Int) (group : Multiset Sample) : Means :=
  let count : Rat := (group.map Sample.samples).sum
  { ts := idiv ((group.map Sample.ts).toFinset.min.untopD 0) step * step
    cpu := (group.map Sample.cpuSum).sum / count
    mem := (group.map Sample.memSum).sum / count
    disk := (group.map Sample.diskSum).sum / count
    rx := (group.map Sample.rxSum).sum / count
    tx := (group.map Sample.txSum).sum / count
    gauge := gaugeMean group }

/-- The rows of one bucket. -/
def bucketOf (history : Multiset Sample) (step b : Int) : Multiset Sample :=
  history.filter fun r => idiv r.ts step = b

/-- The buckets that have a row, in time order. -/
def bucketsOf (history : Multiset Sample) (step : Int) : Finset Int :=
  (history.map fun r => idiv r.ts step).toFinset

/-- `METRICS_SQL` with exact means. -/
def metricMeans (db : Store) (n since step : Int) : List Means :=
  let history := metricHistory db n since
  (ascending (bucketsOf history step)).map fun b => meansOf step (bucketOf history step b)

/-- `CAST(TRUNC(..) AS BIGINT)`. -/
def truncated (q : Rat) : Int := q.num.tdiv q.den

/-- One object of the metric series. -/
structure MetricPoint where
  /-- The seconds of a bucket. -/
  step : Int
  /-- Where the bucket begins. -/
  ts : Int
  /-- The mean load. -/
  cpu : Rat
  /-- The mean of the memory in use. -/
  memUsed : Int
  /-- The mean of the disk space in use. -/
  diskUsed : Int
  /-- The mean rate received. -/
  netRx : Int
  /-- The mean rate sent. -/
  netTx : Int
  /-- The mean of a gauge over the minutes that told it. -/
  gauge : Gauge → Option Int

/-- The object made of one row. -/
def pointOf (step : Int) (m : Means) : MetricPoint where
  step := step
  ts := m.ts
  cpu := m.cpu
  memUsed := truncated m.mem
  diskUsed := truncated m.disk
  netRx := truncated m.rx
  netTx := truncated m.tx
  gauge g := (m.gauge g).map truncated

/-- `history_step`; the flag says whether the window has hourly rows. -/
def historyStep (hourly : Bool) (step : Int) : Except Failure Int :=
  if ¬ (1 ≤ step ∧ step ≤ 365 * 86400) then
    .error (.declined "unsupported history bucket width")
  else if step ≥ 3600 ∧ step % 3600 = 0 then .ok step
  else .ok (if hourly = true then idiv (max step 3600 + 3599) 3600 * 3600 else step)

/-- `metrics`. -/
def metrics (db : Store) (n since step : Int) : Except Failure (List MetricPoint) := do
  let hourly := decide (∃ r ∈ db.metricHour.rows, r.nodeId = n ∧ r.ts ≥ since)
  let step ← historyStep hourly step
  pure ((metricMeans db n since step).map (pointOf step))

/-! ## Probes -/

/-- A row of the relation `history` of `PING_ROWS_SQL`. -/
structure PingSample where
  /-- When it was. -/
  ts : Int
  /-- Which probe. -/
  taskId : Int
  /-- The milliseconds it took, -1 for a timeout. -/
  latency : Int
  /-- How many results had it. -/
  samples : Int

/-- The UNION ALL of `PING_ROWS_SQL`. -/
def pingHistory (db : Store) (n since : Int) : Multiset PingSample :=
  (db.pingRecord.rows.filter fun r => r.nodeId = n ∧ r.ts ≥ since).val.map
      (fun r => ⟨r.ts, r.taskId, r.latency, 1⟩) +
    (db.pingHour.rows.filter fun r => r.nodeId = n ∧ r.ts ≥ since).val.map
      (fun r => ⟨r.ts, r.taskId, r.latency, r.samples⟩)

/-- What the rows are grouped and ordered by. -/
def pingGroup (step : Int) (r : PingSample) : Int ×ₗ Int ×ₗ Int :=
  toLex (idiv r.ts step * step, toLex (r.taskId, r.latency))

/-- One row of the answer: how often a latency occurred. -/
structure PingRow where
  /-- Where the bucket begins. -/
  bucket : Int
  /-- Which probe. -/
  task : Int
  /-- The milliseconds it took, -1 for a timeout. -/
  latency : Int
  /-- How many results of the bucket had it. -/
  samples : Int
  deriving DecidableEq

/-- `PING_ROWS_SQL`. -/
def pingRows (db : Store) (n since step : Int) : List PingRow :=
  let history := (pingHistory db n since).filter fun r => db.pingNode.Has (r.taskId, n)
  ((history.map (pingGroup step)).toFinset.sort (· ≤ ·)).map fun k =>
    ⟨(ofLex k).1, (ofLex (ofLex k).2).1, (ofLex (ofLex k).2).2,
      ((history.filter fun r => pingGroup step r = k).map PingSample.samples).sum⟩

/-- What one probe has in the bucket being filled. -/
structure PingBucket where
  /-- Which probe. -/
  task : Int
  /-- Latencies with how often they occurred. -/
  answered : List (Int × Int)
  /-- How many of its results were timeouts. -/
  lost : Int

/-- A timeout is stored as -1: it is counted and left out of the median. -/
def PingBucket.add (b : PingBucket) (row : PingRow) : PingBucket :=
  if row.latency < 0 then { b with lost := b.lost + row.samples }
  else { b with answered := b.answered ++ [(row.latency, row.samples)] }

/-- Files a row under its probe, which is added when it is not there yet. -/
def fileRow : List PingBucket → PingRow → List PingBucket
  | [], row => [PingBucket.add ⟨row.task, [], 0⟩ row]
  | b :: rest, row => if b.task = row.task then b.add row :: rest else b :: fileRow rest row

/-- One object of the probe series. -/
structure PingPoint where
  /-- Which probe. -/
  taskId : Int
  /-- Where the bucket begins. -/
  ts : Int
  /-- The median, null where nothing answered. -/
  latency : Option Int
  /-- The lowest and the highest answer, where they differ. -/
  band : Option (Int × Int)
  /-- The percentage lost, where anything was. -/
  loss : Option Int
  deriving DecidableEq

/-- The value at a position of a histogram; nothing past its end, which the
program declares unreachable. -/
def rankFrom : Int → List (Int × Int) → Int → Option Int
  | _, [], _ => none
  | seen, (value, samples) :: rest, position =>
    if seen + samples > position then some value else rankFrom (seen + samples) rest position

/-- How many answers a histogram holds. -/
def countOf (answered : List (Int × Int)) : Int := (answered.map Prod.snd).sum

/-- The median, null when nothing answered. -/
def middleOf (answered : List (Int × Int)) : Option Int :=
  let count := countOf answered
  if count = 0 then none
  else if count.tmod 2 = 1 then rankFrom 0 answered (idiv count 2)
  else do
    let low ← rankFrom 0 answered (idiv count 2 - 1)
    let high ← rankFrom 0 answered (idiv count 2)
    pure (idiv (low + high) 2)

example : middleOf [(1, 1), (2, 1), (3, 1), (100, 1)] = some 2 := by decide

/-- The lowest and the highest answer of a sorted histogram, where they differ. -/
def bandOf (answered : List (Int × Int)) : Option (Int × Int) := do
  let low ← answered.head?
  let high ← answered.getLast?
  if high.1 > low.1 then some (low.1, high.1) else none

/-- The object made of what one probe has in a finished bucket. -/
def closeProbe (ts : Int) (b : PingBucket) : PingPoint :=
  let answered := b.answered.mergeSort fun x y => decide (x.1 < y.1 ∨ (x.1 = y.1 ∧ x.2 ≤ y.2))
  let total := countOf answered + b.lost
  { taskId := b.task
    ts := ts
    latency := middleOf answered
    band := bandOf answered
    loss := if b.lost > 0 then some (idiv (100 * b.lost + total - 1) total) else none }

/-- `close_bucket`. -/
def closeBucket (opened : List PingBucket) (ts : Int) : List PingPoint :=
  (opened.mergeSort fun x y => decide (x.task ≤ y.task)).map (closeProbe ts)

/-- Where the loop of `ping_records` is. -/
structure Reading where
  /-- The objects of the finished buckets. -/
  out : List PingPoint
  /-- What each probe has in the bucket that is open. -/
  opened : List PingBucket
  /-- How many results of a probe were lost, out of how many. -/
  totals : Int → Int × Int
  /-- The bucket that is open. -/
  bucket : Int

/-- The loop has not seen a row. -/
def Reading.start : Reading := ⟨[], [], fun _ => (0, 0), 0⟩

/-- The bucket is finished when a row of another one comes. -/
def Reading.turn (s : Reading) (b : Int) : Reading :=
  if b ≠ s.bucket then
    { s with out := s.out ++ closeBucket s.opened s.bucket, opened := [], bucket := b }
  else s

/-- One row of the loop. -/
def Reading.next (s : Reading) (row : PingRow) : Reading :=
  let s := s.turn row.bucket
  let seen := s.totals row.task
  { s with
    opened := fileRow s.opened row
    totals := Function.update s.totals row.task
      (if row.latency < 0 then seen.1 + row.samples else seen.1, seen.2 + row.samples) }

/-- How much of the whole window a probe lost, unrounded. -/
def windowLoss (totals : Int → Int × Int) (task : Int) : Option Rat :=
  if (totals task).1 > 0 then some (100 * (totals task).1 / (totals task).2) else none

/-- What the loop leaves behind. -/
def readRows (rows : List PingRow) : List PingPoint × (Int → Option Rat) :=
  let s := rows.foldl Reading.next .start
  (s.out ++ closeBucket s.opened s.bucket, windowLoss s.totals)

/-- `ping_records`. -/
def pingRecords (db : Store) (n since step : Int) :
    Except Failure (List PingPoint × (Int → Option Rat)) := do
  let hourly := decide (∃ r ∈ db.pingHour.rows, r.nodeId = n ∧ r.ts ≥ since)
  let step ← historyStep hourly step
  pure (readRows (pingRows db n since step))

/-! ## What the means depend on -/

/-- What one row of the history contributes to each sum. -/
def weight (r : Sample) : Column → Rat
  | .samples => r.samples
  | .cpu => r.cpuSum
  | .mem => r.memSum
  | .disk => r.diskSum
  | .rx => r.rxSum
  | .tx => r.txSum
  | .gaugeSum g => ((r.gaugeSum g).getD 0 : Int)
  | .gaugeSamples g => r.gaugeSamples g

/-- Every sum over one bucket. -/
def total (group : Multiset Sample) : Column → Rat := (group.map weight).sum

/-- Where there are samples there is a sum. -/
def Counted (r : Sample) : Prop := ∀ g, r.gaugeSamples g ≠ 0 → r.gaugeSum g ≠ none

/-- A minute contributes what the roll-up counts of it. -/
theorem weight_minuteSample (r : MetricRow) : weight (minuteSample r) = minuteWeight r := by
  funext c
  cases c with
  | gaugeSamples g =>
    simp only [weight, minuteSample, minuteWeight]
    cases r.gauge g with
    | none => rfl
    | some v => rfl
  | _ => rfl

/-- An hour contributes its sums. -/
theorem weight_hourSample (r : MetricHourRow) : weight (hourSample r) = hourWeight r := by
  funext c
  cases c <;> rfl

/-- A minute that told a gauge has its value. -/
theorem counted_minuteSample (r : MetricRow) : Counted (minuteSample r) := by
  intro g hcount hnone
  have hgauge : r.gauge g = none := hnone
  simp only [minuteSample, if_pos hgauge, ne_eq, not_true_eq_false] at hcount

/-- A sum over a bucket, column by column. -/
theorem total_apply (group : Multiset Sample) (c : Column) :
    total group c = (group.map fun r => weight r c).sum := by
  rw [total, Pi.multiset_sum_apply, Multiset.map_map]
  rfl

/-- An integer sum is the sum of what its rows contribute. -/
theorem cast_sum (group : Multiset Sample) (f : Sample → Int) :
    ((group.map f).sum : Rat) = (group.map fun r => (f r : Rat)).sum := by
  have h := map_multiset_sum (Int.castAddHom Rat) (group.map f)
  rw [Multiset.map_map] at h
  exact h

/-- SUM leaves the nulls out. -/
theorem sum_present (values : Multiset (Option Int)) :
    (values.filterMap id).sum = (values.map fun v => v.getD 0).sum := by
  induction values using Multiset.induction_on with
  | empty => rfl
  | cons v rest ih =>
    cases v with
    | none =>
      rw [Multiset.filterMap_cons_none _ _ rfl, ih, Multiset.map_cons, Multiset.sum_cons,
        Option.getD_none, zero_add]
    | some x =>
      rw [Multiset.filterMap_cons_some id (some x) rest rfl, Multiset.sum_cons, ih,
        Multiset.map_cons, Multiset.sum_cons, Option.getD_some]

/-- The mean of a gauge is the quotient of its sums, and null without samples. -/
theorem gaugeMean_eq {group : Multiset Sample} (h : ∀ r ∈ group, Counted r) (g : Gauge) :
    gaugeMean group g = if total group (.gaugeSamples g) = 0 then none
      else some (total group (.gaugeSum g) / total group (.gaugeSamples g)) := by
  have hcount : (((group.map fun r => r.gaugeSamples g).sum : Int) : Rat) =
      total group (.gaugeSamples g) := by
    rw [cast_sum, total_apply]
    rfl
  have hzero : (group.map fun r => r.gaugeSamples g).sum = 0 ↔
      total group (.gaugeSamples g) = 0 := by
    rw [← hcount, Int.cast_eq_zero]
  unfold gaugeMean
  by_cases hnone : (group.map fun r => r.gaugeSamples g).sum = 0
  · rw [if_pos hnone, if_pos (hzero.mp hnone)]
  · rw [if_neg hnone, if_neg (mt hzero.mpr hnone)]
    have hpresent : (group.map fun r => r.gaugeSum g).filterMap id ≠ 0 := by
      -- Without a value anywhere there would be no sample either.
      intro hempty
      refine hnone ?_
      refine Multiset.sum_eq_zero ?_
      intro x hx
      obtain ⟨r, hr, rfl⟩ := Multiset.mem_map.mp hx
      by_contra hsamples
      obtain ⟨v, hv⟩ := Option.ne_none_iff_exists'.mp (h r hr g hsamples)
      have hin : v ∈ (group.map fun r => r.gaugeSum g).filterMap id :=
        (Multiset.mem_filterMap id _).mpr ⟨some v, Multiset.mem_map.mpr ⟨r, hr, hv⟩, rfl⟩
      rw [hempty] at hin
      exact absurd hin (Multiset.notMem_zero v)
    have hsum : sumOption (group.map fun r => r.gaugeSum g) =
        some ((group.map fun r => (r.gaugeSum g).getD 0).sum) := by
      unfold sumOption
      rw [if_neg hpresent, sum_present, Multiset.map_map]
      rfl
    rw [hsum, Option.map_some, hcount, cast_sum, total_apply group (.gaugeSum g)]
    rfl

/-- A bucket begins where its rows are divided to. -/
theorem bucket_start {group : Multiset Sample} {step b : Int} (hne : group ≠ 0)
    (hb : ∀ r ∈ group, idiv r.ts step = b) :
    idiv ((group.map Sample.ts).toFinset.min.untopD 0) step = b := by
  obtain ⟨r, hr⟩ := Multiset.exists_mem_of_ne_zero hne
  have hin : r.ts ∈ (group.map Sample.ts).toFinset :=
    Multiset.mem_toFinset.mpr (Multiset.mem_map_of_mem Sample.ts hr)
  obtain ⟨least, hleast⟩ := Finset.min_of_mem hin
  obtain ⟨x, hx, hts⟩ := Multiset.mem_map.mp (Multiset.mem_toFinset.mp (Finset.mem_of_min hleast))
  rw [hleast, WithTop.untopD_coe, ← hts]
  exact hb x hx

/-- Two groups of one bucket with the same sums have the same means. -/
theorem meansOf_congr {group group' : Multiset Sample} {step b : Int} (hne : group ≠ 0)
    (hne' : group' ≠ 0) (hb : ∀ r ∈ group, idiv r.ts step = b)
    (hb' : ∀ r ∈ group', idiv r.ts step = b) (hcounted : ∀ r ∈ group, Counted r)
    (hcounted' : ∀ r ∈ group', Counted r) (htotal : total group = total group') :
    meansOf step group = meansOf step group' := by
  have hcast : ∀ (f : Sample → Int) (c : Column), (∀ r, weight r c = f r) →
      ((group.map f).sum : Rat) = (group'.map f).sum := by
    intro f c hf
    have happly := congrFun htotal c
    rw [total_apply, total_apply] at happly
    simp only [hf] at happly
    rw [cast_sum, cast_sum]
    exact happly
  have hcpu : (group.map Sample.cpuSum).sum = (group'.map Sample.cpuSum).sum := by
    have happly := congrFun htotal .cpu
    rw [total_apply, total_apply] at happly
    exact happly
  have hgauge : gaugeMean group = gaugeMean group' := by
    funext g
    rw [gaugeMean_eq hcounted, gaugeMean_eq hcounted', htotal]
  unfold meansOf
  rw [bucket_start hne hb, bucket_start hne' hb', hcpu, hgauge,
    hcast Sample.samples .samples fun _ => rfl, hcast Sample.memSum .mem fun _ => rfl,
    hcast Sample.diskSum .disk fun _ => rfl, hcast Sample.rxSum .rx fun _ => rfl,
    hcast Sample.txSum .tx fun _ => rfl]

/-- Two histories with the same buckets and the same sums in each give the same means. -/
theorem means_congr {history history' : Multiset Sample} {step : Int}
    (hcounted : ∀ r ∈ history, Counted r) (hcounted' : ∀ r ∈ history', Counted r)
    (hbuckets : bucketsOf history step = bucketsOf history' step)
    (htotal : ∀ b, total (bucketOf history step b) = total (bucketOf history' step b)) :
    (ascending (bucketsOf history step)).map (fun b => meansOf step (bucketOf history step b)) =
      (ascending (bucketsOf history' step)).map fun b => meansOf step (bucketOf history' step b) := by
  have hne : ∀ {h : Multiset Sample} {b : Int}, b ∈ bucketsOf h step → bucketOf h step b ≠ 0 := by
    intro h b hb hempty
    obtain ⟨r, hr, hkey⟩ := Multiset.mem_map.mp (Multiset.mem_toFinset.mp hb)
    have hin : r ∈ bucketOf h step b := Multiset.mem_filter.mpr ⟨hr, hkey⟩
    rw [hempty] at hin
    exact absurd hin (Multiset.notMem_zero r)
  rw [← hbuckets]
  refine List.map_congr_left ?_
  intro b hb
  have hb : b ∈ bucketsOf history step := mem_ascending.mp hb
  have hb' : b ∈ bucketsOf history' step := by rwa [← hbuckets]
  exact meansOf_congr (hne hb) (hne hb') (fun r hr => (Multiset.mem_filter.mp hr).2)
    (fun r hr => (Multiset.mem_filter.mp hr).2)
    (fun r hr => hcounted r (Multiset.mem_filter.mp hr).1)
    (fun r hr => hcounted' r (Multiset.mem_filter.mp hr).1) (htotal b)

end Romi.HistoryQueries
