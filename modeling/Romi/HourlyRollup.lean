import Mathlib.Algebra.BigOperators.Pi
import Mathlib.Algebra.BigOperators.Ring.Finset
import Mathlib.Algebra.Field.Rat
import Mathlib.Algebra.Order.BigOperators.Group.Finset
import Mathlib.Algebra.Order.Ring.Int
import Romi.GroupedRows
import Romi.StoreSchema

/-!
# Folding raw history into hourly rows

`rollMetrics` and `rollPings` are the two upserts of pruning. An hour keeps,
for every column the charts divide, the sum and the number of samples behind
it, and for probes the exact histogram of latencies. A column's weight is what
one row contributes to that sum; merging hours and forming an hour out of
minutes both add weights.
-/

namespace Romi.HourlyRollup

open Finset GroupedRows KeyedTable StoreSchema

/-- Integer division of the engine truncates towards zero. -/
def idiv (a b : Int) : Int := a.tdiv b

/-- `ts//3600*3600`. -/
def hourStart (ts : Int) : Int := idiv ts 3600 * 3600

/-- SUM over a nullable column: null when every value is. -/
def sqlSum (group : Finset MetricRow) (f : MetricRow → Option Int) : Option Int :=
  if ∃ r ∈ group, (f r).isSome = true then some (∑ r ∈ group, (f r).getD 0) else none

/-- COUNT over a nullable column. -/
def sqlCount (group : Finset MetricRow) (f : MetricRow → Option Int) : Int :=
  ∑ r ∈ group, if (f r).isSome = true then 1 else 0

/-- The aggregate row of one group of minutes. -/
def metricHourOf (k : Int × Int) (group : Finset MetricRow) (h : group.Nonempty) :
    MetricHourRow where
  nodeId := k.1
  ts := k.2
  samples := ∑ _r ∈ group, 1
  cpuSum := ∑ r ∈ group, r.cpu
  memSum := ∑ r ∈ group, r.memUsed
  diskSum := ∑ r ∈ group, r.diskUsed
  rxSum := ∑ r ∈ group, r.netRx
  txSum := ∑ r ∈ group, r.netTx
  gaugeSum g := sqlSum group fun r => r.gauge g
  gaugeSamples g := sqlCount group fun r => r.gauge g
  samples_pos := sum_pos (fun _ _ => by decide) h

/-- The conflict clause of the metric rollup. -/
def mergeMetricHour (old new : MetricHourRow) : MetricHourRow where
  nodeId := old.nodeId
  ts := old.ts
  samples := old.samples + new.samples
  cpuSum := old.cpuSum + new.cpuSum
  memSum := old.memSum + new.memSum
  diskSum := old.diskSum + new.diskSum
  rxSum := old.rxSum + new.rxSum
  txSum := old.txSum + new.txSum
  gaugeSum g := some ((old.gaugeSum g).getD 0 + (new.gaugeSum g).getD 0)
  gaugeSamples g := old.gaugeSamples g + new.gaugeSamples g
  samples_pos := add_pos old.samples_pos new.samples_pos

/-- The hourly key a minute falls under. -/
def metricHourKey (r : MetricRow) : Int × Int := (r.nodeId, hourStart r.ts)

/-- The hour of a group is filed under its key. -/
theorem metricHourOf_key (k : Int × Int) (group : Finset MetricRow) (h : group.Nonempty) :
    (metricHourOf k group h).key = k := rfl

/-- Merging keeps the key. -/
theorem mergeMetricHour_key (old new : MetricHourRow) : (mergeMetricHour old new).key = old.key := rfl

/-- The SELECT of the metric rollup. Grouping by the hour's number and by its
start is the same. -/
def hourlyMetrics (cutoff oldest : Int) (db : Store) : Table MetricHourRow.key :=
  groupBy (db.metric.rows.filter fun r => r.ts < cutoff ∧ r.ts ≥ oldest) metricHourKey
    metricHourOf metricHourOf_key

/-- `ROLL_METRICS_SQL`. -/
def rollMetrics (cutoff oldest : Int) (db : Store) : Store :=
  { db with
    metricHour := db.metricHour.mergeAll (hourlyMetrics cutoff oldest db)
      mergeMetricHour mergeMetricHour_key }

/-- The aggregate row of one latency of one probe in one hour. -/
def pingHourOf (k : Int × Int × Int × Int) (group : Finset PingRecordRow) (h : group.Nonempty) :
    PingHourRow where
  nodeId := k.1
  ts := k.2.1
  taskId := k.2.2.1
  latency := k.2.2.2
  samples := ∑ _r ∈ group, 1
  samples_pos := sum_pos (fun _ _ => by decide) h

/-- The conflict clause of the probe rollup. -/
def mergePingHour (old new : PingHourRow) : PingHourRow :=
  { old with
    samples := old.samples + new.samples
    samples_pos := add_pos old.samples_pos new.samples_pos }

/-- The hourly key a probe result falls under. -/
def pingHourKey (r : PingRecordRow) : Int × Int × Int × Int :=
  (r.nodeId, hourStart r.ts, r.taskId, r.latency)

/-- The same for probes. -/
theorem pingHourOf_key (k : Int × Int × Int × Int) (group : Finset PingRecordRow)
    (h : group.Nonempty) : (pingHourOf k group h).key = k := rfl

/-- Merging keeps it too. -/
theorem mergePingHour_key (old new : PingHourRow) : (mergePingHour old new).key = old.key := rfl

/-- The SELECT of the probe rollup. -/
def hourlyPings (cutoff oldest : Int) (db : Store) : Table PingHourRow.key :=
  groupBy (db.pingRecord.rows.filter fun r => r.ts < cutoff ∧ r.ts ≥ oldest) pingHourKey
    pingHourOf pingHourOf_key

/-- `ROLL_PINGS_SQL`. -/
def rollPings (cutoff oldest : Int) (db : Store) : Store :=
  { db with
    pingHour := db.pingHour.mergeAll (hourlyPings cutoff oldest db)
      mergePingHour mergePingHour_key }

/-! ## Weights -/

/-- What an hourly row sums up. -/
inductive Column
  | samples | cpu | mem | disk | rx | tx
  /-- The sum of a gauge. -/
  | gaugeSum (g : Gauge)
  /-- How many samples it has. -/
  | gaugeSamples (g : Gauge)
  deriving DecidableEq

/-- What one minute contributes to each sum. -/
def minuteWeight (r : MetricRow) : Column → Rat
  | .samples => 1
  | .cpu => r.cpu
  | .mem => r.memUsed
  | .disk => r.diskUsed
  | .rx => r.netRx
  | .tx => r.netTx
  | .gaugeSum g => ((r.gauge g).getD 0 : Int)
  | .gaugeSamples g => if (r.gauge g).isSome = true then 1 else 0

/-- What one hour contributes to each sum. -/
def hourWeight (r : MetricHourRow) : Column → Rat
  | .samples => r.samples
  | .cpu => r.cpuSum
  | .mem => r.memSum
  | .disk => r.diskSum
  | .rx => r.rxSum
  | .tx => r.txSum
  | .gaugeSum g => ((r.gaugeSum g).getD 0 : Int)
  | .gaugeSamples g => r.gaugeSamples g

/-- A sum in SQL passes over what is missing. -/
theorem sqlSum_getD (group : Finset MetricRow) (f : MetricRow → Option Int) :
    (sqlSum group f).getD 0 = ∑ r ∈ group, (f r).getD 0 := by
  unfold sqlSum
  split
  · rfl
  · rename_i h
    have hzero : ∀ r ∈ group, (f r).getD 0 = 0 := by
      intro r hr
      cases hf : f r with
      | none => rfl
      | some v => exact absurd ⟨r, hr, by rw [hf]; rfl⟩ h
    rw [sum_eq_zero hzero]
    rfl

/-- An hour formed out of minutes weighs what they weigh together. -/
theorem metricHourOf_weight (k : Int × Int) (group : Finset MetricRow) (h : group.Nonempty) :
    hourWeight (metricHourOf k group h) = ∑ r ∈ group, minuteWeight r := by
  funext c
  rw [Finset.sum_apply]
  cases c with
  | gaugeSum g =>
    simp only [hourWeight, metricHourOf, minuteWeight, sqlSum_getD, Int.cast_sum]
  | gaugeSamples g =>
    simp only [hourWeight, metricHourOf, minuteWeight, sqlCount, Int.cast_sum,
      Int.cast_ite, Int.cast_one, Int.cast_zero]
  | _ =>
    simp only [hourWeight, metricHourOf, minuteWeight, Int.cast_sum, Int.cast_one]

/-- Merging two hours adds their weights. -/
theorem merge_weight (old new : MetricHourRow) :
    hourWeight (mergeMetricHour old new) =
      hourWeight old + hourWeight new := by
  funext c
  rw [Pi.add_apply]
  cases c with
  | gaugeSum g =>
    simp only [hourWeight, mergeMetricHour, Option.getD_some, Int.cast_add]
  | _ => simp only [hourWeight, mergeMetricHour, Int.cast_add]

/-- Rolling up adds to every hourly sum what the selected minutes weigh. -/
theorem rollMetrics_sum (cutoff oldest : Int) (db : Store) (p : Int × Int → Prop)
    [DecidablePred p] :
    (rollMetrics cutoff oldest db).metricHour.sumWhere p hourWeight =
      db.metricHour.sumWhere p hourWeight +
        ∑ r ∈ (db.metric.rows.filter fun r => r.ts < cutoff ∧ r.ts ≥ oldest).filter
          (fun r => p (metricHourKey r)), minuteWeight r := by
  have hmerge := Table.sumWhere_mergeAll db.metricHour (hourlyMetrics cutoff oldest db)
    mergeMetricHour mergeMetricHour_key p hourWeight fun r _ s _ _ => merge_weight r s
  have hgroup : (hourlyMetrics cutoff oldest db).sumWhere p hourWeight = _ :=
    sumWhere_groupBy p minuteWeight hourWeight metricHourOf_weight
  rw [← hgroup]
  exact hmerge

/-- Rolling up probes adds the number of selected results to every count. -/
theorem rollPings_sum (cutoff oldest : Int) (db : Store) (p : Int × Int × Int × Int → Prop)
    [DecidablePred p] :
    (rollPings cutoff oldest db).pingHour.sumWhere p PingHourRow.samples =
      db.pingHour.sumWhere p PingHourRow.samples +
        ∑ _r ∈ (db.pingRecord.rows.filter fun r => r.ts < cutoff ∧ r.ts ≥ oldest).filter
          (fun r => p (pingHourKey r)), (1 : Int) := by
  have hmerge := Table.sumWhere_mergeAll db.pingHour (hourlyPings cutoff oldest db)
    mergePingHour mergePingHour_key p PingHourRow.samples fun _ _ _ _ _ => rfl
  have hgroup : (hourlyPings cutoff oldest db).sumWhere p PingHourRow.samples = _ :=
    sumWhere_groupBy p (fun _ => (1 : Int)) PingHourRow.samples fun _ _ _ => rfl
  rw [← hgroup]
  exact hmerge

/-- The hours that exist after a rollup: those there were and those of the
selected minutes. -/
theorem has_rollMetrics {cutoff oldest : Int} {db : Store} {k : Int × Int} :
    (rollMetrics cutoff oldest db).metricHour.Has k ↔
      db.metricHour.Has k ∨ ∃ r ∈ db.metric.rows, (r.ts < cutoff ∧ r.ts ≥ oldest) ∧
        metricHourKey r = k := by
  have hmerge : (rollMetrics cutoff oldest db).metricHour.Has k ↔
      db.metricHour.Has k ∨ (hourlyMetrics cutoff oldest db).Has k :=
    Table.has_mergeAll mergeMetricHour_key
  have hgroup : (hourlyMetrics cutoff oldest db).Has k ↔
      ∃ r ∈ db.metric.rows.filter (fun r => r.ts < cutoff ∧ r.ts ≥ oldest), metricHourKey r = k :=
    has_groupBy
  refine hmerge.trans (or_congr Iff.rfl (hgroup.trans ?_))
  simp only [mem_filter, and_assoc]

/-- The hours of probes there are after folding. -/
theorem has_rollPings {cutoff oldest : Int} {db : Store} {k : Int × Int × Int × Int} :
    (rollPings cutoff oldest db).pingHour.Has k ↔
      db.pingHour.Has k ∨ ∃ r ∈ db.pingRecord.rows, (r.ts < cutoff ∧ r.ts ≥ oldest) ∧
        pingHourKey r = k := by
  have hmerge : (rollPings cutoff oldest db).pingHour.Has k ↔
      db.pingHour.Has k ∨ (hourlyPings cutoff oldest db).Has k :=
    Table.has_mergeAll mergePingHour_key
  have hgroup : (hourlyPings cutoff oldest db).Has k ↔
      ∃ r ∈ db.pingRecord.rows.filter (fun r => r.ts < cutoff ∧ r.ts ≥ oldest), pingHourKey r = k :=
    has_groupBy
  refine hmerge.trans (or_congr Iff.rfl (hgroup.trans ?_))
  simp only [mem_filter, and_assoc]

end Romi.HourlyRollup
