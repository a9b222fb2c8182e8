import Mathlib.Algebra.Order.BigOperators.Group.List
import Mathlib.Tactic.Linarith
import Mathlib.Tactic.Tauto
import Romi.ReportGuarantees

/-!
# Means and rates of a row

The sums kept for the minute in progress are those of the reports folded into
it, and the row they are written into holds, under each averaged field that its
last report contains, the mean of the readings there were, as doubles have it.
The rates are whole bytes a second: no smaller number covers the bytes of the
interval.
-/

namespace Romi.MinuteMeans

open DoublePrecision JsonObjects JsonValue LiveReports ReportGuarantees StoreJobs StoreSchema
  TrafficFold

/-! ## Readings -/

/-- The averaged fields. -/
def averaged : List String := meanFloat ++ meanInt

/-- The readings of a field in these reports. -/
def carried (key : String) (reports : List Members) : List Rat :=
  reports.filterMap fun m => (m.get key).bind Json.asFloat

/-- Their mean in double precision: added up one by one and divided by their number. -/
def meanOf (key : String) (reports : List Members) : Double :=
  mean ((carried key reports).map .finite)

/-- The sums over these reports, the newest first. -/
def gathered (reports : List Members) : Minute :=
  reports.foldr (fun m minute => minute.add m) .empty

/-- A report that has the reading. -/
theorem carried_cons_some {key : String} {m : Members} {q : Rat}
    (h : (m.get key).bind Json.asFloat = some q) (reports : List Members) :
    carried key (m :: reports) = q :: carried key reports := List.filterMap_cons_some h

/-- One that has not. -/
theorem carried_cons_none {key : String} {m : Members}
    (h : (m.get key).bind Json.asFloat = none) (reports : List Members) :
    carried key (m :: reports) = carried key reports := List.filterMap_cons_none h

/-- One more report. -/
theorem gathered_cons (m : Members) (reports : List Members) :
    gathered (m :: reports) = (gathered reports).add m := rfl

/-- The reports are counted. -/
@[simp] theorem gathered_reports (reports : List Members) :
    (gathered reports).reports = tally reports.length := by
  induction reports with
  | nil => rfl
  | cons m reports ih => rw [gathered_cons, Minute.add, ih, List.length_cons, tally]

/-- A slot counts the readings of its field. -/
@[simp] theorem gathered_counts (key : String) (reports : List Members) :
    (gathered reports).counts key = tally (carried key reports).length := by
  induction reports with
  | nil => rfl
  | cons m reports ih =>
    rw [gathered_cons, Minute.add]
    dsimp only
    rw [ih]
    cases h : (m.get key).bind Json.asFloat with
    | none => rw [carried_cons_none h]
    | some q => rw [carried_cons_some h, List.length_cons, tally]

/-- And sums them. -/
@[simp] theorem gathered_sums (key : String) (reports : List Members) :
    (gathered reports).sums key = total ((carried key reports).map .finite) := by
  induction reports with
  | nil => rfl
  | cons m reports ih =>
    rw [gathered_cons, Minute.add]
    dsimp only
    rw [ih]
    cases h : (m.get key).bind Json.asFloat with
    | none => rw [carried_cons_none h]
    | some q => rw [carried_cons_some h, List.map_cons, total]

/-! ## What a row holds under a key -/

/-- Each key is set at most once, and only where it is there already. -/
theorem get_foldl {minute : Minute} {key : String} (keys : List String) (hkeys : keys.Nodup)
    (row : Members) :
    (keys.foldl (fun row k => if (row.get k).isNone ∨ minute.counts k = .finite 0 then row
      else row.insert k (minute.mean k)) row).get key =
      if key ∈ keys ∧ (row.get key).isSome = true ∧ minute.counts key ≠ .finite 0 then
        some (minute.mean key) else row.get key := by
  induction keys generalizing row with
  | nil => rw [List.foldl_nil, if_neg (by simp)]
  | cons k keys ih =>
    rw [List.nodup_cons] at hkeys
    obtain ⟨hk, hkeys⟩ := hkeys
    rw [List.foldl_cons, ih hkeys]
    by_cases hskip : (row.get k).isNone ∨ minute.counts k = .finite 0
    · rw [if_pos hskip]
      by_cases hkey : key = k
      · subst hkey
        rw [if_neg (by tauto), if_neg]
        rintro ⟨-, hsome, hcount⟩
        rcases hskip with hnone | hzero
        · rw [Option.isNone_iff_eq_none.mp hnone] at hsome
          cases hsome
        · exact hcount hzero
      · simp only [List.mem_cons, hkey, false_or]
    · rw [if_neg hskip, Members.get_insert]
      by_cases hkey : key = k
      · subst hkey
        rw [if_neg (by tauto), if_pos rfl, if_pos]
        refine ⟨List.mem_cons_self, ?_, fun hzero => hskip (.inr hzero)⟩
        cases hget : row.get key with
        | none => exact absurd (.inl (by rw [hget]; rfl)) hskip
        | some v => rfl
      · simp only [List.mem_cons, hkey, false_or, if_false]

/-- The fields that are averaged over the minute. -/
theorem writeInto_get (minute : Minute) (row : Members) (key : String) :
    (minute.writeInto row).get key =
      if minute.reports ≠ .finite 0 ∧ key ∈ averaged ∧ (row.get key).isSome = true ∧
        minute.counts key ≠ .finite 0 then some (minute.mean key) else row.get key := by
  unfold Minute.writeInto
  by_cases hreports : minute.reports = .finite 0
  · rw [if_pos hreports, if_neg fun h => h.1 hreports]
  · rw [if_neg hreports]
    refine (@get_foldl minute key averaged (by decide) row).trans ?_
    simp only [ne_eq, hreports, not_false_eq_true, true_and]

/-- Where its last report has the field, a row holds the mean of the readings
of its reports. -/
theorem writeInto_mean {m : Members} {reports : List Members} {key : String}
    (hkey : key ∈ averaged) (hhas : m.get key ≠ none)
    (hcarried : carried key (m :: reports) ≠ []) :
    ((gathered (m :: reports)).writeInto m).get key =
      some (if meanFloat.contains key then .ofDouble (meanOf key (m :: reports))
        else .int (rounded (meanOf key (m :: reports)))) := by
  rw [writeInto_get, if_pos]
  · rw [Minute.mean, gathered_sums, gathered_counts, meanOf, mean, List.length_map]
  · refine ⟨?_, hkey, Option.isSome_iff_ne_none.mpr hhas, ?_⟩
    · rw [gathered_reports, ne_eq, tally_eq_zero]
      exact Nat.succ_ne_zero _
    · rw [gathered_counts, ne_eq, tally_eq_zero]
      exact fun h => hcarried (List.length_eq_zero_iff.mp h)

/-- Where it has not, neither has the row. -/
theorem writeInto_absent {row : Members} {minute : Minute} {key : String}
    (h : row.get key = none) : (minute.writeInto row).get key = none := by
  rw [writeInto_get, h, if_neg]
  rintro ⟨-, -, hsome, -⟩
  cases hsome

/-- The whole seconds since a mark, one at least. -/
def elapsedSince (mark : Nat × Int × Int) (time : Moment) : Int :=
  max ((time.tick - mark.1) / 1000000000 : Nat) 1

/-- A rate in whole units a second, rounded down. -/
def RateOf (rate elapsed bytes : Int) : Prop :=
  rate * elapsed ≤ bytes ∧ bytes < (rate + 1) * elapsed

/-- A quotient of bytes and time is the rate. -/
theorem tdiv_rate {bytes elapsed : Int} (hbytes : 0 ≤ bytes) (helapsed : 0 < elapsed) :
    RateOf (bytes.tdiv elapsed) elapsed bytes := by
  rw [Int.tdiv_eq_ediv_of_nonneg hbytes]
  exact ⟨Int.ediv_mul_le bytes helapsed.ne', Int.lt_ediv_add_one_mul_self bytes helapsed⟩

/-- Some time has always gone by. -/
theorem elapsedSince_pos (mark : Nat × Int × Int) (time : Moment) : 0 < elapsedSince mark time := by
  unfold elapsedSince
  omega

/-- The rates change no other field. -/
theorem withRates_get {time : Moment} {t : Traffic} {mark : Option (Nat × Int × Int)} {row : Members}
    {key : String} (hrx : key ≠ "net_rx") (htx : key ≠ "net_tx") :
    (withRates time t mark row).get key = row.get key := by
  unfold withRates
  cases mark with
  | none => rfl
  | some mark =>
    dsimp only
    rw [Members.get_insert, if_neg htx, Members.get_insert, if_neg hrx]

/-- The rates are those since the mark. -/
theorem withRates_net (time : Moment) (t : Traffic) (mark : Nat × Int × Int) (row : Members) :
    (withRates time t (some mark) row).get "net_rx" =
        some (.int ((max (t.totalRx - mark.2.1) 0).tdiv (elapsedSince mark time))) ∧
      (withRates time t (some mark) row).get "net_tx" =
        some (.int ((max (t.totalTx - mark.2.2) 0).tdiv (elapsedSince mark time))) := by
  unfold withRates
  dsimp only
  constructor
  · rw [Members.get_insert, if_neg (by decide), Members.get_insert, if_pos rfl]
    rfl
  · rw [Members.get_insert, if_pos rfl]
    rfl

/-! ## Columns -/

/-- The columns of the whole-number averages. -/
def columns : List (String × (MetricRow → Option Int)) :=
  [("mem_used", fun r => some r.memUsed), ("swap_used", fun r => some r.swapUsed),
    ("disk_used", fun r => some r.diskUsed), ("tcp", fun r => some r.tcp),
    ("udp", fun r => some r.udp), ("procs", fun r => some r.procs),
    ("zram_used", MetricRow.zramUsed), ("swap_disk_used", MetricRow.swapDiskUsed),
    ("swapfile_used", MetricRow.swapfileUsed),
    ("swap_partition_used", MetricRow.swapPartitionUsed)]

/-- The columns that are averaged. -/
theorem columns_averaged : columns.map Prod.fst = meanInt := rfl

/-- A number within range is itself. -/
theorem asInt_int {n : Int} (hlow : i64Min ≤ n) (hhigh : n ≤ i64Max) :
    (Json.int n).asInt = some n := if_pos ⟨hlow, hhigh⟩

/-- A number that is not negative reaches its column. -/
theorem column_int {node ts n : Int} {m : Json} {c : String × (MetricRow → Option Int)}
    (hc : c ∈ columns) (hn : 0 ≤ n) (hhigh : n ≤ i64Max) (hget : m.get c.1 = some (.int n)) :
    c.2 (metricRowOf node ts m) = some n := by
  have hint : (m.get c.1).bind Json.asInt = some n := by
    rw [hget, Option.bind_some]
    refine asInt_int ?_ hhigh
    unfold i64Min
    omega
  have hnumber : factNumber m c.1 = n := by
    unfold factNumber
    rw [hint, Option.getD_some]
  have hoptional : optionalField m c.1 = some n := by
    unfold optionalField
    rw [hint, Option.filter_some, if_pos (decide_eq_true hn)]
  simp only [columns, List.mem_cons, List.not_mem_nil, or_false] at hc
  rcases hc with rfl | rfl | rfl | rfl | rfl | rfl | rfl | rfl | rfl | rfl
  · exact congrArg some hnumber
  · exact congrArg some hnumber
  · exact congrArg some hnumber
  · exact congrArg some hnumber
  · exact congrArg some hnumber
  · exact congrArg some hnumber
  · exact hoptional
  · exact hoptional
  · exact hoptional
  · exact hoptional

/-! ## Rounding -/

/-- What is rounded is within range. -/
theorem rounded_range (v : Double) : i64Min ≤ rounded v ∧ rounded v ≤ i64Max := by
  cases v with
  | nan => decide
  | infinite negative => cases negative <;> decide
  | finite q =>
    unfold rounded i64Min i64Max
    dsimp only
    omega

/-- Rounding down does not go below zero. -/
theorem floor_nonneg {q : Rat} (h : 0 ≤ q) : 0 ≤ q.floor := Rat.le_floor_iff.mpr (by exact_mod_cast h)

/-- Nor does rounding. -/
theorem rounded_nonneg {v : Double} (h : v.NonNeg) : 0 ≤ rounded v := by
  cases v with
  | nan => exact h.elim
  | infinite negative =>
    obtain rfl : negative = false := h
    decide
  | finite q =>
    have hq : 0 ≤ q := h
    have hfloor : 0 ≤ (q + 1 / 2).floor := floor_nonneg (by linarith)
    unfold rounded i64Min i64Max
    dsimp only
    rw [if_pos hq]
    omega

/-- Within the range of an integer column a mean is rounded to the nearest. -/
theorem rounded_nearest {q : Rat} (h : 0 ≤ q) (hrange : q ≤ i64Max) :
    (rounded (.finite q) : Rat) - 1 / 2 ≤ q ∧ q < rounded (.finite q) + 1 / 2 := by
  have hfloor : 0 ≤ (q + 1 / 2).floor := floor_nonneg (by linarith)
  have hle : ((q + 1 / 2).floor : Rat) ≤ q + 1 / 2 := Rat.floor_le _
  have hlt : q + 1 / 2 < (q + 1 / 2).floor + 1 := by exact_mod_cast Rat.lt_floor_add_one (q + 1 / 2)
  have hmax : (q + 1 / 2).floor < i64Max + 1 := by
    rw [Rat.floor_lt_iff]
    push_cast
    linarith
  have hvalue : rounded (.finite q) = (q + 1 / 2).floor := by
    unfold rounded i64Min
    dsimp only
    rw [if_pos h]
    omega
  rw [hvalue]
  constructor <;> linarith

/-- A mean of readings that are not negative is not negative. -/
theorem meanOf_nonneg {key : String} {reports : List Members} (hsome : carried key reports ≠ [])
    (h : ∀ q ∈ carried key reports, 0 ≤ q) : (meanOf key reports).NonNeg := by
  refine mean_nonneg (fun hnil => hsome (List.map_eq_nil_iff.mp hnil)) ?_
  intro v hv
  obtain ⟨q, hq, rfl⟩ := List.mem_map.mp hv
  exact h q hq

/-- Where the readings are whole numbers that add up to 2 to the 53rd at most, the mean
is the double nearest to the exact one. -/
theorem meanOf_nat {key : String} {reports : List Members} {readings : List Nat}
    (hcarried : carried key reports = readings.map fun n : Nat => (n : Rat)) (hsome : readings ≠ [])
    (hcount : readings.length ≤ 2 ^ 53) (hsum : readings.sum ≤ 2 ^ 53) :
    meanOf key reports = ofRat (readings.sum / readings.length) := by
  rw [meanOf, hcarried, List.map_map]
  exact mean_nat hsome hcount hsum

end Romi.MinuteMeans
