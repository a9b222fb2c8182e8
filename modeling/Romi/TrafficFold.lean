import Romi.CachedTransactions
import Romi.CivilDate
import Romi.JsonValue
import Romi.SaturatingSum
import Romi.StoreSchema

/-!
# One report's counters folded into a node's totals

`foldRow` is the arithmetic of `accumulate_on`, `accumulateOn` the statement
around it. A lane is one direction of a traffic row with everything its own
fold reads; the row's fold is the two lanes' folds side by side, so whatever
holds of a lane holds of both directions and neither can see the other.
-/

namespace Romi.TrafficFold

open CachedTransactions CivilDate JsonValue KeyedTable SaturatingSum StoreSchema

/-- `i64::saturating_add`. -/
def saturatingAdd (a b : Int) : Int := max i64Min (min i64Max (a + b))

/-- `i64::saturating_sub`. -/
def saturatingSub (a b : Int) : Int := max i64Min (min i64Max (a - b))

/-- A value a BIGINT column holds when it is not negative. -/
def Counted (n : Int) : Prop := 0 ≤ n ∧ n ≤ i64Max

instance (n : Int) : Decidable (Counted n) := inferInstanceAs (Decidable (_ ∧ _))

/-- Saturating addition of two counts only meets the upper end. -/
theorem saturatingAdd_eq_capAdd {a b : Int} (ha : 0 ≤ a) (hb : 0 ≤ b) :
    saturatingAdd a b = capAdd i64Max a b := by
  have hlow : i64Min ≤ min i64Max (a + b) := le_min (by decide) (by unfold i64Min; omega)
  rw [saturatingAdd, max_eq_right hlow]
  rfl

/-- Saturating subtraction of two counts never saturates. -/
theorem saturatingSub_eq {a b : Int} (ha : Counted a) (hb : Counted b) :
    saturatingSub a b = a - b := by
  obtain ⟨ha0, ha1⟩ := ha
  obtain ⟨hb0, hb1⟩ := hb
  unfold saturatingSub i64Min i64Max at *
  omega

/-- The local dates one call reads: the clock is read once for the billing
period and once more for the day. -/
structure Clock where
  /-- Read for the period. -/
  period : NaiveDate
  /-- Read for the day. -/
  day : NaiveDate
  /-- A system clock stays clear of the ends of the date library's range. -/
  interior : Interior period

/-- Noon of some day in June. -/
def Clock.june (day : Nat) (h : 1 ≤ day ∧ day ≤ 30) : Clock :=
  let d : NaiveDate := ⟨2025, 6, day, by decide, by decide, h⟩
  ⟨d, d, show minYear < 2025 by decide, show 2025 < maxYear by decide⟩

/-- The first is a day a period may begin on. -/
theorem first_day : 1 ≤ 1 ∧ 1 ≤ 30 := by decide

/-- `reset_day.max(1) as u32`. -/
def resetDayOf (stored : Int) : Nat := (max stored 1 % 4294967296).toNat

/-- The period start a call computes. The clock's range makes it exist. -/
def Clock.periodStart (clock : Clock) (resetDay : Int) : NaiveDate :=
  (CivilDate.periodStart clock.period (resetDayOf resetDay)).get (by
    obtain ⟨p, hp, -⟩ := periodStart_spec (resetDayOf resetDay) clock.interior
    rw [hp]
    rfl)

/-- Within the calendar the period begins where the code says. -/
theorem Clock.periodStart_eq (clock : Clock) (resetDay : Int) :
    CivilDate.periodStart clock.period (resetDayOf resetDay) =
      some (clock.periodStart resetDay) := by
  rw [Clock.periodStart, Option.some_get]

/-- Under one reset day a later call never lies in an earlier period. -/
theorem Clock.periodStart_le {c d : Clock} (h : c.period ≤ d.period) (resetDay : Int) :
    c.periodStart resetDay ≤ d.periodStart resetDay :=
  periodStart_mono c.interior d.interior h (c.periodStart_eq resetDay) (d.periodStart_eq resetDay)

/-- A period start that is not after today is not after the start of today's period. -/
theorem Clock.le_periodStart (c : Clock) (resetDay : Int) (d : Clock)
    (h : d.periodStart resetDay ≤ c.period) : d.periodStart resetDay ≤ c.periodStart resetDay := by
  obtain ⟨p, hp, -, -, hmax⟩ := periodStart_spec (resetDayOf resetDay) c.interior
  obtain ⟨q, hq, -, hreset, -⟩ := periodStart_spec (resetDayOf resetDay) d.interior
  rw [c.periodStart_eq, Option.some.injEq] at hp
  rw [d.periodStart_eq, Option.some.injEq] at hq
  rw [hp]
  rw [hq] at h ⊢
  exact hmax q hreset h

/-- What a call answers with. -/
structure Traffic where
  /-- All bytes received. -/
  totalRx : Int
  /-- All bytes sent. -/
  totalTx : Int
  /-- The bytes received in the period. -/
  monthRx : Int
  /-- The bytes sent in the period. -/
  monthTx : Int
  /-- The day the period began on. -/
  monthStart : String
  /-- The bytes received on the day. -/
  dayRx : Int
  /-- The bytes sent on the day. -/
  dayTx : Int
  deriving DecidableEq

/-- One report: the boot it was counted under, the counters when they could be
read, and the dates the call sees. -/
structure Report where
  /-- The boot the counters belong to. -/
  bootId : String
  /-- Bytes received and sent since then, where they are known. -/
  counters : Option (Int × Int)
  /-- The hub's date. -/
  clock : Clock

/-- `(d_rx, d_tx)`: what a report adds. Without a baseline under this exact
boot there is nothing to subtract from. -/
def increments (row : TrafficRow) (r : Report) : Int × Int :=
  match r.counters with
  | none => (0, 0)
  | some (rx, tx) =>
    if row.bootId = "" ∨ row.bootId ≠ r.bootId then (0, 0)
    else (max (saturatingSub rx row.lastRx) 0, max (saturatingSub tx row.lastTx) 0)

/-- The figures after a report, whether or not they are stored. -/
def figures (row : TrafficRow) (resetDay : Int) (r : Report) : Traffic :=
  let d := increments row r
  let period := (r.clock.periodStart resetDay).toText
  let today := r.clock.day.toText
  { totalRx := saturatingAdd row.totalRx d.1
    totalTx := saturatingAdd row.totalTx d.2
    monthRx := if row.monthStart ≠ period then d.1 else saturatingAdd row.monthRx d.1
    monthTx := if row.monthStart ≠ period then d.2 else saturatingAdd row.monthTx d.2
    monthStart := period
    dayRx := if row.dayStart ≠ today then d.1 else saturatingAdd row.dayRx d.1
    dayTx := if row.dayStart ≠ today then d.2 else saturatingAdd row.dayTx d.2 }

/-- The UPDATE of `accumulate_on`; a report without counters writes nothing. -/
def writeBack (row : TrafficRow) (t : Traffic) (r : Report) : TrafficRow :=
  match r.counters with
  | none => row
  | some (rx, tx) =>
    { row with
      bootId := r.bootId, lastRx := rx, lastTx := tx
      totalRx := t.totalRx, totalTx := t.totalTx
      monthRx := t.monthRx, monthTx := t.monthTx, monthStart := t.monthStart
      dayRx := t.dayRx, dayTx := t.dayTx, dayStart := r.clock.day.toText }

/-- A node's row after one report. -/
def foldRow (row : TrafficRow) (resetDay : Int) (r : Report) : TrafficRow :=
  writeBack row (figures row resetDay r) r

/-- The row stays that of its node. -/
@[simp] theorem writeBack_nodeId (row : TrafficRow) (t : Traffic) (r : Report) :
    (writeBack row t r).nodeId = row.nodeId := by
  unfold writeBack
  split <;> rfl

/-- The error of a point query that found no row. -/
def noRows : Failure := .declined "Query returned no rows"

/-- `accumulate_on`: reads the traffic row joined with its node, folds the
report in and writes the row back. -/
def accumulateOn (nodeId : Int) (r : Report) (db : Store) : Except Failure (Traffic × Store) :=
  match db.traffic.find? nodeId, db.node.find? nodeId with
  | some row, some n =>
    let t := figures row n.trafficResetDay r
    .ok (t, { db with
      traffic := db.traffic.updateWhere (fun x => x.nodeId = nodeId) (fun x => writeBack x t r)
        (fun x => writeBack_nodeId x t r) })
  | _, _ => .error noRows

/-! ## Lanes -/

/-- The two directions of a traffic row. -/
inductive Direction
  | rx | tx
  deriving DecidableEq

/-- One direction of a traffic row. -/
@[ext] structure Lane where
  /-- Boot of the baseline; empty before the first reading. -/
  bootId : String
  /-- The counter of the last present reading. -/
  last : Int
  /-- Lifetime total. -/
  total : Int
  /-- Bytes of the period that began on `monthStart`. -/
  month : Int
  /-- The day the period began on. -/
  monthStart : String
  /-- Bytes of the day `dayStart`. -/
  day : Int
  /-- The day. -/
  dayStart : String

/-- One direction of a pair. -/
def Direction.of {α : Type} : Direction → α × α → α
  | .rx, p => p.1
  | .tx, p => p.2

/-- A row as one direction sees it. -/
def laneOf : Direction → TrafficRow → Lane
  | .rx, r => ⟨r.bootId, r.lastRx, r.totalRx, r.monthRx, r.monthStart, r.dayRx, r.dayStart⟩
  | .tx, r => ⟨r.bootId, r.lastTx, r.totalTx, r.monthTx, r.monthStart, r.dayTx, r.dayStart⟩

/-- A report as one direction sees it. -/
structure LaneReport where
  /-- The boot the counter belongs to. -/
  bootId : String
  /-- The bytes since then, where they are known. -/
  counter : Option Int
  /-- The hub's date. -/
  clock : Clock

/-- Projects a report to a direction. -/
def Report.lane (dir : Direction) (r : Report) : LaneReport :=
  ⟨r.bootId, r.counters.map dir.of, r.clock⟩

/-- What one reading adds to the baseline left by another: the climb, where
both carry the same non-empty boot. -/
def climb (previous new : String × Int) : Int :=
  if previous.1 ≠ "" ∧ previous.1 = new.1 then max 0 (new.2 - previous.2) else 0

/-- A counter never climbs by less than nothing. -/
theorem climb_nonneg (p q : String × Int) : 0 ≤ climb p q := by
  unfold climb
  split
  · exact le_max_left _ _
  · exact le_rfl

/-- The baseline the next reading is compared with. -/
def Lane.baseline (l : Lane) : String × Int := (l.bootId, l.last)

/-- A counter that restarts when its stamp changes. -/
def restarted (stamp now : String) (old increment : Int) : Int :=
  if stamp ≠ now then increment else capAdd i64Max old increment

/-- One direction's fold. -/
def Lane.report (l : Lane) (resetDay : Int) (r : LaneReport) : Lane :=
  match r.counter with
  | none => l
  | some c =>
    let d := climb l.baseline (r.bootId, c)
    let period := (r.clock.periodStart resetDay).toText
    let today := r.clock.day.toText
    { bootId := r.bootId
      last := c
      total := capAdd i64Max l.total d
      month := restarted l.monthStart period l.month d
      monthStart := period
      day := restarted l.dayStart today l.day d
      dayStart := today }

/-- Every number of a lane is a count. -/
structure Lane.Sound (l : Lane) : Prop where
  /-- The last counter is within range. -/
  last : Counted l.last
  /-- So is the total. -/
  total : Counted l.total
  /-- So is the period's. -/
  month : Counted l.month
  /-- So is the day's. -/
  day : Counted l.day

/-- A report's counter, when present, is a count. -/
def LaneReport.Sound (r : LaneReport) : Prop := ∀ c, r.counter = some c → Counted c

/-- So is what a counter climbs by. -/
theorem climb_counted {p q : String × Int} (hp : Counted p.2) (hq : Counted q.2) :
    Counted (climb p q) := by
  refine ⟨climb_nonneg p q, ?_⟩
  unfold climb
  obtain ⟨hp0, -⟩ := hp
  obtain ⟨-, hq1⟩ := hq
  split
  · rw [max_le_iff]
    constructor
    · decide
    · omega
  · decide

/-- So is a sum that is capped. -/
theorem capAdd_counted {a b : Int} (ha : Counted a) (hb : 0 ≤ b) : Counted (capAdd i64Max a b) := by
  have h := le_capAdd ha.2 hb
  exact ⟨ha.1.trans h, capAdd_le _ _ _⟩

/-- So is what begins anew or goes on. -/
theorem restarted_counted {stamp now : String} {old d : Int} (ho : Counted old) (hd : Counted d) :
    Counted (restarted stamp now old d) := by
  unfold restarted
  split
  · exact hd
  · exact capAdd_counted ho hd.1

/-- A lane's numbers stay counts. -/
theorem Lane.Sound.report {l : Lane} (hl : l.Sound) (resetDay : Int) {r : LaneReport}
    (hr : r.Sound) : (l.report resetDay r).Sound := by
  unfold Lane.report
  cases hc : r.counter with
  | none => exact hl
  | some c =>
    have hcount := hr c hc
    have hd : Counted (climb l.baseline (r.bootId, c)) := climb_counted hl.last hcount
    exact ⟨hcount, capAdd_counted hl.total hd.1, restarted_counted hl.month hd,
      restarted_counted hl.day hd⟩

/-- One direction's increment is the climb over its baseline. -/
theorem increments_lane (dir : Direction) {row : TrafficRow} {r : Report} {counters : Int × Int}
    (hr : r.counters = some counters) (hl : (laneOf dir row).Sound)
    (hc : Counted (dir.of counters)) :
    dir.of (increments row r) = climb (laneOf dir row).baseline (r.bootId, dir.of counters) := by
  have hsub := saturatingSub_eq hc hl.last
  obtain ⟨rx, tx⟩ := counters
  unfold increments climb
  rw [hr]
  dsimp only
  by_cases hb : row.bootId = "" ∨ row.bootId ≠ r.bootId
  · have hno : ¬ ((laneOf dir row).bootId ≠ "" ∧ (laneOf dir row).bootId = r.bootId) := by
      have hboot : (laneOf dir row).bootId = row.bootId := by cases dir <;> rfl
      rw [hboot]
      tauto
    rw [if_pos hb]
    cases dir <;> exact (if_neg hno).symm
  · have hyes : (laneOf dir row).bootId ≠ "" ∧ (laneOf dir row).bootId = r.bootId := by
      have hboot : (laneOf dir row).bootId = row.bootId := by cases dir <;> rfl
      rw [hboot]
      tauto
    rw [if_neg hb]
    refine Eq.trans ?_ (if_pos hyes).symm
    change _ = max 0 (dir.of (rx, tx) - (laneOf dir row).last)
    rw [← hsub, max_comm 0]
    cases dir <;> rfl

/-- The row's fold is the lane's fold in each direction. -/
theorem laneOf_foldRow (dir : Direction) (row : TrafficRow) (resetDay : Int) (r : Report)
    (hl : (laneOf dir row).Sound) (hr : (r.lane dir).Sound) :
    laneOf dir (foldRow row resetDay r) = (laneOf dir row).report resetDay (r.lane dir) := by
  cases hc : r.counters with
  | none =>
    have hn : (r.lane dir).counter = none := by rw [Report.lane, hc, Option.map_none]
    rw [foldRow, writeBack, hc, Lane.report, hn]
  | some counters =>
    have hs : (r.lane dir).counter = some (dir.of counters) := by
      rw [Report.lane, hc, Option.map_some]
    have hcount := hr _ hs
    have hinc := increments_lane dir hc hl hcount
    have hd0 : 0 ≤ dir.of (increments row r) := by
      rw [hinc]
      exact climb_nonneg _ _
    rw [Lane.report, hs]
    dsimp only [Report.lane]
    rw [← hinc]
    -- Under non-negative numbers saturating addition is capped addition.
    cases dir with
    | rx =>
      have ht : saturatingAdd row.totalRx (increments row r).1 = capAdd i64Max row.totalRx _ :=
        saturatingAdd_eq_capAdd hl.total.1 hd0
      have hm : saturatingAdd row.monthRx (increments row r).1 = capAdd i64Max row.monthRx _ :=
        saturatingAdd_eq_capAdd hl.month.1 hd0
      have hday : saturatingAdd row.dayRx (increments row r).1 = capAdd i64Max row.dayRx _ :=
        saturatingAdd_eq_capAdd hl.day.1 hd0
      simp only [foldRow, writeBack, hc, laneOf, figures, ht, hm, hday]
      rfl
    | tx =>
      have ht : saturatingAdd row.totalTx (increments row r).2 = capAdd i64Max row.totalTx _ :=
        saturatingAdd_eq_capAdd hl.total.1 hd0
      have hm : saturatingAdd row.monthTx (increments row r).2 = capAdd i64Max row.monthTx _ :=
        saturatingAdd_eq_capAdd hl.month.1 hd0
      have hday : saturatingAdd row.dayTx (increments row r).2 = capAdd i64Max row.dayTx _ :=
        saturatingAdd_eq_capAdd hl.day.1 hd0
      simp only [foldRow, writeBack, hc, laneOf, figures, ht, hm, hday]
      rfl

end Romi.TrafficFold
