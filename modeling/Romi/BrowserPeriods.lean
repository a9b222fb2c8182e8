import Romi.BillingBoundary

/-!
# The billing period as the browser computes it

The browser finds the next reset from today and the start of the period from
the next reset, with dates whose months and days may overflow. Counted in
months both answers are the reset dates of two successive months, and they are
the two between which the hub's own computation finds today.
-/

namespace Romi.BrowserPeriods

open BillingBoundary CivilDate

/-! ## Dates whose parts may overflow -/

/-- A local date; the months are counted from January of the year 0. -/
structure JsDate where
  /-- The month, counted from the year nought. -/
  month : Int
  /-- The day of the month. -/
  day : Int
  deriving DecidableEq

/-- `getFullYear`. -/
def JsDate.getFullYear (d : JsDate) : Int := d.month / 12

/-- `getMonth`, from 0. -/
def JsDate.getMonth (d : JsDate) : Int := d.month % 12

/-- `getDate`. -/
def JsDate.getDate (d : JsDate) : Int := d.day

/-- Days before the first or past the last are carried into the months around. -/
def carryDays : Nat → Int → Int → JsDate
  | 0, month, day => ⟨month, day⟩
  | fuel + 1, month, day =>
    if day < 1 then carryDays fuel (month - 1) (day + monthLength (month - 1))
    else if monthLength month < day then carryDays fuel (month + 1) (day - monthLength month)
    else ⟨month, day⟩

/-- `new Date(y, m, d)`: years below 100 are taken for the twentieth century. -/
def newDate (y m d : Int) : JsDate :=
  carryDays (d.natAbs + 1) ((if 0 ≤ y ∧ y ≤ 99 then 1900 + y else y) * 12 + m) d

/-- A day that exists is not carried. -/
theorem carryDays_of {fuel : Nat} {month day : Int} (h : 1 ≤ day ∧ day ≤ monthLength month) :
    carryDays fuel month day = ⟨month, day⟩ := by
  cases fuel with
  | zero => rfl
  | succ fuel => rw [carryDays, if_neg (by omega), if_neg (by omega)]

/-- As many carries as there are days always reach a day that exists. -/
theorem carryDays_exists {fuel : Nat} {month day : Int} (h : day.natAbs < fuel) :
    1 ≤ (carryDays fuel month day).day ∧
      (carryDays fuel month day).day ≤ monthLength (carryDays fuel month day).month := by
  induction fuel generalizing month day with
  | zero => omega
  | succ fuel ih =>
    have hbefore := monthLength_bounds (month - 1)
    have hhere := monthLength_bounds month
    unfold carryDays
    by_cases hlow : day < 1
    · rw [if_pos hlow]
      by_cases hlast : 1 ≤ day + monthLength (month - 1)
      · have hexists : 1 ≤ day + monthLength (month - 1) ∧
            day + monthLength (month - 1) ≤ monthLength (month - 1) := by omega
        rw [carryDays_of hexists]
        exact hexists
      · exact ih (by omega)
    · rw [if_neg hlow]
      by_cases hhigh : monthLength month < day
      · rw [if_pos hhigh]
        exact ih (by omega)
      · rw [if_neg hhigh]
        dsimp only
        omega

/-- A date that needs no carry. -/
theorem newDate_of {y m d : Int} (hy : 100 ≤ y) (hd : 1 ≤ d ∧ d ≤ monthLength (y * 12 + m)) :
    newDate y m d = ⟨y * 12 + m, d⟩ := by
  rw [newDate, if_neg (by omega), carryDays_of hd]

/-- Day 0 is the last day of the month before. -/
theorem newDate_zero {y m : Int} (hy : 100 ≤ y) :
    newDate y m 0 = ⟨y * 12 + m - 1, monthLength (y * 12 + m - 1)⟩ := by
  have hlength := monthLength_bounds (y * 12 + m - 1)
  rw [newDate, if_neg (by omega)]
  change carryDays 0 _ (0 + _) = _
  rw [Int.zero_add]
  rfl

/-! ## The two functions -/

/-- A moment in local time: the date and the milliseconds since its midnight. -/
structure LocalTime where
  /-- The date. -/
  date : JsDate
  /-- The milliseconds of the day. -/
  clock : Nat

/-- `at <= now` for a date, which stands for its midnight. -/
def JsDate.notAfter (at' : JsDate) (now : LocalTime) : Bool :=
  at'.month < now.date.month ∨
    (at'.month = now.date.month ∧
      (at'.day < now.date.day ∨ (at'.day = now.date.day ∧ 0 ≤ now.clock)))

/-- The closure of `nextReset`: the reset day in one month. -/
def clamp (day yy mm : Int) : Int := min day (newDate yy (mm + 1) 0).getDate

/-- `nextReset`. -/
def nextReset (day : Int) (now : LocalTime) : JsDate :=
  let y := now.date.getFullYear
  let m := now.date.getMonth
  let at' := newDate y m (clamp day y m)
  if at'.notAfter now then newDate y (m + 1) (clamp day y (m + 1)) else at'

/-- `periodStart`. -/
def periodStart (day : Int) (now : LocalTime) : JsDate :=
  let next := nextReset day now
  let y := next.getFullYear
  let m := next.getMonth - 1
  newDate y m (min day (newDate y (m + 1) 0).getDate)

/-! ## In months -/

/-- The reset date of a counted month. -/
def resetOf (day month : Int) : JsDate := ⟨month, min day (monthLength month)⟩

section Months

variable {day : Int} (hday : 1 ≤ day ∧ day ≤ 31)

include hday

/-- A month named from a year since 100, whatever overflows, has its reset date. -/
theorem newDate_reset {y m : Int} (hy : 100 ≤ y) :
    newDate y m (min day (newDate y (m + 1) 0).getDate) = resetOf day (y * 12 + m) := by
  have hlength := monthLength_bounds (y * 12 + m)
  have hmonth : y * 12 + (m + 1) - 1 = y * 12 + m := by omega
  rw [newDate_zero hy, hmonth]
  change newDate y m (min day (monthLength (y * 12 + m))) = _
  exact newDate_of hy (by omega)

/-- The next reset is in today's month or in the one after it. -/
theorem nextReset_eq {now : LocalTime} (hy : 1200 ≤ now.date.month) :
    nextReset day now = if (resetOf day now.date.month).notAfter now then
      resetOf day (now.date.month + 1) else resetOf day now.date.month := by
  have hyear : 100 ≤ now.date.getFullYear := by
    unfold JsDate.getFullYear
    omega
  have hmonth : now.date.getFullYear * 12 + now.date.getMonth = now.date.month := by
    unfold JsDate.getFullYear JsDate.getMonth
    omega
  have hnext : now.date.getFullYear * 12 + (now.date.getMonth + 1) = now.date.month + 1 := by omega
  unfold nextReset clamp
  dsimp only
  rw [newDate_reset hday hyear, newDate_reset hday hyear, hmonth, hnext]

/-- The period began one month before the next reset. -/
theorem periodStart_eq {now : LocalTime} (hy : 1200 ≤ now.date.month) :
    periodStart day now = resetOf day ((nextReset day now).month - 1) := by
  have hnext : now.date.month ≤ (nextReset day now).month := by
    rw [nextReset_eq hday hy]
    split
    · exact Int.le_add_one le_rfl
    · exact le_rfl
  have hyear : 100 ≤ (nextReset day now).getFullYear := by
    unfold JsDate.getFullYear
    omega
  have hmonth : (nextReset day now).getFullYear * 12 + ((nextReset day now).getMonth - 1) =
      (nextReset day now).month - 1 := by
    unfold JsDate.getFullYear JsDate.getMonth
    omega
  unfold periodStart
  dsimp only
  rw [newDate_reset hday hyear, hmonth]

end Months

/-! ## The hub's dates -/

/-- A date of the hub in the browser. -/
def dateOf (d : NaiveDate) : JsDate := ⟨d.year * 12 + d.month - 1, d.day⟩

/-- The month of a date. -/
theorem dateOf_month (d : NaiveDate) : (dateOf d).month = monthIndex d - 1 := rfl

/-- And how long it is. -/
theorem monthLength_dateOf (d : NaiveDate) :
    monthLength (dateOf d).month = daysIn d.year d.month :=
  monthLength_index d

/-- A reset date of the hub is the reset date of its month. -/
theorem dateOf_reset {resetDay : Nat} (hday : 1 ≤ resetDay ∧ resetDay ≤ 31) {p : NaiveDate}
    (hp : IsReset resetDay p) : dateOf p = resetOf resetDay (dateOf p).month := by
  have heffective : effectiveDay resetDay = resetDay := by
    unfold effectiveDay
    omega
  rw [IsReset, heffective] at hp
  rw [resetOf, monthLength_dateOf, ← Nat.cast_min, ← hp]
  rfl

/-- A date is not after a moment of a day when it is not after the day. -/
theorem notAfter_iff (p today : NaiveDate) (clock : Nat) :
    (dateOf p).notAfter ⟨dateOf today, clock⟩ = true ↔ p ≤ today := by
  have hp := p.month_range
  have ht := today.month_range
  have hpd := p.day_lt
  have htd := today.day_lt
  unfold JsDate.notAfter dateOf
  rw [decide_eq_true_iff, NaiveDate.le_iff]
  unfold NaiveDate.serial
  dsimp only
  omega

/-- What the next reset is to the hub's own computation: the first date after
today that it does not count into today's period. -/
structure FirstChange (resetDay : Nat) (today p next : NaiveDate) : Prop where
  /-- It lies ahead. -/
  after : today < next
  /-- Until then the period stays. -/
  unchanged : ∀ e, today ≤ e → e < next → Computable e resetDay →
    CivilDate.periodStart e resetDay = some p
  /-- Then it changes. -/
  changed : Computable next resetDay → CivilDate.periodStart next resetDay = some next
  /-- To another one. -/
  differs : next ≠ p

/-- The end of a period is its first change. -/
theorem firstChange_of_between {resetDay : Nat} {today p next : NaiveDate}
    (h : Between resetDay today p next) : FirstChange resetDay today p next := by
  have hlt : p < next := h.le.trans_lt h.lt
  refine ⟨h.lt, ?_, fun hnext => periodStart_this h.stop rfl hnext.1 le_rfl, hlt.ne'⟩
  intro e hte hen hcomputable
  obtain ⟨q, after, hq, hbetween⟩ := exists_between hcomputable
  have hpq : p ≤ q := hbetween.greatest h.start (h.le.trans hte)
  have hqp : ¬ p < q := fun hlt => absurd (h.next_le hbetween.start hlt)
    (not_le.mpr (hbetween.le.trans_lt hen))
  rw [hq, le_antisymm (not_lt.mp hqp) hpq]

/-- At any moment since the year 100 at which the hub computes a period, the
browser finds the same start, and its next reset is the first date that the hub
counts into another period. -/
theorem browser_agrees {resetDay : Nat} (hday : 1 ≤ resetDay ∧ resetDay ≤ 31) {today : NaiveDate}
    (hyear : 100 ≤ today.year) (hcomputable : Computable today resetDay) (clock : Nat) :
    ∃ p next, CivilDate.periodStart today resetDay = some p ∧
      periodStart resetDay ⟨dateOf today, clock⟩ = dateOf p ∧
      nextReset resetDay ⟨dateOf today, clock⟩ = dateOf next ∧
      FirstChange resetDay today p next := by
  obtain ⟨p, next, hp, hbetween⟩ := exists_between hcomputable
  have hday' : 1 ≤ (resetDay : Int) ∧ (resetDay : Int) ≤ 31 := by omega
  have hsince : 1200 ≤ (dateOf today).month := by
    have hmonth := today.month_range
    rw [dateOf_month, monthIndex]
    omega
  have hmonths := hbetween.months
  have hbefore : monthIndex p ≤ monthIndex today := month_le_of_serial hbetween.le
  have hafter : monthIndex today ≤ monthIndex next := month_le_of_serial hbetween.lt.le
  have hstart := dateOf_reset hday hbetween.start
  have hstop := dateOf_reset hday hbetween.stop
  have hnext : nextReset resetDay ⟨dateOf today, clock⟩ = dateOf next := by
    rw [nextReset_eq hday' hsince]
    dsimp only
    -- Today is in the month of the last reset date or in the month of the next.
    rcases hbefore.eq_or_lt with hsame | hlt
    · have hthis : (dateOf today).month = (dateOf p).month := by
        rw [dateOf_month, dateOf_month, hsame]
      have hfollowing : (dateOf today).month + 1 = (dateOf next).month := by
        rw [dateOf_month, dateOf_month]
        omega
      rw [hfollowing, ← hstop, hthis, ← hstart, if_pos ((notAfter_iff p today clock).mpr hbetween.le)]
    · have hthis : (dateOf today).month = (dateOf next).month := by
        rw [dateOf_month, dateOf_month]
        omega
      have hcome : ¬ (dateOf next).notAfter ⟨dateOf today, clock⟩ = true := by
        rw [notAfter_iff]
        exact not_le.mpr hbetween.lt
      rw [hthis, ← hstop, if_neg hcome]
  refine ⟨p, next, hp, ?_, hnext, firstChange_of_between hbetween⟩
  have hprevious : (dateOf next).month - 1 = (dateOf p).month := by
    rw [dateOf_month, dateOf_month]
    omega
  rw [periodStart_eq hday' hsince, hnext, hprevious, ← hstart]

/-- On the last day of January 2028 a period that resets on the 30th has one day
behind it, and the next one begins on the leap day. -/
theorem browser_agrees_leap :
    ∃ p next, CivilDate.periodStart ⟨2028, 1, 31, by decide, by decide, by decide⟩ 30 = some p ∧
      periodStart (30 : Nat) ⟨dateOf ⟨2028, 1, 31, by decide, by decide, by decide⟩, 0⟩ = dateOf p ∧
      nextReset (30 : Nat) ⟨dateOf ⟨2028, 1, 31, by decide, by decide, by decide⟩, 0⟩ = dateOf next ∧
      FirstChange 30 ⟨2028, 1, 31, by decide, by decide, by decide⟩ p next :=
  browser_agrees (by decide) (by decide) (by decide) 0

end Romi.BrowserPeriods
