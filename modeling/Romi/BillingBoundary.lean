import Romi.CivilDate

/-!
# The boundary of a billing period

Every month of the calendar has one reset date. The start of the period is the
last of them that is not after today, and it can be computed as long as the
months it is found with lie in the range of the date library: the first day of
the month after today's, and the month before when the reset is still to come.
-/

namespace Romi.BillingBoundary

open CivilDate

/-- The months the computation names are in the range: today is not in December
of its last year, where the first day of the next month is unwrapped, and not
before the reset date of January of its first year, where a month before would
be needed. -/
def Computable (today : NaiveDate) (resetDay : Nat) : Prop :=
  (today.year = maxYear → today.month < 12) ∧
    (today.year = minYear → today.month = 1 → effectiveDay resetDay ≤ today.day)

instance (today : NaiveDate) (resetDay : Nat) : Decidable (Computable today resetDay) :=
  inferInstanceAs (Decidable (_ ∧ _))

/-- What a period start is to the day it was computed for. -/
structure Starts (resetDay : Nat) (today p : NaiveDate) : Prop where
  /-- It has come. -/
  le : p ≤ today
  /-- It is the reset date of its own month. -/
  reset : IsReset resetDay p
  /-- No later reset date has come. -/
  greatest : ∀ q, IsReset resetDay q → q ≤ today → q ≤ p
  /-- The next reset date exists and is still to come. -/
  next : ∃ q, IsReset resetDay q ∧ today < q ∧ ∀ r, IsReset resetDay r → p < r → q ≤ r
  /-- The period of the start is its own. -/
  idempotent : periodStart p resetDay = some p
  /-- A later day's period does not start earlier. -/
  monotone : ∀ later q, today ≤ later → periodStart later resetDay = some q → p ≤ q

/-! ## Months -/

/-- Months are counted through the years. -/
def monthIndex (d : NaiveDate) : Int := d.year * 12 + d.month

/-- The number of days in a month, counted from January of the year 0. -/
def monthLength (month : Int) : Nat := daysIn (month / 12) ((month % 12).toNat + 1)

/-- Months are of twenty-eight to thirty-one days. -/
theorem monthLength_bounds (month : Int) : 28 ≤ monthLength month ∧ monthLength month ≤ 31 :=
  daysIn_bounds _ _

/-- The length of a date's month. -/
theorem monthLength_index (d : NaiveDate) :
    monthLength (monthIndex d - 1) = daysIn d.year d.month := by
  have hmonth := d.month_range
  have hyear : (monthIndex d - 1) / 12 = d.year := by
    unfold monthIndex
    omega
  have hindex : ((monthIndex d - 1) % 12).toNat + 1 = d.month := by
    unfold monthIndex
    omega
  rw [monthLength, hyear, hindex]

/-- A date in an earlier month is earlier. -/
theorem serial_lt_of_month {d e : NaiveDate} (h : monthIndex d < monthIndex e) :
    d.serial < e.serial := by
  have hd := d.day_lt
  have hdm := d.month_range
  have hem := e.month_range
  unfold monthIndex at h
  unfold NaiveDate.serial
  omega

/-- An earlier date is in no later month. -/
theorem month_le_of_serial {d e : NaiveDate} (h : d.serial ≤ e.serial) :
    monthIndex d ≤ monthIndex e := by
  by_contra hlt
  have hserial := serial_lt_of_month (not_le.mp hlt)
  omega

/-- Two dates of one month. -/
theorem same_month {d e : NaiveDate} (h : monthIndex d = monthIndex e) :
    d.year = e.year ∧ d.month = e.month := by
  have hdm := d.month_range
  have hem := e.month_range
  unfold monthIndex at h
  omega

/-- Two reset dates of one month are one. -/
theorem reset_unique {resetDay : Nat} {p q : NaiveDate} (hp : IsReset resetDay p)
    (hq : IsReset resetDay q) (h : monthIndex p = monthIndex q) : p = q := by
  obtain ⟨hy, hm⟩ := same_month h
  rw [IsReset, hy, hm] at hp
  exact NaiveDate.ext hy hm (hp.trans hq.symm)

/-- The reset date of a month. -/
theorem exists_reset (resetDay : Nat) {year : Int} {month : Nat}
    (hy : minYear ≤ year ∧ year ≤ maxYear) (hm : 1 ≤ month ∧ month ≤ 12) :
    ∃ p : NaiveDate, p.year = year ∧ p.month = month ∧ IsReset resetDay p := by
  have hday := effectiveDay_range resetDay
  have hlength := daysIn_bounds year month
  exact ⟨⟨year, month, min (effectiveDay resetDay) (daysIn year month), hy, hm,
    ⟨by omega, Nat.min_le_right _ _⟩⟩, rfl, rfl, rfl⟩

/-! ## The closure -/

/-- The closure finds the reset date of its month whenever the month after it
is in the range. -/
theorem clamped_reset {resetDay : Nat} {p : NaiveDate} (hp : IsReset resetDay p)
    (hnext : p.year = maxYear → p.month < 12) :
    clamped (effectiveDay resetDay) p.year p.month = some p := by
  have hday := effectiveDay_range resetDay
  have hyear := p.year_range
  have hmonth := p.month_range
  have hlength := daysIn_bounds p.year p.month
  obtain ⟨next, hfirst⟩ := fromYmdOpt_first
    (if p.month = 12 then p.year + 1 else p.year) (if p.month = 12 then 1 else p.month + 1)
    (by split <;> omega) (by split <;> omega)
  obtain ⟨hy, hm, hd⟩ := fromYmdOpt_eq_some.mp hfirst
  have hlast : ∃ last, next.predOpt = some last ∧ last.day = daysIn p.year p.month := by
    unfold NaiveDate.predOpt
    rw [if_neg (by omega)]
    by_cases h12 : p.month = 12
    · rw [if_pos h12] at hy hm
      rw [if_neg (by omega), hy, Int.add_sub_cancel]
      have hdays : daysIn p.year 12 = 31 := rfl
      refine ⟨⟨p.year, 12, 31, hyear, by omega, by decide, hdays.ge⟩,
        fromYmdOpt_eq_some.mpr ⟨rfl, rfl, rfl⟩, ?_⟩
      rw [h12]
      rfl
    · rw [if_neg h12] at hy hm
      have hback : next.month - 1 = p.month := by omega
      rw [if_pos (by omega), hy, hback]
      exact ⟨⟨p.year, p.month, daysIn p.year p.month, hyear, hmonth, by omega, le_rfl⟩,
        fromYmdOpt_eq_some.mpr ⟨rfl, rfl, rfl⟩, rfl⟩
  obtain ⟨last, hlast, hlength⟩ := hlast
  simp only [clamped, hfirst, hlast, hlength, Option.bind_eq_bind, Option.bind_some]
  exact fromYmdOpt_eq_some.mpr ⟨rfl, rfl, hp⟩

/-- In the last month of the range there is no month after it. -/
theorem clamped_last {day : Nat} : clamped day maxYear 12 = none := rfl

/-- Before the first year there is none. -/
theorem clamped_before {day : Nat} : clamped day (minYear - 1) 12 = none := rfl

/-! ## The start of a period -/

section Start

variable {today : NaiveDate} {resetDay : Nat}

/-- Once the reset date of today's month has come, it is the start. -/
theorem periodStart_this {this : NaiveDate} (hreset : IsReset resetDay this)
    (hmonth : monthIndex this = monthIndex today) (hnext : today.year = maxYear → today.month < 12)
    (hle : this ≤ today) : periodStart today resetDay = some this := by
  obtain ⟨hy, hm⟩ := same_month hmonth
  have hclamped := clamped_reset hreset (by rwa [hy, hm])
  rw [hy, hm] at hclamped
  change (clamped (effectiveDay resetDay) today.year today.month).bind _ = _
  rw [hclamped, Option.bind_some, if_pos hle]

/-- Until then it is the reset date of the month before. -/
theorem periodStart_previous {this previous : NaiveDate} (hthis : IsReset resetDay this)
    (hmonth : monthIndex this = monthIndex today) (hnext : today.year = maxYear → today.month < 12)
    (hlt : today < this) (hreset : IsReset resetDay previous)
    (hprevious : monthIndex previous + 1 = monthIndex today) :
    periodStart today resetDay = some previous := by
  obtain ⟨hy, hm⟩ := same_month hmonth
  have hclamped := clamped_reset hthis (by rwa [hy, hm])
  rw [hy, hm] at hclamped
  have hprev := clamped_reset hreset (by
    have htoday := today.year_range
    have hp := previous.month_range
    have ht := today.month_range
    unfold monthIndex at hprevious
    omega)
  change (clamped (effectiveDay resetDay) today.year today.month).bind _ = _
  rw [hclamped, Option.bind_some, if_neg (not_le.mpr hlt)]
  have hp := previous.month_range
  have ht := today.month_range
  unfold monthIndex at hprevious
  split
  · have hpy : today.year - 1 = previous.year := by omega
    have hpm : 12 = previous.month := by omega
    rw [← hprev, hpy]
    exact congrArg _ hpm
  · have hpy : today.year = previous.year := by omega
    have hpm : today.month - 1 = previous.month := by omega
    rw [hpy, hpm]
    exact hprev

/-- Outside that range the computation stops. -/
theorem computable_of_some {p : NaiveDate} (h : periodStart today resetDay = some p) :
    Computable today resetDay := by
  have hmonth := today.month_range
  refine ⟨?_, ?_⟩
  · intro hy
    by_contra hlast
    have hm : today.month = 12 := by omega
    change (clamped (effectiveDay resetDay) today.year today.month).bind _ = _ at h
    rw [hy, hm, clamped_last] at h
    cases h
  · intro hy hm
    by_contra hbefore
    obtain ⟨this, hty, htm, hreset⟩ := exists_reset resetDay today.year_range today.month_range
    have hclamped := clamped_reset hreset (by
      rw [hty, hy]
      exact nofun)
    have hday := effectiveDay_range resetDay
    have hlt : today < this := by
      rw [IsReset, hty, htm, hm] at hreset
      have hlength : daysIn today.year 1 = 31 := rfl
      rw [hlength] at hreset
      rw [NaiveDate.lt_iff]
      unfold NaiveDate.serial
      omega
    rw [hty, htm] at hclamped
    change (clamped (effectiveDay resetDay) today.year today.month).bind _ = _ at h
    rw [hclamped, Option.bind_some, if_neg (not_le.mpr hlt), if_pos hm, hy, clamped_before] at h
    cases h

/-- Today lies between two reset dates of successive months, and the first of
them is what is computed. -/
structure Between (resetDay : Nat) (today p next : NaiveDate) : Prop where
  /-- The period begins on a reset day. -/
  start : IsReset resetDay p
  /-- So does the next. -/
  stop : IsReset resetDay next
  /-- It has begun. -/
  le : p ≤ today
  /-- The next has not. -/
  lt : today < next
  /-- It is that of the next month. -/
  months : monthIndex next = monthIndex p + 1

/-- Where the hub returns a date there is such a period. -/
theorem exists_between (h : Computable today resetDay) :
    ∃ p next, periodStart today resetDay = some p ∧ Between resetDay today p next := by
  have hyear := today.year_range
  have hmonth := today.month_range
  obtain ⟨this, hty, htm, hthis⟩ := exists_reset resetDay hyear hmonth
  have hsame : monthIndex this = monthIndex today := by
    unfold monthIndex
    omega
  rcases le_or_gt this today with hle | hlt
  · have hafter := h.1
    obtain ⟨next, hny, hnm, hnext⟩ := @exists_reset resetDay
      (if today.month = 12 then today.year + 1 else today.year)
      (if today.month = 12 then 1 else today.month + 1) (by split <;> omega) (by split <;> omega)
    have hmonths : monthIndex next = monthIndex this + 1 := by
      rw [hsame]
      unfold monthIndex
      split at hny <;> split at hnm <;> omega
    refine ⟨this, next, periodStart_this hthis hsame h.1 hle, hthis, hnext, hle, ?_, hmonths⟩
    rw [NaiveDate.lt_iff]
    exact serial_lt_of_month (by omega)
  · have hday := effectiveDay_range resetDay
    have hfirst : ¬ (today.year = minYear ∧ today.month = 1) := by
      rintro ⟨hy, hm⟩
      have hcome := h.2 hy hm
      rw [IsReset, hty, htm, hm] at hthis
      rw [NaiveDate.lt_iff] at hlt
      unfold NaiveDate.serial at hlt
      omega
    obtain ⟨previous, hpy, hpm, hprevious⟩ := @exists_reset resetDay
      (if today.month = 1 then today.year - 1 else today.year)
      (if today.month = 1 then 12 else today.month - 1) (by split <;> omega) (by split <;> omega)
    have hmonths : monthIndex previous + 1 = monthIndex today := by
      unfold monthIndex
      split at hpy <;> split at hpm <;> omega
    refine ⟨previous, this, periodStart_previous hthis hsame h.1 hlt hprevious hmonths, hprevious,
      hthis, ?_, hlt, by omega⟩
    rw [NaiveDate.le_iff]
    exact (serial_lt_of_month (by omega)).le

/-- Reset dates are ordered as their months are. -/
theorem reset_le {p q : NaiveDate} (hp : IsReset resetDay p) (hq : IsReset resetDay q)
    (h : monthIndex p ≤ monthIndex q) : p ≤ q := by
  rcases h.lt_or_eq with hlt | heq
  · rw [NaiveDate.le_iff]
    exact (serial_lt_of_month hlt).le
  · exact (reset_unique hp hq heq).le

/-- An earlier reset day is in an earlier month. -/
theorem reset_month_lt {p q : NaiveDate} (hp : IsReset resetDay p) (hq : IsReset resetDay q)
    (h : p < q) : monthIndex p < monthIndex q := by
  by_contra hge
  exact absurd (reset_le hq hp (not_lt.mp hge)) (not_le.mpr h)

namespace Between

variable {p next : NaiveDate}

/-- No reset date lies strictly between the two. -/
theorem next_le (h : Between resetDay today p next) {q : NaiveDate} (hq : IsReset resetDay q)
    (hpq : p < q) : next ≤ q := by
  have hmonth := reset_month_lt h.start hq hpq
  have hmonths := h.months
  exact reset_le h.stop hq (by omega)

/-- No reset day in between has come. -/
theorem greatest (h : Between resetDay today p next) {q : NaiveDate} (hq : IsReset resetDay q)
    (hqt : q ≤ today) : q ≤ p := by
  by_contra hlt
  exact absurd (h.next_le hq (not_le.mp hlt)) (not_le.mpr (hqt.trans_lt h.lt))

end Between

end Start

/-- The start of the period is computed exactly on the days whose neighbouring
months are in the range, and there it is the last reset date that is not after
today; computing it again changes nothing, and later days never start earlier. -/
theorem period_boundary (today : NaiveDate) (resetDay : Nat) :
    (∃ p, periodStart today resetDay = some p ∧ Starts resetDay today p) ↔
      Computable today resetDay := by
  constructor
  · rintro ⟨p, hp, -⟩
    exact computable_of_some hp
  · intro h
    obtain ⟨p, next, hp, hbetween⟩ := exists_between h
    have hle : p.serial ≤ today.serial := hbetween.le
    refine ⟨p, hp, hbetween.le, hbetween.start, fun q hq hqt => hbetween.greatest hq hqt,
      ⟨next, hbetween.stop, hbetween.lt, fun r hr hpr => hbetween.next_le hr hpr⟩, ?_, ?_⟩
    · refine periodStart_this hbetween.start rfl ?_ le_rfl
      have hmonth := month_le_of_serial hle
      have hlast := h.1
      have hyear := today.year_range
      have htoday := today.month_range
      have hpm := p.month_range
      unfold monthIndex at hmonth
      omega
    · intro later q hlater hq
      obtain ⟨q', _, hq', hbetween'⟩ := exists_between (computable_of_some hq)
      obtain rfl : q' = q := Option.some.inj (hq'.symm.trans hq)
      exact hbetween'.greatest hbetween.start (hbetween.le.trans hlater)

/-- Not every date of the range has a period: on 262142-12-01 the first day of
the month after is out of the range. -/
theorem last_month_unstarted : ¬ ∀ (today : NaiveDate) (resetDay : Nat),
    ∃ p, periodStart today resetDay = some p ∧ Starts resetDay today p := by
  intro hclaim
  obtain ⟨p, hp, -⟩ := hclaim ⟨262142, 12, 1, by decide, by decide, by decide⟩ 1
  have hnone : periodStart ⟨262142, 12, 1, by decide, by decide, by decide⟩ 1 = none := rfl
  rw [hnone] at hp
  cases hp

end Romi.BillingBoundary
