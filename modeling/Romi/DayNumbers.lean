import Mathlib.Tactic.IntervalCases
import Romi.CivilDate

/-!
# Counting days

Every date has a number, that of the day before is one less, and the first of
January 1970 has number zero. A year counts from March, so that its leap day
comes last.
-/

namespace Romi.DayNumbers

open CivilDate

/-- The days before the first of March of a year, up to a constant. -/
def daysBefore (year : Int) : Int := 365 * year + year / 4 - year / 100 + year / 400

/-- The number of a date. -/
def dayNumber (d : NaiveDate) : Int :=
  if d.month ≤ 2 then daysBefore (d.year - 1) + (153 * (d.month + 9) + 2) / 5 + d.day - 719469
  else daysBefore d.year + (153 * (d.month - 3) + 2) / 5 + d.day - 719469

example : (fromYmdOpt 1970 1 1).map dayNumber = some 0 := by decide

/-- `(date - today).num_days()`. -/
def daysUntil (date today : NaiveDate) : Int := dayNumber date - dayNumber today

/-- A year later, by the length of the year. -/
theorem daysBefore_next (year : Int) :
    daysBefore (year - 1) + (if isLeap year then 366 else 365) = daysBefore year := by
  unfold daysBefore isLeap
  split
  · rename_i h
    simp only [decide_eq_true_eq] at h
    omega
  · rename_i h
    simp only [decide_eq_true_eq] at h
    omega

/-- Days go by with the years. -/
theorem daysBefore_mono {x y : Int} (h : x ≤ y) : daysBefore x ≤ daysBefore y := by
  unfold daysBefore
  omega

/-- The day within its year. -/
def dayOfYear (leap : Bool) (month day : Nat) : Int :=
  if month ≤ 2 then 31 * (month - 1) + day
  else (if leap then 60 else 59) + (153 * (month - 3) + 2) / 5 + day

/-- The number of a day, by the years before it and its place in the year. -/
theorem dayNumber_eq (d : NaiveDate) : dayNumber d =
    daysBefore (d.year - 1) + dayOfYear (isLeap d.year) d.month d.day - 719163 := by
  have hnext := daysBefore_next d.year
  have hmonth := d.month_range
  unfold dayNumber dayOfYear
  generalize d.month = month at *
  split
  · omega
  · cases hleap : isLeap d.year with
    | true =>
      rw [hleap, if_pos rfl] at hnext
      rw [if_pos rfl]
      omega
    | false =>
      rw [hleap, if_neg Bool.false_ne_true] at hnext
      rw [if_neg Bool.false_ne_true]
      omega

/-- A day lies in its year. -/
theorem dayOfYear_bounds (d : NaiveDate) : 1 ≤ dayOfYear (isLeap d.year) d.month d.day ∧
    dayOfYear (isLeap d.year) d.month d.day ≤ if isLeap d.year then 366 else 365 := by
  have hmonth := d.month_range
  have hday := d.day_range
  unfold daysIn at hday
  unfold dayOfYear
  generalize d.month = month at *
  generalize d.day = day at *
  generalize isLeap d.year = leap at *
  obtain ⟨hfirst, hlast⟩ := hmonth
  interval_cases month <;> cases leap <;> simp at hday ⊢ <;> omega

/-- Later in the year. -/
theorem dayOfYear_lt {year : Int} {m n a b : Nat} (hm : 1 ≤ m ∧ m ≤ 12) (hn : 1 ≤ n ∧ n ≤ 12)
    (ha : 1 ≤ a ∧ a ≤ daysIn year m) (hb : 1 ≤ b) (h : m < n ∨ m = n ∧ a < b) :
    dayOfYear (isLeap year) m a < dayOfYear (isLeap year) n b := by
  unfold daysIn at ha
  unfold dayOfYear
  generalize isLeap year = leap at *
  obtain ⟨hfirst, hlast⟩ := hm
  interval_cases m <;> cases leap <;> simp at ha ⊢ <;> split <;> omega

/-- A later date has a larger number. -/
theorem dayNumber_lt {d e : NaiveDate} (h : d < e) : dayNumber d < dayNumber e := by
  have hd := d.day_range
  have he := e.day_range
  have hm := d.month_range
  have hn := e.month_range
  have hdlt := d.day_lt
  have helt := e.day_lt
  rw [NaiveDate.lt_iff] at h
  unfold NaiveDate.serial at h
  rw [dayNumber_eq, dayNumber_eq]
  by_cases hyear : d.year = e.year
  · have hlt := @dayOfYear_lt d.year _ _ _ _ hm hn hd he.1 (by omega)
    rw [← hyear]
    omega
  · have hmono := daysBefore_mono (show d.year ≤ e.year - 1 by omega)
    have hlast := (dayOfYear_bounds d).2
    have hfirst := (dayOfYear_bounds e).1
    have hnext := daysBefore_next d.year
    omega

/-- Days are numbered in their order. -/
theorem dayNumber_mono {d e : NaiveDate} : dayNumber d ≤ dayNumber e ↔ d ≤ e := by
  constructor
  · intro h
    by_contra hlt
    exact absurd (dayNumber_lt (not_le.mp hlt)) (not_lt.mpr h)
  · intro h
    rcases h.lt_or_eq with hlt | rfl
    · exact (dayNumber_lt hlt).le
    · exact le_rfl

end Romi.DayNumbers
