import Mathlib.Data.Nat.Log
import Mathlib.Data.List.Basic
import Mathlib.Order.Basic
import Mathlib.Tactic.Linarith

/-!
# Civil dates and the start of a billing period

A date carries the proof that it exists in the proleptic Gregorian calendar
and lies in the range of the date library. Absent results stand for the
`unwrap` that would stop the program, so every place that needs the range
says so. Dates are stored as text; the text determines the date.
-/

namespace Romi.CivilDate

/-- Leap years of the proleptic Gregorian calendar. -/
def isLeap (year : Int) : Bool := year % 4 = 0 ∧ (year % 100 ≠ 0 ∨ year % 400 = 0)

/-- Length of a month; only the months 1 to 12 occur in a date. -/
def daysIn (year : Int) (month : Nat) : Nat :=
  if month = 2 then (if isLeap year then 29 else 28)
  else if month = 4 ∨ month = 6 ∨ month = 9 ∨ month = 11 then 30
  else 31

/-- First year the date library can represent. -/
def minYear : Int := -262143

/-- Last year the date library can represent. -/
def maxYear : Int := 262142

/-- A date that exists. -/
@[ext] structure NaiveDate where
  /-- Astronomical year. -/
  year : Int
  /-- Month from 1 to 12. -/
  month : Nat
  /-- Day of the month from 1. -/
  day : Nat
  /-- The year is in the library's range. -/
  year_range : minYear ≤ year ∧ year ≤ maxYear
  /-- The month exists. -/
  month_range : 1 ≤ month ∧ month ≤ 12
  /-- The day exists in that month. -/
  day_range : 1 ≤ day ∧ day ≤ daysIn year month
  deriving DecidableEq

/-- Months are of twenty-eight to thirty-one days. -/
theorem daysIn_bounds (year : Int) (month : Nat) :
    28 ≤ daysIn year month ∧ daysIn year month ≤ 31 := by
  unfold daysIn
  split
  · split <;> omega
  · split <;> omega

/-- Chronological position: later dates have larger numbers. -/
def NaiveDate.serial (d : NaiveDate) : Int := (d.year * 16 + d.month) * 32 + d.day

/-- No day is past the thirty-first. -/
theorem NaiveDate.day_lt (d : NaiveDate) : d.day < 32 := by
  have hd := d.day_range
  have hb := daysIn_bounds d.year d.month
  omega

/-- Each date has a number of its own. -/
theorem NaiveDate.serial_injective {d e : NaiveDate} (h : d.serial = e.serial) : d = e := by
  have hd := d.day_lt
  have he := e.day_lt
  have hm := d.month_range
  have hn := e.month_range
  unfold NaiveDate.serial at h
  ext
  · omega
  · omega
  · omega

/-- Dates are compared chronologically. -/
instance : LinearOrder NaiveDate :=
  LinearOrder.lift' NaiveDate.serial fun _ _ => NaiveDate.serial_injective

/-- The order is that of the numbers. -/
theorem NaiveDate.le_iff {d e : NaiveDate} : d ≤ e ↔ d.serial ≤ e.serial := Iff.rfl

/-- So is the strict one. -/
theorem NaiveDate.lt_iff {d e : NaiveDate} : d < e ↔ d.serial < e.serial := by
  rw [← not_le, ← not_le, NaiveDate.le_iff]

/-- `from_ymd_opt`: the date when it exists and is in range. -/
def fromYmdOpt (year : Int) (month day : Nat) : Option NaiveDate :=
  if h : (minYear ≤ year ∧ year ≤ maxYear) ∧ (1 ≤ month ∧ month ≤ 12) ∧
      (1 ≤ day ∧ day ≤ daysIn year month) then
    some ⟨year, month, day, h.1, h.2.1, h.2.2⟩
  else none

/-- A date that exists is that of its parts. -/
theorem fromYmdOpt_eq_some {year : Int} {month day : Nat} {d : NaiveDate} :
    fromYmdOpt year month day = some d ↔ d.year = year ∧ d.month = month ∧ d.day = day := by
  unfold fromYmdOpt
  constructor
  · intro h
    split at h
    · cases h
      exact ⟨rfl, rfl, rfl⟩
    · cases h
  · rintro ⟨rfl, rfl, rfl⟩
    rw [dif_pos ⟨d.year_range, d.month_range, d.day_range⟩]

/-- The first of any month in range exists. -/
theorem fromYmdOpt_first (year : Int) (month : Nat) (hy : minYear ≤ year ∧ year ≤ maxYear)
    (hm : 1 ≤ month ∧ month ≤ 12) : ∃ d, fromYmdOpt year month 1 = some d := by
  have hb := daysIn_bounds year month
  exact ⟨⟨year, month, 1, hy, hm, le_rfl, by omega⟩, fromYmdOpt_eq_some.mpr ⟨rfl, rfl, rfl⟩⟩

/-- `pred_opt`: the day before, unless the range ends there. -/
def NaiveDate.predOpt (d : NaiveDate) : Option NaiveDate :=
  if 1 < d.day then fromYmdOpt d.year d.month (d.day - 1)
  else if 1 < d.month then fromYmdOpt d.year (d.month - 1) (daysIn d.year (d.month - 1))
  else fromYmdOpt (d.year - 1) 12 31

/-- The closure of `period_start`: the reset day in one month, moved back to
the month's last day, which is found as the day before the next month. -/
def clamped (day : Nat) (year : Int) (month : Nat) : Option NaiveDate := do
  let next ← fromYmdOpt (if month = 12 then year + 1 else year) (if month = 12 then 1 else month + 1) 1
  let last ← next.predOpt
  fromYmdOpt year month (min day last.day)

/-- Start of the billing period containing `today`, given a reset day of the
month. Absent exactly where the source would stop on an `unwrap`. -/
def periodStart (today : NaiveDate) (resetDay : Nat) : Option NaiveDate := do
  let day := max 1 (min resetDay 31)
  let this ← clamped day today.year today.month
  if this ≤ today then some this
  else if today.month = 1 then clamped day (today.year - 1) 12
  else clamped day today.year (today.month - 1)

/-- The reset day as the calendar uses it. -/
def effectiveDay (resetDay : Nat) : Nat := max 1 (min resetDay 31)

/-- A reset day is brought within a month. -/
theorem effectiveDay_range (resetDay : Nat) :
    1 ≤ effectiveDay resetDay ∧ effectiveDay resetDay ≤ 31 := by
  unfold effectiveDay
  omega

/-- Within the range the closure returns the clamped day of its own month. -/
theorem clamped_eq (day : Nat) (year : Int) (month : Nat) (hd : 1 ≤ day)
    (hm : 1 ≤ month ∧ month ≤ 12) (hlo : minYear ≤ year) (hhi : year < maxYear) :
    ∃ d, clamped day year month = some d ∧ d.year = year ∧ d.month = month ∧
      d.day = min day (daysIn year month) := by
  have hb := daysIn_bounds year month
  obtain ⟨next, hnext⟩ := fromYmdOpt_first
    (if month = 12 then year + 1 else year) (if month = 12 then 1 else month + 1)
    (by split <;> omega) (by split <;> omega)
  obtain ⟨hy, hmo, hday⟩ := fromYmdOpt_eq_some.mp hnext
  obtain ⟨last, hlast, hlastDay⟩ : ∃ last, next.predOpt = some last ∧
      last.day = daysIn year month := by
    unfold NaiveDate.predOpt
    rw [if_neg (by omega : ¬ 1 < next.day)]
    by_cases h12 : month = 12
    · subst h12
      rw [if_pos rfl] at hy hmo
      rw [if_neg (by omega : ¬ 1 < next.month)]
      refine ⟨⟨next.year - 1, 12, 31, by omega, by omega, by decide, ?_⟩, ?_, ?_⟩
      · exact le_of_eq rfl
      · exact fromYmdOpt_eq_some.mpr ⟨rfl, rfl, rfl⟩
      · exact rfl
    · rw [if_neg h12] at hy hmo
      have hprev : next.month - 1 = month := by omega
      rw [if_pos (by omega : 1 < next.month), hy, hprev]
      exact ⟨⟨year, month, daysIn year month, ⟨hlo, hhi.le⟩, hm, by omega, le_rfl⟩,
        fromYmdOpt_eq_some.mpr ⟨rfl, rfl, rfl⟩, rfl⟩
  refine ⟨⟨year, month, min day (daysIn year month), ⟨hlo, hhi.le⟩, hm, by omega, by omega⟩,
    ?_, rfl, rfl, rfl⟩
  simp only [clamped, hnext, hlast, hlastDay, Option.bind_eq_bind, Option.bind_some]
  exact fromYmdOpt_eq_some.mpr ⟨rfl, rfl, rfl⟩

/-- Dates whose period the library can compute: the first and the last
year of its range are left out. -/
def Interior (d : NaiveDate) : Prop := minYear < d.year ∧ d.year < maxYear

instance (d : NaiveDate) : Decidable (Interior d) := inferInstanceAs (Decidable (_ ∧ _))

/-- `p` is the day on which a period starts in its own month. -/
def IsReset (resetDay : Nat) (p : NaiveDate) : Prop :=
  p.day = min (effectiveDay resetDay) (daysIn p.year p.month)

/-- One reset date for each month. -/
theorem IsReset.serial_le {resetDay : Nat} {p q : NaiveDate} (hp : IsReset resetDay p)
    (hq : IsReset resetDay q) (h : p.year * 16 + p.month ≤ q.year * 16 + q.month) :
    p.serial ≤ q.serial := by
  have hpm := p.month_range
  have hqm := q.month_range
  have hpd := p.day_lt
  unfold NaiveDate.serial
  by_cases he : p.year * 16 + p.month = q.year * 16 + q.month
  · have hy : p.year = q.year := by omega
    have hm : p.month = q.month := by omega
    rw [IsReset] at hp hq
    rw [hp, hq, hy, hm]
  · omega

/-- The computed start is a reset date not after today, and no reset date
lies between it and today. -/
theorem periodStart_spec {today : NaiveDate} (resetDay : Nat) (h : Interior today) :
    ∃ p, periodStart today resetDay = some p ∧ p ≤ today ∧ IsReset resetDay p ∧
      ∀ q, IsReset resetDay q → q ≤ today → q ≤ p := by
  have hm := today.month_range
  have ht := today.day_lt
  have hday := effectiveDay_range resetDay
  obtain ⟨this, hthis, hy, hmo, hd⟩ := clamped_eq (effectiveDay resetDay)
    today.year today.month hday.1 hm h.1.le h.2
  have hthisReset : IsReset resetDay this := by
    rw [IsReset, hd, hy, hmo]
  by_cases hle : this ≤ today
  · refine ⟨this, ?_, hle, hthisReset, ?_⟩
    · change (clamped (effectiveDay resetDay) today.year today.month).bind _ = _
      rw [hthis, Option.bind_some, if_pos hle]
    · intro q hq hqt
      apply hq.serial_le hthisReset
      have hqm := q.month_range
      have hqd := q.day_lt
      rw [NaiveDate.le_iff] at hqt
      unfold NaiveDate.serial at hqt
      omega
  · -- The reset day of this month is still to come: the period began last month.
    have hlt : today.serial < this.serial := by
      rw [NaiveDate.le_iff] at hle
      omega
    have hprev : ∃ p, (if today.month = 1 then clamped (effectiveDay resetDay) (today.year - 1) 12
        else clamped (effectiveDay resetDay) today.year (today.month - 1)) = some p ∧
        IsReset resetDay p ∧
        (p.year * 12 + p.month) + 1 = today.year * 12 + today.month := by
      by_cases h1 : today.month = 1
      · obtain ⟨p, hp, hpy, hpm, hpd⟩ := clamped_eq (effectiveDay resetDay)
          (today.year - 1) 12 hday.1 (by omega) (by have := h.1; omega)
          (by have := h.2; omega)
        refine ⟨p, by rw [if_pos h1, hp], by rw [IsReset, hpd, hpy, hpm], by omega⟩
      · obtain ⟨p, hp, hpy, hpm, hpd⟩ := clamped_eq (effectiveDay resetDay)
          today.year (today.month - 1) hday.1 (by omega) h.1.le h.2
        refine ⟨p, by rw [if_neg h1, hp], by rw [IsReset, hpd, hpy, hpm], by omega⟩
    obtain ⟨p, hp, hpReset, hpm⟩ := hprev
    have hpmr := p.month_range
    have hpd := p.day_lt
    refine ⟨p, ?_, ?_, hpReset, ?_⟩
    · change (clamped (effectiveDay resetDay) today.year today.month).bind _ = _
      rw [hthis, Option.bind_some, if_neg hle]
      exact hp
    · rw [NaiveDate.le_iff]
      unfold NaiveDate.serial
      have htd := today.day_range
      omega
    · intro q hq hqt
      have hqm := q.month_range
      have hqd := q.day_lt
      apply hq.serial_le hpReset
      -- A reset date of this month would be `this`, which is after today.
      by_contra hgt
      have hsame : this.serial ≤ q.serial := by
        apply hthisReset.serial_le hq
        omega
      rw [NaiveDate.le_iff] at hqt
      omega

/-- Later dates never lie in an earlier period. -/
theorem periodStart_mono {d e p q : NaiveDate} {resetDay : Nat} (hd : Interior d) (he : Interior e)
    (hde : d ≤ e) (hp : periodStart d resetDay = some p) (hq : periodStart e resetDay = some q) :
    p ≤ q := by
  obtain ⟨p', hp', hpd, hpr, -⟩ := periodStart_spec resetDay hd
  obtain ⟨q', hq', -, -, hmax⟩ := periodStart_spec resetDay he
  rw [hp, Option.some.injEq] at hp'
  rw [hq, Option.some.injEq] at hq'
  subst hp'
  subst hq'
  exact hmax p hpr (hpd.trans hde)

/-! ## The stored text of a date -/

/-- One decimal digit. -/
def digit (n : Nat) : Char := Char.ofNat (48 + n % 10)

/-- The last `width` decimal digits. -/
def digits : Nat → Nat → List Char
  | 0, _ => []
  | width + 1, n => digits width (n / 10) ++ [digit n]

/-- Each digit is its own. -/
theorem digit_injective {m n : Nat} (h : digit m = digit n) : m % 10 = n % 10 := by
  have hm := Nat.mod_lt m (by decide : 0 < 10)
  have hn := Nat.mod_lt n (by decide : 0 < 10)
  unfold digit at h
  revert h
  generalize m % 10 = a at *
  generalize n % 10 = b at *
  revert a b
  decide

/-- A number is written in as many digits as asked for. -/
@[simp] theorem digits_length (width n : Nat) : (digits width n).length = width := by
  induction width generalizing n with
  | zero => rfl
  | succ width ih => simp [digits, ih]

/-- Each number in its own. -/
theorem digits_injective {width m n : Nat} (hm : m < 10 ^ width) (hn : n < 10 ^ width)
    (h : digits width m = digits width n) : m = n := by
  induction width generalizing m n with
  | zero =>
    rw [pow_zero] at hm hn
    omega
  | succ width ih =>
    obtain ⟨hhigh, hlow⟩ := List.append_inj' h rfl
    have hmod := digit_injective (List.singleton_inj.mp hlow)
    rw [pow_succ] at hm hn
    have hdiv := ih (by omega) (by omega) hhigh
    omega

/-- Width of a signed year after its sign. -/
def yearWidth (n : Nat) : Nat := max 4 (Nat.log 10 n + 1)

/-- The year as the library prints it: four digits, or a sign and at least four. -/
def yearText (year : Int) : List Char :=
  if 0 ≤ year ∧ year ≤ 9999 then digits 4 year.toNat
  else (if 0 ≤ year then '+' else '-') :: digits (yearWidth year.natAbs) year.natAbs

/-- A year has room in its digits. -/
theorem lt_yearWidth (n : Nat) : n < 10 ^ yearWidth n := by
  have h := Nat.lt_pow_succ_log_self (by decide : 1 < 10) n
  exact h.trans_le (Nat.pow_le_pow_right (by decide) (Nat.le_max_right _ _))

/-- No digit is a sign. -/
theorem digits_head_ne_sign {width n : Nat} {c : Char} {rest : List Char}
    (h : digits width n = c :: rest) : c ≠ '+' ∧ c ≠ '-' := by
  induction width generalizing n c rest with
  | zero => cases h
  | succ width ih =>
    cases hd : digits width (n / 10) with
    | cons a as =>
      rw [digits, hd, List.cons_append, List.cons.injEq] at h
      rw [← h.1]
      exact ih hd
    | nil =>
      rw [digits, hd, List.nil_append, List.cons.injEq] at h
      rw [← h.1]
      have hn := Nat.mod_lt n (by decide : 0 < 10)
      unfold digit
      generalize n % 10 = a at *
      revert a
      decide

/-- Each year is written in its own way. -/
theorem yearText_injective {x y : Int} (h : yearText x = yearText y) : x = y := by
  unfold yearText at h
  by_cases hx : 0 ≤ x ∧ x ≤ 9999 <;> by_cases hy : 0 ≤ y ∧ y ≤ 9999
  · rw [if_pos hx, if_pos hy] at h
    have he := digits_injective (by omega : x.toNat < 10 ^ 4) (by omega : y.toNat < 10 ^ 4) h
    omega
  · rw [if_pos hx, if_neg hy] at h
    have hs := digits_head_ne_sign h
    by_cases hp : 0 ≤ y
    · exact absurd (if_pos hp) hs.1
    · exact absurd (if_neg hp) hs.2
  · rw [if_neg hx, if_pos hy] at h
    have hs := digits_head_ne_sign h.symm
    by_cases hp : 0 ≤ x
    · exact absurd (if_pos hp) hs.1
    · exact absurd (if_neg hp) hs.2
  · rw [if_neg hx, if_neg hy, List.cons.injEq] at h
    obtain ⟨hsign, hdigits⟩ := h
    have hw : yearWidth x.natAbs = yearWidth y.natAbs := by
      have hl := congrArg List.length hdigits
      rwa [digits_length, digits_length] at hl
    rw [hw] at hdigits
    have hlt := lt_yearWidth x.natAbs
    rw [hw] at hlt
    have habs := digits_injective hlt (lt_yearWidth y.natAbs) hdigits
    have hsame : (0 ≤ x) ↔ (0 ≤ y) := by
      by_cases hpx : 0 ≤ x <;> by_cases hpy : 0 ≤ y <;> simp [hpx, hpy] at hsign ⊢
    omega

/-- `to_string` of a date: year, month and day separated by hyphens. -/
def NaiveDate.toText (d : NaiveDate) : String :=
  String.ofList (yearText d.year ++ ('-' :: digits 2 d.month ++ '-' :: digits 2 d.day))

/-- Equal texts are equal dates, so comparing stored texts compares dates. -/
theorem NaiveDate.toText_injective {d e : NaiveDate} (h : d.toText = e.toText) : d = e := by
  have hl := String.ofList_injective h
  obtain ⟨hyear, hrest⟩ := List.append_inj' hl (by simp)
  rw [List.cons_append, List.cons_append, List.cons.injEq] at hrest
  obtain ⟨hmonth, hday⟩ := List.append_inj hrest.2 (by simp)
  rw [List.cons.injEq] at hday
  have hdm := d.month_range
  have hem := e.month_range
  ext
  · exact yearText_injective hyear
  · exact digits_injective (by omega) (by omega) hmonth
  · exact digits_injective (by have := d.day_lt; omega) (by have := e.day_lt; omega) hday.2

/-- A date's text is never the empty default of a column. -/
theorem NaiveDate.toText_ne_empty (d : NaiveDate) : d.toText ≠ "" := by
  intro h
  have hl := congrArg String.toList h
  simp [NaiveDate.toText] at hl

end Romi.CivilDate
