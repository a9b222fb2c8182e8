import Romi.BillingBoundary

/-!
# Rolling an expiry date over

A node that still reports after its expiry date has been renewed. The date is
moved by one billing cycle at a time until it is not before today; each move
keeps the day, or the last day of a month that is shorter. The moves are counted
in months, which bounds the loop and makes the outcome independent of the days
on which it was run.
-/

namespace Romi.ExpiryRenewal

open BillingBoundary CivilDate

/-! ## The functions -/

/-- `cycle_months`. -/
def cycleMonths (cycle : String) : Option Nat :=
  if cycle = "monthly" then some 1
  else if cycle = "quarterly" then some 3
  else if cycle = "semiannual" then some 6
  else if cycle = "yearly" then some 12
  else if cycle = "biennial" then some 24
  else if cycle = "triennial" then some 36
  else none

/-- A cycle has a month at least. -/
theorem cycleMonths_pos {cycle : String} {months : Nat} (h : cycleMonths cycle = some months) :
    0 < months := by
  unfold cycleMonths at h
  split_ifs at h <;> cases h <;> decide

/-- `checked_add_months`: past the end of the month the day is its last. -/
def checkedAddMonths (d : NaiveDate) (months : Nat) : Option NaiveDate :=
  let m : Int := d.year * 12 + d.month - 1 + months
  let year := m / 12
  let month := (m % 12).toNat + 1
  fromYmdOpt year month (min d.day (daysIn year month))

/-- The loop of `renewed` for a number of rounds. It may still be running; it
stops with nothing when the date leaves the calendar. -/
def roll (months : Nat) (today : NaiveDate) : Nat → NaiveDate → Option (Option NaiveDate)
  | 0, next => if next < today then none else some (some next)
  | rounds + 1, next =>
    if next < today then
      match checkedAddMonths next months with
      | none => some none
      | some after => roll months today rounds after
    else some (some next)

/-- `renewed`, with the rounds its loop is given. -/
def renewedWithin (rounds : Nat) (expires : NaiveDate) (cycle : String) (today : NaiveDate) :
    Option (Option NaiveDate) :=
  match cycleMonths cycle with
  | none => some none
  | some months => (roll months today rounds expires).map fun outcome =>
    outcome.bind fun next => if next ≠ expires then some next else none

/-- The months up to today, and one more: no loop needs as many rounds. -/
def enoughRounds (expires today : NaiveDate) : Nat :=
  (monthIndex today - monthIndex expires).toNat + 1

/-- `renewed`. -/
def renewed (expires : NaiveDate) (cycle : String) (today : NaiveDate) : Option NaiveDate :=
  (renewedWithin (enoughRounds expires today) expires cycle today).join

/-! ## Adding months -/

/-- The last month of the calendar. -/
def lastMonth : Int := maxYear * 12 + 12

/-- No date is after the last month. -/
theorem monthIndex_le (d : NaiveDate) : monthIndex d ≤ lastMonth := by
  have hyear := d.year_range
  have hmonth := d.month_range
  unfold monthIndex lastMonth
  omega

/-- Adding months leads to the same day, or to the last one of its month. -/
theorem checkedAddMonths_eq_some {d e : NaiveDate} {months : Nat} :
    checkedAddMonths d months = some e ↔ monthIndex e = monthIndex d + months ∧
      e.day = min d.day (monthLength (monthIndex d + months - 1)) := by
  have hmonth := e.month_range
  have hindex : d.year * 12 + (d.month : Int) - 1 + months = monthIndex d + months - 1 := by
    unfold monthIndex
    omega
  rw [checkedAddMonths, hindex, fromYmdOpt_eq_some, ← monthLength]
  constructor
  · rintro ⟨hy, hm, hd⟩
    refine ⟨?_, hd⟩
    rw [monthIndex, hy, hm]
    omega
  · rintro ⟨h, hd⟩
    rw [monthIndex] at h
    exact ⟨by omega, by omega, hd⟩

/-- A month is added exactly while the calendar has it. -/
theorem exists_add (d : NaiveDate) {months : Nat} (h : monthIndex d + months ≤ lastMonth) :
    ∃ e, checkedAddMonths d months = some e := by
  have hyear := d.year_range
  have hmonth := d.month_range
  have hday := d.day_range
  have hlength := monthLength_bounds (monthIndex d + months - 1)
  unfold monthIndex lastMonth at *
  refine ⟨⟨(d.year * 12 + d.month + months - 1) / 12,
    ((d.year * 12 + d.month + months - 1) % 12).toNat + 1,
    min d.day (monthLength (d.year * 12 + d.month + months - 1)),
    by omega, by omega, ⟨by omega, Nat.min_le_right _ _⟩⟩, checkedAddMonths_eq_some.mpr ⟨?_, rfl⟩⟩
  unfold monthIndex
  dsimp only
  omega

/-! ## The repeated cycle -/

/-- The expiry date after a number of cycles. -/
def after (months : Nat) : Nat → NaiveDate → Option NaiveDate
  | 0, d => some d
  | n + 1, d => (checkedAddMonths d months).bind (after months n)

section Cycle

variable {months : Nat}

/-- Cycles one after the other. -/
theorem after_add {i n : Nat} {d : NaiveDate} :
    after months (i + n) d = (after months i d).bind (after months n) := by
  induction i generalizing d with
  | zero => rw [Nat.zero_add, after, Option.bind_some]
  | succ i ih =>
    rw [Nat.add_right_comm, after, after, Option.bind_assoc]
    congr 1
    funext next
    exact ih

/-- One cycle more. -/
theorem after_succ {n : Nat} {d : NaiveDate} :
    after months (n + 1) d = (after months n d).bind (checkedAddMonths · months) := by
  rw [after_add]
  congr 1
  funext next
  change (checkedAddMonths next months).bind (after months 0) = _
  cases checkedAddMonths next months <;> rfl

/-- The length of the month a number of cycles leads to. -/
def landing (months : Nat) (d : NaiveDate) (n : Nat) : Nat :=
  monthLength (monthIndex d + n * months - 1)

/-- The day after a number of cycles: the shortest month on the way decides. -/
def shortest (months : Nat) (d : NaiveDate) : Nat → Nat
  | 0 => d.day
  | n + 1 => min (shortest months d n) (landing months d (n + 1))

/-- The shortest day on the way is within each month. -/
theorem le_shortest {d : NaiveDate} {n x : Nat} : x ≤ shortest months d n ↔
    x ≤ d.day ∧ ∀ i < n, x ≤ landing months d (i + 1) := by
  induction n with
  | zero => exact ⟨fun h => ⟨h, nofun⟩, fun h => h.1⟩
  | succ n ih =>
    rw [shortest, le_min_iff, ih, Nat.forall_lt_succ_right, and_assoc]

/-- One cycle more, counted in months. -/
theorem cycle_month (i : Int) (n months : Nat) :
    i + (n + 1 : Nat) * months = i + n * months + months := by
  rw [Nat.cast_succ, add_mul, one_mul, add_assoc]

/-- As long as the calendar has the month, the repeated cycle reaches it. -/
theorem exists_after {n : Nat} {d : NaiveDate} (h : monthIndex d + n * months ≤ lastMonth) :
    ∃ e, after months n d = some e ∧ monthIndex e = monthIndex d + n * months ∧
      e.day = shortest months d n := by
  induction n with
  | zero => exact ⟨d, rfl, by rw [Nat.cast_zero, zero_mul, add_zero], rfl⟩
  | succ n ih =>
    have hmonths := cycle_month (monthIndex d) n months
    obtain ⟨before, hbefore, hmonth, hday⟩ := ih (by omega)
    obtain ⟨e, he⟩ := @exists_add before months (by omega)
    obtain ⟨hm, hd⟩ := checkedAddMonths_eq_some.mp he
    rw [hmonth, ← hmonths] at hm hd
    refine ⟨e, ?_, hm, ?_⟩
    · rw [after_succ, hbefore, Option.bind_some, he]
    · rw [hd, hday, shortest, landing]

/-- The month after so many cycles. -/
theorem after_month {n : Nat} {d e : NaiveDate} (h : after months n d = some e) :
    monthIndex e = monthIndex d + n * months := by
  induction n generalizing e with
  | zero =>
    obtain rfl : d = e := Option.some.inj h
    rw [Nat.cast_zero, zero_mul, add_zero]
  | succ n ih =>
    rw [after_succ, Option.bind_eq_some_iff] at h
    obtain ⟨before, hbefore, he⟩ := h
    rw [cycle_month, ← ih hbefore]
    exact (checkedAddMonths_eq_some.mp he).1

/-- The day after so many cycles. -/
theorem after_day {n : Nat} {d e : NaiveDate} (h : after months n d = some e) :
    e.day = shortest months d n := by
  have hmonth := after_month h
  have hlast := monthIndex_le e
  obtain ⟨e', he', -, hday⟩ := @exists_after months n d (by omega)
  obtain rfl : e' = e := Option.some.inj (he'.symm.trans h)
  exact hday

/-! ## What the loop returns -/

/-- The loop stops after exactly these cycles: all dates before are before today,
and the date they lead to is not, or is past the calendar. -/
structure Stops (months : Nat) (expires today : NaiveDate) (n : Nat) : Prop where
  /-- Every earlier date is past. -/
  before : ∀ i < n, ∃ d, after months i expires = some d ∧ d < today
  /-- This one is not. -/
  last : ∀ d, after months n expires = some d → today ≤ d

/-- There is one such number. -/
theorem Stops.unique {m n : Nat} {expires today : NaiveDate} (h : Stops months expires today m)
    (h' : Stops months expires today n) : m = n := by
  rcases lt_trichotomy m n with hlt | heq | hgt
  · obtain ⟨b, hb, hbefore⟩ := h'.before m hlt
    exact absurd (h.last b hb) (not_le.mpr hbefore)
  · exact heq
  · obtain ⟨b, hb, hbefore⟩ := h.before n hgt
    exact absurd (h'.last b hb) (not_le.mpr hbefore)

/-- The loop ends there, given rounds enough. -/
theorem roll_of_stops {n rounds : Nat} {expires today : NaiveDate}
    (h : Stops months expires today n) (hrounds : n ≤ rounds) :
    roll months today rounds expires = some (after months n expires) := by
  induction n generalizing rounds expires with
  | zero =>
    have hstop : ¬ expires < today := not_lt.mpr (h.last expires rfl)
    cases rounds with
    | zero => rw [roll, if_neg hstop, after]
    | succ rounds => rw [roll, if_neg hstop, after]
  | succ n ih =>
    obtain ⟨rounds, rfl⟩ := Nat.exists_eq_succ_of_ne_zero (Nat.ne_of_gt (Nat.lt_of_lt_of_le n.succ_pos hrounds))
    obtain ⟨d, hd, hlt⟩ := h.before 0 n.succ_pos
    obtain rfl : expires = d := Option.some.inj hd
    rw [roll, if_pos hlt, after]
    cases hadd : checkedAddMonths expires months with
    | none => rfl
    | some next =>
      have hshift : ∀ i, after months (i + 1) expires = after months i next := by
        intro i
        rw [after, hadd, Option.bind_some]
      refine ih ⟨fun i hi => ?_, fun d hd => h.last d ((hshift n).trans hd)⟩ (Nat.le_of_succ_le_succ hrounds)
      rw [← hshift]
      exact h.before (i + 1) (Nat.succ_lt_succ hi)

/-- A cycle of at least one month passes today in no more rounds than enough. -/
theorem exists_stops (hmonths : 0 < months) (expires today : NaiveDate) :
    ∃ n, n ≤ enoughRounds expires today ∧ Stops months expires today n := by
  have hpassed : ∀ d, after months (enoughRounds expires today) expires = some d → today ≤ d := by
    intro d hd
    have hmonth := after_month hd
    have hcycles : (enoughRounds expires today : Int) ≤ enoughRounds expires today * months :=
      le_mul_of_one_le_right (Int.natCast_nonneg _) (by omega)
    have hlater : monthIndex today < monthIndex d := by
      unfold enoughRounds at *
      omega
    rw [NaiveDate.le_iff]
    exact (serial_lt_of_month hlater).le
  -- The first number of cycles whose date, if there is one, is not before today.
  have hexists : ∃ n, ∀ d, after months n expires = some d → today ≤ d := ⟨_, hpassed⟩
  classical
  refine ⟨Nat.find hexists, Nat.find_min' hexists hpassed, fun i hi => ?_, Nat.find_spec hexists⟩
  have hbefore := Nat.find_min hexists hi
  simpa only [not_forall, not_le, exists_prop] using hbefore

/-- So does the roll-forward. -/
theorem renewedWithin_of_stops {n rounds : Nat} {expires today : NaiveDate} {cycle : String}
    (hcycle : cycleMonths cycle = some months) (h : Stops months expires today n)
    (hrounds : n ≤ rounds) : renewedWithin rounds expires cycle today =
      some ((after months n expires).bind fun next => if next ≠ expires then some next else none) := by
  rw [renewedWithin, hcycle]
  dsimp only
  rw [roll_of_stops h hrounds, Option.map_some]

/-- And so it does within the rounds the code has. -/
theorem renewed_of_stops {n : Nat} {expires today : NaiveDate} {cycle : String}
    (hcycle : cycleMonths cycle = some months) (h : Stops months expires today n) :
    renewed expires cycle today =
      (after months n expires).bind fun next => if next ≠ expires then some next else none := by
  obtain ⟨m, hrounds, hstops⟩ := exists_stops (cycleMonths_pos hcycle) expires today
  obtain rfl := hstops.unique h
  rw [renewed, renewedWithin_of_stops hcycle h hrounds, Option.join_some]

end Cycle

/-! ## Where the sequence leads -/

/-- Inside the calendar: some date of the repeated cycle is not before today. -/
def Reaches (months : Nat) (expires today : NaiveDate) : Prop :=
  ∃ n next, after months n expires = some next ∧ today ≤ next

/-- The first date of the repeated cycle that is not before today. -/
structure FirstDue (months : Nat) (expires today : NaiveDate) (n : Nat) (next : NaiveDate) : Prop where
  /-- Every earlier date is past. -/
  stops : Stops months expires today n
  /-- This is the date. -/
  reached : after months n expires = some next

/-- It is not past. -/
theorem FirstDue.le {months n : Nat} {expires today next : NaiveDate}
    (h : FirstDue months expires today n next) : today ≤ next :=
  h.stops.last next h.reached

/-- What the node's date becomes: the renewed date, or what it was. -/
def due (cycle : String) (expires today : NaiveDate) : NaiveDate :=
  (renewed expires cycle today).getD expires

section Due

variable {months : Nat} {cycle : String}

/-- Every date before a date of the sequence exists and is before it. -/
theorem after_lt (hmonths : 0 < months) {i n : Nat} (hi : i < n) {d e : NaiveDate}
    (h : after months n d = some e) : ∃ b, after months i d = some b ∧ b < e := by
  have hsplit : n = i + (n - i) := by omega
  rw [hsplit, after_add, Option.bind_eq_some_iff] at h
  obtain ⟨b, hb, he⟩ := h
  refine ⟨b, hb, ?_⟩
  have hmonth := after_month he
  have hcycles : ((n - i : Nat) : Int) ≤ (n - i : Nat) * months :=
    le_mul_of_one_le_right (Int.natCast_nonneg _) (by omega)
  rw [NaiveDate.lt_iff]
  exact serial_lt_of_month (by omega)

/-- A sequence that reaches today has a first date that does, within enough rounds. -/
theorem exists_firstDue (hmonths : 0 < months) {expires today : NaiveDate}
    (h : Reaches months expires today) :
    ∃ n next, n ≤ enoughRounds expires today ∧ FirstDue months expires today n next := by
  obtain ⟨k, d, hd, hle⟩ := h
  obtain ⟨n, hrounds, hstops⟩ := exists_stops hmonths expires today
  have hnk : n ≤ k := by
    by_contra hlt
    obtain ⟨b, hb, hbefore⟩ := hstops.before k (not_le.mp hlt)
    obtain rfl : b = d := Option.some.inj (hb.symm.trans hd)
    exact absurd hle (not_le.mpr hbefore)
  rcases hnk.lt_or_eq with hlt | rfl
  · obtain ⟨next, hnext, -⟩ := after_lt hmonths hlt hd
    exact ⟨n, next, hrounds, hstops, hnext⟩
  · exact ⟨n, d, hrounds, hstops, hd⟩

variable (hcycle : cycleMonths cycle = some months)

include hcycle

/-- The renewed date is the first that is due, and none when that is the date itself. -/
theorem renewed_of_firstDue {expires today next : NaiveDate} {n : Nat}
    (h : FirstDue months expires today n next) :
    renewed expires cycle today = if n = 0 then none else some next := by
  have hmonths := cycleMonths_pos hcycle
  rw [renewed_of_stops hcycle h.stops, h.reached, Option.bind_some]
  by_cases hzero : n = 0
  · subst hzero
    obtain rfl : expires = next := Option.some.inj h.reached
    rw [if_pos rfl, if_neg (by simp)]
  · obtain ⟨b, hb, hlt⟩ := after_lt hmonths (Nat.pos_of_ne_zero hzero) h.reached
    obtain rfl : expires = b := Option.some.inj hb
    rw [if_neg hzero, if_pos hlt.ne']

/-- It is the date that is due. -/
theorem due_of_firstDue {expires today next : NaiveDate} {n : Nat}
    (h : FirstDue months expires today n next) : due cycle expires today = next := by
  rw [due, renewed_of_firstDue hcycle h]
  split_ifs with hzero
  · subst hzero
    exact Option.some.inj h.reached
  · rfl

/-- A stop on an earlier day does not change what is due today. -/
theorem due_due {expires day today : NaiveDate} (hle : day ≤ today)
    (h : Reaches months expires today) :
    Reaches months (due cycle expires day) today ∧
      due cycle (due cycle expires day) today = due cycle expires today := by
  have hmonths := cycleMonths_pos hcycle
  obtain ⟨n, next, -, hfirst⟩ := exists_firstDue hmonths h
  obtain ⟨k, stop, -, hstop⟩ := exists_firstDue hmonths ⟨n, next, hfirst.reached, hle.trans hfirst.le⟩
  have hkn : k ≤ n := by
    by_contra hlt
    obtain ⟨b, hb, hbefore⟩ := hstop.stops.before n (not_le.mp hlt)
    obtain rfl : b = next := Option.some.inj (hb.symm.trans hfirst.reached)
    exact absurd (hle.trans hfirst.le) (not_le.mpr hbefore)
  have hshift : ∀ i, after months i stop = after months (k + i) expires := by
    intro i
    rw [after_add, hstop.reached, Option.bind_some]
  have hrest : FirstDue months stop today (n - k) next := by
    refine ⟨⟨fun i hi => ?_, fun d hd => ?_⟩, ?_⟩
    · rw [hshift]
      exact hfirst.stops.before (k + i) (by omega)
    · rw [hshift, Nat.add_sub_cancel' hkn] at hd
      exact hfirst.stops.last d hd
    · rw [hshift, Nat.add_sub_cancel' hkn]
      exact hfirst.reached
  rw [due_of_firstDue hcycle hstop, due_of_firstDue hcycle hrest, due_of_firstDue hcycle hfirst]
  exact ⟨⟨n - k, next, hrest.reached, hfirst.le⟩, rfl⟩

/-- Nor do any number of them, in any order. -/
theorem due_foldl {days : List NaiveDate} {expires today : NaiveDate}
    (hdays : ∀ day ∈ days, day ≤ today) (h : Reaches months expires today) :
    due cycle (days.foldl (due cycle) expires) today = due cycle expires today := by
  induction days generalizing expires with
  | nil => rfl
  | cons day days ih =>
    obtain ⟨hreach, hsame⟩ := due_due hcycle (hdays day List.mem_cons_self) h
    rw [List.foldl_cons, ih (fun d hd => hdays d (List.mem_cons_of_mem day hd)) hreach, hsame]

end Due

/-! ## When the day is kept -/

/-- The number of cycles that make up for the time since the expiry date: up to
today's month, and one more when that is where they end and the expiry's day, or
a month landed in, is too short for today's day. -/
def cyclesDue (months : Nat) (expires today : NaiveDate) : Nat :=
  let n := ((monthIndex today - monthIndex expires).toNat + months - 1) / months
  if monthIndex expires + n * months = monthIndex today ∧
      (expires.day < today.day ∨ ∃ i < n, landing months expires (i + 1) < today.day) then n + 1
  else n

/-- The cycles due do not pass through a month that is shorter than both the
expiry's day and the month they end in. -/
def KeepsDay (expires : NaiveDate) (cycle : String) (today : NaiveDate) : Prop :=
  ∀ months, cycleMonths cycle = some months → expires < today →
    let n := cyclesDue months expires today
    monthIndex expires + n * months ≤ lastMonth →
      ∀ i, i + 1 < n → min expires.day (landing months expires n) ≤ landing months expires (i + 1)

section Keeps

variable {months : Nat} {expires today : NaiveDate}

/-- In today's month it is the days that are compared. -/
theorem le_of_month {d e : NaiveDate} (h : monthIndex d = monthIndex e) : d ≤ e ↔ d.day ≤ e.day := by
  obtain ⟨hy, hm⟩ := same_month h
  rw [NaiveDate.le_iff, NaiveDate.serial, NaiveDate.serial, hy, hm]
  omega

/-- The loop takes the cycles that are due. -/
theorem stops_cyclesDue (hmonths : 0 < months) (hlt : expires < today) :
    Stops months expires today (cyclesDue months expires today) := by
  have hahead : monthIndex expires ≤ monthIndex today := month_le_of_serial hlt.le
  have hlast := monthIndex_le today
  generalize hn : ((monthIndex today - monthIndex expires).toNat + months - 1) / months = n
  have hdiv := Nat.div_add_mod ((monthIndex today - monthIndex expires).toNat + months - 1) months
  have hmod := Nat.mod_lt ((monthIndex today - monthIndex expires).toNat + months - 1) hmonths
  rw [hn, Nat.mul_comm] at hdiv
  have hcycles : (n : Int) * months = ((n * months : Nat) : Int) := (Nat.cast_mul n months).symm
  have hreach : monthIndex today ≤ monthIndex expires + n * months := by omega
  have hfew : ∀ i < n, monthIndex expires + i * months < monthIndex today := by
    intro i hi
    have hstep : (i + 1) * months ≤ n * months := Nat.mul_le_mul_right months hi
    rw [Nat.add_mul, Nat.one_mul] at hstep
    have hcast : (i : Int) * months = ((i * months : Nat) : Int) := (Nat.cast_mul i months).symm
    omega
  have hearlier : ∀ i < n, ∃ d, after months i expires = some d ∧ d < today := by
    intro i hi
    have hmonth := hfew i hi
    obtain ⟨d, hd, hindex, -⟩ := @exists_after months i expires (by omega)
    refine ⟨d, hd, ?_⟩
    rw [NaiveDate.lt_iff]
    exact serial_lt_of_month (hindex ▸ hmonth)
  unfold cyclesDue
  simp only [hn]
  split_ifs with hpassed
  · obtain ⟨hsame, hshort⟩ := hpassed
    obtain ⟨d, hd, hindex, hday⟩ := @exists_after months n expires (by omega)
    have hbefore : d < today := by
      rw [← not_le, le_of_month (by omega), hday, le_shortest, not_and_or, not_le]
      refine hshort.imp id fun h => ?_
      obtain ⟨i, hi, hlength⟩ := h
      exact fun hall => absurd (hall i hi) (not_le.mpr hlength)
    refine ⟨fun i hi => ?_, fun e he => ?_⟩
    · rcases (Nat.le_of_lt_succ hi).lt_or_eq with hin | rfl
      · exact hearlier i hin
      · exact ⟨d, hd, hbefore⟩
    · have hmonth := after_month he
      rw [cycle_month] at hmonth
      rw [NaiveDate.le_iff]
      exact (serial_lt_of_month (by omega)).le
  · refine ⟨hearlier, fun e he => ?_⟩
    have hmonth := after_month he
    rcases hreach.lt_or_eq with hpast | hsame
    · rw [NaiveDate.le_iff]
      exact (serial_lt_of_month (by omega)).le
    · rw [not_and_or, not_or, not_exists] at hpassed
      obtain hdiff | ⟨hexpiry, hlanding⟩ := hpassed
      · exact absurd hsame.symm hdiff
      · rw [le_of_month (by omega), after_day he, le_shortest]
        exact ⟨not_lt.mp hexpiry, fun i hi => not_lt.mp fun h => hlanding i ⟨hi, h⟩⟩

/-- When and to what a date is rolled forward. -/
theorem renewed_eq_some {cycle : String} (hcycle : cycleMonths cycle = some months)
    {next : NaiveDate} : renewed expires cycle today = some next ↔
      expires < today ∧ after months (cyclesDue months expires today) expires = some next := by
  have hmonths := cycleMonths_pos hcycle
  constructor
  · intro h
    have hlt : expires < today := by
      by_contra hge
      have hstops : Stops months expires today 0 :=
        ⟨nofun, fun d hd => Option.some.inj hd ▸ not_lt.mp hge⟩
      rw [renewed_of_stops hcycle hstops, after, Option.bind_some, if_neg (by simp)] at h
      cases h
    rw [renewed_of_stops hcycle (stops_cyclesDue hmonths hlt), Option.bind_eq_some_iff] at h
    obtain ⟨d, hd, hnext⟩ := h
    split_ifs at hnext
    exact ⟨hlt, hd.trans hnext⟩
  · rintro ⟨hlt, hnext⟩
    have hstops := stops_cyclesDue hmonths hlt
    have hle : today ≤ next := hstops.last next hnext
    rw [renewed_of_stops hcycle hstops, hnext, Option.bind_some, if_pos (hlt.trans_le hle).ne']

/-- One move by all the months at once keeps the day when no month on the way is too short. -/
theorem direct_iff {n : Nat} (hn : 0 < n) {next : NaiveDate}
    (h : after months n expires = some next) :
    (∃ k, 1 ≤ k ∧ checkedAddMonths expires (k * months) = some next) ↔
      ∀ i, i + 1 < n → min expires.day (landing months expires n) ≤ landing months expires (i + 1) := by
  obtain ⟨n, rfl⟩ := Nat.exists_eq_succ_of_ne_zero hn.ne'
  have hmonth := after_month h
  have hday := after_day h
  have hdirect : (∃ k, 1 ≤ k ∧ checkedAddMonths expires (k * months) = some next) ↔
      next.day = min expires.day (landing months expires (n + 1)) := by
    constructor
    · rintro ⟨k, -, hk⟩
      obtain ⟨hindex, hd⟩ := checkedAddMonths_eq_some.mp hk
      rw [← hindex, hmonth] at hd
      exact hd
    · intro hd
      refine ⟨n + 1, Nat.le_add_left 1 n, checkedAddMonths_eq_some.mpr ⟨?_, ?_⟩⟩
      · rw [hmonth, Nat.cast_mul]
      · rw [hd, landing, Nat.cast_mul]
  rw [hdirect, hday]
  constructor
  · intro heq i hi
    have hle := le_shortest.mp heq.ge
    exact hle.2 i (by omega)
  · intro hall
    apply le_antisymm
    · exact le_min (le_shortest.mp le_rfl).1 ((le_shortest.mp le_rfl).2 n (Nat.lt_succ_self n))
    · refine le_shortest.mpr ⟨min_le_left _ _, fun i hi => ?_⟩
      rcases (Nat.le_of_lt_succ hi).lt_or_eq with hin | rfl
      · exact hall i (Nat.succ_lt_succ hin)
      · exact min_le_right _ _

end Keeps

/-- A recurring cycle whose dates reach today inside the calendar: the loop stops
and stays stopped however long it is run, with the first date of the repeated
cycle that is not before today, and leaves a date alone that is not before today
already; renewing on any days up to today first does not change the outcome. -/
theorem renewal_minimal {cycle : String} {months : Nat} (hcycle : cycleMonths cycle = some months)
    {expires today : NaiveDate} (hreach : Reaches months expires today) :
    (∀ rounds, enoughRounds expires today ≤ rounds →
      renewedWithin rounds expires cycle today = some (renewed expires cycle today)) ∧
    (∃ n next, FirstDue months expires today n next ∧
      renewed expires cycle today = if expires < today then some next else none) ∧
    ∀ days : List NaiveDate, (∀ day ∈ days, day ≤ today) →
      due cycle (days.foldl (due cycle) expires) today = due cycle expires today := by
  obtain ⟨n, next, hrounds, hfirst⟩ := exists_firstDue (cycleMonths_pos hcycle) hreach
  refine ⟨fun rounds henough => ?_, ⟨n, next, hfirst, ?_⟩, fun days hdays => due_foldl hcycle hdays hreach⟩
  · rw [renewedWithin_of_stops hcycle hfirst.stops (hrounds.trans henough),
      renewed_of_stops hcycle hfirst.stops]
  · rw [renewed_of_firstDue hcycle hfirst]
    cases n with
    | zero => rw [if_pos rfl, if_neg (not_lt.mpr (hfirst.stops.last expires rfl))]
    | succ n =>
      obtain ⟨d, hd, hlt⟩ := hfirst.stops.before 0 n.succ_pos
      obtain rfl : expires = d := Option.some.inj hd
      rw [if_neg n.succ_ne_zero, if_pos hlt]

/-- Renewed on 2 March, a plan that ended on 31 January has its first date in March. -/
theorem renewal_minimal_march :
    let expires : NaiveDate := ⟨2026, 1, 31, by decide, by decide, by decide⟩
    let today : NaiveDate := ⟨2026, 3, 2, by decide, by decide, by decide⟩
    (∀ rounds, enoughRounds expires today ≤ rounds →
      renewedWithin rounds expires "monthly" today = some (renewed expires "monthly" today)) ∧
    (∃ n next, FirstDue 1 expires today n next ∧
      renewed expires "monthly" today = if expires < today then some next else none) ∧
    ∀ days : List NaiveDate, (∀ day ∈ days, day ≤ today) →
      due "monthly" (days.foldl (due "monthly") expires) today = due "monthly" expires today :=
  renewal_minimal rfl ⟨2, ⟨2026, 3, 28, by decide, by decide, by decide⟩, by decide, by decide⟩

/-- The date that is returned is the expiry date moved by whole cycles at once,
with the day moved back for the last month only, exactly when the cycles due do
not pass through a month that is too short. -/
theorem renewed_direct_iff (expires : NaiveDate) (cycle : String) (today : NaiveDate) :
    (∀ months next, cycleMonths cycle = some months → renewed expires cycle today = some next →
      ∃ k, 1 ≤ k ∧ checkedAddMonths expires (k * months) = some next) ↔
    KeepsDay expires cycle today := by
  constructor
  · intro h months hcycle hlt n hlast i hi
    obtain ⟨next, hnext, -⟩ := exists_after hlast
    have hdirect := h months next hcycle ((renewed_eq_some hcycle).mpr ⟨hlt, hnext⟩)
    exact (direct_iff (by omega) hnext).mp hdirect i hi
  · intro h months next hcycle hrenewed
    obtain ⟨hlt, hnext⟩ := (renewed_eq_some hcycle).mp hrenewed
    have hpos : 0 < cyclesDue months expires today := by
      by_contra hzero
      have hstops := stops_cyclesDue (cycleMonths_pos hcycle) hlt
      rw [Nat.eq_zero_of_not_pos hzero] at hstops
      exact absurd hlt (not_lt.mpr (hstops.last expires rfl))
    have hlast := monthIndex_le next
    rw [after_month hnext] at hlast
    exact (direct_iff hpos hnext).mpr (h months hcycle hlt hlast)

/-- A monthly plan that ended on 31 January is next due on 28 March, not on the 31st. -/
theorem renewed_drifts :
    ¬ ∀ (expires : NaiveDate) (cycle : String) (today : NaiveDate) (months : Nat) (next : NaiveDate),
      cycleMonths cycle = some months → renewed expires cycle today = some next →
        ∃ k, 1 ≤ k ∧ checkedAddMonths expires (k * months) = some next := by
  intro h
  obtain ⟨k, -, hk⟩ := h ⟨2026, 1, 31, by decide, by decide, by decide⟩ "monthly"
    ⟨2026, 3, 1, by decide, by decide, by decide⟩ 1
    ⟨2026, 3, 28, by decide, by decide, by decide⟩ rfl (by decide)
  obtain ⟨hmonth, hday⟩ := checkedAddMonths_eq_some.mp hk
  have hcycles : ((k * 1 : Nat) : Int) = 2 := by
    unfold monthIndex at hmonth
    dsimp only at hmonth
    omega
  rw [hcycles] at hday
  exact absurd hday (by decide)

end Romi.ExpiryRenewal
