import Mathlib
import Romi.StoreJobs

/-!
# What a node's traffic row holds after any number of reports

A run mixes reports with edits of the node. Each present reading books the
climb over the reading before it; the bookings of a run determine every figure
of the row, one direction at a time.
-/

namespace Romi.TrafficConservation

open CachedTransactions CivilDate JsonValue KeyedTable SaturatingSum StoreGuard StoreJobs
  StoreSchema TrafficFold

/-! ## Bookings -/

/-- What one present reading adds, and the dates its report bears. -/
structure Booking where
  /-- First day of the period the report is dated in. -/
  period : NaiveDate
  /-- Day the report is dated. -/
  day : NaiveDate
  /-- The climb over the reading before. -/
  bytes : Int

/-- The bookings of a list of reports, each with the reset day in force, from
the baseline left by an earlier reading. Reports without a reading are passed
over. -/
def bookings : String × Int → List (Int × LaneReport) → List Booking
  | _, [] => []
  | base, (resetDay, r) :: rest =>
    match r.counter with
    | none => bookings base rest
    | some c =>
      ⟨r.clock.periodStart resetDay, r.clock.day, climb base (r.bootId, c)⟩ ::
        bookings (r.bootId, c) rest

/-- The bytes of some bookings. -/
def booked (list : List Booking) : Int := (list.map Booking.bytes).sum

/-- The bytes booked on one day. -/
def bookedOn (d : NaiveDate) (list : List Booking) : Int := booked (list.filter fun b => b.day = d)

/-- The bytes booked in one period. -/
def bookedIn (p : NaiveDate) (list : List Booking) : Int :=
  booked (list.filter fun b => b.period = p)

/-- A report without a reading is passed over. -/
theorem bookings_unread {base : String × Int} {resetDay : Int} {r : LaneReport}
    (rest : List (Int × LaneReport)) (h : r.counter = none) :
    bookings base ((resetDay, r) :: rest) = bookings base rest := by
  rw [bookings, h]

/-- A reading books its climb and becomes the baseline. -/
theorem booked_reading {base : String × Int} {resetDay c : Int} {r : LaneReport}
    (rest : List (Int × LaneReport)) (h : r.counter = some c) :
    booked (bookings base ((resetDay, r) :: rest)) =
      climb base (r.bootId, c) + booked (bookings (r.bootId, c) rest) := by
  rw [bookings, h]
  exact List.sum_cons

/-- One direction through a list of reports. -/
def Lane.run (l : Lane) (reports : List (Int × LaneReport)) : Lane :=
  reports.foldl (fun l x => l.report x.1 x.2) l

/-- A lane's numbers stay counts through a run. -/
theorem Lane.sound_run {l : Lane} (hl : l.Sound) {reports : List (Int × LaneReport)}
    (hr : ∀ x ∈ reports, x.2.Sound) : (Lane.run l reports).Sound := by
  induction reports generalizing l with
  | nil => exact hl
  | cons x rest ih =>
    have hx := hr x List.mem_cons_self
    exact ih (hl.report x.1 hx) fun y hy => hr y (List.mem_cons_of_mem x hy)

/-- Every booking is a count. -/
theorem bookings_counted (base : String × Int) (hb : Counted base.2)
    {reports : List (Int × LaneReport)} (hr : ∀ x ∈ reports, x.2.Sound) :
    ∀ b ∈ bookings base reports, Counted b.bytes := by
  induction reports generalizing base with
  | nil => exact fun b hmem => by cases hmem
  | cons x rest ih =>
    obtain ⟨resetDay, r⟩ := x
    have hrest : ∀ y ∈ rest, y.2.Sound := fun y hy => hr y (List.mem_cons_of_mem _ hy)
    rw [bookings]
    cases hc : r.counter with
    | none => exact ih base hb hrest
    | some c =>
      have hcount : Counted c := hr (resetDay, r) List.mem_cons_self c hc
      intro b hmem
      rcases List.mem_cons.mp hmem with rfl | hmem
      · exact climb_counted hb hcount
      · exact ih (r.bootId, c) hcount hrest b hmem

/-- A run's total adds up its bookings, and its day and month counters restart
on the stamps its bookings bear. -/
theorem Lane.run_folds (l : Lane) (reports : List (Int × LaneReport)) :
    (Lane.run l reports).total =
        ((bookings l.baseline reports).map Booking.bytes).foldl (capAdd i64Max) l.total ∧
      ((Lane.run l reports).dayStart, (Lane.run l reports).day) =
        ((bookings l.baseline reports).map fun b => (b.day.toText, b.bytes)).foldl
          (restart i64Max) (l.dayStart, l.day) ∧
      ((Lane.run l reports).monthStart, (Lane.run l reports).month) =
        ((bookings l.baseline reports).map fun b => (b.period.toText, b.bytes)).foldl
          (restart i64Max) (l.monthStart, l.month) := by
  induction reports generalizing l with
  | nil => exact ⟨rfl, rfl, rfl⟩
  | cons x rest ih =>
    obtain ⟨resetDay, r⟩ := x
    have hstep := ih (l.report resetDay r)
    cases hc : r.counter with
    | none =>
      have hsame : l.report resetDay r = l := by rw [Lane.report, hc]
      have hpass : bookings l.baseline ((resetDay, r) :: rest) = bookings l.baseline rest := by
        rw [bookings, hc]
      rw [hsame] at hstep
      rw [hpass]
      rw [show Lane.run l ((resetDay, r) :: rest) = Lane.run (l.report resetDay r) rest from rfl,
        hsame]
      exact hstep
    | some c =>
      have hnext : l.report resetDay r =
          { bootId := r.bootId
            last := c
            total := capAdd i64Max l.total (climb l.baseline (r.bootId, c))
            month := restarted l.monthStart (r.clock.periodStart resetDay).toText l.month
              (climb l.baseline (r.bootId, c))
            monthStart := (r.clock.periodStart resetDay).toText
            day := restarted l.dayStart r.clock.day.toText l.day (climb l.baseline (r.bootId, c))
            dayStart := r.clock.day.toText } := by
        rw [Lane.report, hc]
      have hcons : bookings l.baseline ((resetDay, r) :: rest) =
          ⟨r.clock.periodStart resetDay, r.clock.day, climb l.baseline (r.bootId, c)⟩ ::
            bookings (r.bootId, c) rest := by
        rw [bookings, hc]
      rw [show Lane.run l ((resetDay, r) :: rest) = Lane.run (l.report resetDay r) rest from rfl,
        hcons]
      rw [hnext] at hstep ⊢
      exact hstep

/-- The lifetime total after a run is the capped sum of the bookings. -/
theorem Lane.run_total {l : Lane} (hl : l.Sound) {reports : List (Int × LaneReport)}
    (hr : ∀ x ∈ reports, x.2.Sound) :
    (Lane.run l reports).total = min i64Max (l.total + booked (bookings l.baseline reports)) := by
  have hpos : ∀ n ∈ (bookings l.baseline reports).map Booking.bytes, 0 ≤ n := by
    intro n hn
    obtain ⟨b, hb, rfl⟩ := List.mem_map.mp hn
    exact (bookings_counted l.baseline hl.last hr b hb).1
  rw [(Lane.run_folds l reports).1, foldl_capAdd _ hpos l.total hl.total.2]
  rfl

/-- Bookings selected by a stamp sum to the library's stamped sum. -/
theorem stampedSum_bookings {stamp : Booking → NaiveDate} (d : NaiveDate) (list : List Booking) :
    stampedSum d.toText (list.map fun b => ((stamp b).toText, b.bytes)) =
      booked (list.filter fun b => stamp b = d) := by
  induction list with
  | nil => rfl
  | cons b rest ih =>
    rw [List.map_cons, stampedSum_cons, ih]
    by_cases h : stamp b = d
    · rw [List.filter_cons_of_pos (by simpa using h), if_pos (by rw [h])]
      rfl
    · have htext : (stamp b).toText ≠ d.toText := fun he => h (NaiveDate.toText_injective he)
      rw [List.filter_cons_of_neg (by simpa using h), if_neg htext, zero_add]

/-- The dates of the bookings are those of the reports that had a reading. -/
theorem bookings_days (base : String × Int) (reports : List (Int × LaneReport)) :
    ((bookings base reports).map Booking.day).Sublist (reports.map fun x => x.2.clock.day) := by
  induction reports generalizing base with
  | nil => exact List.Sublist.slnil
  | cons x rest ih =>
    obtain ⟨resetDay, r⟩ := x
    rw [bookings]
    cases r.counter with
    | none => exact (ih base).cons _
    | some c => exact (ih (r.bootId, c)).cons_cons _

/-- The periods of the bookings are those of the reports. -/
theorem bookings_periods (base : String × Int) (reports : List (Int × LaneReport)) :
    ((bookings base reports).map Booking.period).Sublist
      (reports.map fun x => x.2.clock.periodStart x.1) := by
  induction reports generalizing base with
  | nil => exact List.Sublist.slnil
  | cons x rest ih =>
    obtain ⟨resetDay, r⟩ := x
    rw [bookings]
    cases r.counter with
    | none => exact (ih base).cons _
    | some c => exact (ih (r.bootId, c)).cons_cons _

/-! ## Runs of the store -/

/-- What may happen to a node between two looks at its traffic row. -/
inductive Event
  /-- A report is folded in. -/
  | report (r : Report)
  /-- The panel edits the node. -/
  | edit (p : NodePatch)

/-- The reports of a run. -/
def Event.report? : Event → Option Report
  | .report r => some r
  | .edit _ => none

/-- An edit that leaves the reset day alone. -/
def Event.KeepsResetDay : Event → Prop
  | .report _ => True
  | .edit p => p.trafficResetDay = none

/-- A node that is edited stays the same one. -/
theorem applyTo_id (p : NodePatch) (r : NodeRow) : (p.applyTo r).id = r.id := rfl

/-- The store after one event; a call that fails changes nothing. -/
def Event.apply (nodeId : Int) (db : Store) : Event → Store
  | .report r =>
    match accumulateOn nodeId r db with
    | .ok (_, db') => db'
    | .error _ => db
  | .edit p => updateNodeRow nodeId p.applyTo (applyTo_id p) db

/-- The store after a run. -/
def after (nodeId : Int) (db : Store) (events : List Event) : Store :=
  events.foldl (Event.apply nodeId) db

/-- An answered `accumulate` left the store a report event leaves. -/
theorem accumulate_db {nodeId : Int} {r : Report} {s s' : Session Store Guard}
    {t : Option Traffic} (hknown : nodeId ∈ s.cache.nodes)
    (h : accumulate nodeId r s = (.ok t, s')) :
    s'.db = (Event.report r).apply nodeId s.db := by
  obtain ⟨known, s₁, hread, h⟩ := Job.bind_ok h
  obtain ⟨rfl, rfl⟩ := Job.readCache_ok hread
  rw [if_pos hknown] at h
  obtain ⟨folded, s₂, hfold, h⟩ := Job.bind_ok h
  obtain ⟨-, rfl⟩ := Job.pure_ok h
  obtain ⟨hdb, -⟩ := Job.statement_ok hfold
  rw [Event.apply, hdb]

/-- A node with its traffic row and the reset day in force. -/
structure Holds (nodeId : Int) (db : Store) (row : TrafficRow) (resetDay : Int) : Prop where
  /-- These are its counters. -/
  traffic : db.traffic.find? nodeId = some row
  /-- This is the day its periods begin on. -/
  node : (db.node.find? nodeId).map NodeRow.trafficResetDay = some resetDay

/-- The reset day after an edit. -/
def resetDayAfter (resetDay : Int) : Event → Int
  | .report _ => resetDay
  | .edit p => (p.trafficResetDay.map Int.ofNat).getD resetDay

/-- The traffic row after an event. -/
def rowAfter (resetDay : Int) (row : TrafficRow) : Event → TrafficRow
  | .report r => foldRow row resetDay r
  | .edit _ => row

/-- A row is found as it was changed. -/
theorem find?_updateNodeRow {id k : Int} {f : NodeRow → NodeRow} (hf : ∀ r, (f r).id = r.id)
    (db : Store) : (updateNodeRow id f hf db).node.find? k =
      (db.node.find? k).map fun r => if r.id = id then f r else r :=
  Table.find?_updateWhere hf

/-- The store's run acts on the row as the fold does. -/
theorem Holds.apply {nodeId : Int} {db : Store} {row : TrafficRow} {resetDay : Int}
    (h : Holds nodeId db row resetDay) (e : Event) :
    Holds nodeId (e.apply nodeId db) (rowAfter resetDay row e) (resetDayAfter resetDay e) := by
  obtain ⟨n, hn, rfl⟩ := Option.map_eq_some_iff.mp h.node
  have hid : row.nodeId = nodeId := (Table.find?_eq_some.mp h.traffic).2
  have hnid : n.id = nodeId := (Table.find?_eq_some.mp hn).2
  cases e with
  | report r =>
    have hok : ∃ t db', accumulateOn nodeId r db = .ok (t, db') ∧
        db'.traffic.find? nodeId = some (foldRow row n.trafficResetDay r) ∧ db'.node = db.node := by
      unfold accumulateOn
      rw [h.traffic, hn]
      refine ⟨_, _, rfl, ?_, rfl⟩
      dsimp only
      rw [Table.find?_updateWhere, h.traffic, Option.map_some, if_pos hid]
      rfl
    obtain ⟨t, db', hdb, htraffic, hnode⟩ := hok
    rw [Event.apply, hdb]
    refine ⟨htraffic, ?_⟩
    dsimp only
    rw [hnode]
    exact h.node
  | edit p =>
    refine ⟨h.traffic, ?_⟩
    have hf : ∀ r, (p.applyTo r).id = r.id := fun _ => rfl
    change ((updateNodeRow nodeId p.applyTo hf db).node.find? nodeId).map NodeRow.trafficResetDay = _
    rw [find?_updateNodeRow, hn, Option.map_some, Option.map_some, if_pos hnid]
    rfl

/-- The reports of a run, each with the reset day in force when it arrives. -/
def stamped : Int → List Event → List (Int × Report)
  | _, [] => []
  | resetDay, .report r :: rest => (resetDay, r) :: stamped resetDay rest
  | resetDay, .edit p :: rest => stamped (resetDayAfter resetDay (.edit p)) rest

/-- The stamped reports as one direction sees them. -/
def stampedLane (dir : Direction) (resetDay : Int) (events : List Event) : List (Int × LaneReport) :=
  (stamped resetDay events).map fun x => (x.1, x.2.lane dir)

/-- The reports among the events. -/
theorem map_stamped (resetDay : Int) (events : List Event) :
    (stamped resetDay events).map Prod.snd = events.filterMap Event.report? := by
  induction events generalizing resetDay with
  | nil => rfl
  | cons e rest ih =>
    cases e with
    | report r => exact congrArg (r :: ·) (ih resetDay)
    | edit p => exact ih _

/-- A report with its reset day is one of them. -/
theorem mem_stamped {resetDay : Int} {events : List Event} {x : Int × Report}
    (h : x ∈ stamped resetDay events) : x.2 ∈ events.filterMap Event.report? := by
  rw [← map_stamped resetDay]
  exact List.mem_map_of_mem h

/-- Without an edit of the reset day every report meets the same one. -/
theorem stamped_resetDay {resetDay : Int} {events : List Event}
    (h : ∀ e ∈ events, e.KeepsResetDay) : ∀ x ∈ stamped resetDay events, x.1 = resetDay := by
  induction events with
  | nil => exact fun x hx => by cases hx
  | cons e rest ih =>
    have hrest := ih fun e he => h e (List.mem_cons_of_mem _ he)
    cases e with
    | report r =>
      intro x hx
      rcases List.mem_cons.mp hx with rfl | hx
      · rfl
      · exact hrest x hx
    | edit p =>
      have hkeep : p.trafficResetDay = none := h (.edit p) List.mem_cons_self
      rw [stamped, resetDayAfter, hkeep]
      exact hrest

/-- Every report's readings are counts. -/
def Readable (events : List Event) : Prop :=
  ∀ r ∈ events.filterMap Event.report?, ∀ dir, (r.lane dir).Sound

/-- Each direction of a readable report is sound. -/
theorem stampedLane_sound {events : List Event} (h : Readable events) (dir : Direction)
    (resetDay : Int) : ∀ x ∈ stampedLane dir resetDay events, x.2.Sound := by
  intro x hx
  obtain ⟨y, hy, rfl⟩ := List.mem_map.mp hx
  exact h _ (mem_stamped hy) dir

/-- A run leaves a row each direction of which is that direction's own run. -/
theorem Holds.after {nodeId : Int} {db : Store} {row : TrafficRow} {resetDay : Int}
    (h : Holds nodeId db row resetDay) (hcount : ∀ dir, (laneOf dir row).Sound)
    {events : List Event} (hr : Readable events) :
    ∃ final resetDay', Holds nodeId (after nodeId db events) final resetDay' ∧
      ∀ dir, laneOf dir final = Lane.run (laneOf dir row) (stampedLane dir resetDay events) := by
  induction events generalizing db row resetDay with
  | nil => exact ⟨row, resetDay, h, fun _ => rfl⟩
  | cons e rest ih =>
    have hstep := h.apply e
    cases e with
    | report r =>
      have hsound : ∀ dir, (r.lane dir).Sound := hr r List.mem_cons_self
      have hrest : Readable rest := fun r' hr' => hr r' (List.mem_cons_of_mem r hr')
      have hlane : ∀ dir, laneOf dir (foldRow row resetDay r) =
          (laneOf dir row).report resetDay (r.lane dir) :=
        fun dir => laneOf_foldRow dir row resetDay r (hcount dir) (hsound dir)
      have hcount' : ∀ dir, (laneOf dir (foldRow row resetDay r)).Sound := by
        intro dir
        rw [hlane]
        exact (hcount dir).report resetDay (hsound dir)
      obtain ⟨final, day', hfinal, hrun⟩ := ih hstep hcount' hrest
      refine ⟨final, day', hfinal, ?_⟩
      intro dir
      rw [hrun dir]
      change Lane.run (laneOf dir (foldRow row resetDay r)) _ = _
      rw [hlane dir]
      rfl
    | edit p => exact ih hstep hcount hr

/-! ## Dates -/

/-- Within a call the day is read after the period, calls follow one another
in time, and what the row already says was not written on a later date. -/
structure Chronological (row : TrafficRow) (reports : List Report) : Prop where
  /-- A period begins no later than its day. -/
  within : ∀ r ∈ reports, r.clock.period ≤ r.clock.day
  /-- A later report is of a later period, or the same. -/
  between : reports.Pairwise fun a b => a.clock.day ≤ b.clock.period
  /-- What is stored is of no later day. -/
  storedDay : ∀ r ∈ reports, ∀ d, row.dayStart = NaiveDate.toText d → d ≤ r.clock.day
  /-- Nor of a later period. -/
  storedMonth : ∀ r ∈ reports, ∀ d, row.monthStart = NaiveDate.toText d → d ≤ r.clock.period

/-- The days of a run's bookings never return once left. -/
theorem noReturn_days {row : TrafficRow} {events : List Event}
    (h : Chronological row (events.filterMap Event.report?)) (dir : Direction) (resetDay : Int)
    (base : String × Int) :
    NoReturn row.dayStart (((bookings base (stampedLane dir resetDay events)).map Booking.day).map
      NaiveDate.toText) := by
  have hdays : (stampedLane dir resetDay events).map (fun x => x.2.clock.day) =
      (events.filterMap Event.report?).map fun r => r.clock.day := by
    rw [← map_stamped resetDay, stampedLane, List.map_map, List.map_map]
    rfl
  have hsub := bookings_days base (stampedLane dir resetDay events)
  rw [hdays] at hsub
  have hsorted : ((events.filterMap Event.report?).map fun r => r.clock.day).Pairwise (· ≤ ·) := by
    rw [List.pairwise_map]
    refine h.between.imp_of_mem ?_
    intro a b _ hb hab
    exact hab.trans (h.within b hb)
  refine noReturn_of_sorted (fun _ _ => NaiveDate.toText_injective) _ (hsorted.sublist hsub) _ ?_
  intro x _ hx d hd
  obtain ⟨r, hr, rfl⟩ := List.mem_map.mp (hsub.subset hd)
  exact h.storedDay r hr x hx

/-- Neither do their periods while the reset day stays. -/
theorem noReturn_periods {row : TrafficRow} {events : List Event} {resetDay : Int}
    (h : Chronological row (events.filterMap Event.report?))
    (hkeep : ∀ e ∈ events, e.KeepsResetDay) (dir : Direction) (base : String × Int) :
    NoReturn row.monthStart
      (((bookings base (stampedLane dir resetDay events)).map Booking.period).map
        NaiveDate.toText) := by
  have hperiods : (stampedLane dir resetDay events).map (fun x => x.2.clock.periodStart x.1) =
      (events.filterMap Event.report?).map fun r => r.clock.periodStart resetDay := by
    rw [← map_stamped resetDay, stampedLane, List.map_map, List.map_map]
    refine List.map_congr_left ?_
    intro x hx
    simp only [Function.comp_apply, Report.lane, stamped_resetDay hkeep x hx]
  have hsub := bookings_periods base (stampedLane dir resetDay events)
  rw [hperiods] at hsub
  have hsorted : ((events.filterMap Event.report?).map fun r =>
      r.clock.periodStart resetDay).Pairwise (· ≤ ·) := by
    rw [List.pairwise_map]
    refine h.between.imp_of_mem ?_
    intro a b ha _ hab
    exact Clock.periodStart_le ((h.within a ha).trans hab) resetDay
  refine noReturn_of_sorted (fun _ _ => NaiveDate.toText_injective) _ (hsorted.sublist hsub) _ ?_
  intro x hxmem hx d hd
  obtain ⟨r, hr, rfl⟩ := List.mem_map.mp (hsub.subset hd)
  obtain ⟨r', -, rfl⟩ := List.mem_map.mp (hsub.subset hxmem)
  -- The stored start is a reset date, so the period of a later day starts no earlier.
  exact r.clock.le_periodStart resetDay r'.clock (h.storedMonth r hr _ hx)

/-! ## Conservation -/

/-- A counter restarted on the stamps of some bookings holds the capped sum of
those that bear its stamp. -/
theorem counter_eq {stamp : Booking → NaiveDate} {list : List Booking}
    (hlist : ∀ b ∈ list, Counted b.bytes) (old : String × Int) {new : String × Int} (hold : old.2 ≤ i64Max)
    (hfold : new = (list.map fun b => ((stamp b).toText, b.bytes)).foldl (restart i64Max) old)
    (hno : NoReturn old.1 ((list.map stamp).map NaiveDate.toText)) {d : NaiveDate}
    (hd : new.1 = d.toText) :
    new.2 = min i64Max ((if old.1 = d.toText then old.2 else 0) +
      booked (list.filter fun b => stamp b = d)) := by
  have hentries : ∀ e ∈ list.map fun b => ((stamp b).toText, b.bytes), 0 ≤ e.2 ∧ e.2 ≤ i64Max := by
    intro e he
    obtain ⟨b, hb, rfl⟩ := List.mem_map.mp he
    exact hlist b hb
  have hstamps : NoReturn old.1 ((list.map fun b => ((stamp b).toText, b.bytes)).map Prod.fst) := by
    rw [List.map_map]
    rw [List.map_map] at hno
    exact hno
  rw [hfold] at hd ⊢
  rw [foldl_restart _ hentries old hold hstamps hd, stampedSum_bookings]

/-- The day counter of a run is the capped sum of that day's bookings. -/
theorem Lane.run_day {l : Lane} (hl : l.Sound) {reports : List (Int × LaneReport)}
    (hr : ∀ x ∈ reports, x.2.Sound)
    (hno : NoReturn l.dayStart (((bookings l.baseline reports).map Booking.day).map
      NaiveDate.toText)) {d : NaiveDate} (hd : (Lane.run l reports).dayStart = d.toText) :
    (Lane.run l reports).day = min i64Max ((if l.dayStart = d.toText then l.day else 0) +
      bookedOn d (bookings l.baseline reports)) :=
  counter_eq (bookings_counted l.baseline hl.last hr) (l.dayStart, l.day) hl.day.2
    (Lane.run_folds l reports).2.1 hno hd

/-- The period counter of a run is the capped sum of that period's bookings. -/
theorem Lane.run_month {l : Lane} (hl : l.Sound) {reports : List (Int × LaneReport)}
    (hr : ∀ x ∈ reports, x.2.Sound)
    (hno : NoReturn l.monthStart (((bookings l.baseline reports).map Booking.period).map
      NaiveDate.toText)) {p : NaiveDate} (hp : (Lane.run l reports).monthStart = p.toText) :
    (Lane.run l reports).month = min i64Max ((if l.monthStart = p.toText then l.month else 0) +
      bookedIn p (bookings l.baseline reports)) :=
  counter_eq (bookings_counted l.baseline hl.last hr) (l.monthStart, l.month) hl.month.2
    (Lane.run_folds l reports).2.2 hno hp

/-- Bookings are never negative, so neither is their sum. -/
theorem booked_nonneg (base : String × Int) (hb : Counted base.2)
    {reports : List (Int × LaneReport)} (hr : ∀ x ∈ reports, x.2.Sound) :
    0 ≤ booked (bookings base reports) := by
  refine List.sum_nonneg ?_
  intro n hn
  obtain ⟨b, hmem, rfl⟩ := List.mem_map.mp hn
  exact (bookings_counted base hb hr b hmem).1

/-- A run never lowers the total. -/
theorem Lane.total_le_run {l : Lane} (hl : l.Sound) {reports : List (Int × LaneReport)}
    (hr : ∀ x ∈ reports, x.2.Sound) : l.total ≤ (Lane.run l reports).total := by
  have hb := booked_nonneg l.baseline hl.last hr
  rw [Lane.run_total hl hr]
  exact le_min hl.total.2 (by omega)

/-- A report without a reading leaves the store as it was. -/
theorem apply_unread (nodeId : Int) (db : Store) {r : Report} (h : r.counters = none) :
    (Event.report r).apply nodeId db = db := by
  have hsame : ∀ t : Traffic, (fun x => writeBack x t r) = id := by
    intro t
    funext x
    rw [writeBack, h]
    rfl
  rw [Event.apply, accumulateOn]
  split
  · rename_i hok
    split at hok
    · cases hok
      have htable : ∀ (t : Traffic) (hf : ∀ x : TrafficRow, (writeBack x t r).nodeId = x.nodeId),
          db.traffic.updateWhere (fun x => x.nodeId = nodeId) (fun x => writeBack x t r) hf =
            db.traffic := by
        intro t hf
        ext x
        rw [Table.mem_updateWhere hf]
        constructor
        · rintro ⟨y, hy, rfl⟩
          rw [congrFun (hsame t) y, id, ite_self]
          exact hy
        · intro hx
          exact ⟨x, hx, by rw [congrFun (hsame t) x, id, ite_self]⟩
      rw [htable]
    · cases hok
  · rfl

/-- A run splits at any point. -/
theorem after_append (nodeId : Int) (db : Store) (before later : List Event) :
    after nodeId db (before ++ later) = after nodeId (after nodeId db before) later :=
  List.foldl_append

/-- Over any run of reports and edits of one node, each direction's total is
the initial one plus the climbs between consecutive readings of one boot, up
to the largest BIGINT, and never falls; a report without a reading could as
well not have come; a direction depends on nothing of the other; the day
counter holds what was booked on its day and, while the reset day stays, the
period counter what was booked in its period. -/
theorem traffic_conserved (nodeId : Int) (db : Store) (row : TrafficRow) (resetDay : Int)
    (hrow : Holds nodeId db row resetDay) (hcount : ∀ dir, (laneOf dir row).Sound)
    (events : List Event) (hread : Readable events)
    (hdates : Chronological row (events.filterMap Event.report?)) :
    ∃ final, (after nodeId db events).traffic.find? nodeId = some final ∧
      (∀ dir,
        let list := bookings (laneOf dir row).baseline (stampedLane dir resetDay events)
        (laneOf dir final).total = min i64Max ((laneOf dir row).total + booked list) ∧
        (∀ d, (laneOf dir final).dayStart = NaiveDate.toText d →
          (laneOf dir final).day = min i64Max
            ((if (laneOf dir row).dayStart = d.toText then (laneOf dir row).day else 0) +
              bookedOn d list)) ∧
        ((∀ e ∈ events, e.KeepsResetDay) →
          ∀ p, (laneOf dir final).monthStart = NaiveDate.toText p →
            (laneOf dir final).month = min i64Max
              ((if (laneOf dir row).monthStart = p.toText then (laneOf dir row).month else 0) +
                bookedIn p list))) ∧
      (∀ before later, events = before ++ later →
        ∃ mid, (after nodeId db before).traffic.find? nodeId = some mid ∧
          ∀ dir, (laneOf dir row).total ≤ (laneOf dir mid).total ∧
            (laneOf dir mid).total ≤ (laneOf dir final).total) ∧
      (∀ before r later, events = before ++ .report r :: later → r.counters = none →
        after nodeId db (before ++ [.report r]) = after nodeId db before ∧
          after nodeId db events = after nodeId db (before ++ later)) ∧
      (∀ dir db' row' events', Holds nodeId db' row' resetDay →
        (∀ dir, (laneOf dir row').Sound) → Readable events' →
        laneOf dir row' = laneOf dir row →
        stampedLane dir resetDay events' = stampedLane dir resetDay events →
        ∃ final', (after nodeId db' events').traffic.find? nodeId = some final' ∧
          laneOf dir final' = laneOf dir final) := by
  obtain ⟨final, day', hfinal, hrun⟩ := hrow.after hcount hread
  have hsound := fun dir => stampedLane_sound hread dir resetDay
  refine ⟨final, hfinal.traffic, ?_, ?_, ?_, ?_⟩
  · intro dir list
    rw [hrun dir]
    have hdayStart : (laneOf dir row).dayStart = row.dayStart := by cases dir <;> rfl
    have hmonthStart : (laneOf dir row).monthStart = row.monthStart := by cases dir <;> rfl
    refine ⟨Lane.run_total (hcount dir) (hsound dir), ?_, ?_⟩
    · intro d hd
      refine Lane.run_day (hcount dir) (hsound dir) ?_ hd
      rw [hdayStart]
      exact noReturn_days hdates dir resetDay _
    · intro hkeep p hp
      refine Lane.run_month (hcount dir) (hsound dir) ?_ hp
      rw [hmonthStart]
      exact noReturn_periods hdates hkeep dir _
  · rintro before later rfl
    have hbefore : Readable before := by
      intro r hr
      exact hread r (by rw [List.filterMap_append]; exact List.mem_append_left _ hr)
    have hlater : Readable later := by
      intro r hr
      exact hread r (by rw [List.filterMap_append]; exact List.mem_append_right _ hr)
    obtain ⟨mid, midDay, hmid, hmidRun⟩ := hrow.after hcount hbefore
    have hmidCount : ∀ dir, (laneOf dir mid).Sound := by
      intro dir
      rw [hmidRun dir]
      exact Lane.sound_run (hcount dir) (stampedLane_sound hbefore dir resetDay)
    obtain ⟨end', endDay, hend, hendRun⟩ := hmid.after hmidCount hlater
    rw [← after_append] at hend
    have hsame : end' = final := Option.some.inj (hend.traffic.symm.trans hfinal.traffic)
    refine ⟨mid, hmid.traffic, ?_⟩
    intro dir
    constructor
    · rw [hmidRun dir]
      exact Lane.total_le_run (hcount dir) (stampedLane_sound hbefore dir resetDay)
    · rw [← hsame, hendRun dir]
      exact Lane.total_le_run (hmidCount dir) (stampedLane_sound hlater dir midDay)
  · rintro before r later rfl hnone
    have hskip : after nodeId db (before ++ [.report r]) = after nodeId db before := by
      rw [after_append]
      exact apply_unread nodeId _ hnone
    refine ⟨hskip, ?_⟩
    rw [after_append nodeId db before later, ← hskip, ← after_append, List.append_assoc]
    rfl
  · intro dir db' row' events' hrow' hcount' hread' hlane hreports
    obtain ⟨final', last, hfinal', hrun'⟩ := hrow'.after hcount' hread'
    exact ⟨final', hfinal'.traffic, by rw [hrun' dir, hrun dir, hlane, hreports]⟩

/-- A store with one node that has never reported. -/
def oneNode : Store :=
  { Store.blank with
    node := (Table.empty NodeRow.id).put (newNodeRow 1 ⟨"n", true, 0, "USD", "monthly", none, "", 0,
      "sum", 1, 0, "GB", 0, 0, true, false⟩ "" 0 0)
    traffic := (Table.empty TrafficRow.nodeId).put (newTrafficRow 1) }

/-- The single node of the example. -/
theorem oneNode_holds : Holds 1 oneNode (newTrafficRow 1) 1 := by
  refine ⟨Table.find?_eq_some.mpr ⟨Table.mem_put.mpr (.inl rfl), rfl⟩, ?_⟩
  exact congrArg (Option.map NodeRow.trafficResetDay)
    (Table.find?_eq_some.mpr ⟨Table.mem_put.mpr (.inl rfl), rfl⟩)

/-- Noon of some day in June. -/
def june (day : Nat) (h : 1 ≤ day ∧ day ≤ 30) : Clock := .june day h

/-- Two readings of one boot with an unread report between them. -/
def twoReadings : List Event :=
  [.report ⟨"b", some (100, 7), june 1 first_day⟩, .report ⟨"b", none, june 1 first_day⟩,
    .report ⟨"b", some (150, 9), june 2 (by decide)⟩]

/-- The second reading books the climb over the first. -/
theorem traffic_conserved_twoReadings : ∃ final,
    (after 1 oneNode twoReadings).traffic.find? 1 = some final ∧ final.totalRx = 50 := by
  have hcount : ∀ dir, (laneOf dir (newTrafficRow 1)).Sound := by
    rintro (_ | _) <;> exact ⟨by decide, by decide, by decide, by decide⟩
  have hread : Readable twoReadings := by
    intro r hr dir c hc
    simp only [twoReadings, List.filterMap_cons, Event.report?, List.filterMap_nil, List.mem_cons,
      List.not_mem_nil, or_false] at hr
    rcases hr with rfl | rfl | rfl <;> cases dir <;> cases hc <;> decide
  have hdates : Chronological (newTrafficRow 1) (twoReadings.filterMap Event.report?) := by
    have hempty : ∀ d : NaiveDate, "" ≠ d.toText := fun d => d.toText_ne_empty.symm
    refine ⟨?_, ?_, fun _ _ d hd => absurd hd (hempty d), fun _ _ d hd => absurd hd (hempty d)⟩
    · intro r hr
      simp only [twoReadings, List.filterMap_cons, Event.report?, List.filterMap_nil,
        List.mem_cons, List.not_mem_nil, or_false] at hr
      rcases hr with rfl | rfl | rfl <;> exact le_rfl
    · simp only [twoReadings, List.filterMap_cons, Event.report?, List.filterMap_nil,
        List.pairwise_cons, List.mem_cons, List.not_mem_nil, or_false, forall_eq_or_imp, forall_eq,
        NaiveDate.le_iff, List.Pairwise.nil, IsEmpty.forall_iff, implies_true, and_true]
      decide
  obtain ⟨final, hfinal, hlanes, -⟩ := traffic_conserved 1 oneNode (newTrafficRow 1) 1 oneNode_holds
    hcount twoReadings hread hdates
  exact ⟨final, hfinal, (hlanes .rx).1⟩

end Romi.TrafficConservation
