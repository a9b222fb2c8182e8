import Romi.NotifySweep
import Romi.TrafficConservation

/-!
# The lazy restart of the day and the period

A row keeps the bytes of the day and of the period it was last written in. The
reader shows zero for a stamp that is not today's, the next report starts a
stale counter anew, and a correction stamps the row with the current period.
Seen through the reader the three agree: a report adds its increment to what was
shown, and a correction replaces what it names.
-/

namespace Romi.LazyRestart

open CachedTransactions CivilDate JsonValue KeyedTable NotifySweep StoreGuard StoreJobs
  StoreSchema TrafficConservation TrafficFold

/-! ## What is shown -/

/-- A value a BIGINT column holds. -/
def Fits (n : Int) : Prop := i64Min ≤ n ∧ n ≤ i64Max

/-- The figures of a row are values of its columns. -/
structure Stored (row : TrafficRow) : Prop where
  /-- All bytes received. -/
  totalRx : Fits row.totalRx
  /-- All bytes sent. -/
  totalTx : Fits row.totalTx
  /-- The bytes received in the period. -/
  monthRx : Fits row.monthRx
  /-- The bytes sent in the period. -/
  monthTx : Fits row.monthTx
  /-- The bytes received on the day. -/
  dayRx : Fits row.dayRx
  /-- The bytes sent on the day. -/
  dayTx : Fits row.dayTx

/-- The closure of `all_traffic` for one row. -/
def shown (row : TrafficRow) (resetDay : Int) (today : Clock) : Traffic :=
  let period := (today.periodStart resetDay).toText
  let day := today.day.toText
  { totalRx := row.totalRx
    totalTx := row.totalTx
    monthRx := if row.monthStart = period then row.monthRx else 0
    monthTx := if row.monthStart = period then row.monthTx else 0
    monthStart := period
    dayRx := if row.dayStart = day then row.dayRx else 0
    dayTx := if row.dayStart = day then row.dayTx else 0 }

/-- An increment booked in the lifetime, the period and the day. -/
def plus (t : Traffic) (d : Int × Int) : Traffic :=
  { t with
    totalRx := saturatingAdd t.totalRx d.1, totalTx := saturatingAdd t.totalTx d.2
    monthRx := saturatingAdd t.monthRx d.1, monthTx := saturatingAdd t.monthTx d.2
    dayRx := saturatingAdd t.dayRx d.1, dayTx := saturatingAdd t.dayTx d.2 }

/-- The fields a correction names replaced. -/
def corrected (t : Traffic) (p : TrafficPatch) : Traffic :=
  { t with
    totalRx := p.totalRx.getD t.totalRx, totalTx := p.totalTx.getD t.totalTx
    monthRx := p.monthRx.getD t.monthRx, monthTx := p.monthTx.getD t.monthTx }

/-- What is shown of a node that is there. -/
theorem allTraffic_eq {nodeId : Int} {db : Store} {row : TrafficRow} {resetDay : Int}
    (h : Holds nodeId db row resetDay) (today : Clock) :
    allTraffic today db nodeId = some (shown row resetDay today) := by
  obtain ⟨n, hn, rfl⟩ := Option.map_eq_some_iff.mp h.node
  rw [allTraffic, h.traffic, hn]
  simp only [Option.bind_eq_bind, Option.bind_some, shown]
  split <;> split <;> rfl

/-! ## Saturating sums -/

/-- A saturated sum is within range. -/
theorem saturatingAdd_fits (a b : Int) : Fits (saturatingAdd a b) :=
  ⟨le_max_left _ _, max_le (by decide) (min_le_left _ _)⟩

/-- Nothing more is the same. -/
theorem saturatingAdd_zero {a : Int} (h : Fits a) : saturatingAdd a 0 = a := by
  rw [saturatingAdd, add_zero, min_eq_right h.2, max_eq_right h.1]

/-- And so from nothing. -/
theorem zero_saturatingAdd {a : Int} (h : Fits a) : saturatingAdd 0 a = a := by
  rw [saturatingAdd, zero_add, min_eq_right h.2, max_eq_right h.1]

/-- An increment is never more than a column holds. -/
theorem increments_fits (row : TrafficRow) (r : Report) :
    Fits (increments row r).1 ∧ Fits (increments row r).2 := by
  have hzero : Fits 0 := by unfold Fits; decide
  have hsub : ∀ a b : Int, Fits (max (saturatingSub a b) 0) := fun a b =>
    ⟨(by decide : i64Min ≤ 0).trans (le_max_right _ _),
      max_le (max_le (by decide) (min_le_left _ _)) (by decide)⟩
  unfold increments
  split
  · exact ⟨hzero, hzero⟩
  · split
    · exact ⟨hzero, hzero⟩
    · exact ⟨hsub _ _, hsub _ _⟩

/-- Without counters there is no increment. -/
theorem increments_unread {row : TrafficRow} {r : Report} (h : r.counters = none) :
    increments row r = (0, 0) := by
  rw [increments, h]

/-! ## The writers, seen through the reader -/

section Row

variable {row : TrafficRow} {resetDay : Int}

/-- A counter that restarts when it is stale is the shown one with the increment added. -/
theorem restart_eq {stamp now : String} {old d : Int} (hd : Fits d) :
    (if stamp ≠ now then d else saturatingAdd old d) =
      saturatingAdd (if stamp = now then old else 0) d := by
  by_cases h : stamp = now
  · rw [if_neg (not_not.mpr h), if_pos h]
  · rw [if_pos h, if_neg h, zero_saturatingAdd hd]

/-- What a report answers with is what was shown and its increment. -/
theorem figures_eq (row : TrafficRow) (resetDay : Int) (r : Report) :
    figures row resetDay r = plus (shown row resetDay r.clock) (increments row r) := by
  obtain ⟨hrx, htx⟩ := increments_fits row r
  unfold figures plus shown
  dsimp only
  rw [restart_eq hrx, restart_eq htx, restart_eq hrx, restart_eq htx]

/-- And what is shown stays. -/
theorem plus_zero (h : Stored row) (today : Clock) :
    plus (shown row resetDay today) (0, 0) = shown row resetDay today := by
  have hzero : Fits 0 := by unfold Fits; decide
  have hgated : ∀ {stamp now : String} {old : Int}, Fits old →
      saturatingAdd (if stamp = now then old else 0) 0 = if stamp = now then old else 0 := by
    intro stamp now old hold
    split
    · exact saturatingAdd_zero hold
    · exact saturatingAdd_zero hzero
  unfold plus shown
  dsimp only
  rw [saturatingAdd_zero h.totalRx, saturatingAdd_zero h.totalTx, hgated h.monthRx,
    hgated h.monthTx, hgated h.dayRx, hgated h.dayTx]

/-- After a report the reader shows what the report was answered with. -/
theorem shown_foldRow (h : Stored row) (r : Report) :
    shown (foldRow row resetDay r) resetDay r.clock = figures row resetDay r := by
  cases hc : r.counters with
  | none =>
    rw [figures_eq, increments_unread hc, plus_zero h, foldRow, writeBack, hc]
  | some counters =>
    obtain ⟨rx, tx⟩ := counters
    have hstamp : (figures row resetDay r).monthStart = (r.clock.periodStart resetDay).toText := rfl
    rw [foldRow, writeBack, hc]
    unfold shown
    dsimp only
    rw [hstamp, if_pos rfl, if_pos rfl, if_pos rfl, if_pos rfl]
    rfl

/-- After a correction the reader shows the corrected figures. -/
theorem shown_applyTo (p : TrafficPatch) (today : Clock) :
    shown (p.applyTo (today.periodStart resetDay).toText row) resetDay today =
      corrected (shown row resetDay today) p := by
  unfold shown corrected TrafficPatch.applyTo
  dsimp only
  rw [if_pos rfl, if_pos rfl]

/-- A report leaves values of the columns. -/
theorem Stored.foldRow (h : Stored row) (resetDay : Int) (r : Report) :
    Stored (foldRow row resetDay r) := by
  cases hc : r.counters with
  | none =>
    rw [TrafficFold.foldRow, writeBack, hc]
    exact h
  | some counters =>
    obtain ⟨rx, tx⟩ := counters
    rw [TrafficFold.foldRow, writeBack, hc, figures_eq]
    exact ⟨saturatingAdd_fits _ _, saturatingAdd_fits _ _, saturatingAdd_fits _ _,
      saturatingAdd_fits _ _, saturatingAdd_fits _ _, saturatingAdd_fits _ _⟩

/-- A patch names values of the columns. -/
def Named (p : TrafficPatch) : Prop :=
  ∀ v ∈ [p.totalRx, p.totalTx, p.monthRx, p.monthTx], ∀ n, v = some n → Fits n

/-- A corrected row is within range. -/
theorem Stored.applyTo (h : Stored row) {p : TrafficPatch} (hp : Named p) (period : String) :
    Stored (p.applyTo period row) := by
  have hnamed : ∀ v ∈ [p.totalRx, p.totalTx, p.monthRx, p.monthTx], ∀ old, Fits old →
      Fits (v.getD old) := by
    intro v hv old hold
    cases hsome : v with
    | none => exact hold
    | some n => exact hp v hv n hsome
  have hgated : ∀ {old : Int}, Fits old → Fits (if row.monthStart = period then old else 0) := by
    intro old hold
    split
    · exact hold
    · unfold Fits
      decide
  refine ⟨hnamed _ ?_ _ h.totalRx, hnamed _ ?_ _ h.totalTx, hnamed _ ?_ _ (hgated h.monthRx),
    hnamed _ ?_ _ (hgated h.monthTx), h.dayRx, h.dayTx⟩
  all_goals simp

end Row

/-! ## Over a run -/

/-- What happens to a node's traffic: a report or an edit of the node, which may
change its reset day, or a correction of the figures. -/
inductive Step
  /-- A report, or a day that goes by. -/
  | event (e : Event)
  /-- The counters are corrected. -/
  | correct (p : TrafficPatch) (clock : Clock)

/-- A correction names values of the columns; reports are read from any text. -/
def Step.Named : Step → Prop
  | .event _ => True
  | .correct p _ => LazyRestart.Named p

/-- A corrected row stays that of its node. -/
theorem applyTo_nodeId (p : TrafficPatch) (period : String) (r : TrafficRow) :
    (p.applyTo period r).nodeId = r.nodeId := rfl

/-- The UPDATE of `set_traffic` for a node with this reset day. -/
def correctRow (nodeId : Int) (p : TrafficPatch) (period : String) (db : Store) : Store :=
  { db with
    traffic := db.traffic.updateWhere (fun r => r.nodeId = nodeId) (p.applyTo period)
      (applyTo_nodeId p period) }

/-- The store after a step; a node that is gone is left alone. -/
def Step.apply (nodeId : Int) (db : Store) : Step → Store
  | .event e => e.apply nodeId db
  | .correct p clock =>
    match db.node.find? nodeId with
    | none => db
    | some n => correctRow nodeId p (clock.periodStart n.trafficResetDay).toText db

/-- The store after a run. -/
def ran (nodeId : Int) (db : Store) (steps : List Step) : Store :=
  steps.foldl (Step.apply nodeId) db

/-- An answered `set_traffic` left the store a correction leaves. -/
theorem setTraffic_db {nodeId : Int} {p : TrafficPatch} {clock : Clock}
    {s s' : Session Store Guard} (h : setTraffic nodeId p clock s = (.ok true, s')) :
    s'.db = (Step.correct p clock).apply nodeId s.db := by
  obtain ⟨resetDay, s₁, hread, h⟩ := Job.bind_ok h
  obtain ⟨hday, hdb, -⟩ := Job.query_ok hread
  cases hn : s.db.node.find? nodeId with
  | none =>
    rw [hn, Option.map_none] at hday
    subst hday
    obtain ⟨hfalse, -⟩ := Job.pure_ok h
    cases hfalse
  | some n =>
    rw [hn, Option.map_some] at hday
    subst hday
    obtain ⟨u, s₂, hexecute, h⟩ := Job.bind_ok h
    obtain ⟨hafter, -⟩ := Job.execute_ok hexecute
    obtain ⟨-, rfl⟩ := Job.pure_ok h
    rw [hafter, hdb, Step.apply, hn]
    rfl

/-- A node that is there is so after a correction. -/
theorem Holds.correct {nodeId : Int} {db : Store} {row : TrafficRow} {resetDay : Int}
    (h : Holds nodeId db row resetDay) (p : TrafficPatch) (clock : Clock) :
    Holds nodeId ((Step.correct p clock).apply nodeId db)
      (p.applyTo (clock.periodStart resetDay).toText row) resetDay := by
  obtain ⟨n, hn, rfl⟩ := Option.map_eq_some_iff.mp h.node
  have hid : row.nodeId = nodeId := (Table.find?_eq_some.mp h.traffic).2
  rw [Step.apply, hn]
  refine ⟨?_, h.node⟩
  dsimp only [correctRow]
  rw [Table.find?_updateWhere, h.traffic, Option.map_some, if_pos hid]

/-- A node with its traffic row, whose figures are values of the columns. -/
def Kept (nodeId : Int) (db : Store) : Prop :=
  ∃ row resetDay, Holds nodeId db row resetDay ∧ Stored row

/-- And after any step. -/
theorem Kept.apply {nodeId : Int} {db : Store} (h : Kept nodeId db) {step : Step}
    (hnamed : step.Named) : Kept nodeId (step.apply nodeId db) := by
  obtain ⟨row, resetDay, hrow, hstored⟩ := h
  cases step with
  | event e =>
    refine ⟨_, _, hrow.apply e, ?_⟩
    cases e with
    | report r => exact hstored.foldRow resetDay r
    | edit p => exact hstored
  | correct p clock => exact ⟨_, _, Holds.correct hrow p clock, hstored.applyTo hnamed _⟩

/-- And after any steps. -/
theorem Kept.ran {nodeId : Int} {db : Store} (h : Kept nodeId db) {steps : List Step}
    (hnamed : ∀ step ∈ steps, step.Named) : Kept nodeId (ran nodeId db steps) := by
  induction steps generalizing db with
  | nil => exact h
  | cons step rest ih =>
    have hstep := h.apply (hnamed step List.mem_cons_self)
    exact ih hstep fun later hlater => hnamed later (List.mem_cons_of_mem step hlater)

/-! ## One call -/

/-- Another node's figures are not touched. -/
theorem other_unchanged {nodeId other : Int} (hother : other ≠ nodeId) {db db' : Store}
    (hnode : db'.node = db.node) {f : TrafficRow → TrafficRow} (hf : ∀ r, (f r).nodeId = r.nodeId)
    (htraffic : db'.traffic = db.traffic.updateWhere (fun r => r.nodeId = nodeId) f hf)
    (today : Clock) : allTraffic today db' other = allTraffic today db other := by
  have hfind : db'.traffic.find? other = db.traffic.find? other := by
    rw [htraffic, Table.find?_updateWhere]
    cases hrow : db.traffic.find? other with
    | none => rfl
    | some row =>
      have hid : row.nodeId = other := (Table.find?_eq_some.mp hrow).2
      rw [Option.map_some, if_neg (hid ▸ hother)]
  rw [allTraffic, allTraffic, hfind, hnode]

/-- What a report finds, answers and leaves. -/
theorem report_view {nodeId : Int} {db : Store} (h : Kept nodeId db) (r : Report) :
    ∃ row before db', db.traffic.find? nodeId = some row ∧
      allTraffic r.clock db nodeId = some before ∧
      accumulateOn nodeId r db = .ok (plus before (increments row r), db') ∧
      allTraffic r.clock db' nodeId = some (plus before (increments row r)) ∧
      ∀ other, other ≠ nodeId → ∀ today, allTraffic today db' other = allTraffic today db other := by
  obtain ⟨row, resetDay, hrow, hstored⟩ := h
  have hafter := hrow.apply (.report r)
  have hview := allTraffic_eq hafter r.clock
  obtain ⟨n, hn, rfl⟩ := Option.map_eq_some_iff.mp hrow.node
  obtain ⟨db', hfold, hnode, htraffic⟩ : ∃ db',
      accumulateOn nodeId r db = .ok (figures row n.trafficResetDay r, db') ∧ db'.node = db.node ∧
      db'.traffic = db.traffic.updateWhere (fun x => x.nodeId = nodeId)
        (fun x => writeBack x (figures row n.trafficResetDay r) r)
        (fun x => writeBack_nodeId x _ r) := by
    rw [accumulateOn, hrow.traffic, hn]
    exact ⟨_, rfl, rfl, rfl⟩
  rw [Event.apply, hfold] at hview
  refine ⟨row, _, db', hrow.traffic, allTraffic_eq hrow r.clock, ?_, ?_, ?_⟩
  · rw [hfold, figures_eq]
  · rw [← figures_eq, hview]
    exact congrArg some (shown_foldRow hstored r)
  · exact fun other hother => other_unchanged hother hnode _ htraffic

/-- What the reader shows around the writers' calls on a node. -/
structure Unobservable (nodeId : Int) (db : Store) : Prop where
  /-- An answered report shows what was shown and its increment, and answers with that. -/
  report : ∀ r (s s' : Session Store Guard) t, s.db = db →
    accumulate nodeId r s = (.ok (some t), s') →
    ∃ row before, db.traffic.find? nodeId = some row ∧ allTraffic r.clock db nodeId = some before ∧
      t = plus before (increments row r) ∧ allTraffic r.clock s'.db nodeId = some t ∧
      ∀ other, other ≠ nodeId → ∀ today, allTraffic today s'.db other = allTraffic today db other
  /-- Without counters it shows and answers what was shown. -/
  unread : ∀ r (s s' : Session Store Guard) t, s.db = db → r.counters = none →
    accumulate nodeId r s = (.ok (some t), s') →
    allTraffic r.clock db nodeId = some t ∧ allTraffic r.clock s'.db nodeId = some t
  /-- No report is declined by the store. -/
  booked : ∀ r, ∃ t db', accumulateOn nodeId r db = .ok (t, db')
  /-- A correction shows the figures it names in place of what was shown. -/
  correct : ∀ p clock (s s' : Session Store Guard), s.db = db →
    setTraffic nodeId p clock s = (.ok true, s') →
    ∃ before, allTraffic clock db nodeId = some before ∧
      allTraffic clock s'.db nodeId = some (corrected before p) ∧
      ∀ other, other ≠ nodeId → ∀ today, allTraffic today s'.db other = allTraffic today db other

/-- An answered report is one of a known node, and its answer is the store's. -/
theorem accumulate_ok {nodeId : Int} {r : Report} {s s' : Session Store Guard} {t : Traffic}
    (h : accumulate nodeId r s = (.ok (some t), s')) :
    accumulateOn nodeId r s.db = .ok (t, s'.db) := by
  obtain ⟨known, s₁, hread, h⟩ := Job.bind_ok h
  obtain ⟨rfl, rfl⟩ := Job.readCache_ok hread
  split_ifs at h
  · obtain ⟨folded, s₂, hfold, h⟩ := Job.bind_ok h
    obtain ⟨ht, rfl⟩ := Job.pure_ok h
    obtain ⟨hdb, -⟩ := Job.statement_ok hfold
    rw [← Option.some.inj ht]
    exact hdb
  · obtain ⟨ht, -⟩ := Job.pure_ok h
    cases ht

/-- So nothing tells the two apart. -/
theorem Kept.unobservable {nodeId : Int} {db : Store} (h : Kept nodeId db) :
    Unobservable nodeId db := by
  have hreport : ∀ r (s s' : Session Store Guard) t, s.db = db →
      accumulate nodeId r s = (.ok (some t), s') →
      ∃ row before, db.traffic.find? nodeId = some row ∧
        allTraffic r.clock db nodeId = some before ∧ t = plus before (increments row r) ∧
        allTraffic r.clock s'.db nodeId = some t ∧
        ∀ other, other ≠ nodeId → ∀ today,
          allTraffic today s'.db other = allTraffic today db other := by
    rintro r s s' t rfl hcall
    obtain ⟨row, before, db', hrow, hbefore, hfold, hview, hothers⟩ := report_view h r
    rw [accumulate_ok hcall] at hfold
    injection hfold with hpair
    obtain ⟨ht, hdb⟩ := Prod.mk.inj hpair
    rw [hdb]
    exact ⟨row, before, hrow, hbefore, ht, ht ▸ hview, hothers⟩
  refine ⟨hreport, ?_, ?_, ?_⟩
  · intro r s s' t hs hnone hcall
    obtain ⟨row, before, hrow, hbefore, ht, hview, -⟩ := hreport r s s' t hs hcall
    obtain ⟨row', resetDay, hholds, hstored⟩ := h
    obtain rfl : row' = row := Option.some.inj (hholds.traffic.symm.trans hrow)
    rw [increments_unread hnone] at ht
    have hshown := allTraffic_eq hholds r.clock
    rw [hbefore, Option.some_inj] at hshown
    rw [hshown, plus_zero hstored, ← hshown] at ht
    exact ⟨ht ▸ hbefore, hview⟩
  · intro r
    obtain ⟨row, before, db', -, -, hfold, -⟩ := report_view h r
    exact ⟨_, db', hfold⟩
  · rintro p clock s s' rfl hcall
    obtain ⟨row, resetDay, hholds, -⟩ := h
    rw [setTraffic_db hcall]
    refine ⟨_, allTraffic_eq hholds clock, ?_, ?_⟩
    · rw [allTraffic_eq (Holds.correct hholds p clock), shown_applyTo]
    · intro other hother today
      obtain ⟨n, hn, -⟩ := Option.map_eq_some_iff.mp hholds.node
      rw [Step.apply, hn]
      exact @other_unchanged nodeId other hother s.db (correctRow nodeId p _ s.db) rfl (p.applyTo _)
        (applyTo_nodeId p _) rfl today

/-- Whatever reports, edits of the node and corrections came before, on whatever
dates: an answered report shows what was shown just before and its increment in
every counter, and answers with that, also when it carries no counters; a
correction shows what was shown with the fields it names replaced. -/
theorem restart_unobservable {nodeId : Int} {db : Store} {row : TrafficRow} {resetDay : Int}
    (hrow : Holds nodeId db row resetDay) (hstored : Stored row) {steps : List Step}
    (hnamed : ∀ step ∈ steps, step.Named) : Unobservable nodeId (ran nodeId db steps) := by
  have hkept : Kept nodeId db := ⟨row, resetDay, hrow, hstored⟩
  exact (hkept.ran hnamed).unobservable

/-- A node that reported on two days of June and was corrected on the third. -/
theorem restart_unobservable_june :
    Unobservable 1 (ran 1 oneNode
      [.event (.report ⟨"b", some (10, 20), .june 1 first_day⟩),
        .event (.report ⟨"b", some (15, 20), .june 2 (by decide)⟩),
        .correct ⟨some 7, none, none, some 3⟩ (.june 3 (by decide))]) := by
  refine restart_unobservable oneNode_holds ⟨?_, ?_, ?_, ?_, ?_, ?_⟩ ?_
  case refine_7 =>
    intro step hstep
    simp only [List.mem_cons, List.not_mem_nil, or_false] at hstep
    obtain rfl | rfl | rfl := hstep
    · trivial
    · trivial
    · intro v hv n hn
      simp only [List.mem_cons, List.not_mem_nil, or_false] at hv
      unfold Fits i64Min i64Max
      obtain rfl | rfl | rfl | rfl := hv <;> cases hn <;> decide
  all_goals
    unfold Fits
    decide

end Romi.LazyRestart
