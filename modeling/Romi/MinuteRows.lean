import Romi.LogWindows
import Romi.MinuteMeans
import Romi.RisingTotals

/-!
# The minute rows of one session

Every report of a session is folded into its minute in progress; a report that
arrives in another minute than the last row completes the next one. A log tells,
the newest first, what each report was answered with and which row it completed.
-/

namespace Romi.MinuteRows

open AgentSessions BookedTraffic CachedTransactions HistoryRuns JsonObjects JsonValue KeyedTable
  LiveReports LogWindows MinuteMeans ReportGuarantees RisingTotals StoreAnswers StoreGuard StoreJobs
  StoreOperations StoreSchema TrafficFold
open AgentCounters (reportOf)

/-! ## Runs -/

/-- A write a session asked for, its answer and the store it left. -/
structure Written where
  /-- The write. -/
  op : FrameWrite
  /-- What it was answered. -/
  answer : Except Failure Payload
  /-- The store after it. -/
  left : Store

/-- A course to its end, other writes coming in between, with what it wrote. -/
inductive Performs (host : Host) (node : Int) (ip : String) :
    Course → Store → Store → List Written → LiveReports.Session → Except Refusal Bool → Prop
  /-- The frame is answered. -/
  | done (session : LiveReports.Session) (answer : Except Refusal Bool) (db : Store) :
      Performs host node ip (.done session answer) db db [] session answer
  /-- A write of the frame. -/
  | write (op : FrameWrite) (next : Except Failure Payload → Course) (db db' db'' : Store)
      (a : Except Failure Payload) (writes : List Written) (session : LiveReports.Session)
      (answer : Except Refusal Bool) (h : Answers host node ip op db a db')
      (hrest : Performs host node ip (next a) db' db'' writes session answer) :
      Performs host node ip (.write op next) db db'' (⟨op, a, db'⟩ :: writes) session answer
  /-- Somebody else writes in between. -/
  | beside (course : Course) (db db' db'' : Store) (writes : List Written)
      (session : LiveReports.Session) (answer : Except Refusal Bool) (h : Beside host node db db')
      (hrest : Performs host node ip course db' db'' writes session answer) :
      Performs host node ip course db db'' writes session answer

/-- A row handed to `insert_metric`, whether that was done, and the store then. -/
structure RowWrite where
  /-- The minute it is filed under. -/
  stamp : Int
  /-- The row. -/
  row : Json
  /-- Whether it was stored. -/
  stored : Bool
  /-- The store after it. -/
  left : Store

/-- The row among the writes of a report. -/
def rowOf (writes : List Written) : Option RowWrite :=
  writes.findSome? fun
    | ⟨.insertMetric stamp row, answer, left⟩ => some ⟨stamp, row, answer.isOk, left⟩
    | _ => none

/-- What became of one report. -/
structure Filing where
  /-- When the report was taken in. -/
  time : Moment
  /-- The totals the booking was answered with. -/
  totals : Traffic
  /-- The report with them. -/
  members : Members
  /-- The row it completed. -/
  row : Option RowWrite

/-- The reports of one session whose traffic could be booked, the newest first;
the write of a row may have failed. -/
inductive Reporting (host : Host) (node : Int) (ip : String) :
    Store → LiveReports.Session → List Filing → Prop
  /-- A session that has just begun. -/
  | start (db : Store) (minute : Int) (hbooked : Booked db) :
      Reporting host node ip db (.fresh minute) []
  /-- A report is taken in. -/
  | report {db : Store} {session : LiveReports.Session} {log : List Filing}
      (h : Reporting host node ip db session log) (time : Moment) (rpc : Rpc) (m : Members)
      (r : Report) (t : Traffic) (left db' : Store) (writes : List Written)
      (session' : LiveReports.Session) (answer : Except Refusal Bool) (hmethod : rpc.method = "report")
      (hobject : rpc.object = some m)
      (hruns : Performs host node ip (dispatch node time (some rpc) session) db db'
        (⟨.accumulate r, .ok (.traffic (some t)), left⟩ :: writes) session' answer) :
      Reporting host node ip db' session' (⟨time, t, withTotals t m, rowOf writes⟩ :: log)

/-! ## Windows -/

/-- The minute a report arrived in. -/
def Filing.minute (f : Filing) : Int := f.time.now.tdiv 60

/-- It completed a row. -/
def Filing.completed (f : Filing) : Bool := f.row.isSome

/-- It completed a row that was stored. -/
def Filing.kept (f : Filing) : Bool := f.row.any RowWrite.stored

/-- The instant of a report and the totals as of then. -/
def Filing.mark (f : Filing) : Nat × Int × Int := (f.time.tick, f.totals.totalRx, f.totals.totalTx)

/-- The reports themselves. -/
def reportsOf (fs : List Filing) : List Members := fs.map Filing.members

/-- The row a report completes: the means over it and the reports since some
other row, and the rates since a mark. -/
def summary (mark : Option (Nat × Int × Int)) (f : Filing) (since : List Filing) : Members :=
  withRates f.time f.totals mark ((gathered (reportsOf (f :: since))).writeInto f.members)

/-! ## One report -/

variable {host : Host} {node : Int} {ip : String}

/-- What other writes may have made of a store meanwhile. -/
abbrev Besides (host : Host) (node : Int) : Store → Store → Prop :=
  Relation.ReflTransGen (Beside host node)

/-- At its end a course leaves the session it names and has written nothing. -/
theorem performs_done {session session' : LiveReports.Session} {answer a : Except Refusal Bool}
    {db db' : Store} {writes : List Written}
    (h : Performs host node ip (.done session answer) db db' writes session' a) :
    session' = session ∧ writes = [] ∧ Besides host node db db' := by
  generalize hcourse : Course.done session answer = course at h
  induction h with
  | done session' answer' db =>
    cases hcourse
    exact ⟨rfl, rfl, .refl⟩
  | write => cases hcourse
  | beside course db db' db'' writes session' a h _ ih =>
    obtain ⟨hsession, hwrites, hbesides⟩ := ih hcourse
    exact ⟨hsession, hwrites, .head h hbesides⟩

/-- A course that writes does so on some later store and goes on with the
answer. -/
theorem performs_write {op : FrameWrite} {next : Except Failure Payload → Course} {db db' : Store}
    {writes : List Written} {session : LiveReports.Session} {answer : Except Refusal Bool}
    (h : Performs host node ip (.write op next) db db' writes session answer) :
    ∃ before a left rest, Besides host node db before ∧ Answers host node ip op before a left ∧
      writes = ⟨op, a, left⟩ :: rest ∧ Performs host node ip (next a) left db' rest session answer := by
  generalize hcourse : Course.write op next = course at h
  induction h with
  | done => cases hcourse
  | write op' next' db left db'' a rest session answer h hrest =>
    cases hcourse
    exact ⟨db, a, left, rest, .refl, h, rfl, hrest⟩
  | beside course db db' db'' writes session answer h _ ih =>
    obtain ⟨before, a, left, rest, hbesides, hanswers, hwrites, hrest⟩ := ih hcourse
    exact ⟨before, a, left, rest, .head h hbesides, hanswers, hwrites, hrest⟩

/-- What each of them keeps, all of them keep. -/
theorem Besides.keeps {db db' : Store} (h : Besides host node db db') {P : Store → Prop}
    (hstep : ∀ {a b : Store}, Beside host node a b → P a → P b) (hdb : P db) : P db' := by
  induction h with
  | refl => exact hdb
  | tail _ hlast ih => exact hstep hlast ih

/-- A session's own writes count as any others. -/
theorem answers_besides {op : FrameWrite} {a : Except Failure Payload} {db db' : Store}
    (h : Answers host node ip op db a db') : Besides host node db db' := by
  cases h with
  | refused e => exact .refl
  | stored session after p hdb hguard hrun =>
    cases op with
    | saveFacts facts =>
      refine .single (.solo (.saveFacts node facts ip) trivial trivial (.ok p) _ ?_)
      have hran : (Solo.saveFacts node facts ip).job host session = (.ok p, after) := hrun
      exact ⟨session, hdb, by rw [hran], by rw [hran]⟩
    | accumulate r => exact .single (.telemetry (.accumulate node r) session after p hdb hrun)
    | insertMetric ts m => exact .single (.telemetry (.insertMetric node ts m) session after p hdb hrun)
    | touchSeen ts => exact .single (.telemetry (.touchSeen node ts) session after p hdb hrun)
    | insertPing task ts latency =>
      exact .single (.telemetry (.insertPing node task ts latency) session after p hdb hrun)

/-- A row was handed over under its minute, and if that was done it is there. -/
structure Files (node : Int) (time : Moment) (row : Members) (w : RowWrite) : Prop where
  /-- It is filed under the minute of the report. -/
  stamp : w.stamp = time.now.tdiv 60 * 60
  /-- It is the row of the summary. -/
  row : w.row = row.toJson
  /-- A row that was stored is in the store. -/
  left : w.stored = true → metricRowOf node w.stamp w.row ∈ w.left.metric.rows

/-- The end of a report writes no row. -/
theorem performs_touched {time : Moment} {session session' : LiveReports.Session} {db db' : Store}
    {writes : List Written} {answer : Except Refusal Bool}
    (h : Performs host node ip (LiveReports.touched time session) db db' writes session' answer) :
    session' = session ∧ rowOf writes = none ∧ Besides host node db db' := by
  unfold LiveReports.touched at h
  obtain ⟨before, a, left, rest, hbefore, hanswers, rfl, hrest⟩ := performs_write h
  have hleft := hbefore.trans (answers_besides hanswers)
  cases a with
  | ok p =>
    obtain ⟨hsession, rfl, hafter⟩ := performs_done hrest
    exact ⟨hsession, rfl, hleft.trans hafter⟩
  | error e =>
    obtain ⟨hsession, rfl, hafter⟩ := performs_done hrest
    exact ⟨hsession, rfl, hleft.trans hafter⟩

/-- A row that was stored is in the table then. -/
theorem stored_mem {stamp : Int} {row : Json} {p : Payload} {db left : Store}
    (h : Answers host node ip (.insertMetric stamp row) db (.ok p) left) (hhas : db.node.Has node) :
    metricRowOf node stamp row ∈ left.metric.rows := by
  cases h with
  | stored session after p hdb hguard hrun =>
    have hfiled : Filed host (.insertMetric node stamp row) db after.db :=
      ⟨session, after, p, hdb, hdb ▸ hguard, hrun, rfl⟩
    rw [filed_metric hfiled, withMinute, if_pos hhas]
    exact Table.mem_put.mpr (.inl rfl)

/-- Whatever the writes of a booked report come to, the session goes on with the
state folded, and the row it completed was handed over. -/
theorem performs_booked {time : Moment} {session session' : LiveReports.Session} {m : Members}
    {t : Traffic} {db db' : Store} {writes : List Written} {answer : Except Refusal Bool}
    (h : Performs host node ip (booked time session m t) db db' writes session' answer)
    (hhas : db.node.Has node) :
    session'.state = (session.state.fold time t (withTotals t m)).1 ∧ Besides host node db db' ∧
      ((session.state.fold time t (withTotals t m)).2 = none → rowOf writes = none) ∧
      ∀ row, (session.state.fold time t (withTotals t m)).2 = some row →
        ∃ w, rowOf writes = some w ∧ Files node time row w := by
  unfold booked at h
  dsimp only at h
  cases hrow : (session.state.fold time t (withTotals t m)).2 with
  | none =>
    rw [hrow] at h
    obtain ⟨hsession, hwrites, hbesides⟩ := performs_touched h
    refine ⟨by rw [hsession]; rfl, hbesides, fun _ => hwrites, ?_⟩
    intro row hsome
    cases hsome
  | some row =>
    rw [hrow] at h
    obtain ⟨before, a, left, rest, hbefore, hanswers, rfl, hrest⟩ := performs_write h
    have hleft := hbefore.trans (answers_besides hanswers)
    have hthere : before.node.Has node := Besides.keeps hbefore beside_has hhas
    have hfiles : Files node time row ⟨time.now.tdiv 60 * 60, row.toJson, a.isOk, left⟩ := by
      refine ⟨rfl, rfl, ?_⟩
      intro hok
      cases a with
      | ok p => exact stored_mem hanswers hthere
      | error e => cases hok
    have hrow' : ∀ row', some row = some row' → ∃ w, rowOf (⟨.insertMetric (time.now.tdiv 60 * 60)
        row.toJson, a, left⟩ :: rest) = some w ∧ Files node time row' w := by
      intro row' hsome
      cases hsome
      exact ⟨_, rfl, hfiles⟩
    cases a with
    | ok p =>
      obtain ⟨hsession, -, hafter⟩ := performs_touched hrest
      exact ⟨by rw [hsession]; rfl, hleft.trans hafter, nofun, hrow'⟩
    | error e =>
      obtain ⟨hsession, -, hafter⟩ := performs_done hrest
      exact ⟨by rw [hsession]; rfl, hleft.trans hafter, nofun, hrow'⟩

/-- A report whose traffic was booked had passed the checks. -/
theorem performs_report {time : Moment} {rpc : Rpc} {m : Members} {r : Report} {t : Traffic}
    {session session' : LiveReports.Session} {db left db' : Store} {writes : List Written}
    {answer : Except Refusal Bool} (hmethod : rpc.method = "report") (hobject : rpc.object = some m)
    (h : Performs host node ip (dispatch node time (some rpc) session) db db'
      (⟨.accumulate r, .ok (.traffic (some t)), left⟩ :: writes) session' answer) :
    Accepted m ∧ ∃ before, Besides host node db before ∧
      Answers host node ip (.accumulate r) before (.ok (.traffic (some t))) left ∧
      Performs host node ip (booked time session m t) left db' writes session' answer := by
  have hhello : rpc.method ≠ "hello" := by
    rw [hmethod]
    decide
  unfold dispatch at h
  dsimp only at h
  by_cases hout : session.listed = false ∨ session.retired = true
  · rw [if_pos hout] at h
    obtain ⟨-, hwrites, -⟩ := performs_done h
    cases hwrites
  · rw [if_neg hout, if_neg hhello, if_pos hmethod, report, hobject] at h
    dsimp only at h
    cases hinvalid : invalidField m with
    | some text =>
      rw [hinvalid] at h
      obtain ⟨-, hwrites, -⟩ := performs_done h
      cases hwrites
    | none =>
      rw [hinvalid] at h
      obtain ⟨before, a, left', rest, hbefore, hanswers, hwrites, hrest⟩ := performs_write h
      rw [List.cons.injEq, Written.mk.injEq] at hwrites
      obtain ⟨⟨hop, ha, hleft⟩, hrest'⟩ := hwrites
      subst hleft hrest' ha
      rw [← hop] at hanswers
      exact ⟨invalidField_eq_none.mp hinvalid, before, hbefore, hanswers, hrest⟩

/-! ## What a log holds -/

/-- What is known of a report, given those before it. -/
structure Entry (node : Int) (f : Filing) (earlier : List Filing) : Prop where
  /-- The counters were booked. -/
  answered : Answered f.totals
  /-- They are within the range of the column. -/
  bounded : f.totals.totalRx ≤ i64Max ∧ f.totals.totalTx ≤ i64Max
  /-- No reading is below zero. -/
  readings : ∀ key ∈ averaged, ∀ q, (f.members.get key).bind Json.asFloat = some q → 0 ≤ q
  /-- Earlier counters were no higher. -/
  rising : ∀ g ∈ earlier, g.totals.totalRx ≤ f.totals.totalRx ∧ g.totals.totalTx ≤ f.totals.totalTx
  /-- A row that was written is the summary of its interval. -/
  files : ∀ w, f.row = some w → Files node f.time (summary
    ((baseOf Filing.completed earlier).map Filing.mark) f (sinceLast Filing.completed earlier)) w
  /-- Two reports that complete a row belong to different minutes. -/
  another : f.completed = true → ∀ g, earlier.find? Filing.completed = some g → g.minute ≠ f.minute

/-- What the session's state and the store hold after a log. -/
structure Inv (node : Int) (db : Store) (session : LiveReports.Session) (log : List Filing) :
    Prop where
  /-- What is summed are the reports since the last row. -/
  minute : session.state.minute = gathered (reportsOf (sinceLast Filing.completed log))
  /-- The mark is that of the report before the interval. -/
  mark : session.state.mark = (baseOf Filing.completed log).map Filing.mark
  /-- The last minute is that of the last row. -/
  last : ∀ f, log.find? Filing.completed = some f → session.state.lastMinute = f.minute
  /-- The counters in the store are in order. -/
  booked : Booked db
  /-- And no lower than any that was answered. -/
  reached : ∀ f ∈ log, AtLeast node f.totals.totalRx f.totals.totalTx db
  /-- Every entry of the log is right. -/
  entries : ∀ f earlier, (f :: earlier) <:+ log → Entry node f earlier

/-- One more filing brings its report. -/
theorem reportsOf_cons (f : Filing) (fs : List Filing) :
    reportsOf (f :: fs) = f.members :: reportsOf fs := rfl

/-- A report in the minute of the last row leaves no row. -/
theorem fold_same {state : AgentState} {time : Moment} {t : Traffic} {m : Members}
    (h : state.lastMinute = time.now.tdiv 60) :
    state.fold time t m = (⟨some m, time.now, state.lastMinute,
      some (state.mark.getD (time.tick, t.totalRx, t.totalTx)), state.minute.add m⟩, none) := by
  unfold AgentState.fold
  exact if_neg fun hne => hne h

/-- In another minute it completes one, and everything starts anew. -/
theorem fold_other {state : AgentState} {time : Moment} {t : Traffic} {m : Members}
    (h : state.lastMinute ≠ time.now.tdiv 60) :
    state.fold time t m = (⟨some m, time.now, time.now.tdiv 60,
        some (time.tick, t.totalRx, t.totalTx), .empty⟩,
      some (withRates time t state.mark ((state.minute.add m).writeInto m))) := by
  unfold AgentState.fold
  exact if_pos h

/-- The readings of an accepted report are not negative. -/
theorem readings_nonneg {m : Members} (h : Accepted m) (t : Traffic) {key : String}
    (hkey : key ∈ averaged) {q : Rat} (hq : ((withTotals t m).get key).bind Json.asFloat = some q) :
    0 ≤ q := by
  have hchecked : ∀ k ∈ averaged, k ∉ injected ∧ k ∈ numericFields := by decide
  obtain ⟨hinjected, hnumeric⟩ := hchecked key hkey
  rw [withTotals_get hinjected] at hq
  obtain ⟨v, hv, hfloat⟩ := Option.bind_eq_some_iff.mp hq
  rcases h.fields key hnumeric v hv with ⟨q', hq', hnonneg⟩ | ⟨rfl, -⟩
  · have heq : q' = q := Option.some.inj (hq'.symm.trans hfloat)
    rwa [heq] at hnonneg
  · cases hfloat

/-- A figure a report is answered with is in the range of its column. -/
theorem figures_bounded (row : TrafficRow) (resetDay : Int) (r : Report) :
    (figures row resetDay r).totalRx ≤ i64Max ∧ (figures row resetDay r).totalTx ≤ i64Max := by
  unfold figures
  dsimp only
  unfold saturatingAdd i64Min i64Max
  omega

/-- Counters that are booked are within the range of the column. -/
theorem accumulateOn_bounded {r : Report} {db db' : Store} {t : Traffic}
    (h : accumulateOn node r db = .ok (t, db')) : t.totalRx ≤ i64Max ∧ t.totalTx ≤ i64Max := by
  unfold accumulateOn at h
  split at h
  · rename_i row n hrow hn
    cases h
    exact figures_bounded row n.trafficResetDay r
  · cases h

/-- One report keeps the account. -/
theorem inv_report {time : Moment} {rpc : Rpc} {m : Members} {r : Report} {t : Traffic}
    {session session' : LiveReports.Session} {db left db' : Store} {writes : List Written}
    {answer : Except Refusal Bool} {log : List Filing} (h : Inv node db session log)
    (hmethod : rpc.method = "report") (hobject : rpc.object = some m)
    (hruns : Performs host node ip (dispatch node time (some rpc) session) db db'
      (⟨.accumulate r, .ok (.traffic (some t)), left⟩ :: writes) session' answer) :
    Inv node db' session' (⟨time, t, withTotals t m, rowOf writes⟩ :: log) := by
  obtain ⟨haccepted, before, hbefore, hanswers, hbooked⟩ := performs_report hmethod hobject hruns
  obtain ⟨hhas, haccumulated⟩ := answers_accumulate hanswers
  obtain ⟨hrises, hreached⟩ := accumulateOn_rises haccumulated
  obtain ⟨hanswered, hleft⟩ := accumulateOn_booked haccumulated (Besides.keeps hbefore beside_booked h.booked)
  have hthere : left.node.Has node := Besides.keeps (answers_besides hanswers) beside_has hhas
  obtain ⟨hstate, hafter, hopen, hclosed⟩ := performs_booked hbooked hthere
  have hrising : ∀ g ∈ log, g.totals.totalRx ≤ t.totalRx ∧ g.totals.totalTx ≤ t.totalTx := by
    intro g hg
    exact hrises _ _ (Besides.keeps hbefore beside_atLeast (h.reached g hg))
  have hall : ∀ f ∈ (⟨time, t, withTotals t m, rowOf writes⟩ :: log : List Filing),
      AtLeast node f.totals.totalRx f.totals.totalTx db' := by
    intro f hf
    refine Besides.keeps hafter beside_atLeast ?_
    rcases List.mem_cons.mp hf with rfl | hf
    · exact hreached
    · exact Besides.keeps (answers_besides hanswers) beside_atLeast
        (Besides.keeps hbefore beside_atLeast (h.reached f hf))
  have hentries : ∀ f earlier,
      (f :: earlier) <:+ (⟨time, t, withTotals t m, rowOf writes⟩ :: log : List Filing) →
      (f = ⟨time, t, withTotals t m, rowOf writes⟩ → earlier = log → Entry node f earlier) →
      Entry node f earlier := by
    intro f earlier hsuffix hnew
    rcases List.suffix_cons_iff.mp hsuffix with heq | hold
    · rw [List.cons.injEq] at heq
      exact hnew heq.1 heq.2
    · exact h.entries f earlier hold
  by_cases hminute : session.state.lastMinute = time.now.tdiv 60
  · -- No row: the report joins the open minute.
    rw [fold_same hminute] at hstate hopen
    have hnone : rowOf writes = none := hopen rfl
    rw [hnone] at hall hentries ⊢
    have hcompleted : Filing.completed ⟨time, t, withTotals t m, none⟩ = false := rfl
    refine ⟨?_, ?_, ?_, Besides.keeps hafter beside_booked hleft, hall, ?_⟩
    · rw [hstate, sinceLast_open hcompleted, reportsOf_cons, gathered_cons, ← h.minute]
    · rw [hstate, baseOf_open hcompleted, h.mark]
      cases baseOf Filing.completed log <;> rfl
    · intro f hf
      rw [List.find?_cons_of_neg (by simp [hcompleted])] at hf
      rw [hstate]
      exact h.last f hf
    · intro f earlier hsuffix
      refine hentries f earlier hsuffix ?_
      rintro rfl rfl
      refine ⟨hanswered, accumulateOn_bounded haccumulated,
        fun key hkey q hq => readings_nonneg haccepted t hkey hq, hrising, nofun, nofun⟩
  · -- A row: it is summed up and the next minute is open.
    rw [fold_other hminute] at hstate hclosed
    obtain ⟨w, hrow, hfiles⟩ := hclosed _ rfl
    rw [hrow] at hall hentries ⊢
    have hcompleted : Filing.completed ⟨time, t, withTotals t m, some w⟩ = true := rfl
    refine ⟨?_, ?_, ?_, Besides.keeps hafter beside_booked hleft, hall, ?_⟩
    · rw [hstate, sinceLast_closed hcompleted]
      rfl
    · rw [hstate, baseOf_closed hcompleted]
      rfl
    · intro f hf
      rw [List.find?_cons_of_pos hcompleted] at hf
      rw [hstate, ← Option.some.inj hf]
      rfl
    · intro f earlier hsuffix
      refine hentries f earlier hsuffix ?_
      rintro rfl rfl
      refine ⟨hanswered, accumulateOn_bounded haccumulated,
        fun key hkey q hq => readings_nonneg haccepted t hkey hq, hrising, ?_, ?_⟩
      · intro w' hw'
        have hsame : w = w' := Option.some.inj hw'
        rw [← hsame, ← h.mark, summary, reportsOf_cons, gathered_cons, ← h.minute]
        exact hfiles
      · intro _ g hg hg'
        exact hminute ((h.last g hg).trans hg')

/-- Every run of reports keeps it. -/
theorem reporting_inv {db : Store} {session : LiveReports.Session} {log : List Filing}
    (h : Reporting host node ip db session log) : Inv node db session log := by
  induction h with
  | start db minute hbooked =>
    refine ⟨rfl, rfl, ?_, hbooked, ?_, ?_⟩
    · intro f hf
      cases hf
    · intro f hf
      cases hf
    · intro f earlier hsuffix
      cases List.suffix_nil.mp hsuffix
  | report _ time rpc m r t left db' writes session' answer hmethod hobject hruns ih =>
    exact inv_report ih hmethod hobject hruns

end Romi.MinuteRows
