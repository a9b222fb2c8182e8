import Romi.MinuteRows

/-!
# Reports go on

As long as a session is in use and its node is there, a report that passes the
checks is booked, and the row it completes, if it completes one, is stored or
refused, whichever the engine does.
-/

namespace Romi.AnsweredReports

open AgentSessions BookedTraffic CachedTransactions JsonObjects JsonValue KeyedTable LiveReports
  MinuteMeans MinuteRows ReportGuarantees RisingTotals StoreOperations StoreSchema TrafficFold
open AgentCounters (reportOf)

variable {host : Host} {node : Int} {ip : String}

/-- The node is there, with its traffic. -/
structure Present (node : Int) (db : Store) : Prop where
  /-- The node is there. -/
  has : db.node.Has node
  /-- With its traffic. -/
  traffic : ∃ a b, AtLeast node a b db

/-- It is there after what others write. -/
theorem Present.besides {db db' : Store} (h : Present node db) (hafter : Besides host node db db') :
    Present node db' := by
  obtain ⟨a, b, htraffic⟩ := h.traffic
  exact ⟨hafter.keeps beside_has h.has, a, b, hafter.keeps beside_atLeast htraffic⟩

/-- The traffic of a node that is there can be booked. -/
theorem Present.accumulates {db : Store} (h : Present node db) (r : Report) :
    ∃ t db', Answers host node ip (.accumulate r) db (.ok (.traffic (some t))) db' := by
  obtain ⟨n, hn, hid⟩ := h.has
  obtain ⟨a, b, row, hrow, hnode, -⟩ := h.traffic
  have hfind : db.node.find? node = some n := Table.find?_eq_some.mpr ⟨hn, hid⟩
  have htraffic : db.traffic.find? node = some row := Table.find?_eq_some.mpr ⟨hrow, hnode⟩
  obtain ⟨t, db', heffect⟩ : ∃ t db', (Telemetry.accumulate node r).effect host db =
      .ok (.traffic (some t), db') := by
    rw [Telemetry.effect, if_pos h.has, accumulateOn, htraffic, hfind]
    exact ⟨_, _, rfl⟩
  exact ⟨t, db', answers_effect rfl heffect⟩

/-- A row can be stored. -/
theorem inserts (host : Host) (node : Int) (ip : String) (stamp : Int) (row : Json) (db : Store) :
    ∃ db', Answers host node ip (.insertMetric stamp row) db (.ok .nothing) db' := by
  by_cases hnode : db.node.Has node
  · exact ⟨_, answers_effect (t := .insertMetric node stamp row) rfl
      (by rw [Telemetry.effect, if_pos hnode])⟩
  · exact ⟨_, answers_effect (t := .insertMetric node stamp row) rfl
      (by rw [Telemetry.effect, if_neg hnode])⟩

/-- The end of a report can be reached. -/
theorem touches (host : Host) (node : Int) (ip : String) (time : Moment) (session : LiveReports.Session)
    (db : Store) : ∃ db' writes, Performs host node ip (LiveReports.touched time session) db db'
      writes session (.ok false) := by
  have htouch : Answers host node ip (.touchSeen time.now) db (.ok .nothing) _ :=
    answers_effect (t := .touchSeen node time.now) rfl rfl
  exact ⟨_, _, .write _ _ _ _ _ _ _ _ _ htouch (.done _ _ _)⟩

/-- A booked report comes to its end, its row being stored or refused. -/
theorem books (host : Host) (node : Int) (ip : String) (time : Moment) (session : LiveReports.Session)
    (m : Members) (t : Traffic) (db : Store) (stored : Bool) :
    ∃ db' writes answer, Performs host node ip (booked time session m t) db db' writes
        { session with state := (session.state.fold time t (withTotals t m)).1 }.publish answer ∧
      ((session.state.fold time t (withTotals t m)).2.isSome = true →
        ∃ w, rowOf writes = some w ∧ w.stored = stored) := by
  unfold booked
  dsimp only
  cases (session.state.fold time t (withTotals t m)).2 with
  | none =>
    obtain ⟨db', writes, htouched⟩ := touches host node ip time
      { session with state := (session.state.fold time t (withTotals t m)).1 }.publish db
    exact ⟨db', writes, _, htouched, nofun⟩
  | some row =>
    cases stored with
    | true =>
      obtain ⟨left, hinsert⟩ := inserts host node ip (time.now.tdiv 60 * 60) row.toJson db
      obtain ⟨db', writes, htouched⟩ := touches host node ip time
        { session with state := (session.state.fold time t (withTotals t m)).1 }.publish left
      exact ⟨db', _, _, .write _ _ _ _ _ _ _ _ _ hinsert htouched, fun _ => ⟨_, rfl, rfl⟩⟩
    | false =>
      exact ⟨_, _, _, .write _ _ _ _ _ _ _ _ _ (.refused .engine) (.done _ _ _),
        fun _ => ⟨_, rfl, rfl⟩⟩

/-- A run of reports goes on with any report that passes the checks. -/
theorem report_goes_on {db : Store} {session : LiveReports.Session} {log : List Filing}
    (h : Reporting host node ip db session log) (hpresent : Present node db)
    (hlisted : session.listed = true) (hactive : session.retired = false) (time : Moment)
    {m : Members} (haccepted : Accepted m) (stored : Bool) :
    ∃ t db' session' row,
      Reporting host node ip db' session' (⟨time, t, withTotals t m, row⟩ :: log) ∧
      Present node db' ∧ session'.listed = true ∧ session'.retired = false ∧
      session'.state = (session.state.fold time t (withTotals t m)).1 ∧
      (session.state.lastMinute = time.now.tdiv 60 → row = none) ∧
      (session.state.lastMinute ≠ time.now.tdiv 60 → ∃ w, row = some w ∧ w.stored = stored) := by
  let rpc : Rpc := ⟨"report", m.toJson, m.ascending⟩
  let r := reportOf m.toJson time.clock
  obtain ⟨t, left, hbooking⟩ := @Present.accumulates host node ip db hpresent r
  obtain ⟨db', writes, answer, hrest, hrow⟩ := books host node ip time session m t left stored
  have hin : ¬ (session.listed = false ∨ session.retired = true) := by
    rw [hlisted, hactive]
    decide
  have hmethod : rpc.method = "report" := rfl
  have hhello : rpc.method ≠ "hello" := by
    rw [hmethod]
    decide
  have hobject : rpc.object = some m := rfl
  have hcourse : dispatch node time (some rpc) session = report node time rpc session := by
    unfold dispatch
    dsimp only
    rw [if_neg hin, if_neg hhello, if_pos hmethod]
  have hruns : Performs host node ip (dispatch node time (some rpc) session) db db'
      (⟨.accumulate r, .ok (.traffic (some t)), left⟩ :: writes)
      { session with state := (session.state.fold time t (withTotals t m)).1 }.publish answer := by
    rw [hcourse, report, hobject]
    dsimp only
    rw [invalidField_eq_none.mpr haccepted]
    exact .write _ _ _ _ _ _ _ _ _ hbooking hrest
  have hthere := hpresent.besides (answers_besides hbooking)
  obtain ⟨-, hafter, hopen, -⟩ := performs_booked hrest hthere.has
  refine ⟨t, db', _, rowOf writes, .report h time rpc m r t left db' writes _ answer rfl hobject hruns,
    hthere.besides hafter, hlisted, hactive, rfl, ?_, ?_⟩
  · intro hminute
    refine hopen ?_
    rw [fold_same hminute]
  · intro hminute
    refine hrow ?_
    rw [fold_other hminute]
    rfl

/-! ## Reports of the processor alone -/

/-- A report with nothing in it. -/
def bareReport : Members := ⟨[], ascending_nil⟩

/-- A report of the processor's load alone. -/
def cpuReport (n : Nat) : Members := bareReport.insert "cpu" (.int n)

/-- A time as both clocks show it. -/
def momentAt (seconds : Nat) : Moment :=
  ⟨seconds, seconds * 1000000000, Clock.june 1 first_day⟩

/-- A report of the traffic alone is accepted. -/
theorem bareReport_accepted : Accepted bareReport := by
  constructor
  · intro k hk v hv
    cases hv
  · intro v hv
    cases hv

/-- One with a cpu share is. -/
theorem cpuReport_accepted (n : Nat) : Accepted (cpuReport n) := by
  constructor
  · intro k hk v hv
    rw [cpuReport, Members.get_insert] at hv
    split at hv
    · rw [← Option.some.inj hv]
      exact .inl (number_int (Int.natCast_nonneg n))
    · cases hv
  · intro v hv
    rw [cpuReport, Members.get_insert, if_neg (by decide)] at hv
    cases hv

/-- The share is carried as it was sent. -/
theorem cpuReport_get (t : Traffic) (n : Nat) :
    (withTotals t (cpuReport n)).get "cpu" = some (.int n) := by
  rw [withTotals_get (by decide), cpuReport, Members.get_insert, if_pos rfl]

/-- The bare report has none. -/
theorem bareReport_get (t : Traffic) : (withTotals t bareReport).get "cpu" = none := by
  rw [withTotals_get (by decide)]
  rfl

/-- A share that a double holds is carried exactly. -/
theorem carried_cpuReport (t : Traffic) {n : Nat} (hn : n ≤ 2 ^ 53) (reports : List Members) :
    carried "cpu" (withTotals t (cpuReport n) :: reports) = (n : Rat) :: carried "cpu" reports := by
  refine carried_cons_some ?_ reports
  rw [cpuReport_get]
  exact congrArg some (DoublePrecision.nearest_nat hn)

/-- The node of the example is there. -/
theorem oneNode_present : Present 1 TrafficConservation.oneNode := by
  obtain ⟨n, hn, -⟩ := Option.map_eq_some_iff.mp TrafficConservation.oneNode_holds.node
  obtain ⟨hnode, hid⟩ := Table.find?_eq_some.mp hn
  obtain ⟨hrow, hnodeId⟩ := Table.find?_eq_some.mp TrafficConservation.oneNode_holds.traffic
  exact ⟨⟨n, hnode, hid⟩, _, _, _, hrow, hnodeId, le_rfl, le_rfl⟩

end Romi.AnsweredReports
