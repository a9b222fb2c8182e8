import Romi.HistoryRuns
import Romi.LiveReports
import Romi.SweepOutcome
import Romi.TrafficConservation

/-!
# What live reports hold

Whatever an agent sends, what its session publishes has passed the checks of
`report` and carries the totals the hub answered with. A report that does not
pass leaves the session as it is and asks the store for nothing.
-/

namespace Romi.ReportGuarantees

open BookedTraffic CachedTransactions CachedTransactions.Job JsonObjects JsonValue LiveReports
  NodeFrames StoreAnswers StoreOperations StoreSchema TrafficFold
open AgentCounters (reportOf)
open AgentSessions (FrameWrite)

/-! ## What the checks accept -/

/-- A number that is not negative. -/
def Number (v : Json) : Prop := ∃ q, v.asFloat = some q ∧ 0 ≤ q

/-- Whole numbers are, as far as they are not negative. -/
theorem number_int {i : Int} (h : 0 ≤ i) : Number (.int i) :=
  ⟨_, rfl, DoublePrecision.nearest_nonneg (by exact_mod_cast h)⟩

/-- A list of exactly three of them. -/
def Three (v : Json) : Prop := ∃ a b c, v = .arr [a, b, c] ∧ Number a ∧ Number b ∧ Number c

/-- A report whose fields are as the hub wants them, as far as they are there. -/
structure Accepted (m : Members) : Prop where
  /-- Every numeric field is a number, or null where it may be. -/
  fields : ∀ k ∈ numericFields, ∀ v, m.get k = some v → Number v ∨ v = .null ∧ k ∈ optional
  /-- A load is three numbers. -/
  load : ∀ v, m.get "load" = some v → Three v

/-- What the check of a number asks for. -/
theorem number_iff {v : Json} : number v = true ↔ Number v := by
  unfold number Number
  cases v.asFloat with
  | none => simp
  | some q => simp

/-- What the check of null asks for. -/
theorem isNull_iff {v : Json} : isNull v = true ↔ v = .null := by
  cases v <;> simp [isNull]

/-- What the check of a load asks for. -/
theorem threeNumbers_iff {v : Json} : threeNumbers v = true ↔ Three v := by
  unfold threeNumbers Three
  cases v with
  | arr items =>
    simp only [Bool.and_eq_true, beq_iff_eq, List.all_eq_true, number_iff, Json.arr.injEq]
    constructor
    · rintro ⟨hlength, hall⟩
      obtain ⟨a, b, c, rfl⟩ := List.length_eq_three.mp hlength
      exact ⟨a, b, c, rfl, hall a (by simp), hall b (by simp), hall c (by simp)⟩
    · rintro ⟨a, b, c, rfl, ha, hb, hc⟩
      simp [ha, hb, hc]
  | null | bool | int | float | str | obj => simp

/-- What the check of a field asks for. -/
theorem acceptable_iff {m : Members} {k : String} :
    acceptable m k = true ↔ ∀ v, m.get k = some v → Number v ∨ v = .null ∧ k ∈ optional := by
  unfold acceptable
  cases m.get k with
  | none => simp
  | some v =>
    simp only [Bool.or_eq_true, Bool.and_eq_true, isNull_iff, number_iff, List.contains_iff_mem,
      Option.some.injEq, forall_eq']
    exact or_comm

/-- The checks find nothing exactly in an acceptable report. -/
theorem invalidField_eq_none {m : Members} : invalidField m = none ↔ Accepted m := by
  have hfields : numericFields.find? (fun k => !acceptable m k) = none ↔
      ∀ k ∈ numericFields, acceptable m k = true := by
    rw [List.find?_eq_none]
    simp
  have hload : loadAcceptable m = true ↔ ∀ v, m.get "load" = some v → Three v := by
    unfold loadAcceptable
    cases m.get "load" with
    | none => simp
    | some v => simp [threeNumbers_iff]
  unfold invalidField
  constructor
  · intro h
    cases hfind : numericFields.find? (fun k => !acceptable m k) with
    | some k =>
      rw [hfind] at h
      cases h
    | none =>
      rw [hfind] at h
      by_cases hl : loadAcceptable m = true
      · exact ⟨fun k hk => acceptable_iff.mp (hfields.mp hfind k hk), hload.mp hl⟩
      · simp [hl] at h
  · intro h
    rw [hfields.mpr fun k hk => acceptable_iff.mpr (h.fields k hk)]
    simp [hload.mpr h.load]

/-- What a visitor may be shown under a key. -/
def Proper (key : String) (v : Json) : Prop :=
  if key = "load" then Three v else Number v ∨ v = .null ∧ key ∈ optional

/-- Every allowlisted key is checked, unless the hub fills it in. -/
theorem Accepted.proper {m : Members} (h : Accepted m) {k : String} (hk : k ∈ publicMetrics)
    (hinjected : k ∉ injected) {v : Json} (hv : m.get k = some v) : Proper k v := by
  unfold Proper
  by_cases hload : k = "load"
  · rw [if_pos hload]
    exact h.load v (hload ▸ hv)
  · rw [if_neg hload]
    have hboot : k ≠ "boot_id" := by
      rintro rfl
      revert hk
      decide
    refine h.fields k ?_ v hv
    simp [numericFields, reportFields, hk, hinjected, hload, hboot]

/-! ## The hub's totals -/

/-- A report carries these figures as its totals. -/
structure Totals (t : Traffic) (m : Members) : Prop where
  /-- All bytes received. -/
  totalRx : m.get "total_rx" = some (.int t.totalRx)
  /-- All bytes sent. -/
  totalTx : m.get "total_tx" = some (.int t.totalTx)
  /-- The bytes received in the period. -/
  monthRx : m.get "month_rx" = some (.int t.monthRx)
  /-- The bytes sent in the period. -/
  monthTx : m.get "month_tx" = some (.int t.monthTx)

/-- The totals that are put in are there. -/
theorem withTotals_totals (t : Traffic) (m : Members) : Totals t (withTotals t m) := by
  constructor <;> simp [withTotals, Members.get_insert]

/-- No other key is touched. -/
theorem withTotals_get {t : Traffic} {m : Members} {k : String} (h : k ∉ injected) :
    (withTotals t m).get k = m.get k := by
  simp only [injected, List.mem_cons, List.not_mem_nil, or_false, not_or] at h
  obtain ⟨hrx, htx, hmrx, hmtx⟩ := h
  rw [withTotals, Members.get_insert, if_neg hmtx, Members.get_insert, if_neg hmrx,
    Members.get_insert, if_neg htx, Members.get_insert, if_neg hrx]

/-- What a session's metrics are known to be. -/
structure Conforming (answers : List Traffic) (m : Members) : Prop where
  /-- Every public field is of its kind. -/
  proper : ∀ k ∈ publicMetrics, ∀ v, m.get k = some v → Proper k v
  /-- The totals are those of the latest answer. -/
  totals : ∃ t, answers.head? = some t ∧ Totals t m

/-- An accepted report with the hub's totals conforms. -/
theorem conforming_withTotals {m : Members} (h : Accepted m) {t : Traffic} (ht : Answered t)
    (answers : List Traffic) : Conforming (t :: answers) (withTotals t m) := by
  have htotals := withTotals_totals t m
  refine ⟨?_, t, rfl, htotals⟩
  intro k hk v hv
  by_cases hinjected : k ∈ injected
  · have hinteger : ∀ i : Int, 0 ≤ i → v = .int i → Proper k v := by
      rintro i hi rfl
      have hload : k ≠ "load" := by
        rintro rfl
        revert hinjected
        decide
      rw [Proper, if_neg hload]
      exact .inl (number_int hi)
    simp only [injected, List.mem_cons, List.not_mem_nil, or_false] at hinjected
    rcases hinjected with rfl | rfl | rfl | rfl
    · exact hinteger _ ht.totalRx (Option.some.inj (hv.symm.trans htotals.totalRx))
    · exact hinteger _ ht.totalTx (Option.some.inj (hv.symm.trans htotals.totalTx))
    · exact hinteger _ ht.monthRx (Option.some.inj (hv.symm.trans htotals.monthRx))
    · exact hinteger _ ht.monthTx (Option.some.inj (hv.symm.trans htotals.monthTx))
  · rw [withTotals_get hinjected] at hv
    exact h.proper hk hinjected hv

/-! ## The store along a course -/

variable {host : Host} {node : Int} {ip : String}

/-- What other writes may have made of a store meanwhile. -/
abbrev Meanwhile (host : Host) : Store → Store → Prop := Relation.ReflTransGen (Elsewhere host)

/-- The counters stay in order whoever writes. -/
theorem booked_elsewhere {db db' : Store} (h : Elsewhere host db db') (hdb : Booked db) :
    Booked db' := by
  cases h with
  | solo op hchecked answer _ hran =>
    obtain ⟨session, rfl, rfl, -⟩ := hran
    exact solo_booked host hchecked session hdb
  | telemetry op session after p hsession hrun =>
    subst hsession
    exact (telemetry_booked host op).apply hrun hdb

/-- And however often. -/
theorem booked_meanwhile {db db' : Store} (h : Meanwhile host db db') (hdb : Booked db) :
    Booked db' := by
  induction h with
  | refl => exact hdb
  | tail _ hstep ih => exact booked_elsewhere hstep ih

/-- A frame's own writes book nothing below zero either. -/
theorem booked_answers {op : FrameWrite} {db db' : Store} {a : Except Failure Payload}
    (h : Answers host node ip op db a db') (hdb : Booked db) : Booked db' := by
  have hkeeps : Keeps Booked (op.job host node ip) := by
    cases op with
    | saveFacts facts => exact @solo_booked host (.saveFacts node facts ip) trivial
    | accumulate r => exact telemetry_booked host _
    | insertMetric ts m => exact telemetry_booked host _
    | touchSeen ts => exact telemetry_booked host _
    | insertPing taskId ts latency => exact telemetry_booked host _
  cases h with
  | stored session after p hsession hguard hrun =>
    subst hsession
    exact hkeeps.apply hrun hdb
  | refused e => exact hdb

/-- A booking that answers with figures was that of a node there is. -/
theorem answers_accumulate {r : Report} {db db' : Store} {t : Traffic}
    (h : Answers host node ip (.accumulate r) db (.ok (.traffic (some t))) db') :
    db.node.Has node ∧ accumulateOn node r db = .ok (t, db') := by
  cases h with
  | stored session after p hsession hguard hrun =>
    subst hsession
    have hjob : (Telemetry.accumulate node r).job host session = (.ok (.traffic (some t)), after) := hrun
    rcases (Telemetry.job_spec hjob hguard).2 with herror | ⟨e, herror, -⟩ | ⟨p, hp, heffect⟩
    · cases herror
    · cases herror
    · rw [Except.ok.injEq] at hp
      subst hp
      rw [Telemetry.effect] at heffect
      by_cases hnode : session.db.node.Has node
      · rw [if_pos hnode] at heffect
        cases hon : accumulateOn node r session.db with
        | error e =>
          rw [hon] at heffect
          cases heffect
        | ok q =>
          rw [hon] at heffect
          simp only [Except.map, Except.ok.injEq, Prod.mk.injEq, Payload.traffic.injEq,
            Option.some.injEq] at heffect
          exact ⟨hnode, by rw [← heffect.1, ← heffect.2]⟩
      · rw [if_neg hnode] at heffect
        cases heffect

/-- What a booking answers is not negative. -/
theorem answered_accumulate {r : Report} {db db' : Store} {t : Traffic}
    (h : Answers host node ip (.accumulate r) db (.ok (.traffic (some t))) db') (hdb : Booked db) :
    Answered t := (accumulateOn_booked (answers_accumulate h).2 hdb).1

/-! ## Courses -/

/-- At its end a course leaves the session it names. -/
theorem runs_done {session : Session} {answer a : Except Refusal Bool} {s s' : State}
    (h : Runs host node ip (.done session answer) s s' a) :
    a = answer ∧ s'.session = session ∧ s'.answers = s.answers ∧ Meanwhile host s.db s'.db := by
  generalize hcourse : Course.done session answer = course at h
  induction h with
  | done session' answer' s =>
    cases hcourse
    exact ⟨rfl, rfl, rfl, .refl⟩
  | write => cases hcourse
  | elsewhere course s s' a db hdb hrest ih =>
    obtain ⟨ha, hsession, hanswers, hmeanwhile⟩ := ih hcourse
    exact ⟨ha, hsession, hanswers, .head hdb hmeanwhile⟩

/-- A course that writes does so on some later store and goes on with the
answer. -/
theorem runs_write {op : FrameWrite} {next : Except Failure Payload → Course} {s s' : State}
    {answer : Except Refusal Bool} (h : Runs host node ip (.write op next) s s' answer) :
    ∃ db a db', Meanwhile host s.db db ∧ Answers host node ip op db a db' ∧
      Runs host node ip (next a) ⟨db', s.session, heard op a s.answers⟩ s' answer := by
  generalize hcourse : Course.write op next = course at h
  induction h with
  | done => cases hcourse
  | write op' next' s s' a answer db h hrest =>
    cases hcourse
    exact ⟨s.db, a, db, .refl, h, hrest⟩
  | elsewhere course s s' answer db hdb hrest ih =>
    obtain ⟨db₁, a, db', hmeanwhile, hanswers, hruns⟩ := ih hcourse
    exact ⟨db₁, a, db', .head hdb hmeanwhile, hanswers, hruns⟩

/-- Courses that book nothing and always end with this session. -/
inductive Quiet (session : Session) : Course → Prop
  /-- It is over. -/
  | done (answer : Except Refusal Bool) : Quiet session (.done session answer)
  /-- A write other than that of the counters, and quiet from then on. -/
  | write (op : FrameWrite) (next : Except Failure Payload → Course)
      (hop : ∀ r, op ≠ .accumulate r) (h : ∀ a, Quiet session (next a)) :
      Quiet session (.write op next)

/-- A quiet course leaves the session alone. -/
theorem quiet_run {session : Session} {c : Course} (h : Quiet session c) {s s' : State}
    {answer : Except Refusal Bool} (hruns : Runs host node ip c s s' answer) :
    s'.session = session ∧ s'.answers = s.answers ∧ (Booked s.db → Booked s'.db) := by
  induction h generalizing s with
  | done a =>
    obtain ⟨-, hsession, hanswers, hmeanwhile⟩ := runs_done hruns
    exact ⟨hsession, hanswers, booked_meanwhile hmeanwhile⟩
  | write op next hop _ ih =>
    obtain ⟨db, a, db', hmeanwhile, hwrite, hrest⟩ := runs_write hruns
    have hheard : heard op a s.answers = s.answers := by
      cases op with
      | accumulate r => exact absurd rfl (hop r)
      | saveFacts | insertMetric | touchSeen | insertPing => rfl
    obtain ⟨hsession, hanswers, hbooked⟩ := ih a hrest
    refine ⟨hsession, hanswers.trans hheard, ?_⟩
    intro hdb
    exact hbooked (booked_answers hwrite (booked_meanwhile hmeanwhile hdb))

/-- Noting when a node was seen is quiet. -/
theorem quiet_touched (time : Moment) (session : Session) : Quiet session (touched time session) := by
  refine .write _ _ (fun r => nofun) ?_
  intro a
  cases a with
  | ok p => exact .done _
  | error e => exact .done _

/-- So is all that follows once the report is taken in. -/
theorem quiet_booked (time : Moment) (session : Session) (m : Members) (t : Traffic) :
    Quiet { session with state := (session.state.fold time t (withTotals t m)).1 }.publish
      (booked time session m t) := by
  unfold booked
  dsimp only
  split
  · refine .write _ _ (fun r => nofun) ?_
    intro a
    cases a with
    | ok p => exact quiet_touched time _
    | error e => exact .done _
  · exact quiet_touched time _

/-- So is the result of a probe. -/
theorem quiet_pingResult (time : Moment) (rpc : Rpc) (session : Session) :
    Quiet session (pingResult time rpc session) := by
  unfold pingResult
  split
  · dsimp only
    split
    · refine .write _ _ (fun r => nofun) ?_
      intro a
      cases a with
      | ok p => exact .done _
      | error e => exact .done _
    · exact .done _
  · exact .done _

/-! ## What every session keeps -/

/-- What has been published is the state's, the metrics conform, and neither
the answers heard nor the store of a session in use go below zero. -/
structure Inv (s : State) : Prop where
  /-- Others see what the session holds. -/
  published : s.session.published = s.session.state.shown
  /-- What it holds conforms. -/
  metrics : ∀ m, s.session.state.metrics = some m → Conforming s.answers m
  /-- Every answer was one of the counters. -/
  answers : ∀ t ∈ s.answers, Answered t
  /-- The counters are in order as long as the session is not sent away. -/
  booked : s.session.retired = true ∨ Booked s.db

/-- Publishing again what is published changes nothing. -/
theorem publish_eq {session : Session} (h : session.published = session.state.shown) :
    session.publish = session := by
  rw [Session.publish, ← h]

/-- A course that books nothing keeps the invariant, if its session does. -/
theorem inv_quiet {session : Session} {c : Course} {s s' : State} {answer : Except Refusal Bool}
    (hquiet : Quiet session c) (hruns : Runs host node ip c s s' answer)
    (hpublished : session.published = session.state.shown)
    (hmetrics : ∀ m, session.state.metrics = some m → Conforming s.answers m)
    (hanswers : ∀ t ∈ s.answers, Answered t) (hbooked : Booked s.db) : Inv s' := by
  obtain ⟨hsession, hheard, hkept⟩ := quiet_run hquiet hruns
  refine ⟨?_, ?_, ?_, .inr (hkept hbooked)⟩
  · rw [hsession]
    exact hpublished
  · rw [hsession, hheard]
    exact hmetrics
  · rw [hheard]
    exact hanswers

/-- A report keeps the invariant: rejected, it changes nothing; accepted, it
is published with the totals just answered. -/
theorem inv_report {time : Moment} {rpc : Rpc} {s s' : State} {answer : Except Refusal Bool}
    (h : Inv s) (hactive : s.session.retired ≠ true)
    (hruns : Runs host node ip (report node time rpc s.session) s s' answer) : Inv s' := by
  have hbooked := h.booked.resolve_left hactive
  have hsame := publish_eq h.published
  unfold report at hruns
  rw [hsame] at hruns
  split at hruns
  · exact inv_quiet (.done _) hruns h.published h.metrics h.answers hbooked
  · rename_i m hobject
    split at hruns
    · exact inv_quiet (.done _) hruns h.published h.metrics h.answers hbooked
    · rename_i hvalid
      obtain ⟨db, a, db', hmeanwhile, hwrite, hrest⟩ := runs_write hruns
      have hdb := booked_meanwhile hmeanwhile hbooked
      have hdb' := booked_answers hwrite hdb
      split at hrest
      · rename_i t
        have ht := answered_accumulate hwrite hdb
        have hanswers : ∀ u ∈ t :: s.answers, Answered u := by
          intro u hu
          rcases List.mem_cons.mp hu with rfl | hu
          · exact ht
          · exact h.answers u hu
        refine inv_quiet (quiet_booked time s.session m t) hrest rfl ?_ hanswers hdb'
        intro m' hm'
        have hfolded : (s.session.state.fold time t (withTotals t m)).1.metrics =
            some (withTotals t m) := by
          unfold AgentState.fold
          dsimp only
          split <;> rfl
        have heq : withTotals t m = m' := Option.some.inj (hfolded.symm.trans hm')
        rw [← heq]
        exact conforming_withTotals (invalidField_eq_none.mp hvalid) ht s.answers
      · rename_i p hp
        have hheard : heard (.accumulate (reportOf m.toJson time.clock)) (.ok p) s.answers =
            s.answers := by
          unfold heard
          split
          · rename_i t _ hpayload
            exact absurd (Except.ok.inj hpayload) (hp t)
          · rfl
        rw [hheard] at hrest
        exact inv_quiet (.done _) hrest h.published h.metrics h.answers hdb'
      · exact inv_quiet (.done _) hrest h.published h.metrics h.answers hdb'

/-- A frame that comes to nothing keeps the invariant. -/
theorem inv_done {s s' : State} {answer a : Except Refusal Bool} (h : Inv s)
    (hruns : Runs host node ip (.done s.session a) s s' answer) : Inv s' := by
  obtain ⟨-, hsession, hanswers, hmeanwhile⟩ := runs_done hruns
  refine ⟨?_, ?_, ?_, ?_⟩
  · rw [hsession]
    exact h.published
  · rw [hsession, hanswers]
    exact h.metrics
  · rw [hanswers]
    exact h.answers
  · rw [hsession]
    exact h.booked.imp_right (booked_meanwhile hmeanwhile)

/-- Any frame keeps the invariant. -/
theorem inv_frame {time : Moment} {frame : Option Rpc} {s s' : State}
    {answer : Except Refusal Bool} (h : Inv s)
    (hruns : Runs host node ip (dispatch node time frame s.session) s s' answer) : Inv s' := by
  unfold dispatch at hruns
  cases frame with
  | none => exact inv_done h hruns
  | some rpc =>
    dsimp only at hruns
    by_cases hout : s.session.listed = false ∨ s.session.retired = true
    · rw [if_pos hout] at hruns
      exact inv_done h hruns
    · rw [if_neg hout] at hruns
      have hactive : s.session.retired ≠ true := fun hretired => hout (.inr hretired)
      have hbooked := h.booked.resolve_left hactive
      split at hruns
      · refine inv_quiet (.write _ _ ?_ ?_) hruns h.published h.metrics h.answers hbooked
        · intro r hop
          cases hop
        · intro a
          cases a with
          | ok p => exact .done _
          | error e => exact .done _
      · split at hruns
        · exact inv_report h hactive hruns
        · split at hruns
          · exact inv_quiet (quiet_pingResult time rpc _) hruns h.published h.metrics h.answers hbooked
          · exact inv_done h hruns

/-- What can happen to a session keeps the invariant. -/
theorem inv_step {s s' : State} (h : Inv s) (hstep : Step host node ip s s') : Inv s' := by
  cases hstep with
  | frame time frame answer _ hruns => exact inv_frame h hruns
  | elsewhere db hdb =>
    exact ⟨h.published, h.metrics, h.answers, h.booked.imp_right (booked_elsewhere hdb)⟩
  | unlisted => exact ⟨h.published, h.metrics, h.answers, h.booked⟩
  | retired => exact ⟨h.published, h.metrics, h.answers, .inl rfl⟩
  | restored db => exact ⟨h.published, h.metrics, h.answers, .inl rfl⟩

/-- Every session a hub has holds the invariant. -/
theorem inv_reachable {s : State} (h : Reachable host node ip s) : Inv s := by
  induction h with
  | start db minute hbooked =>
    exact ⟨rfl, (by intro m hm; cases hm), (by intro t ht; cases ht), .inr hbooked⟩
  | step s s' _ hstep ih => exact inv_step ih hstep

/-! ## Rejected reports -/

/-- A report that does not pass the checks. -/
def Malformed (rpc : Rpc) : Prop := rpc.method = "report" ∧ ∀ m, rpc.object = some m → ¬ Accepted m

/-- Every rejecting branch comes before the first write. -/
theorem dispatch_malformed {time : Moment} {rpc : Rpc} {session : Session}
    (h : Malformed rpc) (hpublished : session.published = session.state.shown) :
    ∃ e, dispatch node time (some rpc) session = .done session (.error e) := by
  obtain ⟨hmethod, hrejected⟩ := h
  unfold dispatch
  dsimp only
  by_cases hout : session.listed = false ∨ session.retired = true
  · exact ⟨.retired, by rw [if_pos hout]⟩
  · have hhello : rpc.method ≠ "hello" := by
      rw [hmethod]
      decide
    rw [if_neg hout, if_neg hhello, if_pos hmethod]
    unfold report
    rw [publish_eq hpublished]
    cases hobject : rpc.object with
    | none => exact ⟨_, rfl⟩
    | some m =>
      dsimp only
      cases hinvalid : invalidField m with
      | some text => exact ⟨_, rfl⟩
      | none => exact absurd (invalidField_eq_none.mp hinvalid) (hrejected m hobject)

/-! ## What a visitor is shown -/

/-- A live report as the public page may show it: nothing yet, or allowlisted
keys with proper values and the figures the hub last answered with. -/
def VisitorReport (answers : List Traffic) (v : Json) : Prop :=
  v = .null ∨ ∃ m : Members, v = m.toJson ∧
    (∀ member ∈ m.list, member.1 ∈ publicMetrics ∧ Proper member.1 member.2) ∧
    ∃ t, answers.head? = some t ∧ Answered t ∧ Totals t m

/-- What is left of conforming metrics may be shown. -/
theorem visitorReport_shown {s : State} (h : Inv s) :
    VisitorReport s.answers (retainPublic s.session.published.metrics) := by
  rw [h.published]
  show VisitorReport s.answers (retainPublic (readingOf s.session.state.metrics))
  cases hmetrics : s.session.state.metrics with
  | none => exact .inl rfl
  | some m =>
    obtain ⟨hproper, t, hhead, htotals⟩ := h.metrics m hmetrics
    let kept : Members := ⟨m.list.filter fun x => publicMetrics.contains x.1, m.ascending.filter _⟩
    have hget : ∀ k, kept.get k = if publicMetrics.contains k = true then m.get k else none :=
      lookup_filter m.list publicMetrics.contains
    have htotal : ∀ k v, publicMetrics.contains k = true → m.get k = some v → kept.get k = some v := by
      intro k v hk hv
      rw [hget, if_pos hk, hv]
    refine .inr ⟨kept, rfl, ?_, t, hhead, h.answers t (List.mem_of_head? hhead), ?_⟩
    · intro member hmember
      obtain ⟨hmem, hpublic⟩ := List.mem_filter.mp hmember
      have hk := List.contains_iff_mem.mp hpublic
      exact ⟨hk, hproper _ hk _ (lookup_of_mem m.ascending hmem)⟩
    · exact ⟨htotal _ _ (by decide) htotals.totalRx, htotal _ _ (by decide) htotals.totalTx,
        htotal _ _ (by decide) htotals.monthRx, htotal _ _ (by decide) htotals.monthTx⟩

/-- Whatever the frames, the visitor's row of a node shows a proper live
report, and a malformed report asks for no write and leaves the session, with
all it holds and has published, as it was. -/
theorem live_reports_validated {s : State} (h : Reachable host node ip s) :
    (∀ (faults : FrameFaults) (hub : Hub) (n : NodeRow), hub.agents n.id = some s.session.published →
      ∃ v, (row faults hub false n).get "metrics" = some v ∧ VisitorReport s.answers v) ∧
    ∀ (time : Moment) (rpc : Rpc), Malformed rpc →
      (∃ e, dispatch node time (some rpc) s.session = .done s.session (.error e)) ∧
      ∀ s' a, Runs host node ip (dispatch node time (some rpc) s.session) s s' a →
        s'.session = s.session ∧ s'.answers = s.answers ∧ Meanwhile host s.db s'.db := by
  have hinv := inv_reachable h
  constructor
  · intro faults hub n hagent
    refine ⟨_, row_metrics faults hub n, ?_⟩
    rw [hagent]
    exact visitorReport_shown hinv
  · intro time rpc hmalformed
    obtain ⟨e, hcourse⟩ := @dispatch_malformed node time rpc s.session hmalformed hinv.published
    refine ⟨⟨e, hcourse⟩, ?_⟩
    intro s' a hruns
    rw [hcourse] at hruns
    exact (runs_done hruns).2

/-- A write whose effect is known can be answered with it. -/
theorem answers_effect {op : FrameWrite} {t : Telemetry} (hjob : op.job host node ip = t.job host)
    {db db' : Store} {p : Payload} (heffect : t.effect host db = .ok (p, db')) :
    Answers host node ip op db (.ok p) db' := by
  obtain ⟨after, session, session', p', hsession, hguard, hrun, hafter⟩ :=
    @HistoryRuns.filed_willing host t db (by
      intro e herror
      rw [heffect] at herror
      cases herror)
  subst hsession
  rcases (Telemetry.job_spec hrun hguard).2 with herror | ⟨e, herror, -⟩ | ⟨q, hq, hdone⟩
  · cases herror
  · cases herror
  · rw [heffect, Except.ok.injEq, Prod.mk.injEq] at hdone
    rw [Except.ok.injEq] at hq
    rw [hdone.2, hdone.1, ← hq]
    exact .stored session session' p' rfl hguard (by rw [hjob]; exact hrun)

/-- A report with a spoofed total and a field no list names. -/
def spoofed : Members :=
  (((⟨[], List.Pairwise.nil⟩ : Members).insert "cpu" (.int 7)).insert "serial" (.str "x")).insert
    "total_rx" (.int 999)

/-- A report that pretends totals is accepted. -/
theorem spoofed_accepted : Accepted spoofed := by
  have hget : ∀ k, spoofed.get k = if k = "total_rx" then some (.int 999) else
      if k = "serial" then some (.str "x") else if k = "cpu" then some (.int 7) else none := by
    intro k
    rw [spoofed, Members.get_insert, Members.get_insert, Members.get_insert]
    rfl
  constructor
  · intro k hk v hv
    have hcpu : k = "cpu" ∧ v = .int 7 := by
      rw [hget] at hv
      split at hv
      · rename_i htotal
        exact absurd (htotal ▸ hk) (by decide)
      · split at hv
        · rename_i hserial
          exact absurd (hserial ▸ hk) (by decide)
        · split at hv
          · rename_i hcpu
            exact ⟨hcpu, (Option.some.inj hv).symm⟩
          · cases hv
    rw [hcpu.2]
    exact .inl (number_int (by decide))
  · intro v hv
    rw [hget] at hv
    cases hv

/-- It as a frame. -/
def spoofedReport : Rpc := ⟨"report", spoofed.toJson, spoofed.ascending⟩

/-- When it arrives. -/
def arrival : Moment := ⟨0, 0, Clock.june 1 first_day⟩

/-- The counters of a single node are in order. -/
theorem oneNode_booked : Booked TrafficConservation.oneNode := by
  intro t ht
  rcases KeyedTable.Table.mem_put.mp ht with rfl | ⟨ht, -⟩
  · exact ⟨le_rfl, le_rfl, le_rfl, le_rfl⟩
  · exact absurd ht (Finset.notMem_empty t)

/-- A session that has sent it. -/
theorem spoofed_reachable (host : Host) : ∃ s t, Reachable host 1 "" s ∧
    s.session.state.metrics = some (withTotals t spoofed) := by
  obtain ⟨n, hn, -⟩ := Option.map_eq_some_iff.mp TrafficConservation.oneNode_holds.node
  have htraffic := TrafficConservation.oneNode_holds.traffic
  have hhas : TrafficConservation.oneNode.node.Has 1 := by
    obtain ⟨hmem, hid⟩ := KeyedTable.Table.find?_eq_some.mp hn
    exact ⟨n, hmem, hid⟩
  let r := reportOf spoofed.toJson arrival.clock
  obtain ⟨t, db, heffect⟩ : ∃ t db, (Telemetry.accumulate 1 r).effect host
      TrafficConservation.oneNode = .ok (.traffic (some t), db) := by
    rw [Telemetry.effect, if_pos hhas, accumulateOn, htraffic, hn]
    exact ⟨_, _, rfl⟩
  have hcourse : dispatch 1 arrival (some spoofedReport) (.fresh 0) =
      report 1 arrival spoofedReport (.fresh 0) := rfl
  have haccumulate : Answers host 1 "" (.accumulate r) TrafficConservation.oneNode
      (.ok (.traffic (some t))) db := answers_effect rfl heffect
  have htouch : Answers host 1 "" (.touchSeen 0) db (.ok .nothing) _ :=
    answers_effect (t := .touchSeen 1 0) rfl rfl
  let start : State := ⟨TrafficConservation.oneNode, .fresh 0, []⟩
  let state := ((Session.fresh 0).state.fold arrival t (withTotals t spoofed)).1
  have hobject : spoofedReport.object = some spoofed := rfl
  have hruns : ∃ db', Runs host 1 "" (dispatch 1 arrival (some spoofedReport) (.fresh 0)) start
      ⟨db', { Session.fresh 0 with state := state }.publish, [t]⟩ (.ok false) := by
    rw [hcourse, report, hobject]
    dsimp only
    rw [invalidField_eq_none.mpr spoofed_accepted]
    exact ⟨_, .write _ _ _ _ _ _ db haccumulate (.write _ _ _ _ _ _ _ htouch (.done _ _ _))⟩
  obtain ⟨db', hruns⟩ := hruns
  exact ⟨_, t, .step _ _ (.start _ 0 oneNode_booked) (.frame arrival (some spoofedReport) _ _ hruns), rfl⟩

/-- The totals it pretends are not shown. -/
theorem live_reports_validated_spoofed : ∃ s, Reachable ⟨id, fun _ => none⟩ 1 "" s ∧
    s.session.state.metrics ≠ none ∧
    ∃ v, (row .none ⟨.blank, fun _ => some s.session.published, arrival.clock⟩ false
      (SweepOutcome.announcedNode 1 "front")).get "metrics" = some v ∧ VisitorReport s.answers v := by
  obtain ⟨s, t, hreach, hmetrics⟩ := spoofed_reachable ⟨id, fun _ => none⟩
  refine ⟨s, hreach, ?_, (live_reports_validated hreach).1 _ _ _ rfl⟩
  rw [hmetrics]
  exact Option.some_ne_none _

end Romi.ReportGuarantees
