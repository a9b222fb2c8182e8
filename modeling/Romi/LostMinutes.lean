import Mathlib.Tactic.NormNum
import Romi.RowAccounts

/-!
# Rows that could not be stored

The sums, the mark and the minute of the last row are set before the row is
handed over, so a row that could not be stored takes its reports with it. The
rows that were stored summarise all since the one before just as long as none
was lost in between.
-/

namespace Romi.LostMinutes

open AnsweredReports CachedTransactions DoublePrecision JsonObjects JsonValue LiveReports LogWindows
  MinuteMeans MinuteRows ReportGuarantees RowAccounts StoreOperations StoreSchema

variable {host : Host} {node : Int} {ip : String}

/-- No row of the session was lost before one that was stored. -/
def Lossless (log : List Filing) : Prop :=
  log.Pairwise fun later earlier => later.kept = true → earlier.completed = true → earlier.kept = true

/-- A stored row is a completed one. -/
theorem completed_of_kept {f : Filing} (h : f.kept = true) : f.completed = true := by
  unfold Filing.kept at h
  unfold Filing.completed
  cases hrow : f.row with
  | none =>
    rw [hrow] at h
    cases h
  | some w => rfl

/-- Before a stored row it is the same whether rows were completed or stored. -/
theorem Lossless.kept_eq {log : List Filing} (h : Lossless log) {f : Filing} {earlier : List Filing}
    (hsuffix : (f :: earlier) <:+ log) (hkept : f.kept = true) :
    ∀ g ∈ earlier, g.completed = g.kept := by
  intro g hg
  have hpair := h.sublist hsuffix.sublist
  rw [List.pairwise_cons] at hpair
  cases hg' : g.kept with
  | true => exact completed_of_kept hg'
  | false =>
    cases hcompleted : g.completed with
    | false => rfl
    | true =>
      have htrue := hpair.1 g hg hkept hcompleted
      rw [hg'] at htrue
      cases htrue

/-- While no row is lost before a stored one, every stored row of a session
summarises its reports, and the bytes of them, since the row stored before. -/
theorem stored_rows_summarise {db : Store} {session : Session} {log : List Filing}
    (h : Reporting host node ip db session log) (hlossless : Lossless log) :
    ∀ w ∈ windows Filing.kept log, ∃ written, w.1.row = some written ∧
      ∃ row ∈ written.left.metric.rows, Accounts node Filing.kept w.1 w.2 row := by
  have hinv := reporting_inv h
  rintro ⟨f, earlier⟩ hwindow
  obtain ⟨hkept, hsuffix⟩ := mem_windows.mp hwindow
  obtain ⟨w, hrow, hstored⟩ := (Option.any_eq_true _ _).mp hkept
  have hsame := hlossless.kept_eq hsuffix hkept
  have hentry := hinv.entries f earlier hsuffix
  have hfiles := hentry.files w hrow
  have hleft := hfiles.left hstored
  rw [hfiles.stamp, hfiles.row, baseOf_congr hsame, sinceLast_congr hsame] at hleft
  refine ⟨w, hrow, _, hleft, accounts_summary hentry ?_⟩
  intro g hg
  exact entry_of_mem hinv (hsuffix.subset (List.mem_cons_of_mem f hg))

/-- Three reports of one session, each in another minute than the one before;
the engine stores the row of the second or refuses it, and stores the third. -/
theorem three_minutes (host : Host) (stored : Bool) : ∃ db session third second first w v,
    Reporting host 1 "" db session [third, second, first] ∧ first.row = none ∧
      second.row = some v ∧ v.stored = stored ∧ third.row = some w ∧ w.stored = true ∧
      carried "cpu" [third.members] = [0] ∧
      carried "cpu" [third.members, second.members, first.members] = [0, 100, 100] ∧
      third.members.get "cpu" ≠ none := by
  obtain ⟨t, db, session, row, hrun, hpresent, hlisted, hactive, hstate, hopen, -⟩ :=
    report_goes_on (.start TrafficConservation.oneNode 0 oneNode_booked : Reporting host 1 "" _ _ _)
      oneNode_present rfl rfl (momentAt 0) (cpuReport_accepted 100) true
  have hnone : row = none := hopen rfl
  have hminute : session.state.lastMinute = 0 := by
    rw [hstate, fold_same rfl]
    rfl
  have hother : session.state.lastMinute ≠ (momentAt 60).now.tdiv 60 := by
    rw [hminute]
    decide
  obtain ⟨t', db', session', row', hrun', hpresent', hlisted', hactive', hstate', -, hclosed⟩ :=
    report_goes_on hrun hpresent hlisted hactive (momentAt 60) (cpuReport_accepted 100) stored
  obtain ⟨v, hrow, hv⟩ := hclosed hother
  have hminute' : session'.state.lastMinute = 1 := by
    rw [hstate', fold_other hother]
    rfl
  have hother' : session'.state.lastMinute ≠ (momentAt 120).now.tdiv 60 := by
    rw [hminute']
    decide
  obtain ⟨t'', db'', session'', row'', hrun'', -, -, -, -, -, hclosed'⟩ :=
    report_goes_on hrun' hpresent' hlisted' hactive' (momentAt 120) (cpuReport_accepted 0) true
  obtain ⟨w, hrow', hw⟩ := hclosed' hother'
  refine ⟨db'', session'', _, _, _, w, v, hrun'', hnone, hrow, hv, hrow', hw, ?_, ?_, ?_⟩
  · exact carried_cpuReport t'' (by decide) []
  · rw [carried_cpuReport _ (by decide), carried_cpuReport _ (by decide),
      carried_cpuReport _ (by decide)]
    rfl
  · rw [cpuReport_get]
    exact Option.some_ne_none _

/-- A minute with a row is kept when the row is stored. -/
theorem kept_of_row {f : Filing} {w : RowWrite} (h : f.row = some w) : f.kept = w.stored := by
  rw [Filing.kept, h]
  rfl

/-- And it is complete. -/
theorem completed_of_row {f : Filing} {w : RowWrite} (h : f.row = some w) : f.completed = true := by
  rw [Filing.completed, h]
  rfl

/-- Three minutes, of which the last two have rows that are stored. -/
theorem stored_rows_summarise_three : ∃ db session third second first,
    Reporting ⟨id, fun _ => none⟩ 1 "" db session [third, second, first] ∧
      third.kept = true ∧ second.kept = true ∧
      ∀ w ∈ windows Filing.kept [third, second, first], ∃ written, w.1.row = some written ∧
        ∃ row ∈ written.left.metric.rows, Accounts 1 Filing.kept w.1 w.2 row := by
  obtain ⟨db, session, third, second, first, w, v, hrun, hnone, hsecond, hv, hthird, hw, -⟩ :=
    three_minutes ⟨id, fun _ => none⟩ true
  have hkept : second.kept = true := (kept_of_row hsecond).trans hv
  have hfirst : first.completed = false := by
    rw [Filing.completed, hnone]
    rfl
  refine ⟨db, session, third, second, first, hrun, (kept_of_row hthird).trans hw, hkept,
    stored_rows_summarise hrun ?_⟩
  simp [Lossless, hkept, hfirst]

/-- After a row that was refused, the next stored one leaves its reports out. -/
theorem refused_row_lost : ∃ db session third second first w,
    Reporting ⟨id, fun _ => none⟩ 1 "" db session [third, second, first] ∧
      (third, [second, first]) ∈ windows Filing.kept [third, second, first] ∧
      third.row = some w ∧ second.completed = true ∧ second.kept = false ∧
      carried "cpu" (windowOf Filing.kept third [second, first]) = [0, 100, 100] ∧
      ∃ row ∈ w.left.metric.rows, row.nodeId = 1 ∧ row.ts = third.minute * 60 ∧ row.cpu = 0 ∧
        ¬ Accounts 1 Filing.kept third [second, first] row := by
  obtain ⟨db, session, third, second, first, w, v, hrun, hnone, hsecond, hv, hthird, hw, hlast,
    hall, hhas⟩ := three_minutes ⟨id, fun _ => none⟩ false
  have hinv := reporting_inv hrun
  have hkept : third.kept = true := (kept_of_row hthird).trans hw
  have hlost : second.kept = false := (kept_of_row hsecond).trans hv
  have hfirst : first.kept = false := by
    rw [Filing.kept, hnone]
    rfl
  have hcompleted := completed_of_row hsecond
  have hentry := hinv.entries third [second, first] List.suffix_rfl
  have hfiles := hentry.files w hthird
  have hleft := hfiles.left hw
  rw [hfiles.stamp, hfiles.row] at hleft
  have haccounts := @accounts_summary 1 Filing.completed third [second, first] hentry fun g hg =>
    entry_of_mem hinv (List.mem_cons_of_mem third hg)
  have hfolded : carried "cpu" (windowOf Filing.completed third [second, first]) = [0] := by
    rw [windowOf, sinceLast_closed hcompleted]
    exact hlast
  have hdue : carried "cpu" (windowOf Filing.kept third [second, first]) = [0, 100, 100] := by
    rw [windowOf, sinceLast_open hlost, sinceLast_open hfirst, sinceLast_nil]
    exact hall
  have hcpu := haccounts.cpu hhas (by rw [hfolded]; decide)
  have hzero : meanOf "cpu" (windowOf Filing.completed third [second, first]) = .finite 0 := by
    rw [meanOf, hfolded]
    decide +kernel
  have hmean : meanOf "cpu" (windowOf Filing.kept third [second, first]) = ofRat (200 / 3) := by
    rw [meanOf, hdue]
    decide +kernel
  rw [hzero] at hcpu
  refine ⟨db, session, third, second, first, w, hrun, mem_windows.mpr ⟨hkept, List.suffix_rfl⟩,
    hthird, hcompleted, hlost, hdue, _, hleft, rfl, rfl, hcpu, ?_⟩
  intro hwrong
  have hwrongCpu := hwrong.cpu hhas (by rw [hdue]; decide)
  rw [hcpu, hmean] at hwrongCpu
  exact absurd hwrongCpu (by decide +kernel)

end Romi.LostMinutes
