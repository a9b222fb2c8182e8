import Romi.AnsweredReports

/-!
# What the rows of a session account for

Every report is in the row of one window or still in the open minute, and the
rows together with the open minute cover what the totals grew by. A row whose
write failed is not written again, and what it summed up is in no other row.
-/

namespace Romi.RowAccounts

open AnsweredReports CachedTransactions JsonObjects JsonValue KeyedTable LiveReports LogWindows
  MinuteMeans MinuteRows ReportGuarantees StoreJobs StoreOperations StoreSchema TrafficFold

variable {host : Host} {node : Int} {ip : String}

/-! ## One row -/

/-- The reports of a window: the one that closed it and those since the last
that closed one. -/
def windowOf (closes : Filing → Bool) (f : Filing) (earlier : List Filing) : List Members :=
  reportsOf (f :: sinceLast closes earlier)

/-- A row of the table holds, under its minute, the means over a window and the
rates over what the totals grew by in it. -/
structure Accounts (node : Int) (closes : Filing → Bool) (f : Filing) (earlier : List Filing)
    (row : MetricRow) : Prop where
  /-- The row is the node's. -/
  owner : row.nodeId = node
  /-- Stamped with the minute. -/
  stamp : row.ts = f.minute * 60
  /-- The mean of the shares carried, where the last report has one. -/
  cpu : f.members.get "cpu" ≠ none → carried "cpu" (windowOf closes f earlier) ≠ [] →
    row.cpu = (meanOf "cpu" (windowOf closes f earlier)).value
  /-- And so for every integer column. -/
  integers : ∀ c ∈ columns, f.members.get c.1 ≠ none →
    carried c.1 (windowOf closes f earlier) ≠ [] →
    c.2 row = some (rounded (meanOf c.1 (windowOf closes f earlier)))
  /-- The rates of what was booked since the row before. -/
  rates : ∀ base, baseOf closes earlier = some base →
    RateOf row.netRx (elapsedSince base.mark f.time) (f.totals.totalRx - base.totals.totalRx) ∧
      RateOf row.netTx (elapsedSince base.mark f.time) (f.totals.totalTx - base.totals.totalTx)

/-- A rate of bytes that fit their column fits its own. -/
theorem factNumber_rate {m : Json} {key : String} {bytes elapsed : Int} (hbytes : 0 ≤ bytes)
    (hrange : bytes ≤ i64Max) (helapsed : 0 < elapsed)
    (hget : m.get key = some (.int ((max bytes 0).tdiv elapsed))) :
    RateOf (factNumber m key) elapsed bytes := by
  have hmax : max bytes 0 = bytes := by omega
  have hle : bytes.tdiv elapsed ≤ bytes := by
    rw [Int.tdiv_eq_ediv_of_nonneg hbytes]
    exact Int.ediv_le_self elapsed hbytes
  have hnonneg : 0 ≤ bytes.tdiv elapsed := Int.tdiv_nonneg hbytes helapsed.le
  have hvalue : factNumber m key = bytes.tdiv elapsed := by
    unfold factNumber
    rw [hget, hmax, Option.bind_some, asInt_int (by unfold i64Min; omega) (by omega)]
    rfl
  rw [hvalue]
  exact tdiv_rate hbytes helapsed

/-- The figures a row is completed with, whichever row it counts from. -/
theorem accounts_summary {closes : Filing → Bool} {f : Filing} {earlier : List Filing}
    (hentry : Entry node f earlier) (hreports : ∀ g ∈ earlier, ∃ rest, Entry node g rest) :
    Accounts node closes f earlier (metricRowOf node (f.time.now.tdiv 60 * 60)
      (summary ((baseOf closes earlier).map Filing.mark) f (sinceLast closes earlier)).toJson) := by
  have hreadings : ∀ key ∈ averaged, ∀ q ∈ carried key (windowOf closes f earlier), 0 ≤ q := by
    intro key hkey q hq
    obtain ⟨m, hm, hread⟩ := List.mem_filterMap.mp hq
    obtain ⟨g, hg, rfl⟩ := List.mem_map.mp hm
    rcases List.mem_cons.mp hg with rfl | hg
    · exact hentry.readings key hkey q hread
    · obtain ⟨rest, hrest⟩ := hreports g (sinceLast_subset closes earlier hg)
      exact hrest.readings key hkey q hread
  have hmean : ∀ key ∈ averaged, key ≠ "net_rx" → key ≠ "net_tx" → f.members.get key ≠ none →
      carried key (windowOf closes f earlier) ≠ [] →
      (summary ((baseOf closes earlier).map Filing.mark) f (sinceLast closes earlier)).get key =
        some (if meanFloat.contains key then .ofDouble (meanOf key (windowOf closes f earlier))
          else .int (rounded (meanOf key (windowOf closes f earlier)))) := by
    intro key hkey hrx htx hhas hcarried
    rw [summary, withRates_get hrx htx]
    exact writeInto_mean hkey hhas hcarried
  refine ⟨rfl, rfl, ?_, ?_, ?_⟩
  · intro hhas hcarried
    have hget := hmean "cpu" (by decide) (by decide) (by decide) hhas hcarried
    have hfloat : meanFloat.contains "cpu" = true := by decide
    rw [if_pos hfloat] at hget
    unfold metricRowOf
    dsimp only
    rw [Members.toJson_get, hget]
    exact Json.asFloat_ofDouble _
  · intro c hc hhas hcarried
    have hkeys : ∀ k ∈ meanInt, k ∈ averaged ∧ k ≠ "net_rx" ∧ k ≠ "net_tx" ∧
        meanFloat.contains k = false := by decide
    have hkey : c.1 ∈ meanInt := columns_averaged ▸ List.mem_map_of_mem hc
    obtain ⟨haveraged, hrx, htx, hint⟩ := hkeys c.1 hkey
    have hget := hmean c.1 haveraged hrx htx hhas hcarried
    rw [if_neg (by rw [hint]; exact Bool.false_ne_true)] at hget
    have hnonneg := meanOf_nonneg hcarried (hreadings c.1 haveraged)
    refine column_int hc (rounded_nonneg hnonneg) (rounded_range _).2 ?_
    rw [Members.toJson_get]
    exact hget
  · intro base hbase
    have hmem := baseOf_mem hbase
    obtain ⟨rest, hbaseEntry⟩ := hreports base hmem
    obtain ⟨hrx, htx⟩ := hentry.rising base hmem
    obtain ⟨hrxMax, htxMax⟩ := hentry.bounded
    have hrxBase := hbaseEntry.answered.totalRx
    have htxBase := hbaseEntry.answered.totalTx
    obtain ⟨hgetRx, hgetTx⟩ := withRates_net f.time f.totals base.mark
      ((gathered (windowOf closes f earlier)).writeInto f.members)
    have hpositive := elapsedSince_pos base.mark f.time
    unfold metricRowOf summary
    dsimp only
    rw [hbase, Option.map_some]
    constructor
    · exact factNumber_rate (by omega) (by omega) hpositive hgetRx
    · exact factNumber_rate (by omega) (by omega) hpositive hgetTx

/-- Every report of a log has its entry. -/
theorem entry_of_mem {db : Store} {session : Session} {log : List Filing}
    (h : Inv node db session log) {g : Filing} (hg : g ∈ log) : ∃ rest, Entry node g rest := by
  obtain ⟨later, rest, hsplit⟩ := List.append_of_mem hg
  exact ⟨rest, h.entries g rest ⟨later, hsplit.symm⟩⟩

/-! ## A run whose writes all succeed -/

/-- What the rows of a session and its open minute amount to. -/
structure Ledger (node : Int) (session : Session) (log : List Filing) : Prop where
  /-- Every report is in one window or in the open minute. -/
  partition : sinceLast Filing.completed log ++
    (windows Filing.completed log).flatMap (fun w => w.1 :: sinceLast Filing.completed w.2) = log
  /-- What the session has summed up so far are the reports of the open minute. -/
  openMinute : session.state.minute = gathered (reportsOf (sinceLast Filing.completed log))
  /-- The row of every window was stored and accounts for its reports. -/
  rows : ∀ w ∈ windows Filing.completed log, ∃ written, w.1.row = some written ∧
    ∃ row ∈ written.left.metric.rows, Accounts node Filing.completed w.1 w.2 row
  /-- The windows and the open minute add up to what the totals grew by. -/
  grown : ∀ first newest base, log.getLast? = some first → log.head? = some newest →
    baseOf Filing.completed log = some base → session.state.mark = some base.mark ∧
      ((windows Filing.completed log).map (growth Filing.completed fun f => f.totals.totalRx)).sum +
        (newest.totals.totalRx - base.totals.totalRx) =
          newest.totals.totalRx - first.totals.totalRx ∧
      ((windows Filing.completed log).map (growth Filing.completed fun f => f.totals.totalTx)).sum +
        (newest.totals.totalTx - base.totals.totalTx) =
          newest.totals.totalTx - first.totals.totalTx
  /-- Unless the clock steps back, each row is of a later minute than the last. -/
  once : log.Pairwise (fun later earlier => earlier.time.now ≤ later.time.now) →
    ((windows Filing.completed log).map fun w => w.1.minute).Pairwise fun later earlier =>
      earlier < later

/-- Rows of one session follow one another by minutes. -/
theorem rows_follow {log : List Filing}
    (hanother : ∀ f earlier, (f :: earlier) <:+ log → f.completed = true →
      ∀ g, earlier.find? Filing.completed = some g → g.minute ≠ f.minute)
    (hclock : log.Pairwise fun later earlier => earlier.time.now ≤ later.time.now) :
    ((windows Filing.completed log).map fun w => w.1.minute).Pairwise fun later earlier =>
      earlier < later := by
  induction log with
  | nil => exact List.Pairwise.nil
  | cons f earlier ih =>
    rw [List.pairwise_cons] at hclock
    obtain ⟨hnow, hclock⟩ := hclock
    have hrest := ih (fun g rest hsuffix =>
      hanother g rest (hsuffix.trans (List.suffix_cons f earlier))) hclock
    cases hcompleted : f.completed with
    | false => rwa [windows_open hcompleted]
    | true =>
      rw [windows_closed hcompleted, List.map_cons, List.pairwise_cons]
      refine ⟨?_, hrest⟩
      have hhead := windows_head Filing.completed earlier
      cases hwindows : windows Filing.completed earlier with
      | nil => simp
      | cons w ws =>
        rw [hwindows, List.map_cons, List.pairwise_cons] at hrest
        rw [hwindows, List.head?_cons, Option.map_some] at hhead
        have hmem : w.1 ∈ earlier := List.mem_of_find?_eq_some hhead.symm
        have hne := hanother f earlier List.suffix_rfl hcompleted w.1 hhead.symm
        have hle : w.1.minute ≤ f.minute := Int.tdiv_le_tdiv (by decide) (hnow w.1 hmem)
        have hlt : w.1.minute < f.minute := by omega
        intro minute hminute
        rw [List.map_cons, List.mem_cons] at hminute
        rcases hminute with rfl | hminute
        · exact hlt
        · exact (hrest.1 minute hminute).trans hlt

/-- In a session none of whose rows was refused, every report is in the row of
one window or in the open minute, each row holds the means of the readings its
reports carried, under the fields that its last report contains, and the rates
of its interval, the intervals cover the growth of the totals, and there is one
row a minute at most while the clock does not step back. -/
theorem minute_rows_account {db : Store} {session : Session} {log : List Filing}
    (h : Reporting host node ip db session log)
    (hstored : ∀ f ∈ log, ∀ w, f.row = some w → w.stored = true) : Ledger node session log := by
  have hinv := reporting_inv h
  refine ⟨windows_partition _ _, hinv.minute, ?_, ?_, ?_⟩
  · rintro ⟨f, earlier⟩ hwindow
    obtain ⟨hcompleted, hsuffix⟩ := mem_windows.mp hwindow
    obtain ⟨w, hrow⟩ := Option.isSome_iff_exists.mp hcompleted
    have hentry := hinv.entries f earlier hsuffix
    have hfiles := hentry.files w hrow
    have hmem : f ∈ log := hsuffix.subset List.mem_cons_self
    have hleft := hfiles.left (hstored f hmem w hrow)
    rw [hfiles.stamp, hfiles.row] at hleft
    refine ⟨w, hrow, _, hleft, accounts_summary hentry ?_⟩
    intro g hg
    exact entry_of_mem hinv (hsuffix.subset (List.mem_cons_of_mem f hg))
  · intro first newest base hfirst hnewest hbase
    refine ⟨by rw [hinv.mark, hbase]; rfl, ?_, ?_⟩
    · rw [growth_sum _ hbase hfirst]
      omega
    · rw [growth_sum _ hbase hfirst]
      omega
  · exact rows_follow fun f earlier hsuffix => (hinv.entries f earlier hsuffix).another

/-- The processor is reported in one minute and no more in the next, whose first
report completes the row. -/
theorem silent_row (host : Host) : ∃ db session first second w,
    Reporting host 1 "" db session [second, first] ∧ first.row = none ∧ second.row = some w ∧
      (∀ f ∈ [second, first], ∀ v, f.row = some v → v.stored = true) ∧
      carried "cpu" [second.members, first.members] = [50] ∧
      second.members.get "cpu" = none := by
  obtain ⟨t, db, session, row, hrun, hpresent, hlisted, hactive, hstate, hopen, -⟩ :=
    report_goes_on (.start TrafficConservation.oneNode 0 oneNode_booked : Reporting host 1 "" _ _ _)
      oneNode_present rfl rfl (momentAt 0) (cpuReport_accepted 50) true
  have hnone : row = none := hopen rfl
  have hminute : session.state.lastMinute = 0 := by
    rw [hstate, fold_same rfl]
    rfl
  obtain ⟨t', db', session', row', hrun', -, -, -, -, -, hclosed⟩ :=
    report_goes_on hrun hpresent hlisted hactive (momentAt 60) bareReport_accepted true
  obtain ⟨w, hrow, hstored⟩ := hclosed (by rw [hminute]; decide)
  refine ⟨db', session', _, _, w, hrun', hnone, hrow, ?_, ?_, bareReport_get t'⟩
  · intro f hf v hv
    rcases List.mem_cons.mp hf with rfl | hf
    · rw [← Option.some.inj (hrow.symm.trans hv)]
      exact hstored
    · rw [List.mem_singleton.mp hf] at hv
      cases hnone.symm.trans hv
  have hbare : ((withTotals t' bareReport).get "cpu").bind Json.asFloat = none := by
    rw [bareReport_get, Option.bind_none]
  rw [carried_cons_none hbare, carried_cpuReport _ (by decide)]
  rfl

/-- Two minutes, in the second of which the agent is silent. -/
theorem minute_rows_account_silent : ∃ db session first second,
    Reporting ⟨id, fun _ => none⟩ 1 "" db session [second, first] ∧ second.completed = true ∧
      Ledger 1 session [second, first] := by
  obtain ⟨db, session, first, second, w, hrun, -, hrow, hstored, -, -⟩ :=
    silent_row ⟨id, fun _ => none⟩
  refine ⟨db, session, first, second, hrun, ?_, minute_rows_account hrun hstored⟩
  rw [Filing.completed, hrow]
  rfl

/-- A field that the last report of a row leaves out is stored as 0, whatever
the reports before it carried. -/
theorem left_out_field_unaveraged : ∃ db session first second w,
    Reporting ⟨id, fun _ => none⟩ 1 "" db session [second, first] ∧
      (∀ f ∈ [second, first], ∀ v, f.row = some v → v.stored = true) ∧
      (second, [first]) ∈ windows Filing.completed [second, first] ∧ second.row = some w ∧
      carried "cpu" (windowOf Filing.completed second [first]) = [50] ∧
      ∃ row ∈ w.left.metric.rows, row.nodeId = 1 ∧ row.ts = second.minute * 60 ∧ row.cpu = 0 := by
  obtain ⟨db, session, first, second, w, hrun, hnone, hrow, hstored, hcarried, habsent⟩ :=
    silent_row ⟨id, fun _ => none⟩
  have hcompleted : second.completed = true := by
    rw [Filing.completed, hrow]
    rfl
  have hopen : first.completed = false := by
    rw [Filing.completed, hnone]
    rfl
  have hfiles := ((reporting_inv hrun).entries second [first] List.suffix_rfl).files w hrow
  have hleft := hfiles.left (hstored second List.mem_cons_self w hrow)
  rw [hfiles.stamp, hfiles.row] at hleft
  refine ⟨db, session, first, second, w, hrun, hstored, ?_, hrow, ?_, _, hleft, rfl, rfl, ?_⟩
  · exact mem_windows.mpr ⟨hcompleted, List.suffix_rfl⟩
  · rw [windowOf, sinceLast_open hopen, sinceLast_nil]
    exact hcarried
  · unfold metricRowOf
    dsimp only
    rw [Members.toJson_get, summary, withRates_get (by decide) (by decide), writeInto_absent habsent]
    rfl

end Romi.RowAccounts
