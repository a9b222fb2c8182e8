import Romi.TrafficTable

/-!
# Booked traffic is never negative

The panel refuses a negative correction, a report only adds to what is booked
and a new node starts at zero. Whatever the hub writes, the totals and the
period's figures of every node stay non-negative, and so do the figures a
report is answered with.
-/

namespace Romi.BookedTraffic

open CachedTransactions CachedTransactions.Job KeyedTable StoreAnswers StoreAreas StoreJobs
  StoreOperations StoreSchema TrafficFold TrafficTable

/-- The figures the frame shows of a row are not negative. -/
structure NonNegative (t : TrafficRow) : Prop where
  /-- Received in all. -/
  totalRx : 0 ≤ t.totalRx
  /-- Sent in all. -/
  totalTx : 0 ≤ t.totalTx
  /-- Received this month. -/
  monthRx : 0 ≤ t.monthRx
  /-- Sent this month. -/
  monthTx : 0 ≤ t.monthTx

/-- No booked figure is negative. -/
def Booked (db : Store) : Prop := ∀ t ∈ db.traffic.rows, NonNegative t

/-- What `patch_traffic` checks of a correction; other writes are free. -/
def Checked : Solo → Prop
  | .setTraffic _ p _ => ∀ v ∈ [p.totalRx, p.totalTx, p.monthRx, p.monthTx], ∀ n, v = some n → 0 ≤ n
  | _ => True

/-! ## Reports -/

/-- A saturating sum of what is not negative is not. -/
theorem saturatingAdd_nonneg {a b : Int} (ha : 0 ≤ a) (hb : 0 ≤ b) : 0 ≤ saturatingAdd a b := by
  unfold saturatingAdd JsonValue.i64Min JsonValue.i64Max
  omega

/-- A report books nothing negative. -/
theorem increments_nonneg (row : TrafficRow) (r : Report) :
    0 ≤ (increments row r).1 ∧ 0 ≤ (increments row r).2 := by
  unfold increments
  split
  · exact ⟨le_rfl, le_rfl⟩
  · split
    · exact ⟨le_rfl, le_rfl⟩
    · exact ⟨le_max_right _ _, le_max_right _ _⟩

/-- The figures a report is answered with. -/
structure Answered (t : Traffic) : Prop where
  /-- Received in all, as answered. -/
  totalRx : 0 ≤ t.totalRx
  /-- Sent in all. -/
  totalTx : 0 ≤ t.totalTx
  /-- Received this month. -/
  monthRx : 0 ≤ t.monthRx
  /-- Sent this month. -/
  monthTx : 0 ≤ t.monthTx

/-- Whatever a report claims, it cannot take a figure below zero. -/
theorem figures_nonneg {row : TrafficRow} (h : NonNegative row) (resetDay : Int) (r : Report) :
    Answered (figures row resetDay r) := by
  obtain ⟨hrx, htx⟩ := increments_nonneg row r
  unfold figures
  refine ⟨saturatingAdd_nonneg h.totalRx hrx, saturatingAdd_nonneg h.totalTx htx, ?_, ?_⟩
  · dsimp only
    split
    · exact hrx
    · exact saturatingAdd_nonneg h.monthRx hrx
  · dsimp only
    split
    · exact htx
    · exact saturatingAdd_nonneg h.monthTx htx

/-- Writing the answer back keeps the row from going negative. -/
theorem writeBack_nonneg {row : TrafficRow} (h : NonNegative row) {t : Traffic} (ht : Answered t)
    (r : Report) : NonNegative (writeBack row t r) := by
  unfold writeBack
  split
  · exact h
  · exact ⟨ht.totalRx, ht.totalTx, ht.monthRx, ht.monthTx⟩

/-- An update that keeps its rows non-negative. -/
theorem booked_updateWhere {p : TrafficRow → Prop} [DecidablePred p] {f : TrafficRow → TrafficRow}
    {hf : ∀ r, (f r).nodeId = r.nodeId} (h : ∀ r, NonNegative r → NonNegative (f r)) {db : Store}
    (hdb : Booked db) : Booked { db with traffic := db.traffic.updateWhere p f hf } := by
  intro s hs
  obtain ⟨q, hq, rfl⟩ := (Table.mem_updateWhere hf).mp hs
  split
  · exact h q (hdb q hq)
  · exact hdb q hq

/-- The answer of `accumulate_on` and the table it leaves. -/
theorem accumulateOn_booked {nodeId : Int} {r : Report} {db db' : Store} {t : Traffic}
    (h : accumulateOn nodeId r db = .ok (t, db')) (hdb : Booked db) : Answered t ∧ Booked db' := by
  unfold accumulateOn at h
  split at h
  · rename_i row n hrow hn
    cases h
    have hfigures := figures_nonneg (hdb row (Table.find?_eq_some.mp hrow).1) n.trafficResetDay r
    exact ⟨hfigures, booked_updateWhere (fun q hq => writeBack_nonneg hq hfigures r) hdb⟩
  · cases h

/-! ## Writes -/

/-- A new node starts at zero and a report books nothing below it. -/
theorem booked_trafficked : Trafficked Booked where
  aside := by
    intro db db' h hdb t ht
    rw [h] at ht
    exact hdb t ht
  made := by
    intro id db db' u h hdb
    obtain ⟨rows, hrows, hdb'⟩ := inserted_ok h
    intro t ht
    rw [hdb'] at ht
    rcases (Table.mem_of_insert? hrows).mp ht with rfl | ht
    · exact ⟨le_rfl, le_rfl, le_rfl, le_rfl⟩
    · exact hdb t ht
  reported := by
    intro nodeId r db db' t h hdb
    exact (accumulateOn_booked h hdb).2

/-- A checked correction leaves no negative figure. -/
theorem setTraffic_booked {nodeId : Int} {p : TrafficPatch} {clock : Clock}
    (h : Checked (.setTraffic nodeId p clock)) : Keeps Booked (setTraffic nodeId p clock) := by
  have hpatched : ∀ v ∈ [p.totalRx, p.totalTx, p.monthRx, p.monthTx], ∀ old, 0 ≤ old →
      0 ≤ v.getD old := by
    intro v hv old hold
    cases hsome : v with
    | none => exact hold
    | some n => exact h v hv n hsome
  have hcurrent : ∀ (stamp period : String) (n : Int), 0 ≤ n → 0 ≤ if stamp = period then n else 0 := by
    intro stamp period n hn
    split
    · exact hn
    · exact le_rfl
  refine (Preserves.query _).bind ?_
  intro day
  cases day with
  | none => exact Preserves.pure false
  | some d =>
    refine Preserves.bind (Preserves.execute fun db _ => booked_updateWhere ?_) fun _ =>
      Preserves.pure true
    intro row hrow
    refine ⟨hpatched _ ?_ _ hrow.totalRx, hpatched _ ?_ _ hrow.totalTx,
      hpatched _ ?_ _ (hcurrent _ _ _ hrow.monthRx), hpatched _ ?_ _ (hcurrent _ _ _ hrow.monthTx)⟩
    all_goals simp

/-- Wherever a checked write breaks off, nothing is booked below zero. -/
theorem solo_booked (host : Host) {op : Solo} (h : Checked op) : Keeps Booked (op.job host) := by
  refine solo_trafficked booked_trafficked host ?_ ?_
  · intro id _ db hdb t ht
    exact hdb t (Finset.filter_subset _ _ ht)
  · rintro nodeId p clock rfl
    exact setTraffic_booked h

/-- So with telemetry. -/
theorem telemetry_booked (host : Host) (op : Telemetry) : Keeps Booked (op.job host) :=
  telemetry_trafficked booked_trafficked host op

end Romi.BookedTraffic
