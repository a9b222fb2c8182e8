import Romi.LiveReports

/-!
# Booked totals only rise

Nothing but a correction of the panel and the removal of a node takes booked
totals back. Beside the writes of a session, as long as none of the two concerns
its node, the totals its reports are answered with rise from one to the next.
-/

namespace Romi.RisingTotals

open AgentSessions BookedTraffic CachedTransactions CachedTransactions.Job KeyedTable LiveReports
  NodeContinuity StoreAnswers StoreGuard StoreJobs StoreOperations StoreSchema TrafficFold
  TrafficTable

/-- The node's booked totals have come this far. -/
def AtLeast (node a b : Int) (db : Store) : Prop :=
  ∃ row ∈ db.traffic.rows, row.nodeId = node ∧ a ≤ saturatingAdd row.totalRx 0 ∧
    b ≤ saturatingAdd row.totalTx 0

/-! ## One report -/

/-- An increment makes a total no smaller. -/
theorem saturatingAdd_zero_le {n inc : Int} (h : 0 ≤ inc) :
    saturatingAdd n 0 ≤ saturatingAdd n inc := by
  unfold saturatingAdd
  omega

/-- To add nought afterwards changes nothing. -/
theorem saturatingAdd_twice (n inc : Int) :
    saturatingAdd (saturatingAdd n inc) 0 = saturatingAdd n inc := by
  unfold saturatingAdd JsonValue.i64Min JsonValue.i64Max
  omega

/-- What a report is answered with is not below what was booked. -/
theorem figures_rise (row : TrafficRow) (resetDay : Int) (r : Report) :
    saturatingAdd row.totalRx 0 ≤ (figures row resetDay r).totalRx ∧
      saturatingAdd row.totalTx 0 ≤ (figures row resetDay r).totalTx := by
  obtain ⟨hrx, htx⟩ := increments_nonneg row r
  exact ⟨saturatingAdd_zero_le hrx, saturatingAdd_zero_le htx⟩

/-- What a report is answered with is booked. -/
theorem writeBack_figures (row : TrafficRow) (resetDay : Int) (r : Report) :
    saturatingAdd (writeBack row (figures row resetDay r) r).totalRx 0 =
        (figures row resetDay r).totalRx ∧
      saturatingAdd (writeBack row (figures row resetDay r) r).totalTx 0 =
        (figures row resetDay r).totalTx := by
  cases hcounters : r.counters with
  | none =>
    have hnone : increments row r = (0, 0) := by
      unfold increments
      rw [hcounters]
    have hsame : writeBack row (figures row resetDay r) r = row := by
      unfold writeBack
      rw [hcounters]
    rw [hsame]
    unfold figures
    rw [hnone]
    exact ⟨rfl, rfl⟩
  | some counters =>
    obtain ⟨rx, tx⟩ := counters
    unfold writeBack
    rw [hcounters]
    exact ⟨saturatingAdd_twice _ _, saturatingAdd_twice _ _⟩

/-- A report of the node is answered with totals that have come as far, and it
books them. -/
theorem accumulateOn_rises {node : Int} {r : Report} {db db' : Store} {t : Traffic}
    (h : accumulateOn node r db = .ok (t, db')) :
    (∀ a b, AtLeast node a b db → a ≤ t.totalRx ∧ b ≤ t.totalTx) ∧
      AtLeast node t.totalRx t.totalTx db' := by
  unfold accumulateOn at h
  split at h
  · rename_i row n hrow hn
    cases h
    obtain ⟨hmem, hid⟩ := Table.find?_eq_some.mp hrow
    obtain ⟨hrx, htx⟩ := figures_rise row n.trafficResetDay r
    refine ⟨?_, ?_⟩
    · rintro a b ⟨q, hq, hnode, ha, hb⟩
      have heq : q = row := db.traffic.unique q hq row hmem (hnode.trans hid.symm)
      rw [heq] at ha hb
      exact ⟨ha.trans hrx, hb.trans htx⟩
    · obtain ⟨hbooked, hbooked'⟩ := writeBack_figures row n.trafficResetDay r
      refine ⟨writeBack row (figures row n.trafficResetDay r) r, ?_, ?_, hbooked.ge, hbooked'.ge⟩
      · refine (Table.mem_updateWhere fun x => writeBack_nodeId x _ r).mpr ⟨row, hmem, ?_⟩
        rw [if_pos hid]
      · rw [writeBack_nodeId]
        exact hid
  · cases h

/-! ## Every write -/

/-- A row the update does not single out stays. -/
theorem atLeast_updateWhere {node a b : Int} {db : Store} {p : TrafficRow → Prop} [DecidablePred p]
    {f : TrafficRow → TrafficRow} {hf : ∀ r, (f r).nodeId = r.nodeId}
    (h : ∀ r, p r → r.nodeId ≠ node) (hdb : AtLeast node a b db) :
    AtLeast node a b { db with traffic := db.traffic.updateWhere p f hf } := by
  obtain ⟨row, hrow, hid, hreached⟩ := hdb
  refine ⟨row, (Table.mem_updateWhere hf).mpr ⟨row, hrow, ?_⟩, hid, hreached⟩
  rw [if_neg fun hp => h row hp hid]

/-- Neither a new node nor a report of any node takes the totals back. -/
theorem atLeast_trafficked (node a b : Int) : Trafficked (AtLeast node a b) where
  aside := by
    intro db db' h hdb
    obtain ⟨row, hrow, hreached⟩ := hdb
    exact ⟨row, h ▸ hrow, hreached⟩
  made := by
    intro id db db' u h hdb
    obtain ⟨rows, hrows, hdb'⟩ := inserted_ok h
    obtain ⟨row, hrow, hreached⟩ := hdb
    rw [hdb']
    exact ⟨row, (Table.mem_of_insert? hrows).mpr (.inr hrow), hreached⟩
  reported := by
    intro nodeId r db db' t h hdb
    by_cases hnode : nodeId = node
    · subst hnode
      obtain ⟨hrise, row, hrow, hid, hrx, htx⟩ := accumulateOn_rises h
      obtain ⟨ha, hb⟩ := hrise a b hdb
      exact ⟨row, hrow, hid, ha.trans hrx, hb.trans htx⟩
    · unfold accumulateOn at h
      split at h
      · cases h
        exact atLeast_updateWhere (fun row hrow hid => hnode (hrow.symm.trans hid)) hdb
      · cases h

/-- The write neither corrects the node's traffic nor removes the node. -/
def Spares (node : Int) : Solo → Prop
  | .setTraffic id _ _ => id ≠ node
  | .deleteNode id => id ≠ node
  | _ => True

/-- A write of the hub that does not come from the session, and spares its node. -/
inductive Beside (host : Host) (node : Int) (db : Store) : Store → Prop
  /-- A write that spares the node. -/
  | solo (op : Solo) (hchecked : Checked op) (hspares : Spares node op)
      (answer : Except Failure Payload) (db' : Store) (h : Ran host op db answer db') :
      Beside host node db db'
  /-- A batch of telemetry. -/
  | telemetry (op : Telemetry) (session after : CachedTransactions.Session Store Guard)
      (p : Payload) (hdb : session.db = db) (hrun : op.job host session = (.ok p, after)) :
      Beside host node db after.db

variable {host : Host} {node a b : Int} {db db' : Store}

/-- What others write does not lower the totals of the node. -/
theorem beside_atLeast (h : Beside host node db db') (hdb : AtLeast node a b db) :
    AtLeast node a b db' := by
  have htrafficked := atLeast_trafficked node a b
  cases h with
  | solo op hchecked hspares answer _ hran =>
    obtain ⟨session, rfl, rfl, -⟩ := hran
    refine solo_trafficked htrafficked host ?_ ?_ session hdb
    · rintro id rfl db ⟨row, hrow, hid, hreached⟩
      refine ⟨row, Table.mem_deleteWhere.mpr ⟨hrow, ?_⟩, hid, hreached⟩
      rintro rfl
      exact hspares hid
    · rintro id p clock rfl
      refine (Preserves.query _).bind ?_
      intro day
      cases day with
      | none => exact Preserves.pure false
      | some d =>
        refine Preserves.bind (Preserves.execute fun db _ =>
          atLeast_updateWhere fun row hrow hid => hspares (hrow.symm.trans hid)) fun _ =>
            Preserves.pure true
  | telemetry op session after p hsession hrun =>
    subst hsession
    exact (telemetry_trafficked htrafficked host op).apply hrun hdb

/-- No booked figure comes to be negative. -/
theorem beside_booked (h : Beside host node db db') (hdb : Booked db) : Booked db' := by
  cases h with
  | solo op hchecked hspares answer _ hran =>
    obtain ⟨session, rfl, rfl, -⟩ := hran
    exact solo_booked host hchecked session hdb
  | telemetry op session after p hsession hrun =>
    subst hsession
    exact (telemetry_booked host op).apply hrun hdb

/-- The node stays. -/
theorem beside_has (h : Beside host node db db') (hnode : db.node.Has node) : db'.node.Has node := by
  obtain ⟨row, hrow, rfl⟩ := hnode
  cases h with
  | solo op hchecked hspares answer _ hran =>
    refine (ran_continues hran).stays row hrow ?_
    cases op <;> first | exact hspares.symm | exact id
  | telemetry op session after p hsession hrun =>
    subst hsession
    have hcontinues := telemetry_continues host session.db op session (.refl _ _)
    rw [hrun] at hcontinues
    exact hcontinues.stays row hrow id

end Romi.RisingTotals
