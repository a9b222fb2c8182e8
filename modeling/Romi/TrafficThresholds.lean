import Romi.SweepRuns

/-!
# When a traffic threshold is announced

A sweep compares the tier of the allowance a node has reached with the tier
the watch recorded for it. What the watch records is exactly what the latest
sweep found that metered the node, so a sweep announces a tier when it is
higher than the one found before, and usage that only climbs inside a billing
period reaches each tier of it once.
-/

namespace Romi.TrafficThresholds

open CachedTransactions KeyedTable NotifySweep StoreJobs StoreSchema SweepOutcome SweepRuns TrafficFold

/-! ## What a sweep finds -/

/-- One sweep with everything it meets. -/
structure Pass where
  /-- What is not the hub's own. -/
  host : SweepHost
  /-- Which reads and writes fail. -/
  faults : SweepFaults
  /-- Who is connected. -/
  online : Int → Bool
  /-- The time of the sweep. -/
  now : Int
  /-- The store it begins on. -/
  db : Store

namespace Pass

/-- The sweep itself. -/
def run (p : Pass) (w : Watch) : Passage (List Note) :=
  sweep p.host p.faults p.online p.now w p.db

/-- It reached its end. -/
def Succeeds (p : Pass) (w : Watch) : Prop := ∃ notes, (p.run w).result = .ok notes

/-- The configured percent. -/
def percent (p : Pass) : Int := number p.faults p.db "notify_traffic"

/-- Some channel is configured. -/
def armed (p : Pass) : Bool := !(channels p.faults p.db).isEmpty

/-- The traffic a sweep looks at. -/
def traffic (p : Pass) : Int → Option Traffic :=
  if 0 < p.percent ∧ p.armed ∧ !p.faults.traffic then allTraffic p.host.today p.db
  else fun _ => none

/-- The node is in the table. -/
def HasNode (p : Pass) (n : Int) : Prop := n ∈ (nodes p.db).map NodeRow.id

instance (p : Pass) (n : Int) : Decidable (p.HasNode n) :=
  inferInstanceAs (Decidable (n ∈ (nodes p.db).map NodeRow.id))

/-- A node with an allowance and the traffic held against it. -/
def reading (p : Pass) (n : Int) : Option (NodeRow × Traffic) := do
  let node ← (p.db.node.find? n).filter fun node => 0 < node.trafficLimit
  let t ← p.traffic n
  pure (node, t)

end Pass

/-- The tier of its allowance a node has reached. -/
def tierOf (percent : Int) (node : NodeRow) (t : Traffic) : Int :=
  let reached (p : Int) : Bool := usedOf node.trafficMode t * 100 ≥ node.trafficLimit * p
  if reached 100 then 100 else if reached percent then percent else 0

namespace Pass

/-- The billing period a sweep finds a node in and the tier it has reached. -/
def finding (p : Pass) (n : Int) : Option (String × Int) :=
  (p.reading n).map fun x => (x.2.monthStart, tierOf p.percent x.1 x.2)

/-- The billing period and the bytes used in it. -/
def usage (p : Pass) (n : Int) : Option (String × Int) :=
  (p.reading n).map fun x => (x.2.monthStart, usedOf x.1.trafficMode x.2)

/-- The state of a sweep between its two loops. -/
def halfway (p : Pass) (w : Watch) : Passage Lists :=
  presence (roundAt p.host p.faults p.online p.now p.db) p.faults.write (nodes p.db)
    (w.retain ((nodes p.db).map NodeRow.id)) p.db

/-- The second loop of the sweep. -/
def metering (p : Pass) (w : Watch) : Watch × List Item :=
  let h := p.halfway w
  let percent := number p.faults h.db "notify_traffic"
  let traffic := if 0 < percent ∧ p.armed ∧ !p.faults.traffic then allTraffic p.host.today h.db
    else fun _ => none
  meter p.host percent traffic ((nodes p.db).filter fun n => 0 < n.trafficLimit) h.watch

/-- The nodes the traffic note of the sweep is about. -/
def metered (p : Pass) (w : Watch) : List Item := (p.metering w).2

/-- The sweep announces that a node has reached a tier of a billing period. -/
def Announces (p : Pass) (w : Watch) (n : Int) (period : String) (tier : Int) : Prop :=
  n ∈ (p.metered w).map (fun i => i.node.id) ∧ p.finding n = some (period, tier)

end Pass

/-- A sweep that reaches its end sends its notes on presence and one on traffic. -/
theorem run_eq {p : Pass} {w : Watch} (h : p.Succeeds w) :
    ∃ lists, (p.halfway w).result = .ok lists ∧
      p.run w = ⟨{ (p.metering w).1 with primed := true }, (p.halfway w).db,
        .ok (presenceNotes lists ++ (batch "traffic" "⚠️" "流量提醒" (p.metered w)).toList)⟩ := by
  obtain ⟨notes, hnotes⟩ := h
  have hrun : p.run w = sweep p.host p.faults p.online p.now w p.db := rfl
  have hhalf : p.halfway w = presence (roundAt p.host p.faults p.online p.now p.db) p.faults.write
    (nodes p.db) (w.retain ((nodes p.db).map NodeRow.id)) p.db := rfl
  rw [hrun] at hnotes ⊢
  unfold sweep at hnotes ⊢
  cases hfault : p.faults.nodes with
  | some e =>
    rw [hfault] at hnotes
    cases hnotes
  | none =>
    rw [hfault] at hnotes
    dsimp only at hnotes ⊢
    rw [← hhalf] at hnotes ⊢
    cases hres : (p.halfway w).result with
    | error e =>
      rw [hres] at hnotes
      cases hnotes
    | ok lists => exact ⟨lists, rfl, rfl⟩

/-! ## The first loop leaves traffic alone -/

/-- Nothing a traffic alert is computed from differs. -/
structure SameBilling (db db' : Store) : Prop where
  /-- The settings. -/
  setting : db'.setting = db.setting
  /-- The counters. -/
  traffic : db'.traffic = db.traffic
  /-- The days the periods begin on. -/
  resetDay : ∀ n, (db'.node.find? n).map NodeRow.trafficResetDay =
    (db.node.find? n).map NodeRow.trafficResetDay

/-- A store bills as itself. -/
theorem SameBilling.refl (db : Store) : SameBilling db db := ⟨rfl, rfl, fun _ => rfl⟩

/-- And as what bills as one that does. -/
theorem SameBilling.trans {a b c : Store} (h : SameBilling a b) (h' : SameBilling b c) :
    SameBilling a c :=
  ⟨h'.setting.trans h.setting, h'.traffic.trans h.traffic, fun n => (h'.resetDay n).trans (h.resetDay n)⟩

/-- When a node went down is not billed. -/
theorem sameBilling_setDown (id ts : Int) (db : Store) : SameBilling db (setDown id ts db) := by
  refine ⟨rfl, rfl, ?_⟩
  intro n
  rw [find_setDown, Option.map_map]
  refine Option.map_congr ?_
  intro r _
  dsimp only [Function.comp]
  split <;> rfl

/-- The first loop leaves what is known of the traffic. -/
theorem visit_traffic (r : Round) (node : NodeRow) (w : Watch) :
    (visit r node w).1.traffic = w.traffic ∧ (visit r node w).1.primed = w.primed := by
  cases honline : r.online node.id with
  | true =>
    rw [visit_online honline]
    exact ⟨rfl, rfl⟩
  | false =>
    by_cases hseen : node.lastSeen = 0
    · rw [visit_unseen honline hseen]
      exact ⟨rfl, rfl⟩
    · rw [visit_absent honline hseen]
      exact ⟨rfl, rfl⟩

/-- Wherever it ends, the first loop changes neither what is known of traffic nor
what it is computed from. -/
theorem presence_traffic (r : Round) (fails : Int → Option Failure) (list : List NodeRow)
    (w : Watch) (db : Store) :
    (presence r fails list w db).watch.traffic = w.traffic ∧
      (presence r fails list w db).watch.primed = w.primed ∧
      SameBilling db (presence r fails list w db).db := by
  induction list generalizing w db with
  | nil => exact ⟨rfl, rfl, .refl db⟩
  | cons node rest ih =>
    obtain ⟨htraffic, hprimed⟩ := visit_traffic r node w
    have hvisit : visit r node w = ((visit r node w).1, (visit r node w).2) := rfl
    rw [presence, hvisit]
    cases (visit r node w).2 with
    | none =>
      dsimp only
      obtain ⟨ht, hp, hb⟩ := ih (visit r node w).1 db
      exact ⟨ht.trans htraffic, hp.trans hprimed, hb⟩
    | some due =>
      dsimp only
      cases fails node.id with
      | some e => exact ⟨htraffic, hprimed, .refl db⟩
      | none =>
        obtain ⟨ht, hp, hb⟩ := ih (visit r node w).1 (setDown node.id due.since db)
        exact ⟨ht.trans htraffic, hp.trans hprimed, (sameBilling_setDown _ _ db).trans hb⟩

/-- The same settings give the same numbers. -/
theorem number_congr {db db' : Store} (h : SameBilling db db') (faults : SweepFaults)
    (key : String) : number faults db' key = number faults db key := by
  unfold number NotifySweep.get
  rw [h.setting]

/-- Stores that bill alike show the same traffic. -/
theorem allTraffic_congr {db db' : Store} (h : SameBilling db db') (today : Clock) :
    allTraffic today db' = allTraffic today db := by
  funext n
  have hday := h.resetDay n
  unfold allTraffic
  rw [h.traffic]
  cases db.traffic.find? n with
  | none => rfl
  | some t =>
    cases hold : db.node.find? n with
    | none =>
      rw [hold, Option.map_none, Option.map_eq_none_iff] at hday
      rw [hday]
    | some r =>
      rw [hold, Option.map_some] at hday
      obtain ⟨r', hr', hsame⟩ := Option.map_eq_some_iff.mp hday
      rw [hr']
      simp only [bind, Option.bind, hsame]

/-- The second loop runs on the figures the sweep began with. -/
theorem metering_eq (p : Pass) (w : Watch) : p.metering w =
    meter p.host p.percent p.traffic ((nodes p.db).filter fun n => 0 < n.trafficLimit)
      (p.halfway w).watch := by
  have hsame : SameBilling p.db (p.halfway w).db := (presence_traffic _ _ _ _ _).2.2
  unfold Pass.metering Pass.traffic Pass.percent
  dsimp only
  rw [number_congr hsame, allTraffic_congr hsame]

/-! ## The second loop -/

/-- The tier recorded for a node covers this one. -/
def Covers (known : Option (String × Int)) (period : String) (tier : Int) : Prop :=
  ∃ last, known = some (period, last) ∧ tier ≤ last

/-- What one round of the second loop does with a node that has traffic. -/
theorem meter_cons {host : SweepHost} {percent : Int} {traffic : Int → Option Traffic}
    {node : NodeRow} {t : Traffic} (ht : traffic node.id = some t) (rest : List NodeRow)
    (w : Watch) : ∃ told : Bool, ∃ detail,
      (told = true ↔ Covers (w.traffic node.id) t.monthStart (tierOf percent node t)) ∧
      meter host percent traffic (node :: rest) w =
        (let found := some (t.monthStart, tierOf percent node t)
         let p := meter host percent traffic rest
          { w with traffic := Function.update w.traffic node.id found }
         if tierOf percent node t = 0 ∨ told ∨ !w.primed then p
         else (p.1, ⟨node, detail⟩ :: p.2)) := by
  rw [meter, ht]
  refine ⟨_, _, ?_, rfl⟩
  unfold Covers tierOf
  cases w.traffic node.id with
  | none => simp
  | some known =>
    obtain ⟨period, last⟩ := known
    simp only [decide_eq_true_eq, Option.some.injEq, Prod.mk.injEq]
    constructor
    · rintro ⟨rfl, hle⟩
      exact ⟨last, ⟨rfl, rfl⟩, hle⟩
    · rintro ⟨last', ⟨rfl, rfl⟩, hle⟩
      exact ⟨rfl, hle⟩

/-- The second loop ends with this watch and these announcements: each listed node with
traffic is found in its tier and announced where that is news, nothing else changes. -/
structure Metered (percent : Int) (traffic : Int → Option Traffic) (list : List NodeRow)
    (w : Watch) (p : Watch × List Item) : Prop where
  /-- Whether the watch has been primed is left as it was. -/
  primed : p.1.primed = w.primed
  /-- A node that is not listed is neither recorded nor announced. -/
  others : ∀ n, n ∉ list.map NodeRow.id →
    p.1.traffic n = w.traffic n ∧ n ∉ p.2.map fun i => i.node.id
  /-- What is recorded for a listed node. -/
  recorded : ∀ node ∈ list, p.1.traffic node.id =
    (match traffic node.id with
    | some t => some (t.monthStart, tierOf percent node t)
    | none => w.traffic node.id)
  /-- When a listed node is announced. -/
  announced : ∀ node ∈ list, (node.id ∈ p.2.map (fun i => i.node.id) ↔
    ∃ t, traffic node.id = some t ∧ tierOf percent node t ≠ 0 ∧ w.primed = true ∧
      ¬ Covers (w.traffic node.id) t.monthStart (tierOf percent node t))

section
variable {percent : Int} {traffic : Int → Option Traffic} {m : NodeRow} {rest : List NodeRow}
  {w : Watch} {p : Watch × List Item}

/-- A node without traffic is passed over. -/
theorem Metered.skip (hnew : m.id ∉ rest.map NodeRow.id) (ht : traffic m.id = none)
    (h : Metered percent traffic rest w p) : Metered percent traffic (m :: rest) w p := by
  have hself := h.others m.id hnew
  refine ⟨h.primed, ?_, ?_, ?_⟩
  · intro n hn
    rw [List.map_cons, List.mem_cons, not_or] at hn
    exact h.others n hn.2
  · intro node hnode
    rcases List.mem_cons.mp hnode with rfl | hnode
    · rw [ht]
      exact hself.1
    · exact h.recorded node hnode
  · intro node hnode
    rcases List.mem_cons.mp hnode with rfl | hnode
    · rw [ht]
      constructor
      · intro hmem
        exact absurd hmem hself.2
      · rintro ⟨t, hnone, -⟩
        cases hnone
    · exact h.announced node hnode

/-- A node with traffic is recorded first; its announcement comes before those of the rest. -/
theorem Metered.find {t : Traffic} {items : List Item} (hnew : m.id ∉ rest.map NodeRow.id)
    (ht : traffic m.id = some t)
    (h : Metered percent traffic rest
      { w with traffic := Function.update w.traffic m.id (some (t.monthStart, tierOf percent m t)) } p)
    (hitems : ∀ n, n ∈ items.map (fun i => i.node.id) ↔
      (n = m.id ∧ tierOf percent m t ≠ 0 ∧ w.primed = true ∧
        ¬ Covers (w.traffic m.id) t.monthStart (tierOf percent m t)) ∨
      n ∈ p.2.map fun i => i.node.id) :
    Metered percent traffic (m :: rest) w (p.1, items) := by
  have hother : ∀ n, n ≠ m.id → Function.update w.traffic m.id
      (some (t.monthStart, tierOf percent m t)) n = w.traffic n := by
    intro n hn
    exact Function.update_of_ne hn _ _
  have hself := h.others m.id hnew
  have hne : ∀ node ∈ rest, node.id ≠ m.id := by
    intro node hnode heq
    exact hnew (heq ▸ List.mem_map_of_mem hnode)
  refine ⟨h.primed, ?_, ?_, ?_⟩
  · intro n hn
    rw [List.map_cons, List.mem_cons, not_or] at hn
    refine ⟨(h.others n hn.2).1.trans (hother n hn.1), ?_⟩
    rw [hitems]
    rintro (⟨rfl, -⟩ | hmem)
    · exact hn.1 rfl
    · exact (h.others n hn.2).2 hmem
  · intro node hnode
    rcases List.mem_cons.mp hnode with rfl | hnode
    · rw [ht]
      exact hself.1.trans (Function.update_self _ _ _)
    · refine (h.recorded node hnode).trans ?_
      dsimp only
      rw [hother node.id (hne node hnode)]
  · intro node hnode
    rw [hitems]
    rcases List.mem_cons.mp hnode with rfl | hnode
    · rw [ht]
      constructor
      · rintro (⟨-, htold⟩ | hmem)
        · exact ⟨t, rfl, htold⟩
        · exact absurd hmem hself.2
      · rintro ⟨t', ht', htold⟩
        cases ht'
        exact .inl ⟨rfl, htold⟩
    · rw [h.announced node hnode]
      dsimp only
      rw [hother node.id (hne node hnode)]
      constructor
      · rintro (⟨heq, -⟩ | hmem)
        · exact absurd heq (hne node hnode)
        · exact hmem
      · exact .inr

end

/-- Whose announcements a node with traffic comes with: its own, where its tier is news, and
those of the rest. -/
theorem meter_items {host : SweepHost} {percent : Int} {traffic : Int → Option Traffic}
    {m : NodeRow} {t : Traffic} (ht : traffic m.id = some t) (rest : List NodeRow) (w : Watch) :
    let p := meter host percent traffic rest
      { w with traffic := Function.update w.traffic m.id (some (t.monthStart, tierOf percent m t)) }
    ∃ items, meter host percent traffic (m :: rest) w = (p.1, items) ∧
      ∀ n, n ∈ items.map (fun i => i.node.id) ↔
        (n = m.id ∧ tierOf percent m t ≠ 0 ∧ w.primed = true ∧
          ¬ Covers (w.traffic m.id) t.monthStart (tierOf percent m t)) ∨
        n ∈ p.2.map fun i => i.node.id := by
  intro p
  obtain ⟨told, detail, htold, hmeter⟩ := @meter_cons host percent _ _ _ ht rest w
  dsimp only at hmeter
  by_cases hquiet : tierOf percent m t = 0 ∨ told = true ∨ (!w.primed) = true
  · rw [if_pos hquiet] at hmeter
    refine ⟨p.2, hmeter, ?_⟩
    intro n
    refine (or_iff_right ?_).symm
    rintro ⟨-, hloud, hprimed, hnews⟩
    rcases hquiet with hzero | hcovered | hunprimed
    · exact hloud hzero
    · exact hnews (htold.mp hcovered)
    · rw [hprimed] at hunprimed
      cases hunprimed
  · rw [if_neg hquiet] at hmeter
    refine ⟨_, hmeter, ?_⟩
    intro n
    simp only [not_or, Bool.not_eq_true', Bool.not_eq_false] at hquiet
    rw [List.map_cons, List.mem_cons]
    refine or_congr_left ?_
    exact ⟨fun hn => ⟨hn, hquiet.1, hquiet.2.2, fun hc => hquiet.2.1 (htold.mpr hc)⟩, And.left⟩

/-- What the second loop leaves in the watch and whom it announces. -/
theorem meter_spec (host : SweepHost) (percent : Int) (traffic : Int → Option Traffic)
    {list : List NodeRow} (hnodup : (list.map NodeRow.id).Nodup) (w : Watch) :
    Metered percent traffic list w (meter host percent traffic list w) := by
  induction list generalizing w with
  | nil =>
    have hnil : meter host percent traffic [] w = (w, []) := by rw [meter]
    rw [hnil]
    exact ⟨rfl, fun n _ => ⟨rfl, List.not_mem_nil⟩, List.forall_mem_nil _, List.forall_mem_nil _⟩
  | cons m rest ih =>
    rw [List.map_cons, List.nodup_cons] at hnodup
    cases ht : traffic m.id with
    | none =>
      have hskip : meter host percent traffic (m :: rest) w = meter host percent traffic rest w := by
        rw [meter, ht]
      rw [hskip]
      exact (ih hnodup.2 w).skip hnodup.1 ht
    | some t =>
      obtain ⟨items, hmeter, hitems⟩ := meter_items ht rest w
      rw [hmeter]
      exact (ih hnodup.2 _).find hnodup.1 ht hitems

/-! ## One sweep -/

/-- A listed node with an allowance is metered as it is found. -/
theorem finding_of_row {p : Pass} {node : NodeRow} (hnode : node ∈ nodes p.db)
    (hlimit : 0 < node.trafficLimit) : p.finding node.id =
      (p.traffic node.id).map fun t => (t.monthStart, tierOf p.percent node t) := by
  have hfind : (p.db.node.find? node.id).filter (fun node => decide (0 < node.trafficLimit)) =
      some node := by
    rw [find_of_mem hnode, Option.filter_some, if_pos (decide_eq_true hlimit)]
  unfold Pass.finding Pass.reading
  rw [hfind]
  cases p.traffic node.id <;> rfl

/-- A node that is metered is listed and has an allowance. -/
theorem reading_some {p : Pass} {n : Int} {node : NodeRow} {t : Traffic}
    (h : p.reading n = some (node, t)) :
    node ∈ nodes p.db ∧ node.id = n ∧ 0 < node.trafficLimit ∧ p.traffic n = some t := by
  unfold Pass.reading at h
  obtain ⟨row, hrow, h⟩ := Option.bind_eq_some_iff.mp h
  obtain ⟨t', ht, h⟩ := Option.bind_eq_some_iff.mp h
  rw [Option.pure_def, Option.some.injEq, Prod.mk.injEq] at h
  obtain ⟨rfl, rfl⟩ := h
  obtain ⟨hfind, hlimit⟩ := Option.filter_eq_some_iff.mp hrow
  obtain ⟨hmem, hid⟩ := Table.find?_eq_some.mp hfind
  exact ⟨mem_nodes.mpr hmem, hid, of_decide_eq_true hlimit, ht⟩

/-- What is found of a node is read from its row and its counters. -/
theorem finding_some {p : Pass} {n : Int} {period : String} {tier : Int}
    (h : p.finding n = some (period, tier)) :
    ∃ node t, p.reading n = some (node, t) ∧ period = t.monthStart ∧
      tier = tierOf p.percent node t := by
  obtain ⟨x, hx, heq⟩ := Option.map_eq_some_iff.mp h
  rw [Prod.mk.injEq] at heq
  exact ⟨x.1, x.2, hx, heq.1.symm, heq.2.symm⟩

/-- A node that is metered is listed. -/
theorem hasNode_of_finding {p : Pass} {n : Int} {found : String × Int}
    (h : p.finding n = some found) : p.HasNode n := by
  obtain ⟨node, t, hread, -⟩ := finding_some (show p.finding n = some (found.1, found.2) from h)
  obtain ⟨hnode, hid, -⟩ := reading_some hread
  rw [Pass.HasNode, ← hid]
  exact List.mem_map_of_mem hnode

/-- What one sweep does with what it knows of a node's traffic. -/
theorem metering_spec (p : Pass) (w : Watch) (n : Int) :
    ((p.metering w).1.traffic n =
      if p.HasNode n then (p.finding n).or (w.traffic n) else none) ∧
    (n ∈ (p.metered w).map (fun i => i.node.id) ↔
      ∃ period tier, p.finding n = some (period, tier) ∧ tier ≠ 0 ∧ w.primed = true ∧
        ¬ Covers (w.traffic n) period tier) := by
  obtain ⟨htraffic, hprimed, -⟩ := presence_traffic
    (roundAt p.host p.faults p.online p.now p.db) p.faults.write (nodes p.db)
    (w.retain ((nodes p.db).map NodeRow.id)) p.db
  have hknown : (p.halfway w).watch.traffic n = if p.HasNode n then w.traffic n else none :=
    congrFun htraffic n
  have hlit : (p.halfway w).watch.primed = w.primed := hprimed
  have hnodup : (((nodes p.db).filter fun n => 0 < n.trafficLimit).map NodeRow.id).Nodup :=
    (nodes_nodup p.db).sublist (List.Sublist.map _ List.filter_sublist)
  have hspec := meter_spec p.host p.percent p.traffic hnodup (p.halfway w).watch
  rw [Pass.metered, metering_eq]
  by_cases hmetered : n ∈ ((nodes p.db).filter fun n => 0 < n.trafficLimit).map NodeRow.id
  · obtain ⟨node, hmem, rfl⟩ := List.mem_map.mp hmetered
    obtain ⟨hnode, hlimit⟩ := List.mem_filter.mp hmem
    have hfound := finding_of_row hnode (of_decide_eq_true hlimit)
    have hhas : p.HasNode node.id := List.mem_map_of_mem hnode
    rw [if_pos hhas] at hknown
    rw [hspec.recorded node hmem, hspec.announced node hmem, hlit, hknown, if_pos hhas, hfound]
    cases p.traffic node.id with
    | none => simp
    | some t => simp
  · have hnone : p.finding n = none := by
      by_contra hsome
      obtain ⟨found, hfound⟩ := Option.ne_none_iff_exists'.mp hsome
      obtain ⟨node, t, hread, -⟩ := finding_some (show p.finding n = some (found.1, found.2) from hfound)
      obtain ⟨hnode, hid, hlimit, -⟩ := reading_some hread
      refine hmetered ?_
      rw [← hid]
      exact List.mem_map_of_mem (List.mem_filter.mpr ⟨hnode, decide_eq_true hlimit⟩)
    obtain ⟨hkept, hquiet⟩ := hspec.others n hmetered
    rw [hkept, hknown, hnone, Option.none_or]
    refine ⟨rfl, ?_⟩
    constructor
    · intro hmem
      exact absurd hmem hquiet
    · rintro ⟨period, tier, hcontra, -⟩
      cases hcontra

/-! ## Sweeps one after another -/

/-- The watch after some sweeps of one process. -/
def watchAfter (passes : List Pass) : Watch := passes.foldl (fun w p => (p.run w).watch) Watch.fresh

/-- One more sweep. -/
theorem watchAfter_concat (passes : List Pass) (p : Pass) :
    watchAfter (passes ++ [p]) = (p.run (watchAfter passes)).watch := by
  rw [watchAfter, List.foldl_append]
  rfl

/-- Every sweep reaches its end. -/
def AllSucceed (passes : List Pass) : Prop :=
  ∀ before p after, passes = before ++ p :: after → p.Succeeds (watchAfter before)

/-- If all succeed, so do the first of them. -/
theorem AllSucceed.left {before after : List Pass} (h : AllSucceed (before ++ after)) :
    AllSucceed before := by
  intro b p a heq
  refine h b p (a ++ after) ?_
  rw [heq, List.append_assoc, List.cons_append]

/-- What the latest sweep found that metered the node; nothing once a sweep has
not found the node in the table. -/
def lastFinding (passes : List Pass) (n : Int) : Option (String × Int) :=
  passes.foldl (fun last p => if p.HasNode n then (p.finding n).or last else none) none

/-- The last finding after one more sweep. -/
theorem lastFinding_concat (passes : List Pass) (p : Pass) (n : Int) :
    lastFinding (passes ++ [p]) n =
      if p.HasNode n then (p.finding n).or (lastFinding passes n) else none := by
  rw [lastFinding, List.foldl_append]
  rfl

/-- A node the previous sweep metered was last found as that sweep found it. -/
theorem lastFinding_previous {p : Pass} {n : Int} {found : String × Int}
    (h : p.finding n = some found) (passes : List Pass) :
    lastFinding (passes ++ [p]) n = some found := by
  rw [lastFinding_concat, if_pos (hasNode_of_finding h), h, Option.some_or]

/-- The watch knows of each node what was last found, and is primed after one sweep. -/
theorem watch_knows {passes : List Pass} (h : AllSucceed passes) :
    (∀ n, (watchAfter passes).traffic n = lastFinding passes n) ∧
      ((watchAfter passes).primed = true ↔ passes ≠ []) := by
  induction passes using List.reverseRecOn with
  | nil => exact ⟨fun _ => rfl, ⟨nofun, fun hne => absurd rfl hne⟩⟩
  | append_singleton passes p ih =>
    obtain ⟨hknown, -⟩ := ih h.left
    obtain ⟨lists, -, hrun⟩ := run_eq (h passes p [] rfl)
    rw [watchAfter_concat, hrun]
    refine ⟨?_, ?_⟩
    · intro n
      rw [lastFinding_concat, ← hknown]
      exact (metering_spec p (watchAfter passes) n).1
    · exact ⟨fun _ => List.append_ne_nil_of_right_ne_nil _ (List.cons_ne_nil _ _), fun _ => rfl⟩

/-- A sweep announces a tier exactly when it is not the first one and no such
tier of the period was found last. -/
theorem announces_iff {before : List Pass} (h : AllSucceed before) (p : Pass) (n : Int)
    (period : String) (tier : Int) :
    p.Announces (watchAfter before) n period tier ↔
      p.finding n = some (period, tier) ∧ tier ≠ 0 ∧ before ≠ [] ∧
        ¬ Covers (lastFinding before n) period tier := by
  obtain ⟨hknown, hprimed⟩ := watch_knows h
  have hann := (metering_spec p (watchAfter before) n).2
  rw [hprimed, hknown] at hann
  unfold Pass.Announces
  rw [hann]
  constructor
  · rintro ⟨⟨period', tier', hfound', hrest⟩, hfound⟩
    rw [hfound, Option.some.injEq, Prod.mk.injEq] at hfound'
    obtain ⟨rfl, rfl⟩ := hfound'
    exact ⟨hfound, hrest⟩
  · rintro ⟨hfound, hrest⟩
    exact ⟨⟨period, tier, hfound, hrest⟩, hfound⟩

/-! ## Each threshold once -/

/-- Whatever is stored, the percent is from 0 to 100. -/
theorem percent_bounds (p : Pass) : 0 ≤ p.percent ∧ p.percent ≤ 100 := by
  have hrange : ∀ o : Option Int, 0 ≤ (o.filter fun v => (0 : Int) ≤ v ∧ v ≤ 100).getD 80 ∧
      (o.filter fun v => (0 : Int) ≤ v ∧ v ≤ 100).getD 80 ≤ 100 := by
    intro o
    cases o with
    | none => decide
    | some v =>
      rw [Option.filter_some]
      by_cases hv : (0 : Int) ≤ v ∧ v ≤ 100
      · rw [if_pos (decide_eq_true hv), Option.getD_some]
        exact hv
      · rw [if_neg (by simpa using hv), Option.getD_none]
        decide
  exact hrange ((NotifySweep.get p.faults p.db "notify_traffic").bind parseI64)

/-- Under one percent and one allowance more bytes reach no lower a tier. -/
theorem tierOf_mono {percent : Int} (hle : percent ≤ 100) (hnonneg : 0 ≤ percent)
    {r s : NodeRow} {t u : Traffic} (hpos : 0 < r.trafficLimit)
    (hlimit : s.trafficLimit = r.trafficLimit)
    (hused : usedOf r.trafficMode t ≤ usedOf s.trafficMode u) :
    tierOf percent r t ≤ tierOf percent s u := by
  unfold tierOf
  rw [hlimit]
  simp only [ge_iff_le, decide_eq_true_eq]
  have hscale : r.trafficLimit * percent ≤ r.trafficLimit * 100 := by nlinarith
  split_ifs <;> omega

/-- A tier that was found is not negative. -/
theorem finding_nonneg {p : Pass} {n : Int} {found : String × Int} (h : p.finding n = some found) :
    0 ≤ found.2 := by
  obtain ⟨node, t, -, -, htier⟩ := finding_some (show p.finding n = some (found.1, found.2) from h)
  have hbounds := percent_bounds p
  rw [htier]
  unfold tierOf
  dsimp only
  split_ifs <;> omega

/-- No tier is below zero. -/
theorem lastFinding_nonneg {passes : List Pass} {n : Int} {found : String × Int}
    (h : lastFinding passes n = some found) : 0 ≤ found.2 := by
  induction passes using List.reverseRecOn with
  | nil => cases h
  | append_singleton passes p ih =>
    rw [lastFinding_concat] at h
    split at h
    · rcases Option.or_eq_some_iff.mp h with hfound | ⟨-, hlast⟩
      · exact finding_nonneg hfound
      · exact ih hlast
    · cases h

/-- The tier a node was last found at in a billing period; none before it. -/
def tierBefore (before : List Pass) (n : Int) (period : String) : Int :=
  match lastFinding before n with
  | some (known, last) => if known = period then last else 0
  | none => 0

/-- A tier above the one found before is not covered. -/
theorem not_covers_of_lt {before : List Pass} {n : Int} {period : String} {tier : Int}
    (h : tierBefore before n period < tier) : ¬ Covers (lastFinding before n) period tier := by
  rintro ⟨last, hlast, hle⟩
  rw [tierBefore, hlast] at h
  simp only [if_true] at h
  omega

/-- Nor is the one before. -/
theorem tierBefore_nonneg (before : List Pass) (n : Int) (period : String) :
    0 ≤ tierBefore before n period := by
  unfold tierBefore
  cases hlast : lastFinding before n with
  | none => exact le_refl 0
  | some found =>
    dsimp only
    split
    · exact lastFinding_nonneg hlast
    · exact le_refl 0

/-- The settings stay what they are, usage climbs inside a billing period, and
neither a period that has ended nor a node that was deleted comes back. -/
structure Steady (passes : List Pass) : Prop where
  /-- One threshold. -/
  percent : ∀ p ∈ passes, ∀ q ∈ passes, q.percent = p.percent
  /-- One allowance and mode for each node. -/
  allowance : ∀ p ∈ passes, ∀ q ∈ passes, ∀ r ∈ nodes p.db, ∀ s ∈ nodes q.db, s.id = r.id →
    s.trafficLimit = r.trafficLimit ∧ s.trafficMode = r.trafficMode
  /-- Inside a period usage does not fall. -/
  climbs : passes.Pairwise fun p q => ∀ n period used used', p.usage n = some (period, used) →
    q.usage n = some (period, used') → used ≤ used'
  /-- Between two sweeps in one period there is no sweep in another. -/
  advances : ∀ a p b x c q d, passes = a ++ p :: (b ++ x :: (c ++ q :: d)) →
    ∀ n period other used used' used'', p.usage n = some (period, used) →
      q.usage n = some (period, used') → x.usage n = some (other, used'') → other = period
  /-- Between two sweeps that list a node there is none that does not. -/
  stays : ∀ a p b x c q d, passes = a ++ p :: (b ++ x :: (c ++ q :: d)) →
    ∀ n, p.HasNode n → q.HasNode n → x.HasNode n

/-- A metered node has used some bytes of a period. -/
theorem usage_of_finding {p : Pass} {n : Int} {period : String} {tier : Int}
    (h : p.finding n = some (period, tier)) : ∃ node t, p.reading n = some (node, t) ∧
      tier = tierOf p.percent node t ∧ p.usage n = some (period, usedOf node.trafficMode t) := by
  obtain ⟨node, t, hread, rfl, htier⟩ := finding_some h
  refine ⟨node, t, hread, htier, ?_⟩
  rw [Pass.usage, hread]
  rfl

/-- Later in the same period a node is found at no lower a tier. -/
theorem Steady.tier_le {passes : List Pass} (h : Steady passes) {a b c : List Pass} {p x : Pass}
    (heq : passes = a ++ p :: (b ++ x :: c)) {n : Int} {period : String} {tier later : Int}
    (hp : p.finding n = some (period, tier)) (hx : x.finding n = some (period, later)) :
    tier ≤ later := by
  obtain ⟨node, t, hread, rfl, husage⟩ := usage_of_finding hp
  obtain ⟨node', t', hread', rfl, husage'⟩ := usage_of_finding hx
  obtain ⟨hnode, hid, hlimit, -⟩ := reading_some hread
  obtain ⟨hnode', hid', -, -⟩ := reading_some hread'
  have hpIn : p ∈ passes := by simp [heq]
  have hxIn : x ∈ passes := by simp [heq]
  have hpair := h.climbs
  rw [heq, List.pairwise_append, List.pairwise_cons] at hpair
  have hused := hpair.2.1.1 x (by simp) n period _ _ husage husage'
  obtain ⟨hsameLimit, -⟩ := h.allowance p hpIn x hxIn node hnode node' hnode' (hid'.trans hid.symm)
  rw [h.percent p hpIn x hxIn]
  exact tierOf_mono (percent_bounds p).2 (percent_bounds p).1 hlimit hsameLimit hused

/-- From a sweep that found a tier of a period to a later sweep in the same
period the node is known at that tier or above. -/
theorem Steady.covers {passes : List Pass} (h : Steady passes) {a b c d : List Pass} {p q : Pass}
    (heq : passes = a ++ p :: (b ++ (c ++ q :: d))) {n : Int} {period : String} {tier later : Int}
    (hp : p.finding n = some (period, tier)) (hq : q.finding n = some (period, later)) :
    Covers (lastFinding (a ++ p :: b) n) period tier := by
  induction b using List.reverseRecOn generalizing c with
  | nil =>
    rw [lastFinding_previous hp]
    exact ⟨tier, rfl, le_refl tier⟩
  | append_singleton b x ih =>
    have heq' : passes = a ++ p :: (b ++ x :: (c ++ q :: d)) := by
      rw [heq, List.append_assoc, List.singleton_append]
    have hknown := @ih (x :: c) (by rw [heq', List.cons_append])
    have hhas := h.stays a p b x c q d heq' n (hasNode_of_finding hp) (hasNode_of_finding hq)
    rw [← List.cons_append, ← List.append_assoc, lastFinding_concat, if_pos hhas]
    cases hx : x.finding n with
    | none =>
      rw [Option.none_or]
      exact hknown
    | some found =>
      obtain ⟨other, here⟩ := found
      obtain ⟨_, _, -, -, husageP⟩ := usage_of_finding hp
      obtain ⟨_, _, -, -, husageQ⟩ := usage_of_finding hq
      obtain ⟨_, _, -, -, husageX⟩ := usage_of_finding hx
      have hsame := h.advances a p b x c q d heq' n period other _ _ _ husageP husageQ husageX
      subst hsame
      exact ⟨here, rfl, h.tier_le heq' hp hx⟩

/-- In a run of successful sweeps under fixed settings the traffic note of a
sweep is about the nodes it announces a tier of, no node is announced twice at
one tier of one billing period, and from the second sweep on a tier above the
one found before is announced at once. -/
theorem thresholds_announced_once (passes : List Pass) (hok : AllSucceed passes)
    (hsteady : Steady passes) :
    (∀ before p after, passes = before ++ p :: after →
      ∃ lists, sent (p.run (watchAfter before)) = presenceNotes lists ++
        (batch "traffic" "⚠️" "流量提醒" (p.metered (watchAfter before))).toList) ∧
    (∀ before p mid q after n period tier, passes = before ++ p :: (mid ++ q :: after) →
      p.Announces (watchAfter before) n period tier →
      ¬ q.Announces (watchAfter (before ++ p :: mid)) n period tier) ∧
    (∀ before p after n period tier, passes = before ++ p :: after → before ≠ [] →
      p.finding n = some (period, tier) → tierBefore before n period < tier →
      p.Announces (watchAfter before) n period tier) := by
  refine ⟨?_, ?_, ?_⟩
  · intro before p after heq
    obtain ⟨lists, -, hrun⟩ := run_eq (hok before p after heq)
    refine ⟨lists, ?_⟩
    rw [hrun]
    rfl
  · intro before p mid q after n period tier heq hp hq
    have hbefore : AllSucceed (before ++ p :: mid) := by
      refine @AllSucceed.left _ (q :: after) ?_
      rw [List.append_assoc, List.cons_append, ← heq]
      exact hok
    obtain ⟨hfound, -, -, hopen⟩ := (announces_iff hbefore q n period tier).mp hq
    exact hopen (hsteady.covers (c := []) heq hp.2 hfound)
  · intro before p after n period tier heq hne hfound hlt
    have hbefore : AllSucceed before := by
      rw [heq] at hok
      exact hok.left
    have hzero := tierBefore_nonneg before n period
    exact (announces_iff hbefore p n period tier).mpr
      ⟨hfound, by omega, hne, not_covers_of_lt hlt⟩

/-! ## A month's allowance used up between two sweeps -/

/-- A node with an allowance of 100 bytes. -/
def limited : NodeRow :=
  newNodeRow 1 ⟨"n", true, 0, "USD", "monthly", none, "", 100, "sum", 1, 0, "GB", 0, 0, true, false⟩
    "" 0 0

/-- The first day of June. -/
def firstOfJune : Clock := .june 1 first_day

/-- Its traffic after some bytes in the current period. -/
def usedUp (bytes : Int) : TrafficRow :=
  { newTrafficRow 1 with monthRx := bytes, monthStart := (firstOfJune.periodStart 1).toText }

/-- A sweep that meets it then, with a webhook to tell. -/
def thresholdPass (bytes : Int) : Pass where
  host := ⟨fun _ => "", fun _ => "", firstOfJune⟩
  faults := .none
  online _ := false
  now := 0
  db := { Store.blank with
    node := (Table.empty NodeRow.id).put limited
    traffic := (Table.empty TrafficRow.nodeId).put (usedUp bytes)
    setting := (Table.empty SettingRow.key).put ⟨"notify_webhook_url", "http://h"⟩ }

/-- The only node of the example. -/
theorem thresholdPass_rows {bytes : Int} {r : NodeRow} (h : r ∈ nodes (thresholdPass bytes).db) :
    r = limited := by
  rcases Table.mem_put.mp (mem_nodes.mp h) with hrow | ⟨hrow, -⟩
  · exact hrow
  · exact absurd hrow (Finset.notMem_empty r)

/-- The settings of the example. -/
theorem thresholdPass_settings (bytes : Int) :
    (thresholdPass bytes).percent = 80 ∧ (thresholdPass bytes).armed = true := by
  exact ⟨rfl, rfl⟩

/-- What a pass books for its node. -/
theorem thresholdPass_traffic {bytes : Int} : ∃ t, (thresholdPass bytes).traffic 1 = some t ∧
    t.monthStart = (firstOfJune.periodStart 1).toText ∧ usedOf "sum" t = saturatingAdd bytes 0 := by
  have hrow : (thresholdPass bytes).db.traffic.find? 1 = some (usedUp bytes) :=
    Table.find?_eq_some.mpr ⟨Table.mem_put.mpr (.inl rfl), rfl⟩
  have hnode : (thresholdPass bytes).db.node.find? 1 = some limited :=
    Table.find?_eq_some.mpr ⟨Table.mem_put.mpr (.inl rfl), rfl⟩
  have hon : (0 < (thresholdPass bytes).percent ∧ (thresholdPass bytes).armed ∧
      !(thresholdPass bytes).faults.traffic) := by
    rw [(thresholdPass_settings bytes).1, (thresholdPass_settings bytes).2]
    exact ⟨by decide, rfl, rfl⟩
  have hperiod : (usedUp bytes).monthStart =
      ((thresholdPass bytes).host.today.periodStart limited.trafficResetDay).toText := rfl
  unfold Pass.traffic
  rw [if_pos hon, allTraffic, hrow, hnode]
  simp only [Option.bind_eq_bind, Option.bind_some, if_pos hperiod]
  exact ⟨_, rfl, rfl, rfl⟩

/-- All it finds is that node, with those bytes used. -/
theorem thresholdPass_usage {bytes : Int} {n used : Int} {period : String}
    (h : (thresholdPass bytes).usage n = some (period, used)) : used = saturatingAdd bytes 0 := by
  obtain ⟨⟨node, t⟩, hread, hpair⟩ := Option.map_eq_some_iff.mp h
  obtain ⟨hnode, hid, -, ht⟩ := reading_some hread
  obtain rfl := thresholdPass_rows hnode
  obtain ⟨t', ht', -, hused⟩ := @thresholdPass_traffic bytes
  have hone : n = 1 := hid.symm
  rw [hone, ht', Option.some.injEq] at ht
  rw [Prod.mk.injEq] at hpair
  rw [← hpair.2, ← ht]
  exact hused

/-- And which tier it finds. -/
theorem thresholdPass_finding {bytes : Int} {tier : Int}
    (h : ∀ t, usedOf "sum" t = saturatingAdd bytes 0 → tierOf 80 limited t = tier) :
    (thresholdPass bytes).finding 1 = some ((firstOfJune.periodStart 1).toText, tier) := by
  obtain ⟨t, ht, hperiod, hused⟩ := @thresholdPass_traffic bytes
  have hin : limited ∈ nodes (thresholdPass bytes).db :=
    mem_nodes.mpr (Table.mem_put.mpr (.inl rfl))
  have hfound := finding_of_row hin (by decide)
  rw [show limited.id = 1 from rfl, ht, Option.map_some, hperiod,
    (thresholdPass_settings bytes).1, h t hused] at hfound
  exact hfound

/-- A sweep that reads and writes without a fault reaches its end. -/
theorem succeeds_of_fine {p : Pass} (h : p.faults = .none) (w : Watch) : p.Succeeds w := by
  unfold Pass.Succeeds Pass.run
  rw [h]
  unfold sweep
  dsimp only [SweepFaults.none]
  have hfine := presence_fine (roundAt p.host .none p.online p.now p.db) (retained w p.db) p.db
  unfold retained SweepFaults.none at *
  rw [hfine]
  exact ⟨_, rfl⟩

/-- Both tiers are crossed in one step: the second sweep announces the whole allowance. -/
theorem thresholds_announced_once_usedUp :
    (thresholdPass 100).Announces (watchAfter [thresholdPass 10]) 1
      (firstOfJune.periodStart 1).toText 100 := by
  have hok : AllSucceed [thresholdPass 10, thresholdPass 100] := by
    intro before p after heq
    have hp : p ∈ [thresholdPass 10, thresholdPass 100] := by rw [heq]; simp
    refine succeeds_of_fine ?_ _
    simp only [List.mem_cons, List.not_mem_nil, or_false] at hp
    rcases hp with rfl | rfl <;> rfl
  have hrow : ∀ p ∈ [thresholdPass 10, thresholdPass 100], p.percent = 80 ∧
      ∀ r ∈ nodes p.db, r = limited := by
    intro p hp
    simp only [List.mem_cons, List.not_mem_nil, or_false] at hp
    rcases hp with rfl | rfl
    · exact ⟨(thresholdPass_settings 10).1, fun r hr => thresholdPass_rows hr⟩
    · exact ⟨(thresholdPass_settings 100).1, fun r hr => thresholdPass_rows hr⟩
  have hshort : ∀ (a b c d : List Pass) (p x q : Pass),
      [thresholdPass 10, thresholdPass 100] ≠ a ++ p :: (b ++ x :: (c ++ q :: d)) := by
    intro a b c d p x q heq
    have hlen := congrArg List.length heq
    simp only [List.length_cons, List.length_nil, List.length_append] at hlen
    omega
  have hsteady : Steady [thresholdPass 10, thresholdPass 100] := by
    refine ⟨?_, ?_, ?_, ?_, ?_⟩
    · intro p hp q hq
      rw [(hrow p hp).1, (hrow q hq).1]
    · intro p hp q hq r hr s hs _
      rw [(hrow p hp).2 r hr, (hrow q hq).2 s hs]
      exact ⟨rfl, rfl⟩
    · rw [List.pairwise_pair]
      intro n period used used' h h'
      rw [thresholdPass_usage h, thresholdPass_usage h']
      decide
    · exact fun a p b x c q d heq => absurd heq (hshort a b c d p x q)
    · exact fun a p b x c q d heq => absurd heq (hshort a b c d p x q)
  have hfirst : (thresholdPass 10).finding 1 =
      some ((firstOfJune.periodStart 1).toText, 0) := by
    refine thresholdPass_finding ?_
    intro t ht
    unfold tierOf
    rw [show limited.trafficMode = "sum" from rfl, ht]
    rfl
  have hsecond : (thresholdPass 100).finding 1 =
      some ((firstOfJune.periodStart 1).toText, 100) := by
    refine thresholdPass_finding ?_
    intro t ht
    unfold tierOf
    rw [show limited.trafficMode = "sum" from rfl, ht]
    rfl
  refine (thresholds_announced_once [thresholdPass 10, thresholdPass 100] hok hsteady).2.2
    [thresholdPass 10] (thresholdPass 100) [] 1 _ 100 rfl (List.cons_ne_nil _ _) hsecond ?_
  have hknown : lastFinding [thresholdPass 10] 1 = some ((firstOfJune.periodStart 1).toText, 0) :=
    lastFinding_previous hfirst []
  rw [tierBefore, hknown]
  simp only [if_true]
  decide

end Romi.TrafficThresholds
