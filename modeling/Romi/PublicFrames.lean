import Romi.NodeFrames
import Romi.SweepOutcome

/-!
# What a visitor can tell from the nodes frame

Two states of the hub that agree on the public nodes, as far as the page shows
them, give an anonymous visitor the same frame. Nothing else about the nodes,
the sessions or the database reaches it.
-/

namespace Romi.PublicFrames

open JsonObjects JsonValue KeyedTable NodeFrames NotifySweep StoreSchema SweepOutcome TrafficFold

/-! ## Agreement -/

/-- A node row without the columns a visitor is never shown. -/
def concealed (r : NodeRow) : NodeRow :=
  { r with
    tokenHash := "", remark := "", hostname := "", ip := "", ipv4 := "", ipv6 := ""
    notify := false, downSince := 0, createdAt := 0 }

/-- The public row under an id, as far as it is shown. -/
def shown (db : Store) (id : Int) : Option NodeRow :=
  ((db.node.find? id).filter NodeRow.isPublic).map concealed

/-- A traffic row without the boot id and the raw counters. -/
def booked (db : Store) (id : Int) : Option TrafficRow :=
  (db.traffic.find? id).map fun t => { t with bootId := "", lastRx := 0, lastTx := 0 }

/-- Reports that agree on when they came and on every allowlisted key. -/
structure SameReport (p q : Published) : Prop where
  /-- It was seen at the same time. -/
  seen : p.seen = q.seen
  /-- It has reported or has not. -/
  started : p.metrics = .null ↔ q.metrics = .null
  /-- The public figures are the same. -/
  figures : ∀ k ∈ publicMetrics, p.metrics.get k = q.metrics.get k

/-- Agreement on everything the public page is meant to show. -/
structure LooksAlike (a b : Hub) : Prop where
  /-- The same nodes are shown. -/
  nodes : ∀ id, shown a.store id = shown b.store id
  /-- Their reports are alike. -/
  agents : ∀ id, (shown a.store id).isSome → Option.Rel SameReport (a.agents id) (b.agents id)
  /-- Their traffic is the same. -/
  traffic : ∀ id, (shown a.store id).isSome → booked a.store id = booked b.store id
  /-- So is how long they may be away. -/
  grace : storedSetting a.store "online_grace_minutes" =
    storedSetting b.store "online_grace_minutes"
  /-- And the date. -/
  today : a.today = b.today

/-! ## The list of public nodes -/

/-- Where a node stands in the list. -/
def place (r : NodeRow) : Int ×ₗ Int := toLex (r.sort, r.id)

/-- The list is in panel order. -/
theorem nodes_placed (db : Store) : (nodes db).Pairwise fun r s => place r < place s := by
  unfold nodes
  rw [List.pairwise_filterMap]
  refine List.Pairwise.imp_of_mem ?_ (Finset.sortedLT_sort _).pairwise
  intro k k' hk hk' hlt r hr r' hr'
  have hplace : ∀ k ∈ (db.node.rows.image fun r => toLex (r.sort, r.id)).sort (· ≤ ·), ∀ r,
      db.node.find? (ofLex k).2 = some r → place r = k := by
    intro k hk r hr
    rw [Finset.mem_sort, Finset.mem_image] at hk
    obtain ⟨s, hs, rfl⟩ := hk
    have hsame := db.node.unique r (Table.find?_eq_some.mp hr).1 s hs (Table.find?_eq_some.mp hr).2
    rw [hsame, place]
  rw [hplace k hk r hr, hplace k' hk' r' hr']
  exact hlt

/-- The public nodes, in panel order, as far as they are shown. -/
def shownNodes (db : Store) : List NodeRow := ((nodes db).filter NodeRow.isPublic).map concealed

/-- Who is shown. -/
theorem mem_shownNodes {db : Store} {r : NodeRow} : r ∈ shownNodes db ↔ shown db r.id = some r := by
  unfold shownNodes shown
  rw [List.mem_map, Option.map_eq_some_iff]
  constructor
  · rintro ⟨s, hs, rfl⟩
    obtain ⟨hs, hpublic⟩ := List.mem_filter.mp hs
    refine ⟨s, ?_, rfl⟩
    rw [show (concealed s).id = s.id from rfl, find_of_mem hs, Option.filter_some, if_pos hpublic]
  · rintro ⟨s, hs, hr⟩
    obtain ⟨hfind, hpublic⟩ := Option.filter_eq_some_iff.mp hs
    exact ⟨s, List.mem_filter.mpr ⟨mem_nodes.mpr (Table.find?_eq_some.mp hfind).1, hpublic⟩, hr⟩

/-- Private rows leave no trace in the order of the public ones. -/
theorem shownNodes_eq {db db' : Store} (h : ∀ id, shown db id = shown db' id) :
    shownNodes db = shownNodes db' := by
  have hplaced : ∀ db, (shownNodes db).Pairwise fun r s => place r < place s := by
    intro db
    exact List.pairwise_map.mpr ((nodes_placed db).filter _)
  have hirrefl : Std.Irrefl fun r s : NodeRow => place r < place s := ⟨fun r => lt_irrefl (place r)⟩
  have hanti : Std.Antisymm fun r s : NodeRow => place r < place s :=
    ⟨fun r s hrs hsr => absurd hsr (not_lt_of_gt hrs)⟩
  refine List.Pairwise.eq_of_mem_iff (hplaced db) (hplaced db') ?_
  intro r
  rw [mem_shownNodes, mem_shownNodes, h r.id]

/-! ## One row -/

/-- A visitor's row does not read the columns that are held back. -/
theorem row_concealed (faults : FrameFaults) (hub : Hub) (n : NodeRow) :
    row faults hub false (concealed n) = row faults hub false n := by
  unfold row
  rw [nodeView_visitor, nodeView_visitor]
  rfl

/-- The allowlist leaves of two agreeing reports the same object. -/
theorem retainPublic_eq {p q : Published} (h : SameReport p q) :
    retainPublic p.metrics = retainPublic q.metrics := by
  obtain ⟨v, seen, hv⟩ := p
  obtain ⟨w, seen', hw⟩ := q
  have hstarted : v = .null ↔ w = .null := h.started
  have hfigures : ∀ k ∈ publicMetrics, v.get k = w.get k := h.figures
  show retainPublic v = retainPublic w
  cases v with
  | null => rw [hstarted.mp rfl]
  | obj members =>
    cases w with
    | obj members' =>
      refine congrArg Json.obj (ascending_ext (Ascending.filter hv _) (Ascending.filter hw _) ?_)
      intro k
      rw [lookup_filter, lookup_filter]
      by_cases hk : publicMetrics.contains k = true
      · rw [if_pos hk, if_pos hk]
        exact hfigures k (List.contains_iff_mem.mp hk)
      · rw [if_neg hk, if_neg hk]
    | null => cases hstarted.mpr rfl
    | bool b => exact hw.elim
    | int i => exact hw.elim
    | float q => exact hw.elim
    | str s => exact hw.elim
    | arr items => exact hw.elim
  | bool b => exact hv.elim
  | int i => exact hv.elim
  | float q => exact hv.elim
  | str s => exact hv.elim
  | arr items => exact hv.elim

/-- Agreeing sessions give the same figure for an allowlisted capacity. -/
theorem live_eq {c d : Option Published} (h : Option.Rel SameReport c d) {key : String}
    (hkey : key ∈ publicMetrics) (stored : Int) : live c key stored = live d key stored := by
  cases h with
  | none => rfl
  | some hreport =>
    unfold live
    rw [Option.bind_some, Option.bind_some, hreport.figures key hkey]

/-- Agreeing sessions give a node the same view. -/
theorem nodeView_eq {c d : Option Published} (h : Option.Rel SameReport c d) (n : NodeRow)
    (traffic : Traffic) : nodeView n c traffic false = nodeView n d traffic false := by
  have hleading : leadingFields n c = leadingFields n d := by
    cases h with
    | none => rfl
    | some hreport =>
      unfold leadingFields lastSeen
      rw [Option.map_some, Option.map_some, hreport.seen]
      rfl
  have htrailing : trailingFields n c traffic = trailingFields n d traffic := by
    unfold trailingFields
    rw [live_eq h (by decide), live_eq h (by decide), live_eq h (by decide)]
  have hmetrics : retainPublic (metricsOf c) = retainPublic (metricsOf d) := by
    cases h with
    | none => rfl
    | some hreport => exact retainPublic_eq hreport
  rw [nodeView_visitor, nodeView_visitor, hleading, htrailing, hmetrics]

/-- A public node's traffic, as the frame shows it, is the booked traffic. -/
theorem trafficOf_eq {a b : Hub} (h : LooksAlike a b) (faults : FrameFaults) {id : Int}
    (hid : (shown a.store id).isSome) : trafficOf faults a id = trafficOf faults b id := by
  have hbooked := h.traffic id hid
  obtain ⟨r, hr⟩ := Option.isSome_iff_exists.mp hid
  have hr' := (h.nodes id).symm.trans hr
  unfold shown at hr hr'
  obtain ⟨n, hn, rfl⟩ := Option.map_eq_some_iff.mp hr
  obtain ⟨n', hn', hsame⟩ := Option.map_eq_some_iff.mp hr'
  have hfind := (Option.filter_eq_some_iff.mp hn).1
  have hfind' := (Option.filter_eq_some_iff.mp hn').1
  have hreset : (concealed n').trafficResetDay = (concealed n).trafficResetDay := by rw [hsame]
  change n'.trafficResetDay = n.trafficResetDay at hreset
  unfold trafficOf allTraffic
  rw [hfind, hfind', ← h.today]
  unfold booked at hbooked
  cases ht : a.store.traffic.find? id with
  | none =>
    rw [ht, Option.map_none] at hbooked
    rw [Option.map_eq_none_iff.mp hbooked.symm]
    rfl
  | some t =>
    rw [ht, Option.map_some] at hbooked
    obtain ⟨t', ht', htraffic⟩ := Option.map_eq_some_iff.mp hbooked.symm
    obtain ⟨nodeId, bootId, lastRx, lastTx, totalRx, totalTx, monthRx, monthTx, monthStart, dayRx,
      dayTx, dayStart⟩ := t
    obtain ⟨nodeId', bootId', lastRx', lastTx', totalRx', totalTx', monthRx', monthTx', monthStart',
      dayRx', dayTx', dayStart'⟩ := t'
    simp only [TrafficRow.mk.injEq, true_and] at htraffic
    obtain ⟨rfl, rfl, rfl, rfl, rfl, rfl, rfl, rfl, rfl⟩ := htraffic
    rw [ht']
    simp only [Option.bind_eq_bind, Option.bind_some, hreset]

/-- Two hubs that look alike give a public node the same row. -/
theorem row_eq {a b : Hub} (h : LooksAlike a b) (faults : FrameFaults) {n : NodeRow}
    (hn : (shown a.store n.id).isSome) : row faults a false n = row faults b false n := by
  unfold row graceMinutes
  rw [nodeView_eq (h.agents n.id hn), trafficOf_eq h faults hn, h.grace]

/-! ## The frame -/

/-- A visitor's rows are rows of the shown nodes. -/
theorem visibleNodes_visitor (faults : FrameFaults) (hub : Hub) :
    visibleNodes faults hub false =
      if faults.nodes then none else some ((shownNodes hub.store).map (row faults hub false)) := by
  have hrows : (row faults hub false) ∘ concealed = row faults hub false := by
    funext n
    rw [Function.comp_apply, row_concealed]
  unfold visibleNodes shownNodes
  rw [List.map_map, hrows]
  simp only [Bool.false_or]

/-- Hubs that agree on what the public page shows give a visitor the same
frame. -/
theorem visitor_frame_same {a b : Hub} (faults : FrameFaults) (h : LooksAlike a b) :
    frame faults a false = frame faults b false := by
  have hrows : (shownNodes a.store).map (row faults a false) =
      (shownNodes b.store).map (row faults b false) := by
    rw [← shownNodes_eq h.nodes]
    refine List.map_congr_left ?_
    intro n hn
    exact row_eq h faults (Option.isSome_of_eq_some (mem_shownNodes.mp hn))
  unfold frame
  rw [visibleNodes_visitor, visibleNodes_visitor, hrows]

/-- The members of a report with one field no list names. -/
def unlistedMembers (field : String) : List (String × Json) :=
  insertMember "cpu" (.int 7) [(field, .null)]

/-- The members of the example are in order. -/
theorem unlistedMembers_ascending (field : String) : Ascending (unlistedMembers field) := by
  have hsingle : Ascending [(field, Json.null)] := List.pairwise_singleton _ _
  exact hsingle.insertMember "cpu" (.int 7)

/-- A public node with some hostname, connected and reporting a field no list
names, beside a private node with some name. -/
def twoNodeHub (hostname field name : String) : Hub where
  store := { Store.blank with
    node := ((Table.empty NodeRow.id).put
      { announcedNode 1 "front" with hostname := hostname }).put
      { announcedNode 2 name with isPublic := false } }
  agents id := if id = 1 then some ⟨.obj (unlistedMembers field), 60, unlistedMembers_ascending field⟩
    else none
  today := Clock.june 1 first_day

/-- Only the first node of the example is shown. -/
theorem shown_twoNodeHub (hostname field name : String) (id : Int) :
    shown (twoNodeHub hostname field name).store id =
      if id = 1 then some (concealed (announcedNode 1 "front")) else none := by
  have hfirst : (twoNodeHub hostname field name).store.node.find? 1 =
      some { announcedNode 1 "front" with hostname := hostname } := by
    have hids : (1 : Int) ≠ 2 := by decide
    exact Table.find?_eq_some.mpr ⟨Table.mem_put.mpr (.inr ⟨Table.mem_put.mpr (.inl rfl), hids⟩), rfl⟩
  unfold shown
  by_cases hid : id = 1
  · rw [if_pos hid, hid, hfirst]
    rfl
  · rw [if_neg hid, Option.map_eq_none_iff, Option.filter_eq_none_iff]
    intro r hr
    obtain ⟨hmem, rfl⟩ := Table.find?_eq_some.mp hr
    rcases Table.mem_put.mp hmem with rfl | ⟨hr, -⟩
    · exact Bool.false_ne_true
    · rcases Table.mem_put.mp hr with rfl | ⟨hr, -⟩
      · exact absurd rfl hid
      · exact absurd hr (Finset.notMem_empty r)

/-- Hostname, unlisted field and private neighbour are not part of what is
shown. -/
theorem twoNodeHub_alike {hostname field name hostname' field' name' : String}
    (hfield : field ∉ publicMetrics) (hfield' : field' ∉ publicMetrics) :
    LooksAlike (twoNodeHub hostname field name) (twoNodeHub hostname' field' name') where
  nodes id := by rw [shown_twoNodeHub, shown_twoNodeHub]
  agents id hid := by
    have hone : id = 1 := by
      by_contra hne
      rw [shown_twoNodeHub, if_neg hne] at hid
      cases hid
    have hget : ∀ f ∉ publicMetrics, ∀ k ∈ publicMetrics,
        (Json.obj (unlistedMembers f)).get k = if k = "cpu" then some (.int 7) else none := by
      intro f hf k hk
      have hne : k ≠ f := fun heq => hf (heq ▸ hk)
      show (unlistedMembers f).lookup k = _
      rw [unlistedMembers, lookup_insertMember (List.pairwise_singleton _ _), List.lookup_cons,
        beq_false_of_ne hne, List.lookup_nil]
    subst hone
    have hstarted : ∀ f, Json.obj (unlistedMembers f) ≠ .null := fun f h => by cases h
    refine .some ⟨rfl, iff_of_false (hstarted field) (hstarted field'), ?_⟩
    intro k hk
    exact (hget field hfield k hk).trans (hget field' hfield' k hk).symm
  traffic id _ := rfl
  grace := rfl
  today := rfl

/-- Two hubs that differ in what is hidden give one frame. -/
theorem visitor_frame_same_twoNodes :
    frame .none (twoNodeHub "alpha" "fan" "backup") false =
      frame .none (twoNodeHub "beta" "serial" "bastion") false :=
  visitor_frame_same .none (twoNodeHub_alike (by decide) (by decide))

end Romi.PublicFrames
