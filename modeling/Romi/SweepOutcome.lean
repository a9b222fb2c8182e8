import Romi.NotifySweep

/-!
# What a sweep records and what it announces

The first loop of a sweep writes node by node and gathers its items on the
side. Its writes and its items agree as long as it reaches its end; a write
that fails after another one succeeded ends it with the earlier transitions
stored and nothing announced.
-/

namespace Romi.SweepOutcome

open CachedTransactions KeyedTable NotifySweep StoreJobs StoreSchema

/-! ## The nodes of a sweep -/

/-- The list holds exactly the rows of the table. -/
theorem mem_nodes {db : Store} {n : NodeRow} : n ∈ nodes db ↔ n ∈ db.node.rows := by
  unfold nodes
  rw [List.mem_filterMap]
  constructor
  · rintro ⟨k, -, hk⟩
    exact (Table.find?_eq_some.mp hk).1
  · intro hn
    refine ⟨toLex (n.sort, n.id), ?_, Table.find?_eq_some.mpr ⟨hn, rfl⟩⟩
    rw [Finset.mem_sort, Finset.mem_image]
    exact ⟨n, hn, rfl⟩

/-- A listed node is the row stored under its id. -/
theorem find_of_mem {db : Store} {n : NodeRow} (h : n ∈ nodes db) :
    db.node.find? n.id = some n := Table.find?_eq_some.mpr ⟨mem_nodes.mp h, rfl⟩

/-- The list stands in the order of its positions. -/
theorem nodes_positions (db : Store) : (nodes db).map (fun r => toLex (r.sort, r.id)) =
    (db.node.rows.image fun r => toLex (r.sort, r.id)).sort (· ≤ ·) := by
  rw [nodes, List.map_filterMap]
  refine Eq.trans (List.filterMap_congr ?_) List.filterMap_some
  intro k hk
  rw [Finset.mem_sort, Finset.mem_image] at hk
  obtain ⟨r, hr, rfl⟩ := hk
  have hfind : db.node.find? r.id = some r := Table.find?_eq_some.mpr ⟨hr, rfl⟩
  change (db.node.find? r.id).map _ = some _
  rw [hfind, Option.map_some]

/-- No node is listed twice. -/
theorem nodes_nodup (db : Store) : ((nodes db).map NodeRow.id).Nodup := by
  have hrows : (nodes db).Nodup := by
    refine List.Nodup.of_map (fun r => toLex (r.sort, r.id)) ?_
    rw [nodes_positions]
    exact Finset.sort_nodup _ _
  refine List.Nodup.map_on ?_ hrows
  intro r hr r' hr' hid
  exact db.node.unique r (mem_nodes.mp hr) r' (mem_nodes.mp hr') hid

/-! ## One node at a time -/

/-- A return changes nothing about other nodes. -/
theorem comeBack_other {r : Round} {w : Watch} {node id : Int} (h : id ≠ node) :
    r.comeBack w node id = w.returned id := by
  unfold Round.comeBack
  cases w.absent node with
  | none => rfl
  | some since =>
    by_cases hlong : r.now - since ≥ r.grace
    · simp only [hlong, if_true]
      exact Function.update_of_ne h _ _
    · simp only [hlong, if_false]

/-- A visit reads and changes only what the watch keeps of its own node. -/
theorem visit_other {r : Round} {node : NodeRow} {w : Watch} {id : Int} (h : id ≠ node.id) :
    (visit r node w).1.absent id = w.absent id ∧ (visit r node w).1.returned id = w.returned id := by
  cases honline : r.online node.id with
  | true =>
    rw [visit_online honline]
    exact ⟨Function.update_of_ne h _ _, comeBack_other h⟩
  | false =>
    by_cases hseen : node.lastSeen = 0
    · rw [visit_unseen honline hseen]
      exact ⟨rfl, rfl⟩
    · rw [visit_absent honline hseen]
      exact ⟨Function.update_of_ne h _ _, rfl⟩

/-- A visit looks at its own node only. -/
theorem visit_congr (r : Round) (node : NodeRow) {w w' : Watch}
    (habsent : w'.absent node.id = w.absent node.id)
    (hreturned : w'.returned node.id = w.returned node.id) :
    (visit r node w').2 = (visit r node w).2 := by
  have hoverdue : r.Overdue w' node ↔ r.Overdue w node := by
    unfold Round.Overdue Round.wait Round.flapping Round.since
    rw [habsent, hreturned]
  cases honline : r.online node.id with
  | true => rw [visit_online honline, visit_online honline]
  | false =>
    by_cases hseen : node.lastSeen = 0
    · rw [visit_unseen honline hseen, visit_unseen honline hseen]
    · rw [visit_absent honline hseen, visit_absent honline hseen]
      simp only [hoverdue]

/-- The transition due at a node. -/
def due (r : Round) (w : Watch) (node : NodeRow) : Option Due := (visit r node w).2

/-- A visit to another node changes nothing about it. -/
theorem due_after_visit {r : Round} {w : Watch} {node other : NodeRow} (h : other.id ≠ node.id) :
    due r (visit r node w).1 other = due r w other := by
  obtain ⟨habsent, hreturned⟩ := visit_other (r := r) (w := w) h
  exact visit_congr r other habsent hreturned

/-- A transition that is due changes the column: down from 0 to something else,
up from something positive to 0. -/
theorem due_changes {r : Round} {w : Watch} {node : NodeRow} {d : Due} (h : due r w node = some d) :
    (d.side = .down ∧ node.downSince = 0 ∧ d.since = node.lastSeen ∧ node.lastSeen ≠ 0) ∨
      (d.side = .up ∧ 0 < node.downSince ∧ d.since = 0) := by
  unfold due at h
  cases honline : r.online node.id with
  | true =>
    rw [visit_online honline] at h
    by_cases hdown : node.downSince > 0
    · rw [if_pos hdown, Option.some.injEq] at h
      rw [← h]
      exact .inr ⟨rfl, hdown, rfl⟩
    · rw [if_neg hdown] at h
      cases h
  | false =>
    by_cases hseen : node.lastSeen = 0
    · rw [visit_unseen honline hseen] at h
      cases h
    · rw [visit_absent honline hseen] at h
      by_cases hoverdue : r.Overdue w node
      · rw [if_pos hoverdue, Option.some.injEq] at h
        rw [← h]
        exact .inl ⟨rfl, hoverdue.2.2.1, rfl, hseen⟩
      · rw [if_neg hoverdue] at h
        cases h

/-! ## The loop -/

/-- The store after recording everything due at some nodes. -/
def recorded (r : Round) (w : Watch) (list : List NodeRow) (db : Store) : Store :=
  list.foldl (fun db n => match due r w n with
    | some d => setDown n.id d.since db
    | none => db) db

/-- The items of one side among some nodes. -/
def items (r : Round) (w : Watch) (side : Side) (list : List NodeRow) : List Item :=
  list.filterMap fun n => (due r w n).bind fun d =>
    if d.side = side then some ⟨n, d.detail⟩ else none

/-- The watch after visiting some nodes. -/
def watched (r : Round) (w : Watch) (list : List NodeRow) : Watch :=
  list.foldl (fun w n => (visit r n w).1) w

/-- What is recorded depends on which nodes are due. -/
theorem recorded_congr {r : Round} {w w' : Watch} {list : List NodeRow} (db : Store)
    (h : ∀ n ∈ list, due r w' n = due r w n) : recorded r w' list db = recorded r w list db := by
  induction list generalizing db with
  | nil => rfl
  | cons n rest ih =>
    have hrest := fun db => ih db fun m hm => h m (List.mem_cons_of_mem n hm)
    unfold recorded at hrest ⊢
    rw [List.foldl_cons, List.foldl_cons, h n List.mem_cons_self]
    exact hrest _

/-- So does what is announced. -/
theorem items_congr {r : Round} {w w' : Watch} {list : List NodeRow} (side : Side)
    (h : ∀ n ∈ list, due r w' n = due r w n) : items r w' side list = items r w side list := by
  unfold items
  refine List.filterMap_congr ?_
  intro n hn
  rw [h n hn]

/-- The loop reaches its end, or stops at the first write that fails. -/
inductive Loop (r : Round) (fails : Int → Option Failure) (list : List NodeRow) (w : Watch)
    (db : Store) : Passage Lists → Prop
  /-- No write of a node that is due fails: all of them are recorded and announced. -/
  | finished (h : ∀ n ∈ list, (due r w n).isSome = true → fails n.id = none) :
    Loop r fails list w db ⟨watched r w list, recorded r w list db,
      .ok ⟨items r w .down list, items r w .up list⟩⟩
  /-- The first write that fails ends the loop; the nodes before it are recorded, and nothing is
  announced. -/
  | stopped {before after : List NodeRow} {n : NodeRow} {e : Failure} {w' : Watch}
    (hlist : list = before ++ n :: after)
    (hbefore : ∀ m ∈ before, (due r w m).isSome = true → fails m.id = none)
    (hdue : (due r w n).isSome = true) (hfails : fails n.id = some e) :
    Loop r fails list w db ⟨w', recorded r w before db, .error e⟩

/-- Looking at one more node first: the rest sees the same. -/
theorem Loop.cons {r : Round} {fails : Int → Option Failure} {n : NodeRow} {rest : List NodeRow}
    {w : Watch} {db db' : Store} {p : Passage Lists} (f : Lists → Lists)
    (hsame : ∀ m ∈ rest, due r (visit r n w).1 m = due r w m)
    (hgo : (due r w n).isSome = true → fails n.id = none)
    (hdb : db' = recorded r w [n] db)
    (hf : f ⟨items r w .down rest, items r w .up rest⟩ =
      ⟨items r w .down (n :: rest), items r w .up (n :: rest)⟩)
    (h : Loop r fails rest (visit r n w).1 db' p) :
    Loop r fails (n :: rest) w db { p with result := p.result.map f } := by
  cases h with
  | finished hok =>
    rw [recorded_congr _ hsame, items_congr .down hsame, items_congr .up hsame, hdb]
    have hfinished : ∀ m ∈ n :: rest, (due r w m).isSome = true → fails m.id = none := by
      intro m hm
      rcases List.mem_cons.mp hm with rfl | hm
      · exact hgo
      · rw [← hsame m hm]
        exact hok m hm
    have hloop := @Loop.finished r fails (n :: rest) w db hfinished
    rw [← hf] at hloop
    exact hloop
  | @stopped before after m e w' hlist hbefore hdue hfails =>
    have hsub : ∀ x ∈ before, x ∈ rest := by
      intro x hx
      rw [hlist]
      exact List.mem_append_left _ hx
    have hin : m ∈ rest := by
      rw [hlist]
      exact List.mem_append_right _ List.mem_cons_self
    rw [recorded_congr _ fun x hx => hsame x (hsub x hx), hdb]
    refine @Loop.stopped r fails (n :: rest) w db (n :: before) after m _ _ ?_ ?_ ?_ hfails
    · rw [hlist, List.cons_append]
    · intro x hx
      rcases List.mem_cons.mp hx with rfl | hx
      · exact hgo
      · rw [← hsame x (hsub x hx)]
        exact hbefore x hx
    · rw [← hsame m hin]
      exact hdue

/-- The loop ends in one of the two ways, by induction on the list. -/
theorem presence_loop (r : Round) (fails : Int → Option Failure) {list : List NodeRow}
    (hnodup : (list.map NodeRow.id).Nodup) (w : Watch) (db : Store) :
    Loop r fails list w db (presence r fails list w db) := by
  induction list generalizing w db with
  | nil => exact .finished (List.forall_mem_nil _)
  | cons n rest ih =>
    rw [List.map_cons, List.nodup_cons] at hnodup
    have hsame : ∀ m ∈ rest, due r (visit r n w).1 m = due r w m := by
      intro m hm
      refine due_after_visit ?_
      intro heq
      exact hnodup.1 (heq ▸ List.mem_map_of_mem hm)
    have hvisit : visit r n w = ((visit r n w).1, due r w n) := rfl
    rw [presence, hvisit]
    cases hdue : due r w n with
    | none =>
      have hsame' : db = recorded r w [n] db := by simp [recorded, hdue]
      have hloop := (ih hnodup.2 (visit r n w).1 db).cons id hsame
        (by rw [hdue]; nofun) hsame' (by simp [items, hdue])
      simpa [Except.map_id] using hloop
    | some d =>
      dsimp only
      cases hfails : fails n.id with
      | some e =>
        exact @Loop.stopped r fails (n :: rest) w db [] rest n _ _ rfl (List.forall_mem_nil _)
          (by rw [hdue]; rfl) hfails
      | none =>
        refine (ih hnodup.2 (visit r n w).1 _).cons _ hsame (fun _ => hfails) ?_ ?_
        · simp [recorded, hdue]
        · cases hside : d.side with
          | down => simp [items, hdue, hside, Lists.push]
          | up => simp [items, hdue, hside, Lists.push]

/-! ## What is stored -/

/-- A write for one node leaves the others' rows alone. -/
theorem find_setDown {db : Store} {id ts k : Int} :
    (setDown id ts db).node.find? k = (db.node.find? k).map fun r =>
      if r.id = id then { r with downSince := ts } else r := by
  unfold setDown updateNodeRow
  rw [Table.find?_updateWhere]

/-- The row of a node after its own transition. -/
def moved (r : Round) (w : Watch) (n : NodeRow) : NodeRow :=
  match due r w n with
  | some d => { n with downSince := d.since }
  | none => n

/-- Writes for other nodes leave a row alone. -/
theorem find_recorded_other {r : Round} {w : Watch} {list : List NodeRow} {db : Store} {k : Int}
    (h : k ∉ list.map NodeRow.id) : (recorded r w list db).node.find? k = db.node.find? k := by
  induction list generalizing db with
  | nil => rfl
  | cons n rest ih =>
    rw [List.map_cons, List.mem_cons, not_or] at h
    have hrest := fun db => @ih db h.2
    unfold recorded at hrest ⊢
    rw [List.foldl_cons, hrest]
    cases due r w n with
    | none => rfl
    | some d =>
      rw [find_setDown]
      cases hfind : db.node.find? k with
      | none => rfl
      | some row =>
        have hid : row.id = k := (Table.find?_eq_some.mp hfind).2
        have hne : row.id ≠ n.id := by rw [hid]; exact h.1
        rw [Option.map_some, if_neg hne]

/-- Each listed node ends up with its own transition recorded. -/
theorem find_recorded {r : Round} {w : Watch} {list : List NodeRow} {db : Store}
    (hnodup : (list.map NodeRow.id).Nodup) (hrows : ∀ n ∈ list, db.node.find? n.id = some n)
    {n : NodeRow} (hn : n ∈ list) :
    (recorded r w list db).node.find? n.id = some (moved r w n) := by
  induction list generalizing db with
  | nil => cases hn
  | cons m rest ih =>
    rw [List.map_cons, List.nodup_cons] at hnodup
    have hstep : recorded r w (m :: rest) db = recorded r w rest (recorded r w [m] db) := rfl
    have hfirst : ∀ k, k ≠ m.id → (recorded r w [m] db).node.find? k = db.node.find? k := by
      intro k hk
      exact find_recorded_other (by simpa using hk)
    rw [hstep]
    rcases List.mem_cons.mp hn with rfl | hin
    · rw [find_recorded_other hnodup.1]
      have hrow := hrows n List.mem_cons_self
      unfold recorded moved
      rw [List.foldl_cons, List.foldl_nil]
      cases due r w n with
      | none => exact hrow
      | some d => rw [find_setDown, hrow, Option.map_some, if_pos rfl]
    · refine ih hnodup.2 ?_ hin
      intro x hx
      have hne : x.id ≠ m.id := fun heq => hnodup.1 (heq ▸ List.mem_map_of_mem hx)
      rw [hfirst x.id hne]
      exact hrows x (List.mem_cons_of_mem m hx)

/-- Whether a node's `down_since` was set, or cleared, between two stores. -/
def switched (side : Side) (after : Store) (n : NodeRow) : Bool :=
  match after.node.find? n.id with
  | some m =>
    match side with
    | .down => m.downSince ≠ n.downSince ∧ m.downSince ≠ 0
    | .up => m.downSince ≠ n.downSince ∧ m.downSince = 0
  | none => false

/-- The names of the nodes whose `down_since` was set, or cleared. -/
def transitions (side : Side) (before after : Store) : List String :=
  ((nodes before).filter (switched side after)).map NodeRow.name

/-- A row whose transition was recorded is switched to its side. -/
theorem switched_moved {r : Round} {w : Watch} {n : NodeRow} {after : Store} {side : Side}
    (h : after.node.find? n.id = some (moved r w n)) :
    switched side after n = true ↔ ∃ d, due r w n = some d ∧ d.side = side := by
  unfold switched moved at *
  rw [h]
  cases hdue : due r w n with
  | none =>
    cases side with
    | down => simp
    | up => simp
  | some d =>
    have hchange := due_changes hdue
    cases side with
    | down =>
      rcases hchange with ⟨hside, hzero, hsince, hseen⟩ | ⟨hside, hpos, hsince⟩
      · simp [hside, hzero, hsince, hseen]
      · simp [hside, hsince]
    | up =>
      rcases hchange with ⟨hside, hzero, hsince, hseen⟩ | ⟨hside, hpos, hsince⟩
      · simp [hside, hzero, hsince, hseen]
      · simp [hside, hsince]
        omega

/-- With everything recorded, the switched nodes are those in the item lists. -/
theorem transitions_recorded (r : Round) (w : Watch) (side : Side) (db : Store) :
    transitions side db (recorded r w (nodes db) db) =
      (items r w side (nodes db)).map fun i => i.node.name := by
  have hfind : ∀ n ∈ nodes db,
      (recorded r w (nodes db) db).node.find? n.id = some (moved r w n) :=
    fun n hn => find_recorded (nodes_nodup db) (fun m hm => find_of_mem hm) hn
  unfold transitions items
  rw [← List.filterMap_eq_filter, List.map_filterMap, List.map_filterMap]
  refine List.filterMap_congr ?_
  intro n hn
  have hswitched := @switched_moved r w n _ side (hfind n hn)
  cases hdue : due r w n with
  | none =>
    have hno : switched side (recorded r w (nodes db) db) n = false := by
      rw [← Bool.not_eq_true, hswitched, hdue]
      rintro ⟨d, hd, -⟩
      cases hd
    simp [Option.guard, hno]
  | some d =>
    by_cases hside : d.side = side
    · have hyes : switched side (recorded r w (nodes db) db) n = true :=
        hswitched.mpr ⟨d, hdue, hside⟩
      simp [Option.guard, hyes, hside]
    · have hno : switched side (recorded r w (nodes db) db) n = false := by
        rw [← Bool.not_eq_true, hswitched, hdue]
        rintro ⟨d', hd', hs⟩
        cases hd'
        exact hside hs
      simp [Option.guard, hno, hside]

/-- Nothing recorded, nothing switched. -/
theorem transitions_self (side : Side) (db : Store) : transitions side db db = [] := by
  unfold transitions
  rw [List.map_eq_nil_iff, List.filter_eq_nil_iff]
  intro n hn
  rw [switched, find_of_mem hn]
  cases side with
  | down => simp
  | up => simp

/-! ## What is announced -/

/-- The nodes named in the notes of one event. -/
def named (event : String) (notes : List Note) : List String :=
  (notes.filter fun n => n.event == event).map Note.node

/-- One note that names all of them, and none when there are none. -/
def oneNote (names : List String) : List String :=
  if names = [] then [] else [", ".intercalate names]

/-- The offline and the online note name exactly the nodes whose `down_since`
was set and cleared. -/
def Announced (before after : Store) (notes : List Note) : Prop :=
  named "offline" notes = oneNote (transitions .down before after) ∧
    named "online" notes = oneNote (transitions .up before after)

/-- The nodes a sweep finds a transition due at, in panel order. -/
def dueNodes (r : Round) (w : Watch) (db : Store) : List NodeRow :=
  (nodes db).filter fun n => (due r w n).isSome

/-- A note names the items it was made of. -/
theorem named_batch (event event' mark what : String) (list : List Item) :
    named event' (batch event mark what list).toList =
      if event = event' then oneNote (list.map fun i => i.node.name) else [] := by
  have hnote : ∀ note : Note, note.event = event →
      named event' [note] = if event = event' then [note.node] else [] := by
    intro note hevent
    unfold named
    by_cases h : event = event'
    · simp [hevent, h]
    · simp [hevent, h]
  unfold batch oneNote
  cases list with
  | nil => simp [named]
  | cons i rest =>
    cases rest with
    | nil =>
      dsimp only
      rw [Option.toList_some, hnote _ rfl]
      simp
    | cons j rest =>
      dsimp only
      rw [Option.toList_some, hnote _ rfl]
      simp

/-- The nodes of an event, list by list. -/
theorem named_append (event : String) (notes notes' : List Note) :
    named event (notes ++ notes') = named event notes ++ named event notes' := by
  unfold named
  rw [List.filter_append, List.map_append]

/-- The presence notes name the items of their lists; traffic notes name
nothing of either event. -/
theorem named_presence (l : Lists) (metered : List Item) :
    named "offline" (presenceNotes l ++ (batch "traffic" "⚠️" "流量提醒" metered).toList) =
        oneNote (l.down.map fun i => i.node.name) ∧
      named "online" (presenceNotes l ++ (batch "traffic" "⚠️" "流量提醒" metered).toList) =
        oneNote (l.up.map fun i => i.node.name) := by
  have hsplit : presenceNotes l = (batch "offline" "🔴" "离线" l.down).toList ++
      (batch "online" "🟢" "恢复在线" l.up).toList := by
    unfold presenceNotes
    cases batch "offline" "🔴" "离线" l.down <;> cases batch "online" "🟢" "恢复在线" l.up <;> rfl
  rw [hsplit]
  simp only [named_append, named_batch]
  simp

/-- Where the loop stopped after recording something, nothing names it. -/
theorem lost_announcement {r : Round} {w : Watch} {db : Store} {before after : List NodeRow}
    {n : NodeRow} (hlist : nodes db = before ++ n :: after)
    (hdue : ∃ m ∈ before, (due r w m).isSome = true) :
    ¬ Announced db (recorded r w before db) [] := by
  obtain ⟨m, hm, hsome⟩ := hdue
  obtain ⟨d, hd⟩ := Option.isSome_iff_exists.mp hsome
  have hsub : before.Sublist (nodes db) := by
    rw [hlist]
    exact List.sublist_append_left _ _
  have hrow : (recorded r w before db).node.find? m.id = some (moved r w m) :=
    find_recorded ((hsub.map NodeRow.id).nodup (nodes_nodup db))
      (fun x hx => find_of_mem (hsub.subset hx)) hm
  have hswitched : switched d.side (recorded r w before db) m = true :=
    (switched_moved hrow).mpr ⟨d, hd, rfl⟩
  have hnonempty : transitions d.side db (recorded r w before db) ≠ [] := by
    intro hempty
    rw [transitions, List.map_eq_nil_iff, List.filter_eq_nil_iff] at hempty
    exact hempty m (hsub.subset hm) hswitched
  have hnames : ∀ side, transitions side db (recorded r w before db) ≠ [] →
      named "offline" [] ≠ oneNote (transitions side db (recorded r w before db)) := by
    intro side hside
    rw [oneNote, if_neg hside]
    exact nofun
  rintro ⟨hdown, hup⟩
  cases hside : d.side with
  | down =>
    rw [hside] at hnonempty
    exact hnames .down hnonempty hdown
  | up =>
    rw [hside] at hnonempty
    exact hnames .up hnonempty hup

/-! ## When a failed write loses an announcement -/

/-- With nothing due nothing is recorded. -/
theorem recorded_none {r : Round} {w : Watch} {list : List NodeRow} (db : Store)
    (h : ∀ n ∈ list, due r w n = none) : recorded r w list db = db := by
  induction list generalizing db with
  | nil => rfl
  | cons n rest ih =>
    have hrest := ih db fun m hm => h m (List.mem_cons_of_mem n hm)
    unfold recorded at hrest ⊢
    rw [List.foldl_cons, h n List.mem_cons_self]
    exact hrest

/-- Nothing happened and nothing is said. -/
theorem announced_self (db : Store) : Announced db db [] := by
  unfold Announced
  rw [transitions_self, transitions_self]
  exact ⟨rfl, rfl⟩

/-- The first write that is due fails, or none does. -/
def FirstOrNone (fails : Int → Option Failure) (list : List NodeRow) : Prop :=
  ∀ first rest, list = first :: rest →
    (fails first.id).isSome = true ∨ ∀ n ∈ list, fails n.id = none

/-- Where the loop stopped at a failed write. -/
theorem stopped_announced_iff {r : Round} {w : Watch} {db : Store} {fails : Int → Option Failure}
    {before after : List NodeRow} {n : NodeRow} {e : Failure}
    (hlist : nodes db = before ++ n :: after)
    (hbefore : ∀ m ∈ before, (due r w m).isSome = true → fails m.id = none)
    (hdue : (due r w n).isSome = true) (hfails : fails n.id = some e) :
    Announced db (recorded r w before db) [] ↔ FirstOrNone fails (dueNodes r w db) := by
  have htail : (n :: after).filter (fun n => (due r w n).isSome) =
      n :: after.filter (fun n => (due r w n).isSome) := List.filter_cons_of_pos hdue
  have hdues : dueNodes r w db = before.filter (fun n => (due r w n).isSome) ++
      n :: after.filter (fun n => (due r w n).isSome) := by
    rw [dueNodes, hlist, List.filter_append, htail]
  by_cases hfirst : ∃ m ∈ before, (due r w m).isSome = true
  · -- something was stored before the failure
    constructor
    · intro h
      exact absurd h (lost_announcement hlist hfirst)
    · intro h
      obtain ⟨m, hm, hsome⟩ := hfirst
      have hin : m ∈ before.filter (fun n => (due r w n).isSome) :=
        List.mem_filter.mpr ⟨hm, hsome⟩
      obtain ⟨first, rest, hcons⟩ := List.exists_cons_of_ne_nil (List.ne_nil_of_mem hin)
      have hmem : first ∈ before.filter (fun n => (due r w n).isSome) := by
        rw [hcons]
        exact List.mem_cons_self
      rw [List.mem_filter] at hmem
      rw [hcons, List.cons_append] at hdues
      rcases h first _ hdues with hfail | hall
      · rw [hbefore first hmem.1 hmem.2] at hfail
        cases hfail
      · have hn : n ∈ dueNodes r w db := by
          rw [hdues]
          exact List.mem_cons_of_mem _ (List.mem_append_right _ List.mem_cons_self)
        rw [hall n hn] at hfails
        cases hfails
  · -- the failed write was the first
    have hskip : ∀ m ∈ before, due r w m = none := by
      intro m hm
      rw [← Option.not_isSome_iff_eq_none]
      exact fun hsome => hfirst ⟨m, hm, hsome⟩
    have hnone : before.filter (fun n => (due r w n).isSome) = [] := by
      rw [List.filter_eq_nil_iff]
      intro m hm hsome
      exact hfirst ⟨m, hm, hsome⟩
    rw [hnone, List.nil_append] at hdues
    rw [recorded_none db hskip]
    constructor
    · intro _ first rest hcons
      rw [hdues] at hcons
      cases hcons
      left
      rw [hfails]
      rfl
    · intro _
      exact announced_self db

/-- The transitions a sweep records are the ones it announces exactly when no
write of `down_since` fails, or already the first one does, or the node list
cannot be read. -/
theorem transitions_announced_iff (host : SweepHost) (faults : SweepFaults) (online : Int → Bool)
    (now : Int) (w : Watch) (db : Store) :
    Announced db (sweep host faults online now w db).db
        (sent (sweep host faults online now w db)) ↔
      faults.nodes.isSome = true ∨
      FirstOrNone faults.write (dueNodes (roundAt host faults online now db)
        (w.retain ((nodes db).map NodeRow.id)) db) := by
  unfold sweep
  cases hnodes : faults.nodes with
  | some e => exact ⟨fun _ => .inl rfl, fun _ => announced_self db⟩
  | none =>
    have hright : ∀ p : Prop, (none : Option Failure).isSome = true ∨ p ↔ p := by
      intro p
      simp
    rw [hright]
    dsimp only
    generalize roundAt host faults online now db = r
    generalize w.retain ((nodes db).map NodeRow.id) = w'
    have hloop := presence_loop r faults.write (nodes_nodup db) w' db
    generalize presence r faults.write (nodes db) w' db = p at hloop
    cases hloop with
    | finished hok =>
      dsimp only [trafficNotes, sent]
      constructor
      · intro _ first rest _
        refine .inr fun n hn => ?_
        rw [dueNodes, List.mem_filter] at hn
        exact hok n hn.1 hn.2
      · intro _
        generalize meter host _ _ _ _ = metered
        unfold Announced
        rw [transitions_recorded, transitions_recorded]
        exact named_presence ⟨items r w' .down (nodes db), items r w' .up (nodes db)⟩ metered.2
    | stopped hlist hbefore hdue hfails => exact stopped_announced_iff hlist hbefore hdue hfails

/-- A write that succeeded and one that failed after it: the first transition
is stored and not announced. -/
theorem lost_first {host : SweepHost} {faults : SweepFaults} {online : Int → Bool} {now : Int}
    {w : Watch} {db : Store} {r : Round} {first second : NodeRow} {rest : List NodeRow} {e : Failure}
    (hnodes : faults.nodes = none) (hround : roundAt host faults online now db = r)
    (hlist : nodes db = first :: second :: rest)
    (hdue : ∀ w', ∀ n ∈ nodes db, (due r w' n).isSome = true)
    (hfine : faults.write first.id = none) (hfails : faults.write second.id = some e) :
    ¬ Announced db (sweep host faults online now w db).db
      (sent (sweep host faults online now w db)) := by
  unfold sweep
  rw [hnodes, hround]
  dsimp only
  generalize w.retain ((nodes db).map NodeRow.id) = w'
  have hloop := presence_loop r faults.write (nodes_nodup db) w' db
  generalize presence r faults.write (nodes db) w' db = p at hloop
  have hmem : first ∈ nodes db ∧ second ∈ nodes db := by
    rw [hlist]
    exact ⟨List.mem_cons_self, List.mem_cons_of_mem _ List.mem_cons_self⟩
  cases hloop with
  | finished hok =>
    rw [hok second hmem.2 (hdue w' second hmem.2)] at hfails
    cases hfails
  | @stopped before after n e w'' hsplit hbefore hsome hfail =>
    refine lost_announcement hsplit ⟨first, ?_, hdue w' first hmem.1⟩
    rw [hlist] at hsplit
    cases before with
    | nil =>
      rw [List.nil_append, List.cons.injEq] at hsplit
      rw [← hsplit.1, hfine] at hfail
      cases hfail
    | cons m before =>
      rw [List.cons_append, List.cons.injEq] at hsplit
      rw [hsplit.1]
      exact List.mem_cons_self

/-- A node whose absence was announced. -/
def announcedNode (id : Int) (name : String) : NodeRow where
  id := id
  name := name
  tokenHash := name
  sort := id
  isPublic := true
  price := 0
  currency := "USD"
  billingCycle := "month"
  expiresAt := none
  remark := ""
  trafficLimit := 0
  trafficMode := "sum"
  trafficResetDay := 1
  hostname := ""
  os := ""
  kernel := ""
  arch := ""
  virt := ""
  cpuName := ""
  cpuCores := 0
  memTotal := 0
  swapTotal := 0
  diskTotal := 0
  agentVersion := ""
  ip := ""
  ipv4 := ""
  ipv6 := ""
  country := ""
  lastSeen := 600
  notify := true
  downSince := 600
  createdAt := 0
  priority := 0
  trafficUnit := "GB"
  bandwidthUp := 0
  bandwidthDown := 0
  hasIpv4 := true
  hasIpv6 := false
  onlineSince := 60

/-- Two of them. -/
def twoAnnounced : Store :=
  { Store.blank with
    node := ⟨{announcedNode 1 "a", announcedNode 2 "b"}, by
      intro r hr s hs hid
      rw [Finset.mem_insert, Finset.mem_singleton] at hr hs
      rcases hr with rfl | rfl
      · rcases hs with rfl | rfl
        · rfl
        · cases hid
      · rcases hs with rfl | rfl
        · cases hid
        · rfl⟩ }

/-- The store of the example holds its two nodes. -/
theorem nodes_twoAnnounced : nodes twoAnnounced = [announcedNode 1 "a", announcedNode 2 "b"] := by
  have hkeys : (twoAnnounced.node.rows.image fun r => toLex (r.sort, r.id)) =
      {toLex ((1 : Int), (1 : Int)), toLex ((2 : Int), (2 : Int))} := by
    change ({announcedNode 1 "a", announcedNode 2 "b"} : Finset NodeRow).image _ = _
    rw [Finset.image_insert, Finset.image_singleton]
    rfl
  have hfind : ∀ n ∈ twoAnnounced.node.rows, twoAnnounced.node.find? n.id = some n :=
    fun n hn => Table.find?_eq_some.mpr ⟨hn, rfl⟩
  have hfirst := hfind (announcedNode 1 "a") (Finset.mem_insert_self _ _)
  have hsecond := hfind (announcedNode 2 "b")
    (Finset.mem_insert_of_mem (Finset.mem_singleton_self _))
  have hsort : ({toLex ((1 : Int), (1 : Int)), toLex ((2 : Int), (2 : Int))} :
      Finset (Lex (Int × Int))).sort (· ≤ ·) =
        [toLex ((1 : Int), (1 : Int)), toLex ((2 : Int), (2 : Int))] := by
    rw [Finset.sort_insert (· ≤ ·) (by decide) (by decide), Finset.sort_singleton]
  rw [nodes, hkeys, hsort]
  have hlist : ∀ (f : Lex (Int × Int) → Option NodeRow) (k k' : Lex (Int × Int)) (n n' : NodeRow),
      f k = some n → f k' = some n' → [k, k'].filterMap f = [n, n'] := by
    intro f k k' n n' hk hk'
    simp [hk, hk']
  exact hlist _ _ _ _ _ hfirst hsecond

/-- Both are back and the write for the second is refused. -/
def secondFails : SweepFaults := { SweepFaults.none with
  write := fun id => if id = 2 then some .engine else none }

/-- A hub whose notes are read by nobody. -/
def silentHost : SweepHost := ⟨fun _ => "", fun _ => "", .june 1 TrafficFold.first_day⟩

/-- The first node is back in the database, and no note says so. -/
theorem secondFails_unannounced :
    ¬ Announced twoAnnounced
        (sweep silentHost secondFails (fun _ => true) 1200 Watch.fresh twoAnnounced).db
        (sent (sweep silentHost secondFails (fun _ => true) 1200 Watch.fresh twoAnnounced)) := by
  have hdue : ∀ w', ∀ n ∈ nodes twoAnnounced,
      (due (roundAt silentHost secondFails (fun _ => true) 1200 twoAnnounced) w' n).isSome = true := by
    intro w' n hn
    rw [due, visit_online rfl]
    rw [nodes_twoAnnounced, List.mem_pair] at hn
    rcases hn with rfl | rfl
    · rfl
    · rfl
  exact lost_first rfl rfl nodes_twoAnnounced hdue rfl rfl

end Romi.SweepOutcome
