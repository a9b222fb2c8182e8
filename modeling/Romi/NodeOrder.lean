import Romi.NodeColumns
import Romi.SweepOutcome

/-!
# The order the panel lists its nodes in

The list follows the positions of the nodes, ties broken by their ids.
Reordering rewrites every position or none, a new node is placed behind the
last one, and nothing else that goes on beside moves a node.
-/

namespace Romi.NodeOrder

open CachedTransactions CachedTransactions.Job KeyedTable NodeColumns NodeContinuity NotifySweep
  StoreAnswers StoreGuard StoreInvariant StoreJobs StoreOperations StoreSchema SweepOutcome

/-! ## Positions -/

/-- Where a node stands in the list. -/
def position (r : NodeRow) : Int ×ₗ Int := toLex (r.sort, r.id)

/-- The ids in panel order. -/
def order (db : Store) : List Int := (nodes db).map NodeRow.id

/-- Positions in ascending order that are those of the nodes are those of the list. -/
theorem nodes_at {db : Store} {places : List (Int ×ₗ Int)} (hsorted : places.Pairwise (· < ·))
    (hmem : ∀ c, c ∈ columns position db ↔ c ∈ places) : (nodes db).map position = places := by
  have hset : columns position db = places.toFinset := by
    ext c
    rw [hmem, List.mem_toFinset]
  have hnodup : places.Nodup := hsorted.imp ne_of_lt
  have hlist : (nodes db).map position = (columns position db).sort (· ≤ ·) := nodes_positions db
  rw [hlist, hset]
  exact (List.toFinset_sort (· ≤ ·) hnodup).mpr (hsorted.imp le_of_lt)

/-- Every list of nodes has its positions in ascending order. -/
theorem positions_ascend (db : Store) : ((nodes db).map position).Pairwise (· < ·) := by
  have hlist : (nodes db).map position = (columns position db).sort (· ≤ ·) := nodes_positions db
  rw [hlist]
  exact (Finset.sortedLT_sort _).pairwise

/-- The positions that are taken. -/
theorem mem_positions {db : Store} (c : Int ×ₗ Int) :
    c ∈ (nodes db).map position ↔ c ∈ columns position db := by
  rw [List.mem_map, mem_columns]
  constructor
  · rintro ⟨r, hr, rfl⟩
    exact ⟨r, mem_nodes.mp hr, rfl⟩
  · rintro ⟨r, hr, rfl⟩
    exact ⟨r, mem_nodes.mpr hr, rfl⟩

/-- The order is read off the positions. -/
theorem order_positions (db : Store) :
    order db = ((nodes db).map position).map fun c => (ofLex c).2 := by
  rw [List.map_map]
  rfl

/-- Nodes at the same positions are listed in the same order. -/
theorem order_of_same {db db' : Store} (h : Same position db db') : order db' = order db := by
  have hlist : (nodes db').map position = (nodes db).map position := by
    refine nodes_at (positions_ascend db) ?_
    intro c
    rw [mem_positions, h]
  rw [order_positions, hlist, ← order_positions]

/-- Who is in the order is a node. -/
theorem mem_order {db : Store} {id : Int} : id ∈ order db ↔ db.node.Has id := by
  unfold order
  rw [List.mem_map]
  constructor
  · rintro ⟨r, hr, rfl⟩
    exact ⟨r, mem_nodes.mp hr, rfl⟩
  · rintro ⟨r, hr, rfl⟩
    exact ⟨r, mem_nodes.mpr hr, rfl⟩

/-- And every node is. -/
theorem order_length (db : Store) : (order db).length = db.node.rows.card := by
  have hrows : (nodes db).Nodup := List.Nodup.of_map NodeRow.id (nodes_nodup db)
  have hset : (nodes db).toFinset = db.node.rows := by
    ext r
    rw [List.mem_toFinset, mem_nodes]
  unfold order
  rw [List.length_map, ← List.toFinset_card_of_nodup hrows, hset]

/-! ## Which lists are accepted -/

/-- What the checks of a reorder come to. -/
def Accepted (ids : List Int) (db : Store) : Prop :=
  ids.Nodup ∧ db.node.rows.card = ids.length ∧ ∀ id ∈ ids, db.node.Has id

/-- A duplicate-free list of the right length, every element known, is a permutation. -/
theorem accepted_iff {ids : List Int} {db : Store} : Accepted ids db ↔ ids.Perm (order db) := by
  constructor
  · rintro ⟨hnodup, hcount, hknown⟩
    have hsubset : ids.Subperm (order db) :=
      List.subperm_of_subset hnodup fun id hid => mem_order.mpr (hknown id hid)
    refine hsubset.perm_of_length_le ?_
    rw [order_length]
    omega
  · intro hperm
    refine ⟨hperm.nodup_iff.mpr (nodes_nodup db), ?_, ?_⟩
    · rw [hperm.length_eq, order_length]
    · intro id hid
      exact mem_order.mp (hperm.mem_iff.mp hid)

/-! ## The rows a reorder writes -/

/-- A row at a new position. -/
def moved (count sort : Nat) (r : NodeRow) : NodeRow :=
  { r with sort := sort, priority := (count : Int) - sort }

/-- The store after the loop of `reorder_nodes` from position `sort` on. -/
def placed (count : Nat) : Nat → List Int → Store → Store
  | _, [], db => db
  | sort, id :: rest, db =>
    placed count (sort + 1) rest (updateNodeRow id (moved count sort) (fun _ => rfl) db)

/-- What became of a row. -/
def settled (count : Nat) : Nat → List Int → NodeRow → NodeRow
  | _, [], r => r
  | sort, id :: rest, r => if r.id = id then moved count sort r else settled count (sort + 1) rest r

/-- The positions handed out. -/
def places : Nat → List Int → List (Int ×ₗ Int)
  | _, [] => []
  | sort, id :: rest => toLex ((sort : Int), id) :: places (sort + 1) rest

/-- A node that is not listed stays where it is. -/
theorem settled_of_notMem {count sort : Nat} {ids : List Int} {r : NodeRow} (h : r.id ∉ ids) :
    settled count sort ids r = r := by
  induction ids generalizing sort with
  | nil => rfl
  | cons id rest ih =>
    rw [List.mem_cons, not_or] at h
    rw [settled, if_neg h.1]
    exact ih h.2

/-- The rows after nodes were put in order. -/
theorem mem_placed {count sort : Nat} {ids : List Int} {db : Store} (hnodup : ids.Nodup)
    {r' : NodeRow} : r' ∈ (placed count sort ids db).node.rows ↔
      ∃ r ∈ db.node.rows, settled count sort ids r = r' := by
  induction ids generalizing sort db with
  | nil =>
    constructor
    · intro h
      exact ⟨r', h, rfl⟩
    · rintro ⟨r, hr, rfl⟩
      exact hr
  | cons id rest ih =>
    rw [List.nodup_cons] at hnodup
    have hkey : ∀ q, (moved count sort q).id = q.id := fun _ => rfl
    -- A row moved here is not moved again, since its id does not come back.
    have hrow : ∀ q : NodeRow, settled count (sort + 1) rest
        (if q.id = id then moved count sort q else q) = settled count sort (id :: rest) q := by
      intro q
      rw [settled]
      split
      · rename_i hq
        exact settled_of_notMem (by rw [hkey, hq]; exact hnodup.1)
      · rfl
    rw [placed, ih hnodup.2]
    constructor
    · rintro ⟨s, hs, rfl⟩
      obtain ⟨r, hr, rfl⟩ := (Table.mem_updateWhere hkey).mp hs
      exact ⟨r, hr, (hrow r).symm⟩
    · rintro ⟨r, hr, rfl⟩
      exact ⟨_, (Table.mem_updateWhere hkey).mpr ⟨r, hr, rfl⟩, hrow r⟩

/-- The places of a list are those of its nodes. -/
theorem places_ids (sort : Nat) (ids : List Int) :
    (places sort ids).map (fun c => (ofLex c).2) = ids := by
  induction ids generalizing sort with
  | nil => rfl
  | cons id rest ih =>
    rw [places, List.map_cons, ih]
    rfl

/-- Their numbers count up. -/
theorem places_sorts (sort : Nat) (ids : List Int) :
    (places sort ids).map (fun c => (ofLex c).1) =
      (List.range' sort ids.length).map fun i : Nat => (i : Int) := by
  induction ids generalizing sort with
  | nil => rfl
  | cons id rest ih =>
    rw [places, List.map_cons, ih, List.length_cons, List.range'_succ, List.map_cons]
    rfl

/-- From the first on. -/
theorem places_le {sort : Nat} {ids : List Int} {c : Int ×ₗ Int} (h : c ∈ places sort ids) :
    (sort : Int) ≤ (ofLex c).1 := by
  induction ids generalizing sort with
  | nil => cases h
  | cons id rest ih =>
    rcases List.mem_cons.mp h with rfl | h
    · exact le_refl _
    · have hle := ih h
      push_cast at hle
      omega

/-- So each is before the next. -/
theorem places_ascend (sort : Nat) (ids : List Int) : (places sort ids).Pairwise (· < ·) := by
  induction ids generalizing sort with
  | nil => exact List.Pairwise.nil
  | cons id rest ih =>
    refine List.Pairwise.cons ?_ (ih _)
    intro c hc
    have hle := places_le hc
    push_cast at hle
    refine Prod.Lex.lt_iff.mpr (.inl ?_)
    change (sort : Int) < (ofLex c).1
    omega

/-- A row of the list takes its place and the priority that goes with it. -/
theorem settled_mem {count sort : Nat} {ids : List Int} {r : NodeRow} (h : r.id ∈ ids) :
    position (settled count sort ids r) ∈ places sort ids ∧
      (settled count sort ids r).id = r.id ∧
      (settled count sort ids r).priority = count - (settled count sort ids r).sort := by
  induction ids generalizing sort with
  | nil => cases h
  | cons id rest ih =>
    by_cases hid : r.id = id
    · rw [settled, if_pos hid, ← hid]
      exact ⟨List.mem_cons_self, rfl, rfl⟩
    · rw [settled, if_neg hid]
      rcases List.mem_cons.mp h with heq | h
      · exact absurd heq hid
      · obtain ⟨hplace, hkeep, hpriority⟩ := @ih (sort + 1) h
        exact ⟨List.mem_cons_of_mem _ hplace, hkeep, hpriority⟩

/-- Every place is taken by the row of its id. -/
theorem settled_at {count sort : Nat} {ids : List Int} (hnodup : ids.Nodup) {c : Int ×ₗ Int}
    (h : c ∈ places sort ids) {r : NodeRow} (hr : r.id = (ofLex c).2) :
    position (settled count sort ids r) = c := by
  induction ids generalizing sort with
  | nil => cases h
  | cons id rest ih =>
    rw [List.nodup_cons] at hnodup
    rcases List.mem_cons.mp h with rfl | h
    · have hid : r.id = id := hr
      rw [settled, if_pos hid, ← hid]
      rfl
    · have hrest : r.id ∈ rest := by
        rw [hr, ← places_ids (sort + 1) rest]
        exact List.mem_map_of_mem h
      rw [settled, if_neg (fun hid => hnodup.1 (by rwa [hid] at hrest))]
      exact ih hnodup.2 h

/-- The list after a reorder: its order, and the priorities along it. -/
theorem nodes_placed {ids : List Int} {db : Store} (h : Accepted ids db) :
    (nodes (placed ids.length 0 ids db)).map position = places 0 ids ∧
      ∀ r ∈ nodes (placed ids.length 0 ids db), r.priority = ids.length - r.sort := by
  have hperm := accepted_iff.mp h
  have hlisted : ∀ r ∈ db.node.rows, r.id ∈ ids :=
    fun r hr => hperm.mem_iff.mpr (mem_order.mpr ⟨r, hr, rfl⟩)
  refine ⟨nodes_at (places_ascend 0 ids) ?_, ?_⟩
  · intro c
    rw [mem_columns]
    constructor
    · rintro ⟨r', hr', rfl⟩
      obtain ⟨r, hr, rfl⟩ := (mem_placed h.1).mp hr'
      exact (settled_mem (hlisted r hr)).1
    · intro hc
      have hid : (ofLex c).2 ∈ ids := by
        rw [← places_ids 0 ids]
        exact List.mem_map_of_mem hc
      obtain ⟨r, hr, hrid⟩ := h.2.2 _ hid
      exact ⟨_, (mem_placed h.1).mpr ⟨r, hr, rfl⟩, settled_at h.1 hc hrid⟩
  · intro r' hr'
    obtain ⟨r, hr, rfl⟩ := (mem_placed h.1).mp (mem_nodes.mp hr')
    exact (settled_mem (hlisted r hr)).2.2

/-- A list that is accepted is the order from then on. -/
theorem order_placed {ids : List Int} {db : Store} (h : Accepted ids db) :
    order (placed ids.length 0 ids db) = ids := by
  rw [order_positions, (nodes_placed h).1, places_ids]

/-- From the number of nodes down to one. -/
theorem priorities_placed {ids : List Int} {db : Store} (h : Accepted ids db) :
    (nodes (placed ids.length 0 ids db)).map NodeRow.priority =
      (List.range ids.length).map fun i : Nat => (ids.length : Int) - i := by
  obtain ⟨hplaces, hpriority⟩ := nodes_placed h
  have hsorts := places_sorts 0 ids
  rw [← hplaces, List.map_map, ← List.range_eq_range'] at hsorts
  have hsame : (nodes (placed ids.length 0 ids db)).map NodeRow.priority =
      ((nodes (placed ids.length 0 ids db)).map ((fun c => (ofLex c).1) ∘ position)).map
        fun s => (ids.length : Int) - s := by
    rw [List.map_map]
    exact List.map_congr_left hpriority
  rw [hsame, hsorts, List.map_map]
  rfl

/-! ## The reorder itself -/

/-- An update touches a row just when the node is there. -/
theorem touched_eq_one {id : Int} {db : Store} : touched id db = 1 ↔ db.node.Has id :=
  Table.card_key_eq_one

/-- Moving a node keeps who is there. -/
theorem has_moved {count sort : Nat} {id n : Int} {db : Store} :
    (updateNodeRow id (moved count sort) (fun _ => rfl) db).node.Has n ↔ db.node.Has n := by
  have hkey : ∀ q, (moved count sort q).id = q.id := fun _ => rfl
  exact Table.has_updateWhere hkey

/-- Putting nodes in order succeeds only where all are there. -/
theorem reorderFrom_ok {count sort : Nat} {ids : List Int} {s s' : Session Store Guard} {u : Unit}
    (h : reorderFrom count sort ids s = (.ok u, s')) :
    (∀ id ∈ ids, s.db.node.Has id) ∧ s'.db = placed count sort ids s.db := by
  induction ids generalizing sort s with
  | nil =>
    rw [(pure_ok h).2]
    exact ⟨fun _ hid => (by cases hid), rfl⟩
  | cons id rest ih =>
    obtain ⟨n, s₁, hstatement, hchecked⟩ := bind_ok h
    obtain ⟨_, s₂, hens, hrest⟩ := bind_ok hchecked
    obtain ⟨hn, rfl⟩ := ensure_ok hens
    obtain ⟨hmoved, -⟩ := statement_ok hstatement
    rw [Except.ok.injEq, Prod.mk.injEq, hn] at hmoved
    have hdb : s₂.db = updateNodeRow id (moved count sort) (fun _ => rfl) s.db := hmoved.2.symm
    obtain ⟨hknown, hplaced⟩ := ih hrest
    rw [hdb] at hknown hplaced
    refine ⟨?_, hplaced⟩
    intro n hn
    rcases List.mem_cons.mp hn with rfl | hn
    · exact touched_eq_one.mp hmoved.1
    · exact has_moved.mp (hknown n hn)

/-- And there it succeeds. -/
theorem reorderFrom_run {count sort : Nat} {ids : List Int} {db : Store} (g : Guard)
    (h : ∀ id ∈ ids, db.node.Has id) :
    reorderFrom count sort ids (willing db g) = (.ok (), willing (placed count sort ids db) g) := by
  induction ids generalizing sort db with
  | nil => rfl
  | cons id rest ih =>
    have hstatement : statement (fun db => .ok (touched id db, updateNodeRow id
        (fun r => { r with sort := sort, priority := (count : Int) - sort }) (fun _ => rfl) db))
        (willing db g) = (.ok (touched id db), willing (updateNodeRow id (moved count sort)
          (fun _ => rfl) db) g) := statement_run g rfl
    rw [reorderFrom, bind_run hstatement,
      bind_run (ensure_run _ _ (touched_eq_one.mpr (h id List.mem_cons_self))), placed]
    exact ih fun n hn => has_moved.mpr (h n (List.mem_cons_of_mem id hn))

/-- A reorder that succeeded was given every node once and put them there. -/
theorem reorderNodes_ok {ids : List Int} {s s' : Session Store Guard} {u : Unit}
    (h : reorderNodes ids s = (.ok u, s')) :
    Accepted ids s.db ∧ s'.db = placed ids.length 0 ids s.db := by
  obtain ⟨_, s₁, hens, htransaction⟩ := bind_ok h
  obtain ⟨hnodup, rfl⟩ := ensure_ok hens
  obtain ⟨s₂, s₃, hdb, -, hbody, hdb', -⟩ := transaction_ok htransaction
  obtain ⟨count, s₄, hquery, hchecked⟩ := bind_ok hbody
  obtain ⟨_, s₅, hlength, hloop⟩ := bind_ok hchecked
  obtain ⟨hcount, rfl⟩ := ensure_ok hlength
  obtain ⟨hcard, hdb₄, -⟩ := query_ok hquery
  obtain ⟨hknown, hplaced⟩ := reorderFrom_ok hloop
  rw [hdb₄, hdb] at hknown hplaced
  rw [hdb] at hcard
  exact ⟨⟨hnodup, hcard.symm.trans hcount, hknown⟩, by rw [hdb', hplaced]⟩

/-- One that did not changed nothing. -/
theorem reorderNodes_error {ids : List Int} {s s' : Session Store Guard} {e : Failure}
    (h : reorderNodes ids s = (.error e, s')) : s'.db = s.db := by
  rcases bind_error h with hens | ⟨_, s₁, hens, htransaction⟩
  · unfold ensure at hens
    split at hens
    · cases hens
    · rw [Prod.mk.injEq] at hens
      rw [← hens.2]
  · obtain ⟨-, rfl⟩ := ensure_ok hens
    exact transaction_error htransaction

/-- An engine that accepts everything lets an accepted list through. -/
theorem reorderNodes_run {ids : List Int} {db : Store} (g : Guard) (h : Accepted ids db) :
    reorderNodes ids (willing db g) =
      (.ok (), willing (placed ids.length 0 ids db) g) := by
  have hcount : query (fun db : Store => db.node.rows.card) (willing db g) =
      (.ok db.node.rows.card, willing db g) := statement_run g rfl
  have hbody : reorderBody ids (willing db g) =
      (.ok (), willing (placed ids.length 0 ids db) g) := by
    rw [reorderBody, bind_run hcount, bind_run (ensure_run _ _ h.2.1)]
    exact reorderFrom_run g h.2.2
  rw [reorderNodes, bind_run (ensure_run _ _ h.1)]
  exact transaction_run hbody

/-! ## Nodes that come and go -/

/-- A new node is placed behind all the others. -/
theorem lt_nextSort {db : Store} {r : NodeRow} (hr : r ∈ db.node.rows) : r.sort < nextSort db := by
  have hmem : r.sort ∈ db.node.rows.image NodeRow.sort := Finset.mem_image_of_mem _ hr
  obtain ⟨last, hlast⟩ := Finset.max_of_mem hmem
  have hle : r.sort ≤ last := Finset.le_max_of_eq hmem hlast
  unfold nextSort
  rw [hlast, WithBot.unbotD_coe]
  omega

/-- A node that is created comes last. -/
theorem order_made {host : Host} {now : Int} {n : NewNode} {token : String}
    {cap : Option (Int × Int)} {id : Int} {db db' : Store}
    (h : Ran host (.createNodeWithin now n token cap) db (.ok (.id id)) db') :
    order db' = order db ++ [id] := by
  have hplaces : (nodes db').map position =
      (nodes db).map position ++ [toLex (nextSort db, id)] := by
    refine nodes_at ?_ ?_
    · refine List.pairwise_append.mpr ⟨positions_ascend db, List.pairwise_singleton _ _, ?_⟩
      intro c hc last hlast
      rw [mem_positions, mem_columns] at hc
      obtain ⟨r, hr, rfl⟩ := hc
      rw [List.mem_singleton.mp hlast]
      exact Prod.Lex.lt_iff.mpr (.inl (lt_nextSort hr))
    · intro c
      rw [made_columns (fun _ => rfl) h, List.mem_append, mem_positions, List.mem_singleton]
      exact or_comm
  rw [order_positions, hplaces, List.map_append, ← order_positions]
  rfl

/-- A node that is deleted leaves the order of the others. -/
theorem order_removed {host : Host} {id : Int} {db db' : Store}
    (h : Ran host (.deleteNode id) db (.ok .nothing) db') :
    order db' = (order db).filter fun n => n ≠ id := by
  have hplaces : (nodes db').map position =
      ((nodes db).map position).filter fun c => (ofLex c).2 ≠ id := by
    refine nodes_at ((positions_ascend db).filter _) ?_
    intro c
    rw [removed_columns h, List.mem_filter, mem_positions, mem_columns, decide_eq_true_eq]
    constructor
    · rintro ⟨r, hr, hne, rfl⟩
      exact ⟨⟨r, hr, rfl⟩, hne⟩
    · rintro ⟨⟨r, hr, rfl⟩, hne⟩
      exact ⟨r, hr, hne, rfl⟩
  rw [order_positions, hplaces, order_positions,
    @List.filter_map _ _ (fun c : Int ×ₗ Int => (ofLex c).2) (fun n => decide (n ≠ id))]
  rfl

/-- A change to the set of nodes. -/
inductive Change
  /-- A node was created. -/
  | made (id : Int)
  /-- A node was deleted. -/
  | removed (id : Int)

/-- A list of ids after it: the rest stays as it is, a new one is last. -/
def Change.applyTo (ids : List Int) : Change → List Int
  | .made id => ids ++ [id]
  | .removed id => ids.filter fun n => n ≠ id

/-- Nodes come and go, some attempts fail, and what else is written moves no node. -/
inductive Edited (host : Host) : Store → List Change → Store → Prop
  /-- Nothing more happens. -/
  | done (db : Store) : Edited host db [] db
  /-- A node is created. -/
  | made {now : Int} {n : NewNode} {token : String} {cap : Option (Int × Int)} {id : Int}
      {db db' db'' : Store} {changes : List Change}
      (h : Ran host (.createNodeWithin now n token cap) db (.ok (.id id)) db')
      (rest : Edited host db' changes db'') : Edited host db (.made id :: changes) db''
  /-- It is not. -/
  | notMade {now : Int} {n : NewNode} {token : String} {cap : Option (Int × Int)} {e : Failure}
      {db db' db'' : Store} {changes : List Change}
      (h : Ran host (.createNodeWithin now n token cap) db (.error e) db')
      (rest : Edited host db' changes db'') : Edited host db changes db''
  /-- A node is deleted. -/
  | removed {id : Int} {db db' db'' : Store} {changes : List Change}
      (h : Ran host (.deleteNode id) db (.ok .nothing) db')
      (rest : Edited host db' changes db'') : Edited host db (.removed id :: changes) db''
  /-- It is not. -/
  | notRemoved {id : Int} {e : Failure} {db db' db'' : Store} {changes : List Change}
      (h : Ran host (.deleteNode id) db (.error e) db')
      (rest : Edited host db' changes db'') : Edited host db changes db''
  /-- A closure that leaves the order alone. -/
  | other {op : Solo} (hop : Spares position op) {answer : Except Failure Payload}
      {db db' db'' : Store} {changes : List Change} (h : Ran host op db answer db')
      (rest : Edited host db' changes db'') : Edited host db changes db''
  /-- Telemetry. -/
  | telemetry (op : Telemetry) (session : Session Store Guard) {db'' : Store}
      {changes : List Change} (rest : Edited host (op.job host session).2.db changes db'') :
      Edited host session.db changes db''

/-- The order after them is the order before, changed in the same way. -/
theorem order_edited {host : Host} {db db' : Store} {changes : List Change}
    (h : Edited host db changes db') : order db' = changes.foldl Change.applyTo (order db) := by
  induction h with
  | done => rfl
  | made h rest ih =>
    rw [ih, order_made h]
    rfl
  | notMade h rest ih =>
    rw [ih, ran_commitThen_refused (p := .id) rfl h]
  | removed h rest ih =>
    rw [ih, order_removed h]
    rfl
  | notRemoved h rest ih =>
    rw [ih, ran_commitThen_refused (p := fun _ => .nothing) rfl h]
  | other hop h rest ih =>
    rw [ih, order_of_same (ran_same hop h)]
  | telemetry op session rest ih =>
    rw [ih, order_of_same (telemetry_same (fun _ _ _ => rfl) host _ op session rfl)]

/-! ## Reordering -/

/-- A reorder goes through exactly for a permutation of the nodes, and then the
list stands in that order with priorities from the number of nodes down to one,
nodes that come are last and nodes that go leave the rest in order; a reorder
that does not go through changes nothing. -/
theorem reorder_permutation (host : Host) (db : Store) (ids : List Int) :
    (∀ g, ((Solo.reorderNodes ids).job host (willing db g)).1 = .ok .nothing ↔
      ids.Perm (order db)) ∧
    ∀ answer db', Ran host (.reorderNodes ids) db answer db' →
      (answer = .ok .nothing ∧ ids.Perm (order db) ∧ order db' = ids ∧
        (nodes db').map NodeRow.priority =
          (List.range ids.length).map (fun i : Nat => (ids.length : Int) - i) ∧
        ∀ changes db'', Edited host db' changes db'' →
          order db'' = changes.foldl Change.applyTo ids) ∨
      ((∃ e, answer = .error e) ∧ db' = db) := by
  refine ⟨?_, ?_⟩
  · intro g
    rw [← accepted_iff]
    constructor
    · intro hok
      cases hrun : (Solo.reorderNodes ids).job host (willing db g) with
      | mk r after =>
        rw [hrun] at hok
        dsimp only at hok
        rw [hok] at hrun
        obtain ⟨u, hjob, -⟩ := boxed_ok hrun
        exact (reorderNodes_ok hjob).1
    · intro haccepted
      have hjob : (Solo.reorderNodes ids).job host (willing db g) =
          (.ok .nothing, willing (placed ids.length 0 ids db) g) :=
        bind_run (reorderNodes_run g haccepted)
      rw [hjob]
  · rintro answer db' ⟨session, rfl, rfl, rfl⟩
    cases hrun : (Solo.reorderNodes ids).job host session with
    | mk r after =>
      cases r with
      | error e => exact .inr ⟨⟨e, rfl⟩, reorderNodes_error (boxed_error hrun)⟩
      | ok p =>
        obtain ⟨u, hjob, rfl⟩ := boxed_ok hrun
        obtain ⟨haccepted, hdb⟩ := reorderNodes_ok hjob
        dsimp only
        rw [hdb]
        refine .inl ⟨rfl, accepted_iff.mp haccepted, order_placed haccepted,
          priorities_placed haccepted, ?_⟩
        intro changes db'' hedited
        rw [order_edited hedited, order_placed haccepted]

end Romi.NodeOrder
