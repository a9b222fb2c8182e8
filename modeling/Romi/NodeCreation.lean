import Romi.StoreAnswers

/-!
# How the creation of a node ends

It is counted against its ceiling, its row is there under the next id, or
nothing happened at all.
-/

namespace Romi.NodeCreation

open CachedTransactions CachedTransactions.Job KeyedTable NodeContinuity StoreAnswers StoreGuard
  StoreInvariant StoreJobs StoreOperations StoreSchema

/-- A creation that failed left the store as it was: no node, no id. -/
theorem createNodeWithin_refused {host : Host} {now : Int} {n : NewNode} {token : String}
    {cap : Option (Int × Int)} {db db' : Store} {e : Failure}
    (h : Ran host (.createNodeWithin now n token cap) db (.error e) db') : db' = db :=
  ran_commitThen_refused (p := .id) rfl h

/-- A creation that succeeded found fewer nodes than its ceiling, and one more is
there now, under an id that was free. -/
theorem createNodeWithin_made {host : Host} {now : Int} {n : NewNode} {token : String}
    {since limit id : Int} {db db' : Store}
    (h : Ran host (.createNodeWithin now n token (some (since, limit))) db (.ok (.id id)) db') :
    ((db.node.rows.filter fun r => r.createdAt ≥ since).card : Int) < limit ∧
      ¬ db.node.Has id ∧ ∃ r ∈ db'.node.rows, r.id = id ∧ r.createdAt = now := by
  obtain ⟨made, s, s', hid, rfl, hbody, rfl⟩ := ran_commitThen_ok (p := .id) rfl h
  cases hid
  obtain ⟨-, hcap, nodes, traffic, hinsert, hafter⟩ := createNodeBody_spec hbody
  refine ⟨hcap since limit rfl, (Table.insert?_eq_some hinsert).1, ?_⟩
  have hkey : ∀ r : NodeRow, (setNewNode n r).id = r.id := fun _ => rfl
  refine ⟨setNewNode n (newNodeRow id n (host.sha256 token) (nextSort s.db) now), ?_, rfl, rfl⟩
  rw [hafter]
  refine (Table.mem_updateWhere hkey).mpr ⟨newNodeRow id n (host.sha256 token)
    (nextSort s.db) now, (Table.mem_of_insert? hinsert).mpr (.inl rfl), ?_⟩
  exact if_pos rfl

/-- Where its ceiling, if any, leaves room and neither id nor token is taken, the
creation succeeds. -/
theorem createNodeWithin_ran_cap (host : Host) (now : Int) (n : NewNode) (token : String) {db : Store}
    {cap : Option (Int × Int)} {id : Int}
    (hcounter : db.romiId.find? "node" = some ⟨"node", id⟩)
    (hcap : ∀ since limit, cap = some (since, limit) →
      ((db.node.rows.filter fun r => r.createdAt ≥ since).card : Int) < limit)
    (htoken : ¬ ∃ r ∈ db.node.rows, r.tokenHash = host.sha256 token)
    (hnode : ¬ db.node.Has id) (htraffic : ¬ db.traffic.Has id) :
    ∃ db', Ran host (.createNodeWithin now n token cap) db (.ok (.id id)) db' := by
  have hcheck : ∀ g, checkCap cap (willing db g) = (.ok (), willing db g) := by
    intro g
    unfold checkCap
    cases cap with
    | none => rfl
    | some bound =>
      have hquery : (query fun db : Store =>
          ((db.node.rows.filter fun r => r.createdAt ≥ bound.1).card : Int)) (willing db g) =
          (.ok ((db.node.rows.filter fun r => r.createdAt ≥ bound.1).card : Int), willing db g) :=
        statement_run g rfl
      exact (bind_run hquery).trans (ensure_run _ _ (hcap bound.1 bound.2 rfl))
  have halloc : ∀ g, allocId "node" (willing db g) = (.ok id, willing (counted "node" db) g) := by
    intro g
    have htake : takeId "node" db = .ok (some id, counted "node" db) := by
      unfold takeId
      rw [hcounter]
      rfl
    unfold allocId
    rw [bind_run (statement_run g htake)]
    rfl
  obtain ⟨nodes, hnodes⟩ : ∃ nodes, db.node.insert?
      (newNodeRow id n (host.sha256 token) (nextSort db) now) = some nodes :=
    ⟨_, Table.insert?_of_free hnode⟩
  obtain ⟨rows, hrows⟩ : ∃ rows, db.traffic.insert? (newTrafficRow id) = some rows :=
    ⟨_, Table.insert?_of_free htraffic⟩
  have hinsert : insertNode (newNodeRow id n (host.sha256 token) (nextSort db) now)
      (counted "node" db) = .ok ((), { counted "node" db with node := nodes }) := by
    unfold insertNode
    have hfree : ¬ ∃ r ∈ (counted "node" db).node.rows, r.tokenHash =
        (newNodeRow id n (host.sha256 token) (nextSort db) now).tokenHash := htoken
    have hnodes' : (counted "node" db).node.insert?
        (newNodeRow id n (host.sha256 token) (nextSort db) now) = some nodes := hnodes
    rw [if_neg hfree, hnodes']
    rfl
  have htraffic' : insertTraffic id { counted "node" db with node := nodes } =
      .ok ((), { counted "node" db with node := nodes, traffic := rows }) := by
    unfold insertTraffic
    have hrows' : ({ counted "node" db with node := nodes } : Store).traffic.insert?
        (newTrafficRow id) = some rows := hrows
    rw [hrows']
    rfl
  have hbody : ∀ g, createNodeBody host.sha256 now n token cap (willing db g) =
      (.ok id, willing (updateNodeRow id (setNewNode n) (fun _ => rfl)
        { counted "node" db with node := nodes, traffic := rows }) g) := by
    intro g
    unfold createNodeBody
    rw [bind_run (hcheck g), bind_run (halloc g)]
    have hstatement : (statement fun db => insertNode (newNodeRow id n (host.sha256 token)
        (nextSort db) now) db) (willing (counted "node" db) g) =
        (.ok (), willing { counted "node" db with node := nodes } g) := statement_run g hinsert
    rw [bind_run hstatement, bind_run (statement_run g htraffic')]
    rfl
  have hjob : ∀ g, (Solo.createNodeWithin now n token cap).job host
      (willing db g) = (.ok (.id id), willing (updateNodeRow id (setNewNode n) (fun _ => rfl)
        { counted "node" db with node := nodes, traffic := rows }) { g with
          nodes := insert id g.nodes }) := fun g => bind_run (commitThen_run (hbody g))
  exact ⟨_, willing_ran (hjob ⟨∅, ∅, fun _ => none, fun _ => none⟩)⟩

/-- The same under a ceiling that leaves room. -/
theorem createNodeWithin_ran (host : Host) (now : Int) (n : NewNode) (token : String) {db : Store}
    {since limit id : Int} (hcounter : db.romiId.find? "node" = some ⟨"node", id⟩)
    (hcap : ((db.node.rows.filter fun r => r.createdAt ≥ since).card : Int) < limit)
    (htoken : ¬ ∃ r ∈ db.node.rows, r.tokenHash = host.sha256 token)
    (hnode : ¬ db.node.Has id) (htraffic : ¬ db.traffic.Has id) :
    ∃ db', Ran host (.createNodeWithin now n token (some (since, limit))) db (.ok (.id id)) db' := by
  refine createNodeWithin_ran_cap host now n token hcounter ?_ htoken hnode htraffic
  intro since' limit' hsame
  cases hsame
  exact hcap

end Romi.NodeCreation
