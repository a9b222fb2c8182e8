import Romi.NodeContinuity

/-!
# What a handler learns from the store

A handler waits for each of its writes and then knows whether it was done; a
read of a setting that fails looks to it like a setting that is not there.
-/

namespace Romi.StoreAnswers

open CachedTransactions CachedTransactions.Job KeyedTable NodeContinuity StoreGuard StoreOperations
  StoreJobs StoreSchema

/-- The write ran on the first store and left the second, with this answer. -/
def Ran (host : Host) (op : Solo) (db : Store) (answer : Except Failure Payload) (db' : Store) :
    Prop :=
  ∃ session : Session Store Guard, session.db = db ∧ (op.job host session).2.db = db' ∧
    (op.job host session).1 = answer

/-- The value of a setting. -/
def stored (db : Store) (key : String) : Option String := (db.setting.find? key).map SettingRow.value

/-- `get`, whose reader may fail. -/
def Got (db : Store) (key : String) (value : Option String) : Prop :=
  value = none ∨ value = stored db key

/-- A write of one statement that nothing but the engine can refuse. -/
theorem ran_execute {host : Host} {op : Solo} {f : Store → Store} {g : Unit → Payload}
    (hop : op.job host = boxed (execute f) g) {db db' : Store} {answer : Except Failure Payload}
    (h : Ran host op db answer db') :
    (answer = .ok (g ()) ∧ db' = f db) ∨ ((∃ e, answer = .error e) ∧ db' = db) := by
  obtain ⟨session, rfl, rfl, rfl⟩ := h
  rw [hop]
  cases hrun : boxed (execute f) g session with
  | mk r after =>
    cases r with
    | error e => exact .inr ⟨⟨e, rfl⟩, (execute_error (boxed_error hrun)).1⟩
    | ok p =>
      obtain ⟨u, hx, rfl⟩ := boxed_ok hrun
      exact .inl ⟨rfl, (execute_ok hx).1⟩

/-- A write in a transaction of its own that failed left the store as it was. -/
theorem ran_commitThen_refused {α : Type} {host : Host} {op : Solo} {body : StoreJob α}
    {f : α → Guard → Guard} {p : α → Payload} (hop : op.job host = boxed (commitThen body f) p)
    {db db' : Store} {e : Failure} (h : Ran host op db (.error e) db') : db' = db := by
  obtain ⟨session, rfl, rfl, herror⟩ := h
  rw [hop] at herror ⊢
  cases hrun : boxed (commitThen body f) p session with
  | mk r after =>
    rw [hrun] at herror
    dsimp only at herror ⊢
    rw [herror] at hrun
    rcases bind_error (boxed_error hrun) with hfailed | ⟨a, s₁, -, hrest⟩
    · exact transaction_error hfailed
    · rcases bind_error hrest with hfailed | ⟨u, s₂, -, hpure⟩
      · exact absurd hfailed modifyCache_ne_error
      · exact absurd hpure pure_ne_error

/-- A transaction of its own that went through is its body. -/
theorem ran_commitThen_ok {α : Type} {host : Host} {op : Solo} {body : StoreJob α}
    {f : α → Guard → Guard} {p : α → Payload} (hop : op.job host = boxed (commitThen body f) p)
    {db db' : Store} {answer : Payload} (h : Ran host op db (.ok answer) db') :
    ∃ a s s', answer = p a ∧ s.db = db ∧ body s = (.ok a, s') ∧ s'.db = db' := by
  obtain ⟨session, rfl, rfl, hok⟩ := h
  rw [hop] at hok ⊢
  cases hrun : boxed (commitThen body f) p session with
  | mk r after =>
    rw [hrun] at hok
    dsimp only at hok ⊢
    rw [hok] at hrun
    obtain ⟨a, hjob, hanswer⟩ := boxed_ok hrun
    obtain ⟨b, s₁, htransaction, hrest⟩ := bind_ok hjob
    obtain ⟨u, s₂, hmodify, hpure⟩ := bind_ok hrest
    obtain ⟨rfl, rfl⟩ := pure_ok hpure
    obtain ⟨s₃, s₄, hdb, -, hbody, hdb', -⟩ := transaction_ok htransaction
    exact ⟨b, s₃, s₄, hanswer, hdb, hbody, by rw [(modifyCache_ok hmodify).1, hdb']⟩

/-- A write that failed or was not what it was asked for still left the rows it
does not single out. -/
theorem ran_continues {host : Host} {op : Solo} {db db' : Store} {answer : Except Failure Payload}
    (h : Ran host op db answer db') : Continues (touchesOf op) db db' := by
  obtain ⟨session, rfl, rfl, -⟩ := h
  exact solo_continues host _ op session (.refl _ _)

/-! ## An engine that accepts everything -/

/-- A session on this store that will not be refused anything. -/
def willing (db : Store) (g : Guard) : Session Store Guard := ⟨db, g, []⟩

/-- Going on after a part that succeeded. -/
theorem bind_run {σ γ α β : Type} {x : Job σ γ α} {f : α → Job σ γ β} {t t' : Session σ γ} {a : α}
    (h : x t = (.ok a, t')) : (x >>= f) t = f a t' := by
  change andThen x f t = _
  unfold andThen
  rw [h]

/-- A statement on a willing store. -/
theorem statement_run {α : Type} {f : Store → Except Failure (α × Store)} {db db' : Store} {x : α}
    (g : Guard) (h : f db = .ok (x, db')) :
    statement f (willing db g) = (.ok x, willing db' g) := by
  have hopen : (engineAccepts : StoreJob Unit) (willing db g) = (.ok (), willing db g) := rfl
  have hdb : (willing db g).db = db := rfl
  unfold statement
  rw [hopen]
  dsimp only
  rw [hdb, h]
  rfl

/-- A check that holds. -/
theorem ensure_run {p : Prop} [Decidable p] (text : String) (t : Session Store Guard) (hp : p) :
    ensure p text t = (.ok (), t) := by
  unfold ensure
  rw [if_pos hp]

/-- A transaction whose body runs through commits. -/
theorem transaction_run {α : Type} {body : StoreJob α} {db db' : Store} {g : Guard} {a : α}
    (h : body (willing db g) = (.ok a, willing db' g)) :
    transaction body (willing db g) = (.ok a, willing db' g) := by
  have hopen : (engineAccepts : StoreJob Unit) (willing db g) = (.ok (), willing db g) := rfl
  have hclose : (engineAccepts : StoreJob Unit) (willing db' g) = (.ok (), willing db' g) := rfl
  unfold transaction
  rw [hopen]
  dsimp only
  rw [h]
  dsimp only
  rw [hclose]

/-- A body and its commit. -/
theorem commitThen_run {α : Type} {body : StoreJob α} {f : α → Guard → Guard} {db db' : Store}
    {g : Guard} {a : α} (h : body (willing db g) = (.ok a, willing db' g)) :
    commitThen body f (willing db g) = (.ok a, willing db' (f a g)) := by
  unfold commitThen
  rw [bind_run (transaction_run h)]
  rfl

/-- Statements one after the other. -/
theorem executeAll_run (fs : List (Store → Store)) (db : Store) (g : Guard) :
    executeAll fs (willing db g) = (.ok (), willing (fs.foldl (fun db f => f db) db) g) := by
  induction fs generalizing db with
  | nil => rfl
  | cons f rest ih =>
    have hfirst : (execute f : StoreJob Unit) (willing db g) = (.ok (), willing (f db) g) :=
      statement_run g rfl
    rw [executeAll, bind_run hfirst, ih, List.foldl_cons]

/-- What a willing engine answers is an answer. -/
theorem willing_ran {host : Host} {op : Solo} {db db' : Store} {g g' : Guard}
    {answer : Except Failure Payload} (h : op.job host (willing db g) = (answer, willing db' g')) :
    Ran host op db answer db' := by
  refine ⟨willing db g, rfl, ?_, ?_⟩
  · rw [h]
    rfl
  · rw [h]

/-- One statement the engine accepts. -/
theorem execute_ran (host : Host) {op : Solo} {f : Store → Store} {g : Unit → Payload}
    (hop : op.job host = boxed (execute f) g) (db : Store) :
    Ran host op db (.ok (g ())) (f db) := by
  have hrun : op.job host (willing db (Guard.load db)) =
      (.ok (g ()), willing (f db) (Guard.load db)) := by
    rw [hop]
    rfl
  exact willing_ran hrun

/-! ## The writes of one statement -/

/-- `set`. -/
def withSetting (db : Store) (key value : String) : Store :=
  { db with setting := db.setting.put ⟨key, value⟩ }

/-- `create_session`. -/
def withSession (db : Store) (tokenHash : String) (expiresAt : Int) : Store :=
  { db with session := db.session.put ⟨tokenHash, expiresAt⟩ }

/-- `drop_all_sessions`. -/
def withoutSessions (db : Store) : Store := { db with session := .empty _ }

/-- A setting is written, or nothing is. -/
theorem ran_set {host : Host} {key value : String} {db db' : Store}
    {answer : Except Failure Payload} (h : Ran host (.set key value) db answer db') :
    (answer = .ok .nothing ∧ db' = withSetting db key value) ∨ ((∃ e, answer = .error e) ∧ db' = db) :=
  ran_execute rfl h

/-- And it can be written. -/
theorem set_ran (host : Host) (key value : String) (db : Store) :
    Ran host (.set key value) db (.ok .nothing) (withSetting db key value) :=
  execute_ran (f := fun db => withSetting db key value) (g := fun _ => .nothing) host rfl db

/-- A session is added, or nothing is. -/
theorem ran_createSession {host : Host} {tokenHash : String} {expiresAt : Int} {db db' : Store}
    {answer : Except Failure Payload} (h : Ran host (.createSession tokenHash expiresAt) db answer db') :
    (answer = .ok .nothing ∧ db' = withSession db tokenHash expiresAt) ∨
      ((∃ e, answer = .error e) ∧ db' = db) := ran_execute rfl h

/-- And it can be added. -/
theorem createSession_ran (host : Host) (tokenHash : String) (expiresAt : Int) (db : Store) :
    Ran host (.createSession tokenHash expiresAt) db (.ok .nothing)
      (withSession db tokenHash expiresAt) :=
  execute_ran (f := fun db => withSession db tokenHash expiresAt) (g := fun _ => .nothing) host rfl db

/-- All the sessions are dropped, or none. -/
theorem ran_dropAllSessions {host : Host} {db db' : Store} {answer : Except Failure Payload}
    (h : Ran host .dropAllSessions db answer db') :
    (answer = .ok .nothing ∧ db' = withoutSessions db) ∨ ((∃ e, answer = .error e) ∧ db' = db) :=
  ran_execute rfl h

/-- And they can be dropped. -/
theorem dropAllSessions_ran (host : Host) (db : Store) :
    Ran host .dropAllSessions db (.ok .nothing) (withoutSessions db) :=
  execute_ran (f := withoutSessions) (g := fun _ => .nothing) host rfl db

/-- Reading back what was just set. -/
theorem stored_withSetting (db : Store) (key value : String) :
    stored (withSetting db key value) key = some value := by
  have hfind : (withSetting db key value).setting.find? key = some ⟨key, value⟩ :=
    Table.find?_eq_some.mpr ⟨Table.mem_put.mpr (.inl rfl), rfl⟩
  unfold stored
  rw [hfind, Option.map_some]

/-- Another setting is what it was. -/
theorem stored_withSetting_of_ne (db : Store) {key other : String} (value : String)
    (h : other ≠ key) : stored (withSetting db key value) other = stored db other := by
  have hfind : (withSetting db key value).setting.find? other = db.setting.find? other := by
    cases hold : db.setting.find? other with
    | none =>
      rw [Table.find?_eq_none] at hold ⊢
      intro hhas
      rcases Table.has_put.mp hhas with heq | hhas
      · exact h heq
      · exact hold hhas
    | some r =>
      obtain ⟨hr, hkey⟩ := Table.find?_eq_some.mp hold
      refine Table.find?_eq_some.mpr ⟨Table.mem_put.mpr (.inr ⟨hr, ?_⟩), hkey⟩
      rw [hkey]
      exact h
  unfold stored
  rw [hfind]

end Romi.StoreAnswers
