import Romi.NodeColumns
import Romi.NodeCreation
import Romi.RegistrationSteps
import Romi.SweepOutcome

/-!
# The country beside a node's address

The address is stored by the job of a hello, the country by a job submitted
much later, after a lookup that held no lock. Sessions may have been replaced
meanwhile, another country database installed and its refresh of every node be
under way. What a lookup returned is only ever written beside the address it was
asked for.
-/

namespace Romi.NodeCountry

open CachedTransactions CachedTransactions.Job JsonValue KeyedTable NodeColumns NodeContinuity
  NodeCreation NotifySweep RegistrationSteps StoreAnswers StoreGuard StoreJobs StoreOperations
  StoreSchema SweepOutcome

/-! ## Lookups -/

/-- An open country database: the code it decodes for an address, if any. -/
abbrev Reader : Type := String → Option String

/-- Two capital letters. -/
def isCode (cc : String) : Bool := cc.utf8ByteSize == 2 && cc.toList.all Char.isUpper

/-- `country`. -/
def country (reader : Option Reader) (ip : String) : Option String :=
  reader.bind fun look => (look ip).filter isCode

/-- A lookup that returned something. -/
structure Lookup where
  /-- The database it was looked up in. -/
  reader : Option Reader
  /-- The address. -/
  ip : String
  /-- The country. -/
  cc : String
  /-- That is what the database says. -/
  returned : country reader ip = some cc

/-! ## The hub -/

/-- A thread that looks addresses up one after another and waits for each write:
`locate` has one to look up, the refresh after an install one for every node. -/
structure Task where
  /-- Nodes still to be looked up, with the address each had when it was read. -/
  todo : List (Int × String)
  /-- The answer whose write was submitted. -/
  write : Option (Int × Lookup)

/-- The store with what goes on around it. -/
structure World where
  /-- What the database holds. -/
  db : Store
  /-- The country database in use. -/
  reader : Option Reader
  /-- The threads that look addresses up. -/
  tasks : List Task
  /-- Installs that have not read the nodes to refresh yet. -/
  installs : Nat
  /-- Every lookup so far that returned something. -/
  looked : List Lookup

/-- What a hello leaves to be looked up. -/
def owed (id : Int) (ip : String) : Except Failure Payload → List Task
  | .ok (.flag true) => [⟨[(id, ip)], none⟩]
  | _ => []

/-- The nodes an install refreshes; a failed read leaves it none. -/
def refreshOf (read : Bool) (db : Store) : Task :=
  ⟨if read then (nodes db).map fun n => (n.id, n.ip) else [], none⟩

/-- Writes that neither store a hello nor the answer of a lookup. -/
def Elsewhere : Solo → Prop
  | .saveFacts _ _ _ | .setCountry _ _ _ => False
  | _ => True

/-- One thing that happens. -/
inductive Step (host : Host) (w : World) : World → Prop
  /-- `dispatch` of a hello, also of a session that no longer holds the node when
  the write is made. -/
  | hello {id : Int} {f : Json} {ip : String} {answer : Except Failure Payload} {db : Store}
      (h : Ran host (.saveFacts id f ip) w.db answer db) :
    Step host w { w with db := db, tasks := owed id ip answer ++ w.tasks }
  /-- A lookup that returned something; its write is submitted. -/
  | found {before after : List Task} {id : Int} {rest : List (Int × String)} (l : Lookup)
      (hreader : l.reader = w.reader)
      (htask : w.tasks = before ++ ⟨(id, l.ip) :: rest, none⟩ :: after) :
    Step host w { w with
      tasks := before ++ ⟨rest, some (id, l)⟩ :: after, looked := l :: w.looked }
  /-- The country is not known, and the next one is looked up. -/
  | unknown {before after : List Task} {id : Int} {ip : String} {rest : List (Int × String)}
      (hnone : country w.reader ip = none)
      (htask : w.tasks = before ++ ⟨(id, ip) :: rest, none⟩ :: after) :
    Step host w { w with tasks := before ++ ⟨rest, none⟩ :: after }
  /-- The write of an answer, whatever comes of it. -/
  | stored {before after : List Task} {id : Int} {l : Lookup} {rest : List (Int × String)}
      {answer : Except Failure Payload} {db : Store}
      (htask : w.tasks = before ++ ⟨rest, some (id, l)⟩ :: after)
      (h : Ran host (.setCountry id l.cc l.ip) w.db answer db) :
    Step host w { w with db := db, tasks := before ++ ⟨rest, none⟩ :: after }
  /-- `install`, up to the swap of the reader. -/
  | installed (reader : Reader) :
    Step host w { w with reader := some reader, installs := w.installs + 1 }
  /-- Its read of the nodes. -/
  | refresh {n : Nat} (read : Bool) (hinstalls : w.installs = n + 1) :
    Step host w { w with installs := n, tasks := refreshOf read w.db :: w.tasks }
  /-- A closure that leaves addresses and countries alone. -/
  | other {op : Solo} {answer : Except Failure Payload} {db : Store} (hop : Elsewhere op)
      (h : Ran host op w.db answer db) : Step host w { w with db := db }
  /-- Telemetry. -/
  | telemetry (op : Telemetry) {session : Session Store Guard} (hdb : session.db = w.db) :
    Step host w { w with db := (op.job host session).2.db }
  /-- The hub stops and comes up again on the same store. -/
  | restart (reader : Option Reader) :
    Step host w { w with reader := reader, tasks := [], installs := 0 }

/-- A world the hub gets to from a store without nodes. -/
inductive Reached (host : Host) : World → Prop
  /-- No nodes and no tasks. -/
  | fresh {w : World} (hnodes : w.db.node.rows = ∅) (htasks : w.tasks = []) : Reached host w
  /-- One step more. -/
  | step {w w' : World} (hw : Reached host w) (h : Step host w w') : Reached host w'

/-! ## What is stored beside an address -/

/-- Address and country. -/
def placeOf (r : NodeRow) : String × String := (r.ip, r.country)

/-- No country, or one that a lookup returned for this address. -/
def Known (looked : List Lookup) (place : String × String) : Prop :=
  place.2 = "" ∨ ∃ l ∈ looked, l.ip = place.1 ∧ l.cc = place.2

/-- Every place shown is known, and so is every answer about to be written. -/
structure Grounded (w : World) : Prop where
  /-- The country of a row was looked up for its address. -/
  rows : ∀ c ∈ columns placeOf w.db, Known w.looked c
  /-- So was one that is about to be written. -/
  writes : ∀ t ∈ w.tasks, ∀ id l, t.write = some (id, l) → l ∈ w.looked

/-- What was looked up was looked up later on too. -/
theorem Known.mono {looked : List Lookup} {place : String × String} (l : Lookup)
    (h : Known looked place) : Known (l :: looked) place := by
  rcases h with hempty | ⟨k, hk, hplace⟩
  · exact .inl hempty
  · exact .inr ⟨k, List.mem_cons_of_mem l hk, hplace⟩

/-- The second store shows no place the first did not, but for empty ones. -/
def NoNewer (db db' : Store) : Prop :=
  ∀ c ∈ columns placeOf db', c.2 = "" ∨ c ∈ columns placeOf db

/-- Nothing is newer in the same store. -/
theorem NoNewer.refl (db : Store) : NoNewer db db := fun _ hc => .inr hc

/-- Nor after two writes that bring nothing. -/
theorem NoNewer.trans {db db' db'' : Store} (h : NoNewer db db') (h' : NoNewer db' db'') :
    NoNewer db db'' := by
  intro c hc
  rcases h' c hc with hempty | hc
  · exact .inl hempty
  · exact h c hc

/-- Nor where the places are the same. -/
theorem noNewer_of_same {db db' : Store} (h : Same placeOf db db') : NoNewer db db' := by
  intro c hc
  rw [h] at hc
  exact .inr hc

/-- Writes about something else make empty places at most. -/
theorem elsewhere_noNewer {host : Host} {op : Solo} (hop : Elsewhere op) {db db' : Store}
    {answer : Except Failure Payload} (h : Ran host op db answer db') : NoNewer db db' := by
  have hspared : Spares placeOf op → NoNewer db db' := fun hop => noNewer_of_same (ran_same hop h)
  cases op with
  | createNodeWithin now n token cap =>
    cases answer with
    | error e =>
      rw [ran_commitThen_refused (p := .id) rfl h]
      exact .refl db
    | ok p =>
      obtain ⟨id, -, -, rfl, -⟩ := ran_commitThen_ok (p := .id) rfl h
      intro c hc
      rcases (made_columns (fun _ => rfl) h c).mp hc with rfl | hc
      · exact .inl rfl
      · exact .inr hc
  | deleteNode id =>
    cases answer with
    | error e =>
      rw [ran_commitThen_refused (p := fun _ => .nothing) rfl h]
      exact .refl db
    | ok p =>
      obtain ⟨_, -, -, rfl, -⟩ := ran_commitThen_ok (p := fun _ => .nothing) rfl h
      intro c hc
      obtain ⟨r, hr, -, rfl⟩ := (removed_columns h c).mp hc
      exact .inr (mem_columns.mpr ⟨r, hr, rfl⟩)
  | saveFacts id f ip => exact absurd hop (fun h => h)
  | setCountry id cc ip => exact absurd hop (fun h => h)
  | updateNode id p => exact hspared fun _ => rfl
  | setExpiry id date => exact hspared fun _ => rfl
  | setDownSince id ts => exact hspared fun _ => rfl
  | reorderNodes ids => exact hspared fun _ _ _ => rfl
  | resetToken id token => exact hspared fun _ _ => rfl
  | _ => exact hspared trivial

/-- A hello keeps the country of a node that stayed and clears that of one that moved. -/
theorem storeFacts_noNewer (id : Int) (f : Json) (ip : String) (db : Store) :
    NoNewer db (updateNodeRow id (storeFacts f ip) (fun _ => rfl) db) := by
  have hkey : ∀ q, (storeFacts f ip q).id = q.id := fun _ => rfl
  intro c hc
  rw [mem_columns] at hc ⊢
  obtain ⟨s, hs, rfl⟩ := hc
  obtain ⟨r, hr, rfl⟩ := (Table.mem_updateWhere hkey).mp hs
  split
  · by_cases hip : r.ip = ip
    · refine .inr ⟨r, hr, ?_⟩
      simp [placeOf, storeFacts, hip]
    · refine .inl ?_
      simp [placeOf, storeFacts, hip]
  · exact .inr ⟨r, hr, rfl⟩

/-- What a machine tells brings an address, and no country with it. -/
theorem saveFacts_noNewer {host : Host} {id : Int} {f : Json} {ip : String} {db db' : Store}
    {answer : Except Failure Payload} (h : Ran host (.saveFacts id f ip) db answer db') :
    NoNewer db db' := by
  have hkeeps : Keeps (NoNewer db) (saveFacts id f ip) := by
    refine Preserves.bind (Preserves.execute fun db' _ hs =>
      hs.trans (storeFacts_noNewer id f ip db')) fun _ => Preserves.statement ?_
    intro db' b db'' g heffect hs
    split at heffect
    · cases heffect
      exact hs
    · cases heffect
  obtain ⟨session, rfl, rfl, -⟩ := h
  exact boxed_preserves hkeeps _ session (.refl _)

/-- The update of `set_country` reaches no row that stands beside another address. -/
theorem setCountry_elsewhere {host : Host} {id : Int} {cc ip : String} {db db' : Store}
    {answer : Except Failure Payload} (h : Ran host (.setCountry id cc ip) db answer db')
    {r : NodeRow} (hr : r ∈ db.node.rows) (hmoved : r.ip ≠ ip) : r ∈ db'.node.rows := by
  have hkey : ∀ q : NodeRow, ({ q with country := cc } : NodeRow).id = q.id := fun _ => rfl
  rcases ran_execute (g := fun _ => .nothing) rfl h with ⟨-, rfl⟩ | ⟨-, rfl⟩
  · exact (Table.mem_updateWhere hkey).mpr ⟨r, hr, if_neg fun hrow => hmoved hrow.2⟩
  · exact hr

/-- What it makes beside its own address is the answer it carries. -/
theorem setCountry_columns {host : Host} {id : Int} {cc ip : String} {db db' : Store}
    {answer : Except Failure Payload} (h : Ran host (.setCountry id cc ip) db answer db') :
    ∀ c ∈ columns placeOf db', c = (ip, cc) ∨ c ∈ columns placeOf db := by
  have hkey : ∀ q : NodeRow, ({ q with country := cc } : NodeRow).id = q.id := fun _ => rfl
  intro c hc
  rcases ran_execute (g := fun _ => .nothing) rfl h with ⟨-, rfl⟩ | ⟨-, rfl⟩
  · rw [mem_columns] at hc ⊢
    obtain ⟨s, hs, rfl⟩ := hc
    obtain ⟨r, hr, rfl⟩ := (Table.mem_updateWhere hkey).mp hs
    split
    · rename_i hrow
      refine .inl ?_
      rw [← hrow.2]
      rfl
    · exact .inr ⟨r, hr, rfl⟩
  · exact .inr hc

/-! ## Every step -/

/-- A write that brings nothing keeps the countries grounded. -/
theorem Grounded.store {w : World} {db : Store} (h : Grounded w) (hdb : NoNewer w.db db) :
    ∀ c ∈ columns placeOf db, Known w.looked c := by
  intro c hc
  rcases hdb c hc with hempty | hc
  · exact .inl hempty
  · exact h.rows c hc

/-- A task put in another's place whose answer, if any, was looked up. -/
theorem Grounded.replace {w : World} {before after : List Task} {t t' : Task}
    {looked : List Lookup} (h : Grounded w) (htask : w.tasks = before ++ t :: after)
    (hlooked : ∀ l ∈ w.looked, l ∈ looked) (hwrite : ∀ id l, t'.write = some (id, l) → l ∈ looked) :
    ∀ u ∈ before ++ t' :: after, ∀ id l, u.write = some (id, l) → l ∈ looked := by
  intro u hu id l hl
  rcases List.mem_append.mp hu with hu | hu
  · exact hlooked l (h.writes u (by rw [htask]; exact List.mem_append_left _ hu) id l hl)
  · rcases List.mem_cons.mp hu with rfl | hu
    · exact hwrite id l hl
    · refine hlooked l (h.writes u ?_ id l hl)
      rw [htask]
      exact List.mem_append_right _ (List.mem_cons_of_mem _ hu)

/-- A task that was just begun writes nothing yet. -/
theorem owed_write {id : Int} {ip : String} {answer : Except Failure Payload} {t : Task}
    (h : t ∈ owed id ip answer) : t.write = none := by
  unfold owed at h
  split at h
  · rw [List.mem_singleton] at h
    rw [h]
  · cases h

/-- A new task has nothing to write yet. -/
theorem Grounded.join {w : World} {new : List Task} (h : Grounded w)
    (hnew : ∀ t ∈ new, t.write = none) :
    ∀ t ∈ new ++ w.tasks, ∀ id l, t.write = some (id, l) → l ∈ w.looked := by
  intro t ht id l hl
  rcases List.mem_append.mp ht with ht | ht
  · rw [hnew t ht] at hl
    cases hl
  · exact h.writes t ht id l hl

/-- Every step keeps them grounded. -/
theorem Grounded.step {host : Host} {w w' : World} (hw : Grounded w) (h : Step host w w') :
    Grounded w' := by
  cases h with
  | hello h =>
    exact ⟨hw.store (saveFacts_noNewer h), hw.join fun t ht => owed_write ht⟩
  | found l hreader htask =>
    refine ⟨fun c hc => (hw.rows c hc).mono l, hw.replace htask ?_ ?_⟩
    · exact fun k hk => List.mem_cons_of_mem l hk
    · intro id k hk
      cases hk
      exact List.mem_cons_self
  | unknown hnone htask =>
    refine ⟨hw.rows, hw.replace htask (fun _ hl => hl) ?_⟩
    intro id l hl
    cases hl
  | @stored before after id l rest answer db htask h =>
    refine ⟨?_, hw.replace htask (fun _ hl => hl) ?_⟩
    · intro c hc
      rcases setCountry_columns h c hc with rfl | hc
      · -- The task that writes got its answer from a lookup of this address.
        have hlooked : l ∈ w.looked := by
          refine hw.writes ⟨rest, some (id, l)⟩ ?_ id l rfl
          rw [htask]
          exact List.mem_append_right _ List.mem_cons_self
        exact .inr ⟨l, hlooked, rfl, rfl⟩
      · exact hw.rows c hc
    · intro id k hk
      cases hk
  | installed reader => exact ⟨hw.rows, hw.writes⟩
  | refresh read hinstalls =>
    refine ⟨hw.rows, @Grounded.join w [refreshOf read w.db] hw ?_⟩
    intro t ht
    rw [List.mem_singleton.mp ht]
    rfl
  | other hop h => exact ⟨hw.store (elsewhere_noNewer hop h), hw.writes⟩
  | telemetry op hdb =>
    refine ⟨hw.store (noNewer_of_same ?_), hw.writes⟩
    exact telemetry_same (fun _ _ _ => rfl) host _ op _ (by rw [hdb]; rfl)
  | restart reader =>
    refine ⟨hw.rows, ?_⟩
    intro t ht
    cases ht

/-- So they are in every state that is reached. -/
theorem Reached.grounded {host : Host} {w : World} (h : Reached host w) : Grounded w := by
  induction h with
  | @fresh w hnodes htasks =>
    refine ⟨?_, ?_⟩
    · intro c hc
      obtain ⟨r, hr, -⟩ := mem_columns.mp hc
      rw [hnodes] at hr
      cases hr
    · intro t ht
      rw [htasks] at ht
      cases ht
  | step _ h ih => exact ih.step h

/-- In every order of hellos, lookups, installs and restarts, a node shows no
country or one that a lookup returned for the address beside it, and an answer
that comes in after the node moved leaves its row as it is. -/
theorem country_of_address {host : Host} {w : World} (h : Reached host w) :
    (∀ r ∈ w.db.node.rows, r.country = "" ∨ ∃ l ∈ w.looked, l.ip = r.ip ∧ l.cc = r.country) ∧
    ∀ t ∈ w.tasks, ∀ id l, t.write = some (id, l) → ∀ answer db',
      Ran host (.setCountry id l.cc l.ip) w.db answer db' →
        ∀ r ∈ w.db.node.rows, r.ip ≠ l.ip → r ∈ db'.node.rows := by
  refine ⟨?_, ?_⟩
  · intro r hr
    exact h.grounded.rows (placeOf r) (mem_columns.mpr ⟨r, hr, rfl⟩)
  · intro t ht id l hl answer db' hran r hr hmoved
    exact setCountry_elsewhere hran hr hmoved

/-- A node without a country is to be looked up. -/
theorem saveFacts_asks {host : Host} {id : Int} {f : Json} {ip : String} {db : Store} {r : NodeRow}
    (hr : r ∈ db.node.rows) (hid : r.id = id) (hcountry : r.country = "") :
    Ran host (.saveFacts id f ip) db (.ok (.flag true))
      (updateNodeRow id (storeFacts f ip) (fun _ => rfl) db) := by
  have hfind : (updateNodeRow id (storeFacts f ip) (fun _ => rfl) db).node.find? id =
      some (storeFacts f ip r) := by
    have hkey : ∀ q, (storeFacts f ip q).id = q.id := fun _ => rfl
    refine Table.find?_eq_some.mpr ⟨(Table.mem_updateWhere hkey).mpr ⟨r, hr, if_pos hid⟩, hid⟩
  have hempty : ((storeFacts f ip r).country == "") = true := by
    simp [storeFacts, hcountry]
  have hjob : (Solo.saveFacts id f ip).job host (willing db (Guard.load db)) = (.ok (.flag true),
      willing (updateNodeRow id (storeFacts f ip) (fun _ => rfl) db) (Guard.load db)) := by
    have hfirst : (execute (updateNodeRow id (storeFacts f ip) fun _ => rfl) : StoreJob Unit)
        (willing db (Guard.load db)) =
        (.ok (), willing (updateNodeRow id (storeFacts f ip) (fun _ => rfl) db) (Guard.load db)) :=
      statement_run _ rfl
    refine bind_run (a := true) ?_
    refine (bind_run hfirst).trans (statement_run _ ?_)
    rw [hfind, ← hempty]
  exact willing_ran hjob

/-- A node says hello, is looked up and shows the answer. -/
theorem country_of_address_shown : ∃ (w : World) (r : NodeRow), r ∈ w.db.node.rows ∧
    r.ip = "192.0.2.1" ∧ r.country = "DE" ∧ ∃ l ∈ w.looked, l.ip = r.ip ∧ l.cc = r.country := by
  let host : Host := ⟨fun token => token, fun _ => none⟩
  let db₀ : Store := { Store.blank with romiId := (Table.empty RomiIdRow.name).put ⟨"node", 1⟩ }
  let l : Lookup := ⟨some fun _ => some "DE", "192.0.2.1", "DE", rfl⟩
  have hcounter : db₀.romiId.find? "node" = some ⟨"node", 1⟩ :=
    Table.find?_eq_some.mpr ⟨Table.mem_put.mpr (.inl rfl), rfl⟩
  obtain ⟨db₁, hmade⟩ := @createNodeWithin_ran host 0 (registered "n") "t" db₀ 0 1 1 hcounter
    (by decide) (by rintro ⟨r, hr, -⟩; cases hr) (by rintro ⟨r, hr, -⟩; cases hr)
    (by rintro ⟨r, hr, -⟩; cases hr)
  have hshown : ((1 : Int), "") ∈ columns (fun r : NodeRow => (r.id, r.country)) db₁ :=
    (made_columns (fun _ => rfl) hmade _).mpr (.inl rfl)
  obtain ⟨r, hr, hsame⟩ := mem_columns.mp hshown
  obtain ⟨hid, hcountry⟩ := Prod.mk.inj hsame
  let w₀ : World := ⟨db₀, l.reader, [], 0, []⟩
  have h₀ : Reached host w₀ := .fresh rfl rfl
  have h₁ := h₀.step (.other (by exact trivial) hmade)
  have h₂ := h₁.step (@Step.hello host _ 1 .null "192.0.2.1" _ _ (saveFacts_asks hr hid hcountry))
  have h₃ := h₂.step (@Step.found host _ [] [] 1 [] l rfl rfl)
  have h₄ := h₃.step (@Step.stored host _ [] [] 1 l [] _ _ rfl
    (execute_ran (g := fun _ => .nothing) host rfl _))
  have hkey : ∀ q, (storeFacts .null "192.0.2.1" q).id = q.id := fun _ => rfl
  have hkey' : ∀ q : NodeRow, ({ q with country := l.cc } : NodeRow).id = q.id := fun _ => rfl
  let row : NodeRow := { storeFacts .null "192.0.2.1" r with country := "DE" }
  obtain ⟨w, hw, hrow⟩ : ∃ w, Reached host w ∧ row ∈ w.db.node.rows :=
    ⟨_, h₄, (Table.mem_updateWhere (p := fun q : NodeRow => q.id = 1 ∧ q.ip = l.ip) hkey').mpr
      ⟨_, (Table.mem_updateWhere (p := fun q : NodeRow => q.id = 1) hkey).mpr
        ⟨r, hr, if_pos hid⟩, if_pos ⟨hid, rfl⟩⟩⟩
  refine ⟨w, row, hrow, rfl, rfl, ?_⟩
  have hshows : row.country ≠ "" := by
    change "DE" ≠ ""
    decide
  rcases (country_of_address hw).1 row hrow with hempty | hlooked
  · exact absurd hempty hshows
  · exact hlooked

end Romi.NodeCountry
