import Romi.IdLineage
import Romi.LoggedRuns
import Romi.NodeCreation
import Romi.RegistrationSteps
import Romi.WriterGuarantees

/-!
# Ids over the life of a hub

A hub is started, writes, is backed up, restored and compacted, stops or dies
in the middle of a replacement, and is started again on the disk it left. Kept
beside it are the ids it has ever committed, those it handed out and those that
came with a restore. A new id is above all of them as long as no restore begins
without a connection and no later start misses the database.
-/

namespace Romi.HubLifetime

open BackupArchive CachedTransactions CrashRecovery FailedUndo FileSwap IdLineage IssuedIds
  KeyedTable LiveDatabase LoggedRuns NodeContinuity NodeCreation ReachedStores RegistrationSteps
  SavedProbes StoreAnswers StoreGuard StoreJobs StoreOperations StoreSchema WriterGuarantees WriterQueue

/-! ## The hub -/

/-- In service, or stopped with the disk it left; a hub in memory leaves none. -/
inductive Service
  /-- The hub serves. -/
  | up (live : Live)
  /-- It does not; this is left on disk. -/
  | down (left : Option Disk)

/-- What the writer's connection sees. -/
def Service.read : Service → Option Store
  | .up live => live.read
  | .down _ => none

/-- The ids of the rows in service. -/
def inUse (service : Service) : Set (IdSource × Int) :=
  match service.read with
  | some db => {p | p.2 ∈ presentIds db p.1}
  | none => ∅

/-- The hub and the ids it has ever committed. -/
structure State where
  /-- Whether the hub serves. -/
  service : Service
  /-- The ids that were given so far. -/
  known : Set (IdSource × Int)

/-- The state after some ids were handed out. -/
def State.after (known given : Set (IdSource × Int)) (service : Service) : State :=
  ⟨service, known ∪ given ∪ inUse service⟩

/-- The id a write hands out: that of a new node or a new probe. -/
def handedOut : Solo → Except Failure Payload → Option (IdSource × Int)
  | .createNodeWithin _ _ _ _, .ok (.id n) => some (.node, n)
  | .savePingTask t, .ok (.id n) => if t.id > 0 then none else some (.pingTask, n)
  | _, _ => none

/-- What the host answers during a replacement. -/
structure Course where
  /-- How restoring goes. -/
  restore : RestoreHost
  /-- How compacting goes. -/
  compact : CompactFaults
  /-- How undoing a switch goes. -/
  undo : UndoFaults

/-- The hub after a replacement. -/
def replaced {β : Type} (lib : Libraries β) (c : Course) (live : Live) : Replacement β → Live
  | .restore archive => (restoreWith lib c.restore c.undo archive live).2
  | .compact => (applyMaintenanceWith c.compact c.undo live).2

/-- A hub started on the live file of this disk. -/
def serviceOn (d : Disk) : Hub where
  disk := d
  writer := (d.main .live).map DbFile.inode
  prototype := (d.main .live).map DbFile.inode
  readers := (d.main .live).map DbFile.inode
  nextInode := Disk.freshInode d
  trail := []

/-- What happens to a hub. -/
inductive Event (β : Type)
  /-- A write and how it was answered. -/
  | write (op : Solo) (answer : Except Failure Payload)
  /-- Telemetry is written. -/
  | telemetry (op : Telemetry)
  /-- The file is replaced. -/
  | replace (r : Replacement β)
  /-- The process dies on the way through a replacement. -/
  | die (r : Replacement β)
  /-- The hub stops. -/
  | stop
  /-- It starts. -/
  | start

/-- One event. -/
inductive Step {β : Type} (lib : Libraries β) (host : Host) : State → Event β → State → Prop
  /-- A closure runs. -/
  | write {live : Live} {known : Set (IdSource × Int)} {op : Solo} {db db' : Store}
      {answer : Except Failure Payload} (hread : live.read = some db)
      (hran : Ran host op db answer db') :
    Step lib host ⟨.up live, known⟩ (.write op answer)
      (.after known {p | handedOut op answer = some p} (.up (live.write fun _ => db')))
  /-- There is no database to run it on. -/
  | refused {live : Live} {known : Set (IdSource × Int)} (op : Solo) (hread : live.read = none) :
    Step lib host ⟨.up live, known⟩ (.write op (.error (.declined WriterBatch.databaseClosed)))
      ⟨.up live, known⟩
  /-- Telemetry runs. -/
  | telemetry {live : Live} {known : Set (IdSource × Int)} (op : Telemetry)
      (session : Session Store Guard) (hread : live.read = some session.db) :
    Step lib host ⟨.up live, known⟩ (.telemetry op)
      (.after known ∅ (.up (live.write fun _ => (op.job host session).2.db)))
  /-- The file is replaced, or not. -/
  | replace {live : Live} {known : Set (IdSource × Int)} (r : Replacement β)
      (hoffered : (Request.replace r).offered live = true) (c : Course) :
    Step lib host ⟨.up live, known⟩ (.replace r) (.after known ∅ (.up (replaced lib c live r)))
  /-- The hub dies on the way. -/
  | die {h h' : Hub} {known : Set (IdSource × Int)} (r : Replacement β) (c : Course) {d : Disk}
      (hgoes : replaced lib c (.file h) r = .file h') (hd : d ∈ h'.trail.drop h.trail.length) :
    Step lib host ⟨.up (.file h), known⟩ (.die r) ⟨.down (some d), known⟩
  /-- It stops, perhaps folding its log into the file. -/
  | stopFile {h : Hub} {known : Set (IdSource × Int)} (folds : Bool) :
    Step lib host ⟨.up (.file h), known⟩ .stop
      ⟨.down (some (if folds then h.disk.fold .live else h.disk)), known⟩
  /-- It stops, and nothing is left. -/
  | stopMemory {db : Store} {known : Set (IdSource × Int)} :
    Step lib host ⟨.up (.memory db), known⟩ .stop ⟨.down none, known⟩
  /-- It starts on what was left. -/
  | startFile {d : Disk} {known : Set (IdSource × Int)} {writtenBy : String} {now : Int}
      {inode : Nat} {s : Start} (hopen : openWith writtenBy now inode d = .ok s) :
    Step lib host ⟨.down (some d), known⟩ .start
      (.after known ∅ (.up (.file (serviceOn s.disk))))
  /-- It starts without a file. -/
  | startMemory {known : Set (IdSource × Int)} (writtenBy : String) (now : Int) :
    Step lib host ⟨.down none, known⟩ .start
      (.after known ∅ (.up (.memory (startup writtenBy now Store.blank))))

/-- The life of a hub, the last event first, each of whose steps is admitted. -/
abbrev Life {β : Type} (lib : Libraries β) (host : Host) (admits : State → Event β → Prop) :
    State → List (Event β) → State → Prop :=
  Run fun s e s' => admits s e ∧ Step lib host s e s'

/-- A restore begins with the connection open, and a start finds the database
at the live path unless nothing was ever committed. -/
def Unbroken {β : Type} (s : State) : Event β → Prop
  | .replace (.restore _) | .die (.restore _) => s.service.read.isSome = true
  | .start => s.known = ∅ ∨ ∃ d db, s.service = .down (some d) ∧ d.contents .live = some db
  | _ => True

/-! ## What is handed out -/

/-- An id that is handed out is the counter, and the counter moves past it. -/
theorem handedOut_spec {host : Host} {op : Solo} {db db' : Store} {answer : Except Failure Payload}
    {source : IdSource} {id : Int} (hran : Ran host op db answer db')
    (h : handedOut op answer = some (source, id)) :
    db.romiId.find? source.name = some ⟨source.name, id⟩ ∧ Passed db' source id := by
  unfold handedOut at h
  split at h
  · cases h
    obtain ⟨made, s, s', hid, rfl, hbody, rfl⟩ := ran_commitThen_ok (p := .id) rfl hran
    cases hid
    obtain ⟨hcounter, -, nodes, traffic, -, hafter⟩ := createNodeBody_spec hbody
    refine ⟨hcounter, passed_of_romiId ?_ (@passed_next s.db .node _ hcounter)⟩
    rw [hafter]
    rfl
  · rename_i t n
    split at h
    · cases h
    · rename_i hnew
      cases h
      obtain ⟨made, s, s', hid, rfl, hbody, rfl⟩ := ran_commitThen_ok (p := .id) rfl hran
      cases hid
      obtain ⟨hsavable, hafter⟩ := savePingTaskBody_spec hbody
      have hfiles := hsavable.files
      unfold FilesUnder at hfiles
      rw [if_neg hnew] at hfiles
      refine ⟨hfiles.1, passed_of_romiId ?_ (@passed_next s.db .pingTask _ hfiles.1)⟩
      rw [hafter]
      unfold saved filed
      rw [if_neg hnew]
      rfl
  · cases h

/-! ## What is kept along a life -/

/-- Whatever database the hub has or left knows the ids it committed. -/
def Kept (s : State) : Prop :=
  match s.service with
  | .up live => Rests (Carries s.known) live
  | .down (some d) => s.known = ∅ ∨ Shows (Carries s.known) d
  | .down none => True

/-- What was given is kept. -/
theorem kept_after {known given : Set (IdSource × Int)} {live : Live}
    (h : Rests (Carries (known ∪ given)) live) : Kept (.after known given (.up live)) := by
  cases live with
  | file hub =>
    rcases h with ⟨db, hs, hdb⟩ | ⟨hclosed, hshows⟩
    · refine .inl ⟨db, hs, ?_⟩
      have hserves : (Live.file hub).Serves db := hs
      have hread : (Service.up (.file hub)).read = some db := hserves.read
      simp only [State.after, inUse, hread]
      exact hdb.present
    · refine .inr ⟨hclosed, ?_⟩
      have hread : (Service.up (.file hub)).read = none := by
        rw [Service.read, Live.read, hclosed.1]
        rfl
      simp only [State.after, inUse, hread, Set.union_empty]
      exact hshows
  | memory db => exact Carries.present h

/-- Where nothing was given as well. -/
theorem kept_after_none {known : Set (IdSource × Int)} {live : Live}
    (h : Rests (Carries known) live) : Kept (.after known ∅ (.up live)) :=
  kept_after (by rwa [Set.union_empty])

/-- Folding a log shows the same database. -/
theorem contents_fold (d : Disk) : (d.fold .live).contents .live = d.contents .live := by
  unfold Disk.fold
  split
  · rename_i i base hlive
    unfold Disk.contents
    rw [hlive]
    simp only [setAt_same, Option.getD_none]
  · rfl

/-- A start leaves the database it found, or a new one, with its counters in order. -/
theorem openWith_settled {writtenBy : String} {now : Int} {inode : Nat} {d : Disk} {s : Start}
    (h : openWith writtenBy now inode d = .ok s) :
    ∃ db, s.disk.contents .live = some (startup writtenBy now db) ∧
      ∀ db', d.contents .live = some db' → db = db' := by
  unfold openWith at h
  split at h
  · cases h
  · rename_i hlive
    cases h
    refine ⟨Store.blank, contents_settle _ _ _, ?_⟩
    intro db' hc
    rw [Disk.contents, hlive] at hc
    cases hc
  · rename_i i hlive
    cases h
    refine ⟨Store.blank, contents_settle _ _ _, ?_⟩
    intro db' hc
    rw [Disk.contents, hlive] at hc
    cases hc
  · rename_i i base hlive
    dsimp only at h
    split at h
    · cases h
    · split at h
      · cases h
        refine ⟨(d.log .live).getD base, contents_settle _ _ _, ?_⟩
        intro db' hc
        rw [Disk.contents, hlive] at hc
        exact Option.some.inj hc
      · cases h

/-- Where a replacement may lead. -/
theorem leads_replaced {β : Type} {lib : Libraries β} {known : Set (IdSource × Int)} {live : Live}
    (h : Rests (Carries known) live) {r : Replacement β}
    (hoffered : (Request.replace r).offered live = true)
    (hopen : ∀ archive, r = .restore archive → live.read.isSome = true) (c : Course) :
    Leads (Carries known) live (replaced lib c live r) := by
  cases r with
  | restore archive =>
    obtain ⟨db, hread⟩ := Option.isSome_iff_exists.mp (hopen archive rfl)
    obtain ⟨hserves, hcarries⟩ := h.serves hread
    exact leads_restoreWith hserves hcarries fun _ _ hbuild => carries_switched hcarries hbuild live
  | compact =>
    cases live with
    | file hub => exact leads_applyMaintenanceWith h c.compact c.undo
    | memory db => cases hoffered

/-- A hub that starts finds what was given. -/
theorem kept_start {known : Set (IdSource × Int)} {d : Disk} {writtenBy : String} {now : Int}
    {inode : Nat} {s : Start} (hopen : openWith writtenBy now inode d = .ok s)
    (hfinds : known = ∅ ∨ ∃ db, d.contents .live = some db ∧ Carries known db) :
    Kept (.after known ∅ (.up (.file (serviceOn s.disk)))) := by
  obtain ⟨db, hsettled, hsame⟩ := openWith_settled hopen
  refine kept_after_none (.inl ⟨startup writtenBy now db, ⟨hsettled, rfl, rfl, rfl⟩, ?_⟩)
  refine carries_startup ?_ writtenBy now
  rcases hfinds with rfl | ⟨db', hc, hcarries⟩
  · exact fun p hp => hp.elim
  · obtain rfl := hsame db' hc
    exact hcarries.passed

section Steps

variable {β : Type} {lib : Libraries β} {host : Host}

/-- Every step keeps it. -/
theorem kept_step {s s' : State} {e : Event β} (h : Kept s) (hadmits : Unbroken s e)
    (hstep : Step lib host s e s') : Kept s' := by
  cases hstep with
  | @write live known op db db' answer hread hran =>
    obtain ⟨hserves, hcarries⟩ := Rests.serves h hread
    have hafter := carries_write hcarries hran
    refine kept_after (rests_serves (hserves.write _) ⟨hafter.version, hafter.ahead, ?_⟩)
    rintro p (hp | hp)
    · exact hafter.passed p hp
    · exact (handedOut_spec hran hp).2
  | refused op hread => exact h
  | telemetry op session hread =>
    obtain ⟨hserves, hcarries⟩ := Rests.serves h hread
    exact kept_after_none (rests_serves (hserves.write _) (carries_telemetry hcarries))
  | replace r hoffered c =>
    refine kept_after_none (Leads.rests (leads_replaced h hoffered ?_ c))
    intro archive hr
    subst hr
    exact hadmits
  | @die hub hub' known r c d hgoes hd =>
    have hoffered : (Request.replace r).offered (.file hub) = true := by
      cases r <;> rfl
    have hrests : Rests (Carries known) (.file hub) := h
    have hopen : ∀ archive, r = .restore archive → (Live.file hub).read.isSome = true := by
      intro archive hr
      rw [hr] at hadmits
      exact hadmits
    have hleads : Leads (Carries known) (.file hub) (replaced lib c (.file hub) r) :=
      leads_replaced hrests hoffered hopen c
    rw [hgoes] at hleads
    cases hleads with
    | file _ passes =>
      obtain ⟨after, htrail, hshows⟩ := passes
      rw [htrail, List.drop_left] at hd
      exact .inr (hshows d hd)
  | @stopFile hub known folds =>
    have hshows : Shows (Carries known) hub.disk := Left.shows h
    refine .inr ?_
    cases folds with
    | true =>
      intro db hc
      rw [if_pos rfl, contents_fold] at hc
      exact hshows db hc
    | false => exact hshows
  | stopMemory => trivial
  | @startFile d known writtenBy now inode s hopen =>
    refine kept_start hopen ?_
    rcases hadmits with hnothing | ⟨d', db, hdown, hc⟩
    · exact .inl hnothing
    · cases hdown
      rcases h with hnothing | hshows
      · exact .inl hnothing
      · exact .inr ⟨db, hc, hshows db hc⟩
  | startMemory writtenBy now =>
    rcases hadmits with hnothing | ⟨d, db, hdown, -⟩
    · cases hnothing
      exact kept_after_none (carries_startup (fun p hp => hp.elim) writtenBy now)
    · cases hdown

/-- So does a whole life. -/
theorem kept_life {left : Option Disk} {events : List (Event β)} {s : State}
    (h : Life lib host Unbroken ⟨.down left, ∅⟩ events s) : Kept s := by
  have hstart : Kept ⟨.down left, ∅⟩ := by
    cases left with
    | none => trivial
    | some d => exact .inl rfl
  exact h.always hstart fun _ _ _ hkept hs => kept_step hkept hs.1 hs.2

/-- On a hub whose restores all began with the connection open and whose later
starts all found the database, a new id is above every id of its kind that was
ever committed and every one in the database at that moment. -/
theorem ids_never_reissued {left : Option Disk} {events : List (Event β)} {s s' : State}
    (hlife : Life lib host Unbroken ⟨.down left, ∅⟩ events s) {op : Solo}
    {answer : Except Failure Payload} (hstep : Step lib host s (.write op answer) s')
    {source : IdSource} {id : Int} (hid : handedOut op answer = some (source, id)) :
    (∀ n, (source, n) ∈ s.known → n < id) ∧
      ∀ db, s.service.read = some db → ∀ n ∈ presentIds db source, n < id := by
  have hkept := kept_life hlife
  cases hstep with
  | @write live known op db db' answer hread hran =>
    obtain ⟨-, hcarries⟩ := Rests.serves hkept hread
    have hcounter := (handedOut_spec hran hid).1
    refine ⟨fun n hn => passed_lt hcounter (hcarries.passed _ hn), ?_⟩
    intro db₁ hread₁ n hn
    obtain rfl := Option.some.inj (hread.symm.trans hread₁)
    exact passed_lt hcounter (hcarries.ahead.rows source n hn)
  | refused op hread =>
    cases op with
    | _ => cases hid

end Steps

/-- A database with one node and a counter that does not know it. -/
def oneNode : Store :=
  { Store.fresh "romi" 0 with
    node := (Store.fresh "romi" 0).node.put (newNodeRow 1 (registered "first") "first token" 0 0) }

/-- A start on it knows the id, and the next node is above it. -/
theorem ids_never_reissued_oneNode : ∃ s s' : State, (.node, 1) ∈ s.known ∧
    Step wrapping plainHost s
      (.write (.createNodeWithin 0 (registered "second") "second token" none) (.ok (.id 2))) s' ∧
    ∀ n, (.node, n) ∈ s.known → n < 2 := by
  let disk : Disk := Disk.of (some ⟨0, .database oneNode⟩) none none none none none
  let db : Store := startup "romi" 0 oneNode
  have hnode : db.node = oneNode.node := by
    simp only [db, startup]
    rw [resyncIds_frame, initSchema_frame]
    rfl
  have htraffic : db.traffic = oneNode.traffic := by
    simp only [db, startup]
    rw [resyncIds_frame, initSchema_frame]
    rfl
  have hrow : ∀ r ∈ db.node.rows, r.id = 1 ∧ r.tokenHash = "first token" := by
    intro r hr
    rw [hnode] at hr
    rcases Table.mem_put.mp hr with rfl | ⟨hr, -⟩
    · exact ⟨rfl, rfl⟩
    · cases hr
  obtain ⟨start, hopen, -, hcontents⟩ := openWith_found
    (show disk.contents .live = some oneNode from rfl) (servable_fresh "romi" 0) "romi" 0 1
  have hserves : (Live.file (serviceOn start.disk)).Serves db := ⟨hcontents, rfl, rfl, rfl⟩
  have hcounter : db.romiId.find? "node" = some ⟨"node", 2⟩ :=
    Table.find?_eq_some.mpr ⟨by decide, rfl⟩
  obtain ⟨db', hran⟩ := @createNodeWithin_ran_cap plainHost 0 (registered "second") "second token" db
    none 2 hcounter
    (by
      intro since cap hcap
      cases hcap)
    (by
      rintro ⟨r, hr, htoken⟩
      rw [(hrow r hr).2] at htoken
      exact absurd htoken (by decide))
    (by
      rintro ⟨r, hr, hid⟩
      exact absurd ((hrow r hr).1.symm.trans hid) (by decide))
    (by
      rw [htraffic]
      rintro ⟨r, hr, -⟩
      cases hr)
  let s : State := .after ∅ ∅ (.up (.file (serviceOn start.disk)))
  have hlife : Life wrapping plainHost Unbroken ⟨.down (some disk), ∅⟩ [.start] s :=
    .step .start ⟨.inl rfl, .startFile hopen⟩
  have hstep := @Step.write _ wrapping plainHost _ s.known _ _ _ _ hserves.read hran
  refine ⟨s, _, .inr ?_, hstep, (ids_never_reissued hlife hstep rfl).1⟩
  have hread : (Service.up (.file (serviceOn start.disk))).read = some db := hserves.read
  simp only [inUse, hread]
  have hhas : db.node.Has 1 := by
    rw [hnode]
    exact ⟨_, Table.mem_put.mpr (.inl rfl), rfl⟩
  exact mem_presentIds_node.mpr hhas

end Romi.HubLifetime
