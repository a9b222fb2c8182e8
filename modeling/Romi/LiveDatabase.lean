import Romi.FileSwap
import Romi.RestoreStaging

/-!
# The database in service

A hub serves a file or, without a path, a database in memory. A restore builds
its staging database first and then switches: a file hub renames files and
reopens, a memory hub replaces its rows in one transaction. A compaction
copies the live database and switches to the copy. Either way the outcome is
the replacement or what was in service before.
-/

namespace Romi.LiveDatabase

open ArchiveTables BackupArchive CachedTransactions FileSwap KeyedTable RestoreStaging
  StoreRelations StoreSchema

/-! ## What is in service -/

/-- The database behind a hub. -/
inductive Live
  /-- A file with its handles. -/
  | file (h : Hub)
  /-- No file at all. -/
  | memory (db : Store)

/-- The hub has a path. -/
def Live.isFile : Live → Bool
  | .file _ => true
  | .memory _ => false

/-- The hub serves `db` on every handle it has. -/
def Live.Serves : Live → Store → Prop
  | .file h, db => Serving h db
  | .memory m, db => m = db

/-- Without a file the store is at hand. -/
theorem memory_serves (db : Store) : (Live.memory db).Serves db := rfl

/-- What the writer's connection sees, `none` when there is no connection. -/
def Live.read : Live → Option Store
  | .file h => (h.writer.bind h.nameOf).bind h.disk.contents
  | .memory db => some db

/-- What a clone of the prototype connection sees. -/
def Live.readPrototype : Live → Option Store
  | .file h => (h.prototype.bind h.nameOf).bind h.disk.contents
  | .memory db => some db

/-- A checkpoint folds the log into the file. -/
def Live.checkpoint : Live → Live
  | .file h => .file (h.step fun d => d.fold .live)
  | .memory db => .memory db

/-- A committed change through the writer's connection. -/
def Live.write (f : Store → Store) : Live → Live
  | .file h => .file (h.write f)
  | .memory db => .memory (f db)

/-- The writer of a hub that serves has the live file open. -/
theorem serving_nameOf {h : Hub} {db : Store} (hs : Serving h db) :
    h.writer.bind h.nameOf = some .live := by
  obtain ⟨i, base, hlive, -⟩ := contents_eq_some hs.contents
  rw [hs.writer, hlive]
  simp only [Option.map_some, Option.bind_some, Hub.nameOf, List.find?_cons, hlive,
    beq_self_eq_true]

/-- A reader sees the store. -/
theorem Live.Serves.read {live : Live} {db : Store} (hs : live.Serves db) : live.read = some db := by
  cases live with
  | file h =>
    rw [Live.read, serving_nameOf hs]
    exact hs.contents
  | memory m => exact congrArg some hs

/-- So does the prototype. -/
theorem Live.Serves.readPrototype {live : Live} {db : Store} (hs : live.Serves db) :
    live.readPrototype = some db := by
  cases live with
  | file h =>
    have hsame : h.prototype = h.writer := hs.prototype.trans hs.writer.symm
    rw [Live.readPrototype, hsame, serving_nameOf hs]
    exact hs.contents
  | memory m => exact congrArg some hs

/-- It is served after a checkpoint too. -/
theorem Live.Serves.checkpoint {live : Live} {db : Store} (hs : live.Serves db) :
    live.checkpoint.Serves db := by
  cases live with
  | file h =>
    obtain ⟨i, base, hlive, hlog⟩ := contents_eq_some hs.contents
    have hmain : (h.disk.fold .live).main .live = some ⟨i, .database db⟩ := by
      unfold Disk.fold
      rw [hlive, ← hlog]
      rfl
    have hfolded : (h.disk.fold .live).log .live = none := by
      unfold Disk.fold
      rw [hlive]
      rfl
    have hinode : ((h.disk.fold .live).main .live).map DbFile.inode =
        (h.disk.main .live).map DbFile.inode := by
      rw [hmain, hlive]
      rfl
    refine ⟨?_, hs.writer.trans hinode.symm, hs.prototype.trans hinode.symm,
      hs.readers.trans hinode.symm⟩
    change (h.disk.fold .live).contents .live = some db
    unfold Disk.contents
    rw [hmain, hfolded]
    rfl
  | memory m => exact hs

/-- A write is served from then on. -/
theorem Live.Serves.write {live : Live} {db : Store} (hs : live.Serves db) (f : Store → Store) :
    (live.write f).Serves (f db) := by
  cases live with
  | file h => exact Serving.write hs f
  | memory m => exact congrArg f hs

/-- A hub serves one database. -/
theorem Live.Serves.unique {live : Live} {db db' : Store} (h : live.Serves db)
    (h' : live.Serves db') : db = db' :=
  Option.some.inj (h.read.symm.trans h'.read)

/-- A checkpoint does not make a file or take it away. -/
@[simp] theorem isFile_checkpoint (live : Live) : live.checkpoint.isFile = live.isFile := by
  cases live <;> rfl

/-- Nor does a write. -/
@[simp] theorem isFile_write (live : Live) (f : Store → Store) :
    (live.write f).isFile = live.isFile := by
  cases live <;> rfl

/-! ## The staging file -/

/-- An identity that none of the three files has. -/
def unusedInode (d : Disk) : Nat :=
  ((d.main .live).map DbFile.inode).getD 0 + ((d.main .aside).map DbFile.inode).getD 0 +
    ((d.main .staging).map DbFile.inode).getD 0 + 1

/-- A complete database closed under the staging name. -/
def stageOn (db : Store) (d : Disk) : Disk where
  main := setAt d.main .staging (some ⟨unusedInode d, .database db⟩)
  log := setAt d.log .staging none

/-- Removes whatever is left under the staging name. -/
def unstage (d : Disk) : Disk := (d.removeMain .staging).removeLog .staging

/-- The staging database is built beside the one in service. -/
def Live.stage (db : Store) : Live → Live
  | .file h => .file (h.step (stageOn db))
  | .memory m => .memory m

/-- The cleanup after a replacement, whatever came of it. -/
def Live.dropStaging : Live → Live
  | .file h => .file (h.step unstage)
  | .memory m => .memory m

/-- Nor does dropping what was staged. -/
@[simp] theorem isFile_dropStaging (live : Live) : live.dropStaging.isFile = live.isFile := by
  cases live <;> rfl

/-- Nor does staging. -/
@[simp] theorem isFile_stage (live : Live) (db : Store) : (live.stage db).isFile = live.isFile := by
  cases live <;> rfl

/-- A step that leaves the live file and its log alone. -/
theorem Serving.beside {h : Hub} {db : Store} {f : Disk → Disk} (hs : Serving h db)
    (hmain : (f h.disk).main .live = h.disk.main .live)
    (hlog : (f h.disk).log .live = h.disk.log .live) : Serving (h.step f) db := by
  have hcontents : (f h.disk).contents .live = h.disk.contents .live := by
    unfold Disk.contents
    rw [hmain, hlog]
  constructor
  · exact hcontents.trans hs.contents
  · exact hs.writer.trans (by rw [← hmain]; rfl)
  · exact hs.prototype.trans (by rw [← hmain]; rfl)
  · exact hs.readers.trans (by rw [← hmain]; rfl)

/-- What is staged is not served. -/
theorem Live.Serves.stage {live : Live} {db : Store} (hs : live.Serves db) (staged : Store) :
    (live.stage staged).Serves db := by
  cases live with
  | file h => exact Serving.beside hs rfl rfl
  | memory m => exact hs

/-- Nor does dropping it change what is served. -/
theorem Live.Serves.dropStaging {live : Live} {db : Store} (hs : live.Serves db) :
    live.dropStaging.Serves db := by
  cases live with
  | file h => exact Serving.beside hs rfl rfl
  | memory m => exact hs

/-- What was staged is complete and in a file of its own. -/
theorem staged_stage (h : Hub) (db : Store) : Staged (h.step (stageOn db)) db := by
  have hlive : ((stageOn db h.disk).main .live) = h.disk.main .live := rfl
  have hstaging : ((stageOn db h.disk).main .staging) =
      some ⟨unusedInode h.disk, .database db⟩ := rfl
  have hlog : (stageOn db h.disk).log .staging = none := rfl
  refine ⟨?_, hlog, ?_⟩
  · change (stageOn db h.disk).contents .staging = some db
    unfold Disk.contents
    rw [hstaging, hlog]
    rfl
  · change ((stageOn db h.disk).main .staging).map DbFile.inode ≠
      ((stageOn db h.disk).main .live).map DbFile.inode
    rw [hstaging, hlive]
    cases hfile : h.disk.main .live with
    | none => exact nofun
    | some file =>
      intro heq
      have hinode : unusedInode h.disk = file.inode := Option.some.inj heq
      rw [unusedInode, hfile, Option.map_some, Option.getD_some] at hinode
      omega

/-! ## Replacing rows in memory -/

/-- `SELECT list FROM restored.table`, the list being the live table's columns. -/
def selectRows (staged : Store) (t : TableName) : Option (Multiset t.Row) :=
  buildRows (layout t) ((table staged t).rows.val.map fun r =>
    namedRow (layout t) (layout t).names (layout t).names ((layout t).cells r))

/-- One INSERT of `replace_contents`. -/
def copyTable (staged db : Store) (t : TableName) : Option Store :=
  (selectRows staged t).bind (fillTable db t)

/-- The deletes of `replace_contents`. -/
def clearTables (db : Store) : Store := tables.foldl (fun db t => withTable db t (.empty _)) db

/-- `replace_contents`: the new rows and counters, or the transaction rolls back. -/
def replaceContents (refusal : Option Failure) (staged db : Store) : Except Failure Unit × Store :=
  match refusal with
  | some e => (.error e, db)
  | none =>
    match backupTables.foldlM (copyTable staged) (clearTables db) with
    | some copied => (.ok (), resyncIds copied)
    | none => (.error .constraint, db)

/-- The rows of a staged table are read. -/
theorem selectRows_eq (staged : Store) (t : TableName) :
    selectRows staged t = some (table staged t).rows.val := by
  rw [selectRows, Multiset.map_congr rfl fun r _ => namedRow_cells (layout t) r]
  exact buildRows_cells (layout t) _

/-- Clearing tables empties them and no others. -/
theorem clear_fold (names : List TableName) (db : Store) :
    (∀ t, table (names.foldl (fun db t => withTable db t (.empty _)) db) t =
      if t ∈ names then .empty _ else table db t) ∧
    (names.foldl (fun db t => withTable db t (.empty _)) db).romiId = db.romiId ∧
    (names.foldl (fun db t => withTable db t (.empty _)) db).romiSchema = db.romiSchema := by
  induction names generalizing db with
  | nil => exact ⟨fun _ => rfl, rfl, rfl⟩
  | cons n names ih =>
    obtain ⟨htables, hids, hschema⟩ := ih (withTable db n (.empty _))
    refine ⟨?_, hids.trans (withTable_romiId _ _ _), hschema.trans (withTable_romiSchema _ _ _)⟩
    intro t
    rw [List.foldl_cons, htables]
    by_cases hmem : t ∈ names
    · rw [if_pos hmem, if_pos (List.mem_cons_of_mem n hmem)]
    · rw [if_neg hmem]
      by_cases htn : t = n
      · subst htn
        rw [table_withTable, if_pos List.mem_cons_self]
      · rw [table_withTable_of_ne _ _ htn, if_neg]
        simp only [List.mem_cons, htn, hmem, or_self, not_false_eq_true]

/-- Every table is empty then. -/
theorem table_clear (db : Store) (t : TableName) : table (clearTables db) t = .empty _ := by
  rw [clearTables, (clear_fold tables db).1, if_pos (mem_tables t)]

/-- Copying tables into a database where they are empty. -/
theorem copyTables_ok {staged db : Store} (htokens : staged.TokensUnique)
    {names : List TableName} (hnodup : names.Nodup)
    (hempty : ∀ t ∈ names, table db t = .empty _)
    (hnode : table db .node = table staged .node ∨ table db .node = .empty _) :
    ∃ db', names.foldlM (copyTable staged) db = some db' ∧
      (∀ t ∈ names, table db' t = table staged t) ∧ (∀ t, t ∉ names → table db' t = table db t) ∧
      db'.romiId = db.romiId ∧ db'.romiSchema = db.romiSchema := by
  induction names generalizing db with
  | nil => exact ⟨db, rfl, nofun, fun _ _ => rfl, rfl, rfl⟩
  | cons n names ih =>
    obtain ⟨hn, hrest⟩ := List.nodup_cons.mp hnodup
    have hnode' : table (withTable db n (table staged n)) .node = table staged .node ∨
        table (withTable db n (table staged n)) .node = .empty _ := by
      by_cases hnn : TableName.node = n
      · subst hnn
        exact .inl (table_withTable _ _ _)
      · rw [table_withTable_of_ne _ _ hnn]
        exact hnode
    have hunique : (withTable db n (table staged n)).TokensUnique := by
      rcases hnode' with h | h
      · exact tokensUnique_of_node h htokens
      · exact tokensUnique_of_node (show _ = table Store.blank .node from h)
          fun r hr => absurd hr (Finset.notMem_empty r)
    have hone : copyTable staged db n = some (withTable db n (table staged n)) := by
      rw [copyTable, selectRows_eq, Option.bind_some]
      exact fillTable_empty (hempty n List.mem_cons_self) hunique
    obtain ⟨db', hfold, hin, hout, hids, hschema⟩ :=
      ih hrest (by
        intro t ht
        have htn : t ≠ n := fun h => hn (h ▸ ht)
        rw [table_withTable_of_ne _ _ htn]
        exact hempty t (List.mem_cons_of_mem n ht)) hnode'
    refine ⟨db', ?_, ?_, ?_, ?_, ?_⟩
    · rw [List.foldlM_cons, hone]
      exact hfold
    · intro t ht
      by_cases hmem : t ∈ names
      · exact hin t hmem
      · have htn : t = n := (List.mem_cons.mp ht).resolve_right hmem
        subst htn
        rw [hout t hmem, table_withTable]
    · intro t ht
      rw [List.mem_cons, not_or] at ht
      rw [hout t ht.2, table_withTable_of_ne _ _ ht.1]
    · rw [hids, withTable_romiId]
    · rw [hschema, withTable_romiSchema]

/-- What a memory hub holds after taking over a staged database: its rows, the
counters and the version row that were there. -/
def absorbed (staged db : Store) : Store :=
  resyncIds { staged with session := .empty _, romiId := db.romiId, romiSchema := db.romiSchema }

/-- Replacing the rows in memory happens completely or not at all. -/
theorem replaceContents_spec {staged : Store} (htokens : staged.TokensUnique)
    (refusal : Option Failure) (db : Store) :
    (refusal = none ∧ replaceContents refusal staged db = (.ok (), absorbed staged db)) ∨
      ∃ e, refusal = some e ∧ replaceContents refusal staged db = (.error e, db) := by
  cases refusal with
  | some e => exact .inr ⟨e, rfl, rfl⟩
  | none =>
    obtain ⟨copied, hfold, hin, hout, hids, hschema⟩ := copyTables_ok htokens
      (show backupTables.Nodup by decide) (fun t _ => table_clear db t)
      (.inr (table_clear db .node))
    have hcleared := clear_fold tables db
    have hcopied : copied =
        { staged with session := .empty _, romiId := db.romiId, romiSchema := db.romiSchema } := by
      refine store_ext ?_ (hids.trans hcleared.2.1) (hschema.trans hcleared.2.2)
      intro t
      by_cases ht : t = .session
      · subst ht
        rw [hout .session (by decide), table_clear]
        rfl
      · rw [hin t (mem_backupTables.mpr ht)]
        cases t <;> first | rfl | exact absurd rfl ht
    refine .inl ⟨rfl, ?_⟩
    rw [replaceContents, hfold, hcopied]
    rfl

/-! ## Switching -/

/-- What can go wrong while switching. -/
structure SwitchFaults where
  /-- The forward steps of a file swap. -/
  file : Faults
  /-- A refusal inside the transaction of a memory hub. -/
  memory : Option Failure

/-- Nothing goes wrong. -/
def SwitchFaults.none : SwitchFaults := ⟨⟨.none, .none, .none⟩, .none⟩

/-- `activate`. -/
def Live.activate (faults : SwitchFaults) (staged : Store) : Live → Except Failure Unit × Live
  | .file h =>
    match h.activate faults.file with
    | (.ok _, h) => (.ok (), .file h)
    | (.error e, h) => (.error (.declined e), .file h)
  | .memory db =>
    let (r, db) := replaceContents faults.memory staged db
    (r, .memory db)

/-- What serves after a switch: the staged file itself, or the rows taken over. -/
def Live.switched (live : Live) (staged db : Store) : Store :=
  match live with
  | .file _ => staged
  | .memory _ => absorbed staged db

/-- Activating does not make a file or take it away. -/
@[simp] theorem isFile_activate (live : Live) (faults : SwitchFaults) (staged : Store) :
    (live.activate faults staged).2.isFile = live.isFile := by
  cases live with
  | file h =>
    simp only [Live.activate]
    split <;> rfl
  | memory db => rfl

/-- Staging and switching: the replacement or what was in service before. -/
theorem activate_stage {live : Live} {db staged : Store} (hs : live.Serves db)
    (hdb : Servable db) (htokens : live.isFile = false → staged.TokensUnique)
    (faults : SwitchFaults) :
    (((live.stage staged).activate faults staged).1 = .ok () ∧
      ((live.stage staged).activate faults staged).2.Serves (live.switched staged db)) ∨
    ((∃ e, ((live.stage staged).activate faults staged).1 = .error e) ∧
      ((live.stage staged).activate faults staged).2.Serves db) := by
  cases live with
  | file h =>
    have hserving : Serving (h.step (stageOn staged)) db := Live.Serves.stage hs _
    simp only [Live.stage, Live.activate]
    rcases activate_spec hserving (staged_stage h staged) hdb faults.file with
      ⟨hok, hserve, -⟩ | ⟨⟨e, herr⟩, hserve⟩
    · left
      rw [← Prod.mk.eta (p := (h.step (stageOn staged)).activate faults.file), hok]
      exact ⟨rfl, hserve⟩
    · right
      rw [← Prod.mk.eta (p := (h.step (stageOn staged)).activate faults.file), herr]
      exact ⟨⟨_, rfl⟩, hserve⟩
  | memory m =>
    cases hs
    simp only [Live.stage, Live.activate]
    rcases replaceContents_spec (htokens rfl) faults.memory db with ⟨-, h⟩ | ⟨e, -, h⟩
    · rw [h]
      exact .inl ⟨rfl, rfl⟩
    · rw [h]
      exact .inr ⟨⟨e, rfl⟩, rfl⟩

/-- With no fault the switch happens. -/
theorem activate_clear {live : Live} {db staged : Store} (hs : live.Serves db)
    (hstaged : Servable staged) (htokens : staged.TokensUnique) :
    ((live.stage staged).activate .none staged).1 = .ok () ∧
      ((live.stage staged).activate .none staged).2.Serves (live.switched staged db) := by
  cases live with
  | file h =>
    have hserving : Serving (h.step (stageOn staged)) db := Live.Serves.stage hs _
    obtain ⟨w, -, hnew, -, hclosed⟩ := exists_swap hserving (staged_stage h staged)
    rw [← hnew] at hstaged
    obtain ⟨n, hact⟩ := activate_ok hclosed
      (show (Faults.mk none none none).moveAside = none from rfl) rfl rfl hstaged
    simp only [Live.stage, Live.activate, SwitchFaults.none, hact]
    refine ⟨trivial, ?_⟩
    change Serving _ staged
    rw [← hnew]
    exact serving_hub rfl rfl
  | memory m =>
    cases hs
    simp only [Live.stage, Live.activate, SwitchFaults.none]
    rcases replaceContents_spec htokens none db with ⟨-, h⟩ | ⟨e, he, -⟩
    · rw [h]
      exact ⟨rfl, rfl⟩
    · cases he

/-! ## Restore and compaction -/

/-- What the host contributes to a restore. -/
structure RestoreHost where
  /-- What the host has for a staged store. -/
  staging : StagingHost
  /-- The version of the hub. -/
  writtenBy : String
  /-- The time. -/
  now : Int
  /-- Which steps of the switch fail. -/
  faults : SwitchFaults

/-- The identity floor of a restore: the counters of the database in service. -/
def Live.floor (live : Live) : List (String × Int) :=
  match live.read with
  | some db => idCounters db
  | none => []

/-- `restore`. -/
def restore {β : Type} (lib : Libraries β) (host : RestoreHost) (archive : β) (live : Live) :
    Except Failure BackupReport × Live :=
  match buildStaging lib host.staging host.writtenBy host.now archive live.floor with
  | .error e => (.error e, live.dropStaging)
  | .ok (report, staged) =>
    match (live.stage staged).activate host.faults staged with
    | (.ok _, live) => (.ok report, live.dropStaging)
    | (.error e, live) => (.error e, live.dropStaging)

/-- What can go wrong in a compaction: the copy, its detaching or the
checkpoint before the switch, or the switch. -/
structure CompactFaults where
  /-- How copying the database fails. -/
  copy : Option Failure
  /-- Which steps of the switch fail. -/
  faults : SwitchFaults

/-- `apply_maintenance`. -/
def applyMaintenance (f : CompactFaults) (live : Live) : Except Failure Unit × Live :=
  match live.read with
  | none => (.error (.declined "数据库已关闭"), live.dropStaging)
  | some db =>
    match f.copy with
    | some e => (.error e, live.dropStaging)
    | none =>
      let (r, live) := (live.checkpoint.stage db).activate f.faults db
      (r, live.dropStaging)

/-- `plan_maintenance`: a checkpoint, then whether a rewrite is worth it, from
the reusable bytes the engine reports; never for a hub in memory. -/
def planMaintenance (reusable : Except Failure Int) (live : Live) : Except Failure Bool × Live :=
  (reusable.map fun n => live.isFile && decide (4 * 1024 * 1024 ≤ n), live.checkpoint)

/-- Restoring does not make a file or take it away. -/
@[simp] theorem isFile_restore {β : Type} (lib : Libraries β) (host : RestoreHost) (archive : β)
    (live : Live) : (restore lib host archive live).2.isFile = live.isFile := by
  unfold restore
  split
  · exact isFile_dropStaging live
  · rename_i staged _
    have h := isFile_activate (live.stage staged) host.faults staged
    rw [isFile_stage] at h
    split
    all_goals
      rename_i heq
      rw [heq] at h
      exact (isFile_dropStaging _).trans h

/-- Nor does compacting. -/
@[simp] theorem isFile_applyMaintenance (f : CompactFaults) (live : Live) :
    (applyMaintenance f live).2.isFile = live.isFile := by
  unfold applyMaintenance
  split
  · exact isFile_dropStaging live
  · split
    · exact isFile_dropStaging live
    · exact (isFile_dropStaging _).trans ((isFile_activate _ _ _).trans
        ((isFile_stage _ _).trans (isFile_checkpoint live)))

/-- A restore puts the staged database in service, or changes nothing. -/
theorem restore_spec {β : Type} {lib : Libraries β} {host : RestoreHost} {archive : β} {live : Live}
    {db : Store} (hs : live.Serves db) (hdb : Servable db) :
    (∃ report staged,
      buildStaging lib host.staging host.writtenBy host.now archive (idCounters db) =
        .ok (report, staged) ∧
      (restore lib host archive live).1 = .ok report ∧
      (restore lib host archive live).2.Serves (live.switched staged db)) ∨
    ((∃ e, (restore lib host archive live).1 = .error e) ∧
      (restore lib host archive live).2.Serves db) := by
  have hfloor : live.floor = idCounters db := by rw [Live.floor, hs.read]
  unfold restore
  rw [hfloor]
  cases hbuild : buildStaging lib host.staging host.writtenBy host.now archive (idCounters db) with
  | error e => exact .inr ⟨⟨e, rfl⟩, hs.dropStaging⟩
  | ok built =>
    obtain ⟨report, staged⟩ := built
    have hstaged := buildStaging_restorable hbuild
    dsimp only
    rcases activate_stage hs hdb (fun _ => hstaged.related.tokens) host.faults with
      ⟨hok, hserve⟩ | ⟨⟨e, herr⟩, hserve⟩
    · left
      rw [← Prod.mk.eta (p := (live.stage staged).activate host.faults staged), hok]
      exact ⟨report, staged, rfl, rfl, hserve.dropStaging⟩
    · right
      rw [← Prod.mk.eta (p := (live.stage staged).activate host.faults staged), herr]
      exact ⟨⟨e, rfl⟩, hserve.dropStaging⟩

/-- A compaction leaves the same database in service, whatever comes of it. -/
theorem applyMaintenance_spec {f : CompactFaults} {live : Live} {db : Store} (hs : live.Serves db)
    (hdb : Servable db) (hfile : live.isFile = true) : (applyMaintenance f live).2.Serves db := by
  unfold applyMaintenance
  rw [hs.read]
  dsimp only
  cases f.copy with
  | some e => exact hs.dropStaging
  | none =>
    have hmemory : live.checkpoint.isFile = false → db.TokensUnique := by
      rw [isFile_checkpoint, hfile]
      exact nofun
    rcases activate_stage hs.checkpoint hdb hmemory f.faults with ⟨-, hserve⟩ | ⟨-, hserve⟩
    · cases live with
      | file h => exact hserve.dropStaging
      | memory m => cases hfile
    · exact hserve.dropStaging

/-- What a restore puts in service is related, of this version and without sessions. -/
theorem switched_restorable {live : Live} {staged db : Store} (hstaged : Restorable staged)
    (hdb : storedVersion db = some schemaVersion) : Restorable (live.switched staged db) := by
  cases live with
  | file h => exact hstaged
  | memory m =>
    refine ⟨?_, ?_, ?_⟩
    · change Related (absorbed staged db)
      rw [absorbed, resyncIds_frame]
      exact hstaged.related.congr rfl rfl rfl rfl rfl rfl rfl rfl
    · change (absorbed staged db).session = _
      rw [absorbed, resyncIds_frame]
    · change storedVersion (absorbed staged db) = _
      rw [absorbed, resyncIds_frame]
      exact hdb

end Romi.LiveDatabase
