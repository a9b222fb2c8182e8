import Romi.StoreSchema

/-!
# Replacing the database file

Three names matter: the live path, the name the original is moved aside to,
and the staging file. A log lives beside a name and does not follow a rename,
handles are open on a file and do follow it. Every filesystem step appends
the disk it leaves to a trail, which is what a process that dies there leaves
behind. Closing the last handle on a file folds its log into it.
-/

namespace Romi.FileSwap

open KeyedTable StoreSchema

/-- The names `activate` works with. -/
inductive Name
  | live | aside | staging
  deriving DecidableEq

/-- What a database file holds. -/
inductive FileBody
  /-- Nothing yet: no bytes, or a file the engine has just created. -/
  | blank
  /-- Bytes of another format. -/
  | foreign
  /-- A database with this application's tables. -/
  | database (db : Store)

/-- A file with its identity, which handles hold on to. -/
structure DbFile where
  /-- Which file it is. -/
  inode : Nat
  /-- What is in it. -/
  body : FileBody

/-- The directory of the database. -/
@[ext] structure Disk where
  /-- The files under the three names. -/
  main : Name → Option DbFile
  /-- What replaying the log beside a name yields, when there is a log. -/
  log : Name → Option Store

/-- Changes what one name stands for. -/
def setAt {α : Type} (f : Name → α) (n : Name) (v : α) : Name → α := fun m => if m = n then v else f m

/-- The name that was set. -/
@[simp] theorem setAt_same {α : Type} (f : Name → α) (n : Name) (v : α) : setAt f n v n = v :=
  if_pos rfl

/-- What opening a name would show. -/
def Disk.contents (d : Disk) (n : Name) : Option Store :=
  match d.main n with
  | some ⟨_, .database db⟩ => some ((d.log n).getD db)
  | _ => none

/-- `remove_file` of a main file; removing what is not there changes nothing. -/
def Disk.removeMain (d : Disk) (n : Name) : Disk := { d with main := setAt d.main n none }

/-- `remove_file` of a log. -/
def Disk.removeLog (d : Disk) (n : Name) : Disk := { d with log := setAt d.log n none }

/-- `rename` of a main file; its log stays behind. -/
def Disk.rename (d : Disk) (source target : Name) : Disk :=
  { d with main := setAt (setAt d.main source none) target (d.main source) }

/-- Folds the log beside a name into its file. -/
def Disk.fold (d : Disk) (n : Name) : Disk :=
  match d.main n with
  | some ⟨i, .database db⟩ =>
    { main := setAt d.main n (some ⟨i, .database ((d.log n).getD db)⟩), log := setAt d.log n none }
  | _ => d

/-- A file-backed hub during a replacement. -/
structure Hub where
  /-- What is on disk. -/
  disk : Disk
  /-- The file the writer's connection is open on. -/
  writer : Option Nat
  /-- The file the prototype connection is open on. -/
  prototype : Option Nat
  /-- The file the reader pool is open on; an empty pool is on none. -/
  readers : Option Nat
  /-- An identity no file has yet. -/
  nextInode : Nat
  /-- The disk after each filesystem step so far. -/
  trail : List Disk

/-- One filesystem step. -/
def Hub.step (h : Hub) (f : Disk → Disk) : Hub :=
  { h with disk := f h.disk, trail := h.trail ++ [f h.disk] }

/-- Takes the three handles and drops them, which closes the live file. -/
def Hub.closeHandles (h : Hub) : Hub :=
  ({ h with writer := none, prototype := none, readers := none }).step fun d => d.fold .live

/-- Where a reopen can break off, all before any handle is published. -/
inductive ReopenStep
  | openConnection | engineVersion | storedVersion | clonePrototype | cloneWriter | readerPool
  deriving DecidableEq

/-- Which forward steps fail, with the text of their errors. -/
structure Faults where
  /-- Moving the live file aside. -/
  moveAside : Option String
  /-- Moving the staging file in. -/
  moveIn : Option String
  /-- One of the steps of reopening. -/
  reopen : Option (ReopenStep × String)

/-- A connection to the live path: the engine creates a missing file. -/
def Disk.opened (d : Disk) (inode : Nat) : Disk :=
  match d.main .live with
  | some _ => d
  | none => { d with main := setAt d.main .live (some ⟨inode, .blank⟩) }

/-- The stored schema version behind the live path. -/
def Disk.liveVersion (d : Disk) : Option Int := (d.contents .live).bind storedVersion

/-- `reopen`: the handles are published only after every check and clone. -/
def Hub.reopen (h : Hub) (fault : Option (ReopenStep × String)) : Except String Unit × Hub :=
  match fault with
  | some (.openConnection, e) => (.error e, h.step id)
  | _ =>
    let opened := { h.step (fun d => d.opened h.nextInode) with nextInode := h.nextInode + 1 }
    match fault with
    | some (_, e) => (.error e, opened)
    | none =>
      match opened.disk.liveVersion with
      | none => (.error "恢复后的数据库缺少 schema 记录", opened)
      | some version =>
        if version ≤ schemaVersion then
          let file := (opened.disk.main .live).map DbFile.inode
          (.ok (), { opened with writer := file, prototype := file, readers := file })
        else (.error s!"恢复后的数据库 schema {version} 高于本版本", opened)

/-- The undo of a failed reopen: the new file goes, the original comes back. -/
def Hub.rollBack (h : Hub) (e : String) : Except String Unit × Hub :=
  let h := h.step fun d => d.removeMain .live
  let h := h.step fun d => d.removeLog .live
  let h := h.step fun d => d.rename .aside .live
  match h.reopen none with
  | (.ok _, h) => (.error s!"恢复失败，已回滚到原数据库：{e}", h)
  | (.error re, h) => (.error s!"恢复失败且回滚也失败：{e}；回滚错误：{re}", h)

/-- The cleanup after a successful switch. -/
def Hub.discardAside (h : Hub) : Hub :=
  (h.step fun d => d.removeMain .aside).step fun d => d.removeLog .aside

/-- From the moment the original is aside: publish the staging file and reopen. -/
def Hub.publish (h : Hub) (faults : Faults) : Except String Unit × Hub :=
  match faults.moveIn with
  | some e =>
    let h := h.step id
    let h := h.step fun d => d.rename .aside .live
    match h.reopen none with
    | (.ok _, h) => (.error s!"发布新数据库失败（{e}）；已回滚到原数据库", h)
    | (.error re, h) => (.error s!"发布新数据库失败（{e}），且回滚后重新打开原库失败（{re}）", h)
  | none =>
    let h := h.step fun d => d.rename .staging .live
    match h.reopen faults.reopen with
    | (.ok _, h) => (.ok (), h.discardAside)
    | (.error e, h) => h.rollBack e

/-- `activate` on a file-backed hub; the undo steps themselves succeed. -/
def Hub.activate (h : Hub) (faults : Faults) : Except String Unit × Hub :=
  let h := h.step fun d => d.removeMain .aside
  let h := h.step fun d => d.removeLog .aside
  let h := h.closeHandles
  match faults.moveAside with
  | some e =>
    let h := h.step id
    match h.reopen none with
    | (.ok _, h) => (.error s!"无法移开当前数据库（{e}）；原库未被改动", h)
    | (.error re, h) => (.error s!"无法移开当前数据库（{e}），且重新打开它也失败（{re}）", h)
  | none => (h.step fun d => d.rename .live .aside).publish faults

/-! ## The disks a replacement passes through -/

/-- A disk from what each name stands for, logs included. -/
def Disk.of (live aside staging : Option DbFile) (liveLog asideLog stagingLog : Option Store) :
    Disk where
  main
    | .live => live
    | .aside => aside
    | .staging => staging
  log
    | .live => liveLog
    | .aside => asideLog
    | .staging => stagingLog

/-- Every disk is given by its six entries. -/
theorem Disk.eq_of (d : Disk) : d = Disk.of (d.main .live) (d.main .aside) (d.main .staging)
    (d.log .live) (d.log .aside) (d.log .staging) := by
  ext1
  · funext n
    cases n <;> rfl
  · funext n
    cases n <;> rfl

section Steps

variable (l a s : Option DbFile) (ll la ls : Option Store)

/-- Removing the old file. -/
theorem removeMain_aside : (Disk.of l a s ll la ls).removeMain .aside = Disk.of l none s ll la ls := by
  ext1
  · funext n
    cases n <;> rfl
  · rfl

/-- And its log. -/
theorem removeLog_aside : (Disk.of l a s ll la ls).removeLog .aside = Disk.of l a s ll none ls := by
  ext1
  · rfl
  · funext n
    cases n <;> rfl

/-- Removing the live file. -/
theorem removeMain_live : (Disk.of l a s ll la ls).removeMain .live = Disk.of none a s ll la ls := by
  ext1
  · funext n
    cases n <;> rfl
  · rfl

/-- And its log. -/
theorem removeLog_live : (Disk.of l a s ll la ls).removeLog .live = Disk.of l a s none la ls := by
  ext1
  · rfl
  · funext n
    cases n <;> rfl

/-- Moving the live file aside. -/
theorem rename_live_aside :
    (Disk.of l a s ll la ls).rename .live .aside = Disk.of none l s ll la ls := by
  ext1
  · funext n
    cases n <;> rfl
  · rfl

/-- Moving the staged one into place. -/
theorem rename_staging_live :
    (Disk.of l a s ll la ls).rename .staging .live = Disk.of s a none ll la ls := by
  ext1
  · funext n
    cases n <;> rfl
  · rfl

/-- Moving the old one back. -/
theorem rename_aside_live :
    (Disk.of l a s ll la ls).rename .aside .live = Disk.of a none s ll la ls := by
  ext1
  · funext n
    cases n <;> rfl
  · rfl

/-- Folding the log into the live file. -/
theorem fold_live (i : Nat) (db : Store) :
    (Disk.of (some ⟨i, .database db⟩) a s ll la ls).fold .live =
      Disk.of (some ⟨i, .database (ll.getD db)⟩) a s none la ls := by
  ext1
  · funext n
    cases n <;> rfl
  · funext n
    cases n <;> rfl

/-- Opening the live file creates nothing. -/
theorem opened_live (f : DbFile) (inode : Nat) :
    (Disk.of (some f) a s ll la ls).opened inode = Disk.of (some f) a s ll la ls := rfl

end Steps

/-- A database a hub can open: it names a schema version this build reads. -/
def Servable (db : Store) : Prop := ∃ v, storedVersion db = some v ∧ v ≤ schemaVersion

/-- Reopening a servable database without a fault publishes all three handles. -/
theorem reopen_servable {h : Hub} {i : Nat} {db : Store} {a s : Option DbFile}
    {la ls : Option Store} (hd : h.disk = Disk.of (some ⟨i, .database db⟩) a s none la ls)
    (hdb : Servable db) : h.reopen none = (.ok (),
      { disk := h.disk, writer := some i, prototype := some i, readers := some i
        nextInode := h.nextInode + 1, trail := h.trail ++ [h.disk] }) := by
  obtain ⟨v, hv, hle⟩ := hdb
  have hopen : h.disk.opened h.nextInode = h.disk := by rw [hd, opened_live]
  have hversion : h.disk.liveVersion = some v := by
    rw [hd]
    exact hv
  have hfile : (h.disk.main .live).map DbFile.inode = some i := by
    rw [hd]
    rfl
  simp only [Hub.reopen, Hub.step, hopen, hversion, if_pos hle, hfile]

/-- A reopen that meets a fault publishes nothing and leaves the disk alone. -/
theorem reopen_fault {h : Hub} {f : DbFile} {a s : Option DbFile} {ll la ls : Option Store}
    (hd : h.disk = Disk.of (some f) a s ll la ls) (step : ReopenStep) (e : String) :
    ∃ n, h.reopen (some (step, e)) = (.error e,
      { h with nextInode := n, trail := h.trail ++ [h.disk] }) := by
  have hopen : h.disk.opened h.nextInode = h.disk := by rw [hd, opened_live]
  cases step with
  | openConnection => exact ⟨h.nextInode, rfl⟩
  | _ => exact ⟨h.nextInode + 1, by simp only [Hub.reopen, Hub.step, hopen]⟩

/-- A database this build cannot read is refused by the reopen itself. -/
theorem reopen_unservable {h : Hub} {i : Nat} {db : Store} {a s : Option DbFile}
    {la ls : Option Store} (hd : h.disk = Disk.of (some ⟨i, .database db⟩) a s none la ls)
    (hdb : ¬ Servable db) (fault : Option (ReopenStep × String)) :
    ∃ e n, h.reopen fault = (.error e, { h with nextInode := n, trail := h.trail ++ [h.disk] }) := by
  cases fault with
  | some f =>
    obtain ⟨n, hn⟩ := reopen_fault hd f.1 f.2
    exact ⟨f.2, n, hn⟩
  | none =>
    have hopen : h.disk.opened h.nextInode = h.disk := by rw [hd, opened_live]
    have hversion : h.disk.liveVersion = storedVersion db := by rw [hd]; rfl
    cases hv : storedVersion db with
    | none =>
      refine ⟨"恢复后的数据库缺少 schema 记录", h.nextInode + 1, ?_⟩
      simp only [Hub.reopen, Hub.step, hopen, hversion, hv]
    | some v =>
      have hgt : ¬ v ≤ schemaVersion := fun hle => hdb ⟨v, hv, hle⟩
      refine ⟨s!"恢复后的数据库 schema {v} 高于本版本", h.nextInode + 1, ?_⟩
      simp only [Hub.reopen, Hub.step, hopen, hversion, hv, if_neg hgt]

/-! ## A hub in service -/

/-- The live path holds `db` and every handle is open on that file. -/
structure Serving (h : Hub) (db : Store) : Prop where
  /-- The live contents. -/
  contents : h.disk.contents .live = some db
  /-- The writer's connection is open on the live file. -/
  writer : h.writer = (h.disk.main .live).map DbFile.inode
  /-- So is the prototype. -/
  prototype : h.prototype = (h.disk.main .live).map DbFile.inode
  /-- So is the reader pool. -/
  readers : h.readers = (h.disk.main .live).map DbFile.inode

/-- A complete database waits under the staging name, in a file of its own
and with nothing to replay: the staging build closed it. -/
structure Staged (h : Hub) (db : Store) : Prop where
  /-- The staging contents. -/
  contents : h.disk.contents .staging = some db
  /-- Its log was folded. -/
  log : h.disk.log .staging = none
  /-- It is not the live file. -/
  apart : (h.disk.main .staging).map DbFile.inode ≠ (h.disk.main .live).map DbFile.inode

/-- What a file holds is read from it and its log. -/
theorem contents_eq_some {d : Disk} {n : Name} {db : Store} (h : d.contents n = some db) :
    ∃ i base, d.main n = some ⟨i, .database base⟩ ∧ (d.log n).getD base = db := by
  unfold Disk.contents at h
  split at h
  · rename_i i base hm
    exact ⟨i, base, hm, Option.some.inj h⟩
  · cases h

/-- The two databases of a replacement, each in its own file. -/
structure Swap where
  /-- The live file before the replacement. -/
  oldFile : Nat
  /-- The staging file. -/
  newFile : Nat
  /-- The contents in service. -/
  original : Store
  /-- The contents to put in service. -/
  replacement : Store

namespace Swap

variable (w : Swap)

/-- The original in its folded file. -/
def old : Option DbFile := some ⟨w.oldFile, .database w.original⟩

/-- The replacement in its folded file. -/
def new : Option DbFile := some ⟨w.newFile, .database w.replacement⟩

/-- The original is live, the replacement staged. -/
def kept : Disk := Disk.of w.old none w.new none none none

/-- The original is aside and nothing is live. -/
def parted : Disk := Disk.of none w.old w.new none none none

/-- The replacement is live, the original aside. -/
def switched : Disk := Disk.of w.new w.old none none none none

/-- The replacement is gone again, the original still aside. -/
def cleared : Disk := Disk.of none w.old none none none none

/-- The original is live again, the replacement gone. -/
def undone : Disk := Disk.of w.old none none none none none

/-- The replacement is live and the original gone. -/
def finished : Disk := Disk.of w.new none none none none none

/-- The trail up to the closed handles. -/
def opening (d : Disk) : List Disk :=
  [d.removeMain .aside, (d.removeMain .aside).removeLog .aside, w.kept]

/-- A hub all of whose handles are open on one file. -/
def hub (d : Disk) (file nextInode : Nat) (trail : List Disk) : Hub where
  disk := d
  writer := some file
  prototype := some file
  readers := some file
  nextInode := nextInode
  trail := trail

/-- The hub between closing its handles and reopening. -/
def closed (d : Disk) (nextInode : Nat) (trail : List Disk) : Hub where
  disk := d
  writer := none
  prototype := none
  readers := none
  nextInode := nextInode
  trail := trail

end Swap

/-- The disk with its handles closed, from the disk in service. -/
theorem closeHandles_of_disk {h : Hub} {i j : Nat} {base repl : Store} {a : Option DbFile}
    {ll la : Option Store} (hd : h.disk =
      Disk.of (some ⟨i, .database base⟩) a (some ⟨j, .database repl⟩) ll la none) :
    ((h.step fun d => d.removeMain .aside).step fun d => d.removeLog .aside).closeHandles =
      Swap.closed (Swap.kept ⟨i, j, ll.getD base, repl⟩) h.nextInode
        (h.trail ++ Swap.opening ⟨i, j, ll.getD base, repl⟩ h.disk) := by
  have hkept : ((h.disk.removeMain .aside).removeLog .aside).fold .live =
      Swap.kept ⟨i, j, ll.getD base, repl⟩ := by
    rw [hd, removeMain_aside, removeLog_aside, fold_live]
    rfl
  simp only [Hub.closeHandles, Hub.step, Swap.closed, Swap.opening, hkept, List.append_assoc,
    List.cons_append, List.nil_append]

/-- The files behind a hub with a database under its live path and a staged one. -/
theorem exists_swap_of_contents {h : Hub} {orig repl : Store}
    (hc : h.disk.contents .live = some orig) (ht : Staged h repl) :
    ∃ w : Swap, w.original = orig ∧ w.replacement = repl ∧ w.oldFile ≠ w.newFile ∧
      (((h.step fun d => d.removeMain .aside).step fun d => d.removeLog .aside).closeHandles =
        Swap.closed w.kept h.nextInode (h.trail ++ w.opening h.disk)) := by
  obtain ⟨i, base, hlive, hold⟩ := contents_eq_some hc
  obtain ⟨j, base', hstaging, hnew⟩ := contents_eq_some ht.contents
  rw [ht.log, Option.getD_none] at hnew
  subst hnew
  refine ⟨⟨i, j, orig, base'⟩, rfl, rfl, ?_, ?_⟩
  · intro hij
    apply ht.apart
    rw [hlive, hstaging]
    exact congrArg some hij.symm
  · have hd := Disk.eq_of h.disk
    rw [hlive, hstaging, ht.log] at hd
    rw [← hold]
    exact closeHandles_of_disk hd

/-- The files behind a hub in service with a staged replacement. -/
theorem exists_swap {h : Hub} {orig repl : Store} (hs : Serving h orig) (ht : Staged h repl) :
    ∃ w : Swap, w.original = orig ∧ w.replacement = repl ∧ w.oldFile ≠ w.newFile ∧
      (((h.step fun d => d.removeMain .aside).step fun d => d.removeLog .aside).closeHandles =
        Swap.closed w.kept h.nextInode (h.trail ++ w.opening h.disk)) :=
  exists_swap_of_contents hs.contents ht

section Outcomes

variable {h : Hub} {w : Swap} {faults : Faults}
  (hclosed : ((h.step fun d => d.removeMain .aside).step fun d => d.removeLog .aside).closeHandles =
    Swap.closed w.kept h.nextInode (h.trail ++ w.opening h.disk))
  (hold : Servable w.original)

include hclosed hold

/-- The original could not be moved: nothing has changed but the handles. -/
theorem activate_moveAside {e : String} (hf : faults.moveAside = some e) :
    ∃ m n, h.activate faults = (.error m, Swap.hub w.kept w.oldFile n
      (h.trail ++ w.opening h.disk ++ [w.kept, w.kept])) := by
  have hre := reopen_servable (h := (Swap.closed w.kept h.nextInode
    (h.trail ++ w.opening h.disk)).step id) rfl hold
  refine ⟨s!"无法移开当前数据库（{e}）；原库未被改动", h.nextInode + 1, ?_⟩
  unfold Hub.activate
  dsimp only
  rw [hclosed, hf]
  dsimp only
  rw [hre]
  simp only [Swap.hub, Swap.closed, Hub.step, id, List.append_assoc, List.cons_append,
    List.nil_append]

/-- The staging file could not be moved in: the original is renamed back. -/
theorem activate_moveIn {e : String} (hf : faults.moveAside = none) (hg : faults.moveIn = some e) :
    ∃ m n, h.activate faults = (.error m, Swap.hub w.kept w.oldFile n
      (h.trail ++ w.opening h.disk ++ [w.parted, w.parted, w.kept, w.kept])) := by
  have hback : w.parted.rename .aside .live = w.kept := rename_aside_live _ _ _ _ _ _
  have hpart : w.kept.rename .live .aside = w.parted := rename_live_aside _ _ _ _ _ _
  have hre := reopen_servable (h := Swap.closed w.kept h.nextInode
    (h.trail ++ w.opening h.disk ++ [w.parted, w.parted, w.kept])) rfl hold
  refine ⟨s!"发布新数据库失败（{e}）；已回滚到原数据库", h.nextInode + 1, ?_⟩
  unfold Hub.activate
  dsimp only
  rw [hclosed, hf]
  dsimp only [Hub.publish]
  rw [hg]
  simp only [Swap.closed, Hub.step, id, hpart, hback, List.append_assoc, List.cons_append,
    List.nil_append] at hre ⊢
  rw [hre]
  simp only [Swap.hub]

/-- The new file could not be opened: it is removed and the original comes back. -/
theorem activate_reopenFails (hf : faults.moveAside = none) (hg : faults.moveIn = none)
    (hr : faults.reopen.isSome = true ∨ ¬ Servable w.replacement) :
    ∃ m n, h.activate faults = (.error m, Swap.hub w.undone w.oldFile n
      (h.trail ++ w.opening h.disk ++
        [w.parted, w.switched, w.switched, w.cleared, w.cleared, w.undone, w.undone])) := by
  have hpart : w.kept.rename .live .aside = w.parted := rename_live_aside _ _ _ _ _ _
  have hin : w.parted.rename .staging .live = w.switched := rename_staging_live _ _ _ _ _ _
  have hrm : w.switched.removeMain .live = w.cleared := removeMain_live _ _ _ _ _ _
  have hlog : w.cleared.removeLog .live = w.cleared := removeLog_live _ _ _ _ _ _
  have hback : w.cleared.rename .aside .live = w.undone := rename_aside_live _ _ _ _ _ _
  have hfail : ∃ e n, (Swap.closed w.switched h.nextInode
      (h.trail ++ w.opening h.disk ++ [w.parted, w.switched])).reopen faults.reopen =
      (.error e, Swap.closed w.switched n
        (h.trail ++ w.opening h.disk ++ [w.parted, w.switched] ++ [w.switched])) := by
    rcases hr with hr | hr
    · obtain ⟨f, hf⟩ := Option.isSome_iff_exists.mp hr
      obtain ⟨n, hn⟩ := reopen_fault (h := Swap.closed w.switched h.nextInode
        (h.trail ++ w.opening h.disk ++ [w.parted, w.switched])) rfl f.1 f.2
      exact ⟨f.2, n, by rw [hf]; exact hn⟩
    · exact reopen_unservable (h := Swap.closed w.switched h.nextInode
        (h.trail ++ w.opening h.disk ++ [w.parted, w.switched])) rfl hr faults.reopen
  obtain ⟨e, n, hfail⟩ := hfail
  have hre := reopen_servable (h := Swap.closed w.undone n (h.trail ++ w.opening h.disk ++
    [w.parted, w.switched, w.switched, w.cleared, w.cleared, w.undone])) rfl hold
  refine ⟨s!"恢复失败，已回滚到原数据库：{e}", n + 1, ?_⟩
  unfold Hub.activate
  dsimp only
  rw [hclosed, hf]
  dsimp only [Hub.publish]
  rw [hg]
  simp only [Swap.closed, Hub.step, hpart, hin, List.append_assoc, List.cons_append,
    List.nil_append] at hfail hre ⊢
  rw [hfail]
  dsimp only [Hub.rollBack]
  simp only [Hub.step, hrm, hlog, hback, List.append_assoc, List.cons_append, List.nil_append]
  rw [hre]
  simp only [Swap.hub]

omit hold in
/-- Nothing failed: the replacement is in service and the original is gone. -/
theorem activate_ok (hf : faults.moveAside = none) (hg : faults.moveIn = none)
    (hr : faults.reopen = none) (hnew : Servable w.replacement) :
    ∃ n, h.activate faults = (.ok (), Swap.hub w.finished w.newFile n
      (h.trail ++ w.opening h.disk ++
        [w.parted, w.switched, w.switched, w.finished, w.finished])) := by
  have hpart : w.kept.rename .live .aside = w.parted := rename_live_aside _ _ _ _ _ _
  have hin : w.parted.rename .staging .live = w.switched := rename_staging_live _ _ _ _ _ _
  have hrm : w.switched.removeMain .aside = w.finished := removeMain_aside _ _ _ _ _ _
  have hlog : w.finished.removeLog .aside = w.finished := removeLog_aside _ _ _ _ _ _
  have hre := reopen_servable (h := Swap.closed w.switched h.nextInode
    (h.trail ++ w.opening h.disk ++ [w.parted, w.switched])) rfl hnew
  refine ⟨h.nextInode + 1, ?_⟩
  unfold Hub.activate
  dsimp only
  rw [hclosed, hf]
  dsimp only [Hub.publish]
  rw [hg, hr]
  simp only [Swap.closed, Hub.step, hpart, hin, List.append_assoc, List.cons_append,
    List.nil_append] at hre ⊢
  rw [hre]
  simp only [Hub.discardAside, Hub.step, Swap.hub, hrm, hlog, List.append_assoc,
    List.cons_append, List.nil_append]

end Outcomes

/-! ## All or nothing -/

/-- The name a handle's file goes by. -/
def Hub.nameOf (h : Hub) (inode : Nat) : Option Name :=
  [Name.live, .aside, .staging].find? fun n => (h.disk.main n).map DbFile.inode == some inode

/-- A committed write lands in the file the writer's connection is open on,
wherever that file now is. -/
def Hub.write (h : Hub) (f : Store → Store) : Hub :=
  match h.writer.bind h.nameOf with
  | none => h
  | some n =>
    match h.disk.contents n with
    | none => h
    | some db => { h with disk := { h.disk with log := setAt h.disk.log n (some (f db)) } }

/-- In a hub in service a write goes to the live file and every handle sees it. -/
theorem Serving.write {h : Hub} {db : Store} (hs : Serving h db) (f : Store → Store) :
    Serving (h.write f) (f db) := by
  obtain ⟨i, base, hlive, -⟩ := contents_eq_some hs.contents
  have hname : h.writer.bind h.nameOf = some .live := by
    rw [hs.writer, hlive]
    simp only [Option.map_some, Option.bind_some, Hub.nameOf, List.find?_cons, hlive, beq_self_eq_true]
  have hw : h.write f = { h with disk := { h.disk with log := setAt h.disk.log .live (some (f db)) } } := by
    unfold Hub.write
    rw [hname]
    dsimp only
    rw [hs.contents]
  rw [hw]
  refine ⟨?_, hs.writer, hs.prototype, hs.readers⟩
  simp only [Disk.contents, hlive, setAt_same, Option.getD_some]

/-- A hub whose handles are all on the live file serves what that file holds. -/
theorem serving_hub {d : Disk} {file n : Nat} {trail : List Disk} {db : Store}
    (hc : d.contents .live = some db) (hf : (d.main .live).map DbFile.inode = some file) :
    Serving (Swap.hub d file n trail) db := ⟨hc, hf.symm, hf.symm, hf.symm⟩

/-- The replacement of a hub in service by a staged database either happened
completely or not at all, and it happened exactly when no step failed. -/
theorem activate_spec {h : Hub} {orig repl : Store} (hs : Serving h orig) (ht : Staged h repl)
    (hold : Servable orig) (faults : Faults) :
    ((h.activate faults).1 = .ok () ∧ Serving (h.activate faults).2 repl ∧ Servable repl ∧
      (h.activate faults).2.disk.main .aside = none ∧
      (h.activate faults).2.disk.log .aside = none) ∨
    ((∃ e, (h.activate faults).1 = .error e) ∧ Serving (h.activate faults).2 orig) := by
  obtain ⟨w, rfl, rfl, -, hclosed⟩ := exists_swap hs ht
  cases hf : faults.moveAside with
  | some e =>
    obtain ⟨m, n, hact⟩ := activate_moveAside hclosed hold hf
    rw [hact]
    exact .inr ⟨⟨m, rfl⟩, serving_hub rfl rfl⟩
  | none =>
    cases hg : faults.moveIn with
    | some e =>
      obtain ⟨m, n, hact⟩ := activate_moveIn hclosed hold hf hg
      rw [hact]
      exact .inr ⟨⟨m, rfl⟩, serving_hub rfl rfl⟩
    | none =>
      by_cases hr : faults.reopen.isSome = true ∨ ¬ Servable w.replacement
      · obtain ⟨m, n, hact⟩ := activate_reopenFails hclosed hold hf hg hr
        rw [hact]
        exact .inr ⟨⟨m, rfl⟩, serving_hub rfl rfl⟩
      · rw [not_or, not_not] at hr
        have hnone : faults.reopen = none := by
          cases hreopen : faults.reopen with
          | none => rfl
          | some f => exact absurd (by rw [hreopen]; rfl) hr.1
        obtain ⟨n, hact⟩ := activate_ok hclosed hf hg hnone hr.2
        rw [hact]
        exact .inl ⟨rfl, serving_hub rfl rfl, hr.2, rfl, rfl⟩

/-- Whatever fails among the forward steps, a failed replacement leaves the
original in service and a successful one the replacement, with the writer, the
prototype and the readers on one file that later writes go to. -/
theorem activate_all_or_nothing (h : Hub) (orig repl : Store) (hs : Serving h orig)
    (ht : Staged h repl) (hold : Servable orig) (faults : Faults) :
    (∀ e, (h.activate faults).1 = .error e →
      Serving (h.activate faults).2 orig ∧
        ∀ f, Serving ((h.activate faults).2.write f) (f orig)) ∧
    ((h.activate faults).1 = .ok () →
      Serving (h.activate faults).2 repl ∧
        (h.activate faults).2.disk.main .aside = none ∧
        (h.activate faults).2.disk.log .aside = none ∧
        ∀ f, Serving ((h.activate faults).2.write f) (f repl)) ∧
    (∃ file, (h.activate faults).2.writer = some file ∧
      (h.activate faults).2.prototype = some file ∧ (h.activate faults).2.readers = some file) := by
  have hsame : ∀ {h' : Hub} {db : Store}, Serving h' db →
      ∃ file, h'.writer = some file ∧ h'.prototype = some file ∧ h'.readers = some file := by
    intro h' db hserve
    obtain ⟨i, base, hlive, -⟩ := contents_eq_some hserve.contents
    have hfile : (h'.disk.main .live).map DbFile.inode = some i := by rw [hlive]; rfl
    exact ⟨i, hserve.writer.trans hfile, hserve.prototype.trans hfile, hserve.readers.trans hfile⟩
  rcases activate_spec hs ht hold faults with ⟨hok, hserve, -, hmain, hlog⟩ | ⟨⟨e, herr⟩, hserve⟩
  · refine ⟨?_, fun _ => ⟨hserve, hmain, hlog, hserve.write⟩, hsame hserve⟩
    intro e he
    rw [hok] at he
    cases he
  · refine ⟨fun _ _ => ⟨hserve, hserve.write⟩, ?_, hsame hserve⟩
    intro hok
    rw [herr] at hok
    cases hok

/-- A hub on a database just created, with another one staged. -/
def freshHub : Hub where
  disk := Disk.of (some ⟨0, .database (Store.fresh "romi" 0)⟩) none
    (some ⟨1, .database (Store.fresh "romi" 1)⟩) none none none
  writer := some 0
  prototype := some 0
  readers := some 0
  nextInode := 2
  trail := []

/-- A fresh store can be served. -/
theorem servable_fresh (w : String) (n : Int) : Servable (Store.fresh w n) :=
  ⟨schemaVersion, storedVersion_initSchema w n Store.blank, le_rfl⟩

/-- The hub of the example serves. -/
theorem freshHub_serving : Serving freshHub (Store.fresh "romi" 0) := ⟨rfl, rfl, rfl, rfl⟩

/-- And it has a file staged. -/
theorem freshHub_staged : Staged freshHub (Store.fresh "romi" 1) := ⟨rfl, rfl, by decide⟩

/-- A replacement whose reopen fails while a reader is cloned. -/
theorem activate_all_or_nothing_fresh :
    ∃ e, (freshHub.activate ⟨none, none, some (.readerPool, "busy")⟩).1 = .error e ∧
      Serving (freshHub.activate ⟨none, none, some (.readerPool, "busy")⟩).2
        (Store.fresh "romi" 0) := by
  have h := activate_all_or_nothing freshHub (Store.fresh "romi" 0) (Store.fresh "romi" 1)
    freshHub_serving freshHub_staged (servable_fresh "romi" 0)
    ⟨none, none, some (.readerPool, "busy")⟩
  exact ⟨_, rfl, (h.1 _ rfl).1⟩

end Romi.FileSwap
