import Romi.FileSwap

/-!
# A process that dies while it replaces the database file

`openWith` is the next start on whatever disk the dead process left. It takes
a missing live file for a new installation, so it matters at which steps of a
replacement the live name stands for nothing. Afterwards further starts and
replacements run; the last database put in service is followed through them.
-/

namespace Romi.CrashRecovery

open KeyedTable StoreSchema FileSwap

/-! ## Starting on a disk -/

/-- What a start does to the database it found. -/
def startup (writtenBy : String) (now : Int) (db : Store) : Store :=
  resyncIds (retireSettings (initSchema writtenBy now db))

/-- A start that succeeded. -/
structure Start where
  /-- The database that was there; none when a new one was created. -/
  found : Option Store
  /-- The disk with the opened database checkpointed into the live file. -/
  disk : Disk

/-- The live file rewritten with one database and nothing left to replay. -/
def Disk.settle (d : Disk) (inode : Nat) (db : Store) : Disk where
  main := setAt d.main .live (some ⟨inode, .database db⟩)
  log := setAt d.log .live none

/-- The store that is put in place is the one found. -/
theorem contents_settle (d : Disk) (inode : Nat) (db : Store) :
    (Disk.settle d inode db).contents .live = some db := rfl

/-- `open_with`: `refuse_foreign_format` lets a missing or empty file pass, and
the engine creates it. -/
def openWith (writtenBy : String) (now : Int) (inode : Nat) (d : Disk) : Except String Start :=
  match d.main .live with
  | some ⟨_, .foreign⟩ => .error "不是 romi 的 DuckDB 数据库；拒绝在此路径上创建或打开数据库，现有文件不会被修改。请换一个不存在的路径，或换一个有效的 romi 数据库"
  | none => .ok ⟨none, Disk.settle d inode (startup writtenBy now Store.blank)⟩
  | some ⟨i, .blank⟩ => .ok ⟨none, Disk.settle d i (startup writtenBy now Store.blank)⟩
  | some ⟨i, .database base⟩ =>
    let db := (d.log .live).getD base
    match storedVersion db with
    | none => .error "这不是 romi 的 DuckDB 数据库"
    | some v =>
      if v ≤ schemaVersion then .ok ⟨some db, Disk.settle d i (startup writtenBy now db)⟩
      else .error s!"数据库 schema 版本为 {v}，高于本服务支持的 {schemaVersion}；请先升级 romi"

/-- A started database names the current version. -/
theorem servable_startup (writtenBy : String) (now : Int) (db : Store) :
    Servable (startup writtenBy now db) :=
  ⟨schemaVersion, storedVersion_initSchema writtenBy now db, le_rfl⟩

/-- A start on a servable live database finds exactly that database. -/
theorem openWith_found {d : Disk} {db : Store} (hc : d.contents .live = some db)
    (hdb : Servable db) (writtenBy : String) (now : Int) (inode : Nat) :
    ∃ s, openWith writtenBy now inode d = .ok s ∧ s.found = some db ∧
      s.disk.contents .live = some (startup writtenBy now db) := by
  obtain ⟨i, base, hlive, hget⟩ := contents_eq_some hc
  obtain ⟨v, hv, hle⟩ := hdb
  refine ⟨⟨some db, Disk.settle d i (startup writtenBy now db)⟩, ?_, rfl, contents_settle _ _ _⟩
  unfold openWith
  rw [hlive]
  dsimp only
  rw [hget, hv]
  dsimp only
  rw [if_pos hle]

/-- A start without a live file creates a new, empty database in its place. -/
theorem openWith_missing {d : Disk} (h : d.main .live = none) (writtenBy : String) (now : Int)
    (inode : Nat) : ∃ s, openWith writtenBy now inode d = .ok s ∧ s.found = none := by
  unfold openWith
  rw [h]
  exact ⟨_, rfl, rfl⟩

/-! ## What may follow -/

/-- An identity no file of the disk has. -/
def Disk.freshInode (d : Disk) : Nat :=
  let used := fun n => ((d.main n).map DbFile.inode).getD 0
  used .live + used .aside + used .staging + 1

/-- A hub in service on the disk's live file with a complete database staged. -/
def Disk.withStaged (d : Disk) (repl : Store) : Hub where
  disk :=
    { main := setAt d.main .staging (some ⟨Disk.freshInode d, .database repl⟩)
      log := setAt d.log .staging none }
  writer := (d.main .live).map DbFile.inode
  prototype := (d.main .live).map DbFile.inode
  readers := (d.main .live).map DbFile.inode
  nextInode := Disk.freshInode d + 1
  trail := []

/-- Later work on the same path. -/
inductive Later
  /-- Another start. -/
  | start (writtenBy : String) (now : Int)
  /-- A restore or a compaction with a complete staging database. -/
  | replace (faults : Faults) (repl : Store) (complete : Servable repl)

/-- The disk and the database last put in service on it. -/
structure Lineage where
  /-- What is on the disk. -/
  disk : Disk
  /-- The store in service. -/
  inService : Store

/-- One later event; a replacement that succeeds puts its database in service. -/
def Later.apply (l : Lineage) : Later → Lineage
  | .start writtenBy now =>
    match openWith writtenBy now (Disk.freshInode l.disk) l.disk with
    | .ok s => ⟨s.disk, (s.found.map fun _ => l.inService).getD (startup writtenBy now Store.blank)⟩
    | .error _ => l
  | .replace faults repl _ =>
    match (Disk.withStaged l.disk repl).activate faults with
    | (.ok _, h) => ⟨h.disk, repl⟩
    | (.error _, h) => ⟨h.disk, l.inService⟩

/-- A database and what starts make of it. -/
inductive Descends (source : Store) : Store → Prop
  /-- The store itself. -/
  | self : Descends source source
  /-- A start of what descends from it. -/
  | start {db : Store} (writtenBy : String) (now : Int) (h : Descends source db) :
    Descends source (startup writtenBy now db)

/-- The live file holds a servable descendant of the database last put in service. -/
def Intact (l : Lineage) : Prop :=
  ∃ db, l.disk.contents .live = some db ∧ Servable db ∧ Descends l.inService db

/-- Neither a start nor a replacement, failed or not, loses the database in service. -/
theorem intact_apply {l : Lineage} (h : Intact l) (e : Later) : Intact (Later.apply l e) := by
  obtain ⟨db, hc, hdb, hdesc⟩ := h
  cases e with
  | start writtenBy now =>
    obtain ⟨s, hopen, hfound, hsettled⟩ := openWith_found hc hdb writtenBy now (Disk.freshInode l.disk)
    simp only [Later.apply, hopen, hfound, Option.map_some, Option.getD_some]
    exact ⟨_, hsettled, servable_startup writtenBy now db, hdesc.start writtenBy now⟩
  | replace faults repl complete =>
    obtain ⟨i, base, hlive, hget⟩ := contents_eq_some hc
    have hserve : Serving (Disk.withStaged l.disk repl) db := by
      refine ⟨?_, rfl, rfl, rfl⟩
      exact hc
    have hstaged : Staged (Disk.withStaged l.disk repl) repl := by
      refine ⟨rfl, rfl, ?_⟩
      change some (Disk.freshInode l.disk) ≠ (l.disk.main .live).map DbFile.inode
      rw [hlive]
      simp only [Disk.freshInode, hlive, Option.map_some, Option.getD_some, ne_eq, Option.some.injEq]
      omega
    rcases activate_spec hserve hstaged hdb faults with ⟨hok, hnew, -, -, -⟩ | ⟨⟨e, herr⟩, hold⟩
    · have happly : Later.apply l (.replace faults repl complete) =
          ⟨((Disk.withStaged l.disk repl).activate faults).2.disk, repl⟩ := by
        rw [Later.apply]
        split
        · rename_i h' hact
          rw [hact]
        · rename_i e h' hact
          rw [hact] at hok
          cases hok
      rw [happly]
      exact ⟨repl, hnew.contents, complete, .self⟩
    · have happly : Later.apply l (.replace faults repl complete) =
          ⟨((Disk.withStaged l.disk repl).activate faults).2.disk, l.inService⟩ := by
        rw [Later.apply]
        split
        · rename_i h' hact
          rw [hact] at herr
          cases herr
        · rename_i e h' hact
          rw [hact]
      rw [happly]
      exact ⟨db, hold.contents, hdb, hdesc⟩

/-- A lineage stays intact over all that comes later. -/
theorem intact_run {l : Lineage} (h : Intact l) (events : List Later) :
    Intact (events.foldl Later.apply l) := by
  induction events generalizing l with
  | nil => exact h
  | cons e rest ih => exact ih (intact_apply h e)

/-! ## Crash points -/

/-- The disks a process can leave that dies between two filesystem steps of a
replacement, the one before the first step included. -/
def crashPoints (h : Hub) (faults : Faults) : List Disk :=
  h.disk :: (h.activate faults).2.trail.drop h.trail.length

/-- The next start opens the original or the replacement, and whatever starts
and replacements follow, the live file descends from the database that was
last put in service: no copy is lost that is still needed. -/
def CrashSafe (orig repl : Store) (d : Disk) : Prop :=
  ∃ db, (db = orig ∨ db = repl) ∧
    (∀ writtenBy now inode, ∃ s, openWith writtenBy now inode d = .ok s ∧ s.found = some db) ∧
    ∀ events : List Later, Intact (events.foldl Later.apply ⟨d, db⟩)

/-- A disk whose live file is a servable original or replacement is safe. -/
theorem crashSafe_of_contents {orig repl db : Store} {d : Disk} (hdb : db = orig ∨ db = repl)
    (hserv : Servable db) (hc : d.contents .live = some db) : CrashSafe orig repl d := by
  refine ⟨db, hdb, ?_, ?_⟩
  · intro writtenBy now inode
    obtain ⟨s, hopen, hfound, -⟩ := openWith_found hc hserv writtenBy now inode
    exact ⟨s, hopen, hfound⟩
  · intro events
    exact intact_run ⟨db, hc, hserv, .self⟩ events

/-- A disk without a live file is not. -/
theorem not_crashSafe_of_missing {orig repl : Store} {d : Disk} (h : d.main .live = none) :
    ¬ CrashSafe orig repl d := by
  rintro ⟨db, -, hopen, -⟩
  obtain ⟨s, hs, hfound⟩ := hopen "" 0 0
  obtain ⟨s', hs', hnone⟩ := openWith_missing h "" 0 0
  rw [hs, Except.ok.injEq] at hs'
  rw [hs', hnone] at hfound
  cases hfound

/-- The number of filesystem steps after which the live name stands for
nothing: the original has been moved aside and neither the replacement moved
in nor, after a failure, the original moved back. -/
def inGap (faults : Faults) (k : Nat) : Prop :=
  faults.moveAside = none ∧
    (k = 4 ∨ (faults.moveIn.isSome = true ∧ k = 5) ∨
      (faults.moveIn = none ∧ faults.reopen.isSome = true ∧ (k = 7 ∨ k = 8)))

instance (faults : Faults) (k : Nat) : Decidable (inGap faults k) := by
  unfold inGap
  infer_instance

/-- A statement about each entry of a list and its position. -/
def EachFrom (P : Nat → Disk → Prop) : Nat → List Disk → Prop
  | _, [] => True
  | n, d :: rest => P n d ∧ EachFrom P (n + 1) rest

/-- The property of the one at an index. -/
theorem EachFrom.get {P : Nat → Disk → Prop} {n k : Nat} {list : List Disk} {d : Disk}
    (h : EachFrom P n list) (hk : list[k]? = some d) : P (n + k) d := by
  induction list generalizing n k with
  | nil => cases hk
  | cons x rest ih =>
    obtain ⟨hx, hrest⟩ := h
    cases k with
    | zero =>
      cases hk
      exact hx
    | succ k =>
      have hstep := ih hrest hk
      rwa [Nat.add_right_comm] at hstep

/-- The crash points of a replacement whose trail is known. -/
theorem crashPoints_eq {h h' : Hub} {w : Swap} {faults : Faults} {r : Except String Unit}
    {after : List Disk} (hact : h.activate faults = (r, h'))
    (htrail : h'.trail = h.trail ++ w.opening h.disk ++ after) :
    crashPoints h faults = h.disk :: h.disk.removeMain .aside ::
      (h.disk.removeMain .aside).removeLog .aside :: w.kept :: after := by
  rw [crashPoints, hact]
  dsimp only
  rw [htrail, List.append_assoc, List.drop_left]
  rfl

section Gap

variable {faults : Faults} {e : String} {f : ReopenStep × String}

/-- Where the original is not moved aside there is no gap. -/
theorem not_inGap_of_moveAside (hf : faults.moveAside = some e) (k : Nat) : ¬ inGap faults k := by
  rintro ⟨hnone, -⟩
  rw [hf] at hnone
  cases hnone

/-- Where the replacement is not moved in, the original is missing until it is back. -/
theorem inGap_of_moveIn (hf : faults.moveAside = none) (hg : faults.moveIn = some e) (k : Nat) :
    inGap faults k ↔ k = 4 ∨ k = 5 := by
  simp only [inGap, hf, hg, Option.isSome_some, true_and, reduceCtorEq, false_and, or_false]

/-- Where it is not reopened, both are missing while it is taken out. -/
theorem inGap_of_reopen (hf : faults.moveAside = none) (hg : faults.moveIn = none)
    (hr : faults.reopen = some f) (k : Nat) : inGap faults k ↔ k = 4 ∨ k = 7 ∨ k = 8 := by
  simp only [inGap, hf, hg, hr, Option.isSome_some, Option.isSome_none, true_and,
    Bool.false_eq_true, false_and, false_or]

/-- Otherwise only the two renames are apart. -/
theorem inGap_of_none (hf : faults.moveAside = none) (hg : faults.moveIn = none)
    (hr : faults.reopen = none) (k : Nat) : inGap faults k ↔ k = 4 := by
  simp only [inGap, hf, hg, hr, Option.isSome_none, true_and, Bool.false_eq_true, false_and,
    and_false, or_false]

end Gap

/-- A process that dies between two steps of a replacement leaves a safe disk
exactly when it does not die in the gap between the two renames. -/
theorem crashSafe_iff_not_inGap (h : Hub) (orig repl : Store) (hs : Serving h orig)
    (ht : Staged h repl) (hold : Servable orig) (hnew : Servable repl) (faults : Faults)
    (k : Nat) (d : Disk) (hk : (crashPoints h faults)[k]? = some d) :
    CrashSafe orig repl d ↔ ¬ inGap faults k := by
  obtain ⟨w, rfl, rfl, -, hclosed⟩ := exists_swap hs ht
  have safe : ∀ {j d'}, CrashSafe w.original w.replacement d' → ¬ inGap faults j →
      (CrashSafe w.original w.replacement d' ↔ ¬ inGap faults j) := iff_of_true
  have lost : ∀ {j d'}, ¬ CrashSafe w.original w.replacement d' → inGap faults j →
      (CrashSafe w.original w.replacement d' ↔ ¬ inGap faults j) :=
    fun hd hj => iff_of_false hd (not_not_intro hj)
  -- What each disk of a replacement shows under the live name.
  have hstart : CrashSafe w.original w.replacement h.disk :=
    crashSafe_of_contents (.inl rfl) hold hs.contents
  have haside : CrashSafe w.original w.replacement (h.disk.removeMain .aside) :=
    crashSafe_of_contents (.inl rfl) hold hs.contents
  have hlog : CrashSafe w.original w.replacement ((h.disk.removeMain .aside).removeLog .aside) :=
    crashSafe_of_contents (.inl rfl) hold hs.contents
  have hkept : CrashSafe w.original w.replacement w.kept :=
    crashSafe_of_contents (.inl rfl) hold rfl
  have hundone : CrashSafe w.original w.replacement w.undone :=
    crashSafe_of_contents (.inl rfl) hold rfl
  have hswitched : CrashSafe w.original w.replacement w.switched :=
    crashSafe_of_contents (.inr rfl) hnew rfl
  have hfinished : CrashSafe w.original w.replacement w.finished :=
    crashSafe_of_contents (.inr rfl) hnew rfl
  have hparted : ¬ CrashSafe w.original w.replacement w.parted := not_crashSafe_of_missing rfl
  have hcleared : ¬ CrashSafe w.original w.replacement w.cleared := not_crashSafe_of_missing rfl
  suffices hall : EachFrom (fun j d' => CrashSafe w.original w.replacement d' ↔ ¬ inGap faults j) 0
      (crashPoints h faults) by
    have hget := hall.get hk
    rwa [Nat.zero_add] at hget
  cases hf : faults.moveAside with
  | some e =>
    obtain ⟨m, n, hact⟩ := activate_moveAside hclosed hold hf
    have hno := not_inGap_of_moveAside hf
    rw [crashPoints_eq hact rfl]
    exact ⟨safe hstart (hno 0), safe haside (hno 1), safe hlog (hno 2), safe hkept (hno 3),
      safe hkept (hno 4), safe hkept (hno 5), trivial⟩
  | none =>
    cases hg : faults.moveIn with
    | some e =>
      obtain ⟨m, n, hact⟩ := activate_moveIn hclosed hold hf hg
      have hgap := inGap_of_moveIn hf hg
      have hno : ∀ {j}, ¬ (j = 4 ∨ j = 5) → ¬ inGap faults j := fun hj => (hgap _).not.mpr hj
      rw [crashPoints_eq hact rfl]
      exact ⟨safe hstart (hno (by decide)), safe haside (hno (by decide)),
        safe hlog (hno (by decide)), safe hkept (hno (by decide)),
        lost hparted ((hgap 4).mpr (by decide)), lost hparted ((hgap 5).mpr (by decide)),
        safe hkept (hno (by decide)), safe hkept (hno (by decide)), trivial⟩
    | none =>
      cases hr : faults.reopen with
      | some f =>
        obtain ⟨m, n, hact⟩ := activate_reopenFails hclosed hold hf hg (.inl (by rw [hr]; rfl))
        have hgap := inGap_of_reopen hf hg hr
        have hno : ∀ {j}, ¬ (j = 4 ∨ j = 7 ∨ j = 8) → ¬ inGap faults j :=
          fun hj => (hgap _).not.mpr hj
        rw [crashPoints_eq hact rfl]
        exact ⟨safe hstart (hno (by decide)), safe haside (hno (by decide)),
          safe hlog (hno (by decide)), safe hkept (hno (by decide)),
          lost hparted ((hgap 4).mpr (by decide)), safe hswitched (hno (by decide)),
          safe hswitched (hno (by decide)), lost hcleared ((hgap 7).mpr (by decide)),
          lost hcleared ((hgap 8).mpr (by decide)), safe hundone (hno (by decide)),
          safe hundone (hno (by decide)), trivial⟩
      | none =>
        obtain ⟨n, hact⟩ := activate_ok hclosed hf hg hr hnew
        have hgap := inGap_of_none hf hg hr
        have hno : ∀ {j}, j ≠ 4 → ¬ inGap faults j := fun hj => (hgap _).not.mpr hj
        rw [crashPoints_eq hact rfl]
        exact ⟨safe hstart (hno (by decide)), safe haside (hno (by decide)),
          safe hlog (hno (by decide)), safe hkept (hno (by decide)),
          lost hparted ((hgap 4).mpr rfl), safe hswitched (hno (by decide)),
          safe hswitched (hno (by decide)), safe hfinished (hno (by decide)),
          safe hfinished (hno (by decide)), trivial⟩

/-- The swap of two databases just created. -/
def freshSwap : Swap := ⟨0, 1, Store.fresh "romi" 0, Store.fresh "romi" 1⟩

/-- A replacement no step of which fails. -/
def Faults.clear : Faults := ⟨none, none, none⟩

/-- A replacement no step of which fails succeeds and leaves no aside file. -/
theorem activate_clear {h : Hub} {orig repl : Store} (hs : Serving h orig) (ht : Staged h repl)
    (hnew : Servable repl) : (h.activate Faults.clear).1 = .ok () ∧
      (h.activate Faults.clear).2.disk.main .aside = none := by
  obtain ⟨w, rfl, rfl, -, hclosed⟩ := exists_swap hs ht
  have hclear : Faults.clear.moveAside = none := rfl
  obtain ⟨n, hact⟩ := activate_ok hclosed hclear rfl rfl hnew
  rw [hact]
  exact ⟨rfl, rfl⟩

/-- Four steps into a restore that meets no failure nothing is live. -/
theorem crashPoints_fresh : (crashPoints freshHub Faults.clear)[4]? = some freshSwap.parted := by
  have hclear : Faults.clear.moveAside = none := rfl
  obtain ⟨n, hact⟩ := activate_ok (closeHandles_of_disk (h := freshHub) rfl) hclear rfl rfl
    (servable_fresh "romi" 1)
  rw [crashPoints_eq hact rfl]
  rfl

/-- A restore that meets no failure, with the process dying between the renames. -/
theorem crashSafe_iff_not_inGap_fresh :
    ¬ CrashSafe (Store.fresh "romi" 0) (Store.fresh "romi" 1) freshSwap.parted := by
  have h := crashSafe_iff_not_inGap freshHub (Store.fresh "romi" 0) (Store.fresh "romi" 1)
    freshHub_serving freshHub_staged (servable_fresh "romi" 0) (servable_fresh "romi" 1)
    Faults.clear 4 freshSwap.parted crashPoints_fresh
  exact fun hsafe => (h.mp hsafe) ⟨rfl, .inl rfl⟩

/-- A hub started on a settled disk serves the settled database. -/
theorem serving_withStaged_settle (d : Disk) (inode : Nat) (db repl : Store) :
    Serving (Disk.withStaged (Disk.settle d inode db) repl) db := ⟨rfl, rfl, rfl, rfl⟩

/-- A replacement staged beside a store that is settled. -/
theorem staged_withStaged_settle (d : Disk) (inode : Nat) (db repl : Store) :
    Staged (Disk.withStaged (Disk.settle d inode db) repl) repl := by
  refine ⟨rfl, rfl, ?_⟩
  change some (Disk.freshInode (Disk.settle d inode db)) ≠ some inode
  rw [ne_eq, Option.some.injEq]
  change ¬ inode + _ + _ + 1 = inode
  omega

/-- Dying between the two renames, starting again and restoring once more:
the start creates an empty database and the second restore deletes the file
that held the original. -/
theorem crash_between_renames_loses_original :
    (crashPoints freshHub Faults.clear)[4]? = some freshSwap.parted ∧
      ¬ CrashSafe (Store.fresh "romi" 0) (Store.fresh "romi" 1) freshSwap.parted ∧
      freshSwap.parted.contents .aside = some (Store.fresh "romi" 0) ∧
      ∃ s, openWith "romi" 2 2 freshSwap.parted = .ok s ∧ s.found = none ∧
        ((Disk.withStaged s.disk (Store.fresh "romi" 3)).activate Faults.clear).2.disk.main
          .aside = none := by
  refine ⟨crashPoints_fresh, not_crashSafe_of_missing rfl, rfl, ?_⟩
  refine ⟨⟨none, Disk.settle freshSwap.parted 2 (startup "romi" 2 Store.blank)⟩, rfl, rfl, ?_⟩
  exact (activate_clear (serving_withStaged_settle _ _ _ _) (staged_withStaged_settle _ _ _ _)
    (servable_fresh "romi" 3)).2

end Romi.CrashRecovery
