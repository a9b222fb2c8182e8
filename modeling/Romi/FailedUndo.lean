import Romi.LiveDatabase

/-!
# A replacement whose undo fails as well

A switch that fails closes every handle, renames the original back and opens
it again, and each of these can fail too. The hub is then left without a
connection, and its live path shows the original, the replacement or nothing.
-/

namespace Romi.FailedUndo

open ArchiveTables BackupArchive CachedTransactions FileSwap KeyedTable LiveDatabase RestoreStaging
  StoreSchema

/-! ## The steps of coming back -/

/-- Which of them fail. -/
structure UndoFaults where
  /-- Removing the new file. -/
  removeNew : Bool
  /-- Removing its log. -/
  removeLog : Bool
  /-- Moving the original back, with the text of the error. -/
  moveBack : Option String
  /-- One of the steps of opening it again. -/
  reopen : Option (ReopenStep × String)

/-- None of them. -/
def UndoFaults.none : UndoFaults := ⟨false, false, .none, .none⟩

/-- The undo of a failed reopen. -/
def rollBackWith (undo : UndoFaults) (h : Hub) (e : String) : Except String Unit × Hub :=
  let h := h.step fun d => if undo.removeNew then d else d.removeMain .live
  let h := h.step fun d => if undo.removeLog then d else d.removeLog .live
  match undo.moveBack with
  | some re =>
    (.error s!"恢复失败且回滚也失败：{e}；回滚错误：renaming the original database back: {re}", h.step id)
  | none =>
    match (h.step fun d => d.rename .aside .live).reopen undo.reopen with
    | (.ok _, h) => (.error s!"恢复失败，已回滚到原数据库：{e}", h)
    | (.error re, h) => (.error s!"恢复失败且回滚也失败：{e}；回滚错误：{re}", h)

/-- From the moment the original is aside; the result of moving it back after
a failed move is not looked at. -/
def publishWith (faults : Faults) (undo : UndoFaults) (h : Hub) : Except String Unit × Hub :=
  match faults.moveIn with
  | some e =>
    let h := h.step id
    let h := h.step fun d => if undo.moveBack.isSome then d else d.rename .aside .live
    match h.reopen undo.reopen with
    | (.ok _, h) => (.error s!"发布新数据库失败（{e}）；已回滚到原数据库", h)
    | (.error re, h) => (.error s!"发布新数据库失败（{e}），且回滚后重新打开原库失败（{re}）", h)
  | none =>
    match (h.step fun d => d.rename .staging .live).reopen faults.reopen with
    | (.ok _, h) => (.ok (), h.discardAside)
    | (.error e, h) => rollBackWith undo h e

/-- `activate` on a file-backed hub. -/
def activateWith (faults : Faults) (undo : UndoFaults) (h : Hub) : Except String Unit × Hub :=
  let h := h.step fun d => d.removeMain .aside
  let h := h.step fun d => d.removeLog .aside
  let h := h.closeHandles
  match faults.moveAside with
  | some e =>
    match (h.step id).reopen undo.reopen with
    | (.ok _, h) => (.error s!"无法移开当前数据库（{e}）；原库未被改动", h)
    | (.error re, h) => (.error s!"无法移开当前数据库（{e}），且重新打开它也失败（{re}）", h)
  | none => publishWith faults undo (h.step fun d => d.rename .live .aside)

/-- When no step of the undo fails this is the replacement of `FileSwap`. -/
theorem activateWith_none (faults : Faults) (h : Hub) :
    activateWith faults .none h = h.activate faults := by
  obtain ⟨moveAside, moveIn, reopen⟩ := faults
  cases moveAside with
  | some e => rfl
  | none =>
    cases moveIn with
    | some e => rfl
    | none => rfl

/-! ## What a hub can be left with -/

/-- Every database the live path shows has the property. -/
def Shows (P : Store → Prop) (d : Disk) : Prop := ∀ db, d.contents .live = some db → P db

/-- No handle is open: the writer has no connection, there is no prototype, and
the reader pool is the empty one. -/
def Closed (h : Hub) : Prop := h.writer = none ∧ h.prototype = none ∧ h.readers = none

/-- In service on such a database, or closed. -/
def Left (P : Store → Prop) (h : Hub) : Prop :=
  (∃ db, Serving h db ∧ P db) ∨ (Closed h ∧ Shows P h.disk)

/-- Every disk the second hub has added to the trail of the first does. -/
def Passes (P : Store → Prop) (h h' : Hub) : Prop :=
  ∃ after, h'.trail = h.trail ++ after ∧ ∀ d ∈ after, Shows P d

variable {P : Store → Prop}

/-- A hub that stays where it is passes nothing. -/
theorem Passes.refl (h : Hub) : Passes P h h := ⟨[], (List.append_nil _).symm, nofun⟩

/-- One way after the other. -/
theorem Passes.trans {a b c : Hub} (h : Passes P a b) (h' : Passes P b c) : Passes P a c := by
  obtain ⟨first, hfirst, hshows⟩ := h
  obtain ⟨second, hsecond, hshows'⟩ := h'
  refine ⟨first ++ second, by rw [hsecond, hfirst, List.append_assoc], ?_⟩
  intro d hd
  rcases List.mem_append.mp hd with hd | hd
  · exact hshows d hd
  · exact hshows' d hd

/-- One step onto a disk that shows it. -/
theorem Passes.step {h : Hub} {f : Disk → Disk} (hf : Shows P (f h.disk)) : Passes P h (h.step f) := by
  refine ⟨[f h.disk], rfl, ?_⟩
  intro d hd
  rwa [List.mem_singleton.mp hd]

/-- What is left shows it. -/
theorem Left.shows {h : Hub} (hl : Left P h) : Shows P h.disk := by
  rcases hl with ⟨db, hs, hdb⟩ | ⟨-, hshows⟩
  · intro db' hc
    rwa [← Option.some.inj (hs.contents.symm.trans hc)]
  · exact hshows

/-! ## Reopening -/

/-- Opening a path creates an empty file at most. -/
theorem contents_opened (d : Disk) (inode : Nat) :
    (d.opened inode).contents .live = d.contents .live := by
  unfold Disk.opened
  split
  · rfl
  · rename_i hnone
    unfold Disk.contents
    rw [hnone]
    rfl

/-- A reopen puts in service what the live path shows or leaves the hub closed. -/
theorem reopen_spec {h : Hub} (hclosed : Closed h) (hshows : Shows P h.disk)
    (fault : Option (ReopenStep × String)) :
    Passes P h (h.reopen fault).2 ∧ (((h.reopen fault).1 = .ok () ∧
        (h.reopen fault).2.disk.contents .live = h.disk.contents .live ∧
        ∃ db, Serving (h.reopen fault).2 db ∧ P db) ∨
      ((∃ e, (h.reopen fault).1 = .error e) ∧ Closed (h.reopen fault).2 ∧
        Shows P (h.reopen fault).2.disk)) := by
  have hopened : Shows P (h.disk.opened h.nextInode) := by
    intro db hc
    rw [contents_opened] at hc
    exact hshows db hc
  have hpasses : Passes P h { h.step (fun d => d.opened h.nextInode) with
      nextInode := h.nextInode + 1 } := by
    obtain ⟨after, htrail, hafter⟩ := Passes.step (f := fun d => d.opened h.nextInode) hopened
    exact ⟨after, htrail, hafter⟩
  cases fault with
  | some f =>
    obtain ⟨broken, e⟩ := f
    cases broken with
    | openConnection => exact ⟨Passes.step hshows, .inr ⟨⟨e, rfl⟩, hclosed, hshows⟩⟩
    | _ => exact ⟨hpasses, .inr ⟨⟨e, rfl⟩, hclosed, hopened⟩⟩
  | none =>
    simp only [Hub.reopen]
    cases hversion : (h.step fun d => d.opened h.nextInode).disk.liveVersion with
    | none => exact ⟨hpasses, .inr ⟨⟨_, rfl⟩, hclosed, hopened⟩⟩
    | some v =>
      dsimp only
      split
      · obtain ⟨db, hc, -⟩ := Option.bind_eq_some_iff.mp hversion
        exact ⟨hpasses, .inl ⟨rfl, contents_opened _ _, db, ⟨hc, rfl, rfl, rfl⟩, hopened db hc⟩⟩
      · exact ⟨hpasses, .inr ⟨⟨_, rfl⟩, hclosed, hopened⟩⟩

/-- Reopening a file that is there does not touch it. -/
theorem disk_reopen {h : Hub} {f : DbFile} (hlive : h.disk.main .live = some f)
    (fault : Option (ReopenStep × String)) : (h.reopen fault).2.disk = h.disk := by
  have hopen : h.disk.opened h.nextInode = h.disk := by
    unfold Disk.opened
    rw [hlive]
  cases fault with
  | some g =>
    obtain ⟨broken, e⟩ := g
    cases broken with
    | openConnection => rfl
    | _ => exact hopen
  | none =>
    simp only [Hub.reopen]
    split
    · exact hopen
    · split
      · exact hopen
      · exact hopen

/-! ## How a replacement ends -/

/-- It succeeded and the replacement is in service, or it failed and the
original is or the hub is closed; the live path shows a database with the
property or none, then and on the way. -/
def Ends (P : Store → Prop) (orig repl : Store) (h : Hub) (o : Except String Unit × Hub) : Prop :=
  Passes P h o.2 ∧ ((o.1 = .ok () ∧ Serving o.2 repl) ∨
    ((∃ e, o.1 = .error e) ∧ (Serving o.2 orig ∨ (Closed o.2 ∧ Shows P o.2.disk))))

/-- What is done before the end belongs to the way. -/
theorem Ends.after {orig repl : Store} {h h' : Hub} {o : Except String Unit × Hub}
    (hends : Ends P orig repl h' o) (hpasses : Passes P h h') : Ends P orig repl h o :=
  ⟨hpasses.trans hends.1, hends.2⟩

/-- Who shows the old store shows one of these. -/
theorem Shows.original {orig : Store} {d : Disk} (h : Shows (· = orig) d) (horig : P orig) :
    Shows P d := by
  intro db hc
  rwa [h db hc]

/-- Coming back is a failure whether the reopen works or not. -/
theorem ends_reopen {orig repl : Store} {h : Hub} (horig : P orig) (hclosed : Closed h)
    (hshows : Shows (· = orig) h.disk) (fault : Option (ReopenStep × String)) (back : String)
    (lost : String → String) :
    Ends P orig repl h (match h.reopen fault with
      | (.ok _, h) => (.error back, h)
      | (.error re, h) => (.error (lost re), h)) := by
  have hspec := reopen_spec hclosed hshows fault
  generalize h.reopen fault = o at hspec
  obtain ⟨r, h'⟩ := o
  obtain ⟨⟨after, htrail, hafter⟩, hcame⟩ := hspec
  have hpasses : Passes P h h' := ⟨after, htrail, fun d hd => (hafter d hd).original horig⟩
  rcases hcame with ⟨rfl, -, db, hserving, rfl⟩ | ⟨⟨e, rfl⟩, hstill, hshows'⟩
  · exact ⟨hpasses, .inr ⟨⟨back, rfl⟩, .inl hserving⟩⟩
  · exact ⟨hpasses, .inr ⟨⟨lost e, rfl⟩, .inr ⟨hstill, hshows'.original horig⟩⟩⟩

section Disks

variable {w : Swap} (a s : Option DbFile) (la ls : Option Store)

/-- The old file shows the old store. -/
theorem shows_old : Shows (· = w.original) (Disk.of w.old a s none la ls) := by
  intro db hc
  cases hc
  rfl

/-- The new one shows the new. -/
theorem shows_new (h : P w.replacement) : Shows P (Disk.of w.new a s none la ls) := by
  intro db hc
  cases hc
  exact h

/-- No file shows anything. -/
theorem shows_missing (ll : Option Store) : Shows P (Disk.of none a s ll la ls) := by
  intro db hc
  cases hc

end Disks

/-- One step of a closed hub to a known disk. -/
theorem closed_step {h h' : Hub} {f : Disk → Disk} {d : Disk} (hstep : h.step f = h')
    (hclosed : Closed h) (hf : f h.disk = d) (hshows : Shows P d) :
    h'.disk = d ∧ Closed h' ∧ Passes P h h' := by
  subst hstep hf
  exact ⟨rfl, hclosed, Passes.step hshows⟩

section Replacement

variable {w : Swap} (horig : P w.original) (hrepl : P w.replacement)

include horig hrepl

/-- The undo of a reopen that failed with the replacement live. -/
theorem rollBackWith_ends {h : Hub} (hclosed : Closed h) (hd : h.disk = w.switched)
    (undo : UndoFaults) (e : String) :
    Ends P w.original w.replacement h (rollBackWith undo h e) := by
  obtain ⟨l, hlive, hmain⟩ : ∃ l, Shows P (Disk.of l w.old none none none none) ∧
      (if undo.removeNew then h.disk else h.disk.removeMain .live) =
        Disk.of l w.old none none none none := by
    rw [hd]
    cases undo.removeNew with
    | true => exact ⟨w.new, shows_new _ _ _ _ hrepl, rfl⟩
    | false => exact ⟨none, shows_missing _ _ _ _ _, removeMain_live _ _ _ _ _ _⟩
  have hlog : (if undo.removeLog then Disk.of l w.old none none none none
      else (Disk.of l w.old none none none none).removeLog .live) =
        Disk.of l w.old none none none none := by
    cases undo.removeLog with
    | true => rfl
    | false => exact removeLog_live _ _ _ _ _ _
  unfold rollBackWith
  dsimp only
  generalize hfirst : h.step (fun d => if undo.removeNew then d else d.removeMain .live) = h₁
  obtain ⟨hd₁, hclosed₁, hpasses₁⟩ := closed_step hfirst hclosed hmain hlive
  refine Ends.after ?_ hpasses₁
  generalize hsecond : h₁.step (fun d => if undo.removeLog then d else d.removeLog .live) = h₂
  obtain ⟨hd₂, hclosed₂, hpasses₂⟩ := closed_step hsecond hclosed₁ (by rw [hd₁]; exact hlog) hlive
  refine Ends.after ?_ hpasses₂
  cases undo.moveBack with
  | some re =>
    have hshows : Shows P h₂.disk := by rwa [hd₂]
    exact ⟨Passes.step hshows, .inr ⟨⟨_, rfl⟩, .inr ⟨hclosed₂, hshows⟩⟩⟩
  | none =>
    dsimp only
    generalize hthird : h₂.step (fun d => d.rename .aside .live) = h₃
    have hundone : Shows (· = w.original) w.undone := shows_old _ _ _ _
    obtain ⟨hd₃, hclosed₃, hpasses₃⟩ := closed_step hthird hclosed₂
      (by rw [hd₂]; exact rename_aside_live _ _ _ _ _ _) (hundone.original horig)
    exact Ends.after (ends_reopen horig hclosed₃ (by rwa [hd₃]) _ _ _) hpasses₃

/-- From the moment the original is aside. -/
theorem publishWith_ends {h : Hub} (hclosed : Closed h) (hd : h.disk = w.parted)
    (faults : Faults) (undo : UndoFaults) :
    Ends P w.original w.replacement h (publishWith faults undo h) := by
  have hparted : Shows (· = w.original) w.parted := shows_missing _ _ _ _ _
  have hkept : Shows (· = w.original) w.kept := shows_old _ _ _ _
  have hswitched : Shows P w.switched := shows_new _ _ _ _ hrepl
  unfold publishWith
  cases faults.moveIn with
  | some e =>
    dsimp only
    generalize hfirst : h.step id = h₁
    obtain ⟨hd₁, hclosed₁, hpasses₁⟩ := closed_step hfirst hclosed hd (hparted.original horig)
    refine Ends.after ?_ hpasses₁
    obtain ⟨d, hshows, hback⟩ : ∃ d, Shows (· = w.original) d ∧
        (if undo.moveBack.isSome then h₁.disk else h₁.disk.rename .aside .live) = d := by
      rw [hd₁]
      cases undo.moveBack with
      | some re => exact ⟨w.parted, hparted, rfl⟩
      | none => exact ⟨w.kept, hkept, rename_aside_live _ _ _ _ _ _⟩
    generalize hsecond : h₁.step
      (fun d => if undo.moveBack.isSome then d else d.rename .aside .live) = h₂
    obtain ⟨hd₂, hclosed₂, hpasses₂⟩ :=
      closed_step hsecond hclosed₁ hback (hshows.original horig)
    exact Ends.after (ends_reopen horig hclosed₂ (by rwa [hd₂]) _ _ _) hpasses₂
  | none =>
    dsimp only
    generalize hfirst : h.step (fun d => d.rename .staging .live) = h₁
    obtain ⟨hd₁, hclosed₁, hpasses₁⟩ := closed_step hfirst hclosed
      (by rw [hd]; exact rename_staging_live _ _ _ _ _ _) hswitched
    refine Ends.after ?_ hpasses₁
    have hlive : h₁.disk.main .live = w.new := by
      rw [hd₁]
      rfl
    have hdisk : (h₁.reopen faults.reopen).2.disk = w.switched :=
      (disk_reopen hlive faults.reopen).trans hd₁
    have hreopen := reopen_spec hclosed₁ (show Shows P h₁.disk by rwa [hd₁]) faults.reopen
    generalize h₁.reopen faults.reopen = o at hreopen hdisk
    obtain ⟨r, h₂⟩ := o
    obtain ⟨hpasses₂, ⟨rfl, -, db, hserving, -⟩ | ⟨⟨e, rfl⟩, hclosed₂, -⟩⟩ := hreopen
    · have hrepl' : db = w.replacement := by
        have hcontents := hserving.contents
        rw [show h₂.disk = w.switched from hdisk] at hcontents
        cases hcontents
        rfl
      subst hrepl'
      have haside : Serving (h₂.step fun d => d.removeMain .aside) w.replacement :=
        Serving.beside hserving rfl rfl
      have hlog : Serving ((h₂.step fun d => d.removeMain .aside).step fun d => d.removeLog .aside)
          w.replacement := Serving.beside haside rfl rfl
      have hshows₁ := Left.shows (P := P) (.inl ⟨_, haside, hrepl⟩)
      have hshows₂ := Left.shows (P := P) (.inl ⟨_, hlog, hrepl⟩)
      exact ⟨hpasses₂.trans ((Passes.step hshows₁).trans (Passes.step hshows₂)),
        .inl ⟨rfl, hlog⟩⟩
    · exact Ends.after (rollBackWith_ends horig hrepl hclosed₂ hdisk undo e) hpasses₂

end Replacement

/-- Whatever fails, the undo included: after a success the replacement is in
service, after a failure the original is or the hub is closed, and on the way
the live path shows no third database. -/
theorem activateWith_ends {h : Hub} {orig repl : Store} (hc : h.disk.contents .live = some orig)
    (ht : Staged h repl) (horig : P orig) (hrepl : P repl) (faults : Faults) (undo : UndoFaults) :
    Ends P orig repl h (activateWith faults undo h) := by
  obtain ⟨w, rfl, rfl, -, hswap⟩ := exists_swap_of_contents hc ht
  have hkept : Shows (· = w.original) w.kept := shows_old _ _ _ _
  have hshows : Shows P h.disk := by
    intro db hdb
    rwa [← Option.some.inj (hc.symm.trans hdb)]
  unfold activateWith
  dsimp only
  rw [hswap]
  have hpasses : Passes P h (Swap.closed w.kept h.nextInode (h.trail ++ w.opening h.disk)) := by
    refine ⟨w.opening h.disk, rfl, ?_⟩
    intro d hd
    simp only [Swap.opening, List.mem_cons, List.not_mem_nil, or_false] at hd
    rcases hd with rfl | rfl | rfl
    · exact hshows
    · exact hshows
    · exact hkept.original horig
  generalize hclose : Swap.closed w.kept h.nextInode (h.trail ++ w.opening h.disk) = h₁ at hpasses
  have hd₁ : h₁.disk = w.kept := by rw [← hclose]; rfl
  have hclosed₁ : Closed h₁ := by
    rw [← hclose]
    exact ⟨rfl, rfl, rfl⟩
  refine Ends.after ?_ hpasses
  cases faults.moveAside with
  | some e =>
    dsimp only
    generalize hfirst : h₁.step id = h₂
    obtain ⟨hd₂, hclosed₂, hpasses₂⟩ := closed_step hfirst hclosed₁ hd₁ (hkept.original horig)
    exact Ends.after (ends_reopen horig hclosed₂ (by rwa [hd₂]) _ _ _) hpasses₂
  | none =>
    dsimp only
    generalize hfirst : h₁.step (fun d => d.rename .live .aside) = h₂
    obtain ⟨hd₂, hclosed₂, hpasses₂⟩ := closed_step hfirst hclosed₁
      (by rw [hd₁]; exact rename_live_aside _ _ _ _ _ _) (shows_missing (P := P) _ _ _ _ _)
    exact Ends.after (publishWith_ends horig hrepl hclosed₂ hd₂ faults undo) hpasses₂

/-- The new file does not open, the original cannot be moved back, and the hub
is left closed. -/
theorem activateWith_ends_stuck :
    let ended := activateWith ⟨none, none, some (.openConnection, "locked")⟩
      ⟨false, false, some "busy", none⟩ freshHub
    Ends (· ∈ [Store.fresh "romi" 0, Store.fresh "romi" 1]) (Store.fresh "romi" 0)
      (Store.fresh "romi" 1) freshHub ended ∧ Closed ended.2 :=
  ⟨activateWith_ends freshHub_serving.contents freshHub_staged List.mem_cons_self
    (List.mem_cons_of_mem _ List.mem_cons_self) _ _, rfl, rfl, rfl⟩

/-! ## Restore and compaction -/

/-- `activate`. -/
def switchWith (faults : SwitchFaults) (undo : UndoFaults) (staged : Store) :
    Live → Except Failure Unit × Live
  | .file h =>
    match activateWith faults.file undo h with
    | (.ok _, h) => (.ok (), .file h)
    | (.error e, h) => (.error (.declined e), .file h)
  | .memory db =>
    let (r, db) := replaceContents faults.memory staged db
    (r, .memory db)

/-- `restore`. -/
def restoreWith {β : Type} (lib : Libraries β) (host : RestoreHost) (undo : UndoFaults) (archive : β)
    (live : Live) : Except Failure BackupReport × Live :=
  match buildStaging lib host.staging host.writtenBy host.now archive live.floor with
  | .error e => (.error e, live.dropStaging)
  | .ok (report, staged) =>
    match switchWith host.faults undo staged (live.stage staged) with
    | (.ok _, live) => (.ok report, live.dropStaging)
    | (.error e, live) => (.error e, live.dropStaging)

/-- `apply_maintenance`. -/
def applyMaintenanceWith (f : CompactFaults) (undo : UndoFaults) (live : Live) :
    Except Failure Unit × Live :=
  match live.read with
  | none => (.error (.declined "数据库已关闭"), live.dropStaging)
  | some db =>
    match f.copy with
    | some e => (.error e, live.dropStaging)
    | none =>
      let (r, live) := switchWith f.faults undo db (live.checkpoint.stage db)
      (r, live.dropStaging)

/-- With nothing failing in the undo these are the functions of `LiveDatabase`. -/
theorem switchWith_none (faults : SwitchFaults) (staged : Store) (live : Live) :
    switchWith faults .none staged live = live.activate faults staged := by
  cases live with
  | file h =>
    have hactivate := activateWith_none faults.file h
    dsimp only [switchWith, Live.activate]
    exact hactivate ▸ rfl
  | memory db => rfl

/-- Where no undo fails, restoring is what it was. -/
theorem restoreWith_none {β : Type} (lib : Libraries β) (host : RestoreHost) (archive : β)
    (live : Live) : restoreWith lib host .none archive live = restore lib host archive live := by
  unfold restoreWith restore
  cases buildStaging lib host.staging host.writtenBy host.now archive live.floor with
  | error e => rfl
  | ok built =>
    have hswitch := switchWith_none host.faults built.2 (live.stage built.2)
    dsimp only
    exact hswitch ▸ rfl

/-- So is compacting. -/
theorem applyMaintenanceWith_none (f : CompactFaults) (live : Live) :
    applyMaintenanceWith f .none live = applyMaintenance f live := by
  unfold applyMaintenanceWith applyMaintenance
  cases live.read with
  | none => rfl
  | some db =>
    cases f.copy with
    | some e => rfl
    | none =>
      have hswitch := switchWith_none f.faults db (live.checkpoint.stage db)
      dsimp only
      exact hswitch ▸ rfl

/-! ## What they leave -/

/-- A hub at rest: in service on a database with the property, or closed. -/
def Rests (P : Store → Prop) : Live → Prop
  | .file h => Left P h
  | .memory db => P db

/-- What the writer sees of a hub at rest is in service. -/
theorem Rests.serves {live : Live} {db : Store} (h : Rests P live) (hread : live.read = some db) :
    live.Serves db ∧ P db := by
  cases live with
  | file hub =>
    rcases h with ⟨db', hs, hdb⟩ | ⟨hclosed, -⟩
    · have hserves : (Live.file hub).Serves db' := hs
      obtain rfl := Option.some.inj (hserves.read.symm.trans hread)
      exact ⟨hs, hdb⟩
    · rw [Live.read, hclosed.1] at hread
      cases hread
  | memory m =>
    obtain rfl := Option.some.inj hread
    exact ⟨rfl, h⟩

/-- A hub that serves rests. -/
theorem rests_serves {live : Live} {db : Store} (hs : live.Serves db) (hdb : P db) :
    Rests P live := by
  cases live with
  | file h => exact .inl ⟨db, hs, hdb⟩
  | memory m =>
    rw [← show m = db from hs] at hdb
    exact hdb

/-- What a step of a hub leaves, and the disks its process may die on. -/
inductive Leads (P : Store → Prop) : Live → Live → Prop
  /-- A file, with what it passes on the way. -/
  | file {h h' : Hub} (left : Left P h') (passes : Passes P h h') : Leads P (.file h) (.file h')
  /-- No file. -/
  | memory {db db' : Store} (holds : P db') : Leads P (.memory db) (.memory db')

/-- What it leads to rests. -/
theorem Leads.rests {live live' : Live} (h : Leads P live live') : Rests P live' := by
  cases h with
  | file left _ => exact left
  | memory holds => exact holds

/-- One way after the other. -/
theorem Leads.trans {a b c : Live} (h : Leads P a b) (h' : Leads P b c) : Leads P a c := by
  cases h' with
  | file left passes =>
    cases h with
    | file _ before => exact .file left (before.trans passes)
  | memory holds =>
    cases h with
    | memory _ => exact .memory holds

/-- A step of a file hub that leaves it as it was under the live path. -/
theorem leads_step {h : Hub} {f : Disk → Disk} (hleft : Left P (h.step f)) :
    Leads P (.file h) (.file (h.step f)) := .file hleft (Passes.step hleft.shows)

/-- Whatever is removed under the staging name, the hub is left with what it had. -/
theorem leads_dropStaging {live live' : Live} (h : Leads P live live') :
    Leads P live live'.dropStaging := by
  refine h.trans ?_
  cases h with
  | memory holds => exact .memory holds
  | file left _ =>
    refine leads_step ?_
    rcases left with ⟨db, hs, hdb⟩ | ⟨hclosed, hshows⟩
    · exact .inl ⟨db, Serving.beside hs rfl rfl, hdb⟩
    · exact .inr ⟨hclosed, hshows⟩

/-- A hub that serves leads to itself. -/
theorem leads_serves {live : Live} {db : Store} (hs : live.Serves db) (hdb : P db) :
    Leads P live live := by
  cases live with
  | file h => exact .file (.inl ⟨db, hs, hdb⟩) (.refl h)
  | memory m => exact .memory (by rwa [show m = db from hs])

/-- A switch to a staged database leaves the hub with it or as it was. -/
theorem leads_switchWith {live : Live} {db staged : Store} (hs : live.Serves db) (hdb : P db)
    (hstaged : P (live.switched staged db)) (htokens : live.isFile = false → staged.TokensUnique)
    (faults : SwitchFaults) (undo : UndoFaults) :
    Leads P live (switchWith faults undo staged (live.stage staged)).2 := by
  cases live with
  | file h =>
    have hbeside : Serving (h.step (stageOn staged)) db := Live.Serves.stage hs staged
    refine Leads.trans (leads_step (.inl ⟨db, hbeside, hdb⟩)) ?_
    obtain ⟨hpasses, hend⟩ := activateWith_ends hbeside.contents (staged_stage h staged) hdb hstaged
      faults.file undo
    simp only [Live.stage, switchWith]
    generalize activateWith faults.file undo (h.step (stageOn staged)) = o at hpasses hend
    obtain ⟨r, h'⟩ := o
    obtain ⟨rfl, hserving⟩ | ⟨⟨e, rfl⟩, hserving | hclosed⟩ := hend
    · exact .file (.inl ⟨staged, hserving, hstaged⟩) hpasses
    · exact .file (.inl ⟨db, hserving, hdb⟩) hpasses
    · exact .file (.inr hclosed) hpasses
  | memory m =>
    cases hs
    simp only [Live.stage, switchWith]
    rcases replaceContents_spec (htokens rfl) faults.memory db with ⟨-, h⟩ | ⟨e, -, h⟩
    · rw [h]
      exact .memory hstaged
    · rw [h]
      exact .memory hdb

/-- A restore begun with the connection open. -/
theorem leads_restoreWith {β : Type} {lib : Libraries β} {host : RestoreHost} {undo : UndoFaults}
    {archive : β} {live : Live} {db : Store} (hs : live.Serves db) (hdb : P db)
    (hstaged : ∀ report staged, buildStaging lib host.staging host.writtenBy host.now archive
      (idCounters db) = .ok (report, staged) → P (live.switched staged db)) :
    Leads P live (restoreWith lib host undo archive live).2 := by
  have hfloor : live.floor = idCounters db := by rw [Live.floor, hs.read]
  unfold restoreWith
  rw [hfloor]
  cases hbuild : buildStaging lib host.staging host.writtenBy host.now archive (idCounters db) with
  | error e => exact leads_dropStaging (leads_serves hs hdb)
  | ok built =>
    obtain ⟨report, staged⟩ := built
    have htokens := (buildStaging_restorable hbuild).related.tokens
    have hswitch := leads_switchWith hs hdb (hstaged report staged hbuild) (fun _ => htokens)
      host.faults undo
    dsimp only
    generalize switchWith host.faults undo staged (live.stage staged) = o at hswitch
    obtain ⟨r, live'⟩ := o
    cases r with
    | ok u => exact leads_dropStaging hswitch
    | error e => exact leads_dropStaging hswitch

/-- A compaction, with or without a connection. -/
theorem leads_applyMaintenanceWith {h : Hub} (hleft : Left P h) (f : CompactFaults)
    (undo : UndoFaults) : Leads P (.file h) (applyMaintenanceWith f undo (.file h)).2 := by
  have hself : Leads P (.file h) (.file h) := .file hleft (.refl h)
  unfold applyMaintenanceWith
  rcases hleft with ⟨db, hs, hdb⟩ | ⟨hclosed, -⟩
  · have hserves : (Live.file h).Serves db := hs
    rw [hserves.read]
    dsimp only
    cases f.copy with
    | some e => exact leads_dropStaging hself
    | none =>
      have hfolded : Serving (h.step fun d => d.fold .live) db := Live.Serves.checkpoint hserves
      have hswitch := @leads_switchWith P (Live.file h).checkpoint db db hfolded hdb hdb nofun
        f.faults undo
      exact leads_dropStaging ((leads_step (.inl ⟨db, hfolded, hdb⟩)).trans hswitch)
  · have hread : (Live.file h).read = none := by
      rw [Live.read, hclosed.1]
      rfl
    rw [hread]
    exact leads_dropStaging hself

end Romi.FailedUndo
