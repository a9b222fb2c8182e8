import Romi.HubShutdown

/-!
# What a returned close promises

A close that takes the gate when the writer has dropped its connection finds
everything answered. What it then drops nobody opens again, so the lock goes
last and a returned close leaves nothing open. A close that finds the thread's
slot emptied by another close that is still waiting does not wait itself and
may take the gate before; the run at the end shows what follows.
-/

namespace Romi.ShutdownBarrier

open BackupArchive HubShutdown LiveDatabase StoreOperations StoreSchema WriterAccounting
  WriterGuarantees WriterQueue WriterTurns

variable {β : Type} {lib : Libraries β} {host : Host}

/-! ## What has been dropped -/

/-- The first `n` of the writer, the prototype and the readers are gone. -/
structure Cleared (s : Shared β) (n : Nat) : Prop where
  /-- The writer has stopped. -/
  writer : 1 ≤ n → s.writer ≠ .running
  /-- And the prototype is closed. -/
  prototype : 2 ≤ n → s.prototypeOpen = false
  /-- And so is every reader. -/
  readers : 3 ≤ n → s.readersOpen = false ∧ ∀ r ∈ s.reads, r = false

/-- What is gone when a close comes to a step. -/
def closeLevel : CloseStage → Nat
  | .refusing | .disconnecting | .taking | .joining | .gating => 0
  | .droppingPrototype => 1
  | .emptyingReaders => 2
  | .unlocking | .returning | .returned => 3

/-- What is gone when the drop of the last handle comes to a step. -/
def dropLevel : DropStage → Nat
  | .refusing | .disconnecting | .receiving => 0
  | .taking | .joining | .droppingPrototype => 1
  | .emptyingReaders => 2
  | .unlocking | .dropped => 3

/-- Without its writer a hub opens nothing again. -/
structure Fades (s s' : Shared β) : Prop where
  /-- A writer that has stopped stays so. -/
  writer : s.writer ≠ .running → s'.writer ≠ .running
  /-- A closed prototype stays so. -/
  prototype : s.writer ≠ .running → s.prototypeOpen = false → s'.prototypeOpen = false
  /-- So does an empty pool. -/
  readers : s.writer ≠ .running → s.readersOpen = false → s'.readersOpen = false
  /-- And no read begins on it. -/
  reads : s.writer ≠ .running → s.prototypeOpen = false → s.readersOpen = false →
    (∀ r ∈ s.reads, r = false) → ∀ r ∈ s'.reads, r = false

/-- What was cleared stays cleared. -/
theorem Cleared.fades {s s' : Shared β} {n : Nat} (h : Cleared s n) (hf : Fades s s') :
    Cleared s' n where
  writer hn := hf.writer (h.writer hn)
  prototype hn := hf.prototype (h.writer (by omega)) (h.prototype hn)
  readers hn := by
    have hgone := h.writer (by omega)
    obtain ⟨hreaders, hreads⟩ := h.readers hn
    exact ⟨hf.readers hgone hreaders, hf.reads hgone (h.prototype (by omega)) hreaders hreads⟩

/-- Nothing need be cleared at first. -/
theorem cleared_zero (s : Shared β) : Cleared s 0 := ⟨nofun, nofun, nofun⟩

/-- A change of everything but the connections, the writer and the reads. -/
theorem fades_of_eq {s s' : Shared β} (hwriter : s'.writer = s.writer)
    (hprototype : s'.prototypeOpen = s.prototypeOpen) (hreaders : s'.readersOpen = s.readersOpen)
    (hreads : s'.reads = s.reads) : Fades s s' where
  writer h := hwriter ▸ h
  prototype _ h := hprototype.trans h
  readers _ h := hreaders.trans h
  reads _ _ _ h := hreads ▸ h

/-! ## What each event leaves alone -/

/-- A submission builds a job, sends one, or does not concern the writer. -/
theorem submit_cases (l : Ledger β) {e : WriterAccounting.Event β} (he : ofSubmission e = true) :
    (l.step lib host e).sender = l.sender ∧
      ((l.step lib host e).hub = l.hub ∨
        (∃ r, (l.step lib host e).hub = l.hub.step lib host (.build r)) ∨
        l.sender = true ∧ ∃ i, (l.step lib host e).hub = l.hub.step lib host (.send i)) := by
  have hsender : (l.step lib host e).sender = l.sender := by
    unfold Ledger.step
    cases e with
    | build r => rfl
    | ensureOpen id =>
      dsimp only
      split
      · split <;> rfl
      · rfl
    | send id =>
      dsimp only
      split
      · split
        · split <;> rfl
        · rfl
      · rfl
    | enter id | count id =>
      dsimp only
      split <;> rfl
    | write a | shut | disconnect => cases he
  refine ⟨hsender, ?_⟩
  rcases @step_hub _ lib host l e with ⟨-, hhub⟩ | ⟨r, -, hhub⟩ | ⟨id, i, -, hopen, hhub⟩ | ⟨a, rfl, -⟩
  · exact .inl hhub
  · exact .inr (.inl ⟨r, hhub⟩)
  · exact .inr (.inr ⟨hopen, i, hhub⟩)
  · cases he

/-- It does not touch what is in service. -/
theorem submit_live (l : Ledger β) {e : WriterAccounting.Event β} (he : ofSubmission e = true) :
    (l.step lib host e).hub.live = l.hub.live := by
  rcases (submit_cases l he).2 with hhub | ⟨r, hhub⟩ | ⟨-, i, hhub⟩
  · rw [hhub]
  · rw [hhub]
    unfold State.step
    dsimp only
    split <;> rfl
  · rw [hhub]
    unfold State.step
    dsimp only
    split <;> rfl

/-- Without a sender nothing is sent. -/
theorem submit_waits {l : Ledger β} {e : WriterAccounting.Event β} (he : ofSubmission e = true)
    (hwaits : Waits l.hub) (hsender : l.sender = false) :
    Waits (l.step lib host e).hub ∧ (l.step lib host e).sender = false := by
  obtain ⟨hsame, hhub⟩ := @submit_cases _ lib host l _ he
  refine ⟨?_, hsame.trans hsender⟩
  rcases hhub with hhub | ⟨r, hhub⟩ | ⟨hopen, -⟩
  · rw [hhub]
    exact hwaits
  · rw [hhub]
    unfold State.step
    dsimp only
    split <;> exact hwaits
  · rw [hsender] at hopen
    cases hopen

/-- The two steps of a close in the ledger. -/
theorem shut_disconnect (l : Ledger β) {e : WriterAccounting.Event β}
    (he : e = .shut ∨ e = .disconnect) :
    (l.step lib host e).hub = l.hub ∧ (l.sender = false → (l.step lib host e).sender = false) := by
  rcases he with rfl | rfl
  · exact ⟨rfl, id⟩
  · unfold Ledger.step
    dsimp only
    split
    · exact ⟨rfl, fun _ => rfl⟩
    · exact ⟨rfl, id⟩

/-- A change of the ledger that leaves what is in service alone. -/
theorem ledger_fades (s : Shared β) (l : Ledger β) (hlive : l.hub.live = s.ledger.hub.live) :
    Fades s { s with ledger := l } := by
  refine fades_of_eq rfl ?_ ?_ rfl
  · unfold Shared.prototypeOpen
    dsimp only
    rw [hlive]
  · unfold Shared.readersOpen
    dsimp only
    rw [hlive]

/-- Dropping the prototype closes it. -/
theorem dropPrototype_closed (s : Shared β) : s.dropPrototype.prototypeOpen = false := by
  unfold Shared.dropPrototype Shared.prototypeOpen Shared.setLive closing
  cases s.ledger.hub.live <;> rfl

/-- And leaves the readers alone. -/
theorem dropPrototype_readers (s : Shared β) : s.dropPrototype.readersOpen = s.readersOpen := by
  unfold Shared.dropPrototype Shared.readersOpen Shared.setLive closing
  cases s.ledger.hub.live <;> rfl

/-- Emptying the pool closes the readers. -/
theorem emptyReaders_closed (s : Shared β) : s.emptyReaders.readersOpen = false := by
  unfold Shared.emptyReaders Shared.readersOpen Shared.setLive closing
  cases s.ledger.hub.live <;> rfl

/-- And leaves the prototype alone. -/
theorem emptyReaders_prototype (s : Shared β) : s.emptyReaders.prototypeOpen = s.prototypeOpen := by
  unfold Shared.emptyReaders Shared.prototypeOpen Shared.setLive closing
  cases s.ledger.hub.live <;> rfl

/-- It opens nothing again. -/
theorem dropPrototype_fades (s : Shared β) : Fades s s.dropPrototype where
  writer := id
  prototype _ _ := dropPrototype_closed s
  readers _ h := (dropPrototype_readers s).trans h
  reads _ _ _ h := h

/-- Nor does it. -/
theorem emptyReaders_fades (s : Shared β) : Fades s s.emptyReaders where
  writer := id
  prototype _ h := (emptyReaders_prototype s).trans h
  readers _ _ := emptyReaders_closed s
  reads _ _ _ h := h

/-- A submission goes on. -/
theorem submit_fades (s : Shared β) {e : WriterAccounting.Event β} (he : ofSubmission e = true) :
    Fades s { s with ledger := s.ledger.step lib host e } :=
  ledger_fades s _ (submit_live s.ledger he)

/-- Nor does a close that goes on. -/
theorem Fades.onward {s s' : Shared β} (h : Fades s s') (i : Nat) (stage : CloseStage) :
    Fades s (s'.onward i stage) := ⟨h.writer, h.prototype, h.readers, h.reads⟩

/-- Nor does a drop that goes on. -/
theorem Fades.dropOn {s s' : Shared β} (h : Fades s s') (last : Option DropStage) :
    Fades s { s' with last := last } := ⟨h.writer, h.prototype, h.readers, h.reads⟩

/-- Nor does shutting the channel. -/
theorem shut_fades (s : Shared β) {e : WriterAccounting.Event β} (he : e = .shut ∨ e = .disconnect) :
    Fades s { s with ledger := s.ledger.step lib host e } :=
  ledger_fades s _ (congrArg State.live (shut_disconnect s.ledger he).1)

/-- Only slots, stages, handles and the lock change. -/
theorem aside_fades {s s' : Shared β} (hwriter : s'.writer = s.writer) (hledger : s'.ledger = s.ledger)
    (hprototype : s'.prototype = s.prototype) (hreaders : s'.readers = s.readers)
    (hreads : s'.reads = s.reads) : Fades s s' := by
  refine fades_of_eq hwriter ?_ ?_ hreads
  · unfold Shared.prototypeOpen
    rw [hledger, hprototype]
  · unfold Shared.readersOpen
    rw [hledger, hreaders]

/-- The steps of a close. -/
theorem closeStep_fades (s : Shared β) (i : Nat) (stage : CloseStage) :
    Fades s (s.closeStep lib host i stage) := by
  cases stage with
  | refusing => exact (shut_fades s (.inl rfl)).onward i _
  | disconnecting => exact (shut_fades s (.inr rfl)).onward i _
  | taking =>
    unfold Shared.closeStep
    dsimp only
    split <;> exact aside_fades rfl rfl rfl rfl rfl
  | joining =>
    unfold Shared.closeStep
    dsimp only
    split <;> exact aside_fades rfl rfl rfl rfl rfl
  | gating =>
    unfold Shared.closeStep
    dsimp only
    split <;> exact aside_fades rfl rfl rfl rfl rfl
  | droppingPrototype => exact (dropPrototype_fades s).onward i _
  | emptyingReaders => exact (emptyReaders_fades s).onward i _
  | unlocking => exact aside_fades rfl rfl rfl rfl rfl
  | returning => exact aside_fades rfl rfl rfl rfl rfl
  | returned => exact aside_fades rfl rfl rfl rfl rfl

/-- The steps of the drop of the last handle. -/
theorem dropStep_fades (s : Shared β) (stage : DropStage) :
    Fades s (s.dropStep lib host stage) := by
  cases stage with
  | refusing => exact (@shut_fades _ lib host s _ (.inl rfl)).dropOn _
  | disconnecting => exact (@shut_fades _ lib host s _ (.inr rfl)).dropOn _
  | receiving =>
    unfold Shared.dropStep
    dsimp only
    split
    · exact aside_fades rfl rfl rfl rfl rfl
    · split <;> exact aside_fades rfl rfl rfl rfl rfl
  | taking =>
    unfold Shared.dropStep
    dsimp only
    split <;> exact aside_fades rfl rfl rfl rfl rfl
  | joining =>
    unfold Shared.dropStep
    dsimp only
    split <;> exact aside_fades rfl rfl rfl rfl rfl
  | droppingPrototype => exact (dropPrototype_fades s).dropOn _
  | emptyingReaders => exact (emptyReaders_fades s).dropOn _
  | unlocking => exact aside_fades rfl rfl rfl rfl rfl
  | dropped => exact aside_fades rfl rfl rfl rfl rfl

/-- While the writer runs, nothing is promised. -/
theorem running_fades {s s' : Shared β} (h : s.writer = .running) : Fades s s' where
  writer hgone := absurd h hgone
  prototype hgone := absurd h hgone
  readers hgone := absurd h hgone
  reads hgone := absurd h hgone

/-- A writer that has stopped running does not start again. -/
theorem stopped_fades (s : Shared β) {w : Writer} (h : w ≠ .running) :
    Fades s { s with writer := w } where
  writer _ := h
  prototype _ hclosed := hclosed
  readers _ hclosed := hclosed
  reads _ _ _ hreads := hreads

/-- A read that enters finds what is still open. -/
theorem enter_fades (s : Shared β) (short : Bool) :
    Fades s { s with
      arriving := s.arriving - 1
      reads := s.reads ++ [if short then s.prototypeOpen else s.readersOpen] } where
  writer hgone := hgone
  prototype _ hclosed := hclosed
  readers _ hclosed := hclosed
  reads := by
    intro _ hprototype hreaders hreads r hr
    rcases List.mem_append.mp hr with hr | hr
    · exact hreads r hr
    · rw [List.mem_singleton.mp hr, hprototype, hreaders]
      exact ite_self false

/-- Nothing is opened again, whatever happens. -/
theorem step_fades (s : Shared β) (e : HubShutdown.Event β) : Fades s (s.step lib host e) := by
  have hidle : Fades s s := aside_fades rfl rfl rfl rfl rfl
  cases e with
  | submit e =>
    unfold Shared.step
    dsimp only
    split
    · rename_i he
      exact submit_fades s he.2
    · exact hidle
  | write a =>
    unfold Shared.step
    dsimp only
    split
    · rename_i hrunning
      exact running_fades hrunning
    · exact hidle
  | leave =>
    unfold Shared.step
    dsimp only
    split
    · rename_i hrunning _ _ _
      exact running_fades hrunning
    · exact hidle
  | announce =>
    unfold Shared.step
    dsimp only
    split
    · exact stopped_fades s (by decide)
    · exact hidle
  | finish =>
    unfold Shared.step
    dsimp only
    split
    · exact stopped_fades s (by decide)
    · exact hidle
  | clone =>
    unfold Shared.step
    dsimp only
    split
    · exact aside_fades rfl rfl rfl rfl rfl
    · exact hidle
  | drop =>
    unfold Shared.step
    dsimp only
    split
    · exact aside_fades rfl rfl rfl rfl rfl
    · split
      · exact aside_fades rfl rfl rfl rfl rfl
      · exact hidle
  | dropOn =>
    unfold Shared.step
    dsimp only
    split
    · exact dropStep_fades s _
    · exact hidle
  | close =>
    unfold Shared.step
    dsimp only
    split
    · exact aside_fades rfl rfl rfl rfl rfl
    · exact hidle
  | closeOn i =>
    unfold Shared.step
    dsimp only
    split
    · exact closeStep_fades s i _
    · exact hidle
  | read =>
    unfold Shared.step
    dsimp only
    split
    · exact aside_fades rfl rfl rfl rfl rfl
    · exact hidle
  | enter short =>
    unfold Shared.step
    dsimp only
    split
    · exact enter_fades s short
    · exact hidle
  | exit i =>
    refine ⟨id, fun _ h => h, fun _ h => h, ?_⟩
    intro _ _ _ hreads r hr
    exact hreads r (List.mem_of_mem_eraseIdx hr)

/-! ## The order of a shutdown -/

/-- What holds between any two steps while no close overtakes the writer: what
is gone at every close, at the last drop and when the lock is free. -/
structure Orderly (s : Shared β) : Prop where
  /-- The writer's books are right. -/
  books : Books s.ledger
  /-- A writer that has stopped has answered everybody, and nobody can ask any more. -/
  drained : s.writer ≠ .running → Waits s.ledger.hub ∧ s.ledger.sender = false
  /-- It has stopped when it says so. -/
  done : s.done = false → s.writer ≠ .running
  /-- Each close has cleared what it was to clear. -/
  closes : ∀ c ∈ s.closes, Cleared s (closeLevel c)
  /-- While a close has the gate nobody reads. -/
  gate : ∀ c ∈ s.closes, c.holdsGate = true → s.reads = []
  /-- So has the last drop. -/
  last : ∀ d, s.last = some d →
    Cleared s (dropLevel d) ∧ s.handles = 0 ∧ s.arriving = 0 ∧ s.reads = []
  /-- The lock is given back only when all is cleared. -/
  lock : s.lock = .released → Cleared s 3

/-- The books do not depend on the file. -/
theorem Books.setLive {s : Shared β} (h : Books s.ledger) (live : Live) :
    Books (s.setLive live).ledger := by
  obtain ⟨rounds, drained, htaken⟩ := h.taken
  exact ⟨⟨rounds, drained, htaken.taken, htaken.answered, htaken.orderly, htaken.underway,
    htaken.telemetry, htaken.solo, htaken.replacements⟩, h.distinct, h.fresh, h.queued, h.accepted,
    h.completed, h.outcomes⟩

/-- What a step has to show that moves one close. -/
theorem Orderly.moved {s s' : Shared β} {i : Nat} {stage : CloseStage} (h : Orderly s)
    (hf : Fades s s') (hbooks : Books s'.ledger)
    (hhub : s.writer ≠ .running → Waits s.ledger.hub → Waits s'.ledger.hub)
    (hsender : s.ledger.sender = false → s'.ledger.sender = false) (hwriter : s'.writer = s.writer)
    (hdone : s'.done = s.done) (hreads : s'.reads = s.reads) (harriving : s'.arriving = s.arriving)
    (hhandles : s'.handles = s.handles) (hlast : s'.last = s.last)
    (hlock : s'.lock = .released → s.lock = .released ∨ Cleared s' 3)
    (hcloses : s'.closes = s.closes.set i stage) (hcleared : Cleared s' (closeLevel stage))
    (hgate : stage.holdsGate = true → s.reads = []) : Orderly s' where
  books := hbooks
  drained := by
    intro hgone
    rw [hwriter] at hgone
    obtain ⟨hwaits, hopen⟩ := h.drained hgone
    exact ⟨hhub hgone hwaits, hsender hopen⟩
  done := by
    rw [hdone, hwriter]
    exact h.done
  closes := by
    intro c hc
    rw [hcloses] at hc
    rcases List.mem_or_eq_of_mem_set hc with hold | rfl
    · exact (h.closes c hold).fades hf
    · exact hcleared
  gate := by
    intro c hc hholds
    rw [hcloses] at hc
    rw [hreads]
    rcases List.mem_or_eq_of_mem_set hc with hold | rfl
    · exact h.gate c hold hholds
    · exact hgate hholds
  last := by
    intro d hd
    rw [hlast] at hd
    obtain ⟨hcleared, hnone, hempty, hquiet⟩ := h.last d hd
    exact ⟨hcleared.fades hf, hhandles.trans hnone, harriving.trans hempty, hreads.trans hquiet⟩
  lock := by
    intro hreleased
    rcases hlock hreleased with hold | hnew
    · exact (h.lock hold).fades hf
    · exact hnew

/-- A close goes on. -/
theorem Orderly.closeStep {s : Shared β} (h : Orderly s) {i : Nat} {stage : CloseStage}
    (hstage : s.closes[i]? = some stage)
    (hpatient : stage = .gating → s.gateFree = true → s.writer ≠ .running) :
    Orderly (s.closeStep lib host i stage) := by
  have hf := @closeStep_fades _ lib host s i stage
  have hmem : stage ∈ s.closes := List.mem_of_getElem? hstage
  have hhere := h.closes stage hmem
  have hgate := h.gate stage hmem
  cases stage with
  | refusing =>
    exact h.moved hf (@Books.step _ lib host _ h.books .shut) (fun _ => id) id rfl rfl rfl rfl rfl rfl
      .inl rfl (cleared_zero _) nofun
  | disconnecting =>
    obtain ⟨hhub, hsender⟩ := @shut_disconnect _ lib host s.ledger _ (.inr rfl)
    exact h.moved hf (@Books.step _ lib host _ h.books .disconnect) (fun _ hwaits => hhub ▸ hwaits)
      hsender rfl rfl rfl rfl rfl rfl .inl rfl (cleared_zero _) nofun
  | taking =>
    unfold Shared.closeStep at hf ⊢
    dsimp only at hf ⊢
    by_cases hthread : s.thread = true
    · rw [if_pos hthread] at hf ⊢
      exact h.moved hf h.books (fun _ => id) id rfl rfl rfl rfl rfl rfl .inl rfl (cleared_zero _) nofun
    · rw [if_neg hthread] at hf ⊢
      exact h.moved hf h.books (fun _ => id) id rfl rfl rfl rfl rfl rfl .inl rfl (cleared_zero _) nofun
  | joining =>
    unfold Shared.closeStep at hf ⊢
    dsimp only at hf ⊢
    by_cases hended : s.writer = .ended
    · rw [if_pos hended] at hf ⊢
      exact h.moved hf h.books (fun _ => id) id rfl rfl rfl rfl rfl rfl .inl rfl (cleared_zero _) nofun
    · rw [if_neg hended]
      exact h
  | gating =>
    unfold Shared.closeStep at hf ⊢
    dsimp only at hf ⊢
    by_cases hfree : s.gateFree = true
    · rw [if_pos hfree] at hf ⊢
      have hgone := hpatient rfl hfree
      have hempty : s.reads = [] := by
        rw [Shared.gateFree, Bool.and_eq_true] at hfree
        exact List.isEmpty_iff.mp hfree.2
      exact h.moved hf h.books (fun _ => id) id rfl rfl rfl rfl rfl rfl .inl rfl
        ⟨fun _ => hgone, nofun, nofun⟩ fun _ => hempty
    · rw [if_neg hfree]
      exact h
  | droppingPrototype =>
    have hclosed := dropPrototype_closed s
    exact h.moved hf (Books.setLive h.books _) (fun _ => id) id rfl rfl rfl rfl rfl rfl .inl rfl
      ⟨fun _ => hhere.writer (Nat.le_refl 1), fun _ => hclosed, nofun⟩ fun _ => hgate rfl
  | emptyingReaders =>
    have hclosed := emptyReaders_closed s
    have hprototype := (emptyReaders_prototype s).trans (hhere.prototype (Nat.le_refl 2))
    have hempty : s.reads = [] := hgate rfl
    refine h.moved hf (Books.setLive h.books _) (fun _ => id) id rfl rfl rfl rfl rfl rfl .inl rfl
      ⟨fun _ => hhere.writer (Nat.le_succ 1), fun _ => hprototype, fun _ => ⟨hclosed, ?_⟩⟩
      fun _ => hempty
    intro r hr
    change r ∈ s.reads at hr
    rw [hempty] at hr
    cases hr
  | unlocking =>
    exact h.moved hf h.books (fun _ => id) id rfl rfl rfl rfl rfl rfl (fun _ => .inr (hhere.fades hf))
      rfl (hhere.fades hf) fun _ => hgate rfl
  | returning =>
    exact h.moved hf h.books (fun _ => id) id rfl rfl rfl rfl rfl rfl .inl rfl (hhere.fades hf) nofun
  | returned => exact h

/-- What a step has to show that moves the drop of the last handle. -/
theorem Orderly.dropped {s s' : Shared β} {stage : DropStage} (h : Orderly s) (hf : Fades s s')
    (hbooks : Books s'.ledger)
    (hhub : s.writer ≠ .running → Waits s.ledger.hub → Waits s'.ledger.hub)
    (hsender : s.ledger.sender = false → s'.ledger.sender = false) (hwriter : s'.writer = s.writer)
    (hdone : s'.done = false → s.done = false ∨ s.writer ≠ .running) (hreads : s'.reads = s.reads)
    (hcloses : s'.closes = s.closes) (harriving : s'.arriving = s.arriving)
    (hhandles : s'.handles = s.handles) (hlast : s'.last = some stage)
    (hquiet : s.handles = 0 ∧ s.arriving = 0 ∧ s.reads = [])
    (hlock : s'.lock = .released → s.lock = .released ∨ Cleared s' 3)
    (hcleared : Cleared s' (dropLevel stage)) : Orderly s' where
  books := hbooks
  drained := by
    intro hgone
    rw [hwriter] at hgone
    obtain ⟨hwaits, hopen⟩ := h.drained hgone
    exact ⟨hhub hgone hwaits, hsender hopen⟩
  done := by
    intro htaken
    rw [hwriter]
    rcases hdone htaken with hold | hgone
    · exact h.done hold
    · exact hgone
  closes := by
    intro c hc
    rw [hcloses] at hc
    exact (h.closes c hc).fades hf
  gate := by
    intro c hc hholds
    rw [hcloses] at hc
    rw [hreads]
    exact h.gate c hc hholds
  last := by
    intro d hd
    rw [hlast] at hd
    cases hd
    obtain ⟨hnone, hempty, hreading⟩ := hquiet
    exact ⟨hcleared, hhandles.trans hnone, harriving.trans hempty, hreads.trans hreading⟩
  lock := by
    intro hreleased
    rcases hlock hreleased with hold | hnew
    · exact (h.lock hold).fades hf
    · exact hnew

/-- The drop of the last handle goes on. -/
theorem Orderly.dropStep {s : Shared β} (h : Orderly s) {stage : DropStage}
    (hstage : s.last = some stage) : Orderly (s.dropStep lib host stage) := by
  have hf := @dropStep_fades _ lib host s stage
  obtain ⟨hhere, hquiet⟩ := h.last stage hstage
  have hreading : ∀ r ∈ s.reads, r = false := by
    rw [hquiet.2.2]
    exact List.forall_mem_nil _
  cases stage with
  | refusing =>
    exact h.dropped hf (@Books.step _ lib host _ h.books .shut) (fun _ => id) id rfl .inl rfl rfl rfl
      rfl rfl hquiet .inl (cleared_zero _)
  | disconnecting =>
    obtain ⟨hhub, hsender⟩ := @shut_disconnect _ lib host s.ledger _ (.inr rfl)
    exact h.dropped hf (@Books.step _ lib host _ h.books .disconnect) (fun _ hwaits => hhub ▸ hwaits)
      hsender rfl .inl rfl rfl rfl rfl rfl hquiet .inl (cleared_zero _)
  | receiving =>
    unfold Shared.dropStep at hf ⊢
    dsimp only at hf ⊢
    by_cases hdone : s.done = false
    · rw [if_pos hdone] at hf ⊢
      exact h.dropped hf h.books (fun _ => id) id rfl .inl rfl rfl rfl rfl rfl hquiet .inl
        ⟨fun _ => h.done hdone, nofun, nofun⟩
    · rw [if_neg hdone] at hf ⊢
      by_cases hended : s.writer = .announced ∨ s.writer = .ended
      · rw [if_pos hended] at hf ⊢
        have hgone : s.writer ≠ .running := by
          rcases hended with hended | hended
          · rw [hended]
            decide
          · rw [hended]
            decide
        exact h.dropped hf h.books (fun _ => id) id rfl (fun _ => .inr hgone) rfl rfl rfl rfl rfl
          hquiet .inl ⟨fun _ => hgone, nofun, nofun⟩
      · rw [if_neg hended]
        exact h
  | taking =>
    unfold Shared.dropStep at hf ⊢
    dsimp only at hf ⊢
    by_cases hthread : s.thread = true
    · rw [if_pos hthread] at hf ⊢
      exact h.dropped hf h.books (fun _ => id) id rfl .inl rfl rfl rfl rfl rfl hquiet .inl
        (hhere.fades hf)
    · rw [if_neg hthread] at hf ⊢
      exact h.dropped hf h.books (fun _ => id) id rfl .inl rfl rfl rfl rfl rfl hquiet .inl
        (hhere.fades hf)
  | joining =>
    unfold Shared.dropStep at hf ⊢
    dsimp only at hf ⊢
    by_cases hended : s.writer = .ended
    · rw [if_pos hended] at hf ⊢
      exact h.dropped hf h.books (fun _ => id) id rfl .inl rfl rfl rfl rfl rfl hquiet .inl
        (hhere.fades hf)
    · rw [if_neg hended]
      exact h
  | droppingPrototype =>
    have hclosed := dropPrototype_closed s
    exact h.dropped hf (Books.setLive h.books _) (fun _ => id) id rfl .inl rfl rfl rfl rfl rfl hquiet
      .inl ⟨fun _ => hhere.writer (Nat.le_refl 1), fun _ => hclosed, nofun⟩
  | emptyingReaders =>
    have hclosed := emptyReaders_closed s
    have hprototype := (emptyReaders_prototype s).trans (hhere.prototype (Nat.le_refl 2))
    exact h.dropped hf (Books.setLive h.books _) (fun _ => id) id rfl .inl rfl rfl rfl rfl rfl hquiet
      .inl ⟨fun _ => hhere.writer (Nat.le_succ 1), fun _ => hprototype, fun _ => ⟨hclosed, hreading⟩⟩
  | unlocking =>
    exact h.dropped hf h.books (fun _ => id) id rfl .inl rfl rfl rfl rfl rfl hquiet
      (fun _ => .inr (hhere.fades hf)) (hhere.fades hf)
  | dropped => exact h

/-- What a step has to show that moves neither a close nor the last drop. -/
theorem Orderly.beside {s s' : Shared β} (h : Orderly s) (hf : Fades s s') (hbooks : Books s'.ledger)
    (hdrained : s'.writer ≠ .running → Waits s'.ledger.hub ∧ s'.ledger.sender = false)
    (hdone : s'.done = s.done) (hcloses : ∀ c ∈ s'.closes, c ∈ s.closes ∨ c = .refusing)
    (hgate : s.reads = [] → s.gated = true → s'.reads = [])
    (hlast : ∀ d, s'.last = some d →
      (s.last = some d ∨ d = .refusing) ∧ s'.handles = 0 ∧ s'.arriving = 0 ∧ s'.reads = [])
    (hlock : s'.lock = s.lock) : Orderly s' where
  books := hbooks
  drained := hdrained
  done := by
    intro htaken
    rw [hdone] at htaken
    exact hf.writer (h.done htaken)
  closes := by
    intro c hc
    rcases hcloses c hc with hold | rfl
    · exact (h.closes c hold).fades hf
    · exact cleared_zero _
  gate := by
    intro c hc hholds
    rcases hcloses c hc with hold | rfl
    · exact hgate (h.gate c hold hholds) (List.any_eq_true.mpr ⟨c, hold, hholds⟩)
    · cases hholds
  last := by
    intro d hd
    obtain ⟨hstage, hquiet⟩ := hlast d hd
    rcases hstage with hold | rfl
    · exact ⟨(h.last d hold).1.fades hf, hquiet⟩
    · exact ⟨cleared_zero _, hquiet⟩
  lock := by
    rw [hlock]
    exact fun hreleased => (h.lock hreleased).fades hf

/-- While there are handles, the last one is not being dropped. -/
theorem Orderly.no_last {s : Shared β} (h : Orderly s) (hhandles : 0 < s.handles) (d : DropStage) :
    s.last ≠ some d := by
  intro hd
  have hnone := (h.last d hd).2.1
  omega

/-- A drop of the last handle that is under way stays where it is. -/
theorem Orderly.last_kept {s : Shared β} (h : Orderly s) (d : DropStage) (hd : s.last = some d) :
    (s.last = some d ∨ d = .refusing) ∧ s.handles = 0 ∧ s.arriving = 0 ∧ s.reads = [] :=
  ⟨.inl hd, (h.last d hd).2⟩

/-- A submission goes on. -/
theorem Orderly.submitStep {s : Shared β} (h : Orderly s) (e : WriterAccounting.Event β) :
    Orderly (s.step lib host (.submit e)) := by
  have hf := @step_fades _ lib host s (.submit e)
  unfold Shared.step at hf ⊢
  dsimp only at hf ⊢
  by_cases he : 0 < s.handles ∧ ofSubmission e = true
  · rw [if_pos he] at hf ⊢
    refine h.beside hf (h.books.step e) ?_ rfl (fun _ => .inl) (fun hr _ => hr) h.last_kept rfl
    intro hgone
    obtain ⟨hwaits, hsender⟩ := h.drained hgone
    exact submit_waits he.2 hwaits hsender
  · rw [if_neg he]
    exact h

/-- The writer goes on in its loop. -/
theorem Orderly.writeStep {s : Shared β} (h : Orderly s) (a : EngineRun) :
    Orderly (s.step lib host (.write a)) := by
  have hf := @step_fades _ lib host s (.write a)
  unfold Shared.step at hf ⊢
  dsimp only at hf ⊢
  by_cases hrunning : s.writer = .running
  · rw [if_pos hrunning] at hf ⊢
    exact h.beside hf (h.books.step (.write a)) (fun hgone => absurd hrunning hgone) rfl (fun _ => .inl)
      (fun hr _ => hr) h.last_kept rfl
  · rw [if_neg hrunning]
    exact h

/-- The writer leaves its loop with nothing left to do. -/
theorem Orderly.leaveStep {s : Shared β} (h : Orderly s) :
    Orderly (s.step lib host .leave) := by
  have hf := @step_fades _ lib host s .leave
  unfold Shared.step at hf ⊢
  dsimp only at hf ⊢
  split at hf
  · rename_i _ hphase hqueue hsender
    exact h.beside hf (Books.setLive h.books _) (fun _ => ⟨⟨hphase, hqueue⟩, hsender⟩) rfl
      (fun _ => .inl) (fun hr _ => hr) h.last_kept rfl
  · exact h

/-- The writer announces its end. -/
theorem Orderly.announceStep {s : Shared β} (h : Orderly s) :
    Orderly (s.step lib host .announce) := by
  have hf := @step_fades _ lib host s .announce
  unfold Shared.step at hf ⊢
  dsimp only at hf ⊢
  by_cases hwriter : s.writer = .disconnected
  · rw [if_pos hwriter] at hf ⊢
    have hgone : s.writer ≠ .running := by
      rw [hwriter]
      decide
    exact h.beside hf h.books (fun _ => h.drained hgone) rfl (fun _ => .inl) (fun hr _ => hr) h.last_kept rfl
  · rw [if_neg hwriter]
    exact h

/-- Its thread ends. -/
theorem Orderly.finishStep {s : Shared β} (h : Orderly s) :
    Orderly (s.step lib host .finish) := by
  have hf := @step_fades _ lib host s .finish
  unfold Shared.step at hf ⊢
  dsimp only at hf ⊢
  by_cases hwriter : s.writer = .announced
  · rw [if_pos hwriter] at hf ⊢
    have hgone : s.writer ≠ .running := by
      rw [hwriter]
      decide
    exact h.beside hf h.books (fun _ => h.drained hgone) rfl (fun _ => .inl) (fun hr _ => hr) h.last_kept rfl
  · rw [if_neg hwriter]
    exact h

/-- A handle is cloned. -/
theorem Orderly.cloneStep {s : Shared β} (h : Orderly s) :
    Orderly (s.step lib host .clone) := by
  have hf := @step_fades _ lib host s .clone
  unfold Shared.step at hf ⊢
  dsimp only at hf ⊢
  by_cases hhandles : 0 < s.handles
  · rw [if_pos hhandles] at hf ⊢
    exact h.beside hf h.books h.drained rfl (fun _ => .inl) (fun hr _ => hr)
      (fun d hd => absurd hd (h.no_last hhandles d)) rfl
  · rw [if_neg hhandles]
    exact h

/-- A handle is dropped; with the last one the drop of what they share begins. -/
theorem Orderly.dropHandleStep {s : Shared β} (h : Orderly s) :
    Orderly (s.step lib host .drop) := by
  have hf := @step_fades _ lib host s .drop
  unfold Shared.step at hf ⊢
  dsimp only at hf ⊢
  by_cases hmany : 1 < s.handles
  · rw [if_pos hmany] at hf ⊢
    exact h.beside hf h.books h.drained rfl (fun _ => .inl) (fun hr _ => hr)
      (fun d hd => absurd hd (h.no_last (Nat.lt_of_succ_lt hmany) d)) rfl
  · rw [if_neg hmany] at hf ⊢
    by_cases hone : s.handles = 1 ∧ s.quiet = true
    · rw [if_pos hone] at hf ⊢
      have hquiet := hone.2
      simp only [Shared.quiet, Bool.and_eq_true, beq_iff_eq, List.isEmpty_iff] at hquiet
      refine h.beside hf h.books h.drained rfl (fun _ => .inl) (fun hr _ => hr) ?_ rfl
      intro d hd
      cases hd
      exact ⟨.inr rfl, rfl, hquiet.1.1.2, hquiet.1.2⟩
    · rw [if_neg hone]
      exact h

/-- `close` is called. -/
theorem Orderly.closeCallStep {s : Shared β} (h : Orderly s) :
    Orderly (s.step lib host .close) := by
  have hf := @step_fades _ lib host s .close
  unfold Shared.step at hf ⊢
  dsimp only at hf ⊢
  by_cases hhandles : 0 < s.handles
  · rw [if_pos hhandles] at hf ⊢
    refine h.beside hf h.books h.drained rfl ?_ (fun hr _ => hr) h.last_kept rfl
    intro c hc
    exact (List.mem_append.mp hc).imp_right List.mem_singleton.mp
  · rw [if_neg hhandles]
    exact h

/-- A read passes `ensure_open`. -/
theorem Orderly.readStep {s : Shared β} (h : Orderly s) :
    Orderly (s.step lib host .read) := by
  have hf := @step_fades _ lib host s .read
  unfold Shared.step at hf ⊢
  dsimp only at hf ⊢
  by_cases hopen : 0 < s.handles ∧ s.ledger.closed = false
  · rw [if_pos hopen] at hf ⊢
    exact h.beside hf h.books h.drained rfl (fun _ => .inl) (fun hr _ => hr)
      (fun d hd => absurd hd (h.no_last hopen.1 d)) rfl
  · rw [if_neg hopen]
    exact h

/-- A read takes the gate. -/
theorem Orderly.enterStep {s : Shared β} (h : Orderly s) (short : Bool) :
    Orderly (s.step lib host (.enter short)) := by
  have hf := @step_fades _ lib host s (.enter short)
  unfold Shared.step at hf ⊢
  dsimp only at hf ⊢
  by_cases hfree : 0 < s.arriving ∧ s.gated = false
  · rw [if_pos hfree] at hf ⊢
    refine h.beside hf h.books h.drained rfl (fun _ => .inl) ?_ ?_ rfl
    · intro _ hgated
      rw [hfree.2] at hgated
      cases hgated
    · intro d hd
      have hnone := (h.last d hd).2.2.1
      omega
  · rw [if_neg hfree]
    exact h

/-- A read is done. -/
theorem Orderly.exitStep {s : Shared β} (h : Orderly s) (i : Nat) :
    Orderly (s.step lib host (.exit i)) := by
  have hf := @step_fades _ lib host s (.exit i)
  refine h.beside hf h.books h.drained rfl (fun _ => .inl) ?_ ?_ rfl
  · intro hr _
    change s.reads.eraseIdx i = []
    rw [hr]
    rfl
  · intro d hd
    obtain ⟨hstage, hnone, hempty, hreading⟩ := h.last_kept d hd
    refine ⟨hstage, hnone, hempty, ?_⟩
    change s.reads.eraseIdx i = []
    rw [hreading]
    rfl

/-- Every event keeps the order, if no close overtakes the writer. -/
theorem Orderly.step {s : Shared β} (h : Orderly s) {e : HubShutdown.Event β}
    (hpatient : s.waits e = true) : Orderly (s.step lib host e) := by
  cases e with
  | submit e => exact h.submitStep e
  | write a => exact h.writeStep a
  | leave => exact h.leaveStep
  | announce => exact h.announceStep
  | finish => exact h.finishStep
  | clone => exact h.cloneStep
  | drop => exact h.dropHandleStep
  | dropOn =>
    unfold Shared.step
    dsimp only
    split
    · rename_i stage hstage
      exact h.dropStep hstage
    · exact h
  | close => exact h.closeCallStep
  | closeOn i =>
    unfold Shared.step
    dsimp only
    split
    · rename_i stage hstage
      refine h.closeStep hstage ?_
      rintro rfl hfree
      unfold Shared.waits at hpatient
      dsimp only at hpatient
      rw [if_pos ⟨hstage, hfree⟩, bne_iff_ne] at hpatient
      exact hpatient
    · exact h
  | read => exact h.readStep
  | enter short => exact h.enterStep short
  | exit i => exact h.exitStep i

/-- Every run in which no close overtakes the writer is orderly. -/
theorem Orderly.run {s : Shared β} (h : Orderly s) {events : List (HubShutdown.Event β)}
    (hpatient : s.patient lib host events = true) : Orderly (s.run lib host events) := by
  induction events generalizing s with
  | nil => exact h
  | cons e rest ih =>
    rw [Shared.patient, Bool.and_eq_true] at hpatient
    exact ih (h.step hpatient.1) hpatient.2

/-- So is a hub in service. -/
theorem inService_orderly (live : Live) (db : Store) : Orderly (inService live db : Shared β) where
  books := fresh_books live db
  drained hgone := absurd rfl hgone
  done := nofun
  closes := nofun
  gate := nofun
  last := nofun
  lock := by
    intro hreleased
    unfold inService at hreleased
    dsimp only at hreleased
    split at hreleased <;> cases hreleased

/-! ## A close that joins the thread -/

/-- A close of a step leaves the others where they are. -/
theorem closeStep_other (s : Shared β) {i j : Nat} (hne : j ≠ i) (stage : CloseStage) :
    (s.closeStep lib host j stage).closes[i]? = s.closes[i]? := by
  have hset : ∀ next, (s.closes.set j next)[i]? = s.closes[i]? :=
    fun next => List.getElem?_set_ne hne
  cases stage with
  | taking | joining | gating =>
    unfold Shared.closeStep
    dsimp only
    split
    · exact hset _
    · first | exact hset _ | rfl
  | returned => rfl
  | _ => exact hset _

/-- Nothing but its own steps moves a close. -/
theorem closes_step {s : Shared β} {i : Nat} {stage : CloseStage} (hat : s.closes[i]? = some stage)
    {e : HubShutdown.Event β} (hother : e ≠ .closeOn i) :
    (s.step lib host e).closes[i]? = some stage := by
  obtain ⟨hlt, -⟩ := List.getElem?_eq_some_iff.mp hat
  cases e with
  | close =>
    unfold Shared.step
    dsimp only
    split
    · exact (List.getElem?_append_left hlt).trans hat
    · exact hat
  | closeOn j =>
    unfold Shared.step
    dsimp only
    split
    · exact (closeStep_other s (fun heq => hother (congrArg _ heq)) _).trans hat
    · exact hat
  | dropOn =>
    unfold Shared.step
    dsimp only
    split
    · unfold Shared.dropStep
      split <;> first | exact hat | (split <;> first | exact hat | (split <;> exact hat))
    · exact hat
  | drop =>
    unfold Shared.step
    dsimp only
    split
    · exact hat
    · split <;> exact hat
  | exit i => exact hat
  | leave =>
    unfold Shared.step
    dsimp only
    split <;> exact hat
  | _ =>
    unfold Shared.step
    dsimp only
    split <;> exact hat

/-- A thread that has ended does not run again. -/
theorem ended_step {s : Shared β} (hended : s.writer = .ended) (e : HubShutdown.Event β) :
    (s.step lib host e).writer = .ended := by
  cases e with
  | leave =>
    unfold Shared.step
    dsimp only
    rw [hended]
    exact hended
  | announce =>
    unfold Shared.step
    dsimp only
    rw [hended]
    exact hended
  | finish =>
    unfold Shared.step
    dsimp only
    rw [hended]
    exact hended
  | drop =>
    unfold Shared.step
    dsimp only
    split
    · exact hended
    · split <;> exact hended
  | dropOn =>
    unfold Shared.step
    dsimp only
    split
    · unfold Shared.dropStep
      split <;> first | exact hended | (split <;> first | exact hended | (split <;> exact hended))
    · exact hended
  | closeOn i =>
    unfold Shared.step
    dsimp only
    split
    · unfold Shared.closeStep
      split <;> first | exact hended | (split <;> exact hended)
    · exact hended
  | exit i => exact hended
  | _ =>
    unfold Shared.step
    dsimp only
    split <;> exact hended

/-- A close that has the thread's handle is in `join`, or the thread has ended. -/
def Joined (s : Shared β) (i : Nat) : Prop := s.closes[i]? = some .joining ∨ s.writer = .ended

/-- Who has joined the thread has joined it. -/
theorem Joined.step {s : Shared β} {i : Nat} (h : Joined s i) (e : HubShutdown.Event β) :
    Joined (s.step lib host e) i := by
  rcases h with hjoining | hended
  · by_cases hown : e = .closeOn i
    · subst hown
      unfold Joined Shared.step
      dsimp only
      rw [hjoining]
      unfold Shared.closeStep
      dsimp only
      split
      · rename_i hended
        exact .inr hended
      · exact .inl hjoining
    · exact .inl (closes_step hjoining hown)
  · exact .inr (ended_step hended e)

/-- So it is in every run. -/
theorem Joined.run {s : Shared β} {i : Nat} (h : Joined s i) (events : List (HubShutdown.Event β)) :
    Joined (s.run lib host events) i := by
  induction events generalizing s with
  | nil => exact h
  | cons e rest ih => exact ih (h.step e)

/-- A close that finds the handle in its slot meets the condition from then on. -/
theorem joined_waits {s : Shared β} {i : Nat} (htaking : s.closes[i]? = some .taking)
    (hthread : s.thread = true) (after : List (HubShutdown.Event β)) :
    ((s.step lib host (.closeOn i)).run lib host after).waits (.closeOn i) = true := by
  obtain ⟨hlt, -⟩ := List.getElem?_eq_some_iff.mp htaking
  have hjoined : Joined (s.step lib host (.closeOn i)) i := by
    left
    unfold Shared.step
    dsimp only
    rw [htaking]
    unfold Shared.closeStep
    dsimp only
    rw [if_pos hthread]
    exact List.getElem?_set_self hlt
  unfold Shared.waits
  dsimp only
  split
  · rename_i hat
    rcases hjoined.run after with hjoining | hended
    · rw [hat.1] at hjoining
      cases hjoining
    · rw [hended]
      rfl
  · rfl

/-! ## The barrier -/

/-- The writer, the prototype and every reader have been dropped. -/
structure Silent (s : Shared β) : Prop where
  /-- The writer has stopped. -/
  writer : s.writer ≠ .running
  /-- The prototype is closed. -/
  prototype : s.prototypeOpen = false
  /-- So is every reader. -/
  readers : s.readersOpen = false
  /-- And nobody reads. -/
  reads : ∀ r ∈ s.reads, r = false

/-- What a close that returned and the lock promise. -/
structure Barrier (s : Shared β) : Prop where
  /-- When a close has returned, all that was accepted has been answered, and no
  connection is left. -/
  returned : .returned ∈ s.closes →
    (answeredTickets s.ledger).Perm s.ledger.sent ∧ Silent s
  /-- The lock is released only when no connection is left. -/
  released : s.lock = .released → Silent s

/-- All that is to be cleared is cleared. -/
theorem Cleared.silent {s : Shared β} (h : Cleared s 3) : Silent s where
  writer := h.writer (by decide)
  prototype := h.prototype (by decide)
  readers := (h.readers (Nat.le_refl 3)).1
  reads := (h.readers (Nat.le_refl 3)).2

/-- What is orderly keeps the barrier. -/
theorem Orderly.barrier {s : Shared β} (h : Orderly s) : Barrier s where
  returned hmem := by
    have hsilent := (h.closes _ hmem).silent
    exact ⟨h.books.all_answered (h.drained hsilent.writer).1, hsilent⟩
  released hreleased := (h.lock hreleased).silent

/-- Closes, drops of handles, submissions and reads in any order, as long as no
close takes the gate while the writer is still running. A close that finds the
thread's handle in its slot never does, whatever the others do. -/
theorem shutdown_barrier (lib : Libraries β) (host : Host) (live : Live) (db : Store)
    (events : List (HubShutdown.Event β))
    (hpatient : (inService live db).patient lib host events = true) :
    Barrier ((inService live db).run lib host events) ∧
      ∀ i, ((inService live db).run lib host events).closes[i]? = some .taking →
        ((inService live db).run lib host events).thread = true → ∀ after,
          ((inService live db).run lib host (events ++ .closeOn i :: after)).waits
            (.closeOn i) = true := by
  refine ⟨((inService_orderly live db).run hpatient).barrier, ?_⟩
  intro i htaking hthread after
  rw [Shared.run, List.foldl_append]
  exact joined_waits htaking hthread after

/-- The steps of one close to its end. -/
def closeToEnd (i : Nat) : List (HubShutdown.Event Wrapped) := List.replicate 9 (.closeOn i)

/-- A telemetry write, a close behind it that joins the writer, a second one
after that, and the drop of the handle. -/
def orderlyClose : List (HubShutdown.Event Wrapped) :=
  [.submit (.build (.batch (.touchSeen 1 5))), .submit (.ensureOpen 0), .submit (.enter 0),
    .submit (.send 0), .submit (.count 0), .close, .closeOn 0, .closeOn 0, .closeOn 0, .write willing,
    .write willing, .leave, .announce, .finish] ++ closeToEnd 0 ++ [.close] ++ closeToEnd 1 ++
    .drop :: List.replicate 8 .dropOn

/-- The barrier holds there. -/
theorem shutdown_barrier_orderlyClose :
    Barrier ((inService (.file FileSwap.freshHub) (Store.fresh "romi" 0)).run wrapping plainHost
      orderlyClose) :=
  (shutdown_barrier wrapping plainHost (.file FileSwap.freshHub) (Store.fresh "romi" 0) orderlyClose
    (by decide +kernel)).1

/-! ## A close that does not wait -/

/-- A step of a close that moves it on. -/
theorem step_onward {s s₁ : Shared β} {i : Nat} {stage next : CloseStage}
    (hstage : s.closes[i]? = some stage)
    (hstep : s.closeStep lib host i stage = s₁.onward i next) (hcloses : s₁.closes = s.closes)
    (hwriter : s₁.writer = s.writer) :
    (s.step lib host (.closeOn i)).closes[i]? = some next ∧
      (s.step lib host (.closeOn i)).writer = s.writer := by
  obtain ⟨hlt, -⟩ := List.getElem?_eq_some_iff.mp hstage
  have heq : s.step lib host (.closeOn i) = s₁.onward i next := by
    unfold Shared.step
    dsimp only
    rw [hstage]
    exact hstep
  rw [heq]
  refine ⟨?_, hwriter⟩
  change (s₁.closes.set i next)[i]? = some next
  rw [hcloses]
  exact List.getElem?_set_self hlt

/-- The condition cannot be spared: whenever a close takes the gate while the
writer runs, it breaks the barrier by just going on. -/
theorem overtaking_breaks {s : Shared β} {i : Nat} (hstage : s.closes[i]? = some .gating)
    (hfree : s.gateFree = true) (hrunning : s.writer = .running) :
    ¬ Barrier (s.run lib host (List.replicate 5 (.closeOn i))) := by
  obtain ⟨h1, hw1⟩ := @step_onward _ lib host s s i _ .droppingPrototype hstage (if_pos hfree) rfl rfl
  obtain ⟨h2, hw2⟩ := @step_onward _ lib host _ _ i _ .emptyingReaders h1 rfl rfl rfl
  obtain ⟨h3, hw3⟩ := @step_onward _ lib host _ _ i _ .unlocking h2 rfl rfl rfl
  obtain ⟨h4, hw4⟩ := @step_onward _ lib host _ _ i _ .returning h3 rfl rfl rfl
  obtain ⟨h5, hw5⟩ := @step_onward _ lib host _ _ i _ .returned h4 rfl rfl rfl
  intro hbarrier
  have hsilent := (hbarrier.returned (List.mem_of_getElem? h5)).2
  refine hsilent.writer ?_
  exact hw5.trans (hw4.trans (hw3.trans (hw2.trans (hw1.trans hrunning))))

/-- A telemetry write that the writer has not taken up, a close that waits for
the writer, and one that finds the slot empty. -/
def overtakingClose : List (HubShutdown.Event Wrapped) :=
  [.submit (.build (.batch (.touchSeen 1 5))), .submit (.ensureOpen 0), .submit (.enter 0),
    .submit (.send 0), .close, .closeOn 0, .closeOn 0, .closeOn 0, .close] ++ closeToEnd 1

/-- The hub after it. -/
def overtaken : Shared Wrapped :=
  (inService (.file FileSwap.freshHub) (Store.fresh "romi" 0)).run wrapping plainHost overtakingClose

/-- The second close has returned and the lock is free, while the writer is
running and the write is not answered. -/
theorem overtaken_not_barrier :
    overtaken.closes = [.joining, .returned] ∧ overtaken.lock = .released ∧
      overtaken.writer = .running ∧ answeredTickets overtaken.ledger = [] ∧
      overtaken.ledger.sent.length = 1 ∧ ¬ Barrier overtaken := by
  have hclosed : overtaken.closes = [.joining, .returned] ∧ overtaken.lock = .released ∧
      overtaken.writer = .running ∧ answeredTickets overtaken.ledger = [] ∧
      overtaken.ledger.sent.length = 1 := by
    decide +kernel
  obtain ⟨hcloses, hlock, hwriter, hanswers, hsent⟩ := hclosed
  refine ⟨hcloses, hlock, hwriter, hanswers, hsent, ?_⟩
  intro hbarrier
  exact (hbarrier.released hlock).writer hwriter

end Romi.ShutdownBarrier
