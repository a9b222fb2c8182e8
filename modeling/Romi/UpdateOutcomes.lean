import Romi.CountryUpdates

/-!
# Country database updates are exclusive and atomic

Whatever requests arrive and whichever calls fail, one update runs at a time
and the file and the reader change together, inside the commit section. What
an update leaves behind is read off a history of the hub.
-/

namespace Romi.UpdateOutcomes

open CountryUpdates

/-! ## Reading a history -/

/-- The file and the reader according to a history: what was installed last, or
what the hub started with. -/
def standing (start : Contents) : List Event → Option Bytes × Option Bytes
  | [] => (start.file, start.reader)
  | .installed _ bytes :: _ => (some bytes, some bytes)
  | _ :: earlier => standing start earlier

/-- A cancellation of the update was answered before its commit section. -/
def CancelledEarly (i : Nat) (log : List Event) : Prop :=
  ∃ later earlier, log = later ++ .cancelled i :: earlier ∧ .entered i ∉ earlier

/-- The file and the reader are as they were. -/
def Kept (before now : Contents) : Prop := now.file = before.file ∧ now.reader = before.reader

/-- The update left no temporary file of its own, or could not remove it. -/
def Cleared (i : Nat) (log : List Event) (before now : Contents) : Prop :=
  now.temp = none ∨ now.temp = before.temp ∨ .unremoved i ∈ log

/-- What an update with this result has done. -/
def Outcome (i : Nat) (log : List Event) (before after : Contents) : Except String Unit → Prop
  | .ok () => ∃ bytes, .installed i bytes ∈ log ∧ after = ⟨some bytes, some bytes, none⟩
  | .error _ => Kept before after ∧ (∀ bytes, .installed i bytes ∉ log) ∧
      Cleared i log before after

/-- Whether an update was cancelled in time, after one more event. -/
theorem cancelledEarly_cons {i : Nat} {log : List Event} {e : Event} :
    CancelledEarly i (e :: log) ↔
      (e = .cancelled i ∧ .entered i ∉ log) ∨ CancelledEarly i log := by
  constructor
  · intro ⟨later, earlier, hlog, hearlier⟩
    cases later with
    | nil =>
      injection hlog with he hrest
      exact .inl ⟨he, hrest ▸ hearlier⟩
    | cons first later =>
      injection hlog with _ hrest
      exact .inr ⟨later, earlier, hrest, hearlier⟩
  · intro h
    cases h with
    | inl h => exact ⟨[], log, by rw [h.1, List.nil_append], h.2⟩
    | inr h =>
      have ⟨later, earlier, hlog, hearlier⟩ := h
      exact ⟨e :: later, earlier, by rw [hlog, List.cons_append], hearlier⟩

/-- Only a cancellation of the update itself counts. -/
theorem CancelledEarly.of_cons {i : Nat} {log : List Event} {e : Event} (he : e ≠ .cancelled i)
    (h : CancelledEarly i (e :: log)) : CancelledEarly i log :=
  (cancelledEarly_cons.mp h).resolve_left fun h => he h.1

/-- Once the commit section has been entered, a cancellation comes late. -/
theorem CancelledEarly.of_entered {i : Nat} {log : List Event} {e : Event}
    (hentered : .entered i ∈ log) (h : CancelledEarly i (e :: log)) : CancelledEarly i log :=
  (cancelledEarly_cons.mp h).resolve_left fun h => h.2 hentered

/-- An outcome stays one as long as nothing more is installed. -/
theorem Outcome.cons {i : Nat} {log : List Event} {before after : Contents}
    {result : Except String Unit} {e : Event} (he : ∀ bytes, e ≠ .installed i bytes)
    (h : Outcome i log before after result) : Outcome i (e :: log) before after result := by
  cases result with
  | ok _ =>
    have ⟨bytes, hmem, hafter⟩ := h
    exact ⟨bytes, List.mem_cons_of_mem _ hmem, hafter⟩
  | error text =>
    have ⟨hkept, hnone, hcleared⟩ := h
    refine ⟨hkept, ?_, hcleared.imp_right (Or.imp_right (List.mem_cons_of_mem _))⟩
    intro bytes hmem
    cases List.mem_cons.mp hmem with
    | inl hnew => exact he bytes hnew.symm
    | inr hold => exact hnone bytes hold

/-! ## The phases of an update -/

/-- The lock is held. -/
def inside : Phase → Bool
  | .committing _ | .renamed _ => true
  | _ => false

/-- The commit section has been entered, by an update that did not fail in it. -/
def arrived : Phase → Bool
  | .committing _ | .renamed _ | .refreshing _ | .finished (.ok _) | .reported (.ok _) => true
  | _ => false

/-- The check for a cancellation in the commit section has been passed. -/
def committed : Phase → Bool
  | .renamed _ | .refreshing _ | .finished (.ok _) | .reported (.ok _) => true
  | _ => false

/-- Who has committed has arrived. -/
theorem arrived_of_committed {p : Phase} (h : committed p = true) : arrived p = true := by
  cases p with
  | finished result => cases result <;> simp_all [committed, arrived]
  | reported result => cases result <;> simp_all [committed, arrived]
  | _ => simp_all [committed, arrived]

/-- The file and the reader while an update is in this phase. -/
def shows (start : Contents) (log : List Event) : Phase → Option Bytes × Option Bytes
  | .renamed bytes => (some bytes, (standing start log).2)
  | _ => standing start log

/-- What an update has done when it is in this phase. -/
def Due (i : Nat) (log : List Event) (before now : Contents) : Phase → Prop
  | .accepted | .downloading _ | .fetched _ | .validated _ | .wanted _ | .placed _ =>
    now = before ∧ ∀ bytes, .installed i bytes ∉ log
  | .opened _ | .failed _ => Kept before now ∧ ∀ bytes, .installed i bytes ∉ log
  | .written bytes | .synced bytes | .committing bytes =>
    Kept before now ∧ now.temp = some bytes ∧ ∀ bytes, .installed i bytes ∉ log
  | .renamed bytes => now = ⟨some bytes, before.reader, none⟩
  | .refreshing bytes => .installed i bytes ∈ log ∧ now = ⟨some bytes, some bytes, none⟩
  | .finished result | .reported result => Outcome i log before now result

/-- Before its commit an update has changed neither the file nor the reader. -/
theorem Due.uncommitted {i : Nat} {log : List Event} {before now : Contents} {p : Phase}
    (h : Due i log before now p) (hp : committed p = false) :
    Kept before now ∧ ∀ bytes, .installed i bytes ∉ log := by
  have hsame (hnow : now = before) : Kept before now := hnow ▸ ⟨rfl, rfl⟩
  cases p with
  | opened _ | failed _ => exact h
  | written _ | synced _ | committing _ => exact ⟨h.1, h.2.2⟩
  | renamed _ | refreshing _ => cases hp
  | finished result | reported result =>
    cases result with
    | ok _ => cases hp
    | error _ => exact ⟨h.1, h.2.1⟩
  | _ => exact ⟨hsame h.1, h.2⟩

/-- An update that fails before it opens a file has changed nothing. -/
theorem Due.untouched {i : Nat} {log : List Event} {before now : Contents} {text : String}
    (hnow : now = before) (hnone : ∀ bytes, .installed i bytes ∉ log) :
    Due i log before now (.finished (.error text)) := by
  subst hnow
  exact ⟨⟨rfl, rfl⟩, hnone, .inr (.inl rfl)⟩

/-- What is due stays due as long as nothing more is installed. -/
theorem Due.cons {i : Nat} {log : List Event} {before now : Contents} {p : Phase} {e : Event}
    (he : ∀ bytes, e ≠ .installed i bytes) (h : Due i log before now p) :
    Due i (e :: log) before now p := by
  have hnone : (∀ bytes, .installed i bytes ∉ log) → ∀ bytes, .installed i bytes ∉ e :: log := by
    intro hlog bytes hmem
    cases List.mem_cons.mp hmem with
    | inl hnew => exact he bytes hnew.symm
    | inr hold => exact hlog bytes hold
  cases p with
  | renamed _ => exact h
  | refreshing _ => exact ⟨List.mem_cons_of_mem _ h.1, h.2⟩
  | finished _ => exact Outcome.cons he h
  | reported _ => exact Outcome.cons he h
  | written _ => exact ⟨h.1, h.2.1, hnone h.2.2⟩
  | synced _ => exact ⟨h.1, h.2.1, hnone h.2.2⟩
  | committing _ => exact ⟨h.1, h.2.1, hnone h.2.2⟩
  | _ => exact ⟨h.1, hnone h.2⟩

/-! ## One call of an update -/

variable {lib : Maxmind} {i : Nat} {s after : Shared} {p p' : Phase} {e : Event}

/-- An update reports only its own progress. -/
theorem work_event (h : Work lib i s p e after p') :
    e = .worked i ∨ e = .entered i ∨ e = .unremoved i ∨
      ∃ bytes, e = .installed i bytes ∧ p = .renamed bytes := by
  cases h with
  | entered => exact .inr (.inl rfl)
  | unremoved => exact .inr (.inr (.inl rfl))
  | installed bytes => exact .inr (.inr (.inr ⟨bytes, rfl, rfl⟩))
  | _ => exact .inl rfl

/-- It is about that update. -/
theorem work_about (h : Work lib i s p e after p') : e.about = some i := by
  rcases work_event h with he | he | he | ⟨_, he, _⟩ <;> rw [he] <;> rfl

/-- So no update is accepted, -/
theorem work_not_accepted (h : Work lib i s p e after p') {j : Nat} {before : Contents} :
    e ≠ .accepted j before := by
  rcases work_event h with he | he | he | ⟨_, he, _⟩ <;> rw [he] <;> intro heq <;> cases heq

/-- none is cancelled, -/
theorem work_not_cancelled (h : Work lib i s p e after p') {j : Nat} : e ≠ .cancelled j := by
  rcases work_event h with he | he | he | ⟨_, he, _⟩ <;> rw [he] <;> intro heq <;> cases heq

/-- and none ends. -/
theorem work_not_ended (h : Work lib i s p e after p') {j : Nat} {result : Except String Unit}
    {left : Contents} : e ≠ .ended j result left := by
  rcases work_event h with he | he | he | ⟨_, he, _⟩ <;> rw [he] <;> intro heq <;> cases heq

/-- The lock is held wherever the section is. -/
theorem work_inside (h : Work lib i s p e after p')
    (hheld : inside p = true → s.locked = true) : inside p' = true → after.locked = true := by
  cases h with
  | entered => exact fun _ => rfl
  | renamed => exact fun _ => hheld rfl
  | _ => exact fun hp => by cases hp

/-- An update arrives by taking the lock. -/
theorem work_arrived (h : Work lib i s p e after p') (hp : arrived p' = true) :
    e = .entered i ∨ arrived p = true := by
  cases h with
  | entered => exact .inl rfl
  | renamed => exact .inr rfl
  | installed => exact .inr rfl
  | refreshed => exact .inr rfl
  | settled result =>
    cases result with
    | ok _ => exact .inr rfl
    | error _ => cases hp
  | _ => cases hp

/-- Nothing is committed but past the check for a cancellation. -/
theorem work_committed (h : Work lib i s p e after p') (hp : committed p' = true) :
    s.cancelled i = false ∨ committed p = true := by
  cases h with
  | renamed _ _ hcancelled _ => exact .inl hcancelled
  | installed => exact .inr rfl
  | refreshed => exact .inr rfl
  | settled result =>
    cases result with
    | ok _ => exact .inr rfl
    | error _ => cases hp
  | _ => cases hp

/-- A token stays cancelled. -/
theorem work_cancelled (h : Work lib i s p e after p') {j : Nat}
    (hj : s.cancelled j = true) : after.cancelled j = true := by
  cases h with
  | settled result =>
    by_cases hji : j = i
    · subst hji
      simp [Shared.settled, hj]
    · simpa [Shared.settled, Function.update_of_ne hji] using hj
  | _ => exact hj

/-- What a call does to the file, the reader and the temporary file. -/
theorem work_due {log : List Event} {before : Contents} (h : Work lib i s p e after p')
    (hdue : Due i log before s.contents p) : Due i (e :: log) before after.contents p' := by
  have hworked {now : Contents} {q : Phase} (hq : Due i log before now q) :
      Due i (.worked i :: log) before now q := Due.cons (fun _ he => by cases he) hq
  cases h with
  | entered => exact Due.cons (fun _ he => by cases he) hdue
  | unremoved text =>
    have ⟨hkept, hnone⟩ := Due.cons (e := .unremoved i) (fun _ he => by cases he) hdue
    exact ⟨hkept, hnone, .inr (.inr List.mem_cons_self)⟩
  | installed bytes =>
    have hnow : s.contents = ⟨some bytes, before.reader, none⟩ := hdue
    exact ⟨List.mem_cons_self, by rw [hnow]⟩
  | refreshed bytes => exact ⟨bytes, hworked hdue⟩
  | renamed bytes moved _ hmoved =>
    have ⟨hkept, htemp, _⟩ := hdue
    have hbytes : moved = bytes := Option.some.inj (hmoved.symm.trans htemp)
    have hnow : (⟨some moved, s.contents.reader, none⟩ : Contents) =
        ⟨some bytes, before.reader, none⟩ := by rw [hbytes, hkept.2]
    exact hnow
  -- the temporary file is written or removed
  | opened | unwritten => exact (hworked hdue).uncommitted rfl
  | written =>
    have ⟨hkept, hnone⟩ := (hworked hdue).uncommitted rfl
    exact ⟨hkept, rfl, hnone⟩
  | removed =>
    have ⟨hkept, hnone⟩ := (hworked hdue).uncommitted rfl
    exact ⟨hkept, hnone, .inl rfl⟩
  -- an error from the opening of the file on, and one before
  | unopened | unsynced | withdrawn | unrenamed => exact (hworked hdue).uncommitted rfl
  | tooLarge | undelivered | timedOut | stopped | invalid | unwanted | unplaced =>
    have ⟨hnow, hnone⟩ := hworked hdue
    exact Due.untouched hnow hnone
  | _ => exact hworked hdue

/-- The file and the reader follow the history through a call. -/
theorem work_shows {start : Contents} {log : List Event} (h : Work lib i s p e after p')
    (hshown : (s.contents.file, s.contents.reader) = shows start log p)
    (htemp : ∀ bytes, p = .committing bytes → s.contents.temp = some bytes) :
    (after.contents.file, after.contents.reader) = shows start (e :: log) p' := by
  have hfile := congrArg Prod.fst hshown
  have hreader := congrArg Prod.snd hshown
  cases h with
  | renamed bytes moved _ hmoved =>
    have hbytes : moved = bytes := Option.some.inj (hmoved.symm.trans (htemp bytes rfl))
    exact Prod.ext (by rw [hbytes]; rfl) hreader
  | installed bytes => exact Prod.ext hfile rfl
  | _ => exact hshown

/-! ## Whole histories -/

/-- What holds of a hub after any history. -/
structure Invariant (start : Contents) (log : List Event) (s : Hub) : Prop where
  /-- Whoever is at work has the token. -/
  live : ∀ i p, s.tasks i = some p → s.active = some i
  /-- The token is one that was given. -/
  named : ∀ i, s.active = some i → i < s.issued
  /-- So is that of every event. -/
  told : ∀ e ∈ log, ∀ i, e.about = some i → i < s.issued
  /-- Early cancellations are still there to be seen. -/
  heard : ∀ i, CancelledEarly i log → s.shared.cancelled i = true
  /-- With nobody at work file and reader are those installed last. -/
  resting : (∀ i, s.tasks i = none) →
    (s.shared.contents.file, s.shared.contents.reader) = standing start log
  /-- With somebody at work they are what its phase says. -/
  shown : ∀ i p, s.tasks i = some p →
    (s.shared.contents.file, s.shared.contents.reader) = shows start log p
  /-- Whoever is at work was accepted. -/
  begun : ∀ i p, s.tasks i = some p → ∃ before, .accepted i before ∈ log
  /-- What it leaves is what is due by now. -/
  due : ∀ i p, s.tasks i = some p → ∀ before, .accepted i before ∈ log →
    Due i log before s.shared.contents p
  /-- The lock is held in the section. -/
  held : ∀ i p, s.tasks i = some p → inside p = true → s.shared.locked = true
  /-- Who has arrived has entered. -/
  entered : ∀ i p, s.tasks i = some p → arrived p = true → .entered i ∈ log
  /-- Who has committed was not cancelled in time. -/
  heeded : ∀ i p, s.tasks i = some p → committed p = true → ¬ CancelledEarly i log
  /-- Nor who has installed. -/
  installed : ∀ i bytes, .installed i bytes ∈ log → .entered i ∈ log ∧ ¬ CancelledEarly i log
  /-- Whatever has ended ended as it should. -/
  outcome : ∀ i result after, .ended i result after ∈ log → s.tasks i = none ∧
    ∀ before, .accepted i before ∈ log → Outcome i log before after result

variable {validUrl : String → Bool} {start : Contents} {log : List Event} {hub : Hub}

/-- A hub that has just started. -/
theorem invariant_new (file temp : Option Bytes) :
    Invariant (found lib file temp) [] (Hub.new lib file temp) where
  live _ _ h := by cases h
  named _ h := by cases h
  told _ h := by cases h
  heard _ h := by
    have ⟨later, earlier, hlog, _⟩ := h
    cases later <;> cases hlog
  resting _ := rfl
  shown _ _ h := by cases h
  begun _ _ h := by cases h
  due _ _ h := by cases h
  held _ _ h := by cases h
  entered _ _ h := by cases h
  heeded _ _ h := by cases h
  installed _ _ h := by cases h
  outcome _ _ _ h := by cases h

/-- The event is not the one a membership asks for. -/
theorem mem_of_cons {e e' : Event} (hne : e' ≠ e) (h : e' ∈ e :: log) : e' ∈ log :=
  (List.mem_cons.mp h).resolve_left hne

/-- One more event, where the hub stays: a cancellation must be known to it, and
an ended update must be gone. -/
theorem Invariant.extend {e : Event} (h : Invariant start log hub)
    (hwho : ∀ i, e.about = some i → i < hub.issued)
    (hcancelled : ∀ i, e = .cancelled i → hub.shared.cancelled i = true)
    (hended : ∀ i result after, e = .ended i result after → hub.tasks i = none ∧
      ∀ before, .accepted i before ∈ log → Outcome i log before after result)
    (haccepted : ∀ i before, e ≠ .accepted i before)
    (hinstalled : ∀ i bytes, e ≠ .installed i bytes) : Invariant start (e :: log) hub := by
  have hstanding : standing start (e :: log) = standing start log := by
    cases e with
    | installed i bytes => exact absurd rfl (hinstalled i bytes)
    | _ => rfl
  have hshows (p : Phase) : shows start (e :: log) p = shows start log p := by
    cases p <;> simp only [shows, hstanding]
  have hbefore {i : Nat} {before : Contents} (hmem : .accepted i before ∈ e :: log) :
      .accepted i before ∈ log := mem_of_cons (haccepted i before).symm hmem
  exact {
    live := h.live
    named := h.named
    told := by
      intro e' hmem i hi
      cases List.mem_cons.mp hmem with
      | inl hnew => exact hwho i (hnew ▸ hi)
      | inr hold => exact h.told e' hold i hi
    heard := by
      intro i hearly
      cases cancelledEarly_cons.mp hearly with
      | inl hnew => exact hcancelled i hnew.1
      | inr hold => exact h.heard i hold
    resting := fun hnone => hstanding ▸ h.resting hnone
    shown := fun i p hp => hshows p ▸ h.shown i p hp
    begun := fun i p hp =>
      (h.begun i p hp).imp fun before hmem => List.mem_cons_of_mem _ hmem
    due := fun i p hp before hmem => (h.due i p hp before (hbefore hmem)).cons (hinstalled i)
    held := h.held
    entered := fun i p hp hentered => List.mem_cons_of_mem _ (h.entered i p hp hentered)
    heeded := fun i p hp hcommitted hearly => h.heeded i p hp hcommitted
      (hearly.of_entered (h.entered i p hp (arrived_of_committed hcommitted)))
    installed := by
      intro i bytes hmem
      have ⟨hentered, hlate⟩ := h.installed i bytes (mem_of_cons (hinstalled i bytes).symm hmem)
      exact ⟨List.mem_cons_of_mem _ hentered, fun hearly => hlate (hearly.of_entered hentered)⟩
    outcome := by
      intro i result after hmem
      have hknown : hub.tasks i = none ∧
          ∀ before, .accepted i before ∈ log → Outcome i log before after result := by
        cases List.mem_cons.mp hmem with
        | inl hnew => exact hended i result after hnew.symm
        | inr hold => exact h.outcome i result after hold
      exact ⟨hknown.1, fun before hmem' => (hknown.2 before (hbefore hmem')).cons (hinstalled i)⟩ }

/-- With no token in use there is no update. -/
theorem Invariant.idle (h : Invariant start log hub) (hactive : hub.active = none) (i : Nat) :
    hub.tasks i = none := by
  cases hp : hub.tasks i with
  | none => rfl
  | some p =>
    have hlive := h.live i p hp
    rw [hactive] at hlive
    cases hlive

/-- A new update is known by a number no event has used. -/
theorem Invariant.accept (h : Invariant start log hub) (hactive : hub.active = none) :
    Invariant start (.accepted hub.issued hub.shared.contents :: log)
      { shared := { hub.shared with
          cancelled := Function.update hub.shared.cancelled hub.issued false }
        active := some hub.issued
        issued := hub.issued + 1
        tasks := Function.update hub.tasks hub.issued (some .accepted) } := by
  have hnone := h.idle hactive
  have hunused {e : Event} (he : e.about = some hub.issued) : e ∉ log :=
    fun hmem => Nat.lt_irrefl _ (h.told e hmem _ he)
  have honly {i : Nat} {p : Phase}
      (hp : Function.update hub.tasks hub.issued (some .accepted) i = some p) :
      i = hub.issued ∧ p = .accepted := by
    by_cases hi : i = hub.issued
    · rw [hi, Function.update_self] at hp
      exact ⟨hi, (Option.some.inj hp).symm⟩
    · rw [Function.update_of_ne hi, hnone i] at hp
      cases hp
  have hearly {i : Nat} (hc : CancelledEarly i (.accepted hub.issued hub.shared.contents :: log)) :
      CancelledEarly i log := hc.of_cons (fun he => by cases he)
  have hknown {e : Event} {i : Nat} (hmem : e ∈ log) (he : e.about = some i) : i ≠ hub.issued :=
    Nat.ne_of_lt (h.told e hmem i he)
  exact {
    live := fun i p hp => congrArg some (honly hp).1.symm
    named := fun i hi => Option.some.inj hi ▸ Nat.lt_succ_self _
    told := by
      intro e hmem i hi
      cases List.mem_cons.mp hmem with
      | inl hnew =>
        subst hnew
        exact Option.some.inj hi ▸ Nat.lt_succ_self _
      | inr hold => exact Nat.lt_succ_of_lt (h.told e hold i hi)
    heard := by
      intro i hc
      have ⟨later, earlier, hlog, _⟩ := hearly hc
      have hmem : Event.cancelled i ∈ log := by
        rw [hlog]
        exact List.mem_append_right _ List.mem_cons_self
      have hflag := h.heard i (hearly hc)
      simpa [Function.update_of_ne (hknown hmem rfl)] using hflag
    resting := by
      intro hall
      have hself := hall hub.issued
      simp at hself
    shown := by
      intro i p hp
      rw [(honly hp).2]
      exact h.resting hnone
    begun := by
      intro i p hp
      rw [(honly hp).1]
      exact ⟨_, List.mem_cons_self⟩
    due := by
      intro i p hp before hmem
      rw [(honly hp).1] at hmem ⊢
      rw [(honly hp).2]
      have hbefore : before = hub.shared.contents := by
        cases List.mem_cons.mp hmem with
        | inl hnew =>
          injection hnew
        | inr hold => exact absurd hold (hunused rfl)
      refine ⟨hbefore.symm, ?_⟩
      intro bytes hmem'
      exact hunused rfl (mem_of_cons (fun he => by cases he) hmem')
    held := by
      intro i p hp hinside
      rw [(honly hp).2] at hinside
      cases hinside
    entered := by
      intro i p hp hentered
      rw [(honly hp).2] at hentered
      cases hentered
    heeded := by
      intro i p hp hcommitted
      rw [(honly hp).2] at hcommitted
      cases hcommitted
    installed := by
      intro i bytes hmem
      have ⟨hentered, hlate⟩ := h.installed i bytes (mem_of_cons (fun he => by cases he) hmem)
      exact ⟨List.mem_cons_of_mem _ hentered, fun hc => hlate (hearly hc)⟩
    outcome := by
      intro i result after hmem
      have hold := mem_of_cons (fun he => by cases he) hmem
      have hne := hknown hold rfl
      have ⟨hgone, houtcome⟩ := h.outcome i result after hold
      refine ⟨(Function.update_of_ne hne _ _).trans hgone, ?_⟩
      intro before hmem'
      have hbefore := mem_of_cons (fun he => hne (by injection he)) hmem'
      exact (houtcome before hbefore).cons (fun _ he => by cases he) }

/-- A cancellation reaches the update in progress. -/
theorem Invariant.cancel (h : Invariant start log hub) {i : Nat} (hactive : hub.active = some i) :
    Invariant start (.cancelled i :: log)
      { hub with shared := { hub.shared with
        cancelled := Function.update hub.shared.cancelled i true } } := by
  have hflagged : Invariant start log { hub with shared := { hub.shared with
      cancelled := Function.update hub.shared.cancelled i true } } := {
    h with
    heard := by
      intro j hearly
      by_cases hj : j = i
      · subst hj
        simp
      · simpa [Function.update_of_ne hj] using h.heard j hearly }
  refine hflagged.extend ?_ ?_ ?_ ?_ ?_
  · intro j hj
    exact Option.some.inj hj ▸ h.named i hactive
  · intro j hj
    injection hj with hj
    simp [hj]
  · intro _ _ _ he
    cases he
  · intro _ _ he
    cases he
  · intro _ _ he
    cases he

/-- The update in progress is the only one that has a task. -/
theorem Invariant.only (h : Invariant start log hub) {i j : Nat} {o : Option Phase} {q : Phase}
    (hactive : hub.active = some i) (hq : Function.update hub.tasks i o j = some q) :
    j = i ∧ o = some q := by
  by_cases hj : j = i
  · rw [hj, Function.update_self] at hq
    exact ⟨hj, hq⟩
  · rw [Function.update_of_ne hj] at hq
    exact absurd (Option.some.inj ((h.live j q hq).symm.trans hactive)) hj

/-- The end of the update in progress. -/
theorem Invariant.finish (h : Invariant start log hub) {i : Nat} {result : Except String Unit}
    (hphase : hub.tasks i = some (.reported result)) :
    Invariant start (.ended i result hub.shared.contents :: log)
      { hub with active := none, tasks := Function.update hub.tasks i none } := by
  have hactive := h.live i _ hphase
  have hempty {p : Phase} {j : Nat} (hp : Function.update hub.tasks i none j = some p) : False := by
    obtain ⟨-, hnone⟩ := h.only hactive hp
    cases hnone
  have hgone (j : Nat) : Function.update hub.tasks i none j = none :=
    Option.eq_none_iff_forall_ne_some.mpr fun _ hp => hempty hp
  have hover : Invariant start log
      { hub with active := none, tasks := Function.update hub.tasks i none } := {
    live := fun j p hp => (hempty hp).elim
    named := fun j hj => by cases hj
    told := h.told
    heard := h.heard
    resting := fun _ => h.shown i _ hphase
    shown := fun j p hp => (hempty hp).elim
    begun := fun j p hp => (hempty hp).elim
    due := fun j p hp => (hempty hp).elim
    held := fun j p hp => (hempty hp).elim
    entered := fun j p hp => (hempty hp).elim
    heeded := fun j p hp => (hempty hp).elim
    installed := h.installed
    outcome := fun j result after hmem => ⟨hgone j, (h.outcome j result after hmem).2⟩ }
  refine hover.extend ?_ ?_ ?_ ?_ ?_
  · intro j hj
    exact Option.some.inj hj ▸ h.named i hactive
  · intro _ he
    cases he
  · intro j result' after he
    injection he with hj hresult hafter
    subst hj hresult hafter
    exact ⟨hgone i, fun before hmem => h.due i _ hphase before hmem⟩
  · intro _ _ he
    cases he
  · intro _ _ he
    cases he

/-- A call of the update in progress. -/
theorem Invariant.work (h : Invariant start log hub) (hphase : hub.tasks i = some p)
    (hwork : Work lib i hub.shared p e after p') :
    Invariant start (e :: log)
      { hub with shared := after, tasks := Function.update hub.tasks i (some p') } := by
  have hactive := h.live i p hphase
  have habout := work_about hwork
  have honly {j : Nat} {q : Phase}
      (hq : Function.update hub.tasks i (some p') j = some q) : j = i ∧ q = p' := by
    obtain ⟨hj, hp⟩ := h.only hactive hq
    exact ⟨hj, (Option.some.inj hp).symm⟩
  have hearly {j : Nat} (hc : CancelledEarly j (e :: log)) : CancelledEarly j log :=
    hc.of_cons (work_not_cancelled hwork)
  have haccepted {j : Nat} {before : Contents} (hmem : .accepted j before ∈ e :: log) :
      .accepted j before ∈ log := mem_of_cons (work_not_accepted hwork).symm hmem
  have ⟨before, hbefore⟩ := h.begun i p hphase
  have hdue := h.due i p hphase before hbefore
  have hheeded : committed p' = true → ¬ CancelledEarly i log := by
    intro hp hc
    cases work_committed hwork hp with
    | inl hfalse => exact Bool.false_ne_true (hfalse.symm.trans (h.heard i hc))
    | inr hpast => exact h.heeded i p hphase hpast hc
  have hentered : arrived p' = true → .entered i ∈ e :: log := by
    intro hp
    cases work_arrived hwork hp with
    | inl hnew => exact hnew ▸ List.mem_cons_self
    | inr hold => exact List.mem_cons_of_mem _ (h.entered i p hphase hold)
  exact {
    live := fun j q hq => (honly hq).1 ▸ hactive
    named := h.named
    told := by
      intro e' hmem j hj
      cases List.mem_cons.mp hmem with
      | inl hnew =>
        rw [hnew, habout] at hj
        exact Option.some.inj hj ▸ h.named i hactive
      | inr hold => exact h.told e' hold j hj
    heard := fun j hc => work_cancelled hwork (h.heard j (hearly hc))
    resting := by
      intro hall
      have hself := hall i
      simp at hself
    shown := by
      intro j q hq
      rw [(honly hq).2]
      refine work_shows hwork (h.shown i p hphase) ?_
      intro bytes hp
      subst hp
      exact hdue.2.1
    begun := fun j q hq => ⟨before, (honly hq).1 ▸ List.mem_cons_of_mem _ hbefore⟩
    due := by
      intro j q hq before hmem
      rw [(honly hq).1] at hmem ⊢
      rw [(honly hq).2]
      exact work_due hwork (h.due i p hphase before (haccepted hmem))
    held := fun j q hq hinside =>
      work_inside hwork (h.held i p hphase) ((honly hq).2 ▸ hinside)
    entered := fun j q hq hq' => (honly hq).1 ▸ hentered ((honly hq).2 ▸ hq')
    heeded := fun j q hq hq' hc =>
      hheeded ((honly hq).2 ▸ hq') ((honly hq).1 ▸ hearly hc)
    installed := by
      intro j bytes hmem
      have hknown : .entered j ∈ log ∧ ¬ CancelledEarly j log := by
        cases List.mem_cons.mp hmem with
        | inr hold => exact h.installed j bytes hold
        | inl hnew =>
          -- the update that installs has passed the check
          rcases work_event hwork with he | he | he | ⟨_, he, hp⟩ <;> rw [he] at hnew <;> cases hnew
          subst hp
          exact ⟨h.entered _ _ hphase rfl, h.heeded _ _ hphase rfl⟩
      exact ⟨List.mem_cons_of_mem _ hknown.1, fun hc => hknown.2 (hearly hc)⟩
    outcome := by
      intro j result left hmem
      have hended := mem_of_cons (work_not_ended hwork).symm hmem
      have ⟨hgone, houtcome⟩ := h.outcome j result left hended
      have hne : j ≠ i := by
        intro hj
        rw [hj, hphase] at hgone
        cases hgone
      refine ⟨(Function.update_of_ne hne _ _).trans hgone, ?_⟩
      intro before hmem'
      refine (houtcome before (haccepted hmem')).cons ?_
      intro bytes he
      rw [he] at habout
      exact hne (Option.some.inj habout) }

/-- A request that is turned down is about no update. -/
theorem Invariant.refuse (h : Invariant start log hub) (he : e.about = none) :
    Invariant start (e :: log) hub := by
  have hne {e' : Event} {j : Nat} (hj : e'.about = some j) : e ≠ e' := by
    intro heq
    rw [← heq, he] at hj
    cases hj
  refine h.extend ?_ ?_ ?_ ?_ ?_
  · intro j hj
    rw [he] at hj
    cases hj
  · intro j heq
    exact absurd heq (hne rfl)
  · intro j result left heq
    exact absurd heq (hne rfl)
  · exact fun _ _ => hne rfl
  · exact fun _ _ => hne rfl

/-- One thing that happens keeps the invariant. -/
theorem Invariant.step {hub' : Hub} (h : Invariant start log hub)
    (hstep : Step lib validUrl hub e hub') : Invariant start (e :: log) hub' := by
  cases hstep with
  | update url _ =>
    unfold CountryUpdates.update
    split
    · split
      next => exact h.refuse rfl
      next hactive => exact h.accept hactive
    · exact h.refuse rfl
  | cancel _ =>
    unfold CountryUpdates.cancel
    split
    next i hactive => exact h.cancel hactive
    next => exact h.refuse rfl
  | work i _ p p' after hphase hwork => exact h.work hphase hwork
  | ended i result hphase _ => exact h.finish hphase

/-- So it holds in every run. -/
theorem run_invariant {file temp : Option Bytes} (hrun : Run lib validUrl file temp log hub) :
    Invariant (found lib file temp) log hub := by
  induction hrun with
  | start => exact invariant_new file temp
  | step log s s' e _ hstep ih => exact ih.step hstep

/-- An update that succeeds leaves what it installed, in the file and in the
reader, and no temporary file. -/
theorem successful_update {file temp : Option Bytes} (hrun : Run lib validUrl file temp log hub)
    {i : Nat} {before left : Contents} (hbefore : .accepted i before ∈ log)
    (hended : .ended i (.ok ()) left ∈ log) :
    ∃ bytes, .installed i bytes ∈ log ∧ left = ⟨some bytes, some bytes, none⟩ :=
  ((run_invariant hrun).outcome i _ left hended).2 before hbefore

/-! ## Histories of one update -/

/-- A library that takes every file. -/
def takesAll : Maxmind where
  fromSource _ := .ok ()
  databaseType _ := "GeoLite2-Country"
  verify _ := .ok ()

/-- A call of an update as one step of a history. -/
theorem Run.call {file temp : Option Bytes} (hrun : Run lib validUrl file temp log hub)
    (hphase : hub.tasks i = some p) (hwork : Work lib i hub.shared p e after p') :
    Run lib validUrl file temp (e :: log)
      { hub with shared := after, tasks := Function.update hub.tasks i (some p') } :=
  .step _ _ _ _ hrun (.work _ i e p p' after hphase hwork)

/-- A request to cancel the update in progress as one step of a history. -/
theorem Run.cancel {file temp : Option Bytes} (hrun : Run lib validUrl file temp log hub)
    (hactive : hub.active = some i) (hlocked : hub.shared.locked = false) :
    Run lib validUrl file temp (.cancelled i :: log)
      { hub with shared := { hub.shared with
        cancelled := Function.update hub.shared.cancelled i true } } := by
  have hanswer : CountryUpdates.cancel hub = (.cancelled i, { hub with shared := { hub.shared with
      cancelled := Function.update hub.shared.cancelled i true } }) := by
    simp [CountryUpdates.cancel, hactive]
  have hstep : Step lib validUrl hub _ _ := .cancel hub hlocked
  rw [hanswer] at hstep
  exact .step _ _ _ _ hrun hstep

/-- The first update of a hub, up to the opening of its file. -/
theorem opening_run : ∃ hub, Run takesAll (fun _ => true) none none
    [.worked 0, .worked 0, .worked 0, .worked 0, .worked 0, .worked 0, .accepted 0 ⟨none, none, none⟩]
    hub ∧ hub.tasks 0 = some (.opened []) ∧ hub.active = some 0 ∧ hub.shared.locked = false := by
  have haccepted := Run.step _ _ _ _ (@Run.start takesAll (fun _ => true) none none)
    (.update _ "" fun _ => rfl)
  have hbegun := Run.call (i := 0) haccepted rfl (.begun _)
  have hfetched := Run.call (i := 0) hbegun rfl (.fetched _ _)
  have hvalidated := Run.call (i := 0) hfetched rfl (.validated _ _ rfl)
  have hwanted := Run.call (i := 0) hvalidated rfl (.wanted _ _ rfl)
  have hplaced := Run.call (i := 0) hwanted rfl (.placed _ _)
  have hopened := Run.call (i := 0) hplaced rfl (.opened _ _)
  exact ⟨_, hopened, rfl, rfl, rfl⟩

/-! ## Every history -/

/-- One update runs at a time. The file and the reader are what was installed
last, or what the hub started with; between the renaming of a file and the
setting of its reader the lock is held. A cancellation answered before the
commit section keeps both as they were, and so does every update that fails,
with no temporary file of its own left unless its removal failed too. -/
theorem updates_exclusive_and_atomic (lib : Maxmind) (validUrl : String → Bool)
    (file temp : Option Bytes) (log : List Event) (hub : Hub)
    (hrun : Run lib validUrl file temp log hub) :
    (∀ i j, hub.Live i → hub.Live j → i = j) ∧
    ((hub.shared.contents.file, hub.shared.contents.reader) =
        standing (found lib file temp) log ∨
      hub.shared.locked = true ∧ ∃ i bytes, hub.tasks i = some (.renamed bytes) ∧
        hub.shared.contents.file = some bytes ∧
        hub.shared.contents.reader = (standing (found lib file temp) log).2) ∧
    (∀ i, CancelledEarly i log → (∀ bytes, .installed i bytes ∉ log) ∧
      ∀ before, .accepted i before ∈ log →
        (hub.Live i → Kept before hub.shared.contents) ∧
        ∀ result after, .ended i result after ∈ log → Kept before after) ∧
    ∀ i before text after, .accepted i before ∈ log → .ended i (.error text) after ∈ log →
      Kept before after ∧ (∀ bytes, .installed i bytes ∉ log) ∧
        (after.temp = none ∨ after.temp = before.temp ∨ .unremoved i ∈ log) := by
  have h := run_invariant hrun
  have hsome {i : Nat} (hlive : hub.Live i) : ∃ p, hub.tasks i = some p :=
    Option.ne_none_iff_exists'.mp hlive
  refine ⟨?_, ?_, ?_, ?_⟩
  · intro i j hi hj
    have ⟨p, hp⟩ := hsome hi
    have ⟨q, hq⟩ := hsome hj
    exact Option.some.inj ((h.live i p hp).symm.trans (h.live j q hq))
  · by_cases hall : ∀ i, hub.tasks i = none
    · exact .inl (h.resting hall)
    · have ⟨i, hi⟩ := not_forall.mp hall
      have ⟨p, hp⟩ := hsome hi
      have hshown := h.shown i p hp
      cases p with
      | renamed bytes =>
        exact .inr ⟨h.held i _ hp rfl, i, bytes, hp, congrArg Prod.fst hshown,
          congrArg Prod.snd hshown⟩
      | _ => exact .inl hshown
  · intro i hearly
    have hnever : ∀ bytes, .installed i bytes ∉ log :=
      fun bytes hmem => (h.installed i bytes hmem).2 hearly
    refine ⟨hnever, ?_⟩
    intro before hbefore
    constructor
    · intro hlive
      have ⟨p, hp⟩ := hsome hlive
      have hopen : committed p = false :=
        Bool.eq_false_iff.mpr fun hcommitted => h.heeded i p hp hcommitted hearly
      exact ((h.due i p hp before hbefore).uncommitted hopen).1
    · intro result after hended
      have houtcome := (h.outcome i result after hended).2 before hbefore
      cases result with
      | ok _ =>
        have ⟨bytes, hmem, _⟩ := houtcome
        exact absurd hmem (hnever bytes)
      | error _ => exact houtcome.1
  · intro i before text after hbefore hended
    exact (h.outcome i _ after hended).2 before hbefore

/-- An update that is cancelled in time installs nothing. -/
theorem updates_exclusive_and_atomic_cancelled : ∃ log hub,
    Run takesAll (fun _ => true) none none log hub ∧ CancelledEarly 0 log ∧ .entered 0 ∈ log ∧
    (∀ bytes, .installed 0 bytes ∉ log) ∧
    ∃ after, .ended 0 (.error "已取消") after ∈ log ∧ Kept ⟨none, none, none⟩ after := by
  have ⟨hub, hopening, hphase, hactive, hlocked⟩ := opening_run
  have hwritten := Run.call hopening hphase (.written _ _)
  have hsynced := Run.call (i := 0) hwritten rfl (.synced _ _)
  have hcancelled := Run.cancel hsynced hactive hlocked
  have hentered := Run.call (i := 0) hcancelled rfl (.entered _ _ hlocked)
  have hwithdrawn := Run.call (i := 0) hentered rfl (.withdrawn _ _ rfl)
  have hremoved := Run.call (i := 0) hwithdrawn rfl (.removed _ _)
  have hsettled := Run.call (i := 0) hremoved rfl (.settled _ _)
  have hended := Run.step _ _ _ _ hsettled (.ended _ 0 _ rfl rfl)
  have ⟨last, after, hrun⟩ : ∃ last after, Run takesAll (fun _ => true) none none
      ([.ended 0 (.error "已取消") after, .worked 0, .worked 0, .worked 0, .entered 0] ++
        .cancelled 0 :: (List.replicate 8 (.worked 0) ++ [.accepted 0 ⟨none, none, none⟩])) last :=
    ⟨_, _, hended⟩
  have ⟨hnever, hkept⟩ := (updates_exclusive_and_atomic _ _ _ _ _ _ hrun).2.2.1 0
    ⟨_, _, rfl, by simp⟩
  have hbefore := hkept ⟨none, none, none⟩ (by simp)
  exact ⟨_, last, hrun, ⟨_, _, rfl, by simp⟩, by simp, hnever, after,
    by simp, hbefore.2 _ _ List.mem_cons_self⟩

/-- A full disk that also refuses the removal leaves the temporary file. -/
theorem temporary_file_left : ¬ ∀ (lib : Maxmind) (validUrl : String → Bool)
    (file temp : Option Bytes) (log : List Event) (hub : Hub),
    Run lib validUrl file temp log hub → ∀ i before text after, .accepted i before ∈ log →
      .ended i (.error text) after ∈ log → before.temp = none → after.temp = none := by
  intro hall
  have ⟨hub, hopening, hphase, _, hlocked⟩ := opening_run
  have hunwritten := Run.call hopening hphase (.unwritten _ _ [] "No space left on device")
  have hunremoved := Run.call (i := 0) hunwritten rfl (.unremoved _ _)
  have hsettled := Run.call (i := 0) hunremoved rfl (.settled _ _)
  have hended := Run.step _ _ _ _ hsettled (.ended _ 0 _ rfl hlocked)
  have hgone := hall _ _ _ _ _ _ hended 0 ⟨none, none, none⟩ _ _ (by simp) List.mem_cons_self rfl
  cases hgone

end Romi.UpdateOutcomes
