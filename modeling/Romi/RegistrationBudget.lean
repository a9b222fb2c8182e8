import Romi.AdmissionLog
import Romi.NodeCreation
import Romi.RevokedKeys

/-!
# How many nodes a window admits

A registration counts the nodes made since the beginning of the window it has
read, inside the transaction that makes its own. Whatever a request has read,
its window began when some window was opened, or before all of this, and never
after its node was made.
-/

namespace Romi.RegistrationBudget

open AdmissionLog CachedTransactions KeyedTable NodeContinuity NodeCreation NotifySweep
  RegistrationKeys RegistrationSteps StoreAnswers StoreGuard StoreJobs StoreOperations StoreSchema

variable {host : Host} {t₀ : Nat} {s s' : State}

/-! ## Reading back a number -/

/-- Digits read from the left. -/
theorem foldl_digits (digits : List Char) (m : Nat) :
    digits.foldl (fun (n : Int) c => n * 10 + (c.toNat - 48 : Nat)) m =
      (Nat.ofDigitChars 10 digits m : Nat) := by
  induction digits generalizing m with
  | nil => rfl
  | cons c rest ih =>
    have hstep : (m : Int) * 10 + (c.toNat - 48 : Nat) = ((10 * m + (c.toNat - 48) : Nat) : Int) := by
      omega
    rw [List.foldl_cons, hstep, ih, Nat.ofDigitChars_cons]
    rfl

/-- What was written as a number is read as that number, or not at all. -/
theorem parseI64_toString {n : Nat} {u : Int} (h : parseI64 (toString n) = some u) : u = n := by
  have hdigit : ∀ c ∈ Nat.toDigits 10 n, c.isDigit = true := by
    intro c hc
    exact Nat.isDigit_of_mem_toDigits (by decide) (by decide) hc
  have hsign : ∀ c rest, Nat.toDigits 10 n = c :: rest → c.isDigit = true := by
    intro c rest heq
    refine hdigit c ?_
    rw [heq]
    exact List.mem_cons_self
  unfold parseI64 at h
  rw [Nat.toString_eq_repr, Nat.toList_repr] at h
  split at h
  rename_i negative digits hmatch
  have hplain : negative = false ∧ digits = Nat.toDigits 10 n := by
    split at hmatch
    · rename_i rest heq
      exact absurd (hsign _ _ heq) (by decide)
    · rename_i rest heq
      exact absurd (hsign _ _ heq) (by decide)
    · cases hmatch
      exact ⟨rfl, rfl⟩
  obtain ⟨rfl, rfl⟩ := hplain
  have hvalue := foldl_digits (Nat.toDigits 10 n) 0
  rw [Nat.ofDigitChars_ten_toDigits] at hvalue
  simp only [Bool.false_eq_true, if_false] at h
  split at h
  · split at h
    · cases h
      exact hvalue
    · cases h
  · cases h

/-! ## Where windows begin -/

/-- A window begins where one was opened, or not after the start. -/
def Known (t₀ : Nat) (opened : List Int) (begins : Int) : Prop := begins ≤ t₀ ∨ begins ∈ opened

/-- The beginning of the window a request goes by. -/
def begins : Request → Option Int
  | .halfRead _ closes | .read _ closes _ _ => some (closes - registerWindow)
  | .cleared _ since _ _ => some since
  | _ => none

/-- When an opening read the clock. -/
def openingAt : Manager → Option Nat
  | .opening _ at_ | .counted _ at_ _ | .keyed _ at_ _ | .marked _ at_ => some at_
  | _ => none

/-- Everything the count relies on, in a run that started at `t₀`. -/
structure Bounded (t₀ : Nat) (s : State) : Prop where
  /-- The clock goes on. -/
  clock : t₀ ≤ s.now
  /-- Every opening was between then and now. -/
  opened : ∀ x ∈ s.opened, (t₀ : Int) ≤ x ∧ x ≤ s.now
  /-- So was every one that is about to be written. -/
  opening : ∀ j at_, openingAt (s.manager j) = some at_ → t₀ ≤ at_ ∧ at_ ≤ s.now
  /-- The end that is stored is that of an opening. -/
  stored : ∀ text u, stored s.db "register_until" = some text → parseI64 text = some u →
    Known t₀ s.opened (u - registerWindow)
  /-- A registration under way belongs to an opening. -/
  requests : ∀ i x, begins (s.request i) = some x → Known t₀ s.opened x
  /-- So does every node that was created. -/
  grants : ∀ g ∈ s.grants, Known t₀ s.opened g.since ∧ g.since ≤ g.made
  /-- And its row is there with the time it was created. -/
  rows : ∀ g ∈ s.grants, ∃ r ∈ s.db.node.rows, r.id = g.node ∧ r.createdAt = g.made
  /-- No two nodes have one id. -/
  apart : (s.grants.map Grant.node).Nodup
  /-- No opening has more nodes than it may. -/
  counted : Counted Grant.made Grant.since registerLimit s.grants

/-- A hub that has just started, on a store whose window was not opened later. -/
theorem bounded_start {db : Store} (hwindow : ∀ text u,
    StoreAnswers.stored db "register_until" = some text → parseI64 text = some u →
      u ≤ t₀ + registerWindow) : Bounded t₀ (.start db t₀) := by
  refine ⟨le_refl _, nofun, nofun, ?_, nofun, nofun, nofun, List.nodup_nil, trivial⟩
  intro text u htext hparse
  have hle := hwindow text u htext hparse
  exact .inl (by omega)

/-! ## One step -/

/-- What a request reads as the end of the window is a window's end or no number at all. -/
theorem known_closesAt (h : Bounded t₀ s) {value : Option String}
    (hget : Got s.db "register_until" value) :
    Known t₀ s.opened (closesAt value - registerWindow) := by
  have hclosed : Known t₀ s.opened (0 - registerWindow) := .inl (by unfold registerWindow; omega)
  cases value with
  | none => exact hclosed
  | some text =>
    rcases hget with hnone | hsome
    · cases hnone
    · cases hparse : parseI64 text with
      | none =>
        have hzero : closesAt (some text) = 0 := by
          unfold closesAt
          rw [Option.bind_some, hparse, Option.getD_none]
        rw [hzero]
        exact hclosed
      | some u =>
        have hvalue : closesAt (some text) = u := by
          unfold closesAt
          rw [Option.bind_some, hparse, Option.getD_some]
        rw [hvalue]
        exact h.stored text u hsome.symm hparse

/-- A row that is there for a grant stays there through a write that removes none. -/
theorem rows_continue {t : Touches} {db db' : Store} (h : Continues t db db')
    (hremoved : ∀ n, ¬ t.removed n) {grants : List Grant}
    (hrows : ∀ g ∈ grants, ∃ r ∈ db.node.rows, r.id = g.node ∧ r.createdAt = g.made) :
    ∀ g ∈ grants, ∃ r ∈ db'.node.rows, r.id = g.node ∧ r.createdAt = g.made := by
  intro g hg
  obtain ⟨r, hr, hid, hmade⟩ := hrows g hg
  obtain ⟨r', hr', hkept⟩ := h.kept hr (hremoved r.id)
  exact ⟨r', hr', hkept.id.trans hid, hkept.createdAt.trans hmade⟩

/-- The grants a window counts are among the rows it counts. -/
theorem grants_le_rows (h : Bounded t₀ s) (since : Int) :
    (s.grants.filter fun g => since ≤ g.made).length ≤
      (s.db.node.rows.filter fun r => r.createdAt ≥ since).card := by
  have hnodup : ((s.grants.filter fun g => since ≤ g.made).map Grant.node).Nodup :=
    h.apart.sublist (List.filter_sublist.map _)
  have hsub : ((s.grants.filter fun g => since ≤ g.made).map Grant.node).toFinset ⊆
      (s.db.node.rows.filter fun r => r.createdAt ≥ since).image NodeRow.id := by
    intro n hn
    obtain ⟨g, hg, rfl⟩ := List.mem_map.mp (List.mem_toFinset.mp hn)
    obtain ⟨hg, hsince⟩ := List.mem_filter.mp hg
    obtain ⟨r, hr, hid, hmade⟩ := h.rows g hg
    refine Finset.mem_image.mpr ⟨r, Finset.mem_filter.mpr ⟨hr, ?_⟩, hid⟩
    rw [hmade]
    exact of_decide_eq_true hsince
  calc (s.grants.filter fun g => since ≤ g.made).length
      = ((s.grants.filter fun g => since ≤ g.made).map Grant.node).length := by
        rw [List.length_map]
    _ = ((s.grants.filter fun g => since ≤ g.made).map Grant.node).toFinset.card :=
        (List.toFinset_card_of_nodup hnodup).symm
    _ ≤ ((s.db.node.rows.filter fun r => r.createdAt ≥ since).image NodeRow.id).card :=
        Finset.card_le_card hsub
    _ ≤ (s.db.node.rows.filter fun r => r.createdAt ≥ since).card := Finset.card_image_le

/-- A step that moves requests and managers only, and the clock. -/
theorem Bounded.moves (h : Bounded t₀ s) (hdb : s'.db = s.db) (hopened : s'.opened = s.opened)
    (hgrants : s'.grants = s.grants) (hnow : s.now ≤ s'.now)
    (hopening : ∀ j at_, openingAt (s'.manager j) = some at_ → t₀ ≤ at_ ∧ at_ ≤ s'.now)
    (hrequests : ∀ i x, begins (s'.request i) = some x → Known t₀ s.opened x) :
    Bounded t₀ s' := by
  refine ⟨h.clock.trans hnow, ?_, hopening, ?_, ?_, ?_, ?_, ?_, ?_⟩
  · rw [hopened]
    intro x hx
    obtain ⟨hlow, hhigh⟩ := h.opened x hx
    exact ⟨hlow, by omega⟩
  · rw [hdb, hopened]
    exact h.stored
  · rw [hopened]
    exact hrequests
  · rw [hgrants, hopened]
    exact h.grants
  · rw [hgrants, hdb]
    exact h.rows
  · rw [hgrants]
    exact h.apart
  · rw [hgrants]
    exact h.counted

/-- One request goes on. -/
theorem begins_update (h : Bounded t₀ s) {i : Nat} {r : Request}
    (hr : ∀ x, begins r = some x → Known t₀ s.opened x) (k : Nat) (x : Int)
    (hx : begins (Function.update s.request i r k) = some x) : Known t₀ s.opened x := by
  by_cases hk : k = i
  · rw [hk, Function.update_self] at hx
    exact hr x hx
  · rw [Function.update_of_ne hk] at hx
    exact h.requests k x hx

/-- One manager goes on. -/
theorem openingAt_update (h : Bounded t₀ s) {j : Nat} {m : Manager}
    (hm : ∀ at_, openingAt m = some at_ → t₀ ≤ at_ ∧ at_ ≤ s.now) (k at_ : Nat)
    (hk : openingAt (Function.update s.manager j m k) = some at_) : t₀ ≤ at_ ∧ at_ ≤ s.now := by
  by_cases hkj : k = j
  · rw [hkj, Function.update_self] at hk
    exact hm at_ hk
  · rw [Function.update_of_ne hkj] at hk
    exact h.opening k at_ hk

/-- A write that removes no node and leaves the end of the window alone. -/
theorem Bounded.wrote (h : Bounded t₀ s) {t : Touches} {db : Store} (hcont : Continues t s.db db)
    (hremoved : ∀ n, ¬ t.removed n)
    (hstored : StoreAnswers.stored db "register_until" =
      StoreAnswers.stored s.db "register_until") : Bounded t₀ { s with db := db } := by
  refine ⟨h.clock, h.opened, h.opening, ?_, h.requests, h.grants,
    rows_continue hcont hremoved h.rows, h.apart, h.counted⟩
  intro text u htext hparse
  refine h.stored text u ?_ hparse
  rw [← hstored]
  exact htext

/-- A node is made for a request. -/
theorem Bounded.created (h : Bounded t₀ s) {i : Nat} {a : Asking} {since : Int} {key : String}
    {number : Nat} {token : String} {node : Int} {db : Store}
    (hat : s.request i = .cleared a since key number)
    (hran : Ran host (Request.insert a since s.now token) s.db (.ok (.id node)) db)
    {r : Request} (hr : begins r = none) (throttle : SignInSteps.Throttle) (log : List Entry) :
    Bounded t₀ { s.requestTo i r with
      db := db, throttle := throttle, log := log
      grants := ⟨node, key, s.now, since⟩ :: s.grants } := by
  obtain ⟨hcap, hfree, row, hrow, hid, hmade⟩ := createNodeWithin_made hran
  have hknown : Known t₀ s.opened since := by
    refine h.requests i since ?_
    rw [hat]
    rfl
  have hbefore : since ≤ s.now := by
    have hclock := h.clock
    rcases hknown with hle | hin
    · omega
    · exact (h.opened since hin).2
  have hwrote := h.wrote (ran_continues hran) (fun _ hx => hx)
    (stored_congr (insert_setting hran) "register_until")
  refine ⟨h.clock, h.opened, h.opening, hwrote.stored, ?_, ?_, ?_, ?_, ?_⟩
  · refine begins_update h ?_
    rw [hr]
    nofun
  · intro g hg
    rcases List.mem_cons.mp hg with rfl | hg
    · exact ⟨hknown, hbefore⟩
    · exact h.grants g hg
  · intro g hg
    rcases List.mem_cons.mp hg with rfl | hg
    · exact ⟨row, hrow, hid, hmade⟩
    · exact hwrote.rows g hg
  · refine List.nodup_cons.mpr ⟨?_, h.apart⟩
    intro hin
    obtain ⟨g, hg, heq⟩ := List.mem_map.mp hin
    obtain ⟨q, hq, hqid, -⟩ := h.rows g hg
    exact hfree ⟨q, hq, hqid.trans heq⟩
  · refine ⟨?_, h.counted⟩
    have hle := grants_le_rows h since
    have hlt : (s.db.node.rows.filter fun r => r.createdAt ≥ since).card < registerLimit := by
      exact_mod_cast hcap
    exact lt_of_le_of_lt hle hlt

/-- A registration keeps within the budget. -/
theorem Bounded.requestStep (h : Bounded t₀ s) {i : Nat} (hstep : RequestStep host s i s') :
    Bounded t₀ s' := by
  cases hstep with
  | halfRead a value hat hopen hget =>
    refine h.moves rfl rfl rfl (le_refl _) h.opening (begins_update h ?_)
    intro x hx
    cases hx
    exact known_closesAt h hget
  | read a closes key hat hget =>
    refine h.moves rfl rfl rfl (le_refl _) h.opening (begins_update h ?_)
    intro x hx
    refine h.requests i x ?_
    rw [hat]
    exact hx
  | cleared a closes key number k hat hopen hright =>
    refine h.moves rfl rfl rfl (le_refl _) h.opening (begins_update h ?_)
    intro x hx
    refine h.requests i x ?_
    rw [hat]
    exact hx
  | created a since key number token node db hat hran => exact h.created hat hran rfl _ _
  | refused a since key number token e db hat hran =>
    rw [createNodeWithin_refused hran]
    exact h.moves rfl rfl rfl (le_refl _) h.opening (begins_update h nofun)
  | _ => exact h.moves rfl rfl rfl (le_refl _) h.opening (begins_update h nofun)

/-- A manager writes a setting other than the end of the window. -/
theorem Bounded.sets (h : Bounded t₀ s) {key value : String} {db : Store}
    (hran : Ran host (.set key value) s.db (.ok .nothing) db) (hne : "register_until" ≠ key) :
    Bounded t₀ { s with db := db } :=
  h.wrote (ran_continues hran) (fun _ hx => hx) (set_stored hne hran)

/-- A manager writes the end of the window: that of a window it opened, or none. -/
theorem Bounded.setsEnd (h : Bounded t₀ s) {value : String} {db : Store} {opened : List Int}
    (hran : Ran host (.set "register_until" value) s.db (.ok .nothing) db)
    (hopened : ∀ x ∈ opened, (t₀ : Int) ≤ x ∧ x ≤ s.now) (hmore : ∀ x ∈ s.opened, x ∈ opened)
    (hvalue : ∀ u, parseI64 value = some u → Known t₀ opened (u - registerWindow)) :
    Bounded t₀ { s with db := db, opened := opened } := by
  have hknown : ∀ x, Known t₀ s.opened x → Known t₀ opened x := by
    intro x hx
    rcases hx with hle | hin
    · exact .inl hle
    · exact .inr (hmore x hin)
  refine ⟨h.clock, hopened, h.opening, ?_, ?_, ?_, ?_, h.apart, h.counted⟩
  · intro text u htext hparse
    rw [set_stored_self hran, Option.some.injEq] at htext
    rw [← htext] at hparse
    exact hvalue u hparse
  · intro i x hx
    exact hknown x (h.requests i x hx)
  · intro g hg
    exact ⟨hknown g.since (h.grants g hg).1, (h.grants g hg).2⟩
  · exact rows_continue (ran_continues hran) (fun _ hx => hx) h.rows

/-- So does a request to open or close. -/
theorem Bounded.managerStep (h : Bounded t₀ s) {j : Nat} (hstep : ManagerStep host s j s') :
    Bounded t₀ s' := by
  cases hstep with
  | opening key hat hkey hfresh =>
    refine h.moves rfl rfl rfl (le_refl _) (openingAt_update h ?_) h.requests
    intro at_ hat_
    cases hat_
    exact ⟨h.clock, le_refl _⟩
  | counted key at_ hat =>
    refine h.moves rfl rfl rfl (le_refl _) (openingAt_update h ?_) h.requests
    intro at' hat'
    refine h.opening j at' ?_
    rw [hat]
    exact hat'
  | keyed key at_ sinceId db hat hran =>
    have hset := h.sets hran (by decide)
    refine hset.moves rfl rfl rfl (le_refl _) (openingAt_update hset ?_) hset.requests
    intro at' hat'
    refine h.opening j at' ?_
    rw [hat]
    exact hat'
  | marked before at_ sinceId db hat hran =>
    have hset := h.sets hran (by decide)
    refine hset.moves rfl rfl rfl (le_refl _) (openingAt_update hset ?_) hset.requests
    intro at' hat'
    refine h.opening j at' ?_
    rw [hat]
    exact hat'
  | opened before at_ db hat hran =>
    have hat_ : t₀ ≤ at_ ∧ at_ ≤ s.now := by
      refine h.opening j at_ ?_
      rw [hat]
      rfl
    have hset : Bounded t₀ { s with db := db, opened := (at_ : Int) :: s.opened } := by
      refine h.setsEnd hran ?_ (fun x hx => List.mem_cons_of_mem _ hx) ?_
      · intro x hx
        rcases List.mem_cons.mp hx with rfl | hx
        · omega
        · exact h.opened x hx
      · intro u hu
        have hvalue := parseI64_toString hu
        refine .inr (List.mem_cons.mpr (.inl ?_))
        rw [hvalue, registerWindow]
        omega
    exact hset.moves rfl rfl rfl (le_refl _) (openingAt_update hset nofun) hset.requests
  | silenced db hat hran =>
    have hset := h.sets hran (by decide)
    exact hset.moves rfl rfl rfl (le_refl _) (openingAt_update hset nofun) hset.requests
  | shut before db hat hran =>
    have hset : Bounded t₀ { s with db := db, opened := s.opened } := by
      refine h.setsEnd hran h.opened (fun _ hx => hx) ?_
      intro u hu
      have hvalue : u = (0 : Nat) := parseI64_toString hu
      refine .inl ?_
      rw [hvalue, registerWindow]
      omega
    exact hset.moves rfl rfl rfl (le_refl _) (openingAt_update hset nofun) hset.requests
  | _ => exact h.moves rfl rfl rfl (le_refl _) (openingAt_update h nofun) h.requests

/-- So does every step. -/
theorem Bounded.step (h : Bounded t₀ s) (hstep : Step host s s') : Bounded t₀ s' := by
  cases hstep with
  | request i _ hrequest => exact h.requestStep hrequest
  | manager j _ hmanager => exact h.managerStep hmanager
  | tick seconds =>
    refine h.moves rfl rfl rfl (Nat.le_add_right _ _) ?_ h.requests
    intro j at_ hat
    obtain ⟨hlow, hhigh⟩ := h.opening j at_ hat
    exact ⟨hlow, hhigh.trans (Nat.le_add_right _ _)⟩
  | wrote op hop answer db hran =>
    refine h.wrote (ran_continues hran) ?_ (ordinary_stored hop hran (.inr rfl))
    intro n hn
    cases op with
    | deleteNode id => exact hop.1 id rfl
    | _ => exact hn
  | reported op session hdb =>
    have hcont := telemetry_continues host session.db op session (.refl _ _)
    have hstored := @reported_stored host op session "register_until"
    rw [hdb] at hcont hstored
    exact h.wrote hcont (fun _ hx => hx) hstored
  | restarted => exact h.moves rfl rfl rfl (le_refl _) nofun nofun

/-- So it is in every run. -/
theorem run_bounded {db : Store} (hwindow : ∀ text u,
    StoreAnswers.stored db "register_until" = some text → parseI64 text = some u →
      u ≤ t₀ + registerWindow) (h : Run host (.start db t₀) s) : Bounded t₀ s := by
  induction h with
  | refl => exact bounded_start hwindow
  | step _ hstep ih => exact ih.step hstep

/-! ## The budget -/

/-- Every window is kept to its budget, as far as the nodes that registered go. -/
theorem Bounded.budget (h : Bounded t₀ s) {a : Int} (ha : a ∈ s.opened) :
    (s.grants.filter fun g => InWindow s.opened a g.made).length ≤ registerLimit := by
  refine h.counted.window_le (fun g hg => (h.grants g hg).2) ?_
  intro g hg
  rcases (h.grants g hg).1 with hle | hin
  · exact .inl (hle.trans (h.opened a ha).1)
  · exact .inr hin

/-- Being told that the window is full changes nothing. -/
theorem refused_full {i : Nat} (hstep : RequestStep host s i s')
    (hfull : s'.request i = .answered .full) : s'.db = s.db ∧ s'.grants = s.grants := by
  cases hstep with
  | refused a since key number token e db hat hran => exact ⟨createNodeWithin_refused hran, rfl⟩
  | _ =>
    change Function.update s.request i _ i = _ at hfull
    rw [Function.update_self] at hfull
    cases hfull

/-- From a store whose stored window was not opened in the future, whatever
requests, openings and closings do: of the nodes that registered themselves, each
of which is in the store with its creation time, no more than the limit were
created between one opening of the window and the next; and a request the budget
refuses leaves nodes, ids and everything else as they were. -/
theorem registration_budget {db : Store} {now : Nat} (hwindow : ∀ text u,
    stored db "register_until" = some text → parseI64 text = some u → u ≤ now + registerWindow)
    (h : Run host (.start db now) s) :
    (∀ a ∈ s.opened,
      (s.grants.filter fun g => InWindow s.opened a g.made).length ≤ registerLimit) ∧
    ((s.grants.map Grant.node).Nodup ∧
      ∀ g ∈ s.grants, ∃ r ∈ s.db.node.rows, r.id = g.node ∧ r.createdAt = g.made) ∧
    ∀ i s', RequestStep host s i s' → s'.request i = .answered .full →
      s'.db = s.db ∧ s'.grants = s.grants := by
  have hbounded := run_bounded hwindow h
  refine ⟨fun a ha => hbounded.budget ha, ⟨hbounded.apart, hbounded.rows⟩, ?_⟩
  intro i s' hstep hfull
  exact refused_full hstep hfull

/-- One node in the window that was opened while its request was on its way. -/
theorem registration_budget_late : ∃ s : State, s.opened = [0] ∧
    s.grants = [⟨1, "first key", 0, 0⟩] ∧
    (s.grants.filter fun g => InWindow s.opened 0 g.made).length ≤ registerLimit := by
  obtain ⟨s, hrun, -, hopened, hgrants⟩ := RevokedKeys.replaced_key_used
  have hwindow : ∀ text u, stored RevokedKeys.windowStore "register_until" = some text →
      parseI64 text = some u → u ≤ (0 : Nat) + registerWindow := by
    intro text u htext hparse
    rw [RevokedKeys.windowStore, stored_withSetting, Option.some.injEq] at htext
    rw [← htext] at hparse
    have hvalue : u = (3600 : Nat) := parseI64_toString hparse
    rw [hvalue, registerWindow]
    omega
  refine ⟨s, hopened, hgrants, (registration_budget hwindow hrun).1 0 ?_⟩
  rw [hopened]
  exact List.mem_cons_self

end Romi.RegistrationBudget
