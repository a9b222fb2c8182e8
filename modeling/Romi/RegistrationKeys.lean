import Romi.RegistrationSteps

/-!
# Which key a node was registered with

The keys there have been form a list that only grows, and no key comes up
twice. What a request has read, and what an opening or a closing replaced, are
ends of that list; a node is created under a replaced key exactly when the
request had read it before the replacement.
-/

namespace Romi.RegistrationKeys

open CachedTransactions RegistrationSteps StoreAnswers StoreAreas StoreGuard StoreOperations
  StoreSchema

variable {host : Host} {s₀ s s' : State}

/-! ## Ends of the list of keys -/

/-- The key was the newest after so many writes. -/
def ReadAt (written : List String) (k : String) (number : Nat) : Prop :=
  ∃ older, (k :: older) <:+ written ∧ number = older.length + 1

/-- These are the keys there were before some write. -/
def Replaced (written before : List String) : Prop := ∃ k, (k :: before) <:+ written

/-- No key comes up again, but for the empty text that stands for none. -/
def Fresh (written : List String) : Prop := written.Pairwise fun a b => a ≠ "" → a ≠ b

/-- What was read is as old as it was, and one key older. -/
theorem ReadAt.cons {written : List String} {k : String} {number : Nat} (h : ReadAt written k number)
    (newest : String) : ReadAt (newest :: written) k number := by
  obtain ⟨older, hsuffix, hnumber⟩ := h
  exact ⟨older, hsuffix.trans (List.suffix_cons _ _), hnumber⟩

/-- What was replaced stays replaced. -/
theorem Replaced.cons {written before : List String} (h : Replaced written before)
    (newest : String) : Replaced (newest :: written) before := by
  obtain ⟨k, hsuffix⟩ := h
  exact ⟨k, hsuffix.trans (List.suffix_cons _ _)⟩

/-- A key is one of those replaced exactly if it was read no later than they were. -/
theorem mem_replaced_iff {written before : List String} {k : String} {number : Nat}
    (hfresh : Fresh written) (hk : k ≠ "") (hread : ReadAt written k number)
    (hreplaced : Replaced written before) : k ∈ before ↔ number ≤ before.length := by
  obtain ⟨older, holder, hnumber⟩ := hread
  obtain ⟨newer, hnewer⟩ := hreplaced
  have hbefore : before <:+ written := (List.suffix_cons newer before).trans hnewer
  constructor
  · intro hmem
    by_contra hlate
    have htail : older <:+ written := (List.suffix_cons k older).trans holder
    have hinside : before <:+ older := List.suffix_of_suffix_length_le hbefore htail (by omega)
    have hpair := List.pairwise_cons.mp (hfresh.sublist holder.sublist)
    exact hpair.1 k (hinside.mem hmem) hk rfl
  · intro hle
    have hinside : (k :: older) <:+ before := by
      refine List.suffix_of_suffix_length_le holder hbefore ?_
      rw [List.length_cons]
      omega
    exact hinside.mem List.mem_cons_self

/-! ## Who has which key -/

/-- The key a request has read, with the number of writes up to it. -/
def seenKey : Request → Option (String × Nat)
  | .read _ _ (some k) number => some (k, number)
  | .cleared _ _ k number => some (k, number)
  | _ => none

/-- The key an opening has drawn and not written. -/
def pending : Manager → Option String
  | .opening key _ | .counted key _ _ => some key
  | _ => none

/-- The keys an opening or a closing has replaced. -/
def replaced : Manager → Option (List String)
  | .keyed before _ _ | .marked before _ | .silenced before | .written before => some before
  | _ => none

/-- Every key in use is in its place in the list. -/
structure Keys (s : State) : Prop where
  /-- The key that is stored is the one written last. -/
  stored : stored s.db "register_key" = s.written.head?
  /-- No key was written twice. -/
  fresh : Fresh s.written
  /-- Every key that was written was drawn. -/
  drawn : ∀ k ∈ s.written, k ≠ "" → k ∈ s.drawn
  /-- A key about to be written was drawn and never written. -/
  pending : ∀ j k, pending (s.manager j) = some k → k ≠ "" ∧ k ∈ s.drawn ∧ k ∉ s.written
  /-- No two requests are about to write one key. -/
  apart : ∀ i j k, RegistrationKeys.pending (s.manager i) = some k →
    RegistrationKeys.pending (s.manager j) = some k → i = j
  /-- What a registration has read was stored at the time. -/
  reads : ∀ i k number, seenKey (s.request i) = some (k, number) → ReadAt s.written k number
  /-- What it was cleared for is what it presents. -/
  cleared : ∀ i a since k number, s.request i = .cleared a since k number →
    k ≠ "" ∧ a.bearer = some k
  /-- A request that wrote a key has replaced those before. -/
  replaced : ∀ j before, replaced (s.manager j) = some before → Replaced s.written before
  /-- What was answered as revoked was replaced. -/
  revoked : ∀ before, .revoked before ∈ s.log → Replaced s.written before

/-- A hub that has just started. -/
theorem keys_start (db : Store) (now : Nat) : Keys (.start db now) := by
  refine ⟨?_, ?_, fun _ hk _ => hk, nofun, nofun, nofun, nofun, nofun, nofun⟩
  · change StoreAnswers.stored db "register_key" =
      (StoreAnswers.stored db "register_key").toList.head?
    cases StoreAnswers.stored db "register_key" with
    | none => rfl
    | some k => rfl
  · change Fresh (StoreAnswers.stored db "register_key").toList
    cases StoreAnswers.stored db "register_key" with
    | none => exact List.Pairwise.nil
    | some k => exact List.pairwise_singleton _ k

/-! ## What the writes leave alone -/

/-- The same settings have the same values. -/
theorem stored_congr {db db' : Store} (h : db'.setting = db.setting) (key : String) :
    stored db' key = stored db key := by
  unfold stored
  rw [h]

/-- An insert changes no setting. -/
theorem insert_setting {a : Asking} {since : Int} {now : Nat} {token : String} {db db' : Store}
    {answer : Except Failure Payload}
    (h : Ran host (Request.insert a since now token) db answer db') : db'.setting = db.setting :=
  (ran_within h).settings nofun

/-- Nobody else writes the window. -/
theorem ordinary_stored {op : Solo} (hop : Ordinary op) {db db' : Store}
    {answer : Except Failure Payload} (h : Ran host op db answer db') {key : String}
    (hkey : key = "register_key" ∨ key = "register_until") : stored db' key = stored db key := by
  by_cases harea : areaOf op = .settings
  · cases op with
    | set name value =>
      obtain ⟨hne, hne'⟩ := hop.2 name value rfl
      rcases ran_set h with ⟨-, rfl⟩ | ⟨-, rfl⟩
      · refine stored_withSetting_of_ne db value ?_
        rcases hkey with rfl | rfl
        · exact fun heq => hne heq.symm
        · exact fun heq => hne' heq.symm
      · rfl
    | _ => cases harea
  · exact stored_congr ((ran_within h).settings harea) key

/-- Nor does telemetry. -/
theorem reported_stored (op : Telemetry) (session : Session Store Guard) (key : String) :
    stored (op.job host session).2.db key = stored session.db key :=
  stored_congr ((telemetry_within host session.db op session (.refl _ _)).settings (by decide)) key

/-- Setting another key leaves this one. -/
theorem set_stored {name value : String} {db db' : Store} {key : String} (hne : key ≠ name)
    (h : Ran host (.set name value) db (.ok .nothing) db') : stored db' key = stored db key := by
  rcases ran_set h with ⟨-, rfl⟩ | ⟨⟨e, he⟩, -⟩
  · exact stored_withSetting_of_ne db value hne
  · cases he

/-- Setting a key is seen. -/
theorem set_stored_self {name value : String} {db db' : Store}
    (h : Ran host (.set name value) db (.ok .nothing) db') : stored db' name = some value := by
  rcases ran_set h with ⟨-, rfl⟩ | ⟨⟨e, he⟩, -⟩
  · exact stored_withSetting db name value
  · cases he

/-! ## One step -/

/-- A request moves on; what it has read from now on it has read in its place. -/
theorem Keys.request (h : Keys s) {i : Nat} {r : Request}
    (hrequest : s'.request = Function.update s.request i r) (hmanager : s'.manager = s.manager)
    (hwritten : s'.written = s.written) (hdrawn : s'.drawn = s.drawn)
    (hstored : StoreAnswers.stored s'.db "register_key" = StoreAnswers.stored s.db "register_key")
    (hlog : ∀ before, .revoked before ∈ s'.log → .revoked before ∈ s.log)
    (hreads : ∀ k number, seenKey r = some (k, number) → ReadAt s.written k number)
    (hcleared : ∀ a since k number, r = .cleared a since k number →
      k ≠ "" ∧ a.bearer = some k) : Keys s' := by
  refine ⟨?_, ?_, ?_, ?_, ?_, ?_, ?_, ?_, ?_⟩
  · rw [hstored, hwritten]
    exact h.stored
  · rw [hwritten]
    exact h.fresh
  · rw [hwritten, hdrawn]
    exact h.drawn
  · rw [hmanager, hwritten, hdrawn]
    exact h.pending
  · rw [hmanager]
    exact h.apart
  · intro k key number hseen
    rw [hwritten]
    rw [hrequest] at hseen
    by_cases hk : k = i
    · rw [hk, Function.update_self] at hseen
      exact hreads key number hseen
    · rw [Function.update_of_ne hk] at hseen
      exact h.reads k key number hseen
  · intro k a since key number hat
    rw [hrequest] at hat
    by_cases hk : k = i
    · rw [hk, Function.update_self] at hat
      exact hcleared a since key number hat
    · rw [Function.update_of_ne hk] at hat
      exact h.cleared k a since key number hat
  · rw [hmanager, hwritten]
    exact h.replaced
  · intro before hin
    rw [hwritten]
    exact h.revoked before (hlog before hin)

/-- An opening or a closing moves on without drawing or writing a key. -/
theorem Keys.manager (h : Keys s) {j : Nat} {m : Manager}
    (hmanager : s'.manager = Function.update s.manager j m) (hrequest : s'.request = s.request)
    (hwritten : s'.written = s.written) (hdrawn : s'.drawn = s.drawn)
    (hstored : StoreAnswers.stored s'.db "register_key" = StoreAnswers.stored s.db "register_key")
    (hlog : ∀ before, .revoked before ∈ s'.log → .revoked before ∈ s.log ∨
      RegistrationKeys.replaced (s.manager j) = some before)
    (hpending : ∀ k, RegistrationKeys.pending m = some k →
      RegistrationKeys.pending (s.manager j) = some k)
    (hreplaced : ∀ before, RegistrationKeys.replaced m = some before →
      RegistrationKeys.replaced (s.manager j) = some before) : Keys s' := by
  have hback : ∀ i k, RegistrationKeys.pending (s'.manager i) = some k →
      RegistrationKeys.pending (s.manager i) = some k := by
    intro i k hk
    rw [hmanager] at hk
    by_cases hi : i = j
    · rw [hi, Function.update_self] at hk
      rw [hi]
      exact hpending k hk
    · rwa [Function.update_of_ne hi] at hk
  refine ⟨?_, ?_, ?_, ?_, ?_, ?_, ?_, ?_, ?_⟩
  · rw [hstored, hwritten]
    exact h.stored
  · rw [hwritten]
    exact h.fresh
  · rw [hwritten, hdrawn]
    exact h.drawn
  · intro i k hk
    rw [hwritten, hdrawn]
    exact h.pending i k (hback i k hk)
  · intro i l k hi hl
    exact h.apart i l k (hback i k hi) (hback l k hl)
  · rw [hrequest, hwritten]
    exact h.reads
  · rw [hrequest]
    exact h.cleared
  · intro i before hbefore
    rw [hwritten]
    rw [hmanager] at hbefore
    by_cases hi : i = j
    · rw [hi, Function.update_self] at hbefore
      exact h.replaced j before (hreplaced before hbefore)
    · rw [Function.update_of_ne hi] at hbefore
      exact h.replaced i before hbefore
  · intro before hin
    rw [hwritten]
    rcases hlog before hin with hold | hnew
    · exact h.revoked before hold
    · exact h.replaced j before hnew

/-- A key is written; the keys before it are remembered. -/
theorem Keys.write (h : Keys s) {j : Nat} {m : Manager} {key : String} {db : Store}
    (hran : Ran host (.set "register_key" key) s.db (.ok .nothing) db)
    (hnew : key ≠ "" → key ∈ s.drawn ∧ key ∉ s.written ∧
      ∀ i, RegistrationKeys.pending (s.manager i) = some key → i = j)
    (hpending : RegistrationKeys.pending m = none)
    (hreplaced : RegistrationKeys.replaced m = some s.written) :
    Keys { s.managerTo j m with db := db, written := key :: s.written } := by
  have hback : ∀ i k, RegistrationKeys.pending (Function.update s.manager j m i) = some k →
      i ≠ j ∧ RegistrationKeys.pending (s.manager i) = some k := by
    intro i k hk
    by_cases hi : i = j
    · rw [hi, Function.update_self, hpending] at hk
      cases hk
    · rw [Function.update_of_ne hi] at hk
      exact ⟨hi, hk⟩
  refine ⟨set_stored_self hran, ?_, ?_, ?_, ?_, ?_, h.cleared, ?_, ?_⟩
  · refine List.pairwise_cons.mpr ⟨?_, h.fresh⟩
    rintro older holder hkey rfl
    exact (hnew hkey).2.1 holder
  · intro k hk hne
    rcases List.mem_cons.mp hk with rfl | hk
    · exact (hnew hne).1
    · exact h.drawn k hk hne
  · intro i k hk
    obtain ⟨hi, hold⟩ := hback i k hk
    obtain ⟨hne, hdrawn, hout⟩ := h.pending i k hold
    refine ⟨hne, hdrawn, ?_⟩
    intro hin
    rcases List.mem_cons.mp hin with rfl | hin
    · exact hi ((hnew hne).2.2 i hold)
    · exact hout hin
  · intro i l k hi hl
    exact h.apart i l k (hback i k hi).2 (hback l k hl).2
  · intro i k number hseen
    exact (h.reads i k number hseen).cons key
  · intro i before hbefore
    change RegistrationKeys.replaced (Function.update s.manager j m i) = some before at hbefore
    by_cases hi : i = j
    · rw [hi, Function.update_self, hreplaced, Option.some.injEq] at hbefore
      rw [← hbefore]
      exact ⟨key, List.suffix_refl _⟩
    · rw [Function.update_of_ne hi] at hbefore
      exact (h.replaced i before hbefore).cons key
  · intro before hin
    exact (h.revoked before hin).cons key

/-- What the check lets through is the key that was read, and it is one. -/
theorem open_some {key : Option String} {closes : Int} {now : Nat} {k : String}
    (h : open? key closes now = some k) : key = some k ∧ k ≠ "" ∧ (now : Int) < closes := by
  unfold open? at h
  obtain ⟨hkey, hopen⟩ := Option.filter_eq_some_iff.mp h
  have hboth := of_decide_eq_true hopen
  exact ⟨hkey, hboth.1, hboth.2⟩

/-- A registration keeps the keys in order. -/
theorem Keys.requestStep (h : Keys s) {i : Nat} (hstep : RequestStep host s i s') : Keys s' := by
  cases hstep with
  | read a closes key hat hget =>
    refine h.request rfl rfl rfl rfl rfl (fun _ hin => hin) ?_ nofun
    intro k number hseen
    cases key with
    | none => cases hseen
    | some k' =>
      cases hseen
      rcases hget with hnone | hsome
      · cases hnone
      · rw [h.stored] at hsome
        cases hwritten : s.written with
        | nil =>
          rw [hwritten] at hsome
          cases hsome
        | cons newest older =>
          rw [hwritten] at hsome
          cases hsome
          exact ⟨older, List.suffix_refl _, rfl⟩
  | cleared a closes key number k hat hopen hright =>
    obtain ⟨hkey, hne, -⟩ := open_some hopen
    refine h.request rfl rfl rfl rfl rfl (fun _ hin => hin) ?_ ?_
    · intro k' number' hseen
      cases hseen
      refine h.reads i k number ?_
      rw [hat, hkey]
      rfl
    · intro _ _ _ _ hcleared
      cases hcleared
      exact ⟨hne, hright⟩
  | created a since key number token node db hat hran =>
    refine h.request rfl rfl rfl rfl (stored_congr (insert_setting hran) _) ?_ nofun nofun
    intro before hin
    rcases List.mem_cons.mp hin with heq | hin
    · cases heq
    · exact hin
  | refused a since key number token e db hat hran =>
    exact h.request rfl rfl rfl rfl (stored_congr (insert_setting hran) _) (fun _ hin => hin)
      nofun nofun
  | _ => exact h.request rfl rfl rfl rfl rfl (fun _ hin => hin) nofun nofun

/-- So does a request to open or close. -/
theorem Keys.managerStep (h : Keys s) {j : Nat} (hstep : ManagerStep host s j s') : Keys s' := by
  have hlog : ∀ before, .revoked before ∈ s.log → .revoked before ∈ s.log ∨
      RegistrationKeys.replaced (s.manager j) = some before := fun _ hin => .inl hin
  cases hstep with
  | opening key hat hkey hfresh =>
    have hback : ∀ i k, RegistrationKeys.pending (Function.update s.manager j (.opening key s.now) i)
        = some k → (i = j ∧ k = key) ∨ i ≠ j ∧ RegistrationKeys.pending (s.manager i) = some k := by
      intro i k hk
      by_cases hi : i = j
      · rw [hi, Function.update_self] at hk
        cases hk
        exact .inl ⟨hi, rfl⟩
      · rw [Function.update_of_ne hi] at hk
        exact .inr ⟨hi, hk⟩
    refine ⟨h.stored, h.fresh, ?_, ?_, ?_, h.reads, h.cleared, ?_, h.revoked⟩
    · intro k hk hne
      exact List.mem_cons_of_mem _ (h.drawn k hk hne)
    · intro i k hk
      rcases hback i k hk with ⟨-, rfl⟩ | ⟨-, hold⟩
      · exact ⟨hkey, List.mem_cons_self, fun hin => hfresh (h.drawn k hin hkey)⟩
      · obtain ⟨hne, hdrawn, hout⟩ := h.pending i k hold
        exact ⟨hne, List.mem_cons_of_mem _ hdrawn, hout⟩
    · intro i l k hi hl
      rcases hback i k hi with ⟨rfl, rfl⟩ | ⟨-, hold⟩
      · rcases hback l _ hl with ⟨rfl, -⟩ | ⟨-, hold⟩
        · rfl
        · exact absurd (h.pending l _ hold).2.1 hfresh
      · rcases hback l k hl with ⟨-, rfl⟩ | ⟨-, hold'⟩
        · exact absurd (h.pending i _ hold).2.1 hfresh
        · exact h.apart i l k hold hold'
    · intro i before hbefore
      change RegistrationKeys.replaced (Function.update s.manager j _ i) = some before at hbefore
      by_cases hi : i = j
      · rw [hi, Function.update_self] at hbefore
        cases hbefore
      · rw [Function.update_of_ne hi] at hbefore
        exact h.replaced i before hbefore
  | counted key at_ hat =>
    refine h.manager rfl rfl rfl rfl rfl hlog ?_ nofun
    intro k hk
    rw [hat]
    exact hk
  | keyed key at_ sinceId db hat hran =>
    have hpending : RegistrationKeys.pending (s.manager j) = some key := by
      rw [hat]
      rfl
    obtain ⟨-, hdrawn, hout⟩ := h.pending j key hpending
    exact h.write hran (fun _ => ⟨hdrawn, hout, fun i hi => h.apart i j key hi hpending⟩) rfl rfl
  | marked before at_ sinceId db hat hran =>
    refine h.manager rfl rfl rfl rfl (set_stored (by decide) hran) hlog nofun ?_
    intro k hk
    rw [hat]
    exact hk
  | opened before at_ db hat hran =>
    refine h.manager rfl rfl rfl rfl (set_stored (by decide) hran) hlog nofun ?_
    intro k hk
    rw [hat]
    exact hk
  | closing hat => exact h.manager rfl rfl rfl rfl rfl hlog nofun nofun
  | silenced db hat hran => exact h.write hran (fun hne => absurd rfl hne) rfl rfl
  | shut before db hat hran =>
    refine h.manager rfl rfl rfl rfl (set_stored (by decide) hran) hlog nofun ?_
    intro k hk
    rw [hat]
    exact hk
  | answered before hat =>
    refine h.manager rfl rfl rfl rfl rfl ?_ nofun nofun
    intro older hin
    rcases List.mem_cons.mp hin with heq | hin
    · cases heq
      rw [hat]
      exact .inr rfl
    · exact .inl hin
  | broke hat => exact h.manager rfl rfl rfl rfl rfl hlog nofun nofun

/-- So does every step. -/
theorem Keys.step (h : Keys s) (hstep : Step host s s') : Keys s' := by
  cases hstep with
  | request i _ hrequest => exact h.requestStep hrequest
  | manager j _ hmanager => exact h.managerStep hmanager
  | tick seconds => exact ⟨h.stored, h.fresh, h.drawn, h.pending, h.apart, h.reads, h.cleared,
      h.replaced, h.revoked⟩
  | wrote op hop answer db hran =>
    exact ⟨(ordinary_stored hop hran (.inl rfl)).trans h.stored, h.fresh, h.drawn, h.pending,
      h.apart, h.reads, h.cleared, h.replaced, h.revoked⟩
  | reported op session hdb =>
    refine ⟨(reported_stored op session _).trans ?_, h.fresh, h.drawn, h.pending, h.apart,
      h.reads, h.cleared, h.replaced, h.revoked⟩
    rw [hdb]
    exact h.stored
  | restarted => exact ⟨h.stored, h.fresh, h.drawn, nofun, nofun, nofun, nofun, nofun, h.revoked⟩

/-- In every run from a start. -/
theorem run_keys {db : Store} {now : Nat} (h : Run host (.start db now) s) : Keys s := by
  induction h with
  | refl => exact keys_start db now
  | step _ hstep ih => exact ih.step hstep

end Romi.RegistrationKeys
