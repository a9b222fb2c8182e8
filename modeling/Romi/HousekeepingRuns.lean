import Romi.Housekeeping
import Romi.NoteDelivery
import Romi.RegistrationBudget
import Romi.WriterGuarantees

/-!
# What housekeeping does not repeat

The time of the last compaction and the date of the last digest are settings
that nothing but housekeeping, the panel's choice of a period and a restore
changes. So compactions keep their distance and no day has a second digest, as
long as the clock does not go back, no restore comes between and the setting can
be read.
-/

namespace Romi.HousekeepingRuns

open CachedTransactions CivilDate CrashRecovery ExpiryDigest Housekeeping JsonValue KeyedTable
  DayNumbers LoggedRuns NodeContinuity NotifySweep StoreAnswers StoreAreas StoreGuard StoreJobs
  StoreOperations StoreSchema WriterGuarantees
open NoteDelivery (hooked hooked_channels)

variable {jobs : Host} {parse : DateParser}

/-! ## A time read back -/

/-- A time is read as it was written, or not at all. -/
theorem parseI64_shown {n m : Int} (h : parseI64 (toString n) = some m) : m = n := by
  cases n with
  | ofNat k => exact RegistrationBudget.parseI64_toString h
  | negSucc k =>
    have htext : (toString (Int.negSucc k)).toList = '-' :: Nat.toDigits 10 (k + 1) := by
      change ("-" ++ Nat.repr (k + 1)).toList = _
      rw [String.toList_append, Nat.toList_repr]
      rfl
    have hvalue := RegistrationBudget.foldl_digits (Nat.toDigits 10 (k + 1)) 0
    rw [Nat.ofDigitChars_ten_toDigits] at hvalue
    unfold parseI64 at h
    rw [htext] at h
    split at h
    rename_i negative digits hmatch
    obtain ⟨rfl, rfl⟩ : negative = true ∧ digits = Nat.toDigits 10 (k + 1) := by
      split at hmatch
      · rename_i rest heq
        cases heq
        cases hmatch
        exact ⟨rfl, rfl⟩
      · rename_i rest heq
        cases heq
      · rename_i hminus _
        exact absurd rfl (hminus _)
    simp only [if_true] at h
    split at h
    · split at h
      · cases h
        rw [show ((0 : Nat) : Int) = 0 from rfl] at hvalue
        rw [hvalue]
        rfl
      · cases h
    · cases h

/-! ## Who changes a setting -/

/-- A write keeps the settings it does not store. -/
theorem stored_ran {op : Solo} {db db' : Store} {answer : Except Failure Payload} {key : String}
    (h : Ran jobs op db answer db') (hop : ∀ value, op ≠ .set key value) :
    stored db' key = stored db key := by
  by_cases harea : areaOf op = .settings
  · cases op with
    | set other value =>
      have hne : key ≠ other := by
        rintro rfl
        exact hop value rfl
      rcases ran_set h with ⟨-, rfl⟩ | ⟨-, rfl⟩
      · exact stored_withSetting_of_ne db value hne
      · rfl
    | _ => cases harea
  · unfold stored
    rw [(ran_within h).settings harea]

/-- Telemetry writes no setting. -/
theorem stored_telemetry {op : Telemetry} {session : Session Store Guard} (key : String) :
    stored (op.job jobs session).2.db key = stored session.db key := by
  unfold stored
  rw [(telemetry_within jobs session.db op session (.refl _ _)).settings nofun]

/-- A start only drops retired settings. -/
theorem stored_startup {key : String} (hkey : key ∉ retiredSettings) (writtenBy : String) (now : Int)
    (db : Store) : stored (startup writtenBy now db) key = stored db key := by
  have hsetting : (startup writtenBy now db).setting =
      db.setting.deleteWhere fun r => r.key ∈ retiredSettings := by
    rw [startup, resyncIds_frame, retireSettings, initSchema_frame]
  have hfind : (startup writtenBy now db).setting.find? key = db.setting.find? key := by
    rw [hsetting]
    cases hold : db.setting.find? key with
    | none =>
      rw [Table.find?_eq_none] at hold ⊢
      rintro ⟨r, hr, hsame⟩
      exact hold ⟨r, (Table.mem_deleteWhere.mp hr).1, hsame⟩
    | some r =>
      obtain ⟨hr, hsame⟩ := Table.find?_eq_some.mp hold
      refine Table.find?_eq_some.mpr ⟨Table.mem_deleteWhere.mpr ⟨hr, ?_⟩, hsame⟩
      rwa [hsame]
  unfold stored
  rw [hfind]

/-- A setting is stored, or nothing is. -/
theorem stored_set {key value : String} {db db' : Store} {answer : Except Failure Payload}
    (h : Ran jobs (.set key value) db answer db') :
    (answer.isOk = true ∧ stored db' key = some value) ∨
      (answer.isOk = false ∧ stored db' key = stored db key) := by
  rcases ran_set h with ⟨rfl, rfl⟩ | ⟨⟨e, rfl⟩, rfl⟩
  · exact .inl ⟨rfl, stored_withSetting db key value⟩
  · exact .inr ⟨rfl, rfl⟩

/-- The time of the last compaction stays, or one is stored. -/
theorem step_last {s s' : State} {e : Event} (h : Step jobs parse s e s') :
    stored s'.db lastKey = stored s.db lastKey ∨ e = .restored ∨
      ∃ now, (e = .rescheduled now ∨ e = .recorded now true) ∧
        stored s'.db lastKey = some (toString now) := by
  cases h with
  | write hop hran => exact .inl (stored_ran hran fun value => (hop value).1)
  | telemetry op session hdb =>
    rw [← hdb]
    exact .inl (stored_telemetry lastKey)
  | reschedule now hran =>
    rcases stored_set hran with ⟨-, hstored⟩ | ⟨hno, -⟩
    · exact .inr (.inr ⟨now, .inl rfl, hstored⟩)
    · cases hno
  | restore db => exact .inr (.inl rfl)
  | restart writtenBy now => exact .inl (stored_startup (by decide) writtenBy now s.db)
  | record hat hran =>
    rcases stored_set hran with ⟨hok, hstored⟩ | ⟨-, hstored⟩
    · rw [hok]
      exact .inr (.inr ⟨_, .inr rfl, hstored⟩)
    · exact .inl hstored
  | tick hat now keep hran => exact .inl (stored_ran hran nofun)
  | compact hat hran => exact .inl (stored_ran hran nofun)
  | expire hat hran => exact .inl (stored_ran hran nofun)
  | roll hat hran => exact .inl (stored_ran hran nofun)
  | stuck hat hran => exact .inl (stored_ran hran nofun)
  | mark hat hran =>
    exact .inl (stored_ran hran fun _ h => absurd (Solo.set.inj h).1 (by decide))
  | _ => exact .inl rfl

/-- So does the date of the last digest. -/
theorem step_sent {s s' : State} {e : Event} (h : Step jobs parse s e s') :
    stored s'.db sentKey = stored s.db sentKey ∨ e = .restored ∨
      ∃ today, e = .marked today true ∧ stored s'.db sentKey = some today.toText := by
  have hother : ∀ {now : Int} (value : String),
      Solo.set lastKey (toString now) ≠ .set sentKey value := by
    intro now value h
    exact absurd (Solo.set.inj h).1 (by decide)
  cases h with
  | write hop hran => exact .inl (stored_ran hran fun value => (hop value).2)
  | telemetry op session hdb =>
    rw [← hdb]
    exact .inl (stored_telemetry sentKey)
  | reschedule now hran => exact .inl (stored_ran hran hother)
  | restore db => exact .inr (.inl rfl)
  | restart writtenBy now => exact .inl (stored_startup (by decide) writtenBy now s.db)
  | record hat hran => exact .inl (stored_ran hran hother)
  | tick hat now keep hran => exact .inl (stored_ran hran nofun)
  | compact hat hran => exact .inl (stored_ran hran nofun)
  | expire hat hran => exact .inl (stored_ran hran nofun)
  | roll hat hran => exact .inl (stored_ran hran nofun)
  | stuck hat hran => exact .inl (stored_ran hran nofun)
  | mark hat hran =>
    rcases stored_set hran with ⟨hok, hstored⟩ | ⟨-, hstored⟩
    · rw [hok]
      exact .inr (.inr ⟨_, rfl, hstored⟩)
    · exact .inl hstored
  | _ => exact .inl rfl

/-! ## Where the task is -/

/-- A period that is read is one that is offered. -/
theorem period_offered {value : Option String} (h : maintenanceDays value ≠ 0) :
    maintenanceDays value ∈ periods := by
  unfold maintenanceDays at h ⊢
  cases hread : (value.bind parseI64).filter fun d => d ∈ periods with
  | none =>
    rw [hread] at h
    exact absurd rfl h
  | some d =>
    rw [Option.getD_some]
    exact of_decide_eq_true (Option.filter_eq_some_iff.mp hread).2

/-- A period the task goes by is one that is offered. -/
theorem step_period {s s' : State} {e : Event} (h : Step jobs parse s e s')
    (hs : ∀ days, s.phase.period = some days → days ∈ periods) :
    ∀ days, s'.phase.period = some days → days ∈ periods := by
  intro days hdays
  cases h with
  | write | telemetry | reschedule | restore => exact hs days hdays
  | on hat hgot hon =>
    cases hdays
    exact period_offered hon
  | due hat hgot hlast hdue =>
    refine hs days ?_
    rw [hat]
    exact hdays
  | @compact _ _ _ _ _ _ ok hat hran hok => cases ok <;> cases hdays
  | look hat hgot =>
    dsimp only at hdays
    split at hdays <;> cases hdays
  | route hat faults =>
    dsimp only at hdays
    split at hdays <;> cases hdays
  | mark hat hran =>
    dsimp only at hdays
    split at hdays <;> cases hdays
  | _ => cases hdays

/-- A compaction begins when the period has passed since the time that was read. -/
theorem step_compacting {s s' : State} {e : Event} (h : Step jobs parse s e s') {now days : Int}
    (hat : s'.phase = .compacting now days) : s.phase = .compacting now days ∨
      s.phase = .choosing now days ∧ ∃ value last, Got s.db lastKey value ∧
        value.bind parseI64 = some last ∧ Elapsed now last days := by
  cases h with
  | write | telemetry | reschedule | restore => exact .inl hat
  | due hbefore hgot hlast hdue =>
    cases hat
    exact .inr ⟨hbefore, _, _, hgot, hlast, hdue⟩
  | @compact _ _ _ _ _ _ ok hbefore hran hok => cases ok <;> cases hat
  | look hbefore hgot =>
    dsimp only at hat
    split at hat <;> cases hat
  | route hbefore faults =>
    dsimp only at hat
    split at hat <;> cases hat
  | mark hbefore hran =>
    dsimp only at hat
    split at hat <;> cases hat
  | _ => cases hat

/-- A digest is prepared after the task has read another date, or none. -/
theorem step_heading {s s' : State} {e : Event} (h : Step jobs parse s e s') {today : NaiveDate}
    (hat : s'.phase.heading = some today) : s.phase.heading = some today ∨
      ∃ sent, e = .looked today sent ∧ Got s.db sentKey sent ∧ sent ≠ some today.toText := by
  cases h with
  | write | telemetry | reschedule | restore => exact .inl hat
  | @compact _ _ _ _ _ _ ok hbefore hran hok => cases ok <;> cases hat
  | @look today' days sent hbefore hgot =>
    dsimp only at hat
    split at hat
    · cases hat
    · rename_i hnew
      cases hat
      exact .inr ⟨sent, rfl, hgot, hnew⟩
  | route hbefore faults =>
    dsimp only at hat
    split at hat
    · cases hat
    · cases hat
      rw [hbefore]
      exact .inl rfl
  | list hbefore =>
    cases hat
    rw [hbefore]
    exact .inl rfl
  | mark hbefore hran =>
    dsimp only at hat
    split at hat <;> cases hat
  | _ => cases hat

/-- How far a digest looks ahead is read from the settings when it is begun. -/
theorem step_window {s s' : State} {e : Event} (h : Step jobs parse s e s') {days : Int}
    (hat : s'.phase.window = some days) : s.phase.window = some days ∨
      ∃ faults, number faults s.db "notify_expiry" = days ∧ days ≠ 0 := by
  cases h with
  | write | telemetry | reschedule | restore => exact .inl hat
  | @compact _ _ _ _ _ _ ok hbefore hran hok => cases ok <;> cases hat
  | begin hbefore today hon hhour =>
    cases hat
    exact .inr ⟨_, rfl, hon⟩
  | look hbefore hgot =>
    dsimp only at hat
    split at hat
    · cases hat
    · cases hat
      rw [hbefore]
      exact .inl rfl
  | route hbefore faults =>
    dsimp only at hat
    split at hat
    · cases hat
    · cases hat
      rw [hbefore]
      exact .inl rfl
  | mark hbefore hran =>
    dsimp only at hat
    split at hat <;> cases hat
  | _ => cases hat

/-- A digest is drawn up from the nodes of the moment and then kept. -/
theorem step_draft {s s' : State} {e : Event} (h : Step jobs parse s e s') {today : NaiveDate}
    {note : Option Note} (hat : s'.phase.draft = some (today, note)) :
    s.phase.draft = some (today, note) ∨
      ∃ days, s.phase.window = some days ∧
        note = digestNote today (soon parse days today (nodes s.db)) := by
  cases h with
  | write | telemetry | reschedule | restore => exact .inl hat
  | @compact _ _ _ _ _ _ ok hbefore hran hok => cases ok <;> cases hat
  | look hbefore hgot =>
    dsimp only at hat
    split at hat <;> cases hat
  | route hbefore faults =>
    dsimp only at hat
    split at hat <;> cases hat
  | @list today' days hbefore =>
    cases hat
    rw [hbefore]
    exact .inr ⟨days, rfl, rfl⟩
  | mark hbefore hran =>
    dsimp only at hat
    split at hat
    · cases hat
      rw [hbefore]
      exact .inl rfl
    · cases hat
  | _ => cases hat

/-! ## Compactions keep their distance -/

/-- What is stored is no earlier, and a compaction that is about to begin is a
period later. -/
structure Since (time : Int) (s : State) : Prop where
  /-- The time that is stored is not earlier. -/
  stored : ∀ last, (stored s.db lastKey).bind parseI64 = some last → time ≤ last
  /-- A compaction that is due is a period later. -/
  due : ∀ now days, s.phase = .compacting now days → time + days * 86400 ≤ now
  /-- The period is one that is offered. -/
  offered : ∀ days, s.phase.period = some days → days ∈ periods

/-- What has elapsed since a later time has since an earlier one. -/
theorem elapsed_since {now last days time : Int} (h : Elapsed now last days) (hdays : days ∈ periods)
    (hlast : time ≤ last) : time + days * 86400 ≤ now := by
  have hpos : 0 < days := by
    revert hdays
    unfold periods
    simp only [List.mem_cons, List.not_mem_nil, or_false]
    omega
  unfold Elapsed saturatingSub i64Min i64Max at h
  omega

/-- What recording the time leaves. -/
theorem record_step {s s' : State} {now : Int} (h : Step jobs parse s (.recorded now true) s') :
    s'.phase = .expiring ∧ stored s'.db lastKey = some (toString now) := by
  generalize hevent : Event.recorded now true = e at h
  cases h with
  | record hat hran =>
    obtain ⟨rfl, hok⟩ := Event.recorded.inj hevent
    rcases stored_set hran with ⟨-, hstored⟩ | ⟨hno, -⟩
    · exact ⟨rfl, hstored⟩
    · cases hok.trans hno
  | _ => cases hevent

/-- Every step keeps to it as long as the time is not set back. -/
theorem since_step {time : Int} {s s' : State} {e : Event} (hs : Since time s)
    (he : e ≠ .restored ∧ ∀ t, e = .rescheduled t ∨ e = .recorded t true → time ≤ t)
    (h : Step jobs parse s e s') : Since time s' where
  stored last hlast := by
    rcases step_last h with hsame | hrestored | ⟨now, hevent, hstored⟩
    · rw [hsame] at hlast
      exact hs.stored last hlast
    · exact absurd hrestored he.1
    · rw [hstored, Option.bind_some] at hlast
      rw [parseI64_shown hlast]
      exact he.2 now hevent
  due now days hat := by
    rcases step_compacting h hat with hbefore | ⟨hbefore, value, last, hgot, hlast, hdue⟩
    · exact hs.due now days hbefore
    · refine elapsed_since hdue (hs.offered days (by rw [hbefore]; rfl)) ?_
      rcases hgot with rfl | rfl
      · cases hlast
      · exact hs.stored last hlast
  offered := step_period h hs.offered

/-- Between two automatic compactions lies the period that was chosen, unless
another database was put in service or the clock went back in between; only the
periods that are offered count. -/
theorem compactions_spaced {start s : State} (hstart : start.phase = .idle)
    {after between before : List Event} {first now days : Int} {ok : Bool}
    (h : Run jobs parse start
      (after ++ .compacted now days ok :: (between ++ .recorded first true :: before)) s)
    (hbetween : ∀ e ∈ between, e ≠ .restored ∧
      ∀ t, e = .rescheduled t ∨ e = .recorded t true → first ≤ t) :
    days ∈ periods ∧ first + days * 86400 ≤ now := by
  obtain ⟨s₃, s₄, hrun, hcompact, -⟩ := h.at
  obtain ⟨s₁, s₂, hbefore, hrecord, hmiddle⟩ := hrun.at
  have hoffered : ∀ {s : State} {log : List Event}, Run jobs parse start log s →
      ∀ days, s.phase.period = some days → days ∈ periods := by
    intro s log hr
    refine hr.always ?_ fun s e s' hs hstep => step_period hstep hs
    intro days hdays
    rw [hstart] at hdays
    cases hdays
  obtain ⟨hphase, hstored⟩ := record_step hrecord
  have hsince : Since first s₂ := by
    refine ⟨?_, ?_, hoffered (.step hbefore hrecord)⟩
    · intro last hlast
      rw [hstored, Option.bind_some] at hlast
      rw [parseI64_shown hlast]
    · intro now days hat
      rw [hphase] at hat
      cases hat
  have hkept : Since first s₃ := hmiddle.keeps hbetween hsince fun s e s' hs he hstep =>
    since_step hs he hstep
  cases hcompact with
  | compact hat hran hok =>
    exact ⟨hkept.offered days (by rw [hat]; rfl), hkept.due now days hat⟩

/-- Some write of this kind runs. -/
theorem ran_exists (jobs : Host) (op : Solo) (db : Store) : ∃ answer db', Ran jobs op db answer db' :=
  ⟨_, _, ⟨⟨db, ⟨∅, ∅, fun _ => none, fun _ => none⟩, []⟩, rfl, rfl, rfl⟩⟩

/-- A week is chosen; the time is stored, and a week later the database is compacted. -/
theorem compactions_spaced_week : ∃ (log : List Event) (ok : Bool) (s : State),
    Run plainHost (fun _ => none) ⟨withSetting Store.blank "maintenance_days" "7", .idle⟩
      (.compacted 604800 7 ok :: log) s ∧
      (7 : Int) ∈ periods ∧ (0 : Int) + 7 * 86400 ≤ 604800 := by
  let db : Store := withSetting Store.blank "maintenance_days" "7"
  have hdays : stored db "maintenance_days" = some "7" := stored_withSetting _ _ _
  obtain ⟨a₁, db₁, hran₁⟩ := ran_exists plainHost (.prune 0 30) db
  have hdays₁ : stored db₁ "maintenance_days" = some "7" := (stored_ran hran₁ nofun).trans hdays
  have h₁ : Run plainHost (fun _ => none) ⟨db, .idle⟩ _ _ := .step .start (.tick rfl 0 30 hran₁ 0)
  have h₂ := h₁.step (.on rfl (.inr hdays₁.symm) (by decide))
  have h₃ := h₂.step (.unset rfl (.inl rfl) rfl)
  have h₄ := h₃.step (.record (.inl rfl) (set_ran plainHost lastKey "0" db₁))
  -- the hub stops here, and the first round after its start is a week later
  have h₅ := h₄.step (.restart "romi" 1)
  obtain ⟨a₂, db₂, hran₂⟩ := ran_exists plainHost (.prune 604800 30)
    (startup "romi" 1 (withSetting db₁ lastKey "0"))
  have hdays₂ : stored db₂ "maintenance_days" = some "7" := by
    rw [stored_ran hran₂ nofun, stored_startup (by decide), stored_withSetting_of_ne _ _ (by decide)]
    exact hdays₁
  have hlast : stored db₂ lastKey = some "0" := by
    rw [stored_ran hran₂ nofun, stored_startup (by decide), stored_withSetting]
  have h₆ := h₅.step (.tick rfl 604800 30 hran₂ 604800)
  have h₇ := h₆.step (.on rfl (.inr hdays₂.symm) (by decide))
  have hdue : Elapsed 604800 0 7 := by
    unfold Elapsed
    decide
  have h₈ := h₇.step (.due rfl (.inr hlast.symm) rfl hdue)
  obtain ⟨a₃, db₃, hran₃⟩ := ran_exists plainHost (.prune 604800 30) db₂
  have h₉ := h₈.step (@Step.compact _ _ _ _ _ _ _ _ _ a₃.isOk rfl hran₃ id)
  refine ⟨_, _, _, h₉, ?_⟩
  refine @compactions_spaced _ _ _ _ rfl [] [.worked, .worked, .worked, .worked]
    [.worked, .worked, .worked] 0 604800 7 a₃.isOk h₉ ?_
  intro e he
  obtain rfl : e = .worked := by simpa using he
  exact ⟨nofun, fun t ht => ht.elim nofun nofun⟩

/-! ## One digest a day -/

/-- The day is stored as done and nothing is being prepared for it. -/
structure Done (today : NaiveDate) (s : State) : Prop where
  /-- The day is stored as done. -/
  stored : stored s.db sentKey = some today.toText
  /-- No digest of that day is being prepared. -/
  resting : s.phase.heading ≠ some today

/-- What storing the day leaves. -/
theorem mark_step {s s' : State} {today : NaiveDate}
    (h : Step jobs parse s (.marked today true) s') : s.phase.heading = some today ∧ Done today s' ∧
      ∃ note, s'.phase = .sending today note := by
  generalize hevent : Event.marked today true = e at h
  cases h with
  | mark hat hran =>
    obtain ⟨rfl, hok⟩ := Event.marked.inj hevent
    rcases stored_set hran with ⟨-, hstored⟩ | ⟨hno, -⟩
    · rw [hat, ← hok]
      exact ⟨rfl, ⟨hstored, nofun⟩, _, rfl⟩
    · cases hok.trans hno
  | _ => cases hevent

/-- Every step keeps the day done as long as it is not set back. -/
theorem done_step {today : NaiveDate} {s s' : State} {e : Event} (hs : Done today s)
    (he : e ≠ .restored ∧ e ≠ .looked today none ∧
      ∀ other, e = .marked other true → other = today) (h : Step jobs parse s e s') :
    Done today s' where
  stored := by
    rcases step_sent h with hsame | hrestored | ⟨other, hevent, hstored⟩
    · rw [hsame]
      exact hs.stored
    · exact absurd hrestored he.1
    · rwa [← he.2.2 other hevent]
  resting hheading := by
    rcases step_heading h hheading with hbefore | ⟨sent, hevent, hgot, hnew⟩
    · exact hs.resting hbefore
    · rcases hgot with rfl | rfl
      · exact he.2.1 hevent
      · exact hnew hs.stored

/-- So many days: what the settings said at some moment before, and not none. -/
def Asked (jobs : Host) (parse : DateParser) (start : State) (log : List Event) (days : Int) : Prop :=
  ∃ later before asked faults, log = later ++ before ∧ Run jobs parse start before asked ∧
    number faults asked.db "notify_expiry" = days ∧ days ≠ 0

/-- The note lists the nodes that expired, at some moment of the run, within the
days the settings had said, by date and then by name. -/
def Drawn (jobs : Host) (parse : DateParser) (start : State) (today : NaiveDate)
    (note : Option Note) : Prop :=
  ∃ log mid days entries, Run jobs parse start log mid ∧ Asked jobs parse start log days ∧
    note = digestNote today entries ∧
    (entries.Pairwise fun a b => a.1 < b.1 ∨ a.1 = b.1 ∧ a.2.name ≤ b.2.name) ∧
    ∀ date n, (date, n) ∈ entries ↔ n ∈ nodes mid.db ∧ n.expiresAt.bind parse = some date ∧
      today ≤ date ∧ daysUntil date today ≤ days

/-- The day was stored as done, and no digest has been sent since. -/
def Marked (log : List Event) (today : NaiveDate) : Prop :=
  ∃ between before, log = between ++ .marked today true :: before ∧
    ∀ e ∈ between, e.isDigest = false

/-- How far ahead a digest looks was read from the settings. -/
theorem asked_run {start s : State} (hstart : start.phase = .idle) {log : List Event}
    (h : Run jobs parse start log s) {days : Int} (hat : s.phase.window = some days) :
    Asked jobs parse start log days := by
  induction h with
  | start =>
    rw [hstart] at hat
    cases hat
  | @step log s s' e hrun hstep ih =>
    rcases step_window hstep hat with hbefore | ⟨faults, hdays, hon⟩
    · obtain ⟨later, before, asked, faults, rfl, hasked⟩ := ih hbefore
      exact ⟨e :: later, before, asked, faults, rfl, hasked⟩
    · exact ⟨[e], log, s, faults, rfl, hrun, hdays, hon⟩

/-- A digest was drawn up from the nodes of the day. -/
theorem drawn_run {start s : State} (hstart : start.phase = .idle) {log : List Event}
    (h : Run jobs parse start log s) {today : NaiveDate} {note : Option Note}
    (hat : s.phase.draft = some (today, note)) : Drawn jobs parse start today note := by
  induction h with
  | start =>
    rw [hstart] at hat
    cases hat
  | @step log s s' e hrun hstep ih =>
    rcases step_draft hstep hat with hbefore | ⟨days, hwindow, hnote⟩
    · exact ih hbefore
    · exact ⟨log, s, days, _, hrun, asked_run hstart hrun hwindow, hnote,
        soon_sorted parse days today _, fun _ _ => mem_soon⟩

/-- A digest that goes out was about to, or its day was stored just now. -/
theorem sending_step {s s' : State} {e : Event} (h : Step jobs parse s e s') {today : NaiveDate}
    {note : Option Note} (hat : s'.phase = .sending today note) :
    s.phase = .sending today note ∧ e.isDigest = false ∨ e = .marked today true := by
  cases h with
  | write | telemetry | reschedule | restore => exact .inl ⟨hat, rfl⟩
  | @compact _ _ _ _ _ _ ok hbefore hran hok => cases ok <;> cases hat
  | look hbefore hgot =>
    dsimp only at hat
    split at hat <;> cases hat
  | route hbefore faults =>
    dsimp only at hat
    split at hat <;> cases hat
  | mark hbefore hran =>
    dsimp only at hat
    split at hat
    · rename_i hok
      cases hat
      rw [hok]
      exact .inr rfl
    · cases hat
  | _ => cases hat

/-- A digest that goes out had its day stored before. -/
theorem marked_run {start s : State} (hstart : start.phase = .idle) {log : List Event}
    (h : Run jobs parse start log s) {today : NaiveDate} {note : Option Note}
    (hat : s.phase = .sending today note) : Marked log today := by
  induction h with
  | start =>
    rw [hstart] at hat
    cases hat
  | @step log s s' e hrun hstep ih =>
    rcases sending_step hstep hat with ⟨hbefore, hquiet⟩ | rfl
    · obtain ⟨between, before, rfl, hbetween⟩ := ih hbefore
      refine ⟨e :: between, before, rfl, ?_⟩
      intro e' he'
      rcases List.mem_cons.mp he' with rfl | he'
      · exact hquiet
      · exact hbetween e' he'
    · exact ⟨[], log, rfl, fun _ he => absurd he List.not_mem_nil⟩

/-- The day of the example. -/
def firstDay : NaiveDate := ⟨2026, 1, 31, by decide, by decide, by decide⟩

/-- The day its node expires. -/
def lastDay : NaiveDate := ⟨2026, 2, 2, by decide, by decide, by decide⟩

/-- A database with a webhook and a node that expires in two days. -/
def expiringStore : Store :=
  { hooked with
    node := hooked.node.put (newNodeRow 1 { sampleNode with expiresAt := some "2026-02-02" } "t" 0 0) }

/-- It has something to say. -/
theorem expiringStore_note : (digestNote firstDay
    (soon (fun _ => some lastDay) 7 firstDay (nodes expiringStore))).isSome = true := by
  decide +kernel

end Romi.HousekeepingRuns
