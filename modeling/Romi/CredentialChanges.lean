import Romi.SignInSteps

/-!
# What a credential change does to the sessions there are

A change writes the credential first and drops the sessions after, so a sign-in
that read the old one can only outlive it by filing its session later still.
-/

namespace Romi.CredentialChanges

open CachedTransactions JsonValue KeyedTable SignInSteps StoreAnswers StoreOperations StoreSchema

variable {host : Host} {panel : Panel} {s s' : State}

/-! ## Sessions of an old credential -/

/-- The session was issued to a sign-in that had read the credential before the change. -/
def Stale (c : Change) (o : Option Origin) : Prop :=
  ∃ seen, o = some (.login seen) ∧ seen c.credential < c.number

/-- Where a patch has answered success, no session of a credential it replaced is valid. -/
def SignedOut (s : State) : Prop :=
  ∀ j did, s.save j = .succeeded did → ∀ c ∈ did, ∀ tokenHash, Stale c (s.origin tokenHash) →
    ∀ now, ¬ sessionValid s.db tokenHash now

/-- From the moment a change has dropped the sessions, none of the old credential is there. -/
def Ended (s : State) : Prop :=
  ∀ j, ∀ c ∈ (s.save j).ended, ∀ r ∈ s.db.session.rows, ¬ Stale c (s.origin r.tokenHash)

/-- At the end the administrator is signed out. -/
theorem Ended.signedOut (h : Ended s) : SignedOut s := by
  intro j did hsave c hc tokenHash hstale now hvalid
  obtain ⟨r, hr, rfl, -⟩ := hvalid
  refine h j c ?_ r hr hstale
  rw [hsave]
  exact hc

/-- A sign-in that files its session has read every credential a finished drop was about
after its change. -/
def Timely (s s' : State) : Prop :=
  ∀ i seen, s.login i = .verified seen → s'.login i = .answered true →
    ∀ j, ∀ c ∈ (s.save j).ended, c.number ≤ seen c.credential

/-- A run in which every step is timely. -/
inductive TimelyRun (host : Host) (panel : Panel) : State → Prop
  /-- The hub just started. -/
  | start (db : Store) : TimelyRun host panel (.start db)
  /-- A step in time. -/
  | step {s s' : State} (h : TimelyRun host panel s) (hstep : Step host panel s s')
    (htimely : Timely s s') : TimelyRun host panel s'

/-- A timely run is one of the hub. -/
theorem TimelyRun.reachable (h : TimelyRun host panel s) : Reachable host panel s := by
  induction h with
  | start db => exact .start db
  | step _ hstep _ ih => exact ih.step hstep

/-! ## What one step does -/

/-- Fewer sessions and no new drop. -/
theorem Ended.less (h : Ended s) (hsave : ∀ j, ∀ c ∈ (s'.save j).ended, c ∈ (s.save j).ended)
    (hrows : s'.db.session.rows ⊆ s.db.session.rows) (horigin : s'.origin = s.origin) :
    Ended s' := by
  intro j c hc r hr
  rw [horigin]
  exact h j c (hsave j c hc) r (hrows hr)

/-- One patch moves on without a drop. -/
theorem ended_saveTo {j : Nat} {v : Save} (hv : ∀ c ∈ v.ended, c ∈ (s.save j).ended) (i : Nat) :
    ∀ c ∈ ((Function.update s.save j v) i).ended, c ∈ (s.save i).ended := by
  intro c hc
  by_cases hi : i = j
  · rw [hi, Function.update_self] at hc
    rw [hi]
    exact hv c hc
  · rwa [Function.update_of_ne hi] at hc

/-- A filed session is in the table under its digest, next to the others. -/
theorem createSession_rows {tokenHash : String} {expiresAt : Int} {db db' : Store}
    (h : Ran host (.createSession tokenHash expiresAt) db (.ok .nothing) db') :
    db'.session = db.session.put ⟨tokenHash, expiresAt⟩ := by
  rcases ran_createSession h with ⟨-, rfl⟩ | ⟨⟨e, hnone⟩, -⟩
  · rfl
  · cases hnone

/-- A write of a setting leaves the sessions alone. -/
theorem set_rows {key value : String} {db db' : Store} {answer : Except Failure Payload}
    (h : Ran host (.set key value) db answer db') : db'.session = db.session := by
  rcases ran_set h with ⟨-, rfl⟩ | ⟨-, rfl⟩
  · rfl
  · rfl

/-- A session filed for somebody who is no latecomer. -/
theorem Ended.issued (h : Ended s) {tokenHash : String} {expiresAt : Int} {o : Origin}
    {db : Store} (hran : Ran host (.createSession tokenHash expiresAt) s.db (.ok .nothing) db)
    (ho : ∀ j, ∀ c ∈ (s.save j).ended, ¬ Stale c (some o)) :
    Ended (s.issued tokenHash o db) := by
  intro j c hc r hr
  change r ∈ db.session.rows at hr
  rw [createSession_rows hran] at hr
  change ¬ Stale c (Function.update s.origin tokenHash (some o) r.tokenHash)
  rcases Table.mem_put.mp hr with rfl | ⟨hold, hne⟩
  · rw [Function.update_self]
    exact ho j c hc
  · rw [Function.update_of_ne hne]
    exact h j c hc r hold

/-- Nobody who had a session before is a latecomer. -/
theorem not_stale_caller (c : Change) : ¬ Stale c (some .caller) := by
  rintro ⟨seen, heq, -⟩
  cases heq

/-- A sign-in keeps it, if it files no session too late. -/
theorem Ended.loginStep (h : Ended s) {i : Nat} (hstep : LoginStep host panel s i s')
    (htimely : Timely s s') : Ended s' := by
  have hsub : s.db.session.rows ⊆ s.db.session.rows := Finset.Subset.refl _
  cases hstep with
  | issued seen token now db hat hran =>
    refine h.issued hran ?_
    intro j c hc ⟨seen', heq, hlt⟩
    have hle := htimely i seen hat (Function.update_self _ _ _) j c hc
    cases heq
    omega
  | unissued seen token now db e hat hran =>
    refine h.less (fun _ _ hc => hc) ?_ rfl
    rcases ran_createSession hran with ⟨hnone, -⟩ | ⟨-, rfl⟩
    · cases hnone
    · exact hsub
  | _ => exact h.less (fun _ _ hc => hc) hsub rfl

/-- A patch keeps it. -/
theorem Ended.saveStep (h : Ended s) {j : Nat} (hstep : SaveStep host panel s j s') :
    Ended s' := by
  have hsub : s.db.session.rows ⊆ s.db.session.rows := Finset.Subset.refl _
  cases hstep with
  | submitted members hat => exact h.less (ended_saveTo nofun) hsub rfl
  | invalid members hat hbad => exact h.less (ended_saveTo nofun) hsub rfl
  | plain members hat hgood hplain => exact h.less (ended_saveTo nofun) hsub rfl
  | unproven members hat hgood hchanges hnone => exact h.less (ended_saveTo nofun) hsub rfl
  | busy members hat hgood hchanges hgate => exact h.less (ended_saveTo nofun) hsub rfl
  | proving members offered hat hgood hchanges hoffered hgate =>
    exact h.less (ended_saveTo nofun) hsub rfl
  | refused members offered stored hat hget hwrong => exact h.less (ended_saveTo nofun) hsub rfl
  | proven members offered stored hat hget hright => exact h.less (ended_saveTo nofun) hsub rfl
  | noted did value todo now db hat hran =>
    refine h.less (ended_saveTo fun c hc => ?_) ?_ rfl
    · rw [hat]
      exact hc
    · change db.session.rows ⊆ _
      rw [set_rows hran]
  | stored did key value todo noted db hat hnoted hplain hran =>
    refine h.less (ended_saveTo fun c hc => ?_) ?_ rfl
    · rw [hat]
      exact hc
    · change db.session.rows ⊆ _
      rw [set_rows hran]
  | changed did key value text todo noted c db hat hc htext hran =>
    refine h.less (ended_saveTo fun c hc => ?_) ?_ rfl
    · rw [hat]
      exact hc
    · change db.session.rows ⊆ _
      rw [set_rows hran]
  | dropped did c todo db hat hran =>
    rcases ran_dropAllSessions hran with ⟨-, rfl⟩ | ⟨⟨e, hnone⟩, -⟩
    · intro i c' _ r hr
      exact absurd hr (Finset.notMem_empty r)
    · cases hnone
  | issued did todo token now db hat hran =>
    refine (h.issued hran fun _ c _ => not_stale_caller c).less (ended_saveTo fun c hc => ?_)
      (Finset.Subset.refl _) rfl
    change c ∈ (s.save j).ended
    rw [hat]
    exact hc
  | finished did hat =>
    refine h.less (ended_saveTo fun c hc => ?_) hsub rfl
    rw [hat]
    exact hc
  | broke hat => exact h.less (ended_saveTo nofun) hsub rfl

/-- No timely step brings back a session of a replaced credential. -/
theorem Ended.step (h : Ended s) (hstep : Step host panel s s') (htimely : Timely s s') :
    Ended s' := by
  cases hstep with
  | login i _ hlogin => exact h.loginStep hlogin htimely
  | save j _ hsave => exact h.saveStep hsave
  | reissued token now db hran => exact h.issued hran fun _ c _ => not_stale_caller c
  | elsewhere db hless => exact h.less (fun _ _ hc => hc) hless rfl

/-- From the start on. -/
theorem TimelyRun.ended (h : TimelyRun host panel s) : Ended s := by
  induction h with
  | start db => exact fun _ _ hc => absurd hc List.not_mem_nil
  | step _ hstep htimely ih => exact ih.step hstep htimely

/-- Where nothing has gone wrong yet, a sign-in files its session without harm exactly
when no finished patch has changed what it read. -/
theorem issued_signedOut_iff (h : SignedOut s) {i : Nat} {seen : Credential → Nat}
    {tokenHash : String} {now : Int} {db : Store}
    (hran : Ran host (.createSession tokenHash (now + sessionDays * 86400)) s.db
      (.ok .nothing) db) :
    SignedOut ((s.issued tokenHash (.login seen) db).answer i true) ↔
      ∀ j did, s.save j = .succeeded did → ∀ c ∈ did, c.number ≤ seen c.credential := by
  have hrow := createSession_rows hran
  constructor
  · intro hout j did hsave c hc
    by_contra hlate
    refine hout j did hsave c hc tokenHash ⟨seen, Function.update_self _ _ _, by omega⟩ now ?_
    refine ⟨⟨tokenHash, now + sessionDays * 86400⟩, ?_, rfl, ?_⟩
    · change _ ∈ db.session.rows
      rw [hrow]
      exact Table.mem_put.mpr (.inl rfl)
    · dsimp only [sessionDays]
      omega
  · intro hnone j did hsave c hc hash hstale t hvalid
    change Stale c (Function.update s.origin tokenHash _ hash) at hstale
    by_cases heq : hash = tokenHash
    · rw [heq, Function.update_self] at hstale
      obtain ⟨seen', horigin, hlt⟩ := hstale
      cases horigin
      have hle := hnone j did hsave c hc
      omega
    · rw [Function.update_of_ne heq] at hstale
      refine h j did hsave c hc hash hstale t ?_
      obtain ⟨r, hr, rfl, hlive⟩ := hvalid
      change r ∈ db.session.rows at hr
      rw [hrow] at hr
      rcases Table.mem_put.mp hr with rfl | ⟨hold, -⟩
      · exact absurd rfl heq
      · exact ⟨r, hold, rfl, hlive⟩

/-! ## Steps that file no session -/

/-- A patch never does so for a sign-in. -/
theorem timely_saveStep {j : Nat} (h : SaveStep host panel s j s') : Timely s s' := by
  have hsame : s'.login = s.login := by cases h <;> rfl
  intro i seen hat hanswered
  rw [hsame, hat] at hanswered
  cases hanswered

/-- A sign-in that is not there yet. -/
theorem timely_loginStep {i : Nat} {l : Login} (hat : ∀ seen, s.login i ≠ .verified seen)
    (hmove : s'.login = Function.update s.login i l) : Timely s s' := by
  intro k seen hverified hanswered
  have hne : k ≠ i := by
    intro heq
    rw [heq] at hverified
    exact hat seen hverified
  rw [hmove, Function.update_of_ne hne, hverified] at hanswered
  cases hanswered

/-- A step of a save is timely. -/
theorem TimelyRun.saves (h : TimelyRun host panel s) {j : Nat} (hstep : SaveStep host panel s j s') :
    TimelyRun host panel s' := h.step (.save j _ hstep) (timely_saveStep hstep)

/-- So is a step of a login that does not insert. -/
theorem TimelyRun.logs (h : TimelyRun host panel s) {i : Nat} {l : Login}
    (hstep : LoginStep host panel s i s') (hat : ∀ seen, s.login i ≠ .verified seen)
    (hmove : s'.login = Function.update s.login i l) : TimelyRun host panel s' :=
  h.step (.login i _ hstep) (timely_loginStep hat hmove)

/-! ## A sign-in that is too slow -/

/-- A panel that keeps passwords as they are and accepts every setting. -/
def plainPanel : Panel :=
  ⟨fun _ password => some password, fun password stored => decide (password = stored),
    fun _ _ => none⟩

/-- A hub that keeps tokens as they are. -/
def tokenHost : Host := ⟨fun token => token, fun _ => none⟩

/-- The password is set, the account is not. -/
def passwordStore : Store := withSetting Store.blank "admin_password_hash" "first password"

/-- The patch that replaces the password. -/
def newPassword : List (String × Json) :=
  [("admin_password", .str "second password"), ("current_password", .str "first password")]

/-- The password is replaced while a sign-in that knew the old one still has to
file its session. -/
theorem password_replaced : ∃ s : State, TimelyRun tokenHost plainPanel s ∧
    s.save 0 = .succeeded [⟨.password, 1⟩] ∧ s.login 0 = .verified (fun _ => 0) := by
  have hstored : Got passwordStore Credential.password.key (some "first password") :=
    .inr (stored_withSetting Store.blank "admin_password_hash" "first password").symm
  have hchanges : changesCredential newPassword := ⟨_, List.mem_cons_self, rfl⟩
  have hgood : ∀ m ∈ newPassword, plainPanel.settingError m.1 m.2 = none := fun _ _ => rfl
  -- the patch proves the current password and gives the gate back
  have h₀ : TimelyRun tokenHost plainPanel (.start passwordStore) := .start passwordStore
  have h₁ := h₀.saves (.submitted (j := 0) newPassword rfl)
  have h₂ := h₁.saves (.proving (j := 0) newPassword "first password" rfl hgood hchanges rfl
    Nat.one_pos)
  have h₃ := h₂.saves (.proven (j := 0) newPassword "first password" _ rfl hstored rfl)
  -- a sign-in checks the old one in between
  have h₄ := h₃.logs (.arrived (i := 0) ⟨"admin", "first password"⟩ "192.0.2.1" rfl) nofun rfl
  have h₅ := h₄.logs (.admitted (i := 0) _ _ 0 rfl rfl Nat.one_pos) nofun rfl
  have h₆ := h₅.logs (.hashed (i := 0) _ _ _ rfl hstored) nofun rfl
  have h₇ := h₆.logs (.verified (i := 0) _ _ _ _ none rfl (.inl rfl) rfl rfl) nofun rfl
  -- and now the patch writes, drops the sessions and answers
  have h₈ := h₇.saves (.changed (j := 0) _ "admin_password" "second password" "second password"
    _ _ .password _ rfl rfl ⟨"", rfl⟩ (set_ran _ _ _ _))
  have h₉ := h₈.saves (.dropped (j := 0) _ _ _ _ rfl (dropAllSessions_ran _ _))
  have h₁₀ := h₉.saves (.issued (j := 0) _ _ "caller" 0 _ rfl (createSession_ran _ _ _ _))
  have h₁₁ := h₁₀.saves (.finished (j := 0) _ rfl)
  refine ⟨_, h₁₁, rfl, ?_⟩
  refine congrArg Login.verified (funext fun c => ?_)
  cases c with
  | password => rfl
  | username => rfl

/-- In a run in which no sign-in files its session after the drop of a change it
had not read, no session of a replaced credential is valid once the patch has
answered; and from there a sign-in that files its session leaves it so exactly
when no patch that has answered changed what it read. -/
theorem credential_change_ends_sessions (h : TimelyRun host panel s) :
    SignedOut s ∧ ∀ i seen token now db, s.login i = .verified seen →
      Ran host (.createSession (host.sha256 token) (now + sessionDays * 86400)) s.db
        (.ok .nothing) db →
      (SignedOut ((s.issued (host.sha256 token) (.login seen) db).answer i true) ↔
        ∀ j did, s.save j = .succeeded did → ∀ c ∈ did, c.number ≤ seen c.credential) := by
  have hout := h.ended.signedOut
  exact ⟨hout, fun i seen token now db _ hran => issued_signedOut_iff hout hran⟩

/-- The password was changed and nobody is signed in with the old one. -/
theorem credential_change_ends_sessions_password : ∃ s : State,
    s.save 0 = .succeeded [⟨.password, 1⟩] ∧ SignedOut s := by
  obtain ⟨s, hrun, hsave, -⟩ := password_replaced
  exact ⟨s, hsave, (credential_change_ends_sessions hrun).1⟩

/-- A hub can be left with a valid session of the password that was replaced. -/
theorem old_password_still_signed_in : ∃ s : State, Reachable tokenHost plainPanel s ∧
    ¬ SignedOut s := by
  obtain ⟨s, hrun, hsave, hlogin⟩ := password_replaced
  have hran := createSession_ran tokenHost "late" (0 + sessionDays * 86400) s.db
  have hstep := @LoginStep.issued tokenHost plainPanel s 0 _ "late" 0 _ hlogin hran
  refine ⟨_, hrun.reachable.step (.login 0 _ hstep), ?_⟩
  intro hout
  have hnone := (issued_signedOut_iff hrun.ended.signedOut hran).mp hout 0 _ hsave ⟨.password, 1⟩
    List.mem_cons_self
  exact absurd hnone (by decide)

end Romi.CredentialChanges
