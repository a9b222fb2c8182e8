import Romi.SettingChecks
import Romi.WritePlans

/-!
# Saving settings

A patch is checked as a whole and then stored entry by entry, each write on its
own; an entry that changes a credential also drops every session and gives the
caller a new one. So a save that fails leaves what it wrote before it failed.
-/

namespace Romi.SettingsSaves

open CachedTransactions CachedTransactions.Job JsonValue KeyedTable SettingChecks SignInSteps
  StoreAnswers StoreGuard StoreJobs StoreOperations StoreSchema WritePlans

/-! ## The request -/

/-- A JSON object, with every name once. -/
structure Patch where
  /-- The members, in the order of the text. -/
  members : List (String × Json)
  /-- No key is there twice. -/
  unique : (members.map Prod.fst).Nodup

/-- A request to save settings. -/
structure SaveRequest where
  /-- The token in the caller's cookie. -/
  cookie : Option String
  /-- The body, where it is an object. -/
  body : Option Patch

/-- What else an answer depends on. -/
structure Draws where
  /-- The clock when the caller's session is looked up, and whether that works. -/
  now : Int
  /-- Whether the read of the session succeeds. -/
  readsSession : Bool
  /-- The password gate is free. -/
  permit : Bool
  /-- The stored hash can be read. -/
  readsHash : Bool
  /-- The clock when the maintenance period is stored. -/
  notedAt : Int
  /-- The salt of the new hash. -/
  salt : String
  /-- The token a change of a credential is answered with, and when it is issued. -/
  token : Credential → String
  /-- When the new session is issued. -/
  issuedAt : Credential → Int

/-- What the hashing of passwords does. -/
structure Hashing where
  /-- `hash_password`, with the salt drawn. -/
  hashPassword : String → String → Option String
  /-- `verify_password`. -/
  verifyPassword : String → String → Bool

/-- The answer to a request. -/
inductive Reply
  /-- 401. -/
  | unauthorised
  /-- 400 with a text. -/
  | bad (message : String)
  /-- 429. -/
  | tooMany
  /-- 403. -/
  | forbidden
  /-- 500: a write failed. -/
  | failed (e : Failure)
  /-- Done, with the token of the new session, if there is one. -/
  | ok (reissued : String)

/-- The answer is not a success. -/
def Reply.Failed (r : Reply) : Prop := ∀ reissued, r ≠ .ok reissued

instance (db : Store) (tokenHash : String) (now : Int) : Decidable (sessionValid db tokenHash now) :=
  inferInstanceAs (Decidable (∃ r ∈ db.session.rows, r.tokenHash = tokenHash ∧ now < r.expiresAt))

/-- `authed`: a session that cannot be read is no session. -/
def authed (host : Host) (d : Draws) (db : Store) (cookie : Option String) : Bool :=
  cookie.any fun token => d.readsSession ∧ sessionValid db (host.sha256 token) d.now

/-- `password_matches`. -/
def passwordMatches (hashing : Hashing) (d : Draws) (db : Store) (password : String) : Bool :=
  d.readsHash ∧ (stored db Credential.password.key).any (hashing.verifyPassword password)

instance (members : List (String × Json)) : Decidable (changesCredential members) :=
  inferInstanceAs (Decidable (∃ m ∈ members, (credentialOf m.1).isSome))

/-- The answer a request gets before anything is written. -/
def turnedDown (host : Host) (checks : Checks) (hashing : Hashing) (d : Draws) (db : Store)
    (r : SaveRequest) : Option Reply :=
  if authed host d db r.cookie = false then some .unauthorised
  else match r.body with
  | none => some (.bad "expected an object")
  | some patch =>
    match patch.members.findSome? fun m => settingError checks m.1 m.2 with
    | some message => some (.bad message)
    | none =>
      if changesCredential patch.members then
        match (patch.members.lookup currentPassword).bind Json.asStr with
        | none => some (.bad "current password is required")
        | some offered =>
          if d.permit = false then some .tooMany
          else if passwordMatches hashing d db offered = false then some .forbidden
          else none
      else none

/-! ## The writes -/

/-- `issue_session`. -/
def issueSession (host : Host) (token : String) (now : Int) : StoreJob Unit :=
  createSession (host.sha256 token) (now + sessionDays * 86400)

/-- The new hash, or the reason there is none. -/
def newHash (hashing : Hashing) (d : Draws) (value : String) : StoreJob String :=
  match hashing.hashPassword d.salt value with
  | some hash => pure hash
  | none => fail (.declined "cannot hash the password")

/-- A changed credential is stored. -/
def storeCredential (hashing : Hashing) (d : Draws) (c : Credential) (value : String) :
    StoreJob Unit :=
  match c with
  | .password => do
    let hash ← newHash hashing d value
    set "admin_password_hash" hash
  | .username => set "admin_username" value

/-- One entry of `save_settings`, with the token of the last new session. -/
def storeEntry (host : Host) (hashing : Hashing) (d : Draws) (reissued : String)
    (entry : String × String) : StoreJob String := do
  onlyIf (entry.1 = "maintenance_days") (set "maintenance_last" (toString d.notedAt))
  match credentialOf entry.1 with
  | some c => do
    storeCredential hashing d c entry.2
    dropAllSessions
    issueSession host (d.token c) (d.issuedAt c)
    pure (d.token c)
  | none => do
    set entry.1 entry.2
    pure reissued

/-- The entries of `save_settings`. -/
def storeEntries (host : Host) (hashing : Hashing) (d : Draws) :
    String → List (String × String) → StoreJob String
  | reissued, [] => pure reissued
  | reissued, entry :: rest => do
    let reissued ← storeEntry host hashing d reissued entry
    storeEntries host hashing d reissued rest

/-- `save_settings`. -/
def saveSettings (host : Host) (checks : Checks) (hashing : Hashing) (d : Draws) (r : SaveRequest)
    (s : Session Store Guard) : Reply × Session Store Guard :=
  match turnedDown host checks hashing d s.db r, r.body with
  | some reply, _ => (reply, s)
  | none, none => (.bad "expected an object", s)
  | none, some patch =>
    match storeEntries host hashing d "" (entries patch.members) s with
    | (.ok reissued, s') => (.ok reissued, s')
    | (.error e, s') => (.failed e, s')

/-! ## The plan -/

/-- A write of a patch. -/
inductive Write
  /-- A setting is written. -/
  | set (key value : String)
  /-- Every session is dropped. -/
  | dropAllSessions
  /-- A session is created. -/
  | createSession (tokenHash : String) (expiresAt : Int)

/-- What a write does to the store. -/
def Write.effect (db : Store) : Write → Store
  | .set key value => withSetting db key value
  | .dropAllSessions => withoutSessions db
  | .createSession tokenHash expiresAt => withSession db tokenHash expiresAt

/-- What a changed credential is stored as. -/
def newValue (hashing : Hashing) (d : Draws) (c : Credential) (value : String) : Option String :=
  match c with
  | .password => hashing.hashPassword d.salt value
  | .username => some value

/-- The writes of one entry. -/
def entryPlan (host : Host) (hashing : Hashing) (d : Draws) (entry : String × String) :
    List (Option Write) :=
  (if entry.1 = "maintenance_days" then [some (.set "maintenance_last" (toString d.notedAt))]
    else []) ++
  match credentialOf entry.1 with
  | some c => [(newValue hashing d c entry.2).map (Write.set c.key), some .dropAllSessions,
      some (.createSession (host.sha256 (d.token c)) (d.issuedAt c + sessionDays * 86400))]
  | none => [some (.set entry.1 entry.2)]

/-- The writes of a patch, in order. -/
def savePlan (host : Host) (hashing : Hashing) (d : Draws) (r : SaveRequest) : List (Option Write) :=
  match r.body with
  | some patch => (entries patch.members).flatMap (entryPlan host hashing d)
  | none => []

/-- Writing a setting is one write. -/
theorem set_does (key value : String) : Does Write.effect (set key value) [some (.set key value)] :=
  Does.execute (Write.set key value)

/-- So is dropping the sessions. -/
theorem dropAllSessions_does : Does Write.effect dropAllSessions [some .dropAllSessions] :=
  Does.execute Write.dropAllSessions

/-- So is issuing one. -/
theorem issueSession_does (host : Host) (token : String) (now : Int) :
    Does Write.effect (issueSession host token now)
      [some (.createSession (host.sha256 token) (now + sessionDays * 86400))] :=
  Does.execute (Write.createSession (host.sha256 token) (now + sessionDays * 86400))

/-- Storing a credential is one write, or none where the password cannot be hashed. -/
theorem storeCredential_does (hashing : Hashing) (d : Draws) (c : Credential) (value : String) :
    Does Write.effect (storeCredential hashing d c value)
      [(newValue hashing d c value).map (Write.set c.key)] := by
  cases c with
  | username => exact set_does "admin_username" value
  | password =>
    unfold storeCredential newHash newValue
    dsimp only
    cases hashing.hashPassword d.salt value with
    | none => exact Does.fail _
    | some hash => exact set_does "admin_password_hash" hash

/-- Storing an entry does what is planned for it. -/
theorem storeEntry_does (host : Host) (hashing : Hashing) (d : Draws) (reissued : String)
    (entry : String × String) :
    Does Write.effect (storeEntry host hashing d reissued entry) (entryPlan host hashing d entry) := by
  unfold storeEntry entryPlan
  refine Does.bind ?_ fun _ => ?_
  · unfold onlyIf
    split
    · exact set_does _ _
    · exact Does.pure ()
  · cases credentialOf entry.1 with
    | none => exact (set_does entry.1 entry.2).bind fun _ => Does.pure reissued
    | some c =>
      exact (storeCredential_does hashing d c entry.2).bind fun _ =>
        dropAllSessions_does.bind fun _ =>
          (issueSession_does host (d.token c) (d.issuedAt c)).bind fun _ => Does.pure (d.token c)

/-- Storing all of them does what is planned. -/
theorem storeEntries_does (host : Host) (hashing : Hashing) (d : Draws) (reissued : String)
    (todo : List (String × String)) :
    Does Write.effect (storeEntries host hashing d reissued todo)
      (todo.flatMap (entryPlan host hashing d)) := by
  induction todo generalizing reissued with
  | nil => exact Does.pure reissued
  | cons entry rest ih =>
    rw [List.flatMap_cons]
    exact (storeEntry_does host hashing d reissued entry).bind fun reissued => ih reissued

/-- A request that was not turned down has failed exactly when its plan was cut short. -/
theorem saveSettings_stored {host : Host} {checks : Checks} {hashing : Hashing} {d : Draws}
    {r : SaveRequest} {s : Session Store Guard}
    (h : turnedDown host checks hashing d s.db r = none) :
    (saveSettings host checks hashing d r s).2.db =
        (carried s.refusals (savePlan host hashing d r)).foldl Write.effect s.db ∧
      ((saveSettings host checks hashing d r s).1.Failed ↔
        (carried s.refusals (savePlan host hashing d r)).length ≠
          (savePlan host hashing d r).length) := by
  cases hbody : r.body with
  | none =>
    unfold turnedDown at h
    rw [hbody] at h
    split at h <;> cases h
  | some patch =>
    obtain ⟨hdb, hok, -⟩ := storeEntries_does host hashing d "" (entries patch.members) s
    have hplan : savePlan host hashing d r =
        (entries patch.members).flatMap (entryPlan host hashing d) := by
      unfold savePlan
      rw [hbody]
    unfold saveSettings
    rw [h, hbody, hplan]
    dsimp only
    cases hrun : storeEntries host hashing d "" (entries patch.members) s with
    | mk answer s' =>
      rw [hrun] at hdb hok
      refine ⟨?_, ?_⟩
      · cases answer <;> exact hdb
      · rw [ne_eq, ← hok]
        cases answer with
        | error e => simp [Reply.Failed]
        | ok reissued => simp [Reply.Failed]

/-- A request that is turned down fails and writes nothing. -/
theorem saveSettings_turnedDown {host : Host} {checks : Checks} {hashing : Hashing} {d : Draws}
    {r : SaveRequest} {s : Session Store Guard} {reply : Reply}
    (h : turnedDown host checks hashing d s.db r = some reply) :
    saveSettings host checks hashing d r s = (reply, s) := by
  unfold saveSettings
  rw [h]

/-! ## What a patch may set -/

/-- The setting a write stores. -/
def Write.key? : Write → Option String
  | .set key _ => some key
  | _ => none

/-- A setting has a key. -/
@[simp] theorem Write.key?_set (key value : String) : (Write.set key value).key? = some key := rfl

/-- Dropping sessions has none. -/
@[simp] theorem Write.key?_dropAllSessions : Write.dropAllSessions.key? = none := rfl

/-- Nor has creating one. -/
@[simp] theorem Write.key?_createSession (tokenHash : String) (expiresAt : Int) :
    (Write.createSession tokenHash expiresAt).key? = none := rfl

/-- The field of a patch a setting is stored for. -/
def fieldOf (key : String) : String :=
  if key = "maintenance_last" then "maintenance_days"
  else if key = "admin_password_hash" then "admin_password"
  else key

/-- The settings one entry stores. -/
def entryKeys (host : Host) (hashing : Hashing) (d : Draws) (entry : String × String) :
    List String := (entryPlan host hashing d entry).reduceOption.filterMap Write.key?

/-- An entry stores no setting twice, and only settings of its own. -/
theorem entryKeys_own (host : Host) (hashing : Hashing) (d : Draws) {entry : String × String}
    (hlast : entry.1 ≠ "maintenance_last") (hhash : entry.1 ≠ "admin_password_hash") :
    (entryKeys host hashing d entry).Nodup ∧
      ∀ key ∈ entryKeys host hashing d entry, fieldOf key = entry.1 := by
  have hfield : fieldOf entry.1 = entry.1 := by
    unfold fieldOf
    rw [if_neg hlast, if_neg hhash]
  unfold entryKeys entryPlan
  by_cases hdays : entry.1 = "maintenance_days"
  · have hplain : credentialOf entry.1 = none := by
      rw [hdays]
      rfl
    rw [hplain, if_pos hdays]
    simp [List.reduceOption, hdays, fieldOf]
  · rw [if_neg hdays]
    cases hc : credentialOf entry.1 with
    | none => simp [List.reduceOption, hfield]
    | some c =>
      have hkey : fieldOf c.key = entry.1 := by
        unfold credentialOf at hc
        split at hc
        · cases hc
          exact (by assumption : entry.1 = _).symm
        · split at hc
          · cases hc
            exact (by assumption : entry.1 = "admin_username").symm
          · cases hc
      dsimp only
      generalize newValue hashing d c entry.2 = value
      cases value with
      | none => simp [List.reduceOption, List.filterMap_cons]
      | some value => simp [List.reduceOption, List.filterMap_cons, hkey]

/-- What a request writes when all goes well. -/
def saveWrites (host : Host) (hashing : Hashing) (d : Draws) (r : SaveRequest) : List Write :=
  (savePlan host hashing d r).reduceOption

/-- A patch that is not turned down sets every setting at most once. -/
theorem saveWrites_nodup {host : Host} {checks : Checks} {hashing : Hashing} {d : Draws}
    {db : Store} {r : SaveRequest} (h : turnedDown host checks hashing d db r = none) :
    ((saveWrites host hashing d r).filterMap Write.key?).Nodup := by
  unfold saveWrites savePlan
  cases hbody : r.body with
  | none => exact List.nodup_nil
  | some patch =>
    have hgood : ∀ m ∈ patch.members, settingError checks m.1 m.2 = none := by
      unfold turnedDown at h
      rw [hbody] at h
      split at h
      · cases h
      · dsimp only at h
        split at h
        · cases h
        · rename_i hnone
          exact List.findSome?_eq_none_iff.mp hnone
    have hown : ∀ entry ∈ entries patch.members,
        entry.1 ≠ "maintenance_last" ∧ entry.1 ≠ "admin_password_hash" := by
      intro entry hentry
      obtain ⟨m, hm, rfl⟩ := List.mem_map.mp hentry
      have hnone := hgood m (List.mem_of_mem_filter hm)
      exact ⟨fun heq => settingError_own checks m.2 (.inl heq) hnone,
        fun heq => settingError_own checks m.2 (.inr heq) hnone⟩
    have hunique : (entries patch.members).Pairwise fun e e' => e.1 ≠ e'.1 := by
      unfold entries
      rw [List.pairwise_map]
      exact (List.pairwise_map.mp patch.unique).filter _
    have hkeys : (((entries patch.members).flatMap (entryPlan host hashing d)).reduceOption).filterMap
        Write.key? = (entries patch.members).flatMap (entryKeys host hashing d) := by
      unfold entryKeys List.reduceOption
      rw [List.filterMap_flatMap, List.filterMap_flatMap]
    dsimp only
    rw [hkeys, List.nodup_flatMap]
    refine ⟨?_, ?_⟩
    · intro entry hentry
      exact (entryKeys_own host hashing d (hown entry hentry).1 (hown entry hentry).2).1
    · refine hunique.imp_of_mem ?_
      intro e e' he he' hne key hkey hkey'
      have hfield := (entryKeys_own host hashing d (hown e he).1 (hown e he).2).2 key hkey
      have hfield' := (entryKeys_own host hashing d (hown e' he').1 (hown e' he').2).2 key hkey'
      exact hne (hfield.symm.trans hfield')

/-! ## Sessions are dropped before one is issued -/

/-- No session is issued before the sessions were dropped, wherever the writes
break off. -/
def DropsFirst (ws : List Write) : Prop :=
  ∀ done, done <+: ws → (∃ h e, Write.createSession h e ∈ done) → Write.dropAllSessions ∈ done

/-- Nothing is written. -/
theorem DropsFirst.nil : DropsFirst [] := by
  rintro done hdone ⟨h, e, hmem⟩
  rw [List.prefix_nil.mp hdone] at hmem
  cases hmem

/-- A setting before. -/
theorem DropsFirst.set {ws : List Write} (hws : DropsFirst ws) (key value : String) :
    DropsFirst (.set key value :: ws) := by
  rintro done hdone ⟨h, e, hmem⟩
  cases done with
  | nil => cases hmem
  | cons w rest =>
    obtain ⟨rfl, hrest⟩ := List.cons_prefix_cons.mp hdone
    have hmem : Write.createSession h e ∈ rest := by simpa using hmem
    exact List.mem_cons_of_mem _ (hws rest hrest ⟨h, e, hmem⟩)

/-- Whatever follows a drop. -/
theorem DropsFirst.drop (ws : List Write) : DropsFirst (.dropAllSessions :: ws) := by
  rintro done hdone ⟨h, e, hmem⟩
  cases done with
  | nil => cases hmem
  | cons w rest =>
    obtain ⟨rfl, -⟩ := List.cons_prefix_cons.mp hdone
    exact List.mem_cons_self

/-- Two lists, one after the other. -/
theorem DropsFirst.append {ws vs : List Write} (hws : DropsFirst ws) (hvs : DropsFirst vs) :
    DropsFirst (ws ++ vs) := by
  rintro done hdone ⟨h, e, hmem⟩
  rcases List.prefix_or_prefix_of_prefix hdone (List.prefix_append ws vs) with hin | hout
  · exact hws done hin ⟨h, e, hmem⟩
  · obtain ⟨more, rfl⟩ := hout
    rcases List.mem_append.mp hmem with hold | hnew
    · exact List.mem_append_left _ (hws ws (List.prefix_refl ws) ⟨h, e, hold⟩)
    · have hmore : more <+: vs := (List.prefix_append_right_inj ws).mp hdone
      exact List.mem_append_right _ (hvs more hmore ⟨h, e, hnew⟩)

/-- A request drops the sessions before it creates one. -/
theorem saveWrites_dropsFirst (host : Host) (hashing : Hashing) (d : Draws) (r : SaveRequest) :
    DropsFirst (saveWrites host hashing d r) := by
  have hentry : ∀ entry, DropsFirst (entryPlan host hashing d entry).reduceOption := by
    intro entry
    unfold entryPlan
    rw [List.reduceOption_append]
    refine DropsFirst.append ?_ ?_
    · split
      · exact DropsFirst.nil.set _ _
      · exact DropsFirst.nil
    · cases credentialOf entry.1 with
      | none => exact DropsFirst.nil.set _ _
      | some c =>
        dsimp only
        cases newValue hashing d c entry.2 with
        | none => exact DropsFirst.drop _
        | some value => exact (DropsFirst.drop _).set _ _
  unfold saveWrites savePlan
  cases r.body with
  | none => exact DropsFirst.nil
  | some patch =>
    dsimp only
    induction entries patch.members with
    | nil => exact DropsFirst.nil
    | cons entry rest ih =>
      rw [List.flatMap_cons, List.reduceOption_append]
      exact (hentry entry).append ih

/-! ## What is left behind -/

/-- No setting has changed, and a session is valid whenever it was. -/
def Unharmed (db db' : Store) : Prop :=
  (∀ key, stored db' key = stored db key) ∧
    ∀ tokenHash now, sessionValid db tokenHash now → sessionValid db' tokenHash now

/-- The write puts a setting to the value it had in this store. -/
def Write.Idle (db : Store) (w : Write) : Prop :=
  ∃ key value, w = .set key value ∧ stored db key = some value

/-- A setting that is not among those written. -/
theorem stored_foldl_of_not_mem {ws : List Write} {key : String}
    (h : key ∉ ws.filterMap Write.key?) (db : Store) :
    stored (ws.foldl Write.effect db) key = stored db key := by
  induction ws generalizing db with
  | nil => rfl
  | cons w rest ih =>
    rw [List.foldl_cons]
    cases w with
    | set k value =>
      rw [List.filterMap_cons_some (Write.key?_set k value), List.mem_cons, not_or] at h
      rw [ih h.2]
      exact stored_withSetting_of_ne db value h.1
    | dropAllSessions => rw [ih h]; rfl
    | createSession tokenHash expiresAt => rw [ih h]; rfl

/-- A setting written once holds what was written. -/
theorem stored_foldl_of_mem {ws : List Write} (hunique : (ws.filterMap Write.key?).Nodup)
    {key value : String} (h : Write.set key value ∈ ws) (db : Store) :
    stored (ws.foldl Write.effect db) key = some value := by
  induction ws generalizing db with
  | nil => cases h
  | cons w rest ih =>
    rw [List.foldl_cons]
    rcases List.mem_cons.mp h with rfl | hrest
    · rw [List.filterMap_cons_some (Write.key?_set key value), List.nodup_cons] at hunique
      rw [stored_foldl_of_not_mem hunique.1]
      exact stored_withSetting db key value
    · have htail : (rest.filterMap Write.key?).Nodup :=
        hunique.sublist ((List.sublist_cons_self w rest).filterMap Write.key?)
      exact ih htail hrest _

/-- A session there is afterwards was there before and none was dropped, or it
is one of the new ones. -/
theorem session_foldl (ws : List Write) (db : Store) :
    ∀ r ∈ (ws.foldl Write.effect db).session.rows,
      (r ∈ db.session.rows ∧ Write.dropAllSessions ∉ ws) ∨
        ∃ e, Write.createSession r.tokenHash e ∈ ws := by
  induction ws generalizing db with
  | nil => exact fun r hr => .inl ⟨hr, List.not_mem_nil⟩
  | cons w rest ih =>
    intro r hr
    rw [List.foldl_cons] at hr
    rcases ih _ r hr with ⟨hmem, hkept⟩ | ⟨e, hnew⟩
    · cases w with
      | set key value => exact .inl ⟨hmem, by simp [hkept]⟩
      | dropAllSessions => cases hmem
      | createSession tokenHash expiresAt =>
        rcases Table.mem_put.mp hmem with rfl | ⟨hold, -⟩
        · exact .inr ⟨expiresAt, List.mem_cons_self⟩
        · exact .inl ⟨hold, by simp [hkept]⟩
    · exact .inr ⟨e, List.mem_cons_of_mem _ hnew⟩

/-- Writes of values that were there change nothing. -/
theorem unharmed_of_idle {ws : List Write} {db : Store} (h : ∀ w ∈ ws, w.Idle db) :
    Unharmed db (ws.foldl Write.effect db) := by
  have hsame : ∀ db' : Store, db'.session = db.session → (∀ key, stored db' key = stored db key) →
      (ws.foldl Write.effect db').session = db.session ∧
        ∀ key, stored (ws.foldl Write.effect db') key = stored db key := by
    induction ws with
    | nil => exact fun db' hsession hstored => ⟨hsession, hstored⟩
    | cons w rest ih =>
      intro db' hsession hstored
      obtain ⟨k, value, rfl, hvalue⟩ := h w List.mem_cons_self
      refine ih (fun w hw => h w (List.mem_cons_of_mem _ hw)) _ hsession ?_
      intro key
      by_cases hkey : key = k
      · rw [hkey, hvalue]
        exact stored_withSetting db' k value
      · rw [← hstored key]
        exact stored_withSetting_of_ne db' value hkey
  obtain ⟨hsession, hstored⟩ := hsame db rfl fun _ => rfl
  refine ⟨hstored, ?_⟩
  rintro tokenHash now ⟨r, hr, hvalid⟩
  exact ⟨r, hsession ▸ hr, hvalid⟩

/-- A new session is under the digest of a token that was drawn for it. -/
theorem createSession_drawn {host : Host} {hashing : Hashing} {d : Draws} {r : SaveRequest}
    {tokenHash : String} {e : Int} (h : Write.createSession tokenHash e ∈ saveWrites host hashing d r) :
    ∃ c, tokenHash = host.sha256 (d.token c) := by
  unfold saveWrites savePlan at h
  cases hbody : r.body with
  | none =>
    rw [hbody] at h
    cases h
  | some patch =>
    rw [hbody, List.reduceOption_mem_iff] at h
    obtain ⟨entry, -, hentry⟩ := List.mem_flatMap.mp h
    unfold entryPlan at hentry
    rcases List.mem_append.mp hentry with hlast | hown
    · split at hlast <;> simp at hlast
    · cases hc : credentialOf entry.1 with
      | none => simp [hc] at hown
      | some c =>
        rw [hc] at hown
        simp only [List.mem_cons, Option.some.injEq, Write.createSession.injEq, List.not_mem_nil,
          or_false, reduceCtorEq, false_or] at hown
        rcases hown with hset | hnew
        · cases hvalue : newValue hashing d c entry.2 <;> simp [hvalue] at hset
        · exact ⟨c, hnew.1⟩

/-- The writes of a request that was not turned down left everything as it was
only if each of them put a value that was there. -/
theorem idle_of_unharmed {host : Host} {checks : Checks} {hashing : Hashing} {d : Draws}
    {r : SaveRequest} {db : Store} {done : List Write}
    (h : turnedDown host checks hashing d db r = none)
    (hfresh : ∀ token, r.cookie = some token → ∀ c, host.sha256 (d.token c) ≠ host.sha256 token)
    (hdone : done <+: saveWrites host hashing d r)
    (hunharmed : Unharmed db (done.foldl Write.effect db)) : ∀ w ∈ done, w.Idle db := by
  obtain ⟨hstored, hsession⟩ := hunharmed
  obtain ⟨token, hcookie, hcaller⟩ : ∃ token, r.cookie = some token ∧
      sessionValid db (host.sha256 token) d.now := by
    unfold turnedDown at h
    split at h
    · cases h
    · rename_i hauthed
      rw [Bool.not_eq_false] at hauthed
      unfold authed at hauthed
      rw [Option.any_eq_true_iff_get] at hauthed
      obtain ⟨hsome, hvalid⟩ := hauthed
      exact ⟨_, (Option.some_get hsome).symm, (decide_eq_true_iff.mp hvalid).2⟩
  -- dropping the sessions would have ended the caller's own
  have hkept : Write.dropAllSessions ∉ done := by
    intro hdropped
    obtain ⟨row, hrow, hhash, -⟩ := hsession _ _ hcaller
    rcases session_foldl done db row hrow with ⟨-, hkept⟩ | ⟨e, hnew⟩
    · exact hkept hdropped
    · obtain ⟨c, hc⟩ := createSession_drawn (hdone.subset hnew)
      exact hfresh token hcookie c (hc.symm.trans hhash)
  have hunique : (done.filterMap Write.key?).Nodup :=
    (saveWrites_nodup h).sublist (hdone.sublist.filterMap Write.key?)
  intro w hw
  cases w with
  | set key value => exact ⟨key, value, rfl, (hstored key).symm.trans (stored_foldl_of_mem hunique hw db)⟩
  | dropAllSessions => exact absurd hw hkept
  | createSession tokenHash e =>
    exact absurd (saveWrites_dropsFirst host hashing d r done hdone ⟨tokenHash, e, hw⟩) hkept

/-- A failed save leaves the settings and the sessions as they were exactly when
it was turned down beforehand, or every write it had done by the time one failed
put a setting to the value it had. -/
theorem failed_save_unharmed_iff (host : Host) (checks : Checks) (hashing : Hashing) (d : Draws)
    (r : SaveRequest) (s : Session Store Guard)
    (hfresh : ∀ token, r.cookie = some token → ∀ c, host.sha256 (d.token c) ≠ host.sha256 token) :
    ((saveSettings host checks hashing d r s).1.Failed →
        Unharmed s.db (saveSettings host checks hashing d r s).2.db) ↔
      (turnedDown host checks hashing d s.db r = none →
        (carried s.refusals (savePlan host hashing d r)).length ≠
          (savePlan host hashing d r).length →
        ∀ w ∈ carried s.refusals (savePlan host hashing d r), w.Idle s.db) := by
  cases h : turnedDown host checks hashing d s.db r with
  | some reply =>
    rw [saveSettings_turnedDown h]
    constructor
    · intro _ hnone
      cases hnone
    · intro _ _
      exact ⟨fun _ => rfl, fun _ _ hvalid => hvalid⟩
  | none =>
    obtain ⟨hdb, hfailed⟩ := saveSettings_stored h
    rw [hdb, hfailed]
    constructor
    · intro hunharmed _ hshort
      exact idle_of_unharmed h hfresh (carried_beginning _ _) (hunharmed hshort)
    · intro hidle hshort
      exact unharmed_of_idle (hidle rfl hshort)

/-! ## A password change that fails -/

/-- A hub that keeps tokens as they are. -/
def plainHost : Host := ⟨fun token => token, fun _ => none⟩

/-- Nothing is a URL or a header field here. -/
def strictChecks : Checks :=
  ⟨fun _ => none, fun _ => none, fun _ => false, fun _ => "", fun _ => none, fun _ => false⟩

/-- Passwords are kept as they are. -/
def plainHashing : Hashing :=
  ⟨fun _ password => some password, fun password stored => decide (password = stored)⟩

/-- Nothing is in the way of the request. -/
def freeDraws : Draws := ⟨0, true, true, true, 0, "", fun _ => "new", fun _ => 0⟩

/-- The password is replaced, and the current one offered. -/
def newPassword : Patch :=
  ⟨[("admin_password", .str "second password"), ("current_password", .str "first password")],
    by decide⟩

/-- The caller replaces the password. -/
def passwordChange : SaveRequest := ⟨some "caller", some newPassword⟩

/-- The caller is signed in. -/
def signedInStore : Store :=
  withSession (withSetting Store.blank "admin_password_hash" "first password") "caller" 100

/-- The new session is refused. -/
def reissueRefused : Session Store Guard :=
  ⟨signedInStore, Guard.load signedInStore, [false, false, true]⟩

/-- A change of password with the old one is admitted. -/
theorem passwordChange_admitted :
    turnedDown plainHost strictChecks plainHashing freeDraws signedInStore passwordChange = none := by
  have hvalid : sessionValid signedInStore "caller" 0 :=
    ⟨⟨"caller", 100⟩, Table.mem_put.mpr (.inl rfl), rfl, by decide⟩
  have hhash : stored signedInStore "admin_password_hash" = some "first password" :=
    stored_withSetting Store.blank "admin_password_hash" "first password"
  have hauthed : authed plainHost freeDraws signedInStore passwordChange.cookie = true := by
    simp [authed, passwordChange, plainHost, freeDraws, hvalid]
  have hmatches : passwordMatches plainHashing freeDraws signedInStore "first password" = true := by
    simp [passwordMatches, Credential.key, freeDraws, hhash, plainHashing]
  have hgood : newPassword.members.findSome? (fun m => settingError strictChecks m.1 m.2) = none := by
    decide
  have hchanges : changesCredential newPassword.members := ⟨_, List.mem_cons_self, rfl⟩
  have hoffered : (newPassword.members.lookup currentPassword).bind Json.asStr =
      some "first password" := rfl
  have hbody : passwordChange.body = some newPassword := rfl
  unfold turnedDown
  rw [hauthed, hbody]
  dsimp only
  rw [hgood]
  dsimp only
  rw [if_pos hchanges, hoffered]
  dsimp only
  rw [hmatches]
  rfl

/-- The hash is written and the sessions are dropped by the time it fails. -/
theorem passwordChange_carried :
    carried reissueRefused.refusals (savePlan plainHost plainHashing freeDraws passwordChange) =
      [.set "admin_password_hash" "second password", .dropAllSessions] := rfl

/-- The change is reported as failed, but the password is the new one and the
caller is signed out. -/
theorem password_change_harms :
    (saveSettings plainHost strictChecks plainHashing freeDraws passwordChange reissueRefused).1.Failed ∧
      sessionValid signedInStore (plainHost.sha256 "caller") freeDraws.now ∧
      ¬ Unharmed signedInStore
        (saveSettings plainHost strictChecks plainHashing freeDraws passwordChange reissueRefused).2.db := by
  obtain ⟨hdb, hfailed⟩ := @saveSettings_stored plainHost strictChecks plainHashing freeDraws
    passwordChange reissueRefused passwordChange_admitted
  rw [passwordChange_carried] at hdb hfailed
  refine ⟨hfailed.mpr (by decide), ⟨⟨"caller", 100⟩, Table.mem_put.mpr (.inl rfl), rfl, by decide⟩, ?_⟩
  rw [hdb]
  rintro ⟨-, hsession⟩
  obtain ⟨row, hrow, -⟩ := hsession "caller" 0
    ⟨⟨"caller", 100⟩, Table.mem_put.mpr (.inl rfl), rfl, by decide⟩
  cases hrow

/-- The same change does no harm when its first write is refused. -/
theorem failed_save_unharmed_first :
    Unharmed signedInStore (saveSettings plainHost strictChecks plainHashing freeDraws passwordChange
      ⟨signedInStore, Guard.load signedInStore, [true]⟩).2.db := by
  have hnone : carried [true] (savePlan plainHost plainHashing freeDraws passwordChange) = [] := rfl
  have hiff := failed_save_unharmed_iff plainHost strictChecks plainHashing freeDraws passwordChange
    ⟨signedInStore, Guard.load signedInStore, [true]⟩ (by
      rintro token htoken c heq
      cases htoken
      have hne : "new" ≠ "caller" := by decide
      exact hne heq)
  refine hiff.mpr ?_ ?_
  · intro _ _ w hw
    rw [hnone] at hw
    cases hw
  · refine (@saveSettings_stored plainHost strictChecks plainHashing freeDraws passwordChange
      ⟨signedInStore, Guard.load signedInStore, [true]⟩ passwordChange_admitted).2.mpr ?_
    rw [hnone]
    decide

end Romi.SettingsSaves
