import Romi.StoreAnswers

/-!
# Signing in while the credentials change

A sign-in checks the password and the account one after the other and only
then files its session; a patch of the settings that changes one of them gives
the password gate back before it writes. A step below is what happens between
two places at which another request may run.
-/

namespace Romi.SignInSteps

open CachedTransactions JsonValue StoreAnswers StoreOperations StoreSchema

/-! ## Failed attempts -/

/-- `SESSION_DAYS`. -/
def sessionDays : Int := 14

/-- `MAX_ATTEMPTS`. -/
def maxAttempts : Nat := 5

/-- `LOCKOUT`, in seconds. -/
def lockout : Int := 900

/-- `PASSWORD_CHECKS`. -/
def passwordChecks : Nat := 1

/-- What `Throttle` has seen of each address: how many failures, and since when. -/
def Throttle : Type := String → Option (Nat × Int)

/-- `locked`: the answer, and the map without an entry past its window. -/
def Throttle.locked (t : Throttle) (ip : String) (now : Int) : Bool × Throttle :=
  match t ip with
  | some (n, since) =>
    if now - since < lockout then (decide (maxAttempts ≤ n), t)
    else (false, Function.update t ip none)
  | none => (false, t)

/-- `record_failure`. -/
def Throttle.recordFailure (t : Throttle) (ip : String) (now : Int) : Throttle :=
  let fresh := fun a => (t a).filter fun e => now - e.2 < lockout
  Function.update fresh ip (some (((fresh ip).getD (0, now)).1 + 1, ((fresh ip).getD (0, now)).2))

/-- `clear`. -/
def Throttle.clear (t : Throttle) (ip : String) : Throttle := Function.update t ip none

/-! ## Requests -/

/-- What the handlers take from argon2 and from the checks of single settings. -/
structure Panel where
  /-- `hash_password`, with the salt drawn. -/
  hashPassword : String → String → Option String
  /-- `verify_password`. -/
  verifyPassword : String → String → Bool
  /-- `setting_error`. -/
  settingError : String → Json → Option String

/-- The two settings that make up the local sign-in. -/
inductive Credential
  /-- `admin_password`. -/
  | password
  /-- `admin_username`. -/
  | username
  deriving DecidableEq

/-- The key a credential is stored under. -/
def Credential.key : Credential → String
  | .password => "admin_password_hash"
  | .username => "admin_username"

/-- The credential a field of the patch changes; `CREDENTIAL_SETTINGS`. -/
def credentialOf (key : String) : Option Credential :=
  if key = "admin_password" then some .password
  else if key = "admin_username" then some .username
  else none

/-- `CURRENT_PASSWORD`. -/
def currentPassword : String := "current_password"

/-- The fields of a patch that are stored, as text. -/
def entries (members : List (String × Json)) : List (String × String) :=
  (members.filter fun m => m.1 ≠ currentPassword).map fun m => (m.1, m.2.asStr.getD "")

/-- The patch changes a credential. -/
def changesCredential (members : List (String × Json)) : Prop :=
  ∃ m ∈ members, (credentialOf m.1).isSome

/-- The number of a write of a credential, counted from 1. -/
structure Change where
  /-- Which of the two. -/
  credential : Credential
  /-- How many times it had been changed by then. -/
  number : Nat

/-- A sign-in request. -/
structure LoginBody where
  /-- The name that is typed. -/
  username : String
  /-- The password that is typed. -/
  password : String

/-- Where a sign-in is; with the number of writes of a credential there had
been when it was read. -/
inductive Login
  /-- There is no such sign-in. -/
  | absent
  /-- It has come in. -/
  | arrived (body : LoginBody) (ip : String)
  /-- It has the gate. -/
  | checking (body : LoginBody) (ip : String)
  /-- It has read the hash. -/
  | hashed (body : LoginBody) (ip stored : String) (number : Nat)
  /-- Password and account were right. -/
  | verified (seen : Credential → Nat)
  /-- It is answered. -/
  | answered (ok : Bool)

/-- Where a patch is; with the changes whose sessions it has dropped. -/
inductive Save
  /-- There is no such request. -/
  | absent
  /-- It has come in with these members. -/
  | submitted (members : List (String × Json))
  /-- It has the gate. -/
  | proving (members : List (String × Json)) (offered : String)
  /-- What is left to store, and whether the head already noted the time. -/
  | storing (did : List Change) (todo : List (String × String)) (noted : Bool)
  /-- The credential is written, the sessions are still there. -/
  | changed (did : List Change) (c : Change) (todo : List (String × String))
  /-- The sessions are gone, the caller is owed a new one. -/
  | dropped (did : List Change) (todo : List (String × String))
  /-- It is answered with success, having changed these. -/
  | succeeded (did : List Change)
  /-- It is answered with an error. -/
  | failed

/-- The changes whose sessions a patch that has not failed has dropped. -/
def Save.ended : Save → List Change
  | .storing did _ _ | .changed did _ _ | .dropped did _ | .succeeded did => did
  | _ => []

/-- Whom a session was issued to: an administrator who already had one, or a
sign-in, with what it had seen. -/
inductive Origin
  /-- The answer to a change of the settings. -/
  | caller
  /-- A sign-in that compared with these numbers. -/
  | login (seen : Credential → Nat)

/-! ## State -/

/-- The hub as far as signing in goes. -/
structure State where
  /-- What the database holds. -/
  db : Store
  /-- Free permits of `password_gate`. -/
  gate : Nat
  /-- What is known of the addresses that fail. -/
  throttle : Throttle
  /-- Where each sign-in is. -/
  login : Nat → Login
  /-- Where each request to save is. -/
  save : Nat → Save
  /-- How often each credential has been written. -/
  writes : Credential → Nat
  /-- Whom the latest session under a digest was issued to. -/
  origin : String → Option Origin

/-- A hub that has just started. -/
def State.start (db : Store) : State where
  db := db
  gate := passwordChecks
  throttle := fun _ => none
  login := fun _ => .absent
  save := fun _ => .absent
  writes := fun _ => 0
  origin := fun _ => none

/-- `session_valid`. -/
def sessionValid (db : Store) (tokenHash : String) (now : Int) : Prop :=
  ∃ r ∈ db.session.rows, r.tokenHash = tokenHash ∧ now < r.expiresAt

/-- A sign-in goes on. -/
def State.loginTo (s : State) (i : Nat) (l : Login) : State :=
  { s with login := Function.update s.login i l }

/-- A patch goes on. -/
def State.saveTo (s : State) (j : Nat) (v : Save) : State :=
  { s with save := Function.update s.save j v }

/-- A session was filed. -/
def State.issued (s : State) (tokenHash : String) (o : Origin) (db : Store) : State :=
  { s with db := db, origin := Function.update s.origin tokenHash (some o) }

/-- A sign-in gives the gate back with its answer. -/
def State.answer (s : State) (i : Nat) (ok : Bool) : State :=
  { s.loginTo i (.answered ok) with gate := s.gate + 1 }

/-! ## Steps -/

/-- A move of one sign-in. -/
inductive LoginStep (host : Host) (panel : Panel) (s : State) (i : Nat) : State → Prop
  /-- A sign-in comes in. -/
  | arrived (body : LoginBody) (ip : String) (hat : s.login i = .absent) :
    LoginStep host panel s i (s.loginTo i (.arrived body ip))
  /-- Too many attempts from this address. -/
  | locked (body : LoginBody) (ip : String) (now : Int) (hat : s.login i = .arrived body ip)
    (hlocked : (s.throttle.locked ip now).1 = true) :
    LoginStep host panel s i { s.loginTo i (.answered false) with
      throttle := (s.throttle.locked ip now).2 }
  /-- Somebody else is checking a password. -/
  | busy (body : LoginBody) (ip : String) (now : Int) (hat : s.login i = .arrived body ip)
    (hopen : (s.throttle.locked ip now).1 = false) (hgate : s.gate = 0) :
    LoginStep host panel s i { s.loginTo i (.answered false) with
      throttle := (s.throttle.locked ip now).2 }
  /-- Its address is not locked out and there is a permit. -/
  | admitted (body : LoginBody) (ip : String) (now : Int) (hat : s.login i = .arrived body ip)
    (hopen : (s.throttle.locked ip now).1 = false) (hgate : 0 < s.gate) :
    LoginStep host panel s i { s.loginTo i (.checking body ip) with
      throttle := (s.throttle.locked ip now).2, gate := s.gate - 1 }
  /-- There is no password to sign in with. -/
  | disabled (body : LoginBody) (ip : String) (hat : s.login i = .checking body ip)
    (hget : Got s.db Credential.password.key none) : LoginStep host panel s i (s.answer i false)
  /-- The digest of the password is read. -/
  | hashed (body : LoginBody) (ip stored : String) (hat : s.login i = .checking body ip)
    (hget : Got s.db Credential.password.key (some stored)) :
    LoginStep host panel s i (s.loginTo i (.hashed body ip stored (s.writes .password)))
  /-- The name or the password is wrong. -/
  | mismatched (body : LoginBody) (ip stored : String) (number : Nat) (now : Int)
    (account : Option String) (hat : s.login i = .hashed body ip stored number)
    (hget : Got s.db Credential.username.key account)
    (hwrong : panel.verifyPassword body.password stored = false ∨
      body.username ≠ account.getD "admin") :
    LoginStep host panel s i { s.answer i false with
      throttle := s.throttle.recordFailure ip now }
  /-- Both are right. -/
  | verified (body : LoginBody) (ip stored : String) (number : Nat) (account : Option String)
    (hat : s.login i = .hashed body ip stored number)
    (hget : Got s.db Credential.username.key account)
    (hright : panel.verifyPassword body.password stored = true)
    (hsame : body.username = account.getD "admin") :
    LoginStep host panel s i { s.loginTo i (.verified fun
      | .password => number
      | .username => s.writes .username) with throttle := s.throttle.clear ip }
  /-- A session is created for it. -/
  | issued (seen : Credential → Nat) (token : String) (now : Int) (db : Store)
    (hat : s.login i = .verified seen)
    (hran : Ran host (.createSession (host.sha256 token) (now + sessionDays * 86400)) s.db
      (.ok .nothing) db) :
    LoginStep host panel s i
      ((s.issued (host.sha256 token) (.login seen) db).answer i true)
  /-- It cannot be. -/
  | unissued (seen : Credential → Nat) (token : String) (now : Int) (db : Store) (e : Failure)
    (hat : s.login i = .verified seen)
    (hran : Ran host (.createSession (host.sha256 token) (now + sessionDays * 86400)) s.db
      (.error e) db) :
    LoginStep host panel s i ({ s with db := db }.answer i false)

/-- A move of one patch. -/
inductive SaveStep (host : Host) (panel : Panel) (s : State) (j : Nat) : State → Prop
  /-- A request to save comes in. -/
  | submitted (members : List (String × Json)) (hat : s.save j = .absent) :
    SaveStep host panel s j (s.saveTo j (.submitted members))
  /-- A field is not acceptable. -/
  | invalid (members : List (String × Json)) (hat : s.save j = .submitted members)
    (hbad : ∃ m ∈ members, (panel.settingError m.1 m.2).isSome) :
    SaveStep host panel s j (s.saveTo j .failed)
  /-- It leaves name and password alone. -/
  | plain (members : List (String × Json)) (hat : s.save j = .submitted members)
    (hgood : ∀ m ∈ members, panel.settingError m.1 m.2 = none)
    (hplain : ¬ changesCredential members) :
    SaveStep host panel s j (s.saveTo j (.storing [] (entries members) false))
  /-- The current password is not offered. -/
  | unproven (members : List (String × Json)) (hat : s.save j = .submitted members)
    (hgood : ∀ m ∈ members, panel.settingError m.1 m.2 = none)
    (hchanges : changesCredential members)
    (hnone : (members.lookup currentPassword).bind Json.asStr = none) :
    SaveStep host panel s j (s.saveTo j .failed)
  /-- Somebody is checking a password. -/
  | busy (members : List (String × Json)) (hat : s.save j = .submitted members)
    (hgood : ∀ m ∈ members, panel.settingError m.1 m.2 = none)
    (hchanges : changesCredential members) (hgate : s.gate = 0) :
    SaveStep host panel s j (s.saveTo j .failed)
  /-- It does not, and offers the password to prove itself. -/
  | proving (members : List (String × Json)) (offered : String)
    (hat : s.save j = .submitted members)
    (hgood : ∀ m ∈ members, panel.settingError m.1 m.2 = none)
    (hchanges : changesCredential members)
    (hoffered : (members.lookup currentPassword).bind Json.asStr = some offered)
    (hgate : 0 < s.gate) :
    SaveStep host panel s j { s.saveTo j (.proving members offered) with gate := s.gate - 1 }
  /-- `password_matches` is false. -/
  | refused (members : List (String × Json)) (offered : String) (stored : Option String)
    (hat : s.save j = .proving members offered) (hget : Got s.db Credential.password.key stored)
    (hwrong : stored.any (panel.verifyPassword offered) = false) :
    SaveStep host panel s j { s.saveTo j .failed with gate := s.gate + 1 }
  /-- It is true, and the permit goes back with the end of the block. -/
  | proven (members : List (String × Json)) (offered : String) (stored : Option String)
    (hat : s.save j = .proving members offered) (hget : Got s.db Credential.password.key stored)
    (hright : stored.any (panel.verifyPassword offered) = true) :
    SaveStep host panel s j
      { s.saveTo j (.storing [] (entries members) false) with gate := s.gate + 1 }
  /-- A new maintenance period also notes the time. -/
  | noted (did : List Change) (value : String) (todo : List (String × String)) (now : Int)
    (db : Store) (hat : s.save j = .storing did (("maintenance_days", value) :: todo) false)
    (hran : Ran host (.set "maintenance_last" (toString now)) s.db (.ok .nothing) db) :
    SaveStep host panel s j
      ({ s with db := db }.saveTo j (.storing did (("maintenance_days", value) :: todo) true))
  /-- A setting that is no credential is written. -/
  | stored (did : List Change) (key value : String) (todo : List (String × String)) (noted : Bool)
    (db : Store) (hat : s.save j = .storing did ((key, value) :: todo) noted)
    (hnoted : key = "maintenance_days" → noted = true) (hplain : credentialOf key = none)
    (hran : Ran host (.set key value) s.db (.ok .nothing) db) :
    SaveStep host panel s j ({ s with db := db }.saveTo j (.storing did todo false))
  /-- The new hash or the new account is written. -/
  | changed (did : List Change) (key value text : String) (todo : List (String × String))
    (noted : Bool) (c : Credential) (db : Store)
    (hat : s.save j = .storing did ((key, value) :: todo) noted) (hc : credentialOf key = some c)
    (htext : match c with
      | .password => ∃ salt, panel.hashPassword salt value = some text
      | .username => text = value)
    (hran : Ran host (.set c.key text) s.db (.ok .nothing) db) :
    SaveStep host panel s j
      ({ s with db := db, writes := Function.update s.writes c (s.writes c + 1) }.saveTo j
        (.changed did ⟨c, s.writes c + 1⟩ todo))
  /-- Every session is dropped. -/
  | dropped (did : List Change) (c : Change) (todo : List (String × String)) (db : Store)
    (hat : s.save j = .changed did c todo)
    (hran : Ran host .dropAllSessions s.db (.ok .nothing) db) :
    SaveStep host panel s j ({ s with db := db }.saveTo j (.dropped (c :: did) todo))
  /-- A session is created for the caller. -/
  | issued (did : List Change) (todo : List (String × String)) (token : String) (now : Int)
    (db : Store) (hat : s.save j = .dropped did todo)
    (hran : Ran host (.createSession (host.sha256 token) (now + sessionDays * 86400)) s.db
      (.ok .nothing) db) :
    SaveStep host panel s j
      ((s.issued (host.sha256 token) .caller db).saveTo j (.storing did todo false))
  /-- Nothing is left to write. -/
  | finished (did : List Change) (hat : s.save j = .storing did [] false) :
    SaveStep host panel s j (s.saveTo j (.succeeded did))
  /-- A write or the hashing failed. -/
  | broke (hat : (∃ did todo noted, s.save j = .storing did todo noted) ∨
      (∃ did c todo, s.save j = .changed did c todo) ∨ ∃ did todo, s.save j = .dropped did todo) :
    SaveStep host panel s j (s.saveTo j .failed)

/-- One step of anybody. -/
inductive Step (host : Host) (panel : Panel) (s : State) : State → Prop
  /-- A sign-in goes on. -/
  | login (i : Nat) (s' : State) (h : LoginStep host panel s i s') : Step host panel s s'
  /-- A request to save goes on. -/
  | save (j : Nat) (s' : State) (h : SaveStep host panel s j s') : Step host panel s s'
  /-- The caller of a restore gets a session of the restored store. -/
  | reissued (token : String) (now : Int) (db : Store)
    (hran : Ran host (.createSession (host.sha256 token) (now + sessionDays * 86400)) s.db
      (.ok .nothing) db) : Step host panel s (s.issued (host.sha256 token) .caller db)
  /-- Whatever else happens to the store files no session. -/
  | elsewhere (db : Store) (hless : db.session.rows ⊆ s.db.session.rows) :
    Step host panel s { s with db := db }

/-- What can happen to a hub started on some store. -/
inductive Reachable (host : Host) (panel : Panel) : State → Prop
  /-- A hub that has just started. -/
  | start (db : Store) : Reachable host panel (.start db)
  /-- One step more. -/
  | step {s s' : State} (h : Reachable host panel s) (hstep : Step host panel s s') :
    Reachable host panel s'

end Romi.SignInSteps
