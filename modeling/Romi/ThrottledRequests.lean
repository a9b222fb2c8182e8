import Romi.FailureWindows
import Romi.RegistrationSteps

/-!
# How many guesses the throttle lets through

A handler asks the throttle whether an address is locked before it checks the
credential, and tells it of a failure afterwards; nothing is held in between
that another request of the address would have to wait for. A step below is
what one request does between two places at which another may run.
-/

namespace Romi.ThrottledRequests

open FailureWindows
open SignInSteps (LoginBody maxAttempts passwordChecks)
open RegistrationSteps (Answer Asking closesAt)

/-! ## The throttle -/

/-- `Throttle`: how often each address has failed, and since when; and for how
long that is remembered. -/
structure Throttle where
  /-- How often an address has failed, and since when. -/
  seen : String → Option (Nat × Int)
  /-- For how long that counts, in seconds. -/
  window : Int

/-- A throttle that has seen nothing. -/
def Throttle.new (window : Int) : Throttle := ⟨fun _ => none, window⟩

/-- `locked`: the answer, and the map without an entry past its window. -/
def Throttle.locked (t : Throttle) (ip : String) (now : Int) : Bool × Throttle :=
  match t.seen ip with
  | some (n, since) =>
    if now - since < t.window then (decide (maxAttempts ≤ n), t)
    else (false, { t with seen := Function.update t.seen ip none })
  | none => (false, t)

/-- `record_failure`. -/
def Throttle.recordFailure (t : Throttle) (ip : String) (now : Int) : Throttle :=
  let fresh := fun a => (t.seen a).filter fun e => now - e.2 < t.window
  let e := (fresh ip).getD (0, now)
  { t with seen := Function.update fresh ip (some (e.1 + 1, e.2)) }

/-- `clear`. -/
def Throttle.clear (t : Throttle) (ip : String) : Throttle :=
  { t with seen := Function.update t.seen ip none }

/-- What the throttle is there for. -/
def Throttle.limit (t : Throttle) : Limit := ⟨maxAttempts, t.window⟩

/-! ## What the requests share -/

/-- A throttle, its clock, and what has happened, newest first. -/
structure Door where
  /-- The time, in seconds. -/
  now : Int
  /-- What is known of each address. -/
  throttle : Throttle
  /-- What has happened at the door, the newest first. -/
  log : List (Event String)

/-- The throttle was asked. -/
def Door.asked (d : Door) (ip : String) : Door :=
  { d with throttle := (d.throttle.locked ip d.now).2 }

/-- The throttle answered that the address is locked. -/
def Door.shut (d : Door) (ip : String) : Bool := (d.throttle.locked ip d.now).1

/-- A credential was compared. -/
def Door.compared (d : Door) (ip : String) : Door := { d with log := .checked ip d.now :: d.log }

/-- The throttle was told of a failure. -/
def Door.missed (d : Door) (ip : String) : Door :=
  { d with throttle := d.throttle.recordFailure ip d.now, log := .failed ip d.now :: d.log }

/-- The throttle was told of a success. -/
def Door.forgiven (d : Door) (ip : String) : Door :=
  { d with throttle := d.throttle.clear ip, log := .succeeded ip d.now :: d.log }

/-- Time passed. -/
def Door.later (d : Door) (n : Nat) : Door := { d with now := d.now + n }

/-- The failures that count against an address, and its attempts that have been let through, leave
room for one more. -/
def Door.Room (d : Door) (inside : List String) (ip : String) : Prop :=
  count d.throttle.limit d.now (d.throttle.seen ip) + inside.count ip < maxAttempts

instance (d : Door) (inside : List String) (ip : String) : Decidable (d.Room inside ip) :=
  inferInstanceAs (Decidable (_ < _))

/-! ## Sign-in -/

/-- Where a sign-in is. -/
inductive Login
  /-- It has come in. -/
  | arrived (body : LoginBody) (ip : String)
  /-- The throttle let it through. -/
  | through (body : LoginBody) (ip : String)
  /-- It has the permit of `password_gate`. -/
  | permitted (body : LoginBody) (ip : String)
  /-- It has read the digest of the password. -/
  | hashed (body : LoginBody) (ip stored : String)
  /-- Password or account were wrong. -/
  | wrong (ip : String)
  /-- Both were right. -/
  | right (ip : String)
  /-- The throttle has been told; the permit is not back yet. -/
  | counted
  /-- It is answered. -/
  | answered (ok : Bool)

/-- The address of a sign-in that was let through and of which the throttle has not been told. -/
def Login.inside : Login → Option String
  | .through _ ip | .permitted _ ip | .hashed _ ip _ | .wrong ip | .right ip => some ip
  | _ => none

/-- The hub as far as signing in goes. -/
structure LoginState extends Door where
  /-- Free permits of `password_gate`. -/
  gate : Nat
  /-- Patches of the settings that hold one. -/
  patches : Nat
  /-- `admin_password_hash`. -/
  hash : Option String
  /-- `admin_username`. -/
  account : Option String
  /-- Every sign-in there is. -/
  requests : List Login

/-- A hub that has just started. -/
def LoginState.start (now window : Int) (hash account : Option String) : LoginState where
  now := now
  throttle := .new window
  log := []
  gate := passwordChecks
  patches := 0
  hash := hash
  account := account
  requests := []

/-- The addresses of the sign-ins that have been let through. -/
def LoginState.inside (s : LoginState) : List String := s.requests.filterMap Login.inside

/-- A move of one sign-in. -/
inductive LoginMove (verifyPassword : String → String → Bool) (s : LoginState) :
    Login → Login → LoginState → Prop
  /-- Its address is locked out. -/
  | locked (body : LoginBody) (ip : String) (hshut : s.shut ip = true) :
    LoginMove verifyPassword s (.arrived body ip) (.answered false)
      { s with toDoor := s.asked ip }
  /-- It is not. -/
  | through (body : LoginBody) (ip : String) (hopen : s.shut ip = false) :
    LoginMove verifyPassword s (.arrived body ip) (.through body ip)
      { s with toDoor := s.asked ip }
  /-- Somebody else is checking a password. -/
  | busy (body : LoginBody) (ip : String) (hgate : s.gate = 0) :
    LoginMove verifyPassword s (.through body ip) (.answered false) s
  /-- There is a permit to compare with. -/
  | permitted (body : LoginBody) (ip : String) (hgate : 0 < s.gate) :
    LoginMove verifyPassword s (.through body ip) (.permitted body ip)
      { s with gate := s.gate - 1 }
  /-- There is no password. -/
  | disabled (body : LoginBody) (ip : String) (hhash : s.hash = none) :
    LoginMove verifyPassword s (.permitted body ip) .counted s
  /-- The digest of the password is read. -/
  | hashed (body : LoginBody) (ip stored : String) (hhash : s.hash = some stored) :
    LoginMove verifyPassword s (.permitted body ip) (.hashed body ip stored) s
  /-- The password or the name is wrong. -/
  | wrong (body : LoginBody) (ip stored : String)
    (hwrong : verifyPassword body.password stored = false ∨
      body.username ≠ s.account.getD "admin") :
    LoginMove verifyPassword s (.hashed body ip stored) (.wrong ip)
      { s with toDoor := s.compared ip }
  /-- Both are right. -/
  | right (body : LoginBody) (ip stored : String)
    (hright : verifyPassword body.password stored = true)
    (hsame : body.username = s.account.getD "admin") :
    LoginMove verifyPassword s (.hashed body ip stored) (.right ip)
      { s with toDoor := s.compared ip }
  /-- The failure is counted. -/
  | missed (ip : String) :
    LoginMove verifyPassword s (.wrong ip) .counted { s with toDoor := s.missed ip }
  /-- The address is forgiven. -/
  | cleared (ip : String) :
    LoginMove verifyPassword s (.right ip) .counted { s with toDoor := s.forgiven ip }
  /-- The session is issued, or not, and the permit goes back. -/
  | answered (ok : Bool) :
    LoginMove verifyPassword s .counted (.answered ok) { s with gate := s.gate + 1 }

/-- One step, with what may be let through. -/
inductive LoginStep (verifyPassword : String → String → Bool)
    (allowed : Door → List String → String → Prop) (s : LoginState) : LoginState → Prop
  /-- A sign-in comes in. -/
  | arrived (body : LoginBody) (ip : String) :
    LoginStep verifyPassword allowed s { s with requests := .arrived body ip :: s.requests }
  /-- One of them goes on. -/
  | moved (before after : List Login) (r r' : Login) (s' : LoginState)
    (hat : s.requests = before ++ r :: after) (hmove : LoginMove verifyPassword s r r' s')
    (hallowed : ∀ body ip, r = .arrived body ip → r' = .through body ip →
      allowed s.toDoor s.inside ip) :
    LoginStep verifyPassword allowed s { s' with requests := before ++ r' :: after }
  /-- Time goes by. -/
  | tick (n : Nat) : LoginStep verifyPassword allowed s { s with toDoor := s.later n }
  /-- A patch of the settings checks the current password. -/
  | proving (hgate : 0 < s.gate) :
    LoginStep verifyPassword allowed s { s with gate := s.gate - 1, patches := s.patches + 1 }
  /-- The settings give a permit back. -/
  | proven (hpatch : 0 < s.patches) :
    LoginStep verifyPassword allowed s { s with gate := s.gate + 1, patches := s.patches - 1 }
  /-- The settings are written. -/
  | changed (hash account : Option String) :
    LoginStep verifyPassword allowed s { s with hash := hash, account := account }

/-- What can happen to a hub that has just started. -/
inductive LoginReachable (verifyPassword : String → String → Bool)
    (allowed : Door → List String → String → Prop) : LoginState → Prop
  /-- Nobody has come yet. -/
  | start (now window : Int) (hash account : Option String) :
    LoginReachable verifyPassword allowed (.start now window hash account)
  /-- One step more. -/
  | step {s s' : LoginState} (h : LoginReachable verifyPassword allowed s)
    (hstep : LoginStep verifyPassword allowed s s') : LoginReachable verifyPassword allowed s'

/-! ## Registration -/

/-- Where a request to register is. -/
inductive Registration
  /-- It has come in. -/
  | arrived (a : Asking)
  /-- The throttle let it through. -/
  | through (a : Asking)
  /-- It has read the end of the window. -/
  | halfRead (a : Asking) (closes : Int)
  /-- It has read the end of the opening and the key. -/
  | read (a : Asking) (closes : Int) (key : Option String)
  /-- The key was wrong. -/
  | wrong (a : Asking)
  /-- It was right; the insert is queued. -/
  | cleared (a : Asking)
  /-- It is answered. -/
  | answered (answer : Answer)
  /-- The caller has hung up. -/
  | gone

/-- The address of a request that was let through and of which the throttle has not been told. -/
def Registration.inside : Registration → Option String
  | .through a | .halfRead a _ | .read a _ _ | .wrong a | .cleared a => some a.ip
  | _ => none

/-- The hub as far as registration goes. -/
structure RegistrationState extends Door where
  /-- The time of day, in seconds. -/
  clock : Nat
  /-- `register_until`. -/
  until_ : Option String
  /-- `register_key`. -/
  key : Option String
  /-- Every registration there is. -/
  requests : List Registration

/-- A hub that has just started. -/
def RegistrationState.start (now window : Int) (clock : Nat) (until_ key : Option String) :
    RegistrationState where
  now := now
  throttle := .new window
  log := []
  clock := clock
  until_ := until_
  key := key
  requests := []

/-- The addresses of the requests that have been let through. -/
def RegistrationState.inside (s : RegistrationState) : List String :=
  s.requests.filterMap Registration.inside

/-- A move of one request that provisioning allows. -/
inductive RegistrationMove (s : RegistrationState) :
    Registration → Registration → RegistrationState → Prop
  /-- Its address is locked out. -/
  | locked (a : Asking) (hshut : s.shut a.ip = true) :
    RegistrationMove s (.arrived a) (.answered .tooMany) { s with toDoor := s.asked a.ip }
  /-- It is not. -/
  | through (a : Asking) (hopen : s.shut a.ip = false) :
    RegistrationMove s (.arrived a) (.through a) { s with toDoor := s.asked a.ip }
  /-- The end of the opening is read. -/
  | halfRead (a : Asking) : RegistrationMove s (.through a) (.halfRead a (closesAt s.until_)) s
  /-- The key is read. -/
  | read (a : Asking) (closes : Int) :
    RegistrationMove s (.halfRead a closes) (.read a closes s.key) s
  /-- Nothing is open. -/
  | closed (a : Asking) (closes : Int) (key : Option String)
    (hclosed : RegistrationSteps.open? key closes s.clock = none) :
    RegistrationMove s (.read a closes key) (.answered .closed) s
  /-- The key is another one. -/
  | wrong (a : Asking) (closes : Int) (key : Option String) (k : String)
    (hopen : RegistrationSteps.open? key closes s.clock = some k) (hwrong : a.bearer ≠ some k) :
    RegistrationMove s (.read a closes key) (.wrong a) { s with toDoor := s.compared a.ip }
  /-- The key is right. -/
  | cleared (a : Asking) (closes : Int) (key : Option String) (k : String)
    (hopen : RegistrationSteps.open? key closes s.clock = some k) (hright : a.bearer = some k) :
    RegistrationMove s (.read a closes key) (.cleared a) { s with toDoor := s.compared a.ip }
  /-- The failure is counted. -/
  | missed (a : Asking) :
    RegistrationMove s (.wrong a) (.answered .closed) { s with toDoor := s.missed a.ip }
  /-- The address is forgiven and the node has its token. -/
  | created (a : Asking) (token : String) :
    RegistrationMove s (.cleared a) (.answered (.token token))
      { s with toDoor := s.forgiven a.ip }
  /-- The insert was refused; the throttle is not told. -/
  | refused (a : Asking) (answer : Answer) (hanswer : answer = .full ∨ answer = .failed) :
    RegistrationMove s (.cleared a) (.answered answer) s
  /-- The blocking task of a read failed. -/
  | broke (a : Asking) (r : Registration)
    (hat : r = .through a ∨ ∃ closes, r = .halfRead a closes) :
    RegistrationMove s r (.answered .failed) s
  /-- The caller hangs up while the store works. -/
  | gone (a : Asking) (r : Registration)
    (hat : r = .through a ∨ (∃ closes, r = .halfRead a closes) ∨ r = .cleared a) :
    RegistrationMove s r .gone s

/-- One step, with what may be let through. -/
inductive RegistrationStep (allowed : Door → List String → String → Prop)
    (s : RegistrationState) : RegistrationState → Prop
  /-- A registration comes in. -/
  | arrived (a : Asking) :
    RegistrationStep allowed s { s with requests := .arrived a :: s.requests }
  /-- One of them goes on. -/
  | moved (before after : List Registration) (r r' : Registration) (s' : RegistrationState)
    (hat : s.requests = before ++ r :: after) (hmove : RegistrationMove s r r' s')
    (hallowed : ∀ a, r = .arrived a → r' = .through a → allowed s.toDoor s.inside a.ip) :
    RegistrationStep allowed s { s' with requests := before ++ r' :: after }
  /-- Time goes by. -/
  | tick (n : Nat) : RegistrationStep allowed s { s with toDoor := s.later n }
  /-- It is another time of day. -/
  | dated (clock : Nat) : RegistrationStep allowed s { s with clock := clock }
  /-- The window is opened or closed, by one write after the other. -/
  | changed (until_ key : Option String) :
    RegistrationStep allowed s { s with until_ := until_, key := key }

/-- What can happen to a hub that has just started. -/
inductive RegistrationReachable (allowed : Door → List String → String → Prop) :
    RegistrationState → Prop
  /-- Nobody has come yet. -/
  | start (now window : Int) (clock : Nat) (until_ key : Option String) :
    RegistrationReachable allowed (.start now window clock until_ key)
  /-- One step more. -/
  | step {s s' : RegistrationState} (h : RegistrationReachable allowed s)
    (hstep : RegistrationStep allowed s s') : RegistrationReachable allowed s'

end Romi.ThrottledRequests
