import Romi.AgentCounters
import Romi.NotifySweep
import Romi.SignInSteps
import Romi.StoreAreas

/-!
# Nodes that register themselves

A registration reads the end of the window, then the key, then checks both,
and only later is its node inserted; the window is opened by three writes and
closed by two. The clock does not go back, and nothing here deletes a node or
replaces the store.
-/

namespace Romi.RegistrationSteps

open CachedTransactions SignInSteps StoreAnswers StoreGuard StoreJobs StoreOperations StoreSchema

/-- `REGISTER_WINDOW`. -/
def registerWindow : Int := 3600

/-- `REGISTER_LIMIT`. -/
def registerLimit : Nat := 100

/-! ## Requests -/

/-- A request to register. -/
structure Asking where
  /-- The token of its authorization header. -/
  bearer : Option String
  /-- The name it asks for, which is its body. -/
  name : String
  /-- The address it counts against. -/
  ip : String

/-- The name a machine gets: trimmed, without control characters, at most 64
characters, never empty. -/
def nodeName (name : String) : String :=
  let kept := ((AgentCounters.trim name.toList).filter fun c => ! isControl c).take 64
  if kept = [] then "unnamed" else String.ofList kept

/-- A node of which only the name was given. -/
def registered (name : String) : NewNode where
  name := name
  isPublic := true
  price := 0
  currency := "USD"
  billingCycle := "monthly"
  expiresAt := none
  remark := ""
  trafficLimit := 0
  trafficMode := "sum"
  trafficResetDay := 1
  priority := 0
  trafficUnit := "GB"
  bandwidthUp := 0
  bandwidthDown := 0
  hasIpv4 := true
  hasIpv6 := false

/-- What a request is answered with. -/
inductive Answer
  /-- Its address is shut out. -/
  | tooMany
  /-- No window is open, or the key is wrong. -/
  | closed
  /-- The window has created its share of nodes. -/
  | full
  /-- The database failed. -/
  | failed
  /-- The token of the new node. -/
  | token (t : String)
  deriving DecidableEq

/-- Where a request is; with the number of writes of the key there had been
when it was read. -/
inductive Request
  /-- There is no such request. -/
  | absent
  /-- It has come in. -/
  | arrived (a : Asking)
  /-- It has read the end of the window. -/
  | halfRead (a : Asking) (closes : Int)
  /-- It has read the end of the opening and the key. -/
  | read (a : Asking) (closes : Int) (key : Option String) (number : Nat)
  /-- It has passed the checks; its insert is queued. -/
  | cleared (a : Asking) (since : Int) (key : String) (number : Nat)
  /-- It is answered. -/
  | answered (answer : Answer)

/-- Where an opening or a closing is; once it has written the key, with the
keys written before. -/
inductive Manager
  /-- There is no such request. -/
  | absent
  /-- The key is drawn and the clock is read. -/
  | opening (key : String) (at_ : Nat)
  /-- The highest id is read. -/
  | counted (key : String) (at_ : Nat) (sinceId : Int)
  /-- The new key is written. -/
  | keyed (before : List String) (at_ : Nat) (sinceId : Int)
  /-- So is the highest id there was. -/
  | marked (before : List String) (at_ : Nat)
  /-- The registration is about to be closed. -/
  | closing
  /-- The key is emptied. -/
  | silenced (before : List String)
  /-- Everything is written. -/
  | written (before : List String)
  /-- It is answered. -/
  | answered (ok : Bool)

/-- A node that registered itself. -/
structure Grant where
  /-- The node that was created. -/
  node : Int
  /-- The key its request was checked against. -/
  key : String
  /-- When it was created. -/
  made : Int
  /-- From when on the nodes before it were counted. -/
  since : Int

/-- What has happened, for the record. -/
inductive Entry
  /-- An opening or a closing has answered success; the keys written before its own. -/
  | revoked (before : List String)
  /-- A node was created for a request with this bearer token. -/
  | created (bearer : Option String)

/-! ## State -/

/-- The hub as far as registration goes. -/
structure State where
  /-- What the database holds. -/
  db : Store
  /-- The clock, in seconds. -/
  now : Nat
  /-- `registrations`. -/
  throttle : Throttle
  /-- Where each registration is. -/
  request : Nat → Request
  /-- Where each request to open or close is. -/
  manager : Nat → Manager
  /-- The keys written, newest first. -/
  written : List String
  /-- The keys drawn, and the one there was. -/
  drawn : List String
  /-- When the windows were opened whose end is written. -/
  opened : List Int
  /-- The nodes that registered, newest first. -/
  grants : List Grant
  /-- Newest first. -/
  log : List Entry

/-- A hub that has just started. -/
def State.start (db : Store) (now : Nat) : State where
  db := db
  now := now
  throttle := fun _ => none
  request := fun _ => .absent
  manager := fun _ => .absent
  written := (stored db "register_key").toList
  drawn := (stored db "register_key").toList
  opened := []
  grants := []
  log := []

/-- A request goes on. -/
def State.requestTo (s : State) (i : Nat) (r : Request) : State :=
  { s with request := Function.update s.request i r }

/-- The registration is where it was put. -/
@[simp] theorem State.requestTo_self (s : State) (i : Nat) (r : Request) :
    (s.requestTo i r).request i = r := by
  change Function.update s.request i r i = r
  exact Function.update_self ..

/-- Only where it ends up counts. -/
@[simp] theorem State.requestTo_requestTo (s : State) (i : Nat) (r r' : Request) :
    (s.requestTo i r).requestTo i r' = s.requestTo i r' := by
  unfold State.requestTo
  rw [Function.update_idem]

/-- A manager goes on. -/
def State.managerTo (s : State) (j : Nat) (m : Manager) : State :=
  { s with manager := Function.update s.manager j m }

/-- `register_until` as a request reads it. -/
def closesAt (value : Option String) : Int := (value.bind NotifySweep.parseI64).getD 0

/-- The window is open and there is a key. -/
def open? (key : Option String) (closes : Int) (now : Nat) : Option String :=
  key.filter fun k => k ≠ "" ∧ (now : Int) < closes

/-- The insert of a registration. -/
def Request.insert (a : Asking) (since : Int) (now : Nat) (token : String) : Solo :=
  .createNodeWithin now (registered (nodeName a.name)) token (some (since, registerLimit))

/-! ## Steps -/

/-- A move of one request that provisioning allows. -/
inductive RequestStep (host : Host) (s : State) (i : Nat) : State → Prop
  /-- A registration comes in. -/
  | arrived (a : Asking) (hat : s.request i = .absent) :
    RequestStep host s i (s.requestTo i (.arrived a))
  /-- Its address is locked out. -/
  | locked (a : Asking) (hat : s.request i = .arrived a)
    (hlocked : (s.throttle.locked a.ip s.now).1 = true) :
    RequestStep host s i { s.requestTo i (.answered .tooMany) with
      throttle := (s.throttle.locked a.ip s.now).2 }
  /-- It is not, and the end of the opening is read. -/
  | halfRead (a : Asking) (value : Option String) (hat : s.request i = .arrived a)
    (hopen : (s.throttle.locked a.ip s.now).1 = false)
    (hget : Got s.db "register_until" value) :
    RequestStep host s i { s.requestTo i (.halfRead a (closesAt value)) with
      throttle := (s.throttle.locked a.ip s.now).2 }
  /-- The key is read. -/
  | read (a : Asking) (closes : Int) (key : Option String) (hat : s.request i = .halfRead a closes)
    (hget : Got s.db "register_key" key) :
    RequestStep host s i (s.requestTo i (.read a closes key s.written.length))
  /-- Nothing is open. -/
  | closed (a : Asking) (closes : Int) (key : Option String) (number : Nat)
    (hat : s.request i = .read a closes key number) (hclosed : open? key closes s.now = none) :
    RequestStep host s i (s.requestTo i (.answered .closed))
  /-- Only a wrong key counts against the address. -/
  | wrong (a : Asking) (closes : Int) (key : Option String) (number : Nat) (k : String)
    (hat : s.request i = .read a closes key number) (hopen : open? key closes s.now = some k)
    (hwrong : a.bearer ≠ some k) :
    RequestStep host s i { s.requestTo i (.answered .closed) with
      throttle := s.throttle.recordFailure a.ip s.now }
  /-- Something is, and the key it came with is right. -/
  | cleared (a : Asking) (closes : Int) (key : Option String) (number : Nat) (k : String)
    (hat : s.request i = .read a closes key number) (hopen : open? key closes s.now = some k)
    (hright : a.bearer = some k) :
    RequestStep host s i (s.requestTo i (.cleared a (closes - registerWindow) k number))
  /-- Its node is inserted. -/
  | created (a : Asking) (since : Int) (key : String) (number : Nat) (token : String) (node : Int)
    (db : Store) (hat : s.request i = .cleared a since key number)
    (hran : Ran host (Request.insert a since s.now token) s.db (.ok (.id node)) db) :
    RequestStep host s i { s.requestTo i (.answered (.token token)) with
      db := db
      throttle := s.throttle.clear a.ip
      grants := ⟨node, key, s.now, since⟩ :: s.grants
      log := .created a.bearer :: s.log }
  /-- The insert is refused, or fails. -/
  | refused (a : Asking) (since : Int) (key : String) (number : Nat) (token : String) (e : Failure)
    (db : Store) (hat : s.request i = .cleared a since key number)
    (hran : Ran host (Request.insert a since s.now token) s.db (.error e) db) :
    RequestStep host s i { s.requestTo i
      (.answered (if e = .declined registrationFull then .full else .failed)) with db := db }
  /-- The blocking task of a read failed. -/
  | broke (hat : (∃ a, s.request i = .arrived a) ∨ ∃ a closes, s.request i = .halfRead a closes) :
    RequestStep host s i (s.requestTo i (.answered .failed))

/-- A move of one opening or closing. -/
inductive ManagerStep (host : Host) (s : State) (j : Nat) : State → Prop
  /-- `random_token` draws no text twice. -/
  | opening (key : String) (hat : s.manager j = .absent) (hkey : key ≠ "")
    (hfresh : key ∉ s.drawn) :
    ManagerStep host s j { s.managerTo j (.opening key s.now) with drawn := key :: s.drawn }
  /-- The highest id there is. -/
  | counted (key : String) (at_ : Nat) (hat : s.manager j = .opening key at_) :
    ManagerStep host s j (s.managerTo j (.counted key at_ (maxId s.db "node")))
  /-- The new key is written. -/
  | keyed (key : String) (at_ : Nat) (sinceId : Int) (db : Store)
    (hat : s.manager j = .counted key at_ sinceId)
    (hran : Ran host (.set "register_key" key) s.db (.ok .nothing) db) :
    ManagerStep host s j { s.managerTo j (.keyed s.written at_ sinceId) with
      db := db, written := key :: s.written }
  /-- The highest id is written. -/
  | marked (before : List String) (at_ : Nat) (sinceId : Int) (db : Store)
    (hat : s.manager j = .keyed before at_ sinceId)
    (hran : Ran host (.set "register_since_id" (toString sinceId)) s.db (.ok .nothing) db) :
    ManagerStep host s j { s.managerTo j (.marked before at_) with db := db }
  /-- The end of the opening is written. -/
  | opened (before : List String) (at_ : Nat) (db : Store)
    (hat : s.manager j = .marked before at_)
    (hran : Ran host (.set "register_until" (toString (at_ + registerWindow.toNat))) s.db
      (.ok .nothing) db) :
    ManagerStep host s j { s.managerTo j (.written before) with
      db := db, opened := (at_ : Int) :: s.opened }
  /-- A request to close comes in. -/
  | closing (hat : s.manager j = .absent) : ManagerStep host s j (s.managerTo j .closing)
  /-- The key is emptied. -/
  | silenced (db : Store) (hat : s.manager j = .closing)
    (hran : Ran host (.set "register_key" "") s.db (.ok .nothing) db) :
    ManagerStep host s j { s.managerTo j (.silenced s.written) with
      db := db, written := "" :: s.written }
  /-- The end is set back. -/
  | shut (before : List String) (db : Store) (hat : s.manager j = .silenced before)
    (hran : Ran host (.set "register_until" "0") s.db (.ok .nothing) db) :
    ManagerStep host s j { s.managerTo j (.written before) with db := db }
  /-- The request is answered. -/
  | answered (before : List String) (hat : s.manager j = .written before) :
    ManagerStep host s j { s.managerTo j (.answered true) with
      log := .revoked before :: s.log }
  /-- A read or a write failed. -/
  | broke (hat : ∀ before ok, s.manager j ≠ .written before ∧ s.manager j ≠ .answered ok) :
    ManagerStep host s j (s.managerTo j (.answered false))

/-- Writes of other parts of the hub: no node goes, and the window is left alone. -/
def Ordinary (op : Solo) : Prop :=
  (∀ n, op ≠ .deleteNode n) ∧ ∀ key value, op = .set key value →
    key ≠ "register_key" ∧ key ≠ "register_until"

/-- One step of anybody. -/
inductive Step (host : Host) (s : State) : State → Prop
  /-- A registration goes on. -/
  | request (i : Nat) (s' : State) (h : RequestStep host s i s') : Step host s s'
  /-- A request to open or close goes on. -/
  | manager (j : Nat) (s' : State) (h : ManagerStep host s j s') : Step host s s'
  /-- Time goes by. -/
  | tick (seconds : Nat) : Step host s { s with now := s.now + seconds }
  /-- Another closure runs. -/
  | wrote (op : Solo) (hop : Ordinary op) (answer : Except Failure Payload) (db : Store)
    (hran : Ran host op s.db answer db) : Step host s { s with db := db }
  /-- Telemetry is written. -/
  | reported (op : Telemetry) (session : Session Store Guard) (hdb : session.db = s.db) :
    Step host s { s with db := (op.job host session).2.db }
  /-- The process is started again on the same store. -/
  | restarted : Step host s { s with
      throttle := fun _ => none, request := fun _ => .absent, manager := fun _ => .absent }

/-- From one state to another. -/
inductive Run (host : Host) (s₀ : State) : State → Prop
  /-- Nothing has happened. -/
  | refl : Run host s₀ s₀
  /-- One step more. -/
  | step {s s' : State} (h : Run host s₀ s) (hstep : Step host s s') : Run host s₀ s'

end Romi.RegistrationSteps
