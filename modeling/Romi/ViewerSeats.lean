import Romi.ClientAddress
import Romi.HeldCounts
import Romi.LoggedRuns
import Romi.NodeFrames
import Romi.SettingsSaves

/-!
# The seats of the browser streams

A stream is admitted in steps: who asks is looked up, an anonymous client takes
one of its own seats, every stream takes one of the permits of its audience and
then waits for the upgrade. Whatever way it ends, seat and permit go back, in
either order. All of this happens for any number of requests at once.
-/

namespace Romi.ViewerSeats

open ClientAddress HeldCounts NodeFrames SettingsSaves SignInSteps StoreAnswers StoreSchema

/-! ## Clients and audiences -/

/-- `VIEWERS_PER_CLIENT`. -/
def viewersPerClient : Nat := 4

/-- The permits of `viewer_gate`, for the public page and for the panel. -/
def capacity : Bool → Nat
  | false => 64
  | true => 32

/-- `viewer_key`: an IPv6 client is its /64. -/
def viewerKey (ip : IpAddr) : IpAddr :=
  match ip.toCanonical with
  | .v6 bits => .v6 (bits >>> 64 <<< 64)
  | .v4 bits => .v4 bits

/-- `ViewerSeat::take`: the key of the seat, and the map afterwards. -/
def takeSeat (held : IpAddr → Option Nat) (ip : IpAddr) : Option IpAddr × (IpAddr → Option Nat) :=
  let key := viewerKey ip
  let count := (held key).getD 0
  -- the entry is made before the count is looked at
  if count ≥ viewersPerClient then (none, Function.update held key (some count))
  else (some key, Function.update held key (some (count + 1)))

/-- `ViewerSeat::drop`. -/
def dropSeat (held : IpAddr → Option Nat) (key : IpAddr) : IpAddr → Option Nat :=
  match held key with
  | some count => Function.update held key (if count - 1 = 0 then none else some (count - 1))
  | none => held

/-- `public_page`; the store is not there when it cannot be read. -/
def publicPage (read : Option Store) : Bool :=
  (read.bind fun db => storedSetting db "public_page") = some "on"

/-- `session_valid` of such a read. -/
def liveSession (read : Option Store) (now : Int) (hash : String) : Prop :=
  ∃ db ∈ read, sessionValid db hash now

instance (read : Option Store) (now : Int) (hash : String) : Decidable (liveSession read now hash) :=
  match read with
  | none => isFalse nofun
  | some db => decidable_of_iff (sessionValid db hash now)
      ⟨fun h => ⟨db, rfl, h⟩, fun ⟨_, hdb, h⟩ => Option.some.inj hdb ▸ h⟩

/-- `stream_audience`. -/
def streamAudience (read : Option Store) (now : Int) : Option String → Option Bool
  | some hash => if liveSession read now hash then some true else none
  | none => if publicPage read = true then some false else none

/-! ## Requests -/

/-- What a stream was admitted with. -/
structure Viewer where
  /-- The digest of the session. -/
  session : Option String
  /-- The client its seat counts for. -/
  seat : Option IpAddr

/-- Which permits it takes. -/
def Viewer.signedIn (v : Viewer) : Bool := v.session.isSome

/-- How far a request for a stream has come. -/
inductive Phase
  /-- Nobody has used this number yet. -/
  | absent
  /-- It asks from an address, with the digest of its cookie. -/
  | asked (ip : IpAddr) (session : Option String)
  /-- Its session is not valid, or it has none. -/
  | unrecognised (ip : IpAddr)
  /-- The page is open to it. -/
  | welcomed (ip : IpAddr)
  /-- Ready to take a permit. -/
  | counted (v : Viewer)
  /-- It has its permit, and its connection is being upgraded. -/
  | upgrading (v : Viewer)
  /-- Between two ticks of its stream. -/
  | streaming (v : Viewer)
  /-- A tick found this audience, and the frame is still to be sent. -/
  | ticked (v : Viewer) (full : Bool)
  /-- What is still to be given back. -/
  | leaving (seat : Option IpAddr) (permit : Option Bool)
  /-- It was answered with a refusal. -/
  | refused (code : Nat) (text : String)

/-- The seat a request holds. -/
def Phase.seat : Phase → Option IpAddr
  | .counted v | .upgrading v | .streaming v | .ticked v _ => v.seat
  | .leaving seat _ => seat
  | _ => none

/-- The permit a request holds. -/
def Phase.permit : Phase → Option Bool
  | .upgrading v | .streaming v | .ticked v _ => some v.signedIn
  | .leaving _ permit => permit
  | _ => none

/-- The stream a request is about to become or has become. -/
def Phase.granted : Phase → Option Viewer
  | .counted v | .upgrading v | .streaming v | .ticked v _ => some v
  | _ => none

/-- What the requests share, and where each of them is. -/
structure State where
  /-- What the database holds. -/
  db : Store
  /-- The clock, in seconds. -/
  now : Int
  /-- `anonymous_viewers`. -/
  held : IpAddr → Option Nat
  /-- The permits left. -/
  free : Bool → Nat
  /-- Where each request is. -/
  viewer : Nat → Phase

/-- A hub that has just started. -/
def State.start (db : Store) (now : Int) : State := ⟨db, now, fun _ => none, capacity, fun _ => .absent⟩

/-- A request goes on. -/
def State.put (s : State) (i : Nat) (p : Phase) : State :=
  { s with viewer := Function.update s.viewer i p }

/-- The stream is where it was put. -/
@[simp] theorem State.put_self (s : State) (i : Nat) (p : Phase) : (s.put i p).viewer i = p := by
  change Function.update s.viewer i p i = p
  rw [Function.update_self]

/-- Only where it ends up counts. -/
@[simp] theorem State.put_put (s : State) (i : Nat) (p q : Phase) :
    (s.put i p).put i q = s.put i q := by
  unfold State.put
  rw [Function.update_idem]

/-- What a read may find: the database, or nothing when it fails. -/
def State.Reads (s : State) (read : Option Store) : Prop := read = none ∨ read = some s.db

/-- What is seen to happen. -/
inductive Event
  /-- The database or the clock. -/
  | changed
  /-- A request went on without an answer. -/
  | worked (i : Nat)
  /-- A request was refused. -/
  | refused (i : Nat) (code : Nat) (text : String)
  /-- A tick of the stream of this session found this audience. -/
  | checked (i : Nat) (session : Option String) (full : Bool)
  /-- A frame for this audience was sent. -/
  | sent (i : Nat) (session : Option String) (full : Bool)

/-- One step of one request, or of the rest of the hub. -/
inductive Step (s : State) : Event → State → Prop
  /-- Something else writes, or time goes by. -/
  | change (db : Store) (now : Int) : Step s .changed { s with db := db, now := now }
  /-- Somebody asks for the stream. -/
  | arrived {i : Nat} (ip : IpAddr) (session : Option String) (h : s.viewer i = .absent) :
      Step s (.worked i) (s.put i (.asked ip session))
  /-- It comes with a live session. -/
  | recognised {i : Nat} {ip : IpAddr} {hash : String} {read : Option Store}
      (h : s.viewer i = .asked ip (some hash)) (hread : s.Reads read)
      (hlive : liveSession read s.now hash) :
      Step s (.worked i) (s.put i (.counted ⟨some hash, none⟩))
  /-- It does not. -/
  | unrecognised {i : Nat} {ip : IpAddr} {session : Option String} {read : Option Store}
      (h : s.viewer i = .asked ip session) (hread : s.Reads read)
      (hdead : ∀ hash ∈ session, ¬ liveSession read s.now hash) :
      Step s (.worked i) (s.put i (.unrecognised ip))
  /-- The page is public. -/
  | welcomed {i : Nat} {ip : IpAddr} {read : Option Store} (h : s.viewer i = .unrecognised ip)
      (hread : s.Reads read) (hopen : publicPage read = true) :
      Step s (.worked i) (s.put i (.welcomed ip))
  /-- It is not. -/
  | closed {i : Nat} {ip : IpAddr} {read : Option Store} (h : s.viewer i = .unrecognised ip)
      (hread : s.Reads read) (hclosed : publicPage read = false) :
      Step s (.refused i 401 "sign-in required") (s.put i (.refused 401 "sign-in required"))
  /-- The address has a seat left. -/
  | seated {i : Nat} {ip key : IpAddr} {held : IpAddr → Option Nat} (h : s.viewer i = .welcomed ip)
      (htake : takeSeat s.held ip = (some key, held)) :
      Step s (.worked i) ({ s with held := held }.put i (.counted ⟨none, some key⟩))
  /-- It has none. -/
  | crowded {i : Nat} {ip : IpAddr} {held : IpAddr → Option Nat} (h : s.viewer i = .welcomed ip)
      (htake : takeSeat s.held ip = (none, held)) :
      Step s (.refused i 429 "too many live views from this address")
        ({ s with held := held }.put i (.refused 429 "too many live views from this address"))
  /-- There is a permit left. -/
  | permitted {i n : Nat} {v : Viewer} (h : s.viewer i = .counted v)
      (hfree : s.free v.signedIn = n + 1) :
      Step s (.worked i)
        ({ s with free := Function.update s.free v.signedIn n }.put i (.upgrading v))
  /-- There is none, and the seat goes back. -/
  | full {i : Nat} {v : Viewer} (h : s.viewer i = .counted v) (hfree : s.free v.signedIn = 0) :
      Step s (.refused i 503 "live viewer capacity reached") (s.put i (.leaving v.seat none))
  /-- The connection has become a socket. -/
  | upgraded {i : Nat} {v : Viewer} (h : s.viewer i = .upgrading v) :
      Step s (.worked i) (s.put i (.streaming v))
  /-- It never does. -/
  | abandoned {i : Nat} {v : Viewer} (h : s.viewer i = .upgrading v) :
      Step s (.worked i) (s.put i (.leaving v.seat (some v.signedIn)))
  /-- The audience is looked at before a frame. -/
  | ticked {i : Nat} {v : Viewer} {full : Bool} {read : Option Store} (h : s.viewer i = .streaming v)
      (hread : s.Reads read) (haudience : streamAudience read s.now v.session = some full) :
      Step s (.checked i v.session full) (s.put i (.ticked v full))
  /-- It may not see the page any more. -/
  | withdrawn {i : Nat} {v : Viewer} {read : Option Store} (h : s.viewer i = .streaming v)
      (hread : s.Reads read) (haudience : streamAudience read s.now v.session = none) :
      Step s (.worked i) (s.put i (.leaving v.seat (some v.signedIn)))
  -- anything but a ping or a pong ends the stream
  /-- The other side leaves. -/
  | hungUp {i : Nat} {v : Viewer} (h : s.viewer i = .streaming v) :
      Step s (.worked i) (s.put i (.leaving v.seat (some v.signedIn)))
  /-- The frame is sent. -/
  | sent {i : Nat} {v : Viewer} {full : Bool} (h : s.viewer i = .ticked v full) :
      Step s (.sent i v.session full) (s.put i (.streaming v))
  /-- It cannot be. -/
  | unsent {i : Nat} {v : Viewer} {full : Bool} (h : s.viewer i = .ticked v full) :
      Step s (.worked i) (s.put i (.leaving v.seat (some v.signedIn)))
  /-- The seat is given back. -/
  | seatBack {i : Nat} {key : IpAddr} {permit : Option Bool}
      (h : s.viewer i = .leaving (some key) permit) :
      Step s (.worked i) ({ s with held := dropSeat s.held key }.put i (.leaving none permit))
  /-- The permit is given back. -/
  | permitBack {i : Nat} {seat : Option IpAddr} {b : Bool} (h : s.viewer i = .leaving seat (some b)) :
      Step s (.worked i)
        ({ s with free := Function.update s.free b (s.free b + 1) }.put i (.leaving seat none))

/-- An event with the database and the clock as they were then. -/
structure Entry where
  /-- What was seen. -/
  event : Event
  /-- The store at that time. -/
  db : Store
  /-- The time. -/
  now : Int

/-- A step with its entry in the log. -/
inductive Logged (s : State) : Entry → State → Prop
  /-- A step, written down with store and time. -/
  | entry {s' : State} {e : Event} (hstep : Step s e s') : Logged s ⟨e, s.db, s.now⟩ s'

/-- A run, with what was written down of it. -/
abbrev Run : State → List Entry → State → Prop := LoggedRuns.Run Logged

/-! ## The seats -/

/-- A seat that is taken was free, and is counted. -/
theorem takeSeat_some {held held' : IpAddr → Option Nat} {ip key : IpAddr}
    (h : takeSeat held ip = (some key, held')) : key = viewerKey ip ∧
      (held key).getD 0 < viewersPerClient ∧
      held' = Function.update held key (some ((held key).getD 0 + 1)) := by
  unfold takeSeat at h
  dsimp only at h
  split at h
  · cases h
  · rename_i hroom
    cases h
    exact ⟨rfl, Nat.lt_of_not_le hroom, rfl⟩

/-- A refused client has its seats; the map is left as it was. -/
theorem takeSeat_none {held held' : IpAddr → Option Nat} {ip : IpAddr}
    (h : takeSeat held ip = (none, held')) :
    viewersPerClient ≤ (held (viewerKey ip)).getD 0 ∧ held' = held := by
  unfold takeSeat at h
  dsimp only at h
  split at h
  · rename_i hfull
    cases h
    refine ⟨hfull, ?_⟩
    cases hcount : held (viewerKey ip) with
    | none =>
      rw [hcount] at hfull
      cases hfull
    | some n => exact Function.update_eq_self_iff.mpr hcount.symm
  · cases h

/-- The seats in use. -/
def State.seats (s : State) (i : Nat) : Option IpAddr := (s.viewer i).seat

/-- The permits in use. -/
def State.permits (s : State) (i : Nat) : Option Bool := (s.viewer i).permit

/-- The seats after a stream has moved. -/
theorem seats_put (s : State) (i : Nat) (p : Phase) :
    (s.put i p).seats = Function.update s.seats i p.seat := by
  funext j
  by_cases hj : j = i
  · subst hj
    simp [State.seats, State.put]
  · simp [State.seats, State.put, hj]

/-- The permits after a stream has moved. -/
theorem permits_put (s : State) (i : Nat) (p : Phase) :
    (s.put i p).permits = Function.update s.permits i p.permit := by
  funext j
  by_cases hj : j = i
  · subst hj
    simp [State.permits, State.put]
  · simp [State.permits, State.put, hj]

/-- The map counts the seats, the gates count the permits, no client is over
its allowance and only streams without a session hold seats. -/
structure Accounted (s : State) : Prop where
  /-- Every seat taken is some stream's. -/
  seats : Tallied s.held s.seats
  /-- So is every permit. -/
  permits : Balanced capacity s.free s.permits
  /-- No address has more seats than it may. -/
  allowance : ∀ key, (s.held key).getD 0 ≤ viewersPerClient
  /-- A visitor has a seat, the administrator has none. -/
  counted : ∀ i v, (s.viewer i).granted = some v → (v.signedIn = true ↔ v.seat = none)

section Moves

variable {s : State} {i : Nat} {p : Phase}

/-- A request goes on, with the map and the gates as they are then. -/
theorem Accounted.moves (h : Accounted s) {held : IpAddr → Option Nat} {free : Bool → Nat}
    (hseats : Tallied held (Function.update s.seats i p.seat))
    (hpermits : Balanced capacity free (Function.update s.permits i p.permit))
    (hallowance : ∀ key, (held key).getD 0 ≤ viewersPerClient)
    (hcounted : ∀ v, p.granted = some v → (v.signedIn = true ↔ v.seat = none)) :
    Accounted ({ s with held := held, free := free }.put i p) where
  seats := by
    rw [seats_put]
    exact hseats
  permits := by
    rw [permits_put]
    exact hpermits
  allowance := hallowance
  counted j v hv := by
    by_cases hj : j = i
    · subst hj
      simp only [State.put, Function.update_self] at hv
      exact hcounted v hv
    · simp only [State.put, Function.update_of_ne hj] at hv
      exact h.counted j v hv

/-- A request that goes on with what it holds. -/
theorem Accounted.keeps (h : Accounted s) (hseat : p.seat = (s.viewer i).seat)
    (hpermit : p.permit = (s.viewer i).permit)
    (hcounted : ∀ v, p.granted = some v → (v.signedIn = true ↔ v.seat = none)) :
    Accounted (s.put i p) := by
  refine h.moves ?_ ?_ h.allowance hcounted
  · rw [Function.update_eq_self_iff.mpr hseat]
    exact h.seats
  · rw [Function.update_eq_self_iff.mpr hpermit]
    exact h.permits

/-- A stream that goes on. -/
theorem Accounted.goesOn (h : Accounted s) {q : Phase} (hat : s.viewer i = q)
    (hseat : p.seat = q.seat) (hpermit : p.permit = q.permit) (hgranted : p.granted = q.granted) :
    Accounted (s.put i p) := by
  refine h.keeps (by rw [hat]; exact hseat) (by rw [hat]; exact hpermit) ?_
  intro v hv
  refine h.counted i v ?_
  rw [hat, ← hgranted]
  exact hv

/-- A request that is no stream, or not any more. -/
theorem Accounted.stops (h : Accounted s) {q : Phase} (hat : s.viewer i = q)
    (hseat : p.seat = q.seat) (hpermit : p.permit = q.permit) (hgranted : p.granted = none) :
    Accounted (s.put i p) := by
  refine h.keeps (by rw [hat]; exact hseat) (by rw [hat]; exact hpermit) ?_
  intro v hv
  cases hgranted.symm.trans hv

/-- A visitor takes a seat. -/
theorem Accounted.takesSeat (h : Accounted s) {ip key : IpAddr} {held : IpAddr → Option Nat}
    (hat : s.viewer i = .welcomed ip) (htake : takeSeat s.held ip = (some key, held)) :
    Accounted ({ s with held := held }.put i (.counted ⟨none, some key⟩)) := by
  obtain ⟨-, hroom, rfl⟩ := takeSeat_some htake
  have hseat : s.seats i = none := by
    rw [State.seats, hat]
    rfl
  have hpermit : s.permits i = none := by
    rw [State.permits, hat]
    rfl
  refine h.moves (h.seats.take hseat rfl) ?_ ?_ ?_
  · rw [Function.update_eq_self_iff.mpr (by exact hpermit.symm)]
    exact h.permits
  · intro key'
    by_cases hkey : key' = key
    · subst hkey
      rw [Function.update_self]
      exact hroom
    · rw [Function.update_of_ne hkey]
      exact h.allowance key'
  · intro v hv
    cases hv
    exact ⟨nofun, nofun⟩

/-- A stream takes a permit. -/
theorem Accounted.takesPermit (h : Accounted s) {v : Viewer} {n : Nat}
    (hat : s.viewer i = .counted v) (hfree : s.free v.signedIn = n + 1) :
    Accounted ({ s with free := Function.update s.free v.signedIn n }.put i (.upgrading v)) := by
  have hpermit : s.permits i = none := by
    rw [State.permits, hat]
    rfl
  refine h.moves ?_ (h.permits.take hpermit hfree) h.allowance ?_
  · rw [Function.update_eq_self_iff.mpr (by rw [State.seats, hat]; rfl)]
    exact h.seats
  · intro w hw
    cases hw
    refine h.counted i v ?_
    rw [hat]
    rfl

/-- A visitor gives its seat back. -/
theorem Accounted.returnsSeat (h : Accounted s) {key : IpAddr} {permit : Option Bool}
    (hat : s.viewer i = .leaving (some key) permit) :
    Accounted ({ s with held := dropSeat s.held key }.put i (.leaving none permit)) := by
  have hseat : s.seats i = some key := by
    rw [State.seats, hat]
    rfl
  obtain ⟨n, hcount⟩ := h.seats.counted hseat
  have hdrop : dropSeat s.held key =
      Function.update s.held key (if n = 0 then none else some n) := by
    unfold dropSeat
    rw [hcount]
    rfl
  rw [hdrop]
  refine h.moves (h.seats.drop hseat hcount) ?_ ?_ ?_
  · rw [Function.update_eq_self_iff.mpr (by rw [State.permits, hat]; rfl)]
    exact h.permits
  · intro key'
    by_cases hkey : key' = key
    · subst hkey
      have hle := h.allowance key'
      rw [hcount] at hle
      rw [Function.update_self]
      split
      · exact Nat.zero_le _
      · exact Nat.le_of_succ_le hle
    · rw [Function.update_of_ne hkey]
      exact h.allowance key'
  · intro v hv
    cases hv

/-- A stream gives its permit back. -/
theorem Accounted.returnsPermit (h : Accounted s) {seat : Option IpAddr} {b : Bool}
    (hat : s.viewer i = .leaving seat (some b)) :
    Accounted ({ s with free := Function.update s.free b (s.free b + 1) }.put i
      (.leaving seat none)) := by
  have hpermit : s.permits i = some b := by
    rw [State.permits, hat]
    rfl
  refine h.moves ?_ (h.permits.drop hpermit) h.allowance ?_
  · rw [Function.update_eq_self_iff.mpr (by rw [State.seats, hat]; rfl)]
    exact h.seats
  · intro v hv
    cases hv

end Moves

/-- Nobody has taken anything yet. -/
theorem accounted_start (db : Store) (now : Int) : Accounted (.start db now) where
  seats := tallied_none
  permits := balanced_none capacity
  allowance _ := Nat.zero_le _
  counted i v hv := by cases hv

/-- Every step keeps the accounts. -/
theorem accounted_step {s s' : State} {e : Event} (h : Accounted s) (hstep : Step s e s') :
    Accounted s' := by
  cases hstep with
  | change db now => exact ⟨h.seats, h.permits, h.allowance, h.counted⟩
  | arrived ip session hat => exact h.stops hat rfl rfl rfl
  | recognised hat hread hlive =>
    refine h.keeps (by rw [hat]; rfl) (by rw [hat]; rfl) ?_
    intro v hv
    cases hv
    exact ⟨fun _ => rfl, fun _ => rfl⟩
  | unrecognised hat hread hdead => exact h.stops hat rfl rfl rfl
  | welcomed hat hread hopen => exact h.stops hat rfl rfl rfl
  | closed hat hread hclosed => exact h.stops hat rfl rfl rfl
  | seated hat htake => exact h.takesSeat hat htake
  | crowded hat htake =>
    obtain ⟨-, rfl⟩ := takeSeat_none htake
    exact h.stops hat rfl rfl rfl
  | permitted hat hfree => exact h.takesPermit hat hfree
  | full hat hfree => exact h.stops hat rfl rfl rfl
  | upgraded hat => exact h.goesOn hat rfl rfl rfl
  | abandoned hat => exact h.stops hat rfl rfl rfl
  | ticked hat hread haudience => exact h.goesOn hat rfl rfl rfl
  | withdrawn hat hread haudience => exact h.stops hat rfl rfl rfl
  | hungUp hat => exact h.stops hat rfl rfl rfl
  | sent hat => exact h.goesOn hat rfl rfl rfl
  | unsent hat => exact h.stops hat rfl rfl rfl
  | seatBack hat => exact h.returnsSeat hat
  | permitBack hat => exact h.returnsPermit hat

/-- So they are right in every run. -/
theorem accounted_run {db : Store} {now : Int} {log : List Entry} {s : State}
    (h : Run (.start db now) log s) : Accounted s := by
  refine h.always (accounted_start db now) ?_
  rintro s x s' hs ⟨hstep⟩
  exact accounted_step hs hstep

/-- A kind of which nothing is counted has no holders. -/
theorem not_held_iff {s : State} (h : Accounted s) (key : IpAddr) :
    s.held key = none ↔ ∀ i, s.seats i ≠ some key := by
  constructor
  · intro hnone i hi
    obtain ⟨n, hcount⟩ := h.seats.counted hi
    cases hnone.symm.trans hcount
  · intro hnobody
    have hempty : holders s.seats key = ∅ := Set.eq_empty_of_forall_notMem fun i hi => hnobody i hi
    obtain ⟨hcount, hzero⟩ := h.seats key
    rw [hempty, Set.encard_empty] at hcount
    cases hheld : s.held key with
    | none => rfl
    | some n =>
      rw [hheld, Option.getD_some] at hcount
      exact absurd (hheld.trans (congrArg some (Nat.cast_eq_zero.mp hcount.symm))) hzero

/-- A client is refused a seat exactly when it has all of its seats. -/
theorem crowded_iff {s : State} (h : Accounted s) {i : Nat} {ip : IpAddr}
    (hat : s.viewer i = .welcomed ip) : (∃ text s', Step s (.refused i 429 text) s') ↔
      (holders s.seats (viewerKey ip)).encard = viewersPerClient := by
  rw [(h.seats (viewerKey ip)).1]
  constructor
  · rintro ⟨text, s', hstep⟩
    cases hstep with
    | crowded hat' htake =>
      cases hat.symm.trans hat'
      exact congrArg _ (le_antisymm (h.allowance _) (takeSeat_none htake).1)
  · intro hfull
    have hfull' : viewersPerClient ≤ (s.held (viewerKey ip)).getD 0 := (Nat.cast_inj.mp hfull).ge
    have htake : takeSeat s.held ip = (none, Function.update s.held (viewerKey ip)
        (some ((s.held (viewerKey ip)).getD 0))) := if_pos hfull'
    exact ⟨_, _, .crowded hat htake⟩

/-- A stream is refused a permit exactly when its audience has all of them. -/
theorem full_iff {s : State} (h : Accounted s) {i : Nat} {v : Viewer}
    (hat : s.viewer i = .counted v) : (∃ text s', Step s (.refused i 503 text) s') ↔
      (holders s.permits v.signedIn).encard = capacity v.signedIn := by
  have hbalance := h.permits v.signedIn
  constructor
  · rintro ⟨text, s', hstep⟩
    cases hstep with
    | full hat' hfree =>
      cases hat.symm.trans hat'
      rw [hfree, Nat.cast_zero, add_zero] at hbalance
      exact hbalance
  · intro hfull
    refine ⟨_, _, .full hat ?_⟩
    rw [hfull] at hbalance
    exact Nat.cast_eq_zero.mp (ENat.add_right_injective_of_ne_top (ENat.natCast_ne_top _)
      (hbalance.trans (add_zero _).symm))

/-- However requests, streams, sessions and the public page come and go: no
client has more than four anonymous streams and no audience more streams than
permits, a client without streams is not in the map, and a seat or a permit is
refused exactly when all of them are taken. -/
theorem seats_accounted {db : Store} {now : Int} {log : List Entry} {s : State}
    (hrun : Run (.start db now) log s) :
    (∀ key, {i | ∃ v, (s.viewer i).granted = some v ∧ v.signedIn = false ∧
      v.seat = some key}.encard ≤ viewersPerClient) ∧
    (∀ full, {i | (s.viewer i).permit = some full}.encard ≤ capacity full) ∧
    (∀ key, s.held key = none ↔ ∀ i, (s.viewer i).seat ≠ some key) ∧
    (∀ i ip, s.viewer i = .welcomed ip → ((∃ text s', Step s (.refused i 429 text) s') ↔
      {j | (s.viewer j).seat = some (viewerKey ip)}.encard = viewersPerClient)) ∧
    ∀ i v, s.viewer i = .counted v → ((∃ text s', Step s (.refused i 503 text) s') ↔
      {j | (s.viewer j).permit = some v.signedIn}.encard = capacity v.signedIn) := by
  have h := accounted_run hrun
  refine ⟨?_, ?_, not_held_iff h, fun i ip => crowded_iff h, fun i v => full_iff h⟩
  · intro key
    have hsub : {i | ∃ v, (s.viewer i).granted = some v ∧ v.signedIn = false ∧
        v.seat = some key} ⊆ holders s.seats key := by
      rintro i ⟨v, hv, -, hseat⟩
      have hsame : (s.viewer i).seat = v.seat := by
        cases hat : s.viewer i with
        | _ => rw [hat] at hv; cases hv <;> rfl
      exact hsame.trans hseat
    refine (Set.encard_le_encard hsub).trans ?_
    rw [(h.seats key).1]
    exact Nat.cast_le.mpr (h.allowance key)
  · intro full
    rw [← h.permits full]
    exact le_self_add

/-! ## Visitors of an open page -/

/-- The page is open. -/
def openPage : Store := withSetting Store.blank "public_page" "on"

/-- The page of this store is public. -/
theorem openPage_public : publicPage (some openPage) = true :=
  decide_eq_true (stored_withSetting Store.blank "public_page" "on")

/-- The address the visitors come from. -/
def household : IpAddr := .v4 0xc6336407

/-- An anonymous visitor of an open page. -/
def visitor : Viewer := ⟨none, some household⟩

/-- A household is given seats until it has its allowance. -/
theorem takeSeat_household (held : IpAddr → Option Nat) : takeSeat held household =
    if viewersPerClient ≤ (held household).getD 0 then
      (none, Function.update held household (some ((held household).getD 0)))
    else (some household, Function.update held household (some ((held household).getD 0 + 1))) := by
  have hkey : viewerKey household = household := rfl
  unfold takeSeat
  rw [hkey]

/-- A visitor who arrives is welcomed. -/
theorem visitor_welcomed {s : State} {log : List Entry} (hrun : Run (.start openPage 0) log s)
    {i : Nat} (hdb : s.db = openPage) (hat : s.viewer i = .absent) :
    ∃ log', Run (.start openPage 0) log' (s.put i (.welcomed household)) := by
  have hopen : publicPage (some s.db) = true := hdb ▸ openPage_public
  have h₁ := hrun.step (.entry (.arrived household none hat))
  have h₂ := h₁.step (.entry (.unrecognised (s.put_self i _) (.inr rfl) fun _ h => nomatch h))
  rw [State.put_put] at h₂
  have h₃ := h₂.step (.entry (.welcomed (s.put_self i _) (.inr rfl) hopen))
  rw [State.put_put] at h₃
  exact ⟨_, h₃⟩

/-- As long as there are seats, one visitor after another takes one. -/
theorem visitors_seated (n : Nat) (hn : n ≤ viewersPerClient) : ∃ s log,
    Run (.start openPage 0) log s ∧ s.db = openPage ∧ (s.held household).getD 0 = n ∧
      (∀ i < n, s.viewer i = .counted visitor) ∧ ∀ i ≥ n, s.viewer i = .absent := by
  induction n with
  | zero => exact ⟨_, _, .start, rfl, rfl, nofun, fun _ _ => rfl⟩
  | succ n ih =>
    obtain ⟨s, log, hrun, hdb, hheld, hseated, habsent⟩ := ih (by omega)
    obtain ⟨log', hwelcomed⟩ := visitor_welcomed hrun hdb (habsent n le_rfl)
    have htake : takeSeat s.held household =
        (some household, Function.update s.held household (some (n + 1))) := by
      rw [takeSeat_household, hheld, if_neg (by omega)]
    refine ⟨_, _, hwelcomed.step (.entry (.seated (s.put_self n _) htake)), hdb, ?_, ?_, ?_⟩
    · change (Function.update s.held household (some (n + 1)) household).getD 0 = n + 1
      rw [Function.update_self]
      rfl
    · intro i hi
      change Function.update (Function.update s.viewer n _) n (.counted visitor) i = _
      by_cases heq : i = n
      · rw [heq, Function.update_self]
      · rw [Function.update_of_ne heq, Function.update_of_ne heq]
        exact hseated i (by omega)
    · intro i hi
      change Function.update (Function.update s.viewer n _) n _ i = _
      rw [Function.update_of_ne (by omega), Function.update_of_ne (by omega)]
      exact habsent i (by omega)

/-- Four visitors of one address are seated; the fifth can be refused, which
means that all seats of the address are taken. -/
theorem seats_accounted_visit : ∃ s log, Run (.start openPage 0) log s ∧
    (∀ i < 4, s.viewer i = .counted visitor) ∧ s.viewer 4 = .welcomed household ∧
    {j | (s.viewer j).seat = some household}.encard = 4 := by
  obtain ⟨s, log, hrun, hdb, hheld, hseated, habsent⟩ := visitors_seated 4 le_rfl
  obtain ⟨log', hwelcomed⟩ := visitor_welcomed hrun hdb (habsent 4 le_rfl)
  have hfifth := s.put_self 4 (.welcomed household)
  have hcrowded : ∃ text s', Step (s.put 4 (.welcomed household)) (.refused 4 429 text) s' := by
    refine ⟨_, _, .crowded hfifth (?_ : _ = (none, Function.update s.held household (some 4)))⟩
    change takeSeat s.held household = _
    rw [takeSeat_household, hheld, if_pos (by decide)]
  refine ⟨_, log', hwelcomed, ?_, hfifth,
    ((seats_accounted hwelcomed).2.2.2.1 4 household hfifth).mp hcrowded⟩
  intro i hi
  change Function.update s.viewer 4 _ i = _
  rw [Function.update_of_ne (by omega)]
  exact hseated i hi

/-! ## The frames -/

/-- The event was a frame sent to this stream. -/
def Event.sentTo (i : Nat) (session : Option String) : Event → Bool
  | .sent j session' _ => j = i ∧ session' = session
  | _ => false

/-- The last thing seen of this stream was a tick that found this audience. -/
def Prompted (log : List Entry) (i : Nat) (session : Option String) (full : Bool) : Prop :=
  ∃ between x before, log = between ++ x :: before ∧ x.event = .checked i session full ∧
    streamAudience (some x.db) x.now session = some full ∧
    ∀ y ∈ between, y.event.sentTo i session = false

/-- A read that fails finds no audience. -/
theorem audience_read {s : State} {read : Option Store} (hread : s.Reads read)
    {session : Option String} {full : Bool} (h : streamAudience read s.now session = some full) :
    streamAudience (some s.db) s.now session = some full := by
  rcases hread with rfl | rfl
  · cases session with
    | none => cases h
    | some hash =>
      have hdead : ¬ liveSession none s.now hash := nofun
      unfold streamAudience at h
      dsimp only at h
      rw [if_neg hdead] at h
      cases h
  · exact h

/-- What prompted a frame stays the latest look until the next frame. -/
theorem Prompted.later {log : List Entry} {i : Nat} {session : Option String} {full : Bool}
    (h : Prompted log i session full) {x : Entry} (hx : x.event.sentTo i session = false) :
    Prompted (x :: log) i session full := by
  obtain ⟨between, y, before, rfl, hy, haudience, hnone⟩ := h
  refine ⟨x :: between, y, before, rfl, hy, haudience, ?_⟩
  intro z hz
  rcases List.mem_cons.mp hz with rfl | hz
  · exact hx
  · exact hnone z hz

/-- A stream is where it was put or where it was. -/
theorem viewer_put {s : State} {i j : Nat} {p q : Phase} (h : (s.put i p).viewer j = q) :
    p = q ∧ i = j ∨ s.viewer j = q := by
  by_cases hj : j = i
  · subst hj
    simp only [State.put, Function.update_self] at h
    exact .inl ⟨h, rfl⟩
  · simp only [State.put, Function.update_of_ne hj] at h
    exact .inr h

/-- A stream about to send a frame was so before, or its tick has just come. -/
theorem ticked_step {s s' : State} {e : Event} (hstep : Step s e s') {i : Nat} {v : Viewer}
    {full : Bool} (hat : s'.viewer i = .ticked v full) : s.viewer i = .ticked v full ∨
      e = .checked i v.session full ∧
        streamAudience (some s.db) s.now v.session = some full := by
  cases hstep with
  | change db now => exact .inl hat
  | ticked hat' hread haudience =>
    rcases viewer_put hat with ⟨hp, rfl⟩ | hat
    · cases hp
      exact .inr ⟨rfl, audience_read hread haudience⟩
    · exact .inl hat
  | _ =>
    rcases viewer_put hat with ⟨hp, -⟩ | hat
    · cases hp
    · exact .inl hat

/-- A frame is sent by a stream that was about to, and is not any more. -/
theorem sent_step {s s' : State} {i : Nat} {session : Option String} {full : Bool}
    (hstep : Step s (.sent i session full) s') : ∃ v, v.session = session ∧
      s.viewer i = .ticked v full ∧ s'.viewer i = .streaming v := by
  cases hstep with
  | @sent i v full hat =>
    refine ⟨v, rfl, hat, ?_⟩
    simp [State.put]

/-- What it means that a frame was sent to a stream. -/
theorem sentTo_iff {e : Event} {i : Nat} {session : Option String} :
    e.sentTo i session = true ↔ ∃ full, e = .sent i session full := by
  cases e with
  | sent j session' full =>
    constructor
    · intro h
      obtain ⟨rfl, rfl⟩ := of_decide_eq_true h
      exact ⟨full, rfl⟩
    · rintro ⟨full', h⟩
      cases h
      exact decide_eq_true ⟨rfl, rfl⟩
  | _ => exact ⟨nofun, fun ⟨_, h⟩ => nomatch h⟩

/-- Every frame was asked for by a tick, and a stream that is about to send one
has not sent it yet. -/
structure Asked (log : List Entry) (s : State) : Prop where
  /-- Whoever is about to be sent a frame was looked at for it. -/
  waiting : ∀ i v full, s.viewer i = .ticked v full → Prompted log i v.session full
  /-- Whoever was sent one was looked at for it. -/
  frames : ∀ after x before i session full, log = after ++ x :: before →
    x.event = .sent i session full → Prompted before i session full

/-- Every step keeps to that. -/
theorem asked_step {log : List Entry} {s s' : State} {e : Event} (h : Asked log s)
    (hstep : Step s e s') : Asked (⟨e, s.db, s.now⟩ :: log) s' where
  waiting i v full hat := by
    rcases ticked_step hstep hat with hbefore | ⟨rfl, haudience⟩
    · refine (h.waiting i v full hbefore).later (Bool.eq_false_iff.mpr ?_)
      intro hsent
      obtain ⟨full', rfl⟩ := sentTo_iff.mp hsent
      obtain ⟨w, -, -, hafter⟩ := sent_step hstep
      cases hafter.symm.trans hat
    · exact ⟨[], _, log, rfl, rfl, haudience, nofun⟩
  frames after x before i session full hlog hx := by
    cases after with
    | nil =>
      cases hlog
      obtain rfl : e = .sent i session full := hx
      obtain ⟨v, rfl, hat, -⟩ := sent_step hstep
      exact h.waiting i v full hat
    | cons z after =>
      cases hlog
      exact h.frames after x before i session full rfl hx

/-- So it holds in every run. -/
theorem asked_run {db : Store} {now : Int} {log : List Entry} {s : State}
    (h : Run (.start db now) log s) : Asked log s := by
  induction h with
  | start =>
    refine ⟨fun i v full hat => (by cases hat), ?_⟩
    intro after x before i session full hlog hx
    cases after with
    | nil => cases hlog
    | cons y after => cases hlog
  | step _ hlogged ih =>
    obtain ⟨hstep⟩ := hlogged
    exact asked_step ih hstep

/-- While nothing entitles a session to a frame its stream is sent one at most,
and it is the one it was about to be sent. -/
theorem sent_after {start s : State} {before after log : List Entry} {i : Nat}
    {session : Option String} (h : Run start log s) (hlog : log = after ++ before)
    (hnone : ∀ x ∈ after, streamAudience (some x.db) x.now session = none) :
    after.countP (fun x => x.event.sentTo i session) ≤ 1 ∧
      ∀ v full, v.session = session → s.viewer i = .ticked v full →
        after.countP (fun x => x.event.sentTo i session) = 0 := by
  induction h generalizing after with
  | start =>
    obtain ⟨rfl, rfl⟩ := List.append_eq_nil_iff.mp hlog.symm
    exact ⟨Nat.zero_le 1, fun _ _ _ _ => rfl⟩
  | step hrun hlogged ih =>
    cases after with
    | nil => exact ⟨Nat.zero_le 1, fun _ _ _ _ => rfl⟩
    | cons x after =>
      obtain ⟨rfl, rfl⟩ := List.cons.inj hlog
      obtain ⟨hone, hzero⟩ := ih rfl fun y hy => hnone y (List.mem_cons_of_mem _ hy)
      have hdenied := hnone _ List.mem_cons_self
      cases hlogged with
      | @entry s' e hstep =>
        by_cases hsent : e.sentTo i session = true
        · obtain ⟨full, rfl⟩ := sentTo_iff.mp hsent
          obtain ⟨v, hsession, hat, hafter⟩ := sent_step hstep
          rw [List.countP_cons, if_pos hsent, hzero v full hsession hat]
          refine ⟨le_rfl, ?_⟩
          intro w full' _ hat'
          cases hafter.symm.trans hat'
        · rw [List.countP_cons, if_neg hsent, Nat.add_zero]
          refine ⟨hone, ?_⟩
          intro w full' hw hat'
          rcases ticked_step hstep hat' with hat | ⟨-, haudience⟩
          · exact hzero w full' hw hat
          · rw [hw] at haudience
            cases hdenied.symm.trans haudience

/-- Every frame of every stream was asked for by a tick of that stream that
found the session still live, or the public page still open, and by no tick
that was answered before; so from the moment nothing entitles its session to
frames a stream is sent one at most. -/
theorem frames_follow_audience {db : Store} {now : Int} {log : List Entry} {s : State}
    (hrun : Run (.start db now) log s) (i : Nat) (session : Option String) :
    (∀ after x before full, log = after ++ x :: before → x.event = .sent i session full →
      Prompted before i session full) ∧
    ∀ after before, log = after ++ before →
      (∀ x ∈ after, streamAudience (some x.db) x.now session = none) →
      after.countP (fun x => x.event.sentTo i session) ≤ 1 :=
  ⟨fun after x before full => (asked_run hrun).frames after x before i session full,
    fun _ _ hlog hnone => (sent_after hrun hlog hnone).1⟩

/-- A visitor is let in, and is shown one frame. -/
theorem visit : ∃ s log, Run (.start openPage 0)
    (⟨.sent 0 none false, openPage, 0⟩ :: ⟨.checked 0 none false, openPage, 0⟩ :: log) s ∧
    s.viewer 0 = .streaming visitor := by
  have haudience : streamAudience (some openPage) 0 none = some false := by
    unfold streamAudience
    dsimp only
    rw [if_pos openPage_public]
  have h₁ : Run (.start openPage 0) _ _ :=
    .step .start (.entry (.arrived (i := 0) household none rfl))
  have h₂ := h₁.step (.entry (.unrecognised (i := 0) rfl (.inr rfl) fun _ h => nomatch h))
  have h₃ := h₂.step (.entry (.welcomed (i := 0) rfl (.inr rfl) openPage_public))
  have h₄ := h₃.step (.entry (.seated (i := 0) rfl rfl))
  have h₅ := h₄.step (.entry (.permitted (i := 0) (n := 63) rfl rfl))
  have h₆ := h₅.step (.entry (.upgraded (i := 0) rfl))
  have h₇ := h₆.step (.entry (.ticked (i := 0) rfl (.inr rfl) haudience))
  have h₈ := h₇.step (.entry (.sent (i := 0) rfl))
  exact ⟨_, _, h₈, rfl⟩

/-- A visitor of a public page is sent a public frame. -/
theorem frames_follow_audience_visit : ∃ s log, Run (.start openPage 0)
    (⟨.sent 0 none false, openPage, 0⟩ :: log) s ∧ Prompted log 0 none false := by
  obtain ⟨s, log, hrun, -⟩ := visit
  exact ⟨s, _, hrun, (frames_follow_audience hrun 0 none).1 [] _ _ false rfl rfl⟩

end Romi.ViewerSeats
