import Romi.NodeFrames
import Romi.StoreAnswers

/-!
# The cached frame, its builders and its invalidations

Every stream and every visitor shares one cached frame for each audience. A
call reads the clock, then looks at the cache under its lock; when it rebuilds
it keeps the lock until the new frame is stored. The reads of a rebuild happen
one after another while the database and the sessions go on changing. Panel
handlers write, drop the cached frames and only then answer.
-/

namespace Romi.SnapshotCache

open CachedTransactions JsonObjects JsonValue NodeFrames NotifySweep StoreAnswers StoreJobs
  StoreOperations StoreSchema TrafficFold

/-! ## What a rebuild reads -/

/-- What can be read at one moment. -/
structure World where
  /-- What the database holds. -/
  store : Store
  /-- The map of connected sessions. -/
  handles : Int → Option Nat
  /-- What each session has published. -/
  published : Nat → Published
  /-- The hub's date. -/
  today : Clock

/-- The moment as a hub that stands still. -/
def World.hub (w : World) : Hub := ⟨w.store, fun n => (w.handles n).map w.published, w.today⟩

/-- When each read of a rebuild took place: the node list, the traffic, the
session map, and for every row the session's report and the grace setting. -/
structure Reads where
  /-- When the nodes were read. -/
  nodes : Nat
  /-- When their traffic was. -/
  traffic : Nat
  /-- When the map of sessions was. -/
  agents : Nat
  /-- When the report and the grace of each row were. -/
  rows : List (Nat × Nat)

/-- All of them. -/
def Reads.moments (r : Reads) : List Nat :=
  r.nodes :: r.traffic :: r.agents :: r.rows.flatMap fun row => [row.1, row.2]

/-- The nodes a frame has rows for. -/
def listed (world : Nat → World) (full : Bool) (moment : Nat) : List NodeRow :=
  (nodes (world moment).store).filter fun n => full || n.isPublic

/-- The grace setting as one read finds it. -/
def graceAt (w : World) : Int :=
  ((storedSetting w.store "online_grace_minutes").bind parseI64).getD 5

/-- One row from the reads made for it. -/
def rowFrom (world : Nat → World) (full : Bool) (r : Reads) (n : NodeRow) (row : Nat × Nat) : Json :=
  setMember
    (nodeView n (((world r.agents).handles n.id).map (world row.1).published)
      ((allTraffic (world r.traffic).today (world r.traffic).store n.id).getD Traffic.none) full)
    "online_grace_minutes" (.int (graceAt (world row.2)))

/-- The frame these reads make. -/
def frameFrom (world : Nat → World) (full : Bool) (r : Reads) : Json :=
  collect [("nodes", .arr (List.zipWith (rowFrom world full r) (listed world full r.nodes) r.rows)),
    ("admin", .bool full)]

/-- Every listed node got its row. -/
def Reads.Complete (world : Nat → World) (full : Bool) (r : Reads) : Prop :=
  r.rows.length = (listed world full r.nodes).length

/-- A row whose reads all found the same moment is the row of that moment. -/
theorem rowFrom_still {world : Nat → World} {full : Bool} {r : Reads} {w : World} {row : Nat × Nat}
    (n : NodeRow) (htraffic : world r.traffic = w) (hagents : world r.agents = w)
    (hreport : world row.1 = w) (hgrace : world row.2 = w) :
    rowFrom world full r n row = NodeFrames.row .none w.hub full n := by
  have hbooked : trafficOf .none w.hub n.id =
      (allTraffic w.today w.store n.id).getD Traffic.none := rfl
  have hminutes : graceMinutes .none w.hub n.id = graceAt w := rfl
  have hsession : w.hub.agents n.id = (w.handles n.id).map w.published := rfl
  rw [rowFrom, NodeFrames.row, hagents, htraffic, hreport, hgrace, hbooked, hminutes, hsession]

/-- Reads among which nothing changed make the frame of that state. -/
theorem frameFrom_still {world : Nat → World} {full : Bool} {r : Reads} {w : World}
    (hcomplete : r.Complete world full) (h : ∀ m ∈ r.moments, world m = w) :
    frameFrom world full r = frame .none w.hub full := by
  have hnodes : world r.nodes = w := h _ (by simp [Reads.moments])
  have htraffic : world r.traffic = w := h _ (by simp [Reads.moments])
  have hagents : world r.agents = w := h _ (by simp [Reads.moments])
  have hrows : ∀ (list : List NodeRow) (rows : List (Nat × Nat)), rows.length = list.length →
      (∀ row ∈ rows, world row.1 = w ∧ world row.2 = w) →
      List.zipWith (rowFrom world full r) list rows = list.map (row .none w.hub full) := by
    intro list
    induction list with
    | nil =>
      intro rows _ _
      rw [List.zipWith_nil_left, List.map_nil]
    | cons n rest ih =>
      intro rows hlength hworld
      cases rows with
      | nil => cases hlength
      | cons row rows =>
        obtain ⟨hreport, hgrace⟩ := hworld row List.mem_cons_self
        rw [List.zipWith_cons_cons, List.map_cons,
          rowFrom_still n htraffic hagents hreport hgrace,
          ih rows (Nat.succ.inj hlength) fun row hrow => hworld row (List.mem_cons_of_mem _ hrow)]
  have hlisted : listed world full r.nodes = (nodes w.store).filter fun n => full || n.isPublic := by
    rw [listed, hnodes]
  have hpair : ∀ row ∈ r.rows, world row.1 = w ∧ world row.2 = w := by
    intro row hrow
    have hmem : ∀ m ∈ [row.1, row.2], world m = w := by
      intro m hm
      refine h m ?_
      simp only [Reads.moments, List.mem_cons, List.mem_flatMap]
      exact .inr (.inr (.inr ⟨row, hrow, by simpa using hm⟩))
    exact ⟨hmem _ (by simp), hmem _ (by simp)⟩
  have hread : ¬ (FrameFaults.none.nodes = true) := Bool.false_ne_true
  have hstore : w.hub.store = w.store := rfl
  unfold frameFrom frame visibleNodes
  rw [hrows _ _ hcomplete hpair, hlisted, if_neg hread, Option.getD_some, hstore]

/-! ## Handlers -/

/-- A write of a handler: one of the store's own, or the replacement of the
whole database. -/
inductive Change
  /-- A closure of the writer. -/
  | solo (op : Solo)
  /-- The file is replaced. -/
  | replace

/-- Whether a write can change what a frame shows; sessions are not part of it. -/
def Change.shows : Change → Bool
  | .solo (.createSession _ _) | .solo .dropAllSessions => false
  | _ => true

/-- The part of a handler that touches the store or the cache. -/
inductive Program
  /-- It waits for a write and goes on by the answer. -/
  | write (w : Change) (next : Except Failure Payload → Program)
  /-- It empties the cache. -/
  | invalidate (next : Program)
  /-- It answers its request. -/
  | answer (success : Bool)

/-- `invalidate_snapshot` and the answer of success. -/
def succeed : Program := .invalidate (.answer true)

/-- A write whose error is the answer. -/
def orFail (w : Change) (next : Program) : Program :=
  .write w fun
    | .ok _ => next
    | .error _ => .answer false

/-- A write that also answers whether the node existed. -/
def ifFound (op : Solo) : Program :=
  .write (.solo op) fun
    | .ok (.flag true) => succeed
    | _ => .answer false

/-- A new session: its digest and when it expires. -/
structure NewSession where
  /-- The digest of the new token. -/
  hash : String
  /-- When the session ends. -/
  expiresAt : Int

/-- `issue_session`. -/
def issueSession (s : NewSession) (next : Program) : Program :=
  orFail (.solo (.createSession s.hash s.expiresAt)) next

/-- A changed credential ends every session and issues a new one. -/
def credentialWrites (session : NewSession) (w : Solo) (next : Program) : Program :=
  orFail (.solo w) (orFail (.solo .dropAllSessions) (issueSession session next))

/-- One entry of a settings patch, as `save_settings` writes it: maintenance is
stamped first, and hashing a password may fail. -/
def entryWrites (hash : String → Option String) (now : String) (session : NewSession)
    (key value : String) (next : Program) : Program :=
  if key = "admin_password" then
    match hash value with
    | some h => credentialWrites session (.set "admin_password_hash" h) next
    | none => .answer false
  else if key = "admin_username" then credentialWrites session (.set "admin_username" value) next
  else if key = "maintenance_days" then
    orFail (.solo (.set "maintenance_last" now)) (orFail (.solo (.set key value)) next)
  else orFail (.solo (.set key value)) next

/-- The panel's writes that change what a frame shows, once their checks have
passed. -/
inductive Panel
  /-- A node is created by hand. -/
  | createNode (now : Int) (n : NewNode) (token : String)
  /-- A node registers itself. -/
  | agentRegister (now : Int) (n : NewNode) (token : String) (cap : Int × Int)
  /-- A node is edited. -/
  | updateNode (id : Int) (p : NodePatch)
  /-- The nodes are put in order. -/
  | reorderNodes (ids : List Int)
  /-- A node is deleted. -/
  | deleteNode (id : Int)
  /-- A node is given a new credential. -/
  | resetToken (id : Int) (token : String)
  /-- The counters of a node are corrected. -/
  | patchTraffic (id : Int) (p : TrafficPatch) (clock : Clock)
  /-- Settings are saved. -/
  | saveSettings (hash : String → Option String) (now : String) (session : NewSession)
    (entries : List (String × String))
  /-- A backup is restored. -/
  | restore (session : NewSession)

/-- What each handler does. -/
def Panel.program : Panel → Program
  | .createNode now n token => orFail (.solo (.createNodeWithin now n token none)) succeed
  | .agentRegister now n token cap => orFail (.solo (.createNodeWithin now n token (some cap))) succeed
  | .updateNode id p => ifFound (.updateNode id p)
  | .reorderNodes ids => orFail (.solo (.reorderNodes ids)) succeed
  | .deleteNode id => orFail (.solo (.deleteNode id)) succeed
  | .resetToken id token => .write (.solo (.resetToken id token)) fun
    | .ok _ => .invalidate (.answer true)
    | .error _ => .invalidate (.answer false)
  | .patchTraffic id p clock => ifFound (.setTraffic id p clock)
  | .saveSettings hash now session entries =>
    (entries.filter fun e => e.1 != "current_password").foldr
      (fun e next => entryWrites hash now session e.1 e.2 next) succeed
  | .restore session => orFail .replace (.invalidate (issueSession session (.answer true)))

/-- A handler under way, and the moment its latest write that shows was in
place. -/
structure Handler where
  /-- What it has yet to do. -/
  program : Program
  /-- When its last write was done. -/
  change : Nat

/-! ## The cache -/

/-- A rendered frame with the reads it came from. -/
structure Rendered where
  /-- The text that is sent. -/
  frame : Json
  /-- What it was made from. -/
  reads : Reads

/-- A slot of the cache: when its frame was built, in milliseconds. -/
structure Slot where
  /-- When it was filled, zero once it was emptied. -/
  stamp : Int
  /-- What it was filled with. -/
  payload : Option Rendered

/-- `push_interval` less a tenth of a second, in milliseconds. -/
def ttl : Int := 1900

/-- How far a rebuild has read. -/
inductive Stage
  /-- Nothing has been read. -/
  | opened
  /-- The nodes have been read. -/
  | listed (nodes : Nat)
  /-- Their traffic has been read too. -/
  | metered (nodes traffic : Nat)
  /-- One row after the other is made. -/
  | rows (reads : Reads)
  /-- The report of the next row has been read, its setting not yet. -/
  | halfRow (reads : Reads) (report : Nat)

/-- The moments read so far. -/
def Stage.moments : Stage → List Nat
  | .opened => []
  | .listed n => [n]
  | .metered n t => [n, t]
  | .rows r => r.moments
  | .halfRow r a => a :: r.moments

/-- A call of `live_snapshot`. -/
inductive Call
  /-- There is no such call. -/
  | idle
  /-- It has not looked at the clock. -/
  | called (full : Bool)
  /-- It has read the clock and not yet taken the lock. -/
  | timed (full : Bool) (now : Int)
  /-- It holds the lock and rebuilds. -/
  | building (full : Bool) (now : Int) (stage : Stage)
  /-- It has what it came for. -/
  | returned (full : Bool) (payload : Option Rendered)

/-- The hub, its calls and its handlers. -/
structure State where
  /-- What was there at each moment so far. -/
  world : Nat → World
  /-- The number of the state of the world. -/
  now : Nat
  /-- The two slots of the cache. -/
  slots : Bool → Slot
  /-- Who holds the lock of the cache. -/
  lock : Option Nat
  /-- Where each call is. -/
  calls : Nat → Call
  /-- Where each request of the panel is. -/
  handlers : Nat → Option Handler

/-- A hub just started. -/
def State.start (w : World) : State :=
  ⟨fun _ => w, 0, fun _ => ⟨0, none⟩, none, fun _ => .idle, fun _ => none⟩

/-- The next moment. -/
def State.turn (s : State) (w : World) : State :=
  { s with world := Function.update s.world (s.now + 1) w, now := s.now + 1 }

/-- One call moved on. -/
def State.withCall (s : State) (c : Nat) (call : Call) : State :=
  { s with calls := Function.update s.calls c call }

/-- One handler moved on. -/
def State.withHandler (s : State) (h : Nat) (handler : Handler) : State :=
  { s with handlers := Function.update s.handlers h (some handler) }

/-- The world has turned once more. -/
@[simp] theorem turn_now (s : State) (w : World) : (s.turn w).now = s.now + 1 := rfl

/-- Only the one call is somewhere else. -/
@[simp] theorem withCall_calls (s : State) (c d : Nat) (call : Call) :
    (s.withCall c call).calls d = if d = c then call else s.calls d :=
  Function.update_apply s.calls c call d

/-- Only the one handler is somewhere else. -/
@[simp] theorem withHandler_handlers (s : State) (h k : Nat) (handler : Handler) :
    (s.withHandler h handler).handlers k = if k = h then some handler else s.handlers k :=
  Function.update_apply s.handlers h (some handler) k

/-- A frame is young enough: its age is neither negative nor the interval. -/
def Slot.Fits (slot : Slot) (now : Int) : Prop :=
  0 ≤ saturatingSub now slot.stamp ∧ saturatingSub now slot.stamp < ttl

/-- A write with its answer; a replacement may leave any database. -/
inductive Written (host : Host) (db : Store) : Change → Except Failure Payload → Store → Prop
  /-- A closure has run. -/
  | solo (op : Solo) (a : Except Failure Payload) (db' : Store) (h : Ran host op db a db') :
    Written host db (.solo op) a db'
  /-- The file is another one. -/
  | replace (a : Except Failure Payload) (db' : Store) : Written host db .replace a db'

/-- One step of somebody. -/
inductive Step (host : Host) (s : State) : State → Prop
  /-- Reports, sessions, dates and other writes. -/
  | elapse (w : World) : Step host s (s.turn w)
  /-- A request of the panel arrives. -/
  | request (h : Nat) (p : Panel) (hfree : s.handlers h = none) :
    Step host s (s.withHandler h ⟨p.program, 0⟩)
  /-- The write it waits for is done. -/
  | write (h : Nat) (w : Change) (next : Except Failure Payload → Program) (change : Nat)
    (hat : s.handlers h = some ⟨.write w next, change⟩) (a : Except Failure Payload) (db : Store)
    (hwritten : Written host (s.world s.now).store w a db) :
    Step host s ((s.turn { s.world s.now with store := db }).withHandler h
      ⟨next a, if w.shows then s.now + 1 else change⟩)
  /-- It empties both slots. -/
  | invalidate (h : Nat) (next : Program) (change : Nat)
    (hat : s.handlers h = some ⟨.invalidate next, change⟩) (hlock : s.lock = none) :
    Step host s ({ s with slots := fun b => { s.slots b with stamp := 0 } }.withHandler h ⟨next, change⟩)
  /-- Somebody asks for the snapshot. -/
  | call (c : Nat) (full : Bool) (hat : s.calls c = .idle) : Step host s (s.withCall c (.called full))
  /-- The wall clock may step, but not back into 1970. -/
  | clock (c : Nat) (full : Bool) (hat : s.calls c = .called full) (now : Int)
    (hepoch : ttl ≤ now ∧ now ≤ i64Max) : Step host s (s.withCall c (.timed full now))
  /-- The slot is fresh enough. -/
  | hit (c : Nat) (full : Bool) (now : Int) (hat : s.calls c = .timed full now)
    (hlock : s.lock = none) (hfits : (s.slots full).Fits now) :
    Step host s (s.withCall c (.returned full (s.slots full).payload))
  /-- It is not, and the call fills it. -/
  | miss (c : Nat) (full : Bool) (now : Int) (hat : s.calls c = .timed full now)
    (hlock : s.lock = none) (hfits : ¬ (s.slots full).Fits now) :
    Step host s ({ s with lock := some c }.withCall c (.building full now .opened))
  /-- The nodes are read. -/
  | readNodes (c : Nat) (full : Bool) (now : Int) (hat : s.calls c = .building full now .opened) :
    Step host s (s.withCall c (.building full now (.listed s.now)))
  /-- Their traffic is read. -/
  | readTraffic (c : Nat) (full : Bool) (now : Int) (n : Nat)
    (hat : s.calls c = .building full now (.listed n)) :
    Step host s (s.withCall c (.building full now (.metered n s.now)))
  /-- The map of sessions is read. -/
  | readAgents (c : Nat) (full : Bool) (now : Int) (n t : Nat)
    (hat : s.calls c = .building full now (.metered n t)) :
    Step host s (s.withCall c (.building full now (.rows ⟨n, t, s.now, []⟩)))
  /-- The last report of the next row is read. -/
  | readReport (c : Nat) (full : Bool) (now : Int) (r : Reads)
    (hat : s.calls c = .building full now (.rows r))
    (hmore : r.rows.length < (listed s.world full r.nodes).length) :
    Step host s (s.withCall c (.building full now (.halfRow r s.now)))
  /-- Whether that node is in its grace is read. -/
  | readGrace (c : Nat) (full : Bool) (now : Int) (r : Reads) (report : Nat)
    (hat : s.calls c = .building full now (.halfRow r report)) :
    Step host s (s.withCall c
      (.building full now (.rows { r with rows := r.rows ++ [(report, s.now)] })))
  /-- The frame is complete and goes into the slot. -/
  | store (c : Nat) (full : Bool) (now : Int) (r : Reads)
    (hat : s.calls c = .building full now (.rows r)) (hcomplete : r.Complete s.world full)
    (p : Rendered) (hrendered : p = ⟨frameFrom s.world full r, r⟩) :
    Step host s ({ s with
      lock := none, slots := Function.update s.slots full ⟨now, some p⟩ }.withCall c
        (.returned full (some p)))

/-- States a hub can come to. -/
inductive Reachable (host : Host) : State → Prop
  /-- A hub that has just started. -/
  | start (w : World) : Reachable host (.start w)
  /-- One step more. -/
  | step (s s' : State) (h : Reachable host s) (hstep : Step host s s') : Reachable host s'

end Romi.SnapshotCache
