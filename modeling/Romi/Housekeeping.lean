import Romi.CrashRecovery
import Romi.ExpiryDigest
import Romi.LoggedRuns
import Romi.StoreAreas

/-!
# Housekeeping

Once an hour one task prunes history, compacts the database when that is due,
expires sessions, rolls expiry dates forward and sends the daily digest. It
reads and writes the store step by step while everything else goes on, and any
of its reads and writes may fail; the hub may stop at any point and start again.
-/

namespace Romi.Housekeeping

open CachedTransactions CivilDate CrashRecovery ExpiryDigest JsonValue NodeContinuity NotifySweep
  StoreAnswers StoreAreas StoreGuard StoreJobs StoreOperations StoreSchema

/-! ## Automatic maintenance -/

/-- The periods that are offered, in days. -/
def periods : List Int := [7, 30, 90, 180]

/-- `maintenance_days` as it was read; anything else is off. -/
def maintenanceDays (value : Option String) : Int :=
  ((value.bind parseI64).filter fun d => d ∈ periods).getD 0

/-- `saturating_sub`. -/
def saturatingSub (a b : Int) : Int := max i64Min (min i64Max (a - b))

/-- The period has passed since the last time. -/
def Elapsed (now last days : Int) : Prop := saturatingSub now last ≥ days * 86400

/-- Where the time of the last compaction is kept. -/
def lastKey : String := "maintenance_last"

/-- Where the date of the last digest is kept. -/
def sentKey : String := "notify_expiry_sent"

/-! ## The task -/

/-- How far an hour's round has come. -/
inductive Phase
  /-- Between two rounds. -/
  | idle
  /-- About to read the period. -/
  | maintaining (now : Int)
  /-- About to read the time of the last compaction. -/
  | choosing (now days : Int)
  /-- No time is stored yet. -/
  | scheduling (now : Int)
  /-- A compaction is due. -/
  | compacting (now days : Int)
  /-- About to store the time of the compaction. -/
  | recording (now : Int)
  /-- About to delete the sessions that have expired. -/
  | expiring
  /-- About to list the dates to roll forward. -/
  | renewing
  /-- Dates are rolled forward, some of them already. -/
  | rolling (rest rolled : List Roll)
  /-- About to see whether a digest is wanted at this hour. -/
  | digesting
  /-- About to read the day of the last digest. -/
  | looking (today : NaiveDate) (days : Int)
  /-- About to see whether there is a channel. -/
  | routing (today : NaiveDate) (days : Int)
  /-- About to list the nodes. -/
  | listing (today : NaiveDate) (days : Int)
  /-- About to store the day as done. -/
  | marking (today : NaiveDate) (note : Option Note)
  /-- The digest is to be sent, if there is anything to say. -/
  | sending (today : NaiveDate) (note : Option Note)

/-- The period the task has read. -/
def Phase.period : Phase → Option Int
  | .choosing _ days | .compacting _ days => some days
  | _ => none

/-- How many days ahead the digest is to look. -/
def Phase.window : Phase → Option Int
  | .looking _ days | .routing _ days | .listing _ days => some days
  | _ => none

/-- The day a digest is being prepared for. -/
def Phase.heading : Phase → Option NaiveDate
  | .routing today _ | .listing today _ | .marking today _ => some today
  | _ => none

/-- The digest that is about to be stored as sent, or to be sent. -/
def Phase.draft : Phase → Option (NaiveDate × Option Note)
  | .marking today note | .sending today note => some (today, note)
  | _ => none

/-- The database in service and the task. -/
structure State where
  /-- What the database holds. -/
  db : Store
  /-- How far the task is. -/
  phase : Phase

/-- What is seen to happen. -/
inductive Event
  /-- A step that none of the others describes. -/
  | worked
  /-- Another database was put in service. -/
  | restored
  /-- The panel stored a new period at this time. -/
  | rescheduled (now : Int)
  /-- A compaction that was due came to an end. -/
  | compacted (now days : Int) (ok : Bool)
  /-- The time was to be stored. -/
  | recorded (now : Int) (ok : Bool)
  /-- A date was rolled forward. -/
  | rolled (r : Roll)
  /-- The notice of the dates rolled forward was sent, if there is one. -/
  | renewed (note : Option Note)
  /-- What the task read of the last digest. -/
  | looked (today : NaiveDate) (sent : Option String)
  /-- The day was to be stored as done. -/
  | marked (today : NaiveDate) (ok : Bool)
  /-- The digest was sent, if there is something to say. -/
  | digested (today : NaiveDate) (note : Option Note)

/-- The event is the sending of a digest. -/
def Event.isDigest : Event → Bool
  | .digested _ _ => true
  | _ => false

/-- One step of the task, of another one or of the hub. -/
inductive Step (jobs : Host) (parse : DateParser) (s : State) : Event → State → Prop
  /-- Somebody else writes something that is not the task's own. -/
  | write {op : Solo} {answer : Except Failure Payload} {db : Store}
      (hop : ∀ value, op ≠ .set lastKey value ∧ op ≠ .set sentKey value)
      (hran : Ran jobs op s.db answer db) : Step jobs parse s .worked { s with db := db }
  /-- Telemetry is written. -/
  | telemetry (op : Telemetry) (session : Session Store Guard) (hdb : session.db = s.db) :
      Step jobs parse s .worked { s with db := (op.job jobs session).2.db }
  /-- The settings set the time of the last compaction. -/
  | reschedule {db : Store} (now : Int) (hran : Ran jobs (.set lastKey (toString now)) s.db
      (.ok .nothing) db) : Step jobs parse s (.rescheduled now) { s with db := db }
  /-- A backup is restored. -/
  | restore (db : Store) : Step jobs parse s .restored { s with db := db }
  /-- The hub starts again. -/
  | restart (writtenBy : String) (now : Int) :
      Step jobs parse s .worked ⟨startup writtenBy now s.db, .idle⟩
  /-- An hour is over, and what is old is pruned. -/
  | tick {answer : Except Failure Payload} {db : Store} (hat : s.phase = .idle) (now keep : Int)
      (hran : Ran jobs (.prune now keep) s.db answer db) (later : Int) :
      Step jobs parse s .worked ⟨db, .maintaining later⟩
  -- `automatic_maintenance`
  /-- Compaction is switched off. -/
  | off {now : Int} {value : Option String} (hat : s.phase = .maintaining now)
      (hgot : Got s.db "maintenance_days" value) (hoff : maintenanceDays value = 0) :
      Step jobs parse s .worked { s with phase := .expiring }
  /-- It is not. -/
  | on {now : Int} {value : Option String} (hat : s.phase = .maintaining now)
      (hgot : Got s.db "maintenance_days" value) (hon : maintenanceDays value ≠ 0) :
      Step jobs parse s .worked { s with phase := .choosing now (maintenanceDays value) }
  /-- No time is stored. -/
  | unset {now days : Int} {value : Option String} (hat : s.phase = .choosing now days)
      (hgot : Got s.db lastKey value) (hunset : value.bind parseI64 = none) :
      Step jobs parse s .worked { s with phase := .scheduling now }
  /-- The period is not over. -/
  | early {now days last : Int} {value : Option String} (hat : s.phase = .choosing now days)
      (hgot : Got s.db lastKey value) (hlast : value.bind parseI64 = some last)
      (hearly : ¬ Elapsed now last days) :
      Step jobs parse s .worked { s with phase := .expiring }
  /-- It is. -/
  | due {now days last : Int} {value : Option String} (hat : s.phase = .choosing now days)
      (hgot : Got s.db lastKey value) (hlast : value.bind parseI64 = some last)
      (hdue : Elapsed now last days) :
      Step jobs parse s .worked { s with phase := .compacting now days }
  /-- The time is stored, or cannot be. -/
  | record {now : Int} {answer : Except Failure Payload} {db : Store}
      (hat : s.phase = .scheduling now ∨ s.phase = .recording now)
      (hran : Ran jobs (.set lastKey (toString now)) s.db answer db) :
      Step jobs parse s (.recorded now answer.isOk) ⟨db, .expiring⟩
  -- `maintenance` prunes first; a compaction keeps what the database holds
  /-- The file is compacted, or cannot be. -/
  | compact {now days time keep : Int} {answer : Except Failure Payload} {db : Store} {ok : Bool}
      (hat : s.phase = .compacting now days)
      (hran : Ran jobs (.prune time keep) s.db answer db) (hok : ok = true → answer.isOk = true) :
      Step jobs parse s (.compacted now days ok) ⟨db, if ok then .recording now else .expiring⟩
  /-- Sessions that have expired are deleted. -/
  | expire {time : Int} {answer : Except Failure Payload} {db : Store} (hat : s.phase = .expiring)
      (hran : Ran jobs (.expireSessions time) s.db answer db) :
      Step jobs parse s .worked ⟨db, .renewing⟩
  -- `renew_online_nodes`
  /-- The dates that are due are listed. -/
  | renew (hat : s.phase = .renewing) (online : Int → Bool) (today : NaiveDate) :
      Step jobs parse s .worked
        { s with phase := .rolling (rolls parse online today (nodes s.db)) [] }
  /-- The nodes cannot be read. -/
  | unlisted (hat : s.phase = .renewing) : Step jobs parse s .worked { s with phase := .digesting }
  /-- A date is rolled forward. -/
  | roll {r : Roll} {rest rolled : List Roll} {db : Store} (hat : s.phase = .rolling (r :: rest) rolled)
      (hran : Ran jobs (.setExpiry r.node.id r.next.toText) s.db (.ok .nothing) db) :
      Step jobs parse s (.rolled r) ⟨db, .rolling rest (rolled ++ [r])⟩
  /-- It cannot be, and the rest is left for later. -/
  | stuck {r : Roll} {rest rolled : List Roll} {e : Failure} {db : Store}
      (hat : s.phase = .rolling (r :: rest) rolled)
      (hran : Ran jobs (.setExpiry r.node.id r.next.toText) s.db (.error e) db) :
      Step jobs parse s .worked ⟨db, .digesting⟩
  /-- What was rolled forward is announced. -/
  | announce {rolled : List Roll} (hat : s.phase = .rolling [] rolled) (faults : SweepFaults) :
      Step jobs parse s (.renewed (renewalNote faults s.db rolled)) { s with phase := .digesting }
  -- `expiry_digest`
  /-- No digest is wanted, or not at this hour. -/
  | skip {hour : Nat} {faults : SweepFaults} (hat : s.phase = .digesting)
      (hskip : number faults s.db "notify_expiry" = 0 ∨ hour < 9) :
      Step jobs parse s .worked { s with phase := .idle }
  /-- One is. -/
  | begin {hour : Nat} {faults : SweepFaults} (hat : s.phase = .digesting) (today : NaiveDate)
      (hon : number faults s.db "notify_expiry" ≠ 0) (hhour : 9 ≤ hour) :
      Step jobs parse s .worked
        { s with phase := .looking today (number faults s.db "notify_expiry") }
  /-- The day of the last one is read. -/
  | look {today : NaiveDate} {days : Int} {sent : Option String} (hat : s.phase = .looking today days)
      (hgot : Got s.db sentKey sent) :
      Step jobs parse s (.looked today sent) { s with
        phase := if sent = some today.toText then .idle else .routing today days }
  /-- Without a channel there is none. -/
  | route {today : NaiveDate} {days : Int} (hat : s.phase = .routing today days)
      (faults : SweepFaults) :
      Step jobs parse s .worked { s with
        phase := if (channels faults s.db).isEmpty then .idle else .listing today days }
  /-- The nodes that expire soon are listed. -/
  | list {today : NaiveDate} {days : Int} (hat : s.phase = .listing today days) :
      Step jobs parse s .worked { s with
        phase := .marking today (digestNote today (soon parse days today (nodes s.db))) }
  /-- They cannot be read. -/
  | unread {today : NaiveDate} {days : Int} (hat : s.phase = .listing today days) :
      Step jobs parse s .worked { s with phase := .idle }
  /-- The day is stored as done, or cannot be. -/
  | mark {today : NaiveDate} {note : Option Note} {answer : Except Failure Payload} {db : Store}
      (hat : s.phase = .marking today note)
      (hran : Ran jobs (.set sentKey today.toText) s.db answer db) :
      Step jobs parse s (.marked today answer.isOk)
        ⟨db, if answer.isOk then .sending today note else .idle⟩
  /-- The digest goes out. -/
  | send {today : NaiveDate} {note : Option Note} (hat : s.phase = .sending today note) :
      Step jobs parse s (.digested today note) { s with phase := .idle }

/-- A run of the task among everything else. -/
abbrev Run (jobs : Host) (parse : DateParser) : State → List Event → State → Prop :=
  LoggedRuns.Run (Step jobs parse)

end Romi.Housekeeping
