import Mathlib.Logic.Function.Basic

/-!
# Replacing the country database

An administrator's request starts one update in the background. It downloads
the database, checks it, writes it beside the file in use and, holding the lock
that also guards the token of the running update, renames it into place and
hands the new reader over. Requests to update and to cancel arrive meanwhile;
every call of an update may fail.
-/

namespace Romi.CountryUpdates

/-! ## The database -/

/-- The bytes of a file. -/
abbrev Bytes : Type := List UInt8

/-- `MAX_BYTES`. -/
def maxBytes : Nat := 32 * 1024 * 1024

/-- What the library of the database format says about the bytes of a file. -/
structure Maxmind where
  /-- `Reader::from_source`: they can be opened. -/
  fromSource : Bytes → Except String Unit
  /-- The type the metadata names. -/
  databaseType : Bytes → String
  /-- `Reader::verify`: they are in order throughout. -/
  verify : Bytes → Except String Unit

/-- The database types that are taken. -/
def countryTypes : List String := ["GeoLite2-Country", "GeoIP2-Country"]

/-- `validate`; a reader is known by the bytes it owns. -/
def validate (lib : Maxmind) (bytes : Bytes) : Except String Bytes := do
  lib.fromSource bytes
  if lib.databaseType bytes ∈ countryTypes then
    lib.verify bytes
    return bytes
  else throw "需要 Country 类型的 MMDB 数据库"

/-- What an update replaces, and the file it writes first. -/
structure Contents where
  /-- The database on disk. -/
  file : Option Bytes
  /-- The database lookups are answered from. -/
  reader : Option Bytes
  /-- The file beside it. -/
  temp : Option Bytes
  deriving DecidableEq

/-- The values of `Status::state`. -/
inductive Stage
  /-- No update has run. -/
  | idle
  /-- One is running. -/
  | downloading
  /-- The last one has succeeded. -/
  | complete
  /-- The last one was cancelled. -/
  | cancelled
  /-- The last one has failed. -/
  | error

/-- `Status`. -/
structure Status where
  /-- How the update stands. -/
  state : Stage
  /-- How many bytes of it have come. -/
  received : Nat
  /-- Why it failed. -/
  error : String
  /-- Whether there is a database to look things up in. -/
  configured : Bool

/-- The contents as a starting hub finds and reads them. -/
def found (lib : Maxmind) (file temp : Option Bytes) : Contents :=
  ⟨file, (file.filter fun bytes => bytes.length ≤ maxBytes).bind fun bytes =>
    (validate lib bytes).toOption, temp⟩

/-! ## One update -/

/-- Where an update stands: each phase is named after the call that was last
answered. -/
inductive Phase
  /-- The request was answered, nothing has begun. -/
  | accepted
  /-- So much of the body has come. -/
  | downloading (bytes : Bytes)
  /-- The body is complete. -/
  | fetched (bytes : Bytes)
  /-- The body is a database of the wanted type. -/
  | validated (bytes : Bytes)
  /-- It was not cancelled until then. -/
  | wanted (bytes : Bytes)
  /-- The directory is there. -/
  | placed (bytes : Bytes)
  /-- The temporary file is open and empty. -/
  | opened (bytes : Bytes)
  /-- All of the body is in it. -/
  | written (bytes : Bytes)
  /-- It is on disk. -/
  | synced (bytes : Bytes)
  /-- The lock is held from here until the reader is set or the section left. -/
  | committing (bytes : Bytes)
  /-- It has become the file in use, the reader is still the old one. -/
  | renamed (bytes : Bytes)
  /-- The reader is the new one and the lock is free. -/
  | refreshing (bytes : Bytes)
  /-- The temporary file has yet to be removed. -/
  | failed (text : String)
  /-- The work is over, its outcome not yet in the status. -/
  | finished (result : Except String Unit)
  /-- The outcome is in the status. -/
  | reported (result : Except String Unit)

/-- What an observer of the hub sees happen. -/
inductive Event
  /-- A request was turned away. -/
  | refused (code : Nat) (text : String)
  /-- A request has started an update. -/
  | accepted (update : Nat) (before : Contents)
  /-- A request has cancelled the update. -/
  | cancelled (update : Nat)
  /-- A request to cancel, with nothing to cancel. -/
  | spared
  /-- An update took a step nobody sees. -/
  | worked (update : Nat)
  /-- An update took the lock. -/
  | entered (update : Nat)
  /-- An update has replaced file and reader. -/
  | installed (update : Nat) (bytes : Bytes)
  /-- The temporary file could not be removed. -/
  | unremoved (update : Nat)
  /-- An update has made room for the next. -/
  | ended (update : Nat) (result : Except String Unit) (after : Contents)

/-- The update an event is about. -/
def Event.about : Event → Option Nat
  | .refused _ _ | .spared => none
  | .accepted i _ | .cancelled i | .worked i | .entered i | .installed i _ | .unremoved i
  | .ended i _ _ => some i

/-- What an update works on. -/
structure Shared where
  /-- The files and the reader. -/
  contents : Contents
  /-- What a request for the status is told. -/
  status : Status
  /-- An install holds the lock on the active token. -/
  locked : Bool
  /-- Whether the token of an update is cancelled. -/
  cancelled : Nat → Bool

/-- The status at the end of an update. -/
def Status.settled (status : Status) (cancelled : Bool) : Except String Unit → Status
  | .ok () => { status with state := .complete, configured := true }
  | .error text =>
    { status with state := if cancelled then .cancelled else .error, error := text }

/-- The end of an update: a failed one cancels its token and says why. -/
def Shared.settled (s : Shared) (i : Nat) (result : Except String Unit) : Shared :=
  { s with
    status := s.status.settled (s.cancelled i) result
    cancelled := Function.update s.cancelled i (s.cancelled i || !result.isOk) }

/-- The calls of update `i`, up to the one that makes room for the next. -/
inductive Work (lib : Maxmind) (i : Nat) : Shared → Phase → Event → Shared → Phase → Prop
  /-- The status says so before the first byte. -/
  | begun (s : Shared) : Work lib i s .accepted (.worked i)
      { s with status := { s.status with state := .downloading, received := 0, error := "" } }
      (.downloading [])
  -- `download`, its deadline and its token, whichever is first
  /-- A piece of the body within the limit. -/
  | chunk (s : Shared) (bytes chunk : Bytes) (h : bytes.length + chunk.length ≤ maxBytes) :
      Work lib i s (.downloading bytes) (.worked i)
        { s with status := { s.status with received := (bytes ++ chunk).length } }
        (.downloading (bytes ++ chunk))
  /-- A piece that goes over the limit. -/
  | tooLarge (s : Shared) (bytes chunk : Bytes) (h : maxBytes < bytes.length + chunk.length) :
      Work lib i s (.downloading bytes) (.worked i) s (.finished (.error "数据库超过 32 MiB"))
  /-- The download fails. -/
  | undelivered (s : Shared) (bytes : Bytes) (text : String) :
      Work lib i s (.downloading bytes) (.worked i) s (.finished (.error text))
  /-- It takes too long. -/
  | timedOut (s : Shared) (bytes : Bytes) :
      Work lib i s (.downloading bytes) (.worked i) s (.finished (.error "更新超时"))
  /-- It is cancelled while it waits. -/
  | stopped (s : Shared) (bytes : Bytes) (h : s.cancelled i = true) :
      Work lib i s (.downloading bytes) (.worked i) s (.finished (.error "已取消"))
  /-- The body ends. -/
  | fetched (s : Shared) (bytes : Bytes) :
      Work lib i s (.downloading bytes) (.worked i) s (.fetched bytes)
  -- `install`
  /-- The library takes the bytes. -/
  | validated (s : Shared) (bytes : Bytes) (h : validate lib bytes = .ok bytes) :
      Work lib i s (.fetched bytes) (.worked i) s (.validated bytes)
  /-- The library refuses them. -/
  | invalid (s : Shared) (bytes : Bytes) (text : String) (h : validate lib bytes = .error text) :
      Work lib i s (.fetched bytes) (.worked i) s (.finished (.error text))
  /-- Nobody has cancelled by now. -/
  | wanted (s : Shared) (bytes : Bytes) (h : s.cancelled i = false) :
      Work lib i s (.validated bytes) (.worked i) s (.wanted bytes)
  /-- Somebody has. -/
  | unwanted (s : Shared) (bytes : Bytes) (h : s.cancelled i = true) :
      Work lib i s (.validated bytes) (.worked i) s (.finished (.error "已取消"))
  /-- `create_dir_all`. -/
  | placed (s : Shared) (bytes : Bytes) :
      Work lib i s (.wanted bytes) (.worked i) s (.placed bytes)
  /-- It fails. -/
  | unplaced (s : Shared) (bytes : Bytes) (text : String) :
      Work lib i s (.wanted bytes) (.worked i) s (.finished (.error text))
  /-- The temporary file is created. -/
  | opened (s : Shared) (bytes : Bytes) : Work lib i s (.placed bytes) (.worked i)
      { s with contents := { s.contents with temp := some [] } } (.opened bytes)
  /-- It cannot be. -/
  | unopened (s : Shared) (bytes : Bytes) (text : String) :
      Work lib i s (.placed bytes) (.worked i) s (.failed text)
  /-- `write_all`. -/
  | written (s : Shared) (bytes : Bytes) : Work lib i s (.opened bytes) (.worked i)
      { s with contents := { s.contents with temp := some bytes } } (.written bytes)
  /-- It fails with a part written. -/
  | unwritten (s : Shared) (bytes part : Bytes) (text : String) :
      Work lib i s (.opened bytes) (.worked i)
        { s with contents := { s.contents with temp := some part } } (.failed text)
  /-- `sync_all`. -/
  | synced (s : Shared) (bytes : Bytes) :
      Work lib i s (.written bytes) (.worked i) s (.synced bytes)
  /-- It fails. -/
  | unsynced (s : Shared) (bytes : Bytes) (text : String) :
      Work lib i s (.written bytes) (.worked i) s (.failed text)
  /-- The section in which the update is installed. -/
  | entered (s : Shared) (bytes : Bytes) (h : s.locked = false) :
      Work lib i s (.synced bytes) (.entered i) { s with locked := true } (.committing bytes)
  /-- It was cancelled before the section began. -/
  | withdrawn (s : Shared) (bytes : Bytes) (h : s.cancelled i = true) :
      Work lib i s (.committing bytes) (.worked i) { s with locked := false } (.failed "已取消")
  /-- `rename`, of whatever the temporary file holds. -/
  | renamed (s : Shared) (bytes moved : Bytes) (h : s.cancelled i = false)
      (hmoved : s.contents.temp = some moved) : Work lib i s (.committing bytes) (.worked i)
        { s with contents := { s.contents with file := some moved, temp := none } }
        (.renamed bytes)
  /-- It fails. -/
  | unrenamed (s : Shared) (bytes : Bytes) (text : String) (h : s.cancelled i = false) :
      Work lib i s (.committing bytes) (.worked i) { s with locked := false } (.failed text)
  /-- The reader is replaced and the lock given back. -/
  | installed (s : Shared) (bytes : Bytes) :
      Work lib i s (.renamed bytes) (.installed i bytes)
        { s with contents := { s.contents with reader := some bytes }, locked := false }
        (.refreshing bytes)
  /-- The temporary file of a failed update is removed. -/
  | removed (s : Shared) (text : String) : Work lib i s (.failed text) (.worked i)
      { s with contents := { s.contents with temp := none } } (.finished (.error text))
  /-- It cannot be, which the code ignores. -/
  | unremoved (s : Shared) (text : String) :
      Work lib i s (.failed text) (.unremoved i) s (.finished (.error text))
  /-- The countries of the nodes are looked up again. -/
  | refreshed (s : Shared) (bytes : Bytes) :
      Work lib i s (.refreshing bytes) (.worked i) s (.finished (.ok ()))
  -- the end of the task
  /-- The status is told the outcome. -/
  | settled (s : Shared) (result : Except String Unit) :
      Work lib i s (.finished result) (.worked i) (s.settled i result) (.reported result)

/-! ## The hub -/

/-- The updates of a hub and what they share. -/
structure Hub where
  /-- What updates and requests share. -/
  shared : Shared
  /-- The token of the running update. -/
  active : Option Nat
  /-- How many tokens have been made. -/
  issued : Nat
  /-- Where each update is. -/
  tasks : Nat → Option Phase

/-- A hub that has just started. -/
def Hub.new (lib : Maxmind) (file temp : Option Bytes) : Hub where
  shared := ⟨found lib file temp, ⟨.idle, 0, "", (found lib file temp).reader.isSome⟩, false,
    fun _ => false⟩
  active := none
  issued := 0
  tasks := fun _ => none

/-- `update`, with the address it finds among the settings. -/
def update (validUrl : String → Bool) (url : String) (s : Hub) : Event × Hub :=
  if validUrl url then
    match s.active with
    | some _ => (.refused 409 "已有更新正在进行", s)
    | none =>
      (.accepted s.issued s.shared.contents,
        { shared := { s.shared with
            cancelled := Function.update s.shared.cancelled s.issued false }
          active := some s.issued
          issued := s.issued + 1
          tasks := Function.update s.tasks s.issued (some .accepted) })
  else (.refused 400 "请先保存 HTTPS 数据库直链", s)

/-- `cancel`. -/
def cancel (s : Hub) : Event × Hub :=
  match s.active with
  | some i =>
    (.cancelled i,
      { s with shared := { s.shared with
        cancelled := Function.update s.shared.cancelled i true } })
  | none => (.spared, s)

/-- One thing that happens: a request, a call of an update, the end of one.
Requests and the end of an update need the lock; a request refused for its
address does not get that far. -/
inductive Step (lib : Maxmind) (validUrl : String → Bool) : Hub → Event → Hub → Prop
  /-- A request to update. -/
  | update (s : Hub) (url : String) (h : validUrl url = true → s.shared.locked = false) :
      Step lib validUrl s (update validUrl url s).1 (update validUrl url s).2
  /-- A request to cancel. -/
  | cancel (s : Hub) (h : s.shared.locked = false) :
      Step lib validUrl s (cancel s).1 (cancel s).2
  /-- An update goes on. -/
  | work (s : Hub) (i : Nat) (e : Event) (p p' : Phase) (after : Shared)
      (hphase : s.tasks i = some p) (hwork : Work lib i s.shared p e after p') :
      Step lib validUrl s e
        { s with shared := after, tasks := Function.update s.tasks i (some p') }
  /-- The last thing an update does. -/
  | ended (s : Hub) (i : Nat) (result : Except String Unit)
      (hphase : s.tasks i = some (.reported result)) (h : s.shared.locked = false) :
      Step lib validUrl s (.ended i result s.shared.contents)
        { s with active := none, tasks := Function.update s.tasks i none }

/-- The histories of a hub, the latest event first. -/
inductive Run (lib : Maxmind) (validUrl : String → Bool) (file temp : Option Bytes) :
    List Event → Hub → Prop
  /-- Nothing has happened. -/
  | start : Run lib validUrl file temp [] (Hub.new lib file temp)
  /-- One step more. -/
  | step (log : List Event) (s s' : Hub) (e : Event) (hrun : Run lib validUrl file temp log s)
      (hstep : Step lib validUrl s e s') : Run lib validUrl file temp (e :: log) s'

/-- The update has been accepted and has not ended. -/
def Hub.Live (s : Hub) (i : Nat) : Prop := s.tasks i ≠ none

end Romi.CountryUpdates
