import Mathlib.Data.Option.Basic

/-!
# The password of a first start

A hub without a password makes one up, and so does a hub that cannot read the one it has.
With a path for it, the same at every start, the password is written to a file before the
database learns of it; the file must not be there yet. A hub may stop at any point in
between. The file goes when the operator has changed the credentials. No backup is restored
in these runs: it would bring a password of its own.
-/

namespace Romi.FirstRun

/-- What is on disk. -/
inductive Credential
  /-- A file that was created and not written to its end. -/
  | partly
  /-- A file with a password and its line end. -/
  | whole (password : String)
  deriving DecidableEq

/-- Where the process is: in `first_run`, or serving, with a count of the requests that
have changed the credentials and are yet to remove the file. -/
inductive Phase
  /-- There is no process. -/
  | down
  /-- About to ask the database for the password. -/
  | started
  /-- A password was made up. -/
  | generated (password : String)
  /-- Its file was created. -/
  | created (password : String)
  /-- Its file was written and synchronized. -/
  | written (password : String)
  /-- It serves, and so many changes have yet to discard the file. -/
  | serving (changes : Nat)
  deriving DecidableEq

/-- The process, the file and the database. -/
structure State where
  /-- Where the process is. -/
  phase : Phase
  /-- `--bootstrap-password-file` was given. -/
  path : Bool
  /-- What is under the path. -/
  file : Option Credential
  /-- The password whose hash the database has. -/
  stored : Option String

/-- What can happen, in the order of the steps below. -/
inductive Event
  /-- The process starts, with the option or without. -/
  | start (path : Bool)
  /-- There was a password already. -/
  | known
  /-- There was none, and one is made up. -/
  | generate (password : String)
  /-- The read failed, and one is made up. -/
  | misread (password : String)
  /-- It is set and printed. -/
  | shown
  /-- It is not used, and the process ends. -/
  | refused
  /-- The file is created. -/
  | created
  /-- The password is in it. -/
  | wrote
  /-- The process ends with the file as far as it came. -/
  | unwritten
  /-- The password is set. -/
  | set
  /-- It could not be set, and the process ends. -/
  | unset (removed : Bool)
  /-- The name or the password was changed. -/
  | changed (password : Option String)
  /-- It was changed, but the request failed after that. -/
  | unchanged (password : Option String)
  /-- The file is removed after a change. -/
  | removed
  /-- It could not be removed. -/
  | kept
  /-- The process ends. -/
  | stop
  /-- Somebody else deletes the file. -/
  | deleted
  deriving DecidableEq

/-- One step of the process. -/
inductive Step (s : State) : Event → State → Prop
  /-- A process is started. -/
  | start (path : Bool) (hdown : s.phase = .down) :
    Step s (.start path) { s with phase := .started, path := path }
  /-- The database has a password: `first_run` returns. -/
  | known (hat : s.phase = .started) (hstored : s.stored ≠ none) :
    Step s .known { s with phase := .serving 0 }
  /-- There is no password. -/
  | generate (password : String) (hat : s.phase = .started) (hstored : s.stored = none) :
    Step s (.generate password) { s with phase := .generated password }
  /-- `Db::get` answers a read that failed as it does a password that is not there. -/
  | misread (password : String) (hat : s.phase = .started) :
    Step s (.misread password) { s with phase := .generated password }
  /-- Without a path the password is printed once. -/
  | shown {password : String} (hat : s.phase = .generated password) (hpath : s.path = false) :
    Step s .shown { s with phase := .serving 0, stored := some password }
  /-- `O_EXCL`, or any other reason not to create the file or not to set the password. -/
  | refuse {password : String} (hat : s.phase = .generated password) :
    Step s .refused { s with phase := .down }
  /-- The file is created where there was none. -/
  | create {password : String} (hat : s.phase = .generated password) (hpath : s.path = true)
    (hfree : s.file = none) :
    Step s .created { s with phase := .created password, file := some .partly }
  /-- The password is written to it. -/
  | write {password : String} (hat : s.phase = .created password) :
    Step s .wrote { s with phase := .written password, file := some (.whole password) }
  /-- What was written of the file stays, also where the process ends in between. -/
  | unwritten {password : String} (hat : s.phase = .created password) (file : Credential)
    (hfile : file = .partly ∨ file = .whole password) :
    Step s .unwritten { s with phase := .down, file := some file }
  /-- The password is set. -/
  | set {password : String} (hat : s.phase = .written password) :
    Step s .set { s with phase := .serving 0, stored := some password }
  /-- It cannot be, and the file is removed unless that fails too. -/
  | unset {password : String} (removed : Bool) (hat : s.phase = .written password) :
    Step s (.unset removed) { s with
      phase := .down
      file := if removed then none else s.file }
  /-- The name or the password was changed; without a password only the name. -/
  | change {n : Nat} (password : Option String) (hat : s.phase = .serving n) :
    Step s (.changed password) { s with
      phase := .serving (n + 1)
      stored := password.or s.stored }
  /-- The same, but the sessions could not be dropped or none issued. -/
  | unchanged {n : Nat} (password : Option String) (hat : s.phase = .serving n) :
    Step s (.unchanged password) { s with stored := password.or s.stored }
  /-- `discard_bootstrap_credential`, which has no path if none was given. -/
  | remove {n : Nat} (hat : s.phase = .serving (n + 1)) (hpath : s.path = true) :
    Step s .removed { s with phase := .serving n, file := none }
  /-- A file that should be removed stays. -/
  | keep {n : Nat} (hat : s.phase = .serving (n + 1)) :
    Step s .kept { s with phase := .serving n }
  /-- The process may end at any time. -/
  | stop : Step s .stop { s with phase := .down }
  /-- By another hand, while no hub runs. -/
  | delete (hdown : s.phase = .down) : Step s .deleted { s with file := none }

/-- A run from a state, the newest event first. -/
inductive Run (s₀ : State) : List Event → State → Prop
  /-- Nothing has happened. -/
  | start : Run s₀ [] s₀
  /-- One step more. -/
  | step {log : List Event} {s s' : State} {e : Event} (h : Run s₀ log s) (hstep : Step s e s') :
    Run s₀ (e :: log) s'

/-- Nothing is on disk. -/
def State.empty : State := ⟨.down, false, none, none⟩

variable {log : List Event} {s s' : State} {e : Event}

/-- The process is in service. -/
def Phase.serves : Phase → Bool
  | .serving _ => true
  | .down | .started | .generated _ | .created _ | .written _ => false

/-- Still in `first_run` with a password of its own. -/
def Phase.drafts : Phase → Bool
  | .generated _ | .created _ | .written _ => true
  | .down | .started | .serving _ => false

/-- The event brings a password that the operator chose. -/
def Event.chosen : Event → Bool
  | .changed password | .unchanged password => password.isSome
  | _ => false

/-- The event brings a password that is in no file: one that was chosen or printed. -/
def Event.unfiled : Event → Bool
  | .shown => true
  | e => e.chosen

/-- A start could not read the password. -/
def Event.failed : Event → Bool
  | .misread _ => true
  | _ => false

/-- What is known of a file and the database. -/
def Filed (log : List Event) (file : Option Credential) (stored : Option String) : Prop :=
  ∀ password, file = some (.whole password) → stored = none ∨ stored = some password ∨
    log.any Event.unfiled = true ∨ log.any Event.failed = true

/-- What a run keeps. -/
structure Once (log : List Event) (s : State) : Prop where
  /-- A hub that serves has a password. -/
  served : s.phase.serves = true → s.stored ≠ none
  /-- A password is made up where there is none, unless a read failed. -/
  drafted : s.phase.drafts = true → s.stored = none ∨ log.any Event.failed = true
  /-- A file that was just created is not complete. -/
  created : ∀ password, s.phase = .created password → s.file = some .partly
  /-- A file that was written has the password. -/
  written : ∀ password, s.phase = .written password → s.file = some (.whole password)
  /-- What is known of the file follows from what has happened. -/
  file : Filed log s.file s.stored

/-- What has happened has still happened later. -/
theorem any_cons {p : Event → Bool} (e : Event) (h : log.any p = true) :
    (e :: log).any p = true := by
  rw [List.any_cons, h, Bool.or_true]

/-- What is known of the file does not change by itself. -/
theorem Filed.later {file : Option Credential} {stored : Option String}
    (h : Filed log file stored) (e : Event) : Filed (e :: log) file stored :=
  fun password hfile => (h password hfile).imp_right
    (Or.imp_right (Or.imp (any_cons e) (any_cons e)))

/-- Nor does anything else. -/
theorem Once.later (h : Once log s) (e : Event) : Once (e :: log) s :=
  ⟨h.served, fun hdrafts => (h.drafted hdrafts).imp_right (any_cons e), h.created, h.written,
    h.file.later e⟩

/-- Without a draft nothing is said of a file that is being written. -/
theorem once_settled (hdrafts : s.phase.drafts = false)
    (hserved : s.phase.serves = true → s.stored ≠ none) (hfile : Filed log s.file s.stored) :
    Once log s := by
  refine ⟨hserved, fun hdraft => ?_, fun password hat => ?_, fun password hat => ?_, hfile⟩
  · rw [hdrafts] at hdraft
    cases hdraft
  · rw [hat] at hdrafts
    cases hdrafts
  · rw [hat] at hdrafts
    cases hdrafts

/-- A step to a phase without a draft. -/
theorem Once.settle (h : Once log s) {phase : Phase} (hdrafts : phase.drafts = false)
    (hserves : phase.serves = true → s.stored ≠ none) : Once log { s with phase := phase } :=
  once_settled hdrafts hserves h.file

/-- The file goes while there is no draft. -/
theorem Once.clear (h : Once log s) (hdrafts : s.phase.drafts = false) :
    Once log { s with file := none } :=
  once_settled hdrafts h.served nofun

/-- The hub serves with another password in the database. -/
theorem once_stored {password : String} {phase : Phase} (hdrafts : phase.drafts = false)
    (hfile : ∀ p, s.file = some (.whole p) → p = password ∨ log.any Event.unfiled = true) :
    Once log { s with phase := phase, stored := some password } := by
  refine once_settled hdrafts (fun _ => nofun) fun p hp => ?_
  rcases hfile p hp with rfl | hany
  · exact .inr (.inl rfl)
  · exact .inr (.inr (.inl hany))

/-- A whole file of a draft holds what the database does not have yet. -/
theorem filed_draft {file : Option Credential} {stored : Option String}
    (h : stored = none ∨ log.any Event.failed = true) : Filed log file stored := by
  intro password _
  rcases h with hnone | hfailed
  · exact .inl hnone
  · exact .inr (.inr (.inr hfailed))

/-- Every step keeps to it. -/
theorem once_step (h : Once log s) (hstep : Step s e s') : Once (e :: log) s' := by
  have hlater := h.later e
  have stored : s.phase.serves = true →
      ∀ password : Option String, password.or s.stored ≠ none := by
    intro hserves password hnone
    exact h.served hserves (Option.or_eq_none_iff.mp hnone).2
  cases hstep with
  | start path hdown =>
    have hpath : Once (.start path :: log) { s with path := path } :=
      ⟨hlater.served, hlater.drafted, hlater.created, hlater.written, hlater.file⟩
    exact hpath.settle rfl nofun
  | known hat hstored => exact hlater.settle rfl fun _ => hstored
  | generate password hat hstored =>
    exact ⟨nofun, fun _ => .inl hstored, nofun, nofun, hlater.file⟩
  | misread password hat => exact ⟨nofun, fun _ => .inr rfl, nofun, nofun, hlater.file⟩
  | shown hat hpath => exact once_stored rfl fun _ _ => .inr rfl
  | refuse hat => exact hlater.settle rfl nofun
  | create hat hpath hfree =>
    have hstored := hlater.drafted (by rw [hat]; rfl)
    exact ⟨nofun, fun _ => hstored, fun _ _ => rfl, nofun, nofun⟩
  | write hat =>
    have hstored := hlater.drafted (by rw [hat]; rfl)
    refine ⟨nofun, fun _ => hstored, nofun, fun p hp => ?_, filed_draft hstored⟩
    cases hp
    rfl
  | unwritten hat file hfile =>
    have hstored := hlater.drafted (by rw [hat]; rfl)
    exact ⟨nofun, nofun, nofun, nofun, filed_draft hstored⟩
  | @set password hat =>
    refine once_stored rfl fun p hp => .inl ?_
    have hwritten := (h.written password hat).symm.trans hp
    cases hwritten
    rfl
  | unset removed hat =>
    have hstored := hlater.drafted (by rw [hat]; rfl)
    exact ⟨nofun, nofun, nofun, nofun, filed_draft hstored⟩
  | change password hat =>
    have hstored := stored (by rw [hat]; rfl) password
    cases password with
    | none => exact hlater.settle rfl fun _ => hstored
    | some password => exact once_stored rfl fun _ _ => .inr rfl
  | unchanged password hat =>
    cases password with
    | none => exact hlater
    | some password => exact once_stored (by rw [hat]; rfl) fun _ _ => .inr rfl
  | remove hat hpath =>
    have hserved := h.served (by rw [hat]; rfl)
    exact (hlater.clear (by rw [hat]; rfl)).settle rfl fun _ => hserved
  | keep hat =>
    have hserved := h.served (by rw [hat]; rfl)
    exact hlater.settle rfl fun _ => hserved
  | stop => exact hlater.settle rfl nofun
  | delete hdown => exact hlater.clear (by rw [hdown]; rfl)

/-- So it holds in every run. -/
theorem once_run (h : Run .empty log s) : Once log s := by
  induction h with
  | start => exact ⟨nofun, nofun, nofun, nofun, nofun⟩
  | step _ hstep ih => exact once_step ih hstep

/-! ## From then on -/

/-- One run after another is a run. -/
theorem Run.append {s₀ : State} {mid : List Event} (h : Run s₀ log s) (hmid : Run s mid s') :
    Run s₀ (mid ++ log) s' := by
  induction hmid with
  | start => exact h
  | step _ hstep ih => exact ih.step hstep

/-- While every read succeeded, no password is made up where there is one. -/
theorem Once.undrafted (h : Once log s) (hread : log.any Event.failed = false)
    (hstored : s.stored ≠ none) : s.phase.drafts = false := by
  by_contra hdrafts
  rcases h.drafted (Bool.not_eq_false _ ▸ hdrafts) with hnone | hfailed
  · exact hstored hnone
  · rw [hread] at hfailed
    cases hfailed

/-- No start replaces a password. -/
theorem step_stored (h : Once log s) (hread : log.any Event.failed = false) {password : String}
    (hstored : s.stored = some password) (hstep : Step s e s') (hkept : e.chosen = false) :
    s'.stored = some password := by
  have hdrafts := h.undrafted hread (by rw [hstored]; nofun)
  cases hstep with
  | shown hat hpath =>
    rw [hat] at hdrafts
    cases hdrafts
  | set hat =>
    rw [hat] at hdrafts
    cases hdrafts
  | change other hat =>
    cases other with
    | none => exact hstored
    | some other => cases hkept
  | unchanged other hat =>
    cases other with
    | none => exact hstored
    | some other => cases hkept
  | _ => exact hstored

/-- With a password in the database no file is made. -/
theorem step_absent (h : Once log s) (hread : log.any Event.failed = false)
    (hstored : s.stored ≠ none) (hfile : s.file = none) (hstep : Step s e s') :
    s'.stored ≠ none ∧ s'.file = none := by
  have hdrafts := h.undrafted hread hstored
  cases hstep with
  | shown hat hpath => exact ⟨nofun, hfile⟩
  | create hat hpath hfree =>
    rw [hat] at hdrafts
    cases hdrafts
  | write hat =>
    rw [hat] at hdrafts
    cases hdrafts
  | unwritten hat file hwritten =>
    rw [hat] at hdrafts
    cases hdrafts
  | set hat => exact ⟨nofun, hfile⟩
  | unset removed hat =>
    rw [hat] at hdrafts
    cases hdrafts
  | change password hat =>
    exact ⟨fun hnone => hstored (Option.or_eq_none_iff.mp hnone).2, hfile⟩
  | unchanged password hat =>
    exact ⟨fun hnone => hstored (Option.or_eq_none_iff.mp hnone).2, hfile⟩
  | remove hat hpath => exact ⟨hstored, rfl⟩
  | delete hdown => exact ⟨hstored, rfl⟩
  | _ => exact ⟨hstored, hfile⟩

/-- The event takes a file away. -/
def Event.takes : Event → Bool
  | .unset gone => gone
  | .removed | .deleted => true
  | _ => false

/-- Nothing is written over a file. -/
theorem step_file (h : Once log s) {password : String}
    (hfile : s.file = some (.whole password)) (hstep : Step s e s') (htakes : e.takes = false) :
    s'.file = some (.whole password) := by
  have uncreated : ∀ {p}, s.phase = .created p → False := by
    intro p hat
    have hpartly := (h.created p hat).symm.trans hfile
    cases hpartly
  cases hstep with
  | create hat hpath hfree =>
    rw [hfree] at hfile
    cases hfile
  | write hat => exact (uncreated hat).elim
  | unwritten hat file hwritten => exact (uncreated hat).elim
  | unset removed hat =>
    cases removed with
    | false => exact hfile
    | true => cases htakes
  | remove hat hpath => cases htakes
  | delete hdown => cases htakes
  | _ => exact hfile

end Romi.FirstRun
