import Mathlib.Data.List.Basic
import Mathlib.Order.Nat

/-!
# The stream of a page in a browser

A page hears lists from a socket, polls while there is none, and dials again some time
after the socket closed. Sockets, intervals and timeouts go on by themselves until they
are closed or cleared; the page only knows those its variables name.
-/

namespace Romi.LivePage

/-- What the page's variables name, and what goes on in the browser. -/
structure State where
  /-- The page is gone. -/
  closed : Bool
  /-- The variable that names the socket. -/
  socket : Option Nat
  /-- The variable that names the interval. -/
  poll : Option Nat
  /-- The variable that names the timeout. -/
  retry : Option Nat
  /-- Sockets that have not closed. -/
  sockets : List Nat
  /-- Those of them that were told to. -/
  closing : List Nat
  /-- The intervals that run. -/
  intervals : List Nat
  /-- The timeouts that are set. -/
  timeouts : List Nat
  /-- The next name for any of them. -/
  fresh : Nat

/-- `poll ??= setInterval(fetchOnce, 5000)`. -/
def State.startPoll (s : State) : State :=
  match s.poll with
  | some _ => s
  | none =>
    { s with
      poll := some s.fresh
      intervals := s.fresh :: s.intervals
      fresh := s.fresh + 1 }

/-- The end of the poll, when a list has come. -/
def State.stopPoll (s : State) : State :=
  match s.poll with
  | some i => { s with poll := none, intervals := s.intervals.filter fun j => j ≠ i }
  | none => s

/-- `socket?.close()`. -/
def State.closeSocket (s : State) : State := { s with closing := s.socket.toList ++ s.closing }

/-- `connect`, if the browser makes a socket for it or if it throws. -/
def State.connect (s : State) (made : Bool) : State :=
  if made then
    { s with socket := some s.fresh, sockets := s.fresh :: s.sockets, fresh := s.fresh + 1 }
  else s.startPoll

/-- `retry = setTimeout(connect, 5000)`. -/
def State.dialLater (s : State) : State :=
  { s with retry := some s.fresh, timeouts := s.fresh :: s.timeouts, fresh := s.fresh + 1 }

/-- `onclose`. -/
def State.onClose (s : State) : State := if s.closed then s else s.startPoll.dialLater

/-- The cleanup of the effect. -/
def State.unmount (s : State) : State :=
  { s.closeSocket with
    closed := true
    intervals := s.intervals.filter fun i => some i ≠ s.poll
    timeouts := s.timeouts.filter fun i => some i ≠ s.retry }

/-- The page when its effect has run. -/
def State.mounted (made : Bool) : State :=
  State.connect ⟨false, none, none, none, [], [], [], [], 0⟩ made

/-- What the page sees happen. -/
inductive Event
  /-- A socket brings a frame. -/
  | message (k : Nat)
  /-- A socket fails. -/
  | error (k : Nat)
  /-- A socket is closed. -/
  | closed (k : Nat)
  /-- A timeout is over; the browser makes a socket or refuses to. -/
  | fired (k : Nat) (made : Bool)
  /-- The page is left. -/
  | unmounted
  deriving DecidableEq

/-- One event in the browser. -/
inductive Step (s : State) : Event → State → Prop
  /-- A socket that was told to close passes no message on. -/
  | message {k : Nat} (hopen : k ∈ s.sockets) (hheard : k ∉ s.closing) :
    Step s (.message k) s.stopPoll
  /-- An error closes the socket of the variable. -/
  | error {k : Nat} (hopen : k ∈ s.sockets) : Step s (.error k) s.closeSocket
  /-- A socket that closes is gone before its handler runs. -/
  | close {k : Nat} (hopen : k ∈ s.sockets) :
    Step s (.closed k) { s with sockets := s.sockets.filter fun j => j ≠ k }.onClose
  /-- A timeout that is over dials again. -/
  | fire {k : Nat} (made : Bool) (hdue : k ∈ s.timeouts) :
    Step s (.fired k made)
      ({ s with timeouts := s.timeouts.filter fun j => j ≠ k }.connect made)
  /-- The page is left once. -/
  | unmount (hmounted : s.closed = false) : Step s .unmounted s.unmount

/-- A run of a page, the newest event first. -/
inductive Run : Bool → List Event → State → Prop
  /-- The page was just made. -/
  | start (made : Bool) : Run made [] (.mounted made)
  /-- One step more. -/
  | step {made : Bool} {log : List Event} {s s' : State} {e : Event} (h : Run made log s)
    (hstep : Step s e s') : Run made (e :: log) s'

/-! ## What goes on is named -/

variable {s s' : State} {e : Event} {made : Bool} {log : List Event}

/-- Nothing goes on that the page cannot end, and never two of a kind. -/
structure Kept (s : State) : Prop where
  /-- There is at most one socket, and the variable names it. -/
  sockets : s.sockets = [] ∨ ∃ k, s.sockets = [k] ∧ s.socket = some k
  /-- There is at most one timeout, and the variable names it. -/
  timeouts : s.timeouts = [] ∨ ∃ k, s.timeouts = [k] ∧ s.retry = some k
  /-- A socket and a timeout are never there together. -/
  alone : s.sockets = [] ∨ s.timeouts = []
  /-- While the page is there, the only interval is the one its variable names. -/
  polled : s.closed = false → s.intervals = s.poll.toList
  /-- When it is gone, nothing runs and its sockets were told to close. -/
  ended : s.closed = true → s.intervals = [] ∧ s.timeouts = [] ∧ ∀ k ∈ s.sockets, k ∈ s.closing

section Named

variable {l : List Nat} {named : Option Nat}

/-- What is among at most one is that one. -/
theorem sole_member (h : l = [] ∨ ∃ k, l = [k] ∧ named = some k) {k : Nat} (hk : k ∈ l) :
    l = [k] ∧ named = some k := by
  rcases h with hnone | ⟨k', hone, hnamed⟩
  · rw [hnone] at hk
    cases hk
  · rw [hone] at hk
    obtain rfl := List.mem_singleton.mp hk
    exact ⟨hone, hnamed⟩

/-- At most one is at most one. -/
theorem length_le (h : l = [] ∨ ∃ k, l = [k] ∧ named = some k) : l.length ≤ 1 := by
  rcases h with hnone | ⟨k, hone, -⟩
  · rw [hnone]
    exact Nat.zero_le 1
  · rw [hone]
    exact le_refl 1

/-- Without the only one nothing is left. -/
theorem filter_sole {k : Nat} (hone : l = [k]) : l.filter (fun j => j ≠ k) = [] := by
  rw [hone]
  simp

end Named

/-- Polling starts at most once. -/
theorem Kept.startPoll (h : Kept s) (hmounted : s.closed = false) : Kept s.startPoll := by
  have hpolled := h.polled hmounted
  unfold State.startPoll
  split
  · exact h
  · rename_i hnone
    rw [hnone] at hpolled
    refine ⟨h.sockets, h.timeouts, h.alone, fun _ => ?_, fun hclosed => ?_⟩
    · change s.fresh :: s.intervals = [s.fresh]
      rw [hpolled]
      rfl
    · exact absurd (hmounted.symm.trans hclosed) nofun

/-- Polling stops. -/
theorem Kept.stopPoll (h : Kept s) : Kept s.stopPoll := by
  unfold State.stopPoll
  split
  · rename_i i hpoll
    refine ⟨h.sockets, h.timeouts, h.alone, fun hmounted => ?_, fun hclosed => ?_⟩
    · change s.intervals.filter _ = []
      refine filter_sole ?_
      rw [h.polled hmounted, hpoll]
      rfl
    · obtain ⟨hintervals, hrest⟩ := h.ended hclosed
      refine ⟨?_, hrest⟩
      change s.intervals.filter _ = []
      rw [hintervals]
      rfl
  · exact h

/-- Polling is no matter of sockets and timeouts. -/
theorem startPoll_eq (s : State) : s.startPoll.sockets = s.sockets ∧
    s.startPoll.timeouts = s.timeouts ∧ s.startPoll.closed = s.closed := by
  unfold State.startPoll
  split <;> exact ⟨rfl, rfl, rfl⟩

/-- A page without sockets and timeouts connects. -/
theorem Kept.connect (h : Kept s) (hmounted : s.closed = false) (hsockets : s.sockets = [])
    (htimeouts : s.timeouts = []) (made : Bool) : Kept (s.connect made) := by
  unfold State.connect
  split
  · refine ⟨.inr ⟨s.fresh, ?_, rfl⟩, .inl htimeouts, .inr htimeouts, h.polled, fun hclosed => ?_⟩
    · change s.fresh :: s.sockets = _
      rw [hsockets]
    · exact absurd (hmounted.symm.trans hclosed) nofun
  · exact h.startPoll hmounted

/-- A page that was just made is in order. -/
theorem kept_mounted (made : Bool) : Kept (.mounted made) := by
  refine Kept.connect ⟨.inl rfl, .inl rfl, .inl rfl, fun _ => rfl, ?_⟩ rfl rfl rfl made
  intro hclosed
  cases hclosed

/-- Telling a socket to close leaves it there. -/
theorem Kept.closeSocket (h : Kept s) : Kept s.closeSocket := by
  refine ⟨h.sockets, h.timeouts, h.alone, h.polled, fun hclosed => ?_⟩
  obtain ⟨hintervals, htimeouts, hclosing⟩ := h.ended hclosed
  exact ⟨hintervals, htimeouts, fun k hk => List.mem_append_right _ (hclosing k hk)⟩

/-- A timeout is set where nothing is left to wait for. -/
theorem Kept.dialLater (h : Kept s) (hmounted : s.closed = false) (hsockets : s.sockets = [])
    (htimeouts : s.timeouts = []) : Kept s.dialLater := by
  refine ⟨h.sockets, .inr ⟨_, ?_, rfl⟩, .inl hsockets, h.polled, fun hclosed => ?_⟩
  · change s.fresh :: s.timeouts = _
    rw [htimeouts]
  · exact absurd (hmounted.symm.trans hclosed) nofun

/-- A closed socket is followed by a timeout, or by nothing. -/
theorem Kept.onClose (h : Kept s) {k : Nat} (hopen : k ∈ s.sockets) :
    Kept { s with sockets := s.sockets.filter fun j => j ≠ k }.onClose := by
  have hone := (sole_member h.sockets hopen).1
  have hquiet : s.timeouts = [] := by
    refine h.alone.resolve_left ?_
    rw [hone]
    nofun
  have hgone := filter_sole hone
  have hless : Kept { s with sockets := s.sockets.filter fun j => j ≠ k } := by
    refine ⟨.inl hgone, h.timeouts, .inl hgone, h.polled, fun hclosed => ?_⟩
    obtain ⟨hintervals, htimeouts, hclosing⟩ := h.ended hclosed
    exact ⟨hintervals, htimeouts, fun j hj => hclosing j (List.mem_of_mem_filter hj)⟩
  unfold State.onClose
  split
  · exact hless
  · rename_i hmounted
    have hmounted : s.closed = false := Bool.eq_false_iff.mpr hmounted
    obtain ⟨hsockets, htimeouts, hclosed⟩ :=
      startPoll_eq { s with sockets := s.sockets.filter fun j => j ≠ k }
    exact (hless.startPoll hmounted).dialLater (hclosed.trans hmounted) (hsockets.trans hgone)
      (htimeouts.trans hquiet)

/-- A timeout that is over is followed by a socket. -/
theorem Kept.fired (h : Kept s) {k : Nat} (hdue : k ∈ s.timeouts) (made : Bool) :
    Kept ({ s with timeouts := s.timeouts.filter fun j => j ≠ k }.connect made) := by
  have hone := (sole_member h.timeouts hdue).1
  have hsockets : s.sockets = [] := by
    refine h.alone.resolve_right ?_
    rw [hone]
    nofun
  have hmounted : s.closed = false := by
    refine Bool.eq_false_iff.mpr fun hclosed => ?_
    rw [(h.ended hclosed).2.1] at hdue
    cases hdue
  have hgone := filter_sole hone
  have hless : Kept { s with timeouts := s.timeouts.filter fun j => j ≠ k } := by
    refine ⟨h.sockets, .inl hgone, .inl hsockets, h.polled, fun hclosed => ?_⟩
    exact absurd (hmounted.symm.trans hclosed) nofun
  exact hless.connect hmounted hsockets hgone made

/-- The cleanup ends what the variables name, which is all there is. -/
theorem Kept.unmount (h : Kept s) (hmounted : s.closed = false) : Kept s.unmount := by
  have hintervals : s.intervals.filter (fun i => some i ≠ s.poll) = [] := by
    rw [h.polled hmounted]
    cases s.poll <;> simp
  have htimeouts : s.timeouts.filter (fun i => some i ≠ s.retry) = [] := by
    rcases h.timeouts with hnone | ⟨k, hk, hretry⟩
    · rw [hnone]
      rfl
    · rw [hk, hretry]
      simp
  have hclosing : ∀ k ∈ s.sockets, k ∈ s.socket.toList ++ s.closing := by
    intro k hk
    rw [(sole_member h.sockets hk).2]
    exact List.mem_append_left _ List.mem_cons_self
  refine ⟨h.sockets, .inl htimeouts, .inr htimeouts, fun hopen => ?_,
    fun _ => ⟨hintervals, htimeouts, hclosing⟩⟩
  cases hopen

/-- Every step keeps the page in order. -/
theorem kept_step (h : Kept s) (hstep : Step s e s') : Kept s' := by
  cases hstep with
  | message hopen hheard => exact h.stopPoll
  | error hopen => exact h.closeSocket
  | close hopen => exact h.onClose hopen
  | fire made hdue => exact h.fired hdue made
  | unmount hmounted => exact h.unmount hmounted

/-- So it is in order in every run. -/
theorem kept_run (h : Run made log s) : Kept s := by
  induction h with
  | start => exact kept_mounted _
  | step _ hstep ih => exact kept_step ih hstep

/-! ## News -/

/-- It polls once polling was started. -/
theorem startPoll_poll (s : State) : s.startPoll.poll ≠ none := by
  unfold State.startPoll
  split
  · rename_i i hpoll
    rw [hpoll]
    nofun
  · nofun

/-- Stopping is no matter of sockets and timeouts either. -/
theorem stopPoll_eq (s : State) : s.stopPoll.sockets = s.sockets ∧
    s.stopPoll.timeouts = s.timeouts ∧ s.stopPoll.closed = s.closed := by
  unfold State.stopPoll
  split <;> exact ⟨rfl, rfl, rfl⟩

/-- A page that is there and has no socket polls. -/
def Covered (s : State) : Prop := s.closed = false → s.sockets = [] → s.poll ≠ none

/-- It has a socket or will dial again. -/
def Dialing (s : State) : Prop := s.closed = false → s.sockets ≠ [] ∨ s.timeouts ≠ []

/-- Whoever connects has a socket or polls. -/
theorem covered_connect (s : State) (made : Bool) : Covered (s.connect made) := by
  unfold State.connect
  split
  · intro _ hnone
    cases hnone
  · exact fun _ _ => startPoll_poll s

/-- While there is no socket it polls. -/
theorem covered_step (h : Covered s) (hstep : Step s e s') : Covered s' := by
  cases hstep with
  | message hopen hheard =>
    intro _ hnone
    rw [(stopPoll_eq s).1] at hnone
    rw [hnone] at hopen
    cases hopen
  | error hopen => exact h
  | close hopen =>
    unfold State.onClose
    split
    · rename_i hclosed
      intro hmounted
      exact absurd (hmounted.symm.trans hclosed) nofun
    · exact fun _ _ => startPoll_poll _
  | fire made hdue => exact covered_connect _ made
  | unmount hmounted =>
    intro hopen
    cases hopen

/-- It has a socket or will dial again as long as the browser makes them. -/
theorem dialing_step (h : Dialing s) (hstep : Step s e s') (hmade : ∀ k, e ≠ .fired k false) :
    Dialing s' := by
  cases hstep with
  | message hopen hheard =>
    obtain ⟨hsockets, htimeouts, hclosed⟩ := stopPoll_eq s
    intro hmounted
    rw [hsockets, htimeouts]
    exact h (hclosed.symm.trans hmounted)
  | error hopen => exact h
  | close hopen =>
    unfold State.onClose
    split
    · rename_i hclosed
      intro hmounted
      exact absurd (hmounted.symm.trans hclosed) nofun
    · exact fun _ => .inr nofun
  | @fire k made hdue =>
    cases made with
    | false => exact absurd rfl (hmade k)
    | true => exact fun _ => .inl nofun
  | unmount hmounted =>
    intro hopen
    cases hopen

/-- While a page is there it has one interval when it has no socket, none but the one its
variable names, and a socket or a timeout but not two of them; unless the browser would
not make a socket it always has one of these. When it is gone, no interval and no timeout
is left, and its sockets were told to close. -/
theorem page_keeps_up {made : Bool} {log : List Event} {s : State} (h : Run made log s) :
    s.sockets.length + s.timeouts.length ≤ 1 ∧
    (s.closed = false → s.intervals = s.poll.toList ∧ (s.sockets = [] → s.intervals ≠ []) ∧
      (made = true → (∀ k, .fired k false ∉ log) → s.sockets ≠ [] ∨ s.timeouts ≠ [])) ∧
    (s.closed = true → s.intervals = [] ∧ s.timeouts = [] ∧ ∀ k ∈ s.sockets, k ∈ s.closing) := by
  have hkept := kept_run h
  refine ⟨?_, fun hmounted => ⟨hkept.polled hmounted, ?_, ?_⟩, hkept.ended⟩
  · have hsockets := length_le hkept.sockets
    have htimeouts := length_le hkept.timeouts
    rcases hkept.alone with hnone | hnone
    · rw [hnone, List.length_nil]
      omega
    · rw [hnone, List.length_nil]
      omega
  · have hcovered : Covered s := by
      clear hmounted hkept
      induction h with
      | start => exact covered_connect _ _
      | step _ hstep ih => exact covered_step ih hstep
    intro hnone hempty
    refine hcovered hmounted hnone ?_
    cases hpoll : s.poll with
    | none => rfl
    | some i =>
      rw [hkept.polled hmounted, hpoll] at hempty
      cases hempty
  · intro hmade hfired
    have hdialing : Dialing s := by
      clear hmounted hkept
      induction h with
      | start =>
        subst hmade
        exact fun _ => .inl nofun
      | @step log s s' e _ hstep ih =>
        refine dialing_step (ih fun k hk => hfired k (List.mem_cons_of_mem e hk)) hstep ?_
        rintro k rfl
        exact hfired k List.mem_cons_self
    exact hdialing hmounted

/-- A hub that restarts under a page, which is then left. -/
theorem page_keeps_up_restart : ∃ s, Run true
    [.unmounted, .message 3, .fired 2 true, .closed 0] s ∧ s.intervals = [] ∧ s.timeouts = [] := by
  have hclosed := (Run.start true).step (.close (k := 0) List.mem_cons_self)
  have hfired := hclosed.step (.fire (k := 2) true List.mem_cons_self)
  have hheard := hfired.step (.message (k := 3) List.mem_cons_self List.not_mem_nil)
  have hleft := hheard.step (.unmount rfl)
  obtain ⟨hintervals, htimeouts, -⟩ := (page_keeps_up hleft).2.2 rfl
  exact ⟨_, hleft, hintervals, htimeouts⟩

end Romi.LivePage
