import Mathlib.Order.Nat
import Romi.AgentLoop

/-!
# When an agent gives up and when it comes back

One window of silence is all a hub gets, whatever the agent does in it, and an
agent whose session ended dials again soon, but not as often as it could.
-/

namespace Romi.AgentWatchdog

open AgentLoop

variable {i : Interval}

/-! ## The last contact -/

/-- What the agent last did or heard that counts. -/
inductive Contact
  /-- A dial began. -/
  | dialed (now : Nat)
  /-- A frame came in. -/
  | frame (now : Nat)

/-- The contact an event is, for the events that are one. -/
def contactOf : Event → Option Contact
  | .dialed now => some (.dialed now)
  | .connected now | .heard now => some (.frame now)
  | .unseen | .reported _ | .ended _ _ => none

/-- The last contact of an agent that was started at that time. -/
def contact (start : Nat) (log : List Event) : Contact :=
  (log.findSome? contactOf).getD (.dialed start)

variable {start : Nat} {log : List Event} {s s' : State} {e : Event}

/-- A contact is the last one. -/
theorem contact_of_some {c : Contact} (h : contactOf e = some c) : contact start (e :: log) = c := by
  unfold contact
  rw [List.findSome?_cons, h]
  rfl

/-- Any other event leaves the last contact as it was. -/
theorem contact_of_none (h : contactOf e = none) : contact start (e :: log) = contact start log := by
  unfold contact
  rw [List.findSome?_cons, h]

/-! ## The invariant -/

/-- How long a session may do without a frame. -/
structure Kept (session : Session) (now : Nat) : Prop where
  /-- The connection counts as a frame. -/
  connected : session.connected ≤ session.lastFrame
  /-- The last frame is not from the future. -/
  lastFrame : session.lastFrame ≤ now
  /-- The hub has been silent for no longer than the watchdog allows. -/
  silence : now ≤ session.lastFrame + hubSilence

/-- The latest time a rest may end after a contact. -/
def backBy : Contact → Nat
  | .dialed now => now + 180000
  | .frame now => now + 150000

/-- What the log says of a phase. -/
def Timely (c : Contact) (now : Nat) : Phase → Prop
  | .dialing since => c = .dialed since ∧ since ≤ now ∧ now ≤ since + connectDeadline
  | .greeting connected => c = .frame connected ∧ connected ≤ now ∧ now ≤ connected + hubSilence
  | .listening session => c = .frame session.lastFrame ∧ Kept session now
  | .writing session due =>
    c = .frame session.lastFrame ∧ Kept session now ∧ due = session.lastFrame + hubSilence
  | .resting due => now ≤ due ∧ due ≤ backBy c

/-- A wait between dials is of one second to sixty. -/
theorem reconnectWait_range (previous lasted : Nat) :
    1 ≤ reconnectWait previous lasted ∧ reconnectWait previous lasted ≤ 60 := by
  unfold reconnectWait
  split <;> omega

/-- A rest is over within a minute. -/
theorem rest_timely {c : Contact} (h : s.now + 60000 ≤ backBy c) :
    Timely c s.rest.now s.rest.phase := by
  unfold State.rest Timely
  dsimp only
  have hrange := reconnectWait_range s.wait (s.phase.connected.elim 0 fun t => s.now - t)
  omega

/-- A session is in its window of silence. -/
theorem Timely.session {c : Contact} {connected : Nat} (h : Timely c s.now s.phase)
    (hat : s.phase.connected = some connected) :
    ∃ last, c = .frame last ∧ connected ≤ last ∧ last ≤ s.now ∧ s.now ≤ last + hubSilence := by
  cases hphase : s.phase with
  | dialing since =>
    rw [hphase] at hat
    cases hat
  | greeting t =>
    rw [hphase] at hat h
    cases hat
    exact ⟨_, h.1, le_refl _, h.2.1, h.2.2⟩
  | listening session =>
    rw [hphase] at hat h
    cases hat
    exact ⟨_, h.1, h.2.connected, h.2.lastFrame, h.2.silence⟩
  | writing session due =>
    rw [hphase] at hat h
    cases hat
    exact ⟨_, h.1, h.2.1.connected, h.2.1.lastFrame, h.2.1.silence⟩
  | resting due =>
    rw [hphase] at hat
    cases hat

/-- Resting after a session keeps what was timely. -/
theorem Timely.rest_session {c : Contact} {connected : Nat} (h : Timely c s.now s.phase)
    (hat : s.phase.connected = some connected) : Timely c s.rest.now s.rest.phase := by
  obtain ⟨last, rfl, -, -, hsilence⟩ := h.session hat
  refine rest_timely ?_
  unfold hubSilence at hsilence
  unfold backBy
  dsimp only
  omega

/-- A write that begins in the window ends in it. -/
theorem Kept.due {session : Session} {now : Nat} (h : Kept session now) :
    now + remaining session.lastFrame now = session.lastFrame + hubSilence := by
  have hlast := h.lastFrame
  have hsilence := h.silence
  unfold remaining
  omega

/-- So does a write, however long it takes. -/
theorem Timely.write {c : Contact} {session : Session} (h : Timely c s.now s.phase)
    (hat : s.phase = .listening session) (tick : Nat) :
    Timely c (s.write { session with tick := tick }).now
      (s.write { session with tick := tick }).phase := by
  rw [hat] at h
  obtain ⟨hc, hkept⟩ := h
  exact ⟨hc, ⟨hkept.connected, hkept.lastFrame, hkept.silence⟩, hkept.due⟩

/-- Time passes within the phase. -/
theorem Timely.pass {c : Contact} {now duration : Nat} {phase : Phase} (h : Timely c now phase)
    (hin : now + duration ≤ phase.deadline) : Timely c (now + duration) phase := by
  cases phase with
  | dialing since => exact ⟨h.1, le_trans h.2.1 (Nat.le_add_right _ _), hin⟩
  | greeting connected => exact ⟨h.1, le_trans h.2.1 (Nat.le_add_right _ _), hin⟩
  | listening session =>
    obtain ⟨hc, hkept⟩ := h
    exact ⟨hc, hkept.connected, le_trans hkept.lastFrame (Nat.le_add_right _ _),
      le_trans hin (Nat.min_le_left _ _)⟩
  | writing session due =>
    obtain ⟨hc, hkept, hdue⟩ := h
    refine ⟨hc, ⟨hkept.connected, le_trans hkept.lastFrame (Nat.le_add_right _ _), ?_⟩, hdue⟩
    rw [← hdue]
    exact hin
  | resting due => exact ⟨hin, h.2⟩

/-- No phase lasts longer than a rest after it may. -/
theorem Timely.now_le {c : Contact} {now : Nat} {phase : Phase} (h : Timely c now phase) :
    now ≤ backBy c := by
  unfold backBy
  cases phase with
  | dialing since =>
    obtain ⟨rfl, -, hnow⟩ := h
    exact le_trans hnow (Nat.add_le_add_left (by decide) _)
  | greeting connected =>
    obtain ⟨rfl, -, hnow⟩ := h
    exact le_trans hnow (Nat.add_le_add_left (by decide) _)
  | listening session =>
    obtain ⟨rfl, hkept⟩ := h
    exact le_trans hkept.silence (Nat.add_le_add_left (by decide) _)
  | writing session due =>
    obtain ⟨rfl, hkept, -⟩ := h
    exact le_trans hkept.silence (Nat.add_le_add_left (by decide) _)
  | resting due => exact le_trans h.1 h.2

/-- Every step keeps to the last contact. -/
theorem timely_step (h : Timely (contact start log) s.now s.phase) (hstep : Step i s e s') :
    Timely (contact start (e :: log)) s'.now s'.phase := by
  cases hstep with
  | pass duration hin => exact h.pass hin
  | connect hat =>
    rw [@contact_of_some _ _ _ (.frame s.now) rfl]
    exact ⟨rfl, le_refl _, Nat.le_add_right _ _⟩
  | refuse hat =>
    rw [hat] at h
    obtain ⟨hc, -, hnow⟩ := h
    rw [contact_of_none rfl, hc]
    refine rest_timely ?_
    unfold connectDeadline at hnow
    unfold backBy
    dsimp only
    omega
  | greet hat =>
    rw [hat] at h
    rw [contact_of_none rfl]
    exact ⟨h.1, le_refl _, h.2.1, h.2.2⟩
  | report hat hdue =>
    rw [contact_of_none rfl]
    exact h.write hat _
  | relay hat =>
    rw [contact_of_none rfl]
    exact h.write hat _
  | hear hat =>
    rw [hat] at h
    rw [@contact_of_some _ _ _ (.frame s.now) rfl]
    exact ⟨rfl, le_trans h.2.connected h.2.lastFrame, le_refl _, Nat.le_add_right _ _⟩
  | written hat =>
    rw [hat] at h
    rw [contact_of_none rfl]
    exact ⟨h.1, h.2.1⟩
  | fail hat =>
    rw [contact_of_none rfl]
    exact h.rest_session hat
  | silence hat hnone =>
    rw [contact_of_none rfl]
    exact h.rest_session (by rw [hat]; rfl)
  | snub hat hdue =>
    rw [contact_of_none rfl]
    exact h.rest_session (by rw [hat]; rfl)
  | stall hat hdue =>
    rw [contact_of_none rfl]
    exact h.rest_session (by rw [hat]; rfl)
  | wake hat hdue =>
    rw [@contact_of_some _ _ _ (.dialed s.now) rfl]
    exact ⟨rfl, le_refl _, Nat.le_add_right _ _⟩

/-- By induction on the run, an agent is timely in every state. -/
theorem timely_run (h : Run i (.fresh start) log s) :
    Timely (contact start log) s.now s.phase := by
  induction h with
  | start => exact ⟨rfl, le_refl _, Nat.le_add_right _ _⟩
  | step _ hstep ih => exact timely_step ih hstep

/-! ## Giving up -/

/-- An agent gives up on a hub when the window is over. -/
theorem silent_step (h : Timely (contact start log) s.now s.phase) {now : Nat}
    (hstep : Step i s (.ended .silent now) s') :
    ∃ last, contact start log = .frame last ∧ now = last + hubSilence := by
  cases hstep with
  | silence hat hnone =>
    rename_i session
    rw [hat] at h
    have hdue := h.2.due
    rw [hnone] at hdue
    exact ⟨_, h.1, hdue⟩
  | snub hat hdue =>
    rw [hat] at h
    exact ⟨_, h.1, le_antisymm h.2.2 hdue⟩
  | stall hat hdue =>
    rw [hat] at h
    obtain ⟨hc, hkept, rfl⟩ := h
    exact ⟨_, hc, le_antisymm hkept.silence hdue⟩

/-- A state from which time can pass. -/
theorem pass_one (h : s.now < s.phase.deadline) :
    ∃ log' s', Run i s log' s' ∧ s.now < s'.now :=
  ⟨_, _, LoggedRuns.Run.start.step (.pass 1 h), Nat.lt_succ_self _⟩

/-- After a step that takes no time. -/
theorem after_step (hstep : Step i s e s') (hnow : s'.now = s.now) (h : s'.now < s'.phase.deadline) :
    ∃ log' s', Run i s log' s' ∧ s.now < s'.now := by
  refine ⟨_, _, (LoggedRuns.Run.start.step hstep).step (.pass 1 h), ?_⟩
  exact lt_of_le_of_lt (le_of_eq hnow.symm) (Nat.lt_succ_self _)

/-- A rest takes time. -/
theorem rest_deadline (s : State) : s.rest.now < s.rest.phase.deadline := by
  unfold State.rest Phase.deadline
  dsimp only
  have hrange := reconnectWait_range s.wait (s.phase.connected.elim 0 fun t => s.now - t)
  omega

/-- The clock never stops for good: where a timer has ended the waiting, the agent
goes on by itself. -/
theorem time_goes_on (i : Interval) (s : State) : ∃ log' s', Run i s log' s' ∧ s.now < s'.now := by
  rcases lt_or_ge s.now s.phase.deadline with hpass | hover
  · exact pass_one hpass
  · cases hphase : s.phase with
    | dialing since => exact after_step (.refuse hphase) rfl (rest_deadline s)
    | greeting connected =>
      rw [hphase] at hover
      exact after_step (.snub hphase hover) rfl (rest_deadline s)
    | listening session =>
      rw [hphase] at hover
      cases hremaining : remaining session.lastFrame s.now with
      | zero => exact after_step (.silence hphase hremaining) rfl (rest_deadline s)
      | succ left =>
        have hdue : session.tick ≤ s.now := by
          unfold Phase.deadline at hover
          unfold remaining at hremaining
          dsimp only at hover
          omega
        refine after_step (.report hphase hdue) rfl ?_
        unfold State.write Phase.deadline
        dsimp only
        omega
    | writing session due =>
      rw [hphase] at hover
      exact after_step (.stall hphase hover) rfl (rest_deadline s)
    | resting due =>
      rw [hphase] at hover
      refine after_step (.wake hphase hover) rfl ?_
      unfold Phase.deadline connectDeadline
      dsimp only
      omega

/-- A session ends for silence a minute and a half after the last frame from the hub,
no sooner and no later, also while a message is being written. An agent that hears
nothing more is dialing again a minute after that, and one that cannot connect
within three minutes of dialing. The clock goes on from wherever the agent is. -/
theorem hub_silence_bounded {i : Interval} {start : Nat} {log : List Event} {s : State}
    (h : Run i (.fresh start) log s) :
    (∀ before after now, log = after ++ .ended .silent now :: before →
      ∃ last, contact start before = .frame last ∧ now = last + hubSilence) ∧
    (∀ last, contact start log = .frame last →
      (s.phase.connected ≠ none → s.now ≤ last + hubSilence) ∧ s.now ≤ last + 150000) ∧
    (∀ dialed, contact start log = .dialed dialed → s.now ≤ dialed + 180000) ∧
    ∃ log' s', Run i s log' s' ∧ s.now < s'.now := by
  have htimely := timely_run h
  refine ⟨?_, ?_, ?_, time_goes_on i s⟩
  · intro before after now hlog
    rw [hlog] at h
    obtain ⟨s₁, s₂, hbefore, hstep, -⟩ := h.at
    exact silent_step (timely_run hbefore) hstep
  · intro last hlast
    constructor
    · intro hsession
      obtain ⟨connected, hat⟩ := Option.ne_none_iff_exists'.mp hsession
      obtain ⟨last', hlast', -, -, hsilence⟩ := htimely.session hat
      rw [hlast] at hlast'
      cases hlast'
      exact hsilence
    · have hnow := htimely.now_le
      rwa [hlast] at hnow
  · intro dialed hdialed
    have hnow := htimely.now_le
    rwa [hdialed] at hnow

/-- A hub that never takes the first report. -/
theorem hub_silence_bounded_report :
    ∃ s, Run ⟨3, by decide⟩ (.fresh 0)
        [.ended .silent 90000, .unseen, .reported 0, .unseen, .connected 0] s ∧
      s.now ≤ 0 + 150000 := by
  have hdialing : Run ⟨3, by decide⟩ (.fresh 0) [] (.fresh 0) := .start
  have hgreeted := (hdialing.step (.connect rfl)).step (.greet rfl)
  have hreported := (hgreeted.step (.report rfl (le_refl 0))).step (.pass 90000 (le_refl 90000))
  have hended := hreported.step (.stall rfl (le_refl 90000))
  exact ⟨_, hended, ((hub_silence_bounded hended).2.1 0 rfl).2⟩

end Romi.AgentWatchdog
