import Romi.LoggedRuns

/-!
# The connections of an agent, one after another

An agent dials its hub, introduces itself, reports at its interval and sends what
its probes measured until the connection ends; then it rests and dials again. The
clock counts milliseconds. Time passes only while the agent waits for something,
and never past the moment at which a timer ends the waiting.
-/

namespace Romi.AgentLoop

/-- `HUB_SILENCE`. -/
def hubSilence : Nat := 90000

/-- `CONNECT_DEADLINE`. -/
def connectDeadline : Nat := 120000

/-- `remaining`. -/
def remaining (lastFrame now : Nat) : Nat := hubSilence - (now - lastFrame)

/-- `reconnect_wait`, in seconds, after a session of so many milliseconds. -/
def reconnectWait (previous lasted : Nat) : Nat :=
  if 30000 ≤ lasted then 1 else max 1 (min (previous * 2) 60)

/-! ## The interval -/

/-- An interval that `report_interval` accepts, in seconds. -/
structure Interval where
  /-- How many seconds. -/
  seconds : Nat
  /-- No fewer than three, no more than a minute. -/
  bounds : 3 ≤ seconds ∧ seconds ≤ 60

/-- When the ticker is ready after a tick that was due at one time and taken at
another: `MissedTickBehavior::Delay` starts the interval anew, but a tick that is
taken within five milliseconds is not a missed one. -/
def Interval.next (i : Interval) (due now : Nat) : Nat :=
  if due + 5 < now then now + i.seconds * 1000 else due + i.seconds * 1000

/-! ## The loop -/

/-- A session whose hello is out. -/
structure Session where
  /-- When the handshake was done. -/
  connected : Nat
  /-- When something last came from the hub. -/
  lastFrame : Nat
  /-- When the ticker is next ready. -/
  tick : Nat

/-- What the agent waits for. -/
inductive Phase
  /-- For the handshake, since then. -/
  | dialing (since : Nat)
  /-- The hello is being written. -/
  | greeting (connected : Nat)
  /-- For a frame, a result or the next tick. -/
  | listening (session : Session)
  /-- For a message to be written, until it is given up. -/
  | writing (session : Session) (due : Nat)
  /-- For the end of a rest. -/
  | resting (due : Nat)

/-- When a timer ends the waiting. -/
def Phase.deadline : Phase → Nat
  | .dialing since => since + connectDeadline
  | .greeting connected => connected + hubSilence
  | .listening session => min (session.lastFrame + hubSilence) session.tick
  | .writing _ due => due
  | .resting due => due

/-- When the handshake of the session was done. -/
def Phase.connected : Phase → Option Nat
  | .greeting connected => some connected
  | .listening session | .writing session _ => some session.connected
  | .dialing _ | .resting _ => none

/-- An agent and its clock. -/
structure State where
  /-- The time, in milliseconds. -/
  now : Nat
  /-- Seconds of the last rest. -/
  wait : Nat
  /-- What it waits for. -/
  phase : Phase

/-- An agent that was just started. -/
def State.fresh (now : Nat) : State := ⟨now, 0, .dialing now⟩

/-- The session ended, or never began. -/
def State.rest (s : State) : State :=
  let wait := reconnectWait s.wait (s.phase.connected.elim 0 fun connected => s.now - connected)
  { s with wait := wait, phase := .resting (s.now + wait * 1000) }

/-- Why a session ends. -/
inductive Ending
  /-- The connection failed or was closed. -/
  | failed
  /-- No frame from the hub, or a write stalled. -/
  | silent

/-- What is seen to happen, and when. -/
inductive Event
  /-- Nothing that is told of. -/
  | unseen
  /-- The agent begins to dial. -/
  | dialed (now : Nat)
  /-- The handshake is done. -/
  | connected (now : Nat)
  /-- The hub was heard. -/
  | heard (now : Nat)
  /-- A report is on its way. -/
  | reported (now : Nat)
  /-- The session ended, or never began. -/
  | ended (why : Ending) (now : Nat)

/-- The state while a message is written. -/
def State.write (s : State) (session : Session) : State :=
  { s with phase := .writing session (s.now + remaining session.lastFrame s.now) }

/-- One step of the agent, of the network or of the clock. -/
inductive Step (i : Interval) (s : State) : Event → State → Prop
  /-- Time goes by, no further than to the next timer. -/
  | pass (duration : Nat) (hin : s.now + duration ≤ s.phase.deadline) :
      Step i s .unseen { s with now := s.now + duration }
  /-- The handshake is done. -/
  | connect {since : Nat} (hat : s.phase = .dialing since) :
      Step i s (.connected s.now) { s with phase := .greeting s.now }
  -- refused, or the deadline has passed
  /-- The connection is refused, or the deadline has passed. -/
  | refuse {since : Nat} (hat : s.phase = .dialing since) : Step i s (.ended .failed s.now) s.rest
  -- the first tick of a new ticker is due at once
  /-- The hello is out, and the ticker is new. -/
  | greet {connected : Nat} (hat : s.phase = .greeting connected) :
      Step i s .unseen { s with phase := .listening ⟨connected, connected, s.now⟩ }
  /-- The ticker is ready. -/
  | report {session : Session} (hat : s.phase = .listening session) (hdue : session.tick ≤ s.now) :
      Step i s (.reported s.now) (s.write { session with tick := i.next session.tick s.now })
  -- what a probe measured
  /-- A result is to be sent. -/
  | relay {session : Session} (hat : s.phase = .listening session) :
      Step i s .unseen (s.write session)
  /-- A frame comes. -/
  | hear {session : Session} (hat : s.phase = .listening session) :
      Step i s (.heard s.now) { s with phase := .listening { session with lastFrame := s.now } }
  /-- The message is written. -/
  | written {session : Session} {due : Nat} (hat : s.phase = .writing session due) :
      Step i s .unseen { s with phase := .listening session }
  /-- The connection breaks. -/
  | fail {connected : Nat} (hat : s.phase.connected = some connected) :
      Step i s (.ended .failed s.now) s.rest
  /-- Nothing was heard for too long. -/
  | silence {session : Session} (hat : s.phase = .listening session)
      (hnone : remaining session.lastFrame s.now = 0) : Step i s (.ended .silent s.now) s.rest
  /-- The hello could not be written in that time. -/
  | snub {connected : Nat} (hat : s.phase = .greeting connected)
      (hdue : connected + hubSilence ≤ s.now) : Step i s (.ended .silent s.now) s.rest
  /-- Nor could the message. -/
  | stall {session : Session} {due : Nat} (hat : s.phase = .writing session due)
      (hdue : due ≤ s.now) : Step i s (.ended .silent s.now) s.rest
  /-- The rest is over. -/
  | wake {due : Nat} (hat : s.phase = .resting due) (hdue : due ≤ s.now) :
      Step i s (.dialed s.now) { s with phase := .dialing s.now }

/-- A run of the agent, the newest event first. -/
abbrev Run (i : Interval) : State → List Event → State → Prop := LoggedRuns.Run (Step i)

end Romi.AgentLoop
