import Romi.AgentWatchdog

/-!
# How often an agent dials and reports

The rests between sessions that fail soon grow to a minute; a session that lasted
half a minute makes the next rest a second. What one attempt costs in time is
saved up against the attempts that follow.
-/

namespace Romi.AgentPace

open AgentLoop AgentWatchdog

variable {i : Interval} {start : Nat} {log : List Event} {s s' : State} {e : Event}

/-! ## Attempts -/

/-- The rests there are, in seconds; none was had at first. -/
def waits : List Nat := [0, 1, 2, 4, 8, 16, 32, 60]

/-- What an agent with this rest behind it has in hand, in quarters of a second: of
all patterns, one long session with three short ones after it has the most attempts
for its time. -/
def credit : Nat → Nat
  | 0 => 120
  | 1 => 79
  | 2 => 42
  | 4 => 13
  | _ => 0

/-- An attempt that fails soon costs its rest. -/
theorem credit_next : ∀ w ∈ waits, reconnectWait w 0 ∈ waits ∧
    45 + credit (reconnectWait w 0) ≤ 4 * reconnectWait w 0 + credit w := by decide

/-- No rest leaves more than half a minute in hand. -/
theorem credit_le : ∀ w ∈ waits, credit w ≤ 120 := by decide

/-- A session of less than half a minute rests as a failed attempt does. -/
theorem reconnectWait_short {previous lasted : Nat} (h : lasted < 30000) :
    reconnectWait previous lasted = reconnectWait previous 0 := by
  unfold reconnectWait
  rw [if_neg (not_le.mpr h), if_neg (by decide)]

/-- After a longer one the rests start over. -/
theorem reconnectWait_long {previous lasted : Nat} (h : 30000 ≤ lasted) :
    reconnectWait previous lasted = 1 := if_pos h

/-- The event is an attempt to connect. -/
def isDial : Event → Bool
  | .dialed _ => true
  | _ => false

/-- So many attempts since a mark, the one under way included, took so long. -/
def Paid (mark attempts wait now : Nat) : Prop :=
  45000 * attempts + 4 * mark + 1000 * credit wait ≤ 4 * now + 165000

/-- What a phase tells of the attempts since a mark. -/
def Paced (mark attempts wait : Nat) : Phase → Prop
  | .dialing since => Paid mark attempts wait since
  | .greeting connected => Paid mark attempts wait connected
  | .listening session | .writing session _ => Paid mark attempts wait session.connected
  | .resting due => Paid mark (attempts + 1) wait due

variable {mark attempts wait : Nat}

/-- What is paid stays paid. -/
theorem Paid.later {now later : Nat} (h : Paid mark attempts wait now) (hle : now ≤ later) :
    Paid mark attempts wait later := by
  unfold Paid at h ⊢
  omega

/-- A session was paid for when it was connected. -/
theorem Paced.session {phase : Phase} {connected : Nat} (h : Paced mark attempts wait phase)
    (hat : phase.connected = some connected) : Paid mark attempts wait connected := by
  cases phase with
  | dialing since => cases hat
  | greeting t =>
    cases hat
    exact h
  | listening session =>
    cases hat
    exact h
  | writing session due =>
    cases hat
    exact h
  | resting due => cases hat

/-- So is the next one. -/
theorem rest_wait (h : s.wait ∈ waits) : s.rest.wait ∈ waits := by
  unfold State.rest
  dsimp only
  rcases lt_or_ge (s.phase.connected.elim 0 fun t => s.now - t) 30000 with hshort | hlong
  · rw [reconnectWait_short hshort]
    exact (credit_next s.wait h).1
  · rw [reconnectWait_long hlong]
    decide

/-- A rest makes up for the attempt before it. -/
theorem rest_paced {began : Nat} (hwait : s.wait ∈ waits) (hpaid : Paid mark attempts s.wait began)
    (hbegan : began ≤ s.now)
    (hlong : 30000 ≤ s.phase.connected.elim 0 (fun t => s.now - t) → began + 30000 ≤ s.now) :
    Paced mark attempts s.rest.wait s.rest.phase := by
  unfold State.rest Paced
  dsimp only
  unfold Paid at hpaid ⊢
  rcases lt_or_ge (s.phase.connected.elim 0 fun t => s.now - t) 30000 with hshort | hlasted
  · have hnext := (credit_next s.wait hwait).2
    rw [reconnectWait_short hshort]
    omega
  · have hnow := hlong hlasted
    have hone : credit 1 = 79 := rfl
    rw [reconnectWait_long hlasted, hone]
    omega

/-- The pace since a mark; before the first attempt there is nothing to tell. -/
structure Pace (mark attempts : Nat) (s : State) : Prop where
  /-- The last rest is one there is. -/
  wait : s.wait ∈ waits
  /-- The mark has passed. -/
  past : mark ≤ s.now
  /-- The attempts since then took their time. -/
  spent : 45000 * attempts + 4 * mark ≤ 4 * s.now + 165000
  /-- And so the phase tells, from the first one on. -/
  paced : 0 < attempts → Paced mark attempts s.wait s.phase

/-- A session that ends keeps the pace. -/
theorem Pace.rest_session {c : Contact} {connected : Nat} (h : Pace mark attempts s)
    (htimely : Timely c s.now s.phase) (hat : s.phase.connected = some connected) :
    Pace mark attempts s.rest := by
  obtain ⟨last, -, hlast, hnow, -⟩ := htimely.session hat
  refine ⟨rest_wait h.wait, h.past, h.spent, fun hsome => ?_⟩
  refine rest_paced h.wait ((h.paced hsome).session hat) (le_trans hlast hnow) ?_
  rw [hat]
  dsimp only [Option.elim_some]
  omega

/-- A step that is no attempt and keeps the phase's beginning keeps the pace. -/
theorem Pace.same (h : Pace mark attempts s) {now : Nat} (hnow : s.now ≤ now) {phase : Phase}
    (hphase : Paced mark attempts s.wait s.phase → Paced mark attempts s.wait phase) :
    Pace mark attempts { s with now := now, phase := phase } :=
  ⟨h.wait, le_trans h.past hnow,
    le_trans h.spent (Nat.add_le_add_right (Nat.mul_le_mul_left 4 hnow) _),
    fun hsome => hphase (h.paced hsome)⟩

/-- One step, which is an attempt or not. -/
theorem pace_step {c : Contact} (h : Pace mark attempts s) (htimely : Timely c s.now s.phase)
    (hstep : Step i s e s') : Pace mark (attempts + if isDial e then 1 else 0) s' := by
  cases hstep with
  | pass duration hin => exact h.same (Nat.le_add_right _ _) id
  | connect hat =>
    rw [hat] at htimely
    refine h.same (le_refl _) fun hpaced => ?_
    rw [hat] at hpaced
    exact Paid.later hpaced htimely.2.1
  | refuse hat =>
    rw [hat] at htimely
    refine ⟨rest_wait h.wait, h.past, h.spent, fun hsome => ?_⟩
    have hpaced := h.paced hsome
    rw [hat] at hpaced
    refine rest_paced h.wait hpaced htimely.2.1 ?_
    rw [hat]
    intro hlong
    exact absurd (show 30000 ≤ 0 from hlong) (by decide)
  | greet hat =>
    refine h.same (le_refl _) fun hpaced => ?_
    rw [hat] at hpaced
    exact hpaced
  | report hat hdue =>
    refine h.same (le_refl _) fun hpaced => ?_
    rw [hat] at hpaced
    exact hpaced
  | relay hat =>
    refine h.same (le_refl _) fun hpaced => ?_
    rw [hat] at hpaced
    exact hpaced
  | hear hat =>
    refine h.same (le_refl _) fun hpaced => ?_
    rw [hat] at hpaced
    exact hpaced
  | written hat =>
    refine h.same (le_refl _) fun hpaced => ?_
    rw [hat] at hpaced
    exact hpaced
  | fail hat => exact h.rest_session htimely hat
  | silence hat hnone => exact h.rest_session htimely (by rw [hat]; rfl)
  | snub hat hdue => exact h.rest_session htimely (by rw [hat]; rfl)
  | stall hat hdue => exact h.rest_session htimely (by rw [hat]; rfl)
  | wake hat hdue =>
    have hpaid : Paid mark (attempts + 1) s.wait s.now := by
      cases attempts with
      | zero =>
        have hcredit := credit_le s.wait h.wait
        have hpast := h.past
        unfold Paid
        omega
      | succ n =>
        have hpaced := h.paced (Nat.succ_pos n)
        rw [hat] at hpaced
        exact Paid.later hpaced hdue
    exact ⟨h.wait, h.past, le_trans (Nat.le_add_right _ _) hpaid, fun _ => hpaid⟩

/-- The pace of a piece of a run, since its first state. -/
theorem pace_piece {before mid : List Event} {s₁ s₂ : State}
    (htimely : Timely (contact start before) s₁.now s₁.phase) (hwait : s₁.wait ∈ waits)
    (h : Run i s₁ mid s₂) :
    Timely (contact start (mid ++ before)) s₂.now s₂.phase ∧
      Pace s₁.now (mid.countP isDial) s₂ := by
  induction h with
  | start =>
    exact ⟨htimely, hwait, le_refl _, by simp, fun hpos => absurd hpos (lt_irrefl 0)⟩
  | step hrest hstep ih =>
    obtain ⟨hlater, hpace⟩ := ih
    refine ⟨timely_step hlater hstep, ?_⟩
    rw [List.countP_cons]
    exact pace_step hpace hlater hstep

/-- An agent waits only for rests there are. -/
theorem wait_run (h : Run i (.fresh start) log s) : s.wait ∈ waits := by
  have hfresh : Timely (contact start []) (State.fresh start).now (State.fresh start).phase :=
    @timely_run i start [] _ .start
  exact (pace_piece hfresh (show (0 : Nat) ∈ waits by decide) h).2.wait

/-! ## Reports -/

/-- The event is the end of a session. -/
def isEnd : Event → Bool
  | .ended _ _ => true
  | _ => false

/-- The ticker of the session, if there is one, is not ready before a time. -/
def NotBefore (time : Nat) : Phase → Prop
  | .listening session | .writing session _ => time ≤ session.tick
  | .dialing _ | .greeting _ | .resting _ => False

/-- The next tick is an interval off, but for five milliseconds, and no earlier than this one.
-/
theorem next_le (i : Interval) {due now : Nat} (h : due ≤ now) :
    now + i.seconds * 1000 ≤ i.next due now + 5 ∧ due ≤ i.next due now := by
  unfold Interval.next
  split <;> omega

/-- Within a session the ticker only moves on. -/
theorem notBefore_step {time : Nat} (h : NotBefore time s.phase) (hend : isEnd e = false)
    (hstep : Step i s e s') : NotBefore time s'.phase := by
  cases hstep with
  | pass duration hin => exact h
  | connect hat =>
    rw [hat] at h
    exact h.elim
  | refuse hat => cases hend
  | greet hat =>
    rw [hat] at h
    exact h.elim
  | report hat hdue =>
    rw [hat] at h
    exact le_trans h (next_le i hdue).2
  | relay hat =>
    rw [hat] at h
    exact h
  | hear hat =>
    rw [hat] at h
    exact h
  | written hat =>
    rw [hat] at h
    exact h
  | fail hat => cases hend
  | silence hat hnone => cases hend
  | snub hat hdue => cases hend
  | stall hat hdue => cases hend
  | wake hat hdue =>
    rw [hat] at h
    exact h.elim

/-- A report is made when the ticker is ready, and moves it on by an interval. -/
theorem report_step {now : Nat} (hstep : Step i s (.reported now) s') :
    now = s.now ∧ (∀ time, NotBefore time s.phase → time ≤ now) ∧
      NotBefore (now + i.seconds * 1000 - 5) s'.phase := by
  cases hstep with
  | report hat hdue =>
    refine ⟨rfl, ?_, ?_⟩
    · intro time htime
      rw [hat] at htime
      exact le_trans htime hdue
    · have hnext := (next_le i hdue).1
      unfold State.write NotBefore
      dsimp only
      omega

/-- In any stretch of time an agent dials at most once for every eleven and a quarter
seconds and four times more, and in one session it reports no more often than its
interval says, up to the five milliseconds of the ticker. -/
theorem attempts_spaced {i : Interval} {start : Nat} {before mid : List Event} {s₁ s₂ : State}
    (hreach : Run i (.fresh start) before s₁) (h : Run i s₁ mid s₂) :
    45000 * mid.countP isDial ≤ 4 * (s₂.now - s₁.now) + 165000 ∧
    ∀ earlier between later t₁ t₂,
      mid = later ++ .reported t₂ :: (between ++ .reported t₁ :: earlier) →
      (∀ e ∈ between, isEnd e = false) → t₁ + i.seconds * 1000 ≤ t₂ + 5 := by
  constructor
  · have hpace := (pace_piece (timely_run hreach) (wait_run hreach) h).2
    have hpast := hpace.past
    have hspent := hpace.spent
    omega
  · intro earlier between later t₁ t₂ hmid hsession
    rw [hmid] at h
    obtain ⟨u₁, u₂, hbefore, hsecond, -⟩ := h.at
    obtain ⟨v₁, v₂, -, hfirst, hbetween⟩ := hbefore.at
    have hstart := (report_step hfirst).2.2
    have hkept := hbetween.keeps hsession hstart fun s e s' hs he hstep => notBefore_step hs he hstep
    have hle := (report_step hsecond).2.1 _ hkept
    omega

/-- A hub that refuses twice. -/
theorem attempts_spaced_refused :
    ∃ s, Run ⟨3, by decide⟩ (.fresh 0)
        [.dialed 3000, .unseen, .ended .failed 1000, .dialed 1000, .unseen, .ended .failed 0] s ∧
      45000 * 2 ≤ 4 * (s.now - 0) + 165000 := by
  have hfresh : Run ⟨3, by decide⟩ (.fresh 0) [] (.fresh 0) := .start
  have hfirst := ((hfresh.step (.refuse rfl)).step (.pass 1000 (le_refl 1000))).step
    (.wake rfl (le_refl 1000))
  have hsecond := ((hfirst.step (.refuse rfl)).step (.pass 2000 (le_refl 3000))).step
    (.wake rfl (le_refl 3000))
  exact ⟨_, hsecond, (attempts_spaced hfresh hsecond).1⟩

end Romi.AgentPace
