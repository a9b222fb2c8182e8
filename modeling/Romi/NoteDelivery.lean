import Romi.AgentCounters
import Romi.NotifySweep
import Romi.StoreAnswers

/-!
# From the queue of notes to the channels

Whoever has an alert queues it without waiting. One task takes the notes out in
their order and tries every channel that is configured then, each up to three
times, before it takes the next. Meanwhile notes go on arriving and the
settings go on changing.
-/

namespace Romi.NoteDelivery

open NotifySweep StoreAnswers StoreSchema

/-! ## One channel -/

/-- `QUEUE`. -/
def queueSize : Nat := 64

/-- `ATTEMPTS`. -/
def attempts : Nat := 3

/-- How an attempt went. -/
inductive Answer
  /-- The stored headers cannot be sent. -/
  | unsendable (reason : String)
  /-- No response. -/
  | unreachable (reason : String)
  /-- A response with its status, also as it is displayed, and the start of its body. -/
  | response (code : Nat) (status head : String)

/-- `Failure`. -/
structure Failure where
  /-- Whether another attempt may go better. -/
  retry : Bool
  /-- What is logged. -/
  reason : String

/-- What `post` makes of it. -/
def outcome : Answer → Except Failure Unit
  | .unsendable reason => .error ⟨false, reason⟩
  | .unreachable reason => .error ⟨true, reason⟩
  | .response code status head =>
    if 200 ≤ code ∧ code < 300 then .ok ()
    else if 300 ≤ code ∧ code < 400 then
      .error ⟨false, s!"{status}: the URL redirects; enter the address it redirects to"⟩
    else .error ⟨(500 ≤ code ∧ code < 600) ∨ code = 429,
      s!"{status}: {String.ofList (AgentCounters.trim (head.toList.take 300))}"⟩

/-- Another attempt may change it. -/
def Retryable (a : Answer) : Prop := ∃ f, outcome a = .error f ∧ f.retry = true

/-- The answers of a channel whose turn is over: all but the last asked for
another attempt, and the last did not or was the third. -/
def Settled (tries : List Answer) : Prop :=
  ∃ before last, tries = before ++ [last] ∧ (∀ a ∈ before, Retryable a) ∧
    before.length < attempts ∧ (Retryable last → before.length + 1 = attempts)

/-- The answers of a channel that is to be tried again. -/
structure Pending (tries : List Answer) : Prop where
  /-- Every attempt failed in a way that may be tried again. -/
  retryable : ∀ a ∈ tries, Retryable a
  /-- There is another attempt left. -/
  room : tries.length < attempts

/-! ## One note -/

/-- The delivery of one note. -/
structure Round where
  /-- The note, with the time it was queued. -/
  note : Note
  /-- The channels configured when the note was taken. -/
  channels : List Channel
  /-- The answers of the channels whose turn is over. -/
  settled : List (List Answer)
  /-- Those of the channel whose turn it is. -/
  tries : List Answer

/-- The channel whose turn it is answers. -/
def Round.post (r : Round) (a : Answer) : Round :=
  let tries := r.tries ++ [a]
  match outcome a with
  | .ok () => { r with settled := r.settled ++ [tries], tries := [] }
  | .error f =>
    if f.retry = false ∨ tries.length = attempts then
      { r with settled := r.settled ++ [tries], tries := [] }
    else { r with tries := tries }

/-- What has been tried so far. -/
structure Round.Orderly (r : Round) : Prop where
  /-- The channels before this one are done with. -/
  settled : ∀ t ∈ r.settled, Settled t
  /-- They are no more than there are. -/
  count : r.settled.length ≤ r.channels.length
  /-- This one may be tried again. -/
  pending : Pending r.tries
  /-- There is one that is being tried. -/
  turn : r.tries ≠ [] → r.settled.length < r.channels.length

/-- Nothing has been tried. -/
theorem orderly_fresh (note : Note) (channels : List Channel) :
    (Round.mk note channels [] []).Orderly where
  settled := nofun
  count := Nat.zero_le _
  pending := ⟨nofun, Nat.zero_lt_succ _⟩
  turn h := absurd rfl h

/-- A turn is over. -/
theorem orderly_settled {r : Round} (h : r.Orderly) (hturn : r.settled.length < r.channels.length)
    {a : Answer} (hlast : Retryable a → r.tries.length + 1 = attempts) :
    Round.Orderly { r with settled := r.settled ++ [r.tries ++ [a]], tries := [] } where
  settled t ht := by
    rcases List.mem_append.mp ht with ht | ht
    · exact h.settled t ht
    · rw [List.mem_singleton.mp ht]
      exact ⟨r.tries, a, rfl, h.pending.retryable, h.pending.room, hlast⟩
  count := by
    rw [List.length_append, List.length_singleton]
    exact hturn
  pending := ⟨nofun, Nat.zero_lt_succ _⟩
  turn hne := absurd rfl hne

/-- Another attempt. -/
theorem orderly_post {r : Round} (h : r.Orderly) (hturn : r.settled.length < r.channels.length)
    (a : Answer) : (r.post a).Orderly ∧ (r.post a).note = r.note ∧
      (r.post a).channels = r.channels := by
  unfold Round.post
  cases hout : outcome a with
  | ok u =>
    refine ⟨orderly_settled h hturn ?_, rfl, rfl⟩
    rintro ⟨f, hf, -⟩
    cases hout.symm.trans hf
  | error f =>
    dsimp only
    split
    · rename_i hover
      refine ⟨orderly_settled h hturn ?_, rfl, rfl⟩
      rintro ⟨f', hf, hretry⟩
      cases hout.symm.trans hf
      rcases hover with hno | hlength
      · cases hno.symm.trans hretry
      · rwa [List.length_append, List.length_singleton] at hlength
    · rename_i hagain
      obtain ⟨hretry, hroom⟩ := not_or.mp hagain
      refine ⟨⟨h.settled, h.count, ⟨?_, ?_⟩, fun _ => hturn⟩, rfl, rfl⟩
      · intro b hb
        rcases List.mem_append.mp hb with hb | hb
        · exact h.pending.retryable b hb
        · rw [List.mem_singleton.mp hb]
          exact ⟨f, hout, Bool.eq_true_of_not_eq_false hretry⟩
      · have hbefore := h.pending.room
        rw [List.length_append, List.length_singleton] at hroom ⊢
        exact lt_of_le_of_ne hbefore hroom

/-! ## The queue -/

/-- The queue, the task that empties it, and what happened. -/
structure State where
  /-- What the database holds. -/
  db : Store
  /-- The notes that wait, the next first. -/
  queue : List Note
  /-- The delivery under way. -/
  current : Option Round
  /-- The notes that were queued, the first first. -/
  accepted : List Note
  /-- Those that were not, with how many waited then. -/
  dropped : List (Note × Nat)
  /-- The deliveries that are over, the first first. -/
  finished : List Round

/-- Nothing has been sent yet. -/
def State.start (db : Store) : State := ⟨db, [], none, [], [], []⟩

/-- `send` at some time. -/
def State.send (s : State) (now : Int) (note : Note) : State :=
  let note := { note with time := now }
  if s.queue.length < queueSize then
    { s with queue := s.queue ++ [note], accepted := s.accepted ++ [note] }
  else { s with dropped := (note, s.queue.length) :: s.dropped }

/-- One step of a sender, of the panel or of `deliver`. -/
inductive Step (s : State) : State → Prop
  /-- Something is to be told. -/
  | send (now : Int) (note : Note) : Step s (s.send now note)
  /-- Somebody writes to the database. -/
  | change (db : Store) : Step s { s with db := db }
  /-- The oldest note is taken up. -/
  | take {note : Note} {queue : List Note} (hidle : s.current = none) (hnext : s.queue = note :: queue)
      (faults : SweepFaults) :
      Step s { s with queue := queue, current := some ⟨note, channels faults s.db, [], []⟩ }
  /-- Its channel is tried. -/
  | post {r : Round} (hcurrent : s.current = some r) (hturn : r.settled.length < r.channels.length)
      (a : Answer) : Step s { s with current := some (r.post a) }
  /-- Every channel is done with. -/
  | finish {r : Round} (hcurrent : s.current = some r)
      (hover : r.settled.length = r.channels.length) :
      Step s { s with current := none, finished := s.finished ++ [r] }

/-- A run of the queue and its task. -/
abbrev Run : State → State → Prop := Relation.ReflTransGen Step

/-- What holds between any two steps. -/
structure Orderly (s : State) : Prop where
  /-- What was accepted is finished, under way or queued, in this order. -/
  order : s.accepted = s.finished.map Round.note ++ (s.current.map Round.note).toList ++ s.queue
  /-- The queue has no more than its size. -/
  bound : s.queue.length ≤ queueSize
  /-- It was full whenever a note was dropped. -/
  full : ∀ d ∈ s.dropped, d.2 = queueSize
  /-- Whatever is finished was in order. -/
  finished : ∀ r ∈ s.finished, (r.Orderly ∧ r.channels.length ≤ 2) ∧
    r.settled.length = r.channels.length
  /-- So is what is under way. -/
  current : ∀ r ∈ s.current, r.Orderly ∧ r.channels.length ≤ 2

/-- There is a bot and a webhook at most. -/
theorem channels_length (faults : SweepFaults) (db : Store) : (channels faults db).length ≤ 2 := by
  unfold channels
  dsimp only
  rw [List.length_append]
  refine @Nat.add_le_add _ 1 _ 1 ?_ ?_
  · split
    · exact le_rfl
    · exact Nat.zero_le 1
  · split
    · exact le_rfl
    · exact Nat.zero_le 1

/-- A note is queued, or dropped where the queue is full. -/
theorem orderly_send {s : State} (h : Orderly s) (now : Int) (note : Note) :
    Orderly (s.send now note) := by
  unfold State.send
  dsimp only
  split
  · rename_i hroom
    refine ⟨?_, ?_, h.full, h.finished, h.current⟩
    · change s.accepted ++ [_] = _ ++ (s.queue ++ [_])
      rw [h.order, List.append_assoc _ s.queue]
    · rw [List.length_append, List.length_singleton]
      exact hroom
  · rename_i hfull
    refine ⟨h.order, h.bound, ?_, h.finished, h.current⟩
    intro d hd
    rcases List.mem_cons.mp hd with rfl | hd
    · exact le_antisymm h.bound (Nat.le_of_not_lt hfull)
    · exact h.full d hd

/-- Every step keeps the delivery in order. -/
theorem orderly_step {s s' : State} (h : Orderly s) (hstep : Step s s') : Orderly s' := by
  cases hstep with
  | send now note => exact orderly_send h now note
  | change db => exact ⟨h.order, h.bound, h.full, h.finished, h.current⟩
  | @take note queue hidle hnext faults =>
    refine ⟨?_, ?_, h.full, h.finished, ?_⟩
    · have horder := h.order
      rw [hidle, hnext] at horder
      rw [horder]
      simp
    · have hbound := h.bound
      rw [hnext] at hbound
      exact Nat.le_of_succ_le hbound
    · rintro r ⟨⟩
      exact ⟨orderly_fresh note _, channels_length faults s.db⟩
  | @post r hcurrent hturn a =>
    obtain ⟨hr, htwo⟩ := h.current r hcurrent
    obtain ⟨hpost, hnote, hchannels⟩ := orderly_post hr hturn a
    refine ⟨?_, h.bound, h.full, h.finished, ?_⟩
    · have horder := h.order
      rw [hcurrent] at horder
      rw [horder, Option.map_some, Option.map_some, hnote]
    · rintro r' ⟨⟩
      exact ⟨hpost, by rwa [hchannels]⟩
  | @finish r hcurrent hover =>
    refine ⟨?_, h.bound, h.full, ?_, nofun⟩
    · have horder := h.order
      rw [hcurrent] at horder
      rw [horder]
      simp
    · intro r' hr'
      rcases List.mem_append.mp hr' with hr' | hr'
      · exact h.finished r' hr'
      · rw [List.mem_singleton.mp hr']
        exact ⟨h.current r hcurrent, hover⟩

/-- So it is in every run. -/
theorem orderly_run {db : Store} {s : State} (h : Run (.start db) s) : Orderly s := by
  induction h with
  | refl => exact ⟨rfl, Nat.zero_le _, nofun, nofun, nofun⟩
  | tail _ hstep ih => exact orderly_step ih hstep

/-! ## Where a note is sent -/

/-- The note of a delivery was the next in the queue at some moment of the run,
and its channels are those of the settings at that moment. -/
def TakenOn (db : Store) (s : State) (r : Round) : Prop :=
  ∃ taken faults rest, Run (.start db) taken ∧ Run taken s ∧ taken.current = none ∧
    taken.queue = r.note :: rest ∧ r.channels = channels faults taken.db

/-- What was taken up for these settings was so later on too. -/
theorem TakenOn.later {db : Store} {s s' : State} {r : Round} (h : TakenOn db s r)
    (hstep : Step s s') : TakenOn db s' r := by
  obtain ⟨taken, faults, rest, hrun, hsince, hidle, hnext, hchannels⟩ := h
  exact ⟨taken, faults, rest, hrun, hsince.tail hstep, hidle, hnext, hchannels⟩

/-- The answers of the channels do not matter. -/
theorem TakenOn.same {db : Store} {s : State} {r r' : Round} (h : TakenOn db s r)
    (hnote : r'.note = r.note) (hchannels : r'.channels = r.channels) : TakenOn db s r' := by
  unfold TakenOn
  rw [hnote, hchannels]
  exact h

/-- Every delivery there is or was began so. -/
theorem taken_run {db : Store} {s : State} (h : Run (.start db) s) :
    ∀ r, r ∈ s.finished ∨ s.current = some r → TakenOn db s r := by
  induction h with
  | refl =>
    rintro r (hr | hr)
    · exact absurd hr List.not_mem_nil
    · cases hr
  | @tail s s' hrun hstep ih =>
    have hkept : ∀ r, r ∈ s.finished ∨ s.current = some r → TakenOn db s' r :=
      fun r hr => (ih r hr).later hstep
    cases hstep with
    | send now note =>
      have hsame : (s.send now note).finished = s.finished ∧
          (s.send now note).current = s.current := by
        unfold State.send
        dsimp only
        split <;> exact ⟨rfl, rfl⟩
      rw [hsame.1, hsame.2]
      exact hkept
    | change db' => exact hkept
    | @take note queue hidle hnext faults =>
      rintro r (hr | hr)
      · exact hkept r (.inl hr)
      · cases hr
        exact ⟨s, faults, queue, hrun, .single (.take hidle hnext faults), hidle, hnext, rfl⟩
    | @post r₀ hcurrent hturn a =>
      rintro r (hr | hr)
      · exact hkept r (.inl hr)
      · cases hr
        obtain ⟨hr₀, -⟩ := (orderly_run hrun).current r₀ hcurrent
        obtain ⟨-, hnote, hchannels⟩ := orderly_post hr₀ hturn a
        exact (hkept r₀ (.inr hcurrent)).same hnote hchannels
    | @finish r₀ hcurrent hover =>
      rintro r (hr | hr)
      · rcases List.mem_append.mp hr with hr | hr
        · exact hkept r (.inl hr)
        · rw [List.mem_singleton.mp hr]
          exact hkept r₀ (.inr hcurrent)
      · cases hr

/-! ## What becomes of a note -/

/-- A channel gets one to three attempts, and nothing after a success. -/
theorem Settled.attempts {tries : List Answer} (h : Settled tries) :
    1 ≤ tries.length ∧ tries.length ≤ attempts ∧
      ∀ before a after, tries = before ++ a :: after → outcome a = .ok () → after = [] := by
  obtain ⟨before, last, rfl, hbefore, hroom, -⟩ := h
  rw [List.length_append, List.length_singleton]
  refine ⟨Nat.le_add_left _ _, hroom, ?_⟩
  intro front a after hsplit hok
  cases after with
  | nil => rfl
  | cons b after =>
    have hmem : a ∈ before := by
      have hdrop := congrArg List.dropLast hsplit
      rw [List.dropLast_concat, List.dropLast_append_cons, List.dropLast_cons_cons] at hdrop
      rw [hdrop]
      exact List.mem_append_right _ List.mem_cons_self
    obtain ⟨f, hf, -⟩ := hbefore a hmem
    cases hok.symm.trans hf

/-- The attempts made for a note. -/
def Round.attempts (r : Round) : Nat := (r.settled.map List.length).sum + r.tries.length

/-- So many attempts for each channel. -/
theorem sum_le_mul {tries : List (List Answer)} (h : ∀ t ∈ tries, t.length ≤ attempts) :
    (tries.map List.length).sum ≤ attempts * tries.length := by
  induction tries with
  | nil => exact Nat.zero_le _
  | cons t tries ih =>
    have hfirst := h t List.mem_cons_self
    have hrest := ih fun u hu => h u (List.mem_cons_of_mem _ hu)
    rw [List.map_cons, List.sum_cons, List.length_cons, Nat.mul_succ, Nat.add_comm]
    exact Nat.add_le_add hrest hfirst

/-- At most three for each of two channels. -/
theorem Round.Orderly.attempts_le {r : Round} (h : r.Orderly) (htwo : r.channels.length ≤ 2) :
    r.attempts ≤ 6 := by
  have hsettled := sum_le_mul fun t ht => (h.settled t ht).attempts.2.1
  have hthree : NoteDelivery.attempts = 3 := rfl
  have hcount := h.count
  have hroom := h.pending.room
  unfold Round.attempts
  rw [hthree] at hsettled hroom
  by_cases hturn : r.tries = []
  · rw [hturn, List.length_nil]
    omega
  · have hless := h.turn hturn
    omega

/-- A webhook is configured. -/
def hooked : Store := withSetting Store.blank "notify_webhook_url" "https://h"

/-- There is a channel in the example. -/
theorem hooked_channels : 0 < (channels .none hooked).length := by
  have hget : NotifySweep.get .none hooked "notify_webhook_url" = some "https://h" :=
    stored_withSetting Store.blank "notify_webhook_url" "https://h"
  have hurl : setting .none hooked "notify_webhook_url" = some "https://h" := by
    rw [setting, hget]
    rfl
  unfold channels
  dsimp only
  rw [hurl, List.length_append]
  exact Nat.succ_pos _

end Romi.NoteDelivery
