import Mathlib.Logic.Function.Basic
import Mathlib.Data.List.Basic
import Mathlib.Order.Nat

/-!
# The pool of read connections

A query takes the first connection that is free, beginning where a cursor stands, and
waits for that one if none is. A watch interrupts the connection of a query that takes
too long, and an interrupt that meets no statement waits for the next one: so whoever
was interrupted runs a statement of no use before the next caller may have the
connection. The clock counts milliseconds.
-/

namespace Romi.ReaderPool

/-- `READERS`. -/
def readers : Nat := 3

/-- `QUERY_TIMEOUT`, in milliseconds. -/
def queryTimeout : Nat := 30000

/-- What is known of a connection. -/
structure Conn where
  /-- An interrupt that no statement has met with. -/
  pending : Bool
  /-- A caller panicked with its lock. -/
  poisoned : Bool
  /-- Watches of callers that panicked, before they interrupt. -/
  strays : Nat

/-- Where the watch of a query is. -/
inductive Watch
  /-- There is no limit. -/
  | off
  /-- In `recv_timeout`. -/
  | waiting
  /-- After it, before the interrupt. -/
  | late
  /-- It has interrupted the connection. -/
  | fired
  /-- It was told in time that the query is over. -/
  | stood
  deriving DecidableEq

/-- What the caller does with its connection. -/
inductive Stage
  /-- In `f`, with no statement running. -/
  | between
  /-- In `f`, in a statement. -/
  | running
  /-- In `join`: the watch was told and is waited for. -/
  | told
  deriving DecidableEq

/-- A query that has a connection. -/
structure Work where
  /-- Which connection. -/
  conn : Nat
  /-- When it got the lock. -/
  since : Nat
  /-- How long it may take, where that is limited. -/
  limit : Option Nat
  /-- Where its watch is. -/
  watch : Watch
  /-- What it does. -/
  stage : Stage

/-- Where a caller of `query` is. -/
inductive Phase
  /-- It asks for nothing. -/
  | idle
  /-- In the sweep, about to try the connection so many places after the start. -/
  | trying (limit : Option Nat) (start offset : Nat)
  /-- Waiting for the lock of the first one. -/
  | blocked (limit : Option Nat) (start : Nat)
  /-- It has a connection. -/
  | inside (w : Work)

/-- The pool, with its callers and the clock. -/
structure State where
  /-- The time, in milliseconds. -/
  now : Nat
  /-- `next`: where the following sweep starts. -/
  cursor : Nat
  /-- Where each caller is. -/
  calls : Nat → Phase
  /-- What is known of each connection. -/
  conns : Nat → Conn

/-- A pool that was just made. -/
def State.fresh (start : Nat) : State := ⟨start, 0, fun _ => .idle, fun _ => ⟨false, false, 0⟩⟩

/-- Somebody has the lock. -/
def State.Taken (s : State) (i : Nat) : Prop := ∃ c w, s.calls c = .inside w ∧ w.conn = i

/-- The caller is somewhere else. -/
def State.put (s : State) (c : Nat) (p : Phase) : State :=
  { s with calls := Function.update s.calls c p }

/-- Something else is known of the connection. -/
def State.mark (s : State) (i : Nat) (conn : Conn) : State :=
  { s with conns := Function.update s.conns i conn }

/-- The beginning of `run`. -/
def State.work (s : State) (limit : Option Nat) (i : Nat) : Work :=
  ⟨i, s.now, limit, if limit.isSome then .waiting else .off, .between⟩

/-- What happens. -/
inductive Event
  /-- Time went by. -/
  | passed (duration : Nat)
  /-- Somebody calls `query`. -/
  | begun (c : Nat)
  /-- A connection was found taken in the sweep. -/
  | busy (c i : Nat)
  /-- Somebody has a connection now. -/
  | took (c i : Nat)
  /-- Every connection was found taken. -/
  | waits (c : Nat)
  /-- A statement begins. -/
  | queried (c : Nat)
  /-- It ends with an answer. -/
  | answered (c : Nat)
  /-- It was cancelled, or the next one at once. -/
  | cancelled (c i : Nat)
  /-- `f` has returned and the watch is told. -/
  | returned (c : Nat)
  /-- The limit is over. -/
  | ranOut (c : Nat)
  /-- The watch has interrupted the connection. -/
  | interrupted (c : Nat)
  /-- The watch was told in time. -/
  | stoodDown (c : Nat)
  /-- The connection is given back. -/
  | left (c : Nat)
  /-- `f` has panicked. -/
  | panicked (c i : Nat)
  /-- The watch of somebody who panicked has interrupted. -/
  | strayed (i : Nat)
  deriving DecidableEq

/-- One step of a caller, of a watch or of the clock. -/
inductive Step (n : Nat) (s : State) : Event → State → Prop
  /-- Time goes by. -/
  | pass (duration : Nat) : Step n s (.passed duration) { s with now := s.now + duration }
  /-- A pool without connections turns everybody away. -/
  | begin (c : Nat) (limit : Option Nat) (hn : 0 < n) (hat : s.calls c = .idle) :
    Step n s (.begun c) ({ s with cursor := (s.cursor + 1) % 18446744073709551616 }.put c
      (.trying limit (s.cursor % n) 0))
  /-- `try_lock` fails: somebody has the lock, or somebody panicked with it. -/
  | busy {c start offset : Nat} {limit : Option Nat} (hat : s.calls c = .trying limit start offset)
    (hin : offset < n)
    (htaken : s.Taken ((start + offset) % n) ∨ (s.conns ((start + offset) % n)).poisoned = true) :
    Step n s (.busy c ((start + offset) % n)) (s.put c (.trying limit start (offset + 1)))
  /-- `try_lock` succeeds. -/
  | take {c start offset : Nat} {limit : Option Nat} (hat : s.calls c = .trying limit start offset)
    (hin : offset < n) (hfree : ¬ s.Taken ((start + offset) % n))
    (hsound : (s.conns ((start + offset) % n)).poisoned = false) :
    Step n s (.took c ((start + offset) % n))
      (s.put c (.inside (s.work limit ((start + offset) % n))))
  /-- The sweep is over. -/
  | block {c start offset : Nat} {limit : Option Nat} (hat : s.calls c = .trying limit start offset)
    (hall : n ≤ offset) : Step n s (.waits c) (s.put c (.blocked limit start))
  /-- `lock` does not mind a panic. -/
  | lock {c start : Nat} {limit : Option Nat} (hat : s.calls c = .blocked limit start)
    (hfree : ¬ s.Taken start) :
    Step n s (.took c start) (s.put c (.inside (s.work limit start)))
  /-- A statement begins, no interrupt waiting for it. -/
  | query {c : Nat} {w : Work} (hat : s.calls c = .inside w) (hstage : w.stage = .between)
    (hclear : (s.conns w.conn).pending = false) :
    Step n s (.queried c) (s.put c (.inside { w with stage := .running }))
  /-- An interrupt that waited cancels the statement at once. -/
  | refuse {c : Nat} {w : Work} (hat : s.calls c = .inside w) (hstage : w.stage = .between)
    (hpending : (s.conns w.conn).pending = true) :
    Step n s (.cancelled c w.conn) (s.mark w.conn { s.conns w.conn with pending := false })
  /-- A statement may end before it meets with an interrupt. -/
  | answer {c : Nat} {w : Work} (hat : s.calls c = .inside w) (hstage : w.stage = .running) :
    Step n s (.answered c) (s.put c (.inside { w with stage := .between }))
  /-- It meets with the interrupt. -/
  | cancel {c : Nat} {w : Work} (hat : s.calls c = .inside w) (hstage : w.stage = .running)
    (hpending : (s.conns w.conn).pending = true) :
    Step n s (.cancelled c w.conn) ((s.mark w.conn { s.conns w.conn with pending := false }).put c
      (.inside { w with stage := .between }))
  /-- `f` returns. -/
  | finish {c : Nat} {w : Work} (hat : s.calls c = .inside w) (hstage : w.stage = .between)
    (hoff : w.watch = .off) : Step n s (.left c) (s.put c .idle)
  /-- `f` returns, and the watch is told. -/
  | tell {c : Nat} {w : Work} (hat : s.calls c = .inside w) (hstage : w.stage = .between)
    (hon : w.watch ≠ .off) :
    Step n s (.returned c) (s.put c (.inside { w with stage := .told }))
  /-- The watch has waited for the whole limit. -/
  | runOut {c limit : Nat} {w : Work} (hat : s.calls c = .inside w) (hwatch : w.watch = .waiting)
    (hlimit : w.limit = some limit) (hdue : w.since + limit ≤ s.now) :
    Step n s (.ranOut c) (s.put c (.inside { w with watch := .late }))
  /-- It interrupts the connection. -/
  | interrupt {c : Nat} {w : Work} (hat : s.calls c = .inside w) (hwatch : w.watch = .late) :
    Step n s (.interrupted c) ((s.mark w.conn { s.conns w.conn with pending := true }).put c
      (.inside { w with watch := .fired }))
  /-- It was told before its limit. -/
  | stand {c : Nat} {w : Work} (hat : s.calls c = .inside w) (hstage : w.stage = .told)
    (hwatch : w.watch = .waiting) :
    Step n s (.stoodDown c) (s.put c (.inside { w with watch := .stood }))
  /-- Nobody was interrupted. -/
  | leave {c : Nat} {w : Work} (hat : s.calls c = .inside w) (hstage : w.stage = .told)
    (hwatch : w.watch = .stood) : Step n s (.left c) (s.put c .idle)
  /-- `SELECT 1`, which takes the interrupt with it. -/
  | drain {c : Nat} {w : Work} (hat : s.calls c = .inside w) (hstage : w.stage = .told)
    (hwatch : w.watch = .fired) :
    Step n s (.left c) ((s.mark w.conn { s.conns w.conn with pending := false }).put c .idle)
  /-- `f` panics and is unwound: the watch finds nobody at the other end. -/
  | panic {c : Nat} {w : Work} (hat : s.calls c = .inside w) (hstage : w.stage ≠ .told) :
    Step n s (.panicked c w.conn) ((s.mark w.conn { s.conns w.conn with
      poisoned := true
      strays := (s.conns w.conn).strays +
        if w.watch = .waiting ∨ w.watch = .late then 1 else 0 }).put c .idle)
  /-- A watch whose caller panicked interrupts all the same. -/
  | stray {i : Nat} (hstray : 0 < (s.conns i).strays) :
    Step n s (.strayed i) (s.mark i { s.conns i with
      pending := true
      strays := (s.conns i).strays - 1 })

/-- A run of a pool, the newest event first. -/
inductive Run (n start : Nat) : List Event → State → Prop
  /-- The pool was just made. -/
  | start : Run n start [] (.fresh start)
  /-- One step more. -/
  | step {log : List Event} {s s' : State} {e : Event} (h : Run n start log s)
    (hstep : Step n s e s') : Run n start (e :: log) s'

/-! ## Locks and interrupts -/

variable {n start : Nat} {log : List Event} {s s' : State} {e : Event} {c i : Nat} {w : Work}

/-- What holds of a pool at any time. -/
structure Orderly (s : State) : Prop where
  /-- No connection has two callers. -/
  exclusive : ∀ c c' w w', s.calls c = .inside w → s.calls c' = .inside w' →
    w.conn = w'.conn → c = c'
  /-- An interrupt that waits came from the watch of the one inside, or from a panic. -/
  pending : ∀ i, (s.conns i).pending = true → (s.conns i).poisoned = true ∨
    ∃ c w, s.calls c = .inside w ∧ w.conn = i ∧ w.watch = .fired
  /-- Only a panic leaves a watch alone. -/
  strays : ∀ i, 0 < (s.conns i).strays → (s.conns i).poisoned = true
  /-- No watch fires before the limit of its caller. -/
  overdue : ∀ c w, s.calls c = .inside w → w.watch = .late ∨ w.watch = .fired →
    ∃ limit, w.limit = some limit ∧ w.since + limit ≤ s.now
  /-- Nobody waits for a watch that is not there. -/
  joined : ∀ c w, s.calls c = .inside w → w.stage = .told → w.watch ≠ .off

/-- A new pool is in order. -/
theorem orderly_fresh (start : Nat) : Orderly (.fresh start) := by
  refine ⟨?_, ?_, ?_, ?_, ?_⟩
  · intro c c' w w' h
    cases h
  · intro i h
    cases h
  · intro i h
    exact absurd h (lt_irrefl 0)
  · intro c w h
    cases h
  · intro c w h
    cases h

/-- The caller is where it was put. -/
theorem put_self (s : State) (c : Nat) (p : Phase) : (s.put c p).calls c = p :=
  Function.update_self _ _ _

/-- The others are where they were. -/
theorem put_of_ne (s : State) {c c' : Nat} (p : Phase) (h : c' ≠ c) :
    (s.put c p).calls c' = s.calls c' := Function.update_of_ne h _ _

/-- Who is inside afterwards was put there or was inside before. -/
theorem put_inside {p : Phase} {c' : Nat} (h : (s.put c p).calls c' = .inside w) :
    (c' = c ∧ p = .inside w) ∨ (c' ≠ c ∧ s.calls c' = .inside w) := by
  by_cases hc : c' = c
  · subst hc
    exact .inl ⟨rfl, by rwa [put_self] at h⟩
  · exact .inr ⟨hc, by rwa [put_of_ne s p hc] at h⟩

/-- The clock goes on. -/
theorem Orderly.later (h : Orderly s) (duration : Nat) :
    Orderly { s with now := s.now + duration } := by
  refine ⟨h.exclusive, h.pending, h.strays, ?_, h.joined⟩
  intro c w hat hwatch
  obtain ⟨limit, hlimit, hdue⟩ := h.overdue c w hat hwatch
  exact ⟨limit, hlimit, le_trans hdue (Nat.le_add_right _ _)⟩

/-- A caller comes to another phase: no connection it has then is another's, and an
interrupt on the one it had is not forgotten. -/
theorem Orderly.put (h : Orderly s) {p : Phase}
    (hnew : ∀ w', p = .inside w' →
      (∀ c' w, c' ≠ c → s.calls c' = .inside w → w'.conn ≠ w.conn) ∧
      (w'.watch = .late ∨ w'.watch = .fired →
        ∃ limit, w'.limit = some limit ∧ w'.since + limit ≤ s.now) ∧
      (w'.stage = .told → w'.watch ≠ .off))
    (hold : ∀ w, s.calls c = .inside w → w.watch = .fired → (s.conns w.conn).pending = true →
      (s.conns w.conn).poisoned = true ∨
        ∃ w', p = .inside w' ∧ w'.conn = w.conn ∧ w'.watch = .fired) :
    Orderly (s.put c p) := by
  refine ⟨?_, ?_, h.strays, ?_, ?_⟩
  · intro c₁ c₂ w₁ w₂ h₁ h₂ hconn
    rcases put_inside h₁ with ⟨rfl, hw₁⟩ | ⟨hne₁, hin₁⟩ <;>
      rcases put_inside h₂ with ⟨rfl, hw₂⟩ | ⟨hne₂, hin₂⟩
    · rfl
    · exact absurd hconn ((hnew w₁ hw₁).1 c₂ w₂ hne₂ hin₂)
    · exact absurd hconn.symm ((hnew w₂ hw₂).1 c₁ w₁ hne₁ hin₁)
    · exact h.exclusive c₁ c₂ w₁ w₂ hin₁ hin₂ hconn
  · intro j hpending
    rcases h.pending j hpending with hpoisoned | ⟨c', w, hin, rfl, hfired⟩
    · exact .inl hpoisoned
    by_cases hne : c' = c
    · subst hne
      refine (hold w hin hfired hpending).imp_right ?_
      rintro ⟨w', rfl, hw'⟩
      exact ⟨c', w', put_self s c' _, hw'⟩
    · exact .inr ⟨c', w, by rwa [put_of_ne s p hne], rfl, hfired⟩
  · intro c' w hput
    rcases put_inside hput with ⟨-, hw⟩ | ⟨-, hin⟩
    · exact (hnew w hw).2.1
    · exact h.overdue c' w hin
  · intro c' w hput
    rcases put_inside hput with ⟨-, hw⟩ | ⟨-, hin⟩
    · exact (hnew w hw).2.2
    · exact h.joined c' w hin

/-- A caller without a connection goes on without one. -/
theorem Orderly.outside (h : Orderly s) (hat : ∀ w, s.calls c ≠ .inside w) {p : Phase}
    (hp : ∀ w, p ≠ .inside w) : Orderly (s.put c p) :=
  h.put (fun w' hw' => absurd hw' (hp w')) fun w hin => absurd hin (hat w)

/-- A caller takes a connection nobody has. -/
theorem Orderly.enter (h : Orderly s) (hat : ∀ w, s.calls c ≠ .inside w) (hfree : ¬ s.Taken i)
    (limit : Option Nat) : Orderly (s.put c (.inside (s.work limit i))) := by
  refine h.put ?_ fun w hin => absurd hin (hat w)
  rintro w' ⟨⟩
  refine ⟨fun c' w _ hin hconn => hfree ⟨c', w, hin, hconn.symm⟩, ?_, nofun⟩
  unfold State.work
  dsimp only
  split
  · rintro (hlate | hfired)
    · cases hlate
    · cases hfired
  · rintro (hlate | hfired)
    · cases hlate
    · cases hfired

/-- A caller goes on with its connection. -/
theorem Orderly.goOn (h : Orderly s) (hat : s.calls c = .inside w) (w' : Work)
    (hconn : w'.conn = w.conn) (hfired : w.watch = .fired → w'.watch = .fired)
    (hran : w'.watch = .late ∨ w'.watch = .fired →
      ∃ limit, w'.limit = some limit ∧ w'.since + limit ≤ s.now)
    (htold : w'.stage = .told → w'.watch ≠ .off) : Orderly (s.put c (.inside w')) := by
  refine h.put ?_ ?_
  · rintro w'' ⟨⟩
    refine ⟨fun c' w₀ hne hin hsame => hne ?_, hran, htold⟩
    exact h.exclusive c' c w₀ w hin hat (hsame.symm.trans hconn)
  · intro w₀ hin hwatch _
    cases hat.symm.trans hin
    exact .inr ⟨w', rfl, hconn, hfired hwatch⟩

/-- A caller gives its connection back without an interrupt on it. -/
theorem Orderly.release (h : Orderly s) (hat : s.calls c = .inside w)
    (hclean : (s.conns w.conn).pending = true → (s.conns w.conn).poisoned = true) :
    Orderly (s.put c .idle) := by
  refine h.put nofun ?_
  intro w₀ hin _ hpending
  cases hat.symm.trans hin
  exact .inl (hclean hpending)

/-- The state of one connection changes. -/
theorem Orderly.mark (h : Orderly s) (i : Nat) {conn : Conn}
    (hpending : conn.pending = true → conn.poisoned = true ∨
      ∃ c w, s.calls c = .inside w ∧ w.conn = i ∧ w.watch = .fired)
    (hstrays : 0 < conn.strays → conn.poisoned = true) : Orderly (s.mark i conn) := by
  refine ⟨h.exclusive, ?_, ?_, h.overdue, h.joined⟩ <;> intro j <;> unfold State.mark <;> dsimp only
  · by_cases hj : j = i
    · subst hj
      rw [Function.update_self]
      exact hpending
    · rw [Function.update_of_ne hj]
      exact h.pending j
  · by_cases hj : j = i
    · subst hj
      rw [Function.update_self]
      exact hstrays
    · rw [Function.update_of_ne hj]
      exact h.strays j

/-- An interrupt on the connection of a caller whose watch has not fired is another's,
who panicked. -/
theorem Orderly.clean (h : Orderly s) (hat : s.calls c = .inside w) (hwatch : w.watch ≠ .fired)
    (hpending : (s.conns w.conn).pending = true) : (s.conns w.conn).poisoned = true := by
  rcases h.pending w.conn hpending with hpoisoned | ⟨c', w', hin, hconn, hfired⟩
  · exact hpoisoned
  · obtain rfl := h.exclusive c' c w' w hin hat hconn
    cases hat.symm.trans hin
    exact absurd hfired hwatch

/-- A caller inside goes on. -/
theorem Orderly.stage (h : Orderly s) (hat : s.calls c = .inside w) (stage : Stage)
    (htold : stage = .told → w.watch ≠ .off) :
    Orderly (s.put c (.inside { w with stage := stage })) :=
  h.goOn hat { w with stage := stage } rfl id (h.overdue c w hat) htold

/-- Its watch goes on. -/
theorem Orderly.watch (h : Orderly s) (hat : s.calls c = .inside w) (watch : Watch)
    (hwaited : w.watch ≠ .fired ∨ watch = .fired) (hon : watch ≠ .off)
    (hran : watch = .late ∨ watch = .fired →
      ∃ limit, w.limit = some limit ∧ w.since + limit ≤ s.now) :
    Orderly (s.put c (.inside { w with watch := watch })) :=
  h.goOn hat { w with watch := watch } rfl (fun hfired => hwaited.resolve_left (absurd hfired)) hran
    fun _ => hon

/-- A statement took the interrupt with it. -/
theorem Orderly.clear (h : Orderly s) (i : Nat) :
    Orderly (s.mark i { s.conns i with pending := false }) :=
  h.mark i nofun (h.strays i)

/-- Every step keeps the pool in order. -/
theorem orderly_step (h : Orderly s) (hstep : Step n s e s') : Orderly s' := by
  have outside : ∀ {c p}, s.calls c = p → (∀ w, p ≠ .inside w) → ∀ w, s.calls c ≠ .inside w := by
    rintro c p rfl hp
    exact hp
  cases hstep with
  | pass duration => exact h.later duration
  | begin c limit hn hat =>
    have hcursor : Orderly { s with cursor := (s.cursor + 1) % 18446744073709551616 } :=
      ⟨h.exclusive, h.pending, h.strays, h.overdue, h.joined⟩
    exact hcursor.outside (outside hat nofun) nofun
  | busy hat hin htaken => exact h.outside (outside hat nofun) nofun
  | take hat hin hfree hsound => exact h.enter (outside hat nofun) hfree _
  | block hat hall => exact h.outside (outside hat nofun) nofun
  | lock hat hfree => exact h.enter (outside hat nofun) hfree _
  | query hat hstage hclear => exact h.stage hat .running nofun
  | refuse hat hstage hpending => exact h.clear _
  | answer hat hstage => exact h.stage hat .between nofun
  | cancel hat hstage hpending => exact (h.clear _).stage hat .between nofun
  | finish hat hstage hoff =>
    refine h.release hat (h.clean hat ?_)
    rw [hoff]
    decide
  | tell hat hstage hon => exact h.stage hat .told fun _ => hon
  | runOut hat hwatch hlimit hdue =>
    refine h.watch hat .late (.inl ?_) (by decide) fun _ => ⟨_, hlimit, hdue⟩
    rw [hwatch]
    decide
  | interrupt hat hwatch =>
    have hfired := h.watch hat .fired (.inr rfl) (by decide) fun _ =>
      h.overdue _ _ hat (.inl hwatch)
    exact hfired.mark _ (fun _ => .inr ⟨_, _, put_self _ _ _, rfl, rfl⟩) (h.strays _)
  | stand hat hstage hwatch =>
    refine h.watch hat .stood (.inl ?_) (by decide) (by simp)
    rw [hwatch]
    decide
  | leave hat hstage hwatch =>
    refine h.release hat (h.clean hat ?_)
    rw [hwatch]
    decide
  | @drain c w hat hstage hwatch =>
    refine (h.clear w.conn).release hat fun hpending => ?_
    rw [State.mark] at hpending
    dsimp only at hpending
    rw [Function.update_self] at hpending
    cases hpending
  | @panic c w hat hstage =>
    refine Orderly.release (h.mark w.conn (fun _ => .inl rfl) fun _ => rfl) hat fun _ => ?_
    rw [State.mark]
    dsimp only
    rw [Function.update_self]
  | stray hstray => exact h.mark _ (fun _ => .inl (h.strays _ hstray)) (fun _ => h.strays _ hstray)

/-- So a pool is always in order. -/
theorem orderly_run (h : Run n start log s) : Orderly s := by
  induction h with
  | start => exact orderly_fresh start
  | step _ hstep ih => exact orderly_step ih hstep

/-! ## Panics -/

/-- Who is known to have panicked was marked so or known before. -/
theorem mark_poisoned {j : Nat} {conn : Conn} (h : ((s.mark i conn).conns j).poisoned = true) :
    (s.conns j).poisoned = true ∨ (i = j ∧ conn.poisoned = true) := by
  rw [State.mark] at h
  dsimp only at h
  by_cases hj : j = i
  · subst hj
    rw [Function.update_self] at h
    exact .inr ⟨rfl, h⟩
  · rw [Function.update_of_ne hj] at h
    exact .inl h

/-- An interrupt that comes or goes poisons nothing. -/
theorem mark_sound {j : Nat} {pending : Bool} {strays : Nat}
    (h : ((s.mark i ⟨pending, (s.conns i).poisoned, strays⟩).conns j).poisoned = true) :
    (s.conns j).poisoned = true := by
  rcases mark_poisoned h with hold | ⟨rfl, hold⟩
  · exact hold
  · exact hold

/-- A lock is poisoned by a panic. -/
theorem step_poisoned (hstep : Step n s e s') (h : (s'.conns i).poisoned = true) :
    (s.conns i).poisoned = true ∨ ∃ c, e = .panicked c i := by
  cases hstep with
  | refuse hat => exact .inl (mark_sound h)
  | @cancel c w hat =>
    change ((s.mark w.conn _).conns i).poisoned = true at h
    exact .inl (mark_sound h)
  | @interrupt c w hat =>
    change ((s.mark w.conn _).conns i).poisoned = true at h
    exact .inl (mark_sound h)
  | @drain c w hat =>
    change ((s.mark w.conn _).conns i).poisoned = true at h
    exact .inl (mark_sound h)
  | @panic c w hat hstage =>
    change ((s.mark w.conn _).conns i).poisoned = true at h
    rcases mark_poisoned h with hold | ⟨rfl, -⟩
    · exact .inl hold
    · exact .inr ⟨c, rfl⟩
  | stray hstray => exact .inl (mark_sound h)
  | _ => exact .inl h

/-- Only a panic poisons a lock. -/
theorem poisoned_run (h : Run n start log s) (hpoisoned : (s.conns i).poisoned = true) :
    ∃ c, .panicked c i ∈ log := by
  induction h with
  | start => cases hpoisoned
  | step _ hstep ih =>
    rcases step_poisoned hstep hpoisoned with hold | ⟨c, rfl⟩
    · obtain ⟨c, hc⟩ := ih hold
      exact ⟨c, List.mem_cons_of_mem _ hc⟩
    · exact ⟨c, List.mem_cons_self⟩

/-! ## Waiting -/

/-- What happened since a caller came. -/
def since (c : Nat) (log : List Event) : List Event := log.takeWhile fun e => e ≠ .begun c

/-- A caller has found every connection taken that it tried. -/
def Tried (n c : Nat) (log : List Event) : Phase → Prop
  | .trying _ start offset =>
    start < n ∧ offset ≤ n ∧ ∀ k < offset, .busy c ((start + k) % n) ∈ since c log
  | .blocked _ start => start < n ∧ ∀ i < n, .busy c i ∈ since c log
  | .idle | .inside _ => True

/-- What happens after a call belongs to what happened since it. -/
theorem since_cons (h : e ≠ .begun c) : since c (e :: log) = e :: since c log :=
  List.takeWhile_cons_of_pos (decide_eq_true h)

/-- What was tried stays tried. -/
theorem Tried.later {p : Phase} (h : Tried n c log p) (he : e ≠ .begun c) :
    Tried n c (e :: log) p := by
  cases p with
  | idle => trivial
  | inside w => trivial
  | trying limit start offset =>
    obtain ⟨hstart, hoffset, hbusy⟩ := h
    refine ⟨hstart, hoffset, fun k hk => ?_⟩
    rw [since_cons he]
    exact List.mem_cons_of_mem e (hbusy k hk)
  | blocked limit start =>
    obtain ⟨hstart, hbusy⟩ := h
    refine ⟨hstart, fun i hi => ?_⟩
    rw [since_cons he]
    exact List.mem_cons_of_mem e (hbusy i hi)

/-- From any place, as many steps as there are connections come to each of them. -/
theorem reached {first i : Nat} (hfirst : first < n) (hi : i < n) :
    ∃ k < n, (first + k) % n = i := by
  rcases le_total first i with hle | hle
  · refine ⟨i - first, by omega, ?_⟩
    rw [Nat.add_sub_cancel' hle, Nat.mod_eq_of_lt hi]
  · rcases hle.lt_or_eq with hlt | rfl
    · refine ⟨i + n - first, by omega, ?_⟩
      rw [show first + (i + n - first) = i + n by omega, Nat.add_mod_right, Nat.mod_eq_of_lt hi]
    · exact ⟨0, by omega, Nat.mod_eq_of_lt hi⟩

/-- A caller that moves has tried what its new phase says. -/
theorem tried_put {p : Phase} (h : ∀ c, Tried n c log (s.calls c))
    (he : ∀ c', c' ≠ c → e ≠ .begun c') (hp : Tried n c (e :: log) p) :
    ∀ c', Tried n c' (e :: log) ((s.put c p).calls c') := by
  intro c'
  by_cases hc : c' = c
  · subst hc
    rwa [put_self]
  · rw [put_of_ne s p hc]
    exact (h c').later (he c' hc)

/-- Every step keeps to what was tried. -/
theorem tried_step (h : ∀ c, Tried n c log (s.calls c)) (hstep : Step n s e s') :
    ∀ c, Tried n c (e :: log) (s'.calls c) := by
  cases hstep with
  | pass duration => exact fun c => (h c).later nofun
  | begin c limit hn hat =>
    have hnone : ∀ k < 0, .busy c ((s.cursor % n + k) % n) ∈ since c (.begun c :: log) :=
      fun k hk => absurd hk (Nat.not_lt_zero k)
    refine tried_put (s := s) h ?_ ⟨Nat.mod_lt _ hn, Nat.zero_le _, hnone⟩
    intro c' hne hsame
    cases hsame
    exact hne rfl
  | @busy c first offset limit hat hin htaken =>
    have hbefore := h c
    rw [hat] at hbefore
    obtain ⟨hfirst, -, hbusy⟩ := hbefore
    have hnew : Event.busy c ((first + offset) % n) ≠ .begun c := nofun
    refine tried_put h nofun ⟨hfirst, hin, fun k hk => ?_⟩
    rw [since_cons hnew]
    rcases (Nat.lt_succ_iff_lt_or_eq.mp hk) with hlt | rfl
    · exact List.mem_cons_of_mem _ (hbusy k hlt)
    · exact List.mem_cons_self
  | take hat hin hfree hsound => exact tried_put h nofun trivial
  | @block c first offset limit hat hall =>
    have hbefore := h c
    rw [hat] at hbefore
    obtain ⟨hfirst, hoffset, hbusy⟩ := hbefore
    have hnew : Event.waits c ≠ .begun c := nofun
    refine tried_put h nofun ⟨hfirst, fun i hi => ?_⟩
    obtain ⟨k, hk, rfl⟩ := reached hfirst hi
    rw [since_cons hnew]
    exact List.mem_cons_of_mem _ (hbusy k (lt_of_lt_of_le hk hall))
  | lock hat hfree => exact tried_put h nofun trivial
  | query hat hstage hclear => exact tried_put h nofun trivial
  | refuse hat hstage hpending => exact fun c => (h c).later nofun
  | answer hat hstage => exact tried_put h nofun trivial
  | @cancel c w hat hstage hpending => exact tried_put (s := s.mark w.conn _) h nofun trivial
  | finish hat hstage hoff => exact tried_put h nofun trivial
  | tell hat hstage hon => exact tried_put h nofun trivial
  | runOut hat hwatch hlimit hdue => exact tried_put h nofun trivial
  | @interrupt c w hat hwatch => exact tried_put (s := s.mark w.conn _) h nofun trivial
  | stand hat hstage hwatch => exact tried_put h nofun trivial
  | leave hat hstage hwatch => exact tried_put h nofun trivial
  | @drain c w hat hstage hwatch => exact tried_put (s := s.mark w.conn _) h nofun trivial
  | @panic c w hat hstage => exact tried_put (s := s.mark w.conn _) h nofun trivial
  | stray hstray => exact fun c => (h c).later nofun

/-- So whoever waits has tried every connection. -/
theorem tried_run (h : Run n start log s) : ∀ c, Tried n c log (s.calls c) := by
  induction h with
  | start => exact fun _ => trivial
  | step _ hstep ih => exact tried_step ih hstep

/-! ## Going on -/

/-- The caller can take a step. -/
def Advances (n : Nat) (s : State) (c : Nat) : Prop :=
  ∃ e s', Step n s e s' ∧ s'.calls c ≠ s.calls c

/-- A step of its own that changes its phase is progress. -/
theorem advances_of {p q : Phase} (hat : s.calls c = p) (hstep : Step n s e s')
    (hnext : s'.calls c = q) (hne : q ≠ p) : Advances n s c := by
  refine ⟨e, s', hstep, ?_⟩
  rwa [hnext, hat]

/-- Whoever has a connection is not held up. -/
theorem holder_advances (h : Orderly s) (hat : s.calls c = .inside w) : Advances n s c := by
  have stages : ∀ {stage}, stage ≠ w.stage →
      Phase.inside { w with stage := stage } ≠ .inside w := by
    intro stage hne hsame
    exact hne (congrArg Work.stage (Phase.inside.inj hsame))
  have watches : ∀ {watch}, watch ≠ w.watch →
      Phase.inside { w with watch := watch } ≠ .inside w := by
    intro watch hne hsame
    exact hne (congrArg Work.watch (Phase.inside.inj hsame))
  cases hstage : w.stage with
  | between =>
    by_cases hoff : w.watch = .off
    · exact advances_of hat (.finish hat hstage hoff) (put_self s c _) nofun
    · exact advances_of hat (.tell hat hstage hoff) (put_self s c _)
        (stages (by rw [hstage]; decide))
  | running =>
    exact advances_of hat (.answer hat hstage) (put_self s c _) (stages (by rw [hstage]; decide))
  | told =>
    cases hwatch : w.watch with
    | off => exact absurd hwatch (h.joined c w hat hstage)
    | waiting =>
      exact advances_of hat (.stand hat hstage hwatch) (put_self s c _)
        (watches (by rw [hwatch]; decide))
    | late =>
      exact advances_of hat (.interrupt hat hwatch) (put_self _ c _)
        (watches (by rw [hwatch]; decide))
    | fired => exact advances_of hat (.drain hat hstage hwatch) (put_self _ c _) nofun
    | stood => exact advances_of hat (.leave hat hstage hwatch) (put_self s c _) nofun

/-- Some caller is never held up. -/
theorem some_advances (h : Orderly s) (hat : s.calls c ≠ .idle) :
    ∃ c', s.calls c' ≠ .idle ∧ Advances n s c' := by
  cases hphase : s.calls c with
  | idle => exact absurd hphase hat
  | inside w => exact ⟨c, hat, holder_advances h hphase⟩
  | trying limit first offset =>
    refine ⟨c, hat, ?_⟩
    rcases lt_or_ge offset n with hin | hall
    · by_cases htaken : s.Taken ((first + offset) % n) ∨
          (s.conns ((first + offset) % n)).poisoned = true
      · refine advances_of hphase (.busy hphase hin htaken) (put_self s c _) fun hsame => ?_
        cases hsame
      · rw [not_or, Bool.not_eq_true] at htaken
        exact advances_of hphase (.take hphase hin htaken.1 htaken.2) (put_self s c _) nofun
    · exact advances_of hphase (.block hphase hall) (put_self s c _) nofun
  | blocked limit first =>
    by_cases htaken : s.Taken first
    · obtain ⟨c', w, hin, -⟩ := htaken
      refine ⟨c', ?_, holder_advances h hin⟩
      rw [hin]
      nofun
    · exact ⟨c, hat, advances_of hphase (.lock hphase htaken) (put_self s c _) nofun⟩

/-- Only the caller's own watch interrupts it, after its limit, unless somebody before
it panicked with the connection. -/
theorem cancelled_late (h : Run n start log s) (hstep : Step n s (.cancelled c i) s') :
    (∃ c', .panicked c' i ∈ log) ∨ ∃ w limit, s.calls c = .inside w ∧ w.conn = i ∧
      w.limit = some limit ∧ w.since + limit ≤ s.now := by
  have horderly := orderly_run h
  have told : ∀ {w}, s.calls c = .inside w → (s.conns w.conn).pending = true →
      (∃ c', .panicked c' w.conn ∈ log) ∨ ∃ w' limit, s.calls c = .inside w' ∧
        w'.conn = w.conn ∧ w'.limit = some limit ∧ w'.since + limit ≤ s.now := by
    intro w hat hpending
    rcases horderly.pending w.conn hpending with hpoisoned | ⟨c', w', hin, hconn, hfired⟩
    · exact .inl (poisoned_run h hpoisoned)
    · obtain rfl := horderly.exclusive c' c w' w hin hat hconn
      obtain ⟨limit, hlimit, hdue⟩ := horderly.overdue c' w' hin (.inr hfired)
      exact .inr ⟨w', limit, hin, hconn, hlimit, hdue⟩
  cases hstep with
  | refuse hat hstage hpending => exact told hat hpending
  | cancel hat hstage hpending => exact told hat hpending

/-- Whatever order callers and watches take their steps in: no connection has two
callers; a statement is cancelled only when its own caller has had the connection for its
limit, unless somebody before it panicked with it; whoever waits has found every
connection taken since it came, where one that somebody panicked with counts as taken
for the sweep though the wait does not mind; and some caller can always go on. -/
theorem reads_isolated {n start : Nat} {log : List Event} {s : State} (h : Run n start log s) :
    (∀ c c' w w', s.calls c = .inside w → s.calls c' = .inside w' → w.conn = w'.conn → c = c') ∧
    (∀ c i s', Step n s (.cancelled c i) s' → (∃ c', .panicked c' i ∈ log) ∨
      ∃ w limit, s.calls c = .inside w ∧ w.conn = i ∧ w.limit = some limit ∧
        w.since + limit ≤ s.now) ∧
    (∀ c limit first, s.calls c = .blocked limit first → ∀ i < n, .busy c i ∈ since c log) ∧
    ∀ c, s.calls c ≠ .idle → ∃ c', s.calls c' ≠ .idle ∧ Advances n s c' := by
  refine ⟨(orderly_run h).exclusive, fun c i s' => cancelled_late h, ?_,
    fun c => some_advances (orderly_run h)⟩
  intro c limit first hat
  have htried := tried_run h c
  rw [hat] at htried
  exact htried.2

/-- A query that is interrupted after half a minute. -/
theorem reads_isolated_late : ∃ s, Run readers 0
    [.interrupted 0, .ranOut 0, .passed 30000, .queried 0, .took 0 0, .begun 0] s ∧
      ∃ c', s.calls c' ≠ .idle ∧ Advances readers s c' := by
  have hfresh : Run readers 0 [] (.fresh 0) := .start
  have hbegun := hfresh.step (.begin 0 (some queryTimeout) (by decide) rfl)
  have htook := hbegun.step (.take (put_self _ 0 _) (by decide) (by
    rintro ⟨c, w, hin, -⟩
    rcases put_inside hin with ⟨-, hw⟩ | ⟨-, hw⟩
    · cases hw
    · cases hw) rfl)
  have hqueried := htook.step (.query (put_self _ 0 _) rfl rfl)
  have hpassed := hqueried.step (.pass 30000)
  have hran := hpassed.step (@Step.runOut readers _ 0 queryTimeout
    ⟨0, 0, some queryTimeout, .waiting, .running⟩ rfl rfl rfl (le_refl 30000))
  have hfired := hran.step (.interrupt (put_self _ 0 _) rfl)
  refine ⟨_, hfired, (reads_isolated hfired).2.2.2 0 ?_⟩
  rw [put_self]
  nofun

end Romi.ReaderPool
