import Mathlib.Data.Multiset.Count
import Mathlib.Data.Multiset.AddSub

/-!
# Failures in windows

An attempt is let in, checked, and then fails, succeeds or goes away. The
failures of one key since its last success fall into windows, each counted
from its first failure. When an attempt is let in only while the failures of
the window and the attempts already inside leave room for one more, no window
holds more failures than the limit, and no attempt is checked in a full one.
-/

namespace Romi.FailureWindows

variable {κ : Type} [DecidableEq κ]

/-- So many failures in so long a window. -/
structure Limit where
  /-- How many failures are let through. -/
  attempts : Nat
  /-- For how long they count. -/
  window : Int

/-- What happens to the attempts of a key, with the time. -/
inductive Event (κ : Type)
  /-- A key was compared. -/
  | checked (key : κ) (now : Int)
  /-- It failed. -/
  | failed (key : κ) (now : Int)
  /-- It succeeded. -/
  | succeeded (key : κ) (now : Int)

/-! ## Windows -/

/-- A window still running: its failures, and since when. -/
def live (limit : Limit) (now : Int) (w : Option (Nat × Int)) : Option (Nat × Int) :=
  w.filter fun e => now - e.2 < limit.window

/-- The failures of a window still running. -/
def count (limit : Limit) (now : Int) (w : Option (Nat × Int)) : Nat :=
  ((live limit now w).getD (0, now)).1

/-- One more failure: in the window that is running, or as the first of a new one. -/
def miss (limit : Limit) (now : Int) (w : Option (Nat × Int)) : Nat × Int :=
  let e := (live limit now w).getD (0, now)
  (e.1 + 1, e.2)

/-- The last window of a key, of what has happened, newest first. -/
def window (limit : Limit) (key : κ) : List (Event κ) → Option (Nat × Int)
  | [] => none
  | .checked _ _ :: earlier => window limit key earlier
  | .failed k now :: earlier =>
    if k = key then some (miss limit now (window limit key earlier)) else window limit key earlier
  | .succeeded k _ :: earlier => if k = key then none else window limit key earlier

/-- At every moment so far no window had more failures than the limit, and nothing was checked
in one that had as many. -/
structure Bounded (limit : Limit) (log : List (Event κ)) : Prop where
  /-- No window holds more failures than are let through. -/
  failures : ∀ earlier, earlier <:+ log → ∀ key n since,
    window limit key earlier = some (n, since) → n ≤ limit.attempts
  /-- Nobody is compared past that. -/
  refused : ∀ key now earlier, Event.checked key now :: earlier <:+ log →
    count limit now (window limit key earlier) < limit.attempts

/-- What no longer runs does not run later. -/
theorem live_live (limit : Limit) {now later : Int} (h : now ≤ later) (w : Option (Nat × Int)) :
    live limit later (live limit now w) = live limit later w := by
  cases w with
  | none => rfl
  | some e =>
    by_cases hlater : later - e.2 < limit.window
    · have hnow : now - e.2 < limit.window := by omega
      simp [live, Option.filter, hlater, hnow]
    · by_cases hnow : now - e.2 < limit.window
      · simp [live, Option.filter, hlater, hnow]
      · simp [live, Option.filter, hlater, hnow]

/-- Windows of which the same part runs have as many failures. -/
theorem count_congr {limit : Limit} {now : Int} {w v : Option (Nat × Int)}
    (h : live limit now w = live limit now v) : count limit now w = count limit now v := by
  rw [count, count, h]

/-- They have the same next failure. -/
theorem miss_congr {limit : Limit} {now : Int} {w v : Option (Nat × Int)}
    (h : live limit now w = live limit now v) : miss limit now w = miss limit now v := by
  simp only [miss, h]

/-- The failures are no more once time has passed. -/
theorem count_later (limit : Limit) {now later : Int} (h : now ≤ later) (w : Option (Nat × Int)) :
    count limit later w ≤ count limit now w := by
  rw [count, ← live_live limit h w, count]
  cases hw : live limit now w with
  | none => simp [live]
  | some e =>
    by_cases hlater : later - e.2 < limit.window
    · simp [live, Option.filter, hlater]
    · simp [live, Option.filter, hlater]

/-- The failures of a window are no more than it has. -/
theorem count_some (limit : Limit) (now : Int) (e : Nat × Int) :
    count limit now (some e) ≤ e.1 := by
  by_cases hlive : now - e.2 < limit.window
  · simp [count, live, Option.filter, hlive]
  · simp [count, live, Option.filter, hlive]

/-- A failure adds one. -/
theorem miss_fst (limit : Limit) (now : Int) (w : Option (Nat × Int)) :
    (miss limit now w).1 = count limit now w + 1 := rfl

/-- A key that never failed. -/
@[simp] theorem count_none (limit : Limit) (now : Int) : count limit now none = 0 := rfl

/-- Nothing has happened. -/
theorem Bounded.nil (limit : Limit) : Bounded limit ([] : List (Event κ)) := by
  refine ⟨fun earlier hsuffix key n since hw => ?_, fun key now earlier hsuffix => ?_⟩
  · rw [List.suffix_nil.1 hsuffix] at hw
    cases hw
  · exact absurd (List.suffix_nil.1 hsuffix) (List.cons_ne_nil _ _)

/-- What one more event must meet. -/
theorem Bounded.cons {limit : Limit} {log : List (Event κ)} (h : Bounded limit log)
    (event : Event κ)
    (hfailures : ∀ key n since, window limit key (event :: log) = some (n, since) →
      n ≤ limit.attempts)
    (hrefused : ∀ key now, event = .checked key now →
      count limit now (window limit key log) < limit.attempts) :
    Bounded limit (event :: log) := by
  refine ⟨fun earlier hsuffix key n since hw => ?_, fun key now earlier hsuffix => ?_⟩
  · rcases List.suffix_cons_iff.1 hsuffix with rfl | hsuffix
    · exact hfailures key n since hw
    · exact h.failures earlier hsuffix key n since hw
  · rcases List.suffix_cons_iff.1 hsuffix with heq | hsuffix
    · obtain ⟨hevent, rfl⟩ := List.cons.inj heq
      exact hrefused key now hevent.symm
    · exact h.refused key now earlier hsuffix

/-! ## Attempts -/

/-- The clock, the keys of the attempts inside, and what has happened, newest first. -/
structure State (κ : Type) where
  /-- The time. -/
  now : Int
  /-- The keys that were let in and have not ended. -/
  inside : Multiset κ
  /-- What has happened, the newest first. -/
  log : List (Event κ)

/-- There is room for one more attempt with this key. -/
def State.Room (limit : Limit) (s : State κ) (key : κ) : Prop :=
  count limit s.now (window limit key s.log) + s.inside.count key < limit.attempts

/-- One step, with the keys that may be let in. -/
inductive Step (allowed : State κ → κ → Prop) (s : State κ) : State κ → Prop
  /-- Time goes by. -/
  | tick (n : Nat) : Step allowed s { s with now := s.now + n }
  /-- A key is let in. -/
  | entered (key : κ) (hallowed : allowed s key) :
    Step allowed s { s with inside := key ::ₘ s.inside }
  /-- It leaves without having failed. -/
  | left (key : κ) (rest : Multiset κ) (hin : s.inside = key ::ₘ rest) :
    Step allowed s { s with inside := rest }
  /-- It is compared. -/
  | checked (key : κ) (hin : key ∈ s.inside) :
    Step allowed s { s with log := .checked key s.now :: s.log }
  /-- It fails. -/
  | failed (key : κ) (rest : Multiset κ) (hin : s.inside = key ::ₘ rest) :
    Step allowed s { s with inside := rest, log := .failed key s.now :: s.log }
  /-- It succeeds. -/
  | succeeded (key : κ) (rest : Multiset κ) (hin : s.inside = key ::ₘ rest) :
    Step allowed s { s with inside := rest, log := .succeeded key s.now :: s.log }

/-- The room that is taken is never more than there is. -/
structure Kept (limit : Limit) (s : State κ) : Prop where
  /-- Whoever is inside has room to fail. -/
  room : ∀ key, count limit s.now (window limit key s.log) + s.inside.count key ≤ limit.attempts
  /-- And what has happened is bounded. -/
  bounded : Bounded limit s.log

/-- At first everything is free. -/
theorem Kept.start (limit : Limit) (now : Int) : Kept limit ⟨now, (0 : Multiset κ), []⟩ :=
  ⟨fun key => by simp [window], .nil limit⟩

/-- A failure runs the window of its key on. -/
theorem window_failed_self (limit : Limit) (key : κ) (now : Int) (log : List (Event κ)) :
    window limit key (.failed key now :: log) = some (miss limit now (window limit key log)) := by
  simp [window]

/-- And leaves those of the others. -/
theorem window_failed_other (limit : Limit) {key other : κ} (h : other ≠ key) (now : Int)
    (log : List (Event κ)) :
    window limit other (.failed key now :: log) = window limit other log := by
  simp [window, Ne.symm h]

/-- A success ends the window of its key. -/
theorem window_succeeded_self (limit : Limit) (key : κ) (now : Int) (log : List (Event κ)) :
    window limit key (.succeeded key now :: log) = none := by
  simp [window]

/-- And leaves those of the others. -/
theorem window_succeeded_other (limit : Limit) {key other : κ} (h : other ≠ key) (now : Int)
    (log : List (Event κ)) :
    window limit other (.succeeded key now :: log) = window limit other log := by
  simp [window, Ne.symm h]

section OneStep

variable {limit : Limit} {s : State κ} {key : κ} {rest : Multiset κ}

/-- Time only frees room. -/
theorem Kept.later (h : Kept limit s) (n : Nat) : Kept limit { s with now := s.now + n } := by
  refine ⟨fun other => ?_, h.bounded⟩
  have hroom := h.room other
  have hlater := count_later limit (show s.now ≤ s.now + n by omega) (window limit other s.log)
  show count limit (s.now + n) (window limit other s.log) + s.inside.count other ≤ _
  omega

/-- A key for which there is room may be let in. -/
theorem Kept.enter (h : Kept limit s) (hroom : s.Room limit key) :
    Kept limit { s with inside := key ::ₘ s.inside } := by
  refine ⟨fun other => ?_, h.bounded⟩
  show _ + (key ::ₘ s.inside).count other ≤ _
  by_cases hkey : other = key
  · subst hkey
    rw [Multiset.count_cons_self]
    exact hroom
  · rw [Multiset.count_cons_of_ne hkey]
    exact h.room other

/-- Whoever leaves makes room. -/
theorem Kept.leave (h : Kept limit s) (hin : s.inside = key ::ₘ rest) :
    Kept limit { s with inside := rest } := by
  refine ⟨fun other => ?_, h.bounded⟩
  have hroom := h.room other
  have hle : rest.count other ≤ s.inside.count other := by
    rw [hin]
    exact Multiset.count_le_count_cons other key rest
  show count limit s.now (window limit other s.log) + rest.count other ≤ _
  omega

/-- Whoever is compared is inside, so the limit is not reached. -/
theorem Kept.check (h : Kept limit s) (hin : key ∈ s.inside) :
    Kept limit { s with log := .checked key s.now :: s.log } := by
  have hroom := h.room key
  have hpos : 0 < s.inside.count key := Multiset.count_pos.2 hin
  refine ⟨fun other => h.room other, h.bounded.cons _ (fun other n since hw => ?_)
    fun other now hevent => ?_⟩
  · exact h.bounded.failures s.log (List.suffix_refl _) other n since hw
  · obtain ⟨rfl, rfl⟩ := Event.checked.inj hevent
    omega

/-- A failure takes the room its attempt had. -/
theorem Kept.fail (h : Kept limit s) (hin : s.inside = key ::ₘ rest) :
    Kept limit { s with inside := rest, log := .failed key s.now :: s.log } := by
  have hroom := h.room key
  rw [hin, Multiset.count_cons_self] at hroom
  refine ⟨fun other => ?_, h.bounded.cons _ (fun other n since hw => ?_) fun _ _ h => nomatch h⟩
  · show count limit s.now (window limit other (.failed key s.now :: s.log)) + rest.count other ≤ _
    by_cases hkey : other = key
    · subst hkey
      have hcount := count_some limit s.now (miss limit s.now (window limit other s.log))
      rw [miss_fst] at hcount
      rw [window_failed_self]
      omega
    · have hfree := h.room other
      rw [hin, Multiset.count_cons_of_ne hkey] at hfree
      rw [window_failed_other limit hkey]
      exact hfree
  · by_cases hkey : other = key
    · subst hkey
      rw [window_failed_self] at hw
      have hn := congrArg Prod.fst (Option.some.inj hw)
      rw [miss_fst] at hn
      omega
    · rw [window_failed_other limit hkey] at hw
      exact h.bounded.failures s.log (List.suffix_refl _) other n since hw

/-- A success makes room. -/
theorem Kept.succeed (h : Kept limit s) (hin : s.inside = key ::ₘ rest) :
    Kept limit { s with inside := rest, log := .succeeded key s.now :: s.log } := by
  refine ⟨fun other => ?_, h.bounded.cons _ (fun other n since hw => ?_) fun _ _ h => nomatch h⟩
  · show count limit s.now (window limit other (.succeeded key s.now :: s.log)) + rest.count other
      ≤ _
    have hroom : count limit s.now (window limit other s.log) + rest.count other ≤ limit.attempts :=
      (h.leave hin).room other
    by_cases hkey : other = key
    · subst hkey
      rw [window_succeeded_self, count_none]
      omega
    · rw [window_succeeded_other limit hkey]
      exact hroom
  · by_cases hkey : other = key
    · subst hkey
      rw [window_succeeded_self] at hw
      cases hw
    · rw [window_succeeded_other limit hkey] at hw
      exact h.bounded.failures s.log (List.suffix_refl _) other n since hw

end OneStep

/-- Letting attempts in only while there is room keeps it so. -/
theorem Kept.step {limit : Limit} {s s' : State κ} (h : Kept limit s)
    (hstep : Step (State.Room limit) s s') : Kept limit s' := by
  cases hstep with
  | tick n => exact h.later n
  | entered key hallowed => exact h.enter hallowed
  | left key rest hin => exact h.leave hin
  | checked key hin => exact h.check hin
  | failed key rest hin => exact h.fail hin
  | succeeded key rest hin => exact h.succeed hin

end Romi.FailureWindows
