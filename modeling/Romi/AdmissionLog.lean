import Mathlib.Data.List.Basic
import Mathlib.Order.Lattice

/-!
# Admissions that counted those before them

Whoever is admitted was counted against a limit together with everybody
admitted at or after a moment of its own choosing. As long as nobody chooses a
moment inside a window, no window takes in more than the limit, however the
choices of different windows are mixed.
-/

namespace Romi.AdmissionLog

variable {α β : Type} [LinearOrder β] (made since : α → β)

/-- A log, newest first, in which every entry found fewer than the limit
earlier ones that were made no earlier than its own moment. -/
def Counted (limit : Nat) : List α → Prop
  | [] => True
  | g :: earlier => (earlier.filter fun e => since g ≤ made e).length < limit ∧
      Counted limit earlier

variable {made since}

/-- A span takes in at most the limit if whoever is in it counted all of it. -/
theorem Counted.length_le {limit : Nat} {log : List α} (h : Counted made since limit log)
    {p : β → Prop} [DecidablePred p] (hp : ∀ g ∈ log, p (made g) → ∀ t, p t → since g ≤ t) :
    (log.filter fun g => p (made g)).length ≤ limit := by
  induction log with
  | nil => exact Nat.zero_le _
  | cons g earlier ih =>
    have hrest := ih h.2 fun e he => hp e (List.mem_cons_of_mem _ he)
    by_cases hin : p (made g)
    · have hless : (earlier.filter fun e => p (made e)).length ≤
          (earlier.filter fun e => since g ≤ made e).length := by
        rw [← List.countP_eq_length_filter, ← List.countP_eq_length_filter]
        refine List.countP_mono_left fun e _ he => ?_
        exact decide_eq_true (hp g List.mem_cons_self hin (made e) (of_decide_eq_true he))
      have hcount := h.1
      simp only [List.filter_cons, decide_eq_true hin, if_true, List.length_cons]
      omega
    · simp only [List.filter_cons, decide_eq_false hin, Bool.false_eq_true, if_false]
      exact hrest

/-- From one opening to the next, if there is a next. -/
def InWindow (opened : List β) (a t : β) : Prop := a ≤ t ∧ ∀ c ∈ opened, a < c → t < c

instance (opened : List β) (a : β) : DecidablePred (InWindow opened a) := fun _ => instDecidableAnd

/-- No window takes in more than the limit when every moment chosen is an
opening or before the window. -/
theorem Counted.window_le {limit : Nat} {log : List α} (h : Counted made since limit log)
    {opened : List β} {a : β} (hmade : ∀ g ∈ log, since g ≤ made g)
    (hknown : ∀ g ∈ log, since g ≤ a ∨ since g ∈ opened) :
    (log.filter fun g => InWindow opened a (made g)).length ≤ limit := by
  refine h.length_le ?_
  intro g hg hin t ht
  rcases hknown g hg with hle | hopened
  · exact hle.trans ht.1
  · rcases le_or_gt (since g) a with hle | hlater
    · exact hle.trans ht.1
    · exact absurd (hmade g hg) (not_le.mpr (hin.2 _ hopened hlater))

end Romi.AdmissionLog
