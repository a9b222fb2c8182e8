import Mathlib.Data.List.Basic

/-!
# Runs with a log

A system goes from state to state, and every step shows an event. The log of a
run has the last event first; a piece of the log is the log of a piece of the
run.
-/

namespace Romi.LoggedRuns

variable {σ ε : Type} {step : σ → ε → σ → Prop}

/-- From one state to another, showing these events. -/
inductive Run (step : σ → ε → σ → Prop) (start : σ) : List ε → σ → Prop
  /-- Nothing has happened. -/
  | start : Run step start [] start
  /-- One event more, put in front. -/
  | step {log : List ε} {s s' : σ} {e : ε} (h : Run step start log s) (hstep : step s e s') :
      Run step start (e :: log) s'

/-- The state a log was cut at. -/
theorem Run.split {start s : σ} {after before : List ε} (h : Run step start (after ++ before) s) :
    ∃ mid, Run step start before mid ∧ Run step mid after s := by
  induction after generalizing s with
  | nil => exact ⟨s, h, .start⟩
  | cons e after ih =>
    cases h with
    | step hrest hstep =>
      obtain ⟨mid, hbefore, hafter⟩ := ih hrest
      exact ⟨mid, hbefore, hafter.step hstep⟩

/-- The step that showed an event of the log, with what came before and after. -/
theorem Run.at {start s : σ} {after before : List ε} {e : ε}
    (h : Run step start (after ++ e :: before) s) : ∃ s₁ s₂, Run step start before s₁ ∧
      step s₁ e s₂ ∧ Run step s₂ after s := by
  obtain ⟨s₂, hbefore, hafter⟩ := h.split
  cases hbefore with
  | step hrest hstep => exact ⟨_, s₂, hrest, hstep, hafter⟩

/-- What every step with a permitted event keeps, a run of such steps keeps. -/
theorem Run.keeps {start s : σ} {log : List ε} {P : σ → Prop} {permitted : ε → Prop}
    (h : Run step start log s) (hlog : ∀ e ∈ log, permitted e) (hstart : P start)
    (hstep : ∀ s e s', P s → permitted e → step s e s' → P s') : P s := by
  induction h with
  | start => exact hstart
  | step _ hs ih =>
    exact hstep _ _ _ (ih fun e he => hlog e (List.mem_cons_of_mem _ he)) (hlog _ List.mem_cons_self)
      hs

/-- What every step keeps, every run keeps. -/
theorem Run.always {start s : σ} {log : List ε} {P : σ → Prop} (h : Run step start log s)
    (hstart : P start) (hstep : ∀ s e s', P s → step s e s' → P s') : P s :=
  @Run.keeps _ _ _ _ _ _ P (fun _ => True) h (fun _ _ => trivial) hstart
    fun s e s' hs _ => hstep s e s' hs

end Romi.LoggedRuns
