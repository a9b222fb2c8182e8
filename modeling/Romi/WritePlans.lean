import Romi.CachedTransactions
import Mathlib.Data.List.ReduceOption

/-!
# Plans of writes

A job that is not one transaction leaves behind what it wrote before it broke
off. It is described by the plan of its writes: a refusal cuts the plan short,
and a job that follows a plan has done exactly the part before the cut.
-/

namespace Romi.WritePlans

open CachedTransactions CachedTransactions.Job

variable {σ γ ω α β : Type}

/-- The writes of a plan that are done when the engine answers so. The plan
stops for good where a value to write cannot be had. -/
def carried : List Bool → List (Option ω) → List ω
  | _, [] => []
  | _, none :: _ => []
  | [], some w :: rest => w :: carried [] rest
  | true :: _, some _ :: _ => []
  | false :: refusals, some w :: rest => w :: carried refusals rest

/-- The job does the writes of the plan up to the first one that fails, and
fails exactly when one does. -/
def Does (effect : σ → ω → σ) (x : Job σ γ α) (plan : List (Option ω)) : Prop :=
  ∀ s, (x s).2.db = (carried s.refusals plan).foldl effect s.db ∧
    ((∃ a, (x s).1 = .ok a) ↔ (carried s.refusals plan).length = plan.length) ∧
    ((∃ a, (x s).1 = .ok a) → (x s).2.refusals = s.refusals.drop plan.length)

variable {effect : σ → ω → σ}

/-- No plan carries out nothing. -/
@[simp] theorem carried_nil (refusals : List Bool) : carried refusals ([] : List (Option ω)) = [] := by
  cases refusals <;> rfl

/-- A plan that fails stops there. -/
@[simp] theorem carried_none (refusals : List Bool) (rest : List (Option ω)) :
    carried refusals (none :: rest) = [] := by
  cases refusals <;> rfl

/-- No more is carried out than planned. -/
theorem carried_length_le (refusals : List Bool) (plan : List (Option ω)) :
    (carried refusals plan).length ≤ plan.length := by
  induction plan generalizing refusals with
  | nil => simp
  | cons w rest ih =>
    cases w with
    | none => simp
    | some w =>
      cases refusals with
      | nil =>
        simp only [carried, List.length_cons]
        exact Nat.succ_le_succ (ih [])
      | cons refused refusals =>
        cases refused with
        | true => simp [carried]
        | false =>
          simp only [carried, List.length_cons]
          exact Nat.succ_le_succ (ih refusals)

/-- A plan that was cut short is all that was done of a longer one. -/
theorem carried_append_short {refusals : List Bool} {plan : List (Option ω)}
    (h : (carried refusals plan).length ≠ plan.length) (more : List (Option ω)) :
    carried refusals (plan ++ more) = carried refusals plan := by
  induction plan generalizing refusals with
  | nil => simp at h
  | cons w rest ih =>
    cases w with
    | none => rw [List.cons_append, carried_none, carried_none]
    | some w =>
      cases refusals with
      | nil =>
        simp only [carried, List.length_cons, ne_eq, Nat.add_right_cancel_iff] at h
        rw [List.cons_append, carried, carried, ih h]
      | cons refused refusals =>
        cases refused with
        | true => rfl
        | false =>
          simp only [carried, List.length_cons, ne_eq, Nat.add_right_cancel_iff] at h
          rw [List.cons_append, carried, carried, ih h]

/-- After a plan that was carried through the next one begins. -/
theorem carried_append_whole {refusals : List Bool} {plan : List (Option ω)}
    (h : (carried refusals plan).length = plan.length) (more : List (Option ω)) :
    carried refusals (plan ++ more) =
      carried refusals plan ++ carried (refusals.drop plan.length) more := by
  induction plan generalizing refusals with
  | nil => simp
  | cons w rest ih =>
    cases w with
    | none => simp at h
    | some w =>
      cases refusals with
      | nil =>
        simp only [carried, List.length_cons, Nat.add_right_cancel_iff] at h
        rw [List.cons_append, carried, carried, ih h, List.cons_append, List.drop_nil,
          List.drop_nil]
      | cons refused refusals =>
        cases refused with
        | true => simp [carried] at h
        | false =>
          simp only [carried, List.length_cons, Nat.add_right_cancel_iff] at h
          rw [List.cons_append, carried, carried, ih h, List.cons_append, List.length_cons,
            List.drop_succ_cons]

/-- What was done of a plan is a beginning of its writes. -/
theorem carried_beginning (refusals : List Bool) (plan : List (Option ω)) :
    carried refusals plan <+: plan.reduceOption := by
  induction plan generalizing refusals with
  | nil => simp
  | cons w rest ih =>
    cases w with
    | none => simp
    | some w =>
      rw [List.reduceOption_cons_of_some]
      cases refusals with
      | nil => exact List.cons_prefix_cons.mpr ⟨rfl, ih []⟩
      | cons refused refusals =>
        cases refused with
        | true => exact List.nil_prefix
        | false => exact List.cons_prefix_cons.mpr ⟨rfl, ih refusals⟩

/-! ## Jobs that follow a plan -/

/-- To return is to do nothing. -/
theorem Does.pure (a : α) : Does effect (pure a : Job σ γ α) [] := by
  intro s
  rw [carried_nil]
  exact ⟨rfl, ⟨fun _ => rfl, fun _ => ⟨a, rfl⟩⟩, fun _ => rfl⟩

/-- To fail is to stop. -/
theorem Does.fail (e : Failure) : Does effect (Job.fail e : Job σ γ α) [none] := by
  intro s
  rw [carried_none]
  refine ⟨rfl, ⟨?_, ?_⟩, ?_⟩
  · rintro ⟨a, ha⟩
    cases ha
  · intro h
    cases h
  · rintro ⟨a, ha⟩
    cases ha

/-- A write of one statement. -/
theorem Does.execute (w : ω) :
    Does effect (Job.execute fun db => effect db w : Job σ γ Unit) [some w] := by
  intro s
  obtain ⟨db, cache, refusals⟩ := s
  cases refusals with
  | nil => exact ⟨rfl, ⟨fun _ => rfl, fun _ => ⟨(), rfl⟩⟩, fun _ => rfl⟩
  | cons refused rest =>
    cases refused with
    | false => exact ⟨rfl, ⟨fun _ => rfl, fun _ => ⟨(), rfl⟩⟩, fun _ => rfl⟩
    | true =>
      refine ⟨rfl, ⟨?_, ?_⟩, ?_⟩
      · rintro ⟨a, ha⟩
        cases ha
      · intro h
        cases h
      · rintro ⟨a, ha⟩
        cases ha

/-- One job after another. -/
theorem Does.bind {x : Job σ γ α} {f : α → Job σ γ β} {plan more : List (Option ω)}
    (hx : Does effect x plan) (hf : ∀ a, Does effect (f a) more) :
    Does effect (x >>= f) (plan ++ more) := by
  intro s
  obtain ⟨hdb, hok, hleft⟩ := hx s
  cases hrun : x s with
  | mk r s' =>
    rw [hrun] at hdb hok hleft
    dsimp only at hdb hok hleft
    cases r with
    | error e =>
      have hfailed : (x >>= f) s = (.error e, s') := by
        change andThen x f s = _
        unfold andThen
        rw [hrun]
      have hshort : (carried s.refusals plan).length ≠ plan.length := by
        intro h
        obtain ⟨a, ha⟩ := hok.mpr h
        cases ha
      have hlt := carried_length_le s.refusals plan
      rw [hfailed, carried_append_short hshort, List.length_append]
      refine ⟨hdb, ⟨?_, ?_⟩, ?_⟩
      · rintro ⟨b, hb⟩
        cases hb
      · intro h
        omega
      · rintro ⟨b, hb⟩
        cases hb
    | ok a =>
      have hwhole := hok.mp ⟨a, rfl⟩
      have hrest : s'.refusals = s.refusals.drop plan.length := hleft ⟨a, rfl⟩
      obtain ⟨hdb', hok', hleft'⟩ := hf a s'
      have hgoes : (x >>= f) s = f a s' := by
        change andThen x f s = _
        unfold andThen
        rw [hrun]
      rw [hgoes, carried_append_whole hwhole, List.foldl_append, ← hdb, ← hrest,
        List.length_append, List.length_append, hwhole]
      refine ⟨hdb', ?_, ?_⟩
      · rw [hok']
        omega
      · intro h
        rw [hleft' h, hrest, List.drop_drop]

end Romi.WritePlans
