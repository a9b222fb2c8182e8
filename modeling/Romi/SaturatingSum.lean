import Mathlib.Algebra.Order.BigOperators.Group.List

/-!
# Sums that stop at a ceiling

Adding one non-negative amount after another under a ceiling gives the capped
sum of all of them. Nothing is lost by capping early: once the ceiling is
reached it stays reached.
-/

namespace Romi.SaturatingSum

variable {α : Type} [AddCommMonoid α] [LinearOrder α] [IsOrderedAddMonoid α]

/-- Addition that stops at `top`. -/
def capAdd (top a b : α) : α := min top (a + b)

omit [IsOrderedAddMonoid α] in
/-- A capped sum respects its ceiling. -/
theorem capAdd_le (top a b : α) : capAdd top a b ≤ top := min_le_left _ _

/-- Capping first and adding afterwards is adding first. -/
theorem capAdd_cap {top a b : α} (hb : 0 ≤ b) : capAdd top (min top a) b = capAdd top a b := by
  unfold capAdd
  rcases le_total a top with h | h
  · rw [min_eq_right h]
  · have htop : top ≤ top + b := le_add_of_nonneg_right hb
    have ha : top ≤ a + b := h.trans (le_add_of_nonneg_right hb)
    rw [min_eq_left h, min_eq_left htop, min_eq_left ha]

/-- A capped sum never falls below where it started. -/
theorem le_capAdd {top a b : α} (ha : a ≤ top) (hb : 0 ≤ b) : a ≤ capAdd top a b :=
  le_min ha (le_add_of_nonneg_right hb)

/-- Capping after every addition is capping the sum once. -/
theorem foldl_capAdd {top : α} (amounts : List α) (h : ∀ b ∈ amounts, 0 ≤ b) (a : α)
    (ha : a ≤ top) : amounts.foldl (capAdd top) a = min top (a + amounts.sum) := by
  induction amounts generalizing a with
  | nil =>
    rw [List.foldl_nil, List.sum_nil, add_zero, min_eq_right ha]
  | cons b rest ih =>
    have hb := h b List.mem_cons_self
    have hrest : ∀ c ∈ rest, 0 ≤ c := fun c hc => h c (List.mem_cons_of_mem b hc)
    rw [List.foldl_cons, ih hrest (capAdd top a b) (capAdd_le top a b), List.sum_cons, ← add_assoc]
    exact capAdd_cap (List.sum_nonneg hrest)

/-! ## Counters that start over -/

section Restart

variable {β : Type}

/-- A stamp that has been left is not met again. -/
def NoReturn (s : β) : List β → Prop
  | [] => True
  | t :: rest => (s = t ∨ s ∉ t :: rest) ∧ NoReturn t rest

/-- Stamps written from sorted values never return, whatever the first one
says, unless it names one of the values out of order. -/
theorem noReturn_of_sorted {δ : Type} [PartialOrder δ] {text : δ → β}
    (htext : Function.Injective text) (ds : List δ) (hsorted : ds.Pairwise (· ≤ ·)) (s : β)
    (hs : ∀ x ∈ ds, s = text x → ∀ d ∈ ds, x ≤ d) : NoReturn s (ds.map text) := by
  induction ds generalizing s with
  | nil => trivial
  | cons d rest ih =>
    obtain ⟨hd, hrest⟩ := List.pairwise_cons.mp hsorted
    refine ⟨?_, ih hrest (text d) ?_⟩
    · by_cases hmem : s ∈ text d :: rest.map text
      · left
        rcases List.mem_cons.mp hmem with h | h
        · exact h
        · obtain ⟨x, hx, hxs⟩ := List.mem_map.mp h
          have hle := hs x (List.mem_cons_of_mem d hx) hxs.symm d List.mem_cons_self
          rw [← hxs, le_antisymm hle (hd x hx)]
      · exact .inr hmem
    · intro x _ hdx e he
      rw [← htext hdx]
      exact hd e he

variable [DecidableEq β]

/-- A counter with a stamp starts over when the stamp changes. -/
def restart (top : α) (counter entry : β × α) : β × α :=
  (entry.1, if counter.1 ≠ entry.1 then entry.2 else capAdd top counter.2 entry.2)

/-- The amounts that carry one stamp. -/
def stampedSum (stamp : β) (entries : List (β × α)) : α :=
  ((entries.filter fun e => e.1 = stamp).map Prod.snd).sum

omit [LinearOrder α] [IsOrderedAddMonoid α] in
/-- The first entry counts when it has the stamp. -/
theorem stampedSum_cons (stamp : β) (e : β × α) (rest : List (β × α)) :
    stampedSum stamp (e :: rest) = (if e.1 = stamp then e.2 else 0) + stampedSum stamp rest := by
  unfold stampedSum
  by_cases h : e.1 = stamp
  · rw [List.filter_cons_of_pos (by simpa using h), List.map_cons, List.sum_cons, if_pos h]
  · rw [List.filter_cons_of_neg (by simpa using h), if_neg h, zero_add]

omit [IsOrderedAddMonoid α] in
/-- The stamp a counter ends with is the first one or one it met. -/
theorem foldl_restart_stamp (top : α) (entries : List (β × α)) (c : β × α) :
    (entries.foldl (restart top) c).1 ∈ c.1 :: entries.map Prod.fst := by
  induction entries generalizing c with
  | nil => exact List.mem_cons_self
  | cons e rest ih => exact List.mem_cons_of_mem _ (ih (restart top c e))

/-- While no stamp returns, a counter holds the capped sum of what carried
its stamp. -/
theorem foldl_restart {top : α} (entries : List (β × α)) (he : ∀ e ∈ entries, 0 ≤ e.2 ∧ e.2 ≤ top)
    (c : β × α) (hc : c.2 ≤ top) (hno : NoReturn c.1 (entries.map Prod.fst)) {stamp : β}
    (hstamp : (entries.foldl (restart top) c).1 = stamp) :
    (entries.foldl (restart top) c).2 =
      min top ((if c.1 = stamp then c.2 else 0) + stampedSum stamp entries) := by
  induction entries generalizing c with
  | nil =>
    have hsame : c.1 = stamp := hstamp
    rw [List.foldl_nil, if_pos hsame, stampedSum, List.filter_nil, List.map_nil, List.sum_nil,
      add_zero, min_eq_right hc]
  | cons e rest ih =>
    obtain ⟨hpos, htop⟩ := he e List.mem_cons_self
    have hrest : ∀ x ∈ rest, 0 ≤ x.2 ∧ x.2 ≤ top := fun x hx => he x (List.mem_cons_of_mem e hx)
    obtain ⟨hleft, hnext⟩ := hno
    have hsum : 0 ≤ stampedSum stamp rest := by
      refine List.sum_nonneg ?_
      intro a ha
      obtain ⟨x, hx, rfl⟩ := List.mem_map.mp ha
      exact (hrest x (List.mem_of_mem_filter hx)).1
    have hcap : (restart top c e).2 ≤ top := by
      unfold restart
      split
      · exact htop
      · exact capAdd_le _ _ _
    rw [List.foldl_cons, ih hrest (restart top c e) hcap hnext hstamp, stampedSum_cons]
    change min top ((if e.1 = stamp then _ else 0) + _) = _
    by_cases hes : e.1 = stamp
    · by_cases hcs : c.1 = stamp
      · -- The counter runs on under its stamp.
        have hkeep : (restart top c e).2 = min top (c.2 + e.2) := by
          rw [restart, if_neg (not_not.mpr (hcs.trans hes.symm))]
          rfl
        rw [if_pos hes, if_pos hes, if_pos hcs, hkeep, ← add_assoc]
        exact capAdd_cap hsum
      · -- It starts over with this entry.
        have hover : (restart top c e).2 = e.2 := by
          rw [restart, if_pos (fun h => hcs (h.trans hes))]
        rw [if_pos hes, if_pos hes, if_neg hcs, hover, zero_add]
    · have hcs : c.1 ≠ stamp := by
        intro h
        have hend := foldl_restart_stamp top rest (restart top c e)
        rcases hleft with hleft | hleft
        · exact hes (hleft.symm.trans h)
        · rw [List.foldl_cons] at hstamp
          rw [hstamp, ← h] at hend
          exact hleft hend
      rw [if_neg hes, if_neg hes, if_neg hcs, zero_add, zero_add]

end Restart

end Romi.SaturatingSum
