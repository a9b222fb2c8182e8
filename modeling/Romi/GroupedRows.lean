import Romi.KeyedTable

/-!
# Grouping rows into a keyed table

GROUP BY forms one row for each key that occurs among the selected rows. The
result carries its key constraint by construction. A weight that an aggregate
row sums up over its group has the same total before and after grouping.
-/

namespace Romi.GroupedRows

open Finset KeyedTable

variable {ρ ρ' κ : Type} [DecidableEq ρ'] [DecidableEq κ]

/-- The rows of one group. -/
def groupOf (s : Finset ρ) (f : ρ → κ) (k : κ) : Finset ρ := s.filter fun r => f r = k

/-- The group of a row holds the row. -/
theorem groupOf_nonempty {s : Finset ρ} {f : ρ → κ} {r : ρ} (h : r ∈ s) :
    (groupOf s f (f r)).Nonempty := ⟨r, mem_filter.mpr ⟨h, rfl⟩⟩

/-- Forms one row from each non-empty group. -/
def groupBy {key : ρ' → κ} (s : Finset ρ) (f : ρ → κ)
    (agg : (k : κ) → (g : Finset ρ) → g.Nonempty → ρ') (hagg : ∀ k g h, key (agg k g h) = k) :
    Table key where
  rows := s.attach.image fun r => agg (f r.1) (groupOf s f (f r.1)) (groupOf_nonempty r.2)
  unique := by
    intro x hx y hy hxy
    obtain ⟨r, -, rfl⟩ := mem_image.mp hx
    obtain ⟨q, -, rfl⟩ := mem_image.mp hy
    rw [hagg, hagg] at hxy
    simp only [hxy]

variable {key : ρ' → κ} {s : Finset ρ} {f : ρ → κ}
  {agg : (k : κ) → (g : Finset ρ) → g.Nonempty → ρ'} {hagg : ∀ k g h, key (agg k g h) = k}

/-- A row of the result is the aggregate of a group. -/
theorem mem_groupBy {x : ρ'} :
    x ∈ (groupBy s f agg hagg).rows ↔
      ∃ r, ∃ hr : r ∈ s, x = agg (f r) (groupOf s f (f r)) (groupOf_nonempty hr) := by
  simp only [groupBy, mem_image, mem_attach, true_and, Subtype.exists]
  exact exists_congr fun r => exists_congr fun hr => eq_comm

/-- A group exists for exactly the keys that occur. -/
theorem has_groupBy {k : κ} : (groupBy s f agg hagg).Has k ↔ ∃ r ∈ s, f r = k := by
  constructor
  · rintro ⟨x, hx, rfl⟩
    obtain ⟨r, hr, rfl⟩ := mem_groupBy.mp hx
    exact ⟨r, hr, (hagg _ _ _).symm⟩
  · rintro ⟨r, hr, rfl⟩
    exact ⟨_, mem_groupBy.mpr ⟨r, hr, rfl⟩, hagg _ _ _⟩

/-- Summing aggregates is summing the rows they were formed from. -/
theorem sumWhere_groupBy [DecidableEq ρ] {M : Type} [AddCommMonoid M] (p : κ → Prop) [DecidablePred p]
    (w : ρ → M) (w' : ρ' → M) (hw : ∀ k g h, w' (agg k g h) = ∑ r ∈ g, w r) :
    (groupBy s f agg hagg).sumWhere p w' = ∑ r ∈ s.filter (fun r => p (f r)), w r := by
  have hrow : ∀ x ∈ (groupBy s f agg hagg).rows, w' x = ∑ r ∈ groupOf s f (key x), w r := by
    intro x hx
    obtain ⟨r, hr, rfl⟩ := mem_groupBy.mp hx
    rw [hw, hagg]
  have hcover : s.filter (fun r => p (f r)) =
      ((groupBy s f agg hagg).rows.filter fun x => p (key x)).biUnion
        fun x => groupOf s f (key x) := by
    ext r
    simp only [mem_filter, mem_biUnion, groupOf]
    constructor
    · rintro ⟨hr, hp⟩
      refine ⟨agg (f r) (groupOf s f (f r)) (groupOf_nonempty hr),
        ⟨mem_groupBy.mpr ⟨r, hr, rfl⟩, ?_⟩, hr, (hagg _ _ _).symm⟩
      rwa [hagg]
    · rintro ⟨x, ⟨-, hp⟩, hr, hk⟩
      exact ⟨hr, by rwa [hk]⟩
  rw [hcover, sum_biUnion]
  · exact sum_congr rfl fun x hx => hrow x (mem_of_mem_filter x hx)
  · intro x hx y hy hxy
    rw [Function.onFun, disjoint_left]
    intro r hr hr'
    have hkey : key x = key y := (mem_filter.mp hr).2.symm.trans (mem_filter.mp hr').2
    exact hxy ((groupBy s f agg hagg).unique x (mem_of_mem_filter x hx) y
      (mem_of_mem_filter y hy) hkey)

end Romi.GroupedRows
