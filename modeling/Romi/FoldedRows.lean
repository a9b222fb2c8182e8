import Romi.KeyedTable

/-!
# A table of which some rows were folded into groups

Rows leave a table for the groups they belong to, and a group keeps only their
total. Against the table that kept every row nothing is missing and nothing is
there twice: within a window of groups a total over the rows that are left and
over the groups is the total over all rows.
-/

namespace Romi.FoldedRows

open Finset KeyedTable

variable {ρ η κ κ' M : Type} [AddCommMonoid M] {key : ρ → κ} {groupKey : η → κ'}

/-- `raw` and `groups` hold the rows of `whole`, as far as these fall under a
group of the window; `folded` are the ones that have left. -/
structure Folded (f : ρ → κ') (window : κ' → Prop) (w : ρ → M) (v : η → M) (folded : Finset ρ)
    (whole raw : Table key) (groups : Table groupKey) : Prop where
  /-- A row is still there or has left. -/
  rows : ∀ r, window (f r) → (r ∈ whole.rows ↔ r ∈ raw.rows ∨ r ∈ folded)
  /-- Not both, and nothing took its place. -/
  apart : ∀ r ∈ folded, ¬ raw.Has (key r)
  /-- Only rows of the window are kept account of. -/
  inside : ∀ r ∈ folded, window (f r)
  /-- Groups weigh what was folded into them. -/
  sums : ∀ (p : κ' → Prop) [DecidablePred p], (∀ k, p k → window k) →
    groups.sumWhere p v = ∑ r ∈ folded.filter (fun r => p (f r)), w r
  /-- There are no others. -/
  has : ∀ k, window k → (groups.Has k ↔ ∃ r ∈ folded, f r = k)

variable {f : ρ → κ'} {window : κ' → Prop} {w : ρ → M} {v : η → M} {folded : Finset ρ}
  {whole raw : Table key} {groups : Table groupKey}

/-- Nothing was folded yet. -/
theorem folded_start (f : ρ → κ') (window : κ' → Prop) (w : ρ → M) (v : η → M) (raw : Table key) :
    Folded f window w v ∅ raw raw (.empty groupKey) where
  rows r _ := by simp
  apart := nofun
  inside := nofun
  sums p _ _ := by rw [Table.sumWhere_empty, filter_empty, sum_empty]
  has k _ := by
    constructor
    · rintro ⟨a, ha, -⟩
      cases ha
    · rintro ⟨r, hr, -⟩
      cases hr

/-- The same row comes to both tables, under a key nothing was folded of. -/
theorem Folded.put [DecidableEq ρ] [DecidableEq κ]
    (h : Folded f window w v folded whole raw groups) (x : ρ) (hfresh : ∀ r ∈ folded, key r ≠ key x) :
    Folded f window w v folded (whole.put x) (raw.put x) groups where
  rows r hr := by
    rw [Table.mem_put, Table.mem_put, h.rows r hr]
    constructor
    · rintro (rfl | ⟨hraw | hfolded, hne⟩)
      · exact .inl (.inl rfl)
      · exact .inl (.inr ⟨hraw, hne⟩)
      · exact .inr hfolded
    · rintro ((rfl | ⟨hraw, hne⟩) | hfolded)
      · exact .inl rfl
      · exact .inr ⟨.inl hraw, hne⟩
      · exact .inr ⟨.inr hfolded, hfresh r hfolded⟩
  apart r hr := by
    intro hhas
    rcases Table.has_put.mp hhas with hkey | hhas
    · exact hfresh r hr hkey
    · exact h.apart r hr hhas
  inside := h.inside
  sums := h.sums
  has := h.has

/-- Some rows leave for their groups; of the window just these. -/
theorem Folded.fold [DecidableEq ρ] (h : Folded f window w v folded whole raw groups)
    [DecidablePred window]
    {taken : Finset ρ} {groups' : Table groupKey} (q : ρ → Prop) [DecidablePred q]
    (hraw : taken ⊆ raw.rows) (hgone : ∀ r ∈ taken, q r)
    (hwindow : ∀ r ∈ raw.rows, window (f r) → q r → r ∈ taken)
    (hsums : ∀ (p : κ' → Prop) [DecidablePred p], groups'.sumWhere p v =
      groups.sumWhere p v + ∑ r ∈ taken.filter (fun r => p (f r)), w r)
    (hhas : ∀ k, groups'.Has k ↔ groups.Has k ∨ ∃ r ∈ taken, f r = k) :
    Folded f window w v (folded ∪ taken.filter fun r => window (f r)) whole (raw.deleteWhere q)
      groups' where
  rows r hr := by
    rw [h.rows r hr, Table.mem_deleteWhere, mem_union, mem_filter]
    constructor
    · rintro (hin | hfolded)
      · by_cases hq : q r
        · exact .inr (.inr ⟨hwindow r hin hr hq, hr⟩)
        · exact .inl ⟨hin, hq⟩
      · exact .inr (.inl hfolded)
    · rintro (⟨hin, -⟩ | hfolded | ⟨htaken, -⟩)
      · exact .inl hin
      · exact .inr hfolded
      · exact .inl (hraw htaken)
  apart r hr := by
    rintro ⟨x, hx, hkey⟩
    obtain ⟨hx, hstays⟩ := Table.mem_deleteWhere.mp hx
    rcases mem_union.mp hr with hfolded | htaken
    · exact h.apart r hfolded ⟨x, hx, hkey⟩
    · have htaken := (mem_filter.mp htaken).1
      rw [raw.unique x hx r (hraw htaken) hkey] at hstays
      exact hstays (hgone r htaken)
  inside r hr := by
    rcases mem_union.mp hr with hfolded | htaken
    · exact h.inside r hfolded
    · exact (mem_filter.mp htaken).2
  sums p _ hp := by
    have hdisjoint : Disjoint (folded.filter fun r => p (f r))
        ((taken.filter fun r => window (f r)).filter fun r => p (f r)) := by
      rw [disjoint_left]
      intro r hfolded htaken
      have htaken := (mem_filter.mp (mem_filter.mp htaken).1).1
      exact h.apart r (mem_filter.mp hfolded).1 ⟨r, hraw htaken, rfl⟩
    have htaken : (taken.filter fun r => window (f r)).filter (fun r => p (f r)) =
        taken.filter fun r => p (f r) := by
      rw [filter_filter]
      refine filter_congr ?_
      intro r _
      exact ⟨fun hr => hr.2, fun hr => ⟨hp _ hr, hr⟩⟩
    rw [hsums, h.sums p hp, filter_union, sum_union hdisjoint, htaken]
  has k hk := by
    rw [hhas, h.has k hk]
    constructor
    · rintro (⟨r, hr, hkey⟩ | ⟨r, hr, hkey⟩)
      · exact ⟨r, mem_union_left _ hr, hkey⟩
      · refine ⟨r, mem_union_right _ (mem_filter.mpr ⟨hr, ?_⟩), hkey⟩
        rwa [hkey]
    · rintro ⟨r, hr, hkey⟩
      rcases mem_union.mp hr with hfolded | htaken
      · exact .inl ⟨r, hfolded, hkey⟩
      · exact .inr ⟨r, (mem_filter.mp htaken).1, hkey⟩

/-- Groups outside the window may go. -/
theorem Folded.trim (h : Folded f window w v folded whole raw groups) (q : η → Prop)
    [DecidablePred q] (hq : ∀ a ∈ groups.rows, q a → ¬ window (groupKey a)) :
    Folded f window w v folded whole raw (groups.deleteWhere q) where
  rows := h.rows
  apart := h.apart
  inside := h.inside
  sums p _ hp := by
    rw [Table.sumWhere_deleteWhere p v q fun a ha hqa hpa => hq a ha hqa (hp _ hpa)]
    exact h.sums p hp
  has k hk := by
    rw [← h.has k hk]
    constructor
    · rintro ⟨a, ha, hkey⟩
      exact ⟨a, (Table.mem_deleteWhere.mp ha).1, hkey⟩
    · rintro ⟨a, ha, hkey⟩
      refine ⟨a, Table.mem_deleteWhere.mpr ⟨ha, ?_⟩, hkey⟩
      intro hqa
      refine hq a ha hqa ?_
      rwa [hkey]

/-- What is left and what was folded make up the whole. -/
theorem Folded.total [DecidableEq ρ] (h : Folded f window w v folded whole raw groups)
    (p : κ' → Prop) [DecidablePred p] (hp : ∀ k, p k → window k) :
    ∑ r ∈ raw.rows.filter (fun r => p (f r)), w r + groups.sumWhere p v =
      ∑ r ∈ whole.rows.filter (fun r => p (f r)), w r := by
  have hdisjoint : Disjoint (raw.rows.filter fun r => p (f r))
      (folded.filter fun r => p (f r)) := by
    rw [disjoint_left]
    intro r hraw hfolded
    exact h.apart r (mem_filter.mp hfolded).1 ⟨r, (mem_filter.mp hraw).1, rfl⟩
  have hwhole : whole.rows.filter (fun r => p (f r)) =
      raw.rows.filter (fun r => p (f r)) ∪ folded.filter fun r => p (f r) := by
    ext r
    rw [mem_union, mem_filter, mem_filter, mem_filter]
    constructor
    · rintro ⟨hr, hpr⟩
      rcases (h.rows r (hp _ hpr)).mp hr with hraw | hfolded
      · exact .inl ⟨hraw, hpr⟩
      · exact .inr ⟨hfolded, hpr⟩
    · rintro (⟨hraw, hpr⟩ | ⟨hfolded, hpr⟩)
      · exact ⟨(h.rows r (hp _ hpr)).mpr (.inl hraw), hpr⟩
      · exact ⟨(h.rows r (hp _ hpr)).mpr (.inr hfolded), hpr⟩
  rw [hwhole, sum_union hdisjoint, h.sums p hp]

/-- Something is left or was folded just when there is a row. -/
theorem Folded.exists_iff (h : Folded f window w v folded whole raw groups) (p : κ' → Prop)
    (hp : ∀ k, p k → window k) :
    ((∃ r ∈ raw.rows, p (f r)) ∨ ∃ a ∈ groups.rows, p (groupKey a)) ↔
      ∃ r ∈ whole.rows, p (f r) := by
  constructor
  · rintro (⟨r, hr, hpr⟩ | ⟨a, ha, hpa⟩)
    · exact ⟨r, (h.rows r (hp _ hpr)).mpr (.inl hr), hpr⟩
    · obtain ⟨r, hr, hkey⟩ := (h.has _ (hp _ hpa)).mp ⟨a, ha, rfl⟩
      rw [← hkey] at hpa
      exact ⟨r, (h.rows r (hp _ hpa)).mpr (.inr hr), hpa⟩
  · rintro ⟨r, hr, hpr⟩
    rcases (h.rows r (hp _ hpr)).mp hr with hraw | hfolded
    · exact .inl ⟨r, hraw, hpr⟩
    · obtain ⟨a, ha, hkey⟩ := (h.has _ (hp _ hpr)).mpr ⟨r, hfolded, rfl⟩
      refine .inr ⟨a, ha, ?_⟩
      rwa [hkey]

end Romi.FoldedRows
