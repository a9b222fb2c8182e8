import Mathlib.Algebra.BigOperators.Group.Finset.Basic
import Mathlib.Algebra.BigOperators.Group.Finset.Sigma
import Mathlib.Data.Finset.Image
import Mathlib.Data.Finset.Max
import Mathlib.Data.Finset.Sort
import Mathlib.Data.List.Sort

/-!
# Relational tables with an enforced primary key

A table is a finite set of rows in which no two rows share their key. The
key constraint is a field, so a statement that would break it has to refuse.
Statements follow SQL: a plain insert refuses an existing key, an update may
not move a key, and a bulk upsert merges the rows whose key is already there.
Sums over selected rows are the general form of every aggregate.
-/

namespace Romi.KeyedTable

open Finset

/-- Rows of a relation keyed by `key`; the constraint is part of the value. -/
@[ext] structure Table {ρ κ : Type} (key : ρ → κ) where
  /-- The rows, in no particular order. -/
  rows : Finset ρ
  /-- PRIMARY KEY: one row for each key. -/
  unique : ∀ r ∈ rows, ∀ s ∈ rows, key r = key s → r = s

namespace Table

variable {ρ κ : Type} {key : ρ → κ}

/-- A table just created. -/
def empty (key : ρ → κ) : Table key := ⟨∅, by simp⟩

/-- It has no rows. -/
@[simp] theorem empty_rows : (empty key).rows = ∅ := rfl

instance : Inhabited (Table key) := ⟨empty key⟩

variable [DecidableEq κ]

/-- Whether some row carries the key `k`. -/
def Has (t : Table key) (k : κ) : Prop := ∃ r ∈ t.rows, key r = k

instance (t : Table key) (k : κ) : Decidable (t.Has k) :=
  inferInstanceAs (Decidable (∃ r ∈ t.rows, key r = k))

omit [DecidableEq κ] in
/-- The key constraint as the unique existence a point query relies on. -/
theorem existsUnique_of_has {t : Table key} {k : κ} (h : t.Has k) :
    ∃! r, r ∈ t.rows ∧ key r = k := by
  obtain ⟨r, hr, hk⟩ := h
  refine ⟨r, ⟨hr, hk⟩, ?_⟩
  rintro s ⟨hs, hsk⟩
  exact t.unique s hs r hr (hsk.trans hk.symm)

/-- Point query by primary key. -/
def find? (t : Table key) (k : κ) : Option ρ :=
  if h : t.Has k then some (Finset.choose (fun r => key r = k) t.rows (existsUnique_of_has h)) else none

/-- What is found is the row of the key. -/
theorem find?_eq_some {t : Table key} {k : κ} {r : ρ} :
    t.find? k = some r ↔ r ∈ t.rows ∧ key r = k := by
  unfold find?
  by_cases h : t.Has k
  · have hc := Finset.choose_spec (fun r => key r = k) t.rows (existsUnique_of_has h)
    rw [dif_pos h, Option.some.injEq]
    constructor
    · rintro rfl
      exact hc
    · rintro ⟨hr, hk⟩
      exact t.unique _ hc.1 r hr (hc.2.trans hk.symm)
  · rw [dif_neg h]
    constructor
    · intro hn
      cases hn
    · rintro ⟨hr, hk⟩
      exact absurd ⟨r, hr, hk⟩ h

/-- Nothing is found where there is none. -/
theorem find?_eq_none {t : Table key} {k : κ} : t.find? k = none ↔ ¬ t.Has k := by
  unfold find?
  by_cases h : t.Has k <;> simp [h]

/-- The rows with one key are one row exactly when there is one. -/
theorem card_key_eq_one {t : Table key} {k : κ} :
    (t.rows.filter fun r => key r = k).card = 1 ↔ t.Has k := by
  rw [card_eq_one]
  constructor
  · rintro ⟨r, hr⟩
    have hmem : r ∈ t.rows.filter fun r => key r = k := by
      rw [hr]
      exact mem_singleton_self r
    exact ⟨r, (mem_filter.mp hmem).1, (mem_filter.mp hmem).2⟩
  · rintro ⟨r, hr, hk⟩
    refine ⟨r, ?_⟩
    ext q
    rw [mem_filter, mem_singleton]
    constructor
    · rintro ⟨hq, hqk⟩
      exact t.unique q hq r hr (hqk.trans hk.symm)
    · rintro rfl
      exact ⟨hr, hk⟩

/-- DELETE of the rows satisfying `p`. -/
def deleteWhere (t : Table key) (p : ρ → Prop) [DecidablePred p] : Table key :=
  ⟨t.rows.filter fun r => ¬ p r, by
    intro r hr s hs
    exact t.unique r (mem_of_mem_filter r hr) s (mem_of_mem_filter s hs)⟩

omit [DecidableEq κ] in
/-- What is left after a deletion. -/
@[simp] theorem mem_deleteWhere {t : Table key} {p : ρ → Prop} [DecidablePred p] {r : ρ} :
    r ∈ (t.deleteWhere p).rows ↔ r ∈ t.rows ∧ ¬ p r := by
  simp [deleteWhere]

omit [DecidableEq κ] in
/-- Deleting what is not there changes nothing. -/
theorem deleteWhere_eq_self {t : Table key} {p : ρ → Prop} [DecidablePred p]
    (h : ∀ r ∈ t.rows, ¬ p r) : t.deleteWhere p = t := by
  ext r
  rw [mem_deleteWhere]
  exact ⟨And.left, fun hr => ⟨hr, h r hr⟩⟩

variable [DecidableEq ρ]

/-- INSERT of one row, `none` when the key is already taken. -/
def insert? (t : Table key) (r : ρ) : Option (Table key) :=
  if h : t.Has (key r) then none
  else some ⟨insert r t.rows, by
    intro a ha b hb hab
    rcases mem_insert.mp ha with ha | ha <;> rcases mem_insert.mp hb with hb | hb
    · exact ha.trans hb.symm
    · exact absurd ⟨b, hb, by rw [← hab, ha]⟩ h
    · exact absurd ⟨a, ha, by rw [hab, hb]⟩ h
    · exact t.unique a ha b hb hab⟩

/-- A successful insert adds exactly the row, and its key was free. -/
theorem insert?_eq_some {t t' : Table key} {r : ρ} (h : t.insert? r = some t') :
    ¬ t.Has (key r) ∧ t'.rows = insert r t.rows := by
  unfold insert? at h
  by_cases hk : t.Has (key r)
  · simp [hk] at h
  · rw [dif_neg hk, Option.some.injEq] at h
    exact ⟨hk, by rw [← h]⟩

/-- What is there after an insert. -/
theorem mem_of_insert? {t t' : Table key} {r s : ρ} (h : t.insert? r = some t') :
    s ∈ t'.rows ↔ s = r ∨ s ∈ t.rows := by
  rw [(insert?_eq_some h).2, mem_insert]

/-- Replaces whatever row has the key of `r`: the effect of deleting that
key and then inserting, which no constraint can refuse. -/
def put (t : Table key) (r : ρ) : Table key :=
  ⟨insert r (t.rows.filter fun s => key s ≠ key r), by
    intro a ha b hb hab
    rcases mem_insert.mp ha with ha | ha <;> rcases mem_insert.mp hb with hb | hb
    · exact ha.trans hb.symm
    · exact absurd (by rw [← hab, ha]) (mem_filter.mp hb).2
    · exact absurd (by rw [hab, hb]) (mem_filter.mp ha).2
    · exact t.unique a (mem_filter.mp ha).1 b (mem_filter.mp hb).1 hab⟩

/-- What is there after a row was put. -/
@[simp] theorem mem_put {t : Table key} {r s : ρ} :
    s ∈ (t.put r).rows ↔ s = r ∨ (s ∈ t.rows ∧ key s ≠ key r) := by
  simp [put]

/-- Deleting a key and inserting a row with that key is `put`. -/
theorem insert?_deleteWhere (t : Table key) (r : ρ) :
    (t.deleteWhere fun s => key s = key r).insert? r = some (t.put r) := by
  have hfree : ¬ (t.deleteWhere fun s => key s = key r).Has (key r) := by
    rintro ⟨s, hs, hk⟩
    exact (mem_deleteWhere.mp hs).2 hk
  unfold insert?
  rw [dif_neg hfree, Option.some.injEq]
  ext s
  simp [put, deleteWhere]

/-- A plain insert of a fresh key is `put` as well. -/
theorem insert?_of_free {t : Table key} {r : ρ} (h : ¬ t.Has (key r)) :
    t.insert? r = some (t.put r) := by
  have hfree : ∀ s ∈ t.rows, ¬ key s = key r := fun s hs hk => h ⟨s, hs, hk⟩
  have hd := insert?_deleteWhere t r
  rwa [deleteWhere_eq_self hfree] at hd

omit [DecidableEq ρ] in
/-- Rows in any multiplicity as a table, `none` when two of them share a key. -/
def ofRows? (key : ρ → κ) (rows : Multiset ρ) : Option (Table key) :=
  if h : (rows.map key).Nodup then
    some ⟨⟨rows, Multiset.Nodup.of_map key h⟩, fun _ hr _ hs hk =>
      Multiset.inj_on_of_nodup_map h _ hr _ hs hk⟩
  else none

omit [DecidableEq ρ] in
/-- The rows of a table make up that table. -/
theorem ofRows?_rows (t : Table key) : ofRows? key t.rows.val = some t := by
  have h : (t.rows.val.map key).Nodup :=
    Multiset.Nodup.map_on (fun r hr s hs hk => t.unique r hr s hs hk) t.rows.nodup
  exact dif_pos h

omit [DecidableEq ρ] in
/-- INSERT of many rows at once, all or none. -/
def insertAll? (t : Table key) (rows : Multiset ρ) : Option (Table key) :=
  ofRows? key (t.rows.val + rows)

omit [DecidableEq ρ] in
/-- A table's rows inserted into an empty one. -/
theorem insertAll?_empty (t : Table key) : (empty key).insertAll? t.rows.val = some t := by
  have h : (empty key).rows.val + t.rows.val = t.rows.val := Multiset.zero_add _
  rw [insertAll?, h, ofRows?_rows]

/-- UPDATE of the rows satisfying `p`; the assignment may not move a key. -/
def updateWhere (t : Table key) (p : ρ → Prop) [DecidablePred p] (f : ρ → ρ)
    (hf : ∀ r, key (f r) = key r) : Table key :=
  ⟨t.rows.image fun r => if p r then f r else r, by
    intro a ha b hb hab
    obtain ⟨r, hr, rfl⟩ := mem_image.mp ha
    obtain ⟨s, hs, rfl⟩ := mem_image.mp hb
    have hkey : ∀ x, key (if p x then f x else x) = key x := by
      intro x
      split
      · exact hf x
      · rfl
    have hrs : r = s := t.unique r hr s hs (by rw [← hkey r, ← hkey s, hab])
    rw [hrs]⟩

omit [DecidableEq κ] in
/-- What is there after an update. -/
@[simp] theorem mem_updateWhere {t : Table key} {p : ρ → Prop} [DecidablePred p] {f : ρ → ρ}
    (hf : ∀ r, key (f r) = key r) {s : ρ} :
    s ∈ (t.updateWhere p f hf).rows ↔ ∃ r ∈ t.rows, (if p r then f r else r) = s := by
  simp [updateWhere]

omit [DecidableEq κ] in
/-- An update keeps the set of keys. -/
theorem has_updateWhere {t : Table key} {p : ρ → Prop} [DecidablePred p] {f : ρ → ρ}
    (hf : ∀ r, key (f r) = key r) {k : κ} : (t.updateWhere p f hf).Has k ↔ t.Has k := by
  have hkey : ∀ x, key (if p x then f x else x) = key x := by
    intro x
    split
    · exact hf x
    · rfl
  constructor
  · rintro ⟨s, hs, hk⟩
    obtain ⟨r, hr, rfl⟩ := (mem_updateWhere hf).mp hs
    exact ⟨r, hr, by rw [← hkey r, hk]⟩
  · rintro ⟨r, hr, hk⟩
    exact ⟨_, (mem_updateWhere hf).mpr ⟨r, hr, rfl⟩, by rw [hkey r, hk]⟩

/-- What is found after it. -/
theorem find?_updateWhere {t : Table key} {p : ρ → Prop} [DecidablePred p] {f : ρ → ρ}
    (hf : ∀ r, key (f r) = key r) {k : κ} :
    (t.updateWhere p f hf).find? k = (t.find? k).map fun r => if p r then f r else r := by
  cases h : t.find? k with
  | none =>
    rw [find?_eq_none] at h
    rw [Option.map_none, find?_eq_none, has_updateWhere]
    exact h
  | some r =>
    obtain ⟨hr, hk⟩ := find?_eq_some.mp h
    rw [Option.map_some, find?_eq_some]
    refine ⟨(mem_updateWhere hf).mpr ⟨r, hr, rfl⟩, ?_⟩
    split
    · rw [hf, hk]
    · exact hk

/-- Whose rows there are after one was put. -/
theorem has_put {t : Table key} {r : ρ} {k : κ} : (t.put r).Has k ↔ k = key r ∨ t.Has k := by
  constructor
  · rintro ⟨s, hs, hk⟩
    rcases mem_put.mp hs with rfl | ⟨hs, -⟩
    · exact .inl hk.symm
    · exact .inr ⟨s, hs, hk⟩
  · rintro (rfl | ⟨s, hs, hk⟩)
    · exact ⟨r, mem_put.mpr (.inl rfl), rfl⟩
    · by_cases hkr : key s = key r
      · exact ⟨r, mem_put.mpr (.inl rfl), hkr.symm.trans hk⟩
      · exact ⟨s, mem_put.mpr (.inr ⟨hs, hkr⟩), hk⟩

/-! ## Bulk upsert -/

/-- INSERT ... SELECT ... ON CONFLICT DO UPDATE: every incoming row is merged
into the row that has its key, or inserted when there is none. -/
def mergeAll (t incoming : Table key) (merge : ρ → ρ → ρ)
    (hm : ∀ r s, key (merge r s) = key r) : Table key :=
  ⟨(t.rows.image fun r => match incoming.find? (key r) with
      | some s => merge r s
      | none => r) ∪ incoming.rows.filter fun s => ¬ t.Has (key s), by
    have hkey : ∀ r, key (match incoming.find? (key r) with
        | some s => merge r s
        | none => r) = key r := by
      intro r
      split
      · exact hm r _
      · rfl
    intro a ha b hb hab
    rcases mem_union.mp ha with ha | ha <;> rcases mem_union.mp hb with hb | hb
    · obtain ⟨r, hr, rfl⟩ := mem_image.mp ha
      obtain ⟨s, hs, rfl⟩ := mem_image.mp hb
      have hrs : r = s := t.unique r hr s hs (by rw [← hkey r, ← hkey s, hab])
      rw [hrs]
    · obtain ⟨r, hr, rfl⟩ := mem_image.mp ha
      rw [hkey r] at hab
      exact absurd ⟨r, hr, hab⟩ (mem_filter.mp hb).2
    · obtain ⟨s, hs, rfl⟩ := mem_image.mp hb
      rw [hkey s] at hab
      exact absurd ⟨s, hs, hab.symm⟩ (mem_filter.mp ha).2
    · exact incoming.unique a (mem_filter.mp ha).1 b (mem_filter.mp hb).1 hab⟩

/-- What is there after a merge. -/
theorem mem_mergeAll {t incoming : Table key} {merge : ρ → ρ → ρ}
    (hm : ∀ r s, key (merge r s) = key r) {x : ρ} :
    x ∈ (t.mergeAll incoming merge hm).rows ↔
      (∃ r ∈ t.rows, ∃ s ∈ incoming.rows, key s = key r ∧ x = merge r s) ∨
      (x ∈ t.rows ∧ ¬ incoming.Has (key x)) ∨
      (x ∈ incoming.rows ∧ ¬ t.Has (key x)) := by
  simp only [mergeAll, mem_union, mem_image, mem_filter]
  constructor
  · rintro (⟨r, hr, rfl⟩ | hx)
    · cases h : incoming.find? (key r) with
      | none => exact .inr (.inl ⟨hr, find?_eq_none.mp h⟩)
      | some s =>
        obtain ⟨hs, hk⟩ := find?_eq_some.mp h
        exact .inl ⟨r, hr, s, hs, hk, rfl⟩
    · exact .inr (.inr hx)
  · rintro (⟨r, hr, s, hs, hk, rfl⟩ | ⟨hx, hn⟩ | hx)
    · exact .inl ⟨r, hr, by rw [find?_eq_some.mpr ⟨hs, hk⟩]⟩
    · exact .inl ⟨x, hx, by rw [find?_eq_none.mpr hn]⟩
    · exact .inr hx

/-- Whose rows there are after it. -/
theorem has_mergeAll {t incoming : Table key} {merge : ρ → ρ → ρ}
    (hm : ∀ r s, key (merge r s) = key r) {k : κ} :
    (t.mergeAll incoming merge hm).Has k ↔ t.Has k ∨ incoming.Has k := by
  constructor
  · rintro ⟨x, hx, rfl⟩
    rcases (mem_mergeAll hm).mp hx with ⟨r, hr, s, -, -, rfl⟩ | ⟨hx, -⟩ | ⟨hx, -⟩
    · exact .inl ⟨r, hr, (hm r s).symm⟩
    · exact .inl ⟨x, hx, rfl⟩
    · exact .inr ⟨x, hx, rfl⟩
  · rintro (⟨r, hr, rfl⟩ | ⟨s, hs, rfl⟩)
    · by_cases hin : incoming.Has (key r)
      · obtain ⟨s, hs, hk⟩ := hin
        exact ⟨merge r s, (mem_mergeAll hm).mpr (.inl ⟨r, hr, s, hs, hk, rfl⟩), hm r s⟩
      · exact ⟨r, (mem_mergeAll hm).mpr (.inr (.inl ⟨hr, hin⟩)), rfl⟩
    · by_cases ht : t.Has (key s)
      · obtain ⟨r, hr, hk⟩ := ht
        exact ⟨merge r s, (mem_mergeAll hm).mpr (.inl ⟨r, hr, s, hs, hk.symm, rfl⟩), (hm r s).trans hk⟩
      · exact ⟨s, (mem_mergeAll hm).mpr (.inr (.inr ⟨hs, ht⟩)), rfl⟩

/-! ## Sums over selected rows -/

variable {M : Type} [AddCommMonoid M]

/-- SUM of `w` over the rows whose key satisfies `p`. -/
def sumWhere (t : Table key) (p : κ → Prop) [DecidablePred p] (w : ρ → M) : M :=
  ∑ r ∈ t.rows.filter (fun r => p (key r)), w r

omit [DecidableEq κ] [DecidableEq ρ] in
/-- A sum over nothing. -/
theorem sumWhere_empty (p : κ → Prop) [DecidablePred p] (w : ρ → M) :
    (empty key).sumWhere p w = 0 := by
  simp [sumWhere]

omit [DecidableEq κ] [DecidableEq ρ] in
/-- Rows outside the selection may be deleted freely. -/
theorem sumWhere_deleteWhere {t : Table key} (p : κ → Prop) [DecidablePred p] (w : ρ → M)
    (q : ρ → Prop) [DecidablePred q] (h : ∀ r ∈ t.rows, q r → ¬ p (key r)) :
    (t.deleteWhere q).sumWhere p w = t.sumWhere p w := by
  unfold sumWhere deleteWhere
  congr 1
  ext r
  simp only [mem_filter]
  constructor
  · rintro ⟨⟨hr, -⟩, hp⟩
    exact ⟨hr, hp⟩
  · rintro ⟨hr, hp⟩
    exact ⟨⟨hr, fun hq => h r hr hq hp⟩, hp⟩

/-- A bulk upsert adds the sums, when merging two rows adds their weights. -/
theorem sumWhere_mergeAll (t incoming : Table key) (merge : ρ → ρ → ρ)
    (hm : ∀ r s, key (merge r s) = key r) (p : κ → Prop) [DecidablePred p] (w : ρ → M)
    (hw : ∀ r ∈ t.rows, ∀ s ∈ incoming.rows, key s = key r → w (merge r s) = w r + w s) :
    (t.mergeAll incoming merge hm).sumWhere p w = t.sumWhere p w + incoming.sumWhere p w := by
  have hkey : ∀ r, key (match incoming.find? (key r) with
      | some s => merge r s
      | none => r) = key r := by
    intro r
    split
    · exact hm r _
    · rfl
  have hinj : Set.InjOn (fun r => match incoming.find? (key r) with
      | some s => merge r s
      | none => r) (t.rows : Set ρ) := by
    intro a ha b hb hab
    exact t.unique a ha b hb (by rw [← hkey a, ← hkey b]; exact congrArg key hab)
  have hdisj : Disjoint (t.rows.image fun r => match incoming.find? (key r) with
      | some s => merge r s
      | none => r) (incoming.rows.filter fun s => ¬ t.Has (key s)) := by
    rw [disjoint_left]
    intro x hx hy
    obtain ⟨r, hr, rfl⟩ := mem_image.mp hx
    exact (mem_filter.mp hy).2 ⟨r, hr, (hkey r).symm⟩
  -- Each old row keeps its weight plus that of the incoming row it absorbs.
  have hold : ∀ r ∈ t.rows, (if p (key r) then w (match incoming.find? (key r) with
      | some s => merge r s
      | none => r) else 0) = (if p (key r) then w r else 0) +
        ∑ s ∈ incoming.rows.filter (fun s => key s = key r), if p (key s) then w s else 0 := by
    intro r hr
    cases h : incoming.find? (key r) with
    | none =>
      have hno : incoming.rows.filter (fun s => key s = key r) = ∅ := by
        rw [filter_eq_empty_iff]
        exact fun s hs hk => find?_eq_none.mp h ⟨s, hs, hk⟩
      rw [hno, sum_empty, add_zero]
    | some s =>
      obtain ⟨hs, hk⟩ := find?_eq_some.mp h
      have hone : incoming.rows.filter (fun s => key s = key r) = {s} := by
        ext x
        rw [mem_filter, mem_singleton]
        constructor
        · rintro ⟨hx, hxk⟩
          exact incoming.unique x hx s hs (hxk.trans hk.symm)
        · rintro rfl
          exact ⟨hs, hk⟩
      rw [hone, sum_singleton, hk]
      split
      · exact hw r hr s hs hk
      · rw [add_zero]
  simp only [sumWhere, sum_filter, mergeAll]
  rw [sum_union hdisj, sum_image hinj]
  simp only [hkey]
  rw [sum_congr rfl hold, sum_add_distrib, add_assoc]
  congr 1
  have hcover : incoming.rows.filter (fun s => t.Has (key s)) =
      t.rows.biUnion fun r => incoming.rows.filter fun s => key s = key r := by
    ext s
    rw [mem_filter, mem_biUnion]
    constructor
    · rintro ⟨hs, r, hr, hk⟩
      exact ⟨r, hr, mem_filter.mpr ⟨hs, hk.symm⟩⟩
    · rintro ⟨r, hr, hs⟩
      exact ⟨(mem_filter.mp hs).1, r, hr, (mem_filter.mp hs).2.symm⟩
  rw [← sum_filter_add_sum_filter_not incoming.rows (fun s => t.Has (key s)), hcover, sum_biUnion]
  intro a ha b hb hab
  rw [Function.onFun, disjoint_left]
  intro s hs hs'
  exact hab (t.unique a ha b hb ((mem_filter.mp hs).2.symm.trans (mem_filter.mp hs').2))

end Table

/-- ORDER BY of integers that differ. -/
def ascending (keys : Finset Int) : List Int := keys.sort (· ≤ ·)

/-- A sorted list has the same members. -/
theorem mem_ascending {keys : Finset Int} {k : Int} : k ∈ ascending keys ↔ k ∈ keys :=
  Finset.mem_sort _

end Romi.KeyedTable
