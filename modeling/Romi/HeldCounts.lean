import Mathlib.Data.Set.Card

/-!
# Counting who holds what

Holders come and go, each with at most one unit of some kind. One way of
counting keeps a number for every kind that is held and forgets the kinds that
are not; the other keeps what is left of a fixed supply.
-/

namespace Romi.HeldCounts

variable {ι κ : Type}

/-- Who holds a unit of this kind. -/
def holders (held : ι → Option κ) (k : κ) : Set ι := {i | held i = some k}

/-- Every kind has the number of its holders; a kind without any is not there. -/
def Tallied (count : κ → Option Nat) (held : ι → Option κ) : Prop :=
  ∀ k, (holders held k).encard = ((count k).getD 0 : Nat) ∧ count k ≠ some 0

/-- What is held and what is left make up the supply. -/
def Balanced (supply left : κ → Nat) (held : ι → Option κ) : Prop :=
  ∀ k, (holders held k).encard + left k = supply k

/-- Where nothing is held, a key has no holders. -/
theorem holders_none (k : κ) : holders (fun _ : ι => none) k = ∅ := by
  ext j
  simp [holders]

/-- And every count is absent. -/
theorem tallied_none : Tallied (fun _ : κ => none) (fun _ : ι => none) := by
  intro k
  rw [holders_none]
  exact ⟨Set.encard_empty, nofun⟩

/-- And the whole supply is left. -/
theorem balanced_none (supply : κ → Nat) : Balanced supply supply (fun _ : ι => none) := by
  intro k
  rw [holders_none, Set.encard_empty, zero_add]

/-! ## One unit more or less -/

variable [DecidableEq ι] {held : ι → Option κ} {i : ι} {k k' : κ}

/-- One that takes a key is one holder more of it. -/
theorem holders_take_self (h : held i = none) :
    (holders (Function.update held i (some k)) k).encard = (holders held k).encard + 1 := by
  have hinsert : holders (Function.update held i (some k)) k = insert i (holders held k) := by
    ext j
    by_cases hj : j = i
    · subst hj
      simp [holders]
    · simp [holders, hj]
  rw [hinsert, Set.encard_insert_of_notMem]
  intro hmem
  cases h.symm.trans hmem

/-- And none of another key. -/
theorem holders_take_other (h : held i = none) (hne : k' ≠ k) :
    holders (Function.update held i (some k)) k' = holders held k' := by
  ext j
  by_cases hj : j = i
  · subst hj
    simp [holders, h, hne.symm]
  · simp [holders, hj]

/-- One that drops its key is one holder less. -/
theorem holders_drop_self (h : held i = some k) :
    (holders (Function.update held i none) k).encard + 1 = (holders held k).encard := by
  have hmem : i ∈ holders held k := h
  have hremove : holders (Function.update held i none) k = holders held k \ {i} := by
    ext j
    by_cases hj : j = i
    · subst hj
      simp [holders]
    · simp [holders, hj]
  rw [hremove, Set.encard_sdiff_singleton_add_one hmem]

/-- And the holders of another key stay. -/
theorem holders_drop_other (h : held i = some k) (hne : k' ≠ k) :
    holders (Function.update held i none) k' = holders held k' := by
  ext j
  by_cases hj : j = i
  · subst hj
    simp [holders, h, hne.symm]
  · simp [holders, hj]

/-! ## A number for every kind that is held -/

variable {count : κ → Option Nat} {n : Nat}

/-- A holder is counted. -/
theorem Tallied.counted (h : Tallied count held) (hi : held i = some k) :
    ∃ n, count k = some (n + 1) := by
  have hone := holders_drop_self hi
  rw [(h k).1] at hone
  cases hcount : count k with
  | none =>
    rw [hcount] at hone
    simp at hone
  | some m =>
    cases m with
    | zero => exact absurd hcount (h k).2
    | succ n => exact ⟨n, rfl⟩

variable [DecidableEq κ]

/-- Counting up when a key is taken keeps the tally. -/
theorem Tallied.take (h : Tallied count held) (hfree : held i = none) (hcount : (count k).getD 0 = n) :
    Tallied (Function.update count k (some (n + 1))) (Function.update held i (some k)) := by
  intro k'
  by_cases hk : k' = k
  · subst hk
    rw [Function.update_self, holders_take_self hfree, (h k').1, hcount]
    exact ⟨rfl, by simp⟩
  · rw [Function.update_of_ne hk, holders_take_other hfree hk]
    exact h k'

/-- So does counting down, where nought is forgotten. -/
theorem Tallied.drop (h : Tallied count held) (hi : held i = some k) (hcount : count k = some (n + 1)) :
    Tallied (Function.update count k (if n = 0 then none else some n))
      (Function.update held i none) := by
  intro k'
  by_cases hk : k' = k
  · subst hk
    have hone := holders_drop_self hi
    rw [(h k').1, hcount] at hone
    have hn : (holders (Function.update held i none) k').encard = (n : ℕ∞) :=
      ENat.add_left_injective_of_ne_top ENat.one_ne_top (hone.trans rfl)
    rw [Function.update_self, hn]
    by_cases hzero : n = 0
    · rw [if_pos hzero, hzero]
      exact ⟨rfl, nofun⟩
    · rw [if_neg hzero]
      exact ⟨rfl, fun h => hzero (Option.some.inj h)⟩
  · rw [Function.update_of_ne hk, holders_drop_other hi hk]
    exact h k'

/-! ## What is left of a supply -/

variable {supply left : κ → Nat}

/-- A take is one less of what is left. -/
theorem Balanced.take (h : Balanced supply left held) (hfree : held i = none)
    (hleft : left k = n + 1) :
    Balanced supply (Function.update left k n) (Function.update held i (some k)) := by
  intro k'
  by_cases hk : k' = k
  · subst hk
    rw [Function.update_self, holders_take_self hfree, ← h k', hleft, add_assoc]
    congr 1
    rw [add_comm]
    rfl
  · rw [Function.update_of_ne hk, holders_take_other hfree hk]
    exact h k'

/-- A drop gives it back. -/
theorem Balanced.drop (h : Balanced supply left held) (hi : held i = some k) :
    Balanced supply (Function.update left k (left k + 1)) (Function.update held i none) := by
  intro k'
  by_cases hk : k' = k
  · subst hk
    rw [Function.update_self, ← h k', ← holders_drop_self hi, add_assoc]
    congr 1
    rw [add_comm 1]
    rfl
  · rw [Function.update_of_ne hk, holders_drop_other hi hk]
    exact h k'

end Romi.HeldCounts
