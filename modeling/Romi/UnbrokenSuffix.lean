import Mathlib.Data.List.Chain

/-!
# The longest chain a list ends with

Neighbours of a list may be related or not. The longest suffix all of whose
neighbours are related grows with the list when the last two elements are, and
starts over with the last element when they are not.
-/

namespace Romi.UnbrokenSuffix

variable {α : Type} {R : α → α → Prop}

/-- A chain the list ends with, and no other is longer. -/
structure LongestChain (R : α → α → Prop) (list suffix : List α) : Prop where
  /-- It ends the list. -/
  ends : suffix <:+ list
  /-- It is a chain. -/
  chain : suffix.IsChain R
  /-- No longer one ends the list. -/
  longest : ∀ other, other <:+ list → other.IsChain R → other.length ≤ suffix.length

/-- A list of one is its own longest chain. -/
theorem LongestChain.singleton (a : α) : LongestChain R [a] [a] :=
  ⟨List.suffix_rfl, .singleton a, fun _ h _ => h.length_le⟩

/-- A list with an element has a chain with one. -/
theorem LongestChain.ne_nil {list suffix : List α} {a : α}
    (h : LongestChain R (list ++ [a]) suffix) : suffix ≠ [] := by
  rintro rfl
  have hone := h.longest [a] (List.suffix_append _ _) (.singleton a)
  exact Nat.not_succ_le_zero 0 hone

/-- The chain ends where the list does. -/
theorem LongestChain.getLast? {list suffix : List α} {a : α}
    (h : LongestChain R (list ++ [a]) suffix) : suffix.getLast? = some a := by
  rcases List.suffix_concat_iff.mp h.ends with rfl | ⟨front, rfl, -⟩
  · exact absurd rfl h.ne_nil
  · exact List.getLast?_concat

/-- A related element makes the chain longer. -/
theorem LongestChain.concat {list suffix : List α} {a b : α}
    (h : LongestChain R (list ++ [a]) suffix) (hab : R a b) :
    LongestChain R (list ++ [a] ++ [b]) (suffix ++ [b]) := by
  refine ⟨?_, ?_, ?_⟩
  · obtain ⟨front, hfront⟩ := h.ends
    exact ⟨front, by rw [← hfront, List.append_assoc]⟩
  · refine List.isChain_append.mpr ⟨h.chain, .singleton b, ?_⟩
    intro x hx y hy
    rw [h.getLast?, Option.mem_some_iff] at hx
    rw [List.head?_cons, Option.mem_some_iff] at hy
    rw [← hx, ← hy]
    exact hab
  · intro other hother hchain
    rcases List.suffix_concat_iff.mp hother with rfl | ⟨front, rfl, hfront⟩
    · exact Nat.zero_le _
    · have hshort := h.longest front hfront (List.isChain_append.mp hchain).1
      simp only [List.length_append, List.length_singleton]
      omega

/-- An unrelated one starts another. -/
theorem LongestChain.restart {list : List α} {a b : α} (hab : ¬ R a b) :
    LongestChain R (list ++ [a] ++ [b]) [b] := by
  refine ⟨List.suffix_append _ _, .singleton b, ?_⟩
  intro other hother hchain
  rcases List.suffix_concat_iff.mp hother with rfl | ⟨front, rfl, hfront⟩
  · exact Nat.zero_le _
  · rcases List.suffix_concat_iff.mp hfront with rfl | ⟨front, rfl, -⟩
    · exact Nat.le_refl _
    · have hlink := (List.isChain_append.mp hchain).2.2 a (by
        rw [List.getLast?_concat, Option.mem_some_iff]) b (by
        rw [List.head?_cons, Option.mem_some_iff])
      exact absurd hlink hab

end Romi.UnbrokenSuffix
