import Mathlib.Algebra.BigOperators.Group.List.Basic
import Mathlib.Data.List.Induction
import Mathlib.Data.List.Sort
import Mathlib.Tactic.Linarith

/-!
# A histogram and the readings it stands for

A histogram pairs values with how often they occurred. Spread out it is a list
of single readings; sorting the histogram by value sorts the readings, and the
order statistics of the readings are found by counting through it.
-/

namespace Romi.HistogramRanks

variable {α : Type}

/-- Every value as often as it occurred. -/
def spread (h : List (α × Int)) : List α := h.flatMap fun x => List.replicate x.2.toNat x.1

/-- Every value occurred. -/
def Present (h : List (α × Int)) : Prop := ∀ x ∈ h, 0 < x.2

/-- The rest of a histogram counts something too. -/
theorem Present.tail {x : α × Int} {h : List (α × Int)} (hp : Present (x :: h)) : Present h :=
  fun y hy => hp y (List.mem_cons_of_mem x hy)

/-- The first value as often as it is counted, then the rest. -/
theorem spread_cons (x : α × Int) (h : List (α × Int)) :
    spread (x :: h) = List.replicate x.2.toNat x.1 ++ spread h := List.flatMap_cons

/-- Spreading goes by pieces. -/
theorem spread_append (g h : List (α × Int)) : spread (g ++ h) = spread g ++ spread h :=
  List.flatMap_append

/-- The order of the bins is that of the values only. -/
theorem spread_perm {g h : List (α × Int)} (hp : g.Perm h) : (spread g).Perm (spread h) :=
  hp.flatMap_right _

/-- The counts add up to the number of readings. -/
theorem length_spread {h : List (α × Int)} (hp : Present h) :
    ((spread h).length : Int) = (h.map Prod.snd).sum := by
  induction h with
  | nil => rfl
  | cons x rest ih =>
    have hx := hp x List.mem_cons_self
    rw [spread_cons, List.length_append, List.length_replicate, Nat.cast_add, ih hp.tail,
      List.map_cons, List.sum_cons, Int.toNat_of_nonneg hx.le]

/-- Below the first count the reading is the first value. -/
theorem getElem?_spread_lt {x : α × Int} {h : List (α × Int)} {i : Nat} (hi : (i : Int) < x.2) :
    (spread (x :: h))[i]? = some x.1 := by
  have hlt : i < x.2.toNat := by omega
  rw [spread_cons, List.getElem?_append_left (by rwa [List.length_replicate]),
    List.getElem?_replicate, if_pos hlt]

/-- From there on it is one of the rest. -/
theorem getElem?_spread_ge {x : α × Int} {h : List (α × Int)} {i : Nat} (hx : 0 ≤ x.2)
    (hi : x.2 ≤ i) : (spread (x :: h))[i]? = (spread h)[i - x.2.toNat]? := by
  have hle : x.2.toNat ≤ i := by omega
  rw [spread_cons, List.getElem?_append_right (by rwa [List.length_replicate]),
    List.length_replicate]

/-- The first value is that of the first bin. -/
theorem head?_spread {h : List (α × Int)} (hp : Present h) :
    (spread h).head? = h.head?.map Prod.fst := by
  cases h with
  | nil => rfl
  | cons x rest =>
    have hx := hp x List.mem_cons_self
    rw [List.head?_eq_getElem?, getElem?_spread_lt (by exact_mod_cast hx)]
    rfl

/-- And the last that of the last. -/
theorem getLast?_spread {h : List (α × Int)} (hp : Present h) :
    (spread h).getLast? = h.getLast?.map Prod.fst := by
  induction h using List.reverseRecOn with
  | nil => rfl
  | append_singleton front x ih =>
    have hx := hp x (List.mem_append_right front List.mem_cons_self)
    obtain ⟨n, hn⟩ := Nat.exists_eq_succ_of_ne_zero (show x.2.toNat ≠ 0 by omega)
    have hlast : spread [x] = List.replicate n x.1 ++ [x.1] := by
      rw [spread_cons, hn, List.replicate_succ']
      exact List.append_nil _
    rw [spread_append, hlast, ← List.append_assoc, List.getLast?_concat, List.getLast?_concat]
    rfl

/-- Values mapped before or after. -/
theorem spread_map {β : Type} (f : α → β) (h : List (α × Int)) :
    spread (h.map fun x => (f x.1, x.2)) = (spread h).map f := by
  induction h with
  | nil => rfl
  | cons x rest ih =>
    rw [List.map_cons, spread_cons, spread_cons, ih, List.map_append, List.map_replicate]

/-- Values kept before or after. -/
theorem spread_filter (p : α → Bool) (h : List (α × Int)) :
    spread (h.filter fun x => p x.1) = (spread h).filter p := by
  induction h with
  | nil => rfl
  | cons x rest ih =>
    rw [spread_cons, List.filter_append, ← ih]
    by_cases hx : p x.1 = true
    · rw [@List.filter_cons_of_pos _ (fun y => p y.1) x rest hx, spread_cons,
        List.filter_replicate_of_pos hx]
    · rw [@List.filter_cons_of_neg _ (fun y => p y.1) x rest hx, List.filter_replicate_of_neg hx,
        List.nil_append]

/-- A value occurs as often as its entries say. -/
theorem count_spread [DecidableEq α] (a : α) (h : List (α × Int)) :
    (spread h).count a = (h.map fun x => if x.1 = a then x.2.toNat else 0).sum := by
  induction h with
  | nil => rfl
  | cons x rest ih =>
    rw [spread_cons, List.count_append, ih, List.map_cons, List.sum_cons, List.count_replicate]
    simp only [beq_iff_eq]

/-- Every bin has a value. -/
theorem mem_spread_of {h : List (α × Int)} (hp : Present h) {x : α × Int} (hx : x ∈ h) :
    x.1 ∈ spread h := by
  have hpos := hp x hx
  exact List.mem_flatMap.mpr ⟨x, hx, List.mem_replicate.mpr ⟨by omega, rfl⟩⟩

/-- And every value a bin. -/
theorem mem_spread {h : List (α × Int)} {a : α} (ha : a ∈ spread h) : ∃ x ∈ h, x.1 = a := by
  obtain ⟨x, hx, ha⟩ := List.mem_flatMap.mp ha
  exact ⟨x, hx, (List.eq_of_mem_replicate ha).symm⟩

/-- A histogram sorted by value spreads out to sorted readings. -/
theorem pairwise_spread [Preorder α] {h : List (α × Int)}
    (hs : h.Pairwise fun x y => x.1 ≤ y.1) : (spread h).Pairwise (· ≤ ·) := by
  induction h with
  | nil => exact List.Pairwise.nil
  | cons x rest ih =>
    obtain ⟨hx, hrest⟩ := List.pairwise_cons.mp hs
    rw [spread_cons, List.pairwise_append]
    refine ⟨List.pairwise_replicate.mpr (.inr le_rfl), ih hrest, ?_⟩
    intro a ha b hb
    obtain rfl := List.eq_of_mem_replicate ha
    obtain ⟨y, hy, rfl⟩ := mem_spread hb
    exact hx y hy

end Romi.HistogramRanks
