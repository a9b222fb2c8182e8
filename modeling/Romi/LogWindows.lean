import Mathlib.Data.List.TakeWhile
import Mathlib.Algebra.BigOperators.Group.List.Basic
import Mathlib.Tactic.Abel

/-!
# Windows of a log

A log holds the newest entry first. Some entries close a window: what came since
the one before is theirs. Every entry is in one window or still open, and what
grows along the log grows by as much over the windows and the open rest.
-/

namespace Romi.LogWindows

variable {α : Type}

/-- The entries since the last one that closed a window. -/
def sinceLast (closes : α → Bool) (log : List α) : List α := log.takeWhile fun x => !closes x

/-- The last entry that closed a window, else the first of all. -/
def baseOf (closes : α → Bool) (log : List α) : Option α := (log.find? closes).or log.getLast?

/-- The entries that closed a window, each with those before it. -/
def windows (closes : α → Bool) : List α → List (α × List α)
  | [] => []
  | x :: earlier => if closes x then (x, earlier) :: windows closes earlier else windows closes earlier

variable {closes : α → Bool} {x : α} {earlier : List α}

/-- Nothing since nothing. -/
@[simp] theorem sinceLast_nil : sinceLast closes [] = [] := rfl

/-- Nothing since what closes. -/
theorem sinceLast_closed (h : closes x = true) : sinceLast closes (x :: earlier) = [] :=
  List.takeWhile_cons_of_neg (by simp [h])

/-- One more since then. -/
theorem sinceLast_open (h : closes x = false) :
    sinceLast closes (x :: earlier) = x :: sinceLast closes earlier :=
  List.takeWhile_cons_of_pos (by simp [h])

/-- Nothing to start from. -/
@[simp] theorem baseOf_nil : baseOf closes ([] : List α) = none := rfl

/-- What closes is what the next starts from. -/
theorem baseOf_closed (h : closes x = true) : baseOf closes (x :: earlier) = some x := by
  unfold baseOf
  rw [List.find?_cons_of_pos h, Option.some_or]

/-- What the window started from, or its first. -/
theorem baseOf_open (h : closes x = false) :
    baseOf closes (x :: earlier) = some ((baseOf closes earlier).getD x) := by
  unfold baseOf
  rw [List.find?_cons_of_neg (by simp [h]), List.getLast?_cons]
  cases earlier.find? closes with
  | none => cases earlier.getLast? <;> rfl
  | some y => rfl

/-- A log that is not empty has a base. -/
theorem baseOf_isSome (closes : α → Bool) (x : α) (earlier : List α) :
    ∃ b, baseOf closes (x :: earlier) = some b := by
  cases h : closes x with
  | true => exact ⟨x, baseOf_closed h⟩
  | false => exact ⟨_, baseOf_open h⟩

/-- No windows. -/
@[simp] theorem windows_nil : windows closes ([] : List α) = [] := rfl

/-- One window more. -/
theorem windows_closed (h : closes x = true) :
    windows closes (x :: earlier) = (x, earlier) :: windows closes earlier := if_pos h

/-- The same windows. -/
theorem windows_open (h : closes x = false) :
    windows closes (x :: earlier) = windows closes earlier :=
  if_neg (by rw [h]; exact Bool.false_ne_true)

/-- The entries of a log are those of its windows and those since the last. -/
theorem windows_partition (closes : α → Bool) (log : List α) :
    sinceLast closes log ++ (windows closes log).flatMap (fun w => w.1 :: sinceLast closes w.2) =
      log := by
  induction log with
  | nil => rfl
  | cons x earlier ih =>
    cases h : closes x with
    | true =>
      rw [sinceLast_closed h, windows_closed h, List.nil_append, List.flatMap_cons,
        List.cons_append, ih]
    | false => rw [sinceLast_open h, windows_open h, List.cons_append, ih]

/-- A window is closed somewhere in the log. -/
theorem mem_windows {log : List α} :
    (x, earlier) ∈ windows closes log ↔ closes x = true ∧ (x :: earlier) <:+ log := by
  induction log with
  | nil => simp
  | cons y rest ih =>
    rw [List.suffix_cons_iff]
    cases h : closes y with
    | true =>
      rw [windows_closed h, List.mem_cons, ih, Prod.mk.injEq, List.cons.injEq]
      constructor
      · rintro (⟨rfl, rfl⟩ | ⟨hx, hrest⟩)
        · exact ⟨h, .inl ⟨rfl, rfl⟩⟩
        · exact ⟨hx, .inr hrest⟩
      · rintro ⟨hx, ⟨rfl, rfl⟩ | hrest⟩
        · exact .inl ⟨rfl, rfl⟩
        · exact .inr ⟨hx, hrest⟩
    | false =>
      rw [windows_open h, ih, List.cons.injEq]
      constructor
      · rintro ⟨hx, hrest⟩
        exact ⟨hx, .inr hrest⟩
      · rintro ⟨hx, ⟨rfl, rfl⟩ | hrest⟩
        · rw [h] at hx
          cases hx
        · exact ⟨hx, hrest⟩

/-- The newest window is that of the last entry that closed one. -/
theorem windows_head (closes : α → Bool) (log : List α) :
    (windows closes log).head?.map Prod.fst = log.find? closes := by
  induction log with
  | nil => rfl
  | cons y rest ih =>
    cases h : closes y with
    | true =>
      rw [windows_closed h, List.find?_cons_of_pos h]
      rfl
    | false => rw [windows_open h, List.find?_cons_of_neg (by simp [h]), ih]

/-- The base of a log is one of its entries. -/
theorem baseOf_mem {log : List α} {b : α} (h : baseOf closes log = some b) : b ∈ log := by
  unfold baseOf at h
  cases hfind : log.find? closes with
  | some c =>
    rw [hfind, Option.some_or] at h
    exact Option.some.inj h ▸ List.mem_of_find?_eq_some hfind
  | none =>
    rw [hfind, Option.none_or] at h
    exact List.mem_of_getLast? h

/-- What came since is of the log. -/
theorem sinceLast_subset (closes : α → Bool) (log : List α) : sinceLast closes log ⊆ log :=
  (List.takeWhile_sublist _).subset

/-- Two ways to close that agree on the log. -/
theorem sinceLast_congr {closes' : α → Bool} {log : List α}
    (h : ∀ g ∈ log, closes g = closes' g) : sinceLast closes log = sinceLast closes' log := by
  induction log with
  | nil => rfl
  | cons g log ih =>
    have hg := h g List.mem_cons_self
    have hrest := ih fun x hx => h x (List.mem_cons_of_mem g hx)
    cases hcloses : closes g with
    | true => rw [sinceLast_closed hcloses, sinceLast_closed (hg.symm.trans hcloses)]
    | false => rw [sinceLast_open hcloses, sinceLast_open (hg.symm.trans hcloses), hrest]

/-- And start from the same. -/
theorem baseOf_congr {closes' : α → Bool} {log : List α}
    (h : ∀ g ∈ log, closes g = closes' g) : baseOf closes log = baseOf closes' log := by
  induction log with
  | nil => rfl
  | cons g log ih =>
    have hg := h g List.mem_cons_self
    have hrest := ih fun x hx => h x (List.mem_cons_of_mem g hx)
    cases hcloses : closes g with
    | true => rw [baseOf_closed hcloses, baseOf_closed (hg.symm.trans hcloses)]
    | false => rw [baseOf_open hcloses, baseOf_open (hg.symm.trans hcloses), hrest]

/-- What grew over a window, since the base before it. -/
def growth (closes : α → Bool) (φ : α → Int) (w : α × List α) : Int :=
  ((baseOf closes w.2).map fun b => φ w.1 - φ b).getD 0

/-- The windows and the open rest add up to what grew since the first entry. -/
theorem growth_sum (φ : α → Int) {log : List α} {b first : α} (hbase : baseOf closes log = some b)
    (hfirst : log.getLast? = some first) :
    ((windows closes log).map (growth closes φ)).sum = φ b - φ first := by
  induction log generalizing b with
  | nil => cases hfirst
  | cons x earlier ih =>
    cases hearlier : earlier with
    | nil =>
      subst hearlier
      have hb : b = x := by
        cases h : closes x with
        | true => exact (Option.some.inj ((baseOf_closed h).symm.trans hbase)).symm
        | false => exact (Option.some.inj ((baseOf_open h).symm.trans hbase)).symm
      have hx : first = x := (Option.some.inj hfirst).symm
      have hnone : growth closes φ (x, ([] : List α)) = 0 := rfl
      rw [hb, hx, Int.sub_self]
      cases h : closes x with
      | true => rw [windows_closed h, windows_nil, List.map_cons, List.map_nil, hnone]; rfl
      | false => rw [windows_open h]; rfl
    | cons y rest =>
      rw [← hearlier]
      have hlast : earlier.getLast? = some first := by
        rw [hearlier] at hfirst ⊢
        rwa [List.getLast?_cons_cons] at hfirst
      obtain ⟨c, hc⟩ : ∃ c, baseOf closes earlier = some c := by
        rw [hearlier]
        exact baseOf_isSome closes y rest
      have hsum := ih hc hlast
      cases h : closes x with
      | true =>
        have hb : b = x := (Option.some.inj ((baseOf_closed h).symm.trans hbase)).symm
        have hgrowth : growth closes φ (x, earlier) = φ x - φ c := by
          unfold growth
          rw [hc]
          rfl
        rw [windows_closed h, List.map_cons, List.sum_cons, hsum, hgrowth, hb]
        omega
      | false =>
        have hb : b = c := by
          rw [baseOf_open h, hc] at hbase
          exact (Option.some.inj hbase).symm
        rw [windows_open h, hsum, hb]

end Romi.LogWindows
