import Mathlib.Data.String.Basic
import Romi.DayNumbers
import Romi.ExpiryRenewal
import Romi.NotifySweep

/-!
# Expiry dates, rolled forward and announced

Once an hour the dates of nodes that are up are rolled forward, and once a day
the nodes that expire soon are announced in one note, the earliest first.
-/

namespace Romi.ExpiryDigest

open CivilDate DayNumbers ExpiryRenewal NotifySweep StoreSchema

/-- `str::parse::<NaiveDate>`. -/
abbrev DateParser : Type := String → Option NaiveDate

/-! ## Rolling dates forward -/

/-- A node whose date is to be rolled forward. -/
structure Roll where
  /-- The node renewed. -/
  node : NodeRow
  /-- When it expired. -/
  expires : NaiveDate
  /-- The date it is renewed to. -/
  next : NaiveDate

/-- The nodes `renew_online_nodes` goes through and their next dates. -/
def rolls (parse : DateParser) (online : Int → Bool) (today : NaiveDate) (all : List NodeRow) :
    List Roll :=
  all.filterMap fun n =>
    if online n.id then do
      let expires ← n.expiresAt.bind parse
      let next ← renewed expires n.billingCycle today
      return ⟨n, expires, next⟩
    else none

/-- What is said about one of them. -/
def Roll.item (r : Roll) : Item := ⟨r.node, s!"{r.expires.toText} → {r.next.toText}"⟩

/-- `renewed`, the notice of them. -/
def renewalNote (faults : SweepFaults) (db : Store) (rolled : List Roll) : Option Note :=
  if number faults db "notify_expiry" > 0 then batch "renew" "🔁" "已自动续期" (rolled.map Roll.item)
  else none

/-! ## Announcing what expires soon -/

/-- The order of the digest: by date, then by name. -/
def earlier (a b : NaiveDate × NodeRow) : Bool :=
  a.1 < b.1 ∨ a.1 = b.1 ∧ a.2.name ≤ b.2.name

/-- A node that expires within so many days. -/
def expiring (parse : DateParser) (days : Int) (today : NaiveDate) (n : NodeRow) :
    Option (NaiveDate × NodeRow) := do
  let date ← n.expiresAt.bind parse
  if 0 ≤ daysUntil date today ∧ daysUntil date today ≤ days then some (date, n) else none

/-- All of them, in order. -/
def soon (parse : DateParser) (days : Int) (today : NaiveDate) (all : List NodeRow) :
    List (NaiveDate × NodeRow) :=
  (all.filterMap (expiring parse days today)).mergeSort earlier

/-- What is said about one of them. -/
def digestItem (today : NaiveDate) (entry : NaiveDate × NodeRow) : Item :=
  let left := match daysUntil entry.1 today with
    | 0 => "今天到期"
    | d => s!"还剩 {d} 天"
  ⟨entry.2, s!"{entry.1.toText} {left}"⟩

/-- The note of a day. -/
def digestNote (today : NaiveDate) (entries : List (NaiveDate × NodeRow)) : Option Note :=
  batch "expiry" "⏳" "即将到期" (entries.map (digestItem today))

/-- A node is listed when it expires today or in the days ahead. -/
theorem expiring_eq_some {parse : DateParser} {days : Int} {today : NaiveDate} {n : NodeRow}
    {entry : NaiveDate × NodeRow} : expiring parse days today n = some entry ↔
      entry.2 = n ∧ n.expiresAt.bind parse = some entry.1 ∧ today ≤ entry.1 ∧
        daysUntil entry.1 today ≤ days := by
  unfold expiring
  constructor
  · intro h
    obtain ⟨date, hdate, h⟩ := Option.bind_eq_some_iff.mp h
    split at h
    · rename_i hrange
      cases h
      exact ⟨rfl, hdate, dayNumber_mono.mp (Int.sub_nonneg.mp hrange.1), hrange.2⟩
    · cases h
  · rintro ⟨rfl, hdate, htoday, hdays⟩
    refine Option.bind_eq_some_iff.mpr ⟨entry.1, hdate, ?_⟩
    exact if_pos ⟨Int.sub_nonneg.mpr (dayNumber_mono.mpr htoday), hdays⟩

/-- So are the entries of the digest. -/
theorem mem_soon {parse : DateParser} {days : Int} {today : NaiveDate} {all : List NodeRow}
    {entry : NaiveDate × NodeRow} : entry ∈ soon parse days today all ↔
      entry.2 ∈ all ∧ entry.2.expiresAt.bind parse = some entry.1 ∧ today ≤ entry.1 ∧
        daysUntil entry.1 today ≤ days := by
  unfold soon
  rw [List.mem_mergeSort, List.mem_filterMap]
  constructor
  · rintro ⟨n, hn, h⟩
    obtain ⟨rfl, hdate, hrange⟩ := expiring_eq_some.mp h
    exact ⟨hn, hdate, hrange⟩
  · rintro ⟨hn, hdate, hrange⟩
    exact ⟨entry.2, hn, expiring_eq_some.mpr ⟨rfl, hdate, hrange⟩⟩

/-- Sorted by date, then by name. -/
theorem soon_sorted (parse : DateParser) (days : Int) (today : NaiveDate) (all : List NodeRow) :
    (soon parse days today all).Pairwise fun a b =>
      a.1 < b.1 ∨ a.1 = b.1 ∧ a.2.name ≤ b.2.name := by
  have hsorted := @List.pairwise_mergeSort _ earlier ?_ ?_
    (all.filterMap (expiring parse days today))
  · exact hsorted.imp fun h => of_decide_eq_true h
  · intro a b c hab hbc
    simp only [earlier, decide_eq_true_eq] at hab hbc ⊢
    rcases hab with hab | ⟨hab, hname⟩ <;> rcases hbc with hbc | ⟨hbc, hname'⟩
    · exact .inl (hab.trans hbc)
    · exact .inl (hbc ▸ hab)
    · exact .inl (hab ▸ hbc)
    · exact .inr ⟨hab.trans hbc, hname.trans hname'⟩
  · intro a b
    simp only [earlier, Bool.or_eq_true, decide_eq_true_eq]
    rcases lt_trichotomy a.1 b.1 with h | h | h
    · exact .inl (.inl h)
    · rcases le_total a.2.name b.2.name with hname | hname
      · exact .inl (.inr ⟨h, hname⟩)
      · exact .inr (.inr ⟨h.symm, hname⟩)
    · exact .inr (.inl h)

end Romi.ExpiryDigest
