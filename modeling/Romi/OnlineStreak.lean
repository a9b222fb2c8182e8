import Mathlib.Data.List.Induction
import Romi.StoreOperations
import Romi.UnbrokenSuffix

/-!
# Since when a node is online

`touch_seen` knows two numbers, when the node was last seen and since when it
is online, and compares their distance to the new time with the grace. What the
second number then says about all the calls there were is the start of the
longest run of calls at the end that are no more than the grace apart.
-/

namespace Romi.OnlineStreak

open CachedTransactions CachedTransactions.Job KeyedTable StoreGuard StoreJobs StoreOperations
  StoreSchema UnbrokenSuffix

/-! ## Calls -/

/-- A call of `touch_seen`, with what the writer's session has when it runs. -/
structure Call where
  /-- The node that is seen. -/
  node : Int
  /-- When. -/
  time : Int
  /-- The guard at the time. -/
  guard : Guard
  /-- Which of the statements are refused. -/
  refusals : List Bool

/-- The call on a store. -/
def Call.ran (host : Host) (db : Store) (c : Call) : Except Failure Payload × Session Store Guard :=
  (Telemetry.touchSeen c.node c.time).job host ⟨db, c.guard, c.refusals⟩

/-- The call was done. -/
def Call.done (host : Host) (db : Store) (c : Call) : Bool := (c.ran host db).1.toBool

/-- The store after some calls. -/
def afterCalls (host : Host) (db : Store) (calls : List Call) : Store :=
  calls.foldl (fun db c => (c.ran host db).2.db) db

/-- The times of the calls for one node that were done. -/
def timesOf (host : Host) (node : Int) : Store → List Call → List Int
  | _, [] => []
  | db, c :: rest =>
    let times := timesOf host node (c.ran host db).2.db rest
    if c.node = node ∧ c.done host db = true then c.time :: times else times

/-- The times are no more than the grace apart. -/
def Within (grace : Int) (a b : Int) : Prop := b - a ≤ grace

/-- The first time of the longest suffix whose times are no more than the grace apart. -/
def StreakStart (grace : Int) (times : List Int) (start : Int) : Prop :=
  ∃ suffix, LongestChain (Within grace) times suffix ∧ suffix.head? = some start

/-! ## One row -/

/-- A row after calls at these times. -/
def seenAll (grace : Int) (times : List Int) (r : NodeRow) : NodeRow :=
  times.foldl (fun r t => seen grace t r) r

/-- After calls in order a row has the last time and the start of the streak. -/
theorem seenAll_streak {grace : Int} {r : NodeRow} (hlast : r.lastSeen = 0)
    (honline : r.onlineSince = 0) (times : List Int) {last : Int}
    (hpos : ∀ t ∈ times ++ [last], 0 < t) (hmono : (times ++ [last]).Pairwise (· ≤ ·)) :
    (seenAll grace (times ++ [last]) r).lastSeen = last ∧
      0 < (seenAll grace (times ++ [last]) r).onlineSince ∧
      StreakStart grace (times ++ [last]) (seenAll grace (times ++ [last]) r).onlineSince := by
  induction times using List.reverseRecOn generalizing last with
  | nil =>
    have hfirst : 0 < last := hpos last List.mem_cons_self
    have hsince : (seenAll grace [last] r).onlineSince = last := if_pos (.inl honline)
    have hseen : (seenAll grace [last] r).lastSeen = last := by
      change max r.lastSeen last = last
      rw [hlast]
      exact max_eq_right hfirst.le
    rw [List.nil_append, hsince]
    exact ⟨hseen, hfirst, [last], .singleton last, rfl⟩
  | append_singleton times before ih =>
    obtain ⟨hmono', -, hle⟩ := List.pairwise_append.mp hmono
    obtain ⟨hseen, hsince, suffix, hsuffix, hhead⟩ := ih
      (fun t ht => hpos t (List.mem_append_left _ ht)) hmono'
    have hstep : seenAll grace (times ++ [before] ++ [last]) r =
        seen grace last (seenAll grace (times ++ [before]) r) := by
      rw [seenAll, List.foldl_append]
      rfl
    have hordered : before ≤ last :=
      hle before (List.mem_append_right _ List.mem_cons_self) last List.mem_cons_self
    have hmax : (seenAll grace (times ++ [before] ++ [last]) r).lastSeen = last := by
      rw [hstep]
      change max (seenAll grace (times ++ [before]) r).lastSeen last = last
      rw [hseen]
      exact max_eq_right hordered
    refine ⟨hmax, ?_⟩
    by_cases hgap : last - before > grace
    · have hrestart : (seenAll grace (times ++ [before] ++ [last]) r).onlineSince = last := by
        rw [hstep]
        exact if_pos (.inr (by rw [hseen]; exact hgap))
      rw [hrestart]
      exact ⟨hpos last (List.mem_append_right _ List.mem_cons_self), [last],
        .restart (not_le.mpr hgap), rfl⟩
    · have hkept : (seenAll grace (times ++ [before] ++ [last]) r).onlineSince =
          (seenAll grace (times ++ [before]) r).onlineSince := by
        rw [hstep]
        refine if_neg ?_
        rintro (hzero | hlate)
        · exact hsince.ne' hzero
        · rw [hseen] at hlate
          exact hgap hlate
      rw [hkept]
      refine ⟨hsince, suffix ++ [last], hsuffix.concat (not_lt.mp hgap), ?_⟩
      rw [List.head?_append, hhead]
      rfl

/-- A late call changes nothing. -/
theorem seen_late {grace ts : Int} {r : NodeRow} (hgrace : 0 ≤ grace) (hsince : 0 < r.onlineSince)
    (hlate : ts < r.lastSeen) : seen grace ts r = r := by
  have hkept : ¬ (r.onlineSince = 0 ∨ ts - r.lastSeen > grace) := by
    rintro (hzero | hgap)
    · exact hsince.ne' hzero
    · omega
  unfold seen
  rw [if_neg hkept, max_eq_left hlate.le]

/-! ## The store -/

/-- A call that was done updated one row, and one that was not changed nothing. -/
theorem Call.ran_db (host : Host) (db : Store) (c : Call) :
    (c.ran host db).2.db = if c.done host db = true then
      updateNodeRow c.node (seen (graceSeconds host.tryCast db) c.time) (fun _ => rfl) db
    else db := by
  unfold Call.done
  cases hrun : c.ran host db with
  | mk answer after =>
    cases answer with
    | ok p =>
      obtain ⟨u, hjob, -⟩ := boxed_ok hrun
      exact (execute_ok hjob).1
    | error e => exact (execute_error (boxed_error hrun)).1

/-- Seeing a node changes no setting. -/
theorem Call.ran_setting (host : Host) (db : Store) (c : Call) :
    (c.ran host db).2.db.setting = db.setting := by
  rw [c.ran_db]
  split <;> rfl

/-- The row of a node after a call. -/
theorem Call.mem_ran {host : Host} {db : Store} {r : NodeRow} (hr : r ∈ db.node.rows) (c : Call) :
    (if c.node = r.id ∧ c.done host db = true then
      seen (graceSeconds host.tryCast db) c.time r else r) ∈ (c.ran host db).2.db.node.rows := by
  rw [c.ran_db]
  by_cases hdone : c.done host db = true
  · rw [if_pos hdone]
    have hkey : ∀ q : NodeRow, (seen (graceSeconds host.tryCast db) c.time q).id = q.id :=
      fun _ => rfl
    refine (Table.mem_updateWhere hkey).mpr ⟨r, hr, ?_⟩
    by_cases hnode : c.node = r.id
    · rw [if_pos hnode.symm, if_pos ⟨hnode, hdone⟩]
    · rw [if_neg fun h => hnode h.symm, if_neg fun h => hnode h.1]
  · rw [if_neg hdone, if_neg fun h => hdone h.2]
    exact hr

/-- The row stays that of its node. -/
theorem seenAll_id (grace : Int) (times : List Int) (r : NodeRow) :
    (seenAll grace times r).id = r.id := by
  induction times generalizing r with
  | nil => rfl
  | cons t times ih => exact ih (seen grace t r)

/-- No call changes the grace. -/
theorem afterCalls_grace (host : Host) (db : Store) (calls : List Call) :
    graceSeconds host.tryCast (afterCalls host db calls) = graceSeconds host.tryCast db := by
  induction calls generalizing db with
  | nil => rfl
  | cons c rest ih =>
    refine (ih (c.ran host db).2.db).trans ?_
    unfold graceSeconds
    rw [c.ran_setting]

/-- Calls reach a row with their times. -/
theorem mem_afterCalls {host : Host} {db : Store} {r : NodeRow} (hr : r ∈ db.node.rows)
    (calls : List Call) :
    seenAll (graceSeconds host.tryCast db) (timesOf host r.id db calls) r ∈
      (afterCalls host db calls).node.rows := by
  induction calls generalizing db r with
  | nil => exact hr
  | cons c rest ih =>
    have hgrace := afterCalls_grace host db [c]
    change graceSeconds host.tryCast (c.ran host db).2.db = _ at hgrace
    have hstep := @Call.mem_ran host db r hr c
    rw [timesOf]
    by_cases hmine : c.node = r.id ∧ c.done host db = true
    · rw [if_pos hmine] at hstep ⊢
      have hrest := ih hstep
      rw [hgrace] at hrest
      exact hrest
    · rw [if_neg hmine] at hstep ⊢
      have hrest := ih hstep
      rw [hgrace] at hrest
      exact hrest

/-- After any calls for a node that was not seen before, at positive times in
order, the row has the latest time and the start of the streak, and a call
from before that changes neither. -/
theorem online_since_streak (host : Host) {db : Store} {r : NodeRow} (hr : r ∈ db.node.rows)
    (hlast : r.lastSeen = 0) (honline : r.onlineSince = 0) (calls : List Call)
    (hpos : ∀ t ∈ timesOf host r.id db calls, 0 < t)
    (hmono : (timesOf host r.id db calls).Pairwise (· ≤ ·)) :
    ∃ r' ∈ (afterCalls host db calls).node.rows, r'.id = r.id ∧
      ∀ last, (timesOf host r.id db calls).getLast? = some last →
        r'.lastSeen = last ∧
        StreakStart (graceSeconds host.tryCast db) (timesOf host r.id db calls) r'.onlineSince ∧
        (0 ≤ graceSeconds host.tryCast db → ∀ late : Call, late.time < last →
          ∃ q ∈ (late.ran host (afterCalls host db calls)).2.db.node.rows, q.id = r.id ∧
            q.lastSeen = r'.lastSeen ∧ q.onlineSince = r'.onlineSince) := by
  have hrow := @mem_afterCalls host db r hr calls
  refine ⟨_, hrow, seenAll_id _ _ r, ?_⟩
  intro last hget
  obtain ⟨times, htimes⟩ := List.getLast?_eq_some_iff.mp hget
  rw [htimes] at hpos hmono hrow ⊢
  obtain ⟨hseen, hsince, hstreak⟩ := seenAll_streak hlast honline times hpos hmono
  refine ⟨hseen, hstreak, ?_⟩
  intro hgrace late hlate
  refine ⟨_, @Call.mem_ran host _ _ hrow late, ?_⟩
  split
  · rw [afterCalls_grace, seen_late hgrace hsince (by rwa [hseen])]
    exact ⟨seenAll_id _ _ r, rfl, rfl⟩
  · exact ⟨seenAll_id _ _ r, rfl, rfl⟩

/-- A node that was never seen. -/
def unseenNode : NodeRow :=
  newNodeRow 1 ⟨"node", true, 0, "USD", "month", none, "", 0, "sum", 1, 0, "GB", 0, 0, true, false⟩
    "token" 0 60

/-- Two calls a second more than the grace apart, and one within it. -/
def threeCalls : List Call :=
  [⟨1, 100, Guard.load Store.blank, []⟩, ⟨1, 401, Guard.load Store.blank, []⟩,
    ⟨1, 701, Guard.load Store.blank, []⟩]

/-- The streak starts after the gap. -/
theorem online_since_streak_three :
    ∃ r ∈ (afterCalls ⟨id, fun _ => none⟩
        { Store.blank with node := (Table.empty NodeRow.id).put unseenNode } threeCalls).node.rows,
      r.lastSeen = 701 ∧ StreakStart 300 [100, 401, 701] r.onlineSince := by
  have hrow : unseenNode ∈ ((Table.empty NodeRow.id).put unseenNode).rows :=
    Table.mem_put.mpr (.inl rfl)
  have htimes : timesOf ⟨id, fun _ => none⟩ 1
      { Store.blank with node := (Table.empty NodeRow.id).put unseenNode } threeCalls =
        [100, 401, 701] := rfl
  obtain ⟨r, hr, -, hstreak⟩ := online_since_streak ⟨id, fun _ => none⟩
    (show unseenNode ∈ ({ Store.blank with
      node := (Table.empty NodeRow.id).put unseenNode } : Store).node.rows from hrow) rfl rfl
    threeCalls (by
      change ∀ t ∈ timesOf ⟨id, fun _ => none⟩ 1 _ threeCalls, 0 < t
      rw [htimes]
      decide) (by
      change (timesOf ⟨id, fun _ => none⟩ 1 _ threeCalls).Pairwise (· ≤ ·)
      rw [htimes]
      decide)
  change ∀ last, (timesOf ⟨id, fun _ => none⟩ 1 _ threeCalls).getLast? = some last → _ at hstreak
  rw [htimes] at hstreak
  obtain ⟨hseen, hstart, -⟩ := hstreak 701 rfl
  exact ⟨r, hr, hseen, hstart⟩

end Romi.OnlineStreak
