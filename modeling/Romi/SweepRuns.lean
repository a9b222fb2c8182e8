import Romi.NodeContinuity
import Romi.SweepOutcome

/-!
# Sweep after sweep

A hub runs a sweep now and then. Between two sweeps agents come and go, the
rest of the hub writes what it likes, and the process may be restarted, which
forgets the watch. The log keeps one record for each sweep, in order.
-/

namespace Romi.SweepRuns

open CachedTransactions KeyedTable NodeContinuity NotifySweep StoreJobs StoreOperations
  StoreSchema SweepOutcome TrafficFold

/-! ## A sweep in which nothing fails -/

/-- The watch the first loop starts with. -/
def retained (w : Watch) (db : Store) : Watch := w.retain ((nodes db).map NodeRow.id)

/-- What a sweep makes its presence notes from. -/
def gathered (host : SweepHost) (online : Int → Bool) (now : Int) (w : Watch) (db : Store) : Lists :=
  match (presence (roundAt host .none online now db) SweepFaults.none.write (nodes db)
    (retained w db) db).result with
  | .ok lists => lists
  | .error _ => ⟨[], []⟩

/-- The first loop where no write fails. -/
theorem presence_fine (r : Round) (w : Watch) (db : Store) :
    presence r SweepFaults.none.write (nodes db) w db =
      ⟨watched r w (nodes db), recorded r w (nodes db) db,
        .ok ⟨items r w .down (nodes db), items r w .up (nodes db)⟩⟩ := by
  have hloop := presence_loop r SweepFaults.none.write (nodes_nodup db) w db
  generalize presence r SweepFaults.none.write (nodes db) w db = p at hloop
  cases hloop with
  | finished hok => rfl
  | stopped hlist hbefore hdue hfails => cases hfails

/-- The metering loop keeps what the watch knows of presence. -/
theorem meter_presence (host : SweepHost) (percent : Int) (traffic : Int → Option Traffic)
    (list : List NodeRow) (w : Watch) :
    (meter host percent traffic list w).1.absent = w.absent ∧
      (meter host percent traffic list w).1.returned = w.returned := by
  induction list generalizing w with
  | nil => exact ⟨rfl, rfl⟩
  | cons node rest ih =>
    unfold meter
    cases htraffic : traffic node.id with
    | none => exact ih w
    | some t =>
      have hpair : ∀ (p : Watch × List Item) (c : Prop) [Decidable c] (i : Item),
          (if c then (p.1, p.2) else (p.1, i :: p.2)).1 = p.1 := by
        intro p c _ i
        split
        · rfl
        · rfl
      dsimp only
      rw [hpair]
      exact ih _

variable {host : SweepHost} {online : Int → Bool} {now : Int} {w : Watch} {db : Store}

/-- The store after such a sweep. -/
theorem sweep_db : (sweep host .none online now w db).db =
    recorded (roundAt host .none online now db) (retained w db) (nodes db) db := by
  unfold sweep
  dsimp only [SweepFaults.none]
  have hfine := presence_fine (roundAt host .none online now db) (retained w db) db
  unfold retained SweepFaults.none at *
  rw [hfine]

/-- Who is held absent after it. -/
theorem sweep_absent : (sweep host .none online now w db).watch.absent =
    (watched (roundAt host .none online now db) (retained w db) (nodes db)).absent := by
  unfold sweep
  dsimp only [SweepFaults.none]
  have hfine := presence_fine (roundAt host .none online now db) (retained w db) db
  unfold retained SweepFaults.none at *
  rw [hfine]
  exact (meter_presence _ _ _ _ _).1

/-- And when the nodes came back. -/
theorem sweep_returned : (sweep host .none online now w db).watch.returned =
    (watched (roundAt host .none online now db) (retained w db) (nodes db)).returned := by
  unfold sweep
  dsimp only [SweepFaults.none]
  have hfine := presence_fine (roundAt host .none online now db) (retained w db) db
  unfold retained SweepFaults.none at *
  rw [hfine]
  exact (meter_presence _ _ _ _ _).2

/-- What it has gathered. -/
theorem gathered_eq : gathered host online now w db =
    ⟨items (roundAt host .none online now db) (retained w db) .down (nodes db),
      items (roundAt host .none online now db) (retained w db) .up (nodes db)⟩ := by
  unfold gathered
  rw [presence_fine]

/-- The notes a sweep sends: those on presence, then those on traffic. -/
theorem sent_gathered : ∃ metered, sent (sweep host .none online now w db) =
    presenceNotes (gathered host online now w db) ++
      (batch "traffic" "⚠️" "流量提醒" metered).toList := by
  rw [gathered_eq]
  unfold sent sweep
  dsimp only [SweepFaults.none]
  have hfine := presence_fine (roundAt host .none online now db) (retained w db) db
  unfold retained SweepFaults.none at *
  rw [hfine]
  exact ⟨_, rfl⟩

/-! ## What it does to one node -/

/-- Visits to other nodes leave what the watch keeps of a node alone. -/
theorem watched_other {r : Round} {w : Watch} {list : List NodeRow} {n : Int}
    (h : n ∉ list.map NodeRow.id) :
    (watched r w list).absent n = w.absent n ∧ (watched r w list).returned n = w.returned n := by
  induction list generalizing w with
  | nil => exact ⟨rfl, rfl⟩
  | cons m rest ih =>
    rw [List.map_cons, List.mem_cons, not_or] at h
    have hvisit := visit_other (r := r) (w := w) h.1
    have hrest := ih (w := (visit r m w).1) h.2
    exact ⟨hrest.1.trans hvisit.1, hrest.2.trans hvisit.2⟩

/-- What a visit leaves of its own node depends on that node only. -/
theorem visit_own {r : Round} {row : NodeRow} {w w' : Watch}
    (habsent : w'.absent row.id = w.absent row.id)
    (hreturned : w'.returned row.id = w.returned row.id) :
    (visit r row w').1.absent row.id = (visit r row w).1.absent row.id ∧
      (visit r row w').1.returned row.id = (visit r row w).1.returned row.id := by
  cases honline : r.online row.id with
  | true =>
    rw [visit_online honline, visit_online honline]
    refine ⟨?_, ?_⟩
    · dsimp only
      rw [Function.update_self, Function.update_self]
    · unfold Round.comeBack
      dsimp only
      rw [habsent]
      cases w.absent row.id with
      | none => exact hreturned
      | some since =>
        by_cases hlong : r.now - since ≥ r.grace
        · simp only [hlong, if_true, Function.update_self]
        · simp only [hlong, if_false]
          exact hreturned
  | false =>
    by_cases hseen : row.lastSeen = 0
    · rw [visit_unseen honline hseen, visit_unseen honline hseen]
      exact ⟨habsent, hreturned⟩
    · rw [visit_absent honline hseen, visit_absent honline hseen]
      refine ⟨?_, hreturned⟩
      dsimp only
      rw [Function.update_self, Function.update_self, Round.since, Round.since, habsent]

/-- A return from an absence longer than the grace is remembered. -/
theorem comeBack_long {r : Round} {w : Watch} {id t : Int} (habsent : w.absent id = some t)
    (hlong : r.now - t ≥ r.grace) : r.comeBack w id id = some r.now := by
  unfold Round.comeBack
  rw [habsent]
  dsimp only
  rw [if_pos hlong, Function.update_self]

/-- The loop leaves of a listed node what its own visit leaves. -/
theorem watched_row {r : Round} {w : Watch} {list : List NodeRow}
    (hnodup : (list.map NodeRow.id).Nodup) {row : NodeRow} (hrow : row ∈ list) :
    (watched r w list).absent row.id = (visit r row w).1.absent row.id ∧
      (watched r w list).returned row.id = (visit r row w).1.returned row.id := by
  induction list generalizing w with
  | nil => cases hrow
  | cons m rest ih =>
    rw [List.map_cons, List.nodup_cons] at hnodup
    rcases List.mem_cons.mp hrow with rfl | hin
    · exact watched_other hnodup.1
    · have hne : row.id ≠ m.id := fun heq => hnodup.1 (heq ▸ List.mem_map_of_mem hin)
      have hvisit := visit_other (r := r) (w := w) hne
      have hrest := ih (w := (visit r m w).1) hnodup.2 hin
      have hown := visit_own (r := r) hvisit.1 hvisit.2
      exact ⟨hrest.1.trans hown.1, hrest.2.trans hown.2⟩

/-- The round of a sweep that reads all settings. -/
def roundOf (host : SweepHost) (online : Int → Bool) (now : Int) (db : Store) : Round :=
  roundAt host .none online now db

/-- The watch keeps what it knows of a listed node. -/
theorem retained_row {w : Watch} {db : Store} {row : NodeRow} (hrow : row ∈ nodes db) :
    (retained w db).absent row.id = w.absent row.id ∧
      (retained w db).returned row.id = w.returned row.id := by
  have hin : row.id ∈ (nodes db).map NodeRow.id := List.mem_map_of_mem hrow
  unfold retained Watch.retain
  dsimp only
  rw [if_pos hin, if_pos hin]
  exact ⟨rfl, rfl⟩

/-- The due transition of a listed node, from the watch as it was. -/
theorem due_retained {r : Round} {row : NodeRow} (hrow : row ∈ nodes db) :
    due r (retained w db) row = due r w row := by
  obtain ⟨habsent, hreturned⟩ := retained_row (w := w) hrow
  exact visit_congr r row habsent hreturned

/-- What a sweep leaves of a listed node in its watch. -/
theorem sweep_watch_row {row : NodeRow} (hrow : row ∈ nodes db) :
    (sweep host .none online now w db).watch.absent row.id =
        (visit (roundOf host online now db) row w).1.absent row.id ∧
      (sweep host .none online now w db).watch.returned row.id =
        (visit (roundOf host online now db) row w).1.returned row.id := by
  rw [sweep_absent, sweep_returned]
  have hloop := watched_row (r := roundOf host online now db) (w := retained w db)
    (nodes_nodup db) hrow
  obtain ⟨habsent, hreturned⟩ := retained_row (w := w) hrow
  have hown := visit_own (r := roundOf host online now db) habsent hreturned
  exact ⟨hloop.1.trans hown.1, hloop.2.trans hown.2⟩

/-- Nodes that are not listed are forgotten. -/
theorem sweep_watch_unlisted {n : Int} (h : n ∉ (nodes db).map NodeRow.id) :
    (sweep host .none online now w db).watch.absent n = none ∧
      (sweep host .none online now w db).watch.returned n = none := by
  rw [sweep_absent, sweep_returned]
  obtain ⟨habsent, hreturned⟩ :=
    watched_other (r := roundAt host .none online now db) (w := retained w db) h
  rw [habsent, hreturned]
  unfold retained Watch.retain
  dsimp only
  rw [if_neg h, if_neg h]
  exact ⟨rfl, rfl⟩

/-- The row a sweep leaves of a listed node. -/
theorem sweep_row {row : NodeRow} (hrow : row ∈ nodes db) :
    (sweep host .none online now w db).db.node.find? row.id =
      some (moved (roundOf host online now db) w row) := by
  rw [sweep_db, find_recorded (nodes_nodup db) (fun m hm => find_of_mem hm) hrow]
  unfold moved roundOf
  rw [due_retained hrow]

/-- The nodes a sweep announces a transition of. -/
def names (l : Lists) (side : Side) : List Int :=
  match side with
  | .down => l.down.map fun i => i.node.id
  | .up => l.up.map fun i => i.node.id

/-- Who is named is due. -/
theorem mem_names {side : Side} {n : Int} :
    n ∈ names (gathered host online now w db) side ↔
      ∃ row ∈ nodes db, row.id = n ∧
        ∃ d, due (roundOf host online now db) w row = some d ∧ d.side = side := by
  have hnames : names (gathered host online now w db) side =
      (items (roundOf host online now db) (retained w db) side (nodes db)).map
        fun i => i.node.id := by
    rw [gathered_eq]
    cases side with
    | down => rfl
    | up => rfl
  rw [hnames, List.mem_map]
  unfold items
  constructor
  · rintro ⟨i, hi, rfl⟩
    obtain ⟨row, hrow, hbind⟩ := List.mem_filterMap.mp hi
    obtain ⟨d, hd, hif⟩ := Option.bind_eq_some_iff.mp hbind
    by_cases hside : d.side = side
    · rw [if_pos hside, Option.some.injEq] at hif
      rw [due_retained hrow] at hd
      refine ⟨row, hrow, ?_, d, hd, hside⟩
      rw [← hif]
    · rw [if_neg hside] at hif
      cases hif
  · rintro ⟨row, hrow, rfl, d, hd, hside⟩
    refine ⟨⟨row, d.detail⟩, List.mem_filterMap.mpr ⟨row, hrow, ?_⟩, rfl⟩
    rw [due_retained hrow, hd, Option.bind_some, if_pos hside]

/-- A return is due at a listed node that is online and was announced. -/
theorem due_up_iff {r : Round} {w : Watch} {row : NodeRow} :
    (∃ d, due r w row = some d ∧ d.side = .up) ↔ r.online row.id = true ∧ 0 < row.downSince := by
  unfold due
  cases honline : r.online row.id with
  | true =>
    rw [visit_online honline]
    by_cases hdown : row.downSince > 0
    · rw [if_pos hdown]
      exact ⟨fun _ => ⟨rfl, hdown⟩, fun _ => ⟨_, rfl, rfl⟩⟩
    · rw [if_neg hdown]
      constructor
      · rintro ⟨d, hd, -⟩
        cases hd
      · intro h
        exact absurd h.2 hdown
  | false =>
    constructor
    · rintro ⟨d, hd, hside⟩
      have hdue := due_changes (r := r) (w := w) hd
      rcases hdue with ⟨hdown, -⟩ | ⟨-, hpos, -⟩
      · rw [hdown] at hside
        cases hside
      · by_cases hseen : row.lastSeen = 0
        · rw [visit_unseen honline hseen] at hd
          cases hd
        · rw [visit_absent honline hseen] at hd
          by_cases hoverdue : r.Overdue w row
          · have hzero := hoverdue.2.2.1
            omega
          · rw [if_neg hoverdue] at hd
            cases hd
    · rintro ⟨h, -⟩
      cases h

/-- An absence is due to be announced at a node seen before and overdue. -/
theorem due_down_iff {r : Round} {w : Watch} {row : NodeRow} :
    (∃ d, due r w row = some d ∧ d.side = .down) ↔
      r.online row.id = false ∧ row.lastSeen ≠ 0 ∧ r.Overdue w row := by
  unfold due
  cases honline : r.online row.id with
  | true =>
    rw [visit_online honline]
    constructor
    · rintro ⟨d, hd, hside⟩
      by_cases hdown : row.downSince > 0
      · rw [if_pos hdown, Option.some.injEq] at hd
        rw [← hd] at hside
        cases hside
      · rw [if_neg hdown] at hd
        cases hd
    · rintro ⟨h, -⟩
      cases h
  | false =>
    by_cases hseen : row.lastSeen = 0
    · rw [visit_unseen honline hseen]
      constructor
      · rintro ⟨d, hd, -⟩
        cases hd
      · intro h
        exact absurd hseen h.2.1
    · rw [visit_absent honline hseen]
      by_cases hoverdue : r.Overdue w row
      · rw [if_pos hoverdue]
        exact ⟨fun _ => ⟨rfl, hseen, hoverdue⟩, fun _ => ⟨_, rfl, rfl⟩⟩
      · rw [if_neg hoverdue]
        constructor
        · rintro ⟨d, hd, -⟩
          cases hd
        · intro h
          exact absurd h.2.2 hoverdue

/-! ## The hub over time -/

/-- What is kept of one sweep. -/
structure Record where
  /-- Which process of the hub made it. -/
  process : Nat
  /-- The time of the sweep. -/
  now : Int
  /-- The grace then in force. -/
  grace : Int
  /-- Who was connected. -/
  online : Int → Bool
  /-- The rows it looked at. -/
  nodes : List NodeRow
  /-- Who was announced. -/
  lists : Lists
  /-- What was sent. -/
  notes : List Note

/-- The sweep's note of one kind is about this node. -/
def Record.Announces (x : Record) (side : Side) (n : Int) : Prop := n ∈ names x.lists side

instance (x : Record) (side : Side) (n : Int) : Decidable (x.Announces side n) :=
  inferInstanceAs (Decidable (n ∈ names x.lists side))

/-- The sweep looked at this node. -/
def Record.LookedAt (x : Record) (n : Int) : Prop := n ∈ x.nodes.map NodeRow.id

/-- The sweep saw the node back or connected all along. -/
def Record.SawPresent (x : Record) (n : Int) : Prop := x.LookedAt n ∧ x.online n = true

/-- The sweep saw the node absent. -/
def Record.SawAbsent (x : Record) (n : Int) : Prop := x.LookedAt n ∧ x.online n = false

/-- A hub with the record of its sweeps. -/
structure Hub where
  /-- What the database holds. -/
  db : Store
  /-- Who is connected. -/
  online : Int → Bool
  /-- What the sweeps remember. -/
  watch : Watch
  /-- The number of the process. -/
  process : Nat
  /-- The sweeps so far, the oldest first. -/
  log : List Record

/-- The record of a sweep about to be made. -/
def Hub.record (s : Hub) (host : SweepHost) (now : Int) : Record where
  process := s.process
  now := now
  grace := grace .none s.db
  online := s.online
  nodes := nodes s.db
  lists := gathered host s.online now s.watch s.db
  notes := sent (sweep host .none s.online now s.watch s.db)

/-- The hub after a sweep. -/
def Hub.swept (s : Hub) (host : SweepHost) (now : Int) : Hub :=
  { s with
    db := (sweep host .none s.online now s.watch s.db).db
    watch := (sweep host .none s.online now s.watch s.db).watch
    log := s.log ++ [s.record host now] }

/-- A new process: no agent is connected and the watch is empty. -/
def Hub.restarted (s : Hub) : Hub :=
  { s with online := fun _ => false, watch := Watch.fresh, process := s.process + 1 }

/-- One thing that can happen. Only the sweep writes `down_since`; the other
writes end wherever they end, with any guard. -/
inductive Step (jobs : Host) (s : Hub) : Hub → Prop
  /-- The hub sweeps. -/
  | swept (host : SweepHost) (now : Int) : Step jobs s (s.swept host now)
  /-- It starts again. -/
  | restarted : Step jobs s s.restarted
  /-- Agents come or go. -/
  | connected (online : Int → Bool) : Step jobs s { s with online := online }
  /-- A closure that is not the sweep's runs. -/
  | wrote (op : Solo) (hop : ∀ id ts, op ≠ .setDownSince id ts)
    (session : Session Store StoreGuard.Guard) (hdb : session.db = s.db) :
    Step jobs s { s with db := (op.job jobs session).2.db }
  /-- Telemetry runs. -/
  | reported (op : Telemetry) (session : Session Store StoreGuard.Guard)
    (hdb : session.db = s.db) : Step jobs s { s with db := (op.job jobs session).2.db }

/-- A run of the hub. -/
abbrev Run (jobs : Host) : Hub → Hub → Prop := Relation.ReflTransGen (Step jobs)

/-- Writes other than a sweep's. -/
theorem wrote_continues {jobs : Host} {op : Solo} (hop : ∀ id ts, op ≠ .setDownSince id ts)
    (session : Session Store StoreGuard.Guard) : ∃ t : Touches, (∀ n, ¬ t.moved n) ∧
      Continues t session.db (op.job jobs session).2.db := by
  refine ⟨touchesOf op, ?_, solo_continues jobs session.db op session (.refl _ _)⟩
  cases op with
  | setDownSince id ts => exact absurd rfl (hop id ts)
  | _ => exact fun _ h => h

/-- Telemetry moves no node. -/
theorem reported_continues {jobs : Host} (op : Telemetry)
    (session : Session Store StoreGuard.Guard) : ∃ t : Touches, (∀ n, ¬ t.moved n) ∧
      Continues t session.db (op.job jobs session).2.db :=
  ⟨Touches.none, fun _ h => h, telemetry_continues jobs session.db op session (.refl _ _)⟩

end Romi.SweepRuns
