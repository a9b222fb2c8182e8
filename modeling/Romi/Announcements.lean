import Romi.SweepRuns

/-!
# Offline and online notes over a whole run

Whether an absence stands announced can be read off the notes so far, and the
column `down_since` says the same after every sweep, across restarts. The
watch adds how long the running process has seen a node absent.
-/

namespace Romi.Announcements

open CachedTransactions KeyedTable NodeContinuity NotifySweep StoreJobs StoreOperations
  StoreSchema SweepOutcome SweepRuns

/-! ## Reading the log -/

/-- The last element of a longer list is the new one or an old one. -/
theorem snoc_split {α : Type} {log pre post : List α} {x y : α}
    (h : log ++ [x] = pre ++ y :: post) :
    (pre = log ∧ y = x ∧ post = []) ∨ ∃ post', post = post' ++ [x] ∧ log = pre ++ y :: post' := by
  rcases List.eq_nil_or_concat post with rfl | ⟨post', z, rfl⟩
  · have hsplit := List.append_inj' h rfl
    rw [List.cons.injEq] at hsplit
    exact .inl ⟨hsplit.1.symm, hsplit.2.1.symm, rfl⟩
  · rw [List.concat_eq_append, ← List.cons_append, ← List.append_assoc] at h
    have hsplit := List.append_inj' h rfl
    rw [List.cons.injEq] at hsplit
    refine .inr ⟨post', ?_, hsplit.1⟩
    rw [List.concat_eq_append, hsplit.2.1]

/-- What one sweep makes of whether an absence stands announced. -/
def announced (n : Int) (before : Bool) (x : Record) : Bool :=
  if x.Announces .down n then true else if x.Announces .up n then false else before

/-- Whether the absence of a node stands announced after these sweeps. -/
def outstanding (base : Int → Bool) (log : List Record) (n : Int) : Bool :=
  log.foldl (announced n) (base n)

/-- One more record moves what is outstanding by its notes. -/
theorem outstanding_snoc (base : Int → Bool) (log : List Record) (x : Record) (n : Int) :
    outstanding base (log ++ [x]) n = announced n (outstanding base log n) x := by
  unfold outstanding
  rw [List.foldl_append, List.foldl_cons, List.foldl_nil]

/-- The absences a store has on record. -/
def onRecord (db : Store) (n : Int) : Bool :=
  match db.node.find? n with
  | some r => decide (0 < r.downSince)
  | none => false

/-- The sweeps up to `x` that one process made since it first found a node
absent all saw it absent, and they reach back for at least the grace. -/
def LongAbsence (pre : List Record) (x : Record) (n : Int) : Prop :=
  ∃ before first block, pre ++ [x] = before ++ first :: block ∧
    (∀ y ∈ first :: block, y.process = x.process ∧ y.SawAbsent n) ∧
      x.grace ≤ x.now - first.now

/-- The sweep at the end of a long absence saw the node absent. -/
theorem LongAbsence.sawAbsent {pre : List Record} {x : Record} {n : Int}
    (h : LongAbsence pre x n) : x.SawAbsent n := by
  obtain ⟨before, first, block, hlog, hall, -⟩ := h
  rcases snoc_split hlog with ⟨-, rfl, -⟩ | ⟨block', rfl, -⟩
  · exact (hall first List.mem_cons_self).2
  · exact (hall x (List.mem_cons_of_mem _ (List.mem_append_right _ List.mem_cons_self))).2

/-- What holds of one sweep after the ones before it. -/
structure Faithful (base : Int → Bool) (pre : List Record) (x : Record) (n : Int) : Prop where
  /-- A node is announced back just when it is there and was announced away. -/
  up : x.Announces .up n ↔ x.SawPresent n ∧ outstanding base pre n = true
  /-- It is announced away only where it was not, after a long absence. -/
  down : x.Announces .down n → outstanding base pre n = false ∧ LongAbsence pre x n

/-! ## The invariant -/

/-- A hub before its first sweep, on a store as the hub leaves it. -/
structure Settled (s : Hub) : Prop where
  /-- Every row is that of a node that was issued. -/
  rows : ∀ r ∈ s.db.node.rows, 0 ≤ r.lastSeen ∧ 0 ≤ r.downSince ∧ Issued s.db r.id
  /-- Nothing has been swept. -/
  log : s.log = []
  /-- The watch is a new one. -/
  watch : s.watch = Watch.fresh

/-- What is true of a row in view of the log. -/
structure RowFits (base : Int → Bool) (s : Hub) (r : NodeRow) : Prop where
  /-- It was last seen at some time. -/
  lastSeen : 0 ≤ r.lastSeen
  /-- It went down at some time, or is up. -/
  downSince : 0 ≤ r.downSince
  /-- Its id was given. -/
  issued : Issued s.db r.id
  /-- The row says that it is down just when it was announced away. -/
  outstanding : 0 < r.downSince ↔ outstanding base s.log r.id = true

/-- Store, watch and log say the same. -/
structure Invariant (base : Int → Bool) (s : Hub) : Prop where
  /-- Every row fits the log. -/
  rows : ∀ r ∈ s.db.node.rows, RowFits base s r
  /-- Nothing was said of an id that was not given. -/
  unissued : ∀ n, ¬ Issued s.db n →
    outstanding base s.log n = false ∧ ∀ x ∈ s.log, ¬ x.LookedAt n
  /-- What the watch holds absent was absent in every sweep since. -/
  absent : ∀ n t, s.watch.absent n = some t → ∃ pre x block, s.log = pre ++ x :: block ∧
    x.now = t ∧ ∀ y ∈ x :: block, y.process = s.process ∧ y.SawAbsent n
  /-- No record is of a later process. -/
  process : ∀ x ∈ s.log, x.process ≤ s.process
  /-- Every record was faithful. -/
  past : ∀ pre x post, s.log = pre ++ x :: post → ∀ n, Faithful base pre x n
  /-- The notes of a record are those of its lists. -/
  notes : ∀ x ∈ s.log, ∃ metered, x.notes = presenceNotes x.lists ++
    (batch "traffic" "⚠️" "流量提醒" metered).toList

/-- A hub that has not swept yet. -/
theorem invariant_settled {s : Hub} (h : Settled s) : Invariant (onRecord s.db) s := by
  have hout : ∀ n, outstanding (onRecord s.db) s.log n = onRecord s.db n := by
    intro n
    rw [h.log]
    rfl
  refine ⟨?_, ?_, ?_, ?_, ?_, ?_⟩
  · intro r hr
    obtain ⟨hseen, hdown, hissued⟩ := h.rows r hr
    refine ⟨hseen, hdown, hissued, ?_⟩
    have hfind : s.db.node.find? r.id = some r := Table.find?_eq_some.mpr ⟨hr, rfl⟩
    rw [hout, onRecord, hfind]
    exact decide_eq_true_iff.symm
  · intro n hn
    have hfind : s.db.node.find? n = none := by
      rw [Table.find?_eq_none]
      rintro ⟨r, hr, rfl⟩
      exact hn (h.rows r hr).2.2
    refine ⟨?_, ?_⟩
    · rw [hout, onRecord, hfind]
    · rw [h.log]
      exact List.forall_mem_nil _
  · intro n t ht
    rw [h.watch] at ht
    cases ht
  · rw [h.log]
    exact List.forall_mem_nil _
  · intro pre x post hlog
    rw [h.log] at hlog
    exact absurd hlog (by simp)
  · rw [h.log]
    exact List.forall_mem_nil _

/-- Writes that leave `down_since` alone leave everything as it is. -/
theorem Invariant.continues {base : Int → Bool} {s : Hub} (h : Invariant base s) {t : Touches}
    {db : Store} (hmoved : ∀ n, ¬ t.moved n) (hc : Continues t s.db db) :
    Invariant base { s with db := db } := by
  refine ⟨?_, ?_, h.absent, h.process, h.past, h.notes⟩
  · intro r' hr'
    rcases hc.rows r' hr' with ⟨r, hr, hkept⟩ | hnew
    · have hfits := h.rows r hr
      refine ⟨hfits.lastSeen.trans hkept.lastSeen, ?_, ?_, ?_⟩
      · rw [hkept.downSince (hmoved _)]
        exact hfits.downSince
      · rw [hkept.id]
        exact hc.issued _ hfits.issued
      · rw [hkept.downSince (hmoved _), hkept.id]
        exact hfits.outstanding
    · have hzero := hnew.downSince (hmoved _)
      refine ⟨hnew.lastSeen, le_of_eq hzero.symm, hnew.issued, ?_⟩
      rw [hzero, (h.unissued _ hnew.unissued).1]
      simp
  · intro n hn
    exact h.unissued n fun hi => hn (hc.issued n hi)

/-! ## One sweep -/

section OneSweep

variable {s : Hub} {host : SweepHost} {now : Int}

/-- Two rows of one id are one. -/
theorem row_unique {db : Store} {r r' : NodeRow} (hr : r ∈ nodes db) (hr' : r' ∈ nodes db)
    (hid : r'.id = r.id) : r' = r :=
  db.node.unique r' (mem_nodes.mp hr') r (mem_nodes.mp hr) hid

/-- Only listed nodes are announced. -/
theorem announces_lookedAt {side : Side} {n : Int}
    (h : (s.record host now).Announces side n) : (s.record host now).LookedAt n := by
  obtain ⟨row, hrow, rfl, -⟩ := mem_names.mp h
  exact List.mem_map_of_mem hrow

/-- A sweep announces a listed node just when it is due. -/
theorem announces_row {side : Side} {row : NodeRow} (hrow : row ∈ nodes s.db) :
    (s.record host now).Announces side row.id ↔
      ∃ d, due (roundOf host s.online now s.db) s.watch row = some d ∧ d.side = side := by
  constructor
  · intro h
    obtain ⟨row', hrow', hid, hdue⟩ := mem_names.mp h
    rwa [row_unique hrow hrow' hid] at hdue
  · intro h
    exact mem_names.mpr ⟨row, hrow, rfl, h⟩

/-- A sweep leaves every row where it was, with its own transition made. -/
theorem swept_row {r' : NodeRow} (h : r' ∈ (s.swept host now).db.node.rows) :
    ∃ row ∈ nodes s.db, r' = moved (roundOf host s.online now s.db) s.watch row := by
  have hfind : (s.swept host now).db.node.find? r'.id = some r' :=
    Table.find?_eq_some.mpr ⟨h, rfl⟩
  by_cases hlisted : r'.id ∈ (nodes s.db).map NodeRow.id
  · obtain ⟨row, hrow, hid⟩ := List.mem_map.mp hlisted
    have hrow' := @sweep_row host s.online now s.watch s.db row hrow
    rw [hid] at hrow'
    have hsame := hfind.symm.trans hrow'
    rw [Option.some.injEq] at hsame
    exact ⟨row, hrow, hsame⟩
  · have hold : (s.swept host now).db.node.find? r'.id = s.db.node.find? r'.id := by
      change (sweep host .none s.online now s.watch s.db).db.node.find? _ = _
      rw [sweep_db]
      exact find_recorded_other hlisted
    rw [hold] at hfind
    exact absurd (List.mem_map_of_mem (mem_nodes.mpr (Table.find?_eq_some.mp hfind).1)) hlisted

/-- A sweep gives no ids. -/
theorem recorded_romiId (r : Round) (w : Watch) (list : List NodeRow) (db : Store) :
    (recorded r w list db).romiId = db.romiId := by
  induction list generalizing db with
  | nil => rfl
  | cons n rest ih =>
    unfold recorded at ih ⊢
    rw [List.foldl_cons, ih]
    cases due r w n with
    | none => rfl
    | some d => rfl

/-- A sweep issues no id. -/
theorem issued_swept {n : Int} : Issued (s.swept host now).db n ↔ Issued s.db n := by
  have hids : (s.swept host now).db.romiId = s.db.romiId := by
    change (sweep host .none s.online now s.watch s.db).db.romiId = _
    rw [sweep_db, recorded_romiId]
  unfold Issued
  rw [hids]

/-- A sweep changes nothing of a row but when it went down. -/
theorem moved_frame (r : Round) (w : Watch) (row : NodeRow) :
    (moved r w row).id = row.id ∧ (moved r w row).lastSeen = row.lastSeen := by
  unfold moved
  cases due r w row with
  | none => exact ⟨rfl, rfl⟩
  | some d => exact ⟨rfl, rfl⟩

/-- After a sweep the row and the notes so far still agree. -/
theorem moved_outstanding {base : Int → Bool} {row : NodeRow} (h : RowFits base s row)
    (hrow : row ∈ nodes s.db) :
    0 ≤ (moved (roundOf host s.online now s.db) s.watch row).downSince ∧
      (0 < (moved (roundOf host s.online now s.db) s.watch row).downSince ↔
        announced row.id (outstanding base s.log row.id) (s.record host now) = true) := by
  have hdown := @announces_row s host now .down row hrow
  have hup := @announces_row s host now .up row hrow
  unfold announced moved
  cases hdue : due (roundOf host s.online now s.db) s.watch row with
  | none =>
    have hno : ∀ side, ¬ (s.record host now).Announces side row.id := by
      intro side hside
      obtain ⟨d, hd, -⟩ := (announces_row hrow).mp hside
      rw [hdue] at hd
      cases hd
    rw [if_neg (hno .down), if_neg (hno .up)]
    exact ⟨h.downSince, h.outstanding⟩
  | some d =>
    rcases due_changes hdue with ⟨hside, -, hsince, hseen⟩ | ⟨hside, -, hsince⟩
    · rw [if_pos (hdown.mpr ⟨d, hdue, hside⟩)]
      have hpos : 0 < d.since := by
        have hle := h.lastSeen
        omega
      exact ⟨le_of_lt hpos, fun _ => rfl, fun _ => hpos⟩
    · have hnodown : ¬ (s.record host now).Announces .down row.id := by
        intro hd
        obtain ⟨d', hd', hs'⟩ := hdown.mp hd
        rw [hdue, Option.some.injEq] at hd'
        rw [← hd', hside] at hs'
        cases hs'
      rw [if_neg hnodown, if_pos (hup.mpr ⟨d, hdue, hside⟩)]
      dsimp only
      rw [hsince]
      simp

/-- What the watch knows of an absent node after a sweep: since when. -/
theorem swept_absent {n t : Int} (h : (s.swept host now).watch.absent n = some t) :
    (s.record host now).SawAbsent n ∧ (s.watch.absent n = some t ∨
      s.watch.absent n = none ∧ t = now) := by
  by_cases hlisted : n ∈ (nodes s.db).map NodeRow.id
  · obtain ⟨row, hrow, rfl⟩ := List.mem_map.mp hlisted
    have hvisit := (sweep_watch_row (w := s.watch) hrow).1.symm.trans h
    cases honline : (roundOf host s.online now s.db).online row.id with
    | true =>
      rw [visit_online honline] at hvisit
      dsimp only at hvisit
      rw [Function.update_self] at hvisit
      cases hvisit
    | false =>
      refine ⟨⟨hlisted, honline⟩, ?_⟩
      by_cases hseen : row.lastSeen = 0
      · rw [visit_unseen honline hseen] at hvisit
        exact .inl hvisit
      · rw [visit_absent honline hseen] at hvisit
        dsimp only at hvisit
        rw [Function.update_self, Option.some.injEq, Round.since] at hvisit
        cases habsent : s.watch.absent row.id with
        | none =>
          rw [habsent, Option.getD_none] at hvisit
          exact .inr ⟨rfl, hvisit.symm⟩
        | some t' =>
          rw [habsent, Option.getD_some] at hvisit
          exact .inl (congrArg some hvisit)
  · have hnone := (@sweep_watch_unlisted host s.online now s.watch s.db n hlisted).1
    rw [show (s.swept host now).watch.absent n = none from hnone] at h
    cases h

/-- An absence that is announced has lasted, as far as this process saw. -/
theorem overdue_since {row : NodeRow}
    (h : (roundOf host s.online now s.db).Overdue s.watch row) :
    ∃ t, s.watch.absent row.id = some t ∧ grace .none s.db ≤ now - t ∧
      ∀ back, s.watch.returned row.id = some back → t - back < flapWindow → flapGrace ≤ now - t := by
  obtain ⟨hpos, hle⟩ := grace_bounds .none s.db
  have hgrace : (roundOf host s.online now s.db).grace = grace .none s.db := rfl
  have hnow : (roundOf host s.online now s.db).now = now := rfl
  have hwait : grace .none s.db ≤ (roundOf host s.online now s.db).wait s.watch row.id := by
    unfold Round.wait
    split
    · exact hle
    · exact le_refl _
  have hlong := h.2.2.2
  cases habsent : s.watch.absent row.id with
  | none =>
    rw [Round.since, habsent, Option.getD_none] at hlong
    omega
  | some t =>
    have hsince : (roundOf host s.online now s.db).since s.watch row.id = t := by
      rw [Round.since, habsent, Option.getD_some]
    rw [hsince, hnow] at hlong
    refine ⟨t, rfl, by omega, ?_⟩
    intro back hback hflap
    have hflapping : (roundOf host s.online now s.db).flapping s.watch row.id = true := by
      unfold Round.flapping
      rw [hback, hsince]
      exact decide_eq_true hflap
    rw [Round.wait, if_pos hflapping] at hlong
    exact hlong

/-- The new record is faithful to the ones before it. -/
theorem faithful_swept {base : Int → Bool} (h : Invariant base s) (n : Int) :
    Faithful base s.log (s.record host now) n := by
  constructor
  · constructor
    · intro hup
      obtain ⟨row, hrow, rfl⟩ := List.mem_map.mp (announces_lookedAt hup)
      obtain ⟨honline, hpos⟩ := due_up_iff.mp ((announces_row hrow).mp hup)
      exact ⟨⟨List.mem_map_of_mem hrow, honline⟩,
        (h.rows row (mem_nodes.mp hrow)).outstanding.mp hpos⟩
    · rintro ⟨⟨hlisted, honline⟩, hout⟩
      obtain ⟨row, hrow, rfl⟩ := List.mem_map.mp hlisted
      have hpos := (h.rows row (mem_nodes.mp hrow)).outstanding.mpr hout
      exact (announces_row hrow).mpr (due_up_iff.mpr ⟨honline, hpos⟩)
  · intro hdown
    obtain ⟨row, hrow, rfl⟩ := List.mem_map.mp (announces_lookedAt hdown)
    obtain ⟨honline, -, hoverdue⟩ := due_down_iff.mp ((announces_row hrow).mp hdown)
    have hfits := h.rows row (mem_nodes.mp hrow)
    refine ⟨?_, ?_⟩
    · have hzero := hoverdue.2.2.1
      rw [← Bool.not_eq_true, ← hfits.outstanding, hzero]
      exact lt_irrefl 0
    · obtain ⟨t, ht, hgrace, -⟩ := overdue_since hoverdue
      obtain ⟨pre, first, block, hlog, hfirst, hblock⟩ := h.absent row.id t ht
      refine ⟨pre, first, block ++ [s.record host now], ?_, ?_, ?_⟩
      · rw [hlog, List.append_assoc, List.cons_append]
      · intro y hy
        rw [← List.cons_append, List.mem_append, List.mem_singleton] at hy
        rcases hy with hy | rfl
        · exact hblock y hy
        · exact ⟨rfl, List.mem_map_of_mem hrow, honline⟩
      · rw [hfirst]
        exact hgrace

/-- A sweep keeps store, watch and log together. -/
theorem Invariant.swept {base : Int → Bool} (h : Invariant base s) :
    Invariant base (s.swept host now) := by
  have hlog : (s.swept host now).log = s.log ++ [s.record host now] := rfl
  refine ⟨?_, ?_, ?_, ?_, ?_, ?_⟩
  · intro r' hr'
    obtain ⟨row, hrow, rfl⟩ := swept_row hr'
    have hfits := h.rows row (mem_nodes.mp hrow)
    obtain ⟨hid, hseen⟩ := moved_frame (roundOf host s.online now s.db) s.watch row
    obtain ⟨hnonneg, hout⟩ := moved_outstanding hfits hrow
    refine ⟨?_, hnonneg, ?_, ?_⟩
    · rw [hseen]
      exact hfits.lastSeen
    · rw [hid]
      exact issued_swept.mpr hfits.issued
    · rw [hid, hlog, outstanding_snoc]
      exact hout
  · intro n hn
    have hn' : ¬ Issued s.db n := fun hi => hn (issued_swept.mpr hi)
    have hunlisted : ¬ (s.record host now).LookedAt n := by
      intro hlisted
      obtain ⟨row, hrow, rfl⟩ := List.mem_map.mp hlisted
      exact hn' (h.rows row (mem_nodes.mp hrow)).issued
    obtain ⟨hout, hpast⟩ := h.unissued n hn'
    refine ⟨?_, ?_⟩
    · rw [hlog, outstanding_snoc, announced, if_neg fun ha => hunlisted (announces_lookedAt ha),
        if_neg fun ha => hunlisted (announces_lookedAt ha)]
      exact hout
    · intro x hx
      rw [hlog, List.mem_append, List.mem_singleton] at hx
      rcases hx with hx | rfl
      · exact hpast x hx
      · exact hunlisted
  · intro n t ht
    obtain ⟨hsaw, hold | ⟨-, rfl⟩⟩ := swept_absent ht
    · obtain ⟨pre, first, block, hblock, hfirst, hall⟩ := h.absent n t hold
      refine ⟨pre, first, block ++ [s.record host now], ?_, hfirst, ?_⟩
      · rw [hlog, hblock, List.append_assoc, List.cons_append]
      · intro y hy
        rw [← List.cons_append, List.mem_append, List.mem_singleton] at hy
        rcases hy with hy | rfl
        · exact hall y hy
        · exact ⟨rfl, hsaw⟩
    · refine ⟨s.log, s.record host t, [], hlog, rfl, ?_⟩
      intro y hy
      rw [List.mem_singleton] at hy
      rw [hy]
      exact ⟨rfl, hsaw⟩
  · intro x hx
    rw [hlog, List.mem_append, List.mem_singleton] at hx
    rcases hx with hx | rfl
    · exact h.process x hx
    · exact le_refl _
  · intro pre x post hsplit n
    rw [hlog] at hsplit
    rcases snoc_split hsplit with ⟨rfl, rfl, -⟩ | ⟨post', -, hold⟩
    · exact faithful_swept h n
    · exact h.past pre x post' hold n
  · intro x hx
    rw [hlog, List.mem_append, List.mem_singleton] at hx
    rcases hx with hx | rfl
    · exact h.notes x hx
    · exact sent_gathered

end OneSweep

/-! ## A whole run -/

/-- Whatever happens, store, watch and log stay together. -/
theorem Invariant.step {jobs : Host} {base : Int → Bool} {s s' : Hub} (h : Invariant base s)
    (hstep : Step jobs s s') : Invariant base s' := by
  cases hstep with
  | swept host now => exact h.swept
  | restarted =>
    refine ⟨fun r hr => ?_, h.unissued, ?_, ?_, h.past, h.notes⟩
    · have hfits := h.rows r hr
      exact ⟨hfits.lastSeen, hfits.downSince, hfits.issued, hfits.outstanding⟩
    · intro n t ht
      cases ht
    · intro x hx
      exact (h.process x hx).trans (Nat.le_succ _)
  | connected online =>
    refine ⟨fun r hr => ?_, h.unissued, h.absent, h.process, h.past, h.notes⟩
    have hfits := h.rows r hr
    exact ⟨hfits.lastSeen, hfits.downSince, hfits.issued, hfits.outstanding⟩
  | wrote op hop session hdb =>
    obtain ⟨t, hmoved, hc⟩ := wrote_continues hop session
    rw [hdb] at hc
    exact h.continues hmoved hc
  | reported op session hdb =>
    obtain ⟨t, hmoved, hc⟩ := reported_continues op session
    rw [hdb] at hc
    exact h.continues hmoved hc

/-- So it is in every run. -/
theorem Invariant.run {jobs : Host} {start s : Hub} (hstart : Settled start)
    (hrun : Run jobs start s) : Invariant (onRecord start.db) s := by
  induction hrun with
  | refl => exact invariant_settled hstart
  | tail _ hstep ih => exact ih.step hstep

/-! ## Offline and online take turns -/

/-- The notes about one node, in order. -/
def notesOf (log : List Record) (n : Int) : List Side :=
  log.flatMap fun x => (if x.Announces .down n then [.down] else []) ++
    if x.Announces .up n then [.up] else []

/-- Offline, online, offline and so on; the flag says whether an offline note
stands at the beginning. -/
def Alternates : Bool → List Side → Prop
  | _, [] => True
  | open_, .down :: rest => open_ = false ∧ Alternates true rest
  | open_, .up :: rest => open_ = true ∧ Alternates false rest

/-- Whether an offline note stands after some notes. -/
def standing (open_ : Bool) (list : List Side) : Bool := list.foldl (fun _ s => s = .down) open_

/-- Two lists that alternate, one after the other. -/
theorem alternates_append {open_ : Bool} {list list' : List Side} (h : Alternates open_ list)
    (h' : Alternates (standing open_ list) list') : Alternates open_ (list ++ list') := by
  induction list generalizing open_ with
  | nil => exact h'
  | cons side rest ih =>
    cases side with
    | down => exact ⟨h.1, ih h.2 h'⟩
    | up => exact ⟨h.1, ih h.2 h'⟩

/-- Sweeps that are faithful to what came before make alternating notes. -/
theorem alternates_faithful {base : Int → Bool} {log : List Record} {n : Int}
    (h : ∀ pre x post, log = pre ++ x :: post → Faithful base pre x n) :
    Alternates (base n) (notesOf log n) ∧
      standing (base n) (notesOf log n) = outstanding base log n := by
  induction log using List.reverseRecOn with
  | nil => exact ⟨trivial, rfl⟩
  | append_singleton log x ih =>
    have hold : ∀ pre y post, log = pre ++ y :: post → Faithful base pre y n := by
      intro pre y post hlog
      refine h pre y (post ++ [x]) ?_
      rw [hlog, List.append_assoc, List.cons_append]
    obtain ⟨halt, hstand⟩ := ih hold
    have hlast := h log x [] rfl
    have hnotes : notesOf (log ++ [x]) n = notesOf log n ++
        ((if x.Announces .down n then [.down] else []) ++ if x.Announces .up n then [.up] else []) := by
      unfold notesOf
      rw [List.flatMap_append, List.flatMap_singleton]
    have hstanding : ∀ list, standing (base n) (notesOf log n ++ list) =
        standing (outstanding base log n) list := by
      intro list
      rw [← hstand]
      unfold standing
      rw [List.foldl_append]
    rw [hnotes, hstanding, outstanding_snoc, announced]
    by_cases hdown : x.Announces .down n
    · have hopen := (hlast.down hdown).1
      have hnoup : ¬ x.Announces .up n := by
        intro hup
        have hout := (hlast.up.mp hup).2
        rw [hopen] at hout
        cases hout
      rw [if_pos hdown, if_neg hnoup, if_pos hdown]
      refine ⟨alternates_append halt ?_, rfl⟩
      rw [hstand, hopen]
      exact ⟨rfl, trivial⟩
    · by_cases hup : x.Announces .up n
      · have hopen := (hlast.up.mp hup).2
        rw [if_neg hdown, if_pos hup, if_neg hdown, if_pos hup]
        refine ⟨alternates_append halt ?_, rfl⟩
        rw [hstand, hopen]
        exact ⟨rfl, trivial⟩
      · rw [if_neg hdown, if_neg hup, if_neg hdown, if_neg hup]
        exact ⟨alternates_append halt trivial, rfl⟩

/-- A sweep that does not see a node present does not clear its announcement. -/
theorem outstanding_unseen {base : Int → Bool} {log : List Record} {x : Record} {n : Int}
    (h : Faithful base log x n) (hout : outstanding base log n = true) (hsaw : ¬ x.SawPresent n) :
    outstanding base (log ++ [x]) n = true := by
  have hnoup : ¬ x.Announces .up n := fun hup => hsaw (h.up.mp hup).1
  have hnodown : ¬ x.Announces .down n := by
    intro hdown
    rw [(h.down hdown).1] at hout
    cases hout
  rw [outstanding_snoc, announced, if_neg hnodown, if_neg hnoup]
  exact hout

/-- Between two sweeps that see a node present nothing clears its announcement. -/
theorem outstanding_kept {base : Int → Bool} {pre mid : List Record} {n : Int}
    (h : ∀ before x after, pre ++ mid = before ++ x :: after → Faithful base before x n)
    (hout : outstanding base pre n = true) (hmid : ∀ z ∈ mid, ¬ z.SawPresent n) :
    outstanding base (pre ++ mid) n = true := by
  induction mid using List.reverseRecOn with
  | nil => rwa [List.append_nil]
  | append_singleton mid z ih =>
    have hkept := ih (fun before x after hlog => h before x (after ++ [z]) (by
      rw [← List.append_assoc, hlog, List.append_assoc, List.cons_append]))
      fun y hy => hmid y (List.mem_append_left _ hy)
    have hlast := h (pre ++ mid) z [] (by rw [List.append_assoc])
    rw [← List.append_assoc]
    exact outstanding_unseen hlast hkept (hmid z (List.mem_append_right _ List.mem_cons_self))

/-- An announcement that stands has an offline note that nothing answered. -/
theorem outstanding_source {base : Int → Bool} {log : List Record} {n : Int}
    (h : ∀ pre x post, log = pre ++ x :: post → Faithful base pre x n)
    (hout : outstanding base log n = true) :
    (∃ before x mid, log = before ++ x :: mid ∧ x.Announces .down n ∧
        ∀ z ∈ mid, ¬ z.SawPresent n) ∨
      (base n = true ∧ ∀ z ∈ log, ¬ z.SawPresent n) := by
  induction log using List.reverseRecOn with
  | nil => exact .inr ⟨hout, List.forall_mem_nil _⟩
  | append_singleton log x ih =>
    have hlast := h log x [] rfl
    rw [outstanding_snoc, announced] at hout
    by_cases hdown : x.Announces .down n
    · exact .inl ⟨log, x, [], rfl, hdown, List.forall_mem_nil _⟩
    · rw [if_neg hdown] at hout
      by_cases hup : x.Announces .up n
      · rw [if_pos hup] at hout
        cases hout
      · rw [if_neg hup] at hout
        have habsent : ¬ x.SawPresent n := fun hsaw => hup (hlast.up.mpr ⟨hsaw, hout⟩)
        rcases ih (fun pre y post hlog => h pre y (post ++ [x]) (by
          rw [hlog, List.append_assoc, List.cons_append])) hout with
          ⟨before, y, mid, hlog, hy, hmid⟩ | ⟨hbase, hnone⟩
        · refine .inl ⟨before, y, mid ++ [x], ?_, hy, ?_⟩
          · rw [hlog, List.append_assoc, List.cons_append]
          · intro z hz
            rw [List.mem_append, List.mem_singleton] at hz
            rcases hz with hz | rfl
            · exact hmid z hz
            · exact habsent
        · refine .inr ⟨hbase, ?_⟩
          intro z hz
          rw [List.mem_append, List.mem_singleton] at hz
          rcases hz with hz | rfl
          · exact hnone z hz
          · exact habsent

/-- In every run of a hub: the notes about a node alternate, beginning with an
offline note unless one stood already; the first sweep that sees the node back
after an offline note says so; an online note answers an offline note that no
earlier sweep could answer; and an offline note comes only after an absence
that this process saw last for the grace then in force. -/
theorem announcements_alternate {jobs : Host} {start s : Hub} (hstart : Settled start)
    (hrun : Run jobs start s) (n : Int) :
    Alternates (onRecord start.db n) (notesOf s.log n) ∧
      (∀ pre x mid y post, s.log = pre ++ x :: (mid ++ y :: post) → x.Announces .down n →
        (∀ z ∈ mid, ¬ z.SawPresent n) → y.SawPresent n → y.Announces .up n) ∧
      (∀ pre y post, s.log = pre ++ y :: post → y.Announces .up n → y.SawPresent n ∧
        ((∃ before x mid, pre = before ++ x :: mid ∧ x.Announces .down n ∧
            ∀ z ∈ mid, ¬ z.SawPresent n) ∨
          (onRecord start.db n = true ∧ ∀ z ∈ pre, ¬ z.SawPresent n))) ∧
      (∀ pre x post, s.log = pre ++ x :: post → x.Announces .down n → LongAbsence pre x n) ∧
      ∀ x ∈ s.log, ∃ metered, x.notes = presenceNotes x.lists ++
        (batch "traffic" "⚠️" "流量提醒" metered).toList := by
  have hinv := Invariant.run hstart hrun
  have hpast : ∀ pre x post, s.log = pre ++ x :: post →
      Faithful (onRecord start.db) pre x n := fun pre x post hlog => hinv.past pre x post hlog n
  have hearlier : ∀ pre rest, s.log = pre ++ rest → ∀ before x after,
      pre = before ++ x :: after → Faithful (onRecord start.db) before x n := by
    intro pre rest hlog before x after hpre
    refine hpast before x (after ++ rest) ?_
    rw [hlog, hpre, List.append_assoc, List.cons_append]
  refine ⟨(alternates_faithful hpast).1, ?_, ?_, ?_, hinv.notes⟩
  · intro pre x mid y post hlog hdown hmid hsaw
    have hsplit : s.log = (pre ++ [x] ++ mid) ++ y :: post := by
      rw [hlog]
      simp
    have hopen : outstanding (onRecord start.db) (pre ++ [x]) n = true := by
      rw [outstanding_snoc, announced, if_pos hdown]
    have hstill := outstanding_kept (hearlier _ _ hsplit) hopen hmid
    exact (hpast _ y post hsplit).up.mpr ⟨hsaw, hstill⟩
  · intro pre y post hlog hup
    obtain ⟨hsaw, hout⟩ := (hpast pre y post hlog).up.mp hup
    exact ⟨hsaw, outstanding_source (hearlier pre _ hlog) hout⟩
  · intro pre x post hlog hdown
    exact ((hpast pre x post hlog).down hdown).2

/-! ## A node that flaps -/

/-- A node seen at 600 with alerts on, with some `down_since`. -/
def flappyNode (down : Int) : NodeRow := { announcedNode 1 "a" with downSince := down }

/-- A hub with that node, a webhook and no other settings. -/
def flappyHub : Hub where
  db := { Store.blank with
    setting := (Table.empty SettingRow.key).put ⟨"notify_webhook_url", "https://hub"⟩
    node := (Table.empty NodeRow.id).put (flappyNode 0)
    romiId := (Table.empty RomiIdRow.name).put ⟨"node", 2⟩ }
  online := fun _ => false
  watch := Watch.fresh
  process := 0
  log := []

/-- A clock for texts nobody reads here. -/
def quietHost : SweepHost := ⟨fun _ => "", fun _ => "", .june 1 TrafficFold.first_day⟩

/-- What is known of the node between two sweeps. -/
structure Tracks (s : Hub) (row : NodeRow) (absent returned : Option Int) : Prop where
  /-- The row is listed. -/
  listed : row ∈ nodes s.db
  /-- Since when the watch holds it absent. -/
  absent : s.watch.absent row.id = absent
  /-- When the watch last saw it come back. -/
  returned : s.watch.returned row.id = returned
  /-- The settings are those of the example. -/
  setting : s.db.setting = flappyHub.db.setting

/-- The only setting of the example. -/
theorem find_flappy_setting (key : String) :
    flappyHub.db.setting.find? key = if key = "notify_webhook_url" then
      some ⟨"notify_webhook_url", "https://hub"⟩ else none := by
  split
  · rename_i hkey
    exact Table.find?_eq_some.mpr ⟨Table.mem_put.mpr (.inl rfl), hkey.symm⟩
  · rename_i hkey
    rw [Table.find?_eq_none]
    rintro ⟨r, hr, hrk⟩
    rcases Table.mem_put.mp hr with rfl | ⟨hr, -⟩
    · exact hkey hrk.symm
    · cases hr

/-- The settings give a channel and the ordinary three minutes. -/
theorem flappy_settings {db : Store} (h : db.setting = flappyHub.db.setting) :
    (channels .none db).isEmpty = false ∧ grace .none db = 180 := by
  have hget : ∀ key, NotifySweep.get .none db key =
      if key = "notify_webhook_url" then some "https://hub" else none := by
    intro key
    unfold NotifySweep.get SweepFaults.none
    rw [if_neg Bool.false_ne_true, h, find_flappy_setting]
    split
    · rfl
    · rfl
  constructor
  · unfold channels setting
    simp only [hget]
    rfl
  · unfold grace number
    simp only [hget]
    rfl

/-- The table of settings is none of a sweep's business. -/
theorem recorded_setting (r : Round) (w : Watch) (list : List NodeRow) (db : Store) :
    (recorded r w list db).setting = db.setting := by
  induction list generalizing db with
  | nil => rfl
  | cons n rest ih =>
    unfold recorded at ih ⊢
    rw [List.foldl_cons, ih]
    cases due r w n with
    | none => rfl
    | some d => rfl

/-- One sweep, as far as the node goes. -/
theorem Tracks.swept {s : Hub} {row : NodeRow} {absent returned : Option Int}
    (h : Tracks s row absent returned) (now : Int) :
    Tracks (s.swept quietHost now) (moved (roundOf quietHost s.online now s.db) s.watch row)
      ((visit (roundOf quietHost s.online now s.db) row s.watch).1.absent row.id)
      ((visit (roundOf quietHost s.online now s.db) row s.watch).1.returned row.id) := by
  have hid := (moved_frame (roundOf quietHost s.online now s.db) s.watch row).1
  obtain ⟨habsent, hreturned⟩ := sweep_watch_row (w := s.watch) h.listed
  refine ⟨?_, ?_, ?_, ?_⟩
  · exact mem_nodes.mpr (Table.find?_eq_some.mp (sweep_row h.listed)).1
  · rw [hid]
    exact habsent
  · rw [hid]
    exact hreturned
  · change (sweep quietHost .none s.online now s.watch s.db).db.setting = _
    rw [sweep_db, recorded_setting, h.setting]

/-- How long the node has to be away, after what the watch knows. -/
def waits (absent returned : Option Int) (now : Int) : Int :=
  match returned with
  | some back => if absent.getD now - back < flapWindow then flapGrace else 180
  | none => 180

section Concrete

variable {s : Hub} {row : NodeRow} {absent returned : Option Int} {now : Int}

/-- When a node of the example is overdue. -/
theorem Tracks.overdue_iff (h : Tracks s row absent returned) :
    (roundOf quietHost s.online now s.db).Overdue s.watch row ↔
      row.notify = true ∧ row.downSince = 0 ∧
        now - absent.getD now ≥ waits absent returned now := by
  obtain ⟨harmed, hgrace⟩ := flappy_settings h.setting
  have hwait : (roundOf quietHost s.online now s.db).wait s.watch row.id =
      waits absent returned now := by
    have hround : (roundOf quietHost s.online now s.db).grace = 180 := hgrace
    unfold Round.wait Round.flapping Round.since waits
    rw [h.absent, h.returned, hround]
    cases returned with
    | none => rfl
    | some back =>
      simp only [decide_eq_true_eq]
      rfl
  unfold Round.Overdue
  rw [hwait, Round.since, h.absent]
  have hon : (roundOf quietHost s.online now s.db).armed = true := by
    change (!(channels .none s.db).isEmpty) = true
    rw [harmed]
    rfl
  rw [hon]
  exact ⟨fun h => h.2, fun h => ⟨rfl, h⟩⟩

/-- An absence that is not yet to be reported. -/
theorem Tracks.waiting (now : Int) (h : Tracks s row absent returned)
    (hoff : s.online row.id = false) (hseen : row.lastSeen ≠ 0)
    (hquiet : now - absent.getD now < waits absent returned now) :
    Tracks (s.swept quietHost now) row (some (absent.getD now)) returned := by
  have hswept := h.swept now
  have hno : ¬ (roundOf quietHost s.online now s.db).Overdue s.watch row := by
    rw [h.overdue_iff]
    intro hover
    exact absurd hover.2.2 (not_le.mpr hquiet)
  have hvisit := visit_absent (r := roundOf quietHost s.online now s.db) hoff hseen
    s.watch
  rw [if_neg hno] at hvisit
  have hmoved : moved (roundOf quietHost s.online now s.db) s.watch row = row := by
    rw [moved, due, hvisit]
  rw [hmoved, hvisit] at hswept
  dsimp only at hswept
  rw [Function.update_self, Round.since, h.absent, h.returned] at hswept
  exact hswept

/-- An absence that is reported. -/
theorem Tracks.reported (now : Int) (h : Tracks s row absent returned)
    (hoff : s.online row.id = false) (hseen : row.lastSeen ≠ 0) (hnotify : row.notify = true)
    (hzero : row.downSince = 0)
    (hlong : now - absent.getD now ≥ waits absent returned now) :
    Tracks (s.swept quietHost now) { row with downSince := row.lastSeen }
        (some (absent.getD now)) returned ∧
      (s.record quietHost now).Announces .down row.id := by
  have hswept := h.swept now
  have hover : (roundOf quietHost s.online now s.db).Overdue s.watch row :=
    h.overdue_iff.mpr ⟨hnotify, hzero, hlong⟩
  have hvisit := visit_absent (r := roundOf quietHost s.online now s.db) hoff hseen
    s.watch
  rw [if_pos hover] at hvisit
  have hmoved : moved (roundOf quietHost s.online now s.db) s.watch row =
      { row with downSince := row.lastSeen } := by
    rw [moved, due, hvisit]
  rw [hmoved, hvisit] at hswept
  dsimp only at hswept
  rw [Function.update_self, Round.since, h.absent, h.returned] at hswept
  exact ⟨hswept, (announces_row h.listed).mpr (due_down_iff.mpr ⟨hoff, hseen, hover⟩)⟩

/-- A return after a reported absence. -/
theorem Tracks.back (now : Int) {since : Int} (h : Tracks s row (some since) returned)
    (hon : s.online row.id = true) (hdown : 0 < row.downSince) (hlong : now - since ≥ 180) :
    Tracks (s.swept quietHost now) { row with downSince := 0 } none (some now) ∧
      (s.record quietHost now).Announces .up row.id := by
  have hswept := h.swept now
  have hvisit := visit_online (r := roundOf quietHost s.online now s.db) hon s.watch
  rw [if_pos hdown] at hvisit
  have hmoved : moved (roundOf quietHost s.online now s.db) s.watch row =
      { row with downSince := 0 } := by
    rw [moved, due, hvisit]
  have hgrace : (roundOf quietHost s.online now s.db).grace = 180 := (flappy_settings h.setting).2
  have hback := comeBack_long (r := roundOf quietHost s.online now s.db) h.absent (by
    rw [hgrace]
    exact hlong)
  rw [hmoved, hvisit] at hswept
  dsimp only at hswept
  rw [Function.update_self, hback] at hswept
  exact ⟨hswept, (announces_row h.listed).mpr (due_up_iff.mpr ⟨hon, hdown⟩)⟩

end Concrete

/-! Away at 1000, reported at 1200, back at 1230, away again at 1260 and
reported when half an hour has passed. -/

/-- Seen absent for the first time. -/
def flappyAway : Hub := flappyHub.swept quietHost 1000

/-- Reported and back. -/
def flappyBack : Hub := { flappyAway.swept quietHost 1200 with online := fun _ => true }

/-- Seen back and gone again. -/
def flappyGone : Hub := { flappyBack.swept quietHost 1230 with online := fun _ => false }

/-- Seen absent again. -/
def flappyAgain : Hub := flappyGone.swept quietHost 1260

/-- Reported again. -/
def flappyEnd : Hub := flappyAgain.swept quietHost 3060

/-- The example begins in order. -/
theorem flappyHub_settled : Settled flappyHub := by
  refine ⟨?_, rfl, rfl⟩
  intro r hr
  rcases Table.mem_put.mp hr with rfl | ⟨hr, -⟩
  · exact ⟨by decide, by decide, ⟨"node", 2⟩, Table.mem_put.mpr (.inl rfl), rfl, by decide⟩
  · cases hr

/-- Its sweeps are a run. -/
theorem flappy_run (jobs : Host) : Run jobs flappyHub flappyEnd := by
  refine .tail (.tail (.tail (.tail (.tail (.tail (.tail .refl (.swept quietHost 1000))
    (.swept quietHost 1200)) (.connected fun _ => true)) (.swept quietHost 1230))
    (.connected fun _ => false)) (.swept quietHost 1260)) (.swept quietHost 3060)

/-- The node is reported, comes back and is reported again. -/
theorem flappy_notes : (flappyAway.record quietHost 1200).Announces .down 1 ∧
    (flappyBack.record quietHost 1230).Announces .up 1 ∧
    (flappyAgain.record quietHost 3060).Announces .down 1 ∧
    flappyAway.db.setting = flappyHub.db.setting ∧ flappyBack.db.setting = flappyHub.db.setting ∧
    flappyGone.db.setting = flappyHub.db.setting ∧
    flappyAgain.db.setting = flappyHub.db.setting := by
  have hstart : Tracks flappyHub (flappyNode 0) none none :=
    ⟨mem_nodes.mpr (Table.mem_put.mpr (.inl rfl)), rfl, rfl, rfl⟩
  have haway : Tracks flappyAway (flappyNode 0) (some 1000) none :=
    hstart.waiting 1000 rfl (by decide) (by decide)
  obtain ⟨hreported, hfirst⟩ := haway.reported 1200 rfl (by decide) rfl rfl (by decide)
  have hback : Tracks flappyBack (flappyNode 600) (some 1000) none :=
    ⟨hreported.listed, hreported.absent, hreported.returned, hreported.setting⟩
  obtain ⟨hreturned, hup⟩ := hback.back 1230 rfl (by decide) (by decide)
  have hgone : Tracks flappyGone (flappyNode 0) none (some 1230) :=
    ⟨hreturned.listed, hreturned.absent, hreturned.returned, hreturned.setting⟩
  have hagain : Tracks flappyAgain (flappyNode 0) (some 1260) (some 1230) :=
    hgone.waiting 1260 rfl (by decide) (by decide)
  obtain ⟨-, hsecond⟩ := hagain.reported 3060 rfl (by decide) rfl rfl (by decide)
  exact ⟨hfirst, hup, hsecond, haway.setting, hback.setting, hgone.setting, hagain.setting⟩

/-- A node that comes and goes is announced in turn. -/
theorem announcements_alternate_flappy :
    (flappyAway.record quietHost 1200).Announces .down 1 ∧
      Alternates false (notesOf flappyEnd.log 1) := by
  have hbase : onRecord flappyHub.db 1 = false := by
    have hfind : flappyHub.db.node.find? 1 = some (flappyNode 0) :=
      Table.find?_eq_some.mpr ⟨Table.mem_put.mpr (.inl rfl), rfl⟩
    rw [onRecord, hfind]
    rfl
  have halt := (announcements_alternate flappyHub_settled
    (flappy_run ⟨fun t => t, fun _ => none⟩) 1).1
  rw [hbase] at halt
  exact ⟨flappy_notes.1, halt⟩

end Romi.Announcements
