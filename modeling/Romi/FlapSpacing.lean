import Romi.Announcements

/-!
# How far apart two offline notes are

After an offline note a node is away, or back since a time no earlier than the
note, or deleted. A new absence of a node that is back begins after that
return, and the longer grace after a recent return keeps the next offline note
away from the last one.
-/

namespace Romi.FlapSpacing

open Announcements KeyedTable NodeContinuity NotifySweep StoreOperations StoreSchema SweepOutcome
  SweepRuns

/-- Sweeps of one process under one grace, at times that do not go back. -/
def Uniform (process : Nat) (grace : Int) (seg : List Record) : Prop :=
  (∀ y ∈ seg, y.process = process ∧ y.grace = grace) ∧
    seg.Pairwise fun y z => y.now ≤ z.now

/-- Where a node stands after its offline note at `a` and the sweeps `seg` from
there on. -/
inductive After (base : Int → Bool) (s : Hub) (a : Record) (seg : List Record) (n : Int) : Prop
  /-- The node has been away for longer than the grace, and is recorded offline. -/
  | away (t : Int) (habsent : s.watch.absent n = some t) (hlong : a.grace ≤ a.now - t)
    (hout : outstanding base s.log n = true)
  /-- It has come back at a sweep since, and was not away before that one. -/
  | back (y : Record) (hy : y ∈ seg) (hreturned : s.watch.returned n = some y.now)
    (hlater : a.now ≤ y.now) (habsent : ∀ t, s.watch.absent n = some t → y.now ≤ t)
  /-- It has been deleted. -/
  | gone (hissued : Issued s.db n) (hno : ¬ s.db.node.Has n)

/-- Every offline note of the running process is followed up. -/
def Followed (base : Int → Bool) (s : Hub) : Prop :=
  ∀ pre a seg n, s.log = pre ++ a :: seg → Uniform s.process a.grace (a :: seg) →
    a.Announces .down n → After base s a (a :: seg) n

/-- Offline notes of one node are spaced. -/
def Spaced (s : Hub) : Prop :=
  ∀ pre a mid b post n, s.log = pre ++ a :: (mid ++ b :: post) →
    Uniform a.process a.grace (a :: (mid ++ [b])) →
    a.Announces .down n → b.Announces .down n → flapGrace ≤ b.now - a.now

section OneSweep

variable {base : Int → Bool} {s : Hub} {host : SweepHost} {now : Int} {a : Record}
  {seg : List Record} {n : Int}

/-- The next offline note of a node comes at least `FLAP_GRACE` after the last. -/
theorem After.spaced (h : After base s a seg n) (hinv : Invariant base s)
    (hdown : (s.record host now).Announces .down n) : flapGrace ≤ now - a.now := by
  obtain ⟨row, hrow, rfl⟩ := List.mem_map.mp (announces_lookedAt hdown)
  obtain ⟨-, -, hoverdue⟩ := due_down_iff.mp ((announces_row hrow).mp hdown)
  cases h with
  | away t habsent hlong hout =>
    rw [((faithful_swept hinv row.id).down hdown).1] at hout
    cases hout
  | back y hy hreturned hlater habsent =>
    obtain ⟨t, ht, hgrace, hflap⟩ := overdue_since hoverdue
    have hafter := habsent t ht
    have hpos := (grace_bounds .none s.db).1
    have hwindow : flapWindow = 3600 := rfl
    have hcap : flapGrace = 1800 := rfl
    by_cases hnear : t - y.now < flapWindow
    · have hlong := hflap y.now hreturned hnear
      omega
    · omega
  | gone hissued hno => exact absurd ⟨row, mem_nodes.mp hrow, rfl⟩ hno

/-- A node that is not listed any more is gone for good. -/
theorem gone_unlisted (hinv : Invariant base s) (ha : a ∈ s.log ∧ a.LookedAt n)
    (h : n ∉ (nodes s.db).map NodeRow.id) :
    After base (s.swept host now) a (seg ++ [s.record host now]) n := by
  refine .gone ?_ ?_
  · rw [issued_swept]
    by_contra hno
    exact (hinv.unissued n hno).2 a ha.1 ha.2
  · rintro ⟨r', hr', rfl⟩
    obtain ⟨row, hrow, rfl⟩ := swept_row hr'
    rw [(moved_frame _ _ row).1] at h
    exact h (List.mem_map_of_mem hrow)

/-- Otherwise the last return stays. -/
theorem comeBack_cases (r : Round) (w : Watch) (id : Int) :
    r.comeBack w id id = some r.now ∨ r.comeBack w id id = w.returned id := by
  cases habsent : w.absent id with
  | none =>
    unfold Round.comeBack
    rw [habsent]
    exact .inr rfl
  | some t =>
    by_cases hlong : r.now - t ≥ r.grace
    · exact .inl (comeBack_long habsent hlong)
    · unfold Round.comeBack
      rw [habsent]
      dsimp only
      rw [if_neg hlong]
      exact .inr rfl

/-- A sweep that sees a followed node present finds it back. -/
theorem After.online (h : After base s a seg n) {row : NodeRow} (hrow : row ∈ nodes s.db)
    (hid : row.id = n) (honline : s.online n = true)
    (hgrace : (s.record host now).grace = a.grace) (hlater : a.now ≤ now) :
    After base (s.swept host now) a (seg ++ [s.record host now]) n := by
  subst hid
  obtain ⟨habsent', hreturned'⟩ := sweep_watch_row (w := s.watch) hrow
  have hon : (roundOf host s.online now s.db).online row.id = true := honline
  rw [visit_online hon] at habsent' hreturned'
  dsimp only at habsent' hreturned'
  rw [Function.update_self] at habsent'
  have hnone : ∀ v : Int, ∀ t, (s.swept host now).watch.absent row.id = some t → v ≤ t := by
    intro v t ht
    have hcontra := habsent'.symm.trans ht
    cases hcontra
  have hnow : (s.record host now) ∈ seg ++ [s.record host now] :=
    List.mem_append_right _ List.mem_cons_self
  cases h with
  | away t habsent hlong hout =>
    have hround : (roundOf host s.online now s.db).grace = a.grace := hgrace
    have hlonger : (roundOf host s.online now s.db).now - t ≥
        (roundOf host s.online now s.db).grace := by
      have hsame : (roundOf host s.online now s.db).now = now := rfl
      omega
    rw [comeBack_long habsent hlonger] at hreturned'
    exact .back _ hnow hreturned' hlater (hnone _)
  | back y hy hreturned hback habsent =>
    rcases comeBack_cases (roundOf host s.online now s.db) s.watch row.id with hnew | hold
    · rw [hnew] at hreturned'
      exact .back _ hnow hreturned' hlater (hnone _)
    · rw [hold, hreturned] at hreturned'
      exact .back y (List.mem_append_left _ hy) hreturned' hback (hnone _)
  | gone hissued hno => exact absurd ⟨row, mem_nodes.mp hrow, rfl⟩ hno

/-- A sweep that sees a followed node absent leaves it where it was. -/
theorem After.offline (h : After base s a seg n) (hinv : Invariant base s) {row : NodeRow}
    (hrow : row ∈ nodes s.db) (hid : row.id = n) (hoffline : s.online n = false)
    (hnow : ∀ y ∈ seg, y.now ≤ now) :
    After base (s.swept host now) a (seg ++ [s.record host now]) n := by
  subst hid
  obtain ⟨habsent', hreturned'⟩ := sweep_watch_row (w := s.watch) hrow
  have hoff : (roundOf host s.online now s.db).online row.id = false := hoffline
  -- a visit keeps the return, and an absence that has begun
  have hvisit : (visit (roundOf host s.online now s.db) row s.watch).1.returned row.id =
        s.watch.returned row.id ∧
      (∀ t, s.watch.absent row.id = some t →
        (visit (roundOf host s.online now s.db) row s.watch).1.absent row.id = some t) ∧
      ∀ t, (visit (roundOf host s.online now s.db) row s.watch).1.absent row.id = some t →
        s.watch.absent row.id = some t ∨ t = now := by
    by_cases hseen : row.lastSeen = 0
    · rw [visit_unseen hoff hseen]
      exact ⟨rfl, fun _ ht => ht, fun _ ht => .inl ht⟩
    · rw [visit_absent hoff hseen]
      dsimp only
      rw [Function.update_self, Round.since]
      refine ⟨rfl, ?_, ?_⟩
      · intro t ht
        rw [ht, Option.getD_some]
      · intro t ht
        rw [Option.some.injEq] at ht
        cases habsent : s.watch.absent row.id with
        | none =>
          rw [habsent, Option.getD_none] at ht
          exact .inr ht.symm
        | some t' =>
          rw [habsent, Option.getD_some] at ht
          exact .inl (congrArg some ht)
  obtain ⟨hreturnedKept, habsentKept, habsentNew⟩ := hvisit
  have hunseen : ¬ (s.record host now).SawPresent row.id := by
    intro hsaw
    have hon := hsaw.2
    rw [show (s.record host now).online row.id = s.online row.id from rfl, hoffline] at hon
    cases hon
  cases h with
  | away t habsent hlong hout =>
    refine .away t ?_ hlong ?_
    · exact habsent'.trans (habsentKept t habsent)
    · exact outstanding_unseen (faithful_swept hinv row.id) hout hunseen
  | back y hy hreturned hback habsent =>
    refine .back y (List.mem_append_left _ hy) ?_ hback ?_
    · exact hreturned'.trans (hreturnedKept.trans hreturned)
    · intro t ht
      rcases habsentNew t (habsent'.symm.trans ht) with hold | rfl
      · exact habsent t hold
      · exact hnow y hy
  | gone hissued hno => exact absurd ⟨row, mem_nodes.mp hrow, rfl⟩ hno

/-- What a sweep makes of a node that is followed. -/
theorem After.swept (h : After base s a seg n) (hinv : Invariant base s)
    (ha : a ∈ s.log ∧ a.LookedAt n) (hgrace : (s.record host now).grace = a.grace)
    (hnow : ∀ y ∈ seg, y.now ≤ now) (hin : a ∈ seg) :
    After base (s.swept host now) a (seg ++ [s.record host now]) n := by
  by_cases hlisted : n ∈ (nodes s.db).map NodeRow.id
  · obtain ⟨row, hrow, hid⟩ := List.mem_map.mp hlisted
    cases honline : s.online n with
    | true => exact h.online hrow hid honline hgrace (hnow a hin)
    | false => exact h.offline hinv hrow hid honline hnow
  · exact gone_unlisted hinv ha hlisted

/-- A node just announced is away. -/
theorem after_note (hdown : (s.record host now).Announces .down n) :
    After base (s.swept host now) (s.record host now) [s.record host now] n := by
  obtain ⟨row, hrow, rfl⟩ := List.mem_map.mp (announces_lookedAt hdown)
  obtain ⟨hoffline, hseen, hoverdue⟩ := due_down_iff.mp ((announces_row hrow).mp hdown)
  obtain ⟨t, ht, hgrace, -⟩ := overdue_since hoverdue
  have hwatch := (@sweep_watch_row host s.online now s.watch s.db row hrow).1
  rw [visit_absent hoffline hseen] at hwatch
  dsimp only at hwatch
  rw [Function.update_self, Round.since, ht, Option.getD_some] at hwatch
  refine .away t hwatch hgrace ?_
  change outstanding base (s.log ++ [s.record host now]) row.id = true
  rw [outstanding_snoc, announced, if_pos hdown]

/-- A sweep keeps following, and its own offline notes are spaced. -/
theorem followed_swept (hinv : Invariant base s) (hfollowed : Followed base s)
    (hspaced : Spaced s) : Followed base (s.swept host now) ∧ Spaced (s.swept host now) := by
  have hlog : (s.swept host now).log = s.log ++ [s.record host now] := rfl
  constructor
  · intro pre a seg n hsplit huniform hdown
    rw [hlog] at hsplit
    rcases snoc_split hsplit with ⟨-, rfl, rfl⟩ | ⟨seg', rfl, hold⟩
    · exact after_note hdown
    · obtain ⟨hsame, hsorted⟩ := huniform
      rw [← List.cons_append, List.pairwise_append] at hsorted
      have hprefix : Uniform s.process a.grace (a :: seg') :=
        ⟨fun y hy => hsame y (List.mem_append_left _ hy), hsorted.1⟩
      have hafter := hfollowed pre a seg' n hold hprefix hdown
      have hin : a ∈ s.log := by
        rw [hold]
        exact List.mem_append_right _ List.mem_cons_self
      have hlooked : a.LookedAt n :=
        (hinv.past pre a seg' hold n |>.down hdown).2.sawAbsent.1
      exact hafter.swept hinv ⟨hin, hlooked⟩
        (hsame _ (List.mem_append_right (a :: seg') List.mem_cons_self)).2
        (fun y hy => hsorted.2.2 y hy _ List.mem_cons_self) List.mem_cons_self
  · intro pre a mid b post n hsplit huniform hdown hdown'
    rw [hlog, ← List.cons_append, ← List.append_assoc] at hsplit
    rcases snoc_split hsplit with ⟨hpre, rfl, -⟩ | ⟨post', -, hold⟩
    · obtain ⟨hsame, hsorted⟩ := huniform
      rw [← List.cons_append, List.pairwise_append] at hsorted
      have hprocess : a.process = s.process :=
        (hsame _ (List.mem_append_right (a :: mid) List.mem_cons_self)).1.symm
      have hprefix : Uniform s.process a.grace (a :: mid) := by
        refine ⟨fun y hy => ?_, hsorted.1⟩
        rw [← hprocess]
        exact hsame y (List.mem_append_left _ hy)
      exact (hfollowed pre a mid n hpre.symm hprefix hdown).spaced hinv hdown'
    · refine hspaced pre a mid b post' n ?_ huniform hdown hdown'
      rw [hold, List.append_assoc, List.cons_append]

end OneSweep

/-! ## A whole run -/

/-- One step keeps what follows an announcement, and the spacing with it. -/
theorem followed_step {jobs : Host} {base : Int → Bool} {s s' : Hub} (hinv : Invariant base s)
    (h : Followed base s ∧ Spaced s) (hstep : Step jobs s s') :
    Followed base s' ∧ Spaced s' := by
  -- a write keeps watch and log; a node that was gone stays gone
  have hwrite : ∀ {t : Touches} {db : Store}, Continues t s.db db →
      Followed base { s with db := db } ∧ Spaced { s with db := db } := by
    intro t db hc
    refine ⟨?_, h.2⟩
    intro pre a seg n hlog huniform hdown
    cases h.1 pre a seg n hlog huniform hdown with
    | away t habsent hlong hout => exact .away t habsent hlong hout
    | back y hy hreturned hlater habsent => exact .back y hy hreturned hlater habsent
    | gone hissued hno => exact .gone (hc.issued n hissued) (hc.gone hissued hno)
  cases hstep with
  | swept host now => exact followed_swept hinv h.1 h.2
  | restarted =>
    refine ⟨?_, h.2⟩
    intro pre a seg n hlog huniform hdown
    have hin : a ∈ s.log := by
      rw [show s.log = pre ++ a :: seg from hlog]
      exact List.mem_append_right _ List.mem_cons_self
    have hold := hinv.process a hin
    have hnew : a.process = s.process + 1 := (huniform.1 a List.mem_cons_self).1
    omega
  | connected online =>
    refine ⟨?_, h.2⟩
    intro pre a seg n hlog huniform hdown
    cases h.1 pre a seg n hlog huniform hdown with
    | away t habsent hlong hout => exact .away t habsent hlong hout
    | back y hy hreturned hlater habsent => exact .back y hy hreturned hlater habsent
    | gone hissued hno => exact .gone hissued hno
  | wrote op hop session hdb =>
    obtain ⟨t, -, hc⟩ := wrote_continues hop session
    rw [hdb] at hc
    exact hwrite hc
  | reported op session hdb =>
    obtain ⟨t, -, hc⟩ := reported_continues op session
    rw [hdb] at hc
    exact hwrite hc

/-- By induction on the run, both hold in every state. -/
theorem followed_run {jobs : Host} {start s : Hub} (hstart : Settled start)
    (hrun : Run jobs start s) : Followed (onRecord start.db) s ∧ Spaced s := by
  induction hrun with
  | refl =>
    have hnil : ∀ {pre rest : List Record} {x : Record}, start.log ≠ pre ++ x :: rest := by
      intro pre rest x hlog
      rw [hstart.log] at hlog
      exact absurd hlog (by simp)
    exact ⟨fun _ _ _ _ hlog _ _ => absurd hlog hnil, fun _ _ _ _ _ _ hlog _ _ _ => absurd hlog hnil⟩
  | tail hrun hstep ih => exact followed_step (Invariant.run hstart hrun) ih hstep

/-- While one process sweeps under one grace at times that do not go back, any
two offline notes of a node are at least `FLAP_GRACE` apart, however the node
leaves and returns. -/
theorem offline_notes_spaced {jobs : Host} {start s : Hub} (hstart : Settled start)
    (hrun : Run jobs start s) {pre mid post : List Record} {a b : Record} {n : Int}
    (hlog : s.log = pre ++ a :: (mid ++ b :: post))
    (huniform : Uniform a.process a.grace (a :: (mid ++ [b])))
    (ha : a.Announces .down n) (hb : b.Announces .down n) : flapGrace ≤ b.now - a.now :=
  (followed_run hstart hrun).2 pre a mid b post n hlog huniform ha hb

/-- A node that flaps twice. -/
theorem offline_notes_spaced_flappy : flapGrace ≤
    (flappyAgain.record quietHost 3060).now - (flappyAway.record quietHost 1200).now := by
  obtain ⟨hfirst, -, hsecond, haway, hback, hgone, hagain⟩ := flappy_notes
  have hlog : flappyEnd.log = [flappyHub.record quietHost 1000] ++
      flappyAway.record quietHost 1200 :: ([flappyBack.record quietHost 1230,
        flappyGone.record quietHost 1260] ++ flappyAgain.record quietHost 3060 :: []) := rfl
  have hgrace : ∀ {s : Hub} {now : Int}, s.db.setting = flappyHub.db.setting →
      (s.record quietHost now).grace = 180 := fun hs => (flappy_settings hs).2
  refine offline_notes_spaced flappyHub_settled (flappy_run ⟨fun t => t, fun _ => none⟩) hlog
    ⟨?_, ?_⟩ hfirst hsecond
  · intro y hy
    rw [hgrace haway]
    simp only [List.cons_append, List.nil_append, List.mem_cons, List.not_mem_nil, or_false] at hy
    rcases hy with rfl | rfl | rfl | rfl
    · exact ⟨rfl, hgrace haway⟩
    · exact ⟨rfl, hgrace hback⟩
    · exact ⟨rfl, hgrace hgone⟩
    · exact ⟨rfl, hgrace hagain⟩
  · simp [Hub.record]

end Romi.FlapSpacing
