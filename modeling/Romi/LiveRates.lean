import Romi.CountedTraffic
import Romi.MachineReadings

/-!
# What live rates are taken of

The live rate of a sample is what each counted interface climbed by since the
sample before, over the time since then, in double precision. An interface that
was not counted then brings nothing, however much its counter holds, so over a
run the rates tell of no more than what passed, but for rounding.
-/

namespace Romi.LiveRates

open AgentCounters DoublePrecision MachineReadings SaturatingSum TrafficFold
open CountedTraffic (Happening Later Truthful later_after)

/-- One step of a run. -/
inductive Step
  /-- The machine changes. -/
  | happen (e : Happening)
  /-- The agent collects. -/
  | collect (r : Machine)

/-- Collections tell the truth about the interfaces of the machine. -/
def Plausible : CountedTraffic.Machine → List Step → Prop
  | _, [] => True
  | m, .happen e :: rest => Plausible (m.after e) rest
  | m, .collect r :: rest => Truthful m r.network ∧ Plausible m rest

/-- The machine at the end of a run. -/
def machineAfter (m : CountedTraffic.Machine) : List Step → CountedTraffic.Machine
  | [] => m
  | .happen e :: rest => machineAfter (m.after e) rest
  | .collect _ :: rest => machineAfter m rest

/-- The bytes each collection's rates are taken of. -/
def measured (parse32 parse64 : FloatParser) (c : Collector) : List Step → List (Nat × Nat)
  | [] => []
  | .happen _ :: rest => measured parse32 parse64 c rest
  | .collect r :: rest => climbed c.prevNet r.network.rows ::
    measured parse32 parse64 (c.collect parse32 parse64 r).2 rest

/-- The live rates of each collection, with the nanoseconds since the one before. -/
def shown (parse32 parse64 : FloatParser) (c : Collector) : List Step → List ((Nat × Nat) × Nat)
  | [] => []
  | .happen _ :: rest => shown parse32 parse64 c rest
  | .collect r :: rest =>
    let collected := c.collect parse32 parse64 r
    ((collected.1.netRx, collected.1.netTx), r.instant - c.prevNetAt.getD r.instant) ::
      shown parse32 parse64 collected.2 rest

/-- What rates amount to over their times, in bytes a second times nanoseconds. -/
def told (dir : Direction) (rates : List ((Nat × Nat) × Nat)) : Nat :=
  (rates.map fun x => dir.of x.1 * x.2).sum

/-- What passed from one machine to a later one through some interfaces. -/
def between (dir : Direction) (names : Finset String) (m₀ m : CountedTraffic.Machine) : Nat :=
  ∑ name ∈ names, (dir.of (m.passed name) - dir.of (m₀.passed name))

/-- What passed between consecutive samples through the interfaces both count,
where the sample before counted some of a machine. -/
def through (dir : Direction) (m₀ : CountedTraffic.Machine) (counted : Finset String) :
    CountedTraffic.Machine → List Step → Nat
  | _, [] => 0
  | m, .happen e :: rest => through dir m₀ counted (m.after e) rest
  | m, .collect r :: rest => between dir (counted ∩ r.network.names.toFinset) m₀ m +
    through dir m r.network.names.toFinset m rest

/-- Every interface a run counts is among these. -/
def Counts (names : Finset String) (steps : List Step) : Prop :=
  ∀ r, .collect r ∈ steps → r.network.names.toFinset ⊆ names

/-- Counters of a machine never run back. -/
theorem later_machineAfter (m : CountedTraffic.Machine) (steps : List Step) :
    Later m (machineAfter m steps) := by
  induction steps generalizing m with
  | nil => exact Later.refl m
  | cons step rest ih =>
    cases step with
    | happen e => exact (later_after m e).trans (ih _)
    | collect r => exact ih m

/-! ## One sample -/

/-- What a collector keeps was read off this machine, of these interfaces. -/
structure Kept (m : CountedTraffic.Machine) (names : Finset String) (c : Collector) : Prop where
  /-- The collector remembers the counters it read. -/
  counter : ∀ name p, (name, p) ∈ c.prevNet → m.counter name = p
  /-- Of the interfaces there were. -/
  names : (c.prevNet.map Prod.fst).toFinset = names

/-- A sum that stops at the largest number is at most the sum. -/
theorem climbed_le_sum (dir : Direction) (prevNet : List (String × (Nat × Nat)))
    (rows : List NetDevRow) :
    dir.of (climbed prevNet rows) ≤ ((climbs prevNet rows).map dir.of).sum := by
  have hgeneral : ∀ (list : List (Nat × Nat)) (t : Nat × Nat),
      dir.of (list.foldl (fun sum climb =>
        (capAdd u64Max sum.1 climb.1, capAdd u64Max sum.2 climb.2)) t) ≤
      dir.of t + (list.map dir.of).sum := by
    intro list
    induction list with
    | nil => exact fun t => le_rfl
    | cons a rest ih =>
      intro t
      rw [List.foldl_cons, List.map_cons, List.sum_cons]
      refine (ih _).trans ?_
      have hstep : dir.of (capAdd u64Max t.1 a.1, capAdd u64Max t.2 a.2) ≤ dir.of t + dir.of a := by
        cases dir
        · exact min_le_right _ _
        · exact min_le_right _ _
      omega
  have hzero : dir.of ((0, 0) : Nat × Nat) = 0 := by cases dir <;> rfl
  have h := hgeneral (climbs prevNet rows) (0, 0)
  rwa [hzero, zero_add] at h

/-- Interface by interface a climb is at most what passed, and one that was not
kept has none. -/
theorem climbs_le {m₀ m : CountedTraffic.Machine} (hlater : Later m₀ m)
    {prevNet : List (String × (Nat × Nat))}
    (hkept : ∀ name p, (name, p) ∈ prevNet → m₀.counter name = p) (dir : Direction)
    {rows : List NetDevRow} (hrows : ∀ row ∈ rows, m.counter row.name = (row.rx, row.tx)) :
    ((climbs prevNet rows).map dir.of).sum ≤
      (((rows.map NetDevRow.name).filter fun name => name ∈ prevNet.map Prod.fst).map fun name =>
        dir.of (m.passed name) - dir.of (m₀.passed name)).sum := by
  induction rows with
  | nil => exact le_rfl
  | cons row rest ih =>
    have hrest := ih fun r hr => hrows r (List.mem_cons_of_mem row hr)
    unfold climbs at hrest ⊢
    rw [List.map_cons]
    cases hfound : prevNet.reverse.lookup row.name with
    | none =>
      have hnot : row.name ∉ prevNet.map Prod.fst := by
        intro hmem
        obtain ⟨p, hp, hname⟩ := List.mem_map.mp hmem
        have hne := List.lookup_eq_none_iff.mp hfound p (List.mem_reverse.mpr hp)
        rw [bne_iff_ne] at hne
        exact hne hname.symm
      rw [List.filterMap_cons_none (by rw [hfound]; rfl),
        List.filter_cons_of_neg (by simpa using hnot)]
      exact hrest
    | some p =>
      obtain ⟨before, after, hsplit, -⟩ := List.lookup_eq_some_iff.mp hfound
      have hmem : (row.name, p) ∈ prevNet := by
        rw [← List.mem_reverse, hsplit]
        exact List.mem_append_right _ List.mem_cons_self
      have hname : row.name ∈ prevNet.map Prod.fst := List.mem_map.mpr ⟨_, hmem, rfl⟩
      have hcounter := hlater.counter row.name dir
      have hpassed := hlater.passed row.name dir
      rw [hrows row List.mem_cons_self, hkept _ _ hmem] at hcounter
      rw [List.filterMap_cons_some (by rw [hfound]; rfl),
        List.filter_cons_of_pos (by simpa using hname), List.map_cons, List.map_cons,
        List.sum_cons, List.sum_cons]
      dsimp only
      have hclimb : dir.of (row.rx - p.1, row.tx - p.2) = dir.of (row.rx, row.tx) - dir.of p := by
        cases dir <;> rfl
      omega

/-- One sample measures no more than what passed since the one before. -/
theorem climbed_le_between {m₀ m : CountedTraffic.Machine} (hlater : Later m₀ m)
    {names : Finset String} {c : Collector} (hkept : Kept m₀ names c) {s : Sample}
    (htrue : Truthful m s) (dir : Direction) :
    dir.of (climbed c.prevNet s.rows) ≤ between dir (names ∩ s.names.toFinset) m₀ m := by
  have hsub : s.rows.Sublist (netDev s.dev) := List.filter_sublist
  have hnodup : s.names.Nodup := htrue.nodup.sublist (hsub.map _)
  have hsum := (climbed_le_sum dir c.prevNet s.rows).trans (climbs_le hlater hkept.counter dir
    fun row hrow => (htrue.rows row (hsub.subset hrow)).2.2)
  change _ ≤ ((s.names.filter _).map _).sum at hsum
  refine hsum.trans ?_
  rw [← List.sum_toFinset _ (hnodup.filter _), between]
  refine Finset.sum_le_sum_of_subset ?_
  intro name hname
  rw [List.mem_toFinset, List.mem_filter] at hname
  refine Finset.mem_inter.mpr ⟨?_, List.mem_toFinset.mpr hname.1⟩
  rw [← hkept.names]
  exact List.mem_toFinset.mpr (of_decide_eq_true hname.2)

/-- After a report it remembers those of this machine. -/
theorem kept_collect (parse32 parse64 : FloatParser) (c : Collector) {m : CountedTraffic.Machine}
    {r : Machine} (htrue : Truthful m r.network) :
    Kept m r.network.names.toFinset (c.collect parse32 parse64 r).2 := by
  have hprev : (c.collect parse32 parse64 r).2.prevNet =
      r.network.rows.map fun row => (row.name, row.rx, row.tx) := by
    change (Collector.cpuPercent _ r.stat).2.prevNet = _
    unfold Collector.cpuPercent
    cases r.stat.bind parseCpuJiffies <;> rfl
  constructor
  · intro name p hp
    rw [hprev] at hp
    obtain ⟨row, hrow, heq⟩ := List.mem_map.mp hp
    cases heq
    have hsub : r.network.rows.Sublist (netDev r.network.dev) := List.filter_sublist
    exact (htrue.rows row (hsub.subset hrow)).2.2
  · rw [hprev, List.map_map]
    rfl

/-! ## One rate -/

/-- The seconds are as long as the nanoseconds, but for two roundings. -/
theorem asSecs_long {nanos : Nat} {s : Rat} (h : asSecs nanos = .finite s) :
    (nanos : Rat) / 1000000000 * (1 - roundoff) ^ 2 ≤ s := by
  have hunit : 0 < 1 - roundoff ∧ 1 - roundoff ≤ 1 := by norm_num [roundoff]
  obtain ⟨hunit, hone⟩ := hunit
  have hrest : nanos % 1000000000 < 1000000000 := Nat.mod_lt _ (by decide)
  have hexact : ofRat (nanos % 1000000000 : Nat) = .finite (nanos % 1000000000 : Nat) :=
    ofRat_nat (hrest.le.trans (by decide))
  have hsplit : (nanos : Rat) / 1000000000 =
      (nanos / 1000000000 : Nat) + ((nanos % 1000000000 : Nat) : Rat) / 1000000000 := by
    have hdiv : (nanos : Rat) = ((1000000000 * (nanos / 1000000000) + nanos % 1000000000 : Nat) : Rat) := by
      rw [Nat.div_add_mod]
    rw [hdiv]
    push_cast
    ring
  generalize hS : nanos / 1000000000 = S at h hsplit
  generalize hN : nanos % 1000000000 = N at h hsplit hexact hrest
  have hfraction : ∃ d, (ofRat (N : Nat)).div (.finite 1000000000) = .finite d ∧
      (N : Rat) / 1000000000 * (1 - roundoff) ≤ d := by
    rw [hexact, Double.div_finite _ (by norm_num)]
    rcases Nat.eq_zero_or_pos N with rfl | hpos
    · exact ⟨0, by decide +kernel, by simp⟩
    · have hlow : (2 : Rat) ^ (-1022 : Int) ≤ (N : Rat) / 1000000000 := by
        calc (2 : Rat) ^ (-1022 : Int) ≤ 2 ^ (-30 : Int) :=
              zpow_le_zpow_right₀ (by norm_num) (by decide)
          _ ≤ 1 / 1000000000 := by norm_num
          _ ≤ (N : Rat) / 1000000000 := by
            refine div_le_div_of_nonneg_right ?_ (by norm_num)
            exact_mod_cast hpos
      have hhigh : (N : Rat) / 1000000000 ≤ 2 ^ (1023 : Int) := by
        calc (N : Rat) / 1000000000 ≤ 1 := by
              rw [div_le_one (by norm_num)]
              exact_mod_cast hrest.le
          _ ≤ 2 ^ (1023 : Int) := one_le_zpow₀ (by norm_num) (by decide)
      exact ⟨_, ofRat_normal hlow hhigh, (nearest_near hlow).1⟩
  obtain ⟨d, hd, hdlow⟩ := hfraction
  unfold asSecs at h
  rw [hS, hN, hd] at h
  cases hs : ofRat (S : Nat) with
  | nan =>
    rw [hs] at h
    cases h
  | infinite negative =>
    rw [hs] at h
    cases h
  | finite whole =>
    rw [hs] at h
    have hwhole : (S : Rat) * (1 - roundoff) ≤ whole := ofRat_finite hs ▸ (nearest_natural S).1
    have hs := ofRat_finite (show ofRat (whole + d) = .finite s from h)
    have hsum : (nanos : Rat) / 1000000000 * (1 - roundoff) ≤ whole + d := by
      rw [hsplit]
      linarith
    rcases Nat.eq_zero_or_pos nanos with rfl | hpos
    · have hnonneg : 0 ≤ whole + d := by simpa using hsum
      rw [hs]
      simpa using nearest_nonneg hnonneg
    · have hlow : (2 : Rat) ^ (-1022 : Int) ≤ whole + d := by
        refine le_trans ?_ hsum
        calc (2 : Rat) ^ (-1022 : Int) ≤ 2 ^ (-31 : Int) :=
              zpow_le_zpow_right₀ (by norm_num) (by decide)
          _ ≤ 1 / 1000000000 * (1 - roundoff) := by norm_num [roundoff]
          _ ≤ (nanos : Rat) / 1000000000 * (1 - roundoff) := by
            refine mul_le_mul_of_nonneg_right ?_ hunit.le
            refine div_le_div_of_nonneg_right ?_ (by norm_num)
            exact_mod_cast hpos
      have hnear := (nearest_near hlow).1
      rw [hs]
      calc (nanos : Rat) / 1000000000 * (1 - roundoff) ^ 2
          = (nanos : Rat) / 1000000000 * (1 - roundoff) * (1 - roundoff) := by ring
        _ ≤ (whole + d) * (1 - roundoff) := mul_le_mul_of_nonneg_right hsum hunit.le
        _ ≤ nearest (whole + d) := hnear

/-- What a quotient cut off tells of bytes over so many seconds. -/
theorem toU64_div_le {bytes : Nat} {s : Rat} (hs : 0 < s) :
    (((Double.finite (nearest bytes)).div (.finite s)).toU64 : Rat) * s ≤
      bytes * (1 + roundoff) ^ 2 := by
  have hbytes := (nearest_natural bytes).2
  have hquotient : 0 ≤ nearest (bytes : Rat) / s :=
    div_nonneg (nearest_nonneg (Nat.cast_nonneg bytes)) hs.le
  rw [Double.div_finite _ hs.ne']
  have hrate := toU64_le hquotient
  by_cases htiny : nearest (bytes : Rat) / s < 2 ^ (-1022 : Int)
  · have hzero : (ofRat (nearest (bytes : Rat) / s)).toU64 = 0 := by
      have hless := hrate.trans_lt (nearest_tiny hquotient htiny)
      norm_cast at hless
      omega
    rw [hzero, Nat.cast_zero, zero_mul]
    positivity
  · have hnear := hrate.trans (nearest_near (not_lt.mp htiny)).2
    calc ((ofRat (nearest (bytes : Rat) / s)).toU64 : Rat) * s
        ≤ nearest (bytes : Rat) / s * (1 + roundoff) * s :=
          mul_le_mul_of_nonneg_right hnear hs.le
      _ = nearest (bytes : Rat) * (1 + roundoff) := by field_simp
      _ ≤ bytes * (1 + roundoff) * (1 + roundoff) :=
          mul_le_mul_of_nonneg_right hbytes (by norm_num [roundoff])
      _ = bytes * (1 + roundoff) ^ 2 := by ring

/-- A counter converts to the nearest double. -/
theorem ofRat_u64 {n : Nat} (h : n ≤ u64Max) : ofRat n = .finite (nearest n) := by
  rcases Nat.eq_zero_or_pos n with rfl | hpos
  · decide +kernel
  · refine ofRat_normal ((zpow_le_one_of_nonpos₀ (by norm_num) (by decide)).trans ?_) ?_
    · exact_mod_cast hpos
    · calc (n : Rat) ≤ (u64Max : Nat) := by exact_mod_cast h
        _ ≤ 2 ^ (64 : Int) := by norm_num [u64Max]
        _ ≤ 2 ^ (1023 : Int) := zpow_le_zpow_right₀ (by norm_num) (by decide)

/-- How much a rate may be off: one part in 2 to the 50th. -/
def slack : Rat := 1 + 1 / 1125899906842624

/-- A rate over its time is no more than the bytes, but for rounding. -/
theorem perSecond_le {bytes nanos : Nat} (hbytes : bytes ≤ u64Max) :
    ((perSecond bytes nanos * nanos : Nat) : Rat) ≤ bytes * 1000000000 * slack := by
  have hslack : 0 < slack := by norm_num [slack]
  have hnone : ((0 : Nat) : Rat) * nanos ≤ bytes * 1000000000 * slack := by
    rw [Nat.cast_zero, zero_mul]
    positivity
  rw [Nat.cast_mul]
  unfold perSecond
  rw [ofRat_u64 hbytes]
  split
  · exact hnone
  · rename_i hpositive
    cases hsecs : asSecs nanos with
    | nan => exact hnone
    | infinite negative => exact hnone
    | finite s =>
      rw [hsecs] at hpositive
      have hs : 0 < s := by simpa [notPositive] using hpositive
      have hlong := asSecs_long hsecs
      have htime := @toU64_div_le bytes s hs
      generalize ((Double.finite (nearest (bytes : Rat))).div (.finite s)).toU64 = rate at htime ⊢
      have hunits : (1 + roundoff) ^ 2 ≤ slack * (1 - roundoff) ^ 2 := by
        norm_num [roundoff, slack]
      have hpositive : (0 : Rat) < (1 - roundoff) ^ 2 := by norm_num [roundoff]
      refine le_of_mul_le_mul_right ?_ hpositive
      calc (rate : Rat) * nanos * (1 - roundoff) ^ 2
          = rate * (nanos / 1000000000 * (1 - roundoff) ^ 2) * 1000000000 := by ring
        _ ≤ rate * s * 1000000000 := by
          refine mul_le_mul_of_nonneg_right ?_ (by norm_num)
          exact mul_le_mul_of_nonneg_left hlong (Nat.cast_nonneg rate)
        _ ≤ bytes * (1 + roundoff) ^ 2 * 1000000000 :=
          mul_le_mul_of_nonneg_right htime (by norm_num)
        _ ≤ bytes * (slack * (1 - roundoff) ^ 2) * 1000000000 := by
          refine mul_le_mul_of_nonneg_right ?_ (by norm_num)
          exact mul_le_mul_of_nonneg_left hunits (Nat.cast_nonneg bytes)
        _ = bytes * 1000000000 * slack * (1 - roundoff) ^ 2 := by ring

/-- What climbs are added up to has 64 bits. -/
theorem climbed_u64 (dir : Direction) (prevNet : List (String × (Nat × Nat)))
    (rows : List NetDevRow) : dir.of (climbed prevNet rows) ≤ u64Max := by
  have hgeneral : ∀ (list : List (Nat × Nat)) (t : Nat × Nat), dir.of t ≤ u64Max →
      dir.of (list.foldl (fun sum climb =>
        (capAdd u64Max sum.1 climb.1, capAdd u64Max sum.2 climb.2)) t) ≤ u64Max := by
    intro list
    induction list with
    | nil => exact fun t ht => ht
    | cons a rest ih =>
      intro t _
      refine ih _ ?_
      cases dir
      · exact capAdd_le _ _ _
      · exact capAdd_le _ _ _
  refine hgeneral _ _ ?_
  cases dir <;> exact Nat.zero_le _

/-- The live rate of one sample over its time is no more than the bytes it is taken of. -/
theorem rate_le (parse32 parse64 : FloatParser) (c : Collector) (r : Machine) (dir : Direction) :
    ((dir.of ((c.collect parse32 parse64 r).1.netRx, (c.collect parse32 parse64 r).1.netTx) *
        (r.instant - c.prevNetAt.getD r.instant) : Nat) : Rat) ≤
      dir.of (climbed c.prevNet r.network.rows) * 1000000000 * slack := by
  have hrate : ((c.collect parse32 parse64 r).1.netRx, (c.collect parse32 parse64 r).1.netTx) =
      (c.netRate r.network.rows r.instant).1 := rfl
  rw [hrate]
  unfold Collector.netRate
  cases c.prevNetAt with
  | none =>
    have hslack : 0 < slack := by norm_num [slack]
    dsimp only
    rw [Option.getD_none, Nat.sub_self, mul_zero, Nat.cast_zero]
    positivity
  | some t =>
    have hbytes := climbed_u64 dir c.prevNet r.network.rows
    cases dir
    · exact perSecond_le hbytes
    · exact perSecond_le hbytes

/-! ## A whole run -/

/-- Fewer interfaces climb less. -/
theorem between_le (m₀ m : CountedTraffic.Machine) (dir : Direction) {small names : Finset String} (hsub : small ⊆ names) :
    between dir small m₀ m ≤ between dir names m₀ m :=
  Finset.sum_le_sum_of_subset hsub

/-- What climbs over two steps climbs in one and in the other. -/
theorem between_add {a b c : CountedTraffic.Machine} (hab : Later a b) (hbc : Later b c)
    (dir : Direction) (names : Finset String) :
    between dir names a b + between dir names b c = between dir names a c := by
  unfold between
  rw [← Finset.sum_add_distrib]
  refine Finset.sum_congr rfl fun name _ => ?_
  have h := hab.passed name dir
  have h' := hbc.passed name dir
  omega

/-- What passes between samples passes during the run. -/
theorem through_le (dir : Direction) {names : Finset String} {steps : List Step}
    {m₀ m : CountedTraffic.Machine} (hlater : Later m₀ m) (counted : Finset String)
    (hnames : Counts names steps) :
    through dir m₀ counted m steps ≤ between dir names m₀ (machineAfter m steps) := by
  induction steps generalizing m₀ m counted with
  | nil => exact Nat.zero_le _
  | cons step rest ih =>
    have hrest : Counts names rest := fun r hr => hnames r (List.mem_cons_of_mem _ hr)
    cases step with
    | happen e => exact ih (hlater.trans (later_after m e)) counted hrest
    | collect r =>
      have hone := @between_le m₀ m dir (counted ∩ r.network.names.toFinset) names
        (Finset.inter_subset_right.trans (hnames r List.mem_cons_self))
      have hlater' := ih (Later.refl m) r.network.names.toFinset hrest
      have hsplit := between_add hlater (later_machineAfter m rest) dir names
      simp only [through, machineAfter]
      omega

/-- What is measured never exceeds what went through. -/
theorem measured_le (parse32 parse64 : FloatParser) {m₀ m : CountedTraffic.Machine}
    {names : Finset String} {steps : List Step} (hlater : Later m₀ m) {c : Collector}
    (hkept : Kept m₀ names c) (h : Plausible m steps) (dir : Direction) :
    ((measured parse32 parse64 c steps).map dir.of).sum ≤ through dir m₀ names m steps := by
  induction steps generalizing m₀ m names c with
  | nil => exact le_rfl
  | cons step rest ih =>
    cases step with
    | happen e => exact ih (hlater.trans (later_after m e)) hkept h
    | collect r =>
      have hone := climbed_le_between hlater hkept h.1 dir
      have hrest := ih (Later.refl m) (kept_collect parse32 parse64 c h.1) h.2
      simp only [measured, through, List.map_cons, List.sum_cons]
      omega

/-- Nor do the rates shown, but for the rounding. -/
theorem shown_le (parse32 parse64 : FloatParser) (c : Collector) (steps : List Step)
    (dir : Direction) :
    (told dir (shown parse32 parse64 c steps) : Rat) ≤
      ((measured parse32 parse64 c steps).map dir.of).sum * 1000000000 * slack := by
  induction steps generalizing c with
  | nil => simp [told, shown, measured]
  | cons step rest ih =>
    cases step with
    | happen e => exact ih c
    | collect r =>
      have hone := rate_le parse32 parse64 c r dir
      have hrest := ih (c.collect parse32 parse64 r).2
      unfold told at hrest ⊢
      simp only [shown, measured, List.map_cons, List.sum_cons]
      rw [Nat.cast_add, Nat.cast_add]
      linarith

/-- Over any run of a machine and the samples taken of it, the live rates, each over the
time since the sample before, add up to no more than what passed between consecutive
samples through the interfaces both count, but for one part in 2 to the 50th. -/
theorem rates_never_overstate (parse32 parse64 : FloatParser) (m : CountedTraffic.Machine)
    (steps : List Step) (h : Plausible m steps) (names : Finset String)
    (hnames : Counts names steps) (dir : Direction) :
    (told dir (shown parse32 parse64 Collector.new steps) : Rat) ≤
        through dir m ∅ m steps * 1000000000 * slack ∧
      through dir m ∅ m steps ≤ between dir names m (machineAfter m steps) := by
  have hkept : Kept m ∅ Collector.new := by
    refine ⟨?_, rfl⟩
    intro name p hp
    cases hp
  have hslack : 0 < slack := by norm_num [slack]
  have hmeasured := measured_le parse32 parse64 (Later.refl m) hkept h dir
  refine ⟨(shown_le parse32 parse64 Collector.new steps dir).trans ?_,
    through_le dir (Later.refl m) ∅ hnames⟩
  refine mul_le_mul_of_nonneg_right (mul_le_mul_of_nonneg_right ?_ (by norm_num)) hslack.le
  exact_mod_cast hmeasured

/-- A collection that reads these counters and nothing else. -/
def reading (dev : String) (instant : Nat) : Machine where
  meminfo := ""
  swap := ⟨none, none, fun _ => none⟩
  mounts := ""
  statvfs _ := none
  network := ⟨⟨[], []⟩, fun _ => ⟨"", "", [], false, false⟩, dev, "boot"⟩
  instant := instant
  sockstat := ""
  sockstat6 := ""
  uptime := none
  stat := none
  loadavg := ""
  procs := []

/-- An interface passes thirty bytes between two samples; another one that was
not listed before has long counted more. -/
def joining : List Step :=
  [.happen (.appear "eth0" true), .happen (.appear "eth1" true),
    .happen (.traffic "eth0" (100, 50)), .happen (.traffic "eth1" (9000, 9000)),
    .happen (.disappear "eth1"), .collect (reading "-\n-\neth0: 100 0 0 0 0 0 0 0 50\n" 0),
    .happen (.traffic "eth0" (30, 5)), .happen (.appear "eth1" false),
    .collect (reading
      "-\n-\neth0: 130 0 0 0 0 0 0 0 55\neth1: 9000 0 0 0 0 0 0 0 9000\n" 1000000000)]

/-- The rate is thirty bytes a second. -/
theorem rates_never_overstate_joining :
    shown (fun _ => none) (fun _ => none) Collector.new joining =
      [((0, 0), 0), ((30, 5), 1000000000)] ∧
    (told .rx (shown (fun _ => none) (fun _ => none) Collector.new joining) : Rat) ≤
      through .rx ⟨∅, fun _ => 0, fun _ => 0⟩ ∅ ⟨∅, fun _ => 0, fun _ => 0⟩ joining *
        1000000000 * slack := by
  have hfirst : netDev "-\n-\neth0: 100 0 0 0 0 0 0 0 50\n" = [⟨"eth0", 100, 50⟩] := by decide
  have hsecond : netDev "-\n-\neth0: 130 0 0 0 0 0 0 0 55\neth1: 9000 0 0 0 0 0 0 0 9000\n" =
      [⟨"eth0", 130, 55⟩, ⟨"eth1", 9000, 9000⟩] := by decide
  have hplausible : Plausible ⟨∅, fun _ => 0, fun _ => 0⟩ joining := by
    refine ⟨⟨?_, ?_⟩, ⟨?_, ?_⟩, trivial⟩
    · intro row hrow
      rw [reading, hfirst, List.mem_singleton] at hrow
      rw [hrow]
      decide
    · rw [reading, hfirst]
      decide
    · intro row hrow
      rw [reading, hsecond, List.mem_cons, List.mem_singleton] at hrow
      rcases hrow with rfl | rfl
      · decide
      · decide
    · rw [reading, hsecond]
      decide
  refine ⟨by decide +kernel, ?_⟩
  refine (rates_never_overstate _ _ _ joining hplausible {"eth0", "eth1"} ?_ .rx).1
  intro r hr
  simp only [joining, List.mem_cons, List.not_mem_nil, or_false, reduceCtorEq, false_or] at hr
  rcases hr with hr | hr
  · cases hr
    decide
  · cases hr
    decide

end Romi.LiveRates
