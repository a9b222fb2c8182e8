import Romi.AgentCounters
import Romi.TrafficConservation

/-!
# Booked traffic against real traffic

A machine's interfaces come, go, restart and reboot; an agent samples them now
and then, some of its reports arrive, and the hub books what it sees climb.
An interface's counter never gains more than passed through it, so neither
does the sum over one set of interfaces, and the epoch lets the hub compare
only sums over one set.
-/

namespace Romi.CountedTraffic

open AgentCounters CivilDate JsonValue KeyedTable StoreJobs StoreSchema TrafficConservation
  TrafficFold

/-! ## The machine -/

/-- A machine's interfaces by name. -/
structure Machine where
  /-- Interfaces the kernel lists. -/
  present : Finset String
  /-- Bytes the kernel counts, received and sent. -/
  counter : String → Nat × Nat
  /-- Bytes that really passed so far. -/
  passed : String → Nat × Nat

/-- What may happen to a machine. -/
inductive Happening
  /-- An interface is listed again or for the first time, possibly with its
  counters back at zero. -/
  | appear (name : String) (restarted : Bool)
  /-- An interface is no longer listed. -/
  | disappear (name : String)
  /-- Bytes pass through a listed interface. -/
  | traffic (name : String) (bytes : Nat × Nat)
  /-- Every interface is gone and every counter starts over. -/
  | reboot

/-- The machine after a happening. -/
def Machine.after (m : Machine) : Happening → Machine
  | .appear name restarted =>
    { m with
      present := insert name m.present
      counter := if restarted then Function.update m.counter name 0 else m.counter }
  | .disappear name => { m with present := m.present.erase name }
  | .traffic name bytes =>
    if name ∈ m.present then
      { m with
        counter := Function.update m.counter name (m.counter name + bytes)
        passed := Function.update m.passed name (m.passed name + bytes) }
    else m
  | .reboot => ⟨∅, fun _ => 0, m.passed⟩

/-- Between two moments no counter gains more than passed through its interface. -/
structure Later (m m' : Machine) : Prop where
  /-- What has passed has passed. -/
  passed : ∀ name dir, Direction.of dir (m.passed name) ≤ Direction.of dir (m'.passed name)
  /-- A counter shows no more than what passed since. -/
  counter : ∀ name dir, Direction.of dir (m'.counter name) + Direction.of dir (m.passed name) ≤
    Direction.of dir (m.counter name) + Direction.of dir (m'.passed name)

/-- A machine is its own later one. -/
theorem Later.refl (m : Machine) : Later m m := ⟨fun _ _ => le_rfl, fun _ _ => le_rfl⟩

/-- And so is a later one of a later one. -/
theorem Later.trans {a b c : Machine} (h : Later a b) (k : Later b c) : Later a c := by
  refine ⟨fun name dir => (h.passed name dir).trans (k.passed name dir), ?_⟩
  intro name dir
  have h' := h.counter name dir
  have k' := k.counter name dir
  omega

/-- No happening lets a counter gain more than passes. -/
theorem later_after (m : Machine) (e : Happening) : Later m (m.after e) := by
  have hzero : ∀ dir : Direction, dir.of (0 : Nat × Nat) = 0 := by
    intro dir
    cases dir <;> rfl
  have hadd : ∀ (dir : Direction) (p q : Nat × Nat), dir.of (p + q) = dir.of p + dir.of q := by
    intro dir p q
    cases dir <;> rfl
  cases e with
  | appear name restarted =>
    refine ⟨fun _ _ => le_rfl, ?_⟩
    intro other dir
    dsimp only [Machine.after]
    cases restarted with
    | false => exact le_rfl
    | true =>
      rw [if_pos rfl]
      by_cases h : other = name
      · rw [h, Function.update_self, hzero]
        omega
      · rw [Function.update_of_ne h]
  | disappear name => exact ⟨fun _ _ => le_rfl, fun _ _ => le_rfl⟩
  | traffic name bytes =>
    by_cases hp : name ∈ m.present
    · rw [Machine.after, if_pos hp]
      constructor <;> intro other dir <;> dsimp only <;> by_cases h : other = name
      · rw [h, Function.update_self, hadd]
        omega
      · rw [Function.update_of_ne h]
      · rw [h, Function.update_self, Function.update_self, hadd, hadd]
        omega
      · rw [Function.update_of_ne h, Function.update_of_ne h]
    · rw [Machine.after, if_neg hp]
      exact Later.refl m
  | reboot =>
    refine ⟨fun _ _ => le_rfl, ?_⟩
    intro name dir
    dsimp only [Machine.after]
    rw [hzero]
    omega

/-! ## Samples and arrivals -/

/-- Every row that parses tells a listed interface's counters, and no name has
two rows. Rows may be missing or unreadable. -/
structure Truthful (m : Machine) (s : Sample) : Prop where
  /-- Every row tells of an interface that is there. -/
  rows : ∀ row ∈ netDev s.dev, row.name ≠ "" ∧ row.name ∈ m.present ∧
    m.counter row.name = (row.rx, row.tx)
  /-- None is told of twice. -/
  nodup : ((netDev s.dev).map NetDevRow.name).Nodup

/-- One step of a run: the machine changes, or an agent samples it and the
report arrives or is lost. -/
inductive Step
  /-- Something happens to the machine. -/
  | happen (e : Happening)
  /-- It is sampled, and the report arrives or is lost. -/
  | report (s : Sample) (clock : Clock) (arrives : Bool)

/-- Samples tell the truth about the machine they were taken of. -/
def Plausible : Machine → List Step → Prop
  | _, [] => True
  | m, .happen e :: rest => Plausible (m.after e) rest
  | m, .report s _ _ :: rest => Truthful m s ∧ Plausible m rest

/-- A report that arrived, with the machine it was taken of. -/
structure Arrival where
  /-- What was sampled. -/
  sample : Sample
  /-- The hub's date then. -/
  clock : Clock
  /-- The machine then. -/
  machine : Machine

/-- The reports of a run that arrive. -/
def arrivals : Machine → List Step → List Arrival
  | _, [] => []
  | m, .happen e :: rest => arrivals (m.after e) rest
  | m, .report s clock true :: rest => ⟨s, clock, m⟩ :: arrivals m rest
  | m, .report _ _ false :: rest => arrivals m rest

/-- The machine at the end of a run. -/
def machineAfter (m : Machine) : List Step → Machine
  | [] => m
  | .happen e :: rest => machineAfter (m.after e) rest
  | .report _ _ _ :: rest => machineAfter m rest

/-- The report the hub folds in. -/
def Arrival.report (a : Arrival) : Report := reportOf (collect a.sample).toJson a.clock

/-- The interfaces an arrival sums. -/
def Arrival.names (a : Arrival) : Finset String := a.sample.names.toFinset

/-- Whether an arrival brings counters the hub can read. -/
def Arrival.Read (a : Arrival) : Prop := a.report.counters.isSome = true

instance (a : Arrival) : Decidable a.Read := inferInstanceAs (Decidable (_ = _))

/-- The machine after some steps is a later one. -/
theorem later_machineAfter (m : Machine) (steps : List Step) : Later m (machineAfter m steps) := by
  induction steps generalizing m with
  | nil => exact Later.refl m
  | cons step rest ih =>
    cases step with
    | happen e => exact (later_after m e).trans (ih _)
    | report s clock arrives => exact ih m

/-- Arrivals are truthful and lie in time between the run's ends. -/
theorem arrival_spec {m : Machine} {steps : List Step} (h : Plausible m steps) :
    ∀ a ∈ arrivals m steps, Truthful a.machine a.sample ∧ Later m a.machine ∧
      Later a.machine (machineAfter m steps) := by
  induction steps generalizing m with
  | nil => exact fun a ha => by cases ha
  | cons step rest ih =>
    cases step with
    | happen e =>
      intro a ha
      obtain ⟨htrue, hfrom, hto⟩ := ih h a ha
      exact ⟨htrue, (later_after m e).trans hfrom, hto⟩
    | report s clock arrives =>
      obtain ⟨htrue, hrest⟩ := h
      cases arrives with
      | false => exact ih hrest
      | true =>
        intro a ha
        rcases List.mem_cons.mp ha with rfl | ha
        · exact ⟨htrue, Later.refl m, later_machineAfter m rest⟩
        · exact ih hrest a ha

/-- Arrivals follow one another. -/
theorem arrivals_pairwise {m : Machine} {steps : List Step} (h : Plausible m steps) :
    (arrivals m steps).Pairwise fun a b => Later a.machine b.machine := by
  induction steps generalizing m with
  | nil => exact List.Pairwise.nil
  | cons step rest ih =>
    cases step with
    | happen e => exact ih h
    | report s clock arrives =>
      cases arrives with
      | false => exact ih h.2
      | true =>
        refine List.pairwise_cons.mpr ⟨?_, ih h.2⟩
        intro b hb
        exact (arrival_spec h.2 b hb).2.1

/-! ## Bytes that passed -/

/-- Bytes that passed between two arrivals through the interfaces both sum. -/
def between (dir : Direction) (a b : Arrival) : Nat :=
  ∑ name ∈ a.names ∩ b.names, (dir.of (b.machine.passed name) - dir.of (a.machine.passed name))

/-- Bytes that passed between consecutive arrivals, from one arrival on. -/
def throughFrom (dir : Direction) : Arrival → List Arrival → Nat
  | _, [] => 0
  | a, b :: rest => between dir a b + throughFrom dir b rest

/-- Bytes that passed between consecutive arrivals. -/
def through (dir : Direction) : List Arrival → Nat
  | [] => 0
  | a :: rest => throughFrom dir a rest

/-- The digest tells the joined names of some arrivals apart. -/
def NoCollision (list : List Arrival) : Prop :=
  ∀ a ∈ list, ∀ b ∈ list, digest (joined a.sample.names) = digest (joined b.sample.names) →
    joined a.sample.names = joined b.sample.names

/-! ## The bound -/

/-- The epoch that is reported. -/
theorem Arrival.report_bootId (a : Arrival) :
    a.report.bootId = epoch (String.ofList (trim a.sample.boot.toList)) a.sample.names :=
  reportOf_bootId a.sample a.clock

/-- The names of interfaces have no odd characters. -/
theorem nameable_of_truthful {a : Arrival} (h : Truthful a.machine a.sample) :
    ∀ name ∈ a.sample.names, Nameable name := by
  intro name hname
  obtain ⟨row, hrow, rfl⟩ := List.mem_map.mp hname
  have hmem : row ∈ netDev a.sample.dev := List.mem_of_mem_filter hrow
  exact ⟨(h.rows row hmem).1, newline_not_mem_name hmem⟩

/-- Under one epoch two arrivals sum the same interfaces. -/
theorem names_eq_of_epoch {list : List Arrival} (hno : NoCollision list) {a b : Arrival}
    (ha : a ∈ list) (hb : b ∈ list) (hta : Truthful a.machine a.sample)
    (htb : Truthful b.machine b.sample) (h : a.report.bootId = b.report.bootId) :
    a.names = b.names := by
  rw [a.report_bootId, b.report_bootId] at h
  have hjoined := hno a ha b hb (digest_of_epoch h)
  exact List.toFinset_eq_of_perm _ _
    (perm_of_joined (nameable_of_truthful hta) (nameable_of_truthful htb) hjoined)

/-- A reading is the sum of the counters of its interfaces. -/
theorem reading_eq {a : Arrival} (h : Truthful a.machine a.sample) {dir : Direction} {c : Int}
    (hc : (a.report.lane dir).counter = some c) :
    c = (∑ name ∈ a.names, dir.of (a.machine.counter name) : Nat) ∧ Counted c := by
  obtain ⟨hsum, hcount⟩ := reportOf_counter hc
  refine ⟨?_, hcount⟩
  have hsub : a.sample.rows.Sublist (netDev a.sample.dev) := List.filter_sublist
  have hnodup : a.sample.names.Nodup := h.nodup.sublist (hsub.map _)
  have hrows : ∀ row ∈ a.sample.rows, dir.of (row.rx, row.tx) =
      dir.of (a.machine.counter row.name) := by
    intro row hrow
    rw [(h.rows row (hsub.subset hrow)).2.2]
  rw [hsum, Arrival.names, List.sum_toFinset _ hnodup, Sample.names, List.map_map, sumOf,
    List.map_congr_left hrows]
  rfl

/-- Interface by interface a counter gains no more than passed. -/
theorem gained_le {a b : Arrival} (hlater : Later a.machine b.machine) (dir : Direction)
    (names : Finset String) :
    ∑ name ∈ names, dir.of (b.machine.counter name) ≤
      ∑ name ∈ names, dir.of (a.machine.counter name) +
        ∑ name ∈ names, (dir.of (b.machine.passed name) - dir.of (a.machine.passed name)) := by
  rw [← Finset.sum_add_distrib]
  refine Finset.sum_le_sum ?_
  intro name _
  have hcounter := hlater.counter name dir
  have hpassed := hlater.passed name dir
  omega

/-- Between two arrivals of one epoch the sum gains at most what passed. -/
theorem climb_le_between {list : List Arrival} (hno : NoCollision list) {a b : Arrival}
    (ha : a ∈ list) (hb : b ∈ list) (hta : Truthful a.machine a.sample)
    (htb : Truthful b.machine b.sample) (hlater : Later a.machine b.machine) {dir : Direction}
    {c d : Int} (hc : (a.report.lane dir).counter = some c)
    (hd : (b.report.lane dir).counter = some d) :
    climb (a.report.bootId, c) (b.report.bootId, d) ≤ between dir a b := by
  unfold climb
  split
  · rename_i hboot
    dsimp only at hboot
    have hnames := names_eq_of_epoch hno ha hb hta htb hboot.2
    have hsum := gained_le hlater dir b.names
    rw [(reading_eq hta hc).1, (reading_eq htb hd).1, between, hnames, Finset.inter_self]
    dsimp only
    omega
  · exact Int.natCast_nonneg _

/-- Arrivals as the fold of one direction sees them. -/
def laneReports (dir : Direction) (resetDay : Int) (list : List Arrival) :
    List (Int × LaneReport) :=
  list.map fun a => (resetDay, a.report.lane dir)

/-- One more arrival. -/
theorem laneReports_cons (dir : Direction) (resetDay : Int) (a : Arrival) (rest : List Arrival) :
    laneReports dir resetDay (a :: rest) =
      (resetDay, a.report.lane dir) :: laneReports dir resetDay rest := rfl

/-- Both directions are of one epoch. -/
theorem lane_bootId (dir : Direction) (r : Report) : (r.lane dir).bootId = r.bootId := rfl

/-- An arrival that is not read has a reading in neither direction. -/
theorem lane_counter_none {a : Arrival} (dir : Direction) (h : ¬ a.Read) :
    (a.report.lane dir).counter = none := by
  have hnone : a.report.counters = none := Option.not_isSome_iff_eq_none.mp h
  rw [Report.lane, hnone, Option.map_none]

/-- Where the interfaces could be read there is a counter. -/
theorem lane_counter_some {a : Arrival} (dir : Direction) (h : a.Read) :
    ∃ c, (a.report.lane dir).counter = some c := by
  obtain ⟨p, hp⟩ := Option.isSome_iff_exists.mp h
  exact ⟨dir.of p, by rw [Report.lane, hp, Option.map_some]⟩

/-- What is booked after a reading is at most what passed since. -/
theorem booked_le_throughFrom {list : List Arrival} (hno : NoCollision list)
    (htrue : ∀ a ∈ list, Truthful a.machine a.sample) (dir : Direction) (resetDay : Int)
    {rest : List Arrival} (hsub : rest ⊆ list)
    (hpair : rest.Pairwise fun a b => Later a.machine b.machine) {a : Arrival} (ha : a ∈ list)
    (hlater : ∀ b ∈ rest, Later a.machine b.machine) {c : Int}
    (hc : (a.report.lane dir).counter = some c) :
    booked (bookings (a.report.bootId, c) (laneReports dir resetDay rest)) ≤
      throughFrom dir a (rest.filter fun b => b.Read) := by
  induction rest generalizing a c with
  | nil => exact le_rfl
  | cons b rest ih =>
    obtain ⟨hb, hrest⟩ := List.cons_subset.mp hsub
    obtain ⟨hnext, hpair⟩ := List.pairwise_cons.mp hpair
    have hafter : ∀ x ∈ rest, Later a.machine x.machine :=
      fun x hx => hlater x (List.mem_cons_of_mem b hx)
    have hab := hlater b List.mem_cons_self
    by_cases hread : b.Read
    · obtain ⟨d, hd⟩ := lane_counter_some dir hread
      have hbooked : booked (bookings (a.report.bootId, c) (laneReports dir resetDay (b :: rest))) =
          climb (a.report.bootId, c) (b.report.bootId, d) +
            booked (bookings (b.report.bootId, d) (laneReports dir resetDay rest)) := by
        rw [laneReports_cons, booked_reading _ hd, lane_bootId]
      have hclimb := climb_le_between hno ha hb (htrue a ha) (htrue b hb) hab hc hd
      have htail := ih hrest hpair hb hnext hd
      rw [hbooked, List.filter_cons_of_pos (by simpa using hread), throughFrom, Nat.cast_add]
      omega
    · have hskip : bookings (a.report.bootId, c) (laneReports dir resetDay (b :: rest)) =
          bookings (a.report.bootId, c) (laneReports dir resetDay rest) := by
        rw [laneReports_cons, bookings_unread _ (lane_counter_none dir hread)]
      rw [hskip, List.filter_cons_of_neg (by simpa using hread)]
      exact ih hrest hpair ha hafter hc

/-- From a row without a baseline the first reading books nothing. -/
theorem booked_le_through {list : List Arrival} (hno : NoCollision list)
    (htrue : ∀ a ∈ list, Truthful a.machine a.sample) (dir : Direction) (resetDay : Int)
    (hpair : list.Pairwise fun a b => Later a.machine b.machine) (last : Int)
    {rest : List Arrival} (hsuffix : rest <:+ list) :
    booked (bookings ("", last) (laneReports dir resetDay rest)) ≤
      through dir (rest.filter fun a => a.Read) := by
  induction rest with
  | nil => exact le_rfl
  | cons a rest ih =>
    have hmem := hsuffix.subset
    obtain ⟨ha, hrest⟩ := List.cons_subset.mp hmem
    obtain ⟨hlater, hpairRest⟩ := List.pairwise_cons.mp (hpair.sublist hsuffix.sublist)
    by_cases hread : a.Read
    · obtain ⟨c, hc⟩ := lane_counter_some dir hread
      have hbooked : booked (bookings ("", last) (laneReports dir resetDay (a :: rest))) =
          booked (bookings (a.report.bootId, c) (laneReports dir resetDay rest)) := by
        rw [laneReports_cons, booked_reading _ hc, climb, if_neg (fun h => h.1 rfl), zero_add,
          lane_bootId]
      rw [hbooked, List.filter_cons_of_pos (by simpa using hread)]
      exact booked_le_throughFrom hno htrue dir resetDay hrest hpairRest ha hlater hc
    · have hskip : bookings ("", last) (laneReports dir resetDay (a :: rest)) =
          bookings ("", last) (laneReports dir resetDay rest) := by
        rw [laneReports_cons, bookings_unread _ (lane_counter_none dir hread)]
      rw [hskip, List.filter_cons_of_neg (by simpa using hread)]
      exact ih ((List.suffix_cons a rest).trans hsuffix)

/-- What passed between arrivals is part of what passed through the
interfaces they sum from one machine to another. -/
theorem throughFrom_le (dir : Direction) (names : Finset String) {m' : Machine} {a : Arrival}
    {list : List Arrival} (hnames : ∀ b ∈ list, b.names ⊆ names)
    (hpair : (a :: list).Pairwise fun a b => Later a.machine b.machine)
    (hend : ∀ b ∈ a :: list, Later b.machine m') :
    throughFrom dir a list ≤
      ∑ name ∈ names, (dir.of (m'.passed name) - dir.of (a.machine.passed name)) := by
  induction list generalizing a with
  | nil => exact Nat.zero_le _
  | cons b rest ih =>
    obtain ⟨hlater, hpair⟩ := List.pairwise_cons.mp hpair
    have hab := hlater b List.mem_cons_self
    have hb := hend b (List.mem_cons_of_mem a List.mem_cons_self)
    have htail := ih (fun x hx => hnames x (List.mem_cons_of_mem b hx)) hpair
      fun x hx => hend x (List.mem_cons_of_mem a hx)
    have hhead : between dir a b ≤
        ∑ name ∈ names, (dir.of (b.machine.passed name) - dir.of (a.machine.passed name)) :=
      Finset.sum_le_sum_of_subset
        (Finset.inter_subset_right.trans (hnames b List.mem_cons_self))
    calc throughFrom dir a (b :: rest) ≤
        ∑ name ∈ names, (dir.of (b.machine.passed name) - dir.of (a.machine.passed name)) +
          ∑ name ∈ names, (dir.of (m'.passed name) - dir.of (b.machine.passed name)) :=
        Nat.add_le_add hhead htail
      _ = ∑ name ∈ names, (dir.of (m'.passed name) - dir.of (a.machine.passed name)) := by
        rw [← Finset.sum_add_distrib]
        refine Finset.sum_congr rfl ?_
        intro name _
        have h₁ := hab.passed name dir
        have h₂ := hb.passed name dir
        omega

/-- What the hub folds in during a run. -/
def events (list : List Arrival) : List Event := list.map fun a => .report a.report

/-- The reports of one direction. -/
theorem stampedLane_events (dir : Direction) (resetDay : Int) (list : List Arrival) :
    stampedLane dir resetDay (events list) = laneReports dir resetDay list := by
  induction list with
  | nil => rfl
  | cons a rest ih => exact congrArg ((resetDay, a.report.lane dir) :: ·) ih

/-- Every report that arrives can be read. -/
theorem events_readable (list : List Arrival) : Readable (events list) := by
  intro r hr dir c hc
  obtain ⟨e, he, hr⟩ := List.mem_filterMap.mp hr
  obtain ⟨a, -, rfl⟩ := List.mem_map.mp he
  have heq : a.report = r := Option.some.inj hr
  rw [← heq] at hc
  exact (reportOf_counter hc).2

/-- The interfaces any of some arrivals sums. -/
def namesEver (list : List Arrival) : Finset String := (list.flatMap fun a => a.sample.names).toFinset

/-- What an arrival names is among what was ever named. -/
theorem names_subset_namesEver {list : List Arrival} {a : Arrival} (ha : a ∈ list) :
    a.names ⊆ namesEver list := by
  intro name hname
  rw [namesEver, List.mem_toFinset, List.mem_flatMap]
  exact ⟨a, ha, List.mem_toFinset.mp hname⟩

/-- What passed between the arrivals of a run is part of what passed through
the interfaces they sum during the run. -/
theorem through_le {m : Machine} {steps : List Step} (h : Plausible m steps) (dir : Direction) :
    through dir ((arrivals m steps).filter fun a => a.Read) ≤
      ∑ name ∈ namesEver (arrivals m steps),
        (dir.of ((machineAfter m steps).passed name) - dir.of (m.passed name)) := by
  have hspec := arrival_spec h
  have hpair := (arrivals_pairwise h).sublist (List.filter_sublist (p := fun a => a.Read))
  have hmem : ∀ {a}, a ∈ (arrivals m steps).filter (fun a => a.Read) → a ∈ arrivals m steps :=
    fun ha => List.mem_of_mem_filter ha
  generalize (arrivals m steps).filter (fun a => a.Read) = list at hpair hmem
  cases list with
  | nil => exact Nat.zero_le _
  | cons a rest =>
    have hbound := throughFrom_le dir (namesEver (arrivals m steps))
      (fun b hb => names_subset_namesEver (hmem (List.mem_cons_of_mem a hb))) hpair
      fun b hb => (hspec b (hmem hb)).2.2
    refine hbound.trans (Finset.sum_le_sum ?_)
    intro name _
    have hfrom := (hspec a (hmem List.mem_cons_self)).2.1.passed name dir
    omega

/-- Whatever happens to the machine and whichever reports arrive, the hub books
in each direction at most the bytes that passed, between the reports it read,
through the interfaces both of them summed; these are no more than passed
during the run through the interfaces that were summed at all. -/
theorem never_overbooks (nodeId : Int) (db : Store) (row : TrafficRow) (resetDay : Int)
    (hrow : Holds nodeId db row resetDay) (hcount : ∀ dir, (laneOf dir row).Sound)
    (hnew : row.bootId = "") (m : Machine) (steps : List Step) (hsteps : Plausible m steps)
    (hdigest : NoCollision (arrivals m steps)) :
    ∃ final, (after nodeId db (events (arrivals m steps))).traffic.find? nodeId = some final ∧
      ∀ dir,
        (laneOf dir final).total - (laneOf dir row).total ≤
          through dir ((arrivals m steps).filter fun a => a.Read) ∧
        through dir ((arrivals m steps).filter fun a => a.Read) ≤
          ∑ name ∈ namesEver (arrivals m steps),
            (dir.of ((machineAfter m steps).passed name) - dir.of (m.passed name)) := by
  have hread := events_readable (arrivals m steps)
  obtain ⟨final, day', hfinal, hrun⟩ := hrow.after hcount hread
  refine ⟨final, hfinal.traffic, ?_⟩
  intro dir
  refine ⟨?_, through_le hsteps dir⟩
  have hbase : (laneOf dir row).baseline = ("", (laneOf dir row).last) := by
    have hboot : (laneOf dir row).bootId = row.bootId := by cases dir <;> rfl
    rw [Lane.baseline, hboot, hnew]
  have hbooked := booked_le_through hdigest (fun a ha => (arrival_spec hsteps a ha).1) dir resetDay
    (arrivals_pairwise hsteps) (laneOf dir row).last (List.suffix_refl _)
  rw [hrun dir, Lane.run_total (hcount dir) (stampedLane_sound hread dir resetDay),
    stampedLane_events, hbase]
  have hcap := min_le_right i64Max ((laneOf dir row).total +
    booked (bookings ("", (laneOf dir row).last) (laneReports dir resetDay (arrivals m steps))))
  omega

/-- A collection that counts `eth0` alone. -/
def sampleEth0 (dev : String) : Sample :=
  ⟨⟨["eth0"], []⟩, fun _ => ⟨"", "", [], false, false⟩, dev, "boot"⟩

/-- A machine that is read, passes thirty bytes and is read again. -/
def twoSamples : List Step :=
  [.happen (.appear "eth0" true), .happen (.traffic "eth0" (100, 50)),
    .report (sampleEth0 "-\n-\neth0: 100 0 0 0 0 0 0 0 50\n") (june 1 first_day) true,
    .happen (.traffic "eth0" (30, 5)),
    .report (sampleEth0 "-\n-\neth0: 130 0 0 0 0 0 0 0 55\n") (june 1 first_day) true]

/-- The hub books no more than these thirty bytes. -/
theorem never_overbooks_twoSamples : ∃ final,
    (after 1 oneNode (events (arrivals ⟨∅, fun _ => 0, fun _ => 0⟩ twoSamples))).traffic.find? 1 =
      some final ∧ final.totalRx ≤ 30 := by
  have hcount : ∀ dir, (laneOf dir (newTrafficRow 1)).Sound := by
    rintro (_ | _) <;> exact ⟨by decide, by decide, by decide, by decide⟩
  have hplausible : Plausible ⟨∅, fun _ => 0, fun _ => 0⟩ twoSamples := by
    have hfirst : netDev "-\n-\neth0: 100 0 0 0 0 0 0 0 50\n" = [⟨"eth0", 100, 50⟩] := by decide
    have hsecond : netDev "-\n-\neth0: 130 0 0 0 0 0 0 0 55\n" = [⟨"eth0", 130, 55⟩] := by decide
    refine ⟨⟨?_, ?_⟩, ⟨?_, ?_⟩, trivial⟩
    · intro row hrow
      rw [sampleEth0, hfirst, List.mem_singleton] at hrow
      rw [hrow]
      decide
    · rw [sampleEth0, hfirst]
      decide
    · intro row hrow
      rw [sampleEth0, hsecond, List.mem_singleton] at hrow
      rw [hrow]
      decide
    · rw [sampleEth0, hsecond]
      decide
  have hnames : ∀ a ∈ arrivals ⟨∅, fun _ => 0, fun _ => 0⟩ twoSamples,
      a.sample.names = ["eth0"] := by
    intro a ha
    rcases List.mem_cons.mp ha with rfl | ha
    · decide
    · rw [List.mem_singleton.mp ha]
      decide
  have hdigest : NoCollision (arrivals ⟨∅, fun _ => 0, fun _ => 0⟩ twoSamples) := by
    intro a ha b hb _
    rw [hnames a ha, hnames b hb]
  obtain ⟨final, hfinal, hbound⟩ := never_overbooks 1 oneNode (newTrafficRow 1) 1 oneNode_holds
    hcount rfl ⟨∅, fun _ => 0, fun _ => 0⟩ twoSamples hplausible hdigest
  refine ⟨final, hfinal, ?_⟩
  have hthrough : through .rx ((arrivals ⟨∅, fun _ => 0, fun _ => 0⟩ twoSamples).filter
      fun a => a.Read) = 30 := by decide
  have hle := (hbound .rx).1
  rw [hthrough] at hle
  have hzero : (laneOf .rx (newTrafficRow 1)).total = 0 := rfl
  have hrow : (laneOf .rx final).total = final.totalRx := rfl
  omega

end Romi.CountedTraffic
