import Romi.MachineReadings
import Romi.ReportGuarantees

/-!
# A report on its way to the page

The agent builds it, the hub checks it and puts its totals in, and the page
drops the figures of a node when one of them is missing or no number. The three
lists of fields are kept in three programs.
-/

namespace Romi.ReportPath

open DoublePrecision JsonObjects JsonValue LiveReports MachineReadings NodeFrames ReportGuarantees
  StoreOperations StoreSchema TrafficFold

/-- `check_contract`: what a report leaves out. -/
def missing (m : Members) : List String :=
  reportFields.filter fun k => !optional.contains k && (m.get k).isNone

/-! ## The page -/

/-- `fields` of `safeNodes`. -/
def safeFields : List String :=
  ["uptime", "cpu", "mem_total", "mem_used", "swap_total", "swap_used", "disk_total", "disk_used",
    "net_rx", "net_tx", "total_rx", "total_tx", "month_rx", "month_tx", "tcp", "udp", "procs"]

/-- The browser takes the value for true. -/
def truthy : Json → Bool
  | .null => false
  | .bool b => b
  | .int i => i != 0
  | .float q => q != 0
  | .str s => s != ""
  | .arr _ | .obj _ => true

/-- Every figure is there and a number. -/
def safeMetrics (m : Json) : Bool :=
  safeFields.all (fun k => (m.get k).any number) && (m.get "load").any threeNumbers

/-- `safeNodes`, for one node. -/
def safeNode (node : Json) : Json :=
  match node.get "metrics" with
  | none => node
  | some m => if !truthy m || safeMetrics m then node else setMember node "metrics" .null

/-! ## A row of the frame -/

/-- The report as an audience sees it. -/
def reportFor (full : Bool) (m : Members) : Json := if full then m.toJson else retainPublic m.toJson

/-- An object with its members in order. -/
def IsObject (v : Json) : Prop := ∃ members, v = .obj members ∧ Ascending members

/-- Collected fields make an object. -/
theorem isObject_collect (fields : List (String × Json)) : IsObject (collect fields) :=
  ⟨_, rfl, (lookup_collect fields "").2⟩

/-- An object stays one when a member is set. -/
theorem IsObject.set {v : Json} (h : IsObject v) (key : String) (member : Json) :
    IsObject (setMember v key member) := by
  obtain ⟨members, rfl, hasc⟩ := h
  exact ⟨_, rfl, hasc.insertMember key member⟩

/-- Setting a member changes that one only. -/
theorem IsObject.get_set {v : Json} (h : IsObject v) (key k : String) (member : Json) :
    (setMember v key member).get k = if k = key then some member else v.get k := by
  obtain ⟨members, rfl, hasc⟩ := h
  exact get_setMember hasc key k member

/-- Setting other members leaves one alone. -/
theorem get_foldl_set {k : String} (fields : List (String × Json)) {v : Json} (h : IsObject v)
    (hne : ∀ f ∈ fields, k ≠ f.1) :
    IsObject (fields.foldl (fun v f => setMember v f.1 f.2) v) ∧
      (fields.foldl (fun v f => setMember v f.1 f.2) v).get k = v.get k := by
  induction fields generalizing v with
  | nil => exact ⟨h, rfl⟩
  | cons f rest ih =>
    obtain ⟨hobject, hget⟩ := ih (h.set f.1 f.2) fun f' hf' => hne f' (List.mem_cons_of_mem f hf')
    refine ⟨hobject, ?_⟩
    rw [List.foldl_cons, hget, h.get_set, if_neg (hne f List.mem_cons_self)]

/-- The full view is the shared one with the private members set. -/
theorem nodeView_full (node : NodeRow) (current : Option Published) (traffic : Traffic) :
    nodeView node current traffic true =
      (privateFields node).foldl (fun v f => setMember v f.1 f.2) (sharedView node current traffic) :=
  rfl

/-- A node's view carries its report, for either audience. -/
theorem nodeView_report {n : NodeRow} {current : Option Published} {m : Members}
    (hmetrics : metricsOf current = m.toJson) (traffic : Traffic) (full : Bool) :
    IsObject (nodeView n current traffic full) ∧
      (nodeView n current traffic full).get "metrics" = some (reportFor full m) := by
  cases full with
  | false =>
    rw [nodeView_visitor, hmetrics]
    exact ⟨isObject_collect _, get_collect _ (metrics_not_trailing n current traffic)⟩
  | true =>
    have hne : ∀ f ∈ privateFields n, "metrics" ≠ f.1 := by simp [privateFields]
    have hshared : IsObject (sharedView n current traffic) := isObject_collect _
    rw [nodeView_full]
    obtain ⟨hobject, hget⟩ := get_foldl_set (privateFields n) hshared hne
    refine ⟨hobject, ?_⟩
    rw [hget, sharedView_metrics, hmetrics]
    rfl

/-- So does its row. -/
theorem row_report {faults : FrameFaults} {hub : Hub} {n : NodeRow} {m : Members}
    (hmetrics : metricsOf (hub.agents n.id) = m.toJson) (full : Bool) :
    IsObject (row faults hub full n) ∧
      (row faults hub full n).get "metrics" = some (reportFor full m) := by
  obtain ⟨hobject, hget⟩ := @nodeView_report n _ m hmetrics (trafficOf faults hub n.id) full
  unfold row
  refine ⟨hobject.set _ _, ?_⟩
  rw [hobject.get_set, if_neg (by decide), hget]

/-- A visitor is shown the public fields. -/
theorem reportFor_get {full : Bool} {m : Members} {k : String} (hk : k ∈ publicMetrics) :
    (reportFor full m).get k = m.get k := by
  cases full with
  | true => rfl
  | false =>
    have hlookup := lookup_filter m.list publicMetrics.contains k
    rwa [if_pos (List.contains_iff_mem.mpr hk)] at hlookup

/-- The page keeps a node's figures exactly when they are safe. -/
theorem safeNode_eq {node m : Json} (h : IsObject node) (hget : node.get "metrics" = some m)
    (htrue : truthy m = true) : safeNode node = node ↔ safeMetrics m = true := by
  unfold safeNode
  rw [hget]
  dsimp only
  rw [htrue, Bool.not_true, Bool.false_or]
  split
  · rename_i hsafe
    exact ⟨fun _ => hsafe, fun _ => rfl⟩
  · rename_i hunsafe
    refine ⟨?_, fun hsafe => absurd hsafe hunsafe⟩
    intro hsame
    have hnull := h.get_set "metrics" "metrics" .null
    rw [if_pos rfl, hsame, hget] at hnull
    cases hnull
    cases htrue

/-! ## What the page keeps -/

/-- The figures a page cannot do without. -/
def Complete (m : Members) : Prop := ∀ k ∈ publicMetrics, k ∉ optional → (m.get k).isSome

/-- Proper figures are safe once they are all there. -/
theorem safeMetrics_iff {m : Members} (hproper : ∀ k ∈ publicMetrics, ∀ v, m.get k = some v →
    Proper k v) (full : Bool) : safeMetrics (reportFor full m) = true ↔ Complete m := by
  have hsafe : ∀ k ∈ publicMetrics, k ∉ optional → k ≠ "load" →
      (((reportFor full m).get k).any number = true ↔ (m.get k).isSome) := by
    intro k hk hrequired hload
    rw [reportFor_get hk]
    cases hget : m.get k with
    | none => simp
    | some v =>
      have hv := hproper k hk v hget
      rw [Proper, if_neg hload] at hv
      simp [number_iff.mpr (hv.resolve_right fun h => hrequired h.2)]
  have hload : ((reportFor full m).get "load").any threeNumbers = true ↔ (m.get "load").isSome := by
    rw [reportFor_get (by decide)]
    cases hget : m.get "load" with
    | none => simp
    | some v =>
      have hv := hproper "load" (by decide) v hget
      rw [Proper, if_pos rfl] at hv
      simp [threeNumbers_iff.mpr hv]
  have hfields : ∀ k, k ∈ safeFields ↔ k ∈ publicMetrics ∧ k ∉ optional ∧ k ≠ "load" := by
    intro k
    constructor
    · revert k
      decide
    · rintro ⟨hk, hrequired, hne⟩
      have hall : ∀ k ∈ publicMetrics, k ∉ optional → k ≠ "load" → k ∈ safeFields := by decide
      exact hall k hk hrequired hne
  unfold safeMetrics
  rw [Bool.and_eq_true, List.all_eq_true, hload]
  constructor
  · rintro ⟨hall, hthree⟩ k hk hrequired
    by_cases hne : k = "load"
    · rwa [hne]
    · exact (hsafe k hk hrequired hne).mp (hall k ((hfields k).mpr ⟨hk, hrequired, hne⟩))
  · intro h
    refine ⟨?_, h "load" (by decide) (by decide)⟩
    intro k hk
    obtain ⟨hpublic, hrequired, hne⟩ := (hfields k).mp hk
    exact (hsafe k hpublic hrequired hne).mpr (h k hpublic hrequired)

/-! ## What an agent sends -/

/-- Members inserted one after another are among what was inserted, and all of
its keys are there. -/
theorem get_inserted (fields : List (String × Json)) (start : Members) (k : String) :
    (∀ v, (fields.foldl (fun members f => members.insert f.1 f.2) start).get k = some v →
      (k, v) ∈ fields ∨ start.get k = some v) ∧
    (k ∈ fields.map Prod.fst ∨ (start.get k).isSome →
      ((fields.foldl (fun members f => members.insert f.1 f.2) start).get k).isSome) := by
  induction fields generalizing start with
  | nil =>
    refine ⟨fun v hv => .inr hv, ?_⟩
    rintro (h | h)
    · cases h
    · exact h
  | cons f rest ih =>
    obtain ⟨hmem, hsome⟩ := ih (start.insert f.1 f.2)
    rw [Members.get_insert] at hmem hsome
    constructor
    · intro v hv
      rcases hmem v hv with h | h
      · exact .inl (List.mem_cons_of_mem f h)
      · split at h
        · rename_i hk
          cases h
          exact .inl (hk ▸ List.mem_cons_self)
        · exact .inr h
    · intro h
      refine hsome ?_
      by_cases hk : k = f.1
      · rw [if_pos hk]
        exact .inr rfl
      · rw [if_neg hk]
        refine h.imp_left fun h => ?_
        exact (List.mem_cons.mp h).resolve_left hk

/-- What a report holds is one of the fields. -/
theorem mem_fields {m : Metrics} {k : String} {v : Json} (h : m.report.get k = some v) :
    (k, v) ∈ m.fields :=
  ((get_inserted m.fields _ k).1 v h).resolve_right nofun

/-- The keys of a report, whatever was read. -/
def reportKeys : List String :=
  ["boot_id", "uptime", "cpu", "load", "mem_total", "mem_used", "swap_total", "swap_used",
    "zram_used", "zram_total", "zram_devices", "swap_disk_used", "swap_disk_total",
    "swapfile_used", "swap_partition_used", "disk_total", "disk_used", "net_rx_total",
    "net_tx_total", "net_rx", "net_tx", "tcp", "udp", "procs"]

/-- Every key of the report is there. -/
theorem report_isSome {m : Metrics} {k : String} (h : k ∈ reportKeys) : (m.report.get k).isSome :=
  (get_inserted m.fields _ k).2 (.inl h)

/-- A figure of the load is one. -/
def LoadProper (f : Double) : Prop := ∃ q, f = .finite q ∧ 0 ≤ q

/-- A proper load is a number. -/
theorem number_float {f : Double} : Number (.ofDouble f) ↔ LoadProper f := by
  unfold Number LoadProper
  cases f with
  | finite q =>
    constructor
    · rintro ⟨q', hq, hle⟩
      cases hq
      exact ⟨q, rfl, hle⟩
    · rintro ⟨q', hq, hle⟩
      cases hq
      exact ⟨q, rfl, hle⟩
  | infinite negative | nan =>
    constructor
    · rintro ⟨q, hq, -⟩
      cases hq
    · rintro ⟨q, hq, -⟩
      cases hq

/-- So is a counter. -/
theorem number_nat (n : Nat) : Number (.int n) := number_int (Int.natCast_nonneg n)

/-- An optional reading is a number or null. -/
theorem optionalJson_proper (n : Option Nat) : Number (optionalJson n) ∨ optionalJson n = .null := by
  cases n with
  | none => exact .inr rfl
  | some n => exact .inl (number_nat n)

/-- Every field but the load is as the hub wants it. -/
theorem field_proper {m : Metrics} (hcpu : 0 ≤ m.cpu) : ∀ f ∈ m.fields, f.1 ≠ "boot_id" →
    f.1 ≠ "load" → Number f.2 ∨ f.2 = .null ∧ f.1 ∈ optional := by
  have hnull : ∀ (n : Option Nat) (k : String), k ∈ optional →
      Number (optionalJson n) ∨ optionalJson n = .null ∧ k ∈ optional :=
    fun n k hk => (optionalJson_proper n).imp_right fun h => ⟨h, hk⟩
  have hfloat : Number (.float m.cpu) := ⟨m.cpu, rfl, hcpu⟩
  intro f hf hboot hload
  simp only [Metrics.fields, List.mem_cons, List.not_mem_nil, or_false] at hf
  rcases hf with rfl | rfl | rfl | rfl | rfl | rfl | rfl | rfl | rfl | rfl | rfl | rfl | rfl | rfl |
    rfl | rfl | rfl | rfl | rfl | rfl | rfl | rfl | rfl | rfl
  all_goals first
    | exact absurd rfl hboot
    | exact absurd rfl hload
    | exact .inl (number_nat _)
    | exact .inl hfloat
    | exact hnull _ _ (by dsimp only; decide)

/-- The three loads, in order. -/
theorem report_load (m : Metrics) :
    m.report.get "load" = some (.arr [.ofDouble m.load.1, .ofDouble m.load.2.1, .ofDouble m.load.2.2]) := by
  obtain ⟨v, hv⟩ := Option.isSome_iff_exists.mp (@report_isSome m "load" (by decide))
  rw [hv]
  simpa [Metrics.fields] using mem_fields hv

/-- The hub accepts what an agent built exactly when the load was read. -/
theorem accepted_iff {m : Metrics} (hcpu : 0 ≤ m.cpu) :
    Accepted m.report ↔ LoadProper m.load.1 ∧ LoadProper m.load.2.1 ∧ LoadProper m.load.2.2 := by
  rw [← number_float, ← number_float, ← number_float]
  constructor
  · intro h
    obtain ⟨a, b, c, harr, hnumbers⟩ := h.load _ (report_load m)
    simp only [Json.arr.injEq, List.cons.injEq, and_true] at harr
    rw [harr.1, harr.2.1, harr.2.2]
    exact hnumbers
  · intro h
    constructor
    · intro k hk v hv
      have hplain : k ≠ "boot_id" ∧ k ≠ "load" := by
        revert hk
        simp only [numericFields, List.mem_filter, Bool.and_eq_true, bne_iff_ne]
        exact fun hk => hk.2
      exact field_proper hcpu (k, v) (mem_fields hv) hplain.1 hplain.2
    · intro v hv
      rw [report_load, Option.some.injEq] at hv
      exact ⟨_, _, _, hv.symm, h⟩

/-- The cpu share is a percentage. -/
theorem cpu_nonneg (parse32 parse64 : FloatParser) (c : Collector) (machine : Machine) :
    0 ≤ (c.collect parse32 parse64 machine).1.cpu ∧
      (c.collect parse32 parse64 machine).1.cpu ≤ 100 := by
  change 0 ≤ (Collector.cpuPercent _ machine.stat).1 ∧ (Collector.cpuPercent _ machine.stat).1 ≤ 100
  unfold Collector.cpuPercent
  split
  · exact ⟨le_rfl, by norm_num⟩
  · rename_i now hnow
    dsimp only
    cases Collector.prevCpu _ with
    | none => exact ⟨le_rfl, by norm_num⟩
    | some prev => exact busyPercent_range prev now

/-- No field of the contract is left out. -/
theorem missing_report (m : Metrics) : missing m.report = [] := by
  have hkeys : ∀ k ∈ reportFields, optional.contains k = false → k ∈ reportKeys := by decide
  unfold missing
  rw [List.filter_eq_nil_iff]
  intro k hk
  cases hoptional : optional.contains k with
  | true => simp
  | false => simp [Option.isSome_iff_ne_none.mp (@report_isSome m k (hkeys k hk hoptional))]

/-- With the hub's totals every figure is there. -/
theorem complete_report (t : Traffic) (m : Metrics) : Complete (withTotals t m.report) := by
  have hkeys : ∀ k ∈ publicMetrics, k ∉ injected → k ∈ reportKeys := by decide
  intro k hk _
  by_cases hinjected : k ∈ injected
  · obtain ⟨hrx, htx, hmrx, hmtx⟩ := withTotals_totals t m.report
    simp only [injected, List.mem_cons, List.not_mem_nil, or_false] at hinjected
    rcases hinjected with rfl | rfl | rfl | rfl
    · rw [hrx]
      rfl
    · rw [htx]
      rfl
    · rw [hmrx]
      rfl
    · rw [hmtx]
      rfl
  · rw [withTotals_get hinjected]
    exact report_isSome (hkeys k hk hinjected)

/-- A page keeps the figures of a session's report exactly when they are all there. -/
theorem page_keeps_iff {host : Host} {node : Int} {ip : String} {s : State}
    (h : Reachable host node ip s) {m : Members} (hm : s.session.state.metrics = some m)
    {hub : Hub} {n : NodeRow} (hagent : hub.agents n.id = some s.session.published)
    (faults : FrameFaults) (full : Bool) :
    safeNode (row faults hub full n) = row faults hub full n ↔ Complete m := by
  have hinv := inv_reachable h
  have hmetrics : metricsOf (hub.agents n.id) = m.toJson := by
    rw [hagent, hinv.published]
    change readingOf s.session.state.metrics = m.toJson
    rw [hm]
    rfl
  obtain ⟨hobject, hget⟩ := @row_report faults hub n m hmetrics full
  have htrue : truthy (reportFor full m) = true := by cases full <;> rfl
  rw [safeNode_eq hobject hget htrue]
  exact safeMetrics_iff (hinv.metrics m hm).proper full

/-- Whatever the texts of the kernel hold, an agent's report leaves out no field
of the contract, and the hub turns it down exactly when a figure of the load is
no number. The page keeps the figures of a session exactly when all it cannot do
without are there, and of an agent's report they are. -/
theorem report_reaches_page (parse32 parse64 : FloatParser) (c : Collector) (machine : Machine) :
    let built := (c.collect parse32 parse64 machine).1
    (missing built.report = [] ∧ built.memUsed ≤ built.memTotal ∧
      built.swapUsed ≤ built.swapTotal ∧ built.cpu ≤ 100 ∧ ∀ swap ∈ built.swap, swap.Split) ∧
    (invalidField built.report = none ↔
      ∀ i < 3, LoadProper (loadFigure parse32 machine.loadavg i)) ∧
    ∀ (host : Host) (node : Int) (ip : String) (s : State), Reachable host node ip s →
      ∀ m, s.session.state.metrics = some m → ∀ faults hub n full,
        hub.agents n.id = some s.session.published →
      (safeNode (row faults hub full n) = row faults hub full n ↔ Complete m) ∧
      ∀ t, m = withTotals t built.report → Complete m := by
  intro built
  obtain ⟨hcpu, hshare⟩ := cpu_nonneg parse32 parse64 c machine
  refine ⟨⟨missing_report built, memUsed_le _, swapUsed_le _, hshare, ?_⟩, ?_, ?_⟩
  · intro swap hswap
    exact swapSources_split hswap
  · rw [invalidField_eq_none, accepted_iff hcpu]
    change LoadProper (loadFigure parse32 machine.loadavg 0) ∧
      LoadProper (loadFigure parse32 machine.loadavg 1) ∧
      LoadProper (loadFigure parse32 machine.loadavg 2) ↔ _
    constructor
    · rintro ⟨h₀, h₁, h₂⟩ i hi
      interval_cases i
      · exact h₀
      · exact h₁
      · exact h₂
    · intro h
      exact ⟨h 0 (by decide), h 1 (by decide), h 2 (by decide)⟩
  · intro host node ip s hreach m hm faults hub n full hagent
    refine ⟨page_keeps_iff hreach hm hagent faults full, ?_⟩
    rintro t rfl
    exact complete_report t built

/-- A machine that tells nothing. -/
def muteMachine : Machine where
  meminfo := ""
  swap := ⟨none, none, fun _ => none⟩
  mounts := ""
  statvfs _ := none
  network := ⟨⟨[], []⟩, fun _ => ⟨"", "", [], false, false⟩, "", ""⟩
  instant := 0
  sockstat := ""
  sockstat6 := ""
  uptime := none
  stat := none
  loadavg := ""
  procs := []

/-- Its report is accepted; a report of another agent that lacks most figures is
dropped by the page. -/
theorem report_reaches_page_mute :
    invalidField ((Collector.new.collect (fun _ => none) (fun _ => none) muteMachine).1.report) =
      none ∧ ∃ s, Reachable ⟨id, fun _ => none⟩ 1 "" s ∧
        safeNode (row .none ⟨.blank, fun _ => some s.session.published, arrival.clock⟩ false
          (SweepOutcome.announcedNode 1 "front")) ≠
        row .none ⟨.blank, fun _ => some s.session.published, arrival.clock⟩ false
          (SweepOutcome.announcedNode 1 "front") := by
  obtain ⟨-, haccepted, hpage⟩ :=
    report_reaches_page (fun _ => none) (fun _ => none) Collector.new muteMachine
  obtain ⟨s, t, hreach, hmetrics⟩ := spoofed_reachable ⟨id, fun _ => none⟩
  refine ⟨haccepted.mpr fun i _ => ⟨0, rfl, le_rfl⟩, s, hreach, ?_⟩
  intro hkept
  have hcomplete := (hpage _ _ _ s hreach _ hmetrics .none
    ⟨.blank, fun _ => some s.session.published, arrival.clock⟩ _ false rfl).1.mp hkept
  have huptime := hcomplete "uptime" (by decide) (by decide)
  rw [withTotals_get (by decide)] at huptime
  exact absurd huptime (by decide)

end Romi.ReportPath
