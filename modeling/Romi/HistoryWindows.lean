import Romi.LatencyBuckets
import Romi.PrunedHistory

/-!
# Windows of history

A chart asks for a number of hours and of points. The step is rounded up to
whole minutes so that the window takes no more buckets than there are points,
but for the one its unaligned start adds, and up to whole hours where hours are
all that is left of some of it.
-/

namespace Romi.HistoryWindows

open CachedTransactions HistoryQueries HourlyRollup KeyedTable LatencyBuckets PrunedHistory
  StoreSchema

/-! ## The request -/

/-- `PUBLIC_HOURS`. -/
def publicHours : Int := 24 * 7

/-- `ADMIN_HOURS`. -/
def adminHours : Int := 24 * 365

/-- `SAMPLES`. -/
def samplesCeiling : Int := 1440

/-- `Window`. -/
structure Window where
  /-- How many hours back. -/
  hours : Int
  /-- How many points are wanted. -/
  points : Option Int
  /-- Which series are. -/
  series : Option String

/-- The caller draws this half. -/
def Window.wants (w : Window) (name : String) : Bool :=
  match w.series with
  | none => true
  | some s => s = name

/-- The hours a caller is given. -/
def windowHours (full : Bool) (w : Window) : Int :=
  max 1 (min (if full then adminHours else publicHours) w.hours)

/-- The points a series may take. -/
def budgetOf (points : Option Int) : Int :=
  max 60 (min samplesCeiling (points.getD samplesCeiling))

/-- `sample_step`. -/
def sampleStep (hours : Int) (points : Option Int) : Int :=
  60 * max (idiv (hours * 60 + budgetOf points - 1) (budgetOf points)) 1

/-- The series of the answer. -/
structure Body where
  /-- The series of the machine. -/
  metrics : List MetricPoint
  /-- The series of the probes. -/
  ping : List PingPoint
  /-- The loss of each probe over the window. -/
  loss : Int → Option Rat

/-- What `metrics` builds off the runtime. -/
def built (db : Store) (n since step : Int) (w : Window) : Except Failure Body := do
  let metrics ← if w.wants "metrics" then metrics db n since step else pure []
  let (ping, loss) ← if w.wants "ping" then pingRecords db n since step else pure ([], fun _ => none)
  pure ⟨metrics, ping, loss⟩

/-- `metrics` of a node the caller may read. -/
def answer (db : Store) (full : Bool) (n now : Int) (w : Window) : Except Failure Body :=
  built db n (now - windowHours full w * 3600) (sampleStep (windowHours full w) w.points) w

/-! ## The step -/

/-- A window is an hour at least and a year at most. -/
theorem windowHours_range (full : Bool) (w : Window) :
    1 ≤ windowHours full w ∧ windowHours full w ≤ 8760 := by
  unfold windowHours adminHours publicHours
  cases full
  · simp only [Bool.false_eq_true, if_false]
    omega
  · simp only [if_true]
    omega

/-- The points asked for are an hour's at least and a day's at most. -/
theorem budgetOf_range (points : Option Int) : 60 ≤ budgetOf points ∧ budgetOf points ≤ 1440 := by
  unfold budgetOf samplesCeiling
  omega

/-- Rounding up takes no more than one more. -/
theorem idiv_up {a b : Int} (ha : 0 ≤ a) (hb : 0 < b) :
    a ≤ idiv (a + b - 1) b * b ∧ idiv (a + b - 1) b * b ≤ a + b - 1 := by
  unfold idiv
  rw [Int.tdiv_eq_ediv_of_nonneg (by omega)]
  have hle := Int.ediv_mul_le (a + b - 1) hb.ne'
  have hlt := Int.lt_ediv_add_one_mul_self (a + b - 1) hb
  rw [Int.add_mul, Int.one_mul] at hlt
  omega

/-- The step is a whole number of minutes which the queries accept, and as many
steps as there are points reach over the window. -/
theorem sampleStep_spec {hours : Int} (hlow : 1 ≤ hours) (hhigh : hours ≤ 8760)
    (points : Option Int) : 60 ∣ sampleStep hours points ∧ 0 < sampleStep hours points ∧
      sampleStep hours points ≤ 365 * 86400 ∧
      hours * 3600 ≤ budgetOf points * sampleStep hours points := by
  obtain ⟨hb, hb'⟩ := budgetOf_range points
  obtain ⟨hup, hdown⟩ := @idiv_up (hours * 60) (budgetOf points) (by omega) (by omega)
  unfold sampleStep
  generalize idiv (hours * 60 + budgetOf points - 1) (budgetOf points) = q at hup hdown ⊢
  have hcount : q * 60 ≤ hours * 60 + budgetOf points - 1 := by
    rcases Int.le_total 0 q with hq | hq
    · exact (Int.mul_le_mul_of_nonneg_left hb hq).trans hdown
    · omega
  have hmax : q * budgetOf points ≤ max q 1 * budgetOf points :=
    Int.mul_le_mul_of_nonneg_right (le_max_left q 1) (by omega)
  refine ⟨Int.dvd_mul_right 60 _, by omega, by omega, ?_⟩
  have hproduct : budgetOf points * (60 * max q 1) = 60 * (max q 1 * budgetOf points) := by ring
  rw [hproduct]
  omega

/-- The width used is not below the step asked for, and whole hours where there
are hours. -/
theorem historyStep_width {step : Int} (hlow : 0 < step) (hhigh : step ≤ 365 * 86400)
    (hourly : Bool) : ∃ width, historyStep hourly step = .ok width ∧ step ≤ width ∧
      (hourly = true → 3600 ∣ width) := by
  unfold historyStep
  rw [if_neg (by omega)]
  by_cases haligned : step ≥ 3600 ∧ step % 3600 = 0
  · rw [if_pos haligned]
    exact ⟨step, rfl, le_rfl, fun _ => Int.dvd_of_emod_eq_zero haligned.2⟩
  · rw [if_neg haligned]
    cases hourly with
    | false => exact ⟨step, rfl, le_rfl, nofun⟩
    | true =>
      obtain ⟨hup, -⟩ := @idiv_up (max step 3600) 3600 (by omega) (by omega)
      have hsame : max step 3600 + 3599 = max step 3600 + 3600 - 1 := by omega
      refine ⟨_, rfl, ?_, fun _ => Int.dvd_mul_left _ _⟩
      rw [hsame]
      omega

/-! ## Buckets -/

/-- A window of so many widths spans as many buckets and one more. -/
theorem idiv_span {since now width k : Int} (hwidth : 0 < width) (hspan : now - since ≤ k * width)
    (hk : 0 ≤ k) : idiv now width ≤ idiv since width + k := by
  have hle : idiv now width ≤ idiv (since + k * width) width :=
    Int.tdiv_le_tdiv hwidth (by omega)
  refine hle.trans ?_
  unfold idiv
  rcases Int.le_total 0 since with hsince | hsince
  · have hsum : 0 ≤ since + k * width := by
      have hproduct := Int.mul_nonneg hk hwidth.le
      omega
    rw [Int.tdiv_eq_ediv_of_nonneg hsum, Int.tdiv_eq_ediv_of_nonneg hsince,
      Int.add_mul_ediv_right _ _ hwidth.ne']
  · -- Towards zero a start before 1970 is rounded up.
    have hstart : since ≤ since.tdiv width * width := by
      have hneg := Int.neg_tdiv since width
      have hpos : 0 ≤ -since := by omega
      rw [Int.tdiv_eq_ediv_of_nonneg hpos] at hneg
      have hfloor := Int.ediv_mul_le (-since) hwidth.ne'
      rw [hneg, Int.neg_mul] at hfloor
      omega
    have hgoal : (since + k * width).tdiv width ≤
        ((since.tdiv width + k) * width).tdiv width := by
      refine Int.tdiv_le_tdiv hwidth ?_
      rw [Int.add_mul]
      omega
    rwa [Int.mul_tdiv_cancel _ hwidth.ne'] at hgoal

/-- Times of buckets in a window, each once. -/
theorem length_le_of_buckets {times : List Int} {since now width k : Int} (hwidth : 0 < width)
    (hspan : now - since ≤ k * width) (hk : 0 ≤ k) (hsorted : times.Pairwise (· < ·))
    (hbuckets : ∀ x ∈ times, ∃ ts, since ≤ ts ∧ ts ≤ now ∧ x = idiv ts width * width) :
    (times.length : Int) ≤ k + 1 := by
  have hnodup : times.Nodup := hsorted.imp fun h => ne_of_lt h
  have hsubset : times.toFinset ⊆
      (Finset.Icc (idiv since width) (idiv since width + k)).image (· * width) := by
    intro x hx
    obtain ⟨ts, hsince, hnow, rfl⟩ := hbuckets x (List.mem_toFinset.mp hx)
    refine Finset.mem_image_of_mem _ (Finset.mem_Icc.mpr ⟨Int.tdiv_le_tdiv hwidth hsince, ?_⟩)
    exact (Int.tdiv_le_tdiv hwidth hnow).trans (idiv_span hwidth hspan hk)
  have hcard := (Finset.card_le_card hsubset).trans Finset.card_image_le
  rw [List.toFinset_card_of_nodup hnodup, Int.card_Icc] at hcard
  omega

/-! ## The series -/

/-- No row of history is later than this. -/
structure Past (db : Store) (now : Int) : Prop where
  /-- No minute is later than now. -/
  minutes : ∀ r ∈ db.metric.rows, r.ts ≤ now
  /-- Nor is an hour. -/
  hours : ∀ r ∈ db.metricHour.rows, r.ts ≤ now
  /-- Nor is a result. -/
  results : ∀ r ∈ db.pingRecord.rows, r.ts ≤ now
  /-- Nor is an hour of results. -/
  resultHours : ∀ r ∈ db.pingHour.rows, r.ts ≤ now

/-- The times of a series: few enough, on whole widths and in order. -/
structure Series (width budget : Int) (times : List Int) : Prop where
  /-- It has no more points than the budget, and one. -/
  bounded : (times.length : Int) ≤ budget + 1
  /-- Each is at a multiple of the width. -/
  multiples : ∀ t ∈ times, width ∣ t
  /-- They come in order. -/
  increasing : times.Pairwise (· < ·)

/-- No points are such a series. -/
theorem series_nil {width budget : Int} (h : 0 ≤ budget) : Series width budget [] :=
  ⟨by rw [List.length_nil]; omega, nofun, List.Pairwise.nil⟩

/-- Buckets in a window, each once and in order, make a series. -/
theorem series_of_buckets {times : List Int} {since now width budget : Int} (hwidth : 0 < width)
    (hspan : now - since ≤ budget * width) (hbudget : 0 ≤ budget)
    (hsorted : times.Pairwise (· < ·))
    (hbuckets : ∀ x ∈ times, ∃ ts, since ≤ ts ∧ ts ≤ now ∧ x = idiv ts width * width) :
    Series width budget times := by
  refine ⟨length_le_of_buckets hwidth hspan hbudget hsorted hbuckets, ?_, hsorted⟩
  intro x hx
  obtain ⟨ts, -, -, rfl⟩ := hbuckets x hx
  exact Int.dvd_mul_left _ _

variable {db : Store} {n since now width budget : Int}

/-- What is read of the machine is of the window. -/
theorem metricHistory_past (h : Past db now) {r : Sample} (hr : r ∈ metricHistory db n since) :
    since ≤ r.ts ∧ r.ts ≤ now := by
  rcases Multiset.mem_add.mp hr with hr | hr
  · obtain ⟨minute, hminute, rfl⟩ := Multiset.mem_map.mp hr
    obtain ⟨hmem, -, hsince⟩ := Finset.mem_filter.mp (Finset.mem_val.mp hminute)
    exact ⟨hsince, h.minutes minute hmem⟩
  · obtain ⟨hour, hhour, rfl⟩ := Multiset.mem_map.mp hr
    obtain ⟨hmem, -, hsince⟩ := Finset.mem_filter.mp (Finset.mem_val.mp hhour)
    exact ⟨hsince, h.hours hour hmem⟩

/-- So is what is read of the probes. -/
theorem pingHistory_past (h : Past db now) {r : PingSample} (hr : r ∈ pingHistory db n since) :
    since ≤ r.ts ∧ r.ts ≤ now := by
  rcases Multiset.mem_add.mp hr with hr | hr
  · obtain ⟨result, hresult, rfl⟩ := Multiset.mem_map.mp hr
    obtain ⟨hmem, -, hsince⟩ := Finset.mem_filter.mp (Finset.mem_val.mp hresult)
    exact ⟨hsince, h.results result hmem⟩
  · obtain ⟨hour, hhour, rfl⟩ := Multiset.mem_map.mp hr
    obtain ⟨hmem, -, hsince⟩ := Finset.mem_filter.mp (Finset.mem_val.mp hhour)
    exact ⟨hsince, h.resultHours hour hmem⟩

/-- The metric buckets begin where their rows are divided to. -/
theorem metricMeans_times (db : Store) (n since width : Int) :
    (metricMeans db n since width).map Means.ts =
      (ascending (bucketsOf (metricHistory db n since) width)).map (· * width) := by
  unfold metricMeans
  dsimp only
  rw [List.map_map]
  refine List.map_congr_left fun b hb => ?_
  obtain ⟨r, hr, hdivided⟩ := Multiset.mem_map.mp (Multiset.mem_toFinset.mp (mem_ascending.mp hb))
  have hin : r ∈ bucketOf (metricHistory db n since) width b :=
    (@Multiset.mem_filter _ (fun r : Sample => idiv r.ts width = b) _ _ _).mpr ⟨hr, hdivided⟩
  have hne : bucketOf (metricHistory db n since) width b ≠ 0 := by
    intro hnone
    rw [hnone] at hin
    exact Multiset.notMem_zero r hin
  have hstart := bucket_start hne fun x hx =>
    ((@Multiset.mem_filter _ (fun r : Sample => idiv r.ts width = b) _ _ _).mp hx).2
  exact congrArg (· * width) hstart

/-- The metrics of a window are a series. -/
theorem metrics_series (hpast : Past db now) (hwidth : 0 < width)
    (hspan : now - since ≤ budget * width) (hbudget : 0 ≤ budget) :
    Series width budget (((metricMeans db n since width).map (pointOf width)).map MetricPoint.ts) := by
  have htimes : ((metricMeans db n since width).map (pointOf width)).map MetricPoint.ts =
      (ascending (bucketsOf (metricHistory db n since) width)).map (· * width) := by
    rw [← metricMeans_times, List.map_map]
    rfl
  rw [htimes]
  refine series_of_buckets hwidth hspan hbudget ?_ ?_
  · rw [List.pairwise_map]
    refine (Finset.sortedLT_sort _).pairwise.imp ?_
    intro a b hlt
    exact Int.mul_lt_mul_of_pos_right hlt hwidth
  · intro x hx
    obtain ⟨b, hb, rfl⟩ := List.mem_map.mp hx
    obtain ⟨r, hr, hdivided⟩ := Multiset.mem_map.mp (Multiset.mem_toFinset.mp (mem_ascending.mp hb))
    obtain ⟨hsince, hnow⟩ := metricHistory_past hpast hr
    exact ⟨r.ts, hsince, hnow, by rw [hdivided]⟩

/-- The times at which one probe has an object. -/
theorem plainPoints_times (all : Multiset PingRecordRow) (width task : Int) :
    ((plainPoints all width).filter fun p => p.taskId = task).map PingPoint.ts =
      ((pairsIn all width).sort.filter fun k => (ofLex k).2 = task).map fun k => (ofLex k).1 := by
  unfold plainPoints inOrder
  rw [List.filter_map, List.map_map]
  rfl

/-- The results of one probe in a window are a series. -/
theorem ping_series (hpast : Past db now) (hwidth : 0 < width)
    (hspan : now - since ≤ budget * width) (hbudget : 0 ≤ budget) (task : Int) :
    Series width budget (((plainPoints (singles db n since) width).filter fun p =>
      p.taskId = task).map PingPoint.ts) := by
  rw [plainPoints_times]
  refine series_of_buckets hwidth hspan hbudget ?_ ?_
  · rw [List.pairwise_map]
    have hsorted := (Finset.sortedLT_sort (pairsIn (singles db n since) width)).pairwise.filter
      fun k => decide ((ofLex k).2 = task)
    refine hsorted.imp_of_mem ?_
    intro k k' hk hk' hlt
    have htask : (ofLex k).2 = task := by simpa using (List.mem_filter.mp hk).2
    have htask' : (ofLex k').2 = task := by simpa using (List.mem_filter.mp hk').2
    rcases Prod.Lex.lt_iff.mp hlt with hlt | ⟨-, hlt⟩
    · exact hlt
    · rw [htask, htask'] at hlt
      exact absurd hlt (lt_irrefl task)
  · intro x hx
    obtain ⟨k, hk, rfl⟩ := List.mem_map.mp hx
    have hpair := (Finset.mem_sort _).mp (List.mem_filter.mp hk).1
    obtain ⟨r, hr, rfl⟩ := Multiset.mem_map.mp (Multiset.mem_toFinset.mp hpair)
    obtain ⟨sample, hsample, hreading⟩ := Multiset.mem_bind.mp hr
    have heq := Multiset.eq_of_mem_replicate hreading
    obtain ⟨hsince, hnow⟩ := pingHistory_past hpast (Multiset.mem_of_mem_filter hsample)
    exact ⟨sample.ts, hsince, hnow, by rw [heq]; rfl⟩

/-- Where buckets are whole hours, an hour is in one of them. -/
theorem hour_whole {ts : Int} (h : 3600 ∣ width) {t : Int} (ht : hourStart t = hourStart ts) :
    idiv t width = idiv ts width := by
  rw [← idiv_hourStart h t, ht, idiv_hourStart h ts]

/-- Whatever hours and points are asked for, the step is a number of whole
minutes that the queries accept, and the answer has for each series one bucket
more at most than there are points, at times that follow one another on whole
widths; where the window has hours left over from pruning, the width is a number
of whole hours and every such hour is in one bucket. -/
theorem history_bounded (db : Store) (full : Bool) (n now : Int) (w : Window) (hpast : Past db now) :
    let step := sampleStep (windowHours full w) w.points
    let since := now - windowHours full w * 3600
    60 ∣ step ∧ 0 < step ∧ ∃ width pingWidth body,
      historyStep (decide (∃ r ∈ db.metricHour.rows, r.nodeId = n ∧ r.ts ≥ since)) step = .ok width ∧
      historyStep (decide (∃ r ∈ db.pingHour.rows, r.nodeId = n ∧ r.ts ≥ since)) step =
        .ok pingWidth ∧
      answer db full n now w = .ok body ∧
      Series width (budgetOf w.points) (body.metrics.map MetricPoint.ts) ∧
      (∀ p ∈ body.metrics, p.step = width) ∧
      (∀ task, Series pingWidth (budgetOf w.points)
        ((body.ping.filter fun p => p.taskId = task).map PingPoint.ts)) ∧
      (∀ r ∈ db.metricHour.rows, r.nodeId = n → since ≤ r.ts → 3600 ∣ width ∧
        ∀ t, hourStart t = hourStart r.ts → idiv t width = idiv r.ts width) ∧
      ∀ r ∈ db.pingHour.rows, r.nodeId = n → since ≤ r.ts → 3600 ∣ pingWidth ∧
        ∀ t, hourStart t = hourStart r.ts → idiv t pingWidth = idiv r.ts pingWidth := by
  intro step since
  obtain ⟨hlow, hhigh⟩ := windowHours_range full w
  obtain ⟨hminutes, hpositive, haccepted, hcovers⟩ := sampleStep_spec hlow hhigh w.points
  obtain ⟨hbudget, -⟩ := budgetOf_range w.points
  have hbudget' : 0 ≤ budgetOf w.points := by omega
  have hreach : ∀ width, step ≤ width → now - since ≤ budgetOf w.points * width := by
    intro width hwidth
    have hmore : budgetOf w.points * step ≤ budgetOf w.points * width :=
      Int.mul_le_mul_of_nonneg_left hwidth hbudget'
    have hspan : now - since = windowHours full w * 3600 := Int.sub_sub_self now _
    rw [hspan]
    exact hcovers.trans hmore
  obtain ⟨width, hstep, hwidth, hhours⟩ := historyStep_width hpositive haccepted
    (decide (∃ r ∈ db.metricHour.rows, r.nodeId = n ∧ r.ts ≥ since))
  obtain ⟨pingWidth, hpingStep, hpingWidth, hpingHours⟩ := historyStep_width hpositive haccepted
    (decide (∃ r ∈ db.pingHour.rows, r.nodeId = n ∧ r.ts ≥ since))
  have hmetrics : metrics db n since step = .ok ((metricMeans db n since width).map (pointOf width)) := by
    unfold metrics
    dsimp only
    rw [hstep]
    rfl
  have hping : pingRecords db n since step = .ok (plainPoints (singles db n since) pingWidth,
      plainLosses (singles db n since)) := by
    unfold pingRecords
    dsimp only
    rw [hpingStep, ← readRows_eq]
    rfl
  refine ⟨hminutes, hpositive, width, pingWidth, ⟨
    if w.wants "metrics" then (metricMeans db n since width).map (pointOf width) else [],
    if w.wants "ping" then plainPoints (singles db n since) pingWidth else [],
    if w.wants "ping" then plainLosses (singles db n since) else fun _ => none⟩,
    hstep, hpingStep, ?_, ?_, ?_, ?_, ?_, ?_⟩
  · unfold answer built
    rw [hmetrics, hping]
    cases w.wants "metrics" <;> cases w.wants "ping" <;> rfl
  · dsimp only
    split
    · exact metrics_series hpast (by omega) (hreach width hwidth) hbudget'
    · exact series_nil hbudget'
  · dsimp only
    intro p hp
    split at hp
    · obtain ⟨m, -, rfl⟩ := List.mem_map.mp hp
      rfl
    · cases hp
  · intro task
    dsimp only
    split
    · exact ping_series hpast (by omega) (hreach pingWidth hpingWidth) hbudget' task
    · exact series_nil hbudget'
  · intro r hr hnode hsince
    have hwhole := hhours (decide_eq_true ⟨r, hr, hnode, hsince⟩)
    exact ⟨hwhole, fun t ht => hour_whole hwhole ht⟩
  · intro r hr hnode hsince
    have hwhole := hpingHours (decide_eq_true ⟨r, hr, hnode, hsince⟩)
    exact ⟨hwhole, fun t ht => hour_whole hwhole ht⟩

/-- An hour of one node. -/
def oneHour : MetricHourRow :=
  ⟨1, 3600, 60, 600, 60, 60, 60, 60, fun _ => none, fun _ => 0, by decide⟩

/-- A minute of the node, and the hour before. -/
def minuteAndHour : Store :=
  { Store.blank with
    metric := Store.blank.metric.put (StoreJobs.metricRowOf 1 7260 .null)
    metricHour := Store.blank.metricHour.put oneHour }

/-- The example is not later than its clock. -/
theorem minuteAndHour_past : Past minuteAndHour 7300 := by
  refine ⟨?_, ?_, ?_, ?_⟩
  · intro r hr
    rcases Table.mem_put.mp hr with rfl | ⟨hr, -⟩
    · show (7260 : Int) ≤ 7300
      omega
    · exact absurd hr (Finset.notMem_empty r)
  · intro r hr
    rcases Table.mem_put.mp hr with rfl | ⟨hr, -⟩
    · show (3600 : Int) ≤ 7300
      omega
    · exact absurd hr (Finset.notMem_empty r)
  · exact fun r hr => absurd hr (Finset.notMem_empty r)
  · exact fun r hr => absurd hr (Finset.notMem_empty r)

/-- The hour is in the window, so the points are whole hours. -/
theorem history_bounded_hour : ∃ width body,
    answer minuteAndHour true 1 7300 ⟨2, none, none⟩ = .ok body ∧ 3600 ∣ width ∧
      Series width 1440 (body.metrics.map MetricPoint.ts) := by
  obtain ⟨-, -, width, -, body, -, -, hbody, hseries, -, -, hhours, -⟩ :=
    history_bounded minuteAndHour true 1 7300 ⟨2, none, none⟩ minuteAndHour_past
  have hrow : oneHour ∈ minuteAndHour.metricHour.rows := Table.mem_put.mpr (.inl rfl)
  exact ⟨width, body, hbody, (hhours oneHour hrow rfl (by decide)).1, hseries⟩

example : sampleStep 1 none = 60 ∧ sampleStep 8760 (some 60) = 525600 := by decide

end Romi.HistoryWindows
