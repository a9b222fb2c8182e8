import Romi.HistoryRuns
import Romi.LatencyBuckets
import Romi.LiveReports

/-!
# The range of the latency statistics

Every sum and product of `ping_records` and `close_bucket` is computed in 64
bits. Nothing bounds a latency on its way in, so the one sum that adds two
latencies can leave the range; the others are bounded by the number of readings.
-/

namespace Romi.LatencyRange

open HistogramRanks HistoryQueries HistoryRuns HourlyRollup JsonObjects JsonValue KeyedTable
  LatencyBuckets LiveReports StoreSchema

/-! ## The computation in 64 bits -/

/-- The result of an i64 operation, nothing when it overflows. -/
def i64 (n : Int) : Option Int := if i64Min ≤ n ∧ n ≤ i64Max then some n else none

/-- `answered.iter().map(|(_, count)| count).sum()`. -/
def countChecked (answered : List (Int × Int)) : Option Int :=
  answered.foldlM (fun seen x => i64 (seen + x.2)) 0

/-- The closure `at` of `close_bucket`. -/
def rankChecked : Int → List (Int × Int) → Int → Option (Option Int)
  | _, [], _ => some none
  | seen, (value, samples) :: rest, position => do
    let seen ← i64 (seen + samples)
    if seen > position then some (some value) else rankChecked seen rest position

/-- The mean of the two middle answers. -/
def meanChecked : Option Int → Option Int → Option (Option Int)
  | some low, some high => (i64 (low + high)).map fun sum => some (idiv sum 2)
  | _, _ => some none

/-- `middle` of `close_bucket`. -/
def middleChecked (count : Int) (answered : List (Int × Int)) : Option (Option Int) :=
  if count = 0 then some none
  else if count.tmod 2 = 1 then rankChecked 0 answered (idiv count 2)
  else do
    let low ← rankChecked 0 answered (idiv count 2 - 1)
    let high ← rankChecked 0 answered (idiv count 2)
    meanChecked low high

/-- `row["loss"]` of `close_bucket`. -/
def lossChecked (count lost : Int) : Option (Option Int) :=
  if lost > 0 then do
    let total ← i64 (count + lost)
    let product ← i64 (100 * lost)
    let sum ← i64 (product + total)
    let rounded ← i64 (sum - 1)
    some (some (idiv rounded total))
  else some none

/-- One turn of the loop of `close_bucket`. -/
def closeChecked (ts : Int) (b : PingBucket) : Option PingPoint := do
  let answered := b.answered.mergeSort fun x y => decide (x.1 < y.1 ∨ (x.1 = y.1 ∧ x.2 ≤ y.2))
  let count ← countChecked answered
  let latency ← middleChecked count answered
  let loss ← lossChecked count b.lost
  some { taskId := b.task, ts := ts, latency := latency, band := bandOf answered, loss := loss }

/-- `close_bucket`. -/
def closeBucketChecked (opened : List PingBucket) (ts : Int) : Option (List PingPoint) :=
  (opened.mergeSort fun x y => decide (x.task ≤ y.task)).mapM (closeChecked ts)

/-- `probe.2 += samples`, or the push of an answer. -/
def addChecked (b : PingBucket) (row : PingRow) : Option PingBucket :=
  if row.latency < 0 then (i64 (b.lost + row.samples)).map fun lost => { b with lost := lost }
  else some { b with answered := b.answered ++ [(row.latency, row.samples)] }

/-- A row filed under its probe. -/
def fileChecked : List PingBucket → PingRow → Option (List PingBucket)
  | [], row => (addChecked ⟨row.task, [], 0⟩ row).map fun b => [b]
  | b :: rest, row =>
    if b.task = row.task then (addChecked b row).map fun b => b :: rest
    else (fileChecked rest row).map fun rest => b :: rest

/-- `seen.0 += samples` for a timeout. -/
def lostChecked (lost : Int) (row : PingRow) : Option Int :=
  if row.latency < 0 then i64 (lost + row.samples) else some lost

/-- The bucket is finished when a row of another one comes. -/
def turnChecked (s : Reading) (b : Int) : Option Reading :=
  if b ≠ s.bucket then (closeBucketChecked s.opened s.bucket).map fun closed =>
    { s with out := s.out ++ closed, opened := [], bucket := b }
  else some s

/-- One row of the loop. -/
def nextChecked (s : Reading) (row : PingRow) : Option Reading := do
  let samples ← i64 row.samples
  let s ← turnChecked s row.bucket
  let seen := s.totals row.task
  let all ← i64 (seen.2 + samples)
  let opened ← fileChecked s.opened row
  let lost ← lostChecked seen.1 row
  some { s with opened := opened, totals := Function.update s.totals row.task (lost, all) }

/-- The loop of `ping_records` and what it leaves behind. -/
def readChecked (rows : List PingRow) : Option (List PingPoint × (Int → Option Rat)) := do
  let s ← rows.foldlM nextChecked .start
  let closed ← closeBucketChecked s.opened s.bucket
  some (s.out ++ closed, windowLoss s.totals)

/-! ## Where it stays in range -/

/-- The two middle ones of an even number of sorted answers. -/
def Middles (sorted : List Int) (low high : Int) : Prop :=
  ∃ front back, sorted = front ++ low :: high :: back ∧ front.length = back.length

/-- The readings of a probe in a bucket leave room for their sums. -/
structure Room (readings : Multiset Int) : Prop where
  /-- The answers can be counted. -/
  answered : ((answers readings).length : Int) ≤ i64Max
  /-- The two middle ones can be added. -/
  middle : ∀ low high, Middles (answers readings) low high → low + high ≤ i64Max
  /-- The share that was lost can be rounded up. -/
  loss : 0 < lostOf readings → 100 * (lostOf readings : Int) + readings.card ≤ i64Max

/-- A number is one of the type, or nothing. -/
theorem i64_eq_some {n m : Int} : i64 n = some m ↔ (i64Min ≤ n ∧ n ≤ i64Max) ∧ m = n := by
  unfold i64
  split_ifs with h
  · rw [Option.some_inj]
    exact ⟨fun he => ⟨h, he.symm⟩, fun he => he.2.symm⟩
  · exact ⟨nofun, fun he => absurd he.1 h⟩

/-- A count stays in range when it is not too large. -/
theorem i64_of {n : Int} (h : 0 ≤ n) (hmax : n ≤ i64Max) : i64 n = some n := by
  unfold i64 i64Min
  rw [if_pos ⟨by omega, hmax⟩]

/-- A count is one where it is not too large. -/
theorem i64_count {n m : Int} (h : 0 ≤ n) : i64 n = some m ↔ n ≤ i64Max ∧ m = n := by
  rw [i64_eq_some]
  unfold i64Min
  constructor
  · rintro ⟨⟨-, hmax⟩, rfl⟩
    exact ⟨hmax, rfl⟩
  · rintro ⟨hmax, rfl⟩
    exact ⟨⟨by omega, hmax⟩, rfl⟩

/-- One more pair. -/
theorem countOf_cons (x : Int × Int) (h : List (Int × Int)) : countOf (x :: h) = x.2 + countOf h := by
  rw [countOf, List.map_cons, List.sum_cons, countOf]

/-- No count is below zero. -/
theorem countOf_nonneg {h : List (Int × Int)} (hp : Present h) : 0 ≤ countOf h := by
  rw [countOf, ← length_spread hp]
  exact Int.natCast_nonneg _

/-- The counts are added up without overflow when their sum has room. -/
theorem countChecked_from {h : List (Int × Int)} (hp : Present h) {seen count : Int}
    (hseen : 0 ≤ seen ∧ seen ≤ i64Max) :
    h.foldlM (fun seen x => i64 (seen + x.2)) seen = some count ↔
      seen + countOf h ≤ i64Max ∧ count = seen + countOf h := by
  induction h generalizing seen with
  | nil =>
    rw [List.foldlM_nil, countOf, List.map_nil, List.sum_nil, add_zero]
    change some seen = some count ↔ _
    rw [Option.some_inj]
    exact ⟨fun he => ⟨hseen.2, he.symm⟩, fun he => he.2.symm⟩
  | cons x rest ih =>
    have hx := hp x List.mem_cons_self
    have hrest := countOf_nonneg hp.tail
    rw [List.foldlM_cons, countOf_cons, Option.bind_eq_bind, Option.bind_eq_some_iff, ← add_assoc]
    constructor
    · rintro ⟨next, hnext, hfold⟩
      obtain ⟨hmax, rfl⟩ := (i64_count (by omega)).mp hnext
      exact (ih hp.tail ⟨by omega, hmax⟩).mp hfold
    · rintro ⟨hmax, hcount⟩
      refine ⟨seen + x.2, i64_of (by omega) (by omega), ?_⟩
      exact (ih hp.tail ⟨by omega, by omega⟩).mpr ⟨hmax, hcount⟩

/-- Counting up to a rank stays below the count of all. -/
theorem rankChecked_eq {h : List (Int × Int)} (hp : Present h) {seen : Int} (hseen : 0 ≤ seen)
    (hmax : seen + countOf h ≤ i64Max) (position : Int) :
    rankChecked seen h position = some (rankFrom seen h position) := by
  induction h generalizing seen with
  | nil => rfl
  | cons x rest ih =>
    obtain ⟨value, samples⟩ := x
    have hx : 0 < samples := hp (value, samples) List.mem_cons_self
    have hrest := countOf_nonneg hp.tail
    rw [countOf_cons] at hmax
    dsimp only at hmax
    rw [rankChecked, i64_of (by omega) (by omega), Option.bind_eq_bind, Option.bind_some, rankFrom]
    split_ifs
    · rfl
    · exact ih hp.tail (by omega) (by omega)

/-- The middle ones by their positions. -/
theorem middles_iff {sorted : List Int} {low high : Int} : Middles sorted low high ↔
    sorted.length % 2 = 0 ∧ sorted[sorted.length / 2 - 1]? = some low ∧
      sorted[sorted.length / 2]? = some high := by
  constructor
  · rintro ⟨front, back, rfl, hlength⟩
    have htotal : (front ++ low :: high :: back).length = 2 * front.length + 2 := by
      rw [List.length_append, List.length_cons, List.length_cons]
      omega
    have hlow : (2 * front.length + 2) / 2 - 1 = front.length := by omega
    have hhigh : (2 * front.length + 2) / 2 = front.length + 1 := by omega
    rw [htotal, hlow, hhigh]
    refine ⟨by omega, ?_, ?_⟩
    · rw [List.getElem?_append_right le_rfl, Nat.sub_self]
      rfl
    · rw [List.getElem?_append_right (by omega), Nat.add_sub_cancel_left]
      rfl
  · rintro ⟨heven, hlow, hhigh⟩
    obtain ⟨hi, hlow⟩ := List.getElem?_eq_some_iff.mp hlow
    obtain ⟨hj, hhigh⟩ := List.getElem?_eq_some_iff.mp hhigh
    have hnext : sorted.length / 2 - 1 + 1 = sorted.length / 2 := by omega
    refine ⟨sorted.take (sorted.length / 2 - 1), sorted.drop (sorted.length / 2 + 1), ?_, ?_⟩
    · conv_lhs => rw [← List.take_append_drop (sorted.length / 2 - 1) sorted]
      rw [List.drop_eq_getElem_cons hi, hlow]
      simp only [hnext]
      rw [List.drop_eq_getElem_cons hj, hhigh]
    · rw [List.length_take, List.length_drop]
      omega

/-- The median is computed when the two middle answers have room. -/
theorem middleChecked_eq_some {h : List (Int × Int)} (hp : Present h)
    (hmax : countOf h ≤ i64Max) (hvalues : ∀ v ∈ spread h, 0 ≤ v) {middle : Option Int} :
    middleChecked (countOf h) h = some middle ↔
      (∀ low high, Middles (spread h) low high → low + high ≤ i64Max) ∧ middle = middleOf h := by
  have hcount : countOf h = (spread h).length := (length_spread hp).symm
  have hhalf : idiv (countOf h) 2 = ((spread h).length / 2 : Nat) := by
    rw [hcount]
    exact Int.tdiv_eq_ediv_of_nonneg (Int.natCast_nonneg _)
  have hparity : (countOf h).tmod 2 = ((spread h).length % 2 : Nat) := by
    rw [hcount]
    exact Int.tmod_eq_emod_of_nonneg (Int.natCast_nonneg _)
  have hranks : ∀ position, rankChecked 0 h position = some (rankFrom 0 h position) :=
    rankChecked_eq hp le_rfl (by rwa [zero_add])
  unfold middleChecked middleOf
  dsimp only
  rw [hranks, hranks, hparity]
  by_cases hzero : countOf h = 0
  · rw [if_pos hzero, if_pos hzero, Option.some_inj]
    refine ⟨fun he => ⟨fun low high hm => ?_, he.symm⟩, fun he => he.2.symm⟩
    obtain ⟨-, -, hhigh⟩ := middles_iff.mp hm
    obtain ⟨hj, -⟩ := List.getElem?_eq_some_iff.mp hhigh
    omega
  · rw [if_neg hzero, if_neg hzero]
    by_cases hodd : (((spread h).length % 2 : Nat) : Int) = 1
    · rw [if_pos hodd, if_pos hodd, Option.some_inj]
      refine ⟨fun he => ⟨fun low high hm => ?_, he.symm⟩, fun he => he.2.symm⟩
      obtain ⟨heven, -⟩ := middles_iff.mp hm
      omega
    · have hi : (spread h).length / 2 - 1 < (spread h).length := by omega
      have hj : (spread h).length / 2 < (spread h).length := by omega
      have hlow : rankFrom 0 h (idiv (countOf h) 2 - 1) = some (spread h)[(spread h).length / 2 - 1] := by
        rw [hhalf, rankFrom_eq hp (by omega), ← List.getElem?_eq_getElem hi]
        congr 1
        omega
      have hhigh : rankFrom 0 h (idiv (countOf h) 2) = some (spread h)[(spread h).length / 2] := by
        rw [hhalf, rankFrom_eq hp (by omega), ← List.getElem?_eq_getElem hj]
        congr 1
      have hmiddles : ∀ low high, Middles (spread h) low high ↔
          (spread h)[(spread h).length / 2 - 1] = low ∧ (spread h)[(spread h).length / 2] = high := by
        intro low high
        rw [middles_iff, List.getElem?_eq_getElem hi, List.getElem?_eq_getElem hj, Option.some_inj,
          Option.some_inj]
        exact and_iff_right (by omega)
      have hnonneg : 0 ≤ (spread h)[(spread h).length / 2 - 1] + (spread h)[(spread h).length / 2] :=
        add_nonneg (hvalues _ (List.getElem_mem hi)) (hvalues _ (List.getElem_mem hj))
      rw [if_neg hodd, if_neg hodd, hlow, hhigh]
      simp only [Option.bind_eq_bind, Option.bind_some, meanChecked, Option.map_eq_some_iff,
        i64_count hnonneg, hmiddles]
      constructor
      · rintro ⟨sum, ⟨hsum, rfl⟩, rfl⟩
        refine ⟨?_, rfl⟩
        rintro low high ⟨rfl, rfl⟩
        exact hsum
      · rintro ⟨hsum, rfl⟩
        exact ⟨_, ⟨hsum _ _ ⟨rfl, rfl⟩, rfl⟩, rfl⟩

/-- The loss is computed when its product has room. -/
theorem lossChecked_eq_some {count lost : Int} (hcount : 0 ≤ count) {loss : Option Int} :
    lossChecked count lost = some loss ↔ (0 < lost → 100 * lost + (count + lost) ≤ i64Max) ∧
      loss = if lost > 0 then some (idiv (100 * lost + (count + lost) - 1) (count + lost)) else none := by
  unfold lossChecked
  by_cases hlost : lost > 0
  · rw [if_pos hlost, if_pos hlost]
    simp only [Option.bind_eq_bind, Option.bind_eq_some_iff, Option.some_inj]
    constructor
    · rintro ⟨total, htotal, product, hproduct, sum, hsum, rounded, hrounded, rfl⟩
      obtain ⟨-, rfl⟩ := (i64_count (by omega)).mp htotal
      obtain ⟨-, rfl⟩ := (i64_count (by omega)).mp hproduct
      obtain ⟨hmax, rfl⟩ := (i64_count (by omega)).mp hsum
      obtain ⟨-, rfl⟩ := (i64_count (by omega)).mp hrounded
      exact ⟨fun _ => hmax, rfl⟩
    · rintro ⟨hmax, rfl⟩
      have hmax := hmax hlost
      exact ⟨_, i64_of (by omega) (by omega), _, i64_of (by omega) (by omega), _,
        i64_of (by omega) (by omega), _, i64_of (by omega) (by omega), rfl⟩
  · rw [if_neg hlost, if_neg hlost, Option.some_inj]
    exact ⟨fun he => ⟨fun hpos => absurd hpos hlost, he.symm⟩, fun he => he.2.symm⟩

/-- One probe of a bucket is closed exactly when its readings leave room. -/
theorem closeChecked_eq_some {b : PingBucket} {readings : Multiset Int} (h : Gathers b readings)
    {ts : Int} {p : PingPoint} :
    closeChecked ts b = some p ↔ Room readings ∧ p = plainPoint ts b.task readings := by
  obtain ⟨hpresent, hanswers⟩ := h.sorted
  rw [← closeProbe_eq h]
  unfold closeChecked closeProbe
  generalize (b.answered.mergeSort fun x y => decide (x.1 < y.1 ∨ (x.1 = y.1 ∧ x.2 ≤ y.2))) =
    sorted at *
  have hcount : countOf sorted = (answers readings).length := by
    rw [← hanswers]
    exact (length_spread hpresent).symm
  have hcard : countOf sorted + b.lost = (readings.card : Int) := by
    have hsplit := card_split readings
    rw [hcount, h.lost]
    omega
  have hnonneg := countOf_nonneg hpresent
  have hvalues : ∀ v ∈ spread sorted, 0 ≤ v := by
    intro v hv
    rw [hanswers, answers, inOrder, Multiset.mem_sort] at hv
    exact (Multiset.mem_filter.mp hv).2
  simp only [Option.bind_eq_bind, Option.bind_eq_some_iff, Option.some_inj, countChecked]
  have hstart : (0 : Int) ≤ 0 ∧ (0 : Int) ≤ i64Max := by decide
  constructor
  · rintro ⟨count, hsum, middle, hmiddle, loss, hloss, rfl⟩
    obtain ⟨hmax, rfl⟩ := (countChecked_from hpresent hstart).mp hsum
    rw [zero_add] at hmax hmiddle hloss
    obtain ⟨hmiddles, rfl⟩ := (middleChecked_eq_some hpresent hmax hvalues).mp hmiddle
    obtain ⟨hproduct, rfl⟩ := (lossChecked_eq_some hnonneg).mp hloss
    rw [hanswers] at hmiddles
    rw [hcard, h.lost] at hproduct
    exact ⟨⟨hcount ▸ hmax, hmiddles, fun hpos => hproduct (by omega)⟩, rfl⟩
  · rintro ⟨⟨hmax, hmiddles, hproduct⟩, rfl⟩
    rw [← hcount] at hmax
    rw [← hanswers] at hmiddles
    refine ⟨countOf sorted, ?_, _, (middleChecked_eq_some hpresent hmax hvalues).mpr ⟨hmiddles, rfl⟩,
      _, (lossChecked_eq_some hnonneg).mpr ⟨fun hpos => ?_, rfl⟩, rfl⟩
    · exact (countChecked_from hpresent hstart).mpr ⟨by rwa [zero_add], (zero_add _).symm⟩
    · rw [hcard, h.lost]
      exact hproduct (by have hlost := h.lost; omega)

/-! ## The loop -/

/-- Where each element is computed exactly under a condition, so is the list. -/
theorem mapM_eq_some {α β : Type} {f : α → Option β} {g : α → β} {P : α → Prop} {l : List α}
    (hf : ∀ x ∈ l, ∀ y, f x = some y ↔ P x ∧ y = g x) {ys : List β} :
    l.mapM f = some ys ↔ (∀ x ∈ l, P x) ∧ ys = l.map g := by
  induction l generalizing ys with
  | nil =>
    rw [List.mapM_nil]
    exact ⟨fun h => ⟨nofun, (Option.some.inj h).symm⟩, fun h => congrArg some h.2.symm⟩
  | cons x rest ih =>
    have hx := hf x List.mem_cons_self
    have hrest := @ih fun y hy => hf y (List.mem_cons_of_mem x hy)
    rw [List.mapM_cons, Option.bind_eq_bind, Option.bind_eq_some_iff, List.map_cons]
    constructor
    · rintro ⟨y, hy, htail⟩
      obtain ⟨zs, hzs, htail⟩ := Option.bind_eq_some_iff.mp htail
      obtain ⟨hP, rfl⟩ := (hx y).mp hy
      obtain ⟨hall, rfl⟩ := hrest.mp hzs
      refine ⟨?_, (Option.some.inj htail).symm⟩
      rintro z hz
      rcases List.mem_cons.mp hz with rfl | hz
      · exact hP
      · exact hall z hz
    · rintro ⟨hall, rfl⟩
      refine ⟨g x, (hx _).mpr ⟨hall x List.mem_cons_self, rfl⟩, Option.bind_eq_some_iff.mpr
        ⟨rest.map g, hrest.mpr ⟨fun z hz => hall z (List.mem_cons_of_mem x hz), rfl⟩, rfl⟩⟩

/-- A bucket is closed exactly when the readings of each of its probes leave room. -/
theorem closeBucketChecked_eq_some {opened : List PingBucket} {rows : List PingRow}
    (h : Open opened rows) {ts : Int} {out : List PingPoint} :
    closeBucketChecked opened ts = some out ↔
      (∀ t ∈ rows.map PingRow.task, Room (readingsOf (ofTask rows t))) ∧
        out = closeBucket opened ts := by
  have hperm := opened.mergeSort_perm fun x y => decide (x.task ≤ y.task)
  have hprobe : ∀ b ∈ opened.mergeSort fun x y => decide (x.task ≤ y.task), ∀ p,
      closeChecked ts b = some p ↔ Room (readingsOf (ofTask rows b.task)) ∧ p = closeProbe ts b := by
    intro b hb p
    have hgathers := h.gathers b (hperm.mem_iff.mp hb)
    rw [closeChecked_eq_some hgathers, closeProbe_eq hgathers]
  rw [closeBucketChecked, mapM_eq_some hprobe, closeBucket]
  refine and_congr_left fun _ => ⟨fun hall t ht => ?_, fun hall b hb => ?_⟩
  · obtain ⟨b, hb, rfl⟩ := List.mem_map.mp ((h.mem t).mpr ht)
    exact hall b (hperm.mem_iff.mpr hb)
  · exact hall b.task ((h.mem b.task).mp (List.mem_map_of_mem (hperm.mem_iff.mp hb)))

/-- A row that fits is added. -/
theorem addChecked_eq {b : PingBucket} {row : PingRow} (hlost : 0 ≤ b.lost)
    (hrow : 0 < row.samples) (hmax : b.lost + row.samples ≤ i64Max) :
    addChecked b row = some (b.add row) := by
  unfold addChecked PingBucket.add
  rw [i64_of (by omega) hmax]
  split <;> rfl

/-- A row is filed when the losses of its probe have room for it. -/
theorem fileChecked_eq {opened : List PingBucket} {row : PingRow} (hrow : 0 < row.samples)
    (hsamples : row.samples ≤ i64Max) (hlost : ∀ b ∈ opened, b.task = row.task →
      0 ≤ b.lost ∧ b.lost + row.samples ≤ i64Max) :
    fileChecked opened row = some (fileRow opened row) := by
  induction opened with
  | nil =>
    rw [fileChecked, addChecked_eq le_rfl hrow (by dsimp only; omega), Option.map_some, fileRow]
  | cons b rest ih =>
    rw [fileChecked, fileRow]
    split_ifs with htask
    · obtain ⟨hnonneg, hmax⟩ := hlost b List.mem_cons_self htask
      rw [addChecked_eq hnonneg hrow hmax, Option.map_some]
    · rw [ih fun c hc => hlost c (List.mem_cons_of_mem b hc), Option.map_some]

/-- The readings of a pair leave room. -/
def RoomAt (rows : List PingRow) (k : Int ×ₗ Int) : Prop :=
  Room (readingsOf (ofTask (ofBucket rows (ofLex k).1) (ofLex k).2))

/-- One more row brings readings to its own probe. -/
theorem card_ofTask_concat (rows : List PingRow) {row : PingRow} (hrow : 0 < row.samples) (t : Int) :
    ((readingsOf (ofTask (rows ++ [row]) t)).card : Int) =
      if row.task = t then (readingsOf (ofTask rows t)).card + row.samples
      else (readingsOf (ofTask rows t)).card := by
  rw [ofTask_concat]
  split_ifs
  · rw [readingsOf_concat, Multiset.card_add, Multiset.card_replicate]
    omega
  · rfl

/-- What a probe lost in a bucket it lost in the window. -/
theorem lost_le {opened : List PingBucket} {rows : List PingRow} {bucket : Int}
    (h : Open opened (ofBucket rows bucket)) {b : PingBucket} (hb : b ∈ opened) :
    0 ≤ b.lost ∧ b.lost ≤ (readingsOf (ofTask rows b.task)).card := by
  rw [(h.gathers b hb).lost]
  refine ⟨Int.natCast_nonneg _, Nat.cast_le.mpr ?_⟩
  refine (Multiset.card_le_card (Multiset.filter_le _ _)).trans ?_
  have hsub : (ofTask (ofBucket rows bucket) b.task).Sublist (ofTask rows b.task) :=
    List.filter_sublist.filter _
  rw [readingsOf, readingsOf, Multiset.coe_card, Multiset.coe_card]
  exact ((hsub.map _).flatMap _).length_le

/-- The open bucket is closed exactly when its readings leave room. -/
theorem closeOpen_eq_some {rows : List PingRow} {s : Reading} (h : Read rows s)
    {out : List PingPoint} : closeBucketChecked s.opened s.bucket = some out ↔
      (∀ k ∈ pairsOf rows, (ofLex k).1 = s.bucket → RoomAt rows k) ∧
        out = closeBucket s.opened s.bucket := by
  rw [closeBucketChecked_eq_some h.opened]
  refine and_congr_left fun _ => ⟨fun hrooms k hk hbucket => ?_, fun hrooms t ht => ?_⟩
  · obtain ⟨r, hr, rfl⟩ := mem_pairsOf.mp hk
    have hroom := hrooms r.task (List.mem_map_of_mem
      (List.mem_filter.mpr ⟨hr, decide_eq_true hbucket⟩))
    rw [RoomAt, hbucket]
    exact hroom
  · obtain ⟨r, hr, rfl⟩ := List.mem_map.mp ht
    obtain ⟨hin, hbucket⟩ := List.mem_filter.mp hr
    have hbucket := of_decide_eq_true hbucket
    have hroom := hrooms (pairOf r) (mem_pairsOf.mpr ⟨r, hin, rfl⟩) hbucket
    rw [← hbucket]
    exact hroom

/-- One row is read exactly when its probe's readings have room in the window and,
if it ends a bucket, those of the bucket leave room. -/
theorem nextChecked_eq_some {rows : List PingRow} {s s' : Reading} (h : Read rows s)
    {row : PingRow} (hrow : 0 < row.samples) (hb : ∀ r ∈ rows, r.bucket ≤ row.bucket) :
    nextChecked s row = some s' ↔
      ((readingsOf (ofTask rows row.task)).card + row.samples ≤ i64Max ∧
        (row.bucket ≠ s.bucket → ∀ k ∈ pairsOf rows, (ofLex k).1 = s.bucket → RoomAt rows k)) ∧
      s' = s.next row := by
  have hturn : ∀ t, turnChecked s row.bucket = some t ↔
      (row.bucket ≠ s.bucket → ∀ k ∈ pairsOf rows, (ofLex k).1 = s.bucket → RoomAt rows k) ∧
        t = s.turn row.bucket := by
    intro t
    unfold turnChecked Reading.turn
    by_cases hsame : row.bucket = s.bucket
    · rw [if_neg (not_not.mpr hsame), if_neg (not_not.mpr hsame), Option.some_inj]
      exact ⟨fun he => ⟨fun hne => absurd hsame hne, he.symm⟩, fun he => he.2.symm⟩
    · rw [if_pos hsame, if_pos hsame]
      simp only [Option.map_eq_some_iff, closeOpen_eq_some h]
      constructor
      · rintro ⟨out, ⟨hrooms, rfl⟩, rfl⟩
        exact ⟨fun _ => hrooms, rfl⟩
      · rintro ⟨hrooms, rfl⟩
        exact ⟨_, ⟨hrooms hsame, rfl⟩, rfl⟩
  obtain ⟨hbucket, htotals, hopened, -⟩ := h.turn hb
  have hseen : (s.turn row.bucket).totals row.task =
      ((lostOf (readingsOf (ofTask rows row.task)) : Int),
        ((readingsOf (ofTask rows row.task)).card : Int)) := by
    rw [htotals, h.totals]
  have hless : (lostOf (readingsOf (ofTask rows row.task)) : Int) ≤
      (readingsOf (ofTask rows row.task)).card :=
    Nat.cast_le.mpr (Multiset.card_le_card (Multiset.filter_le _ _))
  have hfile : (readingsOf (ofTask rows row.task)).card + row.samples ≤ i64Max →
      fileChecked (s.turn row.bucket).opened row = some (fileRow (s.turn row.bucket).opened row) := by
    intro hmax
    refine fileChecked_eq hrow (by omega) fun b hb htask => ?_
    have hle := lost_le hopened hb
    rw [htask] at hle
    omega
  have hnext : (s.next row) = { s.turn row.bucket with
      opened := fileRow (s.turn row.bucket).opened row
      totals := Function.update (s.turn row.bucket).totals row.task
        (if row.latency < 0 then ((s.turn row.bucket).totals row.task).1 + row.samples
          else ((s.turn row.bucket).totals row.task).1,
          ((s.turn row.bucket).totals row.task).2 + row.samples) } := rfl
  have hlostSum : (readingsOf (ofTask rows row.task)).card + row.samples ≤ i64Max →
      lostChecked (lostOf (readingsOf (ofTask rows row.task))) row =
      some (if row.latency < 0 then lostOf (readingsOf (ofTask rows row.task)) + row.samples
        else (lostOf (readingsOf (ofTask rows row.task)) : Int)) := by
    intro hmax
    unfold lostChecked
    split_ifs
    · exact i64_of (by omega) (by omega)
    · rfl
  unfold nextChecked
  simp only [Option.bind_eq_bind, Option.bind_eq_some_iff, hturn]
  constructor
  · rintro ⟨samples, hsamples, t, ⟨hrooms, rfl⟩, all, hall, opened, hopen, lost, hlost, hdone⟩
    obtain ⟨-, rfl⟩ := (i64_count hrow.le).mp hsamples
    rw [hseen] at hall hlost
    obtain ⟨hmax, rfl⟩ := (i64_count (by dsimp only; omega)).mp hall
    rw [hfile hmax, Option.some_inj] at hopen
    rw [hlostSum hmax, Option.some_inj] at hlost
    refine ⟨⟨hmax, hrooms⟩, ?_⟩
    rw [← Option.some.inj hdone, hnext, hseen, hopen, hlost]
  · rintro ⟨⟨hmax, hrooms⟩, rfl⟩
    refine ⟨row.samples, i64_of hrow.le (by omega), _, ⟨hrooms, rfl⟩,
      (readingsOf (ofTask rows row.task)).card + row.samples, ?_, _, hfile hmax,
      if row.latency < 0 then lostOf (readingsOf (ofTask rows row.task)) + row.samples
        else lostOf (readingsOf (ofTask rows row.task)), ?_, ?_⟩
    · rw [hseen]
      exact i64_of (by omega) hmax
    · rw [hseen]
      exact hlostSum hmax
    · rw [hnext, hseen]

/-- The window of every probe has room. -/
def WindowFits (rows : List PingRow) : Prop :=
  ∀ t, ((readingsOf (ofTask rows t)).card : Int) ≤ i64Max

/-- A row is no matter of another bucket. -/
theorem roomAt_concat {rows : List PingRow} {row : PingRow} {k : Int ×ₗ Int}
    (h : (ofLex k).1 ≠ row.bucket) : RoomAt (rows ++ [row]) k ↔ RoomAt rows k := by
  rw [RoomAt, RoomAt, ofBucket_concat, if_neg h.symm]

/-- A row adds no pair to the buckets before its own. -/
theorem mem_pairsOf_concat {rows : List PingRow} {row : PingRow} {k : Int ×ₗ Int}
    (h : (ofLex k).1 < row.bucket) : k ∈ pairsOf (rows ++ [row]) ↔ k ∈ pairsOf rows := by
  rw [mem_pairsOf, mem_pairsOf]
  constructor
  · rintro ⟨r, hr, rfl⟩
    rcases List.mem_append.mp hr with hr | hr
    · exact ⟨r, hr, rfl⟩
    · rw [List.mem_singleton.mp hr] at h
      exact absurd h (lt_irrefl _)
  · rintro ⟨r, hr, hk⟩
    exact ⟨r, List.mem_append_left _ hr, hk⟩

/-- A row takes room in the window of its probe. -/
theorem windowFits_concat (rows : List PingRow) {row : PingRow} (hrow : 0 < row.samples) :
    WindowFits (rows ++ [row]) ↔ WindowFits rows ∧
      (readingsOf (ofTask rows row.task)).card + row.samples ≤ i64Max := by
  unfold WindowFits
  constructor
  · intro h
    refine ⟨fun t => ?_, ?_⟩
    · have ht := h t
      rw [card_ofTask_concat rows hrow] at ht
      split_ifs at ht <;> omega
    · have ht := h row.task
      rwa [card_ofTask_concat rows hrow, if_pos rfl] at ht
  · rintro ⟨h, hsum⟩ t
    rw [card_ofTask_concat rows hrow]
    split_ifs with ht
    · rwa [← ht]
    · exact h t

/-- No bucket is later than the open one, and that is no later than the next row. -/
theorem bucket_between {rows : List PingRow} {s : Reading} (h : Read rows s) {bucket : Int}
    (hbefore : ∀ r ∈ rows, r.bucket ≤ bucket) {k : Int ×ₗ Int} (hk : k ∈ pairsOf rows) :
    (ofLex k).1 ≤ s.bucket ∧ s.bucket ≤ bucket := by
  obtain ⟨r, hr, rfl⟩ := mem_pairsOf.mp hk
  refine ⟨h.bound r hr, ?_⟩
  rcases h.attained with hnone | ⟨last, hlast, heq⟩
  · rw [hnone] at hr
    cases hr
  · rw [← heq]
    exact hbefore last hlast

/-- The loop runs through exactly when every window has room and the finished
buckets leave room. -/
theorem foldChecked_eq_some {rows : List PingRow} (hcounts : ∀ r ∈ rows, 0 < r.samples)
    (htime : rows.Pairwise fun r s => r.bucket ≤ s.bucket) {s : Reading} :
    rows.foldlM nextChecked .start = some s ↔
      (WindowFits rows ∧ ∀ k ∈ pairsOf rows,
        (ofLex k).1 < (rows.foldl Reading.next .start).bucket → RoomAt rows k) ∧
      s = rows.foldl Reading.next .start := by
  induction rows using List.reverseRecOn generalizing s with
  | nil =>
    rw [List.foldlM_nil, List.foldl_nil]
    constructor
    · intro h
      refine ⟨⟨fun t => ?_, fun k hk => ?_⟩, (Option.some.inj h).symm⟩
      · exact (by decide : (0 : Int) ≤ i64Max)
      · obtain ⟨r, hr, -⟩ := mem_pairsOf.mp hk
        cases hr
    · rintro ⟨-, rfl⟩
      rfl
  | append_singleton front row ih =>
    obtain ⟨hfront, -, hlast⟩ := List.pairwise_append.mp htime
    have hbefore : ∀ r ∈ front, r.bucket ≤ row.bucket := fun r hr =>
      hlast r hr row List.mem_cons_self
    have hrow : 0 < row.samples := hcounts row (List.mem_append_right _ List.mem_cons_self)
    have hpos : ∀ r ∈ front, 0 < r.samples := fun r hr => hcounts r (List.mem_append_left _ hr)
    have hread := read_rows hpos hfront
    have hbucket : ((front.foldl Reading.next .start).next row).bucket = row.bucket :=
      (hread.turn hbefore).1
    have hone : ∀ t : Reading, [row].foldlM nextChecked t = nextChecked t row := by
      intro t
      rw [List.foldlM_cons]
      cases nextChecked t row <;> rfl
    rw [List.foldlM_append, Option.bind_eq_bind, Option.bind_eq_some_iff, List.foldl_append,
      List.foldl_cons, List.foldl_nil, hbucket, windowFits_concat front hrow]
    simp only [hone, ih hpos hfront]
    constructor
    · rintro ⟨t, ⟨⟨hfits, hrooms⟩, rfl⟩, hnext⟩
      obtain ⟨⟨hsum, hfinished⟩, rfl⟩ := (nextChecked_eq_some hread hrow hbefore).mp hnext
      refine ⟨⟨⟨hfits, hsum⟩, fun k hk hlt => ?_⟩, rfl⟩
      have hin := (mem_pairsOf_concat hlt).mp hk
      obtain ⟨hle, hafter⟩ := bucket_between hread hbefore hin
      rw [roomAt_concat hlt.ne]
      rcases hle.lt_or_eq with hearlier | hsame
      · exact hrooms k hin hearlier
      · exact hfinished (by omega) k hin hsame
    · rintro ⟨⟨⟨hfits, hsum⟩, hrooms⟩, rfl⟩
      have hleft : ∀ k ∈ pairsOf front, (ofLex k).1 < row.bucket → RoomAt front k :=
        fun k hk hlt =>
          (roomAt_concat hlt.ne).mp (hrooms k ((mem_pairsOf_concat hlt).mpr hk) hlt)
      refine ⟨_, ⟨⟨hfits, fun k hk hlt => ?_⟩, rfl⟩,
        (nextChecked_eq_some hread hrow hbefore).mpr ⟨⟨hsum, fun hne k hk hsame => ?_⟩, rfl⟩⟩
      · have hafter := (bucket_between hread hbefore hk).2
        exact hleft k hk (by omega)
      · have hafter := (bucket_between hread hbefore hk).2
        exact hleft k hk (by omega)

/-- All of it runs through exactly when every window and every bucket has room. -/
theorem readChecked_eq_some {rows : List PingRow} (hcounts : ∀ r ∈ rows, 0 < r.samples)
    (htime : rows.Pairwise fun r s => r.bucket ≤ s.bucket)
    {answer : List PingPoint × (Int → Option Rat)} : readChecked rows = some answer ↔
      (WindowFits rows ∧ ∀ k ∈ pairsOf rows, RoomAt rows k) ∧ answer = readRows rows := by
  have hread := read_rows hcounts htime
  unfold readChecked readRows
  simp only [Option.bind_eq_bind, Option.bind_eq_some_iff, foldChecked_eq_some hcounts htime]
  constructor
  · rintro ⟨s, ⟨⟨hfits, hrooms⟩, rfl⟩, closed, hclosed, hanswer⟩
    obtain ⟨hopen, rfl⟩ := (closeOpen_eq_some hread).mp hclosed
    refine ⟨⟨hfits, fun k hk => ?_⟩, (Option.some.inj hanswer).symm⟩
    obtain ⟨r, hr, rfl⟩ := mem_pairsOf.mp hk
    have hbound : (ofLex (pairOf r)).1 ≤ (rows.foldl Reading.next .start).bucket := hread.bound r hr
    rcases hbound.lt_or_eq with hearlier | hlast
    · exact hrooms _ hk hearlier
    · exact hopen _ hk hlast
  · rintro ⟨⟨hfits, hrooms⟩, rfl⟩
    exact ⟨_, ⟨⟨hfits, fun k hk _ => hrooms k hk⟩, rfl⟩, _,
      (closeOpen_eq_some hread).mpr ⟨fun k hk _ => hrooms k hk, rfl⟩, rfl⟩

/-! ## The median lies between the answers -/

/-- The median of sorted answers is not outside of them. -/
theorem plainMedian_between {sorted : List Int} (hs : sorted.Pairwise (· ≤ ·))
    (hnonneg : ∀ v ∈ sorted, 0 ≤ v) {median : Int} (h : plainMedian sorted = some median) :
    ∃ low high, sorted.head? = some low ∧ sorted.getLast? = some high ∧
      low ≤ median ∧ median ≤ high := by
  have hne : sorted ≠ [] := by
    rintro rfl
    cases h
  have hlength := List.length_pos_iff.mpr hne
  have hmono : ∀ i j (hi : i < sorted.length) (hj : j < sorted.length), i ≤ j →
      sorted[i] ≤ sorted[j] := by
    intro i j hi hj hij
    rcases hij.lt_or_eq with hlt | rfl
    · exact List.pairwise_iff_getElem.mp hs i j hi hj hlt
    · exact le_rfl
  have hi : sorted.length / 2 - 1 < sorted.length := by omega
  have hj : sorted.length / 2 < sorted.length := by omega
  refine ⟨sorted[0], sorted[sorted.length - 1], ?_, ?_, ?_⟩
  · rw [List.head?_eq_getElem?, List.getElem?_eq_getElem hlength]
  · rw [List.getLast?_eq_getElem?, List.getElem?_eq_getElem (by omega)]
  · unfold plainMedian at h
    dsimp only at h
    rw [if_neg hlength.ne', List.getElem?_eq_getElem hi, List.getElem?_eq_getElem hj] at h
    split_ifs at h
    · rw [← Option.some.inj h]
      exact ⟨hmono _ _ _ _ (Nat.zero_le _), hmono _ _ _ _ (by omega)⟩
    · have hfirst := hmono 0 _ hlength hi (Nat.zero_le _)
      have hmiddle := hmono _ _ hi hj (by omega)
      have hend := hmono _ (sorted.length - 1) hj (by omega) (by omega)
      have hlow := hnonneg _ (List.getElem_mem hi)
      rw [← Option.some.inj h, idiv, Int.tdiv_eq_ediv_of_nonneg (by omega)]
      omega

/-! ## What is stored -/

/-- The stored readings leave room: no window of a probe has more of them than a
count can hold, no bucket loses so many that the product of the percentage
overflows, and no even number of answers has two middle ones that add up to more
than the largest latency. -/
structure Fits (db : Store) (n since width : Int) : Prop where
  /-- The readings of the window can be counted. -/
  window : ∀ task, ((readingsOfProbe (singles db n since) task).card : Int) ≤ i64Max
  /-- Every share that was lost can be rounded up. -/
  loss : ∀ b task, 0 < lostOf (readingsIn (singles db n since) width b task) →
    100 * (lostOf (readingsIn (singles db n since) width b task) : Int) +
      (readingsIn (singles db n since) width b task).card ≤ i64Max
  /-- Every two middle answers can be added. -/
  middle : ∀ b task low high,
    Middles (answers (readingsIn (singles db n since) width b task)) low high → low + high ≤ i64Max

/-- Every step of the computation stays in 64 bits, and every median lies between
the smallest and the largest answer of its bucket. -/
def InRange (db : Store) (n since step : Int) : Prop :=
  ∀ width,
    historyStep (decide (∃ r ∈ db.pingHour.rows, r.nodeId = n ∧ r.ts ≥ since)) step = .ok width →
    ∃ answer, readChecked (pingRows db n since width) = some answer ∧
      ∀ p ∈ answer.1, ∀ median, p.latency = some median →
        ∃ low high,
          (answers (readingsIn (singles db n since) width p.ts p.taskId)).head? = some low ∧
          (answers (readingsIn (singles db n since) width p.ts p.taskId)).getLast? = some high ∧
          low ≤ median ∧ median ≤ high

section Stored

variable (db : Store) (n since width : Int)

/-- A store fits just when its rows do. -/
theorem fits_iff : Fits db n since width ↔ WindowFits (pingRows db n since width) ∧
    ∀ k ∈ pairsOf (pingRows db n since width), RoomAt (pingRows db n since width) k := by
  have hroom : ∀ k, RoomAt (pingRows db n since width) k ↔
      Room (readingsIn (singles db n since) width (ofLex k).1 (ofLex k).2) := by
    intro k
    rw [RoomAt, readingsOf_bucket]
  have hwindow : WindowFits (pingRows db n since width) ↔
      ∀ task, ((readingsOfProbe (singles db n since) task).card : Int) ≤ i64Max := by
    refine forall_congr' fun task => ?_
    rw [readingsOf_probe]
  rw [hwindow, pairsOf_rows]
  simp only [hroom]
  constructor
  · intro h
    refine ⟨h.window, fun k _ => ⟨?_, h.middle _ _, h.loss _ _⟩⟩
    have hsplit := card_split (readingsIn (singles db n since) width (ofLex k).1 (ofLex k).2)
    have hsub : (readingsIn (singles db n since) width (ofLex k).1 (ofLex k).2).card ≤
        (readingsOfProbe (singles db n since) (ofLex k).2).card :=
      Multiset.card_le_card (Multiset.map_le_map
        (Multiset.monotone_filter_right _ fun r hr => hr.2))
    have hmax := h.window (ofLex k).2
    omega
  · rintro ⟨hmax, hrooms⟩
    -- A pair without a reading has neither a loss nor a middle.
    have hempty : ∀ b task, toLex (b, task) ∉ pairsIn (singles db n since) width →
        readingsIn (singles db n since) width b task = 0 := by
      intro b task hnot
      rw [readingsIn, Multiset.filter_eq_nil.mpr, Multiset.map_zero]
      rintro r hr ⟨hb, ht⟩
      refine hnot (Multiset.mem_toFinset.mpr (Multiset.mem_map.mpr ⟨r, hr, ?_⟩))
      rw [hb, ht]
    refine ⟨hmax, fun b task hlost => ?_, fun b task low high hm => ?_⟩
    · by_cases hin : toLex (b, task) ∈ pairsIn (singles db n since) width
      · exact (hrooms _ hin).loss hlost
      · rw [hempty b task hin] at hlost
        exact absurd hlost (lt_irrefl 0)
    · by_cases hin : toLex (b, task) ∈ pairsIn (singles db n since) width
      · exact (hrooms _ hin).middle low high hm
      · rw [hempty b task hin] at hm
        obtain ⟨front, back, hnil, -⟩ := hm
        rw [answers, Multiset.filter_zero, inOrder, Multiset.sort_zero] at hnil
        exact absurd hnil.symm (List.append_ne_nil_of_right_ne_nil _ (List.cons_ne_nil _ _))

/-- The statistics of a window stay in range exactly when its readings leave room. -/
theorem inRange_iff (step : Int) : InRange db n since step ↔ ∀ width,
    historyStep (decide (∃ r ∈ db.pingHour.rows, r.nodeId = n ∧ r.ts ≥ since)) step = .ok width →
    Fits db n since width := by
  refine forall_congr' fun width => imp_congr_right fun _ => ?_
  rw [fits_iff]
  simp only [readChecked_eq_some (rows_pos db n since width) (rows_time db n since width)]
  constructor
  · rintro ⟨answer, ⟨hfits, -⟩, -⟩
    exact hfits
  · intro hfits
    refine ⟨_, ⟨hfits, rfl⟩, ?_⟩
    rw [readRows_eq]
    intro p hp median hmedian
    obtain ⟨k, -, rfl⟩ := List.mem_map.mp hp
    refine plainMedian_between (Multiset.pairwise_sort _ _) ?_ hmedian
    intro v hv
    rw [Multiset.mem_sort] at hv
    exact (Multiset.mem_filter.mp hv).2

end Stored

/-! ## What is let in -/

/-- A frame with this latency makes `dispatch` file a result with it. -/
def Accepted (latency : Int) : Prop :=
  ∃ rpc : Rpc, ∀ (node : Int) (time : Moment) (s : Session), s.listed = true → s.retired = false →
    ∃ task next, dispatch node time (some rpc) s = .write (.insertPing task time.now latency) next

/-- Every 64-bit latency is let in. -/
theorem accepted_of {latency : Int} (h : i64Min ≤ latency ∧ latency ≤ i64Max) :
    Accepted latency := by
  have hnames : "latency_ms" < "task_id" := by decide
  refine ⟨⟨"ping.result", .obj [("latency_ms", .int latency), ("task_id", .int 1)],
    List.pairwise_pair.mpr hnames⟩, ?_⟩
  intro node time s hlisted hretired
  have hlatency : ((Json.obj [("latency_ms", .int latency), ("task_id", .int 1)]).get
      "latency_ms").bind Json.asInt = some latency := if_pos h
  have htask : ((Json.obj [("latency_ms", .int latency), ("task_id", .int 1)]).get
      "task_id").bind Json.asInt = some 1 := rfl
  unfold dispatch
  dsimp only
  rw [hlisted, hretired, if_neg (by decide), if_neg (by decide), if_neg (by decide), if_pos rfl]
  unfold pingResult
  dsimp only
  rw [hlatency, htask]
  exact ⟨1, _, rfl⟩

/-- The store after results of one node were filed. -/
def collected (n : Int) (db : Store) (results : List PingRecordRow) : Store :=
  results.foldl (fun db r => withResult n r.taskId r.ts r.latency db) db

/-- A store in which one probe is assigned to one node. -/
def probed : Store :=
  { Store.blank with pingNode := (Table.empty PingNodeRow.key).put ⟨1, 1⟩ }

/-- Two results with the largest latency there is. -/
def largest : List PingRecordRow := [⟨1, 1, 0, i64Max⟩, ⟨1, 1, 1, i64Max⟩]

/-- The store after two readings of the largest number. -/
theorem collected_largest : collected 1 probed largest = { probed with
    pingRecord := (probed.pingRecord.put ⟨1, 1, 0, i64Max⟩).put ⟨1, 1, 1, i64Max⟩ } := by
  have hassigned : probed.pingNode.Has (1, 1) := ⟨⟨1, 1⟩, Table.mem_put.mpr (.inl rfl), rfl⟩
  unfold collected largest
  rw [List.foldl_cons, List.foldl_cons, List.foldl_nil, withResult, withResult, if_pos hassigned,
    if_pos hassigned]

/-- Both results of the minute are read. -/
theorem readings_largest : readingsIn (singles (collected 1 probed largest) 1 0) 60 0 1 =
    {i64Max, i64Max} := by
  rw [collected_largest]
  decide

/-- Two results of a minute with the largest latency there is are let in, and the
sum of the two middle ones overflows. -/
theorem largest_overflow : ¬ ∀ (n : Int) (db : Store) (results : List PingRecordRow),
    Unrecorded db → (∀ r ∈ results, Accepted r.latency) →
      ∀ since step, InRange (collected n db results) n since step := by
  intro h
  have haccepted : ∀ r ∈ largest, Accepted r.latency := by
    intro r hr
    simp only [largest, List.mem_cons, List.not_mem_nil, or_false] at hr
    rcases hr with rfl | rfl <;> exact accepted_of (by decide)
  have hrange := h 1 probed largest ⟨rfl, rfl, rfl, rfl⟩ haccepted 0 60
  have hwidth : historyStep (decide (∃ r ∈ (collected 1 probed largest).pingHour.rows,
      r.nodeId = 1 ∧ r.ts ≥ 0)) 60 = .ok 60 := by
    rw [collected_largest]
    rfl
  have hanswers : answers {i64Max, i64Max} = [i64Max, i64Max] := by
    have hlength : (answers {i64Max, i64Max}).length = 2 := by
      rw [answers, inOrder, Multiset.length_sort]
      decide
    have hall : ∀ v ∈ answers {i64Max, i64Max}, v = i64Max := by
      intro v hv
      rw [answers, inOrder, Multiset.mem_sort] at hv
      have hin := Multiset.mem_of_mem_filter hv
      simpa using hin
    exact List.eq_replicate_iff.mpr ⟨hlength, hall⟩
  have hfits := (inRange_iff _ 1 0 60).mp hrange 60 hwidth
  have hmiddle := hfits.middle 0 1 i64Max i64Max
    ⟨[], [], by rw [readings_largest, hanswers]; rfl, rfl⟩
  exact absurd hmiddle (by decide)

end Romi.LatencyRange
