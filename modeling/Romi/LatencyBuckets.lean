import Romi.HistogramRanks
import Romi.HistoryQueries

/-!
# Latency buckets and the plain statistics

`ping_records` counts through histograms and closes a bucket when the next one
begins. Spread out into single readings the same figures are the textbook ones:
the middle of the sorted answers, the lowest and the highest of them, and the
share that was lost. The loop is described by what it has read: what it has put
out are the finished buckets, what is open is the rest.
-/

namespace Romi.LatencyBuckets

open HistogramRanks HistoryQueries HourlyRollup KeyedTable StoreSchema

/-! ## Plain statistics -/

/-- The middle of sorted answers, or the mean of the two middle ones. -/
def plainMedian (sorted : List Int) : Option Int :=
  let n := sorted.length
  if n = 0 then none
  else if n % 2 = 1 then sorted[n / 2]?
  else do
    let low ← sorted[n / 2 - 1]?
    let high ← sorted[n / 2]?
    pure (idiv (low + high) 2)

/-- The lowest and the highest of sorted answers, where they differ. -/
def plainBand (sorted : List Int) : Option (Int × Int) := do
  let low ← sorted.head?
  let high ← sorted.getLast?
  if high > low then some (low, high) else none

/-- The members of a collection in ascending order. -/
def inOrder {α : Type} [LinearOrder α] (s : Multiset α) : List α := s.sort

/-- The answers among readings, sorted. -/
def answers (readings : Multiset Int) : List Int := inOrder (readings.filter fun l => 0 ≤ l)

/-- How many readings are timeouts. -/
def lostOf (readings : Multiset Int) : Nat := (readings.filter fun l => l < 0).card

/-- The percentage lost, rounded up, where anything was. -/
def plainLoss (readings : Multiset Int) : Option Int :=
  if 0 < lostOf readings then some ⌈(100 * lostOf readings : Rat) / readings.card⌉ else none

/-- The object that describes the readings of one probe in one bucket. -/
def plainPoint (ts task : Int) (readings : Multiset Int) : PingPoint where
  taskId := task
  ts := ts
  latency := plainMedian (answers readings)
  band := plainBand (answers readings)
  loss := plainLoss readings

/-! ## One probe of a finished bucket -/

/-- A rank in a histogram is a place among its readings. -/
theorem rankFrom_eq {h : List (Int × Int)} (hp : Present h) {seen position : Int}
    (hseen : seen ≤ position) : rankFrom seen h position = (spread h)[(position - seen).toNat]? := by
  induction h generalizing seen with
  | nil => rfl
  | cons x rest ih =>
    obtain ⟨value, samples⟩ := x
    have hx : 0 < samples := hp (value, samples) List.mem_cons_self
    unfold rankFrom
    by_cases hpast : seen + samples > position
    · rw [if_pos hpast, getElem?_spread_lt]
      dsimp only
      omega
    · have hindex : (position - (seen + samples)).toNat =
          (position - seen).toNat - samples.toNat := by omega
      rw [if_neg hpast, ih hp.tail (by omega), getElem?_spread_ge hx.le (by dsimp only; omega),
        hindex]

/-- The median of a histogram is that of its readings. -/
theorem middleOf_eq {h : List (Int × Int)} (hp : Present h) :
    middleOf h = plainMedian (spread h) := by
  have hcount : countOf h = (spread h).length := (length_spread hp).symm
  have hhalf : idiv (countOf h) 2 = ((spread h).length / 2 : Nat) := by
    rw [hcount]
    exact Int.tdiv_eq_ediv_of_nonneg (Int.natCast_nonneg _)
  have hparity : (countOf h).tmod 2 = ((spread h).length % 2 : Nat) := by
    rw [hcount]
    exact Int.tmod_eq_emod_of_nonneg (Int.natCast_nonneg _)
  unfold middleOf plainMedian
  dsimp only
  rw [hparity, hhalf, hcount]
  by_cases hzero : (spread h).length = 0
  · rw [if_pos hzero, if_pos (by omega)]
  · rw [if_neg hzero, if_neg (by omega)]
    by_cases hodd : (spread h).length % 2 = 1
    · rw [if_pos hodd, if_pos (by omega), rankFrom_eq hp (by omega)]
      congr 1
    · have hlow : (((spread h).length / 2 : Nat) - 1 - 0 : Int).toNat =
          (spread h).length / 2 - 1 := by omega
      have hhigh : (((spread h).length / 2 : Nat) - 0 : Int).toNat = (spread h).length / 2 := by
        omega
      rw [if_neg hodd, if_neg (by omega), rankFrom_eq hp (by omega), rankFrom_eq hp (by omega),
        hlow, hhigh]

/-- The band of a histogram is that of its readings. -/
theorem bandOf_eq {h : List (Int × Int)} (hp : Present h) : bandOf h = plainBand (spread h) := by
  unfold bandOf plainBand
  rw [head?_spread hp, getLast?_spread hp]
  cases h.head? with
  | none => rfl
  | some low =>
    cases h.getLast? with
    | none => rfl
    | some high => rfl

/-- What one probe has in a bucket stands for these readings. -/
structure Gathers (b : PingBucket) (readings : Multiset Int) : Prop where
  /-- Every latency that is listed was read. -/
  present : Present b.answered
  /-- The answers among the readings are those listed. -/
  answered : readings.filter (fun l => 0 ≤ l) = ↑(spread b.answered)
  /-- The timeouts among them are counted. -/
  lost : b.lost = lostOf readings

/-- A probe without readings. -/
theorem gathers_nothing (task : Int) : Gathers ⟨task, [], 0⟩ 0 :=
  ⟨nofun, rfl, rfl⟩

/-- Readings of one latency are kept or left out together. -/
theorem filter_replicate_of {n : Nat} {l : Int} {p : Int → Prop} [DecidablePred p] (h : p l) :
    (Multiset.replicate n l).filter p = Multiset.replicate n l :=
  Multiset.filter_eq_self.mpr fun x hx => by rwa [Multiset.eq_of_mem_replicate hx]

/-- And where the one is left out so are all. -/
theorem filter_replicate_of_not {n : Nat} {l : Int} {p : Int → Prop} [DecidablePred p]
    (h : ¬ p l) : (Multiset.replicate n l).filter p = 0 :=
  Multiset.filter_eq_nil.mpr fun x hx => by rwa [Multiset.eq_of_mem_replicate hx]

/-- More readings of one latency are timeouts or none is. -/
theorem lostOf_add_replicate (readings : Multiset Int) (n : Nat) (l : Int) :
    lostOf (readings + Multiset.replicate n l) = if l < 0 then lostOf readings + n
      else lostOf readings := by
  rw [lostOf, lostOf, Multiset.filter_add, Multiset.card_add]
  by_cases hlost : l < 0
  · rw [if_pos hlost, @filter_replicate_of n l (fun l => l < 0) _ hlost, Multiset.card_replicate]
  · rw [if_neg hlost, @filter_replicate_of_not n l (fun l => l < 0) _ hlost, Multiset.card_zero, Nat.add_zero]

/-- A row adds its readings. -/
theorem Gathers.add {b : PingBucket} {readings : Multiset Int} (h : Gathers b readings)
    {row : PingRow} (hrow : 0 < row.samples) :
    Gathers (b.add row) (readings + Multiset.replicate row.samples.toNat row.latency) := by
  unfold PingBucket.add
  by_cases hlost : row.latency < 0
  · rw [if_pos hlost]
    refine ⟨h.present, ?_, ?_⟩
    · rw [Multiset.filter_add, h.answered, filter_replicate_of_not (not_le.mpr hlost), add_zero]
    · rw [lostOf_add_replicate, if_pos hlost, Nat.cast_add, Int.toNat_of_nonneg hrow.le, h.lost]
  · rw [if_neg hlost]
    refine ⟨?_, ?_, ?_⟩
    · intro x hx
      rcases List.mem_append.mp hx with hx | hx
      · exact h.present x hx
      · rw [List.mem_singleton.mp hx]
        exact hrow
    · have hone : spread [(row.latency, row.samples)] =
          List.replicate row.samples.toNat row.latency := by
        rw [spread_cons]
        exact List.append_nil _
      rw [Multiset.filter_add, h.answered, filter_replicate_of (not_lt.mp hlost), spread_append,
        hone, ← Multiset.coe_add, Multiset.coe_replicate]
    · rw [lostOf_add_replicate, if_neg hlost, h.lost]

/-- A quotient rounded up by adding one less than the divisor. -/
theorem idiv_roundUp {a : Int} {b : Nat} (ha : 0 ≤ a) (hb : 0 < b) :
    idiv (a + b - 1) b = ⌈(a : Rat) / b⌉ := by
  have hpos : (0 : Int) < b := Int.natCast_pos.mpr hb
  have hdiv := Int.mul_ediv_add_emod (a + b - 1) b
  have hmod := Int.emod_nonneg (a + b - 1) hpos.ne'
  have hlt := Int.emod_lt_of_pos (a + b - 1) hpos
  rw [idiv, Int.tdiv_eq_ediv_of_nonneg (by omega)]
  symm
  rw [Int.ceil_eq_iff]
  have hrat : (0 : Rat) < b := Nat.cast_pos.mpr hb
  rw [lt_div_iff₀ hrat, div_le_iff₀ hrat]
  generalize (a + b - 1) / (b : Int) = q at *
  have hlow : (q - 1) * b < a := by
    rw [sub_mul, one_mul, mul_comm]
    omega
  have hhigh : a ≤ q * b := by
    rw [mul_comm]
    omega
  exact ⟨by exact_mod_cast hlow, by exact_mod_cast hhigh⟩

/-- Every reading is an answer or a timeout. -/
theorem card_split (readings : Multiset Int) :
    (answers readings).length + lostOf readings = readings.card := by
  have hnot : (readings.filter fun l => l < 0) = readings.filter fun l => ¬ 0 ≤ l :=
    Multiset.filter_congr fun l _ => not_le.symm
  rw [answers, inOrder, Multiset.length_sort, lostOf, hnot, ← Multiset.card_add,
    Multiset.filter_add_not]

/-- Sorted histograms are sorted by value. -/
theorem mergeSort_histogram (h : List (Int × Int)) :
    (h.mergeSort fun x y => decide (x.1 < y.1 ∨ (x.1 = y.1 ∧ x.2 ≤ y.2))).Pairwise
      fun x y => x.1 ≤ y.1 := by
  have hpair : (h.mergeSort fun x y => decide (x.1 < y.1 ∨ (x.1 = y.1 ∧ x.2 ≤ y.2))).Pairwise
      fun x y => decide (x.1 < y.1 ∨ (x.1 = y.1 ∧ x.2 ≤ y.2)) = true := by
    refine List.pairwise_mergeSort ?_ ?_ h
    · intro x y z hxy hyz
      rw [decide_eq_true_iff] at hxy hyz ⊢
      omega
    · intro x y
      rw [Bool.or_eq_true, decide_eq_true_iff, decide_eq_true_iff]
      omega
  refine hpair.imp fun hle => ?_
  rw [decide_eq_true_iff] at hle
  omega

/-- Sorting the histogram sorts the readings, and there is one way to sort them. -/
theorem Gathers.sorted {b : PingBucket} {readings : Multiset Int} (h : Gathers b readings) :
    Present (b.answered.mergeSort fun x y => decide (x.1 < y.1 ∨ (x.1 = y.1 ∧ x.2 ≤ y.2))) ∧
    spread (b.answered.mergeSort fun x y => decide (x.1 < y.1 ∨ (x.1 = y.1 ∧ x.2 ≤ y.2))) =
      answers readings := by
  have hperm := b.answered.mergeSort_perm fun x y => decide (x.1 < y.1 ∨ (x.1 = y.1 ∧ x.2 ≤ y.2))
  refine ⟨fun x hx => h.present x (hperm.mem_iff.mp hx), ?_⟩
  refine (List.Perm.trans (spread_perm hperm) ?_).eq_of_pairwise'
    (pairwise_spread (mergeSort_histogram b.answered)) (Multiset.pairwise_sort _ _)
  rw [← Multiset.coe_eq_coe, ← h.answered, answers, inOrder, Multiset.sort_eq]

/-- The object of a finished bucket is that of the plain readings. -/
theorem closeProbe_eq {b : PingBucket} {readings : Multiset Int} (h : Gathers b readings)
    (ts : Int) : closeProbe ts b = plainPoint ts b.task readings := by
  obtain ⟨hpresent, hanswers⟩ := h.sorted
  have hcount : countOf (b.answered.mergeSort fun x y =>
      decide (x.1 < y.1 ∨ (x.1 = y.1 ∧ x.2 ≤ y.2))) = (answers readings).length := by
    rw [← hanswers]
    exact (length_spread hpresent).symm
  have hcard := card_split readings
  have htotal : ((answers readings).length : Int) + lostOf readings = (readings.card : Nat) := by
    omega
  unfold closeProbe plainPoint plainLoss
  dsimp only
  rw [middleOf_eq hpresent, bandOf_eq hpresent, hanswers, hcount, h.lost, htotal]
  congr 1
  by_cases hlost : 0 < lostOf readings
  · rw [if_pos hlost, if_pos (by omega), idiv_roundUp (by omega) (by omega)]
    push_cast
    rfl
  · rw [if_neg hlost, if_neg (by omega)]

/-! ## A finished bucket -/

/-- The readings that rows stand for. -/
def readingsOf (rows : List PingRow) : Multiset Int :=
  ↑(spread (rows.map fun r => (r.latency, r.samples)))

/-- One more row brings its readings. -/
theorem readingsOf_concat (rows : List PingRow) (row : PingRow) : readingsOf (rows ++ [row]) =
    readingsOf rows + Multiset.replicate row.samples.toNat row.latency := by
  have hone : spread ([row].map fun r => (r.latency, r.samples)) =
      List.replicate row.samples.toNat row.latency := List.append_nil _
  rw [readingsOf, List.map_append, spread_append, hone, ← Multiset.coe_add, Multiset.coe_replicate,
    readingsOf]

/-- The rows of one probe. -/
def ofTask (rows : List PingRow) (task : Int) : List PingRow := rows.filter fun r => r.task = task

/-- A selection of rows grows with the rows. -/
theorem filter_concat (p : PingRow → Prop) [DecidablePred p] (rows : List PingRow) (row : PingRow) :
    ((rows ++ [row]).filter fun r => p r) =
      if p row then (rows.filter fun r => p r) ++ [row] else rows.filter fun r => p r := by
  rw [List.filter_append]
  by_cases h : p row
  · rw [if_pos h, List.filter_cons_of_pos (by simpa using h), List.filter_nil]
  · rw [if_neg h, List.filter_cons_of_neg (by simpa using h), List.filter_nil, List.append_nil]

/-- One more row is of the probe or of another. -/
theorem ofTask_concat (rows : List PingRow) (row : PingRow) (task : Int) :
    ofTask (rows ++ [row]) task = if row.task = task then ofTask rows task ++ [row]
      else ofTask rows task := filter_concat (fun r => r.task = task) rows row

/-- What is open is what the rows of the bucket stand for, one entry for each probe. -/
structure Open (opened : List PingBucket) (rows : List PingRow) : Prop where
  /-- No probe is there twice. -/
  nodup : (opened.map PingBucket.task).Nodup
  /-- The probes are those of the rows. -/
  mem : ∀ t, t ∈ opened.map PingBucket.task ↔ t ∈ rows.map PingRow.task
  /-- Each has the readings of its rows. -/
  gathers : ∀ b ∈ opened, Gathers b (readingsOf (ofTask rows b.task))

/-- Without rows nothing is open. -/
theorem open_nothing : Open [] [] := ⟨List.nodup_nil, fun _ => Iff.rfl, nofun⟩

/-- A row does not change whose bucket it is. -/
theorem add_task (b : PingBucket) (row : PingRow) : (b.add row).task = b.task := by
  unfold PingBucket.add
  split <;> rfl

/-- The first row of a probe opens its bucket. -/
theorem fileRow_new {opened : List PingBucket} {row : PingRow}
    (h : row.task ∉ opened.map PingBucket.task) :
    fileRow opened row = opened ++ [PingBucket.add ⟨row.task, [], 0⟩ row] := by
  induction opened with
  | nil => rfl
  | cons b rest ih =>
    rw [List.map_cons, List.mem_cons, not_or] at h
    rw [fileRow, if_neg (Ne.symm h.1), ih h.2, List.cons_append]

/-- A later one is added to it. -/
theorem fileRow_known {front back : List PingBucket} {b : PingBucket} {row : PingRow}
    (hfront : row.task ∉ front.map PingBucket.task) (hb : b.task = row.task) :
    fileRow (front ++ b :: back) row = front ++ b.add row :: back := by
  induction front with
  | nil => rw [List.nil_append, List.nil_append, fileRow, if_pos hb]
  | cons c rest ih =>
    rw [List.map_cons, List.mem_cons, not_or] at hfront
    rw [List.cons_append, fileRow, if_neg (Ne.symm hfront.1), ih hfront.2, List.cons_append]

/-- Filing a row keeps the entries apart and adds its readings to its own. -/
theorem Open.file {opened : List PingBucket} {rows : List PingRow} (h : Open opened rows)
    {row : PingRow} (hrow : 0 < row.samples) : Open (fileRow opened row) (rows ++ [row]) := by
  have hmem : ∀ t, t ∈ (rows ++ [row]).map PingRow.task ↔ t ∈ rows.map PingRow.task ∨ t = row.task := by
    intro t
    rw [List.map_append, List.mem_append, List.map_cons, List.map_nil, List.mem_singleton]
  have hother : ∀ b : PingBucket, b.task ≠ row.task →
      ofTask (rows ++ [row]) b.task = ofTask rows b.task := by
    intro b hb
    rw [ofTask_concat, if_neg hb.symm]
  have hown : ∀ b : PingBucket, b.task = row.task → Gathers b (readingsOf (ofTask rows b.task)) →
      Gathers (b.add row) (readingsOf (ofTask (rows ++ [row]) (b.add row).task)) := by
    intro b hb hg
    rw [add_task, ofTask_concat, if_pos hb.symm, readingsOf_concat]
    exact hg.add hrow
  by_cases hknown : row.task ∈ opened.map PingBucket.task
  · obtain ⟨b, hb, htask⟩ := List.mem_map.mp hknown
    obtain ⟨front, back, rfl⟩ := List.append_of_mem hb
    have hnodup := h.nodup
    rw [List.map_append, List.map_cons, List.nodup_append] at hnodup
    obtain ⟨-, hback, hdisjoint⟩ := hnodup
    have hfront : row.task ∉ front.map PingBucket.task := by
      intro hin
      exact hdisjoint _ hin _ List.mem_cons_self htask.symm
    have htasks : (front ++ b.add row :: back).map PingBucket.task =
        (front ++ b :: back).map PingBucket.task := by
      rw [List.map_append, List.map_append, List.map_cons, List.map_cons, add_task]
    rw [fileRow_known hfront htask]
    refine ⟨htasks ▸ h.nodup, fun t => ?_, fun c hc => ?_⟩
    · rw [htasks, hmem, h.mem]
      have hin := (h.mem row.task).mp hknown
      constructor
      · exact Or.inl
      · rintro (ht | rfl)
        · exact ht
        · exact hin
    · rcases List.mem_append.mp hc with hc | hc
      · have hne : c.task ≠ row.task := fun heq => hfront (heq ▸ List.mem_map_of_mem hc)
        rw [hother c hne]
        exact h.gathers c (List.mem_append_left _ hc)
      · rcases List.mem_cons.mp hc with rfl | hc
        · exact hown b htask (h.gathers b hb)
        · have hne : c.task ≠ row.task := by
            intro heq
            refine (List.nodup_cons.mp hback).1 ?_
            rw [htask, ← heq]
            exact List.mem_map_of_mem hc
          rw [hother c hne]
          exact h.gathers c (List.mem_append_right _ (List.mem_cons_of_mem b hc))
  · rw [fileRow_new hknown]
    refine ⟨?_, fun t => ?_, fun c hc => ?_⟩
    · rw [List.map_append, List.nodup_append]
      refine ⟨h.nodup, List.nodup_singleton _, ?_⟩
      intro t ht u hu htu
      rw [List.map_cons, List.map_nil, List.mem_singleton, add_task] at hu
      have htask : t = row.task := htu.trans hu
      exact hknown (htask ▸ ht)
    · rw [List.map_append, List.mem_append, hmem, h.mem, List.map_cons, List.map_nil,
        List.mem_singleton, add_task]
    · rcases List.mem_append.mp hc with hc | hc
      · have hne : c.task ≠ row.task := fun heq => hknown (heq ▸ List.mem_map_of_mem hc)
        rw [hother c hne]
        exact h.gathers c hc
      · obtain rfl := List.mem_singleton.mp hc
        refine hown ⟨row.task, [], 0⟩ rfl ?_
        -- A probe that is not open has no row in the bucket yet.
        have hnone : ofTask rows row.task = [] := by
          rw [ofTask, List.filter_eq_nil_iff]
          intro r hr heq
          refine hknown ((h.mem row.task).mpr ?_)
          rw [← of_decide_eq_true heq]
          exact List.mem_map_of_mem hr
        dsimp only
        rw [hnone]
        exact gathers_nothing row.task

/-- Closing a bucket puts out one object for each of its probes, in order. -/
theorem closeBucket_eq {opened : List PingBucket} {rows : List PingRow} (h : Open opened rows)
    (ts : Int) : closeBucket opened ts = ((rows.map PingRow.task).toFinset.sort).map fun t =>
      plainPoint ts t (readingsOf (ofTask rows t)) := by
  have hperm := opened.mergeSort_perm fun x y => decide (x.task ≤ y.task)
  have hpair : (opened.mergeSort fun x y => decide (x.task ≤ y.task)).Pairwise
      fun x y => decide (x.task ≤ y.task) = true := by
    refine List.pairwise_mergeSort ?_ ?_ opened
    · intro x y z hxy hyz
      rw [decide_eq_true_iff] at hxy hyz ⊢
      exact hxy.trans hyz
    · intro x y
      rw [Bool.or_eq_true, decide_eq_true_iff, decide_eq_true_iff]
      exact le_total _ _
  have hsorted : ((opened.mergeSort fun x y => decide (x.task ≤ y.task)).map
      PingBucket.task).Pairwise (· ≤ ·) := by
    rw [List.pairwise_map]
    exact hpair.imp fun hle => of_decide_eq_true hle
  have htasks : (opened.mergeSort fun x y => decide (x.task ≤ y.task)).map PingBucket.task =
      (rows.map PingRow.task).toFinset.sort := by
    refine List.Perm.eq_of_pairwise' hsorted (Finset.pairwise_sort _ _) ?_
    rw [List.perm_ext_iff_of_nodup ((hperm.map _).nodup_iff.mpr h.nodup) (Finset.sort_nodup _ _)]
    intro t
    rw [(hperm.map _).mem_iff, h.mem, Finset.mem_sort, List.mem_toFinset]
  rw [closeBucket, ← htasks, List.map_map]
  refine List.map_congr_left fun b hb => ?_
  exact closeProbe_eq (h.gathers b (hperm.mem_iff.mp hb)) ts

/-! ## The loop -/

/-- A bucket and a probe. -/
def pairOf (r : PingRow) : Int ×ₗ Int := toLex (r.bucket, r.task)

/-- The buckets and probes that have a row. -/
def pairsOf (rows : List PingRow) : Finset (Int ×ₗ Int) := (rows.map pairOf).toFinset

/-- The rows of one bucket. -/
def ofBucket (rows : List PingRow) (b : Int) : List PingRow := rows.filter fun r => r.bucket = b

/-- The object of one bucket and probe. -/
def pointAt (rows : List PingRow) (k : Int ×ₗ Int) : PingPoint :=
  plainPoint (ofLex k).1 (ofLex k).2 (readingsOf (ofTask (ofBucket rows (ofLex k).1) (ofLex k).2))

/-- Pairs up to a first component are those below it and then those that have it. -/
theorem sort_pairs {K : Finset (Int ×ₗ Int)} {c : Int} (hmax : ∀ k ∈ K, (ofLex k).1 ≤ c) :
    K.sort = (K.filter fun k => (ofLex k).1 < c).sort ++
      ((K.filter fun k => (ofLex k).1 = c).image fun k => (ofLex k).2).sort.map
        fun t => toLex (c, t) := by
  have hlast : ∀ k : Int ×ₗ Int, (k ∈ ((K.filter fun k => (ofLex k).1 = c).image
      fun k => (ofLex k).2).sort.map fun t => toLex (c, t)) ↔ k ∈ K ∧ (ofLex k).1 = c := by
    intro k
    simp only [List.mem_map, Finset.mem_sort, Finset.mem_image, Finset.mem_filter]
    constructor
    · rintro ⟨t, ⟨k', ⟨hk', hc⟩, rfl⟩, rfl⟩
      refine ⟨?_, rfl⟩
      rw [← hc]
      exact hk'
    · rintro ⟨hk, rfl⟩
      exact ⟨(ofLex k).2, ⟨k, ⟨hk, rfl⟩, rfl⟩, rfl⟩
  have hlow : ∀ k, k ∈ (K.filter fun k => (ofLex k).1 < c).sort ↔ k ∈ K ∧ (ofLex k).1 < c := by
    intro k
    rw [Finset.mem_sort, Finset.mem_filter]
  have hsorted : ((K.filter fun k => (ofLex k).1 < c).sort ++
      ((K.filter fun k => (ofLex k).1 = c).image fun k => (ofLex k).2).sort.map
        fun t => toLex (c, t)).Pairwise (· < ·) := by
    rw [List.pairwise_append]
    refine ⟨(Finset.sortedLT_sort _).pairwise, ?_, ?_⟩
    · rw [List.pairwise_map]
      refine (Finset.sortedLT_sort _).pairwise.imp fun hlt => ?_
      exact Prod.Lex.toLex_lt_toLex.mpr (.inr ⟨rfl, hlt⟩)
    · intro k hk k' hk'
      exact Prod.Lex.lt_iff.mpr (.inl (((hlow k).mp hk).2.trans_eq ((hlast k').mp hk').2.symm))
  refine List.Perm.eq_of_pairwise' (Finset.sortedLT_sort K).pairwise hsorted ?_
  rw [List.perm_ext_iff_of_nodup (Finset.sort_nodup _ _) (hsorted.imp ne_of_lt)]
  intro k
  rw [List.mem_append, hlow, hlast, Finset.mem_sort, ← and_or_left, ← le_iff_lt_or_eq]
  exact ⟨fun hk => ⟨hk, hmax k hk⟩, And.left⟩

/-- The buckets and probes that have a row. -/
theorem mem_pairsOf {rows : List PingRow} {k : Int ×ₗ Int} :
    k ∈ pairsOf rows ↔ ∃ r ∈ rows, pairOf r = k := by
  rw [pairsOf, List.mem_toFinset, List.mem_map]

/-- The probes of a bucket. -/
theorem tasks_ofBucket (rows : List PingRow) (b : Int) :
    ((pairsOf rows).filter fun k => (ofLex k).1 = b).image (fun k => (ofLex k).2) =
      ((ofBucket rows b).map PingRow.task).toFinset := by
  ext t
  rw [Finset.mem_image, List.mem_toFinset, List.mem_map]
  constructor
  · rintro ⟨k, hk, rfl⟩
    obtain ⟨hin, hb⟩ := Finset.mem_filter.mp hk
    obtain ⟨r, hr, rfl⟩ := mem_pairsOf.mp hin
    exact ⟨r, List.mem_filter.mpr ⟨hr, decide_eq_true hb⟩, rfl⟩
  · rintro ⟨r, hr, rfl⟩
    obtain ⟨hin, hb⟩ := List.mem_filter.mp hr
    exact ⟨pairOf r, Finset.mem_filter.mpr ⟨mem_pairsOf.mpr ⟨r, hin, rfl⟩, of_decide_eq_true hb⟩, rfl⟩

/-- Where the loop is after rows in time order. -/
structure Read (rows : List PingRow) (s : Reading) : Prop where
  /-- The buckets before the open one are finished. -/
  out : s.out = ((pairsOf rows).filter fun k => (ofLex k).1 < s.bucket).sort.map (pointAt rows)
  /-- The bucket that is open has the rows of it that were read. -/
  opened : Open s.opened (ofBucket rows s.bucket)
  /-- No row of a later one was. -/
  bound : ∀ r ∈ rows, r.bucket ≤ s.bucket
  /-- And it is not ahead of the rows. -/
  attained : rows = [] ∨ ∃ r ∈ rows, r.bucket = s.bucket
  /-- Losses and readings of each probe are counted. -/
  totals : ∀ t, s.totals t = ((lostOf (readingsOf (ofTask rows t)) : Int),
    ((readingsOf (ofTask rows t)).card : Int))

/-- Before the first row. -/
theorem read_start : Read [] .start := by
  refine ⟨?_, open_nothing, nofun, .inl rfl, fun _ => rfl⟩
  rw [pairsOf, List.map_nil, List.toFinset_nil, Finset.filter_empty, Finset.sort_empty]
  rfl

/-- Closing the open bucket completes what is put out. -/
theorem Read.close {rows : List PingRow} {s : Reading} (h : Read rows s) :
    s.out ++ closeBucket s.opened s.bucket = (pairsOf rows).sort.map (pointAt rows) := by
  have hmax : ∀ k ∈ pairsOf rows, (ofLex k).1 ≤ s.bucket := by
    intro k hk
    obtain ⟨r, hr, rfl⟩ := mem_pairsOf.mp hk
    exact h.bound r hr
  rw [sort_pairs hmax, List.map_append, ← h.out, closeBucket_eq h.opened, tasks_ofBucket,
    List.map_map]
  rfl

/-- Before a row is filed the buckets before its own are finished. -/
theorem Read.turn {rows : List PingRow} {s : Reading} (h : Read rows s) {b : Int}
    (hb : ∀ r ∈ rows, r.bucket ≤ b) :
    (s.turn b).bucket = b ∧ (s.turn b).totals = s.totals ∧
      Open (s.turn b).opened (ofBucket rows b) ∧
      (s.turn b).out = ((pairsOf rows).filter fun k => (ofLex k).1 < b).sort.map (pointAt rows) := by
  unfold Reading.turn
  by_cases hsame : b = s.bucket
  · rw [if_neg (not_not.mpr hsame)]
    subst hsame
    exact ⟨rfl, rfl, h.opened, h.out⟩
  · rw [if_pos hsame]
    have hbefore : ∀ r ∈ rows, r.bucket < b := by
      intro r hr
      rcases h.attained with hnone | ⟨last, hlast, heq⟩
      · rw [hnone] at hr
        cases hr
      · have hle := h.bound r hr
        have hlast := hb last hlast
        omega
    refine ⟨rfl, rfl, ?_, ?_⟩
    · have hnone : ofBucket rows b = [] := by
        rw [ofBucket, List.filter_eq_nil_iff]
        intro r hr heq
        exact absurd (of_decide_eq_true heq) (hbefore r hr).ne
      dsimp only
      rw [hnone]
      exact open_nothing
    · have hall : (pairsOf rows).filter (fun k => (ofLex k).1 < b) = pairsOf rows := by
        refine Finset.filter_true_of_mem fun k hk => ?_
        obtain ⟨r, hr, rfl⟩ := mem_pairsOf.mp hk
        exact hbefore r hr
      dsimp only
      rw [h.close, hall]

/-- One more row is of the bucket or of another. -/
theorem ofBucket_concat (rows : List PingRow) (row : PingRow) (b : Int) :
    ofBucket (rows ++ [row]) b = if row.bucket = b then ofBucket rows b ++ [row]
      else ofBucket rows b := filter_concat (fun r => r.bucket = b) rows row

/-- One row of the loop. -/
theorem Read.next {rows : List PingRow} {s : Reading} (h : Read rows s) {row : PingRow}
    (hrow : 0 < row.samples) (hb : ∀ r ∈ rows, r.bucket ≤ row.bucket) :
    Read (rows ++ [row]) (s.next row) := by
  obtain ⟨hbucket, htotals, hopened, hout⟩ := h.turn hb
  have hmem : ∀ r, r ∈ rows ++ [row] ↔ r ∈ rows ∨ r = row := by
    intro r
    rw [List.mem_append, List.mem_singleton]
  refine ⟨?_, ?_, ?_, ?_, ?_⟩
  · change (s.turn row.bucket).out =
      ((pairsOf (rows ++ [row])).filter fun k => (ofLex k).1 < (s.turn row.bucket).bucket).sort.map _
    have hpairs : (pairsOf (rows ++ [row])).filter (fun k => (ofLex k).1 < row.bucket) =
        (pairsOf rows).filter fun k => (ofLex k).1 < row.bucket := by
      ext k
      rw [Finset.mem_filter, Finset.mem_filter, mem_pairsOf, mem_pairsOf]
      refine and_congr_left fun hlt => ⟨?_, fun ⟨r, hr, hk⟩ => ⟨r, (hmem r).mpr (.inl hr), hk⟩⟩
      rintro ⟨r, hr, rfl⟩
      rcases (hmem r).mp hr with hr | rfl
      · exact ⟨r, hr, rfl⟩
      · exact absurd hlt (lt_irrefl _)
    rw [hbucket, hout, hpairs]
    refine List.map_congr_left fun k hk => ?_
    have hlt : (ofLex k).1 < row.bucket := (Finset.mem_filter.mp ((Finset.mem_sort _).mp hk)).2
    rw [pointAt, pointAt, ofBucket_concat, if_neg hlt.ne']
  · change Open (fileRow (s.turn row.bucket).opened row) (ofBucket _ (s.turn row.bucket).bucket)
    rw [hbucket, ofBucket_concat, if_pos rfl]
    exact hopened.file hrow
  · change ∀ r ∈ rows ++ [row], r.bucket ≤ (s.turn row.bucket).bucket
    rw [hbucket]
    intro r hr
    rcases (hmem r).mp hr with hr | rfl
    · exact hb r hr
    · exact le_rfl
  · change _ ∨ ∃ r ∈ rows ++ [row], r.bucket = (s.turn row.bucket).bucket
    rw [hbucket]
    exact .inr ⟨row, (hmem row).mpr (.inr rfl), rfl⟩
  · intro t
    change Function.update (s.turn row.bucket).totals row.task _ t = _
    rw [htotals, ofTask_concat]
    by_cases ht : row.task = t
    · subst ht
      rw [Function.update_self, if_pos rfl, h.totals, readingsOf_concat, lostOf_add_replicate,
        Multiset.card_add, Multiset.card_replicate]
      have hsamples := Int.toNat_of_nonneg hrow.le
      refine Prod.ext ?_ ?_
      · dsimp only
        split <;> omega
      · dsimp only
        omega
    · rw [Function.update_of_ne (Ne.symm ht), if_neg ht, h.totals]

/-- The whole loop, on rows in time order. -/
theorem read_rows {rows : List PingRow} (hcounts : ∀ r ∈ rows, 0 < r.samples)
    (htime : rows.Pairwise fun r s => r.bucket ≤ s.bucket) :
    Read rows (rows.foldl Reading.next .start) := by
  induction rows using List.reverseRecOn with
  | nil => exact read_start
  | append_singleton front row ih =>
    obtain ⟨hfront, -, hlast⟩ := List.pairwise_append.mp htime
    rw [List.foldl_concat]
    refine (ih (fun r hr => hcounts r (List.mem_append_left _ hr)) hfront).next
      (hcounts row (List.mem_append_right _ List.mem_cons_self)) ?_
    exact fun r hr => hlast r hr row List.mem_cons_self

/-! ## The stored readings -/

/-- Every stored reading of the assigned probes on its own: an hourly row stands
for as many results at its hour as it counts. -/
def singles (db : Store) (n since : Int) : Multiset PingRecordRow :=
  ((pingHistory db n since).filter fun r => db.pingNode.Has (r.taskId, n)).bind fun r =>
    Multiset.replicate r.samples.toNat ⟨n, r.taskId, r.ts, r.latency⟩

/-- The bucket, the probe and the latency of a reading. -/
def keyOf (step : Int) (r : PingRecordRow) : Int ×ₗ Int ×ₗ Int :=
  toLex (idiv r.ts step * step, toLex (r.taskId, r.latency))

/-- The bucket, the probe and the latency of a row. -/
def rowKey (r : PingRow) : Int ×ₗ Int ×ₗ Int := toLex (r.bucket, toLex (r.task, r.latency))

/-- The rows of the query as a histogram of its keys. -/
def keyed (rows : List PingRow) : List ((Int ×ₗ Int ×ₗ Int) × Int) :=
  rows.map fun r => (rowKey r, r.samples)

/-- Whatever is stored stands for a reading at least. -/
theorem samples_pos {db : Store} {n since : Int} {r : PingSample}
    (h : r ∈ pingHistory db n since) : 0 < r.samples := by
  rcases Multiset.mem_add.mp h with h | h
  · obtain ⟨raw, -, rfl⟩ := Multiset.mem_map.mp h
    exact Int.one_pos
  · obtain ⟨hour, -, rfl⟩ := Multiset.mem_map.mp h
    exact hour.samples_pos

/-- The samples of a group as a count. -/
theorem sum_group {κ : Type} [DecidableEq κ] {history : Multiset PingSample}
    (hpos : ∀ r ∈ history, 0 < r.samples) (g : PingSample → κ) (k : κ) :
    (history.map fun r => if g r = k then r.samples.toNat else 0).sum =
      ((history.filter fun r => g r = k).map PingSample.samples).sum.toNat := by
  have hsum : (((history.map fun r => if g r = k then r.samples.toNat else 0).sum : Nat) : Int) =
      ((history.filter fun r => g r = k).map PingSample.samples).sum := by
    induction history using Multiset.induction_on with
    | empty => rfl
    | cons r rest ih =>
      have hr := hpos r (Multiset.mem_cons_self r rest)
      have hrest := ih fun x hx => hpos x (Multiset.mem_cons_of_mem hx)
      rw [Multiset.map_cons, Multiset.sum_cons, Nat.cast_add, hrest]
      by_cases hg : g r = k
      · rw [if_pos hg, @Multiset.filter_cons_of_pos _ (fun r => g r = k) _ r rest hg, Multiset.map_cons, Multiset.sum_cons,
          Int.toNat_of_nonneg hr.le]
      · rw [if_neg hg, @Multiset.filter_cons_of_neg _ (fun r => g r = k) _ r rest hg, Nat.cast_zero, zero_add]
  omega

/-- A sum over a sorted list is the sum over its set. -/
theorem sum_sort {κ : Type} [LinearOrder κ] (K : Finset κ) (f : κ → Nat) :
    (K.sort.map f).sum = ∑ k ∈ K, f k := by
  rw [Finset.sum, ← Finset.sort_eq K (· ≤ ·), Multiset.map_coe, Multiset.sum_coe]

section Stored

variable (db : Store) (n since step : Int)

/-- So does every row. -/
theorem rows_pos : ∀ r ∈ pingRows db n since step, 0 < r.samples := by
  intro r hr
  obtain ⟨k, hk, rfl⟩ := List.mem_map.mp hr
  obtain ⟨s, hs, hkey⟩ := Multiset.mem_map.mp (Multiset.mem_toFinset.mp ((Finset.mem_sort _).mp hk))
  have hin := (@Multiset.mem_filter _ (fun r => pingGroup step r = k) _ _ _).mpr ⟨hs, hkey⟩
  have hpos : ∀ x ∈ ((pingHistory db n since).filter fun r => db.pingNode.Has (r.taskId, n)).filter
      (fun r => pingGroup step r = k), 0 < x.samples := fun x hx =>
    samples_pos (Multiset.mem_of_mem_filter (Multiset.mem_of_mem_filter hx))
  have hle := Multiset.single_le_sum (fun x hx => by
    obtain ⟨y, hy, rfl⟩ := Multiset.mem_map.mp hx
    exact (hpos y hy).le) _ (Multiset.mem_map_of_mem PingSample.samples hin)
  exact (hpos s hin).trans_le hle

/-- The rows come in the order of the buckets. -/
theorem rows_time : (pingRows db n since step).Pairwise fun r s => r.bucket ≤ s.bucket := by
  unfold pingRows
  dsimp only
  rw [List.pairwise_map]
  exact (Finset.pairwise_sort _ _).imp fun hle => Prod.Lex.monotone_fst _ _ hle

/-- The rows of the query count every reading once. -/
theorem keyed_rows : (↑(spread (keyed (pingRows db n since step))) : Multiset (Int ×ₗ Int ×ₗ Int)) =
    (singles db n since).map (keyOf step) := by
  ext k
  have hsingles : (singles db n since).map (keyOf step) =
      ((pingHistory db n since).filter fun r => db.pingNode.Has (r.taskId, n)).bind fun r =>
        Multiset.replicate r.samples.toNat (pingGroup step r) := by
    rw [singles, Multiset.map_bind]
    refine Multiset.bind_congr fun r _ => ?_
    rw [Multiset.map_replicate]
    rfl
  rw [hsingles, Multiset.coe_count, count_spread, Multiset.count_bind, keyed, List.map_map]
  unfold pingRows
  dsimp only
  have hpositive : ∀ r ∈ (pingHistory db n since).filter fun r => db.pingNode.Has (r.taskId, n),
      0 < r.samples := fun r hr => samples_pos (Multiset.mem_of_mem_filter hr)
  generalize ((pingHistory db n since).filter fun r => db.pingNode.Has (r.taskId, n)) = history at *
  have hleft : ((((history.map (pingGroup step)).toFinset.sort (· ≤ ·)).map fun k' =>
      (⟨(ofLex k').1, (ofLex (ofLex k').2).1, (ofLex (ofLex k').2).2,
        ((history.filter fun r => pingGroup step r = k').map PingSample.samples).sum⟩ : PingRow)).map
      ((fun x => if x.1 = k then x.2.toNat else 0) ∘ fun r => (rowKey r, r.samples))).sum =
      ∑ k' ∈ (history.map (pingGroup step)).toFinset, if k' = k then
        ((history.filter fun r => pingGroup step r = k').map PingSample.samples).sum.toNat else 0 := by
    rw [← sum_sort, List.map_map]
    rfl
  rw [hleft, Finset.sum_ite_eq']
  have hright : (history.map fun r =>
      (Multiset.replicate r.samples.toNat (pingGroup step r)).count k) =
      history.map fun r => if pingGroup step r = k then r.samples.toNat else 0 :=
    Multiset.map_congr rfl fun r _ => by rw [Multiset.count_replicate]
  rw [hright, sum_group hpositive]
  by_cases hk : k ∈ (history.map (pingGroup step)).toFinset
  · rw [if_pos hk]
  · have hnone : (history.filter fun r => pingGroup step r = k) = 0 := by
      rw [Multiset.filter_eq_nil]
      intro r hr hg
      exact hk (Multiset.mem_toFinset.mpr (Multiset.mem_map.mpr ⟨r, hr, hg⟩))
    rw [if_neg hk, hnone]
    rfl

end Stored

/-! ## The plain answer -/

/-- The readings of one probe in one bucket. -/
def readingsIn (all : Multiset PingRecordRow) (step b task : Int) : Multiset Int :=
  (all.filter fun r => idiv r.ts step * step = b ∧ r.taskId = task).map PingRecordRow.latency

/-- The readings of one probe in the whole window. -/
def readingsOfProbe (all : Multiset PingRecordRow) (task : Int) : Multiset Int :=
  (all.filter fun r => r.taskId = task).map PingRecordRow.latency

/-- The buckets and probes that have a reading. -/
def pairsIn (all : Multiset PingRecordRow) (step : Int) : Finset (Int ×ₗ Int) :=
  (all.map fun r => toLex (idiv r.ts step * step, r.taskId)).toFinset

/-- One object for each bucket and probe with a reading, by bucket and then by probe. -/
def plainPoints (all : Multiset PingRecordRow) (step : Int) : List PingPoint :=
  (inOrder (pairsIn all step).val).map fun k =>
    plainPoint (ofLex k).1 (ofLex k).2 (readingsIn all step (ofLex k).1 (ofLex k).2)

/-- The share of all its readings a probe lost, where it lost any. -/
def plainLosses (all : Multiset PingRecordRow) (task : Int) : Option Rat :=
  let readings := readingsOfProbe all task
  if 0 < lostOf readings then some (100 * lostOf readings / readings.card) else none

section Answer

variable (db : Store) (n since step : Int)

/-- Rows chosen by their keys stand for the readings that have such a key. -/
theorem readingsOf_filter (p : Int ×ₗ Int ×ₗ Int → Prop) [DecidablePred p] :
    readingsOf ((pingRows db n since step).filter fun r => p (rowKey r)) =
      ((singles db n since).filter fun r => p (keyOf step r)).map PingRecordRow.latency := by
  have hrows : ((pingRows db n since step).filter fun r => p (rowKey r)).map
      (fun r => (r.latency, r.samples)) =
      ((keyed (pingRows db n since step)).filter fun x => decide (p x.1)).map
        fun x => ((ofLex (ofLex x.1).2).2, x.2) := by
    rw [keyed, List.filter_map, List.map_map]
    rfl
  rw [readingsOf, hrows, spread_map (fun k : Int ×ₗ Int ×ₗ Int => (ofLex (ofLex k).2).2),
    spread_filter (fun k => decide (p k)), ← Multiset.map_coe, ← Multiset.filter_coe, keyed_rows,
    Multiset.filter_map, Multiset.map_map]
  rfl

/-- The rows of a bucket and probe have the readings of both. -/
theorem readingsOf_bucket (b task : Int) :
    readingsOf (ofTask (ofBucket (pingRows db n since step) b) task) =
      readingsIn (singles db n since) step b task := by
  have hfilter : ofTask (ofBucket (pingRows db n since step) b) task =
      (pingRows db n since step).filter fun r => r.bucket = b ∧ r.task = task := by
    rw [ofTask, ofBucket, List.filter_filter]
    refine List.filter_congr fun r _ => ?_
    rw [Bool.decide_and, Bool.and_comm]
  rw [hfilter]
  exact readingsOf_filter db n since step fun k => (ofLex k).1 = b ∧ (ofLex (ofLex k).2).1 = task

/-- The rows of a probe have its readings. -/
theorem readingsOf_probe (task : Int) : readingsOf (ofTask (pingRows db n since step) task) =
    readingsOfProbe (singles db n since) task :=
  readingsOf_filter db n since step fun k => (ofLex (ofLex k).2).1 = task

/-- A bucket and probe has a row just when it has a reading. -/
theorem pairsOf_rows : pairsOf (pingRows db n since step) = pairsIn (singles db n since) step := by
  have hkeys : ∀ k, (∃ r ∈ pingRows db n since step, rowKey r = k) ↔
      ∃ r ∈ singles db n since, keyOf step r = k := by
    intro k
    rw [← Multiset.mem_map, ← keyed_rows, Multiset.mem_coe]
    constructor
    · rintro ⟨r, hr, rfl⟩
      have hpresent : Present (keyed (pingRows db n since step)) := by
        intro x hx
        obtain ⟨s, hs, rfl⟩ := List.mem_map.mp hx
        exact rows_pos db n since step s hs
      exact mem_spread_of hpresent (List.mem_map.mpr ⟨r, hr, rfl⟩)
    · intro hk
      obtain ⟨x, hx, rfl⟩ := mem_spread hk
      obtain ⟨r, hr, rfl⟩ := List.mem_map.mp hx
      exact ⟨r, hr, rfl⟩
  ext k
  rw [mem_pairsOf, pairsIn, Multiset.mem_toFinset, Multiset.mem_map]
  constructor
  · rintro ⟨r, hr, rfl⟩
    obtain ⟨s, hs, hkey⟩ := (hkeys _).mp ⟨r, hr, rfl⟩
    refine ⟨s, hs, ?_⟩
    exact congrArg (fun k : Int ×ₗ Int ×ₗ Int => toLex ((ofLex k).1, (ofLex (ofLex k).2).1)) hkey
  · rintro ⟨s, hs, rfl⟩
    obtain ⟨r, hr, hkey⟩ := (hkeys _).mpr ⟨s, hs, rfl⟩
    refine ⟨r, hr, ?_⟩
    exact congrArg (fun k : Int ×ₗ Int ×ₗ Int => toLex ((ofLex k).1, (ofLex (ofLex k).2).1)) hkey

/-- What the loop leaves behind is the plain answer. -/
theorem readRows_eq : readRows (pingRows db n since step) =
    (plainPoints (singles db n since) step, plainLosses (singles db n since)) := by
  have hread := read_rows (rows_pos db n since step) (rows_time db n since step)
  unfold readRows
  dsimp only
  rw [hread.close, pairsOf_rows]
  refine Prod.ext ?_ ?_
  · refine List.map_congr_left fun k _ => ?_
    rw [pointAt, readingsOf_bucket]
  · funext task
    dsimp only [windowLoss, plainLosses]
    rw [hread.totals, readingsOf_probe]
    dsimp only
    by_cases hlost : 0 < lostOf (readingsOfProbe (singles db n since) task)
    · rw [if_pos hlost, if_pos (Int.natCast_pos.mpr hlost)]
      push_cast
      rfl
    · rw [if_neg hlost, if_neg (by omega)]

end Answer

/-- The median is missing only when nothing answered. -/
theorem plainMedian_eq_none {sorted : List Int} : plainMedian sorted = none ↔ sorted = [] := by
  constructor
  · intro h
    by_contra hsome
    have hlength := List.length_pos_iff.mpr hsome
    have hhigh : sorted.length / 2 < sorted.length := by omega
    have hlow : sorted.length / 2 - 1 < sorted.length := by omega
    unfold plainMedian at h
    dsimp only at h
    rw [if_neg hlength.ne', List.getElem?_eq_getElem hhigh, List.getElem?_eq_getElem hlow] at h
    split at h <;> cases h
  · rintro rfl
    rfl

/-- The loss is missing only when nothing was lost. -/
theorem plainLoss_eq_none {readings : Multiset Int} :
    plainLoss readings = none ↔ ∀ l ∈ readings, 0 ≤ l := by
  have hlost : 0 < lostOf readings ↔ ∃ l ∈ readings, l < 0 := by
    rw [lostOf, Multiset.card_pos_iff_exists_mem]
    exact exists_congr fun l => Multiset.mem_filter
  rw [plainLoss, ite_eq_right_iff, hlost]
  constructor
  · intro h l hl
    by_contra hneg
    cases h ⟨l, hl, not_le.mp hneg⟩
  · rintro h ⟨l, hl, hneg⟩
    exact absurd (h l hl) (not_le.mpr hneg)

/-- Whatever is stored, raw and rolled up in any mix: the buckets are those of
the single readings, one object for each bucket and probe that has one, with
their median, band and loss, and the loss of the window is that of the whole
list; where anything answered the rank is found. -/
theorem buckets_plain (db : Store) (n since step : Int) :
    pingRecords db n since step =
      (historyStep (decide (∃ r ∈ db.pingHour.rows, r.nodeId = n ∧ r.ts ≥ since)) step).map
        (fun width => (plainPoints (singles db n since) width, plainLosses (singles db n since))) ∧
    ∀ width, ∀ p ∈ plainPoints (singles db n since) width, ∃ readings,
      readings = readingsIn (singles db n since) width p.ts p.taskId ∧
      p = plainPoint p.ts p.taskId readings ∧ (p.latency = none ↔ answers readings = []) ∧
      (p.loss = none ↔ ∀ l ∈ readings, 0 ≤ l) := by
  constructor
  · unfold pingRecords
    dsimp only
    cases historyStep (decide (∃ r ∈ db.pingHour.rows, r.nodeId = n ∧ r.ts ≥ since)) step with
    | error e => rfl
    | ok width => exact congrArg Except.ok (readRows_eq db n since width)
  · intro width p hp
    obtain ⟨k, -, rfl⟩ := List.mem_map.mp hp
    exact ⟨_, rfl, rfl, plainMedian_eq_none, plainLoss_eq_none⟩

end Romi.LatencyBuckets
