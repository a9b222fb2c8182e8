import Mathlib.Data.Int.Log
import Mathlib.Data.Rat.Floor
import Mathlib.Tactic.Linarith
import Mathlib.Tactic.NormNum
import Mathlib.Tactic.Positivity
import Mathlib.Tactic.Ring

/-!
# Numbers in double precision

A double is the number it stands for, an infinity or no number; the sign of zero is not
kept. An operation takes the exact result to the nearest double, and of two that are
equally near to the even one.
-/

namespace Romi.DoublePrecision

/-- What the 64 bits of a double stand for. -/
inductive Double
  /-- No number. -/
  | nan
  /-- Beyond every number, to one side. -/
  | infinite (negative : Bool)
  /-- The number itself. -/
  | finite (q : Rat)
  deriving DecidableEq

/-! ## Rounding -/

/-- The nearest integer, and of two that are equally near the even one. -/
def nearestEven (q : Rat) : Int :=
  let k := q.floor
  if q - k < 1 / 2 then k
  else if 1 / 2 < q - k then k + 1
  else k + k % 2

/-- How far the doubles around a number are apart. -/
def spacing (q : Rat) : Rat := 2 ^ (max (Int.log 2 |q|) (-1022) - 52)

/-- The number nearest to one with 53 bits, however large. -/
def nearest (q : Rat) : Rat := nearestEven (q / spacing q) * spacing q

/-- The double nearest to a number. -/
def ofRat (q : Rat) : Double :=
  if |nearest q| < 2 ^ (1024 : Int) then .finite (nearest q) else .infinite (decide (q < 0))

/-- Rounding to an integer moves a number by a half at most. -/
theorem nearestEven_error (q : Rat) : |(nearestEven q : Rat) - q| ≤ 1 / 2 := by
  have hlow : (q.floor : Rat) ≤ q := Rat.floor_le q
  have hhigh : q < q.floor + 1 := by exact_mod_cast Rat.lt_floor_add_one q
  unfold nearestEven
  dsimp only
  split
  · rw [abs_le]
    constructor <;> linarith
  · split
    · push_cast
      rw [abs_le]
      constructor <;> linarith
    · rcases Int.emod_two_eq_zero_or_one q.floor with heven | hodd
      · rw [heven, add_zero, abs_le]
        constructor <;> linarith
      · rw [hodd, abs_le]
        push_cast
        constructor <;> linarith

/-- Rounding does not pass an integer. -/
theorem le_nearestEven {n : Int} {q : Rat} (h : (n : Rat) ≤ q) : n ≤ nearestEven q := by
  have hfloor : n ≤ q.floor := Rat.le_floor_iff.mpr h
  have hmod := Int.emod_nonneg q.floor (by decide : (2 : Int) ≠ 0)
  unfold nearestEven
  dsimp only
  split
  · exact hfloor
  · split <;> omega

/-- An integer is left as it is. -/
@[simp] theorem nearestEven_int (n : Int) : nearestEven n = n := by
  unfold nearestEven
  dsimp only
  rw [Rat.floor_intCast, sub_self, if_pos (by norm_num)]

/-- Doubles are spaced apart. -/
theorem spacing_pos (q : Rat) : 0 < spacing q := zpow_pos (by norm_num) _

/-- Rounding moves a number by half the spacing at most. -/
theorem nearest_error (q : Rat) : |nearest q - q| ≤ spacing q / 2 := by
  have hpos := spacing_pos q
  have herror := nearestEven_error (q / spacing q)
  have hsplit : nearest q - q =
      ((nearestEven (q / spacing q) : Rat) - q / spacing q) * spacing q := by
    rw [nearest, sub_mul, div_mul_cancel₀ q hpos.ne']
  rw [hsplit, abs_mul, abs_of_pos hpos]
  calc |(nearestEven (q / spacing q) : Rat) - q / spacing q| * spacing q
      ≤ 1 / 2 * spacing q := mul_le_mul_of_nonneg_right herror hpos.le
    _ = spacing q / 2 := by ring

/-- In the normal range the spacing is at most one part in 2 to the 52nd. -/
theorem spacing_le {q : Rat} (hlow : 2 ^ (-1022 : Int) ≤ q) : spacing q ≤ q / 2 ^ (52 : Int) := by
  have hpos : 0 < q := lt_of_lt_of_le (zpow_pos (by norm_num) _) hlow
  have hlog : -1022 ≤ Int.log 2 |q| := by
    rw [abs_of_pos hpos]
    exact (Int.zpow_le_iff_le_log (by decide) hpos).mp (by exact_mod_cast hlow)
  have hpow : (2 : Rat) ^ Int.log 2 |q| ≤ q := by
    have h := Int.zpow_log_le_self (b := 2) (by decide) (abs_pos.mpr hpos.ne')
    rw [abs_of_pos hpos] at h ⊢
    exact_mod_cast h
  unfold spacing
  rw [max_eq_left hlog, zpow_sub₀ (by norm_num)]
  exact div_le_div_of_nonneg_right hpow (by positivity)

/-- Zero is left as it is. -/
@[simp] theorem nearest_zero : nearest 0 = 0 := by
  have hzero := nearestEven_int 0
  rw [Int.cast_zero] at hzero
  rw [nearest, zero_div, hzero, Int.cast_zero, zero_mul]

/-- One part in 2 to the 53rd. -/
def roundoff : Rat := 1 / 9007199254740992

/-- In the normal range rounding moves a number by one part in 2 to the 53rd at most. -/
theorem nearest_near {q : Rat} (hlow : 2 ^ (-1022 : Int) ≤ q) :
    q * (1 - roundoff) ≤ nearest q ∧ nearest q ≤ q * (1 + roundoff) := by
  have hhalf : spacing q / 2 ≤ q * roundoff := by
    have hspacing := spacing_le hlow
    norm_num at hspacing
    unfold roundoff
    linarith
  have hnear := abs_le.mp ((nearest_error q).trans hhalf)
  constructor <;> linarith [hnear.1, hnear.2]

/-- A whole number is in the normal range or zero. -/
theorem nearest_natural (n : Nat) :
    (n : Rat) * (1 - roundoff) ≤ nearest n ∧ nearest (n : Rat) ≤ n * (1 + roundoff) := by
  rcases Nat.eq_zero_or_pos n with rfl | hpos
  · simp
  · refine nearest_near ((zpow_le_one_of_nonpos₀ (by norm_num) (by decide)).trans ?_)
    exact_mod_cast hpos

/-- Up to there a number becomes a finite double. -/
theorem ofRat_normal {q : Rat} (hlow : 2 ^ (-1022 : Int) ≤ q) (hhigh : q ≤ 2 ^ (1023 : Int)) :
    ofRat q = .finite (nearest q) := by
  have hpos : 0 < q := lt_of_lt_of_le (zpow_pos (by norm_num) _) hlow
  have hunit : roundoff < 1 := by norm_num [roundoff]
  obtain ⟨hbelow, habove⟩ := nearest_near hlow
  have hnonneg : 0 ≤ nearest q := (mul_nonneg hpos.le (sub_nonneg.mpr hunit.le)).trans hbelow
  have hbound : |nearest q| < 2 ^ (1024 : Int) := by
    rw [abs_of_nonneg hnonneg]
    calc nearest q ≤ q * (1 + roundoff) := habove
      _ < q * 2 := mul_lt_mul_of_pos_left (by linarith) hpos
      _ ≤ 2 ^ (1023 : Int) * 2 := mul_le_mul_of_nonneg_right hhigh (by norm_num)
      _ = 2 ^ (1024 : Int) := by
        rw [← zpow_add_one₀ (by norm_num)]
        rfl
  exact if_pos hbound

/-- What a finite double was rounded from. -/
theorem ofRat_finite {q r : Rat} (h : ofRat q = .finite r) : r = nearest q := by
  unfold ofRat at h
  split at h
  · exact (Double.finite.inj h).symm
  · cases h

/-- A number below the normal range stays below one. -/
theorem nearest_tiny {q : Rat} (h : 0 ≤ q) (hlow : q < 2 ^ (-1022 : Int)) : nearest q < 1 := by
  rcases h.eq_or_lt with rfl | hpos
  · rw [nearest_zero]
    exact zero_lt_one
  · have hlog : Int.log 2 |q| ≤ -1022 := by
      rw [abs_of_pos hpos]
      exact ((Int.lt_zpow_iff_log_lt (by decide) hpos).mp (by exact_mod_cast hlow)).le
    have hspacing : spacing q = 2 ^ (-1074 : Int) := by
      unfold spacing
      rw [max_eq_right hlog]
      rfl
    have hnear := abs_le.mp (nearest_error q)
    have hsmall : (2 : Rat) ^ (-1022 : Int) ≤ 1 / 4 := by
      calc (2 : Rat) ^ (-1022 : Int) ≤ 2 ^ (-2 : Int) := zpow_le_zpow_right₀ (by norm_num) (by decide)
        _ = 1 / 4 := by norm_num
    have hunit : (2 : Rat) ^ (-1074 : Int) ≤ 1 / 4 := by
      calc (2 : Rat) ^ (-1074 : Int) ≤ 2 ^ (-2 : Int) := zpow_le_zpow_right₀ (by norm_num) (by decide)
        _ = 1 / 4 := by norm_num
    rw [hspacing] at hnear
    linarith [hnear.2]

/-! ## Operations -/

/-- The sum of two doubles. -/
def Double.add : Double → Double → Double
  | .nan, _ => .nan
  | _, .nan => .nan
  | .finite a, .finite b => ofRat (a + b)
  | .infinite a, .infinite b => if a = b then .infinite a else .nan
  | .infinite a, .finite _ => .infinite a
  | .finite _, .infinite b => .infinite b

/-- The quotient of two doubles; a divisor of zero counts as positive. -/
def Double.div : Double → Double → Double
  | .nan, _ => .nan
  | _, .nan => .nan
  | .finite a, .finite b =>
    if b = 0 then if a = 0 then .nan else .infinite (decide (a < 0)) else ofRat (a / b)
  | .infinite a, .finite b => .infinite (a != decide (b < 0))
  | .finite _, .infinite _ => .finite 0
  | .infinite _, .infinite _ => .nan

/-- A division by what is not nought is the quotient, rounded. -/
theorem Double.div_finite (a : Rat) {b : Rat} (h : b ≠ 0) :
    (Double.finite a).div (.finite b) = ofRat (a / b) := if_neg h

/-- The number a double stands for, and zero if it is none. -/
def Double.value : Double → Rat
  | .finite q => q
  | _ => 0

/-- A double cut off to an unsigned integer of 64 bits; what is out of range goes to its
end, and no number to zero. -/
def Double.toU64 : Double → Nat
  | .finite q => min 18446744073709551615 q.floor.toNat
  | .infinite negative => if negative then 0 else 18446744073709551615
  | .nan => 0

/-- A double that has grown from readings, the newest first, one by one. -/
def total : List Double → Double
  | [] => .finite 0
  | v :: earlier => (total earlier).add v

/-- As many ones added up. -/
def tally : Nat → Double
  | 0 => .finite 0
  | n + 1 => (tally n).add (.finite 1)

/-- The mean of readings, the newest first. -/
def mean (readings : List Double) : Double := (total readings).div (tally readings.length)

/-! ## What is not negative -/

/-- A double that is a number and not negative, or infinite to that side. -/
def Double.NonNeg : Double → Prop
  | .nan => False
  | .infinite negative => negative = false
  | .finite q => 0 ≤ q

/-- Rounding keeps the sign. -/
theorem nearest_nonneg {q : Rat} (h : 0 ≤ q) : 0 ≤ nearest q := by
  have hround : 0 ≤ nearestEven (q / spacing q) :=
    le_nearestEven (by
      push_cast
      exact div_nonneg h (spacing_pos q).le)
  exact mul_nonneg (by exact_mod_cast hround) (spacing_pos q).le

/-- So does the overflow to infinity. -/
theorem ofRat_nonneg {q : Rat} (h : 0 ≤ q) : (ofRat q).NonNeg := by
  unfold ofRat
  split
  · exact nearest_nonneg h
  · exact decide_eq_false (not_lt.mpr h)

/-- Where it is cut off an integer is no larger than what it came from. -/
theorem toU64_le {q : Rat} (h : 0 ≤ q) : ((ofRat q).toU64 : Rat) ≤ nearest q := by
  unfold ofRat
  split
  · have hfloor : 0 ≤ (nearest q).floor :=
      Rat.le_floor_iff.mpr (by exact_mod_cast nearest_nonneg h)
    calc ((min 18446744073709551615 (nearest q).floor.toNat : Nat) : Rat)
        ≤ (nearest q).floor.toNat := by exact_mod_cast min_le_right _ _
      _ = ((nearest q).floor : Rat) := by exact_mod_cast Int.toNat_of_nonneg hfloor
      _ ≤ nearest q := Rat.floor_le _
  · rename_i hlarge
    rw [abs_of_nonneg (nearest_nonneg h), not_lt] at hlarge
    rw [decide_eq_false (not_lt.mpr h)]
    calc ((18446744073709551615 : Nat) : Rat) ≤ 2 ^ (64 : Int) := by norm_num
      _ ≤ 2 ^ (1024 : Int) := zpow_le_zpow_right₀ (by norm_num) (by decide)
      _ ≤ nearest q := hlarge

/-- A sum of what is not negative is not. -/
theorem Double.NonNeg.add {a b : Double} (ha : a.NonNeg) (hb : b.NonNeg) : (a.add b).NonNeg := by
  cases a with
  | nan => exact ha.elim
  | infinite s =>
    cases b with
    | nan => exact hb.elim
    | infinite t =>
      obtain rfl : s = false := ha
      obtain rfl : t = false := hb
      rfl
    | finite q => exact ha
  | finite p =>
    cases b with
    | nan => exact hb.elim
    | infinite t => exact hb
    | finite q => exact ofRat_nonneg (add_nonneg ha hb)

/-- Nor is a total. -/
theorem total_nonneg {readings : List Double} (h : ∀ v ∈ readings, v.NonNeg) :
    (total readings).NonNeg := by
  induction readings with
  | nil => exact le_refl (0 : Rat)
  | cons v earlier ih =>
    exact (ih fun w hw => h w (List.mem_cons_of_mem v hw)).add (h v List.mem_cons_self)

/-! ## What is exact -/

/-- A multiple of its own spacing is left as it is. -/
theorem nearest_exact {q : Rat} {n : Int} (h : q = n * spacing q) : nearest q = q := by
  have hunits : q / spacing q = n := by
    rw [div_eq_iff (spacing_pos q).ne']
    exact h
  rw [nearest, hunits, nearestEven_int]
  exact h.symm

/-- Whole numbers are doubles up to 2 to the 53rd. -/
theorem nearest_nat {n : Nat} (h : n ≤ 2 ^ 53) : nearest n = n := by
  have hlog : Int.log 2 |(n : Rat)| = Nat.log 2 n := by
    rw [Nat.abs_cast, Int.log_natCast]
  have hspacing : spacing n = 2 ^ ((Nat.log 2 n : Int) - 52) := by
    unfold spacing
    rw [hlog, max_eq_left (by omega)]
  by_cases hsmall : Nat.log 2 n ≤ 52
  · refine nearest_exact (n := (n * 2 ^ (52 - Nat.log 2 n) : Nat)) ?_
    have hcancel : ((2 : Rat) ^ (52 - Nat.log 2 n)) * 2 ^ ((Nat.log 2 n : Int) - 52) = 1 := by
      rw [← zpow_natCast, ← zpow_add₀ (by norm_num), Nat.cast_sub hsmall]
      simp
    rw [hspacing]
    push_cast
    rw [mul_assoc, hcancel, mul_one]
  · have hpower : n = 2 ^ 53 := by
      refine le_antisymm h ?_
      refine Nat.pow_le_of_le_log ?_ (by omega)
      rintro rfl
      exact hsmall (by simp)
    subst hpower
    refine nearest_exact (n := 2 ^ 52) ?_
    rw [hspacing, Nat.log_pow (by decide)]
    norm_num

/-- A double holds every natural number up to 2^53. -/
theorem ofRat_nat {n : Nat} (h : n ≤ 2 ^ 53) : ofRat n = .finite n := by
  have hrange : |(n : Rat)| < 2 ^ (1024 : Int) := by
    rw [Nat.abs_cast]
    calc (n : Rat) ≤ 2 ^ (53 : Int) := by exact_mod_cast h
      _ < 2 ^ (1024 : Int) := zpow_lt_zpow_right₀ (by norm_num) (by decide)
  rw [ofRat, nearest_nat h, if_pos hrange]

/-- The number after 2 to the 53rd is none. -/
theorem ofRat_past : ofRat (2 ^ 53 + 1) = .finite (2 ^ 53) := by decide +kernel

/-- A count stops at 2 to the 53rd. -/
theorem tally_eq (n : Nat) : tally n = .finite (min n (2 ^ 53) : Nat) := by
  induction n with
  | zero => rfl
  | succ n ih =>
    rw [tally, ih]
    change ofRat _ = _
    by_cases hroom : n < 2 ^ 53
    · have hsum : ((min n (2 ^ 53) : Nat) : Rat) + 1 = (n + 1 : Nat) := by
        rw [min_eq_left hroom.le]
        push_cast
        rfl
      rw [hsum, ofRat_nat hroom, min_eq_left hroom]
    · rw [min_eq_right (not_lt.mp hroom), min_eq_right (by omega)]
      push_cast
      exact ofRat_past

/-- So it is zero only where nothing was counted. -/
theorem tally_eq_zero {n : Nat} : tally n = .finite 0 ↔ n = 0 := by
  rw [tally_eq, Double.finite.injEq]
  norm_cast
  omega

/-- Whole numbers add up exactly up to 2 to the 53rd. -/
theorem total_nat {readings : List Nat} (h : readings.sum ≤ 2 ^ 53) :
    total (readings.map fun n : Nat => .finite n) = .finite readings.sum := by
  induction readings with
  | nil => rfl
  | cons n earlier ih =>
    rw [List.sum_cons] at h
    rw [List.map_cons, total, ih (by omega), List.sum_cons]
    have hsum : ((earlier.sum : Nat) : Rat) + n = (n + earlier.sum : Nat) := by
      push_cast
      ring
    change ofRat _ = _
    rw [hsum, ofRat_nat h]

/-- The mean of readings that are not negative is not negative. -/
theorem mean_nonneg {readings : List Double} (hsome : readings ≠ [])
    (h : ∀ v ∈ readings, v.NonNeg) : (mean readings).NonNeg := by
  have htotal := total_nonneg h
  have hlength : 0 < readings.length := List.length_pos_iff.mpr hsome
  have hcount : (0 : Rat) < (min readings.length (2 ^ 53) : Nat) := by
    exact_mod_cast lt_min hlength (by decide)
  unfold mean
  rw [tally_eq]
  cases hsum : total readings with
  | nan =>
    rw [hsum] at htotal
    exact htotal.elim
  | infinite s =>
    rw [hsum] at htotal
    obtain rfl : s = false := htotal
    change (false != decide _) = false
    rw [decide_eq_false (not_lt.mpr hcount.le)]
    rfl
  | finite q =>
    rw [hsum] at htotal
    rw [Double.div_finite q hcount.ne']
    exact ofRat_nonneg (div_nonneg htotal hcount.le)

/-- The mean of whole numbers that add up exactly is the double nearest to their mean. -/
theorem mean_nat {readings : List Nat} (hsome : readings ≠ []) (hcount : readings.length ≤ 2 ^ 53)
    (h : readings.sum ≤ 2 ^ 53) :
    mean (readings.map fun n : Nat => .finite n) = ofRat (readings.sum / readings.length) := by
  have hlength : (readings.length : Rat) ≠ 0 :=
    Nat.cast_ne_zero.mpr (List.length_pos_iff.mpr hsome).ne'
  unfold mean
  rw [total_nat h, tally_eq, List.length_map, min_eq_left hcount, Double.div_finite _ hlength]

end Romi.DoublePrecision
