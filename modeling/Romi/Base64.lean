import Mathlib.Data.List.GetD
import Mathlib.Data.Option.Basic

/-!
# Base64

Three bytes are four characters of six bits each; one or two bytes at the end are padded.
A text decodes to the bytes it was made of, so different bytes have different texts.
-/

namespace Romi.Base64

/-- The alphabet. -/
def alphabet : List Char :=
  "ABCDEFGHIJKLMNOPQRSTUVWXYZabcdefghijklmnopqrstuvwxyz0123456789+/".toList

/-- The character of six bits. -/
def symbol (n : Nat) : Char := alphabet.getD n '='

/-- Up to three bytes as one number. -/
def joined (a b c : UInt8) : Nat := a.toNat <<< 16 ||| b.toNat <<< 8 ||| c.toNat

/-- One of the four characters of 24 bits. -/
def sextet (n i : Nat) : Char := symbol (n >>> (18 - 6 * i) &&& 0x3f)

/-- The four characters of a chunk. -/
def chunk (bytes : List UInt8) : List Char :=
  let n := joined (bytes.getD 0 0) (bytes.getD 1 0) (bytes.getD 2 0)
  (List.range 4).map fun i =>
    if i ≤ bytes.length then sextet n i else '='

/-- The text of some bytes. -/
def base64 : List UInt8 → List Char
  | [] => []
  | [a] => chunk [a]
  | [a, b] => chunk [a, b]
  | a :: b :: c :: rest => chunk [a, b, c] ++ base64 rest

/-! ## Decoding -/

/-- The six bits of a character. -/
def value (c : Char) : Nat := alphabet.idxOf c

/-- The bytes of four characters. -/
def quad (w x y z : Char) : List UInt8 :=
  let a := UInt8.ofNat (value w * 4 + value x / 16)
  let b := UInt8.ofNat (value x % 16 * 16 + value y / 4)
  let c := UInt8.ofNat (value y % 4 * 64 + value z)
  if y = '=' then [a] else if z = '=' then [a, b] else [a, b, c]

/-- The bytes of a text. -/
def decode : List Char → List UInt8
  | w :: x :: y :: z :: rest => quad w x y z ++ decode rest
  | _ => []

/-- A symbol has the value it stands for. -/
theorem value_symbol : ∀ n < 64, value (symbol n) = n := by decide +kernel

/-- It is of the alphabet. -/
theorem symbol_mem {n : Nat} (h : n < 64) : symbol n ∈ alphabet := by
  have hlength : n < alphabet.length := h
  rw [symbol, List.getD_eq_getElem _ _ hlength]
  exact List.getElem_mem hlength

/-- It is no padding. -/
theorem symbol_ne_pad {n : Nat} (h : n < 64) : symbol n ≠ '=' := by
  intro hpad
  have hmem := symbol_mem h
  rw [hpad] at hmem
  exact absurd hmem (by decide +kernel)

/-- Three bytes as one number. -/
theorem joined_eq (a b c : UInt8) : joined a b c = a.toNat * 65536 + b.toNat * 256 + c.toNat := by
  have hb : b.toNat < 2 ^ 8 := b.toNat_lt
  have hc : c.toNat < 2 ^ 8 := c.toNat_lt
  have hlow : b.toNat <<< 8 + c.toNat < 2 ^ 16 := by
    rw [Nat.shiftLeft_eq]
    omega
  unfold joined
  rw [Nat.or_assoc, ← Nat.shiftLeft_add_eq_or_of_lt hc, ← Nat.shiftLeft_add_eq_or_of_lt hlow,
    Nat.shiftLeft_eq, Nat.shiftLeft_eq]
  omega

/-- Six bits of a number are a remainder. -/
theorem sextet_eq (n k : Nat) : n >>> k &&& 0x3f = n >>> k % 64 :=
  Nat.and_two_pow_sub_one_eq_mod _ 6

/-- And less than sixty-four. -/
theorem sextet_lt (n k : Nat) : n >>> k &&& 0x3f < 64 := by
  rw [sextet_eq]
  exact Nat.mod_lt _ (by decide)

/-- A byte is built from its number. -/
theorem byte_eq {a : UInt8} {n : Nat} (h : n = a.toNat) : UInt8.ofNat n = a := by
  rw [h]
  exact UInt8.ofNat_toNat

/-- Six bits, written and read. -/
theorem value_sextet (n i : Nat) : value (sextet n i) = n >>> (18 - 6 * i) % 64 :=
  (value_symbol _ (sextet_lt _ _)).trans (sextet_eq _ _)

/-- No symbol of bits is padding. -/
theorem sextet_ne_pad (n i : Nat) : sextet n i ≠ '=' := symbol_ne_pad (sextet_lt _ _)

/-- Three bytes make four symbols. -/
theorem chunk_three (a b c : UInt8) : chunk [a, b, c] =
    [sextet (joined a b c) 0, sextet (joined a b c) 1, sextet (joined a b c) 2,
      sextet (joined a b c) 3] := by
  rfl

/-- Two make three and padding. -/
theorem chunk_two (a b : UInt8) : chunk [a, b] =
    [sextet (joined a b 0) 0, sextet (joined a b 0) 1, sextet (joined a b 0) 2, '='] := by
  rfl

/-- One makes two and padding twice. -/
theorem chunk_one (a : UInt8) : chunk [a] =
    [sextet (joined a 0 0) 0, sextet (joined a 0 0) 1, '=', '='] := by
  rfl

/-- Four symbols make the three bytes again. -/
theorem quad_three (a b c : UInt8) :
    quad (sextet (joined a b c) 0) (sextet (joined a b c) 1) (sextet (joined a b c) 2)
      (sextet (joined a b c) 3) = [a, b, c] := by
  have ha := a.toNat_lt
  have hb := b.toNat_lt
  have hc := c.toNat_lt
  unfold quad
  rw [if_neg (sextet_ne_pad _ _), if_neg (sextet_ne_pad _ _)]
  simp only [value_sextet, joined_eq, Nat.shiftRight_eq_div_pow]
  rw [byte_eq (a := a) (by omega), byte_eq (a := b) (by omega), byte_eq (a := c) (by omega)]

/-- What is written so is read again. -/
theorem decode_base64 (bytes : List UInt8) : decode (base64 bytes) = bytes := by
  fun_induction base64 bytes with
  | case1 => rfl
  | case2 a =>
    have ha := a.toNat_lt
    rw [chunk_one, decode, quad, if_pos rfl]
    simp only [value_sextet, joined_eq, Nat.shiftRight_eq_div_pow]
    rw [byte_eq (a := a) (by simp; omega)]
    rfl
  | case3 a b =>
    have ha := a.toNat_lt
    have hb := b.toNat_lt
    rw [chunk_two, decode, quad, if_neg (sextet_ne_pad _ _), if_pos rfl]
    simp only [value_sextet, joined_eq, Nat.shiftRight_eq_div_pow]
    rw [byte_eq (a := a) (by simp; omega), byte_eq (a := b) (by simp; omega)]
    rfl
  | case4 a b c rest ih =>
    rw [chunk_three]
    change quad _ _ _ _ ++ decode (base64 rest) = _
    rw [quad_three, ih]
    rfl

/-- Different bytes have different texts. -/
theorem base64_injective : Function.Injective base64 :=
  Function.LeftInverse.injective decode_base64

/-- Every symbol is of the alphabet. -/
theorem sextet_mem (n i : Nat) : sextet n i ∈ alphabet := symbol_mem (sextet_lt _ _)

/-- A text has no other characters. -/
theorem mem_base64 {bytes : List UInt8} : ∀ c ∈ base64 bytes, c = '=' ∨ c ∈ alphabet := by
  fun_induction base64 bytes with
  | case1 => nofun
  | case2 a =>
    rw [chunk_one]
    simp [sextet_mem]
  | case3 a b =>
    rw [chunk_two]
    simp [sextet_mem]
  | case4 a b c rest ih =>
    intro x hx
    rcases List.mem_append.mp hx with hchunk | hrest
    · rw [chunk_three] at hchunk
      right
      simp only [List.mem_cons, List.not_mem_nil, or_false] at hchunk
      rcases hchunk with rfl | rfl | rfl | rfl
      · exact sextet_mem _ _
      · exact sextet_mem _ _
      · exact sextet_mem _ _
      · exact sextet_mem _ _
    · exact ih x hrest

end Romi.Base64
