import Romi.ClientAddress

/-!
# The bytes of an address

Whatever `parse` takes for an address is made of digits, dots and colons. Every
reader goes over such bytes only, however far it gets.
-/

namespace Romi.AddressBytes

open ClientAddress

/-- A byte that can be part of an address. -/
def AddressByte (b : UInt8) : Prop :=
  (digitOf 16 b).isSome = true ∨ b.toNat = '.'.toNat ∨ b.toNat = ':'.toNat

instance : DecidablePred AddressByte := fun b =>
  inferInstanceAs (Decidable ((digitOf 16 b).isSome = true ∨ b.toNat = '.'.toNat ∨ b.toNat = ':'.toNat))

/-- A reader went over some bytes, each part of an address. -/
def Reads (input rest : HeaderValue) : Prop :=
  ∃ used, input = used ++ rest ∧ ∀ b ∈ used, AddressByte b

/-- Nothing read. -/
theorem Reads.refl (input : HeaderValue) : Reads input input := ⟨[], rfl, fun _ h => (by cases h)⟩

/-- One byte of an address. -/
theorem Reads.single {b : UInt8} (hb : AddressByte b) (rest : HeaderValue) : Reads (b :: rest) rest := by
  refine ⟨[b], rfl, ?_⟩
  intro byte hbyte
  rwa [List.mem_singleton.mp hbyte]

/-- One reader after the other. -/
theorem Reads.trans {a b c : HeaderValue} (h : Reads a b) (h' : Reads b c) : Reads a c := by
  obtain ⟨used, rfl, hused⟩ := h
  obtain ⟨used', rfl, hused'⟩ := h'
  refine ⟨used ++ used', (List.append_assoc _ _ _).symm, ?_⟩
  intro byte hbyte
  rcases List.mem_append.mp hbyte with hbyte | hbyte
  · exact hused byte hbyte
  · exact hused' byte hbyte

/-- A digit of a smaller radix is one in base 16. -/
theorem addressByte_digit {radix : Nat} (hradix : radix ≤ 16) {b : UInt8} {digit : Nat}
    (h : digitOf radix b = some digit) : AddressByte b := by
  left
  unfold digitOf at h ⊢
  dsimp only at h ⊢
  have hlt := Option.isSome_of_mem h
  rw [Option.isSome_ite] at hlt
  rw [Option.isSome_ite]
  by_cases hdecimal : 48 ≤ b.toNat ∧ b.toNat ≤ 57
  · rw [if_pos hdecimal]
    omega
  · rw [if_neg hdecimal] at hlt ⊢
    by_cases hlower : 97 ≤ b.toNat ∧ b.toNat ≤ 122
    · rw [if_pos hlower] at hlt ⊢
      omega
    · rw [if_neg hlower] at hlt ⊢
      by_cases hupper : 65 ≤ b.toNat ∧ b.toNat ≤ 90
      · rw [if_pos hupper] at hlt ⊢
        omega
      · rw [if_neg hupper] at hlt
        exact absurd hlt (lt_irrefl radix)

/-- Digits are bytes of an address. -/
theorem reads_takeDigits {radix : Nat} (hradix : radix ≤ 16) (input : HeaderValue) :
    Reads input (takeDigits radix input).2 := by
  induction input with
  | nil => exact .refl _
  | cons b rest ih =>
    rw [takeDigits]
    cases hdigit : digitOf radix b with
    | none => exact .refl _
    | some digit => exact (Reads.single (addressByte_digit hradix hdigit) rest).trans ih

/-- So a number is read from such bytes. -/
theorem reads_readNumber {radix maxDigits limit value : Nat} (hradix : radix ≤ 16)
    {allowZeroPrefix : Bool} {input rest : HeaderValue}
    (h : readNumber radix maxDigits allowZeroPrefix limit input = some (value, rest)) :
    Reads input rest := by
  unfold readNumber at h
  dsimp only at h
  split at h
  · cases h
  · split at h
    · cases h
    · cases h
      exact reads_takeDigits hradix input

/-- A given character too, when it is one of them. -/
theorem reads_readGivenChar {c : Char} (hc : ∀ b : UInt8, b.toNat = c.toNat → AddressByte b)
    {input rest : HeaderValue} (h : readGivenChar c input = some rest) : Reads input rest := by
  cases input with
  | nil => cases h
  | cons b input =>
    rw [readGivenChar] at h
    by_cases hb : b.toNat = c.toNat
    · rw [if_pos hb] at h
      cases h
      exact .single (hc b hb) _
    · rw [if_neg hb] at h
      cases h

/-- The colon is. -/
theorem reads_colon {input rest : HeaderValue} (h : readGivenChar ':' input = some rest) :
    Reads input rest := reads_readGivenChar (fun _ hb => .inr (.inr hb)) h

/-- A separator before all but the first piece. -/
theorem reads_readSeparator {α : Type} {sep : Char}
    (hsep : ∀ b : UInt8, b.toNat = sep.toNat → AddressByte b) {index : Nat}
    {inner : HeaderValue → Option (α × HeaderValue)}
    (hinner : ∀ input a rest, inner input = some (a, rest) → Reads input rest)
    {input rest : HeaderValue} {a : α} (h : readSeparator sep index inner input = some (a, rest)) :
    Reads input rest := by
  unfold readSeparator at h
  split at h
  · obtain ⟨mid, hmid, hrest⟩ := Option.bind_eq_some_iff.mp h
    exact (reads_readGivenChar hsep hmid).trans (hinner _ _ _ hrest)
  · exact hinner _ _ _ h

/-- The four numbers of an IPv4 address. -/
theorem reads_readIpv4Addr {input rest : HeaderValue} {address : Nat}
    (h : readIpv4Addr input = some (address, rest)) : Reads input rest := by
  have hoctet : ∀ {index : Nat} {input rest : HeaderValue} {n : Nat},
      readOctet index input = some (n, rest) → Reads input rest := fun hread =>
    reads_readSeparator (fun _ hb => .inr (.inl hb)) (fun _ _ _ => reads_readNumber (by decide)) hread
  obtain ⟨⟨a, input₁⟩, ha, h⟩ := Option.bind_eq_some_iff.mp h
  obtain ⟨⟨b, input₂⟩, hb, h⟩ := Option.bind_eq_some_iff.mp h
  obtain ⟨⟨c, input₃⟩, hc, h⟩ := Option.bind_eq_some_iff.mp h
  obtain ⟨⟨d, input₄⟩, hd, h⟩ := Option.bind_eq_some_iff.mp h
  cases h
  exact (((hoctet ha).trans (hoctet hb)).trans (hoctet hc)).trans (hoctet hd)

/-- The groups of an IPv6 address, on one side of the gap. -/
theorem reads_readGroups (room : Nat) (groups : List Nat) (input : HeaderValue) :
    Reads input (readGroups room groups input).rest := by
  induction room generalizing groups input with
  | zero => exact .refl _
  | succ room ih =>
    rw [readGroups]
    split
    · rename_i address rest hfound
      split at hfound
      · exact reads_readSeparator (fun _ hb => .inr (.inr hb)) (fun _ _ _ => reads_readIpv4Addr) hfound
      · cases hfound
    · split
      · rename_i group rest hgroup
        exact (reads_readSeparator (fun _ hb => .inr (.inr hb))
          (fun _ _ _ => reads_readNumber le_rfl) hgroup).trans (ih _ rest)
      · exact .refl _

/-- And the whole of one. -/
theorem reads_readIpv6Addr {input rest : HeaderValue} {groups : List Nat}
    (h : readIpv6Addr input = some (groups, rest)) : Reads input rest := by
  have hhead := reads_readGroups 8 [] input
  unfold readIpv6Addr at h
  dsimp only at h
  split at h
  · cases h
    exact hhead
  · split at h
    · cases h
    · obtain ⟨input₁, hfirst, h⟩ := Option.bind_eq_some_iff.mp h
      obtain ⟨input₂, hsecond, h⟩ := Option.bind_eq_some_iff.mp h
      cases h
      exact ((hhead.trans (reads_colon hfirst)).trans (reads_colon hsecond)).trans
        (reads_readGroups _ _ _)

/-- What is read whole is made of such bytes. -/
theorem Reads.all {input : HeaderValue} (h : Reads input []) : ∀ b ∈ input, AddressByte b := by
  obtain ⟨used, hused, hbytes⟩ := h
  rw [List.append_nil] at hused
  rwa [hused]

/-- An address is made of such bytes. -/
theorem parseIpAddr_bytes {input : HeaderValue} {ip : IpAddr} (h : parseIpAddr input = some ip) :
    ∀ b ∈ input, AddressByte b := by
  have hread : ∃ ip', readIpAddr input = some (ip', []) := by
    unfold parseIpAddr at h
    split at h
    · rename_i ip' hsome
      exact ⟨ip', hsome⟩
    · cases h
  obtain ⟨ip', hread⟩ := hread
  unfold readIpAddr at hread
  split at hread
  · rename_i bits rest hv4
    cases hread
    exact (reads_readIpv4Addr hv4).all
  · obtain ⟨⟨groups, rest⟩, hv6, hpair⟩ := Option.map_eq_some_iff.mp hread
    cases hpair
    exact (reads_readIpv6Addr hv6).all

end Romi.AddressBytes
