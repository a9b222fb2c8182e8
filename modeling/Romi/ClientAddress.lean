import Mathlib.Data.List.TakeWhile

/-!
# The address a request is attributed to

Behind a loopback proxy the address is read out of `X-Forwarded-For`: the last
element of its first line. The proxy's own observation is the last element of
the last line. The two are the same as long as the header arrives as one line
that can be read as text.
-/

namespace Romi.ClientAddress

/-! ## Addresses -/

/-- `IpAddr`, as its bits. -/
inductive IpAddr
  /-- Of four bytes. -/
  | v4 (bits : BitVec 32)
  /-- Of sixteen. -/
  | v6 (bits : BitVec 128)
  deriving DecidableEq

/-- `to_canonical`: an IPv4-mapped address is the IPv4 address. -/
def IpAddr.toCanonical : IpAddr → IpAddr
  | .v4 bits => .v4 bits
  | .v6 bits => if bits >>> 32 = 0xffff then .v4 (bits.truncate 32) else .v6 bits

/-- `is_loopback`: 127.0.0.0/8 and ::1. -/
def IpAddr.isLoopback : IpAddr → Bool
  | .v4 bits => bits >>> 24 = 127
  | .v6 bits => bits = 1

/-! ## The text of an address -/

/-- The bytes of a header value. -/
abbrev HeaderValue := List UInt8

/-- The bytes of a text. -/
def ascii (text : String) : HeaderValue := text.toList.map fun c => c.toNat.toUInt8

/-- `char::to_digit`. -/
def digitOf (radix : Nat) (b : UInt8) : Option Nat :=
  let n := b.toNat
  let digit := if 48 ≤ n ∧ n ≤ 57 then n - 48 else if 97 ≤ n ∧ n ≤ 122 then n - 87
    else if 65 ≤ n ∧ n ≤ 90 then n - 55 else radix
  if digit < radix then some digit else none

/-- The digits at the front of a text. -/
def takeDigits (radix : Nat) : HeaderValue → List Nat × HeaderValue
  | [] => ([], [])
  | b :: rest =>
    match digitOf radix b with
    | none => ([], b :: rest)
    | some digit => ((digit :: (takeDigits radix rest).1), (takeDigits radix rest).2)

/-- `read_number`: at least one digit, at most so many, below a limit. -/
def readNumber (radix maxDigits : Nat) (allowZeroPrefix : Bool) (limit : Nat)
    (input : HeaderValue) : Option (Nat × HeaderValue) :=
  let (digits, rest) := takeDigits radix input
  let value := digits.foldl (fun value digit => value * radix + digit) 0
  if digits.length = 0 ∨ digits.length > maxDigits ∨ value ≥ limit then none
  else if allowZeroPrefix = false ∧ digits.head? = some 0 ∧ digits.length > 1 then none
  else some (value, rest)

/-- `read_given_char`. -/
def readGivenChar (c : Char) : HeaderValue → Option HeaderValue
  | [] => none
  | b :: rest => if b.toNat = c.toNat then some rest else none

/-- `read_separator`: every part but the first comes after a separator. -/
def readSeparator {α : Type} (sep : Char) (index : Nat) (inner : HeaderValue → Option (α × HeaderValue))
    (input : HeaderValue) : Option (α × HeaderValue) :=
  if index > 0 then (readGivenChar sep input).bind inner else inner input

/-- One part of a dotted address. -/
def readOctet (index : Nat) (input : HeaderValue) : Option (Nat × HeaderValue) :=
  readSeparator '.' index (readNumber 10 3 false 256) input

/-- `read_ipv4_addr`. -/
def readIpv4Addr (input : HeaderValue) : Option (Nat × HeaderValue) := do
  let (a, input) ← readOctet 0 input
  let (b, input) ← readOctet 1 input
  let (c, input) ← readOctet 2 input
  let (d, input) ← readOctet 3 input
  pure (((a * 256 + b) * 256 + c) * 256 + d, input)

/-- What `read_groups` found: the groups, and whether they end with an IPv4 address. -/
structure Groups where
  /-- The groups read. -/
  groups : List Nat
  /-- Whether the last two are those of an IPv4 address. -/
  ipv4 : Bool
  /-- What is left to read. -/
  rest : HeaderValue

/-- `read_groups`, with the number of groups there is still room for. -/
def readGroups : Nat → List Nat → HeaderValue → Groups
  | 0, groups, input => ⟨groups, false, input⟩
  | room + 1, groups, input =>
    match if room > 0 then readSeparator ':' groups.length readIpv4Addr input else none with
    | some (address, rest) => ⟨groups ++ [address / 65536, address % 65536], true, rest⟩
    | none =>
      match readSeparator ':' groups.length (readNumber 16 4 true 65536) input with
      | some (group, rest) => readGroups room (groups ++ [group]) rest
      | none => ⟨groups, false, input⟩

/-- `read_ipv6_addr`. -/
def readIpv6Addr (input : HeaderValue) : Option (List Nat × HeaderValue) :=
  let head := readGroups 8 [] input
  if head.groups.length = 8 then some (head.groups, head.rest)
  else if head.ipv4 then none
  else do
    let input ← readGivenChar ':' head.rest
    let input ← readGivenChar ':' input
    let tail := readGroups (8 - (head.groups.length + 1)) [] input
    let zeroes := List.replicate (8 - (head.groups.length + tail.groups.length)) 0
    pure (head.groups ++ zeroes ++ tail.groups, tail.rest)

/-- `read_ip_addr`. -/
def readIpAddr (input : HeaderValue) : Option (IpAddr × HeaderValue) :=
  match readIpv4Addr input with
  | some (bits, rest) => some (.v4 (.ofNat 32 bits), rest)
  | none => (readIpv6Addr input).map fun (groups, rest) =>
    (.v6 (.ofNat 128 (groups.foldl (fun bits group => bits * 65536 + group) 0)), rest)

/-- `parse::<IpAddr>`: the whole text is one address. -/
def parseIpAddr (input : HeaderValue) : Option IpAddr :=
  match readIpAddr input with
  | some (ip, []) => some ip
  | _ => none

example : parseIpAddr (ascii "198.51.100.9") = some (.v4 0xc6336409) := by decide

example : parseIpAddr (ascii "::ffff:127.0.0.1") = some (.v6 0xffff7f000001) := by decide

example : parseIpAddr (ascii "127.0.0.01") = none := by decide

/-! ## The header -/

/-- Header lines in the order they arrived, each with its name in lower case. -/
abbrev HeaderMap := List (String × HeaderValue)

/-- `HeaderMap::get`: the first line of that name. -/
def HeaderMap.get (headers : HeaderMap) (name : String) : Option HeaderValue := headers.lookup name

/-- `HeaderValue::to_str`: only visible ASCII and tabs can be read as text. -/
def toStr (v : HeaderValue) : Option HeaderValue :=
  if v.all fun b => (32 ≤ b.toNat ∧ b.toNat < 127) ∨ b.toNat = 9 then some v else none

/-- `rsplit(',').next()`: what stands after the last comma. -/
def lastPiece (v : HeaderValue) : HeaderValue :=
  (v.reverse.takeWhile fun b => b.toNat ≠ ','.toNat).reverse

/-- White space of a text of this kind. -/
def isBlank (b : UInt8) : Bool := b.toNat = 32 ∨ (9 ≤ b.toNat ∧ b.toNat ≤ 13)

/-- `trim`. -/
def trim (v : HeaderValue) : HeaderValue :=
  ((v.dropWhile isBlank).reverse.dropWhile isBlank).reverse

/-- `behind_loopback_proxy`. -/
def behindLoopbackProxy (ip : IpAddr) : Bool := ip.isLoopback

/-- `client_ip`. -/
def clientIp (headers : HeaderMap) (peer : IpAddr) : IpAddr :=
  let peer := peer.toCanonical
  if !behindLoopbackProxy peer then peer
  else
    let forwarded := do
      let v ← headers.get "x-forwarded-for"
      let v ← toStr v
      parseIpAddr (trim (lastPiece v))
    match forwarded with
    | some ip => ip.toCanonical
    | none => peer

/-! ## What the proxy says -/

/-- The lines of the header. -/
def forwardedLines (headers : HeaderMap) : List HeaderValue :=
  (headers.filter fun line => line.1 = "x-forwarded-for").map Prod.snd

/-- The address that is the last element of a line. -/
def saidBy (line : HeaderValue) : Option IpAddr := parseIpAddr (trim (lastPiece line))

/-- The last element over all lines is this address. -/
def Appended (headers : HeaderMap) (ip : IpAddr) : Prop :=
  (forwardedLines headers).getLast?.bind saidBy = some ip

/-- The claim of the proxy decides, and nothing but the peer where there is none. -/
structure Attributed (headers : HeaderMap) (peer : IpAddr) : Prop where
  /-- Behind a loopback proxy, the address is the one the proxy appended. -/
  proxied : behindLoopbackProxy peer.toCanonical = true → ∀ ip, Appended headers ip →
    clientIp headers peer = ip.toCanonical
  /-- Otherwise it is that of the peer. -/
  direct : behindLoopbackProxy peer.toCanonical = false → clientIp headers peer = peer.toCanonical

/-- A line that can be read as text says this address. -/
def Says (line : HeaderValue) (ip : IpAddr) : Prop :=
  (toStr line).isSome = true ∧ ∃ said, saidBy line = some said ∧ said.toCanonical = ip

/-- The first line says the address the last one says; or it says none, and the proxy speaks of
itself. -/
def Settled (headers : HeaderMap) (peer : IpAddr) : Prop :=
  behindLoopbackProxy peer.toCanonical = true → ∀ ip, Appended headers ip →
    ∃ first ∈ (forwardedLines headers).head?, Says first ip.toCanonical ∨
      (∀ other, ¬ Says first other) ∧ peer.toCanonical = ip.toCanonical

/-- `get` finds the first of the lines. -/
theorem get_eq_head (headers : HeaderMap) :
    headers.get "x-forwarded-for" = (forwardedLines headers).head? := by
  induction headers with
  | nil => rfl
  | cons line rest ih =>
    obtain ⟨name, v⟩ := line
    by_cases hname : name = "x-forwarded-for"
    · subst hname
      simp [HeaderMap.get, forwardedLines]
    · have hne : ("x-forwarded-for" == name) = false := by simpa using Ne.symm hname
      have hrest : forwardedLines ((name, v) :: rest) = forwardedLines rest := by
        simp [forwardedLines, hname]
      rw [hrest, ← ih]
      rw [HeaderMap.get, List.lookup_cons, hne]
      rfl

/-- A readable line is its own text. -/
theorem toStr_eq {line : HeaderValue} (h : (toStr line).isSome = true) : toStr line = some line := by
  simp only [toStr] at h ⊢
  split at h
  · rename_i hall
    rw [if_pos hall]
  · exact absurd h (by decide)

/-- Behind the proxy, a first line that says an address decides. -/
theorem clientIp_says {headers : HeaderMap} {peer ip : IpAddr} {first : HeaderValue}
    (hproxy : behindLoopbackProxy peer.toCanonical = true)
    (hfirst : (forwardedLines headers).head? = some first) (hword : Says first ip) :
    clientIp headers peer = ip := by
  obtain ⟨hread, said, hsaid, hip⟩ := hword
  have hparse : parseIpAddr (trim (lastPiece first)) = some said := hsaid
  simp [clientIp, hproxy, get_eq_head, hfirst, toStr_eq hread, hparse, hip]

/-- Behind the proxy, a first line that says no address leaves the peer. -/
theorem clientIp_mute {headers : HeaderMap} {peer : IpAddr} {first : HeaderValue}
    (hfirst : (forwardedLines headers).head? = some first) (hmute : ∀ other, ¬ Says first other) :
    clientIp headers peer = peer.toCanonical := by
  have hnone : ((toStr first).bind fun v => parseIpAddr (trim (lastPiece v))) = none := by
    cases hread : toStr first with
    | none => rfl
    | some v =>
      have hsome : (toStr first).isSome = true := by rw [hread]; rfl
      have hv : first = v := Option.some.inj ((toStr_eq hsome).symm.trans hread)
      cases hsaid : parseIpAddr (trim (lastPiece v)) with
      | none => simp [hsaid]
      | some said => exact absurd ⟨hsome, said, by rw [hv]; exact hsaid, rfl⟩ (hmute said.toCanonical)
  simp only [clientIp, get_eq_head, hfirst]
  split
  · rfl
  · have hbind : (do
        let v ← some first
        let v ← toStr v
        parseIpAddr (trim (lastPiece v))) = none := hnone
    rw [hbind]

/-- A header whose last line says an address has a first line. -/
theorem Appended.first {headers : HeaderMap} {ip : IpAddr} (h : Appended headers ip) :
    ∃ first, (forwardedLines headers).head? = some first := by
  cases hlines : forwardedLines headers with
  | nil => simp [Appended, hlines] at h
  | cons first rest => exact ⟨first, rfl⟩

/-- The address is the proxy's exactly when the first line does not speak against the last. -/
theorem attributed_iff (headers : HeaderMap) (peer : IpAddr) :
    Attributed headers peer ↔ Settled headers peer := by
  constructor
  · intro h hproxy ip hip
    have hresult := h.proxied hproxy ip hip
    obtain ⟨first, hfirst⟩ := hip.first
    refine ⟨first, hfirst, ?_⟩
    by_cases hword : ∃ other, Says first other
    · obtain ⟨other, hother⟩ := hword
      have hread := clientIp_says hproxy hfirst hother
      left
      rwa [← hresult, hread]
    · have hmute : ∀ other, ¬ Says first other := fun other hother => hword ⟨other, hother⟩
      right
      exact ⟨hmute, by rw [← clientIp_mute hfirst hmute, hresult]⟩
  · intro h
    refine ⟨fun hproxy ip hip => ?_, fun hdirect => by simp [clientIp, hdirect]⟩
    obtain ⟨first, hfirst, hword | ⟨hmute, hpeer⟩⟩ := h hproxy ip hip
    · exact clientIp_says hproxy hfirst hword
    · rw [clientIp_mute hfirst hmute, hpeer]

/-- Two lines through the local proxy: the one the client sent decides. -/
theorem client_picks_address :
    ¬ ∀ headers peer, Attributed headers peer := by
  intro h
  have hattr := h [("x-forwarded-for", ascii "10.0.0.2"), ("x-forwarded-for", ascii "198.51.100.9")]
    (.v4 0x7f000001)
  have hresult := hattr.proxied (by decide) (.v4 0xc6336409) (by
    show Option.bind _ saidBy = _
    decide)
  exact absurd hresult (by decide)

-- A byte outside ASCII in what the client sent hides the whole line.
example : clientIp [("x-forwarded-for", 128 :: ascii ", 198.51.100.9")] (.v4 0x7f000001)
    = .v4 0x7f000001 := by decide

/-! ## One line -/

/-- What a proxy adds to a line is its last element. -/
theorem saidBy_append (sent said : HeaderValue) (hcomma : ∀ b ∈ said, b.toNat ≠ ','.toNat) :
    saidBy (sent ++ ascii ", " ++ said) = saidBy said := by
  have hlast : ∀ front : HeaderValue, lastPiece (front ++ ascii "," ++ (32 :: said)) = 32 :: said := by
    intro front
    have hall : ∀ b ∈ (32 :: said).reverse, decide (b.toNat ≠ ','.toNat) = true := by
      intro b hb
      rcases List.mem_cons.1 (List.mem_reverse.1 hb) with rfl | hb
      · decide
      · simpa using hcomma b hb
    have hshape : (front ++ ascii "," ++ (32 :: said)).reverse
        = (32 :: said).reverse ++ (44 :: front.reverse) := by
      have hcommaByte : ascii "," = [44] := by decide
      simp [hcommaByte]
    rw [lastPiece, hshape, List.takeWhile_append_of_pos hall, List.takeWhile_cons_of_neg (by decide),
      List.append_nil, List.reverse_reverse]
  have hself : lastPiece said = said := by
    have hall : ∀ b ∈ said.reverse, decide (b.toNat ≠ ','.toNat) = true := by
      intro b hb
      simpa using hcomma b (List.mem_reverse.1 hb)
    rw [lastPiece, List.takeWhile_eq_self_iff.2 hall, List.reverse_reverse]
  have hsplit : sent ++ ascii ", " ++ said = sent ++ ascii "," ++ (32 :: said) := by
    have hbytes : ascii ", " = ascii "," ++ [32] := by decide
    simp [hbytes]
  have htrim : trim (32 :: said) = trim said := by
    rw [trim, List.dropWhile_cons_of_pos (by decide), trim]
  rw [saidBy, saidBy, hsplit, hlast, hself, htrim]

/-- Whatever a client wrote that can be read as text, on the one line its proxy appends to, the
address is the one appended. -/
theorem one_line {headers : HeaderMap} {peer ip : IpAddr} {sent said : HeaderValue}
    (hproxy : behindLoopbackProxy peer.toCanonical = true)
    (hlines : forwardedLines headers = [sent ++ ascii ", " ++ said])
    (hread : (toStr (sent ++ ascii ", " ++ said)).isSome = true)
    (hcomma : ∀ b ∈ said, b.toNat ≠ ','.toNat) (hsaid : saidBy said = some ip) :
    clientIp headers peer = ip.toCanonical := by
  refine clientIp_says hproxy (by rw [hlines]; rfl) ⟨hread, ip, ?_, rfl⟩
  rw [saidBy_append sent said hcomma, hsaid]

/-- Two requests that differ only in such text are attributed to one address. -/
theorem one_line_agrees {headers headers' : HeaderMap} {peer ip : IpAddr}
    {sent sent' said : HeaderValue} (hproxy : behindLoopbackProxy peer.toCanonical = true)
    (hlines : forwardedLines headers = [sent ++ ascii ", " ++ said])
    (hlines' : forwardedLines headers' = [sent' ++ ascii ", " ++ said])
    (hread : (toStr (sent ++ ascii ", " ++ said)).isSome = true)
    (hread' : (toStr (sent' ++ ascii ", " ++ said)).isSome = true)
    (hcomma : ∀ b ∈ said, b.toNat ≠ ','.toNat) (hsaid : saidBy said = some ip) :
    clientIp headers peer = clientIp headers' peer := by
  rw [one_line hproxy hlines hread hcomma hsaid, one_line hproxy hlines' hread' hcomma hsaid]

end Romi.ClientAddress
