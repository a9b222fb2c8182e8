import Mathlib.Data.List.TakeWhile

/-!
# The generic syntax of a URI

By RFC 3986 a text is taken apart at the first delimiter that ends a component,
and each component has characters of its own. Which texts are addresses of
version 6 is left to a parameter.
-/

namespace Romi.UriSyntax

/-! ## Characters -/

/-- A hexadecimal digit. -/
def isHex (c : Char) : Bool := c.isDigit || ('a' ≤ c && c ≤ 'f') || ('A' ≤ c && c ≤ 'F')

/-- A character that stands for itself anywhere. -/
def isUnreserved (c : Char) : Bool := c.isAlphanum || "-._~".toList.contains c

/-- A character that may delimit parts. -/
def isSubDelim (c : Char) : Bool := "!$&'()*+,;=".toList.contains c

/-- Allowed characters, and any octet as a percent sign with two digits. -/
def wellEscaped (allowed : Char → Bool) : List Char → Bool
  | [] => true
  | '%' :: a :: b :: rest => isHex a && isHex b && wellEscaped allowed rest
  | c :: rest => c != '%' && allowed c && wellEscaped allowed rest

/-- A character of a path. -/
def isPchar (c : Char) : Bool := isUnreserved c || isSubDelim c || c == ':' || c == '@'

/-- A letter, then letters, digits, plus, minus and points. -/
def isScheme : List Char → Bool
  | [] => false
  | c :: rest => c.isAlpha && rest.all fun d => d.isAlphanum || "+-.".toList.contains d

/-- What may stand before the at sign. -/
def isUserinfo (text : List Char) : Bool :=
  wellEscaped (fun c => isUnreserved c || isSubDelim c || c == ':') text

/-- A name, as it is registered. -/
def isRegName (text : List Char) : Bool := wellEscaped (fun c => isUnreserved c || isSubDelim c) text

/-- Segments with slashes between them. -/
def isPath (text : List Char) : Bool := wellEscaped (fun c => isPchar c || c == '/') text

/-- What may follow a question mark. -/
def isQuery (text : List Char) : Bool := wellEscaped (fun c => isPchar c || c == '/' || c == '?') text

/-- `IPvFuture`. -/
def isFuture (text : List Char) : Bool :=
  match text with
  | c :: rest =>
    let version := rest.takeWhile (· ≠ '.')
    let address := (rest.dropWhile (· ≠ '.')).drop 1
    (c == 'v' || c == 'V') && !version.isEmpty && version.all isHex && rest.contains '.' &&
      !address.isEmpty && address.all fun c => isUnreserved c || isSubDelim c || c == ':'
  | [] => false

/-! ## Components -/

/-- What stands before the first of these delimiters. -/
def before (stops : List Char) (text : List Char) : List Char := text.takeWhile fun c => !stops.contains c

/-- The rest, from that delimiter on. -/
def after (stops : List Char) (text : List Char) : List Char := text.dropWhile fun c => !stops.contains c

/-- The scheme and what follows its colon. -/
def splitScheme (text : List Char) : Option (List Char × List Char) :=
  match after [':', '/', '?', '#'] text with
  | ':' :: rest => some (before [':', '/', '?', '#'] text, rest)
  | _ => none

/-- The authority, where there is one, and what follows it. -/
def splitAuthority : List Char → Option (List Char) × List Char
  | '/' :: '/' :: rest => (some (before ['/', '?', '#'] rest), after ['/', '?', '#'] rest)
  | rest => (none, rest)

/-- The authority of a text, as it stands there. -/
def authorityText (text : List Char) : Option (List Char) :=
  (splitScheme text).bind fun p => (splitAuthority p.2).1

/-- A host: what stands between brackets, or a name, which may be an address
of version 4. -/
inductive Host
  /-- An address in brackets. -/
  | literal (text : List Char)
  /-- A name or an address without them. -/
  | name (text : List Char)
  deriving DecidableEq

/-- Who is addressed. -/
structure Authority where
  /-- What stands before the at sign. -/
  userinfo : Option (List Char)
  /-- The host. -/
  host : Host
  /-- The digits after the colon. -/
  port : Option (List Char)
  deriving DecidableEq

/-- The five parts of an address. -/
structure Uri where
  /-- What stands before the colon. -/
  scheme : List Char
  /-- What follows two slashes. -/
  authority : Option Authority
  /-- What follows that. -/
  path : List Char
  /-- What follows a question mark. -/
  query : Option (List Char)
  /-- What follows a number sign. -/
  fragment : Option (List Char)
  deriving DecidableEq

/-- The part before the at sign, and the rest. -/
def splitUserinfo (text : List Char) : Option (List Char) × List Char :=
  match after ['@'] text with
  | '@' :: rest => (some (before ['@'] text), rest)
  | _ => (none, text)

/-- The host, and what follows it. -/
def splitHost : List Char → Option (Host × List Char)
  | '[' :: rest =>
    match after [']'] rest with
    | ']' :: tail => some (.literal (before [']'] rest), tail)
    | _ => none
  | text => some (.name (before [':'] text), after [':'] text)

/-- A port is any number of digits behind a colon. -/
def splitPort : List Char → Option (Option (List Char))
  | [] => some none
  | ':' :: port => if port.all Char.isDigit then some (some port) else none
  | _ => none

/-- The query and the fragment. -/
def splitQuery : List Char → Option (List Char) × Option (List Char)
  | '?' :: rest =>
    (some (before ['#'] rest), match after ['#'] rest with
      | '#' :: fragment => some fragment
      | _ => none)
  | '#' :: fragment => (none, some fragment)
  | _ => (none, none)

section Parser

variable (isIpv6 : List Char → Bool)

/-- A host as it may be written. -/
def isHost : Host → Bool
  | .literal text => isIpv6 text || isFuture text
  | .name text => isRegName text

/-- The authority in its parts. -/
def parseAuthority (text : List Char) : Option Authority :=
  match splitHost (splitUserinfo text).2 with
  | none => none
  | some (host, tail) =>
    match splitPort tail with
    | none => none
    | some port =>
      if (splitUserinfo text).1.all isUserinfo && isHost isIpv6 host then
        some ⟨(splitUserinfo text).1, host, port⟩
      else none

/-- A text that conforms to the grammar, taken apart. -/
def parseUri (text : List Char) : Option Uri :=
  match splitScheme text with
  | none => none
  | some (scheme, rest) =>
    let tail := (splitAuthority rest).2
    let path := before ['?', '#'] tail
    let (query, fragment) := splitQuery (after ['?', '#'] tail)
    if isScheme scheme && isPath path && query.all isQuery && fragment.all isQuery then
      match (splitAuthority rest).1 with
      | none => some ⟨scheme, none, path, query, fragment⟩
      | some text => (parseAuthority isIpv6 text).map fun authority =>
        ⟨scheme, some authority, path, query, fragment⟩
    else none

end Parser

/-- The host of a URI. -/
def Uri.host (uri : Uri) : Option Host := uri.authority.map Authority.host

/-! ## How a text is read -/

variable {isIpv6 : List Char → Bool}

/-- The parts of a text that conforms. -/
theorem parseUri_parts {text : List Char} {uri : Uri} (h : parseUri isIpv6 text = some uri) :
    ∃ rest, splitScheme text = some (uri.scheme, rest) ∧
      ∀ authority, (splitAuthority rest).1 = some authority →
        ∃ a, uri.authority = some a ∧ parseAuthority isIpv6 authority = some a := by
  unfold parseUri at h
  split at h
  · cases h
  · rename_i scheme rest hscheme
    dsimp only at h
    split at h
    · split at h
      · rename_i hnone
        cases h
        refine ⟨rest, hscheme, ?_⟩
        intro authority hsome
        rw [hnone] at hsome
        cases hsome
      · rename_i text' hsome
        obtain ⟨a, ha, rfl⟩ := Option.map_eq_some_iff.mp h
        refine ⟨rest, hscheme, ?_⟩
        intro authority hauthority
        rw [hsome] at hauthority
        cases hauthority
        exact ⟨a, rfl, ha⟩
    · cases h

/-- Without an at sign there is no userinfo. -/
theorem splitUserinfo_none {text : List Char} (h : '@' ∉ text) : splitUserinfo text = (none, text) := by
  have hafter : after ['@'] text = [] := by
    unfold after
    rw [List.dropWhile_eq_nil_iff]
    intro c hc
    have hne : c ≠ '@' := fun heq => h (heq ▸ hc)
    simp [hne]
  unfold splitUserinfo
  rw [hafter]

/-- The host of an authority without userinfo. -/
theorem parseAuthority_host {text : List Char} {a : Authority} (hplain : '@' ∉ text)
    (h : parseAuthority isIpv6 text = some a) :
    ∃ tail, splitHost text = some (a.host, tail) ∧ isHost isIpv6 a.host = true := by
  unfold parseAuthority at h
  rw [splitUserinfo_none hplain] at h
  split at h
  · cases h
  · rename_i host tail hhost
    split at h
    · cases h
    · split at h
      · rename_i hvalid
        cases h
        rw [Bool.and_eq_true] at hvalid
        exact ⟨tail, hhost, hvalid.2⟩
      · cases h

/-- A text without the separators, checked. -/
theorem free_of_all {text stops : List Char}
    (h : (text.all fun c => !stops.contains c) = true) : ∀ c ∈ text, c ∉ stops := by
  intro c hc hmem
  have hfree := List.all_eq_true.mp h c hc
  rw [List.contains_iff_mem.mpr hmem] at hfree
  cases hfree

/-- A scheme ends at its colon. -/
theorem splitScheme_append {scheme rest : List Char}
    (h : ∀ c ∈ scheme, c ∉ [':', '/', '?', '#']) :
    splitScheme (scheme ++ ':' :: rest) = some (scheme, rest) := by
  have hall : ∀ c ∈ scheme, (!([':', '/', '?', '#'] : List Char).contains c) = true := by
    intro c hc
    have hfree := h c hc
    simp only [List.contains_iff_mem, Bool.not_eq_true', Bool.eq_false_iff, ne_eq]
    exact hfree
  unfold splitScheme before after
  rw [List.dropWhile_append_of_pos hall, List.takeWhile_append_of_pos hall]
  simp

/-! ## Delimiters -/

/-- Nothing changes behind a delimiter. -/
theorem before_append_stop {stops : List Char} {c : Char} (hc : c ∈ stops)
    (text rest : List Char) : before stops (text ++ c :: rest) = before stops text := by
  unfold before
  induction text with
  | nil => rw [List.nil_append, List.takeWhile_cons_of_neg (by simp [hc]), List.takeWhile_nil]
  | cons d text ih =>
    rw [List.cons_append]
    by_cases hd : d ∈ stops
    · rw [List.takeWhile_cons_of_neg (by simp [hd]), List.takeWhile_cons_of_neg (by simp [hd])]
    · rw [List.takeWhile_cons_of_pos (by simp [hd]), List.takeWhile_cons_of_pos (by simp [hd]), ih]

/-- Nor behind a text that has one. -/
theorem before_append_of_mem {stops : List Char} {c : Char} (hc : c ∈ stops)
    {text : List Char} (hmem : c ∈ text) (rest : List Char) :
    before stops (text ++ rest) = before stops text := by
  obtain ⟨front, back, rfl⟩ := List.append_of_mem hmem
  rw [List.append_assoc, List.cons_append, before_append_stop hc, before_append_stop hc]

/-- Stopping early and stopping late are the same as stopping at either. -/
theorem before_before (stops stops' : List Char) (text : List Char) :
    before stops (before stops' text) = before (stops' ++ stops) text := by
  unfold before
  rw [List.takeWhile_takeWhile]
  congr 1
  funext c
  simp [Bool.and_comm]

/-- The order of two stops does not matter. -/
theorem before_comm (stops stops' : List Char) (text : List Char) :
    before stops (before stops' text) = before stops' (before stops text) := by
  unfold before
  rw [List.takeWhile_takeWhile, List.takeWhile_takeWhile]
  simp only [and_comm]

/-- Before and after a stop is all of it. -/
theorem before_append_after (stops text : List Char) : before stops text ++ after stops text = text :=
  List.takeWhile_append_dropWhile

/-- A text without the delimiters is kept whole. -/
theorem before_eq_self {stops text : List Char} (h : ∀ c ∈ text, c ∉ stops) :
    before stops text = text := by
  unfold before
  rw [List.takeWhile_eq_self_iff]
  intro c hc
  simp [h c hc]

/-- What is before a stop is of the text. -/
theorem before_subset (stops text : List Char) : before stops text ⊆ text :=
  (List.takeWhile_sublist _).subset

end Romi.UriSyntax
