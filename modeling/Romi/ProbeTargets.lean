import Romi.AddressBytes
import Romi.AgentCounters

/-!
# The targets a probe may have

A target is a host, a colon and a port, and an IPv6 literal stands in brackets.
The check finds the two halves by their separators and asks of the host only
that it is not empty, and of the port that it parses as a number, which lets
two more kinds of text through.
-/

namespace Romi.ProbeTargets

open AddressBytes AgentCounters ClientAddress

/-! ## The check -/

/-- `split_once("]:")`. -/
def splitBracket : List Char → Option (List Char × List Char)
  | [] => none
  | [_] => none
  | c :: d :: rest =>
    if c = ']' ∧ d = ':' then some ([], rest)
    else (splitBracket (d :: rest)).map fun p => (c :: p.1, p.2)

/-- `rsplit_once(':')`. -/
def rsplitColon : List Char → Option (List Char × List Char)
  | [] => none
  | c :: rest =>
    match rsplitColon rest with
    | some (host, port) => some (c :: host, port)
    | none => if c = ':' then some ([], rest) else none

/-- `str::parse::<u16>`. -/
def parseU16 (text : List Char) : Option Nat := (parseNat text).filter fun p => p ≤ 65535

/-- The two halves `valid_target` looks at. -/
def halves : List Char → Option (List Char × List Char)
  | '[' :: rest => splitBracket rest
  | target => (rsplitColon target).filter fun p => ':' ∉ p.1

/-- `valid_target`. -/
def validTarget (target : String) : Bool :=
  match halves target.toList with
  | none => false
  | some (host, port) => !host.isEmpty && (parseU16 port).any fun p => 0 < p

/-! ## What a target is to be -/

/-- The number a run of digits stands for. -/
def decimal (digits : List Char) : Nat := digits.foldl (fun n c => n * 10 + (c.toNat - 48)) 0

/-- A port in digits. -/
def IsPort (port : List Char) : Prop :=
  port ≠ [] ∧ (∀ c ∈ port, c.isDigit = true) ∧ 1 ≤ decimal port ∧ decimal port ≤ 65535

/-- A host without colons or a bracket in front. -/
def IsHost (host : List Char) : Prop := host ≠ [] ∧ ':' ∉ host ∧ host.head? ≠ some '['

/-- A valid IPv6 literal. -/
def Ipv6Literal (text : List Char) : Prop :=
  (∀ c ∈ text, c.toNat < 128) ∧
    ((readIpv6Addr (text.map fun c => c.toNat.toUInt8)).map Prod.snd) = some []

instance (text : List Char) : Decidable (Ipv6Literal text) :=
  @instDecidableAnd _ _ (List.decidableBAll _ text) inferInstance

/-- `host:port`, or an IPv6 literal in brackets and a port. -/
def HostPort (target : List Char) : Prop :=
  (∃ host port, target = host ++ ':' :: port ∧ IsHost host ∧ IsPort port) ∨
    ∃ literal port, target = '[' :: literal ++ ']' :: ':' :: port ∧ Ipv6Literal literal ∧ IsPort port

/-- Text between brackets that the check would take for a host. -/
def IsBracketed (text : List Char) : Prop := text ≠ [] ∧ ¬ [']', ':'] <:+: text

/-- A port with a sign in front. -/
def SignedPort (target : List Char) : Prop :=
  (∃ host port, target = host ++ ':' :: '+' :: port ∧ IsHost host ∧ IsPort port) ∨
    ∃ text port, target = '[' :: text ++ ']' :: ':' :: '+' :: port ∧ IsBracketed text ∧ IsPort port

/-- Something else than an IPv6 literal in brackets. -/
def BracketedName (target : List Char) : Prop :=
  ∃ text port, target = '[' :: text ++ ']' :: ':' :: port ∧ IsBracketed text ∧
    ¬ Ipv6Literal text ∧ IsPort port

/-! ## The port -/

/-- What is read as a number once the sign is gone. -/
theorem digits_any {digits : List Char} :
    ((if digits ≠ [] ∧ digits.all Char.isDigit = true then
        if decimal digits ≤ u64Max then some (decimal digits) else none
      else none : Option Nat).filter fun p => p ≤ 65535).any (fun p => 0 < p) = true ↔
      IsPort digits := by
  by_cases hdigits : digits ≠ [] ∧ digits.all Char.isDigit = true
  · rw [if_pos hdigits]
    have hall : ∀ c ∈ digits, c.isDigit = true := List.all_eq_true.mp hdigits.2
    by_cases hfits : decimal digits ≤ 65535
    · have hbig : decimal digits ≤ u64Max := hfits.trans (by decide)
      rw [if_pos hbig, Option.filter_some, if_pos (decide_eq_true hfits), Option.any_some,
        decide_eq_true_iff]
      exact ⟨fun hpos => ⟨hdigits.1, hall, hpos, hfits⟩, fun h => h.2.2.1⟩
    · refine ⟨?_, fun h => absurd h.2.2.2 hfits⟩
      intro h
      split at h
      · rw [Option.filter_some, if_neg (by rwa [decide_eq_true_iff])] at h
        cases h
      · cases h
  · rw [if_neg hdigits]
    refine ⟨fun h => (by cases h), ?_⟩
    intro h
    exact absurd ⟨h.1, List.all_eq_true.mpr h.2.1⟩ hdigits

/-- A port starts with no sign. -/
theorem not_isPort_plus (rest : List Char) : ¬ IsPort ('+' :: rest) := by
  intro h
  have hplus := h.2.1 '+' List.mem_cons_self
  revert hplus
  decide

/-- A parsed port is one in digits, with or without a sign in front. -/
theorem parseU16_pos_iff {port : List Char} :
    (parseU16 port).any (fun p => 0 < p) = true ↔
      IsPort port ∨ ∃ rest, port = '+' :: rest ∧ IsPort rest := by
  unfold parseU16 parseNat
  split
  · rename_i rest
    refine digits_any.trans ⟨fun h => .inr ⟨rest, rfl, h⟩, ?_⟩
    rintro (h | ⟨rest', heq, h⟩)
    · exact absurd h (not_isPort_plus rest)
    · cases heq
      exact h
  · rename_i hplain
    refine digits_any.trans ⟨.inl, ?_⟩
    rintro (h | ⟨rest', heq, -⟩)
    · exact h
    · exact absurd heq (hplain rest')

/-- No colon is in a port. -/
theorem colon_notMem_port {port : List Char}
    (h : (parseU16 port).any (fun p => 0 < p) = true) : ':' ∉ port := by
  have hdigits : ∀ {digits : List Char}, IsPort digits → ':' ∉ digits := by
    intro digits hport hmem
    have hcolon := hport.2.1 ':' hmem
    revert hcolon
    decide
  rcases parseU16_pos_iff.mp h with hport | ⟨rest, rfl, hport⟩
  · exact hdigits hport
  · rw [List.mem_cons, not_or]
    exact ⟨by decide, hdigits hport⟩

/-! ## The halves -/

/-- The last colon splits off what has no colon. -/
theorem rsplitColon_eq_some {target host port : List Char} :
    rsplitColon target = some (host, port) ↔ target = host ++ ':' :: port ∧ ':' ∉ port := by
  have hnone : ∀ {text : List Char}, rsplitColon text = none ↔ ':' ∉ text := by
    intro text
    induction text with
    | nil => exact ⟨fun _ => List.not_mem_nil, fun _ => rfl⟩
    | cons c rest ih =>
      rw [rsplitColon, List.mem_cons, not_or]
      cases hrest : rsplitColon rest with
      | some p =>
        have hin : ':' ∈ rest := by
          by_contra hno
          rw [ih.mpr hno] at hrest
          cases hrest
        exact ⟨fun h => (by cases h), fun h => absurd hin h.2⟩
      | none =>
        by_cases hc : c = ':'
        · rw [if_pos hc]
          exact ⟨fun h => (by cases h), fun h => absurd hc.symm h.1⟩
        · rw [if_neg hc]
          exact ⟨fun _ => ⟨fun h => hc h.symm, ih.mp hrest⟩, fun _ => rfl⟩
  induction target generalizing host port with
  | nil =>
    refine ⟨fun h => (by cases h), ?_⟩
    rintro ⟨h, -⟩
    cases host <;> cases h
  | cons c rest ih =>
    rw [rsplitColon]
    cases hrest : rsplitColon rest with
    | some p =>
      obtain ⟨host', port'⟩ := p
      have hsplit : rest = host' ++ ':' :: port' ∧ ':' ∉ port' := ih.mp hrest
      dsimp only
      rw [Option.some.injEq, Prod.mk.injEq]
      constructor
      · rintro ⟨rfl, rfl⟩
        exact ⟨by rw [hsplit.1]; rfl, hsplit.2⟩
      · rintro ⟨heq, hport⟩
        cases host with
        | nil =>
          rw [List.nil_append, List.cons.injEq] at heq
          rw [← heq.2, hsplit.1] at hport
          exact absurd (List.mem_append_right _ List.mem_cons_self) hport
        | cons d host =>
          rw [List.cons_append, List.cons.injEq] at heq
          have hsame := ih.mpr ⟨heq.2, hport⟩
          rw [hrest, Option.some.injEq, Prod.mk.injEq] at hsame
          exact ⟨by rw [heq.1, hsame.1], hsame.2⟩
    | none =>
      have hno : ':' ∉ rest := hnone.mp hrest
      by_cases hc : c = ':'
      · subst hc
        dsimp only
        rw [if_pos rfl, Option.some.injEq, Prod.mk.injEq]
        constructor
        · rintro ⟨rfl, rfl⟩
          exact ⟨rfl, hno⟩
        · rintro ⟨heq, -⟩
          cases host with
          | nil => exact ⟨rfl, (List.cons.inj heq).2⟩
          | cons d host =>
            rw [List.cons_append, List.cons.injEq] at heq
            rw [heq.2] at hno
            exact absurd (List.mem_append_right _ List.mem_cons_self) hno
      · dsimp only
        rw [if_neg hc]
        refine ⟨fun h => (by cases h), ?_⟩
        rintro ⟨heq, -⟩
        cases host with
        | nil => exact absurd (List.cons.inj heq).1 hc
        | cons d host =>
          rw [List.cons_append, List.cons.injEq] at heq
          rw [heq.2] at hno
          exact absurd (List.mem_append_right _ List.mem_cons_self) hno

/-- No separator in a longer text, none in a shorter one. -/
theorem infix_cons_iff {c : Char} {rest : List Char} :
    [']', ':'] <:+: c :: rest ↔ (c = ']' ∧ rest.head? = some ':') ∨ [']', ':'] <:+: rest := by
  rw [List.infix_cons_iff]
  refine or_congr ?_ Iff.rfl
  rw [List.cons_prefix_cons, eq_comm]
  refine and_congr Iff.rfl ?_
  cases rest with
  | nil => exact ⟨fun h => (by cases List.prefix_nil.mp h), fun h => (by cases h)⟩
  | cons d rest =>
    rw [List.cons_prefix_cons, List.head?_cons, Option.some.injEq, eq_comm]
    exact ⟨fun h => h.1, fun h => ⟨h, List.nil_prefix⟩⟩

/-- The first separator splits off what has none. -/
theorem splitBracket_eq_some {text host port : List Char} :
    splitBracket text = some (host, port) ↔
      text = host ++ ']' :: ':' :: port ∧ ¬ [']', ':'] <:+: host := by
  have hnil : ¬ [']', ':'] <:+: ([] : List Char) := fun h => (by cases List.infix_nil.mp h)
  induction text generalizing host with
  | nil =>
    refine ⟨fun h => (by cases h), ?_⟩
    rintro ⟨h, -⟩
    cases host <;> cases h
  | cons c text ih =>
    cases text with
    | nil =>
      refine ⟨fun h => (by cases h), ?_⟩
      rintro ⟨h, -⟩
      rcases host with _ | ⟨d, _ | ⟨e, host⟩⟩ <;> cases h
    | cons d rest =>
      rw [splitBracket]
      by_cases hsep : c = ']' ∧ d = ':'
      · obtain ⟨rfl, rfl⟩ := hsep
        rw [if_pos ⟨rfl, rfl⟩, Option.some.injEq, Prod.mk.injEq]
        constructor
        · rintro ⟨rfl, rfl⟩
          exact ⟨rfl, hnil⟩
        · rintro ⟨heq, hno⟩
          rcases host with _ | ⟨e, host⟩
          · simp only [List.nil_append, List.cons.injEq, true_and] at heq
            exact ⟨rfl, heq⟩
          · simp only [List.cons_append, List.cons.injEq] at heq
            obtain ⟨rfl, heq⟩ := heq
            rw [infix_cons_iff, not_or] at hno
            rcases host with _ | ⟨e, host⟩
            · cases heq
            · exact absurd ⟨rfl, by rw [(List.cons.inj heq).1]; rfl⟩ hno.1
      · rw [if_neg hsep, Option.map_eq_some_iff]
        constructor
        · rintro ⟨⟨host', port'⟩, hsplit, heq⟩
          cases heq
          obtain ⟨hrest, hno⟩ := ih.mp hsplit
          refine ⟨by rw [hrest]; rfl, ?_⟩
          rw [infix_cons_iff, not_or]
          refine ⟨?_, hno⟩
          rintro ⟨rfl, hhead⟩
          rcases host' with _ | ⟨e, host'⟩
          · cases hhead
          · cases hhead
            exact hsep ⟨rfl, (List.cons.inj hrest).1⟩
        · rintro ⟨heq, hno⟩
          rcases host with _ | ⟨e, host⟩
          · simp only [List.nil_append, List.cons.injEq] at heq
            exact absurd ⟨heq.1, heq.2.1⟩ hsep
          · rw [List.cons_append, List.cons.injEq] at heq
            rw [infix_cons_iff, not_or] at hno
            exact ⟨(host, port), ih.mpr ⟨heq.2, hno.2⟩, by rw [heq.1]⟩

/-- A number as the check reads one. -/
def IsNumeral (port : List Char) : Prop := IsPort port ∨ ∃ rest, port = '+' :: rest ∧ IsPort rest

/-- What the check accepts. -/
theorem validTarget_iff (target : String) :
    validTarget target = true ↔
      (∃ host port, target.toList = host ++ ':' :: port ∧ IsHost host ∧ IsNumeral port) ∨
        ∃ text port, target.toList = '[' :: text ++ ']' :: ':' :: port ∧ IsBracketed text ∧
          IsNumeral port := by
  have haccept : ∀ host port : List Char,
      (!host.isEmpty && (parseU16 port).any fun p => 0 < p) = true ↔ host ≠ [] ∧ IsNumeral port := by
    intro host port
    rw [Bool.and_eq_true, Bool.not_eq_true', List.isEmpty_eq_false_iff, parseU16_pos_iff]
    rfl
  have hvalid : validTarget target = true ↔
      ∃ host port, halves target.toList = some (host, port) ∧ host ≠ [] ∧ IsNumeral port := by
    unfold validTarget
    cases hhalves : halves target.toList with
    | none => exact ⟨fun h => (by cases h), fun ⟨_, _, h, _⟩ => (by cases h)⟩
    | some p =>
      obtain ⟨host, port⟩ := p
      refine (haccept host port).trans ⟨fun h => ⟨host, port, rfl, h⟩, ?_⟩
      rintro ⟨host', port', heq, h⟩
      cases heq
      exact h
  rw [hvalid]
  generalize target.toList = text
  by_cases hbracket : ∃ rest, text = '[' :: rest
  · obtain ⟨rest, rfl⟩ := hbracket
    have hhalves : halves ('[' :: rest) = splitBracket rest := rfl
    rw [hhalves]
    constructor
    · rintro ⟨host, port, hsplit, hne, hport⟩
      obtain ⟨rfl, hno⟩ := splitBracket_eq_some.mp hsplit
      exact .inr ⟨host, port, rfl, ⟨hne, hno⟩, hport⟩
    · rintro (⟨host, port, heq, hhost, -⟩ | ⟨host, port, heq, hhost, hport⟩)
      · rcases host with _ | ⟨c, host⟩
        · exact absurd rfl hhost.1
        · rw [List.cons_append, List.cons.injEq] at heq
          exact absurd (congrArg some heq.1.symm) hhost.2.2
      · rw [List.cons_append, List.cons.injEq] at heq
        exact ⟨host, port, splitBracket_eq_some.mpr ⟨heq.2, hhost.2⟩, hhost.1, hport⟩
  · have hhalves : halves text = (rsplitColon text).filter fun p => ':' ∉ p.1 := by
      unfold halves
      split
      · exact absurd ⟨_, rfl⟩ hbracket
      · rfl
    rw [hhalves]
    constructor
    · rintro ⟨host, port, hsplit, hne, hport⟩
      obtain ⟨hsome, hcolon⟩ := Option.filter_eq_some_iff.mp hsplit
      obtain ⟨rfl, -⟩ := rsplitColon_eq_some.mp hsome
      refine .inl ⟨host, port, rfl, ⟨hne, of_decide_eq_true hcolon, ?_⟩, hport⟩
      rcases host with _ | ⟨c, host⟩
      · exact absurd rfl hne
      · intro hhead
        rw [List.head?_cons, Option.some.injEq] at hhead
        exact hbracket ⟨_, by rw [hhead]; rfl⟩
    · rintro (⟨host, port, rfl, hhost, hport⟩ | ⟨host, port, heq, -, -⟩)
      · have hno : ':' ∉ port := colon_notMem_port (parseU16_pos_iff.mpr hport)
        exact ⟨host, port, Option.filter_eq_some_iff.mpr
          ⟨rsplitColon_eq_some.mpr ⟨rfl, hno⟩, decide_eq_true hhost.2.1⟩, hhost.1, hport⟩
      · exact absurd ⟨_, heq⟩ hbracket

/-! ## Literals -/

/-- The check would take a literal between brackets for a host. -/
theorem Ipv6Literal.isBracketed {text : List Char} (h : Ipv6Literal text) : IsBracketed text := by
  obtain ⟨hascii, hread⟩ := h
  obtain ⟨⟨groups, rest⟩, hsome, hrest⟩ := Option.map_eq_some_iff.mp hread
  cases hrest
  refine ⟨?_, ?_⟩
  · rintro rfl
    have hnone : readIpv6Addr [] = none := by decide
    rw [List.map_nil, hnone] at hsome
    cases hsome
  · intro hinfix
    have hclose : ']' ∈ text := hinfix.subset List.mem_cons_self
    have hbyte := (reads_readIpv6Addr hsome).all (']'.toNat.toUInt8) (List.mem_map_of_mem hclose)
    revert hbyte
    decide

/-! ## When the check is exact -/

/-- What stands after the last colon of a target is its port. -/
theorem HostPort.port {before after : List Char} (h : HostPort (before ++ ':' :: after))
    (hafter : ':' ∉ after) : IsPort after := by
  have hlast : ∀ {host port : List Char}, before ++ ':' :: after = host ++ ':' :: port →
      IsPort port → IsPort after := by
    intro host port heq hport
    have hno : ':' ∉ port := colon_notMem_port (parseU16_pos_iff.mpr (.inl hport))
    have hsplit := rsplitColon_eq_some.mpr ⟨heq, hno⟩
    rw [rsplitColon_eq_some.mpr ⟨rfl, hafter⟩] at hsplit
    cases hsplit
    exact hport
  rcases h with ⟨host, port, heq, -, hport⟩ | ⟨literal, port, heq, -, hport⟩
  · exact hlast heq hport
  · refine @hlast ('[' :: literal ++ [']']) port ?_ hport
    rw [heq]
    simp only [List.append_assoc, List.cons_append, List.nil_append]

/-- No target has a signed port. -/
theorem not_hostPort_signed {before port : List Char} (hport : IsPort port) :
    ¬ HostPort (before ++ ':' :: '+' :: port) := by
  intro h
  refine not_isPort_plus port (h.port ?_)
  exact colon_notMem_port (parseU16_pos_iff.mpr (.inr ⟨port, rfl, hport⟩))

/-- What stands in the brackets of a target is a literal. -/
theorem HostPort.literal {text port : List Char}
    (h : HostPort ('[' :: text ++ ']' :: ':' :: port)) (htext : IsBracketed text) :
    Ipv6Literal text := by
  rcases h with ⟨host, port', heq, hhost, -⟩ | ⟨literal, port', heq, hliteral, -⟩
  · rcases host with _ | ⟨c, host⟩
    · exact absurd rfl hhost.1
    · rw [List.cons_append, List.cons_append, List.cons.injEq] at heq
      exact absurd (congrArg some heq.1.symm) hhost.2.2
  · rw [List.cons_append, List.cons_append, List.cons.injEq] at heq
    have hsplit := splitBracket_eq_some.mpr ⟨heq.2, hliteral.isBracketed.2⟩
    rw [splitBracket_eq_some.mpr ⟨rfl, htext.2⟩] at hsplit
    cases hsplit
    exact hliteral

/-- The check accepts exactly the targets there are to be but for a sign in
front of the port and for other text than a literal in brackets. -/
theorem targets_exact_iff (target : String) :
    (validTarget target = true ↔ HostPort target.toList) ↔
      ¬ SignedPort target.toList ∧ ¬ BracketedName target.toList := by
  rw [validTarget_iff]
  generalize target.toList = text
  constructor
  · intro hexact
    refine ⟨?_, ?_⟩
    · rintro (⟨host, port, rfl, hhost, hport⟩ | ⟨name, port, rfl, hname, hport⟩)
      · have haccepted := hexact.mp (.inl ⟨host, '+' :: port, rfl, hhost, .inr ⟨port, rfl, hport⟩⟩)
        exact not_hostPort_signed hport haccepted
      · have haccepted := hexact.mp (.inr ⟨name, '+' :: port, rfl, hname, .inr ⟨port, rfl, hport⟩⟩)
        exact @not_hostPort_signed ('[' :: name ++ [']']) port hport (by simpa using haccepted)
    · rintro ⟨name, port, rfl, hname, hliteral, hport⟩
      have haccepted := hexact.mp (.inr ⟨name, port, rfl, hname, .inl hport⟩)
      exact hliteral (haccepted.literal hname)
  · rintro ⟨hsigned, hnamed⟩
    constructor
    · rintro (⟨host, port, rfl, hhost, hport | ⟨rest, rfl, hport⟩⟩ |
        ⟨name, port, rfl, hname, hport | ⟨rest, rfl, hport⟩⟩)
      · exact .inl ⟨host, port, rfl, hhost, hport⟩
      · exact absurd (.inl ⟨host, rest, rfl, hhost, hport⟩) hsigned
      · by_cases hliteral : Ipv6Literal name
        · exact .inr ⟨name, port, rfl, hliteral, hport⟩
        · exact absurd ⟨name, port, rfl, hname, hliteral, hport⟩ hnamed
      · exact absurd (.inr ⟨name, rest, rfl, hname, hport⟩) hsigned
    · rintro (⟨host, port, rfl, hhost, hport⟩ | ⟨literal, port, rfl, hliteral, hport⟩)
      · exact .inl ⟨host, port, rfl, hhost, .inl hport⟩
      · exact .inr ⟨literal, port, rfl, hliteral.isBracketed, .inl hport⟩

/-- A name in brackets is accepted, which no agent can resolve. -/
theorem bracketed_name_accepted :
    validTarget "[example]:80" = true ∧ ¬ HostPort "[example]:80".toList := by
  refine ⟨by decide, ?_⟩
  intro h
  have htext : IsBracketed "example".toList := ⟨by decide, by decide⟩
  have hread : readIpv6Addr ("example".toList.map fun c => c.toNat.toUInt8) = none := rfl
  have hliteral : Ipv6Literal "example".toList := HostPort.literal h htext
  have hwhole := hliteral.2
  rw [hread] at hwhole
  cases hwhole

example : validTarget "[2606:4700:4700::1111]:443" = true := by decide

example : validTarget "2606:4700:4700::1111" = false := by decide

example : validTarget "1.1.1.1:+443" = true := by decide

end Romi.ProbeTargets
