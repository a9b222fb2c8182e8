import Mathlib.Data.Option.Basic
import Mathlib.Data.List.Range
import Mathlib.Order.Nat

/-!
# The rounds of a probe

In every round a probe resolves the name of its target and tries its addresses one
after another. The clock counts microseconds.
-/

namespace Romi.ProbeRounds

/-- `HANDSHAKE_DEADLINE`. -/
def handshakeDeadline : Nat := 900000

/-- `MAX_PING_ADDRS`. -/
def maxPingAddrs : Nat := 3

/-- What an address does when it is dialed. -/
inductive Dial
  /-- Its handshake is done after so many milliseconds. -/
  | accepts (after : Nat)
  /-- It is refused after so many. -/
  | refuses (after : Nat)
  /-- It does not answer. -/
  | ignores

/-- What the name service answers. -/
inductive Lookup
  /-- The name is not found. -/
  | fails (after : Nat)
  /-- It is found. -/
  | finds (after : Nat) (addresses : List Dial)

/-- When it answers. -/
def Lookup.after : Lookup → Nat
  | .fails after | .finds after _ => after

/-- What it answers with. -/
def Lookup.addresses : Lookup → List Dial
  | .fails _ => []
  | .finds _ addresses => addresses

/-- The time of a handshake that was done before its deadline. -/
def Dial.answered : Dial → Option Nat
  | .accepts after => if after ≤ handshakeDeadline then some after else none
  | .refuses _ | .ignores => none

/-- How long an attempt takes. -/
def Dial.spent : Dial → Nat
  | .accepts after | .refuses after => min after handshakeDeadline
  | .ignores => handshakeDeadline

/-- The loop of `handshake`: whole milliseconds of the address that answers first. -/
def firstAnswer : List Dial → Int
  | [] => -1
  | d :: rest => match d.answered with
    | some after => min (after / 1000 : Nat) 2147483647
    | none => firstAnswer rest

/-- How long that loop takes. -/
def answerTime : List Dial → Nat
  | [] => 0
  | d :: rest => match d.answered with
    | some after => after
    | none => d.spent + answerTime rest

/-- `handshake`. -/
def handshake (addresses : List Dial) : Int := firstAnswer (addresses.take maxPingAddrs)

/-- `tcp_ping`. -/
def tcpPing (lookup : Lookup) : Option Int :=
  if handshakeDeadline < lookup.after then none
  else match lookup with
    | .fails _ => some (-1)
    | .finds _ addresses => some (handshake addresses)

/-- How long it takes. -/
def pingTime (lookup : Lookup) : Nat :=
  if handshakeDeadline < lookup.after then handshakeDeadline
  else match lookup with
    | .fails after => after
    | .finds after addresses => after + answerTime (addresses.take maxPingAddrs)

/-! ## The loop -/

/-- What a probe waits between two rounds: `interval.clamp(5, 3600)` seconds. -/
def period (interval : Nat) : Nat := max 5 (min interval 3600) * 1000000

/-- What a round meets with. -/
structure Round where
  /-- How the name is looked up. -/
  lookup : Lookup
  /-- How long the session's queue had no room for the result. -/
  blocked : Nat

/-- How long a round takes; one without a result sends nothing. -/
def Round.time (r : Round) : Nat :=
  pingTime r.lookup + if (tcpPing r.lookup).isSome then r.blocked else 0

/-- When the rounds begin, if the ticker is next ready at one time and the probe at
another. A tick that is taken more than five milliseconds late starts the period
anew. -/
def begins (period : Nat) : Nat → Nat → List Round → List Nat
  | _, _, [] => []
  | due, now, r :: rest =>
    let start := max due now
    start :: begins period (if due + 5000 < start then start + period else due + period)
      (start + r.time) rest

/-! ## What a round tells -/

variable {addresses : List Dial}

/-- An answer comes within the deadline. -/
theorem answered_le {d : Dial} {after : Nat} (h : d.answered = some after) :
    after ≤ handshakeDeadline := by
  cases d with
  | accepts a =>
    change (if a ≤ handshakeDeadline then some a else none) = some after at h
    split at h
    · rename_i hle
      rwa [← Option.some.inj h]
    · cases h
  | refuses a => cases h
  | ignores => cases h

/-- No more time is spent on an address. -/
theorem spent_le (d : Dial) : d.spent ≤ handshakeDeadline := by
  cases d with
  | accepts a => exact min_le_right _ _
  | refuses a => exact min_le_right _ _
  | ignores => exact le_refl _

/-- The loop tells the first handshake that was done in time, and -1 if none was. -/
theorem firstAnswer_eq : firstAnswer addresses =
    ((addresses.findSome? Dial.answered).map fun after => ((after / 1000 : Nat) : Int)).getD (-1) := by
  induction addresses with
  | nil => rfl
  | cons d rest ih =>
    unfold firstAnswer
    rw [List.findSome?_cons]
    cases h : d.answered with
    | some after =>
      have hle := answered_le h
      unfold handshakeDeadline at hle
      dsimp only [Option.map_some, Option.getD_some]
      omega
    | none => exact ih

/-- The result is a timeout or within the deadline. -/
theorem firstAnswer_range : -1 ≤ firstAnswer addresses ∧ firstAnswer addresses ≤ 900 := by
  rw [firstAnswer_eq]
  cases h : addresses.findSome? Dial.answered with
  | none => exact ⟨Int.le_refl _, by decide⟩
  | some after =>
    obtain ⟨d, -, hd⟩ := List.exists_of_findSome?_eq_some h
    have hle := answered_le hd
    unfold handshakeDeadline at hle
    dsimp only [Option.map_some, Option.getD_some]
    omega

/-- What a round tells of the addresses it may try. -/
theorem tcpPing_eq (lookup : Lookup) : tcpPing lookup =
    if handshakeDeadline < lookup.after then none else some (handshake lookup.addresses) := by
  cases lookup <;> rfl

/-- It is a timeout just when none of them answered. -/
theorem handshake_lost : handshake addresses = -1 ↔
    ∀ d ∈ addresses.take maxPingAddrs, d.answered = none := by
  unfold handshake
  rw [firstAnswer_eq, ← List.findSome?_eq_none_iff]
  cases h : (addresses.take maxPingAddrs).findSome? Dial.answered with
  | none => exact ⟨fun _ => rfl, fun _ => rfl⟩
  | some after =>
    dsimp only [Option.map_some, Option.getD_some]
    constructor
    · intro hneg
      omega
    · intro hnone
      cases hnone

/-! ## How long a round takes -/

/-- The time it takes is bounded by the addresses. -/
theorem answerTime_le : answerTime addresses ≤ addresses.length * handshakeDeadline := by
  induction addresses with
  | nil => exact Nat.zero_le _
  | cons d rest ih =>
    unfold answerTime
    rw [List.length_cons, Nat.add_mul, Nat.one_mul]
    cases h : d.answered with
    | some after => exact le_trans (answered_le h) (Nat.le_add_left _ _)
    | none =>
      dsimp only
      rw [Nat.add_comm]
      exact Nat.add_le_add ih (spent_le d)

/-- A round is over before the shortest period. -/
theorem pingTime_lt (lookup : Lookup) (interval : Nat) : pingTime lookup < period interval := by
  have hperiod : 5000000 ≤ period interval := by
    unfold period
    omega
  have htime : pingTime lookup ≤ 4 * handshakeDeadline := by
    unfold pingTime
    split
    · omega
    · rename_i hafter
      cases lookup with
      | fails after =>
        have hlookup : after ≤ handshakeDeadline := not_lt.mp hafter
        dsimp only
        omega
      | finds after addresses =>
        have hlookup : after ≤ handshakeDeadline := not_lt.mp hafter
        have hanswer := @answerTime_le (addresses.take maxPingAddrs)
        have hlength : (addresses.take maxPingAddrs).length ≤ 3 := List.length_take_le _ _
        have hmul := Nat.mul_le_mul_right handshakeDeadline hlength
        dsimp only
        omega
  unfold handshakeDeadline at htime
  omega

/-! ## When the rounds begin -/

/-- A round that the queue does not delay is over within a period. -/
theorem time_le {r : Round} (hfree : r.blocked = 0) (interval : Nat) :
    r.time ≤ period interval := by
  have hlt := pingTime_lt r.lookup interval
  unfold Round.time
  rw [hfree]
  split <;> omega

/-- Rounds that are over within a period begin a period apart. -/
theorem begins_regular {period : Nat} {rounds : List Round} (htime : ∀ r ∈ rounds, r.time ≤ period)
    {due now : Nat} (hnow : now ≤ due) : begins period due now rounds =
      (List.range rounds.length).map fun k => due + k * period := by
  induction rounds generalizing due now with
  | nil => rfl
  | cons r rest ih =>
    have hstart : max due now = due := max_eq_left hnow
    have hfirst := htime r List.mem_cons_self
    have hrest := ih (fun r' hr' => htime r' (List.mem_cons_of_mem r hr'))
      (Nat.add_le_add_left hfirst due)
    have hintime : ¬ due + 5000 < due := by omega
    unfold begins
    dsimp only
    rw [hstart, if_neg hintime, hrest, List.length_cons, List.range_succ_eq_map, List.map_cons,
      List.map_map, Nat.zero_mul, Nat.add_zero]
    refine congrArg (due :: ·) (List.map_congr_left fun k _ => ?_)
    change due + period + k * period = due + (k + 1) * period
    rw [Nat.succ_mul]
    omega

/-- However long the queue is full, the rounds begin a period apart but for the five
milliseconds of the ticker. -/
theorem begins_spaced (period : Nat) (rounds : List Round) (due now : Nat) :
    (begins period due now rounds).IsChain fun a b => a + period ≤ b + 5000 := by
  induction rounds generalizing due now with
  | nil => exact .nil
  | cons r rest ih =>
    unfold begins
    dsimp only
    refine List.isChain_cons.mpr ⟨?_, ih _ _⟩
    intro b hb
    cases rest with
    | nil => cases hb
    | cons r' rest =>
      cases hb
      split <;> omega

/-- The rounds of a probe keep to its interval whatever its target does, only a full
queue delays them, and they never crowd. A round has a result unless the name took
too long, and the result is a loss just when none of the first three addresses
answered in time. -/
theorem rounds_keep_time (interval start : Nat) (rounds : List Round) :
    ((begins (period interval) start start rounds).IsChain
      fun a b => a + period interval ≤ b + 5000) ∧
    ((∀ r ∈ rounds, r.blocked = 0) → begins (period interval) start start rounds =
      (List.range rounds.length).map fun k => start + k * period interval) ∧
    ∀ lookup, (tcpPing lookup = none ↔ handshakeDeadline < lookup.after) ∧
      ∀ latency, tcpPing lookup = some latency → -1 ≤ latency ∧ latency ≤ 900 ∧
        (latency = -1 ↔ ∀ d ∈ lookup.addresses.take maxPingAddrs, d.answered = none) := by
  refine ⟨begins_spaced _ _ _ _, fun hfree => ?_, fun lookup => ?_⟩
  · exact begins_regular (fun r hr => time_le (hfree r hr) interval) (le_refl _)
  rw [tcpPing_eq]
  split
  · rename_i hslow
    refine ⟨⟨fun _ => hslow, fun _ => rfl⟩, ?_⟩
    intro latency h
    cases h
  · rename_i hin
    refine ⟨⟨nofun, fun hslow => absurd hslow hin⟩, ?_⟩
    intro latency h
    obtain rfl := Option.some.inj h
    exact ⟨firstAnswer_range.1, firstAnswer_range.2, handshake_lost⟩

end Romi.ProbeRounds
