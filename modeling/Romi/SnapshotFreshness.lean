import Romi.SnapshotCache

/-!
# A frame is never older than an answered change

A handler that has answered success has dropped the cached frames after its
last write, at a moment when nobody was rebuilding. From then on every slot is
empty or holds a frame whose reads all came later, and so does every rebuild
under way.
-/

namespace Romi.SnapshotFreshness

open CachedTransactions JsonValue SnapshotCache StoreOperations TrafficFold

/-! ## Handlers invalidate after they write -/

/-- On every way to an answer of success an invalidation follows the last
write that shows. -/
def Covered : Bool → Program → Prop
  | dirty, .write w next => ∀ a, Covered (dirty || w.shows) (next a)
  | _, .invalidate next => Covered false next
  | dirty, .answer success => success = true → dirty = false

/-- A change that was followed by emptying the cache may succeed. -/
theorem covered_succeed (dirty : Bool) : Covered dirty succeed := fun _ => rfl

/-- A refusal is no success. -/
theorem covered_refusal (dirty : Bool) : Covered dirty (.answer false) := fun h => by cases h

/-- A write that fails ends the request. -/
theorem covered_orFail {w : Change} {next : Program} {dirty : Bool}
    (h : Covered (dirty || w.shows) next) : Covered dirty (orFail w next) := by
  intro a
  cases a with
  | ok p => exact h
  | error e => exact covered_refusal _

/-- A change of a row that is not there is none. -/
theorem covered_ifFound (op : Solo) (dirty : Bool) : Covered dirty (ifFound op) := by
  intro a
  dsimp only
  split
  · exact covered_succeed _
  · exact covered_refusal _

/-- A session is not shown, so issuing one after the invalidation is harmless. -/
theorem covered_issueSession {s : NewSession} {next : Program} {dirty : Bool}
    (h : Covered dirty next) : Covered dirty (issueSession s next) := by
  refine covered_orFail ?_
  rwa [show (Change.solo (.createSession s.hash s.expiresAt)).shows = false from rfl, Bool.or_false]

/-- Changing credentials empties the cache at the end. -/
theorem covered_credentialWrites {session : NewSession} {w : Solo} {next : Program}
    (h : ∀ dirty, Covered dirty next) (dirty : Bool) :
    Covered dirty (credentialWrites session w next) :=
  covered_orFail (covered_orFail (covered_issueSession (h _)))

/-- Whatever an entry writes, the invalidation at the end covers it. -/
theorem covered_entryWrites {hash : String → Option String} {now : String} {session : NewSession}
    {key value : String} {next : Program} (h : ∀ dirty, Covered dirty next) (dirty : Bool) :
    Covered dirty (entryWrites hash now session key value next) := by
  unfold entryWrites
  split
  · split
    · exact covered_credentialWrites h _
    · exact covered_refusal _
  · split
    · exact covered_credentialWrites h _
    · split
      · exact covered_orFail (covered_orFail (h _))
      · exact covered_orFail (h _)

/-- Every handler is covered from its start. -/
theorem covered_program (p : Panel) : Covered false p.program := by
  cases p with
  | createNode now n token => exact covered_orFail (covered_succeed _)
  | agentRegister now n token cap => exact covered_orFail (covered_succeed _)
  | updateNode id p => exact covered_ifFound _ _
  | reorderNodes ids => exact covered_orFail (covered_succeed _)
  | deleteNode id => exact covered_orFail (covered_succeed _)
  | resetToken id token =>
    intro a
    cases a with
    | ok p => exact fun _ => rfl
    | error e => exact fun h => by cases h
  | patchTraffic id p clock => exact covered_ifFound _ _
  | saveSettings hash now session entries =>
    have hentries : ∀ (list : List (String × String)) (dirty : Bool), Covered dirty
        (list.foldr (fun e next => entryWrites hash now session e.1 e.2 next) succeed) := by
      intro list
      induction list with
      | nil => exact covered_succeed
      | cons e rest ih => exact covered_entryWrites ih
    exact hentries _ false
  | restore session =>
    refine covered_orFail ?_
    have hanswered : Covered false (.answer true) := fun _ => rfl
    exact covered_issueSession hanswered

/-! ## What the cache and the calls hold -/

/-- A frame depends on the world at its reads alone. -/
theorem frameFrom_congr {world world' : Nat → World} {full : Bool} {r : Reads}
    (h : ∀ m ∈ r.moments, world m = world' m) :
    frameFrom world full r = frameFrom world' full r ∧
      (r.Complete world full ↔ r.Complete world' full) := by
  have hnodes : world r.nodes = world' r.nodes := h _ (by simp [Reads.moments])
  have htraffic : world r.traffic = world' r.traffic := h _ (by simp [Reads.moments])
  have hagents : world r.agents = world' r.agents := h _ (by simp [Reads.moments])
  have hlisted : listed world full r.nodes = listed world' full r.nodes := by
    rw [listed, listed, hnodes]
  have hrow : ∀ row ∈ r.rows, world row.1 = world' row.1 ∧ world row.2 = world' row.2 := by
    intro row hmem
    constructor
    · exact h _ (by simp only [Reads.moments, List.mem_cons, List.mem_flatMap]; grind)
    · exact h _ (by simp only [Reads.moments, List.mem_cons, List.mem_flatMap]; grind)
  have hrows : ∀ (list : List StoreSchema.NodeRow) (rows : List (Nat × Nat)), (∀ row ∈ rows, row ∈ r.rows) →
      List.zipWith (rowFrom world full r) list rows =
        List.zipWith (rowFrom world' full r) list rows := by
    intro list
    induction list with
    | nil =>
      intro rows _
      rw [List.zipWith_nil_left, List.zipWith_nil_left]
    | cons n rest ih =>
      intro rows hmem
      cases rows with
      | nil => rw [List.zipWith_nil_right, List.zipWith_nil_right]
      | cons row rows =>
        obtain ⟨hreport, hgrace⟩ := hrow row (hmem row List.mem_cons_self)
        rw [List.zipWith_cons_cons, List.zipWith_cons_cons,
          ih rows fun q hq => hmem q (List.mem_cons_of_mem _ hq), rowFrom, rowFrom, hagents, htraffic,
          hreport, hgrace]
  constructor
  · rw [frameFrom, frameFrom, hlisted, hrows _ _ fun _ hq => hq]
  · rw [Reads.Complete, Reads.Complete, hlisted]

/-- A rendered frame is the frame of its reads, which are over. -/
structure Valid (world : Nat → World) (now : Nat) (full : Bool) (p : Rendered) : Prop where
  /-- It is the frame of what was read. -/
  frame : p.frame = frameFrom world full p.reads
  /-- Every row was. -/
  complete : p.reads.Complete world full
  /-- Nothing was read later than now. -/
  past : ∀ m ∈ p.reads.moments, m ≤ now

/-- What is known of a call. -/
def CallSound (world : Nat → World) (now : Nat) (lock : Option Nat) (c : Nat) : Call → Prop
  | .timed _ millis => ttl ≤ millis ∧ millis ≤ i64Max
  | .building _ _ stage => lock = some c ∧ ∀ m ∈ stage.moments, m ≤ now
  | .returned full (some p) => Valid world now full p
  | _ => True

/-- The slots hold valid frames of their own audience, one stamped as never
built has none, and a call rebuilds under the lock only. -/
structure Sound (s : State) : Prop where
  /-- What is in a slot is valid. -/
  slots : ∀ b p, (s.slots b).payload = some p → Valid s.world s.now b p
  /-- A slot without a frame has no stamp. -/
  empty : ∀ b, (s.slots b).payload = none → (s.slots b).stamp = 0
  /-- Every call is sound. -/
  calls : ∀ c, CallSound s.world s.now s.lock c (s.calls c)

/-- The world as of earlier moments stays. -/
theorem valid_turn {s : State} {full : Bool} {p : Rendered} (h : Valid s.world s.now full p)
    (w : World) : Valid (s.turn w).world (s.turn w).now full p := by
  have hworld : ∀ m ∈ p.reads.moments, s.world m = (s.turn w).world m := by
    intro m hm
    have hne : m ≠ s.now + 1 := by
      have hle := h.past m hm
      omega
    exact (Function.update_of_ne hne w s.world).symm
  obtain ⟨hframe, hcomplete⟩ := @frameFrom_congr _ _ full _ hworld
  refine ⟨h.frame.trans hframe, hcomplete.mp h.complete, ?_⟩
  intro m hm
  exact Nat.le_succ_of_le (h.past m hm)

/-- What was valid stays so when the world turns. -/
theorem sound_turn {s : State} (h : Sound s) (w : World) : Sound (s.turn w) := by
  refine ⟨fun b p hp => valid_turn (h.slots b p hp) w, h.empty, ?_⟩
  intro c
  have hc := h.calls c
  show CallSound (s.turn w).world (s.turn w).now s.lock c (s.calls c)
  cases hcall : s.calls c with
  | idle | called => trivial
  | timed full millis =>
    rw [hcall] at hc
    exact hc
  | building full millis stage =>
    rw [hcall] at hc
    exact ⟨hc.1, fun m hm => Nat.le_succ_of_le (hc.2 m hm)⟩
  | returned full payload =>
    rw [hcall] at hc
    cases payload with
    | none => trivial
    | some p => exact valid_turn hc w

/-- A call that moved on to something sound. -/
theorem sound_withCall {s : State} (h : Sound s) {c : Nat} {call : Call}
    (hcall : CallSound s.world s.now s.lock c call) : Sound (s.withCall c call) := by
  refine ⟨h.slots, h.empty, ?_⟩
  intro d
  rw [withCall_calls]
  split
  · rename_i hd
    rw [hd]
    exact hcall
  · exact h.calls d

/-- Where the handlers are is of no concern here. -/
theorem sound_withHandler {s : State} (h : Sound s) (k : Nat) (handler : Handler) :
    Sound (s.withHandler k handler) := ⟨h.slots, h.empty, h.calls⟩

/-- Nobody rebuilds while the lock is free. -/
theorem not_building {s : State} (h : Sound s) (hlock : s.lock = none) {c : Nat} {full : Bool}
    {millis : Int} {stage : Stage} : s.calls c ≠ .building full millis stage := by
  intro hat
  have hc := h.calls c
  rw [hat] at hc
  have hheld := hc.1
  rw [hlock] at hheld
  cases hheld

/-- Another holder of the lock leaves the calls that do not rebuild sound. -/
theorem callSound_lock {world : Nat → World} {now c : Nat} {lock lock' : Option Nat} {call : Call}
    (h : CallSound world now lock c call) (hcall : ∀ full millis stage, call ≠ .building full millis stage) :
    CallSound world now lock' c call := by
  cases call with
  | building full millis stage => exact absurd rfl (hcall full millis stage)
  | returned full payload =>
    cases payload with
    | none => trivial
    | some p => exact h
  | idle | called | timed => exact h

/-- A row adds its two reads. -/
theorem moments_row (r : Reads) (report grace : Nat) :
    ({ r with rows := r.rows ++ [(report, grace)] } : Reads).moments = r.moments ++ [report, grace] := by
  simp [Reads.moments]

/-- A call that rebuilds has the lock, and has read nothing that is yet to come. -/
theorem reads_building {s : State} (h : Sound s) {c : Nat} {full : Bool} {millis : Int}
    {stage : Stage} (hat : s.calls c = .building full millis stage) :
    s.lock = some c ∧ ∀ m ∈ stage.moments, m ≤ s.now := by
  have hc := h.calls c
  rw [hat] at hc
  exact hc

/-- What a read of the grace adds is what was read before it and the present moment. -/
theorem moments_grace {r : Reads} {report now m : Nat}
    (hm : m ∈ (Stage.rows { r with rows := r.rows ++ [(report, now)] }).moments) :
    m ∈ (Stage.halfRow r report).moments ∨ m = now := by
  rw [Stage.moments, moments_row, List.mem_append] at hm
  rcases hm with hm | hm
  · exact .inl (List.mem_cons_of_mem _ hm)
  · rcases List.mem_cons.mp hm with rfl | hm
    · exact .inl List.mem_cons_self
    · exact .inr (List.mem_singleton.mp hm)

/-- The holder of the lock stores a frame that is valid and gives the lock back. -/
theorem sound_store {s : State} (h : Sound s) {c : Nat} {full : Bool} {now : Int} {p : Rendered}
    (hlock : s.lock = some c) (hvalid : Valid s.world s.now full p) :
    Sound ({ s with
      lock := none, slots := Function.update s.slots full ⟨now, some p⟩ }.withCall c
        (.returned full (some p))) := by
  refine ⟨?_, ?_, ?_⟩
  · intro b q hq
    change (Function.update s.slots full ⟨now, some p⟩ b).payload = some q at hq
    rw [Function.update_apply] at hq
    split at hq
    · rename_i hb
      rw [Option.some.injEq] at hq
      rw [hb, ← hq]
      exact hvalid
    · exact h.slots b q hq
  · intro b hb
    change (Function.update s.slots full ⟨now, some p⟩ b).payload = none at hb
    show (Function.update s.slots full ⟨now, some p⟩ b).stamp = 0
    rw [Function.update_apply] at hb ⊢
    split at hb
    · cases hb
    · rename_i hne
      rw [if_neg hne]
      exact h.empty b hb
  · intro d
    rw [withCall_calls]
    split
    · exact hvalid
    · rename_i hne
      refine callSound_lock (h.calls d) ?_
      intro full' millis stage hbuilding
      exact hne (Option.some.inj ((reads_building h hbuilding).1.symm.trans hlock))

/-- Every step keeps the cache sound. -/
theorem sound_step {host : Host} {s s' : State} (h : Sound s) (hstep : Step host s s') : Sound s' := by
  cases hstep with
  | elapse w => exact sound_turn h w
  | request k p hfree => exact sound_withHandler h k _
  | write k w next change hat a db hwritten => exact sound_withHandler (sound_turn h _) k _
  | invalidate k next change hat hlock =>
    have hdropped : Sound { s with slots := fun b => { s.slots b with stamp := 0 } } :=
      ⟨h.slots, fun b _ => rfl, h.calls⟩
    exact sound_withHandler hdropped k _
  | call c full hat => exact sound_withCall h trivial
  | clock c full hat now hepoch => exact sound_withCall h hepoch
  | hit c full now hat hlock hfits =>
    refine sound_withCall h ?_
    cases hp : (s.slots full).payload with
    | none => trivial
    | some p => exact h.slots full p hp
  | miss c full now hat hlock hfits =>
    have hheld : Sound { s with lock := some c } :=
      ⟨h.slots, h.empty, fun d => callSound_lock (h.calls d) fun _ _ _ => not_building h hlock⟩
    exact sound_withCall hheld ⟨rfl, by simp [Stage.moments]⟩
  | readNodes c full now hat =>
    refine sound_withCall h ⟨(reads_building h hat).1, ?_⟩
    simp [Stage.moments]
  | readTraffic c full now n hat =>
    obtain ⟨hlock, hpast⟩ := reads_building h hat
    refine sound_withCall h ⟨hlock, ?_⟩
    simpa [Stage.moments] using hpast
  | readAgents c full now n t hat =>
    obtain ⟨hlock, hpast⟩ := reads_building h hat
    refine sound_withCall h ⟨hlock, ?_⟩
    simpa [Stage.moments, Reads.moments] using hpast
  | readReport c full now r hat hmore =>
    obtain ⟨hlock, hpast⟩ := reads_building h hat
    refine sound_withCall h ⟨hlock, ?_⟩
    intro m hm
    rcases List.mem_cons.mp hm with rfl | hm
    · exact le_rfl
    · exact hpast m hm
  | readGrace c full now r report hat =>
    obtain ⟨hlock, hpast⟩ := reads_building h hat
    refine sound_withCall h ⟨hlock, ?_⟩
    intro m hm
    rcases moments_grace hm with hm | rfl
    · exact hpast m hm
    · exact le_rfl
  | store c full now r hat hcomplete p hrendered =>
    obtain ⟨hlock, hpast⟩ := reads_building h hat
    refine sound_store h hlock ?_
    rw [hrendered]
    exact ⟨rfl, hcomplete, hpast⟩

/-- So it is in every reachable state. -/
theorem sound_reachable {host : Host} {s : State} (h : Reachable host s) : Sound s := by
  induction h with
  | start w => exact ⟨fun b p hp => (by cases hp), fun b _ => rfl, fun c => trivial⟩
  | step s s' _ hstep ih => exact sound_step ih hstep

/-! ## Nothing older than a moment -/

/-- What is known of a call under way once an answered change is at least this
old. -/
def CallFresh (v : Nat) : Call → Prop
  | .building _ _ stage => ∀ m ∈ stage.moments, v ≤ m
  | _ => True

/-- No slot can serve, and no rebuild will store, anything read before `v`. -/
structure Fresh (v : Nat) (s : State) : Prop where
  /-- It is not later than now. -/
  now : v ≤ s.now
  /-- A slot is empty or was filled from what was read since. -/
  slots : ∀ b, (s.slots b).stamp = 0 ∨
    ∃ p, (s.slots b).payload = some p ∧ ∀ m ∈ p.reads.moments, v ≤ m
  /-- So is every call that may still fill one. -/
  calls : ∀ c, CallFresh v (s.calls c)

/-- Everything is fresh from the first moment on. -/
theorem fresh_zero {s : State} (h : Sound s) : Fresh 0 s := by
  refine ⟨Nat.zero_le _, ?_, ?_⟩
  · intro b
    cases hp : (s.slots b).payload with
    | none => exact .inl (h.empty b hp)
    | some p => exact .inr ⟨p, rfl, fun m _ => Nat.zero_le m⟩
  · intro c
    cases s.calls c with
    | building full millis stage => exact fun m _ => Nat.zero_le m
    | idle | called | timed | returned => trivial

/-- A call that is fresh may be put in place. -/
theorem fresh_withCall {v : Nat} {s : State} (h : Fresh v s) {c : Nat} {call : Call}
    (hcall : CallFresh v call) : Fresh v (s.withCall c call) := by
  refine ⟨h.now, h.slots, ?_⟩
  intro d
  rw [withCall_calls]
  split
  · exact hcall
  · exact h.calls d

/-- An invalidation, at which nobody rebuilds, makes everything fresh from now. -/
theorem fresh_invalidate {v : Nat} {s : State} (h : Sound s) (hlock : s.lock = none)
    (hnow : v ≤ s.now) : Fresh v { s with slots := fun b => { s.slots b with stamp := 0 } } := by
  refine ⟨hnow, fun b => .inl rfl, ?_⟩
  intro c
  show CallFresh v (s.calls c)
  cases hcall : s.calls c with
  | building full millis stage => exact absurd hcall (not_building h hlock)
  | idle | called | timed | returned => trivial

/-- Nothing that happens brings something older back. -/
theorem fresh_step {host : Host} {v : Nat} {s s' : State} (h : Fresh v s)
    (hstep : Step host s s') : Fresh v s' := by
  have hreads : ∀ {c full millis stage}, s.calls c = .building full millis stage →
      ∀ m ∈ stage.moments, v ≤ m := by
    intro c full millis stage hat
    have hc := h.calls c
    rw [hat] at hc
    exact hc
  cases hstep with
  | elapse w => exact ⟨Nat.le_succ_of_le h.now, h.slots, h.calls⟩
  | request k p hfree => exact ⟨h.now, h.slots, h.calls⟩
  | write k w next change hat a db hwritten => exact ⟨Nat.le_succ_of_le h.now, h.slots, h.calls⟩
  | invalidate k next change hat hlock => exact ⟨h.now, fun b => .inl rfl, h.calls⟩
  | call c full hat => exact fresh_withCall h trivial
  | clock c full hat now hepoch => exact fresh_withCall h trivial
  | hit c full now hat hlock hfits => exact fresh_withCall h trivial
  | miss c full now hat hlock hfits =>
    have hheld : Fresh v { s with lock := some c } := ⟨h.now, h.slots, h.calls⟩
    exact fresh_withCall hheld (by simp [CallFresh, Stage.moments])
  | readNodes c full now hat =>
    have hnow := h.now
    exact fresh_withCall h (by simpa [CallFresh, Stage.moments] using hnow)
  | readTraffic c full now n hat =>
    have hnow := h.now
    have hpast := hreads hat
    refine fresh_withCall h ?_
    simp only [CallFresh, Stage.moments, List.mem_cons, List.not_mem_nil, or_false] at hpast ⊢
    grind
  | readAgents c full now n t hat =>
    have hnow := h.now
    have hpast := hreads hat
    refine fresh_withCall h ?_
    simp only [CallFresh, Stage.moments, Reads.moments, List.flatMap_nil, List.mem_cons,
      List.not_mem_nil, or_false] at hpast ⊢
    rintro m (rfl | rfl | rfl)
    · exact hpast _ (.inl rfl)
    · exact hpast _ (.inr rfl)
    · exact hnow
  | readReport c full now r hat hmore =>
    have hpast := hreads hat
    refine fresh_withCall h ?_
    intro m hm
    rcases List.mem_cons.mp hm with rfl | hm
    · exact h.now
    · exact hpast m hm
  | readGrace c full now r report hat =>
    have hpast := hreads hat
    refine fresh_withCall h ?_
    intro m hm
    rw [Stage.moments, moments_row, List.mem_append] at hm
    rcases hm with hm | hm
    · exact hpast m (List.mem_cons_of_mem _ hm)
    · rcases List.mem_cons.mp hm with rfl | hm
      · exact hpast _ List.mem_cons_self
      · rw [List.mem_singleton.mp hm]
        exact h.now
  | store c full now r hat hcomplete p hrendered =>
    have hpast := hreads hat
    have hstored : Fresh v { s with
        lock := none, slots := Function.update s.slots full ⟨now, some p⟩ } := by
      refine ⟨h.now, ?_, h.calls⟩
      intro b
      dsimp only
      rw [Function.update_apply]
      split
      · refine .inr ⟨p, rfl, ?_⟩
        rw [hrendered]
        exact hpast
      · exact h.slots b
    exact fresh_withCall hstored trivial

/-! ## Answered handlers -/

/-- A handler that has invalidated since its last write that shows leaves
nothing older than that write. -/
def HandlerKept (s : State) (handler : Handler) : Prop :=
  handler.change ≤ s.now ∧
    ∃ dirty, Covered dirty handler.program ∧ (dirty = false → Fresh handler.change s)

/-- What a step keeps of a handler it does not move. -/
theorem handlerKept_step {host : Host} {s s' : State} {handler : Handler}
    (h : HandlerKept s handler) (hstep : Step host s s') (hnow : s.now ≤ s'.now) :
    HandlerKept s' handler := by
  obtain ⟨hchange, dirty, hcovered, hfresh⟩ := h
  exact ⟨hchange.trans hnow, dirty, hcovered, fun hclean => fresh_step (hfresh hclean) hstep⟩

/-- Moments do not go back. -/
theorem now_le {host : Host} {s s' : State} (hstep : Step host s s') : s.now ≤ s'.now := by
  cases hstep with
  | elapse | write => exact Nat.le_succ _
  | _ => exact le_rfl

/-- Every handler under way is kept, whoever moves. -/
theorem handlers_step {host : Host} {s s' : State} (hsound : Sound s)
    (h : ∀ k handler, s.handlers k = some handler → HandlerKept s handler)
    (hstep : Step host s s') :
    ∀ k handler, s'.handlers k = some handler → HandlerKept s' handler := by
  have hother : ∀ k handler, s.handlers k = some handler → HandlerKept s' handler :=
    fun k handler hk => handlerKept_step (h k handler hk) hstep (now_le hstep)
  intro k handler hk
  cases hstep with
  | request j p hfree =>
    rw [withHandler_handlers] at hk
    split at hk
    · cases hk
      refine ⟨Nat.zero_le _, false, covered_program p, ?_⟩
      intro _
      exact fresh_zero (sound_withHandler hsound j _)
    · exact hother k handler hk
  | write j w next change hat a db hwritten =>
    rw [withHandler_handlers] at hk
    split at hk
    · cases hk
      obtain ⟨hchange, dirty, hcovered, hfresh⟩ := h j _ hat
      cases hshows : w.shows with
      | true =>
        refine ⟨le_rfl, true, ?_, fun hclean => by cases hclean⟩
        have hnext := hcovered a
        rwa [hshows, Bool.or_true] at hnext
      | false =>
        refine ⟨Nat.le_succ_of_le hchange, dirty, ?_, ?_⟩
        · have hnext := hcovered a
          rwa [hshows, Bool.or_false] at hnext
        · intro hclean
          have hkept := hfresh hclean
          exact ⟨Nat.le_succ_of_le hkept.now, hkept.slots, hkept.calls⟩
    · exact hother k handler hk
  | invalidate j next change hat hlock =>
    rw [withHandler_handlers] at hk
    split at hk
    · cases hk
      obtain ⟨hchange, dirty, hcovered, -⟩ := h j _ hat
      refine ⟨hchange, false, hcovered, ?_⟩
      intro _
      have hfresh := fresh_invalidate hsound hlock hchange
      exact ⟨hfresh.now, hfresh.slots, hfresh.calls⟩
    · exact hother k handler hk
  | elapse | call | clock | hit | miss | readNodes | readTraffic | readAgents | readReport | readGrace
  | store => exact hother k handler hk

/-- Every handler has yet to empty the cache for what it changed. -/
theorem handlers_reachable {host : Host} {s : State} (h : Reachable host s) :
    ∀ k handler, s.handlers k = some handler → HandlerKept s handler := by
  induction h with
  | start w =>
    intro k handler hk
    cases hk
  | step s s' h hstep ih => exact handlers_step (sound_reachable h) ih hstep

/-- After an answer of success nothing older than the handler's change is left. -/
theorem fresh_answered {host : Host} {s : State} (h : Reachable host s) {k v : Nat}
    (hdone : s.handlers k = some ⟨.answer true, v⟩) : Fresh v s := by
  obtain ⟨-, dirty, hcovered, hfresh⟩ := handlers_reachable h k _ hdone
  exact hfresh (hcovered rfl)

/-! ## Calls that start later -/

/-- What a call has returned was read at `v` or later. -/
def ReturnsFresh (v : Nat) : Call → Prop
  | .returned _ payload => ∃ p, payload = some p ∧ ∀ m ∈ p.reads.moments, v ≤ m
  | _ => True

/-- A slot that may be served is not one that was dropped. -/
theorem stamp_ne_zero {slot : Slot} {now : Int} (hepoch : ttl ≤ now ∧ now ≤ i64Max)
    (h : slot.Fits now) : slot.stamp ≠ 0 := by
  intro hzero
  obtain ⟨-, hyoung⟩ := h
  rw [hzero] at hyoung
  unfold saturatingSub i64Min at hyoung
  unfold ttl at hepoch hyoung
  omega

/-- A call that has not returned something older will not. -/
theorem returnsFresh_step {host : Host} {v c : Nat} {s s' : State} (hsound : Sound s)
    (hfresh : Fresh v s) (hc : ReturnsFresh v (s.calls c)) (hstep : Step host s s') :
    ReturnsFresh v (s'.calls c) := by
  have hmoved : ∀ (d : Nat) (call : Call), ReturnsFresh v call →
      ReturnsFresh v ((s.withCall d call).calls c) := by
    intro d call hcall
    rw [withCall_calls]
    split
    · exact hcall
    · exact hc
  cases hstep with
  | elapse | request | write | invalidate => exact hc
  | call d full hat => exact hmoved d _ trivial
  | clock d full hat now hepoch => exact hmoved d _ trivial
  | hit d full now hat hlock hfits =>
    refine hmoved d _ ?_
    have hepoch := hsound.calls d
    rw [hat] at hepoch
    exact (hfresh.slots full).resolve_left (stamp_ne_zero hepoch hfits)
  | miss d full now hat hlock hfits => exact hmoved d _ trivial
  | readNodes d full now hat => exact hmoved d _ trivial
  | readTraffic d full now n hat => exact hmoved d _ trivial
  | readAgents d full now n t hat => exact hmoved d _ trivial
  | readReport d full now r hat hmore => exact hmoved d _ trivial
  | readGrace d full now r report hat => exact hmoved d _ trivial
  | store d full now r hat hcomplete p hrendered =>
    refine hmoved d _ ⟨p, rfl, ?_⟩
    have hpast := hfresh.calls d
    rw [hat] at hpast
    rw [hrendered]
    exact hpast

/-- A call that starts after a handler has answered success returns a frame
made of reads at or after the moment of the handler's change, whatever happens
in between. -/
theorem snapshot_fresh {host : Host} {s s' : State} {k v c : Nat} {full : Bool}
    {payload : Option Rendered} (h : Reachable host s)
    (hdone : s.handlers k = some ⟨.answer true, v⟩) (hidle : s.calls c = .idle)
    (hrun : Relation.ReflTransGen (Step host) s s') (hreturned : s'.calls c = .returned full payload) :
    ∃ p, payload = some p ∧ p.frame = frameFrom s'.world full p.reads ∧
      p.reads.Complete s'.world full ∧ ∀ m ∈ p.reads.moments, v ≤ m ∧ m ≤ s'.now := by
  have hkept : Sound s' ∧ Fresh v s' ∧ ReturnsFresh v (s'.calls c) := by
    clear hreturned
    induction hrun with
    | refl =>
      refine ⟨sound_reachable h, fresh_answered h hdone, ?_⟩
      rw [hidle]
      trivial
    | tail _ hstep ih =>
      obtain ⟨hsound, hfresh, hc⟩ := ih
      exact ⟨sound_step hsound hstep, fresh_step hfresh hstep,
        returnsFresh_step hsound hfresh hc hstep⟩
  obtain ⟨hsound, -, hc⟩ := hkept
  rw [hreturned] at hc
  obtain ⟨p, rfl, hlate⟩ := hc
  have hvalid := hsound.calls c
  rw [hreturned] at hvalid
  exact ⟨p, rfl, hvalid.frame, hvalid.complete, fun m hm => ⟨hlate m hm, hvalid.past m hm⟩⟩

/-! ## A call to look at -/

/-- A hub with a public node that has reported, on some day. -/
def oneNode : World :=
  ⟨StoreJobs.probedStore, fun n => if n = 1 then some 0 else none, fun _ => .silent,
    Clock.june 1 first_day⟩

/-- The call is where it was put. -/
theorem withCall_self (s : State) (c : Nat) (call : Call) : (s.withCall c call).calls c = call := by
  rw [withCall_calls, if_pos rfl]

/-- A rebuild reads one row after another until it has them all. -/
theorem rows_run {host : Host} (missing : Nat) {s : State} {c : Nat} {full : Bool} {now : Int}
    {r : Reads} (hat : s.calls c = .building full now (.rows r))
    (hlength : r.rows.length + missing = (listed s.world full r.nodes).length) :
    ∃ s' r', Relation.ReflTransGen (Step host) s s' ∧
      s'.calls c = .building full now (.rows r') ∧ s'.world = s.world ∧ r'.nodes = r.nodes ∧
      r'.Complete s'.world full := by
  induction missing generalizing s r with
  | zero => exact ⟨s, r, .refl, hat, rfl, rfl, hlength⟩
  | succ missing ih =>
    have hreport : Step host s _ := .readReport c full now r hat (by omega)
    have hgrace : Step host (s.withCall c (.building full now (.halfRow r s.now))) _ :=
      .readGrace c full now r s.now (withCall_self s c _)
    have hmore : (r.rows ++ [(s.now, s.now)]).length + missing =
        (listed s.world full r.nodes).length := by
      rw [List.length_append, List.length_singleton]
      omega
    obtain ⟨s', r', hrun, hat', hworld, hnodes, hcomplete⟩ := ih
      (withCall_self (s.withCall c (.building full now (.halfRow r s.now))) c
        (.building full now (.rows { r with rows := r.rows ++ [(s.now, s.now)] }))) hmore
    exact ⟨s', r', ((Relation.ReflTransGen.single hreport).tail hgrace).trans hrun, hat', hworld,
      hnodes, hcomplete⟩

/-- A call on an invalidated cache runs to its end. -/
theorem fetch_run {host : Host} {s : State} {c : Nat} (hidle : s.calls c = .idle)
    (hlock : s.lock = none) (hstamp : (s.slots false).stamp = 0) :
    ∃ s' p, Relation.ReflTransGen (Step host) s s' ∧ s'.calls c = .returned false (some p) ∧
      p.reads.rows.length = (listed s.world false s.now).length := by
  let called := s.withCall c (.called false)
  let timed := called.withCall c (.timed false 5000)
  have hfits : ¬ (timed.slots false).Fits 5000 := by
    rintro ⟨-, hyoung⟩
    rw [show (timed.slots false).stamp = 0 from hstamp] at hyoung
    exact absurd hyoung (by decide)
  have hclock : Relation.ReflTransGen (Step host) s timed :=
    (Relation.ReflTransGen.single (.call c false hidle)).tail
      (.clock c false (withCall_self s c _) 5000 (by decide))
  have hheld := hclock.tail (.miss c false 5000 (withCall_self called c _) hlock hfits)
  have hread := ((hheld.tail (.readNodes c false 5000 (withCall_self _ c _))).tail
    (.readTraffic c false 5000 s.now (withCall_self _ c _))).tail
      (.readAgents c false 5000 s.now s.now (withCall_self _ c _))
  obtain ⟨t, hread, hat, hworld⟩ : ∃ t, Relation.ReflTransGen (Step host) s t ∧
      t.calls c = .building false 5000 (.rows ⟨s.now, s.now, s.now, []⟩) ∧ t.world = s.world :=
    ⟨_, hread, withCall_self _ c _, rfl⟩
  obtain ⟨u, r, hrows, hat', hworld', hnodes, hcomplete⟩ := @rows_run host _ t c false 5000 _ hat
    (Nat.zero_add _)
  refine ⟨_, _, (hread.trans hrows).tail (.store c false 5000 r hat' hcomplete _ rfl),
    withCall_self _ c _, ?_⟩
  rw [Reads.Complete, hworld', hworld, hnodes] at hcomplete
  exact hcomplete

/-- The row of the public node is read after the setting was answered. -/
theorem snapshot_fresh_setting : ∃ (s : State) (p : Rendered),
    s.calls 0 = .returned false (some p) ∧ p.frame = frameFrom s.world false p.reads ∧
      p.reads.rows.length = 1 ∧ ∀ m ∈ p.reads.moments, 1 ≤ m ∧ m ≤ s.now := by
  let host : Host := ⟨id, fun _ => none⟩
  let panel : Panel := .saveSettings some "0" ⟨"", 0⟩ [("site_title", "x")]
  have hself : ∀ (t : State) (handler : Handler), (t.withHandler 0 handler).handlers 0 = some handler := by
    intro t handler
    rw [withHandler_handlers, if_pos rfl]
  obtain ⟨next, hprogram, hnext⟩ : ∃ next, panel.program = .write (.solo (.set "site_title" "x")) next ∧
      next (.ok .nothing) = succeed := ⟨_, rfl, rfl⟩
  have hwritten : Written host StoreJobs.probedStore (.solo (.set "site_title" "x")) (.ok .nothing)
      (StoreAnswers.withSetting StoreJobs.probedStore "site_title" "x") :=
    .solo _ _ _ (StoreAnswers.set_ran host _ _ _)
  have hrequest : Reachable host ((State.start oneNode).withHandler 0 ⟨panel.program, 0⟩) :=
    .step _ _ (.start oneNode) (.request 0 panel rfl)
  rw [hprogram] at hrequest
  have hwrite := Reachable.step _ _ hrequest (.write 0 _ next 0 (hself _ _) _ _ hwritten)
  rw [hnext] at hwrite
  have hdone := Reachable.step _ _ hwrite (.invalidate 0 _ _ (hself _ _) rfl)
  obtain ⟨s, hdone, hanswered, hidle, hlock, hstamp, hnode⟩ : ∃ s, Reachable host s ∧
      s.handlers 0 = some ⟨.answer true, 1⟩ ∧ s.calls 0 = .idle ∧ s.lock = none ∧
      (s.slots false).stamp = 0 ∧ (s.world s.now).store.node = StoreJobs.probedStore.node :=
    ⟨_, hdone, hself _ _, rfl, rfl, rfl, rfl⟩
  have hlisted : (listed s.world false s.now).length = 1 := by
    unfold listed NotifySweep.nodes
    rw [hnode]
    decide +kernel
  obtain ⟨s', p, hrun, hreturned, hrows⟩ := @fetch_run host s 0 hidle hlock hstamp
  obtain ⟨p', hp, hframe, -, hmoments⟩ := snapshot_fresh hdone hanswered hidle hrun hreturned
  cases hp
  exact ⟨s', p, hreturned, hframe, hrows.trans hlisted, hmoments⟩

end Romi.SnapshotFreshness
