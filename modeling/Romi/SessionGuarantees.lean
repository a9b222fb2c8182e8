import Romi.SessionRetirement

/-!
# What the panel may rely on about connections

No session writes once the closure that retires it has started; every session
in the map holds the current token of its node; and a node reads online only
while somebody serves it, as long as no task leaves its loop past the cleanup.
-/

namespace Romi.SessionGuarantees

open AgentSessions CachedTransactions KeyedTable NodeContinuity SessionRetirement StoreGuard
  StoreInvariant StoreJobs StoreOperations StoreSchema
open CachedTransactions.Job

variable {host : Host} {s s' : State}

/-! ## Runs in which nothing sent is lost -/

/-- The loop ended because a pushed message or a heartbeat could not be sent. -/
def SendFailed (exit : Exit) : Prop := exit = .pushFailed ∨ exit = .heartbeatFailed

/-- No loop ends on a failed send while its session is in the map. -/
def Tidy (s s' : State) : Prop :=
  ∀ σ exit, s'.log = s.log ++ [.exited σ exit] → SendFailed exit → ∀ n, (n, σ) ∉ s.agents

/-- A run in which every step is tidy. -/
inductive TidyRun (host : Host) : State → Prop
  /-- The hub just started. -/
  | start (db : Store) : TidyRun host (.start db)
  /-- A tidy step. -/
  | step {s s' : State} (h : TidyRun host s) (hstep : Step host s s') (htidy : Tidy s s') :
    TidyRun host s'

/-- A tidy run is one of the hub. -/
theorem TidyRun.reachable (h : TidyRun host s) : Reachable host s := by
  induction h with
  | start db => exact .start db
  | step _ hstep _ ih => exact ih.step hstep

/-! ## One agent on a hub with one node -/

/-- A node whose token is `secret`. -/
def secretNode : NodeRow :=
  newNodeRow 1 ⟨"n", true, 0, "USD", "month", none, "", 0, "sum", 1, 0, "GB", 0, 0, true, false⟩
    "secret" 0 0

/-- A hub that keeps tokens as they are. -/
def plainHost : Host := ⟨fun token => token, fun _ => none⟩

/-- The only node is there. -/
def secretStore : Store :=
  { Store.blank with node := (Table.empty NodeRow.id).put secretNode }

/-- With nobody in the map every step is tidy. -/
theorem tidy_of_empty (h : s.agents = []) : Tidy s s' := by
  intro σ exit _ _ n hin
  rw [h] at hin
  cases hin

/-- The agent connects: its session is in the map and its task in the loop. -/
theorem agent_connects : ∃ s, TidyRun plainHost s ∧ s.db = secretStore ∧ s.agents = [(1, 0)] ∧
    s.gate = none ∧ s.task 0 = .idle ∧ s.retired 0 = false ∧ s.log = [.activated 0] ∧
    s.info 0 = ⟨1, "secret", "192.0.2.1"⟩ := by
  have htoken : TokenOf secretStore (plainHost.sha256 "secret") 1 :=
    ⟨secretNode, Table.mem_put.mpr (.inl rfl), rfl, rfl⟩
  have h₁ := (TidyRun.start secretStore).step
    (.upgraded ⟨1, "secret", "192.0.2.1"⟩ htoken) (tidy_of_empty rfl)
  have h₂ := h₁.step (.served ⟨1, "secret", "192.0.2.1"⟩ [] [] rfl) (tidy_of_empty rfl)
  have h₃ := h₂.step (.entered (.activate 0) rfl fun σ hσ => by cases hσ; rfl) (tidy_of_empty rfl)
  have h₄ := h₃.step (.admitted 0 rfl htoken) (tidy_of_empty rfl)
  have h₅ := h₄.step (.took (.activate 0) .checked rfl trivial) (tidy_of_empty rfl)
  have h₆ := h₅.step (.unlocked 0 false [] rfl) (tidy_of_empty rfl)
  have h₇ := h₆.step (.installed 0 rfl) (tidy_of_empty rfl)
  exact ⟨_, h₇, rfl, rfl, rfl, rfl, rfl, rfl, rfl⟩

/-! ## Retired sessions -/

/-- Only the country of this node changed, and only if it still has the address. -/
def CountryOnly (db db' : Store) (n : Int) (cc ip : String) : Prop :=
  db' = { db with node := db'.node } ∧
    (∀ r' ∈ db'.node.rows, r' ∈ db.node.rows ∨
      ∃ r ∈ db.node.rows, r.id = n ∧ r.ip = ip ∧ r' = { r with country := cc }) ∧
    ∀ k, db'.node.Has k ↔ db.node.Has k

/-- `set_country`, however it ends. -/
theorem setCountry_only (host : Host) (n : Int) (cc ip : String) (session : Session Store Guard) :
    CountryOnly session.db ((Solo.setCountry n cc ip).job host session).2.db n cc ip := by
  have hkey : ∀ r : NodeRow, ({ r with country := cc } : NodeRow).id = r.id := fun _ => rfl
  cases h : (Solo.setCountry n cc ip).job host session with
  | mk r after =>
    dsimp only
    cases r with
    | error e =>
      rw [(execute_error (boxed_error h)).1]
      exact ⟨rfl, fun _ hr => .inl hr, fun _ => Iff.rfl⟩
    | ok p =>
      obtain ⟨u, hx, -⟩ := boxed_ok h
      rw [(execute_ok hx).1]
      refine ⟨rfl, ?_, fun k => Table.has_updateWhere hkey⟩
      intro r' hr'
      obtain ⟨r, hr, rfl⟩ := (Table.mem_updateWhere hkey).mp hr'
      by_cases hp : r.id = n ∧ r.ip = ip
      · rw [if_pos hp]
        exact .inr ⟨r, hr, hp.1, hp.2, rfl⟩
      · rw [if_neg hp]
        exact .inl hr

/-- The cleanup of one session leaves every other one alone. -/
theorem release_other (h : Sound s) {σ τ : Nat} (hne : τ ≠ σ) :
    (∀ n, (n, τ) ∈ s.agents → (n, τ) ∈ (s.released σ).agents) ∧
      (s.released σ).retired τ = s.retired τ ∧ (s.retire σ).retired τ = s.retired τ := by
  refine ⟨?_, ?_, Function.update_of_ne hne _ _⟩
  · intro n hin
    rcases released_cases s σ with ⟨hlookup, heq⟩ | ⟨-, heq⟩
    · rw [heq]
      refine mem_without.mpr ⟨hin, ?_⟩
      intro hkey
      have hsame := h.unique hin (lookup_mem hlookup) hkey
      rw [Prod.mk.injEq] at hsame
      exact hne hsame.2
    · rw [heq]
      exact hin
  · obtain ⟨agents, task, heq, -⟩ := released_frame s σ
    rw [heq]

/-- Once the closure of a retirement has started, no write of `dispatch` for a
session of its scope that was activated before takes effect; the country lookup
changes at most the country of a node that still has the address; the map never
holds two sessions of one node; and the cleanup of a session leaves every other
session in the map and unmarked. -/
theorem retired_sessions_silent (h : Reachable host s) :
    (∀ pre scope post, s.log = pre ++ .closure scope :: post → ∀ σ, .activated σ ∈ pre →
      covers scope (s.info σ).node = true → .wrote σ ∉ post) ∧
    (∀ n cc ip (session : Session Store Guard), session.db = s.db →
      CountryOnly s.db ((Solo.setCountry n cc ip).job host session).2.db n cc ip) ∧
    (∀ a ∈ s.agents, ∀ b ∈ s.agents, (s.info a.2).node = (s.info b.2).node → a = b) ∧
    ∀ σ τ, τ ≠ σ → (∀ n, (n, τ) ∈ s.agents → (n, τ) ∈ (s.released σ).agents) ∧
      (s.released σ).retired τ = s.retired τ ∧ (s.retire σ).retired τ = s.retired τ := by
  have hs := reachable_sound h
  refine ⟨?_, ?_, ?_, fun σ τ hne => release_other hs hne⟩
  · intro pre scope post hlog σ hact hcovers
    exact (hs.barrier pre scope post hlog σ hact hcovers).2
  · intro n cc ip session hdb
    rw [← hdb]
    exact setCountry_only host n cc ip session
  · intro a ha b hb hnode
    rw [(hs.own a ha).1, (hs.own b hb).1] at hnode
    exact hs.unique ha hb hnode

/-- The agent is connected when its node is deleted: it is silent from there on. -/
theorem retired_sessions_silent_deletion : ∃ s : State, s.log = [.activated 0, .closure (some 1)] ∧
    ∀ post, s.log = [.activated 0] ++ .closure (some 1) :: post → .wrote 0 ∉ post := by
  obtain ⟨s, hrun, -, hagents, hgate, hidle, -, hlog, hinfo⟩ := agent_connects
  have h₁ := hrun.reachable.step (.entered (.node 1 .delete) hgate nofun)
  have h₂ := h₁.step (.took (.node 1 .delete) .entered rfl trivial)
  have h₃ := h₂.step (.marked (.node 1 .delete) 0 [] [] (by
    dsimp only
    rw [hagents]
    rfl))
  have h₄ := h₃.step (.locked (.node 1 .delete) 0 [] [] rfl (by
    change ¬ (s.task 0).Holds
    rw [hidle]
    exact fun h => h))
  have h₅ := h₄.step (.begun (.node 1 .delete) false [0] rfl nofun)
  have hexists : ∀ s' : State, Reachable plainHost s' → s'.log = s.log ++ [.closure (some 1)] →
      s'.info = s.info → s'.log = [.activated 0, .closure (some 1)] ∧
        ∀ post, s'.log = [.activated 0] ++ .closure (some 1) :: post → .wrote 0 ∉ post := by
    intro s' hreach hgrown hsame
    rw [hlog] at hgrown
    refine ⟨hgrown, ?_⟩
    intro post hsplit
    refine (retired_sessions_silent hreach).1 _ _ _ hsplit 0 List.mem_cons_self ?_
    rw [hsame, hinfo]
    rfl
  exact ⟨_, hexists _ h₅ rfl rfl⟩

/-! ## Tokens -/

/-- A write that singles a node out neither by its token nor by deletion. -/
theorem tokenOf_continues {t : Touches} {db db' : Store} (h : Continues t db db') {hash : String}
    {n : Int} (hrekeyed : ¬ t.rekeyed n) (hremoved : ¬ t.removed n) (htoken : TokenOf db hash n) :
    TokenOf db' hash n := by
  obtain ⟨r, hr, rfl, rfl⟩ := htoken
  obtain ⟨r', hr', hid, hsame⟩ := h.token hr hrekeyed hremoved
  exact ⟨r', hr', hid, hsame⟩

/-- A write of `dispatch` leaves every token alone. -/
theorem frameWrite_continues (host : Host) (n : Int) (ip : String) (op : FrameWrite)
    (session : Session Store Guard) :
    Continues Touches.none session.db (op.job host n ip session).2.db := by
  cases op with
  | saveFacts facts => exact solo_continues host _ (.saveFacts n facts ip) session (.refl _ _)
  | accumulate r => exact telemetry_continues host _ (.accumulate n r) session (.refl _ _)
  | insertMetric ts m => exact telemetry_continues host _ (.insertMetric n ts m) session (.refl _ _)
  | touchSeen ts => exact telemetry_continues host _ (.touchSeen n ts) session (.refl _ _)
  | insertPing taskId ts latency =>
    exact telemetry_continues host _ (.insertPing n taskId ts latency) session (.refl _ _)

/-- So does every turn of a task. -/
theorem turn_continues {σ : Nat} {t t' : Task} {db : Store} {es : List Entry}
    (h : Turn host s σ t t' db es) : Continues Touches.none s.db db := by
  cases h with
  | succeeded op next session hdb p hok =>
    have hc := frameWrite_continues host (s.info σ).node (s.info σ).ip op session
    rwa [hdb] at hc
  | failed op next session hdb e hfail =>
    have hc := frameWrite_continues host (s.info σ).node (s.info σ).ip op session
    rwa [hdb] at hc
  | located cc session hdb =>
    have hc := solo_continues host session.db (.setCountry (s.info σ).node cc (s.info σ).ip)
      session (.refl _ _)
    rwa [hdb] at hc
  | _ => exact .refl _ _

/-- Every session in the map, and the one whose token was just checked, holds
the current token of its node. -/
structure Current (host : Host) (s : State) : Prop where
  /-- Every agent of the map holds the token of its node. -/
  mapped : ∀ a ∈ s.agents, TokenOf s.db (host.sha256 (s.info a.2).token) a.1
  /-- And so does a session at the gate, once it has checked. -/
  checked : ∀ σ phase, s.gate = some ⟨.activate σ, phase⟩ → phase ≠ .entered →
    TokenOf s.db (host.sha256 (s.info σ).token) (s.info σ).node

/-- A token stays current, unless the holder of the gate has taken its node out
of the map and now changes or restores it. -/
theorem token_step (hstep : Step host s s') {hash : String} {n : Int}
    (htoken : TokenOf s.db hash n) : TokenOf s'.db hash n ∨
      ∃ e held, s.gate = some ⟨e, .acting held⟩ ∧ (∀ σ, e ≠ .activate σ) ∧
        covers (s.scope e) n = true := by
  cases hstep with
  | acted m op held session hgate hdb =>
    by_cases hne : n = m
    · exact .inr ⟨_, held, hgate, nofun, decide_eq_true hne⟩
    · have hc := solo_continues host session.db (op.solo m) session (.refl _ _)
      rw [hdb] at hc
      refine .inl (tokenOf_continues hc ?_ ?_ htoken)
      · cases op with
        | rotate token => exact hne
        | delete => exact fun hx => hx
      · cases op with
        | rotate token => exact fun hx => hx
        | delete => exact hne
  | restored held db hgate => exact .inr ⟨_, held, hgate, nofun, rfl⟩
  | turned σ t db es hturn =>
    exact .inl (tokenOf_continues (turn_continues hturn) (fun hx => hx) (fun hx => hx) htoken)
  | released σ htask =>
    obtain ⟨agents, task, heq, -⟩ := released_frame s σ
    rw [heq]
    exact .inl htoken
  | wrote op hop session hdb =>
    have hc := solo_continues host session.db op session (.refl _ _)
    rw [hdb] at hc
    refine .inl ?_
    cases op with
    | resetToken id token => exact absurd rfl (hop.1 id token)
    | deleteNode id => exact absurd rfl (hop.2 id)
    | _ => exact tokenOf_continues hc (fun hx => hx) (fun hx => hx) htoken
  | _ => exact .inl htoken

/-- Only the last step of `activate` brings a session into the map. -/
theorem agents_step (hstep : Step host s s') {a : Int × Nat} (ha : a ∈ s'.agents) :
    a ∈ s.agents ∨ (s.gate = some ⟨.activate a.2, .acting []⟩ ∧ (s.info a.2).node = a.1 ∧
      s'.db = s.db ∧ s'.task a.2 = .idle) := by
  cases hstep with
  | installed σ hgate =>
    rcases List.mem_cons.mp ha with rfl | ha
    · exact .inr ⟨hgate, rfl, rfl, Function.update_self _ _ _⟩
    · exact .inl (mem_without.mp ha).1
  | took e phase hgate hready => exact .inl (List.mem_filter.mp ha).1
  | released σ htask =>
    obtain ⟨agents, task, heq, hless⟩ := released_frame s σ
    rw [heq] at ha
    exact .inl (hless a ha)
  | _ => exact .inl ha

/-- A session past the check of `activate` was past it before, unless its token
has just been checked. -/
theorem checked_step (hstep : Step host s s') {σ : Nat} {phase : Phase}
    (hgate' : s'.gate = some ⟨.activate σ, phase⟩) (hne : phase ≠ .entered) :
    (∃ before, s.gate = some ⟨.activate σ, before⟩ ∧ before ≠ .entered) ∨
      (TokenOf s.db (host.sha256 (s.info σ).token) (s.info σ).node ∧
        s'.db = s.db ∧ s'.info = s.info) := by
  cases hstep with
  | entered e hgate hactive =>
    cases hgate'
    exact absurd rfl hne
  | admitted τ hgate htoken =>
    cases hgate'
    exact .inr ⟨htoken, rfl, rfl⟩
  | refused τ hgate => cases hgate'
  | took e before hgate hready =>
    cases hgate'
    refine .inl ⟨before, hgate, ?_⟩
    rintro rfl
    exact hready.elim
  | marked e τ todo held hgate =>
    cases hgate'
    exact .inl ⟨_, hgate, nofun⟩
  | locked e τ todo held hgate hfree =>
    cases hgate'
    exact .inl ⟨_, hgate, nofun⟩
  | begun e marked held hgate he =>
    cases hgate'
    exact absurd rfl (he σ)
  | acted n op held session hgate hdb => cases hgate'
  | restored held db hgate => cases hgate'
  | left e held hgate => cases hgate'
  | unlocked τ marked held hgate =>
    cases hgate'
    exact .inl ⟨_, hgate, nofun⟩
  | installed τ hgate => cases hgate'
  | released τ htask =>
    obtain ⟨agents, task, heq, -⟩ := released_frame s τ
    rw [heq] at hgate'
    exact .inl ⟨phase, hgate', hne⟩
  | _ => exact .inl ⟨phase, hgate', hne⟩

/-- Nobody gets in or stays in with a token that is not current. -/
theorem Current.step (h : Current host s) (hs : Sound s) (hstep : Step host s s') :
    Current host s' := by
  refine ⟨?_, ?_⟩
  · intro a ha
    rcases agents_step hstep ha with hin | ⟨hgate, hnode, hdb, -⟩
    · rw [info_step (hs.activated_lt (hs.own a hin).2) hstep]
      rcases token_step hstep (h.mapped a hin) with hkept | ⟨e, held, hgate, -, hcovers⟩
      · exact hkept
      · -- whoever changes a token has taken its node out of the map
        have hfree := hs.cleared e _ hgate trivial a hin
        rw [hcovers] at hfree
        cases hfree
    · rw [info_step (hs.entering_lt hgate) hstep, hdb, ← hnode]
      exact h.checked a.2 _ hgate nofun
  · intro σ phase hgate' hphase
    rcases checked_step hstep hgate' hphase with ⟨before, hgate, hne⟩ | ⟨htoken, hdb, hinfo⟩
    · rw [info_step (hs.entering_lt hgate) hstep]
      rcases token_step hstep (h.checked σ before hgate hne) with
        hkept | ⟨e, held, hother, he, -⟩
      · exact hkept
      · rw [hgate] at hother
        cases hother
        exact absurd rfl (he σ)
    · rw [hdb, hinfo]
      exact htoken

/-- By induction on the run, tokens are current in every state. -/
theorem reachable_current (h : Reachable host s) : Current host s := by
  induction h with
  | start db =>
    refine ⟨List.forall_mem_nil _, ?_⟩
    intro σ phase hgate
    cases hgate
  | step hr hstep ih => exact ih.step (reachable_sound hr) hstep

/-- Every session in the map is there under its own node with a token whose
hash is at that moment the stored one of that node; and when a rotation, a
deletion or a restore has run, no session of its scope is in the map, so that
whoever comes later was checked against the store it left. -/
theorem sessions_hold_current_tokens (h : Reachable host s) :
    (∀ n σ, (n, σ) ∈ s.agents →
      (s.info σ).node = n ∧ TokenOf s.db (host.sha256 (s.info σ).token) n) ∧
    (∀ e held, s.gate = some ⟨e, .acted held⟩ →
      ∀ n σ, (n, σ) ∈ s.agents → covers (s.scope e) n = false) ∧
    ∀ s', Step host s s' → ∀ n σ, (n, σ) ∉ s.agents → (n, σ) ∈ s'.agents →
      TokenOf s.db (host.sha256 (s.info σ).token) n := by
  have hs := reachable_sound h
  have hc := reachable_current h
  refine ⟨?_, ?_, ?_⟩
  · intro n σ hin
    exact ⟨(hs.own _ hin).1, hc.mapped _ hin⟩
  · intro e held hgate n σ hin
    exact hs.cleared e _ hgate trivial _ hin
  · intro s' hstep n σ hout hin
    rcases agents_step hstep hin with hin | ⟨hgate, hnode, -, -⟩
    · exact absurd hin hout
    · have hchecked := hc.checked σ _ hgate nofun
      rwa [hnode] at hchecked

/-- The connected agent holds the current token of its node. -/
theorem sessions_hold_current_tokens_connected : ∃ s : State, s.agents = [(1, 0)] ∧
    TokenOf s.db "secret" 1 := by
  obtain ⟨s, hrun, -, hagents, -, -, -, -, hinfo⟩ := agent_connects
  refine ⟨s, hagents, ?_⟩
  have hcurrent := (sessions_hold_current_tokens hrun.reachable).1 1 0 (by
    rw [hagents]
    exact List.mem_cons_self)
  rw [hinfo] at hcurrent
  exact hcurrent.2

/-! ## Online means connected -/

/-- The task of a session that was let in and has not left. -/
def Connected (t : Task) : Prop := Serving t ∨ t = .leaving

/-- Every node in the map has a task that serves it, and no task that returned
left its session there. -/
def Online (s : State) : Prop :=
  (∀ n σ, (n, σ) ∈ s.agents → Connected (s.task σ)) ∧
    ∀ σ, s.task σ = .returned → ∀ n, (n, σ) ∉ s.agents

/-- The failed sends are the exits that return past the cleanup. -/
theorem early_iff (exit : Exit) : exit.early = true ↔ SendFailed exit := by
  cases exit <;> simp [Exit.early, SendFailed]

/-- A turn that ends the loop ends the task, or sends it to its cleanup. -/
theorem turn_exited {σ τ : Nat} {t t' : Task} {db : Store} {es : List Entry} {exit : Exit}
    (h : Turn host s σ t t' db es) (hin : .exited τ exit ∈ es) :
    τ = σ ∧ t' = if exit.early = true then .returned else .leaving := by
  cases h with
  | ended exit' =>
    rw [List.mem_singleton, Entry.exited.injEq] at hin
    rw [hin.2]
    exact ⟨hin.1, rfl⟩
  | succeeded op next session hdb p hok => simp at hin
  | failed op next session hdb e hfail => simp at hin
  | located cc session hdb => simp at hin
  | _ => cases hin

/-- A turn ends in the loop, after it, or at once on a failed send. -/
theorem turn_end {σ : Nat} {t t' : Task} {db : Store} {es : List Entry}
    (h : Turn host s σ t t' db es) :
    Connected t' ∨ ∃ exit, SendFailed exit ∧ es = [.exited σ exit] := by
  cases h with
  | ended exit =>
    split
    · rename_i hearly
      exact .inr ⟨exit, (early_iff exit).mp hearly, rfl⟩
    · exact .inl (.inr rfl)
  | received f =>
    refine .inl (.inl ?_)
    split
    · trivial
    · trivial
  | examined f =>
    refine .inl (.inl ?_)
    split
    · trivial
    · trivial
  | finished owed =>
    refine .inl (.inl ?_)
    split
    · trivial
    · trivial
  | _ => exact .inl (.inl trivial)

/-- What a step does to a task that serves. -/
theorem serving_step (hs : Sound s) (hstep : Step host s s') {σ : Nat}
    (hserving : Serving (s.task σ)) : s'.task σ = s.task σ ∨ Connected (s'.task σ) ∨
      ∃ exit, SendFailed exit ∧ s'.log = s.log ++ [.exited σ exit] := by
  have hupdate : ∀ {τ : Nat} {t t₀ : Task}, s.task τ = t₀ → ¬ Serving t₀ →
      Function.update s.task τ t σ = s.task σ := by
    intro τ t t₀ htask hno
    refine Function.update_of_ne ?_ _ _
    rintro rfl
    rw [htask] at hserving
    exact hno hserving
  cases hstep with
  | served u before after hu =>
    refine .inl (Function.update_of_ne ?_ _ _)
    have hlt := hs.born σ (by rintro heq; rw [heq] at hserving; exact hserving)
    exact Nat.ne_of_lt hlt
  | refused τ hgate => exact .inl (hupdate (hs.entering τ _ hgate) fun hx => hx)
  | installed τ hgate => exact .inl (hupdate (hs.entering τ _ hgate) fun hx => hx)
  | turned τ t db es hturn =>
    by_cases hne : τ = σ
    · subst hne
      refine .inr ?_
      dsimp only
      rw [Function.update_self]
      rcases turn_end hturn with hconnected | ⟨exit, hfailed, rfl⟩
      · exact .inl hconnected
      · exact .inr ⟨exit, hfailed, rfl⟩
    · exact .inl (Function.update_of_ne (Ne.symm hne) _ _)
  | released τ htask =>
    rcases released_cases s τ with ⟨-, heq⟩ | ⟨-, heq⟩
    · rw [heq]
      exact .inl (hupdate htask fun hx => hx)
    · rw [heq]
      exact .inl (hupdate htask fun hx => hx)
  | silenced τ htask => exact .inl (hupdate htask fun hx => hx)
  | _ => exact .inl rfl

/-- A session of the map is the one found under its node. -/
theorem lookup_of_mem (hs : Sound s) {n : Int} {σ : Nat} (hin : (n, σ) ∈ s.agents) :
    s.lookup n = some σ := by
  cases hlookup : s.lookup n with
  | none =>
    unfold State.lookup at hlookup
    rw [Option.map_eq_none_iff, List.find?_eq_none] at hlookup
    exact absurd (decide_eq_true rfl) (hlookup _ hin)
  | some τ =>
    have hsame := hs.unique (lookup_mem hlookup) hin rfl
    rw [Prod.mk.injEq] at hsame
    rw [hsame.2]

/-- The session is out of the map and its task is past `activate`. -/
def Gone (s : State) (σ : Nat) : Prop :=
  s.task σ ≠ .unborn ∧ s.task σ ≠ .activating ∧ ∀ n, (n, σ) ∉ s.agents

/-- Such a session does not come back. -/
theorem Gone.step {σ : Nat} (h : Gone s σ) (hs : Sound s) (hstep : Step host s s') :
    Gone s' σ := by
  obtain ⟨hborn, hpast, hout⟩ := h
  have hout' : ∀ n, (n, σ) ∉ s'.agents := by
    intro n hin
    rcases agents_step hstep hin with hin | ⟨hgate, -⟩
    · exact hout n hin
    · exact hpast (hs.entering σ _ hgate)
  rcases task_step hs hstep σ with hsame | ⟨rfl, -, -⟩ | ⟨-, hends⟩
  · rw [Gone, hsame]
    exact ⟨hborn, hpast, hout'⟩
  · exact absurd (hs.born _ hborn) (lt_irrefl _)
  · exact ⟨hends.1, hends.2, hout'⟩

/-- `release` takes the session out of the map, if it is there. -/
theorem released_gone (hs : Sound s) (σ : Nat) : Gone (s.released σ) σ := by
  rcases released_cases s σ with ⟨-, heq⟩ | ⟨hno, heq⟩
  · rw [Gone, heq]
    dsimp only
    rw [Function.update_self]
    refine ⟨nofun, nofun, ?_⟩
    intro n hin
    obtain ⟨hin, hne⟩ := mem_without.mp hin
    exact hne (hs.own _ hin).1.symm
  · rw [Gone, heq]
    dsimp only
    rw [Function.update_self]
    refine ⟨nofun, nofun, ?_⟩
    intro n hin
    apply hno
    rw [(hs.own _ hin).1]
    exact lookup_of_mem hs hin

/-- A task that left the loop goes nowhere but through its cleanup. -/
theorem leaving_step (hs : Sound s) (hstep : Step host s s') {σ : Nat}
    (hleaving : s.task σ = .leaving) : s'.task σ = .leaving ∨ Gone s' σ := by
  have hupdate : ∀ {τ : Nat} {t t₀ : Task}, s.task τ = t₀ → t₀ ≠ .leaving →
      Function.update s.task τ t σ = .leaving := by
    intro τ t t₀ htask hno
    refine (Function.update_of_ne ?_ _ _).trans hleaving
    rintro rfl
    exact hno (htask.symm.trans hleaving)
  cases hstep with
  | released τ htask =>
    by_cases hne : τ = σ
    · rw [hne]
      exact .inr (released_gone hs σ)
    · rcases released_cases s τ with ⟨-, heq⟩ | ⟨-, heq⟩
      · rw [heq]
        exact .inl ((Function.update_of_ne (Ne.symm hne) _ _).trans hleaving)
      · rw [heq]
        exact .inl ((Function.update_of_ne (Ne.symm hne) _ _).trans hleaving)
  | refused τ hgate => exact .inl (hupdate (hs.entering τ _ hgate) nofun)
  | installed τ hgate => exact .inl (hupdate (hs.entering τ _ hgate) nofun)
  | turned τ t db es hturn =>
    refine .inl (hupdate rfl ?_)
    intro heq
    have hserving := (turn_spec hturn).1
    rw [heq] at hserving
    exact hserving
  | silenced τ htask => exact .inl (hupdate htask nofun)
  | served u before after hu =>
    have hborn : σ < s.next := hs.born σ (by rw [hleaving]; nofun)
    exact .inl ((Function.update_of_ne (Nat.ne_of_lt hborn) _ _).trans hleaving)
  | _ => exact .inl hleaving

/-- The step in which a loop ends leaves the map as it is. -/
theorem exited_step (hstep : Step host s s') : ∃ es, s'.log = s.log ++ es ∧
    ∀ σ exit, .exited σ exit ∈ es → s'.agents = s.agents ∧
      s'.task σ = if exit.early = true then .returned else .leaving := by
  have hnone : ∀ {agents : List (Int × Nat)} {task : Nat → Task}, ∃ es, s.log = s.log ++ es ∧
      ∀ σ exit, Entry.exited σ exit ∈ es → agents = s.agents ∧
        task σ = if exit.early = true then .returned else .leaving :=
    ⟨[], (List.append_nil _).symm, fun _ _ hin => absurd hin List.not_mem_nil⟩
  cases hstep with
  | begun e marked held hgate he => exact ⟨_, rfl, fun σ exit hin => by simp at hin⟩
  | installed σ hgate => exact ⟨_, rfl, fun τ exit hin => by simp at hin⟩
  | turned τ t db es hturn =>
    refine ⟨es, rfl, ?_⟩
    intro σ exit hin
    obtain ⟨rfl, ht⟩ := turn_exited hturn hin
    refine ⟨rfl, ?_⟩
    dsimp only
    rw [Function.update_self, ht]
  | released σ htask =>
    obtain ⟨agents, task, heq, -⟩ := released_frame s σ
    rw [heq]
    exact hnone
  | _ => exact hnone

/-- A session whose loop a `break` ended is on its way through `release`, or it
is out of the map. -/
theorem exited_gone (h : Reachable host s) {σ : Nat} {exit : Exit}
    (hexited : .exited σ exit ∈ s.log) (hsent : ¬ SendFailed exit) :
    s.task σ = .leaving ∨ Gone s σ := by
  induction h with
  | start db => cases hexited
  | step hr hstep ih =>
    have hs := reachable_sound hr
    obtain ⟨es, hlog, hnew⟩ := exited_step hstep
    rw [hlog, List.mem_append] at hexited
    rcases hexited with hold | hin
    · rcases ih hold with hleaving | hgone
      · exact leaving_step hs hstep hleaving
      · exact .inr (hgone.step hs hstep)
    · rw [(hnew σ exit hin).2, if_neg (fun hearly => hsent ((early_iff exit).mp hearly))]
      exact .inl rfl

/-- A task that has returned is not connected. -/
theorem not_connected_returned : ¬ Connected .returned := by
  rintro (h | h)
  · exact h
  · cases h

/-- Whoever is in the map is connected. -/
theorem online_of_connected (h : ∀ n σ, (n, σ) ∈ s.agents → Connected (s.task σ)) : Online s := by
  refine ⟨h, ?_⟩
  intro σ hreturned n hin
  have hconnected := h n σ hin
  rw [hreturned] at hconnected
  exact not_connected_returned hconnected

/-- A step keeps the map honest exactly when it is tidy. -/
theorem online_step (hs : Sound s) (h : Online s) (hstep : Step host s s') :
    Online s' ↔ Tidy s s' := by
  constructor
  · intro h' σ exit hlog hfailed n hin
    obtain ⟨es, hlog', hnew⟩ := exited_step hstep
    rw [hlog'] at hlog
    have hes := List.append_cancel_left hlog
    obtain ⟨hagents, htask⟩ := hnew σ exit (by rw [hes]; exact List.mem_cons_self)
    rw [if_pos ((early_iff exit).mpr hfailed)] at htask
    refine h'.2 σ htask n ?_
    rwa [hagents]
  · intro htidy
    refine online_of_connected ?_
    intro n σ hin'
    rcases agents_step hstep hin' with hin | ⟨-, -, -, hidle⟩
    · rcases h.1 n σ hin with hserving | hleaving
      · rcases serving_step hs hstep hserving with hsame | hconnected | ⟨exit, hfailed, hlog⟩
        · rw [hsame]
          exact .inl hserving
        · exact hconnected
        · exact absurd hin (htidy σ exit hlog hfailed n)
      · rcases leaving_step hs hstep hleaving with hleaving | hgone
        · exact .inr hleaving
        · exact absurd hin' (hgone.2.2 n)
    · rw [hidle]
      exact .inl trivial

/-- A session whose loop ended in any way but a failed send is, whatever else
happens, either about to be released or out of the map. As long as no loop ends
on a failed send with its session still in the map, every node in the map is
served and no task that returned has left its session behind; and the first
loop that does end so breaks it. -/
theorem online_means_connected :
    (∀ s, Reachable host s → ∀ σ exit, .exited σ exit ∈ s.log → ¬ SendFailed exit →
      s.task σ = .leaving ∨ ∀ n, (n, σ) ∉ s.agents) ∧
    ∀ s, TidyRun host s → Online s ∧ ∀ s', Step host s s' → (Online s' ↔ Tidy s s') := by
  constructor
  · intro s h σ exit hexited hsent
    exact (exited_gone h hexited hsent).imp_right fun hgone => hgone.2.2
  · intro s h
    have honline : Online s := by
      induction h with
      | start db =>
        refine online_of_connected ?_
        intro n σ hin
        cases hin
      | step hr hstep htidy ih =>
        exact (online_step (reachable_sound hr.reachable) ih hstep).mpr htidy
    exact ⟨honline, fun s' hstep => online_step (reachable_sound h.reachable) honline hstep⟩

/-- The connected agent is served; when it closes its socket the map is tidied. -/
theorem online_means_connected_once : ∃ s : State, s.agents = [(1, 0)] ∧ Online s ∧
    ∃ s' : State, s'.log = [.activated 0, .exited 0 .peerClosed] ∧ Online s' ∧
      (s'.task 0 = .leaving ∨ ∀ n, (n, 0) ∉ s'.agents) := by
  obtain ⟨s, hrun, -, hagents, -, hidle, -, hlog, -⟩ := agent_connects
  have hturn : Turn plainHost s 0 (s.task 0) .leaving s.db [.exited 0 .peerClosed] := by
    rw [hidle]
    exact .ended .peerClosed
  have htidy : Tidy s { s with
      db := s.db, task := Function.update s.task 0 .leaving
      log := s.log ++ [.exited 0 .peerClosed] } := by
    intro σ exit hgrown hfailed
    have hsame := List.append_cancel_left hgrown
    simp only [List.cons.injEq, Entry.exited.injEq, and_true] at hsame
    rw [← hsame.2] at hfailed
    rcases hfailed with hx | hx <;> cases hx
  have hclosed := hrun.step (.turned 0 _ _ _ hturn) htidy
  refine ⟨s, hagents, (online_means_connected.2 s hrun).1, _, ?_,
    (online_means_connected.2 _ hclosed).1,
    online_means_connected.1 _ hclosed.reachable 0 .peerClosed ?_ ?_⟩
  · rw [hlog]
    rfl
  · exact List.mem_append_right _ List.mem_cons_self
  · rintro (hx | hx) <;> cases hx

/-- It fails: a task can return past the cleanup and leave its node online. -/
theorem online_without_connection : ¬ ∀ host s, Reachable host s → ∀ σ,
    s.task σ = .returned → ∀ n, (n, σ) ∉ s.agents := by
  intro hclaim
  obtain ⟨s, hrun, -, hagents, -, hidle, -⟩ := agent_connects
  have hturn : Turn plainHost s 0 (s.task 0) .returned s.db [.exited 0 .heartbeatFailed] := by
    rw [hidle]
    exact .ended .heartbeatFailed
  have hreached := hrun.reachable.step (.turned 0 _ _ _ hturn)
  refine hclaim plainHost _ hreached 0 (Function.update_self 0 Task.returned s.task) 1 ?_
  rw [hagents]
  exact List.mem_cons_self

end Romi.SessionGuarantees
