import Romi.AgentSessions

/-!
# A retired session stays silent

A session that left the map is either still waiting to be retired by whoever
took it out, or it cannot write any more: its flag is set and its task is not
past the check, or its task is over. A closure starts only when no session of
its scope is in the map or waits.
-/

namespace Romi.SessionRetirement

open AgentSessions CachedTransactions KeyedTable NodeContinuity StoreJobs StoreOperations
  StoreSchema

variable {host : Host} {s s' : State}

/-! ## What single steps can do -/

/-- The task serves frames. -/
def Serving : Task → Prop
  | .idle | .found _ | .holding _ | .writing _ | .looking => True
  | _ => False

/-- A task that is in the way serves. -/
theorem serving_of_holds {t : Task} (h : t.Holds) : Serving t := by
  cases t with
  | holding f => trivial
  | writing plan => trivial
  | _ => exact h.elim

/-- A turn begins and ends with a task that serves, unless it ends the loop; it
starts to write only when the flag is clear, and only a writing task writes. -/
theorem turn_spec {σ : Nat} {t t' : Task} {db : Store} {es : List Entry}
    (h : Turn host s σ t t' db es) :
    Serving t ∧ (Serving t' ∨ t' = .leaving ∨ t' = .returned) ∧
      (∀ plan, t' = .writing plan → s.retired σ = false ∨ ∃ plan', t = .writing plan') ∧
      (∀ x ∈ es, (x = .wrote σ ∧ ∃ plan, t = .writing plan) ∨ x = .country σ ∨
        ∃ exit, x = .exited σ exit) := by
  cases h with
  | received f =>
    refine ⟨trivial, .inl ?_, ?_, List.forall_mem_nil _⟩
    · split
      · trivial
      · trivial
    · intro plan hplan
      split at hplan <;> cases hplan
  | seized f hfree => exact ⟨trivial, .inl trivial, nofun, List.forall_mem_nil _⟩
  | examined f =>
    refine ⟨trivial, .inl ?_, ?_, List.forall_mem_nil _⟩
    · split
      · trivial
      · trivial
    · intro plan hplan
      split at hplan
      · cases hplan
      · rename_i hclear
        exact .inl (Bool.not_eq_true _ ▸ hclear)
  | succeeded op next session hdb p hok =>
    refine ⟨trivial, .inl trivial, fun _ _ => .inr ⟨_, rfl⟩, ?_⟩
    intro x hx
    rw [List.mem_singleton] at hx
    exact .inl ⟨hx, _, rfl⟩
  | failed op next session hdb e hfail =>
    refine ⟨trivial, .inl trivial, fun _ _ => .inr ⟨_, rfl⟩, ?_⟩
    intro x hx
    rw [List.mem_singleton] at hx
    exact .inl ⟨hx, _, rfl⟩
  | finished owed =>
    refine ⟨trivial, .inl ?_, ?_, List.forall_mem_nil _⟩
    · split
      · trivial
      · trivial
    · intro plan hplan
      exact .inr ⟨_, rfl⟩
  | panicked t hholds =>
    exact ⟨serving_of_holds hholds, .inl trivial, nofun, List.forall_mem_nil _⟩
  | located cc session hdb =>
    refine ⟨trivial, .inl trivial, nofun, ?_⟩
    intro x hx
    rw [List.mem_singleton] at hx
    exact .inr (.inl hx)
  | unlocated =>
    exact ⟨trivial, .inl trivial, nofun, List.forall_mem_nil _⟩
  | ended exit =>
    refine ⟨trivial, .inr ?_, ?_, ?_⟩
    · split
      · exact .inr rfl
      · exact .inl rfl
    · intro plan hplan
      split at hplan <;> cases hplan
    · intro x hx
      rw [List.mem_singleton] at hx
      exact .inr (.inr ⟨exit, hx⟩)

/-- A session of the map can be looked up, and nothing else can. -/
theorem lookup_mem {n : Int} {σ : Nat} (h : s.lookup n = some σ) : (n, σ) ∈ s.agents := by
  unfold State.lookup at h
  rw [Option.map_eq_some_iff] at h
  obtain ⟨e, he, rfl⟩ := h
  have hkey := List.find?_some he
  have hmem := List.mem_of_find?_eq_some he
  rw [← of_decide_eq_true hkey]
  exact hmem

/-- No frame of the session can write any more. -/
def Mute (s : State) (σ : Nat) : Prop :=
  (s.retired σ = true ∧ ∀ plan, s.task σ ≠ .writing plan) ∨ s.task σ = .removed ∨
    s.task σ = .returned

/-- The session left the map and is about to be retired. -/
def Pending (s : State) (σ : Nat) : Prop :=
  ∃ e todo marked held, s.gate = some ⟨e, .retiring todo marked held⟩ ∧ σ ∈ todo

/-- The holder of the gate has taken its sessions out of the map. -/
def Cleared : Phase → Prop
  | .retiring _ _ _ | .acting _ | .acted _ => True
  | _ => False

/-- What holds of every reachable state. -/
structure Sound (s : State) : Prop where
  /-- No node is in the map twice. -/
  keys : (s.agents.map Prod.fst).Nodup
  /-- Who is in the map was activated for that node. -/
  own : ∀ a ∈ s.agents, (s.info a.2).node = a.1 ∧ .activated a.2 ∈ s.log
  /-- A session that is there was numbered. -/
  born : ∀ σ, s.task σ ≠ .unborn → σ < s.next
  /-- One that was activated is past that. -/
  past : ∀ σ, .activated σ ∈ s.log → s.task σ ≠ .unborn ∧ s.task σ ≠ .activating
  /-- The errand to activate is that of a task that waits for it. -/
  entering : ∀ σ phase, s.gate = some ⟨.activate σ, phase⟩ → s.task σ = .activating
  /-- When the sessions in the way were cleared, none is left in the map. -/
  cleared : ∀ e phase, s.gate = some ⟨e, phase⟩ → Cleared phase →
    ∀ a ∈ s.agents, covers (s.scope e) a.1 = false
  /-- A session that was marked is retired. -/
  marked : ∀ e σ todo held, s.gate = some ⟨e, .retiring (σ :: todo) true held⟩ →
    s.retired σ = true
  /-- One that was activated is in the map, about to be marked, or mute. -/
  quiet : ∀ σ, .activated σ ∈ s.log → (∃ n, (n, σ) ∈ s.agents) ∨ Pending s σ ∨ Mute s σ
  /-- No session acts after the closure that sent it away. -/
  barrier : ∀ pre scope post, s.log = pre ++ .closure scope :: post → ∀ σ,
    .activated σ ∈ pre → covers scope (s.info σ).node = true → Mute s σ ∧ .wrote σ ∉ post

/-- What becomes of another task is nothing to a mute session. -/
theorem Mute.other {σ τ : Nat} {t : Task} (hm : Mute s σ) (hne : τ ≠ σ) :
    Mute { s with task := Function.update s.task τ t } σ := by
  unfold Mute
  dsimp only
  rw [Function.update_of_ne (Ne.symm hne)]
  exact hm

/-- Nor is a flag that is set. -/
theorem Mute.retire {σ : Nat} (hm : Mute s σ) (τ : Nat) : Mute (s.retire τ) σ := by
  rcases hm with ⟨hretired, hwriting⟩ | hover
  · refine .inl ⟨?_, hwriting⟩
    change Function.update s.retired τ true σ = true
    rw [Function.update_apply]
    split
    · rfl
    · exact hretired
  · exact .inr hover

/-- A turn of a session records writes of its own only. -/
theorem wrote_of_turn {σ τ : Nat} {t t' : Task} {db : Store} {es : List Entry}
    (hturn : Turn host s τ t t' db es) (hin : .wrote σ ∈ es) : σ = τ ∧ ∃ plan, t = .writing plan := by
  obtain ⟨-, -, -, hrecord⟩ := turn_spec hturn
  rcases hrecord _ hin with ⟨hx, hwriting⟩ | hx | ⟨exit, hx⟩
  · rw [Entry.wrote.injEq] at hx
    exact ⟨hx, hwriting⟩
  · cases hx
  · cases hx

/-- A turn of a mute session writes nothing, nor gets as far as to write. -/
theorem Mute.turn {σ : Nat} {t : Task} {db : Store} {es : List Entry} (hm : Mute s σ)
    (hturn : Turn host s σ (s.task σ) t db es) :
    Mute { s with task := Function.update s.task σ t } σ ∧ .wrote σ ∉ es := by
  obtain ⟨hserving, -, hstart, -⟩ := turn_spec hturn
  rcases hm with ⟨hretired, hwriting⟩ | hover | hover
  · refine ⟨.inl ⟨hretired, ?_⟩, ?_⟩
    · intro plan hplan
      dsimp only at hplan
      rw [Function.update_self] at hplan
      rcases hstart plan hplan with hclear | ⟨plan', hw⟩
      · rw [hretired] at hclear
        cases hclear
      · exact hwriting plan' hw
    · intro hin
      obtain ⟨-, plan, hw⟩ := wrote_of_turn hturn hin
      exact hwriting plan hw
  · rw [hover] at hserving
    exact hserving.elim
  · rw [hover] at hserving
    exact hserving.elim

/-- A session that goes is mute, and so is one that was, whichever goes. -/
theorem Mute.release {σ τ : Nat} (hm : Mute s σ) : Mute (s.released τ) σ := by
  rcases released_cases s τ with ⟨-, heq⟩ | ⟨-, heq⟩
  · rw [heq]
    by_cases hne : τ = σ
    · subst hne
      exact .inr (.inl (Function.update_self _ _ _))
    · exact hm.other hne
  · rw [heq]
    by_cases hne : τ = σ
    · subst hne
      exact .inr (.inr (Function.update_self _ _ _))
    · exact hm.other hne

/-- A session that is mute stays mute, and no write of it is recorded. -/
theorem Mute.step {σ : Nat} (hm : Mute s σ) (h : Sound s) (hact : .activated σ ∈ s.log)
    (hstep : Step host s s') : Mute s' σ ∧ ∃ es, s'.log = s.log ++ es ∧ .wrote σ ∉ es := by
  obtain ⟨hborn, hpast⟩ := h.past σ hact
  have hlt := h.born σ hborn
  -- a session that was activated does not enter a second time
  have hentering : ∀ {τ : Nat} {phase : Phase}, s.gate = some ⟨.activate τ, phase⟩ → τ ≠ σ := by
    rintro τ phase hgate rfl
    exact hpast (h.entering τ phase hgate)
  have hsame : ∃ es, s.log = s.log ++ es ∧ Entry.wrote σ ∉ es :=
    ⟨[], (List.append_nil _).symm, List.not_mem_nil⟩
  cases hstep with
  | upgraded u htoken => exact ⟨hm, hsame⟩
  | served u before after hu => exact ⟨hm.other (Nat.ne_of_gt hlt), hsame⟩
  | entered e hgate hactive => exact ⟨hm, hsame⟩
  | admitted τ hgate htoken => exact ⟨hm, hsame⟩
  | refused τ hgate => exact ⟨hm.other (hentering hgate), hsame⟩
  | took e phase hgate hready => exact ⟨hm, hsame⟩
  | marked e τ todo held hgate => exact ⟨hm.retire τ, hsame⟩
  | locked e τ todo held hgate hfree => exact ⟨hm, hsame⟩
  | begun e marked held hgate he => exact ⟨hm, [.closure (s.scope e)], rfl, by simp⟩
  | acted n op held session hgate hdb => exact ⟨hm, hsame⟩
  | restored held db hgate => exact ⟨hm, hsame⟩
  | left e held hgate => exact ⟨hm, hsame⟩
  | unlocked τ marked held hgate => exact ⟨hm, hsame⟩
  | installed τ hgate => exact ⟨hm.other (hentering hgate), [.activated τ], rfl, by simp⟩
  | turned τ t db es hturn =>
    by_cases hne : τ = σ
    · subst hne
      obtain ⟨hmute, hwrote⟩ := hm.turn hturn
      exact ⟨hmute, es, rfl, hwrote⟩
    · exact ⟨hm.other hne, es, rfl, fun hin => hne (wrote_of_turn hturn hin).1.symm⟩
  | released τ htask =>
    refine ⟨hm.release, ?_⟩
    rcases released_cases s τ with ⟨-, heq⟩ | ⟨-, heq⟩ <;> (rw [heq]; exact hsame)
  | silenced τ htask =>
    refine ⟨?_, hsame⟩
    by_cases hne : τ = σ
    · subst hne
      exact .inr (.inr (Function.update_self _ _ _))
    · exact (hm.retire τ).other hne
  | wrote op hop session hdb => exact ⟨hm, hsame⟩

/-! ## The map -/

/-- Who is left in the map. -/
theorem mem_without {n : Int} {agents : List (Int × Nat)} {a : Int × Nat} :
    a ∈ without n agents ↔ a ∈ agents ∧ a.1 ≠ n := by
  unfold without
  rw [List.mem_filter, decide_eq_true_iff]

/-- No node is there twice among fewer. -/
theorem keys_filter {agents : List (Int × Nat)} (p : Int × Nat → Bool)
    (h : (agents.map Prod.fst).Nodup) : ((agents.filter p).map Prod.fst).Nodup :=
  h.sublist (List.filter_sublist.map Prod.fst)

/-- The map keeps one session for each node. -/
theorem keys_step (h : Sound s) (hstep : Step host s s') : (s'.agents.map Prod.fst).Nodup := by
  cases hstep with
  | took e phase hgate hready => exact keys_filter _ h.keys
  | installed σ hgate =>
    refine List.nodup_cons.mpr ⟨?_, keys_filter _ h.keys⟩
    intro hin
    obtain ⟨a, ha, hkey⟩ := List.mem_map.mp hin
    exact (mem_without.mp ha).2 hkey
  | released σ htask =>
    rcases released_cases s σ with ⟨-, heq⟩ | ⟨-, heq⟩
    · rw [heq]
      exact keys_filter _ h.keys
    · rw [heq]
      exact h.keys
  | _ => exact h.keys

/-- What a step adds to the record. -/
theorem log_step (hstep : Step host s s') : ∃ es, s'.log = s.log ++ es ∧
    ((∀ c, .closure c ∉ es) ∨ ∃ e marked held, s.gate = some ⟨e, .retiring [] marked held⟩ ∧
      es = [.closure (s.scope e)]) ∧
    ∀ σ, .activated σ ∈ es → s'.task σ = .idle ∧ ∃ n, (n, σ) ∈ s'.agents := by
  have hnone : ∀ {agents : List (Int × Nat)} {task : Nat → Task}, ∃ es, s.log = s.log ++ es ∧
      ((∀ c, Entry.closure c ∉ es) ∨ ∃ e marked held,
        s.gate = some ⟨e, .retiring [] marked held⟩ ∧ es = [Entry.closure (s.scope e)]) ∧
      ∀ σ, Entry.activated σ ∈ es → task σ = .idle ∧ ∃ n, (n, σ) ∈ agents :=
    ⟨[], (List.append_nil _).symm, .inl fun _ => List.not_mem_nil,
      fun _ hin => absurd hin List.not_mem_nil⟩
  cases hstep with
  | begun e marked held hgate he =>
    exact ⟨_, rfl, .inr ⟨e, marked, held, hgate, rfl⟩, fun σ hin => by simp at hin⟩
  | installed σ hgate =>
    refine ⟨_, rfl, .inl fun c hin => by simp at hin, ?_⟩
    intro τ hin
    rw [List.mem_singleton, Entry.activated.injEq] at hin
    rw [hin]
    exact ⟨Function.update_self _ _ _, _, List.mem_cons_self⟩
  | turned σ t db es hturn =>
    obtain ⟨-, -, -, hrecord⟩ := turn_spec hturn
    refine ⟨es, rfl, .inl ?_, ?_⟩
    · intro c hin
      rcases hrecord _ hin with ⟨hx, -⟩ | hx | ⟨exit, hx⟩ <;> cases hx
    · intro τ hin
      rcases hrecord _ hin with ⟨hx, -⟩ | hx | ⟨exit, hx⟩ <;> cases hx
  | released σ htask =>
    obtain ⟨agents, task, heq, -⟩ := released_frame s σ
    rw [heq]
    exact hnone
  | _ => exact hnone

/-- What has happened has happened. -/
theorem log_mono {x : Entry} (hstep : Step host s s') (h : x ∈ s.log) : x ∈ s'.log := by
  obtain ⟨es, hlog, -⟩ := log_step hstep
  rw [hlog]
  exact List.mem_append_left _ h

/-- The owner of a session that was born does not change. -/
theorem info_step {σ : Nat} (hlt : σ < s.next) (hstep : Step host s s') :
    s'.info σ = s.info σ := by
  cases hstep with
  | served u before after hu => exact Function.update_of_ne (Nat.ne_of_lt hlt) _ _
  | released τ htask =>
    obtain ⟨agents, task, heq, -⟩ := released_frame s τ
    rw [heq]
  | _ => rfl

/-- A session that was activated was born. -/
theorem Sound.activated_lt (h : Sound s) {σ : Nat} (hact : .activated σ ∈ s.log) : σ < s.next :=
  h.born σ (h.past σ hact).1

/-- A session on its way in has its number. -/
theorem Sound.entering_lt (h : Sound s) {σ : Nat} {phase : Phase}
    (hgate : s.gate = some ⟨.activate σ, phase⟩) : σ < s.next := by
  refine h.born σ ?_
  rw [h.entering σ phase hgate]
  nofun

/-- Every session of the map is there under its own node and was activated. -/
theorem own_step (h : Sound s) (hstep : Step host s s') :
    ∀ a ∈ s'.agents, (s'.info a.2).node = a.1 ∧ .activated a.2 ∈ s'.log := by
  have hkept : ∀ a ∈ s.agents, (s'.info a.2).node = a.1 ∧ .activated a.2 ∈ s'.log := by
    intro a ha
    obtain ⟨hnode, hact⟩ := h.own a ha
    rw [info_step (h.activated_lt hact) hstep]
    exact ⟨hnode, log_mono hstep hact⟩
  cases hstep with
  | took e phase hgate hready =>
    intro a ha
    exact hkept a (List.mem_filter.mp ha).1
  | installed σ hgate =>
    intro a ha
    rcases List.mem_cons.mp ha with rfl | ha
    · exact ⟨rfl, List.mem_append_right _ List.mem_cons_self⟩
    · exact hkept a (mem_without.mp ha).1
  | released σ htask =>
    obtain ⟨agents, task, heq, hsub⟩ := released_frame s σ
    rw [heq] at hkept ⊢
    exact fun a ha => hkept a (hsub a ha)
  | _ => exact hkept

/-! ## Tasks -/

/-- Only the number drawn next makes a task start to exist, and a task leaves
`activate` only when the gate is let go. -/
theorem task_step (h : Sound s) (hstep : Step host s s') (σ : Nat) :
    s'.task σ = s.task σ ∨ (σ = s.next ∧ s'.next = s.next + 1 ∧ s'.task σ = .activating) ∨
      ((s.task σ = .activating ∧ s'.gate = none ∨ Serving (s.task σ) ∨
        s.task σ = .leaving ∨ s.task σ = .removed) ∧
          s'.task σ ≠ .unborn ∧ s'.task σ ≠ .activating) := by
  have hupdate : ∀ {τ : Nat} {t : Task}, τ ≠ σ → Function.update s.task τ t σ = s.task σ :=
    fun hne => Function.update_of_ne (Ne.symm hne) _ _
  cases hstep with
  | served u before after hu =>
    by_cases hne : s.next = σ
    · exact .inr (.inl ⟨hne.symm, rfl, by dsimp only; rw [hne, Function.update_self]⟩)
    · exact .inl (hupdate hne)
  | refused τ hgate =>
    by_cases hne : τ = σ
    · subst hne
      refine .inr (.inr ⟨.inl ⟨h.entering τ _ hgate, rfl⟩, ?_⟩)
      dsimp only
      rw [Function.update_self]
      exact ⟨nofun, nofun⟩
    · exact .inl (hupdate hne)
  | installed τ hgate =>
    by_cases hne : τ = σ
    · subst hne
      refine .inr (.inr ⟨.inl ⟨h.entering τ _ hgate, rfl⟩, ?_⟩)
      dsimp only
      rw [Function.update_self]
      exact ⟨nofun, nofun⟩
    · exact .inl (hupdate hne)
  | turned τ t db es hturn =>
    obtain ⟨hserving, hend, -, -⟩ := turn_spec hturn
    by_cases hne : τ = σ
    · subst hne
      refine .inr (.inr ⟨.inr (.inl hserving), ?_⟩)
      dsimp only
      rw [Function.update_self]
      rcases hend with ht | rfl | rfl
      · constructor
        · rintro rfl
          exact ht
        · rintro rfl
          exact ht
      · exact ⟨nofun, nofun⟩
      · exact ⟨nofun, nofun⟩
    · exact .inl (hupdate hne)
  | released τ htask =>
    by_cases hne : τ = σ
    · subst hne
      refine .inr (.inr ⟨.inr (.inr (.inl htask)), ?_⟩)
      rcases released_cases s τ with ⟨-, heq⟩ | ⟨-, heq⟩
      · rw [heq]
        dsimp only
        rw [Function.update_self]
        exact ⟨nofun, nofun⟩
      · rw [heq]
        dsimp only
        rw [Function.update_self]
        exact ⟨nofun, nofun⟩
    · refine .inl ?_
      rcases released_cases s τ with ⟨-, heq⟩ | ⟨-, heq⟩
      · rw [heq]
        exact hupdate hne
      · rw [heq]
        exact hupdate hne
  | silenced τ htask =>
    by_cases hne : τ = σ
    · subst hne
      refine .inr (.inr ⟨.inr (.inr (.inr htask)), ?_⟩)
      dsimp only [State.retire]
      rw [Function.update_self]
      exact ⟨nofun, nofun⟩
    · exact .inl (hupdate hne)
  | _ => exact .inl rfl

/-- Sessions are numbered upwards. -/
theorem next_step (hstep : Step host s s') : s.next ≤ s'.next := by
  cases hstep with
  | served u before after hu => exact Nat.le_succ _
  | released τ htask =>
    obtain ⟨agents, task, heq, -⟩ := released_frame s τ
    rw [heq]
  | _ => exact le_refl _

/-- A session that is there was numbered. -/
theorem born_step (h : Sound s) (hstep : Step host s s') :
    ∀ σ, s'.task σ ≠ .unborn → σ < s'.next := by
  intro σ hborn
  have hnext := next_step hstep
  rcases task_step h hstep σ with hsame | ⟨rfl, hgrown, -⟩ | ⟨hold, -⟩
  · rw [hsame] at hborn
    exact lt_of_lt_of_le (h.born σ hborn) hnext
  · omega
  · have hold' : s.task σ ≠ .unborn := by
      intro heq
      rw [heq] at hold
      rcases hold with ⟨hx, -⟩ | hx | hx | hx
      · cases hx
      · exact hx
      · cases hx
      · cases hx
    exact lt_of_lt_of_le (h.born σ hold') hnext

/-- One that was activated is past that. -/
theorem past_step (h : Sound s) (hstep : Step host s s') :
    ∀ σ, .activated σ ∈ s'.log → s'.task σ ≠ .unborn ∧ s'.task σ ≠ .activating := by
  intro σ hact
  obtain ⟨es, hlog, -, hnew⟩ := log_step hstep
  rw [hlog, List.mem_append] at hact
  rcases hact with hact | hact
  · obtain ⟨hborn, hpast⟩ := h.past σ hact
    rcases task_step h hstep σ with hsame | ⟨rfl, -, -⟩ | ⟨-, hends⟩
    · rw [hsame]
      exact ⟨hborn, hpast⟩
    · exact absurd (h.activated_lt hact) (lt_irrefl _)
    · exact hends
  · rw [(hnew σ hact).1]
    exact ⟨nofun, nofun⟩

/-! ## The gate -/

/-- A session on its way in is still in `activate`. -/
theorem entering_step (h : Sound s) (hstep : Step host s s') :
    ∀ σ phase, s'.gate = some ⟨.activate σ, phase⟩ → s'.task σ = .activating := by
  intro σ phase hgate'
  -- unless it has just come, the same session held the gate before
  have hbefore : s.task σ = .activating := by
    cases hstep with
    | entered e hgate hactive =>
      cases hgate'
      exact hactive σ rfl
    | admitted τ hgate htoken =>
      cases hgate'
      exact h.entering _ _ hgate
    | took e ph hgate hready =>
      cases hgate'
      exact h.entering _ _ hgate
    | marked e τ todo held hgate =>
      cases hgate'
      exact h.entering _ _ hgate
    | locked e τ todo held hgate hfree =>
      cases hgate'
      exact h.entering _ _ hgate
    | begun e marked held hgate he =>
      cases hgate'
      exact absurd rfl (he σ)
    | unlocked τ marked held hgate =>
      cases hgate'
      exact h.entering _ _ hgate
    | released τ htask =>
      obtain ⟨agents, task, heq, -⟩ := released_frame s τ
      rw [heq] at hgate'
      exact h.entering _ _ hgate'
    | acted n op held session hgate hdb => cases hgate'
    | restored held db hgate => cases hgate'
    | refused τ hgate => cases hgate'
    | left e held hgate => cases hgate'
    | installed τ hgate => cases hgate'
    | _ => exact h.entering _ _ hgate'
  rcases task_step h hstep σ with hsame | ⟨-, -, hnew⟩ | ⟨hold, -⟩
  · rw [hsame]
    exact hbefore
  · exact hnew
  · rw [hbefore] at hold
    rcases hold with ⟨-, hnone⟩ | hx | hx | hx
    · rw [hnone] at hgate'
      cases hgate'
    · exact hx.elim
    · cases hx
    · cases hx

/-- The scope of an errand that holds the gate does not change. -/
theorem scope_step (h : Sound s) (hstep : Step host s s') {e : Errand} {phase : Phase}
    (hgate : s.gate = some ⟨e, phase⟩) : s'.scope e = s.scope e := by
  cases e with
  | activate σ =>
    have hborn : σ < s.next := h.born σ (by rw [h.entering σ phase hgate]; nofun)
    exact congrArg (fun u : Upgrade => some u.node) (info_step hborn hstep)
  | node n op => rfl
  | all => rfl

/-- A session is within its own errand. -/
theorem covers_self (s : State) (σ : Nat) : covers (s.scope (.activate σ)) (s.info σ).node = true :=
  decide_eq_true rfl

/-- While sessions are being retired none of the scope is in the map. -/
theorem cleared_step (h : Sound s) (hstep : Step host s s') :
    ∀ e phase, s'.gate = some ⟨e, phase⟩ → Cleared phase →
      ∀ a ∈ s'.agents, covers (s'.scope e) a.1 = false := by
  intro e phase hgate' hcleared
  -- the holder was there before, with at least as many sessions in the map
  have hkept : ∀ ph, s.gate = some ⟨e, ph⟩ → Cleared ph → (∀ a ∈ s'.agents, a ∈ s.agents) →
      ∀ a ∈ s'.agents, covers (s'.scope e) a.1 = false := by
    intro ph hgate hph hsub a ha
    rw [scope_step h hstep hgate]
    exact h.cleared e ph hgate hph a (hsub a ha)
  cases hstep with
  | entered e' hgate hactive =>
    cases hgate'
    exact hcleared.elim
  | admitted τ hgate htoken =>
    cases hgate'
    exact hcleared.elim
  | took e' ph hgate hready =>
    cases hgate'
    intro a ha
    exact of_decide_eq_true (List.mem_filter.mp ha).2
  | marked e' τ todo held hgate =>
    cases hgate'
    exact hkept _ hgate trivial fun _ ha => ha
  | locked e' τ todo held hgate hfree =>
    cases hgate'
    exact hkept _ hgate trivial fun _ ha => ha
  | begun e' marked held hgate he =>
    cases hgate'
    exact hkept _ hgate trivial fun _ ha => ha
  | acted n op held session hgate hdb =>
    cases hgate'
    exact hkept _ hgate trivial fun _ ha => ha
  | restored held db hgate =>
    cases hgate'
    exact hkept _ hgate trivial fun _ ha => ha
  | unlocked τ marked held hgate =>
    cases hgate'
    exact hkept _ hgate trivial fun _ ha => ha
  | released τ htask =>
    obtain ⟨agents, task, heq, hsub⟩ := released_frame s τ
    rw [heq] at hgate' hkept ⊢
    exact hkept _ hgate' hcleared hsub
  | refused τ hgate => cases hgate'
  | left e' held hgate => cases hgate'
  | installed τ hgate => cases hgate'
  | _ => exact hkept _ hgate' hcleared fun _ ha => ha

/-- A session that is waited for has been marked. -/
theorem marked_step (h : Sound s) (hstep : Step host s s') :
    ∀ e σ todo held, s'.gate = some ⟨e, .retiring (σ :: todo) true held⟩ →
      s'.retired σ = true := by
  intro e σ todo held hgate'
  cases hstep with
  | entered e' hgate hactive => cases hgate'
  | admitted τ hgate htoken => cases hgate'
  | took e' ph hgate hready =>
    simp only [Option.some.injEq, Gate.mk.injEq, Phase.retiring.injEq, Bool.false_eq_true,
      false_and, and_false] at hgate'
  | marked e' τ todo' held' hgate =>
    cases hgate'
    exact Function.update_self _ _ _
  | locked e' τ todo' held' hgate hfree => cases hgate'
  | begun e' marked held' hgate he => cases hgate'
  | acted n op held' session hgate hdb => cases hgate'
  | restored held' db hgate => cases hgate'
  | unlocked τ marked held' hgate => cases hgate'
  | refused τ hgate => cases hgate'
  | left e' held' hgate => cases hgate'
  | installed τ hgate => cases hgate'
  | released τ htask =>
    obtain ⟨agents, task, heq, -⟩ := released_frame s τ
    rw [heq] at hgate' ⊢
    exact h.marked e σ todo held hgate'
  | silenced τ htask =>
    change Function.update s.retired τ true σ = true
    rw [Function.update_apply]
    split
    · rfl
    · exact h.marked e σ todo held hgate'
  | _ => exact h.marked e σ todo held hgate'

/-! ## Nobody slips through -/

/-- The node has only one session in the map. -/
theorem Sound.unique (h : Sound s) {a b : Int × Nat} (ha : a ∈ s.agents) (hb : b ∈ s.agents)
    (hkey : a.1 = b.1) : a = b := List.inj_on_of_nodup_map h.keys ha hb hkey

/-- A session in the map stays there, is taken out to be retired, or has left
by itself. -/
theorem mapped_step (h : Sound s) {n : Int} {σ : Nat} (hin : (n, σ) ∈ s.agents)
    (hstep : Step host s s') : (∃ n, (n, σ) ∈ s'.agents) ∨ Pending s' σ ∨ Mute s' σ := by
  have hnode : (s.info σ).node = n := (h.own _ hin).1
  cases hstep with
  | took e phase hgate hready =>
    cases hcovers : covers (s.scope e) n with
    | false => exact .inl ⟨n, List.mem_filter.mpr ⟨hin, decide_eq_true hcovers⟩⟩
    | true =>
      refine .inr (.inl ⟨e, _, _, _, rfl, List.mem_map.mpr ⟨(n, σ), ?_, rfl⟩⟩)
      exact List.mem_filter.mpr ⟨hin, decide_eq_true hcovers⟩
  | installed τ hgate =>
    refine .inl ⟨n, List.mem_cons_of_mem _ (mem_without.mpr ⟨hin, ?_⟩)⟩
    have hfree := h.cleared _ _ hgate trivial _ hin
    intro heq
    have hself := covers_self s τ
    rw [show (s.info τ).node = n from heq.symm, hfree] at hself
    cases hself
  | released τ htask =>
    rcases released_cases s τ with ⟨hlookup, heq⟩ | ⟨-, heq⟩
    · rw [heq]
      by_cases hown : n = (s.info τ).node
      · have hsame := h.unique hin (lookup_mem hlookup) hown
        rw [Prod.mk.injEq] at hsame
        rw [hsame.2]
        exact .inr (.inr (.inr (.inl (Function.update_self _ _ _))))
      · exact .inl ⟨n, mem_without.mpr ⟨hin, hown⟩⟩
    · rw [heq]
      exact .inl ⟨n, hin⟩
  | _ => exact .inl ⟨n, hin⟩

/-- Who waits to be retired is retired. -/
theorem pending_step (h : Sound s) {σ : Nat} (hp : Pending s σ) (hstep : Step host s s') :
    Pending s' σ ∨ Mute s' σ := by
  obtain ⟨e, todo, mark, held, hgate, hin⟩ := hp
  cases hstep with
  | entered e' hnone hactive =>
    rw [hnone] at hgate
    cases hgate
  | admitted τ hgate' htoken =>
    rw [hgate'] at hgate
    cases hgate
  | refused τ hgate' =>
    rw [hgate'] at hgate
    cases hgate
  | took e' phase hgate' hready =>
    rw [hgate'] at hgate
    cases hgate
    cases e <;> exact hready.elim
  | marked e' τ todo' held' hgate' =>
    rw [hgate'] at hgate
    cases hgate
    exact .inl ⟨e, _, _, _, rfl, hin⟩
  | locked e' τ todo' held' hgate' hfree =>
    rw [hgate'] at hgate
    cases hgate
    rcases List.mem_cons.mp hin with rfl | hin
    · -- its flag is set and nobody holds its lock
      refine .inr (.inl ⟨h.marked _ _ _ _ hgate', ?_⟩)
      intro plan hplan
      exact hfree (by rw [show s.task σ = .writing plan from hplan]; trivial)
    · exact .inl ⟨e, _, _, _, rfl, hin⟩
  | begun e' marked held' hgate' he =>
    rw [hgate'] at hgate
    cases hgate
    exact absurd hin List.not_mem_nil
  | acted n op held' session hgate' hdb =>
    rw [hgate'] at hgate
    cases hgate
  | restored held' db hgate' =>
    rw [hgate'] at hgate
    cases hgate
  | left e' held' hgate' =>
    rw [hgate'] at hgate
    cases hgate
  | unlocked τ marked held' hgate' =>
    rw [hgate'] at hgate
    cases hgate
    exact absurd hin List.not_mem_nil
  | installed τ hgate' =>
    rw [hgate'] at hgate
    cases hgate
  | released τ htask =>
    obtain ⟨agents, task, heq, -⟩ := released_frame s τ
    rw [heq]
    exact .inl ⟨e, todo, mark, held, hgate, hin⟩
  | _ => exact .inl ⟨e, todo, mark, held, hgate, hin⟩

/-- Every session that was activated is in the map, or waits, or is mute. -/
theorem quiet_step (h : Sound s) (hstep : Step host s s') : ∀ σ, .activated σ ∈ s'.log →
    (∃ n, (n, σ) ∈ s'.agents) ∨ Pending s' σ ∨ Mute s' σ := by
  intro σ hact
  obtain ⟨es, hlog, -, hnew⟩ := log_step hstep
  rw [hlog, List.mem_append] at hact
  rcases hact with hold | hact
  · rcases h.quiet σ hold with ⟨n, hin⟩ | hp | hm
    · exact mapped_step h hin hstep
    · exact .inr (pending_step h hp hstep)
    · exact .inr (.inr (hm.step h hold hstep).1)
  · exact .inl (hnew σ hact).2

/-- An entry of a longer log that is not new is of the old one. -/
theorem split_append {log es pre post : List Entry} {c : Entry}
    (h : log ++ es = pre ++ c :: post) (hc : c ∉ es) :
    ∃ post', post = post' ++ es ∧ log = pre ++ c :: post' := by
  rcases List.append_eq_append_iff.mp h with ⟨rest, hpre, hes⟩ | ⟨rest, hlog, hrest⟩
  · rw [hes] at hc
    exact absurd (List.mem_append_right _ List.mem_cons_self) hc
  · cases rest with
    | nil =>
      rw [List.nil_append] at hrest
      rw [← hrest] at hc
      exact absurd List.mem_cons_self hc
    | cons x rest =>
      rw [List.cons_append, List.cons.injEq] at hrest
      refine ⟨rest, hrest.2, ?_⟩
      rw [hlog, hrest.1]

/-- Sessions from before a closure are mute from its start on. -/
theorem barrier_step (h : Sound s) (hstep : Step host s s') :
    ∀ pre scope post, s'.log = pre ++ .closure scope :: post → ∀ σ, .activated σ ∈ pre →
      covers scope (s'.info σ).node = true → Mute s' σ ∧ .wrote σ ∉ post := by
  intro pre scope post hsplit σ hact hcovers
  obtain ⟨es, hlog, hclosure, -⟩ := log_step hstep
  have hold : ∀ post', s.log = pre ++ .closure scope :: post' → post = post' ++ es →
      Mute s' σ ∧ .wrote σ ∉ post := by
    intro post' hlog' hpost
    have hact' : .activated σ ∈ s.log := by
      rw [hlog']
      exact List.mem_append_left _ hact
    rw [info_step (h.activated_lt hact') hstep] at hcovers
    obtain ⟨hm, hsilent⟩ := h.barrier pre scope post' hlog' σ hact hcovers
    obtain ⟨hm', es', hes', hno⟩ := hm.step h hact' hstep
    rw [hlog, List.append_cancel_left_eq] at hes'
    rw [hpost, List.mem_append, not_or, hes']
    exact ⟨hm', hsilent, hno⟩
  rw [hlog] at hsplit
  rcases hclosure with hnone | ⟨e, marked, held, hgate, rfl⟩
  · obtain ⟨post', hpost, hlog'⟩ := split_append hsplit (hnone scope)
    exact hold post' hlog' hpost
  · rcases List.eq_nil_or_concat post with rfl | ⟨post', x, rfl⟩
    · -- this closure starts now: the map holds none of its scope and nobody waits
      obtain ⟨hpre, hx⟩ := List.append_inj' hsplit rfl
      rw [List.cons.injEq, Entry.closure.injEq] at hx
      rw [← hpre] at hact
      refine ⟨?_, List.not_mem_nil⟩
      have hborn := h.activated_lt hact
      rw [info_step hborn hstep, ← hx.1] at hcovers
      rcases h.quiet σ hact with ⟨n, hin⟩ | ⟨e', todo, mark, held', hgate', hin⟩ | hm
      · have hfree := h.cleared e _ hgate trivial _ hin
        rw [(h.own _ hin).1, hfree] at hcovers
        cases hcovers
      · rw [hgate] at hgate'
        cases hgate'
        exact absurd hin List.not_mem_nil
      · exact (hm.step h hact hstep).1
    · rw [List.concat_eq_append, ← List.cons_append, ← List.append_assoc] at hsplit
      obtain ⟨hpre, hx⟩ := List.append_inj' hsplit rfl
      refine hold post' hpre ?_
      rw [List.concat_eq_append, hx]

/-- Every step keeps the map sound. -/
theorem Sound.step (h : Sound s) (hstep : Step host s s') : Sound s' :=
  ⟨keys_step h hstep, own_step h hstep, born_step h hstep, past_step h hstep,
    entering_step h hstep, cleared_step h hstep, marked_step h hstep, quiet_step h hstep,
    barrier_step h hstep⟩

/-- It is so at the beginning. -/
theorem sound_start (db : Store) : Sound (.start db) := by
  refine ⟨List.nodup_nil, List.forall_mem_nil _, ?_, ?_, ?_, ?_, ?_, ?_, ?_⟩
  · intro σ hborn
    exact absurd rfl hborn
  · intro σ hact
    cases hact
  · intro σ phase hgate
    cases hgate
  · intro e phase hgate
    cases hgate
  · intro e σ todo held hgate
    cases hgate
  · intro σ hact
    cases hact
  · intro pre scope post hlog
    rw [State.start] at hlog
    simp at hlog

/-- So it is in every reachable state. -/
theorem reachable_sound (h : Reachable host s) : Sound s := by
  induction h with
  | start db => exact sound_start db
  | step _ hstep ih => exact ih.step hstep

end Romi.SessionRetirement
