import Romi.NodeCreation
import Romi.RegistrationKeys

/-!
# What a revoked registration key still creates

An opening or a closing replaces the key first and answers last. A request that
had read the old key may insert its node after that answer, and nothing looks at
the key again.
-/

namespace Romi.RevokedKeys

open CachedTransactions KeyedTable NodeCreation RegistrationKeys RegistrationSteps StoreAnswers
  StoreGuard StoreOperations StoreSchema

variable {host : Host} {s₀ s s' : State}

/-- After an opening or a closing has answered, no node is created for a request
that presented one of the keys it replaced. -/
def Obeyed : List Entry → Prop
  | [] => True
  | .created bearer :: earlier =>
    (∀ before, .revoked before ∈ earlier → ∀ key ∈ bearer, key ∉ before) ∧ Obeyed earlier
  | .revoked _ :: earlier => Obeyed earlier

/-- A node is created for a request that has read the key after every change
that has been answered. -/
def Timely (s s' : State) : Prop :=
  ∀ i a since key number, s.request i = .cleared a since key number →
    (∃ token, s'.request i = .answered (.token token)) →
      ∀ before, .revoked before ∈ s.log → before.length < number

/-- A run in which every step is timely. -/
inductive TimelyRun (host : Host) (s₀ : State) : State → Prop
  /-- No step. -/
  | refl : TimelyRun host s₀ s₀
  /-- A step in time. -/
  | step {s s' : State} (h : TimelyRun host s₀ s) (hstep : Step host s s') (htimely : Timely s s') :
    TimelyRun host s₀ s'

/-- A timely run is one of the hub. -/
theorem TimelyRun.run (h : TimelyRun host s₀ s) : Run host s₀ s := by
  induction h with
  | refl => exact .refl
  | step _ hstep _ ih => exact ih.step hstep

/-! ## One step -/

/-- A cleared request presents no replaced key exactly if it read its key late enough. -/
theorem unreplaced_iff (h : Keys s) {i : Nat} {a : Asking} {since : Int} {key : String}
    {number : Nat} (hat : s.request i = .cleared a since key number) :
    (∀ before, .revoked before ∈ s.log → ∀ k ∈ a.bearer, k ∉ before) ↔
      ∀ before, .revoked before ∈ s.log → before.length < number := by
  have hread : ReadAt s.written key number := by
    refine h.reads i key number ?_
    rw [hat]
    rfl
  obtain ⟨hne, hbearer⟩ := h.cleared i a since key number hat
  have hiff : ∀ before, .revoked before ∈ s.log → (key ∉ before ↔ before.length < number) := by
    intro before hin
    rw [mem_replaced_iff h.fresh hne hread (h.revoked before hin)]
    omega
  constructor
  · intro hnone before hin
    exact (hiff before hin).mp (hnone before hin key hbearer)
  · intro hlate before hin k hk
    -- the token it presented is the key it was checked against
    rw [hbearer] at hk
    cases hk
    exact (hiff before hin).mpr (hlate before hin)

/-- The only step of a cleared request that hands out a token records its bearer. -/
theorem created_log {i : Nat} (hstep : RequestStep host s i s') {a : Asking} {since : Int}
    {key : String} {number : Nat} (hat : s.request i = .cleared a since key number)
    (htoken : ∃ token, s'.request i = .answered (.token token)) :
    s'.log = .created a.bearer :: s.log := by
  obtain ⟨token, htoken⟩ := htoken
  cases hstep with
  | created _ _ _ _ _ _ _ hat' hran =>
    rw [hat] at hat'
    cases hat'
    rfl
  | refused _ _ _ _ _ e _ hat' hran =>
    change Function.update s.request i _ i = _ at htoken
    rw [Function.update_self] at htoken
    split at htoken <;> cases htoken
  | _ =>
    change Function.update s.request i _ i = _ at htoken
    rw [Function.update_self] at htoken
    cases htoken

/-- What a step adds to the record. -/
theorem log_step (hstep : Step host s s') :
    s'.log = s.log ∨ (∃ before, s'.log = .revoked before :: s.log) ∨
      ∃ i a since key number token, s.request i = .cleared a since key number ∧
        s'.request i = .answered (.token token) ∧ s'.log = .created a.bearer :: s.log := by
  cases hstep with
  | request i _ hrequest =>
    cases hrequest with
    | created a since key number token node db hat hran =>
      exact .inr (.inr ⟨i, a, since, key, number, token, hat, Function.update_self _ _ _, rfl⟩)
    | _ => exact .inl rfl
  | manager j _ hmanager =>
    cases hmanager with
    | answered before hat => exact .inr (.inl ⟨before, rfl⟩)
    | _ => exact .inl rfl
  | _ => exact .inl rfl

/-- A timely step obeys. -/
theorem obeyed_step (hkeys : Keys s) (h : Obeyed s.log) (hstep : Step host s s')
    (htimely : Timely s s') : Obeyed s'.log := by
  rcases log_step hstep with heq | ⟨before, heq⟩ | ⟨i, a, since, key, number, token, hat, hto, heq⟩
  · rw [heq]
    exact h
  · rw [heq]
    exact h
  · rw [heq]
    have hlate := htimely i a since key number hat ⟨token, hto⟩
    exact ⟨(unreplaced_iff hkeys hat).mpr hlate, h⟩

/-- Its log obeys the keys. -/
theorem TimelyRun.obeyed {db : Store} {now : Nat} (h : TimelyRun host (.start db now) s) :
    Obeyed s.log := by
  induction h with
  | refl => exact trivial
  | step hrun hstep htimely ih => exact obeyed_step (run_keys hrun.run) ih hstep htimely

/-! ## A request that is too slow -/

/-- A hub that keeps tokens as they are. -/
def tokenHost : Host := ⟨fun token => token, fun _ => none⟩

/-- A store without nodes whose window is open for the hour. -/
def windowStore : Store :=
  withSetting (withSetting { Store.blank with romiId := (Table.empty RomiIdRow.name).put ⟨"node", 1⟩ }
    "register_key" "first key") "register_until" "3600"

/-- Nobody creates a node in a step of a manager. -/
theorem timely_manager {j : Nat} (h : ManagerStep host s j s') : Timely s s' := by
  have hsame : s'.request = s.request := by cases h <;> rfl
  intro i a since key number hat hto
  obtain ⟨token, hto⟩ := hto
  rw [hsame, hat] at hto
  cases hto

/-- Nor in a step of a request that is not cleared. -/
theorem timely_request {i : Nat} {r : Request}
    (hat : ∀ a since key number, s.request i ≠ .cleared a since key number)
    (hmove : s'.request = Function.update s.request i r) : Timely s s' := by
  intro k a since key number hcleared hto
  obtain ⟨token, hto⟩ := hto
  have hne : k ≠ i := by
    intro heq
    rw [heq] at hcleared
    exact hat a since key number hcleared
  rw [hmove, Function.update_of_ne hne, hcleared] at hto
  cases hto

/-- A step of the panel is timely. -/
theorem TimelyRun.manages (h : TimelyRun host s₀ s) {j : Nat} (hstep : ManagerStep host s j s') :
    TimelyRun host s₀ s' := h.step (.manager j _ hstep) (timely_manager hstep)

/-- So is a step of a request that does not insert. -/
theorem TimelyRun.asks (h : TimelyRun host s₀ s) {i : Nat} {r : Request}
    (hstep : RequestStep host s i s')
    (hat : ∀ a since key number, s.request i ≠ .cleared a since key number)
    (hmove : s'.request = Function.update s.request i r) : TimelyRun host s₀ s' :=
  h.step (.request i _ hstep) (timely_request hat hmove)

/-- A request of an address with no failures reads an open window, presents the
key it reads and passes the checks. -/
theorem TimelyRun.clears (h : TimelyRun host s₀ s) {i : Nat} (hat : s.request i = .absent)
    {a : Asking} (hfree : s.throttle a.ip = none) {closes key : String}
    (hcloses : stored s.db "register_until" = some closes)
    (hkey : stored s.db "register_key" = some key)
    (hopen : open? (some key) (closesAt (some closes)) s.now = some key)
    (hright : a.bearer = some key) :
    TimelyRun host s₀ (s.requestTo i
      (.cleared a (closesAt (some closes) - registerWindow) key s.written.length)) := by
  have hlocked : s.throttle.locked a.ip s.now = (false, s.throttle) := by
    unfold SignInSteps.Throttle.locked
    rw [hfree]
  have h₁ : TimelyRun host s₀ (s.requestTo i (.arrived a)) :=
    h.asks (.arrived a hat) (by rw [hat]; exact nofun) rfl
  have h₂ : TimelyRun host s₀ (s.requestTo i (.halfRead a (closesAt (some closes)))) := by
    have hstep : RequestStep host (s.requestTo i (.arrived a)) i _ :=
      .halfRead a (some closes) (s.requestTo_self i (.arrived a)) (congrArg Prod.fst hlocked)
        (.inr hcloses.symm)
    have hnext := h₁.asks hstep (by rw [State.requestTo_self]; exact nofun) rfl
    rw [State.requestTo_requestTo] at hnext
    have hthrottle : ((s.requestTo i (.arrived a)).throttle.locked a.ip
        (s.requestTo i (.arrived a)).now).2 = s.throttle := congrArg Prod.snd hlocked
    rw [hthrottle] at hnext
    exact hnext
  have h₃ : TimelyRun host s₀ (s.requestTo i
      (.read a (closesAt (some closes)) (some key) s.written.length)) := by
    rw [← s.requestTo_requestTo i (.halfRead a (closesAt (some closes)))]
    exact h₂.asks (.read a _ (some key) (s.requestTo_self i _) (.inr hkey.symm))
      (by rw [State.requestTo_self]; exact nofun) rfl
  rw [← s.requestTo_requestTo i (.read a (closesAt (some closes)) (some key) s.written.length)]
  exact h₃.asks (.cleared a _ _ _ key (s.requestTo_self i _) hopen hright)
    (by rw [State.requestTo_self]; exact nofun) rfl

/-- The window is opened anew while a request that knew the old key still has to
insert its node. -/
theorem key_replaced : ∃ s : State, TimelyRun tokenHost (.start windowStore 0) s ∧
    s.log = [.revoked ["first key"]] ∧ s.opened = [0] ∧ s.grants = [] ∧ s.now = 0 ∧
    s.db.node = .empty _ ∧ s.db.traffic = .empty _ ∧
    s.db.romiId = (Table.empty RomiIdRow.name).put ⟨"node", 1⟩ ∧
    s.request 0 = .cleared ⟨some "first key", "n", "192.0.2.1"⟩ 0 "first key" 1 ∧
    s.request 1 = .absent ∧ s.throttle "192.0.2.2" = none ∧
    stored s.db "register_until" = some "3600" ∧ stored s.db "register_key" = some "second key" ∧
    s.written.length = 2 := by
  have huntil : stored windowStore "register_until" = some "3600" := stored_withSetting _ _ _
  have hkey : stored windowStore "register_key" = some "first key" := by
    rw [windowStore, stored_withSetting_of_ne _ _ (by decide), stored_withSetting]
  have hwritten : (stored windowStore "register_key").toList = ["first key"] := by
    rw [hkey]
    rfl
  have hnumber : ((State.start windowStore 0).written).length = 1 := by
    change (stored windowStore "register_key").toList.length = 1
    rw [hwritten]
    rfl
  -- a request reads the window and passes the checks
  have h₀ : TimelyRun tokenHost (.start windowStore 0) (.start windowStore 0) := .refl
  have h₁ := h₀.clears (i := 0) (a := ⟨some "first key", "n", "192.0.2.1"⟩) rfl rfl huntil hkey
    (by decide) rfl
  -- the window is opened anew
  have hfresh : "second key" ∉ (State.start windowStore 0).drawn := by
    change "second key" ∉ (stored windowStore "register_key").toList
    rw [hwritten]
    decide
  have h₂ := h₁.manages (.opening (j := 0) "second key" rfl (by decide) hfresh)
  have h₃ := h₂.manages (.counted (j := 0) _ _ rfl)
  have h₄ := h₃.manages (.keyed (j := 0) _ _ _ _ rfl (set_ran _ _ _ _))
  have h₅ := h₄.manages (.marked (j := 0) _ _ _ _ rfl (set_ran _ _ _ _))
  have h₆ := h₅.manages (.opened (j := 0) _ _ _ rfl (set_ran _ _ _ _))
  have h₇ := h₆.manages (.answered (j := 0) _ rfl)
  refine ⟨_, h₇, ?_, rfl, rfl, rfl, rfl, rfl, rfl, ?_, rfl, rfl, stored_withSetting _ _ _, ?_, ?_⟩
  · exact congrArg (fun before => [Entry.revoked before]) hwritten
  · exact congrArg (Request.cleared _ _ _) hnumber
  · refine (stored_withSetting_of_ne _ _ (by decide)).trans ?_
    exact (stored_withSetting_of_ne _ _ (by decide)).trans (stored_withSetting _ _ _)
  · exact congrArg (· + 1) hnumber

/-- A store that numbers its first node takes it. -/
theorem first_node {db : Store} (hnode : db.node = .empty _) (htraffic : db.traffic = .empty _)
    (hids : db.romiId = (Table.empty RomiIdRow.name).put ⟨"node", 1⟩) (now since : Int)
    (name token : String) : ∃ db', Ran tokenHost
      (.createNodeWithin now (registered name) token (some (since, registerLimit))) db
      (.ok (.id 1)) db' := by
  have hcounter : db.romiId.find? "node" = some ⟨"node", 1⟩ := by
    rw [hids]
    exact Table.find?_eq_some.mpr ⟨Table.mem_put.mpr (.inl rfl), rfl⟩
  have hcap : ((db.node.rows.filter fun r => r.createdAt ≥ since).card : Int) < registerLimit := by
    rw [hnode]
    change ((∅ : Finset NodeRow).filter _).card < (100 : Int)
    rw [Finset.filter_empty]
    decide
  have htoken : ¬ ∃ r ∈ db.node.rows, r.tokenHash = tokenHost.sha256 token := by
    rw [hnode]
    rintro ⟨r, hr, -⟩
    exact Finset.notMem_empty r hr
  have hfree : ¬ db.node.Has 1 := by
    rw [hnode]
    rintro ⟨r, hr, -⟩
    exact Finset.notMem_empty r hr
  have hfree' : ¬ db.traffic.Has 1 := by
    rw [htraffic]
    rintro ⟨r, hr, -⟩
    exact Finset.notMem_empty r hr
  exact createNodeWithin_ran tokenHost now (registered name) token hcounter hcap htoken hfree hfree'

/-- A cleared request inserts the first node. -/
theorem creates_first (hnode : s.db.node = .empty _) (htraffic : s.db.traffic = .empty _)
    (hids : s.db.romiId = (Table.empty RomiIdRow.name).put ⟨"node", 1⟩) {i : Nat} {a : Asking}
    {since : Int} {key : String} {number : Nat} (hat : s.request i = .cleared a since key number)
    (token : String) : ∃ s', RequestStep tokenHost s i s' ∧
      s'.request = Function.update s.request i (.answered (.token token)) ∧
      s'.log = .created a.bearer :: s.log ∧ s'.opened = s.opened ∧
      s'.grants = ⟨1, key, s.now, since⟩ :: s.grants := by
  obtain ⟨db, hran⟩ := first_node hnode htraffic hids s.now since (nodeName a.name) token
  exact ⟨_, .created a since key number token 1 db hat hran, rfl, rfl, rfl, rfl⟩

/-- The creation is timely if its request is not late. -/
theorem timely_created {i : Nat} {a : Asking} {since : Int} {key token : String} {number : Nat}
    (hat : s.request i = .cleared a since key number)
    (hmove : s'.request = Function.update s.request i (.answered (.token token)))
    (hlate : ∀ before, .revoked before ∈ s.log → before.length < number) : Timely s s' := by
  intro k _ _ _ _ hcleared hto
  by_cases hk : k = i
  · rw [hk, hat] at hcleared
    cases hcleared
    exact hlate
  · obtain ⟨token', hto⟩ := hto
    rw [hmove, Function.update_of_ne hk, hcleared] at hto
    cases hto

/-- The request inserts its node after all. -/
theorem replaced_key_used : ∃ s : State, Run tokenHost (.start windowStore 0) s ∧
    s.log = [.created (some "first key"), .revoked ["first key"]] ∧ s.opened = [0] ∧
    s.grants = [⟨1, "first key", 0, 0⟩] := by
  obtain ⟨s, hrun, hlog, hopened, hgrants, hnow, hnode, htraffic, hids, hat, -⟩ := key_replaced
  obtain ⟨s', hstep, -, hlog', hopened', hgrants'⟩ := creates_first hnode htraffic hids hat "late"
  refine ⟨s', hrun.run.step (.request 0 _ hstep), ?_, hopened'.trans hopened, ?_⟩
  · rw [hlog', hlog]
  · rw [hgrants', hgrants, hnow]
    rfl

/-- Another request presents the new key and gets its node. -/
theorem new_key_used : ∃ s : State, TimelyRun tokenHost (.start windowStore 0) s ∧
    s.log = [.created (some "second key"), .revoked ["first key"]] := by
  obtain ⟨s, hrun, hlog, -, -, hnow, hnode, htraffic, hids, -, habsent, hfree, huntil, hkey,
    hwritten⟩ := key_replaced
  have hopen : open? (some "second key") (closesAt (some "3600")) s.now = some "second key" := by
    rw [hnow]
    decide
  have hcleared := hrun.clears (i := 1) (a := ⟨some "second key", "m", "192.0.2.2"⟩) habsent hfree
    huntil hkey hopen rfl
  have hat := s.requestTo_self 1 (.cleared ⟨some "second key", "m", "192.0.2.2"⟩
    (closesAt (some "3600") - registerWindow) "second key" s.written.length)
  obtain ⟨s', hstep, hmove, hlog', -⟩ := creates_first (s := s.requestTo 1 _) hnode htraffic hids
    hat "fresh"
  refine ⟨s', hcleared.step (.request 1 _ hstep) (timely_created hat hmove ?_), ?_⟩
  · intro before hin
    change .revoked before ∈ s.log at hin
    rw [hlog] at hin
    cases List.mem_singleton.mp hin
    rw [hwritten]
    decide
  · rw [hlog']
    exact congrArg (List.cons _) hlog

/-- In a run in which nodes are created only for requests that have read the key
after every change answered so far, no node is created for a replaced key; and
from there the next creation keeps it so exactly when its request has. -/
theorem revoked_keys_create_nothing {db : Store} {now : Nat}
    (h : TimelyRun host (.start db now) s) :
    Obeyed s.log ∧ ∀ i a since key number s', s.request i = .cleared a since key number →
      RequestStep host s i s' → (∃ token, s'.request i = .answered (.token token)) →
      (Obeyed s'.log ↔ ∀ before, .revoked before ∈ s.log → before.length < number) := by
  have hobeyed := h.obeyed
  refine ⟨hobeyed, ?_⟩
  intro i a since key number s' hat hstep hto
  rw [created_log hstep hat hto, ← unreplaced_iff (run_keys h.run) hat]
  exact ⟨fun hall => hall.1, fun hnone => ⟨hnone, hobeyed⟩⟩

/-- The key was replaced, and a node created for the new one. -/
theorem revoked_keys_create_nothing_replaced : ∃ s : State,
    s.log = [.created (some "second key"), .revoked ["first key"]] ∧ Obeyed s.log := by
  obtain ⟨s, hrun, hlog⟩ := new_key_used
  exact ⟨s, hlog, (revoked_keys_create_nothing hrun).1⟩

/-- A node can be created for a key after the window was opened with another. -/
theorem replaced_key_creates_node : ∃ s : State, Run tokenHost (.start windowStore 0) s ∧
    ¬ Obeyed s.log := by
  obtain ⟨s, hrun, hlog, -⟩ := replaced_key_used
  refine ⟨s, hrun, ?_⟩
  rw [hlog]
  rintro ⟨hnone, -⟩
  exact hnone ["first key"] List.mem_cons_self "first key" rfl List.mem_cons_self

end Romi.RevokedKeys
