import Romi.ProbePushes

/-!
# Whether the last list an agent receives is the current one

Every list on its way was read after its session had been put in the map, and
as long as there have been edits since then, one of their handlers either has
put a list of now on the queue or still will. What reaches the agent last is
then the list of now, provided the queue holds the lists in the order in which
they were read.
-/

namespace Romi.ProbeConvergence

open CachedTransactions KeyedTable ProbePushes StoreAnswers StoreAreas StoreGuard StoreJobs
  StoreOperations StoreSchema

variable {host : Host} {s s' : State}

/-! ## What is on its way -/

/-- The list a handler has read, and for which session. -/
def message : Handler → Option (Nat × Message)
  | .loaded a m _ => some (a.2, m)
  | _ => none

/-- The sessions a handler has yet to read a list for. -/
def todo : Handler → List (Int × Nat)
  | .pushing rest | .loaded _ _ rest => rest
  | _ => []

/-- The handler will still put a list of now on the queue of this session. -/
def Owes (version : Nat) (a : Int × Nat) : Handler → Prop
  | .written => True
  | .pushing rest => a ∈ rest
  | .loaded b m rest => (b = a ∧ m.version = version) ∨ a ∈ rest
  | _ => False

/-- A list was given to a session, or is about to be. -/
def Carries (s : State) (σ : Nat) (m : Message) : Prop :=
  m ∈ (s.box σ).handed ∨ (s.box σ).greeting = some m ∨ s.phase σ = .greeting m ∨
    ∃ j, message (s.handler j) = some (σ, m)

/-- It was read while the session was in the map, and shows what there was. -/
structure Current (s : State) (σ : Nat) (m : Message) : Prop where
  /-- The session is there. -/
  known : σ < s.next
  /-- It was in the map when the list was read. -/
  born : s.born σ ≤ m.version
  /-- The list is not of later than now. -/
  past : m.version ≤ s.version
  /-- Where no edit was committed since, it shows what there is. -/
  tasks : m.version = s.version → m.read = true → m.tasks = pingTasksFor s.db (s.node σ)

/-- A list of now is on the queue, or is still owed. -/
def Due (s : State) (a : Int × Nat) : Prop :=
  (∃ m ∈ (s.box a.2).handed, m.version = s.version) ∨ ∃ j, Owes s.version a (s.handler j)

/-- Everything on its way is in order. -/
structure Carried (s : State) : Prop where
  /-- Who is in the map is a session of that node. -/
  mapped : ∀ a ∈ s.agents, a.2 < s.next ∧ s.node a.2 = a.1
  /-- So is who a handler has yet to read a list for. -/
  listed : ∀ j, ∀ a ∈ todo (s.handler j), a.2 < s.next ∧ s.node a.2 = a.1
  /-- Every session came before now. -/
  born : ∀ σ, σ < s.next → s.born σ ≤ s.version
  /-- Every list was read while its session was in the map. -/
  current : ∀ σ m, Carries s σ m → Current s σ m
  /-- A session that is not there has no task. -/
  unborn : ∀ σ, s.next ≤ σ → s.phase σ = .unborn
  /-- A session in its loop has had a first list. -/
  greeted : ∀ σ, s.phase σ = .looping → (s.box σ).greeting ≠ none
  /-- A session that came before the last edit is due a list of now. -/
  due : ∀ a ∈ s.agents, s.phase a.2 ≠ .closed → s.born a.2 < s.version → Due s a

/-- Nothing is on its way. -/
theorem carried_start (db : Store) : Carried (.start db) := by
  refine ⟨nofun, nofun, nofun, ?_, fun _ _ => rfl, nofun, nofun⟩
  rintro σ m (hin | hin | hin | ⟨j, hin⟩)
  · cases hin
  · cases hin
  · cases hin
  · cases hin

/-! ## One handler goes on -/

/-- A list a handler carries afterwards it has carried before, or it is the new one. -/
theorem carries_handlerTo {j : Nat} {x : Handler} {σ : Nat} {m : Message}
    (h : Carries (s.handlerTo j x) σ m) : Carries s σ m ∨ message x = some (σ, m) := by
  rcases h with hin | hin | hin | ⟨i, hin⟩
  · exact .inl (.inl hin)
  · exact .inl (.inr (.inl hin))
  · exact .inl (.inr (.inr (.inl hin)))
  · change message (Function.update s.handler j x i) = _ at hin
    by_cases hi : i = j
    · rw [hi, Function.update_self] at hin
      exact .inr hin
    · rw [Function.update_of_ne hi] at hin
      exact .inl (.inr (.inr (.inr ⟨i, hin⟩)))

/-- Who is yet to be read for is a session of that node. -/
theorem todo_handlerTo (h : Carried s) {j : Nat} {x : Handler}
    (hx : ∀ a ∈ todo x, a.2 < s.next ∧ s.node a.2 = a.1) (i : Nat) :
    ∀ a ∈ todo (Function.update s.handler j x i), a.2 < s.next ∧ s.node a.2 = a.1 := by
  by_cases hi : i = j
  · rw [hi, Function.update_self]
    exact hx
  · rw [Function.update_of_ne hi]
    exact h.listed i

/-- What the others owe stays owed. -/
theorem owes_handlerTo {a : Int × Nat} {j : Nat} {x : Handler}
    (h : ∃ i, Owes s.version a (s.handler i))
    (hx : Owes s.version a (s.handler j) → Owes s.version a x) :
    ∃ i, Owes s.version a (Function.update s.handler j x i) := by
  obtain ⟨i, howes⟩ := h
  by_cases hi : i = j
  · rw [hi] at howes
    refine ⟨j, ?_⟩
    rw [Function.update_self]
    exact hx howes
  · refine ⟨i, ?_⟩
    rw [Function.update_of_ne hi]
    exact howes

/-- A handler goes on without giving anything out. -/
theorem Carried.handlerTo (h : Carried s) {j : Nat} {x : Handler}
    (hmessage : ∀ σ m, message x = some (σ, m) → Current s σ m)
    (htodo : ∀ a ∈ todo x, a.2 < s.next ∧ s.node a.2 = a.1)
    (howes : ∀ a ∈ s.agents, s.phase a.2 ≠ .closed → Owes s.version a (s.handler j) →
      Owes s.version a x) : Carried (s.handlerTo j x) := by
  refine ⟨h.mapped, todo_handlerTo h htodo, h.born, ?_, h.unborn, h.greeted, ?_⟩
  · intro σ m hcarries
    rcases carries_handlerTo hcarries with hold | hnew
    · exact ⟨(h.current σ m hold).known, (h.current σ m hold).born, (h.current σ m hold).past,
        (h.current σ m hold).tasks⟩
    · have hcurrent := hmessage σ m hnew
      exact ⟨hcurrent.known, hcurrent.born, hcurrent.past, hcurrent.tasks⟩
  · intro a ha hopen hborn
    rcases h.due a ha hopen hborn with hhanded | hothers
    · exact .inl hhanded
    · exact .inr (owes_handlerTo hothers (howes a ha hopen))

/-- Another store with the same lists. -/
theorem Carried.relisted (h : Carried s) {db : Store}
    (hlists : ∀ n, pingTasksFor db n = pingTasksFor s.db n) : Carried { s with db := db } := by
  refine ⟨h.mapped, h.listed, h.born, ?_, h.unborn, h.greeted, h.due⟩
  intro σ m hcarries
  have hcurrent := h.current σ m hcarries
  refine ⟨hcurrent.known, hcurrent.born, hcurrent.past, ?_⟩
  intro hversion hread
  rw [hcurrent.tasks hversion hread]
  exact (hlists _).symm

/-- An edit that was rejected changes nothing. -/
theorem edit_rejected {e : Edit} {db db' : Store} {failure : Failure}
    (h : Ran host e.solo db (.error failure) db') : db' = db := by
  cases e with
  | save t => exact ran_commitThen_refused (p := .id) rfl h
  | delete id => exact ran_commitThen_refused (p := fun _ => .nothing) rfl h

/-- An edit is committed: no list is of now any more, and its handler owes one to everybody. -/
theorem Carried.commit (h : Carried s) (j : Nat) (db : Store) :
    Carried { s.handlerTo j .written with db := db, version := s.version + 1 } := by
  refine ⟨h.mapped, todo_handlerTo h nofun, ?_, ?_, h.unborn, h.greeted, ?_⟩
  · intro σ hσ
    exact (h.born σ hσ).trans (Nat.le_succ _)
  · intro σ m hcarries
    have hsame : Carries (s.handlerTo j .written) σ m := hcarries
    rcases carries_handlerTo hsame with hold | hnew
    · have hcurrent := h.current σ m hold
      have hpast := hcurrent.past
      refine ⟨hcurrent.known, hcurrent.born, hpast.trans (Nat.le_succ _), ?_⟩
      intro hversion
      change m.version = s.version + 1 at hversion
      omega
    · cases hnew
  · intro a _ _ _
    refine .inr ⟨j, ?_⟩
    change Owes _ a (Function.update s.handler j .written j)
    rw [Function.update_self]
    exact trivial

/-- One more list on a queue: every box keeps what it had, and only that one has more. -/
theorem box_handed (s : State) (σ τ : Nat) (m : Message) :
    ∃ more, Function.update s.box σ { s.box σ with handed := m :: (s.box σ).handed } τ =
        { s.box τ with handed := more } ∧ (∀ x ∈ (s.box τ).handed, x ∈ more) ∧
      ∀ x ∈ more, x ∈ (s.box τ).handed ∨ (τ = σ ∧ x = m) := by
  by_cases hτ : τ = σ
  · rw [hτ, Function.update_self]
    refine ⟨_, rfl, fun x hx => List.mem_cons_of_mem _ hx, ?_⟩
    intro x hx
    rcases List.mem_cons.mp hx with rfl | hx
    · exact .inr ⟨rfl, rfl⟩
    · exact .inl hx
  · rw [Function.update_of_ne hτ]
    exact ⟨_, rfl, fun _ hx => hx, fun _ hx => .inl hx⟩

section
variable {j : Nat} {a : Int × Nat} {m : Message} {rest : List (Int × Nat)}

/-- A list that was read is put on the queue: it was carried before by its handler. -/
theorem carries_handed (hat : s.handler j = .loaded a m rest) {σ : Nat} {x : Message}
    (hcarries : Carries ((s.handlerTo j (.pushing rest)).boxTo a.2
      { s.box a.2 with handed := m :: (s.box a.2).handed }) σ x) : Carries s σ x := by
  obtain ⟨more, hbox, -, hmore⟩ := box_handed s a.2 σ m
  rcases hcarries with hin | hin | hin | ⟨i, hin⟩
  · change x ∈ (Function.update s.box a.2 _ σ).handed at hin
    rw [hbox] at hin
    rcases hmore x hin with hx | ⟨rfl, rfl⟩
    · exact .inl hx
    · refine .inr (.inr (.inr ⟨j, ?_⟩))
      rw [hat]
      rfl
  · change (Function.update s.box a.2 _ σ).greeting = some x at hin
    rw [hbox] at hin
    exact .inr (.inl hin)
  · exact .inr (.inr (.inl hin))
  · rcases carries_handlerTo (s := s) (j := j) (x := .pushing rest)
      (.inr (.inr (.inr ⟨i, hin⟩))) with hold | hnew
    · exact hold
    · cases hnew

/-- What was on a queue stays there, and what the handler owed this session is on it now. -/
theorem due_handed (hat : s.handler j = .loaded a m rest) {b : Int × Nat} (h : Due s b) :
    Due ((s.handlerTo j (.pushing rest)).boxTo a.2
      { s.box a.2 with handed := m :: (s.box a.2).handed }) b := by
  obtain ⟨more, hbox, hkept, -⟩ := box_handed s a.2 b.2 m
  rcases h with ⟨x, hx, hversion⟩ | hothers
  · refine .inl ⟨x, ?_, hversion⟩
    change x ∈ (Function.update s.box a.2 _ b.2).handed
    rw [hbox]
    exact hkept x hx
  · by_cases hmine : a = b ∧ m.version = s.version
    · refine .inl ⟨m, ?_, hmine.2⟩
      change m ∈ (Function.update s.box a.2 _ b.2).handed
      rw [← hmine.1, Function.update_self]
      exact List.mem_cons_self
    · refine .inr (owes_handlerTo hothers ?_)
      intro howes
      rw [hat] at howes
      rcases howes with hsame | hin
      · exact absurd hsame hmine
      · exact hin

/-- A list is put on a queue. -/
theorem Carried.hand (h : Carried s) (hat : s.handler j = .loaded a m rest) :
    Carried ((s.handlerTo j (.pushing rest)).boxTo a.2
      { s.box a.2 with handed := m :: (s.box a.2).handed }) := by
  have hlisted := h.listed j
  rw [hat] at hlisted
  refine ⟨h.mapped, todo_handlerTo h hlisted, h.born, ?_, h.unborn, ?_, ?_⟩
  · intro σ x hcarries
    have hcurrent := h.current σ x (carries_handed hat hcarries)
    exact ⟨hcurrent.known, hcurrent.born, hcurrent.past, hcurrent.tasks⟩
  · intro σ hσ
    obtain ⟨more, hbox, -⟩ := box_handed s a.2 σ m
    change (Function.update s.box a.2 _ σ).greeting ≠ none
    rw [hbox]
    exact h.greeted σ hσ
  · intro b hb hopen hborn
    exact due_handed hat (h.due b hb hopen hborn)

end

/-- A handler reads the list for a session: it is one of now. -/
theorem Carried.load (h : Carried s) {j : Nat} {a : Int × Nat} {rest : List (Int × Nat)} (ok : Bool)
    (hat : s.handler j = .pushing (a :: rest)) :
    Carried (s.handlerTo j (.loaded a (pingTasksMessage s.db a.1 s.version ok) rest)) := by
  have hlisted := h.listed j
  rw [hat] at hlisted
  have hhead := hlisted a List.mem_cons_self
  refine h.handlerTo ?_ (fun b hb => hlisted b (List.mem_cons_of_mem _ hb)) ?_
  · intro σ m hnew
    cases hnew
    refine ⟨hhead.1, h.born _ hhead.1, le_refl _, ?_⟩
    intro _ hread
    change (if ok = true then _ else _) = _
    have hok : ok = true := hread
    rw [if_pos hok, hhead.2]
  · intro b _ _ howes
    rw [hat] at howes
    rcases List.mem_cons.mp howes with rfl | hb
    · exact .inl ⟨rfl, rfl⟩
    · exact .inr hb

/-- Every move of a handler keeps what is on its way in order. -/
theorem Carried.handlerStep (h : Carried s) {j : Nat} (hstep : HandlerStep host s j s') :
    Carried s' := by
  cases hstep with
  | writing e hat =>
    refine h.handlerTo nofun nofun ?_
    intro a _ _ howes
    rw [hat] at howes
    exact howes.elim
  | committed e answer db hat hran => exact h.commit j db
  | rejected e failure db hat hran =>
    rw [edit_rejected hran]
    refine h.handlerTo nofun nofun ?_
    intro a _ _ howes
    rw [hat] at howes
    exact howes.elim
  | listed todo hat htodo =>
    refine h.handlerTo nofun (fun a ha => h.mapped a (htodo.mem_iff.mp ha)) ?_
    intro a ha _ _
    exact htodo.mem_iff.mpr ha
  | loaded a rest ok hat => exact h.load ok hat
  | handed a m rest hat hopen hroom => exact h.hand hat
  | missed a m rest hat hclosed =>
    have hlisted := h.listed j
    rw [hat] at hlisted
    refine h.handlerTo nofun hlisted ?_
    intro b _ hopen howes
    rw [hat] at howes
    rcases howes with ⟨rfl, -⟩ | hin
    · exact absurd hclosed hopen
    · exact hin
  | finished hat =>
    refine h.handlerTo nofun nofun ?_
    intro a _ _ howes
    rw [hat] at howes
    cases howes

/-! ## One session goes on -/

/-- The task of a session goes on with lists it had. -/
theorem Carried.phaseTo (h : Carried s) {σ : Nat} {x : Phase} (hσ : s.phase σ ≠ .unborn)
    (hmessage : ∀ m, x = .greeting m → Current s σ m)
    (hgreeted : x = .looping → (s.box σ).greeting ≠ none)
    (hclosed : s.phase σ = .closed → x = .closed) : Carried (s.phaseTo σ x) := by
  have hborn : σ < s.next := by
    by_contra hnot
    exact hσ (h.unborn σ (by omega))
  refine ⟨h.mapped, h.listed, h.born, ?_, ?_, ?_, ?_⟩
  · intro τ m hcarries
    have hcurrent : Current s τ m := by
      rcases hcarries with hin | hin | hin | hin
      · exact h.current τ m (.inl hin)
      · exact h.current τ m (.inr (.inl hin))
      · change Function.update s.phase σ x τ = _ at hin
        by_cases hτ : τ = σ
        · rw [hτ, Function.update_self] at hin
          rw [hτ]
          exact hmessage m hin
        · rw [Function.update_of_ne hτ] at hin
          exact h.current τ m (.inr (.inr (.inl hin)))
      · exact h.current τ m (.inr (.inr (.inr hin)))
    exact ⟨hcurrent.known, hcurrent.born, hcurrent.past, hcurrent.tasks⟩
  · intro τ hτ
    change Function.update s.phase σ x τ = _
    have hne : τ ≠ σ := by
      rintro rfl
      exact absurd hborn (not_lt.mpr hτ)
    rw [Function.update_of_ne hne]
    exact h.unborn τ hτ
  · intro τ hlooping
    change Function.update s.phase σ x τ = _ at hlooping
    by_cases hτ : τ = σ
    · rw [hτ, Function.update_self] at hlooping
      rw [hτ]
      exact hgreeted hlooping
    · rw [Function.update_of_ne hτ] at hlooping
      exact h.greeted τ hlooping
  · intro a ha hopen hlate
    refine h.due a ha ?_ hlate
    intro hold
    refine hopen ?_
    change Function.update s.phase σ x a.2 = _
    by_cases hτ : a.2 = σ
    · rw [hτ, Function.update_self]
      rw [hτ] at hold
      exact hclosed hold
    · rw [Function.update_of_ne hτ]
      exact hold

/-- What a session was given is only rearranged. -/
theorem Carried.boxTo (h : Carried s) {σ : Nat} {b : Outbox}
    (hhanded : b.handed = (s.box σ).handed)
    (hgreeting : b.greeting = (s.box σ).greeting ∨
      ∃ m, b.greeting = some m ∧ Current s σ m) : Carried (s.boxTo σ b) := by
  have hbox : ∀ τ, (Function.update s.box σ b τ).handed = (s.box τ).handed := by
    intro τ
    by_cases hτ : τ = σ
    · rw [hτ, Function.update_self, hhanded]
    · rw [Function.update_of_ne hτ]
  refine ⟨h.mapped, h.listed, h.born, ?_, h.unborn, ?_, ?_⟩
  · intro τ m hcarries
    have hcurrent : Current s τ m := by
      rcases hcarries with hin | hin | hin | hin
      · change m ∈ (Function.update s.box σ b τ).handed at hin
        rw [hbox] at hin
        exact h.current τ m (.inl hin)
      · change (Function.update s.box σ b τ).greeting = _ at hin
        by_cases hτ : τ = σ
        · rw [hτ, Function.update_self] at hin
          rw [hτ]
          rcases hgreeting with hsame | ⟨m', hm', hcurrent⟩
          · rw [hsame] at hin
            exact h.current σ m (.inr (.inl hin))
          · rw [hm', Option.some.injEq] at hin
            rwa [← hin]
        · rw [Function.update_of_ne hτ] at hin
          exact h.current τ m (.inr (.inl hin))
      · exact h.current τ m (.inr (.inr (.inl hin)))
      · exact h.current τ m (.inr (.inr (.inr hin)))
    exact ⟨hcurrent.known, hcurrent.born, hcurrent.past, hcurrent.tasks⟩
  · intro τ hlooping
    change (Function.update s.box σ b τ).greeting ≠ none
    by_cases hτ : τ = σ
    · rw [hτ, Function.update_self]
      rw [hτ] at hlooping
      rcases hgreeting with hsame | ⟨m, hm, -⟩
      · rw [hsame]
        exact h.greeted σ hlooping
      · rw [hm]
        nofun
    · rw [Function.update_of_ne hτ]
      exact h.greeted τ hlooping
  · intro a ha hopen hlate
    rcases h.due a ha hopen hlate with ⟨m, hm, hversion⟩ | hothers
    · refine .inl ⟨m, ?_, hversion⟩
      change m ∈ (Function.update s.box σ b a.2).handed
      rwa [hbox]
    · exact .inr hothers

/-- Every move of a session keeps what is on its way in order. -/
theorem Carried.sessionStep (h : Carried s) {σ : Nat} (hstep : SessionStep s σ s') :
    Carried s' := by
  have hborn : s.phase σ ≠ .unborn → σ < s.next := by
    intro hne
    by_contra hnot
    exact hne (h.unborn σ (by omega))
  cases hstep with
  | greeting ok hat =>
    have hne : s.phase σ ≠ .unborn := by
      rw [hat]
      nofun
    refine h.phaseTo hne ?_ nofun ?_
    · intro m hm
      cases hm
      refine ⟨hborn hne, h.born σ (hborn hne), le_refl _, ?_⟩
      intro _ hread
      have hok : ok = true := hread
      exact if_pos hok
    · rw [hat]
      nofun
  | looping m hat =>
    have hne : s.phase σ ≠ .unborn := by
      rw [hat]
      nofun
    have hcurrent := h.current σ m (.inr (.inr (.inl hat)))
    have hbox : Carried (s.boxTo σ { s.box σ with greeting := some m }) :=
      h.boxTo rfl (.inr ⟨m, rfl, hcurrent⟩)
    refine hbox.phaseTo hne nofun ?_ ?_
    · intro _
      change (Function.update s.box σ _ σ).greeting ≠ none
      rw [Function.update_self]
      nofun
    · intro hclosed
      change s.phase σ = .closed at hclosed
      rw [hat] at hclosed
      cases hclosed
  | sent hat hmore => exact h.boxTo rfl (.inl rfl)
  | closed hat => exact h.phaseTo hat nofun nofun fun _ => rfl

/-! ## Every step -/

/-- Who is left in the map was there. -/
theorem mem_without {n : Int} {agents : List (Int × Nat)} {a : Int × Nat}
    (h : a ∈ without n agents) : a ∈ agents := (List.mem_filter.mp h).1

/-- `activate`: a session that is new to everybody. -/
def installing (s : State) (n : Int) : State :=
  { s with
    agents := (n, s.next) :: without n s.agents
    next := s.next + 1
    node := Function.update s.node s.next n
    phase := Function.update s.phase s.next .activated
    box := Function.update s.box s.next ⟨none, [], 0⟩
    born := Function.update s.born s.next s.version }

section
variable {n : Int}

/-- The others are whose they were. -/
theorem installing_node (σ : Nat) (hσ : σ < s.next) :
    (installing s n).node σ = s.node σ := Function.update_of_ne hσ.ne _ _

/-- And came when they came. -/
theorem installing_born (σ : Nat) (hσ : σ < s.next) :
    (installing s n).born σ = s.born σ := Function.update_of_ne hσ.ne _ _

/-- Nothing is on its way to the new session. -/
theorem carries_installing {σ : Nat} {m : Message} (h : Carries (installing s n) σ m) :
    Carries s σ m := by
  by_cases hσ : σ = s.next
  · rcases h with hin | hin | hin | hin
    · change m ∈ (Function.update s.box s.next _ σ).handed at hin
      rw [hσ, Function.update_self] at hin
      cases hin
    · change (Function.update s.box s.next _ σ).greeting = _ at hin
      rw [hσ, Function.update_self] at hin
      cases hin
    · change Function.update s.phase s.next _ σ = _ at hin
      rw [hσ, Function.update_self] at hin
      cases hin
    · exact .inr (.inr (.inr hin))
  · rcases h with hin | hin | hin | hin
    · change m ∈ (Function.update s.box s.next _ σ).handed at hin
      rw [Function.update_of_ne hσ] at hin
      exact .inl hin
    · change (Function.update s.box s.next _ σ).greeting = _ at hin
      rw [Function.update_of_ne hσ] at hin
      exact .inr (.inl hin)
    · change Function.update s.phase s.next _ σ = _ at hin
      rw [Function.update_of_ne hσ] at hin
      exact .inr (.inr (.inl hin))
    · exact .inr (.inr (.inr hin))

/-- The others are due what they were due. -/
theorem due_installing {a : Int × Nat} (hne : a.2 ≠ s.next) (h : Due s a) :
    Due (installing s n) a := by
  rcases h with ⟨m, hm, hversion⟩ | hothers
  · refine .inl ⟨m, ?_, hversion⟩
    change m ∈ (Function.update s.box s.next _ a.2).handed
    rwa [Function.update_of_ne hne]
  · exact .inr hothers

/-- A session comes that nothing is due to yet. -/
theorem Carried.install (h : Carried s) (n : Int) : Carried (installing s n) := by
  refine ⟨?_, ?_, ?_, ?_, ?_, ?_, ?_⟩
  · intro a ha
    rcases List.mem_cons.mp ha with rfl | ha
    · exact ⟨Nat.lt_succ_self _, Function.update_self _ _ _⟩
    · obtain ⟨hlt, hsame⟩ := h.mapped a (mem_without ha)
      exact ⟨hlt.trans (Nat.lt_succ_self _), (installing_node _ hlt).trans hsame⟩
  · intro j a ha
    obtain ⟨hlt, hsame⟩ := h.listed j a ha
    exact ⟨hlt.trans (Nat.lt_succ_self _), (installing_node _ hlt).trans hsame⟩
  · intro σ hσ
    rcases Nat.lt_succ_iff_lt_or_eq.mp hσ with hlt | rfl
    · rw [installing_born σ hlt]
      exact h.born σ hlt
    · exact (Function.update_self _ _ _).le
  · intro σ m hcarries
    have hcurrent := h.current σ m (carries_installing hcarries)
    refine ⟨hcurrent.known.trans (Nat.lt_succ_self _), ?_, hcurrent.past, ?_⟩
    · exact (installing_born σ hcurrent.known).le.trans hcurrent.born
    · intro hversion hread
      rw [hcurrent.tasks hversion hread, installing_node σ hcurrent.known]
      rfl
  · intro σ hσ
    have hlater : s.next < σ := hσ
    exact (Function.update_of_ne hlater.ne' _ _).trans (h.unborn σ hlater.le)
  · intro σ hlooping
    change Function.update s.phase s.next _ σ = _ at hlooping
    have hσ : σ ≠ s.next := by
      rintro rfl
      rw [Function.update_self] at hlooping
      cases hlooping
    change (Function.update s.box s.next _ σ).greeting ≠ none
    rw [Function.update_of_ne hσ] at hlooping ⊢
    exact h.greeted σ hlooping
  · intro a ha hopen hlate
    rcases List.mem_cons.mp ha with rfl | ha
    · change Function.update s.born s.next s.version s.next < s.version at hlate
      rw [Function.update_self] at hlate
      exact absurd hlate (lt_irrefl _)
    · have ha := mem_without ha
      have hlt := (h.mapped a ha).1
      refine due_installing hlt.ne (h.due a ha ?_ ?_)
      · intro hclosed
        exact hopen ((Function.update_of_ne hlt.ne _ _).trans hclosed)
      · exact lt_of_eq_of_lt (installing_born _ hlt).symm hlate

/-- A node that leaves the map is due nothing. -/
theorem Carried.leave (h : Carried s) (n : Int) :
    Carried { s with agents := without n s.agents } := by
  refine ⟨fun a ha => h.mapped a (mem_without ha), h.listed, h.born, ?_, h.unborn, h.greeted,
    fun a ha => h.due a (mem_without ha)⟩
  intro σ m hcarries
  have hcurrent := h.current σ m hcarries
  exact ⟨hcurrent.known, hcurrent.born, hcurrent.past, hcurrent.tasks⟩

end

/-- Every step keeps what is on its way in order. -/
theorem Carried.step (h : Carried s) (hstep : Step host s s') : Carried s' := by
  cases hstep with
  | handler j _ hhandler => exact h.handlerStep hhandler
  | session σ _ hsession => exact h.sessionStep hsession
  | installed n => exact h.install n
  | left n => exact h.leave n
  | wrote op hop answer db hran =>
    exact h.relisted (pingTasksFor_congr (ran_within hran) hop)
  | reported op session hdb =>
    have hwithin := telemetry_within host session.db op session (.refl _ _)
    rw [hdb] at hwithin
    exact h.relisted (pingTasksFor_congr hwithin nofun)

/-- So it is in every reachable state. -/
theorem reachable_carried (h : Reachable host s) : Carried s := by
  induction h with
  | start db => exact carried_start db
  | step _ hstep ih => exact ih.step hstep

/-! ## Runs in which the queues keep the order of the reads -/

/-- A list that is put on a queue was read, and no earlier than those there; so
was a list a session is going to begin with. -/
def Orderly (s s' : State) : Prop :=
  (∀ j a m rest, s.handler j = .loaded a m rest → s'.handler j = .pushing rest →
    s.phase a.2 ≠ .closed → m.read = true ∧ ∀ m' ∈ (s.box a.2).handed, m'.version ≤ m.version) ∧
  ∀ σ m, s.phase σ ≠ .greeting m → s'.phase σ = .greeting m → m.read = true

/-- A run in which every step is orderly. -/
inductive OrderlyRun (host : Host) : State → Prop
  /-- A hub that has just started. -/
  | start (db : Store) : OrderlyRun host (.start db)
  /-- One orderly step more. -/
  | step {s s' : State} (h : OrderlyRun host s) (hstep : Step host s s') (horderly : Orderly s s') :
    OrderlyRun host s'

/-- An orderly run is a run. -/
theorem OrderlyRun.reachable (h : OrderlyRun host s) : Reachable host s := by
  induction h with
  | start db => exact .start db
  | step _ hstep _ ih => exact ih.step hstep

/-- The newest list on a queue is the latest, and every list was read. -/
structure InOrder (s : State) : Prop where
  /-- The newer a list on a queue, the later it was read. -/
  sorted : ∀ σ, (s.box σ).handed.Pairwise fun newer older => older.version ≤ newer.version
  /-- Every list on a queue was read. -/
  read : ∀ σ, ∀ m ∈ (s.box σ).handed, m.read = true
  /-- So was every first one. -/
  greeting : ∀ σ m, (s.box σ).greeting = some m → m.read = true
  /-- And every one about to be sent first. -/
  phase : ∀ σ m, s.phase σ = .greeting m → m.read = true

/-- A handler keeps the order. -/
theorem InOrder.handlerStep (h : InOrder s) {j : Nat} (hstep : HandlerStep host s j s')
    (horderly : Orderly s s') : InOrder s' := by
  cases hstep with
  | handed a m rest hat hopen hroom =>
    obtain ⟨hread, hlatest⟩ := horderly.1 j a m rest hat (Function.update_self _ _ _) hopen
    refine ⟨?_, ?_, ?_, h.phase⟩
    · intro σ
      change (Function.update s.box a.2 _ σ).handed.Pairwise _
      by_cases hσ : σ = a.2
      · rw [hσ, Function.update_self]
        exact List.pairwise_cons.mpr ⟨hlatest, h.sorted a.2⟩
      · rw [Function.update_of_ne hσ]
        exact h.sorted σ
    · intro σ x hx
      change x ∈ (Function.update s.box a.2 _ σ).handed at hx
      by_cases hσ : σ = a.2
      · rw [hσ, Function.update_self] at hx
        rcases List.mem_cons.mp hx with rfl | hx
        · exact hread
        · exact h.read a.2 x hx
      · rw [Function.update_of_ne hσ] at hx
        exact h.read σ x hx
    · intro σ x hx
      change (Function.update s.box a.2 _ σ).greeting = _ at hx
      by_cases hσ : σ = a.2
      · rw [hσ, Function.update_self] at hx
        exact h.greeting a.2 x hx
      · rw [Function.update_of_ne hσ] at hx
        exact h.greeting σ x hx
  | _ => exact ⟨h.sorted, h.read, h.greeting, h.phase⟩

/-- Another box for a session, with the same queue. -/
theorem InOrder.boxTo (h : InOrder s) {σ : Nat} {b : Outbox}
    (hhanded : b.handed = (s.box σ).handed) (hgreeting : ∀ m, b.greeting = some m → m.read = true) :
    InOrder (s.boxTo σ b) := by
  have hbox : ∀ τ, (Function.update s.box σ b τ).handed = (s.box τ).handed := by
    intro τ
    by_cases hτ : τ = σ
    · rw [hτ, Function.update_self, hhanded]
    · rw [Function.update_of_ne hτ]
  refine ⟨?_, ?_, ?_, h.phase⟩
  · intro τ
    change (Function.update s.box σ b τ).handed.Pairwise _
    rw [hbox]
    exact h.sorted τ
  · intro τ m hm
    change m ∈ (Function.update s.box σ b τ).handed at hm
    rw [hbox] at hm
    exact h.read τ m hm
  · intro τ m hm
    change (Function.update s.box σ b τ).greeting = _ at hm
    by_cases hτ : τ = σ
    · rw [hτ, Function.update_self] at hm
      exact hgreeting m hm
    · rw [Function.update_of_ne hτ] at hm
      exact h.greeting τ m hm

/-- So does every orderly step. -/
theorem InOrder.step (h : InOrder s) (hstep : Step host s s') (horderly : Orderly s s') :
    InOrder s' := by
  have hphase : ∀ σ m, s'.phase σ = .greeting m → m.read = true := by
    intro σ m hm
    by_cases hold : s.phase σ = .greeting m
    · exact h.phase σ m hold
    · exact horderly.2 σ m hold hm
  cases hstep with
  | handler j _ hhandler => exact h.handlerStep hhandler horderly
  | session σ _ hsession =>
    cases hsession with
    | greeting ok hat => exact ⟨h.sorted, h.read, h.greeting, hphase⟩
    | looping m hat =>
      have hbox : InOrder (s.boxTo σ { s.box σ with greeting := some m }) := by
        refine h.boxTo rfl ?_
        intro m' hm'
        cases hm'
        exact h.phase σ m hat
      exact ⟨hbox.sorted, hbox.read, hbox.greeting, hphase⟩
    | sent hat hmore => exact h.boxTo rfl (h.greeting σ)
    | closed hat => exact ⟨h.sorted, h.read, h.greeting, hphase⟩
  | installed n =>
    refine ⟨?_, ?_, ?_, hphase⟩
    · intro σ
      change (Function.update s.box s.next _ σ).handed.Pairwise _
      by_cases hσ : σ = s.next
      · rw [hσ, Function.update_self]
        exact List.Pairwise.nil
      · rw [Function.update_of_ne hσ]
        exact h.sorted σ
    · intro σ m hm
      change m ∈ (Function.update s.box s.next _ σ).handed at hm
      by_cases hσ : σ = s.next
      · rw [hσ, Function.update_self] at hm
        cases hm
      · rw [Function.update_of_ne hσ] at hm
        exact h.read σ m hm
    · intro σ m hm
      change (Function.update s.box s.next _ σ).greeting = _ at hm
      by_cases hσ : σ = s.next
      · rw [hσ, Function.update_self] at hm
        cases hm
      · rw [Function.update_of_ne hσ] at hm
        exact h.greeting σ m hm
  | _ => exact ⟨h.sorted, h.read, h.greeting, h.phase⟩

/-- So the queues are in order in every orderly run. -/
theorem OrderlyRun.inOrder (h : OrderlyRun host s) : InOrder s := by
  induction h with
  | start db => exact ⟨fun _ => List.Pairwise.nil, nofun, nofun, nofun⟩
  | step _ hstep horderly ih => exact ih.step hstep horderly

/-! ## Convergence -/

/-- Every handler is done, and every session in the map that still runs has sent
what it was given. -/
structure Quiet (s : State) : Prop where
  /-- No edit is under way. -/
  handlers : ∀ j, s.handler j = .absent ∨ s.handler j = .finished
  /-- Every session is closed or has sent all it was given. -/
  sessions : ∀ a ∈ s.agents, s.phase a.2 = .closed ∨
    (s.phase a.2 = .looping ∧ (s.box a.2).gone = (s.box a.2).handed.length)

/-- The last list each connected agent received is the list of its node. -/
def Converged (s : State) : Prop :=
  ∀ a ∈ s.agents, s.phase a.2 = .looping →
    ((s.box a.2).delivered.getLast?).map Message.tasks = some (pingTasksFor s.db a.1)

/-- Of a session that sent everything, the last is the newest of its queue, or
what it began with. -/
theorem delivered_last {b : Outbox} (hgone : b.gone = b.handed.length) :
    b.delivered.getLast? = b.handed.head?.or b.greeting := by
  unfold Outbox.delivered
  rw [hgone, ← List.length_reverse, List.take_length, List.getLast?_append, List.getLast?_reverse]
  cases b.greeting with
  | none => rfl
  | some g => rfl

/-- A handler that is not there or has finished owes nothing. -/
theorem not_owes_quiet (hquiet : Quiet s) {a : Int × Nat} (j : Nat) :
    ¬ Owes s.version a (s.handler j) := by
  intro howes
  rcases hquiet.handlers j with hat | hat
  · rw [hat] at howes
    exact howes
  · rw [hat] at howes
    exact howes

/-- When all is done, the newest list given to a session is of now. -/
theorem newest_current (hcarried : Carried s) (hinorder : InOrder s) (hquiet : Quiet s)
    {a : Int × Nat} (ha : a ∈ s.agents) (hlooping : s.phase a.2 = .looping) {m : Message}
    (hm : (s.box a.2).handed.head?.or (s.box a.2).greeting = some m) :
    m.tasks = pingTasksFor s.db a.1 := by
  have hopen : s.phase a.2 ≠ .closed := by
    rw [hlooping]
    nofun
  have hdue : s.born a.2 < s.version → ∃ x ∈ (s.box a.2).handed, x.version = s.version := by
    intro hlate
    rcases hcarried.due a ha hopen hlate with hhanded | ⟨j, howes⟩
    · exact hhanded
    · exact absurd howes (not_owes_quiet hquiet j)
  have hdone : Current s a.2 m ∧ m.read = true ∧
      ∀ x ∈ (s.box a.2).handed, x.version ≤ m.version := by
    cases hhanded : (s.box a.2).handed with
    | nil =>
      rw [hhanded] at hm
      exact ⟨hcarried.current _ m (.inr (.inl hm)), hinorder.greeting _ m hm, nofun⟩
    | cons newest rest =>
      rw [hhanded] at hm
      cases hm
      have hin : m ∈ (s.box a.2).handed := by
        rw [hhanded]
        exact List.mem_cons_self
      have hsorted := hinorder.sorted a.2
      rw [hhanded] at hsorted
      refine ⟨hcarried.current _ m (.inl hin), hinorder.read _ m hin, ?_⟩
      intro x hx
      rcases List.mem_cons.mp hx with rfl | hx
      · exact le_refl _
      · exact (List.pairwise_cons.mp hsorted).1 x hx
  obtain ⟨hcurrent, hread, hlatest⟩ := hdone
  have hborn := hcurrent.born
  have hpast := hcurrent.past
  have hnow : m.version = s.version := by
    by_cases hlate : s.born a.2 < s.version
    · obtain ⟨x, hx, hversion⟩ := hdue hlate
      have hle := hlatest x hx
      omega
    · omega
  rw [hcurrent.tasks hnow hread, (hcarried.mapped a ha).2]

end Romi.ProbeConvergence
