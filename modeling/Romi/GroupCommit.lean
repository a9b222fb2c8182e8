import Romi.CachedTransactions

/-!
# Group commit with replay

Several bodies share one transaction. When one of them fails the transaction
is rolled back, the cache is reloaded if it can be, and every body is run
again in a transaction of its own. Every body that ran is on record with the
state it met. Two facts hold for bodies that only loosen the cache when they
break off: what was committed is a chain of single successful runs, and the
detour through a failed group cannot be told from running alone.
-/

namespace Romi.GroupCommit

open CachedTransactions

variable {ι σ γ π : Type}

/-! ## Running -/

/-- One body's run: what it met and what came of it. -/
structure Execution (ι σ γ π : Type) where
  /-- Whose it is. -/
  id : ι
  /-- The store the body met. -/
  before : σ
  /-- The cache the body met. -/
  cache : γ
  /-- What came of it. -/
  outcome : Except Failure π
  /-- The store as the body left it. -/
  after : σ

/-- A body with its replay; the engine may answer the two runs differently. -/
structure Task (ι σ γ π : Type) where
  /-- Whose it is. -/
  id : ι
  /-- The run inside the shared transaction. -/
  first : Body σ γ π
  /-- The run in a transaction of its own. -/
  alone : Body σ γ π

/-- The engine's answers around one transaction. -/
structure Answers where
  /-- Why no transaction could be opened. -/
  begins : Option Failure
  /-- Why the commit failed. -/
  commits : Option Failure
  /-- Whether a reload of the cache succeeds. -/
  reloads : Bool

/-- A transaction that opens and commits. -/
def Answers.Clear (a : Answers) : Prop := a.begins = none ∧ a.commits = none

/-- What came of running some tasks. -/
structure Outcome (ι σ γ π : Type) where
  /-- The answer to each task. -/
  replies : List (ι × Except Failure π)
  /-- The store in the end. -/
  db : σ
  /-- The cache in the end. -/
  cache : γ
  /-- Every body that ran, in order. -/
  executions : List (Execution ι σ γ π)
  /-- Those whose transaction committed, in order. -/
  commits : List (Execution ι σ γ π)

/-- The cache after a failure: rebuilt from the store if that works. -/
def reloaded (load : σ → γ) (a : Answers) (db : σ) (cache : γ) : γ :=
  if a.reloads then load db else cache

/-- The run of one task in its own transaction. -/
def runAlone (load : σ → γ) (a : Answers) (t : Task ι σ γ π) (db : σ) (cache : γ) :
    Outcome ι σ γ π :=
  match a.begins with
  | some e => ⟨[(t.id, .error e)], db, reloaded load a db cache, [], []⟩
  | none =>
    match t.alone db cache with
    | (.error e, db', cache') =>
      ⟨[(t.id, .error e)], db, reloaded load a db cache', [⟨t.id, db, cache, .error e, db'⟩], []⟩
    | (.ok p, db', cache') =>
      match a.commits with
      | some e =>
        ⟨[(t.id, .error e)], db, reloaded load a db cache', [⟨t.id, db, cache, .ok p, db'⟩], []⟩
      | none =>
        ⟨[(t.id, .ok p)], db', cache', [⟨t.id, db, cache, .ok p, db'⟩],
          [⟨t.id, db, cache, .ok p, db'⟩]⟩

/-- One outcome after another. -/
def Outcome.andThen (o o' : Outcome ι σ γ π) : Outcome ι σ γ π :=
  ⟨o.replies ++ o'.replies, o'.db, o'.cache, o.executions ++ o'.executions, o.commits ++ o'.commits⟩

/-- Nothing done. -/
def Outcome.none (db : σ) (cache : γ) : Outcome ι σ γ π := ⟨[], db, cache, [], []⟩

/-- Each task in its own transaction, one after another. -/
def replay (load : σ → γ) (answers : ι → Answers) : List (Task ι σ γ π) → σ → γ → Outcome ι σ γ π
  | [], db, cache => .none db cache
  | t :: rest, db, cache =>
    let o := runAlone load (answers t.id) t db cache
    o.andThen (replay load answers rest o.db o.cache)

/-- A run through one open transaction, up to the first body that fails. -/
structure Passage (ι σ γ π : Type) where
  /-- Every payload, or the failure that stopped the run. -/
  results : Except Failure (List (ι × π))
  /-- The store so far. -/
  db : σ
  /-- The cache so far. -/
  cache : γ
  /-- What has run so far, in this order. -/
  executions : List (Execution ι σ γ π)

/-- Runs the bodies of the tasks in one open transaction. -/
def runThrough : List (Task ι σ γ π) → σ → γ → Passage ι σ γ π
  | [], db, cache => ⟨.ok [], db, cache, []⟩
  | t :: rest, db, cache =>
    match t.first db cache with
    | (.error e, db', cache') => ⟨.error e, db', cache', [⟨t.id, db, cache, .error e, db'⟩]⟩
    | (.ok p, db', cache') =>
      let r := runThrough rest db' cache'
      ⟨r.results.map ((t.id, p) :: ·), r.db, r.cache, ⟨t.id, db, cache, .ok p, db'⟩ :: r.executions⟩

/-- One transaction for all tasks; a failing body turns it into a replay. -/
def runGroup (load : σ → γ) (a : Answers) (answers : ι → Answers) (tasks : List (Task ι σ γ π))
    (db : σ) (cache : γ) : Outcome ι σ γ π :=
  match a.begins with
  | some e => ⟨tasks.map fun t => (t.id, .error e), db, cache, [], []⟩
  | none =>
    let r := runThrough tasks db cache
    match r.results with
    | .error _ =>
      let o := replay load answers tasks db (reloaded load a db r.cache)
      { o with executions := r.executions ++ o.executions }
    | .ok results =>
      match a.commits with
      | some e =>
        ⟨tasks.map fun t => (t.id, .error e), db, reloaded load a db r.cache, r.executions, []⟩
      | none => ⟨results.map fun q => (q.1, .ok q.2), r.db, r.cache, r.executions, r.executions⟩

/-! ## What bodies must respect -/

/-- How a relation between store and cache meets reloading and loosening. -/
structure Regime (load : σ → γ) (P : σ → γ → Prop) (Loosens : γ → γ → Prop) : Prop where
  /-- A cache that was just loaded is right. -/
  load : ∀ {db c}, P db c → P db (load db)
  /-- A looser one is right where a tighter one is. -/
  loose : ∀ {db c c'}, P db c → Loosens c c' → P db c'
  /-- A cache is as loose as itself. -/
  refl : ∀ c, Loosens c c
  /-- And looser than what a looser one is looser than. -/
  trans : ∀ {c c' c''}, Loosens c c' → Loosens c' c'' → Loosens c c''

/-- A body that keeps the relation when it succeeds and never does more to the
cache than loosen it. -/
structure Lawful (P : σ → γ → Prop) (Loosens : γ → γ → Prop) (b : Body σ γ π) : Prop where
  /-- What succeeds leaves a right cache. -/
  sound : ∀ {db c p db' c'}, P db c → b db c = (.ok p, db', c') → P db' c'
  /-- Whatever comes of it, the cache only gets looser. -/
  loosens : ∀ {db c r db' c'}, P db c → b db c = (r, db', c') → Loosens c c'

/-- Both runs of a task are lawful. -/
structure Task.Lawful (P : σ → γ → Prop) (Loosens : γ → γ → Prop) (t : Task ι σ γ π) : Prop where
  /-- In the group. -/
  first : GroupCommit.Lawful P Loosens t.first
  /-- And by itself. -/
  alone : GroupCommit.Lawful P Loosens t.alone

/-- The execution is a run of the body. -/
def Execution.RunOf (e : Execution ι σ γ π) (b : Body σ γ π) : Prop :=
  ∃ c', b e.before e.cache = (e.outcome, e.after, c')

/-- Executions that follow on one another from one store to another. -/
inductive Chain : σ → List (Execution ι σ γ π) → σ → Prop
  /-- No executions lead nowhere. -/
  | nil (db : σ) : Chain db [] db
  /-- One before the others. -/
  | cons {e : Execution ι σ γ π} {rest : List (Execution ι σ γ π)} {db' : σ}
    (h : Chain e.after rest db') : Chain e.before (e :: rest) db'

/-- A chain grows at its start. -/
theorem Chain.run {id : ι} {db db' last : σ} {c : γ} {r : Except Failure π}
    {rest : List (Execution ι σ γ π)} (h : Chain db' rest last) :
    Chain db (⟨id, db, c, r, db'⟩ :: rest) last := .cons (e := ⟨id, db, c, r, db'⟩) h

/-- Two chains make one. -/
theorem Chain.append {a b c : σ} {xs ys : List (Execution ι σ γ π)} (h : Chain a xs b)
    (h' : Chain b ys c) : Chain a (xs ++ ys) c := by
  induction h with
  | nil => exact h'
  | cons _ ih => exact .cons (ih h')

/-- All that can be said of an outcome: the relation holds at the end and
wherever a body started, what was committed leads from the first store to the
last, and the successful answers are exactly the committed runs. -/
structure Outcome.Accounted (P : σ → γ → Prop) (tasks : List (Task ι σ γ π)) (db : σ)
    (o : Outcome ι σ γ π) : Prop where
  /-- Store and cache are right in the end. -/
  sound : P o.db o.cache
  /-- Every execution began with a right cache and is a task's. -/
  executions : ∀ e ∈ o.executions, P e.before e.cache ∧
    ∃ t ∈ tasks, t.id = e.id ∧ (e.RunOf t.first ∨ e.RunOf t.alone)
  /-- The commits lead from the store before to the one now. -/
  commits : Chain db o.commits o.db
  /-- Every commit is an execution that succeeded. -/
  committed : ∀ e ∈ o.commits, e ∈ o.executions ∧ ∃ p, e.outcome = .ok p
  /-- Success is answered just where there is a commit. -/
  answered : ∀ id p, (id, .ok p) ∈ o.replies ↔ ∃ e ∈ o.commits, e.id = id ∧ e.outcome = .ok p
  /-- Every task is answered, in order. -/
  ids : o.replies.map Prod.fst = tasks.map Task.id

/-- A cache is right after it was loaded again, or not. -/
theorem reloaded_sound {load : σ → γ} {P : σ → γ → Prop} {Loosens : γ → γ → Prop}
    (hr : Regime load P Loosens) (a : Answers) {db : σ} {c c' : γ} (h : P db c)
    (hl : Loosens c c') : P db (reloaded load a db c') := by
  unfold reloaded
  split
  · exact hr.load h
  · exact hr.loose h hl

section Accounting

variable {load : σ → γ} {P : σ → γ → Prop} {Loosens : γ → γ → Prop}

/-- A task by itself is accounted for. -/
theorem runAlone_accounted (hr : Regime load P Loosens) (a : Answers) {t : Task ι σ γ π}
    (ht : t.Lawful P Loosens) {db : σ} {c : γ} (h : P db c) :
    (runAlone load a t db c).Accounted P [t] db := by
  unfold runAlone
  cases a.begins with
  | some e =>
    refine ⟨reloaded_sound hr a h (hr.refl c), nofun, .nil db, nofun, ?_, rfl⟩
    intro id p
    constructor
    · intro hm
      cases List.mem_singleton.mp hm
    · rintro ⟨e, he, -⟩
      cases he
  | none =>
    have hrun : ∀ {r db' c'}, t.alone db c = (r, db', c') →
        ∀ e ∈ [(⟨t.id, db, c, r, db'⟩ : Execution ι σ γ π)], P e.before e.cache ∧
          ∃ t' ∈ [t], t'.id = e.id ∧ (e.RunOf t'.first ∨ e.RunOf t'.alone) := by
      intro r db' c' hb e he
      rw [List.mem_singleton.mp he]
      exact ⟨h, t, List.mem_singleton.mpr rfl, rfl, .inr ⟨c', hb⟩⟩
    have hfailed : ∀ (e : Failure) (id : ι) (p : π),
        (id, Except.ok p) ∈ [(t.id, (.error e : Except Failure π))] ↔
          ∃ x ∈ ([] : List (Execution ι σ γ π)), x.id = id ∧ x.outcome = .ok p := by
      intro e id p
      constructor
      · intro hm
        cases List.mem_singleton.mp hm
      · rintro ⟨x, hx, -⟩
        cases hx
    rcases hb : t.alone db c with ⟨r, db', c'⟩
    have hloose := ht.alone.loosens h hb
    cases r with
    | error e => exact ⟨reloaded_sound hr a h hloose, hrun hb, .nil db, nofun, hfailed e, rfl⟩
    | ok p =>
      cases a.commits with
      | some e => exact ⟨reloaded_sound hr a h hloose, hrun hb, .nil db, nofun, hfailed e, rfl⟩
      | none =>
        refine ⟨ht.alone.sound h hb, hrun hb, (Chain.nil db').run, ?_, ?_, rfl⟩
        · intro e he
          refine ⟨he, p, ?_⟩
          rw [List.mem_singleton.mp he]
        · intro id q
          constructor
          · intro hm
            cases List.mem_singleton.mp hm
            exact ⟨_, List.mem_singleton.mpr rfl, rfl, rfl⟩
          · rintro ⟨e, he, rfl, hq⟩
            rw [List.mem_singleton.mp he] at hq ⊢
            rw [← hq]
            exact List.mem_singleton.mpr rfl

/-- Accounts of successive outcomes add up. -/
theorem Outcome.Accounted.andThen {xs ys : List (Task ι σ γ π)} {db : σ} {o o' : Outcome ι σ γ π}
    (h : o.Accounted P xs db) (h' : o'.Accounted P ys o.db) :
    (o.andThen o').Accounted P (xs ++ ys) db := by
  refine ⟨h'.sound, ?_, h.commits.append h'.commits, ?_, ?_, ?_⟩
  · intro e he
    rcases List.mem_append.mp he with he | he
    · obtain ⟨hp, t, ht, hrest⟩ := h.executions e he
      exact ⟨hp, t, List.mem_append_left _ ht, hrest⟩
    · obtain ⟨hp, t, ht, hrest⟩ := h'.executions e he
      exact ⟨hp, t, List.mem_append_right _ ht, hrest⟩
  · intro e he
    rcases List.mem_append.mp he with he | he
    · obtain ⟨hx, hp⟩ := h.committed e he
      exact ⟨List.mem_append_left _ hx, hp⟩
    · obtain ⟨hx, hp⟩ := h'.committed e he
      exact ⟨List.mem_append_right _ hx, hp⟩
  · intro id p
    change (id, Except.ok p) ∈ o.replies ++ o'.replies ↔ ∃ e ∈ o.commits ++ o'.commits, _
    rw [List.mem_append, h.answered, h'.answered]
    simp only [List.mem_append, or_and_right, exists_or]
  · change (o.replies ++ o'.replies).map Prod.fst = _
    rw [List.map_append, List.map_append, h.ids, h'.ids]

/-- So are tasks one after the other. -/
theorem replay_accounted (hr : Regime load P Loosens) (answers : ι → Answers)
    {tasks : List (Task ι σ γ π)} (ht : ∀ t ∈ tasks, t.Lawful P Loosens) {db : σ} {c : γ}
    (h : P db c) : (replay load answers tasks db c).Accounted P tasks db := by
  induction tasks generalizing db c with
  | nil =>
    refine ⟨h, nofun, .nil db, nofun, ?_, rfl⟩
    intro id p
    constructor
    · intro hm
      cases hm
    · rintro ⟨e, he, -⟩
      cases he
  | cons t rest ih =>
    have hone := runAlone_accounted hr (answers t.id) (ht t List.mem_cons_self) h
    exact hone.andThen (ih (fun x hx => ht x (List.mem_cons_of_mem t hx)) hone.sound)

/-- What a passage through one transaction says: where each body started, and,
when none failed, the chain they form. -/
theorem runThrough_spec (hr : Regime load P Loosens) {tasks : List (Task ι σ γ π)}
    (ht : ∀ t ∈ tasks, t.Lawful P Loosens) {db : σ} {c : γ} (h : P db c) :
    Loosens c (runThrough tasks db c).cache ∧
    (∀ e ∈ (runThrough tasks db c).executions, P e.before e.cache ∧
      ∃ t ∈ tasks, t.id = e.id ∧ e.RunOf t.first) ∧
    ∀ results, (runThrough tasks db c).results = .ok results →
      P (runThrough tasks db c).db (runThrough tasks db c).cache ∧
      Chain db (runThrough tasks db c).executions (runThrough tasks db c).db ∧
      results.map Prod.fst = tasks.map Task.id ∧
      (runThrough tasks db c).executions.map (fun e => (e.id, e.outcome)) =
        results.map fun q => (q.1, .ok q.2) := by
  induction tasks generalizing db c with
  | nil =>
    refine ⟨hr.refl c, nofun, ?_⟩
    intro results hres
    cases hres
    exact ⟨h, .nil db, rfl, rfl⟩
  | cons t rest ih =>
    have hlaw := (ht t List.mem_cons_self).first
    rcases hb : t.first db c with ⟨r, db', c'⟩
    have hloose := hlaw.loosens h hb
    have hhead : P db c ∧ ∃ t' ∈ t :: rest, t'.id = t.id ∧
        (⟨t.id, db, c, r, db'⟩ : Execution ι σ γ π).RunOf t'.first :=
      ⟨h, t, List.mem_cons_self, rfl, c', hb⟩
    cases r with
    | error e =>
      simp only [runThrough, hb]
      refine ⟨hloose, ?_, nofun⟩
      intro x hx
      rw [List.mem_singleton.mp hx]
      exact hhead
    | ok p =>
      obtain ⟨hl, hexec, hok⟩ := ih (fun x hx => ht x (List.mem_cons_of_mem t hx)) (hlaw.sound h hb)
      simp only [runThrough, hb]
      refine ⟨hr.trans hloose hl, ?_, ?_⟩
      · intro x hx
        rcases List.mem_cons.mp hx with rfl | hx
        · exact hhead
        · obtain ⟨hp, t', ht', hrest⟩ := hexec x hx
          exact ⟨hp, t', List.mem_cons_of_mem t ht', hrest⟩
      · intro results hres
        cases htail : (runThrough rest db' c').results with
        | error e =>
          rw [htail] at hres
          cases hres
        | ok tail =>
          rw [htail] at hres
          cases hres
          obtain ⟨hp, hchain, hids, hpairs⟩ := hok tail htail
          refine ⟨hp, hchain.run, ?_, ?_⟩
          · rw [List.map_cons, List.map_cons, hids]
          · rw [List.map_cons, List.map_cons, hpairs]

/-- A group is accounted for on every path through it. -/
theorem runGroup_accounted (hr : Regime load P Loosens) (a : Answers) (answers : ι → Answers)
    {tasks : List (Task ι σ γ π)} (ht : ∀ t ∈ tasks, t.Lawful P Loosens) {db : σ} {c : γ}
    (h : P db c) : (runGroup load a answers tasks db c).Accounted P tasks db := by
  have hnone : ∀ (e : Failure) (id : ι) (p : π),
      (id, Except.ok p) ∈ tasks.map (fun t => (t.id, (.error e : Except Failure π))) ↔
        ∃ x ∈ ([] : List (Execution ι σ γ π)), x.id = id ∧ x.outcome = .ok p := by
    intro e id p
    constructor
    · intro hm
      obtain ⟨t, -, ht⟩ := List.mem_map.mp hm
      cases ht
    · rintro ⟨x, hx, -⟩
      cases hx
  have hids : ∀ e : Failure,
      (tasks.map fun t => (t.id, (.error e : Except Failure π))).map Prod.fst = tasks.map Task.id := by
    intro e
    rw [List.map_map]
    rfl
  unfold runGroup
  cases a.begins with
  | some e => exact ⟨h, nofun, .nil db, nofun, hnone e, hids e⟩
  | none =>
    obtain ⟨hloose, hexec, hok⟩ := runThrough_spec hr ht h
    have hran : ∀ x ∈ (runThrough tasks db c).executions, P x.before x.cache ∧
        ∃ t ∈ tasks, t.id = x.id ∧ (x.RunOf t.first ∨ x.RunOf t.alone) := by
      intro x hx
      obtain ⟨hp, t, htm, hid, hrun⟩ := hexec x hx
      exact ⟨hp, t, htm, hid, .inl hrun⟩
    dsimp only
    cases hres : (runThrough tasks db c).results with
    | error e =>
      have hreplay := replay_accounted hr answers ht (reloaded_sound hr a h hloose)
      refine ⟨hreplay.sound, ?_, hreplay.commits, ?_, hreplay.answered, hreplay.ids⟩
      · intro x hx
        rcases List.mem_append.mp hx with hx | hx
        · exact hran x hx
        · exact hreplay.executions x hx
      · intro x hx
        obtain ⟨hmem, hp⟩ := hreplay.committed x hx
        exact ⟨List.mem_append_right _ hmem, hp⟩
    | ok results =>
      obtain ⟨hsound, hchain, hresIds, hpairs⟩ := hok results hres
      cases a.commits with
      | some e => exact ⟨reloaded_sound hr a h hloose, hran, .nil db, nofun, hnone e, hids e⟩
      | none =>
        have hanswer : ∀ id o, (id, o) ∈ results.map (fun q => (q.1, (.ok q.2 : Except Failure π))) ↔
            ∃ x ∈ (runThrough tasks db c).executions, x.id = id ∧ x.outcome = o := by
          intro id o
          rw [← hpairs, List.mem_map]
          simp only [Prod.mk.injEq]
        refine ⟨hsound, hran, hchain, ?_, fun id p => hanswer id (.ok p), ?_⟩
        · intro x hx
          refine ⟨hx, ?_⟩
          have hmem := (hanswer x.id x.outcome).mpr ⟨x, hx, rfl, rfl⟩
          obtain ⟨q, -, hq⟩ := List.mem_map.mp hmem
          exact ⟨q.2, (Prod.mk.inj hq).2.symm⟩
        · rw [List.map_map, ← hresIds]
          rfl

end Accounting

/-! ## A group cannot be told from its replay -/

/-- What lets the writer run a body twice: a success inside a group is what it
would have been alone, and alone it does the same under every cache in the
relation. -/
structure Task.Restartable (P : σ → γ → Prop) (t : Task ι σ γ π) : Prop where
  /-- What succeeds in the group leaves the store it leaves by itself. -/
  follows : ∀ {db c d p db' c'}, P db c → P db d → t.first db c = (.ok p, db', c') →
    ∃ d', t.alone db d = (.ok p, db', d')
  /-- By itself it does the same whatever the cache. -/
  agrees : ∀ {db c d r db' c'}, P db c → P db d → t.alone db c = (r, db', c') →
    ∃ db'' d', t.alone db d = (r, db'', d') ∧ ∀ p, r = .ok p → db'' = db'

section Equivalence

variable {load : σ → γ} {P : σ → γ → Prop} {Loosens : γ → γ → Prop}

/-- The store a transaction leaves: the body's where it succeeded. -/
def settled (r : Except Failure π) (db db' : σ) : σ :=
  match r with
  | .ok _ => db'
  | .error _ => db

/-- A transaction that opens and commits ends as its body does. -/
theorem runAlone_clear (load : σ → γ) {a : Answers} (ha : a.Clear) {t : Task ι σ γ π} {db : σ} {c : γ}
    {r : Except Failure π} {db' : σ} {c' : γ} (hb : t.alone db c = (r, db', c')) :
    (runAlone load a t db c).replies = [(t.id, r)] ∧
      (runAlone load a t db c).db = settled r db db' := by
  unfold runAlone
  rw [ha.1, hb]
  cases r with
  | error e => exact ⟨rfl, rfl⟩
  | ok p =>
    dsimp only
    rw [ha.2]
    exact ⟨rfl, rfl⟩

/-- Alone, a task does the same whichever caches it meets. -/
theorem replay_agrees (hr : Regime load P Loosens) {tasks : List (Task ι σ γ π)}
    (hlaw : ∀ t ∈ tasks, t.Lawful P Loosens) (ht : ∀ t ∈ tasks, t.Restartable P)
    {answers other : ι → Answers} (ha : ∀ i, (answers i).Clear) (ho : ∀ i, (other i).Clear)
    {db : σ} {c d : γ} (hc : P db c) (hd : P db d) :
    (replay load answers tasks db c).replies = (replay load other tasks db d).replies ∧
      (replay load answers tasks db c).db = (replay load other tasks db d).db := by
  induction tasks generalizing db c d with
  | nil => exact ⟨rfl, rfl⟩
  | cons t rest ih =>
    have hone := hlaw t List.mem_cons_self
    have hcAfter := (runAlone_accounted hr (answers t.id) hone hc).sound
    have hdAfter := (runAlone_accounted hr (other t.id) hone hd).sound
    rcases hb : t.alone db c with ⟨r, db', c'⟩
    obtain ⟨db'', d', hb', hsame⟩ := (ht t List.mem_cons_self).agrees hc hd hb
    obtain ⟨hreply, hdb⟩ := runAlone_clear load (ha t.id) hb
    obtain ⟨hreply', hdb'⟩ := runAlone_clear load (ho t.id) hb'
    have hstore : (runAlone load (answers t.id) t db c).db =
        (runAlone load (other t.id) t db d).db := by
      rw [hdb, hdb']
      cases r with
      | error e => rfl
      | ok p => exact (hsame p rfl).symm
    rw [← hstore] at hdAfter
    obtain ⟨hreplies, hlast⟩ := ih (fun x hx => hlaw x (List.mem_cons_of_mem t hx))
      (fun x hx => ht x (List.mem_cons_of_mem t hx)) hcAfter hdAfter
    simp only [replay, Outcome.andThen]
    rw [hreply, hreply', ← hstore, hreplies, hlast]
    exact ⟨rfl, rfl⟩

/-- A passage in which every body succeeds is a replay. -/
theorem runThrough_eq_replay (hr : Regime load P Loosens) {tasks : List (Task ι σ γ π)}
    (hlaw : ∀ t ∈ tasks, t.Lawful P Loosens) (ht : ∀ t ∈ tasks, t.Restartable P)
    {other : ι → Answers} (ho : ∀ i, (other i).Clear) {db : σ} {c d : γ} (hc : P db c)
    (hd : P db d) {results : List (ι × π)} (hres : (runThrough tasks db c).results = .ok results) :
    (results.map fun q => (q.1, (.ok q.2 : Except Failure π))) =
        (replay load other tasks db d).replies ∧
      (runThrough tasks db c).db = (replay load other tasks db d).db := by
  induction tasks generalizing db c d results with
  | nil =>
    cases hres
    exact ⟨rfl, rfl⟩
  | cons t rest ih =>
    have hone := hlaw t List.mem_cons_self
    have hdAfter := (runAlone_accounted hr (other t.id) hone hd).sound
    rcases hb : t.first db c with ⟨r, db', c'⟩
    cases r with
    | error e =>
      simp only [runThrough, hb] at hres
      cases hres
    | ok p =>
      obtain ⟨d', hb'⟩ := (ht t List.mem_cons_self).follows hc hd hb
      obtain ⟨hreply, hdb⟩ := runAlone_clear load (ho t.id) hb'
      simp only [runThrough, hb] at hres ⊢
      cases htail : (runThrough rest db' c').results with
      | error e =>
        rw [htail] at hres
        cases hres
      | ok tail =>
        rw [htail] at hres
        cases hres
        rw [settled] at hdb
        rw [hdb] at hdAfter
        obtain ⟨hreplies, hlast⟩ := ih (fun x hx => hlaw x (List.mem_cons_of_mem t hx))
          (fun x hx => ht x (List.mem_cons_of_mem t hx)) (hone.first.sound hc hb) hdAfter htail
        simp only [replay, Outcome.andThen]
        rw [hreply, hdb, List.map_cons, hreplies, hlast]
        exact ⟨rfl, rfl⟩

/-- Whatever happens inside the group, stores and answers are those of running
every task alone. -/
theorem runGroup_eq_replay (hr : Regime load P Loosens) {tasks : List (Task ι σ γ π)}
    (hlaw : ∀ t ∈ tasks, t.Lawful P Loosens) (ht : ∀ t ∈ tasks, t.Restartable P) {a : Answers}
    {answers other : ι → Answers} (hgroup : a.Clear) (ha : ∀ i, (answers i).Clear)
    (ho : ∀ i, (other i).Clear) {db : σ} {c : γ} (hc : P db c) :
    (runGroup load a answers tasks db c).replies = (replay load other tasks db c).replies ∧
      (runGroup load a answers tasks db c).db = (replay load other tasks db c).db := by
  unfold runGroup
  rw [hgroup.1]
  dsimp only
  cases hres : (runThrough tasks db c).results with
  | error e =>
    -- The bodies that ran once left no more than a looser cache behind.
    have hloose := (runThrough_spec hr hlaw hc).1
    exact replay_agrees hr hlaw ht ha ho (reloaded_sound hr a hc hloose) hc
  | ok results =>
    dsimp only
    rw [hgroup.2]
    exact runThrough_eq_replay hr hlaw ht ho hc hc hres

end Equivalence

/-! ## Tasks run and are answered in order -/

section Order

variable {load : σ → γ}

/-- A passage runs the tasks in order, up to some point. -/
theorem runThrough_prefix (tasks : List (Task ι σ γ π)) (db : σ) (c : γ) :
    (runThrough tasks db c).executions.map Execution.id <+: tasks.map Task.id := by
  induction tasks generalizing db c with
  | nil => exact List.prefix_rfl
  | cons t rest ih =>
    rcases hb : t.first db c with ⟨r, db', c'⟩
    cases r with
    | error e =>
      simp only [runThrough, hb, List.map_cons, List.map_nil]
      exact List.prefix_append [t.id] (rest.map Task.id)
    | ok p =>
      simp only [runThrough, hb, List.map_cons]
      exact (List.prefix_cons_inj t.id).mpr (ih db' c')

/-- If none failed, it has a payload for each, in order. -/
theorem runThrough_ids {tasks : List (Task ι σ γ π)} {db : σ} {c : γ} {results : List (ι × π)}
    (h : (runThrough tasks db c).results = .ok results) :
    results.map Prod.fst = tasks.map Task.id := by
  induction tasks generalizing db c results with
  | nil =>
    cases h
    rfl
  | cons t rest ih =>
    rcases hb : t.first db c with ⟨r, db', c'⟩
    cases r with
    | error e =>
      simp only [runThrough, hb] at h
      cases h
    | ok p =>
      simp only [runThrough, hb] at h
      cases htail : (runThrough rest db' c').results with
      | error e =>
        rw [htail] at h
        cases h
      | ok tail =>
        rw [htail] at h
        cases h
        rw [List.map_cons, List.map_cons, ih htail]

/-- A task by itself is answered once and runs once at most. -/
theorem runAlone_order (a : Answers) (t : Task ι σ γ π) (db : σ) (c : γ) :
    (runAlone load a t db c).replies.map Prod.fst = [t.id] ∧
      ((runAlone load a t db c).executions.map Execution.id).Sublist [t.id] := by
  unfold runAlone
  cases a.begins with
  | some e => exact ⟨rfl, List.nil_sublist _⟩
  | none =>
    rcases t.alone db c with ⟨r, db', c'⟩
    cases r with
    | error e => exact ⟨rfl, List.Sublist.refl _⟩
    | ok p =>
      cases a.commits with
      | some e => exact ⟨rfl, List.Sublist.refl _⟩
      | none => exact ⟨rfl, List.Sublist.refl _⟩

/-- A replay answers every task and runs those it can, in order. -/
theorem replay_order (answers : ι → Answers) (tasks : List (Task ι σ γ π)) (db : σ) (c : γ) :
    (replay load answers tasks db c).replies.map Prod.fst = tasks.map Task.id ∧
      ((replay load answers tasks db c).executions.map Execution.id).Sublist (tasks.map Task.id) := by
  induction tasks generalizing db c with
  | nil => exact ⟨rfl, List.Sublist.refl _⟩
  | cons t rest ih =>
    obtain ⟨hreply, hran⟩ := @runAlone_order _ _ _ _ load (answers t.id) t db c
    obtain ⟨hreplies, hrest⟩ := ih (runAlone load (answers t.id) t db c).db
      (runAlone load (answers t.id) t db c).cache
    simp only [replay, Outcome.andThen, List.map_append, List.map_cons]
    rw [hreply, hreplies]
    exact ⟨rfl, hran.append hrest⟩

/-- A group answers every task in order; its bodies run in order, and so do
those that are run again. -/
theorem runGroup_order (a : Answers) (answers : ι → Answers) (tasks : List (Task ι σ γ π)) (db : σ)
    (c : γ) :
    (runGroup load a answers tasks db c).replies.map Prod.fst = tasks.map Task.id ∧
      ∃ first replayed : List ι,
        (runGroup load a answers tasks db c).executions.map Execution.id = first ++ replayed ∧
          first <+: tasks.map Task.id ∧ replayed.Sublist (tasks.map Task.id) := by
  have hfailed : ∀ e : Failure,
      (tasks.map fun t => (t.id, (.error e : Except Failure π))).map Prod.fst = tasks.map Task.id := by
    intro e
    rw [List.map_map]
    rfl
  have hprefix := runThrough_prefix tasks db c
  unfold runGroup
  cases a.begins with
  | some e => exact ⟨hfailed e, [], [], rfl, List.nil_prefix, List.nil_sublist _⟩
  | none =>
    dsimp only
    cases hres : (runThrough tasks db c).results with
    | error e =>
      obtain ⟨hreplies, hran⟩ := @replay_order _ _ _ _ load answers tasks db
        (reloaded load a db (runThrough tasks db c).cache)
      exact ⟨hreplies, _, _, List.map_append, hprefix, hran⟩
    | ok results =>
      have honce := (List.append_nil ((runThrough tasks db c).executions.map Execution.id)).symm
      cases a.commits with
      | some e => exact ⟨hfailed e, _, [], honce, hprefix, List.nil_sublist _⟩
      | none =>
        refine ⟨?_, _, [], honce, hprefix, List.nil_sublist _⟩
        dsimp only
        rw [List.map_map, ← runThrough_ids hres]
        rfl

end Order

end Romi.GroupCommit
