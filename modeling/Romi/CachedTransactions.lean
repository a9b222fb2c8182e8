import Mathlib.Data.List.Basic

/-!
# Jobs over a transactional store with an unguarded cache beside it

A job runs statements against one connection. The engine may refuse any of
them; a transaction that does not commit gives the store back unchanged, while
the cache is ordinary memory that no rollback touches. The refusals still to
come are part of the session, so quantifying over a session quantifies over
every place at which a job can break off.
-/

namespace Romi.CachedTransactions

/-- Why a job did not return a value. -/
inductive Failure
  /-- The engine refused a statement, an opening or a commit. -/
  | engine
  /-- A statement would have broken a key or a column constraint. -/
  | constraint
  /-- The program itself declined, with this text. -/
  | declined (text : String)
  deriving DecidableEq

/-- What a running job can reach. -/
structure Session (σ γ : Type) where
  /-- The store as this connection sees it. -/
  db : σ
  /-- The cache beside the store. -/
  cache : γ
  /-- Answers of the engine to the coming statements; true is a refusal. -/
  refusals : List Bool

/-- A program over one session; its effects stay when it fails. -/
def Job (σ γ α : Type) : Type := Session σ γ → Except Failure α × Session σ γ

namespace Job

variable {σ γ α β : Type}

/-- Sequencing stops at the first failure and keeps what was done before it. -/
def andThen (x : Job σ γ α) (f : α → Job σ γ β) : Job σ γ β := fun s =>
  match x s with
  | (.ok a, s') => f a s'
  | (.error e, s') => (.error e, s')

instance : Monad (Job σ γ) where
  pure a := fun s => (.ok a, s)
  bind := andThen

/-- Give up with a reason. -/
def fail (e : Failure) : Job σ γ α := fun s => (.error e, s)

/-- Give up with a text unless the condition holds. -/
def ensure (p : Prop) [Decidable p] (text : String) : Job σ γ Unit := fun s =>
  if p then (.ok (), s) else (.error (.declined text), s)

/-- The engine's answer to the next statement. -/
def engineAccepts : Job σ γ Unit := fun s =>
  match s.refusals with
  | [] => (.ok (), s)
  | true :: rest => (.error .engine, { s with refusals := rest })
  | false :: rest => (.ok (), { s with refusals := rest })

/-- One statement: refused by the engine, refused by a constraint, or done. -/
def statement (f : σ → Except Failure (α × σ)) : Job σ γ α := fun s =>
  match engineAccepts s with
  | (.error e, s') => (.error e, s')
  | (.ok _, s') =>
    match f s'.db with
    | .error e => (.error e, s')
    | .ok (a, db) => (.ok a, { s' with db := db })

/-- A statement that no constraint can refuse. -/
def execute (f : σ → σ) : Job σ γ Unit := statement fun db => .ok ((), f db)

/-- A statement that only reads. -/
def query (f : σ → α) : Job σ γ α := statement fun db => .ok (f db, db)

/-- Read the cache. -/
def readCache : Job σ γ γ := fun s => (.ok s.cache, s)

/-- Change the cache. -/
def modifyCache (f : γ → γ) : Job σ γ Unit := fun s => (.ok (), { s with cache := f s.cache })

/-- Opens a transaction, runs the body and commits. Dropping a transaction
that did not commit rolls the store back; the cache keeps what it has. -/
def transaction (body : Job σ γ α) : Job σ γ α := fun s =>
  match engineAccepts s with
  | (.error e, s') => (.error e, s')
  | (.ok _, s') =>
    match body s' with
    | (.error e, s'') => (.error e, { s'' with db := s.db })
    | (.ok a, s'') =>
      match engineAccepts s'' with
      | (.error e, s''') => (.error e, { s''' with db := s.db })
      | (.ok _, s''') => (.ok a, s''')

/-- Run the program only under a condition. -/
def onlyIf (p : Prop) [Decidable p] (x : Job σ γ Unit) : Job σ γ Unit := if p then x else pure ()

/-- Statements one after another. -/
def executeAll : List (σ → σ) → Job σ γ Unit
  | [] => pure ()
  | f :: rest => do
    execute f
    executeAll rest

/-- A transaction whose outcome is copied into the cache once it committed. -/
def commitThen (body : Job σ γ α) (f : α → γ → γ) : Job σ γ α := do
  let a ← transaction body
  modifyCache (f a)
  pure a

/-! ## Inversion: what a finished job did -/

/-- A job in two parts succeeds when both do. -/
theorem bind_ok {x : Job σ γ α} {f : α → Job σ γ β} {s s' : Session σ γ} {b : β}
    (h : (x >>= f) s = (.ok b, s')) :
    ∃ a s₁, x s = (.ok a, s₁) ∧ f a s₁ = (.ok b, s') := by
  change andThen x f s = _ at h
  unfold andThen at h
  split at h
  · exact ⟨_, _, ‹_›, h⟩
  · cases h

/-- It fails in one of them. -/
theorem bind_error {x : Job σ γ α} {f : α → Job σ γ β} {s s' : Session σ γ} {e : Failure}
    (h : (x >>= f) s = (.error e, s')) :
    x s = (.error e, s') ∨ ∃ a s₁, x s = (.ok a, s₁) ∧ f a s₁ = (.error e, s') := by
  change andThen x f s = _ at h
  unfold andThen at h
  split at h
  · exact .inr ⟨_, _, ‹_›, h⟩
  · rename_i e' s₁ hx
    rw [Prod.mk.injEq, Except.error.injEq] at h
    exact .inl (by rw [hx, h.1, h.2])

/-- Returning a value changes nothing. -/
theorem pure_ok {a b : α} {s s' : Session σ γ}
    (h : (pure a : Job σ γ α) s = (.ok b, s')) : a = b ∧ s' = s := by
  change (Except.ok a, s) = _ at h
  simp only [Prod.mk.injEq, Except.ok.injEq] at h
  exact ⟨h.1, h.2.symm⟩

/-- And it does not fail. -/
theorem pure_ne_error {a : α} {s s' : Session σ γ} {e : Failure} :
    (pure a : Job σ γ α) s ≠ (.error e, s') := by
  change (Except.ok a, s) ≠ _
  simp

/-- A failure is no success. -/
theorem fail_ne_ok {e : Failure} {a : α} {s s' : Session σ γ} :
    (fail e : Job σ γ α) s ≠ (.ok a, s') := by
  simp [fail]

/-- A check that passes was met and changes nothing. -/
theorem ensure_ok {p : Prop} [Decidable p] {text : String} {s s' : Session σ γ} {u : Unit}
    (h : (ensure p text : Job σ γ Unit) s = (.ok u, s')) : p ∧ s' = s := by
  unfold ensure at h
  split at h
  · exact ⟨‹_›, by simpa using h.symm⟩
  · simp at h

/-- Asking the engine changes neither the store nor the cache. -/
theorem engineAccepts_frame {s s' : Session σ γ} {r : Except Failure Unit}
    (h : engineAccepts s = (r, s')) : s'.db = s.db ∧ s'.cache = s.cache := by
  unfold engineAccepts at h
  split at h <;> (rw [Prod.mk.injEq] at h; rw [← h.2]; exact ⟨rfl, rfl⟩)

/-- A statement that succeeds does what it says to the store. -/
theorem statement_ok {f : σ → Except Failure (α × σ)} {s s' : Session σ γ} {a : α}
    (h : statement f s = (.ok a, s')) : f s.db = .ok (a, s'.db) ∧ s'.cache = s.cache := by
  unfold statement at h
  split at h
  · simp at h
  · rename_i s₁ ha
    obtain ⟨hdb, hc⟩ := engineAccepts_frame ha
    split at h
    · simp at h
    · rename_i b db hf
      simp only [Prod.mk.injEq, Except.ok.injEq] at h
      obtain ⟨rfl, rfl⟩ := h
      exact ⟨by rw [← hdb, hf], hc⟩

/-- One that fails does nothing to it. -/
theorem statement_error {f : σ → Except Failure (α × σ)} {s s' : Session σ γ} {e : Failure}
    (h : statement f s = (.error e, s')) :
    s'.db = s.db ∧ s'.cache = s.cache ∧ (e = .engine ∨ f s.db = .error e) := by
  unfold statement at h
  split at h
  · rename_i e' s₁ ha
    obtain ⟨hdb, hc⟩ := engineAccepts_frame ha
    simp only [Prod.mk.injEq, Except.error.injEq] at h
    obtain ⟨rfl, rfl⟩ := h
    refine ⟨hdb, hc, .inl ?_⟩
    unfold engineAccepts at ha
    split at ha <;> simp at ha
    exact ha.1.symm
  · rename_i s₁ ha
    obtain ⟨hdb, hc⟩ := engineAccepts_frame ha
    split at h
    · rename_i e' hf
      simp only [Prod.mk.injEq, Except.error.injEq] at h
      obtain ⟨rfl, rfl⟩ := h
      exact ⟨hdb, hc, .inr (by rw [← hdb, hf])⟩
    · simp at h

/-- An update that succeeds is applied. -/
theorem execute_ok {f : σ → σ} {s s' : Session σ γ} {u : Unit}
    (h : execute f s = (.ok u, s')) : s'.db = f s.db ∧ s'.cache = s.cache := by
  obtain ⟨hf, hc⟩ := statement_ok h
  simp only [Except.ok.injEq, Prod.mk.injEq, true_and] at hf
  exact ⟨hf.symm, hc⟩

/-- One that fails is not. -/
theorem execute_error {f : σ → σ} {s s' : Session σ γ} {e : Failure}
    (h : execute f s = (.error e, s')) : s'.db = s.db ∧ s'.cache = s.cache ∧ e = .engine := by
  obtain ⟨hdb, hc, he | he⟩ := statement_error h
  · exact ⟨hdb, hc, he⟩
  · cases he

/-- A query reads the store and changes nothing. -/
theorem query_ok {f : σ → α} {s s' : Session σ γ} {a : α}
    (h : query f s = (.ok a, s')) : a = f s.db ∧ s'.db = s.db ∧ s'.cache = s.cache := by
  obtain ⟨hf, hc⟩ := statement_ok h
  simp only [Except.ok.injEq, Prod.mk.injEq] at hf
  exact ⟨hf.1.symm, hf.2.symm, hc⟩

/-- Reading the cache changes nothing. -/
theorem readCache_ok {s s' : Session σ γ} {c : γ}
    (h : (readCache : Job σ γ γ) s = (.ok c, s')) : c = s.cache ∧ s' = s := by
  simp only [readCache, Prod.mk.injEq, Except.ok.injEq] at h
  exact ⟨h.1.symm, h.2.symm⟩

/-- Changing the cache leaves the store alone. -/
theorem modifyCache_ok {f : γ → γ} {s s' : Session σ γ} {u : Unit}
    (h : (modifyCache f : Job σ γ Unit) s = (.ok u, s')) :
    s'.db = s.db ∧ s'.cache = f s.cache := by
  simp only [modifyCache, Prod.mk.injEq] at h
  rw [← h.2]
  exact ⟨rfl, rfl⟩

/-- And it does not fail. -/
theorem modifyCache_ne_error {f : γ → γ} {s s' : Session σ γ} {e : Failure} :
    (modifyCache f : Job σ γ Unit) s ≠ (.error e, s') := by
  simp [modifyCache]

/-- A committed transaction is its body, started on the same store. -/
theorem transaction_ok {body : Job σ γ α} {s s' : Session σ γ} {a : α}
    (h : transaction body s = (.ok a, s')) :
    ∃ s₁ s₂, s₁.db = s.db ∧ s₁.cache = s.cache ∧ body s₁ = (.ok a, s₂) ∧
      s'.db = s₂.db ∧ s'.cache = s₂.cache := by
  unfold transaction at h
  split at h
  · simp at h
  · rename_i s₁ ha
    obtain ⟨hdb, hc⟩ := engineAccepts_frame ha
    split at h
    · simp at h
    · rename_i b s₂ hbody
      split at h
      · simp at h
      · rename_i s₃ hcommit
        obtain ⟨hdb', hc'⟩ := engineAccepts_frame hcommit
        simp only [Prod.mk.injEq, Except.ok.injEq] at h
        obtain ⟨rfl, rfl⟩ := h
        exact ⟨s₁, s₂, hdb, hc, hbody, hdb', hc'⟩

/-- A transaction that failed left the store as it was. -/
theorem transaction_error {body : Job σ γ α} {s s' : Session σ γ} {e : Failure}
    (h : transaction body s = (.error e, s')) : s'.db = s.db := by
  unfold transaction at h
  split at h
  · rename_i e' s₁ ha
    rw [Prod.mk.injEq] at h
    rw [← h.2]
    exact (engineAccepts_frame ha).1
  · split at h
    · rw [Prod.mk.injEq] at h
      rw [← h.2]
    · split at h
      · rw [Prod.mk.injEq] at h
        rw [← h.2]
      · simp at h

/-- A conditional job either ran or was not called for. -/
theorem onlyIf_ok {p : Prop} [Decidable p] {x : Job σ γ Unit} {s s' : Session σ γ} {u : Unit}
    (h : onlyIf p x s = (.ok u, s')) : (p ∧ x s = (.ok u, s')) ∨ (¬ p ∧ s' = s) := by
  unfold onlyIf at h
  split at h
  · exact .inl ⟨‹_›, h⟩
  · exact .inr ⟨‹_›, (pure_ok h).2⟩

/-- It fails only where it ran. -/
theorem onlyIf_error {p : Prop} [Decidable p] {x : Job σ γ Unit} {s s' : Session σ γ}
    {e : Failure} (h : onlyIf p x s = (.error e, s')) : p ∧ x s = (.error e, s') := by
  unfold onlyIf at h
  split at h
  · exact ⟨‹_›, h⟩
  · exact absurd h pure_ne_error

/-- A statement that only runs under a condition is a conditional statement. -/
theorem onlyIf_execute_ok {p : Prop} [Decidable p] {f : σ → σ} {s s' : Session σ γ} {u : Unit}
    (h : onlyIf p (execute f) s = (.ok u, s')) :
    s'.db = (if p then f s.db else s.db) ∧ s'.cache = s.cache := by
  rcases onlyIf_ok h with ⟨hp, hf⟩ | ⟨hp, rfl⟩
  · rw [if_pos hp]
    exact execute_ok hf
  · rw [if_neg hp]
    exact ⟨rfl, rfl⟩

/-- Statements one after another have the effect of their composition. -/
theorem executeAll_ok {fs : List (σ → σ)} {s s' : Session σ γ} {u : Unit}
    (h : executeAll fs s = (.ok u, s')) :
    s'.db = fs.foldl (fun db f => f db) s.db ∧ s'.cache = s.cache := by
  induction fs generalizing s with
  | nil =>
    rw [(pure_ok h).2]
    exact ⟨rfl, rfl⟩
  | cons f rest ih =>
    obtain ⟨_, s₁, hf, hrest⟩ := bind_ok h
    obtain ⟨hdb, hc⟩ := execute_ok hf
    obtain ⟨hdb', hc'⟩ := ih hrest
    rw [hdb] at hdb'
    exact ⟨hdb', hc'.trans hc⟩

/-- Deleting what may be there, inserting and recording it in the cache: when
the insert cannot be refused after that delete, only the engine stops it. -/
theorem replaceThen_cases {p : Prop} [Decidable p] {del : σ → σ}
    {ins : σ → Except Failure (Unit × σ)} {raise : γ → γ} {target : σ} {s s' : Session σ γ}
    {r : Except Failure Unit} (hins : ins (if p then del s.db else s.db) = .ok ((), target))
    (h : (do onlyIf p (execute del); statement ins; modifyCache raise : Job σ γ Unit) s = (r, s')) :
    (r = .error .engine ∧ s'.cache = s.cache) ∨
      (r = .ok () ∧ s'.db = target ∧ s'.cache = raise s.cache) := by
  cases r with
  | error e =>
    left
    rcases bind_error h with hdel | ⟨_, s₁, hdel, h⟩
    · obtain ⟨-, hc, he⟩ := execute_error (onlyIf_error hdel).2
      exact ⟨by rw [he], hc⟩
    · obtain ⟨hdb₁, hc₁⟩ := onlyIf_execute_ok hdel
      rcases bind_error h with hstmt | ⟨_, s₂, -, h⟩
      · obtain ⟨-, hc, he | he⟩ := statement_error hstmt
        · exact ⟨by rw [he], hc.trans hc₁⟩
        · rw [hdb₁, hins] at he
          cases he
      · exact absurd h modifyCache_ne_error
  | ok u =>
    right
    obtain ⟨_, s₁, hdel, h⟩ := bind_ok h
    obtain ⟨hdb₁, hc₁⟩ := onlyIf_execute_ok hdel
    obtain ⟨_, s₂, hstmt, h⟩ := bind_ok h
    obtain ⟨hstmt, hc₂⟩ := statement_ok hstmt
    obtain ⟨hdb₃, hc₃⟩ := modifyCache_ok h
    rw [hdb₁, hins] at hstmt
    simp only [Except.ok.injEq, Prod.mk.injEq, true_and] at hstmt
    exact ⟨rfl, by rw [hdb₃, ← hstmt], by rw [hc₃, hc₂, hc₁]⟩

/-! ## Programs that leave the cache alone -/

/-- The program never changes the cache, whether it succeeds or fails. -/
def CacheKept (x : Job σ γ α) : Prop := ∀ s, (x s).2.cache = s.cache

/-- Returning a value keeps the cache. -/
theorem CacheKept.pure (a : α) : CacheKept (Pure.pure a : Job σ γ α) := fun _ => rfl

/-- So does failing. -/
theorem CacheKept.fail (e : Failure) : CacheKept (Job.fail e : Job σ γ α) := fun _ => rfl

/-- So does a check. -/
theorem CacheKept.ensure (p : Prop) [Decidable p] (text : String) :
    CacheKept (Job.ensure p text : Job σ γ Unit) := by
  intro s
  unfold Job.ensure
  split <;> rfl

/-- So do two jobs that keep it, one after the other. -/
theorem CacheKept.bind {x : Job σ γ α} {f : α → Job σ γ β} (hx : CacheKept x)
    (hf : ∀ a, CacheKept (f a)) : CacheKept (x >>= f) := by
  intro s
  change (andThen x f s).2.cache = s.cache
  unfold andThen
  have h := hx s
  split
  · rename_i a s' he
    rw [he] at h
    exact (hf a s').trans h
  · rename_i e s' he
    rw [he] at h
    exact h

/-- So does a statement. -/
theorem CacheKept.statement (f : σ → Except Failure (α × σ)) :
    CacheKept (Job.statement f : Job σ γ α) := by
  intro s
  cases h : (Job.statement f s) with
  | mk r s' =>
    cases r with
    | ok a => exact (statement_ok h).2
    | error e => exact (statement_error h).2.1

/-- So does an update. -/
theorem CacheKept.execute (f : σ → σ) : CacheKept (Job.execute f : Job σ γ Unit) :=
  CacheKept.statement _

/-- So does a query. -/
theorem CacheKept.query (f : σ → α) : CacheKept (Job.query f : Job σ γ α) :=
  CacheKept.statement _

/-- So does a transaction of such a job. -/
theorem CacheKept.transaction {body : Job σ γ α} (hb : CacheKept body) :
    CacheKept (Job.transaction body) := by
  intro s
  unfold Job.transaction
  split
  · rename_i he
    exact (engineAccepts_frame he).2
  · rename_i s₁ he
    have h₁ := (engineAccepts_frame he).2
    have h₂ := hb s₁
    split
    · rename_i hbody
      rw [hbody] at h₂
      exact h₂.trans h₁
    · rename_i hbody
      rw [hbody] at h₂
      split
      · rename_i hcommit
        exact (engineAccepts_frame hcommit).2.trans (h₂.trans h₁)
      · rename_i hcommit
        exact (engineAccepts_frame hcommit).2.trans (h₂.trans h₁)

/-- So does reading it. -/
theorem CacheKept.readCache : CacheKept (Job.readCache : Job σ γ γ) := fun _ => rfl

/-- So does either of two jobs that keep it. -/
theorem CacheKept.ite (c : Prop) [Decidable c] {x y : Job σ γ α} (hx : CacheKept x)
    (hy : CacheKept y) : CacheKept (if c then x else y) := by
  split
  · exact hx
  · exact hy

/-- So do updates one after the other. -/
theorem CacheKept.executeAll (fs : List (σ → σ)) : CacheKept (Job.executeAll fs : Job σ γ Unit) := by
  induction fs with
  | nil => exact CacheKept.pure ()
  | cons f rest ih => exact (CacheKept.execute f).bind fun _ => ih

/-- The cache after a finished program that keeps it. -/
theorem CacheKept.eq {x : Job σ γ α} (hx : CacheKept x) {s s' : Session σ γ}
    {r : Except Failure α} (h : x s = (r, s')) : s'.cache = s.cache := by
  have hk := hx s
  rwa [h] at hk

/-! ## Relations between store and cache that survive every outcome -/

/-- Wherever the program breaks off, the relation still holds. -/
def Preserves (P : σ → γ → Prop) (x : Job σ γ α) : Prop :=
  ∀ s, P s.db s.cache → P (x s).2.db (x s).2.cache

/-- The invariant afterwards, from a run of the job. -/
theorem Preserves.apply {P : σ → γ → Prop} {x : Job σ γ α} (hx : Preserves P x)
    {s s' : Session σ γ} {r : Except Failure α} (h : x s = (r, s')) (hs : P s.db s.cache) :
    P s'.db s'.cache := by
  have hp := hx s hs
  rwa [h] at hp

/-- Returning a value keeps the invariant. -/
theorem Preserves.pure {P : σ → γ → Prop} (a : α) : Preserves P (Pure.pure a : Job σ γ α) :=
  fun _ hs => hs

/-- So does failing. -/
theorem Preserves.fail {P : σ → γ → Prop} (e : Failure) : Preserves P (Job.fail e : Job σ γ α) :=
  fun _ hs => hs

/-- So does a check. -/
theorem Preserves.ensure {P : σ → γ → Prop} (p : Prop) [Decidable p] (text : String) :
    Preserves P (Job.ensure p text : Job σ γ Unit) := by
  intro s hs
  unfold Job.ensure
  split <;> exact hs

/-- So do two jobs that keep it, one after the other. -/
theorem Preserves.bind {P : σ → γ → Prop} {x : Job σ γ α} {f : α → Job σ γ β}
    (hx : Preserves P x) (hf : ∀ a, Preserves P (f a)) : Preserves P (x >>= f) := by
  intro s hs
  change P (andThen x f s).2.db (andThen x f s).2.cache
  have h := hx s hs
  unfold andThen
  split
  · rename_i a s' he
    rw [he] at h
    exact hf a s' h
  · rename_i e s' he
    rw [he] at h
    exact h

/-- One statement is judged by its effect on the store. -/
theorem Preserves.statement {P : σ → γ → Prop} {f : σ → Except Failure (α × σ)}
    (hf : ∀ db a db' g, f db = .ok (a, db') → P db g → P db' g) :
    Preserves P (Job.statement f : Job σ γ α) := by
  intro s hs
  cases h : (Job.statement f s) with
  | mk r s' =>
    cases r with
    | ok a =>
      obtain ⟨hdb, hc⟩ := statement_ok h
      rw [hc]
      exact hf _ _ _ _ hdb hs
    | error e =>
      obtain ⟨hdb, hc, -⟩ := statement_error h
      rw [hdb, hc]
      exact hs

/-- So does an update of the store that keeps it. -/
theorem Preserves.execute {P : σ → γ → Prop} {f : σ → σ} (hf : ∀ db g, P db g → P (f db) g) :
    Preserves P (Job.execute f : Job σ γ Unit) := by
  refine Preserves.statement ?_
  intro db u db' g h hs
  cases h
  exact hf db g hs

/-- So does a query. -/
theorem Preserves.query {P : σ → γ → Prop} (f : σ → α) : Preserves P (Job.query f : Job σ γ α) := by
  refine Preserves.statement ?_
  intro db a db' g h hs
  cases h
  exact hs

/-- So does reading the cache. -/
theorem Preserves.readCache {P : σ → γ → Prop} : Preserves P (Job.readCache : Job σ γ γ) :=
  fun _ hs => hs

/-- So does either of two jobs that keep it. -/
theorem Preserves.ite {P : σ → γ → Prop} (c : Prop) [Decidable c] {x y : Job σ γ α}
    (hx : Preserves P x) (hy : Preserves P y) : Preserves P (if c then x else y) := by
  split
  · exact hx
  · exact hy

/-- A transaction is judged by a run of its body that succeeds. -/
theorem Preserves.commitThen {P : σ → γ → Prop} {body : Job σ γ α} {f : α → γ → γ}
    (hkept : CacheKept body)
    (hbody : ∀ s a s', body s = (.ok a, s') → P s.db s.cache → P s'.db (f a s.cache)) :
    Preserves P (Job.commitThen body f) := by
  intro s hs
  cases h : (Job.commitThen body f s) with
  | mk r s' =>
    cases r with
    | ok a =>
      obtain ⟨b, s₁, htx, hrest⟩ := bind_ok h
      obtain ⟨_, s₂, hmod, hpure⟩ := bind_ok hrest
      obtain ⟨s₃, s₄, hdb, hc, hrun, hdb', hc'⟩ := transaction_ok htx
      obtain ⟨hmdb, hmc⟩ := modifyCache_ok hmod
      have hk := hkept.eq hrun
      rw [(pure_ok hpure).2, hmdb, hmc, hdb', hc', hk]
      refine hbody s₃ b s₄ hrun ?_
      rw [hdb, hc]
      exact hs
    | error e =>
      rcases bind_error h with htx | ⟨b, s₁, -, hrest⟩
      · have hk := (CacheKept.transaction hkept).eq htx
        change P s'.db s'.cache
        rw [transaction_error htx, hk]
        exact hs
      · rcases bind_error hrest with hmod | ⟨_, s₂, -, hpure⟩
        · exact absurd hmod modifyCache_ne_error
        · exact absurd hpure pure_ne_error

/-- A transaction need only keep it where it commits. -/
theorem Preserves.transaction {P : σ → γ → Prop} {body : Job σ γ α} (hkept : CacheKept body)
    (hbody : ∀ s a s', body s = (.ok a, s') → P s.db s.cache → P s'.db s.cache) :
    Preserves P (Job.transaction body) := by
  intro s hs
  cases h : (Job.transaction body s) with
  | mk r s' =>
    have hk := (CacheKept.transaction hkept).eq h
    change P s'.db s'.cache
    rw [hk]
    cases r with
    | ok a =>
      obtain ⟨s₁, s₂, hdb, hc, hrun, hdb', -⟩ := transaction_ok h
      rw [hdb', ← hc]
      refine hbody s₁ a s₂ hrun ?_
      rw [hdb, hc]
      exact hs
    | error e =>
      rw [transaction_error h]
      exact hs

/-! ## Properties of the store alone -/

/-- Wherever the program breaks off, the store still has the property. -/
abbrev Keeps (Q : σ → Prop) (x : Job σ γ α) : Prop := Preserves (fun db _ => Q db) x

/-- What is true of the store alone is not the cache's matter. -/
theorem Keeps.modifyCache {Q : σ → Prop} (f : γ → γ) :
    Keeps Q (Job.modifyCache f : Job σ γ Unit) := fun _ hs => hs

/-- A transaction keeps it when its body does. -/
theorem Keeps.transaction {Q : σ → Prop} {body : Job σ γ α} (hb : Keeps Q body) :
    Keeps Q (Job.transaction body) := by
  intro s hs
  cases h : (Job.transaction body s) with
  | mk r s' =>
    cases r with
    | ok a =>
      obtain ⟨s₁, s₂, hdb, -, hrun, hdb', -⟩ := transaction_ok h
      change Q s'.db
      rw [hdb']
      exact hb.apply hrun (by rwa [hdb])
    | error e =>
      change Q s'.db
      rwa [transaction_error h]

/-- And so it does when the cache is changed after the commit. -/
theorem Keeps.commitThen {Q : σ → Prop} {body : Job σ γ α} (hb : Keeps Q body) (f : α → γ → γ) :
    Keeps Q (Job.commitThen body f) :=
  (Keeps.transaction hb).bind fun a => (Keeps.modifyCache (f a)).bind fun _ => Preserves.pure a

/-- Updates that keep it do so one after the other. -/
theorem Keeps.executeAll {Q : σ → Prop} {fs : List (σ → σ)} (hf : ∀ f ∈ fs, ∀ db, Q db → Q (f db)) :
    Keeps Q (Job.executeAll fs : Job σ γ Unit) := by
  induction fs with
  | nil => exact Preserves.pure ()
  | cons f rest ih =>
    exact (Preserves.execute fun db _ => hf f List.mem_cons_self db).bind
      fun _ => ih fun g hg => hf g (List.mem_cons_of_mem f hg)

/-! ## Programs the engine does not refuse -/

/-- With no refusal ahead the program meets none. -/
def Steady (x : Job σ γ α) : Prop :=
  ∀ s, s.refusals = [] → (x s).2.refusals = [] ∧ (x s).1 ≠ .error .engine

/-- Returning a value meets no refusal. -/
theorem Steady.pure (a : α) : Steady (Pure.pure a : Job σ γ α) := fun _ hs => ⟨hs, nofun⟩

/-- So does reading the cache. -/
theorem Steady.readCache : Steady (Job.readCache : Job σ γ γ) := fun _ hs => ⟨hs, nofun⟩

/-- So does changing it. -/
theorem Steady.modifyCache (f : γ → γ) : Steady (Job.modifyCache f : Job σ γ Unit) :=
  fun _ hs => ⟨hs, nofun⟩

/-- So do two such jobs, one after the other. -/
theorem Steady.bind {x : Job σ γ α} {f : α → Job σ γ β} (hx : Steady x)
    (hf : ∀ a, Steady (f a)) : Steady (x >>= f) := by
  intro s hs
  change (andThen x f s).2.refusals = [] ∧ (andThen x f s).1 ≠ .error .engine
  obtain ⟨hnext, hok⟩ := hx s hs
  unfold andThen
  split
  · rename_i a s' he
    rw [he] at hnext
    exact hf a s' hnext
  · rename_i e s' he
    rw [he] at hnext hok
    refine ⟨hnext, ?_⟩
    intro h
    rw [Except.error.injEq] at h
    exact hok (by rw [h])

/-- A statement whose own errors are not the engine's. -/
theorem Steady.statement {f : σ → Except Failure (α × σ)} (hf : ∀ db, f db ≠ .error .engine) :
    Steady (Job.statement f : Job σ γ α) := by
  intro s hs
  have haccept : engineAccepts s = (.ok (), s) := by
    unfold engineAccepts
    rw [hs]
  unfold Job.statement
  rw [haccept]
  dsimp only
  cases h : f s.db with
  | error e =>
    refine ⟨hs, ?_⟩
    intro he
    rw [Except.error.injEq] at he
    exact hf s.db (by rw [h, he])
  | ok r => exact ⟨hs, nofun⟩

/-- So does an update where none is ahead. -/
theorem Steady.execute (f : σ → σ) : Steady (Job.execute f : Job σ γ Unit) :=
  Steady.statement fun _ => nofun

/-- So does either of two such jobs. -/
theorem Steady.ite (c : Prop) [Decidable c] {x y : Job σ γ α} (hx : Steady x) (hy : Steady y) :
    Steady (if c then x else y) := by
  split
  · exact hx
  · exact hy

/-- So does such a job where it is called for. -/
theorem Steady.onlyIf (p : Prop) [Decidable p] {x : Job σ γ Unit} (hx : Steady x) :
    Steady (Job.onlyIf p x) := Steady.ite p hx (Steady.pure ())

end Job

/-! ## Bodies: a job with its refusals fixed -/

/-- What the writer executes: a function of the store and the cache. -/
def Body (σ γ π : Type) : Type := σ → γ → Except Failure π × σ × γ

/-- Fixes the engine's answers to a job's statements. -/
def Job.body {σ γ π : Type} (x : Job σ γ π) (refusals : List Bool) : Body σ γ π := fun db cache =>
  let r := x ⟨db, cache, refusals⟩
  (r.1, r.2.db, r.2.cache)

end Romi.CachedTransactions
