import Romi.ThrottledRequests

/-!
# The throttle bounds guesses that do not crowd

What the throttle has seen of an address is the running part of its last
window. As long as a request is let through only where there is room for it,
no window holds more failures than the throttle allows. Nothing in the
handlers sees to that: any number of requests can be let through together, and
all of them are then checked.
-/

namespace Romi.ThrottleBounds

open FailureWindows ThrottledRequests
open SignInSteps (LoginBody maxAttempts passwordChecks)
open RegistrationSteps (Answer Asking closesAt)

/-! ## The throttle and the windows -/

/-- The throttle has seen the running windows. -/
structure Counted (d : Door) : Prop where
  /-- The attempts remembered of an address are live. -/
  seen : ∀ ip, live d.throttle.limit d.now (d.throttle.seen ip)
    = live d.throttle.limit d.now (window d.throttle.limit ip d.log)

/-- Asking keeps the window's length. -/
@[simp] theorem locked_window (t : Throttle) (ip : String) (now : Int) :
    (t.locked ip now).2.limit = t.limit := by
  simp only [Throttle.locked]
  split
  · split <;> rfl
  · rfl

/-- Asking forgets only what no longer runs. -/
theorem locked_seen (t : Throttle) (ip a : String) (now : Int) :
    live t.limit now ((t.locked ip now).2.seen a) = live t.limit now (t.seen a) := by
  simp only [Throttle.locked]
  split
  · rename_i n since hseen
    split
    · rfl
    · rename_i hover
      by_cases ha : a = ip
      · subst ha
        have hlimit : ¬ now - since < t.limit.window := hover
        simp [live, Option.filter, hseen, hlimit]
      · simp [Function.update_of_ne ha]
  · rfl

/-- An address is locked when its running window is full. -/
theorem locked_iff (t : Throttle) (ip : String) (now : Int) :
    (t.locked ip now).1 = true ↔ maxAttempts ≤ count t.limit now (t.seen ip) := by
  have hzero : ¬ maxAttempts ≤ 0 := by decide
  simp only [Throttle.locked]
  split
  · rename_i n since hseen
    split
    · rename_i hruns
      have hlimit : now - since < t.limit.window := hruns
      simp [count, live, Option.filter, hseen, hlimit]
    · rename_i hover
      have hlimit : ¬ now - since < t.limit.window := hover
      simp [count, live, Option.filter, hseen, hlimit, hzero]
  · rename_i hseen
    simp [count, live, hseen, hzero]

/-- Asking leaves the rest as it was. -/
theorem Counted.asked {d : Door} (h : Counted d) (ip : String) : Counted (d.asked ip) := by
  refine ⟨fun a => ?_⟩
  show live (d.throttle.locked ip d.now).2.limit d.now ((d.throttle.locked ip d.now).2.seen a)
    = live (d.throttle.locked ip d.now).2.limit d.now
      (window (d.throttle.locked ip d.now).2.limit a d.log)
  rw [locked_window, locked_seen]
  exact h.seen a

/-- A comparison is not a failure yet. -/
theorem Counted.compared {d : Door} (h : Counted d) (ip : String) : Counted (d.compared ip) :=
  ⟨h.seen⟩

/-- A failure is one more in the running window. -/
theorem Counted.missed {d : Door} (h : Counted d) (ip : String) : Counted (d.missed ip) := by
  refine ⟨fun a => ?_⟩
  show live d.throttle.limit d.now ((d.throttle.recordFailure ip d.now).seen a)
    = live d.throttle.limit d.now (window d.throttle.limit a (.failed ip d.now :: d.log))
  by_cases ha : a = ip
  · subst ha
    have hseen : (d.throttle.recordFailure a d.now).seen a
        = some (miss d.throttle.limit d.now (d.throttle.seen a)) := by
      dsimp only [Throttle.recordFailure]
      rw [Function.update_self]
      rfl
    rw [hseen, window, if_pos rfl, miss_congr (h.seen a)]
  · have hseen : (d.throttle.recordFailure ip d.now).seen a
        = live d.throttle.limit d.now (d.throttle.seen a) := by
      dsimp only [Throttle.recordFailure]
      rw [Function.update_of_ne ha]
      rfl
    rw [hseen, live_live _ (Int.le_refl _), window, if_neg (Ne.symm ha)]
    exact h.seen a

/-- A success ends the window. -/
theorem Counted.forgiven {d : Door} (h : Counted d) (ip : String) : Counted (d.forgiven ip) := by
  refine ⟨fun a => ?_⟩
  show live d.throttle.limit d.now ((d.throttle.clear ip).seen a)
    = live d.throttle.limit d.now (window d.throttle.limit a (.succeeded ip d.now :: d.log))
  by_cases ha : a = ip
  · subst ha
    simp [Throttle.clear, window]
  · simp only [Throttle.clear, Function.update_of_ne ha, window, if_neg (Ne.symm ha)]
    exact h.seen a

/-- Windows that agree go on to. -/
theorem Counted.later {d : Door} (h : Counted d) (n : Nat) : Counted (d.later n) := by
  have hle : d.now ≤ d.now + n := by omega
  refine ⟨fun a => ?_⟩
  show live d.throttle.limit (d.now + n) (d.throttle.seen a)
    = live d.throttle.limit (d.now + n) (window d.throttle.limit a d.log)
  rw [← live_live _ hle, h.seen a, live_live _ hle]

/-! ## Room -/

/-- A door as attempts on it, with those inside. -/
def attempts (d : Door) (inside : List String) : FailureWindows.State String := ⟨d.now, inside, d.log⟩

/-- The throttle counts right, and there has been room for everybody. -/
structure Sound (d : Door) (inside : List String) : Prop where
  /-- The throttle counts what it should. -/
  counted : Counted d
  /-- And keeps to its limit, those inside included. -/
  kept : Kept d.throttle.limit (attempts d inside)

/-- A door nobody has come to. -/
theorem Sound.start (now length : Int) : Sound ⟨now, .new length, []⟩ [] :=
  ⟨⟨fun _ => rfl⟩, .start _ now⟩

/-- A door is shut when the last window is running and full. -/
theorem Sound.shut_iff {d : Door} {inside : List String} (h : Sound d inside) (ip : String) :
    d.shut ip = true ↔
      maxAttempts ≤ count d.throttle.limit d.now (window d.throttle.limit ip d.log) := by
  rw [← count_congr (h.counted.seen ip)]
  exact locked_iff d.throttle ip d.now

/-- What the throttle does for a door and those inside. -/
structure Guarded (d : Door) (inside : List String) : Prop where
  /-- No window holds more failures than are allowed, and nothing is checked in a full one. -/
  bounded : Bounded d.throttle.limit d.log
  /-- An address is refused exactly while its last window is running and full. -/
  shut : ∀ ip, d.shut ip = true ↔
    maxAttempts ≤ count d.throttle.limit d.now (window d.throttle.limit ip d.log)
  /-- There is room for a request that is not refused and the only one of its address. -/
  alone : ∀ ip, ip ∉ inside → d.shut ip = false → d.Room inside ip

/-- A sound door is guarded. -/
theorem Sound.guarded {d : Door} {inside : List String} (h : Sound d inside) :
    Guarded d inside := by
  refine ⟨h.kept.bounded, h.shut_iff, fun ip hout hopen => ?_⟩
  have hfree : ¬ maxAttempts ≤ count d.throttle.limit d.now (d.throttle.seen ip) := by
    rw [count_congr (h.counted.seen ip), ← h.shut_iff, hopen]
    exact Bool.false_ne_true
  rw [Door.Room, List.count_eq_zero_of_not_mem hout]
  omega

/-- Asking changes nobody's room. -/
theorem Sound.asked {d : Door} {inside : List String} (h : Sound d inside) (ip : String) :
    Sound (d.asked ip) inside := by
  refine ⟨h.counted.asked ip, ?_⟩
  show Kept (d.throttle.locked ip d.now).2.limit (attempts d inside)
  rw [locked_window]
  exact h.kept

/-- One is let through where there is room. -/
theorem Sound.through {d : Door} {inside : List String} (h : Sound d inside) {ip : String}
    (hroom : d.Room inside ip) : Sound (d.asked ip) (ip :: inside) := by
  have hcount := count_congr (h.counted.seen ip)
  rw [Door.Room, hcount] at hroom
  have hfree : (attempts d inside).Room d.throttle.limit ip := by
    show _ + Multiset.count ip (inside : Multiset String) < maxAttempts
    rw [Multiset.coe_count]
    exact hroom
  exact Sound.asked ⟨h.counted, h.kept.step (.entered ip hfree)⟩ ip

/-- One goes away. -/
theorem Sound.left {d : Door} {inside : List String} {ip : String} (h : Sound d (ip :: inside)) :
    Sound d inside :=
  ⟨h.counted, h.kept.step (.left ip inside rfl)⟩

/-- The credential of one that was let through is compared. -/
theorem Sound.compared {d : Door} {inside : List String} {ip : String}
    (h : Sound d (ip :: inside)) : Sound (d.compared ip) (ip :: inside) :=
  ⟨h.counted.compared ip, h.kept.step (.checked ip (Multiset.mem_cons_self ip inside))⟩

/-- One that was let through has failed. -/
theorem Sound.missed {d : Door} {inside : List String} {ip : String}
    (h : Sound d (ip :: inside)) : Sound (d.missed ip) inside :=
  ⟨h.counted.missed ip, h.kept.step (.failed ip inside rfl)⟩

/-- One that was let through has succeeded. -/
theorem Sound.forgiven {d : Door} {inside : List String} {ip : String}
    (h : Sound d (ip :: inside)) : Sound (d.forgiven ip) inside :=
  ⟨h.counted.forgiven ip, h.kept.step (.succeeded ip inside rfl)⟩

/-- Time makes room. -/
theorem Sound.later {d : Door} {inside : List String} (h : Sound d inside) (n : Nat) :
    Sound (d.later n) inside :=
  ⟨h.counted.later n, h.kept.step (.tick n)⟩

/-- Only who is inside matters. -/
theorem Sound.perm {d : Door} {inside inside' : List String} (h : Sound d inside)
    (hperm : inside.Perm inside') : Sound d inside' := by
  refine ⟨h.counted, ?_⟩
  have hsame : attempts d inside' = attempts d inside := by
    simp only [attempts, Multiset.coe_eq_coe.2 hperm]
  rw [hsame]
  exact h.kept

/-- One of several, before the others. -/
theorem inside_perm {α : Type} (inside : α → Option String) (before after : List α) (r : α) :
    ((before ++ r :: after).filterMap inside).Perm
      ((inside r).toList ++ (before ++ after).filterMap inside) := by
  cases hr : inside r with
  | none => simp [List.filterMap_append, hr]
  | some ip =>
    simp only [List.filterMap_append, List.filterMap_cons, hr, Option.toList_some]
    exact List.perm_middle

/-! ## The handlers -/

/-- A move of a sign-in that is let through only where there is room. -/
theorem login_move {verifyPassword : String → String → Bool} {s s' : LoginState} {r r' : Login}
    {others : List String} (hmove : LoginMove verifyPassword s r r' s')
    (h : Sound s.toDoor (r.inside.toList ++ others))
    (hroom : ∀ body ip, r = .arrived body ip → r' = .through body ip →
      s.toDoor.Room others ip) : Sound s'.toDoor (r'.inside.toList ++ others) := by
  cases hmove with
  | locked body ip hshut => exact h.asked ip
  | through body ip hopen => exact Sound.through h (hroom body ip rfl rfl)
  | busy body ip hgate => exact h.left
  | permitted body ip hgate => exact h
  | disabled body ip hhash => exact h.left
  | hashed body ip stored hhash => exact h
  | wrong body ip stored hwrong => exact h.compared
  | right body ip stored hright hsame => exact h.compared
  | missed ip => exact h.missed
  | cleared ip => exact h.forgiven
  | answered ok => exact h

/-- A step of signing in keeps the door sound. -/
theorem login_step {verifyPassword : String → String → Bool} {s s' : LoginState}
    (hstep : LoginStep verifyPassword Door.Room s s') (h : Sound s.toDoor s.inside) :
    Sound s'.toDoor s'.inside := by
  cases hstep with
  | arrived body ip => exact h
  | moved before after r r' s' hat hmove hallowed =>
    have hinside : s.inside = (before ++ r :: after).filterMap Login.inside := by
      rw [LoginState.inside, hat]
    rw [hinside] at h hallowed
    have hmoved := login_move hmove (h.perm (inside_perm Login.inside before after r))
      fun body ip hr hr' => by
        have hroom := hallowed body ip hr hr'
        rw [hr, List.filterMap_append, List.filterMap_cons_none rfl, ← List.filterMap_append] at hroom
        exact hroom
    exact hmoved.perm (inside_perm Login.inside before after r').symm
  | tick n => exact h.later n
  | proving hgate => exact h
  | proven hpatch => exact h
  | changed hash account => exact h

/-- A move of a registration that is let through only where there is room. -/
theorem registration_move {s s' : RegistrationState} {r r' : Registration} {others : List String}
    (hmove : RegistrationMove s r r' s') (h : Sound s.toDoor (r.inside.toList ++ others))
    (hroom : ∀ a, r = .arrived a → r' = .through a → s.toDoor.Room others a.ip) :
    Sound s'.toDoor (r'.inside.toList ++ others) := by
  cases hmove with
  | locked a hshut => exact h.asked a.ip
  | through a hopen => exact Sound.through h (hroom a rfl rfl)
  | halfRead a => exact h
  | read a closes => exact h
  | closed a closes key hclosed => exact h.left
  | wrong a closes key k hopen hwrong => exact h.compared
  | cleared a closes key k hopen hright => exact h.compared
  | missed a => exact h.missed
  | created a token => exact h.forgiven
  | refused a answer hanswer => exact h.left
  | broke a r hat =>
    obtain rfl | ⟨closes, rfl⟩ := hat
    · exact h.left
    · exact h.left
  | gone a r hat =>
    obtain rfl | ⟨closes, rfl⟩ | rfl := hat
    · exact h.left
    · exact h.left
    · exact h.left

/-- A step of registering keeps the door sound. -/
theorem registration_step {s s' : RegistrationState}
    (hstep : RegistrationStep Door.Room s s') (h : Sound s.toDoor s.inside) :
    Sound s'.toDoor s'.inside := by
  cases hstep with
  | arrived a => exact h
  | moved before after r r' s' hat hmove hallowed =>
    have hinside : s.inside = (before ++ r :: after).filterMap Registration.inside := by
      rw [RegistrationState.inside, hat]
    rw [hinside] at h hallowed
    have hmoved := registration_move hmove (h.perm (inside_perm Registration.inside before after r))
      fun a hr hr' => by
        have hroom := hallowed a hr hr'
        rw [hr, List.filterMap_append, List.filterMap_cons_none rfl, ← List.filterMap_append] at hroom
        exact hroom
    exact hmoved.perm (inside_perm Registration.inside before after r').symm
  | tick n => exact h.later n
  | dated clock => exact h
  | changed until_ key => exact h

/-- Signing in is sound in every state of a run with room. -/
theorem login_sound {verifyPassword : String → String → Bool} {s : LoginState}
    (h : LoginReachable verifyPassword Door.Room s) : Sound s.toDoor s.inside := by
  induction h with
  | start now window hash account => exact .start now window
  | step h hstep ih => exact login_step hstep ih

/-- Registering is sound in every state of a run with room. -/
theorem registration_sound {s : RegistrationState} (h : RegistrationReachable Door.Room s) :
    Sound s.toDoor s.inside := by
  induction h with
  | start now window clock until_ key => exact .start now window
  | step h hstep ih => exact registration_step hstep ih

/-! ## Runs with room -/

/-- A sign-in with a wrong password that was let through is checked, and counts. -/
theorem login_fails {verifyPassword : String → String → Bool}
    {allowed : Door → List String → String → Prop} {s : LoginState} {body : LoginBody} {ip stored : String}
    {before after : List Login}
    (h : LoginReachable verifyPassword allowed s)
    (hat : s.requests = before ++ .through body ip :: after) (hgate : 0 < s.gate)
    (hhash : s.hash = some stored) (hwrong : verifyPassword body.password stored = false) :
    LoginReachable verifyPassword allowed { s with
      toDoor := (s.compared ip).missed ip, gate := s.gate - 1 + 1,
      requests := before ++ .answered false :: after } := by
  have h₁ := h.step (.moved before after _ _ _ hat (.permitted body ip hgate) fun _ _ hr => nomatch hr)
  have h₂ := h₁.step (.moved before after _ _ _ rfl (.hashed body ip stored hhash)
    fun _ _ hr => nomatch hr)
  have h₃ := h₂.step (.moved before after _ _ _ rfl (.wrong body ip stored (.inl hwrong))
    fun _ _ hr => nomatch hr)
  have h₄ := h₃.step (.moved before after _ _ _ rfl (.missed ip) fun _ _ hr => nomatch hr)
  exact h₄.step (.moved before after _ _ _ rfl (.answered false) fun _ _ hr => nomatch hr)

/-- A registration with a wrong key that was let through is checked, and counts. -/
theorem registration_fails {allowed : Door → List String → String → Prop}
    {s : RegistrationState} {a : Asking} {k : String} {before after : List Registration} (h : RegistrationReachable allowed s)
    (hat : s.requests = before ++ .through a :: after)
    (hopen : RegistrationSteps.open? s.key (closesAt s.until_) s.clock = some k)
    (hwrong : a.bearer ≠ some k) :
    RegistrationReachable allowed { s with
      toDoor := (s.compared a.ip).missed a.ip,
      requests := before ++ .answered .closed :: after } := by
  have h₁ := h.step (.moved before after _ _ _ hat (.halfRead a) fun _ hr => nomatch hr)
  have h₂ := h₁.step (.moved before after _ _ _ rfl (.read a _) fun _ hr => nomatch hr)
  have h₃ := h₂.step (.moved before after _ _ _ rfl (.wrong a _ _ k hopen hwrong)
    fun _ hr => nomatch hr)
  exact h₃.step (.moved before after _ _ _ rfl (.missed a) fun _ hr => nomatch hr)

/-- Where requests are let through only while there is room, the throttle bounds the guesses
and refuses the others; and there always is room for requests that come one at a time. -/
theorem guesses_bounded {verifyPassword : String → String → Bool} {s : LoginState}
    {t : RegistrationState} (hs : LoginReachable verifyPassword Door.Room s)
    (ht : RegistrationReachable Door.Room t) :
    Guarded s.toDoor s.inside ∧ Guarded t.toDoor t.inside :=
  ⟨(login_sound hs).guarded, (registration_sound ht).guarded⟩

/-! ## One guess after another -/

/-- The door after so many failures of one address at one moment. -/
def failedTimes (ip : String) : Nat → Door
  | 0 => ⟨0, .new 900, []⟩
  | k + 1 => ((failedTimes ip k).compared ip).missed ip

/-- No time has passed. -/
theorem failedTimes_now (ip : String) (k : Nat) : (failedTimes ip k).now = 0 := by
  induction k with
  | zero => rfl
  | succ k ih => exact ih

/-- The window is as long as before. -/
theorem failedTimes_limit (ip : String) (k : Nat) :
    (failedTimes ip k).throttle.limit = ⟨maxAttempts, 900⟩ := by
  induction k with
  | zero => rfl
  | succ k ih => exact ih

/-- All these failures are in one window. -/
theorem failedTimes_window (ip : String) (k : Nat) :
    window ⟨maxAttempts, 900⟩ ip (failedTimes ip (k + 1)).log = some (k + 1, 0) := by
  induction k with
  | zero => rw [failedTimes]; simp [Door.missed, Door.compared, failedTimes, window, miss, live]
  | succ k ih =>
    have hlog : (failedTimes ip (k + 2)).log
        = .failed ip 0 :: .checked ip 0 :: (failedTimes ip (k + 1)).log := by
      rw [failedTimes]
      simp [Door.missed, Door.compared, failedTimes_now]
    rw [hlog, window, if_pos rfl, window, ih]
    simp [miss, live, Option.filter]

/-- What the throttle remembers of them. -/
theorem failedTimes_seen (ip : String) (k : Nat) :
    (failedTimes ip (k + 1)).throttle.seen ip = some (k + 1, 0) := by
  induction k with
  | zero =>
    simp [failedTimes, Door.missed, Door.compared, Throttle.recordFailure, Throttle.new]
  | succ k ih =>
    have hnow := failedTimes_now ip (k + 1)
    have hwindow : (failedTimes ip (k + 1)).throttle.window = 900 :=
      congrArg Limit.window (failedTimes_limit ip (k + 1))
    change ((failedTimes ip (k + 1)).throttle.recordFailure ip (failedTimes ip (k + 1)).now).seen ip
      = some (k + 2, 0)
    simp [Throttle.recordFailure, Option.filter, ih, hnow, hwindow]

/-- Asking changes nothing while the window runs. -/
theorem failedTimes_asked (ip : String) (k : Nat) : (failedTimes ip k).asked ip = failedTimes ip k := by
  cases k with
  | zero => rfl
  | succ k =>
    have hwindow : (failedTimes ip (k + 1)).throttle.window = 900 :=
      congrArg Limit.window (failedTimes_limit ip (k + 1))
    have hlocked : (failedTimes ip (k + 1)).throttle.locked ip (failedTimes ip (k + 1)).now =
        (decide (maxAttempts ≤ k + 1), (failedTimes ip (k + 1)).throttle) := by
      rw [Throttle.locked, failedTimes_seen]
      simp [failedTimes_now, hwindow]
    rw [Door.asked, hlocked]

/-- Each of them counts. -/
theorem failedTimes_count (ip : String) (k : Nat) :
    count (failedTimes ip k).throttle.limit (failedTimes ip k).now
      (window (failedTimes ip k).throttle.limit ip (failedTimes ip k).log) = k := by
  rw [failedTimes_limit, failedTimes_now]
  cases k with
  | zero => rfl
  | succ k =>
    rw [failedTimes_window]
    simp [count, live, Option.filter]

/-- The next request of the address is let through while they are fewer than the limit. -/
theorem failedTimes_open {ip : String} {k : Nat} (h : Sound (failedTimes ip k) []) (hk : k < maxAttempts) :
    (failedTimes ip k).shut ip = false ∧ (failedTimes ip k).Room [] ip := by
  have hopen : (failedTimes ip k).shut ip = false := by
    rw [← Bool.not_eq_true, h.shut_iff, failedTimes_count]
    omega
  exact ⟨hopen, h.guarded.alone ip List.not_mem_nil hopen⟩

/-- As many sign-ins with a wrong password as the limit says, one after another. -/
theorem login_turns (verifyPassword : String → String → Bool) (body : LoginBody)
    (ip stored : String) (hwrong : verifyPassword body.password stored = false) {k : Nat}
    (hk : k ≤ maxAttempts) :
    LoginReachable verifyPassword Door.Room { LoginState.start 0 900 (some stored) none with
      toDoor := failedTimes ip k
      requests := List.replicate k (.answered false) } := by
  induction k with
  | zero => exact .start 0 900 (some stored) none
  | succ k ih =>
    have hbefore := ih (Nat.le_of_succ_le hk)
    have hnobody : (List.replicate k (Login.answered false)).filterMap Login.inside = [] := by
      simp [Login.inside]
    have hsound : Sound (failedTimes ip k) [] := hnobody ▸ login_sound hbefore
    obtain ⟨hopen, hroom⟩ := failedTimes_open hsound hk
    have hthrough := (hbefore.step (.arrived body ip)).step
      (.moved [] _ _ _ _ rfl (.through body ip hopen) fun _ _ hr hr' => by
        cases hr
        change Door.Room (failedTimes ip k)
          (List.filterMap Login.inside (.arrived body ip :: List.replicate k _)) ip
        rw [List.filterMap_cons_none rfl, hnobody]
        exact hroom)
    have hfails := login_fails hthrough (show _ = [] ++ Login.through body ip :: _ from rfl)
      Nat.one_pos rfl hwrong
    change LoginReachable verifyPassword Door.Room { LoginState.start 0 900 (some stored) none with
      toDoor := (((failedTimes ip k).asked ip).compared ip).missed ip
      requests := _ } at hfails
    rw [failedTimes_asked] at hfails
    exact hfails

/-- As many registrations with a wrong key, one after another. -/
theorem registration_turns (until_ key : Option String) (clock : Nat) (a : Asking) (k : String)
    (hopen : RegistrationSteps.open? key (closesAt until_) clock = some k)
    (hwrong : a.bearer ≠ some k) {n : Nat} (hn : n ≤ maxAttempts) :
    RegistrationReachable Door.Room { RegistrationState.start 0 900 clock until_ key with
      toDoor := failedTimes a.ip n
      requests := List.replicate n (.answered .closed) } := by
  induction n with
  | zero => exact .start 0 900 clock until_ key
  | succ n ih =>
    have hbefore := ih (Nat.le_of_succ_le hn)
    have hnobody : (List.replicate n (Registration.answered .closed)).filterMap
        Registration.inside = [] := by
      simp [Registration.inside]
    have hsound : Sound (failedTimes a.ip n) [] := hnobody ▸ registration_sound hbefore
    obtain ⟨hfree, hroom⟩ := failedTimes_open hsound hn
    have hthrough := (hbefore.step (.arrived a)).step
      (.moved [] _ _ _ _ rfl (.through a hfree) fun _ hr hr' => by
        cases hr
        change Door.Room (failedTimes a.ip n)
          (List.filterMap Registration.inside (.arrived a :: List.replicate n _)) a.ip
        rw [List.filterMap_cons_none rfl, hnobody]
        exact hroom)
    have hfails := registration_fails hthrough (show _ = [] ++ Registration.through a :: _ from rfl)
      hopen hwrong
    change RegistrationReachable Door.Room { RegistrationState.start 0 900 clock until_ key with
      toDoor := (((failedTimes a.ip n).asked a.ip).compared a.ip).missed a.ip
      requests := _ } at hfails
    rw [failedTimes_asked] at hfails
    exact hfails

/-- Five wrong guesses one after another are checked at either door, and the sixth is refused. -/
theorem guesses_bounded_five :
    (Bounded ⟨maxAttempts, 900⟩ (failedTimes "198.51.100.9" 5).log ∧
      (failedTimes "198.51.100.9" 5).shut "198.51.100.9" = true) ∧
    (Bounded ⟨maxAttempts, 900⟩ (failedTimes "203.0.113.7" 5).log ∧
      (failedTimes "203.0.113.7" 5).shut "203.0.113.7" = true) := by
  have hlogin := login_turns (fun _ _ => false) ⟨"admin", "guess"⟩ "198.51.100.9" "hash" rfl
    (le_refl maxAttempts)
  have hregister := registration_turns (some "3600") (some "key") 0
    ⟨some "guess", "node", "203.0.113.7"⟩ "key" (by decide) (by decide) (le_refl maxAttempts)
  obtain ⟨hsign, hjoin⟩ := guesses_bounded hlogin hregister
  exact ⟨⟨hsign.bounded, (hsign.shut _).mpr (failedTimes_count _ 5).ge⟩,
    hjoin.bounded, (hjoin.shut _).mpr (failedTimes_count _ 5).ge⟩

/-! ## A crowd -/

/-- A request is let through whatever room there is. -/
def Anyone : Door → List String → String → Prop := fun _ _ _ => True

/-- More failures than the limit are in one window. -/
theorem failedTimes_unbounded (ip : String) {k : Nat} (hk : maxAttempts ≤ k) :
    ¬ Bounded (failedTimes ip (k + 1)).throttle.limit (failedTimes ip (k + 1)).log := by
  intro h
  rw [failedTimes_limit] at h
  have hle := h.failures _ (List.suffix_refl _) ip (k + 1) 0 (failedTimes_window ip k)
  exact absurd hle (by simpa using hk)

/-- Any number of sign-ins with a wrong password are checked when they are let through together. -/
theorem login_crowd (verifyPassword : String → String → Bool) (body : LoginBody)
    (ip stored : String) (hwrong : verifyPassword body.password stored = false) (k m : Nat) :
    LoginReachable verifyPassword Anyone { LoginState.start 0 900 (some stored) none with
      toDoor := failedTimes ip k
      requests := List.replicate k (.answered false) ++ List.replicate m (.through body ip) } := by
  induction k generalizing m with
  | zero =>
    induction m with
    | zero => exact .start 0 900 (some stored) none
    | succ m ih =>
      exact (ih.step (.arrived body ip)).step
        (.moved [] _ _ _ _ rfl (.through body ip rfl) fun _ _ _ _ => trivial)
  | succ k ih =>
    have hfails := login_fails (ih (m + 1)) (by rw [List.replicate_succ]) Nat.one_pos rfl hwrong
    rw [List.replicate_succ', List.append_assoc]
    exact hfails

/-- Any number of registrations with a wrong key are checked when they are let through together. -/
theorem registration_crowd (until_ key : Option String) (clock : Nat) (a : Asking) (k : String)
    (hopen : RegistrationSteps.open? key (closesAt until_) clock = some k)
    (hwrong : a.bearer ≠ some k) (n m : Nat) :
    RegistrationReachable Anyone { RegistrationState.start 0 900 clock until_ key with
      toDoor := failedTimes a.ip n
      requests := List.replicate n (.answered .closed) ++ List.replicate m (.through a) } := by
  induction n generalizing m with
  | zero =>
    induction m with
    | zero => exact .start 0 900 clock until_ key
    | succ m ih =>
      exact (ih.step (.arrived a)).step
        (.moved [] _ _ _ _ rfl (.through a rfl) fun _ _ _ => trivial)
  | succ n ih =>
    have hfails := registration_fails (ih (m + 1)) (by rw [List.replicate_succ]) hopen hwrong
    rw [List.replicate_succ', List.append_assoc]
    exact hfails

/-- Six guesses sent together are all checked, at either door. -/
theorem six_guesses :
    (¬ ∀ s, LoginReachable (fun _ _ => false) Anyone s → Bounded s.throttle.limit s.log) ∧
      ¬ ∀ t, RegistrationReachable Anyone t → Bounded t.throttle.limit t.log := by
  refine ⟨fun h => ?_, fun h => ?_⟩
  · have hcrowd := login_crowd (fun _ _ => false) ⟨"admin", "guess"⟩ "198.51.100.9" "hash" rfl 6 0
    exact failedTimes_unbounded "198.51.100.9" (Nat.le_refl maxAttempts) (h _ hcrowd)
  · have hcrowd := registration_crowd (some "3600") (some "key") 0
      ⟨some "guess", "node", "198.51.100.9"⟩ "key" (by decide) (by decide) 6 0
    exact failedTimes_unbounded "198.51.100.9" (Nat.le_refl maxAttempts) (h _ hcrowd)

end Romi.ThrottleBounds
