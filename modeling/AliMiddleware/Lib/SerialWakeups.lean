import AliMiddleware.Lib.CoroWakeups

/-!
# Lib — SerialWakeups

`fixed_object_pool_coro` when one thread runs its `io_context`, as `provider::agent::listen` does.
Control passes from one coroutine to another only where it yields, in `async_wait`: a
`try_borrow_one` that finds nothing and the registration of the wait are one step, and so are the
locked section of `release_one` and its notification.  Ready coroutines still resume in any order,
after any number of others have borrowed and released.

Every such run is a run of the coroutines of `CoroPool` (`serial_run`).  In it no wake-up is lost:
while a coroutine is registered, every free object has a wake-up under way, and a coroutine that
entered the wait is registered, or ready, or has returned with an object (`serial_wakeups`).
-/

namespace AliMiddleware.FixedObjectPoolCoro

open Pool

variable {Tid Obj : Type} {cfg : PoolConfig}

/-- The coroutines on one thread, with a record of who waited. -/
structure Serial (Tid Obj : Type) where
  now : State Tid Obj
  /-- a coroutine for each time it entered the wait -/
  entered : List Tid := []
  /-- a coroutine for each time it returned from the wait with an object -/
  served : List Tid := []

inductive SerialAct (Tid Obj : Type) where
  /-- up to the return of the call, or to `async_wait` -/
  | borrow (ph : Phase) (t : Tid) (new : NewObj Obj)
  | release (t : Tid) (a : Addr)

namespace Serial

def init (p : Pool Obj Unit) : Serial Tid Obj := { now := FixedObjectPoolCoro.init p }

/-- The coroutines that are registered or ready. -/
def waiting (s : Serial Tid Obj) : List Tid := s.now.waiters ++ s.now.ready

variable [DecidableEq Tid]

/-- What a coroutine that came from `ph` is recorded for when it waits. -/
def onWait (s : Serial Tid Obj) (t : Tid) : Phase → List Tid
  | .tryBorrowOne | .borrowOne => s.entered ++ [t]
  | .resumed => s.entered

/-- What a coroutine that came from `ph` is recorded for when its call ends. -/
def onReturn (s : Serial Tid Obj) (now : State Tid Obj) (t : Tid) : Phase → List Tid
  | .tryBorrowOne | .borrowOne => s.served
  | .resumed => if s.now.lent.length < now.lent.length then s.served ++ [t] else s.served

def step (cfg : PoolConfig) (s : Serial Tid Obj) : SerialAct Tid Obj → Option (Serial Tid Obj)
  | .borrow ph t new => do
      let s₁ ← FixedObjectPoolCoro.step cfg s.now (.borrow ph t new)
      if t ∈ s₁.toRegister then
        let s₂ ← FixedObjectPoolCoro.step cfg s₁ (.register t)
        pure { s with now := s₂, entered := s.onWait t ph }
      else pure { s with now := s₁, served := s.onReturn s₁ t ph }
  | .release t a => do
      let s₁ ← FixedObjectPoolCoro.step cfg s.now (.release t a)
      let s₂ ← FixedObjectPoolCoro.step cfg s₁ (.notify t)
      pure { s with now := s₂ }

/-! ### A step is one or two steps of the coroutines -/

theorem step_borrow {s s' : Serial Tid Obj} {ph : Phase} {t : Tid} {new : NewObj Obj}
    (h : step cfg s (.borrow ph t new) = some s') :
    ∃ s₁, FixedObjectPoolCoro.step cfg s.now (.borrow ph t new) = some s₁ ∧
      ((t ∈ s₁.toRegister ∧ ∃ s₂, FixedObjectPoolCoro.step cfg s₁ (.register t) = some s₂ ∧
          s' = { s with now := s₂, entered := s.onWait t ph }) ∨
        t ∉ s₁.toRegister ∧ s' = { s with now := s₁, served := s.onReturn s₁ t ph }) := by
  simp only [step, Option.bind_eq_bind, Option.bind_eq_some_iff] at h
  obtain ⟨s₁, h₁, h⟩ := h
  refine ⟨s₁, h₁, ?_⟩
  split_ifs at h with ht
  · obtain ⟨s₂, h₂, h⟩ := Option.bind_eq_some_iff.mp h
    exact .inl ⟨ht, s₂, h₂, (Option.some.inj h).symm⟩
  · exact .inr ⟨ht, (Option.some.inj h).symm⟩

theorem step_release {s s' : Serial Tid Obj} {t : Tid} {a : Addr}
    (h : step cfg s (.release t a) = some s') :
    ∃ s₁ s₂, FixedObjectPoolCoro.step cfg s.now (.release t a) = some s₁ ∧
      FixedObjectPoolCoro.step cfg s₁ (.notify t) = some s₂ ∧ s' = { s with now := s₂ } := by
  simp only [step, Option.bind_eq_bind, Option.bind_eq_some_iff] at h
  obtain ⟨s₁, h₁, s₂, h₂, h⟩ := h
  exact ⟨s₁, s₂, h₁, h₂, (Option.some.inj h).symm⟩

/-- **A run on one thread is a run.** -/
theorem serial_run {s s' : Serial Tid Obj} {as : List (SerialAct Tid Obj)}
    (h : Runs.run (step cfg) s as = some s') :
    Runs.Reachable (FixedObjectPoolCoro.step cfg) s.now s'.now := by
  induction as generalizing s with
  | nil =>
      obtain rfl : s = s' := by simpa using h
      exact ⟨[], rfl⟩
  | cons act as ih =>
      obtain ⟨t, ht, hrest⟩ := Runs.run_cons_inv h
      obtain ⟨bs, hbs⟩ := ih hrest
      cases act with
      | borrow ph u new =>
          obtain ⟨s₁, h₁, ⟨-, s₂, h₂, rfl⟩ | ⟨-, rfl⟩⟩ := step_borrow ht
          · exact ⟨_ :: _ :: bs, Runs.run_cons_some h₁ (Runs.run_cons_some h₂ hbs)⟩
          · exact ⟨_ :: bs, Runs.run_cons_some h₁ hbs⟩
      | release u a =>
          obtain ⟨s₁, s₂, h₁, h₂, rfl⟩ := step_release ht
          exact ⟨_ :: _ :: bs, Runs.run_cons_some h₁ (Runs.run_cons_some h₂ hbs)⟩

/-! ### The accounting -/

/-- Who entered the wait is waiting, once, or was served. -/
structure Tally (entered waiting served : List Tid) : Prop where
  once : waiting.Nodup
  count : ∀ t, entered.count t = waiting.count t + served.count t

theorem Tally.perm {entered waiting waiting' served : List Tid} (h : Tally entered waiting served)
    (hp : waiting'.Perm waiting) : Tally entered waiting' served where
  once := hp.nodup_iff.mpr h.once
  count t := by rw [hp.count_eq, h.count t]

theorem Tally.enter {entered waiting waiting' served : List Tid} {t : Tid}
    (h : Tally entered waiting served) (ht : t ∉ waiting) (hp : waiting'.Perm (t :: waiting)) :
    Tally (entered ++ [t]) waiting' served where
  once := hp.nodup_iff.mpr (List.nodup_cons.mpr ⟨ht, h.once⟩)
  count u := by
    rw [hp.count_eq, List.count_append, h.count u]
    simp only [List.count_cons, List.count_nil]
    omega

theorem Tally.serve {entered waiting waiting' served : List Tid} {t : Tid}
    (h : Tally entered waiting served) (hp : waiting.Perm (t :: waiting')) :
    Tally entered waiting' (served ++ [t]) where
  once := (List.nodup_cons.mp (hp.nodup_iff.mp h.once)).2
  count u := by
    rw [h.count u, hp.count_eq, List.count_append]
    simp only [List.count_cons, List.count_nil]
    omega

/-- What holds between the steps. -/
structure Accounted (cfg : PoolConfig) (s : Serial Tid Obj) : Prop where
  inv : Inv cfg s.now
  settled : s.now.toRegister = [] ∧ s.now.notifying = []
  /-- every free object has a wake-up under way -/
  awaited : Awaited s.now
  /-- while a coroutine waits no object can be constructed -/
  full : s.waiting ≠ [] → s.now.pool.freeList.length + s.now.lent.length = cfg.maxSize
  tally : Tally s.entered s.waiting s.served

theorem accounted_init {p : Pool Obj Unit} (hp : Start cfg p) :
    Accounted cfg (init p : Serial Tid Obj) where
  inv := inv_init hp
  settled := ⟨rfl, rfl⟩
  awaited := awaited_init p
  full h := absurd rfl h
  tally := ⟨List.nodup_nil, fun _ => rfl⟩

/-- A ready coroutine, apart from the others that wait. -/
theorem waiting_perm {s : Serial Tid Obj} {t : Tid} (ht : t ∈ s.now.ready) :
    s.waiting.Perm (t :: (s.now.waiters ++ s.now.ready.erase t)) :=
  ((List.perm_cons_erase ht).append_left _).trans List.perm_middle

omit [DecidableEq Tid] in
theorem not_mem_waiting {s : Serial Tid Obj} {t : Tid} (h : s.now.Idle t) : t ∉ s.waiting :=
  fun ht => h.1 (List.mem_append_right _ ht)

omit [DecidableEq Tid] in
/-- The objects there are, while the representation invariant holds. -/
theorem length_objects {s : State Tid Obj} {xs : TraceableList.Elems Obj Bool}
    (h : Holds cfg s.pool s.lentObjs xs) :
    s.pool.freeList.length + s.lent.length = xs.length := by
  rw [← h.length, State.lentObjs, List.length_map]

/-- While an object can be constructed nobody waits. -/
theorem Accounted.waiting_nil {s : Serial Tid Obj} (h : Accounted cfg s)
    {xs : TraceableList.Elems Obj Bool} (hx : Holds cfg s.now.pool s.now.lentObjs xs)
    (hroom : xs.length < cfg.maxSize) : s.waiting = [] := by
  by_contra hne
  rw [← length_objects hx, h.full hne] at hroom
  exact Nat.lt_irrefl _ hroom

@[simp] theorem leave_toRegister (s : State Tid Obj) (t : Tid) (ph : Phase) :
    (s.leave t ph).toRegister = s.toRegister := by cases ph <;> rfl

/-- Where nobody waits, no coroutine resumes. -/
theorem not_resumed {s : Serial Tid Obj} {t : Tid} {ph : Phase} (h : s.waiting = [])
    (hat : s.now.At t ph) : s.now.leave t ph = s.now ∧
      ∀ now, s.onReturn now t ph = s.served := by
  cases ph with
  | tryBorrowOne => exact ⟨rfl, fun _ => rfl⟩
  | borrowOne => exact ⟨rfl, fun _ => rfl⟩
  | resumed =>
      have hmem : t ∈ s.waiting := List.mem_append_right _ hat
      rw [h] at hmem
      cases hmem

/-- A coroutine takes a free object. -/
theorem accounted_takes {s : Serial Tid Obj} {ph : Phase} {t : Tid} {a : Addr} {rest : List Addr}
    {p' : Pool Obj Unit} (hs : Accounted cfg s) (hat : s.now.At t ph)
    (hfree : s.now.pool.freeList = a :: rest) (hfree' : p'.freeList = rest)
    {now : State Tid Obj}
    (hnow : now = { s.now.leave t ph with pool := p', lent := (t, a) :: s.now.lent })
    (hinv : Inv cfg now) (haw : Awaited now) :
    Accounted cfg { s with now := now, served := s.onReturn now t ph } := by
  subst hnow
  refine ⟨hinv, ?_, haw, ?_, ?_⟩
  · simpa using hs.settled
  · intro hne
    -- whoever still waits waited before, when nothing was free but what is taken now
    have hne' : s.waiting ≠ [] := by
      intro hnil
      obtain ⟨hleave, -⟩ := not_resumed hnil hat
      rw [waiting, hleave] at hne
      exact hne hnil
    have hfull := hs.full hne'
    rw [hfree, List.length_cons] at hfull
    simp only [hfree', List.length_cons]
    omega
  · cases ph with
    | tryBorrowOne => exact hs.tally
    | borrowOne => exact hs.tally
    | resumed =>
        have hreturn : s.onReturn { s.now.leave t .resumed with
            pool := p', lent := (t, a) :: s.now.lent } t .resumed = s.served ++ [t] :=
          if_pos (Nat.lt_succ_self _)
        rw [hreturn]
        exact hs.tally.serve (waiting_perm hat)

/-- A coroutine that finds nothing waits, once more if it was resumed. -/
theorem accounted_waits {s : Serial Tid Obj} {ph : Phase} {t : Tid}
    (hs : Accounted cfg s) (hat : s.now.At t ph) (hph : ph ≠ .tryBorrowOne)
    {xs : TraceableList.Elems Obj Bool} (hfree : s.now.pool.freeList = [])
    (hx : Holds cfg s.now.pool s.now.lentObjs xs) (hfull : xs.length = cfg.maxSize)
    {now : State Tid Obj} (hnow : now = { s.now.leave t ph with
      waiters := s.now.waiters ++ [t], toRegister := [] }) (hinv : Inv cfg now) :
    Accounted cfg { s with now := now, entered := s.onWait t ph } := by
  subst hnow
  refine ⟨hinv, ?_, ?_, ?_, ?_⟩
  · exact ⟨rfl, by simpa using hs.settled.2⟩
  · exact awaited_of_free_nil (by simpa using hfree)
  · intro _
    simpa [hfull] using length_objects hx
  · have hfront : ∀ ready, (s.now.waiters ++ [t] ++ ready).Perm
        (t :: (s.now.waiters ++ ready)) := by
      intro ready
      rw [List.append_assoc]
      exact List.perm_middle
    cases ph with
    | tryBorrowOne => exact absurd rfl hph
    | borrowOne => exact hs.tally.enter (not_mem_waiting hat) (hfront _)
    | resumed => exact hs.tally.perm ((hfront _).trans (waiting_perm hat).symm)

/-- **A borrowing step keeps the accounts.** -/
theorem accounted_borrow {s s' : Serial Tid Obj} {ph : Phase} {t : Tid} {new : NewObj Obj}
    (hs : Accounted cfg s) (h : step cfg s (.borrow ph t new) = some s') : Accounted cfg s' := by
  obtain ⟨s₁, h₁, hout⟩ := step_borrow h
  have hinv₁ := inv_step _ _ _ hs.inv h₁
  have haw₁ := awaited_step hs.inv hs.awaited
    (show Expected s.now (.borrow ph t new) from trivial) h₁
  obtain ⟨hat, hb⟩ := FixedObjectPoolCoro.step_borrow hs.inv h₁
  cases hb with
  | @takes a rest p' xs xs' hfree hfree' hx hsame hx' =>
      rcases hout with ⟨ht, -⟩ | ⟨-, rfl⟩
      · simp [hs.settled.1] at ht
      · exact accounted_takes hs hat hfree hfree' rfl hinv₁ haw₁
  | @creates p' xs xs' hfree hfree' hx hmore hx' =>
      -- there was room, so nobody waits and the order does not matter
      have hroom : xs.length < cfg.maxSize := by
        have hbound := hx'.bound
        omega
      have hnil := hs.waiting_nil hx hroom
      obtain ⟨hleave, hreturn⟩ := not_resumed hnil hat
      rcases hout with ⟨ht, -⟩ | ⟨-, rfl⟩
      · simp [hs.settled.1] at ht
      · refine ⟨hinv₁, by simpa using hs.settled, haw₁, ?_, ?_⟩
        · intro hne
          rw [waiting, hleave] at hne
          exact absurd hnil hne
        · rw [waiting, hreturn, hleave]
          exact hs.tally
  | @throws xs hfree hx hroom hobj =>
      -- the exception leaves `borrow_one`; again nobody waits
      have hnil := hs.waiting_nil hx hroom
      obtain ⟨hleave, hreturn⟩ := not_resumed hnil hat
      rcases hout with ⟨ht, -⟩ | ⟨-, rfl⟩
      · simp [hs.settled.1] at ht
      · rw [hreturn, hleave]
        exact hs
  | @full xs hfree hx hfull =>
      cases ph with
      | tryBorrowOne =>
          rcases hout with ⟨ht, -⟩ | ⟨-, rfl⟩
          · simp [State.leave, State.onNull, hs.settled.1] at ht
          · exact hs
      | borrowOne =>
          rcases hout with ⟨-, s₂, h₂, rfl⟩ | ⟨ht, -⟩
          · obtain ⟨-, rfl⟩ := step_register h₂
            refine accounted_waits hs hat (by simp) hfree hx hfull ?_ (inv_step _ _ _ hinv₁ h₂)
            simp [State.leave, State.onNull, hs.settled.1]
          · simp [State.leave, State.onNull] at ht
      | resumed =>
          rcases hout with ⟨-, s₂, h₂, rfl⟩ | ⟨ht, -⟩
          · obtain ⟨-, rfl⟩ := step_register h₂
            refine accounted_waits hs hat (by simp) hfree hx hfull ?_ (inv_step _ _ _ hinv₁ h₂)
            simp [State.leave, State.onNull, hs.settled.1]
          · simp [State.leave, State.onNull] at ht

/-- **A releasing step keeps the accounts.** -/
theorem accounted_release {s s' : Serial Tid Obj} {t : Tid} {a : Addr} (hs : Accounted cfg s)
    (h : step cfg s (.release t a) = some s') : Accounted cfg s' := by
  obtain ⟨s₁, s₂, h₁, h₂, rfl⟩ := step_release h
  have hinv₁ := inv_step _ _ _ hs.inv h₁
  have haw₁ := awaited_step hs.inv hs.awaited (show Expected s.now (.release t a) from trivial) h₁
  have hinv₂ := inv_step _ _ _ hinv₁ h₂
  have haw₂ := awaited_step hinv₁ haw₁ (show Expected s₁ (.notify t) from trivial) h₂
  obtain ⟨-, hlent, p', xs, xs', hfree, -, -, -, rfl⟩ := FixedObjectPoolCoro.step_release hs.inv h₁
  have hobjects : p'.freeList.length + (s.now.lent.erase (t, a)).length =
      s.now.pool.freeList.length + s.now.lent.length := by
    have hpos := List.length_pos_of_mem hlent
    rw [hfree, List.length_cons, List.length_erase_of_mem hlent]
    omega
  obtain ⟨-, ⟨hw, rfl⟩ | ⟨w, ws, hw, rfl⟩⟩ := step_notify h₂
  · refine ⟨hinv₂, ⟨hs.settled.1, ?_⟩, haw₂, ?_, hs.tally⟩
    · simp [hs.settled.2]
    · intro hne
      exact hobjects.trans (hs.full hne)
  · -- the first waiter is made ready; it is still one that waits
    have hw : s.now.waiters = w :: ws := hw
    have hperm : (ws ++ w :: s.now.ready).Perm s.waiting := by
      rw [waiting, hw]
      exact List.perm_middle
    refine ⟨hinv₂, ⟨hs.settled.1, ?_⟩, haw₂, ?_, hs.tally.perm hperm⟩
    · simp [hs.settled.2]
    · intro _
      exact hobjects.trans (hs.full (by simp [waiting, hw]))

/-- **Every step keeps the accounts.** -/
theorem accounted_step (s : Serial Tid Obj) (act : SerialAct Tid Obj) (s' : Serial Tid Obj)
    (hs : Accounted cfg s) (h : step cfg s act = some s') : Accounted cfg s' := by
  cases act with
  | borrow ph t new => exact accounted_borrow hs h
  | release t a => exact accounted_release hs h

/-- A coroutine is in one place for each time it entered the wait. -/
theorem Tally.exactly_one {waiters ready entered served : List Tid}
    (h : Tally entered (waiters ++ ready) served) (t : Tid) :
    (t ∈ waiters ∧ t ∉ ready ∧ entered.count t = served.count t + 1) ∨
    (t ∉ waiters ∧ t ∈ ready ∧ entered.count t = served.count t + 1) ∨
    (t ∉ waiters ∧ t ∉ ready ∧ entered.count t = served.count t) := by
  have hcount := h.count t
  obtain ⟨hw, hr, hdisjoint⟩ := List.nodup_append.mp h.once
  rw [List.count_append] at hcount
  by_cases htw : t ∈ waiters
  · have htr : t ∉ ready := fun htr => hdisjoint t htw t htr rfl
    rw [List.count_eq_one_of_mem hw htw, List.count_eq_zero.mpr htr] at hcount
    exact .inl ⟨htw, htr, by omega⟩
  · by_cases htr : t ∈ ready
    · rw [List.count_eq_zero.mpr htw, List.count_eq_one_of_mem hr htr] at hcount
      exact .inr (.inl ⟨htw, htr, by omega⟩)
    · rw [List.count_eq_zero.mpr htw, List.count_eq_zero.mpr htr] at hcount
      exact .inr (.inr ⟨htw, htr, by omega⟩)

/-- **The accounts of the wake-ups**, after every run on one thread: while a coroutine is
registered there are at most as many free objects as coroutines that are ready; and each time a
coroutine entered the wait, it is now registered, or ready, or it has returned with an object. -/
theorem serial_wakeups {p : Pool Obj Unit} {s : Serial Tid Obj} {as : List (SerialAct Tid Obj)}
    (hp : Start cfg p) (h : Runs.run (step cfg) (init p) as = some s) :
    (s.now.waiters ≠ [] → s.now.pool.freeList.length ≤ s.now.ready.length) ∧
    ∀ t,
      (t ∈ s.now.waiters ∧ t ∉ s.now.ready ∧ s.entered.count t = s.served.count t + 1) ∨
      (t ∉ s.now.waiters ∧ t ∈ s.now.ready ∧ s.entered.count t = s.served.count t + 1) ∨
      (t ∉ s.now.waiters ∧ t ∉ s.now.ready ∧ s.entered.count t = s.served.count t) := by
  have hs : Accounted cfg s := Runs.run_invariant accounted_step (accounted_init hp) h
  refine ⟨?_, hs.tally.exactly_one⟩
  intro hw
  rcases hs.awaited hw with hfree | hwait
  · simpa [hs.settled.2] using hfree
  · rw [hs.settled.2, List.length_nil, Nat.le_zero, List.length_eq_zero_iff] at hwait
    exact absurd hwait hw

/-- One object: a third coroutine takes it before the second, which was woken, resumes, and the
second waits again. -/
def stolen : List (SerialAct ℕ Unit) :=
  [.borrow .borrowOne 1 ⟨10, some ()⟩, .borrow .borrowOne 2 ⟨20, some ()⟩, .release 1 10,
   .borrow .borrowOne 3 ⟨20, some ()⟩, .borrow .resumed 2 ⟨20, some ()⟩]

theorem serial_wakeups_stolen :
    ∃ s, Runs.run (step { maxSize := 1 }) (init (Pool.fresh ())) stolen = some s ∧
      s.now.waiters = [2] ∧ s.now.pool.freeList.length ≤ s.now.ready.length := by
  obtain ⟨s, hs, hw⟩ :
      ∃ s, Runs.run (step { maxSize := 1 }) (init (Pool.fresh ())) stolen = some s ∧
        s.now.waiters = [2] := ⟨_, rfl, rfl⟩
  exact ⟨s, hs, hw, (serial_wakeups .fresh hs).1 (by simp [hw])⟩

end Serial

end AliMiddleware.FixedObjectPoolCoro
