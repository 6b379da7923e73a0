import AliMiddleware.Lib.PoolInvariant

/-!
# Lib — CoroPool

`fixed_object_pool_coro` under any number of coroutines, which may run on several threads.  A
step is one mutex-protected section, the registration of a wait on `borrow_avail_event`, or one
notification.

`borrow_one` is `try_borrow_one`; when that finds nothing, the coroutine registers its wait, which
takes no lock, and once it is resumed it runs `try_borrow_one` again and, when that finds nothing
either, waits again.  `release_one` is its locked section and then, without the lock,
`notify_one`: `cancel_one` makes the oldest registered waiter ready, and does nothing when there
is none.  Ready coroutines resume in any order.
-/

namespace AliMiddleware.FixedObjectPoolCoro

open Pool

variable {Tid Obj : Type} {cfg : PoolConfig}

/-- The places from which a coroutine comes to `try_borrow_one`. -/
inductive Phase where
  /-- a call of `try_borrow_one` -/
  | tryBorrowOne
  /-- the first line of `borrow_one` -/
  | borrowOne
  /-- `borrow_one`, after `async_wait` -/
  | resumed
  deriving DecidableEq, Repr

inductive Act (Tid Obj : Type) where
  | borrow (ph : Phase) (t : Tid) (new : NewObj Obj)
  /-- `async_wait` -/
  | register (t : Tid)
  /-- the locked section of `release_one` -/
  | release (t : Tid) (a : Addr)
  /-- `notify_one` -/
  | notify (t : Tid)

structure State (Tid Obj : Type) where
  pool : Pool Obj Unit
  lent : List (Tid × Addr) := []
  /-- in `borrow_one`, found nothing, has still to register -/
  toRegister : List Tid := []
  /-- registered on `borrow_avail_event`, the oldest first -/
  waiters : List Tid := []
  /-- notified, not yet resumed -/
  ready : List Tid := []
  /-- in `release_one`, past the lock -/
  notifying : List Tid := []

/-- The pool before the first borrower: fresh, or after `fill_full`, which may have thrown. -/
inductive Start (cfg : PoolConfig) : Pool Obj Unit → Prop where
  | fresh : Start cfg (Pool.fresh ())
  | filled {news : ℕ → NewObj Obj} {p : Pool Obj Unit}
      (run : (fillFull cfg news).run (Pool.fresh ()) = .done () p) : Start cfg p
  | partly {news : ℕ → NewObj Obj} {p : Pool Obj Unit} {e : Exn}
      (run : (fillFull cfg news).run (Pool.fresh ()) = .threw e p) : Start cfg p

def init (p : Pool Obj Unit) : State Tid Obj := { pool := p }

namespace State

/-- The objects that are lent. -/
def lentObjs (s : State Tid Obj) : List Addr := s.lent.map Prod.snd

/-- The coroutines in `borrow_one`, past its first line. -/
def slow (s : State Tid Obj) : List Tid := s.toRegister ++ (s.waiters ++ s.ready)

/-- `try_borrow_one` returned `nullptr`. -/
def onNull (s : State Tid Obj) (t : Tid) : Phase → State Tid Obj
  | .tryBorrowOne => s
  | .borrowOne | .resumed => { s with toRegister := t :: s.toRegister }

/-- The coroutine is in no call of the pool. -/
def Idle (s : State Tid Obj) (t : Tid) : Prop := t ∉ s.slow ∧ t ∉ s.notifying

variable [DecidableEq Tid]

instance (s : State Tid Obj) (t : Tid) : Decidable (s.Idle t) :=
  inferInstanceAs (Decidable (_ ∧ _))

/-- The coroutine is at the phase. -/
def At (s : State Tid Obj) (t : Tid) : Phase → Prop
  | .tryBorrowOne | .borrowOne => s.Idle t
  | .resumed => t ∈ s.ready

instance (s : State Tid Obj) (t : Tid) (ph : Phase) : Decidable (s.At t ph) :=
  match ph with
  | .tryBorrowOne | .borrowOne => inferInstanceAs (Decidable (s.Idle t))
  | .resumed => inferInstanceAs (Decidable (t ∈ s.ready))

/-- The coroutine leaves the phase. -/
def leave (s : State Tid Obj) (t : Tid) : Phase → State Tid Obj
  | .tryBorrowOne | .borrowOne => s
  | .resumed => { s with ready := s.ready.erase t }

end State

/-- The representation invariant holds of the pool, with what the coroutines hold. -/
def Inv (cfg : PoolConfig) (s : State Tid Obj) : Prop := ∃ xs, Holds cfg s.pool s.lentObjs xs

theorem Inv.nodup {s : State Tid Obj} (h : Inv cfg s) : (s.pool.freeList ++ s.lentObjs).Nodup := by
  obtain ⟨xs, hx⟩ := h
  exact hx.nodup

/-- An object is in one hand. -/
theorem Inv.holder_unique {s : State Tid Obj} (h : Inv cfg s) {t t' : Tid} {a : Addr}
    (ht : (t, a) ∈ s.lent) (ht' : (t', a) ∈ s.lent) : t = t' := by
  have hnd : (s.lent.map Prod.snd).Nodup := (List.nodup_append.mp h.nodup).2.1
  exact congrArg Prod.fst (List.inj_on_of_nodup_map hnd ht ht' rfl)

/-! ### `fill_full` -/

/-- A round of `fill_full`. -/
theorem addObj_holds {p : Pool Obj Unit} {xs : TraceableList.Elems Obj Bool}
    (hx : Holds cfg p [] xs) (hroom : xs.length < cfg.maxSize) (new : NewObj Obj) :
    match (addObj new).run p with
    | .done _ p' => ∃ xs', Holds cfg p' [] xs' ∧ xs'.length = xs.length + 1
    | .threw _ p' => Holds cfg p' [] xs
    | .undefined => True := by
  cases ho : new.obj with
  | none => rwa [addObj_throws ho]
  | some obj =>
      by_cases ha : p.buffer.heap new.addr = none
      · obtain ⟨l, hl, hr⟩ := addObj_spec hx.rep ha ho
        rw [hl]
        exact ⟨_, hx.add hr (hx.rep.not_mem ha) hroom, by simp⟩
      · rw [addObj_live ha (by simp [ho])]
        trivial

/-- The first `n` rounds of `fill_full`, whether or not they throw. -/
theorem fillLoop_holds (cfg : PoolConfig) (news : ℕ → NewObj Obj) {n : ℕ} (hn : n ≤ cfg.maxSize) :
    match (fillLoop news n).run (Pool.fresh ()) with
    | .done _ p => ∃ xs, Holds cfg p [] xs ∧ xs.length = n
    | .threw _ p => ∃ xs, Holds cfg p [] xs
    | .undefined => True := by
  induction n with
  | zero => exact ⟨[], holds_fresh cfg (), rfl⟩
  | succ n ih =>
      have ih := ih (Nat.le_of_succ_le hn)
      rw [fillLoop, Exec.run_bind]
      cases hrun : (fillLoop news n).run (Pool.fresh ()) with
      | undefined => trivial
      | threw e p => simpa [hrun] using ih
      | done u p =>
          simp only [hrun] at ih
          obtain ⟨xs, hx, rfl⟩ := ih
          have hround := addObj_holds hx (Nat.lt_of_succ_le hn) (news xs.length)
          change match (addObj (news xs.length)).run p with
            | .done _ p' => ∃ xs', Holds cfg p' [] xs' ∧ xs'.length = xs.length + 1
            | .threw _ p' => ∃ xs, Holds cfg p' [] xs
            | .undefined => True
          cases hadd : (addObj (news xs.length)).run p with
          | undefined => trivial
          | threw e p' => exact ⟨xs, by simpa [hadd] using hround⟩
          | done u' p' => simpa [hadd] using hround

theorem Start.holds {p : Pool Obj Unit} (h : Start cfg p) : ∃ xs, Holds cfg p [] xs := by
  cases h with
  | fresh => exact ⟨[], holds_fresh cfg ()⟩
  | @filled news p hrun =>
      have hfill := fillLoop_holds cfg news (Nat.le_refl _)
      rw [fillFull] at hrun
      rw [hrun] at hfill
      obtain ⟨xs, hx, -⟩ := hfill
      exact ⟨xs, hx⟩
  | @partly news p e hrun =>
      have hfill := fillLoop_holds cfg news (Nat.le_refl _)
      rw [fillFull] at hrun
      rwa [hrun] at hfill

theorem inv_init {p : Pool Obj Unit} (h : Start cfg p) : Inv cfg (init p : State Tid Obj) :=
  h.holds

/-! ### The steps -/

variable [DecidableEq Tid]

/-- The section of a coroutine that comes to `try_borrow_one` from `ph`. -/
def borrowStep (cfg : PoolConfig) (s : State Tid Obj) (ph : Phase) (t : Tid)
    (new : NewObj Obj) : Option (State Tid Obj) :=
  match (doTryBorrowOne cfg new).run s.pool with
  | .done (some a) p => some { s with pool := p, lent := (t, a) :: s.lent }
  | .done none p => some (State.onNull { s with pool := p } t ph)
  | .threw _ p => some { s with pool := p }
  | .undefined => none

def step (cfg : PoolConfig) (s : State Tid Obj) : Act Tid Obj → Option (State Tid Obj)
  | .borrow ph t new =>
      if s.At t ph ∧ (s.pool.buffer.heap new.addr).isNone = true then
        borrowStep cfg (s.leave t ph) ph t new
      else none
  | .register t =>
      if t ∈ s.toRegister then
        some { s with toRegister := s.toRegister.erase t, waiters := s.waiters ++ [t] }
      else none
  | .release t a =>
      if s.Idle t ∧ (t, a) ∈ s.lent then
        match (releaseSection cfg (some a)).run s.pool with
        | .done _ p =>
            some { s with pool := p, lent := s.lent.erase (t, a), notifying := t :: s.notifying }
        | .threw _ p => some { s with pool := p }
        | .undefined => none
      else none
  | .notify t =>
      if t ∈ s.notifying then
        let s := { s with notifying := s.notifying.erase t }
        match s.waiters with
        | [] => some s
        | w :: ws => some { s with waiters := ws, ready := w :: s.ready }
      else none

/-! ### What a step does -/

@[simp] theorem leave_pool (s : State Tid Obj) (t : Tid) (ph : Phase) :
    (s.leave t ph).pool = s.pool := by cases ph <;> rfl

@[simp] theorem leave_lent (s : State Tid Obj) (t : Tid) (ph : Phase) :
    (s.leave t ph).lent = s.lent := by cases ph <;> rfl

@[simp] theorem leave_lentObjs (s : State Tid Obj) (t : Tid) (ph : Phase) :
    (s.leave t ph).lentObjs = s.lentObjs := by cases ph <;> rfl

@[simp] theorem leave_waiters (s : State Tid Obj) (t : Tid) (ph : Phase) :
    (s.leave t ph).waiters = s.waiters := by cases ph <;> rfl

@[simp] theorem leave_notifying (s : State Tid Obj) (t : Tid) (ph : Phase) :
    (s.leave t ph).notifying = s.notifying := by cases ph <;> rfl

/-- What a borrowing step can do, in a state whose pool satisfies the invariant. -/
inductive Borrowed (cfg : PoolConfig) (s : State Tid Obj) (ph : Phase) (t : Tid)
    (new : NewObj Obj) : State Tid Obj → Prop where
  | takes {a : Addr} {rest : List Addr} {p' : Pool Obj Unit}
      {xs xs' : TraceableList.Elems Obj Bool}
      (free : s.pool.freeList = a :: rest) (free' : p'.freeList = rest)
      (before : Holds cfg s.pool s.lentObjs xs) (same : xs'.length = xs.length)
      (holds : Holds cfg p' (a :: s.lentObjs) xs') :
      Borrowed cfg s ph t new { s.leave t ph with pool := p', lent := (t, a) :: s.lent }
  | creates {p' : Pool Obj Unit} {xs xs' : TraceableList.Elems Obj Bool}
      (free : s.pool.freeList = []) (free' : p'.freeList = [])
      (before : Holds cfg s.pool s.lentObjs xs) (more : xs'.length = xs.length + 1)
      (holds : Holds cfg p' (new.addr :: s.lentObjs) xs') :
      Borrowed cfg s ph t new { s.leave t ph with pool := p', lent := (t, new.addr) :: s.lent }
  | throws {xs : TraceableList.Elems Obj Bool}
      (free : s.pool.freeList = []) (before : Holds cfg s.pool s.lentObjs xs)
      (room : xs.length < cfg.maxSize) (obj : new.obj = none) :
      Borrowed cfg s ph t new (s.leave t ph)
  | full {xs : TraceableList.Elems Obj Bool}
      (free : s.pool.freeList = []) (before : Holds cfg s.pool s.lentObjs xs)
      (full : xs.length = cfg.maxSize) :
      Borrowed cfg s ph t new ((s.leave t ph).onNull t ph)

/-- **A borrowing step.** -/
theorem step_borrow {s s' : State Tid Obj} {ph : Phase} {t : Tid} {new : NewObj Obj}
    (hi : Inv cfg s) (h : step cfg s (.borrow ph t new) = some s') :
    s.At t ph ∧ Borrowed cfg s ph t new s' := by
  obtain ⟨xs, hx⟩ := hi
  simp only [step, Option.ite_none_right_eq_some] at h
  obtain ⟨⟨hat, hnew⟩, h⟩ := h
  refine ⟨hat, ?_⟩
  have hout := doTryBorrowOne_outcome hx id (Option.isNone_iff_eq_none.mp hnew)
  rw [borrowStep] at h
  simp only [doTryBorrowOne, leave_pool, leave_lent] at h
  generalize (Pool.doTryBorrowOne cfg id new).run s.pool = out at hout h
  cases hout with
  | reused hf hf' _ hsame hh =>
      cases h
      refine .takes hf hf' hx ?_ hh
      rw [← TraceableList.length_addrs, hsame, TraceableList.length_addrs]
  | created hf _ hf' _ hmore hh =>
      cases h
      refine .creates hf hf' hx ?_ hh
      rw [← TraceableList.length_addrs, hmore]
      simp
  | failed hf hroom ho =>
      have he : s' = s.leave t ph := by
        rw [← Option.some.inj h]
        cases ph <;> rfl
      exact he ▸ .throws hf hx hroom ho
  | full hf hfull =>
      have he : s' = (s.leave t ph).onNull t ph := by
        rw [← Option.some.inj h]
        cases ph <;> rfl
      exact he ▸ .full hf hx hfull

/-- **A releasing step.** -/
theorem step_release {s s' : State Tid Obj} {t : Tid} {a : Addr} (hi : Inv cfg s)
    (h : step cfg s (.release t a) = some s') :
    s.Idle t ∧ (t, a) ∈ s.lent ∧ ∃ p' xs xs', p'.freeList = a :: s.pool.freeList ∧
      Holds cfg s.pool s.lentObjs xs ∧ xs'.length = xs.length ∧
      Holds cfg p' ((s.lent.erase (t, a)).map Prod.snd) xs' ∧
      s' = { s with
        pool := p', lent := s.lent.erase (t, a), notifying := t :: s.notifying } := by
  obtain ⟨xs, hx⟩ := hi
  simp only [step, Option.ite_none_right_eq_some] at h
  obtain ⟨⟨hidle, hm⟩, h⟩ := h
  obtain ⟨p', xs', hrun, hf, -, hs, hh⟩ := releaseSection_spec hx (lent_perm_erase hm) id
  rw [releaseSection, hrun] at h
  refine ⟨hidle, hm, p', xs, xs', hf, hx, ?_, hh, (Option.some.inj h).symm⟩
  rw [← TraceableList.length_addrs, hs, TraceableList.length_addrs]

/-- The registration of a wait. -/
theorem step_register {s s' : State Tid Obj} {t : Tid} (h : step cfg s (.register t) = some s') :
    t ∈ s.toRegister ∧
      s' = { s with toRegister := s.toRegister.erase t, waiters := s.waiters ++ [t] } := by
  simp only [step, Option.ite_none_right_eq_some, Option.some.injEq] at h
  obtain ⟨ht, rfl⟩ := h
  exact ⟨ht, rfl⟩

/-- A notification wakes the oldest waiter, if there is one. -/
theorem step_notify {s s' : State Tid Obj} {t : Tid} (h : step cfg s (.notify t) = some s') :
    t ∈ s.notifying ∧
      (s.waiters = [] ∧ s' = { s with notifying := s.notifying.erase t } ∨
        ∃ w ws, s.waiters = w :: ws ∧ s' = { s with
          notifying := s.notifying.erase t, waiters := ws, ready := w :: s.ready }) := by
  simp only [step, Option.ite_none_right_eq_some] at h
  obtain ⟨ht, h⟩ := h
  refine ⟨ht, ?_⟩
  cases hw : s.waiters with
  | nil => exact .inl ⟨rfl, by simpa [hw] using h.symm⟩
  | cons w ws => exact .inr ⟨w, ws, rfl, by simpa [hw] using h.symm⟩

/-- **Every step keeps the representation invariant.** -/
theorem inv_step (s : State Tid Obj) (act : Act Tid Obj) (s' : State Tid Obj) (hi : Inv cfg s)
    (h : step cfg s act = some s') : Inv cfg s' := by
  cases act with
  | borrow ph t new =>
      obtain ⟨-, hb⟩ := step_borrow hi h
      cases hb with
      | takes _ _ _ _ hh => exact ⟨_, hh⟩
      | creates _ _ _ _ hh => exact ⟨_, hh⟩
      | throws _ hx => exact ⟨_, by simpa using hx⟩
      | full _ hx => exact ⟨_, by cases ph <;> exact hx⟩
  | register t =>
      obtain ⟨-, rfl⟩ := step_register h
      exact hi
  | release t a =>
      obtain ⟨-, -, p', xs, xs', -, -, -, hh, rfl⟩ := step_release hi h
      exact ⟨xs', hh⟩
  | notify t =>
      obtain ⟨-, ⟨-, rfl⟩ | ⟨w, ws, -, rfl⟩⟩ := step_notify h
      · exact hi
      · exact hi

theorem inv_reachable {p : Pool Obj Unit} {s : State Tid Obj} (hp : Start cfg p)
    (h : Runs.Reachable (step cfg) (init p) s) : Inv cfg s :=
  h.invariant inv_step (inv_init hp)

end AliMiddleware.FixedObjectPoolCoro
