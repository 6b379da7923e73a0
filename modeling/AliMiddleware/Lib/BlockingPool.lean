import AliMiddleware.Lib.PoolInvariant

/-!
# Lib — BlockingPool

`fixed_object_pool` under any number of threads.  A step is one mutex-protected section, one
notification, or a spurious wake-up; the threads interleave in any order.

`borrow_one` is a fast path, which is `try_borrow_one`, and a slow path: take the lock, and in
`condition_variable::wait` test `new_obj_ready` and block while it is false.  A blocked thread
that is woken takes the lock again and repeats the test.  A thread that gets through the test
runs `do_try_borrow_one` in the same section.  `release_one` is its locked section and then,
without the lock, `notify_one`, which wakes one blocked thread when there is one.
-/

namespace AliMiddleware.FixedObjectPool

open Pool

variable {Tid Obj : Type} {cfg : PoolConfig}

/-- The places from which a thread comes to `do_try_borrow_one`. -/
inductive Phase where
  /-- `try_borrow_one` -/
  | tryBorrowOne
  /-- the fast path of `borrow_one` -/
  | borrowOne
  /-- the slow path of `borrow_one`, at the lock -/
  | lock
  /-- the slow path of `borrow_one`, woken inside `wait` -/
  | woken
  deriving DecidableEq, Repr

inductive Act (Tid Obj : Type) where
  | borrow (ph : Phase) (t : Tid) (new : NewObj Obj)
  /-- the locked section of `release_one` -/
  | release (t : Tid) (a : Addr)
  /-- `notify_one`, and the thread it wakes -/
  | notify (t : Tid) (woken : Option Tid)
  | spurious (t : Tid)

structure State (Tid Obj : Type) where
  pool : Pool Obj Bool
  lent : List (Tid × Addr) := []
  /-- in `borrow_one`, past the fast path, before the lock -/
  toLock : List Tid := []
  /-- blocked in `wait` -/
  blocked : List Tid := []
  /-- woken in `wait`, before the lock -/
  woken : List Tid := []
  /-- in `release_one`, past the lock -/
  notifying : List Tid := []
  /-- threads whose `borrow_one` threw `std::logic_error("unknown par error.")` -/
  parError : List Tid := []

def init : State Tid Obj := { pool := Pool.fresh false }

namespace State

/-- The objects that are lent. -/
def lentObjs (s : State Tid Obj) : List Addr := s.lent.map Prod.snd

/-- The threads in the slow path of `borrow_one`. -/
def slow (s : State Tid Obj) : List Tid := s.toLock ++ (s.blocked ++ s.woken)

/-- `do_try_borrow_one` returned `nullptr`. -/
def onNull (s : State Tid Obj) (t : Tid) : Phase → State Tid Obj
  | .tryBorrowOne => s
  | .borrowOne => { s with toLock := t :: s.toLock }
  | .lock | .woken => { s with parError := t :: s.parError }

@[simp] theorem onNull_pool (s : State Tid Obj) (t : Tid) (ph : Phase) :
    (s.onNull t ph).pool = s.pool := by cases ph <;> rfl

@[simp] theorem onNull_lentObjs (s : State Tid Obj) (t : Tid) (ph : Phase) :
    (s.onNull t ph).lentObjs = s.lentObjs := by cases ph <;> rfl

/-- The thread is in no call of the pool. -/
def Idle (s : State Tid Obj) (t : Tid) : Prop := t ∉ s.slow ∧ t ∉ s.notifying

variable [DecidableEq Tid]

instance (s : State Tid Obj) (t : Tid) : Decidable (s.Idle t) :=
  inferInstanceAs (Decidable (_ ∧ _))

/-- The thread is at the phase. -/
def At (s : State Tid Obj) (t : Tid) : Phase → Prop
  | .tryBorrowOne | .borrowOne => s.Idle t
  | .lock => t ∈ s.toLock
  | .woken => t ∈ s.woken

instance (s : State Tid Obj) (t : Tid) (ph : Phase) : Decidable (s.At t ph) :=
  match ph with
  | .tryBorrowOne | .borrowOne => inferInstanceAs (Decidable (s.Idle t))
  | .lock => inferInstanceAs (Decidable (t ∈ s.toLock))
  | .woken => inferInstanceAs (Decidable (t ∈ s.woken))

/-- The thread leaves the phase. -/
def leave (s : State Tid Obj) (t : Tid) : Phase → State Tid Obj
  | .tryBorrowOne | .borrowOne => s
  | .lock => { s with toLock := s.toLock.erase t }
  | .woken => { s with woken := s.woken.erase t }

end State

/-- The representation invariant holds of the pool, with what the threads hold. -/
def Inv (cfg : PoolConfig) (s : State Tid Obj) : Prop := ∃ xs, Holds cfg s.pool s.lentObjs xs

theorem inv_init : Inv cfg (init : State Tid Obj) := ⟨[], holds_fresh cfg false⟩

variable [DecidableEq Tid]

/-- `wait` tests its predicate at these phases. -/
def Phase.waits : Phase → Bool
  | .tryBorrowOne | .borrowOne => false
  | .lock | .woken => true

/-- The section of a thread that comes to `do_try_borrow_one` from `ph`. -/
def borrowStep (cfg : PoolConfig) (s : State Tid Obj) (ph : Phase) (t : Tid)
    (new : NewObj Obj) : Option (State Tid Obj) :=
  if ph.waits = true ∧ s.pool.flag = false then
    some { s with blocked := t :: s.blocked }
  else match (doTryBorrowOne cfg new).run s.pool with
    | .done (some a) p => some { s with pool := p, lent := (t, a) :: s.lent }
    | .done none p => some (State.onNull { s with pool := p } t ph)
    | .threw _ p => some { s with pool := p }
    | .undefined => none

def step (cfg : PoolConfig) (s : State Tid Obj) : Act Tid Obj → Option (State Tid Obj)
  | .borrow ph t new =>
      if s.At t ph ∧ (s.pool.buffer.heap new.addr).isNone = true then
        borrowStep cfg (s.leave t ph) ph t new
      else none
  | .release t a =>
      if s.Idle t ∧ (t, a) ∈ s.lent then
        match (releaseSection cfg (some a)).run s.pool with
        | .done _ p =>
            some { s with pool := p, lent := s.lent.erase (t, a), notifying := t :: s.notifying }
        | .threw _ p => some { s with pool := p }
        | .undefined => none
      else none
  | .notify t none =>
      if t ∈ s.notifying ∧ s.blocked = [] then
        some { s with notifying := s.notifying.erase t }
      else none
  | .notify t (some u) =>
      if t ∈ s.notifying ∧ u ∈ s.blocked then
        some { s with
          notifying := s.notifying.erase t
          blocked := s.blocked.erase u
          woken := u :: s.woken }
      else none
  | .spurious t =>
      if t ∈ s.blocked then
        some { s with blocked := s.blocked.erase t, woken := t :: s.woken }
      else none

/-! ### What a step does -/

@[simp] theorem leave_pool (s : State Tid Obj) (t : Tid) (ph : Phase) :
    (s.leave t ph).pool = s.pool := by cases ph <;> rfl

@[simp] theorem leave_lent (s : State Tid Obj) (t : Tid) (ph : Phase) :
    (s.leave t ph).lent = s.lent := by cases ph <;> rfl

@[simp] theorem leave_lentObjs (s : State Tid Obj) (t : Tid) (ph : Phase) :
    (s.leave t ph).lentObjs = s.lentObjs := by cases ph <;> rfl

@[simp] theorem leave_notifying (s : State Tid Obj) (t : Tid) (ph : Phase) :
    (s.leave t ph).notifying = s.notifying := by cases ph <;> rfl

@[simp] theorem leave_blocked (s : State Tid Obj) (t : Tid) (ph : Phase) :
    (s.leave t ph).blocked = s.blocked := by cases ph <;> rfl

/-- What a borrowing step can do, in a state whose pool satisfies the invariant: block, or end
as the section of `BorrowOutcome` does. -/
inductive Borrowed (cfg : PoolConfig) (s : State Tid Obj) (ph : Phase) (t : Tid)
    (new : NewObj Obj) : State Tid Obj → Prop where
  | blocks (waits : ph.waits = true) (notReady : s.pool.flag = false) :
      Borrowed cfg s ph t new
        { s.leave t ph with blocked := t :: (s.leave t ph).blocked }
  | takes {a : Addr} {rest : List Addr} {p' : Pool Obj Bool} {xs xs' : TraceableList.Elems Obj Bool}
      (ready : ph.waits = true → s.pool.flag = true) (free : s.pool.freeList = a :: rest)
      (free' : p'.freeList = rest) (flag : p'.flag = false)
      (before : Holds cfg s.pool s.lentObjs xs) (same : xs'.length = xs.length)
      (holds : Holds cfg p' (a :: s.lentObjs) xs') :
      Borrowed cfg s ph t new { s.leave t ph with pool := p', lent := (t, a) :: s.lent }
  | creates {p' : Pool Obj Bool} {xs xs' : TraceableList.Elems Obj Bool}
      (ready : ph.waits = true → s.pool.flag = true) (free : s.pool.freeList = [])
      (free' : p'.freeList = []) (flag : p'.flag = false)
      (before : Holds cfg s.pool s.lentObjs xs) (more : xs'.length = xs.length + 1)
      (holds : Holds cfg p' (new.addr :: s.lentObjs) xs') :
      Borrowed cfg s ph t new { s.leave t ph with pool := p', lent := (t, new.addr) :: s.lent }
  | throws {xs : TraceableList.Elems Obj Bool} (ready : ph.waits = true → s.pool.flag = true)
      (free : s.pool.freeList = []) (before : Holds cfg s.pool s.lentObjs xs)
      (room : xs.length < cfg.maxSize) (obj : new.obj = none) :
      Borrowed cfg s ph t new (s.leave t ph)
  | full {xs : TraceableList.Elems Obj Bool} (ready : ph.waits = true → s.pool.flag = true)
      (free : s.pool.freeList = []) (before : Holds cfg s.pool s.lentObjs xs)
      (full : xs.length = cfg.maxSize) :
      Borrowed cfg s ph t new ((s.leave t ph).onNull t ph)

/-- **A borrowing step.** -/
theorem step_borrow {s s' : State Tid Obj} {ph : Phase} {t : Tid} {new : NewObj Obj}
    (hi : Inv cfg s) (h : step cfg s (.borrow ph t new) = some s') :
    s.At t ph ∧ Borrowed cfg s ph t new s' := by
  obtain ⟨xs, hx⟩ := hi
  simp only [step, Option.ite_none_right_eq_some] at h
  obtain ⟨⟨hat, hnew⟩, h⟩ := h
  refine ⟨hat, ?_⟩
  have hout := doTryBorrowOne_outcome hx (fun _ => false) (Option.isNone_iff_eq_none.mp hnew)
  rw [borrowStep] at h
  split_ifs at h with hw
  · cases h
    exact .blocks hw.1 (by simpa using hw.2)
  · have hready : ph.waits = true → s.pool.flag = true := by simpa using hw
    simp only [doTryBorrowOne, leave_pool, leave_lent] at h
    generalize (Pool.doTryBorrowOne cfg (fun _ => false) new).run s.pool = out at hout h
    cases hout with
    | reused hf hf' hg hsame hh =>
        cases h
        refine .takes hready hf hf' hg hx ?_ hh
        rw [← TraceableList.length_addrs, hsame, TraceableList.length_addrs]
    | created hf _ hf' hg hmore hh =>
        cases h
        refine .creates hready hf hf' hg hx ?_ hh
        rw [← TraceableList.length_addrs, hmore]
        simp
    | failed hf hroom ho =>
        have he : s' = s.leave t ph := by
          rw [← Option.some.inj h]
          cases ph <;> rfl
        exact he ▸ .throws hready hf hx hroom ho
    | full hf hfull =>
        have he : s' = (s.leave t ph).onNull t ph := by
          rw [← Option.some.inj h]
          cases ph <;> rfl
        exact he ▸ .full hready hf hx hfull

/-- **A releasing step.** -/
theorem step_release {s s' : State Tid Obj} {t : Tid} {a : Addr} (hi : Inv cfg s)
    (h : step cfg s (.release t a) = some s') :
    s.Idle t ∧ (t, a) ∈ s.lent ∧ ∃ p' xs xs', p'.freeList = a :: s.pool.freeList ∧
      p'.flag = true ∧ Holds cfg s.pool s.lentObjs xs ∧ xs'.length = xs.length ∧
      Holds cfg p' ((s.lent.erase (t, a)).map Prod.snd) xs' ∧
      s' = { s with
        pool := p', lent := s.lent.erase (t, a), notifying := t :: s.notifying } := by
  obtain ⟨xs, hx⟩ := hi
  simp only [step, Option.ite_none_right_eq_some] at h
  obtain ⟨⟨hidle, hm⟩, h⟩ := h
  obtain ⟨p', xs', hrun, hf, hg, hs, hh⟩ :=
    releaseSection_spec hx (lent_perm_erase hm) (fun _ => true)
  rw [releaseSection, hrun] at h
  refine ⟨hidle, hm, p', xs, xs', hf, hg, hx, ?_, hh, (Option.some.inj h).symm⟩
  rw [← TraceableList.length_addrs, hs, TraceableList.length_addrs]

/-- **Every step keeps the representation invariant.** -/
theorem inv_step (s : State Tid Obj) (act : Act Tid Obj) (s' : State Tid Obj) (hi : Inv cfg s)
    (h : step cfg s act = some s') : Inv cfg s' := by
  cases act with
  | borrow ph t new =>
      obtain ⟨-, hb⟩ := step_borrow hi h
      cases hb with
      | blocks =>
          obtain ⟨xs, hx⟩ := hi
          exact ⟨xs, by cases ph <;> exact hx⟩
      | takes _ _ _ _ _ _ hh => exact ⟨_, hh⟩
      | creates _ _ _ _ _ _ hh => exact ⟨_, hh⟩
      | throws _ _ hx => exact ⟨_, by simpa using hx⟩
      | full _ _ hx => exact ⟨_, by simpa using hx⟩
  | release t a =>
      obtain ⟨-, -, p', xs, xs', -, -, -, -, hh, rfl⟩ := step_release hi h
      exact ⟨xs', hh⟩
  | notify t w =>
      cases w with
      | none =>
          simp only [step, Option.ite_none_right_eq_some, Option.some.injEq] at h
          obtain ⟨-, rfl⟩ := h
          exact hi
      | some u =>
          simp only [step, Option.ite_none_right_eq_some, Option.some.injEq] at h
          obtain ⟨-, rfl⟩ := h
          exact hi
  | spurious t =>
      simp only [step, Option.ite_none_right_eq_some, Option.some.injEq] at h
      obtain ⟨-, rfl⟩ := h
      exact hi

theorem inv_reachable {s : State Tid Obj} (h : Runs.Reachable (step cfg) init s) : Inv cfg s :=
  h.invariant inv_step inv_init

end AliMiddleware.FixedObjectPool
