import AliMiddleware.Lib.CoroPool

/-!
# Lib — CoroWakeups

Lost wake-ups of `fixed_object_pool_coro` when several threads run its `io_context`.  The check
of `try_borrow_one` and the registration on `borrow_avail_event` are two steps with no lock across
them, and a notification that finds no waiter is forgotten.  A release that falls between the two
is lost (`not_never_stranded_coroutine`).

`Expected` is the condition on a registration: there are at least as many wake-ups under way as
free objects, or more releases have still to notify than coroutines are registered.  In a run
whose registrations meet it no coroutine is stranded (`never_stranded_coroutine`), and after one
that does not some continuation strands a coroutine (`stranded_of_not_expected`).
-/

namespace AliMiddleware.FixedObjectPoolCoro

open Pool

variable {Tid Obj : Type} {cfg : PoolConfig}

/-- A coroutine is registered, an object is free, and nothing is under way that will wake the
coroutine: no notified coroutine has still to resume, no release has still to notify. -/
def Stranded (s : State Tid Obj) : Prop :=
  s.waiters ≠ [] ∧ s.pool.freeList ≠ [] ∧ s.ready = [] ∧ s.notifying = []

instance [DecidableEq Tid] (s : State Tid Obj) : Decidable (Stranded s) :=
  inferInstanceAs (Decidable (_ ∧ _ ∧ _ ∧ _))

/-- Every free object has a wake-up under way, or every waiter has a release that will notify. -/
def Covered (waiters free ready notifying : ℕ) : Prop :=
  free ≤ ready + notifying ∨ waiters ≤ notifying

instance (w f r n : ℕ) : Decidable (Covered w f r n) := inferInstanceAs (Decidable (_ ∨ _))

/-- While a coroutine is registered, the free objects or the waiters are covered. -/
def Awaited (s : State Tid Obj) : Prop := s.waiters ≠ [] →
  Covered s.waiters.length s.pool.freeList.length s.ready.length s.notifying.length

/-- The condition on a step: a registration leaves the free objects or the waiters covered. -/
def Expected (s : State Tid Obj) : Act Tid Obj → Prop
  | .register _ =>
      Covered (s.waiters.length + 1) s.pool.freeList.length s.ready.length s.notifying.length
  | _ => True

instance (s : State Tid Obj) (act : Act Tid Obj) : Decidable (Expected s act) :=
  match act with
  | .register _ => inferInstanceAs (Decidable (Covered _ _ _ _))
  | .borrow _ _ _ | .release _ _ | .notify _ => isTrue trivial

theorem awaited_init (p : Pool Obj Unit) : Awaited (init p : State Tid Obj) :=
  fun h => absurd rfl h

/-- With nothing free there is nothing to wait for. -/
theorem awaited_of_free_nil {s : State Tid Obj} (h : s.pool.freeList = []) : Awaited s :=
  fun _ => .inl (by simp [h])

theorem Awaited.not_stranded {s : State Tid Obj} (h : Awaited s) : ¬ Stranded s := by
  rintro ⟨hw, hf, hr, hn⟩
  rcases h hw with hfree | hwait
  · rw [hr, hn] at hfree
    exact hf (List.length_eq_zero_iff.mp (Nat.le_zero.mp hfree))
  · rw [hn] at hwait
    exact hw (List.length_eq_zero_iff.mp (Nat.le_zero.mp hwait))

variable [DecidableEq Tid]

/-- A coroutine that resumes and takes an object uses up one wake-up and one free object. -/
theorem leave_ready_length {s : State Tid Obj} {ph : Phase} {t : Tid} (h : s.At t ph) :
    s.ready.length ≤ (s.leave t ph).ready.length + 1 := by
  cases ph with
  | tryBorrowOne | borrowOne => exact Nat.le_succ _
  | resumed =>
      have hlen := List.length_erase_of_mem (show t ∈ s.ready from h)
      simp only [State.leave, hlen]
      omega

/-- **A step that meets the condition keeps the waiters awaited.** -/
theorem awaited_step {s s' : State Tid Obj} {act : Act Tid Obj} (hi : Inv cfg s) (hs : Awaited s)
    (hok : Expected s act) (h : step cfg s act = some s') : Awaited s' := by
  cases act with
  | borrow ph t new =>
      obtain ⟨hat, hb⟩ := step_borrow hi h
      cases hb with
      | @takes a rest p' _ _ hf hf' _ _ _ =>
          intro hw
          -- a resumed coroutine takes the object it was resumed for
          have hready := leave_ready_length hat
          rcases hs (by simpa using hw) with hfree | hwait
          · rw [hf, List.length_cons] at hfree
            refine .inl ?_
            simp only [hf', leave_notifying]
            omega
          · exact .inr (by simpa using hwait)
      | creates _ hf' _ _ _ => exact awaited_of_free_nil hf'
      | throws hf _ _ _ => exact awaited_of_free_nil (by simpa using hf)
      | full hf _ _ =>
          refine awaited_of_free_nil ?_
          cases ph <;> exact hf
  | register t =>
      obtain ⟨-, rfl⟩ := step_register h
      intro _
      simpa [Expected] using hok
  | release t a =>
      obtain ⟨-, -, p', _, _, hf, -, -, -, rfl⟩ := step_release hi h
      intro hw
      simp only [Covered, hf, List.length_cons]
      rcases hs hw with hfree | hwait
      · exact .inl (by omega)
      · exact .inr (by omega)
  | notify t =>
      obtain ⟨ht, ⟨hw, rfl⟩ | ⟨w, ws, hw, rfl⟩⟩ := step_notify h
      · exact fun hne => absurd hw hne
      · intro _
        have hpos := List.length_pos_of_mem ht
        simp only [Covered, List.length_cons, List.length_erase_of_mem ht]
        rcases hs (by simp [hw]) with hfree | hwait
        · exact .inl (by omega)
        · rw [hw, List.length_cons] at hwait
          exact .inr (by omega)

/-- **No coroutine is stranded in a run whose registrations are all expected.** -/
theorem never_stranded_coroutine {p : Pool Obj Unit} {s : State Tid Obj} {as : List (Act Tid Obj)}
    (hp : Start cfg p) (hok : Runs.Meets (step cfg) Expected (init p) as)
    (h : Runs.run (step cfg) (init p) as = some s) : ¬ Stranded s := by
  have hboth : Inv cfg s ∧ Awaited s :=
    Runs.meets_invariant (I := fun s => Inv cfg s ∧ Awaited s)
      (fun s act s' hs hok h => ⟨inv_step s act s' hs.1 h, awaited_step hs.1 hs.2 hok h⟩)
      ⟨inv_init hp, awaited_init p⟩ hok h
  exact hboth.2.not_stranded

/-- One object; the second coroutine registers before the first releases. -/
def handover : List (Act ℕ Unit) :=
  [.borrow .borrowOne 1 ⟨10, some ()⟩, .borrow .borrowOne 2 ⟨20, some ()⟩, .register 2,
   .release 1 10, .notify 1, .borrow .resumed 2 ⟨20, some ()⟩]

theorem never_stranded_coroutine_handover :
    ∃ s, Runs.run (step { maxSize := 1 }) (init (Pool.fresh ())) handover = some s ∧
      ¬ Stranded s :=
  ⟨_, rfl, never_stranded_coroutine .fresh (show Runs.Meets (step { maxSize := 1 }) Expected
    (init (Pool.fresh ())) handover by decide) rfl⟩

/-! ### The lost wake-up -/

/-- **A release between the check and the registration is lost.** -/
theorem not_never_stranded_coroutine : ∃ (as : List (Act ℕ Unit)) (s : State ℕ Unit),
    Runs.run (step { maxSize := 1 }) (init (Pool.fresh ())) as = some s ∧ Stranded s :=
  ⟨[.borrow .borrowOne 1 ⟨10, some ()⟩, .borrow .borrowOne 2 ⟨20, some ()⟩,
    .release 1 10, .notify 1, .register 2], _, rfl, by decide⟩

/-! ### The condition is exact -/

/-- A resumed coroutine takes a free object. -/
theorem step_resumed {s : State Tid Obj} {t : Tid} (hi : Inv cfg s) (ht : t ∈ s.ready)
    (hf : s.pool.freeList ≠ []) : ∃ new s', step cfg s (.borrow .resumed t new) = some s' ∧
      s'.waiters = s.waiters ∧ s'.notifying = s.notifying ∧ s'.ready = s.ready.erase t ∧
      s'.pool.freeList.length + 1 = s.pool.freeList.length := by
  obtain ⟨xs, hx⟩ := hi
  obtain ⟨b, hnew⟩ := hx.exists_fresh
  obtain ⟨a, rest, hfree⟩ := List.exists_cons_of_ne_nil hf
  obtain ⟨p', xs', hrun, hf', -⟩ := borrowAgain_reuse hx hfree id ⟨b, none⟩ 1
  refine ⟨⟨b, none⟩, { s.leave t .resumed with pool := p', lent := (t, a) :: s.lent }, ?_, rfl,
    rfl, rfl, ?_⟩
  · simp [step, State.At, ht, hnew, borrowStep, doTryBorrowOne, Pool.doTryBorrowOne, hrun]
  · simp [hf', hfree]

/-- Where neither the free objects nor the waiters are covered, a coroutine can be stranded. -/
theorem strands {s : State Tid Obj} (hi : Inv cfg s) (hw : s.waiters ≠ [])
    (hc : ¬ Covered s.waiters.length s.pool.freeList.length s.ready.length s.notifying.length) :
    ∃ as s', Runs.run (step cfg) s as = some s' ∧ Stranded s' := by
  -- every release notifies, and every coroutine woken takes an object
  induction hn : 2 * s.notifying.length + s.ready.length using Nat.strongRecOn
    generalizing s with
  | ind n ih =>
    simp only [Covered, not_or, Nat.not_le] at hc
    obtain ⟨hfree, hwait⟩ := hc
    cases hnt : s.notifying with
    | cons t rest =>
        obtain ⟨w, ws, hws⟩ := List.exists_cons_of_ne_nil hw
        have h₁ : step cfg s (.notify t) = some { s with
            notifying := s.notifying.erase t, waiters := ws, ready := w :: s.ready } := by
          simp [step, hnt, hws]
        simp only [hnt, hws, List.length_cons] at hn hfree hwait
        obtain ⟨as, s', hrun, hstr⟩ := ih _ (by simp [hnt, ← hn]; omega) (inv_step s _ _ hi h₁)
          (List.ne_nil_of_length_pos (by simp only; omega))
          (by simp [Covered, hnt]; omega) rfl
        exact ⟨_ :: as, s', Runs.run_cons_some h₁ hrun, hstr⟩
    | nil =>
        have hf : s.pool.freeList ≠ [] := List.ne_nil_of_length_pos (Nat.zero_lt_of_lt hfree)
        cases hrd : s.ready with
        | cons u us =>
            obtain ⟨new, s₁, h₁, hw₁, hn₁, hr₁, hf₁⟩ := step_resumed hi (t := u) (by simp [hrd]) hf
            simp only [hnt, hrd, List.length_cons, List.length_nil] at hn hfree hwait
            obtain ⟨as, s', hrun, hstr⟩ := ih _ (by simp [hn₁, hr₁, hnt, hrd, ← hn])
              (inv_step s _ _ hi h₁) (by rwa [hw₁])
              (by simp [Covered, hw₁, hn₁, hr₁, hnt, hrd, hw]; omega) rfl
            exact ⟨_ :: as, s', Runs.run_cons_some h₁ hrun, hstr⟩
        | nil => exact ⟨[], s, rfl, hw, hf, hrd, hnt⟩

/-- **After a registration that is not expected, some continuation strands a coroutine.** -/
theorem stranded_of_not_expected {s s' : State Tid Obj} {act : Act Tid Obj} (hi : Inv cfg s)
    (hok : ¬ Expected s act) (h : step cfg s act = some s') :
    ∃ as s'', Runs.run (step cfg) s' as = some s'' ∧ Stranded s'' := by
  cases act with
  | register t =>
      have hi' := inv_step s _ s' hi h
      obtain ⟨-, rfl⟩ := step_register h
      refine strands hi' (by simp) ?_
      simpa [Expected] using hok
  | borrow ph t new => exact absurd trivial hok
  | release t a => exact absurd trivial hok
  | notify t => exact absurd trivial hok

end AliMiddleware.FixedObjectPoolCoro
