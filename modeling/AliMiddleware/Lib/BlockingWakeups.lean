import AliMiddleware.Lib.BlockingPool

/-!
# Lib — BlockingWakeups

Lost wake-ups of `fixed_object_pool`.  `new_obj_ready` is one flag for any number of free
objects: every release sets it and every borrow clears it, also a borrow that leaves objects in
`free_list`.  A thread of the slow path that comes to its test after such a borrow blocks while
an object is free (`not_never_stranded_thread`: two releases, two wake-ups, and the second thread
woken is stranded).

`LastOrAlone` is the condition on a step: a borrow takes the last object of `free_list`, or
nobody else is in the slow path.  While the steps meet it, the flag is up whenever it has to be
(`Signalled`), and no thread is stranded (`never_stranded_thread`).  After a step that does not
meet it some continuation strands a thread (`stranded_of_not_lastOrAlone`).
-/

namespace AliMiddleware.FixedObjectPool

open Pool

variable {Tid Obj : Type} {cfg : PoolConfig}

/-- A thread is blocked in `borrow_one`, an object is free, and nothing is under way that will
wake the thread: no woken thread has still to repeat its test, no release has still to notify. -/
def Stranded (s : State Tid Obj) : Prop :=
  s.blocked ≠ [] ∧ s.pool.freeList ≠ [] ∧ s.woken = [] ∧ s.notifying = []

instance [DecidableEq Tid] (s : State Tid Obj) : Decidable (Stranded s) :=
  inferInstanceAs (Decidable (_ ∧ _ ∧ _ ∧ _))

/-- While a thread is in the slow path, a free object is announced by the flag; while a thread
is blocked, there is a wake-up for every free object. -/
structure Signalled (s : State Tid Obj) : Prop where
  flag : s.slow ≠ [] → s.pool.freeList ≠ [] → s.pool.flag = true
  wakeups : s.blocked ≠ [] → s.pool.freeList.length ≤ s.woken.length + s.notifying.length

/-- With nothing free there is nothing to announce. -/
theorem signalled_of_free_nil {s : State Tid Obj} (h : s.pool.freeList = []) : Signalled s where
  flag := fun _ hf => absurd h hf
  wakeups := fun _ => by simp [h]

theorem slow_eq_nil {s : State Tid Obj} :
    s.slow = [] ↔ s.toLock = [] ∧ s.blocked = [] ∧ s.woken = [] := by
  simp [State.slow]

/-- With nobody in the slow path there is nobody to wake. -/
theorem signalled_of_slow_nil {s : State Tid Obj} (h : s.slow = []) : Signalled s where
  flag := fun hs => absurd h hs
  wakeups := fun hb => absurd (slow_eq_nil.mp h).2.1 hb

theorem signalled_init : Signalled (init : State Tid Obj) := signalled_of_slow_nil rfl

theorem Signalled.not_stranded {s : State Tid Obj} (h : Signalled s) : ¬ Stranded s := by
  rintro ⟨hb, hf, hw, hn⟩
  have hcount := h.wakeups hb
  rw [hw, hn] at hcount
  exact hf (List.length_eq_zero_iff.mp (Nat.le_zero.mp hcount))

/-- A thread at a waiting phase is in the slow path. -/
theorem slow_of_at {s : State Tid Obj} {t : Tid} {ph : Phase} (h : s.At t ph)
    (hw : ph.waits = true) : s.slow ≠ [] := by
  intro hs
  obtain ⟨h₁, -, h₂⟩ := slow_eq_nil.mp hs
  cases ph with
  | tryBorrowOne | borrowOne => simp [Phase.waits] at hw
  | lock => simp [State.At, h₁] at h
  | woken => simp [State.At, h₂] at h

variable [DecidableEq Tid]

/-- A borrow of a free object takes the last one, or no other thread is in the slow path. -/
def LastOrAlone (s : State Tid Obj) : Act Tid Obj → Prop
  | .borrow ph t _ => (ph.waits = true → s.pool.flag = true) →
      s.pool.freeList.length ≤ 1 ∨ (s.leave t ph).slow = []
  | _ => True

instance (s : State Tid Obj) (act : Act Tid Obj) : Decidable (LastOrAlone s act) :=
  match act with
  | .borrow _ _ _ => inferInstanceAs (Decidable (_ → _ ∨ _))
  | .release _ _ | .notify _ _ | .spurious _ => isTrue trivial

/-- A borrowing step that meets the condition. -/
theorem signalled_borrow {s s' : State Tid Obj} {ph : Phase} {t : Tid} {new : NewObj Obj}
    (hs : Signalled s) (hok : LastOrAlone s (.borrow ph t new)) (hat : s.At t ph)
    (hb : Borrowed cfg s ph t new s') : Signalled s' := by
  cases hb with
  | blocks hw hg =>
      -- the flag is down and the thread is slow, so nothing is free
      have hf : s.pool.freeList = [] := by
        by_contra hf
        simp [hs.flag (slow_of_at hat hw) hf] at hg
      exact signalled_of_free_nil (by simpa using hf)
  | takes hready hf hf' hg _ _ _ =>
      rcases hok hready with hone | halone
      · refine signalled_of_free_nil (hf'.trans ?_)
        simpa [hf] using hone
      · exact signalled_of_slow_nil halone
  | creates _ _ hf' _ _ _ _ => exact signalled_of_free_nil hf'
  | throws _ hf _ _ _ => exact signalled_of_free_nil (by simpa using hf)
  | full _ hf _ _ => exact signalled_of_free_nil (by simpa using hf)

/-- **A step that meets the condition keeps every free object announced.** -/
theorem signalled_step {s s' : State Tid Obj} {act : Act Tid Obj} (hi : Inv cfg s)
    (hs : Signalled s) (hok : LastOrAlone s act) (h : step cfg s act = some s') :
    Signalled s' := by
  cases act with
  | borrow ph t new =>
      obtain ⟨hat, hb⟩ := step_borrow hi h
      exact signalled_borrow hs hok hat hb
  | release t a =>
      obtain ⟨-, -, p', _, _, hf, hg, -, -, -, rfl⟩ := step_release hi h
      constructor
      · intro _ _
        exact hg
      · intro hb
        have hcount := hs.wakeups hb
        simp only [hf, List.length_cons]
        omega
  | notify t w =>
      cases w with
      | none =>
          simp only [step, Option.ite_none_right_eq_some, Option.some.injEq] at h
          obtain ⟨⟨-, hb⟩, rfl⟩ := h
          exact ⟨hs.flag, fun hne => absurd hb hne⟩
      | some u =>
          simp only [step, Option.ite_none_right_eq_some, Option.some.injEq] at h
          obtain ⟨⟨ht, hu⟩, rfl⟩ := h
          constructor
          · intro _ hf
            exact hs.flag (fun hnil => by simp [(slow_eq_nil.mp hnil).2.1] at hu) hf
          · intro _
            have hcount := hs.wakeups (List.ne_nil_of_mem hu)
            have hpos := List.length_pos_of_mem ht
            simp only [List.length_cons, List.length_erase_of_mem ht]
            omega
  | spurious t =>
      simp only [step, Option.ite_none_right_eq_some, Option.some.injEq] at h
      obtain ⟨ht, rfl⟩ := h
      constructor
      · intro _ hf
        exact hs.flag (fun hnil => by simp [(slow_eq_nil.mp hnil).2.1] at ht) hf
      · intro _
        have hcount := hs.wakeups (List.ne_nil_of_mem ht)
        simp only [List.length_cons]
        omega

/-- **No thread is stranded in a run whose borrows take the last free object or run alone.** -/
theorem never_stranded_thread {s : State Tid Obj} {as : List (Act Tid Obj)}
    (hok : Runs.Meets (step cfg) LastOrAlone init as)
    (h : Runs.run (step cfg) init as = some s) : ¬ Stranded s := by
  have hboth : Inv cfg s ∧ Signalled s :=
    Runs.meets_invariant (I := fun s => Inv cfg s ∧ Signalled s)
      (fun s act s' hs hok h => ⟨inv_step s act s' hs.1 h, signalled_step hs.1 hs.2 hok h⟩)
      ⟨inv_init, signalled_init⟩ hok h
  exact hboth.2.not_stranded

/-- Two threads share the one object of a pool; the second waits for the first. -/
def handover : List (Act ℕ Unit) :=
  [.borrow .tryBorrowOne 1 ⟨10, some ()⟩, .borrow .borrowOne 2 ⟨20, some ()⟩,
   .borrow .lock 2 ⟨20, some ()⟩, .release 1 10, .notify 1 (some 2),
   .borrow .woken 2 ⟨20, some ()⟩]

theorem never_stranded_thread_handover :
    ∃ s, Runs.run (step { maxSize := 1 }) init handover = some s ∧ ¬ Stranded s :=
  ⟨_, rfl, never_stranded_thread
    (show Runs.Meets (step { maxSize := 1 }) LastOrAlone init handover by decide) rfl⟩

/-! ### The lost wake-up -/

/-- **Two releases, two wake-ups, one stranded thread.**  The first thread woken takes one of
the two free objects and clears the flag; the second finds the flag down and blocks. -/
theorem not_never_stranded_thread : ∃ (as : List (Act ℕ Unit)) (s : State ℕ Unit),
    Runs.run (step { maxSize := 2 }) init as = some s ∧ Stranded s :=
  ⟨[.borrow .tryBorrowOne 1 ⟨10, some ()⟩, .borrow .tryBorrowOne 2 ⟨20, some ()⟩,
    .borrow .borrowOne 3 ⟨30, some ()⟩, .borrow .lock 3 ⟨30, some ()⟩,
    .borrow .borrowOne 4 ⟨30, some ()⟩, .borrow .lock 4 ⟨30, some ()⟩,
    .release 1 10, .release 2 20, .notify 1 (some 3), .notify 2 (some 4),
    .borrow .woken 3 ⟨30, some ()⟩, .borrow .woken 4 ⟨30, some ()⟩],
   _, rfl, by decide⟩

/-! ### The condition is exact -/

/-- A thread that waits finds the flag down and blocks. -/
theorem step_blocks {s : State Tid Obj} {ph : Phase} {t : Tid} (hi : Inv cfg s) (hat : s.At t ph)
    (hw : ph.waits = true) (hg : s.pool.flag = false) : ∃ new, step cfg s (.borrow ph t new) =
      some { s.leave t ph with blocked := t :: (s.leave t ph).blocked } := by
  obtain ⟨xs, hx⟩ := hi
  obtain ⟨b, hnew⟩ := hx.exists_fresh
  refine ⟨⟨b, none⟩, ?_⟩
  simp [step, borrowStep, hat, hnew, hw, hg]

/-- With the flag down, every thread that is not blocked can be brought to block. -/
theorem strands {s : State Tid Obj} (hi : Inv cfg s) (hg : s.pool.flag = false)
    (hf : s.pool.freeList ≠ []) (hs : s.slow ≠ []) :
    ∃ as s', Runs.run (step cfg) s as = some s' ∧ Stranded s' := by
  -- a notification wakes one thread, and a woken thread blocks again
  induction hn : 2 * s.notifying.length + s.woken.length + s.toLock.length
    using Nat.strongRecOn generalizing s with
  | ind n ih =>
    have extend : ∀ act s₁, step cfg s act = some s₁ → s₁.pool = s.pool → s₁.slow ≠ [] →
        2 * s₁.notifying.length + s₁.woken.length + s₁.toLock.length < n →
        ∃ as s', Runs.run (step cfg) s as = some s' ∧ Stranded s' := by
      intro act s₁ h₁ hp hs₁ hlt
      obtain ⟨as, s', hrun, hstr⟩ := ih _ hlt (inv_step s act s₁ hi h₁) (by rw [hp]; exact hg)
        (by rw [hp]; exact hf) hs₁ rfl
      exact ⟨act :: as, s', Runs.run_cons_some h₁ hrun, hstr⟩
    cases hnt : s.notifying with
    | cons t rest =>
        cases hb : s.blocked with
        | nil =>
            refine extend (.notify t none) { s with notifying := s.notifying.erase t }
              (by simp [step, hnt, hb]) rfl hs ?_
            simp [hnt] at hn ⊢
            omega
        | cons u us =>
            refine extend (.notify t (some u)) { s with
              notifying := s.notifying.erase t
              blocked := s.blocked.erase u
              woken := u :: s.woken } (by simp [step, hnt, hb]) rfl (by simp [State.slow]) ?_
            simp [hnt] at hn ⊢
            omega
    | nil =>
        cases hwk : s.woken with
        | cons u us =>
            have hat : s.At u .woken := by simp [State.At, hwk]
            obtain ⟨new, h₁⟩ := step_blocks hi hat rfl hg
            refine extend _ _ h₁ rfl (by simp [State.slow]) ?_
            simp [State.leave, hnt, hwk] at hn ⊢
            omega
        | nil =>
            cases hlk : s.toLock with
            | cons u us =>
                have hat : s.At u .lock := by simp [State.At, hlk]
                obtain ⟨new, h₁⟩ := step_blocks hi hat rfl hg
                refine extend _ _ h₁ rfl (by simp [State.slow]) ?_
                simp [State.leave, hnt, hwk, hlk] at hn ⊢
                omega
            | nil =>
                have hb : s.blocked ≠ [] := by simpa [State.slow, hwk, hlk] using hs
                exact ⟨[], s, rfl, hb, hf, hwk, hnt⟩

/-- **After a step that does not meet the condition, some continuation strands a thread.** -/
theorem stranded_of_not_lastOrAlone {s s' : State Tid Obj} {act : Act Tid Obj} (hi : Inv cfg s)
    (hok : ¬ LastOrAlone s act) (h : step cfg s act = some s') :
    ∃ as s'', Runs.run (step cfg) s' as = some s'' ∧ Stranded s'' := by
  cases act with
  | borrow ph t new =>
      simp only [LastOrAlone, not_forall, not_or, Nat.not_le] at hok
      obtain ⟨hready, hmany, hslow⟩ := hok
      obtain ⟨-, hb⟩ := step_borrow hi h
      have hi' := inv_step s _ s' hi h
      cases hb with
      | blocks hw hg => simp [hready hw] at hg
      | takes _ hf hf' hg _ _ _ =>
          rw [hf, ← hf', List.length_cons] at hmany
          exact strands hi' hg (List.ne_nil_of_length_pos (Nat.lt_of_succ_lt_succ hmany)) hslow
      | creates _ hf _ _ _ _ _ => simp [hf] at hmany
      | throws _ hf _ _ _ => simp [hf] at hmany
      | full _ hf _ _ => simp [hf] at hmany
  | release t a => exact absurd trivial hok
  | notify t w => exact absurd trivial hok
  | spurious t => exact absurd trivial hok

end AliMiddleware.FixedObjectPool
