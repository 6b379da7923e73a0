import AliMiddleware.Lib.SerialDrain

/-!
# Lib — OneThread

The coroutines of one thread, at each of their steps.  A run of `CoroPool` is one of a single
thread when a coroutine that found nothing registers, and one that has released notifies, before
another comes to the pool (`Prompt`); between these, the state is one of `SerialWakeups`
(`OneThread`).

Some coroutine can always go on (`settled_or_moves`, `OneThread.releases`, `OneThread.resumes`),
unless nobody holds an object or waits for one (`OneThread.idle`), and every step but the arrival
of a coroutine leaves less to do (`pending_lt`).
-/

namespace AliMiddleware.FixedObjectPoolCoro

open Pool Serial

variable {Tid Obj : Type} {cfg : PoolConfig} [DecidableEq Tid]

/-! ### Runs of one thread -/

def Prompt (s : State Tid Obj) : Act Tid Obj → Prop
  | .borrow _ _ _ | .release _ _ => s.toRegister = [] ∧ s.notifying = []
  | .register _ | .notify _ => True

instance (s : State Tid Obj) (act : Act Tid Obj) : Decidable (Prompt s act) :=
  match act with
  | .borrow _ _ _ | .release _ _ => inferInstanceAs (Decidable (_ ∧ _))
  | .register _ | .notify _ => isTrue trivial

/-- A coroutine comes to `borrow_one` with empty hands. -/
def EmptyHanded (s : State Tid Obj) : Act Tid Obj → Prop
  | .borrow .borrowOne t _ => t ∉ s.lent.map Prod.fst
  | _ => True

/-- A state of a single thread: between two coroutines, or where one has still to register or to
notify. -/
inductive OneThread (cfg : PoolConfig) : State Tid Obj → Prop where
  | settled {x : Serial Tid Obj} (orderly : Orderly cfg x) : OneThread cfg x.now
  | found {x : Serial Tid Obj} {ph : Phase} {t : Tid} {new : NewObj Obj} {s : State Tid Obj}
      (orderly : Orderly cfg x) (one : BorrowsOne x (.borrow ph t new))
      (borrows : step cfg x.now (.borrow ph t new) = some s) (waits : t ∈ s.toRegister) :
      OneThread cfg s
  | released {x : Serial Tid Obj} {t : Tid} {a : Addr} {s : State Tid Obj}
      (orderly : Orderly cfg x) (releases : step cfg x.now (.release t a) = some s) :
      OneThread cfg s

theorem oneThread_init {p : Pool Obj Unit} (hp : Start cfg p) :
    OneThread cfg (init p : State Tid Obj) :=
  .settled ⟨accounted_init hp, apart_init p⟩

theorem OneThread.inv {s : State Tid Obj} (h : OneThread cfg s) : Inv cfg s := by
  cases h with
  | settled ho => exact ho.accounted.inv
  | found ho _ hb _ => exact inv_step _ _ _ ho.accounted.inv hb
  | released ho hr => exact inv_step _ _ _ ho.accounted.inv hr

/-- A coroutine that has found nothing is the only one that has to register, and none has to
notify. -/
theorem found_alone {x : Serial Tid Obj} {ph : Phase} {t : Tid} {new : NewObj Obj}
    {s : State Tid Obj} (hx : Orderly cfg x) (h : step cfg x.now (.borrow ph t new) = some s)
    (ht : t ∈ s.toRegister) : s.toRegister = [t] ∧ s.notifying = [] := by
  obtain ⟨hregister, hnotify⟩ := hx.accounted.settled
  obtain ⟨-, hb⟩ := FixedObjectPoolCoro.step_borrow hx.accounted.inv h
  cases hb with
  | takes _ _ _ _ _ => simp [hregister] at ht
  | creates _ _ _ _ _ => simp [hregister] at ht
  | throws _ _ _ _ => simp [hregister] at ht
  | full _ _ _ =>
      cases ph with
      | tryBorrowOne => simp [State.onNull, hregister] at ht
      | borrowOne | resumed =>
          exact ⟨by simp [State.onNull, hregister], by simpa [State.onNull] using hnotify⟩

/-- A coroutine that has released is the only one that has to notify, and none has to register. -/
theorem released_alone {x : Serial Tid Obj} {t : Tid} {a : Addr} {s : State Tid Obj}
    (hx : Orderly cfg x) (h : step cfg x.now (.release t a) = some s) :
    s.toRegister = [] ∧ s.notifying = [t] := by
  obtain ⟨hregister, hnotify⟩ := hx.accounted.settled
  obtain ⟨-, -, p', xs, xs', -, -, -, -, rfl⟩ :=
    FixedObjectPoolCoro.step_release hx.accounted.inv h
  exact ⟨hregister, by simp [hnotify]⟩

/-- **A step of one thread.** -/
theorem oneThread_step {s s' : State Tid Obj} {act : Act Tid Obj} (h : OneThread cfg s)
    (hprompt : Prompt s act) (hone : EmptyHanded s act) (hstep : step cfg s act = some s') :
    OneThread cfg s' := by
  cases act with
  | borrow ph t new =>
      cases h with
      | @settled x ho =>
          have hone' : BorrowsOne x (.borrow ph t new) := by
            cases ph with
            | borrowOne => exact hone
            | tryBorrowOne | resumed => trivial
          by_cases ht : t ∈ s'.toRegister
          · exact .found ho hone' hstep ht
          · have hserial : Serial.step cfg x (.borrow ph t new) =
                some { x with now := s', served := x.onReturn s' t ph } := by
              simp [Serial.step, hstep, ht]
            exact .settled (orderly_step _ _ _ ho hone' hserial)
      | found ho _ hb ht =>
          exact absurd hprompt.1 (by simp [(found_alone ho hb ht).1])
      | released ho hr =>
          exact absurd hprompt.2 (by simp [(released_alone ho hr).2])
  | release t a =>
      cases h with
      | settled ho => exact .released ho hstep
      | found ho _ hb ht =>
          exact absurd hprompt.1 (by simp [(found_alone ho hb ht).1])
      | released ho hr =>
          exact absurd hprompt.2 (by simp [(released_alone ho hr).2])
  | register t =>
      have ht := (step_register hstep).1
      cases h with
      | settled ho => simp [ho.accounted.settled.1] at ht
      | @found x ph u new _ ho hone' hb hu =>
          obtain rfl : t = u := by simpa [(found_alone ho hb hu).1] using ht
          have hserial : Serial.step cfg x (.borrow ph t new) =
              some { x with now := s', entered := x.onWait t ph } := by
            simp [Serial.step, hb, hu, hstep]
          exact .settled (orderly_step _ _ _ ho hone' hserial)
      | released ho hr => simp [(released_alone ho hr).1] at ht
  | notify t =>
      have ht := (step_notify hstep).1
      cases h with
      | settled ho => simp [ho.accounted.settled.2] at ht
      | found ho _ hb hu => simp [(found_alone ho hb hu).2] at ht
      | @released x u a _ ho hr =>
          obtain rfl : t = u := by simpa [(released_alone ho hr).2] using ht
          have hserial : Serial.step cfg x (.release t a) = some { x with now := s' } := by
            simp [Serial.step, hr, hstep]
          have hone' : BorrowsOne x (.release t a) := trivial
          exact .settled (orderly_step _ _ _ ho hone' hserial)

/-! ### What can happen -/

/-- Between two coroutines. -/
def Settled (s : State Tid Obj) : Prop := s.toRegister = [] ∧ s.notifying = []

theorem settled_or_moves (cfg : PoolConfig) (s : State Tid Obj) :
    Settled s ∨ (∃ t, step cfg s (.register t) ≠ none) ∨ ∃ t, step cfg s (.notify t) ≠ none := by
  cases hregister : s.toRegister with
  | cons t ts => exact .inr (.inl ⟨t, by simp [step, hregister]⟩)
  | nil =>
      cases hnotify : s.notifying with
      | nil => exact .inl ⟨hregister, hnotify⟩
      | cons t ts =>
          refine .inr (.inr ⟨t, ?_⟩)
          cases hw : s.waiters <;> simp [step, hnotify, hw]

theorem OneThread.orderly {s : State Tid Obj} (h : OneThread cfg s) (hs : Settled s) :
    ∃ x : Serial Tid Obj, Orderly cfg x ∧ x.now = s := by
  cases h with
  | @settled x ho => exact ⟨x, ho, rfl⟩
  | found ho _ hb ht => exact absurd hs.1 (List.ne_nil_of_mem ht)
  | released ho hr => exact absurd hs.2 (by simp [(released_alone ho hr).2])

/-- A holder can release. -/
theorem OneThread.releases {s : State Tid Obj} (h : OneThread cfg s) (hs : Settled s) {t : Tid}
    {a : Addr} (hmem : (t, a) ∈ s.lent) : step cfg s (.release t a) ≠ none := by
  obtain ⟨x, ho, rfl⟩ := h.orderly hs
  obtain ⟨x', hx'⟩ := Option.ne_none_iff_exists'.mp (release_possible ho hmem)
  obtain ⟨s₁, -, h₁, -⟩ := Serial.step_release hx'
  simp [h₁]

/-- A notified coroutine can resume, whatever the constructor would do. -/
theorem OneThread.resumes {s : State Tid Obj} (h : OneThread cfg s) (hs : Settled s) {t : Tid}
    (hready : t ∈ s.ready) : ∃ b, ∀ obj, step cfg s (.borrow .resumed t ⟨b, obj⟩) ≠ none := by
  obtain ⟨x, ho, rfl⟩ := h.orderly hs
  obtain ⟨b, hb⟩ := resume_possible ho.accounted hready
  refine ⟨b, fun obj => ?_⟩
  obtain ⟨x', hx'⟩ := Option.ne_none_iff_exists'.mp (hb obj)
  obtain ⟨s₁, h₁, -⟩ := Serial.step_borrow hx'
  simp [h₁]

/-- Everything is back and nobody is notified: nobody waits. -/
theorem OneThread.idle {s : State Tid Obj} (h : OneThread cfg s) (hpos : 0 < cfg.maxSize)
    (hs : Settled s) (hlent : s.lent = []) (hready : s.ready = []) : s.slow = [] := by
  obtain ⟨x, ho, rfl⟩ := h.orderly hs
  have hnone := ho.accounted.idle hpos hlent hready
  simpa [State.slow, hs.1, waiting] using hnone

/-! ### What is left to do -/

/-- No coroutine comes. -/
def Stays : Act Tid Obj → Prop
  | .borrow ph _ _ => ph = .resumed
  | .register _ | .release _ _ | .notify _ => True

instance (act : Act Tid Obj) : Decidable (Stays act) :=
  match act with
  | .borrow _ _ _ => inferInstanceAs (Decidable (_ = _))
  | .register _ | .release _ _ | .notify _ => isTrue trivial

/-- What the pool has left to do, when a coroutine that takes an object has `k` to do with it. -/
def pending (k : ℕ) (s : State Tid Obj) : ℕ :=
  4 * s.lent.length + (3 + k) * s.waiters.length + (4 + k) * s.toRegister.length +
    (5 + k) * s.ready.length + 3 * s.notifying.length

/-- **Every step leaves less to do**, and one that takes an object leaves enough for its use. -/
theorem pending_lt {k : ℕ} {s s' : State Tid Obj} {act : Act Tid Obj} (hi : Inv cfg s)
    (hstays : Stays act) (h : step cfg s act = some s') :
    pending k s' + (s'.lent.length - s.lent.length) * k < pending k s := by
  cases act with
  | borrow ph t new =>
      obtain rfl : ph = .resumed := hstays
      obtain ⟨hat, hb⟩ := FixedObjectPoolCoro.step_borrow hi h
      have hready : (s.ready.erase t).length + 1 = s.ready.length := List.length_erase_add_one hat
      rw [pending, pending, ← hready]
      cases hb with
      | takes | creates =>
          simp only [State.leave, List.length_cons, Nat.add_sub_cancel_left, Nat.one_mul]
          simp only [Nat.mul_add, Nat.add_mul]
          omega
      | throws =>
          simp only [State.leave, Nat.sub_self, Nat.zero_mul]
          simp only [Nat.mul_add, Nat.add_mul]
          omega
      | full =>
          simp only [State.leave, State.onNull, List.length_cons, Nat.sub_self, Nat.zero_mul]
          simp only [Nat.mul_add, Nat.add_mul]
          omega
  | register t =>
      obtain ⟨ht, rfl⟩ := step_register h
      have hless := List.length_erase_add_one ht
      simp only [pending, ← hless, List.length_append, List.length_singleton, Nat.sub_self,
        Nat.zero_mul]
      simp only [Nat.mul_add, Nat.add_mul]
      omega
  | release t a =>
      obtain ⟨-, ht, p', -, -, -, -, -, -, rfl⟩ := FixedObjectPoolCoro.step_release hi h
      have hless := List.length_erase_add_one ht
      have hnone : (s.lent.erase (t, a)).length - s.lent.length = 0 := by omega
      simp only [pending, hnone, Nat.zero_mul, List.length_cons]
      omega
  | notify t =>
      obtain ⟨ht, ⟨-, rfl⟩ | ⟨w, ws, hw, rfl⟩⟩ := step_notify h
      · have hless := List.length_erase_add_one ht
        simp only [pending, ← hless, Nat.sub_self, Nat.zero_mul]
        omega
      · have hless := List.length_erase_add_one ht
        simp only [pending, ← hless, hw, List.length_cons, Nat.sub_self, Nat.zero_mul]
        simp only [Nat.mul_add, Nat.add_mul]
        omega

end AliMiddleware.FixedObjectPoolCoro
