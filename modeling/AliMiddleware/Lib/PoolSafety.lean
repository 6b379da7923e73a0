import AliMiddleware.Lib.BlockingPool
import AliMiddleware.Lib.CoroPool

/-!
# Lib — PoolSafety

What every interleaving of borrowers and releasers keeps, for both pools.  `Lending` states the
representation invariant without the ghost elements of `Holds`: over the nodes of `buffer` as
their links give them, `free_list`, and who holds what.  `lending_reachable` is the invariant
over all runs, with constructors that throw; no section of such a run is undefined
(`borrow_defined`, `release_defined`, for each pool), and the `throw` at the end of the blocking
pool's `borrow_one` is never reached (`slow_path_never_fails`).
-/

namespace AliMiddleware

open Pool

namespace Pool

variable {Tid Obj F : Type} {cfg : PoolConfig}

/-- The nodes `as` of `buffer` are the objects in `free_list` and the ones that are lent, each
object is one or the other and in one hand, and the free ones are the ones marked free. -/
structure Lending (cfg : PoolConfig) (p : Pool Obj F) (lent : List (Tid × Addr))
    (as : List Addr) (seq : List (Obj × Bool)) : Prop where
  elements : TraceableList.Represents p.buffer as seq
  nodup : p.freeList.Nodup
  free_element : ∀ a ∈ p.freeList, a ∈ as
  mark : ∀ a n, p.buffer.heap a = some n → (n.extraInfo = true ↔ a ∈ p.freeList)
  share : ∀ a, a ∈ as ↔ a ∈ p.freeList ∨ a ∈ lent.map Prod.snd
  not_both : ∀ a ∈ p.freeList, a ∉ lent.map Prod.snd
  exclusive : (lent.map Prod.snd).Nodup
  bound : p.buffer.mSize ≤ cfg.maxSize

theorem Holds.lending {p : Pool Obj F} {lent : List (Tid × Addr)}
    {xs : TraceableList.Elems Obj Bool} (h : Holds cfg p (lent.map Prod.snd) xs) :
    Lending cfg p lent (TraceableList.addrs xs) (xs.map Prod.snd) where
  elements := h.rep.represents
  nodup := (List.nodup_append.mp h.nodup).1
  free_element := fun a ha => h.share.subset (List.mem_append_left _ ha)
  mark := by
    intro a n hn
    have ha : a ∈ TraceableList.addrs xs := h.rep.live a (by simp [hn])
    obtain ⟨⟨b, d, e⟩, hx, rfl⟩ := List.mem_map.mp ha
    obtain ⟨n', hn', -, rfl, -⟩ := h.rep.elem b d e hx
    obtain rfl : n = n' := Option.some.inj (hn.symm.trans hn')
    exact h.mark b d _ hx
  share := fun a => by rw [← h.share.mem_iff, List.mem_append]
  not_both := fun a ha hl => (List.nodup_append.mp h.nodup).2.2 a ha a hl rfl
  exclusive := (List.nodup_append.mp h.nodup).2.1
  bound := by
    rw [h.rep.size]
    exact h.bound

/-- **Exclusive lending.**  In every state that any interleaving of borrowers and releasers
reaches, in the blocking pool and in the coroutine pool, `fill_full` called first or not. -/
theorem lending_reachable [DecidableEq Tid] (cfg : PoolConfig) :
    (∀ s : FixedObjectPool.State Tid Obj,
      Runs.Reachable (FixedObjectPool.step cfg) FixedObjectPool.init s →
      ∃ as seq, Lending cfg s.pool s.lent as seq) ∧
    (∀ (p : Pool Obj Unit) (s : FixedObjectPoolCoro.State Tid Obj),
      FixedObjectPoolCoro.Start cfg p →
      Runs.Reachable (FixedObjectPoolCoro.step cfg) (FixedObjectPoolCoro.init p) s →
      ∃ as seq, Lending cfg s.pool s.lent as seq) := by
  constructor
  · intro s hs
    obtain ⟨xs, hx⟩ := FixedObjectPool.inv_reachable hs
    exact ⟨_, _, hx.lending⟩
  · intro p s hp hs
    obtain ⟨xs, hx⟩ := FixedObjectPoolCoro.inv_reachable hp hs
    exact ⟨_, _, hx.lending⟩

/-- A pool of two: the second construction throws once, and the third thread, which found the
pool full, gets to the lock when the object released has been taken. -/
def sampleThreads : List (FixedObjectPool.Act ℕ Char) :=
  [.borrow .tryBorrowOne 1 ⟨10, some 'a'⟩, .borrow .borrowOne 2 ⟨20, none⟩,
   .borrow .borrowOne 2 ⟨20, some 'b'⟩, .borrow .borrowOne 3 ⟨30, some 'c'⟩, .release 1 10,
   .borrow .tryBorrowOne 4 ⟨30, none⟩, .borrow .lock 3 ⟨30, none⟩]

/-- A filled pool of one: the waiter is resumed when the object released has been taken. -/
def sampleCoroutines : List (FixedObjectPoolCoro.Act ℕ Char) :=
  [.borrow .borrowOne 1 ⟨20, none⟩, .borrow .borrowOne 2 ⟨20, none⟩, .register 2,
   .release 1 10, .borrow .tryBorrowOne 3 ⟨20, none⟩, .notify 1, .borrow .resumed 2 ⟨20, none⟩]

/-- `lending_reachable` at these two runs. -/
theorem lending_reachable_sample :
    (∃ s as seq, Runs.run (FixedObjectPool.step { maxSize := 2 }) FixedObjectPool.init
        sampleThreads = some s ∧ s.lent = [(4, 10), (2, 20)] ∧
      Lending { maxSize := 2 } s.pool s.lent as seq) ∧
    (∃ p s as seq, FixedObjectPoolCoro.Start { maxSize := 1 } p ∧
      Runs.run (FixedObjectPoolCoro.step { maxSize := 1 }) (FixedObjectPoolCoro.init p)
        sampleCoroutines = some s ∧ s.lent = [(3, 10)] ∧
      Lending { maxSize := 1 } s.pool s.lent as seq) := by
  constructor
  · obtain ⟨s, hs, hl⟩ : ∃ s, Runs.run (FixedObjectPool.step { maxSize := 2 })
        FixedObjectPool.init sampleThreads = some s ∧ s.lent = [(4, 10), (2, 20)] :=
      ⟨_, rfl, rfl⟩
    obtain ⟨as, seq, h⟩ := (lending_reachable { maxSize := 2 }).1 s ⟨_, hs⟩
    exact ⟨s, as, seq, hs, hl, h⟩
  · obtain ⟨p, hp, s, hs, hl⟩ : ∃ p : Pool Char Unit,
        FixedObjectPoolCoro.Start { maxSize := 1 } p ∧
        ∃ s, Runs.run (FixedObjectPoolCoro.step { maxSize := 1 }) (FixedObjectPoolCoro.init p)
          sampleCoroutines = some s ∧ s.lent = [(3, 10)] :=
      ⟨_, @FixedObjectPoolCoro.Start.filled _ _ (fun _ => ⟨10, some 'a'⟩) _ rfl, _, rfl, rfl⟩
    obtain ⟨as, seq, h⟩ := (lending_reachable { maxSize := 1 }).2 p s hp ⟨_, hs⟩
    exact ⟨p, s, as, seq, hp, hs, hl, h⟩

end Pool

/-! ### No section is undefined -/

namespace Pool

variable {Tid Obj F : Type} {cfg : PoolConfig}

/-- The borrowing section does not run into undefined behaviour. -/
theorem Holds.borrow_defined {p : Pool Obj F} {lent : List Addr}
    {xs : TraceableList.Elems Obj Bool} (h : Holds cfg p lent xs) (onBorrow : F → F)
    {new : NewObj Obj} (hnew : p.buffer.heap new.addr = none) :
    (doTryBorrowOne cfg onBorrow new).run p ≠ .undefined := by
  intro hrun
  have hout := doTryBorrowOne_outcome h onBorrow hnew
  rw [hrun] at hout
  cases hout

/-- The releasing section of what is lent ends. -/
theorem Holds.release_done [DecidableEq Tid] {p : Pool Obj F} {lent : List (Tid × Addr)}
    {xs : TraceableList.Elems Obj Bool} (h : Holds cfg p (lent.map Prod.snd) xs)
    (onRelease : F → F) {t : Tid} {a : Addr} (hm : (t, a) ∈ lent) :
    ∃ p', (releaseSection cfg onRelease (some a)).run p = .done () p' := by
  obtain ⟨p', -, hrun, -⟩ := releaseSection_spec h (lent_perm_erase hm) onRelease
  exact ⟨p', hrun⟩

end Pool

namespace FixedObjectPool

variable {Tid Obj : Type} [DecidableEq Tid] {cfg : PoolConfig}

/-- A thread at `do_try_borrow_one` gets through its section. -/
theorem borrow_defined {s : State Tid Obj} {ph : Phase} {t : Tid} {new : NewObj Obj}
    (hi : Inv cfg s) (hat : s.At t ph) (hnew : s.pool.buffer.heap new.addr = none) :
    ∃ s', step cfg s (.borrow ph t new) = some s' := by
  obtain ⟨xs, hx⟩ := hi
  have hdef := hx.borrow_defined (fun _ => false) hnew
  simp only [step, hat, hnew, Option.isNone_none, and_self, if_true, borrowStep, leave_pool,
    doTryBorrowOne]
  split_ifs with hw
  · exact ⟨_, rfl⟩
  · split
    · exact ⟨_, rfl⟩
    · exact ⟨_, rfl⟩
    · exact ⟨_, rfl⟩
    · next hrun => exact absurd hrun hdef

/-- A thread that releases what it holds gets through its section. -/
theorem release_defined {s : State Tid Obj} {t : Tid} {a : Addr} (hi : Inv cfg s)
    (hidle : s.Idle t) (hm : (t, a) ∈ s.lent) : ∃ s', step cfg s (.release t a) = some s' := by
  obtain ⟨xs, hx⟩ := hi
  obtain ⟨p', hrun⟩ := hx.release_done (fun _ => true) hm
  simp only [step, hidle, hm, and_self, if_true, releaseSection, hrun]
  exact ⟨_, rfl⟩

/-! ### The slow path of `borrow_one` -/

/-- `new_obj_ready` announces an object that is there, and no `borrow_one` has thrown
`std::logic_error`. -/
structure Announced (s : State Tid Obj) : Prop where
  free : s.pool.flag = true → s.pool.freeList ≠ []
  noError : s.parError = []

omit [DecidableEq Tid] in
theorem announced_init : Announced (init : State Tid Obj) where
  free := fun hflag => absurd hflag Bool.false_ne_true
  noError := rfl

/-- A thread that gets through its test finds an object, so it is never at the `throw`. -/
theorem announced_borrow {s s' : State Tid Obj} {ph : Phase} {t : Tid} {new : NewObj Obj}
    (h : Announced s) (hb : Borrowed cfg s ph t new s') : Announced s' := by
  have hleave : (s.leave t ph).parError = [] := by cases ph <;> exact h.noError
  cases hb with
  | blocks => exact ⟨by simpa using h.free, hleave⟩
  | takes _ _ _ hflag => exact ⟨fun htrue => absurd (hflag.symm.trans htrue) (by decide), hleave⟩
  | creates _ _ _ hflag => exact ⟨fun htrue => absurd (hflag.symm.trans htrue) (by decide), hleave⟩
  | throws => exact ⟨by simpa using h.free, hleave⟩
  | full hready hfree =>
      refine ⟨by simpa using h.free, ?_⟩
      cases ph with
      | tryBorrowOne => exact h.noError
      | borrowOne => exact h.noError
      | lock => exact absurd hfree (h.free (hready rfl))
      | woken => exact absurd hfree (h.free (hready rfl))

theorem announced_step {s s' : State Tid Obj} {act : Act Tid Obj} (hi : Inv cfg s)
    (h : Announced s) (hs : step cfg s act = some s') : Announced s' := by
  cases act with
  | borrow ph t new => exact announced_borrow h (step_borrow hi hs).2
  | release t a =>
      obtain ⟨-, -, p', xs, xs', hfree, -, -, -, -, rfl⟩ := step_release hi hs
      refine ⟨fun _ => ?_, h.noError⟩
      change p'.freeList ≠ []
      rw [hfree]
      exact List.cons_ne_nil _ _
  | notify t w =>
      cases w with
      | none =>
          simp only [step, Option.ite_none_right_eq_some, Option.some.injEq] at hs
          obtain ⟨-, rfl⟩ := hs
          exact ⟨h.free, h.noError⟩
      | some u =>
          simp only [step, Option.ite_none_right_eq_some, Option.some.injEq] at hs
          obtain ⟨-, rfl⟩ := hs
          exact ⟨h.free, h.noError⟩
  | spurious t =>
      simp only [step, Option.ite_none_right_eq_some, Option.some.injEq] at hs
      obtain ⟨-, rfl⟩ := hs
      exact ⟨h.free, h.noError⟩

/-- **The slow path never fails.**  Between any two sections of any interleaving an object is
free when `new_obj_ready` says so; hence no `borrow_one` has thrown `std::logic_error`, and the
section of a thread that finds the flag up gives it an object. -/
theorem slow_path_never_fails (cfg : PoolConfig) {s : State Tid Obj}
    (h : Runs.Reachable (step cfg) init s) :
    (s.pool.flag = true → s.pool.freeList ≠ []) ∧ s.parError = [] ∧
      ∀ new : NewObj Obj, s.pool.buffer.heap new.addr = none → s.pool.flag = true →
        ∃ a p, (doTryBorrowOne cfg new).run s.pool = .done (some a) p := by
  obtain ⟨hi, hann⟩ : Inv cfg s ∧ Announced s :=
    h.invariant (I := fun s => Inv cfg s ∧ Announced s)
      (fun s act s' hs hstep => ⟨inv_step s act s' hs.1 hstep, announced_step hs.1 hs.2 hstep⟩)
      ⟨inv_init, announced_init⟩
  refine ⟨hann.free, hann.noError, fun new hnew hflag => ?_⟩
  obtain ⟨xs, hx⟩ := hi
  obtain ⟨a, rest, hfree⟩ := List.exists_cons_of_ne_nil (hann.free hflag)
  obtain ⟨p', -, hrun, -⟩ := borrowAgain_reuse hx hfree (fun _ => false) new 1
  exact ⟨a, p', hrun⟩

/-- `slow_path_never_fails` where the object released is taken before the thread comes to the
lock. -/
theorem slow_path_never_fails_stolen : ∃ s,
    Runs.run (step { maxSize := 2 }) init sampleThreads = some s ∧ s.blocked = [3] ∧
      s.parError = [] := by
  obtain ⟨s, hs, hblocked⟩ : ∃ s, Runs.run (step { maxSize := 2 }) init sampleThreads = some s ∧
      s.blocked = [3] := ⟨_, rfl, rfl⟩
  obtain ⟨-, herror, -⟩ := slow_path_never_fails { maxSize := 2 } ⟨_, hs⟩
  exact ⟨s, hs, hblocked, herror⟩

end FixedObjectPool

namespace FixedObjectPoolCoro

variable {Tid Obj : Type} [DecidableEq Tid] {cfg : PoolConfig}

/-- A coroutine at `try_borrow_one` gets through its section. -/
theorem borrow_defined {s : State Tid Obj} {ph : Phase} {t : Tid} {new : NewObj Obj}
    (hi : Inv cfg s) (hat : s.At t ph) (hnew : s.pool.buffer.heap new.addr = none) :
    ∃ s', step cfg s (.borrow ph t new) = some s' := by
  obtain ⟨xs, hx⟩ := hi
  have hdef := hx.borrow_defined id hnew
  simp only [step, hat, hnew, Option.isNone_none, and_self, if_true, borrowStep, leave_pool,
    doTryBorrowOne]
  split
  · exact ⟨_, rfl⟩
  · exact ⟨_, rfl⟩
  · exact ⟨_, rfl⟩
  · next hrun => exact absurd hrun hdef

/-- A coroutine that releases what it holds gets through its section. -/
theorem release_defined {s : State Tid Obj} {t : Tid} {a : Addr} (hi : Inv cfg s)
    (hidle : s.Idle t) (hm : (t, a) ∈ s.lent) : ∃ s', step cfg s (.release t a) = some s' := by
  obtain ⟨xs, hx⟩ := hi
  obtain ⟨p', hrun⟩ := hx.release_done id hm
  simp only [step, hidle, hm, and_self, if_true, releaseSection, hrun]
  exact ⟨_, rfl⟩

end FixedObjectPoolCoro

end AliMiddleware
