import AliMiddleware.Lib.BlockingPool
import AliMiddleware.Lib.CoroPool

/-!
# Lib — PoolDemand

How many objects a pool constructs.  An object is constructed only when `free_list` is empty, so
when everything in `buffer` is lent; hence `buffer.size()` is the largest number of objects that
were lent at the same time, and borrowing gives `nullptr` when this many, `max_size`, are lent
now (`buffer_peak`, for both pools).
-/

namespace AliMiddleware

namespace Pool

variable {Tid Obj F : Type} {cfg : PoolConfig}

/-- What `buffer` holds is free or lent. -/
theorem Holds.mSize {p : Pool Obj F} {lent : List Addr} {xs : TraceableList.Elems Obj Bool}
    (h : Holds cfg p lent xs) : p.buffer.mSize = p.freeList.length + lent.length := by
  rw [h.rep.size, h.length]

/-- **There is nothing to lend** exactly when `max_size` objects are lent. -/
theorem borrow_null_iff {p : Pool Obj F} {lent : List Addr} {xs : TraceableList.Elems Obj Bool}
    (h : Holds cfg p lent xs) (onBorrow : F → F) {new : NewObj Obj}
    (hnew : p.buffer.heap new.addr = none) :
    (∃ p', (doTryBorrowOne cfg onBorrow new).run p = .done none p') ↔
      lent.length = cfg.maxSize := by
  have hlen := h.length
  have hbound := h.bound
  have hout := doTryBorrowOne_outcome h onBorrow hnew
  generalize (doTryBorrowOne cfg onBorrow new).run p = out at hout
  cases hout with
  | reused hfree =>
      rw [hfree, List.length_cons] at hlen
      refine ⟨fun hnull => ?_, fun hfull => absurd hbound (by omega)⟩
      obtain ⟨p', hp'⟩ := hnull
      cases hp'
  | created hfree hroom =>
      rw [hfree, List.length_nil] at hlen
      refine ⟨fun hnull => ?_, fun hfull => absurd hroom (by omega)⟩
      obtain ⟨p', hp'⟩ := hnull
      cases hp'
  | failed hfree hroom =>
      rw [hfree, List.length_nil] at hlen
      refine ⟨fun hnull => ?_, fun hfull => absurd hroom (by omega)⟩
      obtain ⟨p', hp'⟩ := hnull
      cases hp'
  | full hfree hfull =>
      rw [hfree, List.length_nil, Nat.zero_add] at hlen
      exact ⟨fun _ => hlen.trans hfull, fun _ => ⟨p, rfl⟩⟩

/-- A constructor that throws leaves the pool as it was. -/
theorem borrow_threw {p p' : Pool Obj F} {lent : List Addr} {xs : TraceableList.Elems Obj Bool}
    (h : Holds cfg p lent xs) {onBorrow : F → F} {new : NewObj Obj} {e : Exn}
    (hnew : p.buffer.heap new.addr = none)
    (hrun : (doTryBorrowOne cfg onBorrow new).run p = .threw e p') : p' = p := by
  have hout := doTryBorrowOne_outcome h onBorrow hnew
  rw [hrun] at hout
  cases hout
  rfl

/-- What holds of a pool with `lent` objects lent, when the numbers in `seen` were lent at the same
time so far. -/
structure Demand (cfg : PoolConfig) (onBorrow : F → F) (p : Pool Obj F) (lent : ℕ)
    (seen : Set ℕ) : Prop where
  /-- `buffer.size()` is the peak. -/
  peak : IsGreatest seen p.buffer.mSize
  /-- `try_borrow_one` returns `nullptr` exactly when `max_size` objects are lent. -/
  null : ∀ new : NewObj Obj, p.buffer.heap new.addr = none →
    ((∃ p', (doTryBorrowOne cfg onBorrow new).run p = .done none p') ↔ lent = cfg.maxSize)
  /-- A constructor that throws changes nothing. -/
  threw : ∀ (new : NewObj Obj) (e : Exn) (p' : Pool Obj F), p.buffer.heap new.addr = none →
    (doTryBorrowOne cfg onBorrow new).run p = .threw e p' → p' = p

theorem Holds.demand {p : Pool Obj F} {lent : List Addr} {xs : TraceableList.Elems Obj Bool}
    {seen : Set ℕ} (h : Holds cfg p lent xs) (onBorrow : F → F)
    (hpeak : IsGreatest seen p.buffer.mSize) : Demand cfg onBorrow p lent.length seen where
  peak := hpeak
  null := fun _ hnew => borrow_null_iff h onBorrow hnew
  threw := fun _ _ _ hnew hrun => borrow_threw h hnew hrun

/-- What a step makes of `buffer.size()`: it stays, or everything in the pool is lent before the
step and after it, and as much as before. -/
def Grows (p : Pool Obj F) (lent : List (Tid × Addr)) (p' : Pool Obj F)
    (lent' : List (Tid × Addr)) : Prop :=
  p'.buffer.mSize = p.buffer.mSize ∨
    p.freeList = [] ∧ p'.freeList = [] ∧ lent.length ≤ lent'.length

/-- A pool whose objects are moved, or marked. -/
theorem Holds.grows_of_length {p p' : Pool Obj F} {held held' : List Addr}
    {xs xs' : TraceableList.Elems Obj Bool} (h : Holds cfg p held xs)
    (h' : Holds cfg p' held' xs') (hsame : xs'.length = xs.length)
    (lent lent' : List (Tid × Addr)) : Grows p lent p' lent' :=
  .inl (h'.rep.size.trans (hsame.trans h.rep.size.symm))

/-- **`buffer` grows only when everything in it is lent**, so its size is the mark of the numbers
of objects lent. -/
theorem marks_of_grows {σ α : Type} {step : σ → α → Option σ} {Inv : σ → Prop}
    {pool : σ → Pool Obj F} {lent : σ → List (Tid × Addr)}
    (hholds : ∀ s, Inv s → ∃ xs, Holds cfg (pool s) ((lent s).map Prod.snd) xs)
    (hkeep : ∀ s act s', Inv s → step s act = some s' → Inv s')
    (hgrows : ∀ s act s', Inv s → step s act = some s' →
      Grows (pool s) (lent s) (pool s') (lent s')) :
    Runs.Marks step (fun s => (lent s).length) (fun s => (pool s).buffer.mSize) Inv := by
  have hsize : ∀ s, Inv s →
      (pool s).buffer.mSize = (pool s).freeList.length + (lent s).length := by
    intro s hs
    obtain ⟨xs, hx⟩ := hholds s hs
    rw [hx.mSize, List.length_map]
  refine ⟨fun s hs => ?_, hkeep, fun s act s' hs h => ?_⟩
  · rw [hsize s hs]
    exact Nat.le_add_left _ _
  · rcases hgrows s act s' hs h with hsame | ⟨hfree, hfree', hmore⟩
    · exact .inl hsame
    · rw [hsize s hs, hsize s' (hkeep s act s' hs h), hfree, hfree', List.length_nil, Nat.zero_add,
        Nat.zero_add]
      exact .inr ⟨hmore, rfl⟩

end Pool

open Pool

namespace FixedObjectPool

variable {Tid Obj : Type} [DecidableEq Tid] {cfg : PoolConfig}

theorem grows_step (s : State Tid Obj) (act : Act Tid Obj) (s' : State Tid Obj) (hi : Inv cfg s)
    (h : step cfg s act = some s') : Grows s.pool s.lent s'.pool s'.lent := by
  cases act with
  | borrow ph t new =>
      obtain ⟨-, hb⟩ := step_borrow hi h
      cases hb with
      | blocks => exact .inl (by cases ph <;> rfl)
      | takes _ _ _ _ hx hsame hx' => exact hx.grows_of_length hx' hsame _ _
      | creates _ hfree hfree' => exact .inr ⟨hfree, hfree', by simp⟩
      | throws => exact .inl (by cases ph <;> rfl)
      | full => exact .inl (by cases ph <;> rfl)
  | release t a =>
      obtain ⟨-, -, p', xs, xs', -, -, hx, hsame, hx', rfl⟩ := step_release hi h
      exact hx.grows_of_length hx' hsame _ _
  | notify t w =>
      cases w with
      | none =>
          simp only [step, Option.ite_none_right_eq_some, Option.some.injEq] at h
          obtain ⟨-, rfl⟩ := h
          exact .inl rfl
      | some u =>
          simp only [step, Option.ite_none_right_eq_some, Option.some.injEq] at h
          obtain ⟨-, rfl⟩ := h
          exact .inl rfl
  | spurious t =>
      simp only [step, Option.ite_none_right_eq_some, Option.some.injEq] at h
      obtain ⟨-, rfl⟩ := h
      exact .inl rfl

end FixedObjectPool

namespace FixedObjectPoolCoro

variable {Tid Obj : Type} [DecidableEq Tid] {cfg : PoolConfig}

theorem grows_step (s : State Tid Obj) (act : Act Tid Obj) (s' : State Tid Obj) (hi : Inv cfg s)
    (h : step cfg s act = some s') : Grows s.pool s.lent s'.pool s'.lent := by
  cases act with
  | borrow ph t new =>
      obtain ⟨-, hb⟩ := step_borrow hi h
      cases hb with
      | takes _ _ hx hsame hx' => exact hx.grows_of_length hx' hsame _ _
      | creates hfree hfree' => exact .inr ⟨hfree, hfree', by simp⟩
      | throws => exact .inl (by cases ph <;> rfl)
      | full => exact .inl (by cases ph <;> rfl)
  | register t =>
      obtain ⟨-, rfl⟩ := step_register h
      exact .inl rfl
  | release t a =>
      obtain ⟨-, -, p', xs, xs', -, hx, hsame, hx', rfl⟩ := step_release hi h
      exact hx.grows_of_length hx' hsame _ _
  | notify t =>
      obtain ⟨-, ⟨-, rfl⟩ | ⟨w, ws, -, rfl⟩⟩ := step_notify h
      · exact .inl rfl
      · exact .inl rfl

end FixedObjectPoolCoro

namespace Pool

variable {Tid Obj : Type} [DecidableEq Tid]

/-- **A pool constructs what peak demand needs.**  In every run of any number of borrowers and
releasers, in the blocking pool and in the coroutine pool that starts empty, with constructors
that throw. -/
theorem buffer_peak (cfg : PoolConfig) :
    (∀ (as : List (FixedObjectPool.Act Tid Obj)) (s : FixedObjectPool.State Tid Obj),
      Runs.run (FixedObjectPool.step cfg) FixedObjectPool.init as = some s →
      Demand cfg (fun _ => false) s.pool s.lent.length
        (Runs.Seen (FixedObjectPool.step cfg) (fun s => s.lent.length) FixedObjectPool.init as)) ∧
    (∀ (as : List (FixedObjectPoolCoro.Act Tid Obj)) (s : FixedObjectPoolCoro.State Tid Obj),
      Runs.run (FixedObjectPoolCoro.step cfg) (FixedObjectPoolCoro.init (fresh ())) as = some s →
      Demand cfg id s.pool s.lent.length
        (Runs.Seen (FixedObjectPoolCoro.step cfg) (fun s => s.lent.length)
          (FixedObjectPoolCoro.init (fresh ())) as)) := by
  constructor
  · intro as s hrun
    have hmarks : Runs.Marks (FixedObjectPool.step cfg)
        (fun s : FixedObjectPool.State Tid Obj => s.lent.length)
        (fun s => s.pool.buffer.mSize) (FixedObjectPool.Inv cfg) :=
      marks_of_grows (fun _ hi => hi) FixedObjectPool.inv_step FixedObjectPool.grows_step
    have hpeak := hmarks.peak FixedObjectPool.inv_init rfl hrun
    obtain ⟨xs, hx⟩ := FixedObjectPool.inv_reachable ⟨as, hrun⟩
    have hdemand := hx.demand (fun _ => false) hpeak
    rwa [FixedObjectPool.State.lentObjs, List.length_map] at hdemand
  · intro as s hrun
    have hmarks : Runs.Marks (FixedObjectPoolCoro.step cfg)
        (fun s : FixedObjectPoolCoro.State Tid Obj => s.lent.length)
        (fun s => s.pool.buffer.mSize) (FixedObjectPoolCoro.Inv cfg) :=
      marks_of_grows (fun _ hi => hi) FixedObjectPoolCoro.inv_step FixedObjectPoolCoro.grows_step
    have hpeak := hmarks.peak (FixedObjectPoolCoro.inv_init .fresh) rfl hrun
    obtain ⟨xs, hx⟩ := FixedObjectPoolCoro.inv_reachable .fresh ⟨as, hrun⟩
    have hdemand := hx.demand id hpeak
    rwa [FixedObjectPoolCoro.State.lentObjs, List.length_map] at hdemand

/-- Two threads borrow, one of them gives back, and a third borrows. -/
def threadsDemand : List (FixedObjectPool.Act ℕ Char) :=
  [.borrow .borrowOne 1 ⟨10, some 'a'⟩, .borrow .borrowOne 2 ⟨20, some 'b'⟩, .release 1 10,
    .notify 1 none, .borrow .tryBorrowOne 3 ⟨30, some 'c'⟩]

/-- The same, with coroutines. -/
def coroutinesDemand : List (FixedObjectPoolCoro.Act ℕ Char) :=
  [.borrow .borrowOne 1 ⟨10, some 'a'⟩, .borrow .borrowOne 2 ⟨20, some 'b'⟩, .release 1 10,
    .notify 1, .borrow .tryBorrowOne 3 ⟨30, some 'c'⟩]

/-- `buffer_peak` at these two runs: two objects. -/
theorem buffer_peak_sample :
    IsGreatest (Runs.Seen (FixedObjectPool.step { maxSize := 3 }) (fun s => s.lent.length)
      FixedObjectPool.init threadsDemand) 2 ∧
    IsGreatest (Runs.Seen (FixedObjectPoolCoro.step { maxSize := 3 }) (fun s => s.lent.length)
      (FixedObjectPoolCoro.init (fresh ())) coroutinesDemand) 2 := by
  constructor
  · obtain ⟨s, hs, hsize⟩ : ∃ s, Runs.run (FixedObjectPool.step { maxSize := 3 })
        FixedObjectPool.init threadsDemand = some s ∧ s.pool.buffer.mSize = 2 := ⟨_, rfl, rfl⟩
    exact hsize ▸ ((buffer_peak { maxSize := 3 }).1 threadsDemand s hs).peak
  · obtain ⟨s, hs, hsize⟩ : ∃ s, Runs.run (FixedObjectPoolCoro.step { maxSize := 3 })
        (FixedObjectPoolCoro.init (fresh ())) coroutinesDemand = some s ∧
          s.pool.buffer.mSize = 2 := ⟨_, rfl, rfl⟩
    exact hsize ▸ ((buffer_peak { maxSize := 3 }).2 coroutinesDemand s hs).peak

end Pool

end AliMiddleware
