import AliMiddleware.Lib.CoroPool

/-!
# Lib — FilledPool

`fixed_object_pool_coro` after `fill_full`, as `provider_info` makes its pool.  All objects there
can be are there before the first borrower comes, so no borrower constructs one: the nodes stay
the same in every run, each of them free or lent, `try_borrow_one` throws nothing whatever the
constructor would do, and a coroutine that called `borrow_one` has an object or is still in it
(`slow_of_borrow`, `slow_step`).
-/

namespace AliMiddleware.FixedObjectPoolCoro

open Pool

variable {Tid Obj : Type} {cfg : PoolConfig}

/-- The objects are `nodes`, as many as there can be, and each of them is free or lent. -/
structure Filled (cfg : PoolConfig) (nodes : List Addr) (s : State Tid Obj) : Prop where
  inv : Inv cfg s
  share : (s.pool.freeList ++ s.lentObjs).Perm nodes
  full : nodes.length = cfg.maxSize

theorem Filled.length {nodes : List Addr} {s : State Tid Obj} (h : Filled cfg nodes s)
    {xs : TraceableList.Elems Obj Bool} (hx : Holds cfg s.pool s.lentObjs xs) :
    xs.length = cfg.maxSize := by
  rw [← TraceableList.length_addrs, ← hx.share.length_eq, h.share.length_eq, h.full]

/-- The live nodes of `buffer`. -/
theorem Filled.live {nodes : List Addr} {s : State Tid Obj} (h : Filled cfg nodes s) (a : Addr) :
    s.pool.buffer.heap a ≠ none ↔ a ∈ nodes := by
  obtain ⟨xs, hx⟩ := h.inv
  rw [← h.share.mem_iff, hx.share.mem_iff]
  exact ⟨hx.rep.live a, hx.rep.mem_live⟩

/-- `fill_full` constructs `max_size` objects. -/
theorem filled_init {news : ℕ → NewObj Obj} {p : Pool Obj Unit}
    (hfill : (fillFull cfg news).run (Pool.fresh ()) = .done () p) :
    ∃ nodes, Filled cfg nodes (init p : State Tid Obj) := by
  have hloop := fillLoop_holds cfg news (Nat.le_refl _)
  rw [fillFull] at hfill
  rw [hfill] at hloop
  obtain ⟨xs, hx, hlength⟩ := hloop
  exact ⟨TraceableList.addrs xs, ⟨xs, hx⟩, hx.share, by rw [TraceableList.length_addrs, hlength]⟩

variable [DecidableEq Tid]

/-- **A borrowing step in a filled pool** takes a free object or finds none. -/
theorem filled_borrow {nodes : List Addr} {s s' : State Tid Obj} {ph : Phase} {t : Tid}
    {new : NewObj Obj} (hs : Filled cfg nodes s) (h : step cfg s (.borrow ph t new) = some s') :
    (∃ a rest p', s.pool.freeList = a :: rest ∧ p'.freeList = rest ∧
        s' = { s.leave t ph with pool := p', lent := (t, a) :: s.lent }) ∨
      s.pool.freeList = [] ∧ s' = (s.leave t ph).onNull t ph := by
  obtain ⟨-, hb⟩ := step_borrow hs.inv h
  cases hb with
  | takes hfree hfree' _ _ _ => exact .inl ⟨_, _, _, hfree, hfree', rfl⟩
  | creates _ _ hx hmore hx' =>
      have hlength := hs.length hx
      have hbound := hx'.bound
      omega
  | throws _ hx hroom _ => exact absurd hroom (hs.length hx).not_lt
  | full hfree _ _ => exact .inr ⟨hfree, rfl⟩

/-- **Every step keeps the objects.** -/
theorem filled_step {nodes : List Addr} (s : State Tid Obj) (act : Act Tid Obj) (s' : State Tid Obj)
    (hs : Filled cfg nodes s) (h : step cfg s act = some s') : Filled cfg nodes s' := by
  refine ⟨inv_step s act s' hs.inv h, ?_, hs.full⟩
  have hnodes := hs.share
  cases act with
  | borrow ph t new =>
      rcases filled_borrow hs h with ⟨a, rest, p', hfree, hfree', rfl⟩ | ⟨-, rfl⟩
      · rw [hfree] at hnodes
        simpa [State.lentObjs, hfree'] using List.perm_middle.trans hnodes
      · cases ph <;> exact hnodes
  | register t =>
      obtain ⟨-, rfl⟩ := step_register h
      exact hnodes
  | release t a =>
      obtain ⟨-, hmem, p', _, _, hfree, -, -, -, rfl⟩ := step_release hs.inv h
      have hlent : s.lentObjs.Perm (a :: (s.lent.erase (t, a)).map Prod.snd) :=
        lent_perm_erase hmem
      rw [State.lentObjs, hfree]
      exact (List.perm_middle.symm.trans (hlent.symm.append_left _)).trans hnodes
  | notify t =>
      obtain ⟨-, ⟨-, rfl⟩ | ⟨w, ws, -, rfl⟩⟩ := step_notify h
      · exact hnodes
      · exact hnodes

/-! ### Who is in `borrow_one` -/

/-- A coroutine that called `borrow_one` has an object or is still in it. -/
theorem slow_of_borrow {nodes : List Addr} {s s' : State Tid Obj} {ph : Phase} {t : Tid}
    {new : NewObj Obj} (hs : Filled cfg nodes s) (hph : ph ≠ .tryBorrowOne)
    (h : step cfg s (.borrow ph t new) = some s') : t ∈ s'.lent.map Prod.fst ∨ t ∈ s'.slow := by
  rcases filled_borrow hs h with ⟨a, rest, p', -, -, rfl⟩ | ⟨-, rfl⟩
  · exact .inl (by simp)
  · cases ph with
    | tryBorrowOne => exact absurd rfl hph
    | borrowOne | resumed => exact .inr (by simp [State.slow, State.onNull])

/-- **What others do leaves a coroutine in `borrow_one`.** -/
theorem slow_step {s s' : State Tid Obj} {act : Act Tid Obj} {u : Tid} (hi : Inv cfg s)
    (hu : u ∈ s.slow) (hother : ∀ ph new, act ≠ .borrow ph u new)
    (h : step cfg s act = some s') : u ∈ s'.slow := by
  cases act with
  | borrow ph t new =>
      have hne : u ≠ t := by
        rintro rfl
        exact hother ph new rfl
      have hleave : u ∈ (s.leave t ph).slow := by
        cases ph with
        | tryBorrowOne | borrowOne => exact hu
        | resumed =>
            simp only [State.slow, State.leave, List.mem_append] at hu ⊢
            exact hu.imp_right (Or.imp_right (List.mem_erase_of_ne hne).mpr)
      obtain ⟨-, hb⟩ := step_borrow hi h
      cases hb with
      | takes _ _ _ _ _ => exact hleave
      | creates _ _ _ _ _ => exact hleave
      | throws _ _ _ _ => exact hleave
      | full _ _ _ =>
          cases ph with
          | tryBorrowOne => exact hleave
          | borrowOne | resumed => exact List.mem_cons_of_mem _ hleave
  | register t =>
      obtain ⟨-, rfl⟩ := step_register h
      simp only [State.slow, List.mem_append, List.mem_singleton] at hu ⊢
      by_cases hut : u = t
      · exact .inr (.inl (.inr hut))
      · rcases hu with hreg | hw | hr
        · exact .inl ((List.mem_erase_of_ne hut).mpr hreg)
        · exact .inr (.inl (.inl hw))
        · exact .inr (.inr hr)
  | release t a =>
      obtain ⟨-, -, p', _, _, -, -, -, -, rfl⟩ := step_release hi h
      exact hu
  | notify t =>
      obtain ⟨-, ⟨-, rfl⟩ | ⟨w, ws, hw, rfl⟩⟩ := step_notify h
      · exact hu
      · simp only [State.slow, hw, List.mem_append, List.mem_cons] at hu ⊢
        tauto

/-! ### Runs -/

/-- **A filled pool constructs nothing more.**  After `fill_full`, in every state that any
interleaving of borrowers and releasers reaches: the nodes of `buffer` are the ones `fill_full`
made, as many of them are free or lent as there can be, and `try_borrow_one` throws nothing and
returns `nullptr` exactly when all of them are lent, whatever a constructor would do. -/
theorem filled_constructs_nothing {news : ℕ → NewObj Obj} {p : Pool Obj Unit}
    (hfill : (fillFull cfg news).run (Pool.fresh ()) = .done () p) {s : State Tid Obj}
    (h : Runs.Reachable (step cfg) (init p) s) :
    (∀ a, s.pool.buffer.heap a ≠ none ↔ p.buffer.heap a ≠ none) ∧
    s.pool.freeList.length + s.lent.length = cfg.maxSize ∧
    ∀ new : NewObj Obj, s.pool.buffer.heap new.addr = none →
      ∃ result p', (doTryBorrowOne cfg new).run s.pool = .done result p' ∧
        (result = none ↔ s.lent.length = cfg.maxSize) := by
  obtain ⟨nodes, hstart⟩ : ∃ nodes, Filled cfg nodes (init p : State Tid Obj) := filled_init hfill
  have hs : Filled cfg nodes s := h.invariant filled_step hstart
  have hcount : s.pool.freeList.length + s.lent.length = cfg.maxSize := by
    rw [← hs.full, ← hs.share.length_eq, List.length_append, State.lentObjs, List.length_map]
  refine ⟨fun a => (hs.live a).trans (hstart.live a).symm, hcount, ?_⟩
  intro new hnew
  obtain ⟨xs, hx⟩ := hs.inv
  have hlength := hs.length hx
  have hout := doTryBorrowOne_outcome hx id hnew
  rw [doTryBorrowOne]
  generalize (Pool.doTryBorrowOne cfg id new).run s.pool = out at hout
  cases hout with
  | reused hfree _ _ _ _ =>
      refine ⟨_, _, rfl, ?_⟩
      rw [hfree, List.length_cons] at hcount
      constructor
      · simp
      · intro hall
        omega
  | created _ hroom _ _ _ _ => exact absurd hroom hlength.not_lt
  | failed _ hroom _ => exact absurd hroom hlength.not_lt
  | full hfree _ =>
      refine ⟨_, _, rfl, fun _ => ?_, fun _ => rfl⟩
      rwa [hfree, List.length_nil, Nat.zero_add] at hcount

/-- Two objects, both lent at the end. -/
def sampleFilled : List (Act ℕ Unit) :=
  [.borrow .borrowOne 1 ⟨30, none⟩, .borrow .borrowOne 2 ⟨30, none⟩, .release 1 10, .notify 1,
   .borrow .tryBorrowOne 3 ⟨30, none⟩]

theorem filled_constructs_nothing_sample : ∃ (p : Pool Unit Unit) (s : State ℕ Unit),
    (fillFull { maxSize := 2 } fun n => ⟨10 * (n + 1), some ()⟩).run (Pool.fresh ()) =
        .done () p ∧
      Runs.run (step { maxSize := 2 }) (init p) sampleFilled = some s ∧
      s.pool.freeList.length + s.lent.length = 2 := by
  obtain ⟨p, hp, s, hs⟩ : ∃ p : Pool Unit Unit,
      (fillFull { maxSize := 2 } fun n => ⟨10 * (n + 1), some ()⟩).run (Pool.fresh ()) =
        .done () p ∧ ∃ s, Runs.run (step { maxSize := 2 }) (init p) sampleFilled = some s :=
    ⟨_, rfl, _, rfl⟩
  exact ⟨p, s, hp, hs, (filled_constructs_nothing hp ⟨sampleFilled, hs⟩).2.1⟩

end AliMiddleware.FixedObjectPoolCoro
