import AliMiddleware.Lib.PoolInvariant
import AliMiddleware.Support.Runs

/-!
# Lib — FailedRelease

`release_one` of a pointer the `iterator` constructor rejects (`lib/pool.hpp`,
`lib/traceable_list.hpp`).  The constructor throws when the `magic` at the pointer is another
number; by then the pointer is in `free_list`.

A release is clean when, if it throws, it has changed nothing and no later borrow hands out the
pointer or throws over it.  In both pools it is clean exactly when the `magic` is not wrong
(`releases_cleanly_iff`); when it is, the next borrow takes the pointer out of `free_list` and
throws (`borrow_after_rejected`).
-/

namespace AliMiddleware

namespace Pool

variable {Obj F : Type}

/-- The `magic` where the pointer's node would be, if it can be read. -/
def magicAt (cfg : PoolConfig) (p : Pool Obj F) (which : Option Addr) : Option UInt32 :=
  which.bind fun a => ((p.buffer.heap a).map Node.magic).or (cfg.foreign a)

/-- There is something else at the pointer. -/
def WrongMagic (cfg : PoolConfig) (p : Pool Obj F) (which : Option Addr) : Prop :=
  ∃ magic, magicAt cfg p which = some magic ∧ magic ≠ nodeMagic

/-- What the `iterator` constructor throws. -/
def rejected : Exn := .invalidArgument
  "magic_num verification failed. invalid data_pointer passed or ruined memory?"

/-! ### A release that throws -/

/-- The constructor of `iterator`. -/
theorem iteratorOf_run (cfg : PoolConfig) (p : Pool Obj F) (which : Option Addr) :
    (onBuffer (TraceableList.iteratorOf cfg.foreign which) : PoolM Obj F Iterator).run p =
      match magicAt cfg p which with
      | none => .undefined
      | some magic =>
          if magic ≠ nodeMagic then .threw rejected p else .done ⟨which, none⟩ p := by
  simp only [onBuffer, TraceableList.iteratorOf, magicAt]
  cases which.bind fun a => ((p.buffer.heap a).map Node.magic).or (cfg.foreign a) with
  | none => rfl
  | some magic =>
      by_cases hm : magic = nodeMagic
      · simp [hm]
      · simp [hm, rejected]

theorem iteratorOf_wrong {cfg : PoolConfig} {p : Pool Obj F} {which : Option Addr}
    (h : WrongMagic cfg p which) :
    (onBuffer (TraceableList.iteratorOf cfg.foreign which) : PoolM Obj F Iterator).run p =
      .threw rejected p := by
  obtain ⟨magic, hmagic, hne⟩ := h
  simp [iteratorOf_run, hmagic, hne]

/-- **A rejected pointer is in `free_list`.** -/
theorem releaseSection_wrong {cfg : PoolConfig} {p : Pool Obj F} {a : Addr}
    (h : WrongMagic cfg p (some a)) (onRelease : F → F) :
    (releaseSection cfg onRelease (some a)).run p =
      .threw rejected { p with freeList := a :: p.freeList } := by
  have hit := iteratorOf_wrong (p := { p with freeList := a :: p.freeList }) h
  rw [releaseSection, Exec.run_bind_done (Exec.run_modify _ _), Exec.run_bind, hit]

/-- Nothing else makes the section throw. -/
theorem wrongMagic_of_threw {cfg : PoolConfig} {p p' : Pool Obj F} {which : Option Addr}
    {onRelease : F → F} {e : Exn}
    (h : (releaseSection cfg onRelease which).run p = .threw e p') : WrongMagic cfg p which := by
  cases which with
  | none => cases h
  | some a =>
      rw [releaseSection, Exec.run_bind_done (Exec.run_modify _ _), Exec.run_bind] at h
      have hmem : magicAt cfg { p with freeList := a :: p.freeList } (some a) =
          magicAt cfg p (some a) := rfl
      rw [iteratorOf_run, hmem] at h
      cases hmagic : magicAt cfg p (some a) with
      | none => simp [hmagic] at h
      | some magic =>
          refine ⟨magic, hmagic, ?_⟩
          rintro rfl
          simp only [hmagic, ne_eq, not_true_eq_false, if_false, onBuffer,
            TraceableList.setExtraInfo, TraceableList.store] at h
          cases hn : p.buffer.heap a with
          | none => simp [hn] at h
          | some n => simp [hn] at h

/-! ### Calls after it -/

/-- A call of the pool: `try_borrow_one` or a pass of `borrow_one`, or `release_one`. -/
inductive Call (Obj : Type) where
  | borrow (new : NewObj Obj)
  | release (which : Option Addr)

/-- The pool after a call, also when it throws. -/
def afterCall (cfg : PoolConfig) (onBorrow onRelease : F → F) (p : Pool Obj F) :
    Call Obj → Option (Pool Obj F)
  | .borrow new =>
      match (doTryBorrowOne cfg onBorrow new).run p with
      | .done _ q | .threw _ q => some q
      | .undefined => none
  | .release which =>
      match (releaseSection cfg onRelease which).run p with
      | .done _ q | .threw _ q => some q
      | .undefined => none

/-- The call has nothing to do with the pointer. -/
def Call.Other (which : Option Addr) : Call Obj → Prop
  | .borrow new => some new.addr ≠ which
  | .release a => a ≠ which

/-- No borrow after these calls hands out the pointer or throws over a pointer. -/
def Harmless (cfg : PoolConfig) (onBorrow onRelease : F → F) (p : Pool Obj F)
    (which : Option Addr) : Prop :=
  ∀ calls q new q', (∀ c ∈ calls, Call.Other which c) → Call.Other which (.borrow new) →
    Runs.run (afterCall cfg onBorrow onRelease) p calls = some q →
      (doTryBorrowOne cfg onBorrow new).run q ≠ .done which q' ∧
        (doTryBorrowOne cfg onBorrow new).run q ≠ .threw rejected q'

/-- A release that throws leaves everything as it was, for the borrows after it as well. -/
def ReleasesCleanly (cfg : PoolConfig) (onBorrow onRelease : F → F) (p : Pool Obj F)
    (which : Option Addr) : Prop :=
  ∀ e p', (releaseSection cfg onRelease which).run p = .threw e p' →
    (p'.freeList = p.freeList ∧ p'.buffer = p.buffer ∧ p'.flag = p.flag) ∧
      Harmless cfg onBorrow onRelease p' which

/-- **The borrow after a rejected release throws**, and takes the pointer out of `free_list`. -/
theorem borrow_after_rejected {cfg : PoolConfig} {p : Pool Obj F} {a : Addr}
    (h : WrongMagic cfg p (some a)) (onBorrow : F → F) (new : NewObj Obj) :
    (doTryBorrowOne cfg onBorrow new).run { p with freeList := a :: p.freeList } =
      .threw rejected p := by
  have hit := iteratorOf_wrong h
  rw [doTryBorrowOne, borrowAgain, Exec.run_bind_done (Exec.run_get _),
    Exec.run_bind_done (Exec.run_modify _ _), Exec.run_bind, hit]

/-- With a right magic a release is clean, and with a wrong one it is not. -/
theorem releasesCleanly_iff {cfg : PoolConfig} (onBorrow onRelease : F → F) (p : Pool Obj F)
    (which : Option Addr) :
    ReleasesCleanly cfg onBorrow onRelease p which ↔ ¬ WrongMagic cfg p which := by
  constructor
  · intro hclean hwrong
    cases which with
    | none =>
        obtain ⟨magic, hmagic, -⟩ := hwrong
        cases hmagic
    | some a =>
        obtain ⟨⟨hfree, -⟩, -⟩ := hclean _ _ (releaseSection_wrong hwrong onRelease)
        exact List.cons_ne_self a p.freeList hfree
  · intro hright e p' h
    exact absurd (wrongMagic_of_threw h) hright

/-- The later borrows alone tell as well. -/
theorem not_harmless_of_wrong {cfg : PoolConfig} {p : Pool Obj F} {a : Addr}
    (h : WrongMagic cfg p (some a)) (onBorrow onRelease : F → F) {new : NewObj Obj}
    (hnew : new.addr ≠ a) :
    ¬ Harmless cfg onBorrow onRelease { p with freeList := a :: p.freeList } (some a) := by
  intro hharmless
  have hother : Call.Other (some a) (.borrow new) := fun he => hnew (Option.some.inj he)
  obtain ⟨-, hthrows⟩ := hharmless [] _ new p (fun c hc => absurd hc List.not_mem_nil) hother rfl
  exact hthrows (borrow_after_rejected h onBorrow new)

/-- A pointer to an object of the pool is never rejected. -/
theorem Holds.not_wrongMagic {cfg : PoolConfig} {p : Pool Obj F} {lent : List Addr}
    {xs : TraceableList.Elems Obj Bool} (h : Holds cfg p lent xs) {a : Addr}
    (ha : a ∈ p.freeList ++ lent) : ¬ WrongMagic cfg p (some a) := by
  intro hwrong
  have hright := pointer_spec cfg h.rep (h.share.subset ha)
  cases hright.symm.trans (iteratorOf_wrong hwrong)

end Pool

open Pool

/-- `release_one` of `fixed_object_pool` -/
def FixedObjectPool.ReleasesCleanly {Obj : Type} (cfg : PoolConfig) (p : Pool Obj Bool)
    (which : Option Addr) : Prop :=
  Pool.ReleasesCleanly cfg (fun _ => false) (fun _ => true) p which

/-- `release_one` of `fixed_object_pool_coro` -/
def FixedObjectPoolCoro.ReleasesCleanly {Obj : Type} (cfg : PoolConfig) (p : Pool Obj Unit)
    (which : Option Addr) : Prop :=
  Pool.ReleasesCleanly cfg id id p which

/-- **A release is clean** exactly when the magic at the pointer is not wrong, in every state of
either pool. -/
theorem releases_cleanly_iff {Obj : Type} (cfg : PoolConfig) (which : Option Addr) :
    (∀ p : Pool Obj Bool,
      FixedObjectPool.ReleasesCleanly cfg p which ↔ ¬ WrongMagic cfg p which) ∧
    (∀ p : Pool Obj Unit,
      FixedObjectPoolCoro.ReleasesCleanly cfg p which ↔ ¬ WrongMagic cfg p which) :=
  ⟨fun p => releasesCleanly_iff _ _ p which, fun p => releasesCleanly_iff _ _ p which⟩

/-- **A rejected pointer stays in `free_list`, and the next borrow throws.**  Both pools are new,
and the memory at the pointer holds 0 where the magic would be. -/
theorem not_releases_cleanly : ∃ (cfg : PoolConfig) (a : Addr),
    ¬ FixedObjectPool.ReleasesCleanly cfg (Pool.fresh false : Pool Unit Bool) (some a) ∧
    ¬ FixedObjectPoolCoro.ReleasesCleanly cfg (Pool.fresh () : Pool Unit Unit) (some a) ∧
    (FixedObjectPoolCoro.releaseSection cfg (some a)).run (Pool.fresh () : Pool Unit Unit) =
      .threw rejected { Pool.fresh () with freeList := [a] } ∧
    (FixedObjectPoolCoro.doTryBorrowOne cfg ⟨10, some ()⟩).run
      { (Pool.fresh () : Pool Unit Unit) with freeList := [a] } =
        .threw rejected (Pool.fresh ()) := by
  refine ⟨{ maxSize := 1, foreign := fun _ => some 0 }, 7, ?_, ?_, rfl, rfl⟩
  · intro h
    obtain ⟨⟨hfree, -⟩, -⟩ := h rejected { Pool.fresh false with freeList := [7] } rfl
    cases hfree
  · intro h
    obtain ⟨⟨hfree, -⟩, -⟩ := h rejected { Pool.fresh () with freeList := [7] } rfl
    cases hfree

end AliMiddleware
