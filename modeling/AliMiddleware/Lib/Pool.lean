import AliMiddleware.Lib.ListRuns

/-!
# Lib — Pool

The mutex-protected sections of `fixed_object_pool` and `fixed_object_pool_coro`
(`lib/pool.hpp`).  Both classes hold a `buffer` of objects with a free flag each, and a
`free_list` of pointers into it; the blocking one also has `new_obj_ready`.  The sections are the
same code up to that flag, so they are written once, over a record with a further member `flag`
of a type `F`, and the two classes are its instances at `Bool` and at `Unit`.

A section that constructs an object is told what the world answers: the address of the new node
and what the constructor of `obj_t` does (`NewObj`).

What a section can do in a state that satisfies the representation invariant is said once, in
`PoolInvariant`.
-/

namespace AliMiddleware

/-- `max_size`, and the memory outside the pool's nodes where the `magic` of a `node` would be. -/
structure PoolConfig where
  maxSize : ℕ
  foreign : Addr → Option UInt32 := fun _ => none

/-- The members of a pool. -/
structure Pool (Obj F : Type) where
  /-- list<obj_t obj, bool is_free> -/
  buffer : TraceableList Obj Bool
  freeList : List Addr
  flag : F

/-- A construction: where the node goes, and the object, if the constructor returns. -/
structure NewObj (Obj : Type) where
  addr : Addr
  obj : Option Obj

/-- For the lists of who holds what. -/
instance {Tid : Type} [DecidableEq Tid] : LawfulBEq (Tid × Addr) := inferInstance

abbrev PoolM (Obj F : Type) := Exec (Pool Obj F) Exn

variable {Obj F : Type}

namespace Pool

def fresh (flag : F) : Pool Obj F where
  buffer := TraceableList.empty
  freeList := []
  flag := flag

/-- A member function of `buffer`. -/
def onBuffer {α : Type} (m : ListM Obj Bool α) : PoolM Obj F α where
  run p := match m.run p.buffer with
    | .done a l => .done a { p with buffer := l }
    | .threw e l => .threw e { p with buffer := l }
    | .undefined => .undefined

/-- `new_obj_to_buffer` -/
def newObjToBuffer (new : NewObj Obj) : PoolM Obj F Unit :=
  match new.obj with
  | none => Exec.throw .construction
  | some obj => onBuffer (TraceableList.pushBack new.addr obj true)

/-- `&*--buffer.end()` -/
def lastObj : PoolM Obj F (Option Addr) := onBuffer do
  let l ← Exec.get
  let it ← TraceableList.decr l.endIt
  let _ ← TraceableList.load it.ptr
  pure it.ptr

/-- `new_obj_to_buffer(); free_list.push_back(&*--buffer.end());` -/
def addObj (new : NewObj Obj) : PoolM Obj F Unit := do
  newObjToBuffer new
  let p ← lastObj
  Exec.modify fun s => { s with freeList := s.freeList ++ p.toList }

/-- `do_try_borrow_one`, for at most `fuel` passes over `borrow_again`. -/
def borrowAgain (cfg : PoolConfig) (onBorrow : F → F) (new : NewObj Obj) :
    ℕ → PoolM Obj F (Option Addr)
  | 0 => Exec.undefined
  | fuel + 1 => do
      let s ← Exec.get
      match s.freeList with
      | result :: rest => do
          -- Some object is free. Just return one.
          Exec.modify fun s => { s with freeList := rest }
          let elemIter ← onBuffer (TraceableList.iteratorOf cfg.foreign (some result))
          onBuffer (TraceableList.setExtraInfo elemIter false)
          Exec.modify fun s => { s with flag := onBorrow s.flag }
          pure (some result)
      | [] => do
          let size ← onBuffer TraceableList.size
          if size < cfg.maxSize then
            addObj new
            borrowAgain cfg onBorrow new fuel
          else pure none

/-- The locked section of `release_one`; a null `which` is read through. -/
def releaseSection (cfg : PoolConfig) (onRelease : F → F) (which : Option Addr) :
    PoolM Obj F Unit :=
  match which with
  | none => Exec.undefined
  | some which => do
      Exec.modify fun s => { s with freeList := which :: s.freeList }
      let elemIter ← onBuffer (TraceableList.iteratorOf cfg.foreign (some which))
      onBuffer (TraceableList.setExtraInfo elemIter true)
      Exec.modify fun s => { s with flag := onRelease s.flag }

/-- `do_try_borrow_one`: the second pass finds the object the first one added. -/
def doTryBorrowOne (cfg : PoolConfig) (onBorrow : F → F) (new : NewObj Obj) :
    PoolM Obj F (Option Addr) :=
  borrowAgain cfg onBorrow new 2

end Pool

namespace FixedObjectPool

/-- `do_try_borrow_one`, where `flag` is `new_obj_ready`. -/
def doTryBorrowOne (cfg : PoolConfig) (new : NewObj Obj) : PoolM Obj Bool (Option Addr) :=
  Pool.doTryBorrowOne cfg (fun _ => false) new

/-- `release_one` up to the release of the lock. -/
def releaseSection (cfg : PoolConfig) (which : Option Addr) : PoolM Obj Bool Unit :=
  Pool.releaseSection cfg (fun _ => true) which

end FixedObjectPool

namespace FixedObjectPoolCoro

/-- `do_try_borrow_one` -/
def doTryBorrowOne (cfg : PoolConfig) (new : NewObj Obj) : PoolM Obj Unit (Option Addr) :=
  Pool.doTryBorrowOne cfg id new

/-- `release_one` up to the release of the lock. -/
def releaseSection (cfg : PoolConfig) (which : Option Addr) : PoolM Obj Unit Unit :=
  Pool.releaseSection cfg id which

/-- The first `n` rounds of `fill_full`. -/
def fillLoop (news : ℕ → NewObj Obj) : ℕ → PoolM Obj Unit Unit
  | 0 => pure ()
  | cter + 1 => do
      fillLoop news cter
      Pool.addObj (news cter)

/-- `fill_full` -/
def fillFull (cfg : PoolConfig) (news : ℕ → NewObj Obj) : PoolM Obj Unit Unit :=
  fillLoop news cfg.maxSize

end FixedObjectPoolCoro

end AliMiddleware
