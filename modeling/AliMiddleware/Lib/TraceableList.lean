import AliMiddleware.Support.Outcome
import Mathlib.Data.Nat.Notation
import Mathlib.Logic.Function.Basic

/-!
# Lib — TraceableList

`lib/traceable_list.hpp`: a doubly linked list whose iterators can be made from a pointer to an
element.  The list is a heap of nodes with `head`, `tail` and `m_size`.  `data` is the first
member of `node`, so a pointer to an element is the address of its node; the null pointer is
`none`.  An address names a cell of the heap only while its node is live: reading or writing
through the null pointer or through an address with no node is undefined.

`new node` returns an address that no live node has.  Which one is the allocator's choice, so
`pushOne` takes it as an argument.
-/

namespace AliMiddleware

abbrev Addr := ℕ

/-- The exceptions the modelled code throws, and those of code it is instantiated with. -/
inductive Exn where
  | invalidArgument (what : String)
  | logicError (what : String)
  /-- a message, and the text formatted into it -/
  | runtimeError (what : String) (formatted : List UInt8 := [])
  /-- thrown by the constructor of a pooled object -/
  | construction
  deriving DecidableEq, Repr

/-- `node::magic` -/
def nodeMagic : UInt32 := 0x19980427

/-- `traceable_list::node` -/
structure Node (T E : Type) where
  data : T
  prev : Option Addr
  next : Option Addr
  extraInfo : E
  magic : UInt32 := nodeMagic

/-- `traceable_list`, with the nodes it owns. -/
structure TraceableList (T E : Type) where
  heap : Addr → Option (Node T E)
  head : Option Addr
  tail : Option Addr
  mSize : ℕ

/-- `traceable_list::iterator`; only `begin()` and `end()` set `_impl_tail`. -/
structure Iterator where
  ptr : Option Addr
  implTail : Option Addr := none
  deriving DecidableEq, Repr

variable {T E : Type}

/-- Code that works on one list. -/
abbrev ListM (T E : Type) := Exec (TraceableList T E) Exn

namespace TraceableList

def empty : TraceableList T E where
  heap := fun _ => none
  head := none
  tail := none
  mSize := 0

/-- `begin()` -/
def beginIt (l : TraceableList T E) : Iterator := ⟨l.head, l.tail⟩

/-- `end()` -/
def endIt (l : TraceableList T E) : Iterator := ⟨none, l.tail⟩

/-! ### Memory -/

/-- `*p` -/
def load (p : Option Addr) : ListM T E (Node T E) where
  run l := match p.bind l.heap with
    | some n => .done n l
    | none => .undefined

/-- An assignment to members of `*p`. -/
def store (p : Option Addr) (f : Node T E → Node T E) : ListM T E Unit where
  run l := match p, p.bind l.heap with
    | some a, some n => .done () { l with heap := Function.update l.heap a (some (f n)) }
    | _, _ => .undefined

/-- `if (p) …` over an assignment to members of `*p`. -/
def storeIf (p : Option Addr) (f : Node T E → Node T E) : ListM T E Unit :=
  if p.isSome then store p f else pure ()

/-- `new node{…}` at the address `a`. -/
def new (a : Addr) (n : Node T E) : ListM T E Unit where
  run l := match l.heap a with
    | none => .done () { l with heap := Function.update l.heap a (some n) }
    | some _ => .undefined

/-- `delete p` -/
def delete (p : Addr) : ListM T E Unit where
  run l := match l.heap p with
    | some _ => .done () { l with heap := Function.update l.heap p none }
    | none => .undefined

/-! ### Iterators -/

/-- `iterator(T *)`.  At an address with no node, `magic` is whatever the memory there holds
(`foreign`), if it can be read at all. -/
def iteratorOf (foreign : Addr → Option UInt32) (p : Option Addr) : ListM T E Iterator where
  run l := match p.bind fun a => ((l.heap a).map Node.magic).or (foreign a) with
    | none => .undefined
    | some magic =>
        if magic ≠ nodeMagic then
          .threw (.invalidArgument
            "magic_num verification failed. invalid data_pointer passed or ruined memory?") l
        else .done ⟨p, none⟩ l

/-- `get_extra_info() = e` -/
def setExtraInfo (it : Iterator) (e : E) : ListM T E Unit :=
  store it.ptr fun n => { n with extraInfo := e }

/-- `++it` -/
def incr (it : Iterator) : ListM T E Iterator := do
  let n ← load it.ptr
  pure { it with ptr := n.next }

/-- `it++`: the iterator before, which has no `_impl_tail`, and the iterator after. -/
def postIncr (it : Iterator) : ListM T E (Iterator × Iterator) := do
  let backup : Iterator := ⟨it.ptr, none⟩
  let it ← incr it
  pure (backup, it)

/-- `--it` -/
def decr (it : Iterator) : ListM T E Iterator :=
  if it.ptr = none ∧ it.implTail.isSome then
    pure { it with ptr := it.implTail }
  else do
    let n ← load it.ptr
    pure { it with ptr := n.prev }

/-- `it--`: the iterator before, which has no `_impl_tail`, and the iterator after. -/
def postDecr (it : Iterator) : ListM T E (Iterator × Iterator) := do
  let backup : Iterator := ⟨it.ptr, none⟩
  let it ← decr it
  pure (backup, it)

/-! ### Operations -/

def pushOne (a : Addr) (where_ : Iterator) (data : T) (extraInfo : E) : ListM T E Unit := do
  new a { data, prev := none, next := where_.ptr, extraInfo }
  Exec.modify fun l => { l with mSize := l.mSize + 1 }
  let l ← Exec.get
  if l.head = none then
    Exec.modify fun l => { l with head := some a, tail := some a }
  else if where_.ptr = none then
    -- is end();
    store l.tail fun n => { n with next := some a }
    store (some a) fun n => { n with prev := l.tail }
    Exec.modify fun l => { l with tail := some a }
  else
    let right ← load where_.ptr
    let left := right.prev
    store (some a) fun n => { n with prev := right.prev }
    storeIf left fun n => { n with next := some a }
    store where_.ptr fun n => { n with prev := some a }
    Exec.modify fun l => if l.head = where_.ptr then { l with head := some a } else l

def pushBack (a : Addr) (data : T) (extraInfo : E) : ListM T E Unit := do
  let l ← Exec.get
  pushOne a l.endIt data extraInfo

def pushFront (a : Addr) (data : T) (extraInfo : E) : ListM T E Unit := do
  let l ← Exec.get
  pushOne a l.beginIt data extraInfo

def popOne (which : Iterator) : ListM T E Unit := do
  let l ← Exec.get
  if l.head = none then
    Exec.throw (.invalidArgument "nothing to pop.")
  else match which.ptr with
  | none => Exec.throw (.invalidArgument "you may not pop end().")
  | some ptr => do
      let n ← load (some ptr)
      let left := n.prev
      let right := n.next
      storeIf left fun n => { n with next := right }
      storeIf right fun n => { n with prev := left }
      Exec.modify fun l => if l.head = some ptr then { l with head := right } else l
      Exec.modify fun l => if l.tail = some ptr then { l with tail := left } else l
      Exec.modify fun l => { l with mSize := l.mSize - 1 }
      delete ptr

def popFront : ListM T E Unit := do
  let l ← Exec.get
  popOne l.beginIt

def popBack : ListM T E Unit := do
  let l ← Exec.get
  let it ← decr l.endIt
  popOne it

/-- The loop of `pop_some`, for at most `fuel` rounds. -/
def popSomeLoop (to_ : Iterator) : ℕ → Iterator → ListM T E Unit
  | 0, _ => Exec.undefined
  | fuel + 1, iter =>
      if iter.ptr = to_.ptr then pure ()
      else do
        let (toPop, iter) ← postIncr iter
        popOne toPop
        popSomeLoop to_ fuel iter

/-- Every round removes an element, so `m_size` rounds and the last test are enough. -/
def popSome (from_ to_ : Iterator) : ListM T E Unit := do
  let l ← Exec.get
  popSomeLoop to_ (l.mSize + 1) from_

/-- `size()` -/
def size : ListM T E ℕ := do
  let l ← Exec.get
  pure l.mSize

end TraceableList

end AliMiddleware
