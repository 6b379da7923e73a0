import AliMiddleware.Lib.ListAttempts

/-!
# Lib — ListIterators

Iterators of a `traceable_list` that outlive changes to it.  A state is a list and one iterator
onto it; the iterator comes from `begin()`, `end()` or a pointer to an element, moves with `++`
and `--`, may be replaced by the copy that `it++` or `it--` returns, and stays where it is while
the list is changed around its element (`Traced`).

What a bidirectional iterator owes (`Law`): it denotes its element, `++` goes to the element
after it or to `end()`, `--` undoes `++`, and `--` at `end()` gives the last element.  The last
two rest on `_impl_tail`, which is set by `begin()` and `end()` only and is never brought up to
date.  So the law holds exactly when the iterator is before the last element, or comes from
`begin()` or `end()` and the last element is the one of that time (`law_iff`).
-/

namespace AliMiddleware.TraceableList

variable {T E : Type}

/-- The address of the last element. -/
def lastAddr (xs : Elems T E) : Option Addr := (addrs xs).getLast?

/-- A list, the iterator, and the last element at the time of the `begin()` or `end()` the
iterator comes from, if it comes from one. -/
structure Traced (T E : Type) extends Held T E where
  it : Iterator := ⟨none, none⟩
  taken : Option (Option Addr) := some none

/-- What the iterator owes. -/
structure Law (l : TraceableList T E) (xs : Elems T E) (it : Iterator) : Prop where
  denotes : ∀ p, it.ptr = some p → ∃ d e n, (p, d, e) ∈ xs ∧
    (load it.ptr).run l = .done n l ∧ n.data = d ∧ n.extraInfo = e
  succ : ∀ ys p d e zs, xs = ys ++ (p, d, e) :: zs → it.ptr = some p →
    ∃ it', (incr it).run l = .done it' l ∧ it'.ptr = (addrs zs).head?
  undo : ∀ p, it.ptr = some p →
    ∃ it', (incr it >>= decr).run l = .done it' l ∧ it'.ptr = some p
  last : it.ptr = none → xs ≠ [] →
    ∃ it', (decr it).run l = .done it' l ∧ it'.ptr = lastAddr xs

/-- The iterator is at the last element, or at `end()` of a list that is not empty. -/
def AtLast (xs : Elems T E) (it : Iterator) : Prop :=
  xs ≠ [] ∧ (it.ptr = none ∨ it.ptr = lastAddr xs)

/-! ### One iterator -/

theorem load_live {l : TraceableList T E} {xs : Elems T E} {p : Addr} (h : Rep l xs)
    (hp : p ∈ addrs xs) : ∃ ys d e zs, xs = ys ++ (p, d, e) :: zs ∧
      (load (some p)).run l =
        .done ⟨d, (addrs ys).getLast?, (addrs zs).head?, e, nodeMagic⟩ l := by
  obtain ⟨⟨q, d, e⟩, hx, rfl⟩ := List.mem_map.mp hp
  obtain ⟨ys, zs, rfl⟩ := List.append_of_mem hx
  have hn := h.node
  exact ⟨ys, d, e, zs, rfl, by simp [load, hn]⟩

theorem incr_live {l : TraceableList T E} {ys zs : Elems T E} {p : Addr} {d : T} {e : E}
    (h : Rep l (ys ++ (p, d, e) :: zs)) (implTail : Option Addr) :
    (incr ⟨some p, implTail⟩).run l = .done ⟨(addrs zs).head?, implTail⟩ l := by
  have hn := h.node
  simp [incr, load, hn]

theorem decr_live {l : TraceableList T E} {ys zs : Elems T E} {p : Addr} {d : T} {e : E}
    (h : Rep l (ys ++ (p, d, e) :: zs)) (implTail : Option Addr) :
    (decr ⟨some p, implTail⟩).run l = .done ⟨(addrs ys).getLast?, implTail⟩ l := by
  have hn := h.node
  simp [decr, load, hn]

/-- `--` where `++` has ended: the cached tail, whatever it is. -/
theorem decr_null (implTail : Option Addr) (l : TraceableList T E) :
    (decr ⟨none, implTail⟩).run l =
      match implTail with
      | none => .undefined
      | some t => .done ⟨some t, some t⟩ l := by
  cases implTail with
  | none => simp [decr, load]
  | some t => simp [decr]

theorem lastAddr_concat (ys : Elems T E) (p : Addr) (d : T) (e : E) :
    lastAddr (ys ++ [(p, d, e)]) = some p := by
  simp [lastAddr]

/-- Down from `end()`, to the cached tail. -/
theorem decr_null_iff {l : TraceableList T E} {implTail p : Option Addr} (hp : p ≠ none) :
    (∃ it', (decr ⟨none, implTail⟩).run l = .done it' l ∧ it'.ptr = p) ↔ implTail = p := by
  rw [decr_null]
  cases implTail with
  | none =>
      constructor
      · rintro ⟨it', hrun, -⟩
        cases hrun
      · intro hnone
        exact absurd hnone.symm hp
  | some t =>
      constructor
      · rintro ⟨it', hrun, rfl⟩
        cases hrun
        rfl
      · intro ht
        exact ⟨_, rfl, ht⟩

/-- **`--` undoes `++`** before the last element; at the last one it goes to the cached tail. -/
theorem undo_iff {l : TraceableList T E} {ys zs : Elems T E} {p : Addr} {d : T} {e : E}
    (h : Rep l (ys ++ (p, d, e) :: zs)) (implTail : Option Addr) :
    (∃ it', (incr ⟨some p, implTail⟩ >>= decr).run l = .done it' l ∧ it'.ptr = some p) ↔
      (zs = [] → implTail = some p) := by
  rw [Exec.run_bind_done (incr_live h implTail)]
  cases zs with
  | nil =>
      rw [addrs_nil, List.head?_nil, decr_null_iff (Option.some_ne_none p)]
      exact ⟨fun ht _ => ht, fun ht => ht rfl⟩
  | cons z zs =>
      obtain ⟨q, d', e'⟩ := z
      have hnext : ys ++ (p, d, e) :: (q, d', e') :: zs =
          (ys ++ [(p, d, e)]) ++ (q, d', e') :: zs := by simp
      rw [addrs_cons, List.head?_cons, decr_live (hnext ▸ h)]
      refine ⟨fun _ hnil => ?_, fun _ => ⟨_, rfl, lastAddr_concat ys p d e⟩⟩
      cases hnil

theorem atLast_iff {ys zs : Elems T E} {p : Addr} {d : T} {e : E} {implTail : Option Addr}
    (h : (addrs (ys ++ (p, d, e) :: zs)).Nodup) :
    AtLast (ys ++ (p, d, e) :: zs) ⟨some p, implTail⟩ ↔ zs = [] := by
  constructor
  · rintro ⟨-, hnone | hlast⟩
    · cases hnone
    · by_contra hzs
      obtain ⟨front, ⟨q, d', e'⟩, rfl⟩ := (List.eq_nil_or_concat' zs).resolve_left hzs
      have hsplit : ys ++ (p, d, e) :: (front ++ [(q, d', e')]) =
          (ys ++ (p, d, e) :: front) ++ [(q, d', e')] := by simp
      rw [hsplit, lastAddr_concat] at hlast
      obtain rfl : p = q := Option.some.inj hlast
      rw [addrs_append, addrs_cons, List.nodup_append, List.nodup_cons] at h
      exact h.2.1.1 (by simp)
  · rintro rfl
    exact ⟨by simp, .inr (lastAddr_concat ys p d e).symm⟩

/-- **What the law comes to**: at the last element and at `end()`, the cached tail is the last
element. -/
theorem law_iff_implTail {l : TraceableList T E} {xs : Elems T E} {it : Iterator} (h : Rep l xs)
    (hit : OnList xs it.ptr) : Law l xs it ↔ (AtLast xs it → it.implTail = lastAddr xs) := by
  obtain ⟨_ | p, implTail⟩ := it
  · -- at `end()`
    constructor
    · rintro hlaw ⟨hne, -⟩
      have hsome : lastAddr xs ≠ none := by simpa [lastAddr, addrs] using hne
      exact (decr_null_iff hsome).mp (hlaw.last rfl hne)
    · intro hcond
      refine ⟨by rintro _ ⟨⟩, by rintro _ _ _ _ _ - ⟨⟩, by rintro _ ⟨⟩, ?_⟩
      rintro - hne
      have hsome : lastAddr xs ≠ none := by simpa [lastAddr, addrs] using hne
      exact (decr_null_iff hsome).mpr (hcond ⟨hne, .inl rfl⟩)
  · obtain ⟨ys, d, e, zs, rfl, hload⟩ := load_live h hit
    rw [atLast_iff h.nodup]
    have hlast : zs = [] → lastAddr (ys ++ (p, d, e) :: zs) = some p := by
      rintro rfl
      exact lastAddr_concat ys p d e
    constructor
    · intro hlaw hzs
      rw [hlast hzs]
      exact (undo_iff h implTail).mp (hlaw.undo p rfl) hzs
    · intro hcond
      refine ⟨?_, ?_, ?_, by rintro ⟨⟩⟩
      · rintro q hq
        obtain rfl := Option.some.inj hq
        exact ⟨d, e, _, by simp, hload, rfl, rfl⟩
      · rintro ys' q d' e' zs' hsplit hq
        obtain rfl := Option.some.inj hq
        exact ⟨_, incr_live (hsplit ▸ h) implTail, rfl⟩
      · rintro q hq
        obtain rfl := Option.some.inj hq
        exact (undo_iff h implTail).mpr fun hzs => (hcond hzs).trans (hlast hzs)

/-! ### Histories with an iterator -/

inductive Move (T E : Type) where
  /-- an operation on the list, which leaves the iterator's element in it -/
  | list (op : Op T E)
  /-- `begin()` -/
  | fromBegin
  /-- `end()` -/
  | fromEnd
  /-- `iterator(p)`, where `p` points to an element -/
  | fromPointer (p : Addr)
  | incr
  | decr
  /-- the copy that `it++` returns -/
  | postIncr
  /-- the copy that `it--` returns -/
  | postDecr

namespace Traced

/-- The iterator that `m` gives, which is onto the list. -/
def goes (s : Traced T E) (m : ListM T E Iterator) (taken : Option (Option Addr)) :
    Option (Traced T E) :=
  match m.run s.list with
  | .done it l =>
      if OnList s.elems it.ptr then some { s with list := l, it := it, taken := taken } else none
  | .threw _ _ => none
  | .undefined => none

def step (foreign : Addr → Option UInt32) (s : Traced T E) : Move T E → Option (Traced T E)
  | .list op =>
      (attempt s.toHeld op).bind fun held =>
        if OnList held.elems s.it.ptr then some { s with toHeld := held } else none
  | .fromBegin => s.goes (do pure (← Exec.get).beginIt) (some (lastAddr s.elems))
  | .fromEnd => s.goes (do pure (← Exec.get).endIt) (some (lastAddr s.elems))
  | .fromPointer p =>
      if p ∈ addrs s.elems then s.goes (iteratorOf foreign (some p)) none else none
  | .incr => s.goes (TraceableList.incr s.it) s.taken
  | .decr => s.goes (TraceableList.decr s.it) s.taken
  | .postIncr => s.goes (do pure (← TraceableList.postIncr s.it).1) none
  | .postDecr => s.goes (do pure (← TraceableList.postDecr s.it).1) none

/-- The list holds its elements, the iterator is onto it, and the cached tail is the last element
of the time of its `begin()` or `end()`. -/
structure Inv (s : Traced T E) : Prop where
  rep : Rep s.list s.elems
  onList : OnList s.elems s.it.ptr
  implTail : s.it.implTail = s.taken.join

theorem inv_goes {s s' : Traced T E} {m : ListM T E Iterator} {taken : Option (Option Addr)}
    (h : Inv s) (hm : ∀ it l, m.run s.list = .done it l → l = s.list ∧ it.implTail = taken.join)
    (hs : s.goes m taken = some s') : Inv s' := by
  rw [goes] at hs
  cases hrun : m.run s.list with
  | undefined =>
      rw [hrun] at hs
      cases hs
  | threw e l =>
      rw [hrun] at hs
      cases hs
  | done it l =>
      rw [hrun] at hs
      simp only [Option.ite_none_right_eq_some, Option.some.injEq] at hs
      obtain ⟨hon, rfl⟩ := hs
      obtain ⟨rfl, htail⟩ := hm it l hrun
      exact ⟨h.rep, hon, htail⟩

theorem load_done {p : Option Addr} {n : Node T E} {l l' : TraceableList T E}
    (h : (load p).run l = .done n l') : l' = l := by
  rw [load] at h
  cases hp : p.bind l.heap with
  | none => simp [hp] at h
  | some n' =>
      simp only [hp, Outcome.done.injEq] at h
      exact h.2.symm

theorem incr_done {it it' : Iterator} {l l' : TraceableList T E}
    (h : (TraceableList.incr it).run l = .done it' l') :
    l' = l ∧ it'.implTail = it.implTail := by
  rw [TraceableList.incr] at h
  obtain ⟨n, l₁, hload, hpure⟩ := Exec.run_bind_eq_done.mp h
  obtain ⟨rfl, rfl⟩ := Outcome.done.inj hpure
  exact ⟨load_done hload, rfl⟩

theorem decr_done {it it' : Iterator} {l l' : TraceableList T E}
    (h : (TraceableList.decr it).run l = .done it' l') :
    l' = l ∧ it'.implTail = it.implTail := by
  rw [TraceableList.decr] at h
  split_ifs at h with hcached
  · obtain ⟨rfl, rfl⟩ := Outcome.done.inj h
    exact ⟨rfl, rfl⟩
  · obtain ⟨n, l₁, hload, hpure⟩ := Exec.run_bind_eq_done.mp h
    obtain ⟨rfl, rfl⟩ := Outcome.done.inj hpure
    exact ⟨load_done hload, rfl⟩

theorem postIncr_done {it it' : Iterator} {l l' : TraceableList T E}
    (h : (do pure (← TraceableList.postIncr it).1 : ListM T E Iterator).run l = .done it' l') :
    l' = l ∧ it'.implTail = none := by
  obtain ⟨r, l₁, hpost, hret⟩ := Exec.run_bind_eq_done.mp h
  obtain ⟨it₁, l₂, hincr, hpure⟩ := Exec.run_bind_eq_done.mp hpost
  obtain ⟨rfl, rfl⟩ := Outcome.done.inj hpure
  obtain ⟨rfl, rfl⟩ := Outcome.done.inj hret
  exact ⟨(incr_done hincr).1, rfl⟩

theorem postDecr_done {it it' : Iterator} {l l' : TraceableList T E}
    (h : (do pure (← TraceableList.postDecr it).1 : ListM T E Iterator).run l = .done it' l') :
    l' = l ∧ it'.implTail = none := by
  obtain ⟨r, l₁, hpost, hret⟩ := Exec.run_bind_eq_done.mp h
  obtain ⟨it₁, l₂, hdecr, hpure⟩ := Exec.run_bind_eq_done.mp hpost
  obtain ⟨rfl, rfl⟩ := Outcome.done.inj hpure
  obtain ⟨rfl, rfl⟩ := Outcome.done.inj hret
  exact ⟨(decr_done hdecr).1, rfl⟩

theorem inv_step {foreign : Addr → Option UInt32} {s s' : Traced T E} {move : Move T E}
    (h : Inv s) (hs : step foreign s move = some s') : Inv s' := by
  have hlast : s.list.tail = lastAddr s.elems := h.rep.tail
  cases move with
  | list op =>
      simp only [step, Option.bind_eq_some_iff, Option.ite_none_right_eq_some,
        Option.some.injEq] at hs
      obtain ⟨held, hattempt, hon, rfl⟩ := hs
      exact ⟨(attempt_cases h.rep hattempt).1, hon, h.implTail⟩
  | fromBegin =>
      simp only [step] at hs
      refine inv_goes h (fun it l hrun => ?_) hs
      cases hrun
      exact ⟨rfl, hlast⟩
  | fromEnd =>
      simp only [step] at hs
      refine inv_goes h (fun it l hrun => ?_) hs
      cases hrun
      exact ⟨rfl, hlast⟩
  | fromPointer p =>
      simp only [step, Option.ite_none_right_eq_some] at hs
      obtain ⟨hp, hs⟩ := hs
      refine inv_goes h (fun it l hrun => ?_) hs
      rw [iteratorOf_live h.rep hp foreign] at hrun
      cases hrun
      exact ⟨rfl, rfl⟩
  | incr =>
      simp only [step] at hs
      refine inv_goes h (fun it l hrun => ?_) hs
      obtain ⟨rfl, htail⟩ := incr_done hrun
      exact ⟨rfl, htail.trans h.implTail⟩
  | decr =>
      simp only [step] at hs
      refine inv_goes h (fun it l hrun => ?_) hs
      obtain ⟨rfl, htail⟩ := decr_done hrun
      exact ⟨rfl, htail.trans h.implTail⟩
  | postIncr =>
      simp only [step] at hs
      refine inv_goes h (fun it l hrun => ?_) hs
      exact postIncr_done hrun
  | postDecr =>
      simp only [step] at hs
      refine inv_goes h (fun it l hrun => ?_) hs
      exact postDecr_done hrun

theorem inv_run {foreign : Addr → Option UInt32} {moves : List (Move T E)} {s : Traced T E}
    (hrun : Runs.run (step foreign) {} moves = some s) : Inv s := by
  have hstart : Inv ({} : Traced T E) := ⟨rep_empty, trivial, rfl⟩
  exact Runs.run_invariant (fun _ _ _ h hs => inv_step h hs) hstart hrun

end Traced

/-- **The law of iterators.**  In every history of a list and an iterator onto it, the list
represents its elements, and the iterator does what it owes exactly when it is neither at the last
element nor at `end()` of a list that is not empty, or comes from `begin()` or `end()` and the
last element then is the last one now. -/
theorem law_iff {foreign : Addr → Option UInt32} {moves : List (Move T E)} {s : Traced T E}
    (hrun : Runs.run (Traced.step foreign) {} moves = some s) :
    Represents s.list (addrs s.elems) (s.elems.map Prod.snd) ∧
      (Law s.list s.elems s.it ↔
        (AtLast s.elems s.it → s.taken = some (lastAddr s.elems))) := by
  obtain ⟨hrep, hon, htail⟩ := Traced.inv_run hrun
  refine ⟨hrep.represents, ?_⟩
  rw [law_iff_implTail hrep hon]
  refine imp_congr_right fun hlast => ?_
  obtain ⟨t, ht⟩ : ∃ t, lastAddr s.elems = some t := by
    refine Option.ne_none_iff_exists'.mp ?_
    simpa [lastAddr, addrs] using hlast.1
  rw [htail, ht, Option.join_eq_some_iff]

/-- `law_iff` at an iterator from `end()` that has gone down twice and up once, after changes
before the last element. -/
theorem law_iff_before_last : ∃ s : Traced ℕ Bool,
    Runs.run (Traced.step fun _ => none) {}
      [.list (.pushBack 10 3212 true), .list (.pushBack 11 312 true), .fromEnd,
       .list (.pushFront 12 99 false), .decr, .decr, .list (.popOne ⟨some 12, none⟩), .incr] =
      some s ∧ s.it.ptr = some 11 ∧ Law s.list s.elems s.it := by
  obtain ⟨s, hs, hptr, hcond⟩ : ∃ s : Traced ℕ Bool,
      Runs.run (Traced.step fun _ => none) {}
        [.list (.pushBack 10 3212 true), .list (.pushBack 11 312 true), .fromEnd,
         .list (.pushFront 12 99 false), .decr, .decr, .list (.popOne ⟨some 12, none⟩), .incr] =
        some s ∧ s.it.ptr = some 11 ∧ s.taken = some (lastAddr s.elems) := ⟨_, rfl, rfl, rfl⟩
  exact ⟨s, hs, hptr, (law_iff hs).2.mpr fun _ => hcond⟩

/-- **The cached tail is missing or out of date**: `--` does not undo `++` at the last element
for an iterator made from a pointer, and for the copy that `it++` returns, and `--` on an `end()`
taken before a `push_back` misses the last element. -/
theorem not_law :
    (∃ s : Traced ℕ Bool, Runs.run (Traced.step fun _ => none) {}
        [.list (.pushBack 10 3212 true), .fromPointer 10] = some s ∧
      ¬ Law s.list s.elems s.it) ∧
    (∃ s : Traced ℕ Bool, Runs.run (Traced.step fun _ => none) {}
        [.list (.pushBack 10 3212 true), .fromBegin, .postIncr] = some s ∧
      ¬ Law s.list s.elems s.it) ∧
    (∃ s : Traced ℕ Bool, Runs.run (Traced.step fun _ => none) {}
        [.list (.pushBack 10 3212 true), .fromEnd, .list (.pushBack 11 312 true)] = some s ∧
      ¬ Law s.list s.elems s.it) := by
  refine ⟨⟨_, rfl, fun hlaw => ?_⟩, ⟨_, rfl, fun hlaw => ?_⟩, ⟨_, rfl, fun hlaw => ?_⟩⟩
  · obtain ⟨it', hrun, -⟩ := hlaw.undo 10 rfl
    cases hrun
  · obtain ⟨it', hrun, -⟩ := hlaw.undo 10 rfl
    cases hrun
  · obtain ⟨it', hrun, hptr⟩ := hlaw.last rfl (List.cons_ne_nil _ _)
    cases hrun
    cases hptr

end AliMiddleware.TraceableList
