import AliMiddleware.Support.Runs
import AliMiddleware.Lib.ListRefinement

/-!
# Lib — ListRuns

Whole histories of a `traceable_list`.  `Op.apply` says what an operation means on an ordinary
sequence: an iterator is the place of its element in it (`place`), `push_one` inserts there,
`pop_one` deletes there, `pop_some` deletes from one place up to another.  `Op.Ok` is what the
caller owes: iterators onto the list, a non-empty list for the pops, and an allocator that does
not hand out a live node.  `seqStep` is the sequence's machine.

`runOps_represents`: whatever history the sequence's machine accepts, the list runs it to the
end, and its nodes then represent the resulting sequence, in both directions.
-/

namespace AliMiddleware.TraceableList

open AliMiddleware.Links

variable {T E : Type}

/-- An operation, with the address the allocator chooses for a new node. -/
inductive Op (T E : Type) where
  | pushOne (a : Addr) (where_ : Iterator) (data : T) (extraInfo : E)
  | pushFront (a : Addr) (data : T) (extraInfo : E)
  | pushBack (a : Addr) (data : T) (extraInfo : E)
  | popOne (which : Iterator)
  | popFront
  | popBack
  | popSome (from_ to_ : Iterator)

def Op.exec : Op T E → ListM T E Unit
  | .pushOne a where_ d e => TraceableList.pushOne a where_ d e
  | .pushFront a d e => TraceableList.pushFront a d e
  | .pushBack a d e => TraceableList.pushBack a d e
  | .popOne which => TraceableList.popOne which
  | .popFront => TraceableList.popFront
  | .popBack => TraceableList.popBack
  | .popSome from_ to_ => TraceableList.popSome from_ to_

def runOps : List (Op T E) → ListM T E Unit
  | [] => pure ()
  | op :: ops => do
      op.exec
      runOps ops

/-! ### The sequence -/

/-- `p` is null or an element of the sequence. -/
def OnList (xs : Elems T E) : Option Addr → Prop
  | none => True
  | some p => p ∈ addrs xs

instance (xs : Elems T E) (p : Option Addr) : Decidable (OnList xs p) :=
  match p with
  | none => isTrue trivial
  | some p => inferInstanceAs (Decidable (p ∈ addrs xs))

/-- The place of an element; the null pointer is past the last one. -/
def place (xs : Elems T E) : Option Addr → ℕ
  | none => xs.length
  | some p => (addrs xs).idxOf p

/-- What the caller of an operation owes. -/
def Op.Ok (xs : Elems T E) : Op T E → Prop
  | .pushOne a where_ _ _ => a ∉ addrs xs ∧ OnList xs where_.ptr
  | .pushFront a _ _ | .pushBack a _ _ => a ∉ addrs xs
  | .popOne which => OnList xs which.ptr ∧ which.ptr ≠ none
  | .popFront | .popBack => addrs xs ≠ []
  | .popSome from_ to_ =>
      OnList xs from_.ptr ∧ OnList xs to_.ptr ∧ place xs from_.ptr ≤ place xs to_.ptr

instance (xs : Elems T E) (op : Op T E) : Decidable (op.Ok xs) :=
  match op with
  | .pushOne _ _ _ _ => inferInstanceAs (Decidable (_ ∧ _))
  | .pushFront _ _ _ | .pushBack _ _ _ => inferInstanceAs (Decidable (_ ∉ _))
  | .popOne _ => inferInstanceAs (Decidable (_ ∧ _))
  | .popFront | .popBack => inferInstanceAs (Decidable (_ ≠ _))
  | .popSome _ _ => inferInstanceAs (Decidable (_ ∧ _ ∧ _))

/-- What an operation does to an ordinary sequence. -/
def Op.apply (xs : Elems T E) : Op T E → Elems T E
  | .pushOne a where_ d e => xs.insertIdx (place xs where_.ptr) (a, d, e)
  | .pushFront a d e => (a, d, e) :: xs
  | .pushBack a d e => xs ++ [(a, d, e)]
  | .popOne which => xs.eraseIdx (place xs which.ptr)
  | .popFront => xs.tail
  | .popBack => xs.dropLast
  | .popSome from_ to_ => xs.take (place xs from_.ptr) ++ xs.drop (place xs to_.ptr)

/-- The sequence's machine. -/
def seqStep (xs : Elems T E) (op : Op T E) : Option (Elems T E) :=
  if op.Ok xs then some (op.apply xs) else none

/-- An iterator splits the sequence at its place. -/
theorem place_split {xs : Elems T E} {p : Option Addr} (h : OnList xs p) :
    ∃ ys zs, xs = ys ++ zs ∧ p = (addrs zs).head? ∧ place xs p = ys.length := by
  cases p with
  | none => exact ⟨xs, [], by simp, rfl, rfl⟩
  | some p =>
      obtain ⟨as, bs, he, hn⟩ := List.eq_append_cons_of_mem h
      obtain ⟨ys, zs, rfl, rfl, hzs⟩ := List.map_eq_append_iff.mp he
      refine ⟨ys, zs, rfl, ?_, ?_⟩
      · rw [addrs, hzs, List.head?_cons]
      · rw [place, he, List.idxOf_append_of_notMem hn, List.idxOf_cons_self, List.length_map,
          Nat.add_zero]

private theorem insertIdx_append_length {α : Type} (ys zs : List α) (x : α) :
    (ys ++ zs).insertIdx ys.length x = ys ++ x :: zs := by
  induction ys with
  | nil => rfl
  | cons y ys ih => simp [ih]

/-! ### What the list's nodes represent -/

/-- The nodes of `l`, read through the links alone, represent `seq`: following `next` from
`head` visits `as` and ends at `tail`, following `prev` from `tail` visits `as` backwards and
ends at `head`, and the nodes visited are all the live ones, each once. -/
structure Represents (l : TraceableList T E) (as : List Addr) (seq : List (T × E)) : Prop where
  forward : Walk (fun a => (l.heap a).map Node.next) l.head as
  forward_last : as.getLast? = l.tail
  backward : Walk (fun a => (l.heap a).map Node.prev) l.tail as.reverse
  backward_last : as.reverse.getLast? = l.head
  entries : as.map (fun a => (l.heap a).map fun n => (n.data, n.extraInfo)) = seq.map some
  size : l.mSize = seq.length
  head_null : l.head = none ↔ seq = []
  tail_null : l.tail = none ↔ seq = []
  once : as.Nodup
  live : ∀ a, l.heap a ≠ none ↔ a ∈ as

theorem Rep.represents {l : TraceableList T E} {xs : Elems T E} (h : Rep l xs) :
    Represents l (addrs xs) (xs.map Prod.snd) where
  forward := by
    have hw := h.seg.walk_next
    simp only [links, Option.map_map, ← h.head] at hw
    exact hw
  forward_last := h.tail.symm
  backward := by
    have hw := h.seg.walk_prev
    simp only [links, Option.map_map, ← h.tail] at hw
    exact hw
  backward_last := by rw [List.getLast?_reverse, h.head]
  entries := by
    rw [addrs, List.map_map, List.map_map, List.map_inj_left]
    rintro ⟨a, d, e⟩ hx
    obtain ⟨n, hn, rfl, rfl, -⟩ := h.elem a d e hx
    simp [hn]
  size := by rw [h.size, List.length_map]
  head_null := by rw [h.head]; cases xs <;> simp
  tail_null := by rw [h.tail]; cases xs <;> simp
  once := h.nodup
  live := fun a => ⟨h.live a, h.mem_live⟩

/-! ### The refinement -/

/-- **One operation.** -/
theorem Op.exec_spec {l : TraceableList T E} {xs : Elems T E} {op : Op T E} (h : Rep l xs)
    (hok : op.Ok xs) : ∃ l', op.exec.run l = .done () l' ∧ Rep l' (op.apply xs) := by
  have fresh : ∀ {a}, a ∉ addrs xs → l.heap a = none := fun ha => by
    by_contra hc
    exact ha (h.live _ hc)
  cases op with
  | pushOne a where_ d e =>
      obtain ⟨ys, zs, rfl, hp, hi⟩ := place_split hok.2
      rw [Op.apply, hi, insertIdx_append_length]
      exact pushOne_spec _ _ h (fresh hok.1) hp d e
  | pushFront a d e => exact pushFront_spec h (fresh hok) d e
  | pushBack a d e => exact pushBack_spec h (fresh hok) d e
  | popOne which =>
      obtain ⟨ys, zs, rfl, hp, hi⟩ := place_split hok.1
      cases zs with
      | nil => exact absurd hp hok.2
      | cons z zs =>
          rw [Op.apply, hi, List.eraseIdx_append_of_length_le (Nat.le_refl _), Nat.sub_self,
            List.eraseIdx_cons_zero]
          exact popOne_spec _ h _ hp
  | popFront =>
      cases xs with
      | nil => exact absurd rfl hok
      | cons x xs => exact popFront_spec h
  | popBack =>
      obtain rfl | ⟨xs, x, rfl⟩ := List.eq_nil_or_concat' xs
      · exact absurd rfl hok
      · rw [Op.apply, List.dropLast_concat]
        exact popBack_spec h
  | popSome from_ to_ =>
      obtain ⟨hf, ht, hle⟩ := hok
      obtain ⟨ys, r, hx, hpf, hif⟩ := place_split hf
      obtain ⟨ys', zs, hx', hpt, hit⟩ := place_split ht
      rw [hif, hit] at hle
      -- `from` is not after `to`, so what is before it is part of what is before `to`
      obtain ⟨ms, rfl⟩ : ys <+: ys' :=
        List.prefix_of_prefix_length_le ⟨r, hx.symm⟩ ⟨zs, hx'.symm⟩ hle
      obtain rfl : r = ms ++ zs := by
        rw [hx, List.append_assoc] at hx'
        exact List.append_cancel_left hx'
      have happly : (Op.popSome from_ to_).apply xs = ys ++ zs := by
        rw [Op.apply, hif, hit, hx]
        simp
      rw [happly]
      exact popSome_spec (hx ▸ h) hpf hpt

/-- **Every history.** -/
theorem runOps_spec {ops : List (Op T E)} {xs xs' : Elems T E}
    (hrun : Runs.run seqStep xs ops = some xs') {l : TraceableList T E} (h : Rep l xs) :
    ∃ l', (runOps ops).run l = .done () l' ∧ Rep l' xs' := by
  induction ops generalizing xs l with
  | nil =>
      obtain rfl : xs = xs' := by simpa using hrun
      exact ⟨l, rfl, h⟩
  | cons op ops ih =>
      obtain ⟨xs₁, h₁, h₂⟩ := Runs.run_cons_inv hrun
      obtain ⟨hok, rfl⟩ : op.Ok xs ∧ op.apply xs = xs₁ := by simpa [seqStep] using h₁
      obtain ⟨l₁, hl₁, hr₁⟩ := op.exec_spec h hok
      obtain ⟨l', hl', hr'⟩ := ih h₂ hr₁
      exact ⟨l', by rw [runOps, Exec.run_bind_done hl₁, hl'], hr'⟩

/-- **`traceable_list` refines a sequence**: every history the sequence's machine accepts from
the empty sequence runs to its end on the empty list, whose nodes then represent the sequence's
(data, extra info) pairs. -/
theorem runOps_represents (ops : List (Op T E)) (xs : Elems T E)
    (h : Runs.run seqStep [] ops = some xs) :
    ∃ l as, (runOps ops).run empty = .done () l ∧ Represents l as (xs.map Prod.snd) := by
  obtain ⟨l, hl, hr⟩ := runOps_spec h rep_empty
  exact ⟨l, _, hl, hr.represents⟩

/-- A history with every operation: elements at both ends and in the middle, an address used
again, and a `pop_some` that stops before `end()`. -/
def sampleOps : List (Op ℕ Bool) :=
  [.pushBack 10 3212 true, .pushBack 11 312 true, .pushFront 12 3312 true,
    .pushOne 13 ⟨some 11, none⟩ 32412 false, .popBack, .popFront, .pushBack 11 3712 true,
    .pushBack 14 99 false, .popOne ⟨some 13, none⟩, .pushOne 15 ⟨none, some 14⟩ 42 true,
    .popSome ⟨some 10, none⟩ ⟨some 14, none⟩]

/-- `runOps_represents` at `sampleOps`. -/
theorem sampleOps_represents :
    Runs.run seqStep [] sampleOps = some [(14, 99, false), (15, 42, true)] ∧
      ∃ l as, (runOps sampleOps).run empty = .done () l ∧
        Represents l as [(99, false), (42, true)] :=
  ⟨by decide, runOps_represents sampleOps [(14, 99, false), (15, 42, true)] (by decide)⟩

end AliMiddleware.TraceableList
