import AliMiddleware.Lib.ListAttempts
import AliMiddleware.Lib.PoolSafety

/-!
# Lib — ListDestructor

The end of a `traceable_list`, and what can go wrong before it.  `~traceable_list` steps past a
node before it deletes it, and deletes each node without unlinking it, so the `prev` of the next
one dangles; only `next` is read.  `delete` of a node that is not live and reading through a freed
node are undefined here, so a run of the destructor that ends has freed each node once.

`pop_some` takes the iterators as they come: where `from` is after `to` its loop removes
everything behind `from` and then follows a null pointer (`popSome_backwards`).
-/

namespace AliMiddleware.TraceableList

open AliMiddleware.Links

variable {T E : Type}

/-- The loop of `~traceable_list`, for at most `fuel` rounds. -/
def destroyLoop : ℕ → Iterator → ListM T E Unit
  | 0, _ => Exec.undefined
  | fuel + 1, iter => do
      let l ← Exec.get
      if iter.ptr = l.endIt.ptr then pure ()
      else do
        let (toRelease, iter) ← postIncr iter
        match toRelease.ptr with
        | some p => delete p
        | none => pure ()
        destroyLoop fuel iter

/-- `~traceable_list`: every round deletes a node, so `m_size` rounds and the last test are
enough. -/
def destroy : ListM T E Unit := do
  let l ← Exec.get
  destroyLoop (l.mSize + 1) l.beginIt

/-- The rounds of the destructor, by induction on the nodes still to be deleted.  What is before
them is gone already, so their chain starts wherever `prev` of the first points. -/
theorem destroyLoop_spec (as : List Addr) :
    ∀ {l : TraceableList T E} {p : Option Addr} (iter : Iterator) {fuel : ℕ},
      Seg (links l.heap) p as none → as.Nodup → (∀ a, l.heap a ≠ none → a ∈ as) →
      iter.ptr = as.head? → as.length < fuel →
      ∃ l', (destroyLoop fuel iter).run l = .done () l' ∧ ∀ a, l'.heap a = none := by
  induction as with
  | nil =>
      intro l p iter fuel _ _ hlive hi hf
      obtain ⟨fuel, rfl⟩ : ∃ k, fuel = k + 1 := ⟨fuel - 1, by simp at hf; omega⟩
      refine ⟨l, by simp [destroyLoop, endIt, hi], fun a => ?_⟩
      by_contra ha
      exact List.not_mem_nil (hlive a ha)
  | cons a as ih =>
      intro l p iter fuel hseg hnodup hlive hi hf
      obtain ⟨fuel, rfl⟩ : ∃ k, fuel = k + 1 := ⟨fuel - 1, by simp at hf; omega⟩
      obtain ⟨hnot, hnodup⟩ := List.nodup_cons.mp hnodup
      have hi : iter.ptr = some a := hi
      obtain ⟨hlink, hrest⟩ := hseg
      obtain ⟨n, hn, hnext⟩ : ∃ n, l.heap a = some n ∧ n.next = as.head? := by
        rw [links, Option.map_eq_some_iff] at hlink
        obtain ⟨n, hn, hk⟩ := hlink
        exact ⟨n, hn, by simpa using congrArg Link.next hk⟩
      -- `next` is read while the node is still there
      have hpast : (postIncr iter).run l =
          .done (⟨some a, none⟩, { iter with ptr := as.head? }) l := by
        simp [postIncr, incr, load, hi, hn, hnext]
      let l₁ : TraceableList T E := { l with heap := Function.update l.heap a none }
      have hdelete : (delete a).run l = .done () l₁ := by simp [delete, hn, l₁]
      have hother : ∀ b, b ≠ a → l₁.heap b = l.heap b := fun b hb => Function.update_of_ne hb _ _
      have hchain : Seg (links l₁.heap) (some a) as none := hrest.congr fun b hb => by
        simp only [links, hother b fun he => hnot (he ▸ hb)]
      have hleft : ∀ b, l₁.heap b ≠ none → b ∈ as := by
        intro b hb
        have hne : b ≠ a := by
          rintro rfl
          exact hb (Function.update_self _ _ _)
        rw [hother b hne] at hb
        exact List.mem_of_ne_of_mem hne (hlive b hb)
      have hfuel : as.length < fuel := by simpa using hf
      obtain ⟨l', hl', hgone⟩ := ih { iter with ptr := as.head? } hchain hnodup hleft rfl hfuel
      refine ⟨l', ?_, hgone⟩
      rw [destroyLoop, Exec.run_bind_done (Exec.run_get l)]
      simp only [endIt, hi, reduceCtorEq, if_false]
      rw [Exec.run_bind_done hpast]
      simp only
      rw [Exec.run_bind_done hdelete, hl']

/-- **The destructor frees every node.** -/
theorem destroy_spec {l : TraceableList T E} {xs : Elems T E} (h : Rep l xs) :
    ∃ l', destroy.run l = .done () l' ∧ ∀ a, l'.heap a = none := by
  have hfuel : (addrs xs).length < l.mSize + 1 := by
    rw [h.size, length_addrs]
    exact Nat.lt_succ_self _
  exact destroyLoop_spec (addrs xs) l.beginIt h.seg h.nodup h.live h.head hfuel

/-! ### `pop_some` the wrong way round -/

/-- The rounds of `pop_some` from a place that `to` is not behind, by induction on what is behind
the place: all of it goes, and then the null pointer is read. -/
theorem popSomeLoop_past {ys : Elems T E} {to_ : Iterator} {q : Addr} (hto : to_.ptr = some q)
    (zs : Elems T E) :
    ∀ {l : TraceableList T E} (iter : Iterator) (fuel : ℕ), Rep l (ys ++ zs) → q ∉ addrs zs →
      iter.ptr = (addrs zs).head? → (popSomeLoop to_ fuel iter).run l = .undefined := by
  induction zs with
  | nil =>
      intro l iter fuel _ _ hi
      cases fuel with
      | zero => rfl
      | succ fuel =>
          have hi : iter.ptr = none := hi
          simp [popSomeLoop, hto, hi, postIncr, incr, load]
  | cons z zs ih =>
      obtain ⟨p, d, e⟩ := z
      intro l iter fuel h hq hi
      cases fuel with
      | zero => rfl
      | succ fuel =>
          rw [addrs_cons, List.mem_cons, not_or] at hq
          have hi : iter.ptr = some p := hi
          have hne : iter.ptr ≠ to_.ptr := by
            rw [hi, hto]
            exact fun hc => hq.1 (Option.some.inj hc).symm
          have hp := h.node
          have hnext : (postIncr iter).run l = .done (⟨iter.ptr, none⟩,
              { iter with ptr := (addrs zs).head? }) l := by
            simp [postIncr, incr, load, hi, hp]
          obtain ⟨l₁, hl₁, hr₁⟩ := popOne_spec ys h ⟨iter.ptr, none⟩ hi
          rw [popSomeLoop, if_neg hne, Exec.run_bind_done hnext]
          simp only
          rw [Exec.run_bind_done hl₁]
          exact ih _ fuel hr₁ hq.2 rfl

/-- **`pop_some` with `from` after `to`.** -/
theorem popSome_backwards {l : TraceableList T E} {xs : Elems T E} (h : Rep l xs)
    {from_ to_ : Iterator} (hf : OnList xs from_.ptr) (ht : OnList xs to_.ptr)
    (hlt : place xs to_.ptr < place xs from_.ptr) : (popSome from_ to_).run l = .undefined := by
  obtain ⟨ys, zs, rfl, hpf, hif⟩ := place_split hf
  rw [popSome, Exec.run_bind_done (Exec.run_get l)]
  cases hto : to_.ptr with
  | none =>
      rw [hto, place, hif, List.length_append] at hlt
      omega
  | some q =>
      refine popSomeLoop_past hto zs from_ _ h ?_ hpf
      -- `to` is before the place of `from`
      rw [hto, place, hif] at hlt
      intro hq
      have hnot : q ∉ addrs ys := by
        intro hys
        have hnodup := h.nodup
        rw [addrs_append] at hnodup
        exact (List.nodup_append.mp hnodup).2.2 q hys q hq rfl
      rw [addrs_append, List.idxOf_append_of_notMem hnot, length_addrs] at hlt
      omega

/-! ### A list's whole life -/

/-- The iterators are onto the list, and the allocator hands out no live node. -/
def Op.Placed (xs : Elems T E) : Op T E → Prop
  | .popSome from_ to_ => OnList xs from_.ptr ∧ OnList xs to_.ptr
  | op => op.Allowed xs

/-- The operations that follow a null pointer. -/
def Op.FollowsNull (xs : Elems T E) : Op T E → Prop
  | .popBack => xs = []
  | .popSome from_ to_ => place xs to_.ptr < place xs from_.ptr
  | _ => False

/-- What is allowed is defined, but for `pop_back` on an empty list. -/
theorem allowed_defined {l : TraceableList T E} {xs : Elems T E} {op : Op T E} (h : Rep l xs)
    (hallowed : op.Allowed xs) (hback : ¬ (op = .popBack ∧ xs = [])) :
    op.exec.run l ≠ .undefined := by
  by_cases hv : op.Vacant xs
  · rcases vacant_spec h hv with ⟨rfl, -⟩ | ⟨-, what, hthrows⟩
    · exact absurd ⟨rfl, hv⟩ hback
    · simp [hthrows]
  · obtain ⟨l', hdone, -⟩ := Op.exec_spec h (hallowed.ok hv)
    simp [hdone]

/-- **Which operations are undefined.** -/
theorem undefined_iff {l : TraceableList T E} {xs : Elems T E} {op : Op T E} (h : Rep l xs)
    (hplaced : op.Placed xs) : op.exec.run l = .undefined ↔ op.FollowsNull xs := by
  have hdefined : op.Allowed xs → ¬ (op = .popBack ∧ xs = []) →
      ¬ op.FollowsNull xs → (op.exec.run l = .undefined ↔ op.FollowsNull xs) := by
    intro hallowed hback hnull
    exact ⟨fun hu => absurd hu (allowed_defined h hallowed hback), fun hf => absurd hf hnull⟩
  cases op with
  | pushOne => exact hdefined hplaced (by simp) id
  | pushFront => exact hdefined hplaced (by simp) id
  | pushBack => exact hdefined hplaced (by simp) id
  | popOne => exact hdefined hplaced (by simp) id
  | popFront => exact hdefined hplaced (by simp) id
  | popBack =>
      by_cases hnil : xs = []
      · subst hnil
        exact ⟨fun _ => rfl, fun _ => popBack_empty h.tail⟩
      · exact hdefined hplaced (fun hc => hnil hc.2) hnil
  | popSome from_ to_ =>
      obtain ⟨hf, ht⟩ := hplaced
      by_cases hlt : place xs to_.ptr < place xs from_.ptr
      · exact ⟨fun _ => hlt, fun _ => popSome_backwards h hf ht hlt⟩
      · exact hdefined ⟨hf, ht, Nat.le_of_not_lt hlt⟩ (by simp) hlt

/-- **A list's whole life.**  In every state of every history, rejected removals included: with
iterators onto the list, an operation is undefined exactly when it is a `pop_back` on an empty
list or a `pop_some` whose `from` is after its `to`; and the destructor, run there, frees every
node of the list and none twice. -/
theorem lifetime {ops : List (Op T E)} {s : Held T E} (hrun : Runs.run attempt {} ops = some s) :
    (∀ op : Op T E, op.Placed s.elems →
      (op.exec.run s.list = .undefined ↔ op.FollowsNull s.elems)) ∧
    ∃ l, destroy.run s.list = .done () l ∧ ∀ a, l.heap a = none := by
  have h := attempts_rep hrun
  exact ⟨fun op hplaced => undefined_iff h hplaced, destroy_spec h⟩

/-- `lifetime` after an insertion in the middle and a rejected `pop_one`: `pop_some` from the last
element to the first. -/
theorem lifetime_sample : ∃ s : Held ℕ Bool,
    Runs.run attempt {} [.pushBack 10 3212 true, .pushBack 11 312 true,
      .pushOne 12 ⟨some 11, none⟩ 3312 false, .popOne ⟨none, none⟩] = some s ∧
      (popSome ⟨some 11, none⟩ ⟨some 10, none⟩).run s.list = .undefined ∧
      ∃ l, destroy.run s.list = .done () l ∧ ∀ a, l.heap a = none := by
  obtain ⟨s, hs, helems⟩ : ∃ s : Held ℕ Bool,
      Runs.run attempt {} [.pushBack 10 3212 true, .pushBack 11 312 true,
        .pushOne 12 ⟨some 11, none⟩ 3312 false, .popOne ⟨none, none⟩] = some s ∧
      s.elems = [(10, 3212, true), (12, 3312, false), (11, 312, true)] := ⟨_, rfl, rfl⟩
  obtain ⟨hundefined, hdestroy⟩ := lifetime hs
  refine ⟨s, hs, (hundefined (.popSome ⟨some 11, none⟩ ⟨some 10, none⟩) ?_).mpr ?_, hdestroy⟩
  · rw [helems]
    exact ⟨by decide, by decide⟩
  · rw [helems, Op.FollowsNull]
    decide

end AliMiddleware.TraceableList

namespace AliMiddleware.Pool

variable {Tid Obj : Type}

/-- The objects that are lent are live nodes of `buffer`, and its destructor frees every node. -/
theorem Holds.destroyed {F : Type} {cfg : PoolConfig} {p : Pool Obj F} {lent : List Addr}
    {xs : TraceableList.Elems Obj Bool} (h : Holds cfg p lent xs) :
    (∀ a ∈ lent, p.buffer.heap a ≠ none) ∧
      ∃ l, TraceableList.destroy.run p.buffer = .done () l ∧ ∀ a, l.heap a = none :=
  ⟨fun _ ha => h.rep.mem_live (h.share.subset (List.mem_append_right _ ha)),
    TraceableList.destroy_spec h.rep⟩

/-- **The end of a pool.**  Whatever borrowers and releasers have done, the destructor of `buffer`
frees every object that was constructed, those that are lent included. -/
theorem destroyed_reachable [DecidableEq Tid] (cfg : PoolConfig) :
    (∀ s : FixedObjectPool.State Tid Obj,
      Runs.Reachable (FixedObjectPool.step cfg) FixedObjectPool.init s →
      (∀ a ∈ s.lentObjs, s.pool.buffer.heap a ≠ none) ∧
        ∃ l, TraceableList.destroy.run s.pool.buffer = .done () l ∧ ∀ a, l.heap a = none) ∧
    (∀ (p : Pool Obj Unit) (s : FixedObjectPoolCoro.State Tid Obj),
      FixedObjectPoolCoro.Start cfg p →
      Runs.Reachable (FixedObjectPoolCoro.step cfg) (FixedObjectPoolCoro.init p) s →
      (∀ a ∈ s.lentObjs, s.pool.buffer.heap a ≠ none) ∧
        ∃ l, TraceableList.destroy.run s.pool.buffer = .done () l ∧ ∀ a, l.heap a = none) := by
  constructor
  · intro s hs
    obtain ⟨xs, hx⟩ := FixedObjectPool.inv_reachable hs
    exact hx.destroyed
  · intro p s hp hs
    obtain ⟨xs, hx⟩ := FixedObjectPoolCoro.inv_reachable hp hs
    exact hx.destroyed

/-- `destroyed_reachable` where three objects are lent: two by a pool that has constructed them one
by one, and the only one of a filled pool. -/
theorem destroyed_reachable_sample :
    (∃ s : FixedObjectPool.State ℕ Char,
      Runs.run (FixedObjectPool.step { maxSize := 2 }) FixedObjectPool.init sampleThreads =
        some s ∧ s.lentObjs = [10, 20] ∧
      ∃ l, TraceableList.destroy.run s.pool.buffer = .done () l ∧ ∀ a, l.heap a = none) ∧
    (∃ (p : Pool Char Unit) (s : FixedObjectPoolCoro.State ℕ Char),
      FixedObjectPoolCoro.Start { maxSize := 1 } p ∧
      Runs.run (FixedObjectPoolCoro.step { maxSize := 1 }) (FixedObjectPoolCoro.init p)
        sampleCoroutines = some s ∧ s.lentObjs = [10] ∧
      ∃ l, TraceableList.destroy.run s.pool.buffer = .done () l ∧ ∀ a, l.heap a = none) := by
  constructor
  · obtain ⟨s, hs, hlent⟩ : ∃ s, Runs.run (FixedObjectPool.step { maxSize := 2 })
        FixedObjectPool.init sampleThreads = some s ∧ s.lentObjs = [10, 20] := ⟨_, rfl, rfl⟩
    obtain ⟨-, hdestroy⟩ := (destroyed_reachable { maxSize := 2 }).1 s ⟨_, hs⟩
    exact ⟨s, hs, hlent, hdestroy⟩
  · obtain ⟨p, hp, s, hs, hlent⟩ : ∃ p : Pool Char Unit,
        FixedObjectPoolCoro.Start { maxSize := 1 } p ∧
        ∃ s, Runs.run (FixedObjectPoolCoro.step { maxSize := 1 }) (FixedObjectPoolCoro.init p)
          sampleCoroutines = some s ∧ s.lentObjs = [10] :=
      ⟨_, @FixedObjectPoolCoro.Start.filled _ _ (fun _ => ⟨10, some 'a'⟩) _ rfl, _, rfl, rfl⟩
    obtain ⟨-, hdestroy⟩ := (destroyed_reachable { maxSize := 1 }).2 p s hp ⟨_, hs⟩
    exact ⟨p, s, hp, hs, hlent, hdestroy⟩

end AliMiddleware.Pool
