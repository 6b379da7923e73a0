import AliMiddleware.Support.Links
import AliMiddleware.Lib.TraceableList

/-!
# Lib — ListRefinement

`traceable_list` against an ordinary sequence.  `Rep l xs` says that the heap of `l` holds
exactly the elements `xs`, chained in this order.  The two pointer surgeries of the source,
insertion in a gap (`pushOne_spec`) and removal of a node (`popOne_spec`), keep it; every other
operation is one of these at a place it computes, or a loop of them (`popSome_spec`).
-/

namespace AliMiddleware.TraceableList

open AliMiddleware.Links

variable {T E : Type}

/-- The elements of a list in order: the node, the data and the extra info. -/
abbrev Elems (T E : Type) := List (Addr × T × E)

/-- The nodes of the elements, in order. -/
def addrs (xs : Elems T E) : List Addr := xs.map Prod.fst

@[simp] theorem addrs_nil : addrs ([] : Elems T E) = [] := rfl

@[simp] theorem addrs_cons (x : Addr × T × E) (xs : Elems T E) :
    addrs (x :: xs) = x.1 :: addrs xs := rfl

@[simp] theorem addrs_append (xs ys : Elems T E) : addrs (xs ++ ys) = addrs xs ++ addrs ys :=
  List.map_append

@[simp] theorem length_addrs (xs : Elems T E) : (addrs xs).length = xs.length :=
  List.length_map _

theorem mem_addrs {a : Addr} {d : T} {e : E} {xs : Elems T E} (h : (a, d, e) ∈ xs) :
    a ∈ addrs xs := List.mem_map_of_mem (f := Prod.fst) h

/-- The links of the live nodes. -/
def links (heap : Addr → Option (Node T E)) : LinkMap Addr :=
  fun a => (heap a).map fun n => ⟨n.prev, n.next⟩

/-- `l` holds exactly the elements `xs`, in this order. -/
structure Rep (l : TraceableList T E) (xs : Elems T E) : Prop where
  nodup : (addrs xs).Nodup
  seg : Seg (links l.heap) none (addrs xs) none
  elem : ∀ a d e, (a, d, e) ∈ xs →
    ∃ n, l.heap a = some n ∧ n.data = d ∧ n.extraInfo = e ∧ n.magic = nodeMagic
  live : ∀ a, l.heap a ≠ none → a ∈ addrs xs
  head : l.head = (addrs xs).head?
  tail : l.tail = (addrs xs).getLast?
  size : l.mSize = xs.length

theorem rep_empty : Rep (empty : TraceableList T E) [] where
  nodup := List.nodup_nil
  seg := trivial
  elem := by simp
  live := by simp [empty]
  head := rfl
  tail := rfl
  size := rfl

theorem Rep.not_mem {l : TraceableList T E} {xs : Elems T E} (h : Rep l xs) {a : Addr}
    (ha : l.heap a = none) : a ∉ addrs xs := by
  intro hm
  obtain ⟨⟨b, d, e⟩, hx, rfl⟩ := List.mem_map.mp hm
  obtain ⟨n, hn, -⟩ := h.elem b d e hx
  exact absurd (hn.symm.trans ha) (by simp)

theorem Rep.mem_live {l : TraceableList T E} {xs : Elems T E} (h : Rep l xs) {a : Addr}
    (ha : a ∈ addrs xs) : l.heap a ≠ none := fun hn => h.not_mem hn ha

/-- The node of an element, links included. -/
theorem Rep.node {l : TraceableList T E} {ys zs : Elems T E} {a : Addr} {d : T} {e : E}
    (h : Rep l (ys ++ (a, d, e) :: zs)) :
    l.heap a = some ⟨d, (addrs ys).getLast?, (addrs zs).head?, e, nodeMagic⟩ := by
  obtain ⟨n, hn, rfl, rfl, hm⟩ := h.elem a d e (by simp)
  have hk : links l.heap a = some ⟨(addrs ys).getLast?, (addrs zs).head?⟩ := by
    have hs := h.seg
    rw [addrs_append, addrs_cons] at hs
    simpa using hs.get
  simp only [links, hn, Option.map_some, Option.some.injEq, Link.mk.injEq] at hk
  rw [hn, ← hk.1, ← hk.2, ← hm]

/-! ### The heap around a gap -/

/-- The node at `p` changed by `f`, if there is one. -/
def modifyAt (p : Option Addr) (f : Node T E → Node T E) (heap : Addr → Option (Node T E)) :
    Addr → Option (Node T E) :=
  fun b => (heap b).map fun n => if some b = p then f n else n

@[simp] theorem modifyAt_eq_none {p : Option Addr} {f : Node T E → Node T E}
    {heap : Addr → Option (Node T E)} {b : Addr} : modifyAt p f heap b = none ↔ heap b = none := by
  simp [modifyAt]

theorem store_apply {l : TraceableList T E} {a : Addr} (ha : l.heap a ≠ none)
    (f : Node T E → Node T E) :
    (store (some a) f).run l = .done () { l with heap := modifyAt (some a) f l.heap } := by
  obtain ⟨n, hn⟩ := Option.ne_none_iff_exists'.mp ha
  have he : Function.update l.heap a (some (f n)) = modifyAt (some a) f l.heap := by
    funext b
    by_cases hb : b = a
    · subst hb
      simp [modifyAt, hn]
    · simp [modifyAt, hb]
  simp [store, hn, he]

theorem storeIf_apply {l : TraceableList T E} {p : Option Addr}
    (hp : ∀ a, p = some a → l.heap a ≠ none) (f : Node T E → Node T E) :
    (storeIf p f).run l = .done () { l with heap := modifyAt p f l.heap } := by
  cases p with
  | none =>
      have he : modifyAt none f l.heap = l.heap := by
        funext b
        simp [modifyAt]
      simp [storeIf, he]
  | some a => exact store_apply (hp a rfl) f

/-- A node next to a gap, once the gap is filled (`Links.relink`). -/
def relinkNode (l? r? n' p' : Option Addr) (b : Addr) (n : Node T E) : Node T E :=
  { n with
    prev := if some b = r? then p' else n.prev
    next := if some b = l? then n' else n.next }

/-- The heap after the node `a` is put between `l?` and `r?`. -/
def insertHeap (heap : Addr → Option (Node T E)) (a : Addr) (n : Node T E)
    (l? r? : Option Addr) : Addr → Option (Node T E) :=
  Function.update (fun b => (heap b).map (relinkNode l? r? (some a) (some a) b)) a (some n)

/-- The heap after the node `a` is taken out from between `l?` and `r?`. -/
def removeHeap (heap : Addr → Option (Node T E)) (a : Addr) (l? r? : Option Addr) :
    Addr → Option (Node T E) :=
  Function.update (fun b => (heap b).map (relinkNode l? r? r? l? b)) a none

theorem links_relinkNode {heap heap' : Addr → Option (Node T E)} {l? r? n' p' : Option Addr}
    {b : Addr} (h : heap' b = (heap b).map (relinkNode l? r? n' p' b)) :
    links heap' b = (links heap b).map (relink l? r? n' p' b) := by
  simp only [links, h, Option.map_map]
  rfl

/-- **Replacing the elements between `ys` and `zs`**, when the heap changes as in
`Links.Seg.splice`. -/
theorem Rep.splice {l l' : TraceableList T E} {ys zs : Elems T E} (ms ms' : Elems T E)
    (h : Rep l (ys ++ (ms ++ zs))) (hnd : (addrs (ys ++ (ms' ++ zs))).Nodup)
    (he : ∀ b ∈ addrs (ys ++ zs), l'.heap b = (l.heap b).map
      (relinkNode (addrs ys).getLast? (addrs zs).head?
        ((addrs ms').head?.or (addrs zs).head?)
        ((addrs ms').getLast?.or (addrs ys).getLast?) b))
    (hm : Seg (links l'.heap) (addrs ys).getLast? (addrs ms')
      (addrs zs).head?)
    (hel : ∀ a d e, (a, d, e) ∈ ms' →
      ∃ n, l'.heap a = some n ∧ n.data = d ∧ n.extraInfo = e ∧ n.magic = nodeMagic)
    (hlive : ∀ a, l'.heap a ≠ none → a ∈ addrs (ys ++ (ms' ++ zs)))
    (hhead : l'.head = (addrs (ys ++ (ms' ++ zs))).head?)
    (htail : l'.tail = (addrs (ys ++ (ms' ++ zs))).getLast?)
    (hsize : l'.mSize = (ys ++ (ms' ++ zs)).length) : Rep l' (ys ++ (ms' ++ zs)) where
  nodup := hnd
  seg := by
    have hs := h.seg
    simp only [addrs_append] at hs hnd he ⊢
    refine hs.splice ?_ (fun b hb => links_relinkNode (he b hb)) hm
    exact hnd.sublist ((List.sublist_append_right _ _).append_left _)
  elem := by
    have kept : ∀ a d e, (a, d, e) ∈ ys ++ zs →
        ∃ n, l'.heap a = some n ∧ n.data = d ∧ n.extraInfo = e ∧ n.magic = nodeMagic := by
      intro a d e hx
      obtain ⟨n, hn, rfl, rfl, hg⟩ := h.elem a d e (by
        simp only [List.mem_append] at hx ⊢; tauto)
      have hb := he a (mem_addrs hx)
      rw [hn, Option.map_some] at hb
      exact ⟨_, hb, rfl, rfl, hg⟩
    intro a d e hx
    simp only [List.mem_append] at hx
    rcases hx with hy | hx | hz
    · exact kept a d e (by simp [hy])
    · exact hel a d e hx
    · exact kept a d e (by simp [hz])
  live := hlive
  head := hhead
  tail := htail
  size := hsize

private theorem getLast?_append_cons {α : Type} (l r : List α) (a : α) :
    (l ++ a :: r).getLast? = r.getLast?.or (some a) := by
  rw [List.getLast?_append, List.getLast?_cons]
  cases r.getLast? <;> rfl

/-- A new element in the gap between `ys` and `zs`. -/
theorem Rep.insert {l l' : TraceableList T E} (ys zs : Elems T E) {a : Addr} {d : T} {e : E}
    (h : Rep l (ys ++ zs)) (ha : l.heap a = none)
    (hheap : l'.heap = insertHeap l.heap a
      ⟨d, (addrs ys).getLast?, (addrs zs).head?, e, nodeMagic⟩
      (addrs ys).getLast? (addrs zs).head?)
    (hhead : l'.head = (addrs ys).head?.or (some a))
    (htail : l'.tail = (addrs zs).getLast?.or (some a))
    (hsize : l'.mSize = l.mSize + 1) : Rep l' (ys ++ (a, d, e) :: zs) := by
  have hn : a ∉ addrs (ys ++ zs) := h.not_mem ha
  have hself : l'.heap a = some ⟨d, (addrs ys).getLast?, (addrs zs).head?, e,
      nodeMagic⟩ := by rw [hheap, insertHeap, Function.update_self]
  have hother : ∀ b, b ≠ a → l'.heap b = (l.heap b).map (relinkNode (addrs ys).getLast?
      (addrs zs).head? (some a) (some a) b) := fun b hb => by
    rw [hheap, insertHeap, Function.update_of_ne hb]
  refine h.splice [] [(a, d, e)] ?_ ?_ ?_ ?_ ?_ ?_ ?_ ?_
  · have hnd := h.nodup
    simp only [addrs_append, addrs_cons, List.singleton_append] at hnd hn ⊢
    exact (List.perm_middle.nodup_iff).mpr (List.nodup_cons.mpr ⟨hn, hnd⟩)
  · intro b hb
    exact hother b fun e => hn (e ▸ hb)
  · refine ⟨?_, trivial⟩
    simp [links, hself]
  · rintro b d' e' hb
    obtain ⟨rfl, rfl, rfl⟩ : b = a ∧ d' = d ∧ e' = e := by simpa using hb
    exact ⟨_, hself, rfl, rfl, rfl⟩
  · intro b hb
    by_cases e : b = a
    · simp [e]
    · rw [hother b e] at hb
      have := h.live b fun hn => hb (by rw [hn]; rfl)
      simp only [addrs_append, List.mem_append] at this ⊢
      tauto
  · rw [hhead]
    cases ys <;> simp
  · rw [htail]
    simp only [addrs_append, addrs_cons, List.singleton_append]
    exact (getLast?_append_cons _ _ _).symm
  · rw [hsize, h.size]
    simp
    omega

/-- The element `a` taken out from between `ys` and `zs`. -/
theorem Rep.remove {l l' : TraceableList T E} {ys zs : Elems T E} {a : Addr} {d : T} {e : E}
    (h : Rep l (ys ++ (a, d, e) :: zs))
    (hheap : l'.heap = removeHeap l.heap a (addrs ys).getLast? (addrs zs).head?)
    (hhead : l'.head = (addrs ys).head?.or (addrs zs).head?)
    (htail : l'.tail = (addrs zs).getLast?.or (addrs ys).getLast?)
    (hsize : l'.mSize = l.mSize - 1) : Rep l' (ys ++ zs) := by
  have hnd : a ∉ addrs (ys ++ zs) ∧ (addrs (ys ++ zs)).Nodup := by
    have hnd := h.nodup
    simp only [addrs_append, addrs_cons] at hnd ⊢
    exact List.nodup_cons.mp ((List.perm_middle.nodup_iff).mp hnd)
  have hother : ∀ b, b ≠ a → l'.heap b = (l.heap b).map (relinkNode (addrs ys).getLast?
      (addrs zs).head? (addrs zs).head? (addrs ys).getLast? b) :=
    fun b hb => by rw [hheap, removeHeap, Function.update_of_ne hb]
  refine Rep.splice [(a, d, e)] [] h hnd.2 ?_ trivial (by simp) ?_ ?_ ?_ ?_
  · intro b hb
    exact hother b fun e => hnd.1 (e ▸ hb)
  · intro b hb
    by_cases e : b = a
    · rw [e, hheap, removeHeap, Function.update_self] at hb
      exact absurd rfl hb
    · rw [hother b e] at hb
      have := h.live b fun hn => hb (by rw [hn]; rfl)
      simp only [addrs_append, addrs_cons, List.mem_append, List.mem_cons] at this ⊢
      tauto
  · rw [hhead]
    cases ys <;> simp
  · rw [htail]
    simp [List.getLast?_append]
  · rw [hsize, h.size]
    simp

/-! ### Insertion and removal -/

theorem Rep.ne_of_node {l : TraceableList T E} {a p : Addr} {n : Node T E}
    (ha : l.heap a = none) (hp : l.heap p = some n) : p ≠ a := by
  rintro rfl
  simp [ha] at hp

theorem Rep.head_ne_none {l : TraceableList T E} {ys zs : Elems T E} {x : Addr × T × E}
    (h : Rep l (ys ++ x :: zs)) : l.head ≠ none := by
  rw [h.head]
  cases ys <;> simp

/-- What comes before an element is live. -/
theorem Rep.left_live {l : TraceableList T E} {ys zs : Elems T E} (h : Rep l (ys ++ zs)) :
    ∀ q, (addrs ys).getLast? = some q → l.heap q ≠ none := fun q hq =>
  h.mem_live (by simp [List.mem_of_getLast? hq])

/-- `head` is the element `p` only when nothing comes before it. -/
theorem Rep.ite_head {l : TraceableList T E} {ys zs : Elems T E} {p : Addr} {d : T} {e : E}
    (h : Rep l (ys ++ (p, d, e) :: zs)) (o : Option Addr) :
    (if l.head = some p then o else l.head) = (addrs ys).head?.or o := by
  have hnd := h.nodup
  rw [h.head]
  cases hy : addrs ys with
  | nil => simp [hy]
  | cons q as =>
      have hqp : q ≠ p := fun hc => by simp [hy, hc] at hnd
      simp [hy, hqp]

/-- `push_one` on the empty list. -/
theorem pushOne_empty {l : TraceableList T E} {a : Addr} (h : Rep l []) (ha : l.heap a = none)
    {where_ : Iterator} (hw : where_.ptr = none) (d : T) (e : E) :
    ∃ l', (pushOne a where_ d e).run l = .done () l' ∧ Rep l' [(a, d, e)] := by
  have hhead : l.head = none := h.head
  refine ⟨⟨Function.update l.heap a (some ⟨d, none, none, e, nodeMagic⟩), some a, some a,
    l.mSize + 1⟩, by simp [pushOne, new, ha, hhead, hw], ?_⟩
  refine Rep.insert [] [] h ha ?_ rfl rfl rfl
  have hnone : ∀ b, l.heap b = none := fun b => by
    by_contra hb
    simpa using h.live b hb
  funext b
  by_cases hb : b = a
  · simp [insertHeap, hb]
  · simp [insertHeap, hb, hnone]

/-- `push_one` at `end()` of a list that is not empty. -/
theorem pushOne_end {l : TraceableList T E} {ys : Elems T E} {a q : Addr} {dq : T} {eq : E}
    (h : Rep l (ys ++ [(q, dq, eq)])) (ha : l.heap a = none) {where_ : Iterator}
    (hw : where_.ptr = none) (d : T) (e : E) :
    ∃ l', (pushOne a where_ d e).run l = .done () l' ∧
      Rep l' (ys ++ [(q, dq, eq)] ++ [(a, d, e)]) := by
  have hq := h.node
  have hqa : q ≠ a := Rep.ne_of_node ha hq
  have hhead : l.head ≠ none := h.head_ne_none
  have htail : l.tail = some q := by rw [h.tail]; simp
  refine ⟨⟨Function.update (Function.update (Function.update l.heap a
    (some ⟨d, none, none, e, nodeMagic⟩)) q
    (some ⟨dq, (addrs ys).getLast?, some a, eq, nodeMagic⟩)) a
    (some ⟨d, some q, none, e, nodeMagic⟩), l.head, some a, l.mSize + 1⟩, ?_, ?_⟩
  · simp [pushOne, new, store, ha, hhead, hw, htail, hq, hqa, hqa.symm]
  · refine Rep.insert (ys ++ [(q, dq, eq)]) [] (by simpa using h) ha ?_ ?_ rfl rfl
    · funext b
      by_cases hb : b = a
      · simp [insertHeap, hb]
      · by_cases hbq : b = q
        · subst hbq
          simp [insertHeap, relinkNode, hb, hq]
        · simp only [insertHeap, Function.update_of_ne hb, Function.update_of_ne hbq]
          cases l.heap b <;> simp [relinkNode, hbq]
    · show l.head = _
      rw [h.head]
      cases ys <;> simp

/-- `push_one` at an element. -/
theorem pushOne_before {l : TraceableList T E} {ys zs : Elems T E} {a p : Addr} {dp : T} {ep : E}
    (h : Rep l (ys ++ (p, dp, ep) :: zs)) (ha : l.heap a = none) {where_ : Iterator}
    (hw : where_.ptr = some p) (d : T) (e : E) :
    ∃ l', (pushOne a where_ d e).run l = .done () l' ∧
      Rep l' (ys ++ (a, d, e) :: (p, dp, ep) :: zs) := by
  have hp := h.node
  have hpa : p ≠ a := Rep.ne_of_node ha hp
  have hhead := h.head_ne_none
  have hleft := h.left_live
  -- the heap after each of the four writes
  let h₁ := Function.update l.heap a (some ⟨d, none, some p, e, nodeMagic⟩)
  let h₂ := modifyAt (some a) (fun n => { n with prev := (addrs ys).getLast? }) h₁
  let h₃ := modifyAt (addrs ys).getLast? (fun n => { n with next := some a }) h₂
  let h₄ := modifyAt (some p) (fun n => { n with prev := some a }) h₃
  have hlive : ∀ q, l.heap q ≠ none → h₁ q ≠ none := fun q hq => by
    by_cases hqa : q = a <;> simp [h₁, hqa, hq]
  refine ⟨⟨h₄, if l.head = some p then some a else l.head, l.tail, l.mSize + 1⟩, ?_, ?_⟩
  · have e₁ : (new a ⟨d, none, where_.ptr, e, nodeMagic⟩).run l =
        .done () { l with heap := h₁ } := by
      simp [new, ha, h₁, hw]
    have e₂ : (load where_.ptr).run { l with heap := h₁, mSize := l.mSize + 1 } =
        .done ⟨dp, (addrs ys).getLast?, (addrs zs).head?, ep, nodeMagic⟩
          { l with heap := h₁, mSize := l.mSize + 1 } := by
      simp [load, hw, h₁, hpa, hp]
    rw [pushOne, Exec.run_bind_done e₁, Exec.run_bind_done rfl, Exec.run_bind_done rfl]
    simp only [hhead, hw, if_false, reduceCtorEq]
    rw [← hw, Exec.run_bind_done e₂, hw]
    rw [Exec.run_bind_done (store_apply (by simp [h₁]) _),
      Exec.run_bind_done (storeIf_apply (fun q hq => by simpa using hlive q (hleft q hq)) _),
      Exec.run_bind_done (store_apply (by simp [h₁, hpa, hp]) _)]
    by_cases hc : l.head = some p <;> simp [hc, h₄, h₃, h₂]
  · refine Rep.insert _ _ h ha ?_ ?_ ?_ rfl
    · funext b
      by_cases hb : b = a
      · subst hb
        have hlb : (addrs ys).getLast? ≠ some b := fun hq => hleft b hq ha
        simp [h₄, h₃, h₂, h₁, modifyAt, insertHeap, hpa.symm, hlb.symm]
      · simp only [h₄, h₃, h₂, h₁, modifyAt, insertHeap, Function.update_of_ne hb]
        cases l.heap b with
        | none => rfl
        | some n =>
            have hba : some b ≠ some a := fun hc => hb (Option.some.inj hc)
            simp only [Option.map_some, relinkNode, if_neg hba, addrs_cons, List.head?_cons]
            split_ifs <;> rfl
    · exact h.ite_head (some a)
    · show l.tail = _
      rw [h.tail]
      simp [List.getLast?_append, List.getLast?_cons]

/-- **`push_one` inserts before its position.** -/
theorem pushOne_spec {l : TraceableList T E} (ys zs : Elems T E) {a : Addr}
    (h : Rep l (ys ++ zs)) (ha : l.heap a = none) {where_ : Iterator}
    (hw : where_.ptr = (addrs zs).head?) (d : T) (e : E) :
    ∃ l', (pushOne a where_ d e).run l = .done () l' ∧ Rep l' (ys ++ (a, d, e) :: zs) := by
  rcases zs with _ | ⟨⟨p, dp, ep⟩, zs⟩
  · obtain rfl | ⟨ys, ⟨q, dq, eq⟩, rfl⟩ := List.eq_nil_or_concat' ys
    · exact pushOne_empty (by simpa using h) ha hw d e
    · exact pushOne_end (by simpa using h) ha hw d e
  · exact pushOne_before h ha hw d e

/-- **`pop_one` removes the element it is given.** -/
theorem popOne_spec {l : TraceableList T E} (ys : Elems T E) {zs : Elems T E} {p : Addr} {d : T}
    {e : E} (h : Rep l (ys ++ (p, d, e) :: zs)) (which : Iterator) (hw : which.ptr = some p) :
    ∃ l', (popOne which).run l = .done () l' ∧ Rep l' (ys ++ zs) := by
  have hp := h.node
  have hnd : p ∉ addrs ys ∧ p ∉ addrs zs := by
    have hnd := h.nodup
    rw [addrs_append, addrs_cons, List.perm_middle.nodup_iff, List.nodup_cons] at hnd
    simpa using hnd.1
  have hhead := h.head_ne_none
  have hleft := h.left_live
  have hright : ∀ q, (addrs zs).head? = some q → l.heap q ≠ none := fun q hq =>
    h.mem_live (by simp [List.mem_of_mem_head? hq])
  -- the heap after each of the two writes
  let h₁ := modifyAt (addrs ys).getLast? (fun n => { n with next := (addrs zs).head? }) l.heap
  let h₂ := modifyAt (addrs zs).head? (fun n => { n with prev := (addrs ys).getLast? }) h₁
  have hlast : h₂ p ≠ none := by simp [h₂, h₁, hp]
  refine ⟨⟨Function.update h₂ p none, if l.head = some p then (addrs zs).head? else l.head,
    if l.tail = some p then (addrs ys).getLast? else l.tail, l.mSize - 1⟩, ?_, ?_⟩
  · have e₁ : (load (some p)).run l =
        .done ⟨d, (addrs ys).getLast?, (addrs zs).head?, e, nodeMagic⟩ l := by
      simp [load, hp]
    rw [popOne, Exec.run_bind_done rfl]
    simp only [hhead, hw, if_false]
    rw [Exec.run_bind_done e₁]
    rw [Exec.run_bind_done (storeIf_apply hleft _),
      Exec.run_bind_done (storeIf_apply (fun q hq => by simpa using hright q hq) _)]
    obtain ⟨n, hn⟩ := Option.ne_none_iff_exists'.mp hlast
    by_cases hc : l.head = some p <;> by_cases ht : l.tail = some p <;>
      simp [hc, ht, delete, hn, h₂, h₁]
  · refine Rep.remove h ?_ ?_ ?_ rfl
    · funext b
      by_cases hb : b = p
      · simp [removeHeap, hb]
      · simp only [removeHeap, Function.update_of_ne hb, h₂, h₁, modifyAt]
        cases l.heap b with
        | none => rfl
        | some n =>
            simp only [Option.map_some, relinkNode]
            split_ifs <;> rfl
    · exact h.ite_head (addrs zs).head?
    · show (if l.tail = some p then _ else l.tail) = _
      rw [h.tail, addrs_append, addrs_cons, getLast?_append_cons]
      cases hz : (addrs zs).getLast? with
      | none => simp
      | some q =>
          have hqp : q ≠ p := fun hc => hnd.2 (hc ▸ List.mem_of_getLast? hz)
          simp [hqp]

theorem pushBack_spec {l : TraceableList T E} {xs : Elems T E} {a : Addr} (h : Rep l xs)
    (ha : l.heap a = none) (d : T) (e : E) :
    ∃ l', (pushBack a d e).run l = .done () l' ∧ Rep l' (xs ++ [(a, d, e)]) :=
  pushOne_spec xs [] (by simpa using h) ha rfl d e

theorem pushFront_spec {l : TraceableList T E} {xs : Elems T E} {a : Addr} (h : Rep l xs)
    (ha : l.heap a = none) (d : T) (e : E) :
    ∃ l', (pushFront a d e).run l = .done () l' ∧ Rep l' ((a, d, e) :: xs) :=
  pushOne_spec [] xs h ha h.head d e

theorem popFront_spec {l : TraceableList T E} {x : Addr × T × E} {xs : Elems T E}
    (h : Rep l (x :: xs)) : ∃ l', popFront.run l = .done () l' ∧ Rep l' xs :=
  popOne_spec [] h _ h.head

/-- `--end()` of a list that is not empty is the last element. -/
theorem decr_end {l : TraceableList T E} {xs : Elems T E} {x : Addr × T × E}
    (h : Rep l (xs ++ [x])) : (decr l.endIt).run l = .done ⟨some x.1, some x.1⟩ l := by
  have ht : l.tail = some x.1 := by rw [h.tail]; simp
  simp [decr, endIt, ht]

theorem popBack_spec {l : TraceableList T E} {x : Addr × T × E} {xs : Elems T E}
    (h : Rep l (xs ++ [x])) : ∃ l', popBack.run l = .done () l' ∧ Rep l' xs := by
  obtain ⟨l', hl, hr⟩ := popOne_spec xs h ⟨some x.1, some x.1⟩ rfl
  refine ⟨l', ?_, by simpa using hr⟩
  rw [popBack, Exec.run_bind_done rfl, Exec.run_bind_done (decr_end h), hl]

/-- The rounds of `pop_some`, by induction on the elements still to be removed: each round
steps past the first of them before it is freed. -/
theorem popSomeLoop_spec {ys zs : Elems T E} {to_ : Iterator} (hto : to_.ptr = (addrs zs).head?)
    (ms : Elems T E) :
    ∀ {l : TraceableList T E} (iter : Iterator) {fuel : ℕ}, Rep l (ys ++ (ms ++ zs)) →
      iter.ptr = (addrs (ms ++ zs)).head? → ms.length < fuel →
      ∃ l', (popSomeLoop to_ fuel iter).run l = .done () l' ∧ Rep l' (ys ++ zs) := by
  induction ms with
  | nil =>
      intro l iter fuel h hi hf
      obtain ⟨fuel, rfl⟩ : ∃ k, fuel = k + 1 := ⟨fuel - 1, by simp at hf; omega⟩
      have : iter.ptr = to_.ptr := by rw [hi, hto]; rfl
      exact ⟨l, by simp [popSomeLoop, this], h⟩
  | cons m ms ih =>
      obtain ⟨p, d, e⟩ := m
      intro l iter fuel h hi hf
      obtain ⟨fuel, rfl⟩ : ∃ k, fuel = k + 1 := ⟨fuel - 1, by simp at hf; omega⟩
      have hp := h.node
      have hi : iter.ptr = some p := hi
      have hne : iter.ptr ≠ to_.ptr := by
        rw [hi, hto]
        intro hc
        have hnd := h.nodup
        have hm : p ∈ addrs zs := List.mem_of_mem_head? hc.symm
        simp [List.nodup_append, hm] at hnd
      -- the step past it reads its `next`, so it has to come before the node is freed
      have hnext : (postIncr iter).run l = .done (⟨iter.ptr, none⟩,
          { iter with ptr := (addrs (ms ++ zs)).head? }) l := by
        simp [postIncr, incr, load, hi, hp]
      obtain ⟨l₁, hl₁, hr₁⟩ := popOne_spec ys h ⟨iter.ptr, none⟩ hi
      obtain ⟨l', hl', hr'⟩ := ih { iter with ptr := (addrs (ms ++ zs)).head? } hr₁ rfl
        (by simpa using hf)
      refine ⟨l', ?_, hr'⟩
      rw [popSomeLoop, if_neg hne, Exec.run_bind_done hnext]
      simp only
      rw [Exec.run_bind_done hl₁, hl']

/-- **`pop_some` removes the elements from `from` up to, not including, `to`.** -/
theorem popSome_spec {l : TraceableList T E} {ys ms zs : Elems T E} {from_ to_ : Iterator}
    (h : Rep l (ys ++ (ms ++ zs))) (hfrom : from_.ptr = (addrs (ms ++ zs)).head?)
    (hto : to_.ptr = (addrs zs).head?) :
    ∃ l', (popSome from_ to_).run l = .done () l' ∧ Rep l' (ys ++ zs) :=
  popSomeLoop_spec hto ms _ h hfrom (by rw [h.size]; simp; omega)

/-! ### Access by pointer -/

theorem iteratorOf_live {l : TraceableList T E} {xs : Elems T E} (h : Rep l xs) {p : Addr}
    (hp : p ∈ addrs xs) (foreign : Addr → Option UInt32) :
    (iteratorOf foreign (some p)).run l = .done ⟨some p, none⟩ l := by
  obtain ⟨⟨q, d, e⟩, hx, rfl⟩ := List.mem_map.mp hp
  obtain ⟨n, hn, -, -, hg⟩ := h.elem q d e hx
  simp [iteratorOf, hn, hg]

/-- Writing an element's extra info changes nothing else. -/
theorem setExtraInfo_spec {l : TraceableList T E} {ys zs : Elems T E} {p : Addr} {d : T} {e : E}
    (h : Rep l (ys ++ (p, d, e) :: zs)) (tail : Option Addr) (e' : E) :
    ∃ l', (setExtraInfo ⟨some p, tail⟩ e').run l = .done () l' ∧
      Rep l' (ys ++ (p, d, e') :: zs) := by
  have hp := h.node
  have hnd := h.nodup
  refine ⟨_, store_apply (by simp [hp]) _, ?_⟩
  -- the write leaves `prev` and `next` of every node
  have hlinks : links (modifyAt (some p) (fun n => { n with extraInfo := e' }) l.heap) =
      links l.heap := by
    funext b
    simp only [links, modifyAt, Option.map_map]
    congr 1
    funext n
    simp only [Function.comp]
    split_ifs <;> rfl
  constructor
  · simpa using hnd
  · have hs := h.seg
    simp only [addrs_append, addrs_cons] at hs ⊢
    rwa [hlinks]
  · intro a d' x hx
    simp only [addrs_append, addrs_cons, List.nodup_append, List.nodup_cons] at hnd
    simp only [List.mem_append, List.mem_cons, Prod.mk.injEq] at hx
    by_cases ha : a = p
    · subst ha
      obtain hy | ⟨-, rfl, rfl⟩ | hz := hx
      · exact absurd rfl (hnd.2.2 a (mem_addrs hy) a (by simp))
      · exact ⟨⟨d', (addrs ys).getLast?, (addrs zs).head?, x, nodeMagic⟩,
          by simp [modifyAt, hp], rfl, rfl, rfl⟩
      · exact absurd (mem_addrs hz) hnd.2.1.1
    · obtain ⟨n, hn, rfl, rfl, hg⟩ := h.elem a d' x (by
        simp only [List.mem_append, List.mem_cons]
        tauto)
      exact ⟨n, by simp [modifyAt, hn, ha], rfl, rfl, hg⟩
  · intro a ha
    have := h.live a (by simpa using ha)
    simpa using this
  · simpa using h.head
  · simpa using h.tail
  · simpa using h.size

end AliMiddleware.TraceableList
