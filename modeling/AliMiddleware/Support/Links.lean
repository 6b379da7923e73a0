import Mathlib.Data.List.Nodup
import Mathlib.Data.List.Induction

/-!
# Support — Links

Chains of doubly linked cells.  A link map gives each live cell its two links.  `Seg lk p as n`
says that the cells `as` are chained in this order, the first one's `prev` being `p` and the
last one's `next` being `n`; a whole list is `Seg lk none as none`.

A segment splits at every append (`seg_append`), depends only on the links of its own cells
(`Seg.congr`), and its two ends can be relinked on their own (`Seg.setNext`, `Seg.setPrev`):
inserting and removing a cell are these three.  `Walk f p as` is the traversal that follows `f`
from `p`, visits `as` and stops at a null link; a whole list is walked forwards from its first
cell and backwards from its last (`Seg.walk_next`, `Seg.walk_prev`).

`Seg.splice` is both insertion and removal: the cells `m` between `l` and `r` are replaced by
`m'`, and apart from the new cells only the two cells at the edge of the gap are relinked
(`relink`).
-/

namespace AliMiddleware.Links

variable {α : Type*}

/-- The two links of a cell. -/
structure Link (α : Type*) where
  prev : Option α
  next : Option α

abbrev LinkMap (α : Type*) := α → Option (Link α)

/-- The cells `as` are chained, from `p` before the first to `n` after the last. -/
def Seg (lk : LinkMap α) : Option α → List α → Option α → Prop
  | _, [], _ => True
  | p, a :: as, n => lk a = some ⟨p, as.head?.or n⟩ ∧ Seg lk (some a) as n

@[simp] theorem seg_nil (lk : LinkMap α) (p n : Option α) : Seg lk p [] n := trivial

theorem seg_cons {lk : LinkMap α} {p n : Option α} {a : α} {as : List α} :
    Seg lk p (a :: as) n ↔ lk a = some ⟨p, as.head?.or n⟩ ∧ Seg lk (some a) as n := Iff.rfl

theorem seg_append {lk : LinkMap α} {p n : Option α} (l r : List α) :
    Seg lk p (l ++ r) n ↔ Seg lk p l (r.head?.or n) ∧ Seg lk (l.getLast?.or p) r n := by
  induction l generalizing p with
  | nil => simp
  | cons a l ih =>
      have hl : (a :: l).getLast?.or p = l.getLast?.or (some a) := by
        cases h : l.getLast? <;> simp [List.getLast?_cons, h]
      rw [List.cons_append, seg_cons, seg_cons, ih, hl, List.head?_append, Option.or_assoc,
        and_assoc]

/-- The links of a cell in the middle of a segment. -/
theorem Seg.get {lk : LinkMap α} {p n : Option α} {l r : List α} {a : α}
    (h : Seg lk p (l ++ a :: r) n) : lk a = some ⟨l.getLast?.or p, r.head?.or n⟩ :=
  (((seg_append l (a :: r)).mp h).2).1

/-- A segment depends only on the links of its own cells. -/
theorem Seg.congr {lk lk' : LinkMap α} {p n : Option α} {as : List α} (h : Seg lk p as n)
    (he : ∀ a ∈ as, lk' a = lk a) : Seg lk' p as n := by
  induction as generalizing p with
  | nil => trivial
  | cons a as ih =>
      refine ⟨(he a (by simp)).trans h.1, ih h.2 fun b hb => he b (by simp [hb])⟩

/-- The last cell's `next` relinked. -/
theorem Seg.setNext {lk lk' : LinkMap α} {p n n' : Option α} {l : List α} {b : α}
    (h : Seg lk p (l ++ [b]) n) (he : ∀ a ∈ l, lk' a = lk a)
    (hb : lk' b = (lk b).map fun k => { k with next := n' }) : Seg lk' p (l ++ [b]) n' := by
  rw [seg_append] at h ⊢
  refine ⟨h.1.congr he, ?_, trivial⟩
  rw [hb, h.2.1]
  rfl

/-- The first cell's `prev` relinked. -/
theorem Seg.setPrev {lk lk' : LinkMap α} {p p' n : Option α} {r : List α} {b : α}
    (h : Seg lk p (b :: r) n) (he : ∀ a ∈ r, lk' a = lk a)
    (hb : lk' b = (lk b).map fun k => { k with prev := p' }) : Seg lk' p' (b :: r) n := by
  refine ⟨?_, h.2.congr he⟩
  rw [hb, h.1]
  rfl

/-- The links of a cell next to a gap, once the gap is filled: the cell `l?` before it gets `n'`
as `next`, the cell `r?` after it gets `p'` as `prev`, every other cell keeps its links. -/
def relink [DecidableEq α] (l? r? n' p' : Option α) (b : α) (k : Link α) : Link α where
  prev := if some b = r? then p' else k.prev
  next := if some b = l? then n' else k.next

theorem relink_of_ne [DecidableEq α] {l? r? n' p' : Option α} {b : α} (k : Link α)
    (hl : some b ≠ l?) (hr : some b ≠ r?) : relink l? r? n' p' b k = k := by
  simp [relink, hl, hr]

private theorem ne_head?_of_disjoint {l r : List α} {b : α} (h : (l ++ r).Nodup) (hb : b ∈ l) :
    some b ≠ r.head? := fun e =>
  (List.nodup_append.mp h).2.2 b hb b (List.mem_of_mem_head? e.symm) rfl

private theorem ne_getLast?_of_disjoint {l r : List α} {b : α} (h : (l ++ r).Nodup)
    (hb : b ∈ r) : some b ≠ l.getLast? := fun e =>
  (List.nodup_append.mp h).2.2 b (List.mem_of_mem_getLast? e.symm) b hb rfl

/-- **Replacing the cells between `l` and `r`.** -/
theorem Seg.splice [DecidableEq α] {lk lk' : LinkMap α} {l m m' r : List α}
    (h : Seg lk none (l ++ (m ++ r)) none) (hnd : (l ++ r).Nodup)
    (he : ∀ b ∈ l ++ r, lk' b = (lk b).map
      (relink l.getLast? r.head? (m'.head?.or r.head?) (m'.getLast?.or l.getLast?) b))
    (hm : Seg lk' l.getLast? m' r.head?) : Seg lk' none (l ++ (m' ++ r)) none := by
  have keep : ∀ b ∈ l ++ r, some b ≠ l.getLast? → some b ≠ r.head? → lk' b = lk b := by
    intro b hb hl hr
    rw [he b hb]
    cases lk b with
    | none => rfl
    | some k => rw [Option.map_some, relink_of_ne k hl hr]
  rw [seg_append, seg_append] at h ⊢
  obtain ⟨hl, -, hr⟩ := h
  simp only [List.head?_append, Option.or_none] at hl hm hr ⊢
  refine ⟨?_, hm, ?_⟩
  -- the cells before the gap: the last of them is relinked
  · obtain rfl | ⟨l, q, rfl⟩ := List.eq_nil_or_concat' l
    · trivial
    · rw [List.getLast?_concat] at he keep
      refine hl.setNext (fun b hb => keep b (by simp [hb]) ?_ ?_) ?_
      · rintro ⟨rfl⟩
        exact (List.nodup_append.mp (List.nodup_append.mp hnd).1).2.2 q hb q (by simp) rfl
      · exact ne_head?_of_disjoint hnd (by simp [hb])
      · rw [he q (by simp)]
        have hq : some q ≠ r.head? := ne_head?_of_disjoint hnd (by simp)
        cases lk q <;> simp [relink, hq]
  -- the cells after the gap: the first of them is relinked
  · cases r with
    | nil => trivial
    | cons q r =>
        rw [List.head?_cons] at he keep
        refine hr.setPrev (fun b hb => keep b (by simp [hb]) ?_ ?_) ?_
        · exact ne_getLast?_of_disjoint hnd (by simp [hb])
        · rintro ⟨rfl⟩
          simp [List.nodup_append, hb] at hnd
        · rw [he q (by simp)]
          have hq : some q ≠ l.getLast? := ne_getLast?_of_disjoint hnd (by simp)
          cases lk q <;> simp [relink, hq]

/-! ### Walks -/

/-- Following `f` from `p` visits `as` and then stops at a null link. -/
def Walk (f : α → Option (Option α)) : Option α → List α → Prop
  | p, [] => p = none
  | p, a :: as => p = some a ∧ ∃ q, f a = some q ∧ Walk f q as

theorem Seg.walk_next {lk : LinkMap α} {p : Option α} {as : List α} (h : Seg lk p as none) :
    Walk (fun a => (lk a).map Link.next) as.head? as := by
  induction as generalizing p with
  | nil => rfl
  | cons a as ih => exact ⟨rfl, as.head?, by simp [h.1], ih h.2⟩

theorem Seg.walk_prev {lk : LinkMap α} {n : Option α} {as : List α} (h : Seg lk none as n) :
    Walk (fun a => (lk a).map Link.prev) as.getLast? as.reverse := by
  induction as using List.reverseRecOn generalizing n with
  | nil => rfl
  | append_singleton as a ih =>
      rw [seg_append] at h
      rw [List.reverse_append, List.getLast?_concat]
      exact ⟨rfl, as.getLast?, by simp [h.2.1], ih h.1⟩

end AliMiddleware.Links
