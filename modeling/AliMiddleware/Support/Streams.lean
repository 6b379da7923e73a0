import Mathlib.Data.List.Basic

/-!
# Support — Streams

Streams that are read item by item.  A reader takes the first item of a stream when it is all
there; it takes something, and it does not look beyond the item (`ItemReader`).  Then the items
of a stream stay its first items whatever comes after it (`items_mono`), and a stream of encoded
items is read back as these (`items_encoded`).
-/

namespace AliMiddleware

/-- A reader of the first item of a stream. -/
structure ItemReader (α ρ : Type*) where
  first : List α → Option (ρ × List α)
  shorter : ∀ {s rest : List α} {r : ρ}, first s = some (r, rest) → rest.length < s.length
  append : ∀ {s rest : List α} {r : ρ} (more : List α), first s = some (r, rest) →
    first (s ++ more) = some (r, rest ++ more)

namespace ItemReader

variable {α ρ : Type*} (R : ItemReader α ρ)

/-- At most `n` items. -/
def itemsFrom : ℕ → List α → List ρ
  | 0, _ => []
  | n + 1, s =>
      match R.first s with
      | some (r, rest) => r :: itemsFrom n rest
      | none => []

/-- The whole items at the start of a stream; each takes something. -/
def items (s : List α) : List ρ := R.itemsFrom s.length s

variable {R}

/-- More fuel than the stream is long changes nothing. -/
theorem itemsFrom_enough (n : ℕ) {m : ℕ} {s : List α} (hn : s.length ≤ n) (hm : s.length ≤ m) :
    R.itemsFrom n s = R.itemsFrom m s := by
  induction n generalizing m s with
  | zero =>
      obtain rfl : s = [] := List.eq_nil_of_length_eq_zero (Nat.le_zero.mp hn)
      cases m with
      | zero => rfl
      | succ m =>
          cases hfirst : R.first [] with
          | none => simp [itemsFrom, hfirst]
          | some p => exact absurd (R.shorter hfirst) (Nat.not_lt_zero _)
  | succ n ih =>
      cases m with
      | zero =>
          obtain rfl : s = [] := List.eq_nil_of_length_eq_zero (Nat.le_zero.mp hm)
          cases hfirst : R.first [] with
          | none => simp [itemsFrom, hfirst]
          | some p => exact absurd (R.shorter hfirst) (Nat.not_lt_zero _)
      | succ m =>
          rw [itemsFrom, itemsFrom]
          cases hfirst : R.first s with
          | none => rfl
          | some p =>
              obtain ⟨r, rest⟩ := p
              have hlt := R.shorter hfirst
              exact congrArg (r :: ·) (ih (by omega) (by omega))

theorem items_of_none {s : List α} (h : R.first s = none) : R.items s = [] := by
  cases hs : s.length with
  | zero => rw [items, hs, itemsFrom]
  | succ n => rw [items, hs, itemsFrom, h]

theorem items_of_some {s rest : List α} {r : ρ} (h : R.first s = some (r, rest)) :
    R.items s = r :: R.items rest := by
  have hlt := R.shorter h
  obtain ⟨n, hn⟩ := Nat.exists_eq_succ_of_ne_zero (Nat.ne_zero_of_lt hlt)
  rw [items, hn, itemsFrom, h]
  exact congrArg (r :: ·) (itemsFrom_enough n (by omega) (Nat.le_refl _))

/-- **What comes later leaves the items that are there.** -/
theorem items_append (s more : List α) : R.items s <+: R.items (s ++ more) := by
  induction hn : s.length using Nat.strongRecOn generalizing s with
  | ind n ih =>
      cases hfirst : R.first s with
      | none =>
          rw [items_of_none hfirst]
          exact List.nil_prefix
      | some p =>
          obtain ⟨r, rest⟩ := p
          rw [items_of_some hfirst, items_of_some (R.append more hfirst)]
          exact List.cons_prefix_cons.mpr ⟨rfl, ih rest.length (hn ▸ R.shorter hfirst) rest rfl⟩

theorem items_mono {s s' : List α} (h : s <+: s') : R.items s <+: R.items s' := by
  obtain ⟨more, rfl⟩ := h
  exact items_append s more

/-- **A stream of encoded items is read back**, up to what comes after them. -/
theorem items_encoded {β : Type*} {enc : β → List α} {dec : β → ρ} {xs : List β}
    (h : ∀ x ∈ xs, ∀ rest, R.first (enc x ++ rest) = some (dec x, rest)) (rest : List α) :
    R.items ((xs.map enc).flatten ++ rest) = xs.map dec ++ R.items rest := by
  induction xs with
  | nil => rfl
  | cons x xs ih =>
      have hfirst := h x List.mem_cons_self ((xs.map enc).flatten ++ rest)
      rw [List.map_cons, List.flatten_cons, List.append_assoc, items_of_some hfirst, List.map_cons,
        List.cons_append, ih fun y hy => h y (List.mem_cons_of_mem _ hy)]

/-- The items of the first part of such a stream are the first of its items. -/
theorem items_prefix_encoded {β : Type*} {enc : β → List α} {dec : β → ρ} {xs : List β}
    {s : List α} (h : ∀ x ∈ xs, ∀ rest, R.first (enc x ++ rest) = some (dec x, rest))
    (hs : s <+: (xs.map enc).flatten) : R.items s <+: xs.map dec := by
  have hall := items_encoded h []
  have hempty : R.items [] = [] := rfl
  rw [List.append_nil, hempty, List.append_nil] at hall
  rw [← hall]
  exact items_mono hs

end ItemReader

end AliMiddleware
