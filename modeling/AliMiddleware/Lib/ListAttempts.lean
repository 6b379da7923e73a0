import AliMiddleware.Lib.ListRuns

/-!
# Lib — ListAttempts

Removing from a `traceable_list` where there is nothing to remove.  `attempt` runs any history of
operations, the rejected ones included: the caller owes iterators onto the list and an allocator
that hands out no live node, but may pop what is not there (`Op.Allowed`).  A state of such a
history is the list with the elements it holds.

`pop_one` and `pop_front` reject what is not there, and the list is then as it was.  `pop_back`
takes its iterator from `--end()` first, which on an empty list follows a null pointer; so a
removal is clean exactly when it is not a `pop_back` on an empty list (`removal_clean_iff`).
-/

namespace AliMiddleware.TraceableList

variable {T E : Type}

/-- What the caller of an operation owes, when it may remove what is not there. -/
def Op.Allowed (xs : Elems T E) : Op T E → Prop
  | .popOne which => OnList xs which.ptr
  | .popFront | .popBack => True
  | op => op.Ok xs

instance (xs : Elems T E) (op : Op T E) : Decidable (op.Allowed xs) :=
  match op with
  | .popOne _ => inferInstanceAs (Decidable (OnList _ _))
  | .popFront | .popBack => isTrue trivial
  | .pushOne a where_ d e => inferInstanceAs (Decidable ((Op.pushOne a where_ d e).Ok xs))
  | .pushFront a d e => inferInstanceAs (Decidable ((Op.pushFront a d e).Ok xs))
  | .pushBack a d e => inferInstanceAs (Decidable ((Op.pushBack a d e).Ok xs))
  | .popSome from_ to_ => inferInstanceAs (Decidable ((Op.popSome from_ to_).Ok xs))

/-- The operation removes one element. -/
def Op.Removes : Op T E → Prop
  | .popOne _ | .popFront | .popBack => True
  | .pushOne _ _ _ _ | .pushFront _ _ _ | .pushBack _ _ _ | .popSome _ _ => False

/-- It removes what is not there: the list is empty, or the iterator equals `end()`. -/
def Op.Vacant (xs : Elems T E) : Op T E → Prop
  | .popOne which => xs = [] ∨ which.ptr = none
  | .popFront | .popBack => xs = []
  | .pushOne _ _ _ _ | .pushFront _ _ _ | .pushBack _ _ _ | .popSome _ _ => False

theorem Op.Allowed.ok {xs : Elems T E} {op : Op T E} (h : op.Allowed xs) (hv : ¬ op.Vacant xs) :
    op.Ok xs := by
  cases op with
  | pushOne => exact h
  | pushFront => exact h
  | pushBack => exact h
  | popSome => exact h
  | popOne which => exact ⟨h, fun hnone => hv (.inr hnone)⟩
  | popFront => exact fun hnil => hv (List.map_eq_nil_iff.mp hnil)
  | popBack => exact fun hnil => hv (List.map_eq_nil_iff.mp hnil)

/-! ### Histories -/

/-- A list, and the elements it holds. -/
structure Held (T E : Type) where
  list : TraceableList T E := empty
  elems : Elems T E := []

/-- An operation, whether or not it is rejected. -/
def attempt (s : Held T E) (op : Op T E) : Option (Held T E) :=
  if op.Allowed s.elems then
    match op.exec.run s.list with
    | .done _ l => some ⟨l, op.apply s.elems⟩
    | .threw _ l => some ⟨l, s.elems⟩
    | .undefined => none
  else none

/-- A removal does what it should: where there is nothing it throws `std::invalid_argument` and
the list is as it was, and no null pointer is followed. -/
structure Clean (s : Held T E) (op : Op T E) : Prop where
  rejects : op.Vacant s.elems →
    ∃ what, op.exec.run s.list = .threw (.invalidArgument what) s.list
  defined : op.exec.run s.list ≠ .undefined

theorem popOne_empty {l : TraceableList T E} (h : l.head = none) (which : Iterator) :
    (popOne which).run l = .threw (.invalidArgument "nothing to pop.") l := by
  simp [popOne, h]

theorem popOne_end {l : TraceableList T E} {which : Iterator} (h : l.head ≠ none)
    (hw : which.ptr = none) :
    (popOne which).run l = .threw (.invalidArgument "you may not pop end().") l := by
  simp [popOne, h, hw]

/-- `--end()` on an empty list. -/
theorem popBack_empty {l : TraceableList T E} (h : l.tail = none) :
    popBack.run l = .undefined := by
  simp [popBack, decr, endIt, load, h]

/-- **What is not there.** -/
theorem vacant_spec {l : TraceableList T E} {xs : Elems T E} {op : Op T E} (h : Rep l xs)
    (hv : op.Vacant xs) :
    (op = .popBack ∧ op.exec.run l = .undefined) ∨
      (op ≠ .popBack ∧ ∃ what, op.exec.run l = .threw (.invalidArgument what) l) := by
  have hempty : xs = [] → l.head = none ∧ l.tail = none := by
    rintro rfl
    exact ⟨h.head, h.tail⟩
  cases op with
  | pushOne => cases hv
  | pushFront => cases hv
  | pushBack => cases hv
  | popSome => cases hv
  | popFront => exact .inr ⟨by simp, _, popOne_empty (hempty hv).1 _⟩
  | popBack => exact .inl ⟨rfl, popBack_empty (hempty hv).2⟩
  | popOne which =>
      refine .inr ⟨by simp, ?_⟩
      by_cases hhead : l.head = none
      · exact ⟨_, popOne_empty hhead which⟩
      · rcases hv with hnil | hnone
        · exact absurd (hempty hnil).1 hhead
        · exact ⟨_, popOne_end hhead hnone⟩

/-- What an attempt does: it succeeds, or it is rejected and changes nothing. -/
theorem attempt_cases {s s' : Held T E} {op : Op T E} (h : Rep s.list s.elems)
    (hs : attempt s op = some s') :
    Rep s'.list s'.elems ∧
      (op.Ok s.elems ∧ s'.elems = op.apply s.elems ∨ op.Vacant s.elems ∧ s' = s) := by
  simp only [attempt, Option.ite_none_right_eq_some] at hs
  obtain ⟨hallowed, hs⟩ := hs
  by_cases hv : op.Vacant s.elems
  · rcases vacant_spec h hv with ⟨-, hrun⟩ | ⟨-, what, hrun⟩
    · rw [hrun] at hs
      cases hs
    · rw [hrun] at hs
      obtain rfl : s = s' := Option.some.inj hs
      exact ⟨h, .inr ⟨hv, rfl⟩⟩
  · obtain ⟨l, hrun, hrep⟩ := Op.exec_spec h (hallowed.ok hv)
    rw [hrun] at hs
    obtain rfl := Option.some.inj hs
    exact ⟨hrep, .inl ⟨hallowed.ok hv, rfl⟩⟩

/-- In every history the list holds its elements. -/
theorem attempts_rep {ops : List (Op T E)} {s : Held T E}
    (hrun : Runs.run attempt {} ops = some s) : Rep s.list s.elems :=
  Runs.run_invariant (I := fun s : Held T E => Rep s.list s.elems)
    (fun _ _ _ h hs => (attempt_cases h hs).1) rep_empty hrun

/-- **Removing where there is nothing to remove.**  In every state of every history, a removal
through any iterator onto the list is clean exactly when it is not a `pop_back` on an empty
list. -/
theorem removal_clean_iff {ops : List (Op T E)} {s : Held T E}
    (hrun : Runs.run attempt {} ops = some s) {op : Op T E} (hop : op.Removes)
    (hallowed : op.Allowed s.elems) : Clean s op ↔ ¬ (op = .popBack ∧ s.elems = []) := by
  have h := attempts_rep hrun
  by_cases hv : op.Vacant s.elems
  · have hnil : op = .popBack → s.elems = [] := by
      rintro rfl
      exact hv
    rcases vacant_spec h hv with ⟨hback, hundefined⟩ | ⟨hnot, what, hthrows⟩
    · exact ⟨fun hclean => absurd hundefined hclean.defined,
        fun hcond => absurd ⟨hback, hnil hback⟩ hcond⟩
    · refine ⟨fun _ hcond => hnot hcond.1, fun _ => ⟨fun _ => ⟨what, hthrows⟩, ?_⟩⟩
      rw [hthrows]
      exact nofun
  · obtain ⟨l, hdone, -⟩ := Op.exec_spec h (hallowed.ok hv)
    constructor
    · rintro - ⟨rfl, hnil⟩
      exact hv hnil
    · refine fun _ => ⟨fun hvacant => absurd hvacant hv, ?_⟩
      rw [hdone]
      exact nofun

/-- `removal_clean_iff` on a list that has become empty, after a rejected `pop_one`. -/
theorem removal_clean_iff_emptied : ∃ s : Held ℕ Bool,
    Runs.run attempt {} [.pushBack 10 3212 true, .popFront, .popOne ⟨none, none⟩] = some s ∧
      Clean s .popFront := by
  obtain ⟨s, hs⟩ : ∃ s : Held ℕ Bool,
      Runs.run attempt {} [.pushBack 10 3212 true, .popFront, .popOne ⟨none, none⟩] = some s :=
    ⟨_, rfl⟩
  have hiff := @removal_clean_iff _ _ _ _ hs .popFront trivial trivial
  refine ⟨s, hs, hiff.mpr ?_⟩
  rintro ⟨hback, -⟩
  cases hback

/-- **`pop_back` on an empty list follows a null pointer.** -/
theorem not_removal_clean : ¬ Clean ({} : Held ℕ Bool) .popBack :=
  fun h => h.defined rfl

end AliMiddleware.TraceableList
