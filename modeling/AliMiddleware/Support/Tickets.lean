import AliMiddleware.Support.Runs
import Mathlib.Data.List.Range
import Mathlib.Logic.Function.Iterate

/-!
# Support — Tickets

Numbers taken from a shared counter that is read in one step and raised, atomically, in a later
one.  No raise is lost, so the counter tells how many parties are through; but parties that read
before one of them has raised it take the same number.

`taken_or_repeated`: in a run whose every read finds no party between its read and its raise
(`Alone`) the numbers are `first`, its successor, and so on; after any other run some number has
been taken twice.
-/

namespace AliMiddleware

variable {α Tid : Type*}

/-- The counter, and what has been read from it. -/
structure Tickets (α Tid : Type*) where
  counter : α
  /-- the parties that have read and have still to raise the counter -/
  between : List Tid := []
  /-- who has read which number, in the order of the reads -/
  taken : List (Tid × α) := []

namespace Tickets

inductive Act (Tid : Type*) where
  | read (t : Tid)
  | raise (t : Tid)
  deriving DecidableEq

def init (first : α) : Tickets α Tid := { counter := first }

/-- The numbers, in the order of the reads. -/
def numbers (s : Tickets α Tid) : List α := s.taken.map Prod.snd

/-- The first `n` numbers, each taken once. -/
def firsts (succ : α → α) (first : α) (n : ℕ) : List α :=
  (List.range n).map fun i => succ^[i] first

theorem firsts_succ (succ : α → α) (first : α) (n : ℕ) :
    firsts succ first (n + 1) = firsts succ first n ++ [succ^[n] first] := by
  simp [firsts, List.range_succ]

variable [DecidableEq Tid] {succ : α → α}

def step (succ : α → α) (s : Tickets α Tid) : Act Tid → Option (Tickets α Tid)
  | .read t =>
      if t ∈ s.between then none
      else some { s with between := t :: s.between, taken := s.taken ++ [(t, s.counter)] }
  | .raise t =>
      if t ∈ s.between then
        some { s with counter := succ s.counter, between := s.between.erase t }
      else none

/-- The condition on a step: a read finds no party between its read and its raise. -/
def Alone (s : Tickets α Tid) : Act Tid → Prop
  | .read _ => s.between = []
  | .raise _ => True

instance (s : Tickets α Tid) (act : Act Tid) : Decidable (Alone s act) :=
  match act with
  | .read _ => inferInstanceAs (Decidable (_ = _))
  | .raise _ => isTrue trivial

theorem step_read {s s' : Tickets α Tid} {t : Tid} (h : step succ s (.read t) = some s') :
    s' = { s with between := t :: s.between, taken := s.taken ++ [(t, s.counter)] } := by
  simp only [step, Option.ite_none_left_eq_some, Option.some.injEq] at h
  exact h.2.symm

theorem step_raise {s s' : Tickets α Tid} {t : Tid} (h : step succ s (.raise t) = some s') :
    t ∈ s.between ∧
      s' = { s with counter := succ s.counter, between := s.between.erase t } := by
  simp only [step, Option.ite_none_right_eq_some, Option.some.injEq] at h
  exact ⟨h.1, h.2.symm⟩

/-- **The counter counts the parties that are through.** -/
def Counts (succ : α → α) (first : α) (s : Tickets α Tid) : Prop :=
  ∃ n, s.counter = succ^[n] first ∧ n + s.between.length = s.taken.length

omit [DecidableEq Tid] in
theorem counts_init (first : α) : Counts succ first (init first : Tickets α Tid) := ⟨0, rfl, rfl⟩

theorem counts_step {first : α} (s : Tickets α Tid) (act : Act Tid) (s' : Tickets α Tid)
    (hs : Counts succ first s) (h : step succ s act = some s') : Counts succ first s' := by
  obtain ⟨n, hcounter, hlength⟩ := hs
  cases act with
  | read t =>
      obtain rfl := step_read h
      refine ⟨n, hcounter, ?_⟩
      simp only [List.length_cons, List.length_append, List.length_nil]
      omega
  | raise t =>
      obtain ⟨ht, rfl⟩ := step_raise h
      refine ⟨n + 1, ?_, ?_⟩
      · rw [Function.iterate_succ_apply', hcounter]
      · have herase := List.length_erase_add_one ht
        simp only
        omega

/-- A read gives the number of the parties that are through. -/
theorem counts_run {first : α} {acts : List (Act Tid)} {s : Tickets α Tid}
    (h : Runs.run (step succ) (init first) acts = some s) : Counts succ first s :=
  Runs.run_invariant counts_step (counts_init first) h

/-- **Every number once, in order, or some number twice for good**, as every read of the run is
`Alone` or not. -/
theorem taken_or_repeated {first : α} {acts : List (Act Tid)} {s : Tickets α Tid}
    (h : Runs.run (step succ) (init first) acts = some s) :
    (Runs.Meets (step succ) Alone (init first) acts →
      s.numbers = firsts succ first s.taken.length) ∧
    (¬ Runs.Meets (step succ) Alone (init first) acts → ¬ s.numbers.Nodup) := by
  have hstep : ∀ (s : Tickets α Tid) act s', True →
      Counts succ first s ∧ s.numbers = firsts succ first s.taken.length →
      step succ s act = some s' →
      (Alone s act → Counts succ first s' ∧ s'.numbers = firsts succ first s'.taken.length) ∧
      (¬ Alone s act → ¬ s'.numbers.Nodup) := by
    rintro s act s' - ⟨hcounts, hnumbers⟩ h
    have hcounts' := counts_step s act s' hcounts h
    obtain ⟨n, hcounter, hlength⟩ := hcounts
    cases act with
    | read t =>
        obtain rfl := step_read h
        have hnext : (s.taken ++ [(t, s.counter)]).map Prod.snd =
            firsts succ first s.taken.length ++ [succ^[n] first] := by
          rw [List.map_append, ← hnumbers, ← hcounter]
          rfl
        constructor
        · intro halone
          have halone : s.between = [] := halone
          rw [halone, List.length_nil, Nat.add_zero] at hlength
          refine ⟨hcounts', ?_⟩
          rw [numbers, hnext, hlength, List.length_append, List.length_singleton, firsts_succ]
        · intro hnot hnodup
          -- some party has still to raise the counter past a number that was taken
          have hpos : 0 < s.between.length := List.length_pos_of_ne_nil hnot
          rw [numbers, hnext] at hnodup
          refine (List.nodup_append.mp hnodup).2.2 (succ^[n] first) ?_ _
            (List.mem_singleton_self _) rfl
          exact List.mem_map.mpr ⟨n, List.mem_range.mpr (by omega), rfl⟩
    | raise t =>
        obtain ⟨-, rfl⟩ := step_raise h
        exact ⟨fun _ => ⟨hcounts', hnumbers⟩, fun hnot => absurd trivial hnot⟩
  have hlater : ∀ (s : Tickets α Tid) act s', True → ¬ s.numbers.Nodup →
      step succ s act = some s' → ¬ s'.numbers.Nodup := by
    rintro s act s' - hrepeated h
    cases act with
    | read t =>
        obtain rfl := step_read h
        intro hnodup
        rw [numbers, List.map_append] at hnodup
        exact hrepeated (List.nodup_append.mp hnodup).1
    | raise t =>
        obtain ⟨-, rfl⟩ := step_raise h
        exact hrepeated
  obtain ⟨hall, hsome⟩ := Runs.meets_or_broken hstep hlater (fun _ _ => trivial)
    ⟨counts_init first, rfl⟩ h
  exact ⟨fun hm => (hall hm).2, hsome⟩

/-! ### One party after another -/

/-- The parties `ts`, each from its read to its raise before the next one comes. -/
def oneByOne (ts : List Tid) : List (Act Tid) := ts.flatMap fun t => [.read t, .raise t]

/-- **Then every read is `Alone`.** -/
theorem run_oneByOne (ts : List Tid) {s : Tickets α Tid} (hs : s.between = []) :
    Runs.Meets (step succ) Alone s (oneByOne ts) ∧
      ∃ s', Runs.run (step succ) s (oneByOne ts) = some s' ∧ s'.between = [] ∧
        s'.taken.map Prod.fst = s.taken.map Prod.fst ++ ts := by
  induction ts generalizing s with
  | nil => exact ⟨trivial, s, rfl, hs, by simp⟩
  | cons t ts ih =>
      let s₁ : Tickets α Tid := { s with between := [t], taken := s.taken ++ [(t, s.counter)] }
      let s₂ : Tickets α Tid := { s₁ with counter := succ s.counter, between := [] }
      have hread : step succ s (.read t) = some s₁ := by simp [step, hs, s₁]
      have hraise : step succ s₁ (.raise t) = some s₂ := by simp [step, s₁, s₂]
      obtain ⟨hmeets, s', hrun, hbetween, htaken⟩ := ih (s := s₂) rfl
      refine ⟨⟨hs, ?_⟩, s', ?_, hbetween, ?_⟩
      · intro t₁ h₁
        obtain rfl : s₁ = t₁ := Option.some.inj (hread.symm.trans h₁)
        refine ⟨trivial, ?_⟩
        intro t₂ h₂
        obtain rfl : s₂ = t₂ := Option.some.inj (hraise.symm.trans h₂)
        exact hmeets
      · exact Runs.run_cons_some hread (Runs.run_cons_some hraise hrun)
      · rw [htaken]
        simp [s₂, s₁]

end Tickets

end AliMiddleware
