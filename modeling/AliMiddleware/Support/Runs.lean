import Mathlib.Data.List.Basic
import Mathlib.Order.Bounds.Basic

/-!
# Support — Runs

Labelled runs of a machine given by a partial step function.  `step s a = none` says that the
step `a` is not possible in `s`; every choice (which party moves, what its environment answers)
is part of the label, so a run is determined by the list of its labels (`run`).

* `Reachable`: some list of labels leads there.
* `Meets ok`: every step of a run satisfies `ok`, which looks at the state before the step and
  at its label.
* `meets_invariant`, `run_invariant`: what one step preserves, a run preserves; for the first,
  only the steps that satisfy `ok` have to preserve it.
* `Seen`: the values an observation of the state has had in the course of a run.  A mark that
  no value exceeds, and that a step raises only to the value it ends in, is the greatest of
  them (`Marks.peak`).
-/

namespace AliMiddleware.Runs

variable {σ α : Type*} {step : σ → α → Option σ}

/-- The state after the labels `as`, when every one of them is possible. -/
def run (step : σ → α → Option σ) : σ → List α → Option σ
  | s, [] => some s
  | s, a :: as => (step s a).bind fun s₁ => run step s₁ as

@[simp] theorem run_nil (s : σ) : run step s [] = some s := rfl

@[simp] theorem run_cons (s : σ) (a : α) (as : List α) :
    run step s (a :: as) = (step s a).bind fun s₁ => run step s₁ as := rfl

theorem run_cons_some {s s₁ s' : σ} {a : α} {as : List α} (ha : step s a = some s₁)
    (h : run step s₁ as = some s') : run step s (a :: as) = some s' := by
  simpa [ha] using h

theorem run_cons_inv {s s' : σ} {a : α} {as : List α} (h : run step s (a :: as) = some s') :
    ∃ s₁, step s a = some s₁ ∧ run step s₁ as = some s' := by
  simpa [Option.bind_eq_some_iff] using h

theorem run_append (s : σ) (as bs : List α) :
    run step s (as ++ bs) = (run step s as).bind fun s₁ => run step s₁ bs := by
  induction as generalizing s with
  | nil => rfl
  | cons a as ih =>
      rw [List.cons_append, run_cons, run_cons, Option.bind_assoc]
      exact congrArg _ (funext fun s₁ => ih s₁)

/-- `s'` is the last state of some run from `s`. -/
def Reachable (step : σ → α → Option σ) (s s' : σ) : Prop := ∃ as, run step s as = some s'

theorem Reachable.refl (s : σ) : Reachable step s s := ⟨[], rfl⟩

theorem Reachable.trans {s s₁ s' : σ} (h : Reachable step s s₁) (h' : Reachable step s₁ s') :
    Reachable step s s' := by
  obtain ⟨as, has⟩ := h
  obtain ⟨bs, hbs⟩ := h'
  exact ⟨as ++ bs, by rw [run_append, has, Option.bind_some, hbs]⟩

theorem Reachable.snoc {s s₁ s' : σ} {a : α} (h : Reachable step s s₁)
    (ha : step s₁ a = some s') : Reachable step s s' :=
  h.trans ⟨[a], by simp [ha]⟩

/-- Every step of the run of `as` from `s` satisfies `ok`. -/
def Meets (step : σ → α → Option σ) (ok : σ → α → Prop) : σ → List α → Prop
  | _, [] => True
  | s, a :: as => ok s a ∧ ∀ s₁, step s a = some s₁ → Meets step ok s₁ as

theorem meets_of_forall {ok : σ → α → Prop} (h : ∀ s a, ok s a) (s : σ) (as : List α) :
    Meets step ok s as := by
  induction as generalizing s with
  | nil => trivial
  | cons a as ih => exact ⟨h s a, fun s₁ _ => ih s₁⟩

/-- Two conditions that agree on the steps that are possible. -/
theorem meets_congr {ok ok' : σ → α → Prop}
    (hok : ∀ s a s', step s a = some s' → (ok s a ↔ ok' s a)) {s s' : σ} {as : List α}
    (h : run step s as = some s') : Meets step ok s as ↔ Meets step ok' s as := by
  induction as generalizing s with
  | nil => exact Iff.rfl
  | cons a as ih =>
      obtain ⟨s₁, h₁, h₂⟩ := run_cons_inv h
      have hnext : ∀ ok'' : σ → α → Prop,
          (∀ t, step s a = some t → Meets step ok'' t as) ↔ Meets step ok'' s₁ as := by
        intro ok''
        simp [h₁]
      simp only [Meets, hnext, hok s a s₁ h₁, ih h₂]

/-- A condition on the labels alone. -/
theorem meets_iff_forall {P : α → Prop} {s s' : σ} {as : List α} (h : run step s as = some s') :
    Meets step (fun _ a => P a) s as ↔ ∀ a ∈ as, P a := by
  induction as generalizing s with
  | nil => exact ⟨fun _ a ha => absurd ha List.not_mem_nil, fun _ => trivial⟩
  | cons a as ih =>
      obtain ⟨s₁, h₁, h₂⟩ := run_cons_inv h
      rw [List.forall_mem_cons, ← ih h₂]
      constructor
      · rintro ⟨ha, hrest⟩
        exact ⟨ha, hrest s₁ h₁⟩
      · rintro ⟨ha, hrest⟩
        refine ⟨ha, fun s₂ h₂ => ?_⟩
        obtain rfl : s₁ = s₂ := Option.some.inj (h₁.symm.trans h₂)
        exact hrest

instance Meets.decidable {ok : σ → α → Prop} [∀ s a, Decidable (ok s a)] :
    (s : σ) → (as : List α) → Decidable (Meets step ok s as)
  | _, [] => isTrue trivial
  | s, a :: as =>
      match h : step s a with
      | none => decidable_of_iff (ok s a) (by simp [Meets, h])
      | some s₁ =>
          have : Decidable (Meets step ok s₁ as) := Meets.decidable s₁ as
          decidable_of_iff (ok s a ∧ Meets step ok s₁ as) (by simp [Meets, h])

/-- **A machine seen through a part of its state.**  Each step shows as one step of another machine,
or as none; then a run shows as a run, and its steps satisfy `ok` exactly when those that show
satisfy `ok'`. -/
theorem run_project {τ β : Type*} {step' : τ → β → Option τ} {f : σ → τ} {g : α → Option β}
    {ok : σ → α → Prop} {ok' : τ → β → Prop}
    (hstep : ∀ s a s', step s a = some s' → (g a = none ∧ f s' = f s ∧ ok s a) ∨
      ∃ b, g a = some b ∧ step' (f s) b = some (f s') ∧ (ok s a ↔ ok' (f s) b))
    {s s' : σ} {as : List α} (h : run step s as = some s') :
    run step' (f s) (as.filterMap g) = some (f s') ∧
      (Meets step ok s as ↔ Meets step' ok' (f s) (as.filterMap g)) := by
  induction as generalizing s with
  | nil =>
      obtain rfl : s = s' := by simpa using h
      exact ⟨rfl, Iff.rfl⟩
  | cons a as ih =>
      obtain ⟨s₁, h₁, h₂⟩ := run_cons_inv h
      obtain ⟨hrun, hmeets⟩ := ih h₂
      have hnext : Meets step ok s (a :: as) ↔ ok s a ∧ Meets step ok s₁ as := by
        simp [Meets, h₁]
      rcases hstep s a s₁ h₁ with ⟨hnone, hsame, hok⟩ | ⟨b, hb, hstep', hok⟩
      · rw [hsame] at hrun hmeets
        rw [List.filterMap_cons_none hnone]
        exact ⟨hrun, by rw [hnext, hmeets, and_iff_right hok]⟩
      · rw [List.filterMap_cons_some hb]
        refine ⟨run_cons_some hstep' hrun, ?_⟩
        rw [hnext, hmeets, hok]
        simp [Meets, hstep']

/-- **What the steps that satisfy `ok` preserve, a run of such steps preserves.** -/
theorem meets_invariant {ok : σ → α → Prop} {I : σ → Prop}
    (hstep : ∀ s a s', I s → ok s a → step s a = some s' → I s') {s s' : σ} {as : List α}
    (hs : I s) (hok : Meets step ok s as) (h : run step s as = some s') : I s' := by
  induction as generalizing s with
  | nil => obtain rfl : s = s' := by simpa using h
           exact hs
  | cons a as ih =>
      obtain ⟨s₁, h₁, h₂⟩ := run_cons_inv h
      exact ih (hstep s a s₁ hs hok.1 h₁) (hok.2 s₁ h₁) h₂

/-- The same, where something is known of every label. -/
theorem run_labels_invariant {A : α → Prop} {I : σ → Prop}
    (hstep : ∀ s a s', A a → I s → step s a = some s' → I s') {s s' : σ} {as : List α}
    (hlabels : ∀ a ∈ as, A a) (hs : I s) (h : run step s as = some s') : I s' :=
  meets_invariant (fun s a s' hs ha => hstep s a s' ha hs) hs ((meets_iff_forall h).mpr hlabels) h

/-- **What a step preserves, a run preserves.** -/
theorem run_invariant {I : σ → Prop} (hstep : ∀ s a s', I s → step s a = some s' → I s')
    {s s' : σ} {as : List α} (hs : I s) (h : run step s as = some s') : I s' :=
  run_labels_invariant (fun s a s' _ => hstep s a s') (fun _ _ => trivial) hs h

theorem Reachable.invariant {I : σ → Prop}
    (hstep : ∀ s a s', I s → step s a = some s' → I s') {s s' : σ} (hs : I s)
    (h : Reachable step s s') : I s' := by
  obtain ⟨as, h⟩ := h
  exact run_invariant hstep hs h

/-- **A measure that every step lowers bounds the length of a run.**  `I` is what is known of every
state. -/
theorem meets_length_le {ok : σ → α → Prop} {I : σ → Prop} {μ : σ → ℕ}
    (hstep : ∀ s a s', I s → ok s a → step s a = some s' → I s' ∧ μ s' < μ s) {s s' : σ}
    {as : List α} (hs : I s) (hok : Meets step ok s as) (h : run step s as = some s') :
    as.length + μ s' ≤ μ s := by
  induction as generalizing s with
  | nil => obtain rfl : s = s' := by simpa using h
           simp
  | cons a as ih =>
      obtain ⟨s₁, h₁, h₂⟩ := run_cons_inv h
      obtain ⟨hs₁, hlt⟩ := hstep s a s₁ hs hok.1 h₁
      have hrest := ih hs₁ (hok.2 s₁ h₁) h₂
      rw [List.length_cons]
      omega

/-- **An exact condition.**  A step that satisfies `ok` keeps `I`, one that does not breaks it for
good: then a run ends in `I` or broken, as its steps satisfy `ok` or not.  `A` is what is known
of every label. -/
theorem meets_or_broken {ok : σ → α → Prop} {A : α → Prop} {I B : σ → Prop}
    (hstep : ∀ s a s', A a → I s → step s a = some s' → (ok s a → I s') ∧ (¬ ok s a → B s'))
    (hbroken : ∀ s a s', A a → B s → step s a = some s' → B s') {s s' : σ} {as : List α}
    (hlabels : ∀ a ∈ as, A a) (hs : I s) (h : run step s as = some s') :
    (Meets step ok s as → I s') ∧ (¬ Meets step ok s as → B s') := by
  induction as generalizing s with
  | nil =>
      obtain rfl : s = s' := by simpa using h
      exact ⟨fun _ => hs, fun hm => absurd trivial hm⟩
  | cons a as ih =>
      obtain ⟨s₁, h₁, h₂⟩ := run_cons_inv h
      obtain ⟨hkeep, hbreak⟩ := hstep s a s₁ (hlabels a (by simp)) hs h₁
      by_cases hok : ok s a
      · obtain ⟨hall, hsome⟩ := ih (fun b hb => hlabels b (by simp [hb])) (hkeep hok) h₂
        refine ⟨fun hm => hall (hm.2 s₁ h₁), fun hm => hsome fun hm₁ => hm ⟨hok, ?_⟩⟩
        intro s₂ h₂
        obtain rfl : s₁ = s₂ := Option.some.inj (h₁.symm.trans h₂)
        exact hm₁
      · refine ⟨fun hm => absurd hm.1 hok, fun _ => ?_⟩
        have hlater : ∀ b ∈ as, A b := fun b hb => hlabels b (by simp [hb])
        exact run_labels_invariant hbroken hlater (hbreak hok) h₂

/-! ### Values seen in a run -/

/-- The values of `f` in the states of the run of `as` from `s`, its first and last included. -/
def Seen (step : σ → α → Option σ) (f : σ → ℕ) (s : σ) (as : List α) : Set ℕ :=
  {n | ∃ bs t, bs <+: as ∧ run step s bs = some t ∧ f t = n}

theorem mem_seen_nil {f : σ → ℕ} {s : σ} {n : ℕ} : n ∈ Seen step f s [] ↔ f s = n := by
  constructor
  · rintro ⟨bs, t, hbs, hrun, hn⟩
    obtain rfl := List.prefix_nil.mp hbs
    obtain rfl : s = t := by simpa using hrun
    exact hn
  · intro hn
    exact ⟨[], s, List.prefix_rfl, rfl, hn⟩

theorem mem_seen_cons {f : σ → ℕ} {s s₁ : σ} {a : α} {as : List α} {n : ℕ}
    (h : step s a = some s₁) :
    n ∈ Seen step f s (a :: as) ↔ f s = n ∨ n ∈ Seen step f s₁ as := by
  constructor
  · rintro ⟨bs, t, hbs, hrun, hn⟩
    cases bs with
    | nil =>
        obtain rfl : s = t := by simpa using hrun
        exact .inl hn
    | cons b bs =>
        obtain ⟨rfl, htail⟩ := List.cons_prefix_cons.mp hbs
        obtain ⟨s₂, h₂, hrun⟩ := run_cons_inv hrun
        obtain rfl : s₁ = s₂ := Option.some.inj (h.symm.trans h₂)
        exact .inr ⟨bs, t, htail, hrun, hn⟩
  · rintro (hn | ⟨bs, t, hbs, hrun, hn⟩)
    · exact ⟨[], s, List.nil_prefix, rfl, hn⟩
    · exact ⟨a :: bs, t, List.cons_prefix_cons.mpr ⟨rfl, hbs⟩, run_cons_some h hrun, hn⟩

/-- A step of a machine that keeps a mark: no value exceeds it, and a step leaves it or raises it
to the value it ends in. -/
structure Marks (step : σ → α → Option σ) (f mark : σ → ℕ) (I : σ → Prop) : Prop where
  le : ∀ s, I s → f s ≤ mark s
  keep : ∀ s a s', I s → step s a = some s' → I s'
  raise : ∀ s a s', I s → step s a = some s' →
    mark s' = mark s ∨ mark s ≤ mark s' ∧ f s' = mark s'

/-- The mark is above all values of the run, and is one of them or as it was. -/
theorem Marks.bound {f mark : σ → ℕ} {I : σ → Prop} (h : Marks step f mark I) {s s' : σ}
    {as : List α} (hs : I s) (hrun : run step s as = some s') :
    mark s ≤ mark s' ∧ (∀ n ∈ Seen step f s as, n ≤ mark s') ∧
      (mark s' = mark s ∨ mark s' ∈ Seen step f s as) := by
  induction as generalizing s with
  | nil =>
      obtain rfl : s = s' := by simpa using hrun
      exact ⟨le_rfl, fun n hn => mem_seen_nil.mp hn ▸ h.le s hs, .inl rfl⟩
  | cons a as ih =>
      obtain ⟨s₁, h₁, h₂⟩ := run_cons_inv hrun
      have hs₁ := h.keep s a s₁ hs h₁
      obtain ⟨hmono, hbound, hmark⟩ := ih hs₁ h₂
      have hgrow : mark s ≤ mark s₁ := by
        rcases h.raise s a s₁ hs h₁ with heq | ⟨hle, -⟩
        · exact heq.ge
        · exact hle
      refine ⟨hgrow.trans hmono, ?_, ?_⟩
      · intro n hn
        rcases (mem_seen_cons h₁).mp hn with rfl | hlater
        · exact (h.le s hs).trans (hgrow.trans hmono)
        · exact hbound n hlater
      · rcases hmark with hsame | hseen
        · rcases h.raise s a s₁ hs h₁ with heq | ⟨-, hvalue⟩
          · exact .inl (hsame.trans heq)
          · right
            -- the step raised the mark, to the value of the state it ends in
            refine (mem_seen_cons h₁).mpr (.inr ⟨[], s₁, List.nil_prefix, rfl, ?_⟩)
            exact hvalue.trans hsame.symm
        · exact .inr ((mem_seen_cons h₁).mpr (.inr hseen))

/-- **The mark is the peak**, when it starts at the value. -/
theorem Marks.peak {f mark : σ → ℕ} {I : σ → Prop} (h : Marks step f mark I) {s s' : σ}
    {as : List α} (hs : I s) (hstart : f s = mark s) (hrun : run step s as = some s') :
    IsGreatest (Seen step f s as) (mark s') := by
  obtain ⟨-, hbound, hmark⟩ := h.bound hs hrun
  refine ⟨?_, hbound⟩
  rcases hmark with hsame | hseen
  · exact ⟨[], s, List.nil_prefix, rfl, hstart.trans hsame.symm⟩
  · exact hseen

end AliMiddleware.Runs
