import AliMiddleware.Support.Runs
import Mathlib.Logic.Function.Basic

/-!
# Support — ReadModifyWrite

Updates of a shared value that read it in one step and write it in a later one.  An update writes
what it makes of the value it has read; whatever was written in between is gone.

* `Register.update`: an update nothing comes between.
* `Register.step`: any number of parties, each with at most one update under way; an update that
  fails writes nothing.
* `Fresh`: a write finds the value its update has read.
* `foldl_or_behind`: with a measure that every update raises by one, the updates of a run have the
  effect they have one after another when every write is `Fresh`, and the value stays below that
  when one is not.
-/

namespace AliMiddleware

/-- A shared value of type `σ`: what a read gives, and what is written, made of what was read and
of an argument. -/
structure Register (σ α β : Type*) where
  read : σ → α
  write : α → β → σ

namespace Register

variable {σ α β Tid : Type*}

/-- An update nothing comes between. -/
def update (r : Register σ α β) (s : σ) (b : β) : σ := r.write (r.read s) b

/-- The value and the updates under way. -/
structure State (σ α β Tid : Type*) where
  value : σ
  /-- what the party's update has read, and its argument -/
  pending : Tid → Option (α × β) := fun _ => none
  /-- the arguments of the updates that are through, in the order of their writes -/
  done : List β := []

inductive Act (β Tid : Type*) where
  | read (t : Tid) (b : β)
  | write (t : Tid)
  /-- the update ends without a write -/
  | fail (t : Tid)
  deriving DecidableEq

variable [DecidableEq Tid] {r : Register σ α β}

def step (r : Register σ α β) (s : State σ α β Tid) : Act β Tid → Option (State σ α β Tid)
  | .read t b =>
      match s.pending t with
      | none => some { s with pending := Function.update s.pending t (some (r.read s.value, b)) }
      | some _ => none
  | .write t =>
      match s.pending t with
      | none => none
      | some (a, b) => some { value := r.write a b, pending := Function.update s.pending t none,
                              done := s.done ++ [b] }
  | .fail t =>
      match s.pending t with
      | none => none
      | some _ => some { s with pending := Function.update s.pending t none }

/-- **What a step writes**: the value its update makes, or nothing. -/
theorem step_value {s s' : State σ α β Tid} {act : Act β Tid} (h : r.step s act = some s') :
    (∃ t a b, act = .write t ∧ s.pending t = some (a, b) ∧
      s'.value = r.write a b ∧ s'.done = s.done ++ [b]) ∨
    ((∀ t, act ≠ .write t) ∧ s'.value = s.value ∧ s'.done = s.done) := by
  cases act with
  | read t b =>
      simp only [step] at h
      split at h
      · cases h
        exact .inr ⟨by simp, rfl, rfl⟩
      · cases h
  | write t =>
      simp only [step] at h
      split at h
      · cases h
      · next a b hp =>
          cases h
          exact .inl ⟨t, a, b, rfl, hp, rfl, rfl⟩
  | fail t =>
      simp only [step] at h
      split at h
      · cases h
      · cases h
        exact .inr ⟨by simp, rfl, rfl⟩

theorem done_step {s s' : State σ α β Tid} {act : Act β Tid} (h : r.step s act = some s') :
    s.done <+: s'.done := by
  rcases step_value h with ⟨t, a, b, -, -, -, hdone⟩ | ⟨-, -, hdone⟩
  · exact ⟨[b], hdone.symm⟩
  · exact hdone ▸ List.prefix_refl _

/-- An entry of `pending` after a change at `t` is the new one or an old one. -/
theorem mem_update {pending : Tid → Option (α × β)} {t u : Tid} {p : α × β}
    {o : Option (α × β)} (h : p ∈ Function.update pending t o u) : p ∈ o ∨ p ∈ pending u := by
  by_cases hu : u = t
  · subst hu
    rw [Function.update_self] at h
    exact .inl h
  · rw [Function.update_of_ne hu] at h
    exact .inr h

/-- **What is under way after a step** was under way before it, or has just read the value. -/
theorem mem_pending_step {s s' : State σ α β Tid} {act : Act β Tid}
    (h : r.step s act = some s') {u : Tid} {p : α × β} (hp : p ∈ s'.pending u) :
    p ∈ s.pending u ∨ ∃ t b, act = .read t b ∧ p = (r.read s.value, b) := by
  cases act with
  | read t b =>
      simp only [step] at h
      split at h
      · cases h
        rcases mem_update hp with hnew | hold
        · exact .inr ⟨t, b, rfl, (Option.some.inj hnew).symm⟩
        · exact .inl hold
      · cases h
  | write t =>
      simp only [step] at h
      split at h
      · cases h
      · cases h
        exact .inl ((mem_update hp).resolve_left fun hnone => nomatch hnone)
  | fail t =>
      simp only [step] at h
      split at h
      · cases h
      · cases h
        exact .inl ((mem_update hp).resolve_left fun hnone => nomatch hnone)

/-- A read and the write that follows it at once are an `update`. -/
theorem run_update {s : State σ α β Tid} {t : Tid} (h : s.pending t = none) (b : β) :
    Runs.run r.step s [.read t b, .write t] =
      some ⟨r.update s.value b, s.pending, s.done ++ [b]⟩ := by
  have hback : Function.update (Function.update s.pending t (some (r.read s.value, b))) t none =
      s.pending := by
    rw [Function.update_idem, ← h, Function.update_eq_self]
  simp [step, h, update, hback]

/-- The condition on a step: a write finds the value its update has read. -/
def Fresh (r : Register σ α β) (s : State σ α β Tid) : Act β Tid → Prop
  | .write t => ∀ p ∈ s.pending t, p.1 = r.read s.value
  | _ => True

instance [DecidableEq α] (s : State σ α β Tid) (act : Act β Tid) : Decidable (r.Fresh s act) :=
  match act with
  | .write _ => inferInstanceAs (Decidable (∀ p ∈ _, _))
  | .read _ _ | .fail _ => isTrue trivial

/-! ### The effect of a run -/

/-- The arguments of reads satisfy `P`. -/
def Takes (P : β → Prop) : Act β Tid → Prop
  | .read _ b => P b
  | _ => True

/-- Every argument satisfies `P`. -/
def Allowed (P : β → Prop) (s : State σ α β Tid) : Prop :=
  (∀ t, ∀ p ∈ s.pending t, P p.2) ∧ ∀ b ∈ s.done, P b

omit [DecidableEq Tid] in
theorem allowed_start {P : β → Prop} (v : σ) :
    Allowed P (⟨v, fun _ => none, []⟩ : State σ α β Tid) := by
  refine ⟨fun t p hp => ?_, fun b hb => ?_⟩
  · cases hp
  · cases hb

theorem allowed_step {P : β → Prop} (s : State σ α β Tid) (act : Act β Tid) (s' : State σ α β Tid)
    (hact : Takes P act) (hs : Allowed P s) (h : r.step s act = some s') : Allowed P s' := by
  obtain ⟨hp, hd⟩ := hs
  constructor
  · intro u p hu
    rcases mem_pending_step h hu with hold | ⟨t, b, rfl, rfl⟩
    · exact hp u p hold
    · exact hact
  · intro c hc
    rcases step_value h with ⟨t, a, b, -, hab, -, hdone⟩ | ⟨-, -, hdone⟩
    · rw [hdone] at hc
      rcases List.mem_append.mp hc with hc | hc
      · exact hd c hc
      · obtain rfl := List.mem_singleton.mp hc
        exact hp t _ hab
    · rw [hdone] at hc
      exact hd c hc

theorem run_allowed {P : β → Prop} {v : σ} {acts : List (Act β Tid)} {s : State σ α β Tid}
    (hacts : ∀ act ∈ acts, Takes P act) (h : Runs.run r.step ⟨v, fun _ => none, []⟩ acts = some s) :
    Allowed P s := by
  exact Runs.run_labels_invariant allowed_step hacts (allowed_start v) h

/-- **What every write keeps** holds of the value and of all that was read. -/
theorem run_kept {P : β → Prop} {Q : α → Prop}
    (hQ : ∀ a b, P b → Q a → Q (r.read (r.write a b))) {v : σ} (hv : Q (r.read v))
    {acts : List (Act β Tid)} {s : State σ α β Tid} (hdone : ∀ b ∈ s.done, P b)
    (h : Runs.run r.step ⟨v, fun _ => none, []⟩ acts = some s) : Q (r.read s.value) := by
  suffices hall : (∀ b ∈ s.done, P b) → Q (r.read s.value) ∧ ∀ t, ∀ p ∈ s.pending t, Q p.1 from
    (hall hdone).1
  refine Runs.run_invariant (I := fun s => (∀ b ∈ s.done, P b) →
    Q (r.read s.value) ∧ ∀ t, ∀ p ∈ s.pending t, Q p.1) ?_ ?_ h
  · intro s act s' hkept h hdone
    obtain ⟨hs, hp⟩ := hkept fun b hb => hdone b ((done_step h).subset hb)
    constructor
    · rcases step_value h with ⟨t, a, b, -, hab, hvalue, hmore⟩ | ⟨-, hvalue, -⟩
      · rw [hvalue]
        exact hQ a b (hdone b (by simp [hmore])) (hp t _ hab)
      · rw [hvalue]
        exact hs
    · intro u p hu
      rcases mem_pending_step h hu with hold | ⟨t, b, -, rfl⟩
      · exact hp u p hold
      · exact hs
  · refine fun _ => ⟨hv, fun t p hp => ?_⟩
    cases hp

section Measure

variable (r) (m : α → ℕ) (v : σ)

/-- What `Fresh` writes keep: the updates have had the effect they have one after another, and
what an update under way has read is the value, or smaller. -/
structure InTime (s : State σ α β Tid) : Prop where
  value : s.value = s.done.foldl r.update v
  size : m (r.read s.value) = m (r.read v) + s.done.length
  pending : ∀ t, ∀ p ∈ s.pending t, p.1 = r.read s.value ∨ m p.1 < m (r.read s.value)

/-- An update is missing, for good: the value is too small, and so is all that was read. -/
structure Behind (s : State σ α β Tid) : Prop where
  size : m (r.read s.value) < m (r.read v) + s.done.length
  pending : ∀ t, ∀ p ∈ s.pending t, m p.1 < m (r.read v) + s.done.length

variable {r m v} {P : β → Prop}

omit [DecidableEq Tid] in
theorem InTime.pending_le {s : State σ α β Tid} (hs : InTime r m v s) {t : Tid} {p : α × β}
    (hp : p ∈ s.pending t) : m p.1 ≤ m (r.read v) + s.done.length := by
  rw [← hs.size]
  rcases hs.pending t p hp with he | hlt
  · exact Nat.le_of_eq (congrArg m he)
  · exact Nat.le_of_lt hlt

/-- **A `Fresh` step** stays in time. -/
theorem inTime_fresh (hm : ∀ a b, P b → m (r.read (r.write a b)) = m a + 1)
    {s s' : State σ α β Tid} {act : Act β Tid} (hP : ∀ b ∈ s'.done, P b) (hs : InTime r m v s)
    (h : r.step s act = some s') (hfresh : r.Fresh s act) : InTime r m v s' := by
  rcases step_value h with ⟨t, a, b, rfl, hab, hvalue, hdone⟩ | ⟨-, hvalue, hdone⟩
  · obtain rfl : a = r.read s.value := hfresh _ hab
    have hsize : m (r.read s'.value) = m (r.read s.value) + 1 := by
      rw [hvalue]
      exact hm _ b (hP b (by simp [hdone]))
    refine ⟨?_, ?_, ?_⟩
    · rw [hvalue, hdone, List.foldl_append, ← hs.value]
      rfl
    · rw [hsize, hs.size, hdone, List.length_append, List.length_singleton, Nat.add_assoc]
    · intro u p hu
      rcases mem_pending_step h hu with hold | ⟨_, _, hact, -⟩
      · have hle := hs.pending_le hold
        rw [← hs.size] at hle
        exact .inr (hsize ▸ Nat.lt_succ_of_le hle)
      · cases hact
  · refine ⟨?_, ?_, ?_⟩
    · rw [hvalue, hdone]
      exact hs.value
    · rw [hvalue, hdone]
      exact hs.size
    · intro u p hu
      rw [hvalue]
      rcases mem_pending_step h hu with hold | ⟨t, b, -, rfl⟩
      · exact hs.pending u p hold
      · exact .inl rfl

omit [DecidableEq Tid] in
/-- Only a write is not `Fresh`. -/
theorem not_fresh {s : State σ α β Tid} {act : Act β Tid} (h : ¬ r.Fresh s act) :
    ∃ t, act = .write t ∧ ∃ p ∈ s.pending t, p.1 ≠ r.read s.value := by
  cases act with
  | read t b => exact absurd trivial h
  | write t => exact ⟨t, rfl, by simpa [Fresh] using h⟩
  | fail t => exact absurd trivial h

/-- **A step that is not** falls behind: its update has read a smaller value. -/
theorem behind_of_stale (hm : ∀ a b, P b → m (r.read (r.write a b)) = m a + 1)
    {s s' : State σ α β Tid} {act : Act β Tid} (hP : ∀ b ∈ s'.done, P b) (hs : InTime r m v s)
    (h : r.step s act = some s') (hstale : ¬ r.Fresh s act) : Behind r m v s' := by
  obtain ⟨t, rfl, p, hp, hne⟩ := not_fresh hstale
  rcases step_value h with ⟨u, a, b, hu, hab, hvalue, hdone⟩ | ⟨hnot, -, -⟩
  · obtain rfl := Act.write.inj hu
    obtain rfl : p = (a, b) := Option.some.inj (hp.symm.trans hab)
    have hlt : m a < m (r.read s.value) := (hs.pending t _ hab).resolve_left hne
    rw [hs.size] at hlt
    have hlen : s'.done.length = s.done.length + 1 := by
      rw [hdone, List.length_append, List.length_singleton]
    refine ⟨?_, ?_⟩
    · rw [hvalue, hm a b (hP b (by simp [hdone])), hlen]
      exact Nat.succ_lt_succ hlt
    · intro u q hu
      rw [hlen]
      rcases mem_pending_step h hu with hold | ⟨_, _, hact, -⟩
      · exact Nat.lt_succ_of_le (hs.pending_le hold)
      · cases hact
  · exact absurd rfl (hnot t)

theorem behind_step (hm : ∀ a b, P b → m (r.read (r.write a b)) = m a + 1)
    {s s' : State σ α β Tid} {act : Act β Tid} (hP : ∀ b ∈ s'.done, P b) (hs : Behind r m v s)
    (h : r.step s act = some s') : Behind r m v s' := by
  have hpending : ∀ u, ∀ p ∈ s'.pending u, m p.1 < m (r.read v) + s.done.length := by
    intro u p hu
    rcases mem_pending_step h hu with hold | ⟨t, b, -, rfl⟩
    · exact hs.pending u p hold
    · exact hs.size
  rcases step_value h with ⟨t, a, b, rfl, hab, hvalue, hdone⟩ | ⟨-, hvalue, hdone⟩
  · have hlen : s'.done.length = s.done.length + 1 := by
      rw [hdone, List.length_append, List.length_singleton]
    refine ⟨?_, ?_⟩
    · rw [hvalue, hm a b (hP b (by simp [hdone])), hlen]
      exact Nat.succ_lt_succ (hs.pending t _ hab)
    · intro u p hu
      rw [hlen]
      exact Nat.lt_succ_of_lt (hpending u p hu)
  · refine ⟨?_, ?_⟩
    · rw [hvalue, hdone]
      exact hs.size
    · rw [hdone]
      exact hpending

/-- **No update is lost, or the value falls short for good**, as every write of the run is `Fresh`
or not. -/
theorem foldl_or_behind (hm : ∀ a b, P b → m (r.read (r.write a b)) = m a + 1)
    {acts : List (Act β Tid)} {s : State σ α β Tid} (hP : ∀ b ∈ s.done, P b)
    (h : Runs.run r.step ⟨v, fun _ => none, []⟩ acts = some s) :
    (Runs.Meets r.step r.Fresh ⟨v, fun _ => none, []⟩ acts → s.value = s.done.foldl r.update v) ∧
      (¬ Runs.Meets r.step r.Fresh ⟨v, fun _ => none, []⟩ acts →
        m (r.read s.value) < m (r.read v) + s.done.length) := by
  have hstart : InTime r m v (⟨v, fun _ => none, []⟩ : State σ α β Tid) := by
    refine ⟨rfl, rfl, ?_⟩
    intro t p hp
    cases hp
  -- what is through stays through, so `P` is known of all that was through before
  have hearlier : ∀ {t t' : State σ α β Tid} {act : Act β Tid}, r.step t act = some t' →
      (∀ b ∈ t'.done, P b) → ∀ b ∈ t.done, P b :=
    fun hstep hP b hb => hP b ((done_step hstep).subset hb)
  have hstep : ∀ t (act : Act β Tid) t', True → ((∀ b ∈ t.done, P b) → InTime r m v t) →
      r.step t act = some t' → (r.Fresh t act → (∀ b ∈ t'.done, P b) → InTime r m v t') ∧
        (¬ r.Fresh t act → (∀ b ∈ t'.done, P b) → Behind r m v t') := by
    intro t act t' _ ht h
    exact ⟨fun hf hP => inTime_fresh hm hP (ht (hearlier h hP)) h hf,
      fun hf hP => behind_of_stale hm hP (ht (hearlier h hP)) h hf⟩
  have hlater : ∀ t (act : Act β Tid) t', True → ((∀ b ∈ t.done, P b) → Behind r m v t) →
      r.step t act = some t' → (∀ b ∈ t'.done, P b) → Behind r m v t' :=
    fun t act t' _ ht h hP => behind_step hm hP (ht (hearlier h hP)) h
  obtain ⟨hkeep, hbreak⟩ :=
    Runs.meets_or_broken hstep hlater (fun _ _ => trivial) (fun _ => hstart) h
  exact ⟨fun hm => (hkeep hm hP).value, fun hm => (hbreak hm hP).size⟩

end Measure

end Register

end AliMiddleware
