import AliMiddleware.Lib.PooledCalls

/-!
# Lib — CallRule

The rule of `PooledCalls` where what holds of a connection depends on which call uses it, and
where something is known of the reads and writes of the calls and of what the other side sends
(`Given`).

`Exchange.under` is an exchange whose stages name their call and which does only what is known to
happen.  A run that is as given is a run of it (`step_named`), so nothing about borrowing, waiting
and releasing is proved again: the invariant is the one of `PooledCalls`, of the state with the
names in it (`InvBy`).
-/

namespace AliMiddleware.PooledCalls

open Pool FixedObjectPoolCoro

variable {Tid C Stage Ev Env : Type}

/-- What is known of a run. -/
structure Given (Tid C Stage Ev Env : Type) where
  /-- of a read or write of a call, at a stage -/
  io : Tid → Stage → Ev → C → Prop
  /-- of what the other side of a connection sends -/
  env : Env → C → Prop

/-- The step is as it is given. -/
def AsGiven [DecidableEq Tid] (g : Given Tid C Stage Ev Env) (s : State Tid C Stage) :
    Act Tid Ev Env → Prop
  | .io t ev => ∀ st ∈ s.stages.lookup t, ∀ a ∈ s.pool.lent.lookup t, g.io t st ev (s.conns a)
  | .env a e => g.env e (s.conns a)
  | .borrow _ _ _ | .register _ | .release _ _ | .notify _ => True

/-- The step is sound, and as it is given. -/
def Fit [DecidableEq Tid] (ex : Exchange Tid C Stage Ev Env) (ok : List Event → Prop)
    (g : Given Tid C Stage Ev Env) (s : State Tid C Stage) (act : Act Tid Ev Env) : Prop :=
  Sound ex ok s act ∧ AsGiven g s act

section

variable [DecidableEq Tid]

instance (g : Given Tid C Stage Ev Env) [∀ t st ev c, Decidable (g.io t st ev c)]
    [∀ e c, Decidable (g.env e c)] (s : State Tid C Stage) (act : Act Tid Ev Env) :
    Decidable (AsGiven g s act) :=
  match act with
  | .io t ev => inferInstanceAs (Decidable (∀ st ∈ s.stages.lookup t,
      ∀ a ∈ s.pool.lent.lookup t, g.io t st ev (s.conns a)))
  | .env a e => inferInstanceAs (Decidable (g.env e (s.conns a)))
  | .borrow _ _ _ | .register _ | .release _ _ | .notify _ => isTrue trivial

instance (ex : Exchange Tid C Stage Ev Env) (ok : List Event → Prop) [DecidablePred ok]
    (g : Given Tid C Stage Ev Env) [∀ t st ev c, Decidable (g.io t st ev c)]
    [∀ e c, Decidable (g.env e c)] (s : State Tid C Stage) (act : Act Tid Ev Env) :
    Decidable (Fit ex ok g s act) :=
  inferInstanceAs (Decidable (_ ∧ _))

end

/-! ### A call that is over -/

/-- The connections of the pool. -/
def State.nodes (s : State Tid C Stage) : List Addr := s.pool.pool.freeList ++ s.pool.lentObjs

/-- The call has given its connection back, or thrown before it had one. -/
def State.Left (s : State Tid C Stage) (t : Tid) : Prop :=
  t ∉ s.stages.map Prod.fst ∧ t ∉ s.pool.lent.map Prod.fst ∧ s.pool.Idle t

instance [DecidableEq Tid] (s : State Tid C Stage) (t : Tid) : Decidable (s.Left t) :=
  inferInstanceAs (Decidable (_ ∧ _ ∧ _))

/-! ### The exchange with the names in it -/

def After.map {Stage' : Type} (f : Stage → Stage') : After Stage → After Stage'
  | .goes st => .goes (f st)
  | .ends => .ends
  | .fails => .fails

@[simp] theorem After.stage_map {Stage' : Type} (f : Stage → Stage') (after : After Stage) :
    (after.map f).stage = after.stage.map f := by
  cases after <;> rfl

@[simp] theorem eventsOf_map {Stage' : Type} (f : Stage → Stage') (writes : Bool)
    (after : After Stage) : eventsOf writes (after.map f) = eventsOf writes after := by
  cases after <;> rfl

open Classical in
/-- The exchange in which a stage names its call, and which does only what `g` allows. -/
noncomputable def Exchange.under (ex : Exchange Tid C Stage Ev Env)
    (g : Given Tid C Stage Ev Env) : Exchange Tid C (Tid × Stage) Ev Env where
  fresh := ex.fresh
  start t := (ex.start t).map (t, ·)
  next t st ev c :=
    if st.1 = t ∧ g.io t st.2 ev c then
      (ex.next t st.2 ev c).map fun (after, c') => (after.map (t, ·), c')
    else none
  deliver e c := if g.env e c then ex.deliver e c else c
  writes st := ex.writes st.2

/-- The state with the names in its stages. -/
def State.named (s : State Tid C Stage) : State Tid C (Tid × Stage) where
  pool := s.pool
  conns := s.conns
  events := s.events
  stages := s.stages.map fun p => (p.1, p)

theorem mem_stages_named {s : State Tid C Stage} {t u : Tid} {st : Stage} :
    (t, (u, st)) ∈ s.named.stages ↔ u = t ∧ (t, st) ∈ s.stages := by
  simp only [State.named, List.mem_map, Prod.mk.injEq, Prod.exists]
  constructor
  · rintro ⟨v, st', hst, rfl, rfl, rfl⟩
    exact ⟨rfl, hst⟩
  · rintro ⟨rfl, hst⟩
    exact ⟨_, _, hst, rfl, rfl, rfl⟩

variable [DecidableEq Tid] {ex : Exchange Tid C Stage Ev Env} {cfg : PoolConfig}
  {ok : List Event → Prop} {g : Given Tid C Stage Ev Env}

theorem lookup_named (stages : List (Tid × Stage)) (t : Tid) :
    (stages.map fun p => (p.1, p)).lookup t = (stages.lookup t).map (t, ·) := by
  induction stages with
  | nil => rfl
  | cons p ps ih =>
      obtain ⟨u, st⟩ := p
      by_cases h : t = u
      · subst h
        simp
      · have hne : (t == u) = false := by simpa using h
        simp only [List.map_cons, List.lookup_cons, hne, ih]

/-- **A step that is as given** is a step of the exchange with the names in it. -/
theorem step_named {s s' : State Tid C Stage} {act : Act Tid Ev Env} (hg : AsGiven g s act)
    (h : step ex cfg s act = some s') : step (ex.under g) cfg s.named act = some s'.named := by
  cases act with
  | borrow ph t new =>
      simp only [step, Option.ite_none_right_eq_some, Option.map_eq_some_iff] at h
      obtain ⟨hin, p, hp, rfl⟩ := h
      have hin' : ph ≠ .tryBorrowOne ∧ t ∉ s.named.pool.lent.map Prod.fst := hin
      have hpool : FixedObjectPoolCoro.step cfg s.named.pool (.borrow ph t new) = some p := hp
      rw [step, if_pos hin', hpool]
      by_cases ht : t ∈ p.lent.map Prod.fst
      · cases hst : ex.start t <;> simp [State.named, Exchange.under, ht, hst]
      · simp [State.named, ht]
  | register t =>
      obtain ⟨p, hp, rfl⟩ := Option.map_eq_some_iff.mp h
      exact Option.map_eq_some_iff.mpr ⟨p, hp, rfl⟩
  | io t ev =>
      simp only [step, Option.bind_eq_some_iff, Option.map_eq_some_iff, Prod.exists] at h
      obtain ⟨st, hst, a, ha, after, c, hnext, rfl⟩ := h
      have hio := hg st hst a ha
      have hst' : s.named.stages.lookup t = some (t, st) := by
        rw [State.named, lookup_named, hst]
        rfl
      have hnext' : (ex.under g).next t (t, st) ev (s.named.conns a) =
          some (after.map (t, ·), c) := by
        simp [Exchange.under, State.named, hio, hnext]
      rw [step_io hst' ha hnext']
      have hfilter : (s.stages.map fun p => (p.1, p)).filter (·.1 ≠ t) =
          (s.stages.filter (·.1 ≠ t)).map fun p => (p.1, p) := by
        rw [List.filter_map]
        rfl
      have hstages : ((after.map (t, ·)).stage.map (t, ·)).toList =
          ((after.stage.map (t, ·)).toList).map fun p => (p.1, p) := by
        cases after <;> rfl
      have hevents : eventsOf ((ex.under g).writes (t, st)) (after.map (t, ·)) =
          eventsOf (ex.writes st) after := eventsOf_map _ _ _
      rw [hevents, hstages]
      simp only [State.named, List.map_append, hfilter]
  | release t a =>
      simp only [step, Option.ite_none_right_eq_some, Option.map_eq_some_iff] at h
      obtain ⟨ht, p, hp, rfl⟩ := h
      have ht' : t ∉ s.named.stages.map Prod.fst := by
        simpa [State.named] using ht
      rw [step, if_pos ht']
      exact Option.map_eq_some_iff.mpr ⟨p, hp, rfl⟩
  | notify t =>
      obtain ⟨p, hp, rfl⟩ := Option.map_eq_some_iff.mp h
      exact Option.map_eq_some_iff.mpr ⟨p, hp, rfl⟩
  | env a e =>
      simp only [step, Option.ite_none_right_eq_some, Option.some.injEq] at h
      obtain ⟨ha, rfl⟩ := h
      have henv : g.env e (s.conns a) := hg
      have ha' : (s.named.pool.pool.buffer.heap a).isSome = true := ha
      rw [step, if_pos ha']
      simp [State.named, Exchange.under, henv]

omit [DecidableEq Tid] in
theorem sound_named {s : State Tid C Stage} {act : Act Tid Ev Env} :
    Sound (ex.under g) ok s.named act ↔ Sound ex ok s act := by
  cases act with
  | borrow ph t new => simp [Sound, Exchange.under, State.named]
  | register t => exact Iff.rfl
  | io t ev => exact Iff.rfl
  | release t a => exact Iff.rfl
  | notify t => exact Iff.rfl
  | env a e => exact Iff.rfl

/-! ### The rule -/

/-- `Q o` is what holds of a connection and of what happened on it, while `o` is the call that
uses it, with its stage, or while no call uses it. -/
structure KeepsBy (ex : Exchange Tid C Stage Ev Env) (ok : List Event → Prop)
    (g : Given Tid C Stage Ev Env) (Q : Option (Tid × Stage) → C → List Event → Prop) : Prop where
  fresh : Q none ex.fresh []
  fresh_ok : ok []
  start : ∀ t st c evs, Q none c evs → ok evs → ex.start t = some st → Q (some (t, st)) c evs
  next : ∀ t st ev c evs after c', Q (some (t, st)) c evs → g.io t st ev c →
    ex.next t st ev c = some (after, c') →
    Q (after.stage.map (t, ·)) c' (evs ++ eventsOf (ex.writes st) after)
  deliver : ∀ o e c evs, Q o c evs → g.env e c → Q o (ex.deliver e c) evs

variable {Q : Option (Tid × Stage) → C → List Event → Prop}

omit [DecidableEq Tid] in
theorem KeepsBy.keeps (hk : KeepsBy ex ok g Q) : Keeps (ex.under g) ok Q where
  fresh := hk.fresh
  fresh_ok := hk.fresh_ok
  start := by
    intro t st c evs hq hok hst
    obtain ⟨st', hst', rfl⟩ := Option.map_eq_some_iff.mp hst
    exact hk.start t st' c evs hq hok hst'
  next := by
    rintro t ⟨u, st⟩ ev c evs after c' hq hnext
    simp only [Exchange.under, Option.ite_none_right_eq_some, Option.map_eq_some_iff,
      Prod.exists, Prod.mk.injEq] at hnext
    obtain ⟨⟨rfl, hio⟩, after', c'', hnext, rfl, rfl⟩ := hnext
    rw [After.stage_map, eventsOf_map]
    exact hk.next u st ev c evs after' c'' hq hio hnext
  deliver := by
    intro o e c evs hq
    by_cases henv : g.env e c
    · simpa [Exchange.under, henv] using hk.deliver o e c evs hq henv
    · simpa [Exchange.under, henv] using hq

omit [DecidableEq Tid] in
/-- What does not depend on the call, nor on what is known of the run. -/
theorem Keeps.keepsBy {Q : Option Stage → C → List Event → Prop}
    (hk : Keeps ex (fun _ => True) Q) (hok : ok []) (g : Given Tid C Stage Ev Env) :
    KeepsBy ex ok g fun o => Q (o.map Prod.snd) where
  fresh := hk.fresh
  fresh_ok := hok
  start := fun t st c evs hq _ hst => hk.start t st c evs hq trivial hst
  next := by
    intro t st ev c evs after c' hq _ hnext
    have hnext := hk.next t st ev c evs after c' hq hnext
    rw [Option.map_map]
    cases after <;> exact hnext
  deliver := fun o e c evs hq _ => hk.deliver _ e c evs hq

omit [DecidableEq Tid] in
theorem KeepsBy.and {Q' : Option (Tid × Stage) → C → List Event → Prop}
    (hk : KeepsBy ex ok g Q) (hk' : KeepsBy ex ok g Q') :
    KeepsBy ex ok g fun o c evs => Q o c evs ∧ Q' o c evs where
  fresh := ⟨hk.fresh, hk'.fresh⟩
  fresh_ok := hk.fresh_ok
  start := fun t st c evs hq hok hst =>
    ⟨hk.start t st c evs hq.1 hok hst, hk'.start t st c evs hq.2 hok hst⟩
  next := fun t st ev c evs after c' hq hio hnext =>
    ⟨hk.next t st ev c evs after c' hq.1 hio hnext, hk'.next t st ev c evs after c' hq.2 hio hnext⟩
  deliver := fun o e c evs hq henv =>
    ⟨hk.deliver o e c evs hq.1 henv, hk'.deliver o e c evs hq.2 henv⟩

/-- Every connection is as `Q` says, for the call that uses it. -/
def InvBy (cfg : PoolConfig) (Q : Option (Tid × Stage) → C → List Event → Prop)
    (s : State Tid C Stage) : Prop :=
  Inv cfg Q s.named

omit [DecidableEq Tid] in
theorem invBy_init (hk : KeepsBy ex ok g Q) {p : Pool Unit Unit} (hp : Start cfg p) :
    InvBy cfg Q (init ex p : State Tid C Stage) :=
  inv_init hk.keeps hp

/-- **Every step that is sound and as given keeps the invariant.** -/
theorem invBy_step {s s' : State Tid C Stage} {act : Act Tid Ev Env} (hk : KeepsBy ex ok g Q)
    (h : InvBy cfg Q s) (hfit : Fit ex ok g s act) (hstep : step ex cfg s act = some s') :
    InvBy cfg Q s' :=
  inv_step hk.keeps h (sound_named.mpr hfit.1) (step_named hfit.2 hstep)

omit [DecidableEq Tid] in
theorem InvBy.pool {s : State Tid C Stage} (h : InvBy cfg Q s) :
    FixedObjectPoolCoro.Inv cfg s.pool := by
  have hn : Inv cfg Q s.named := h
  exact hn.pool

omit [DecidableEq Tid] in
/-- A call has one connection. -/
theorem InvBy.single {s : State Tid C Stage} (h : InvBy cfg Q s) :
    (s.pool.lent.map Prod.fst).Nodup := by
  have hn : Inv cfg Q s.named := h
  exact hn.single

omit [DecidableEq Tid] in
/-- A call that is under way has a connection. -/
theorem InvBy.borrowed {s : State Tid C Stage} (h : InvBy cfg Q s) {t : Tid} {st : Stage}
    (hst : (t, st) ∈ s.stages) : t ∈ s.pool.lent.map Prod.fst :=
  Inv.borrowed h t (t, st) (mem_stages_named.mpr ⟨rfl, hst⟩)

omit [DecidableEq Tid] in
/-- The connection of a call. -/
theorem InvBy.used {s : State Tid C Stage} (h : InvBy cfg Q s) {t : Tid} {st : Stage} {a : Addr}
    (hu : Uses s t st a) : Q (some (t, st)) (s.conns a) (s.events a) :=
  Inv.used h t (t, st) a ⟨mem_stages_named.mpr ⟨rfl, hu.1⟩, hu.2⟩

omit [DecidableEq Tid] in
/-- A connection that no call uses. -/
theorem InvBy.unused {s : State Tid C Stage} (h : InvBy cfg Q s) {a : Addr}
    (hu : ∀ t st, ¬ Uses s t st a) : Q none (s.conns a) (s.events a) := by
  refine Inv.unused h a ?_
  rintro t ⟨u, st⟩ ⟨hst, ha⟩
  exact hu t st ⟨(mem_stages_named.mp hst).2, ha⟩

omit [DecidableEq Tid] in
/-- A connection is as `Q` says, for whoever uses it. -/
theorem InvBy.conn {s : State Tid C Stage} (h : InvBy cfg Q s) (a : Addr) :
    ∃ o, Q o (s.conns a) (s.events a) := by
  by_cases hu : ∃ t st, Uses s t st a
  · obtain ⟨t, st, hu⟩ := hu
    exact ⟨some (t, st), h.used hu⟩
  · exact ⟨none, h.unused fun t st hu' => hu ⟨t, st, hu'⟩⟩

/-- **The rule**, for runs whose steps are sound and as given. -/
theorem invBy_run (hk : KeepsBy ex ok g Q) {p : Pool Unit Unit} (hp : Start cfg p)
    {acts : List (Act Tid Ev Env)} {s : State Tid C Stage}
    (hfit : Runs.Meets (step ex cfg) (Fit ex ok g) (init ex p) acts)
    (hrun : runCalls ex cfg p acts = some s) : InvBy cfg Q s :=
  Runs.meets_invariant (I := InvBy cfg Q)
    (fun _ _ _ hi hok hstep => invBy_step hk hi hok hstep) (invBy_init hk hp) hfit hrun

/-! ### The pool of the calls -/

omit [DecidableEq Tid] in
/-- What a step does to the pool. -/
def poolAct : Act Tid Ev Env → Option (FixedObjectPoolCoro.Act Tid Unit)
  | .borrow ph t new => some (.borrow ph t new)
  | .register t => some (.register t)
  | .release t a => some (.release t a)
  | .notify t => some (.notify t)
  | .io _ _ | .env _ _ => none

theorem step_pool {s s' : State Tid C Stage} {act : Act Tid Ev Env}
    (h : step ex cfg s act = some s') :
    (poolAct act = none ∧ s'.pool = s.pool) ∨
      ∃ a, poolAct act = some a ∧ FixedObjectPoolCoro.step cfg s.pool a = some s'.pool := by
  cases act with
  | borrow ph t new =>
      simp only [step, Option.ite_none_right_eq_some, Option.map_eq_some_iff] at h
      obtain ⟨-, p, hp, rfl⟩ := h
      exact .inr ⟨_, rfl, hp⟩
  | register t =>
      obtain ⟨p, hp, rfl⟩ := Option.map_eq_some_iff.mp h
      exact .inr ⟨_, rfl, hp⟩
  | io t ev =>
      simp only [step, Option.bind_eq_some_iff, Option.map_eq_some_iff] at h
      obtain ⟨st, -, a, -, ⟨after, c⟩, -, rfl⟩ := h
      exact .inl ⟨rfl, rfl⟩
  | release t a =>
      simp only [step, Option.ite_none_right_eq_some, Option.map_eq_some_iff] at h
      obtain ⟨-, p, hp, rfl⟩ := h
      exact .inr ⟨_, rfl, hp⟩
  | notify t =>
      obtain ⟨p, hp, rfl⟩ := Option.map_eq_some_iff.mp h
      exact .inr ⟨_, rfl, hp⟩
  | env a e =>
      simp only [step, Option.ite_none_right_eq_some, Option.some.injEq] at h
      obtain ⟨-, rfl⟩ := h
      exact .inl ⟨rfl, rfl⟩

end AliMiddleware.PooledCalls
