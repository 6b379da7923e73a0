import AliMiddleware.Lib.CoroPool

/-!
# Lib — PooledCalls

Calls that share the connections of a `fixed_object_pool_coro`: each call borrows a connection,
makes its exchange on it, and gives it back when it leaves its scope, however the exchange ended
(`rlib_defer`).  An `Exchange` is what one call does with its connection, read by read and write
by write; a connection is the object of a pool node and is known by its address.  Borrowing,
waiting, releasing and notifying are the steps of `CoroPool`, so the calls overlap in any order.

`conn_invariant` is the rule for such systems.  A connection is used by one call at a time, so it
is enough to say what holds of it while nobody uses it and at each stage of the call that uses
it, and that a call's own steps and what the other side sends keep this.  A condition on what
happened on a connection before may be asked for when a call takes it; a run has to meet it at
the borrows (`Sound`).
-/

namespace AliMiddleware.PooledCalls

open Pool FixedObjectPoolCoro

variable {Tid C Stage Ev Env : Type}

/-- What comes after a step of an exchange. -/
inductive After (Stage : Type) where
  | goes (st : Stage)
  /-- the exchange is over -/
  | ends
  /-- the exchange is over: a read or write reported an error, or the rest was abandoned -/
  | fails
  deriving DecidableEq

/-- What happened on a connection. -/
inductive Event where
  /-- part of a request was written -/
  | wrote
  /-- an exchange failed -/
  | failed
  deriving DecidableEq, Repr

/-- What a call does with its connection. -/
structure Exchange (Tid C Stage Ev Env : Type) where
  /-- a new connection -/
  fresh : C
  /-- the first stage; `none` when the call gives the connection back unused -/
  start : Tid → Option Stage
  /-- a read or write of the call -/
  next : Tid → Stage → Ev → C → Option (After Stage × C)
  /-- the other side sends -/
  deliver : Env → C → C
  /-- the stage writes to the connection -/
  writes : Stage → Bool

def After.stage : After Stage → Option Stage
  | .goes st => some st
  | .ends | .fails => none

/-- What a step of a stage adds to the events of its connection. -/
def eventsOf (writes : Bool) (after : After Stage) : List Event :=
  (if writes then [.wrote] else []) ++ match after with
    | .fails => [.failed]
    | .goes _ | .ends => []

structure State (Tid C Stage : Type) where
  pool : FixedObjectPoolCoro.State Tid Unit
  conns : Addr → C
  events : Addr → List Event := fun _ => []
  /-- the calls whose exchange is under way -/
  stages : List (Tid × Stage) := []

inductive Act (Tid Ev Env : Type) where
  /-- `try_borrow_one`, as the first line of `borrow_one` or after its wait -/
  | borrow (ph : Phase) (t : Tid) (new : NewObj Unit)
  | register (t : Tid)
  /-- the next read or write of a call -/
  | io (t : Tid) (ev : Ev)
  /-- the locked section of `release_one` -/
  | release (t : Tid) (a : Addr)
  | notify (t : Tid)
  /-- the other side of a connection sends -/
  | env (a : Addr) (e : Env)

variable (ex : Exchange Tid C Stage Ev Env) (cfg : PoolConfig)

def init (p : Pool Unit Unit) : State Tid C Stage where
  pool := FixedObjectPoolCoro.init p
  conns := fun _ => ex.fresh

def step [DecidableEq Tid] (s : State Tid C Stage) : Act Tid Ev Env → Option (State Tid C Stage)
  | .borrow ph t new =>
      if ph ≠ .tryBorrowOne ∧ t ∉ s.pool.lent.map Prod.fst then
        (FixedObjectPoolCoro.step cfg s.pool (.borrow ph t new)).map fun p =>
          { s with
            pool := p
            stages :=
              if t ∈ p.lent.map Prod.fst then ((ex.start t).map (t, ·)).toList ++ s.stages
              else s.stages }
      else none
  | .register t =>
      (FixedObjectPoolCoro.step cfg s.pool (.register t)).map fun p => { s with pool := p }
  | .io t ev =>
      (s.stages.lookup t).bind fun st =>
        (s.pool.lent.lookup t).bind fun a =>
          (ex.next t st ev (s.conns a)).map fun (after, c) =>
            { s with
              conns := Function.update s.conns a c
              events := Function.update s.events a
                (s.events a ++ eventsOf (ex.writes st) after)
              stages := (after.stage.map (t, ·)).toList ++ s.stages.filter (·.1 ≠ t) }
  | .release t a =>
      if t ∉ s.stages.map Prod.fst then
        (FixedObjectPoolCoro.step cfg s.pool (.release t a)).map fun p => { s with pool := p }
      else none
  | .notify t =>
      (FixedObjectPoolCoro.step cfg s.pool (.notify t)).map fun p => { s with pool := p }
  | .env a e =>
      if (s.pool.pool.buffer.heap a).isSome then
        some { s with conns := Function.update s.conns a (ex.deliver e (s.conns a)) }
      else none

/-- The condition on a step: a call that will use the connection at the front of `free_list`
borrows it only when `ok` holds of what happened on it. -/
def Sound (ok : List Event → Prop) (s : State Tid C Stage) : Act Tid Ev Env → Prop
  | .borrow _ t _ => (ex.start t).isSome = true → ∀ a ∈ s.pool.pool.freeList.head?, ok (s.events a)
  | _ => True

instance (ok : List Event → Prop) [DecidablePred ok] (s : State Tid C Stage)
    (act : Act Tid Ev Env) : Decidable (Sound ex ok s act) :=
  match act with
  | .borrow _ _ _ => inferInstanceAs (Decidable (_ → ∀ a ∈ s.pool.pool.freeList.head?, _))
  | .register _ | .io _ _ | .release _ _ | .notify _ | .env _ _ => isTrue trivial

/-- The state after the steps `acts`, from the connections of the pool `p`. -/
abbrev runCalls [DecidableEq Tid] (p : Pool Unit Unit) (acts : List (Act Tid Ev Env)) :
    Option (State Tid C Stage) :=
  Runs.run (step ex cfg) (init ex p) acts

/-- Every borrow of the run is sound. -/
abbrev SoundRun [DecidableEq Tid] (ok : List Event → Prop) (p : Pool Unit Unit)
    (acts : List (Act Tid Ev Env)) : Prop :=
  Runs.Meets (step ex cfg) (Sound ex ok) (init ex p) acts

/-! ### The rule -/

/-- `Q o` is what holds of a connection and of what happened on it, while the call that uses it
is at the stage `o`, or while no call uses it. -/
structure Keeps (ok : List Event → Prop) (Q : Option Stage → C → List Event → Prop) : Prop where
  fresh : Q none ex.fresh []
  fresh_ok : ok []
  start : ∀ t st c evs, Q none c evs → ok evs → ex.start t = some st → Q (some st) c evs
  next : ∀ t st ev c evs after c', Q (some st) c evs → ex.next t st ev c = some (after, c') →
    Q after.stage c' (evs ++ eventsOf (ex.writes st) after)
  deliver : ∀ o e c evs, Q o c evs → Q o (ex.deliver e c) evs

/-- The call `t` is at the stage `st` of its exchange on the connection `a`. -/
def Uses (s : State Tid C Stage) (t : Tid) (st : Stage) (a : Addr) : Prop :=
  (t, st) ∈ s.stages ∧ (t, a) ∈ s.pool.lent

structure Inv (Q : Option Stage → C → List Event → Prop) (s : State Tid C Stage) : Prop where
  pool : FixedObjectPoolCoro.Inv cfg s.pool
  used : ∀ t st a, Uses s t st a → Q (some st) (s.conns a) (s.events a)
  unused : ∀ a, (∀ t st, ¬ Uses s t st a) → Q none (s.conns a) (s.events a)
  borrowed : ∀ t st, (t, st) ∈ s.stages → t ∈ s.pool.lent.map Prod.fst
  single : (s.pool.lent.map Prod.fst).Nodup
  untouched : ∀ a, a ∉ s.pool.pool.freeList → a ∉ s.pool.lentObjs → s.events a = []

variable {ex cfg} {ok : List Event → Prop} {Q : Option Stage → C → List Event → Prop}

theorem inv_init {p : Pool Unit Unit} (hk : Keeps ex ok Q) (hp : Start cfg p) :
    Inv cfg Q (init ex p : State Tid C Stage) where
  pool := FixedObjectPoolCoro.inv_init hp
  used := by
    rintro t st a ⟨hst, -⟩
    cases hst
  unused := fun _ _ => hk.fresh
  borrowed := by
    intro t st hst
    cases hst
  single := List.nodup_nil
  untouched := fun _ _ _ => rfl

/-- A step of the pool that lends and takes back nothing. -/
theorem Inv.same {s : State Tid C Stage} {p : FixedObjectPoolCoro.State Tid Unit}
    (h : Inv cfg Q s) (hp : FixedObjectPoolCoro.Inv cfg p) (hlent : p.lent = s.pool.lent)
    (hpool : p.pool = s.pool.pool) : Inv cfg Q { s with pool := p } where
  pool := hp
  used := fun t st a hu => h.used t st a (by simpa [Uses, hlent] using hu)
  unused := fun a ha => h.unused a (by simpa [Uses, hlent] using ha)
  borrowed := by simpa [hlent] using h.borrowed
  single := by simpa [hlent] using h.single
  untouched := by simpa [FixedObjectPoolCoro.State.lentObjs, hlent, hpool] using h.untouched

/-- A call takes the connection `a`, which nobody uses. -/
theorem Inv.take {s : State Tid C Stage} {p : FixedObjectPoolCoro.State Tid Unit} {t : Tid}
    {a : Addr} (hk : Keeps ex ok Q) (h : Inv cfg Q s) (hp : FixedObjectPoolCoro.Inv cfg p)
    (hlent : p.lent = (t, a) :: s.pool.lent) (ht : t ∉ s.pool.lent.map Prod.fst)
    (ha : a ∉ s.pool.lentObjs) (hok : (ex.start t).isSome = true → ok (s.events a))
    (hkept : ∀ b, b ∉ p.pool.freeList → b ∉ p.lentObjs → b ∉ s.pool.pool.freeList) :
    Inv cfg Q { s with
      pool := p, stages := ((ex.start t).map (t, ·)).toList ++ s.stages } where
  pool := hp
  used := by
    rintro t' st b ⟨hst, hb⟩
    simp only [hlent, List.mem_cons, Prod.mk.injEq] at hb
    simp only [List.mem_append, Option.mem_toList, Option.map_eq_some_iff,
      Prod.mk.injEq] at hst
    rcases hst with ⟨st', hstart, rfl, rfl⟩ | hst
    · -- the call that has just borrowed
      have hb : b = a := by
        rcases hb with ⟨-, hb⟩ | hb
        · exact hb
        · exact absurd (List.mem_map_of_mem (f := Prod.fst) hb) ht
      subst hb
      have hunused := h.unused b fun t' st' hu =>
        ha (List.mem_map_of_mem (f := Prod.snd) hu.2)
      exact hk.start t st' _ _ hunused (hok (by simp [hstart])) hstart
    · rcases hb with ⟨rfl, -⟩ | hb
      · exact absurd (h.borrowed t' st hst) ht
      · exact h.used t' st b ⟨hst, hb⟩
  unused := by
    intro b hb
    refine h.unused b fun t' st hu => hb t' st ⟨?_, ?_⟩
    · exact List.mem_append_right _ hu.1
    · simp only [hlent]
      exact List.mem_cons_of_mem _ hu.2
  borrowed := by
    intro t' st hst
    simp only [List.mem_append, Option.mem_toList, Option.map_eq_some_iff,
      Prod.mk.injEq] at hst
    rw [hlent, List.map_cons]
    rcases hst with ⟨-, -, rfl, -⟩ | hst
    · exact List.mem_cons_self
    · exact List.mem_cons_of_mem _ (h.borrowed t' st hst)
  single := by
    rw [hlent, List.map_cons]
    exact List.nodup_cons.mpr ⟨ht, h.single⟩
  untouched := by
    intro b hfree hl
    refine h.untouched b (hkept b hfree hl) fun hb => hl ?_
    simp only [FixedObjectPoolCoro.State.lentObjs, hlent, List.map_cons]
    exact List.mem_cons_of_mem _ hb

variable [DecidableEq Tid]

/-- **A borrowing step.** -/
theorem inv_borrow {s s' : State Tid C Stage} {ph : Phase} {t : Tid} {new : NewObj Unit}
    (hk : Keeps ex ok Q) (h : Inv cfg Q s) (hok : Sound ex ok s (.borrow ph t new))
    (hstep : step ex cfg s (.borrow ph t new) = some s') : Inv cfg Q s' := by
  simp only [step, Option.ite_none_right_eq_some, Option.map_eq_some_iff] at hstep
  obtain ⟨⟨-, ht⟩, p, hp, rfl⟩ := hstep
  have hi := FixedObjectPoolCoro.inv_step s.pool _ p h.pool hp
  have hnd := List.nodup_append.mp h.pool.nodup
  obtain ⟨-, hb⟩ := step_borrow h.pool hp
  cases hb with
  | @takes a rest p' xs xs' hf hf' hx _ _ =>
      have hmem : t ∈ ((t, a) :: s.pool.lent).map Prod.fst := by simp
      simp only [hmem, if_true]
      refine Inv.take hk h hi rfl ht ?_ (fun hst => hok hst a (by simp [hf])) ?_
      · exact fun hl => hnd.2.2 a (by simp [hf]) a hl rfl
      · intro b hfree hl hb
        simp only [hf, List.mem_cons] at hb
        rcases hb with rfl | hb
        · exact hl (by simp [FixedObjectPoolCoro.State.lentObjs])
        · exact hfree (by simpa [hf'] using hb)
  | @creates p' xs xs' hf hf' hx _ hh =>
      have hmem : t ∈ ((t, new.addr) :: s.pool.lent).map Prod.fst := by simp
      simp only [hmem, if_true]
      have hnew : new.addr ∉ s.pool.lentObjs :=
        (List.nodup_cons.mp (List.nodup_append.mp hh.nodup).2.1).1
      refine Inv.take hk h hi rfl ht hnew (fun _ => ?_) (fun b _ _ => by simp [hf])
      rw [h.untouched new.addr (by simp [hf]) hnew]
      exact hk.fresh_ok
  | throws =>
      simp only [leave_lent, ht, if_false]
      exact h.same hi (leave_lent s.pool t ph) (leave_pool s.pool t ph)
  | full =>
      have hlent : ((s.pool.leave t ph).onNull t ph).lent = s.pool.lent := by cases ph <;> rfl
      simp only [hlent, ht, if_false]
      exact h.same hi hlent (by cases ph <;> rfl)

/-- A call that is past its exchange gives its connection back. -/
theorem inv_release {s s' : State Tid C Stage} {t : Tid} {a : Addr} (h : Inv cfg Q s)
    (hstep : step ex cfg s (.release t a) = some s') : Inv cfg Q s' := by
  simp only [step, Option.ite_none_right_eq_some, Option.map_eq_some_iff] at hstep
  obtain ⟨ht, p, hp, rfl⟩ := hstep
  have hi := FixedObjectPoolCoro.inv_step s.pool _ p h.pool hp
  obtain ⟨-, hm, p', -, -, hf, -, -, -, rfl⟩ := step_release h.pool hp
  have hother : ∀ t' st, (t', st) ∈ s.stages → ∀ b, (t', b) ∈ s.pool.lent →
      (t', b) ∈ s.pool.lent.erase (t, a) := by
    intro t' st hst b hb
    have hne : t' ≠ t := by
      rintro rfl
      exact ht (List.mem_map_of_mem (f := Prod.fst) hst)
    exact (List.mem_erase_of_ne (by simp [hne])).mpr hb
  refine ⟨hi, ?_, ?_, ?_, h.single.sublist (List.erase_sublist.map _), ?_⟩
  · rintro t' st b ⟨hst, hb⟩
    exact h.used t' st b ⟨hst, List.mem_of_mem_erase hb⟩
  · intro b hb
    exact h.unused b fun t' st hu => hb t' st ⟨hu.1, hother t' st hu.1 b hu.2⟩
  · intro t' st hst
    obtain ⟨⟨t'', b⟩, hb, rfl⟩ := List.mem_map.mp (h.borrowed t' st hst)
    exact List.mem_map_of_mem (f := Prod.fst) (hother t'' st hst b hb)
  · intro b hfree hl
    simp only [hf, List.mem_cons, not_or] at hfree
    refine h.untouched b hfree.2 fun hb => ?_
    obtain ⟨⟨t', b⟩, hm', rfl⟩ := List.mem_map.mp hb
    refine hl (List.mem_map_of_mem (f := Prod.snd) ((List.mem_erase_of_ne ?_).mpr hm'))
    rintro ⟨-, rfl⟩
    exact hfree.1 rfl

theorem step_io {s : State Tid C Stage} {t : Tid} {ev : Ev} {st : Stage} {a : Addr}
    {after : After Stage} {c : C} (hst : s.stages.lookup t = some st)
    (ha : s.pool.lent.lookup t = some a)
    (hnext : ex.next t st ev (s.conns a) = some (after, c)) :
    step ex cfg s (.io t ev) = some { s with
      conns := Function.update s.conns a c
      events := Function.update s.events a (s.events a ++ eventsOf (ex.writes st) after)
      stages := (after.stage.map (t, ·)).toList ++ s.stages.filter (·.1 ≠ t) } := by
  simp [step, hst, ha, hnext]

theorem mem_of_lookup {α β : Type} [DecidableEq α] {l : List (α × β)} {a : α} {b : β}
    (h : l.lookup a = some b) : (a, b) ∈ l := by
  obtain ⟨l₁, l₂, rfl, -⟩ := List.lookup_eq_some_iff.mp h
  simp

/-- Where the calls are after the call `t` has made a step. -/
theorem mem_stages_io {stages : List (Tid × Stage)} {t t' : Tid} {after : After Stage}
    {st : Stage} :
    (t', st) ∈ (after.stage.map (t, ·)).toList ++ stages.filter (·.1 ≠ t) ↔
      (t' = t ∧ after.stage = some st) ∨ (t' ≠ t ∧ (t', st) ∈ stages) := by
  simp only [List.mem_append, Option.mem_toList, Option.map_eq_some_iff, Prod.mk.injEq,
    List.mem_filter, decide_eq_true_eq]
  constructor
  · rintro (⟨st', hafter, rfl, rfl⟩ | ⟨hst, hne⟩)
    · exact .inl ⟨rfl, hafter⟩
    · exact .inr ⟨hne, hst⟩
  · rintro (⟨rfl, hafter⟩ | ⟨hne, hst⟩)
    · exact .inl ⟨st, hafter, rfl, rfl⟩
    · exact .inr ⟨hst, hne⟩

/-- **A read or write.** -/
theorem inv_io {s s' : State Tid C Stage} {t : Tid} {ev : Ev} (hk : Keeps ex ok Q)
    (h : Inv cfg Q s) (hstep : step ex cfg s (.io t ev) = some s') : Inv cfg Q s' := by
  simp only [step, Option.bind_eq_some_iff, Option.map_eq_some_iff, Prod.exists] at hstep
  obtain ⟨st, hst, a, ha, after, c, hnext, rfl⟩ := hstep
  have hst := mem_of_lookup hst
  have ha := mem_of_lookup ha
  have hq := hk.next t st ev _ _ after c (h.used t st a ⟨hst, ha⟩) hnext
  -- the call has this connection only, and this connection is the call's only
  have hconn : ∀ b, (t, b) ∈ s.pool.lent → b = a := fun b hb =>
    congrArg Prod.snd (List.inj_on_of_nodup_map h.single hb ha rfl)
  have hother : ∀ t' b, t' ≠ t → (t', b) ∈ s.pool.lent → b ≠ a := by
    rintro t' b hne hb rfl
    exact hne (h.pool.holder_unique hb ha)
  refine ⟨h.pool, ?_, ?_, ?_, h.single, ?_⟩
  · rintro t' st' b ⟨hst', hb⟩
    rcases mem_stages_io.mp hst' with ⟨rfl, hafter⟩ | ⟨hne, hst'⟩
    · obtain rfl := hconn b hb
      rw [hafter] at hq
      simp only [Function.update_self]
      exact hq
    · have hab := hother t' b hne hb
      simpa [hab] using h.used t' st' b ⟨hst', hb⟩
  · intro b hb
    by_cases hab : b = a
    · subst hab
      cases hafter : after.stage with
      | none =>
          rw [hafter] at hq
          simp only [Function.update_self]
          exact hq
      | some st' => exact absurd ⟨mem_stages_io.mpr (.inl ⟨rfl, hafter⟩), ha⟩ (hb t st')
    · simp only [Function.update_of_ne hab]
      refine h.unused b fun t' st' hu => hb t' st' ⟨mem_stages_io.mpr (.inr ⟨?_, hu.1⟩), hu.2⟩
      rintro rfl
      exact hab (hconn b hu.2)
  · intro t' st' hst'
    rcases mem_stages_io.mp hst' with ⟨rfl, -⟩ | ⟨-, hst'⟩
    · exact List.mem_map_of_mem (f := Prod.fst) ha
    · exact h.borrowed t' st' hst'
  · intro b hfree hl
    have hab : b ≠ a := by
      rintro rfl
      exact hl (List.mem_map_of_mem (f := Prod.snd) ha)
    simpa [hab] using h.untouched b hfree hl

/-- **Every sound step keeps the invariant.** -/
theorem inv_step {s s' : State Tid C Stage} {act : Act Tid Ev Env} (hk : Keeps ex ok Q)
    (h : Inv cfg Q s) (hok : Sound ex ok s act) (hstep : step ex cfg s act = some s') :
    Inv cfg Q s' := by
  cases act with
  | borrow ph t new => exact inv_borrow hk h hok hstep
  | register t =>
      obtain ⟨p, hp, rfl⟩ := Option.map_eq_some_iff.mp hstep
      have hi := FixedObjectPoolCoro.inv_step s.pool _ p h.pool hp
      obtain ⟨-, rfl⟩ := step_register hp
      exact h.same hi rfl rfl
  | io t ev => exact inv_io hk h hstep
  | release t a => exact inv_release h hstep
  | notify t =>
      obtain ⟨p, hp, rfl⟩ := Option.map_eq_some_iff.mp hstep
      have hi := FixedObjectPoolCoro.inv_step s.pool _ p h.pool hp
      obtain ⟨-, ⟨-, rfl⟩ | ⟨w, ws, -, rfl⟩⟩ := step_notify hp
      · exact h.same hi rfl rfl
      · exact h.same hi rfl rfl
  | env a e =>
      simp only [step, Option.ite_none_right_eq_some, Option.some.injEq] at hstep
      obtain ⟨-, rfl⟩ := hstep
      have hdeliver : ∀ o b, Q o (s.conns b) (s.events b) →
          Q o (Function.update s.conns a (ex.deliver e (s.conns a)) b) (s.events b) := by
        intro o b hq
        by_cases hab : b = a
        · subst hab
          simpa using hk.deliver o e _ _ hq
        · simpa [hab] using hq
      exact ⟨h.pool, fun t st b hu => hdeliver _ b (h.used t st b hu),
        fun b hb => hdeliver _ b (h.unused b hb), h.borrowed, h.single, h.untouched⟩

/-- **The rule**: in every run whose borrows are sound, every connection is as `Q` says, at the
stage of the call that uses it. -/
theorem conn_invariant (hk : Keeps ex ok Q) {p : Pool Unit Unit} (hp : Start cfg p)
    {acts : List (Act Tid Ev Env)} {s : State Tid C Stage}
    (hok : SoundRun ex cfg ok p acts) (hrun : runCalls ex cfg p acts = some s) (a : Addr) :
    ∃ o, Q o (s.conns a) (s.events a) := by
  have h : Inv cfg Q s := Runs.meets_invariant (I := Inv cfg Q)
    (fun _ _ _ hi hok hstep => inv_step hk hi hok hstep) (inv_init hk hp) hok hrun
  by_cases hu : ∃ t st, Uses s t st a
  · obtain ⟨t, st, hu⟩ := hu
    exact ⟨some st, h.used t st a hu⟩
  · refine ⟨none, h.unused a fun t st hu' => hu ⟨t, st, hu'⟩⟩

/-! ### Connections that failed -/

/-- Nothing is written after a failure. -/
def NoReuse (evs : List Event) : Prop :=
  evs.Pairwise fun e e' => ¬ (e = .failed ∧ e' = .wrote)

instance (evs : List Event) : Decidable (NoReuse evs) :=
  inferInstanceAs (Decidable (evs.Pairwise _))

theorem noReuse_append {evs evs' : List Event} (h : .failed ∉ evs) (h' : NoReuse evs') :
    NoReuse (evs ++ evs') := by
  refine List.pairwise_append.mpr ⟨?_, h', ?_⟩
  · refine List.pairwise_of_forall_mem_list fun e he e' _ hc => h ?_
    rw [← hc.1]
    exact he
  · rintro e he e' - ⟨rfl, -⟩
    exact h he

/-- While a call uses a connection nothing has failed on it, and nothing was ever written to it
after a failure. -/
def Healthy (o : Option Stage) (_ : C) (evs : List Event) : Prop :=
  NoReuse evs ∧ (o.isSome = true → .failed ∉ evs)

omit [DecidableEq Tid] in
theorem keeps_healthy (ex : Exchange Tid C Stage Ev Env) :
    Keeps ex (.failed ∉ ·) Healthy where
  fresh := ⟨List.Pairwise.nil, fun _ => List.not_mem_nil⟩
  fresh_ok := List.not_mem_nil
  start := fun _ _ _ _ hq hok _ => ⟨hq.1, fun _ => hok⟩
  next := by
    intro t st ev c evs after c' hq _
    have hnone := hq.2 rfl
    constructor
    · refine noReuse_append hnone ?_
      cases after <;> cases ex.writes st <;> simp [eventsOf] <;> decide
    · intro hgoes
      cases after with
      | goes st' => cases ex.writes st <;> simp [eventsOf, hnone]
      | ends => cases hgoes
      | fails => cases hgoes
  deliver := fun _ _ _ _ hq => hq

/-- **A failed connection is not written to again**, in every run in which no call that will use
its connection borrows one on which an exchange has failed. -/
theorem noReuse_of_sound {p : Pool Unit Unit} (hp : Start cfg p)
    {acts : List (Act Tid Ev Env)} {s : State Tid C Stage}
    (hok : SoundRun ex cfg (.failed ∉ ·) p acts) (hrun : runCalls ex cfg p acts = some s)
    (a : Addr) : NoReuse (s.events a) := by
  obtain ⟨o, h, -⟩ := conn_invariant (keeps_healthy ex) hp hok hrun a
  exact h

/-- **An unsound borrow** gives a call a connection on which an exchange has failed; its first
write is the reuse. -/
theorem reuse_of_not_sound {s s' : State Tid C Stage} {act : Act Tid Ev Env}
    (hwrites : ∀ t st, ex.start t = some st →
      ex.writes st = true ∧ ∀ c, ∃ ev r, ex.next t st ev c = some r)
    (hi : FixedObjectPoolCoro.Inv cfg s.pool)
    (hbad : ¬ Sound ex (.failed ∉ ·) s act) (hstep : step ex cfg s act = some s') :
    ∃ act' s'' a, step ex cfg s' act' = some s'' ∧ ¬ NoReuse (s''.events a) := by
  cases act with
  | borrow ph t new =>
      simp only [Sound, not_forall, Classical.not_not] at hbad
      obtain ⟨hst, a, ha, hfailed⟩ := hbad
      obtain ⟨st, hst⟩ := Option.isSome_iff_exists.mp hst
      simp only [step, Option.ite_none_right_eq_some, Option.map_eq_some_iff] at hstep
      obtain ⟨⟨-, ht⟩, p, hp, rfl⟩ := hstep
      obtain ⟨-, hb⟩ := step_borrow hi hp
      cases hb with
      | @takes b rest p' _ _ hf _ _ _ _ =>
          obtain rfl : b = a := by simpa [hf] using ha
          obtain ⟨hw, hnext⟩ := hwrites t st hst
          obtain ⟨ev, ⟨after, c⟩, hr⟩ := hnext (s.conns b)
          refine ⟨.io t ev, _, b, step_io (show List.lookup t _ = some st by simp [hst])
            List.lookup_cons_self hr, ?_⟩
          simp only [Function.update_self, hw]
          intro hno
          -- the write comes after the failure
          have hpair := (List.pairwise_append.mp hno).2.2 .failed hfailed .wrote
            (by simp [eventsOf])
          exact hpair ⟨rfl, rfl⟩
      | creates hf _ _ _ _ => simp [hf] at ha
      | throws hf _ _ _ => simp [hf] at ha
      | full hf _ _ => simp [hf] at ha
  | register t => exact absurd trivial hbad
  | io t ev => exact absurd trivial hbad
  | release t a => exact absurd trivial hbad
  | notify t => exact absurd trivial hbad
  | env a e => exact absurd trivial hbad

end AliMiddleware.PooledCalls
