import AliMiddleware.Lib.CallRule
import AliMiddleware.Lib.FilledPool
import AliMiddleware.Lib.OneThread
import Mathlib.Algebra.GroupWithZero.Nat
import Mathlib.Algebra.Order.BigOperators.Group.List
import Mathlib.Algebra.Order.Group.Nat

/-!
# Lib — PooledDrain

The calls that share the connections of a pool, on one thread, and whether they ever end.

A call leaves its exchange when each of its reads and writes brings it nearer to the end and one
of them, or a message of the other side, is always possible (`Ends`).  Then no call is stuck
behind another, whatever the order of their steps: while calls are there some step is possible
(`OnThread.moves`), every step leaves less to do (`load_lt`), and a call that came reaches what an
exchange that is over leaves behind (`Reaches`, `underWay_run`).
-/

namespace AliMiddleware.FixedObjectPoolCoro

open Pool

variable {Tid Obj : Type}

/-- The constructor of a new object does not throw. -/
def Constructs : Act Tid Obj → Prop
  | .borrow _ _ new => new.obj.isSome = true
  | .register _ | .release _ _ | .notify _ => True

instance (act : Act Tid Obj) : Decidable (Constructs act) :=
  match act with
  | .borrow _ _ _ => inferInstanceAs (Decidable (_ = true))
  | .register _ | .release _ _ | .notify _ => isTrue trivial

/-- **The pool keeps its objects.** -/
theorem objects_subset_step [DecidableEq Tid] {cfg : PoolConfig} {s s' : State Tid Obj}
    {act : Act Tid Obj} (hi : Inv cfg s) (h : step cfg s act = some s') :
    s.pool.freeList ++ s.lentObjs ⊆ s'.pool.freeList ++ s'.lentObjs := by
  cases act with
  | borrow ph t new =>
      obtain ⟨-, hb⟩ := step_borrow hi h
      cases hb with
      | takes hfree hfree' =>
          rw [hfree, hfree']
          exact (List.perm_middle.symm).subset
      | creates hfree hfree' =>
          rw [hfree, hfree']
          exact List.subset_cons_self _ _
      | throws => simp
      | full => cases ph <;> exact List.Subset.refl _
  | register t =>
      obtain ⟨-, rfl⟩ := step_register h
      exact List.Subset.refl _
  | release t a =>
      obtain ⟨-, ha, p', -, -, hfree, -, -, -, rfl⟩ := step_release hi h
      have hperm : s.lentObjs.Perm (a :: (s.lent.erase (t, a)).map Prod.snd) := lent_perm_erase ha
      rw [hfree]
      exact ((hperm.append_left _).trans List.perm_middle).subset
  | notify t =>
      obtain ⟨-, ⟨-, rfl⟩ | ⟨w, ws, -, rfl⟩⟩ := step_notify h
      · exact List.Subset.refl _
      · exact List.Subset.refl _

end AliMiddleware.FixedObjectPoolCoro

namespace AliMiddleware.PooledCalls

open Pool FixedObjectPoolCoro

variable {Tid C Stage Ev Env : Type}

/-! ### One thread -/

/-- The step of the pool, if it is one, is that of one thread, and throws nothing. -/
def Smooth (s : State Tid C Stage) (act : Act Tid Ev Env) : Prop :=
  ∀ a ∈ poolAct act, Prompt s.pool a ∧ Constructs a

/-- No new call comes. -/
def NoneComes (act : Act Tid Ev Env) : Prop := ∀ a ∈ poolAct act, Stays a

variable [DecidableEq Tid]

/-- The step is one of one thread, and as it is given. -/
def Calm (g : Given Tid C Stage Ev Env) (s : State Tid C Stage) (act : Act Tid Ev Env) : Prop :=
  AsGiven g s act ∧ Smooth s act

instance (g : Given Tid C Stage Ev Env) [∀ t st ev c, Decidable (g.io t st ev c)]
    [∀ e c, Decidable (g.env e c)] (s : State Tid C Stage) (act : Act Tid Ev Env) :
    Decidable (Calm g s act) :=
  inferInstanceAs (Decidable (_ ∧ ∀ a ∈ poolAct act, _))

variable {ex : Exchange Tid C Stage Ev Env} {cfg : PoolConfig} {ok : List Event → Prop}
  {g : Given Tid C Stage Ev Env} {Q : Option (Tid × Stage) → C → List Event → Prop}

/-- What holds on one thread. -/
structure OnThread (cfg : PoolConfig) (Q : Option (Tid × Stage) → C → List Event → Prop)
    (s : State Tid C Stage) : Prop where
  calls : InvBy cfg Q s
  thread : OneThread cfg s.pool

/-- A call comes to `borrow_one` with empty hands. -/
theorem step_emptyHanded {s s' : State Tid C Stage} {act : Act Tid Ev Env}
    (h : step ex cfg s act = some s') : ∀ a ∈ poolAct act, EmptyHanded s.pool a := by
  intro a ha
  cases act with
  | borrow ph t new =>
      obtain rfl := Option.some.inj ha
      simp only [step, Option.ite_none_right_eq_some] at h
      cases ph with
      | borrowOne => exact h.1.2
      | tryBorrowOne | resumed => trivial
  | register t | release t a | notify t =>
      obtain rfl := Option.some.inj ha
      trivial
  | io t ev => cases ha
  | env a e => cases ha

omit [DecidableEq Tid] in
/-- Nobody uses a connection of `free_list`, so a call that takes one may. -/
theorem sound_of_inv {s : State Tid C Stage} {act : Act Tid Ev Env} (h : InvBy cfg Q s)
    (hok : ∀ c evs, Q none c evs → ok evs) : Sound ex ok s act := by
  cases act with
  | borrow ph t new =>
      intro _ a ha
      refine hok _ _ (h.unused ?_)
      rintro u st ⟨-, hu⟩
      have hnd := List.nodup_append.mp h.pool.nodup
      exact hnd.2.2 a (List.mem_of_mem_head? ha) a (List.mem_map_of_mem hu) rfl
  | register t => trivial
  | io t ev => trivial
  | release t a => trivial
  | notify t => trivial
  | env a e => trivial

theorem onThread_init (hk : KeepsBy ex ok g Q) {p : Pool Unit Unit} (hp : Start cfg p) :
    OnThread cfg Q (init ex p : State Tid C Stage) :=
  ⟨invBy_init hk hp, oneThread_init hp⟩

theorem onThread_step (hk : KeepsBy ex ok g Q) (hok : ∀ c evs, Q none c evs → ok evs)
    (s : State Tid C Stage) (act : Act Tid Ev Env) (s' : State Tid C Stage)
    (hs : OnThread cfg Q s) (hcalm : Calm g s act) (h : step ex cfg s act = some s') :
    OnThread cfg Q s' := by
  refine ⟨invBy_step hk hs.calls ⟨sound_of_inv hs.calls hok, hcalm.1⟩ h, ?_⟩
  rcases step_pool h with ⟨-, hsame⟩ | ⟨a, ha, hpool⟩
  · rw [hsame]
    exact hs.thread
  · exact oneThread_step hs.thread (hcalm.2 a ha).1 (step_emptyHanded h a ha) hpool

/-! ### The connections in use -/

theorem lookup_eq_none {α β : Type} [DecidableEq α] {l : List (α × β)} {a : α} :
    l.lookup a = none ↔ a ∉ l.map Prod.fst := by
  rw [List.lookup_eq_none_iff]
  constructor
  · intro h hmem
    obtain ⟨x, hx, rfl⟩ := List.mem_map.mp hmem
    simpa using h x hx
  · intro h x hx
    have hne : x.1 ≠ a := fun he => h (he ▸ List.mem_map_of_mem hx)
    simpa using hne.symm

/-- The call that uses a connection, with its stage. -/
theorem OnThread.using {s : State Tid C Stage} (h : OnThread cfg Q s) {t : Tid} {st : Stage}
    {a : Addr} (hst : s.stages.lookup t = some st) (ha : (t, a) ∈ s.pool.lent) :
    Q (some (t, st)) (s.conns a) (s.events a) := by
  exact h.calls.used ⟨mem_of_lookup hst, ha⟩

/-- A connection whose holder has no stage is in nobody's use. -/
theorem OnThread.resting {s : State Tid C Stage} (h : OnThread cfg Q s) {a : Addr}
    (ha : ∀ t, (t, a) ∈ s.pool.lent → s.stages.lookup t = none) :
    Q none (s.conns a) (s.events a) := by
  refine h.calls.unused ?_
  rintro t st ⟨hst, hl⟩
  exact lookup_eq_none.mp (ha t hl) (List.mem_map_of_mem hst)

/-! ### What is left to do -/

/-- Exchanges that come to their end: `rank` is what a call has left to do on its connection, at
most `k` where it starts; its own steps and what the other side sends lower it, and one of these
is possible at every stage.  The other side sends nothing to a connection in nobody's use. -/
structure Ends (ex : Exchange Tid C Stage Ev Env) (g : Given Tid C Stage Ev Env)
    (Q : Option (Tid × Stage) → C → List Event → Prop) (rank : Tid → Stage → C → ℕ)
    (k : ℕ) : Prop where
  start : ∀ t st c evs, Q none c evs → ex.start t = some st → rank t st c ≤ k
  next : ∀ t st ev c evs after c', Q (some (t, st)) c evs → g.io t st ev c →
    ex.next t st ev c = some (after, c') →
    (after.stage.elim 0 fun st' => rank t st' c') < rank t st c
  deliver : ∀ t st e c evs, Q (some (t, st)) c evs → g.env e c →
    rank t st (ex.deliver e c) < rank t st c
  quiet : ∀ e c evs, Q none c evs → ¬ g.env e c
  moves : ∀ t st c evs, Q (some (t, st)) c evs →
    (∃ ev, g.io t st ev c ∧ ∃ r, ex.next t st ev c = some r) ∨ ∃ e, g.env e c

/-- What the holder of a connection has left to do on it. -/
def due (rank : Tid → Stage → C → ℕ) (s : State Tid C Stage) (x : Tid × Addr) : ℕ :=
  (s.stages.lookup x.1).elim 0 fun st => rank x.1 st (s.conns x.2)

/-- What all of them have left to do there. -/
def dues (rank : Tid → Stage → C → ℕ) (s : State Tid C Stage) : ℕ :=
  (s.pool.lent.map (due rank s)).sum

/-- What the calls that are there have left to do. -/
def load (rank : Tid → Stage → C → ℕ) (k : ℕ) (s : State Tid C Stage) : ℕ :=
  pending k s.pool + dues rank s

variable {rank : Tid → Stage → C → ℕ} {k : ℕ}

/-- A step of the pool that lends nothing. -/
theorem dues_le {s s' : State Tid C Stage} (hlent : s'.pool.lent.Sublist s.pool.lent)
    (hstages : s'.stages = s.stages) (hconns : s'.conns = s.conns) :
    dues rank s' ≤ dues rank s := by
  have hdue : due rank s' = due rank s := by
    funext x
    rw [due, due, hstages, hconns]
  rw [dues, dues, hdue]
  exact (hlent.map _).sum_le_sum fun n _ => Nat.zero_le n

/-- A call takes the connection `a`. -/
theorem dues_take {s s' : State Tid C Stage} {t : Tid} {a : Addr}
    (hlent : s'.pool.lent = (t, a) :: s.pool.lent) (ht : t ∉ s.pool.lent.map Prod.fst)
    (hlookup : ∀ u, u ≠ t → s'.stages.lookup u = s.stages.lookup u)
    (hconns : s'.conns = s.conns) : dues rank s' = due rank s' (t, a) + dues rank s := by
  have hothers : s.pool.lent.map (due rank s') = s.pool.lent.map (due rank s) := by
    refine List.map_congr_left fun x hx => ?_
    have hne : x.1 ≠ t := fun he => ht (he ▸ List.mem_map_of_mem hx)
    rw [due, due, hlookup _ hne, hconns]
  rw [dues, dues, hlent, List.map_cons, List.sum_cons, hothers]

/-- A holder has less to do on its connection, and the others what they had. -/
theorem dues_lt {s s' : State Tid C Stage} {x : Tid × Addr} (hpool : s'.pool = s.pool)
    (hx : x ∈ s.pool.lent) (hlt : due rank s' x < due rank s x)
    (hothers : ∀ y ∈ s.pool.lent, y ≠ x → due rank s' y = due rank s y) :
    dues rank s' < dues rank s := by
  rw [dues, dues, hpool]
  refine List.sum_lt_sum _ _ (fun y hy => ?_) ⟨x, hx, hlt⟩
  by_cases hy' : y = x
  · exact hy' ▸ hlt.le
  · exact (hothers y hy hy').le

/-- The stage of a call after a step of its own, or of another. -/
theorem lookup_io (stages : List (Tid × Stage)) (t u : Tid) (o : Option Stage) :
    ((o.map (t, ·)).toList ++ stages.filter (·.1 ≠ t)).lookup u =
      if u = t then o else stages.lookup u := by
  by_cases hut : u = t
  · subst hut
    rw [if_pos rfl]
    cases o with
    | some st => simp
    | none =>
        refine lookup_eq_none.mpr fun hmem => ?_
        obtain ⟨x, hx, rfl⟩ := List.mem_map.mp hmem
        simpa using (List.mem_filter.mp hx).2
  · rw [if_neg hut]
    have hne : (u == t) = false := by simpa using hut
    have hfilter : (stages.filter (·.1 ≠ t)).lookup u = stages.lookup u := by
      induction stages with
      | nil => rfl
      | cons x xs ih =>
          obtain ⟨v, st⟩ := x
          by_cases hv : v = t
          · rw [List.filter_cons_of_neg (by simp [hv]), ih, List.lookup_cons, hv, hne]
          · rw [List.filter_cons_of_pos (by simp [hv]), List.lookup_cons, List.lookup_cons, ih]
    cases o with
    | some st =>
        rw [Option.map_some, Option.toList_some, List.singleton_append, List.lookup_cons, hne,
          hfilter]
    | none => exact hfilter

/-- The stage of a call that has just taken a connection, or of another. -/
theorem lookup_start {stages : List (Tid × Stage)} {t : Tid} (ht : t ∉ stages.map Prod.fst)
    (u : Tid) (o : Option Stage) :
    ((o.map (t, ·)).toList ++ stages).lookup u = if u = t then o else stages.lookup u := by
  have hfilter : stages.filter (·.1 ≠ t) = stages := by
    refine List.filter_eq_self.mpr fun x hx => ?_
    have hne : x.1 ≠ t := fun he => ht (he ▸ List.mem_map_of_mem hx)
    simpa using hne
  have h := lookup_io stages t u o
  rwa [hfilter] at h

/-- A call that takes a connection starts with at most `k` to do on it. -/
theorem dues_start (he : Ends ex g Q rank k) {s s' : State Tid C Stage} {t : Tid} {a : Addr}
    (hs : OnThread cfg Q s) (ht : t ∉ s.pool.lent.map Prod.fst) (ha : a ∉ s.pool.lentObjs)
    (hlent : s'.pool.lent = (t, a) :: s.pool.lent) (hconns : s'.conns = s.conns)
    (hstages : s'.stages = ((ex.start t).map (t, ·)).toList ++ s.stages) :
    dues rank s' ≤ dues rank s + (s'.pool.lent.length - s.pool.lent.length) * k := by
  have hnew : t ∉ s.stages.map Prod.fst := by
    intro hmem
    obtain ⟨⟨u, st⟩, hst, rfl⟩ := List.mem_map.mp hmem
    exact ht (hs.calls.borrowed hst)
  have hlookup : ∀ u, s'.stages.lookup u = if u = t then ex.start t else s.stages.lookup u := by
    intro u
    rw [hstages, lookup_start hnew]
  have hothers : ∀ u, u ≠ t → s'.stages.lookup u = s.stages.lookup u := by
    intro u hu
    rw [hlookup, if_neg hu]
  have hone : (s'.pool.lent.length - s.pool.lent.length) * k = k := by simp [hlent]
  rw [dues_take hlent ht hothers hconns, hone, Nat.add_comm]
  refine Nat.add_le_add_left ?_ _
  rw [due, hlookup, if_pos rfl, hconns]
  cases hstart : ex.start t with
  | none => exact Nat.zero_le k
  | some st =>
      have hresting : Q none (s.conns a) (s.events a) :=
        hs.resting fun u hu => absurd (List.mem_map_of_mem hu) ha
      exact he.start t st _ _ hresting hstart

/-- **A borrowing step** brings what a call has to do on the connection it takes. -/
theorem dues_borrow (he : Ends ex g Q rank k) {s s' : State Tid C Stage} {ph : Phase} {t : Tid}
    {new : NewObj Unit} (hs : OnThread cfg Q s)
    (h : step ex cfg s (.borrow ph t new) = some s') :
    dues rank s' ≤ dues rank s + (s'.pool.lent.length - s.pool.lent.length) * k := by
  have hi := hs.calls.pool
  simp only [step, Option.ite_none_right_eq_some, Option.map_eq_some_iff] at h
  obtain ⟨⟨-, ht⟩, p, hp, rfl⟩ := h
  obtain ⟨-, hb⟩ := step_borrow hi hp
  cases hb with
  | @takes a rest p' xs xs' hfree _ _ _ _ =>
      have hnot : a ∉ s.pool.lentObjs := fun hl =>
        (List.nodup_append.mp hi.nodup).2.2 a (by simp [hfree]) a hl rfl
      exact dues_start he hs ht hnot rfl rfl (by simp)
  | @creates p' xs xs' _ _ _ _ hx' =>
      have hnd := (List.nodup_append.mp hx'.nodup).2.1
      exact dues_start he hs ht (List.nodup_cons.mp hnd).1 rfl rfl (by simp)
  | throws =>
      have hlent := leave_lent s.pool t ph
      exact Nat.le_add_right_of_le (dues_le (hlent ▸ .refl _) (by simp [ht]) rfl)
  | full =>
      cases ph with
      | borrowOne | tryBorrowOne | resumed =>
          exact Nat.le_add_right_of_le (dues_le (.refl _) (if_neg ht) rfl)

/-- **Every step leaves less to do**, once no call comes. -/
theorem load_lt (he : Ends ex g Q rank k) {s s' : State Tid C Stage} {act : Act Tid Ev Env}
    (hs : OnThread cfg Q s) (hgiven : AsGiven g s act) (hnone : NoneComes act)
    (h : step ex cfg s act = some s') : load rank k s' < load rank k s := by
  have hi : FixedObjectPoolCoro.Inv cfg s.pool := hs.calls.pool
  cases act with
  | borrow ph t new =>
      have hdues := dues_borrow he hs h
      simp only [step, Option.ite_none_right_eq_some, Option.map_eq_some_iff] at h
      obtain ⟨-, p, hp, rfl⟩ := h
      have hpending := pending_lt (k := k) hi (hnone _ rfl) hp
      dsimp only at hdues
      simp only [load]
      omega
  | register t =>
      obtain ⟨p, hp, rfl⟩ := Option.map_eq_some_iff.mp h
      have hpending := pending_lt (k := k) hi (hnone _ rfl) hp
      obtain ⟨-, rfl⟩ := step_register hp
      exact Nat.add_lt_add_of_lt_of_le (Nat.lt_of_add_right_lt hpending) (dues_le (.refl _) rfl rfl)
  | notify t =>
      obtain ⟨p, hp, rfl⟩ := Option.map_eq_some_iff.mp h
      have hpending := Nat.lt_of_add_right_lt (pending_lt (k := k) hi (hnone _ rfl) hp)
      obtain ⟨-, ⟨-, rfl⟩ | ⟨w, ws, -, rfl⟩⟩ := step_notify hp
      · exact Nat.add_lt_add_of_lt_of_le hpending (dues_le (.refl _) rfl rfl)
      · exact Nat.add_lt_add_of_lt_of_le hpending (dues_le (.refl _) rfl rfl)
  | release t a =>
      simp only [step, Option.ite_none_right_eq_some, Option.map_eq_some_iff] at h
      obtain ⟨-, p, hp, rfl⟩ := h
      have hpending := Nat.lt_of_add_right_lt (pending_lt (k := k) hi (hnone _ rfl) hp)
      obtain ⟨-, -, p', -, -, -, -, -, -, rfl⟩ := step_release hi hp
      exact Nat.add_lt_add_of_lt_of_le hpending (dues_le List.erase_sublist rfl rfl)
  | io t ev =>
      simp only [step, Option.bind_eq_some_iff, Option.map_eq_some_iff, Prod.exists] at h
      obtain ⟨st, hst, a, ha, after, c, hnext, rfl⟩ := h
      have hmem : (t, a) ∈ s.pool.lent := mem_of_lookup ha
      have hlt := he.next t st ev _ _ after c (hs.using hst hmem) (hgiven st hst a ha) hnext
      refine Nat.add_lt_add_left ?_ _
      refine dues_lt rfl hmem ?_ ?_
      · simp only [due, lookup_io, if_true, hst, Option.elim_some, Function.update_self]
        exact hlt
      · rintro ⟨u, b⟩ hy hne
        -- another holder has another connection
        have hut : u ≠ t := by
          rintro rfl
          exact hne (List.inj_on_of_nodup_map hs.calls.single hy hmem rfl)
        have hba : b ≠ a := by
          rintro rfl
          exact hut (hi.holder_unique hy hmem)
        simp only [due, lookup_io, hut, if_false, Function.update_of_ne hba]
  | env a e =>
      simp only [step, Option.ite_none_right_eq_some, Option.some.injEq] at h
      obtain ⟨-, rfl⟩ := h
      have henv : g.env e (s.conns a) := hgiven
      by_cases hused : ∀ t, (t, a) ∈ s.pool.lent → s.stages.lookup t = none
      · exact absurd henv (he.quiet _ _ _ (hs.resting hused))
      · simp only [not_forall] at hused
        obtain ⟨t, hmem, hst⟩ := hused
        obtain ⟨st, hst⟩ := Option.ne_none_iff_exists'.mp hst
        refine Nat.add_lt_add_left ?_ _
        refine dues_lt rfl hmem ?_ ?_
        · simpa [due, hst] using he.deliver t st e _ _ (hs.using hst hmem) henv
        · rintro ⟨u, b⟩ hy hne
          have hba : b ≠ a := by
            rintro rfl
            exact hne (by rw [hi.holder_unique hy hmem])
          simp [due, hba]

/-! ### Some step is possible -/

omit [DecidableEq Tid] in
theorem left_of_nil {s : State Tid C Stage} (h : InvBy cfg Q s) (hlent : s.pool.lent = [])
    (hslow : s.pool.slow = []) (hnotify : s.pool.notifying = []) (t : Tid) : s.Left t := by
  refine ⟨fun hmem => ?_, by simp [hlent], by simp [hslow], by simp [hnotify]⟩
  obtain ⟨⟨u, st⟩, hst, -⟩ := List.mem_map.mp hmem
  simpa [hlent] using h.borrowed hst

/-- A step of the pool that can be taken now. -/
theorem calm_pool {s : State Tid C Stage} {act : Act Tid Ev Env}
    {a : FixedObjectPoolCoro.Act Tid Unit} (ha : poolAct act = some a) (hgiven : AsGiven g s act)
    (hprompt : Prompt s.pool a) (hnew : Constructs a) (hstays : Stays a) :
    Calm g s act ∧ NoneComes act := by
  refine ⟨⟨hgiven, fun b hb => ?_⟩, fun b hb => ?_⟩
  · obtain rfl := Option.some.inj (ha.symm.trans hb)
    exact ⟨hprompt, hnew⟩
  · obtain rfl := Option.some.inj (ha.symm.trans hb)
    exact hstays

/-- A step of the exchanges that can be taken now. -/
theorem calm_other {s : State Tid C Stage} {act : Act Tid Ev Env} (ha : poolAct act = none)
    (hgiven : AsGiven g s act) : Calm g s act ∧ NoneComes act := by
  refine ⟨⟨hgiven, fun b hb => ?_⟩, fun b hb => ?_⟩
  · exact absurd (ha.symm.trans hb) (by simp)
  · exact absurd (ha.symm.trans hb) (by simp)

/-- The holder of a connection, or its other side, can go on. -/
theorem OnThread.holder_moves (he : Ends ex g Q rank k) {s : State Tid C Stage}
    (hs : OnThread cfg Q s) (hsettled : Settled s.pool) {t : Tid} {a : Addr}
    {rest : List (Tid × Addr)} (hlent : s.pool.lent = (t, a) :: rest) :
    ∃ act s', (Calm g s act ∧ NoneComes act) ∧ step ex cfg s act = some s' := by
  have hmem : (t, a) ∈ s.pool.lent := by simp [hlent]
  cases hst : s.stages.lookup t with
  | none =>
      obtain ⟨p, hp⟩ := Option.ne_none_iff_exists'.mp (hs.thread.releases hsettled hmem)
      have hstages : t ∉ s.stages.map Prod.fst := lookup_eq_none.mp hst
      exact ⟨.release t a, { s with pool := p }, calm_pool rfl trivial hsettled trivial trivial,
        by simp [step, hstages, hp]⟩
  | some st =>
      have hlookup : s.pool.lent.lookup t = some a := by simp [hlent]
      rcases he.moves t st _ _ (hs.using hst hmem) with ⟨ev, hio, ⟨after, c⟩, hnext⟩ | ⟨e, henv⟩
      · refine ⟨.io t ev, _, calm_other rfl ?_, step_io hst hlookup hnext⟩
        intro st' hst' a' ha'
        obtain rfl := Option.some.inj (hst.symm.trans hst')
        obtain rfl := Option.some.inj (hlookup.symm.trans ha')
        exact hio
      · obtain ⟨xs, hx⟩ := hs.calls.pool
        have hlive := hx.rep.mem_live
          (hx.share.subset (List.mem_append_right _ (List.mem_map_of_mem hmem)))
        exact ⟨.env a e, _, calm_other rfl henv, by
          rw [step, if_pos (Option.isSome_iff_ne_none.mpr hlive)]⟩

/-- **No deadlock.**  All calls have left, or some step of theirs or of the other side is
possible. -/
theorem OnThread.moves (he : Ends ex g Q rank k) (hpos : 0 < cfg.maxSize) {s : State Tid C Stage}
    (hs : OnThread cfg Q s) :
    (∀ t, s.Left t) ∨
      ∃ act s', (Calm g s act ∧ NoneComes act) ∧ step ex cfg s act = some s' := by
  rcases settled_or_moves cfg s.pool with hsettled | ⟨t, hstep⟩ | ⟨t, hstep⟩
  · cases hlent : s.pool.lent with
    | cons x rest => exact .inr (hs.holder_moves he hsettled hlent)
    | nil =>
        cases hready : s.pool.ready with
        | nil =>
            have hslow := hs.thread.idle hpos hsettled hlent hready
            exact .inl (left_of_nil hs.calls hlent hslow hsettled.2)
        | cons t ts =>
            obtain ⟨b, hb⟩ := hs.thread.resumes hsettled (t := t) (by simp [hready])
            obtain ⟨p, hp⟩ := Option.ne_none_iff_exists'.mp (hb (some ()))
            have hin : Phase.resumed ≠ .tryBorrowOne ∧ t ∉ s.pool.lent.map Prod.fst := by
              simp [hlent]
            have hstep : step ex cfg s (.borrow .resumed t ⟨b, some ()⟩) = some _ :=
              (if_pos hin).trans (congrArg (Option.map _) hp)
            exact .inr ⟨.borrow .resumed t ⟨b, some ()⟩, _,
              calm_pool rfl trivial hsettled rfl rfl, hstep⟩
  · obtain ⟨p, hp⟩ := Option.ne_none_iff_exists'.mp hstep
    exact .inr ⟨.register t, { s with pool := p }, calm_pool rfl trivial trivial trivial trivial,
      by simp [step, hp]⟩
  · obtain ⟨p, hp⟩ := Option.ne_none_iff_exists'.mp hstep
    exact .inr ⟨.notify t, { s with pool := p }, calm_pool rfl trivial trivial trivial trivial,
      by simp [step, hp]⟩

/-! ### What a call leaves behind -/

/-- `R t` holds of a connection once the call `t` has made its exchange there. -/
structure Reaches (ex : Exchange Tid C Stage Ev Env) (g : Given Tid C Stage Ev Env)
    (Q : Option (Tid × Stage) → C → List Event → Prop) (R : Tid → C → Prop) : Prop where
  unused : ∀ t c, ex.start t = none → R t c
  ends : ∀ t st ev c evs after c', Q (some (t, st)) c evs → g.io t st ev c →
    ex.next t st ev c = some (after, c') → after.stage = none → R t c'
  next : ∀ u t st ev c after c', R u c → ex.next t st ev c = some (after, c') → R u c'
  deliver : ∀ u e c, R u c → R u (ex.deliver e c)

/-- The call waits for a connection, uses one, or has made its exchange. -/
def UnderWay (R : Tid → C → Prop) (s : State Tid C Stage) (t : Tid) : Prop :=
  t ∈ s.pool.slow ∨ (∃ st a, Uses s t st a) ∨ ∃ a ∈ s.nodes, R t (s.conns a)

/-- The call comes to `borrow_one`. -/
def Comes (t : Tid) (act : Act Tid Ev Env) : Prop := ∃ new, act = .borrow .borrowOne t new

variable {R : Tid → C → Prop}

/-- The call that a borrowing step is about. -/
theorem underWay_borrow (hr : Reaches ex g Q R) {s s' : State Tid C Stage} {ph : Phase} {t : Tid}
    {new : NewObj Unit} (hs : OnThread cfg Q s) (hcalm : Calm g s (.borrow ph t new))
    (h : step ex cfg s (.borrow ph t new) = some s') : UnderWay R s' t := by
  simp only [step, Option.ite_none_right_eq_some, Option.map_eq_some_iff] at h
  obtain ⟨⟨hph, ht⟩, p, hp, rfl⟩ := h
  have htake : ∀ a p', (t, a) ∈ p'.lent → UnderWay R { s with
      pool := p'
      stages := if t ∈ p'.lent.map Prod.fst then ((ex.start t).map (t, ·)).toList ++ s.stages
        else s.stages } t := by
    intro a p' hlent
    have hmem : t ∈ p'.lent.map Prod.fst := List.mem_map_of_mem hlent
    cases hstart : ex.start t with
    | none =>
        have hnode : a ∈ p'.pool.freeList ++ p'.lentObjs :=
          List.mem_append_right _ (List.mem_map_of_mem hlent)
        exact .inr (.inr ⟨a, hnode, hr.unused t _ hstart⟩)
    | some st => exact .inr (.inl ⟨st, a, by simp [hmem], hlent⟩)
  obtain ⟨-, hb⟩ := step_borrow hs.calls.pool hp
  cases hb with
  | takes => exact htake _ _ List.mem_cons_self
  | creates => exact htake _ _ List.mem_cons_self
  | throws _ _ _ hobj =>
      have hnew : new.obj.isSome = true := (hcalm.2 _ rfl).2
      simp [hobj] at hnew
  | full =>
      left
      cases ph with
      | tryBorrowOne => exact absurd rfl hph
      | borrowOne | resumed =>
          exact List.mem_append_left _ List.mem_cons_self

/-- The connections of the pool stay. -/
theorem nodes_subset_step {s s' : State Tid C Stage} {act : Act Tid Ev Env}
    (hi : FixedObjectPoolCoro.Inv cfg s.pool) (h : step ex cfg s act = some s') :
    s.nodes ⊆ s'.nodes := by
  rcases step_pool h with ⟨-, hsame⟩ | ⟨a, -, hpool⟩
  · rw [State.nodes, State.nodes, hsame]
    exact List.Subset.refl _
  · exact objects_subset_step hi hpool

/-- What others do leaves a call under way. -/
theorem underWay_other (hr : Reaches ex g Q R) {s s' : State Tid C Stage} {act : Act Tid Ev Env}
    {u : Tid} (hs : OnThread cfg Q s) (hcalm : Calm g s act) (hu : UnderWay R s u)
    (hother : ∀ ph new, act ≠ .borrow ph u new) (h : step ex cfg s act = some s') :
    UnderWay R s' u := by
  have hi := hs.calls.pool
  have hnodes := nodes_subset_step hi h
  cases act with
  | borrow ph t new =>
      simp only [step, Option.ite_none_right_eq_some, Option.map_eq_some_iff] at h
      obtain ⟨-, p, hp, rfl⟩ := h
      rcases hu with hslow | ⟨st, a, hst, ha⟩ | ⟨b, hb, hdone⟩
      · refine .inl (slow_step hi hslow (fun ph' new' he => ?_) hp)
        obtain ⟨rfl, rfl, rfl⟩ := FixedObjectPoolCoro.Act.borrow.inj he
        exact hother ph new rfl
      · have hlent : (u, a) ∈ p.lent := by
          obtain ⟨-, hb⟩ := step_borrow hi hp
          cases hb with
          | takes | creates => exact List.mem_cons_of_mem _ ha
          | throws => simpa using ha
          | full => cases ph <;> exact ha
        refine .inr (.inl ⟨st, a, ?_, hlent⟩)
        by_cases ht : t ∈ p.lent.map Prod.fst
        · simp [ht, hst]
        · simp [ht, hst]
      · exact .inr (.inr ⟨b, hnodes hb, hdone⟩)
  | register t =>
      obtain ⟨p, hp, rfl⟩ := Option.map_eq_some_iff.mp h
      rcases hu with hslow | ⟨st, a, hst, ha⟩ | ⟨b, hb, hdone⟩
      · exact .inl (slow_step hi hslow (by simp) hp)
      · obtain ⟨-, rfl⟩ := step_register hp
        exact .inr (.inl ⟨st, a, hst, ha⟩)
      · exact .inr (.inr ⟨b, hnodes hb, hdone⟩)
  | notify t =>
      obtain ⟨p, hp, rfl⟩ := Option.map_eq_some_iff.mp h
      rcases hu with hslow | ⟨st, a, hst, ha⟩ | ⟨b, hb, hdone⟩
      · exact .inl (slow_step hi hslow (by simp) hp)
      · obtain ⟨-, ⟨-, rfl⟩ | ⟨w, ws, -, rfl⟩⟩ := step_notify hp
        · exact .inr (.inl ⟨st, a, hst, ha⟩)
        · exact .inr (.inl ⟨st, a, hst, ha⟩)
      · exact .inr (.inr ⟨b, hnodes hb, hdone⟩)
  | release t a =>
      simp only [step, Option.ite_none_right_eq_some, Option.map_eq_some_iff] at h
      obtain ⟨ht, p, hp, rfl⟩ := h
      rcases hu with hslow | ⟨st, b, hst, hb⟩ | ⟨b, hb, hdone⟩
      · exact .inl (slow_step hi hslow (by simp) hp)
      · obtain ⟨-, -, p', -, -, -, -, -, -, rfl⟩ := step_release hi hp
        have hne : (u, b) ≠ (t, a) := by
          rintro he
          obtain ⟨rfl, -⟩ := Prod.mk.inj he
          exact ht (List.mem_map_of_mem hst)
        exact .inr (.inl ⟨st, b, hst, (List.mem_erase_of_ne hne).mpr hb⟩)
      · exact .inr (.inr ⟨b, hnodes hb, hdone⟩)
  | io t ev =>
      simp only [step, Option.bind_eq_some_iff, Option.map_eq_some_iff, Prod.exists] at h
      obtain ⟨st, hst, a, ha, after, c, hnext, rfl⟩ := h
      have hmem : (t, a) ∈ s.pool.lent := mem_of_lookup ha
      rcases hu with hslow | ⟨st', b, hst', hb⟩ | ⟨b, hb, hdone⟩
      · exact .inl hslow
      · by_cases hut : u = t
        · subst hut
          cases hafter : after.stage with
          | some st'' => exact .inr (.inl ⟨st'', a, by simp, hmem⟩)
          | none =>
              have hio := hcalm.1 st hst a ha
              have hnode : a ∈ s.nodes := List.mem_append_right _ (List.mem_map_of_mem hmem)
              have hend := hr.ends u st ev _ _ after c (hs.using hst hmem) hio hnext hafter
              exact .inr (.inr ⟨a, hnodes hnode, by simpa using hend⟩)
        · exact .inr (.inl ⟨st', b, mem_stages_io.mpr (.inr ⟨hut, hst'⟩), hb⟩)
      · refine .inr (.inr ⟨b, hnodes hb, ?_⟩)
        by_cases hba : b = a
        · subst hba
          simpa using hr.next u t st ev _ after c hdone hnext
        · simpa [hba] using hdone
  | env a e =>
      simp only [step, Option.ite_none_right_eq_some, Option.some.injEq] at h
      obtain ⟨-, rfl⟩ := h
      rcases hu with hslow | hused | ⟨b, hb, hdone⟩
      · exact .inl hslow
      · exact .inr (.inl hused)
      · refine .inr (.inr ⟨b, hnodes hb, ?_⟩)
        by_cases hba : b = a
        · subst hba
          simpa using hr.deliver u e _ hdone
        · simpa [hba] using hdone

/-- **A call that came stays, or has made its exchange.** -/
theorem underWay_step (hr : Reaches ex g Q R) {s s' : State Tid C Stage} {act : Act Tid Ev Env}
    {u : Tid} (hs : OnThread cfg Q s) (hcalm : Calm g s act)
    (h : step ex cfg s act = some s') (hu : UnderWay R s u ∨ Comes u act) : UnderWay R s' u := by
  by_cases hact : ∃ ph new, act = .borrow ph u new
  · obtain ⟨ph, new, rfl⟩ := hact
    exact underWay_borrow hr hs hcalm h
  · have hother : ∀ ph new, act ≠ .borrow ph u new := fun ph new he => hact ⟨ph, new, he⟩
    rcases hu with hu | ⟨new, rfl⟩
    · exact underWay_other hr hs hcalm hu hother h
    · exact absurd rfl (hother _ new)

/-! ### Runs -/

/-- A calm step, where no new call comes. -/
def Draining (g : Given Tid C Stage Ev Env) (s : State Tid C Stage) (act : Act Tid Ev Env) :
    Prop :=
  Calm g s act ∧ NoneComes act

instance (g : Given Tid C Stage Ev Env) [∀ t st ev c, Decidable (g.io t st ev c)]
    [∀ e c, Decidable (g.env e c)] (s : State Tid C Stage) (act : Act Tid Ev Env) :
    Decidable (Draining g s act) :=
  inferInstanceAs (Decidable (_ ∧ ∀ a ∈ poolAct act, Stays a))

/-- No step of the calls that are there is possible, nor of the other side. -/
def Stopped (ex : Exchange Tid C Stage Ev Env) (cfg : PoolConfig) (g : Given Tid C Stage Ev Env)
    (s : State Tid C Stage) : Prop :=
  ∀ act, Draining g s act → step ex cfg s act = none

/-- Nothing is possible exactly when all calls have left. -/
theorem OnThread.stopped_iff (he : Ends ex g Q rank k) (hpos : 0 < cfg.maxSize)
    {s : State Tid C Stage} (hs : OnThread cfg Q s) : Stopped ex cfg g s ↔ ∀ t, s.Left t := by
  constructor
  · intro hstop
    rcases hs.moves he hpos with hleft | ⟨act, s', hd, hstep⟩
    · exact hleft
    · exact absurd (hstop act hd) (by simp [hstep])
  · intro hleft act hd
    rw [Option.eq_none_iff_forall_not_mem]
    intro s' hstep
    have hlent : ∀ t a, (t, a) ∉ s.pool.lent := fun t a hmem =>
      (hleft t).2.1 (List.mem_map_of_mem hmem)
    rcases step_pool hstep with ⟨hnone, -⟩ | ⟨a, ha, hpool⟩
    · cases act with
      | io t ev =>
          simp only [step, Option.mem_def, Option.bind_eq_some_iff] at hstep
          obtain ⟨st, hst, -⟩ := hstep
          exact (hleft t).1 (List.mem_map_of_mem (mem_of_lookup hst))
      | env a e =>
          have hresting : Q none (s.conns a) (s.events a) :=
            hs.resting fun t hmem => absurd hmem (hlent t a)
          exact he.quiet e _ _ hresting hd.1.1
      | borrow | register | release | notify => cases hnone
    · have hi := hs.calls.pool
      cases a with
      | borrow ph t new =>
          obtain rfl : ph = .resumed := hd.2 _ ha
          have hready : t ∈ s.pool.ready := (step_borrow hi hpool).1
          exact (hleft t).2.2.1 (List.mem_append_right _ (List.mem_append_right _ hready))
      | register t =>
          exact (hleft t).2.2.1 (List.mem_append_left _ (step_register hpool).1)
      | release t a => exact hlent t a (step_release hi hpool).2.1
      | notify t => exact (hleft t).2.2.2 (step_notify hpool).1

theorem onThread_run (hk : KeepsBy ex ok g Q) (hok : ∀ c evs, Q none c evs → ok evs)
    {ok' : State Tid C Stage → Act Tid Ev Env → Prop} (hcalm : ∀ s act, ok' s act → Calm g s act)
    {s s' : State Tid C Stage} {acts : List (Act Tid Ev Env)} (hs : OnThread cfg Q s)
    (hmeets : Runs.Meets (step ex cfg) ok' s acts)
    (hrun : Runs.run (step ex cfg) s acts = some s') : OnThread cfg Q s' :=
  Runs.meets_invariant
    (fun s act s' hs hact h => onThread_step hk hok s act s' hs (hcalm s act hact) h) hs hmeets hrun

/-- The calls that came in a run are under way after it. -/
theorem underWay_run (hk : KeepsBy ex ok g Q) (hok : ∀ c evs, Q none c evs → ok evs)
    (hr : Reaches ex g Q R) {s s' : State Tid C Stage} {acts : List (Act Tid Ev Env)} {u : Tid}
    (hs : OnThread cfg Q s) (hcalm : Runs.Meets (step ex cfg) (Calm g) s acts)
    (hrun : Runs.run (step ex cfg) s acts = some s')
    (hu : UnderWay R s u ∨ ∃ act ∈ acts, Comes u act) : UnderWay R s' u := by
  induction acts generalizing s with
  | nil =>
      obtain rfl : s = s' := by simpa using hrun
      simpa using hu
  | cons act acts ih =>
      obtain ⟨s₁, h₁, h₂⟩ := Runs.run_cons_inv hrun
      have hs₁ := onThread_step hk hok s act s₁ hs hcalm.1 h₁
      refine ih hs₁ (hcalm.2 s₁ h₁) h₂ ?_
      rcases hu with hu | ⟨act', hmem, hcomes⟩
      · exact .inl (underWay_step hr hs hcalm.1 h₁ (.inl hu))
      · rcases List.mem_cons.mp hmem with rfl | hmem
        · exact .inl (underWay_step hr hs hcalm.1 h₁ (.inr hcomes))
        · exact .inr ⟨act', hmem, hcomes⟩

/-- **Once no call comes any more, all calls end.**  After any calm run, the calls that are there
and the other side go on in any order, for at most `load` steps; and when no such step is possible
any more every call has left, and has made its exchange. -/
theorem calls_end (hk : KeepsBy ex ok g Q) (hok : ∀ c evs, Q none c evs → ok evs)
    (he : Ends ex g Q rank k) (hr : Reaches ex g Q R) (hpos : 0 < cfg.maxSize)
    {p : Pool Unit Unit} (hp : Start cfg p) {s s' : State Tid C Stage}
    {as bs : List (Act Tid Ev Env)}
    (hcalm : Runs.Meets (step ex cfg) (Calm g) (init ex p) as)
    (has : runCalls ex cfg p as = some s)
    (hdrain : Runs.Meets (step ex cfg) (Draining g) s bs)
    (hbs : Runs.run (step ex cfg) s bs = some s') :
    bs.length ≤ load rank k s ∧
      (Stopped ex cfg g s' → (∀ t, s'.Left t) ∧
        ∀ t, (∃ act ∈ as, Comes t act) → ∃ a ∈ s'.nodes, R t (s'.conns a)) := by
  have hinit : OnThread cfg Q (init ex p) := onThread_init hk hp
  have hs : OnThread cfg Q s := onThread_run hk hok (fun _ _ h => h) hinit hcalm has
  constructor
  · have hlower : ∀ (s : State Tid C Stage) act s', OnThread cfg Q s → Draining g s act →
        step ex cfg s act = some s' → OnThread cfg Q s' ∧ load rank k s' < load rank k s :=
      fun s act s' hs hd h =>
        ⟨onThread_step hk hok s act s' hs hd.1 h, load_lt he hs hd.1.1 hd.2 h⟩
    exact Nat.le_of_add_right_le (Runs.meets_length_le hlower hs hdrain hbs)
  · intro hstop
    have hkeep : ∀ u, UnderWay R s u → OnThread cfg Q s' ∧ UnderWay R s' u := by
      intro u hu
      refine Runs.meets_invariant (I := fun s => OnThread cfg Q s ∧ UnderWay R s u) ?_ ⟨hs, hu⟩
        hdrain hbs
      intro s act s' hs hd h
      exact ⟨onThread_step hk hok s act s' hs.1 hd.1 h, underWay_step hr hs.1 hd.1 h (.inl hs.2)⟩
    have hs' : OnThread cfg Q s' := onThread_run hk hok (fun _ _ h => h.1) hs hdrain hbs
    have hleft := (hs'.stopped_iff he hpos).mp hstop
    refine ⟨hleft, fun t hcame => ?_⟩
    obtain ⟨-, hslow | ⟨st, a, hst, -⟩ | hdone⟩ :=
      hkeep t (underWay_run hk hok hr hinit hcalm has (.inr hcame))
    · exact absurd hslow (hleft t).2.2.1
    · exact absurd (List.mem_map_of_mem hst) (hleft t).1
    · exact hdone

end AliMiddleware.PooledCalls
