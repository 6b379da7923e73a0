import AliMiddleware.Lib.SerialWakeups

/-!
# Lib — SerialDrain

What becomes of the coroutines that wait for an object of `fixed_object_pool_coro`, on one thread,
once no new coroutine comes: those that hold an object release it, and those that were notified
resume, in any order.

`provider_info::async_request` holds one connection at a time.  While every coroutine comes to
`borrow_one` with empty hands (`BorrowsOne`), no holder waits (`Apart`), every such tail of a run
is short, and it can stop only when everything is back in the pool and each coroutine that entered
the wait has returned with an object, once for each time it entered (`drained`).  A coroutine that
waits while it holds an object may wait for itself (`holds_and_waits`).
-/

namespace AliMiddleware.FixedObjectPoolCoro.Serial

open Pool

variable {Tid Obj : Type} {cfg : PoolConfig} [DecidableEq Tid]

/-! ### Where a step moves the coroutines -/

/-- What a borrowing step does to the holders and to those that wait. -/
inductive Moved (s : Serial Tid Obj) (ph : Phase) (t : Tid) (s' : Serial Tid Obj) : Prop where
  | takes {a : Addr} (lent : s'.now.lent = (t, a) :: s.now.lent)
      (waiters : s'.now.waiters = s.now.waiters) (ready : s'.now.ready = (s.now.leave t ph).ready)
  /-- an exception, or the `nullptr` of `try_borrow_one` -/
  | ends (lent : s'.now.lent = s.now.lent) (waiters : s'.now.waiters = s.now.waiters)
      (ready : s'.now.ready = s.now.ready) (fresh : ph ≠ .resumed)
  | waits (lent : s'.now.lent = s.now.lent) (waiters : s'.now.waiters = s.now.waiters ++ [t])
      (ready : s'.now.ready = (s.now.leave t ph).ready) (slow : ph ≠ .tryBorrowOne)

theorem moved_borrow {s s' : Serial Tid Obj} {ph : Phase} {t : Tid} {new : NewObj Obj}
    (hs : Accounted cfg s) (h : step cfg s (.borrow ph t new) = some s') :
    s.now.At t ph ∧ Moved s ph t s' := by
  obtain ⟨s₁, h₁, hout⟩ := step_borrow h
  obtain ⟨hat, hb⟩ := FixedObjectPoolCoro.step_borrow hs.inv h₁
  refine ⟨hat, ?_⟩
  have hnone : t ∉ s.now.toRegister := by simp [hs.settled.1]
  cases hb with
  | takes hfree hfree' hx hsame hx' =>
      rcases hout with ⟨ht, -⟩ | ⟨-, rfl⟩
      · exact absurd (by simpa using ht) hnone
      · exact .takes rfl (by simp) rfl
  | creates hfree hfree' hx hmore hx' =>
      rcases hout with ⟨ht, -⟩ | ⟨-, rfl⟩
      · exact absurd (by simpa using ht) hnone
      · exact .takes rfl (by simp) rfl
  | throws hfree hx hroom hobj =>
      rcases hout with ⟨ht, -⟩ | ⟨-, rfl⟩
      · exact absurd (by simpa using ht) hnone
      · -- there was room, so nobody waits and none resumes
        have hnil := hs.waiting_nil hx hroom
        obtain ⟨hleave, -⟩ := not_resumed hnil hat
        rw [hleave]
        refine .ends rfl rfl rfl ?_
        rintro rfl
        have hmem : t ∈ s.waiting := List.mem_append_right _ hat
        rw [hnil] at hmem
        exact List.not_mem_nil hmem
  | full hfree hx hfull =>
      cases ph with
      | tryBorrowOne =>
          rcases hout with ⟨ht, -⟩ | ⟨-, rfl⟩
          · exact absurd ht hnone
          · exact .ends rfl rfl rfl (by simp)
      | borrowOne | resumed =>
          rcases hout with ⟨-, s₂, h₂, rfl⟩ | ⟨ht, -⟩
          · obtain ⟨-, rfl⟩ := step_register h₂
            exact .waits rfl rfl rfl (by simp)
          · simp [State.leave, State.onNull] at ht

theorem moved_release {s s' : Serial Tid Obj} {t : Tid} {a : Addr} (hs : Accounted cfg s)
    (h : step cfg s (.release t a) = some s') :
    (t, a) ∈ s.now.lent ∧ s'.now.lent = s.now.lent.erase (t, a) ∧
      (s.now.waiters = [] ∧ s'.now.waiters = [] ∧ s'.now.ready = s.now.ready ∨
        ∃ w, s.now.waiters = w :: s'.now.waiters ∧ s'.now.ready = w :: s.now.ready) := by
  obtain ⟨s₁, s₂, h₁, h₂, rfl⟩ := step_release h
  obtain ⟨-, hlent, p', xs, xs', -, -, -, -, rfl⟩ := FixedObjectPoolCoro.step_release hs.inv h₁
  obtain ⟨-, ⟨hw, rfl⟩ | ⟨w, ws, hw, rfl⟩⟩ := step_notify h₂
  · exact ⟨hlent, rfl, .inl ⟨hw, hw, rfl⟩⟩
  · exact ⟨hlent, rfl, .inr ⟨w, hw, rfl⟩⟩

/-! ### No holder waits -/

/-- A coroutine for each object that is lent. -/
def holders (s : Serial Tid Obj) : List Tid := s.now.lent.map Prod.fst

/-- A coroutine comes to `borrow_one` with empty hands. -/
def BorrowsOne (s : Serial Tid Obj) : SerialAct Tid Obj → Prop
  | .borrow .borrowOne t _ => t ∉ s.holders
  | _ => True

instance (s : Serial Tid Obj) (act : SerialAct Tid Obj) : Decidable (BorrowsOne s act) :=
  match act with
  | .borrow .borrowOne _ _ => inferInstanceAs (Decidable (_ ∉ _))
  | .borrow .tryBorrowOne _ _ | .borrow .resumed _ _ | .release _ _ => isTrue trivial

def Apart (s : Serial Tid Obj) : Prop := ∀ t ∈ s.holders, t ∉ s.waiting

omit [DecidableEq Tid] in
theorem apart_init (p : Pool Obj Unit) : Apart (init p : Serial Tid Obj) :=
  fun _ ht => absurd ht List.not_mem_nil

/-- Those that wait after a coroutine has left its phase. -/
theorem leave_waiting_subset (s : Serial Tid Obj) (t : Tid) (ph : Phase) :
    s.now.waiters ++ (s.now.leave t ph).ready ⊆ s.waiting := by
  intro u hu
  rcases List.mem_append.mp hu with hw | hr
  · exact List.mem_append_left _ hw
  · cases ph with
    | tryBorrowOne | borrowOne => exact List.mem_append_right _ hr
    | resumed => exact List.mem_append_right _ (List.mem_of_mem_erase hr)

/-- A coroutine that leaves its phase no longer waits. -/
theorem not_mem_leave_waiting {s : Serial Tid Obj} {t : Tid} {ph : Phase} (hs : Accounted cfg s)
    (hat : s.now.At t ph) : t ∉ s.now.waiters ++ (s.now.leave t ph).ready := by
  cases ph with
  | tryBorrowOne => exact not_mem_waiting hat
  | borrowOne => exact not_mem_waiting hat
  | resumed =>
      have hnodup := (waiting_perm hat).nodup_iff.mp hs.tally.once
      exact (List.nodup_cons.mp hnodup).1

/-- **A step keeps the holders apart from those that wait.** -/
theorem apart_step {s s' : Serial Tid Obj} {act : SerialAct Tid Obj} (hs : Accounted cfg s)
    (ha : Apart s) (hok : BorrowsOne s act) (h : step cfg s act = some s') : Apart s' := by
  intro u hu
  cases act with
  | borrow ph t new =>
      obtain ⟨hat, hmoved⟩ := moved_borrow hs h
      cases hmoved with
      | takes hlent hw hr =>
          simp only [waiting, hw, hr]
          rw [holders, hlent, List.map_cons, List.mem_cons] at hu
          rcases hu with rfl | hu
          · exact not_mem_leave_waiting hs hat
          · exact fun hmem => ha u hu (leave_waiting_subset s t ph hmem)
      | ends hlent hw hr _ =>
          rw [holders, hlent] at hu
          simpa only [waiting, hw, hr] using ha u hu
      | waits hlent hw hr hslow =>
          rw [holders, hlent] at hu
          have hne : u ≠ t := by
            rintro rfl
            cases ph with
            | tryBorrowOne => exact hslow rfl
            | borrowOne => exact hok hu
            | resumed => exact ha u hu (List.mem_append_right _ hat)
          intro hmem
          simp only [waiting, hw, hr, List.append_assoc, List.mem_append,
            List.mem_singleton] at hmem
          refine ha u hu (leave_waiting_subset s t ph (List.mem_append.mpr ?_))
          rcases hmem with hmem | rfl | hmem
          · exact .inl hmem
          · exact absurd rfl hne
          · exact .inr hmem
  | release t a =>
      obtain ⟨-, hlent, hmoved⟩ := moved_release hs h
      rw [holders, hlent] at hu
      have hu' : u ∈ s.holders := ((List.erase_sublist).map _).subset hu
      rcases hmoved with ⟨hw, hw', hr⟩ | ⟨w, hw, hr⟩
      · simpa only [waiting, hw, hw', hr] using ha u hu'
      · intro hmem
        refine ha u hu' ?_
        rw [waiting, hw]
        rw [waiting, hr] at hmem
        exact List.perm_middle.subset hmem

/-- What holds in every state of a run in which each coroutine borrows with empty hands. -/
structure Orderly (cfg : PoolConfig) (s : Serial Tid Obj) : Prop where
  accounted : Accounted cfg s
  apart : Apart s

theorem orderly_step (s : Serial Tid Obj) (act : SerialAct Tid Obj) (s' : Serial Tid Obj)
    (hs : Orderly cfg s) (hok : BorrowsOne s act) (h : step cfg s act = some s') :
    Orderly cfg s' :=
  ⟨accounted_step s act s' hs.accounted h, apart_step hs.accounted hs.apart hok h⟩

/-! ### Without new coroutines -/

/-- A holder releases, or a notified coroutine resumes. -/
def Drains : SerialAct Tid Obj → Prop
  | .borrow ph _ _ => ph = .resumed
  | .release _ _ => True

instance (act : SerialAct Tid Obj) : Decidable (Drains act) :=
  match act with
  | .borrow _ _ _ => inferInstanceAs (Decidable (_ = _))
  | .release _ _ => isTrue trivial

omit [DecidableEq Tid] in
theorem Drains.borrowsOne {s : Serial Tid Obj} {act : SerialAct Tid Obj} (h : Drains act) :
    BorrowsOne s act := by
  cases act with
  | borrow ph t new =>
      obtain rfl : ph = .resumed := h
      trivial
  | release t a => trivial

/-- What there is left to do: a lent object comes back, a registered coroutine is notified and
resumes, and a notified one resumes, perhaps only to wait again. -/
def pending (s : Serial Tid Obj) : ℕ :=
  2 * s.now.lent.length + 3 * s.now.waiters.length + 4 * s.now.ready.length

/-- **Every such step leaves less to do.**  A wake-up that finds nothing is paid for by the release
that caused it. -/
theorem pending_lt {s s' : Serial Tid Obj} {act : SerialAct Tid Obj} (hs : Accounted cfg s)
    (hdrain : Drains act) (h : step cfg s act = some s') : s'.pending < s.pending := by
  cases act with
  | borrow ph t new =>
      obtain rfl : ph = .resumed := hdrain
      obtain ⟨hat, hmoved⟩ := moved_borrow hs h
      have hready : (s.now.leave t .resumed).ready.length + 1 = s.now.ready.length :=
        List.length_erase_add_one hat
      cases hmoved with
      | takes hlent hw hr =>
          simp only [pending, hlent, hw, hr, List.length_cons]
          omega
      | ends _ _ _ hfresh => exact absurd rfl hfresh
      | waits hlent hw hr _ =>
          simp only [pending, hlent, hw, hr, List.length_append, List.length_singleton]
          omega
  | release t a =>
      obtain ⟨hmem, hlent, hmoved⟩ := moved_release hs h
      have herase := List.length_erase_add_one hmem
      rcases hmoved with ⟨hw, hw', hr⟩ | ⟨w, hw, hr⟩
      · simp only [pending, hlent, hw, hw', hr]
        omega
      · simp only [pending, hlent, hw, hr, List.length_cons]
        omega

/-- No holder can release and no notified coroutine can resume. -/
def Stopped (cfg : PoolConfig) (s : Serial Tid Obj) : Prop :=
  ∀ act, Drains act → step cfg s act = none

/-- Every holder waits and no coroutine is notified. -/
theorem stopped_of_busy {s : Serial Tid Obj} (hbusy : ∀ x ∈ s.now.lent, ¬ s.now.Idle x.1)
    (hready : s.now.ready = []) : Stopped cfg s := by
  intro act hdrain
  cases act with
  | borrow ph t new =>
      obtain rfl : ph = .resumed := hdrain
      simp [step, FixedObjectPoolCoro.step, State.At, hready]
  | release t a =>
      have hno : ¬ (s.now.Idle t ∧ (t, a) ∈ s.now.lent) := fun h => hbusy _ h.2 h.1
      simp [step, FixedObjectPoolCoro.step, hno]

/-- A holder that does not wait can release. -/
theorem release_possible {s : Serial Tid Obj} {t : Tid} {a : Addr} (hs : Orderly cfg s)
    (hmem : (t, a) ∈ s.now.lent) : step cfg s (.release t a) ≠ none := by
  have hidle : s.now.Idle t := by
    have hapart := hs.apart t (List.mem_map_of_mem hmem)
    obtain ⟨hregister, hnotify⟩ := hs.accounted.settled
    refine ⟨?_, by simp [hnotify]⟩
    simpa [State.slow, hregister, waiting] using hapart
  obtain ⟨xs, hx⟩ := hs.accounted.inv
  obtain ⟨p', xs', hrun, -⟩ := releaseSection_spec hx (lent_perm_erase hmem) id
  have hrun : (releaseSection cfg (some a)).run s.now.pool = .done () p' := hrun
  simp only [step, FixedObjectPoolCoro.step, hidle, hmem, and_self, if_true, hrun,
    Option.bind_eq_bind, Option.bind_some]
  cases s.now.waiters <;> simp

/-- A notified coroutine can resume, whatever the constructor would do. -/
theorem resume_possible {s : Serial Tid Obj} {t : Tid} (hs : Accounted cfg s)
    (hready : t ∈ s.now.ready) :
    ∃ b, ∀ obj, step cfg s (.borrow .resumed t ⟨b, obj⟩) ≠ none := by
  obtain ⟨xs, hx⟩ := hs.inv
  obtain ⟨b, hb⟩ := hx.exists_fresh
  refine ⟨b, fun obj => ?_⟩
  have hnew : s.now.pool.buffer.heap (⟨b, obj⟩ : NewObj Obj).addr = none := hb
  have hout := doTryBorrowOne_outcome hx id hnew
  have hat : s.now.At t .resumed := hready
  simp only [step, FixedObjectPoolCoro.step, hat, hb, Option.isNone_none, and_self, if_true,
    borrowStep, doTryBorrowOne, leave_pool, Option.bind_eq_bind]
  generalize (Pool.doTryBorrowOne cfg id ⟨b, obj⟩).run s.now.pool = out at hout
  cases hout <;> simp [State.onNull, hs.settled.1]

/-- Everything is back and nobody is notified: nobody waits. -/
theorem Accounted.idle {s : Serial Tid Obj} (hs : Accounted cfg s) (hpos : 0 < cfg.maxSize)
    (hlent : s.now.lent = []) (hready : s.now.ready = []) : s.waiting = [] := by
  by_contra hne
  -- all objects are free and none has a wake-up under way
  have hfull := hs.full hne
  rw [hlent, List.length_nil, Nat.add_zero] at hfull
  have hwaiters : s.now.waiters ≠ [] := by
    intro hnil
    exact hne (by simp [waiting, hnil, hready])
  rcases hs.awaited hwaiters with hfree | hwait
  · rw [hready, hs.settled.2, List.length_nil] at hfree
    omega
  · rw [hs.settled.2, List.length_nil, Nat.le_zero, List.length_eq_zero_iff] at hwait
    exact hwaiters hwait

/-- **Where nothing more can happen, nobody waits and everything is back.** -/
theorem Orderly.stopped {s : Serial Tid Obj} (hs : Orderly cfg s) (hpos : 0 < cfg.maxSize)
    (hstop : Stopped cfg s) : s.now.lent = [] ∧ s.waiting = [] := by
  have hlent : s.now.lent = [] := by
    rw [List.eq_nil_iff_forall_not_mem]
    rintro ⟨t, a⟩ hmem
    exact release_possible hs hmem (hstop _ trivial)
  have hready : s.now.ready = [] := by
    rw [List.eq_nil_iff_forall_not_mem]
    intro t ht
    obtain ⟨b, hstep⟩ := resume_possible hs.accounted ht
    exact hstep none (hstop _ rfl)
  exact ⟨hlent, hs.accounted.idle hpos hlent hready⟩

/-- **Once no coroutine comes any more, every one that waits is served.**  After any run in which
each coroutine borrows with empty hands, the holders release and the notified coroutines resume, in
any order, for at most `pending` steps; and when none of these steps is possible any more, no
object is lent, nobody waits, and a coroutine has returned with an object each time it entered the
wait. -/
theorem drained {p : Pool Obj Unit} {s s' : Serial Tid Obj} {as bs : List (SerialAct Tid Obj)}
    (hpos : 0 < cfg.maxSize) (hp : Start cfg p)
    (hone : Runs.Meets (step cfg) BorrowsOne (init p) as)
    (has : Runs.run (step cfg) (init p) as = some s)
    (hdrain : ∀ b ∈ bs, Drains b) (hbs : Runs.run (step cfg) s bs = some s') :
    bs.length ≤ s.pending ∧
      (Stopped cfg s' → s'.now.lent = [] ∧ s'.waiting = [] ∧
        ∀ t, s'.entered.count t = s'.served.count t) := by
  have hs : Orderly cfg s :=
    Runs.meets_invariant orderly_step ⟨accounted_init hp, apart_init p⟩ hone has
  have hkeep : ∀ (s : Serial Tid Obj) act s', Drains act → Orderly cfg s →
      step cfg s act = some s' → Orderly cfg s' :=
    fun s act s' hd hs h => orderly_step s act s' hs hd.borrowsOne h
  constructor
  · have hlower : ∀ (s : Serial Tid Obj) act s', Orderly cfg s → Drains act →
        step cfg s act = some s' → Orderly cfg s' ∧ s'.pending < s.pending :=
      fun s act s' hs hd h => ⟨hkeep s act s' hd hs h, pending_lt hs.accounted hd h⟩
    have hmeets := (Runs.meets_iff_forall hbs).mpr hdrain
    exact Nat.le_of_add_right_le (Runs.meets_length_le hlower hs hmeets hbs)
  · intro hstop
    have hs' : Orderly cfg s' := Runs.run_labels_invariant hkeep hdrain hs hbs
    obtain ⟨hlent, hnil⟩ := hs'.stopped hpos hstop
    refine ⟨hlent, hnil, fun t => ?_⟩
    have hcount := hs'.accounted.tally.count t
    rwa [hnil, List.count_nil, Nat.zero_add] at hcount

/-- After `stolen` the third coroutine releases, the second resumes and releases in turn. -/
def afterwards : List (SerialAct ℕ Unit) :=
  [.release 3 10, .borrow .resumed 2 ⟨20, some ()⟩, .release 2 10]

theorem drained_afterwards :
    ∃ s s', Runs.run (step { maxSize := 1 }) (init (Pool.fresh ())) stolen = some s ∧
      Runs.run (step { maxSize := 1 }) s afterwards = some s' ∧ s.pending = 5 ∧
      s'.entered.count 2 = s'.served.count 2 := by
  obtain ⟨s, hs, s', hs', hpending, hlent, hready⟩ :
      ∃ s, Runs.run (step { maxSize := 1 }) (init (Pool.fresh ())) stolen = some s ∧
        ∃ s', Runs.run (step { maxSize := 1 }) s afterwards = some s' ∧
          s.pending = 5 ∧ s'.now.lent = [] ∧ s'.now.ready = [] :=
    ⟨_, rfl, _, rfl, rfl, rfl, rfl⟩
  have hstop : Stopped { maxSize := 1 } s' := stopped_of_busy (by simp [hlent]) hready
  have hone : Runs.Meets (step { maxSize := 1 }) BorrowsOne (init (Pool.fresh ())) stolen := by
    decide
  have hdrain : ∀ b ∈ afterwards, Drains b := by decide
  have hend := drained Nat.one_pos .fresh hone hs hdrain hs'
  exact ⟨s, s', hs, hs', hpending, (hend.2 hstop).2.2 2⟩

/-- **A coroutine that waits while it holds an object may wait for itself.** -/
theorem holds_and_waits :
    ∃ s, Runs.run (step { maxSize := 1 }) (init (Pool.fresh ()))
        [.borrow .borrowOne 1 ⟨10, some ()⟩, .borrow .borrowOne 1 ⟨20, some ()⟩] = some s ∧
      Stopped { maxSize := 1 } s ∧ s.now.lent = [(1, 10)] ∧ s.now.waiters = [1] := by
  obtain ⟨s, hs, hlent, hwaiters, hready⟩ :
      ∃ s, Runs.run (step { maxSize := 1 }) (init (Pool.fresh ()))
          [.borrow .borrowOne 1 ⟨10, some ()⟩, .borrow .borrowOne 1 ⟨20, some ()⟩] = some s ∧
        s.now.lent = [(1, 10)] ∧ s.now.waiters = [1] ∧ s.now.ready = [] :=
    ⟨_, rfl, rfl, rfl, rfl⟩
  refine ⟨s, hs, stopped_of_busy ?_ hready, hlent, hwaiters⟩
  simp [hlent, State.Idle, State.slow, hwaiters]

end AliMiddleware.FixedObjectPoolCoro.Serial
