import AliMiddleware.Agent.Front
import AliMiddleware.Lib.FilledPool

/-!
# Agent — Survival

What keeps the consumer agent running.  `do_session` catches nothing: an exception of
`handle_request` leaves its coroutine and the `io_context`, and ends the process.  The only one
there can be comes out of `borrow_one`, where an object is constructed.  `provider_info` calls
`fill_full` before the first request, so whatever clients, providers and servers do no session
ever ends that way (`no_session_escapes`); with a pool that is not filled one may
(`escapes_unfilled`).
-/

namespace AliMiddleware.Front

open Bytes Consumer DubboClient PooledCalls FixedObjectPoolCoro

variable {Hid P : Type} [DecidableEq Hid] [DecidableEq P] {asInt : Bytes → Except Exn ℤ}
  {cfg cfg' : PoolConfig}

/-! ### The pool of one provider -/

/-- The pool of the connections to the provider. -/
def poolOf (x : System.State (HttpCall Hid)) : FixedObjectPoolCoro.State (HttpCall Hid) Unit :=
  x.consumer.pool

/-- What a step of a provider's system does to the pool: a call comes to `try_borrow_one`, or
the step is no call's coming there. -/
theorem system_pool {x x' : System.State (HttpCall Hid)} {act : System.Act (HttpCall Hid)}
    (h : System.step HttpCall.body asInt cfg cfg' x act = some x') :
    (∃ ph t new progress, ph ≠ .tryBorrowOne ∧ borrower act = some (t, progress) ∧
        FixedObjectPoolCoro.step cfg (poolOf x) (.borrow ph t new) = some (poolOf x')) ∨
      borrower act = none ∧ (poolOf x' = poolOf x ∨ ∃ a, (∀ ph t new, a ≠ .borrow ph t new) ∧
        FixedObjectPoolCoro.step cfg (poolOf x) a = some (poolOf x')) := by
  cases act with
  | consumer act =>
      simp only [System.step, Option.ite_none_left_eq_some, Option.map_eq_some_iff] at h
      obtain ⟨-, w, hw, rfl⟩ := h
      rcases step_pool hw with ⟨hnone, hpool⟩ | ⟨a, ha, hpool⟩
      · refine .inr ⟨?_, .inl hpool⟩
        cases act with
        | io | env => rfl
        | borrow | register | release | notify => cases hnone
      · cases act with
        | io | env => cases ha
        | borrow ph t new =>
            obtain rfl := Option.some.inj ha
            simp only [PooledCalls.step, Option.ite_none_right_eq_some] at hw
            refine .inl ⟨ph, t, new, ?_⟩
            cases ph with
            | tryBorrowOne => exact absurd rfl hw.1.1
            | borrowOne => exact ⟨.called, by simp, rfl, hpool⟩
            | resumed => exact ⟨.borrows, by simp, rfl, hpool⟩
        | register | release | notify =>
            obtain rfl := Option.some.inj ha
            exact .inr ⟨rfl, .inr ⟨_, by simp, hpool⟩⟩
  | session a act k =>
      simp only [System.step, Option.ite_none_left_eq_some, Option.map_eq_some_iff] at h
      obtain ⟨-, w, hw, rfl⟩ := h
      rcases step_pool hw with ⟨-, hpool⟩ | ⟨a, ha, -⟩
      · exact .inr ⟨rfl, .inl hpool⟩
      · cases ha
  | begin c =>
      simp only [System.step, Option.ite_none_right_eq_some, Option.some.injEq] at h
      obtain ⟨-, rfl⟩ := h
      exact .inr ⟨rfl, .inl rfl⟩
  | dubbo act =>
      simp only [System.step, Option.bind_eq_some_iff] at h
      obtain ⟨d, -, h⟩ := h
      refine .inr ⟨rfl, .inl ?_⟩
      cases hfirst : System.firstBorrow act with
      | none =>
          simp only [hfirst, Option.some.injEq] at h
          obtain rfl := h
          rfl
      | some c =>
          simp only [hfirst, Option.ite_none_right_eq_some, Option.some.injEq] at h
          obtain ⟨-, rfl⟩ := h
          rfl
  | finish c e =>
      simp only [System.step, Option.ite_none_right_eq_some, Option.map_eq_some_iff] at h
      obtain ⟨-, w, hw, rfl⟩ := h
      rcases step_pool hw with ⟨-, hpool⟩ | ⟨a, ha, -⟩
      · exact .inr ⟨rfl, .inl hpool⟩
      · cases ha

/-! ### The invariant -/

/-- The pools stay filled, a call that came to `borrow_one` and has no connection is still there,
and no exception has left a session. -/
structure Safe (cfg : PoolConfig) (s : State Hid P) : Prop where
  filled : ∀ q, ∃ nodes, Filled cfg nodes (poolOf (s.systems q))
  session : ∀ h c, s.calling h = some c → c.call.session = h
  borrows : ∀ h c, s.calling h = some c → c.progress = .borrows →
    c.call ∈ (poolOf (s.systems c.provider)).slow
  alive : ∀ h, (s.sessions h).stage ≠ .escaped

omit [DecidableEq Hid] [DecidableEq P] in
theorem safe_init {p : P → Pool Unit Unit} {news : P → ℕ → NewObj Unit}
    (hp : ∀ q, (fillFull cfg (news q)).run (Pool.fresh ()) = .done () (p q)) :
    Safe cfg (init asInt p : State Hid P) where
  filled q := filled_init (hp q)
  session := by
    intro h c hc
    cases hc
  borrows := by
    intro h c hc
    cases hc
  alive h hc := by cases hc

/-- Only an exception of `handle_request` leaves a session. -/
theorem not_escaped {x x' : HttpSession.State} {act : HttpSession.Act}
    (h : HttpSession.step x act = some x') (hact : act ≠ .handleThrows) :
    x'.stage ≠ .escaped := by
  cases HttpSession.step_stepped h with
  | throws _ => exact absurd rfl hact
  | write _ _ =>
      simp only [ne_eq]
      split_ifs <;> simp
  | request | endOfStream | error | handle | shutdown => simp

omit [DecidableEq P] in
/-- A session takes a step; its call may be over. -/
theorem Safe.session_step {s : State Hid P} (hs : Safe cfg s) {h : Hid} {x : HttpSession.State}
    {act : HttpSession.Act} (hx : HttpSession.step (s.sessions h) act = some x)
    (hact : act ≠ .handleThrows) {calling : Hid → Option (Calling Hid P)}
    (hcalling : ∀ h' c, calling h' = some c → s.calling h' = some c) :
    Safe cfg { s with sessions := Function.update s.sessions h x, calling := calling } where
  filled := hs.filled
  session h' c hc := hs.session h' c (hcalling h' c hc)
  borrows h' c hc := hs.borrows h' c (hcalling h' c hc)
  alive := by
    intro h'
    by_cases hh : h' = h
    · subst hh
      simpa using not_escaped hx hact
    · simpa [hh] using hs.alive h'

/-- A step of a provider's system, which moves the calls `moved` of the sessions. -/
theorem Safe.system_step {s : State Hid P} (hs : Safe cfg s) {q : P}
    {x : System.State (HttpCall Hid)} {a : FixedObjectPoolCoro.Act (HttpCall Hid) Unit}
    (ha : FixedObjectPoolCoro.step cfg (poolOf (s.systems q)) a = some (poolOf x))
    {calling : Hid → Option (Calling Hid P)}
    (hsession : ∀ h c, calling h = some c → c.call.session = h)
    (hborrows : ∀ h c, calling h = some c → c.progress = .borrows →
      (c.provider = q ∧ c.call ∈ (poolOf x).slow) ∨
        s.calling h = some c ∧ ∀ ph new, a ≠ .borrow ph c.call new) :
    Safe cfg { s with systems := Function.update s.systems q x, calling := calling } where
  filled := by
    intro q'
    by_cases hq : q' = q
    · subst hq
      obtain ⟨nodes, hfilled⟩ := hs.filled q'
      exact ⟨nodes, by simpa using filled_step _ _ _ hfilled ha⟩
    · simpa [hq] using hs.filled q'
  session := hsession
  borrows := by
    intro h c hc hprogress
    rcases hborrows h c hc hprogress with ⟨rfl, hslow⟩ | ⟨hold, hother⟩
    · simpa using hslow
    · have hslow := hs.borrows h c hold hprogress
      by_cases hq : c.provider = q
      · subst hq
        obtain ⟨nodes, hfilled⟩ := hs.filled c.provider
        simpa using slow_step hfilled.inv hslow hother ha
      · simpa [hq] using hslow
  alive := hs.alive

/-- A call that waits in `borrow_one` has thrown nothing. -/
theorem Safe.not_throws {s : State Hid P} (hs : Safe cfg s) (h : Hid) :
    step asInt cfg cfg' s (.throws h) = none := by
  rw [Option.eq_none_iff_forall_not_mem]
  intro s' hstep
  simp only [step, Option.mem_def, Option.bind_eq_some_iff, Option.ite_none_right_eq_some] at hstep
  obtain ⟨c, hc, ⟨hprogress, hleft⟩, -⟩ := hstep
  exact hleft.2.2.1 (hs.borrows h c hc hprogress)

/-- **Every step of the middleware keeps its sessions safe.** -/
theorem safe_step (s : State Hid P) (act : Act Hid P) (s' : State Hid P) (hs : Safe cfg s)
    (hstep : step asInt cfg cfg' s act = some s') : Safe cfg s' := by
  cases act with
  | http h act =>
      simp only [step, Option.ite_none_right_eq_some, Option.map_eq_some_iff] at hstep
      obtain ⟨⟨hown, -⟩, x, hx, rfl⟩ := hstep
      refine hs.session_step hx ?_ fun _ _ hc => hc
      rintro rfl
      cases hown
  | query h q =>
      cases hst : (s.sessions h).stage with
      | handling req =>
          simp only [step, hst, Option.ite_none_right_eq_some, Option.some.injEq] at hstep
          obtain ⟨-, rfl⟩ := hstep
          refine ⟨hs.filled, ?_, ?_, hs.alive⟩
          · intro h' c hc
            by_cases hh : h' = h
            · subst hh
              obtain rfl : _ = c := by simpa using hc
              rfl
            · exact hs.session h' c (by simpa [hh] using hc)
          · intro h' c hc hprogress
            by_cases hh : h' = h
            · subst hh
              obtain rfl : _ = c := by simpa using hc
              cases hprogress
            · exact hs.borrows h' c (by simpa [hh] using hc) hprogress
      | reading => simp [step, hst] at hstep
      | writing response => simp [step, hst] at hstep
      | closing => simp [step, hst] at hstep
      | ended => simp [step, hst] at hstep
      | escaped => simp [step, hst] at hstep
  | system q act =>
      simp only [step, Option.bind_eq_some_iff] at hstep
      obtain ⟨x, hx, hs'⟩ := hstep
      rcases system_pool hx with ⟨ph, t, new, progress, hph, hborrower, hpool⟩ | ⟨hborrower, hpool⟩
      · simp only [hborrower, Option.ite_none_right_eq_some, Option.some.injEq] at hs'
        obtain ⟨hc, rfl⟩ := hs'
        obtain ⟨nodes, hfilled⟩ := hs.filled q
        refine hs.system_step hpool ?_ ?_
        · intro h c hcalling
          by_cases hh : h = t.session
          · subst hh
            obtain rfl : _ = c := by simpa using hcalling
            rfl
          · exact hs.session h c (by simpa [hh] using hcalling)
        · intro h c hcalling hprogress
          by_cases hh : h = t.session
          · -- the call that came: it has a connection, or it waits
            subst hh
            obtain rfl : _ = c := by simpa using hcalling
            refine .inl ⟨rfl, (slow_of_borrow hfilled hph hpool).resolve_left ?_⟩
            intro hlent
            rw [poolOf] at hlent
            simp [hlent] at hprogress
          · have hold : s.calling h = some c := by simpa [hh] using hcalling
            refine .inr ⟨hold, ?_⟩
            rintro ph' new' hact
            obtain ⟨-, rfl, -⟩ := FixedObjectPoolCoro.Act.borrow.inj hact
            exact hh (hs.session h c hold).symm
      · simp only [hborrower, Option.some.injEq] at hs'
        obtain rfl := hs'
        rcases hpool with hsame | ⟨a, hnot, hpool⟩
        · refine ⟨?_, hs.session, ?_, hs.alive⟩
          · intro q'
            by_cases hq : q' = q
            · subst hq
              simpa [hsame] using hs.filled q'
            · simpa [hq] using hs.filled q'
          · intro h c hc hprogress
            have hslow := hs.borrows h c hc hprogress
            by_cases hq : c.provider = q
            · subst hq
              simpa [hsame] using hslow
            · simpa [hq] using hslow
        · exact hs.system_step hpool hs.session fun h c hc _ =>
            .inr ⟨hc, fun ph new => hnot ph c.call new⟩
  | answer h =>
      simp only [step, Option.bind_eq_some_iff, Option.ite_none_right_eq_some,
        Option.map_eq_some_iff] at hstep
      obtain ⟨c, hc, -, response, -, x, hx, rfl⟩ := hstep
      refine hs.session_step hx (by simp) ?_
      intro h' c' hc'
      by_cases hh : h' = h
      · subst hh
        simp at hc'
      · simpa [hh] using hc'
  | throws h =>
      rw [hs.not_throws] at hstep
      cases hstep

/-- **No session ends by an exception.**  The pool of each provider is what `fill_full` left.  In
every run of the middleware, whatever clients send, providers answer and connections do: no
exception has left a session, and none is about to. -/
theorem no_session_escapes {p : P → Pool Unit Unit} {news : P → ℕ → NewObj Unit}
    (hp : ∀ q, (fillFull cfg (news q)).run (Pool.fresh ()) = .done () (p q))
    {acts : List (Act Hid P)} {s : State Hid P}
    (hrun : Runs.run (step asInt cfg cfg') (init asInt p) acts = some s) (h : Hid) :
    (s.sessions h).stage ≠ .escaped ∧ step asInt cfg cfg' s (.throws h) = none := by
  have hs : Safe cfg s := Runs.run_invariant safe_step (safe_init hp) hrun
  exact ⟨hs.alive h, hs.not_throws h⟩

/-- Two sessions ask a provider whose pool has one connection: the second waits for it. -/
def sampleWaiting : List (Act ℕ Unit) :=
  let t (h : ℕ) : HttpCall ℕ := ⟨h, 1, Wire.sampleBodies h⟩
  [.http 1 (.read (.request ⟨true, true, Wire.sampleBodies 1⟩)),
   .http 2 (.read (.request ⟨true, true, Wire.sampleBodies 2⟩)), .query 1 (), .query 2 (),
   .system () (.consumer (.borrow .borrowOne (t 1) ⟨30, none⟩)),
   .system () (.consumer (.borrow .borrowOne (t 2) ⟨30, none⟩)),
   .system () (.consumer (.register (t 2)))]

theorem no_session_escapes_sample : ∃ (p : Pool Unit Unit) (s : State ℕ Unit),
    (fillFull { maxSize := 1 } fun _ => ⟨10, some ()⟩).run (Pool.fresh ()) = .done () p ∧
    Runs.run (step sampleAsInt { maxSize := 1 } { maxSize := 1 }) (init sampleAsInt fun _ => p)
        sampleWaiting = some s ∧
      step sampleAsInt { maxSize := 1 } { maxSize := 1 } s (.throws 2) = none := by
  obtain ⟨p, hp, s, hrun⟩ : ∃ p : Pool Unit Unit,
      (fillFull { maxSize := 1 } fun _ => ⟨10, some ()⟩).run (Pool.fresh ()) = .done () p ∧
      ∃ s, Runs.run (step sampleAsInt { maxSize := 1 } { maxSize := 1 })
        (init sampleAsInt fun _ => p) sampleWaiting = some s := ⟨_, rfl, _, rfl⟩
  exact ⟨p, s, hp, hrun, (no_session_escapes (fun _ => hp) hrun 2).2⟩

/-- **With a pool that is not filled a connection that cannot be made ends the process.** -/
theorem escapes_unfilled : ∃ s,
    Runs.run (step sampleAsInt { maxSize := 1 } { maxSize := 1 })
        (init sampleAsInt fun _ => Pool.fresh ())
        ([.http 1 (.read (.request ⟨true, true, Wire.sampleBodies 1⟩)), .query 1 (),
          .system () (.consumer (.borrow .borrowOne ⟨1, 1, Wire.sampleBodies 1⟩ ⟨10, none⟩)),
          .throws 1] : List (Act ℕ Unit)) = some s ∧
      (s.sessions 1).stage = .escaped :=
  ⟨_, rfl, rfl⟩

end AliMiddleware.Front
