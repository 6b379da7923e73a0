import AliMiddleware.Agent.ConsumerSession
import AliMiddleware.Agent.System

/-!
# Agent — Front

The whole of the middleware: the sessions of the consumer agent with its HTTP clients
(`do_session` and `handle_request`, `src/consumer_agent.cc`) over the systems of several providers.
A session that has read a POST request asks the selector for a provider, which may be any of them,
and calls its `async_request`; the response, or the exception, is what `handle_request` ends with.
An `HttpCall` is one such call.

With every session, every call and every provider overlapping in any order, each response with
status 200 that a session gives has the body that a provider's server answers to the request of the
same number (`http_response_own`).
-/

namespace AliMiddleware.Front

open Bytes Consumer DubboClient PooledCalls FixedObjectPoolCoro

/-! ### The calls of the sessions -/

/-- A call of `async_request` for the request of a session, with its number and its body. -/
structure HttpCall (Hid : Type) where
  session : Hid
  number : ℕ
  body : Bytes
  deriving DecidableEq

/-- How far a call is. -/
inductive Progress where
  | called
  /-- it has come to `borrow_one` -/
  | borrows
  /-- it has had a connection -/
  | borrowed
  deriving DecidableEq

/-- A call under way, and its provider. -/
structure Calling (Hid P : Type) where
  provider : P
  call : HttpCall Hid
  progress : Progress
  deriving DecidableEq

structure State (Hid P : Type) where
  sessions : Hid → HttpSession.State := fun _ => {}
  /-- of each provider -/
  systems : P → System.State (HttpCall Hid)
  calling : Hid → Option (Calling Hid P) := fun _ => none

inductive Act (Hid P : Type) where
  /-- a read, a write or the shutdown of a session, or an answer of `handle_request` for which no
  provider was asked -/
  | http (h : Hid) (act : HttpSession.Act)
  /-- `query_once` chooses the provider `q` for the request of a session -/
  | query (h : Hid) (q : P)
  | system (q : P) (act : System.Act (HttpCall Hid))
  /-- `async_request` returns -/
  | answer (h : Hid)
  /-- `borrow_one` throws -/
  | throws (h : Hid)

/-- What `handle_request` makes of a response. -/
def answerOf : Response → ℕ × Bytes
  | .ok body => (200, body)
  | .serverError => (500, ascii "server error")

section

variable {Hid P : Type} [DecidableEq Hid] [DecidableEq P]

/-- The response of a call that had a connection. -/
def responseOf
    (c : PooledCalls.State (HttpCall Hid) (Wire (HttpCall Hid)) ProviderInfo.Stage)
    (t : HttpCall Hid) : Option Response :=
  match ProviderInfo.start t.body with
  | none => some .serverError
  | some _ => (c.nodes.flatMap fun a => (c.conns a).conn.returned).lookup t

/-- The answer is not that of a provider. -/
def isOwn : HttpSession.Act → Bool
  | .handle (some _) | .handleThrows => false
  | .handle none | .read _ | .write _ | .shutdown _ => true

/-- The call that comes to `try_borrow_one` in a step, and how far it must be. -/
def borrower : System.Act (HttpCall Hid) → Option (HttpCall Hid × Progress)
  | .consumer (.borrow .resumed t _) => some (t, .borrows)
  | .consumer (.borrow _ t _) => some (t, .called)
  | _ => none

variable (asInt : Bytes → Except Exn ℤ) (cfg cfg' : PoolConfig)

def init (p : P → Pool Unit Unit) : State Hid P where
  systems q := System.init HttpCall.body asInt (p q)

def step (s : State Hid P) : Act Hid P → Option (State Hid P)
  | .http h act =>
      if isOwn act ∧ s.calling h = none then
        (HttpSession.step (s.sessions h) act).map fun x =>
          { s with sessions := Function.update s.sessions h x }
      else none
  | .query h q =>
      match (s.sessions h).stage with
      | .handling req =>
          if req.isPost ∧ s.calling h = none then
            some { s with
              calling := Function.update s.calling h
                (some ⟨q, ⟨h, (s.sessions h).requests.length, req.body⟩, .called⟩) }
          else none
      | _ => none
  | .system q act =>
      (System.step HttpCall.body asInt cfg cfg' (s.systems q) act).bind fun x =>
        match borrower act with
        | none => some { s with systems := Function.update s.systems q x }
        | some (t, progress) =>
            if s.calling t.session = some ⟨q, t, progress⟩ then
              some { s with
                systems := Function.update s.systems q x
                calling := Function.update s.calling t.session (some ⟨q, t,
                  if t ∈ x.consumer.pool.lent.map Prod.fst then .borrowed else .borrows⟩) }
            else none
  | .answer h =>
      (s.calling h).bind fun c =>
        if c.progress = .borrowed ∧ (s.systems c.provider).consumer.Left c.call then
          (responseOf (s.systems c.provider).consumer c.call).bind fun response =>
            (HttpSession.step (s.sessions h) (.handle (some (answerOf response)))).map fun x =>
              { s with
                sessions := Function.update s.sessions h x
                calling := Function.update s.calling h none }
        else none
  | .throws h =>
      (s.calling h).bind fun c =>
        if c.progress = .borrows ∧ (s.systems c.provider).consumer.Left c.call then
          (HttpSession.step (s.sessions h) .handleThrows).map fun x =>
            { s with
              sessions := Function.update s.sessions h x
              calling := Function.update s.calling h none }
        else none

/-- The step of a provider's system is as it should be. -/
def Fit (v : P → Server) (s : State Hid P) : Act Hid P → Prop
  | .system q act => System.Fit HttpCall.body asInt (v q) (s.systems q) act
  | .http _ _ | .query _ _ | .answer _ | .throws _ => True

instance (v : P → Server) (s : State Hid P) (act : Act Hid P) : Decidable (Fit asInt v s act) :=
  match act with
  | .system q act => inferInstanceAs (Decidable (System.Fit HttpCall.body asInt (v q) _ act))
  | .http _ _ | .query _ _ | .answer _ | .throws _ => isTrue trivial

end

/-! ### The invariant -/

section

variable {Hid P : Type}

/-- An answer with status 200 is that of a provider's server to the body of the request. -/
def Right (v : P → Server) (req : HttpRequest) (answer : Option (ℕ × Bytes)) : Prop :=
  ∀ body, answer = some (200, body) → ∃ q, System.answerTo (v q) req.body = some body

structure Inv (asInt : Bytes → Except Exn ℤ) (cfg cfg' : PoolConfig) (v : P → Server)
    (s : State Hid P) : Prop where
  systems : ∀ q, System.Inv HttpCall.body asInt cfg cfg' (v q) (s.systems q)
  calling : ∀ h c, s.calling h = some c → c.call.session = h ∧
    ∃ req, (s.sessions h).stage = .handling req ∧ req.body = c.call.body
  sessions : ∀ h, HttpSession.AnsweredBy (Right v) (s.sessions h)

variable [DecidableEq Hid] [DecidableEq P] {asInt : Bytes → Except Exn ℤ}
  {cfg cfg' : PoolConfig} {v : P → Server}

omit [DecidableEq P] in
/-- What a call returns with status 200 is the answer to its body. -/
theorem right_responseOf {q : P} {x : System.State (HttpCall Hid)}
    (h : System.Inv HttpCall.body asInt cfg cfg' (v q) x) {t : HttpCall Hid} {response : Response}
    (hr : responseOf x.consumer t = some response) {req : HttpRequest} (hreq : req.body = t.body) :
    Right v req (some (answerOf response)) := by
  rintro body hbody
  cases response with
  | serverError => simp [answerOf] at hbody
  | ok value =>
      obtain rfl : value = body := by simpa [answerOf] using hbody
      refine ⟨q, ?_⟩
      rw [hreq]
      have hlookup : (x.consumer.nodes.flatMap fun a =>
          (x.consumer.conns a).conn.returned).lookup t = some (.ok value) := by
        rw [responseOf] at hr
        cases hstart : ProviderInfo.start t.body with
        | none => simp [hstart] at hr
        | some st => simpa [hstart] using hr
      obtain ⟨a, -, ha⟩ := List.mem_flatMap.mp (mem_of_lookup hlookup)
      exact h.answerTo_eq ha

omit [DecidableEq Hid] [DecidableEq P] in
theorem inv_init {p : P → Pool Unit Unit} (hp : ∀ q, Start cfg (p q)) :
    Inv asInt cfg cfg' v (init asInt p : State Hid P) where
  systems q := System.inv_init (hp q)
  calling := by
    intro h c hc
    cases hc
  sessions _ := HttpSession.answeredBy_start

omit [DecidableEq P] in
/-- A session that has no call, or whose call is over, takes a step. -/
theorem Inv.session {s : State Hid P} (hi : Inv asInt cfg cfg' v s) {h : Hid}
    {x : HttpSession.State} {act : HttpSession.Act}
    (hx : HttpSession.step (s.sessions h) act = some x)
    (hA : ∀ req answer, (s.sessions h).stage = .handling req → act = .handle answer →
      Right v req answer) :
    Inv asInt cfg cfg' v { s with
      sessions := Function.update s.sessions h x
      calling := Function.update s.calling h none } where
  systems := hi.systems
  calling := by
    intro h' c hc
    by_cases hh : h' = h
    · subst hh
      simp at hc
    · simp only [Function.update_of_ne hh] at hc ⊢
      exact hi.calling h' c hc
  sessions := by
    intro h'
    by_cases hh : h' = h
    · subst hh
      simpa using (hi.sessions h').step hx hA
    · simpa [hh] using hi.sessions h'

omit [DecidableEq P] in
/-- The call of one session changes. -/
theorem Inv.update {s : State Hid P} (hi : Inv asInt cfg cfg' v s) {h : Hid} {c : Calling Hid P}
    (hc : c.call.session = h ∧
      ∃ req, (s.sessions h).stage = .handling req ∧ req.body = c.call.body) :
    Inv asInt cfg cfg' v { s with calling := Function.update s.calling h (some c) } where
  systems := hi.systems
  calling := by
    intro h' c' hc'
    by_cases hh : h' = h
    · subst hh
      simp only [Function.update_self, Option.some.injEq] at hc'
      exact hc' ▸ hc
    · simp only [Function.update_of_ne hh] at hc'
      exact hi.calling h' c' hc'
  sessions := hi.sessions

omit [DecidableEq Hid] in
/-- A step of the system of one provider. -/
theorem Inv.system {s : State Hid P} (hi : Inv asInt cfg cfg' v s) {q : P}
    {x : System.State (HttpCall Hid)} (hx : System.Inv HttpCall.body asInt cfg cfg' (v q) x) :
    Inv asInt cfg cfg' v { s with systems := Function.update s.systems q x } where
  systems := by
    intro q'
    by_cases hq : q' = q
    · subst hq
      simpa using hx
    · simpa [hq] using hi.systems q'
  calling := hi.calling
  sessions := hi.sessions

/-- **A step of the middleware keeps the invariant.** -/
theorem inv_step (hasInt : ∀ n : ℕ, n < 2 ^ 31 → asInt (decimal n) = .ok n) {s s' : State Hid P}
    {act : Act Hid P} (hi : Inv asInt cfg cfg' v s) (hfit : Fit asInt v s act)
    (hstep : step asInt cfg cfg' s act = some s') : Inv asInt cfg cfg' v s' := by
  cases act with
  | http h act =>
      simp only [step, Option.ite_none_right_eq_some, Option.map_eq_some_iff] at hstep
      obtain ⟨⟨hown, hnone⟩, x, hx, rfl⟩ := hstep
      have hself : Function.update s.calling h none = s.calling := by
        rw [← hnone, Function.update_eq_self]
      have hsession := hi.session hx ?_
      · rwa [hself] at hsession
      · rintro req answer - rfl
        cases answer with
        | none => simp [Right]
        | some r => cases hown
  | query h q =>
      cases hst : (s.sessions h).stage with
      | handling req =>
          simp only [step, hst, Option.ite_none_right_eq_some, Option.some.injEq] at hstep
          obtain ⟨-, rfl⟩ := hstep
          exact hi.update ⟨rfl, req, hst, rfl⟩
      | reading => simp [step, hst] at hstep
      | writing response => simp [step, hst] at hstep
      | closing => simp [step, hst] at hstep
      | ended => simp [step, hst] at hstep
      | escaped => simp [step, hst] at hstep
  | system q act =>
      simp only [step, Option.bind_eq_some_iff] at hstep
      obtain ⟨x, hx, hs'⟩ := hstep
      have hsystem := System.inv_step hasInt (hi.systems q) hfit hx
      cases hborrower : borrower act with
      | none =>
          simp only [hborrower, Option.some.injEq] at hs'
          obtain rfl := hs'
          exact hi.system hsystem
      | some b =>
          obtain ⟨t, progress⟩ := b
          simp only [hborrower, Option.ite_none_right_eq_some, Option.some.injEq] at hs'
          obtain ⟨hc, rfl⟩ := hs'
          have hcall := hi.calling t.session _ hc
          exact (hi.system hsystem).update hcall
  | answer h =>
      simp only [step, Option.bind_eq_some_iff, Option.ite_none_right_eq_some,
        Option.map_eq_some_iff] at hstep
      obtain ⟨c, hc, -, response, hresponse, x, hx, rfl⟩ := hstep
      refine hi.session hx ?_
      rintro req answer hst ⟨⟩
      obtain ⟨-, req', hst', hbody⟩ := hi.calling h c hc
      obtain rfl : req' = req := by simpa [hst'] using hst
      exact right_responseOf (hi.systems c.provider) hresponse hbody
  | throws h =>
      simp only [step, Option.bind_eq_some_iff, Option.ite_none_right_eq_some,
        Option.map_eq_some_iff] at hstep
      obtain ⟨c, hc, -, x, hx, rfl⟩ := hstep
      refine hi.session hx ?_
      rintro req answer - ⟨⟩

theorem inv_run (hasInt : ∀ n : ℕ, n < 2 ^ 31 → asInt (decimal n) = .ok n)
    {p : P → Pool Unit Unit} (hp : ∀ q, Start cfg (p q)) {acts : List (Act Hid P)}
    {s : State Hid P} (hfit : Runs.Meets (step asInt cfg cfg') (Fit asInt v) (init asInt p) acts)
    (hrun : Runs.run (step asInt cfg cfg') (init asInt p) acts = some s) :
    Inv asInt cfg cfg' v s :=
  Runs.meets_invariant (fun _ _ _ hi hok hstep => inv_step hasInt hi hok hstep) (inv_init hp) hfit
    hrun

omit [DecidableEq Hid] [DecidableEq P] in
/-- A response with status 200 is to a POST request, keeps alive what the request does, and has
the body that a provider's server answers. -/
theorem Inv.answered {s : State Hid P} (hi : Inv asInt cfg cfg' v s) {h : Hid} {i : ℕ}
    {response : HttpResponse} {written : Bool} {req : HttpRequest}
    (hresponse : (s.sessions h).responses[i]? = some (response, written))
    (hreq : (s.sessions h).requests[i]? = some req) (hok : response.result = 200) :
    req.isPost = true ∧ ∃ q body, response = ⟨200, req.keepAlive, body⟩ ∧
      System.answerTo (v q) req.body = some body := by
  obtain ⟨answer, rfl, hright⟩ := (hi.sessions h).response hresponse hreq
  cases hpost : req.isPost with
  | false => simp [handleRequest, hpost, resp400] at hok
  | true =>
      cases answer with
      | none => simp [handleRequest, hpost, resp400] at hok
      | some r =>
          obtain ⟨result, body⟩ := r
          obtain rfl : result = 200 := by simpa [handleRequest, hpost] using hok
          obtain ⟨q, hq⟩ := hright body rfl
          exact ⟨rfl, q, body, by simp [handleRequest, hpost], hq⟩

end

end AliMiddleware.Front
