import AliMiddleware.Agent.HopService
import AliMiddleware.Lib.DubboServer

/-!
# Agent — System

A consumer agent, a provider agent and its Dubbo server as one system.  The calls of the consumer
agent share the connections to the provider agent; each of these has a session at its other end;
the sessions call `dubbo.async_request`, and these calls share the connections to the Dubbo
server.  Every step is one of `Wire`, of `DubboClient`, or the beginning or the end of a session's
call.

A `DubboCall` is one run of `async_request`.  All sessions run on one thread and the load and the
increment of `curr_request_id` have no suspension between them, so the `n`-th call takes the `n`-th
id.  The call is over when it has left its connection and the pool; it returned if a result is
recorded for it, and otherwise it threw.

The response to a request is a function of its body, `answerTo`: in every run, whatever overlaps
with what, a call of the consumer agent that returns a response returns that one (`response_own`),
where reads and writes take whole texts and no failed connection is borrowed.
-/

namespace AliMiddleware.Consumer

/-- A call with these arguments. -/
def DubboArgs.call (args : DubboArgs) (requestId : UInt64) : DubboClient.Call where
  requestId := requestId
  serviceName := args.interface
  methodName := args.method
  methodArgType := args.parameterTypesString
  methodArg := args.parameter

end AliMiddleware.Consumer

namespace AliMiddleware.System

open Bytes Consumer Provider DubboClient PooledCalls FixedObjectPoolCoro

/-- A call of `async_request`: the connection of the session that makes it, how many calls came
before it, and its arguments, which came in one read. -/
structure DubboCall where
  conn : Addr
  number : ℕ
  args : DubboArgs
  fits : (reqText args).length ≤ bufferSize
  deriving DecidableEq

/-- What the call has for `async_request`, and the id it takes. -/
def DubboCall.call (c : DubboCall) : Call := c.args.call (0x1998427 + c.number).toUInt64

/-- A call under way. -/
structure Running where
  call : DubboCall
  /-- it has come to `borrow_one` -/
  borrows : Bool := false
  deriving DecidableEq

structure State (Tid : Type) where
  consumer : PooledCalls.State Tid (Wire Tid) ProviderInfo.Stage
  dubbo : PooledCalls.State DubboCall (Stream DubboCall) DubboClient.Stage
  /-- the call of the session of each connection -/
  running : Addr → Option Running := fun _ => none
  /-- by how much `curr_request_id` has grown -/
  calls : ℕ := 0

inductive Act (Tid : Type) where
  /-- a step of the calls of the consumer agent -/
  | consumer (act : PooledCalls.Act Tid ProviderInfo.Ev (SessionAct × ℕ))
  /-- a read, a write or the shutdown of a session -/
  | session (a : Addr) (act : SessionAct) (k : ℕ)
  /-- a session calls `async_request`, which takes its request id -/
  | begin (c : DubboCall)
  /-- a step of the calls to the Dubbo server, or of the server -/
  | dubbo (act : PooledCalls.Act DubboCall DubboClient.Ev Bytes)
  /-- `async_request` returns or throws -/
  | finish (c : DubboCall) (e : CallEnd)

/-! ### How a call ends -/

/-- The result that is recorded for a call. -/
def resultOf (d : PooledCalls.State DubboCall (Stream DubboCall) DubboClient.Stage)
    (c : DubboCall) : Option RequestResult :=
  ((d.nodes.flatMap fun b => (d.conns b).returned).lookup c).map Prod.snd

/-- What the call ended with. -/
def EndsWith (result : Option RequestResult) : CallEnd → Prop
  | .returns r => result = some r
  | .throws _ => result = none

instance (result : Option RequestResult) (e : CallEnd) : Decidable (EndsWith result e) :=
  match e with
  | .returns r => inferInstanceAs (Decidable (result = some r))
  | .throws _ => inferInstanceAs (Decidable (result = none))

/-! ### The steps -/

variable {Tid : Type} [DecidableEq Tid]

/-- The call that comes to `borrow_one` in a step. -/
def firstBorrow : PooledCalls.Act DubboCall DubboClient.Ev Bytes → Option DubboCall
  | .borrow .borrowOne c _ => some c
  | _ => none

/-- The sessions' operations are the other side of the consumer's connections. -/
def isEnv : PooledCalls.Act Tid ProviderInfo.Ev (SessionAct × ℕ) → Bool
  | .env _ _ => true
  | _ => false

def isCall : SessionAct → Bool
  | .call _ => true
  | _ => false

section

variable (body : Tid → Bytes) (asInt : Bytes → Except Exn ℤ) (cfg cfg' : PoolConfig)

def init (p : Pool Unit Unit) : State Tid where
  consumer := PooledCalls.init (Wire.exchange body) p
  dubbo := PooledCalls.init (DubboClient.exchange DubboCall.call asInt) (Pool.fresh ())

def step (s : State Tid) : Act Tid → Option (State Tid)
  | .consumer act =>
      if isEnv act then none
      else (PooledCalls.step (Wire.exchange body) cfg s.consumer act).map fun c =>
        { s with consumer := c }
  | .session a act k =>
      if isCall act then none
      else (PooledCalls.step (Wire.exchange body) cfg s.consumer (.env a (act, k))).map fun c =>
        { s with consumer := c }
  | .begin c =>
      if (s.consumer.conns c.conn).session = .calling c.args ∧ s.running c.conn = none ∧
          c.number = s.calls then
        some { s with
          running := Function.update s.running c.conn (some { call := c })
          calls := s.calls + 1 }
      else none
  | .dubbo act =>
      (PooledCalls.step (DubboClient.exchange DubboCall.call asInt) cfg' s.dubbo act).bind fun d =>
        match firstBorrow act with
        | none => some { s with dubbo := d }
        | some c =>
            if s.running c.conn = some { call := c } then
              some { s with
                dubbo := d
                running := Function.update s.running c.conn (some { call := c, borrows := true }) }
            else none
  | .finish c e =>
      if s.running c.conn = some { call := c, borrows := true } ∧ s.dubbo.Left c ∧
          EndsWith (resultOf s.dubbo c) e then
        (PooledCalls.step (Wire.exchange body) cfg s.consumer (.env c.conn (.call e, 0))).map
          fun w => { s with consumer := w, running := Function.update s.running c.conn none }
      else none

/-- The step takes whole texts, borrows no connection on which a call has failed, and a Dubbo
server sends what it should. -/
def Fit (v : Server) (s : State Tid) : Act Tid → Prop
  | .consumer act =>
      PooledCalls.Fit (Wire.exchange body) (.failed ∉ ·) (Wire.known fun _ _ => True) s.consumer act
  | .session a act k => Wire.Known (fun _ _ => True) (act, k) (s.consumer.conns a)
  | .dubbo act =>
      PooledCalls.Fit (DubboClient.exchange DubboCall.call asInt) (.failed ∉ ·) (answering v)
        s.dubbo act
  | .begin _ | .finish _ _ => True

instance (v : Server) (s : State Tid) (act : Act Tid) : Decidable (Fit body asInt v s act) :=
  match act with
  | .consumer act => inferInstanceAs (Decidable (PooledCalls.Fit _ _ _ s.consumer act))
  | .session a act k => inferInstanceAs (Decidable (Wire.Known _ (act, k) (s.consumer.conns a)))
  | .dubbo act => inferInstanceAs (Decidable (PooledCalls.Fit _ _ _ s.dubbo act))
  | .begin _ | .finish _ _ => isTrue trivial

end

/-! ### The halves -/

section

variable {body : Tid → Bytes} {asInt : Bytes → Except Exn ℤ} {cfg cfg' : PoolConfig}

/-- A step of the system is a step of the calls of the consumer agent and the sessions, or none of
them, and the same for the calls to the Dubbo server. -/
theorem step_halves {s s' : State Tid} {act : Act Tid}
    (h : step body asInt cfg cfg' s act = some s') :
    (s'.consumer = s.consumer ∨
        ∃ act, PooledCalls.step (Wire.exchange body) cfg s.consumer act = some s'.consumer) ∧
      (s'.dubbo = s.dubbo ∨
        ∃ act, PooledCalls.step (DubboClient.exchange DubboCall.call asInt) cfg' s.dubbo act =
          some s'.dubbo) := by
  cases act with
  | consumer act =>
      simp only [step, Option.ite_none_left_eq_some, Option.map_eq_some_iff] at h
      obtain ⟨-, w, hw, rfl⟩ := h
      exact ⟨.inr ⟨act, hw⟩, .inl rfl⟩
  | session a act k =>
      simp only [step, Option.ite_none_left_eq_some, Option.map_eq_some_iff] at h
      obtain ⟨-, w, hw, rfl⟩ := h
      exact ⟨.inr ⟨_, hw⟩, .inl rfl⟩
  | begin c =>
      simp only [step, Option.ite_none_right_eq_some, Option.some.injEq] at h
      obtain ⟨-, rfl⟩ := h
      exact ⟨.inl rfl, .inl rfl⟩
  | dubbo act =>
      simp only [step, Option.bind_eq_some_iff] at h
      obtain ⟨d, hd, h⟩ := h
      cases hfirst : firstBorrow act with
      | none =>
          simp only [hfirst, Option.some.injEq] at h
          obtain rfl := h
          exact ⟨.inl rfl, .inr ⟨act, hd⟩⟩
      | some c =>
          simp only [hfirst, Option.ite_none_right_eq_some, Option.some.injEq] at h
          obtain ⟨-, rfl⟩ := h
          exact ⟨.inl rfl, .inr ⟨act, hd⟩⟩
  | finish c e =>
      simp only [step, Option.ite_none_right_eq_some, Option.map_eq_some_iff] at h
      obtain ⟨-, w, hw, rfl⟩ := h
      exact ⟨.inr ⟨_, hw⟩, .inl rfl⟩

/-- **The halves of a run are runs**, so all that is known of those holds in the system. -/
theorem run_halves {p : Pool Unit Unit} {acts : List (Act Tid)} {s : State Tid}
    (hrun : Runs.run (step body asInt cfg cfg') (init body asInt p) acts = some s) :
    (∃ acts, runCalls (Wire.exchange body) cfg p acts = some s.consumer) ∧
      ∃ acts, runCalls (DubboClient.exchange DubboCall.call asInt) cfg' (Pool.fresh ()) acts =
        some s.dubbo := by
  refine Runs.run_invariant (I := fun s : State Tid =>
      Runs.Reachable (PooledCalls.step (Wire.exchange body) cfg)
          (PooledCalls.init (Wire.exchange body) p) s.consumer ∧
        Runs.Reachable (PooledCalls.step (DubboClient.exchange DubboCall.call asInt) cfg')
          (PooledCalls.init (DubboClient.exchange DubboCall.call asInt) (Pool.fresh ())) s.dubbo)
    ?_ ⟨.refl _, .refl _⟩ hrun
  rintro s act s' ⟨hconsumer, hdubbo⟩ hstep
  obtain ⟨hc, hd⟩ := step_halves hstep
  constructor
  · rcases hc with hc | ⟨act, hc⟩
    · rwa [hc]
    · exact hconsumer.snoc hc
  · rcases hd with hd | ⟨act, hd⟩
    · rwa [hd]
    · exact hdubbo.snoc hd

end

/-! ### The invariant -/

/-- The server's result for these arguments. -/
def gives (v : Server) (args : DubboArgs) (result : RequestResult) : Prop :=
  (v.service (payload args.interface args.method args.parameterTypesString
    args.parameter)).result = some result

/-- A session that has a call under way waits for it. -/
def Waits (conns : Addr → Wire Tid) (running : Addr → Option Running) : Prop :=
  ∀ a r, running a = some r → r.call.conn = a ∧ (conns a).session = .calling r.call.args

/-- The connections of both pools are as they should be, and the sessions wait for their calls. -/
structure Inv (body : Tid → Bytes) (asInt : Bytes → Except Exn ℤ) (cfg cfg' : PoolConfig)
    (v : Server) (s : State Tid) : Prop where
  consumer : InvBy cfg (Wire.Answering body (gives v)) s.consumer
  dubbo : InvBy cfg' (Answered DubboCall.call asInt v) s.dubbo
  waits : Waits s.consumer.conns s.running

variable {body : Tid → Bytes} {asInt : Bytes → Except Exn ℤ} {cfg cfg' : PoolConfig} {v : Server}

/-- What one read brings makes a payload of less than 4 GiB. -/
theorem length_call (c : DubboCall) : c.call.payload.length < 2 ^ 32 := by
  have hfits := c.fits
  have htext : (reqText c.args).length = c.args.interface.length + c.args.method.length +
      c.args.parameterTypesString.length + c.args.parameter.length + 3 := by
    rw [reqText_eq]
    simp only [List.length_append, List.length_cons]
    omega
  have hpayload : c.call.payload.length = 37 + (2 * c.args.interface.length +
      c.args.method.length + c.args.parameterTypesString.length + c.args.parameter.length) :=
    length_payload c.call
  rw [bufferSize] at hfits
  omega

omit [DecidableEq Tid] in
theorem inv_init {p : Pool Unit Unit} (hp : Start cfg p) :
    Inv body asInt cfg cfg' v (init body asInt p) where
  consumer := invBy_init Wire.keepsBy_answering hp
  dubbo := invBy_init (keepsBy_answered length_call) .fresh
  waits := by
    intro a r h
    cases h

omit [DecidableEq Tid] in
/-- The call of one session changes. -/
theorem Waits.update {conns : Addr → Wire Tid} {running : Addr → Option Running}
    (h : Waits conns running) {a : Addr} {o : Option Running}
    (ho : ∀ r ∈ o, r.call.conn = a ∧ (conns a).session = .calling r.call.args) :
    Waits conns (Function.update running a o) := by
  intro b r hr
  by_cases hab : b = a
  · subst hab
    rw [Function.update_self] at hr
    exact ho r hr
  · rw [Function.update_of_ne hab] at hr
    exact h b r hr

omit [DecidableEq Tid] in
/-- A recorded result is the server's to the arguments of the call. -/
theorem gives_resultOf (hasInt : ∀ n : ℕ, n < 2 ^ 31 → asInt (decimal n) = .ok n)
    {s : State Tid} (h : Inv body asInt cfg cfg' v s) {c : DubboCall} {result : RequestResult}
    (hr : resultOf s.dubbo c = some result) : gives v c.args result := by
  obtain ⟨⟨header, result'⟩, hlookup, rfl⟩ := Option.map_eq_some_iff.mp hr
  obtain ⟨b, -, hb⟩ := List.mem_flatMap.mp (mem_of_lookup hlookup)
  obtain ⟨o, hserved, hfed⟩ := h.dubbo.conn b
  rw [hserved.returned_eq hasInt hfed] at hb
  obtain ⟨c', -, he⟩ := List.mem_filterMap.mp hb
  obtain ⟨result, hservice, he⟩ := Option.map_eq_some_iff.mp he
  obtain ⟨rfl, -, rfl⟩ : c' = c ∧ v.header c'.call.request = header ∧ result = result' := by
    simpa using he
  exact hservice

/-- The calls of the consumer agent do nothing to the sessions. -/
theorem session_consumer {s s' : PooledCalls.State Tid (Wire Tid) ProviderInfo.Stage}
    {act : PooledCalls.Act Tid ProviderInfo.Ev (SessionAct × ℕ)} (hact : isEnv act = false)
    (h : PooledCalls.step (Wire.exchange body) cfg s act = some s') (a : Addr) :
    (s'.conns a).session = (s.conns a).session := by
  cases act with
  | borrow ph t new =>
      simp only [PooledCalls.step, Option.ite_none_right_eq_some, Option.map_eq_some_iff] at h
      obtain ⟨-, p, -, rfl⟩ := h
      rfl
  | register t =>
      obtain ⟨p, -, rfl⟩ := Option.map_eq_some_iff.mp h
      rfl
  | release t b =>
      simp only [PooledCalls.step, Option.ite_none_right_eq_some, Option.map_eq_some_iff] at h
      obtain ⟨-, p, -, rfl⟩ := h
      rfl
  | notify t =>
      obtain ⟨p, -, rfl⟩ := Option.map_eq_some_iff.mp h
      rfl
  | env b e => cases hact
  | io t ev =>
      simp only [PooledCalls.step, Option.bind_eq_some_iff, Option.map_eq_some_iff,
        Prod.exists] at h
      obtain ⟨st, -, b, -, after, w, hnext, rfl⟩ := h
      simp only [Wire.exchange, Wire.next, Option.map_eq_some_iff, Prod.exists,
        Prod.mk.injEq] at hnext
      obtain ⟨-, c, -, -, rfl⟩ := hnext
      by_cases hab : a = b
      · subst hab
        simp
      · simp [hab]

omit [DecidableEq Tid] in
/-- What is known of an operation that is no call does not depend on what the calls return. -/
theorem known_of_not_call {gives' : DubboArgs → RequestResult → Prop} {act : SessionAct} {k : ℕ}
    {w : Wire Tid} (hact : isCall act = false) (h : Wire.Known (fun _ _ => True) (act, k) w) :
    Wire.Known gives' (act, k) w := by
  cases act with
  | read r => cases r <;> exact h
  | call c => cases hact
  | write error => cases error <;> exact h
  | shutdown error => trivial

omit [DecidableEq Tid] in
/-- A session that waits for its call does nothing else. -/
theorem deliver_calling {w : Wire Tid} {act : SessionAct} {k : ℕ} {args : DubboArgs}
    (hact : isCall act = false) (hs : w.session = .calling args) :
    Wire.deliver (act, k) w = w := by
  refine Wire.deliver_none ?_
  rw [hs]
  cases act with
  | read r => cases r <;> rfl
  | call c => cases hact
  | write error => rfl
  | shutdown error => rfl

theorem step_env {s s' : PooledCalls.State Tid (Wire Tid) ProviderInfo.Stage} {a : Addr}
    {e : SessionAct × ℕ}
    (h : PooledCalls.step (Wire.exchange body) cfg s (.env a e) = some s') :
    s'.conns = Function.update s.conns a (Wire.deliver e (s.conns a)) := by
  simp only [PooledCalls.step, Option.ite_none_right_eq_some, Option.some.injEq] at h
  obtain ⟨-, rfl⟩ := h
  rfl

/-- **A step of the system keeps the invariant.** -/
theorem inv_step (hasInt : ∀ n : ℕ, n < 2 ^ 31 → asInt (decimal n) = .ok n) {s s' : State Tid}
    {act : Act Tid} (h : Inv body asInt cfg cfg' v s) (hfit : Fit body asInt v s act)
    (hstep : step body asInt cfg cfg' s act = some s') : Inv body asInt cfg cfg' v s' := by
  cases act with
  | consumer act =>
      simp only [step, Option.ite_none_left_eq_some, Option.map_eq_some_iff] at hstep
      obtain ⟨hact, w, hw, rfl⟩ := hstep
      have hact : isEnv act = false := by simpa using hact
      have hgiven : PooledCalls.Fit (Wire.exchange body) (.failed ∉ ·) (Wire.known (gives v))
          s.consumer act := by
        refine ⟨hfit.1, ?_⟩
        cases act with
        | env a e => cases hact
        | io t ev => exact hfit.2
        | borrow ph t new => trivial
        | register t => trivial
        | release t a => trivial
        | notify t => trivial
      refine ⟨invBy_step Wire.keepsBy_answering h.consumer hgiven hw, h.dubbo, ?_⟩
      intro a r hr
      change r.call.conn = a ∧ (w.conns a).session = _
      rw [session_consumer hact hw a]
      exact h.waits a r hr
  | session a act k =>
      simp only [step, Option.ite_none_left_eq_some, Option.map_eq_some_iff] at hstep
      obtain ⟨hact, w, hw, rfl⟩ := hstep
      have hact : isCall act = false := by simpa using hact
      have hgiven : PooledCalls.Fit (Wire.exchange body) (.failed ∉ ·) (Wire.known (gives v))
          s.consumer (.env a (act, k)) := ⟨trivial, known_of_not_call hact hfit⟩
      refine ⟨invBy_step Wire.keepsBy_answering h.consumer hgiven hw, h.dubbo, ?_⟩
      intro b r hr
      obtain ⟨hconn, hs⟩ := h.waits b r hr
      refine ⟨hconn, ?_⟩
      change (w.conns b).session = _
      rw [step_env hw]
      by_cases hab : b = a
      · subst hab
        rw [Function.update_self, deliver_calling hact hs, hs]
      · rw [Function.update_of_ne hab, hs]
  | begin c =>
      simp only [step, Option.ite_none_right_eq_some, Option.some.injEq] at hstep
      obtain ⟨⟨hs, -, -⟩, rfl⟩ := hstep
      refine ⟨h.consumer, h.dubbo, h.waits.update ?_⟩
      rintro r ⟨⟩
      exact ⟨rfl, hs⟩
  | dubbo act =>
      simp only [step, Option.bind_eq_some_iff] at hstep
      obtain ⟨d, hd, hs'⟩ := hstep
      have hdubbo := invBy_step (keepsBy_answered length_call) h.dubbo hfit hd
      cases hfirst : firstBorrow act with
      | none =>
          simp only [hfirst, Option.some.injEq] at hs'
          obtain rfl := hs'
          exact ⟨h.consumer, hdubbo, h.waits⟩
      | some c =>
          simp only [hfirst, Option.ite_none_right_eq_some, Option.some.injEq] at hs'
          obtain ⟨hc, rfl⟩ := hs'
          have hwaits := h.waits c.conn _ hc
          refine ⟨h.consumer, hdubbo, h.waits.update ?_⟩
          rintro r ⟨⟩
          exact hwaits
  | finish c e =>
      simp only [step, Option.ite_none_right_eq_some, Option.map_eq_some_iff] at hstep
      obtain ⟨⟨hc, -, hend⟩, w, hw, rfl⟩ := hstep
      have hsession := (h.waits c.conn _ hc).2
      have hgiven : PooledCalls.Fit (Wire.exchange body) (.failed ∉ ·) (Wire.known (gives v))
          s.consumer (.env c.conn (.call e, 0)) := by
        refine ⟨trivial, ?_⟩
        cases e with
        | throws e => trivial
        | returns result =>
            intro args hargs
            obtain rfl : c.args = args := by simpa [hsession] using hargs
            exact gives_resultOf hasInt h hend
      refine ⟨invBy_step Wire.keepsBy_answering h.consumer hgiven hw, h.dubbo, ?_⟩
      intro a r hr
      -- the session that is told has no call any more
      by_cases hac : a = c.conn
      · subst hac
        simp at hr
      · simp only [Function.update_of_ne hac] at hr
        change r.call.conn = a ∧ (w.conns a).session = _
        rw [step_env hw, Function.update_of_ne hac]
        exact h.waits a r hr

/-! ### Responses -/

/-- The response to a body, where there is one. -/
def answerTo (v : Server) (text : Bytes) : Option Bytes := do
  let req ← Wire.reqOf text
  let result ← (v.service (payload req.interface req.method req.parameterTypesString
    req.parameter)).result
  respBody result.value

omit [DecidableEq Tid] in
/-- What is returned on a connection is the response to the body of the call. -/
theorem Inv.answerTo_eq {s : State Tid} (h : Inv body asInt cfg cfg' v s) {a : Addr} {t : Tid}
    {value : Bytes} (hv : (t, .ok value) ∈ (s.consumer.conns a).conn.returned) :
    answerTo v (body t) = some value := by
  obtain ⟨o, hanswering⟩ := h.consumer.conn a
  obtain ⟨req, result, hreq, hgives, -, hbody⟩ := hanswering.own t value hv
  rw [gives] at hgives
  simp [answerTo, hreq, hgives, hbody]

theorem inv_run (hasInt : ∀ n : ℕ, n < 2 ^ 31 → asInt (decimal n) = .ok n)
    {p : Pool Unit Unit} (hp : Start cfg p) {acts : List (Act Tid)} {s : State Tid}
    (hfit : Runs.Meets (step body asInt cfg cfg') (Fit body asInt v) (init body asInt p) acts)
    (hrun : Runs.run (step body asInt cfg cfg') (init body asInt p) acts = some s) :
    Inv body asInt cfg cfg' v s :=
  Runs.meets_invariant (fun _ _ _ hi hok hstep => inv_step hasInt hi hok hstep) (inv_init hp) hfit
    hrun

/-- The response to a body whose arguments can be sent is the answer to these arguments. -/
theorem answerTo_clean {text : Bytes} {args : DubboArgs}
    (hargs : httpPayloadToDubboParameters text = .ok args) (hclean : args.Clean)
    (hlen : (reqText args).length < bufferSize) :
    answerTo v text = (v.service (payload args.interface args.method args.parameterTypesString
      args.parameter)).result.bind fun result => respBody result.value := by
  simp [answerTo, Wire.reqOf, hargs, reqArgs_reqText hclean hlen]

/-! ### A sample -/

/-- The calls of two sessions. -/
def sampleDubboCall (conn number : ℕ) (second : Bool) : DubboCall where
  conn := conn
  number := number
  args := ⟨ascii "IHash", ascii "hash", ascii "Ljava/lang/String;", [if second then 50 else 49]⟩
  fits := by cases second <;> decide

/-- **A failed connection brings the response of another call**: the read of the first call
fails, its connection is borrowed by the second, and the session answers the first request. -/
theorem response_of_another : ∃ s, Runs.run
      (step Wire.sampleBodies sampleAsInt { maxSize := 1 } { maxSize := 1 })
      (init Wire.sampleBodies sampleAsInt (Pool.fresh ()))
      (let c := sampleDubboCall 10 0 false
      [.consumer (.borrow .borrowOne 1 ⟨10, some ()⟩), .consumer (.io 1 (.done 0)),
       .session 10 (.read (.bytes (reqText c.args))) 0, .begin c,
       .dubbo (.borrow .borrowOne c ⟨30, some ()⟩), .dubbo (.io c .done), .dubbo (.io c .done),
       .consumer (.io 1 (.error 0)), .consumer (.release 1 10), .consumer (.notify 1),
       .consumer (.borrow .borrowOne 2 ⟨20, none⟩), .consumer (.io 2 (.done 0)),
       .dubbo (.env 30 (sampleServer.replyFrame c.call.request)), .dubbo (.io c .done),
       .dubbo (.io c .done), .dubbo (.release c 30), .dubbo (.notify c),
       .finish c (.returns ⟨20, 1, [sampleByte c.call.payload]⟩), .session 10 (.write none) 0,
       .consumer (.io 2 (.done 1))]) = some s ∧
    (2, .ok [186]) ∈ (s.consumer.conns 10).conn.returned ∧
    answerTo sampleServer (Wire.sampleBodies 2) ≠ some [186] :=
  ⟨_, rfl, by decide +kernel, by decide +kernel⟩

end AliMiddleware.System
