import AliMiddleware.Support.Bytes
import AliMiddleware.Support.Runs

/-!
# Agent — ConsumerSession

`consumer::agent::do_session` (`src/consumer_agent.cc`) under everything its operations can do: a
read brings a request, which may have been in the session's buffer since before, or the end of
the stream, or an error; `handle_request` answers, or throws; a write succeeds or fails.  A read
error ends the session.  The error of a write is not looked at: after a response with keep-alive
the session reads on whether or not the response was written.

The responses are always written one per request and in order (`Did.inOrder`), each with the answer
that was given to its request (`AnsweredBy.response`).  A request is handled only after responses
that were all written, with keep-alive, exactly when no read brings a request after a write that
failed (`discipline_iff`).
-/

namespace AliMiddleware.Consumer

/-! ### Requests and responses -/

/-- `http::request<http::string_body>` -/
structure HttpRequest where
  /-- `method() == http::verb::post` -/
  isPost : Bool
  keepAlive : Bool
  body : Bytes
  deriving DecidableEq

/-- `http::response<http::string_body>` -/
structure HttpResponse where
  result : ℕ
  keepAlive : Bool
  body : Bytes
  deriving DecidableEq

def resp400 : HttpResponse := ⟨400, false, ascii "bad request"⟩

/-- `handle_request`, where `answer` is what the provider that `query_once` chose answers, and
`none` when it chose none. -/
def handleRequest (req : HttpRequest) (answer : Option (ℕ × Bytes)) : HttpResponse :=
  if req.isPost = false then resp400
  else match answer with
    | none => resp400
    | some (result, body) => ⟨result, if result = 500 then false else req.keepAlive, body⟩

/-! ### A session -/

namespace HttpSession

/-- How `http::async_read` ends. -/
inductive ReadEnd where
  | request (req : HttpRequest)
  | endOfStream
  | error (what : String)

inductive Stage where
  | reading
  | handling (req : HttpRequest)
  | writing (response : HttpResponse)
  /-- past the loop, before the shutdown -/
  | closing
  | ended
  /-- an exception has left `do_session` -/
  | escaped
  deriving DecidableEq

/-- What an operation of a session ends in. -/
inductive Act where
  | read (r : ReadEnd)
  | handle (answer : Option (ℕ × Bytes))
  /-- `handle_request` throws -/
  | handleThrows
  | write (error : Option String)
  | shutdown (error : Option String)

/-- A session, with what it has done. -/
structure State where
  stage : Stage := .reading
  /-- handed to `handle_request` -/
  requests : List HttpRequest := []
  /-- given to `async_write`, and whether they were written -/
  responses : List (HttpResponse × Bool) := []
  deriving DecidableEq

def step (s : State) (act : Act) : Option State :=
  match s.stage, act with
  | .reading, .read (.request req) =>
      some { s with stage := .handling req, requests := s.requests ++ [req] }
  | .reading, .read .endOfStream => some { s with stage := .closing }
  | .reading, .read (.error _) => some { s with stage := .ended }
  | .handling req, .handle answer => some { s with stage := .writing (handleRequest req answer) }
  | .handling _, .handleThrows => some { s with stage := .escaped }
  | .writing response, .write error => some { s with
      stage := if response.keepAlive then .reading else .closing
      responses := s.responses ++ [(response, error.isNone)] }
  | .closing, .shutdown _ => some { s with stage := .ended }
  | _, _ => none

/-! ### What a session should do -/

/-- Each response answers the request of the same number; at most one has still no response. -/
def InOrder (s : State) : Prop :=
  s.responses.length ≤ s.requests.length ∧ s.requests.length ≤ s.responses.length + 1 ∧
    ∀ (i : ℕ) (response : HttpResponse) (written : Bool),
      s.responses[i]? = some (response, written) →
        ∃ (req : HttpRequest) (answer : Option (ℕ × Bytes)),
          s.requests[i]? = some req ∧ response = handleRequest req answer

/-- Before each further request every response was written, with keep-alive. -/
def Careful (s : State) : Prop :=
  ∀ i, i + 1 < s.requests.length →
    ∃ response : HttpResponse, s.responses[i]? = some (response, true) ∧ response.keepAlive = true

/-- A response was not written. -/
def Failed (s : State) : Prop := ∃ response, (response, false) ∈ s.responses

/-! ### The steps -/

/-- A request that was answered. -/
structure Exchange where
  req : HttpRequest
  answer : Option (ℕ × Bytes)
  written : Bool

def Exchange.response (e : Exchange) : HttpResponse := handleRequest e.req e.answer

/-- The loop has not been left. -/
def Stage.Looping : Stage → Prop
  | .reading | .handling _ | .writing _ | .escaped => True
  | .closing | .ended => False

section

variable (A : HttpRequest → Option (ℕ × Bytes) → Prop)

/-- The request that has still no response; if one is being written, its answer is as `A` says. -/
inductive Pending : Stage → List HttpRequest → Prop where
  | reading : Pending .reading []
  | handling (req : HttpRequest) : Pending (.handling req) [req]
  | writing {req : HttpRequest} {answer : Option (ℕ × Bytes)} (as : A req answer) :
      Pending (.writing (handleRequest req answer)) [req]
  | closing : Pending .closing []
  | ended : Pending .ended []
  | escaped (req : HttpRequest) : Pending .escaped [req]

/-- What a session has done: exchanges, all with keep-alive but for the last one, and a request
that has still no response.  Every answer, to its request, is as `A` says. -/
structure Did (s : State) (done : List Exchange) (pending : List HttpRequest) : Prop where
  responses : s.responses = done.map fun e => (e.response, e.written)
  requests : s.requests = done.map Exchange.req ++ pending
  pending : Pending A s.stage pending
  answers : ∀ e ∈ done, A e.req e.answer
  before : ∀ e ∈ done.dropLast, e.response.keepAlive = true
  looping : s.stage.Looping → ∀ e ∈ done, e.response.keepAlive = true

/-- A session whose every answer, to its request, is as `A` says. -/
def AnsweredBy (s : State) : Prop := ∃ done pending, Did A s done pending

end

variable {A : HttpRequest → Option (ℕ × Bytes) → Prop}

/-- What a step does. -/
inductive Stepped (s : State) : Act → State → Prop where
  | request (stage : s.stage = .reading) (req : HttpRequest) :
      Stepped s (.read (.request req))
        { s with stage := .handling req, requests := s.requests ++ [req] }
  | endOfStream (stage : s.stage = .reading) :
      Stepped s (.read .endOfStream) { s with stage := .closing }
  | error (stage : s.stage = .reading) (what : String) :
      Stepped s (.read (.error what)) { s with stage := .ended }
  | handle {req : HttpRequest} (stage : s.stage = .handling req) (answer : Option (ℕ × Bytes)) :
      Stepped s (.handle answer) { s with stage := .writing (handleRequest req answer) }
  | throws {req : HttpRequest} (stage : s.stage = .handling req) :
      Stepped s .handleThrows { s with stage := .escaped }
  | write {response : HttpResponse} (stage : s.stage = .writing response)
      (error : Option String) : Stepped s (.write error) { s with
        stage := if response.keepAlive then .reading else .closing
        responses := s.responses ++ [(response, error.isNone)] }
  | shutdown (stage : s.stage = .closing) (error : Option String) :
      Stepped s (.shutdown error) { s with stage := .ended }

theorem step_stepped {s s' : State} {act : Act} (h : step s act = some s') : Stepped s act s' := by
  simp only [step] at h
  split at h
  · next req hst =>
      cases h
      exact .request hst req
  · next hst =>
      cases h
      exact .endOfStream hst
  · next what hst =>
      cases h
      exact .error hst what
  · next req answer hst =>
      cases h
      exact .handle hst answer
  · next req hst =>
      cases h
      exact .throws hst
  · next response error hst =>
      cases h
      exact .write hst error
  · next error hst =>
      cases h
      exact .shutdown hst error
  · cases h

/-- **A session is answered as its `handle_request` is.** -/
theorem AnsweredBy.step {s s' : State} {act : Act} (h : AnsweredBy A s)
    (hs : step s act = some s')
    (hA : ∀ req answer, s.stage = .handling req → act = .handle answer → A req answer) :
    AnsweredBy A s' := by
  obtain ⟨done, pending, hresponses, hrequests, hpending, hanswers, hbefore, hlooping⟩ := h
  cases step_stepped hs with
  | request hst req =>
      rw [hst] at hpending hlooping
      cases hpending
      refine ⟨done, [req], hresponses, ?_, .handling req, hanswers, hbefore,
        fun _ => hlooping trivial⟩
      rw [hrequests, List.append_nil]
  | endOfStream hst =>
      rw [hst] at hpending
      cases hpending
      exact ⟨done, [], hresponses, hrequests, .closing, hanswers, hbefore, False.elim⟩
  | error hst what =>
      rw [hst] at hpending
      cases hpending
      exact ⟨done, [], hresponses, hrequests, .ended, hanswers, hbefore, False.elim⟩
  | @handle req hst answer =>
      have hanswer := hA req answer hst rfl
      rw [hst] at hpending hlooping
      cases hpending
      exact ⟨done, [req], hresponses, hrequests, .writing hanswer, hanswers, hbefore,
        fun _ => hlooping trivial⟩
  | @throws req hst =>
      rw [hst] at hpending hlooping
      cases hpending
      exact ⟨done, [req], hresponses, hrequests, .escaped req, hanswers, hbefore,
        fun _ => hlooping trivial⟩
  | @write response hst error =>
      rw [hst] at hpending hlooping
      cases hpending with
      | @writing req answer hanswer =>
          -- the exchange is over
          have hall := hlooping trivial
          refine ⟨done ++ [⟨req, answer, error.isNone⟩], [], ?_, ?_, ?_, ?_, ?_, ?_⟩
          · simp [hresponses, Exchange.response]
          · simp [hrequests]
          · cases hkeep : (handleRequest req answer).keepAlive with
            | true => simpa [hkeep] using Pending.reading
            | false => simpa [hkeep] using Pending.closing
          · intro e he
            rcases List.mem_append.mp he with hold | hnew
            · exact hanswers e hold
            · obtain rfl := List.mem_singleton.mp hnew
              exact hanswer
          · rwa [List.dropLast_concat]
          · intro hloop e he
            rcases List.mem_append.mp he with hold | hnew
            · exact hall e hold
            · obtain rfl := List.mem_singleton.mp hnew
              cases hkeep : (handleRequest req answer).keepAlive with
              | true => exact hkeep
              | false => simp [hkeep, Stage.Looping] at hloop
  | shutdown hst error =>
      rw [hst] at hpending
      cases hpending
      exact ⟨done, [], hresponses, hrequests, .ended, hanswers, hbefore, False.elim⟩

theorem answeredBy_start : AnsweredBy A {} :=
  ⟨[], [], rfl, rfl, .reading, by simp, by simp, by simp⟩

theorem Pending.length_le {stage : Stage} {pending : List HttpRequest}
    (h : Pending A stage pending) : pending.length ≤ 1 := by
  cases h <;> simp

/-- Each response is to the request of the same number, with an answer as `A` says. -/
theorem Did.response {s : State} {done : List Exchange} {pending : List HttpRequest}
    (h : Did A s done pending) {i : ℕ} {response : HttpResponse} {written : Bool}
    (hi : s.responses[i]? = some (response, written)) :
    ∃ req answer, s.requests[i]? = some req ∧ response = handleRequest req answer ∧
      A req answer := by
  rw [h.responses, List.getElem?_map, Option.map_eq_some_iff] at hi
  obtain ⟨e, he, hresponse⟩ := hi
  obtain ⟨rfl, -⟩ := Prod.mk.inj hresponse
  have hlt : i < (done.map Exchange.req).length := by
    obtain ⟨hlt, -⟩ := List.getElem?_eq_some_iff.mp he
    simpa using hlt
  refine ⟨e.req, e.answer, ?_, rfl, h.answers e (List.mem_of_getElem? he)⟩
  rw [h.requests, List.getElem?_append_left hlt, List.getElem?_map, he]
  rfl

theorem AnsweredBy.response {s : State} (h : AnsweredBy A s) {i : ℕ} {response : HttpResponse}
    {written : Bool} {req : HttpRequest} (hresponse : s.responses[i]? = some (response, written))
    (hreq : s.requests[i]? = some req) :
    ∃ answer, response = handleRequest req answer ∧ A req answer := by
  obtain ⟨done, pending, hdid⟩ := h
  obtain ⟨req', answer, hreq', hboth⟩ := hdid.response hresponse
  obtain rfl := Option.some.inj (hreq.symm.trans hreq')
  exact ⟨answer, hboth⟩

/-- **One response for each request, in order.** -/
theorem Did.inOrder {s : State} {done : List Exchange} {pending : List HttpRequest}
    (h : Did A s done pending) : InOrder s := by
  have hle := h.pending.length_le
  refine ⟨?_, ?_, ?_⟩
  · simp [h.responses, h.requests]
  · rw [h.responses, h.requests, List.length_append, List.length_map, List.length_map]
    exact Nat.add_le_add_left hle _
  · intro i response written hi
    obtain ⟨req, answer, hreq, hresponse, -⟩ := h.response hi
    exact ⟨req, answer, hreq, hresponse⟩

/-- All exchanges but the last one are with keep-alive. -/
theorem Did.keepAlive {s : State} {done : List Exchange} {pending : List HttpRequest}
    (h : Did A s done pending) {i : ℕ} (hi : i + 1 < s.requests.length) :
    ∃ (response : HttpResponse) (written : Bool),
      s.responses[i]? = some (response, written) ∧ response.keepAlive = true := by
  rw [h.requests, List.length_append, List.length_map] at hi
  have hlt : i < done.length := by
    have hle := h.pending.length_le
    omega
  have hget : done[i]? = some done[i] := List.getElem?_eq_getElem hlt
  refine ⟨done[i].response, done[i].written, ?_, ?_⟩
  · rw [h.responses, List.getElem?_map, hget]
    rfl
  · by_cases hlast : i + 1 < done.length
    · refine h.before _ ?_
      have hdrop : done.dropLast[i]? = some done[i] := by
        rw [List.getElem?_dropLast, if_pos (Nat.lt_sub_of_add_lt hlast), hget]
      exact List.mem_of_getElem? hdrop
    · -- then a request has still no response, and the loop goes on
      refine h.looping ?_ _ (List.getElem_mem hlt)
      have hstage := h.pending
      cases hstage' : s.stage with
      | reading => trivial
      | handling req => trivial
      | writing response => trivial
      | escaped => trivial
      | closing =>
          rw [hstage'] at hstage
          cases hstage
          exact absurd hi hlast
      | ended =>
          rw [hstage'] at hstage
          cases hstage
          exact absurd hi hlast

/-! ### Failed writes -/

/-- The operation is a read that brings a request. -/
def Act.BringsRequest : Act → Prop
  | .read (.request _) => True
  | .read _ | .handle _ | .handleThrows | .write _ | .shutdown _ => False

/-- The operation is a write that fails. -/
def Act.FailsWrite : Act → Prop
  | .write (some _) => True
  | .read _ | .handle _ | .handleThrows | .write none | .shutdown _ => False

/-- The condition on a step: no request is read after a write that failed. -/
def Heeds (s : State) (act : Act) : Prop := act.BringsRequest → ¬ Failed s

/-- A session only adds to what it has done. -/
theorem step_grows {s s' : State} {act : Act} (hs : step s act = some s') :
    ∃ reqs rs, s'.requests = s.requests ++ reqs ∧ s'.responses = s.responses ++ rs ∧
      (¬ act.BringsRequest → reqs = []) := by
  cases step_stepped hs with
  | request _ req => exact ⟨[req], [], rfl, by simp, fun hact => absurd trivial hact⟩
  | endOfStream => exact ⟨[], [], by simp, by simp, fun _ => rfl⟩
  | error => exact ⟨[], [], by simp, by simp, fun _ => rfl⟩
  | handle => exact ⟨[], [], by simp, by simp, fun _ => rfl⟩
  | throws => exact ⟨[], [], by simp, by simp, fun _ => rfl⟩
  | write _ error => exact ⟨[], _, by simp, rfl, fun _ => rfl⟩
  | shutdown => exact ⟨[], [], by simp, by simp, fun _ => rfl⟩

/-- A careful session was careful before. -/
theorem careful_before {s s' : State} {act : Act} {done : List Exchange}
    {pending : List HttpRequest} (h : Did A s done pending) (hs : step s act = some s')
    (hcareful : Careful s') : Careful s := by
  obtain ⟨reqs, rs, hrequests, hresponses, -⟩ := step_grows hs
  intro i hi
  obtain ⟨response, written, hget, -⟩ := h.keepAlive hi
  obtain ⟨hlt, -⟩ := List.getElem?_eq_some_iff.mp hget
  have hi' : i + 1 < s'.requests.length := by
    rw [hrequests, List.length_append]
    exact Nat.lt_add_right _ hi
  have hafter := hcareful i hi'
  rwa [hresponses, List.getElem?_append_left hlt] at hafter

/-- A step that reads no request keeps a session careful. -/
theorem careful_after {s s' : State} {act : Act} (hs : step s act = some s')
    (hact : ¬ act.BringsRequest) (hcareful : Careful s) : Careful s' := by
  obtain ⟨reqs, rs, hrequests, hresponses, hnone⟩ := step_grows hs
  intro i hi
  rw [hrequests, hnone hact, List.append_nil] at hi
  obtain ⟨response, hget, hkeep⟩ := hcareful i hi
  obtain ⟨hlt, -⟩ := List.getElem?_eq_some_iff.mp hget
  refine ⟨response, ?_, hkeep⟩
  rw [hresponses, List.getElem?_append_left hlt, hget]

/-- **A further request** keeps the session careful exactly when no response failed. -/
theorem careful_request {s : State} {req : HttpRequest} {done : List Exchange}
    {pending : List HttpRequest} (h : Did A s done pending) (hst : s.stage = .reading) :
    Careful { s with stage := .handling req, requests := s.requests ++ [req] } ↔ ¬ Failed s := by
  have hpending := h.pending
  rw [hst] at hpending
  cases hpending
  have hlen : s.requests.length = s.responses.length := by
    rw [h.requests, h.responses, List.append_nil, List.length_map, List.length_map]
  constructor
  · rintro hcareful ⟨response, hmem⟩
    obtain ⟨i, hi⟩ := List.mem_iff_getElem?.mp hmem
    obtain ⟨hlt, -⟩ := List.getElem?_eq_some_iff.mp hi
    have hnext : i + 1 < (s.requests ++ [req]).length := by
      rw [List.length_append, hlen, List.length_singleton]
      exact Nat.succ_lt_succ hlt
    -- the new request follows the failed one, whose response is not the written one
    obtain ⟨response', hget, -⟩ := hcareful i hnext
    cases hi.symm.trans hget
  · intro hnot i hi
    rw [List.length_append, hlen, List.length_singleton] at hi
    have hlt : i < done.length := by
      rw [h.responses, List.length_map] at hi
      exact Nat.lt_of_succ_lt_succ hi
    have hget : s.responses[i]? = some (done[i].response, done[i].written) := by
      rw [h.responses, List.getElem?_map, List.getElem?_eq_getElem hlt]
      rfl
    have hwritten : done[i].written = true := by
      by_contra hfalse
      rw [Bool.not_eq_true] at hfalse
      exact hnot ⟨_, hfalse ▸ List.mem_of_getElem? hget⟩
    have hloop : s.stage.Looping := hst ▸ trivial
    exact ⟨_, hwritten ▸ hget, h.looping hloop _ (List.getElem_mem hlt)⟩

/-- **A step keeps a session careful** exactly when it heeds the failures before it. -/
theorem careful_step {s s' : State} {act : Act} {done : List Exchange}
    {pending : List HttpRequest} (h : Did A s done pending) (hcareful : Careful s)
    (hs : step s act = some s') : Careful s' ↔ Heeds s act := by
  by_cases hact : act.BringsRequest
  · cases step_stepped hs with
    | request hst req =>
        rw [careful_request h hst]
        exact ⟨fun hnot _ => hnot, fun hheeds => hheeds trivial⟩
    | endOfStream => cases hact
    | error => cases hact
    | handle => cases hact
    | throws => cases hact
    | write => cases hact
    | shutdown => cases hact
  · exact ⟨fun _ hbrings => absurd hbrings hact, fun _ => careful_after hs hact hcareful⟩

/-- A session that was careful so far, and one that was not. -/
theorem careful_run {acts : List Act} {s : State} (hrun : Runs.run step {} acts = some s) :
    AnsweredBy (fun _ _ => True) s ∧ (Careful s ↔ Runs.Meets step Heeds {} acts) := by
  have hstart : Careful {} := fun i hi => absurd hi (Nat.not_lt_zero _)
  have hboth : (Runs.Meets step Heeds {} acts → AnsweredBy (fun _ _ => True) s ∧ Careful s) ∧
      (¬ Runs.Meets step Heeds {} acts → AnsweredBy (fun _ _ => True) s ∧ ¬ Careful s) := by
    refine Runs.meets_or_broken (A := fun _ => True)
      (I := fun s => AnsweredBy (fun _ _ => True) s ∧ Careful s)
      (B := fun s => AnsweredBy (fun _ _ => True) s ∧ ¬ Careful s)
      ?_ ?_ (fun _ _ => trivial) ⟨answeredBy_start, hstart⟩ hrun
    · rintro s act s' - ⟨hanswered, hcareful⟩ hs
      have hnext := hanswered.step hs fun _ _ _ _ => trivial
      obtain ⟨done, pending, hdid⟩ := hanswered
      have hiff := careful_step hdid hcareful hs
      exact ⟨fun hok => ⟨hnext, hiff.mpr hok⟩, fun hbad => ⟨hnext, fun hc => hbad (hiff.mp hc)⟩⟩
    · rintro s act s' - ⟨hanswered, hnot⟩ hs
      have hnext := hanswered.step hs fun _ _ _ _ => trivial
      obtain ⟨done, pending, hdid⟩ := hanswered
      exact ⟨hnext, fun hc => hnot (careful_before hdid hs hc)⟩
  obtain ⟨hmeets, hbroken⟩ := hboth
  by_cases hok : Runs.Meets step Heeds {} acts
  · exact ⟨(hmeets hok).1, fun _ => hok, fun _ => (hmeets hok).2⟩
  · exact ⟨(hbroken hok).1, fun hc => absurd hc (hbroken hok).2, fun hok' => absurd hok' hok⟩

/-- A step adds a failure when it is a write that fails. -/
theorem failed_step {s s' : State} {act : Act} (hs : step s act = some s') :
    Failed s' ↔ Failed s ∨ act.FailsWrite := by
  cases step_stepped hs with
  | request => simp [Failed, Act.FailsWrite]
  | endOfStream => simp [Failed, Act.FailsWrite]
  | error => simp [Failed, Act.FailsWrite]
  | handle => simp [Failed, Act.FailsWrite]
  | throws => simp [Failed, Act.FailsWrite]
  | shutdown => simp [Failed, Act.FailsWrite]
  | write _ error => cases error <;> simp [Failed, Act.FailsWrite]

/-- The condition on the operations: no read brings a request after a write that failed. -/
theorem heeds_iff {acts : List Act} {s s' : State} (hrun : Runs.run step s acts = some s') :
    Runs.Meets step Heeds s acts ↔ (Failed s → ∀ act ∈ acts, ¬ act.BringsRequest) ∧
      acts.Pairwise fun act act' => ¬ (act.FailsWrite ∧ act'.BringsRequest) := by
  induction acts generalizing s with
  | nil => simp [Runs.Meets]
  | cons act acts ih =>
      obtain ⟨s₁, h₁, h₂⟩ := Runs.run_cons_inv hrun
      have hnext : Runs.Meets step Heeds s (act :: acts) ↔
          Heeds s act ∧ Runs.Meets step Heeds s₁ acts := by simp [Runs.Meets, h₁]
      rw [hnext, ih h₂, failed_step h₁, List.pairwise_cons, List.forall_mem_cons, Heeds]
      constructor
      · rintro ⟨hact, hlater, hpairs⟩
        refine ⟨fun hfailed => ⟨fun hb => hact hb hfailed, hlater (.inl hfailed)⟩, ?_, hpairs⟩
        rintro act' hact' ⟨hfails, hbrings⟩
        exact hlater (.inr hfails) act' hact' hbrings
      · rintro ⟨hfirst, hrest, hpairs⟩
        refine ⟨fun hb hfailed => (hfirst hfailed).1 hb, ?_, hpairs⟩
        rintro (hfailed | hfails) act' hact' hbrings
        · exact (hfirst hfailed).2 act' hact' hbrings
        · exact hrest act' hact' ⟨hfails, hbrings⟩

/-- **Session discipline.**  Responses are written one for each request and in order, and each
further request is handled only after responses that were all written, with keep-alive, in a run
of a session exactly when no read brings a request after a write that failed. -/
theorem discipline_iff {acts : List Act} {s : State} (hrun : Runs.run step {} acts = some s) :
    (InOrder s ∧ Careful s) ↔
      acts.Pairwise fun act act' => ¬ (act.FailsWrite ∧ act'.BringsRequest) := by
  obtain ⟨⟨done, pending, hdid⟩, hcareful⟩ := careful_run hrun
  rw [hcareful, heeds_iff hrun]
  constructor
  · rintro ⟨-, -, hpairs⟩
    exact hpairs
  · intro hpairs
    refine ⟨hdid.inOrder, ?_, hpairs⟩
    rintro ⟨response, hmem⟩
    cases hmem

/-- A request with keep-alive. -/
def sampleRequest : HttpRequest := ⟨true, true, ascii "parameter=a"⟩

/-- `discipline_iff` at a session of two requests. -/
theorem discipline_iff_two : ∃ s,
    Runs.run step {} [.read (.request sampleRequest), .handle (some (200, ascii "97")),
      .write none, .read (.request sampleRequest), .handle (some (500, ascii "server error")),
      .write (some "Broken pipe"), .shutdown none] = some s ∧
    InOrder s ∧ Careful s ∧ s.requests.length = 2 := by
  obtain ⟨s, hrun, hlen⟩ : ∃ s,
      Runs.run step {} [.read (.request sampleRequest), .handle (some (200, ascii "97")),
        .write none, .read (.request sampleRequest), .handle (some (500, ascii "server error")),
        .write (some "Broken pipe"), .shutdown none] = some s ∧ s.requests.length = 2 :=
    ⟨_, rfl, rfl⟩
  obtain ⟨horder, hcareful⟩ := (discipline_iff hrun).mpr (by
    simp [Act.FailsWrite, Act.BringsRequest])
  exact ⟨s, hrun, horder, hcareful, hlen⟩

/-- **A request is handled after a response that was not written**: the write of a response with
keep-alive fails, and the request that came with the first one is read from the buffer. -/
theorem not_discipline : ∃ s,
    Runs.run step {} [.read (.request sampleRequest), .handle (some (200, ascii "97")),
      .write (some "Broken pipe"), .read (.request sampleRequest),
      .handle (some (200, ascii "97"))] = some s ∧
    s.requests = [sampleRequest, sampleRequest] ∧ ¬ Careful s := by
  refine ⟨_, rfl, rfl, fun hcareful => ?_⟩
  obtain ⟨response, hget, -⟩ := hcareful 0 (by decide)
  cases hget

end HttpSession

end AliMiddleware.Consumer
