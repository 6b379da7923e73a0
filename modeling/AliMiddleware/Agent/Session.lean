import AliMiddleware.Agent.Hop
import AliMiddleware.Lib.DubboClient
import AliMiddleware.Support.Runs

/-!
# Agent — Session

`provider::agent::session_consumer` (`src/provider_agent.cc`) under everything its operations can
do: a read brings bytes, the end of the stream or an error, `dubbo.async_request` returns or
throws, a write succeeds or fails, and so does the final shutdown.  Errors of reads other than end
of file, and what the call throws, are caught and end the loop; the error of a write is ignored;
the error of the shutdown is thrown after the `try`, and leaves the coroutine.  Taking the first
four elements of a request that has fewer, and using a full buffer as a C string, is undefined.

All sessions of an agent run on one `io_context`, and an exception that leaves a coroutine leaves
`io_context.run()` (`Agent`).

* Every step of a session is guarded exactly when every read that brings bytes brings a request
  and no read meets the end of the stream (`guarded_iff_requests`).
* The agent goes on serving exactly when, in addition, no shutdown fails
  (`serving_iff_harmless`).
-/

namespace AliMiddleware.Provider

open Bytes Consumer DubboClient

/-! ### Reads -/

/-- How `async_read_some` ends. -/
inductive ReadEnd where
  | bytes (chunk : Bytes)
  | eof
  | error (what : String)
  deriving DecidableEq, Repr

/-- Three newlines before the first NUL, and a NUL that ends the text. -/
def HasRequest (chunk : Bytes) : Prop :=
  (0 ∈ chunk ∨ chunk.length < bufferSize) ∧ 3 ≤ (chunk.takeWhile (· ≠ 0)).count 10

instance (chunk : Bytes) : Decidable (HasRequest chunk) := inferInstanceAs (Decidable (_ ∧ _))

/-- **When the first four elements are there.** -/
theorem reqArgs_eq_none {chunk : Bytes} : reqArgs chunk = none ↔ ¬ HasRequest chunk := by
  have hlen := length_splitOn 10 (chunk.takeWhile (· ≠ 0))
  rw [HasRequest]
  by_cases hnul : 0 ∈ chunk ∨ chunk.length < bufferSize
  · have htext : cString (buffer bufferSize chunk) = some (chunk.takeWhile (· ≠ 0)) :=
      cString_buffer.mpr ⟨hnul, rfl⟩
    simp only [reqArgs, htext, hnul, true_and, Option.bind_eq_bind, Option.bind_some]
    generalize (chunk.takeWhile (· ≠ 0)).splitOn 10 = parts at hlen
    generalize (chunk.takeWhile (· ≠ 0)).count 10 = newlines at hlen
    rcases parts with _ | ⟨a, _ | ⟨b, _ | ⟨c, _ | ⟨d, more⟩⟩⟩⟩
    · cases hlen
    · simp [← Nat.succ.inj hlen]
    · simp [← Nat.succ.inj hlen]
    · simp [← Nat.succ.inj hlen]
    · have hmany : newlines = more.length + 3 := (Nat.succ.inj hlen).symm
      simp [hmany]
  · have htext : cString (buffer bufferSize chunk) = none := by
      rw [Option.eq_none_iff_forall_ne_some]
      intro text h
      exact hnul (cString_buffer.mp h).1
    simp [reqArgs, htext, hnul]

/-- The read brings a request, or an error that ends the session. -/
def ReadEnd.Enough : ReadEnd → Prop
  | .bytes chunk => HasRequest chunk
  | .eof => False
  | .error _ => True

/-! ### A session -/

/-- How `dubbo.async_request` ends. -/
inductive CallEnd where
  | returns (result : RequestResult)
  | throws (e : Exn)

/-- Where a session is. -/
inductive SessionStage where
  | reading
  | calling (args : DubboArgs)
  | writing (value : Bytes)
  /-- past the `catch`, before the shutdown -/
  | closing (caught : Exn)
  | ended
  /-- an exception has left `session_consumer` -/
  | escaped (e : Exn)
  | undefined
  deriving DecidableEq

/-- What an operation of a session ends in. -/
inductive SessionAct where
  | read (r : ReadEnd)
  | call (c : CallEnd)
  | write (error : Option String)
  | shutdown (error : Option String)

/-- After a read that put `chunk` into the buffer: `rlib::string(req_buffer).split('\n')`, and
elements 0 to 3 of it. -/
def onRead (chunk : Bytes) : SessionStage :=
  match reqArgs chunk with
  | some args => .calling args
  | none => .undefined

/-- After `conn.shutdown(tcp::socket::shutdown_send, ec)`. -/
def afterShutdown : Option String → SessionStage
  | none => .ended
  | some what => .escaped (.runtimeError what)

def sessionStep : SessionStage → SessionAct → Option SessionStage
  | .reading, .read (.bytes chunk) =>
      if chunk ≠ [] ∧ chunk.length ≤ bufferSize then some (onRead chunk) else none
  | .reading, .read .eof => some (onRead [])
  | .reading, .read (.error what) => some (.closing (.runtimeError what))
  | .calling _, .call (.returns result) =>
      if result.status ≠ 20 then some (.closing (.runtimeError "dubbo not ok."))
      else some (.writing result.value)
  | .calling _, .call (.throws e) => some (.closing e)
  | .writing _, .write _ => some .reading
  | .closing _, .shutdown error => some (afterShutdown error)
  | _, _ => none

theorem onRead_eq_undefined {chunk : Bytes} : onRead chunk = .undefined ↔ ¬ HasRequest chunk := by
  rw [← reqArgs_eq_none, onRead]
  cases reqArgs chunk <;> simp

/-- The stage at which an operation can end. -/
def SessionAct.At (st : SessionStage) : SessionAct → Prop
  | .read _ => st = .reading
  | .call _ => ∃ args, st = .calling args
  | .write _ => ∃ value, st = .writing value
  | .shutdown _ => ∃ caught, st = .closing caught

theorem sessionStep_at {st st' : SessionStage} {act : SessionAct}
    (h : sessionStep st act = some st') : act.At st := by
  unfold sessionStep at h
  split at h
  · rfl
  · rfl
  · rfl
  · exact ⟨_, rfl⟩
  · exact ⟨_, rfl⟩
  · exact ⟨_, rfl⟩
  · exact ⟨_, rfl⟩
  · cases h

/-- What a read does to a session. -/
theorem sessionStep_read {st st' : SessionStage} {r : ReadEnd}
    (h : sessionStep st (.read r) = some st') :
    (st' = .undefined ↔ ¬ r.Enough) ∧ ∀ e, st' ≠ .escaped e := by
  obtain rfl : st = .reading := sessionStep_at h
  cases r with
  | bytes chunk =>
      simp only [sessionStep, Option.ite_none_right_eq_some, Option.some.injEq] at h
      obtain ⟨-, rfl⟩ := h
      refine ⟨onRead_eq_undefined, ?_⟩
      intro e
      rw [onRead]
      cases reqArgs chunk <;> simp
  | eof =>
      obtain rfl : .undefined = st' := Option.some.inj h
      exact ⟨by simp [ReadEnd.Enough], by simp⟩
  | error what =>
      obtain rfl : .closing _ = st' := Option.some.inj h
      exact ⟨by simp [ReadEnd.Enough], by simp⟩

/-- What makes a step leave the sessions that are as they should be. -/
def SessionAct.Harmless : SessionAct → Prop
  | .read r => r.Enough
  | .shutdown (some _) => False
  | .call _ | .write _ | .shutdown none => True

/-- The behaviour is undefined, or an exception has left the coroutine. -/
def SessionStage.Lost (st : SessionStage) : Prop := st = .undefined ∨ ∃ e, st = .escaped e

/-- The other operations of the loop: the session goes on, or to its end. -/
theorem sessionStep_call {st st' : SessionStage} {c : CallEnd}
    (h : sessionStep st (.call c) = some st') :
    (∃ e, st' = .closing e) ∨ ∃ value, st' = .writing value := by
  obtain ⟨args, rfl⟩ : ∃ args, st = .calling args := sessionStep_at h
  cases c with
  | returns result =>
      simp only [sessionStep] at h
      split_ifs at h
      · exact .inl ⟨_, (Option.some.inj h).symm⟩
      · exact .inr ⟨_, (Option.some.inj h).symm⟩
  | throws e => exact .inl ⟨e, (Option.some.inj h).symm⟩

theorem sessionStep_write {st st' : SessionStage} {error : Option String}
    (h : sessionStep st (.write error) = some st') : st' = .reading := by
  obtain ⟨value, rfl⟩ : ∃ value, st = .writing value := sessionStep_at h
  exact (Option.some.inj h).symm

theorem sessionStep_shutdown {st st' : SessionStage} {error : Option String}
    (h : sessionStep st (.shutdown error) = some st') : st' = afterShutdown error := by
  obtain ⟨caught, rfl⟩ : ∃ caught, st = .closing caught := sessionStep_at h
  exact (Option.some.inj h).symm

/-- **A step loses a session** exactly when it is a read without a request or a shutdown that
fails. -/
theorem sessionStep_lost {st st' : SessionStage} {act : SessionAct}
    (h : sessionStep st act = some st') : st'.Lost ↔ ¬ act.Harmless := by
  cases act with
  | read r =>
      obtain ⟨hundefined, hescaped⟩ := sessionStep_read h
      have hself : (SessionAct.read r).Harmless ↔ r.Enough := Iff.rfl
      simpa [SessionStage.Lost, hescaped, hself] using hundefined
  | call c =>
      rcases sessionStep_call h with ⟨e, rfl⟩ | ⟨value, rfl⟩
      · simp [SessionStage.Lost, SessionAct.Harmless]
      · simp [SessionStage.Lost, SessionAct.Harmless]
  | write error =>
      obtain rfl := sessionStep_write h
      simp [SessionStage.Lost, SessionAct.Harmless]
  | shutdown error =>
      obtain rfl := sessionStep_shutdown h
      cases error with
      | none => simp [SessionStage.Lost, SessionAct.Harmless, afterShutdown]
      | some what => simp [SessionStage.Lost, SessionAct.Harmless, afterShutdown]

/-! ### The requests of a session -/

/-- The step is defined; and a read without a request ends the session. -/
def Guarded (st : SessionStage) (act : SessionAct) : Prop :=
  ∀ st', sessionStep st act = some st' → st' ≠ .undefined ∧
    ∀ r, act = .read r → ¬ r.Enough → ∃ e, st' = .closing e

/-- The condition: a read brings a request or an error. -/
def SessionAct.BringsRequest : SessionAct → Prop
  | .read r => r.Enough
  | .call _ | .write _ | .shutdown _ => True

theorem guarded_iff {st st' : SessionStage} {act : SessionAct}
    (h : sessionStep st act = some st') : Guarded st act ↔ act.BringsRequest := by
  have hself : Guarded st act ↔ st' ≠ .undefined ∧
      ∀ r, act = .read r → ¬ r.Enough → ∃ e, st' = .closing e := by
    simp [Guarded, h]
  rw [hself]
  cases act with
  | read r =>
      -- only a read that brings too few bytes is undefined
      have hundefined := (sessionStep_read h).1
      constructor
      · rintro ⟨hdef, -⟩
        by_contra hr
        exact hdef (hundefined.mpr hr)
      · intro hr
        refine ⟨fun hu => hundefined.mp hu hr, ?_⟩
        rintro r' hr' hnot
        obtain rfl := SessionAct.read.inj hr'
        exact absurd hr hnot
  | call c =>
      rcases sessionStep_call h with ⟨e, rfl⟩ | ⟨value, rfl⟩
      · simp [SessionAct.BringsRequest]
      · simp [SessionAct.BringsRequest]
  | write error =>
      obtain rfl := sessionStep_write h
      simp [SessionAct.BringsRequest]
  | shutdown error =>
      obtain rfl := sessionStep_shutdown h
      cases error with
      | none => simp [SessionAct.BringsRequest, afterShutdown]
      | some what => simp [SessionAct.BringsRequest, afterShutdown]

/-- **No element is taken that is not there**, and what has fewer ends the session, in every step
of a session, exactly when every read brings three newlines and then a NUL, or an error other
than end of file. -/
theorem guarded_iff_requests {acts : List SessionAct} {st : SessionStage}
    (h : Runs.run sessionStep .reading acts = some st) :
    Runs.Meets sessionStep Guarded .reading acts ↔
      .read .eof ∉ acts ∧ ∀ chunk, .read (.bytes chunk) ∈ acts →
        (0 ∈ chunk ∨ chunk.length < bufferSize) ∧ 3 ≤ (chunk.takeWhile (· ≠ 0)).count 10 := by
  have hlabels : Runs.Meets sessionStep Guarded .reading acts ↔
      ∀ act ∈ acts, act.BringsRequest := by
    rw [← Runs.meets_iff_forall h]
    exact Runs.meets_congr (fun _ _ _ => guarded_iff) h
  rw [hlabels]
  constructor
  · intro hall
    exact ⟨fun heof => hall _ heof, fun chunk hchunk => hall _ hchunk⟩
  · rintro ⟨heof, hchunks⟩ act hact
    cases act with
    | read r =>
        cases r with
        | bytes chunk => exact hchunks chunk hact
        | eof => exact absurd hact heof
        | error what => trivial
    | call c => trivial
    | write error => trivial
    | shutdown error => trivial

/-- One request, and a peer that resets the connection. -/
def sampleSession : List SessionAct :=
  [.read (.bytes (ascii "IHash\nhash\nLjava/lang/String;\na")),
   .call (.returns ⟨20, 1, ascii "97"⟩), .write none, .read (.error "Connection reset by peer"),
   .shutdown none]

/-- `guarded_iff_requests` at this session. -/
theorem guarded_sampleSession : Runs.Meets sessionStep Guarded .reading sampleSession := by
  obtain ⟨st, hst⟩ : ∃ st, Runs.run sessionStep .reading sampleSession = some st := ⟨_, rfl⟩
  refine (guarded_iff_requests hst).mpr ⟨by simp [sampleSession], ?_⟩
  intro chunk hchunk
  obtain rfl : chunk = ascii "IHash\nhash\nLjava/lang/String;\na" := by
    simpa [sampleSession] using hchunk
  decide

/-- **The ordinary end of a connection reads elements that are not there**, and so does a request
of three lines; and a read that fills the buffer leaves no NUL to end the text. -/
theorem not_guarded : Runs.run sessionStep .reading [.read .eof] = some .undefined ∧
    Runs.run sessionStep .reading [.read (.bytes (ascii "IHash\nhash\na"))] = some .undefined ∧
    Runs.run sessionStep .reading [.read (.bytes (List.replicate bufferSize 65))] =
      some .undefined ∧
    ¬ Runs.Meets sessionStep Guarded .reading [.read .eof] := by
  refine ⟨rfl, rfl, ?_, ?_⟩
  · have hfull : ¬ HasRequest (List.replicate bufferSize 65) := by
      rintro ⟨hnul, -⟩
      simp at hnul
    have hroom : List.replicate bufferSize (65 : UInt8) ≠ [] := by
      rw [ne_eq, List.replicate_eq_nil_iff]
      decide
    simp [sessionStep, hroom, onRead_eq_undefined.mpr hfull]
  · rintro ⟨hguarded, -⟩
    exact (hguarded .undefined rfl).1 rfl

/-! ### All sessions of an agent -/

/-- What became of `io_context.run()`. -/
inductive AgentStatus where
  | serving
  /-- an exception has left it -/
  | stopped (e : Exn)
  | undefined
  deriving DecidableEq, Repr

/-- The sessions on the `io_context` of an agent. -/
structure Agent (Sid : Type) where
  sessions : Sid → Option SessionStage := fun _ => none
  status : AgentStatus := .serving

inductive AgentAct (Sid : Type) where
  /-- `listen_consumer` accepts a connection and spawns a session -/
  | accept (i : Sid)
  | session (i : Sid) (act : SessionAct)

namespace Agent

variable {Sid : Type} [DecidableEq Sid]

/-- What a session's stage makes of `io_context.run()`. -/
def statusAfter : SessionStage → AgentStatus
  | .escaped e => .stopped e
  | .undefined => .undefined
  | .reading | .calling _ | .writing _ | .closing _ | .ended => .serving

def step (a : Agent Sid) : AgentAct Sid → Option (Agent Sid)
  | .accept i =>
      if a.status = .serving ∧ (a.sessions i).isNone = true then
        some { a with sessions := Function.update a.sessions i (some .reading) }
      else none
  | .session i act =>
      if a.status = .serving then do
        let st ← a.sessions i
        let st' ← sessionStep st act
        pure ⟨Function.update a.sessions i (some st'), statusAfter st'⟩
      else none

theorem statusAfter_eq_serving {st : SessionStage} : statusAfter st = .serving ↔ ¬ st.Lost := by
  cases st <;> simp [statusAfter, SessionStage.Lost]

/-- The condition on a step: the session is not lost in it. -/
def Harmless : AgentAct Sid → Prop
  | .accept _ => True
  | .session _ act => act.Harmless

theorem step_session {a a' : Agent Sid} {i : Sid} {act : SessionAct}
    (h : step a (.session i act) = some a') : a.status = .serving ∧ ∃ st st',
      a.sessions i = some st ∧ sessionStep st act = some st' ∧
        a' = ⟨Function.update a.sessions i (some st'), statusAfter st'⟩ := by
  simp only [step, Option.ite_none_right_eq_some, Option.bind_eq_bind,
    Option.bind_eq_some_iff] at h
  obtain ⟨hserving, st, hst, st', hst', he⟩ := h
  exact ⟨hserving, st, st', hst, hst', (Option.some.inj he).symm⟩

/-- **A step of an agent** leaves it serving exactly when it is harmless. -/
theorem step_serving {a a' : Agent Sid} {act : AgentAct Sid} (h : step a act = some a') :
    a'.status = .serving ↔ Harmless act := by
  cases act with
  | accept i =>
      simp only [step, Option.ite_none_right_eq_some, Option.some.injEq] at h
      obtain ⟨⟨hserving, -⟩, rfl⟩ := h
      exact ⟨fun _ => trivial, fun _ => hserving⟩
  | session i act =>
      obtain ⟨-, st, st', -, hst', rfl⟩ := step_session h
      rw [statusAfter_eq_serving, sessionStep_lost hst', not_not]
      rfl

/-- An agent that does not serve takes no step. -/
theorem serving_of_step {a a' : Agent Sid} {act : AgentAct Sid} (h : step a act = some a') :
    a.status = .serving := by
  cases act with
  | accept i =>
      simp only [step, Option.ite_none_right_eq_some] at h
      exact h.1.1
  | session i act => exact (step_session h).1

/-- An agent is serving after a run exactly when every step of the run was harmless. -/
theorem serving_iff_forall {acts : List (AgentAct Sid)} {a : Agent Sid}
    (h : Runs.run step {} acts = some a) :
    a.status = .serving ↔ ∀ act ∈ acts, Harmless act := by
  rw [← Runs.meets_iff_forall h]
  have hstep : ∀ (s : Agent Sid) act s', True → s.status = .serving → step s act = some s' →
      (Harmless act → s'.status = .serving) ∧ (¬ Harmless act → s'.status ≠ .serving) := by
    intro s act s' _ _ hs
    exact ⟨(step_serving hs).mpr, fun hbad hgood => hbad ((step_serving hs).mp hgood)⟩
  have hstopped : ∀ (s : Agent Sid) act s', True → s.status ≠ .serving → step s act = some s' →
      s'.status ≠ .serving := by
    intro s act s' _ hs hone
    exact absurd (serving_of_step hone) hs
  have hstart : ({} : Agent Sid).status = .serving := rfl
  obtain ⟨hkeep, hbreak⟩ := Runs.meets_or_broken hstep hstopped (fun _ _ => trivial) hstart h
  constructor
  · intro hserving
    by_contra hm
    exact hbreak hm hserving
  · exact hkeep

/-- What is harmless, operation by operation. -/
theorem harmless_iff {act : SessionAct} : act.Harmless ↔
    act ≠ .read .eof ∧ (∀ what, act ≠ .shutdown (some what)) ∧
      ∀ chunk, act = .read (.bytes chunk) → HasRequest chunk := by
  cases act with
  | read r => cases r <;> simp [SessionAct.Harmless, ReadEnd.Enough]
  | call c => simp [SessionAct.Harmless]
  | write error => simp [SessionAct.Harmless]
  | shutdown error => cases error <;> simp [SessionAct.Harmless]

/-- **The agent goes on serving**, whatever its sessions meet, exactly when no read of a session
comes without a request and no final shutdown fails. -/
theorem serving_iff_harmless {acts : List (AgentAct Sid)} {a : Agent Sid}
    (h : Runs.run step {} acts = some a) : a.status = .serving ↔
      ∀ i act, .session i act ∈ acts →
        act ≠ .read .eof ∧ (∀ what, act ≠ .shutdown (some what)) ∧
          ∀ chunk, act = .read (.bytes chunk) → (0 ∈ chunk ∨ chunk.length < bufferSize) ∧
            3 ≤ (chunk.takeWhile (· ≠ 0)).count 10 := by
  rw [serving_iff_forall h]
  constructor
  · intro hall i act hact
    exact harmless_iff.mp (hall _ hact)
  · intro hall act hact
    cases act with
    | accept i => trivial
    | session i act => exact harmless_iff.mpr (hall i act hact)

/-- Two sessions, one of which the call ends. -/
def sampleSessions : List (AgentAct ℕ) :=
  [.accept 1, .accept 2, .session 1 (.read (.bytes (ascii "IHash\nhash\nLjava/lang/String;\na"))),
   .session 1 (.call (.throws (.runtimeError "dubbo_client.hpp:Dubbo returns wrong magic."))),
   .session 1 (.shutdown none)]

/-- `serving_iff_harmless` at these. -/
theorem serving_sampleSessions :
    ∃ a, Runs.run step {} sampleSessions = some a ∧ a.status = .serving := by
  obtain ⟨a, ha⟩ : ∃ a, Runs.run step {} sampleSessions = some a := ⟨_, rfl⟩
  refine ⟨a, ha, (serving_iff_harmless ha).mpr ?_⟩
  intro i act hact
  simp only [sampleSessions, List.mem_cons, reduceCtorEq, AgentAct.session.injEq,
    List.not_mem_nil, or_false, false_or] at hact
  rcases hact with ⟨-, rfl⟩ | ⟨-, rfl⟩ | ⟨-, rfl⟩
  · refine ⟨by simp, by simp, ?_⟩
    intro chunk hchunk
    obtain rfl : ascii "IHash\nhash\nLjava/lang/String;\na" = chunk := by simpa using hchunk
    decide
  · exact ⟨by simp, by simp, by simp⟩
  · exact ⟨by simp, by simp, by simp⟩

/-- **A peer that resets its connection stops the agent**, with another session open: the read
fails, and then the shutdown. -/
theorem not_serving : ∃ a, Runs.run step ({} : Agent ℕ) [.accept 1, .accept 2,
      .session 1 (.read (.error "Connection reset by peer")),
      .session 1 (.shutdown (some "Transport endpoint is not connected"))] = some a ∧
    a.sessions 2 = some .reading ∧
    a.status = .stopped (.runtimeError "Transport endpoint is not connected") ∧
    ∀ act, step a act = none := by
  refine ⟨_, rfl, rfl, rfl, ?_⟩
  intro act
  cases act with
  | accept i => rfl
  | session i act => rfl

end Agent

end AliMiddleware.Provider
