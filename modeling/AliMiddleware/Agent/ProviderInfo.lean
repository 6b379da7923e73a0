import AliMiddleware.Agent.HopRuns
import AliMiddleware.Lib.PooledCalls

/-!
# Agent — ProviderInfo

`provider_info::async_request` (`src/provider_selector.hpp`), as the exchange a call makes on a
pooled connection to a provider agent.  The connection is borrowed first; a body the form parser
rejects is answered with a server error and the connection is given back unused.  Otherwise the
call writes the request and takes one read as the response; when either reports an error it
answers with a server error.  Nothing tells the pool about the error.

What the calls that get a response make of a connection is what `Responses` makes of it
(`responses_write`, `responses_read`).
-/

namespace AliMiddleware.Consumer

open Bytes PooledCalls

/-- What `async_request` returns. -/
inductive Response where
  /-- `resp_500` -/
  | serverError
  | ok (body : Bytes)
  deriving DecidableEq, Repr

/-- A connection to a provider agent. -/
structure ProviderConn (Tid : Type) where
  /-- what the calls wrote -/
  written : Bytes := []
  /-- written by the session, not yet read -/
  undelivered : Bytes := []
  /-- what the calls that used the connection returned -/
  returned : List (Tid × Response) := []

namespace ProviderInfo

variable {Tid : Type}

/-- Where a call is, once it has a connection and something to write. -/
inductive Stage where
  | write (reqText : Bytes)
  | read
  deriving DecidableEq

/-- How a read or write ends. -/
inductive Ev where
  /-- a write of everything, or a read of `k` bytes -/
  | done (k : ℕ)
  /-- an error, end of file included, after `k` bytes -/
  | error (k : ℕ)
  deriving DecidableEq, Repr

/-- `req_text`, when the parser accepts the body. -/
def start (body : Bytes) : Option Stage :=
  match httpPayloadToDubboParameters body with
  | .ok dubboArgs => some (.write (reqText dubboArgs))
  | .error _ => none

def next (t : Tid) : Stage → Ev → ProviderConn Tid → Option (After Stage × ProviderConn Tid)
  | .write text, .done _, c => some (.goes .read, { c with written := c.written ++ text })
  | .write text, .error k, c => some (.fails, { c with
      written := c.written ++ text.take k, returned := c.returned ++ [(t, .serverError)] })
  | .read, .done k, c => do
      let (chunk, rest) ← readSome bufferSize k c.undelivered
      let body ← respBody chunk
      some (.ends, { c with undelivered := rest, returned := c.returned ++ [(t, .ok body)] })
  | .read, .error _, c => some (.fails, { c with returned := c.returned ++ [(t, .serverError)] })

/-- `async_request` from the moment it has borrowed a connection, for calls with these bodies. -/
def exchange (body : Tid → Bytes) : Exchange Tid (ProviderConn Tid) Stage Ev Bytes where
  fresh := {}
  start := fun t => start (body t)
  next := next
  deliver bytes c := { c with undelivered := c.undelivered ++ bytes }
  writes
    | .write _ => true
    | .read => false

/-! ### The responses -/

/-- The response direction of a connection. -/
def responses (c : ProviderConn Tid) : Responses where
  undelivered := c.undelivered
  bodies := c.returned.filterMap fun
    | (_, .ok body) => some body
    | (_, .serverError) => none

/-- The write of a call leaves the responses as they are, also when it fails. -/
theorem responses_write {t : Tid} {text : Bytes} {ev : Ev} {c c' : ProviderConn Tid}
    {after : After Stage} (h : next t (.write text) ev c = some (after, c')) :
    responses c' = responses c := by
  cases ev with
  | done k =>
      obtain ⟨-, rfl⟩ := Prod.mk.inj (Option.some.inj h)
      rfl
  | error k =>
      obtain ⟨-, rfl⟩ := Prod.mk.inj (Option.some.inj h)
      simp [responses]

/-- The read of a call that is answered with `value` is an exchange of `Responses`. -/
theorem responses_read (body : Tid → Bytes) (t : Tid) (value : Bytes) (k : ℕ)
    (c : ProviderConn Tid) :
    (next t .read (.done k) ((exchange body).deliver value c)).map (fun p => responses p.2) =
      Responses.exchange (responses c) (value, k) := by
  simp only [next, exchange, Responses.exchange, responses]
  cases readSome bufferSize k (c.undelivered ++ value) with
  | none => rfl
  | some p =>
      obtain ⟨chunk, rest⟩ := p
      cases hbody : respBody chunk with
      | none => simp [hbody]
      | some body => simp [hbody]

end ProviderInfo

end AliMiddleware.Consumer
