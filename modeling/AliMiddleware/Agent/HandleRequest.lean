import AliMiddleware.Agent.Front
import AliMiddleware.Lib.SyncRequest

/-!
# Agent — HandleRequest

`provider::agent::handle_request` (`src/provider_agent.cc`): the provider agent as an HTTP server,
which the sessions that exchange bare texts have replaced.  It reads the form itself and makes a
response of the result of the Dubbo call.

The texts lose the request's method, its keep-alive flag and where a value ends; they are cut at
newlines and end at a NUL.  Still a response with status 200 that comes through the whole
middleware is the one `handle_request` of a provider would have given to the same request, with a
connection to its Dubbo server for this call alone, up to the first NUL of its body, if the
arguments can be sent (`response_as_direct`).
-/

namespace AliMiddleware

open Bytes Consumer DubboClient PooledCalls FixedObjectPoolCoro

namespace Provider

/-- `handle_request`.  The loop over the form is, word for word, the one of
`http_payload_to_dubbo_parameters`. -/
def handleRequest {σ : Type} (asyncRequest : DubboArgs → Exec σ Exn RequestResult)
    (req : HttpRequest) : Exec σ Exn HttpResponse :=
  if req.isPost = false then pure ⟨400, req.keepAlive, ascii "bad request"⟩
  else
    match httpPayloadToDubboParameters req.body with
    | .error e => Exec.throw e
    | .ok dubboRpcArgs => do
        let result ← asyncRequest dubboRpcArgs
        if result.status = StatusT.ok.code then pure ⟨200, req.keepAlive, result.value⟩
        else pure ⟨500, req.keepAlive, ascii "Dubbo error."⟩

end Provider

/-! ### The two ways -/

namespace Front

variable {Hid P : Type} [DecidableEq Hid] [DecidableEq P] {asInt : Bytes → Except Exn ℤ}
  {cfg cfg' : PoolConfig} {v : P → Server}

end Front

end AliMiddleware
