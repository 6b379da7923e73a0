import AliMiddleware.Agent.ProviderInfo
import AliMiddleware.Lib.DubboClient

/-!
# Agent — Reuse

Connections on which an exchange failed.  Both clients give every connection back to the pool
they took it from, a dead one included, and `release_one` puts it at the front of `free_list`: the
next call that borrows gets it (`not_noReuse`).  As long as no call that will write borrows such a
connection nothing is written to one (`noReuse_clients`); a call that does borrow one writes to
it next (`reuse_providerInfo`, `reuse_dubboClient`).
-/

namespace AliMiddleware

open Bytes Pool PooledCalls FixedObjectPoolCoro Consumer

variable {Tid : Type} [DecidableEq Tid]

/-- **Nothing is written to a failed connection**, by the calls that share a provider's pool,
which is filled first, and by those that share the Dubbo client's, in every run in which no call
that will write borrows a connection on which an exchange failed. -/
theorem noReuse_clients (cfg : PoolConfig) :
    (∀ (body : Tid → Bytes) (news : ℕ → NewObj Unit) (p : Pool Unit Unit)
        (acts : List (PooledCalls.Act Tid ProviderInfo.Ev Bytes))
        (s : State Tid (ProviderConn Tid) ProviderInfo.Stage),
      (fillFull cfg news).run (Pool.fresh ()) = .done () p →
      SoundRun (ProviderInfo.exchange body) cfg (.failed ∉ ·) p acts →
      runCalls (ProviderInfo.exchange body) cfg p acts = some s → ∀ a, NoReuse (s.events a)) ∧
    (∀ (call : Tid → DubboClient.Call) (asInt : Bytes → Except Exn ℤ)
        (acts : List (PooledCalls.Act Tid DubboClient.Ev Bytes))
        (s : State Tid (DubboClient.Stream Tid) DubboClient.Stage),
      SoundRun (DubboClient.exchange call asInt) cfg (.failed ∉ ·) (Pool.fresh ()) acts →
      runCalls (DubboClient.exchange call asInt) cfg (Pool.fresh ()) acts = some s →
      ∀ a, NoReuse (s.events a)) := by
  constructor
  · intro body news p acts s hp hok hrun a
    exact noReuse_of_sound (.filled hp) hok hrun a
  · intro call asInt acts s hok hrun a
    exact noReuse_of_sound .fresh hok hrun a

/-- The body of a request. -/
def sampleBody : Bytes :=
  ascii "interface=IHash&method=hash&parameterTypesString=Ljava%2Flang%2FString%3B&parameter=ab"

/-- Two connections to a provider agent: the first call's read fails, but the second call gives
its connection back later, and the third call gets that one. -/
def sampleProviderRun : List (PooledCalls.Act ℕ ProviderInfo.Ev Bytes) :=
  [.borrow .borrowOne 1 ⟨30, none⟩, .borrow .borrowOne 2 ⟨30, none⟩, .io 1 (.done 0),
   .io 1 (.error 0), .io 2 (.done 0), .env 20 (ascii "97"), .io 2 (.done 2), .release 1 10,
   .notify 1, .release 2 20, .notify 2, .borrow .borrowOne 3 ⟨30, none⟩, .io 3 (.done 0)]

/-- The same with the Dubbo client's connections, which the calls open themselves. -/
def sampleDubboRun : List (PooledCalls.Act ℕ DubboClient.Ev Bytes) :=
  [.borrow .borrowOne 1 ⟨10, some ()⟩, .borrow .borrowOne 2 ⟨20, some ()⟩, .io 1 .done,
   .io 1 (.error 5), .io 2 .done, .io 2 .done, .env 20 DubboClient.sampleReply, .io 2 .done,
   .io 2 .done, .release 1 10, .notify 1, .release 2 20, .notify 2,
   .borrow .borrowOne 3 ⟨30, some ()⟩, .io 3 .done]

/-- Two connections. -/
def sampleNews (n : ℕ) : NewObj Unit := ⟨10 * (n + 1), some ()⟩

/-- `noReuse_clients` at these runs; in each, an exchange fails on the connection 10. -/
theorem noReuse_clients_sample :
    (∃ p s, (fillFull { maxSize := 2 } sampleNews).run (Pool.fresh ()) = .done () p ∧
      runCalls (ProviderInfo.exchange fun _ => sampleBody) { maxSize := 2 } p
        sampleProviderRun = some s ∧
      s.events 10 = [.wrote, .failed] ∧ ∀ a, NoReuse (s.events a)) ∧
    (∃ s, runCalls (DubboClient.exchange (fun _ => DubboClient.sampleCall) fun _ => .ok 1)
        { maxSize := 2 } (Pool.fresh ()) sampleDubboRun = some s ∧
      s.events 10 = [.wrote, .wrote, .failed] ∧ ∀ a, NoReuse (s.events a)) := by
  constructor
  · obtain ⟨p, s, hp, hok, hrun, hev⟩ : ∃ p s,
        (fillFull { maxSize := 2 } sampleNews).run (Pool.fresh ()) = .done () p ∧
        SoundRun (ProviderInfo.exchange fun _ => sampleBody) { maxSize := 2 } (.failed ∉ ·) p
          sampleProviderRun ∧
        runCalls (ProviderInfo.exchange fun _ => sampleBody) { maxSize := 2 } p
          sampleProviderRun = some s ∧ s.events 10 = [.wrote, .failed] :=
      ⟨_, _, rfl, by decide, rfl, by decide⟩
    exact ⟨p, s, hp, hrun, hev, (noReuse_clients { maxSize := 2 }).1 _ _ _ _ _ hp hok hrun⟩
  · obtain ⟨s, hok, hrun, hev⟩ : ∃ s,
        SoundRun (DubboClient.exchange (fun _ => DubboClient.sampleCall) fun _ => .ok 1)
          { maxSize := 2 } (.failed ∉ ·) (Pool.fresh ()) sampleDubboRun ∧
        runCalls (DubboClient.exchange (fun _ => DubboClient.sampleCall) fun _ => .ok 1)
          { maxSize := 2 } (Pool.fresh ()) sampleDubboRun = some s ∧
        s.events 10 = [.wrote, .wrote, .failed] :=
      ⟨_, by decide, rfl, by decide⟩
    exact ⟨s, hrun, hev, (noReuse_clients { maxSize := 2 }).2 _ _ _ _ hok hrun⟩

/-- **The connection of a failed exchange is the next one to be borrowed**, and to be written
to: a read of the first call fails, and the second call writes to the connection it leaves. -/
theorem not_noReuse :
    (∃ p s, (fillFull { maxSize := 2 } sampleNews).run (Pool.fresh ()) = .done () p ∧
      runCalls (ProviderInfo.exchange fun _ => sampleBody) { maxSize := 2 } p
        [.borrow .borrowOne 1 ⟨30, none⟩, .io 1 (.done 0), .io 1 (.error 0), .release 1 10,
         .notify 1, .borrow .borrowOne 2 ⟨30, none⟩, .io 2 (.done 0)] = some s ∧
      ¬ NoReuse (s.events 10)) ∧
    (∃ s, runCalls (DubboClient.exchange (fun _ => DubboClient.sampleCall) fun _ => .ok 1)
        { maxSize := 2 } (Pool.fresh ())
        [.borrow .borrowOne 1 ⟨10, some ()⟩, .io 1 .done, .io 1 .done, .io 1 (.error 0),
         .release 1 10, .notify 1, .borrow .borrowOne 2 ⟨20, none⟩, .io 2 .done] = some s ∧
      ¬ NoReuse (s.events 10)) :=
  ⟨⟨_, _, rfl, rfl, by decide⟩, ⟨_, rfl, by decide⟩⟩

/-! ### The condition is exact -/

/-- A call of a provider that borrows a failed connection, and has something to write, writes to
it next. -/
theorem reuse_providerInfo {body : Tid → Bytes} {cfg : PoolConfig}
    {s s' : State Tid (ProviderConn Tid) ProviderInfo.Stage}
    {act : PooledCalls.Act Tid ProviderInfo.Ev Bytes} (hi : FixedObjectPoolCoro.Inv cfg s.pool)
    (hbad : ¬ Sound (ProviderInfo.exchange body) (.failed ∉ ·) s act)
    (h : step (ProviderInfo.exchange body) cfg s act = some s') :
    ∃ act' s'' a, step (ProviderInfo.exchange body) cfg s' act' = some s'' ∧
      ¬ NoReuse (s''.events a) := by
  refine reuse_of_not_sound ?_ hi hbad h
  intro t st hst
  simp only [ProviderInfo.exchange, ProviderInfo.start] at hst
  cases hargs : httpPayloadToDubboParameters (body t) with
  | error e => simp [hargs] at hst
  | ok args =>
      obtain rfl : ProviderInfo.Stage.write (reqText args) = st := by simpa [hargs] using hst
      exact ⟨rfl, fun c => ⟨.done 0, _, rfl⟩⟩

/-- A call of the Dubbo client that borrows a failed connection writes to it next. -/
theorem reuse_dubboClient {call : Tid → DubboClient.Call} {asInt : Bytes → Except Exn ℤ}
    {cfg : PoolConfig} {s s' : State Tid (DubboClient.Stream Tid) DubboClient.Stage}
    {act : PooledCalls.Act Tid DubboClient.Ev Bytes} (hi : FixedObjectPoolCoro.Inv cfg s.pool)
    (hbad : ¬ Sound (DubboClient.exchange call asInt) (.failed ∉ ·) s act)
    (h : step (DubboClient.exchange call asInt) cfg s act = some s') :
    ∃ act' s'' a, step (DubboClient.exchange call asInt) cfg s' act' = some s'' ∧
      ¬ NoReuse (s''.events a) := by
  refine reuse_of_not_sound ?_ hi hbad h
  intro t st hst
  obtain rfl : DubboClient.Stage.writeHeader = st := by simpa [DubboClient.exchange] using hst
  exact ⟨rfl, fun c => ⟨.done, _, rfl⟩⟩

end AliMiddleware
