import AliMiddleware.Lib.DubboServer

/-!
# Lib — SyncRequest

`dubbo_client::sync_request` (`lib/dubbo_client.hpp`), the plain form of a call: it makes a
connection for itself, writes, and blocks until its reply is there.  `async_request` does the
same on the connections of a pool, between the other calls that use them.

A call that takes a reply from a pooled connection makes of it what a plain call makes of the
same bytes (`Plain`).  So every connection of the pool is the connections of plain calls laid end
to end: what was written to it, what was taken from it and what the calls returned
(`pooled_as_sync`).
-/

namespace AliMiddleware.DubboClient

open Bytes Pool PooledCalls FixedObjectPoolCoro

/-! ### A plain call -/

/-- A connection of a plain call, from its side. -/
structure Socket where
  written : Bytes := []
  /-- what the server sends, and has not been read -/
  inbox : Bytes := []
  /-- how much more can be written before a write fails; `none` when none does -/
  room : Option ℕ := none
  /-- what an error says -/
  ec : String := ""

namespace Socket

/-- `boost::asio::write` -/
def write (bytes : Bytes) : Exec Socket Exn Unit where
  run s :=
    match s.room with
    | none => .done () { s with written := s.written ++ bytes }
    | some room =>
        if bytes.length ≤ room then
          .done () { s with written := s.written ++ bytes, room := some (room - bytes.length) }
        else
          .threw (.runtimeError s.ec)
            { s with written := s.written ++ bytes.take room, room := some 0 }

/-- `boost::asio::read` of `n` bytes; at the end of the stream it throws. -/
def read (n : ℕ) : Exec Socket Exn Bytes where
  run s :=
    if n ≤ s.inbox.length then .done (s.inbox.take n) { s with inbox := s.inbox.drop n }
    else .threw (.runtimeError s.ec) { s with inbox := [] }

end Socket

/-- `sync_request`, on the connection `quick_connect` made.  `asInt` is `as<int>()`. -/
def syncRequest (asInt : Bytes → Except Exn ℤ) (c : Call) : Exec Socket Exn RequestResult := do
  Socket.write c.header.encode
  Socket.write c.payload
  let bytes ← Socket.read DubboHeader.size
  let header := DubboHeader.decode bytes
  if header.TooLong then
    Exec.throw (.runtimeError
      "Dubbo server says the payload length is >1GiB. It's dangerous so I rejected.")
  else
    let payloadBuffer ← Socket.read header.announced
    if header.magic ≠ 0xbbda then
      Exec.throw (.runtimeError "dubbo_client.hpp:Dubbo returns wrong magic.")
    else
      match payloadBuffer.splitOn 10 with
      | [type, value, _] =>
          match asInt type with
          | .ok type => pure ⟨header.status, type, value⟩
          | .error e => Exec.throw e
      | _ => Exec.throw (.runtimeError "dubbo_client: Got invalid payload array" payloadBuffer)

/-- How a call ends, and what it leaves of its connection. -/
def endsWith {σ α : Type} (s : σ) : Except Exn α → Outcome σ Exn α
  | .ok a => .done a s
  | .error e => .threw e s

section

variable {asInt : Bytes → Except Exn ℤ} {c : Call}

theorem run_write {s : Socket} (h : s.room = none) (bytes : Bytes) :
    (Socket.write bytes).run s = .done () { s with written := s.written ++ bytes } := by
  simp [Socket.write, h]

/-- The two writes put the frame on the connection. -/
theorem run_writes {α : Type} {s : Socket} (h : s.room = none) (k : Unit → Exec Socket Exn α) :
    (Socket.write c.header.encode >>= fun _ => Socket.write c.payload >>= k).run s =
      (k ()).run { s with written := s.written ++ frame c.requestId c.payload } := by
  have hheader := run_write h c.header.encode
  have hpayload : (Socket.write c.payload).run
        { s with written := s.written ++ c.header.encode } =
      .done () { s with written := s.written ++ frame c.requestId c.payload } := by
    rw [← encode_header, ← List.append_assoc]
    exact run_write (s := { s with written := s.written ++ c.header.encode }) h c.payload
  rw [Exec.run_bind_done hheader, Exec.run_bind_done hpayload]

theorem run_read (s : Socket) {bytes rest : Bytes} {n : ℕ} (hlen : bytes.length = n)
    (h : s.inbox = bytes ++ rest) :
    (Socket.read n).run s = .done bytes { s with inbox := rest } := by
  simp [Socket.read, h, ← hlen]

/-- **A plain call** whose server sends a reply writes its request and makes of the reply what
`readReply` does; it reads no further. -/
theorem run_syncRequest {sent rest : Bytes} {r : Reply} (h : Takes sent r rest) :
    (syncRequest asInt c).run { inbox := sent } =
      endsWith { written := frame c.requestId c.payload, inbox := rest } (readReply asInt r) := by
  rw [syncRequest, run_writes rfl, List.nil_append]
  cases h with
  | abandoned hsize hlong =>
      rw [Exec.run_bind_done (run_read _ hsize rfl)]
      simp [hlong, readReply, endsWith]
  | whole hsize hshort hlen =>
      rw [Exec.run_bind_done (run_read _ hsize rfl)]
      simp only [hshort, if_false]
      rw [Exec.run_bind_done (run_read _ hlen rfl), readReply]
      split_ifs with hmagic
      · rfl
      · split
        next type value last hsplit =>
          cases htype : asInt type with
          | ok n => simp [hsplit, htype, endsWith, Except.map]
          | error e => simp [hsplit, htype, endsWith, Except.map]
        next => simp [endsWith]

theorem run_read_short (s : Socket) {n : ℕ} (h : s.inbox.length < n) :
    (Socket.read n).run s = .threw (.runtimeError s.ec) { s with inbox := [] } := by
  simp [Socket.read, Nat.not_le.mpr h]

/-- A plain call whose server ends the stream before the reply is whole throws. -/
theorem run_syncRequest_short {sent : Bytes} {ec : String} (h : takeReply sent = none) :
    (syncRequest asInt c).run { inbox := sent, ec := ec } =
      .threw (.runtimeError ec) { written := frame c.requestId c.payload, ec := ec } := by
  rw [syncRequest, run_writes rfl, Exec.run_bind, List.nil_append]
  by_cases hsize : DubboHeader.size ≤ sent.length
  · have hread := run_read { written := frame c.requestId c.payload, inbox := sent, ec := ec }
      (List.length_take_of_le hsize) (List.take_append_drop DubboHeader.size sent).symm
    simp only [takeReply, hsize, if_true] at h
    split_ifs at h with hlong hrest
    simp only [hread, hlong, if_false]
    rw [Exec.run_bind, run_read_short _ (Nat.not_le.mp hrest)]
  · rw [run_read_short _ (Nat.not_le.mp hsize)]

/-! ### A plain call to a server -/

/-- What is seen of a call: what the server sent, what the call wrote, and the result, if it did
not throw. -/
structure Talk where
  sent : Bytes
  wrote : Bytes
  result : Option RequestResult

/-- A plain call `c` takes exactly what is sent, and is seen so. -/
def Talk.Plain (asInt : Bytes → Except Exn ℤ) (c : Call) (talk : Talk) : Prop :=
  ∃ ending, (syncRequest asInt c).run { inbox := talk.sent } =
      endsWith { written := talk.wrote, inbox := [] } ending ∧ talk.result = ending.toOption

/-- The first reply of a stream alone. -/
theorem Takes.alone {s rest : Bytes} {r : Reply} (h : Takes s r rest) :
    ∃ sent, s = sent ++ rest ∧ Takes sent r [] := by
  cases h with
  | @abandoned bytes _ hsize hlong =>
      refine ⟨bytes, rfl, ?_⟩
      have halone : Takes (bytes ++ []) ⟨DubboHeader.decode bytes, none⟩ [] :=
        .abandoned hsize hlong
      rwa [List.append_nil] at halone
  | @whole bytes payload _ hsize hshort hlen =>
      refine ⟨bytes ++ payload, (List.append_assoc _ _ _).symm, ?_⟩
      have halone : Takes (bytes ++ (payload ++ [])) ⟨DubboHeader.decode bytes, some payload⟩ [] :=
        .whole hsize hshort hlen
      rwa [List.append_nil] at halone

/-- The talk of a call that is sent a reply. -/
def talkOf (asInt : Bytes → Except Exn ℤ) (c : Call) (sent : Bytes) (r : Reply) : Talk :=
  ⟨sent, frame c.requestId c.payload, (readReply asInt r).toOption⟩

theorem plain_talkOf {sent : Bytes} {r : Reply} (h : Takes sent r []) :
    (talkOf asInt c sent r).Plain asInt c :=
  ⟨_, run_syncRequest h, rfl⟩

/-- **Replies that are taken in turn** are talks of plain calls. -/
theorem Cut.talks {Tid : Type} (call : Tid → Call) {ts : List Tid} {s rest : Bytes}
    {rs : List Reply} (h : Cut s rs rest) (hlen : rs.length = ts.length) :
    ∃ talks : List (Tid × Talk), (∀ p ∈ talks, p.2.Plain asInt (call p.1)) ∧
      talks.map Prod.fst = ts ∧ s = (talks.map fun p => p.2.sent).flatten ++ rest ∧
      (talks.map fun p => p.2.wrote) =
        (ts.map fun t => frame (call t).requestId (call t).payload) ∧
      (results asInt (ts.zip rs)).map (fun r => (r.1, r.2.2)) =
        talks.filterMap fun p => p.2.result.map (p.1, ·) := by
  induction h generalizing ts with
  | nil s =>
      obtain rfl := List.eq_nil_of_length_eq_zero hlen.symm
      exact ⟨[], by simp, rfl, rfl, rfl, rfl⟩
  | @cons s mid rest r rs hfirst _ ih =>
      cases ts with
      | nil => cases hlen
      | cons t ts =>
          obtain ⟨talks, hplain, hts, hmid, hwrote, hresults⟩ := ih (Nat.succ.inj hlen)
          obtain ⟨sent, rfl, halone⟩ := hfirst.alone
          refine ⟨(t, talkOf asInt (call t) sent r) :: talks, ?_, ?_, ?_, ?_, ?_⟩
          · intro p hp
            rcases List.mem_cons.mp hp with rfl | hp
            · exact plain_talkOf halone
            · exact hplain p hp
          · rw [List.map_cons, hts]
          · rw [hmid, List.map_cons, List.flatten_cons, List.append_assoc]
            rfl
          · rw [List.map_cons, List.map_cons, hwrote]
            rfl
          · simp only [List.zip_cons_cons, results, List.filterMap_cons, talkOf]
            cases hread : readReply asInt r with
            | ok result => simpa [results, hread, Except.toOption] using hresults
            | error e => simpa [results, hread, Except.toOption] using hresults

end

/-! ### What a call has written -/

section

variable {Tid : Type}

/-- What a call has written at a stage. -/
def partOf (c : Call) : Stage → Bytes
  | .writeHeader => []
  | .writePayload => c.header.encode
  | .readHeader | .readPayload _ => frame c.requestId c.payload

theorem partOf_prefix (c : Call) (st : Stage) : partOf c st <+: frame c.requestId c.payload := by
  cases st with
  | writeHeader => exact List.nil_prefix
  | writePayload =>
      rw [← encode_header]
      exact List.prefix_append _ _
  | readHeader => exact List.prefix_refl _
  | readPayload header => exact List.prefix_refl _

/-- What is on a connection after the requests of the calls that have their replies. -/
inductive Unanswered (call : Tid → Call) (evs : List Event) : Option (Tid × Stage) → Bytes → Prop
    where
  | idle (healthy : .failed ∉ evs) : Unanswered call evs none []
  | used (t : Tid) (st : Stage) (healthy : .failed ∉ evs) :
      Unanswered call evs (some (t, st)) (partOf (call t) st)
  | failed (t : Tid) {piece : Bytes} (failed : .failed ∈ evs)
      (part : piece <+: frame (call t).requestId (call t).payload) :
      Unanswered call evs none piece

/-- The requests of the calls that have their replies, in turn, and a piece of one more; reads
are possible until a call fails. -/
def Wrote (call : Tid → Call) (o : Option (Tid × Stage)) (s : Stream Tid) (evs : List Event) :
    Prop :=
  (.failed ∉ evs → s.ended = false) ∧ ∃ piece, Unanswered call evs o piece ∧ s.written =
    (s.completed.map fun t => frame (call t).requestId (call t).payload).flatten ++ piece

/-- Nothing is known of the reads, the writes and the server. -/
def anything : Given Tid (Stream Tid) Stage Ev Bytes where
  io _ _ _ _ := True
  env _ _ := True

variable {call : Tid → Call} {asInt : Bytes → Except Exn ℤ}

/-- **A step of the call that uses the connection.** -/
theorem Wrote.next {t : Tid} {st : Stage} {ev : Ev} {s s' : Stream Tid} {evs : List Event}
    {after : After Stage} (h : Wrote call (some (t, st)) s evs)
    (hnext : next call asInt t st ev s = some (after, s')) :
    Wrote call (after.stage.map (t, ·)) s'
      (evs ++ eventsOf ((exchange call asInt).writes st) after) := by
  obtain ⟨hreads, piece, hpiece, hw⟩ := h
  cases hpiece with
  | used _ _ hhealthy =>
  have hreads := hreads hhealthy
  have hgoes : ∀ st' writes, .failed ∉ evs ++ eventsOf writes (.goes st' : After Stage) := by
    intro st' writes
    cases writes <;> simp [eventsOf, hhealthy]
  have hfails : ∀ writes, .failed ∈ evs ++ eventsOf writes (.fails : After Stage) := by
    intro writes
    simp [eventsOf]
  cases st with
  | writeHeader =>
      cases ev with
      | done =>
          obtain ⟨rfl, rfl⟩ := Prod.mk.inj (Option.some.inj hnext)
          refine ⟨fun _ => hreads, _, .used t .writePayload (hgoes _ _), ?_⟩
          simp [Stream.write, hw, partOf]
      | error k =>
          obtain ⟨rfl, rfl⟩ := Prod.mk.inj (Option.some.inj hnext)
          refine ⟨fun _ => hreads, (call t).header.encode.take k, .failed t (hfails _) ?_, ?_⟩
          · rw [← encode_header]
            exact (List.take_prefix _ _).trans (List.prefix_append _ _)
          · simp [Stream.write, hw, partOf]
  | writePayload =>
      cases ev with
      | done =>
          obtain ⟨rfl, rfl⟩ := Prod.mk.inj (Option.some.inj hnext)
          refine ⟨fun _ => hreads, _, .used t .readHeader (hgoes _ _), ?_⟩
          simp [Stream.write, hw, partOf, ← encode_header]
      | error k =>
          obtain ⟨rfl, rfl⟩ := Prod.mk.inj (Option.some.inj hnext)
          refine ⟨fun _ => hreads, (call t).header.encode ++ (call t).payload.take k,
            .failed t (hfails _) ?_, ?_⟩
          · rw [← encode_header, List.prefix_append_right_inj]
            exact List.take_prefix _ _
          · simp [Stream.write, hw, partOf]
  | readHeader =>
      cases ev with
      | error k =>
          obtain ⟨rfl, rfl⟩ := Prod.mk.inj (Option.some.inj hnext)
          exact ⟨fun hno => absurd (hfails _) hno, _, .failed t (hfails _) (List.prefix_refl _), hw⟩
      | done =>
          simp only [DubboClient.next, Option.map_eq_some_iff, Prod.exists] at hnext
          obtain ⟨bytes, s₁, hread, he⟩ := hnext
          obtain ⟨-, -, rest, -, rfl⟩ := read_eq_some hread
          split_ifs at he with hlong
          · obtain ⟨rfl, rfl⟩ := Prod.mk.inj he
            refine ⟨fun _ => hreads, [], .failed t (hfails _) List.nil_prefix, ?_⟩
            simp [Stream.complete, hw, partOf]
          · obtain ⟨rfl, rfl⟩ := Prod.mk.inj he
            exact ⟨fun _ => hreads, _, .used t (.readPayload _) (hgoes _ _), hw⟩
  | readPayload header =>
      cases ev with
      | error k =>
          obtain ⟨rfl, rfl⟩ := Prod.mk.inj (Option.some.inj hnext)
          exact ⟨fun hno => absurd (hfails _) hno, _, .failed t (hfails _) (List.prefix_refl _), hw⟩
      | done =>
          simp only [DubboClient.next, Option.map_eq_some_iff, Prod.exists] at hnext
          obtain ⟨bytes, s₁, hread, he⟩ := hnext
          obtain ⟨-, -, rest, -, rfl⟩ := read_eq_some hread
          obtain ⟨rfl, rfl⟩ := Prod.mk.inj he
          refine ⟨fun _ => hreads, [], .idle ?_, ?_⟩
          · simpa [eventsOf, exchange] using hhealthy
          · simp [Stream.complete, hw, partOf]

theorem keepsBy_wrote : KeepsBy (exchange call asInt) (.failed ∉ ·) anything (Wrote call) where
  fresh := ⟨fun _ => rfl, [], .idle List.not_mem_nil, rfl⟩
  fresh_ok := List.not_mem_nil
  start := by
    rintro t st s evs ⟨hreads, piece, hpiece, hw⟩ hok hst
    obtain rfl : Stage.writeHeader = st := by simpa [exchange] using hst
    cases hpiece with
    | idle => exact ⟨hreads, _, .used t .writeHeader hok, hw⟩
    | failed _ hfailed _ => exact absurd hfailed hok
  next := fun _ _ _ _ _ _ _ h _ hnext => h.next hnext
  deliver := fun _ _ _ _ h _ => h

variable [DecidableEq Tid] {cfg : PoolConfig}

/-- **A pooled connection is plain connections laid end to end.**  In every run over the pool's
connections in which no call borrows one on which another has failed, the calls that took a reply
from a connection talked on it in turn, and plain calls would have written, taken and returned
the same, or thrown; after them there is a piece of one request at most, and nothing but what is
still to be read while no call uses the connection and none has failed on it. -/
theorem pooled_as_sync {acts : List (PooledCalls.Act Tid Ev Bytes)}
    {s : State Tid (Stream Tid) Stage}
    (hok : SoundRun (exchange call asInt) cfg (.failed ∉ ·) (Pool.fresh ()) acts)
    (hrun : runCalls (exchange call asInt) cfg (Pool.fresh ()) acts = some s) (a : Addr) :
    ∃ (talks : List (Tid × Talk)) (piece rest : Bytes),
      (∀ p ∈ talks, p.2.Plain asInt (call p.1)) ∧
      (s.conns a).completed = talks.map Prod.fst ∧
      (s.conns a).written = (talks.map fun p => p.2.wrote).flatten ++ piece ∧
      (s.conns a).put = (talks.map fun p => p.2.sent).flatten ++ rest ∧
      (s.conns a).returned.map (fun r => (r.1, r.2.2)) =
        talks.filterMap (fun p => p.2.result.map (p.1, ·)) ∧
      (piece = [] ∨ ∃ t, piece <+: frame (call t).requestId (call t).payload) ∧
      ((∀ t st, ¬ Uses s t st a) → .failed ∉ s.events a →
        piece = [] ∧ rest = (s.conns a).inbox) := by
  have hk : KeepsBy (exchange call asInt) (.failed ∉ ·) anything fun o c evs =>
      Wrote call o c evs ∧ Fed asInt (o.map Prod.snd) c evs :=
    keepsBy_wrote.and (keeps_fed.keepsBy List.not_mem_nil _)
  have hinv : InvBy cfg
      (fun o c evs => Wrote call o c evs ∧ Fed asInt (o.map Prod.snd) c evs) s := by
    refine Runs.meets_invariant (fun s act s' hi hsound hstep => ?_) (invBy_init hk .fresh) hok hrun
    refine invBy_step hk hi ⟨hsound, ?_⟩ hstep
    cases act <;> simp [AsGiven, anything]
  obtain ⟨o, ho, ⟨hreads, piece, hpiece, hw⟩, rs, rest, hcut, hlen, hret, hrest⟩ :
      ∃ o, ((∀ t st, ¬ Uses s t st a) → o = none) ∧
        Wrote call o (s.conns a) (s.events a) ∧
          Fed asInt (o.map Prod.snd) (s.conns a) (s.events a) := by
    by_cases hu : ∀ t st, ¬ Uses s t st a
    · exact ⟨none, fun _ => rfl, hinv.unused hu⟩
    · obtain ⟨o, h⟩ := hinv.conn a
      exact ⟨o, fun hu' => absurd hu' hu, h⟩
  obtain ⟨talks, hplain, hts, hput, hwrote, hresults⟩ := hcut.talks call hlen
  refine ⟨talks, piece, rest, hplain, hts.symm, ?_, hput, ?_, ?_, ?_⟩
  · rw [hw, hwrote]
  · rw [hret, hresults]
  · cases hpiece with
    | idle => exact .inl rfl
    | failed t _ hpart => exact .inr ⟨t, hpart⟩
    | used t st _ => exact .inr ⟨t, partOf_prefix (call t) st⟩
  · intro hu hhealthy
    obtain rfl := ho hu
    obtain ⟨bytes, hpending, rfl⟩ := hrest (hreads hhealthy)
    obtain rfl := hpending.eq_nil (by simp)
    cases hpiece with
    | idle => exact ⟨rfl, rfl⟩
    | failed _ hfailed _ => exact absurd hfailed hhealthy

end

/-! ### A sample -/

/-- An error, and an answer. -/
def sampleReplies : Bytes :=
  (sampleHeader 31 8).encode ++ ascii "timeout\n" ++ ((sampleHeader 20 4).encode ++ ascii "1\n7\n")

/-- Two calls on one connection: the first throws, and the second gets the answer. -/
def sampleTurns : List (PooledCalls.Act ℕ Ev Bytes) :=
  [.borrow .borrowOne 1 ⟨10, some ()⟩, .io 1 .done, .io 1 .done, .env 10 sampleReplies,
   .io 1 .done, .io 1 .done, .release 1 10, .notify 1, .borrow .borrowOne 2 ⟨11, some ()⟩,
   .io 2 .done, .io 2 .done, .io 2 .done, .io 2 .done]

/-- `pooled_as_sync` at these. -/
theorem pooled_as_sync_sample :
    ∃ s, runCalls (exchange (fun _ => sampleCall) sampleAsInt) { maxSize := 1 } (Pool.fresh ())
        sampleTurns = some s ∧
      ∃ talks : List (ℕ × Talk), (∀ p ∈ talks, p.2.Plain sampleAsInt sampleCall) ∧
        talks.map Prod.fst = [1, 2] ∧
        talks.filterMap (fun p => p.2.result.map (p.1, ·)) = [(2, ⟨20, 1, ascii "7"⟩)] := by
  obtain ⟨s, hrun, hcompleted, hreturned⟩ : ∃ s,
      runCalls (exchange (fun _ => sampleCall) sampleAsInt) { maxSize := 1 } (Pool.fresh ())
        sampleTurns = some s ∧ (s.conns 10).completed = [1, 2] ∧
      (s.conns 10).returned.map (fun r => (r.1, r.2.2)) = [(2, ⟨20, 1, ascii "7"⟩)] :=
    ⟨_, rfl, by decide +kernel, by decide +kernel⟩
  have hok : SoundRun (exchange (fun _ => sampleCall) sampleAsInt) { maxSize := 1 } (.failed ∉ ·)
      (Pool.fresh ()) sampleTurns := by
    decide +kernel
  obtain ⟨talks, -, -, hplain, hcalls, -, -, hresults, -, -⟩ := pooled_as_sync hok hrun 10
  exact ⟨s, hrun, talks, hplain, hcalls.symm.trans hcompleted, hresults.symm.trans hreturned⟩

end AliMiddleware.DubboClient
