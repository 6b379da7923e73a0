import AliMiddleware.Lib.DubboServer
import AliMiddleware.Lib.PooledDrain

/-!
# Lib — DubboDrain

`dubbo_client::async_request` comes to its end.  The calls run on one thread, no read, write or
connect fails, and a server answers, in pieces of any size and whenever it likes.

Each connection then has nothing on it but whole requests and their replies in turn, and what is
unread is the first part of the reply that the call using it waits for (`InTurn`).  So the calls
keep the rules of `PooledDrain`, and however many wait for a connection each of them gets one and
takes its reply (`every_call_answered`).
-/

namespace AliMiddleware.DubboClient

open Bytes Pool PooledCalls FixedObjectPoolCoro

variable {Tid : Type}

/-- No read or write fails, and what the server sends is the next piece of its replies. -/
def prompt (v : Server) : Given Tid (Stream Tid) Stage Ev Bytes where
  io _ _ ev _ := ev = .done
  env bytes s := bytes ≠ [] ∧ v.Sends bytes s

instance (v : Server) (t : Tid) (st : Stage) (ev : Ev) (s : Stream Tid) :
    Decidable ((prompt v).io t st ev s) :=
  inferInstanceAs (Decidable (ev = .done))

instance (v : Server) (bytes : Bytes) (s : Stream Tid) : Decidable ((prompt v).env bytes s) :=
  inferInstanceAs (Decidable (_ ∧ _))

/-! ### A connection in its turn -/

variable (call : Tid → Call) (v : Server)

/-- The reply that the call using a connection has asked for. -/
def awaited : Option (Tid × Stage) → Bytes
  | some (t, .readHeader) | some (t, .readPayload _) => v.replyFrame (call t).request
  | some (_, .writeHeader) | some (_, .writePayload) => []
  | none => []

/-- What it has read of it. -/
def got : Option (Tid × Stage) → Bytes
  | some (t, .readPayload _) => (v.header (call t).request).encode
  | some (_, .writeHeader) | some (_, .writePayload) | some (_, .readHeader) => []
  | none => []

/-- The connection has the requests and the replies of the calls that used it, whole and in turn,
and the first part of the reply that the call using it waits for. -/
structure InTurn (o : Option (Tid × Stage)) (s : Stream Tid) (evs : List Event) : Prop where
  healthy : .failed ∉ evs
  going : s.ended = false
  written : s.written = ((sentBy o s.completed).map fun t =>
    frame (call t).requestId (call t).payload).flatten ++ begun call o
  put : s.put = (s.completed.map fun t => v.replyFrame (call t).request).flatten ++
    (got call v o ++ s.inbox)
  rest : got call v o ++ s.inbox <+: awaited call v o
  header : ∀ t header, o = some (t, .readPayload header) → header = v.header (call t).request

variable {call v} {asInt : Bytes → Except Exn ℤ}

/-- A header alone is no request. -/
theorem items_begun (hsize : ∀ t, (call t).payload.length < 2 ^ 32) (o : Option (Tid × Stage)) :
    requestReader.items (begun call o) = [] := by
  rcases o with _ | ⟨t, st⟩
  · rfl
  · cases st with
    | writeHeader => rfl
    | readHeader => rfl
    | readPayload header => rfl
    | writePayload =>
        refine ItemReader.items_of_none ?_
        rw [Option.eq_none_iff_forall_not_mem]
        rintro ⟨r, rest⟩ hfirst
        -- the payload after it would be left over, and it is not empty
        have hreader : requestReader.first = readFrame := rfl
        have hmore := requestReader.append (call t).payload hfirst
        have hframe : readFrame (frame (call t).requestId (call t).payload ++ []) =
            some (((call t).requestId, (call t).payload), []) := readFrame_frame (hsize t) []
        rw [hreader, begun] at hmore
        rw [List.append_nil, ← encode_header, hmore, Option.some.injEq, Prod.mk.injEq,
          List.append_eq_nil_iff] at hframe
        have hnil := congrArg List.length hframe.2.2
        rw [length_payload, List.length_nil] at hnil
        omega

/-- What the server may send is within the reply that is awaited. -/
theorem InTurn.sends (hsize : ∀ t, (call t).payload.length < 2 ^ 32) {o : Option (Tid × Stage)}
    {s : Stream Tid} {evs : List Event} (h : InTurn call v o s evs) (bytes : Bytes) :
    v.Sends bytes s ↔ got call v o ++ (s.inbox ++ bytes) <+: awaited call v o := by
  have hsent : ((sentBy o s.completed).map fun t => v.replyFrame (call t).request).flatten =
      (s.completed.map fun t => v.replyFrame (call t).request).flatten ++ awaited call v o := by
    rcases o with _ | ⟨t, st⟩
    · simp [sentBy, awaited]
    · cases st <;> simp [sentBy, awaited]
  rw [Server.Sends, h.written, items_written hsize, items_begun hsize, List.append_nil,
    List.map_map, h.put]
  have hmap : (v.replyFrame ∘ fun t => (call t).request) =
      fun t => v.replyFrame (call t).request := rfl
  rw [hmap, hsent, List.append_assoc, List.append_assoc, List.prefix_append_right_inj]

/-- A connection that awaits nothing has nothing left to read. -/
theorem InTurn.inbox_nil {o : Option (Tid × Stage)} {s : Stream Tid} {evs : List Event}
    (h : InTurn call v o s evs) (ho : awaited call v o = []) : s.inbox = [] := by
  have hnil := h.rest
  rw [ho, List.prefix_nil, List.append_eq_nil_iff] at hnil
  exact hnil.2

/-- A write. -/
theorem InTurn.write {t : Tid} {st st' : Stage} {s : Stream Tid} {evs : List Event} {bytes : Bytes}
    (h : InTurn call v (some (t, st)) s evs) (hawaited : awaited call v (some (t, st)) = [])
    (hgot : got call v (some (t, st')) = []) (hst' : ∀ header, st' ≠ .readPayload header)
    (hwritten : ((sentBy (some (t, st')) s.completed).map fun t =>
        frame (call t).requestId (call t).payload).flatten ++ begun call (some (t, st')) =
      s.written ++ bytes) :
    InTurn call v (some (t, st')) (s.write bytes) (evs ++ eventsOf true (.goes st')) := by
  have hinbox := h.inbox_nil hawaited
  have hgot' : got call v (some (t, st)) = [] := by
    have hnil := h.rest
    rw [hawaited, List.prefix_nil, List.append_eq_nil_iff] at hnil
    exact hnil.1
  refine ⟨by simp [eventsOf, h.healthy], h.going, hwritten.symm, ?_, ?_, ?_⟩
  · have hput := h.put
    rw [hgot'] at hput
    rw [hgot]
    exact hput
  · rw [hgot, List.nil_append]
    exact hinbox ▸ List.nil_prefix
  · rintro u header he
    obtain ⟨-, rfl⟩ := Prod.mk.inj (Option.some.inj he)
    exact absurd rfl (hst' header)

/-- The header of the reply is read. -/
theorem InTurn.readHeader {t : Tid} {s s' : Stream Tid} {evs : List Event} {bytes : Bytes}
    (h : InTurn call v (some (t, .readHeader)) s evs)
    (hread : s.read DubboHeader.size = some (bytes, s')) :
    DubboHeader.decode bytes = v.header (call t).request ∧
      InTurn call v (some (t, .readPayload (v.header (call t).request))) s' evs := by
  obtain ⟨-, hlen, rest, hinbox, rfl⟩ := read_eq_some hread
  have hrest : bytes ++ rest <+: (v.header (call t).request).encode ++ v.body (call t).request := by
    have hrest := h.rest
    rw [hinbox] at hrest
    exact hrest
  have hbytes : bytes = (v.header (call t).request).encode := by
    have hprefix := (List.prefix_append bytes rest).trans hrest
    have hhead := List.prefix_of_prefix_length_le hprefix (List.prefix_append _ _)
      (by rw [hlen, DubboHeader.length_encode])
    exact hhead.eq_of_length (by rw [hlen, DubboHeader.length_encode])
  subst hbytes
  refine ⟨v.decode_header _, h.healthy, h.going, h.written, ?_, hrest, ?_⟩
  · have hput := h.put
    rw [hinbox] at hput
    exact hput
  · rintro u header he
    obtain ⟨rfl, hst⟩ := Prod.mk.inj (Option.some.inj he)
    exact (Stage.readPayload.inj hst).symm

/-- The whole reply is read. -/
theorem InTurn.readPayload {t : Tid} {header : DubboHeader} {s s' : Stream Tid} {evs : List Event}
    {bytes : Bytes} (h : InTurn call v (some (t, .readPayload header)) s evs)
    (hread : s.read header.announced = some (bytes, s')) :
    (⟨header, some bytes⟩ : Reply) = v.reply (call t).request ∧
      ∀ asInt, InTurn call v none (s'.complete asInt t ⟨header, some bytes⟩) evs := by
  obtain rfl := h.header t header rfl
  obtain ⟨-, hlen, rest, hinbox, rfl⟩ := read_eq_some hread
  rw [v.announced_header] at hlen
  have hrest : bytes ++ rest <+: v.body (call t).request := by
    have hrest := h.rest
    rw [hinbox] at hrest
    exact (List.prefix_append_right_inj _).mp hrest
  obtain rfl : bytes = v.body (call t).request :=
    ((List.prefix_append bytes rest).trans hrest).eq_of_length hlen
  obtain rfl : rest = [] := by
    have hle := hrest.length_le
    rw [List.length_append] at hle
    exact List.eq_nil_of_length_eq_zero (by omega)
  refine ⟨rfl, fun asInt => ⟨h.healthy, h.going, ?_, ?_, List.nil_prefix, by simp⟩⟩
  · exact h.written
  · have hput := h.put
    rw [hinbox] at hput
    simpa [Stream.complete, got, Server.replyFrame] using hput

/-- **Every step of the calls and of the server keeps the turn.** -/
theorem keepsBy_inTurn (hsize : ∀ t, (call t).payload.length < 2 ^ 32) :
    KeepsBy (exchange call asInt) (fun _ => True) (prompt v) (InTurn call v) where
  fresh := ⟨List.not_mem_nil, rfl, rfl, rfl, List.nil_prefix, by simp⟩
  fresh_ok := trivial
  start := by
    intro t st s evs h _ hst
    obtain rfl : Stage.writeHeader = st := by simpa [exchange] using hst
    exact ⟨h.healthy, h.going, h.written, h.put, h.rest, by simp⟩
  next := by
    intro t st ev s evs after s' h hev hnext
    obtain rfl : ev = .done := hev
    cases st with
    | writeHeader =>
        obtain ⟨rfl, rfl⟩ := Prod.mk.inj (Option.some.inj hnext)
        refine h.write rfl rfl (by simp) ?_
        rw [h.written]
        simp [sentBy, begun]
    | writePayload =>
        obtain ⟨rfl, rfl⟩ := Prod.mk.inj (Option.some.inj hnext)
        refine h.write rfl rfl (by simp) ?_
        rw [h.written]
        simp [sentBy, begun, encode_header]
    | readHeader =>
        simp only [exchange, next, Option.map_eq_some_iff, Prod.exists] at hnext
        obtain ⟨bytes, s₁, hread, he⟩ := hnext
        obtain ⟨hdecode, hturn⟩ := h.readHeader hread
        simp only [hdecode, v.not_tooLong, if_false, Prod.mk.injEq] at he
        obtain ⟨rfl, rfl⟩ := he
        simpa [exchange, eventsOf, After.stage] using hturn
    | readPayload header =>
        simp only [exchange, next, Option.map_eq_some_iff, Prod.exists] at hnext
        obtain ⟨bytes, s₁, hread, he⟩ := hnext
        obtain ⟨rfl, rfl⟩ := Prod.mk.inj he
        simpa [exchange, eventsOf, After.stage] using (h.readPayload hread).2 asInt
  deliver := by
    intro o bytes s evs h hsends
    refine ⟨h.healthy, h.going, h.written, ?_, (h.sends hsize bytes).mp hsends.2, h.header⟩
    simp [exchange, Stream.deliver, h.put]

/-! ### Every call ends -/

/-- The steps that a stage and those after it take, reads of a reply's bytes apart. -/
def place : Stage → ℕ
  | .writeHeader => 4
  | .writePayload => 3
  | .readHeader => 2
  | .readPayload _ => 1

/-- What a call has left to do: its stages, and the bytes of its reply that are still to come. -/
def rank (call : Tid → Call) (v : Server) (t : Tid) (st : Stage) (s : Stream Tid) : ℕ :=
  place st + ((v.replyFrame (call t).request).length -
    ((got call v (some (t, st))).length + s.inbox.length))

theorem length_replyFrame_le (r : UInt64 × Bytes) :
    (v.replyFrame r).length ≤ 16 + 1024 * 1024 * 1024 := by
  rw [Server.replyFrame, List.length_append, DubboHeader.length_encode]
  exact Nat.add_le_add_left (v.carries r).length _

theorem ends_inTurn (hsize : ∀ t, (call t).payload.length < 2 ^ 32) :
    Ends (exchange call asInt) (prompt v) (InTurn call v) (rank call v)
      (20 + 1024 * 1024 * 1024) where
  start := by
    intro t st s evs _ hst
    obtain rfl : Stage.writeHeader = st := by simpa [exchange] using hst
    have hlen := length_replyFrame_le (v := v) (call t).request
    simp only [rank, place, got, List.length_nil]
    omega
  next := by
    intro t st ev s evs after s' h hev hnext
    obtain rfl : ev = .done := hev
    cases st with
    | writeHeader =>
        obtain ⟨rfl, rfl⟩ := Prod.mk.inj (Option.some.inj hnext)
        simp [rank, place, got, After.stage, Stream.write]
    | writePayload =>
        obtain ⟨rfl, rfl⟩ := Prod.mk.inj (Option.some.inj hnext)
        simp [rank, place, got, After.stage, Stream.write]
    | readHeader =>
        simp only [exchange, next, Option.map_eq_some_iff, Prod.exists] at hnext
        obtain ⟨bytes, s₁, hread, he⟩ := hnext
        obtain ⟨hdecode, -⟩ := h.readHeader hread
        simp only [hdecode, v.not_tooLong, if_false, Prod.mk.injEq] at he
        obtain ⟨rfl, rfl⟩ := he
        obtain ⟨-, hlen, rest, hinbox, rfl⟩ := read_eq_some hread
        simp only [rank, place, got, After.stage, Option.elim_some, hinbox, List.length_append,
          List.length_nil, hlen, DubboHeader.length_encode]
        omega
    | readPayload header =>
        simp only [exchange, next, Option.map_eq_some_iff, Prod.exists] at hnext
        obtain ⟨bytes, s₁, hread, he⟩ := hnext
        obtain ⟨rfl, rfl⟩ := Prod.mk.inj he
        simp [rank, place, After.stage]
  deliver := by
    intro t st bytes s evs h hsends
    have hprefix := ((h.sends hsize bytes).mp hsends.2).length_le
    have hpos := List.length_pos_iff.mpr hsends.1
    have hframe : (awaited call v (some (t, st))).length ≤
        (v.replyFrame (call t).request).length := by
      cases st <;> simp [awaited]
    simp only [List.length_append] at hprefix
    simp only [rank, exchange, Stream.deliver, List.length_append]
    omega
  quiet := by
    intro bytes s evs h hsends
    have hprefix := (h.sends hsize bytes).mp hsends.2
    rw [awaited, List.prefix_nil] at hprefix
    exact hsends.1 (by simp_all)
  moves := by
    intro t st s evs h
    obtain ⟨more, hmore⟩ := h.rest
    by_cases hnil : more = []
    · -- all of the reply is there, so far as one is awaited
      left
      rw [hnil, List.append_nil] at hmore
      refine ⟨.done, rfl, ?_⟩
      cases st with
      | writeHeader => exact ⟨_, rfl⟩
      | writePayload => exact ⟨_, rfl⟩
      | readHeader =>
          have hle : DubboHeader.size ≤ s.inbox.length := by
            have hlen := congrArg List.length hmore
            simp only [got, awaited, Server.replyFrame, List.nil_append, List.length_append,
              DubboHeader.length_encode] at hlen
            omega
          simp [exchange, next, Stream.read, h.going, hle]
      | readPayload header =>
          obtain rfl := h.header t header rfl
          have hbody : s.inbox = v.body (call t).request := by
            simpa [got, awaited, Server.replyFrame] using hmore
          simp [exchange, next, Stream.read, h.going, hbody, v.announced_header]
    · right
      refine ⟨more, hnil, (h.sends hsize more).mpr ?_⟩
      rw [← List.append_assoc, hmore]

/-- The call took its reply, and returned what the server answers to its payload where that has
a value. -/
def Answers (call : Tid → Call) (v : Server) (t : Tid) (s : Stream Tid) : Prop :=
  t ∈ s.completed ∧ ∀ result, (v.service (call t).payload).result = some result →
    (t, v.header (call t).request, result) ∈ s.returned

/-- What a step adds to the calls that took a reply and to those that returned stays. -/
theorem Answers.mono {t : Tid} {s s' : Stream Tid} (h : Answers call v t s)
    (hc : s.completed ⊆ s'.completed) (hr : s.returned ⊆ s'.returned) : Answers call v t s' :=
  ⟨hc h.1, fun result hresult => hr (h.2 result hresult)⟩

theorem returned_subset_complete (t : Tid) (r : Reply) (s : Stream Tid) (inbox : Bytes) :
    s.returned ⊆ (Stream.complete asInt t r { s with inbox := inbox }).returned := by
  intro x hx
  simp only [Stream.complete]
  cases readReply asInt r with
  | ok result => exact List.mem_append_left _ hx
  | error e => exact hx

theorem reaches_answers (hasInt : ∀ n : ℕ, n < 2 ^ 31 → asInt (decimal n) = .ok n) :
    Reaches (exchange call asInt) (prompt v) (InTurn call v) (Answers call v) where
  unused := by
    intro t s hnone
    cases hnone
  ends := by
    intro t st ev s evs after s' h hev hnext hafter
    obtain rfl : ev = .done := hev
    cases st with
    | writeHeader =>
        obtain ⟨rfl, rfl⟩ := Prod.mk.inj (Option.some.inj hnext)
        cases hafter
    | writePayload =>
        obtain ⟨rfl, rfl⟩ := Prod.mk.inj (Option.some.inj hnext)
        cases hafter
    | readHeader =>
        simp only [exchange, next, Option.map_eq_some_iff, Prod.exists] at hnext
        obtain ⟨bytes, s₁, hread, he⟩ := hnext
        obtain ⟨hdecode, -⟩ := h.readHeader hread
        simp only [hdecode, v.not_tooLong, if_false, Prod.mk.injEq] at he
        obtain ⟨rfl, -⟩ := he
        cases hafter
    | readPayload header =>
        simp only [exchange, next, Option.map_eq_some_iff, Prod.exists] at hnext
        obtain ⟨bytes, s₁, hread, he⟩ := hnext
        obtain ⟨rfl, rfl⟩ := Prod.mk.inj he
        have hreply := (h.readPayload hread).1
        refine ⟨by simp [Stream.complete], fun result hresult => ?_⟩
        have hread := v.readReply_reply hasInt (call t).request
        rw [← hreply, Call.request, hresult] at hread
        cases hok : readReply asInt ⟨header, some bytes⟩ with
        | error e => simp [hok, Except.toOption] at hread
        | ok result' =>
            obtain rfl : result' = result := by simpa [hok, Except.toOption] using hread
            have hheader : header = v.header (call t).request := congrArg Reply.header hreply
            rw [← hheader]
            simp [Stream.complete, hok]
  next := by
    intro u t st ev s after s' hu hnext
    cases next_stepped hnext with
    | writes bytes _ _ => exact hu
    | fails k => exact hu
    | abandons _ _ _ _ =>
        exact hu.mono (List.subset_append_left _ _) (returned_subset_complete t _ s _)
    | header _ _ _ _ => exact hu
    | payload _ _ _ =>
        exact hu.mono (List.subset_append_left _ _) (returned_subset_complete t _ s _)
  deliver := fun _ _ _ hu => hu

variable [DecidableEq Tid] {cfg : PoolConfig}

/-- **Every call gets its answer.**  On one thread, where nothing fails and the server answers: once
no call comes any more, the calls and the server go on for at most `load` steps, in any order; and
when none of these steps is possible any more every call has given its connection back and has
returned what the server answers to its payload, where that has a value. -/
theorem every_call_answered (hsize : ∀ t, (call t).payload.length < 2 ^ 32)
    (hasInt : ∀ n : ℕ, n < 2 ^ 31 → asInt (decimal n) = .ok n) (hpos : 0 < cfg.maxSize)
    {p : Pool Unit Unit} (hp : Start cfg p) {s s' : State Tid (Stream Tid) Stage}
    {as bs : List (PooledCalls.Act Tid Ev Bytes)}
    (hcalm : Runs.Meets (step (exchange call asInt) cfg) (Calm (prompt v))
      (init (exchange call asInt) p) as)
    (has : runCalls (exchange call asInt) cfg p as = some s)
    (hdrain : Runs.Meets (step (exchange call asInt) cfg) (Draining (prompt v)) s bs)
    (hbs : Runs.run (step (exchange call asInt) cfg) s bs = some s') :
    bs.length ≤ load (rank call v) (20 + 1024 * 1024 * 1024) s ∧
      (Stopped (exchange call asInt) cfg (prompt v) s' → (∀ t, s'.Left t) ∧
        ∀ t, (∃ act ∈ as, Comes t act) → ∃ a ∈ s'.nodes, Answers call v t (s'.conns a)) :=
  calls_end (keepsBy_inTurn hsize) (fun _ _ _ => trivial) (ends_inTurn hsize)
    (reaches_answers hasInt) hpos hp hcalm has hdrain hbs

/-- Three calls for one connection; the first has it. -/
def sampleCrowd : List (PooledCalls.Act ℕ Ev Bytes) :=
  [.borrow .borrowOne 1 ⟨10, some ()⟩, .borrow .borrowOne 2 ⟨11, some ()⟩, .register 2,
   .io 1 .done, .borrow .borrowOne 3 ⟨11, some ()⟩, .register 3]

/-- Each uses it in turn; a reply may come in pieces. -/
def sampleEnd : List (PooledCalls.Act ℕ Ev Bytes) :=
  let reply (t : ℕ) := sampleServer.replyFrame (0x1998427, (sampleCalls t).payload)
  [.io 1 .done, .env 10 ((reply 1).take 18), .io 1 .done, .env 10 ((reply 1).drop 18),
   .io 1 .done, .release 1 10, .notify 1,
   .borrow .resumed 2 ⟨11, some ()⟩, .io 2 .done, .io 2 .done, .env 10 (reply 2), .io 2 .done,
   .io 2 .done, .release 2 10, .notify 2,
   .borrow .resumed 3 ⟨11, some ()⟩, .io 3 .done, .io 3 .done, .env 10 (reply 3), .io 3 .done,
   .io 3 .done, .release 3 10, .notify 3]

/-- `every_call_answered` at these. -/
theorem every_call_answered_sample : ∃ s s',
    runCalls (exchange sampleCalls sampleAsInt) { maxSize := 1 } (Pool.fresh ()) sampleCrowd =
        some s ∧
      Runs.run (step (exchange sampleCalls sampleAsInt) { maxSize := 1 }) s sampleEnd = some s' ∧
      ∃ a ∈ s'.nodes, Answers sampleCalls sampleServer 3 (s'.conns a) := by
  obtain ⟨s, hrun, s', hrun', hstages, hlent, hslow, hnotifying⟩ : ∃ s,
      runCalls (exchange sampleCalls sampleAsInt) { maxSize := 1 } (Pool.fresh ()) sampleCrowd =
        some s ∧ ∃ s',
      Runs.run (step (exchange sampleCalls sampleAsInt) { maxSize := 1 }) s sampleEnd = some s' ∧
        s'.stages = [] ∧ s'.pool.lent = [] ∧ s'.pool.slow = [] ∧ s'.pool.notifying = [] :=
    ⟨_, rfl, _, rfl, rfl, rfl, rfl, rfl⟩
  have hcalm : Runs.Meets (step (exchange sampleCalls sampleAsInt) { maxSize := 1 })
      (Calm (prompt sampleServer)) (init (exchange sampleCalls sampleAsInt) (Pool.fresh ()))
      sampleCrowd := by
    decide +kernel
  have hdrain : Runs.Meets (step (exchange sampleCalls sampleAsInt) { maxSize := 1 })
      (Draining (prompt sampleServer)) s sampleEnd := by
    obtain rfl := Option.some.inj hrun
    decide +kernel
  have hleft : ∀ t, s'.Left t := by
    intro t
    simp [State.Left, FixedObjectPoolCoro.State.Idle, hstages, hlent, hslow, hnotifying]
  obtain ⟨-, hend⟩ := every_call_answered length_sampleCalls sampleAsInt_decimal Nat.one_pos
    .fresh hcalm hrun hdrain hrun'
  have hkeeps : KeepsBy (exchange sampleCalls sampleAsInt) (fun _ => True) (prompt sampleServer)
      (InTurn sampleCalls sampleServer) := keepsBy_inTurn length_sampleCalls
  have hs := onThread_run hkeeps (fun _ _ _ => trivial) (fun _ _ h => h)
    (onThread_init hkeeps .fresh) hcalm hrun
  have hs' := onThread_run hkeeps (fun _ _ _ => trivial) (fun _ _ h => h.1) hs hdrain hrun'
  have hstop : Stopped (exchange sampleCalls sampleAsInt) { maxSize := 1 } (prompt sampleServer)
      s' := (hs'.stopped_iff (ends_inTurn length_sampleCalls) Nat.one_pos).mpr hleft
  exact ⟨s, s', hrun, hrun', (hend hstop).2 3
    ⟨.borrow .borrowOne 3 ⟨11, some ()⟩, by simp [sampleCrowd], _, rfl⟩⟩

end AliMiddleware.DubboClient
