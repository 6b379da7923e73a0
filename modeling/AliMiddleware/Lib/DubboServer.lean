import AliMiddleware.Lib.CallRule
import AliMiddleware.Lib.DubboAnswers
import AliMiddleware.Lib.DubboReplies
import AliMiddleware.Lib.DubboRequests
import AliMiddleware.Support.Streams

/-!
# Lib — DubboServer

The calls of a `dubbo_client` (`lib/dubbo_client.hpp`) with a server that answers.  The server
reads the requests of a connection one after another, and puts the replies to them on it in the
same order, in pieces of any size and whenever it likes; a reply has the id of its request.

The client does not look at the ids, and the calls overlap on the pool's connections in any order.
Still each call gets the answer to its own request, or throws as that answer makes it, in every
run in which no call borrows a connection on which another has failed (`returned_served`).
-/

namespace AliMiddleware.DubboClient

open Bytes Pool PooledCalls FixedObjectPoolCoro

/-! ### Requests and replies, read from a stream -/

theorem readFrame_eq_some {s rest : Bytes} {r : UInt64 × Bytes} :
    readFrame s = some (r, rest) ↔
      ∃ head, head.length = DubboHeader.size ∧ s = head ++ (r.2 ++ rest) ∧
        r.1 = (ofLe ((head.drop 4).take 8)).toUInt64 ∧
        r.2.length = ofLe ((head.drop 12).take 4).reverse := by
  obtain ⟨requestId, payload⟩ := r
  constructor
  · intro h
    simp only [readFrame, Option.ite_none_right_eq_some, Option.some.injEq, Prod.mk.injEq] at h
    obtain ⟨⟨hsize, hlen⟩, ⟨rfl, rfl⟩, rfl⟩ := h
    refine ⟨s.take DubboHeader.size, List.length_take_of_le hsize, ?_, ?_, ?_⟩
    · rw [List.take_append_drop, List.take_append_drop]
    · simp [List.drop_take, List.take_take, DubboHeader.size]
    · simp only [List.drop_take, List.take_take, List.length_take, DubboHeader.size] at hlen ⊢
      exact Nat.min_eq_left hlen
  · rintro ⟨head, hsize, rfl, rfl, hlen⟩
    have hid : ((head ++ (payload ++ rest)).drop 4).take 8 = (head.drop 4).take 8 := by
      rw [List.drop_append_of_le_length (by rw [hsize]; decide),
        List.take_append_of_le_length (by rw [List.length_drop, hsize]; decide)]
    have hlength : ((head ++ (payload ++ rest)).drop 12).take 4 = (head.drop 12).take 4 := by
      rw [List.drop_append_of_le_length (by rw [hsize]; decide),
        List.take_append_of_le_length (by rw [List.length_drop, hsize]; decide)]
    have hrest : (head ++ (payload ++ rest)).drop DubboHeader.size = payload ++ rest := by
      rw [← hsize, List.drop_left]
    have hfits : DubboHeader.size ≤ (head ++ (payload ++ rest)).length ∧
        payload.length ≤ (payload ++ rest).length := by
      constructor
      · rw [List.length_append, hsize]
        exact Nat.le_add_right _ _
      · simp
    rw [readFrame, hid, hlength, hrest, ← hlen, if_pos hfits, List.take_left, List.drop_left]

/-- The requests of a stream. -/
def requestReader : ItemReader UInt8 (UInt64 × Bytes) where
  first := readFrame
  shorter := by
    intro s rest r h
    obtain ⟨head, hsize, rfl, -, -⟩ := readFrame_eq_some.mp h
    have hpos : 0 < head.length := by rw [hsize]; decide
    simp only [List.length_append]
    omega
  append := by
    intro s rest r more h
    obtain ⟨head, hsize, rfl, hid, hlen⟩ := readFrame_eq_some.mp h
    refine readFrame_eq_some.mpr ⟨head, hsize, ?_, hid, hlen⟩
    rw [List.append_assoc, List.append_assoc]

/-- What a server reads of a request. -/
def Call.request (c : Call) : UInt64 × Bytes := (c.requestId, c.payload)

theorem length_payload (c : Call) : c.payload.length =
    37 + (2 * c.serviceName.length + c.methodName.length + c.methodArgType.length +
      c.methodArg.length) := by
  have hwords : (ascii "2.0.1").length = 5 ∧ (ascii "null").length = 4 ∧
      (ascii "path").length = 4 := by decide
  simp [Call.payload, payload_eq, payloadLines, quoted, hwords]
  omega

/-! ### A server -/

/-- A server: what it answers to a payload, and how it says it in a reply. -/
structure Server where
  service : Bytes → Answer
  header : UInt64 × Bytes → DubboHeader
  body : UInt64 × Bytes → Bytes
  carries : ∀ r, Carries (header r) (body r) (service r.2)
  isResponse : ∀ r, (header r).isRequest = false ∧ (header r).isEvent = false
  requestId : ∀ r, (header r).requestId = r.1

namespace Server

variable {Tid : Type} (v : Server)

def reply (r : UInt64 × Bytes) : Reply := ⟨v.header r, some (v.body r)⟩

/-- A reply on the wire. -/
def replyFrame (r : UInt64 × Bytes) : Bytes := (v.header r).encode ++ v.body r

/-- What the server can put on a connection: its replies to the requests there, in order, so far
as the requests are there, and in any pieces. -/
def Sends (bytes : Bytes) (s : Stream Tid) : Prop :=
  s.put ++ bytes <+: ((requestReader.items s.written).map v.replyFrame).flatten

instance (bytes : Bytes) (s : Stream Tid) : Decidable (v.Sends bytes s) :=
  inferInstanceAs (Decidable (_ <+: _))

/-- A reply announces its body. -/
theorem announced_header (r : UInt64 × Bytes) : (v.header r).announced = (v.body r).length :=
  DubboHeader.announced_swapBytes (Nat.lt_of_le_of_lt (v.carries r).length (by decide))
    (v.carries r).dataLength

theorem not_tooLong (r : UInt64 × Bytes) : ¬ (v.header r).TooLong := by
  rw [DubboHeader.TooLong, v.announced_header]
  exact Nat.not_lt.mpr (v.carries r).length

theorem decode_header (r : UInt64 × Bytes) :
    DubboHeader.decode (v.header r).encode = v.header r := by
  have hself := DubboHeader.decode_encode (v.header r) []
  rwa [List.append_nil] at hself

theorem takes_replyFrame (r : UInt64 × Bytes) (rest : Bytes) :
    takeReply (v.replyFrame r ++ rest) = some (v.reply r, rest) := by
  have htakes : Takes ((v.header r).encode ++ (v.body r ++ rest))
      ⟨DubboHeader.decode (v.header r).encode, some (v.body r)⟩ rest :=
    .whole (DubboHeader.length_encode _) (by rw [v.decode_header]; exact v.not_tooLong r)
      (by rw [v.decode_header, v.announced_header])
  rw [v.decode_header] at htakes
  rw [replyFrame, List.append_assoc]
  exact takeReply_eq_some.mpr htakes

end Server

/-- What `async_request` returns for an answer, when it does not throw. -/
def Answer.result : Answer → Option RequestResult
  | .value v => some ⟨StatusT.ok.code, ResultType.responseValue.code, v⟩
  | .withException v => some ⟨StatusT.ok.code, ResultType.responseWithException.code, v⟩
  | .nullValue | .failure _ _ _ => none

/-- What the client makes of a reply of the server. -/
theorem Server.readReply_reply (v : Server) {asInt : Bytes → Except Exn ℤ}
    (hasInt : ∀ n : ℕ, n < 2 ^ 31 → asInt (decimal n) = .ok n) (r : UInt64 × Bytes) :
    (readReply asInt (v.reply r)).toOption = (v.service r.2).result := by
  have hcarries := v.carries r
  obtain ⟨hmagic, hstatus, hlines, -, -⟩ := hcarries
  cases hanswer : v.service r.2 with
  | value value =>
      rw [hanswer] at hstatus hlines
      have htype := hasInt ResultType.responseValue.code (by decide)
      have hread := readReply_two hmagic hlines htype
      rw [Server.reply, hread, hstatus]
      rfl
  | withException value =>
      rw [hanswer] at hstatus hlines
      have htype := hasInt ResultType.responseWithException.code (by decide)
      have hread := readReply_two hmagic hlines htype
      rw [Server.reply, hread, hstatus]
      rfl
  | nullValue =>
      rw [hanswer] at hlines
      rw [Server.reply, readReply_one hmagic hlines]
      rfl
  | failure status notOk text =>
      rw [hanswer] at hlines
      rw [Server.reply, readReply_one hmagic hlines]
      rfl

/-! ### The requests of a connection -/

section

variable {Tid : Type}

/-- The calls whose requests are on the connection, while `o` uses it. -/
def sentBy : Option (Tid × Stage) → List Tid → List Tid
  | some (t, .readHeader), completed | some (t, .readPayload _), completed => completed ++ [t]
  | some (_, .writeHeader), completed | some (_, .writePayload), completed => completed
  | none, completed => completed

/-- What is on it after these. -/
def begun (call : Tid → Call) : Option (Tid × Stage) → Bytes
  | some (t, .writePayload) => (call t).header.encode
  | some (_, .writeHeader) | some (_, .readHeader) | some (_, .readPayload _) => []
  | none => []

/-- A connection with the server: the replies are to the requests on it, the calls that took one
are the first that sent one, and until a call fails nothing else is on it. -/
structure Served (call : Tid → Call) (v : Server) (o : Option (Tid × Stage)) (s : Stream Tid)
    (evs : List Event) : Prop where
  put : s.put <+: ((requestReader.items s.written).map v.replyFrame).flatten
  completed : s.completed.map (fun t => (call t).request) <+: requestReader.items s.written
  healthy : o.isSome = true → .failed ∉ evs
  written : .failed ∉ evs → s.written = ((sentBy o s.completed).map fun t =>
    frame (call t).requestId (call t).payload).flatten ++ begun call o

variable {call : Tid → Call} {asInt : Bytes → Except Exn ℤ} {v : Server}

/-- The requests that are on the connection are those of the calls that wrote one. -/
theorem items_written {ts : List Tid} {piece : Bytes}
    (hsize : ∀ t, (call t).payload.length < 2 ^ 32) :
    requestReader.items
        ((ts.map fun t => frame (call t).requestId (call t).payload).flatten ++ piece) =
      ts.map (fun t => (call t).request) ++ requestReader.items piece :=
  ItemReader.items_encoded (fun t _ rest => readFrame_frame (hsize t) rest) piece

/-- A write of the call `t`, which may fail. -/
theorem Served.write {t : Tid} {st : Stage} {s : Stream Tid} {evs : List Event} {bytes : Bytes}
    {after : After Stage} (h : Served call v (some (t, st)) s evs)
    (hsent : sentBy (some (t, st)) s.completed = s.completed)
    (hafter : after.stage.isSome = true →
      ((sentBy (after.stage.map (t, ·)) s.completed).map fun t =>
          frame (call t).requestId (call t).payload).flatten ++
          begun call (after.stage.map (t, ·)) =
        (s.completed.map fun t => frame (call t).requestId (call t).payload).flatten ++
          (begun call (some (t, st)) ++ bytes))
    (hends : after ≠ .ends) :
    Served call v (after.stage.map (t, ·)) (s.write bytes) (evs ++ eventsOf true after) := by
  have hmore : requestReader.items s.written <+: requestReader.items (s.write bytes).written :=
    ItemReader.items_append s.written bytes
  refine ⟨?_, h.completed.trans hmore, ?_, ?_⟩
  · obtain ⟨more, hmore⟩ := hmore
    rw [← hmore, List.map_append, List.flatten_append]
    exact h.put.trans (List.prefix_append _ _)
  · intro hgoes
    cases after with
    | goes st' => simp [eventsOf, h.healthy rfl]
    | ends => cases hgoes
    | fails => cases hgoes
  · intro hhealthy
    cases after with
    | goes st' =>
        have hbefore := h.written (h.healthy rfl)
        rw [hsent] at hbefore
        have hw : (s.write bytes).written = s.written ++ bytes := rfl
        have hc : (s.write bytes).completed = s.completed := rfl
        rw [hw, hc, hafter rfl, hbefore, List.append_assoc]
    | ends => exact absurd rfl hends
    | fails => simp [eventsOf] at hhealthy

/-- A read that takes no reply. -/
theorem Served.read {t : Tid} {st : Stage} {s s' : Stream Tid} {evs evs' : List Event}
    {o : Option (Tid × Stage)} (h : Served call v (some (t, st)) s evs)
    (hw : s'.written = s.written) (hp : s'.put = s.put) (hc : s'.completed = s.completed)
    (hhealthy : o.isSome = true → .failed ∉ evs')
    (hsame : .failed ∉ evs' → sentBy o s.completed = sentBy (some (t, st)) s.completed ∧
      begun call o = begun call (some (t, st))) : Served call v o s' evs' := by
  refine ⟨?_, ?_, hhealthy, ?_⟩
  · rw [hw, hp]
    exact h.put
  · rw [hw, hc]
    exact h.completed
  · intro hnone
    obtain ⟨hsent, hbegun⟩ := hsame hnone
    rw [hw, hc, hsent, hbegun]
    exact h.written (h.healthy rfl)

/-- The call `t` takes its reply. -/
theorem Served.complete (hsize : ∀ t, (call t).payload.length < 2 ^ 32) {t : Tid} {st : Stage}
    {s s' : Stream Tid} {evs evs' : List Event} (h : Served call v (some (t, st)) s evs)
    (hsent : sentBy (some (t, st)) s.completed = s.completed ++ [t])
    (hbegun : begun call (some (t, st)) = [])
    (hw : s'.written = s.written) (hp : s'.put = s.put) (hc : s'.completed = s.completed ++ [t]) :
    Served call v none s' evs' := by
  have hall := h.written (h.healthy rfl)
  rw [hsent, hbegun] at hall
  refine ⟨?_, ?_, by simp, fun _ => ?_⟩
  · rw [hw, hp]
    exact h.put
  · rw [hw, hc, hall, items_written hsize]
    exact List.prefix_append _ _
  · rw [hw, hc]
    exact hall

/-- What is known: the server answers. -/
def answering (v : Server) : Given Tid (Stream Tid) Stage Ev Bytes where
  io _ _ _ _ := True
  env := v.Sends

instance (v : Server) (bytes : Bytes) (s : Stream Tid) :
    Decidable ((answering v).env bytes s) :=
  inferInstanceAs (Decidable (v.Sends bytes s))

instance (v : Server) (t : Tid) (st : Stage) (ev : Ev) (s : Stream Tid) :
    Decidable ((answering v).io t st ev s) := isTrue trivial

/-- **Every step of the calls and of the server keeps it.** -/
theorem keepsBy_served (hsize : ∀ t, (call t).payload.length < 2 ^ 32) :
    KeepsBy (exchange call asInt) (.failed ∉ ·) (answering v) (Served call v) where
  fresh := ⟨List.nil_prefix, List.nil_prefix, by simp, fun _ => rfl⟩
  fresh_ok := List.not_mem_nil
  start := by
    intro t st s evs h hok hst
    obtain rfl : Stage.writeHeader = st := by simpa [exchange] using hst
    exact ⟨h.put, h.completed, fun _ => hok, h.written⟩
  next := by
    intro t st ev s evs after s' h _ hnext
    cases st with
    | writeHeader =>
        cases ev with
        | done =>
            obtain ⟨rfl, rfl⟩ := Prod.mk.inj (Option.some.inj hnext)
            exact h.write rfl (fun _ => rfl) (by simp)
        | error k =>
            obtain ⟨rfl, rfl⟩ := Prod.mk.inj (Option.some.inj hnext)
            exact h.write rfl (by simp [After.stage]) (by simp)
    | writePayload =>
        cases ev with
        | done =>
            obtain ⟨rfl, rfl⟩ := Prod.mk.inj (Option.some.inj hnext)
            refine h.write rfl (fun _ => ?_) (by simp)
            -- with its second write the frame is whole
            simp [After.stage, sentBy, begun, encode_header]
        | error k =>
            obtain ⟨rfl, rfl⟩ := Prod.mk.inj (Option.some.inj hnext)
            exact h.write rfl (by simp [After.stage]) (by simp)
    | readHeader =>
        cases ev with
        | error k =>
            obtain ⟨rfl, rfl⟩ := Prod.mk.inj (Option.some.inj hnext)
            exact h.read rfl rfl rfl (by simp [After.stage]) (by simp [eventsOf])
        | done =>
            simp only [next, exchange, Option.map_eq_some_iff, Prod.exists] at hnext
            obtain ⟨bytes, s₁, hread, he⟩ := hnext
            obtain ⟨-, -, rest, -, rfl⟩ := read_eq_some hread
            by_cases hlong : (DubboHeader.decode bytes).TooLong
            · simp only [hlong, if_true, Prod.mk.injEq] at he
              obtain ⟨rfl, rfl⟩ := he
              exact h.complete hsize rfl rfl rfl rfl rfl
            · simp only [hlong, if_false, Prod.mk.injEq] at he
              obtain ⟨rfl, rfl⟩ := he
              refine h.read rfl rfl rfl (fun _ => ?_) (fun _ => ⟨rfl, rfl⟩)
              simpa [eventsOf, exchange] using h.healthy rfl
    | readPayload header =>
        cases next_stepped hnext with
        | writes bytes hst _ => exact absurd rfl (hst header)
        | fails k => exact h.read rfl rfl rfl (by simp [After.stage]) (by simp [eventsOf])
        | payload _ _ _ => exact h.complete hsize rfl rfl rfl rfl rfl
  deliver := fun _ _ _ _ h hsends => ⟨hsends, h.completed, h.healthy, h.written⟩

/-! ### Answers -/

/-- The replies that were taken are those to the requests of the calls that took them. -/
theorem Served.taken_eq {o : Option (Tid × Stage)} {s : Stream Tid} {evs : List Event}
    {rs : List Reply} {rest : Bytes} (h : Served call v o s evs) (hcut : Cut s.put rs rest)
    (hlen : rs.length = s.completed.length) :
    rs = s.completed.map fun t => v.reply (call t).request := by
  have hreads : ∀ r ∈ requestReader.items s.written, ∀ rest,
      replyReader.first (v.replyFrame r ++ rest) = some (v.reply r, rest) := by
    intro r _ rest
    rw [first_replyReader]
    exact v.takes_replyFrame r rest
  have hput : replies s.put <+: (requestReader.items s.written).map v.reply := by
    rw [replies]
    exact ItemReader.items_prefix_encoded hreads h.put
  have htaken : rs <+: (requestReader.items s.written).map v.reply := by
    rw [hcut.replies] at hput
    exact (List.prefix_append _ _).trans hput
  have hdue : s.completed.map (fun t => v.reply (call t).request) <+:
      (requestReader.items s.written).map v.reply := by
    have hmap := h.completed.map v.reply
    rwa [List.map_map] at hmap
  have hsame : rs.length = (s.completed.map fun t => v.reply (call t).request).length := by
    rw [List.length_map, hlen]
  exact (List.prefix_of_prefix_length_le htaken hdue hsame.le).eq_of_length hsame

/-- **The calls of a connection return what the server answers to each.** -/
theorem Served.returned_eq {o o' : Option (Tid × Stage)} {s : Stream Tid} {evs : List Event}
    (hasInt : ∀ n : ℕ, n < 2 ^ 31 → asInt (decimal n) = .ok n) (h : Served call v o s evs)
    (hfed : Fed asInt (o'.map Prod.snd) s evs) :
    s.returned = s.completed.filterMap fun t =>
      (v.service (call t).payload).result.map fun result =>
        (t, v.header (call t).request, result) := by
  obtain ⟨rs, rest, hcut, hlen, hret, -⟩ := hfed
  rw [hret, h.taken_eq hcut hlen, ← List.map_prod_left_eq_zip, results, List.filterMap_map]
  refine List.filterMap_congr fun t _ => ?_
  have hread := v.readReply_reply hasInt (call t).request
  simp only [Function.comp_apply, hread]
  rfl

variable [DecidableEq Tid] {cfg : PoolConfig}

/-- What holds of a connection with the server. -/
def Answered (call : Tid → Call) (asInt : Bytes → Except Exn ℤ) (v : Server)
    (o : Option (Tid × Stage)) (s : Stream Tid) (evs : List Event) : Prop :=
  Served call v o s evs ∧ Fed asInt (o.map Prod.snd) s evs

omit [DecidableEq Tid] in
theorem keepsBy_answered (hsize : ∀ t, (call t).payload.length < 2 ^ 32) :
    KeepsBy (exchange call asInt) (.failed ∉ ·) (answering v) (Answered call asInt v) :=
  (keepsBy_served hsize).and (keeps_fed.keepsBy List.not_mem_nil _)

/-- **Every call gets the answer to its own request.**  In every run over the pool's connections in
which no call borrows one on which another has failed, the calls of each connection that took a
reply sent the first requests on it; they returned, in this order, what the server answers to the
payload of each, and threw where that has no value; and every result was decoded from a
response with the id of the request of its call. -/
theorem returned_served (hsize : ∀ t, (call t).payload.length < 2 ^ 32)
    (hasInt : ∀ n : ℕ, n < 2 ^ 31 → asInt (decimal n) = .ok n)
    {acts : List (PooledCalls.Act Tid Ev Bytes)} {s : State Tid (Stream Tid) Stage}
    (hfit : Runs.Meets (step (exchange call asInt) cfg)
      (Fit (exchange call asInt) (.failed ∉ ·) (answering v))
      (init (exchange call asInt) (Pool.fresh ())) acts)
    (hrun : runCalls (exchange call asInt) cfg (Pool.fresh ()) acts = some s) (a : Addr) :
    (s.conns a).completed.map (fun t => ((call t).requestId, (call t).payload)) <+:
        requestReader.items (s.conns a).written ∧
      (s.conns a).returned.map (fun r => (r.1, r.2.2)) =
        (s.conns a).completed.filterMap (fun t =>
          (v.service (call t).payload).result.map (t, ·)) ∧
      ∀ t h result, (t, h, result) ∈ (s.conns a).returned →
        h.isRequest = false ∧ h.isEvent = false ∧ h.requestId = (call t).requestId := by
  obtain ⟨o, hserved, hfed⟩ := (invBy_run (keepsBy_answered hsize) .fresh hfit hrun).conn a
  have hret := hserved.returned_eq hasInt hfed
  refine ⟨hserved.completed, ?_, ?_⟩
  · rw [hret, List.map_filterMap]
    refine List.filterMap_congr fun t _ => ?_
    rw [Option.map_map]
    rfl
  · intro t h result hmem
    rw [hret] at hmem
    obtain ⟨t', -, he⟩ := List.mem_filterMap.mp hmem
    obtain ⟨result', -, he⟩ := Option.map_eq_some_iff.mp he
    obtain ⟨rfl, rfl, rfl⟩ : t' = t ∧ v.header (call t').request = h ∧ result' = result := by
      simpa using he
    exact ⟨(v.isResponse _).1, (v.isResponse _).2, v.requestId _⟩

end

/-! ### A sample -/

def sampleSum (payload : Bytes) : ℕ := (payload.map UInt8.toNat).foldl Nat.add 0

/-- One byte that depends on a payload, and is no newline. -/
def sampleByte (payload : Bytes) : UInt8 := (128 + sampleSum payload % 128).toUInt8

theorem sampleByte_ne (payload : Bytes) : 10 ≠ sampleByte payload := by
  intro h
  have hlt := Nat.mod_lt (sampleSum payload) (show 0 < 128 by decide)
  have hnat : (10 : UInt8).toNat = (128 + sampleSum payload % 128) % 2 ^ 8 :=
    (congrArg UInt8.toNat h).trans UInt8.toNat_ofNat'
  rw [Nat.mod_eq_of_lt (by omega)] at hnat
  have hten : (10 : UInt8).toNat = 10 := rfl
  omega

/-- A server that answers with this byte. -/
def sampleServer : Server where
  service payload := .value [sampleByte payload]
  header r := { sampleHeader 20 4 with requestId := r.1 }
  body r := [49, 10, sampleByte r.2, 10]
  carries r :=
    { magic := rfl
      status := rfl
      lines := by
        refine ⟨?_, rfl⟩
        have hne := sampleByte_ne r.2
        have hone : 10 ∉ decimal ResultType.responseValue.code := by decide
        simp [Answer.lines, hone, hne]
      length := show 4 ≤ 1024 * 1024 * 1024 by decide
      dataLength := rfl }
  isResponse _ := ⟨rfl, rfl⟩
  requestId _ := rfl

/-- Two calls with the same request id, one of a longer text. -/
def sampleCalls (t : ℕ) : Call := { sampleCall with methodArg := List.replicate (t % 8) 97 }

theorem length_sampleCalls (t : ℕ) : (sampleCalls t).payload.length < 2 ^ 32 := by
  have hlt := Nat.mod_lt t (show 0 < 8 by decide)
  have hwords : sampleCall.serviceName.length = 5 ∧ sampleCall.methodName.length = 4 ∧
      sampleCall.methodArgType.length = 18 := by decide
  rw [length_payload]
  simp only [sampleCalls, hwords, List.length_replicate]
  omega

theorem sampleAsInt_decimal (n : ℕ) (_ : n < 2 ^ 31) : sampleAsInt (decimal n) = .ok n := by
  simp [sampleAsInt, ofDecimal_decimal]

/-- They overlap on two connections, and one is used again. -/
def sampleServed : List (PooledCalls.Act ℕ Ev Bytes) :=
  let reply := sampleServer.replyFrame (0x1998427, (sampleCalls 1).payload)
  let reply' := sampleServer.replyFrame (0x1998427, (sampleCalls 2).payload)
  [.borrow .borrowOne 1 ⟨10, some ()⟩, .io 1 .done, .borrow .borrowOne 2 ⟨11, some ()⟩, .io 2 .done,
   .io 2 .done, .io 1 .done, .env 11 (reply'.take 7), .env 10 reply, .env 11 (reply'.drop 7),
   .io 2 .done, .io 1 .done, .io 1 .done, .release 1 10, .io 2 .done,
   .borrow .borrowOne 3 ⟨12, some ()⟩, .io 3 .done]

/-- `returned_served` at these: the second connection brings the second call its answer. -/
theorem returned_served_sample :
    ∃ s, runCalls (exchange sampleCalls sampleAsInt) { maxSize := 2 } (Pool.fresh ())
        sampleServed = some s ∧
      (s.conns 11).returned.map (fun r => (r.1, r.2.2)) =
        [(2, ⟨20, 1, [sampleByte (sampleCalls 2).payload]⟩)] := by
  obtain ⟨s, hrun, hcompleted⟩ : ∃ s,
      runCalls (exchange sampleCalls sampleAsInt) { maxSize := 2 } (Pool.fresh ())
        sampleServed = some s ∧ (s.conns 11).completed = [2] := ⟨_, rfl, rfl⟩
  have hfit : Runs.Meets (step (exchange sampleCalls sampleAsInt) { maxSize := 2 })
      (Fit (exchange sampleCalls sampleAsInt) (.failed ∉ ·) (answering sampleServer))
      (init (exchange sampleCalls sampleAsInt) (Pool.fresh ())) sampleServed := by
    decide +kernel
  refine ⟨s, hrun, ?_⟩
  rw [(returned_served length_sampleCalls sampleAsInt_decimal hfit hrun 11).2.1, hcompleted]
  rfl

end AliMiddleware.DubboClient
