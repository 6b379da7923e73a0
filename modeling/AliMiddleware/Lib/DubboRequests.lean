import AliMiddleware.Lib.DubboFrame
import AliMiddleware.Support.Runs

/-!
# Lib — DubboRequests

What a connection carries to the Dubbo server.  `frame` is a request on the wire: magic, flags,
status, request id, the length of the payload in network order, and the payload.  `readFrames`
reads such a stream by the layout of the header alone.

The calls of a connection come one after another, and each does on it what `next` says
(`Line`).  The first write that reports an error breaks the connection: later writes to it
report an error too, and put nothing on it.  Then what was written is the frames of the calls that
wrote their request, in order, and a piece of one frame at most (`Framed`), and a reader recovers
the ids and payloads of these calls (`requests_framed`).
-/

namespace AliMiddleware.DubboClient

open Bytes PooledCalls

/-! ### The wire -/

/-- A request. -/
def frame (requestId : UInt64) (payload : Bytes) : Bytes :=
  [0xda, 0xbb, 0xc6, 0] ++ le 8 requestId.toNat ++ (le 4 payload.length).reverse ++ payload

/-- The request at the start of a stream, and what comes after it. -/
def readFrame (s : Bytes) : Option ((UInt64 × Bytes) × Bytes) :=
  let requestId := (ofLe ((s.drop 4).take 8)).toUInt64
  let length := ofLe ((s.drop 12).take 4).reverse
  let rest := s.drop DubboHeader.size
  if DubboHeader.size ≤ s.length ∧ length ≤ rest.length then
    some ((requestId, rest.take length), rest.drop length)
  else none

/-- At most `n` requests, if the stream is nothing else. -/
def readFramesFrom : ℕ → Bytes → Option (List (UInt64 × Bytes))
  | _, [] => some []
  | 0, _ :: _ => none
  | n + 1, b :: s =>
      (readFrame (b :: s)).bind fun (request, rest) =>
        (readFramesFrom n rest).map (request :: ·)

def readFrames (s : Bytes) : Option (List (UInt64 × Bytes)) := readFramesFrom s.length s

theorem length_frame (requestId : UInt64) (payload : Bytes) :
    (frame requestId payload).length = DubboHeader.size + payload.length := by
  simp only [frame, List.length_append, List.length_cons, List.length_nil, List.length_reverse,
    length_le, DubboHeader.size]

theorem readFrame_frame {requestId : UInt64} {payload : Bytes} (h : payload.length < 2 ^ 32)
    (rest : Bytes) :
    readFrame (frame requestId payload ++ rest) = some ((requestId, payload), rest) := by
  have hid : ((frame requestId payload ++ rest).drop 4).take 8 = le 8 requestId.toNat := rfl
  have hlength : ((frame requestId payload ++ rest).drop 12).take 4 =
      (le 4 payload.length).reverse := rfl
  have hbody : (frame requestId payload ++ rest).drop DubboHeader.size = payload ++ rest := rfl
  have hback : (ofLe (le 8 requestId.toNat)).toUInt64 = requestId := by
    have hlt : requestId.toNat < 256 ^ 8 := Nat.lt_of_lt_of_eq requestId.toNat_lt (by decide)
    rw [ofLe_le, Nat.mod_eq_of_lt hlt]
    exact UInt64.ofNat_toNat
  have hn : ofLe (le 4 payload.length) = payload.length := by
    rw [ofLe_le]
    exact Nat.mod_eq_of_lt h
  have hsize : DubboHeader.size ≤ (frame requestId payload ++ rest).length := by
    rw [List.length_append, length_frame, Nat.add_assoc]
    exact Nat.le_add_right _ _
  have hrest : payload.length ≤ (payload ++ rest).length := by simp
  rw [readFrame, hid, hlength, hbody, List.reverse_reverse, hback, hn, if_pos ⟨hsize, hrest⟩,
    List.take_left, List.drop_left]

theorem readFramesFrom_frames {n : ℕ} {requests : List (UInt64 × Bytes)}
    (h : ∀ r ∈ requests, r.2.length < 2 ^ 32)
    (hn : (requests.map fun r => frame r.1 r.2).flatten.length ≤ n) :
    readFramesFrom n (requests.map fun r => frame r.1 r.2).flatten = some requests := by
  induction n generalizing requests with
  | zero =>
      cases requests with
      | nil => rfl
      | cons r rs => simp [frame] at hn
  | succ n ih =>
      cases requests with
      | nil => rfl
      | cons r rs =>
          rw [List.map_cons, List.flatten_cons] at hn ⊢
          have hread := @readFrame_frame r.1 r.2 (h r (by simp))
            (rs.map fun r => frame r.1 r.2).flatten
          have hmore : readFramesFrom n (rs.map fun r => frame r.1 r.2).flatten = some rs := by
            refine ih (fun q hq => h q (by simp [hq])) ?_
            rw [List.length_append, length_frame, DubboHeader.size] at hn
            omega
          change (readFrame (frame r.1 r.2 ++ _)).bind _ = _
          rw [hread]
          change (readFramesFrom n (rs.map fun r => frame r.1 r.2).flatten).map _ = _
          rw [hmore]
          rfl

/-- **A stream of requests is uniquely decodable.** -/
theorem readFrames_frames {requests : List (UInt64 × Bytes)}
    (h : ∀ r ∈ requests, r.2.length < 2 ^ 32) :
    readFrames (requests.map fun r => frame r.1 r.2).flatten = some requests :=
  readFramesFrom_frames h le_rfl

/-! ### A header -/

/-- **Header and payload are a frame.** -/
theorem encode_header (c : Call) : c.header.encode ++ c.payload = frame c.requestId c.payload := by
  have hlen : le 4 (swapBytes c.payload.length.toUInt32).toNat =
      (le 4 c.payload.length).reverse := by
    have hself := le_ofLe (le 4 c.payload.length.toUInt32.toNat).reverse
    have hmod : le 4 c.payload.length.toUInt32.toNat = le 4 c.payload.length := by
      have hofLe := le_ofLe (le 4 c.payload.length)
      rw [length_le, ofLe_le] at hofLe
      rw [Nat.toUInt32, UInt32.toNat_ofNat']
      exact hofLe
    rw [List.length_reverse, length_le, hmod] at hself
    rw [toNat_swapBytes, hmod, hself]
  have hmagic : le 2 (0xbbda : UInt16).toNat = [0xda, 0xbb] := by decide
  have hflags : c.header.flags = 0xc6 := rfl
  rw [DubboHeader.encode, hflags, frame]
  change le 2 (0xbbda : UInt16).toNat ++ [0xc6, 0] ++ le 8 c.requestId.toNat ++
    le 4 (swapBytes c.payload.length.toUInt32).toNat ++ c.payload = _
  rw [hmagic, hlen]
  rfl

/-- `header.data_length = big_to_native(header.data_length)` -/
def DubboHeader.toNative (h : DubboHeader) : DubboHeader :=
  { h with dataLength := swapBytes h.dataLength }

/-- A header of a request, read back. -/
theorem toNative_decode_frame (c : Call) (rest : Bytes) :
    (DubboHeader.decode (frame c.requestId c.payload ++ rest)).toNative =
      { isRequest := true, needReturn := true, isEvent := false, serializationId := 6, status := 0
        requestId := c.requestId, dataLength := c.payload.length.toUInt32 } := by
  rw [← encode_header, List.append_assoc, DubboHeader.decode_encode, DubboHeader.toNative]
  change ({ c.header with dataLength := swapBytes (swapBytes _) } : DubboHeader) = _
  rw [swapBytes_swapBytes]
  rfl

/-! ### A connection -/

/-- A connection that a client's calls use one after another. -/
structure Line (Tid : Type) where
  stream : Stream Tid := {}
  /-- the call that uses it, and where it is -/
  current : Option (Tid × Stage) := none
  /-- a write reported an error -/
  broken : Bool := false
  /-- the calls that wrote their request, in order -/
  sent : List Tid := []

namespace Line

inductive Act (Tid : Type) where
  /-- a call takes the connection -/
  | begin (t : Tid)
  /-- a read or write of the call -/
  | io (ev : Ev)
  /-- the server sends -/
  | deliver (bytes : Bytes)

variable {Tid : Type}

/-- What a write can do on a connection that broke. -/
def Allowed (broken : Bool) (writes : Bool) (ev : Ev) : Prop :=
  broken = true → writes = true → ev = .error 0

instance (broken writes : Bool) (ev : Ev) : Decidable (Allowed broken writes ev) :=
  inferInstanceAs (Decidable (_ → _ → _))

def step (call : Tid → Call) (asInt : Bytes → Except Exn ℤ) (l : Line Tid) :
    Act Tid → Option (Line Tid)
  | .begin t =>
      if l.current.isNone then some { l with current := some (t, .writeHeader) } else none
  | .io ev =>
      l.current.bind fun (t, st) =>
        if Allowed l.broken ((exchange call asInt).writes st) ev then
          (next call asInt t st ev l.stream).map fun (after, stream) =>
            { stream := stream
              current := after.stage.map (t, ·)
              broken := l.broken || ((exchange call asInt).writes st && decide (ev ≠ .done))
              sent := match st, ev with
                | .writePayload, .done => l.sent ++ [t]
                | _, _ => l.sent }
        else none
  | .deliver bytes => some { l with stream := l.stream.deliver bytes }

/-- The frames of the requests that were written. -/
def frames (call : Tid → Call) (l : Line Tid) : Bytes :=
  (l.sent.map fun t => frame (call t).requestId (call t).payload).flatten

/-- What is on the connection after these frames. -/
inductive Cut (call : Tid → Call) : Option (Tid × Stage) → Bool → Bytes → Prop where
  | whole {current : Option (Tid × Stage)} (notPayload : ∀ t, current ≠ some (t, .writePayload)) :
      Cut call current false []
  /-- a call has written its header, and goes on -/
  | header (t : Tid) : Cut call (some (t, .writePayload)) false (call t).header.encode
  /-- a write broke off -/
  | broken {current : Option (Tid × Stage)} (t : Tid) {piece : Bytes}
      (part : piece <+: frame (call t).requestId (call t).payload)
      (notPayload : ∀ t, current ≠ some (t, .writePayload)) : Cut call current true piece

/-- What was written is frames, and a piece of one at most. -/
def Framed (call : Tid → Call) (l : Line Tid) : Prop :=
  ∃ piece, Cut call l.current l.broken piece ∧ l.stream.written = l.frames call ++ piece

variable {call : Tid → Call} {asInt : Bytes → Except Exn ℤ}

/-- A read puts nothing on the connection. -/
theorem next_read {t : Tid} {st : Stage} {ev : Ev} {s s' : Stream Tid} {after : After Stage}
    (hst : (exchange call asInt).writes st = false)
    (h : next call asInt t st ev s = some (after, s')) :
    s'.written = s.written ∧ after.stage ≠ some .writePayload := by
  cases st with
  | writeHeader => cases hst
  | writePayload => cases hst
  | readHeader =>
      cases ev with
      | error k =>
          obtain ⟨rfl, rfl⟩ := Prod.mk.inj (Option.some.inj h)
          exact ⟨rfl, by simp [After.stage]⟩
      | done =>
          simp only [next, Option.map_eq_some_iff, Prod.exists] at h
          obtain ⟨bytes, s₁, hread, he⟩ := h
          obtain ⟨-, -, rest, -, rfl⟩ := read_eq_some hread
          split_ifs at he with hlong
          · obtain ⟨rfl, rfl⟩ := Prod.mk.inj he
            exact ⟨rfl, by simp [After.stage]⟩
          · obtain ⟨rfl, rfl⟩ := Prod.mk.inj he
            exact ⟨rfl, by simp [After.stage]⟩
  | readPayload header =>
      cases ev with
      | error k =>
          obtain ⟨rfl, rfl⟩ := Prod.mk.inj (Option.some.inj h)
          exact ⟨rfl, by simp [After.stage]⟩
      | done =>
          simp only [next, Option.map_eq_some_iff, Prod.exists] at h
          obtain ⟨bytes, s₁, hread, he⟩ := h
          obtain ⟨-, -, rest, -, rfl⟩ := read_eq_some hread
          obtain ⟨rfl, rfl⟩ := Prod.mk.inj he
          exact ⟨rfl, by simp [After.stage]⟩

/-- A call that is not between its writes takes the place of another. -/
theorem Cut.stage {current current' : Option (Tid × Stage)} {broken : Bool} {piece : Bytes}
    (h : Cut call current broken piece) (hc : ∀ t, current ≠ some (t, .writePayload))
    (hc' : ∀ t, current' ≠ some (t, .writePayload)) : Cut call current' broken piece := by
  cases h with
  | whole => exact .whole hc'
  | header t => exact absurd rfl (hc t)
  | broken t hpart => exact .broken t hpart hc'

/-- The first write of a call. -/
theorem framed_writeHeader {l : Line Tid} {t : Tid} {ev : Ev}
    {piece : Bytes} (hcut : Cut call (some (t, .writeHeader)) l.broken piece)
    (hw : l.stream.written = l.frames call ++ piece) (hallowed : Allowed l.broken true ev) :
    ∀ after stream, next call asInt t .writeHeader ev l.stream = some (after, stream) →
      ∃ piece', Cut call (after.stage.map (t, ·)) (l.broken || decide (ev ≠ .done)) piece' ∧
        stream.written = l.frames call ++ piece' := by
  intro after stream h
  cases ev with
  | done =>
      obtain ⟨rfl, rfl⟩ := Prod.mk.inj (Option.some.inj h)
      cases hb : l.broken with
      | true => cases hallowed hb rfl
      | false =>
          rw [hb] at hcut
          cases hcut
          refine ⟨_, .header t, ?_⟩
          rw [Stream.write, hw, List.append_nil]
  | error k =>
      obtain ⟨rfl, rfl⟩ := Prod.mk.inj (Option.some.inj h)
      cases hb : l.broken with
      | true =>
          -- nothing more is put on it
          obtain rfl : k = 0 := by simpa using hallowed hb rfl
          rw [hb] at hcut
          refine ⟨piece, hcut.stage (by simp) (by simp [After.stage]), ?_⟩
          rw [Stream.write, hw, List.take_zero, List.append_nil]
      | false =>
          rw [hb] at hcut
          cases hcut
          refine ⟨(call t).header.encode.take k, .broken t ?_ (by simp [After.stage]), ?_⟩
          · rw [← encode_header]
            exact (List.take_prefix _ _).trans (List.prefix_append _ _)
          · rw [Stream.write, hw, List.append_nil]

/-- The second write. -/
theorem framed_writePayload {l : Line Tid} {t : Tid} {ev : Ev} {piece : Bytes}
    (hcut : Cut call (some (t, .writePayload)) l.broken piece)
    (hw : l.stream.written = l.frames call ++ piece) :
    ∀ after stream, next call asInt t .writePayload ev l.stream = some (after, stream) →
      ∃ piece', Cut call (after.stage.map (t, ·)) (l.broken || decide (ev ≠ .done)) piece' ∧
        stream.written = (match ev with
          | .done => l.frames call ++ frame (call t).requestId (call t).payload
          | .error _ => l.frames call) ++ piece' := by
  intro after stream h
  generalize hb : l.broken = broken at hcut
  cases hcut with
  | whole hnot => exact absurd rfl (hnot t)
  | broken _ _ hnot => exact absurd rfl (hnot t)
  | header =>
      cases ev with
      | done =>
          obtain ⟨rfl, rfl⟩ := Prod.mk.inj (Option.some.inj h)
          refine ⟨[], .whole (by simp [After.stage]), ?_⟩
          rw [Stream.write, hw, List.append_assoc, encode_header, List.append_nil]
      | error k =>
          obtain ⟨rfl, rfl⟩ := Prod.mk.inj (Option.some.inj h)
          refine ⟨(call t).header.encode ++ (call t).payload.take k,
            .broken t ?_ (by simp [After.stage]), ?_⟩
          · rw [← encode_header, List.prefix_append_right_inj]
            exact List.take_prefix _ _
          · rw [Stream.write, hw, List.append_assoc]

/-- **A step keeps the frames.** -/
theorem framed_step {l l' : Line Tid} {act : Act Tid} (h : l.Framed call)
    (hs : step call asInt l act = some l') : l'.Framed call := by
  obtain ⟨piece, hcut, hw⟩ := h
  cases act with
  | begin t =>
      simp only [step, Option.ite_none_right_eq_some, Option.some.injEq,
        Option.isNone_iff_eq_none] at hs
      obtain ⟨hidle, rfl⟩ := hs
      exact ⟨piece, hcut.stage (by simp [hidle]) (by simp), hw⟩
  | deliver bytes =>
      obtain rfl := Option.some.inj hs
      exact ⟨piece, hcut, hw⟩
  | io ev =>
      simp only [step, Option.bind_eq_some_iff, Option.ite_none_right_eq_some,
        Option.map_eq_some_iff, Prod.exists] at hs
      obtain ⟨t, st, hcurrent, hallowed, after, stream, hnext, rfl⟩ := hs
      rw [hcurrent] at hcut
      cases hst : (exchange call asInt).writes st with
      | false =>
          -- a read: the piece stays what it is
          obtain ⟨hsame, hafter⟩ := next_read hst hnext
          have hnot : ∀ u, some (t, st) ≠ some (u, .writePayload) := by
            rintro u hu
            obtain ⟨-, rfl⟩ := Prod.mk.inj (Option.some.inj hu)
            cases hst
          have hnot' : ∀ u, after.stage.map (t, ·) ≠ some (u, .writePayload) := by
            rintro u hu
            obtain ⟨st', hst', he⟩ := Option.map_eq_some_iff.mp hu
            obtain ⟨-, rfl⟩ := Prod.mk.inj he
            exact hafter hst'
          refine ⟨piece, ?_, ?_⟩
          · simpa using hcut.stage hnot hnot'
          · cases st with
            | writePayload => cases hst
            | writeHeader => cases hst
            | readHeader => exact hsame.trans hw
            | readPayload header => exact hsame.trans hw
      | true =>
          cases st with
          | readHeader => cases hst
          | readPayload header => cases hst
          | writeHeader =>
              obtain ⟨piece', hcut', hw'⟩ :=
                framed_writeHeader hcut hw (hst ▸ hallowed) after stream hnext
              exact ⟨piece', by simpa using hcut', hw'⟩
          | writePayload =>
              obtain ⟨piece', hcut', hw'⟩ := framed_writePayload hcut hw after stream hnext
              refine ⟨piece', by simpa using hcut', hw'.trans ?_⟩
              cases ev with
              | done => simp [frames]
              | error k => rfl

theorem framed_run {l : Line Tid} {acts : List (Act Tid)}
    (hrun : Runs.run (step call asInt) {} acts = some l) : l.Framed call :=
  Runs.run_invariant (I := Framed call) (fun _ _ _ h hs => framed_step h hs)
    ⟨[], .whole (by simp), rfl⟩ hrun

end Line

open Line

variable {Tid : Type} {call : Tid → Call} {asInt : Bytes → Except Exn ℤ}

/-- **Requests are uniquely decodable.**  In every run of calls on one connection, with any
request ids and payloads, what was written is the frames of the requests sent, in order, and a
piece of one frame at most; no piece while no call is between its writes and no write has failed.
A reader of the frames recovers the ids and the payloads, and every header says what it should
when it is read back. -/
theorem requests_framed {acts : List (Line.Act Tid)} {l : Line Tid}
    (hrun : Runs.run (Line.step call asInt) {} acts = some l)
    (hsize : ∀ t ∈ l.sent, (call t).payload.length < 2 ^ 32) :
    (∃ piece, Line.Cut call l.current l.broken piece ∧
      l.stream.written =
        (l.sent.map fun t => frame (call t).requestId (call t).payload).flatten ++ piece) ∧
    readFrames (l.sent.map fun t => frame (call t).requestId (call t).payload).flatten =
      some (l.sent.map fun t => ((call t).requestId, (call t).payload)) ∧
    ∀ t ∈ l.sent, ∀ rest,
      (DubboHeader.decode (frame (call t).requestId (call t).payload ++ rest)).toNative =
        { magic := 0xbbda, isRequest := true, needReturn := true, isEvent := false
          serializationId := 6, status := 0, requestId := (call t).requestId
          dataLength := (call t).payload.length.toUInt32 } ∧
      (call t).payload.length.toUInt32.toNat = (call t).payload.length := by
  refine ⟨framed_run hrun, ?_, ?_⟩
  · have hsizes : ∀ r ∈ l.sent.map fun t => ((call t).requestId, (call t).payload),
        r.2.length < 2 ^ 32 := by
      intro r hr
      obtain ⟨t, ht, rfl⟩ := List.mem_map.mp hr
      exact hsize t ht
    have hread := readFrames_frames hsizes
    rwa [List.map_map] at hread
  · intro t ht rest
    refine ⟨toNative_decode_frame (call t) rest, ?_⟩
    rw [Nat.toUInt32, UInt32.toNat_ofNat']
    exact Nat.mod_eq_of_lt (hsize t ht)

/-- `requests_framed` at two calls, the first of which got its reply. -/
theorem requests_framed_two : ∃ l,
    Runs.run (Line.step (fun _ : ℕ => sampleCall) fun _ => .ok 1) {}
      [.begin 1, .io .done, .io .done, .deliver sampleReply, .io .done, .io .done,
       .begin 2, .io .done, .io .done] = some l ∧
    readFrames l.stream.written = some [(0x1998427, sampleCall.payload),
      (0x1998427, sampleCall.payload)] := by
  obtain ⟨l, hrun, hsent, hcurrent, hbroken⟩ : ∃ l,
      Runs.run (Line.step (fun _ : ℕ => sampleCall) fun _ => .ok 1) {}
        [.begin 1, .io .done, .io .done, .deliver sampleReply, .io .done, .io .done,
         .begin 2, .io .done, .io .done] = some l ∧
      l.sent = [1, 2] ∧ l.current = some (2, .readHeader) ∧ l.broken = false :=
    ⟨_, rfl, rfl, rfl, rfl⟩
  refine ⟨l, hrun, ?_⟩
  obtain ⟨⟨piece, hcut, hw⟩, hread, -⟩ := requests_framed hrun fun _ _ => by decide
  rw [hcurrent, hbroken] at hcut
  cases hcut
  rw [hw, List.append_nil, hread, hsent]
  rfl

end AliMiddleware.DubboClient
