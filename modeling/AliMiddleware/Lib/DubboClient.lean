import AliMiddleware.Lib.DubboPayload
import AliMiddleware.Lib.PooledCalls

/-!
# Lib — DubboClient

`dubbo_client::async_request` (`lib/dubbo_client.hpp`), as the exchange a call makes on a pooled
connection: it writes a header and the payload, reads a header, then as many bytes as that
announces, and takes these for its reply.  A header that announces more than 1 GiB ends the call
at once, and a read or write that reports an error ends it too; both throw.

A connection is what is put on it and what is still unread; a read that failed is the last one
that could bring anything.  Which calls took a reply from it, and what they returned, is recorded
with it (`Stream`).

The header is the one of the build (`RDUBBO_OBEY_APACHEDOC`) on a little-endian host.
-/

namespace AliMiddleware.DubboClient

open Bytes PooledCalls

/-! ### Frames -/

/-- `dubbo_header`; `dataLength` is the field as it is stored, in the order of the network. -/
structure DubboHeader where
  magic : UInt16 := 0xbbda
  serializationId : Fin 32
  isEvent : Bool
  needReturn : Bool
  isRequest : Bool
  status : UInt8
  requestId : UInt64
  dataLength : UInt32
  deriving DecidableEq, Repr

/-- `boost::endian::native_to_big` and `big_to_native`, which are the same. -/
def swapBytes (x : UInt32) : UInt32 := (ofLe (le 4 x.toNat).reverse).toUInt32

namespace DubboHeader

/-- `sizeof(header)` -/
def size : ℕ := 16

/-- The byte of the bit-fields, the first of them lowest. -/
def flags (h : DubboHeader) : UInt8 :=
  (h.serializationId.val + 32 * h.isEvent.toNat + 64 * h.needReturn.toNat +
    128 * h.isRequest.toNat).toUInt8

def encode (h : DubboHeader) : Bytes :=
  le 2 h.magic.toNat ++ [h.flags, h.status] ++ le 8 h.requestId.toNat ++ le 4 h.dataLength.toNat

/-- The header in the first bytes of `s`. -/
def decode (s : Bytes) : DubboHeader :=
  let flags := ofLe ((s.drop 2).take 1)
  { magic := (ofLe (s.take 2)).toUInt16
    serializationId := Fin.ofNat 32 flags
    isEvent := flags.testBit 5
    needReturn := flags.testBit 6
    isRequest := flags.testBit 7
    status := (ofLe ((s.drop 3).take 1)).toUInt8
    requestId := (ofLe ((s.drop 4).take 8)).toUInt64
    dataLength := (ofLe ((s.drop 12).take 4)).toUInt32 }

/-- `data_length`, after `big_to_native`. -/
def announced (h : DubboHeader) : ℕ := (swapBytes h.dataLength).toNat

/-- `header.data_length > 1024 * 1024 * 1024` -/
def TooLong (h : DubboHeader) : Prop := 1024 * 1024 * 1024 < h.announced

instance (h : DubboHeader) : Decidable h.TooLong := inferInstanceAs (Decidable (_ < _))

end DubboHeader

/-! ### A call -/

/-- The arguments of a call, and the value of `curr_request_id` it took. -/
structure Call where
  requestId : UInt64
  serviceName : Bytes
  methodName : Bytes
  methodArgType : Bytes
  methodArg : Bytes

def Call.payload (c : Call) : Bytes :=
  DubboClient.payload c.serviceName c.methodName c.methodArgType c.methodArg

/-- The header of the request. -/
def Call.header (c : Call) : DubboHeader where
  isRequest := true
  needReturn := true
  isEvent := false
  serializationId := 6
  status := 0
  requestId := c.requestId
  dataLength := swapBytes c.payload.length.toUInt32

/-- `request_result_t` -/
structure RequestResult where
  status : UInt8
  type : ℤ
  value : Bytes
  deriving DecidableEq

/-- A header, and the bytes read after it; none when it announced too many. -/
structure Reply where
  header : DubboHeader
  payloadBuffer : Option Bytes

/-- What `async_request` makes of a reply.  `asInt` is `as<int>()`. -/
def readReply (asInt : Bytes → Except Exn ℤ) (r : Reply) : Except Exn RequestResult :=
  match r.payloadBuffer with
  | none => .error (.runtimeError
      "Dubbo server says the payload length is >1GiB. It's dangerous so I rejected.")
  | some payloadBuffer =>
      if r.header.magic ≠ 0xbbda then
        .error (.runtimeError "dubbo_client.hpp:Dubbo returns wrong magic.")
      else
        match payloadBuffer.splitOn 10 with
        | [type, value, _] => (asInt type).map fun type => ⟨r.header.status, type, value⟩
        | _ => .error (.runtimeError "dubbo_client: Got invalid payload array" payloadBuffer)

/-! ### Connections -/

/-- A connection, and the calls that took a reply from it. -/
structure Stream (Tid : Type) where
  /-- what the calls wrote -/
  written : Bytes := []
  /-- what the server put on it -/
  put : Bytes := []
  /-- what is still to be read of it -/
  inbox : Bytes := []
  /-- a read failed -/
  ended : Bool := false
  /-- the calls that read a reply to its end, or abandoned it -/
  completed : List Tid := []
  /-- the calls that returned normally, with the header their result was decoded from -/
  returned : List (Tid × DubboHeader × RequestResult) := []

namespace Stream

variable {Tid : Type}

def write (s : Stream Tid) (bytes : Bytes) : Stream Tid := { s with written := s.written ++ bytes }

/-- `async_read` of `n` bytes, when they are there. -/
def read (n : ℕ) (s : Stream Tid) : Option (Bytes × Stream Tid) :=
  if s.ended = false ∧ n ≤ s.inbox.length then
    some (s.inbox.take n, { s with inbox := s.inbox.drop n })
  else none

/-- A read that failed after `k` bytes. -/
def fail (k : ℕ) (s : Stream Tid) : Stream Tid :=
  { s with inbox := s.inbox.drop k, ended := true }

/-- The call `t` has its reply. -/
def complete (asInt : Bytes → Except Exn ℤ) (t : Tid) (r : Reply) (s : Stream Tid) : Stream Tid :=
  { s with
    completed := s.completed ++ [t]
    returned := match readReply asInt r with
      | .ok result => s.returned ++ [(t, r.header, result)]
      | .error _ => s.returned }

/-- The server puts bytes on the connection. -/
def deliver (bytes : Bytes) (s : Stream Tid) : Stream Tid :=
  { s with put := s.put ++ bytes, inbox := s.inbox ++ bytes }

end Stream

/-! ### The exchange -/

/-- Where a call is, once it has a connection. -/
inductive Stage where
  | writeHeader
  | writePayload
  | readHeader
  | readPayload (header : DubboHeader)

/-- How a read or write ends. -/
inductive Ev where
  | done
  /-- an error, end of file included, after `k` bytes -/
  | error (k : ℕ)
  deriving DecidableEq, Repr

variable {Tid : Type}

def next (call : Tid → Call) (asInt : Bytes → Except Exn ℤ) (t : Tid) :
    Stage → Ev → Stream Tid → Option (After Stage × Stream Tid)
  | .writeHeader, .done, s => some (.goes .writePayload, s.write (call t).header.encode)
  | .writeHeader, .error k, s => some (.fails, s.write ((call t).header.encode.take k))
  | .writePayload, .done, s => some (.goes .readHeader, s.write (call t).payload)
  | .writePayload, .error k, s => some (.fails, s.write ((call t).payload.take k))
  | .readHeader, .done, s =>
      (s.read DubboHeader.size).map fun (bytes, s) =>
        let header := DubboHeader.decode bytes
        if header.TooLong then (.fails, s.complete asInt t ⟨header, none⟩)
        else (.goes (.readPayload header), s)
  | .readHeader, .error k, s => some (.fails, s.fail k)
  | .readPayload header, .done, s =>
      (s.read header.announced).map fun (bytes, s) =>
        (.ends, s.complete asInt t ⟨header, some bytes⟩)
  | .readPayload _, .error k, s => some (.fails, s.fail k)

/-- `async_request` from the moment it has borrowed a connection. -/
def exchange (call : Tid → Call) (asInt : Bytes → Except Exn ℤ) :
    Exchange Tid (Stream Tid) Stage Ev Bytes where
  fresh := {}
  start := fun _ => some .writeHeader
  next := next call asInt
  deliver := Stream.deliver
  writes
    | .writeHeader | .writePayload => true
    | .readHeader | .readPayload _ => false

/-! ### What a step does -/

section

variable {call : Tid → Call} {asInt : Bytes → Except Exn ℤ} {t : Tid}

theorem read_eq_some {n : ℕ} {s s₁ : Stream Tid} {bytes : Bytes}
    (h : s.read n = some (bytes, s₁)) : s.ended = false ∧ bytes.length = n ∧
      ∃ rest, s.inbox = bytes ++ rest ∧ s₁ = { s with inbox := rest } := by
  simp only [Stream.read, Option.ite_none_right_eq_some, Option.some.injEq, Prod.mk.injEq] at h
  obtain ⟨⟨hended, hle⟩, rfl, rfl⟩ := h
  exact ⟨hended, List.length_take_of_le hle, _, (List.take_append_drop n s.inbox).symm, rfl⟩

/-- What a read or write of a call does. -/
inductive Stepped (asInt : Bytes → Except Exn ℤ) (t : Tid) (s : Stream Tid) :
    Stage → After Stage → Stream Tid → Prop where
  /-- a write, which may fail -/
  | writes {st : Stage} {after : After Stage} (bytes : Bytes)
      (before : ∀ header, st ≠ .readPayload header)
      (between : ∀ header, after.stage ≠ some (.readPayload header)) :
      Stepped asInt t s st after (s.write bytes)
  /-- a read that fails -/
  | fails {st : Stage} (k : ℕ) : Stepped asInt t s st .fails (s.fail k)
  | abandons {bytes rest : Bytes} (notEnded : s.ended = false) (inbox : s.inbox = bytes ++ rest)
      (size : bytes.length = DubboHeader.size) (long : (DubboHeader.decode bytes).TooLong) :
      Stepped asInt t s .readHeader .fails
        (Stream.complete asInt t ⟨DubboHeader.decode bytes, none⟩ { s with inbox := rest })
  | header {bytes rest : Bytes} (notEnded : s.ended = false) (inbox : s.inbox = bytes ++ rest)
      (size : bytes.length = DubboHeader.size) (short : ¬ (DubboHeader.decode bytes).TooLong) :
      Stepped asInt t s .readHeader (.goes (.readPayload (DubboHeader.decode bytes)))
        { s with inbox := rest }
  | payload {header : DubboHeader} {bytes rest : Bytes} (notEnded : s.ended = false)
      (inbox : s.inbox = bytes ++ rest) (length : bytes.length = header.announced) :
      Stepped asInt t s (.readPayload header) .ends
        (Stream.complete asInt t ⟨header, some bytes⟩ { s with inbox := rest })

theorem next_stepped {st : Stage} {ev : Ev} {s s' : Stream Tid} {after : After Stage}
    (h : next call asInt t st ev s = some (after, s')) : Stepped asInt t s st after s' := by
  cases st with
  | writeHeader =>
      cases ev with
      | done =>
          obtain ⟨rfl, rfl⟩ := Prod.mk.inj (Option.some.inj h)
          exact .writes _ (by simp) (by simp [After.stage])
      | error k =>
          obtain ⟨rfl, rfl⟩ := Prod.mk.inj (Option.some.inj h)
          exact .writes _ (by simp) (by simp [After.stage])
  | writePayload =>
      cases ev with
      | done =>
          obtain ⟨rfl, rfl⟩ := Prod.mk.inj (Option.some.inj h)
          exact .writes _ (by simp) (by simp [After.stage])
      | error k =>
          obtain ⟨rfl, rfl⟩ := Prod.mk.inj (Option.some.inj h)
          exact .writes _ (by simp) (by simp [After.stage])
  | readHeader =>
      cases ev with
      | error k =>
          obtain ⟨rfl, rfl⟩ := Prod.mk.inj (Option.some.inj h)
          exact .fails k
      | done =>
          simp only [next, Option.map_eq_some_iff, Prod.exists] at h
          obtain ⟨bytes, s₁, hread, he⟩ := h
          obtain ⟨hended, hsize, rest, hinbox, rfl⟩ := read_eq_some hread
          by_cases hlong : (DubboHeader.decode bytes).TooLong
          · simp only [hlong, if_true, Prod.mk.injEq] at he
            obtain ⟨rfl, rfl⟩ := he
            exact .abandons hended hinbox hsize hlong
          · simp only [hlong, if_false, Prod.mk.injEq] at he
            obtain ⟨rfl, rfl⟩ := he
            exact .header hended hinbox hsize hlong
  | readPayload header =>
      cases ev with
      | error k =>
          obtain ⟨rfl, rfl⟩ := Prod.mk.inj (Option.some.inj h)
          exact .fails k
      | done =>
          simp only [next, Option.map_eq_some_iff, Prod.exists] at h
          obtain ⟨bytes, s₁, hread, he⟩ := h
          obtain ⟨hended, hlen, rest, hinbox, rfl⟩ := read_eq_some hread
          obtain ⟨rfl, rfl⟩ := Prod.mk.inj he
          exact .payload hended hinbox hlen

end

/-! ### A sample -/

/-- A call. -/
def sampleCall : Call where
  requestId := 0x1998427
  serviceName := ascii "IHash"
  methodName := ascii "hash"
  methodArgType := ascii "Ljava/lang/String;"
  methodArg := ascii "ab"

/-- The reply to such a call. -/
def sampleReply : Bytes :=
  [0xda, 0xbb, 0x06, 20, 0x27, 0x84, 0x99, 0x01, 0, 0, 0, 0, 0, 0, 0, 4] ++ ascii "1\n7\n"

end AliMiddleware.DubboClient
