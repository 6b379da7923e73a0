import AliMiddleware.Lib.DubboFrame

/-!
# Lib — DubboAnswers

The replies a Dubbo server sends, and which of them `dubbo_client::async_request`
(`lib/dubbo_client.hpp`) can decode.  The body of a reply is a list of lines, each ended by a
newline: with status OK the number of the `result_type` and, unless that is
`RESPONSE_NULL_VALUE`, the value; with any other status one text.

The client takes only a body of two lines.  It returns the result exactly for an OK reply with a
value (`decoded_iff_value`); a reply without one, and every error, makes it throw.
-/

namespace AliMiddleware.DubboClient

open Bytes PooledCalls

/-- `status_t` -/
inductive StatusT where
  | ok
  | clientTimeout
  | serverTimeout
  | badRequrest
  | badResponse
  | serviceNotFound
  | serviceError
  | serverError
  | clientError
  | serverThreadpoolExhaustedError
  deriving DecidableEq, Repr

def StatusT.code : StatusT → UInt8
  | .ok => 20
  | .clientTimeout => 30
  | .serverTimeout => 31
  | .badRequrest => 40
  | .badResponse => 50
  | .serviceNotFound => 60
  | .serviceError => 70
  | .serverError => 80
  | .clientError => 90
  | .serverThreadpoolExhaustedError => 100

/-- `result_type` -/
inductive ResultType where
  | responseNullValue
  | responseValue
  | responseWithException
  deriving DecidableEq, Repr

def ResultType.code : ResultType → ℕ
  | .responseNullValue => 2
  | .responseValue => 1
  | .responseWithException => 0

/-! ### Replies -/

/-- What a server says. -/
inductive Answer where
  /-- status OK, with `RESPONSE_VALUE` -/
  | value (value : Bytes)
  /-- status OK, with `RESPONSE_WITH_EXCEPTION` -/
  | withException (value : Bytes)
  /-- status OK, with `RESPONSE_NULL_VALUE` -/
  | nullValue
  | failure (status : StatusT) (notOk : status ≠ .ok) (text : Bytes)

namespace Answer

def status : Answer → StatusT
  | .value _ | .withException _ | .nullValue => .ok
  | .failure status _ _ => status

/-- The type, with status OK. -/
def type : Answer → Option ResultType
  | .value _ => some .responseValue
  | .withException _ => some .responseWithException
  | .nullValue => some .responseNullValue
  | .failure _ _ _ => none

/-- The value, when there is one. -/
def val : Answer → Option Bytes
  | .value v | .withException v => some v
  | .nullValue | .failure _ _ _ => none

/-- The lines of the body. -/
def lines : Answer → List Bytes
  | .value v => [decimal ResultType.responseValue.code, v]
  | .withException v => [decimal ResultType.responseWithException.code, v]
  | .nullValue => [decimal ResultType.responseNullValue.code]
  | .failure _ _ text => [text]

end Answer

/-- A header and a body that say `a`, of at most 1 GiB. -/
structure Carries (header : DubboHeader) (body : Bytes) (a : Answer) : Prop where
  magic : header.magic = 0xbbda
  status : header.status = a.status.code
  lines : Lines body a.lines
  length : body.length ≤ 1024 * 1024 * 1024
  dataLength : header.dataLength = swapBytes body.length.toUInt32

/-- The result has the status of the answer and, with status OK, its type and its value. -/
def RequestResult.Is (result : RequestResult) (a : Answer) : Prop :=
  result.status = a.status.code ∧ (∀ type ∈ a.type, result.type = type.code) ∧
    ∀ v ∈ a.val, result.value = v

/-! ### Decoding -/

section

variable {Tid : Type}

/-- The two reads of `async_request`, of a reply that is all there. -/
def receive (call : Tid → Call) (asInt : Bytes → Except Exn ℤ) (t : Tid) (s : Stream Tid) :
    Option (Stream Tid) := do
  let (after, s) ← next call asInt t .readHeader .done s
  match after with
  | .goes stage => (next call asInt t stage .done s).map Prod.snd
  | .ends | .fails => some s

variable {call : Tid → Call} {asInt : Bytes → Except Exn ℤ} {t : Tid} {s : Stream Tid}

theorem read_append {bytes rest : Bytes} (hended : s.ended = false)
    (hinbox : s.inbox = bytes ++ rest) :
    s.read bytes.length = some (bytes, { s with inbox := rest }) := by
  simp [Stream.read, hended, hinbox]

/-- **A whole frame** is taken from the connection, and what it says is decoded. -/
theorem receive_frame {header : DubboHeader} {body rest : Bytes} (hended : s.ended = false)
    (hinbox : s.inbox = header.encode ++ body ++ rest) (hlen : body.length ≤ 1024 * 1024 * 1024)
    (hdata : header.dataLength = swapBytes body.length.toUInt32) :
    receive call asInt t s =
      some (Stream.complete asInt t ⟨header, some body⟩ { s with inbox := rest }) := by
  have hann : header.announced = body.length :=
    DubboHeader.announced_swapBytes (Nat.lt_of_le_of_lt hlen (by decide)) hdata
  have hshort : ¬ header.TooLong := by
    rw [DubboHeader.TooLong, hann]
    exact Nat.not_lt.mpr hlen
  have hfirst : s.read DubboHeader.size =
      some (header.encode, { s with inbox := body ++ rest }) := by
    rw [← DubboHeader.length_encode header]
    exact read_append hended (by rw [hinbox, List.append_assoc])
  have hdecode : DubboHeader.decode header.encode = header := by
    have hself := DubboHeader.decode_encode header []
    rwa [List.append_nil] at hself
  have hsecond : ({ s with inbox := body ++ rest } : Stream Tid).read header.announced =
      some (body, { s with inbox := rest }) := by
    rw [hann]
    exact read_append hended rfl
  simp [receive, next, hfirst, hdecode, hshort, hsecond]

/-- Two lines are decoded. -/
theorem readReply_two {header : DubboHeader} {body line v : Bytes} {type : ℤ}
    (hmagic : header.magic = 0xbbda) (hlines : Lines body [line, v])
    (htype : asInt line = .ok type) :
    readReply asInt ⟨header, some body⟩ = .ok ⟨header.status, type, v⟩ := by
  have hsplit : body.splitOn 10 = [line, v, []] := hlines.splitOn
  simp [readReply, hmagic, hsplit, htype, Except.map]

/-- One line is rejected. -/
theorem readReply_one {header : DubboHeader} {body line : Bytes} (hmagic : header.magic = 0xbbda)
    (hlines : Lines body [line]) :
    readReply asInt ⟨header, some body⟩ =
      .error (.runtimeError "dubbo_client: Got invalid payload array" body) := by
  have hsplit : body.splitOn 10 = [line, []] := hlines.splitOn
  simp [readReply, hmagic, hsplit]

/-- A body with a value is decoded to what it says. -/
theorem readReply_carries (hasInt : ∀ n : ℕ, n < 2 ^ 31 → asInt (decimal n) = .ok n)
    {header : DubboHeader} {body : Bytes} {a : Answer} (h : Carries header body a) :
    (a.val ≠ none ∧ ∃ result, readReply asInt ⟨header, some body⟩ = .ok result ∧ result.Is a) ∨
      (a.val = none ∧ ∃ e, readReply asInt ⟨header, some body⟩ = .error e) := by
  have hstatus := h.status
  cases a with
  | value v =>
      have htype := hasInt ResultType.responseValue.code (by decide)
      refine .inl ⟨by simp [Answer.val], _, readReply_two h.magic h.lines htype, hstatus, ?_, ?_⟩
      · rintro type ⟨⟩
        rfl
      · rintro w ⟨⟩
        rfl
  | withException v =>
      have htype := hasInt ResultType.responseWithException.code (by decide)
      refine .inl ⟨by simp [Answer.val], _, readReply_two h.magic h.lines htype, hstatus, ?_, ?_⟩
      · rintro type ⟨⟩
        rfl
      · rintro w ⟨⟩
        rfl
  | nullValue => exact .inr ⟨rfl, _, readReply_one h.magic h.lines⟩
  | failure status notOk text => exact .inr ⟨rfl, _, readReply_one h.magic h.lines⟩

/-- **A well-formed reply is decoded** exactly when its status is OK and its type is not
`RESPONSE_NULL_VALUE`. -/
theorem decoded_iff_value (hasInt : ∀ n : ℕ, n < 2 ^ 31 → asInt (decimal n) = .ok n)
    {header : DubboHeader} {body rest : Bytes} {a : Answer} (h : Carries header body a)
    (hended : s.ended = false) (hinbox : s.inbox = header.encode ++ body ++ rest) :
    (∃ result s', receive call asInt t s = some s' ∧
      s'.returned = s.returned ++ [(t, header, result)] ∧ result.Is a) ↔
    a.status = .ok ∧ a.type ≠ some .responseNullValue := by
  have hval : a.val ≠ none ↔ a.status = .ok ∧ a.type ≠ some .responseNullValue := by
    cases a with
    | value v => simp [Answer.val, Answer.status, Answer.type]
    | withException v => simp [Answer.val, Answer.status, Answer.type]
    | nullValue => simp [Answer.val, Answer.type]
    | failure status notOk text => simp [Answer.val, Answer.status, notOk]
  rw [← hval, receive_frame hended hinbox h.length h.dataLength]
  rcases readReply_carries hasInt h with ⟨hsome, result, hok, his⟩ | ⟨hnone, e, herror⟩
  · constructor
    · intro _
      exact hsome
    · intro _
      refine ⟨result, _, rfl, ?_, his⟩
      simp [Stream.complete, hok]
  · constructor
    · rintro ⟨result, s', hs', hreturned, -⟩
      obtain rfl := Option.some.inj hs'
      simp [Stream.complete, herror] at hreturned
    · intro hsome
      exact absurd hnone hsome

end

/-- A reader of integers that reads digits. -/
def sampleAsInt (s : Bytes) : Except Exn ℤ := .ok (ofDecimal s)

/-- The header of a reply. -/
def sampleHeader (status : UInt8) (length : ℕ) : DubboHeader where
  serializationId := ⟨6, by decide⟩
  isEvent := false
  needReturn := false
  isRequest := false
  status := status
  requestId := 0x1998427
  dataLength := swapBytes length.toUInt32

/-- `decoded_iff_value` at a value. -/
theorem decoded_sample : ∃ result s', receive (fun _ : ℕ => sampleCall) sampleAsInt 1
      { inbox := (sampleHeader 20 5).encode ++ ascii "1\n97\n" ++ [] } = some s' ∧
    s'.returned = [] ++ [(1, sampleHeader 20 5, result)] ∧
    result.Is (.value (ascii "97")) := by
  have hcarries : Carries (sampleHeader 20 5) (ascii "1\n97\n") (.value (ascii "97")) :=
    ⟨rfl, rfl, ⟨by decide, by decide⟩, by decide, rfl⟩
  have hasInt : ∀ n : ℕ, n < 2 ^ 31 → sampleAsInt (decimal n) = .ok n := by
    intro n _
    simp [sampleAsInt, ofDecimal_decimal]
  exact (decoded_iff_value hasInt hcarries rfl rfl).mpr ⟨rfl, by simp [Answer.type]⟩

/-- **An error reply, and one with no value, make the call throw**: it returns nothing. -/
theorem not_decoded :
    (Carries (sampleHeader 31 8) (ascii "timeout\n")
        (.failure .serverTimeout (by decide) (ascii "timeout")) ∧
      ∃ s', receive (fun _ : ℕ => sampleCall) sampleAsInt 1
        { inbox := (sampleHeader 31 8).encode ++ ascii "timeout\n" } = some s' ∧
          s'.completed = [1] ∧ s'.returned = []) ∧
    (Carries (sampleHeader 20 2) (ascii "2\n") .nullValue ∧
      ∃ s', receive (fun _ : ℕ => sampleCall) sampleAsInt 1
        { inbox := (sampleHeader 20 2).encode ++ ascii "2\n" } = some s' ∧
          s'.completed = [1] ∧ s'.returned = []) := by
  refine ⟨⟨⟨rfl, rfl, ⟨by decide, by decide⟩, by decide, rfl⟩, _, rfl, rfl, rfl⟩,
    ⟨⟨rfl, rfl, ⟨by decide, by decide⟩, by decide, rfl⟩, _, rfl, rfl, rfl⟩⟩

end AliMiddleware.DubboClient
