import AliMiddleware.Lib.DubboClient
import AliMiddleware.Support.Streams

/-!
# Lib — DubboReplies

Which call gets which reply.  The client never looks at the flags or at the request id of a
reply: the calls that share a connection take the replies from it in the order in which they
come to read.

`replies` cuts what the server put on a connection as the client does, at the lengths the headers
announce; a header that announces too much is a reply of its own.  The `i`-th call that takes a
reply from the connection takes the `i`-th of them (`Fed`, `keeps_fed`).  So every result was
decoded from a response to its own request exactly when, on every connection, each reply that
the client accepts is a response to the request of the call that is due
(`own_iff_replies_due`).
-/

namespace AliMiddleware.DubboClient

open Bytes Pool PooledCalls FixedObjectPoolCoro

/-! ### Cutting the stream -/

/-- The first reply of a stream, and the bytes after it. -/
def takeReply (s : Bytes) : Option (Reply × Bytes) :=
  if DubboHeader.size ≤ s.length then
    let header := DubboHeader.decode (s.take DubboHeader.size)
    let s := s.drop DubboHeader.size
    if header.TooLong then some (⟨header, none⟩, s)
    else if header.announced ≤ s.length then
      some (⟨header, some (s.take header.announced)⟩, s.drop header.announced)
    else none
  else none

/-- `r` is the first reply of a stream, and `rest` comes after it. -/
inductive Takes : Bytes → Reply → Bytes → Prop where
  | abandoned {bytes rest : Bytes} (size : bytes.length = DubboHeader.size)
      (long : (DubboHeader.decode bytes).TooLong) :
      Takes (bytes ++ rest) ⟨DubboHeader.decode bytes, none⟩ rest
  | whole {bytes payload rest : Bytes} (size : bytes.length = DubboHeader.size)
      (short : ¬ (DubboHeader.decode bytes).TooLong)
      (length : payload.length = (DubboHeader.decode bytes).announced) :
      Takes (bytes ++ (payload ++ rest)) ⟨DubboHeader.decode bytes, some payload⟩ rest

theorem takeReply_eq_some {s rest : Bytes} {r : Reply} :
    takeReply s = some (r, rest) ↔ Takes s r rest := by
  constructor
  · intro h
    rw [takeReply] at h
    by_cases hlen : DubboHeader.size ≤ s.length
    · rw [if_pos hlen] at h
      have hsize : (s.take DubboHeader.size).length = DubboHeader.size := by simp [hlen]
      have hsplit := List.take_append_drop DubboHeader.size s
      generalize s.take DubboHeader.size = bytes at h hsize hsplit
      generalize s.drop DubboHeader.size = more at h hsplit
      subst hsplit
      by_cases hlong : (DubboHeader.decode bytes).TooLong
      · simp only [hlong, if_true, Option.some.injEq, Prod.mk.injEq] at h
        obtain ⟨rfl, rfl⟩ := h
        exact .abandoned hsize hlong
      · simp only [hlong, if_false, Option.ite_none_right_eq_some, Option.some.injEq,
          Prod.mk.injEq] at h
        obtain ⟨hall, rfl, rfl⟩ := h
        have htake := List.take_append_drop (DubboHeader.decode bytes).announced more
        have hpayload := List.length_take_of_le hall
        generalize more.take (DubboHeader.decode bytes).announced = payload at htake hpayload ⊢
        generalize more.drop (DubboHeader.decode bytes).announced = rest at htake ⊢
        subst htake
        exact .whole hsize hlong hpayload
    · rw [if_neg hlen] at h
      cases h
  · intro h
    cases h with
    | abandoned hsize hlong => simp [takeReply, ← hsize, hlong]
    | whole hsize hshort hlen => simp [takeReply, ← hsize, hshort, ← hlen]

theorem Takes.shorter {s rest : Bytes} {r : Reply} (h : Takes s r rest) :
    rest.length < s.length := by
  cases h with
  | abandoned hsize _ =>
      rw [List.length_append, hsize]
      exact Nat.lt_add_of_pos_left (by decide)
  | whole hsize _ _ =>
      rw [List.length_append, List.length_append, hsize, ← Nat.add_assoc]
      exact Nat.lt_add_of_pos_left (Nat.lt_add_right _ (by decide))

/-- What comes later does not change the first reply. -/
theorem Takes.append {s rest : Bytes} {r : Reply} (h : Takes s r rest) (more : Bytes) :
    Takes (s ++ more) r (rest ++ more) := by
  cases h with
  | abandoned hsize hlong =>
      rw [List.append_assoc]
      exact .abandoned hsize hlong
  | whole hsize hshort hlen =>
      rw [List.append_assoc, List.append_assoc]
      exact .whole hsize hshort hlen

/-- The replies of a stream, as the client cuts it. -/
def replyReader : ItemReader UInt8 Reply where
  first := takeReply
  shorter := fun h => (takeReply_eq_some.mp h).shorter
  append := fun more h => takeReply_eq_some.mpr ((takeReply_eq_some.mp h).append more)

theorem first_replyReader (s : Bytes) : replyReader.first s = takeReply s := rfl

/-- The whole replies in a stream. -/
def replies (s : Bytes) : List Reply := replyReader.items s

theorem replies_cons {s rest : Bytes} {r : Reply} (h : Takes s r rest) :
    replies s = r :: replies rest :=
  ItemReader.items_of_some (R := replyReader) (takeReply_eq_some.mpr h)

/-- The replies `rs` are the first ones of a stream, and `rest` comes after them. -/
inductive Cut : Bytes → List Reply → Bytes → Prop where
  | nil (s : Bytes) : Cut s [] s
  | cons {s mid rest : Bytes} {r : Reply} {rs : List Reply} (first : Takes s r mid)
      (more : Cut mid rs rest) : Cut s (r :: rs) rest

theorem Cut.append {s rest : Bytes} {rs : List Reply} (h : Cut s rs rest) (more : Bytes) :
    Cut (s ++ more) rs (rest ++ more) := by
  induction h with
  | nil s => exact .nil _
  | cons first _ ih => exact .cons (first.append more) ih

theorem Cut.snoc {s rest rest' : Bytes} {rs : List Reply} {r : Reply} (h : Cut s rs rest)
    (hr : Takes rest r rest') : Cut s (rs ++ [r]) rest' := by
  induction h with
  | nil s => exact .cons hr (.nil _)
  | cons first _ ih => exact .cons first (ih hr)

theorem Cut.replies {s rest : Bytes} {rs : List Reply} (h : Cut s rs rest) :
    replies s = rs ++ DubboClient.replies rest := by
  induction h with
  | nil s => rfl
  | cons first _ ih => rw [replies_cons first, ih, List.cons_append]

/-! ### Who takes which reply -/

variable {Tid : Type}

/-- What the calls return that take these replies. -/
def results (asInt : Bytes → Except Exn ℤ) (taken : List (Tid × Reply)) :
    List (Tid × DubboHeader × RequestResult) :=
  taken.filterMap fun (t, r) => (readReply asInt r).toOption.map fun result => (t, r.header, result)

/-- What the call at a stage has read of its reply. -/
inductive Pending : Option Stage → Bytes → Prop where
  | between {o : Option Stage} (h : ∀ header, o ≠ some (.readPayload header)) : Pending o []
  | header {bytes : Bytes} (size : bytes.length = DubboHeader.size)
      (short : ¬ (DubboHeader.decode bytes).TooLong) :
      Pending (some (.readPayload (DubboHeader.decode bytes))) bytes

theorem Pending.eq_nil {o : Option Stage} {bytes : Bytes} (h : Pending o bytes)
    (ho : ∀ header, o ≠ some (.readPayload header)) : bytes = [] := by
  cases h with
  | between => rfl
  | header size short => exact absurd rfl (ho _)

/-- The calls that took a reply took the first replies, in this order, and returned what these
say; until a read fails, the rest is what is still unread. -/
def Fed (asInt : Bytes → Except Exn ℤ) (o : Option Stage) (s : Stream Tid) (_ : List Event) :
    Prop :=
  ∃ rs rest, Cut s.put rs rest ∧ rs.length = s.completed.length ∧
    s.returned = results asInt (s.completed.zip rs) ∧
    (s.ended = false → ∃ bytes, Pending o bytes ∧ rest = bytes ++ s.inbox)

variable {call : Tid → Call} {asInt : Bytes → Except Exn ℤ}

/-- A stage at which no reply is begun takes the place of another. -/
theorem Fed.stage {o o' : Option Stage} {s s' : Stream Tid} {evs evs' : List Event}
    (h : Fed asInt o s evs) (ho : ∀ header, o ≠ some (.readPayload header))
    (ho' : ∀ header, o' ≠ some (.readPayload header))
    (hs : s' = { s with written := s'.written }) : Fed asInt o' s' evs' := by
  obtain ⟨rs, rest, hcut, hlen, hret, hrest⟩ := h
  rw [hs]
  refine ⟨rs, rest, hcut, hlen, hret, fun hended => ?_⟩
  obtain ⟨bytes, hp, he⟩ := hrest hended
  obtain rfl := hp.eq_nil ho
  exact ⟨[], .between ho', he⟩

/-- A read that fails is the last one. -/
theorem Fed.fail {o o' : Option Stage} {s : Stream Tid} {evs evs' : List Event}
    (h : Fed asInt o s evs) (k : ℕ) : Fed asInt o' (s.fail k) evs' := by
  obtain ⟨rs, rest, hcut, hlen, hret, -⟩ := h
  exact ⟨rs, rest, hcut, hlen, hret, fun hended => absurd hended (by simp [Stream.fail])⟩

/-- A call takes the reply that is due. -/
theorem Fed.complete {o : Option Stage} {s : Stream Tid} {evs evs' : List Event} {inbox : Bytes}
    {t : Tid} {r : Reply} (h : Fed asInt o s evs) (hended : s.ended = false)
    (hr : ∀ bytes, Pending o bytes → Takes (bytes ++ s.inbox) r inbox) :
    Fed asInt none (Stream.complete asInt t r { s with inbox := inbox }) evs' := by
  obtain ⟨rs, rest, hcut, hlen, hret, hrest⟩ := h
  obtain ⟨bytes, hp, rfl⟩ := hrest hended
  refine ⟨rs ++ [r], inbox, hcut.snoc (hr bytes hp), by simp [Stream.complete, hlen], ?_, fun _ =>
    ⟨[], .between (by simp), rfl⟩⟩
  have hzip : (s.completed ++ [t]).zip (rs ++ [r]) = s.completed.zip rs ++ [(t, r)] := by
    rw [List.zip_append hlen.symm]
    rfl
  simp only [Stream.complete, hzip, results, List.filterMap_append, hret]
  cases hread : readReply asInt r with
  | ok result => simp [hread, Except.toOption]
  | error e => simp [hread, Except.toOption]

/-- **The calls on a connection take its replies in turn.** -/
theorem keeps_fed : Keeps (exchange call asInt) (fun _ => True) (Fed asInt) where
  fresh := ⟨[], [], .nil [], rfl, rfl, fun _ => ⟨[], .between (by simp), rfl⟩⟩
  fresh_ok := trivial
  start := by
    intro t st s evs h _ hst
    obtain rfl : Stage.writeHeader = st := by simpa [exchange] using hst
    exact h.stage (by simp) (by simp) rfl
  next := by
    intro t st ev s evs after s' h hnext
    cases next_stepped hnext with
    | writes bytes hst hafter =>
        exact h.stage (fun header => by simpa using hst header) hafter rfl
    | fails k => exact h.fail k
    | @abandons bytes rest hended hinbox hsize hlong =>
        -- the header is the whole reply
        refine h.complete hended fun b hp => ?_
        rw [hp.eq_nil (by simp), List.nil_append, hinbox]
        exact .abandoned hsize hlong
    | @header bytes rest hended hinbox hsize hshort =>
        obtain ⟨rs, rest', hcut, hlen, hret, hrest⟩ := h
        obtain ⟨b, hp, rfl⟩ := hrest hended
        refine ⟨rs, _, hcut, hlen, hret, fun _ => ⟨bytes, .header hsize hshort, ?_⟩⟩
        rw [hp.eq_nil (by simp), List.nil_append, hinbox]
    | @payload header bytes rest hended hinbox hlen =>
        refine h.complete hended fun b hp => ?_
        rw [hinbox]
        cases hp with
        | between ho => exact absurd rfl (ho header)
        | header hsize hshort => exact .whole hsize hshort hlen
  deliver := by
    rintro o more s evs ⟨rs, rest, hcut, hlen, hret, hrest⟩
    refine ⟨rs, rest ++ more, hcut.append more, hlen, hret, fun hended => ?_⟩
    obtain ⟨bytes, hp, rfl⟩ := hrest hended
    exact ⟨bytes, hp, List.append_assoc _ _ _⟩

/-! ### Association -/

variable [DecidableEq Tid] {cfg : PoolConfig}

/-- In every run, the calls of each connection returned what the replies put on it say, taken in
turn. -/
theorem returned_eq {acts : List (PooledCalls.Act Tid Ev Bytes)}
    {s : State Tid (Stream Tid) Stage}
    (hrun : runCalls (exchange call asInt) cfg (Pool.fresh ()) acts = some s) (a : Addr) :
    (s.conns a).returned =
      results asInt ((s.conns a).completed.zip (replies (s.conns a).put)) := by
  have hsound : SoundRun (exchange call asInt) cfg (fun _ => True) (Pool.fresh ()) acts :=
    Runs.meets_of_forall (fun _ act => by cases act <;> simp [Sound]) _ _
  obtain ⟨o, rs, rest, hcut, hlen, hret, -⟩ := conn_invariant keeps_fed .fresh hsound hrun a
  have hzip : (s.conns a).completed.zip (rs ++ replies rest) = (s.conns a).completed.zip rs := by
    have happ := @List.zip_append _ _ _ [] _ (replies rest) hlen.symm
    rwa [List.append_nil, List.zip_nil_left, List.append_nil] at happ
  rw [hret, hcut.replies, hzip]

/-- **Every result was decoded from a response to its own request**, in a run, exactly when on
every connection each reply that the client accepts is a response to the request of the call whose
turn it is. -/
theorem own_iff_replies_due {acts : List (PooledCalls.Act Tid Ev Bytes)}
    {s : State Tid (Stream Tid) Stage}
    (hrun : runCalls (exchange call asInt) cfg (Pool.fresh ()) acts = some s) :
    (∀ a t h result, (t, h, result) ∈ (s.conns a).returned →
        h.isRequest = false ∧ h.isEvent = false ∧ h.requestId = (call t).header.requestId) ↔
      ∀ a t r, (t, r) ∈ (s.conns a).completed.zip (replies (s.conns a).put) →
        (readReply asInt r).isOk = true →
        r.header.isRequest = false ∧ r.header.isEvent = false ∧
          r.header.requestId = (call t).header.requestId := by
  simp only [returned_eq hrun]
  constructor
  · intro hown a t r hr haccept
    cases hread : readReply asInt r with
    | error e => simp [hread, Except.isOk, Except.toBool] at haccept
    | ok result =>
        refine hown a t r.header result (List.mem_filterMap.mpr ⟨(t, r), hr, ?_⟩)
        simp [hread, Except.toOption]
  · intro hdue a t h result hmem
    obtain ⟨⟨t', r⟩, hr, he⟩ := List.mem_filterMap.mp hmem
    cases hread : readReply asInt r with
    | error e => simp [hread, Except.toOption] at he
    | ok result' =>
        simp only [hread, Except.toOption, Option.map_some, Option.some.injEq,
          Prod.mk.injEq] at he
        obtain ⟨rfl, rfl, -⟩ := he
        exact hdue a t' r hr (by simp [hread, Except.isOk, Except.toBool])

/-- A call and its answer. -/
def sampleRun : List (PooledCalls.Act ℕ Ev Bytes) :=
  [.borrow .borrowOne 1 ⟨10, some ()⟩, .io 1 .done, .io 1 .done, .env 10 sampleReply, .io 1 .done,
   .io 1 .done]

/-- `own_iff_replies_due` at a call that gets its answer. -/
theorem own_iff_replies_due_sample :
    ∃ s, runCalls (exchange (fun _ => sampleCall) fun _ => .ok 1) { maxSize := 1 } (Pool.fresh ())
        sampleRun = some s ∧
      (s.conns 10).returned.map (·.2.2) = [⟨20, 1, ascii "7"⟩] ∧
      ((∀ a t h result, (t, h, result) ∈ (s.conns a).returned →
          h.isRequest = false ∧ h.isEvent = false ∧ h.requestId = sampleCall.header.requestId) ↔
        ∀ a t r, (t, r) ∈ (s.conns a).completed.zip (replies (s.conns a).put) →
          (readReply (fun _ => .ok 1) r).isOk = true →
          r.header.isRequest = false ∧ r.header.isEvent = false ∧
            r.header.requestId = sampleCall.header.requestId) := by
  obtain ⟨s, hrun, hreturned⟩ : ∃ s,
      runCalls (exchange (fun _ => sampleCall) fun _ => .ok 1) { maxSize := 1 } (Pool.fresh ())
        sampleRun = some s ∧ (s.conns 10).returned.map (·.2.2) = [⟨20, 1, ascii "7"⟩] :=
    ⟨_, rfl, by decide⟩
  exact ⟨s, hrun, hreturned, own_iff_replies_due hrun⟩

/-- **An event is taken for a reply**: the call returns what it says, though it is no response
and has another `request_id`. -/
theorem not_own_reply :
    ∃ s, runCalls (exchange (fun _ => sampleCall) fun _ => .ok 1) { maxSize := 1 } (Pool.fresh ())
        [.borrow .borrowOne 1 ⟨10, some ()⟩, .io 1 .done, .io 1 .done,
         .env 10 ([0xda, 0xbb, 0x26, 20, 1, 0, 0, 0, 0, 0, 0, 0, 0, 0, 0, 4] ++ ascii "1\n5\n"),
         .io 1 .done, .io 1 .done] = some s ∧
      ¬ ∀ a t h result, (t, h, result) ∈ (s.conns a).returned →
          h.isRequest = false ∧ h.isEvent = false ∧
            h.requestId = sampleCall.header.requestId := by
  refine ⟨_, rfl, fun hown => ?_⟩
  have hevent := hown 10 1 ⟨0xbbda, 6, true, false, false, 20, 1, 0x4000000⟩
    ⟨20, 1, ascii "5"⟩ (by decide)
  exact absurd hevent.2.1 (by decide)

end AliMiddleware.DubboClient
