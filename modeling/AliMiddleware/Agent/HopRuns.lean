import AliMiddleware.Agent.Hop
import AliMiddleware.Support.Runs

/-!
# Agent — HopRuns

Runs of one connection between the consumer agent and the provider agent, under every way TCP may
cut what is written into reads.  Neither side announces a length or ends a message: each takes
one read for one message.

* Requests (`Requests`): `session_consumer` reads, calls `dubbo.async_request` and answers, the
  consumer sending each request after the previous answer.  The calls are the requests sent
  exactly when every read takes a whole request that does not fill the buffer
  (`framed_iff_whole`).
* Responses (`Responses`): `provider_info::async_request` sends, and takes one read as the
  answer; what it leaves unread is read by a later request.  Every request gets its own value
  exactly when every value is non-empty, has no NUL, does not fill the buffer and is read whole
  (`exchanges_iff_whole`).
-/

namespace AliMiddleware

open Bytes Consumer Provider

/-! ### Requests -/

/-- Where `session_consumer` is. -/
inductive SessionAt where
  /-- at `async_read_some` -/
  | reading
  /-- in `dubbo.async_request` -/
  | calling
  /-- past the loop -/
  | ended
  /-- behaviour is undefined: the buffer holds no NUL, or the request has fewer than four
  elements -/
  | undefined
  deriving DecidableEq, Repr

/-- The request direction of a connection. -/
structure Requests where
  /-- written by the consumer, not yet read -/
  wire : Bytes := []
  sent : List DubboArgs := []
  answered : ℕ := 0
  /-- the arguments of the calls of `dubbo.async_request` -/
  calls : List DubboArgs := []
  session : SessionAt := .reading
  deriving DecidableEq

namespace Requests

inductive Act where
  /-- the consumer writes a request -/
  | send (args : DubboArgs)
  /-- the session's read takes `k` bytes -/
  | read (k : ℕ)
  /-- `dubbo.async_request` gives a value, which is written, or ends the session -/
  | answer (value : Option Bytes)
  deriving DecidableEq

def step (s : Requests) : Act → Option Requests
  | .send args =>
      if s.sent.length ≤ s.answered then
        some { s with wire := s.wire ++ reqText args, sent := s.sent ++ [args] }
      else none
  | .read k =>
      if s.session = .reading then
        match readSome bufferSize k s.wire with
        | none => none
        | some (chunk, rest) =>
            match reqArgs chunk with
            | none => some { s with wire := rest, session := .undefined }
            | some args =>
                some { s with wire := rest, calls := s.calls ++ [args], session := .calling }
      else none
  | .answer (some _) =>
      if s.session = .calling then
        some { s with answered := s.answered + 1, session := .reading }
      else none
  | .answer none => if s.session = .calling then some { s with session := .ended } else none

/-- The calls are the requests sent, one each and in order, up to one that is still on the
wire. -/
def Framed (s : Requests) : Prop :=
  s.session ≠ .undefined ∧
    (s.calls = s.sent ∨ s.wire ≠ [] ∧ ∃ args, s.sent = s.calls ++ [args])

/-- The condition on a step: a read takes all there is, and does not fill the buffer. -/
def Whole (s : Requests) : Act → Prop
  | .read k => k = s.wire.length ∧ s.wire.length < bufferSize
  | _ => True

instance (s : Requests) (act : Act) : Decidable (Whole s act) :=
  match act with
  | .read _ => inferInstanceAs (Decidable (_ ∧ _))
  | .send _ | .answer _ => isTrue trivial

/-- What `Whole` reads keep: nothing is on the wire, or one whole request that is to be read. -/
inductive InStep : Requests → Prop where
  | idle (sent : List DubboArgs) : InStep ⟨[], sent, sent.length, sent, .reading⟩
  | pending (sent : List DubboArgs) {args : DubboArgs} (clean : args.Clean) :
      InStep ⟨reqText args, sent ++ [args], sent.length, sent, .reading⟩
  | calling (sent : List DubboArgs) (args : DubboArgs) :
      InStep ⟨[], sent ++ [args], sent.length, sent ++ [args], .calling⟩
  | ended (sent : List DubboArgs) (args : DubboArgs) :
      InStep ⟨[], sent ++ [args], sent.length, sent ++ [args], .ended⟩

theorem InStep.framed {s : Requests} (h : InStep s) : Framed s := by
  cases h with
  | idle sent => exact ⟨by simp, .inl rfl⟩
  | pending sent _ => exact ⟨by simp, .inr ⟨reqText_ne_nil _, _, rfl⟩⟩
  | calling sent args => exact ⟨by simp, .inl rfl⟩
  | ended sent args => exact ⟨by simp, .inl rfl⟩

/-- A call that was not asked for, or undefined behaviour.  Nothing repairs either. -/
def Broken (s : Requests) : Prop :=
  s.session = .undefined ∨
    ∃ (i : ℕ) (a b : DubboArgs), s.calls[i]? = some a ∧ s.sent[i]? = some b ∧ a ≠ b

theorem Broken.not_framed {s : Requests} (h : Broken s) : ¬ Framed s := by
  rintro ⟨hdef, hcalls⟩
  rcases h with hu | ⟨i, a, b, ha, hb, hne⟩
  · exact hdef hu
  · have hsame : s.sent[i]? = some a := by
      rcases hcalls with he | ⟨-, args, he⟩
      · rw [← he, ha]
      · rw [he, List.getElem?_append_left (List.getElem?_eq_some_iff.mp ha).1, ha]
    exact hne (Option.some.inj (hsame.symm.trans hb))

theorem step_send {s s' : Requests} {args : DubboArgs} (h : step s (.send args) = some s') :
    s.sent.length ≤ s.answered ∧
      s' = { s with wire := s.wire ++ reqText args, sent := s.sent ++ [args] } := by
  simp only [step, Option.ite_none_right_eq_some, Option.some.injEq] at h
  exact ⟨h.1, h.2.symm⟩

/-- What a step does to the calls, to the requests sent and to undefined behaviour. -/
theorem step_grows {s s' : Requests} {act : Act} (h : step s act = some s') :
    (∃ calls, s'.calls = s.calls ++ calls) ∧ (∃ sent, s'.sent = s.sent ++ sent) ∧
      (s.session = .undefined → s'.session = .undefined) := by
  cases act with
  | send args =>
      obtain ⟨-, rfl⟩ := step_send h
      exact ⟨⟨[], by simp⟩, ⟨_, rfl⟩, id⟩
  | read k =>
      simp only [step, Option.ite_none_right_eq_some] at h
      obtain ⟨hr, h⟩ := h
      split at h
      · cases h
      · split at h
        · cases h
          exact ⟨⟨[], by simp⟩, ⟨[], by simp⟩, fun _ => rfl⟩
        · cases h
          exact ⟨⟨_, rfl⟩, ⟨[], by simp⟩, fun hu => by simp [hu] at hr⟩
  | answer value =>
      cases value with
      | none =>
          simp only [step, Option.ite_none_right_eq_some, Option.some.injEq] at h
          obtain ⟨hr, rfl⟩ := h
          exact ⟨⟨[], by simp⟩, ⟨[], by simp⟩, fun hu => by simp [hu] at hr⟩
      | some v =>
          simp only [step, Option.ite_none_right_eq_some, Option.some.injEq] at h
          obtain ⟨hr, rfl⟩ := h
          exact ⟨⟨[], by simp⟩, ⟨[], by simp⟩, fun hu => by simp [hu] at hr⟩

theorem broken_step (s : Requests) (act : Act) (s' : Requests) (hb : Broken s)
    (h : step s act = some s') : Broken s' := by
  obtain ⟨⟨calls, hc⟩, ⟨sent, hs⟩, hu⟩ := step_grows h
  rcases hb with hund | ⟨i, a, b, ha, hb, hne⟩
  · exact .inl (hu hund)
  · refine .inr ⟨i, a, b, ?_, ?_, hne⟩
    · rw [hc, List.getElem?_append_left (List.getElem?_eq_some_iff.mp ha).1, ha]
    · rw [hs, List.getElem?_append_left (List.getElem?_eq_some_iff.mp hb).1, hb]

/-- What is sent has no newline and no NUL. -/
def Sendable : Act → Prop
  | .send args => args.Clean
  | _ => True

/-- A read of part of a request, or of one that fills the buffer, finds no request or another
one. -/
theorem reqArgs_part {args : DubboArgs} {k : ℕ} {chunk rest : Bytes} (hclean : args.Clean)
    (hread : readSome bufferSize k (reqText args) = some (chunk, rest))
    (h : reqArgs chunk = some args) :
    k = (reqText args).length ∧ (reqText args).length < bufferSize := by
  obtain ⟨-, -, hk, rfl, -⟩ := readSome_eq_some.mp hread
  have hlen := (reqArgs_some h).2.length_le
  rw [List.length_take] at hlen
  have hall : k = (reqText args).length := by omega
  rw [hall, List.take_length] at h
  refine ⟨hall, ?_⟩
  simp only [reqArgs, Option.bind_eq_bind, Option.bind_eq_some_iff] at h
  obtain ⟨text, htext, -⟩ := h
  exact (cString_buffer.mp htext).1.resolve_left (zero_not_mem_reqText hclean)

/-- The session reads from a pending request. -/
theorem read_pending (sent : List DubboArgs) {args : DubboArgs} {k : ℕ} {s' : Requests}
    (hclean : args.Clean)
    (h : step ⟨reqText args, sent ++ [args], sent.length, sent, .reading⟩ (.read k) = some s') :
    (k = (reqText args).length ∧ (reqText args).length < bufferSize → InStep s') ∧
      (¬ (k = (reqText args).length ∧ (reqText args).length < bufferSize) → Broken s') := by
  simp only [step, if_true] at h
  cases hread : readSome bufferSize k (reqText args) with
  | none => simp [hread] at h
  | some cr =>
      obtain ⟨chunk, rest⟩ := cr
      simp only [hread] at h
      constructor
      · rintro ⟨hk, hlen⟩
        obtain ⟨-, -, -, rfl, rfl⟩ := readSome_eq_some.mp hread
        simp only [hk, List.take_length, List.drop_length, reqArgs_reqText hclean hlen,
          Option.some.injEq] at h
        exact h ▸ .calling sent args
      · -- a part of the request, or more than fits: what is parsed is not what was sent
        intro hpart
        cases hargs : reqArgs chunk with
        | none =>
            simp only [hargs, Option.some.injEq] at h
            exact .inl (by rw [← h])
        | some found =>
            simp only [hargs, Option.some.injEq] at h
            refine .inr ⟨sent.length, found, args, ?_, ?_, ?_⟩
            · simp [← h]
            · simp [← h]
            · rintro rfl
              exact hpart (reqArgs_part hclean hread hargs)

/-- **A step from a state in step** ends in one, or breaks the framing, as its read is whole or
not. -/
theorem step_inStep {s s' : Requests} {act : Act} (hi : InStep s) (hsend : Sendable act)
    (h : step s act = some s') : (Whole s act → InStep s') ∧ (¬ Whole s act → Broken s') := by
  cases hi with
  | idle sent =>
      cases act with
      | send args =>
          obtain ⟨-, rfl⟩ := step_send h
          exact ⟨fun _ => .pending sent hsend, fun hw => absurd trivial hw⟩
      | read k => simp [step] at h
      | answer value => cases value <;> simp [step] at h
  | @pending sent args hclean =>
      cases act with
      | send args => exact absurd (step_send h).1 (by simp)
      | answer value => cases value <;> simp [step] at h
      | read k => exact read_pending sent hclean h
  | calling sent args =>
      cases act with
      | send args => exact absurd (step_send h).1 (by simp)
      | read k => simp [step] at h
      | answer value =>
          cases value with
          | none =>
              have he : s' = ⟨[], sent ++ [args], sent.length, sent ++ [args], .ended⟩ := by
                simpa [step] using h.symm
              exact ⟨fun _ => he ▸ .ended sent args, fun hw => absurd trivial hw⟩
          | some v =>
              have he : s' = ⟨[], sent ++ [args], (sent ++ [args]).length, sent ++ [args],
                  .reading⟩ := by
                simpa [step] using h.symm
              exact ⟨fun _ => he ▸ .idle _, fun hw => absurd trivial hw⟩
  | ended sent args =>
      cases act with
      | send args => exact absurd (step_send h).1 (by simp)
      | read k => simp [step] at h
      | answer value => cases value <;> simp [step] at h

theorem inStep_or_broken {acts : List Act} {s s' : Requests} (hi : InStep s)
    (hsend : ∀ act ∈ acts, Sendable act) (h : Runs.run step s acts = some s') :
    (Runs.Meets step Whole s acts → InStep s') ∧ (¬ Runs.Meets step Whole s acts → Broken s') := by
  refine Runs.meets_or_broken ?_ ?_ hsend hi h
  · intro t act t' hact ht hstep
    exact step_inStep ht hact hstep
  · intro t act t' _ hb hstep
    exact broken_step t act t' hb hstep

/-- **The calls are the requests**, in every run, exactly when every read of the run takes the
whole request and does not fill the buffer. -/
theorem framed_iff_whole {acts : List Act} {s : Requests}
    (hsend : ∀ args, .send args ∈ acts → args.Clean)
    (h : Runs.run step {} acts = some s) : Framed s ↔ Runs.Meets step Whole {} acts := by
  have hsendable : ∀ act ∈ acts, Sendable act := by
    intro act hact
    cases act with
    | send args => exact hsend args hact
    | read k => trivial
    | answer value => trivial
  obtain ⟨hwhole, hpart⟩ := inStep_or_broken (.idle []) hsendable h
  constructor
  · intro hf
    by_contra hm
    exact (hpart hm).not_framed hf
  · intro hm
    exact (hwhole hm).framed

/-- Two requests, each read whole. -/
def sampleExchange : List Act :=
  [.send ⟨ascii "IHash", ascii "hash", ascii "Ljava/lang/String;", ascii "a"⟩, .read 31,
   .answer (some (ascii "97")),
   .send ⟨ascii "IHash", ascii "hash", ascii "Ljava/lang/String;", ascii "bc"⟩, .read 32]

/-- `framed_iff_whole` at these. -/
theorem framed_sampleExchange :
    ∃ s, Runs.run step {} sampleExchange = some s ∧ Framed s := by
  obtain ⟨s, hs⟩ : ∃ s, Runs.run step {} sampleExchange = some s := ⟨_, rfl⟩
  refine ⟨s, hs, (framed_iff_whole ?_ hs).mpr (by decide)⟩
  intro args hargs
  have hsent : args ∈ [(⟨ascii "IHash", ascii "hash", ascii "Ljava/lang/String;", ascii "a"⟩ :
      DubboArgs), ⟨ascii "IHash", ascii "hash", ascii "Ljava/lang/String;", ascii "bc"⟩] := by
    simpa [sampleExchange] using hargs
  have hclean : ∀ a ∈ [(⟨ascii "IHash", ascii "hash", ascii "Ljava/lang/String;", ascii "a"⟩ :
      DubboArgs), ⟨ascii "IHash", ascii "hash", ascii "Ljava/lang/String;", ascii "bc"⟩],
      ∀ s ∈ a.toList, 10 ∉ s ∧ 0 ∉ s := by decide
  exact fun f => hclean args hsent _ (DubboArgs.mem_toList.mpr ⟨f, rfl⟩)

/-- **A read that takes part of a request makes another call of it.**  The last argument is
cut. -/
theorem not_framed_part : ∃ (acts : List Act) (s : Requests) (args : DubboArgs),
    acts = [.send args, .read 9] ∧ (∀ f, args.get f ≠ []) ∧ args.Clean ∧
      Runs.run step {} acts = some s ∧ ¬ Framed s := by
  refine ⟨_, _, ⟨ascii "I", ascii "m", ascii "t", ascii "value"⟩, rfl, ?_, ?_, rfl, ?_⟩
  · intro f
    cases f <;> decide
  · intro f
    cases f <;> decide
  · rintro ⟨-, hcalls | ⟨-, args, hsent⟩⟩
    · exact absurd hcalls (by decide)
    · have hlen := congrArg List.length hsent
      simp at hlen

end Requests

/-! ### Responses -/

/-- The response direction of a connection, as the calls of `async_request` on it see it. -/
structure Responses where
  /-- written by the session, not yet read -/
  undelivered : Bytes := []
  /-- what the calls returned -/
  bodies : List Bytes := []
  deriving DecidableEq

namespace Responses

/-- A call that the session answers with `value`, and whose read takes `k` bytes.  It does not
return when there is nothing to read, nor when the buffer then holds no NUL. -/
def exchange (s : Responses) (r : Bytes × ℕ) : Option Responses := do
  let (chunk, rest) ← readSome bufferSize r.2 (s.undelivered ++ r.1)
  let body ← respBody chunk
  pure { undelivered := rest, bodies := s.bodies ++ [body] }

/-- The value can come back whole, and the read takes it whole. -/
def Whole (r : Bytes × ℕ) : Prop :=
  r.1 ≠ [] ∧ 0 ∉ r.1 ∧ r.1.length < bufferSize ∧ r.2 = r.1.length

theorem exchange_eq_some {s s' : Responses} {r : Bytes × ℕ} :
    exchange s r = some s' ↔ ∃ chunk rest body,
      readSome bufferSize r.2 (s.undelivered ++ r.1) = some (chunk, rest) ∧
        respBody chunk = some body ∧ s' = ⟨rest, s.bodies ++ [body]⟩ := by
  simp only [exchange, Option.bind_eq_bind, Option.bind_eq_some_iff, Prod.exists, Option.pure_def,
    Option.some.injEq, eq_comm (a := s')]
  constructor
  · rintro ⟨chunk, rest, hread, body, hbody, he⟩
    exact ⟨chunk, rest, body, hread, hbody, he⟩
  · rintro ⟨chunk, rest, body, hread, hbody, he⟩
    exact ⟨chunk, rest, hread, body, hbody, he⟩

/-- A whole value comes back, and nothing stays unread. -/
theorem exchange_whole {s : Responses} {r : Bytes × ℕ} (hs : s.undelivered = []) (h : Whole r) :
    exchange s r = some ⟨[], s.bodies ++ [r.1]⟩ := by
  obtain ⟨hne, hz, hlen, hk⟩ := h
  refine exchange_eq_some.mpr ⟨r.1, [], r.1, ?_, ?_, rfl⟩
  · rw [hs, hk, List.nil_append]
    exact readSome_all hne hlen.le
  · exact cString_buffer_self.mpr ⟨hz, hlen⟩

/-- With nothing unread before, only a whole value comes back. -/
theorem whole_of_exchange {s s' : Responses} {r : Bytes × ℕ} (hs : s.undelivered = [])
    (h : exchange s r = some s') (hown : s'.bodies = s.bodies ++ [r.1]) : Whole r := by
  obtain ⟨chunk, rest, body, hread, hbody, rfl⟩ := exchange_eq_some.mp h
  obtain rfl : body = r.1 := by simpa using hown
  rw [hs, List.nil_append] at hread
  obtain ⟨hpos, -, hk, rfl, -⟩ := readSome_eq_some.mp hread
  -- the string is part of the read, which is part of the value: all three are the same
  have hpre : r.1 <+: r.1.take r.2 := by
    have hself := (cString_buffer.mp hbody).2
    rw [hself]
    exact hself ▸ List.takeWhile_prefix _
  have hlen := hpre.length_le
  rw [List.length_take] at hlen
  have hall : r.2 = r.1.length := by omega
  rw [hall, List.take_length] at hbody
  obtain ⟨hz, hsize⟩ := cString_buffer_self.mp hbody
  exact ⟨List.ne_nil_of_length_pos (hall ▸ hpos), hz, hsize, hall⟩

/-- Bodies once returned stay. -/
theorem run_bodies {s s' : Responses} {rs : List (Bytes × ℕ)}
    (h : Runs.run exchange s rs = some s') : s.bodies <+: s'.bodies := by
  refine Runs.run_invariant (I := fun t => s.bodies <+: t.bodies) ?_ (List.prefix_refl _) h
  intro t r t' ht h
  obtain ⟨-, -, body, -, -, rfl⟩ := exchange_eq_some.mp h
  exact ht.trans (List.prefix_append _ _)

theorem run_iff_whole {s : Responses} (hs : s.undelivered = []) (rs : List (Bytes × ℕ)) :
    (∃ s', Runs.run exchange s rs = some s' ∧ s'.bodies = s.bodies ++ rs.map Prod.fst) ↔
      ∀ r ∈ rs, Whole r := by
  induction rs generalizing s with
  | nil => simp
  | cons r rs ih =>
      have htail := ih (s := ⟨[], s.bodies ++ [r.1]⟩) rfl
      constructor
      · rintro ⟨s', h, hb⟩
        obtain ⟨s₁, h₁, h₂⟩ := Runs.run_cons_inv h
        obtain ⟨chunk, rest, body, hread, hbody, rfl⟩ := exchange_eq_some.mp h₁
        obtain ⟨more, hmore⟩ := run_bodies h₂
        obtain ⟨rfl, -⟩ : body = r.1 ∧ more = rs.map Prod.fst := by
          simpa [hb] using hmore
        have hw := whole_of_exchange hs h₁ rfl
        rw [exchange_whole hs hw] at h₁
        obtain ⟨rfl, -⟩ : [] = rest ∧ True := by simpa using h₁
        intro q hq
        rcases List.mem_cons.mp hq with rfl | hq
        · exact hw
        · exact htail.mp ⟨s', h₂, by simp [hb]⟩ q hq
      · intro hall
        obtain ⟨s', h, hb⟩ := htail.mpr fun q hq => hall q (by simp [hq])
        refine ⟨s', Runs.run_cons_some (exchange_whole hs (hall r (by simp))) h, ?_⟩
        simpa using hb

/-- **Every request gets its own value**, for the values and the reads `rs` of the requests on
one connection, exactly when every value is non-empty, has no NUL, does not fill the buffer and
is read whole. -/
theorem exchanges_iff_whole (rs : List (Bytes × ℕ)) :
    (∃ s, Runs.run exchange {} rs = some s ∧ s.bodies = rs.map Prod.fst) ↔
      ∀ r ∈ rs, r.1 ≠ [] ∧ 0 ∉ r.1 ∧ r.1.length < bufferSize ∧ r.2 = r.1.length :=
  run_iff_whole rfl rs

/-- **The unread tail of one answer is the next answer.** -/
theorem not_own_value : ∃ (rs : List (Bytes × ℕ)) (s : Responses),
    Runs.run exchange {} rs = some s ∧ s.bodies = [ascii "152", ascii "3458"] ∧
      s.bodies ≠ rs.map Prod.fst :=
  ⟨[(ascii "1523458", 3), (ascii "7", 4)], _, rfl, rfl, by decide⟩

end Responses

end AliMiddleware
