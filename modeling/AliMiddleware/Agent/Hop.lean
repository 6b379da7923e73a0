import AliMiddleware.Agent.Form

/-!
# Agent — Hop

The texts on the connection between the consumer agent and the provider agent.  A request is the
four arguments joined by newlines (`reqText`); the provider takes one read of at most 2048 bytes
as a request, up to its first NUL, and cuts it at the newlines (`reqArgs`).  A response is the
value of the Dubbo call, as it is; the consumer takes one read of at most 2048 bytes as the
response, up to its first NUL (`respBody`).  Both read into a buffer of 2048 bytes and then
treat it as a C string, which is undefined when the read fills it and brings no NUL.

Decoding undoes encoding exactly when no argument has a newline or a NUL
(`reqArgs_reqText_iff`), and what the form parser lets through decides whether they do
(`decode_encode_iff`).
-/

namespace AliMiddleware

open Bytes

/-- The size of `req_buffer` and of `resp_buffer`. -/
def bufferSize : ℕ := 2048

namespace Consumer

/-- `req_text`: `"\n"_rs.join(dubbo_args.begin(), dubbo_args.end())` -/
def reqText (args : DubboArgs) : Bytes := [10].intercalate args.toList

/-- `res.body() = resp_buffer`, after a read of `chunk`. -/
def respBody (chunk : Bytes) : Option Bytes := cString (buffer bufferSize chunk)

/-- No argument has a newline or a NUL. -/
def DubboArgs.Clean (args : DubboArgs) : Prop := ∀ f, 10 ∉ args.get f ∧ 0 ∉ args.get f

end Consumer

namespace Provider

open Consumer

/-- The four elements of `rlib::string(req_buffer).split('\n')` that `session_consumer` passes
on, after a read of `chunk`; `none` when there are fewer. -/
def reqArgs (chunk : Bytes) : Option DubboArgs := do
  let text ← cString (buffer bufferSize chunk)
  match text.splitOn 10 with
  | a :: b :: c :: d :: _ => some ⟨a, b, c, d⟩
  | _ => none

end Provider

namespace Consumer

open Provider

theorem reqText_eq (args : DubboArgs) :
    reqText args = args.interface ++ 10 :: (args.method ++ 10 :: (args.parameterTypesString ++
      10 :: args.parameter)) := by
  simp [reqText, DubboArgs.toList]

theorem reqText_ne_nil (args : DubboArgs) : reqText args ≠ [] := by
  simp [reqText_eq]

theorem zero_not_mem_reqText {args : DubboArgs} (h : args.Clean) : 0 ∉ reqText args := by
  have h₁ := (h .interface).2
  have h₂ := (h .method).2
  have h₃ := (h .parameterTypesString).2
  have h₄ := (h .parameter).2
  simp only [DubboArgs.get] at h₁ h₂ h₃ h₄
  simp [reqText_eq, h₁, h₂, h₃, h₄]

theorem splitOn_reqText {args : DubboArgs} (h : args.Clean) :
    (reqText args).splitOn 10 = args.toList := by
  refine List.splitOn_intercalate 10 ?_ (by simp [DubboArgs.toList])
  intro s hs
  obtain ⟨f, rfl⟩ := DubboArgs.mem_toList.mp hs
  exact (h f).1

/-- **What the provider can make of a read**: the encoding of the arguments it finds begins the
read, and none of them has a newline or a NUL. -/
theorem reqArgs_some {chunk : Bytes} {args : DubboArgs} (h : reqArgs chunk = some args) :
    args.Clean ∧ reqText args <+: chunk := by
  simp only [reqArgs, Option.bind_eq_bind, Option.bind_eq_some_iff] at h
  obtain ⟨text, htext, h⟩ := h
  obtain ⟨-, rfl⟩ := cString_buffer.mp htext
  have hz := not_mem_takeWhile_ne 0 chunk
  have hjoin : [10].intercalate ((chunk.takeWhile (· ≠ 0)).splitOn 10) = chunk.takeWhile (· ≠ 0) :=
    List.intercalate_splitOn 10
  have hpieces : ∀ piece ∈ (chunk.takeWhile (· ≠ 0)).splitOn 10,
      10 ∉ piece ∧ piece ⊆ chunk.takeWhile (· ≠ 0) := fun _ => mem_splitOn
  generalize hparts : (chunk.takeWhile (· ≠ 0)).splitOn 10 = parts at h hjoin hpieces
  match parts, h with
  | a :: b :: c :: d :: more, h =>
      obtain rfl := Option.some.inj h
      constructor
      · intro f
        have hm : (DubboArgs.get ⟨a, b, c, d⟩ f) ∈ a :: b :: c :: d :: more := by
          cases f <;> simp [DubboArgs.get]
        obtain ⟨hn, hs⟩ := hpieces _ hm
        exact ⟨hn, fun h0 => hz (hs h0)⟩
      · refine List.IsPrefix.trans ?_ (List.takeWhile_prefix (· ≠ 0))
        rw [← hjoin]
        cases more with
        | nil => exact List.prefix_refl _
        | cons e es => exact ⟨10 :: [10].intercalate (e :: es), by simp [reqText_eq]⟩

theorem reqArgs_reqText {args : DubboArgs} (h : args.Clean)
    (hlen : (reqText args).length < bufferSize) : reqArgs (reqText args) = some args := by
  have hz := cString_buffer_self.mpr ⟨zero_not_mem_reqText h, hlen⟩
  simp [reqArgs, hz, splitOn_reqText h, DubboArgs.toList]

/-- **Decoding undoes encoding** exactly when no argument has a newline or a NUL. -/
theorem reqArgs_reqText_iff {args : DubboArgs} (hlen : (reqText args).length < bufferSize) :
    reqArgs (reqText args) = some args ↔ args.Clean :=
  ⟨fun h => (reqArgs_some h).1, fun h => reqArgs_reqText h hlen⟩

/-! ### What the form parser lets through -/

/-- Unescaping the type string adds and removes no newline and no NUL. -/
theorem mem_unescapeTypes {c : UInt8} (hc : c = 10 ∨ c = 0) (val : Bytes) :
    c ∈ unescapeTypes val ↔ c ∈ val := by
  have hsep : ∀ s ∈ [ascii "%3B", ascii ";", ascii "%2F", ascii "/"], c ∉ s := by
    rcases hc with rfl | rfl <;> decide
  rw [unescapeTypes, mem_replace (hsep _ (by simp)) (hsep _ (by simp)) (by decide),
    mem_replace (hsep _ (by simp)) (hsep _ (by simp)) (by decide)]

theorem mem_resultValue {c : UInt8} (hc : c = 10 ∨ c = 0) (text : Bytes) (f : Field) :
    c ∈ resultValue text f ↔ ∃ v, lastValue f.key text = some v ∧ c ∈ v := by
  have hval : c ∈ (lastValue f.key text).getD [] ↔ ∃ v, lastValue f.key text = some v ∧ c ∈ v := by
    cases lastValue f.key text <;> simp
  rw [resultValue]
  split_ifs with hf
  · rw [mem_unescapeTypes hc, hval]
  · exact hval

/-- **The provider's decoding undoes the consumer's encoding** exactly when, in the body, the
last value of none of the four fields has a newline or a NUL. -/
theorem decode_encode_iff {text : Bytes} {args : DubboArgs}
    (h : httpPayloadToDubboParameters text = .ok args)
    (hlen : (reqText args).length < bufferSize) :
    reqArgs (reqText args) = some args ↔
      ∀ (f : Field) (v : Bytes), lastValue f.key text = some v → 10 ∉ v ∧ 0 ∉ v := by
  rw [reqArgs_reqText_iff hlen, DubboArgs.Clean]
  simp only [httpPayloadToDubboParameters_get h, mem_resultValue (Or.inl rfl),
    mem_resultValue (Or.inr rfl), not_exists, not_and]
  constructor
  · intro hf f v hv
    exact ⟨(hf f).1 v hv, (hf f).2 v hv⟩
  · intro hf f
    exact ⟨fun v hv => (hf f v hv).1, fun v hv => (hf f v hv).2⟩

/-- A body with a field given twice and an escaped type string. -/
def sampleText : Bytes :=
  ascii ("interface=I&interface=IHash&method=hash&" ++
    "parameterTypesString=Ljava%2Flang%2FString%3B&parameter=v%0A")

/-- `decode_encode_iff` at this body. -/
theorem decode_encode_sample :
    reqArgs (reqText ⟨ascii "IHash", ascii "hash", ascii "Ljava/lang/String;", ascii "v%0A"⟩) =
      some ⟨ascii "IHash", ascii "hash", ascii "Ljava/lang/String;", ascii "v%0A"⟩ := by
  have hok : httpPayloadToDubboParameters sampleText = .ok ⟨ascii "IHash", ascii "hash",
      ascii "Ljava/lang/String;", ascii "v%0A"⟩ := by decide
  have hvals : ∀ f : Field, ∀ v ∈ lastValue f.key sampleText, 10 ∉ v ∧ 0 ∉ v := by
    intro f
    cases f <;> decide
  exact (decode_encode_iff hok (by decide)).mpr hvals

/-- **A newline in a value becomes a separator.** -/
theorem not_decode_encode : ∃ text args, httpPayloadToDubboParameters text = .ok args ∧
    (reqText args).length < bufferSize ∧ reqArgs (reqText args) ≠ some args :=
  ⟨ascii "interface=I&method=m&parameterTypesString=t\nu&parameter=p",
    ⟨ascii "I", ascii "m", ascii "t\nu", ascii "p"⟩, by decide, by decide, by decide⟩

end Consumer

end AliMiddleware
