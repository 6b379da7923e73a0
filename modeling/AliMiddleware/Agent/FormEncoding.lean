import AliMiddleware.Agent.FormMeaning
import AliMiddleware.Support.PercentEncoding

/-!
# Agent — FormEncoding

Whether `http_payload_to_dubbo_parameters` (`src/provider_selector.hpp`) undoes the encoding of a
form.  A body carries four texts when the segments with the keys of the fields are percent-encoded
texts (`Carries`).  The parser decodes nothing but `%2F` and `%3B` in the type string, so it
returns the texts exactly when these are the only escapes in the body and no text has a `+` for a
space (`undoes_encoding_iff`).
-/

namespace AliMiddleware.Consumer

open Bytes

/-- The fields, in the order of `dubbo_rpc_args`. -/
def Field.all : List Field := [.interface, .method, .parameterTypesString, .parameter]

/-- A segment of the body. -/
def segment (f : Field) (val : Bytes) : Bytes := f.key ++ 61 :: val

/-- The body carries `args`, each encoded as `enc` says, in any order, and perhaps segments with
no field's key. -/
structure Carries (text : Bytes) (args : DubboArgs) (enc : Field → Bytes) : Prop where
  encoded : ∀ f, EncodedAs (args.get f) (enc f)
  segments : ∃ others : List Bytes, (∀ seg ∈ others, ∀ f : Field, keyOf seg ≠ some f.key) ∧
    (text.splitOn 38).Perm ((Field.all.map fun f => segment f (enc f)) ++ others)

/-! ### The segments -/

theorem cutAt_segment (f : Field) (val : Bytes) : cutAt 61 (segment f val) = some (f.key, val) := by
  have hkey : 61 ∉ f.key := by cases f <;> decide
  have hmem : 61 ∈ segment f val := by simp [segment]
  have hall : ∀ b ∈ f.key, decide (b ≠ 61) = true := by
    intro b hb
    have hne : b ≠ 61 := fun heq => hkey (heq ▸ hb)
    simpa using hne
  rw [cutAt, if_pos hmem, segment, List.takeWhile_append_of_pos hall,
    List.dropWhile_append_of_pos hall]
  simp

theorem valueOf_segment (f g : Field) (val : Bytes) :
    valueOf f.key (segment g val) = if g = f then some val else none := by
  have hkey : g.key = f.key ↔ g = f := ⟨Field.key_injective, fun h => h ▸ rfl⟩
  rw [valueOf, cutAt_segment]
  simp [hkey]

theorem Carries.lastValue {text : Bytes} {args : DubboArgs} {enc : Field → Bytes}
    (h : Carries text args enc) (f : Field) : lastValue f.key text = some (enc f) := by
  obtain ⟨others, hothers, hperm⟩ := h.segments
  have hnone : others.filterMap (valueOf f.key) = [] :=
    List.filterMap_eq_nil_iff.mpr fun seg hseg => valueOf_eq_none (hothers seg hseg f)
  have hown : (Field.all.map fun g => segment g (enc g)).filterMap (valueOf f.key) = [enc f] := by
    rw [List.filterMap_map]
    simp only [Function.comp_def, valueOf_segment, Field.all]
    cases f <;> rfl
  have hvalues := hperm.filterMap (valueOf f.key)
  rw [List.filterMap_append, hown, hnone, List.append_nil, List.perm_singleton] at hvalues
  rw [Consumer.lastValue, kvStrArray, hvalues]
  rfl

/-! ### The escapes -/

/-- The escapes that are decoded: `%2F` and `%3B` in the type string. -/
def Known (f : Field) (hi lo : UInt8) : Prop :=
  f = .parameterTypesString ∧ ([hi, lo] = ascii "2F" ∨ [hi, lo] = ascii "3B")

/-- What is made of the value of a field. -/
def decoded (f : Field) (val : Bytes) : Bytes :=
  if f = .parameterTypesString then unescapeTypes val else val

theorem ascii_escapes : ascii "%2F" = [37, 50, 70] ∧ ascii "%3B" = [37, 51, 66] ∧
    ascii "2F" = [50, 70] ∧ ascii "3B" = [51, 66] ∧ ascii "/" = [47] ∧ ascii ";" = [59] := by
  decide

/-- An occurrence begins with `%`. -/
theorem unescapeBoth_cons {b : UInt8} (h : b ≠ 37) (t : Bytes) :
    unescapeBoth (b :: t) = b :: unescapeBoth t := by
  obtain ⟨h2F, h3B, -⟩ := ascii_escapes
  rw [unescapeBoth, unescapeBoth, h2F, h3B]
  refine replaceBoth_cons ?_ ?_
  · rintro ⟨r, hr⟩
    exact h (List.cons.inj hr).1.symm
  · rintro ⟨r, hr⟩
    exact h (List.cons.inj hr).1.symm

theorem unescapeBoth_slash (t : Bytes) :
    unescapeBoth (37 :: 50 :: 70 :: t) = 47 :: unescapeBoth t :=
  replaceBoth_first (by decide) t

theorem unescapeBoth_semicolon (t : Bytes) :
    unescapeBoth (37 :: 51 :: 66 :: t) = 59 :: unescapeBoth t := by
  refine replaceBoth_second (by decide) (s := t) ?_
  rintro ⟨r, hr⟩
  cases hr

theorem unescapeBoth_other {hi lo : UInt8} (h : ¬ Known .parameterTypesString hi lo) (t : Bytes) :
    unescapeBoth (37 :: hi :: lo :: t) = 37 :: unescapeBoth (hi :: lo :: t) := by
  obtain ⟨h2F, h3B, h2F', h3B', -⟩ := ascii_escapes
  rw [unescapeBoth, unescapeBoth, h2F, h3B]
  rw [Known, h2F', h3B', not_and, not_or] at h
  obtain ⟨hslash, hsemicolon⟩ := h rfl
  refine replaceBoth_cons ?_ ?_
  · rintro ⟨r, hr⟩
    simp only [List.cons_append, List.cons.injEq] at hr
    exact hslash (by rw [← hr.2.1, ← hr.2.2.1])
  · rintro ⟨r, hr⟩
    simp only [List.cons_append, List.cons.injEq] at hr
    exact hsemicolon (by rw [← hr.2.1, ← hr.2.2.1])

/-- The byte of a known escape. -/
theorem byte_of_digits {hi lo b c : UInt8} (hhi : hexDigit hi = some (b.toNat / 16))
    (hlo : hexDigit lo = some (b.toNat % 16)) (hhi' : hexDigit hi = some (c.toNat / 16))
    (hlo' : hexDigit lo = some (c.toNat % 16)) : b = c := by
  have hdiv := Option.some.inj (hhi.symm.trans hhi')
  have hmod := Option.some.inj (hlo.symm.trans hlo')
  apply UInt8.toNat_inj.mp
  omega

theorem decoder_types : PartialDecoder (Known .parameterTypesString) unescapeBoth where
  nil := rfl
  other := fun _ t h => unescapeBoth_cons h t
  known := by
    rintro hi lo b t ⟨-, hknown⟩ hhi hlo
    obtain ⟨-, -, h2F, h3B, -⟩ := ascii_escapes
    rw [h2F, h3B, List.cons.injEq, List.cons.injEq, List.cons.injEq, List.cons.injEq] at hknown
    rcases hknown with ⟨rfl, rfl, -⟩ | ⟨rfl, rfl, -⟩
    · rw [unescapeBoth_slash, byte_of_digits (c := 47) hhi hlo (by decide) (by decide)]
    · rw [unescapeBoth_semicolon, byte_of_digits (c := 59) hhi hlo (by decide) (by decide)]
  unknown := by
    intro hi lo t hknown hhi hlo
    rw [unescapeBoth_other hknown, unescapeBoth_cons hhi, unescapeBoth_cons hlo]

/-- The parser decodes nothing else. -/
theorem decoder (f : Field) : PartialDecoder (Known f) (decoded f) := by
  by_cases hf : f = .parameterTypesString
  · subst hf
    have hsame : decoded .parameterTypesString = unescapeBoth := funext unescapeTypes_eq_both
    rw [hsame]
    exact decoder_types
  · have hsame : decoded f = id := funext fun val => if_neg hf
    rw [hsame]
    exact {
      nil := rfl
      other := fun _ _ _ => rfl
      known := fun _ _ _ _ hknown => absurd hknown.1 hf
      unknown := fun _ _ _ _ _ _ => rfl }

/-! ### The outcome -/

theorem Carries.resultArgs_get {text : Bytes} {args : DubboArgs} {enc : Field → Bytes}
    (h : Carries text args enc) (f : Field) : (resultArgs text).get f = decoded f (enc f) := by
  rw [Consumer.resultArgs_get, resultValue, h.lastValue f]
  rfl

/-- **When the form parser undoes form encoding.**  For every four texts that are not empty, every
encoding of each and every body that carries them, it returns the four texts exactly when the
body's values have no `+`, and no escape but `%2F` and `%3B` in the type string. -/
theorem undoes_encoding_iff {text : Bytes} {args : DubboArgs} {enc : Field → Bytes}
    (hargs : ∀ f, args.get f ≠ []) (h : Carries text args enc) :
    httpPayloadToDubboParameters text = .ok args ↔
      ∀ f, 43 ∉ enc f ∧ ∀ hi lo rest, 37 :: hi :: lo :: rest <:+ enc f →
        f = .parameterTypesString ∧ ([hi, lo] = ascii "2F" ∨ [hi, lo] = ascii "3B") := by
  have hundoes : ∀ f, (resultArgs text).get f = args.get f ↔ Understood (Known f) (enc f) := by
    intro f
    rw [h.resultArgs_get f]
    exact (decoder f).undoes_iff (h.encoded f)
  change _ ↔ ∀ f, Understood (Known f) (enc f)
  rw [httpPayloadToDubboParameters_eq]
  constructor
  · intro hok f
    split_ifs at hok
    exact (hundoes f).mp (congrArg (·.get f) (Except.ok.inj hok))
  · intro hall
    have hsame : resultArgs text = args :=
      DubboArgs.eq_of_get fun f => (hundoes f).mpr (hall f)
    have hfull : [] ∉ (resultArgs text).toList := by
      rw [hsame, DubboArgs.mem_toList]
      rintro ⟨f, hf⟩
      exact hargs f hf
    rw [if_neg hfull, hsame]

/-! ### Samples -/

/-- Four texts. -/
def sampleArgs (parameter : Bytes) : DubboArgs where
  interface := ascii "IHash"
  method := ascii "hash"
  parameterTypesString := ascii "LString;"
  parameter := parameter

/-- Their encodings. -/
def sampleEnc (types parameter : Bytes) : Field → Bytes
  | .interface => ascii "IHash"
  | .method => ascii "hash"
  | .parameterTypesString => types
  | .parameter => parameter

theorem sampleEnc_encoded {types parameter parameter' : Bytes}
    (htypes : types = ascii "LString%3B" ∨ types = ascii "LString%3b")
    (hparameter : EncodedAs parameter parameter') (f : Field) :
    EncodedAs ((sampleArgs parameter).get f) (sampleEnc types parameter' f) := by
  cases f with
  | interface => exact encodedAs_self (s := ascii "IHash") (by decide)
  | method => exact encodedAs_self (s := ascii "hash") (by decide)
  | parameter => exact hparameter
  | parameterTypesString =>
      have hname : EncodedAs (ascii "LString") (ascii "LString") := encodedAs_self (by decide)
      rcases htypes with rfl | rfl
      · exact hname.append (.cons (.escape (by decide) (by decide) (by decide)) .nil)
      · exact hname.append (.cons (.escape (by decide) (by decide) (by decide)) .nil)

/-- A body in another order. -/
theorem undoes_encoding_sample :
    httpPayloadToDubboParameters
        (ascii "parameter=a-1&parameterTypesString=LString%3B&method=hash&interface=IHash") =
        .ok (sampleArgs (ascii "a-1")) ↔
      ∀ f, 43 ∉ sampleEnc (ascii "LString%3B") (ascii "a-1") f ∧ ∀ hi lo rest,
        37 :: hi :: lo :: rest <:+ sampleEnc (ascii "LString%3B") (ascii "a-1") f →
          f = .parameterTypesString ∧ ([hi, lo] = ascii "2F" ∨ [hi, lo] = ascii "3B") := by
  have hne : ∀ f, (sampleArgs (ascii "a-1")).get f ≠ [] := by
    intro f
    cases f <;> decide
  have hbody : Carries
      (ascii "parameter=a-1&parameterTypesString=LString%3B&method=hash&interface=IHash")
      (sampleArgs (ascii "a-1")) (sampleEnc (ascii "LString%3B") (ascii "a-1")) :=
    ⟨sampleEnc_encoded (.inl rfl) (encodedAs_self (by decide)), [], by simp, by decide⟩
  exact undoes_encoding_iff hne hbody

/-- **Bodies that are not decoded**: a space in the parameter, written `%20` or `+`, and a type
string with a lower-case escape. -/
theorem not_undoes_encoding :
    (Carries (ascii "interface=IHash&method=hash&parameterTypesString=LString%3B&parameter=a%20b")
        (sampleArgs (ascii "a b")) (sampleEnc (ascii "LString%3B") (ascii "a%20b")) ∧
      httpPayloadToDubboParameters
        (ascii "interface=IHash&method=hash&parameterTypesString=LString%3B&parameter=a%20b") ≠
        .ok (sampleArgs (ascii "a b"))) ∧
    (Carries (ascii "interface=IHash&method=hash&parameterTypesString=LString%3B&parameter=a+b")
        (sampleArgs (ascii "a b")) (sampleEnc (ascii "LString%3B") (ascii "a+b")) ∧
      httpPayloadToDubboParameters
        (ascii "interface=IHash&method=hash&parameterTypesString=LString%3B&parameter=a+b") ≠
        .ok (sampleArgs (ascii "a b"))) ∧
    (Carries (ascii "interface=IHash&method=hash&parameterTypesString=LString%3b&parameter=a")
        (sampleArgs (ascii "a")) (sampleEnc (ascii "LString%3b") (ascii "a")) ∧
      httpPayloadToDubboParameters
        (ascii "interface=IHash&method=hash&parameterTypesString=LString%3b&parameter=a") ≠
        .ok (sampleArgs (ascii "a"))) := by
  have ha : EncodedAs (ascii "a") (ascii "a") := encodedAs_self (by decide)
  have hb : EncodedAs (ascii "b") (ascii "b") := encodedAs_self (by decide)
  have hspace : EncodedAs (ascii "a b") (ascii "a%20b") :=
    ha.append (.cons (.escape (by decide) (by decide) (by decide)) hb)
  have hplus : EncodedAs (ascii "a b") (ascii "a+b") := ha.append (.cons .plus hb)
  refine ⟨⟨⟨sampleEnc_encoded (.inl rfl) hspace, [], by simp, by decide⟩, by decide⟩,
    ⟨⟨sampleEnc_encoded (.inl rfl) hplus, [], by simp, by decide⟩, by decide⟩,
    ⟨⟨sampleEnc_encoded (.inr rfl) ha, [], by simp, by decide⟩, by decide⟩⟩

end AliMiddleware.Consumer
