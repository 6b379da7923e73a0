import AliMiddleware.Agent.Form
import AliMiddleware.Support.Replace

/-!
# Agent — FormMeaning

What `http_payload_to_dubbo_parameters` makes of every body, without its loop and its two passes
over the type string: it succeeds when the last segment of each field has a value that is not
empty, and returns these values, with `%2F` and `%3B` replaced in one pass in the type string.
Nothing else in the body matters, and no order but that of the segments of one field
(`httpPayloadToDubboParameters_iff`).
-/

namespace AliMiddleware.Consumer

open Bytes

theorem DubboArgs.eq_of_get {args args' : DubboArgs} (h : ∀ f, args.get f = args'.get f) :
    args = args' := by
  obtain ⟨interface, method, parameterTypesString, parameter⟩ := args
  obtain ⟨interface', method', parameterTypesString', parameter'⟩ := args'
  obtain rfl : interface = interface' := h .interface
  obtain rfl : method = method' := h .method
  obtain rfl : parameterTypesString = parameterTypesString' := h .parameterTypesString
  obtain rfl : parameter = parameter' := h .parameter
  rfl

/-! ### The type string -/

/-- `%2F` and `%3B` replaced in one pass. -/
def unescapeBoth (val : Bytes) : Bytes :=
  replaceBoth (ascii "%2F") (ascii "/") (ascii "%3B") (ascii ";") val

/-- **The two passes are one.** -/
theorem unescapeTypes_eq_both (val : Bytes) : unescapeTypes val = unescapeBoth val :=
  @replace_replace 37 37 47 [50, 70] [51, 66] [] [59] (by decide) (by decide) (by decide) val

theorem unescapeTypes_eq_nil {val : Bytes} : unescapeTypes val = [] ↔ val = [] := by
  rw [unescapeTypes, replace_eq_nil (by decide) (by decide),
    replace_eq_nil (by decide) (by decide)]

/-! ### The outcome -/

theorem resultValue_eq_nil {text : Bytes} {f : Field} :
    resultValue text f = [] ↔ lastValue f.key text = none ∨ lastValue f.key text = some [] := by
  have hval : (lastValue f.key text).getD [] = [] ↔
      lastValue f.key text = none ∨ lastValue f.key text = some [] := by
    cases lastValue f.key text <;> simp
  rw [resultValue]
  split_ifs with hf
  · rw [unescapeTypes_eq_nil, hval]
  · exact hval

/-- The arguments a body gives when all are there. -/
def resultArgs (text : Bytes) : DubboArgs where
  interface := resultValue text .interface
  method := resultValue text .method
  parameterTypesString := resultValue text .parameterTypesString
  parameter := resultValue text .parameter

theorem resultArgs_get (text : Bytes) (f : Field) :
    (resultArgs text).get f = resultValue text f := by
  cases f <;> rfl

/-- The outcome is made of the values of the four fields. -/
theorem httpPayloadToDubboParameters_eq (text : Bytes) :
    httpPayloadToDubboParameters text =
      if [] ∈ (resultArgs text).toList then
        .error (.runtimeError "Required http argument not provided.")
      else .ok (resultArgs text) := by
  have hargs : ((kvStrArray text).foldl setArg {}).set
      (unescapeTypes ((kvStrArray text).foldl setArg {}).parameterTypesString)
      .parameterTypesString = resultArgs text :=
    DubboArgs.eq_of_get fun f => (foldl_set_get text f).trans (resultArgs_get text f).symm
  rw [← hargs]
  rfl

/-- A field is missing when no segment has its key, or the last one that does has no value. -/
theorem nil_mem_resultArgs {text : Bytes} :
    [] ∈ (resultArgs text).toList ↔
      ∃ f : Field, lastValue f.key text = none ∨ lastValue f.key text = some [] := by
  simp only [DubboArgs.mem_toList, resultArgs_get, resultValue_eq_nil]

/-! ### Segments that do not matter -/

/-- The text before the first `=` of a segment. -/
def keyOf (kvStr : Bytes) : Option Bytes := (cutAt 61 kvStr).map Prod.fst

theorem valueOf_eq_none {key kvStr : Bytes} (h : keyOf kvStr ≠ some key) :
    valueOf key kvStr = none := by
  rw [keyOf] at h
  rw [valueOf]
  cases hcut : cutAt 61 kvStr with
  | none => rfl
  | some kv =>
      obtain ⟨k, v⟩ := kv
      have hk : k ≠ key := fun hk => h (by simp [hcut, hk])
      simp [hk]

/-- Segments in another order, as far as segments with different keys go, and segments more or
fewer without an `=` or with a key of no field. -/
inductive Rearranged : List Bytes → List Bytes → Prop where
  | refl (segs : List Bytes) : Rearranged segs segs
  | trans {segs segs₁ segs' : List Bytes} (h₁ : Rearranged segs segs₁)
      (h₂ : Rearranged segs₁ segs') : Rearranged segs segs'
  | swap (before after : List Bytes) {a b : Bytes} (h : keyOf a ≠ keyOf b) :
      Rearranged (before ++ a :: b :: after) (before ++ b :: a :: after)
  | add (before after : List Bytes) {seg : Bytes} (h : ∀ f : Field, keyOf seg ≠ some f.key) :
      Rearranged (before ++ after) (before ++ seg :: after)
  | remove (before after : List Bytes) {seg : Bytes} (h : ∀ f : Field, keyOf seg ≠ some f.key) :
      Rearranged (before ++ seg :: after) (before ++ after)

/-- The values of a field stay, in their order. -/
theorem Rearranged.filterMap_valueOf {segs segs' : List Bytes} (h : Rearranged segs segs')
    (f : Field) : segs.filterMap (valueOf f.key) = segs'.filterMap (valueOf f.key) := by
  induction h with
  | refl segs => rfl
  | trans _ _ ih₁ ih₂ => exact ih₁.trans ih₂
  | @swap before after a b hab =>
      have hnone : valueOf f.key a = none ∨ valueOf f.key b = none := by
        by_cases ha : keyOf a = some f.key
        · exact .inr (valueOf_eq_none fun hb => hab (ha.trans hb.symm))
        · exact .inl (valueOf_eq_none ha)
      rw [List.filterMap_append, List.filterMap_append, List.filterMap_cons, List.filterMap_cons,
        List.filterMap_cons, List.filterMap_cons]
      rcases hnone with ha | hb
      · rw [ha]
      · rw [hb]
  | @add before after seg hseg =>
      rw [List.filterMap_append, List.filterMap_append, List.filterMap_cons,
        valueOf_eq_none (hseg f)]
  | @remove before after seg hseg =>
      rw [List.filterMap_append, List.filterMap_append, List.filterMap_cons,
        valueOf_eq_none (hseg f)]

/-- **The meaning of a body.**  It gives arguments when the last segment of each field has a value
that is not empty; these are the arguments, with `%2F` and `%3B` replaced in one pass in the type
string; otherwise it is rejected.  Rearranging it changes nothing. -/
theorem httpPayloadToDubboParameters_iff (text : Bytes) :
    (∀ args, httpPayloadToDubboParameters text = .ok args ↔
      ∃ vals : Field → Bytes, (∀ f, lastValue f.key text = some (vals f) ∧ vals f ≠ []) ∧
        args = ⟨vals .interface, vals .method, unescapeBoth (vals .parameterTypesString),
          vals .parameter⟩) ∧
    ((∃ f : Field, lastValue f.key text = none ∨ lastValue f.key text = some []) →
      httpPayloadToDubboParameters text =
        .error (.runtimeError "Required http argument not provided.")) ∧
    ∀ text', Rearranged (kvStrArray text) (kvStrArray text') →
      httpPayloadToDubboParameters text' = httpPayloadToDubboParameters text := by
  refine ⟨?_, ?_, ?_⟩
  · intro args
    rw [httpPayloadToDubboParameters_eq]
    constructor
    · intro h
      split_ifs at h with hempty
      obtain rfl := Except.ok.inj h
      simp only [nil_mem_resultArgs, not_exists, not_or] at hempty
      -- a field that was never set would have stayed empty
      have hvals : ∀ f : Field, lastValue f.key text = some ((lastValue f.key text).getD []) := by
        intro f
        cases hf : lastValue f.key text with
        | none => exact absurd hf (hempty f).1
        | some v => rfl
      refine ⟨fun f => (lastValue f.key text).getD [], fun f => ⟨hvals f, ?_⟩, ?_⟩
      · intro hnil
        exact (hempty f).2 ((hvals f).trans (congrArg some hnil))
      · rw [← unescapeTypes_eq_both]
        rfl
    · rintro ⟨vals, hvals, rfl⟩
      have hfull : ¬ [] ∈ (resultArgs text).toList := by
        rw [nil_mem_resultArgs]
        rintro ⟨f, hf | hf⟩
        · cases hf.symm.trans (hvals f).1
        · exact (hvals f).2 (Option.some.inj ((hvals f).1.symm.trans hf))
      rw [if_neg hfull, ← unescapeTypes_eq_both]
      simp [resultArgs, resultValue, (hvals _).1]
  · intro hmissing
    rw [httpPayloadToDubboParameters_eq, if_pos (nil_mem_resultArgs.mpr hmissing)]
  · intro text' h
    have hlast : ∀ f : Field, lastValue f.key text' = lastValue f.key text := by
      intro f
      rw [lastValue, lastValue, h.filterMap_valueOf f]
    have hargs : resultArgs text' = resultArgs text := by
      refine DubboArgs.eq_of_get fun f => ?_
      rw [resultArgs_get, resultArgs_get, resultValue, resultValue, hlast f]
    rw [httpPayloadToDubboParameters_eq, httpPayloadToDubboParameters_eq, hargs]

end AliMiddleware.Consumer
