import AliMiddleware.Support.Bytes
import AliMiddleware.Lib.TraceableList

/-!
# Agent — Form

`http_payload_to_dubbo_parameters` (`src/provider_selector.hpp`): the four arguments of a Dubbo
call out of the body of an HTTP request.  The body is cut at every `&`; a segment with an `=` is a
key and a value; the value of a later segment takes the place of an earlier one's.  Values are
not decoded, apart from `%2F` and `%3B` in the type string.

`lastValue` says without the loop which segment counts: the last one with the key
(`foldl_setArg_get`).
-/

namespace AliMiddleware.Consumer

open Bytes

/-- The places in `dubbo_rpc_args`. -/
inductive Field where
  | interface
  | method
  | parameterTypesString
  | parameter
  deriving DecidableEq, Repr

/-- The key of a field in the body. -/
def Field.key : Field → Bytes
  | .interface => ascii "interface"
  | .method => ascii "method"
  | .parameterTypesString => ascii "parameterTypesString"
  | .parameter => ascii "parameter"

theorem Field.key_injective {f g : Field} (h : f.key = g.key) : f = g := by
  revert h
  cases f <;> cases g <;> decide

/-- `dubbo_rpc_args` -/
structure DubboArgs where
  interface : Bytes := []
  method : Bytes := []
  parameterTypesString : Bytes := []
  parameter : Bytes := []
  deriving DecidableEq, Repr

namespace DubboArgs

def get (args : DubboArgs) : Field → Bytes
  | .interface => args.interface
  | .method => args.method
  | .parameterTypesString => args.parameterTypesString
  | .parameter => args.parameter

def set (args : DubboArgs) (val : Bytes) : Field → DubboArgs
  | .interface => { args with interface := val }
  | .method => { args with method := val }
  | .parameterTypesString => { args with parameterTypesString := val }
  | .parameter => { args with parameter := val }

/-- The elements, in order. -/
def toList (args : DubboArgs) : List Bytes :=
  [args.interface, args.method, args.parameterTypesString, args.parameter]

theorem get_set (args : DubboArgs) (val : Bytes) (f g : Field) :
    (args.set val f).get g = if g = f then val else args.get g := by
  cases f <;> cases g <;> rfl

theorem mem_toList {args : DubboArgs} {s : Bytes} : s ∈ args.toList ↔ ∃ f, args.get f = s := by
  constructor
  · intro h
    simp only [toList, List.mem_cons, List.not_mem_nil, or_false] at h
    rcases h with rfl | rfl | rfl | rfl
    · exact ⟨.interface, rfl⟩
    · exact ⟨.method, rfl⟩
    · exact ⟨.parameterTypesString, rfl⟩
    · exact ⟨.parameter, rfl⟩
  · rintro ⟨f, rfl⟩
    cases f <;> simp [get, toList]

end DubboArgs

/-- One round of the loop over `kv_str_array`. -/
def setArg (args : DubboArgs) (kvStr : Bytes) : DubboArgs :=
  match cutAt 61 kvStr with
  | none => args
  | some (key, val) =>
      if key = Field.interface.key then args.set val .interface
      else if key = Field.method.key then args.set val .method
      else if key = Field.parameterTypesString.key then args.set val .parameterTypesString
      else if key = Field.parameter.key then args.set val .parameter
      else args

/-- `kv_str_array` -/
def kvStrArray (text : Bytes) : List Bytes := text.splitOn 38

/-- `.replace("%2F", "/").replace("%3B", ";")` -/
def unescapeTypes (val : Bytes) : Bytes :=
  replace (ascii "%3B") (ascii ";") (replace (ascii "%2F") (ascii "/") val)

def httpPayloadToDubboParameters (text : Bytes) : Except Exn DubboArgs :=
  let args := (kvStrArray text).foldl setArg {}
  let args := args.set (unescapeTypes args.parameterTypesString) .parameterTypesString
  if [] ∈ args.toList then
    .error (.runtimeError "Required http argument not provided.")
  else .ok args

/-! ### Which segment counts -/

/-- The value of a segment that has the key. -/
def valueOf (key kvStr : Bytes) : Option Bytes :=
  (cutAt 61 kvStr).bind fun (k, v) => if k = key then some v else none

/-- The value of the last segment that has the key. -/
def lastValue (key text : Bytes) : Option Bytes :=
  ((kvStrArray text).filterMap (valueOf key)).getLast?

/-- A round of the loop sets the field whose key the segment has. -/
theorem setArg_get (args : DubboArgs) (kvStr : Bytes) (f : Field) :
    (setArg args kvStr).get f = (valueOf f.key kvStr).getD (args.get f) := by
  rw [setArg, valueOf]
  cases cutAt 61 kvStr with
  | none => rfl
  | some kv =>
      obtain ⟨key, val⟩ := kv
      have hset : ∀ g : Field, key = g.key →
          (args.set val g).get f = (if key = f.key then some val else none).getD (args.get f) := by
        rintro g rfl
        rw [DubboArgs.get_set]
        by_cases hfg : f = g
        · simp [hfg]
        · have hkey : g.key ≠ f.key := fun h => hfg (Field.key_injective h.symm)
          simp [hfg, hkey]
      simp only [Option.bind_some]
      by_cases h₁ : key = Field.interface.key
      · rw [if_pos h₁]
        exact hset _ h₁
      by_cases h₂ : key = Field.method.key
      · rw [if_neg h₁, if_pos h₂]
        exact hset _ h₂
      by_cases h₃ : key = Field.parameterTypesString.key
      · rw [if_neg h₁, if_neg h₂, if_pos h₃]
        exact hset _ h₃
      by_cases h₄ : key = Field.parameter.key
      · rw [if_neg h₁, if_neg h₂, if_neg h₃, if_pos h₄]
        exact hset _ h₄
      have hnone : key ≠ f.key := by cases f <;> assumption
      rw [if_neg h₁, if_neg h₂, if_neg h₃, if_neg h₄, if_neg hnone]
      rfl

/-- **The loop keeps, for each field, the value of the last segment with its key.** -/
theorem foldl_setArg_get (segs : List Bytes) (args : DubboArgs) (f : Field) :
    (segs.foldl setArg args).get f =
      ((segs.filterMap (valueOf f.key)).getLast?).getD (args.get f) := by
  induction segs generalizing args with
  | nil => rfl
  | cons seg segs ih =>
      rw [List.foldl_cons, ih, setArg_get, List.filterMap_cons]
      cases valueOf f.key seg with
      | none => rfl
      | some v =>
          simp only [Option.getD_some, List.getLast?_cons]

/-- The value a field has in the result. -/
def resultValue (text : Bytes) (f : Field) : Bytes :=
  let val := (lastValue f.key text).getD []
  if f = .parameterTypesString then unescapeTypes val else val

/-- What the fields hold after the loop and the unescaping. -/
theorem foldl_set_get (text : Bytes) (f : Field) :
    (((kvStrArray text).foldl setArg {}).set
      (unescapeTypes ((kvStrArray text).foldl setArg {}).parameterTypesString)
      .parameterTypesString).get f = resultValue text f := by
  rw [DubboArgs.get_set, foldl_setArg_get, resultValue, lastValue]
  have hts : ((kvStrArray text).foldl setArg {}).parameterTypesString =
      (lastValue Field.parameterTypesString.key text).getD [] :=
    foldl_setArg_get (kvStrArray text) {} .parameterTypesString
  by_cases hf : f = .parameterTypesString
  · rw [if_pos hf, if_pos hf, hts, hf, lastValue]
  · rw [if_neg hf, if_neg hf]
    cases f <;> rfl

/-- **What is returned**, when something is: the last value of each field, the type string's
unescaped. -/
theorem httpPayloadToDubboParameters_get {text : Bytes} {args : DubboArgs}
    (h : httpPayloadToDubboParameters text = .ok args) (f : Field) :
    args.get f = resultValue text f := by
  simp only [httpPayloadToDubboParameters] at h
  split_ifs at h with hempty
  obtain rfl := Except.ok.inj h
  exact foldl_set_get text f

end AliMiddleware.Consumer
