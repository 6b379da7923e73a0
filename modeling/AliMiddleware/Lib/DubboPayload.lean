import AliMiddleware.Support.Json

/-!
# Lib — DubboPayload

The body of a Dubbo request, as `dubbo_client::async_request` and `sync_request` build it
(`lib/dubbo_client.hpp`): seven lines of JSON, the four arguments formatted between quotes as they
are.  The body means what was asked (`Means`) exactly when each argument is plain text that needs
no escapes (`payload_means_iff`); a quote, a backslash, a control character or a byte that is not
UTF-8 spoils it.
-/

namespace AliMiddleware.DubboClient

open Bytes

/-- `_format`: each placeholder is replaced, from left to right, by the text of an argument. -/
def format : Bytes → List Bytes → Bytes
  | [], _ => []
  | 123 :: 125 :: s, arg :: args => arg ++ format s args
  | b :: s, args => b :: format s args

/-- The raw string that is formatted. -/
def payloadTemplate : Bytes :=
  ascii ("\"2.0.1\"\n\"\x7b\x7d\"\nnull\n\"\x7b\x7d\"\n\"\x7b\x7d\"\n\"\x7b\x7d\"\n" ++
    "\x7b\"path\":\"\x7b\x7d\"\x7d\n")

/-- `payload` -/
def payload (serviceName methodName methodArgType methodArg : Bytes) : Bytes :=
  format payloadTemplate [serviceName, methodName, methodArgType, methodArg, serviceName]

/-- A text between quotes. -/
def quoted (s : Bytes) : Bytes := 34 :: (s ++ [34])

/-- The lines of the payload, when no argument has a newline. -/
def payloadLines (serviceName methodName methodArgType methodArg : Bytes) : List Bytes :=
  [quoted (ascii "2.0.1"), quoted serviceName, ascii "null", quoted methodName,
    quoted methodArgType, quoted methodArg,
    123 :: 34 :: (ascii "path" ++ 34 :: 58 :: 34 :: (serviceName ++ [34, 125]))]

/-- What was asked, line by line. -/
def asked (serviceName methodName methodArgType methodArg : Bytes) : List Json :=
  [.string (ascii "2.0.1"), .string serviceName, .null, .string methodName,
    .string methodArgType, .string methodArg, .object [(ascii "path", .string serviceName)]]

/-- The payload means what was asked: it is lines, each one a JSON text, for these values. -/
def Means (payload serviceName methodName methodArgType methodArg : Bytes) : Prop :=
  ∃ ls, Lines payload ls ∧
    ls.map Json.decode = (asked serviceName methodName methodArgType methodArg).map some

section

variable {serviceName methodName methodArgType methodArg : Bytes}

theorem payload_eq : payload serviceName methodName methodArgType methodArg =
    ((payloadLines serviceName methodName methodArgType methodArg).map (· ++ [10])).flatten := by
  simp only [payloadLines, quoted, List.map_cons, List.map_nil, List.flatten_cons,
    List.flatten_nil, List.append_assoc, List.cons_append, List.nil_append]
  rfl

/-- Every newline of an argument adds a line; the service name is there twice. -/
theorem count_payload : (payload serviceName methodName methodArgType methodArg).count 10 =
    7 + (2 * serviceName.count 10 + methodName.count 10 + methodArgType.count 10 +
      methodArg.count 10) := by
  have hwords : (ascii "2.0.1").count 10 = 0 ∧ (ascii "null").count 10 = 0 ∧
      (ascii "path").count 10 = 0 := by decide
  simp [payload_eq, payloadLines, quoted, hwords]
  omega

/-- Without newlines in the arguments, the lines of the payload are the template's. -/
theorem lines_payload
    (h : ∀ x ∈ [serviceName, methodName, methodArgType, methodArg], 10 ∉ x) :
    Lines (payload serviceName methodName methodArgType methodArg)
      (payloadLines serviceName methodName methodArgType methodArg) := by
  refine ⟨?_, payload_eq⟩
  have hs := h serviceName (by simp)
  have hm := h methodName (by simp)
  have ht := h methodArgType (by simp)
  have ha := h methodArg (by simp)
  have hwords : 10 ∉ ascii "2.0.1" ∧ 10 ∉ ascii "null" ∧ 10 ∉ ascii "path" := by decide
  simp [payloadLines, quoted, hs, hm, ht, ha, hwords]

/-- A payload that means what was asked has no newline in an argument. -/
theorem newline_not_mem (h : Means (payload serviceName methodName methodArgType methodArg)
      serviceName methodName methodArgType methodArg) :
    ∀ x ∈ [serviceName, methodName, methodArgType, methodArg], 10 ∉ x := by
  obtain ⟨ls, hls, hdec⟩ := h
  have hseven : ls.length = 7 := by simpa [asked] using congrArg List.length hdec
  have hcount := hls.count
  rw [count_payload, hseven] at hcount
  intro x hx
  rw [← List.count_eq_zero]
  simp only [List.mem_cons, List.not_mem_nil, or_false] at hx
  rcases hx with rfl | rfl | rfl | rfl <;> omega

theorem plain_word : Json.Plain (ascii "2.0.1") ∧ Json.Plain (ascii "path") := by decide

/-- **The payload means what was asked** exactly when every argument is well-formed UTF-8 with
no control character, quote or backslash. -/
theorem payload_means_iff (serviceName methodName methodArgType methodArg : Bytes) :
    Means (payload serviceName methodName methodArgType methodArg)
        serviceName methodName methodArgType methodArg ↔
      ∀ x ∈ [serviceName, methodName, methodArgType, methodArg],
        Utf8.valid x = true ∧ ∀ b ∈ x, ¬ b < 32 ∧ b ≠ 34 ∧ b ≠ 92 := by
  constructor
  · intro h
    have hlines := lines_payload (newline_not_mem h)
    obtain ⟨ls, hls, hdec⟩ := h
    obtain rfl := hls.unique hlines
    simp only [payloadLines, asked, quoted, List.map_cons, List.map_nil, List.cons.injEq,
      Json.decode_quoted] at hdec
    obtain ⟨-, hs, -, hm, ht, ha, -⟩ := hdec
    intro x hx
    simp only [List.mem_cons, List.not_mem_nil, or_false] at hx
    rcases hx with rfl | rfl | rfl | rfl
    · exact hs
    · exact hm
    · exact ht
    · exact ha
  · intro h
    have hplain : ∀ x ∈ [serviceName, methodName, methodArgType, methodArg], Json.Plain x := h
    have hs := hplain serviceName (by simp)
    have hm := hplain methodName (by simp)
    have ht := hplain methodArgType (by simp)
    have ha := hplain methodArg (by simp)
    refine ⟨_, lines_payload ?_, ?_⟩
    · intro x hx hnl
      exact (hplain x hx).2 10 hnl |>.1 (by decide)
    · have hnull : Json.decode (ascii "null") = some .null := rfl
      simp only [payloadLines, asked, quoted, List.map_cons, List.map_nil,
        Json.decode_quoted.mpr plain_word.1, Json.decode_quoted.mpr hs, Json.decode_quoted.mpr hm,
        Json.decode_quoted.mpr ht, Json.decode_quoted.mpr ha, hnull,
        Json.decode_member plain_word.2 hs]

/-- **A quote in the argument** ends its line's string early. -/
theorem not_payload_means : ¬ Means (payload (ascii "IHash") (ascii "hash")
    (ascii "Ljava/lang/String;") (ascii "say \"hi\"")) (ascii "IHash") (ascii "hash")
    (ascii "Ljava/lang/String;") (ascii "say \"hi\"") := by
  rintro ⟨ls, hls, hdec⟩
  obtain rfl := hls.unique (lines_payload (by decide))
  simp only [payloadLines, asked, quoted, List.map_cons, List.cons.injEq] at hdec
  have hline : Json.decode (34 :: (ascii "say \"hi\"" ++ [34])) = none := rfl
  simp [hline] at hdec

end

end AliMiddleware.DubboClient
