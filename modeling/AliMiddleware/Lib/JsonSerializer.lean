import AliMiddleware.Lib.DubboPayload

/-!
# Lib — JsonSerializer

`lib/json_serializer.hpp`: a list of pairs is written as an object of string members, one a line,
and read back through a property tree.  The reader of JSON, `read_json`, is a parameter; a
`Conforming` one reads a text to the tree of the value it stands for, members in order and
repeated keys included, and refuses a text that is none.

Keys and values are put between quotes as they are.  The text stands for the pairs, and reads back
as them, exactly when none of their bytes has a meaning of its own inside a JSON string
(`decode_serialize`, `deserialize_serialize`): a control character, a quote or a backslash.
-/

namespace AliMiddleware

open Bytes Json

/-- `ptree`: data, and children under their keys in order. -/
inductive Ptree where
  | node (data : Bytes) (children : List (Bytes × Ptree))

namespace Ptree

def data : Ptree → Bytes
  | node data _ => data

def children : Ptree → List (Bytes × Ptree)
  | node _ children => children

mutual

/-- A value as a tree: a scalar is its text, an element of an array has no key. -/
def ofJson : Json → Ptree
  | .null => node (ascii "null") []
  | .bool true => node (ascii "true") []
  | .bool false => node (ascii "false") []
  | .number lexeme => node lexeme []
  | .string s => node s []
  | .array elements => node [] (ofElements elements)
  | .object members => node [] (ofMembers members)

def ofElements : List Json → List (Bytes × Ptree)
  | [] => []
  | j :: js => ([], ofJson j) :: ofElements js

def ofMembers : List (Bytes × Json) → List (Bytes × Ptree)
  | [] => []
  | (key, j) :: ms => (key, ofJson j) :: ofMembers ms

end

end Ptree

namespace JsonSerializer

/-- What is appended for a pair. -/
def memberTemplate : Bytes := ascii "\"\x7b\x7d\":\"\x7b\x7d\",\n"

/-- `serialize`.  The last comma and newline are overwritten in place. -/
def serialize (kv_list : List (Bytes × Bytes)) : Bytes :=
  if kv_list.isEmpty then ascii "\x7b\x7d"
  else
    let result := kv_list.foldl
      (fun result kv => result ++ DubboClient.format memberTemplate [kv.1, kv.2])
      (ascii "\x7b\n")
    (result.set (result.length - 2) 10).set (result.length - 1) 125

/-- `deserialize`, one level of the tree; `none` when `read_json` throws. -/
def deserialize (read_json : Bytes → Option Ptree) (json : Bytes) : Option (List (Bytes × Bytes)) :=
  if json.isEmpty then some []
  else (read_json json).map fun pt => pt.children.map fun pos => (pos.1, pos.2.data)

/-- A conforming reader that keeps the order of members and their duplicates. -/
def Conforming (read_json : Bytes → Option Ptree) : Prop :=
  ∀ s, Utf8.valid s → read_json s = (decode s).map Ptree.ofJson

/-- The pairs as an object. -/
def asObject (kv_list : List (Bytes × Bytes)) : Json :=
  .object (kv_list.map fun kv => (kv.1, .string kv.2))

/-- `serialize` writes an object with the pairs as its members, and `deserialize` takes it back to
the pairs. -/
structure RoundTrip (read_json : Bytes → Option Ptree) (kv_list : List (Bytes × Bytes)) : Prop where
  wellFormed : decode (serialize kv_list) = some (asObject kv_list)
  restored : deserialize read_json (serialize kv_list) = some kv_list

/-- Every byte of the pairs stands for itself inside a JSON string. -/
def AllPlain (kv_list : List (Bytes × Bytes)) : Prop :=
  ∀ kv ∈ kv_list, (∀ b ∈ kv.1, PlainByte b) ∧ ∀ b ∈ kv.2, PlainByte b

instance : DecidablePred AllPlain :=
  @List.decidableBAll _ _ fun kv => @instDecidableAnd _ _
    (List.decidableBAll PlainByte kv.1) (List.decidableBAll PlainByte kv.2)

/-! ### The text -/

/-- A pair between quotes, and what follows. -/
def member (kv : Bytes × Bytes) (s : Bytes) : Bytes :=
  34 :: (kv.1 ++ 34 :: 58 :: 34 :: (kv.2 ++ 34 :: s))

/-- The members of the text, to its end. -/
def body : List (Bytes × Bytes) → Bytes
  | [] => []
  | [kv] => member kv [10, 125]
  | kv :: l => member kv (44 :: 10 :: body l)

theorem body_cons_cons (kv kv' : Bytes × Bytes) (l : List (Bytes × Bytes)) :
    body (kv :: kv' :: l) = member kv (44 :: 10 :: body (kv' :: l)) := rfl

theorem format_member (kv : Bytes × Bytes) :
    DubboClient.format memberTemplate [kv.1, kv.2] = member kv [44, 10] := rfl

/-- The two writes replace the last two bytes. -/
theorem patch_append (s : Bytes) (a b : UInt8) :
    ((s ++ [a, b]).set ((s ++ [a, b]).length - 2) 10).set ((s ++ [a, b]).length - 1) 125 =
      s ++ [10, 125] := by
  simp

/-- The members as they are appended end in a comma and a newline; in the text they end in a
newline and a brace. -/
theorem exists_body {l : List (Bytes × Bytes)} (h : l ≠ []) :
    ∃ s, (l.map fun kv => member kv [44, 10]).flatten = s ++ [44, 10] ∧
      body l = s ++ [10, 125] := by
  induction l with
  | nil => exact absurd rfl h
  | cons kv l ih =>
      cases l with
      | nil => exact ⟨34 :: (kv.1 ++ 34 :: 58 :: 34 :: (kv.2 ++ [34])), by simp [member], by
          simp [body, member]⟩
      | cons kv' l =>
          obtain ⟨s, happ, hbody⟩ := ih (by simp)
          refine ⟨member kv (44 :: 10 :: s), ?_, ?_⟩
          · rw [List.map_cons, List.flatten_cons, happ]
            simp [member]
          · rw [body_cons_cons, hbody]
            simp [member]

theorem serialize_eq {l : List (Bytes × Bytes)} (h : l ≠ []) :
    serialize l = 123 :: 10 :: body l := by
  obtain ⟨s, happ, hbody⟩ := exists_body h
  have hopen : ascii "\x7b\n" = [123, 10] := by decide
  rw [serialize, if_neg (by simpa using h)]
  simp only [format_member, List.foldl_append_eq_append, happ, hopen]
  rw [← List.append_assoc, patch_append, hbody]
  rfl

theorem valid_body {l : List (Bytes × Bytes)}
    (h : ∀ kv ∈ l, Utf8.valid kv.1 ∧ Utf8.valid kv.2) : Utf8.valid (body l) := by
  have hmember : ∀ kv s, Utf8.valid kv.1 ∧ Utf8.valid kv.2 → Utf8.valid s →
      Utf8.valid (member kv s) := by
    rintro kv s ⟨hk, hv⟩ hs
    rw [member, Utf8.valid_cons (by decide), Utf8.valid_append_cons (by decide),
      Utf8.valid_cons (by decide), Utf8.valid_cons (by decide),
      Utf8.valid_append_cons (by decide), hk, hv, hs]
    rfl
  induction l with
  | nil => rfl
  | cons kv l ih =>
      cases l with
      | nil => exact hmember kv _ (h kv (by simp)) (by decide)
      | cons kv' l =>
          refine hmember kv _ (h kv (by simp)) ?_
          rw [Utf8.valid_cons (by decide), Utf8.valid_cons (by decide)]
          exact ih fun kv hkv => h kv (by simp [hkv])

theorem valid_serialize {l : List (Bytes × Bytes)}
    (h : ∀ kv ∈ l, Utf8.valid kv.1 ∧ Utf8.valid kv.2) : Utf8.valid (serialize l) := by
  by_cases hl : l = []
  · subst hl
    decide
  · rw [serialize_eq hl, Utf8.valid_cons (by decide), Utf8.valid_cons (by decide)]
    exact valid_body h

/-! ### Reading the text -/

/-- What a member's tree holds. -/
theorem data_ofMembers (ms : List (Bytes × Json)) :
    ((Ptree.ofMembers ms).map fun pos => (pos.1, pos.2.data)) =
      ms.map fun m => (m.1, (Ptree.ofJson m.2).data) := by
  induction ms with
  | nil => rfl
  | cons m ms ih =>
      rw [Ptree.ofMembers, List.map_cons, List.map_cons, ih]

/-- The key of a member, and its value as a string, are read as strings of the text. -/
theorem members_member (fuel : ℕ) (kv : Bytes × Bytes) (s : Bytes) :
    members (fuel + 2) (member kv s) =
      let text := kv.1 ++ 34 :: 58 :: 34 :: (kv.2 ++ 34 :: s)
      (stringBody text.length text).bind fun p =>
        (word [58] (skipWs p.2)).bind fun s' =>
          (value (fuel + 1) s').bind fun q => afterMember (fuel + 1) p.1 q.1 q.2 := by
  rw [members_succ, member]
  simp [memberKey, skipWs, Option.bind_assoc]

theorem members_plain {kv : Bytes × Bytes} (hk : ∀ b ∈ kv.1, PlainByte b)
    (hv : ∀ b ∈ kv.2, PlainByte b) (fuel : ℕ) (s : Bytes) :
    members (fuel + 2) (member kv s) = afterMember (fuel + 1) kv.1 (.string kv.2) s := by
  have hread : ∀ x t, (∀ b ∈ x, PlainByte b) →
      stringBody (x ++ 34 :: t).length (x ++ 34 :: t) = some (x, t) :=
    fun x t hx => stringBody_plain hx t (by simp)
  have hcolon : ∀ t, word [58] (skipWs (58 :: 34 :: t)) = some (34 :: t) := by
    intro t
    simp [skipWs, word]
  rw [members_member]
  simp only [hread _ _ hk, hread _ _ hv, Option.bind_some, hcolon, value_quoted, Option.map_some]

/-- **The members of the text**, when every byte is plain. -/
theorem members_body {l : List (Bytes × Bytes)} (hne : l ≠ []) (h : AllPlain l) {fuel : ℕ}
    (hfuel : l.length < fuel) :
    members fuel (body l) = some (l.map fun kv => (kv.1, .string kv.2), []) := by
  induction l generalizing fuel with
  | nil => exact absurd rfl hne
  | cons kv l ih =>
      obtain ⟨fuel, rfl⟩ := Nat.exists_eq_add_of_le' (show 2 ≤ fuel by simp at hfuel; omega)
      obtain ⟨hk, hv⟩ := h kv (by simp)
      cases l with
      | nil =>
          rw [body, members_plain hk hv]
          simp [afterMember, skipWs]
      | cons kv' l =>
          have hrest := ih (by simp) (fun kv hkv => h kv (by simp [hkv]))
            (Nat.lt_of_succ_lt_succ hfuel)
          rw [body_cons_cons, members_plain hk hv, afterMember_comma, members_newline, hrest]
          rfl

theorem length_le_body (l : List (Bytes × Bytes)) : l.length ≤ (body l).length := by
  induction l with
  | nil => rfl
  | cons kv l ih =>
      cases l with
      | nil => simp [body, member]
      | cons kv' l =>
          rw [body_cons_cons]
          simp only [List.length_cons, member, List.length_append] at ih ⊢
          omega

theorem exists_body_eq {l : List (Bytes × Bytes)} (hne : l ≠ []) : ∃ s, body l = 34 :: s := by
  cases l with
  | nil => exact absurd rfl hne
  | cons kv l => cases l <;> simp [body, member]

/-- The text of a list that is not empty, as a value. -/
theorem value_serialize {l : List (Bytes × Bytes)} (hne : l ≠ []) (fuel : ℕ) :
    value (fuel + 1) (serialize l) =
      (members fuel (body l)).map fun (ms, s) => (.object ms, s) := by
  obtain ⟨s, hs⟩ := exists_body_eq hne
  rw [serialize_eq hne, hs]
  simp [value, skipWs]

/-! ### What the text can read back as -/

/-- A string that goes on into what follows a key can only be the colon. -/
theorem stringBody_colon {fuel : ℕ} {t out rest : Bytes}
    (h : stringBody fuel (58 :: 34 :: t) = some (out, rest)) : out = [58] := by
  match fuel, h with
  | 0, h => simp [stringBody] at h
  | 1, h => simp [stringBody] at h
  | fuel + 2, h =>
      have h : [58] = out ∧ t = rest := by simpa [stringBody] using h
      exact h.1.symm

/-- A member that reads back as its pair is plain, when no string goes on into what follows. -/
theorem plain_of_members {fuel : ℕ} {kv : Bytes × Bytes} {s rest : Bytes}
    {m : Bytes × Json} {ms : List (Bytes × Json)} (hs : ∀ fuel, stringBody fuel s = none)
    (h : members fuel (member kv s) = some (m :: ms, rest))
    (hkey : m.1 = kv.1) (hdata : (Ptree.ofJson m.2).data = kv.2) :
    (∀ b ∈ kv.1, PlainByte b) ∧ ∀ b ∈ kv.2, PlainByte b := by
  obtain ⟨fuel, rfl⟩ := Nat.exists_eq_add_of_le' (two_le_of_members h)
  simp only [members_member, Option.bind_eq_some_iff, Prod.exists] at h
  obtain ⟨key, s₁, hk, s₂, hcolon, v, s₃, hv, hafter⟩ := h
  obtain rfl := afterMember_head hafter
  obtain rfl : key = kv.1 := hkey
  obtain ⟨rfl, hplain⟩ := stringBody_exact (fun fuel out rest hout => by
    simp [stringBody_colon hout]) hk
  refine ⟨hplain, ?_⟩
  obtain rfl : 34 :: (kv.2 ++ 34 :: s) = s₂ := by simpa [skipWs, word] using hcolon
  simp only [value_quoted, Option.map_eq_some_iff, Prod.exists, Prod.mk.injEq] at hv
  obtain ⟨out, s₄, hout, rfl, rfl⟩ := hv
  obtain rfl : out = kv.2 := hdata
  exact (stringBody_exact (fun fuel out rest hin => by simp [hs] at hin) hout).2

/-- **Members that read back as the pairs** are plain. -/
theorem allPlain_of_members {l : List (Bytes × Bytes)} {fuel : ℕ} {ms : List (Bytes × Json)}
    {rest : Bytes} (h : members fuel (body l) = some (ms, rest))
    (hms : (ms.map fun m => (m.1, (Ptree.ofJson m.2).data)) = l) : AllPlain l := by
  induction l generalizing fuel ms with
  | nil => simp [AllPlain]
  | cons kv l ih =>
      obtain ⟨m, ms, rfl⟩ : ∃ m ms', ms = m :: ms' := by
        cases ms with
        | nil => simp at hms
        | cons m ms => exact ⟨m, ms, rfl⟩
      simp only [List.map_cons, List.cons.injEq] at hms
      obtain ⟨rfl, hms⟩ := hms
      cases l with
      | nil =>
          rw [body] at h
          have hplain := plain_of_members
            (fun fuel => by cases fuel <;> simp [stringBody]) h rfl rfl
          simpa [AllPlain] using hplain
      | cons kv' l =>
          rw [body_cons_cons] at h
          -- the first pair is plain, so the reader goes on where the second begins
          obtain ⟨hk, hv⟩ := plain_of_members
            (fun fuel => by rcases fuel with _ | _ | fuel <;> simp [stringBody]) h rfl rfl
          obtain ⟨fuel, rfl⟩ := Nat.exists_eq_add_of_le' (two_le_of_members h)
          simp only [members_plain hk hv, afterMember_comma, members_newline,
            Option.map_eq_some_iff, Prod.exists, Prod.mk.injEq, List.cons.injEq] at h
          obtain ⟨ms', rest', hrest, ⟨-, rfl⟩, rfl⟩ := h
          have hall := ih hrest hms
          intro p hp
          rcases List.mem_cons.mp hp with rfl | hp
          · exact ⟨hk, hv⟩
          · exact hall p hp

/-! ### The round trip -/

theorem data_asObject (l : List (Bytes × Bytes)) :
    (Ptree.ofJson (asObject l)).children.map (fun pos => (pos.1, pos.2.data)) = l := by
  rw [asObject, Ptree.ofJson, Ptree.children, data_ofMembers, List.map_map]
  exact (List.map_congr_left fun kv _ => rfl).trans (List.map_id l)

/-- The text is well formed when every byte of the pairs is plain. -/
theorem decode_of_allPlain {l : List (Bytes × Bytes)}
    (htext : ∀ kv ∈ l, Utf8.valid kv.1 ∧ Utf8.valid kv.2) (h : AllPlain l) :
    decode (serialize l) = some (asObject l) := by
  by_cases hl : l = []
  · subst hl
    rfl
  · have hlen := length_le_body l
    have hval : value ((serialize l).length + 1) (serialize l) = some (asObject l, []) := by
      rw [value_serialize hl, members_body hl h]
      · rfl
      · rw [serialize_eq hl]
        simp only [List.length_cons]
        omega
    rw [decode, if_pos (valid_serialize htext), hval]
    rfl

/-- Only pairs whose bytes are all plain can be read back. -/
theorem allPlain_of_decode {l : List (Bytes × Bytes)} {j : Json}
    (h : decode (serialize l) = some j)
    (hback : (Ptree.ofJson j).children.map (fun pos => (pos.1, pos.2.data)) = l) :
    AllPlain l := by
  by_cases hl : l = []
  · simp [hl, AllPlain]
  · rw [decode, value_serialize hl] at h
    split_ifs at h
    cases hmem : members (serialize l).length (body l) with
    | none =>
        rw [hmem] at h
        cases h
    | some p =>
        obtain ⟨ms, rest⟩ := p
        simp only [hmem, Option.map_some, Option.ite_none_right_eq_some, Option.some.injEq] at h
        obtain ⟨-, rfl⟩ := h
        rw [Ptree.ofJson, Ptree.children, data_ofMembers] at hback
        exact allPlain_of_members hmem hback

theorem decode_serialize {l : List (Bytes × Bytes)}
    (htext : ∀ kv ∈ l, Utf8.valid kv.1 ∧ Utf8.valid kv.2) :
    decode (serialize l) = some (asObject l) ↔ AllPlain l :=
  ⟨fun h => allPlain_of_decode h (data_asObject l), decode_of_allPlain htext⟩

theorem serialize_ne_nil (l : List (Bytes × Bytes)) : (serialize l).isEmpty = false := by
  by_cases hl : l = []
  · subst hl
    rfl
  · rw [serialize_eq hl]
    rfl

theorem deserialize_serialize {read_json : Bytes → Option Ptree} (hread : Conforming read_json)
    {l : List (Bytes × Bytes)} (htext : ∀ kv ∈ l, Utf8.valid kv.1 ∧ Utf8.valid kv.2) :
    deserialize read_json (serialize l) = some l ↔ AllPlain l := by
  rw [deserialize, serialize_ne_nil, hread _ (valid_serialize htext), Option.map_map]
  constructor
  · intro h
    obtain ⟨j, hj, hback⟩ := Option.map_eq_some_iff.mp h
    exact allPlain_of_decode hj hback
  · intro h
    rw [decode_of_allPlain htext h]
    exact congrArg some (data_asObject l)

/-- **The round trip.**  Pairs of texts are written as an object with these members, and read back
as they were, exactly when no key and no value has a control character, a quote or a
backslash. -/
theorem round_trip_iff {read_json : Bytes → Option Ptree} (hread : Conforming read_json)
    (kv_list : List (Bytes × Bytes))
    (htext : ∀ kv ∈ kv_list, Utf8.valid kv.1 ∧ Utf8.valid kv.2) :
    RoundTrip read_json kv_list ↔
      ∀ kv ∈ kv_list, (∀ b ∈ kv.1, ¬ b < 32 ∧ b ≠ 34 ∧ b ≠ 92) ∧
        ∀ b ∈ kv.2, ¬ b < 32 ∧ b ≠ 34 ∧ b ≠ 92 := by
  constructor
  · intro h
    exact (decode_serialize htext).mp h.wellFormed
  · intro h
    exact ⟨(decode_serialize htext).mpr h, (deserialize_serialize hread htext).mpr h⟩

/-- Two names and an empty pair. -/
theorem round_trip_iff_names : RoundTrip (fun s => (decode s).map Ptree.ofJson)
    [(ascii "firstName", ascii "Recolic"), (ascii "lastName", ascii "Keghart"), ([], [])] :=
  (round_trip_iff (fun _ _ => rfl) _ (by decide)).mpr (by decide : AllPlain _)

/-- **A quote in a value** ends it early, and the text is no JSON. -/
theorem not_round_trip : ¬ RoundTrip (fun s => (decode s).map Ptree.ofJson)
    [(ascii "say", ascii "\"hi\"")] := by
  intro h
  have hnone : decode (serialize [(ascii "say", ascii "\"hi\"")]) = none := rfl
  have hwell := h.wellFormed
  rw [hnone] at hwell
  cases hwell

end JsonSerializer

end AliMiddleware
