import AliMiddleware.Support.Utf8

/-!
# Support — Json

A JSON reader over bytes.  A text is one value between optional whitespace, and has to be
well-formed UTF-8; strings are read to their bytes, escapes resolved; an object is its members in
the order of the text, repeated keys included; a number is its lexeme.  The readers take a fuel
that bounds the nesting and the length of what they read; `decode` gives them enough for any
text, since every call reads at least one byte.

`decode_quoted` is the law of quoting: text put between quotes reads back as itself exactly when
it is `Plain`, that is, well-formed UTF-8 with no control character, quote or backslash.  Where
other text follows, `stringBody_exact` is the half that needs an argument: the reader may take the
closing quote for an escaped one and go on.
-/

namespace AliMiddleware

open Bytes

inductive Json where
  | null
  | bool (b : Bool)
  | number (lexeme : Bytes)
  | string (s : Bytes)
  | array (elements : List Json)
  | object (members : List (Bytes × Json))

namespace Json

/-- `s` after the word `w`. -/
def word (w s : Bytes) : Option Bytes := if w.isPrefixOf s then some (s.drop w.length) else none

/-! ### Strings -/

/-- Four hexadecimal digits. -/
def hex4 : Bytes → Option (ℕ × Bytes)
  | a :: b :: c :: d :: s => do
      let a ← hexDigit a
      let b ← hexDigit b
      let c ← hexDigit c
      let d ← hexDigit d
      some (((a * 16 + b) * 16 + c) * 16 + d, s)
  | _ => none

/-- What follows `\u`; a high surrogate needs a low one after it. -/
def unicodeEscape (s : Bytes) : Option (Bytes × Bytes) := do
  let (n, s) ← hex4 s
  if n < 0xD800 ∨ 0xE000 ≤ n then some (Utf8.encode n, s)
  else if n < 0xDC00 then do
    let s ← word [92, 117] s
    let (m, s) ← hex4 s
    if 0xDC00 ≤ m ∧ m < 0xE000 then
      some (Utf8.encode (0x10000 + (n - 0xD800) * 0x400 + (m - 0xDC00)), s)
    else none
  else none

/-- The byte after a backslash, other than `u`. -/
def simpleEscape (b : UInt8) : Option UInt8 :=
  if b = 34 ∨ b = 92 ∨ b = 47 then some b
  else if b = 98 then some 8
  else if b = 102 then some 12
  else if b = 110 then some 10
  else if b = 114 then some 13
  else if b = 116 then some 9
  else none

/-- What follows a backslash. -/
def escape : Bytes → Option (Bytes × Bytes)
  | [] => none
  | b :: s => if b = 117 then unicodeEscape s else (simpleEscape b).map fun c => ([c], s)

/-- The rest of a string, up to and past its closing quote. -/
def stringBody : ℕ → Bytes → Option (Bytes × Bytes)
  | 0, _ | _, [] => none
  | fuel + 1, b :: s =>
      if b = 34 then some ([], s)
      else if b < 32 then none
      else do
        let (c, s) ← if b = 92 then escape s else some ([b], s)
        let (cs, s) ← stringBody fuel s
        some (c ++ cs, s)

/-! ### Values -/

def skipWs (s : Bytes) : Bytes := s.dropWhile fun b => b = 32 ∨ b = 9 ∨ b = 10 ∨ b = 13

def isDigit (b : UInt8) : Bool := 48 ≤ b ∧ b ≤ 57

/-- One digit or more. -/
def digits (s : Bytes) : Option (Bytes × Bytes) :=
  match s.takeWhile isDigit with
  | [] => none
  | ds => some (ds, s.dropWhile isDigit)

/-- An integer part has no leading zero. -/
def intPart (s : Bytes) : Option (Bytes × Bytes) :=
  match s with
  | 48 :: s => some ([48], s)
  | s => digits s

def fraction (s : Bytes) : Option (Bytes × Bytes) :=
  match s with
  | 46 :: s => (digits s).map fun (ds, s) => (46 :: ds, s)
  | s => some ([], s)

def exponent (s : Bytes) : Option (Bytes × Bytes) :=
  match s with
  | e :: s' =>
      if e = 69 ∨ e = 101 then
        match s' with
        | sign :: s'' =>
            if sign = 43 ∨ sign = 45 then (digits s'').map fun (ds, s) => (e :: sign :: ds, s)
            else (digits s').map fun (ds, s) => (e :: ds, s)
        | [] => none
      else some ([], s)
  | [] => some ([], [])

def numberLexeme (s : Bytes) : Option (Bytes × Bytes) := do
  let (sign, s) := match s with
    | 45 :: s => ([45], s)
    | s => (([] : Bytes), s)
  let (i, s) ← intPart s
  let (f, s) ← fraction s
  let (e, s) ← exponent s
  some (sign ++ i ++ f ++ e, s)

/-- A member's key and the colon. -/
def memberKey (s : Bytes) : Option (Bytes × Bytes) :=
  match skipWs s with
  | 34 :: s => do
      let (key, s) ← stringBody s.length s
      let s ← word [58] (skipWs s)
      some (key, s)
  | _ => none

mutual

def value : ℕ → Bytes → Option (Json × Bytes)
  | 0, _ => none
  | fuel + 1, s =>
      match skipWs s with
      | 34 :: s => (stringBody s.length s).map fun (cs, s) => (string cs, s)
      | 123 :: s =>
          match skipWs s with
          | 125 :: s => some (object [], s)
          | s => (members fuel s).map fun (ms, s) => (object ms, s)
      | 91 :: s =>
          match skipWs s with
          | 93 :: s => some (array [], s)
          | s => (elements fuel s).map fun (es, s) => (array es, s)
      | s =>
          ((word (ascii "null") s).map fun s => (null, s)).or <|
          ((word (ascii "true") s).map fun s => (bool true, s)).or <|
          ((word (ascii "false") s).map fun s => (bool false, s)).or <|
          ((numberLexeme s).map fun (n, s) => (number n, s))

/-- The members of an object, and its closing brace. -/
def members : ℕ → Bytes → Option (List (Bytes × Json) × Bytes)
  | 0, _ => none
  | fuel + 1, s => do
      let (key, s) ← memberKey s
      let (v, s) ← value fuel s
      match skipWs s with
      | 44 :: s => (members fuel s).map fun (ms, s) => ((key, v) :: ms, s)
      | 125 :: s => some ([(key, v)], s)
      | _ => none

/-- The elements of an array, and its closing bracket. -/
def elements : ℕ → Bytes → Option (List Json × Bytes)
  | 0, _ => none
  | fuel + 1, s => do
      let (v, s) ← value fuel s
      match skipWs s with
      | 44 :: s => (elements fuel s).map fun (es, s) => (v :: es, s)
      | 93 :: s => some ([v], s)
      | _ => none

end

/-- A JSON text. -/
def decode (s : Bytes) : Option Json :=
  if Utf8.valid s then
    match value (s.length + 1) s with
    | some (j, rest) => if skipWs rest = [] then some j else none
    | none => none
  else none

/-! ### Quoting -/

/-- A byte that stands for itself in a string. -/
def PlainByte (b : UInt8) : Prop := ¬ b < 32 ∧ b ≠ 34 ∧ b ≠ 92

instance (b : UInt8) : Decidable (PlainByte b) := inferInstanceAs (Decidable (_ ∧ _))

/-- A text that needs no escapes. -/
def Plain (x : Bytes) : Prop := Utf8.valid x = true ∧ ∀ b ∈ x, PlainByte b

instance (x : Bytes) : Decidable (Plain x) :=
  @instDecidableAnd _ _ _ (List.decidableBAll PlainByte x)

theorem hex4_length {s r : Bytes} {n : ℕ} (h : hex4 s = some (n, r)) :
    r.length + 4 = s.length := by
  match s, h with
  | a :: b :: c :: d :: s, h =>
      simp only [hex4, Option.bind_eq_bind, Option.bind_eq_some_iff, Option.some.injEq,
        Prod.mk.injEq] at h
      obtain ⟨-, -, -, -, -, -, -, -, -, rfl⟩ := h
      rfl

theorem word_length {w s r : Bytes} (h : word w s = some r) : r.length ≤ s.length := by
  simp only [word, Option.ite_none_right_eq_some, Option.some.injEq] at h
  obtain ⟨-, rfl⟩ := h
  simp

theorem unicodeEscape_length {s c r : Bytes} (h : unicodeEscape s = some (c, r)) :
    c.length + r.length ≤ s.length := by
  simp only [unicodeEscape, Option.bind_eq_bind, Option.bind_eq_some_iff, Prod.exists] at h
  obtain ⟨n, t, ht, h⟩ := h
  have hlen := hex4_length ht
  split_ifs at h with h₁ h₂
  · obtain ⟨rfl, rfl⟩ : Utf8.encode n = c ∧ t = r := by simpa using h
    have henc := Utf8.length_encode_le n
    omega
  · simp only [Option.bind_eq_some_iff, Prod.exists, Option.ite_none_right_eq_some] at h
    obtain ⟨u, hu, m, v, hv, -, h⟩ := h
    obtain ⟨rfl, rfl⟩ := Prod.mk.inj (Option.some.inj h)
    have hle := word_length hu
    have hlen' := hex4_length hv
    have henc := Utf8.length_encode_le (0x10000 + (n - 0xD800) * 0x400 + (m - 0xDC00))
    omega

/-- An escape is longer than what it stands for. -/
theorem escape_length {s c r : Bytes} (h : escape s = some (c, r)) :
    c.length + r.length ≤ s.length := by
  cases s with
  | nil => simp [escape] at h
  | cons b s =>
      rw [escape] at h
      split_ifs at h with hb
      · exact (unicodeEscape_length h).trans (Nat.le_succ _)
      · simp only [Option.map_eq_some_iff, Prod.mk.injEq] at h
        obtain ⟨a, -, rfl, rfl⟩ := h
        simp [Nat.add_comm]

theorem stringBody_plain {x : Bytes} (h : ∀ b ∈ x, PlainByte b) (rest : Bytes) {fuel : ℕ}
    (hfuel : x.length < fuel) : stringBody fuel (x ++ 34 :: rest) = some (x, rest) := by
  induction x generalizing fuel with
  | nil =>
      obtain ⟨fuel, rfl⟩ := Nat.exists_eq_succ_of_ne_zero hfuel.ne'
      simp [stringBody]
  | cons b x ih =>
      obtain ⟨fuel, rfl⟩ := Nat.exists_eq_succ_of_ne_zero (Nat.ne_zero_of_lt hfuel)
      obtain ⟨hctl, hquote, hback⟩ := h b (by simp)
      have htail := ih (fun c hc => h c (by simp [hc])) (Nat.lt_of_succ_lt_succ hfuel)
      simp [stringBody, hctl, hquote, hback, htail]

/-- **A string is never longer than its text**, and as long only when its text is plain. -/
theorem stringBody_length {fuel : ℕ} {s out rest : Bytes}
    (h : stringBody fuel s = some (out, rest)) :
    out.length + rest.length + 1 ≤ s.length ∧
      (out.length + rest.length + 1 = s.length → ∀ b ∈ out, PlainByte b) := by
  induction fuel generalizing s out with
  | zero => simp [stringBody] at h
  | succ fuel ih =>
      cases s with
      | nil => simp [stringBody] at h
      | cons b s =>
          rw [stringBody] at h
          split_ifs at h with hquote hctl hback
          · obtain ⟨rfl, rfl⟩ : [] = out ∧ s = rest := by simpa using h
            simp
          · -- an escape: shorter than its text
            simp only [Option.bind_eq_bind, Option.bind_eq_some_iff, Prod.exists,
              Option.some.injEq, Prod.mk.injEq] at h
            obtain ⟨c, t, hesc, cs, u, hbody, rfl, rfl⟩ := h
            have h₁ := escape_length hesc
            have h₂ := (ih hbody).1
            simp only [List.length_append, List.length_cons]
            exact ⟨by omega, fun _ => by omega⟩
          · simp only [Option.bind_eq_bind, Option.bind_some, Option.bind_eq_some_iff,
              Prod.exists, Option.some.injEq, Prod.mk.injEq] at h
            obtain ⟨cs, u, hbody, rfl, rfl⟩ := h
            obtain ⟨h₁, h₂⟩ := ih hbody
            simp only [List.singleton_append, List.length_cons]
            refine ⟨by omega, fun heq => ?_⟩
            have hcs := h₂ (by omega)
            simpa using ⟨⟨hctl, hquote, hback⟩, hcs⟩

/-! ### A string in its text

A text that puts `x` between quotes and goes on with `tail`: the reader of the string leaves it
before `tail`, or takes the closing quote for an escaped one and reads on.
-/

section

variable {x tail rest : Bytes}

/-- Four digits lie before the quote. -/
theorem hex4_split {n : ℕ} (h : hex4 (x ++ 34 :: tail) = some (n, rest)) :
    ∃ p x', x = p ++ x' ∧ rest = x' ++ 34 :: tail := by
  have hquote : hexDigit 34 = none := by decide
  match x, h with
  | [], h => cases tail with
    | nil => simp [hex4] at h
    | cons a t => match t, h with
      | [], h | [_], h => simp [hex4] at h
      | _ :: _ :: _, h => simp [hex4, hquote] at h
  | [a], h => match tail, h with
    | [], h | [_], h => simp [hex4] at h
    | _ :: _ :: _, h => simp [hex4, hquote] at h
  | [a, b], h => cases tail <;> simp [hex4, hquote] at h
  | [a, b, c], h => simp [hex4, hquote] at h
  | a :: b :: c :: d :: x', h =>
      simp only [List.cons_append, hex4, Option.bind_eq_bind, Option.bind_eq_some_iff,
        Option.some.injEq, Prod.mk.injEq] at h
      obtain ⟨-, -, -, -, -, -, -, -, -, rfl⟩ := h
      exact ⟨[a, b, c, d], x', rfl, rfl⟩

/-- A surrogate pair lies before the quote. -/
theorem unicodeEscape_split {c : Bytes} (h : unicodeEscape (x ++ 34 :: tail) = some (c, rest)) :
    ∃ p x', x = p ++ x' ∧ rest = x' ++ 34 :: tail := by
  simp only [unicodeEscape, Option.bind_eq_bind, Option.bind_eq_some_iff, Prod.exists] at h
  obtain ⟨n, t, ht, h⟩ := h
  obtain ⟨p, y, rfl, rfl⟩ := hex4_split ht
  split_ifs at h with h₁ h₂
  · obtain ⟨-, rfl⟩ : Utf8.encode n = c ∧ y ++ 34 :: tail = rest := by simpa using h
    exact ⟨p, y, rfl, rfl⟩
  · simp only [Option.bind_eq_some_iff, Prod.exists, Option.ite_none_right_eq_some] at h
    obtain ⟨u, hu, m, v, hv, -, h⟩ := h
    obtain ⟨-, rfl⟩ := Prod.mk.inj (Option.some.inj h)
    simp only [word, Option.ite_none_right_eq_some, Option.some.injEq] at hu
    obtain ⟨hword, rfl⟩ := hu
    -- the word has no quote in it
    match y, hword, hv with
    | [], hword, _ => simp at hword
    | [a], hword, _ => simp at hword
    | a :: b :: y', _, hv =>
        obtain ⟨q, x', rfl, rfl⟩ := hex4_split (x := y') hv
        exact ⟨p ++ a :: b :: q, x', by simp, rfl⟩

/-- An escape lies before the quote, unless the quote is what it escapes. -/
theorem escape_split {c : Bytes} (h : escape (x ++ 34 :: tail) = some (c, rest)) :
    (∃ p x', x = p ++ x' ∧ rest = x' ++ 34 :: tail) ∨ (x = [] ∧ c = [34] ∧ rest = tail) := by
  cases x with
  | nil =>
      have hquote : simpleEscape 34 = some 34 := by decide
      obtain ⟨rfl, rfl⟩ : [34] = c ∧ tail = rest := by simpa [escape, hquote] using h
      exact .inr ⟨rfl, rfl, rfl⟩
  | cons b x =>
      rw [List.cons_append, escape] at h
      split_ifs at h with hb
      · obtain ⟨p, x', rfl, rfl⟩ := unicodeEscape_split h
        exact .inl ⟨b :: p, x', rfl, rfl⟩
      · simp only [Option.map_eq_some_iff, Prod.mk.injEq] at h
        obtain ⟨a, -, -, rfl⟩ := h
        exact .inl ⟨[b], x, rfl, rfl⟩

theorem stringBody_split {fuel : ℕ} {out : Bytes}
    (h : stringBody fuel (x ++ 34 :: tail) = some (out, rest)) :
    (∃ m, rest = m ++ tail) ∨
      ∃ fuel' out₁ out₂, out = out₁ ++ 34 :: out₂ ∧ stringBody fuel' tail = some (out₂, rest) ∧
        x.getLast? = some 92 := by
  induction fuel generalizing x out with
  | zero => simp [stringBody] at h
  | succ fuel ih =>
      cases x with
      | nil =>
          obtain ⟨-, rfl⟩ : [] = out ∧ tail = rest := by simpa [stringBody] using h
          exact .inl ⟨[], rfl⟩
      | cons b x =>
          rw [List.cons_append, stringBody] at h
          split_ifs at h with hquote hctl hback
          · obtain ⟨-, rfl⟩ : [] = out ∧ x ++ 34 :: tail = rest := by simpa using h
            exact .inl ⟨x ++ [34], by simp⟩
          · simp only [Option.bind_eq_bind, Option.bind_eq_some_iff, Prod.exists,
              Option.some.injEq, Prod.mk.injEq] at h
            obtain ⟨c, t, hesc, cs, u, hbody, rfl, rfl⟩ := h
            rcases escape_split hesc with ⟨p, x', rfl, rfl⟩ | ⟨rfl, rfl, rfl⟩
            · rcases ih hbody with hin | ⟨fuel', out₁, out₂, rfl, htail, hlast⟩
              · exact .inl hin
              · refine .inr ⟨fuel', c ++ out₁, out₂, by simp, htail, ?_⟩
                rw [← List.cons_append, List.getLast?_append, hlast]
                rfl
            · -- the backslash is the last byte, and escapes the quote
              exact .inr ⟨fuel, [], cs, rfl, hbody, by simp [hback]⟩
          · simp only [Option.bind_eq_bind, Option.bind_some, Option.bind_eq_some_iff,
              Prod.exists, Option.some.injEq, Prod.mk.injEq] at h
            obtain ⟨cs, u, hbody, rfl, rfl⟩ := h
            rcases ih hbody with hin | ⟨fuel', out₁, out₂, rfl, htail, hlast⟩
            · exact .inl hin
            · refine .inr ⟨fuel', b :: out₁, out₂, rfl, htail, ?_⟩
              rw [← List.singleton_append, List.getLast?_append, hlast]
              rfl

/-- **Only plain text reads back as itself**, when a string that goes on into `tail` cannot end
there with a backslash. -/
theorem stringBody_exact {fuel : ℕ}
    (hstop : ∀ fuel out rest, stringBody fuel tail = some (out, rest) →
      (34 :: out).getLast? ≠ some 92)
    (h : stringBody fuel (x ++ 34 :: tail) = some (x, rest)) :
    rest = tail ∧ ∀ b ∈ x, PlainByte b := by
  rcases stringBody_split h with ⟨m, rfl⟩ | ⟨fuel', out₁, out₂, rfl, htail, hlast⟩
  · obtain ⟨hle, hplain⟩ := stringBody_length h
    simp only [List.length_append, List.length_cons] at hle hplain
    obtain rfl : m = [] := List.length_eq_zero_iff.mp (by omega)
    exact ⟨rfl, hplain (by simp only [List.length_nil]; omega)⟩
  · have hne := hstop _ _ _ htail
    simp only [List.getLast?_append, List.getLast?_cons, Option.some_or] at hlast hne
    exact absurd hlast hne

end

theorem value_quoted (fuel : ℕ) (s : Bytes) :
    value (fuel + 1) (34 :: s) =
      (stringBody s.length s).map fun (cs, rest) => (string cs, rest) := by
  simp [value, skipWs]

theorem valid_quoted (x : Bytes) : Utf8.valid (34 :: (x ++ [34])) = Utf8.valid x := by
  rw [Utf8.valid_cons (by decide), Utf8.valid_append_cons (by decide), Utf8.valid_nil,
    Bool.and_true]

/-- **Quoting.**  A text between quotes is a JSON text for itself exactly when it is plain. -/
theorem decode_quoted {x : Bytes} : decode (34 :: (x ++ [34])) = some (string x) ↔ Plain x := by
  rw [decode, valid_quoted, value_quoted]
  constructor
  · intro h
    split_ifs at h with hv
    cases hbody : stringBody (x ++ [34]).length (x ++ [34]) with
    | none =>
        rw [hbody] at h
        cases h
    | some p =>
        obtain ⟨cs, rest⟩ := p
        simp only [hbody, Option.map_some, Option.ite_none_right_eq_some, Option.some.injEq,
          string.injEq] at h
        obtain ⟨-, rfl⟩ := h
        obtain ⟨hle, hplain⟩ := stringBody_length hbody
        refine ⟨hv, hplain ?_⟩
        simp only [List.length_append, List.length_singleton] at hle ⊢
        omega
  · rintro ⟨hv, hplain⟩
    rw [stringBody_plain hplain [] (by simp)]
    simp [hv, skipWs]

/-! ### Members -/

/-- How an object goes on after a member. -/
def afterMember (fuel : ℕ) (key : Bytes) (v : Json) (s : Bytes) :
    Option (List (Bytes × Json) × Bytes) :=
  match skipWs s with
  | 44 :: s => (members fuel s).map fun (ms, s) => ((key, v) :: ms, s)
  | 125 :: s => some ([(key, v)], s)
  | _ => none

theorem members_succ (fuel : ℕ) (s : Bytes) :
    members (fuel + 1) s = (memberKey s).bind fun p =>
      (value fuel p.2).bind fun q => afterMember fuel p.1 q.1 q.2 := by
  rw [members]
  rfl

theorem afterMember_comma (fuel : ℕ) (key : Bytes) (v : Json) (s : Bytes) :
    afterMember fuel key v (44 :: s) =
      (members fuel s).map fun (ms, s) => ((key, v) :: ms, s) := by
  simp [afterMember, skipWs]

theorem afterMember_head {fuel : ℕ} {key s rest : Bytes} {v : Json} {m : Bytes × Json}
    {ms : List (Bytes × Json)} (h : afterMember fuel key v s = some (m :: ms, rest)) :
    m = (key, v) := by
  rw [afterMember] at h
  split at h
  · simp only [Option.map_eq_some_iff, Prod.mk.injEq, List.cons.injEq] at h
    obtain ⟨-, -, ⟨rfl, -⟩, -⟩ := h
    rfl
  · simp only [Option.some.injEq, Prod.mk.injEq, List.cons.injEq] at h
    exact h.1.1.symm
  · cases h

/-- A newline before a member is skipped. -/
theorem members_newline (fuel : ℕ) (s : Bytes) : members fuel (10 :: s) = members fuel s := by
  cases fuel with
  | zero => simp [members]
  | succ fuel => simp [members_succ, memberKey, skipWs]

theorem two_le_of_members {fuel : ℕ} {s : Bytes} {p : List (Bytes × Json) × Bytes}
    (h : members fuel s = some p) : 2 ≤ fuel := by
  match fuel, h with
  | 0, h => simp [members] at h
  | 1, h => simp [members, value] at h
  | fuel + 2, _ => exact Nat.le_add_left 2 fuel

/-- An object with one member, both texts plain. -/
theorem decode_member {k v : Bytes} (hk : Plain k) (hv : Plain v) :
    decode (123 :: 34 :: (k ++ 34 :: 58 :: 34 :: (v ++ [34, 125]))) =
      some (object [(k, string v)]) := by
  have hvalid : Utf8.valid (123 :: 34 :: (k ++ 34 :: 58 :: 34 :: (v ++ [34, 125]))) = true := by
    rw [Utf8.valid_cons (by decide), Utf8.valid_cons (by decide),
      Utf8.valid_append_cons (by decide), Utf8.valid_cons (by decide),
      Utf8.valid_cons (by decide), Utf8.valid_append_cons (by decide), hk.1, hv.1]
    rfl
  have hkey : memberKey (34 :: (k ++ 34 :: 58 :: 34 :: (v ++ [34, 125]))) =
      some (k, 34 :: (v ++ [34, 125])) := by
    simp [memberKey, skipWs, stringBody_plain hk.2, word]
  have hval : ∀ fuel, value (fuel + 1) (34 :: (v ++ [34, 125])) = some (string v, [125]) := by
    intro fuel
    rw [value_quoted, stringBody_plain hv.2 [125] (by simp)]
    rfl
  have hmem : ∀ fuel, members (fuel + 2) (34 :: (k ++ 34 :: 58 :: 34 :: (v ++ [34, 125]))) =
      some ([(k, string v)], []) := by
    intro fuel
    simp [members, hkey, hval, skipWs]
  have hobj : ∀ fuel, value (fuel + 3) (123 :: 34 :: (k ++ 34 :: 58 :: 34 :: (v ++ [34, 125]))) =
      some (object [(k, string v)], []) := by
    intro fuel
    simp [value, hmem, skipWs]
  rw [decode, if_pos hvalid, List.length_cons, List.length_cons, hobj]
  rfl

end Json

end AliMiddleware
