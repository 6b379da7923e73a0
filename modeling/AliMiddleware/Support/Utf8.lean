import AliMiddleware.Support.Bytes

/-!
# Support — Utf8

Well-formed UTF-8, byte by byte.  After the first byte of a character the machine owes its
continuation bytes, each with the range it has to be in; between characters it owes nothing.
Overlong forms, surrogates and values past the last code point have no ranges that admit them.

An ASCII byte is a character and is never owed, so a text splits at it (`valid_append_cons`).
-/

namespace AliMiddleware.Utf8

/-- A continuation byte. -/
def tail : UInt8 × UInt8 := (0x80, 0xBF)

/-- The continuation bytes the first byte of a character asks for. -/
def lead (b : UInt8) : Option (List (UInt8 × UInt8)) :=
  if b < 0x80 then some []
  else if b < 0xC2 then none
  else if b < 0xE0 then some [tail]
  else if b = 0xE0 then some [(0xA0, 0xBF), tail]
  else if b = 0xED then some [(0x80, 0x9F), tail]
  else if b < 0xF0 then some [tail, tail]
  else if b = 0xF0 then some [(0x90, 0xBF), tail, tail]
  else if b < 0xF4 then some [tail, tail, tail]
  else if b = 0xF4 then some [(0x80, 0x8F), tail, tail]
  else none

/-- The text ends between characters, from a point where the bytes in `owed` are owed. -/
def validFrom : List (UInt8 × UInt8) → Bytes → Bool
  | owed, [] => owed.isEmpty
  | [], b :: s =>
      match lead b with
      | some owed => validFrom owed s
      | none => false
  | r :: owed, b :: s => decide (r.1 ≤ b ∧ b ≤ r.2) && validFrom owed s

def valid (s : Bytes) : Bool := validFrom [] s

/-- A code point as UTF-8. -/
def encode (n : ℕ) : Bytes :=
  if n < 0x80 then [n.toUInt8]
  else if n < 0x800 then [(0xC0 + n / 0x40).toUInt8, (0x80 + n % 0x40).toUInt8]
  else if n < 0x10000 then
    [(0xE0 + n / 0x1000).toUInt8, (0x80 + n / 0x40 % 0x40).toUInt8, (0x80 + n % 0x40).toUInt8]
  else
    [(0xF0 + n / 0x40000).toUInt8, (0x80 + n / 0x1000 % 0x40).toUInt8,
      (0x80 + n / 0x40 % 0x40).toUInt8, (0x80 + n % 0x40).toUInt8]

theorem length_encode_le (n : ℕ) : (encode n).length ≤ 4 := by
  rw [encode]
  split_ifs <;> simp

@[simp] theorem valid_nil : valid [] = true := rfl

theorem valid_cons {b : UInt8} (h : b < 0x80) (s : Bytes) : valid (b :: s) = valid s := by
  simp [valid, validFrom, lead, h]

/-- What is owed is never ASCII. -/
theorem lead_high {b : UInt8} {owed : List (UInt8 × UInt8)} (h : lead b = some owed) :
    ∀ r ∈ owed, 0x80 ≤ r.1 := by
  have hall : owed.all (fun r => 0x80 ≤ r.1) = true := by
    revert h
    fun_cases lead b <;> rintro ⟨⟩ <;> decide
  simpa using hall

theorem validFrom_append_cons {owed : List (UInt8 × UInt8)} (ho : ∀ r ∈ owed, 0x80 ≤ r.1)
    {b : UInt8} (hb : b < 0x80) (s t : Bytes) :
    validFrom owed (s ++ b :: t) = (validFrom owed s && valid t) := by
  induction s generalizing owed with
  | nil =>
      cases owed with
      | nil => simp [validFrom, lead, hb, valid]
      | cons r owed =>
          have hr : ¬ r.1 ≤ b := UInt8.not_le.mpr (UInt8.lt_of_lt_of_le hb (ho r (by simp)))
          simp [validFrom, hr]
  | cons c s ih =>
      cases owed with
      | nil =>
          simp only [List.cons_append, validFrom]
          cases hl : lead c with
          | none => rfl
          | some owed => exact ih (lead_high hl)
      | cons r owed =>
          have howed : ∀ q ∈ owed, 0x80 ≤ q.1 := fun q hq => ho q (List.mem_cons_of_mem r hq)
          simp only [List.cons_append, validFrom, ih howed, Bool.and_assoc]

/-- **A text splits at an ASCII byte.** -/
theorem valid_append_cons {b : UInt8} (hb : b < 0x80) (s t : Bytes) :
    valid (s ++ b :: t) = (valid s && valid t) :=
  validFrom_append_cons (by simp) hb s t

end AliMiddleware.Utf8
