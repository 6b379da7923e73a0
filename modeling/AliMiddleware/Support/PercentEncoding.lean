import AliMiddleware.Support.Bytes

/-!
# Support — PercentEncoding

Percent-encoded text, as forms carry it: an unreserved byte stands for itself, any other one is
written `%` and two hex digits, of either case, and a space may be written `+` (`EncodedAs`; a
text has several encodings).

`PartialDecoder Known D`: `D` replaces the escapes with the digits in `Known` by their bytes and
leaves everything else.  It gives the text back exactly when these are the only escapes of the
encoding and there is no `+` (`PartialDecoder.undoes_iff`).
-/

namespace AliMiddleware.Bytes

/-! ### Encodings -/

/-- A letter, a digit, or one of `-`, `.`, `_` and `~`. -/
def Unreserved (b : UInt8) : Prop :=
  48 ≤ b ∧ b ≤ 57 ∨ 65 ≤ b ∧ b ≤ 90 ∨ 97 ≤ b ∧ b ≤ 122 ∨ b ∈ ([45, 46, 95, 126] : Bytes)

instance (b : UInt8) : Decidable (Unreserved b) :=
  inferInstanceAs (Decidable (_ ∨ _ ∨ _ ∨ _))

/-- How one byte may be written. -/
inductive WrittenAs : UInt8 → Bytes → Prop where
  | literal {b : UInt8} (unreserved : Unreserved b) : WrittenAs b [b]
  | escape {b hi lo : UInt8} (reserved : ¬ Unreserved b)
      (high : hexDigit hi = some (b.toNat / 16)) (low : hexDigit lo = some (b.toNat % 16)) :
      WrittenAs b [37, hi, lo]
  | plus : WrittenAs 32 [43]

/-- The encodings of a text. -/
inductive EncodedAs : Bytes → Bytes → Prop where
  | nil : EncodedAs [] []
  | cons {b : UInt8} {s e t : Bytes} (first : WrittenAs b e) (rest : EncodedAs s t) :
      EncodedAs (b :: s) (e ++ t)

theorem encodedAs_self {s : Bytes} (h : s.all (Unreserved ·) = true) : EncodedAs s s := by
  induction s with
  | nil => exact .nil
  | cons b s ih =>
      rw [List.all_cons, Bool.and_eq_true, decide_eq_true_eq] at h
      exact .cons (.literal h.1) (ih h.2)

theorem EncodedAs.append {s s' t t' : Bytes} (h : EncodedAs s t) (h' : EncodedAs s' t') :
    EncodedAs (s ++ s') (t ++ t') := by
  induction h with
  | nil => exact h'
  | cons first _ ih =>
      rw [List.append_assoc]
      exact .cons first ih

theorem hexDigit_ne {d : UInt8} {v : ℕ} (h : hexDigit d = some v) : d ≠ 37 ∧ d ≠ 43 := by
  constructor
  · rintro rfl
    cases h
  · rintro rfl
    cases h

theorem Unreserved.ne {b : UInt8} (h : Unreserved b) : b ≠ 37 ∧ b ≠ 43 := by
  constructor
  · rintro rfl
    exact absurd h (by decide)
  · rintro rfl
    exact absurd h (by decide)

/-! ### Decoders -/

/-- A decoder that knows some escapes. -/
structure PartialDecoder (Known : UInt8 → UInt8 → Prop) (D : Bytes → Bytes) : Prop where
  nil : D [] = []
  other : ∀ b t, b ≠ 37 → D (b :: t) = b :: D t
  known : ∀ hi lo b t, Known hi lo → hexDigit hi = some (UInt8.toNat b / 16) →
    hexDigit lo = some (UInt8.toNat b % 16) → D (37 :: hi :: lo :: t) = b :: D t
  unknown : ∀ hi lo t, ¬ Known hi lo → hi ≠ 37 → lo ≠ 37 →
    D (37 :: hi :: lo :: t) = 37 :: hi :: lo :: D t

/-- No `+`, and no escape but known ones. -/
def Understood (Known : UInt8 → UInt8 → Prop) (t : Bytes) : Prop :=
  43 ∉ t ∧ ∀ hi lo rest, 37 :: hi :: lo :: rest <:+ t → Known hi lo

section

variable {Known : UInt8 → UInt8 → Prop} {D : Bytes → Bytes}

theorem understood_nil : Understood Known [] :=
  ⟨List.not_mem_nil, fun _ _ _ h => nomatch List.suffix_nil.mp h⟩

theorem understood_cons {b : UInt8} (h : b ≠ 37 ∧ b ≠ 43) (t : Bytes) :
    Understood Known (b :: t) ↔ Understood Known t := by
  have hsuffix : ∀ hi lo rest, 37 :: hi :: lo :: rest <:+ b :: t ↔
      37 :: hi :: lo :: rest <:+ t := by
    intro hi lo rest
    rw [List.suffix_cons_iff]
    refine ⟨fun hs => hs.resolve_left fun heq => ?_, .inr⟩
    exact h.1 (List.cons.inj heq).1.symm
  simp only [Understood, hsuffix, List.mem_cons, h.2.symm, false_or]

theorem understood_escape {hi lo : UInt8} (hhi : hi ≠ 37 ∧ hi ≠ 43) (hlo : lo ≠ 37 ∧ lo ≠ 43)
    (t : Bytes) :
    Understood Known (37 :: hi :: lo :: t) ↔ Known hi lo ∧ Understood Known t := by
  have htail : Understood Known (hi :: lo :: t) ↔ Understood Known t := by
    rw [understood_cons hhi, understood_cons hlo]
  rw [← htail]
  constructor
  · rintro ⟨hplus, hescapes⟩
    refine ⟨hescapes hi lo t List.suffix_rfl, fun hmem => hplus (List.mem_cons_of_mem _ hmem), ?_⟩
    intro hi' lo' rest hs
    exact hescapes hi' lo' rest (hs.trans (List.suffix_cons _ _))
  · rintro ⟨hknown, hplus, hescapes⟩
    refine ⟨fun hmem => ?_, fun hi' lo' rest hs => ?_⟩
    · rcases List.mem_cons.mp hmem with heq | hmem
      · exact absurd heq (by decide)
      · exact hplus hmem
    · rcases List.suffix_cons_iff.mp hs with heq | hs
      · simp only [List.cons.injEq] at heq
        obtain ⟨-, rfl, rfl, -⟩ := heq
        exact hknown
      · exact hescapes hi' lo' rest hs

/-- What is decoded is not shorter than the text. -/
theorem PartialDecoder.length_le (hD : PartialDecoder Known D) {s t : Bytes}
    (h : EncodedAs s t) : s.length ≤ (D t).length := by
  induction h with
  | nil => exact Nat.zero_le _
  | @cons b s e t first rest ih =>
      cases first with
      | literal hb =>
          change _ ≤ (D (b :: t)).length
          rw [hD.other b t hb.ne.1]
          exact Nat.succ_le_succ ih
      | plus =>
          change _ ≤ (D (43 :: t)).length
          rw [hD.other 43 t (by decide)]
          exact Nat.succ_le_succ ih
      | @escape _ hi lo _ hhigh hlow =>
          change _ ≤ (D (37 :: hi :: lo :: t)).length
          by_cases hknown : Known hi lo
          · rw [hD.known hi lo b t hknown hhigh hlow]
            exact Nat.succ_le_succ ih
          · rw [hD.unknown hi lo t hknown (hexDigit_ne hhigh).1 (hexDigit_ne hlow).1]
            exact Nat.succ_le_succ (Nat.le_succ_of_le (Nat.le_succ_of_le ih))

/-- **When a decoder that knows some escapes gives the text back.** -/
theorem PartialDecoder.undoes_iff (hD : PartialDecoder Known D) {s t : Bytes}
    (h : EncodedAs s t) : D t = s ↔ Understood Known t := by
  induction h with
  | nil => exact iff_of_true hD.nil understood_nil
  | @cons b s e t first rest ih =>
      cases first with
      | literal hb =>
          change D (b :: t) = b :: s ↔ Understood Known (b :: t)
          rw [hD.other b t hb.ne.1, understood_cons hb.ne, ← ih, List.cons.injEq]
          exact and_iff_right rfl
      | plus =>
          change D (43 :: t) = 32 :: s ↔ Understood Known (43 :: t)
          rw [hD.other 43 t (by decide)]
          -- a `+` is left as it is, and the text had a space there
          refine iff_of_false (fun heq => ?_) fun hu => hu.1 List.mem_cons_self
          exact absurd (List.cons.inj heq).1 (by decide)
      | @escape _ hi lo _ hhigh hlow =>
          change D (37 :: hi :: lo :: t) = b :: s ↔ Understood Known (37 :: hi :: lo :: t)
          have hhi := hexDigit_ne hhigh
          have hlo := hexDigit_ne hlow
          rw [understood_escape hhi hlo]
          by_cases hknown : Known hi lo
          · rw [hD.known hi lo b t hknown hhigh hlow, ← ih, List.cons.injEq]
            simp [hknown]
          · -- two bytes too many are left
            rw [hD.unknown hi lo t hknown hhi.1 hlo.1]
            refine iff_of_false (fun heq => ?_) fun hu => hknown hu.1
            have hlen := congrArg List.length (List.cons.inj heq).2
            have hle := hD.length_le rest
            simp only [List.length_cons] at hlen
            omega

end

end AliMiddleware.Bytes
