import AliMiddleware.Support.Bytes

/-!
# Support — Replace

Two replacements, one after the other, and one simultaneous pass.  `Bytes.replace` substitutes the
occurrences of one text from left to right; `replaceBoth` does so for two texts at once, and does
not look again at what it has put in.  The two agree when neither text can begin inside the other
or inside what is put in for it (`replace_replace`).
-/

namespace AliMiddleware.Bytes

/-! ### One text -/

theorem replaceAux_eq_replace_drop (from_ to_ : Bytes) (skip : ℕ) (s : Bytes) :
    replaceAux from_ to_ skip s = replace from_ to_ (s.drop skip) := by
  induction skip generalizing s with
  | zero => rfl
  | succ skip ih =>
      cases s with
      | nil => rfl
      | cons b s => exact ih s

@[simp] theorem replace_nil (from_ to_ : Bytes) : replace from_ to_ [] = [] := rfl

theorem replace_append {from_ : Bytes} (hne : from_ ≠ []) (to_ s : Bytes) :
    replace from_ to_ (from_ ++ s) = to_ ++ replace from_ to_ s := by
  obtain ⟨f, fs, rfl⟩ := List.exists_cons_of_ne_nil hne
  have hpre : (f :: fs).isPrefixOf (f :: (fs ++ s)) = true :=
    List.isPrefixOf_iff_prefix.mpr ⟨s, rfl⟩
  rw [List.cons_append, replace, replaceAux, if_pos hpre, replaceAux_eq_replace_drop,
    List.length_cons, Nat.add_sub_cancel, List.drop_left]

theorem replace_cons {from_ : Bytes} {b : UInt8} {s : Bytes} (h : ¬ from_ <+: b :: s)
    (to_ : Bytes) : replace from_ to_ (b :: s) = b :: replace from_ to_ s := by
  rw [replace, replaceAux, if_neg]
  · rfl
  · exact fun hp => h (List.isPrefixOf_iff_prefix.mp hp)

/-- Where the text cannot begin, nothing is replaced. -/
theorem replace_append_of_not_mem {f : UInt8} {fs u : Bytes} (h : f ∉ u) (to_ s : Bytes) :
    replace (f :: fs) to_ (u ++ s) = u ++ replace (f :: fs) to_ s := by
  induction u with
  | nil => rfl
  | cons b u ih =>
      have hb : ¬ (f :: fs) <+: b :: (u ++ s) := by
        rintro ⟨r, hr⟩
        exact h (by simp [(List.cons.inj hr).1])
      rw [List.cons_append, replace_cons hb, ih fun hf => h (by simp [hf]), List.cons_append]

theorem replace_eq_nil {from_ to_ : Bytes} (hf : from_ ≠ []) (ht : to_ ≠ []) {s : Bytes} :
    replace from_ to_ s = [] ↔ s = [] := by
  cases s with
  | nil => simp
  | cons b s =>
      by_cases hp : from_ <+: b :: s
      · obtain ⟨r, hr⟩ := hp
        rw [← hr, replace_append hf]
        simp [ht, hf]
      · simp [replace_cons hp]

/-- A text that what is put in does not have was there before. -/
theorem prefix_of_prefix_replace {from_ to_ : Bytes} (hf : from_ ≠ []) {c : UInt8} {cs : Bytes}
    (hto : to_ = c :: cs) {g : Bytes} (hc : c ∉ g) {s : Bytes} (h : g <+: replace from_ to_ s) :
    g <+: s := by
  induction g generalizing s with
  | nil => exact List.nil_prefix
  | cons d g ih =>
      have hne : c ≠ d := fun hcd => hc (by simp [hcd])
      cases s with
      | nil => simp at h
      | cons b s =>
          by_cases hp : from_ <+: b :: s
          · obtain ⟨r, hr⟩ := hp
            rw [← hr, replace_append hf, hto, List.cons_append, List.cons_prefix_cons] at h
            exact absurd h.1.symm hne
          · rw [replace_cons hp, List.cons_prefix_cons] at h
            obtain ⟨rfl, h⟩ := h
            exact List.cons_prefix_cons.mpr ⟨rfl, ih (fun hm => hc (by simp [hm])) h⟩

/-! ### Two texts at once -/

/-- One pass from left to right, with `skip` bytes still to be passed over. -/
def replaceBothAux (from₁ to₁ from₂ to₂ : Bytes) : ℕ → Bytes → Bytes
  | _, [] => []
  | skip + 1, _ :: s => replaceBothAux from₁ to₁ from₂ to₂ skip s
  | 0, b :: s =>
      if from₁.isPrefixOf (b :: s) then
        to₁ ++ replaceBothAux from₁ to₁ from₂ to₂ (from₁.length - 1) s
      else if from₂.isPrefixOf (b :: s) then
        to₂ ++ replaceBothAux from₁ to₁ from₂ to₂ (from₂.length - 1) s
      else b :: replaceBothAux from₁ to₁ from₂ to₂ 0 s

/-- Every occurrence of `from₁` replaced by `to₁` and of `from₂` by `to₂`, in one pass. -/
def replaceBoth (from₁ to₁ from₂ to₂ s : Bytes) : Bytes :=
  replaceBothAux from₁ to₁ from₂ to₂ 0 s

section Both

variable {from₁ to₁ from₂ to₂ : Bytes}

theorem replaceBothAux_eq_drop (skip : ℕ) (s : Bytes) :
    replaceBothAux from₁ to₁ from₂ to₂ skip s = replaceBoth from₁ to₁ from₂ to₂ (s.drop skip) := by
  induction skip generalizing s with
  | zero => rfl
  | succ skip ih =>
      cases s with
      | nil => rfl
      | cons b s => exact ih s

theorem replaceBoth_first (hne : from₁ ≠ []) (s : Bytes) :
    replaceBoth from₁ to₁ from₂ to₂ (from₁ ++ s) =
      to₁ ++ replaceBoth from₁ to₁ from₂ to₂ s := by
  obtain ⟨f, fs, rfl⟩ := List.exists_cons_of_ne_nil hne
  have hpre : (f :: fs).isPrefixOf (f :: (fs ++ s)) = true :=
    List.isPrefixOf_iff_prefix.mpr ⟨s, rfl⟩
  rw [List.cons_append, replaceBoth, replaceBothAux, if_pos hpre, replaceBothAux_eq_drop,
    List.length_cons, Nat.add_sub_cancel, List.drop_left]

theorem replaceBoth_second (hne : from₂ ≠ []) {s : Bytes} (h : ¬ from₁ <+: from₂ ++ s) :
    replaceBoth from₁ to₁ from₂ to₂ (from₂ ++ s) =
      to₂ ++ replaceBoth from₁ to₁ from₂ to₂ s := by
  obtain ⟨f, fs, rfl⟩ := List.exists_cons_of_ne_nil hne
  have hpre : (f :: fs).isPrefixOf (f :: (fs ++ s)) = true :=
    List.isPrefixOf_iff_prefix.mpr ⟨s, rfl⟩
  rw [List.cons_append] at h ⊢
  have hfirst : ¬ from₁.isPrefixOf (f :: (fs ++ s)) = true :=
    fun hp => h (List.isPrefixOf_iff_prefix.mp hp)
  rw [replaceBoth, replaceBothAux, if_neg hfirst, if_pos hpre, replaceBothAux_eq_drop,
    List.length_cons, Nat.add_sub_cancel, List.drop_left]

theorem replaceBoth_cons {b : UInt8} {s : Bytes} (h₁ : ¬ from₁ <+: b :: s)
    (h₂ : ¬ from₂ <+: b :: s) :
    replaceBoth from₁ to₁ from₂ to₂ (b :: s) = b :: replaceBoth from₁ to₁ from₂ to₂ s := by
  rw [replaceBoth, replaceBothAux, if_neg, if_neg]
  · rfl
  · exact fun hp => h₂ (List.isPrefixOf_iff_prefix.mp hp)
  · exact fun hp => h₁ (List.isPrefixOf_iff_prefix.mp hp)

end Both

/-- **Two replacements one after the other are one pass**, when the first text cannot begin inside
the second one, nor the second one where the first has been replaced. -/
theorem replace_replace {f₁ f₂ c : UInt8} {fs₁ fs₂ cs to₂ : Bytes} (hfrom : f₁ ∉ fs₂)
    (hto : f₂ ∉ c :: cs) (hput : c ∉ f₂ :: fs₂) (s : Bytes) :
    replace (f₂ :: fs₂) to₂ (replace (f₁ :: fs₁) (c :: cs) s) =
      replaceBoth (f₁ :: fs₁) (c :: cs) (f₂ :: fs₂) to₂ s := by
  have hne₁ : f₁ :: fs₁ ≠ [] := List.cons_ne_nil _ _
  have hne₂ : f₂ :: fs₂ ≠ [] := List.cons_ne_nil _ _
  -- on the length: what follows an occurrence is shorter
  induction hn : s.length using Nat.strong_induction_on generalizing s with
  | _ n ih =>
    cases s with
    | nil => rfl
    | cons b s =>
        by_cases h₁ : f₁ :: fs₁ <+: b :: s
        · obtain ⟨r, hr⟩ := h₁
          have hlen : r.length < n := by
            simp only [← hn, ← hr, List.length_append, List.length_cons]
            omega
          rw [← hr, replace_append hne₁, replace_append_of_not_mem hto, ih _ hlen r rfl,
            replaceBoth_first hne₁]
        · by_cases h₂ : f₂ :: fs₂ <+: b :: s
          · obtain ⟨r, hr⟩ := h₂
            have hlen : r.length < n := by
              simp only [← hn, ← hr, List.length_append, List.length_cons]
              omega
            have hfirst : replace (f₁ :: fs₁) (c :: cs) ((f₂ :: fs₂) ++ r) =
                (f₂ :: fs₂) ++ replace (f₁ :: fs₁) (c :: cs) r := by
              rw [← hr, List.cons_append] at h₁
              rw [List.cons_append, replace_cons h₁, replace_append_of_not_mem hfrom,
                List.cons_append]
            rw [← hr] at h₁ ⊢
            rw [hfirst, replace_append hne₂, ih _ hlen r rfl, replaceBoth_second hne₂ h₁]
          · have hlen : s.length < n := by simp [← hn]
            have hsecond : ¬ f₂ :: fs₂ <+: b :: replace (f₁ :: fs₁) (c :: cs) s := by
              intro hp
              rw [← replace_cons h₁] at hp
              exact h₂ (prefix_of_prefix_replace hne₁ rfl hput hp)
            rw [replace_cons h₁, replace_cons hsecond, ih _ hlen s rfl, replaceBoth_cons h₁ h₂]

end AliMiddleware.Bytes
