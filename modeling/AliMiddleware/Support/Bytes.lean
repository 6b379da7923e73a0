import Mathlib.Algebra.GroupWithZero.Nat
import Mathlib.Data.Nat.Notation
import Mathlib.Data.List.Infix
import Mathlib.Data.List.TakeWhile

/-!
# Support — Bytes

Byte strings, C strings in a fixed buffer, and reads from a stream that may be cut anywhere.

* `readSome max k undelivered`: one read takes `k` of the undelivered bytes, at least one and at
  most `max`; how many is the network's choice.
* `buffer size chunk`, `cString`: a zero-filled buffer that starts with `chunk`, and the C string
  at its start, if a NUL ends it inside the buffer.
* `le`, `ofLe`: integers as bytes in little-endian order; `decimal`,
  `ofDecimal`: numbers in digits; `hexDigit`: a hexadecimal one.
* `List.splitOn` and `List.intercalate` are splitting and joining at a separator; `cutAt` cuts at
  the first one, and `replace` substitutes from left to right without rescanning.
* `Lines s ls`: the text `s` is the lines `ls`, each ended by a newline.
-/

namespace AliMiddleware

abbrev Bytes := List UInt8

/-- The bytes of a literal. -/
def ascii (s : String) : Bytes := s.toUTF8.data.toList

namespace Bytes

/-! ### Streams -/

/-- One read: `k` bytes, and the bytes still undelivered. -/
def readSome (max k : ℕ) (undelivered : Bytes) : Option (Bytes × Bytes) :=
  if 0 < k ∧ k ≤ max ∧ k ≤ undelivered.length then
    some (undelivered.take k, undelivered.drop k)
  else none

theorem readSome_eq_some {max k : ℕ} {undelivered chunk rest : Bytes} :
    readSome max k undelivered = some (chunk, rest) ↔ 0 < k ∧ k ≤ max ∧ k ≤ undelivered.length ∧
      chunk = undelivered.take k ∧ rest = undelivered.drop k := by
  simp only [readSome, Option.ite_none_right_eq_some, Option.some.injEq, Prod.mk.injEq, and_assoc]
  rw [eq_comm (a := chunk), eq_comm (a := rest)]

/-- A read waits while nothing is there. -/
@[simp] theorem readSome_nil (max k : ℕ) : readSome max k [] = none := by
  rw [readSome, if_neg]
  rintro ⟨hpos, -, hle⟩
  exact absurd hpos (Nat.not_lt.mpr hle)

/-- A read of everything there is. -/
theorem readSome_all {max : ℕ} {undelivered : Bytes} (hne : undelivered ≠ [])
    (hmax : undelivered.length ≤ max) :
    readSome max undelivered.length undelivered = some (undelivered, []) := by
  rw [readSome_eq_some]
  exact ⟨List.length_pos_iff.mpr hne, hmax, le_refl _, by simp, by simp⟩

/-! ### C strings -/

/-- A zero-filled buffer of `size` bytes, after a read put `chunk` at its start. -/
def buffer (size : ℕ) (chunk : Bytes) : Bytes := chunk ++ List.replicate (size - chunk.length) 0

/-- The bytes before the first NUL; `none` when the buffer holds no NUL. -/
def cString (buf : Bytes) : Option Bytes :=
  if 0 ∈ buf then some (buf.takeWhile (· ≠ 0)) else none

theorem takeWhile_ne_eq_self {c : UInt8} {s : Bytes} (h : c ∉ s) : s.takeWhile (· ≠ c) = s := by
  rw [List.takeWhile_eq_self_iff]
  intro b hb
  have hne : b ≠ c := fun hc => h (hc ▸ hb)
  simpa using hne

theorem not_mem_takeWhile_ne (c : UInt8) (s : Bytes) : c ∉ s.takeWhile (· ≠ c) := by
  intro h
  have hc := List.mem_takeWhile_imp h
  simp at hc

theorem takeWhile_buffer (size : ℕ) (chunk : Bytes) :
    (buffer size chunk).takeWhile (· ≠ 0) = chunk.takeWhile (· ≠ 0) := by
  have hzeros : ∀ n, (List.replicate n (0 : UInt8)).takeWhile (· ≠ 0) = [] := by
    intro n
    cases n <;> simp [List.replicate_succ]
  rw [buffer, List.takeWhile_append, hzeros, List.append_nil]
  split_ifs with h
  · exact ((List.takeWhile_prefix _).eq_of_length h).symm
  · rfl

theorem mem_buffer {size : ℕ} {chunk : Bytes} :
    0 ∈ buffer size chunk ↔ 0 ∈ chunk ∨ chunk.length < size := by
  rw [buffer, List.mem_append, List.mem_replicate]
  simp [Nat.sub_ne_zero_iff_lt]

/-- **The string a read leaves in the buffer** is what it brought up to the first NUL; a read
that fills the buffer and brings no NUL leaves no string. -/
theorem cString_buffer {size : ℕ} {chunk s : Bytes} :
    cString (buffer size chunk) = some s ↔
      (0 ∈ chunk ∨ chunk.length < size) ∧ s = chunk.takeWhile (· ≠ 0) := by
  rw [cString, takeWhile_buffer, Option.ite_none_right_eq_some, mem_buffer, Option.some.injEq,
    eq_comm (a := s)]

/-- The string is the whole read exactly when the read has no NUL and does not fill the
buffer. -/
theorem cString_buffer_self {size : ℕ} {chunk : Bytes} :
    cString (buffer size chunk) = some chunk ↔ 0 ∉ chunk ∧ chunk.length < size := by
  rw [cString_buffer]
  constructor
  · rintro ⟨hz, hs⟩
    have hc : 0 ∉ chunk := by
      rw [hs]
      exact not_mem_takeWhile_ne 0 _
    exact ⟨hc, hz.resolve_left hc⟩
  · rintro ⟨hc, hlen⟩
    exact ⟨.inr hlen, (takeWhile_ne_eq_self hc).symm⟩

/-! ### Integers -/

/-- The `n` low bytes of `v`, the lowest first. -/
def le : ℕ → ℕ → Bytes
  | 0, _ => []
  | n + 1, v => v.toUInt8 :: le n (v / 256)

/-- The number whose bytes these are, the lowest first. -/
def ofLe : Bytes → ℕ
  | [] => 0
  | b :: s => b.toNat + 256 * ofLe s

@[simp] theorem length_le (n v : ℕ) : (le n v).length = n := by
  induction n generalizing v with
  | zero => rfl
  | succ n ih => simp [le, ih]

theorem ofLe_le (n v : ℕ) : ofLe (le n v) = v % 256 ^ n := by
  induction n generalizing v with
  | zero => simp [le, ofLe, Nat.mod_one]
  | succ n ih =>
      have hbyte : v.toUInt8.toNat = v % 256 := UInt8.toNat_ofNat'
      rw [le, ofLe, ih, hbyte, Nat.pow_succ', Nat.mod_mul]

theorem ofLe_lt (s : Bytes) : ofLe s < 256 ^ s.length := by
  induction s with
  | nil => exact Nat.one_pos
  | cons b s ih =>
      have hb := b.toNat_lt
      rw [ofLe, List.length_cons, Nat.pow_succ']
      omega

/-- The bytes of a number are its own. -/
theorem le_ofLe (s : Bytes) : le s.length (ofLe s) = s := by
  induction s with
  | nil => rfl
  | cons b s ih =>
      have hb := b.toNat_lt
      have hlow : (b.toNat + 256 * ofLe s).toUInt8 = b := by
        apply UInt8.toNat_inj.mp
        rw [Nat.toUInt8, UInt8.toNat_ofNat', Nat.add_mul_mod_self_left]
        exact Nat.mod_eq_of_lt hb
      have hrest : (b.toNat + 256 * ofLe s) / 256 = ofLe s := by omega
      rw [List.length_cons, ofLe, le, hlow, hrest, ih]

/-- The decimal digits of `n`. -/
def decimal (n : ℕ) : Bytes := (Nat.toDigits 10 n).map fun c => c.toNat.toUInt8

/-- A decimal digit is one byte. -/
theorem toNat_digit {n : ℕ} {c : Char} (h : c ∈ Nat.toDigits 10 n) :
    c.toNat.toUInt8.toNat = c.toNat ∧ 48 ≤ c.toNat ∧ c.toNat ≤ 57 := by
  have hdigit := Nat.isDigit_of_mem_toDigits (by decide) (by decide) h
  simp only [Char.isDigit, Bool.and_eq_true, decide_eq_true_eq] at hdigit
  have hlo : 48 ≤ c.toNat := hdigit.1
  have hhi : c.toNat ≤ 57 := hdigit.2
  refine ⟨?_, hlo, hhi⟩
  rw [Nat.toUInt8, UInt8.toNat_ofNat', Nat.mod_eq_of_lt]
  exact Nat.lt_of_le_of_lt hhi (by decide)

theorem mem_decimal {n : ℕ} {b : UInt8} (h : b ∈ decimal n) : 48 ≤ b ∧ b ≤ 57 := by
  obtain ⟨c, hc, rfl⟩ := List.mem_map.mp h
  obtain ⟨hc, hlo, hhi⟩ := toNat_digit hc
  rw [UInt8.le_iff_toNat_le, UInt8.le_iff_toNat_le, hc]
  exact ⟨hlo, hhi⟩

/-- The number written in these digits. -/
def ofDecimal (s : Bytes) : ℕ := s.foldl (fun n b => 10 * n + (b.toNat - 48)) 0

theorem ofDecimal_decimal (n : ℕ) : ofDecimal (decimal n) = n := by
  have hdigits : ∀ cs : List Char, (∀ c ∈ cs, c ∈ Nat.toDigits 10 n) → ∀ k,
      (cs.map fun c => c.toNat.toUInt8).foldl (fun n b => 10 * n + (b.toNat - 48)) k =
        Nat.ofDigitChars 10 cs k := by
    intro cs hcs
    induction cs with
    | nil => intro k; rfl
    | cons c cs ih =>
        intro k
        rw [List.map_cons, List.foldl_cons, (toNat_digit (hcs c (by simp))).1,
          ih fun d hd => hcs d (by simp [hd])]
        rfl
  rw [ofDecimal, decimal, hdigits _ fun _ h => h]
  exact Nat.ofDigitChars_ten_toDigits

/-- The value of a hexadecimal digit, of either case. -/
def hexDigit (d : UInt8) : Option ℕ :=
  if 48 ≤ d ∧ d ≤ 57 then some (d.toNat - 48)
  else if 65 ≤ d ∧ d ≤ 70 then some (d.toNat - 55)
  else if 97 ≤ d ∧ d ≤ 102 then some (d.toNat - 87)
  else none

/-! ### Separators -/

/-- `s` cut at the first `c`, if there is one. -/
def cutAt (c : UInt8) (s : Bytes) : Option (Bytes × Bytes) :=
  if c ∈ s then some (s.takeWhile (· ≠ c), (s.dropWhile (· ≠ c)).tail) else none

/-- The pieces are cut from the string and have no separator in them. -/
theorem mem_splitOn {c : UInt8} {s piece : Bytes} (h : piece ∈ s.splitOn c) :
    c ∉ piece ∧ piece ⊆ s := by
  induction s generalizing piece with
  | nil =>
      obtain rfl : piece = [] := by simpa using h
      exact ⟨List.not_mem_nil, List.Subset.refl _⟩
  | cons b s ih =>
      rw [List.splitOn_cons_eq_if_modifyHead] at h
      split_ifs at h with hb
      · rcases List.mem_cons.mp h with rfl | h
        · exact ⟨List.not_mem_nil, List.nil_subset _⟩
        · exact ⟨(ih h).1, List.subset_cons_of_subset b (ih h).2⟩
      · obtain ⟨p, ps, hp⟩ := List.exists_cons_of_ne_nil (List.splitOn_ne_nil c s)
        rw [hp, List.modifyHead_cons] at h
        rcases List.mem_cons.mp h with rfl | h
        · obtain ⟨hc, hs⟩ := ih (show p ∈ s.splitOn c by simp [hp])
          have hne : c ≠ b := fun hc => hb (by simp [hc])
          exact ⟨fun hm => (List.mem_cons.mp hm).elim hne hc, List.cons_subset_cons b hs⟩
        · obtain ⟨hc, hs⟩ := ih (show piece ∈ s.splitOn c by simp [hp, h])
          exact ⟨hc, List.subset_cons_of_subset b hs⟩

/-- There is one piece more than there are separators. -/
theorem length_splitOn (c : UInt8) (s : Bytes) : (s.splitOn c).length = s.count c + 1 := by
  induction s with
  | nil => rfl
  | cons b s ih =>
      rw [List.splitOn_cons_eq_if_modifyHead, List.count_cons]
      split_ifs with hb
      · rw [List.length_cons, ih]
      · rw [List.length_modifyHead, ih, Nat.add_zero]

/-- The occurrences of `from_` from left to right, each replaced by `to_`; `skip` bytes of the
last one are still to be passed over. -/
def replaceAux (from_ to_ : Bytes) : ℕ → Bytes → Bytes
  | _, [] => []
  | skip + 1, _ :: s => replaceAux from_ to_ skip s
  | 0, b :: s =>
      if from_.isPrefixOf (b :: s) then to_ ++ replaceAux from_ to_ (from_.length - 1) s
      else b :: replaceAux from_ to_ 0 s

/-- Every occurrence of `from_`, which is not empty, replaced by `to_`. -/
def replace (from_ to_ s : Bytes) : Bytes := replaceAux from_ to_ 0 s

/-- A byte of neither text stays where it was. -/
theorem mem_replaceAux {from_ to_ : Bytes} {c : UInt8} (hf : c ∉ from_) (ht : c ∉ to_)
    (hne : from_ ≠ []) (skip : ℕ) (s : Bytes) :
    c ∈ replaceAux from_ to_ skip s ↔ c ∈ s.drop skip := by
  induction s generalizing skip with
  | nil => simp [replaceAux]
  | cons b s ih =>
      cases skip with
      | succ skip => rw [replaceAux, ih, List.drop_succ_cons]
      | zero =>
          rw [replaceAux]
          split_ifs with hp
          · obtain ⟨rest, hrest⟩ := List.isPrefixOf_iff_prefix.mp hp
            have hdrop : s.drop (from_.length - 1) = rest := by
              obtain ⟨f, fs, rfl⟩ := List.exists_cons_of_ne_nil hne
              obtain ⟨-, rfl⟩ := List.cons.inj hrest
              exact List.drop_left
            rw [List.mem_append, ih, hdrop, List.drop_zero, ← hrest, List.mem_append]
            simp [hf, ht]
          · simp [ih]

theorem mem_replace {from_ to_ : Bytes} {c : UInt8} (hf : c ∉ from_) (ht : c ∉ to_)
    (hne : from_ ≠ []) (s : Bytes) : c ∈ replace from_ to_ s ↔ c ∈ s := by
  rw [replace, mem_replaceAux hf ht hne, List.drop_zero]

/-! ### Lines -/

/-- `s` is the lines `ls`, each ended by a newline. -/
def Lines (s : Bytes) (ls : List Bytes) : Prop :=
  (∀ l ∈ ls, 10 ∉ l) ∧ s = (ls.map (· ++ [10])).flatten

theorem Lines.count {s : Bytes} {ls : List Bytes} (h : Lines s ls) : s.count 10 = ls.length := by
  obtain ⟨hl, rfl⟩ := h
  induction ls with
  | nil => rfl
  | cons l ls ih =>
      have hone := List.count_eq_zero.mpr (hl l (by simp))
      have hrest := ih fun m hm => hl m (by simp [hm])
      simp [hone, hrest]

theorem Lines.splitOn {s : Bytes} {ls : List Bytes} (h : Lines s ls) :
    s.splitOn 10 = ls ++ [[]] := by
  obtain ⟨hl, rfl⟩ := h
  induction ls with
  | nil => rfl
  | cons l ls ih =>
      have hrest := ih fun m hm => hl m (by simp [hm])
      rw [List.map_cons, List.flatten_cons, List.append_assoc, List.singleton_append,
        List.splitOn_append_cons_self_of_not_mem (hl l (by simp)), hrest, List.cons_append]

/-- A text has only one list of lines. -/
theorem Lines.unique {s : Bytes} {ls ls' : List Bytes} (h : Lines s ls) (h' : Lines s ls') :
    ls = ls' :=
  List.append_cancel_right (h.splitOn.symm.trans h'.splitOn)

end Bytes

end AliMiddleware
