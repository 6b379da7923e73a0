import AliMiddleware.Lib.TraceableList
import AliMiddleware.Support.Bytes
import AliMiddleware.Support.ReadModifyWrite
import Mathlib.Data.List.Perm.Subperm

/-!
# Agent — EtcdService

`etcd_service` (`src/etcd_service.hpp`, `src/etcd_service.cc`): a list of texts under one key of
etcd, joined by `|`.  `append` is a get followed by a set of the extended value; etcd executes
each of the two requests at once, and other requests may come between them.

The values under the key are a `Register` (`key`), and the appends of any number of agents are its
runs.  An append is lost exactly when some set does not find the value its get has read
(`kept_iff_fresh`).
-/

namespace AliMiddleware.EtcdService

open Bytes

/-! ### The requests -/

/-- etcd's answer to a get. -/
structure GetResponse where
  isOk : Bool
  errorMessage : Bytes := []
  value : Bytes := []

/-- etcd's answer to a set. -/
structure SetResponse where
  isOk : Bool
  errorMessage : Bytes := []
  prevValue : Bytes := []

def syncGet (resp : GetResponse) : Except Exn Bytes :=
  if !resp.isOk then
    if resp.errorMessage = ascii "Key not found" then .ok []
    else .error (.runtimeError "etcd_cli sync_get failed. \x7b\x7d" resp.errorMessage)
  else .ok resp.value

def syncSet (resp : SetResponse) : Except Exn Bytes :=
  if !resp.isOk then
    .error (.runtimeError "etcd_cli sync_set failed. \x7b\x7d" resp.errorMessage)
  else .ok resp.prevValue

/-- The value `append` sets, once `sync_get` has given `originVal`. -/
def extend (originVal value : Bytes) : Bytes :=
  (if originVal ≠ [] then originVal ++ [124] else originVal) ++ value

/-- `append`: what it has set, given etcd's answers to the get and to the set. -/
def append (got : GetResponse) (set : Bytes → SetResponse) (value : Bytes) : Except Exn Bytes := do
  let originVal ← syncGet got
  let newVal := extend originVal value
  let _ ← syncSet (set newVal)
  pure newVal

def getList (resp : GetResponse) : Except Exn (List Bytes) := do
  let got ← syncGet resp
  pure (got.splitOn 124)

/-! ### The key -/

/-- etcd's answer to a get of a key, which it may not have. -/
def etcdGet : Option Bytes → GetResponse
  | none => { isOk := false, errorMessage := ascii "Key not found" }
  | some value => { isOk := true, value := value }

/-- etcd's answer to a set of the key. -/
def etcdSet (stored : Option Bytes) : SetResponse := { isOk := true, prevValue := stored.getD [] }

/-- The key, as `append` reads and writes it: a write stores what `append` sets, once its get has
given `originVal`. -/
def key : Register (Option Bytes) Bytes Bytes where
  read stored := stored.getD []
  write originVal value :=
    (append (etcdGet (some originVal)) (fun _ => etcdSet (some originVal)) value).toOption

/-- The list under the key. -/
def listed (stored : Option Bytes) : List Bytes := (key.read stored).splitOn 124

@[simp] theorem key_write (originVal value : Bytes) :
    key.write originVal value = some (extend originVal value) := rfl

theorem syncGet_etcdGet (stored : Option Bytes) :
    syncGet (etcdGet stored) = .ok (key.read stored) := by
  cases stored <;> rfl

/-- `append` sets what a write of the key stores, whatever the set replaces. -/
theorem append_etcd (stored replaced : Option Bytes) (value : Bytes) :
    append (etcdGet stored) (fun _ => etcdSet replaced) value =
      .ok (extend (key.read stored) value) := by
  rw [append, syncGet_etcdGet]
  rfl

theorem getList_etcdGet (stored : Option Bytes) :
    getList (etcdGet stored) = .ok (listed stored) := by
  rw [getList, syncGet_etcdGet]
  rfl

/-- What can be told apart in the list: a text that is not empty and has no `|`. -/
def Entry (value : Bytes) : Prop := value ≠ [] ∧ 124 ∉ value

/-- The non-empty elements of the list in a text. -/
def entries (text : Bytes) : List Bytes := (text.splitOn 124).filter (· ≠ [])

/-- **Extending appends**: one more element, at the end. -/
theorem entries_extend (originVal : Bytes) {value : Bytes} (h : Entry value) :
    entries (extend originVal value) = entries originVal ++ [value] := by
  obtain ⟨hne, hsep⟩ := h
  have hone : value.splitOn 124 = [value] := List.splitOn_eq_singleton hsep
  by_cases ho : originVal = []
  · simp [entries, extend, ho, hone, hne]
  · simp [entries, extend, ho, List.splitOn_append_cons_self, hone, hne]

theorem entries_write (originVal : Bytes) {value : Bytes} (h : Entry value) :
    entries (key.read (key.write originVal value)) = entries originVal ++ [value] :=
  entries_extend originVal h

theorem length_entries_write (originVal : Bytes) {value : Bytes} (h : Entry value) :
    (entries (key.read (key.write originVal value))).length = (entries originVal).length + 1 := by
  rw [entries_write originVal h, List.length_append, List.length_singleton]

/-- Empty elements apart, a text occurs in the list as often as among the entries. -/
theorem count_entries {x : Bytes} (hx : x ≠ []) (text : Bytes) :
    (entries text).count x = (text.splitOn 124).count x := by
  rw [entries, List.count_filter]
  simpa using hx

/-! ### The appends of many agents -/

section Appends

variable {Tid : Type*} [DecidableEq Tid]

/-- **An append alone**: the get and the set of a run leave what `append` says it has set. -/
theorem append_run {s : Register.State (Option Bytes) Bytes Bytes Tid} {t : Tid}
    (h : s.pending t = none) (value : Bytes) :
    ∃ newVal, append (etcdGet s.value) (fun _ => etcdSet s.value) value = .ok newVal ∧
      Runs.run key.step s [.read t value, .write t] =
        some ⟨some newVal, s.pending, s.done ++ [value]⟩ :=
  ⟨_, append_etcd s.value s.value value, Register.run_update h value⟩

/-- Appends that come one after another keep every entry. -/
theorem entries_foldl_update (stored : Option Bytes) {values : List Bytes}
    (h : ∀ value ∈ values, Entry value) :
    entries (key.read (values.foldl key.update stored)) = entries (key.read stored) ++ values := by
  induction values generalizing stored with
  | nil => simp
  | cons value values ih =>
      rw [List.foldl_cons, ih _ fun v hv => h v (by simp [hv])]
      have hone : entries (key.read (key.update stored value)) =
          entries (key.read stored) ++ [value] := entries_write _ (h value (by simp))
      rw [hone, List.append_assoc, List.singleton_append]

/-- **No append is lost**, in any run of the gets and sets of any number of agents, exactly when
every set finds the value that its get has read. -/
theorem kept_iff_fresh {stored : Option Bytes} {acts : List (Register.Act Bytes Tid)}
    {s : Register.State (Option Bytes) Bytes Bytes Tid}
    (hvalues : ∀ t value, .read t value ∈ acts → value ≠ [] ∧ 124 ∉ value)
    (h : Runs.run key.step ⟨stored, fun _ => none, []⟩ acts = some s) :
    (∀ x ∈ s.done, (listed s.value).count x = (listed stored).count x + s.done.count x) ↔
      Runs.Meets key.step key.Fresh ⟨stored, fun _ => none, []⟩ acts := by
  have hacts : ∀ act ∈ acts, Register.Takes Entry act := by
    intro act hact
    cases act with
    | read t value => exact hvalues t value hact
    | write t => trivial
    | fail t => trivial
  have hdone : ∀ x ∈ s.done, Entry x := (Register.run_allowed hacts h).2
  obtain ⟨hkept, hlost⟩ :=
    Register.foldl_or_behind (m := fun a => (entries a).length) (P := Entry)
      (fun a _ => length_entries_write a) hdone h
  constructor
  · intro hcount
    by_contra hm
    refine absurd (hlost hm) (Nat.not_lt.mpr ?_)
    -- what was there stays there, so all of it is found again with what was appended
    have hold : entries (key.read stored) <+: entries (key.read s.value) := by
      refine Register.run_kept (P := Entry)
        (Q := fun a => entries (key.read stored) <+: entries a) ?_ (List.prefix_refl _) hdone h
      intro a b hb ha
      rw [entries_write a hb]
      exact ha.trans (List.prefix_append _ _)
    have hall : (entries (key.read stored) ++ s.done).Subperm (entries (key.read s.value)) := by
      rw [List.subperm_ext_iff]
      intro x _
      rw [List.count_append]
      by_cases hx : x ∈ s.done
      · have hne := (hdone x hx).1
        rw [count_entries hne, count_entries hne]
        exact Nat.le_of_eq (hcount x hx).symm
      · rw [List.count_eq_zero.mpr hx, Nat.add_zero]
        exact hold.sublist.count_le x
    simpa using hall.length_le
  · intro hm x hx
    have hne := (hdone x hx).1
    rw [listed, listed, ← count_entries hne, ← count_entries hne, hkept hm,
      entries_foldl_update stored hdone, List.count_append]

end Appends

/-- Two agents register, one after the other. -/
def sampleAppends : List (Register.Act Bytes ℕ) :=
  [.read 0 (ascii "provider-small:30000"), .write 0, .read 1 (ascii "provider-large:30000"),
   .write 1]

/-- `kept_iff_fresh` at these. -/
theorem kept_sampleAppends :
    ∃ s, Runs.run key.step ⟨none, fun _ => none, []⟩ sampleAppends = some s ∧
      ∀ x ∈ s.done, (listed s.value).count x = (listed none).count x + s.done.count x := by
  obtain ⟨s, hs⟩ : ∃ s, Runs.run key.step ⟨none, fun _ => none, []⟩ sampleAppends = some s :=
    ⟨_, rfl⟩
  refine ⟨s, hs, (kept_iff_fresh ?_ hs).mpr (by decide)⟩
  intro t value hact
  have hvalue : value ∈ [ascii "provider-small:30000", ascii "provider-large:30000"] := by
    simp only [sampleAppends, List.mem_cons, Register.Act.read.injEq, reduceCtorEq, false_or,
      List.not_mem_nil, or_false] at hact
    rcases hact with ⟨-, rfl⟩ | ⟨-, rfl⟩ <;> simp
  have hclean : ∀ v ∈ [ascii "provider-small:30000", ascii "provider-large:30000"],
      v ≠ [] ∧ 124 ∉ v := by decide
  exact hclean value hvalue

/-- **An append between the get and the set of another is lost.**  Both agents get before either
sets. -/
theorem not_kept : ∃ (acts : List (Register.Act Bytes ℕ))
    (s : Register.State (Option Bytes) Bytes Bytes ℕ),
    acts = [.read 0 (ascii "provider-small:30000"), .read 1 (ascii "provider-large:30000"),
      .write 0, .write 1] ∧
    Runs.run key.step ⟨none, fun _ => none, []⟩ acts = some s ∧ (∀ t, s.pending t = none) ∧
    ¬ ∀ x ∈ s.done, (listed s.value).count x = (listed none).count x + s.done.count x := by
  refine ⟨_, _, rfl, rfl, ?_, by decide⟩
  intro t
  by_cases h₁ : t = 1
  · simp [h₁]
  · by_cases h₀ : t = 0
    · simp [h₀]
    · simp [Function.update, h₀, h₁]

end AliMiddleware.EtcdService
