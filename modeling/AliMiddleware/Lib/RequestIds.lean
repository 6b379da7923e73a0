import AliMiddleware.Lib.DubboClient
import AliMiddleware.Support.Tickets

/-!
# Lib — RequestIds

The request ids of `dubbo_client`.  `sync_request` and `async_request` take theirs in two steps:
`header.request_id = curr_request_id`, an atomic load, and then `curr_request_id += 1`, an atomic
addition modulo 2 ^ 64.  Neither yields in between, so on one thread, where
`provider::agent::listen` runs its `io_context`, a call is through with both before the next one
comes; threads that share a client may come between.
-/

namespace AliMiddleware.DubboClient

open Tickets

variable {Tid : Type} [DecidableEq Tid]

/-- What the constructor gives `curr_request_id`. -/
def firstRequestId : UInt64 := 0x1998427

/-- `curr_request_id += 1` -/
def nextRequestId (currRequestId : UInt64) : UInt64 := currRequestId + 1

/-- Any number of calls taking their ids: `read` is the load and `raise` the addition. -/
def takeId (s : Tickets UInt64 Tid) (act : Act Tid) : Option (Tickets UInt64 Tid) :=
  Tickets.step nextRequestId s act

/-- The id after `n` additions. -/
theorem iterate_nextRequestId (first : UInt64) (n : ℕ) :
    nextRequestId^[n] first = first + UInt64.ofNat n := by
  induction n with
  | zero => simp
  | succ n ih =>
      rw [Function.iterate_succ_apply', ih, nextRequestId, UInt64.ofNat_add, UInt64.add_assoc]
      rfl

/-- The ids repeat after 2 ^ 64 of them. -/
theorem firsts_nodup_iff (first : UInt64) (n : ℕ) :
    (firsts nextRequestId first n).Nodup ↔ n ≤ 2 ^ 64 := by
  rw [firsts, List.nodup_map_iff_inj_on List.nodup_range]
  simp only [List.mem_range, iterate_nextRequestId, UInt64.add_right_inj]
  constructor
  · intro hinj
    by_contra hgt
    have hzero := hinj 0 (by omega) (2 ^ 64) (by omega) (by rfl)
    omega
  · intro hle i hi j hj heq
    have htoNat := congrArg UInt64.toNat heq
    rw [UInt64.toNat_ofNat', UInt64.toNat_ofNat'] at htoNat
    rwa [Nat.mod_eq_of_lt (by omega), Nat.mod_eq_of_lt (by omega)] at htoNat

/-- **Request ids.**  In every interleaving of the loads and additions of any number of calls: the
ids are pairwise different exactly when there are at most 2 ^ 64 of them and every call loads while
no other is between its load and its addition; and then the `i`-th call to load, counted from 0,
gets `0x1998427 + i`. -/
theorem request_ids_distinct_iff {acts : List (Act Tid)} {s : Tickets UInt64 Tid}
    (h : Runs.run takeId (init firstRequestId) acts = some s) :
    (s.numbers.Nodup ↔
      s.taken.length ≤ 2 ^ 64 ∧ Runs.Meets takeId Alone (init firstRequestId) acts) ∧
    (Runs.Meets takeId Alone (init firstRequestId) acts →
      ∀ i, i < s.taken.length → s.numbers[i]? = some (0x1998427 + UInt64.ofNat i)) := by
  obtain ⟨hall, hrepeated⟩ := taken_or_repeated h
  constructor
  · by_cases hm : Runs.Meets takeId Alone (init firstRequestId) acts
    · rw [hall hm, firsts_nodup_iff]
      exact ⟨fun hlen => ⟨hlen, hm⟩, And.left⟩
    · exact ⟨fun hnodup => absurd hnodup (hrepeated hm), fun hc => absurd hc.2 hm⟩
  · intro hm i hi
    rw [hall hm, firsts, List.getElem?_map, List.getElem?_range hi, Option.map_some,
      iterate_nextRequestId]
    rfl

/-- `request_ids_distinct_iff` at three calls, the first of which is through before the others
load, at once. -/
theorem request_ids_distinct_sample : ∃ s,
    Runs.run takeId (init firstRequestId)
      [.read 1, .raise 1, .read 2, .read 3, .raise 3, .raise 2] = some s ∧
    s.numbers = [0x1998427, 0x1998428, 0x1998428] ∧ ¬ s.numbers.Nodup := by
  obtain ⟨s, hs, hnumbers⟩ : ∃ s, Runs.run takeId (init firstRequestId)
      [.read 1, .raise 1, .read 2, .read 3, .raise 3, .raise 2] = some s ∧
      s.numbers = [0x1998427, 0x1998428, 0x1998428] := ⟨_, rfl, rfl⟩
  refine ⟨s, hs, hnumbers, ?_⟩
  rw [(request_ids_distinct_iff hs).1]
  rintro ⟨-, hm⟩
  revert hm
  decide

/-- On one thread the ids of any 2 ^ 64 calls are different. -/
theorem request_ids_serial {ts : List Tid} (hts : ts.length ≤ 2 ^ 64) :
    ∃ s, Runs.run takeId (init firstRequestId) (oneByOne ts) = some s ∧
      s.taken.map Prod.fst = ts ∧ s.numbers.Nodup := by
  have hstart : (init firstRequestId : Tickets UInt64 Tid).between = [] := rfl
  obtain ⟨hm, s, hrun, -, htaken⟩ := run_oneByOne ts hstart
  refine ⟨s, hrun, htaken, ?_⟩
  have hlength : s.taken.length = ts.length := by
    rw [← List.length_map Prod.fst, htaken]
    rfl
  rw [(taken_or_repeated hrun).1 hm, hlength, firsts_nodup_iff]
  exact hts

end AliMiddleware.DubboClient
