import AliMiddleware.Agent.RoundRobin
import Mathlib.Algebra.BigOperators.Group.Finset.Basic
import Mathlib.Data.Finset.Lattice.Fold
import Mathlib.Order.Lattice.Nat

/-!
# Agent — Overload

How `provider_selector::query_once` (`src/provider_selector.hpp`) gets over an overload.  A call
that drops a request lowers the latency of the provider it looked at; nothing else writes to the
latencies here.  `overloads` is how many requests a latency can cost, and a call that drops one
takes exactly one from it (`queryOnce_steps`).  So the requests dropped in a run and what the
latencies can still cost add up to what they could cost at first (`calls_debt`), and once round
the queue takes one from every provider that costs anything (`calls_lap`).
-/

namespace AliMiddleware.Consumer

namespace ProviderSelector

/-- How many requests a provider of this latency costs before it is below the bound. -/
def overloads (latency : ℕ) : ℕ :=
  if latency < 10000 then 0
  else if latency ≤ 51427 then 1
  else 1 + overloads (latency - 51427)
termination_by latency

theorem overloads_eq_zero {latency : ℕ} : overloads latency = 0 ↔ latency < 10000 := by
  rw [overloads]
  split_ifs <;> simp [*]

/-- The subtraction does not wrap. -/
theorem toNat_lowered {currPoolLatency : UInt32} (h : 51427 < currPoolLatency) :
    (lowered currPoolLatency).toNat + 51427 = currPoolLatency.toNat := by
  have hle : (51427 : UInt32) ≤ currPoolLatency := UInt32.le_of_lt h
  rw [lowered, if_pos h, UInt32.toNat_sub_of_le _ _ hle]
  exact Nat.sub_add_cancel (UInt32.le_iff_toNat_le.mp hle)

theorem lowered_lt {currPoolLatency : UInt32} (h : ¬currPoolLatency < 10000) :
    lowered currPoolLatency < currPoolLatency := by
  rw [UInt32.lt_iff_toNat_lt] at h ⊢
  by_cases hlarge : 51427 < currPoolLatency
  · have hsub := toNat_lowered hlarge
    omega
  · rw [lowered, if_neg hlarge]
    exact Nat.lt_of_lt_of_le (by decide) (Nat.not_lt.mp h)

/-- One dropped request takes one from what the latency can cost. -/
theorem overloads_lowered {currPoolLatency : UInt32} (h : ¬currPoolLatency < 10000) :
    overloads (lowered currPoolLatency).toNat + 1 = overloads currPoolLatency.toNat := by
  rw [UInt32.lt_iff_toNat_lt] at h
  have hbound : ¬currPoolLatency.toNat < 10000 := h
  rw [overloads.eq_def currPoolLatency.toNat, if_neg hbound]
  by_cases hlarge : 51427 < currPoolLatency
  · have hsub := toNat_lowered hlarge
    have hnot : ¬currPoolLatency.toNat ≤ 51427 :=
      Nat.not_le.mpr (UInt32.lt_iff_toNat_lt.mp hlarge)
    rw [if_neg hnot, Nat.add_comm, ← hsub, Nat.add_sub_cancel]
  · have hle : currPoolLatency.toNat ≤ 51427 :=
      Nat.not_lt.mp fun hlt => hlarge (UInt32.lt_iff_toNat_lt.mpr hlt)
    have hone : (lowered currPoolLatency).toNat = 1 := by
      rw [lowered, if_neg hlarge]
      rfl
    rw [if_pos hle, hone, overloads_eq_zero.mpr (by decide)]

/-! ### One call -/

/-- What provider `p` can still cost. -/
def cost (s : ProviderSelector) (p : ℕ) : ℕ := overloads (s.latency p).toNat

/-- A call lowered the latency of the provider at the cursor, and moved the cursor on. -/
structure Lowers (s : ProviderSelector) (p : ℕ) (s' : ProviderSelector) : Prop where
  at_cursor : s.robinQueue[s.slot]? = some p
  queue : s'.robinQueue = s.robinQueue
  slot : s'.slot = (s.slot + 1) % s.robinQueue.length
  lower : s'.latency p < s.latency p
  /-- By exactly 51427, or to 1. -/
  value : (s'.latency p).toNat + 51427 = (s.latency p).toNat ∨
    s.latency p ≤ 51427 ∧ s'.latency p = 1
  others : ∀ q, q ≠ p → s'.latency q = s.latency q

theorem latency_setLatency {s : ProviderSelector} {p : ℕ} (hp : p < s.providers.length)
    (v : UInt32) : (s.setLatency p v).latency p = v := by
  simp [latency, setLatency, List.getElem?_eq_getElem hp]

theorem latency_setLatency_of_ne {s : ProviderSelector} {p q : ℕ} (h : q ≠ p) (v : UInt32) :
    (s.setLatency p v).latency q = s.latency q := by
  simp [latency, setLatency, h.symm]

/-- What a call does: it looks at the provider at the cursor, drops the request when that one
costs anything, and then takes one from what it costs. -/
structure Called (s : ProviderSelector) (p : ℕ) (result : Option ℕ) (s' : ProviderSelector) :
    Prop where
  at_cursor : s.robinQueue[s.slot]? = some p
  queue : s'.robinQueue = s.robinQueue
  slot : s'.slot = (s.slot + 1) % s.robinQueue.length
  dropped : result = none ↔ 0 < s.cost p
  lowers : result = none → s.Lowers p s'
  cost : s'.cost p = s.cost p - 1
  others : ∀ q, q ≠ p → s'.cost q = s.cost q

theorem queryOnce_called {s : ProviderSelector} (hne : s.robinQueue ≠ []) :
    ∃ result s' p, queryOnce.run s = .done result s' ∧ s.Called p result s' := by
  have h := slot_lt hne
  obtain ⟨p, hp⟩ : ∃ p, s.robinQueue[s.slot]? = some p := ⟨_, List.getElem?_eq_getElem h⟩
  have hrun := queryOnce_eq h hp
  by_cases hfree : s.latency p < 10000
  · -- the request is taken: the latency costs nothing and is not written
    rw [if_pos hfree] at hrun
    have hcost : s.cost p = 0 := overloads_eq_zero.mpr (UInt32.lt_iff_toNat_lt.mp hfree)
    refine ⟨_, _, p, hrun, hp, rfl, slot_advance h, ?_, fun hnone => (nomatch hnone), ?_,
      fun _ _ => rfl⟩
    · simp [hcost]
    · rw [hcost]
      exact hcost
  · -- the request is dropped: the latency pays one of what it can cost
    rw [if_neg hfree] at hrun
    have hvalid := s.queue_valid p (List.mem_of_getElem? hp)
    have hcost : s.cost p = overloads (lowered (s.latency p)).toNat + 1 :=
      (overloads_lowered hfree).symm
    have hafter : ((s.setLatency p (lowered (s.latency p))).moveTo (s.slot + 1) h).latency p =
        lowered (s.latency p) := latency_setLatency hvalid _
    have hothers : ∀ q, q ≠ p →
        ((s.setLatency p (lowered (s.latency p))).moveTo (s.slot + 1) h).latency q =
          s.latency q := fun q hq => latency_setLatency_of_ne hq _
    have hslot : ((s.setLatency p (lowered (s.latency p))).moveTo (s.slot + 1) h).slot =
        (s.slot + 1) % s.robinQueue.length := slot_advance h
    refine ⟨_, _, p, hrun, hp, rfl, hslot, ?_, fun _ => ⟨hp, rfl, hslot, ?_, ?_, hothers⟩, ?_, ?_⟩
    · simp [hcost]
    · rw [hafter]
      exact lowered_lt hfree
    · rw [hafter]
      by_cases hlarge : 51427 < s.latency p
      · exact .inl (toNat_lowered hlarge)
      · refine .inr ⟨UInt32.not_lt.mp hlarge, ?_⟩
        rw [lowered, if_neg hlarge]
    · rw [hcost, Nat.add_sub_cancel, cost, hafter]
    · intro q hq
      rw [cost, hothers q hq, cost]

/-! ### What is left to pay -/

/-- What the providers in the queue can still cost, each counted once. -/
def debt (s : ProviderSelector) : ℕ := ∑ p ∈ s.robinQueue.toFinset, s.cost p

/-- **One call pays for the request it drops.** -/
theorem Called.debt {s s' : ProviderSelector} {p : ℕ} {result : Option ℕ}
    (h : s.Called p result s') : [result].count none + s'.debt = s.debt := by
  have hmem : p ∈ s.robinQueue.toFinset :=
    List.mem_toFinset.mpr (List.mem_of_getElem? h.at_cursor)
  have hrest : ∑ q ∈ s.robinQueue.toFinset.erase p, s'.cost q =
      ∑ q ∈ s.robinQueue.toFinset.erase p, s.cost q :=
    Finset.sum_congr rfl fun q hq => h.others q (Finset.ne_of_mem_erase hq)
  rw [ProviderSelector.debt, ProviderSelector.debt, h.queue, ← Finset.add_sum_erase _ _ hmem,
    ← Finset.add_sum_erase _ _ hmem, hrest, h.cost]
  cases result with
  | none =>
      have hpos := h.dropped.mp rfl
      rw [List.count_singleton_self]
      omega
  | some q =>
      have hzero : s.cost p = 0 := by simpa using h.dropped
      rw [hzero]
      simp

/-- A call never adds to what a provider can cost. -/
theorem Called.cost_le {s s' : ProviderSelector} {p : ℕ} {result : Option ℕ}
    (h : s.Called p result s') (q : ℕ) : s'.cost q ≤ s.cost q := by
  by_cases hq : q = p
  · rw [hq, h.cost]
    exact Nat.sub_le _ _
  · exact Nat.le_of_eq (h.others q hq)

/-! ### A run of calls -/

/-- `n` calls and one more. -/
theorem calls_succ {s t : ProviderSelector} {n : ℕ} {results : List (Option ℕ)}
    (h : (calls n).run s = .done results t) :
    (calls (n + 1)).run s = (queryOnce >>= fun result => pure (results ++ [result])).run t := by
  rw [calls, Exec.run_bind_done h]

/-- What holds after `n` calls: every one returned, and what was dropped and what can still be
dropped add up to the debt at first. -/
structure Served (s : ProviderSelector) (n : ℕ) (results : List (Option ℕ))
    (t : ProviderSelector) : Prop where
  run : (calls n).run s = .done results t
  length : results.length = n
  queue : t.robinQueue = s.robinQueue
  slot : t.slot = (s.slot + n) % s.robinQueue.length
  debt : results.count none + t.debt = s.debt
  cost_le : ∀ p, t.cost p ≤ s.cost p

/-- **One more call.** -/
theorem Served.call {s t : ProviderSelector} {n : ℕ} {results : List (Option ℕ)}
    (h : s.Served n results t) (hne : s.robinQueue ≠ []) :
    ∃ result t' p, queryOnce.run t = .done result t' ∧ t.Called p result t' ∧
      s.Served (n + 1) (results ++ [result]) t' := by
  obtain ⟨result, t', p, hrun, hcall⟩ := queryOnce_called (s := t) (h.queue ▸ hne)
  refine ⟨result, t', p, hrun, hcall, ?_, ?_, hcall.queue.trans h.queue, ?_, ?_, ?_⟩
  · rw [calls_succ h.run, Exec.run_bind_done hrun]
    rfl
  · rw [List.length_append, h.length, List.length_singleton]
  · rw [hcall.slot, h.slot, h.queue, Nat.mod_add_mod, Nat.add_assoc]
  · rw [List.count_append, Nat.add_assoc, hcall.debt, h.debt]
  · exact fun q => (hcall.cost_le q).trans (h.cost_le q)

theorem calls_served {s : ProviderSelector} (hne : s.robinQueue ≠ []) (n : ℕ) :
    ∃ results t, s.Served n results t := by
  induction n with
  | zero =>
      refine ⟨[], s, rfl, rfl, rfl, ?_, Nat.zero_add _, fun _ => le_rfl⟩
      exact (Nat.mod_eq_of_lt (slot_lt hne)).symm
  | succ n ih =>
      obtain ⟨results, t, h⟩ := ih
      obtain ⟨result, t', p, -, -, hnext⟩ := h.call hne
      exact ⟨_, t', hnext⟩

theorem Served.unique {s t t' : ProviderSelector} {n : ℕ} {results results' : List (Option ℕ)}
    (h : s.Served n results t) (h' : s.Served n results' t') : results = results' ∧ t = t' := by
  cases h.run.symm.trans h'.run
  exact ⟨rfl, rfl⟩

/-- The call number `k` of a run, with the calls before it. -/
theorem Served.nth {s t : ProviderSelector} {n k : ℕ} {results : List (Option ℕ)}
    (h : s.Served n results t) (hne : s.robinQueue ≠ []) (hk : k < n) :
    ∃ t₁ result t₂ p, s.Served k (results.take k) t₁ ∧ queryOnce.run t₁ = .done result t₂ ∧
      t₁.Called p result t₂ ∧ results[k]? = some result := by
  induction n generalizing results t with
  | zero => exact absurd hk (Nat.not_lt_zero k)
  | succ n ih =>
      obtain ⟨before, t₁, hbefore⟩ := calls_served hne n
      obtain ⟨result, t₂, p, hrun, hcall, hnext⟩ := hbefore.call hne
      obtain ⟨rfl, rfl⟩ := h.unique hnext
      rcases Nat.lt_succ_iff_lt_or_eq.mp hk with hlt | rfl
      · obtain ⟨u₁, r, u₂, q, hu, hr, hq, hget⟩ := ih hbefore hlt
        have hlen : k < before.length := hbefore.length.symm ▸ hlt
        rw [List.take_append_of_le_length hlen.le, List.getElem?_append_left hlen]
        exact ⟨u₁, r, u₂, q, hu, hr, hq, hget⟩
      · have hlen := hbefore.length
        refine ⟨t₁, result, t, p, ?_, hrun, hcall, ?_⟩
        · rw [List.take_left' hlen]
          exact hbefore
        · rw [List.getElem?_append_right hlen.le, hlen, Nat.sub_self]
          rfl

/-- Later in the run a provider costs no more. -/
theorem Served.cost_mono {s t t' : ProviderSelector} {n d : ℕ}
    {results results' : List (Option ℕ)} (h : s.Served n results t)
    (h' : s.Served (n + d) results' t') (hne : s.robinQueue ≠ []) (p : ℕ) :
    t'.cost p ≤ t.cost p := by
  induction d generalizing results' t' with
  | zero => exact Nat.le_of_eq (congrArg (fun u => u.cost p) (h'.unique h).2)
  | succ d ih =>
      obtain ⟨before, u, hu⟩ := calls_served hne (n + d)
      obtain ⟨result, u', q, -, hcall, hnext⟩ := hu.call hne
      obtain ⟨-, rfl⟩ := h'.unique hnext
      exact (hcall.cost_le p).trans (ih hu)

/-- Going on from anywhere, the cursor is at any given slot within one round. -/
theorem exists_slot {len j : ℕ} (hj : j < len) (c : ℕ) : ∃ i, i < len ∧ (c + i) % len = j := by
  have hlt : c % len < len := Nat.mod_lt _ (Nat.zero_lt_of_lt hj)
  by_cases hle : c % len ≤ j
  · refine ⟨j - c % len, by omega, ?_⟩
    rw [← Nat.mod_add_mod, Nat.add_sub_cancel' hle, Nat.mod_eq_of_lt hj]
  · refine ⟨j + len - c % len, by omega, ?_⟩
    rw [← Nat.mod_add_mod, Nat.add_sub_cancel' (by omega), Nat.add_mod_right, Nat.mod_eq_of_lt hj]

/-- **Once round the queue** takes one from every provider in it that costs anything. -/
theorem calls_lap {s t t' : ProviderSelector} {n : ℕ} {results results' : List (Option ℕ)}
    (h : s.Served n results t) (h' : s.Served (n + s.robinQueue.length) results' t')
    (hne : s.robinQueue ≠ []) {p : ℕ} (hp : p ∈ s.robinQueue) : t'.cost p ≤ t.cost p - 1 := by
  obtain ⟨j, hj⟩ := List.mem_iff_getElem?.mp hp
  obtain ⟨hlt, -⟩ := List.getElem?_eq_some_iff.mp hj
  obtain ⟨i, hi, hslot⟩ := exists_slot hlt (s.slot + n)
  obtain ⟨before, u, hu⟩ := calls_served hne (n + i)
  obtain ⟨result, u', q, -, hcall, hnext⟩ := hu.call hne
  have hat : s.robinQueue[j]? = some q := by
    have hcursor := hcall.at_cursor
    rwa [hu.queue, hu.slot, ← Nat.add_assoc, hslot] at hcursor
  obtain rfl : p = q := Option.some.inj (hj.symm.trans hat)
  -- from the call that looked at it to the end of the round nothing is added
  obtain ⟨d, hd⟩ : ∃ d, n + s.robinQueue.length = n + i + 1 + d :=
    ⟨s.robinQueue.length - (i + 1), by omega⟩
  calc t'.cost p ≤ u'.cost p := hnext.cost_mono (hd ▸ h') hne p
    _ = u.cost p - 1 := hcall.cost
    _ ≤ t.cost p - 1 := Nat.sub_le_sub_right (h.cost_mono hu hne p) 1

/-- `m` times round the queue takes `m`. -/
theorem calls_laps {s t : ProviderSelector} {m : ℕ} {results : List (Option ℕ)}
    (h : s.Served (s.robinQueue.length * m) results t) (hne : s.robinQueue ≠ []) {p : ℕ}
    (hp : p ∈ s.robinQueue) : t.cost p ≤ s.cost p - m := by
  induction m generalizing results t with
  | zero => exact h.cost_le p
  | succ m ih =>
      obtain ⟨before, u, hu⟩ := calls_served hne (s.robinQueue.length * m)
      have hlap := calls_lap hu h hne hp
      have hlaps := ih hu
      omega

/-- **The selector gets over any overload.**  From any cursor and any latencies, every call of a
run returns.  Each one that drops its request lowers the latency of the provider at the cursor
and of no other, without wrapping, and moves the cursor on by one slot.  No more requests are
dropped than the providers in the queue cost, and none from the call on whose number is the
length of the queue times the most that one of them costs. -/
theorem calls_recover {s : ProviderSelector} (hne : s.robinQueue ≠ []) (n : ℕ) :
    ∃ results s', (calls n).run s = .done results s' ∧ results.length = n ∧
      (∀ k, results[k]? = some none → ∃ t t' p, (calls k).run s = .done (results.take k) t ∧
        queryOnce.run t = .done none t' ∧ t.Lowers p t') ∧
      results.count none ≤ ∑ p ∈ s.robinQueue.toFinset, overloads (s.latency p).toNat ∧
      ∀ k, s.robinQueue.length *
          s.robinQueue.toFinset.sup (fun p => overloads (s.latency p).toNat) ≤ k →
        results[k]? ≠ some none := by
  obtain ⟨results, s', h⟩ := calls_served hne n
  refine ⟨results, s', h.run, h.length, ?_, ?_, ?_⟩
  · intro k hk
    obtain ⟨hlt, -⟩ := List.getElem?_eq_some_iff.mp hk
    obtain ⟨t, result, t', p, ht, hrun, hcall, hresult⟩ := h.nth hne (h.length ▸ hlt)
    obtain rfl : result = none := Option.some.inj (hresult.symm.trans hk)
    exact ⟨t, t', p, ht.run, hrun, hcall.lowers rfl⟩
  · have hdebt := h.debt
    rw [debt] at hdebt
    exact Nat.le.intro hdebt
  · intro k hle hk
    obtain ⟨hlt, -⟩ := List.getElem?_eq_some_iff.mp hk
    obtain ⟨t, result, t', p, ht, -, hcall, hresult⟩ := h.nth hne (h.length ▸ hlt)
    obtain rfl : result = none := Option.some.inj (hresult.symm.trans hk)
    have hp : p ∈ s.robinQueue := ht.queue ▸ List.mem_of_getElem? hcall.at_cursor
    have hmost : s.cost p ≤
        s.robinQueue.toFinset.sup (fun p => overloads (s.latency p).toNat) :=
      Finset.le_sup (f := fun p => overloads (s.latency p).toNat) (List.mem_toFinset.mpr hp)
    obtain ⟨d, hd⟩ := Nat.exists_eq_add_of_le hle
    obtain ⟨before, u, hu⟩ := calls_served hne (s.robinQueue.length *
      s.robinQueue.toFinset.sup (fun p => overloads (s.latency p).toNat))
    have hzero : u.cost p = 0 :=
      Nat.eq_zero_of_le_zero ((calls_laps hu hne hp).trans (Nat.sub_eq_zero_of_le hmost).le)
    have hlater : t.cost p ≤ u.cost p := hu.cost_mono (hd ▸ ht) hne p
    exact absurd (hcall.dropped.mp rfl) (by omega)

/-- `calls_recover` with one provider of two overloaded. -/
theorem calls_recover_sample : ∃ results s',
    (calls 4).run sampleOverload = .done results s' ∧ results.count none ≤ 1 ∧
      ∀ k, 2 ≤ k → results[k]? ≠ some none := by
  have hbusy : overloads (sampleOverload.latency 0).toNat = 1 := by
    rw [overloads]
    decide
  have hidle : overloads (sampleOverload.latency 1).toNat = 0 := overloads_eq_zero.mpr (by decide)
  have hqueue : sampleOverload.robinQueue.toFinset = {0, 1} := by decide
  obtain ⟨results, s', hrun, -, -, hcount, hlate⟩ :=
    calls_recover (s := sampleOverload) (by decide) 4
  rw [hqueue, Finset.sum_pair (by decide), hbusy, hidle] at hcount
  rw [hqueue, Finset.sup_insert, Finset.sup_singleton, hbusy, hidle] at hlate
  exact ⟨results, s', hrun, hcount, hlate⟩

end ProviderSelector

end AliMiddleware.Consumer
