import AliMiddleware.Agent.ProviderSelector
import Mathlib.Data.List.Count
import Mathlib.Data.List.Rotate

/-!
# Agent — RoundRobin

`provider_selector::query_once` (`src/provider_selector.hpp`): which provider is asked next.  The
cursor `curr` stays between calls and may rest at `end()`; reading through it there, or moving it
on from there, is undefined.  The counted loop is meant to look for a provider whose
`connpool_latency` is below 10000, but no round of it moves the cursor, so every round looks at
the same provider (`queryOnce_eq`).

* While all latencies are 1, the calls go round the queue (`calls_roundRobin`).
* With any latencies, a call does what the loop is meant to do exactly when the provider at the
  cursor is below the bound, or none is (`queryOnce_iff_first`).
-/

namespace AliMiddleware.Consumer

open Bytes EtcdService

/-- Code that works on a `provider_selector`. -/
abbrev SelectorM := Exec ProviderSelector Exn

namespace ProviderSelector

/-- `connpool_latency` of a provider in the queue. -/
def latency (s : ProviderSelector) (p : ℕ) : UInt32 :=
  match s.providers[p]? with
  | some provider => provider.connpoolLatency
  | none => 0

/-- The cursor at a slot of the queue, or at its end. -/
def moveTo (s : ProviderSelector) (c : ℕ) (h : c ≤ s.robinQueue.length) : ProviderSelector :=
  { s with curr := c, curr_le := h }

def setLatency (s : ProviderSelector) (p : ℕ) (v : UInt32) : ProviderSelector :=
  { s with
    providers := s.providers.modify p fun provider => { provider with connpoolLatency := v }
    queue_valid := by simpa using s.queue_valid }

/-! ### The source -/

/-- `*curr` -/
def deref : SelectorM ℕ where
  run s := match s.robinQueue[s.curr]? with
    | some p => .done p s
    | none => .undefined

/-- `if (curr == robin_queue.end()) curr = robin_queue.begin();` -/
def wrap : SelectorM Unit :=
  Exec.modify fun s => if s.curr = s.robinQueue.length then s.moveTo 0 (Nat.zero_le _) else s

/-- `++curr` -/
def advance : SelectorM Unit where
  run s :=
    if h : s.curr < s.robinQueue.length then .done () (s.moveTo (s.curr + 1) h) else .undefined

/-- What a provider's latency becomes when a request is dropped at it. -/
def lowered (currPoolLatency : UInt32) : UInt32 :=
  if currPoolLatency > 51427 then currPoolLatency - 51427 else 1

/-- The loop, with this many rounds to go: the provider it returns, or the last latency it saw. -/
def search : ℕ → UInt32 → SelectorM (ℕ ⊕ UInt32)
  | 0, currPoolLatency => pure (.inr currPoolLatency)
  | rounds + 1, _ => do
      wrap
      let p ← deref
      let s ← Exec.get
      if s.latency p < 10000 then
        advance
        pure (.inl p)
      else search rounds (s.latency p)

/-- `query_once`; `none` is the null pointer. -/
def queryOnce : SelectorM (Option ℕ) := do
  let s ← Exec.get
  match ← search s.robinQueue.length 1 with
  | .inl p => pure (some p)
  | .inr currPoolLatency => do
      let p ← deref
      Exec.modify fun s => s.setLatency p (lowered currPoolLatency)
      advance
      pure none

/-! ### One call -/

/-- Where the cursor is after `wrap`. -/
def slot (s : ProviderSelector) : ℕ := if s.curr = s.robinQueue.length then 0 else s.curr

theorem slot_lt {s : ProviderSelector} (h : s.robinQueue ≠ []) : s.slot < s.robinQueue.length := by
  rw [slot]
  split_ifs with hc
  · exact List.length_pos_iff.mpr h
  · exact Nat.lt_of_le_of_ne s.curr_le hc

theorem slot_moveTo {s : ProviderSelector} {c : ℕ} (h : c < s.robinQueue.length) :
    (s.moveTo c h.le).slot = c := by
  rw [slot, if_neg]
  · rfl
  · exact Nat.ne_of_lt h

theorem wrap_run {s : ProviderSelector} (h : s.slot < s.robinQueue.length) :
    wrap.run s = .done () (s.moveTo s.slot h.le) := by
  by_cases hc : s.curr = s.robinQueue.length
  · simp [wrap, slot, hc]
  · simp [wrap, slot, hc, moveTo]

/-- A round of the loop looks at the provider at the cursor, and leaves the cursor there when
that one is overloaded. -/
theorem search_succ (rounds : ℕ) (currPoolLatency : UInt32) {s : ProviderSelector} {p : ℕ}
    (h : s.slot < s.robinQueue.length) (hp : s.robinQueue[s.slot]? = some p) :
    (search (rounds + 1) currPoolLatency).run s =
      if s.latency p < 10000 then .done (.inl p) (s.moveTo (s.slot + 1) h)
      else (search rounds (s.latency p)).run (s.moveTo s.slot h.le) := by
  have hderef : deref.run (s.moveTo s.slot h.le) = .done p (s.moveTo s.slot h.le) := by
    simp [deref, moveTo, hp]
  rw [search, Exec.run_bind_done (wrap_run h), Exec.run_bind_done hderef,
    Exec.run_bind_done (Exec.run_get _)]
  have hlat : (s.moveTo s.slot h.le).latency p = s.latency p := rfl
  rw [hlat]
  split_ifs with hfree
  · simp [advance, moveTo, h]
  · rfl

/-- **The loop**: all its rounds look at one provider. -/
theorem search_run (rounds : ℕ) (currPoolLatency : UInt32) {s : ProviderSelector} {p : ℕ}
    (h : s.slot < s.robinQueue.length) (hp : s.robinQueue[s.slot]? = some p) :
    (search (rounds + 1) currPoolLatency).run s =
      if s.latency p < 10000 then .done (.inl p) (s.moveTo (s.slot + 1) h)
      else .done (.inr (s.latency p)) (s.moveTo s.slot h.le) := by
  induction rounds generalizing s currPoolLatency with
  | zero =>
      rw [search_succ 0 currPoolLatency h hp]
      rfl
  | succ rounds ih =>
      rw [search_succ (rounds + 1) currPoolLatency h hp]
      by_cases hfree : s.latency p < 10000
      · rw [if_pos hfree, if_pos hfree]
      · have hslot := slot_moveTo h
        have h' : (s.moveTo s.slot h.le).slot < (s.moveTo s.slot h.le).robinQueue.length :=
          hslot.symm ▸ h
        have hp' : (s.moveTo s.slot h.le).robinQueue[(s.moveTo s.slot h.le).slot]? = some p :=
          hslot.symm ▸ hp
        have hlat : (s.moveTo s.slot h.le).latency p = s.latency p := rfl
        rw [if_neg hfree, if_neg hfree, ih _ h' hp', hlat, if_neg hfree]
        simp only [hslot]
        rfl

/-- **One call**: the provider at the cursor, when it is not overloaded; otherwise nothing, and
its latency is lowered.  The cursor moves on by one. -/
theorem queryOnce_eq {s : ProviderSelector} {p : ℕ} (h : s.slot < s.robinQueue.length)
    (hp : s.robinQueue[s.slot]? = some p) :
    queryOnce.run s =
      if s.latency p < 10000 then .done (some p) (s.moveTo (s.slot + 1) h)
      else .done none ((s.setLatency p (lowered (s.latency p))).moveTo (s.slot + 1) h) := by
  obtain ⟨rounds, hrounds⟩ := Nat.exists_eq_succ_of_ne_zero (Nat.ne_of_gt (Nat.zero_lt_of_lt h))
  have hsearch := search_run rounds 1 h hp
  rw [queryOnce, Exec.run_bind_done (Exec.run_get s), hrounds]
  by_cases hfree : s.latency p < 10000
  · rw [if_pos hfree] at hsearch ⊢
    rw [Exec.run_bind_done hsearch]
    rfl
  · rw [if_neg hfree] at hsearch ⊢
    have hderef : deref.run (s.moveTo s.slot h.le) = .done p (s.moveTo s.slot h.le) := by
      simp [deref, moveTo, hp]
    rw [Exec.run_bind_done hsearch, Exec.run_bind_done hderef]
    simp [advance, moveTo, setLatency, h]

/-! ### Any latencies -/

/-- The first provider, in cyclic order from the cursor, that is not overloaded. -/
def firstFree (s : ProviderSelector) : Option ℕ :=
  (s.robinQueue.drop s.curr ++ s.robinQueue.take s.curr).find? fun p => s.latency p < 10000

/-- The cyclic order starts at the slot the loop looks at. -/
theorem head_cyclic (s : ProviderSelector) :
    (s.robinQueue.drop s.curr ++ s.robinQueue.take s.curr).head? = s.robinQueue[s.slot]? := by
  rw [slot]
  split_ifs with hc
  · rw [hc, List.drop_length, List.take_length, List.nil_append, List.head?_eq_getElem?]
  · have hlt : s.curr < s.robinQueue.length := Nat.lt_of_le_of_ne s.curr_le hc
    have hne : s.robinQueue.drop s.curr ≠ [] := by simpa using hlt
    rw [List.head?_append_of_ne_nil _ hne, List.head?_drop]

theorem mem_cyclic {s : ProviderSelector} {p : ℕ} :
    p ∈ s.robinQueue.drop s.curr ++ s.robinQueue.take s.curr ↔ p ∈ s.robinQueue := by
  have hsplit := List.take_append_drop s.curr s.robinQueue
  constructor
  · intro h
    rw [← hsplit]
    exact List.mem_append.mpr (List.mem_append.mp h).symm
  · intro h
    rw [← hsplit] at h
    exact List.mem_append.mpr (List.mem_append.mp h).symm

/-- **A request is dropped only when every provider is overloaded**, and goes to the first one
that is not, exactly when the provider at the cursor is not overloaded or all are. -/
theorem queryOnce_iff_first {s : ProviderSelector} (hne : s.robinQueue ≠ []) :
    ((∀ p, firstFree s = some p →
        ∃ s', queryOnce.run s = .done (some p) s' ∧ s'.providers = s.providers) ∧
      (∀ s', queryOnce.run s = .done none s' → ∀ p ∈ s.robinQueue, 10000 ≤ s.latency p)) ↔
    (∃ p, s.robinQueue[s.slot]? = some p ∧ s.latency p < 10000) ∨
      ∀ p ∈ s.robinQueue, 10000 ≤ s.latency p := by
  have h := slot_lt hne
  obtain ⟨p, hp⟩ : ∃ p, s.robinQueue[s.slot]? = some p := ⟨_, List.getElem?_eq_getElem h⟩
  have hrun := queryOnce_eq h hp
  constructor
  · rintro ⟨-, hdropped⟩
    by_cases hfree : s.latency p < 10000
    · exact .inl ⟨p, hp, hfree⟩
    · rw [if_neg hfree] at hrun
      exact .inr (hdropped _ hrun)
  · rintro (⟨q, hq, hfree⟩ | hall)
    · obtain rfl : p = q := Option.some.inj (hp.symm.trans hq)
      rw [if_pos hfree] at hrun
      refine ⟨?_, ?_⟩
      · intro r hr
        obtain ⟨rest, hrest⟩ := List.head?_eq_some_iff.mp ((head_cyclic s).trans hp)
        have hfirst : firstFree s = some p := by
          rw [firstFree, hrest, List.find?_cons_of_pos]
          simpa using hfree
        obtain rfl : p = r := Option.some.inj (hfirst.symm.trans hr)
        exact ⟨_, hrun, rfl⟩
      · intro s' hs'
        cases hrun.symm.trans hs'
    · refine ⟨?_, fun _ _ => hall⟩
      intro r hr
      -- no provider is free, so there is no first one
      have hmem := mem_cyclic.mp (List.mem_of_find?_eq_some hr)
      have hfree := List.find?_some hr
      simp only [decide_eq_true_eq] at hfree
      exact absurd (hall r hmem) (UInt32.not_le.mpr hfree)

/-- The first of two providers is overloaded, the second is idle. -/
def sampleOverload : ProviderSelector where
  providers := [⟨ascii "provider-small", 30000, 20000⟩, ⟨ascii "provider-large", 30000, 1⟩]
  robinQueue := [0, 1]
  queue_valid := by decide

/-- `queryOnce_iff_first` with the cursor at the idle provider. -/
theorem queryOnce_first_sample :
    ∃ s', queryOnce.run (sampleOverload.moveTo 1 (by decide)) = .done (some 1) s' := by
  have hmeets := (queryOnce_iff_first (s := sampleOverload.moveTo 1 (by decide)) (by decide)).mpr
    (.inl ⟨1, by decide, by decide⟩)
  obtain ⟨s', hrun, -⟩ := hmeets.1 1 (by decide)
  exact ⟨s', hrun⟩

/-- **A request is dropped while a provider is idle.** -/
theorem not_queryOnce_first : firstFree sampleOverload = some 1 ∧
    ∃ s', queryOnce.run sampleOverload = .done none s' ∧ sampleOverload.latency 1 < 10000 :=
  ⟨by decide, _, rfl, by decide⟩

/-! ### Calls one after another -/

/-- The results of `n` calls. -/
def calls : ℕ → SelectorM (List (Option ℕ))
  | 0 => pure []
  | n + 1 => do
      let results ← calls n
      let result ← queryOnce
      pure (results ++ [result])

theorem slot_advance {s : ProviderSelector} (h : s.slot < s.robinQueue.length) :
    (s.moveTo (s.slot + 1) h).slot = (s.slot + 1) % s.robinQueue.length := by
  by_cases hend : s.slot + 1 = s.robinQueue.length
  · have hcurr : (s.moveTo (s.slot + 1) h).curr =
        (s.moveTo (s.slot + 1) h).robinQueue.length := hend
    rw [slot, if_pos hcurr, hend, Nat.mod_self]
  · have hlt : s.slot + 1 < s.robinQueue.length := Nat.lt_of_le_of_ne h hend
    rw [Nat.mod_eq_of_lt hlt]
    exact slot_moveTo hlt

/-- **The calls go round the queue**, while no provider is overloaded. -/
theorem calls_run {s : ProviderSelector} (hne : s.robinQueue ≠ []) (hstart : s.slot = 0)
    (hfree : ∀ p ∈ s.robinQueue, s.latency p < 10000) (n : ℕ) :
    ∃ s', (calls n).run s =
        .done ((List.range n).map fun k => s.robinQueue[k % s.robinQueue.length]?) s' ∧
      s'.providers = s.providers ∧ s'.robinQueue = s.robinQueue ∧
      s'.slot = n % s.robinQueue.length := by
  induction n with
  | zero => exact ⟨s, rfl, rfl, rfl, by simpa using hstart⟩
  | succ n ih =>
      obtain ⟨t, ht, hprov, hqueue, hslot⟩ := ih
      have hlt : t.slot < t.robinQueue.length := slot_lt (hqueue ▸ hne)
      obtain ⟨p, hp⟩ : ∃ p, t.robinQueue[t.slot]? = some p := ⟨_, List.getElem?_eq_getElem hlt⟩
      have hlat : t.latency p < 10000 := by
        have hsame : t.latency p = s.latency p := by simp only [latency, hprov]
        rw [hsame]
        exact hfree p (hqueue ▸ List.mem_of_getElem? hp)
      have hone := queryOnce_eq hlt hp
      rw [if_pos hlat] at hone
      refine ⟨t.moveTo (t.slot + 1) hlt, ?_, hprov, hqueue, ?_⟩
      · have hresult : some p = s.robinQueue[n % s.robinQueue.length]? := by
          rw [← hp, hqueue, hslot]
        rw [calls, Exec.run_bind_done ht, Exec.run_bind_done hone, List.range_succ, List.map_append,
          hresult]
        rfl
      · rw [slot_advance hlt, hqueue, hslot, Nat.mod_add_mod]

/-! ### Windows -/

/-- Any `l.length` rounds of going round `l`, one after another, are `l` from some element on. -/
theorem window_eq_rotate (l : List ℕ) {n m : ℕ} (h : m + l.length ≤ n) :
    (((List.range n).map fun k => l[k % l.length]?).drop m).take l.length =
      (l.rotate m).map some := by
  refine List.ext_getElem? fun k => ?_
  by_cases hk : k < l.length
  · have hmk : m + k < n := by omega
    rw [List.getElem?_take_of_lt hk, List.getElem?_drop, List.getElem?_map, List.getElem?_map,
      List.getElem?_range hmk, List.getElem?_rotate hk, Option.map_some, Nat.add_comm m k]
    have hin : (k + m) % l.length < l.length := Nat.mod_lt _ (Nat.zero_lt_of_lt hk)
    rw [List.getElem?_eq_getElem hin, Option.map_some]
  · rw [List.getElem?_eq_none, List.getElem?_eq_none]
    · simpa using hk
    · simp only [List.length_take]
      omega

theorem count_window (l : List ℕ) {n m : ℕ} (h : m + l.length ≤ n) (i : ℕ) :
    ((((List.range n).map fun k => l[k % l.length]?).drop m).take l.length).count (some i) =
      l.count i := by
  rw [window_eq_rotate l h, List.count_map_of_injective _ _ fun _ _ => Option.some.inj,
    (List.rotate_perm l m).count_eq]

end ProviderSelector

/-- How often a provider is in the queue. -/
theorem count_slots {providers : List ProviderInfo} {i : ℕ} {provider : ProviderInfo}
    (h : providers[i]? = some provider) (k : ℕ) :
    ((providers.zipIdx k).flatMap slots).count (k + i) =
      (weight provider.hostname).getD 0 := by
  induction providers generalizing i k with
  | nil => simp at h
  | cons p ps ih =>
      rw [List.zipIdx_cons, List.flatMap_cons, List.count_append]
      cases i with
      | zero =>
          obtain rfl : p = provider := by simpa using h
          -- the providers after the first have larger indices
          have hlater : ((ps.zipIdx (k + 1)).flatMap slots).count k = 0 := by
            rw [List.count_eq_zero, List.mem_flatMap]
            rintro ⟨q, hq, hk⟩
            have hle := List.le_snd_of_mem_zipIdx hq
            obtain rfl := List.eq_of_mem_replicate hk
            omega
          rw [Nat.add_zero, hlater, slots, List.count_replicate_self, Nat.add_zero]
      | succ i =>
          have hfirst : (slots (p, k)).count (k + (i + 1)) = 0 := by
            rw [List.count_eq_zero]
            intro hk
            have he := List.eq_of_mem_replicate hk
            simp at he
          have hrest := ih (by simpa using h) (k + 1)
          rw [hfirst, Nat.zero_add, ← hrest]
          congr 1
          omega

theorem length_slots (providers : List ProviderInfo) (k : ℕ) :
    ((providers.zipIdx k).flatMap slots).length =
      (providers.map fun p => (weight p.hostname).getD 0).sum := by
  induction providers generalizing k with
  | nil => rfl
  | cons p ps ih => simp [slots, ih]

/-! ### The constructor's queue -/

/-- A round of the loop adds a new provider at most. -/
theorem addProvider_eq_ok {as : Bytes → Except Exn UInt16} {ps ps' : List ProviderInfo}
    {addr : Bytes} (h : addProvider as ps addr = .ok ps') :
    ps' = ps ∨ ∃ host port, ps' = ps ++ [{ hostname := host, port := port }] := by
  rw [addProvider] at h
  split_ifs at h with haddr
  · exact .inl (Except.ok.inj h).symm
  · split at h
    · next host portText hsplit =>
        cases hport : as portText with
        | error e => simp [hport, bind, Except.bind] at h
        | ok port =>
            simp only [hport, bind, Except.bind, pure, Except.pure] at h
            exact .inr ⟨host, port, (Except.ok.inj h).symm⟩
    · cases h

/-- A provider starts with latency 1. -/
theorem addProvider_fresh {as : Bytes → Except Exn UInt16} {addrs : List Bytes}
    {ps ps' : List ProviderInfo} (h : addrs.foldlM (addProvider as) ps = .ok ps')
    (hps : ∀ p ∈ ps, p.connpoolLatency = 1) : ∀ p ∈ ps', p.connpoolLatency = 1 := by
  induction addrs generalizing ps with
  | nil =>
      obtain rfl : ps = ps' := by simpa [pure, Except.pure] using h
      exact hps
  | cons addr addrs ih =>
      rw [List.foldlM_cons] at h
      cases hone : addProvider as ps addr with
      | error e => simp [hone, bind, Except.bind] at h
      | ok ps₁ =>
          simp only [hone, bind, Except.bind] at h
          refine ih h ?_
          obtain rfl | ⟨host, port, rfl⟩ := addProvider_eq_ok hone
          · exact hps
          · intro p hp
            rcases List.mem_append.mp hp with hp | hp
            · exact hps p hp
            · obtain rfl := List.mem_singleton.mp hp
              rfl

section Constructed

variable {as : Bytes → Except Exn UInt16} {resp : GetResponse} {sel : ProviderSelector}

/-- Each provider is in the queue as often as its weight says. -/
theorem weight_eq_count (h : providerSelector as resp = .ok sel) {i : ℕ}
    {provider : ProviderInfo} (hi : sel.providers[i]? = some provider) :
    weight provider.hostname = some (sel.robinQueue.count i) := by
  obtain ⟨-, -, -, -, hqueue, -⟩ := providerSelector_eq_ok.mp h
  obtain ⟨hknown, hslots⟩ := fillQueue_eq_ok.mp hqueue
  have hcount := count_slots hi 0
  rw [Nat.zero_add, ← hslots] at hcount
  rw [hcount]
  cases hw : weight provider.hostname with
  | none => exact absurd hw (hknown provider (List.mem_of_getElem? hi))
  | some w => rfl

theorem robinQueue_ne_nil (h : providerSelector as resp = .ok sel) : sel.robinQueue ≠ [] := by
  obtain ⟨-, -, -, hne, -⟩ := providerSelector_eq_ok.mp h
  intro hnil
  obtain ⟨p, ps, hps⟩ := List.exists_cons_of_ne_nil hne
  have hfirst : sel.providers[0]? = some p := by simp [hps]
  have hzero := weight_eq_count h hfirst
  rw [hnil, List.count_nil] at hzero
  exact absurd (weight_pos hzero) (Nat.lt_irrefl 0)

/-- No provider is overloaded at first. -/
theorem latency_new (h : providerSelector as resp = .ok sel) :
    ∀ p ∈ sel.robinQueue, sel.latency p = 1 := by
  obtain ⟨_, -, hproviders, -⟩ := providerSelector_eq_ok.mp h
  have hlatency := addProvider_fresh hproviders fun p hp => absurd hp List.not_mem_nil
  intro p hp
  have hlt := sel.queue_valid p hp
  rw [ProviderSelector.latency, List.getElem?_eq_getElem hlt]
  exact hlatency _ (List.getElem_mem hlt)

theorem slot_new (h : providerSelector as resp = .ok sel) : sel.slot = 0 := by
  obtain ⟨-, -, -, -, -, hcurr⟩ := providerSelector_eq_ok.mp h
  rw [ProviderSelector.slot, hcurr]
  split_ifs <;> rfl

end Constructed

/-- **Exact weighted round robin.**  With a list of providers that the constructor accepts, calls
one after another go round its queue: every one of them gives a provider, and every window of as
many calls as the weights add up to gives each provider as often as its weight says. -/
theorem calls_roundRobin {as : Bytes → Except Exn UInt16} {resp : GetResponse}
    {sel : ProviderSelector} (h : providerSelector as resp = .ok sel) (n : ℕ) :
    ∃ results s', (ProviderSelector.calls n).run sel = .done results s' ∧
      results = (List.range n).map (fun k => sel.robinQueue[k % sel.robinQueue.length]?) ∧
      none ∉ results ∧
      sel.robinQueue.length = (sel.providers.map fun p => (weight p.hostname).getD 0).sum ∧
      ∀ m i provider, m + sel.robinQueue.length ≤ n → sel.providers[i]? = some provider →
        weight provider.hostname =
          some (((results.drop m).take sel.robinQueue.length).count (some i)) := by
  have hqne := robinQueue_ne_nil h
  have hfree : ∀ p ∈ sel.robinQueue, sel.latency p < 10000 := by
    intro p hp
    rw [latency_new h p hp]
    decide
  obtain ⟨s', hrun, -⟩ := ProviderSelector.calls_run hqne (slot_new h) hfree n
  refine ⟨_, s', hrun, rfl, ?_, ?_, ?_⟩
  · rw [List.mem_map]
    rintro ⟨k, -, hk⟩
    have hlt : k % sel.robinQueue.length < sel.robinQueue.length :=
      Nat.mod_lt _ (List.length_pos_iff.mpr hqne)
    simp [List.getElem?_eq_getElem hlt] at hk
  · obtain ⟨-, -, -, -, hqueue, -⟩ := providerSelector_eq_ok.mp h
    rw [(fillQueue_eq_ok.mp hqueue).2]
    exact length_slots sel.providers 0
  · intro m i provider hm hi
    rw [ProviderSelector.count_window sel.robinQueue hm]
    exact weight_eq_count h hi

/-- `calls_roundRobin` at two providers, over two rounds of the queue. -/
theorem calls_roundRobin_two : ∃ sel s',
    providerSelector sampleAs (etcdGet (some (ascii "provider-medium:1|provider-small:2"))) =
      .ok sel ∧
    (ProviderSelector.calls 6).run sel =
      .done [some 0, some 0, some 1, some 0, some 0, some 1] s' := by
  obtain ⟨sel, hsel, hqueue⟩ : ∃ sel, providerSelector sampleAs
      (etcdGet (some (ascii "provider-medium:1|provider-small:2"))) = .ok sel ∧
        sel.robinQueue = [0, 0, 1] := ⟨_, rfl, rfl⟩
  obtain ⟨results, s', hrun, hresults, -⟩ := calls_roundRobin hsel 6
  rw [hqueue] at hresults
  subst hresults
  exact ⟨sel, s', hsel, hrun⟩

end AliMiddleware.Consumer
