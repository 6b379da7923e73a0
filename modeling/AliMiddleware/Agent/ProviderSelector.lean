import AliMiddleware.Agent.EtcdService

/-!
# Agent — ProviderSelector

How the consumer agent learns of the provider agents.  Each provider agent appends
`name:port` to the list under the key `server` when it starts (`provider::agent::agent`,
`src/provider_agent.cc`); the constructor of `provider_selector` (`src/provider_selector.hpp`)
reads the list, makes a `provider_info` of every element that is not empty, and fills
`robin_queue` with pointers to them: one, two or three of each, by its name.  A pointer into
`providers` is an index.

Reading a port (`as<uint16_t>`) is a library's; `as` stands for it.

Reading undoes registering (`discover_register`).
-/

namespace AliMiddleware

open Bytes EtcdService

namespace Provider

/-- `"{}:{}"_format(my_addr, listen_port)` -/
def serverAddr (myAddr : Bytes) (listenPort : UInt16) : Bytes :=
  myAddr ++ 58 :: decimal listenPort.toNat

/-- The key `server` after `agent::agent` has run for these agents, one after another. -/
def register (stored : Option Bytes) (agents : List (Bytes × UInt16)) : Option Bytes :=
  agents.foldl (fun stored a => key.update stored (serverAddr a.1 a.2)) stored

end Provider

namespace Consumer

open Provider

/-- `provider_info`, as `provider_selector` sees it. -/
structure ProviderInfo where
  hostname : Bytes
  port : UInt16
  connpoolLatency : UInt32 := 1
  deriving DecidableEq, Repr

/-- `provider_selector`, with the `curr` of `query_once`, which the first call sets to
`begin()`. -/
structure ProviderSelector where
  providers : List ProviderInfo
  robinQueue : List ℕ
  curr : ℕ := 0
  queue_valid : ∀ p ∈ robinQueue, p < providers.length
  curr_le : curr ≤ robinQueue.length := by exact Nat.zero_le _
  deriving DecidableEq

/-- One round of the loop over `addr_list`. -/
def addProvider (as : Bytes → Except Exn UInt16) (providers : List ProviderInfo) (addr : Bytes) :
    Except Exn (List ProviderInfo) :=
  if addr = [] then .ok providers
  else
    match addr.splitOn 58 with
    | [host, portText] => do
        let port ← as portText
        pure (providers ++ [{ hostname := host, port := port }])
    | _ => .error (.runtimeError "Bad server_addr from etcd: `\x7b\x7d`." addr)

/-- One round of the loop over `providers`. -/
def pushProvider (robinQueue : List ℕ) (provider : ProviderInfo × ℕ) : Except Exn (List ℕ) :=
  if provider.1.hostname = ascii "provider-small" then .ok (robinQueue ++ [provider.2])
  else if provider.1.hostname = ascii "provider-medium" then
    .ok (robinQueue ++ [provider.2] ++ [provider.2])
  else if provider.1.hostname = ascii "provider-large" then
    .ok (robinQueue ++ [provider.2] ++ [provider.2] ++ [provider.2])
  else .error (.runtimeError "naive robin found unknown provider.")

/-- The loop over `providers`. -/
def fillQueue (providers : List ProviderInfo) : Except Exn (List ℕ) :=
  providers.zipIdx.foldlM pushProvider []

/-! ### The queue -/

/-- How many slots of the queue a provider of this name gets. -/
def weight (hostname : Bytes) : Option ℕ :=
  if hostname = ascii "provider-small" then some 1
  else if hostname = ascii "provider-medium" then some 2
  else if hostname = ascii "provider-large" then some 3
  else none

theorem weight_ne_none {hostname : Bytes} :
    weight hostname ≠ none ↔ hostname = ascii "provider-small" ∨
      hostname = ascii "provider-medium" ∨ hostname = ascii "provider-large" := by
  rw [weight]
  split_ifs <;> simp [*]

/-- Neither separator of the list is in a name that the selector knows. -/
theorem clean_of_known {hostname : Bytes} (h : weight hostname ≠ none) :
    58 ∉ hostname ∧ 124 ∉ hostname := by
  rcases weight_ne_none.mp h with rfl | rfl | rfl <;> decide

theorem weight_pos {hostname : Bytes} {w : ℕ} (h : weight hostname = some w) : 0 < w := by
  rw [weight] at h
  split_ifs at h <;> obtain rfl := Option.some.inj h <;> decide

/-- The slots of one provider. -/
def slots (provider : ProviderInfo × ℕ) : List ℕ :=
  List.replicate ((weight provider.1.hostname).getD 0) provider.2

theorem pushProvider_eq (robinQueue : List ℕ) (provider : ProviderInfo × ℕ) :
    pushProvider robinQueue provider =
      match weight provider.1.hostname with
      | some _ => .ok (robinQueue ++ slots provider)
      | none => .error (.runtimeError "naive robin found unknown provider.") := by
  simp only [pushProvider, slots, weight]
  split_ifs <;> simp [List.replicate]

theorem foldlM_pushProvider {robinQueue robinQueue' : List ℕ} {ps : List (ProviderInfo × ℕ)} :
    ps.foldlM pushProvider robinQueue = .ok robinQueue' ↔
      (∀ p ∈ ps, weight p.1.hostname ≠ none) ∧ robinQueue' = robinQueue ++ ps.flatMap slots := by
  induction ps generalizing robinQueue with
  | nil => simp [pure, Except.pure, eq_comm]
  | cons p ps ih =>
      rw [List.foldlM_cons, pushProvider_eq]
      cases hw : weight p.1.hostname with
      | none => simp [hw, bind, Except.bind]
      | some w => simp [hw, bind, Except.bind, ih]

/-- **The queue**: every provider has a known name, and its slots are together, in the order of
the providers. -/
theorem fillQueue_eq_ok {providers : List ProviderInfo} {robinQueue : List ℕ} :
    fillQueue providers = .ok robinQueue ↔
      (∀ p ∈ providers, weight p.hostname ≠ none) ∧
        robinQueue = providers.zipIdx.flatMap slots := by
  have hnames : (∀ p ∈ providers.zipIdx, weight p.1.hostname ≠ none) ↔
      ∀ p ∈ providers, weight p.hostname ≠ none := by
    constructor
    · intro h p hp
      obtain ⟨i, hi⟩ := List.mem_iff_getElem?.mp hp
      exact h (p, i) (List.mk_mem_zipIdx_iff_getElem?.mpr hi)
    · intro h q hq
      exact h q.1 (List.fst_mem_of_mem_zipIdx hq)
  rw [fillQueue, foldlM_pushProvider, hnames, List.nil_append]

theorem fillQueue_valid {providers : List ProviderInfo} {robinQueue : List ℕ}
    (h : fillQueue providers = .ok robinQueue) : ∀ p ∈ robinQueue, p < providers.length := by
  obtain ⟨-, rfl⟩ := fillQueue_eq_ok.mp h
  intro p hp
  obtain ⟨q, hq, hpq⟩ := List.mem_flatMap.mp hp
  obtain rfl := List.eq_of_mem_replicate hpq
  simpa using List.snd_lt_of_mem_zipIdx hq

/-! ### The constructor -/

/-- The constructor, once it has etcd's answer. -/
def providerSelector (as : Bytes → Except Exn UInt16) (resp : GetResponse) :
    Except Exn ProviderSelector := do
  let addrList ← getList resp
  let providers ← addrList.foldlM (addProvider as) []
  if providers = [] then
    throw (.runtimeError "No provider available. Unable to provide service...")
  match h : fillQueue providers with
  | .ok robinQueue =>
      pure { providers := providers, robinQueue := robinQueue, queue_valid := fillQueue_valid h }
  | .error e => throw e

/-- **What the constructor accepts, and what it makes of it.** -/
theorem providerSelector_eq_ok {as : Bytes → Except Exn UInt16} {resp : GetResponse}
    {sel : ProviderSelector} :
    providerSelector as resp = .ok sel ↔ ∃ addrList, getList resp = .ok addrList ∧
      addrList.foldlM (addProvider as) [] = .ok sel.providers ∧ sel.providers ≠ [] ∧
        fillQueue sel.providers = .ok sel.robinQueue ∧ sel.curr = 0 := by
  obtain ⟨providers, robinQueue, curr, hvalid, hcurr⟩ := sel
  simp only [providerSelector]
  cases hlist : getList resp with
  | error e => simp [bind, Except.bind]
  | ok addrList =>
      cases hps : addrList.foldlM (addProvider as) [] with
      | error e => simp [bind, Except.bind, hps]
      | ok ps =>
          simp only [bind, Except.bind, hps, Except.ok.injEq, exists_eq_left']
          by_cases hne : ps = []
          · simp only [hne, if_true, throw, throwThe, MonadExceptOf.throw, reduceCtorEq, false_iff]
            rintro ⟨rfl, hnil, -⟩
            exact hnil rfl
          · simp only [hne, if_false, pure, Except.pure]
            split
            · next queue hq =>
                constructor
                · intro h
                  obtain ⟨rfl, rfl, rfl⟩ : ps = providers ∧ queue = robinQueue ∧ 0 = curr := by
                    simpa using h
                  exact ⟨rfl, hne, hq, rfl⟩
                · rintro ⟨rfl, -, hq', rfl⟩
                  obtain rfl := Except.ok.inj (hq.symm.trans hq')
                  rfl
            · next e he =>
                simp only [throw, throwThe, MonadExceptOf.throw, reduceCtorEq, false_iff]
                rintro ⟨rfl, -, hq, -⟩
                cases he.symm.trans hq

/-! ### Discovery -/

section Discovery

variable {as : Bytes → Except Exn UInt16}

/-- Empty elements are passed over. -/
theorem foldlM_addProvider (addrs : List Bytes) (providers : List ProviderInfo) :
    addrs.foldlM (addProvider as) providers =
      (addrs.filter (· ≠ [])).foldlM (addProvider as) providers := by
  induction addrs generalizing providers with
  | nil => rfl
  | cons addr addrs ih =>
      by_cases ha : addr = []
      · subst ha
        simpa [addProvider, bind, Except.bind] using ih providers
      · have hbind : ∀ first : Except Exn (List ProviderInfo),
            (first >>= fun ps => addrs.foldlM (addProvider as) ps) =
              first >>= fun ps => (addrs.filter (· ≠ [])).foldlM (addProvider as) ps := by
          intro first
          simp only [ih]
        simpa [ha] using hbind (addProvider as providers addr)

/-- What an agent registers is read back. -/
theorem addProvider_serverAddr (has : ∀ port : UInt16, as (decimal port.toNat) = .ok port)
    {myAddr : Bytes} (hname : 58 ∉ myAddr) (port : UInt16) (providers : List ProviderInfo) :
    addProvider as providers (serverAddr myAddr port) =
      .ok (providers ++ [{ hostname := myAddr, port := port }]) := by
  have hport : 58 ∉ decimal port.toNat := by
    intro h
    exact absurd (mem_decimal h).2 (by decide)
  have hsplit : (serverAddr myAddr port).splitOn 58 = [myAddr, decimal port.toNat] := by
    rw [serverAddr, List.splitOn_append_cons_self_of_not_mem hname,
      List.splitOn_eq_singleton hport]
  have hne : serverAddr myAddr port ≠ [] := by simp [serverAddr]
  rw [addProvider, if_neg hne, hsplit]
  simp [has, bind, Except.bind, pure, Except.pure]

theorem foldlM_addProvider_serverAddr
    (has : ∀ port : UInt16, as (decimal port.toNat) = .ok port) {agents : List (Bytes × UInt16)}
    (hnames : ∀ a ∈ agents, 58 ∉ a.1) (providers : List ProviderInfo) :
    (agents.map fun a => serverAddr a.1 a.2).foldlM (addProvider as) providers =
      .ok (providers ++ agents.map fun a => { hostname := a.1, port := a.2 }) := by
  induction agents generalizing providers with
  | nil => simp [pure, Except.pure]
  | cons a agents ih =>
      rw [List.map_cons, List.foldlM_cons, addProvider_serverAddr has (hnames a (by simp))]
      have hrest := ih (fun b hb => hnames b (by simp [hb]))
        (providers ++ [{ hostname := a.1, port := a.2 }])
      simpa [bind, Except.bind] using hrest

theorem entry_serverAddr {myAddr : Bytes} (hname : 124 ∉ myAddr) (port : UInt16) :
    Entry (serverAddr myAddr port) := by
  have hport : 124 ∉ decimal port.toNat := by
    intro h
    exact absurd (mem_decimal h).2 (by decide)
  refine ⟨by simp [serverAddr], ?_⟩
  simp [serverAddr, hname, hport]

/-- The first loop of the constructor, after registrations. -/
theorem providers_register (has : ∀ port : UInt16, as (decimal port.toNat) = .ok port)
    {agents : List (Bytes × UInt16)} (hnames : ∀ a ∈ agents, 58 ∉ a.1 ∧ 124 ∉ a.1) :
    (listed (register none agents)).foldlM (addProvider as) [] =
      .ok (agents.map fun a => { hostname := a.1, port := a.2 }) := by
  have hall : ∀ addr ∈ agents.map fun a => serverAddr a.1 a.2, Entry addr := by
    intro addr haddr
    obtain ⟨a, ha, rfl⟩ := List.mem_map.mp haddr
    exact entry_serverAddr (hnames a ha).2 a.2
  have hstored : register none agents =
      (agents.map fun a => serverAddr a.1 a.2).foldl key.update none := by
    rw [register, List.foldl_map]
  have hentries : (listed (register none agents)).filter (· ≠ []) =
      agents.map fun a => serverAddr a.1 a.2 := by
    rw [hstored]
    exact entries_foldl_update none hall
  rw [foldlM_addProvider, hentries,
    foldlM_addProvider_serverAddr has fun a ha => (hnames a ha).1, List.nil_append]

end Discovery

/-- **Discovery undoes registration.**  The constructor finds the agents that registered, in the
order in which they did, and gives each one, two or three slots of the queue, by its name; it
throws when there is none, or one of another name. -/
theorem discover_register {as : Bytes → Except Exn UInt16}
    (has : ∀ port : UInt16, as (decimal port.toNat) = .ok port)
    {agents : List (Bytes × UInt16)} (hnames : ∀ a ∈ agents, 58 ∉ a.1 ∧ 124 ∉ a.1) :
    (agents ≠ [] ∧ (∀ a ∈ agents, a.1 = ascii "provider-small" ∨ a.1 = ascii "provider-medium" ∨
        a.1 = ascii "provider-large") →
      ∃ sel, providerSelector as (etcdGet (register none agents)) = .ok sel ∧
        sel.providers = agents.map (fun a => { hostname := a.1, port := a.2 }) ∧
        sel.robinQueue =
          agents.zipIdx.flatMap fun a => List.replicate ((weight a.1.1).getD 0) a.2) ∧
    (¬ (agents ≠ [] ∧ ∀ a ∈ agents, a.1 = ascii "provider-small" ∨
        a.1 = ascii "provider-medium" ∨ a.1 = ascii "provider-large") →
      ∃ e, providerSelector as (etcdGet (register none agents)) = .error e) := by
  have hlist := getList_etcdGet (register none agents)
  have hproviders := providers_register has hnames
  have hknown : (∀ a ∈ agents, a.1 = ascii "provider-small" ∨ a.1 = ascii "provider-medium" ∨
      a.1 = ascii "provider-large") ↔
      ∀ p ∈ agents.map (fun a => ({ hostname := a.1, port := a.2 } : ProviderInfo)),
        weight p.hostname ≠ none := by
    simp only [List.forall_mem_map, weight_ne_none]
  constructor
  · rintro ⟨hne, hall⟩
    have hslots : (agents.map fun a =>
        ({ hostname := a.1, port := a.2 } : ProviderInfo)).zipIdx.flatMap slots =
          agents.zipIdx.flatMap fun a => List.replicate ((weight a.1.1).getD 0) a.2 := by
      rw [List.zipIdx_map, List.flatMap_map]
      rfl
    have hqueue := fillQueue_eq_ok.mpr ⟨hknown.mp hall, hslots.symm⟩
    refine ⟨⟨_, _, 0, fillQueue_valid hqueue, Nat.zero_le _⟩, ?_, rfl, rfl⟩
    exact providerSelector_eq_ok.mpr ⟨_, hlist, hproviders, by simpa using hne, hqueue, rfl⟩
  · intro hbad
    cases hsel : providerSelector as (etcdGet (register none agents)) with
    | error e => exact ⟨e, rfl⟩
    | ok sel =>
        obtain ⟨addrList, ha, hps, hne, hq, -⟩ := providerSelector_eq_ok.mp hsel
        -- a constructor that returns has found just the agents that registered
        obtain rfl := Except.ok.inj (hlist.symm.trans ha)
        have hsame := Except.ok.inj (hproviders.symm.trans hps)
        refine absurd ⟨?_, hknown.mpr ?_⟩ hbad
        · rintro rfl
          exact hne hsame.symm
        · rw [hsame]
          exact (fillQueue_eq_ok.mp hq).1

/-- A reader of ports that reads digits. -/
def sampleAs (s : Bytes) : Except Exn UInt16 := .ok (ofDecimal s).toUInt16

theorem sampleAs_decimal (port : UInt16) : sampleAs (decimal port.toNat) = .ok port := by
  simp [sampleAs, ofDecimal_decimal]

/-- `discover_register` at two agents. -/
theorem discover_register_two : ∃ sel,
    providerSelector sampleAs (etcdGet (register none
      [(ascii "provider-medium", 30001), (ascii "provider-small", 30000)])) = .ok sel ∧
    sel.robinQueue = [0, 0, 1] := by
  obtain ⟨sel, hsel, -, hqueue⟩ := (discover_register sampleAs_decimal (by decide)).1
    (show [(ascii "provider-medium", (30001 : UInt16)), (ascii "provider-small", 30000)] ≠ [] ∧ _
      by decide)
  exact ⟨sel, hsel, hqueue⟩

end Consumer

end AliMiddleware
