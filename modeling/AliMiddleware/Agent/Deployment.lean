import AliMiddleware.Agent.RoundRobin

/-!
# Agent — Deployment

The processes of a deployment, as `main` starts them (`src/main.cc`).  A process whose command
starts with `provider` is a provider agent: its constructor appends `command:listen_port` to the
list in etcd, in a get and a set between which those of other processes may come.  One whose
command is `consumer` reads the list and makes its `provider_selector`; any other ends.

`main` lets through provider names that no consumer knows, ones with a separator of the list among
them, and nothing holds the list between the get and the set.  So a consumer finds just the agents that have registered exactly when there are
some, each has a name that the selector knows, and each set found the list that its get had read
(`discovers_iff`).
-/

namespace AliMiddleware.Deployment

open Bytes EtcdService Provider Consumer

/-- What `main` makes of the command. -/
inductive Role where
  | provider
  | consumer
  /-- `help_and_exit` -/
  | unknown
  deriving DecidableEq, Repr

def role (whoami : Bytes) : Role :=
  if whoami.take 8 = ascii "provider" then .provider
  else if whoami = ascii "consumer" then .consumer
  else .unknown

/-- The options that the list in etcd depends on. -/
structure Options where
  whoami : Bytes
  listenPort : UInt16
  deriving DecidableEq

/-- What a provider agent appends. -/
def Options.addr (o : Options) : Bytes := serverAddr o.whoami o.listenPort

structure State (Pid : Type) where
  etcd : Register.State (Option Bytes) Bytes Bytes Pid := ⟨none, fun _ => none, []⟩
  /-- the provider agents between the get and the set -/
  starting : Pid → Option Options := fun _ => none
  /-- the provider agents that have registered, in the order of their sets -/
  registered : List Options := []

inductive Act (Pid : Type) where
  /-- a process starts; a provider agent gets the list, and so does a consumer agent -/
  | start (pid : Pid) (o : Options)
  /-- a provider agent sets the list -/
  | set (pid : Pid)
  /-- etcd refuses the set -/
  | fails (pid : Pid)

variable {Pid : Type} [DecidableEq Pid]

def step (s : State Pid) : Act Pid → Option (State Pid)
  | .start pid o =>
      match role o.whoami with
      | .provider => (key.step s.etcd (.read pid o.addr)).map fun e =>
          { s with etcd := e, starting := Function.update s.starting pid (some o) }
      | .consumer | .unknown => some s
  | .set pid =>
      (s.starting pid).bind fun o => (key.step s.etcd (.write pid)).map fun e =>
        { etcd := e
          starting := Function.update s.starting pid none
          registered := s.registered ++ [o] }
  | .fails pid =>
      (s.starting pid).bind fun _ => (key.step s.etcd (.fail pid)).map fun e =>
        { s with etcd := e, starting := Function.update s.starting pid none }

/-- The condition on a step: a set finds the list that its get has read. -/
def Fresh (s : State Pid) : Act Pid → Prop
  | .set pid => key.Fresh s.etcd (.write pid)
  | .start _ _ | .fails _ => True

instance (s : State Pid) (act : Act Pid) : Decidable (Fresh s act) :=
  match act with
  | .set pid => inferInstanceAs (Decidable (key.Fresh s.etcd (.write pid)))
  | .start _ _ | .fails _ => isTrue trivial

/-! ### The list in etcd -/

/-- The step as the list in etcd sees it. -/
def request : Act Pid → Option (Register.Act Bytes Pid)
  | .start pid o => if role o.whoami = .provider then some (.read pid o.addr) else none
  | .set pid => some (.write pid)
  | .fails pid => some (.fail pid)

theorem step_request (s : State Pid) (act : Act Pid) (s' : State Pid) (h : step s act = some s') :
    (request act = none ∧ s'.etcd = s.etcd ∧ Fresh s act) ∨
      ∃ b, request act = some b ∧ key.step s.etcd b = some s'.etcd ∧
        (Fresh s act ↔ key.Fresh s.etcd b) := by
  cases act with
  | start pid o =>
      cases hrole : role o.whoami with
      | provider =>
          simp only [step, hrole, Option.map_eq_some_iff] at h
          obtain ⟨e, he, rfl⟩ := h
          exact .inr ⟨_, by simp [request, hrole], he, Iff.rfl⟩
      | consumer | unknown =>
          simp only [step, hrole, Option.some.injEq] at h
          obtain rfl := h
          exact .inl ⟨by simp [request, hrole], rfl, trivial⟩
  | set pid =>
      simp only [step, Option.bind_eq_some_iff, Option.map_eq_some_iff] at h
      obtain ⟨o, -, e, he, rfl⟩ := h
      exact .inr ⟨_, rfl, he, Iff.rfl⟩
  | fails pid =>
      simp only [step, Option.bind_eq_some_iff, Option.map_eq_some_iff] at h
      obtain ⟨o, -, e, he, rfl⟩ := h
      exact .inr ⟨_, rfl, he, Iff.rfl⟩

/-- What the list in etcd knows of the agents, and what `main` let through. -/
structure Tracks (s : State Pid) : Prop where
  pending : ∀ pid p, s.etcd.pending pid = some p → ∃ o, s.starting pid = some o ∧ p.2 = o.addr
  done : s.etcd.done = s.registered.map Options.addr

/-- A process whose request is over. -/
theorem Tracks.over {s : State Pid} (hs : Tracks s) {pid pid' : Pid} {p : Bytes × Bytes}
    (hp : Function.update s.etcd.pending pid none pid' = some p) :
    ∃ o, Function.update s.starting pid none pid' = some o ∧ p.2 = o.addr := by
  by_cases hpid : pid' = pid
  · subst hpid
    simp at hp
  · rw [Function.update_of_ne hpid] at hp ⊢
    exact hs.pending pid' p hp

theorem tracks_step (s : State Pid) (act : Act Pid) (s' : State Pid) (hs : Tracks s)
    (h : step s act = some s') : Tracks s' := by
  cases act with
  | start pid o =>
      cases hrole : role o.whoami with
      | provider =>
          simp only [step, hrole, Option.map_eq_some_iff] at h
          obtain ⟨e, he, rfl⟩ := h
          cases hpending : s.etcd.pending pid with
          | some p => simp [Register.step, hpending] at he
          | none =>
              simp only [Register.step, hpending, Option.some.injEq] at he
              obtain rfl := he
              refine ⟨?_, hs.done⟩
              intro pid' p hp
              by_cases hpid : pid' = pid
              · subst hpid
                obtain rfl : _ = p := by simpa using hp
                exact ⟨o, by simp, rfl⟩
              · simp only [Function.update_of_ne hpid] at hp ⊢
                exact hs.pending pid' p hp
      | consumer | unknown =>
          simp only [step, hrole, Option.some.injEq] at h
          exact h ▸ hs
  | set pid =>
      simp only [step, Option.bind_eq_some_iff, Option.map_eq_some_iff] at h
      obtain ⟨o, ho, e, he, rfl⟩ := h
      cases hpending : s.etcd.pending pid with
      | none => simp [Register.step, hpending] at he
      | some p =>
          obtain ⟨originVal, value⟩ := p
          simp only [Register.step, hpending, Option.some.injEq] at he
          obtain rfl := he
          refine ⟨fun _ _ hp => hs.over hp, ?_⟩
          obtain ⟨o', ho', hvalue⟩ := hs.pending pid _ hpending
          obtain rfl : o = o' := Option.some.inj (ho.symm.trans ho')
          simp only [hs.done, List.map_append, List.map_cons, List.map_nil]
          rw [← hvalue]
  | fails pid =>
      simp only [step, Option.bind_eq_some_iff, Option.map_eq_some_iff] at h
      obtain ⟨o, -, e, he, rfl⟩ := h
      cases hpending : s.etcd.pending pid with
      | none => simp [Register.step, hpending] at he
      | some p =>
          simp only [Register.step, hpending, Option.some.injEq] at he
          obtain rfl := he
          exact ⟨fun _ _ hp => hs.over hp, hs.done⟩

theorem tracks_run {acts : List (Act Pid)} {s : State Pid}
    (h : Runs.run step {} acts = some s) : Tracks s :=
  Runs.run_invariant tracks_step
    ⟨fun _ _ hp => absurd hp (by simp), rfl⟩ h

/-! ### The providers a consumer finds -/

/-- An element of the list makes one provider at most. -/
theorem length_foldlM_addProvider {as : Bytes → Except Exn UInt16} {addrs : List Bytes}
    {ps ps' : List ProviderInfo} (h : addrs.foldlM (addProvider as) ps = .ok ps') :
    ps'.length ≤ ps.length + addrs.length := by
  induction addrs generalizing ps with
  | nil =>
      obtain rfl : ps = ps' := by simpa [pure, Except.pure] using h
      exact Nat.le_refl _
  | cons addr addrs ih =>
      rw [List.foldlM_cons] at h
      cases hone : addProvider as ps addr with
      | error e => simp [hone, bind, Except.bind] at h
      | ok ps₁ =>
          simp only [hone, bind, Except.bind] at h
          have hrest := ih h
          have hfirst : ps₁.length ≤ ps.length + 1 := by
            obtain rfl | ⟨host, port, rfl⟩ := addProvider_eq_ok hone
            · exact Nat.le_succ _
            · simp
          rw [List.length_cons]
          omega

/-- The provider that a registered agent is to the consumer. -/
def Options.info (o : Options) : ProviderInfo := { hostname := o.whoami, port := o.listenPort }

/-- What the list in etcd is after a run, where the agents that have registered have known names:
what their registrations make one after another, or it is too short, as every set of the run finds
the list that its get has read or not. -/
theorem value_or_behind {acts : List (Act Pid)} {s : State Pid}
    (hknown : ∀ o ∈ s.registered, weight o.whoami ≠ none)
    (h : Runs.run step {} acts = some s) :
    (Runs.Meets step Fresh {} acts → s.etcd.value =
        register none (s.registered.map fun o => (o.whoami, o.listenPort))) ∧
      (¬ Runs.Meets step Fresh {} acts →
        ((listed s.etcd.value).filter (· ≠ [])).length < s.registered.length) := by
  obtain ⟨hrun, hmeets⟩ := Runs.run_project step_request h
  have hdone := (tracks_run h).done
  have hentries : ∀ b ∈ s.etcd.done, Entry b := by
    rw [hdone, List.forall_mem_map]
    exact fun o ho => entry_serverAddr (clean_of_known (hknown o ho)).2 o.listenPort
  obtain ⟨hkept, hlost⟩ :=
    Register.foldl_or_behind (m := fun a => (entries a).length) (P := Entry)
      (fun a _ => length_entries_write a) hentries hrun
  constructor
  · intro hm
    rw [hkept (hmeets.mp hm), hdone, register, List.foldl_map, List.foldl_map]
    rfl
  · intro hm
    have hnone : (entries (key.read none)).length = 0 := rfl
    have hshort := hlost fun hm' => hm (hmeets.mpr hm')
    rwa [hnone, Nat.zero_add, hdone, List.length_map] at hshort

/-- **What a consumer agent finds.**  After any interleaving of the starts of processes, in which
some may fail, the `provider_selector` of a consumer that starts now is made and has just the
provider agents that have registered, in the order of their sets, exactly when there are some,
each has a name that the selector knows, and every set has found the list that its get had read.
`as` reads ports back. -/
theorem discovers_iff {as : Bytes → Except Exn UInt16}
    (has : ∀ port : UInt16, as (decimal port.toNat) = .ok port) {acts : List (Act Pid)}
    {s : State Pid} (h : Runs.run step {} acts = some s) :
    (∃ sel, providerSelector as (etcdGet s.etcd.value) = .ok sel ∧
        sel.providers = s.registered.map Options.info) ↔
      s.registered ≠ [] ∧ (∀ o ∈ s.registered, weight o.whoami ≠ none) ∧
        Runs.Meets step Fresh {} acts := by
  have hlist := getList_etcdGet s.etcd.value
  constructor
  · rintro ⟨sel, hsel, hproviders⟩
    obtain ⟨addrList, haddrs, hps, hne, hqueue, -⟩ := providerSelector_eq_ok.mp hsel
    obtain rfl := Except.ok.inj (hlist.symm.trans haddrs)
    have hknown : ∀ o ∈ s.registered, weight o.whoami ≠ none := by
      intro o ho
      have hmem : o.info ∈ sel.providers := hproviders ▸ List.mem_map_of_mem ho
      exact (fillQueue_eq_ok.mp hqueue).1 o.info hmem
    refine ⟨?_, hknown, ?_⟩
    · rintro hnil
      exact hne (by rw [hproviders, hnil]; rfl)
    · -- otherwise an agent that has registered is missing from the list
      by_contra hm
      have hshort := (value_or_behind hknown h).2 hm
      rw [foldlM_addProvider] at hps
      have hcount := length_foldlM_addProvider hps
      rw [hproviders, List.length_map, List.length_nil, Nat.zero_add] at hcount
      exact absurd hcount (Nat.not_le.mpr hshort)
  · rintro ⟨hne, hknown, hm⟩
    have hnames : ∀ a ∈ s.registered.map fun o => (o.whoami, o.listenPort),
        58 ∉ a.1 ∧ 124 ∉ a.1 :=
      List.forall_mem_map.mpr fun o ho => clean_of_known (hknown o ho)
    have hproviders := providers_register has hnames
    rw [← (value_or_behind hknown h).1 hm, List.map_map] at hproviders
    have hweights : ∀ p ∈ s.registered.map Options.info, weight p.hostname ≠ none :=
      List.forall_mem_map.mpr hknown
    have hqueue := fillQueue_eq_ok.mpr ⟨hweights, rfl⟩
    refine ⟨⟨_, _, 0, fillQueue_valid hqueue, Nat.zero_le _⟩, ?_, rfl⟩
    exact providerSelector_eq_ok.mpr ⟨_, hlist, hproviders, by simpa using hne, hqueue, rfl⟩

/-- Two provider agents register while a third fails to, and a consumer agent and a process with
another command start. -/
def sampleStarts : List (Act ℕ) :=
  [.start 1 ⟨ascii "provider-medium", 30001⟩, .start 2 ⟨ascii "consumer", 20000⟩, .set 1,
   .start 3 ⟨ascii "provider-large", 30002⟩, .start 4 ⟨ascii "server", 80⟩, .fails 3,
   .start 5 ⟨ascii "provider-small", 30000⟩, .set 5]

theorem discovers_sample : ∃ s, Runs.run step {} sampleStarts = some s ∧
    ∃ sel, providerSelector sampleAs (etcdGet s.etcd.value) = .ok sel ∧
      sel.providers = s.registered.map Options.info := by
  obtain ⟨s, hs, hregistered⟩ : ∃ s, Runs.run step {} sampleStarts = some s ∧
      s.registered =
        [⟨ascii "provider-medium", 30001⟩, ⟨ascii "provider-small", 30000⟩] := ⟨_, rfl, rfl⟩
  refine ⟨s, hs, (discovers_iff sampleAs_decimal hs).mpr ⟨?_, ?_, by decide⟩⟩
  · rw [hregistered]
    decide
  · rw [hregistered]
    decide

/-- **A name that `main` lets through keeps every consumer from starting.** -/
theorem unknown_name : ∃ s,
    Runs.run step ({} : State ℕ) [.start 1 ⟨ascii "provider-small", 30000⟩, .set 1,
        .start 2 ⟨ascii "provider-huge", 30000⟩, .set 2] = some s ∧
      ∃ e, providerSelector sampleAs (etcdGet s.etcd.value) = .error e :=
  ⟨_, rfl, _, rfl⟩

end AliMiddleware.Deployment
