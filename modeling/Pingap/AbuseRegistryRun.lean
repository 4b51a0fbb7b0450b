import Pingap.AbuseRegistryCells

/-!
# Runs of the abuse registry

The registry with the world around it: the tickets it has handed out, the
listings that are under way, and a record of what was observed, activated and
asked for, which no operation reads. A run is any interleaving of lock holds.
`cell_origin` says where a cell that stands after a step came from; the
invariants of runs below are derived from it.
-/

namespace AbuseRegistryRun

open MachineArith AbuseScenario AbuseRegistry List Option Registry
open AbuseRegistry.Registry (Listing NativeRelease clientKey watchesLogin pathKey)
open DomainStore (HostPolicy)
open EventQueue (NativeActor)

structure Issue where
  ticket : Ticket
  method : String
  path : String
deriving DecidableEq

structure Observation where
  time : Nat
  issue : Issue
  status : Nat
  localDenial : Bool

/-- The registry, the tickets and listings in flight, and the record of the run:
the observations made, the profiles ever activated, the namespaces ever asked for. -/
structure Sys where
  registry : Registry
  issued : List Issue
  listings : List Listing
  observations : List Observation
  activated : List ScenarioProfile
  namespaces : List String

def Sys.start (r : Registry) : Sys := ⟨r, [], [], [], [], []⟩

/-- One lock hold. An observation names the ticket by its place among those
handed out, a further lock hold of a listing names the listing. -/
inductive Action where
  | admitClient (ns : String) (expected : Option String) (domain identity method path : String)
  | observe (i : Nat) (status : Nat) (localDenial : Bool)
  | release (ns domain identity id : String) (actor : NativeActor)
  | activate (profiles : List ScenarioProfile) (retained : List String)
  | retainHosts (hosts : HostPolicy)
  | startListing (profile domain : Option String) (after limit : Nat)
  | stepListing (i : Nat)

structure Event where
  now : Nat
  action : Action

inductive Answer where
  | admission (answer : Admission)
  | evidence (answer : Evidence)
  | release (answer : NativeRelease)
  | done
deriving DecidableEq

/-- The ticket an admission handed out, with its request. -/
def issueOf (method path : String) : Admission → List Issue
  | .allowed (some t) => [⟨t, method, path⟩]
  | _ => []

theorem mem_issueOf :
    i ∈ issueOf method path a ↔ a = .allowed (some i.ticket) ∧ i.method = method ∧ i.path = path := by
  obtain ⟨t, m, p⟩ := i
  cases a with
  | allowed ticket =>
    cases ticket with
    | none => simp [issueOf]
    | some t' => simp only [issueOf, mem_singleton, Issue.mk.injEq, Admission.allowed.injEq,
        Option.some.injEq, eq_comm]
  | _ => simp [issueOf]

/-- A step of the run. The request plugin passes a host as registered exactly
when its label is not the one of the overflow. -/
def step (sha256 : String → Digest) (s : Sys) (e : Event) : Answer × Sys :=
  match e.action with
  | .admitClient ns expected domain identity method path =>
    let out := s.registry.admitExpected sha256 e.now ns expected domain identity method path
      (domain != DomainStore.OVERFLOW_NAME)
    (.admission out.1, { s with
      registry := out.2
      issued := s.issued ++ issueOf method path out.1
      namespaces := s.namespaces ++ [ns] })
  | .observe i status localDenial =>
    match s.issued[i]? with
    | none => (.done, s)
    | some issue =>
      let out := s.registry.observe e.now issue.ticket status localDenial
      (.evidence out.1, { s with
        registry := out.2
        observations := s.observations ++ [⟨e.now, issue, status, localDenial⟩] })
  | .release ns domain identity id actor =>
    let out := Registry.releaseAs sha256 s.registry e.now ns domain identity id actor
    (.release out.1, { s with registry := out.2 })
  | .activate profiles retained =>
    (.done, { s with
      registry := s.registry.activateWithRetained e.now profiles retained
      activated := s.activated ++ profiles })
  | .retainHosts hosts => (.done, { s with registry := s.registry.retainHosts e.now hosts })
  | .startListing profile domain after limit =>
    (.done, { s with
      listings := s.listings ++ [s.registry.startListing e.now profile domain after limit] })
  | .stepListing i =>
    match s.listings[i]? with
    | none => (.done, s)
    | some l =>
      let out := s.registry.stepListing e.now l
      (.done, { s with registry := out.2, listings := s.listings.set i out.1 })

def run (sha256 : String → Digest) (s : Sys) (es : List Event) : Sys :=
  Trace.final (step sha256) s es

theorem run_append (sha256 : String → Digest) (s : Sys) (es fs : List Event) :
    run sha256 s (es ++ fs) = run sha256 (run sha256 s es) fs :=
  Trace.final_append (step sha256) s es fs

def Sys.cell (s : Sys) (d k : String) : Option Client := s.registry.cell d k

/-! ## Where a cell comes from -/

/-- How the cell `c'` under `d` and `k` came about in a step from `s`. -/
inductive Origin (sha256 : String → Digest) (s : Sys) (e : Event) (d k : String) (c' : Client) :
    Prop where
  | kept (c : Client) (hc : s.cell d k = some c) (x : Nat) (h : c' = { c with idleAt := x })
  | settled (c : Client) (hc : s.cell d k = some c) (time x : Nat)
      (ht : time = e.now ∨ ∃ l ∈ s.listings, l.now = time)
      (h : c' = { c.settled time with idleAt := x })
  | fresh (ns : String) (hns : ns ∈ (step sha256 s e).2.namespaces) (profile : ScenarioProfile)
      (hp : s.registry.profiles.lookup ns = some profile) (identity : String)
      (hk : k = clientKey sha256 ns identity)
      (h : Fresh s.registry.incarnation (step sha256 s e).2.registry.incarnation ns
        profile.generation c')
  | observed (issue : Issue) (hi : issue ∈ s.issued) (status : Nat) (profile : ScenarioProfile)
      (c : Client) (ht : issue.ticket.domain = d ∧ issue.ticket.key = k)
      (hp : s.registry.profiles.lookup issue.ticket.ns = some profile)
      (hg : profile.generation = issue.ticket.generation) (hc : s.cell d k = some c)
      (ho : (step sha256 s e).2.observations =
        s.observations ++ [⟨e.now, issue, status, false⟩])
      (h : c' = (s.registry.observeClient profile issue.ticket status e.now c).1)
  | released (c : Client) (hc : s.cell d k = some c) (id : String)
      (h : c' = (Registry.releaseClient e.now id c).1)

section origin

variable {sha256 : String → Digest} {s : Sys} {now : Nat} {d k : String} {c' : Client}

variable (sha256) in
theorem admission_step (hl : s.registry.Lasting) (now : Nat) (ns : String)
    (expected : Option String) (domain identity method path : String) :
    AdmissionStep sha256 now s.registry ns domain identity method path
      (s.registry.admitExpected sha256 now ns expected domain identity method path
        (domain != DomainStore.OVERFLOW_NAME)) :=
  admitExpected_step hl ns expected domain identity method path _

/-- A cell that stands after an operation which kept all cells stood before. -/
theorem kept_of_same (ho : o' = some c')
    (h : o' = s.cell d k ∨ (u64Max ≤ e.now ∧ o' = none)) : Origin sha256 s e d k c' := by
  rcases h with h | ⟨-, h⟩
  · exact .kept c' (h ▸ ho) c'.idleAt rfl
  · rw [h] at ho; cases ho

theorem origin_of_tended {made : Client → Prop} (hmade : ∀ f, made f → Origin sha256 s e d k f)
    (h : Tended e.now made (s.cell d k) (some c')) : Origin sha256 s e d k c' := by
  generalize ho : s.cell d k = o at h
  cases h with
  | same => exact .kept c' ho c'.idleAt rfl
  | idle c x => exact .kept c ho x rfl
  | settled c x => exact .settled c ho e.now x (.inl rfl) rfl
  | fresh _ _ hf _ => exact hmade c' hf

theorem cell_origin (hl : s.registry.Lasting)
    (h : (step sha256 s e).2.cell d k = some c') : Origin sha256 s e d k c' := by
  obtain ⟨now, action⟩ := e
  cases action with
  | admitClient ns expected domain identity method path =>
    have hcell := (admission_step sha256 hl now ns expected domain identity method path).cells d k
    simp only [Sys.cell, step] at h
    rw [h] at hcell
    refine origin_of_tended (fun f hf => ?_) hcell
    obtain ⟨profile, ip, hp, hk, hfresh⟩ := hf
    exact .fresh ns (by simp [step]) profile hp (IpText.display ip) hk hfresh
  | observe i status localDenial =>
    simp only [Sys.cell, step] at h
    cases hi : s.issued[i]? with
    | none =>
      simp only [hi] at h
      exact .kept c' h c'.idleAt rfl
    | some issue =>
      simp only [hi] at h
      rcases observe_cases hl now issue.ticket status localDenial with ⟨-, hsame⟩ | ⟨hld, profile, c, hf⟩
      · exact kept_of_same h (hsame d k)
      by_cases hdk : d = issue.ticket.domain ∧ k = issue.ticket.key
      · obtain ⟨rfl, rfl⟩ := hdk
        rw [hf.after] at h
        refine .observed issue (mem_of_getElem? hi) status profile c ⟨rfl, rfl⟩ hf.inForce
          hf.generation hf.before ?_ (Option.some.inj h).symm
        simp [step, hi, hld]
      · rw [hf.others d k hdk] at h
        exact .kept c' h c'.idleAt rfl
  | release ns domain identity id actor =>
    simp only [Sys.cell, step] at h
    rcases release_cases hl sha256 now ns domain identity id actor with ⟨-, hsame⟩ | ⟨c, hf⟩
    · exact kept_of_same h (hsame d k)
    by_cases hdk : d = domain ∧ k = releaseKey sha256 ns identity
    · obtain ⟨rfl, rfl⟩ := hdk
      rw [hf.after] at h
      exact .released c hf.before id (Option.some.inj h).symm
    · rw [hf.others d k hdk] at h
      exact .kept c' h c'.idleAt rfl
  | activate profiles retained =>
    simp only [Sys.cell, step] at h
    rcases activate_cell hl now profiles retained d k with ha | ⟨-, ha⟩
    · rw [ha] at h
      exact .kept c' (filter_eq_some_iff.mp h).1 c'.idleAt rfl
    · rw [ha] at h; cases h
  | retainHosts hosts =>
    simp only [Sys.cell, step, retainHosts_cell] at h
    split at h
    · cases h
    · exact .kept c' h c'.idleAt rfl
  | startListing profile domain after limit => exact .kept c' h c'.idleAt rfl
  | stepListing i =>
    simp only [Sys.cell, step] at h
    cases hi : s.listings[i]? with
    | none =>
      simp only [hi] at h
      exact .kept c' h c'.idleAt rfl
    | some l =>
      simp only [hi] at h
      rcases (stepListing_listed hl now l).cells d k with hc | hc | ⟨-, hc⟩
      · rw [hc] at h; exact .kept c' h c'.idleAt rfl
      · rw [hc] at h
        obtain ⟨c, hcell, rfl⟩ := map_eq_some_iff.mp h
        exact .settled c hcell l.now (c.settled l.now).idleAt
          (.inr ⟨l, mem_of_getElem? hi, rfl⟩) rfl
      · rw [hc] at h; cases h

end origin

/-! ## Lineage -/

/-- The same client one step later: its reset goes up only when a ban is lifted
from it, and while it does not, a ban stays. -/
structure Lineage (c c' : Client) : Prop where
  ns : c'.ns = c.ns
  generation : c'.generation = c.generation
  incarnation : c'.incarnation = c.incarnation
  reset : c'.reset = c.reset ∨ (c'.reset = c.reset + 1 ∧ c.ban.isSome)
  ban : c'.reset = c.reset → c.ban.isSome → c'.ban = c.ban

theorem lineage_refl (c : Client) (x : Nat) : Lineage c { c with idleAt := x } :=
  ⟨rfl, rfl, rfl, .inl rfl, fun _ _ => rfl⟩

theorem lineage_settled (c : Client) (time x : Nat) :
    Lineage c { c.settled time with idleAt := x } := by
  refine ⟨Client.settled_ns c time, Client.settled_generation c time,
    Client.settled_incarnation c time, ?_, ?_⟩
  · by_cases h : c.banDue time = true
    · refine .inr ⟨by simp [Client.settled, h], ?_⟩
      cases hb : c.ban with
      | none => simp [Client.banDue, hb] at h
      | some b => rfl
    · exact .inl (by simp [Client.settled, h])
  · intro hreset _
    by_cases h : c.banDue time = true
    · simp [Client.settled, h] at hreset
    · simp [Client.settled, h]

/-- An observation settles the cell; only through a ticket of this very cell, and
only while it is under no ban, it goes on to count. -/
theorem observeClient_cases (r : Registry) (profile : ScenarioProfile) (t : Ticket)
    (status now : Nat) (c : Client) :
    ((r.observeClient profile t status now c).1 = c.settled now ∧
        (r.observeClient profile t status now c).2.evidence = {}) ∨
      (t.generation = c.generation ∧ t.incarnation = c.incarnation ∧
        t.reset = (c.settled now).reset ∧ (c.settled now).ban = none ∧
        ∃ x ban, (r.observeClient profile t status now c).1 = { c.settled now with
          counters := ((c.settled now).counters.observe profile.config now t.login t.path status).2
          ban := ban
          idleAt := x }) := by
  simp only [observeClient]
  split
  · exact .inl ⟨rfl, rfl⟩
  case isFalse hfresh =>
    simp only [staleTicket, Bool.or_eq_true, bne_iff_ne, ne_eq, not_or, not_not,
      Bool.not_eq_true, isSome_eq_false_iff, isNone_iff_eq_none,
      Client.settled_generation, Client.settled_incarnation] at hfresh
    obtain ⟨⟨⟨hg, hi⟩, hr⟩, hb⟩ := hfresh
    refine .inr ⟨hg.symm, hi.symm, hr.symm, hb, ?_⟩
    split
    · exact ⟨satAdd64 now profile.idleMs, none, by simp [hb]⟩
    case h_2 crossing _ =>
      exact ⟨_, some (r.newBan t now (r.sequence + 1) crossing), rfl⟩

/-- What an observation that reports a ban did: it went through a ticket of this
very cell, and the first blocking threshold it crossed became the ban. -/
structure Created (r : Registry) (profile : ScenarioProfile) (t : Ticket) (status now : Nat)
    (c c' : Client) (crossing : Crossing) : Prop where
  generation : t.generation = c'.generation
  incarnation : t.incarnation = c'.incarnation
  reset : t.reset = c'.reset
  version : c'.generation = c.generation ∧ c'.incarnation = c.incarnation ∧
    c'.reset = (c.settled now).reset
  ban : c'.ban = some (r.newBan t now (r.sequence + 1) crossing)
  counters : c'.counters =
    ((c.settled now).counters.observe profile.config now t.login t.path status).2
  crossed : crossing ∈
    ((c.settled now).counters.observe profile.config now t.login t.path status).1
  blocks : crossing.mode = .block

section

variable (r : Registry) (profile : ScenarioProfile) (t : Ticket) (status now : Nat) (c : Client)

theorem observeClient_created (h : (r.observeClient profile t status now c).2.evidence.banCreated = true) :
    ∃ crossing, Created r profile t status now c (r.observeClient profile t status now c).1
      crossing := by
  simp only [observeClient] at h ⊢
  split at h
  · simp [Observed.evidence] at h
  case isFalse hfresh =>
    have hcell := hfresh
    simp only [staleTicket, Bool.or_eq_true, bne_iff_ne, ne_eq, not_or, not_not] at hcell
    obtain ⟨⟨⟨hg, hi⟩, hr⟩, -⟩ := hcell
    split at h
    · simp [Observed.evidence] at h
    case h_2 crossing hcrossing =>
      rw [if_neg hfresh]
      exact ⟨crossing, hg.symm, hi.symm, hr.symm,
        ⟨Client.settled_generation c now, Client.settled_incarnation c now, rfl⟩, rfl, rfl,
        mem_of_find?_eq_some hcrossing, by simpa using find?_some hcrossing⟩

theorem lineage_observed : Lineage c (r.observeClient profile t status now c).1 := by
  have hs := lineage_settled c now (c.settled now).idleAt
  rcases observeClient_cases r profile t status now c with ⟨h, -⟩ | ⟨-, -, -, hb, x, ban, h⟩
  · rw [h]; exact hs
  rw [h]
  refine ⟨hs.ns, hs.generation, hs.incarnation, hs.reset, fun hreset hban => ?_⟩
  have hkept : (c.settled now).ban = c.ban := hs.ban hreset hban
  rw [← hkept, hb] at hban
  simp at hban

end

theorem lineage_released (now : Nat) (id : String) (c : Client) :
    Lineage c (releaseClient now id c).1 := by
  have hs := lineage_settled c now (c.settled now).idleAt
  simp only [releaseClient]
  split
  case h_1 ban hban =>
    -- Only a cell still under its ban after settling gets here, so its reset stood.
    have hnot : c.banDue now = false := by
      cases h : c.banDue now with
      | false => rfl
      | true => simp [Client.settled, h] at hban
    have hsame : c.settled now = c := Client.settled_of_not_due c now hnot
    rw [hsame] at hban ⊢
    split
    · exact ⟨rfl, rfl, rfl, .inr ⟨rfl, by simp [hban]⟩, fun h => by simp at h⟩
    · exact lineage_refl c c.idleAt
  case h_2 => exact hs

/-- A cell that stands after a step continues one that stood before it, or is new. -/
theorem origin_lineage (h : Origin sha256 s e d k c') :
    (∃ c, s.cell d k = some c ∧ Lineage c c') ∨
      ∃ ns profile identity, ns ∈ (step sha256 s e).2.namespaces ∧
        s.registry.profiles.lookup ns = some profile ∧ k = clientKey sha256 ns identity ∧
        Fresh s.registry.incarnation (step sha256 s e).2.registry.incarnation ns profile.generation
          c' := by
  cases h with
  | kept c hc x h => exact .inl ⟨c, hc, h ▸ lineage_refl c x⟩
  | settled c hc time x ht h => exact .inl ⟨c, hc, h ▸ lineage_settled c time x⟩
  | fresh ns hns profile hp identity hk h => exact .inr ⟨ns, profile, identity, hns, hp, hk, h⟩
  | observed issue hi status profile c ht hp hg hc ho h =>
    exact .inl ⟨c, hc, h ▸ lineage_observed _ profile issue.ticket status e.now c⟩
  | released c hc id h => exact .inl ⟨c, hc, h ▸ lineage_released e.now id c⟩

/-! ## The invariants of every run -/

/-- What is true of a ticket handed out, whatever has become of its cell. -/
structure TicketOk (sha256 : String → Digest) (s : Sys) (i : Issue) : Prop where
  epoch : i.ticket.epoch = s.registry.epoch
  key : i.ticket.key = clientKey sha256 i.ticket.ns i.ticket.identity
  identity : ∃ ip, i.ticket.identity = IpText.display ip
  domain : i.ticket.domain ≠ DomainStore.OVERFLOW_NAME
  ns : i.ticket.ns ∈ s.namespaces
  path : i.ticket.path = pathKey sha256 i.path
  incarnation : i.ticket.incarnation ≤ s.registry.incarnation

structure Inv (sha256 : String → Digest) (s : Sys) : Prop where
  lasting : s.registry.Lasting
  routed : ∀ d, (s.registry.domains.lookup d).isSome → s.registry.Routed d
  inForce : ∀ d k c, s.cell d k = some c →
    ∃ p, s.registry.profiles.lookup c.ns = some p ∧ p.generation = c.generation
  keyed : ∀ d k c, s.cell d k = some c →
    c.ns ∈ s.namespaces ∧ ∃ identity, k = clientKey sha256 c.ns identity
  young : ∀ d k c, s.cell d k = some c → c.incarnation ≤ s.registry.incarnation
  tickets : ∀ i ∈ s.issued, TicketOk sha256 s i

/-- What a step keeps of the registry around the cells. Only an activation changes the profiles in
force, and only a host change the hosts. -/
structure Around (s : Sys) (action : Action) (s' : Sys) : Prop where
  lasting : s'.registry.Lasting
  epoch : s'.registry.epoch = s.registry.epoch
  incarnation : s.registry.incarnation ≤ s'.registry.incarnation
  namespaces : s.namespaces ⊆ s'.namespaces
  profiles : s'.registry.profiles = s.registry.profiles ∨
    ∃ profiles retained, action = .activate profiles retained
  hosts : s'.registry.hosts = s.registry.hosts ∨ ∃ hosts, action = .retainHosts hosts
  known : ∀ d, (s'.registry.domains.lookup d).isSome →
    (s.registry.domains.lookup d).isSome ∨ s.registry.Routed d

section invariants

variable {sha256 : String → Digest} {s : Sys}

theorem around_step (hl : s.registry.Lasting) (e : Event) :
    Around s e.action (step sha256 s e).2 := by
  have hsteady {action : Action} {s' : Sys} (hns : s'.namespaces = s.namespaces)
      (h : Steady s.registry s'.registry) (hprofiles : s'.registry.profiles = s.registry.profiles ∨
        ∃ profiles retained, action = .activate profiles retained)
      (hhosts : s'.registry.hosts = s.registry.hosts ∨ ∃ hosts, action = .retainHosts hosts) :
      Around s action s' :=
    ⟨h.lasting, h.epoch, Nat.le_of_eq h.incarnation.symm, fun _ hn => hns ▸ hn, hprofiles, hhosts,
      fun d hd => .inl (h.known d hd)⟩
  have hsame {action : Action} : Around s action s :=
    hsteady rfl (steady_refl hl) (.inl rfl) (.inl rfl)
  obtain ⟨now, action⟩ := e
  cases action with
  | admitClient ns expected domain identity method path =>
    have h := admission_step sha256 hl now ns expected domain identity method path
    exact ⟨h.lasting, h.epoch, h.incarnation, subset_append_left _ _, .inl h.profiles, .inl h.hosts,
      h.known⟩
  | observe i status localDenial =>
    simp only [step]
    cases s.issued[i]? with
    | none => exact hsame
    | some issue =>
      obtain ⟨h, hprofiles, hhosts⟩ := observe_steady hl now issue.ticket status localDenial
      exact hsteady rfl h (.inl hprofiles) (.inl hhosts)
  | release ns domain identity id actor =>
    obtain ⟨h, hprofiles, hhosts⟩ := release_steady hl sha256 now ns domain identity id actor
    exact hsteady rfl h (.inl hprofiles) (.inl hhosts)
  | activate profiles retained =>
    exact hsteady rfl (activate_steady hl now profiles retained) (.inr ⟨_, _, rfl⟩) (.inl rfl)
  | retainHosts hosts =>
    exact hsteady rfl (retainHosts_steady hl now hosts) (.inl rfl) (.inr ⟨_, rfl⟩)
  | startListing profile domain after limit =>
    exact hsteady rfl (steady_refl hl) (.inl rfl) (.inl rfl)
  | stepListing i =>
    simp only [step]
    cases s.listings[i]? with
    | none => exact hsame
    | some l =>
      have h := stepListing_listed hl now l
      exact hsteady rfl h.steady (.inl h.profiles) (.inl h.hosts)

/-- Every domain with a bucket stays routed. -/
theorem routed_step (hi : Inv sha256 s) (d : String)
    (h : ((step sha256 s e).2.registry.domains.lookup d).isSome) :
    (step sha256 s e).2.registry.Routed d := by
  have haround : Around s e.action (step sha256 s e).2 := around_step hi.lasting e
  rcases haround.hosts with hsame | ⟨hosts, haction⟩
  · intro hosts hhosts
    rw [hsame] at hhosts
    rcases haround.known d h with hknown | hrouted
    · exact hi.routed d hknown hosts hhosts
    · exact hrouted hosts hhosts
  · obtain ⟨now, action⟩ := e
    obtain rfl : action = .retainHosts hosts := haction
    exact retainHosts_routed h

theorem inForce_step (hi : Inv sha256 s) (d k : String) (c : Client)
    (h : (step sha256 s e).2.cell d k = some c) :
    ∃ p, (step sha256 s e).2.registry.profiles.lookup c.ns = some p ∧
      p.generation = c.generation := by
  have haround : Around s e.action (step sha256 s e).2 := around_step hi.lasting e
  rcases haround.profiles with hp | ⟨profiles, retained, ha⟩
  · rw [hp]
    rcases origin_lineage (cell_origin hi.lasting h) with ⟨c₀, hc₀, hlin⟩ |
      ⟨ns, profile, -, -, hprofile, -, hf⟩
    · rw [hlin.ns, hlin.generation]; exact hi.inForce d k c₀ hc₀
    · exact ⟨profile, by rw [hf.ns]; exact hprofile, hf.generation.symm⟩
  -- An activation keeps exactly the cells whose generation it puts in force.
  obtain ⟨now, action⟩ := e
  obtain rfl : action = .activate profiles retained := ha
  rcases activate_cell hi.lasting now profiles retained d k with hc | ⟨-, hc⟩
  · have hcell : (s.registry.activateWithRetained now profiles retained).cell d k = some c := h
    rw [hc] at hcell
    have hin := (filter_eq_some_iff.mp hcell).2
    simp only [Registry.inForce, Option.any_eq_true, beq_iff_eq] at hin
    exact hin
  · have hcell : (s.registry.activateWithRetained now profiles retained).cell d k = some c := h
    rw [hc] at hcell
    cases hcell

/-- Only an admission hands out a ticket, one at most, against the cell as it then is. -/
theorem issued_step (hl : s.registry.Lasting) {i : Issue} (h : i ∈ (step sha256 s e).2.issued) :
    i ∈ s.issued ∨ ∃ ns domain identity profile ip, domain ≠ DomainStore.OVERFLOW_NAME ∧
      ns ∈ (step sha256 s e).2.namespaces ∧ s.registry.profiles.lookup ns = some profile ∧
      (step sha256 s e).2.registry.profiles = s.registry.profiles ∧
      IpText.parse identity = some ip ∧
      TicketFor s.registry profile ns domain (IpText.display ip)
        (clientKey sha256 ns (IpText.display ip)) (watchesLogin profile.config i.method i.path)
        (pathKey sha256 i.path) (step sha256 s e).2.registry i.ticket := by
  obtain ⟨now, action⟩ := e
  cases action with
  | admitClient ns expected domain identity method path =>
    have hstep := admission_step sha256 hl now ns expected domain identity method path
    simp only [step, mem_append] at h
    rcases h with h | h
    · exact .inl h
    obtain ⟨ha, hm, hp⟩ := mem_issueOf.mp h
    obtain ⟨profile, ip, hprofile, hip, ht⟩ := hstep.ticket i.ticket ha
    have hdomain : domain ≠ DomainStore.OVERFLOW_NAME := by
      rintro rfl
      simp [admitExpected] at ha
    subst hm hp
    exact .inr ⟨ns, domain, identity, profile, ip, hdomain, by simp [step], hprofile,
      hstep.profiles, hip, ht⟩
  | observe i' status localDenial =>
    left
    simp only [step] at h
    cases hi : s.issued[i']? with
    | none | some => rwa [hi] at h
  | release | activate | retainHosts | startListing => exact .inl h
  | stepListing i' =>
    left
    simp only [step] at h
    cases hi : s.listings[i']? with
    | none | some => rwa [hi] at h

theorem ticketOk_mono (h : Around s action s') (ht : TicketOk sha256 s i) : TicketOk sha256 s' i :=
  ⟨ht.epoch.trans h.epoch.symm, ht.key, ht.identity, ht.domain, h.namespaces ht.ns, ht.path,
    Nat.le_trans ht.incarnation h.incarnation⟩

theorem inv_step (hi : Inv sha256 s) (e : Event) : Inv sha256 (step sha256 s e).2 := by
  have hl := hi.lasting
  have haround : Around s e.action (step sha256 s e).2 := around_step hl e
  have hyoung : ∀ d k c, (step sha256 s e).2.cell d k = some c →
      c.incarnation ≤ (step sha256 s e).2.registry.incarnation := by
    intro d k c hc
    rcases origin_lineage (cell_origin hl hc) with ⟨c₀, hc₀, hlin⟩ | ⟨_, _, _, _, _, _, hf⟩
    · rw [hlin.incarnation]; exact Nat.le_trans (hi.young d k c₀ hc₀) haround.incarnation
    · exact Nat.le_of_eq hf.incarnation
  refine ⟨haround.lasting, routed_step hi, inForce_step hi, fun d k c hc => ?_, hyoung,
    fun i h => ?_⟩
  · rcases origin_lineage (cell_origin hl hc) with ⟨c₀, hc₀, hlin⟩ |
      ⟨ns, _, identity, hns, _, hk, hf⟩
    · obtain ⟨hn, identity, hk⟩ := hi.keyed d k c₀ hc₀
      rw [hlin.ns]
      exact ⟨haround.namespaces hn, identity, hk⟩
    · rw [hf.ns]; exact ⟨hns, identity, hk⟩
  · rcases issued_step hl h with h | ⟨ns, domain, identity, profile, ip, hd, hns, -, -, -, ht⟩
    · exact ticketOk_mono haround (hi.tickets i h)
    obtain ⟨c, hc, hinc, -⟩ := ht.cell
    refine ⟨ht.epoch.trans haround.epoch.symm, by rw [ht.key, ht.ns, ht.identity], ⟨ip, ht.identity⟩,
      by rw [ht.domain]; exact hd, by rw [ht.ns]; exact hns, ht.path, ?_⟩
    rw [hinc]
    exact hyoung domain _ c hc

/-- A registry that has not served yet. -/
theorem inv_start : Inv sha256 (Sys.start (Registry.new epoch' limits' wall₀ mono₀ queue')) := by
  refine ⟨fun d b h => ?_, fun d h => ?_, fun d k c h => ?_, fun d k c h => ?_, fun d k c h => ?_,
    fun i h => ?_⟩
  · simp [Sys.start, Registry.new] at h
  · simp [Sys.start, Registry.new] at h
  all_goals cases h

theorem inv_run (hi : Inv sha256 s) (es : List Event) : Inv sha256 (run sha256 s es) := by
  induction es generalizing s with
  | nil => exact hi
  | cons e es ih => exact ih (inv_step hi e)

theorem digestHex_length : (digestHex d).toList.length = 64 := by
  simp [digestHex]

/-- Equal client keys are of namespaces with equal digests. -/
theorem clientKey_digest (h : clientKey sha256 a x = clientKey sha256 b y) :
    digestHex (sha256 a) = digestHex (sha256 b) := by
  have hchars := congrArg String.toList h
  simp only [clientKey, String.toList_append, append_assoc] at hchars
  have hfirst := (append_inj hchars (by rw [digestHex_length, digestHex_length])).1
  exact String.toList_inj.mp hfirst

/-- No two of the texts share a digest. -/
def Collisionless (sha256 : String → Digest) (texts : List String) : Prop :=
  ∀ a ∈ texts, ∀ b ∈ texts, digestHex (sha256 a) = digestHex (sha256 b) → a = b

instance (sha256 : String → Digest) (texts : List String) :
    Decidable (Collisionless sha256 texts) :=
  inferInstanceAs (Decidable (∀ a ∈ texts, ∀ b ∈ texts,
    digestHex (sha256 a) = digestHex (sha256 b) → a = b))

/-- The cell a ticket points to belongs to the ticket's namespace, as long as no
two namespaces in use share a digest. -/
theorem ticket_ns (hi : Inv sha256 s) (hdistinct : Collisionless sha256 s.namespaces)
    {issue : Issue} (hissue : issue ∈ s.issued) (c : Client)
    (hc : s.cell issue.ticket.domain issue.ticket.key = some c) : c.ns = issue.ticket.ns := by
  have hok := hi.tickets issue hissue
  obtain ⟨hns, identity, hkey⟩ := hi.keyed _ _ c hc
  have hdigest := clientKey_digest (hkey.symm.trans hok.key)
  exact hdistinct c.ns hns issue.ticket.ns hok.ns hdigest

end invariants

end AbuseRegistryRun
