import Pingap.DomainStoreRun

/-!
# Isolation of the domains of one store

Tenants reach the store through the host of their request, which the store's own
policy classifies. While the registered hosts fit under `max_domains` no
insertion is refused a domain, and what one domain is answered does not depend
on any call made on another one.
-/

namespace DomainStoreIsolation

open DomainStore DomainStoreRun AList Trace

variable {υ ρ : Type}

/-- A call as a tenant makes it: by the host the request named. -/
inductive HostCall (υ ρ : Type) where
  | on (host : String) (op : Op υ ρ)
  | visit (host : String)
  | totalEntries
  | domainsLive

structure HostEvent (υ ρ : Type) where
  now : Millis
  call : HostCall υ ρ

def HostCall.resolve (hosts : HostPolicy) : HostCall υ ρ → Call υ ρ
  | .on host op => .on (hosts.classify host) op
  | .visit host => .visit (hosts.classify host)
  | .totalEntries => .totalEntries
  | .domainsLive => .domainsLive

/-- One call of a tenant, classified by the store's policy. -/
def tenantStep (s : ScopedStore υ) (e : HostEvent υ ρ) : Answer υ ρ × ScopedStore υ :=
  step s ⟨e.now, e.call.resolve s.hosts⟩

/-- The call is made on domain `d` under the policy `hosts`. -/
def concerns (hosts : HostPolicy) (d : Domain) (e : HostEvent υ ρ) : Bool :=
  match e.call with
  | .on host _ => hosts.classify host == d
  | .visit host => hosts.classify host == d
  | _ => false

/-- The call is made on `d` or on no domain at all. -/
def sharedWith (hosts : HostPolicy) (d : Domain) (e : HostEvent υ ρ) : Bool :=
  match e.call with
  | .on host _ => hosts.classify host == d
  | .visit host => hosts.classify host == d
  | _ => true

/-- Every slot in use belongs to a registered name. -/
def SlotsRegistered (s : ScopedStore υ) : Prop :=
  ∀ slot, (s.inner.domains.lookup slot).isSome → ∃ i, i < s.hosts.registered ∧ slot = i % 2 ^ 32

theorem slotsRegistered_new (hosts : HostPolicy) (limits : Limits) :
    SlotsRegistered (ScopedStore.new hosts limits : ScopedStore υ) := by
  intro slot h
  simp [ScopedStore.new] at h

theorem slotsRegistered_of_confined (hc : Confined (s.hosts.classify host) s s')
    (h : SlotsRegistered s) : SlotsRegistered s' := by
  intro slot hs
  rw [hc.hosts]
  rcases hc.slots slot hs with hs | ⟨rfl, ho⟩
  · exact h slot hs
  rcases s.hosts.classify_slot host with hslot | hslot
  · simp [Domain.isOverflow, hslot] at ho
  · exact hslot

theorem slotsRegistered_step (s : ScopedStore υ) (e : HostEvent υ ρ) (h : SlotsRegistered s) :
    SlotsRegistered (tenantStep s e).2 := by
  obtain ⟨now, call⟩ := e
  cases call with
  | on host op => exact slotsRegistered_of_confined (perform_confined s now _ op) h
  | visit | domainsLive => exact h
  | totalEntries =>
    intro slot hs
    refine h slot ?_
    simp only [tenantStep, step, HostCall.resolve, ScopedStore.totalEntries,
      ScopedStore.bumpReclaimed, lookup_retain] at hs
    cases hb : s.inner.domains.lookup slot with
    | none => simp [hb] at hs
    | some b => rfl

theorem step_hosts_limits (s : ScopedStore υ) (e : HostEvent υ ρ) :
    (tenantStep s e).2.hosts = s.hosts ∧ (tenantStep s e).2.limits = s.limits := by
  obtain ⟨now, call⟩ := e
  cases call with
  | on host op =>
    have hc := perform_confined s now (s.hosts.classify host) op
    exact ⟨hc.hosts, hc.limits⟩
  | visit | totalEntries | domainsLive => exact ⟨rfl, rfl⟩

/-- A registered domain without a slot finds room: with it, the slots in use are
still no more than the registered names. -/
theorem size_lt_registered (h : SlotsRegistered s) (ho : (s.hosts.classify host).isOverflow = false)
    (hnone : s.inner.domains.lookup (s.hosts.classify host).slot = none) :
    s.inner.domains.size < s.hosts.registered := by
  have hnodup := List.nodup_cons.mpr ⟨fun hm => AList.lookup_eq_none.mp hnone (mem_keys.mpr hm), keys_nodup _⟩
  have hsub : (s.hosts.classify host).slot :: s.inner.domains.keys ⊆
      (List.range s.hosts.registered).map (· % 2 ^ 32) := by
    intro slot hm
    simp only [List.mem_map, List.mem_range]
    rcases List.mem_cons.mp hm with rfl | hm
    · rcases s.hosts.classify_slot host with hslot | ⟨i, hi, hslot⟩
      · simp [Domain.isOverflow, hslot] at ho
      · exact ⟨i, hi, hslot.symm⟩
    · obtain ⟨i, hi, hslot⟩ := h slot (lookup_isSome.mpr (mem_keys.mp hm))
      exact ⟨i, hi, hslot.symm⟩
  have hlen := (List.subperm_of_subset hnodup hsub).length_le
  rw [size_keys]
  simpa [Nat.succ_le_iff] using hlen

theorem admitBucket_not_refused (host : String) (h : SlotsRegistered s)
    (hfit : s.hosts.registered ≤ s.limits.maxDomains) (full : Full) (s' : ScopedStore υ) :
    s.admitBucket (s.hosts.classify host) ≠ (.error full, s') := by
  intro hrefused
  unfold ScopedStore.admitBucket at hrefused
  split at hrefused
  · simp at hrefused
  case isFalse ho =>
    split at hrefused
    · simp at hrefused
    case h_2 hnone =>
      have hroom := size_lt_registered h (by simpa using ho) hnone
      rw [if_neg (by omega)] at hrefused
      simp at hrefused

theorem step_not_refused (h : SlotsRegistered s) (hfit : s.hosts.registered ≤ s.limits.maxDomains) :
    (tenantStep s e).1 ≠ .inserted (.error .domains) := by
  obtain ⟨now, call⟩ := e
  cases call with
  | on host op =>
    cases op with
    | insert identity value ttl =>
      have hc := (Confined.refl (s.hosts.classify host) s).noteOverflow
      have hreg := slotsRegistered_of_confined hc h
      simp only [tenantStep, step, HostCall.resolve, perform, ScopedStore.insert, ne_eq,
        Answer.inserted.injEq]
      split
      case h_1 full s' ha =>
        have hok := admitBucket_not_refused host hreg (by rw [hc.hosts, hc.limits]; exact hfit) full s'
        rw [hc.hosts] at hok
        exact absurd ha hok
      case h_2 b s' ha =>
        have hb := bucket_insert_not_domains b s'.limits now identity value
          (MachineArith.satAdd64 now (MachineArith.durationMs ttl))
        split
        case h_1 hr => rw [hr] at hb; exact hb
        case h_2 => simp
    | _ => simp [tenantStep, step, HostCall.resolve, perform]
  | _ => simp [tenantStep, step, HostCall.resolve]

/-- What every run keeps: the configuration and that the slots are registered. -/
structure Configured (hosts : HostPolicy) (limits : Limits) (s : ScopedStore υ) : Prop where
  hosts : s.hosts = hosts
  limits : s.limits = limits
  slots : SlotsRegistered s

theorem configured_new :
    Configured hosts limits (ScopedStore.new hosts limits : ScopedStore υ) :=
  ⟨rfl, rfl, slotsRegistered_new hosts limits⟩

theorem configured_step (h : Configured hosts limits s) :
    Configured hosts limits (tenantStep s e).2 := by
  obtain ⟨hh, hl⟩ := step_hosts_limits s e
  exact ⟨hh.trans h.hosts, hl.trans h.limits, slotsRegistered_step s e h.slots⟩

theorem configured_not_refused (h : Configured hosts limits s)
    (hfit : hosts.registered ≤ limits.maxDomains) (e : HostEvent υ ρ) :
    (tenantStep s e).1 ≠ .inserted (.error .domains) := by
  refine step_not_refused h.slots ?_
  rw [h.hosts, h.limits]
  exact hfit

section agreement

variable {hosts : HostPolicy} {limits : Limits} {s s' : ScopedStore υ} {d : Domain}

/-- A call on the domain gets one answer from both stores and keeps them in agreement. -/
theorem concerning_step (hfit : hosts.registered ≤ limits.maxDomains)
    (h : Configured hosts limits s) (h' : Configured hosts limits s') (hd : s.peek d = s'.peek d)
    (hk : concerns hosts d e = true) :
    (tenantStep s e).1 = (tenantStep s' e).1 ∧
      (tenantStep s e).2.peek d = (tenantStep s' e).2.peek d := by
  have hok := configured_not_refused h hfit e
  have hok' := configured_not_refused h' hfit e
  obtain ⟨now, call⟩ := e
  cases call with
  | on host op =>
    simp only [concerns, beq_iff_eq] at hk
    simp only [tenantStep, step, HostCall.resolve, h.hosts, h'.hosts, hk] at hok hok' ⊢
    obtain ⟨ha, hs⟩ := perform_slot s now d hok
    obtain ⟨ha', hs'⟩ := perform_slot s' now d hok'
    rw [ha, hs, ha', hs', h.limits, h'.limits, hd]
    exact ⟨rfl, rfl⟩
  | visit host =>
    simp only [concerns, beq_iff_eq] at hk
    simp only [tenantStep, step, HostCall.resolve, h.hosts, h'.hosts, hk, ScopedStore.visit, hd]
    exact ⟨trivial, trivial⟩
  | totalEntries | domainsLive => simp [concerns] at hk

/-- A count over all domains keeps the slots of `d` equal, whatever it answers. -/
theorem counting_step (hd : s.peek d = s'.peek d) (hk : concerns hosts d e = false)
    (hs : sharedWith hosts d e = true) :
    (tenantStep s e).2.peek d = (tenantStep s' e).2.peek d := by
  obtain ⟨now, call⟩ := e
  cases call with
  | on | visit => simp_all [concerns, sharedWith]
  | totalEntries =>
    change (s.totalEntries now).2.peek d = (s'.totalEntries now).2.peek d
    rw [totalEntries_slot, totalEntries_slot, hd]
  | domainsLive => exact hd

/-- A call on another domain leaves the slot of `d` alone. -/
theorem foreign_step (h : Configured hosts limits s) (hs : sharedWith hosts d e = false) :
    (tenantStep s e).2.peek d = s.peek d := by
  obtain ⟨now, call⟩ := e
  cases call with
  | on host op =>
    simp only [sharedWith, beq_eq_false_iff_ne, ne_eq] at hs
    refine (perform_confined s now _ op).others d ?_
    rw [h.hosts]
    exact fun he => hs he.symm
  | visit host => rfl
  | totalEntries => simp [sharedWith] at hs
  | domainsLive => rfl

end agreement

/-- While the registered hosts fit under `max_domains`, no call of any tenant is
refused a domain, and the answers on a domain are those of the run in which
nobody ever called on any other domain or on the overflow bucket. -/
theorem answers_isolated (hosts : HostPolicy) (limits : Limits)
    (hfit : hosts.registered ≤ limits.maxDomains) (calls : List (HostEvent υ ρ)) (d : Domain) :
    let s : ScopedStore υ := ScopedStore.new hosts limits
    (∀ o ∈ outputs tenantStep s calls, o ≠ .inserted (.error .domains)) ∧
      observed (concerns hosts d) tenantStep s calls =
        observed (concerns hosts d) tenantStep s (calls.filter (sharedWith hosts d)) := by
  intro s
  refine ⟨?_, ?_⟩
  · exact outputs_forall tenantStep (Configured hosts limits) _
      (fun s e h => ⟨configured_not_refused h hfit e, configured_step h⟩) calls s
      (configured_new)
  refine observed_eq (concerns hosts d) (sharedWith hosts d) tenantStep tenantStep
    (fun _ => 0) (fun _ => True)
    (fun _ s s' => Configured hosts limits s ∧ Configured hosts limits s' ∧
      s.peek d = s'.peek d) ?_ ?_ ?_ ?_ calls 0 s s
    ⟨configured_new, configured_new, rfl⟩
    (clocked_const 0 calls) (fun _ _ => trivial)
  · rintro ⟨now, call⟩ hk
    cases call <;> simp_all [concerns, sharedWith]
  · rintro - s s' e - hk - ⟨h, h', hd⟩
    obtain ⟨ha, hp⟩ := concerning_step hfit h h' hd hk
    exact ⟨ha, configured_step h, configured_step h', hp⟩
  · rintro - s s' e - hk hs ⟨h, h', hd⟩
    exact ⟨configured_step h, configured_step h', counting_step hd hk hs⟩
  · rintro - s s' e - hs ⟨h, h', hd⟩
    exact ⟨configured_step h, h', (foreign_step h hs).trans hd⟩

/-- Two tenants under a cap of one entry each: the first one's read after the
second one's writes. -/
def twoTenants : List (HostEvent Nat Nat) :=
  [⟨0, .on "a.test" (.insert "k" 7 1000000000)⟩, ⟨1, .on "b.test:443" (.insert "k" 8 1000000000)⟩,
    ⟨1, .on "other.test" (.insert "k" 9 1000000000)⟩, ⟨2, .on "A.test" (.get "k")⟩]

theorem answers_isolated_two_tenants :
    let hosts := HostPolicy.new ["a.test", "b.test"]
    let s : ScopedStore Nat := ScopedStore.new hosts ⟨2, 1⟩
    hosts.registered ≤ 2 ∧
      (∀ o ∈ outputs tenantStep s twoTenants, o ≠ .inserted (.error .domains)) ∧
      observed (concerns hosts (hosts.classify "a.test")) tenantStep s twoTenants =
        observed (concerns hosts (hosts.classify "a.test")) tenantStep s
          (twoTenants.filter (sharedWith hosts (hosts.classify "a.test"))) :=
  ⟨by decide, answers_isolated (HostPolicy.new ["a.test", "b.test"]) ⟨2, 1⟩ (by decide) twoTenants
    ((HostPolicy.new ["a.test", "b.test"]).classify "a.test")⟩

end DomainStoreIsolation
