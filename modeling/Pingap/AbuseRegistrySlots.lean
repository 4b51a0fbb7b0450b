import Pingap.AbuseBanSoundness
import Pingap.AbuseRegistryCounts

/-!
# Slots of the abuse registry

The registry gives a domain its bucket before it knows whether the request will
leave a client there. A request that no scenario watches leaves a bucket with nobody
in it, which takes a slot until the next activation.
-/

namespace AbuseRegistrySlots

open MachineArith AbuseScenario AbuseRegistry AbuseRegistryRun AbuseRegistryCounts AList Option
open AbuseBanPersistence (digests loginProfile twoLogins)
open AbuseRegistry.Registry (clientKey pathKey watchesLogin)
open DomainStore (HostPolicy Limits)
open Registry hiding hosts limits profiles

/-! ## Which admissions fill the slot they take -/

/-- The profile under which an admission gets to the bucket of its domain. -/
def reaches (r : Registry) (ns : String) (expected : Option String) (domain identity : String)
    (registered : Bool) : Option ScenarioProfile :=
  if registered && (IpText.parse identity).isSome &&
      !(r.hosts.any fun hosts => (hosts.classify domain).isOverflow) then
    (r.profiles.lookup ns).filter fun profile =>
      !(expected.any fun generation => generation != profile.generation)
  else none

/-- The profile under which an admission takes a slot for a domain that has none. -/
def opens (r : Registry) (ns : String) (expected : Option String) (domain identity : String)
    (registered : Bool) : Option ScenarioProfile :=
  if (r.domains.lookup domain).isNone && decide (r.domains.size < r.limits.maxDomains) then
    reaches r ns expected domain identity registered
  else none

/-- A domain gets a slot for a request that a scenario watches, where buckets may
hold clients; and profiles admit at least one client. -/
def FillsBy (r : Registry) : Action → Prop
  | .admitClient ns expected domain identity method path =>
    ∀ profile ∈ opens r ns expected domain identity (domain != DomainStore.OVERFLOW_NAME),
      watched profile (watchesLogin profile.config method path) = true ∧
        0 < r.limits.maxEntriesPerDomain
  | .activate profiles _ => ∀ profile ∈ profiles, 0 < profile.maxClients
  | _ => True

instance (r : Registry) : (action : Action) → Decidable (FillsBy r action)
  | .admitClient ns expected domain identity method path =>
    inferInstanceAs (Decidable (∀ profile ∈ opens r ns expected domain identity
      (domain != DomainStore.OVERFLOW_NAME),
        watched profile (watchesLogin profile.config method path) = true ∧
          0 < r.limits.maxEntriesPerDomain))
  | .activate profiles _ => inferInstanceAs (Decidable (∀ profile ∈ profiles, 0 < profile.maxClients))
  | .observe _ _ _ => .isTrue trivial
  | .release _ _ _ _ _ => .isTrue trivial
  | .retainHosts _ => .isTrue trivial
  | .startListing _ _ _ _ => .isTrue trivial
  | .stepListing _ => .isTrue trivial

/-- The step is taken before the end of the clock and leaves no empty slot behind. -/
def Fills (s : Sys) (e : Event) : Prop := e.now < u64Max ∧ FillsBy s.registry e.action

instance : DecidableRel Fills := fun s e =>
  inferInstanceAs (Decidable (e.now < u64Max ∧ FillsBy s.registry e.action))

def SlotsHeld (r : Registry) : Prop := ∀ d, PopulatedAt r d

/-- As many other domains as there may be hold a client each. -/
def HeldByOthers (r : Registry) (domain : String) : Prop :=
  ∃ others : List String, others.Nodup ∧ others.length = r.limits.maxDomains ∧
    ∀ d ∈ others, d ≠ domain ∧ ∃ key c, r.cell d key = some c

/-- The admission is refused for want of a slot: it answers that the registry is
unavailable and counts the request as one it had no room for. -/
def CapacityRefused (r : Registry) (out : Admission × Registry) : Prop :=
  out.1 = .unavailable ∧ out.2.counters.saturated = r.counters.saturated + 1

section admission

variable {r : Registry} {sha256 : String → Digest} {now : Nat}

/-- What becomes of an admission, by how far it gets. -/
theorem admitExpected_cases (r : Registry) (sha256 : String → Digest) (now : Nat) (ns : String)
    (expected : Option String) (domain identity method path : String) (registered : Bool) :
    let out := r.admitExpected sha256 now ns expected domain identity method path registered
    (reaches r ns expected domain identity registered = none ∧ out.2 = r) ∨
    (∃ profile, reaches r ns expected domain identity registered = some profile ∧
      ((r.ensureDomain domain = none ∧ out = (.unavailable, r.bumpSaturated)) ∨
        ∃ r₁ ip, r.ensureDomain domain = some r₁ ∧
          out = r₁.admitUnder sha256 now profile ns domain ip
            (watchesLogin profile.config method path) (pathKey sha256 path))) := by
  unfold reaches admitExpected
  cases registered with
  | false => exact .inl ⟨rfl, rfl⟩
  | true =>
    cases hip : IpText.parse identity with
    | none => exact .inl ⟨rfl, rfl⟩
    | some ip =>
      simp only [Bool.not_true, Bool.false_eq_true, if_false, admitAddress]
      cases hhosts : r.hosts.any fun hosts => (hosts.classify domain).isOverflow with
      | true => exact .inl ⟨rfl, rfl⟩
      | false =>
        cases hprofile : r.profiles.lookup ns with
        | none => exact .inl ⟨rfl, rfl⟩
        | some profile =>
          cases hgen : expected.any fun generation => generation != profile.generation with
          | true => exact .inl ⟨by simp [hgen], by simp [hgen]⟩
          | false =>
            refine .inr ⟨profile, by simp [hgen], ?_⟩
            cases hopen : r.ensureDomain domain with
            | none => exact .inl ⟨rfl, by simp [hgen]⟩
            | some r₁ => exact .inr ⟨r₁, IpText.display ip, rfl, by simp [hgen]⟩

theorem ensureDomain_none (h : r.ensureDomain domain = none) :
    r.domains.lookup domain = none ∧ r.limits.maxDomains ≤ r.domains.size := by
  unfold ensureDomain at h
  split at h
  · cases h
  case isFalse hnew =>
    split at h
    case isTrue hfull => exact ⟨by simpa using hnew, hfull⟩
    case isFalse => cases h

theorem ensureDomain_room (h : r.ensureDomain domain = some r₁)
    (hnone : r.domains.lookup domain = none) : r.domains.size < r.limits.maxDomains := by
  simp only [ensureDomain, hnone, isSome_none, Bool.false_eq_true, if_false] at h
  split at h
  · cases h
  · omega

theorem opens_eq_none (h : r.ensureDomain domain = none ∨ (r.domains.lookup domain).isSome) :
    opens r ns expected domain identity registered = none := by
  unfold opens
  rw [if_neg]
  rcases h with h | h
  · simp [(ensureDomain_none h).2]
  · simp [Option.isSome_iff_ne_none.mp h]

section

variable (h : BucketsAccounted r) (hnow : now < u64Max)
include h hnow

theorem admitExpected_accounted :
    BucketsAccounted
      (r.admitExpected sha256 now ns expected domain identity method path registered).2 := by
  rcases admitExpected_cases r sha256 now ns expected domain identity method path registered with
    ⟨-, hout⟩ | ⟨profile, -, ⟨-, hout⟩ | ⟨r₁, ip, hopen, hout⟩⟩
  · rw [hout]
    exact h
  · rw [hout]
    exact h.quiet ⟨rfl, rfl, rfl, rfl, rfl, rfl⟩
  · rw [hout]
    have hfiled := ensureDomain_filed h hopen
    exact (admitUnder_filed sha256 hfiled.accounted hnow profile ns ip _ _ hfiled.present).accounted

/-- What an admission does to the slot of its own domain. -/
theorem admitUnder_slot {r₁ : Registry} (hopen : r.ensureDomain domain = some r₁)
    (hheld : PopulatedAt r domain) (profile : ScenarioProfile) (hclients : 0 < profile.maxClients)
    (ns identity : String) (login : Bool) (path : Digest) :
    PopulatedAt (r₁.admitUnder sha256 now profile ns domain identity login path).2 domain ↔
      (r.domains.lookup domain = none →
        watched profile login = true ∧ 0 < r.limits.maxEntriesPerDomain) := by
  have hfiled := ensureDomain_filed h hopen
  have hown := ensureDomain_populatedAt hopen
  have hunder := admitUnder_filed sha256 hfiled.accounted hnow profile ns identity login path
    hfiled.present
  constructor
  · intro hp hnone
    have hempty : ¬ PopulatedAt r₁ domain := by
      rw [hown, hnone]
      simp
    constructor
    · by_contra hunwatched
      rw [Bool.not_eq_true] at hunwatched
      exact hempty ((admitUnder_unwatched sha256 hfiled.accounted hnow ns identity path
        hunwatched).mp hp)
    · obtain ⟨b, hb⟩ := isSome_iff_exists.mp hunder.present
      have hfits := (hunder.accounted domain b hb).fits (hp b hb)
      rwa [hunder.limits, hfiled.limits] at hfits
  · intro hcond
    apply admitUnder_populated sha256 hfiled.accounted hnow ns identity login path
      hfiled.present hclients
    cases hb : r.domains.lookup domain with
    | some b => exact .inl (hown.mpr ⟨by rw [hb]; rfl, hheld⟩)
    | none =>
      rw [hfiled.limits]
      exact .inr (hcond hb)

theorem admitExpected_slots (hheld : SlotsHeld r)
    (hclients : ∀ ns profile, r.profiles.lookup ns = some profile → 0 < profile.maxClients)
    (ns : String) (expected : Option String) (domain identity method path : String) :
    SlotsHeld (r.admitExpected sha256 now ns expected domain identity method path registered).2 ↔
      ∀ profile ∈ opens r ns expected domain identity registered,
        watched profile (watchesLogin profile.config method path) = true ∧
          0 < r.limits.maxEntriesPerDomain := by
  rcases admitExpected_cases r sha256 now ns expected domain identity method path registered with
    ⟨hreach, hout⟩ | ⟨profile, hreach, ⟨hopen, hout⟩ | ⟨r₁, ip, hopen, hout⟩⟩
  · have hnone : opens r ns expected domain identity registered = none := by
      simp [opens, hreach]
    simp [hnone, hout, hheld]
  · have hbump : SlotsHeld r.bumpSaturated := fun d => (hheld d).quiet ⟨rfl, rfl, rfl, rfl, rfl, rfl⟩
    simp [opens_eq_none (.inl hopen), hout, hbump]
  have hlookup : r.profiles.lookup ns = some profile := by
    unfold reaches at hreach
    split at hreach
    · exact (filter_eq_some_iff.mp hreach).1
    · cases hreach
  have hfiled := ensureDomain_filed h hopen
  have hunder := admitUnder_filed sha256 hfiled.accounted hnow profile ns ip
    (watchesLogin profile.config method path) (pathKey sha256 path) hfiled.present
  have hslot := @admitUnder_slot r sha256 now h hnow domain r₁ hopen (hheld domain) profile
    (hclients ns profile hlookup) ns ip (watchesLogin profile.config method path)
    (pathKey sha256 path)
  have hopens : (∀ p ∈ opens r ns expected domain identity registered,
      watched p (watchesLogin p.config method path) = true ∧ 0 < r.limits.maxEntriesPerDomain) ↔
      (r.domains.lookup domain = none →
        watched profile (watchesLogin profile.config method path) = true ∧
          0 < r.limits.maxEntriesPerDomain) := by
    cases hb : r.domains.lookup domain with
    | some b => simp [opens_eq_none (.inr (by rw [hb]; rfl))]
    | none => simp [opens, hb, hreach, ensureDomain_room hopen hb]
  rw [hopens, ← hslot, hout]
  refine ⟨fun hall => hall domain, fun hown d => ?_⟩
  by_cases hd : d = domain
  · exact hd ▸ hown
  · exact (hfiled.trans hunder).populatedAt hd (hheld d)

end

/-- A refusal for want of a slot, where every slot is held. -/
theorem heldByOthers_of_refused (hheld : SlotsHeld r)
    (hfull : r.domains.lookup domain = none ∧ r.limits.maxDomains ≤ r.domains.size) :
    HeldByOthers r domain := by
  refine ⟨r.domains.keys.take r.limits.maxDomains, ?_, ?_, ?_⟩
  · exact (keys_nodup r.domains).sublist (List.take_sublist _ _)
  · rw [List.length_take, ← size_keys]
    exact Nat.min_eq_left hfull.2
  intro d hd
  have hsome : (r.domains.lookup d).isSome :=
    lookup_isSome.mpr (mem_keys.mpr (List.mem_of_mem_take hd))
  obtain ⟨b, hb⟩ := isSome_iff_exists.mp hsome
  obtain ⟨key, c, hc⟩ := hheld d b hb
  refine ⟨?_, key, c, (cell_of_lookup hb key).trans hc⟩
  rintro rfl
  rw [hfull.1] at hsome
  cases hsome

theorem admitUnder_available :
    (r.admitUnder sha256 now profile ns domain identity login path).1 ≠ .unavailable := by
  simp only [admitUnder]
  rcases (r.currentBan now domain (clientKey sha256 ns identity)).1 with _ | _ | ban
  · simp only [admitFound, admitNew, issueTicket]
    split_ifs <;> simp
  · simp only [admitFound, issueTicket]
    split_ifs <;> simp
  · simp [admitFound]

theorem capacityRefused_full (h : CapacityRefused r
      (r.admitExpected sha256 now ns expected domain identity method path registered)) :
    r.domains.lookup domain = none ∧ r.limits.maxDomains ≤ r.domains.size := by
  obtain ⟨hanswer, hcounted⟩ := h
  rcases admitExpected_cases r sha256 now ns expected domain identity method path registered with
    ⟨-, hout⟩ | ⟨profile, -, ⟨hopen, -⟩ | ⟨r₁, ip, hopen, hout⟩⟩
  · rw [hout] at hcounted
    omega
  · exact ensureDomain_none hopen
  · rw [hout] at hanswer
    exact absurd hanswer (admitUnder_available)

end admission

/-! ## Runs -/

/-- The state of a run all of whose steps fill the slots they take. -/
structure Tidy (r : Registry) : Prop where
  accounted : BucketsAccounted r
  held : SlotsHeld r
  clients : ∀ ns profile, r.profiles.lookup ns = some profile → 0 < profile.maxClients

section run

variable {r r' : Registry} {sha256 : String → Digest} {now : Nat}

theorem tidy_new : Tidy (Registry.new epoch' limits wall₀ mono₀ queue') where
  accounted := fun d b hb => by simp [Registry.new] at hb
  held := fun d b hb => by simp [Registry.new] at hb
  clients := fun ns profile h => by simp [Registry.new] at h

theorem Tidy.quiet (h : Tidy r) (hq : Quiet r r') : Tidy r' where
  accounted := h.accounted.quiet hq
  held := fun d => (h.held d).quiet hq
  clients := by rw [hq.profiles]; exact h.clients

theorem updateClient_tidy (h : Tidy r) (hnow : now < u64Max) (domain key : String)
    (change : Client → Client × ρ) (hns : ∀ c, (change c).1.ns = c.ns) :
    Tidy (r.updateClient now domain key change).2 := by
  have hframed := (updateClient_spec (lasting_of_accounted h.accounted) now domain key change).2.1
  refine ⟨?_, fun d => ?_, ?_⟩
  · cases hb : r.domains.lookup domain with
    | none =>
      simp only [updateClient, hb]
      exact h.accounted
    | some b =>
      exact (updateClient_filed h.accounted hnow key change hns (by rw [hb]; rfl)).accounted
  · exact (updateClient_populatedAt h.accounted hnow domain key change hns d).mpr (h.held d)
  · rw [hframed.profiles]
    exact h.clients

theorem observe_tidy (h : Tidy r) (hnow : now < u64Max) :
    Tidy (r.observe now t status localDenial).2 := by
  unfold Registry.observe
  split
  · exact h
  split
  · exact h.quiet ⟨rfl, rfl, rfl, rfl, rfl, rfl⟩
  case h_2 profile _ =>
    have hupdate := updateClient_tidy h hnow t.domain t.key (r.observeClient profile t status now)
      fun c => (lineage_observed r profile t status now c).ns
    dsimp only
    split
    · exact hupdate
    · exact hupdate.quiet (Quiet.settleObserved _ t now _)

theorem releaseAs_tidy (h : Tidy r) (hnow : now < u64Max) {ns domain identity id : String} :
    Tidy (releaseAs sha256 r now ns domain identity id actor).2 := by
  have hupdate := updateClient_tidy h hnow domain (releaseKey sha256 ns identity)
    (releaseClient now id) fun c => (lineage_released now id c).ns
  unfold releaseAs
  dsimp only
  split
  · exact hupdate
  · exact hupdate.quiet ((Quiet.expireReleased _ now _).trans (Quiet.finishRelease _ now actor _))

theorem activate_tidy (h : Tidy r) (hnow : now < u64Max)
    (hclients : ∀ profile ∈ profiles, 0 < profile.maxClients) :
    Tidy (r.activateWithRetained now profiles retained) := by
  have hbucket : ∀ d b', (r.activateWithRetained now profiles retained).domains.lookup d = some b' →
      Accounted r.limits b' ∧ Populated b' := by
    intro d b' hb'
    simp only [activateWithRetained, lookup_retain] at hb'
    obtain ⟨b, hb, hkept⟩ := bind_eq_some_iff.mp hb'
    exact reprofile_accounted (h.accounted d b hb) hnow hkept
  refine ⟨fun d b hb => (hbucket d b hb).1, fun d b hb => (hbucket d b hb).2, ?_⟩
  intro ns profile hprofile
  rcases AbuseBanSoundness.lookup_nextProfiles hprofile with hnew | hold
  · exact hclients profile hnew
  · exact h.clients ns profile hold

theorem retainHosts_tidy (h : Tidy r) : Tidy (r.retainHosts now hosts) := by
  have hlookup : ∀ d b, (r.retainHosts now hosts).domains.lookup d = some b →
      r.domains.lookup d = some b := by
    intro d b hb
    simp only [Registry.retainHosts, lookup_retain] at hb
    obtain ⟨b₀, hb₀, hkept⟩ := bind_eq_some_iff.mp hb
    split at hkept
    · cases hkept
    · exact hb₀.trans hkept
  exact ⟨fun d b hb => h.accounted d b (hlookup d b hb),
    fun d b hb => h.held d b (hlookup d b hb), h.clients⟩

theorem expireIndexed_tidy (h : Tidy r) (hnow : now < u64Max) :
    Tidy (r.expireIndexed now listingNow entry) := by
  unfold expireIndexed
  split
  · exact h.quiet ⟨rfl, rfl, rfl, rfl, rfl, rfl⟩
  case h_2 a _ =>
    have hupdate := updateClient_tidy h hnow a.domain a.key
      (expireClient listingNow a.decision.id) fun c => by
        rcases expireClient_cell listingNow a.decision.id c with hc | hc
        · rw [hc]
        · rw [hc]; exact Client.settled_ns c listingNow
    exact (hupdate.quiet (Quiet.expireListed _ listingNow _)).quiet ⟨rfl, rfl, rfl, rfl, rfl, rfl⟩

theorem stepListing_tidy (h : Tidy r) (hnow : now < u64Max) : Tidy (r.stepListing now l).2 := by
  unfold Registry.stepListing
  split
  · exact h
  · split
    · exact h
    · exact List.foldlRecOn _ _ h fun r' hr' entry _ => expireIndexed_tidy hr' hnow
  · split
    · exact h
    split
    · exact h
    split
    · exact h
    · exact h

theorem tidy_step (s : Sys) (e : Event) (h : Tidy s.registry) (hfills : Fills s e) :
    Tidy (step sha256 s e).2.registry := by
  obtain ⟨now, action⟩ := e
  obtain ⟨hnow, hfills⟩ := hfills
  cases action with
  | admitClient ns expected domain identity method path =>
    have hstep : AdmissionStep sha256 now s.registry ns domain identity method path _ :=
      admitExpected_step (lasting_of_accounted h.accounted) ns expected domain identity method path
        (domain != DomainStore.OVERFLOW_NAME)
    exact ⟨admitExpected_accounted h.accounted hnow,
      (admitExpected_slots h.accounted hnow h.held h.clients ns expected domain identity method
        path).mpr hfills, by simp only [step, hstep.profiles]; exact h.clients⟩
  | observe i status localDenial =>
    simp only [step]
    cases s.issued[i]? with
    | none => exact h
    | some issue => exact observe_tidy h hnow
  | release ns domain identity id actor => exact releaseAs_tidy h hnow
  | activate profiles retained => exact activate_tidy h hnow hfills
  | retainHosts hosts => exact retainHosts_tidy h
  | startListing profile domain after limit => exact h
  | stepListing i =>
    simp only [step]
    cases s.listings[i]? with
    | none => exact h
    | some l => exact stepListing_tidy h hnow

end run

/-- While every request that takes a slot leaves a client in it, all slots are held; a
request is refused for want of a slot only when that many other domains hold a client
each; and a request leaves no slot without a client exactly when it meets the condition. -/
theorem slots_held_by_clients_iff (sha256 : String → Digest) (epoch : String) (limits : Limits)
    (wall mono : Nat) (queue : Option EventQueue.Queue) (es : List Event)
    (hfills : Trace.Always Fills (step sha256)
      (Sys.start (Registry.new epoch limits wall mono queue)) es) :
    let s := run sha256 (Sys.start (Registry.new epoch limits wall mono queue)) es
    SlotsHeld s.registry ∧
      ∀ now ns expected domain identity method path, now < u64Max →
        let e : Event := ⟨now, .admitClient ns expected domain identity method path⟩
        (CapacityRefused s.registry (s.registry.admitExpected sha256 now ns expected domain identity
            method path (domain != DomainStore.OVERFLOW_NAME)) → HeldByOthers s.registry domain) ∧
          (SlotsHeld (step sha256 s e).2.registry ↔ Fills s e) := by
  intro s
  have htidy : Tidy s.registry :=
    Trace.final_always Fills (step sha256) (fun s => Tidy s.registry) tidy_step es _
      tidy_new hfills
  refine ⟨htidy.held, fun now ns expected domain identity method path hnow => ⟨fun hrefused => ?_, ?_⟩⟩
  · exact heldByOthers_of_refused htidy.held (capacityRefused_full hrefused)
  have hslots : SlotsHeld (step sha256 s ⟨now, .admitClient ns expected domain identity method
      path⟩).2.registry ↔ FillsBy s.registry (.admitClient ns expected domain identity method path) :=
    admitExpected_slots htidy.accounted hnow htidy.held htidy.clients ns expected domain identity
      method path
  exact hslots.trans ⟨fun h => ⟨hnow, h⟩, fun h => h.2⟩

/-- Two logins fill the slot of their shop; a visit of another one takes a slot for nobody. -/
theorem slots_held_by_clients_iff_two_logins :
    let s := run digests (Sys.start (Registry.new "e" ⟨4, 4⟩ 0 0 none)) twoLogins
    SlotsHeld s.registry ∧
      ¬ SlotsHeld (step digests s
        ⟨20, .admitClient "shop" none "other.test" "192.0.2.7" "GET" "/"⟩).2.registry := by
  intro s
  have hall := slots_held_by_clients_iff digests "e" ⟨4, 4⟩ 0 0 none twoLogins (by decide +kernel)
  refine ⟨hall.1, fun hheld => ?_⟩
  have hfills := ((hall.2 20 "shop" none "other.test" "192.0.2.7" "GET" "/" (by decide)).2).mp hheld
  revert hfills
  decide +kernel

/-- One slot, and a visit that no scenario watches. -/
def visited : Sys :=
  run digests (Sys.start (Registry.new "e" ⟨1, 4⟩ 0 0 none))
    [⟨0, .activate [loginProfile] []⟩,
      ⟨10, .admitClient "shop" none "first.test" "192.0.2.7" "GET" "/"⟩]

theorem visited_client (hb : visited.registry.domains.lookup d = some b) : b.client key = none := by
  have hempty : ∀ e ∈ visited.registry.domains.entries, e.2.clients.isEmpty = true := by
    decide +kernel
  have hclients := List.isEmpty_iff.mp (hempty ⟨d, b⟩ ((mem_entries_iff _ _ _).mpr hb))
  cases hc : b.client key with
  | none => rfl
  | some c =>
    have hmem := (b.mem_clients key c).mpr hc
    rw [hclients] at hmem
    cases hmem

/-- The visit keeps the slot for its domain, where nobody is, and a login at another
domain is turned away. -/
theorem unwatched_visit_keeps_slot :
    CapacityRefused visited.registry (visited.registry.admitExpected digests 11 "shop" none
        "second.test" "192.0.2.8" "POST" "/login" true) ∧
      ¬ HeldByOthers visited.registry "second.test" ∧ ¬ SlotsHeld visited.registry := by
  refine ⟨by unfold CapacityRefused; decide +kernel, ?_, ?_⟩
  · rintro ⟨others, -, hlength, hheld⟩
    obtain ⟨d, hd⟩ := List.exists_mem_of_length_pos (l := others) (by rw [hlength]; decide +kernel)
    obtain ⟨-, key, c, hc⟩ := hheld d hd
    obtain ⟨b, hb, hclient⟩ := bind_eq_some_iff.mp hc
    rw [visited_client hb] at hclient
    cases hclient
  · intro hheld
    have hpresent : (visited.registry.domains.lookup "first.test").isSome = true := by decide +kernel
    obtain ⟨b, hb⟩ := isSome_iff_exists.mp hpresent
    obtain ⟨key, c, hc⟩ := hheld "first.test" b hb
    rw [visited_client hb] at hc
    cases hc

end AbuseRegistrySlots
