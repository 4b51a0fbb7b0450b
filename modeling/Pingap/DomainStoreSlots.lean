import Pingap.DomainStoreIsolation

/-!
# Slots of the domain store

An insertion is refused for want of a domain when every slot is taken. Slots come back
lazily: by an operation on their own domain that finds nothing live there, or by a count
over all of them. Until then a domain keeps its slot although nothing of it is live.
-/

namespace DomainStoreSlots

open DomainStore DomainStoreRun DomainStoreIsolation AList List Trace

variable {υ ρ : Type}

/-! ## How many slots there are -/

/-- The slots of a run: never more than the limit, and none is the shared one. -/
structure Bounded (s : ScopedStore υ) : Prop where
  size : s.inner.domains.size ≤ s.limits.maxDomains
  registered : ∀ slot, (s.inner.domains.lookup slot).isSome → slot ≠ OVERFLOW

theorem size_le_of_slots {s s' : ScopedStore υ}
    (h : ∀ slot, (s'.inner.domains.lookup slot).isSome → (s.inner.domains.lookup slot).isSome) :
    s'.inner.domains.size ≤ s.inner.domains.size := by
  apply size_le_of_injOn _ _ id
  · intro slot b hb
    exact h slot (hb ▸ rfl)
  · intro slot slot' b b' _ _ heq
    exact heq

theorem peek_slot {s : ScopedStore υ} (ho : d.isOverflow = false) :
    s.peek d = s.inner.domains.lookup d.slot := by
  simp [ScopedStore.peek, ho]

/-- A call that leaves its domain without a slot adds none. -/
theorem size_le_of_confined (hc : Confined d s s')
    (h : d.isOverflow = false → s.peek d = none → s'.peek d = none) :
    s'.inner.domains.size ≤ s.inner.domains.size := by
  apply size_le_of_slots
  intro slot hslot
  rcases hc.slots slot hslot with hslot | ⟨rfl, ho⟩
  · exact hslot
  cases hown : s.inner.domains.lookup d.slot with
  | some b => rfl
  | none =>
    have hnone := h ho ((peek_slot ho).trans hown)
    rw [peek_slot ho] at hnone
    rw [hnone] at hslot
    cases hslot

def Refused (s : ScopedStore υ) (d : Domain) : Prop :=
  d.isOverflow = false ∧ s.peek d = none ∧ s.limits.maxDomains ≤ s.inner.domains.size

theorem admitBucket_refused (s : ScopedStore υ) (d : Domain) :
    (∃ s', s.admitBucket d = (.error .domains, s')) ↔ Refused s d := by
  unfold Refused ScopedStore.admitBucket ScopedStore.peek
  cases ho : d.isOverflow with
  | true => simp
  | false =>
    cases s.inner.domains.lookup d.slot with
    | some b => simp
    | none =>
      by_cases hfull : s.limits.maxDomains ≤ s.inner.domains.size
      · simp [hfull]
      · simp [hfull]

theorem refused_noteOverflow : Refused (s.noteOverflow d) d ↔ Refused s d := by
  have hc := (Confined.refl d s).noteOverflow
  have hsize : (s.noteOverflow d).inner = s.inner := by
    unfold ScopedStore.noteOverflow
    split <;> rfl
  unfold Refused
  rw [peek_noteOverflow, hc.limits, hsize]

theorem insert_refused_iff (s : ScopedStore υ) (now : Millis) (d : Domain) (identity : String)
    (value : υ) (ttl : MachineArith.Duration) :
    (s.insert now d identity value ttl).1 = .error .domains ↔ Refused s d := by
  rw [← refused_noteOverflow, ← admitBucket_refused]
  unfold ScopedStore.insert
  dsimp only
  split
  · rename_i full s' hadmitted
    obtain ⟨rfl, -⟩ := admitBucket_error _ _ hadmitted
    exact ⟨fun _ => ⟨s', hadmitted⟩, fun _ => rfl⟩
  rename_i b s' hadmitted
  have hb := bucket_insert_not_domains b s'.limits now identity value
    (MachineArith.satAdd64 now (MachineArith.durationMs ttl))
  constructor
  · intro h
    split at h
    · rename_i hr
      rw [hr] at hb
      exact absurd h hb
    · cases h
  · rintro ⟨_, herror⟩
    rw [hadmitted] at herror
    cases herror

/-- Any call adds at most the slot of its domain. -/
theorem size_le_succ_of_confined (hc : Confined d s s') :
    s'.inner.domains.size ≤ s.inner.domains.size + 1 := by
  have hle : s'.inner.domains.size ≤ (s.inner.domains.insert d.slot Bucket.empty).size := by
    apply size_le_of_injOn _ _ id
    · intro slot b hb
      rw [id, lookup_insert_if]
      split
      · rfl
      rename_i hne
      rcases hc.slots slot (hb ▸ rfl) with hslot | ⟨heq, -⟩
      · exact hslot
      · exact absurd heq hne
    · intro slot slot' b b' _ _ heq
      exact heq
  have herase : (s.inner.domains.erase d.slot).size ≤ s.inner.domains.size := by
    cases hb : s.inner.domains.lookup d.slot with
    | none => exact le_of_eq (size_erase_of_none hb)
    | some b =>
      have hsize := size_erase_of_some _ _ _ hb
      omega
  rw [size_insert] at hle
  omega

/-- With every slot taken no call makes another one. -/
theorem perform_absent {op : Op υ ρ} (ho : d.isOverflow = false) (hnone : s.peek d = none)
    (hfull : s.limits.maxDomains ≤ s.inner.domains.size) :
    (perform s now d op).2.peek d = none := by
  have htouch : ∀ {ρ' : Type} (identity : String) (change : υ → υ × ρ'),
      (s.touch now d identity change).2.peek d = none := by
    intro ρ' identity change
    rw [(touch_slot s now d identity change).2, hnone]
    rfl
  cases op with
  | insert identity value ttl =>
    have hrefused := (insert_refused_iff s now d identity value ttl).mpr ⟨ho, hnone, hfull⟩
    exact (insert_refused s now d identity hrefused).trans hnone
  | get identity | withValue identity | contains identity => exact htouch identity _
  | update identity change => exact htouch identity change
  | remove identity => exact (remove_slot s now d identity).2.trans (by rw [hnone]; rfl)
  | entries => exact (entries_slot s now d).2.trans (by rw [hnone]; rfl)
  | retain keep => exact (retain_slot s now d keep).trans (by rw [hnone]; rfl)

theorem perform_size (now : Millis) (d : Domain) (op : Op υ ρ)
    (h : s.inner.domains.size ≤ s.limits.maxDomains) :
    (perform s now d op).2.inner.domains.size ≤ s.limits.maxDomains := by
  have hc := perform_confined s now d op
  by_cases hroom : s.inner.domains.size < s.limits.maxDomains
  · have hle := size_le_succ_of_confined hc
    omega
  have hle := size_le_of_confined hc fun ho hnone =>
    perform_absent ho hnone (not_lt.mp hroom)
  omega

theorem bounded_new (hosts : HostPolicy) (limits : Limits) :
    Bounded (ScopedStore.new hosts limits : ScopedStore υ) where
  size := Nat.zero_le _
  registered := fun slot h => by simp [ScopedStore.new] at h

theorem bounded_step (s : ScopedStore υ) (e : HostEvent υ ρ) (h : Bounded s) :
    Bounded (tenantStep s e).2 := by
  obtain ⟨now, call⟩ := e
  cases call with
  | visit | domainsLive => exact h
  | totalEntries =>
    have hslots : ∀ slot, ((s.totalEntries now).2.inner.domains.lookup slot).isSome →
        (s.inner.domains.lookup slot).isSome := by
      intro slot hs
      simp only [ScopedStore.totalEntries, ScopedStore.bumpReclaimed, lookup_retain] at hs
      cases hb : s.inner.domains.lookup slot with
      | none => simp [hb] at hs
      | some b => rfl
    exact ⟨le_trans (size_le_of_slots hslots) h.size, fun slot hs => h.registered slot (hslots slot hs)⟩
  | on host op =>
    have hc := perform_confined s now (s.hosts.classify host) op
    constructor
    · have hsize := perform_size now (s.hosts.classify host) op h.size
      rwa [← hc.limits] at hsize
    intro slot hs
    rcases hc.slots slot hs with hs | ⟨rfl, ho⟩
    · exact h.registered slot hs
    · simpa [Domain.isOverflow] using ho

/-! ## Who holds the slots -/

def HasLive (s : ScopedStore υ) (now : Millis) (d : Domain) : Prop :=
  ∃ b key entry, s.peek d = some b ∧ b.entries.lookup key = some entry ∧ now < entry.expiresAt

theorem hasLive_iff (s : ScopedStore υ) (now : Millis) (d : Domain) :
    ((s.peek d).any fun b => b.entries.entries.any fun e => decide (now < e.2.expiresAt)) = true ↔
      HasLive s now d := by
  unfold HasLive
  cases hpeek : s.peek d with
  | none => simp
  | some b =>
    rw [Option.any_some, any_eq_true]
    constructor
    · rintro ⟨⟨key, entry⟩, hmem, hlive⟩
      exact ⟨b, key, entry, rfl, (mem_entries_iff _ _ _).mp hmem, of_decide_eq_true hlive⟩
    · rintro ⟨_, key, entry, hb, hlookup, hlive⟩
      cases hb
      exact ⟨⟨key, entry⟩, (mem_entries_iff _ _ _).mpr hlookup, decide_eq_true hlive⟩

instance (s : ScopedStore υ) (now : Millis) (d : Domain) : Decidable (HasLive s now d) :=
  decidable_of_iff _ (hasLive_iff s now d)

/-- As many other registered domains as there may be have the property. -/
def Others (P : Domain → Prop) (s : ScopedStore υ) (d : Domain) : Prop :=
  ∃ tenants : List Domain, tenants.Nodup ∧ tenants.length = s.limits.maxDomains ∧
    ∀ t ∈ tenants, t ≠ d ∧ t.isOverflow = false ∧
      (∃ i, i < s.hosts.registered ∧ t.slot = i % 2 ^ 32) ∧ P t

/-- They hold a slot each. -/
def TakenByOthers (s : ScopedStore υ) (d : Domain) : Prop := Others (fun t => s.peek t ≠ none) s d

/-- They hold an entry each that has not expired. -/
def HeldByOthers (s : ScopedStore υ) (now : Millis) (d : Domain) : Prop := Others (HasLive s now) s d

/-- Every domain that has a slot holds such an entry. -/
def AllLive (s : ScopedStore υ) (now : Millis) : Prop :=
  ∀ slot, (s.inner.domains.lookup slot).isSome → HasLive s now ⟨slot⟩

section others

variable {P : Domain → Prop} {s : ScopedStore υ} {d : Domain}

theorem mem_keys_iff : slot ∈ s.inner.domains.keys ↔ (s.inner.domains.lookup slot).isSome :=
  mem_keys.symm.trans lookup_isSome.symm

theorem subperm_slots {tenants : List Domain} (hnodup : tenants.Nodup)
    (hall : ∀ t ∈ tenants, t.isOverflow = false ∧ s.peek t ≠ none) :
    (tenants.map Domain.slot).Subperm s.inner.domains.keys := by
  refine subperm_of_subset
    (Nodup.map (fun a b heq => by cases a; cases b; cases heq; rfl) hnodup) fun slot hmem => ?_
  obtain ⟨t, ht, rfl⟩ := mem_map.mp hmem
  obtain ⟨hown, hpeek⟩ := hall t ht
  rw [peek_slot hown] at hpeek
  exact mem_keys_iff.mpr (Option.isSome_iff_ne_none.mpr hpeek)

/-- Where no slot is left, the others have a property of slots when every slot has it. -/
theorem others_iff (hb : Bounded s) (hslots : SlotsRegistered s) (hrefused : Refused s d)
    (hP : ∀ t, P t → s.peek t ≠ none) :
    Others P s d ↔ ∀ slot, (s.inner.domains.lookup slot).isSome → P ⟨slot⟩ := by
  obtain ⟨ho, hnone, hfull⟩ := hrefused
  have hsize : s.inner.domains.keys.length = s.limits.maxDomains := by
    rw [← size_keys]
    exact le_antisymm hb.size hfull
  constructor
  · -- the tenants are as many as the slots, so that every slot is one of theirs
    rintro ⟨tenants, hnodup, hlength, hall⟩ slot hslot
    have hperm := (subperm_slots hnodup fun t ht => ⟨(hall t ht).2.1, hP t (hall t ht).2.2.2⟩)
      |>.perm_of_length_le (by rw [length_map, hlength, hsize])
    obtain ⟨t, ht, rfl⟩ := mem_map.mp (hperm.mem_iff.mpr (mem_keys_iff.mpr hslot))
    exact (hall t ht).2.2.2
  · intro hall
    refine ⟨s.inner.domains.keys.map Domain.mk, ?_, ?_, ?_⟩
    · exact Nodup.map (fun a b heq => by cases heq; rfl) (keys_nodup _)
    · rw [length_map, hsize]
    intro t ht
    obtain ⟨slot, hmem, rfl⟩ := mem_map.mp ht
    have hslot := mem_keys_iff.mp hmem
    refine ⟨?_, by simpa [Domain.isOverflow] using hb.registered slot hslot, hslots slot hslot,
      hall slot hslot⟩
    rintro rfl
    rw [peek_slot ho] at hnone
    rw [hnone] at hslot
    cases hslot

theorem peek_of_hasLive (h : HasLive s now d) : s.peek d ≠ none := by
  obtain ⟨b, -, -, hpeek, -⟩ := h
  rw [hpeek]
  exact Option.some_ne_none b

theorem heldByOthers_iff (hb : Bounded s) (hslots : SlotsRegistered s) (hrefused : Refused s d) :
    HeldByOthers s now d ↔ AllLive s now :=
  others_iff hb hslots hrefused fun _ => peek_of_hasLive

/-- An insertion is refused when its own domain has no slot and others have them all. -/
theorem refused_iff_taken (hb : Bounded s) (hslots : SlotsRegistered s) :
    Refused s d ↔ d.isOverflow = false ∧ s.peek d = none ∧ TakenByOthers s d := by
  refine ⟨fun h => ⟨h.1, h.2.1, (others_iff hb hslots h fun _ => id).mpr fun slot hslot => ?_⟩, ?_⟩
  · have ho : (⟨slot⟩ : Domain).isOverflow = false := by
      simpa [Domain.isOverflow] using hb.registered slot hslot
    rw [peek_slot ho]
    exact Option.isSome_iff_ne_none.mp hslot
  · rintro ⟨ho, hnone, tenants, hnodup, hlength, hall⟩
    have hle := (subperm_slots hnodup fun t ht => ⟨(hall t ht).2.1, (hall t ht).2.2.2⟩).length_le
    rw [length_map, hlength, ← size_keys] at hle
    exact ⟨ho, hnone, hle⟩

end others

/-! ## How a slot comes back -/

/-- The call looks at an entry of the bucket, or at all of them. -/
def Looks (b : Bucket υ) : Op υ ρ → Prop
  | .entries | .retain _ => True
  | .get identity | .withValue identity _ | .update identity _ | .contains identity =>
    (b.entries.lookup identity).isSome = true
  | .insert _ _ _ | .remove _ => False

theorem size_retain_eq_zero {m : KeyedMap String α} {f : String → α → Option α}
    (h : ∀ key value, m.lookup key = some value → f key value = none) :
    (m.retain f).size = 0 := by
  refine size_eq_zero_of_lookup _ fun key => ?_
  rw [lookup_retain, Option.bind_eq_none_iff]
  exact h key

/-- A domain with nothing live gives its slot back to the first call that looks at it. -/
theorem slot_given_back {op : Op υ ρ} (ho : d.isOverflow = false) (hb : s.peek d = some b)
    (hdead : ¬ HasLive s now d) (hlooks : Looks b op) : (perform s now d op).2.peek d = none := by
  have hexpired : ∀ key entry, b.entries.lookup key = some entry → ¬ now < entry.expiresAt :=
    fun key entry hkey hlive => hdead ⟨b, key, entry, hb, hkey, hlive⟩
  have hempty : (reclaim b.entries now).size = 0 :=
    size_retain_eq_zero fun key entry hkey => if_neg (hexpired key entry hkey)
  have htouch : ∀ {ρ' : Type} (identity : String) (change : υ → υ × ρ'),
      (b.entries.lookup identity).isSome = true →
        (s.touch now d identity change).2.peek d = none := by
    intro ρ' identity change hsome
    obtain ⟨entry, hentry⟩ := Option.isSome_iff_exists.mp hsome
    rw [(touch_slot s now d identity change).2, hb]
    simp only [slotTouch, Bucket.find, hentry, if_neg (hexpired _ _ hentry)]
    exact if_pos ⟨ho, hempty⟩
  cases op with
  | insert | remove => exact hlooks.elim
  | get identity | withValue identity | contains identity => exact htouch identity _ hlooks
  | update identity change => exact htouch identity change hlooks
  | entries =>
    refine (entries_slot s now d).2.trans ?_
    rw [hb]
    exact if_pos ⟨ho, hempty⟩
  | retain keep =>
    refine (retain_slot s now d keep).trans ?_
    rw [hb]
    exact if_pos ⟨ho, size_retain_eq_zero fun key entry hkey => if_neg (hexpired key entry hkey)⟩

/-- After a count over all domains every slot holds something live. -/
theorem allLive_totalEntries (hb : Bounded s) (now : Millis) : AllLive (s.totalEntries now).2 now := by
  intro slot hslot
  simp only [ScopedStore.totalEntries, ScopedStore.bumpReclaimed, lookup_retain] at hslot
  cases hlookup : s.inner.domains.lookup slot with
  | none =>
    rw [hlookup] at hslot
    cases hslot
  | some b =>
    have ho : (⟨slot⟩ : Domain).isOverflow = false := by
      simpa [Domain.isOverflow] using hb.registered slot (hlookup ▸ rfl)
    rw [hlookup, Option.bind_some] at hslot
    split at hslot
    · cases hslot
    case isFalse hsome =>
      have hkept : (s.totalEntries now).2.peek ⟨slot⟩ = some (b.sweep now) := by
        rw [peek_slot ho]
        simp only [ScopedStore.totalEntries, ScopedStore.bumpReclaimed, lookup_retain, hlookup,
          Option.bind_some, if_neg hsome]
      unfold ScopedStore.allExpired at hsome
      simp only [all_eq_true, decide_eq_true_eq, not_forall, not_le] at hsome
      obtain ⟨⟨key, entry⟩, hmem, hlive⟩ := hsome
      have hkey := (mem_entries_iff _ _ _).mp hmem
      refine ⟨b.sweep now, key, entry, hkept, ?_, hlive⟩
      rw [Bucket.sweep, reclaim, lookup_retain, hkey]
      exact if_pos hlive

theorem step_refused_iff (s : ScopedStore υ) (now : Millis) (host identity : String) (value : υ)
    (ttl : MachineArith.Duration) :
    (tenantStep s (⟨now, .on host (.insert identity value ttl)⟩ : HostEvent υ ρ)).1 =
      .inserted (.error .domains) ↔ Refused s (s.hosts.classify host) := by
  rw [← insert_refused_iff s now (s.hosts.classify host) identity value ttl]
  exact Answer.inserted.injEq _ _ ▸ Iff.rfl

theorem bounded_run (hosts : HostPolicy) (limits : Limits) (events : List (HostEvent υ ρ)) :
    Bounded (final tenantStep (ScopedStore.new hosts limits) events) ∧
      SlotsRegistered (final tenantStep (ScopedStore.new hosts limits) events) :=
  ⟨final_invariant _ _ bounded_step events _ (bounded_new hosts limits),
    final_invariant _ _ slotsRegistered_step events _ (slotsRegistered_new hosts limits)⟩

/-- After any run an insertion is refused a domain exactly when its own has no slot and others
hold all of them. A domain with nothing live gives its slot back to the first call that looks
at it; and right after a count over all domains, only others that hold something live keep an
insertion out. -/
theorem domains_refused_iff (hosts : HostPolicy) (limits : Limits) (events : List (HostEvent υ ρ))
    (now : Millis) (host identity : String) (value : υ) (ttl : MachineArith.Duration) :
    let s := final tenantStep (ScopedStore.new hosts limits) events
    let insertion : HostEvent υ ρ := ⟨now, .on host (.insert identity value ttl)⟩
    let counted := (tenantStep s (⟨now, .totalEntries⟩ : HostEvent υ ρ)).2
    ((tenantStep s insertion).1 = .inserted (.error .domains) ↔
      (s.hosts.classify host).isOverflow = false ∧ s.peek (s.hosts.classify host) = none ∧
        TakenByOthers s (s.hosts.classify host)) ∧
    (∀ t b (op : Op υ ρ), t.isOverflow = false → s.peek t = some b → ¬ HasLive s now t →
      Looks b op → (perform s now t op).2.peek t = none) ∧
    ((tenantStep counted insertion).1 = .inserted (.error .domains) →
      HeldByOthers counted now (counted.hosts.classify host)) := by
  intro s insertion counted
  obtain ⟨hb, hslots⟩ := bounded_run hosts limits events
  refine ⟨?_, fun t b op ho hpeek hdead hlooks => slot_given_back ho hpeek hdead hlooks, ?_⟩
  · rw [step_refused_iff]
    exact refused_iff_taken hb hslots
  · intro hrefused
    exact (heldByOthers_iff (bounded_step s _ hb) (slotsRegistered_step s _ hslots)
      ((step_refused_iff counted now host identity value ttl).mp hrefused)).mpr
        (allLive_totalEntries hb now)

/-- Whatever the hosts, a run takes no more slots than the limit, all for registered names. -/
theorem slots_of_registered_names (hosts : HostPolicy) (limits : Limits)
    (events : List (HostEvent υ ρ)) :
    let s := final tenantStep (ScopedStore.new hosts limits : ScopedStore υ) events
    Bounded s ∧ SlotsRegistered s :=
  bounded_run hosts limits events

/-! ## A slot that nothing lives in -/

def twoHosts : HostPolicy := HostPolicy.new ["a.example", "b.example"]

def shortLived : List (HostEvent Nat Nat) :=
  [⟨0, .on "a.example" (.insert "client" 1 10000000)⟩]

/-- The only entry of the first tenant has expired after ten milliseconds, and its slot
still keeps the second one out. -/
theorem expired_tenant_keeps_slot :
    let s := final tenantStep (ScopedStore.new twoHosts ⟨1, 10⟩) shortLived
    (tenantStep s (⟨20, .on "b.example" (.insert "client" 1 10000000)⟩ : HostEvent Nat Nat)).1 =
        .inserted (.error .domains) ∧
      ¬ HeldByOthers s 20 (s.hosts.classify "b.example") := by
  intro s
  have hanswer : (tenantStep s
      (⟨20, .on "b.example" (.insert "client" 1 10000000)⟩ : HostEvent Nat Nat)).1 =
        .inserted (.error .domains) := by decide +kernel
  refine ⟨hanswer, fun hheld => ?_⟩
  have hrefused := (step_refused_iff s 20 "b.example" "client" 1 10000000).mp hanswer
  obtain ⟨hb, hslots⟩ := bounded_run twoHosts ⟨1, 10⟩ shortLived
  have hlive := (heldByOthers_iff hb hslots hrefused).mp hheld
  exact absurd (hlive 0 (by decide +kernel)) (by decide +kernel)

end DomainStoreSlots
