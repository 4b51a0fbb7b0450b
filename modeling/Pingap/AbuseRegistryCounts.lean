import Pingap.AbuseRegistryTurnover
import Pingap.DomainStoreSlots

/-!
# What the registry counts

A bucket counts the clients of each namespace beside the store that holds them. No
operation lets a count exceed the clients there are, so that a bucket which turns a
client away for want of room is not empty. For every part of an admission this
module says what it does to the slots: whose stay as they are, and when the bucket
of the request holds a client afterwards.
-/

namespace AbuseRegistryCounts

open MachineArith AbuseScenario AbuseRegistry DomainStoreForever AList Bool List Option
open AbuseRegistry.Registry (clientCount clientKey countOneMore countClients discount keepClient)
open DomainStore (HostPolicy Limits ScopedStore Domain)
open DomainStoreRun (Confined)
open Registry hiding hosts limits profiles

/-! ## The clients of one namespace -/

/-- The keys under which a bucket holds clients of a namespace. -/
def owners (b : ClientBucket) (ns : String) : List String :=
  (b.clients.filter fun e => e.2.ns = ns).map Prod.fst

def Populated (b : ClientBucket) : Prop := ∃ key c, b.client key = some c

section owners

variable {b b' : ClientBucket}

theorem mem_owners (ns key : String) :
    key ∈ owners b ns ↔ ∃ c, b.client key = some c ∧ c.ns = ns := by
  unfold owners
  rw [List.mem_map]
  constructor
  · rintro ⟨⟨key', c⟩, hmem, rfl⟩
    obtain ⟨hclient, hns⟩ := mem_filter.mp hmem
    exact ⟨c, (b.mem_clients key' c).mp hclient, of_decide_eq_true hns⟩
  · rintro ⟨c, hc, hns⟩
    exact ⟨(key, c), mem_filter.mpr ⟨(b.mem_clients key c).mpr hc, decide_eq_true hns⟩, rfl⟩

theorem nodup_owners (b : ClientBucket) (ns : String) : (owners b ns).Nodup :=
  b.nodup_clients.sublist (filter_sublist.map _)

theorem populated_of_owners (ns : String) (h : 0 < (owners b ns).length) : Populated b := by
  obtain ⟨key, hkey⟩ := exists_mem_of_length_pos h
  obtain ⟨c, hc, -⟩ := (mem_owners ns key).mp hkey
  exact ⟨key, c, hc⟩

def KeepsClients (b b' : ClientBucket) : Prop :=
  ∀ key c, b.client key = some c → ∃ c', b'.client key = some c' ∧ c'.ns = c.ns

theorem KeepsClients.owners_le (h : KeepsClients b b') (ns : String) :
    (owners b ns).length ≤ (owners b' ns).length := by
  apply (subperm_of_subset (nodup_owners b ns) _).length_le
  intro key hkey
  obtain ⟨c, hc, hns⟩ := (mem_owners ns key).mp hkey
  obtain ⟨c', hc', hsame⟩ := h key c hc
  exact (mem_owners ns key).mpr ⟨c', hc', hsame.trans hns⟩

theorem KeepsClients.populated (h : KeepsClients b b') (hb : Populated b) : Populated b' := by
  obtain ⟨key, c, hc⟩ := hb
  obtain ⟨c', hc', -⟩ := h key c hc
  exact ⟨key, c', hc'⟩

/-- A client more under a key that was free. -/
theorem owners_succ_le (h : KeepsClients b b') (hnone : b.client key = none)
    (hc : b'.client key = some c) : (owners b c.ns).length + 1 ≤ (owners b' c.ns).length := by
  have hnodup : (key :: owners b c.ns).Nodup := by
    refine List.nodup_cons.mpr ⟨fun hmem => ?_, nodup_owners b c.ns⟩
    obtain ⟨c', hc', -⟩ := (mem_owners c.ns key).mp hmem
    rw [hnone] at hc'
    cases hc'
  apply (subperm_of_subset hnodup _).length_le
  intro key' hkey'
  rcases mem_cons.mp hkey' with rfl | hkey'
  · exact (mem_owners c.ns key').mpr ⟨c, hc, rfl⟩
  obtain ⟨c', hc', hns⟩ := (mem_owners c.ns key').mp hkey'
  obtain ⟨c'', hc'', hsame⟩ := h key' c' hc'
  exact (mem_owners c.ns key').mpr ⟨c'', hc'', hsame.trans hns⟩

end owners

/-! ## Counts -/

theorem countClients_lookup :
    ((countClients clients).lookup ns).getD 0 = clients.countP fun e => e.2.ns = ns := by
  have hfold : ∀ (l : List (String × Client)) (m : KeyedMap String Nat),
      ((l.foldl (fun (m : KeyedMap String Nat) e =>
        m.insert e.2.ns ((m.lookup e.2.ns).getD 0 + 1)) m).lookup ns).getD 0 =
      (m.lookup ns).getD 0 + l.countP fun e => e.2.ns = ns := by
    intro l
    induction l with
    | nil => exact fun m => rfl
    | cons e l ih =>
      intro m
      rw [foldl_cons, ih, countP_cons, lookup_insert_if]
      by_cases hns : e.2.ns = ns
      · subst hns
        simp only [if_true, getD_some, decide_true]
        omega
      · simp [hns, Ne.symm hns]
  have h := hfold clients ∅
  rw [lookup_empty, getD_none, Nat.zero_add] at h
  exact h

/-- The purge takes one off the count of a namespace for each client it gives up. -/
theorem discount_lookup :
    ((discount now clients m).lookup ns).getD 0 = (m.lookup ns).getD 0 -
      (clients.filter fun e => e.2.ns = ns).countP fun e => (keepClient now e.2).isNone := by
  unfold discount
  induction clients generalizing m with
  | nil => rfl
  | cons e clients ih =>
    rw [foldl_cons, ih]
    cases hkeep : keepClient now e.2 with
    | some c =>
      by_cases hns : e.2.ns = ns
      · simp [hns, hkeep]
      · simp [hns]
    | none =>
      simp only [isSome_none, false_eq_true, if_false, lookup_modify]
      by_cases hns : e.2.ns = ns
      · subst hns
        cases hm : m.lookup e.2.ns with
        | none => simp
        | some n =>
          simp only [if_true, map_some, getD_some, decide_true, filter_cons,
            countP_cons, hkeep, isNone_none]
          omega
      · simp [hns, Ne.symm hns]

/-! ## Buckets whose counts are right -/

/-- A bucket of the registry: its store holds this one domain, and it counts no
client that it does not hold. -/
structure Accounted (limits : Limits) (b : ClientBucket) : Prop where
  forever : Forever b.store b.domain
  bounds : b.store.limits = limits
  room : 0 < limits.maxDomains
  slots : ∀ slot, (b.store.inner.domains.lookup slot).isSome → slot = b.domain.slot
  counted : ∀ ns, clientCount b ns ≤ (owners b ns).length
  fits : Populated b → 0 < limits.maxEntriesPerDomain

section accounted

variable {limits : Limits} {b b' : ClientBucket} {now : Nat}

theorem slots_confined (hc : Confined d s s')
    (h : ∀ slot, (s.inner.domains.lookup slot).isSome → slot = d.slot) (slot : Nat)
    (hs : (s'.inner.domains.lookup slot).isSome) : slot = d.slot := by
  rcases hc.slots slot hs with hs | hs
  · exact h slot hs
  · exact hs.1

/-- A store that stayed with its domain, beside counts that are right for it. -/
theorem accounted_of (h : Accounted limits b) (hf : Forever store b.domain)
    (hc : Confined b.domain b.store store)
    (hcounted : ∀ ns, clientCount ⟨store, b.domain, counts⟩ ns ≤
      (owners ⟨store, b.domain, counts⟩ ns).length)
    (hfits : Populated ⟨store, b.domain, counts⟩ → 0 < limits.maxEntriesPerDomain) :
    Accounted limits ⟨store, b.domain, counts⟩ :=
  ⟨hf, hc.limits.trans h.bounds, h.room, slots_confined hc h.slots, hcounted, hfits⟩

/-- The store was changed client by client and the counts stayed. -/
theorem accounted_kept (h : Accounted limits b) (hf : Forever store b.domain)
    (hc : Confined b.domain b.store store) (hkeeps : KeepsClients b { b with store := store })
    (hback : KeepsClients { b with store := store } b) :
    Accounted limits { b with store := store } :=
  accounted_of h hf hc (fun ns => le_trans (h.counted ns) (hkeeps.owners_le ns))
    fun hp => h.fits (hback.populated hp)

theorem accounted_new (hroom : 0 < limits.maxDomains) :
    Accounted limits ⟨ScopedStore.new hosts limits, d, ∅⟩ where
  forever := forever_new
  bounds := rfl
  room := hroom
  slots := fun slot h => by simp [ScopedStore.new] at h
  counted := fun ns => Nat.zero_le _
  fits := by
    rintro ⟨key, c, hc⟩
    rw [show (⟨ScopedStore.new hosts limits, d, ∅⟩ : ClientBucket).client key = none from
      valueAt_new hosts limits d key] at hc
    cases hc

/-- A change of one client that keeps its namespace. -/
theorem touch_keeps (hf : Forever b.store b.domain) (hnow : now < u64Max) (key : String)
    (change : Client → Client × ρ) (hns : ∀ c, (change c).1.ns = c.ns) :
    KeepsClients b { b with store := (b.store.touch now b.domain key change).2 } ∧
      KeepsClients { b with store := (b.store.touch now b.domain key change).2 } b := by
  have hvalue : ∀ k, ({ b with store := (b.store.touch now b.domain key change).2 } :
      ClientBucket).client k =
        if k = key then (b.client k).map fun c => (change c).1 else b.client k :=
    (touch_turned hf now key change).timely hnow
  constructor
  · intro k c hc
    rw [hvalue, hc]
    split
    · exact ⟨(change c).1, rfl, hns c⟩
    · exact ⟨c, rfl, rfl⟩
  · intro k c hc
    rw [hvalue] at hc
    split at hc
    · obtain ⟨c', hc', rfl⟩ := map_eq_some_iff.mp hc
      exact ⟨c', hc', (hns c').symm⟩
    · exact ⟨c, hc, rfl⟩

theorem touch_accounted (h : Accounted limits b) (hnow : now < u64Max)
    (change : Client → Client × ρ) (hns : ∀ c, (change c).1.ns = c.ns) :
    Accounted limits { b with store := (b.store.touch now b.domain key change).2 } := by
  obtain ⟨hkeeps, hback⟩ := touch_keeps h.forever hnow key change hns
  exact accounted_kept h (touch_turned h.forever now key change).forever
    (Confined.touch now key change) hkeeps hback

/-- A count of the clients drops none. -/
theorem entries_client (hf : Forever b.store b.domain) (hnow : now < u64Max) (key : String) :
    ({ b with store := (b.store.entries now b.domain).2 } : ClientBucket).client key =
      b.client key :=
  (entries_turned hf now).timely hnow key

theorem keepsClients_of_eq (h : ∀ key, b'.client key = b.client key) : KeepsClients b b' := by
  intro key c hc
  exact ⟨c, (h key).trans hc, rfl⟩

theorem entries_accounted (h : Accounted limits b) (hnow : now < u64Max) :
    Accounted limits { b with store := (b.store.entries now b.domain).2 } :=
  accounted_kept h (entries_turned h.forever now).forever (Confined.entries now)
    (keepsClients_of_eq (entries_client h.forever hnow))
    (keepsClients_of_eq fun key => (entries_client h.forever hnow key).symm)

theorem retain_client (hf : Forever b.store b.domain) (hnow : now < u64Max)
    (keep : String → Client → Option Client) (key : String) (counts : KeyedMap String Nat) :
    (⟨b.store.retain now b.domain keep, b.domain, counts⟩ : ClientBucket).client key =
      (b.client key).bind (keep key) :=
  (retain_turned hf now keep).timely hnow key

theorem keepClient_ns (h : keepClient now c = some c') : c'.ns = c.ns := by
  simp only [keepClient] at h
  split at h
  · obtain rfl := Option.some.inj h
    exact Client.settled_ns c now
  · cases h

/-- What the purge keeps and what it gives up make up the clients of a namespace. -/
theorem purge_owners (hf : Forever b.store b.domain) (hnow : now < u64Max) (ns : String) :
    (owners b ns).length ≤ (owners (purge now b).2 ns).length +
      (b.clients.filter fun e => e.2.ns = ns).countP fun e => (keepClient now e.2).isNone := by
  rw [countP_eq_length_filter, ← length_map Prod.fst, ← length_append]
  apply (subperm_of_subset (nodup_owners b ns) _).length_le
  intro key hkey
  obtain ⟨c, hc, hns⟩ := (mem_owners ns key).mp hkey
  cases hkeep : keepClient now c with
  | some c' =>
    refine mem_append_left _ ((mem_owners ns key).mpr ⟨c', ?_, (keepClient_ns hkeep).trans hns⟩)
    exact (retain_client hf hnow _ key _).trans (by rw [hc]; exact hkeep)
  | none =>
    refine mem_append_right _ (mem_map.mpr ⟨(key, c), ?_, rfl⟩)
    refine mem_filter.mpr ⟨mem_filter.mpr ⟨(b.mem_clients key c).mpr hc, ?_⟩, ?_⟩
    · exact decide_eq_true hns
    · simp [hkeep]

theorem purge_accounted (h : Accounted limits b) (hnow : now < u64Max) :
    Accounted limits (purge now b).2 := by
  refine accounted_of h (retain_turned h.forever now _).forever (Confined.retain now _)
    (fun ns => ?_) ?_
  · have hcount : clientCount (purge now b).2 ns = clientCount b ns -
        (b.clients.filter fun e => e.2.ns = ns).countP fun e => (keepClient now e.2).isNone := by
      have hvisit := visit_clients b h.forever now
      rw [if_pos hnow] at hvisit
      simp only [clientCount, purge, hvisit]
      exact discount_lookup
    have howners := purge_owners h.forever hnow ns
    have hbefore := h.counted ns
    change clientCount (purge now b).2 ns ≤ (owners (purge now b).2 ns).length
    omega
  · rintro ⟨key, c, hc⟩
    rw [retain_client h.forever hnow] at hc
    obtain ⟨c', hc', -⟩ := bind_eq_some_iff.mp hc
    exact h.fits ⟨key, c', hc'⟩

/-- The entries an insertion finds where the bucket holds nobody. -/
theorem entries_of_not_populated (hempty : ¬ Populated b) :
    ((b.store.peek b.domain).getD DomainStore.Bucket.empty).entries.size = 0 := by
  cases hb : b.store.peek b.domain with
  | none => rfl
  | some bucket =>
    apply size_eq_zero_of_lookup
    intro key
    cases hk : bucket.entries.lookup key with
    | none => exact hk
    | some entry =>
      exact absurd ⟨key, entry.value, (valueAt_some hb key).trans (by rw [hk]; rfl)⟩ hempty

/-- The store of a bucket never lacks a slot for its domain. -/
theorem insert_not_refused (h : Accounted limits b) (key : String) (c : Client) :
    (b.store.insert now b.domain key c durationMax).1 ≠ .error .domains := by
  intro hrefused
  obtain ⟨ho, hnone, hfull⟩ :=
    (DomainStoreSlots.insert_refused_iff b.store now b.domain key c durationMax).mp hrefused
  have hsize : b.store.inner.domains.size = 0 := by
    apply size_eq_zero_of_lookup
    intro slot
    cases hslot : b.store.inner.domains.lookup slot with
    | none => rfl
    | some bucket =>
      obtain rfl := h.slots slot (by rw [hslot]; rfl)
      rw [DomainStoreSlots.peek_slot ho, hslot] at hnone
      cases hnone
  have hroom := h.room
  rw [h.bounds] at hfull
  omega

/-- A bucket without clients takes one in, if it may hold any. -/
theorem insert_empty (h : Accounted limits b) (hempty : ¬ Populated b)
    (hfits : 0 < limits.maxEntriesPerDomain) (key : String) :
    (b.store.insert now b.domain key c durationMax).1 = .ok () := by
  have hsize := entries_of_not_populated hempty
  rw [(DomainStoreRun.insert_slot b.store now b.domain key
    (insert_not_refused h key c)).1, h.bounds]
  generalize (b.store.peek b.domain).getD DomainStore.Bucket.empty = bucket at hsize
  have hroom : ¬ limits.maxEntriesPerDomain ≤ (bucket.entries.erase key).size := by
    rw [size_erase_of_none (lookup_eq_none_of_size_zero hsize key)]
    omega
  simp [DomainStore.Bucket.insert, hroom]

/-- An insertion under a free key that succeeds found room for an entry. -/
theorem insert_fits (h : Accounted limits b) (hnone : b.client key = none)
    (hok : (b.store.insert now b.domain key c durationMax).1 = .ok ()) :
    0 < limits.maxEntriesPerDomain := by
  have hfree : ((b.store.peek b.domain).getD DomainStore.Bucket.empty).entries.lookup key = none := by
    cases hb : b.store.peek b.domain with
    | none => rfl
    | some bucket =>
      have hvalue := (valueAt_some hb key).symm.trans hnone
      exact Option.map_eq_none_iff.mp hvalue
  rw [(DomainStoreRun.insert_slot b.store now b.domain key
    (insert_not_refused h key c)).1, h.bounds] at hok
  generalize (b.store.peek b.domain).getD DomainStore.Bucket.empty = bucket at hok hfree
  by_contra hzero
  have hfull : limits.maxEntriesPerDomain = 0 := by omega
  simp [DomainStore.Bucket.insert, hfree, hfull] at hok

theorem insert_client (hf : Forever b.store b.domain) (hnow : now < u64Max) (key : String)
    (c : Client) (k : String) (counts : KeyedMap String Nat) :
    (⟨(b.store.insert now b.domain key c durationMax).2, b.domain, counts⟩ : ClientBucket).client k =
      if k = key ∧ (b.store.insert now b.domain key c durationMax).1 = .ok () then some c
      else b.client k :=
  (insert_turned hf now key c).timely hnow k

theorem clientCount_countOneMore :
    clientCount ⟨store, b.domain, countOneMore b.counts ns⟩ ns' =
      clientCount b ns' + if ns' = ns then 1 else 0 := by
  unfold clientCount countOneMore
  rw [lookup_insert_if]
  by_cases hns : ns' = ns
  · subst hns
    simp
  · simp [hns]

section

variable (h : Accounted limits b) (hnow : now < u64Max)
include h hnow

/-- The bucket once a client was stored under a free key. -/
theorem stored_accounted (c : Client) (hnone : b.client key = none)
    (hok : (b.store.insert now b.domain key c durationMax).1 = .ok ()) :
    Accounted limits ⟨(b.store.insert now b.domain key c durationMax).2, b.domain,
      countOneMore b.counts c.ns⟩ := by
  refine accounted_of h (insert_turned h.forever now key c).forever
    (Confined.insert now key c durationMax) (fun ns => ?_) fun _ => insert_fits h hnone hok
  have hclient := insert_client h.forever hnow key c
  have hkeeps : KeepsClients b ⟨(b.store.insert now b.domain key c durationMax).2, b.domain,
      countOneMore b.counts c.ns⟩ := by
    intro k c' hc'
    refine ⟨c', ?_, rfl⟩
    rw [hclient, if_neg]
    · exact hc'
    · rintro ⟨rfl, -⟩
      rw [hnone] at hc'
      cases hc'
  rw [clientCount_countOneMore]
  split
  case isTrue hns =>
    subst hns
    have hmore := owners_succ_le hkeeps hnone ((hclient key _).trans (if_pos ⟨rfl, hok⟩))
    have hbefore := h.counted c.ns
    omega
  case isFalse => exact le_trans (h.counted ns) (hkeeps.owners_le ns)

/-- The bucket that had no place for a client. -/
theorem refused_accounted (key : String) (c : Client)
    (herror : (b.store.insert now b.domain key c durationMax).1 ≠ .ok ()) :
    Accounted limits { b with store := (b.store.insert now b.domain key c durationMax).2 } := by
  have hclient : ∀ k, ({ b with store := (b.store.insert now b.domain key c durationMax).2 } :
      ClientBucket).client k = b.client k := by
    intro k
    rw [show ({ b with store := _ } : ClientBucket).client k = _ from
      insert_client h.forever hnow key c k b.counts]
    simp [herror]
  exact accounted_kept h (insert_turned h.forever now key c).forever
    (Confined.insert now key c durationMax) (keepsClients_of_eq hclient)
    (keepsClients_of_eq fun k => (hclient k).symm)

theorem retain_accounted (keep : String → Client → Option Client) :
    Accounted limits ⟨b.store.retain now b.domain keep, b.domain,
      countClients ((b.store.retain now b.domain keep).visit now b.domain)⟩ := by
  have hforever := (retain_turned h.forever now keep).forever
  refine accounted_of h hforever (Confined.retain now keep) (fun ns => ?_) ?_
  · have hvisit := visit_clients ⟨b.store.retain now b.domain keep, b.domain,
      countClients ((b.store.retain now b.domain keep).visit now b.domain)⟩ hforever now
    rw [if_pos hnow] at hvisit
    unfold clientCount owners
    rw [countClients_lookup, length_map, ← countP_eq_length_filter, ← hvisit]
  · rintro ⟨key, c, hc⟩
    rw [retain_client h.forever hnow] at hc
    obtain ⟨c', hc', -⟩ := bind_eq_some_iff.mp hc
    exact h.fits ⟨key, c', hc'⟩

end

theorem populated_of_entries (h : 0 < (b.store.entries now b.domain).1) : Populated b := by
  by_contra hempty
  have hsize := entries_of_not_populated hempty
  rw [(DomainStoreRun.entries_slot b.store now b.domain).1] at h
  cases hb : b.store.peek b.domain with
  | none => simp [hb, DomainStoreRun.slotEntries] at h
  | some bucket =>
    rw [hb] at h hsize
    have hle : (DomainStore.reclaim bucket.entries now).size ≤ bucket.entries.size :=
      size_retain_le bucket.entries
    simp only [DomainStoreRun.slotEntries, getD_some] at h hsize
    omega

/-- A bucket that is left by an activation holds a client and has been counted anew. -/
theorem reprofile_accounted (h : Accounted limits b)
    (hnow : now < u64Max) (hb' : reprofile profiles now b = some b') :
    Accounted limits b' ∧ Populated b' := by
  have hkept := retain_accounted h hnow fun _ c =>
    if Registry.inForce profiles c then some c else none
  simp only [reprofile] at hb'
  split at hb'
  case isFalse => cases hb'
  case isTrue hcount =>
    obtain rfl := Option.some.inj hb'
    refine ⟨entries_accounted hkept hnow, ?_⟩
    exact (keepsClients_of_eq (entries_client hkept.forever hnow)).populated
      (populated_of_entries hcount)

end accounted

/-! ## The registry -/

/-- Every bucket counts no client that it does not hold. -/
def BucketsAccounted (r : Registry) : Prop :=
  ∀ d b, r.domains.lookup d = some b → Accounted r.limits b

/-- Whoever takes a slot has a client in it. -/
def PopulatedAt (r : Registry) (d : String) : Prop :=
  ∀ b, r.domains.lookup d = some b → Populated b

/-- A step of an admission on `domain`: the slots of all other domains are as they
were, its own stays. -/
structure Filed (domain : String) (r r' : Registry) : Prop where
  accounted : BucketsAccounted r'
  limits : r'.limits = r.limits
  others : ∀ d, d ≠ domain → r'.domains.lookup d = r.domains.lookup d
  present : (r'.domains.lookup domain).isSome

section filed

variable {r r' r'' : Registry} {domain : String} {b : ClientBucket} {now : Nat}

theorem lasting_of_accounted (h : BucketsAccounted r) : r.Lasting :=
  fun d b hb => (h d b hb).forever

theorem BucketsAccounted.quiet (h : BucketsAccounted r) (hq : Quiet r r') : BucketsAccounted r' := by
  intro d b hb
  rw [hq.domains] at hb
  rw [hq.limits]
  exact h d b hb

theorem PopulatedAt.quiet (h : PopulatedAt r d) (hq : Quiet r r') : PopulatedAt r' d := by
  intro b hb
  rw [hq.domains] at hb
  exact h b hb

theorem Filed.refl (h : BucketsAccounted r) (hb : (r.domains.lookup domain).isSome) :
    Filed domain r r :=
  ⟨h, rfl, fun _ _ => rfl, hb⟩

theorem Filed.trans (h : Filed domain r r') (h' : Filed domain r' r'') : Filed domain r r'' where
  accounted := h'.accounted
  limits := h'.limits.trans h.limits
  others := fun d hd => (h'.others d hd).trans (h.others d hd)
  present := h'.present

theorem Filed.quiet (h : Filed domain r r') (hq : Quiet r' r'') : Filed domain r r'' where
  accounted := h.accounted.quiet hq
  limits := hq.limits.trans h.limits
  others := fun d hd => by rw [hq.domains]; exact h.others d hd
  present := by rw [hq.domains]; exact h.present

theorem Filed.populatedAt (h : Filed domain r r') (hd : d ≠ domain) (hp : PopulatedAt r d) :
    PopulatedAt r' d := by
  intro b hb
  rw [h.others d hd] at hb
  exact hp b hb

/-- Writing back a bucket whose counts are right. -/
theorem withBucket_filed (h : BucketsAccounted r) (domain : String) (hb : Accounted r.limits b) :
    Filed domain r (r.withBucket domain b) where
  accounted := by
    intro d b' hb'
    simp only [withBucket, lookup_insert_if] at hb'
    split at hb'
    · obtain rfl := Option.some.inj hb'
      exact hb
    · exact h d b' hb'
  limits := rfl
  others := fun d hd => by simp only [withBucket, lookup_insert_if, if_neg hd]
  present := by simp [withBucket]

theorem withBucket_lookup (r : Registry) (domain : String) :
    (r.withBucket domain b).domains.lookup domain = some b :=
  lookup_insert _

theorem updateClient_eq (key : String) (change : Client → Client × ρ)
    (hb : r.domains.lookup domain = some b) :
    (r.updateClient now domain key change).2 =
      r.withBucket domain { b with store := (b.store.touch now b.domain key change).2 } := by
  unfold updateClient
  rw [hb]
  rfl

section

variable (h : BucketsAccounted r) (hnow : now < u64Max)
include h hnow

theorem updateClient_filed (key : String) (change : Client → Client × ρ)
    (hns : ∀ c, (change c).1.ns = c.ns) (hb : (r.domains.lookup domain).isSome) :
    Filed domain r (r.updateClient now domain key change).2 := by
  obtain ⟨b, hb⟩ := isSome_iff_exists.mp hb
  rw [updateClient_eq key change hb]
  exact withBucket_filed h domain (touch_accounted (h domain b hb) hnow change hns)

/-- An update of one client leaves everyone where they are. -/
theorem updateClient_populatedAt (domain key : String) (change : Client → Client × ρ)
    (hns : ∀ c, (change c).1.ns = c.ns)
    (d : String) : PopulatedAt (r.updateClient now domain key change).2 d ↔ PopulatedAt r d := by
  cases hb : r.domains.lookup domain with
  | none => simp only [updateClient, hb]
  | some b =>
    rw [updateClient_eq key change hb]
    by_cases hd : d = domain
    · subst hd
      obtain ⟨hkeeps, hback⟩ := touch_keeps (h d b hb).forever hnow key change hns
      constructor
      · intro hp b' hb'
        rw [hb] at hb'
        obtain rfl := Option.some.inj hb'
        exact hback.populated (hp _ (withBucket_lookup r d))
      · intro hp b' hb'
        rw [withBucket_lookup] at hb'
        obtain rfl := Option.some.inj hb'
        exact hkeeps.populated (hp b hb)
    · unfold PopulatedAt
      simp only [withBucket, lookup_insert_if, if_neg hd]

theorem currentBan_filed (key : String)
    (hb : (r.domains.lookup domain).isSome) : Filed domain r (r.currentBan now domain key).2 := by
  have hfiled := updateClient_filed h hnow key (fun c =>
    (c.settled now, (c.dueBan now, (c.settled now).ban))) (fun c => Client.settled_ns c now) hb
  unfold currentBan
  split
  case h_1 he => rw [he] at hfiled; exact hfiled
  case h_2 he => rw [he] at hfiled; exact hfiled.quiet (Quiet.expireFound _ now _)

theorem currentBan_populatedAt (domain key : String)
    (d : String) : PopulatedAt (r.currentBan now domain key).2 d ↔ PopulatedAt r d := by
  have hiff := updateClient_populatedAt h hnow domain key (fun c =>
    (c.settled now, (c.dueBan now, (c.settled now).ban))) (fun c => Client.settled_ns c now) d
  unfold currentBan
  split
  case h_1 he => rw [he] at hiff; exact hiff
  case h_2 he =>
    rw [he] at hiff
    rw [← hiff]
    have hq := Quiet.expireFound (r.updateClient now domain key fun c =>
      (c.settled now, (c.dueBan now, (c.settled now).ban))).2 now
    unfold PopulatedAt
    rw [he] at hq
    rw [(hq _).domains]

section

variable (profile : ScenarioProfile) (ns : String) (hb : r.domains.lookup domain = some b)
include hb

/-- Making room for a client. -/
theorem makeRoom_filed : Filed domain r (r.makeRoom now profile ns domain b).2 := by
  have hcounted := entries_accounted (h domain b hb) hnow
  simp only [makeRoom]
  split
  · exact (withBucket_filed h domain (purge_accounted hcounted hnow)).quiet
      (Quiet.foldl _ (fun r ban => Quiet.expireBan r now ban) _ _)
  · exact withBucket_filed h domain hcounted

/-- Storing a new client under a free key. -/
theorem insertClient_filed (hnone : b.client key = none) :
    Filed domain r (r.insertClient now profile ns domain key b).2 := by
  have hacc := h domain b hb
  have hstored := stored_accounted hacc hnow (r.freshClient now profile ns) hnone
  have hrefused := refused_accounted hacc hnow key (r.freshClient now profile ns)
  unfold insertClient
  split
  case h_1 store hi =>
    rw [hi] at hstored
    exact withBucket_filed h domain (hstored rfl)
  case h_2 store hi =>
    rw [hi] at hrefused
    exact withBucket_filed h domain (hrefused (by simp))

/-- Whether or not the new client found a place, somebody is there afterwards. -/
theorem insertClient_populated (hfits : 0 < r.limits.maxEntriesPerDomain) :
    PopulatedAt (r.insertClient now profile ns domain key b).2 domain := by
  have hacc := h domain b hb
  have hclient := insert_client hacc.forever hnow key (r.freshClient now profile ns)
  have hempty : ¬ Populated b →
      (b.store.insert now b.domain key (r.freshClient now profile ns) durationMax).1 = .ok () :=
    fun hempty => insert_empty hacc hempty hfits key
  unfold insertClient
  intro b' hb'
  split at hb'
  case h_1 store hi =>
    rw [hi] at hclient
    obtain rfl := Option.some.inj ((withBucket_lookup r domain).symm.trans hb')
    exact ⟨key, r.freshClient now profile ns, (hclient key _).trans (if_pos ⟨rfl, rfl⟩)⟩
  case h_2 full store hi =>
    rw [hi] at hclient hempty
    obtain rfl := Option.some.inj ((withBucket_lookup r domain).symm.trans hb')
    by_cases hp : Populated b
    · refine (keepsClients_of_eq fun k => ?_).populated hp
      refine (hclient k _).trans (if_neg ?_)
      simp
    · cases hempty hp

end

theorem createClient_filed (profile : ScenarioProfile) (ns : String)
    (hb : (r.domains.lookup domain).isSome) (hnone : r.cell domain key = none) :
    Filed domain r (r.createClient now profile ns domain key).2 := by
  obtain ⟨b, hb⟩ := isSome_iff_exists.mp hb
  have hroom := makeRoom_filed h hnow profile ns hb
  have habsent : ∀ c, (r.makeRoom now profile ns domain b).2.cell domain key = some c →
      u64Max ≤ now :=
    makeRoom_absent (lasting_of_accounted h) profile ns key hb
      fun c hc => by rw [hnone] at hc; cases hc
  unfold createClient
  simp only [hb]
  generalize r.makeRoom now profile ns domain b = room at hroom habsent ⊢
  obtain ⟨b₁, hb₁⟩ := isSome_iff_exists.mp hroom.present
  simp only [hb₁]
  split
  · exact hroom
  have hfree : b₁.client key = none := by
    cases hc : b₁.client key with
    | none => rfl
    | some c =>
      have hlate := habsent c ((cell_of_lookup hb₁ key).trans hc)
      omega
  have hbump : BucketsAccounted { room.2 with incarnation := room.2.incarnation + 1 } :=
    hroom.accounted
  have hinsert := insertClient_filed hbump hnow profile ns hb₁ hfree
  exact hroom.trans ⟨hinsert.accounted, hinsert.limits, hinsert.others, hinsert.present⟩

/-- A client that gets no place was turned away by others. -/
theorem createClient_populated (ns key : String) (hb : (r.domains.lookup domain).isSome)
    (hfits : 0 < r.limits.maxEntriesPerDomain) (hclients : 0 < profile.maxClients) :
    PopulatedAt (r.createClient now profile ns domain key).2 domain := by
  obtain ⟨b, hb⟩ := isSome_iff_exists.mp hb
  have hroom := makeRoom_filed h hnow profile ns hb
  unfold createClient
  simp only [hb]
  generalize r.makeRoom now profile ns domain b = room at hroom ⊢
  obtain ⟨b₁, hb₁⟩ := isSome_iff_exists.mp hroom.present
  simp only [hb₁]
  split
  case isTrue hfull =>
    intro b' hb'
    rw [hb₁] at hb'
    obtain rfl := Option.some.inj hb'
    -- The namespace is at its limit and the count is never too high.
    have hcount := (hroom.accounted domain b₁ hb₁).counted ns
    simp only [and_eq_true, decide_eq_true_eq] at hfull
    exact populated_of_owners ns (by omega)
  case isFalse =>
    have hbump : BucketsAccounted { room.2 with incarnation := room.2.incarnation + 1 } :=
      hroom.accounted
    refine insertClient_populated hbump hnow profile ns hb₁ ?_
    rw [← hroom.limits] at hfits
    exact hfits

theorem issueTicket_filed (hb : (r.domains.lookup domain).isSome) :
    Filed domain r (r.issueTicket now profile ns domain identity key login path).2 :=
  updateClient_filed h hnow key _ (fun _ => rfl) hb

theorem issueTicket_populatedAt (profile : ScenarioProfile) (ns domain identity key : String)
    (login : Bool) (path : Digest) (d : String) :
    PopulatedAt (r.issueTicket now profile ns domain identity key login path).2 d ↔
      PopulatedAt r d :=
  updateClient_populatedAt h hnow domain key _ (fun _ => rfl) d

theorem admitNew_filed (hb : (r.domains.lookup domain).isSome) (hnone : r.cell domain key = none) :
    Filed domain r (r.admitNew now profile ns domain identity key login path).2 := by
  have hcreate := createClient_filed h hnow profile ns hb hnone
  simp only [admitNew]
  split
  · exact hcreate.trans (issueTicket_filed hcreate.accounted hnow hcreate.present)
  · exact hcreate.quiet ⟨rfl, rfl, rfl, rfl, rfl, rfl⟩

theorem admitNew_populated
    (hb : (r.domains.lookup domain).isSome) (hnone : r.cell domain key = none)
    (hfits : 0 < r.limits.maxEntriesPerDomain) (hclients : 0 < profile.maxClients) :
    PopulatedAt (r.admitNew now profile ns domain identity key login path).2 domain := by
  have hcreate := createClient_filed h hnow profile ns hb hnone
  have hpopulated := createClient_populated h hnow ns key hb hfits hclients
  simp only [admitNew]
  split
  · exact (issueTicket_populatedAt hcreate.accounted hnow profile ns domain identity key login path
      domain).mpr hpopulated
  · exact hpopulated.quiet ⟨rfl, rfl, rfl, rfl, rfl, rfl⟩

/-- The first look at a client that has no cell. -/
theorem currentBan_cell_none (key : String) (hnone : (r.currentBan now domain key).1 = none) :
    (r.currentBan now domain key).2.cell domain key = none := by
  cases hc : (r.currentBan now domain key).2.cell domain key with
  | none => rfl
  | some c =>
    have hlate := currentBan_absent (lasting_of_accounted h) domain key hnone c hc
    omega

end

def watched (profile : ScenarioProfile) (login : Bool) : Bool :=
  login || profile.config.scan.isSome

variable (sha256 : String → Digest)

section

variable (h : BucketsAccounted r) (hnow : now < u64Max)
include h hnow

theorem admitUnder_filed (profile : ScenarioProfile)
    (ns identity : String) (login : Bool) (path : Digest) (hb : (r.domains.lookup domain).isSome) :
    Filed domain r (r.admitUnder sha256 now profile ns domain identity login path).2 := by
  have hlook := currentBan_filed h hnow (clientKey sha256 ns identity) hb
  have hnone := @currentBan_cell_none r domain now h hnow (clientKey sha256 ns identity)
  simp only [admitUnder]
  generalize r.currentBan now domain (clientKey sha256 ns identity) = current at hlook hnone ⊢
  refine hlook.trans ?_
  have hrefl := Filed.refl hlook.accounted hlook.present
  rcases hfound : current.1 with _ | _ | ban
  · simp only [admitFound]
    split
    · exact hrefl
    · exact admitNew_filed hlook.accounted hnow hlook.present (hnone hfound)
  · simp only [admitFound]
    split
    · exact hrefl
    · exact issueTicket_filed hlook.accounted hnow hlook.present
  · exact hrefl

/-- An admission leaves a client in the bucket: one that was there before, or the
one it made. -/
theorem admitUnder_populated (ns identity : String)
    (login : Bool) (path : Digest) (hb : (r.domains.lookup domain).isSome)
    (hclients : 0 < profile.maxClients) (hcond : PopulatedAt r domain ∨
      (watched profile login = true ∧ 0 < r.limits.maxEntriesPerDomain)) :
    PopulatedAt (r.admitUnder sha256 now profile ns domain identity login path).2 domain := by
  obtain ⟨b, hlookup⟩ := isSome_iff_exists.mp hb
  have hfits : 0 < r.limits.maxEntriesPerDomain := by
    rcases hcond with hp | ⟨-, hfits⟩
    · exact (h domain b hlookup).fits (hp b hlookup)
    · exact hfits
  have hexisting : ∀ found, (r.currentBan now domain (clientKey sha256 ns identity)).1 = some found →
      PopulatedAt r domain := by
    intro found hfound b' hb'
    obtain ⟨-, c, hc, -⟩ := currentBan_some (lasting_of_accounted h) hfound
    exact ⟨_, c, (cell_of_lookup hb' _).symm.trans hc⟩
  have hsame := currentBan_populatedAt h hnow domain (clientKey sha256 ns identity) domain
  have hlook := currentBan_filed h hnow (clientKey sha256 ns identity) hb
  have hnone := @currentBan_cell_none r domain now h hnow (clientKey sha256 ns identity)
  simp only [admitUnder]
  generalize r.currentBan now domain (clientKey sha256 ns identity) = current
    at hexisting hsame hlook hnone ⊢
  rcases hfound : current.1 with _ | _ | ban
  · simp only [admitFound]
    split
    case isTrue hidle =>
      rcases hcond with hp | ⟨hwatched, -⟩
      · exact hsame.mpr hp
      simp only [watched, or_eq_true] at hwatched
      simp only [and_eq_true, not_eq_true', isNone_iff_eq_none] at hidle
      simp [hidle] at hwatched
    case isFalse =>
      rw [← hlook.limits] at hfits
      exact admitNew_populated hlook.accounted hnow hlook.present (hnone hfound) hfits hclients
  · have hp := hsame.mpr (hexisting _ hfound)
    simp only [admitFound]
    split
    · exact hp
    · exact (issueTicket_populatedAt hlook.accounted hnow profile ns domain identity _ login path
        domain).mpr hp
  · exact hsame.mpr (hexisting _ hfound)

/-- A request that no scenario watches puts nobody into the bucket. -/
theorem admitUnder_unwatched (ns identity : String) (path : Digest)
    (hunwatched : watched profile login = false) :
    PopulatedAt (r.admitUnder sha256 now profile ns domain identity login path).2 domain ↔
      PopulatedAt r domain := by
  have hsame := currentBan_populatedAt h hnow domain (clientKey sha256 ns identity) domain
  simp only [watched, or_eq_false_iff, isSome_eq_false_iff] at hunwatched
  simp only [admitUnder]
  generalize r.currentBan now domain (clientKey sha256 ns identity) = current at hsame ⊢
  rcases current.1 with _ | _ | ban
  · simpa [admitFound, hunwatched] using hsame
  · simpa [admitFound, hunwatched] using hsame
  · exact hsame

end

theorem ensureDomain_filed (h : BucketsAccounted r) (hr : r.ensureDomain domain = some r') :
    Filed domain r r' := by
  unfold ensureDomain at hr
  split at hr
  case isTrue hb =>
    obtain rfl := Option.some.inj hr
    exact Filed.refl h hb
  case isFalse =>
    split at hr
    · cases hr
    case isFalse hroom =>
      obtain rfl := Option.some.inj hr
      exact withBucket_filed h domain (accounted_new (by omega))

/-- The bucket that a domain is given is empty. -/
theorem ensureDomain_populatedAt (hr : r.ensureDomain domain = some r') :
    PopulatedAt r' domain ↔ (r.domains.lookup domain).isSome ∧ PopulatedAt r domain := by
  obtain ⟨hb, rfl⟩ | ⟨hnone, b, rfl, -, hempty⟩ := ensureDomain_cases hr
  · exact ⟨fun hp => ⟨hb, hp⟩, And.right⟩
  · refine ⟨fun hp => ?_, fun hp => ?_⟩
    · obtain ⟨key, c, hc⟩ := hp _ (withBucket_lookup r domain)
      rw [hempty] at hc
      cases hc
    · rw [hnone] at hp
      cases hp.1

end filed

end AbuseRegistryCounts
