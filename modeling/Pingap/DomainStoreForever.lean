import Pingap.DomainStoreRun

/-!
# Values that never expire

A caller that stores everything with the largest lifetime uses the store as a
plain bounded map: the deadline saturates at the end of the clock's range, so
until the clock stands there no operation loses an entry that its caller did not
drop. What the operations do to such a bucket is stated through the value under
each identity.
-/

namespace DomainStoreForever

open MachineArith DomainStore DomainStoreRun AList Option

variable {υ ρ : Type}

def entryAt (slot : Option (Bucket υ)) (key : String) : Option (Entry υ) :=
  slot.bind fun b => b.entries.lookup key

def valueAt (s : ScopedStore υ) (d : Domain) (key : String) : Option υ :=
  (entryAt (s.peek d) key).map Entry.value

/-- Every entry of the domain lasts to the end of the clock. -/
def Forever (s : ScopedStore υ) (d : Domain) : Prop :=
  ∀ key entry, entryAt (s.peek d) key = some entry → entry.expiresAt = u64Max

/-- The store after an operation at `now`, which turns the value under each
identity as `g` says. Only at the end of the clock may a value be gone. -/
structure Turned (now : Nat) (d : Domain) (g : String → Option υ → Option υ)
    (s s' : ScopedStore υ) : Prop where
  forever : Forever s' d
  value : ∀ key, valueAt s' d key = g key (valueAt s d key) ∨
    (u64Max ≤ now ∧ valueAt s' d key = none)

theorem Turned.timely (h : Turned now d g s s') (hnow : now < u64Max) (key : String) :
    valueAt s' d key = g key (valueAt s d key) :=
  (h.value key).resolve_right fun hlate => Nat.not_le_of_lt hnow hlate.1

theorem entryAt_settle : entryAt (settle d b) key = b.entries.lookup key := by
  unfold settle
  split
  case isTrue h => exact (lookup_eq_none_of_size_zero h.2 key).symm
  case isFalse => rfl

theorem forever_new : Forever (ScopedStore.new hosts limits : ScopedStore υ) d := by
  intro key entry h
  cases ho : d.isOverflow <;> simp [entryAt, ScopedStore.peek, ScopedStore.new, Bucket.empty, ho] at h

theorem valueAt_new (hosts : HostPolicy) (limits : Limits) (d : Domain) (key : String) :
    valueAt (ScopedStore.new hosts limits : ScopedStore υ) d key = none := by
  cases ho : d.isOverflow <;>
    simp [valueAt, entryAt, ScopedStore.peek, ScopedStore.new, Bucket.empty, ho]

section reclaim

variable {m : KeyedMap String (Entry υ)} {now : Nat}

theorem lookup_reclaim_of_live (hlive : ∀ entry, m.lookup key = some entry → now < entry.expiresAt) :
    (reclaim m now).lookup key = m.lookup key := by
  unfold reclaim
  rw [lookup_retain]
  cases h : m.lookup key with
  | none => rfl
  | some entry => simp [hlive entry h]

end reclaim

/-- Before the end of the clock a reclaim keeps every entry that lasts. -/
theorem reclaim_timely {m : KeyedMap String (Entry υ)} (hnow : now < u64Max)
    (hf : ∀ key entry, m.lookup key = some entry → entry.expiresAt = u64Max) (key : String) :
    (reclaim m now).lookup key = m.lookup key :=
  lookup_reclaim_of_live fun entry h => by rw [hf key entry h]; exact hnow

/-- At the end of the clock a reclaim drops them all. -/
theorem reclaim_late {m : KeyedMap String (Entry υ)} (hnow : ¬ now < u64Max)
    (hf : ∀ key entry, m.lookup key = some entry → entry.expiresAt = u64Max) (key : String) :
    (reclaim m now).lookup key = none := by
  unfold reclaim
  rw [lookup_retain]
  cases h : m.lookup key with
  | none => rfl
  | some entry => simp [hf key entry h, hnow]

section operations

variable {s : ScopedStore υ} {d : Domain}

theorem lookup_forever (hf : Forever s d) (hb : s.peek d = some b) (key : String) (entry : Entry υ)
    (h : b.entries.lookup key = some entry) : entry.expiresAt = u64Max :=
  hf key entry (by simp [entryAt, hb, h])

theorem valueAt_some (hb : s.peek d = some b) (key : String) :
    valueAt s d key = (b.entries.lookup key).map Entry.value := by
  simp [valueAt, entryAt, hb]

/-- To turn a store it is enough to say what each entry becomes. -/
theorem turned_of_entries
    (h : ∀ key, (∀ entry, entryAt (s'.peek d) key = some entry → entry.expiresAt = u64Max) ∧
      ((entryAt (s'.peek d) key).map Entry.value = g key (valueAt s d key) ∨
        (u64Max ≤ now ∧ entryAt (s'.peek d) key = none))) : Turned now d g s s' where
  forever := fun key entry he => (h key).1 entry he
  value := fun key => by
    rcases (h key).2 with hv | ⟨hnow, hn⟩
    · exact .inl hv
    · exact .inr ⟨hnow, by simp [valueAt, hn]⟩

theorem Turned.trans (h : Turned now d g s s') (h' : Turned now d g' s' s'')
    (hnone : ∀ key, g' key none = none) : Turned now d (fun key v => g' key (g key v)) s s'' where
  forever := h'.forever
  value := fun key => by
    rcases h'.value key with hv' | hv'
    · rcases h.value key with hv | ⟨hnow, hv⟩
      · left; rw [hv', hv]
      · right; exact ⟨hnow, by rw [hv', hv, hnone]⟩
    · exact .inr hv'

section

variable (hf : Forever s d) (now : Nat) (identity : String) (change : υ → υ × ρ)
include hf

theorem touch_turned :
    Turned now d (fun key v => if key = identity then v.map fun v => (change v).1 else v) s
      (s.touch now d identity change).2 := by
  refine turned_of_entries fun key => ?_
  rw [(touch_slot s now d identity change).2]
  cases hb : s.peek d with
  | none => simp [slotTouch, entryAt, valueAt, hb]
  | some b =>
    have hlook := lookup_forever hf hb
    rw [valueAt_some hb]
    simp only [slotTouch, Bucket.find]
    cases hk : b.entries.lookup identity with
    | none =>
      refine ⟨fun entry he => hlook key entry he, .inl ?_⟩
      by_cases hid : key = identity
      · subst hid; simp [entryAt, hk]
      · simp [entryAt, hid]
    | some entry =>
      by_cases hnow : now < u64Max
      · simp only [hlook identity entry hk, hnow, if_true, entryAt, bind_some, Bucket.change,
          lookup_modify]
        by_cases hid : key = identity
        · subst hid
          simp [hk, hlook key entry hk]
        · simp only [hid, if_false]
          exact ⟨fun e he => hlook key e he, .inl trivial⟩
      · simp only [hlook identity entry hk, hnow, if_false, entryAt_settle, Bucket.sweep]
        exact ⟨fun e he => hlook key e (lookup_retain_if.mp he).1,
          .inr ⟨Nat.le_of_not_lt hnow, reclaim_late hnow hlook key⟩⟩

/-- An update that found something found the value of its identity. -/
theorem touch_some (x : ρ) (h : (s.touch now d identity change).1 = some x) :
    now < u64Max ∧ ∃ v, valueAt s d identity = some v ∧ x = (change v).2 := by
  rw [(touch_slot s now d identity change).1] at h
  cases hb : s.peek d with
  | none => simp [slotTouch, hb] at h
  | some b =>
    rw [valueAt_some hb]
    simp only [slotTouch, Bucket.find, hb] at h
    cases hk : b.entries.lookup identity with
    | none => simp [hk] at h
    | some entry =>
      have he := lookup_forever hf hb identity entry hk
      by_cases hnow : now < u64Max
      · simp only [hk, he, hnow, if_true, Option.some.injEq] at h
        exact ⟨hnow, entry.value, rfl, h.symm⟩
      · simp [hk, he, hnow] at h

/-- An update that found nothing had nothing to find, or met the end of the clock. -/
theorem touch_none (h : (s.touch now d identity change).1 = none) :
    valueAt s d identity = none ∨ u64Max ≤ now := by
  rw [(touch_slot s now d identity change).1] at h
  cases hb : s.peek d with
  | none => left; simp [valueAt, entryAt, hb]
  | some b =>
    rw [valueAt_some hb]
    simp only [slotTouch, Bucket.find, hb] at h
    cases hk : b.entries.lookup identity with
    | none => left; rfl
    | some entry =>
      have he := lookup_forever hf hb identity entry hk
      by_cases hnow : now < u64Max
      · simp [hk, he, hnow] at h
      · exact .inr (Nat.le_of_not_lt hnow)

/-- An update that found nothing changed nothing, up to the end of the clock. -/
theorem touch_missed (h : (s.touch now d identity change).1 = none) (key : String) :
    valueAt (s.touch now d identity change).2 d key = valueAt s d key ∨
      (u64Max ≤ now ∧ valueAt (s.touch now d identity change).2 d key = none) := by
  rw [(touch_slot s now d identity change).1] at h
  rw [valueAt, (touch_slot s now d identity change).2]
  cases hb : s.peek d with
  | none => left; simp [slotTouch, valueAt, entryAt, hb]
  | some b =>
    rw [valueAt_some hb]
    have hlook := lookup_forever hf hb
    simp only [slotTouch, Bucket.find, hb] at h ⊢
    cases hk : b.entries.lookup identity with
    | none => left; simp [entryAt]
    | some entry =>
      by_cases hnow : now < u64Max
      · simp [hk, hlook identity entry hk, hnow] at h
      right
      simp only [hlook identity entry hk, hnow, if_false, entryAt_settle, Bucket.sweep]
      exact ⟨Nat.le_of_not_lt hnow, by rw [reclaim_late hnow hlook key]; rfl⟩

end

theorem entries_turned (hf : Forever s d) (now : Nat) :
    Turned now d (fun _ v => v) s (s.entries now d).2 := by
  refine turned_of_entries fun key => ?_
  rw [(entries_slot s now d).2]
  cases hb : s.peek d with
  | none => simp [slotEntries, entryAt, valueAt, hb]
  | some b =>
    have hlook := lookup_forever hf hb
    rw [valueAt_some hb]
    simp only [slotEntries, entryAt_settle]
    refine ⟨fun e he => hlook key e (lookup_retain_if.mp he).1, ?_⟩
    by_cases hnow : now < u64Max
    · left; rw [reclaim_timely hnow hlook key]
    · right; exact ⟨Nat.le_of_not_lt hnow, reclaim_late hnow hlook key⟩

theorem entries_zero (now : Nat) (h : (s.entries now d).1 = 0) (key : String) :
    valueAt (s.entries now d).2 d key = none := by
  obtain ⟨ha, hs⟩ := entries_slot s now d
  rw [ha] at h
  rw [valueAt, hs]
  cases hb : s.peek d with
  | none => rfl
  | some b =>
    simp only [slotEntries, hb, entryAt_settle] at h ⊢
    rw [lookup_eq_none_of_size_zero h]
    rfl

/-- A pass over the bucket keeps what `keep` answers. -/
theorem retain_turned (hf : Forever s d) (now : Nat) (keep : String → υ → Option υ) :
    Turned now d (fun key v => v.bind (keep key)) s (s.retain now d keep) := by
  refine turned_of_entries fun key => ?_
  rw [retain_slot s now d keep]
  cases hb : s.peek d with
  | none => simp [slotRetain, entryAt, valueAt, hb]
  | some b =>
    have hlook := lookup_forever hf hb
    rw [valueAt_some hb]
    simp only [slotRetain, entryAt_settle, lookup_retain]
    cases hk : b.entries.lookup key with
    | none => simp
    | some entry =>
      simp only [bind_some, hlook key entry hk, map_some]
      by_cases hnow : now < u64Max
      · simp only [hnow, if_true]
        cases keep key entry.value with
        | none | some => simp
      · simp [hnow, Nat.le_of_not_lt hnow]

theorem bucket_insert_entries {b : Bucket υ} (limits : Limits) (now : Nat) (identity : String)
    (value : υ) (hf : ∀ key entry, b.entries.lookup key = some entry → entry.expiresAt = u64Max)
    (key : String) :
    let r := b.insert limits now identity value u64Max
    r.2.1.entries.lookup key =
        (if key = identity ∧ r.1 = .ok () then some ⟨value, u64Max⟩ else b.entries.lookup key) ∨
      (u64Max ≤ now ∧ r.2.1.entries.lookup key = none) := by
  have herase : ∀ key entry, (b.entries.erase identity).lookup key = some entry →
      entry.expiresAt = u64Max := by
    intro key entry h
    rw [lookup_erase_if] at h
    split at h
    · simp at h
    · exact hf key entry h
  have hswept : ((reclaim (b.entries.erase identity) now).lookup key =
      (b.entries.erase identity).lookup key) ∨
      (u64Max ≤ now ∧ (reclaim (b.entries.erase identity) now).lookup key = none) := by
    by_cases hnow : now < u64Max
    · exact .inl (reclaim_timely hnow herase key)
    · exact .inr ⟨Nat.le_of_not_lt hnow, reclaim_late hnow herase key⟩
  simp only [Bucket.insert]
  by_cases hid : key = identity
  · subst hid
    split_ifs <;> simp_all [Bucket.put, Bucket.sweep]
  rw [lookup_erase_ne hid] at hswept
  split_ifs <;> simp_all [Bucket.put, Bucket.sweep, lookup_insert_ne hid, lookup_erase_ne hid]

/-- An insertion that lasts: it is stored under its identity or nothing is. -/
theorem insert_turned (hf : Forever s d) (now : Nat) (identity : String) (value : υ) :
    let r := s.insert now d identity value durationMax
    Turned now d (fun key v => if key = identity ∧ r.1 = .ok () then some value else v) s r.2 := by
  intro r
  by_cases hok : r.1 = .error .domains
  · refine turned_of_entries fun key => ?_
    rw [insert_refused s now d identity hok]
    refine ⟨fun e he => hf key e he, .inl ?_⟩
    simp only [hok, reduceCtorEq, and_false, if_false]
    rfl
  obtain ⟨ha, hs⟩ := insert_slot s now d identity hok
  rw [satAdd64_durationMax] at ha hs
  have hlook : ∀ key entry, ((s.peek d).getD Bucket.empty).entries.lookup key = some entry →
      entry.expiresAt = u64Max := by
    intro key entry h
    cases hb : s.peek d with
    | none => simp [hb, Bucket.empty] at h
    | some b => exact lookup_forever hf hb key entry (by simpa [hb] using h)
  have hval : ∀ key, valueAt s d key =
      (((s.peek d).getD Bucket.empty).entries.lookup key).map Entry.value := by
    intro key
    cases hb : s.peek d with
    | none => simp [valueAt, entryAt, hb, Bucket.empty]
    | some b => exact valueAt_some hb key
  refine turned_of_entries fun key => ?_
  have h := bucket_insert_entries s.limits now identity value hlook key
  simp only [← ha] at h
  rw [hs, hval]
  simp only [entryAt, bind_some]
  rcases h with h | h
  · rw [h]
    split
    · exact ⟨fun e he => by rw [← Option.some.inj he], .inl rfl⟩
    · exact ⟨fun e he => hlook key e he, .inl rfl⟩
  · refine ⟨fun e he => ?_, .inr h⟩
    rw [h.2] at he
    cases he

end operations

end DomainStoreForever
