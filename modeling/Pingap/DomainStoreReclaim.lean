import Pingap.DomainStoreSlots

/-!
# Reclaimed entries of the domain store

An entry that has reached its deadline stays in the store until an operation drops it,
and the store counts the entries it drops that way. A read, an update, a removal and the
counts over entries account for what they drop. `retain` and an insertion under the
identity of an expired entry do not.
-/

namespace DomainStoreReclaim

open DomainStore DomainStoreRun AList List Option Trace ScopedStore

variable {υ ρ : Type}

/-! ## Expired entries -/

/-- How many of some entries have reached their deadline. -/
def expired (now : Millis) (entries : KeyedMap String (Entry υ)) : Nat :=
  entries.count fun entry => decide (entry.expiresAt ≤ now)

def expiredSlot (now : Millis) (slot : Option (Bucket υ)) : Nat :=
  slot.elim 0 fun b => expired now b.entries

def expiredTotal (now : Millis) (s : ScopedStore υ) : Nat :=
  expired now s.inner.overflow.entries +
    s.inner.domains.weigh fun b => expired now b.entries

section entries

variable {now : Millis} {m : KeyedMap String (Entry υ)}

section

variable (now : Millis) (m : KeyedMap String (Entry υ))

theorem size_reclaim_add : (reclaim m now).size + expired now m = m.size := by
  have hlive : (reclaim m now).size = m.count fun entry => decide (now < entry.expiresAt) := by
    rw [← size_retain_filter]
    unfold reclaim
    simp only [decide_eq_true_eq]
  have hexpired : expired now m = m.count fun entry => !decide (now < entry.expiresAt) := by
    unfold expired
    congr
    funext entry
    by_cases h : now < entry.expiresAt
    · simp [h]
    · simp [h, not_lt.mp h]
  rw [hlive, hexpired, AList.count_add_count_not]

/-- A reclaim drops exactly the entries that have expired. -/
theorem reclaimed_eq : reclaimed m now = expired now m := by
  have hsize := size_reclaim_add now m
  unfold reclaimed
  omega

/-- Nothing that a pass over the live entries keeps has expired. -/
theorem expired_retain_live (keep : String → υ → Option υ) :
    expired now (m.retain fun key entry =>
      if now < entry.expiresAt then
        (keep key entry.value).map fun value => { entry with value := value }
      else none) = 0 := by
  apply AList.count_eq_zero
  intro key entry hentry
  rw [lookup_retain] at hentry
  obtain ⟨before, -, hkept⟩ := bind_eq_some_iff.mp hentry
  split at hkept
  · rename_i hlive
    obtain ⟨value, -, rfl⟩ := map_eq_some_iff.mp hkept
    exact decide_eq_false (not_le.mpr hlive)
  · cases hkept

theorem expired_reclaim : expired now (reclaim m now) = 0 := by
  apply AList.count_eq_zero
  intro key entry hentry
  exact decide_eq_false (not_le.mpr (lookup_retain_if.mp hentry).2)

end

/-- An update keeps the deadline. -/
theorem expired_change (now : Millis) (b : Bucket υ) (identity : String) (value : υ) :
    expired now (b.change identity value).entries = expired now b.entries :=
  count_modify fun _ => rfl

/-- One for an entry that is found expired. -/
def foundExpired (b : Bucket υ) (now : Millis) (identity : String) : Nat :=
  match b.find now identity with
  | .expired => 1
  | _ => 0

theorem expired_erase (b : Bucket υ) (now : Millis) (identity : String) :
    expired now (b.entries.erase identity) + foundExpired b now identity =
      expired now b.entries := by
  unfold foundExpired Bucket.find
  cases h : b.entries.lookup identity with
  | none => simp only [erase_of_none h, Nat.add_zero]
  | some entry =>
    have hcount : expired now b.entries = expired now (b.entries.erase identity) +
        if decide (entry.expiresAt ≤ now) then 1 else 0 :=
      count_erase_of_some _ h
    by_cases hlive : now < entry.expiresAt
    · simp only [hlive, if_true]
      rw [hcount, decide_eq_false (not_le.mpr hlive)]
      rfl
    · simp only [hlive, if_false]
      rw [hcount, decide_eq_true (not_lt.mp hlive)]
      rfl

theorem expired_put {b : Bucket υ} (h : b.entries.lookup identity = none) :
    expired now (b.put identity value expiresAt).entries =
      expired now b.entries + if expiresAt ≤ now then 1 else 0 := by
  have hcount := count_insert (fun entry : Entry υ => decide (entry.expiresAt ≤ now)) b.entries
    identity ⟨value, expiresAt⟩
  rw [erase_of_none h] at hcount
  simp only [decide_eq_true_eq] at hcount
  exact hcount

theorem lookup_reclaim_none (h : m.lookup identity = none) :
    (reclaim m now).lookup identity = none := by
  unfold reclaim
  rw [lookup_retain, h]
  rfl

section

variable (b : Bucket υ) (limits : Limits) (now : Millis) (identity : String) (value : υ)
    (expiresAt : Millis)

/-- An insertion takes out the entry of its identity and what it reclaims, and then puts in
its own entry or is refused. -/
theorem insert_cases :
    ∃ rest count, expired now rest.entries + count = expired now (b.entries.erase identity) ∧
      rest.entries.lookup identity = none ∧
      (b.insert limits now identity value expiresAt =
          (.ok (), rest.put identity value expiresAt, count) ∨
        b.insert limits now identity value expiresAt = (.error .entries, rest, count)) := by
  have hgone := lookup_erase identity b.entries
  have hswept : expired now (reclaim (b.entries.erase identity) now) +
      reclaimed (b.entries.erase identity) now = expired now (b.entries.erase identity) := by
    rw [expired_reclaim, reclaimed_eq, Nat.zero_add]
  unfold Bucket.insert
  dsimp only
  split
  · cases (b.earliest.all fun earliest => decide (earliest ≤ now)) with
    | true =>
      refine ⟨Bucket.sweep ⟨b.entries.erase identity, b.earliest⟩ now, _, hswept,
        lookup_reclaim_none hgone, ?_⟩
      simp only [if_true]
      split
      · right
        rfl
      · left
        rfl
    | false =>
      refine ⟨⟨b.entries.erase identity, b.earliest⟩, 0, rfl, hgone, ?_⟩
      simp only [Bool.false_eq_true, if_false]
      split
      · right
        rfl
      · left
        rfl
  · exact ⟨⟨b.entries.erase identity, b.earliest⟩, 0, rfl, hgone, .inl rfl⟩

theorem expired_insert :
    let r := b.insert limits now identity value expiresAt
    expired now r.2.1.entries + (r.2.2 + foundExpired b now identity) =
      expired now b.entries + if r.1 = .ok () ∧ expiresAt ≤ now then 1 else 0 := by
  have herase := expired_erase b now identity
  obtain ⟨rest, count, hcount, hgone, hr | hr⟩ := insert_cases b limits now identity value expiresAt
  · have hput : expired now (rest.put identity value expiresAt).entries =
        expired now rest.entries + if expiresAt ≤ now then 1 else 0 :=
      expired_put hgone
    simp only [hr, true_and, hput]
    omega
  · simp only [hr, reduceCtorEq, false_and, if_false]
    omega

end

end entries

/-! ## Slots -/

section slots

variable {now : Millis} {s : ScopedStore υ} {d : Domain} {b : Bucket υ}

section

variable (now : Millis) (s : ScopedStore υ)

theorem expiredTotal_write (d : Domain) (b : Bucket υ) :
    expiredTotal now (s.write d b) + expiredSlot now (s.peek d) =
      expiredTotal now s + expired now b.entries := by
  unfold expiredTotal expiredSlot ScopedStore.write peek
  cases d.isOverflow with
  | true =>
    simp only [if_true, elim_some]
    omega
  | false =>
    simp only [Bool.false_eq_true, if_false, weigh_insert]
    cases h : s.inner.domains.lookup d.slot with
    | none =>
      rw [erase_of_none h, elim_none]
      omega
    | some own =>
      rw [weigh_erase_of_some _ h, elim_some]
      omega

@[simp] theorem expiredTotal_dropIfEmpty (d : Domain) :
    expiredTotal now (s.dropIfEmpty d) = expiredTotal now s := by
  unfold ScopedStore.dropIfEmpty
  split
  · rfl
  cases h : s.inner.domains.lookup d.slot with
  | none => rfl
  | some own =>
    dsimp only
    split
    · rename_i hempty
      have hzero : expired now own.entries = 0 := by
        have hsize := size_reclaim_add now own.entries
        omega
      unfold expiredTotal
      rw [weigh_erase_of_some _ h, hzero, Nat.zero_add]
    · rfl

@[simp] theorem expiredTotal_noteOverflow :
    expiredTotal now (s.noteOverflow d) = expiredTotal now s := by
  unfold ScopedStore.noteOverflow
  split <;> rfl

@[simp] theorem expiredTotal_bumpReclaimed (n : Nat) :
    expiredTotal now (s.bumpReclaimed n) = expiredTotal now s := rfl

@[simp] theorem expiredTotal_write_noteOverflow (d : Domain) (b : Bucket υ) :
    expiredTotal now ((s.noteOverflow d).write d b) = expiredTotal now (s.write d b) := by
  unfold ScopedStore.noteOverflow ScopedStore.write
  split <;> rfl

end

/-- The published count. -/
def counted (s : ScopedStore υ) : Nat := s.counters.expiredReclaimed

@[simp] theorem counted_bumpReclaimed (n : Nat) : counted (s.bumpReclaimed n) = counted s + n := rfl

@[simp] theorem counted_bumpEntrySaturation : counted s.bumpEntrySaturation = counted s := rfl

@[simp] theorem counted_write : counted (s.write d b) = counted s := by
  unfold ScopedStore.write
  split <;> rfl

@[simp] theorem counted_dropIfEmpty : counted (s.dropIfEmpty d) = counted s := by
  unfold ScopedStore.dropIfEmpty
  split
  · rfl
  split
  · split <;> rfl
  · rfl

@[simp] theorem counted_noteOverflow : counted (s.noteOverflow d) = counted s := by
  unfold ScopedStore.noteOverflow
  split <;> rfl

end slots

/-! ## Calls -/

/-- Some entries were dropped that had expired. `put` have come in, and all but `missed`
were counted. -/
def Accounts (now : Millis) (put missed : Nat) (s s' : ScopedStore υ) : Prop :=
  ∃ dropped, expiredTotal now s' + dropped = expiredTotal now s + put ∧
    counted s' + missed = counted s + dropped

section calls

variable {now : Millis} {s : ScopedStore υ} {d : Domain} {b : Bucket υ}

theorem accounts_refl : Accounts now 0 0 s s := ⟨0, rfl, rfl⟩

/-- A bucket is written back that has lost `dropped` expired entries. -/
theorem accounts_write (b' : Bucket υ) (dropped : Nat) (hpeek : s.peek d = some b)
    (htotal : expiredTotal now s' = expiredTotal now (s.write d b'))
    (hentries : expired now b'.entries + dropped = expired now b.entries + put)
    (hcount : counted s' + missed = counted s + dropped) : Accounts now put missed s s' := by
  have hwrite := expiredTotal_write now s d b'
  have hslot : expiredSlot now (s.peek d) = expired now b.entries := by
    rw [hpeek]
    rfl
  refine ⟨dropped, ?_, hcount⟩
  omega

section

variable (s : ScopedStore υ) (now : Millis) (d : Domain)

theorem accounts_touch (change : υ → υ × ρ) :
    Accounts now 0 0 s (s.touch now d identity change).2 := by
  unfold ScopedStore.touch
  simp only [peek_noteOverflow]
  cases hpeek : s.peek d with
  | none => exact ⟨0, by simp, by simp⟩
  | some b =>
    dsimp only
    cases b.find now identity with
    | absent => exact ⟨0, by simp, by simp⟩
    | live value =>
      have hentries := expired_change now b identity (change value).1
      exact accounts_write (b.change identity (change value).1) 0 hpeek (by simp) hentries (by simp)
    | expired =>
      have hentries : expired now (b.sweep now).entries + expired now b.entries =
          expired now b.entries := by
        rw [Bucket.sweep, expired_reclaim, Nat.zero_add]
      exact accounts_write (b.sweep now) _ hpeek (by simp) hentries (by simp [reclaimed_eq])

theorem accounts_remove : Accounts now 0 0 s (s.remove now d identity).2 := by
  unfold ScopedStore.remove
  simp only [peek_noteOverflow]
  cases hpeek : s.peek d with
  | none => exact ⟨0, by simp, by simp⟩
  | some b =>
    have herase := expired_erase b now identity
    unfold foundExpired at herase
    dsimp only
    cases hfind : b.find now identity with
    | absent | live =>
      rw [hfind] at herase
      exact accounts_write _ 0 hpeek (by simp; rfl) herase (by simp)
    | expired =>
      rw [hfind] at herase
      exact accounts_write _ 1 hpeek (by simp; rfl) herase (by simp)

theorem accounts_entries : Accounts now 0 0 s (s.entries now d).2 := by
  unfold ScopedStore.entries
  simp only [peek_noteOverflow]
  cases hpeek : s.peek d with
  | none => exact ⟨0, by simp, by simp⟩
  | some b =>
    have hentries : expired now (reclaim b.entries now) + expired now b.entries =
        expired now b.entries := by
      rw [expired_reclaim, Nat.zero_add]
    exact accounts_write ⟨reclaim b.entries now, b.earliest⟩ _ hpeek (by simp) hentries
      (by simp [reclaimed_eq])

/-- What `retain` drops is not counted. -/
theorem accounts_retain (keep : String → υ → Option υ) :
    Accounts now 0 (expiredSlot now (s.peek d)) s (s.retain now d keep) := by
  unfold ScopedStore.retain
  cases hpeek : s.peek d with
  | none => exact ⟨0, by simp, by simp [expiredSlot]⟩
  | some b =>
    have hentries := expired_retain_live now b.entries keep
    exact accounts_write _ (expired now b.entries) hpeek (by simp; rfl)
      ((congrArg (· + expired now b.entries) hentries).trans (Nat.zero_add _)) (by simp [expiredSlot])

end

/-- A bucket that is admitted is the domain's own, which nothing has changed. -/
theorem admitBucket_accounts (h : s.admitBucket d = (.ok b, s')) :
    s'.peek d = some b ∧ b = (s.peek d).getD Bucket.empty ∧
      expiredTotal now s' = expiredTotal now s ∧ counted s' = counted s := by
  have hown := admitBucket_ok s d h
  unfold ScopedStore.admitBucket at h
  split at h
  · rename_i ho
    cases h
    exact ⟨by simp [peek, ho], hown, rfl, rfl⟩
  rename_i ho
  split at h
  · rename_i own hlookup
    cases h
    exact ⟨by simp [peek, ho, hlookup], hown, rfl, rfl⟩
  rename_i hlookup
  split at h
  · cases h
  cases h
  have hwrite := expiredTotal_write now s d Bucket.empty
  have hslot : expiredSlot now (s.peek d) = 0 := by
    simp [expiredSlot, peek, ho, hlookup]
  refine ⟨by simp, hown, ?_, by simp⟩
  have hempty : expired now (Bucket.empty : Bucket υ).entries = 0 := rfl
  omega

/-- One for an insertion that replaces an expired entry. -/
def replaced (s : ScopedStore υ) (now : Millis) (d : Domain) (identity : String) : Nat :=
  foundExpired ((s.peek d).getD Bucket.empty) now identity

section

variable (s : ScopedStore υ) (now : Millis) (d : Domain) (identity : String) (value : υ)
    (ttl : MachineArith.Duration)

/-- An insertion that finds no room for its domain changes nothing here; any other one
writes back the bucket it was given. -/
theorem insert_writes :
    (s.peek d = none ∧ (s.insert now d identity value ttl).1 ≠ .ok () ∧
      Accounts now 0 0 s (s.insert now d identity value ttl).2) ∨
    ∃ b s', (s.noteOverflow d).admitBucket d = (.ok b, s') ∧
      let r := b.insert s'.limits now identity value
        (MachineArith.satAdd64 now (MachineArith.durationMs ttl))
      (s.insert now d identity value ttl).1 = r.1 ∧
      expiredTotal now (s.insert now d identity value ttl).2 = expiredTotal now (s'.write d r.2.1) ∧
      counted (s.insert now d identity value ttl).2 = counted s' + r.2.2 := by
  unfold ScopedStore.insert
  dsimp only
  split
  · rename_i full s' hadmitted
    left
    obtain ⟨rfl, rfl⟩ := admitBucket_error _ _ hadmitted
    obtain ⟨-, hnone, -⟩ := (DomainStoreSlots.admitBucket_refused _ d).mp ⟨_, hadmitted⟩
    rw [peek_noteOverflow] at hnone
    exact ⟨hnone, by simp, 0, expiredTotal_noteOverflow now s, counted_noteOverflow⟩
  · rename_i b s' hadmitted
    right
    refine ⟨b, s', hadmitted, ?_⟩
    split
    · rename_i full b' count hinsert
      rw [hinsert]
      exact ⟨rfl, rfl, by simp⟩
    · rename_i b' count hinsert
      rw [hinsert]
      exact ⟨rfl, rfl, by simp⟩

/-- What an insertion replaces is not counted. -/
theorem accounts_insert :
    Accounts now
      (if (s.insert now d identity value ttl).1 = .ok () ∧
        MachineArith.satAdd64 now (MachineArith.durationMs ttl) ≤ now then 1 else 0)
      (replaced s now d identity) s (s.insert now d identity value ttl).2 := by
  rcases insert_writes s now d identity value ttl with ⟨hnone, hrefused, haccounts⟩ | hwrites
  · have hreplaced : replaced s now d identity = 0 := by
      unfold replaced
      rw [hnone]
      rfl
    rw [hreplaced, if_neg fun h => hrefused h.1]
    exact haccounts
  obtain ⟨b, s', hadmitted, hresult, htotal, hcount⟩ := hwrites
  obtain ⟨hpeek, hown, htotal', hcount'⟩ : _ ∧ _ ∧ expiredTotal now s' = _ ∧ _ :=
    admitBucket_accounts hadmitted
  rw [peek_noteOverflow] at hown
  rw [expiredTotal_noteOverflow] at htotal'
  rw [counted_noteOverflow] at hcount'
  have hentries := expired_insert b s'.limits now identity value
    (MachineArith.satAdd64 now (MachineArith.durationMs ttl))
  have hreplaced : replaced s now d identity = foundExpired b now identity := by
    rw [hown]
    rfl
  rw [hresult, hreplaced]
  obtain ⟨dropped, hdropped, hmissed⟩ : Accounts now _ (foundExpired b now identity) s' _ :=
    accounts_write _ _ hpeek htotal hentries (by omega)
  exact ⟨dropped, by omega, by omega⟩

end

/-! ### The count over all domains -/

theorem size_kept :
    (if allExpired b now then none else some (b.sweep now)).elim 0
        (fun kept : Bucket υ => kept.entries.size) + expired now b.entries = b.entries.size := by
  split
  · rename_i hall
    rw [elim_none, Nat.zero_add]
    exact List.countP_eq_length.mpr (all_eq_true.mp hall)
  · exact size_reclaim_add now b.entries

theorem expired_kept :
    (if allExpired b now then none else some (b.sweep now)).elim 0
        (fun kept : Bucket υ => expired now kept.entries) = 0 := by
  split
  · rfl
  · exact expired_reclaim now b.entries

theorem accounts_totalEntries : Accounts now 0 0 s (s.totalEntries now).2 := by
  have hoverflow := size_reclaim_add now s.inner.overflow.entries
  have hsizes : (s.inner.domains.retain fun _ bucket =>
        if allExpired bucket now then none else some (bucket.sweep now)).weigh
          (fun b => b.entries.size) + s.inner.domains.weigh (fun b => expired now b.entries) =
      s.inner.domains.weigh fun b => b.entries.size := by
    rw [weigh_retain]
    unfold weigh
    rw [← sum_map_add]
    exact congrArg sum (map_congr_left fun e _ => size_kept)
  have hexpired : (s.inner.domains.retain fun _ bucket =>
        if allExpired bucket now then none else some (bucket.sweep now)).weigh
          (fun b => expired now b.entries) = 0 := by
    rw [weigh_retain]
    apply sum_eq_zero
    intro n hn
    obtain ⟨e, -, rfl⟩ := mem_map.mp hn
    exact expired_kept
  refine ⟨expiredTotal now s, ?_, ?_⟩
  · have hafter : expiredTotal now (s.totalEntries now).2 = 0 :=
      congrArg₂ (· + ·) (expired_reclaim now s.inner.overflow.entries) hexpired
    omega
  have hcounted : counted (s.totalEntries now).2 = counted s +
      (s.inner.overflow.entries.size + s.inner.domains.weigh (fun b => b.entries.size) -
        ((reclaim s.inner.overflow.entries now).size + weigh (fun b => b.entries.size)
          (s.inner.domains.retain fun _ bucket =>
            if allExpired bucket now then none else some (bucket.sweep now)))) := rfl
  unfold expiredTotal
  omega

end calls

/-! ## Runs -/

/-- One for an insertion that puts in an entry that has expired already. -/
def putExpired (s : ScopedStore υ) (e : Event υ ρ) : Nat :=
  match e.call with
  | .on d (.insert identity value ttl) =>
    if (s.insert e.now d identity value ttl).1 = .ok () ∧
      MachineArith.satAdd64 e.now (MachineArith.durationMs ttl) ≤ e.now then 1 else 0
  | _ => 0

/-- How many expired entries a call drops: those there were and those it put in, without
those there still are. -/
def dropped (s : ScopedStore υ) (e : Event υ ρ) : Nat :=
  expiredTotal e.now s + putExpired s e - expiredTotal e.now (step s e).2

/-- How many of them it does not count: all that `retain` finds in its domain, and the one
an insertion finds under its identity. -/
def missed (s : ScopedStore υ) (e : Event υ ρ) : Nat :=
  match e.call with
  | .on d (.insert identity _ _) => replaced s e.now d identity
  | .on d (.retain _) => expiredSlot e.now (s.peek d)
  | _ => 0

theorem accounts_step (s : ScopedStore υ) (e : Event υ ρ) :
    Accounts e.now (putExpired s e) (missed s e) s (step s e).2 := by
  obtain ⟨now, call⟩ := e
  cases call with
  | visit | domainsLive => exact accounts_refl
  | totalEntries => exact accounts_totalEntries
  | on d op =>
    cases op with
    | insert identity value ttl => exact accounts_insert s now d identity value ttl
    | get identity | withValue identity | contains identity =>
      exact accounts_touch s now d _
    | update identity change => exact accounts_touch s now d change
    | remove identity => exact accounts_remove s now d
    | entries => exact accounts_entries s now d
    | retain keep => exact accounts_retain s now d keep

theorem counted_step (s : ScopedStore υ) (e : Event υ ρ) :
    counted (step s e).2 + missed s e = counted s + dropped s e := by
  obtain ⟨n, htotal, hcounted⟩ := accounts_step s e
  unfold dropped
  omega

/-- Over every run the count is the number of expired entries that were dropped exactly
when no `retain` meets an expired entry in its domain, and no insertion meets one under
its identity. -/
theorem reclaimed_counts_dropped_iff (hosts : HostPolicy) (limits : Limits)
    (events : List (Event υ ρ)) :
    let s : ScopedStore υ := ScopedStore.new hosts limits
    (final step s events).counters.expiredReclaimed = cost dropped step s events ↔
      Always (fun s e => missed s e = 0) step s events := by
  intro s
  have hbalance := cost_balance counted_step events s
  have hstart : counted s = 0 := rfl
  have hend : (final step s events).counters.expiredReclaimed = counted (final step s events) := rfl
  rw [← cost_eq_zero_iff]
  omega

/-! ## Entries that leave uncounted -/

/-- The entry has expired when `retain` passes over it. -/
theorem retain_counts_nothing :
    let s : ScopedStore Nat := ScopedStore.new (HostPolicy.new ["a.example"]) ⟨1, 10⟩
    let events : List (Event Nat Nat) :=
      [⟨0, .on ⟨0⟩ (.insert "client" 1 10000000)⟩, ⟨20, .on ⟨0⟩ (.retain fun _ value => some value)⟩]
    (final step s events).counters.expiredReclaimed = 0 ∧ cost dropped step s events = 1 := by
  decide +kernel

end DomainStoreReclaim
