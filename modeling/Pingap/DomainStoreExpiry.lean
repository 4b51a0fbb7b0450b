import Pingap.DomainStoreRun

/-!
# Lazy expiry cannot be observed

The store leaves expired entries in place and reclaims them when an operation
happens to meet them, guarded by a lower bound on the deadlines that removals
never bring up to date. The ideal map deletes every entry at its deadline. A
bucket tracks an ideal map when both show the same live entries, the lower bound
is sound and the raw bucket fits under the cap; every operation keeps this and
gives the ideal answer.
-/

namespace DomainStoreExpiry

open MachineArith DomainStore DomainStoreRun AList Option Trace

variable {υ ρ : Type}

/-! ## The ideal map -/

abbrev Ideal (υ : Type) := KeyedMap String (Entry υ)

/-- One operation of the ideal map: whatever has reached its deadline is already
gone when the operation looks. -/
def idealPerform (cap : Nat) (m : Ideal υ) (now : Millis) : Op υ ρ → Answer υ ρ × Ideal υ
  | .insert identity value ttl =>
    let live := reclaim m now
    if (live.lookup identity).isSome ∨ live.size < cap then
      (.inserted (.ok ()), live.insert identity ⟨value, satAdd64 now (durationMs ttl)⟩)
    else (.inserted (.error .entries), live)
  | .get identity =>
    let live := reclaim m now
    (.value ((live.lookup identity).map Entry.value), live)
  | .withValue identity read =>
    let live := reclaim m now
    (.result ((live.lookup identity).map fun entry => read entry.value), live)
  | .update identity change =>
    let live := reclaim m now
    (.result ((live.lookup identity).map fun entry => (change entry.value).2),
      live.modify identity fun entry => { entry with value := (change entry.value).1 })
  | .remove identity =>
    let live := reclaim m now
    (.value ((live.lookup identity).map Entry.value), live.erase identity)
  | .contains identity =>
    let live := reclaim m now
    (.present (live.lookup identity).isSome, live)
  | .entries =>
    let live := reclaim m now
    (.count live.size, live)
  | .retain keep =>
    let live := reclaim m now
    (.done, live.retain fun key entry =>
      (keep key entry.value).map fun value => { entry with value := value })

/-- The event is one of the calls on domain `d`. -/
def onDomain (d : Domain) (e : Event υ ρ) : Bool :=
  match e.call with
  | .on d' _ => d' == d
  | _ => false

/-- The ideal map of domain `d`, which only the calls on `d` concern. -/
def idealStep (cap : Nat) (d : Domain) (m : Ideal υ) (e : Event υ ρ) : Answer υ ρ × Ideal υ :=
  match e.call with
  | .on d' op => if d' = d then idealPerform cap m e.now op else (.done, m)
  | _ => (.done, m)

/-! ## Live entries -/

def live (now : Millis) (entry : Entry υ) : Bool := decide (now < entry.expiresAt)

theorem lookup_reclaim : (reclaim m now).lookup k = (m.lookup k).filter (live now) := by
  unfold reclaim
  rw [lookup_retain]
  cases m.lookup k with
  | none => rfl
  | some entry =>
    by_cases h : now < entry.expiresAt <;> simp [filter_some, live, h]

theorem filter_live_mono {o : Option (Entry υ)} (h : t ≤ t') :
    (o.filter (live t)).filter (live t') = o.filter (live t') := by
  cases o with
  | none => rfl
  | some entry =>
    have hlt : t' < entry.expiresAt → t < entry.expiresAt := Nat.lt_of_le_of_lt h
    by_cases ht : t < entry.expiresAt
    · rw [filter_some_pos (by simpa [live] using ht)]
    rw [filter_some_neg (by simpa [live] using ht),
      filter_some_neg (by simpa [live] using fun h' => ht (hlt h'))]
    rfl

theorem size_reclaim_le (m : Ideal υ) (now : Millis) : (reclaim m now).size ≤ m.size :=
  size_retain_le m

/-- An expired entry is one that the raw map counts and the live one does not. -/
theorem size_reclaim_lt (hk : m.lookup k = some entry) (hexp : ¬ now < entry.expiresAt) :
    (reclaim m now).size < m.size := by
  have hsame : (reclaim m now).size = (reclaim (m.erase k) now).size := by
    refine size_eq_of_lookup_eq fun k' => ?_
    rw [lookup_reclaim, lookup_reclaim, lookup_erase_if]
    by_cases h : k' = k
    · subst h; simp [hk, live, Nat.le_of_not_lt hexp]
    · simp [h]
  have hle := size_reclaim_le (m.erase k) now
  have herase := size_erase_of_some m k entry hk
  omega

theorem minExpiry_le {entry : Entry υ} (h : m.lookup k = some entry) :
    ∃ x, minExpiry m = some x ∧ x ≤ entry.expiresAt := by
  have hmem : entry.expiresAt ∈ m.entries.map fun e => e.2.expiresAt :=
    List.mem_map.mpr ⟨⟨k, entry⟩, (mem_entries_iff m k entry).mpr h, rfl⟩
  unfold minExpiry
  cases hmin : (m.entries.map fun e => e.2.expiresAt).min? with
  | none => rw [List.min?_eq_none_iff.mp hmin] at hmem; simp at hmem
  | some x => exact ⟨x, rfl, (List.min?_eq_some_iff.mp hmin).2 _ hmem⟩

/-! ## Tracking -/

/-- The raw bucket and the ideal map show the same live entries from time `t` on;
`earliest` bounds every deadline in the bucket; the bucket fits under the cap. -/
structure Tracks (cap : Nat) (t : Millis) (b : Bucket υ) (m : Ideal υ) : Prop where
  same : ∀ k, (b.entries.lookup k).filter (live t) = (m.lookup k).filter (live t)
  bound : ∀ k entry, b.entries.lookup k = some entry →
    ∃ x, b.earliest = some x ∧ x ≤ entry.expiresAt
  fits : b.entries.size ≤ cap

namespace Tracks

variable {cap : Nat} {t t' now : Millis} {b : Bucket υ} {m : Ideal υ}

theorem empty (cap : Nat) (t : Millis) : Tracks cap t (Bucket.empty : Bucket υ) ∅ :=
  ⟨fun _ => rfl, by simp [Bucket.empty], by simp [Bucket.empty]⟩

theorem mono (h : Tracks cap t b m) (ht : t ≤ t') : Tracks cap t' b m where
  same := fun k => by rw [← filter_live_mono ht, h.same k, filter_live_mono ht]
  bound := h.bound
  fits := h.fits

section

variable (h : Tracks cap now b m)
include h

theorem purged : Tracks cap now b (reclaim m now) where
  same := fun k => by rw [lookup_reclaim, filter_live_mono (Nat.le_refl now), h.same k]
  bound := h.bound
  fits := h.fits

theorem lookup_live (k : String) :
    (reclaim m now).lookup k = (b.entries.lookup k).filter (live now) := by
  rw [lookup_reclaim, h.same k]

theorem size_live : (reclaim b.entries now).size = (reclaim m now).size :=
  size_eq_of_lookup_eq fun k => by rw [lookup_reclaim, h.lookup_live]

theorem sweep : Tracks cap now (b.sweep now) m where
  same := fun k => by
    simp only [Bucket.sweep, lookup_reclaim, filter_live_mono (Nat.le_refl now), h.same k]
  bound := fun k entry hk => minExpiry_le hk
  fits := Nat.le_trans (size_reclaim_le _ _) h.fits

end

theorem congr (h : Tracks cap t b m) (hm : ∀ k, m'.lookup k = m.lookup k) : Tracks cap t b m' where
  same := fun k => by rw [hm k, h.same k]
  bound := h.bound
  fits := h.fits

theorem erase (h : Tracks cap t b m) (identity : String) :
    Tracks cap t { b with entries := b.entries.erase identity } (m.erase identity) where
  same := fun k => by
    by_cases hk : k = identity
    · subst hk; simp
    · simpa only [lookup_erase_ne hk] using h.same k
  bound := fun k entry hk => by
    simp only [lookup_erase_if] at hk
    split at hk
    · simp at hk
    · exact h.bound k entry hk
  fits := by
    have hfits := h.fits
    change (b.entries.erase identity).size ≤ cap
    cases hk : b.entries.lookup identity with
    | none => rw [size_erase_of_none hk]; exact hfits
    | some entry => have := size_erase_of_some _ _ _ hk; omega

theorem put (h : Tracks cap t b m) (identity : String) (value : υ) (x : Millis)
    (hroom : (b.entries.erase identity).size < cap) :
    Tracks cap t (b.put identity value x) (m.insert identity ⟨value, x⟩) where
  same := fun k => by
    by_cases hk : k = identity
    · subst hk; simp [Bucket.put]
    · simpa only [Bucket.put, lookup_insert_ne hk] using h.same k
  bound := fun k entry hk => by
    simp only [Bucket.put, lookup_insert_if] at hk
    refine ⟨_, rfl, ?_⟩
    split at hk
    · obtain rfl := Option.some.inj hk
      cases b.earliest with
      | none => exact Nat.le_refl x
      | some earliest => exact Nat.min_le_right _ _
    · obtain ⟨earliest, he, hle⟩ := h.bound k entry hk
      rw [he]
      exact Nat.le_trans (Nat.min_le_left _ _) hle
  fits := by
    simp only [Bucket.put, size_insert]
    omega

/-- The guard is sound: when the bound says nothing has expired, nothing has. -/
theorem size_of_fresh (h : Tracks cap now b m)
    (hfresh : (b.earliest.all fun earliest => decide (earliest ≤ now)) = false) :
    b.entries.size = (reclaim m now).size := by
  refine size_eq_of_lookup_eq fun k => ?_
  rw [h.lookup_live]
  cases hk : b.entries.lookup k with
  | none => rfl
  | some entry =>
    obtain ⟨x, hx, hle⟩ := h.bound k entry hk
    simp only [hx, all_some, decide_eq_false_iff_not, Nat.not_le] at hfresh
    rw [filter_some_pos (by simpa [live] using Nat.lt_of_lt_of_le hfresh hle)]

/-- An insertion answers and acts as the ideal one. -/
theorem insert (h : Tracks cap now b m) (limits : Limits) (hcap : limits.maxEntriesPerDomain = cap)
    (identity : String) (value : υ) (x : Millis) :
    let r := b.insert limits now identity value x
    let live := reclaim m now
    if (live.lookup identity).isSome ∨ live.size < cap then
      r.1 = .ok () ∧ Tracks cap now r.2.1 (live.insert identity ⟨value, x⟩)
    else r.1 = .error .entries ∧ Tracks cap now r.2.1 live := by
  intro r live
  have herase := h.purged.erase identity
  have hput : ∀ b', Tracks cap now b' (live.erase identity) → b'.entries.lookup identity = none →
      b'.entries.size < cap → Tracks cap now (b'.put identity value x)
        (live.insert identity ⟨value, x⟩) := by
    intro b' hb' hnone hroom
    rw [← size_erase_of_none hnone] at hroom
    refine (hb'.put identity value x hroom).congr fun k => ?_
    simp only [lookup_insert_if, lookup_erase_if]
    split <;> rfl
  cases hk : b.entries.lookup identity with
  | some entry =>
    -- A refresh needs no room: the entry taken out leaves a place, live or expired.
    have hsize := size_erase_of_some _ _ _ hk
    have hfits := h.fits
    have hr : r = (.ok (), ({ b with entries := b.entries.erase identity } : Bucket υ).put
        identity value x, 0) := by
      simp [r, Bucket.insert, hk]
    have hok : (live.lookup identity).isSome ∨ live.size < cap := by
      by_cases hlive : now < entry.expiresAt
      · left
        rw [h.lookup_live, hk, filter_some_pos (by simpa [DomainStoreExpiry.live] using hlive)]
        rfl
      · right
        have hlt := size_reclaim_lt hk hlive
        rw [h.size_live] at hlt
        exact Nat.lt_of_lt_of_le hlt hfits
    rw [if_pos hok, hr]
    refine ⟨rfl, hput _ herase (by simp) ?_⟩
    change (b.entries.erase identity).size < cap
    omega
  | none =>
    have hnone : live.lookup identity = none := by rw [h.lookup_live, hk]; rfl
    have hb : ({ b with entries := b.entries.erase identity } : Bucket υ) = b := by
      rw [erase_of_none hk]
    rw [hb, erase_of_none hnone] at herase
    rw [erase_of_none hnone] at hput
    have hle : live.size ≤ b.entries.size := h.size_live ▸ size_reclaim_le b.entries now
    simp only [hnone, isSome_none, Bool.false_eq_true, false_or]
    by_cases hfull : cap ≤ b.entries.size
    · cases hstale : b.earliest.all fun earliest => decide (earliest ≤ now) with
      | true =>
        have hsize : (b.sweep now).entries.size = live.size := h.size_live
        have hr : r = if cap ≤ live.size then (.error .entries, b.sweep now, reclaimed b.entries now)
            else (.ok (), (b.sweep now).put identity value x, reclaimed b.entries now) := by
          simp only [r, Bucket.insert, hb, hk, hcap, hstale, ← hsize]
          simp [hfull, erase_of_none hk]
        by_cases hroom : live.size < cap
        · rw [if_pos hroom, hr, if_neg (by omega)]
          refine ⟨rfl, hput _ herase.sweep ?_ (by omega)⟩
          simp only [Bucket.sweep, lookup_reclaim, hk]
          rfl
        · rw [if_neg hroom, hr, if_pos (by omega)]
          exact ⟨rfl, herase.sweep⟩
      | false =>
        have hsize : b.entries.size = live.size := h.size_of_fresh hstale
        have hr : r = (.error .entries, b, 0) := by
          simp only [r, Bucket.insert, hb, hk, hcap, hstale]
          simp [hfull, erase_of_none hk]
        rw [if_neg (by omega), hr]
        exact ⟨rfl, herase⟩
    · have hr : r = (.ok (), b.put identity value x, 0) := by
        simp only [r, Bucket.insert, hb, hk, hcap]
        simp [hfull, erase_of_none hk]
      rw [if_pos (by omega), hr]
      exact ⟨rfl, hput b herase hk (by omega)⟩

theorem lookup_none_of_empty (h : Tracks cap now (Bucket.empty : Bucket υ) m) (k : String) :
    (reclaim m now).lookup k = none := by
  rw [h.lookup_live]; rfl

theorem settle (h : Tracks cap t b m) (d : Domain) :
    Tracks cap t ((DomainStoreRun.settle d b).getD Bucket.empty) m := by
  unfold DomainStoreRun.settle
  split
  case isFalse => exact h
  case isTrue hz =>
    refine ⟨fun k => ?_, by simp [Bucket.empty], by simp [Bucket.empty]⟩
    rw [← h.same k, lookup_eq_none_of_size_zero hz.2]
    rfl

theorem change (h : Tracks cap now b m) (identity : String) (entry : Entry υ) (value : υ)
    (hk : b.entries.lookup identity = some entry) (hlive : now < entry.expiresAt) :
    Tracks cap now (b.change identity value)
      ((reclaim m now).modify identity fun e => { e with value := value }) where
  same := fun k => by
    simp only [Bucket.change, lookup_modify]
    split
    · rw [h.lookup_live, hk, filter_some_pos (by simpa [live] using hlive)]
    · exact h.purged.same k
  bound := fun k e he => by
    simp only [Bucket.change, lookup_modify] at he
    split at he
    case isTrue hid =>
      rw [hk] at he
      obtain rfl := Option.some.inj he
      exact h.bound identity entry hk
    case isFalse => exact h.bound k e he
  fits := by
    simpa only [Bucket.change, size_modify] using h.fits

section

variable {slot : Option (Bucket υ)} (h : Tracks cap now (slot.getD Bucket.empty) m) (d : Domain)
include h

/-- A read or an update finds exactly the live value. -/
theorem touch (identity : String) (change : υ → υ × ρ) :
    let r := slotTouch d now identity change slot
    let live := reclaim m now
    r.1 = (live.lookup identity).map (fun entry => (change entry.value).2) ∧
      Tracks cap now (r.2.getD Bucket.empty)
        (live.modify identity fun entry => { entry with value := (change entry.value).1 }) := by
  intro r live
  have hmissing : live.lookup identity = none → ∀ k, (live.modify identity
      fun entry => { entry with value := (change entry.value).1 }).lookup k = live.lookup k := by
    intro hnone k
    rw [lookup_modify]
    split
    case isTrue hk => rw [hk, hnone]; rfl
    case isFalse => rfl
  cases slot with
  | none =>
    have hnone := h.lookup_none_of_empty identity
    exact ⟨by simp [r, slotTouch, live, hnone], h.purged.congr (hmissing hnone)⟩
  | some b =>
    simp only [getD_some] at h
    cases hk : b.entries.lookup identity with
    | none =>
      have hnone : live.lookup identity = none := by rw [h.lookup_live, hk]; rfl
      have hr : r = (none, some b) := by simp [r, slotTouch, Bucket.find, hk]
      rw [hr, hnone]
      exact ⟨rfl, h.purged.congr (hmissing hnone)⟩
    | some entry =>
      by_cases hlive : now < entry.expiresAt
      · have hsome : live.lookup identity = some entry := by
          rw [h.lookup_live, hk, filter_some_pos (by simpa [DomainStoreExpiry.live] using hlive)]
        have hr : r = (some (change entry.value).2,
            some (b.change identity (change entry.value).1)) := by
          simp [r, slotTouch, Bucket.find, hk, hlive]
        rw [hr, hsome]
        refine ⟨rfl, (h.change identity entry _ hk hlive).congr fun k => ?_⟩
        simp only [lookup_modify]
        split
        · rw [show (reclaim m now).lookup identity = some entry from hsome]; rfl
        · rfl
      · have hnone : live.lookup identity = none := by
          rw [h.lookup_live, hk, filter_some_neg (by simpa [DomainStoreExpiry.live] using hlive)]
        have hr : r = (none, DomainStoreRun.settle d (b.sweep now)) := by
          simp [r, slotTouch, Bucket.find, hk, hlive]
        rw [hr, hnone]
        exact ⟨rfl, (h.purged.sweep.settle d).congr (hmissing hnone)⟩

/-- A read keeps the value it found, so the ideal map is only purged. -/
theorem read (identity : String) (read : υ → ρ) :
    let r := slotTouch d now identity (fun value => (value, read value)) slot
    r.1 = ((reclaim m now).lookup identity).map (fun entry => read entry.value) ∧
      Tracks cap now (r.2.getD Bucket.empty) (reclaim m now) := by
  obtain ⟨ha, ht⟩ := h.touch d identity fun value => (value, read value)
  refine ⟨ha, ht.congr fun k => ?_⟩
  rw [lookup_modify]
  split
  case isTrue hk => rw [hk]; cases (reclaim m now).lookup identity <;> rfl
  case isFalse => rfl

/-- A removal returns exactly the live value. -/
theorem remove (identity : String) :
    let r := slotRemove d now identity slot
    r.1 = ((reclaim m now).lookup identity).map Entry.value ∧
      Tracks cap now (r.2.getD Bucket.empty) ((reclaim m now).erase identity) := by
  cases slot with
  | none =>
    have hnone := h.lookup_none_of_empty identity
    refine ⟨by simp [slotRemove, hnone], ?_⟩
    rw [erase_of_none hnone]
    exact h.purged
  | some b =>
    simp only [getD_some] at h
    have hrest := (h.purged.erase identity).settle d
    rw [h.lookup_live]
    simp only [slotRemove, Bucket.find]
    cases hk : b.entries.lookup identity with
    | none => exact ⟨rfl, hrest⟩
    | some entry =>
      by_cases hlive : now < entry.expiresAt
      · rw [filter_some_pos (by simpa [live] using hlive)]
        simpa [hlive] using hrest
      · rw [filter_some_neg (by simpa [live] using hlive)]
        simpa [hlive] using hrest

theorem entries :
    let r := slotEntries d now slot
    r.1 = (reclaim m now).size ∧ Tracks cap now (r.2.getD Bucket.empty) (reclaim m now) := by
  cases slot with
  | none =>
    exact ⟨h.size_live, h.purged⟩
  | some b =>
    simp only [getD_some] at h
    refine ⟨h.size_live, Tracks.settle ⟨fun k => ?_, fun k entry hk => ?_, ?_⟩ d⟩
    · simp only [lookup_reclaim, filter_live_mono (Nat.le_refl now), h.same k]
    · simp only [lookup_reclaim, filter_eq_some_iff] at hk
      exact h.bound k entry hk.1
    · exact Nat.le_trans (size_reclaim_le _ _) h.fits

theorem retain (keep : String → υ → Option υ) :
    Tracks cap now ((slotRetain d now keep slot).getD Bucket.empty)
      ((reclaim m now).retain fun key entry =>
        (keep key entry.value).map fun value => { entry with value := value }) := by
  cases slot with
  | none =>
    refine h.purged.congr fun k => ?_
    rw [lookup_retain, h.lookup_none_of_empty k]
    rfl
  | some b =>
    simp only [getD_some] at h
    refine Tracks.settle ⟨fun k => ?_, fun k entry hk => minExpiry_le hk, ?_⟩ d
    · rw [lookup_retain, lookup_retain, h.lookup_live]
      cases b.entries.lookup k with
      | none => rfl
      | some entry =>
        by_cases hlive : now < entry.expiresAt
        · rw [filter_some_pos (by simpa [live] using hlive)]
          simp [hlive]
        · rw [filter_some_neg (by simpa [live] using hlive)]
          simp [hlive]
    · exact Nat.le_trans (size_retain_le _) h.fits

theorem total : Tracks cap now ((slotTotal d now slot).getD Bucket.empty) m := by
  cases slot with
  | none => exact h
  | some b =>
    simp only [getD_some] at h
    simp only [slotTotal]
    split
    · exact h.sweep
    split
    case isFalse => exact h.sweep
    case isTrue hall =>
      refine ⟨fun k => ?_, by simp [Bucket.empty], by simp [Bucket.empty]⟩
      rw [← h.same k]
      cases hk : b.entries.lookup k with
      | none => rfl
      | some entry =>
        have hmem := (mem_entries_iff b.entries k entry).mpr hk
        have hexp : entry.expiresAt ≤ now := by
          simpa using List.all_eq_true.mp hall _ hmem
        rw [filter_some_neg (by simpa [live] using hexp)]
        rfl

end

/-- An admitted operation answers and acts as the ideal one. -/
theorem step (h : Tracks cap now (slot.getD Bucket.empty) m) (limits : Limits)
    (hcap : limits.maxEntriesPerDomain = cap) (d : Domain) (op : Op υ ρ) :
    (slotStep limits d now slot op).1 = (idealPerform cap m now op).1 ∧
      Tracks cap now ((slotStep limits d now slot op).2.getD Bucket.empty)
        (idealPerform cap m now op).2 := by
  cases op with
  | insert identity value ttl =>
    have hi := h.insert limits hcap identity value (satAdd64 now (durationMs ttl))
    simp only [slotStep, idealPerform]
    dsimp only at hi
    split at hi
    case isTrue hok => rw [if_pos hok]; exact ⟨congrArg Answer.inserted hi.1, hi.2⟩
    case isFalse hno => rw [if_neg hno]; exact ⟨congrArg Answer.inserted hi.1, hi.2⟩
  | get identity =>
    obtain ⟨ha, ht⟩ := h.read d identity id
    exact ⟨congrArg Answer.value ha, ht⟩
  | withValue identity read =>
    obtain ⟨ha, ht⟩ := h.read d identity read
    exact ⟨congrArg Answer.result ha, ht⟩
  | update identity change =>
    obtain ⟨ha, ht⟩ := h.touch d identity change
    exact ⟨congrArg Answer.result ha, ht⟩
  | remove identity =>
    obtain ⟨ha, ht⟩ := h.remove d identity
    exact ⟨congrArg Answer.value ha, ht⟩
  | contains identity =>
    obtain ⟨ha, ht⟩ := h.read d identity fun _ => ()
    refine ⟨?_, ht⟩
    simp only [slotStep, idealPerform, ha, isSome_map]
  | entries =>
    obtain ⟨ha, ht⟩ := h.entries d
    exact ⟨congrArg Answer.count ha, ht⟩
  | retain keep => exact ⟨rfl, h.retain d keep⟩

end Tracks

/-! ## Runs -/

section run

variable {cap : Nat} {t : Millis} {s : ScopedStore υ} {m : Ideal υ} {d : Domain}

/-- The store's slot of a domain tracks the ideal map. -/
structure Follows (cap : Nat) (d : Domain) (t : Millis) (s : ScopedStore υ) (m : Ideal υ) :
    Prop where
  limit : s.limits.maxEntriesPerDomain = cap
  slot : Tracks cap t ((s.peek d).getD Bucket.empty) m

theorem follows_on (h : Follows cap d t s m) (ht : t ≤ e.now) (hk : onDomain d e = true)
    (hok : (step s e).1 ≠ .inserted (.error .domains)) :
    (step s e).1 = (idealStep cap d m e).1 ∧
      Follows cap d e.now (step s e).2 (idealStep cap d m e).2 := by
  obtain ⟨now, call⟩ := e
  cases call with
  | on d' op =>
    simp only [onDomain, beq_iff_eq] at hk
    subst hk
    simp only [step] at hok
    obtain ⟨ha, hs⟩ := perform_slot s now d' hok
    obtain ⟨ha', hs'⟩ := (h.slot.mono ht).step s.limits h.limit d' op
    have hlimits := (perform_confined s now d' op).limits
    simp only [step, idealStep, if_true]
    refine ⟨ha.trans ha', ?_, ?_⟩
    · rw [hlimits]; exact h.limit
    · rw [hs]; exact hs'
  | _ => simp [onDomain] at hk

theorem follows_off (h : Follows cap d t s m) (ht : t ≤ e.now) (hk : onDomain d e = false) :
    Follows cap d e.now (step s e).2 (idealStep cap d m e).2 := by
  obtain ⟨now, call⟩ := e
  have hs := h.slot.mono ht
  cases call with
  | on d' op =>
    simp only [onDomain, beq_eq_false_iff_ne, ne_eq] at hk
    have hc := perform_confined s now d' op
    simp only [step, idealStep, if_neg hk]
    refine ⟨?_, ?_⟩
    · rw [hc.limits]; exact h.limit
    · rw [hc.others d (Ne.symm hk)]; exact hs
  | visit | domainsLive => exact ⟨h.limit, hs⟩
  | totalEntries =>
    refine ⟨h.limit, ?_⟩
    simp only [step, idealStep, totalEntries_slot]
    exact hs.total d

end run

/-! ## A stored value leaves at most once -/

/-- The call makes no value of `P` out of one that is not. -/
def Preserves (P : υ → Bool) : Op υ ρ → Prop
  | .update _ change => ∀ v, P (change v).1 = true → P v = true
  | .retain keep => ∀ k v w, keep k v = some w → P w = true → P v = true
  | _ => True

/-- One if the event stored a value of `P` on domain `d`. -/
def storedOn (P : υ → Bool) (d : Domain) (e : Event υ ρ) (answer : Answer υ ρ) : Nat :=
  match e.call, answer with
  | .on d' (.insert _ value _), .inserted (.ok ()) => if d' = d ∧ P value = true then 1 else 0
  | _, _ => 0

/-- One if the event is a removal that returned a value of `P` from domain `d`. -/
def removedFrom (P : υ → Bool) (d : Domain) (e : Event υ ρ) (answer : Answer υ ρ) : Nat :=
  match e.call, answer with
  | .on d' (.remove _), .value (some value) => if d' = d ∧ P value = true then 1 else 0
  | _, _ => 0

/-- How many entries of a slot, live or not, hold a value of `P`. -/
def holding (P : υ → Bool) (slot : Option (Bucket υ)) : Nat :=
  (slot.getD Bucket.empty).entries.count fun entry => P entry.value

section holding

variable (P : υ → Bool)

theorem holding_settle (d : Domain) (b : Bucket υ) : holding P (settle d b) ≤ holding P (some b) := by
  unfold settle
  split
  · exact Nat.zero_le _
  · exact Nat.le_refl _

theorem count_reclaim_le :
    (reclaim m now).count (fun entry => P entry.value) ≤ m.count fun entry => P entry.value := by
  refine count_retain_le fun k v w _ hw hp => ?_
  split at hw
  · rw [Option.some.inj hw]; exact hp
  · simp at hw

theorem holding_insert (b : Bucket υ) (limits : Limits) (now : Millis) (identity : String)
    (value : υ) (x : Millis) :
    let r := b.insert limits now identity value x
    holding P (some r.2.1) ≤ holding P (some b) +
      match r.1 with | .ok () => if P value then 1 else 0 | .error _ => 0 := by
  have herase := count_erase_le (fun entry : Entry υ => P entry.value) b.entries identity
  have hput : ∀ b' : Bucket υ, (b'.put identity value x).entries.count (fun entry => P entry.value) ≤
      b'.entries.count (fun entry => P entry.value) + if P value then 1 else 0 := by
    intro b'
    have h := count_erase_le (fun entry : Entry υ => P entry.value) b'.entries identity
    simp only [Bucket.put, count_insert]
    omega
  have hsweep : ∀ b' : Bucket υ, (b'.sweep now).entries.count (fun entry => P entry.value) ≤
      b'.entries.count fun entry => P entry.value := fun b' => count_reclaim_le P
  have hput₁ := hput { b with entries := b.entries.erase identity }
  have hput₂ := hput (Bucket.sweep { b with entries := b.entries.erase identity } now)
  have hsweep₁ := hsweep { b with entries := b.entries.erase identity }
  simp only [holding, getD_some, Bucket.insert]
  simp only at hput₁ hput₂ hsweep₁
  generalize (if P value = true then 1 else 0) = weight at hput₁ hput₂ ⊢
  split_ifs <;> simp only <;> omega

section

variable (d : Domain) (now : Millis)

theorem holding_touch (identity : String) (change : υ → υ × ρ)
    (hP : ∀ v, P (change v).1 = true → P v = true) (slot : Option (Bucket υ)) :
    holding P (slotTouch d now identity change slot).2 ≤ holding P slot := by
  cases slot with
  | none => exact Nat.le_refl _
  | some b =>
    simp only [slotTouch]
    cases hf : b.find now identity with
    | absent => exact Nat.le_refl _
    | expired => exact Nat.le_trans (holding_settle P d _) (count_reclaim_le P)
    | live value =>
      refine count_retain_le fun k v w hk hw hp => ?_
      obtain rfl := Option.some.inj hw
      by_cases hid : k = identity
      · subst hid
        simp only [Bucket.find, hk] at hf
        split at hf
        · obtain rfl := Bucket.Found.live.inj hf
          exact hP v.value (by simpa using hp)
        · simp at hf
      · simpa [hid] using hp

theorem holding_remove (identity : String) (slot : Option (Bucket υ)) :
    let r := slotRemove d now identity slot
    (match r.1 with | some value => if P value then 1 else 0 | none => 0) + holding P r.2 ≤
      holding P slot := by
  cases slot with
  | none => exact Nat.le_refl _
  | some b =>
    have hrest := holding_settle P d { b with entries := b.entries.erase identity }
    have herase := count_erase_le (fun entry : Entry υ => P entry.value) b.entries identity
    simp only [slotRemove]
    cases hf : b.find now identity with
    | absent | expired => simp only [Nat.zero_add]; exact Nat.le_trans hrest herase
    | live value =>
      simp only [Bucket.find] at hf
      cases hk : b.entries.lookup identity with
      | none => simp [hk] at hf
      | some entry =>
        simp only [hk] at hf
        split at hf
        · obtain rfl := Bucket.Found.live.inj hf
          have hcount := count_erase_of_some (fun entry : Entry υ => P entry.value) hk
          simp only [holding, getD_some] at hrest ⊢
          omega
        · simp at hf

theorem holding_entries (slot : Option (Bucket υ)) :
    holding P (slotEntries d now slot).2 ≤ holding P slot := by
  cases slot with
  | none => exact Nat.le_refl _
  | some b => exact Nat.le_trans (holding_settle P d _) (count_reclaim_le P)

theorem holding_retain (hP : ∀ k v w, keep k v = some w → P w = true → P v = true)
    (slot : Option (Bucket υ)) :
    holding P (slotRetain d now keep slot) ≤ holding P slot := by
  cases slot with
  | none => exact Nat.le_refl _
  | some b =>
    refine Nat.le_trans (holding_settle P d _) ?_
    refine count_retain_le fun k v w _ hw hp => ?_
    split at hw
    · obtain ⟨value, hkeep, rfl⟩ := map_eq_some_iff.mp hw
      exact hP k v.value value hkeep hp
    · simp at hw

theorem holding_total (slot : Option (Bucket υ)) :
    holding P (slotTotal d now slot) ≤ holding P slot := by
  cases slot with
  | none => exact Nat.le_refl _
  | some b =>
    have hsweep : holding P (some (b.sweep now)) ≤ holding P (some b) := count_reclaim_le P
    simp only [slotTotal]
    split
    · exact hsweep
    split
    · exact Nat.zero_le _
    · exact hsweep

end

theorem holding_perform (hP : Preserves P op) :
    let r := perform s now d op
    removedFrom P d ⟨now, .on d op⟩ r.1 + holding P (r.2.peek d) ≤
      storedOn P d ⟨now, .on d op⟩ r.1 + holding P (s.peek d) := by
  intro r
  cases op with
  | insert identity value ttl =>
    by_cases hok : (s.insert now d identity value ttl).1 = .error .domains
    · have hslot := insert_refused s now d identity hok
      simp only [r, perform, removedFrom, hslot]
      omega
    obtain ⟨ha, hslot⟩ := insert_slot s now d identity hok
    have h := holding_insert P ((s.peek d).getD Bucket.empty) s.limits now identity value
      (satAdd64 now (durationMs ttl))
    simp only [r, perform, removedFrom, storedOn, hslot, ha, Nat.zero_add]
    rw [Nat.add_comm]
    refine Nat.le_trans h (Nat.add_le_add (Nat.le_refl _) ?_)
    split <;> simp_all
  | get identity =>
    have h := holding_touch P d now identity (fun value => (value, value)) (fun _ h => h) (s.peek d)
    simpa [r, perform, removedFrom, storedOn, ScopedStore.get, ScopedStore.withValue,
      touch_slot] using h
  | withValue identity read =>
    have h := holding_touch P d now identity (fun value => (value, read value)) (fun _ h => h)
      (s.peek d)
    simpa [r, perform, removedFrom, storedOn, ScopedStore.withValue, touch_slot] using h
  | update identity change =>
    have h := holding_touch P d now identity change hP (s.peek d)
    simpa [r, perform, removedFrom, storedOn, ScopedStore.update, touch_slot] using h
  | remove identity =>
    have h := holding_remove P d now identity (s.peek d)
    obtain ⟨ha, hslot⟩ := remove_slot s now d identity
    simp only [r, perform, removedFrom, storedOn, hslot, ha, Nat.zero_add]
    refine Nat.le_trans (Nat.add_le_add ?_ (Nat.le_refl _)) h
    split <;> simp_all
  | contains identity =>
    have h := holding_touch P d now identity (fun value => (value, ())) (fun _ h => h) (s.peek d)
    simpa [r, perform, removedFrom, storedOn, ScopedStore.contains, touch_slot] using h
  | entries =>
    have h := holding_entries P d now (s.peek d)
    simpa [r, perform, removedFrom, storedOn, entries_slot] using h
  | retain keep =>
    have h := holding_retain P d now hP (s.peek d)
    simpa [r, perform, removedFrom, storedOn, retain_slot] using h

theorem holding_step {e : Event υ ρ} (hP : ∀ op, e.call = .on d op → Preserves P op) :
    removedFrom P d e (step s e).1 + holding P ((step s e).2.peek d) ≤
      storedOn P d e (step s e).1 + holding P (s.peek d) := by
  obtain ⟨now, call⟩ := e
  cases call with
  | visit | domainsLive => simp [step, removedFrom, storedOn]
  | totalEntries =>
    have h := holding_total P d now (s.peek d)
    simpa [step, removedFrom, storedOn, totalEntries_slot] using h
  | on d' op =>
    by_cases hd : d' = d
    · subst hd
      exact holding_perform P (hP op rfl)
    have hother := (perform_confined s now d' op).others d (Ne.symm hd)
    simp only [step, hother]
    have hzero : removedFrom P d ⟨now, .on d' op⟩ (perform s now d' op).1 = 0 := by
      unfold removedFrom
      split <;> simp_all
    omega

end holding

/-- For every run with a clock that never goes back in which no call on `d` is
refused a domain, the answers on `d` are those of the map that deletes each entry
at its deadline; and of any class of values that updates do not create, no more
leave by removal than were stored. -/
theorem lazy_expiry_unobservable (hosts : HostPolicy) (limits : Limits) (d : Domain)
    (es : List (Event υ ρ)) (hclock : Trace.Clocked Event.now 0 es)
    (hadmitted : ∀ o ∈ Trace.observed (onDomain d) step (ScopedStore.new hosts limits) es,
      o ≠ .inserted (.error .domains)) :
    Trace.observed (onDomain d) step (ScopedStore.new hosts limits) es =
        Trace.observed (onDomain d) (idealStep limits.maxEntriesPerDomain d) ∅ es ∧
      ∀ P : υ → Bool, (∀ e ∈ es, ∀ op, e.call = .on d op → Preserves P op) →
        Trace.tally (removedFrom P d) step (ScopedStore.new hosts limits) es ≤
          Trace.tally (storedOn P d) step (ScopedStore.new hosts limits) es := by
  refine ⟨?_, fun P hP => ?_⟩
  · have h := observed_eq (onDomain d) (fun _ => true) step
      (idealStep limits.maxEntriesPerDomain d) Event.now (fun o => o ≠ .inserted (.error .domains))
      (Follows limits.maxEntriesPerDomain d) (fun _ _ => rfl)
      (fun _ _ _ e ht hk hok h => follows_on h ht hk hok)
      (fun _ _ _ e ht hk _ h => follows_off h ht hk)
      (fun _ _ _ _ _ hs _ => by simp at hs)
      es 0 (ScopedStore.new hosts limits) ∅ ⟨rfl, ?_⟩ hclock hadmitted
    · rwa [List.filter_true] at h
    · rw [peek_new]; exact Tracks.empty _ _
  · have h := tally_le (removedFrom P d) (storedOn P d) (fun s => holding P (s.peek d)) step es
      (fun s e he => holding_step P (hP e he)) (ScopedStore.new hosts limits)
    have hzero : holding P ((ScopedStore.new hosts limits : ScopedStore υ).peek d) = 0 := by
      unfold holding; rw [peek_new]; rfl
    omega

/-- One place: the second insertion finds it full of an entry that expires right
then, and the removal that follows meets the value once. -/
def expiringRun : List (Event Nat Nat) :=
  let d : Domain := ⟨0⟩
  [⟨0, .on d (.insert "a" 7 1000000)⟩, ⟨0, .on d (.insert "b" 8 1000000)⟩,
    ⟨1, .on d (.insert "b" 8 5000000)⟩, ⟨1, .on d (.get "a")⟩, ⟨2, .on d (.remove "b")⟩,
    ⟨2, .on d (.remove "b")⟩]

theorem lazy_expiry_unobservable_full_bucket :
    let s : ScopedStore Nat := ScopedStore.new (HostPolicy.new ["a.test"]) ⟨1, 1⟩
    Clocked Event.now 0 expiringRun ∧
      observed (onDomain ⟨0⟩) step s expiringRun =
        observed (onDomain ⟨0⟩) (idealStep 1 ⟨0⟩) ∅ expiringRun ∧
      observed (onDomain ⟨0⟩) step s expiringRun =
        [.inserted (.ok ()), .inserted (.error .entries), .inserted (.ok ()), .value none,
          .value (some 8), .value none] :=
  ⟨by simp [Clocked, expiringRun],
    (lazy_expiry_unobservable (HostPolicy.new ["a.test"]) ⟨1, 1⟩ ⟨0⟩ expiringRun
      (by simp [Clocked, expiringRun]) (by decide)).1, by decide⟩

end DomainStoreExpiry
