import Pingap.DomainStore
import Pingap.Trace

/-!
# Runs of the domain-scoped store

The store as a machine: every call on a domain, with the clock reading of its
lock hold, and the answer it returns. What a call does to its own domain is a
function of that domain's slot alone (`slotStep`), and it leaves every other
domain's slot as it was. Both facts are proved once here; the results about
expiry and isolation only use them.
-/

namespace DomainStoreRun

open MachineArith DomainStore ScopedStore

variable {υ ρ : Type}

/-- The calls on one domain. -/
inductive Op (υ ρ : Type) where
  | insert (identity : String) (value : υ) (ttl : Duration)
  | get (identity : String)
  | withValue (identity : String) (read : υ → ρ)
  | update (identity : String) (change : υ → υ × ρ)
  | remove (identity : String)
  | contains (identity : String)
  | entries
  | retain (keep : String → υ → Option υ)

inductive Answer (υ ρ : Type) where
  | inserted (result : Except Full Unit)
  | value (found : Option υ)
  | result (found : Option ρ)
  | present (live : Bool)
  | count (n : Nat)
  | visited (live : List (String × υ))
  | done
deriving DecidableEq

/-- A call on one domain, a visit of one, or one of the two counts over all. -/
inductive Call (υ ρ : Type) where
  | on (d : Domain) (op : Op υ ρ)
  | visit (d : Domain)
  | totalEntries
  | domainsLive

structure Event (υ ρ : Type) where
  now : Millis
  call : Call υ ρ

def perform (s : ScopedStore υ) (now : Millis) (d : Domain) :
    Op υ ρ → Answer υ ρ × ScopedStore υ
  | .insert identity value ttl =>
    let r := s.insert now d identity value ttl
    (.inserted r.1, r.2)
  | .get identity => let r := s.get now d identity; (.value r.1, r.2)
  | .withValue identity read => let r := s.withValue now d identity read; (.result r.1, r.2)
  | .update identity change => let r := s.update now d identity change; (.result r.1, r.2)
  | .remove identity => let r := s.remove now d identity; (.value r.1, r.2)
  | .contains identity => let r := s.contains now d identity; (.present r.1, r.2)
  | .entries => let r := s.entries now d; (.count r.1, r.2)
  | .retain keep => (.done, s.retain now d keep)

def step (s : ScopedStore υ) (e : Event υ ρ) : Answer υ ρ × ScopedStore υ :=
  match e.call with
  | .on d op => perform s e.now d op
  | .visit d => (.visited (s.visit e.now d), s)
  | .totalEntries => let r := s.totalEntries e.now; (.count r.1, r.2)
  | .domainsLive => (.count s.domainsLive, s)

/-! ## What the small store functions do to a slot -/

/-- The slot a bucket leaves behind once `dropIfEmpty` has looked at it. -/
def settle (d : Domain) (b : Bucket υ) : Option (Bucket υ) :=
  if d.isOverflow = false ∧ b.entries.size = 0 then none else some b

theorem overflow_unique {d d' : Domain} (h : d.isOverflow = true) (h' : d'.isOverflow = true) :
    d' = d := by
  obtain ⟨slot⟩ := d
  obtain ⟨slot'⟩ := d'
  simp only [Domain.isOverflow, beq_iff_eq] at h h'
  rw [h, h']

section slots

variable (s : ScopedStore υ) (d d' : Domain) (b : Bucket υ)

@[simp] theorem peek_noteOverflow : (s.noteOverflow d).peek d' = s.peek d' := by
  unfold ScopedStore.noteOverflow; split <;> rfl

@[simp] theorem peek_bumpReclaimed (n : Nat) : (s.bumpReclaimed n).peek d = s.peek d := rfl
@[simp] theorem peek_bumpDomainSaturation : s.bumpDomainSaturation.peek d = s.peek d := rfl
@[simp] theorem peek_bumpEntrySaturation : s.bumpEntrySaturation.peek d = s.peek d := rfl

@[simp] theorem peek_write : (s.write d b).peek d = some b := by
  cases h : d.isOverflow <;> simp [peek, ScopedStore.write, h]

theorem peek_write_ne (h : d' ≠ d) : (s.write d b).peek d' = s.peek d' := by
  cases ho : d.isOverflow with
  | true =>
    have ho' : d'.isOverflow = false := by
      cases ho' : d'.isOverflow with
      | false => rfl
      | true => exact absurd (overflow_unique ho ho') h
    simp [peek, ScopedStore.write, ho, ho']
  | false =>
    have hslot : d'.slot ≠ d.slot := fun e => h (by cases d; cases d'; simp_all)
    cases ho' : d'.isOverflow <;>
      simp [peek, ScopedStore.write, ho, ho', AList.lookup_insert_ne hslot]

@[simp] theorem peek_dropIfEmpty : (s.dropIfEmpty d).peek d = (s.peek d).bind (settle d) := by
  unfold ScopedStore.dropIfEmpty peek settle
  cases ho : d.isOverflow with
  | true => simp
  | false =>
    cases hb : s.inner.domains.lookup d.slot with
    | none => simp [hb]
    | some b =>
      by_cases hz : b.entries.size = 0
      · simp [hz]
      · simp [hz, hb]

theorem peek_dropIfEmpty_ne (h : d' ≠ d) : (s.dropIfEmpty d).peek d' = s.peek d' := by
  cases ho : d.isOverflow with
  | true => simp [ScopedStore.dropIfEmpty, ho]
  | false =>
    have hslot : d'.slot ≠ d.slot := fun e => h (by cases d; cases d'; simp_all)
    unfold ScopedStore.dropIfEmpty peek
    cases s.inner.domains.lookup d.slot with
    | none => simp [ho]
    | some b =>
      by_cases hz : b.entries.size = 0
      · simp [ho, hz, AList.lookup_erase_ne hslot]
      · simp [ho, hz]

end slots

/-! ## What a call on a domain leaves alone -/

/-- The configuration and the slots of all other domains are as they were, and
the only slot that can be new is the domain's own. -/
structure Confined (d : Domain) (s s' : ScopedStore υ) : Prop where
  hosts : s'.hosts = s.hosts
  limits : s'.limits = s.limits
  others : ∀ d', d' ≠ d → s'.peek d' = s.peek d'
  slots : ∀ slot, (s'.inner.domains.lookup slot).isSome →
    (s.inner.domains.lookup slot).isSome ∨ (slot = d.slot ∧ d.isOverflow = false)

namespace Confined

variable {d : Domain} {s s' s'' : ScopedStore υ}

theorem refl (d : Domain) (s : ScopedStore υ) : Confined d s s :=
  ⟨rfl, rfl, fun _ _ => rfl, fun _ h => .inl h⟩

section

variable (h : Confined d s s')
include h

theorem trans (h' : Confined d s' s'') : Confined d s s'' where
  hosts := h'.hosts.trans h.hosts
  limits := h'.limits.trans h.limits
  others := fun d' hd => (h'.others d' hd).trans (h.others d' hd)
  slots := fun slot hs => by
    rcases h'.slots slot hs with hs | hs
    · exact h.slots slot hs
    · exact .inr hs

theorem noteOverflow : Confined d s (s'.noteOverflow d) := by
  refine h.trans ?_
  unfold ScopedStore.noteOverflow
  split
  · exact ⟨rfl, rfl, fun _ _ => rfl, fun _ h => .inl h⟩
  · exact refl d s'

theorem bumpReclaimed (n : Nat) : Confined d s (s'.bumpReclaimed n) :=
  ⟨h.hosts, h.limits, h.others, h.slots⟩

theorem bumpDomainSaturation : Confined d s s'.bumpDomainSaturation :=
  ⟨h.hosts, h.limits, h.others, h.slots⟩

theorem bumpEntrySaturation : Confined d s s'.bumpEntrySaturation :=
  ⟨h.hosts, h.limits, h.others, h.slots⟩

theorem write (b : Bucket υ) : Confined d s (s'.write d b) := by
  refine h.trans ⟨?_, ?_, fun d' hd => peek_write_ne s' d d' b hd, ?_⟩
  · unfold ScopedStore.write; split <;> rfl
  · unfold ScopedStore.write; split <;> rfl
  intro slot hs
  cases ho : d.isOverflow with
  | true => exact .inl (by simpa [ScopedStore.write, ho] using hs)
  | false =>
    by_cases he : slot = d.slot
    · exact .inr ⟨he, rfl⟩
    · exact .inl (by simpa [ScopedStore.write, ho, AList.lookup_insert_ne he] using hs)

theorem dropIfEmpty : Confined d s (s'.dropIfEmpty d) := by
  refine h.trans ?_
  refine ⟨?_, ?_, fun d' hd => peek_dropIfEmpty_ne s' d d' hd, ?_⟩ <;>
    unfold ScopedStore.dropIfEmpty
  · split
    · rfl
    split
    · split <;> rfl
    · rfl
  · split
    · rfl
    split
    · split <;> rfl
    · rfl
  · intro slot hs
    split at hs
    · exact .inl hs
    split at hs
    · split at hs
      · by_cases he : slot = d.slot
        · subst he; simp at hs
        · exact .inl (by simpa [AList.lookup_erase_ne he] using hs)
      · exact .inl hs
    · exact .inl hs

theorem admitBucket : Confined d s (s'.admitBucket d).2 := by
  unfold ScopedStore.admitBucket
  split
  · exact h
  split
  · exact h
  split
  · exact h.bumpDomainSaturation
  · exact h.write _

end

section

variable (now : Millis) (identity : String)

theorem insert (value : υ) (ttl : Duration) :
    Confined d s (s.insert now d identity value ttl).2 := by
  have h := (refl d s).noteOverflow.admitBucket
  simp only [ScopedStore.insert]
  split
  case h_1 ha => rw [ha] at h; exact h
  case h_2 ha =>
    rw [ha] at h
    split
    · exact ((h.write _).bumpReclaimed _).bumpEntrySaturation
    · exact (h.write _).bumpReclaimed _

theorem touch (change : υ → υ × ρ) : Confined d s (s.touch now d identity change).2 := by
  have h := (refl d s).noteOverflow
  simp only [ScopedStore.touch]
  split
  · exact h
  split
  · exact h
  · exact h.write _
  · exact ((h.write _).bumpReclaimed _).dropIfEmpty

theorem remove : Confined d s (s.remove now d identity).2 := by
  have h := (refl d s).noteOverflow
  simp only [ScopedStore.remove]
  split
  · exact h
  split
  · exact (h.write _).dropIfEmpty
  · exact ((h.write _).bumpReclaimed _).dropIfEmpty
  · exact (h.write _).dropIfEmpty

end

theorem entries (now : Millis) : Confined d s (s.entries now d).2 := by
  have h := (refl d s).noteOverflow
  simp only [ScopedStore.entries]
  split
  · exact h
  · exact ((h.write _).bumpReclaimed _).dropIfEmpty

theorem retain (now : Millis) (keep : String → υ → Option υ) :
    Confined d s (s.retain now d keep) := by
  unfold ScopedStore.retain
  split
  · exact (refl d s).dropIfEmpty
  · exact ((refl d s).write _).dropIfEmpty

end Confined

theorem perform_confined (s : ScopedStore υ) (now : Millis) (d : Domain) (op : Op υ ρ) :
    Confined d s (perform s now d op).2 := by
  cases op with
  | insert identity value ttl => exact Confined.insert now identity value ttl
  | get identity | withValue identity | contains identity => exact Confined.touch now identity _
  | update identity change => exact Confined.touch now identity change
  | remove identity => exact Confined.remove now identity
  | entries => exact Confined.entries now
  | retain keep => exact Confined.retain now keep

/-! ## What a call does to its own domain -/

def slotTouch (d : Domain) (now : Millis) (identity : String) (change : υ → υ × ρ) :
    Option (Bucket υ) → Option ρ × Option (Bucket υ)
  | none => (none, none)
  | some b =>
    match b.find now identity with
    | .absent => (none, some b)
    | .live value => (some (change value).2, some (b.change identity (change value).1))
    | .expired => (none, settle d (b.sweep now))

def slotRemove (d : Domain) (now : Millis) (identity : String) :
    Option (Bucket υ) → Option υ × Option (Bucket υ)
  | none => (none, none)
  | some b =>
    let rest := { b with entries := b.entries.erase identity }
    match b.find now identity with
    | .live value => (some value, settle d rest)
    | _ => (none, settle d rest)

def slotEntries (d : Domain) (now : Millis) : Option (Bucket υ) → Nat × Option (Bucket υ)
  | none => (0, none)
  | some b =>
    let live := reclaim b.entries now
    (live.size, settle d { b with entries := live })

def slotRetain (d : Domain) (now : Millis) (keep : String → υ → Option υ) :
    Option (Bucket υ) → Option (Bucket υ)
  | none => none
  | some b =>
    let entries := b.entries.retain fun key entry =>
      if now < entry.expiresAt then
        (keep key entry.value).map fun value => { entry with value := value }
      else none
    settle d ⟨entries, minExpiry entries⟩

/-- An admitted call as a function of its domain's slot. -/
def slotStep (limits : Limits) (d : Domain) (now : Millis) (slot : Option (Bucket υ)) :
    Op υ ρ → Answer υ ρ × Option (Bucket υ)
  | .insert identity value ttl =>
    let r := (slot.getD Bucket.empty).insert limits now identity value
      (satAdd64 now (durationMs ttl))
    (.inserted r.1, some r.2.1)
  | .get identity =>
    let r := slotTouch d now identity (fun value => (value, value)) slot
    (.value r.1, r.2)
  | .withValue identity read =>
    let r := slotTouch d now identity (fun value => (value, read value)) slot
    (.result r.1, r.2)
  | .update identity change =>
    let r := slotTouch d now identity change slot
    (.result r.1, r.2)
  | .remove identity => let r := slotRemove d now identity slot; (.value r.1, r.2)
  | .contains identity =>
    let r := slotTouch d now identity (fun value => (value, ())) slot
    (.present r.1.isSome, r.2)
  | .entries => let r := slotEntries d now slot; (.count r.1, r.2)
  | .retain keep => (.done, slotRetain d now keep slot)

section own

variable (s : ScopedStore υ) (now : Millis) (d : Domain) (identity : String)

/-- The bucket handed to an insertion is the domain's own, or a fresh one. -/
theorem admitBucket_ok (h : s.admitBucket d = (.ok b, s')) : b = (s.peek d).getD Bucket.empty := by
  unfold ScopedStore.admitBucket at h
  unfold peek
  split at h
  case isTrue ho =>
    obtain ⟨hb, -⟩ := Prod.mk.inj h
    simp [ho, Except.ok.inj hb]
  case isFalse ho =>
    split at h
    case h_1 hb => simp_all
    case h_2 hb =>
      split at h
      · simp at h
      · simp_all

/-- A refusal is for want of a domain and only counts itself. -/
theorem admitBucket_error (h : s.admitBucket d = (.error full, s')) :
    full = .domains ∧ s' = s.bumpDomainSaturation := by
  unfold ScopedStore.admitBucket at h
  split at h
  · simp at h
  split at h
  · simp at h
  split at h
  · obtain ⟨hf, hs⟩ := Prod.mk.inj h
    exact ⟨(Except.error.inj hf).symm, hs.symm⟩
  · simp at h

theorem bucket_insert_not_domains (b : Bucket υ) (limits : Limits) (now : Millis)
    (identity : String) (value : υ) (expiresAt : Millis) :
    (b.insert limits now identity value expiresAt).1 ≠ .error .domains := by
  simp only [Bucket.insert]
  split_ifs <;> simp

theorem insert_slot (h : (s.insert now d identity value ttl).1 ≠ .error .domains) :
    let r := ((s.peek d).getD Bucket.empty).insert s.limits now identity value
      (satAdd64 now (durationMs ttl))
    (s.insert now d identity value ttl).1 = r.1 ∧
      (s.insert now d identity value ttl).2.peek d = some r.2.1 := by
  have hc := (Confined.refl d s).noteOverflow.admitBucket
  simp only [ScopedStore.insert] at h ⊢
  split at h
  case h_1 full s' ha => rw [(admitBucket_error _ _ ha).1] at h; exact absurd rfl h
  case h_2 b s' ha =>
    rw [ha] at hc
    have hb := admitBucket_ok _ _ ha
    rw [peek_noteOverflow] at hb
    subst hb
    have hl : s'.limits = s.limits := hc.limits
    rw [hl]
    split <;> simp_all

/-- A refused insertion touches no slot. -/
theorem insert_refused (h : (s.insert now d identity value ttl).1 = .error .domains) :
    (s.insert now d identity value ttl).2.peek d = s.peek d := by
  simp only [ScopedStore.insert] at h ⊢
  split at h
  case h_1 full s' ha => simp [(admitBucket_error _ _ ha).2]
  case h_2 b s' ha =>
    have hb := bucket_insert_not_domains b s'.limits now identity value
      (satAdd64 now (durationMs ttl))
    split at h
    case h_1 hr => rw [hr] at hb; exact absurd h hb
    case h_2 => simp at h

theorem peek_new {hosts : HostPolicy} {limits : Limits} :
    ((ScopedStore.new hosts limits : ScopedStore υ).peek d).getD Bucket.empty = Bucket.empty := by
  cases h : d.isOverflow <;> simp [peek, ScopedStore.new, h]

theorem touch_slot (change : υ → υ × ρ) :
    (s.touch now d identity change).1 = (slotTouch d now identity change (s.peek d)).1 ∧
      (s.touch now d identity change).2.peek d =
        (slotTouch d now identity change (s.peek d)).2 := by
  simp only [ScopedStore.touch, peek_noteOverflow]
  cases hb : s.peek d with
  | none => simp [slotTouch, hb]
  | some b =>
    simp only [slotTouch]
    cases b.find now identity <;> simp [hb]

theorem remove_slot :
    (s.remove now d identity).1 = (slotRemove d now identity (s.peek d)).1 ∧
      (s.remove now d identity).2.peek d = (slotRemove d now identity (s.peek d)).2 := by
  simp only [ScopedStore.remove, peek_noteOverflow]
  cases hb : s.peek d with
  | none => simp [slotRemove, hb]
  | some b =>
    simp only [slotRemove]
    cases b.find now identity <;> simp

theorem entries_slot :
    (s.entries now d).1 = (slotEntries d now (s.peek d)).1 ∧
      (s.entries now d).2.peek d = (slotEntries d now (s.peek d)).2 := by
  simp only [ScopedStore.entries, peek_noteOverflow]
  cases hb : s.peek d with
  | none => simp [slotEntries, hb]
  | some b => simp [slotEntries]

theorem retain_slot (keep : String → υ → Option υ) :
    (s.retain now d keep).peek d = slotRetain d now keep (s.peek d) := by
  unfold ScopedStore.retain
  cases hb : s.peek d with
  | none => simp [slotRetain, hb]
  | some b => simp [slotRetain]

/-- A call that is not refused a domain answers and acts as its slot function. -/
theorem perform_slot (h : (perform s now d op).1 ≠ .inserted (.error .domains)) :
    (perform s now d op).1 = (slotStep s.limits d now (s.peek d) op).1 ∧
      (perform s now d op).2.peek d = (slotStep s.limits d now (s.peek d) op).2 := by
  cases op with
  | insert identity value ttl =>
    have hi : (s.insert now d identity value ttl).1 ≠ .error .domains :=
      fun he => h (congrArg Answer.inserted he)
    obtain ⟨ha, hs⟩ := insert_slot s now d identity hi
    exact ⟨congrArg Answer.inserted ha, hs⟩
  | get identity =>
    obtain ⟨ha, hs⟩ := touch_slot s now d identity fun value => (value, value)
    exact ⟨congrArg Answer.value ha, hs⟩
  | withValue identity read =>
    obtain ⟨ha, hs⟩ := touch_slot s now d identity fun value => (value, read value)
    exact ⟨congrArg Answer.result ha, hs⟩
  | update identity change =>
    obtain ⟨ha, hs⟩ := touch_slot s now d identity change
    exact ⟨congrArg Answer.result ha, hs⟩
  | remove identity =>
    obtain ⟨ha, hs⟩ := remove_slot s now d identity
    exact ⟨congrArg Answer.value ha, hs⟩
  | contains identity =>
    obtain ⟨ha, hs⟩ := touch_slot s now d identity fun value => (value, ())
    exact ⟨congrArg (fun found : Option Unit => Answer.present found.isSome) ha, hs⟩
  | entries =>
    obtain ⟨ha, hs⟩ := entries_slot s now d
    exact ⟨congrArg Answer.count ha, hs⟩
  | retain keep => exact ⟨rfl, retain_slot s now d keep⟩

end own

/-- What `total_entries` does to a slot. -/
def slotTotal (d : Domain) (now : Millis) : Option (Bucket υ) → Option (Bucket υ)
  | none => none
  | some b =>
    if d.isOverflow then some (b.sweep now)
    else if ScopedStore.allExpired b now then none else some (b.sweep now)

theorem totalEntries_slot {s : ScopedStore υ} :
    (s.totalEntries now).2.peek d = slotTotal d now (s.peek d) := by
  unfold ScopedStore.totalEntries peek slotTotal
  cases ho : d.isOverflow with
  | true => simp [ScopedStore.bumpReclaimed]
  | false =>
    simp only [ScopedStore.bumpReclaimed, Bool.false_eq_true, if_false, AList.lookup_retain]
    cases s.inner.domains.lookup d.slot <;> rfl

end DomainStoreRun
