import Mathlib.Algebra.Order.Group.Multiset
import Mathlib.Data.Finset.Card
import Mathlib.Data.Multiset.MapFold
import Pingap.AbuseRegistryCells

/-!
# The bans the registry holds

A ban lives in the cell of its client, in the index of active bans and, as a
transition, in the record of what was reported. This module gathers the bans of
all cells and says what the reporting functions do to the record: the transitions,
the counters, the sequence numbers and the index.
-/

namespace AbuseRegistry

open MachineArith AbuseScenario DomainStoreForever AList List Option
open DomainStore (HostPolicy Limits ScopedStore Domain)
open EventQueue (NativeKind NativeActor)

def ClientBucket.clients (b : ClientBucket) : List (String × Client) :=
  match b.store.peek b.domain with
  | none => []
  | some bucket => bucket.entries.entries.map fun e => (e.1, e.2.value)

def Registry.banAt (r : Registry) (d k : String) : Option Decision := (r.cell d k).bind Client.ban

def ClientBucket.held (domain : String) (b : ClientBucket) : List ActiveDecision :=
  b.clients.filterMap fun e => e.2.ban.map fun ban => ⟨ban, domain, e.1⟩

/-- The cells that hold a ban, each with its ban. -/
def Registry.held (r : Registry) : Finset ActiveDecision :=
  (r.domains.entries.flatMap fun e => e.2.held e.1).toFinset

def Registry.bans (r : Registry) : Multiset Decision := r.held.val.map ActiveDecision.decision

section held

variable {r r' : Registry}

theorem ClientBucket.mem_clients (b : ClientBucket) (k : String) (c : Client) :
    (k, c) ∈ b.clients ↔ b.client k = some c := by
  unfold clients client valueAt entryAt
  cases b.store.peek b.domain with
  | none => simp
  | some bucket =>
    simp only [List.mem_map, Option.bind_some, Option.map_eq_some_iff, Prod.mk.injEq]
    constructor
    · rintro ⟨⟨k', e⟩, he, rfl, rfl⟩
      exact ⟨e, (mem_entries_iff _ _ _).mp he, rfl⟩
    · rintro ⟨e, he, rfl⟩
      exact ⟨⟨k, e⟩, (AList.mem_entries_iff _ _ _).mpr he, rfl, rfl⟩

theorem mem_held (r : Registry) (a : ActiveDecision) :
    a ∈ r.held ↔ r.banAt a.domain a.key = some a.decision := by
  obtain ⟨ban, domain, key⟩ := a
  simp only [Registry.held, List.mem_toFinset, mem_flatMap, ClientBucket.held,
    mem_filterMap, map_eq_some_iff, Registry.banAt, Registry.cell,
    ActiveDecision.mk.injEq, bind_eq_some_iff]
  constructor
  · rintro ⟨⟨d, b⟩, hb, ⟨k, c⟩, hc, ban', hban, rfl, rfl, rfl⟩
    exact ⟨c, ⟨b, (mem_entries_iff _ _ _).mp hb, (b.mem_clients k c).mp hc⟩, hban⟩
  · rintro ⟨c, ⟨b, hb, hc⟩, hban⟩
    exact ⟨⟨domain, b⟩, (mem_entries_iff _ _ _).mpr hb, (key, c),
      (b.mem_clients key c).mpr hc, ban, hban, rfl, rfl, rfl⟩

theorem mem_bans (r : Registry) (b : Decision) : b ∈ r.bans ↔ ∃ d k, r.banAt d k = some b := by
  simp only [Registry.bans, Multiset.mem_map, Finset.mem_val, mem_held]
  constructor
  · rintro ⟨a, ha, rfl⟩; exact ⟨a.domain, a.key, ha⟩
  · rintro ⟨d, k, h⟩; exact ⟨⟨b, d, k⟩, h, rfl⟩

theorem card_bans : r.bans.card = r.held.card := Multiset.card_map _ _

theorem bans_congr (h : ∀ d k, r'.banAt d k = r.banAt d k) : r'.bans = r.bans := by
  have hheld : r'.held = r.held := by
    ext a
    rw [mem_held, mem_held, h]
  rw [Registry.bans, hheld, Registry.bans]

theorem bans_le (h : ∀ d k, r'.banAt d k = r.banAt d k ∨ r'.banAt d k = none) :
    r'.bans ≤ r.bans := by
  refine Multiset.map_le_map (Finset.val_le_iff.mpr fun a ha => ?_)
  rw [mem_held] at ha ⊢
  rcases h a.domain a.key with hsame | hnone
  · rw [← hsame, ha]
  · rw [hnone] at ha; cases ha

/-- The bans other than the one of a given cell. -/
def Registry.bansBut (r : Registry) (d k : String) : Multiset Decision :=
  (r.held.filter fun a => ¬ (a.domain = d ∧ a.key = k)).val.map ActiveDecision.decision

theorem bans_eq_bansBut (r : Registry) (d k : String) :
    r.bans = r.bansBut d k + (r.banAt d k).toList := by
  have hat : (r.held.filter fun a => a.domain = d ∧ a.key = k).val.map ActiveDecision.decision =
      ((r.banAt d k).toList : Multiset Decision) := by
    cases hb : r.banAt d k with
    | none =>
      have hnone : (r.held.filter fun a => a.domain = d ∧ a.key = k) = ∅ := by
        refine Finset.filter_eq_empty_iff.mpr fun a ha hdk => ?_
        rw [mem_held, hdk.1, hdk.2, hb] at ha
        cases ha
      rw [hnone]; rfl
    | some b =>
      have hone : (r.held.filter fun a => a.domain = d ∧ a.key = k) = {⟨b, d, k⟩} := by
        ext a
        obtain ⟨ban, domain, key⟩ := a
        simp only [Finset.mem_filter, mem_held, Finset.mem_singleton, ActiveDecision.mk.injEq]
        constructor
        · rintro ⟨h, rfl, rfl⟩
          rw [hb] at h
          exact ⟨(Option.some.inj h).symm, rfl, rfl⟩
        · rintro ⟨rfl, rfl, rfl⟩
          exact ⟨hb, rfl, rfl⟩
      rw [hone]; rfl
  rw [← hat, Registry.bansBut, ← Multiset.map_add, Finset.filter_val, Finset.filter_val, add_comm,
    Multiset.filter_add_not, Registry.bans]

section

variable (h : ∀ d' k', ¬ (d' = d ∧ k' = k) → r'.banAt d' k' = r.banAt d' k')
include h

theorem bansBut_congr : r'.bansBut d k = r.bansBut d k := by
  have hrest : (r'.held.filter fun a => ¬ (a.domain = d ∧ a.key = k)) =
      r.held.filter fun a => ¬ (a.domain = d ∧ a.key = k) := by
    refine Finset.ext fun a => ?_
    simp only [Finset.mem_filter, mem_held]
    exact and_congr_left fun hdk => by rw [h _ _ hdk]
  rw [Registry.bansBut, hrest, Registry.bansBut]

/-- A change of one cell: its old ban goes and its new one comes. -/
theorem bans_change :
    r'.bans + ((r.banAt d k).toList : Multiset Decision) =
      r.bans + ((r'.banAt d k).toList : Multiset Decision) := by
  rw [bans_eq_bansBut r' d k, bans_eq_bansBut r d k, bansBut_congr h, add_right_comm]

end

end held

/-! ## What an operation reports -/

/-- The bans that a list of transitions says were created. -/
def made (log : List Transition) : List Decision :=
  (log.filter fun x => x.kind == .created).map Transition.ban

/-- A transition after which its ban is over. -/
def Transition.terminal (x : Transition) : Bool := x.kind == .expired || x.kind == .released

/-- The bans that a list of transitions says are over. -/
def ended (log : List Transition) : List Decision :=
  (log.filter Transition.terminal).map Transition.ban

@[simp] theorem made_nil : made [] = [] := rfl
@[simp] theorem ended_nil : ended [] = [] := rfl

@[simp] theorem made_append (l l' : List Transition) : made (l ++ l') = made l ++ made l' := by
  simp [made]

@[simp] theorem ended_append : ended (l ++ l') = ended l ++ ended l' := by
  simp [ended]

def banId (epoch : String) (n : Nat) : String := epoch ++ "-" ++ toString n

/-- The bans have increasing numbers above `lo`, up to `hi`. -/
def Numbered (epoch : String) (lo hi : Nat) (bans : List Decision) : Prop :=
  ∃ ns : List Nat, bans.map Decision.id = ns.map (banId epoch) ∧ ns.Pairwise (· < ·) ∧
    ∀ n ∈ ns, lo < n ∧ n ≤ hi

theorem numbered_nil : Numbered epoch lo hi [] :=
  ⟨[], rfl, List.Pairwise.nil, by simp⟩

theorem Numbered.append (h : Numbered epoch lo mid bans) (h' : Numbered epoch mid hi bans')
    (hlo : lo ≤ mid) (hhi : mid ≤ hi) : Numbered epoch lo hi (bans ++ bans') := by
  obtain ⟨ns, hids, hsorted, hbound⟩ := h
  obtain ⟨ns', hids', hsorted', hbound'⟩ := h'
  refine ⟨ns ++ ns', by rw [map_append, map_append, hids, hids'],
    pairwise_append.mpr ⟨hsorted, hsorted', fun n hn m hm => ?_⟩, fun n hn => ?_⟩
  · have := (hbound n hn).2
    have := (hbound' m hm).1
    omega
  · rcases mem_append.mp hn with hn | hn
    · exact ⟨(hbound n hn).1, Nat.le_trans (hbound n hn).2 hhi⟩
    · exact ⟨Nat.lt_of_le_of_lt hlo (hbound' n hn).1, (hbound' n hn).2⟩

/-- One of the bans has the number. -/
def Named (bans : List Decision) (n : Nat) : Prop := ∃ b ∈ bans, decisionSequence b.id = some n

/-- The index after some transitions at `now`: an entry goes only with its ban or
once its deadline has come, and a new one is of a ban that was created. -/
structure Reindexed (now : Nat) (log : List Transition) (i i' : BanIndex) : Prop where
  kept : ∀ n a, i.active.lookup n = some a →
    i'.active.lookup n = some a ∨ Named (ended log) n ∨ a.decision.deadline ≤ now
  found : ∀ n a, i'.active.lookup n = some a →
    i.active.lookup n = some a ∨ (a.decision ∈ made log ∧ decisionSequence a.decision.id = some n)
  entered : ∀ b ∈ made log, ∀ n, decisionSequence b.id = some n →
    (∃ a, i'.active.lookup n = some a ∧ a.decision = b) ∨ Named (ended log) n ∨ b.deadline ≤ now
  expiry : ∀ x n, (x, n) ∈ i'.expiry →
    (x, n) ∈ i.expiry ∨ ∃ b ∈ made log, b.deadline = x ∧ decisionSequence b.id = some n

section reindexed

variable {now n : Nat} {log log' : List Transition} {i i' i'' : BanIndex}

theorem Named.left (h : Named (ended log) n) : Named (ended (log ++ log')) n := by
  obtain ⟨b, hb, hn⟩ := h
  exact ⟨b, by simp [hb], hn⟩

theorem Named.right (h : Named (ended log') n) : Named (ended (log ++ log')) n := by
  obtain ⟨b, hb, hn⟩ := h
  exact ⟨b, by simp [hb], hn⟩

theorem Reindexed.refl (now : Nat) (i : BanIndex) : Reindexed now [] i i :=
  ⟨fun _ _ h => .inl h, fun _ _ h => .inl h, fun b hb => by simp at hb, fun _ _ h => .inl h⟩

theorem Reindexed.trans (h : Reindexed now log i i') (h' : Reindexed now log' i' i'') :
    Reindexed now (log ++ log') i i'' where
  kept := fun n a ha => by
    rcases h.kept n a ha with ha | hend | hdue
    · rcases h'.kept n a ha with ha | hend | hdue
      · exact .inl ha
      · exact .inr (.inl hend.right)
      · exact .inr (.inr hdue)
    · exact .inr (.inl hend.left)
    · exact .inr (.inr hdue)
  found := fun n a ha => by
    rcases h'.found n a ha with ha | ⟨hmade, hn⟩
    · rcases h.found n a ha with ha | ⟨hmade, hn⟩
      · exact .inl ha
      · exact .inr ⟨by simp [hmade], hn⟩
    · exact .inr ⟨by simp [hmade], hn⟩
  entered := fun b hb n hn => by
    rw [made_append, mem_append] at hb
    rcases hb with hb | hb
    · rcases h.entered b hb n hn with ⟨a, ha, rfl⟩ | hend | hdue
      · rcases h'.kept n a ha with ha | hend | hdue
        · exact .inl ⟨a, ha, rfl⟩
        · exact .inr (.inl hend.right)
        · exact .inr (.inr hdue)
      · exact .inr (.inl hend.left)
      · exact .inr (.inr hdue)
    · rcases h'.entered b hb n hn with ha | hend | hdue
      · exact .inl ha
      · exact .inr (.inl hend.right)
      · exact .inr (.inr hdue)
  expiry := fun x n hx => by
    rcases h'.expiry x n hx with hx | ⟨b, hb, hdeadline, hn⟩
    · rcases h.expiry x n hx with hx | ⟨b, hb, hdeadline, hn⟩
      · exact .inl hx
      · exact .inr ⟨b, by simp [hb], hdeadline, hn⟩
    · exact .inr ⟨b, by simp [hb], hdeadline, hn⟩

/-- An index that only lost the entry of one number. -/
theorem Reindexed.of_removed (n₀ : Nat) (hmade : made log = [])
    (hactive : ∀ n, i'.active.lookup n = i.active.lookup n ∨ (n = n₀ ∧ i'.active.lookup n = none))
    (hgone : ∀ a, i.active.lookup n₀ = some a → Named (ended log) n₀ ∨ a.decision.deadline ≤ now)
    (hexpiry : i'.expiry ⊆ i.expiry) : Reindexed now log i i' where
  kept := fun n a ha => by
    rcases hactive n with h | ⟨rfl, -⟩
    · exact .inl (h.trans ha)
    · exact .inr (hgone a ha)
  found := fun n a ha => by
    rcases hactive n with h | ⟨-, h⟩
    · exact .inl (h.symm.trans ha)
    · rw [h] at ha; cases ha
  entered := fun b hb => by rw [hmade] at hb; cases hb
  expiry := fun x n hx => .inl (hexpiry hx)

theorem removeActive_lookup (n : Nat) :
    (i.removeActive n₀).active.lookup n = i.active.lookup n ∨
      (n = n₀ ∧ (i.removeActive n₀).active.lookup n = none) := by
  unfold BanIndex.removeActive
  split
  · by_cases h : n = n₀
    · exact .inr ⟨h, by rw [lookup_erase_if, if_pos h]⟩
    · exact .inl (lookup_erase_ne h)
  · exact .inl rfl

theorem removeActive_expiry : (i.removeActive n₀).expiry ⊆ i.expiry := by
  unfold BanIndex.removeActive
  split
  · exact erase_subset
  · exact Subset.refl _

end reindexed

/-- What the record of an operation at `now` says: the transitions it reported,
each counted once, and the index and the sequence numbers that follow from them. -/
structure Recorded (now : Nat) (log : List Transition) (r r' : Registry) : Prop where
  transitions : r'.transitions = r.transitions ++ log
  epoch : r'.epoch = r.epoch
  sequence : r.sequence ≤ r'.sequence
  numbered : Numbered r.epoch r.sequence r'.sequence (made log)
  bounded : ∀ b ∈ made log, b.deadline ≤ u64Max
  due : ∀ x ∈ log, x.kind = .expired → x.ban.deadline ≤ x.now ∧ x.now ≤ now
  created : r'.counters.created = r.counters.created + (made log).length
  overs : r'.counters.expired + r'.counters.released =
    r.counters.expired + r.counters.released + (ended log).length
  index : Reindexed now log r.index r'.index

namespace Recorded

variable {now : Nat} {log log' : List Transition} {r r' r'' : Registry}

theorem trans (h : Recorded now log r r') (h' : Recorded now log' r' r'') :
    Recorded now (log ++ log') r r'' where
  transitions := by rw [h'.transitions, h.transitions, append_assoc]
  epoch := h'.epoch.trans h.epoch
  sequence := Nat.le_trans h.sequence h'.sequence
  numbered := by
    have hsecond := h'.numbered
    rw [h.epoch] at hsecond
    rw [made_append]
    exact h.numbered.append hsecond h.sequence h'.sequence
  bounded := fun b hb => by
    rw [made_append, mem_append] at hb
    exact hb.elim (h.bounded b) (h'.bounded b)
  due := fun x hx => (mem_append.mp hx).elim (h.due x) (h'.due x)
  created := by rw [h'.created, h.created, made_append, length_append, Nat.add_assoc]
  overs := by rw [h'.overs, h.overs, ended_append, length_append, Nat.add_assoc]
  index := h.index.trans h'.index

/-- Nothing was reported and the record stands as it was. -/
theorem silent (htransitions : r'.transitions = r.transitions) (hepoch : r'.epoch = r.epoch)
    (hsequence : r.sequence ≤ r'.sequence) (hcreated : r'.counters.created = r.counters.created)
    (hover : r'.counters.expired + r'.counters.released =
      r.counters.expired + r.counters.released) (hindex : r'.index = r.index) :
    Recorded now [] r r' where
  transitions := by rw [htransitions, append_nil]
  epoch := hepoch
  sequence := hsequence
  numbered := numbered_nil
  bounded := by simp
  due := by simp
  created := by simpa using hcreated
  overs := by simpa using hover
  index := by rw [hindex]; exact Reindexed.refl now r.index

theorem refl (now : Nat) (r : Registry) : Recorded now [] r r :=
  silent rfl rfl (Nat.le_refl _) rfl rfl rfl

end Recorded

theorem ended_map (hterminal : ∀ b, (f b).terminal = true)
    (hban : ∀ b, (f b).ban = b) : ended (bans.map f) = bans := by
  induction bans with
  | nil => rfl
  | cons b bans ih =>
    rw [ended, map_cons, filter_cons_of_pos (hterminal b), map_cons, hban]
    exact congrArg _ ih

def expiredLog (now : Nat) (bans : List Decision) : List Transition :=
  bans.map fun b => ⟨.expired, b, now⟩

@[simp] theorem made_expiredLog (now : Nat) (bans : List Decision) :
    made (expiredLog now bans) = [] := by
  simp [made, expiredLog]

@[simp] theorem ended_expiredLog (now : Nat) (bans : List Decision) :
    ended (expiredLog now bans) = bans :=
  ended_map (fun _ => rfl) (fun _ => rfl)

section reports

variable {now : Nat} {r : Registry}

/-- A forgotten ban leaves the index, and nothing else does. -/
theorem Reindexed.forget (i : BanIndex) (ban : Decision) (hmade : made log = [])
    (hban : ban ∈ ended log) : Reindexed now log i (i.forget ban) := by
  unfold BanIndex.forget
  cases hn : decisionSequence ban.id with
  | some n =>
    exact .of_removed n hmade (removeActive_lookup) (fun _ _ => .inl ⟨ban, hban, hn⟩)
      (removeActive_expiry)
  | none =>
    exact ⟨fun _ _ h => .inl h, fun _ _ h => .inl h,
      fun b hb => (by rw [hmade] at hb; cases hb), fun _ _ h => .inl h⟩

theorem expireBan_recorded (r : Registry) (hdue : ban.deadline ≤ now) :
    Recorded now (expiredLog now [ban]) r (r.expireBan now ban) where
  transitions := rfl
  epoch := rfl
  sequence := Nat.le_refl _
  numbered := by rw [made_expiredLog]; exact numbered_nil
  bounded := by simp
  due := fun x hx _ => by
    simp only [expiredLog, map_cons, map_nil, mem_singleton] at hx
    subst hx
    exact ⟨hdue, Nat.le_refl _⟩
  created := by simp [Registry.expireBan, Registry.transition]
  overs := by simp [Registry.expireBan, Registry.transition]; omega
  index := Reindexed.forget r.index ban (made_expiredLog _ _) (by simp)

theorem expireBans_recorded (r : Registry) (hdue : ∀ b ∈ bans, b.deadline ≤ now) :
    Recorded now (expiredLog now bans) r (bans.foldl (fun r ban => r.expireBan now ban) r) := by
  induction bans generalizing r with
  | nil => exact Recorded.refl now r
  | cons b bans ih =>
    have hfirst := expireBan_recorded r (hdue b (mem_cons_self ..))
    exact hfirst.trans (ih _ fun b' hb' => hdue b' (mem_cons_of_mem _ hb'))

theorem expireFound_recorded (r : Registry) (found : Option Decision)
    (hdue : ∀ b ∈ found, b.deadline ≤ now) :
    Recorded now (expiredLog now found.toList) r (r.expireFound now found) := by
  cases found with
  | none => exact Recorded.refl now r
  | some b => exact expireBan_recorded r (hdue b rfl)

/-- A due ban met by a release is reported and counted, as its id has a number. -/
theorem expireReleased_recorded (hdue : ∀ b ∈ due, b.deadline ≤ now)
    (hnumber : ∀ b ∈ due, (decisionSequence b.id).isSome) :
    Recorded now (expiredLog now due.toList) r (r.expireReleased now due) := by
  cases due with
  | none => exact Recorded.refl now r
  | some b =>
    have hsame : r.expireReleased now (some b) = r.expireBan now b := by
      simp only [Registry.expireReleased, hnumber b rfl, if_true]
      rfl
    rw [hsame]
    exact expireBan_recorded r (hdue b rfl)

def releasedLog (now : Nat) (lifted : Option Decision) : List Transition :=
  lifted.toList.map fun b => ⟨.released, b, now⟩

@[simp] theorem made_releasedLog : made (releasedLog now lifted) = [] := by
  simp [made, releasedLog]

@[simp] theorem ended_releasedLog :
    ended (releasedLog now lifted) = lifted.toList :=
  ended_map (fun _ => rfl) (fun _ => rfl)

theorem finishRelease_recorded :
    Recorded now (releasedLog now lifted) r (r.finishRelease now actor lifted).2 := by
  cases lifted with
  | none => exact Recorded.refl now r
  | some b =>
    refine ⟨rfl, rfl, Nat.le_refl _, numbered_nil, by simp, fun x hx hkind => ?_, by
      simp [Registry.finishRelease, Registry.transition], by
      simp [Registry.finishRelease, Registry.transition]; omega,
      Reindexed.forget r.index b (made_releasedLog) (by simp)⟩
    simp only [releasedLog, toList_some, map_cons, map_nil, mem_singleton] at hx
    subst hx
    cases hkind

end reports

end AbuseRegistry
