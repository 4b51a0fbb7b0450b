import Pingap.KeyedMap

/-!
# Recent evidence

A detector that asks whether a threshold was reached within a sliding window needs to
keep a threshold of the most recent events only. The times of events in order are kept
as the last of them, and the last sightings of distinct things as the newest of them.
What is said here is that asking what is kept and asking all there was is the same.
-/

namespace RecentEvidence

open AList List

/-! ## Times in order -/

section times

variable {threshold since since' now : Nat} {kept all : List Nat}

/-- `kept` are the last of the times since `since`: all of these, or at least a threshold. -/
def LastOf (threshold since : Nat) (kept all : List Nat) : Prop :=
  ∃ rest, all.filter (fun t => decide (since ≤ t)) = rest ++ kept ∧
    (rest = [] ∨ threshold ≤ kept.length)

theorem dropWhile_lt_eq_filter (h : all.Pairwise (· ≤ ·)) :
    all.dropWhile (fun t => decide (t < since)) = all.filter fun t => decide (since ≤ t) := by
  induction all with
  | nil => rfl
  | cons t all ih =>
    obtain ⟨hle, hall⟩ := List.pairwise_cons.mp h
    by_cases hold : t < since
    · rw [dropWhile_cons_of_pos (by simpa using hold), ih hall,
        filter_cons_of_neg (by simpa using hold)]
    have hkeep : ∀ t' ∈ t :: all, decide (since ≤ t') = true := by
      intro t' ht'
      rcases mem_cons.mp ht' with rfl | ht'
      · simpa using hold
      · have hlater := hle t' ht'
        exact decide_eq_true (by omega)
    rw [dropWhile_cons_of_neg (by simpa using hold), List.filter_eq_self.mpr hkeep]

section

variable (h : LastOf threshold since kept all)
include h

theorem LastOf.sublist : kept.Sublist all := by
  obtain ⟨rest, heq, -⟩ := h
  have hright : kept.Sublist (rest ++ kept) := sublist_append_right rest kept
  rw [← heq] at hright
  exact hright.trans filter_sublist

/-- What has left the window since is left out of what is kept. -/
theorem LastOf.prune (hsorted : all.Pairwise (· ≤ ·)) (hsince : since ≤ since') :
    LastOf threshold since' (kept.dropWhile fun t => decide (t < since')) all := by
  rw [dropWhile_lt_eq_filter (hsorted.sublist h.sublist)]
  obtain ⟨rest, heq, hall⟩ := h
  have hfilter : all.filter (fun t => decide (since' ≤ t)) =
      rest.filter (fun t => decide (since' ≤ t)) ++ kept.filter fun t => decide (since' ≤ t) := by
    rw [← filter_append, ← heq, filter_filter]
    apply filter_congr
    intro t _
    by_cases ht : since' ≤ t
    · simp [ht, le_trans hsince ht]
    · simp [ht]
  refine ⟨_, hfilter, ?_⟩
  -- an event that is still in the window is older than everything that is kept
  cases hrest : rest.filter fun t => decide (since' ≤ t) with
  | nil => exact .inl rfl
  | cons t _ =>
    right
    have ht := hrest ▸ mem_cons_self
    obtain ⟨hmem, hnew⟩ := mem_filter.mp ht
    have hnew := of_decide_eq_true hnew
    have hordered := heq ▸ hsorted.filter _
    have hkept : ∀ t' ∈ kept, decide (since' ≤ t') = true := by
      intro t' ht'
      have hle := (pairwise_append.mp hordered).2.2 t hmem t' ht'
      exact decide_eq_true (le_trans hnew hle)
    rw [List.filter_eq_self.mpr hkept]
    rcases hall with rfl | hall
    · cases hmem
    · exact hall

/-- The threshold is reached by what is kept exactly when it is reached at all. -/
theorem LastOf.lt_iff :
    kept.length < threshold ↔ all.countP (fun t => decide (since ≤ t)) < threshold := by
  obtain ⟨rest, heq, hall⟩ := h
  rw [countP_eq_length_filter, heq, length_append]
  rcases hall with rfl | hall
  · simp
  · omega

/-- A new event costs the oldest one when a threshold of them is kept. -/
theorem LastOf.add (hnow : since ≤ now) :
    LastOf threshold since ((if kept.length = threshold then kept.tail else kept) ++ [now])
      (all ++ [now]) := by
  obtain ⟨rest, heq, hall⟩ := h
  have hfilter : (all ++ [now]).filter (fun t => decide (since ≤ t)) = rest ++ (kept ++ [now]) := by
    rw [filter_append, heq, filter_cons_of_pos (by simpa using hnow), filter_nil, append_assoc]
  split
  · rename_i hfull
    cases kept with
    | nil => exact ⟨rest, hfilter, hall.imp_right fun hle => Nat.le_succ_of_le hle⟩
    | cons oldest kept =>
      refine ⟨rest ++ [oldest], ?_, .inr ?_⟩
      · rw [hfilter]
        simp
      simp only [tail_cons, length_append, length_singleton]
      simp only [length_cons] at hfull
      omega
  · refine ⟨rest, hfilter, hall.imp_right fun hle => ?_⟩
    rw [length_append]
    omega

end

end times

/-! ## Last sightings -/

section sightings

variable {κ : Type} [DecidableEq κ] {threshold since since' now : Nat} {kept : KeyedMap κ Nat}
  {all : κ → Option Nat}

/-- `kept` are the newest of the last sightings since `since`: what is not kept is not newer
than any that is, and at least a threshold is kept then. -/
structure NewestOf (threshold since : Nat) (kept : KeyedMap κ Nat) (all : κ → Option Nat) : Prop where
  sound : ∀ k t, kept.lookup k = some t → all k = some t ∧ since ≤ t
  rest : ∀ k t, all k = some t → since ≤ t → kept.lookup k = none →
    threshold ≤ kept.size ∧ ∀ k' t', kept.lookup k' = some t' → t ≤ t'

/-- What was sighted once more is new. -/
def sighted (all : κ → Option Nat) (key : κ) (now : Nat) : κ → Option Nat :=
  fun k => if k = key then some now else all k

theorem NewestOf.prune (h : NewestOf threshold since kept all) (hsince : since ≤ since') :
    NewestOf threshold since' (kept.retain fun _ t => if since' ≤ t then some t else none) all := by
  constructor
  · intro k t hk
    obtain ⟨hk, hle⟩ := lookup_retain_if.mp hk
    exact ⟨(h.sound k t hk).1, hle⟩
  intro k t hk hle hnone
  have hgone : kept.lookup k = none := by
    cases hown : kept.lookup k with
    | none => rfl
    | some x =>
      obtain ⟨hx, -⟩ := h.sound k x hown
      have heq : x = t := Option.some.inj (hx.symm.trans hk)
      rw [lookup_retain_if.mpr ⟨heq ▸ hown, hle⟩] at hnone
      cases hnone
  obtain ⟨hsize, hnewer⟩ := h.rest k t hk (le_trans hsince hle) hgone
  -- everything that is kept is newer, so that nothing of it leaves
  have hstays : ∀ k', (kept.retain fun _ t => if since' ≤ t then some t else none).lookup k' =
      kept.lookup k' := by
    intro k'
    cases hk' : kept.lookup k' with
    | none =>
      rw [lookup_retain, hk']
      rfl
    | some x => exact lookup_retain_if.mpr ⟨hk', le_trans hle (hnewer k' x hk')⟩
  rw [size_eq_of_lookup_eq hstays]
  exact ⟨hsize, fun k' t' hk' => hnewer k' t' (lookup_retain_if.mp hk').1⟩

theorem size_le_size_insert (m : KeyedMap κ Nat) (key : κ) (now : Nat) :
    m.size ≤ (m.insert key now).size := by
  rw [size_insert]
  cases h : m.lookup key with
  | none => rw [size_erase_of_none h]; omega
  | some t => exact le_of_eq (size_erase_of_some m key t h).symm

section

variable (h : NewestOf threshold since kept all) (hnow : since ≤ now)
    (hlast : ∀ k t, all k = some t → t ≤ now)
include h hnow hlast

/-- A sighting may take a place of its own. -/
theorem NewestOf.add (key : κ) :
    NewestOf threshold since (kept.insert key now) (sighted all key now) := by
  constructor
  · intro k t hk
    rw [lookup_insert_if] at hk
    unfold sighted
    split at hk
    · rename_i heq
      rw [if_pos heq]
      cases hk
      exact ⟨rfl, hnow⟩
    · rename_i hne
      rw [if_neg hne]
      exact h.sound k t hk
  · intro k t hk hle hnone
    rw [lookup_insert_if] at hnone
    unfold sighted at hk
    split at hnone
    · cases hnone
    rename_i hne
    rw [if_neg hne] at hk
    obtain ⟨hsize, hnewer⟩ := h.rest k t hk hle hnone
    refine ⟨le_trans hsize (size_le_size_insert kept key now), fun k' t' hk' => ?_⟩
    rw [lookup_insert_if] at hk'
    split at hk'
    · cases hk'
      exact hlast k t hk
    · exact hnewer k' t' hk'

/-- A sighting may take the place of the oldest. -/
theorem NewestOf.evict (hold : kept.lookup old = some first)
    (hfirst : ∀ k t, kept.lookup k = some t → first ≤ t) (hfull : threshold ≤ kept.size)
    (hnew : kept.lookup key = none) :
    NewestOf threshold since ((kept.erase old).insert key now) (sighted all key now) := by
  have hlookup : ∀ k, ((kept.erase old).insert key now).lookup k =
      if k = key then some now else if k = old then none else kept.lookup k := by
    intro k
    rw [lookup_insert_if, lookup_erase_if]
  have hkeyNe : key ≠ old := by
    rintro rfl
    rw [hold] at hnew
    cases hnew
  have hsize : ((kept.erase old).insert key now).size = kept.size := by
    have hgone : (kept.erase old).lookup key = none := by
      rw [lookup_erase_if, if_neg hkeyNe, hnew]
    rw [size_insert, size_erase_of_none hgone]
    exact size_erase_of_some kept old first hold
  constructor
  · intro k t hk
    rw [hlookup] at hk
    unfold sighted
    split at hk
    · rename_i heq
      rw [if_pos heq]
      cases hk
      exact ⟨rfl, hnow⟩
    · rename_i hne
      rw [if_neg hne]
      split at hk
      · cases hk
      · exact h.sound k t hk
  · intro k t hk hle hnone
    rw [hlookup] at hnone
    unfold sighted at hk
    split at hnone
    · cases hnone
    rename_i hne
    rw [if_neg hne] at hk
    have hnewer : ∀ k' t', kept.lookup k' = some t' → t ≤ t' := by
      split at hnone
      · rename_i heq
        obtain ⟨hall, -⟩ := h.sound old first hold
        rw [heq, hall] at hk
        cases hk
        exact hfirst
      · exact (h.rest k t hk hle hnone).2
    refine ⟨hsize ▸ hfull, fun k' t' hk' => ?_⟩
    rw [hlookup] at hk'
    split at hk'
    · cases hk'
      exact hlast k t hk
    split at hk'
    · cases hk'
    · exact hnewer k' t' hk'

end

/-- The threshold is reached by what is kept exactly when it is reached at all. -/
theorem NewestOf.lt_iff (h : NewestOf threshold since kept all) {keys : List κ}
    (hnodup : keys.Nodup) (hkeys : ∀ k, k ∈ keys ↔ ∃ t, all k = some t ∧ since ≤ t) :
    kept.size < threshold ↔ keys.length < threshold := by
  have hkept : ∀ k, k ∈ kept.keys ↔ ∃ t, kept.lookup k = some t := fun k =>
    mem_keys.symm.trans (lookup_isSome.symm.trans Option.isSome_iff_exists)
  rw [size_keys]
  constructor
  · intro hfew
    have hsub : keys ⊆ kept.keys := by
      intro k hk
      obtain ⟨t, hall, hle⟩ := (hkeys k).mp hk
      cases hown : kept.lookup k with
      | some x => exact (hkept k).mpr ⟨x, hown⟩
      | none =>
        have hsize := (h.rest k t hall hle hown).1
        rw [size_keys] at hsize
        omega
    exact lt_of_le_of_lt (subperm_of_subset hnodup hsub).length_le hfew
  · intro hfew
    have hsub : kept.keys ⊆ keys := by
      intro k hk
      obtain ⟨t, ht⟩ := (hkept k).mp hk
      exact (hkeys k).mpr ⟨t, h.sound k t ht⟩
    exact lt_of_le_of_lt (subperm_of_subset (keys_nodup kept) hsub).length_le hfew

end sightings

end RecentEvidence
