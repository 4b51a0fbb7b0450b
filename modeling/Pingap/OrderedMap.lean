import Mathlib.Data.List.Sort
import Pingap.KeyedMap

/-!
# Maps read in the order of their keys

The entries of a keyed map as a list sorted by key, and maps made from a list of
rows.
-/

namespace AList

open List Option

variable {κ υ : Type}

/-- Equality of maps by their entries, which evaluates. -/
instance [DecidableEq κ] [DecidableEq υ] : DecidableEq (KeyedMap κ υ) := fun m m' =>
  decidable_of_iff (m.entries = m'.entries) AList.ext_iff.symm

/-! ## Rows made by a function that can fail -/

section mapM

variable {α β ε : Type} {f : α → Except ε β}

/-- A successful pass over some rows, one at a time. -/
theorem mapM_cons_ok :
    (row :: rows).mapM f = .ok out ↔
      ∃ first rest, f row = .ok first ∧ rows.mapM f = .ok rest ∧ out = first :: rest := by
  rw [mapM_cons]
  cases hfirst : f row with
  | error e => simp [bind, Except.bind]
  | ok first =>
    cases hrest : rows.mapM f with
    | error e => simp [bind, Except.bind]
    | ok rest => simp [bind, Except.bind, pure, Except.pure, eq_comm]

theorem mem_mapM {rows : List α} : ∀ {out}, rows.mapM f = .ok out → ∀ {entry},
    entry ∈ out ↔ ∃ row ∈ rows, f row = .ok entry := by
  induction rows with
  | nil =>
    intro out h entry
    rw [mapM_nil] at h
    cases h
    simp
  | cons row rows ih =>
    intro out h entry
    obtain ⟨first, rest, hfirst, hrest, rfl⟩ := mapM_cons_ok.mp h
    rw [mem_cons, ih hrest, exists_mem_cons_iff, hfirst, Except.ok.injEq, eq_comm]

/-- A pass succeeds exactly when it does on every row. -/
theorem mapM_ok_iff (rows : List α) :
    (∃ out, rows.mapM f = .ok out) ↔ ∀ row ∈ rows, ∃ entry, f row = .ok entry := by
  induction rows with
  | nil => simp [pure, Except.pure]
  | cons row rows ih =>
    rw [forall_mem_cons, ← ih]
    constructor
    · rintro ⟨out, h⟩
      obtain ⟨first, rest, hfirst, hrest, -⟩ := mapM_cons_ok.mp h
      exact ⟨⟨first, hfirst⟩, ⟨rest, hrest⟩⟩
    · rintro ⟨⟨first, hfirst⟩, ⟨rest, hrest⟩⟩
      exact ⟨first :: rest, mapM_cons_ok.mpr ⟨first, rest, hfirst, hrest, rfl⟩⟩

theorem keys_mapM {ω : Type} {f : κ × υ → Except ε (κ × ω)}
    (hkey : ∀ row out, f row = .ok out → out.1 = row.1) {rows : List (κ × υ)} :
    ∀ {out}, rows.mapM f = .ok out → out.map Prod.fst = rows.map Prod.fst := by
  induction rows with
  | nil =>
    intro out h
    rw [mapM_nil] at h
    cases h
    rfl
  | cons row rows ih =>
    intro out h
    obtain ⟨first, rest, hfirst, hrest, rfl⟩ := mapM_cons_ok.mp h
    rw [map_cons, map_cons, hkey row first hfirst, ih hrest]

end mapM

variable [DecidableEq κ]

section order

variable [LE κ] [DecidableLE κ]

/-- The entries of a map in the order of their keys. -/
def inOrder (m : KeyedMap κ υ) : List (κ × υ) :=
  (m.keys.insertionSort (· ≤ ·)).filterMap fun k => (m.lookup k).map fun v => (k, v)

theorem mem_inOrder {m : KeyedMap κ υ} : (k, v) ∈ inOrder m ↔ m.lookup k = some v := by
  rw [inOrder, mem_filterMap]
  constructor
  · rintro ⟨k', -, h⟩
    obtain ⟨v', hv', heq⟩ := map_eq_some_iff.mp h
    obtain ⟨rfl, rfl⟩ := Prod.mk.inj heq
    exact hv'
  · intro h
    refine ⟨k, ?_, by rw [h]; rfl⟩
    rw [mem_insertionSort, ← AList.mem_keys, ← AList.lookup_isSome, h]
    rfl

theorem nodup_keys_inOrder (m : KeyedMap κ υ) : ((inOrder m).map Prod.fst).Nodup := by
  have hkeys : ((inOrder m).map Prod.fst).Sublist ((m.keys.insertionSort (· ≤ ·)).map id) := by
    refine map_filterMap_sublist (fun k row h => ?_) _
    obtain ⟨v, -, rfl⟩ := map_eq_some_iff.mp h
    rfl
  rw [List.map_id] at hkeys
  exact hkeys.nodup ((perm_insertionSort (· ≤ ·) _).nodup_iff.mpr m.keys_nodup)

end order

/-- The map of some rows, the last of those with one key. -/
def ofRows (rows : List (κ × υ)) : KeyedMap κ υ :=
  rows.foldl (fun m row => m.insert row.1 row.2) ∅

theorem lookup_ofRows {rows : List (κ × υ)} (hrows : (rows.map Prod.fst).Nodup) :
    (ofRows rows).lookup k = some v ↔ (k, v) ∈ rows := by
  constructor
  · intro h
    rcases lookup_foldl_insert rows ∅ k v h with h | h
    · exact h
    · rw [AList.lookup_empty] at h
      cases h
  · intro h
    have hsome := isSome_lookup_foldl_insert rows ∅ k (.inl ⟨v, h⟩)
    obtain ⟨v', hv'⟩ := isSome_iff_exists.mp hsome
    rcases lookup_foldl_insert rows ∅ k v' hv' with h' | h'
    · have hsame := inj_on_of_nodup_map hrows h h' rfl
      rw [(Prod.mk.inj hsame).2]
      exact hv'
    · rw [AList.lookup_empty] at h'
      cases h'

theorem lookup_ofRows_singleton {k k' : κ} {v v' : υ} :
    (ofRows [(k, v)]).lookup k' = some v' ↔ k' = k ∧ v' = v := by
  have hnodup : (([(k, v)] : List (κ × υ)).map Prod.fst).Nodup := nodup_singleton k
  rw [lookup_ofRows hnodup, mem_singleton, Prod.mk.injEq]

section mapM

variable [LE κ] [DecidableLE κ] {ω ε : Type} {f : κ × υ → Except ε (κ × ω)}

/-- The map of the rows that a pass over another map makes, when each keeps its key. -/
theorem lookup_mapM (hkey : ∀ row out, f row = .ok out → out.1 = row.1)
    (h : (inOrder m).mapM f = .ok out) :
    (ofRows out).lookup k = some w ↔ ∃ v, m.lookup k = some v ∧ f (k, v) = .ok (k, w) := by
  have hnodup : (out.map Prod.fst).Nodup := keys_mapM hkey h ▸ nodup_keys_inOrder m
  rw [lookup_ofRows hnodup, mem_mapM h]
  constructor
  · rintro ⟨⟨k', v⟩, hrow, hf⟩
    obtain rfl : k = k' := hkey _ _ hf
    exact ⟨v, mem_inOrder.mp hrow, hf⟩
  · rintro ⟨v, hv, hf⟩
    exact ⟨(k, v), mem_inOrder.mpr hv, hf⟩

end mapM

end AList
