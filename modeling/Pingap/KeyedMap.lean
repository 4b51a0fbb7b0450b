import Mathlib.Algebra.BigOperators.Group.List.Basic
import Mathlib.Algebra.Ring.Nat
import Mathlib.Data.List.AList

/-!
# Finite keyed maps

The maps of a program are association lists whose keys are pairwise different,
which is `AList` over a constant family. This module adds what a stateful
program needs beside insertion, deletion and lookup: the number of entries, an
in-place change of one value, and a filtering pass that may rewrite the values
it keeps, also as values of another type. Everything is stated through `lookup`, so that no later proof depends
on the order in which entries happen to be stored.
-/

/-- A finite map from keys to values, stored as a list with distinct keys. -/
abbrev KeyedMap (κ υ : Type) := AList (fun _ : κ => υ)

namespace AList

open List

variable {κ υ ω : Type}

def size (m : KeyedMap κ υ) : Nat := m.entries.length

/-- What a pass that drops some rows and keeps the key of the others leaves of the keys. -/
theorem map_filterMap_sublist {f : α → Option β} {g : α → κ} {g' : β → κ}
    (h : ∀ a b, f a = some b → g' b = g a) (l : List α) :
    ((l.filterMap f).map g').Sublist (l.map g) := by
  induction l with
  | nil => exact Sublist.slnil
  | cons a l ih =>
    cases hf : f a with
    | none => rw [filterMap_cons_none hf]; exact ih.cons _
    | some b => rw [filterMap_cons_some hf, map_cons, map_cons, h a b hf]; exact ih.cons_cons _

/-- The entry under the answer of the pass, if there is one. -/
def answered (f : κ → υ → Option ω) (e : Σ _ : κ, υ) : Option (Σ _ : κ, ω) :=
  (f e.1 e.2).map (Sigma.mk e.1)

theorem answered_eq_some : answered f e = some e' ↔ e'.1 = e.1 ∧ f e.1 e.2 = some e'.2 := by
  obtain ⟨k, w⟩ := e'
  simp only [answered, Option.map_eq_some_iff, Sigma.mk.injEq, heq_eq_eq]
  constructor
  · rintro ⟨w', hw, rfl, rfl⟩
    exact ⟨rfl, hw⟩
  · rintro ⟨rfl, hw⟩
    exact ⟨w, hw, rfl, rfl⟩

/-- The filtering pass of a map: `none` drops the entry, `some` stores the answer. -/
def retain (f : κ → υ → Option ω) (m : KeyedMap κ υ) : KeyedMap κ ω :=
  ⟨m.entries.filterMap (answered f),
    (map_filterMap_sublist (fun _ _ h => (answered_eq_some.mp h).1) _).nodup m.nodupKeys⟩

/-- A pass that answers every entry with its own value keeps the map as it is. -/
theorem retain_eq_self {m : KeyedMap κ υ}
    (h : ∀ e ∈ m.entries, f e.1 e.2 = some e.2) : retain f m = m :=
  AList.ext ((filterMap_congr fun e he => answered_eq_some.mpr ⟨rfl, h e he⟩).trans filterMap_some)

@[simp] theorem size_empty : size (∅ : KeyedMap κ υ) = 0 := rfl

theorem size_keys : size m = m.keys.length := by
  simp [size, keys, List.keys]

theorem size_retain_le (m : KeyedMap κ υ) : size (retain f m) ≤ size m := length_filterMap_le _ _

def count (p : υ → Bool) (m : KeyedMap κ υ) : Nat := m.entries.countP fun e => p e.2

theorem count_retain (p : ω → Bool) (f : κ → υ → Option ω) :
    count p (retain f m) = m.entries.countP fun e => (f e.1 e.2).any p := by
  refine countP_filterMap.trans (congrArg (m.entries.countP ·) (funext fun e => ?_))
  rw [answered]
  cases f e.1 e.2 <;> rfl

/-- The stored values summed up by a weight. -/
def weigh (f : υ → Nat) (m : KeyedMap κ υ) : Nat := (m.entries.map fun e => f e.2).sum

theorem weigh_retain (f : ω → Nat) (g : κ → υ → Option ω) :
    weigh f (retain g m) = (m.entries.map fun e => (g e.1 e.2).elim 0 f).sum := by
  change ((m.entries.filterMap (answered g)).map fun e => f e.2).sum = _
  induction m.entries with
  | nil => rfl
  | cons e rest ih =>
    rw [filterMap_cons, map_cons, sum_cons, ← ih, answered]
    cases g e.1 e.2 with
    | none => exact (Nat.zero_add _).symm
    | some w => exact sum_cons

/-- A pass that keeps what satisfies `p` as it is leaves as many as satisfy it. -/
theorem size_retain_filter (p : υ → Bool) :
    size (retain (fun _ v => if p v then some v else none) m) = count p m := by
  refine length_filterMap_eq_countP.trans (congrArg (m.entries.countP ·) (funext fun e => ?_))
  rw [answered]
  cases p e.2 <;> rfl

theorem count_add_count_not (p : υ → Bool) {m : KeyedMap κ υ} :
    count p m + count (fun v => !p v) m = size m := by
  have hsplit := length_eq_countP_add_countP (fun e : Σ _ : κ, υ => p e.2) (l := m.entries)
  simpa [count, size] using hsplit.symm

section lookup

variable [DecidableEq κ]

/-- Change the value under one key, in place; an absent key stays absent. -/
def modify (k : κ) (g : υ → υ) (m : KeyedMap κ υ) : KeyedMap κ υ :=
  retain (fun k' v => some (if k' = k then g v else v)) m

@[simp] theorem lookup_retain (f : κ → υ → Option ω) :
    (retain f m).lookup k = (m.lookup k).bind (f k) := by
  refine Option.ext fun w => ?_
  rw [Option.bind_eq_some_iff]
  refine mem_lookup_iff.trans (mem_filterMap.trans ⟨?_, ?_⟩)
  · rintro ⟨⟨k', v⟩, hrow, h⟩
    obtain ⟨rfl, hw⟩ := answered_eq_some.mp h
    exact ⟨v, mem_lookup_iff.mpr hrow, hw⟩
  · rintro ⟨v, hv, hw⟩
    exact ⟨⟨k, v⟩, mem_lookup_iff.mp hv, answered_eq_some.mpr ⟨rfl, hw⟩⟩

theorem lookup_retain_if {m : KeyedMap κ υ} {p : υ → Prop} [DecidablePred p] :
    (retain (fun _ v => if p v then some v else none) m).lookup k = some v ↔
      m.lookup k = some v ∧ p v := by
  simp only [lookup_retain, Option.bind_eq_some_iff, Option.ite_none_right_eq_some,
    Option.some.injEq]
  constructor
  · rintro ⟨v, hv, hp, rfl⟩
    exact ⟨hv, hp⟩
  · rintro ⟨hv, hp⟩
    exact ⟨v, hv, hp, rfl⟩

section

variable (m : KeyedMap κ υ) (k k' : κ)

theorem lookup_insert_if (v : υ) :
    (m.insert k v).lookup k' = if k' = k then some v else m.lookup k' := by
  by_cases h : k' = k
  · subst h; simp
  · simp [h, lookup_insert_ne h]

theorem lookup_erase_if : (m.erase k).lookup k' = if k' = k then none else m.lookup k' := by
  by_cases h : k' = k
  · subst h; simp
  · simp [h, lookup_erase_ne h]

theorem lookup_modify (g : υ → υ) :
    (modify k g m).lookup k' = if k' = k then (m.lookup k).map g else m.lookup k' := by
  unfold modify
  rw [lookup_retain]
  by_cases h : k' = k
  · subst h; cases m.lookup k' <;> simp
  · cases m.lookup k' <;> simp [h]

end

theorem size_modify (m : KeyedMap κ υ) (k : κ) (g : υ → υ) : size (modify k g m) = size m := by
  refine length_filterMap_eq_countP.trans (countP_eq_length.mpr fun e _ => rfl)

/-- A change that `p` does not see leaves the count. -/
theorem count_modify {m : KeyedMap κ υ} {k : κ} {g : υ → υ}
    (h : ∀ v, p (g v) = p v) : count p (modify k g m) = count p m := by
  rw [modify, count_retain]
  refine congrArg (m.entries.countP ·) (funext fun e => ?_)
  rw [Option.any_some]
  split
  · exact h e.2
  · rfl

theorem size_erase_of_some (m : KeyedMap κ υ) (k : κ) (v : υ) (h : m.lookup k = some v) :
    size (m.erase k) + 1 = size m := by
  have hk : k ∈ m.keys := mem_keys.mp (lookup_isSome.mp (by simp [h]))
  have hpos : 0 < m.keys.length := length_pos_of_mem hk
  rw [size_keys, size_keys, keys_erase, length_erase_of_mem hk]
  omega

theorem erase_of_none {m : KeyedMap κ υ} (h : m.lookup k = none) : m.erase k = m :=
  AList.ext (kerase_of_notMem_keys fun hm => lookup_eq_none.mp h (mem_keys.mpr hm))

theorem size_erase_of_none {k : κ} (h : m.lookup k = none) : size (m.erase k) = size m := by
  rw [erase_of_none h]

theorem size_insert (m : KeyedMap κ υ) (k : κ) (v : υ) :
    size (m.insert k v) = size (m.erase k) + 1 := by
  simp [size_keys, keys_insert, keys_erase]

/-- A pass that makes no stored value satisfy `p` anew cannot raise the count. -/
theorem count_retain_le {f : κ → υ → Option υ}
    (hf : ∀ k v w, m.lookup k = some v → f k v = some w → p w = true → p v = true) :
    count p (retain f m) ≤ count p m := by
  rw [count_retain]
  refine countP_mono_left fun e he h => ?_
  obtain ⟨w, hw, hp⟩ := (Option.any_eq_true _ _).mp h
  exact hf e.1 e.2 w (mem_lookup_iff.mpr he) hw hp

/-- A present key stands apart from the entries that its removal leaves. -/
theorem entries_perm_erase {m : KeyedMap κ υ} (h : m.lookup k = some v) :
    m.entries.Perm (⟨k, v⟩ :: (m.erase k).entries) := by
  have hk : k ∈ m.entries.keys := mem_keys.mp (lookup_isSome.mp (by simp [h]))
  obtain ⟨w, l₁, l₂, hl₁, hentries, herase⟩ := exists_of_kerase hk
  have hw : w = v := by
    have hmem : (⟨k, w⟩ : Σ _ : κ, υ) ∈ m.entries := by rw [hentries]; simp
    have := mem_dlookup_iff m.nodupKeys |>.mpr hmem
    exact Option.some.inj (this.symm.trans h)
  change m.entries.Perm (⟨k, v⟩ :: m.entries.kerase k)
  rw [herase, hentries, hw]
  exact perm_middle

theorem count_erase_of_some (p : υ → Bool) {k : κ} (h : m.lookup k = some v) :
    count p m = count p (m.erase k) + if p v then 1 else 0 :=
  ((entries_perm_erase h).countP_eq _).trans countP_cons

theorem count_erase_le (p : υ → Bool) (m : KeyedMap κ υ) (k : κ) :
    count p (m.erase k) ≤ count p m := by
  cases h : m.lookup k with
  | none => rw [erase_of_none h]
  | some v => rw [count_erase_of_some p h]; omega

theorem count_insert (p : υ → Bool) (m : KeyedMap κ υ) (k : κ) (v : υ) :
    count p (m.insert k v) = count p (m.erase k) + if p v then 1 else 0 :=
  countP_cons

theorem weigh_erase_of_some (f : υ → Nat) {k : κ} (h : m.lookup k = some v) :
    weigh f m = f v + weigh f (m.erase k) :=
  (((entries_perm_erase h).map _).sum_eq).trans sum_cons

theorem weigh_insert (f : υ → Nat) {m : KeyedMap κ υ} :
    weigh f (m.insert k v) = f v + weigh f (m.erase k) :=
  sum_cons

/-- What stands after a list of insertions was inserted or stood before. -/
theorem lookup_foldl_insert (rows : List (κ × υ)) (m : KeyedMap κ υ) (k : κ) (v : υ)
    (h : (rows.foldl (fun (m : KeyedMap κ υ) row => m.insert row.1 row.2) m).lookup k = some v) :
    (k, v) ∈ rows ∨ m.lookup k = some v := by
  induction rows generalizing m with
  | nil => exact .inr h
  | cons row rows ih =>
    rcases ih _ h with h | h
    · exact .inl (mem_cons_of_mem _ h)
    rw [lookup_insert_if] at h
    split at h
    case isTrue hk =>
      obtain rfl := Option.some.inj h
      exact .inl (by rw [hk]; exact mem_cons_self)
    case isFalse => exact .inr h

theorem isSome_lookup_foldl_insert (rows : List (κ × υ)) (m : KeyedMap κ υ) (k : κ)
    (h : (∃ v, (k, v) ∈ rows) ∨ (m.lookup k).isSome) :
    ((rows.foldl (fun (m : KeyedMap κ υ) row => m.insert row.1 row.2) m).lookup k).isSome := by
  induction rows generalizing m with
  | nil =>
    rcases h with ⟨v, hv⟩ | h
    · cases hv
    · exact h
  | cons row rows ih =>
    refine ih _ ?_
    by_cases hk : k = row.1
    · exact .inr (by rw [lookup_insert_if, if_pos hk]; rfl)
    rcases h with ⟨v, hv⟩ | h
    · rcases mem_cons.mp hv with hv | hv
      · exact absurd (by rw [← hv]) hk
      · exact .inl ⟨v, hv⟩
    · exact .inr (by rw [lookup_insert_if, if_neg hk]; exact h)

/-- Two maps with the same lookups hold the same entries, whatever their order. -/
theorem entries_perm_of_lookup_eq {m n : KeyedMap κ υ} (h : ∀ k, m.lookup k = n.lookup k) :
    m.entries.Perm n.entries :=
  lookup_ext m.nodupKeys n.nodupKeys (fun k v => by
    change v ∈ m.lookup k ↔ v ∈ n.lookup k
    rw [h k])

theorem size_eq_of_lookup_eq {m n : KeyedMap κ υ} (h : ∀ k, m.lookup k = n.lookup k) :
    size m = size n :=
  (entries_perm_of_lookup_eq h).length_eq

theorem mem_entries_iff (m : KeyedMap κ υ) (k : κ) (v : υ) :
    (⟨k, v⟩ : Σ _ : κ, υ) ∈ m.entries ↔ m.lookup k = some v :=
  mem_lookup_iff.symm

theorem count_eq_zero (p : υ → Bool) (m : KeyedMap κ υ)
    (h : ∀ k v, m.lookup k = some v → p v = false) : count p m = 0 := by
  unfold count
  rw [countP_eq_zero]
  rintro ⟨k, v⟩ hmem
  rw [h k v ((mem_entries_iff m k v).mp hmem)]
  exact Bool.false_ne_true

/-- A map whose keys go to different keys of another one is no larger. -/
theorem size_le_of_injOn [DecidableEq κ'] (m : KeyedMap κ υ) (n : KeyedMap κ' υ') (f : κ → κ')
    (hmem : ∀ k v, m.lookup k = some v → (n.lookup (f k)).isSome)
    (hinj : ∀ k k' v v', m.lookup k = some v → m.lookup k' = some v' → f k = f k' → k = k') :
    size m ≤ size n := by
  have hsome : ∀ k ∈ m.keys, ∃ v, m.lookup k = some v := fun k hk =>
    Option.isSome_iff_exists.mp (lookup_isSome.mpr (mem_keys.mpr hk))
  have hnodup : (m.keys.map f).Nodup := Nodup.map_on (fun k hk k' hk' heq => by
    obtain ⟨v, hv⟩ := hsome k hk
    obtain ⟨v', hv'⟩ := hsome k' hk'
    exact hinj k k' v v' hv hv' heq) (keys_nodup m)
  have hsubset : m.keys.map f ⊆ n.keys := fun k' hk' => by
    obtain ⟨k, hk, rfl⟩ := mem_map.mp hk'
    obtain ⟨v, hv⟩ := hsome k hk
    exact mem_keys.mp (lookup_isSome.mp (hmem k v hv))
  have hlength := (subperm_of_subset hnodup hsubset).length_le
  rwa [length_map, ← size_keys, ← size_keys] at hlength

theorem size_pos_of_some {k : κ} (h : m.lookup k = some v) : 0 < size m :=
  length_pos_of_mem ((mem_entries_iff m k v).mpr h)

theorem lookup_eq_none_of_size_zero {m : KeyedMap κ υ} (h : size m = 0) (k : κ) :
    m.lookup k = none := by
  cases hk : m.lookup k with
  | none => rfl
  | some v => have := size_pos_of_some hk; omega

theorem size_eq_zero_of_lookup (m : KeyedMap κ υ) (h : ∀ k, m.lookup k = none) : size m = 0 := by
  apply List.length_eq_zero_iff.mpr
  apply List.eq_nil_iff_forall_not_mem.mpr
  rintro ⟨k, v⟩ hmem
  have hsome := (mem_entries_iff m k v).mp hmem
  rw [h k] at hsome
  cases hsome

/-! ### A map without the entries of one owner -/

variable (owner : κ → String) (a : String)

/-- The second map is the first one without what `a` owns. -/
def Without (m n : KeyedMap κ υ) : Prop :=
  ∀ k, n.lookup k = if owner k = a then none else m.lookup k

variable {owner a} {m n : KeyedMap κ υ}

section

variable (h : Without owner a m n)
include h

theorem Without.lookup (hk : owner k ≠ a) : n.lookup k = m.lookup k := (h k).trans (if_neg hk)

theorem Without.insert_own (hk : owner k = a) (v : υ) : Without owner a (m.insert k v) n := by
  intro k'
  rw [h k', lookup_insert_if]
  split
  · rfl
  case isFalse hne =>
    have hk' : k' ≠ k := fun heq => hne (heq ▸ hk)
    rw [if_neg hk']

theorem Without.erase_own (hk : owner k = a) : Without owner a (m.erase k) n := by
  intro k'
  rw [h k', lookup_erase_if]
  split
  · rfl
  case isFalse hne =>
    have hk' : k' ≠ k := fun heq => hne (heq ▸ hk)
    rw [if_neg hk']

theorem Without.insert (hk : owner k ≠ a) (v : υ) :
    Without owner a (m.insert k v) (n.insert k v) := by
  intro k'
  rw [lookup_insert_if, lookup_insert_if, h k']
  by_cases heq : k' = k
  · rw [if_pos heq, if_pos heq, if_neg (heq ▸ hk)]
  · rw [if_neg heq, if_neg heq]

theorem Without.erase (k : κ) : Without owner a (m.erase k) (n.erase k) := by
  intro k'
  rw [lookup_erase_if, lookup_erase_if, h k']
  by_cases heq : k' = k
  · rw [if_pos heq, if_pos heq, ite_self]
  · rw [if_neg heq, if_neg heq]

theorem Without.size_le : size n ≤ size m := by
  refine size_le_of_injOn n m id (fun k v hk => ?_) fun _ _ _ _ _ _ heq => heq
  rw [h k] at hk
  split at hk
  · cases hk
  · exact Option.isSome_iff_exists.mpr ⟨v, hk⟩

end

theorem without_empty : Without owner a (∅ : KeyedMap κ υ) ∅ := by
  intro k
  simp

end lookup

end AList
