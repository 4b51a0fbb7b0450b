import Mathlib.Data.List.Nodup
import Mathlib.Data.List.Perm.Basic

/-!
# The order of the native rules

The lists of the categories are merged round by round, so that a budget that cuts the walk
short has given every category its share.
-/

namespace WafInterleave

open List

variable {κ σ τ υ : Type}

/-- Each round takes the next rule of every queue that has one. -/
def rounds : Nat → List (List τ) → List τ
  | 0, _ => []
  | n + 1, queues => queues.filterMap head? ++ rounds n (queues.map tail)

/-- The rules of a list with their category. -/
def label (set : κ × List σ) : List (κ × σ) := set.2.map (set.1, ·)

def interleave (sets : List (κ × List σ)) : List (κ × σ) :=
  rounds ((sets.map fun s => s.2.length).max?.getD 0) (sets.map label)

/-- The lists under their positions, which are all different. -/
def numbered (sets : List (κ × List σ)) : List (Nat × List (κ × σ)) :=
  sets.zipIdx.map fun s => (s.2, label s.1)

@[simp] theorem length_label {set : κ × List σ} : (label set).length = set.2.length := length_map _

@[simp] theorem map_snd_label {set : κ × List σ} : (label set).map Prod.snd = set.2 := by
  simp [label, Function.comp_def]

theorem map_rounds (f : τ → υ) (n : Nat) (queues : List (List τ)) :
    (rounds n queues).map f = rounds n (queues.map (map f)) := by
  induction n generalizing queues with
  | zero => rfl
  | succ n ih => simp [rounds, ih, map_filterMap, filterMap_map, Function.comp_def]

theorem rounds_perm (n : Nat) (queues : List (List τ)) :
    rounds n queues ~ queues.flatMap (take n) := by
  induction n generalizing queues with
  | zero => simp [rounds]
  | succ n ih =>
    rw [rounds, filterMap_eq_flatMap_toList]
    refine ((ih _).append_left _).trans ?_
    rw [flatMap_map]
    refine (flatMap_append_perm _ _ _).trans (.of_eq (flatMap_congr fun q _ => ?_))
    cases q <;> simp

theorem take_longest {sets : List (κ × List σ)} (h : s ∈ sets) :
    s.2.take ((sets.map fun s => s.2.length).max?.getD 0) = s.2 := by
  have hmem := mem_map_of_mem (f := fun s : κ × List σ => s.2.length) h
  cases hmax : (sets.map fun s => s.2.length).max? with
  | none => rw [max?_eq_none_iff.mp hmax] at hmem; cases hmem
  | some m => exact take_of_length_le ((max?_eq_some_iff.mp hmax).2 _ hmem)

section

variable {queues : List (κ × List σ)} {specs specs' : List σ} {i j k : κ}

theorem tail_label : (queues.map label).map tail = (queues.map fun q => (q.1, q.2.tail)).map label := by
  simp [label, Function.comp_def]

variable [DecidableEq κ] (hkeys : (queues.map Prod.fst).Nodup)
include hkeys

theorem filter_heads (hmem : (k, specs) ∈ queues) :
    ((queues.map label).filterMap head?).filter (·.1 = k) = specs.head?.toList.map (k, ·) := by
  have hother : ∀ l : List (κ × List σ), k ∉ l.map Prod.fst →
      ((l.map label).filterMap head?).filter (·.1 = k) = [] := by
    intro l hl
    refine filter_eq_nil_iff.mpr fun e he hk => hl ?_
    obtain ⟨_, hlabel, hhead⟩ := mem_filterMap.mp he
    obtain ⟨q, hq, rfl⟩ := mem_map.mp hlabel
    obtain ⟨_, -, rfl⟩ := mem_map.mp (mem_of_mem_head? hhead)
    exact mem_map.mpr ⟨q, hq, of_decide_eq_true hk⟩
  obtain ⟨before, after, rfl⟩ := append_of_mem hmem
  simp only [map_append, map_cons, nodup_append, nodup_cons] at hkeys
  have hbefore := hother before fun h => hkeys.2.2 k h k mem_cons_self rfl
  have hafter := hother after hkeys.2.1.1
  rw [map_append, filterMap_append, filter_append, hbefore, nil_append]
  cases specs with
  | nil => exact hafter
  | cons spec specs =>
    exact (filter_cons_of_pos (a := (k, spec)) (p := (·.1 = k)) (by simp)).trans (congrArg _ hafter)

theorem filter_rounds (n : Nat) (hmem : (k, specs) ∈ queues) :
    (rounds n (queues.map label)).filter (·.1 = k) = label (k, specs.take n) := by
  induction n generalizing queues specs with
  | zero => rfl
  | succ n ih =>
    rw [rounds, filter_append, filter_heads hkeys hmem, tail_label,
      @ih _ specs.tail (by simpa [Function.comp_def] using hkeys) (mem_map.mpr ⟨_, hmem, rfl⟩)]
    cases specs <;> simp [label]

/-- Two queues with rules left have given as many, or one more: a cut within a round is the
case, and a later one is a cut in the rest. -/
theorem rounds_fair (n m : Nat) (hi : (i, specs) ∈ queues) (hj : (j, specs') ∈ queues) :
    let given k := ((rounds n (queues.map label)).take m).countP (·.1 = k)
    given i < specs.length → given j < specs'.length → given i ≤ given j + 1 := by
  induction n generalizing queues specs specs' m with
  | zero => simp [rounds]
  | succ n ih =>
    have hone : ∀ {k specs}, (k, specs) ∈ queues →
        ((queues.map label).filterMap head?).countP (·.1 = k) = min 1 specs.length := by
      intro k specs hmem
      rw [countP_eq_length_filter, filter_heads hkeys hmem]
      cases specs <;> simp
    have hrest := @ih (queues.map fun q => (q.1, q.2.tail)) specs.tail specs'.tail
      (by simpa [Function.comp_def] using hkeys) (m - ((queues.map label).filterMap head?).length)
      (mem_map.mpr ⟨_, hi, rfl⟩) (mem_map.mpr ⟨_, hj, rfl⟩)
    simp only [rounds, take_append, countP_append, tail_label, length_tail] at hrest ⊢
    rcases Nat.le_total m ((queues.map label).filterMap head?).length with hcut | hcut
    · have hsub := (take_sublist m ((queues.map label).filterMap head?)).countP_le
        (p := fun e => decide (e.1 = i))
      rw [hone hi] at hsub
      rw [Nat.sub_eq_zero_of_le hcut, take_zero, countP_nil, countP_nil]
      omega
    · rw [take_of_length_le hcut, hone hi, hone hj]
      omega

end

/-- The merged list is a permutation of all rules. With the lists told apart by their positions,
each comes in its own order, and at every cut any two with rules left have given as many, or one
more. -/
theorem interleave_fair (sets : List (κ × List σ)) :
    interleave sets ~ sets.flatMap label ∧ let out := interleave (numbered sets)
    out.map Prod.snd = interleave sets ∧
    (∀ i set, sets[i]? = some set → (out.filter (·.1 = i)).map Prod.snd = label set) ∧
    ∀ n i j set set', sets[i]? = some set → sets[j]? = some set' →
      let given i := (out.take n).countP (·.1 = i)
      given i < set.2.length → given j < set'.2.length → given i ≤ given j + 1 := by
  have hkeys : ((numbered sets).map Prod.fst).Nodup := by
    simpa [numbered, Function.comp_def, ← range'_eq_map_range] using nodup_range'
  have hmem : ∀ {i set}, sets[i]? = some set → (i, label set) ∈ numbered sets := fun h =>
    mem_map.mpr ⟨_, mk_mem_zipIdx_iff_getElem?.mpr h, rfl⟩
  refine ⟨?_, ?_, fun i set h => ?_, fun n i j set set' hi hj => ?_⟩
  · refine (rounds_perm _ _).trans ?_
    rw [flatMap_map]
    refine .of_eq (flatMap_congr fun s hs => ?_)
    rw [label, ← map_take, take_longest hs]
  · have hsets := zipIdx_map_fst 0 sets
    have hlists := congrArg (map label) hsets
    have hlengths := congrArg (map fun s => s.2.length) hsets
    simp only [map_map, Function.comp_def] at hlists hlengths
    simp [interleave, map_rounds, numbered, Function.comp_def, hlengths, hlists]
  · rw [interleave, filter_rounds hkeys _ (hmem h), take_longest (hmem h)]
    exact map_snd_label
  · simpa [interleave] using rounds_fair hkeys _ n (hmem hi) (hmem hj)

end WafInterleave
