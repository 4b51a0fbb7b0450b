import Mathlib.Data.List.Sort

/-!
# Stable sorting by a key

A list is sorted by a key such that entries with equal keys keep their places. The
first entry with a property is then the one whose key and place are least, and
entries without the property have no part in it.
-/

namespace StableSort

open List

variable {α κ : Type} [LinearOrder κ] (key : α → κ)

def sortByKey (l : List α) : List α := l.insertionSort fun a b => key a ≤ key b

theorem mem_sortByKey : a ∈ sortByKey key l ↔ a ∈ l := mem_insertionSort _

theorem pairwise_sortByKey (l : List α) : (sortByKey key l).Pairwise fun a b => key a ≤ key b := by
  have htotal : Std.Total fun a b : α => key a ≤ key b := ⟨fun a b => le_total (key a) (key b)⟩
  have htrans : IsTrans α fun a b => key a ≤ key b := ⟨fun _ _ _ => le_trans⟩
  exact pairwise_insertionSort _ l

/-- The first entry with a property, after one more was put into its place. -/
theorem find?_orderedInsert (p : α → Bool) (a : α) {l : List α}
    (hl : l.Pairwise fun a b => key a ≤ key b) :
    (l.orderedInsert (fun a b => key a ≤ key b) a).find? p =
      if p a = true ∧ ∀ b, l.find? p = some b → key a ≤ key b then some a else l.find? p := by
  induction l with
  | nil => cases hp : p a <;> simp [hp]
  | cons b l ih =>
    obtain ⟨hhead, htail⟩ := List.pairwise_cons.mp hl
    by_cases hle : key a ≤ key b
    case pos =>
      rw [orderedInsert_cons, if_pos hle, find?_cons]
      have hall : ∀ c, (b :: l).find? p = some c → key a ≤ key c := by
        intro c hc
        rcases mem_cons.mp (mem_of_find?_eq_some hc) with rfl | hmem
        · exact hle
        · exact hle.trans (hhead c hmem)
      cases hp : p a with
      | true => rw [if_pos ⟨rfl, hall⟩]
      | false => rw [if_neg (fun h => by cases h.1)]
    case neg =>
      rw [orderedInsert_cons, if_neg hle, find?_cons]
      cases hpb : p b with
      | true =>
        have hfirst : (b :: l).find? p = some b := find?_cons_of_pos hpb
        rw [hfirst, if_neg fun h => hle (h.2 b rfl)]
      | false =>
        rw [find?_cons_of_neg (by simp [hpb])]
        exact ih htail

/-- What has the property and comes first in the order of keys and places is found first. -/
theorem find?_sortByKey (hi : l[i]? = some a) (hp : p a = true)
    (hleast : ∀ (j : Nat) b, l[j]? = some b → p b = true → key a < key b ∨ key a = key b ∧ i ≤ j) :
    (sortByKey key l).find? p = some a := by
  induction l generalizing i with
  | nil => cases hi
  | cons x l ih =>
    have hstep := find?_orderedInsert key p x (pairwise_sortByKey key l)
    change (orderedInsert _ x (sortByKey key l)).find? p = some a
    rw [hstep]
    cases i with
    | zero =>
      obtain rfl : x = a := Option.some.inj hi
      rw [if_pos]
      refine ⟨hp, fun b hb => ?_⟩
      obtain ⟨j, hj⟩ := List.mem_iff_getElem?.mp ((mem_sortByKey key).mp (mem_of_find?_eq_some hb))
      rcases hleast (j + 1) b hj (find?_some hb) with hlt | ⟨heq, -⟩
      · exact hlt.le
      · exact heq.le
    | succ i =>
      have hrest := ih hi fun j b hj hb => by
        rcases hleast (j + 1) b hj hb with hlt | ⟨heq, hle⟩
        · exact .inl hlt
        · exact .inr ⟨heq, Nat.le_of_succ_le_succ hle⟩
      rw [hrest, if_neg]
      rintro ⟨hx, hle⟩
      rcases hleast 0 x rfl hx with hlt | ⟨-, hplace⟩
      · exact absurd (hle a rfl) (not_le.mpr hlt)
      · cases hplace

/-- Entries that cannot have the property may be left out before sorting. -/
theorem find?_sortByKey_filter (hpq : ∀ a, p a = true → q a = true) (l : List α) :
    (sortByKey key (l.filter q)).find? p = (sortByKey key l).find? p := by
  induction l with
  | nil => rfl
  | cons a l ih =>
    have hstep := find?_orderedInsert key p a (pairwise_sortByKey key l)
    change _ = (orderedInsert _ a (sortByKey key l)).find? p
    rw [hstep, ← ih]
    cases hq : q a with
    | true =>
      rw [filter_cons_of_pos hq]
      exact find?_orderedInsert key p a (pairwise_sortByKey key (l.filter q))
    | false =>
      rw [filter_cons_of_neg (by simp [hq]), if_neg]
      rintro ⟨hp, -⟩
      rw [hpq a hp] at hq
      cases hq

end StableSort
