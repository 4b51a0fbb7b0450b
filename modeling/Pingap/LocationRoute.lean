import Mathlib.Data.List.Dedup
import Pingap.LocationMatch

/-!
# The routes of a server

The locations of a server in the order of their weights, with an index that offers,
for a host, the positions worth looking at. On the locations it was built from the
index loses nothing: the first location that matches is the one a scan of the whole
list would find, up to the positions that fit into sixteen bits.
-/

namespace LocationRoute

open LocationMatch List

/-! ## The host index -/

structure LocationHostIndex where
  exact : KeyedMap String (List Nat)
  suffixes : KeyedMap String (List Nat)
  regex : List Nat
  any : List Nat

namespace LocationHostIndex

def empty : LocationHostIndex := ⟨∅, ∅, [], []⟩

def push (m : KeyedMap String (List Nat)) (key : String) (idx : Nat) : KeyedMap String (List Nat) :=
  m.insert key ((m.lookup key).getD [] ++ [idx])

def addEntry (idx : Nat) (index : LocationHostIndex) : HostIndexEntry → LocationHostIndex
  | .exact host => { index with exact := push index.exact host idx }
  | .suffix domain => { index with suffixes := push index.suffixes domain idx }
  | .regex => if idx ∈ index.regex then index else { index with regex := index.regex ++ [idx] }
  | .any => if idx ∈ index.any then index else { index with any := index.any ++ [idx] }

/-- One turn of the loop in `build`: the position is kept in sixteen bits. -/
def addLocation (resolve : String → Option Location) (index : LocationHostIndex)
    (entry : String × Nat) : LocationHostIndex :=
  match resolve entry.1 with
  | none => index
  | some l => l.hostIndexEntries.foldl (addEntry (entry.2 % 2 ^ 16)) index

def build (ordered : List String) (resolve : String → Option Location) : LocationHostIndex :=
  ordered.zipIdx.foldl (addLocation resolve) empty

/-- All positions that may match a host, some of them more than once. -/
def hits (index : LocationHostIndex) (host : String) : List Nat :=
  (index.exact.lookup (toAsciiLowercase host)).getD [] ++
    (index.suffixes.entries.flatMap fun e =>
      if hostMatchesSuffix (toAsciiLowercase host) e.1 then e.2 else []) ++
    index.regex ++ index.any

def candidateIndices (index : LocationHostIndex) (host : String) : List Nat :=
  (index.hits host).dedup.insertionSort (· ≤ ·)

/-! ### What the index holds -/

/-- The position stands in the index under an entry. -/
def Holds (index : LocationHostIndex) : HostIndexEntry → Nat → Prop
  | .exact host, idx => idx ∈ (index.exact.lookup host).getD []
  | .suffix domain, idx => idx ∈ (index.suffixes.lookup domain).getD []
  | .regex, idx => idx ∈ index.regex
  | .any, idx => idx ∈ index.any

theorem mem_push :
    idx' ∈ ((push m key idx).lookup key').getD [] ↔
      idx' ∈ (m.lookup key').getD [] ∨ (key' = key ∧ idx' = idx) := by
  rw [push]
  by_cases h : key' = key
  · subst h
    simp [AList.lookup_insert]
  · simp [AList.lookup_insert_ne h, h]

theorem holds_addEntry :
    (addEntry idx index e).Holds e' idx' ↔ index.Holds e' idx' ∨ (e' = e ∧ idx' = idx) := by
  cases e with
  | exact | suffix => cases e' <;> simp [addEntry, Holds, mem_push]
  | regex =>
    by_cases hin : idx ∈ index.regex
    · cases e' <;> simp only [addEntry, if_pos hin, Holds] <;> aesop
    · cases e' <;> simp [addEntry, hin, Holds]
  | any =>
    by_cases hin : idx ∈ index.any
    · cases e' <;> simp only [addEntry, if_pos hin, Holds] <;> aesop
    · cases e' <;> simp [addEntry, hin, Holds]

theorem holds_addEntries {entries : List HostIndexEntry} :
    (entries.foldl (addEntry idx) index).Holds e idx' ↔
      index.Holds e idx' ∨ (e ∈ entries ∧ idx' = idx) := by
  induction entries generalizing index with
  | nil => simp
  | cons first rest ih =>
    rw [foldl_cons, ih, holds_addEntry, mem_cons]
    tauto

theorem holds_build (resolve : String → Option Location) :
    (build ordered resolve).Holds e idx ↔ ∃ i name l, ordered[i]? = some name ∧
      resolve name = some l ∧ e ∈ l.hostIndexEntries ∧ idx = i % 2 ^ 16 := by
  have hfold : ∀ (rows : List (String × Nat)) (index : LocationHostIndex),
      (rows.foldl (addLocation resolve) index).Holds e idx ↔ index.Holds e idx ∨
        ∃ row ∈ rows, ∃ l, resolve row.1 = some l ∧ e ∈ l.hostIndexEntries ∧
          idx = row.2 % 2 ^ 16 := by
    intro rows
    induction rows with
    | nil => simp
    | cons row rest ih =>
      intro index
      rw [foldl_cons, ih, exists_mem_cons_iff, ← or_assoc]
      refine or_congr_left ?_
      rw [addLocation]
      cases hl : resolve row.1 with
      | none => simp
      | some l => simp [holds_addEntries]
  have hnone : ¬ empty.Holds e idx := by cases e <;> simp [empty, Holds]
  rw [build, hfold, or_iff_right hnone]
  constructor
  · rintro ⟨⟨name, i⟩, hrow, l, hl, he, hidx⟩
    exact ⟨i, name, l, List.mem_zipIdx_iff_getElem?.mp hrow, hl, he, hidx⟩
  · rintro ⟨i, name, l, hi, hl, he, hidx⟩
    exact ⟨(name, i), List.mem_zipIdx_iff_getElem?.mpr hi, l, hl, he, hidx⟩

/-- The positions under the suffixes that a host matches. -/
theorem mem_suffixHits {m : KeyedMap String (List Nat)} {p : String → Bool} :
    idx ∈ m.entries.flatMap (fun e => if p e.1 then e.2 else []) ↔
      ∃ domain, p domain = true ∧ idx ∈ (m.lookup domain).getD [] := by
  rw [mem_flatMap]
  constructor
  · rintro ⟨⟨domain, positions⟩, hentry, hidx⟩
    split at hidx
    · rename_i hp
      refine ⟨domain, hp, ?_⟩
      rw [Option.mem_def.mp (AList.mem_lookup_iff.mpr hentry)]
      exact hidx
    · cases hidx
  · rintro ⟨domain, hp, hidx⟩
    cases hlookup : m.lookup domain with
    | none =>
      rw [hlookup] at hidx
      cases hidx
    | some positions =>
      rw [hlookup] at hidx
      refine ⟨⟨domain, positions⟩, AList.mem_lookup_iff.mp (Option.mem_def.mpr hlookup), ?_⟩
      rw [if_pos hp]
      exact hidx

theorem mem_hits {index : LocationHostIndex} :
    idx ∈ index.hits host ↔ ∃ e, HostIndexEntry.admits host e = true ∧ index.Holds e idx := by
  rw [hits, mem_append, mem_append, mem_append, mem_suffixHits]
  constructor
  · rintro (((hexact | ⟨domain, hp, hidx⟩) | hregex) | hany)
    · exact ⟨.exact (toAsciiLowercase host), beq_self_eq_true _, hexact⟩
    · exact ⟨.suffix domain, hp, hidx⟩
    · exact ⟨.regex, rfl, hregex⟩
    · exact ⟨.any, rfl, hany⟩
  · rintro ⟨e, hadmits, hholds⟩
    cases e with
    | exact value =>
      obtain rfl : value = toAsciiLowercase host := beq_iff_eq.mp hadmits
      exact .inl (.inl (.inl hholds))
    | suffix domain => exact .inl (.inl (.inr ⟨domain, hadmits, hholds⟩))
    | regex => exact .inl (.inr hholds)
    | any => exact .inr hholds

/-- What an index offers for a host: the positions, in sixteen bits, of the locations
that admitted it when the index was built. -/
theorem mem_candidateIndices_build (ordered : List String) (resolve : String → Option Location) :
    idx ∈ (build ordered resolve).candidateIndices host ↔ ∃ i name l, ordered[i]? = some name ∧
      resolve name = some l ∧ l.admits host = true ∧ idx = i % 2 ^ 16 := by
  rw [candidateIndices, mem_insertionSort, mem_dedup, mem_hits]
  simp only [holds_build, Location.admits, any_eq_true]
  constructor
  · rintro ⟨e, hadmits, i, name, l, hi, hl, he, hidx⟩
    exact ⟨i, name, l, hi, hl, ⟨e, he, hadmits⟩, hidx⟩
  · rintro ⟨i, name, l, hi, hl, ⟨e, he, hadmits⟩, hidx⟩
    exact ⟨e, hadmits, i, name, l, hi, hl, he, hidx⟩

theorem candidateIndices_sorted (index : LocationHostIndex) (host : String) :
    (index.candidateIndices host).Pairwise (· < ·) := by
  have hle : (index.candidateIndices host).Pairwise (· ≤ ·) := pairwise_insertionSort _ _
  have hnodup : (index.candidateIndices host).Nodup :=
    (perm_insertionSort _ _).nodup_iff.mpr (nodup_dedup _)
  exact hle.imp₂ (fun _ _ hle hne => Nat.lt_of_le_of_ne hle hne) hnodup

end LocationHostIndex

/-! ## Routes -/

structure ServerLocationRoute where
  ordered : List String
  hostIndex : LocationHostIndex

def ServerLocationRoute.build (ordered : List String) (resolve : String → Option Location) :
    ServerLocationRoute := ⟨ordered, LocationHostIndex.build ordered resolve⟩

/-- The location that a route leads a request to: the first candidate that is there
and matches. -/
def ServerLocationRoute.select (r : Regexes) (route : ServerLocationRoute)
    (get : String → Option Location) (host path : String) : Option String :=
  (route.hostIndex.candidateIndices host).findSome? fun idx =>
    (route.ordered[idx]?).bind fun name => (get name).bind fun l =>
      if l.matchHostPath r host path then some name else none

/-- The location is there and matches. -/
def Matches (r : Regexes) (get : String → Option Location) (host path name : String) : Bool :=
  (get name).any fun l => l.matchHostPath r host path

/-- A search of a list in ascending order ends at the least position that has something. -/
theorem findSome_sorted {l : List Nat} (hsorted : l.Pairwise (· < ·)) : l.findSome? f = some a ↔
      ∃ i ∈ l, f i = some a ∧ ∀ j ∈ l, j < i → f j = none := by
  rw [findSome?_eq_some_iff]
  constructor
  · rintro ⟨before, i, rest, rfl, hi, hnone⟩
    refine ⟨i, by simp, hi, fun j hj hlt => ?_⟩
    rcases mem_append.mp hj with hj | hj
    · exact hnone j hj
    obtain ⟨-, htail, -⟩ := pairwise_append.mp hsorted
    rcases mem_cons.mp hj with rfl | hj
    · exact absurd hlt (Nat.lt_irrefl _)
    · exact absurd hlt (Nat.not_lt_of_lt ((List.pairwise_cons.mp htail).1 j hj))
  · rintro ⟨i, hi, hf, hnone⟩
    obtain ⟨before, rest, rfl⟩ := append_of_mem hi
    refine ⟨before, i, rest, rfl, hf, fun j hj => ?_⟩
    obtain ⟨-, -, hlt⟩ := pairwise_append.mp hsorted
    exact hnone j (mem_append_left _ hj) (hlt j hj i mem_cons_self)

section select

variable {r : Regexes} {get : String → Option Location} {host path : String}

theorem matches_iff :
    Matches r get host path name = true ↔
      ∃ l, get name = some l ∧ l.matchHostPath r host path = true := by
  rw [Matches, Option.any_eq_true]

/-- What a candidate position yields. -/
theorem attempt_eq_some {ordered : List String} {idx : Nat} :
    ((ordered[idx]?).bind fun name => (get name).bind fun l =>
        if l.matchHostPath r host path then some name else none) = some name ↔
      ordered[idx]? = some name ∧ Matches r get host path name = true := by
  simp only [Option.bind_eq_some_iff, matches_iff]
  constructor
  · rintro ⟨found, hfound, l, hl, hmatch⟩
    split at hmatch
    · rename_i hmatches
      obtain rfl : found = name := Option.some.inj hmatch
      exact ⟨hfound, l, hl, hmatches⟩
    · cases hmatch
  · rintro ⟨hfound, l, hl, hmatches⟩
    exact ⟨name, hfound, l, hl, by rw [if_pos hmatches]⟩

theorem attempt_eq_none {ordered : List String} {idx : Nat} :
    ((ordered[idx]?).bind fun name => (get name).bind fun l =>
        if l.matchHostPath r host path then some name else none) = none ↔
      ∀ name, ordered[idx]? = some name → Matches r get host path name = false := by
  rw [Option.eq_none_iff_forall_ne_some]
  simp only [ne_eq, attempt_eq_some, not_and, Bool.not_eq_true]

/-- The route leads to a location when a candidate position holds it, it matches, and
nothing matches at a candidate position before. -/
theorem select_eq_some {route : ServerLocationRoute} :
    route.select r get host path = some name ↔
      ∃ i ∈ route.hostIndex.candidateIndices host, route.ordered[i]? = some name ∧
        Matches r get host path name = true ∧
        ∀ j ∈ route.hostIndex.candidateIndices host, j < i →
          ∀ other, route.ordered[j]? = some other → Matches r get host path other = false := by
  rw [ServerLocationRoute.select,
    findSome_sorted (LocationHostIndex.candidateIndices_sorted route.hostIndex host)]
  simp only [attempt_eq_some, attempt_eq_none, and_assoc]

theorem select_eq_none {route : ServerLocationRoute} :
    route.select r get host path = none ↔
      ∀ i ∈ route.hostIndex.candidateIndices host, ∀ name, route.ordered[i]? = some name →
        Matches r get host path name = false := by
  rw [ServerLocationRoute.select, findSome?_eq_none_iff]
  simp only [attempt_eq_none]

/-- On the locations it was built from the index offers every match whose position fits
into sixteen bits. -/
theorem mem_candidateIndices_of_matches (hi : ordered[i]? = some name) (hlt : i < 2 ^ 16)
    (hmatch : Matches r get host path name = true) :
    i ∈ (LocationHostIndex.build ordered get).candidateIndices host := by
  obtain ⟨l, hl, hmatches⟩ := matches_iff.mp hmatch
  have hhost : l.matchHost r host = true := (Bool.and_eq_true_iff.mp hmatches).2
  exact (LocationHostIndex.mem_candidateIndices_build ordered get).mpr
    ⟨i, name, l, hi, hl, Location.admits_of_matchHost hhost, (Nat.mod_eq_of_lt hlt).symm⟩

theorem candidateIndices_build_lt
    (hi : i ∈ (LocationHostIndex.build ordered get).candidateIndices host) : i < 2 ^ 16 := by
  obtain ⟨j, -, -, -, -, -, rfl⟩ := (LocationHostIndex.mem_candidateIndices_build ordered get).mp hi
  exact Nat.mod_lt _ (Nat.two_pow_pos 16)

/-- A route that was built from the locations it is used with finds the first match of
the whole list, exactly when one of the first `2 ^ 16` matches or none does. -/
theorem select_build_eq_find :
    (ServerLocationRoute.build ordered get).select r get host path =
        ordered.find? (Matches r get host path) ↔
      ((∃ name ∈ ordered, Matches r get host path name = true) →
        ∃ name ∈ ordered.take (2 ^ 16), Matches r get host path name = true) := by
  constructor
  · intro heq hsome
    obtain ⟨m, hm⟩ := Option.isSome_iff_exists.mp (find?_isSome.mpr hsome)
    rw [hm] at heq
    obtain ⟨i, hi, hget, hmatch, -⟩ := select_eq_some.mp heq
    have hlt : i < 2 ^ 16 := candidateIndices_build_lt hi
    have htake : (ordered.take (2 ^ 16))[i]? = some m := by
      rw [getElem?_take_of_lt hlt]
      exact hget
    exact ⟨m, mem_of_getElem? htake, hmatch⟩
  intro hfits
  cases hfind : ordered.find? (Matches r get host path) with
  | none =>
    refine select_eq_none.mpr fun i _ name hname => ?_
    exact Bool.eq_false_iff.mpr (find?_eq_none.mp hfind name (mem_of_getElem? hname))
  | some m =>
    obtain ⟨hmatch, i, hlen, hm, hbefore⟩ := List.find?_eq_some_iff_getElem.mp hfind
    have hget : ordered[i]? = some m := by rw [getElem?_eq_getElem hlen, hm]
    have hnone : ∀ j < i, ∀ other, ordered[j]? = some other →
        Matches r get host path other = false := by
      intro j hji other hother
      rw [getElem?_eq_getElem (hji.trans hlen)] at hother
      have hj := hbefore j hji
      rwa [Option.some.inj hother, Bool.not_eq_true'] at hj
    -- The first match is not after the one that fits.
    have hlt : i < 2 ^ 16 := by
      obtain ⟨name, hname, hmatches⟩ := hfits ⟨m, mem_of_find?_eq_some hfind, hmatch⟩
      obtain ⟨j, hj⟩ := List.mem_iff_getElem?.mp hname
      obtain ⟨hj', hjget⟩ : j < 2 ^ 16 ∧ ordered[j]? = some name := by
        rw [getElem?_take] at hj
        split at hj
        · rename_i hlt
          exact ⟨hlt, hj⟩
        · cases hj
      by_contra hnot
      have hji : j < i := by omega
      rw [hnone j hji name hjget] at hmatches
      cases hmatches
    exact select_eq_some.mpr ⟨i, mem_candidateIndices_of_matches hget hlt hmatch, hget, hmatch,
      fun j _ hji => hnone j hji⟩

end select

end LocationRoute
