import Pingap.WafRule

/-!
# The literal prefilter

A rule that names the literals every match of it contains is looked at only when
one of them occurs in the input. The walk over the input stops as soon as no rule
is left to mark; `markRequest_eq` and `markResponse_eq` say that stopping early
changes nothing, and `literals_absent` that no rule is left out whose literal occurs.
The automaton of the string-search library is given by the function that
builds its overlapping search from the needles.
-/

namespace WafPrefilter

open WafRule List

/-! ## Building the gate -/

def TOTAL_NEEDLE_CAP : Nat := 4096

/-- The overlapping search of an automaton: the needles found, by their place. -/
abbrev Search := String → List Nat

structure Prefilter where
  ac : Option Search
  byNeedle : List (List Nat)
  ungated : List Bool

/-- The gate while it is built: the rules so far, and the needles with the rules
gated on each. -/
structure Building where
  ungated : List Bool
  needles : List String
  byNeedle : List (List Nat)

def fileNeedle (index : Nat) (b : Building) (needle : String) : Building :=
  match b.needles.idxOf? needle with
  | some id => { b with byNeedle := b.byNeedle.modify id fun rules => rules ++ [index] }
  | none => { b with needles := b.needles ++ [needle], byNeedle := b.byNeedle ++ [[index]] }

def leaveUngated (b : Building) : Building := { b with ungated := b.ungated ++ [true] }

/-- One rule of the loop of `build`: gated on all its literals or on none. -/
def fileRule (index : Nat) (b : Building) : Option (List String) → Building
  | none => leaveUngated b
  | some required =>
    let missing := (required.filter fun n => !b.needles.contains n).length
    if required.isEmpty then leaveUngated b
    else if TOTAL_NEEDLE_CAP < b.needles.length + missing then leaveUngated b
    else
      let b := required.foldl (fileNeedle index) b
      { b with ungated := b.ungated ++ [false] }

def fileRules : Nat → Building → List (Option (List String)) → Building
  | _, b, [] => b
  | index, b, required :: rest => fileRules (index + 1) (fileRule index b required) rest

def fileAll {ι : Type} (rules : List (Rule ι)) : Building :=
  fileRules 0 ⟨[], [], []⟩ (rules.map Rule.requiredLiterals)

namespace Prefilter

def build {ι : Type} (automaton : List String → Option Search) (rules : List (Rule ι)) :
    Prefilter :=
  let b := fileAll rules
  let ac := if b.needles.isEmpty then none else automaton b.needles
  ⟨ac, b.byNeedle, if ac.isNone then b.ungated.map fun _ => true else b.ungated⟩

/-- The gate that lets every rule through. -/
def always (ruleCount : Nat) : Prefilter := ⟨none, [], List.replicate ruleCount true⟩

end Prefilter

/-! ## Marking the rules an input may concern -/

/-- The rules marked so far and how many are not. -/
structure Mask where
  present : List Bool
  remaining : Nat

def absent (present : List Bool) : Nat := present.count false

/-- Mark rules one after the other, until none is left. -/
def markAll : List Nat → Mask → Mask
  | [], m => m
  | i :: rest, m =>
    if m.present[i]? = some false then
      let m : Mask := ⟨m.present.set i true, m.remaining - 1⟩
      if m.remaining = 0 then m else markAll rest m
    else markAll rest m

/-- The rules a search of one text concerns. -/
def concerned (search : Search) (byNeedle : List (List Nat)) (text : String) : List Nat :=
  (search text).flatMap fun id => (byNeedle[id]?).getD []

def scan (search : Search) (byNeedle : List (List Nat)) (text : String) (m : Mask) : Mask :=
  if m.remaining = 0 then m else markAll (concerned search byNeedle text) m

/-- Go through texts until no rule is left to mark. -/
def walk (mark : String → Mask → Mask) : List String → Mask → Mask
  | [], m => m
  | text :: rest, m =>
    let m := mark text m
    if m.remaining = 0 then m else walk mark rest m

/-- The fields of a request in the order they are walked. -/
def requestFields (input : RequestInput) : List String :=
  input.method :: input.uri :: (input.query.map Prod.snd ++ input.headers.map Prod.snd ++
    (input.body.map Utf8.textStart).toList)

def responseFields (input : ResponseInput) : List String :=
  input.headers.map Prod.snd ++ (input.bodyChunk.map Utf8.textStart).toList

namespace Prefilter

/-- Scan a field in every form it has. -/
def markField (urlDecode : String → Decoded) (search : Search) (byNeedle : List (List Nat))
    (value : String) (m : Mask) : Mask :=
  walk (scan search byNeedle) (forms urlDecode value) m

def markRequest (urlDecode : String → Decoded) (p : Prefilter) (input : RequestInput)
    (present : List Bool) : List Bool :=
  match p.ac with
  | none => present
  | some search =>
    if absent present = 0 then present
    else
      (walk (markField urlDecode search p.byNeedle) (requestFields input)
        ⟨present, absent present⟩).present

def markResponse (p : Prefilter) (input : ResponseInput) (present : List Bool) : List Bool :=
  match p.ac with
  | none => present
  | some search =>
    if absent present = 0 then present
    else (walk (scan search p.byNeedle) (responseFields input) ⟨present, absent present⟩).present

end Prefilter

/-! ## Stopping early changes nothing -/

/-- Every listed rule marked. -/
def setAll (rules : List Nat) (present : List Bool) : List Bool :=
  rules.foldl (fun l i => l.set i true) present

theorem setAll_append : setAll (is ++ js) l = setAll js (setAll is l) := foldl_append ..

theorem getElem?_setAll (is : List Nat) (l : List Bool) (i : Nat) :
    (setAll is l)[i]? = if i ∈ is ∧ i < l.length then some true else l[i]? := by
  induction is generalizing l with
  | nil => simp [setAll]
  | cons j is ih =>
    have hcons : setAll (j :: is) l = setAll is (l.set j true) := rfl
    rw [hcons, ih, length_set, getElem?_set]
    by_cases hj : j = i
    · subst hj
      by_cases hlt : j < l.length
      · simp [hlt]
      · simp [hlt]
    · have hne : i ≠ j := fun h => hj h.symm
      simp [hj, hne]

theorem length_setAll (is : List Nat) (l : List Bool) : (setAll is l).length = l.length := by
  induction is generalizing l with
  | nil => rfl
  | cons j is ih => exact (ih (l.set j true)).trans length_set

theorem setAll_full {l : List Bool} (h : l.count false = 0) : setAll is l = l := by
  have htrue : ∀ (i : Nat) (b : Bool), l[i]? = some b → b = true := by
    intro i b hb
    cases b with
    | true => rfl
    | false => exact absurd (mem_of_getElem? hb) (List.count_eq_zero.mp h)
  refine ext_getElem? fun i => ?_
  rw [getElem?_setAll]
  split
  case isTrue hin =>
    have hb := getElem?_eq_getElem hin.2
    rw [hb, htrue i _ hb]
  case isFalse => rfl

/-- The count of the rules left is right. -/
def Counted (m : Mask) : Prop := m.remaining = m.present.count false

/-- The change a mark makes: the listed rules, and the count with them. -/
def Marks (is : List Nat) (m m' : Mask) : Prop :=
  m'.present = setAll is m.present ∧ Counted m'

theorem set_true_of_not_false (l : List Bool) (i : Nat) (h : l[i]? ≠ some false) :
    l.set i true = l := by
  by_cases hlt : i < l.length
  · rw [getElem?_eq_getElem hlt] at h
    have htrue : l[i] = true := eq_true_of_ne_false fun hfalse => h (congrArg some hfalse)
    rw [← htrue, set_getElem_self]
  · exact set_eq_of_length_le (Nat.le_of_not_lt hlt)

theorem count_set_true {l : List Bool} (h : l[i]? = some false) :
    (l.set i true).count false = l.count false - 1 := by
  obtain ⟨hlt, hl⟩ := List.getElem?_eq_some_iff.mp h
  rw [count_set hlt]
  simp [hl]

theorem markAll_marks (m : Mask) (h : Counted m) : Marks is m (markAll is m) := by
  induction is generalizing m with
  | nil => exact ⟨rfl, h⟩
  | cons i is ih =>
    have hcons : setAll (i :: is) m.present = setAll is (m.present.set i true) := rfl
    simp only [markAll]
    split
    case isTrue hfalse =>
      have hcounted : Counted ⟨m.present.set i true, m.remaining - 1⟩ := by
        rw [Counted, count_set_true hfalse, ← h]
      split
      case isTrue hzero =>
        refine ⟨?_, hcounted⟩
        rw [hcons, setAll_full (hcounted.symm.trans hzero)]
      case isFalse => exact ⟨(ih _ hcounted).1.trans hcons.symm, (ih _ hcounted).2⟩
    case isFalse hnot =>
      rw [Marks, hcons, set_true_of_not_false m.present i hnot]
      exact ih m h

theorem scan_marks (search : Search) (byNeedle : List (List Nat)) (text : String) (m : Mask)
    (h : Counted m) : Marks (concerned search byNeedle text) m (scan search byNeedle text m) := by
  simp only [scan]
  split
  case isTrue hzero => exact ⟨(setAll_full (h.symm.trans hzero)).symm, h⟩
  case isFalse => exact markAll_marks m h

theorem walk_marks
    (hmark : ∀ text m, Counted m → Marks (rules text) m (mark text m)) (texts : List String)
    (m : Mask) (h : Counted m) : Marks (texts.flatMap rules) m (walk mark texts m) := by
  induction texts generalizing m with
  | nil => exact ⟨rfl, h⟩
  | cons text texts ih =>
    obtain ⟨hpresent, hcounted⟩ := hmark text m h
    have hcons : setAll ((text :: texts).flatMap rules) m.present =
        setAll (texts.flatMap rules) (mark text m).present := by
      rw [flatMap_cons, setAll_append, ← hpresent]
    simp only [walk]
    split
    case isTrue hzero =>
      refine ⟨?_, hcounted⟩
      rw [hcons, setAll_full (hcounted.symm.trans hzero)]
    case isFalse =>
      obtain ⟨hrest, hrestCounted⟩ := ih (mark text m) hcounted
      exact ⟨hrest.trans hcons.symm, hrestCounted⟩

/-- The texts a request is scanned as: every form of every field. -/
def requestTexts (urlDecode : String → Decoded) (input : RequestInput) : List String :=
  (requestFields input).flatMap (forms urlDecode)

namespace Prefilter

theorem markRequest_eq (urlDecode : String → Decoded) {p : Prefilter} (hac : p.ac = some search) :
    p.markRequest urlDecode input present =
      setAll ((requestTexts urlDecode input).flatMap (concerned search p.byNeedle)) present := by
  simp only [markRequest, hac]
  split
  case isTrue hzero => exact (setAll_full hzero).symm
  case isFalse =>
    have hfield : ∀ value m, Counted m →
        Marks ((forms urlDecode value).flatMap (concerned search p.byNeedle)) m
          (markField urlDecode search p.byNeedle value m) :=
      fun value m h => walk_marks (scan_marks search p.byNeedle) _ m h
    have hwalk := (walk_marks hfield (requestFields input) ⟨present, absent present⟩ rfl).1
    rw [hwalk, requestTexts, flatMap_assoc]

theorem markResponse_eq {p : Prefilter} (hac : p.ac = some search) :
    p.markResponse input present =
      setAll ((responseFields input).flatMap (concerned search p.byNeedle)) present := by
  simp only [markResponse, hac]
  split
  case isTrue hzero => exact (setAll_full hzero).symm
  case isFalse =>
    exact (walk_marks (scan_marks search p.byNeedle) (responseFields input)
      ⟨present, absent present⟩ rfl).1

end Prefilter

/-! ## A rule whose literal occurs is marked -/

/-- The needle has the place `id` and the rule `index` is gated on it. -/
def Files (id : Nat) (needle : String) (index : Nat) (b : Building) : Prop :=
  b.needles[id]? = some needle ∧ ∃ rules, b.byNeedle[id]? = some rules ∧ index ∈ rules

/-- Every needle has its list of rules. -/
def Balanced (b : Building) : Prop := b.byNeedle.length = b.needles.length

theorem fileNeedle_keeps {id i j : Nat} (h : Files id needle i b) :
    Files id needle i (fileNeedle j b other) := by
  obtain ⟨hneedle, rules, hrules, hi⟩ := h
  simp only [fileNeedle]
  split
  case h_1 place _ =>
    refine ⟨hneedle, ?_⟩
    by_cases hplace : place = id
    · subst hplace
      refine ⟨rules ++ [j], ?_, mem_append_left _ hi⟩
      simp [hrules]
    · exact ⟨rules, by simp [hplace, hrules], hi⟩
  case h_2 =>
    obtain ⟨hlt, -⟩ := List.getElem?_eq_some_iff.mp hneedle
    obtain ⟨hlt', -⟩ := List.getElem?_eq_some_iff.mp hrules
    exact ⟨by rw [getElem?_append_left hlt, hneedle], rules,
      by rw [getElem?_append_left hlt', hrules], hi⟩

theorem fileNeedle_balanced (index : Nat) (needle : String) (h : Balanced b) :
    Balanced (fileNeedle index b needle) := by
  simp only [fileNeedle]
  split
  · exact (length_modify ..).trans h
  · simp only [Balanced, length_append, length_singleton]
    rw [h]

theorem fileNeedle_files (index : Nat) (needle : String) (h : Balanced b) :
    ∃ id, Files id needle index (fileNeedle index b needle) := by
  simp only [fileNeedle]
  split
  case h_1 place hplace =>
    obtain ⟨hlt, hneedle, -⟩ := List.idxOf?_eq_some_iff.mp hplace
    have hbound : place < b.byNeedle.length := Nat.lt_of_lt_of_eq hlt h.symm
    have hplaced := getElem?_eq_getElem hbound
    refine ⟨place, by rw [getElem?_eq_getElem hlt, hneedle], b.byNeedle[place] ++ [index], ?_,
      mem_append_right _ (mem_singleton.mpr rfl)⟩
    simp [hplaced]
  case h_2 =>
    refine ⟨b.needles.length, by simp, [index], ?_, mem_singleton.mpr rfl⟩
    rw [← h]
    simp

theorem fileNeedles_spec (index : Nat) (literals : List String) (b : Building) (h : Balanced b) :
    Balanced (literals.foldl (fileNeedle index) b) ∧
      (∀ id needle i, Files id needle i b →
        Files id needle i (literals.foldl (fileNeedle index) b)) ∧
      (∀ l ∈ literals, ∃ id, Files id l index (literals.foldl (fileNeedle index) b)) ∧
      (literals.foldl (fileNeedle index) b).ungated = b.ungated := by
  induction literals generalizing b with
  | nil => exact ⟨h, fun _ _ _ hf => hf, (fun l hl => by cases hl), rfl⟩
  | cons literal literals ih =>
    obtain ⟨hbalanced, hkeeps, hfiles, hungated⟩ := ih _ (fileNeedle_balanced index literal h)
    refine ⟨hbalanced, fun id needle i hf => hkeeps id needle i (fileNeedle_keeps hf), ?_, ?_⟩
    · intro l hl
      rcases mem_cons.mp hl with rfl | hl
      · obtain ⟨id, hid⟩ := fileNeedle_files index l h
        exact ⟨id, hkeeps id l index hid⟩
      · exact hfiles l hl
    · refine hungated.trans ?_
      simp only [fileNeedle]
      split <;> rfl

/-- What one rule adds to the gate: a gated rule is filed under all its literals. -/
structure FileSpec (index : Nat) (b : Building) (required : Option (List String))
    (b' : Building) : Prop where
  balanced : Balanced b'
  keeps : ∀ id needle i, Files id needle i b → Files id needle i b'
  ungated : ∃ free, b'.ungated = b.ungated ++ [free] ∧ (free = false →
    ∃ literals, required = some literals ∧ ∀ l ∈ literals, ∃ id, Files id l index b')

theorem fileRule_spec (index : Nat) (required : Option (List String))
    (h : Balanced b) : FileSpec index b required (fileRule index b required) := by
  have hleft : FileSpec index b required (leaveUngated b) :=
    ⟨h, fun _ _ _ hf => hf, true, rfl, fun hfree => by cases hfree⟩
  cases required with
  | none => exact hleft
  | some literals =>
    simp only [fileRule]
    split
    · exact hleft
    split
    · exact hleft
    · obtain ⟨hbalanced, hkeeps, hfiles, hungated⟩ := fileNeedles_spec index literals b h
      exact ⟨hbalanced, hkeeps, false, by rw [hungated], fun _ => ⟨literals, rfl, hfiles⟩⟩

theorem fileRules_spec (start : Nat) (b : Building) (required : List (Option (List String)))
    (h : Balanced b) :
    (∀ id needle i, Files id needle i b → Files id needle i (fileRules start b required)) ∧
      ∃ free, (fileRules start b required).ungated = b.ungated ++ free ∧
        free.length = required.length ∧
        ∀ i, free[i]? = some false → ∃ literals, required[i]? = some (some literals) ∧
          ∀ l ∈ literals, ∃ id, Files id l (start + i) (fileRules start b required) := by
  induction required generalizing start b with
  | nil => exact ⟨fun _ _ _ hf => hf, [], (append_nil _).symm, rfl, fun i hi => by simp at hi⟩
  | cons r required ih =>
    have hrule := fileRule_spec start r h
    obtain ⟨hkeeps, free, hungated, hlength, hgated⟩ := ih (start + 1) _ hrule.balanced
    obtain ⟨first, hfirst, hliterals⟩ := hrule.ungated
    refine ⟨fun id needle i hf => hkeeps id needle i (hrule.keeps id needle i hf), first :: free,
      ?_, by simp [hlength], ?_⟩
    · simp only [fileRules]
      rw [hungated, hfirst, append_assoc]
      rfl
    intro i hi
    cases i with
    | zero =>
      obtain ⟨literals, hr, hfiles⟩ := hliterals (by simpa using hi)
      refine ⟨literals, by rw [hr]; rfl, fun l hl => ?_⟩
      obtain ⟨id, hid⟩ := hfiles l hl
      exact ⟨id, hkeeps id l start hid⟩
    | succ i =>
      obtain ⟨literals, hr, hfiles⟩ := hgated i (by simpa using hi)
      refine ⟨literals, hr, fun l hl => ?_⟩
      obtain ⟨id, hid⟩ := hfiles l hl
      exact ⟨id, by rw [← Nat.succ_add_eq_add_succ]; exact hid⟩

/-- The overlapping search of a built automaton reports every occurrence of every
needle, whatever the case of ASCII letters. -/
def Complete (automaton : List String → Option Search) : Prop :=
  ∀ needles search, automaton needles = some search → ∀ (id : Nat) needle text,
    needles[id]? = some needle → Text.occurs needle text = true → id ∈ search text

/-- The search that goes through all needles. -/
def searchAll (needles : List String) : Option Search :=
  some fun text => (List.range needles.length).filter fun id =>
    (needles[id]?).any fun needle => Text.occurs needle text

theorem searchAll_complete : Complete searchAll := by
  intro needles search hsearch id needle text hid hoccurs
  cases hsearch
  obtain ⟨hlt, -⟩ := List.getElem?_eq_some_iff.mp hid
  exact mem_filter.mpr ⟨mem_range.mpr hlt, by rw [hid]; exact hoccurs⟩

/-- A rule matches only where one of its literals occurs in one of the texts. -/
def Honours {ι : Type} (texts : ι → List String) (r : Rule ι) : Prop :=
  ∀ input hit, r.evaluate input = some hit → ∀ literals, r.requiredLiterals = some literals →
    ∃ l ∈ literals, ∃ text ∈ texts input, Text.occurs l text = true

/-- The rules marked after a walk over the texts. -/
def Marked (p : Prefilter) (texts : List String) (present marked : List Bool) : Prop :=
  (p.ac = none ∧ marked = present) ∨ ∃ search, p.ac = some search ∧
    marked = setAll (texts.flatMap (concerned search p.byNeedle)) present

theorem Marked.length (h : Marked p texts present marked) : marked.length = present.length := by
  rcases h with ⟨-, h⟩ | ⟨search, -, h⟩
  · rw [h]
  · rw [h, length_setAll]

theorem Marked.absent (h : Marked p texts present marked) {i : Nat} (hi : marked[i]? = some false) :
    present[i]? = some false := by
  rcases h with ⟨-, h⟩ | ⟨search, -, h⟩
  · rw [← h]; exact hi
  rw [h, getElem?_setAll] at hi
  split at hi
  · cases hi
  · exact hi

/-- Whether a rule is marked depends on nothing but whether it was before. -/
theorem Marked.getElem?_congr (h : Marked p texts present marked)
    (h' : Marked p texts present' marked') {i : Nat} (hi : present[i]? = present'[i]?) :
    marked[i]? = marked'[i]? := by
  have hbound : i < present.length ↔ i < present'.length := by
    rw [← Nat.not_le, ← Nat.not_le, ← List.getElem?_eq_none_iff, ← List.getElem?_eq_none_iff, hi]
  rcases h with ⟨hac, h⟩ | ⟨search, hac, h⟩ <;> rcases h' with ⟨hac', h'⟩ | ⟨search', hac', h'⟩
  · rw [h, h', hi]
  · rw [hac] at hac'; cases hac'
  · rw [hac] at hac'; cases hac'
  · rw [hac] at hac'
    cases hac'
    simp only [h, h', getElem?_setAll, hbound, hi]

namespace Prefilter

theorem markRequest_marked (urlDecode : String → Decoded) (p : Prefilter) (input : RequestInput)
    (present : List Bool) :
    Marked p (requestTexts urlDecode input) present (p.markRequest urlDecode input present) := by
  cases hac : p.ac with
  | none => exact .inl ⟨hac, by simp only [markRequest, hac]⟩
  | some search => exact .inr ⟨search, hac, markRequest_eq urlDecode hac⟩

theorem markResponse_marked (p : Prefilter) (input : ResponseInput) (present : List Bool) :
    Marked p (responseFields input) present (p.markResponse input present) := by
  cases hac : p.ac with
  | none => exact .inl ⟨hac, by simp only [markResponse, hac]⟩
  | some search => exact .inr ⟨search, hac, markResponse_eq hac⟩

section built

variable {ι : Type} (automaton : List String → Option Search) (rules : List (Rule ι))

/-- Without an automaton no rule is gated. -/
theorem build_cases :
    ((build automaton rules).ac = none ∧
      (build automaton rules).ungated = (fileAll rules).ungated.map fun _ => true) ∨
    ∃ search, (build automaton rules).ac = some search ∧
      automaton (fileAll rules).needles = some search ∧
      (build automaton rules).ungated = (fileAll rules).ungated := by
  simp only [build]
  cases hac : (if (fileAll rules).needles.isEmpty then none else automaton (fileAll rules).needles) with
  | none => exact .inl ⟨rfl, rfl⟩
  | some search =>
    refine .inr ⟨search, rfl, ?_, rfl⟩
    split at hac
    · cases hac
    · exact hac

theorem length_ungated : (build automaton rules).ungated.length = rules.length := by
  obtain ⟨-, free, hungated, hlength, -⟩ :=
    fileRules_spec 0 ⟨[], [], []⟩ (rules.map Rule.requiredLiterals) rfl
  have hfiled : (fileAll rules).ungated.length = rules.length := by
    rw [fileAll, hungated]
    simpa using hlength
  rcases build_cases automaton rules with ⟨-, h⟩ | ⟨search, -, -, h⟩
  · rw [h, length_map, hfiled]
  · rw [h, hfiled]

/-- A rule left out by the walk names literals, and none of them occurs in a text
that was walked. -/
theorem literals_absent (hcomplete : Complete automaton)
    (hmarked : Marked (build automaton rules) texts present marked)
    (hstart : ∀ i : Nat, (build automaton rules).ungated[i]? = some true → present[i]? = some true)
    {i : Nat} (hr : rules[i]? = some r) (habsent : marked[i]? = some false) :
    ∃ literals, r.requiredLiterals = some literals ∧
      ∀ l ∈ literals, ∀ text ∈ texts, Text.occurs l text = false := by
  obtain ⟨-, free, hungated, -, hspec⟩ :=
    fileRules_spec 0 ⟨[], [], []⟩ (rules.map Rule.requiredLiterals) rfl
  obtain ⟨hlt, -⟩ := List.getElem?_eq_some_iff.mp hr
  have hgated : (build automaton rules).ungated[i]? = some false := by
    have hbound : i < (build automaton rules).ungated.length := by rw [length_ungated]; exact hlt
    have hsome := getElem?_eq_getElem hbound
    cases hb : (build automaton rules).ungated[i] with
    | false => rw [hsome, hb]
    | true =>
      have htrue := hstart i (by rw [hsome, hb])
      rw [hmarked.absent habsent] at htrue
      cases htrue
  rcases build_cases automaton rules with ⟨-, h⟩ | ⟨search, hac, hmade, h⟩
  · rw [h, getElem?_map] at hgated
    obtain ⟨b, -, hb⟩ := Option.map_eq_some_iff.mp hgated
    cases hb
  rw [h, fileAll, hungated, nil_append] at hgated
  obtain ⟨literals, hliterals, hfiles⟩ := hspec i hgated
  rw [getElem?_map, hr, Option.map_some] at hliterals
  refine ⟨literals, Option.some.inj hliterals, fun l hl text htext => ?_⟩
  by_contra hoccurs
  obtain ⟨id, hneedle, filed, hfiled, hi⟩ := hfiles l hl
  rw [Nat.zero_add] at hi
  have hfound := hcomplete _ search hmade id l text hneedle (Bool.not_eq_false _ ▸ hoccurs)
  have hby : (build automaton rules).byNeedle[id]? = some filed := hfiled
  have hconcerned : i ∈ texts.flatMap (concerned search (build automaton rules).byNeedle) :=
    mem_flatMap.mpr ⟨text, htext, mem_flatMap.mpr ⟨id, hfound, by rw [hby]; exact hi⟩⟩
  rcases hmarked with ⟨hnone, -⟩ | ⟨search', hac', hset⟩
  · rw [hac] at hnone; cases hnone
  rw [hac] at hac'
  cases hac'
  obtain ⟨hbound, -⟩ := List.getElem?_eq_some_iff.mp habsent
  rw [hset, length_setAll] at hbound
  rw [hset, getElem?_setAll, if_pos ⟨hconcerned, hbound⟩] at habsent
  cases habsent

/-- A rule left out by the walk does not match. -/
theorem silent_of_absent (hcomplete : Complete automaton)
    (hmarked : Marked (build automaton rules) (texts input) present marked)
    (hstart : ∀ i : Nat, (build automaton rules).ungated[i]? = some true → present[i]? = some true)
    {i : Nat} (hr : rules[i]? = some r) (hhonours : Honours texts r)
    (habsent : marked[i]? = some false) : r.evaluate input = none := by
  obtain ⟨literals, hliterals, hnone⟩ := literals_absent automaton rules hcomplete hmarked hstart hr habsent
  cases hev : r.evaluate input with
  | none => rfl
  | some hit =>
    obtain ⟨l, hl, text, htext, hoccurs⟩ := hhonours input hit hev literals hliterals
    rw [hnone l hl text htext] at hoccurs
    cases hoccurs

end built

end Prefilter

end WafPrefilter
