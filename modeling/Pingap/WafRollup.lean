import Mathlib.Algebra.Ring.Int.Defs
import Mathlib.Data.List.Dedup
import Pingap.OrderedMap

/-!
# Rollups of firewall events

Stored events are counted into buckets of a minute, for every node apart: how many
there were, how many of them were enforced, and how many each rule and each category
produced. The rows of a bucket add up to the events that were fed in.
-/

namespace WafRollup

open List

/-! ## Events and rows -/

/-- A stored event, as far as it is counted. -/
structure WafEvent where
  id : Nat
  node : String
  ruleId : Option Nat
  category : Option String
  blocked : Bool
  createdAt : Int
deriving DecidableEq, Repr

inductive Metric where
  | findings
  | blocks
  | rule (id : Nat)
  | category (key : String)
deriving DecidableEq, Repr

def Metric.covers (e : WafEvent) : Metric → Bool
  | .findings => true
  | .blocks => e.blocked
  | .rule id => e.ruleId == some id
  | .category key => e.category == some key

structure NewMetric where
  node : String
  metric : Metric
  value : Nat
  bucketStart : Int
deriving DecidableEq, Repr

/-! ## Buckets -/

def DEFAULT_BUCKET_SECS : Int := 60

def bucketStart (createdAt bucketSecs : Int) : Int :=
  if bucketSecs ≤ 0 then createdAt else createdAt / bucketSecs * bucketSecs

structure Bucket where
  findings : Nat
  blocks : Nat
  rules : KeyedMap Nat Nat
  categories : KeyedMap String Nat

def Bucket.empty : Bucket := ⟨0, 0, ∅, ∅⟩

/-- Count one more under a key. -/
def bump {κ : Type} [DecidableEq κ] (m : KeyedMap κ Nat) : Option κ → KeyedMap κ Nat
  | none => m
  | some key => m.insert key ((m.lookup key).getD 0 + 1)

def Bucket.absorb (b : Bucket) (e : WafEvent) : Bucket where
  findings := b.findings + 1
  blocks := if e.blocked then b.blocks + 1 else b.blocks
  rules := bump b.rules e.ruleId
  categories := bump b.categories e.category

/-- Put an event into its bucket, which is made at the end when it is new. -/
def addEvent (start : Int) (e : WafEvent) : List (Int × Bucket) → List (Int × Bucket)
  | [] => [(start, Bucket.empty.absorb e)]
  | (key, b) :: rest =>
    if key = start then (key, b.absorb e) :: rest else (key, b) :: addEvent start e rest

def bucketsOf (events : List WafEvent) (bucketSecs : Int) : List (Int × Bucket) :=
  events.foldl (fun buckets e => addEvent (bucketStart e.createdAt bucketSecs) e buckets) []

/-- The rows of one bucket. -/
def bucketRows (node : String) (entry : Int × Bucket) : List NewMetric :=
  let row := fun metric value => (⟨node, metric, value, entry.1⟩ : NewMetric)
  row .findings entry.2.findings :: row .blocks entry.2.blocks ::
    ((AList.inOrder entry.2.rules).map fun r => row (.rule r.1) r.2) ++
    (AList.inOrder entry.2.categories).map fun c => row (.category c.1) c.2

def rollup (events : List WafEvent) (bucketSecs : Int) (node : String) : List NewMetric :=
  let secs := if 0 < bucketSecs then bucketSecs else DEFAULT_BUCKET_SECS
  (bucketsOf events secs).flatMap (bucketRows node)

/-! ## Totals -/

/-- What some rows say of a metric of a node in a bucket. -/
def total (node : String) (bucket : Int) (metric : Metric) (rows : List NewMetric) : Nat :=
  (rows.map fun row =>
    if row.node = node ∧ row.bucketStart = bucket ∧ row.metric = metric then row.value else 0).sum

section totals

variable {node : String} {bucket : Int} {metric : Metric}

@[simp] theorem total_nil : total node bucket metric [] = 0 := rfl

@[simp] theorem total_append :
    total node bucket metric (rows ++ rows') =
      total node bucket metric rows + total node bucket metric rows' := by
  rw [total, map_append, sum_append]
  rfl

@[simp] theorem total_cons :
    total node bucket metric (row :: rows) =
      (if row.node = node ∧ row.bucketStart = bucket ∧ row.metric = metric then row.value else 0) +
        total node bucket metric rows := by
  rw [total, map_cons, sum_cons]
  rfl

/-- Rows of other nodes, buckets or metrics add nothing. -/
theorem total_eq_zero
    (h : ∀ row ∈ rows, ¬ (row.node = node ∧ row.bucketStart = bucket ∧ row.metric = metric)) :
    total node bucket metric rows = 0 := by
  rw [total, sum_eq_zero]
  intro value hvalue
  obtain ⟨row, hrow, rfl⟩ := mem_map.mp hvalue
  exact if_neg (h row hrow)

/-- Rows of other buckets may be removed. -/
theorem total_filter (hkeep : ∀ row ∈ rows, row.bucketStart = bucket → keep row = true) :
    total node bucket metric (rows.filter keep) = total node bucket metric rows := by
  induction rows with
  | nil => rfl
  | cons row rows ih =>
    obtain ⟨hrow, hrows⟩ := forall_mem_cons.mp hkeep
    by_cases hkept : keep row = true
    · rw [filter_cons_of_pos hkept, total_cons, total_cons, ih hrows]
    · rw [filter_cons_of_neg hkept, total_cons, ih hrows,
        if_neg fun heq => hkept (hrow heq.2.1), Nat.zero_add]

/-- The sum of the counts under a key. -/
def sumOf {κ : Type} [DecidableEq κ] (key : κ) (rows : List (κ × Nat)) : Nat :=
  (rows.map fun row => if row.1 = key then row.2 else 0).sum

theorem sumOf_absent [DecidableEq κ] {rows : List (κ × Nat)} (h : key ∉ rows.map Prod.fst) :
    sumOf key rows = 0 := by
  rw [sumOf, sum_eq_zero]
  intro value hvalue
  obtain ⟨row, hrow, rfl⟩ := mem_map.mp hvalue
  exact if_neg fun heq => h (mem_map.mpr ⟨row, hrow, heq⟩)

/-- In a map the sum is what stands under the key. -/
theorem sumOf_inOrder [DecidableEq κ] [LE κ] [DecidableLE κ]
    {m : KeyedMap κ Nat} : sumOf key (AList.inOrder m) = (m.lookup key).getD 0 := by
  cases hlookup : m.lookup key with
  | none =>
    refine sumOf_absent fun hmem => ?_
    obtain ⟨⟨key', value⟩, hrow, rfl⟩ := mem_map.mp hmem
    rw [AList.mem_inOrder.mp hrow] at hlookup
    cases hlookup
  | some value =>
    have hnodup := AList.nodup_keys_inOrder m
    obtain ⟨before, after, hsplit⟩ := append_of_mem (AList.mem_inOrder.mpr hlookup)
    rw [hsplit, map_append, map_cons, nodup_middle] at hnodup
    have hnot := (List.nodup_cons.mp hnodup).1
    rw [mem_append, not_or] at hnot
    have hbefore := sumOf_absent hnot.1
    have hafter := sumOf_absent hnot.2
    rw [sumOf] at hbefore hafter
    rw [hsplit, sumOf, map_append, sum_append, map_cons, sum_cons, hbefore, hafter, if_pos rfl]
    simp

/-- What a bucket counts under a metric. -/
def Bucket.value (b : Bucket) : Metric → Nat
  | .findings => b.findings
  | .blocks => b.blocks
  | .rule id => (b.rules.lookup id).getD 0
  | .category key => (b.categories.lookup key).getD 0

theorem lookup_bump [DecidableEq κ] {key : κ} :
    ((bump m added).lookup key).getD 0 =
      (m.lookup key).getD 0 + if added = some key then 1 else 0 := by
  cases added with
  | none => rfl
  | some other =>
    rw [bump, AList.lookup_insert_if]
    by_cases heq : key = other
    · rw [if_pos heq, heq, if_pos rfl]
      rfl
    · rw [if_neg heq, if_neg fun h => heq (Option.some.inj h).symm]
      rfl

theorem value_empty : Bucket.empty.value metric = 0 := by
  cases metric <;> simp [Bucket.value, Bucket.empty]

/-- An event adds one to what covers it. -/
theorem value_absorb {b : Bucket} :
    (b.absorb e).value metric = b.value metric + if metric.covers e = true then 1 else 0 := by
  cases metric with
  | findings => rfl
  | blocks =>
    simp only [Bucket.value, Bucket.absorb, Metric.covers]
    by_cases hblocked : e.blocked = true <;> simp [hblocked]
  | rule | category =>
    simp only [Bucket.value, Bucket.absorb, Metric.covers, lookup_bump, beq_iff_eq]

/-- A family of metrics with a key each: the rows of a metric that is one of them. -/
theorem total_family [DecidableEq κ] (hinj : Function.Injective family) (key : κ)
    (rows : List (κ × Nat)) :
    total node bucket (family key) (rows.map fun row => ⟨node, family row.1, row.2, bucket⟩) =
      sumOf key rows := by
  rw [total, sumOf, map_map]
  refine congrArg sum (map_congr_left fun row _ => ?_)
  simp only [Function.comp_apply, true_and, hinj.eq_iff]

theorem total_other {family : κ → Metric} (hne : ∀ key, family key ≠ metric) (rows : List (κ × Nat))
    (node' : String) (start : Int) :
    total node bucket metric (rows.map fun row => ⟨node', family row.1, row.2, start⟩) = 0 := by
  refine total_eq_zero fun row hrow heq => ?_
  obtain ⟨entry, -, rfl⟩ := mem_map.mp hrow
  exact hne entry.1 heq.2.2

/-- The rows of a bucket say what it counts. -/
theorem total_bucketRows_self :
    total node entry.1 metric (bucketRows node entry) = entry.2.value metric := by
  have hrule : Function.Injective Metric.rule := fun _ _ => Metric.rule.inj
  have hcategory : Function.Injective Metric.category := fun _ _ => Metric.category.inj
  rw [bucketRows, cons_append, cons_append, total_cons, total_cons, total_append]
  cases metric with
  | findings | blocks =>
    rw [total_other (fun _ => Metric.noConfusion), total_other (fun _ => Metric.noConfusion)]
    simp [Bucket.value]
  | rule id =>
    rw [total_family hrule, total_other (fun _ => Metric.noConfusion), sumOf_inOrder]
    simp [Bucket.value]
  | category key =>
    rw [total_other (fun _ => Metric.noConfusion), total_family hcategory, sumOf_inOrder]
    simp [Bucket.value]

theorem mem_bucketRows (hrow : row ∈ bucketRows node' entry) :
    row.node = node' ∧ row.bucketStart = entry.1 := by
  simp only [bucketRows, cons_append, mem_cons, mem_append, mem_map] at hrow
  rcases hrow with rfl | rfl | ⟨_, _, rfl⟩ | ⟨_, _, rfl⟩ <;> exact ⟨rfl, rfl⟩

theorem total_bucketRows :
    total node bucket metric (bucketRows node entry) =
      if entry.1 = bucket then entry.2.value metric else 0 := by
  split
  · rename_i heq
    rw [← heq, total_bucketRows_self]
  rename_i hne
  refine total_eq_zero fun row hrow heq => hne ?_
  rw [← (mem_bucketRows hrow).2, heq.2.1]

/-- What a list of buckets counts. -/
def bucketsValue (bucket : Int) (metric : Metric) (buckets : List (Int × Bucket)) : Nat :=
  (buckets.map fun entry => if entry.1 = bucket then entry.2.value metric else 0).sum

theorem total_buckets :
    total node bucket metric (buckets.flatMap (bucketRows node)) =
      bucketsValue bucket metric buckets := by
  induction buckets with
  | nil => rfl
  | cons entry rest ih =>
    rw [flatMap_cons, total_append, total_bucketRows, ih]
    rfl

theorem bucketsValue_addEvent :
    bucketsValue bucket metric (addEvent start e buckets) = bucketsValue bucket metric buckets +
      if start = bucket ∧ metric.covers e = true then 1 else 0 := by
  induction buckets with
  | nil =>
    by_cases hstart : start = bucket
    · simp [addEvent, bucketsValue, hstart, value_absorb, value_empty]
    · simp [addEvent, bucketsValue, hstart]
  | cons entry rest ih =>
    obtain ⟨key, b⟩ := entry
    rw [addEvent]
    split
    · rename_i hkey
      subst hkey
      by_cases hstart : key = bucket
      · simp only [bucketsValue, map_cons, sum_cons, hstart, if_true, value_absorb, true_and]
        omega
      · simp [bucketsValue, hstart]
    · simp only [bucketsValue, map_cons, sum_cons] at ih ⊢
      rw [ih, Nat.add_assoc]

/-- The rows of a rollup add up to the events that were fed in. -/
theorem total_rollup :
    total node bucket metric (rollup events DEFAULT_BUCKET_SECS node) = events.countP fun e =>
      decide (bucketStart e.createdAt DEFAULT_BUCKET_SECS = bucket) && metric.covers e := by
  have hfold : ∀ (rest : List WafEvent) (buckets : List (Int × Bucket)),
      bucketsValue bucket metric (rest.foldl (fun buckets e =>
        addEvent (bucketStart e.createdAt DEFAULT_BUCKET_SECS) e buckets) buckets) =
      bucketsValue bucket metric buckets + rest.countP fun e =>
        decide (bucketStart e.createdAt DEFAULT_BUCKET_SECS = bucket) && metric.covers e := by
    intro rest
    induction rest with
    | nil => exact fun buckets => rfl
    | cons e rest ih =>
      intro buckets
      rw [foldl_cons, ih, bucketsValue_addEvent, countP_cons, Nat.add_assoc,
        Nat.add_comm (countP _ rest)]
      simp only [Bool.and_eq_true, decide_eq_true_eq]
  have hsecs : (if 0 < DEFAULT_BUCKET_SECS then DEFAULT_BUCKET_SECS else DEFAULT_BUCKET_SECS) =
      DEFAULT_BUCKET_SECS := ite_self _
  rw [rollup, hsecs, total_buckets, bucketsOf, hfold]
  exact Nat.zero_add _

end totals

/-! ## The buckets of a rollup -/

theorem mem_addEvent :
    key ∈ (addEvent start e buckets).map Prod.fst ↔ key ∈ buckets.map Prod.fst ∨ key = start := by
  induction buckets with
  | nil => simp [addEvent]
  | cons entry rest ih =>
    rw [addEvent]
    split
    · rename_i hkey
      simp only [map_cons, mem_cons]
      constructor
      · exact .inl
      · rintro (h | rfl)
        · exact h
        · exact .inl hkey.symm
    · rw [map_cons, mem_cons, ih, map_cons, mem_cons, or_assoc]

theorem mem_bucketsOf :
    key ∈ (bucketsOf events secs).map Prod.fst ↔ ∃ e ∈ events, bucketStart e.createdAt secs = key := by
  have hfold : ∀ (rest : List WafEvent) (buckets : List (Int × Bucket)),
      key ∈ (rest.foldl (fun buckets e => addEvent (bucketStart e.createdAt secs) e buckets)
        buckets).map Prod.fst ↔
      key ∈ buckets.map Prod.fst ∨ ∃ e ∈ rest, bucketStart e.createdAt secs = key := by
    intro rest
    induction rest with
    | nil => simp
    | cons e rest ih =>
      intro buckets
      rw [foldl_cons, ih, mem_addEvent, exists_mem_cons_iff, or_assoc,
        eq_comm (a := key) (b := bucketStart e.createdAt secs)]
  rw [bucketsOf, hfold]
  simp

/-- The rows of a rollup are those of its node, in the buckets of its events. -/
theorem rollup_bucket (hrow : row ∈ rollup events DEFAULT_BUCKET_SECS node) :
    row.node = node ∧ ∃ e ∈ events, bucketStart e.createdAt DEFAULT_BUCKET_SECS = row.bucketStart := by
  obtain ⟨entry, hentry, hmem⟩ := mem_flatMap.mp hrow
  obtain ⟨hnode, hstart⟩ := mem_bucketRows hmem
  rw [hstart]
  exact ⟨hnode, mem_bucketsOf.mp (mem_map_of_mem hentry)⟩

/-- Every event has a row in its bucket. -/
theorem exists_row (he : e ∈ events) (node : String) :
    ∃ row ∈ rollup events DEFAULT_BUCKET_SECS node,
      row.node = node ∧ row.bucketStart = bucketStart e.createdAt DEFAULT_BUCKET_SECS := by
  have hkey : bucketStart e.createdAt DEFAULT_BUCKET_SECS ∈
      (bucketsOf events DEFAULT_BUCKET_SECS).map Prod.fst := mem_bucketsOf.mpr ⟨e, he, rfl⟩
  obtain ⟨entry, hentry, hstart⟩ := mem_map.mp hkey
  refine ⟨⟨node, .findings, entry.2.findings, entry.1⟩, ?_, rfl, hstart⟩
  exact mem_flatMap.mpr ⟨entry, hentry, mem_cons_self⟩

end WafRollup
