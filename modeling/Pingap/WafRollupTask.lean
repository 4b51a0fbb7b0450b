import Pingap.Trace
import Pingap.WafRollup

/-!
# The rollup task

The task reads the rows there are, takes the newest bucket of every node from them,
reads the events of the last day, and rolls up those that came later. Rows are read
from the oldest on and events from the newest on, each up to a limit. Events may be
stored at any time, also between the reads of a tick and the write of its rows.
-/

namespace WafRollupTask

open WafRollup List

def ROLLUP_EVENT_WINDOW_SECS : Int := 24 * 60 * 60
def ROLLUP_READ_LIMIT : Nat := 10000

/-- Retention of events and of rows. -/
def DEFAULT_WAF_EVENTS : Int := 7 * 24 * 3600
def DEFAULT_PERFORMANCE_METRICS : Int := 90 * 24 * 3600

structure MetricRow extends NewMetric where
  id : Nat
deriving DecidableEq, Repr

/-- The rows of a tick that are not written yet, and the events they count. -/
structure Pending where
  now : Int
  batch : List WafEvent
  rows : List NewMetric

structure Sys where
  events : List WafEvent
  rows : List MetricRow
  pending : Option Pending
  /-- The ids that events have had. They are drawn at random, and none is drawn twice. -/
  drawn : List Nat
  /-- The clock of the last tick. No operation reads this, nor the two lists below. -/
  readAt : Option Int
  /-- The events in the window of the last tick, unless it failed. -/
  due : List WafEvent
  /-- The events counted so far, as often as they were. -/
  counted : List WafEvent

def Sys.start : Sys := ⟨[], [], none, [], none, [], []⟩

/-! ## Reads -/

/-- The first and the last second that a tick looks at. -/
def rollupWindow (now : Int) : Int × Int :=
  let last := bucketStart now DEFAULT_BUCKET_SECS - 1
  (bucketStart (last - (ROLLUP_EVENT_WINDOW_SECS - 1)) DEFAULT_BUCKET_SECS, last)

def inWindow (now : Int) (e : WafEvent) : Bool :=
  decide ((rollupWindow now).1 ≤ e.createdAt) && decide (e.createdAt ≤ (rollupWindow now).2)

/-- `read_performance_metrics`: oldest first. -/
def readMetrics (s : Sys) (now : Int) : List MetricRow :=
  ((s.rows.filter fun row => decide (now - DEFAULT_PERFORMANCE_METRICS ≤ row.bucketStart)).insertionSort
    fun a b => a.bucketStart < b.bucketStart ∨ (a.bucketStart = b.bucketStart ∧ a.id ≤ b.id)).take
      ROLLUP_READ_LIMIT

/-- `read_waf_events`: newest first. -/
def readEvents (s : Sys) (now : Int) : List WafEvent :=
  ((s.events.filter (inWindow now)).insertionSort
    fun a b => b.createdAt < a.createdAt ∨ (b.createdAt = a.createdAt ∧ b.id ≤ a.id)).take
      ROLLUP_READ_LIMIT

/-- The newest bucket of every node among some rows. -/
def latest (rows : List MetricRow) : KeyedMap String Int :=
  rows.foldl (fun m row =>
    m.insert row.node (((m.lookup row.node).map (max row.bucketStart)).getD row.bucketStart)) ∅

/-- The event came after the newest bucket of its node. -/
def isFresh (latest : KeyedMap String Int) (e : WafEvent) : Bool :=
  ((latest.lookup e.node).map fun bucket =>
    decide (bucket + DEFAULT_BUCKET_SECS ≤ e.createdAt)).getD true

/-- The rows of a tick, node by node. -/
def rollupByNode (events : List WafEvent) (fresh : WafEvent → Bool) : List NewMetric :=
  (events.map WafEvent.node).dedup.flatMap fun node =>
    rollup ((events.filter fun e => e.node = node).filter fresh) DEFAULT_BUCKET_SECS node

/-! ## Steps -/

inductive Step where
  | store (events : List WafEvent)
  | read (now : Int)
  | record (ids : Nat → Nat)
  | fail

/-- `record_waf_events`, one transaction: a taken id undoes all of it. -/
def Sys.store (s : Sys) (events : List WafEvent) : Sys :=
  if (events.map WafEvent.id).Nodup ∧ ∀ e ∈ events, e.id ∉ s.drawn then
    { s with events := s.events ++ events, drawn := s.drawn ++ events.map WafEvent.id }
  else s

/-- The first half of `WafMetricsTask::execute`. -/
def Sys.read (s : Sys) (now : Int) : Sys :=
  let fresh := isFresh (latest (readMetrics s now))
  let events := readEvents s now
  { s with
    pending := some ⟨now, events.filter fresh, rollupByNode events fresh⟩
    readAt := some now
    due := s.events.filter (inWindow now) }

/-- The second half: the rows are written, and what is too old is removed. -/
def Sys.record (s : Sys) (ids : Nat → Nat) (p : Pending) : Sys :=
  let rows := s.rows ++ p.rows.zipIdx.map fun row => ⟨row.1, ids row.2⟩
  { s with
    events := s.events.filter fun e => decide (max (p.now - DEFAULT_WAF_EVENTS) 0 ≤ e.createdAt)
    rows := rows.filter fun row =>
      decide (max (p.now - DEFAULT_PERFORMANCE_METRICS) 0 ≤ row.bucketStart)
    pending := none
    counted := s.counted ++ p.batch }

/-- The rows could not be written. -/
def Sys.fail (s : Sys) : Sys := { s with pending := none, due := [] }

/-- The task is one thread: it reads only when it has written, and the other way round. -/
def step (s : Sys) : Step → Unit × Sys
  | .store events => ((), s.store events)
  | .read now => ((), if s.pending.isNone then s.read now else s)
  | .record ids => ((), s.pending.elim s (s.record ids))
  | .fail => ((), s.pending.elim s fun _ => s.fail)

def run (steps : List Step) : Sys := Trace.final step Sys.start steps

def Sys.tick (s : Sys) (now : Int) (ids : Nat → Nat) : Sys := (step (step s (.read now)).2 (.record ids)).2

/-! ## Windows and reads -/

theorem bucketStart_eq : bucketStart t DEFAULT_BUCKET_SECS = t / 60 * 60 := rfl

theorem rollupWindow_eq :
    rollupWindow now = (now / 60 * 60 - 86400, now / 60 * 60 - 1) := by
  simp only [rollupWindow, bucketStart_eq, ROLLUP_EVENT_WINDOW_SECS, Prod.mk.injEq, and_true]
  omega

theorem inWindow_iff :
    inWindow now e = true ↔
    now / 60 * 60 - 86400 ≤ e.createdAt ∧ e.createdAt < now / 60 * 60 := by
  rw [inWindow, rollupWindow_eq, Bool.and_eq_true, decide_eq_true_eq, decide_eq_true_eq]
  exact and_congr_right fun _ => Int.le_sub_one_iff

theorem mem_readMetrics (h : row ∈ readMetrics s now) : row ∈ s.rows :=
  (mem_filter.mp ((mem_insertionSort _).mp (mem_of_mem_take h))).1

theorem mem_readEvents (h : e ∈ readEvents s now) : e ∈ s.events ∧ inWindow now e = true :=
  mem_filter.mp ((mem_insertionSort _).mp (mem_of_mem_take h))

theorem nodup_readEvents (hs : s.events.Nodup) (now : Int) : (readEvents s now).Nodup := by
  refine Nodup.sublist (take_sublist _ _) ?_
  exact (perm_insertionSort _ _).nodup_iff.mpr (hs.filter _)

/-- The event is later than every one of these rows of its node. -/
def Later (rows : List NewMetric) (e : WafEvent) : Prop :=
  ∀ row ∈ rows, row.node = e.node → row.bucketStart + 60 ≤ e.createdAt

instance (rows : List NewMetric) (e : WafEvent) : Decidable (Later rows e) :=
  inferInstanceAs (Decidable (∀ row ∈ rows, row.node = e.node → row.bucketStart + 60 ≤ e.createdAt))

theorem isFresh_insert {m : KeyedMap String Int} {row : MetricRow} {e : WafEvent} :
    isFresh (m.insert row.node (((m.lookup row.node).map (max row.bucketStart)).getD row.bucketStart))
        e = true ↔
      isFresh m e = true ∧ (row.node = e.node → row.bucketStart + 60 ≤ e.createdAt) := by
  have hsecs : DEFAULT_BUCKET_SECS = 60 := rfl
  simp only [isFresh, AList.lookup_insert_if]
  by_cases hnode : e.node = row.node
  · rw [if_pos hnode, hnode]
    cases m.lookup row.node with
    | none => simp [hsecs]
    | some bucket =>
      simp only [Option.map_some, Option.getD_some, decide_eq_true_eq, true_implies]
      omega
  · rw [if_neg hnode]
    simp [Ne.symm hnode]

theorem isFresh_latest {rows : List MetricRow} :
    isFresh (latest rows) e = true ↔ Later (rows.map MetricRow.toNewMetric) e := by
  have hfold : ∀ (rest : List MetricRow) (m : KeyedMap String Int),
      isFresh (rest.foldl (fun m row => m.insert row.node
        (((m.lookup row.node).map (max row.bucketStart)).getD row.bucketStart)) m) e = true ↔
      isFresh m e = true ∧ Later (rest.map MetricRow.toNewMetric) e := by
    intro rest
    induction rest with
    | nil => simp [Later]
    | cons row rest ih =>
      intro m
      rw [foldl_cons, ih, isFresh_insert, map_cons, Later, Later, forall_mem_cons, and_assoc]
  rw [latest, hfold]
  exact and_iff_right rfl

/-! ## The rows of a tick -/

section rows

variable {events : List WafEvent} {fresh : WafEvent → Bool}

theorem rollupByNode_bucket (hrow : row ∈ rollupByNode events fresh) :
    ∃ e ∈ events.filter fresh, e.node = row.node ∧ e.createdAt / 60 * 60 = row.bucketStart := by
  obtain ⟨node, -, hmem⟩ := mem_flatMap.mp hrow
  obtain ⟨hnode, e, he, hstart⟩ := rollup_bucket hmem
  obtain ⟨hnodes, hfresh⟩ := mem_filter.mp he
  obtain ⟨hevent, hown⟩ := mem_filter.mp hnodes
  refine ⟨e, mem_filter.mpr ⟨hevent, hfresh⟩, ?_, hstart⟩
  rw [hnode]
  exact of_decide_eq_true hown

theorem exists_rollupByNode (he : e ∈ events.filter fresh) :
    ∃ row ∈ rollupByNode events fresh,
      row.node = e.node ∧ row.bucketStart = e.createdAt / 60 * 60 := by
  obtain ⟨hevent, hfresh⟩ := mem_filter.mp he
  have hown : e ∈ (events.filter fun other => other.node = e.node).filter fresh :=
    mem_filter.mpr ⟨mem_filter.mpr ⟨hevent, decide_eq_true rfl⟩, hfresh⟩
  obtain ⟨row, hrow, hnode, hstart⟩ := exists_row hown e.node
  refine ⟨row, mem_flatMap.mpr ⟨e.node, ?_, hrow⟩, hnode, hstart⟩
  exact mem_dedup.mpr (mem_map_of_mem hevent)

/-- How many of some events a row of a node and a bucket counts. -/
def tallyOf (node : String) (bucket : Int) (metric : Metric) (events : List WafEvent) : Nat :=
  events.countP fun e =>
    decide (e.node = node) && (decide (e.createdAt / 60 * 60 = bucket) && metric.covers e)

/-- The rows of a tick add up to the events it counts. -/
theorem total_rollupByNode :
    total node bucket metric (rollupByNode events fresh) =
      tallyOf node bucket metric (events.filter fresh) := by
  have hown : ∀ own, total node bucket metric (rollup ((events.filter fun e => e.node = own).filter
      fresh) DEFAULT_BUCKET_SECS own) =
        if own = node then tallyOf node bucket metric (events.filter fresh) else 0 := by
    intro own
    split
    · rename_i heq
      subst heq
      rw [total_rollup, tallyOf, filter_filter, countP_filter, countP_filter]
      refine countP_congr fun e _ => ?_
      rw [bucketStart_eq]
      simp only [Bool.and_eq_true, decide_eq_true_eq]
      tauto
    · rename_i hne
      exact total_eq_zero fun row hrow heq => hne ((rollup_bucket hrow).1.symm.trans heq.1)
  have hsum : ∀ nodes : List String, nodes.Nodup →
      total node bucket metric (nodes.flatMap fun own => rollup ((events.filter fun e =>
        e.node = own).filter fresh) DEFAULT_BUCKET_SECS own) =
      if node ∈ nodes then tallyOf node bucket metric (events.filter fresh) else 0 := by
    intro nodes
    induction nodes with
    | nil => exact fun _ => rfl
    | cons own rest ih =>
      intro hnodup
      obtain ⟨hnot, hnodup⟩ := List.nodup_cons.mp hnodup
      rw [flatMap_cons, total_append, hown, ih hnodup]
      by_cases heq : own = node
      · subst heq
        simp [hnot]
      · simp [heq, Ne.symm heq]
  rw [rollupByNode, hsum _ (nodup_dedup _)]
  split
  · rfl
  rename_i hnot
  refine (countP_eq_zero.mpr fun e he hmatch => hnot ?_).symm
  rw [Bool.and_eq_true, decide_eq_true_eq] at hmatch
  rw [mem_dedup, ← hmatch.1]
  exact mem_map_of_mem (mem_filter.mp he).1

end rows

/-! ## What is rolled up -/

/-- The rows that are written or about to be. -/
def Sys.rolled (s : Sys) : List NewMetric :=
  s.rows.map MetricRow.toNewMetric ++ (s.pending.map Pending.rows).getD []

/-- The events that are counted or about to be. -/
def Sys.tally (s : Sys) : List WafEvent := s.counted ++ (s.pending.map Pending.batch).getD []

/-- The start of the window of the last tick. -/
def Sys.since (s : Sys) (t : Int) : Prop := ∀ now, s.readAt = some now → now / 60 * 60 - 86400 ≤ t

/-- The rows that the last tick kept. -/
def Sys.keeps (s : Sys) (bucket : Int) : Prop :=
  ∀ now, s.readAt = some now → max (now - DEFAULT_PERFORMANCE_METRICS) 0 ≤ bucket

/-- Every event is counted at most once, and in the window of the last tick those are
counted that are not later than the rows of their node. -/
structure Exact (s : Sys) : Prop where
  nodup : s.events.Nodup
  drawn : ∀ e, e ∈ s.events ∨ e ∈ s.tally → e.id ∈ s.drawn
  once : s.tally.Nodup
  pendingAt : ∀ p, s.pending = some p → s.readAt = some p.now
  complete : ∀ row ∈ s.rolled, row.bucketStart % 60 = 0 ∧
    ∃ now, s.readAt = some now ∧ row.bucketStart + 60 ≤ now / 60 * 60
  counts : ∀ e ∈ s.events, s.since e.createdAt → (e ∈ s.tally ↔ ¬ Later s.rolled e)
  due : ∀ e ∈ s.due, e ∈ s.tally
  totals : ∀ node bucket metric, s.keeps bucket →
    total node bucket metric s.rolled = tallyOf node bucket metric s.tally

theorem exact_start : Exact Sys.start where
  nodup := nodup_nil
  drawn := fun e he => by rcases he with he | he <;> cases he
  once := nodup_nil
  pendingAt := fun p hp => by cases hp
  complete := fun row hrow => by cases hrow
  counts := fun e he => by cases he
  due := fun e he => by cases he
  totals := fun node bucket metric _ => rfl

/-! ### Storing -/

/-- Events that come after the rows of their node keep the count exact. -/
theorem Exact.store (hs : Exact s) (hlater : ∀ e ∈ events, Later s.rolled e) :
    Exact (s.store events) := by
  rw [Sys.store]
  split
  · rename_i hfresh
    obtain ⟨hids, hnew⟩ := hfresh
    have hdisjoint : ∀ e ∈ s.events, e ∉ events := fun e he hmem =>
      hnew e hmem (hs.drawn e (.inl he))
    refine ⟨?_, ?_, hs.once, hs.pendingAt, hs.complete, ?_, hs.due, hs.totals⟩
    · exact List.nodup_append'.mpr ⟨hs.nodup, Nodup.of_map _ hids, hdisjoint⟩
    · rintro e (he | he)
      · rcases mem_append.mp he with he | he
        · exact mem_append_left _ (hs.drawn e (.inl he))
        · exact mem_append_right _ (mem_map_of_mem he)
      · exact mem_append_left _ (hs.drawn e (.inr he))
    · intro e he hsince
      rcases mem_append.mp he with he | he
      · exact hs.counts e he hsince
      · have huncounted : e ∉ s.tally := fun hmem => hnew e he (hs.drawn e (.inr hmem))
        exact iff_of_false huncounted (not_not.mpr (hlater e he))
  · exact hs

/-! ### Reading -/

/-- The limits of the two reads hide nothing: what is later than the rows of its node is
among the events that are read, and what is not is held back by a row that is read. -/
structure Sees (s : Sys) (now : Int) : Prop where
  events : ∀ e ∈ s.events, inWindow now e = true →
    Later (s.rows.map MetricRow.toNewMetric) e → e ∈ readEvents s now
  rows : ∀ e ∈ readEvents s now, Later ((readMetrics s now).map MetricRow.toNewMetric) e →
    Later (s.rows.map MetricRow.toNewMetric) e

section read

variable {s : Sys} {now : Int}

theorem rolled_of_idle (hidle : s.pending = none) : s.rolled = s.rows.map MetricRow.toNewMetric := by
  rw [Sys.rolled, hidle]
  exact append_nil _

theorem tally_of_idle (hidle : s.pending = none) : s.tally = s.counted := by
  rw [Sys.tally, hidle]
  exact append_nil _

/-- The events that a tick counts. -/
def batchOf (s : Sys) (now : Int) : List WafEvent :=
  (readEvents s now).filter (isFresh (latest (readMetrics s now)))

theorem mem_batchOf :
    e ∈ batchOf s now ↔
    e ∈ readEvents s now ∧ Later ((readMetrics s now).map MetricRow.toNewMetric) e := by
  rw [batchOf, mem_filter, isFresh_latest]

theorem Sees.mem_batchOf (hsees : Sees s now) :
    e ∈ batchOf s now ↔
    e ∈ s.events ∧ inWindow now e = true ∧ Later (s.rows.map MetricRow.toNewMetric) e := by
  rw [WafRollupTask.mem_batchOf]
  constructor
  · rintro ⟨hread, hlater⟩
    obtain ⟨hevent, hwindow⟩ := mem_readEvents hread
    exact ⟨hevent, hwindow, hsees.rows e hread hlater⟩
  · rintro ⟨hevent, hwindow, hlater⟩
    refine ⟨hsees.events e hevent hwindow hlater, fun row hrow => ?_⟩
    obtain ⟨stored, hstored, rfl⟩ := mem_map.mp hrow
    exact hlater _ (mem_map_of_mem (mem_readMetrics hstored))

theorem nodup_batchOf (hs : s.events.Nodup) : (batchOf s now).Nodup :=
  (nodup_readEvents hs now).filter _

theorem rolled_read (hidle : s.pending = none) : (s.read now).rolled =
    s.rolled ++ rollupByNode (readEvents s now) (isFresh (latest (readMetrics s now))) := by
  rw [rolled_of_idle hidle]
  rfl

theorem tally_read (hidle : s.pending = none) : (s.read now).tally = s.tally ++ batchOf s now := by
  rw [tally_of_idle hidle]
  rfl

theorem later_append : Later (rows ++ rows') e ↔ Later rows e ∧ Later rows' e := by
  simp only [Later, mem_append, or_imp, forall_and]

/-- The rows of a tick hold back what it counts, and nothing after its window. -/
theorem later_rollupByNode (hwindow : e ∉ batchOf s now → now / 60 * 60 ≤ e.createdAt) :
    Later (rollupByNode (readEvents s now) (isFresh (latest (readMetrics s now)))) e ↔
      e ∉ batchOf s now := by
  constructor
  · intro hlater hmem
    obtain ⟨row, hrow, hnode, hstart⟩ := exists_rollupByNode hmem
    have hbefore := hlater row hrow hnode
    omega
  · intro hnot row hrow _
    obtain ⟨counted, hcounted, -, hstart⟩ := rollupByNode_bucket hrow
    have hend := inWindow_iff.mp (mem_readEvents (mem_filter.mp hcounted).1).2
    have hafter := hwindow hnot
    omega

theorem since_of_clock (hclock : ∀ t, s.readAt = some t → t ≤ now) (ht : now / 60 * 60 - 86400 ≤ t)
    : s.since t := by
  intro before hbefore
  have hle := hclock before hbefore
  omega

theorem keeps_of_clock (hclock : ∀ t, s.readAt = some t → t ≤ now)
    (hkept : max (now - DEFAULT_PERFORMANCE_METRICS) 0 ≤ bucket) : s.keeps bucket := by
  intro before hbefore
  have hle := hclock before hbefore
  omega

variable (hs : Exact s) (hidle : s.pending = none) (hclock : ∀ t, s.readAt = some t → t ≤ now)
include hs hidle hclock

omit hidle in
theorem complete_read (hrow : row ∈ s.rolled) : row.bucketStart % 60 = 0 ∧
    ∃ t, (s.read now).readAt = some t ∧ row.bucketStart + 60 ≤ t / 60 * 60 := by
  obtain ⟨haligned, before, hbefore, hend⟩ := hs.complete row hrow
  have hle := hclock before hbefore
  exact ⟨haligned, now, rfl, by omega⟩

/-- A tick that fails leaves the count as it was. -/
theorem Exact.fail_read : Exact (s.read now).fail := by
  have htally : (s.read now).fail.tally = s.tally :=
    (tally_of_idle rfl).trans (tally_of_idle hidle).symm
  have hrolled : (s.read now).fail.rolled = s.rolled :=
    (rolled_of_idle rfl).trans (rolled_of_idle hidle).symm
  refine ⟨hs.nodup, ?_, ?_, nofun, ?_, ?_, nofun, ?_⟩ <;> simp only [htally, hrolled]
  · exact hs.drawn
  · exact hs.once
  · exact fun row hrow => complete_read hs hclock hrow
  · exact fun e he hsince => hs.counts e he (since_of_clock hclock (hsince now rfl))
  · exact fun node bucket metric hkeeps =>
      hs.totals node bucket metric (keeps_of_clock hclock (hkeeps now rfl))

/-- In the window of the next tick exactly the counted events are held back. -/
theorem counted_iff (he : e ∈ s.events) (ht : now / 60 * 60 - 86400 ≤ e.createdAt) :
    e ∈ s.counted ↔ ¬ Later (s.rows.map MetricRow.toNewMetric) e := by
  rw [← tally_of_idle hidle, ← rolled_of_idle hidle]
  exact hs.counts e he (since_of_clock hclock ht)

theorem counts_read (hsees : Sees s now) (he : e ∈ s.events)
    (ht : now / 60 * 60 - 86400 ≤ e.createdAt) :
    e ∈ s.tally ++ batchOf s now ↔ ¬ Later (s.read now).rolled e := by
  have hcounted := counted_iff hs hidle hclock he ht
  rw [rolled_read hidle, later_append, rolled_of_idle hidle, tally_of_idle hidle, mem_append,
    hcounted, not_and_or]
  by_cases hlater : Later (s.rows.map MetricRow.toNewMetric) e
  · have hwindow : e ∉ batchOf s now → now / 60 * 60 ≤ e.createdAt := fun hnot =>
      not_lt.mp fun hlt => hnot (hsees.mem_batchOf.mpr ⟨he, inWindow_iff.mpr ⟨ht, hlt⟩, hlater⟩)
    rw [later_rollupByNode hwindow, not_not]
  · exact iff_of_true (.inl hlater) (.inl hlater)

theorem Exact.read (hsees : Sees s now) : Exact (s.read now) := by
  have hbatch : ∀ e ∈ batchOf s now, e ∈ s.events ∧ inWindow now e = true ∧
      Later (s.rows.map MetricRow.toNewMetric) e := fun e he => hsees.mem_batchOf.mp he
  refine ⟨hs.nodup, ?_, ?_, ?_, ?_, ?_, ?_, ?_⟩
  · rw [tally_read hidle]
    rintro e (he | he)
    · exact hs.drawn e (.inl he)
    rcases mem_append.mp he with he | he
    · exact hs.drawn e (.inr he)
    · exact hs.drawn e (.inl (hbatch e he).1)
  · rw [tally_read hidle]
    refine List.nodup_append'.mpr ⟨hs.once, nodup_batchOf hs.nodup, fun e hbefore hnow => ?_⟩
    obtain ⟨he, hwindow, hlater⟩ := hbatch e hnow
    rw [tally_of_idle hidle] at hbefore
    exact (counted_iff hs hidle hclock he (inWindow_iff.mp hwindow).1).mp hbefore hlater
  · rintro p hp
    cases hp
    rfl
  · rw [rolled_read hidle]
    intro row hrow
    rcases mem_append.mp hrow with hrow | hrow
    · exact complete_read hs hclock hrow
    · obtain ⟨e, he, -, hstart⟩ := rollupByNode_bucket hrow
      have hend := inWindow_iff.mp (hbatch e he).2.1
      exact ⟨by omega, now, rfl, by omega⟩
  · intro e he hsince
    rw [tally_read hidle]
    exact counts_read hs hidle hclock hsees he (hsince now rfl)
  · intro e he
    obtain ⟨hevent, hwindow⟩ := mem_filter.mp he
    rw [tally_read hidle, tally_of_idle hidle, mem_append,
      counted_iff hs hidle hclock hevent (inWindow_iff.mp hwindow).1, hsees.mem_batchOf]
    tauto
  · intro node bucket metric hkeeps
    rw [rolled_read hidle, tally_read hidle, total_append, total_rollupByNode,
      hs.totals node bucket metric (keeps_of_clock hclock (hkeeps now rfl)), tallyOf, tallyOf, tallyOf, countP_append]
    rfl

end read

/-! ### Recording -/

section record

variable {s : Sys} {p : Pending} {ids : Nat → Nat}

/-- The row is not older than the retention. -/
def kept (now : Int) (row : NewMetric) : Bool :=
  decide (max (now - DEFAULT_PERFORMANCE_METRICS) 0 ≤ row.bucketStart)

theorem map_numbered (ids : Nat → Nat) (rows : List NewMetric) :
    ((rows.zipIdx.map fun row => (⟨row.1, ids row.2⟩ : MetricRow)).map MetricRow.toNewMetric) =
      rows := by
  rw [map_map]
  exact zipIdx_map_fst 0 rows

theorem rolled_record (hp : s.pending = some p) :
    (s.record ids p).rolled = s.rolled.filter (kept p.now) := by
  have hidle : (s.record ids p).pending = none := rfl
  have hrolled : s.rolled = s.rows.map MetricRow.toNewMetric ++ p.rows := by
    rw [Sys.rolled, hp]
    rfl
  rw [rolled_of_idle hidle, hrolled, ← map_numbered ids p.rows, ← map_append, filter_map]
  rfl

theorem tally_record (hp : s.pending = some p) : (s.record ids p).tally = s.tally := by
  have hidle : (s.record ids p).pending = none := rfl
  rw [tally_of_idle hidle, Sys.tally, hp]
  rfl

theorem later_kept (haligned : ∀ row ∈ rows, row.bucketStart % 60 = 0) (hkept : 0 ≤ e.createdAt)
    (hsince : now / 60 * 60 - 86400 ≤ e.createdAt) :
    Later (rows.filter (kept now)) e ↔ Later rows e := by
  constructor
  · intro hlater row hrow hnode
    by_cases hold : kept now row = true
    · exact hlater row (mem_filter.mpr ⟨hrow, hold⟩) hnode
    have hretention : DEFAULT_PERFORMANCE_METRICS = 7776000 := rfl
    have hstart := haligned row hrow
    rw [kept, decide_eq_true_eq] at hold
    omega
  · exact fun hlater row hrow => hlater row (mem_filter.mp hrow).1

theorem Exact.record (hs : Exact s) (hp : s.pending = some p) : Exact (s.record ids p) := by
  have hread := hs.pendingAt p hp
  have hevents : ∀ e ∈ (s.record ids p).events, e ∈ s.events ∧
      max (p.now - DEFAULT_WAF_EVENTS) 0 ≤ e.createdAt := fun e he =>
    (mem_filter.mp he).imp_right of_decide_eq_true
  refine ⟨hs.nodup.filter _, ?_, ?_, (fun _ h => by cases h), ?_, ?_, ?_, ?_⟩
  · rw [tally_record hp]
    exact fun e he => hs.drawn e (he.imp_left fun h => (hevents e h).1)
  · rw [tally_record hp]
    exact hs.once
  · rw [rolled_record hp]
    exact fun row hrow => hs.complete row (mem_filter.mp hrow).1
  · intro e he hsince
    obtain ⟨hevent, hmax⟩ := hevents e he
    rw [tally_record hp, rolled_record hp, hs.counts e hevent hsince,
      later_kept (fun row hrow => (hs.complete row hrow).1) (by omega) (hsince p.now hread)]
  · rw [tally_record hp]
    exact hs.due
  · intro node bucket metric hkeeps
    rw [tally_record hp, rolled_record hp, total_filter, hs.totals node bucket metric hkeeps]
    intro row _ hbucket
    rw [kept, hbucket]
    exact decide_eq_true (hkeeps p.now hread)

end record

/-! ## Runs -/

/-- No event comes late, the clock never goes back, and no tick meets the read limits. -/
def Meets (s : Sys) : Step → Prop
  | .store events => ∀ e ∈ events, Later s.rolled e
  | .read now => (∀ t, s.readAt = some t → t ≤ now) ∧ Sees s now
  | .record _ | .fail => True

/-- The count is exact, also if the tick that has read should fail. -/
structure Safe (s : Sys) : Prop where
  now : Exact s
  failed : Exact s.fail

theorem safe_step (hs : Safe s) (hmeets : Meets s e) : Safe (step s e).2 := by
  obtain ⟨hnow, hfailed⟩ := hs
  cases e with
  | store events =>
    have hstored : (s.store events).fail = s.fail.store events := apply_ite Sys.fail _ _ _
    refine ⟨hnow.store hmeets, hstored ▸ hfailed.store fun e he => ?_⟩
    rw [rolled_of_idle rfl]
    exact (later_append.mp (hmeets e he)).1
  | read now =>
    rw [step]
    cases hidle : s.pending with
    | none => exact ⟨hnow.read hidle hmeets.1 hmeets.2, hnow.fail_read hidle hmeets.1⟩
    | some p => exact ⟨hnow, hfailed⟩
  | record ids =>
    rw [step]
    cases hp : s.pending with
    | none => exact ⟨hnow, hfailed⟩
    | some p =>
      have h : Exact (s.record ids p) := hnow.record hp
      exact ⟨h, ⟨h.nodup, h.drawn, h.once, h.pendingAt, h.complete, h.counts, nofun, h.totals⟩⟩
  | fail =>
    rw [step]
    cases s.pending with
    | none => exact ⟨hnow, hfailed⟩
    | some p => exact ⟨hfailed, hfailed⟩

theorem exact_run (hmeets : Trace.Always Meets step Sys.start steps) : Exact (run steps) :=
  (Trace.final_always Meets step Safe (fun _ _ hs hok => safe_step hs hok) steps _
    ⟨exact_start, exact_start⟩ hmeets).now

theorem counted_tick (hidle : s.pending = none) (now : Int) (ids : Nat → Nat) :
    (s.tick now ids).counted = s.counted ++ batchOf s now := by
  rw [Sys.tick, step, step, hidle]
  rfl

/-- After a tick every event of its window is counted, and none twice. -/
def CountsOnce (s : Sys) (now : Int) (ids : Nat → Nat) : Prop :=
  (s.tick now ids).counted.Nodup ∧
    ∀ e ∈ s.events, inWindow now e = true → e ∈ (s.tick now ids).counted

theorem countsOnce_iff (hs : Exact s) (hidle : s.pending = none)
    (hclock : ∀ t, s.readAt = some t → t ≤ now) (ids : Nat → Nat) :
    CountsOnce s now ids ↔ Sees s now := by
  have hcounted : ∀ e ∈ s.events, inWindow now e = true →
      (e ∈ s.counted ↔ ¬ Later (s.rows.map MetricRow.toNewMetric) e) := fun e he hwindow =>
    counted_iff hs hidle hclock he (inWindow_iff.mp hwindow).1
  rw [CountsOnce, counted_tick hidle]
  constructor
  · rintro ⟨hnodup, hall⟩
    have hdisjoint := (List.nodup_append'.mp hnodup).2.2
    refine ⟨fun e he hwindow hlater => ?_, fun e he hlater => ?_⟩
    · rcases mem_append.mp (hall e he hwindow) with hbefore | hnow
      · exact absurd hlater ((hcounted e he hwindow).mp hbefore)
      · exact (mem_batchOf.mp hnow).1
    · obtain ⟨hevent, hwindow⟩ := mem_readEvents he
      have hbefore : e ∉ s.counted := fun hmem => hdisjoint hmem (mem_batchOf.mpr ⟨he, hlater⟩)
      exact not_not.mp fun hnot => hbefore ((hcounted e hevent hwindow).mpr hnot)
  · intro hsees
    have hread := hs.read hidle hclock hsees
    have htally : (s.read now).tally = s.counted ++ batchOf s now := by
      rw [tally_read hidle, tally_of_idle hidle]
    rw [← htally]
    exact ⟨hread.once, fun e he hwindow => hread.due e (mem_filter.mpr ⟨he, hwindow⟩)⟩

theorem sees_of_few (hevents : (s.events.filter (inWindow now)).length ≤ ROLLUP_READ_LIMIT)
    (hrows : s.rows.length ≤ ROLLUP_READ_LIMIT)
    (hrecent : ∀ row ∈ s.rows, now - DEFAULT_PERFORMANCE_METRICS ≤ row.bucketStart) :
    Sees s now := by
  refine ⟨fun e he hwindow _ => ?_, fun e _ hlater row hrow => ?_⟩
  · rw [readEvents, take_of_length_le (by rwa [length_insertionSort]), mem_insertionSort]
    exact mem_filter.mpr ⟨he, hwindow⟩
  obtain ⟨stored, hstored, rfl⟩ := mem_map.mp hrow
  refine hlater _ (mem_map_of_mem ?_)
  have hfew := Nat.le_trans (length_filter_le (fun row : MetricRow =>
    decide (now - DEFAULT_PERFORMANCE_METRICS ≤ row.bucketStart)) s.rows) hrows
  rw [readMetrics, take_of_length_le (by rwa [length_insertionSort]), mem_insertionSort]
  exact mem_filter.mpr ⟨hstored, decide_eq_true (hrecent stored hstored)⟩

/-- In a run in which no event comes later than the rows of its bucket, the clock never
goes back and the limits of the reads hide nothing, no event is counted twice, every event
of the window of a tick is counted once it is over, and the rows say so. A further
tick after such a run counts every event once exactly when the limits hide nothing
from it. -/
theorem rollup_counts_once_iff (steps : List Step)
    (hmeets : Trace.Always Meets step Sys.start steps) :
    (run steps).counted.Nodup ∧
    ((run steps).pending = none →
      (∀ e ∈ (run steps).due, e ∈ (run steps).counted) ∧
      (∀ node bucket metric, (run steps).keeps bucket →
        total node bucket metric ((run steps).rows.map MetricRow.toNewMetric) =
          tallyOf node bucket metric (run steps).counted) ∧
      ∀ (now : Int) (ids : Nat → Nat), (∀ t, (run steps).readAt = some t → t ≤ now) →
        (CountsOnce (run steps) now ids ↔ Sees (run steps) now)) := by
  have hs := exact_run hmeets
  refine ⟨(List.nodup_append'.mp hs.once).1, fun hidle => ⟨?_, ?_, ?_⟩⟩
  · rw [← tally_of_idle hidle]
    exact hs.due
  · rw [← tally_of_idle hidle, ← rolled_of_idle hidle]
    exact hs.totals
  · exact fun now ids hclock => countsOnce_iff hs hidle hclock ids

/-! ## A late event -/

def finding (id : Nat) (createdAt : Int) : WafEvent :=
  ⟨id, "edge-1", some 942100, some "sqli", true, createdAt⟩

def twoTicks : List Step :=
  [.store [finding 1 30], .read 60, .record id, .store [finding 2 70], .read 120, .record id]

theorem meets_store : Meets s (.store events) ↔ ∀ e ∈ events, Later s.rolled e := Iff.rfl

theorem rollup_counts_once_iff_two_ticks :
    Trace.Always Meets step Sys.start twoTicks ∧
      finding 1 30 ∈ (run twoTicks).counted ∧ finding 2 70 ∈ (run twoTicks).counted := by
  have hmeets : Trace.Always Meets step Sys.start twoTicks :=
    ⟨meets_store.mpr (by decide +kernel),
      ⟨by decide +kernel, sees_of_few (by decide +kernel) (by decide +kernel) (by decide +kernel)⟩,
      trivial,
      meets_store.mpr (by decide +kernel),
      ⟨by decide +kernel, sees_of_few (by decide +kernel) (by decide +kernel) (by decide +kernel)⟩,
      trivial, trivial⟩
  have hcounted := ((rollup_counts_once_iff twoTicks hmeets).2 rfl).1
  exact ⟨hmeets, hcounted _ (by decide +kernel), hcounted _ (by decide +kernel)⟩

/-- The second event of the first minute is written after the tick of that minute: the
rows of the minute are there, and no later tick counts it. -/
theorem late_event_is_never_counted :
    ∃ e ∈ (run [.store [finding 1 30], .read 60, .record id, .store [finding 2 30], .read 120,
        .record id]).due,
      e ∉ (run [.store [finding 1 30], .read 60, .record id, .store [finding 2 30], .read 120,
        .record id]).counted := by
  decide +kernel

end WafRollupTask
