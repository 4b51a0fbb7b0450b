import Mathlib.Data.List.DropRight
import Mathlib.Data.List.Sort
import Pingap.KeyedMap
import Pingap.MachineArith
import Pingap.Trace

/-!
# Alerts

At every tick the rules of the store are evaluated over the metrics of their window.
A rule that is firing or ok is then either suppressed or sent to its channels, and
what the channels answer is appended to the history. The suppression remembers for
every rule what it was last and when it was last sent.
-/

namespace Alerts

open MachineArith List

/-! ## Evaluation -/

/-- What evaluation takes from `f64`. -/
structure Arith (F : Type) where
  zero : F
  add : F → F → F
  sub : F → F → F
  abs : F → F
  lt : F → F → Bool
  le : F → F → Bool
  epsilon : F
  isFinite : F → Bool
  display : F → String

inductive Comparison where
  | greater
  | greaterOrEqual
  | less
  | lessOrEqual
  | equal
deriving DecidableEq, Repr

section model

variable {F : Type}

def Comparison.holds (A : Arith F) (observed threshold : F) : Comparison → Bool
  | .greater => A.lt threshold observed
  | .greaterOrEqual => A.le threshold observed
  | .less => A.lt observed threshold
  | .lessOrEqual => A.le observed threshold
  | .equal => A.lt (A.abs (A.sub observed threshold)) A.epsilon

structure AlertRule (F : Type) where
  id : String
  name : String
  metric : String
  comparator : Comparison
  threshold : F
  windowSecs : Int
  severity : String
  enabled : Bool
  channelIds : List String

structure MetricSample (F : Type) where
  value : F
  bucketStart : Int

inductive Evaluation where
  | firing
  | ok
deriving DecidableEq, Repr

def evaluate (A : Arith F) (rule : AlertRule F) (samples : List (MetricSample F)) (now : Int) :
    Option (Evaluation × F) :=
  if !rule.enabled || decide (rule.windowSecs ≤ 0) || !A.isFinite rule.threshold then none
  else
    let since := satSubI64 now rule.windowSecs
    let inside := samples.filter fun s => decide (since ≤ s.bucketStart) && decide (s.bucketStart ≤ now)
    let observed := (inside.map MetricSample.value).foldl A.add A.zero
    if !A.isFinite observed then none
    else some (if rule.comparator.holds A observed rule.threshold then .firing else .ok, observed)

/-- A rule is evaluated over finite numbers only. -/
theorem evaluate_finite (h : evaluate A rule samples now = some (evaluation, observed)) :
    A.isFinite observed = true ∧ A.isFinite rule.threshold = true := by
  unfold evaluate at h
  split at h
  · cases h
  rename_i hrule
  dsimp only at h
  split at h
  · cases h
  rename_i hobserved
  have heq := (Prod.mk.inj (Option.some.inj h)).2
  rw [heq] at hobserved
  simp only [Bool.not_eq_true', Bool.not_eq_false, Bool.or_eq_true, not_or] at hrule hobserved
  exact ⟨hobserved, hrule.2⟩

/-! ## Suppression -/

inductive SuppressionDecision where
  | suppress
  | fire
deriving DecidableEq, Repr

structure SuppressionState where
  evaluation : Evaluation
  changedAt : Int
  lastSentAt : Option Int
deriving DecidableEq, Repr

structure Suppression where
  states : KeyedMap String SuppressionState
  windowSecs : Int

def Suppression.new (windowSecs : Int) : Suppression := ⟨∅, max windowSecs 0⟩

/-- The decision for a rule whose state is `prior`, and its next state. -/
def decideState (windowSecs : Int) (prior : Option SuppressionState) (evaluation : Evaluation)
    (now : Int) : SuppressionDecision × SuppressionState :=
  let changed := prior.all fun s => decide (s.evaluation ≠ evaluation)
  let allowed := changed ||
    (prior.bind SuppressionState.lastSentAt).all fun sent => decide (windowSecs ≤ satSubI64 now sent)
  (if allowed then .fire else .suppress,
    { evaluation := evaluation
      changedAt := if changed then now else (prior.map SuppressionState.changedAt).getD now
      lastSentAt := if allowed then some now else prior.bind SuppressionState.lastSentAt })

def Suppression.decide (s : Suppression) (ruleId : String) (evaluation : Evaluation) (now : Int) :
    SuppressionDecision × Suppression :=
  let next := decideState s.windowSecs (s.states.lookup ruleId) evaluation now
  (next.1, { s with states := s.states.insert ruleId next.2 })

/-! ## Dispatch -/

inductive NotificationLevel where
  | info
  | warn
  | error
deriving DecidableEq, Repr

structure NotificationData where
  category : String
  level : NotificationLevel
  title : String
  message : String
deriving DecidableEq, Repr

structure NotificationChannel where
  id : String
  kind : String
  config : String
  enabled : Bool
deriving DecidableEq, Repr

abbrev Sender := NotificationData → Nat → Except String Unit

/-- The transports, built from the configuration of a channel when that is valid. -/
structure Transport where
  telegram : String → Option Sender
  email : String → Option Sender

def unavailableSender (reason : String) : Sender := fun _ _ => .error reason

def senderForChannel (t : Transport) (channel : NotificationChannel) : Sender :=
  if channel.kind = "telegram" then
    (t.telegram channel.config).getD
      (unavailableSender "unavailable:invalid telegram configuration")
  else if channel.kind = "email" then
    (t.email channel.config).getD (unavailableSender "unavailable:invalid smtp configuration")
  else unavailableSender ("unavailable:" ++ channel.kind ++ " transport is not configured")

inductive AttemptOutcome where
  | delivered
  | failed (errorClass : String)
deriving DecidableEq, Repr

structure Delivery where
  channelId : String
  outcome : AttemptOutcome
  attempt : Nat
deriving DecidableEq, Repr

def errorClass (error : String) : String :=
  String.ofList ((error.toList.takeWhile fun c => c ≠ ':').take 64)

/-- Send until an attempt succeeds; `left` attempts are still allowed. -/
def attempts (channelId : String) (send : Nat → Except String Unit) (maxAttempts : Nat) :
    (left : Nat) → (error : String) → Delivery
  | 0, error => ⟨channelId, .failed (errorClass error), maxAttempts⟩
  | left + 1, _ =>
    match send (maxAttempts - left) with
    | .ok _ => ⟨channelId, .delivered, maxAttempts - left⟩
    | .error error => attempts channelId send maxAttempts left error

def dispatchSend (maxAttempts : Nat) (channels : List (String × Sender)) (data : NotificationData) :
    List Delivery :=
  channels.map fun channel =>
    attempts channel.1 (channel.2 data) (max maxAttempts 1) (max maxAttempts 1) "not attempted"

/-! ## A tick -/

structure MetricRow (F : Type) where
  id : String
  metric : String
  value : F
  bucketStart : Int

/-- The clock of a tick, the tables as the tick finds them, and the transports. -/
structure Tick (F : Type) where
  now : Int
  rules : List (AlertRule F)
  /-- The id is the primary key. -/
  nodup_ids : (rules.map AlertRule.id).Nodup
  channels : List NotificationChannel
  metrics : List (MetricRow F)
  transport : Transport

def readPerformanceMetrics (rows : List (MetricRow F)) (metric : String) (since until' : Int)
    (limit : Nat) : List (MetricRow F) :=
  ((rows.filter fun row => decide (since ≤ row.bucketStart) && decide (row.bucketStart ≤ until') &&
      decide (row.metric = metric)).insertionSort
    fun a b => a.bucketStart < b.bucketStart ∨ (a.bucketStart = b.bucketStart ∧ a.id ≤ b.id)).take
      limit

/-- What a rule is found to be at a tick, and the number observed. -/
def observe (A : Arith F) (t : Tick F) (rule : AlertRule F) : Option (Evaluation × F) :=
  let rows := readPerformanceMetrics t.metrics rule.metric (satSubI64 t.now rule.windowSecs) t.now 10000
  evaluate A rule (rows.map fun row => ⟨row.value, row.bucketStart⟩) t.now

structure AlertHistory (F : Type) where
  ruleId : Option String
  ruleName : String
  severity : String
  observed : F
  threshold : F
  delivered : Bool
  deliveryError : Option String
  createdAt : Int

/-- What was handed to the dispatcher for a rule, and what the channels answered. -/
structure Notice where
  ruleId : String
  data : NotificationData
  deliveries : List Delivery

def levelOf (severity : String) : NotificationLevel :=
  if severity = "error" then .error else if severity = "warn" then .warn else .info

def selected (t : Tick F) (rule : AlertRule F) : List (String × Sender) :=
  (t.channels.filter fun channel => channel.enabled && rule.channelIds.contains channel.id).map
    fun channel => (channel.id, senderForChannel t.transport channel)

def noticeOf (A : Arith F) (t : Tick F) (rule : AlertRule F) (observed : F) : Notice :=
  let data : NotificationData :=
    { category := "alert"
      level := levelOf rule.severity
      title := rule.name
      message := rule.metric ++ " observed " ++ A.display observed ++ ", threshold " ++
        A.display rule.threshold }
  ⟨rule.id, data, dispatchSend 1 (selected t rule) data⟩

/-- The outcomes that are written down: one of every channel, or that there was none. -/
def outcomes (deliveries : List Delivery) : List (Bool × Option String) :=
  if deliveries.isEmpty then [(false, some "unavailable:no enabled channels")]
  else deliveries.map fun delivery =>
    match delivery.outcome with
    | .delivered => (true, none)
    | .failed error => (false, some error)

/-- `record_alert_history` refuses numbers that are not finite. -/
def recordAlertHistory (A : Arith F) (entry : AlertHistory F) : Except String (AlertHistory F) :=
  if !A.isFinite entry.observed || !A.isFinite entry.threshold then
    .error "alert history values must be finite"
  else .ok entry

def historyOf (A : Arith F) (t : Tick F) (rule : AlertRule F) (observed : F) (notice : Notice) :
    Except String (List (AlertHistory F)) :=
  (outcomes notice.deliveries).mapM fun outcome =>
    recordAlertHistory A ⟨some rule.id, rule.name, rule.severity, observed, rule.threshold, outcome.1,
      outcome.2, t.now⟩

/-- What a tick did, as far as it came. -/
structure Effects (F : Type) where
  sent : List Notice
  history : List (AlertHistory F)
  result : Except String Nat

/-- The effects of a rule in front of those of the rules after it. -/
def Effects.after (sent : List Notice) (history : List (AlertHistory F)) (rest : Effects F) :
    Effects F :=
  ⟨sent ++ rest.sent, history ++ rest.history, rest.result.map (history.length + ·)⟩

/-- The loop of `evaluate_once`. A row that is refused ends it. -/
def evaluateRules (A : Arith F) (t : Tick F) :
    List (AlertRule F) → Suppression → Effects F × Suppression
  | [], s => (⟨[], [], .ok 0⟩, s)
  | rule :: rest, s =>
    match observe A t rule with
    | none => evaluateRules A t rest s
    | some (evaluation, observed) =>
      let (decision, next) := s.decide rule.id evaluation t.now
      match decision with
      | .suppress => evaluateRules A t rest next
      | .fire =>
        let notice := noticeOf A t rule observed
        match historyOf A t rule observed notice with
        | .error message => (⟨[notice], [], .error message⟩, next)
        | .ok rows =>
          let (effects, last) := evaluateRules A t rest next
          (effects.after [notice] rows, last)

structure Report (F : Type) extends Effects F where
  tick : Tick F

def evaluateOnce (A : Arith F) (s : Suppression) (t : Tick F) : Report F × Suppression :=
  let (effects, next) := evaluateRules A t t.rules s
  (⟨effects, t⟩, next)

def run (A : Arith F) (windowSecs : Int) (ticks : List (Tick F)) : List (Report F) :=
  Trace.outputs (evaluateOnce A) (Suppression.new windowSecs) ticks

/-! ## One rule of a tick -/

def Effects.notifies (effects : Effects F) (id : String) : Prop :=
  ∃ notice ∈ effects.sent, notice.ruleId = id

def Effects.records (effects : Effects F) (id : String) : Prop :=
  ∃ row ∈ effects.history, row.ruleId = some id

/-- What a tick finds a rule to be, if it evaluates it. -/
def evaluationIn (A : Arith F) (t : Tick F) (rules : List (AlertRule F)) (id : String) :
    Option Evaluation :=
  ((rules.find? fun rule => rule.id = id).bind (observe A t)).map Prod.fst

def evaluationAt (A : Arith F) (id : String) (t : Tick F) : Option Evaluation :=
  evaluationIn A t t.rules id

/-- The state of a rule after a tick that found it to be `evaluation`. -/
def nextState (windowSecs : Int) (prior : Option SuppressionState) (evaluation : Option Evaluation)
    (now : Int) : Option SuppressionState :=
  evaluation.elim prior fun e => some (decideState windowSecs prior e now).2

def fires (windowSecs : Int) (prior : Option SuppressionState) (evaluation : Option Evaluation)
    (now : Int) : Prop :=
  ∃ e, evaluation = some e ∧ (decideState windowSecs prior e now).1 = .fire

section rule

variable {A : Arith F} {t : Tick F} {rule : AlertRule F} {id : String}

/-- A row is never refused, and it names its rule. -/
theorem historyOf_ok (h : observe A t rule = some (evaluation, observed)) (notice : Notice) :
    ∃ rows, historyOf A t rule observed notice = .ok rows ∧ rows ≠ [] ∧
      ∀ row ∈ rows, row.ruleId = some rule.id := by
  obtain ⟨hobserved, hthreshold⟩ := evaluate_finite h
  let entry := fun outcome : Bool × Option String => (⟨some rule.id, rule.name, rule.severity,
    observed, rule.threshold, outcome.1, outcome.2, t.now⟩ : AlertHistory F)
  have hrecord : ∀ outcome, recordAlertHistory A (entry outcome) = pure (entry outcome) := by
    intro outcome
    simp [recordAlertHistory, entry, hobserved, hthreshold]
    rfl
  have hmap : historyOf A t rule observed notice = .ok ((outcomes notice.deliveries).map entry) := by
    unfold historyOf
    rw [funext hrecord]
    exact mapM_pure
  refine ⟨_, hmap, ?_, ?_⟩
  · unfold outcomes
    cases notice.deliveries with
    | nil | cons => simp
  · intro row hrow
    obtain ⟨outcome, -, rfl⟩ := mem_map.mp hrow
    rfl

theorem lookup_decide {s : Suppression} :
    (s.decide ruleId evaluation now).2.states.lookup id =
      if id = ruleId then some (decideState s.windowSecs (s.states.lookup ruleId) evaluation now).2
      else s.states.lookup id :=
  AList.lookup_insert_if s.states ruleId id _

/-- What a list of rules does to one of them. -/
structure Treats (s : Suppression) (id : String) (evaluation : Option Evaluation) (now : Int)
    (r : Effects F × Suppression) : Prop where
  window : r.2.windowSecs = s.windowSecs
  state : r.2.states.lookup id = nextState s.windowSecs (s.states.lookup id) evaluation now
  notifies : r.1.notifies id ↔ fires s.windowSecs (s.states.lookup id) evaluation now
  records : r.1.records id ↔ r.1.notifies id

theorem notifies_after {rest : Effects F} :
    (rest.after [notice] rows).notifies id ↔ notice.ruleId = id ∨ rest.notifies id := by
  simp [Effects.notifies, Effects.after]

theorem records_after {rest : Effects F} (hne : rows ≠ [])
    (hrows : ∀ row ∈ rows, row.ruleId = some rule.id) :
    (rest.after [notice] rows).records id ↔ rule.id = id ∨ rest.records id := by
  unfold Effects.records Effects.after
  constructor
  · rintro ⟨row, hrow, hid⟩
    rcases mem_append.mp hrow with hrow | hrow
    · left
      exact Option.some.inj ((hrows row hrow).symm.trans hid)
    · right
      exact ⟨row, hrow, hid⟩
  · rintro (hid | ⟨row, hrow, hid⟩)
    · obtain ⟨row, hrow⟩ := exists_mem_of_ne_nil rows hne
      exact ⟨row, mem_append_left _ hrow, (hrows row hrow).trans (congrArg some hid)⟩
    · exact ⟨row, mem_append_right _ hrow, hid⟩

theorem evaluationIn_cons :
    evaluationIn A t (rule :: rest) id =
      if rule.id = id then (observe A t rule).map Prod.fst else evaluationIn A t rest id := by
  unfold evaluationIn
  by_cases hown : rule.id = id
  · simp [hown]
  · simp [hown]

/-- The rules after a rule see its state as the decision left it. -/
theorem treats_rest {s : Suppression} (hnot : rule.id = id → later = none)
    (h : Treats (s.decide rule.id evaluation t.now).2 id later t.now r) :
    r.2.states.lookup id = nextState s.windowSecs (s.states.lookup id)
        (if rule.id = id then some evaluation else later) t.now ∧
      (r.1.notifies id ↔ rule.id ≠ id ∧ fires s.windowSecs (s.states.lookup id) later t.now) := by
  have hstate := h.state
  have hnotifies := h.notifies
  rw [lookup_decide] at hstate hnotifies
  by_cases hown : rule.id = id
  · subst hown
    rw [hnot rfl, if_pos rfl] at hstate hnotifies
    rw [if_pos rfl, hnotifies]
    exact ⟨hstate, by simp [fires]⟩
  · rw [if_neg (Ne.symm hown)] at hstate hnotifies
    rw [if_neg hown, hnotifies]
    exact ⟨hstate, by simp [hown, Suppression.decide]⟩

theorem treats_cons (hrest : ∀ s' : Suppression, Treats s' id (evaluationIn A t rest id) t.now
      (evaluateRules A t rest s')) (hnot : rule.id = id → evaluationIn A t rest id = none) :
    Treats s id (evaluationIn A t (rule :: rest) id) t.now (evaluateRules A t (rule :: rest) s) := by
  rw [evaluationIn_cons]
  cases hobserve : observe A t rule with
  | none =>
    have hskip : evaluateRules A t (rule :: rest) s = evaluateRules A t rest s := by
      simp only [evaluateRules, hobserve]
    have hsame : (if rule.id = id then (none : Option (Evaluation × F)).map Prod.fst
        else evaluationIn A t rest id) = evaluationIn A t rest id := by
      split
      · rename_i hown
        rw [hnot hown]
        rfl
      · rfl
    rw [hskip, hsame]
    exact hrest s
  | some found =>
    obtain ⟨evaluation, observed⟩ := found
    have hnext := hrest (s.decide rule.id evaluation t.now).2
    obtain ⟨hstate, hnotifies⟩ := treats_rest hnot hnext
    cases hdecision : (s.decide rule.id evaluation t.now).1 with
    | suppress =>
      have hloop : evaluateRules A t (rule :: rest) s =
          evaluateRules A t rest (s.decide rule.id evaluation t.now).2 := by
        simp only [evaluateRules, hobserve, hdecision]
      rw [hloop]
      refine ⟨hnext.window, hstate, hnotifies.trans ?_, hnext.records⟩
      by_cases hown : rule.id = id
      · subst hown
        have hquiet : (decideState s.windowSecs (s.states.lookup rule.id) evaluation t.now).1 =
            .suppress := hdecision
        simp [fires, hquiet]
      · simp [hown]
    | fire =>
      obtain ⟨rows, hrows, hne, hids⟩ := historyOf_ok hobserve (noticeOf A t rule observed)
      have hloop : evaluateRules A t (rule :: rest) s =
          ((evaluateRules A t rest (s.decide rule.id evaluation t.now).2).1.after
            [noticeOf A t rule observed] rows,
          (evaluateRules A t rest (s.decide rule.id evaluation t.now).2).2) := by
        simp only [evaluateRules, hobserve, hdecision, hrows]
      rw [hloop]
      refine ⟨hnext.window, hstate, notifies_after.trans ?_, ?_⟩
      · by_cases hown : rule.id = id
        · subst hown
          have hsent : (decideState s.windowSecs (s.states.lookup rule.id) evaluation t.now).1 =
              .fire := hdecision
          simp [fires, hsent, noticeOf]
        · rw [hnotifies]
          simp [hown, noticeOf]
      · rw [records_after hne hids, notifies_after, hnext.records]
        rfl

theorem treats_rules (id : String) (hids : (rules.map AlertRule.id).Nodup) (s : Suppression) :
    Treats s id (evaluationIn A t rules id) t.now (evaluateRules A t rules s) := by
  induction rules generalizing s with
  | nil => exact ⟨rfl, rfl, by simp [evaluateRules, Effects.notifies, fires, evaluationIn],
      by simp [evaluateRules, Effects.notifies, Effects.records]⟩
  | cons rule rest ih =>
    obtain ⟨hfresh, hids⟩ := List.nodup_cons.mp hids
    apply treats_cons (ih hids)
    intro hown
    unfold evaluationIn
    have hnone : (rest.find? fun other => other.id = id) = none := by
      rw [find?_eq_none]
      intro other hother hid
      exact hfresh (hown.trans (of_decide_eq_true hid).symm ▸ mem_map_of_mem hother)
    rw [hnone]
    rfl

/-- A tick treats every rule by its own state. -/
theorem treats_tick (A : Arith F) (s : Suppression) (t : Tick F) (id : String) :
    Treats s id (evaluationAt A id t) t.now ((evaluateOnce A s t).1.toEffects, (evaluateOnce A s t).2) :=
  treats_rules id t.nodup_ids s

end rule

/-! ## One rule of a run -/

def verdicts (A : Arith F) (id : String) (ticks : List (Tick F)) : List (Evaluation × Int) :=
  ticks.filterMap fun t => (evaluationAt A id t).map fun e => (e, t.now)

def stateAfter (windowSecs : Int) (vs : List (Evaluation × Int)) : Option SuppressionState :=
  vs.foldl (fun prior v => some (decideState windowSecs prior v.1 v.2).2) none

theorem stateAfter_concat (windowSecs : Int) (vs : List (Evaluation × Int)) (v : Evaluation × Int) :
    stateAfter windowSecs (vs ++ [v]) =
      some (decideState windowSecs (stateAfter windowSecs vs) v.1 v.2).2 := by
  simp [stateAfter]

def Sends (windowSecs : Int) (vs : List (Evaluation × Int)) (v : Evaluation × Int) : Prop :=
  (decideState windowSecs (stateAfter windowSecs vs) v.1 v.2).1 = .fire

theorem verdicts_concat {id : String} :
    verdicts A id (ticks ++ [t]) =
      verdicts A id ticks ++ ((evaluationAt A id t).map fun e => (e, t.now)).toList := by
  unfold verdicts
  rw [filterMap_append]
  cases h : evaluationAt A id t <;> simp [h]

section

variable (A : Arith F) (windowSecs : Int) (ticks : List (Tick F))

/-- The suppression of a run holds the state of every rule as its own verdicts left it. -/
theorem state_run (id : String) :
    let s := Trace.final (evaluateOnce A) (Suppression.new windowSecs) ticks
    s.windowSecs = max windowSecs 0 ∧
      s.states.lookup id = stateAfter (max windowSecs 0) (verdicts A id ticks) := by
  induction ticks using reverseRecOn with
  | nil => exact ⟨rfl, rfl⟩
  | append_singleton ticks t ih =>
    obtain ⟨hwindow, hstate⟩ := ih
    have htick := treats_tick A (Trace.final (evaluateOnce A) (Suppression.new windowSecs) ticks) t id
    rw [Trace.final_append, Trace.final_cons, Trace.final_nil]
    refine ⟨htick.window.trans hwindow, ?_⟩
    rw [htick.state, hwindow, hstate, verdicts_concat]
    cases evaluationAt A id t with
    | none => simp [nextState]
    | some e => exact (stateAfter_concat (max windowSecs 0) (verdicts A id ticks) (e, t.now)).symm

theorem run_concat (t : Tick F) :
    ∃ report, run A windowSecs (ticks ++ [t]) = run A windowSecs ticks ++ [report] ∧
      report.tick = t ∧ ∀ id, (report.records id ↔ report.notifies id) ∧
        (report.notifies id ↔ ∃ e, evaluationAt A id t = some e ∧
          Sends (max windowSecs 0) (verdicts A id ticks) (e, t.now)) := by
  refine ⟨_, Trace.outputs_append _ _ ticks [t], rfl, fun id => ?_⟩
  have htick := treats_tick A (Trace.final (evaluateOnce A) (Suppression.new windowSecs) ticks) t id
  obtain ⟨hwindow, hstate⟩ := state_run A windowSecs ticks id
  refine ⟨htick.records, htick.notifies.trans ?_⟩
  rw [hwindow, hstate]
  rfl

/-- A report of a run is settled by the verdicts before it. -/
theorem run_reports (id : String) :
    Trace.Throughout (fun before r => (r.records id ↔ r.notifies id) ∧
      (r.notifies id ↔ ∃ e, evaluationAt A id r.tick = some e ∧
        Sends (max windowSecs 0) (verdicts A id (before.map Report.tick)) (e, r.tick.now)))
      (run A windowSecs ticks) ∧ (run A windowSecs ticks).map Report.tick = ticks := by
  induction ticks using reverseRecOn with
  | nil => exact ⟨Trace.throughout_nil _, rfl⟩
  | append_singleton ticks t ih =>
    obtain ⟨hreports, hticks⟩ := ih
    obtain ⟨report, hrun, htick, hreport⟩ := run_concat A windowSecs ticks t
    rw [hrun, Trace.throughout_concat, map_append, map_singleton, hticks, htick]
    exact ⟨⟨hreports, hreport id⟩, rfl⟩

end

end model

/-! ## Verdicts that are sent -/

section verdicts

variable {w : Int} {vs : List (Evaluation × Int)} {now : Int} {e : Evaluation}

theorem decideState_changed (h : ∀ s ∈ prior, s.evaluation ≠ e) :
    decideState w prior e now = (.fire, ⟨e, now, some now⟩) := by
  have hchanged : (prior.all fun s => decide (s.evaluation ≠ e)) = true := by
    cases prior with
    | none => rfl
    | some s => exact decide_eq_true (h s rfl)
  simp only [decideState, hchanged, Bool.true_or, if_true]

theorem decideState_same :
    decideState w (some ⟨e, changedAt, some sent⟩) e now =
      if w ≤ satSubI64 now sent then (.fire, ⟨e, changedAt, some now⟩)
      else (.suppress, ⟨e, changedAt, some sent⟩) := by
  by_cases h : w ≤ satSubI64 now sent
  · simp [decideState, h]
  · simp [decideState, h]

theorem decideState_fire (h : (decideState w prior e now).1 = .fire) :
    ∃ changedAt, (decideState w prior e now).2 = ⟨e, changedAt, some now⟩ := by
  unfold decideState at h ⊢
  dsimp only at h ⊢
  split at h
  · rename_i hallowed
    rw [if_pos hallowed]
    exact ⟨_, rfl⟩
  · cases h

/-- Every verdict that finds the rule ok comes after one that found it firing, and less
than the window after the rule went back to ok. -/
def Quiet (w : Int) (vs : List (Evaluation × Int)) : Prop :=
  Trace.Throughout (fun before v => v.1 = .ok → ∃ earlier at' oks,
    before = earlier ++ (.firing, at') :: oks ∧ (∀ o ∈ oks, o.1 = .ok) ∧
      ∀ o ∈ oks.head?, satSubI64 v.2 o.2 < w) vs

/-- Every verdict that finds the rule ok and is sent follows one that found it firing. -/
def Proper (w : Int) (vs : List (Evaluation × Int)) : Prop :=
  Trace.Throughout (fun before v => v.1 = .ok → Sends w before v →
    before.getLast?.map Prod.fst = some .firing) vs

/-- What a rule was last, and for how long it has been ok. -/
inductive Standing (w : Int) : List (Evaluation × Int) → Prop
  | never : Standing w []
  | firing (before : List (Evaluation × Int)) (at' : Int) : Standing w (before ++ [(.firing, at')])
  | ok (before : List (Evaluation × Int)) (at' since : Int) (oks : List (Evaluation × Int))
      (hoks : ∀ o ∈ oks, o.1 = .ok)
      (hstate : stateAfter w (before ++ (.firing, at') :: (.ok, since) :: oks) =
        some ⟨.ok, since, some since⟩) :
      Standing w (before ++ (.firing, at') :: (.ok, since) :: oks)

theorem stateAfter_firing :
    ∀ s ∈ stateAfter w (before ++ [(.firing, at')]), s.evaluation = .firing := by
  intro s hs
  rw [stateAfter_concat] at hs
  cases hs
  rfl

/-- The verdicts that have found the rule ok since it was last firing. -/
theorem rtakeWhile_stretch (before : List (Evaluation × Int)) (at' : Int)
    {oks : List (Evaluation × Int)} (hoks : ∀ o ∈ oks, o.1 = .ok) :
    (before ++ (.firing, at') :: oks).rtakeWhile (fun v => v.1 = .ok) = oks := by
  induction oks using reverseRecOn with
  | nil =>
    rw [rtakeWhile_concat_neg]
    simp
  | append_singleton oks o ih =>
    have hlast : o.1 = .ok := hoks o (mem_append_right _ (mem_singleton_self o))
    rw [← cons_append, ← append_assoc, rtakeWhile_concat_pos _ _ _ (by simp [hlast]),
      ih fun other h => hoks other (mem_append_left _ h)]

theorem getLast_stretch (before : List (Evaluation × Int)) (at' since : Int)
    {oks : List (Evaluation × Int)} (hoks : ∀ o ∈ oks, o.1 = .ok) :
    (before ++ (.firing, at') :: (.ok, since) :: oks).getLast?.map Prod.fst = some .ok := by
  induction oks using reverseRecOn with
  | nil => simp
  | append_singleton oks o _ =>
    have hlast : o.1 = .ok := hoks o (mem_append_right _ (mem_singleton_self o))
    rw [← cons_append, ← cons_append, ← append_assoc, getLast?_concat, Option.map_some, hlast]

/-- The next verdict is proper exactly when it is quiet. -/
theorem Standing.proper_iff (h : Standing w vs) (now : Int) :
    (Sends w vs (.ok, now) → vs.getLast?.map Prod.fst = some .firing) ↔
      ∃ earlier at' oks, vs = earlier ++ (.firing, at') :: oks ∧ (∀ o ∈ oks, o.1 = .ok) ∧
        ∀ o ∈ oks.head?, satSubI64 now o.2 < w := by
  cases h with
  | never =>
    constructor
    · intro h
      have hsent : Sends w [] (.ok, now) := by
        unfold Sends
        rw [decideState_changed (fun s hs => by cases hs)]
      have hlast := h hsent
      cases hlast
    · rintro ⟨earlier, at', oks, heq, -⟩
      simp at heq
  | firing before at' =>
    constructor
    · intro _
      exact ⟨before, at', [], rfl, fun o ho => (not_mem_nil ho).elim, fun o ho => by cases ho⟩
    · intro _ _
      simp
  | ok before at' since oks hoks hstate =>
    have hall : ∀ o ∈ (Evaluation.ok, since) :: oks, o.1 = .ok := forall_mem_cons.mpr ⟨rfl, hoks⟩
    have hsends : Sends w (before ++ (.firing, at') :: (.ok, since) :: oks) (.ok, now) ↔
        w ≤ satSubI64 now since := by
      unfold Sends
      rw [hstate, decideState_same]
      split <;> simp [*]
    rw [hsends, getLast_stretch before at' since hoks]
    constructor
    · intro hshort
      refine ⟨before, at', (.ok, since) :: oks, rfl, hall, fun o ho => ?_⟩
      cases ho
      exact not_le.mp fun hle => Evaluation.noConfusion (Option.some.inj (hshort hle))
    · rintro ⟨earlier, at₂, oks₂, heq, hoks₂, hshort⟩ hle
      have hsame : (.ok, since) :: oks = oks₂ := by
        rw [← rtakeWhile_stretch before at' hall, heq, rtakeWhile_stretch earlier at₂ hoks₂]
      have hlt := hshort (.ok, since) (by rw [← hsame]; rfl)
      exact absurd hle (not_le.mpr hlt)

theorem standing_of_quiet (h : Quiet w vs) : Standing w vs := by
  induction vs using reverseRecOn with
  | nil => exact .never
  | append_singleton vs v ih =>
    obtain ⟨hvs, hv⟩ := (Trace.throughout_concat _ _ _).mp h
    obtain ⟨e, now⟩ := v
    cases e with
    | firing => exact .firing vs now
    | ok =>
      obtain ⟨earlier, at₂, oks₂, heq, hoks₂, hshort⟩ := hv rfl
      cases ih hvs with
      | never => simp at heq
      | firing before at' =>
        rw [append_assoc]
        apply Standing.ok before at' now []
        · intro o ho
          cases ho
        have hsnoc := stateAfter_concat w (before ++ [(.firing, at')]) (.ok, now)
        rw [append_assoc, singleton_append] at hsnoc
        rw [hsnoc, decideState_changed]
        intro s hs hok
        rw [stateAfter_firing s hs] at hok
        cases hok
      | ok before at' since oks hoks hstate =>
        have hall : ∀ o ∈ (Evaluation.ok, since) :: oks, o.1 = .ok :=
          forall_mem_cons.mpr ⟨rfl, hoks⟩
        have hsame : (.ok, since) :: oks = oks₂ := by
          rw [← rtakeWhile_stretch before at' hall, heq, rtakeWhile_stretch earlier at₂ hoks₂]
        have hlt := hshort (.ok, since) (by rw [← hsame]; rfl)
        rw [append_assoc, cons_append, cons_append]
        apply Standing.ok before at' since (oks ++ [(Evaluation.ok, now)])
        · intro o ho
          rcases mem_append.mp ho with ho | ho
          · exact hoks o ho
          · rw [mem_singleton.mp ho]
        · have hsnoc := stateAfter_concat w (before ++ (.firing, at') :: (.ok, since) :: oks) (.ok, now)
          rw [append_assoc, cons_append, cons_append] at hsnoc
          rw [hsnoc, hstate, decideState_same, if_neg (not_le.mpr hlt)]

theorem proper_iff_quiet : Proper w vs ↔ Quiet w vs := by
  induction vs using reverseRecOn with
  | nil => exact ⟨fun _ => Trace.throughout_nil _, fun _ => Trace.throughout_nil _⟩
  | append_singleton vs v ih =>
    unfold Proper Quiet at ih ⊢
    rw [Trace.throughout_concat, Trace.throughout_concat, ih]
    apply and_congr_right
    intro hquiet
    obtain ⟨e, now⟩ := v
    apply imp_congr_right
    intro hok
    cases hok
    exact (standing_of_quiet hquiet).proper_iff now

/-- As long as a rule is firing, what is sent is the window apart. -/
theorem sent_since (hw : 0 ≤ w) (hsent : Sends w before (.firing, start))
    (hmid : ∀ v ∈ mid, v.1 = .firing) :
    ∃ changedAt sent, stateAfter w (before ++ (.firing, start) :: mid) =
      some ⟨.firing, changedAt, some sent⟩ ∧ start ≤ sent := by
  induction mid using reverseRecOn with
  | nil =>
    obtain ⟨changedAt, hnext⟩ := decideState_fire hsent
    rw [stateAfter_concat, hnext]
    exact ⟨changedAt, start, rfl, le_refl start⟩
  | append_singleton mid v ih =>
    obtain ⟨changedAt, sent, hstate, hle⟩ := ih fun o ho => hmid o (mem_append_left _ ho)
    have hfiring : v.1 = .firing := hmid v (mem_append_right _ (mem_singleton_self v))
    have hsnoc := stateAfter_concat w (before ++ (.firing, start) :: mid) v
    rw [hstate, hfiring, decideState_same, append_assoc, cons_append] at hsnoc
    rw [hsnoc]
    split
    · rename_i hlong
      have hspan := le_sub_of_le_satSubI64 hw hlong
      exact ⟨changedAt, v.2, rfl, by omega⟩
    · exact ⟨changedAt, sent, rfl, hle⟩

end verdicts

/-! ## Runs -/

section runs

variable {F : Type} {A : Arith F} {id : String}

def lastVerdict (A : Arith F) (id : String) (before : List (Report F)) : Option Evaluation :=
  (verdicts A id (before.map Report.tick)).getLast?.map Prod.fst

/-- A rule that is never firing is neither sent nor recorded. -/
def SilentUnlessFiring (A : Arith F) (id : String) (reports : List (Report F)) : Prop :=
  (∀ r ∈ reports, evaluationAt A id r.tick ≠ some .firing) →
    ∀ r ∈ reports, ¬ r.notifies id ∧ ¬ r.records id

/-- What is sent of a rule belongs to a tick at which it is firing, or at which it goes
back to ok. -/
def SentForCause (A : Arith F) (id : String) (reports : List (Report F)) : Prop :=
  Trace.Throughout (fun before r => r.notifies id → evaluationAt A id r.tick = some .firing ∨
    (evaluationAt A id r.tick = some .ok ∧ lastVerdict A id before = some .firing)) reports

/-- While a rule stays firing, what is sent of it is the window apart. -/
def Spaced (A : Arith F) (id : String) (w : Int) (reports : List (Report F)) : Prop :=
  ∀ before first mid last after, reports = before ++ first :: (mid ++ last :: after) →
    first.notifies id → last.notifies id →
    (∀ r ∈ first :: (mid ++ [last]), evaluationAt A id r.tick ≠ some .ok) →
    w ≤ last.tick.now - first.tick.now

theorem sentForCause_iff :
    SentForCause A id (run A windowSecs ticks) ↔
      Proper (max windowSecs 0) (verdicts A id ticks) := by
  induction ticks using reverseRecOn with
  | nil => exact ⟨fun _ => Trace.throughout_nil _, fun _ => Trace.throughout_nil _⟩
  | append_singleton ticks t ih =>
    obtain ⟨report, hrun, htick, hreport⟩ := run_concat A windowSecs ticks t
    obtain ⟨-, hnotifies⟩ := hreport id
    have hticks := (run_reports A windowSecs ticks id).2
    unfold SentForCause Proper at ih ⊢
    rw [hrun, Trace.throughout_concat, ih, verdicts_concat, htick, hnotifies, lastVerdict, hticks]
    cases evaluationAt A id t with
    | none => simp
    | some e =>
      rw [Option.map_some, Option.toList_some, Trace.throughout_concat]
      apply and_congr_right
      intro _
      cases e with
      | firing | ok => simp

theorem silent_of_cause (hcause : SentForCause A id reports)
    (hrecords : Trace.Throughout (fun _ r => r.records id ↔ r.notifies id) reports) :
    SilentUnlessFiring A id reports := by
  intro hnever r hr
  obtain ⟨before, after, rfl⟩ := append_of_mem hr
  have hquiet : ¬ r.notifies id := by
    intro hnotifies
    rcases hcause before r after rfl hnotifies with hfiring | ⟨-, hlast⟩
    · exact hnever r hr hfiring
    obtain ⟨v, hv, hfiring⟩ := Option.map_eq_some_iff.mp hlast
    obtain ⟨t, ht, hverdict⟩ := mem_filterMap.mp (mem_of_getLast? hv)
    obtain ⟨earlier, hearlier, rfl⟩ := mem_map.mp ht
    obtain ⟨e, he, rfl⟩ := Option.map_eq_some_iff.mp hverdict
    exact hnever earlier (mem_append_left _ hearlier) (he.trans (congrArg some hfiring))
  exact ⟨hquiet, fun hrecord => hquiet ((hrecords before r after rfl).mp hrecord)⟩

theorem spaced_run : Spaced A id (max windowSecs 0) (run A windowSecs ticks) := by
  intro before first mid last after hrun hfirst hlast hfiring
  have hreports := (run_reports A windowSecs ticks id).1
  obtain ⟨e, he, hsent⟩ := (hreports before first _ hrun).2.mp hfirst
  have hlater : run A windowSecs ticks = (before ++ first :: mid) ++ last :: after := by
    rw [hrun, append_assoc, cons_append]
  obtain ⟨e', he', hsent'⟩ := (hreports (before ++ first :: mid) last after hlater).2.mp hlast
  -- every verdict from the first notification to the last is a firing one
  have hown : ∀ r ∈ first :: (mid ++ [last]), ∀ found, evaluationAt A id r.tick = some found →
      found = .firing := by
    intro r hr found hfound
    cases found with
    | firing => rfl
    | ok => exact absurd hfound (hfiring r hr)
  obtain rfl := hown first mem_cons_self e he
  obtain rfl := hown last (by simp) e' he'
  have hverdicts : verdicts A id ((before ++ first :: mid).map Report.tick) =
      verdicts A id (before.map Report.tick) ++
        (.firing, first.tick.now) :: verdicts A id (mid.map Report.tick) := by
    simp [verdicts, he]
  have hmid : ∀ v ∈ verdicts A id (mid.map Report.tick), v.1 = .firing := by
    intro v hv
    obtain ⟨t, ht, hverdict⟩ := mem_filterMap.mp hv
    obtain ⟨r, hr, rfl⟩ := mem_map.mp ht
    obtain ⟨found, hfound, rfl⟩ := Option.map_eq_some_iff.mp hverdict
    exact hown r (by simp [hr]) found hfound
  obtain ⟨changedAt, sent, hstate, hle⟩ := sent_since (le_max_right windowSecs 0) hsent hmid
  unfold Sends at hsent'
  rw [hverdicts, hstate, decideState_same] at hsent'
  split at hsent'
  · rename_i hlong
    have hspan := le_sub_of_le_satSubI64 (le_max_right windowSecs 0) hlong
    dsimp only at hspan
    omega
  · cases hsent'

/-- A rule is sent for its alerts only exactly when it is never found ok before it was
firing, and never found ok once more when the window has passed since it went back. -/
theorem alerts_sent_for_alerts_iff (A : Arith F) (windowSecs : Int) (ticks : List (Tick F))
    (id : String) :
    (SilentUnlessFiring A id (run A windowSecs ticks) ∧
      SentForCause A id (run A windowSecs ticks) ∧
      Spaced A id (max windowSecs 0) (run A windowSecs ticks)) ↔
    Quiet (max windowSecs 0) (verdicts A id ticks) := by
  rw [← proper_iff_quiet, ← sentForCause_iff]
  constructor
  · rintro ⟨-, hcause, -⟩
    exact hcause
  intro hcause
  have hreports := (run_reports A windowSecs ticks id).1
  exact ⟨silent_of_cause hcause fun before r after heq => (hreports before r after heq).1, hcause,
    spaced_run⟩

end runs

/-! ## A rule that never fires -/

/-- Whole numbers in place of floating-point ones. -/
def wholes : Arith Int where
  zero := 0
  add := (· + ·)
  sub := (· - ·)
  abs := fun n => n.natAbs
  lt := fun a b => decide (a < b)
  le := fun a b => decide (a ≤ b)
  epsilon := 1
  isFinite := fun _ => true
  display := toString

def blocksRule : AlertRule Int :=
  ⟨"r1", "blocks", "waf.blocks", .greater, 100, 300, "warn", true, []⟩

/-- A minute without traffic. -/
def quietTick (now : Int) : Tick Int where
  now := now
  rules := [blocksRule]
  nodup_ids := by decide
  channels := []
  metrics := []
  transport := ⟨fun _ => none, fun _ => none⟩

/-- Nothing was ever blocked, and yet the rule is sent at the first tick and again five
minutes later. -/
theorem idle_rule_is_sent :
    (∀ r ∈ run wholes 300 [quietTick 0, quietTick 60, quietTick 300],
      evaluationAt wholes "r1" r.tick ≠ some .firing) ∧
    (run wholes 300 [quietTick 0, quietTick 60, quietTick 300]).map (fun r => r.sent.length) =
      [1, 0, 1] := by
  decide +kernel

end Alerts
