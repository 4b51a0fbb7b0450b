import Pingap.KeyedMap
import Pingap.MachineArith
import Pingap.WafPrefilter

/-!
# The rule engine

Requests and responses are scored by one loop: the rules in their order, those the
configuration switches off or the prefilter leaves out skipped, the time budget
looked at before each of the others. The two surfaces differ in their input, their
gates and the verdict made of the score.
-/

namespace WafEngine

open MachineArith WafRule WafPrefilter List
open Utf8 (Bytes)

/-! ## Configuration -/

inductive RequestMode where
  | off
  | detect
  | block
  | challenge
deriving DecidableEq, Repr

inductive ResponseMode where
  | off
  | detect
  | redact
deriving DecidableEq, Repr

inductive ExhaustedPolicy where
  | allow
  | block
deriving DecidableEq, Repr

/-- A configuration that passed validation. -/
structure ValidatedConfig where
  requestModes : KeyedMap Category RequestMode := ∅
  responseModes : KeyedMap Category ResponseMode := ∅
  profile : String := "default"
  paranoia : Paranoia := .one
  anomalyThreshold : Nat := 5
  budget : Duration := 10000000
  onBudgetExhausted : ExhaustedPolicy := .allow
  bodyInspectLimit : Nat := 131072
  responsePrefixLimit : Nat := 65536
  threshold_pos : 0 < anomalyThreshold := by decide
  threshold_le : anomalyThreshold ≤ u32Max := by decide
  budget_pos : 0 < budget := by decide
  limit_pos : 0 < bodyInspectLimit := by decide

namespace ValidatedConfig

def standard : ValidatedConfig := {}

def requestMode (c : ValidatedConfig) (category : Category) : RequestMode :=
  if category.isResponseSide then .off else (c.requestModes.lookup category).getD .detect

def responseMode (c : ValidatedConfig) (category : Category) : ResponseMode :=
  if category.isResponseSide then (c.responseModes.lookup category).getD .detect else .off

end ValidatedConfig

/-! ## Gates -/

inductive Gate where
  | skip
  | detect
  | enforce
  | challenge
deriving DecidableEq, Repr

def Gate.ofRequestMode : RequestMode → Gate
  | .off => .skip
  | .detect => .detect
  | .block => .enforce
  | .challenge => .challenge

def Gate.ofResponseMode : ResponseMode → Gate
  | .off => .skip
  | .detect => .detect
  | .redact => .enforce

/-- A rule's own action on top of its category's mode. -/
def resolveGate (category : Gate) (declared : Option RawMode) (responseSide : Bool) : Gate :=
  match declared with
  | none => category
  | some .off => .skip
  | some .detect => .detect
  | some .block => if responseSide then .detect else .enforce
  | some .challenge => if responseSide then .detect else .challenge
  | some .redact => if responseSide then .enforce else .detect

def categoryGate (config : ValidatedConfig) (responseSide : Bool) (category : Category) : Gate :=
  if responseSide then Gate.ofResponseMode (config.responseMode category)
  else Gate.ofRequestMode (config.requestMode category)

/-- The gate of a rule on one surface, or none when it does not take part. -/
def ruleGate {ι : Type} (config : ValidatedConfig) (responseSide : Bool) (rule : Rule ι) :
    Option Gate :=
  let gate :=
    resolveGate (categoryGate config responseSide rule.category) rule.actionOverride responseSide
  if gate ≠ .skip ∧ rule.paranoia.level ≤ config.paranoia.level then some gate else none

def resolveGates {ι : Type} (config : ValidatedConfig) (rules : List (Rule ι))
    (responseSide : Bool) : List (Option Gate) :=
  rules.map (ruleGate config responseSide)

/-! ## Scoring -/

structure Scorer where
  hits : List Hit
  total : Nat
  enforcing : Nat
  challengeOnly : Bool
  blockSeen : Bool
  threshold : Nat
deriving DecidableEq, Repr

namespace Scorer

def new (threshold : Nat) : Scorer := ⟨[], 0, 0, true, false, threshold⟩

def record (s : Scorer) (hit : Hit) (gate : Gate) : Scorer where
  hits := s.hits ++ [hit]
  total := satAdd32 s.total hit.score
  enforcing :=
    if gate = .enforce ∨ gate = .challenge then satAdd32 s.enforcing hit.score else s.enforcing
  challengeOnly := if gate = .enforce then false else s.challengeOnly
  blockSeen := if gate = .enforce then true else s.blockSeen
  threshold := s.threshold

def reached (s : Scorer) : Bool := decide (s.threshold ≤ s.enforcing)

end Scorer

/-! ## The time budget -/

/-- How long the evaluation of rules takes, from the start of the budget: what has
been evaluated decides it, and less work never takes longer. -/
structure Timer (ρ : Type) where
  elapsed : List ρ → Duration
  mono : ∀ l l' : List ρ, l.Sublist l' → elapsed l ≤ elapsed l'

/-- Every rule takes a microsecond. -/
def perRule (ρ : Type) : Timer ρ where
  elapsed l := 1000 * l.length
  mono _ _ h := Nat.mul_le_mul_left 1000 h.length_le

structure Exhausted where
  elapsed : Duration
  limit : Duration
  rulesChecked : Nat
  policy : ExhaustedPolicy
deriving DecidableEq, Repr

/-- The loop between two rules. -/
structure Progress (ι : Type) where
  scorer : Scorer
  ran : List (Rule ι)
  exhausted : Option Exhausted

def Progress.rulesChecked {ι : Type} (s : Progress ι) : Nat := min s.ran.length u32Max

/-- A rule with its gate, and whether the prefilter lets it through. -/
structure Item (ι : Type) where
  rule : Rule ι
  gate : Option Gate
  present : Bool

def score {ι : Type} (input : ι) (rule : Rule ι) (gate : Gate) (s : Scorer) : Scorer :=
  match rule.evaluate input with
  | some hit => s.record hit gate
  | none => s

/-- The rule loop of both surfaces. -/
def evaluateRules {ι : Type} (timer : Timer (Rule ι)) (limit : Duration) (policy : ExhaustedPolicy)
    (input : ι) : List (Item ι) → Progress ι → Progress ι
  | [], s => s
  | item :: rest, s =>
    match item.gate with
    | none => evaluateRules timer limit policy input rest s
    | some gate =>
      if !item.present then evaluateRules timer limit policy input rest s
      else if limit ≤ timer.elapsed s.ran then
        { s with exhausted := some ⟨timer.elapsed s.ran, limit, s.rulesChecked, policy⟩ }
      else
        evaluateRules timer limit policy input rest
          { s with ran := s.ran ++ [item.rule], scorer := score input item.rule gate s.scorer }

/-! ## Verdicts -/

inductive RequestVerdict where
  | allow
  | detected (hits : List Hit) (score : Nat)
  | block (hits : List Hit) (score : Nat)
  | challenge (hits : List Hit) (score : Nat)
deriving DecidableEq, Repr

inductive ResponseVerdict where
  | allow
  | detected (hits : List Hit) (score : Nat)
  | redact (hits : List Hit) (score : Nat)
deriving DecidableEq, Repr

namespace RequestVerdict

def hits : RequestVerdict → List Hit
  | .allow => []
  | .detected hits _ => hits
  | .block hits _ => hits
  | .challenge hits _ => hits

def score : RequestVerdict → Nat
  | .allow => 0
  | .detected _ score => score
  | .block _ score => score
  | .challenge _ score => score

def isEnforcing : RequestVerdict → Bool
  | .block .. => true
  | .challenge .. => true
  | _ => false

def isChallenge : RequestVerdict → Bool
  | .challenge .. => true
  | _ => false

end RequestVerdict

namespace ResponseVerdict

def hits : ResponseVerdict → List Hit
  | .allow => []
  | .detected hits _ => hits
  | .redact hits _ => hits

def score : ResponseVerdict → Nat
  | .allow => 0
  | .detected _ score => score
  | .redact _ score => score

def isEnforcing : ResponseVerdict → Bool
  | .redact .. => true
  | _ => false

end ResponseVerdict

/-- A verdict and how it was reached. -/
structure Evaluation (V : Type) where
  verdict : V
  rulesChecked : Nat
  truncated : Bool
  exhausted : Option Exhausted
  elapsed : Duration
  enforcingScore : Nat

/-- Exhaustion forces enforcement only under the `block` policy. -/
def forcedByPolicy (exhausted : Option Exhausted) : Bool :=
  exhausted.any fun e => e.policy == .block

def finishRequest (s : Scorer) (forced : Bool) : RequestVerdict :=
  if forced || s.reached then
    if !forced && s.challengeOnly && !s.blockSeen then .challenge s.hits s.total
    else .block s.hits s.total
  else if s.hits.isEmpty then .allow
  else .detected s.hits s.total

def finishResponse (s : Scorer) : ResponseVerdict :=
  if s.reached then .redact s.hits s.total
  else if s.hits.isEmpty then .allow
  else .detected s.hits s.total

/-- The part of a body that is inspected, and whether anything was left out. -/
def clamp (body : Option Bytes) (limit : Nat) : Option Bytes × Bool :=
  match body with
  | none => (none, false)
  | some b => if limit < b.length then (some (b.take limit), true) else (some b, false)

/-! ## The engine -/

structure RuleEngine where
  config : ValidatedConfig
  requestRules : List (Rule RequestInput)
  responseRules : List (Rule ResponseInput)
  requestPrefilter : Prefilter
  responsePrefilter : Prefilter
  requestGates : List (Option Gate)
  responseGates : List (Option Gate)

/-- The mask the walk starts from: the ungated rules and those that do not take part. -/
def presentMask (p : Prefilter) (gates : List (Option Gate)) : List Bool :=
  List.zipWith (fun free gate => free || gate.isNone) p.ungated gates

def items {ι : Type} (rules : List (Rule ι)) (gates : List (Option Gate)) (present : List Bool) :
    List (Item ι) :=
  List.zipWith (fun rule (x : Option Gate × Bool) => ⟨rule, x.1, x.2⟩) rules (gates.zip present)

/-- The rule loop of an engine on one surface, from the start. -/
def runItems {ι : Type} (config : ValidatedConfig) (timer : Timer (Rule ι)) (input : ι)
    (l : List (Item ι)) : Progress ι :=
  evaluateRules timer config.budget config.onBudgetExhausted input l
    ⟨Scorer.new config.anomalyThreshold, [], none⟩

/-- The result of the rule loop as an evaluation. -/
def Progress.evaluation {ι V : Type} (s : Progress ι) (timer : Timer (Rule ι)) (truncated : Bool)
    (verdict : V) : Evaluation V where
  verdict := verdict
  rulesChecked := s.rulesChecked
  truncated := truncated
  exhausted := s.exhausted
  elapsed := timer.elapsed s.ran
  enforcingScore := s.scorer.enforcing

namespace RuleEngine

/-- Put an engine together from its final rule lists. -/
def assemble (automaton : List String → Option Search) (config : ValidatedConfig)
    (requestRules : List (Rule RequestInput)) (responseRules : List (Rule ResponseInput)) :
    RuleEngine where
  config := config
  requestRules := requestRules
  responseRules := responseRules
  requestPrefilter := Prefilter.build automaton requestRules
  responsePrefilter := Prefilter.build automaton responseRules
  requestGates := resolveGates config requestRules false
  responseGates := resolveGates config responseRules true

section evaluate

variable (urlDecode : String → Decoded)

def scopedRequest (e : RuleEngine) (input : RequestInput) : RequestInput :=
  { input with body := (clamp input.body e.config.bodyInspectLimit).1 }

def requestItems (e : RuleEngine) (input : RequestInput) : List (Item RequestInput) :=
  items e.requestRules e.requestGates
    (e.requestPrefilter.markRequest urlDecode (e.scopedRequest input)
      (presentMask e.requestPrefilter e.requestGates))

def runRequest (e : RuleEngine) (timer : Timer (Rule RequestInput)) (input : RequestInput) :
    Progress RequestInput :=
  runItems e.config timer (e.scopedRequest input) (e.requestItems urlDecode input)

def evaluateRequest (e : RuleEngine) (timer : Timer (Rule RequestInput)) (input : RequestInput) :
    Evaluation RequestVerdict :=
  let out := e.runRequest urlDecode timer input
  out.evaluation timer ((clamp input.body e.config.bodyInspectLimit).2 || input.bodyTruncated)
    (finishRequest out.scorer (forcedByPolicy out.exhausted))

end evaluate

def scopedResponse (e : RuleEngine) (input : ResponseInput) : ResponseInput :=
  { input with bodyChunk := (clamp input.bodyChunk e.config.responsePrefixLimit).1 }

def responseItems (e : RuleEngine) (input : ResponseInput) : List (Item ResponseInput) :=
  items e.responseRules e.responseGates
    (e.responsePrefilter.markResponse (e.scopedResponse input)
      (presentMask e.responsePrefilter e.responseGates))

def runResponse (e : RuleEngine) (timer : Timer (Rule ResponseInput)) (input : ResponseInput) :
    Progress ResponseInput :=
  runItems e.config timer (e.scopedResponse input) (e.responseItems input)

def evaluateResponse (e : RuleEngine) (timer : Timer (Rule ResponseInput))
    (input : ResponseInput) : Evaluation ResponseVerdict :=
  let out := e.runResponse timer input
  out.evaluation timer
    ((clamp input.bodyChunk e.config.responsePrefixLimit).2 || input.bodyTruncated)
    (finishResponse out.scorer)

end RuleEngine

/-! ## What the loop computes -/

section loop

variable {ι : Type} {timer : Timer (Rule ι)} {limit : Duration} {policy : ExhaustedPolicy}
  {input : ι}

/-- The score of the rules that take part, each of them evaluated. -/
def ideal (input : ι) (rules : List (Rule ι × Option Gate)) (s : Scorer) : Scorer :=
  rules.foldl (fun s x => x.2.elim s fun gate => score input x.1 gate s) s

theorem ideal_cons (x : Rule ι × Option Gate) (rules : List (Rule ι × Option Gate)) (s : Scorer) :
    ideal input (x :: rules) s =
      ideal input rules (x.2.elim s fun gate => score input x.1 gate s) := rfl

/-- A rule as the prefilter lets it take part. -/
def Item.effective (x : Item ι) : Rule ι × Option Gate :=
  (x.rule, if x.present then x.gate else none)

/-- A loop that does not run out of time has scored every rule let through. -/
theorem evaluateRules_scorer (l : List (Item ι)) (s : Progress ι)
    (hdone : (evaluateRules timer limit policy input l s).exhausted = none) :
    (evaluateRules timer limit policy input l s).scorer =
      ideal input (l.map Item.effective) s.scorer := by
  induction l generalizing s with
  | nil => rfl
  | cons x l ih =>
    rw [map_cons, ideal_cons]
    cases hgate : x.gate with
    | none =>
      simp only [evaluateRules, hgate] at hdone ⊢
      simpa [Item.effective, hgate] using ih s hdone
    | some gate =>
      cases hpresent : x.present with
      | false =>
        simp only [evaluateRules, hgate, hpresent, Bool.not_false, if_true] at hdone ⊢
        simpa [Item.effective, hpresent] using ih s hdone
      | true =>
        simp only [evaluateRules, hgate, hpresent, Bool.not_true, Bool.false_eq_true,
          if_false] at hdone ⊢
        split at hdone
        · cases hdone
        case isFalse htime =>
          rw [if_neg htime]
          simpa [Item.effective, hgate, hpresent] using ih _ hdone

def Item.pair (x : Item ι) : Rule ι × Option Gate := (x.rule, x.gate)

/-- The rules the prefilter leaves out would not match. -/
def Silent (input : ι) (l : List (Item ι)) : Prop :=
  ∀ x ∈ l, x.present = false → x.rule.evaluate input = none

/-- Leaving out rules that would not match leaves the score as it is. -/
theorem ideal_effective (s : Scorer) (hs : Silent input l) :
    ideal input (l.map Item.effective) s = ideal input (l.map Item.pair) s := by
  induction l generalizing s with
  | nil => rfl
  | cons x l ih =>
    have hrest : Silent input l := fun y hy => hs y (mem_cons_of_mem _ hy)
    simp only [map_cons, ideal_cons, ih _ hrest]
    congr 1
    cases hpresent : x.present with
    | true => simp [Item.effective, Item.pair, hpresent]
    | false =>
      have hnone := hs x mem_cons_self hpresent
      cases hgate : x.gate <;> simp [Item.effective, Item.pair, hpresent, hgate, score, hnone]

/-- The loop would evaluate the rule. -/
def Item.runs (x : Item ι) : Bool := x.gate.isSome && x.present

/-- The rules the loop evaluates when it has time for all of them. -/
def work (l : List (Item ι)) : List (Rule ι) := (l.filter Item.runs).map Item.rule

theorem work_cons_of_runs (l : List (Item ι)) (h : x.runs = true) :
    work (x :: l) = x.rule :: work l := by
  simp [work, h]

theorem work_cons_of_not_runs (l : List (Item ι)) (h : x.runs = false) :
    work (x :: l) = work l := by
  simp [work, h]

theorem evaluateRules_cons_of_not_runs (l : List (Item ι)) (s : Progress ι) (h : x.runs = false) :
    evaluateRules timer limit policy input (x :: l) s =
      evaluateRules timer limit policy input l s := by
  cases hgate : x.gate with
  | none => simp only [evaluateRules, hgate]
  | some gate =>
    have hpresent : x.present = false := by simpa [Item.runs, hgate] using h
    simp [evaluateRules, hgate, hpresent]

theorem gate_of_runs {x : Item ι} (h : x.runs = true) : ∃ gate, x.gate = some gate ∧ x.present = true := by
  obtain ⟨hgate, hpresent⟩ := Bool.and_eq_true_iff.mp h
  obtain ⟨gate, hgate⟩ := Option.isSome_iff_exists.mp hgate
  exact ⟨gate, hgate, hpresent⟩

/-- The last look at the clock decides whether the loop runs out of time. -/
theorem exhausted_iff (l : List (Item ι)) {s : Progress ι} (hs : s.exhausted = none) :
    (evaluateRules timer limit policy input l s).exhausted ≠ none ↔
      work l ≠ [] ∧ limit ≤ timer.elapsed (s.ran ++ (work l).dropLast) := by
  induction l generalizing s with
  | nil => simp [evaluateRules, work, hs]
  | cons x l ih =>
    cases hruns : x.runs with
    | false =>
      rw [evaluateRules_cons_of_not_runs l s hruns, work_cons_of_not_runs l hruns]
      exact ih hs
    | true =>
      rw [work_cons_of_runs l hruns]
      obtain ⟨gate, hgate, hpresent⟩ := gate_of_runs hruns
      simp only [evaluateRules, hgate, hpresent, Bool.not_true, Bool.false_eq_true, if_false]
      split
      case isTrue hlate =>
        have hmore := timer.mono s.ran (s.ran ++ (x.rule :: work l).dropLast)
          (sublist_append_left _ _)
        simpa using Nat.le_trans hlate hmore
      case isFalse hearly =>
        refine (@ih ⟨_, s.ran ++ [x.rule], s.exhausted⟩ hs).trans ?_
        cases hwork : work l with
        | nil => simpa using hearly
        | cons r w => simp

/-- Less work never makes the loop run out of time. -/
theorem runItems_lifts (hwork : (work l').Sublist (work l))
    (hdone : (runItems config timer input l).exhausted = none) :
    (runItems config timer input l').exhausted = none := by
  by_contra hlate
  obtain ⟨hne, hlimit⟩ := (exhausted_iff l' rfl).mp hlate
  refine (exhausted_iff l rfl).mpr ⟨?_, ?_⟩ hdone
  · intro hempty
    rw [hempty] at hwork
    exact hne (List.sublist_nil.mp hwork)
  · have hlast : (work l').dropLast.Sublist (work l).dropLast := by
      simpa using hwork.reverse.tail
    exact Nat.le_trans hlimit (timer.mono _ _ hlast)

/-- One list of items asks for no more than another, rule by rule. -/
theorem work_sublist {l' l : List (Item ι)}
    (h : Forall₂ (fun y x => y.rule = x.rule ∧ (y.runs = true → x.runs = true)) l' l) :
    (work l').Sublist (work l) := by
  induction h with
  | nil => exact Sublist.refl _
  | @cons y x l' l hyx _ ih =>
    cases hy : y.runs with
    | false =>
      rw [work_cons_of_not_runs l' hy]
      cases hx : x.runs with
      | false => rw [work_cons_of_not_runs l hx]; exact ih
      | true => rw [work_cons_of_runs l hx]; exact ih.cons _
    | true =>
      rw [work_cons_of_runs l' hy, work_cons_of_runs l (hyx.2 hy), hyx.1]
      exact ih.cons_cons _

end loop

/-! ## The items of an engine -/

section items

variable {ι : Type}

theorem getElem?_of_mem_items (hx : x ∈ items rules gates present) :
    ∃ i : Nat, rules[i]? = some x.rule ∧ gates[i]? = some x.gate ∧
      present[i]? = some x.present := by
  obtain ⟨i, hi⟩ := List.mem_iff_getElem?.mp hx
  obtain ⟨rule, pair, hrule, hpair, rfl⟩ := List.getElem?_zipWith_eq_some.mp hi
  obtain ⟨hgate, hpresent⟩ := List.getElem?_zip_eq_some.mp hpair
  exact ⟨i, hrule, hgate, hpresent⟩

theorem forall₂_items (R : Item ι → Item ι → Prop) (rules : List (Rule ι))
    (gates gates' : List (Option Gate)) (present present' : List Bool)
    (hgates : gates.length = gates'.length) (hpresent : present.length = present'.length)
    (h : ∀ (i : Nat) rule gate gate' b b', rules[i]? = some rule → gates[i]? = some gate →
      gates'[i]? = some gate' → present[i]? = some b → present'[i]? = some b' →
      R ⟨rule, gate, b⟩ ⟨rule, gate', b'⟩) :
    Forall₂ R (items rules gates present) (items rules gates' present') := by
  induction rules generalizing gates gates' present present' with
  | nil => exact Forall₂.nil
  | cons rule rules ih =>
    match gates, gates', present, present', hgates, hpresent with
    | [], [], _, _, _, _ => exact Forall₂.nil
    | gate :: gates, gate' :: gates', [], [], _, _ => exact Forall₂.nil
    | gate :: gates, gate' :: gates', b :: present, b' :: present', hgates, hpresent =>
      exact Forall₂.cons (h 0 rule gate gate' b b' rfl rfl rfl rfl rfl)
        (ih gates gates' present present' (Nat.succ.inj hgates) (Nat.succ.inj hpresent)
          fun i => h (i + 1))

/-- But for its presence an item is fixed by the rule and its gate. -/
theorem items_pair (rules : List (Rule ι)) (gates : List (Option Gate)) (present : List Bool)
    (h : present.length = rules.length) :
    (items rules gates present).map Item.pair = rules.zip gates := by
  induction rules generalizing gates present with
  | nil => rfl
  | cons rule rules ih =>
    cases present with
    | nil => cases h
    | cons b present =>
      cases gates with
      | nil => rfl
      | cons gate gates =>
        have hrest := ih gates present (Nat.succ.inj h)
        simpa [items, Item.pair] using hrest

end items

/-! ## What a verdict says -/

theorem threshold_score (input : ι) (rule : Rule ι) (gate : Gate) (s : Scorer) :
    (score input rule gate s).threshold = s.threshold := by
  simp only [score]
  split <;> rfl

theorem threshold_evaluateRules (timer : Timer (Rule ι)) (limit : Duration)
    (policy : ExhaustedPolicy) (input : ι) (l : List (Item ι)) (s : Progress ι) :
    (evaluateRules timer limit policy input l s).scorer.threshold = s.scorer.threshold := by
  induction l generalizing s with
  | nil => rfl
  | cons x l ih =>
    simp only [evaluateRules]
    split
    · exact ih s
    split
    · exact ih s
    split
    · rfl
    · rw [ih]
      exact threshold_score ..

theorem isEnforcing_finishRequest (s : Scorer) (forced : Bool) :
    (finishRequest s forced).isEnforcing = (forced || s.reached) := by
  simp only [finishRequest]
  cases hreached : forced || s.reached with
  | true =>
    rw [if_pos rfl]
    split <;> rfl
  | false =>
    rw [if_neg Bool.false_ne_true]
    split <;> rfl

theorem finishRequest_eq_allow_iff (s : Scorer) (forced : Bool) :
    finishRequest s forced = .allow ↔ (finishRequest s forced).isEnforcing = false ∧
      (finishRequest s forced).hits = [] := by
  refine ⟨fun h => by rw [h]; exact ⟨rfl, rfl⟩, ?_⟩
  simp only [finishRequest]
  rintro ⟨hquiet, hhits⟩
  split at hquiet
  · split at hquiet <;> cases hquiet
  case isFalse hnot =>
    rw [if_neg hnot] at hhits ⊢
    split at hhits
    case isTrue hempty => rw [if_pos hempty]
    case isFalse hsome => exact absurd (List.isEmpty_iff.mpr hhits) hsome

namespace RuleEngine

variable (urlDecode : String → Decoded) (e : RuleEngine) (timer : Timer (Rule RequestInput))
  (input : RequestInput)

/-- A request is enforced on when its time ran out under the `block` policy or its
enforcing score reaches the threshold. -/
theorem isEnforcing_evaluateRequest :
    (e.evaluateRequest urlDecode timer input).verdict.isEnforcing =
      (forcedByPolicy (e.evaluateRequest urlDecode timer input).exhausted ||
        decide (e.config.anomalyThreshold ≤
          (e.evaluateRequest urlDecode timer input).enforcingScore)) := by
  have hthreshold : (e.runRequest urlDecode timer input).scorer.threshold =
      e.config.anomalyThreshold := threshold_evaluateRules ..
  have henforcing : (e.evaluateRequest urlDecode timer input).verdict.isEnforcing =
      (forcedByPolicy (e.runRequest urlDecode timer input).exhausted ||
        (e.runRequest urlDecode timer input).scorer.reached) := isEnforcing_finishRequest ..
  rw [henforcing, Scorer.reached, hthreshold]
  rfl

theorem evaluateRequest_eq_allow_iff :
    (e.evaluateRequest urlDecode timer input).verdict = .allow ↔
      (e.evaluateRequest urlDecode timer input).verdict.isEnforcing = false ∧
        (e.evaluateRequest urlDecode timer input).verdict.hits = [] :=
  finishRequest_eq_allow_iff ..

end RuleEngine

theorem RequestVerdict.isEnforcing_of_isChallenge {v : RequestVerdict}
    (h : v.isChallenge = true) : v.isEnforcing = true := by
  cases v <;> first | rfl | cases h

end WafEngine
