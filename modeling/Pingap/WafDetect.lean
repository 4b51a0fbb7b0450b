import Pingap.WafEquivalence

/-!
# Rules that only detect

Two engines are compared: one with rules that only detect, one without them, either
because their categories are switched off or because the rules are gone. What
decides on enforcement is the list of the hits of the other rules, `enforcement`;
the two engines have the same list, so they take the same action.
-/

namespace WafDetect

open MachineArith WafRule WafPrefilter WafEngine WafEquivalence List
open Prefilter
open RuleEngine hiding config

/-! ## What the score says about enforcement -/

inductive Action where
  | block
  | challenge
  | redact
deriving DecidableEq, Repr

def requestAction : RequestVerdict → Option Action
  | .block .. => some .block
  | .challenge .. => some .challenge
  | _ => none

def responseAction : ResponseVerdict → Option Action
  | .redact .. => some .redact
  | _ => none

/-- Scores that agree on everything the action depends on. -/
structure SameStanding (s t : Scorer) : Prop where
  enforcing : s.enforcing = t.enforcing
  challengeOnly : s.challengeOnly = t.challengeOnly
  blockSeen : s.blockSeen = t.blockSeen
  threshold : s.threshold = t.threshold

theorem SameStanding.refl (s : Scorer) : SameStanding s s := ⟨rfl, rfl, rfl, rfl⟩

theorem SameStanding.symm (h : SameStanding s t) : SameStanding t s :=
  ⟨h.enforcing.symm, h.challengeOnly.symm, h.blockSeen.symm, h.threshold.symm⟩

theorem SameStanding.trans (h : SameStanding s t) (h' : SameStanding t u) : SameStanding s u :=
  ⟨h.enforcing.trans h'.enforcing, h.challengeOnly.trans h'.challengeOnly,
    h.blockSeen.trans h'.blockSeen, h.threshold.trans h'.threshold⟩

theorem SameStanding.record (h : SameStanding s t) (hit : Hit) (gate : Gate) :
    SameStanding (s.record hit gate) (t.record hit gate) := by
  constructor <;> simp only [Scorer.record, h.enforcing, h.challengeOnly, h.blockSeen, h.threshold]

/-- A hit that only detects leaves the standing. -/
theorem record_detect : SameStanding (s.record hit .detect) s := by
  constructor <;> simp [Scorer.record]

theorem SameStanding.reached (h : SameStanding s t) : s.reached = t.reached := by
  simp only [Scorer.reached, h.enforcing, h.threshold]

theorem SameStanding.requestAction (h : SameStanding s t) (forced : Bool) :
    requestAction (finishRequest s forced) = requestAction (finishRequest t forced) := by
  simp only [finishRequest, h.reached, h.challengeOnly, h.blockSeen]
  split
  · split <;> rfl
  · split <;> split <;> rfl

theorem SameStanding.responseAction (h : SameStanding s t) :
    responseAction (finishResponse s) = responseAction (finishResponse t) := by
  simp only [finishResponse, h.reached]
  split
  · rfl
  · split <;> split <;> rfl

/-! ## The hits that count -/

section hits

variable {ι : Type} (input : ι)

/-- The hit of a rule that does more than detect. -/
def contribution (input : ι) (x : Rule ι × Option Gate) : Option (Hit × Gate) :=
  x.2.bind fun gate => if gate = .detect then none else (x.1.evaluate input).map (·, gate)

def enforcement (input : ι) (rules : List (Rule ι × Option Gate)) : List (Hit × Gate) :=
  rules.filterMap (contribution input)

def recordAll (hits : List (Hit × Gate)) (s : Scorer) : Scorer :=
  hits.foldl (fun s x => s.record x.1 x.2) s

theorem recordAll_sameStanding (hits : List (Hit × Gate)) (h : SameStanding s t) :
    SameStanding (recordAll hits s) (recordAll hits t) := by
  induction hits generalizing s t with
  | nil => exact h
  | cons x hits ih => exact ih (h.record x.1 x.2)

/-- One rule moves the standing by its contribution. -/
theorem score_sameStanding (x : Rule ι × Option Gate) (s : Scorer) :
    SameStanding (x.2.elim s fun gate => score input x.1 gate s)
      (recordAll (contribution input x).toList s) := by
  obtain ⟨rule, gate⟩ := x
  cases gate with
  | none => exact SameStanding.refl s
  | some gate =>
    by_cases hdetect : gate = .detect
    · subst hdetect
      cases hmatch : rule.evaluate input with
      | none => simp [contribution, score, hmatch, recordAll, SameStanding.refl]
      | some hit =>
        have hscore : (some Gate.detect).elim s (fun gate => score input rule gate s) =
            s.record hit .detect := by simp [score, hmatch]
        simp only [hscore]
        exact record_detect
    · cases hmatch : rule.evaluate input <;>
        simp [contribution, score, hmatch, hdetect, recordAll, SameStanding.refl]

theorem ideal_sameStanding (rules : List (Rule ι × Option Gate)) (s : Scorer) :
    SameStanding (ideal input rules s) (recordAll (enforcement input rules) s) := by
  induction rules generalizing s with
  | nil => exact SameStanding.refl s
  | cons x rules ih =>
    have hstep := recordAll_sameStanding (enforcement input rules) (score_sameStanding input x s)
    have hsplit : recordAll (enforcement input (x :: rules)) s =
        recordAll (enforcement input rules) (recordAll (contribution input x).toList s) := by
      simp only [enforcement, filterMap_cons, recordAll]
      cases contribution input x <;> rfl
    rw [ideal_cons, hsplit]
    exact (ih _).trans hstep

/-- The hits that count decide the standing. -/
theorem standing_of_enforcement (h : enforcement input rules = enforcement input rules') :
    SameStanding (ideal input rules s) (ideal input rules' s) := by
  refine (ideal_sameStanding input rules s).trans ?_
  rw [h]
  exact (ideal_sameStanding input rules' s).symm

end hits

/-! ## Gates switched off -/

section off

variable {ι : Type}

/-- The same item, or one that detected and no longer takes part. -/
def Quieter (y x : Item ι) : Prop :=
  y.rule = x.rule ∧
    ((y.gate = x.gate ∧ y.present = x.present) ∨ (x.gate = some .detect ∧ y.gate = none))

theorem Quieter.runs (h : Quieter y x) (hy : y.runs = true) : x.runs = true := by
  rcases h.2 with ⟨hgate, hpresent⟩ | ⟨-, hnone⟩
  · rw [← hy, Item.runs, Item.runs, hgate, hpresent]
  · rw [Item.runs, hnone] at hy
    cases hy

theorem Quieter.contribution (h : Quieter y x) (input : ι) :
    contribution input y.effective = contribution input x.effective := by
  rcases h.2 with ⟨hgate, hpresent⟩ | ⟨hdetect, hnone⟩
  · simp only [Item.effective, h.1, hgate, hpresent]
  · cases hp : x.present <;> simp [Item.effective, WafDetect.contribution, hdetect, hnone, hp]

theorem enforcement_of_quieter (h : Forall₂ Quieter l' l) :
    enforcement input (l'.map Item.effective) = enforcement input (l.map Item.effective) := by
  induction h with
  | nil => rfl
  | cons hyx _ ih =>
    simp only [enforcement, map_cons, filterMap_cons, hyx.contribution input] at ih ⊢
    rw [ih]

/-- A run whose items are quieter has the time, and its standing is the same. -/
theorem quieter_run (h : Forall₂ Quieter l' l) (config : ValidatedConfig)
    (timer : Timer (Rule ι)) (input : ι) (hdone : (runItems config timer input l).exhausted = none)
    :
    (runItems config timer input l').exhausted = none ∧
      SameStanding (runItems config timer input l').scorer (runItems config timer input l).scorer := by
  have hwork : (work l').Sublist (work l) := work_sublist (h.imp fun y x hyx => ⟨hyx.1, hyx.runs⟩)
  have hdone' := runItems_lifts hwork hdone
  refine ⟨hdone', ?_⟩
  rw [runItems, runItems, evaluateRules_scorer l _ hdone, evaluateRules_scorer l' _ hdone']
  exact standing_of_enforcement input (enforcement_of_quieter h)

/-- The items of two gate assignments, one quieter than the other. -/
theorem items_quieter (hgate : ∀ r, gate' r = gate r ∨ (gate r = some .detect ∧ gate' r = none))
    (hmarked : Marked p texts (presentMask p (rules.map gate)) marked)
    (hmarked' : Marked p texts (presentMask p (rules.map gate')) marked') :
    Forall₂ Quieter (items rules (rules.map gate') marked')
      (items rules (rules.map gate) marked) := by
  refine forall₂_items _ rules _ _ marked' marked (by simp) ?_ ?_
  · rw [hmarked.length, hmarked'.length]
    simp [presentMask]
  intro i rule g' g b' b hrule hg' hg hb' hb
  simp only [getElem?_map, hrule, Option.map_some, Option.some.injEq] at hg hg'
  refine ⟨rfl, (hgate rule).imp (fun hsame => ?_) fun h => ⟨hg ▸ h.1, hg' ▸ h.2⟩⟩
  have hmask : (presentMask p (rules.map gate'))[i]? = (presentMask p (rules.map gate))[i]? := by
    simp [presentMask, getElem?_zipWith, hrule, hsame]
  refine ⟨by rw [← hg', ← hg, hsame], ?_⟩
  exact Option.some.inj (hb'.symm.trans ((hmarked'.getElem?_congr hmarked hmask).trans hb))

end off

/-! ## Rules removed -/

section removed

variable {ι : Type} (automaton : List String → Option Search) (rules : List (Rule ι))
  (gate : Rule ι → Option Gate)

/-- The rules that do more than detect, or take no part. -/
def withoutDetect : List (Rule ι) := rules.filter fun r => decide (gate r ≠ some .detect)

theorem enforcement_withoutDetect :
    enforcement input ((withoutDetect rules gate).map fun r => (r, gate r)) =
      enforcement input (rules.map fun r => (r, gate r)) := by
  induction rules with
  | nil => rfl
  | cons r rules ih =>
    simp only [enforcement, withoutDetect, filter_cons, map_cons, filterMap_cons] at ih ⊢
    by_cases hdetect : gate r = some .detect
    · simpa [hdetect, contribution] using ih
    · rw [if_pos (decide_eq_true hdetect), map_cons, filterMap_cons, ih]

theorem zip_map_gate : rules.zip (rules.map gate) = rules.map fun r => (r, gate r) := by
  induction rules with
  | nil => rfl
  | cons r rules ih => simp [ih]

section

variable {input : ι} {texts : ι → List String} (hcomplete : Complete automaton)
    (hrules : ∀ r ∈ rules, gate r ≠ some .detect → Honours texts r)
    (hmarked : Marked (Prefilter.build automaton rules) (texts input)
      (presentMask (Prefilter.build automaton rules) (rules.map gate)) marked)
include hcomplete hrules hmarked

/-- With enforcing rules that keep their contract, the hits that count do not depend
on the prefilter. -/
theorem enforcement_items :
    enforcement input ((items rules (rules.map gate) marked).map Item.effective) =
      enforcement input (rules.map fun r => (r, gate r)) := by
  have hgates : (rules.map gate).length = rules.length := length_map _
  have hlength : marked.length = rules.length :=
    hmarked.length.trans (length_presentMask automaton rules _ hgates)
  rw [← zip_map_gate rules gate, ← items_pair rules (rules.map gate) marked hlength, enforcement,
    enforcement, filterMap_map, filterMap_map]
  refine filterMap_congr fun x hx => ?_
  obtain ⟨i, hplace, hgate, -⟩ := getElem?_of_mem_items hx
  rw [getElem?_map, hplace, Option.map_some, Option.some.injEq] at hgate
  simp only [Function.comp_apply, contribution, Item.effective, Item.pair]
  cases hpresent : x.present with
  | true => rfl
  | false =>
    by_cases hdetect : x.gate = some .detect
    · simp [hdetect]
    have hhonours := hrules x.rule (mem_of_getElem? hplace) (hgate ▸ hdetect)
    have hnone := item_silent automaton rules _ hcomplete hgates hmarked hx hhonours hpresent
    cases x.gate <;> simp [hnone]

/-- Without the rules that only detect the standing is the same. -/
theorem removed_run
    (hmarked' : Marked (Prefilter.build automaton (withoutDetect rules gate)) (texts input)
      (presentMask (Prefilter.build automaton (withoutDetect rules gate))
        ((withoutDetect rules gate).map gate)) marked')
    (hdone : (runItems config timer input (items rules (rules.map gate) marked)).exhausted = none)
    (hdone' : (runItems config timer input (items (withoutDetect rules gate)
      ((withoutDetect rules gate).map gate) marked')).exhausted = none) :
    SameStanding
      (runItems config timer input (items (withoutDetect rules gate)
        ((withoutDetect rules gate).map gate) marked')).scorer
      (runItems config timer input (items rules (rules.map gate) marked)).scorer := by
  have hkept : ∀ r ∈ withoutDetect rules gate, gate r ≠ some .detect → Honours texts r :=
    fun r hr => hrules r (mem_of_mem_filter hr)
  rw [runItems, runItems, evaluateRules_scorer _ _ hdone, evaluateRules_scorer _ _ hdone']
  refine standing_of_enforcement input ?_
  rw [enforcement_items automaton rules gate hcomplete hrules hmarked,
    enforcement_items automaton _ gate hcomplete hkept hmarked',
    enforcement_withoutDetect]

end

end removed

/-! ## The engines -/

/-- Some categories that detect are switched off, and nothing else changes. -/
structure TurnsOff (c c' : ValidatedConfig) : Prop where
  request : ∀ k, c'.requestMode k = c.requestMode k ∨
    (c.requestMode k = .detect ∧ c'.requestMode k = .off)
  response : ∀ k, c'.responseMode k = c.responseMode k ∨
    (c.responseMode k = .detect ∧ c'.responseMode k = .off)
  paranoia : c'.paranoia = c.paranoia
  anomalyThreshold : c'.anomalyThreshold = c.anomalyThreshold
  budget : c'.budget = c.budget
  onBudgetExhausted : c'.onBudgetExhausted = c.onBudgetExhausted
  bodyInspectLimit : c'.bodyInspectLimit = c.bodyInspectLimit
  responsePrefixLimit : c'.responsePrefixLimit = c.responsePrefixLimit

/-- A rule with its own action keeps its gate; another one follows its category. -/
theorem resolveGate_quieter (h : g' = g ∨ (g = .detect ∧ g' = .skip)) (declared : Option RawMode)
    (side : Bool) :
    resolveGate g' declared side = resolveGate g declared side ∨
      (resolveGate g declared side = .detect ∧ resolveGate g' declared side = .skip) := by
  cases declared with
  | none => exact h
  | some mode => exact .inl (by cases mode <;> rfl)

theorem categoryGate_quieter (h : TurnsOff c c') (side : Bool) (k : Category) :
    categoryGate c' side k = categoryGate c side k ∨
      (categoryGate c side k = .detect ∧ categoryGate c' side k = .skip) := by
  cases side with
  | true =>
    rcases h.response k with hsame | ⟨hdetect, hoff⟩
    · exact .inl (by simp [categoryGate, hsame])
    · exact .inr (by simp [categoryGate, hdetect, hoff, Gate.ofResponseMode])
  | false =>
    rcases h.request k with hsame | ⟨hdetect, hoff⟩
    · exact .inl (by simp [categoryGate, hsame])
    · exact .inr (by simp [categoryGate, hdetect, hoff, Gate.ofRequestMode])

theorem ruleGate_quieter (h : TurnsOff c c') (r : Rule ι) :
    ruleGate c' side r = ruleGate c side r ∨
      (ruleGate c side r = some .detect ∧ ruleGate c' side r = none) := by
  simp only [ruleGate, h.paranoia]
  rcases resolveGate_quieter (categoryGate_quieter h side r.category) r.actionOverride side with
    hsame | ⟨hdetect, hskip⟩
  · rw [hsame]
    exact .inl rfl
  rw [hdetect, hskip]
  by_cases hlevel : r.paranoia.level ≤ c.paranoia.level
  · exact .inr (by simp [hlevel])
  · exact .inl (by simp [hlevel])

theorem runItems_turnsOff (h : TurnsOff c c') (timer : Timer (Rule ι)) (input : ι)
    (l : List (Item ι)) : runItems c' timer input l = runItems c timer input l := by
  simp only [runItems, h.budget, h.onBudgetExhausted, h.anomalyThreshold]

/-- Two evaluations that take the same action at the same enforcing score. -/
def SameAction {V : Type} (action : V → Option Action) (a b : Evaluation V) : Prop :=
  action a.verdict = action b.verdict ∧ a.enforcingScore = b.enforcingScore

section engines

variable (urlDecode : String → Decoded) (automaton : List String → Option Search)
  (config : ValidatedConfig) (requestRules : List (Rule RequestInput))
  (responseRules : List (Rule ResponseInput))

/-- The engine without its rules that only detect. -/
def detectRemoved : RuleEngine :=
  RuleEngine.assemble automaton config (withoutDetect requestRules (ruleGate config false))
    (withoutDetect responseRules (ruleGate config true))

theorem sameAction_request {e e' : RuleEngine}
    (hdone : (e.runRequest urlDecode timer input).exhausted = none)
    (hdone' : (e'.runRequest urlDecode timer input).exhausted = none)
    (h : SameStanding (e'.runRequest urlDecode timer input).scorer
      (e.runRequest urlDecode timer input).scorer) :
    SameAction requestAction (e'.evaluateRequest urlDecode timer input)
      (e.evaluateRequest urlDecode timer input) := by
  refine ⟨?_, h.enforcing⟩
  simp only [evaluateRequest, Progress.evaluation, hdone, hdone']
  exact h.requestAction _

theorem sameAction_response {e e' : RuleEngine}
    (h : SameStanding (e'.runResponse timer input).scorer (e.runResponse timer input).scorer) :
    SameAction responseAction (e'.evaluateResponse timer input) (e.evaluateResponse timer input) :=
  ⟨h.responseAction, h.enforcing⟩

theorem request_off (h : TurnsOff config config') (timer : Timer (Rule RequestInput))
    (input : RequestInput)
    (hdone : ((assemble automaton config requestRules responseRules).evaluateRequest
      urlDecode timer input).exhausted = none) :
    SameAction requestAction
      ((assemble automaton config' requestRules responseRules).evaluateRequest
        urlDecode timer input)
      ((assemble automaton config requestRules responseRules).evaluateRequest
        urlDecode timer input) := by
  let e := assemble automaton config requestRules responseRules
  let e' := assemble automaton config' requestRules responseRules
  have hscoped : e'.scopedRequest input = e.scopedRequest input := by
    simp only [scopedRequest, e, e', assemble, h.bodyInspectLimit]
  have hquieter : Forall₂ Quieter (e'.requestItems urlDecode input)
      (e.requestItems urlDecode input) := by
    simp only [requestItems, hscoped]
    exact items_quieter
      (ruleGate_quieter h)
      (markRequest_marked ..) (markRequest_marked ..)
  have hreduced : e'.runRequest urlDecode timer input =
      runItems config timer (e.scopedRequest input) (e'.requestItems urlDecode input) := by
    rw [← hscoped, ← runItems_turnsOff h]
    rfl
  have hrun := quieter_run hquieter config timer (e.scopedRequest input) hdone
  rw [← hreduced] at hrun
  exact sameAction_request urlDecode hdone hrun.1 hrun.2

theorem response_off (h : TurnsOff config config') (timer : Timer (Rule ResponseInput))
    (input : ResponseInput)
    (hdone : ((assemble automaton config requestRules responseRules).evaluateResponse
      timer input).exhausted = none) :
    SameAction responseAction
      ((assemble automaton config' requestRules responseRules).evaluateResponse timer input)
      ((assemble automaton config requestRules responseRules).evaluateResponse timer input) := by
  let e := assemble automaton config requestRules responseRules
  let e' := assemble automaton config' requestRules responseRules
  have hscoped : e'.scopedResponse input = e.scopedResponse input := by
    simp only [scopedResponse, e, e', assemble, h.responsePrefixLimit]
  have hquieter : Forall₂ Quieter (e'.responseItems input) (e.responseItems input) := by
    simp only [responseItems, hscoped]
    exact items_quieter
      (ruleGate_quieter h)
      (markResponse_marked ..) (markResponse_marked ..)
  have hreduced : e'.runResponse timer input =
      runItems config timer (e.scopedResponse input) (e'.responseItems input) := by
    rw [← hscoped, ← runItems_turnsOff h]
    rfl
  have hrun := quieter_run hquieter config timer (e.scopedResponse input) hdone
  rw [← hreduced] at hrun
  exact sameAction_response hrun.2

/-- Rules that only detect never decide on enforcement: switching any of their
categories off, or taking these rules out of the lists, leaves the action and the
enforcing score as they are, on requests and on responses. -/
theorem detect_rules_never_enforce :
    (∀ config', TurnsOff config config' →
      (∀ timer input,
        ((RuleEngine.assemble automaton config requestRules responseRules).evaluateRequest
          urlDecode timer input).exhausted = none →
        SameAction requestAction
          ((RuleEngine.assemble automaton config' requestRules responseRules).evaluateRequest
            urlDecode timer input)
          ((RuleEngine.assemble automaton config requestRules responseRules).evaluateRequest
            urlDecode timer input)) ∧
      ∀ timer input,
        ((RuleEngine.assemble automaton config requestRules responseRules).evaluateResponse
          timer input).exhausted = none →
        SameAction responseAction
          ((RuleEngine.assemble automaton config' requestRules responseRules).evaluateResponse
            timer input)
          ((RuleEngine.assemble automaton config requestRules responseRules).evaluateResponse
            timer input)) ∧
    (Complete automaton →
      (∀ r ∈ requestRules, ruleGate config false r ≠ some .detect →
        Honours (requestTexts urlDecode) r) →
      (∀ r ∈ responseRules, ruleGate config true r ≠ some .detect → Honours responseFields r) →
      (∀ timer input,
        ((RuleEngine.assemble automaton config requestRules responseRules).evaluateRequest
          urlDecode timer input).exhausted = none →
        ((detectRemoved automaton config requestRules responseRules).evaluateRequest
          urlDecode timer input).exhausted = none →
        SameAction requestAction
          ((detectRemoved automaton config requestRules responseRules).evaluateRequest
            urlDecode timer input)
          ((RuleEngine.assemble automaton config requestRules responseRules).evaluateRequest
            urlDecode timer input)) ∧
      ∀ timer input,
        ((RuleEngine.assemble automaton config requestRules responseRules).evaluateResponse
          timer input).exhausted = none →
        ((detectRemoved automaton config requestRules responseRules).evaluateResponse
          timer input).exhausted = none →
        SameAction responseAction
          ((detectRemoved automaton config requestRules responseRules).evaluateResponse timer input)
          ((RuleEngine.assemble automaton config requestRules responseRules).evaluateResponse
            timer input)) := by
  refine ⟨fun config' hoff => ⟨?_, ?_⟩, fun hcomplete hrequest hresponse => ⟨?_, ?_⟩⟩
  · exact request_off urlDecode automaton config requestRules responseRules hoff
  · exact response_off automaton config requestRules responseRules hoff
  · intro timer input hdone hdone'
    refine sameAction_request urlDecode hdone hdone' ?_
    exact removed_run automaton requestRules (ruleGate config false) hcomplete hrequest
      (markRequest_marked ..)
      (markRequest_marked ..) hdone hdone'
  · intro timer input hdone hdone'
    refine sameAction_response ?_
    exact removed_run automaton responseRules (ruleGate config true) hcomplete
      hresponse (markResponse_marked ..) (markResponse_marked ..) hdone hdone'

end engines

/-! ### An engine that blocks one category and detects another -/

def blockingConfig : ValidatedConfig :=
  { ValidatedConfig.standard with
    requestModes := (∅ : KeyedMap Category RequestMode).insert .sqlInjection .block
    responseModes := (∅ : KeyedMap Category ResponseMode).insert .dataLeakage .redact }

/-- Cross-site scripting and web shells are no longer looked for. -/
def quietConfig : ValidatedConfig :=
  { blockingConfig with
    requestModes := blockingConfig.requestModes.insert .xss .off
    responseModes := blockingConfig.responseModes.insert .webShell .off }

theorem quietConfig_turnsOff : TurnsOff blockingConfig quietConfig where
  request k := by cases k <;> decide
  response k := by cases k <;> decide
  paranoia := rfl
  anomalyThreshold := rfl
  budget := rfl
  onBudgetExhausted := rfl
  bodyInspectLimit := rfl
  responsePrefixLimit := rfl

def nativeRequestRules : List (Rule RequestInput) :=
  [(literalPattern 1 .sqlInjection "union").requestRule (fun _ => .borrowed) .anyField,
    (literalPattern 2 .xss "<script").requestRule (fun _ => .borrowed) .anyField]

def nativeResponseRules : List (Rule ResponseInput) :=
  [(literalPattern 3 .dataLeakage "ora-").responseRule,
    (literalPattern 4 .webShell "<?php").responseRule]

def bothRequest : RequestInput := { method := "GET", uri := "/?q=union&r=<script" }

def bothResponse : ResponseInput := { status := 500, headers := [("x-error", "ORA-01 <?php")] }

theorem detect_rules_never_enforce_both :
    SameAction requestAction
        ((RuleEngine.assemble searchAll quietConfig nativeRequestRules
          nativeResponseRules).evaluateRequest (fun _ => .borrowed) (perRule _) bothRequest)
        ((RuleEngine.assemble searchAll blockingConfig nativeRequestRules
          nativeResponseRules).evaluateRequest (fun _ => .borrowed) (perRule _) bothRequest) ∧
      SameAction responseAction
        ((detectRemoved searchAll blockingConfig nativeRequestRules
          nativeResponseRules).evaluateResponse (perRule _) bothResponse)
        ((RuleEngine.assemble searchAll blockingConfig nativeRequestRules
          nativeResponseRules).evaluateResponse (perRule _) bothResponse) ∧
      ((RuleEngine.assemble searchAll blockingConfig nativeRequestRules
        nativeResponseRules).evaluateRequest (fun _ => .borrowed) (perRule _)
          bothRequest).verdict.score = 10 ∧
      ((RuleEngine.assemble searchAll blockingConfig nativeRequestRules
        nativeResponseRules).evaluateResponse (perRule _) bothResponse).enforcingScore = 5 := by
  have hrequest : ∀ r ∈ nativeRequestRules, Honours (requestTexts fun _ => .borrowed) r := by
    intro r hr
    rcases List.mem_pair.mp hr with rfl | rfl
    all_goals exact requestRule_honours (literalPattern_sound _ _ _)
  have hresponse : ∀ r ∈ nativeResponseRules, Honours responseFields r := by
    intro r hr
    rcases List.mem_pair.mp hr with rfl | rfl
    all_goals exact responseRule_honours (literalPattern_sound _ _ _)
  have h := detect_rules_never_enforce (fun _ => .borrowed) searchAll blockingConfig
    nativeRequestRules nativeResponseRules
  refine ⟨(h.1 quietConfig quietConfig_turnsOff).1 (perRule _) bothRequest (by decide +kernel),
    (h.2 searchAll_complete (fun r hr _ => hrequest r hr) fun r hr _ => hresponse r hr).2 (perRule _)
      bothResponse (by decide +kernel) (by decide +kernel), by decide +kernel, by decide +kernel⟩

end WafDetect
