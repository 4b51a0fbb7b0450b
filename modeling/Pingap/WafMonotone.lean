import Pingap.WafThreshold

/-!
# More rules, no milder verdict

Hits only add to a score and a rule in block mode only hardens it, so the verdict
after more rules is at least as severe. A request whose time runs out is judged by
the rules it got to; unless the policy makes exhaustion itself enforce, that verdict
is never stricter than the one of all rules.
-/

namespace WafMonotone

open MachineArith WafRule WafPrefilter WafEngine Bool List Option

/-- Allow, then detected, then a challenge, then a block. -/
def severity : RequestVerdict → Nat
  | .allow => 0
  | .detected .. => 1
  | .challenge .. => 2
  | .block .. => 3

/-! ## Scores that grow -/

/-- The second score is the first one with further hits. -/
structure Extends (s s' : Scorer) : Prop where
  hits : s.hits <+: s'.hits
  enforcing : s.enforcing ≤ s'.enforcing
  challengeOnly : s'.challengeOnly = true → s.challengeOnly = true
  blockSeen : s.blockSeen = true → s'.blockSeen = true
  threshold : s'.threshold = s.threshold

namespace Extends

theorem refl (s : Scorer) : Extends s s := ⟨prefix_rfl, le_rfl, id, id, rfl⟩

theorem trans (h : Extends s s') (h' : Extends s' s'') : Extends s s'' where
  hits := h.hits.trans h'.hits
  enforcing := le_trans h.enforcing h'.enforcing
  challengeOnly := fun hc => h.challengeOnly (h'.challengeOnly hc)
  blockSeen := fun hb => h'.blockSeen (h.blockSeen hb)
  threshold := h'.threshold.trans h.threshold

theorem record {s : Scorer} (hs : s.enforcing ≤ u32Max) (hit : Hit) (gate : Gate) :
    Extends s (s.record hit gate) where
  hits := prefix_append _ _
  enforcing := by
    simp only [Scorer.record, satAdd32]
    split
    · omega
    · exact le_rfl
  challengeOnly := by
    simp only [Scorer.record]
    split
    · intro h
      cases h
    · exact id
  blockSeen := by
    simp only [Scorer.record]
    split
    · exact fun _ => rfl
    · exact id
  threshold := rfl

theorem reached (h : Extends s s') (hs : s.reached = true) : s'.reached = true := by
  simp only [Scorer.reached, decide_eq_true_eq] at hs ⊢
  have hmore := h.enforcing
  rw [h.threshold]
  omega

/-- A verdict on more hits is at least as severe. -/
theorem severity_le (h : Extends s s') (forced : Bool) :
    severity (finishRequest s forced) ≤ severity (finishRequest s' forced) := by
  have hreached := h.reached
  have hchallenge := h.challengeOnly
  have hblock := h.blockSeen
  have hhits : s.hits.isEmpty = false → s'.hits.isEmpty = false := by
    intro hne
    obtain ⟨more, hmore⟩ := h.hits
    rw [← hmore]
    cases hs : s.hits with
    | nil => simp [hs] at hne
    | cons hit rest => rfl
  cases forced with
  | true => simp [finishRequest, severity]
  | false =>
    simp only [finishRequest, Bool.false_or, Bool.not_false, Bool.true_and]
    cases hr : s.reached with
    | true =>
      rw [hreached hr]
      cases hc' : s'.challengeOnly && !s'.blockSeen with
      | false =>
        simp only [if_true, false_eq_true, if_false, severity]
        split <;> simp
      | true =>
        obtain ⟨honly, hunseen⟩ := Bool.and_eq_true_iff.mp hc'
        have hseen : s.blockSeen = false := by
          cases hb : s.blockSeen with
          | false => rfl
          | true => rw [hblock hb] at hunseen; cases hunseen
        simp [hchallenge honly, hseen, severity]
    | false =>
      simp only [false_eq_true, if_false]
      cases hempty : s.hits.isEmpty with
      | true => simp [severity]
      | false =>
        simp only [false_eq_true, if_false, hhits hempty]
        split
        · split <;> simp [severity]
        · simp [severity]

end Extends

section loop

variable {ι : Type} (timer : Timer (Rule ι)) (limit : Duration) (policy : ExhaustedPolicy)
  (input : ι)

theorem record_le_u32Max {s : Scorer} (hs : s.enforcing ≤ u32Max) :
    (s.record hit gate).enforcing ≤ u32Max := by
  simp only [Scorer.record, satAdd32]
  split
  · omega
  · exact hs

theorem score_extends (hs : s.enforcing ≤ u32Max) (rule : Rule ι) (gate : Gate) :
    Extends s (score input rule gate s) ∧ (score input rule gate s).enforcing ≤ u32Max := by
  unfold score
  split
  · exact ⟨Extends.record hs _ gate, record_le_u32Max hs⟩
  · exact ⟨Extends.refl s, hs⟩

theorem ideal_extends (rules : List (Rule ι × Option Gate)) (hs : s.enforcing ≤ u32Max) :
    Extends s (ideal input rules s) := by
  induction rules generalizing s with
  | nil => exact Extends.refl s
  | cons x rules ih =>
    rw [ideal_cons]
    cases hgate : x.2 with
    | none => exact ih hs
    | some gate =>
      obtain ⟨hextends, hsmall⟩ := score_extends input hs x.1 gate
      exact hextends.trans (ih hsmall)

/-- Wherever the time runs out, the score so far is one that the rest would extend. -/
theorem evaluateRules_extends (l : List (Item ι)) (s : Progress ι)
    (hs : s.scorer.enforcing ≤ u32Max) :
    Extends (evaluateRules timer limit policy input l s).scorer
      (ideal input (l.map Item.effective) s.scorer) := by
  induction l generalizing s with
  | nil => exact Extends.refl _
  | cons x l ih =>
    rw [map_cons, ideal_cons]
    cases hruns : x.runs with
    | false =>
      rw [evaluateRules_cons_of_not_runs l s hruns]
      have hskipped : x.effective.2 = none := by
        cases hpresent : x.present with
        | false => simp [Item.effective, hpresent]
        | true =>
          have hgate : x.gate = none := by simpa [Item.runs, hpresent] using hruns
          simp [Item.effective, hgate]
      rw [hskipped]
      exact ih s hs
    | true =>
      obtain ⟨gate, hgate, hpresent⟩ := gate_of_runs hruns
      have heffective : x.effective = (x.rule, some gate) := by
        simp [Item.effective, hpresent, hgate]
      obtain ⟨hextends, hsmall⟩ := score_extends input hs x.rule gate
      rw [heffective]
      simp only [evaluateRules, hgate, hpresent, Bool.not_true, false_eq_true, if_false, elim_some]
      split
      · exact hextends.trans (ideal_extends input _ hsmall)
      · exact ih _ hsmall

/-- The loop goes on where it stopped, unless its time had run out. -/
theorem evaluateRules_append (l l' : List (Item ι)) (s : Progress ι) (hs : s.exhausted = none) :
    evaluateRules timer limit policy input (l ++ l') s =
      if (evaluateRules timer limit policy input l s).exhausted = none then
        evaluateRules timer limit policy input l' (evaluateRules timer limit policy input l s)
      else evaluateRules timer limit policy input l s := by
  induction l generalizing s with
  | nil => simp [evaluateRules, hs]
  | cons x l ih =>
    rw [cons_append]
    cases hruns : x.runs with
    | false =>
      rw [evaluateRules_cons_of_not_runs _ s hruns, evaluateRules_cons_of_not_runs l s hruns]
      exact ih s hs
    | true =>
      obtain ⟨gate, hgate, hpresent⟩ := gate_of_runs hruns
      simp only [evaluateRules, hgate, hpresent, Bool.not_true, false_eq_true, if_false]
      split
      · simp
      · exact ih _ hs

/-- The loop only ever adds to a score. -/
theorem evaluateRules_grows (l : List (Item ι)) (s : Progress ι)
    (hs : s.scorer.enforcing ≤ u32Max) :
    Extends s.scorer (evaluateRules timer limit policy input l s).scorer ∧
      (evaluateRules timer limit policy input l s).scorer.enforcing ≤ u32Max := by
  induction l generalizing s with
  | nil => exact ⟨Extends.refl _, hs⟩
  | cons x l ih =>
    cases hruns : x.runs with
    | false =>
      rw [evaluateRules_cons_of_not_runs l s hruns]
      exact ih s hs
    | true =>
      obtain ⟨gate, hgate, hpresent⟩ := gate_of_runs hruns
      obtain ⟨hextends, hsmall⟩ := score_extends input hs x.rule gate
      simp only [evaluateRules, hgate, hpresent, Bool.not_true, false_eq_true, if_false]
      split
      · exact ⟨Extends.refl _, hs⟩
      · obtain ⟨hrest, hbound⟩ := ih ⟨_, s.ran ++ [x.rule], s.exhausted⟩ hsmall
        exact ⟨hextends.trans hrest, hbound⟩

/-- The record of exhaustion carries the policy of the loop. -/
theorem exhausted_policy (l : List (Item ι)) (s : Progress ι) (hs : s.exhausted = none)
    (hx : (evaluateRules timer limit policy input l s).exhausted = some x) :
    x.policy = policy := by
  induction l generalizing s with
  | nil =>
    simp only [evaluateRules, hs] at hx
    cases hx
  | cons item l ih =>
    cases hruns : item.runs with
    | false =>
      rw [evaluateRules_cons_of_not_runs l s hruns] at hx
      exact ih s hs hx
    | true =>
      obtain ⟨gate, hgate, hpresent⟩ := gate_of_runs hruns
      simp only [evaluateRules, hgate, hpresent, Bool.not_true, false_eq_true, if_false] at hx
      split at hx
      · rw [← Option.some.inj hx]
      · exact ih ⟨_, s.ran ++ [item.rule], s.exhausted⟩ hs hx

end loop

/-! ## The engine -/

/-- The engine that stops after the first rules of the order. -/
def firstRules (e : RuleEngine) (n : Nat) : RuleEngine :=
  { e with requestRules := e.requestRules.take n }

theorem items_take {ι : Type} {rules : List (Rule ι)} :
    items (rules.take n) gates present = (items rules gates present).take n := by
  unfold items
  induction rules generalizing gates present n with
  | nil => simp
  | cons rule rules ih =>
    cases n with
    | zero => simp
    | succ n =>
      match gates, present with
      | [], _ => simp
      | _ :: _, [] => simp
      | gate :: gates, b :: present =>
        simp only [take_succ_cons, zip_cons_cons, zipWith_cons_cons]
        rw [ih]

theorem requestItems_firstRules (urlDecode : String → Decoded) :
    (firstRules e n).requestItems urlDecode input = (e.requestItems urlDecode input).take n :=
  items_take

section engine

variable (urlDecode : String → Decoded) (e : RuleEngine) (timer : Timer (Rule RequestInput))
  (input : RequestInput)

/-- The loop over more rules goes on from the loop over fewer, or both ran out of
time at the same rule. -/
theorem runRequest_firstRules (hmn : m ≤ n) :
    let few := (firstRules e m).runRequest urlDecode timer input
    let many := (firstRules e n).runRequest urlDecode timer input
    Extends few.scorer many.scorer ∧
      (forcedByPolicy few.exhausted = true → many.exhausted = few.exhausted) := by
  intro few many
  have hsplit : (firstRules e n).requestItems urlDecode input =
      (firstRules e m).requestItems urlDecode input ++
        ((e.requestItems urlDecode input).take n).drop m := by
    have htake : ((e.requestItems urlDecode input).take n).take m =
        (e.requestItems urlDecode input).take m := by
      rw [take_take, Nat.min_eq_left hmn]
    rw [requestItems_firstRules, requestItems_firstRules, ← htake, take_append_drop]
  have hmany : many = if few.exhausted = none then _ else few :=
    (congrArg (runItems e.config timer (e.scopedRequest input)) hsplit).trans
      (evaluateRules_append timer _ _ _ _ _ _ rfl)
  have hsmall := (evaluateRules_grows timer e.config.budget e.config.onBudgetExhausted
    (e.scopedRequest input) ((firstRules e m).requestItems urlDecode input)
    ⟨Scorer.new e.config.anomalyThreshold, [], none⟩ (Nat.zero_le _)).2
  rw [hmany]
  split
  case isTrue hdone =>
    refine ⟨(evaluateRules_grows timer _ _ _ _ few hsmall).1, fun hforced => ?_⟩
    rw [hdone] at hforced
    cases hforced
  case isFalse => exact ⟨Extends.refl _, fun _ => rfl⟩

theorem severity_le_block {s : Scorer} : severity v ≤ severity (finishRequest s true) := by
  cases v <;> simp [severity, finishRequest]

theorem not_forced_of_allow (hpolicy : e.config.onBudgetExhausted = .allow) :
    forcedByPolicy (e.runRequest urlDecode timer input).exhausted = false := by
  cases hx : (e.runRequest urlDecode timer input).exhausted with
  | none => rfl
  | some x =>
    have hcarried := exhausted_policy timer _ _ _ _ _ rfl hx
    rw [hpolicy] at hcarried
    simp [forcedByPolicy, hcarried]

/-- The score of a cut evaluation is extended by that of a complete one. -/
theorem runRequest_complete (hdone : (e.runRequest urlDecode full input).exhausted = none) :
    Extends (e.runRequest urlDecode timer input).scorer
      (e.runRequest urlDecode full input).scorer := by
  have hcomplete : (e.runRequest urlDecode full input).scorer = _ :=
    evaluateRules_scorer (e.requestItems urlDecode input) _ hdone
  rw [hcomplete]
  exact evaluateRules_extends timer _ _ _ _ _ (Nat.zero_le _)

end engine

/-- Evaluating more rules of the order never makes the verdict milder or the enforcing
score smaller; and unless exhaustion enforces, an evaluation that was cut short, at
whichever rule, is never stricter than one that ran to its end. -/
theorem verdict_monotone (urlDecode : String → Decoded) (e : RuleEngine) (input : RequestInput) :
    (∀ timer m n, m ≤ n →
      let few := (firstRules e m).evaluateRequest urlDecode timer input
      let many := (firstRules e n).evaluateRequest urlDecode timer input
      severity few.verdict ≤ severity many.verdict ∧ few.enforcingScore ≤ many.enforcingScore) ∧
    (e.config.onBudgetExhausted = .allow → ∀ timer full,
      let cut := e.evaluateRequest urlDecode timer input
      let complete := e.evaluateRequest urlDecode full input
      complete.exhausted = none →
        severity cut.verdict ≤ severity complete.verdict ∧
          cut.enforcingScore ≤ complete.enforcingScore) := by
  constructor
  · intro timer m n hmn few many
    obtain ⟨hextends, hsame⟩ := runRequest_firstRules urlDecode e timer input hmn
    refine ⟨?_, hextends.enforcing⟩
    change severity (finishRequest _ (forcedByPolicy _)) ≤ severity (finishRequest _ (forcedByPolicy _))
    cases hforced : forcedByPolicy ((firstRules e m).runRequest urlDecode timer input).exhausted with
    | true =>
      rw [hsame hforced, hforced]
      exact hextends.severity_le true
    | false =>
      cases forcedByPolicy ((firstRules e n).runRequest urlDecode timer input).exhausted with
      | true => exact severity_le_block
      | false => exact hextends.severity_le false
  · intro hpolicy timer full cut complete hdone
    have hextends := runRequest_complete urlDecode e timer input hdone
    refine ⟨?_, hextends.enforcing⟩
    change severity (finishRequest _ (forcedByPolicy _)) ≤ severity (finishRequest _ (forcedByPolicy _))
    rw [not_forced_of_allow urlDecode e timer input hpolicy,
      not_forced_of_allow urlDecode e full input hpolicy]
    exact hextends.severity_le false

/-- Every rule takes twenty milliseconds. -/
def slow : Timer (Rule RequestInput) where
  elapsed l := 20000000 * l.length
  mono _ _ h := Nat.mul_le_mul_left 20000000 h.length_le

/-- A request that matches both rules, of which the slow evaluation reaches the first. -/
theorem verdict_monotone_slow :
    let e := WafThreshold.warningEntry.engine
    let input : RequestInput := { uri := "/?q=union+sleep(9)" }
    let cut := e.evaluateRequest (fun _ => .borrowed) slow input
    let complete := e.evaluateRequest (fun _ => .borrowed) (perRule _) input
    let first := (firstRules e 1).evaluateRequest (fun _ => .borrowed) (perRule _) input
    let both := (firstRules e 2).evaluateRequest (fun _ => .borrowed) (perRule _) input
    (cut.exhausted.isSome = true ∧ severity cut.verdict = 1 ∧ severity complete.verdict = 3) ∧
      (severity cut.verdict ≤ severity complete.verdict ∧
        cut.enforcingScore ≤ complete.enforcingScore) ∧
      (severity first.verdict ≤ severity both.verdict ∧
        first.enforcingScore ≤ both.enforcingScore) := by
  intro e input cut complete first both
  have hmono := verdict_monotone (fun _ => .borrowed) e input
  exact ⟨by decide +kernel, hmono.2 rfl slow (perRule _) (by decide +kernel),
    hmono.1 (perRule _) 1 2 (by decide)⟩

end WafMonotone
