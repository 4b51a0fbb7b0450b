import Pingap.WafBody

/-!
# The threshold over both stages of a request

Headers and query are scored in one stage, the body in the next, each from zero. The
state of the request adds the two scores up, but no stage compares the sum with the
threshold: evidence split over the stages, each part below the threshold, goes
through.
-/

namespace WafThreshold

open MachineArith WafRule WafEngine WafPlugin WafBody
open Utf8 (Bytes)

section stages

variable (urlDecode : String → Decoded) (now : Nat) (waf : Waf) (session : Session)

def headerEvaluation (timer : Timer (Rule RequestInput)) : Evaluation RequestVerdict :=
  waf.engine.evaluateRequest urlDecode timer (headerInput session)

/-- The state of a new request after its headers. -/
def headerState (timer : Timer (Rule RequestInput)) (w : World) : WafState :=
  Waf.absorbHeaders (headerEvaluation urlDecode waf session timer)
    (named waf (waf.updateState (Waf.describe session w.ctx.location) w))

/-- A request that goes on after its headers was scored, and is challenged or not
enforced on. -/
theorem handleRequest_proceed
    (h : waf.handleRequest urlDecode timer now .request session w = (.proceed, w')) :
    w'.ctx.requestBody = w.ctx.requestBody ∧
      (∃ s, w'.ctx.waf = some s ∧ SameFindings (headerState urlDecode waf session timer w) s) ∧
      ((headerEvaluation urlDecode waf session timer).verdict.isEnforcing = true →
        (headerEvaluation urlDecode waf session timer).verdict.isChallenge = true) := by
  have heval : waf.engine.evaluateRequest urlDecode timer (headerInput session) =
      headerEvaluation urlDecode waf session timer := rfl
  simp only [Waf.handleRequest, ne_eq, not_true_eq_false, if_false, heval] at h
  split at h
  · cases h
  split at h
  · cases h
  split at h
  case isTrue henforcing =>
    split at h
    case isTrue hchallenge =>
      cases h
      exact ⟨publish_requestBody now, publish_waf rfl, fun _ => hchallenge⟩
    case isFalse => cases h
  case isFalse hnot =>
    cases h
    exact ⟨publish_requestBody now, publish_waf rfl, fun henforcing =>
      absurd henforcing hnot⟩

/-- The evidence is split: neither stage reaches the threshold, both together do. -/
structure SplitEvidence (headers body : Evaluation RequestVerdict) : Prop where
  headers_time : forcedByPolicy headers.exhausted = false
  headers_score : headers.enforcingScore < waf.engine.config.anomalyThreshold
  body_time : forcedByPolicy body.exhausted = false
  body_score : body.enforcingScore < waf.engine.config.anomalyThreshold
  reaches : waf.engine.config.anomalyThreshold ≤ headers.enforcingScore + body.enforcingScore

/-- A saturated sum reaches a threshold the machine can hold when the sum does. -/
theorem le_satAdd32_iff (ht : t ≤ u32Max) : t ≤ satAdd32 (satAdd32 0 a) b ↔ t ≤ a + b := by
  simp only [satAdd32, Nat.zero_add]
  omega

theorem not_enforcing_iff (timer : Timer (Rule RequestInput)) {input : RequestInput} :
    (waf.engine.evaluateRequest urlDecode timer input).verdict.isEnforcing = false ↔
      forcedByPolicy (waf.engine.evaluateRequest urlDecode timer input).exhausted = false ∧
        (waf.engine.evaluateRequest urlDecode timer input).enforcingScore <
          waf.engine.config.anomalyThreshold := by
  rw [waf.engine.isEnforcing_evaluateRequest urlDecode timer input, Bool.or_eq_false_iff,
    decide_eq_false_iff_not, Nat.not_le]

/-- The score a request has after both stages. -/
theorem enforcingScore_both (hs : s.enforcingScore = 0)
    (h₁ : SameFindings (Waf.absorbHeaders headers s) s₁)
    (hnamed : s₁'.enforcingScore = s₁.enforcingScore)
    (h₂ : SameFindings (Waf.absorbBody body s₁') s₂) :
    s₂.enforcingScore = satAdd32 (satAdd32 0 headers.enforcingScore) body.enforcingScore := by
  obtain ⟨n₁, t₁, rfl⟩ := h₁
  obtain ⟨n₂, t₂, rfl⟩ := h₂
  have hheaders : (Waf.absorbHeaders headers s).enforcingScore =
      satAdd32 s.enforcingScore headers.enforcingScore := by
    simp only [Waf.absorbHeaders, WafState.absorb]
    split <;> rfl
  simp only [Waf.absorbBody, WafState.absorb, hnamed, hheaders, hs]

theorem named_of_some (h : w.ctx.waf = some s) :
    (named waf w).enforcingScore = s.enforcingScore ∧ (named waf w).challenged = s.challenged := by
  obtain ⟨_, hnamed⟩ := named_eq waf w
  simp [hnamed, h]

/-- A new request starts without a score and unchallenged. -/
theorem named_fresh (h : w.ctx.waf = none) :
    (named waf (waf.updateState (Waf.describe session w.ctx.location) w)).enforcingScore = 0 ∧
      (named waf (waf.updateState (Waf.describe session w.ctx.location) w)).challenged = false := by
  have hdescribed : (waf.updateState (Waf.describe session w.ctx.location) w).ctx.waf =
      some (Waf.describe session w.ctx.location (named waf w)) := rfl
  obtain ⟨_, hnamed⟩ := named_eq waf w
  rw [(named_of_some waf hdescribed).1, (named_of_some waf hdescribed).2]
  simp [Waf.describe, hnamed, h]

/-- The stage of the headers challenges a request exactly when its verdict does. -/
theorem challenged_headerState (h : w.ctx.waf = none) :
    (headerState urlDecode waf session timer w).challenged =
      (headerEvaluation urlDecode waf session timer).verdict.isChallenge := by
  have hfresh := (named_fresh waf session h).2
  simp only [headerState, Waf.absorbHeaders, WafState.absorb]
  split
  case isTrue hchallenge => exact hchallenge.symm
  case isFalse hnot => exact hfresh.trans (Bool.not_eq_true _ ▸ hnot).symm

end stages

/-- A request that passes the stage of its headers and whose score over both stages
reaches the threshold is refused or challenged, exactly when its evidence is not split
over the stages. -/
theorem refused_iff_not_split (urlDecode : String → Decoded)
    (timer timer' : Timer (Rule RequestInput)) (now now' : Nat) (waf : Waf) (session : Session)
    (w w' : World) (hstate : w.ctx.waf = none) (hbody : w.ctx.requestBody = none)
    (hproceed : waf.handleRequest urlDecode timer now .request session w = (.proceed, w'))
    (chunks : List (Option Bytes)) (hne : chunks ≠ []) :
    ∃ s, (runBody urlDecode now' [(waf, timer')] w' (stream chunks)).world.ctx.waf = some s ∧
      ((waf.engine.config.anomalyThreshold ≤ s.enforcingScore →
        (runBody urlDecode now' [(waf, timer')] w' (stream chunks)).refused ≠ none ∨
          s.challenged = true) ↔
      ¬ (¬ TooLarge waf (bytesOf chunks) ∧
        SplitEvidence waf (waf.engine.evaluateRequest urlDecode timer (headerInput session))
          (waf.engine.evaluateRequest urlDecode timer' (shown waf (bytesOf chunks))))) := by
  obtain ⟨hbuffer, ⟨s₁, hs₁, hfindings₁⟩, hpassed⟩ :=
    handleRequest_proceed urlDecode now waf session hproceed
  have hsettles := holding_run urlDecode timer' now' waf
    (holding_of_fresh waf w' (hbuffer.trans hbody)) hne
  rw [List.nil_append] at hsettles
  by_cases hlarge : TooLarge waf (bytesOf chunks)
  · obtain ⟨hrefused, -, -, s, hs, -⟩ := hsettles.tooLarge hlarge
    refine ⟨s, hs, fun _ hsplit => hsplit.1 hlarge, fun _ _ => .inl ?_⟩
    rw [hrefused]
    exact Option.some_ne_none _
  obtain ⟨-, hrefused, -, s, hs, hfindings⟩ := hsettles.judged hlarge
  have hnamed := named_of_some waf hs₁
  have hscore := enforcingScore_both (named_fresh waf session hstate).1 hfindings₁ hnamed.1
    hfindings
  have hchallenged : s.challenged =
      (headerEvaluation urlDecode waf session timer).verdict.isChallenge := by
    obtain ⟨n, t, rfl⟩ := hfindings
    obtain ⟨n₁, t₁, rfl⟩ := hfindings₁
    exact hnamed.2.trans (challenged_headerState urlDecode waf session hstate)
  refine ⟨s, hs, ?_⟩
  rw [hscore, le_satAdd32_iff waf.engine.config.threshold_le, hrefused, hchallenged]
  constructor
  · rintro hholds ⟨-, hsplit⟩
    have hquiet : (headerEvaluation urlDecode waf session timer).verdict.isEnforcing = false :=
      (not_enforcing_iff urlDecode waf timer).mpr ⟨hsplit.headers_time, hsplit.headers_score⟩
    have hallowed : (evaluated urlDecode timer' waf (bytesOf chunks)).verdict.isEnforcing = false :=
      (not_enforcing_iff urlDecode waf timer').mpr ⟨hsplit.body_time, hsplit.body_score⟩
    rcases hholds hsplit.reaches with hne | hchallenge
    · rw [hallowed] at hne
      exact hne rfl
    · rw [RequestVerdict.isEnforcing_of_isChallenge hchallenge] at hquiet
      cases hquiet
  · intro hnot hreaches
    by_contra hneither
    rw [not_or, not_not] at hneither
    obtain ⟨hnone, hnochallenge⟩ := hneither
    have hquiet : (headerEvaluation urlDecode waf session timer).verdict.isEnforcing = false :=
      Bool.eq_false_iff.mpr fun henforcing => hnochallenge (hpassed henforcing)
    have hallowed : (evaluated urlDecode timer' waf (bytesOf chunks)).verdict.isEnforcing = false := by
      cases hb : (evaluated urlDecode timer' waf (bytesOf chunks)).verdict.isEnforcing with
      | false => rfl
      | true => rw [hb] at hnone; cases hnone
    have hheaders := (not_enforcing_iff urlDecode waf timer).mp hquiet
    have hjudged := (not_enforcing_iff urlDecode waf timer').mp hallowed
    exact hnot ⟨hlarge, hheaders.1, hheaders.2, hjudged.1, hjudged.2, hreaches⟩

/-! ### A warning in the query and one in the body -/

def warningEntry : Waf where
  engine := RuleEngine.assemble WafPrefilter.searchAll
    { ValidatedConfig.standard with
      requestModes := (∅ : KeyedMap Category RequestMode).insert .sqlInjection .block }
    [{ literalPattern 1 .sqlInjection "union" with severity := .warning }.requestRule
        (fun _ => .borrowed) .anyField,
      (literalPattern 2 .sqlInjection "sleep(").requestRule (fun _ => .borrowed) .anyField] []

def post (query : String) : Session where
  method := "POST"
  uri := "/?" ++ query
  path := "/"
  query := some query
  uriHost := none
  headers := []
  clientIp := "192.0.2.7"

def afterHeaders (query : String) : World :=
  (warningEntry.handleRequest (fun _ => .borrowed) (perRule _) 0 .request (post query)
    freshWorld).2

theorem refused_iff_not_split_sleep :
    (runBody (fun _ => .borrowed) 0 [(warningEntry, perRule _)] (afterHeaders "q=union")
        (stream [some (ascii "sleep(9)")])).refused ≠ none ∧
      ∃ s, (runBody (fun _ => .borrowed) 0 [(warningEntry, perRule _)] (afterHeaders "q=union")
          (stream [some (ascii "sleep(9)")])).world.ctx.waf = some s ∧
        (warningEntry.engine.config.anomalyThreshold ≤ s.enforcingScore →
          (runBody (fun _ => .borrowed) 0 [(warningEntry, perRule _)] (afterHeaders "q=union")
            (stream [some (ascii "sleep(9)")])).refused ≠ none ∨ s.challenged = true) := by
  have hproceed : warningEntry.handleRequest (fun _ => .borrowed) (perRule _) 0 .request
      (post "q=union") freshWorld = (.proceed, afterHeaders "q=union") :=
    Prod.ext (by decide +kernel) rfl
  obtain ⟨s, hs, hiff⟩ := refused_iff_not_split (fun _ => .borrowed) (perRule _) (perRule _) 0 0
    warningEntry (post "q=union") freshWorld (afterHeaders "q=union") rfl rfl hproceed
    [some (ascii "sleep(9)")] (List.cons_ne_nil _ _)
  refine ⟨by decide +kernel, s, hs, hiff.mpr fun hsplit => ?_⟩
  exact absurd hsplit.2.body_score (by decide +kernel)

/-- The same warning in query and body adds up to six against a threshold of five, and
the body goes upstream. -/
theorem split_evidence_forwarded :
    (warningEntry.handleRequest (fun _ => .borrowed) (perRule _) 0 .request (post "q=union")
        freshWorld).1 = .proceed ∧
      (runBody (fun _ => .borrowed) 0 [(warningEntry, perRule _)] (afterHeaders "q=union")
        (stream [some (ascii "union")])).refused = none ∧
      (runBody (fun _ => .borrowed) 0 [(warningEntry, perRule _)] (afterHeaders "q=union")
        (stream [some (ascii "union")])).forwarded = ascii "union" ∧
      (runBody (fun _ => .borrowed) 0 [(warningEntry, perRule _)] (afterHeaders "q=union")
        (stream [some (ascii "union")])).world.ctx.waf.map
          (fun s => (s.enforcingScore, s.blocked, s.challenged)) = some (6, false, false) ∧
      warningEntry.engine.config.anomalyThreshold = 5 := by
  refine ⟨?_, ?_, ?_, ?_, rfl⟩ <;> decide +kernel

end WafThreshold
