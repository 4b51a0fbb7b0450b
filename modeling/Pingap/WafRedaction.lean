import Pingap.WafEquivalence
import Pingap.WafInspection

/-!
# Redaction of responses

A response whose redacting rules reach the threshold is masked, hit by hit. The hits
are those of all rules that ran, also of rules that were only to detect; and a rule
reports one match, so that further matches of its pattern stay.
-/

namespace WafRedaction

open MachineArith WafRule WafPrefilter WafEngine WafPlugin
open WafEquivalence (Sound)
open WafInspection (responseText)
open Utf8 (Bytes)
open List hiding after all min span
open RuleEngine hiding config

/-! ## The rules that run -/

section loop

variable {ι : Type} (timer : Timer (Rule ι)) (limit : Duration)

/-- The rules that are evaluated while the time lasts. -/
def ranItems : List (Rule ι) → List (Item ι) → List (Item ι)
  | _, [] => []
  | ran, x :: rest =>
    if x.runs then
      if limit ≤ timer.elapsed ran then [] else x :: ranItems (ran ++ [x.rule]) rest
    else ranItems ran rest

theorem ranItems_mem (h : x ∈ ranItems timer limit ran l) : x ∈ l ∧ x.runs = true := by
  induction l generalizing ran with
  | nil => cases h
  | cons y l ih =>
    unfold ranItems at h
    split at h
    case isTrue hruns =>
      split at h
      · cases h
      rcases mem_cons.mp h with rfl | hrest
      · exact ⟨mem_cons_self, hruns⟩
      · exact ⟨mem_cons_of_mem _ (ih hrest).1, (ih hrest).2⟩
    case isFalse => exact ⟨mem_cons_of_mem _ (ih h).1, (ih h).2⟩

theorem evaluateRules_ranItems {l : List (Item ι)} {s : Progress ι} :
    (evaluateRules timer limit policy input l s).scorer =
      ideal input ((ranItems timer limit s.ran l).map Item.pair) s.scorer := by
  induction l generalizing s with
  | nil => rfl
  | cons x l ih =>
    cases hruns : x.runs with
    | false =>
      rw [evaluateRules_cons_of_not_runs l s hruns, ih]
      simp [ranItems, hruns]
    | true =>
      obtain ⟨gate, hgate, hpresent⟩ := gate_of_runs hruns
      simp only [evaluateRules, hgate, hpresent, Bool.not_true, Bool.false_eq_true, if_false,
        ranItems, hruns, if_true]
      split
      · rfl
      · rw [ih, map_cons, ideal_cons]
        simp only [Item.pair, hgate, Option.elim_some]

end loop

/-! ## Hits and scores -/

section scoring

variable {ι : Type} (input : ι)

def found (l : List (Item ι)) : List Hit := l.filterMap fun x => x.rule.evaluate input

/-- What the rules of a gate add to a score. -/
def gateScore (gate : Gate) (l : List (Item ι)) : Nat :=
  ((l.filter fun x => x.gate = some gate).map fun x =>
    ((x.rule.evaluate input).map Hit.score).getD 0).sum

theorem ideal_hits (hl : ∀ x ∈ l, x.gate.isSome = true) (s : Scorer) :
    (ideal input (l.map Item.pair) s).hits = s.hits ++ found input l := by
  induction l generalizing s with
  | nil => simp [ideal, found]
  | cons x l ih =>
    obtain ⟨gate, hgate⟩ := Option.isSome_iff_exists.mp (hl x mem_cons_self)
    rw [map_cons, ideal_cons, ih fun y hy => hl y (mem_cons_of_mem _ hy)]
    simp only [Item.pair, hgate, Option.elim_some, score, found, filterMap_cons]
    cases x.rule.evaluate input with
    | none => rfl
    | some hit => simp [Scorer.record]

/-- Where no rule challenges, the enforcing score is what the enforcing rules add. -/
theorem ideal_enforcing (hl : ∀ x ∈ l, x.gate = some .detect ∨ x.gate = some .enforce)
    (hs : s.enforcing ≤ u32Max) :
    (ideal input (l.map Item.pair) s).enforcing =
      min (s.enforcing + gateScore input .enforce l) u32Max := by
  induction l generalizing s with
  | nil => simp [ideal, gateScore, hs]
  | cons x l ih =>
    have hrest := fun y hy => hl y (mem_cons_of_mem _ hy)
    rw [map_cons, ideal_cons]
    rcases hl x mem_cons_self with hgate | hgate
    · simp only [Item.pair, hgate, Option.elim_some]
      have hscore : (score input x.rule .detect s).enforcing = s.enforcing := by
        unfold score
        split <;> simp [Scorer.record]
      rw [ih hrest (by rw [hscore]; exact hs), hscore]
      simp [gateScore, hgate]
    · simp only [Item.pair, hgate, Option.elim_some]
      have hscore : (score input x.rule .enforce s).enforcing =
          min (s.enforcing + ((x.rule.evaluate input).map Hit.score).getD 0) u32Max := by
        unfold score
        cases x.rule.evaluate input with
        | none => simp [hs]
        | some hit => simp [Scorer.record, satAdd32]
      rw [ih hrest (by rw [hscore]; exact Nat.min_le_right _ _), hscore]
      simp only [gateScore, hgate, filter_cons, decide_true, if_true, map_cons, sum_cons]
      omega

end scoring

/-! ## Masking -/

/-- The byte lies in the span of the body that the hit reports. -/
def covers (hit : Hit) (i : Nat) : Prop :=
  ∃ offset len, hit.matchedField = .responseBody offset len ∧ offset ≤ i ∧ i < offset + len

theorem getElem?_mask (body : Bytes) (start len i : Nat) :
    (mask body start len).2[i]? =
      if (start ≤ i ∧ i < start + len) ∧ i < body.length then some 42 else body[i]? := by
  unfold mask
  dsimp only
  split
  case isTrue hnone => rw [if_neg (by omega)]
  case isFalse hsome =>
    generalize hstop : min (start + len) body.length = stop at hsome ⊢
    have htake : (body.take start).length = start := by
      rw [length_take]
      omega
    rcases Nat.lt_or_ge i start with hbefore | hfrom
    · rw [if_neg (by omega), append_assoc, getElem?_append_left (by omega),
        getElem?_take_of_lt hbefore]
    rcases Nat.lt_or_ge i stop with hin | hafter
    · rw [if_pos (by omega), getElem?_append_left (by simp; omega),
        getElem?_append_right (by omega), getElem?_replicate, if_pos (by omega)]
    rw [if_neg (by omega), getElem?_append_right (by simp; omega), getElem?_drop]
    congr 1
    simp only [length_append, length_replicate, htake]
    omega

theorem length_mask : (mask body start len).2.length = body.length := by
  unfold mask
  dsimp only
  split
  · rfl
  · simp only [length_append, length_take, length_replicate, length_drop]
    omega

section maskHit

variable {body : Bytes} {hit : Hit} {i : Nat}

theorem length_maskHit (body : Bytes) (hit : Hit) :
    (Waf.maskHit body hit).2.length = body.length := by
  unfold Waf.maskHit
  split
  · exact length_mask
  · rfl

theorem maskHit_of_covers (h : covers hit i) (hi : i < body.length) :
    (Waf.maskHit body hit).2[i]? = some 42 := by
  obtain ⟨offset, len, hfield, hfrom, hto⟩ := h
  simp only [Waf.maskHit, hfield]
  rw [getElem?_mask, if_pos ⟨⟨hfrom, hto⟩, hi⟩]

theorem maskHit_of_not_covers (h : ¬ covers hit i) : (Waf.maskHit body hit).2[i]? = body[i]? := by
  unfold Waf.maskHit
  split
  case h_1 offset len hfield =>
    rw [getElem?_mask, if_neg]
    exact fun hin => h ⟨offset, len, hfield, hin.1⟩
  case h_2 => rfl

theorem maskHit_masked (h : body[i]? = some 42) : (Waf.maskHit body hit).2[i]? = some 42 := by
  by_cases hc : covers hit i
  · exact maskHit_of_covers hc (List.getElem?_eq_some_iff.mp h).1
  · exact (maskHit_of_not_covers hc).trans h

end maskHit

section maskHits

variable {hits : List Hit} {i : Nat}

theorem maskHits_foldl (hits : List Hit) (masked : Bool) (body : Bytes) :
    (hits.foldl (fun (out : Bool × Bytes) hit =>
      ((out.1 || (Waf.maskHit out.2 hit).1), (Waf.maskHit out.2 hit).2)) (masked, body)).2 =
      hits.foldl (fun body hit => (Waf.maskHit body hit).2) body := by
  induction hits generalizing masked body with
  | nil => rfl
  | cons hit hits ih => exact ih _ _

theorem maskHits_bytes :
    (Waf.maskHits hits body).2 = hits.foldl (fun body hit => (Waf.maskHit body hit).2) body :=
  maskHits_foldl hits false body

theorem length_maskHits (hits : List Hit) (body : Bytes) :
    (Waf.maskHits hits body).2.length = body.length := by
  rw [maskHits_bytes]
  induction hits generalizing body with
  | nil => rfl
  | cons hit hits ih => exact (ih _).trans (length_maskHit body hit)

theorem maskHits_of_not_covers (h : ∀ hit ∈ hits, ¬ covers hit i) :
    (Waf.maskHits hits body).2[i]? = body[i]? := by
  rw [maskHits_bytes]
  induction hits generalizing body with
  | nil => rfl
  | cons hit hits ih =>
    rw [foldl_cons, ih fun other hother => h other (mem_cons_of_mem _ hother)]
    exact maskHit_of_not_covers (h hit mem_cons_self)

theorem maskHits_masked (h : body[i]? = some 42) : (Waf.maskHits hits body).2[i]? = some 42 := by
  rw [maskHits_bytes]
  induction hits generalizing body with
  | nil => exact h
  | cons hit hits ih => exact ih (maskHit_masked h)

theorem maskHits_of_covers (hi : i < body.length) (h : ∃ hit ∈ hits, covers hit i) :
    (Waf.maskHits hits body).2[i]? = some 42 := by
  obtain ⟨hit, hmem, hcovers⟩ := h
  obtain ⟨before, after, rfl⟩ := append_of_mem hmem
  rw [maskHits_bytes, foldl_append, foldl_cons, ← maskHits_bytes, ← maskHits_bytes]
  apply maskHits_masked
  exact maskHit_of_covers hcovers (by rw [length_maskHits]; exact hi)

/-- A byte is masked in the end when a hit covers it or it was an asterisk. -/
theorem maskHits_eq_star_iff (hi : i < body.length) :
    (Waf.maskHits hits body).2[i]? = some 42 ↔
      (∃ hit ∈ hits, covers hit i) ∨ body[i]? = some 42 := by
  by_cases h : ∃ hit ∈ hits, covers hit i
  · simp [maskHits_of_covers hi h, h]
  have hnone : ∀ hit ∈ hits, ¬ covers hit i := fun hit hmem hcovers => h ⟨hit, hmem, hcovers⟩
  rw [maskHits_of_not_covers hnone]
  simp [h]

end maskHits

/-! ## One call of a hook -/

section scan

variable (timer : Timer (Rule ResponseInput)) (waf : Waf) (buffer : Ctx → Option BodyBuffer)
  (keep : BodyBuffer → Ctx → Ctx) (w : World) (body : Option Bytes) (endOfStream : Bool)

/-- The start of the response, when this call judges it. -/
def judged : Option BodyBuffer :=
  if waf.engine.config.responsePrefixLimit = 0 ∨ waf.engine.responseRules.length = 0 then none
  else
    let fed := ((buffer w.ctx).getD
      (BodyBuffer.new waf.engine.config.responsePrefixLimit .inspectPrefix)).feed body endOfStream
    if fed.1 = .reject ∨ fed.1 = .release then some fed.2 else none

/-- What the rules are shown of it. -/
def inspectedResponse (held : BodyBuffer) : ResponseInput where
  status := (keep held.take.2 w.ctx).status.getD 0
  bodyChunk := some held.inspected
  bodyTruncated := held.truncated

/-- A call that judges nothing passes its chunk on, or withholds it. -/
theorem scanResponse_of_not_judged (h : judged waf buffer w body endOfStream = none) :
    ((waf.scanResponse timer buffer keep w body endOfStream).2.1 = body ∨
        (waf.scanResponse timer buffer keep w body endOfStream).2.1 = none) ∧
      (waf.scanResponse timer buffer keep w body endOfStream).2.2 = false := by
  unfold judged at h
  unfold Waf.scanResponse
  split
  · exact ⟨.inl rfl, rfl⟩
  case isFalse hactive =>
    rw [if_neg hactive] at h
    dsimp only at h ⊢
    split
    · exact ⟨.inl rfl, rfl⟩
    · exact ⟨.inr rfl, rfl⟩
    case h_3 hfeed => simp [hfeed] at h
    case h_4 hfeed => simp [hfeed] at h

theorem judgeResponse_release {w : World} :
    (waf.judgeResponse timer w held).2.1 =
      if (waf.engine.evaluateResponse timer ⟨w.ctx.status.getD 0, [], some held.inspected, 0,
          held.truncated⟩).verdict.isEnforcing then
        (Waf.maskHits (waf.engine.evaluateResponse timer ⟨w.ctx.status.getD 0, [],
          some held.inspected, 0, held.truncated⟩).verdict.hits held.buf).2
      else held.buf := by
  unfold Waf.judgeResponse
  dsimp only
  cases hverdict : (waf.engine.evaluateResponse timer ⟨w.ctx.status.getD 0, [],
      some held.inspected, 0, held.truncated⟩).verdict.isEnforcing with
  | true | false => rfl

/-- A call that judges the start of the response releases it, masked when the verdict
is to redact. -/
theorem scanResponse_of_judged (h : judged waf buffer w body endOfStream = some held) :
    (waf.scanResponse timer buffer keep w body endOfStream).2.1 =
      some (if (waf.engine.evaluateResponse timer
          (inspectedResponse keep w held)).verdict.isEnforcing then
        (Waf.maskHits (waf.engine.evaluateResponse timer
          (inspectedResponse keep w held)).verdict.hits held.buf).2 else held.buf) := by
  unfold judged at h
  split at h
  · cases h
  case isFalse hactive =>
    dsimp only at h
    split at h
    case isFalse => cases h
    case isTrue hfeed =>
      cases h
      unfold Waf.scanResponse
      rw [if_neg hactive]
      dsimp only
      rcases hfeed with hfeed | hfeed
      all_goals
        rw [hfeed]
        exact congrArg some (judgeResponse_release timer waf)

end scan

/-! ## The rules of an engine -/

/-- The rules the engine evaluates on a response, in the time it has. -/
def ranRules (timer : Timer (Rule ResponseInput)) (e : RuleEngine) (input : ResponseInput) :
    List (Item ResponseInput) :=
  ranItems timer e.config.budget [] (e.responseItems input)

/-- The byte is in what a rule that is to redact matches. -/
def InRedactedSpan (e : RuleEngine) (input : ResponseInput) (i : Nat) : Prop :=
  ∃ rule ∈ e.responseRules, ruleGate e.config true rule = some .enforce ∧
    ∃ hit, rule.evaluate (e.scopedResponse input) = some hit ∧ covers hit i

/-- The byte is in what a rule of the gate reports, one that ran. -/
def Reported (timer : Timer (Rule ResponseInput)) (e : RuleEngine) (input : ResponseInput)
    (gate : Gate) (i : Nat) : Prop :=
  ∃ x ∈ ranRules timer e input, x.gate = some gate ∧
    ∃ hit, x.rule.evaluate (e.scopedResponse input) = some hit ∧ covers hit i

theorem response_gate (h : ruleGate config true rule = some gate) :
    gate = .detect ∨ gate = .enforce := by
  unfold ruleGate at h
  dsimp only at h
  split at h
  case isFalse => cases h
  case isTrue hkept =>
    cases h
    revert hkept
    simp only [categoryGate, if_true]
    cases rule.actionOverride with
    | none =>
      cases config.responseMode rule.category <;> simp [resolveGate, Gate.ofResponseMode]
    | some mode => cases mode <;> simp [resolveGate]

section engine

variable (automaton : List String → Option Search) (config : ValidatedConfig)
  (requestRules : List (Rule RequestInput)) (responseRules : List (Rule ResponseInput))
  (timer : Timer (Rule ResponseInput)) (input : ResponseInput)

theorem mem_responseItems
    (h : x ∈ (assemble automaton config requestRules responseRules).responseItems input)
    : x.rule ∈ responseRules ∧ x.gate = ruleGate config true x.rule := by
  obtain ⟨i, hrule, hgate, -⟩ := getElem?_of_mem_items h
  have hplace : responseRules[i]? = some x.rule := hrule
  have hmapped : (responseRules.map (ruleGate config true))[i]? = some x.gate := hgate
  rw [getElem?_map, hplace] at hmapped
  exact ⟨mem_of_getElem? hplace, (Option.some.inj hmapped).symm⟩

theorem ranRules_gate
    (h : x ∈ ranRules timer (assemble automaton config requestRules responseRules) input)
    : x.gate = some .detect ∨ x.gate = some .enforce := by
  obtain ⟨hmem, hruns⟩ := ranItems_mem timer _ h
  obtain ⟨-, hgate⟩ := mem_responseItems automaton config requestRules responseRules input hmem
  obtain ⟨gate, hsome⟩ := Option.isSome_iff_exists.mp (Bool.and_eq_true_iff.mp hruns).1
  rw [hsome] at hgate ⊢
  rcases response_gate hgate.symm with rfl | rfl
  · exact .inl rfl
  · exact .inr rfl

theorem runResponse_scorer (e : RuleEngine) :
    (e.runResponse timer input).scorer =
      ideal (e.scopedResponse input) ((ranRules timer e input).map Item.pair)
        (Scorer.new e.config.anomalyThreshold) :=
  evaluateRules_ranItems timer _

/-- The verdict is to redact when the redacting rules that ran reach the threshold. -/
theorem isEnforcing_evaluateResponse_iff :
    ((assemble automaton config requestRules responseRules).evaluateResponse timer
        input).verdict.isEnforcing = true ↔
      config.anomalyThreshold ≤ gateScore
        ((assemble automaton config requestRules responseRules).scopedResponse input)
        .enforce (ranRules timer (assemble automaton config requestRules responseRules) input) := by
  have hscorer := runResponse_scorer timer input
    (assemble automaton config requestRules responseRules)
  have henforcing := congrArg Scorer.enforcing hscorer
  rw [ideal_enforcing _ (fun x hx => ranRules_gate automaton config requestRules responseRules
    timer input hx) (Nat.zero_le _)] at henforcing
  have hthreshold : ((assemble automaton config requestRules responseRules).runResponse
      timer input).scorer.threshold = config.anomalyThreshold :=
    threshold_evaluateRules ..
  have hfinish (s : Scorer) : (finishResponse s).isEnforcing = s.reached := by
    unfold finishResponse
    cases hreached : s.reached with
    | true => rfl
    | false => cases hempty : s.hits.isEmpty <;> simp [ResponseVerdict.isEnforcing]
  have hle := config.threshold_le
  simp only [evaluateResponse, Progress.evaluation, hfinish, Scorer.reached,
    decide_eq_true_eq, hthreshold, henforcing, Scorer.new]
  omega

end engine

section verdict

variable {timer : Timer (Rule ResponseInput)} {e : RuleEngine} {input : ResponseInput}

theorem ranRules_gate_isSome (h : x ∈ ranRules timer e input) : x.gate.isSome = true :=
  (Bool.and_eq_true_iff.mp (ranItems_mem timer _ h).2).1

/-- A verdict to redact names the hits of every rule that ran. -/
theorem hits_evaluateResponse (h : (e.evaluateResponse timer input).verdict.isEnforcing = true) :
    (e.evaluateResponse timer input).verdict.hits =
      found (e.scopedResponse input) (ranRules timer e input) := by
  have hhits := congrArg Scorer.hits (runResponse_scorer timer input e)
  rw [ideal_hits _ fun x hx => ranRules_gate_isSome hx] at hhits
  have hfinish (s : Scorer) (hs : (finishResponse s).isEnforcing = true) :
      (finishResponse s).hits = s.hits := by
    unfold finishResponse at hs ⊢
    split at hs
    case isTrue hreached => rw [if_pos hreached]; rfl
    case isFalse => split at hs <;> cases hs
  simp only [evaluateResponse, Progress.evaluation] at h ⊢
  rw [hfinish _ h, hhits]
  rfl

theorem covered_iff (h : (e.evaluateResponse timer input).verdict.isEnforcing = true) (i : Nat) :
    (∃ hit ∈ (e.evaluateResponse timer input).verdict.hits, covers hit i) ↔
      ∃ gate, Reported timer e input gate i := by
  rw [hits_evaluateResponse h]
  constructor
  · rintro ⟨hit, hmem, hcovers⟩
    obtain ⟨x, hx, hmatch⟩ := mem_filterMap.mp hmem
    obtain ⟨gate, hgate⟩ := Option.isSome_iff_exists.mp (ranRules_gate_isSome hx)
    exact ⟨gate, x, hx, hgate, hit, hmatch, hcovers⟩
  · rintro ⟨gate, x, hx, -, hit, hmatch, hcovers⟩
    exact ⟨hit, mem_filterMap.mpr ⟨x, hx, hmatch⟩, hcovers⟩

end verdict

/-! ## What redaction may change -/

section kept

variable (automaton : List String → Option Search) (config : ValidatedConfig)
  (requestRules : List (Rule RequestInput)) (responseRules : List (Rule ResponseInput))
  (timer : Timer (Rule ResponseInput))

/-- A byte the redacting rules do not match is reported, if at all, by a rule that detects. -/
theorem reported_detect
    (hout : ¬ InRedactedSpan (assemble automaton config requestRules responseRules) input i)
    (h : Reported timer (assemble automaton config requestRules responseRules) input
      gate i) : gate = .detect := by
  obtain ⟨x, hx, hgate, hit, hmatch, hcovers⟩ := h
  rcases ranRules_gate automaton config requestRules responseRules timer input hx with h | h
  · exact Option.some.inj (hgate.symm.trans h)
  obtain ⟨hmem, hresolved⟩ := mem_responseItems automaton config requestRules responseRules input
    (ranItems_mem timer _ hx).1
  exact absurd ⟨x.rule, hmem, hresolved.symm.trans h, hit, hmatch, hcovers⟩ hout

/-- A call that judges the start of a response leaves every byte that no redacting rule
matches as it is, unless the redacting rules reach the threshold and a rule that is only to
detect reports the byte too. A call that does not judge rewrites nothing. -/
theorem unredacted_bytes_kept_iff (waf : Waf) (buffer : Ctx → Option BodyBuffer)
    (keep : BodyBuffer → Ctx → Ctx) (w : World) (body : Option Bytes) (endOfStream : Bool) :
    let e := assemble automaton config requestRules responseRules
    let entry : Waf := { waf with engine := e }
    let out := entry.scanResponse timer buffer keep w body endOfStream
    (judged entry buffer w body endOfStream = none →
        (out.2.1 = body ∨ out.2.1 = none) ∧ out.2.2 = false) ∧
      ∀ held, judged entry buffer w body endOfStream = some held →
        ∃ release, out.2.1 = some release ∧
          ((∀ i, ¬ InRedactedSpan e (inspectedResponse keep w held) i →
              release[i]? = held.buf[i]?) ↔
            (config.anomalyThreshold ≤ gateScore (e.scopedResponse (inspectedResponse keep w held))
                .enforce (ranRules timer e (inspectedResponse keep w held)) →
              ∀ i < held.buf.length, Reported timer e (inspectedResponse keep w held) .detect i →
                InRedactedSpan e (inspectedResponse keep w held) i ∨ held.buf[i]? = some 42)) := by
  intro e entry out
  refine ⟨scanResponse_of_not_judged timer entry buffer keep w body endOfStream, ?_⟩
  intro held hjudged
  refine ⟨_, scanResponse_of_judged timer entry buffer keep w body endOfStream hjudged, ?_⟩
  rw [← isEnforcing_evaluateResponse_iff automaton config requestRules responseRules timer]
  by_cases hverdict : (e.evaluateResponse timer
      (inspectedResponse keep w held)).verdict.isEnforcing = true
  case neg =>
    rw [if_neg hverdict]
    exact ⟨fun _ h => absurd h hverdict, fun _ _ _ => rfl⟩
  case pos =>
    rw [if_pos hverdict]
    constructor
    · intro hkept _ i hi hreported
      by_cases hin : InRedactedSpan e (inspectedResponse keep w held) i
      · exact .inl hin
      right
      rw [← hkept i hin]
      exact maskHits_of_covers hi ((covered_iff hverdict i).mpr ⟨.detect, hreported⟩)
    · intro hdetected i hout
      by_cases hreported : ∃ gate, Reported timer e (inspectedResponse keep w held) gate i
      · obtain ⟨gate, hgate⟩ := hreported
        obtain rfl := reported_detect automaton config requestRules responseRules timer hout hgate
        rcases Nat.lt_or_ge i held.buf.length with hi | hi
        · rw [(hdetected hverdict i hi hgate).resolve_left hout]
          exact maskHits_of_covers hi ((covered_iff hverdict i).mpr ⟨.detect, hgate⟩)
        · rw [getElem?_eq_none hi, getElem?_eq_none (by rwa [length_maskHits])]
      · apply maskHits_of_not_covers
        exact fun hit hmem hcovers => hreported ((covered_iff hverdict i).mp ⟨hit, hmem, hcovers⟩)

end kept

/-! ### A redacting rule beside one that detects -/

/-- Leaks are redacted; other categories stay at the default, which is to detect. -/
def leakConfig : ValidatedConfig :=
  { ValidatedConfig.standard with
    responseModes := (∅ : KeyedMap Category ResponseMode).insert .dataLeakage .redact }

def leakRule : Rule ResponseInput := (literalPattern 3 .dataLeakage "ora-").responseRule

def shellRule : Rule ResponseInput := (literalPattern 4 .webShell "<?php").responseRule

def leakEntry : Waf where
  engine := RuleEngine.assemble searchAll leakConfig [] [leakRule, shellRule]

def keepDownstream (held : BodyBuffer) (ctx : Ctx) : Ctx := { ctx with downstreamBody := held }

/-- The response in one chunk. -/
def answer (text : String) : World × Option Bytes × Bool :=
  leakEntry.scanResponse (perRule _) Ctx.downstreamBody keepDownstream WafBody.freshWorld
    (some (WafBody.ascii text)) true

def wholeBuffer (text : String) : BodyBuffer :=
  ⟨65536, .inspectPrefix, WafBody.ascii text, true, false⟩

/-- Where nothing but the leak matches, nothing but the leak is masked. -/
theorem unredacted_bytes_kept_iff_leak :
    ∃ release, (answer "ora-1 ok").2.1 = some release ∧
      ∀ i, ¬ InRedactedSpan leakEntry.engine
          (inspectedResponse keepDownstream WafBody.freshWorld (wholeBuffer "ora-1 ok")) i →
        release[i]? = (WafBody.ascii "ora-1 ok")[i]? := by
  have hmain := unredacted_bytes_kept_iff searchAll leakConfig [] [leakRule, shellRule] (perRule _)
    leakEntry Ctx.downstreamBody keepDownstream WafBody.freshWorld
    (some (WafBody.ascii "ora-1 ok")) true
  obtain ⟨release, hrelease, hiff⟩ := hmain.2 (wholeBuffer "ora-1 ok") (by decide +kernel)
  refine ⟨release, hrelease, hiff.mpr ?_⟩
  rintro - i - ⟨x, hx, hgate, -⟩
  have hran : (ranRules (perRule _) leakEntry.engine (inspectedResponse keepDownstream
      WafBody.freshWorld (wholeBuffer "ora-1 ok"))).all
      (fun x => decide (x.gate ≠ some .detect)) = true := by decide +kernel
  exact absurd hgate (of_decide_eq_true (all_eq_true.mp hran x hx))

/-- A leak in the response lets the rule that is only to detect shells mask what it found. -/
theorem detecting_rule_masks :
    (answer "ora-1 <?php x").2.1 = some (WafBody.ascii "****1 ***** x") ∧
      (answer "abc-1 <?php x").2.1 = some (WafBody.ascii "abc-1 <?php x") ∧
      ruleGate leakConfig true leakRule = some .enforce ∧
      ruleGate leakConfig true shellRule = some .detect ∧
      leakRule.evaluate { bodyChunk := some (WafBody.ascii "ora-1 <?php x") } =
        some ⟨3, .dataLeakage, .critical, 5, .responseBody 0 4⟩ := by
  decide +kernel

/-! ## Every occurrence -/

/-- The item stands for a rule of the pattern that is to redact. -/
structure Redacts (e : RuleEngine) (input : ResponseInput) (p : Pattern)
    (x : Item ResponseInput) : Prop where
  item : x ∈ e.responseItems input
  gate : x.gate = some .enforce
  pattern : x.rule = p.responseRule ∨ ∃ action, x.rule = p.customResponseRule action

/-- The budget did not keep the rule from being evaluated. -/
def Uncut (timer : Timer (Rule ResponseInput)) (e : RuleEngine) (input : ResponseInput)
    (x : Item ResponseInput) : Prop :=
  x ∈ ranRules timer e input ∨ x.present = false

/-- No byte of the span is left. -/
def Masked (release : Bytes) (span : Span) : Prop :=
  ∀ i < release.length, span.start ≤ i → i < span.stop → release[i]? = some 42

section occurrences

variable {p : Pattern} {x : Item ResponseInput} {e : RuleEngine} {input : ResponseInput}

/-- On a response without headers, a rule of a pattern reports the first match in the body. -/
theorem evaluate_pattern {input : ResponseInput} (hheaders : input.headers = [])
    (hbody : input.bodyChunk = some body) :
    (p.rule action fun input => findInResponse input inspect p.findAt).evaluate input =
      (p.findAt (Utf8.textStart body)).map fun span =>
        p.hit (.responseBody span.start span.len) := by
  simp only [Pattern.rule, findInResponse, hheaders, hbody, find?_nil, Option.bind_some,
    Option.map_map]
  rfl

theorem Redacts.evaluate (h : Redacts e input p x) (hheaders : input.headers = [])
    (hbody : (e.scopedResponse input).bodyChunk = some body) :
    x.rule.evaluate (e.scopedResponse input) =
      (p.findAt (Utf8.textStart body)).map fun span =>
        p.hit (.responseBody span.start span.len) := by
  rcases h.pattern with hrule | ⟨action, hrule⟩
  all_goals
    rw [hrule]
    exact evaluate_pattern hheaders hbody

theorem Redacts.honours (h : Redacts e input p x) (hsound : Sound p) :
    Honours responseFields x.rule := by
  rcases h.pattern with hrule | ⟨action, hrule⟩
  · rw [hrule]
    exact WafEquivalence.responseRule_honours hsound
  · rw [hrule]
    exact hsound.honours fun _ _ => WafEquivalence.findInResponse_text

end occurrences

section complete

variable (automaton : List String → Option Search) (config : ValidatedConfig)
  (requestRules : List (Rule RequestInput)) (responseRules : List (Rule ResponseInput))
  (timer : Timer (Rule ResponseInput))

section

variable (h : Redacts (assemble automaton config requestRules responseRules) input p x)
    (hcomplete : Complete automaton) (hsound : Sound p)
include h hcomplete hsound

/-- A rule the prefilter leaves out has no match in the text. -/
theorem Redacts.silent (habsent : x.present = false) :
    x.rule.evaluate ((assemble automaton config requestRules
      responseRules).scopedResponse input) = none :=
  WafEquivalence.item_silent automaton responseRules (resolveGates config responseRules true)
    hcomplete (by simp [resolveGates]) (Prefilter.markResponse_marked ..) h.item
    (h.honours hsound) habsent

/-- The first match of a redacting rule that the budget did not cut is reported. -/
theorem Redacts.first_reported
    (huncut : Uncut timer (assemble automaton config requestRules responseRules) input x)
    (hheaders : input.headers = [])
    (hbody : ((assemble automaton config requestRules responseRules).scopedResponse
      input).bodyChunk = some body) (hspan : p.findAt (Utf8.textStart body) = some span)
    (hfrom : span.start ≤ i) (hto : i < span.stop) :
    Reported timer (assemble automaton config requestRules responseRules) input .enforce i := by
  have hmatch := h.evaluate hheaders hbody
  rw [hspan, Option.map_some] at hmatch
  rcases huncut with hran | habsent
  · refine ⟨x, hran, h.gate, _, hmatch, span.start, span.len, rfl, hfrom, ?_⟩
    unfold Span.len
    omega
  · rw [h.silent automaton config requestRules responseRules hcomplete hsound habsent] at hmatch
    cases hmatch

end

/-- When the start of a response is redacted, every match of a redacting rule is masked
exactly when the matches after the first, which the rule does not report, consist of
asterisks or lie in what the rules that ran report. -/
theorem occurrences_masked_iff (hcomplete : Complete automaton) (p : Pattern) (hsound : Sound p)
    (all : String → List Span) (hall : ∀ text, p.findAt text = (all text).head?)
    (waf : Waf) (buffer : Ctx → Option BodyBuffer) (keep : BodyBuffer → Ctx → Ctx) (w : World)
    (body : Option Bytes) (endOfStream : Bool) (held : BodyBuffer) (x : Item ResponseInput) :
    let e := assemble automaton config requestRules responseRules
    let entry : Waf := { waf with engine := e }
    let input := inspectedResponse keep w held
    judged entry buffer w body endOfStream = some held →
    (e.evaluateResponse timer input).verdict.isEnforcing = true →
    Redacts e input p x → Uncut timer e input x →
    ∃ release, (entry.scanResponse timer buffer keep w body endOfStream).2.1 = some release ∧
      ((∀ text ∈ responseText e input, ∀ span ∈ all text, Masked release span) ↔
        ∀ text ∈ responseText e input, ∀ span ∈ (all text).tail, ∀ i < held.buf.length,
          span.start ≤ i → i < span.stop →
            (∃ gate, Reported timer e input gate i) ∨ held.buf[i]? = some 42) := by
  intro e entry input hjudged hverdict hredacts huncut
  have hrelease := scanResponse_of_judged timer entry buffer keep w body endOfStream hjudged
  rw [if_pos hverdict] at hrelease
  refine ⟨_, hrelease, ?_⟩
  have hbyte (i : Nat) (hi : i < held.buf.length) :
      (Waf.maskHits (e.evaluateResponse timer input).verdict.hits held.buf).2[i]? = some 42 ↔
        (∃ gate, Reported timer e input gate i) ∨ held.buf[i]? = some 42 := by
    rw [maskHits_eq_star_iff hi, covered_iff hverdict]
  constructor
  · intro hmasked text htext span hspan i hi hfrom hto
    apply (hbyte i hi).mp
    exact hmasked text htext span (mem_of_mem_tail hspan) i (by rwa [length_maskHits]) hfrom hto
  intro hlater text htext span hspan i hi hfrom hto
  rw [length_maskHits] at hi
  apply (hbyte i hi).mpr
  obtain ⟨shown, hshown, rfl⟩ := Option.map_eq_some_iff.mp htext
  cases hspans : all (Utf8.textStart shown) with
  | nil => rw [hspans] at hspan; cases hspan
  | cons first later =>
    rw [hspans] at hspan
    rcases mem_cons.mp hspan with rfl | hmem
    · have hfirst : p.findAt (Utf8.textStart shown) = some span := by
        rw [hall, hspans, head?_cons]
      exact .inl ⟨.enforce, hredacts.first_reported automaton config requestRules responseRules
        timer hcomplete hsound huncut rfl hshown hfirst hfrom hto⟩
    · exact hlater _ htext span (by rw [hspans]; exact hmem) i hi hfrom hto

end complete

/-! ### A leak that occurs twice -/

/-- The bytes at which the characters stand in a row, counted from `n`. -/
def positionsIn (needle : List Char) : List Char → Nat → List Nat
  | [], n => if needle.isEmpty then [n] else []
  | c :: hay, n =>
    if needle.isPrefixOf (c :: hay) then n :: positionsIn needle hay (n + c.utf8Size)
    else positionsIn needle hay (n + c.utf8Size)

theorem head?_positionsIn (needle hay : List Char) (n : Nat) :
    (positionsIn needle hay n).head? = Text.positionIn needle hay n := by
  induction hay generalizing n with
  | nil =>
    unfold positionsIn Text.positionIn
    split <;> rfl
  | cons c hay ih =>
    unfold positionsIn Text.positionIn
    split
    · rfl
    · exact ih _

/-- Every match of a literal. -/
def literalSpans (literal text : String) : List Span :=
  (positionsIn (Text.toAsciiLowercase literal.toList) (Text.toAsciiLowercase text.toList) 0).map
    fun start => ⟨start, start + literal.utf8ByteSize⟩

theorem head?_literalSpans (id : Nat) (category : Category) (literal text : String) :
    (literalPattern id category literal).findAt text = (literalSpans literal text).head? := by
  unfold literalSpans
  rw [head?_map, head?_positionsIn]
  rfl

/-- The response whose text is judged, as the rules are shown it. -/
def answerInput (text : String) : ResponseInput :=
  inspectedResponse keepDownstream WafBody.freshWorld (wholeBuffer text)

def secondRule : Rule ResponseInput := (literalPattern 4 .webShell "ora-2").responseRule

def coveringEntry : Waf where
  engine := RuleEngine.assemble searchAll leakConfig [] [leakRule, secondRule]

/-- The second of two leaks is masked where another rule reports it. -/
theorem occurrences_masked_iff_covered :
    ∃ release, (coveringEntry.scanResponse (perRule _) Ctx.downstreamBody keepDownstream
        WafBody.freshWorld (some (WafBody.ascii "ora-1 ora-2")) true).2.1 = some release ∧
      ∀ text ∈ responseText coveringEntry.engine (answerInput "ora-1 ora-2"),
        ∀ span ∈ literalSpans "ora-" text, Masked release span := by
  have hverdict : (coveringEntry.engine.evaluateResponse (perRule _)
      (answerInput "ora-1 ora-2")).verdict.isEnforcing = true := by decide +kernel
  have hsome : ((ranRules (perRule _) coveringEntry.engine (answerInput "ora-1 ora-2")).find?
      fun x => x.gate = some .enforce).isSome = true := by decide +kernel
  obtain ⟨x, hx⟩ := Option.isSome_iff_exists.mp hsome
  have hran := mem_of_find?_eq_some hx
  have hgate : x.gate = some .enforce := by
    have hfound := find?_some hx
    exact of_decide_eq_true hfound
  have hitem := (ranItems_mem (perRule _) _ hran).1
  obtain ⟨hmem, hresolved⟩ := mem_responseItems searchAll leakConfig [] [leakRule, secondRule]
    (answerInput "ora-1 ora-2") hitem
  have hsecond : ruleGate leakConfig true secondRule ≠ some .enforce := by decide +kernel
  have hrule : x.rule = leakRule := by
    rcases List.mem_pair.mp hmem with h | h
    · exact h
    · rw [h, hgate] at hresolved
      exact absurd hresolved.symm hsecond
  obtain ⟨release, hrelease, hiff⟩ := occurrences_masked_iff searchAll leakConfig []
    [leakRule, secondRule] (perRule _) searchAll_complete (literalPattern 3 .dataLeakage "ora-")
    (WafEquivalence.literalPattern_sound _ _ _) (literalSpans "ora-") (head?_literalSpans _ _ _)
    coveringEntry Ctx.downstreamBody keepDownstream WafBody.freshWorld
    (some (WafBody.ascii "ora-1 ora-2")) true (wholeBuffer "ora-1 ora-2") x (by decide +kernel)
    hverdict ⟨hitem, hgate, .inl hrule⟩ (.inl hran)
  refine ⟨release, hrelease, hiff.mpr ?_⟩
  have hlater : (responseText coveringEntry.engine (answerInput "ora-1 ora-2")).all (fun text =>
      (literalSpans "ora-" text).tail.all fun span => 6 ≤ span.start && span.stop ≤ 11) = true := by
    decide +kernel
  have hhit : ⟨4, .webShell, .critical, 5, .responseBody 6 5⟩ ∈ (coveringEntry.engine.evaluateResponse
      (perRule _) (answerInput "ora-1 ora-2")).verdict.hits := by decide +kernel
  intro text htext span hspan i _ hfrom hto
  have hbounds := all_eq_true.mp ((Option.all_eq_true _ _).mp hlater text htext) span hspan
  simp only [Bool.and_eq_true, decide_eq_true_eq] at hbounds
  exact .inl ((covered_iff hverdict i).mp ⟨_, hhit, 6, 5, rfl, by omega, by omega⟩)

/-- The second of two leaks is released. -/
theorem second_leak_survives :
    ruleGate leakConfig true leakRule = some .enforce ∧
      (leakEntry.engine.evaluateResponse (perRule _)
        (answerInput "ora-1 ora-2")).verdict.isEnforcing = true ∧
      (leakEntry.engine.evaluateResponse (perRule _) (answerInput "ora-1 ora-2")).exhausted = none ∧
      literalSpans "ora-" "ora-1 ora-2" = [⟨0, 4⟩, ⟨6, 10⟩] ∧
      (answer "ora-1 ora-2").2.1 = some (WafBody.ascii "****1 ora-2") := by
  decide +kernel

end WafRedaction
