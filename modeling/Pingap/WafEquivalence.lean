import Pingap.WafEngine

/-!
# The prefilter changes no outcome

An engine that skips the rules whose literals are absent is compared with the one
that evaluates every rule. When the rules keep their contract, a skipped rule
would not have matched, so the scores agree; and skipping is less work, so a
budget that is enough for all rules is enough for fewer.
-/

namespace WafEquivalence

open MachineArith WafRule WafPrefilter WafEngine List Option Prefilter

/-! ## The items of a prefiltered run -/

section generic

variable {ι : Type} (automaton : List String → Option Search) (rules : List (Rule ι))
  (gates : List (Option Gate))

theorem length_presentMask (hgates : gates.length = rules.length) :
    (presentMask (Prefilter.build automaton rules) gates).length = rules.length := by
  simp [presentMask, length_ungated, hgates]

/-- An ungated rule is present before the walk. -/
theorem presentMask_of_ungated (hgates : gates.length = rules.length) (i : Nat)
    (h : (Prefilter.build automaton rules).ungated[i]? = some true) :
    (presentMask (Prefilter.build automaton rules) gates)[i]? = some true := by
  obtain ⟨hlt, -⟩ := List.getElem?_eq_some_iff.mp h
  rw [length_ungated, ← hgates] at hlt
  refine List.getElem?_zipWith_eq_some.mpr ⟨true, gates[i], h, getElem?_eq_getElem hlt, ?_⟩
  exact Bool.true_or _

/-- A rule a walk over the texts leaves out does not match. -/
theorem item_silent (hcomplete : Complete automaton) (hgates : gates.length = rules.length)
    (hmarked : Marked (Prefilter.build automaton rules) (texts input)
      (presentMask (Prefilter.build automaton rules) gates) marked)
    (hx : x ∈ items rules gates marked) (hrule : Honours texts x.rule)
    (hpresent : x.present = false) : x.rule.evaluate input = none := by
  obtain ⟨i, hplace, -, hmark⟩ := getElem?_of_mem_items hx
  rw [hpresent] at hmark
  exact silent_of_absent automaton rules hcomplete hmarked
    (presentMask_of_ungated automaton rules gates hgates) hplace hrule hmark

/-- No rule left out. -/
def everyItem : List (Item ι) := items rules gates (List.replicate rules.length true)

theorem everyItem_present (hx : x ∈ everyItem rules gates) : x.present = true := by
  obtain ⟨i, -, -, hpresent⟩ := getElem?_of_mem_items hx
  exact eq_of_mem_replicate (mem_of_getElem? hpresent)

theorem everyItem_silent (input : ι) : Silent input (everyItem rules gates) := by
  intro x hx hpresent
  rw [everyItem_present rules gates hx] at hpresent
  cases hpresent

/-- Whatever is marked, it is no more work than all the rules. -/
theorem work_items_sublist (h : marked.length = rules.length) :
    (work (items rules gates marked)).Sublist (work (everyItem rules gates)) := by
  refine work_sublist (forall₂_items _ rules gates gates marked _ rfl ?_ ?_)
  · rw [h, length_replicate]
  intro i rule gate gate' b b' _ hgate hgate' _ hb'
  rw [hgate] at hgate'
  cases hgate'
  refine ⟨rfl, fun hruns => Bool.and_eq_true_iff.mpr ⟨(Bool.and_eq_true_iff.mp hruns).1, ?_⟩⟩
  exact eq_of_mem_replicate (mem_of_getElem? hb')

/-- The loop over what a walk left, against the loop over all the rules. -/
theorem filtered_run (hcomplete : Complete automaton) (hgates : gates.length = rules.length)
    (hrules : ∀ r ∈ rules, Honours texts r)
    (hmarked : Marked (Prefilter.build automaton rules) (texts input)
      (presentMask (Prefilter.build automaton rules) gates) marked)
    (hdone : (runItems config timer input (everyItem rules gates)).exhausted = none) :
    (runItems config timer input (items rules gates marked)).exhausted = none ∧
      (runItems config timer input (items rules gates marked)).scorer =
        (runItems config timer input (everyItem rules gates)).scorer := by
  have hlength := hmarked.length.trans (length_presentMask automaton rules gates hgates)
  have hfiltered := runItems_lifts (work_items_sublist rules gates hlength) hdone
  have hsilent : Silent input (items rules gates marked) := by
    intro x hx
    obtain ⟨i, hplace, -, -⟩ := getElem?_of_mem_items hx
    exact item_silent automaton rules gates hcomplete hgates hmarked hx
      (hrules x.rule (mem_of_getElem? hplace))
  refine ⟨hfiltered, ?_⟩
  rw [runItems, runItems, evaluateRules_scorer _ _ hfiltered, evaluateRules_scorer _ _ hdone,
    ideal_effective _ hsilent, ideal_effective _ (everyItem_silent rules gates input), everyItem,
    items_pair rules gates marked hlength, items_pair rules gates _ length_replicate]

end generic

/-! ## Both surfaces -/

/-- The prefilters are built from the rules, and every rule has a gate. -/
structure Prefiltered (automaton : List String → Option Search) (e : RuleEngine) : Prop where
  requestPrefilter : e.requestPrefilter = Prefilter.build automaton e.requestRules
  responsePrefilter : e.responsePrefilter = Prefilter.build automaton e.responseRules
  requestGates : e.requestGates.length = e.requestRules.length
  responseGates : e.responseGates.length = e.responseRules.length

theorem assemble_prefiltered (automaton : List String → Option Search) (config : ValidatedConfig)
    (requestRules : List (Rule RequestInput)) (responseRules : List (Rule ResponseInput)) :
    Prefiltered automaton (RuleEngine.assemble automaton config requestRules responseRules) :=
  ⟨rfl, rfl, length_map _, length_map _⟩

/-- The engine that evaluates every rule. -/
def unfiltered (e : RuleEngine) : RuleEngine :=
  { e with
    requestPrefilter := Prefilter.always e.requestRules.length
    responsePrefilter := Prefilter.always e.responseRules.length }

theorem presentMask_always (h : gates.length = n) :
    presentMask (always n) gates = replicate n true := by
  subst h
  induction gates with
  | nil => rfl
  | cons gate gates ih =>
    have hcons : presentMask (always (gate :: gates).length) (gate :: gates) =
        true :: presentMask (always gates.length) gates := rfl
    rw [hcons, ih]
    rfl

theorem unfiltered_requestItems (urlDecode : String → Decoded)
    (h : e.requestGates.length = e.requestRules.length) (input : RequestInput) :
    (unfiltered e).requestItems urlDecode input = everyItem e.requestRules e.requestGates := by
  have hmark := presentMask_always h
  exact congrArg (items e.requestRules e.requestGates) hmark

theorem unfiltered_responseItems (h : e.responseGates.length = e.responseRules.length)
    (input : ResponseInput) :
    (unfiltered e).responseItems input = everyItem e.responseRules e.responseGates := by
  have hmark := presentMask_always h
  exact congrArg (items e.responseRules e.responseGates) hmark

/-- Two evaluations a caller cannot tell apart but by the work they took. -/
structure SameOutcome {V : Type} (a b : Evaluation V) : Prop where
  verdict : a.verdict = b.verdict
  enforcingScore : a.enforcingScore = b.enforcingScore
  truncated : a.truncated = b.truncated
  exhausted : a.exhausted = b.exhausted

theorem request_sameOutcome (hcomplete : Complete automaton) (he : Prefiltered automaton e)
    (hrules : ∀ r ∈ e.requestRules, Honours (requestTexts urlDecode) r)
    (timer : Timer (Rule RequestInput)) (input : RequestInput)
    (hdone : ((unfiltered e).evaluateRequest urlDecode timer input).exhausted = none) :
    SameOutcome (e.evaluateRequest urlDecode timer input)
      ((unfiltered e).evaluateRequest urlDecode timer input) := by
  have hmarked := e.requestPrefilter.markRequest_marked urlDecode (e.scopedRequest input)
    (presentMask e.requestPrefilter e.requestGates)
  have hall : (unfiltered e).runRequest urlDecode timer input =
      runItems e.config timer (e.scopedRequest input)
        (everyItem e.requestRules e.requestGates) := by
    rw [← unfiltered_requestItems urlDecode he.requestGates input]
    rfl
  have hnone : ((unfiltered e).runRequest urlDecode timer input).exhausted = none := hdone
  rw [hall] at hnone
  rw [he.requestPrefilter] at hmarked
  have hrun := filtered_run automaton e.requestRules e.requestGates hcomplete he.requestGates
    hrules hmarked hnone
  rw [← hall, ← he.requestPrefilter] at hrun
  have hexhausted : (e.runRequest urlDecode timer input).exhausted =
      ((unfiltered e).runRequest urlDecode timer input).exhausted := hrun.1.trans hdone.symm
  have hscorer : (e.runRequest urlDecode timer input).scorer =
      ((unfiltered e).runRequest urlDecode timer input).scorer := hrun.2
  exact {
    verdict := by
      simp only [RuleEngine.evaluateRequest, Progress.evaluation, hexhausted, hscorer]
    enforcingScore := congrArg Scorer.enforcing hscorer
    truncated := rfl
    exhausted := hexhausted }

theorem response_sameOutcome (hcomplete : Complete automaton) (he : Prefiltered automaton e)
    (hrules : ∀ r ∈ e.responseRules, Honours responseFields r) (timer : Timer (Rule ResponseInput))
    (input : ResponseInput) (hdone : ((unfiltered e).evaluateResponse timer input).exhausted = none) :
    SameOutcome (e.evaluateResponse timer input) ((unfiltered e).evaluateResponse timer input) := by
  have hmarked := e.responsePrefilter.markResponse_marked (e.scopedResponse input)
    (presentMask e.responsePrefilter e.responseGates)
  have hall : (unfiltered e).runResponse timer input =
      runItems e.config timer (e.scopedResponse input)
        (everyItem e.responseRules e.responseGates) := by
    rw [← unfiltered_responseItems he.responseGates input]
    rfl
  have hnone : ((unfiltered e).runResponse timer input).exhausted = none := hdone
  rw [hall] at hnone
  rw [he.responsePrefilter] at hmarked
  have hrun := filtered_run automaton e.responseRules e.responseGates hcomplete he.responseGates
    hrules hmarked hnone
  rw [← hall, ← he.responsePrefilter] at hrun
  have hscorer := hrun.2
  exact {
    verdict := congrArg finishResponse hscorer
    enforcingScore := congrArg Scorer.enforcing hscorer
    truncated := rfl
    exhausted := hrun.1.trans hdone.symm }

/-! ## The firewall's own rules keep the contract -/

/-- Every match of the pattern contains one of its needles. -/
def Sound (p : Pattern) : Prop :=
  ∀ text span, p.findAt text = some span → ∀ literals, p.needles = some literals →
    ∃ l ∈ literals, Text.occurs l text = true

theorem findBothForms_isSome (h : (findBothForms urlDecode find value).isSome = true) :
    ∃ text ∈ forms urlDecode value, (find text).isSome = true := by
  obtain ⟨span, hspan⟩ := isSome_iff_exists.mp h
  obtain ⟨text, htext, hfind⟩ := exists_of_findSome?_eq_some hspan
  exact ⟨text, htext, by rw [hfind]; rfl⟩

/-- A match in a request is a match in one of the texts the prefilter scans. -/
theorem findInRequest_text (h : findInRequest urlDecode input inspect find = some field) :
    ∃ text ∈ requestTexts urlDecode input, (find text).isSome = true := by
  have hfield : ∃ value ∈ requestFields input, (findBothForms urlDecode find value).isSome = true := by
    simp only [findInRequest] at h
    split at h
    case isTrue hmethod => exact ⟨_, by simp [requestFields], hmethod⟩
    split at h
    case isTrue huri => exact ⟨_, by simp [requestFields], huri⟩
    split at h
    case h_1 q hq =>
      have hfound := find?_some hq
      refine ⟨q.2, ?_, hfound⟩
      have hmem := mem_map_of_mem (f := Prod.snd) (mem_of_find?_eq_some hq)
      simp [requestFields, hmem]
    split at h
    case h_1 header hheader =>
      have hfound := find?_some hheader
      refine ⟨header.2, ?_, (Bool.and_eq_true_iff.mp hfound).2⟩
      have hmem := mem_map_of_mem (f := Prod.snd) (mem_of_find?_eq_some hheader)
      simp [requestFields, hmem]
    case h_2 =>
      obtain ⟨body, hbody, hspan⟩ := bind_eq_some_iff.mp h
      obtain ⟨span, hspan, -⟩ := map_eq_some_iff.mp hspan
      exact ⟨Utf8.textStart body, by simp [requestFields, hbody], by rw [hspan]; rfl⟩
  obtain ⟨value, hvalue, hsome⟩ := hfield
  obtain ⟨text, htext, hfind⟩ := findBothForms_isSome hsome
  exact ⟨text, mem_flatMap.mpr ⟨value, hvalue, htext⟩, hfind⟩

/-- A match in a response is a match in one of its fields as they are. -/
theorem findInResponse_text (h : findInResponse input inspect find = some field) :
    ∃ text ∈ responseFields input, (find text).isSome = true := by
  simp only [findInResponse] at h
  split at h
  case h_1 header hheader =>
    have hfound := find?_some hheader
    refine ⟨header.2, ?_, (Bool.and_eq_true_iff.mp hfound).2⟩
    have hmem := mem_map_of_mem (f := Prod.snd) (mem_of_find?_eq_some hheader)
    simp [responseFields, hmem]
  case h_2 =>
    obtain ⟨body, hbody, hspan⟩ := bind_eq_some_iff.mp h
    obtain ⟨span, hspan, -⟩ := map_eq_some_iff.mp hspan
    exact ⟨Utf8.textStart body, by simp [responseFields, hbody], by rw [hspan]; rfl⟩

/-- A header rule reads its header raw, which is one of the forms. -/
theorem findInHeader_text (urlDecode : String → Decoded) {p : Pattern}
    (h : p.findInHeader want input = some field) :
    ∃ text ∈ requestTexts urlDecode input, (p.findAt text).isSome = true := by
  obtain ⟨header, hheader, hspan⟩ := bind_eq_some_iff.mp h
  obtain ⟨span, hspan, -⟩ := map_eq_some_iff.mp hspan
  have hmem := mem_map_of_mem (f := Prod.snd) (mem_of_find?_eq_some hheader)
  refine ⟨header.2, mem_flatMap.mpr ⟨header.2, ?_, mem_cons_self⟩, by rw [hspan]; rfl⟩
  simp [requestFields, hmem]

/-- A sound pattern that matches only in the texts makes a rule that keeps the contract. -/
theorem Sound.honours (hp : Sound p) (hfind : ∀ input field, find input = some field →
      ∃ text ∈ texts input, (p.findAt text).isSome = true) :
    Honours texts (p.rule action find) := by
  intro input hit hmatch literals hliterals
  obtain ⟨field, hfield, -⟩ := map_eq_some_iff.mp hmatch
  obtain ⟨text, htext, hsome⟩ := hfind input field hfield
  obtain ⟨span, hspan⟩ := isSome_iff_exists.mp hsome
  obtain ⟨l, hl, hoccurs⟩ := hp text span hspan literals hliterals
  exact ⟨l, hl, text, htext, hoccurs⟩

theorem requestRule_honours (hp : Sound p) :
    Honours (requestTexts urlDecode) (p.requestRule urlDecode scope) := by
  refine hp.honours fun input field h => ?_
  cases scope with
  | anyField => exact findInRequest_text h
  | header want => exact findInHeader_text urlDecode h

theorem responseRule_honours (hp : Sound p) : Honours responseFields p.responseRule :=
  hp.honours fun _ _ => findInResponse_text

/-! ## The equivalence -/

/-- On both surfaces, an engine with its prefilter and the engine that evaluates
every rule have one outcome, provided the latter has the time. A request rule's
literal occurs in one of the forms of a field, a response rule's in a field as it is. -/
theorem prefilter_changes_no_outcome (urlDecode : String → Decoded)
    (automaton : List String → Option Search) (hcomplete : Complete automaton) (e : RuleEngine)
    (he : Prefiltered automaton e)
    (hrequest : ∀ r ∈ e.requestRules, Honours (requestTexts urlDecode) r)
    (hresponse : ∀ r ∈ e.responseRules, Honours responseFields r) :
    (∀ timer input, ((unfiltered e).evaluateRequest urlDecode timer input).exhausted = none →
      SameOutcome (e.evaluateRequest urlDecode timer input)
        ((unfiltered e).evaluateRequest urlDecode timer input)) ∧
    ∀ timer input, ((unfiltered e).evaluateResponse timer input).exhausted = none →
      SameOutcome (e.evaluateResponse timer input) ((unfiltered e).evaluateResponse timer input) :=
  ⟨request_sameOutcome hcomplete he hrequest, response_sameOutcome hcomplete he hresponse⟩

/-! ### An engine of three rules -/

theorem literalPattern_sound (id : Nat) (category : Category) (literal : String) :
    Sound (literalPattern id category literal) := by
  intro text span hspan literals hliterals
  cases hliterals
  obtain ⟨start, hstart, -⟩ := map_eq_some_iff.mp hspan
  exact ⟨literal, mem_singleton.mpr rfl, Text.occursIn_of_positionIn hstart⟩

def unionEngine : RuleEngine :=
  RuleEngine.assemble searchAll
    { ValidatedConfig.standard with
      requestModes := (∅ : KeyedMap Category RequestMode).insert .sqlInjection .block
      responseModes := (∅ : KeyedMap Category ResponseMode).insert .dataLeakage .redact }
    [(literalPattern 1 .sqlInjection "union").requestRule (fun _ => .borrowed) .anyField,
      (literalPattern 2 .xss "<script").requestRule (fun _ => .borrowed) .anyField]
    [(literalPattern 3 .dataLeakage "ora-").responseRule]

def unionRequest : RequestInput := { method := "GET", uri := "/?q=UNION" }

def oraResponse : ResponseInput := { status := 500, headers := [("x-error", "ORA-01")] }

theorem prefilter_changes_no_outcome_union :
    SameOutcome (unionEngine.evaluateRequest (fun _ => .borrowed) (perRule _) unionRequest)
        ((unfiltered unionEngine).evaluateRequest (fun _ => .borrowed) (perRule _) unionRequest) ∧
      SameOutcome (unionEngine.evaluateResponse (perRule _) oraResponse)
        ((unfiltered unionEngine).evaluateResponse (perRule _) oraResponse) ∧
      (unionEngine.evaluateRequest (fun _ => .borrowed) (perRule _) unionRequest).rulesChecked = 1 ∧
      ((unfiltered unionEngine).evaluateRequest (fun _ => .borrowed) (perRule _)
        unionRequest).rulesChecked = 2 ∧
      (unionEngine.evaluateRequest (fun _ => .borrowed) (perRule _) unionRequest).verdict.isEnforcing =
        true := by
  have hrequest : ∀ r ∈ unionEngine.requestRules, Honours (requestTexts fun _ => .borrowed) r := by
    intro r hr
    rcases List.mem_pair.mp hr with rfl | rfl
    all_goals exact requestRule_honours (literalPattern_sound _ _ _)
  have hresponse : ∀ r ∈ unionEngine.responseRules, Honours responseFields r := by
    intro r hr
    rw [mem_singleton.mp hr]
    exact responseRule_honours (literalPattern_sound _ _ _)
  have h := prefilter_changes_no_outcome (fun _ => .borrowed) searchAll searchAll_complete
    unionEngine (assemble_prefiltered ..) hrequest hresponse
  exact ⟨h.1 (perRule _) unionRequest (by decide +kernel),
    h.2 (perRule _) oraResponse (by decide +kernel), by decide +kernel, by decide +kernel,
    by decide +kernel⟩

/-! ### A response rule that decodes -/

/-- A value as it is and percent-decoded. -/
def rawOrDecoded (urlDecode : String → Decoded) (value : String) : List String :=
  value :: match urlDecode value with
    | .owned decoded => [decoded]
    | _ => []

/-- A rule that looks for the literal in a header as it is and percent-decoded. -/
def decodingRule (urlDecode : String → Decoded) (p : Pattern) : Rule ResponseInput :=
  p.rule none fun input => (input.headers.find? fun h =>
    (rawOrDecoded urlDecode h.2).any fun text => (p.findAt text).isSome).map fun h =>
      .responseHeader h.1

theorem decodingRule_honours (urlDecode : String → Decoded) (hp : Sound p) :
    Honours (fun input => (responseFields input).flatMap (rawOrDecoded urlDecode))
      (decodingRule urlDecode p) := by
  refine hp.honours fun input field h => ?_
  obtain ⟨header, hheader, -⟩ := map_eq_some_iff.mp h
  have hfound := find?_some hheader
  obtain ⟨text, htext, hsome⟩ := any_eq_true.mp hfound
  refine ⟨text, mem_flatMap.mpr ⟨header.2, ?_, htext⟩, hsome⟩
  have hmem := mem_map_of_mem (f := Prod.snd) (mem_of_find?_eq_some hheader)
  simp [responseFields, hmem]

def decodesShell (value : String) : Decoded :=
  if value = "%3C?php" then .owned "<?php" else .borrowed

def shellEngine : RuleEngine :=
  RuleEngine.assemble searchAll
    { ValidatedConfig.standard with
      responseModes := (∅ : KeyedMap Category ResponseMode).insert .webShell .redact } []
    [decodingRule decodesShell (literalPattern 4 .webShell "<?php")]

def shellResponse : ResponseInput := { status := 200, headers := [("x-note", "%3C?php")] }

/-- A response rule whose literal occurs only in the percent-decoded form of a header
is skipped, because responses are scanned as they are. -/
theorem decoded_response_match_skipped :
    Complete searchAll ∧ Prefiltered searchAll shellEngine ∧
      (∀ r ∈ shellEngine.requestRules, Honours (requestTexts decodesShell) r) ∧
      (∀ r ∈ shellEngine.responseRules,
        Honours (fun input => (responseFields input).flatMap (rawOrDecoded decodesShell)) r) ∧
      ((unfiltered shellEngine).evaluateResponse (perRule _) shellResponse).exhausted = none ∧
      ((unfiltered shellEngine).evaluateResponse (perRule _) shellResponse).verdict =
        .redact [⟨4, .webShell, .critical, 5, .responseHeader "x-note"⟩] 5 ∧
      (shellEngine.evaluateResponse (perRule _) shellResponse).verdict = .allow := by
  refine ⟨searchAll_complete, assemble_prefiltered .., fun r hr => (by cases hr), ?_,
    by decide +kernel, by decide +kernel, by decide +kernel⟩
  intro r hr
  rw [mem_singleton.mp hr]
  exact decodingRule_honours decodesShell (literalPattern_sound _ _ _)

end WafEquivalence
