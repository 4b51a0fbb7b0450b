import Pingap.WafBody

/-!
# Two entries on one location

The buffer of a body stands in the context of the request under its type, so the
second entry of a location finds the buffer of the first one. While the first one
holds the body, the second one is handed nothing; once the first one has released it,
the second one takes it for released. It judges no body at all.
-/

namespace WafStacked

open WafRule WafEngine WafPlugin WafBody List
open Utf8 (Bytes)

section stacked

variable (urlDecode : String → Decoded) (now : Nat)

/-! ## The second entry -/

/-- A buffer that holds no more than its own limit. -/
def Held (w : World) : Prop :=
  ∃ b, w.ctx.requestBody = some b ∧ b.released = false ∧ b.buf.length ≤ b.limit

theorem handle_nothing (h : Held w) {waf : Waf} :
    waf.handleRequestBody urlDecode timer now w none false = ⟨w, none, none, none⟩ := by
  obtain ⟨b, hb, hreleased, hfits⟩ := h
  obtain ⟨⟨state, buffer, marker, vars, location⟩, queue⟩ := w
  cases hb
  obtain ⟨limit, policy, buf, released, truncated⟩ := b
  cases hreleased
  have hover : ¬ limit < buf.length := Nat.not_lt.mpr hfits
  simp [Waf.handleRequestBody, bodyLimit_ne_zero, BodyBuffer.feed, hover]

/-- The context as a first entry leaves it between two chunks. -/
def Between (first : Waf) (w : World) : Prop := (∃ got, Holding first got w) ∨ Released w

/-- What an entry answers that looks at nothing. -/
def idle : Outcome := ⟨none, none⟩

/-- A chunk the second entry does nothing about. -/
structure SecondIdle (first : Waf) (d : Dispatch) : Prop where
  second : ∀ o, d.outcomes[1]? = some o → o = idle
  between : d.refused = none → Between first d.world

section chunk

variable {first second : Waf} {timer timer' : Timer (Rule RequestInput)} {w : World}
  {chunk : Option Bytes} {endOfStream : Bool} {s : BodyStep}

section

variable (hs : first.handleRequestBody urlDecode timer now w chunk endOfStream = s)
include hs

theorem secondIdle_of_passed (hrefused : s.refused = none)
    (hsecond : second.handleRequestBody urlDecode timer' now s.world s.body endOfStream =
      ⟨s.world, s.body, none, none⟩) (hbetween : Between first s.world) :
    SecondIdle first (handleRequestBodyPlugin urlDecode now [(first, timer), (second, timer')] w
      chunk endOfStream) := by
  simp only [handleRequestBodyPlugin, hs, hrefused, hsecond]
  exact ⟨fun o ho => (Option.some.inj ho).symm, fun _ => hbetween⟩

theorem secondIdle_of_refused (hrefused : s.refused = some err) :
    SecondIdle first (handleRequestBodyPlugin urlDecode now [(first, timer), (second, timer')] w
      chunk endOfStream) := by
  simp only [handleRequestBodyPlugin, hs, hrefused]
  exact ⟨fun o ho => (by cases ho), fun hnone => (by cases hnone)⟩

end

end chunk

section

variable (first second : Waf) (timer timer' : Timer (Rule RequestInput)) (h : Between first w)
include h

/-- One chunk through two entries: the second one does nothing. -/
theorem dispatch_second (chunk : Option Bytes) (endOfStream : Bool) :
    SecondIdle first (handleRequestBodyPlugin urlDecode now [(first, timer), (second, timer')] w
      chunk endOfStream) := by
  rcases h with ⟨got, hholding⟩ | hreleased
  · rcases handle_cases urlDecode timer now first hholding chunk endOfStream with
      ⟨hfits, rfl, hhold⟩ | ⟨-, hrejects⟩ | ⟨-, -, hjudges⟩
    · exact secondIdle_of_passed urlDecode now hhold rfl
        (handle_nothing urlDecode now ⟨_, rfl, rfl, hfits⟩)
        (.inl ⟨_, holding_withBuffer first _ w⟩)
    · exact secondIdle_of_refused urlDecode now rfl hrejects.refused
    cases henforcing : (evaluated urlDecode timer first
        (got ++ chunk.getD [])).verdict.isEnforcing with
    | true =>
      have hrefused := hjudges.refused
      rw [henforcing] at hrefused
      exact secondIdle_of_refused urlDecode now rfl hrefused
    | false =>
      have hrefused := hjudges.refused
      rw [henforcing] at hrefused
      exact secondIdle_of_passed urlDecode now rfl hrefused
        (handle_released urlDecode timer' now second hjudges.released _ _)
        (.inr hjudges.released)
  · exact secondIdle_of_passed urlDecode now
      (handle_released urlDecode timer now first hreleased chunk endOfStream) rfl
      (handle_released urlDecode timer' now second hreleased chunk endOfStream)
      (.inr hreleased)

theorem column_second (l : List Chunk) :
    ∀ o ∈ (runBody urlDecode now [(first, timer), (second, timer')] w l).column 1, o = idle := by
  induction l generalizing w with
  | nil => intro o ho; cases ho
  | cons c rest ih =>
    obtain ⟨chunk, endOfStream⟩ := c
    have hchunk := dispatch_second urlDecode now first second timer timer' h chunk endOfStream
    intro o ho
    obtain ⟨outcomes, houtcomes, ho⟩ := mem_filterMap.mp ho
    simp only [runBody] at houtcomes
    split at houtcomes
    · rw [mem_singleton.mp houtcomes] at ho
      exact hchunk.second o ho
    case h_2 hnone =>
      rcases mem_cons.mp houtcomes with rfl | hrest
      · exact hchunk.second o ho
      · exact ih (hchunk.between hnone) o (mem_filterMap.mpr ⟨outcomes, hrest, ho⟩)

theorem decision_second (l : List Chunk) :
    (runBody urlDecode now [(first, timer), (second, timer')] w l).decision 1 =
      ⟨none, [], false⟩ := by
  have hidle := column_second urlDecode now first second timer timer' h l
  have hjudgements :
      (runBody urlDecode now [(first, timer), (second, timer')] w l).judgements 1 = [] := by
    refine filterMap_eq_nil_iff.mpr fun o ho => ?_
    rw [hidle o ho]
    rfl
  have hrefused : ((runBody urlDecode now [(first, timer), (second, timer')] w l).column 1).findSome?
      Outcome.refused = none := by
    refine findSome?_eq_none_iff.mpr fun o ho => ?_
    rw [hidle o ho]
    rfl
  simp [BodyRun.decision, hjudgements, hrefused]

end

/-! ## An entry on its own -/

/-- The error that ends the run of one entry is the one it answered. -/
theorem refused_column (waf : Waf) (timer : Timer (Rule RequestInput)) (w : World)
    (l : List Chunk) :
    ((runBody urlDecode now [(waf, timer)] w l).column 0).findSome? Outcome.refused =
      (runBody urlDecode now [(waf, timer)] w l).refused := by
  induction l generalizing w with
  | nil => rfl
  | cons c rest ih =>
    obtain ⟨chunk, endOfStream⟩ := c
    rw [runBody_cons urlDecode timer now waf w chunk endOfStream rest rfl]
    cases hrefused : (waf.handleRequestBody urlDecode timer now w chunk endOfStream).refused with
    | some err => rfl
    | none => exact ih _

theorem decision_alone (waf : Waf) (timer : Timer (Rule RequestInput))
    (hfresh : w.ctx.requestBody = none) (hne : chunks ≠ []) :
    (runBody urlDecode now [(waf, timer)] w (stream chunks)).decision 0 =
      if TooLarge waf (bytesOf chunks) then ⟨some (overCapError waf.bodyLimit), [], false⟩
      else ⟨if (evaluated urlDecode timer waf (bytesOf chunks)).verdict.isEnforcing
          then some bodyError else none,
        (evaluated urlDecode timer waf (bytesOf chunks)).verdict.hits,
        decide (waf.bodyLimit < (bytesOf chunks).length)⟩ := by
  have hsettles := holding_run urlDecode timer now waf (holding_of_fresh waf w hfresh) hne
  rw [nil_append] at hsettles
  split
  case isTrue hlarge =>
    obtain ⟨hrefused, -, hjudged, -⟩ := hsettles.tooLarge hlarge
    simp [BodyRun.decision, refused_column, hrefused, hjudged]
  case isFalse hsmall =>
    obtain ⟨hjudged, hrefused, -, -⟩ := hsettles.judged hsmall
    simp [BodyRun.decision, refused_column, hrefused, hjudged, evaluated_truncated]

end stacked

/-- The second of two entries decides as it does on its own exactly on the bodies about
which it has nothing to say: within its limit, and without a hit. -/
theorem second_entry_decides_iff (urlDecode : String → Decoded) (now : Nat) (first second : Waf)
    (timer timer' : Timer (Rule RequestInput)) (w : World) (hfresh : w.ctx.requestBody = none)
    (chunks : List (Option Bytes)) (hne : chunks ≠ []) :
    (runBody urlDecode now [(first, timer), (second, timer')] w (stream chunks)).decision 1 =
        (runBody urlDecode now [(second, timer')] w (stream chunks)).decision 0 ↔
      (bytesOf chunks).length ≤ second.bodyLimit ∧
        (second.engine.evaluateRequest urlDecode timer'
          (bodyInput (bytesOf chunks) false)).verdict = .allow := by
  rw [decision_second urlDecode now first second timer timer'
    (.inl ⟨[], holding_of_fresh first w hfresh⟩) (stream chunks),
    decision_alone urlDecode now second timer' hfresh hne]
  by_cases hfits : (bytesOf chunks).length ≤ second.bodyLimit
  · have hover := Nat.not_lt.mpr hfits
    have hshown : shown second (bytesOf chunks) = bodyInput (bytesOf chunks) false := by
      rw [shown, decide_eq_false hover, take_of_length_le hfits]
    rw [if_neg fun hlarge => hover hlarge.2, evaluated, hshown, decide_eq_false hover]
    refine ⟨fun h => ⟨hfits, (RuleEngine.evaluateRequest_eq_allow_iff ..).mpr ?_⟩, fun h => ?_⟩
    · rw [Decision.mk.injEq] at h
      obtain ⟨hrefused, hhits, -⟩ := h
      refine ⟨Bool.eq_false_iff.mpr fun henforcing => ?_, hhits.symm⟩
      rw [if_pos henforcing] at hrefused
      cases hrefused
    · rw [h.2]
      rfl
  · refine ⟨fun h => ?_, fun h => absurd h.1 hfits⟩
    split at h
    · cases h
    · rw [Decision.mk.injEq, decide_eq_true (Nat.lt_of_not_le hfits)] at h
      cases h.2.2

/-! ### An entry without rules before one that blocks -/

def openEntry : Waf where
  engine := RuleEngine.assemble WafPrefilter.searchAll
    { ValidatedConfig.standard with bodyInspectLimit := 16, limit_pos := by decide } [] []

theorem second_entry_decides_iff_hello :
    (runBody (fun _ => .borrowed) 0 [(openEntry, perRule _), (smallEntry .inspectPrefix, perRule _)]
        freshWorld (stream [some (ascii "hel"), some (ascii "lo")])).decision 1 =
      (runBody (fun _ => .borrowed) 0 [(smallEntry .inspectPrefix, perRule _)] freshWorld
        (stream [some (ascii "hel"), some (ascii "lo")])).decision 0 :=
  (second_entry_decides_iff (fun _ => .borrowed) 0 openEntry (smallEntry .inspectPrefix) (perRule _)
    (perRule _) freshWorld rfl [some (ascii "hel"), some (ascii "lo")]
    (cons_ne_nil _ _)).mpr (by decide +kernel)

/-- The second entry refuses the body on its own and lets it through behind the first. -/
theorem second_entry_bypassed :
    (runBody (fun _ => .borrowed) 0 [(openEntry, perRule _), (smallEntry .inspectPrefix, perRule _)]
        freshWorld (stream [some (ascii "uni"), some (ascii "on")])).forwarded = ascii "union" ∧
      (runBody (fun _ => .borrowed) 0
        [(openEntry, perRule _), (smallEntry .inspectPrefix, perRule _)] freshWorld
          (stream [some (ascii "uni"), some (ascii "on")])).decision 1 = ⟨none, [], false⟩ ∧
      (runBody (fun _ => .borrowed) 0 [(smallEntry .inspectPrefix, perRule _)] freshWorld
        (stream [some (ascii "uni"), some (ascii "on")])).decision 0 =
          ⟨some bodyError, [⟨1, .sqlInjection, .critical, 5, .body 0 5⟩], false⟩ := by
  refine ⟨?_, ?_, ?_⟩ <;> decide +kernel

end WafStacked
