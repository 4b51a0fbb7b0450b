import Pingap.WafBody

/-!
# What the rules are shown of a body

The rules see a body as text: the engine cuts it at its limit, and the text ends at
the first byte that is no UTF-8. The flag of an evaluation that says bytes were left
out knows of the first cut and of what the caller dropped, not of the second one.
-/

namespace WafInspection

open WafRule WafEngine WafPlugin WafBody RuleEngine
open Utf8 (Bytes)

/-- The text of a request body that the rules are handed. -/
def requestText (e : RuleEngine) (input : RequestInput) : Option String :=
  (e.scopedRequest input).body.map Utf8.textStart

/-- The text of a response body that the rules are handed. -/
def responseText (e : RuleEngine) (input : ResponseInput) : Option String :=
  (e.scopedResponse input).bodyChunk.map Utf8.textStart

/-- Every byte of the body is part of the text. -/
def Covers (text : Option String) (body : Bytes) : Prop := text.map Utf8.bytesOf = some body

instance (text : Option String) (body : Bytes) : Decidable (Covers text body) :=
  inferInstanceAs (Decidable (_ = _))

/-- A body within the limit is covered exactly when it is text. -/
theorem covers_clamp_iff (h : ¬ limit < body.length) :
    Covers ((clamp (some body) limit).1.map Utf8.textStart) body ↔
      (Utf8.fromUtf8 body).isSome = true := by
  simp only [clamp, if_neg h, Option.map_some, Covers, Option.some.injEq]
  exact Utf8.bytesOf_textStart_iff body

/-- The flag is right about a body that is cut at the limit, dropped by the caller, or
text throughout, and about no other. -/
theorem flagged_iff :
    (((clamp (some body) limit).2 || dropped) = false →
        Covers ((clamp (some body) limit).1.map Utf8.textStart) body) ↔
      (dropped = true ∨ limit < body.length ∨ (Utf8.fromUtf8 body).isSome = true) := by
  by_cases hlong : limit < body.length
  · have hcut : (clamp (some body) limit).2 = true := by simp [clamp, hlong]
    rw [hcut]
    exact ⟨fun _ => .inr (.inl hlong), fun _ h => by cases h⟩
  · have hwhole : (clamp (some body) limit).2 = false := by simp [clamp, hlong]
    rw [hwhole, covers_clamp_iff hlong, Bool.false_or]
    cases dropped with
    | true => simp
    | false => simp [hlong]

/-- An evaluation that does not report bytes left out has shown the rules the whole body,
exactly when the caller dropped some, the body is longer than the limit, or it is text;
so for requests, for responses and for the body an entry has gathered. -/
theorem unflagged_body_is_shown_iff (urlDecode : String → Decoded)
    (timer : Timer (Rule RequestInput)) (timer' : Timer (Rule ResponseInput)) :
    (∀ (e : RuleEngine) input body, input.body = some body →
      (((e.evaluateRequest urlDecode timer input).truncated = false →
          Covers (requestText e input) body) ↔
        (input.bodyTruncated = true ∨ e.config.bodyInspectLimit < body.length ∨
          (Utf8.fromUtf8 body).isSome = true))) ∧
    (∀ (e : RuleEngine) input body, input.bodyChunk = some body →
      (((e.evaluateResponse timer' input).truncated = false → Covers (responseText e input) body) ↔
        (input.bodyTruncated = true ∨ e.config.responsePrefixLimit < body.length ∨
          (Utf8.fromUtf8 body).isSome = true))) ∧
    (∀ (waf : Waf) total,
      (((evaluated urlDecode timer waf total).truncated = false →
          Covers (requestText waf.engine (shown waf total)) total) ↔
        (waf.bodyLimit < total.length ∨ (Utf8.fromUtf8 total).isSome = true))) := by
  refine ⟨?_, ?_, ?_⟩
  · intro e input body hbody
    simp only [evaluateRequest, Progress.evaluation, requestText, scopedRequest, hbody]
    exact flagged_iff
  · intro e input body hbody
    simp only [evaluateResponse, Progress.evaluation, responseText, scopedResponse, hbody]
    exact flagged_iff
  · intro waf total
    rw [evaluated_truncated, decide_eq_false_iff_not]
    by_cases hlong : waf.bodyLimit < total.length
    · exact ⟨fun _ => .inl hlong, fun _ hshort => absurd hlong hshort⟩
    have hall := List.take_of_length_le (Nat.not_lt.mp hlong)
    have hcovers : Covers (requestText waf.engine (shown waf total)) total ↔
        (Utf8.fromUtf8 total).isSome = true := by
      simp only [requestText, scopedRequest, shown, bodyInput, hall]
      exact covers_clamp_iff hlong
    rw [hcovers]
    simp [hlong]

/-- A request and a response whose bodies are text are shown whole. -/
theorem unflagged_body_is_shown_iff_hello :
    Covers (requestText (smallEntry .inspectPrefix).engine { body := some (ascii "hello") })
        (ascii "hello") ∧
      Covers (responseText (smallEntry .inspectPrefix).engine { bodyChunk := some (ascii "hi") })
        (ascii "hi") := by
  have hiff := unflagged_body_is_shown_iff (fun _ => .borrowed) (perRule _) (perRule _)
  exact ⟨(hiff.1 _ { body := some (ascii "hello") } _ rfl).mpr (by decide +kernel) (by decide +kernel),
    (hiff.2.1 _ { bodyChunk := some (ascii "hi") } _ rfl).mpr (by decide +kernel) (by decide +kernel)⟩

/-- One byte that is no UTF-8 ends what the rules see. The literal after it is let through
and the evaluation says that nothing was left out; without the byte it is blocked. -/
theorem invalid_byte_hides_the_rest :
    let e := (smallEntry .inspectPrefix).engine
    let hidden := e.evaluateRequest (fun _ => .borrowed) (perRule _)
      { body := some (0xFF :: ascii "union") }
    let plain := e.evaluateRequest (fun _ => .borrowed) (perRule _) { body := some (ascii "union") }
    (hidden.truncated = false ∧ hidden.verdict = .allow ∧
        ¬ Covers (requestText e { body := some (0xFF :: ascii "union") }) (0xFF :: ascii "union")) ∧
      plain.verdict.isEnforcing = true := by
  decide +kernel

end WafInspection
