import Pingap.ChallengePage
import Pingap.WafEquivalence

/-!
# Percent-encoded literals

A field is matched as it is, percent-decoded, and with its pluses read as spaces. The
decoder answers with an error when the decoded bytes are no text, and then only the
field as it is remains: one escape of a byte that is no text, anywhere in the field,
hides every literal that is written with an escape.
-/

namespace WafEncoding

open WafRule WafPrefilter WafEngine WafEquivalence List Text
open ChallengePage (percentBytes percentDecode)
open Utf8 (Bytes AsciiChanged)

/-- What the percent-decoder is documented to do: text that was decoded comes back as
such, or as it was when nothing changed; bytes that are no text are an error. -/
def Faithful (urlDecode : String → Decoded) : Prop :=
  ∀ text, match percentDecode text with
    | some decoded => urlDecode text = .owned decoded ∨ (urlDecode text = .borrowed ∧ decoded = text)
    | none => urlDecode text = .failed

/-- A decoder that lends out what it did not change. -/
def decoder (text : String) : Decoded :=
  match percentDecode text with
  | some decoded => if decoded = text then .borrowed else .owned decoded
  | none => .failed

theorem decoder_faithful : Faithful decoder := by
  intro text
  unfold decoder
  cases percentDecode text with
  | none => rfl
  | some decoded =>
    by_cases hsame : decoded = text
    · exact .inr ⟨if_pos hsame, hsame⟩
    · exact .inl (if_neg hsame)

/-- The bytes of the literal stand in the text. -/
def Contains (text literal : String) : Prop := Utf8.bytesOf literal <:+: Utf8.bytesOf text

instance (text literal : String) : Decidable (Contains text literal) :=
  inferInstanceAs (Decidable (_ <:+: _))

/-- The field, each of its characters read as itself or as `%XX`, has the bytes of the
literal in it. -/
def OccursEncoded (literal value : String) : Prop :=
  Utf8.bytesOf literal <:+: percentBytes value.toList

instance (literal value : String) : Decidable (OccursEncoded literal value) :=
  inferInstanceAs (Decidable (_ <:+: _))

/-- The reading of a plus as a space. -/
def plusAsSpace (c : Char) : Char := if c = '+' then ' ' else c

/-- The field with its pluses as spaces. -/
def spaced (value : String) : String := String.ofList (value.toList.map plusAsSpace)

/-- The field is text once decoded, or the literal stands in it without an escape. -/
def Readable (value literal : String) : Prop :=
  (percentDecode value).isSome = true ∨ Contains value literal ∨
    ('+' ∈ value.toList ∧ Contains (spaced value) literal)

instance (value literal : String) : Decidable (Readable value literal) :=
  inferInstanceAs (Decidable (_ ∨ _ ∨ _))

/-! ## Pluses and spaces -/

theorem asciiChanged_refl : AsciiChanged bytes bytes := forall₂_same.mpr fun _ _ => .inl rfl

theorem asciiChanged_append (h : AsciiChanged a a') (h' : AsciiChanged b b') :
    AsciiChanged (a ++ b) (a' ++ b') :=
  rel_append h h'

theorem asciiChanged_char (c : Char) :
    AsciiChanged (String.utf8EncodeChar c) (String.utf8EncodeChar (plusAsSpace c)) := by
  unfold plusAsSpace
  split
  case isTrue h =>
    subst h
    exact Forall₂.cons (.inr ⟨by decide, by decide⟩) Forall₂.nil
  case isFalse => exact asciiChanged_refl

theorem hexValue_spaced (c : Char) : hexValue (plusAsSpace c) = hexValue c := by
  unfold plusAsSpace
  split
  case isTrue h =>
    subst h
    decide
  case isFalse => rfl

theorem plusAsSpace_percent (c : Char) : plusAsSpace c = '%' ↔ c = '%' := by
  unfold plusAsSpace
  split
  case isTrue h =>
    subst h
    decide
  case isFalse => rfl

theorem percentBytes_cons_of_ne (h : c ≠ '%') (rest : List Char) :
    percentBytes (c :: rest) = String.utf8EncodeChar c ++ percentBytes rest := by
  rw [percentBytes]
  exact fun a b rest' heq => absurd heq h

theorem percentBytes_escape (ha : hexValue a = some high) (hb : hexValue b = some low)
    (rest : List Char) :
    percentBytes ('%' :: a :: b :: rest) = UInt8.ofNat (16 * high + low) :: percentBytes rest := by
  rw [percentBytes, ha, hb]

theorem percentBytes_stray (h : hexValue a = none ∨ hexValue b = none) (rest : List Char)
    :
    percentBytes ('%' :: a :: b :: rest) =
      String.utf8EncodeChar '%' ++ percentBytes (a :: b :: rest) := by
  rw [percentBytes]
  rcases h with h | h
  · rw [h]
  · rw [h]
    cases hexValue a <;> rfl

/-- Reading pluses as spaces commutes with percent-decoding up to ASCII characters. -/
theorem percentBytes_spaced (l : List Char) (hn : l.length ≤ n) :
    AsciiChanged (percentBytes l) (percentBytes (l.map plusAsSpace)) := by
  induction n generalizing l with
  | zero =>
    obtain rfl : l = [] := List.length_eq_zero_iff.mp (Nat.le_zero.mp hn)
    exact Forall₂.nil
  | succ n ih =>
    match l with
    | [] => exact Forall₂.nil
    | c :: rest =>
      by_cases hc : c = '%'
      · subst hc
        match rest with
        | [] => exact asciiChanged_refl
        | [a] =>
          have hlone : ∀ x : Char, percentBytes ['%', x] =
              String.utf8EncodeChar '%' ++ percentBytes [x] := by
            intro x
            rw [percentBytes]
            exact fun a b rest' _ heq => by simp at heq
          change AsciiChanged (percentBytes ['%', a]) (percentBytes ['%', plusAsSpace a])
          rw [hlone, hlone]
          exact asciiChanged_append asciiChanged_refl (ih [a] (by simpa using hn))
        | a :: b :: rest =>
          have hlength : rest.length + 1 + 1 ≤ n := by simpa using hn
          change AsciiChanged (percentBytes ('%' :: a :: b :: rest))
            (percentBytes ('%' :: plusAsSpace a :: plusAsSpace b :: rest.map plusAsSpace))
          cases ha : hexValue a with
          | none =>
            rw [percentBytes_stray (.inl ha),
              percentBytes_stray (.inl ((hexValue_spaced a).trans ha))]
            exact asciiChanged_append asciiChanged_refl (ih (a :: b :: rest) (by simpa using hn))
          | some high =>
            cases hb : hexValue b with
            | none =>
              rw [percentBytes_stray (.inr hb),
                percentBytes_stray (.inr ((hexValue_spaced b).trans hb))]
              exact asciiChanged_append asciiChanged_refl (ih (a :: b :: rest) (by simpa using hn))
            | some low =>
              rw [percentBytes_escape ha hb, percentBytes_escape ((hexValue_spaced a).trans ha)
                ((hexValue_spaced b).trans hb)]
              exact Forall₂.cons (.inl rfl) (ih rest (by omega))
      · have hc' : plusAsSpace c ≠ '%' := fun h => hc ((plusAsSpace_percent c).mp h)
        rw [map_cons, percentBytes_cons_of_ne hc, percentBytes_cons_of_ne hc']
        exact asciiChanged_append (asciiChanged_char c) (ih rest (by simpa using hn))

/-- A field is text once decoded exactly when it is so with its pluses as spaces. -/
theorem percentDecode_spaced (value : String) :
    (percentDecode (spaced value)).isSome = true ↔ (percentDecode value).isSome = true := by
  unfold percentDecode spaced
  rw [String.toList_ofList]
  exact (percentBytes_spaced value.toList le_rfl).fromUtf8_isSome.symm

/-! ## Forms -/

section forms

variable {urlDecode : String → Decoded} {value literal : String}

theorem Faithful.failed (h : Faithful urlDecode) {text : String}
    (hnone : (percentDecode text).isSome = false) : urlDecode text = .failed := by
  have htext := h text
  rw [Option.isSome_eq_false_iff, Option.isNone_iff_eq_none] at hnone
  rw [hnone] at htext
  exact htext

theorem decoded_mem_forms (h : Faithful urlDecode) (hsome : percentDecode value = some decoded) :
    decoded ∈ forms urlDecode value := by
  have hvalue := h value
  rw [hsome] at hvalue
  unfold forms
  rcases hvalue with howned | ⟨-, rfl⟩
  · simp [howned]
  · exact mem_append_left _ mem_cons_self

theorem contains_decoded (hsome : percentDecode value = some decoded)
    (hoccurs : OccursEncoded literal value) : Contains decoded literal := by
  have hbytes : Utf8.bytesOf decoded = percentBytes value.toList := by
    have hwhole := (Utf8.bytesOf_textStart_iff (percentBytes value.toList)).mpr (by
      rw [show Utf8.fromUtf8 (percentBytes value.toList) = some decoded from hsome]; rfl)
    have hstart : Utf8.textStart (percentBytes value.toList) = decoded := by
      unfold percentDecode Utf8.fromUtf8 at hsome
      simp only at hsome
      split at hsome
      · exact Option.some.inj hsome
      · cases hsome
    rw [← hstart, hwhole]
  unfold Contains
  rw [hbytes]
  exact hoccurs

/-- The forms of a field that is no text once decoded: as it is, and with spaces. -/
theorem forms_of_undecodable (h : Faithful urlDecode)
    (hnone : (percentDecode value).isSome = false) :
    forms urlDecode value = value :: if value.toList.contains '+' then [spaced value] else [] := by
  have hspaced : (percentDecode (spaced value)).isSome = false := by
    rw [Bool.eq_false_iff] at hnone ⊢
    exact fun hs => hnone ((percentDecode_spaced value).mp hs)
  have hform : formDecoded urlDecode value = spaced value := by
    unfold formDecoded
    simp only
    rw [show urlDecode (String.ofList (value.toList.map fun c => if c = '+' then ' ' else c)) =
      .failed from h.failed hspaced]
    rfl
  unfold forms
  rw [h.failed hnone, hform]
  rfl

/-- The literal is in a form of the field exactly when the field is readable for it. -/
theorem shown_iff (h : Faithful urlDecode) (hoccurs : OccursEncoded literal value) :
    (∃ form ∈ forms urlDecode value, Contains form literal) ↔ Readable value literal := by
  cases hdecoded : (percentDecode value).isSome with
  | true =>
    obtain ⟨decoded, hsome⟩ := Option.isSome_iff_exists.mp hdecoded
    refine ⟨fun _ => .inl hdecoded, fun _ => ⟨decoded, decoded_mem_forms h hsome, ?_⟩⟩
    exact contains_decoded hsome hoccurs
  | false =>
    rw [forms_of_undecodable h hdecoded]
    unfold Readable
    rw [hdecoded]
    by_cases hplus : '+' ∈ value.toList
    · simp [hplus]
    · simp [hplus]

end forms

theorem isSome_findBothForms (hform : form ∈ forms urlDecode value)
    (hfind : (find form).isSome = true) : (findBothForms urlDecode find value).isSome = true := by
  unfold findBothForms
  rw [findSome?_isSome_iff]
  exact ⟨form, hform, hfind⟩

/-- A match in a field of the request is a match in the request, where every header is
looked at. -/
theorem isSome_findInRequest (hinspect : ∀ name, inspect name = true)
    (hvalue : value ∈ requestFields input)
    (hfind : (findBothForms urlDecode find value).isSome = true) :
    (findInRequest urlDecode input inspect find).isSome = true := by
  unfold findInRequest
  split
  · rfl
  case isFalse hmethod =>
    split
    · rfl
    case isFalse huri =>
      split
      · rfl
      case h_2 hquery =>
        split
        · rfl
        case h_2 hheaders =>
          rw [find?_eq_none] at hquery hheaders
          simp only [requestFields, mem_cons, mem_append, mem_map] at hvalue
          rcases hvalue with rfl | rfl | (⟨q, hq, rfl⟩ | ⟨h, hh, rfl⟩) | hbody
          · exact absurd hfind hmethod
          · exact absurd hfind huri
          · exact absurd hfind (hquery q hq)
          · exact absurd (by rw [hinspect, hfind]; rfl) (hheaders h hh)
          · obtain ⟨body, hsome, rfl⟩ := Option.map_eq_some_iff.mp (Option.mem_toList.mp hbody)
            rw [hsome]
            simpa using hfind

/-- A literal that stands in a field, each of its characters as itself or as `%XX`, is in
a form the rules and the prefilter are handed exactly when the whole field is text once
decoded, or the literal also stands there unescaped; a rule that matches the literal then
matches the request. -/
theorem encoded_literal_shown_iff (urlDecode : String → Decoded) (hdecoder : Faithful urlDecode)
    (value literal : String) (hoccurs : OccursEncoded literal value) :
    ((∃ form ∈ forms urlDecode value, Contains form literal) ↔ Readable value literal) ∧
      ∀ (p : Pattern) (input : RequestInput),
        (∀ text, Contains text literal → (p.findAt text).isSome = true) →
        value ∈ requestFields input → Readable value literal →
          ((p.requestRule urlDecode .anyField).evaluate input).isSome = true := by
  have hshown := shown_iff hdecoder hoccurs
  refine ⟨hshown, fun p input hmatches hvalue hreadable => ?_⟩
  obtain ⟨form, hform, hcontains⟩ := hshown.mpr hreadable
  have hfind := isSome_findBothForms hform (hmatches form hcontains)
  have hrequest : (findInRequest urlDecode input inspectHeader p.findAt).isSome = true :=
    isSome_findInRequest (fun name => rfl) hvalue hfind
  simpa [Pattern.requestRule, Pattern.rule] using hrequest

/-- A rule for a literal, found by its bytes. -/
def bytesPattern (literal : String) : Pattern :=
  { literalPattern 1 .sqlInjection literal with
    findAt := fun text => if Contains text literal then some ⟨0, literal.utf8ByteSize⟩ else none }

theorem encoded_literal_shown_iff_quote :
    OccursEncoded "'union" "/%27u%6Eion" ∧
      (∃ form ∈ forms decoder "/%27u%6Eion", Contains form "'union") ∧
      (((bytesPattern "'union").requestRule decoder .anyField).evaluate
        { uri := "/%27u%6Eion" }).isSome = true := by
  have hoccurs : OccursEncoded "'union" "/%27u%6Eion" := by decide +kernel
  have hreadable : Readable "/%27u%6Eion" "'union" := by decide +kernel
  have hall := encoded_literal_shown_iff decoder decoder_faithful _ _ hoccurs
  refine ⟨hoccurs, hall.1.mpr hreadable, hall.2 (bytesPattern "'union") _ ?_ ?_ hreadable⟩
  · intro text hcontains
    simp [bytesPattern, hcontains]
  · exact mem_cons_of_mem _ mem_cons_self

/-- One escape of a byte that is no text, and the rule does not see the literal that is
written with another escape. -/
theorem stray_escape_hides_literal :
    Faithful decoder ∧ OccursEncoded "'union" "/%FF%27union" ∧
      (∀ form ∈ forms decoder "/%FF%27union", ¬ Contains form "'union") ∧
      ((bytesPattern "'union").requestRule decoder .anyField).evaluate
        { uri := "/%FF%27union" } = none ∧
      (((bytesPattern "'union").requestRule decoder .anyField).evaluate
        { uri := "/%27union" }).isSome = true := by
  refine ⟨decoder_faithful, ?_⟩
  decide +kernel

end WafEncoding
