import Mathlib.Data.List.Basic
import Mathlib.Data.List.Forall2

/-!
# UTF-8 text out of bytes

The decoding of the standard library: one character at a time, overlong forms,
surrogates and values beyond the last code point refused.
-/

namespace Utf8

open List Option

abbrev Bytes := List UInt8

/-- The first character of the bytes, and the bytes after it. -/
def decodeChar (bytes : Bytes) : Option (Char × Bytes) :=
  (bytes.toByteArray.utf8DecodeChar? 0).map fun c => (c, bytes.drop c.utf8Size)

/-- The characters of the longest valid start of the bytes, and what is left. -/
def decode : Nat → Bytes → List Char × Bytes
  | 0, bytes => ([], bytes)
  | fuel + 1, bytes =>
    match decodeChar bytes with
    | none => ([], bytes)
    | some (c, rest) =>
      let out := decode fuel rest
      (c :: out.1, out.2)

/-- `text_prefix`: the longest valid text the bytes start with. -/
def textStart (bytes : Bytes) : String := String.ofList (decode bytes.length bytes).1

def fromUtf8 (bytes : Bytes) : Option String :=
  let out := decode bytes.length bytes
  if out.2.isEmpty then some (String.ofList out.1) else none

/-- A character is read exactly where its encoding stands. -/
theorem decodeChar_eq_some_iff :
    decodeChar bytes = some (c, rest) ↔ bytes = String.utf8EncodeChar c ++ rest := by
  rw [decodeChar, map_eq_some_iff]
  constructor
  · rintro ⟨c', hread, heq⟩
    obtain ⟨rfl, rfl⟩ := Prod.mk.inj heq
    obtain ⟨left, hleft⟩ := ByteArray.exists_of_utf8DecodeChar?_eq_some hread
    have hbytes : bytes = String.utf8EncodeChar c' ++ left.data.toList := by
      simpa using congrArg (·.data.toList) hleft
    rw [hbytes, drop_left' (String.length_utf8EncodeChar c')]
  · rintro rfl
    refine ⟨c, ?_, by rw [drop_left' (String.length_utf8EncodeChar c)]⟩
    rw [toByteArray_append]
    exact ByteArray.utf8DecodeChar?_utf8EncodeChar_append

/-! ## Encoded text is read back -/

/-- Decoding undoes encoding, as soon as the fuel lasts for the characters. -/
theorem decode_utf8Encode (text : List Char) (fuel : Nat) (h : text.length ≤ fuel) :
    decode fuel (text.flatMap String.utf8EncodeChar) = (text, []) := by
  induction text generalizing fuel with
  | nil => cases fuel <;> rfl
  | cons c text ih =>
    obtain ⟨fuel, rfl⟩ := Nat.exists_eq_succ_of_ne_zero (n := fuel) (by simp at h; omega)
    rw [flatMap_cons, Nat.succ_eq_add_one, decode, decodeChar_eq_some_iff.mpr rfl]
    simp only [ih fuel (by simpa using h)]

theorem length_le_utf8Encode (text : List Char) :
    text.length ≤ (text.flatMap String.utf8EncodeChar).length := by
  induction text with
  | nil => exact Nat.le_refl 0
  | cons c text ih =>
    have hpos : 0 < (String.utf8EncodeChar c).length :=
      List.length_pos_iff.mpr String.utf8EncodeChar_ne_nil
    rw [flatMap_cons, length_append, length_cons]
    omega

/-- Every text is read back from its bytes. -/
theorem fromUtf8_utf8Encode {text : List Char} :
    fromUtf8 (text.flatMap String.utf8EncodeChar) = some (String.ofList text) := by
  simp only [fromUtf8, decode_utf8Encode text _ (length_le_utf8Encode text), isEmpty_nil, if_true]

/-! ## What is read was encoded -/

/-- The characters read and the bytes left make up the bytes. -/
theorem utf8Encode_decode (fuel : Nat) (bytes : Bytes) :
    (decode fuel bytes).1.flatMap String.utf8EncodeChar ++ (decode fuel bytes).2 = bytes := by
  induction fuel generalizing bytes with
  | zero => rfl
  | succ fuel ih =>
    unfold decode
    cases h : decodeChar bytes with
    | none => rfl
    | some out =>
      obtain ⟨c, rest⟩ := out
      simp only [flatMap_cons, append_assoc, ih]
      exact (decodeChar_eq_some_iff.mp h).symm

def bytesOf (text : String) : Bytes := text.toList.flatMap String.utf8EncodeChar

/-- The text a body starts with is the whole body exactly when the body is text. -/
theorem bytesOf_textStart_iff (bytes : Bytes) :
    bytesOf (textStart bytes) = bytes ↔ (fromUtf8 bytes).isSome = true := by
  have hwhole := utf8Encode_decode bytes.length bytes
  unfold bytesOf textStart
  rw [String.toList_ofList]
  constructor
  · intro h
    rw [← h, fromUtf8_utf8Encode]
    rfl
  · intro h
    unfold fromUtf8 at h
    cases hrest : (decode bytes.length bytes).2 with
    | nil => rwa [hrest, append_nil] at hwhole
    | cons b rest => simp [hrest] at h

/-! ## ASCII in the place of ASCII -/

theorem utf8EncodeChar_ofNat {b : UInt8} (h : b.toNat ≤ 0x7F) :
    String.utf8EncodeChar (Char.ofNat b.toNat) = [b] := by
  have hvalid : b.toNat.isValidChar := .inl (by omega)
  have hval : (Char.ofNat b.toNat).val.toNat = b.toNat := by
    rw [Char.ofNat, dif_pos hvalid]
    rfl
  rw [String.utf8EncodeChar, hval, if_pos h, UInt8.ofNat_toNat]

/-- A character is one ASCII byte, or has none. -/
theorem utf8EncodeChar_cases (c : Char) :
    (∃ b, String.utf8EncodeChar c = [b] ∧ b.toNat ≤ 0x7F) ∨
      ∀ b ∈ String.utf8EncodeChar c, 0x7F < b.toNat := by
  rw [String.utf8EncodeChar]
  generalize c.val.toNat = v
  split
  case isTrue h => exact .inl ⟨_, rfl, by rw [UInt8.toNat_ofNat_of_lt' (show v < 256 by omega)]; exact h⟩
  case isFalse =>
    right
    have hhigh : ∀ n, 0x80 ≤ n → n < 256 → 0x7F < (UInt8.ofNat n).toNat := fun n hlow hlt => by
      rw [UInt8.toNat_ofNat_of_lt' hlt]
      exact hlow
    split
    · simp only [mem_cons, not_mem_nil, or_false, forall_eq_or_imp, forall_eq]
      exact ⟨hhigh _ (by omega) (by omega), hhigh _ (by omega) (by omega)⟩
    split
    · simp only [mem_cons, not_mem_nil, or_false, forall_eq_or_imp, forall_eq]
      exact ⟨hhigh _ (by omega) (by omega), hhigh _ (by omega) (by omega),
        hhigh _ (by omega) (by omega)⟩
    · simp only [mem_cons, not_mem_nil, or_false, forall_eq_or_imp, forall_eq]
      exact ⟨hhigh _ (by omega) (by omega), hhigh _ (by omega) (by omega),
        hhigh _ (by omega) (by omega), hhigh _ (by omega) (by omega)⟩

/-- The bytes differ only where both have ASCII characters. -/
def AsciiChanged (bytes bytes' : Bytes) : Prop :=
  List.Forall₂ (fun b b' => b = b' ∨ (b.toNat ≤ 0x7F ∧ b'.toNat ≤ 0x7F)) bytes bytes'

section

variable (h : AsciiChanged bytes bytes')
include h

theorem AsciiChanged.symm : AsciiChanged bytes' bytes := by
  refine Forall₂.imp ?_ (Forall₂.flip h)
  intro b' b hb
  exact hb.imp Eq.symm And.symm

/-- What stands before has no ASCII to change. -/
theorem AsciiChanged.eq_of_high (hhigh : ∀ b ∈ bytes, 0x7F < b.toNat) : bytes' = bytes := by
  induction h with
  | nil => rfl
  | cons hb _ ih =>
    rw [ih fun b hmem => hhigh b (mem_cons_of_mem _ hmem)]
    rcases hb with rfl | ⟨hascii, -⟩
    · rfl
    · exact absurd (hhigh _ mem_cons_self) (Nat.not_lt.mpr hascii)

theorem AsciiChanged.decodeChar (hread : decodeChar bytes = some (c, rest)) :
    ∃ c' rest', decodeChar bytes' = some (c', rest') ∧ AsciiChanged rest rest' := by
  simp only [decodeChar_eq_some_iff] at hread ⊢
  subst hread
  rcases utf8EncodeChar_cases c with ⟨b, hone, hascii⟩ | hhigh
  · rw [hone] at h
    cases h with
    | @cons _ b' _ tail' hb htail =>
      have hascii' : b'.toNat ≤ 0x7F := by
        rcases hb with rfl | ⟨-, hb'⟩
        · exact hascii
        · exact hb'
      exact ⟨Char.ofNat b'.toNat, tail', by rw [utf8EncodeChar_ofNat hascii']; rfl, htail⟩
  · have hstart : bytes'.take (String.utf8EncodeChar c).length = String.utf8EncodeChar c :=
      eq_of_high (symm (forall₂_take_append _ _ _ h.symm)) hhigh
    refine ⟨c, bytes'.drop (String.utf8EncodeChar c).length, ?_,
      symm (forall₂_drop_append _ _ _ h.symm)⟩
    nth_rewrite 1 [← take_append_drop (String.utf8EncodeChar c).length bytes', hstart]
    rfl

theorem AsciiChanged.decode_left (hleft : (decode fuel bytes).2 = []) :
    (decode fuel bytes').2 = [] := by
  induction fuel generalizing bytes bytes' with
  | zero =>
    obtain rfl : bytes = [] := hleft
    cases h
    rfl
  | succ fuel ih =>
    unfold decode at hleft ⊢
    cases hread : Utf8.decodeChar bytes with
    | none =>
      rw [hread] at hleft
      obtain rfl : bytes = [] := hleft
      cases h
      rfl
    | some out =>
      obtain ⟨c, rest⟩ := out
      obtain ⟨c', rest', hread', hrest⟩ := h.decodeChar hread
      rw [hread] at hleft
      rw [hread']
      exact ih hrest hleft

/-- Whether bytes are text does not depend on which ASCII characters they have. -/
theorem AsciiChanged.fromUtf8_isSome :
    (fromUtf8 bytes).isSome = true ↔ (fromUtf8 bytes').isSome = true := by
  have hlength := Forall₂.length_eq h
  have hiff : (decode bytes.length bytes).2 = [] ↔ (decode bytes'.length bytes').2 = [] := by
    rw [← hlength]
    exact ⟨h.decode_left, h.symm.decode_left⟩
  have hsome : ∀ b : Bytes, (fromUtf8 b).isSome = true ↔ (decode b.length b).2 = [] := by
    intro b
    unfold fromUtf8
    cases hleft : (decode b.length b).2 with
    | nil | cons => simp [hleft]
  rw [hsome, hsome, hiff]

end

example : textStart [115, 101, 108, 0xFF, 100] = "sel" := by decide +kernel

example : fromUtf8 [0xE2, 0x82, 0xAC] = some "€" := by decide

example : fromUtf8 [0xE2, 0x82] = none := by decide

end Utf8
