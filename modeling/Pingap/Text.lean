import Mathlib.Algebra.Ring.Nat
import Mathlib.Data.List.Basic
import Mathlib.Data.List.DropRight
import Mathlib.Data.List.TakeWhile

/-!
# Text as lists of characters

The string functions of the standard library that the program relies on, over
`List Char` so that they compute in the kernel.
-/

namespace Text

open Bool List

/-- The Unicode `White_Space` property, which is what trimming removes. -/
def isWhitespace (c : Char) : Bool :=
  let n := c.toNat
  (9 ≤ n && n ≤ 13) || n == 0x20 || n == 0x85 || n == 0xA0 || n == 0x1680 ||
    (0x2000 ≤ n && n ≤ 0x200A) || n == 0x2028 || n == 0x2029 || n == 0x202F || n == 0x205F ||
    n == 0x3000

def trim (s : List Char) : List Char :=
  ((s.dropWhile isWhitespace).reverse.dropWhile isWhitespace).reverse

def asciiLower (c : Char) : Char :=
  if 'A' ≤ c ∧ c ≤ 'Z' then Char.ofNat (c.toNat + 32) else c

def toAsciiLowercase (s : List Char) : List Char := s.map asciiLower

def eqIgnoreAsciiCase (a b : String) : Bool :=
  toAsciiLowercase a.toList == toAsciiLowercase b.toList

/-- The characters occur in a row. -/
def occursIn (needle : List Char) : List Char → Bool
  | [] => needle.isEmpty
  | c :: hay => needle.isPrefixOf (c :: hay) || occursIn needle hay

/-- The text occurs in another one, whatever the case of its ASCII letters. -/
def occurs (needle hay : String) : Bool :=
  occursIn (toAsciiLowercase needle.toList) (toAsciiLowercase hay.toList)

/-- The byte where the characters first occur in a row, counted from `n`. -/
def positionIn (needle : List Char) : List Char → Nat → Option Nat
  | [], n => if needle.isEmpty then some n else none
  | c :: hay, n =>
    if needle.isPrefixOf (c :: hay) then some n else positionIn needle hay (n + c.utf8Size)

theorem occursIn_of_positionIn (h : positionIn needle hay n = some k) :
    occursIn needle hay = true := by
  induction hay generalizing n with
  | nil =>
    simp only [positionIn] at h
    split at h
    case isTrue hempty => exact hempty
    case isFalse => cases h
  | cons c hay ih =>
    simp only [positionIn] at h
    split at h
    case isTrue hstart => exact or_eq_true_iff.mpr (.inl hstart)
    case isFalse => exact or_eq_true_iff.mpr (.inr (ih h))

/-- The byte where a text first occurs, whatever the case of its ASCII letters. -/
def position (needle hay : String) : Option Nat :=
  positionIn (toAsciiLowercase needle.toList) (toAsciiLowercase hay.toList) 0

/-- What stands before the first `c`: the head of a split at `c`. -/
def before (c : Char) (s : List Char) : List Char := s.takeWhile (· != c)

/-- What stands up to the last `c`, with that `c`. -/
def upToLast (c : Char) (s : List Char) : List Char := (s.reverse.dropWhile (· != c)).reverse

/-- What stands after the last `c`, or everything when there is none. -/
def afterLast (c : Char) (s : List Char) : List Char := (s.reverse.takeWhile (· != c)).reverse

def hexDigit (n : Nat) : Char := Char.ofNat (if n < 10 then 48 + n else 87 + n)

def hexEncode (bytes : List UInt8) : List Char :=
  bytes.flatMap fun b => [hexDigit (b.toNat / 16), hexDigit (b.toNat % 16)]

def hexValue (c : Char) : Option Nat :=
  if '0' ≤ c ∧ c ≤ '9' then some (c.toNat - 48)
  else if 'a' ≤ c ∧ c ≤ 'f' then some (c.toNat - 87)
  else if 'A' ≤ c ∧ c ≤ 'F' then some (c.toNat - 55)
  else none

/-- `hex::decode`: pairs of digits of either case. -/
def hexDecode : List Char → Option (List UInt8)
  | [] => some []
  | [_] => none
  | a :: b :: rest => (hexValue a).bind fun high => (hexValue b).bind fun low =>
    (hexDecode rest).map fun bytes => UInt8.ofNat (16 * high + low) :: bytes

theorem hexValue_hexDigit (n : Nat) (h : n < 16) : hexValue (hexDigit n) = some n := by
  have hall : ∀ m : Fin 16, hexValue (hexDigit m) = some m.val := by decide
  exact hall ⟨n, h⟩

/-- Decoding undoes encoding. -/
theorem hexDecode_hexEncode : hexDecode (hexEncode bytes) = some bytes := by
  induction bytes with
  | nil => rfl
  | cons b bytes ih =>
    have hlt : b.toNat < 256 := b.toNat_lt
    have hcons : hexEncode (b :: bytes) =
        hexDigit (b.toNat / 16) :: hexDigit (b.toNat % 16) :: hexEncode bytes := rfl
    have hbyte := Nat.div_add_mod b.toNat 16
    rw [hcons, hexDecode, hexValue_hexDigit _ (by omega), hexValue_hexDigit _ (by omega), ih]
    simp only [Option.bind_some, Option.map_some, hbyte, UInt8.ofNat_toNat]

theorem hexEncode_injective (h : hexEncode a = hexEncode b) : a = b := by
  have hdecoded := congrArg hexDecode h
  rw [hexDecode_hexEncode, hexDecode_hexEncode] at hdecoded
  exact Option.some.inj hdecoded

/-- `splitn`: at most `n` parts, the last one with what is left. -/
def splitN (c : Char) : Nat → List Char → List (List Char)
  | 0, _ => []
  | 1, s => [s]
  | n + 2, s =>
    if s.contains c then before c s :: splitN c (n + 1) ((s.dropWhile (· != c)).drop 1) else [s]

def rsplitOnce (c : Char) (s : List Char) : Option (List Char × List Char) :=
  if s.contains c then some ((upToLast c s).dropLast, afterLast c s) else none

def splitOnce (c : Char) (s : List Char) : Option (List Char × List Char) :=
  if s.contains c then some (before c s, (s.dropWhile (· != c)).drop 1) else none

def stripStart (start s : List Char) : Option (List Char) :=
  if start.isPrefixOf s then some (s.drop start.length) else none

/-- A number in decimal, as `str::parse::<u64>` reads it: an optional plus sign,
at least one digit, and no value beyond 64 bits. -/
def parseU64 (s : List Char) : Option Nat :=
  let digits := if s.head? = some '+' then s.tail else s
  if digits.isEmpty || digits.any (fun c => !(decide (48 ≤ c.toNat) && decide (c.toNat ≤ 57))) then
    none
  else
    let value := digits.foldl (fun acc c => acc * 10 + (c.toNat - 48)) 0
    if value < 2 ^ 64 then some value else none

/-! ## Splitting what was joined -/

theorem before_append : before c (a ++ c :: b) = before c a := by
  induction a with
  | nil => simp [before]
  | cons x a ih =>
    simp only [before, cons_append, takeWhile_cons] at ih ⊢
    split
    · rw [ih]
    · rfl

theorem not_mem_before (c : Char) (s : List Char) : c ∉ before c s := fun h => by
  simpa using mem_takeWhile_imp h

theorem before_eq_self_iff : before c s = s ↔ c ∉ s := by
  refine ⟨fun h => h ▸ not_mem_before c s, fun h => ?_⟩
  refine List.takeWhile_eq_self_iff.mpr fun x hx => ?_
  simpa using fun heq : x = c => h (heq ▸ hx)

theorem drop_before (h : c ∉ a) (b : List Char) :
    ((a ++ c :: b).dropWhile (· != c)).drop 1 = b := by
  have hdrop : a.dropWhile (· != c) = [] := List.dropWhile_eq_nil_iff.mpr fun x hx => by
    simpa using fun heq : x = c => h (heq ▸ hx)
  rw [dropWhile_append, hdrop]
  simp

theorem splitOnce_append (h : c ∉ a) (b : List Char) : splitOnce c (a ++ c :: b) = some (a, b) := by
  rw [splitOnce, if_pos (by simp), before_append, before_eq_self_iff.mpr h, drop_before h]

/-- The first part of a text with a separator is what stands before it. -/
theorem splitN_append (c : Char) (n : Nat) (a b : List Char) :
    ∃ rest, splitN c (n + 2) (a ++ c :: b) = before c a :: rest ∧ (c ∉ a → rest = splitN c (n + 1) b) := by
  refine ⟨_, ?_, fun h => congrArg (splitN c (n + 1)) (drop_before h b)⟩
  rw [splitN, if_pos (by simp), before_append]

theorem rsplitOnce_append (h : c ∉ b) (a : List Char) :
    rsplitOnce c (a ++ c :: b) = some (a, b) := by
  have hb : ∀ x ∈ b.reverse, (x != c) = true := fun x hx => by
    simpa using fun heq : x = c => h (heq ▸ List.mem_reverse.mp hx)
  have hreverse : (a ++ c :: b).reverse = b.reverse ++ c :: a.reverse := by simp
  rw [rsplitOnce, if_pos (by simp), upToLast, afterLast, hreverse,
    dropWhile_append_of_pos hb, takeWhile_append_of_pos hb]
  simp

theorem afterLast_append (h : c ∉ b) (a : List Char) : afterLast c (a ++ c :: b) = b := by
  have hsplit := rsplitOnce_append h a
  rw [rsplitOnce, if_pos (by simp)] at hsplit
  exact (Prod.mk.inj (Option.some.inj hsplit)).2

theorem stripStart_append : stripStart a (a ++ b) = some b := by
  rw [stripStart, if_pos (List.isPrefixOf_iff_prefix.mpr (prefix_append a b)), drop_left]

/-! ## Trimming -/

theorem isWhitespace_of_isAlphanum (h : c.isAlphanum = true) : isWhitespace c = false := by
  have hranges : (decide (c.val ≥ 'A'.val ∧ c.val ≤ 'Z'.val) || c.val ≥ 'a'.val && c.val ≤ 'z'.val ||
      c.val ≥ '0'.val && c.val ≤ '9'.val) = true := h
  simp only [or_eq_true, and_eq_true, decide_eq_true_eq, ge_iff_le,
    UInt32.le_iff_toNat_le] at hranges
  have hnat : c.toNat = c.val.toNat := rfl
  simp only [isWhitespace, hnat, or_eq_false_iff, and_eq_false_iff,
    decide_eq_false_iff_not, beq_eq_false_iff_ne]
  have hvals : 'A'.val.toNat = 65 ∧ 'Z'.val.toNat = 90 ∧ 'a'.val.toNat = 97 ∧ 'z'.val.toNat = 122 ∧
      '0'.val.toNat = 48 ∧ '9'.val.toNat = 57 := by decide
  omega

theorem trim_eq_self (h : ∀ c ∈ s, isWhitespace c = false) : trim s = s := by
  have hdrop : ∀ l : List Char, (∀ c ∈ l, isWhitespace c = false) →
      l.dropWhile isWhitespace = l := by
    intro l hl
    cases l with
    | nil => rfl
    | cons c l => rw [dropWhile_cons, hl c mem_cons_self]; rfl
  rw [trim, hdrop s h, hdrop _ fun c hc => h c (List.mem_reverse.mp hc), reverse_reverse]

theorem trim_idem : trim (trim s) = trim s := by
  -- What is left starts as the text did once its front was trimmed.
  have hfront : (trim s).dropWhile isWhitespace = trim s := by
    rw [dropWhile_eq_self_iff]
    intro hpos hspace
    have hstart : trim s <+: s.dropWhile isWhitespace :=
      List.reverse_suffix.mp (by rw [trim, reverse_reverse]; exact dropWhile_suffix _)
    obtain ⟨rest, hrest⟩ := hstart
    have hhead : (s.dropWhile isWhitespace).head? = some (trim s)[0] := by
      rw [← hrest, head?_append_of_ne_nil _ (ne_nil_of_length_pos hpos),
        head?_eq_getElem?, getElem?_eq_getElem hpos]
    have hnot := head?_dropWhile_not isWhitespace s
    rw [hhead] at hnot
    simp [hspace] at hnot
  conv_lhs => rw [trim, hfront]
  rw [trim, reverse_reverse, dropWhile_idempotent]

/-! ## Lower case -/

theorem toNat_asciiLower :
    (asciiLower c).toNat = if 65 ≤ c.toNat ∧ c.toNat ≤ 90 then c.toNat + 32 else c.toNat := by
  have hrange : ('A' ≤ c ∧ c ≤ 'Z') ↔ (65 ≤ c.toNat ∧ c.toNat ≤ 90) := Iff.rfl
  simp only [asciiLower, hrange]
  split
  · rename_i h
    have hvalid : (c.toNat + 32).isValidChar := .inl (by omega)
    rw [Char.ofNat, dif_pos hvalid]
    rfl
  · rfl

theorem isWhitespace_asciiLower : isWhitespace (asciiLower c) = isWhitespace c := by
  rw [Bool.eq_iff_iff]
  simp only [isWhitespace, toNat_asciiLower, or_eq_true, and_eq_true, decide_eq_true_eq, beq_iff_eq]
  split <;> omega

theorem toAsciiLowercase_idem : toAsciiLowercase (toAsciiLowercase s) = toAsciiLowercase s := by
  rw [toAsciiLowercase, toAsciiLowercase, map_map]
  refine map_congr_left fun c _ => Char.toNat_inj.mp ?_
  rw [Function.comp_apply, toNat_asciiLower, toNat_asciiLower]
  by_cases h : 65 ≤ c.toNat ∧ c.toNat ≤ 90
  · rw [if_pos h, if_neg (by omega)]
  · rw [if_neg h, if_neg h]

/-- A character that is not a letter is left alone, and no letter becomes it. -/
theorem asciiLower_eq_iff (hd : d.toNat < 65 ∨ (90 < d.toNat ∧ d.toNat < 97)) :
    asciiLower c = d ↔ c = d := by
  rw [← Char.toNat_inj, ← Char.toNat_inj, toNat_asciiLower]
  split <;> omega

theorem trim_toAsciiLowercase (s : List Char) :
    trim (toAsciiLowercase s) = toAsciiLowercase (trim s) := by
  have hdrop : ∀ l : List Char,
      (l.map asciiLower).dropWhile isWhitespace = (l.dropWhile isWhitespace).map asciiLower := by
    intro l
    rw [dropWhile_map]
    congr 2
    funext c
    exact isWhitespace_asciiLower
  rw [trim, trim, toAsciiLowercase, hdrop, ← map_reverse, hdrop, ← map_reverse, toAsciiLowercase]

/-! ## Numbers in decimal -/

theorem isDigit_of_mem_toString {n : Nat} {c : Char} (h : c ∈ (toString n).toList) :
    c.isDigit = true := by
  rw [Nat.toString_eq_ofList_toDigits, String.toList_ofList] at h
  exact Nat.isDigit_of_mem_toDigits (by decide) (by decide) h

theorem not_mem_toString {c : Char} (h : c.isDigit = false) (n : Nat) : c ∉ (toString n).toList :=
  fun hc => by simp [isDigit_of_mem_toString hc] at h

theorem ofDigitChars_eq_foldl (l : List Char) (acc : Nat) :
    Nat.ofDigitChars 10 l acc = l.foldl (fun acc c => acc * 10 + (c.toNat - 48)) acc := by
  induction l generalizing acc with
  | nil => rfl
  | cons c l ih => rw [Nat.ofDigitChars_cons, ih, foldl_cons, Nat.mul_comm]; rfl

theorem toString_injective {m n : Nat} (h : toString m = toString n) : m = n := by
  have hdigits := congrArg String.toList h
  simp only [Nat.toString_eq_ofList_toDigits, String.toList_ofList] at hdigits
  have hvalue := congrArg (fun l => Nat.ofDigitChars 10 l 0) hdigits
  simpa only [Nat.ofDigitChars_ten_toDigits] using hvalue

/-- A number is read back from its decimal text. -/
theorem parseU64_toString {n : Nat} (h : n < 2 ^ 64) : parseU64 (toString n).toList = some n := by
  have hhead : (toString n).toList.head? ≠ some '+' := fun hplus =>
    not_mem_toString (by decide) n (mem_of_mem_head? hplus)
  have hne : (toString n).toList ≠ [] := by
    rw [Nat.toString_eq_ofList_toDigits, String.toList_ofList]
    exact Nat.toDigits_ne_nil
  have hdigits : (toString n).toList.any
      (fun c => !(decide (48 ≤ c.toNat) && decide (c.toNat ≤ 57))) = false := by
    refine any_eq_false.mpr fun c hc => ?_
    have hdigit := isDigit_of_mem_toString hc
    simp only [Char.isDigit, ge_iff_le, and_eq_true, decide_eq_true_eq] at hdigit
    have hlow : 48 ≤ c.toNat := hdigit.1
    have hhigh : c.toNat ≤ 57 := hdigit.2
    simp [hlow, hhigh]
  have hvalue : (toString n).toList.foldl (fun acc c => acc * 10 + (c.toNat - 48)) 0 = n := by
    rw [← ofDigitChars_eq_foldl, Nat.toString_eq_ofList_toDigits, String.toList_ofList,
      Nat.ofDigitChars_ten_toDigits]
  simp only [parseU64, if_neg hhead, hdigits, hvalue, if_pos h, Bool.or_false, List.isEmpty_iff,
    if_neg hne]

end Text
