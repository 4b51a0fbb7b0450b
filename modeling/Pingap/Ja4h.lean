import Mathlib.Data.String.Basic
import Pingap.StableSort
import Pingap.Text

/-!
# The client fingerprint

The fingerprint of a request head, and the shape a configured fingerprint is checked
for. The digest is a parameter that yields any 32 bytes; everything after it, the
truncation, the padding and the hexadecimal form, is computed.
-/

namespace Ja4h
open List hiding head length min
open Text

/-! ## The computation -/

structure RequestHead where
  method : String
  versionDigits : String
  headerNames : List String
  cookie : Option String := none
  acceptLanguage : Option String := none
deriving DecidableEq, Repr

abbrev Digest := { bytes : List UInt8 // bytes.length = 32 }

section compute

variable (sha256 : String → Digest)

/-- `sha_encode`: the first twelve digits of the digest of the values. -/
def shaEncode (values : List String) : List Char :=
  hexEncode ((sha256 (",".intercalate values)).val.take 6)

/-- Cookies and the referer are told elsewhere; pseudo-headers are no headers. -/
def isExcluded (name : String) : Bool :=
  name.toList.head? == some ':' ||
    ("cookie".toList.isPrefixOf (toAsciiLowercase name.toList) ||
      toAsciiLowercase name.toList == "referer".toList)

def byteLength (s : List Char) : Nat := (s.map Char.utf8Size).sum

/-- What stands before the first comma of the value in lower case, without hyphens and with
semicolons as commas. -/
def firstLanguage (value : String) : List Char :=
  before ',' (toAsciiLowercase
    ((value.toList.filter (· != '-')).map fun c => if c = ';' then ',' else c))

/-- `language`: four characters, filled up with zeros to four bytes. -/
def language (value : String) : List Char :=
  let out := (firstLanguage value).take 4
  out ++ List.replicate (4 - byteLength out) '0'

/-- The name and the whole of every cookie, in the order sent. -/
def cookiePairs (header : String) : List (String × String) :=
  (((header.toList.splitOn ';').map trim).filter fun part => !part.isEmpty).map fun part =>
    let name := ((splitOnce '=' part).map Prod.fst).getD part
    (String.ofList (trim name), String.ofList part)

def twoDigits (n : Nat) : List Char := [Char.ofNat (48 + n / 10), Char.ofNat (48 + n % 10)]

def counted (head : RequestHead) : List String := head.headerNames.filter fun n => !isExcluded n

def pairs (head : RequestHead) : List (String × String) :=
  (head.cookie.map cookiePairs).getD []

def spoken (head : RequestHead) : List Char :=
  (head.acceptLanguage.map language).getD "0000".toList

def component (head : RequestHead) : List Char :=
  (toAsciiLowercase head.method.toList).take 2 ++ head.versionDigits.toList ++
    [if (pairs head).isEmpty then 'n' else 'c',
      if head.headerNames.any fun n => eqIgnoreAsciiCase n "referer" then 'r' else 'n'] ++
    twoDigits (min (counted head).length 99) ++ spoken head

/-- The hashes of the header names, of the names of the cookies and of the cookies. -/
def hashes (head : RequestHead) : List (List Char) :=
  if (pairs head).isEmpty then
    [shaEncode sha256 (counted head), List.replicate 12 '0', List.replicate 12 '0']
  else
    let sorted := StableSort.sortByKey Prod.fst (pairs head)
    [shaEncode sha256 (counted head), shaEncode sha256 (sorted.map Prod.fst),
      shaEncode sha256 (sorted.map Prod.snd)]

/-- A component followed by hashes. -/
def joined (a : List Char) (hs : List (List Char)) : List Char := a ++ hs.flatMap ('_' :: ·)

def ja4h (head : RequestHead) : String :=
  String.ofList (joined (component head) (hashes sha256 head))

end compute

/-! ## The shape of a configured value -/

def isHexDigit (c : Char) : Bool :=
  c.isDigit || ('a' ≤ c && c ≤ 'f') || ('A' ≤ c && c ≤ 'F')

/-- The checks on the readable component. -/
def shaped : List Char → Bool
  | [m, m', v, v', c, r, n, n', l, l', l'', l'''] =>
    m.isLower && m'.isLower && v.isDigit && v'.isDigit && (c == 'c' || c == 'n') &&
      (r == 'r' || r == 'n') && n.isDigit && n'.isDigit &&
      [l, l', l'', l'''].all Char.isAlphanum
  | _ => false

def hashLike (h : List Char) : Bool := byteLength h == 12 && h.all isHexDigit

def looksLikeJa4h (value : String) : Bool :=
  match splitOnce '_' value.toList with
  | none => false
  | some (head, rest) =>
    shaped head && decide (1 ≤ (rest.splitOn '_').length ∧ (rest.splitOn '_').length ≤ 3) &&
      (rest.splitOn '_').all hashLike

/-! ## Characters -/

/-- A digit as the digests are written. -/
def isLowerHex (c : Char) : Bool := c.isDigit || ('a' ≤ c && c ≤ 'f')

section characters

variable {c : Char}

theorem isDigit_iff : c.isDigit = true ↔ 48 ≤ c.toNat ∧ c.toNat ≤ 57 := Char.isDigit_iff_toNat

theorem isLowerHex_iff : isLowerHex c = true ↔
    48 ≤ c.toNat ∧ c.toNat ≤ 57 ∨ 97 ≤ c.toNat ∧ c.toNat ≤ 102 := by
  have hrange : ('a' ≤ c ∧ c ≤ 'f') ↔ (97 ≤ c.toNat ∧ c.toNat ≤ 102) := Iff.rfl
  simp only [isLowerHex, Bool.or_eq_true, Bool.and_eq_true, decide_eq_true_eq, hrange, isDigit_iff]

theorem isHexDigit_iff : isHexDigit c = true ↔
    isLowerHex c = true ∨ 65 ≤ c.toNat ∧ c.toNat ≤ 70 := by
  have hrange : ('A' ≤ c ∧ c ≤ 'F') ↔ (65 ≤ c.toNat ∧ c.toNat ≤ 70) := Iff.rfl
  simp only [isHexDigit, isLowerHex, Bool.or_eq_true, Bool.and_eq_true, decide_eq_true_eq, hrange]

theorem utf8Size_of_lt (h : c.toNat < 128) : c.utf8Size = 1 :=
  Char.utf8Size_eq_one_iff.mpr (UInt32.le_iff_toNat_le.mpr (Nat.le_of_lt_succ h))

end characters

/-- A text of single bytes has as many bytes as characters. -/
theorem byteLength_eq_length (h : ∀ c ∈ s, c.toNat < 128) : byteLength s = s.length := by
  induction s with
  | nil => rfl
  | cons c s ih =>
    have hrest := ih fun d hd => h d (mem_cons_of_mem _ hd)
    unfold byteLength at hrest ⊢
    rw [map_cons, sum_cons, hrest, utf8Size_of_lt (h c mem_cons_self), length_cons, Nat.add_comm]

/-! ## Hashes -/

/-- Twelve digits as the digests are written. -/
structure IsHash (h : List Char) : Prop where
  length : h.length = 12
  digits : ∀ c ∈ h, isLowerHex c = true

theorem length_hexEncode (bytes : List UInt8) :
    (hexEncode bytes).length = 2 * bytes.length := by
  induction bytes with
  | nil => rfl
  | cons b bytes ih =>
    have hcons : hexEncode (b :: bytes) =
        hexDigit (b.toNat / 16) :: hexDigit (b.toNat % 16) :: hexEncode bytes := rfl
    rw [hcons, length_cons, length_cons, ih, length_cons]
    omega

section hash

variable (sha256 : String → Digest)

end hash

theorem IsHash.hashLike (hh : IsHash h) : hashLike h = true := by
  have hascii : ∀ c ∈ h, c.toNat < 128 := fun c hc => by
    have := isLowerHex_iff.mp (hh.digits c hc)
    omega
  rw [Ja4h.hashLike, byteLength_eq_length hascii, hh.length]
  simp only [beq_self_eq_true, Bool.true_and, all_eq_true]
  exact fun c hc => isHexDigit_iff.mpr (.inl (hh.digits c hc))

/-! ## The readable component -/

theorem length_le_byteLength (s : List Char) : s.length ≤ byteLength s := by
  induction s with
  | nil => exact Nat.le_refl 0
  | cons c s ih =>
    unfold byteLength at ih ⊢
    rw [map_cons, sum_cons, length_cons]
    have hpos : 0 < c.utf8Size := c.utf8Size_pos
    omega

theorem length_language_le : (language value).length ≤ 4 := by
  have hbytes := length_le_byteLength ((firstLanguage value).take 4)
  have htake : ((firstLanguage value).take 4).length ≤ 4 := length_take_le _ _
  rw [language, length_append, length_replicate]
  omega

/-- The head of a request of a version whose order of headers is known. -/
def Http1 (head : RequestHead) : Prop :=
  head.versionDigits = "10" ∨ head.versionDigits = "11"

def flags (head : RequestHead) : List Char :=
  [if (pairs head).isEmpty then 'n' else 'c',
    if head.headerNames.any fun n => eqIgnoreAsciiCase n "referer" then 'r' else 'n']

theorem component_eq :
    component head = toAsciiLowercase (head.method.toList.take 2) ++
      head.versionDigits.toList ++ flags head ++ twoDigits (min (counted head).length 99) ++
      spoken head := by
  rw [component, toAsciiLowercase, toAsciiLowercase, map_take]
  rfl

theorem length_spoken_le (head : RequestHead) : (spoken head).length ≤ 4 := by
  unfold spoken
  cases head.acceptLanguage with
  | none => decide
  | some value => exact length_language_le

section http1

variable {head : RequestHead}

theorem Http1.digits (h : Http1 head) : ∃ v : Char, head.versionDigits.toList = ['1', v] ∧
    (v = '0' ∨ v = '1') := by
  rcases h with h | h
  · exact ⟨'0', by rw [h]; rfl, .inl rfl⟩
  · exact ⟨'1', by rw [h]; rfl, .inr rfl⟩

theorem Http1.length_component (h : Http1 head) :
    (component head).length = (head.method.toList.take 2).length + 6 + (spoken head).length := by
  obtain ⟨v, hv, -⟩ := h.digits
  rw [component_eq, hv]
  simp only [length_append, toAsciiLowercase, length_map, flags, twoDigits,
    length_cons, length_nil]

/-- A component of full length shows two characters of the method and four of the language. -/
theorem Http1.full (h : Http1 head) (hlength : (component head).length = 12) :
    ∃ m m' v l l' l'' l''', head.method.toList.take 2 = [m, m'] ∧ (v = '0' ∨ v = '1') ∧
      spoken head = [l, l', l'', l'''] ∧
      component head = [asciiLower m, asciiLower m', '1', v] ++ flags head ++
        twoDigits (min (counted head).length 99) ++ [l, l', l'', l'''] := by
  have hmethod : (head.method.toList.take 2).length ≤ 2 := length_take_le _ _
  have hspoken := length_spoken_le head
  rw [h.length_component] at hlength
  obtain ⟨m, m', hm⟩ := List.length_eq_two.mp (show (head.method.toList.take 2).length = 2 by omega)
  obtain ⟨v, hv, hdigit⟩ := h.digits
  have hfour : (spoken head).length = 4 := by omega
  match hs : spoken head, hfour with
  | [l, l', l'', l'''], _ =>
    refine ⟨m, m', v, l, l', l'', l''', hm, hdigit, rfl, ?_⟩
    rw [component_eq, hm, hv, hs]
    rfl

end http1

/-! ## What a configured value can match -/

theorem count_eq_zero (h : twoDigits n = ['0', '0']) (hlt : n < 100) : n = 0 := by
  have hall : ∀ m : Fin 100, twoDigits m = ['0', '0'] → m.val = 0 := by decide
  exact hall ⟨n, hlt⟩ h

section headOf

variable {m m' v c r n n' : Char} {l : List Char}

end headOf

end Ja4h
