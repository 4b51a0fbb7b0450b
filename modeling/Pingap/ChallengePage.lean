import Pingap.ChallengeVerify

/-!
# The challenge pages and their scripts

What an issued challenge answers with, and what the script on the page makes the
browser send back. A page is the values of its form and the script that reads them; the
browser is its encoding of forms and of cookie values.
-/

namespace ChallengePage

open MachineArith ChallengeToken ChallengeVerify List Text
open Utf8 (Bytes)

/-! ## What a browser encodes -/

def upperHexDigit (n : Nat) : Char := Char.ofNat (if n < 10 then 48 + n else 55 + n)

def percentByte (b : UInt8) : List Char :=
  ['%', upperHexDigit (b.toNat / 16), upperHexDigit (b.toNat % 16)]

/-- A character in percent-encoding, byte by byte. -/
def percentChar (c : Char) : List Char := (String.utf8EncodeChar c).flatMap percentByte

/-- A character as it is, when it is a letter, a digit or one to keep. -/
def encodeChar (kept : List Char) (c : Char) : List Char :=
  if c.isAlphanum || kept.contains c then [c] else percentChar c

/-- The value of a form field in a query. -/
def formEncode (value : String) : List Char :=
  value.toList.flatMap fun c => if c = ' ' then ['+'] else encodeChar "*-._".toList c

def encodeURIComponent (text : String) : List Char :=
  text.toList.flatMap (encodeChar "-_.!~*'()".toList)

/-- The bytes of a text in percent-encoding. A percent sign without two digits stays. -/
def percentBytes : List Char → Bytes
  | [] => []
  | '%' :: a :: b :: rest =>
    match Text.hexValue a, Text.hexValue b with
    | some high, some low => UInt8.ofNat (16 * high + low) :: percentBytes rest
    | _, _ => String.utf8EncodeChar '%' ++ percentBytes (a :: b :: rest)
  | c :: rest => String.utf8EncodeChar c ++ percentBytes rest

def percentDecode (text : String) : Option String := Utf8.fromUtf8 (percentBytes text.toList)

/-! ## Pages -/

inductive Script where
  | powSolver
  | silent
deriving DecidableEq, Repr

/-- A page: the inputs of its form, where the form goes, and the script. -/
structure Page where
  token : String
  salt : String
  difficulty : Nat
  action : String
  target : String
  script : Script
deriving DecidableEq, Repr

def pow (token salt : String) (difficulty : Nat) (action target : String) : Page :=
  ⟨token, salt, difficulty, action, target, .powSolver⟩

def silent (token action target : String) : Page := ⟨token, "", 0, action, target, .silent⟩

def Page.fields (p : Page) (nonce : String) : List (String × String) :=
  [("challenge_token", p.token), ("challenge_salt", p.salt),
    ("challenge_difficulty", toString p.difficulty), ("return", p.target), ("nonce", nonce)]

def Page.query (p : Page) (nonce : String) : String :=
  String.ofList (['&'].intercalate ((p.fields nonce).map fun f =>
    f.1.toList ++ '=' :: formEncode f.2))

/-! ## Scripts -/

section scripts

variable (sha256 : Bytes → Bytes)

/-- `meets`: a missing byte counts as zero in the masked comparison only. -/
def meets (difficulty : Nat) (bytes : Bytes) : Bool :=
  let full := difficulty / 8
  let rem := difficulty % 8
  (List.range full).all (fun i => bytes[i]? == some 0) &&
    (rem == 0 || ((bytes[full]?).getD 0).toNat &&& (0xff <<< (8 - rem)) == 0)

/-- The largest number the script counts to one by one. -/
def maxSafe : Nat := 2 ^ 53

/-- The search of the solver, from a number on. -/
def search (salt : String) (difficulty : Nat) : Nat → Nat → Option Nat
  | 0, _ => none
  | fuel + 1, nonce =>
    if meets difficulty (sha256 (utf8 (salt ++ toString nonce))) then some nonce
    else search salt difficulty fuel (min (nonce + 1) maxSafe)

/-- The solver: the number it puts into the form, once it has run long enough. -/
def solve (fuel : Nat) (p : Page) : Option Nat :=
  if p.salt = "" ∨ p.token = "" ∨ p.difficulty = 0 then none
  else search sha256 p.salt p.difficulty fuel 0

/-- The cookie the silent script sets, for what it sees of the browser. -/
def fingerprintHeader (p : Page) (fingerprint : String) : String :=
  String.ofList ("pingap_challenge_fp=".toList ++ encodeURIComponent (p.token ++ "|" ++ fingerprint))

/-- The request is what the page's script makes the client send: the number the solver
found, or the fingerprint in the cookie and an empty number. -/
inductive Submits (p : Page) (domain identity : String) : VerifyRequest → Prop where
  | pow (fuel nonce : Nat) (cookie : Option String) : p.script = .powSolver →
      solve sha256 fuel p = some nonce →
      Submits p domain identity ⟨domain, identity, p.query (toString nonce), cookie⟩
  | silent (fingerprint : String) : p.script = .silent →
      Submits p domain identity ⟨domain, identity, p.query "", some (fingerprintHeader p fingerprint)⟩

end scripts

/-! ## What the server reads back -/

theorem isAlphanum_upperHexDigit (h : n < 16) : (upperHexDigit n).isAlphanum = true := by
  have hall : ∀ m : Fin 16, (upperHexDigit m).isAlphanum = true := by decide
  exact hall ⟨n, h⟩

theorem mem_encodeChar (h : x ∈ encodeChar kept c) : x.isAlphanum = true ∨ x ∈ '%' :: kept := by
  simp only [encodeChar] at h
  split at h
  case isTrue hkept =>
    rw [mem_singleton.mp h]
    rcases Bool.or_eq_true_iff.mp hkept with halnum | hin
    · exact .inl halnum
    · exact .inr (mem_cons_of_mem _ (contains_iff_mem.mp hin))
  case isFalse =>
    obtain ⟨b, -, hb⟩ := mem_flatMap.mp h
    have hlt : b.toNat < 256 := b.toNat_lt
    simp only [percentByte, mem_cons, not_mem_nil, or_false] at hb
    rcases hb with rfl | rfl | rfl
    · exact .inr mem_cons_self
    · exact .inl (isAlphanum_upperHexDigit (by omega))
    · exact .inl (isAlphanum_upperHexDigit (by omega))

theorem mem_formEncode (h : x ∈ formEncode value) : x.isAlphanum = true ∨ x ∈ "+%*-._".toList := by
  obtain ⟨c, -, hc⟩ := mem_flatMap.mp h
  split at hc
  · rw [mem_singleton.mp hc]
    exact .inr mem_cons_self
  · exact (mem_encodeChar hc).imp id (mem_cons_of_mem '+')

theorem mem_encodeURIComponent (h : x ∈ encodeURIComponent text) :
    x.isAlphanum = true ∨ x ∈ "%-_.!~*'()".toList := by
  obtain ⟨c, -, hc⟩ := mem_flatMap.mp h
  exact mem_encodeChar hc

theorem hexValue_upperHexDigit (h : n < 16) : hexValue (upperHexDigit n) = some n := by
  have hall : ∀ m : Fin 16, hexValue (upperHexDigit m) = some m.val := by decide
  exact hall ⟨n, h⟩

theorem percentBytes_percentByte {bytes : Bytes} :
    percentBytes (bytes.flatMap percentByte ++ rest) = bytes ++ percentBytes rest := by
  induction bytes with
  | nil => rfl
  | cons b bytes ih =>
    have hlt : b.toNat < 256 := b.toNat_lt
    have hbyte : 16 * (b.toNat / 16) + b.toNat % 16 = b.toNat := by omega
    have hcons : (b :: bytes).flatMap percentByte ++ rest = '%' :: upperHexDigit (b.toNat / 16) ::
        upperHexDigit (b.toNat % 16) :: (bytes.flatMap percentByte ++ rest) := rfl
    rw [hcons, percentBytes, hexValue_upperHexDigit (by omega), hexValue_upperHexDigit (by omega)]
    simp only [ih, hbyte, UInt8.ofNat_toNat, cons_append]

theorem percentBytes_encodeChar (hkept : '%' ∉ kept) (c : Char) (rest : List Char) :
    percentBytes (encodeChar kept c ++ rest) = String.utf8EncodeChar c ++ percentBytes rest := by
  rw [encodeChar]
  split
  case isTrue hsafe =>
    have hne : c ≠ '%' := by
      rintro rfl
      rcases Bool.or_eq_true_iff.mp hsafe with halnum | hin
      · exact absurd halnum (by decide)
      · exact hkept (contains_iff_mem.mp hin)
    rw [singleton_append, percentBytes]
    exact fun a b rest heq => absurd heq hne
  case isFalse => exact percentBytes_percentByte

theorem percentDecode_encodeURIComponent (text : String) :
    percentDecode (String.ofList (encodeURIComponent text)) = some text := by
  have hbytes : ∀ l : List Char, percentBytes (l.flatMap (encodeChar "-_.!~*'()".toList)) =
      l.flatMap String.utf8EncodeChar := by
    intro l
    induction l with
    | nil => rfl
    | cons c l ih => rw [flatMap_cons, percentBytes_encodeChar (by decide), ih, flatMap_cons]
  rw [percentDecode, String.toList_ofList, encodeURIComponent, hbytes, ← utf8_eq, fromUtf8_utf8]

/-- The text has only characters a form value keeps. -/
def Plain (text : String) : Prop :=
  ∀ c ∈ text.toList, (c.isAlphanum || "*-._".toList.contains c) = true

theorem formEncode_plain (h : Plain text) : formEncode text = text.toList := by
  have hkept : ∀ c ∈ text.toList,
      (if c = ' ' then ['+'] else encodeChar "*-._".toList c) = [c] := by
    intro c hc
    have hsafe := h c hc
    have hspace : c ≠ ' ' := fun heq => by
      rw [heq] at hsafe
      exact absurd hsafe (by decide)
    rw [encodeChar, if_neg hspace, if_pos hsafe]
  rw [formEncode, flatMap_congr hkept]
  simp

theorem plain_toString (n : Nat) : Plain (toString n) := fun c hc => by
  simp [Char.isAlphanum, isDigit_of_mem_toString hc]

theorem splitOnce_field (name : String) (h : '=' ∉ name.toList) (value : List Char) :
    splitOnce '=' (name.toList ++ '=' :: value) = some (name.toList, value) :=
  splitOnce_append h value

theorem readQuery_query {p : Page} (htoken : Plain p.token) (nonce : String)
    (hnonce : Plain nonce) : readQuery (p.query nonce) = (some p.token, parseU64 nonce.toList) := by
  have hvalue : ∀ value, '&' ∉ formEncode value := fun value h => by
    rcases mem_formEncode h with h | h <;> exact absurd h (by decide)
  have hsplit : (p.query nonce).toList.splitOn '&' =
      (p.fields nonce).map fun f => f.1.toList ++ '=' :: formEncode f.2 := by
    rw [Page.query, String.toList_ofList, splitOn_intercalate]
    · intro field hfield
      obtain ⟨f, hf, rfl⟩ := mem_map.mp hfield
      have hname : '&' ∉ f.1.toList := by
        simp only [Page.fields, mem_cons, not_mem_nil, or_false] at hf
        rcases hf with rfl | rfl | rfl | rfl | rfl <;> dsimp only <;> decide
      simp [hname, hvalue f.2]
    · simp [Page.fields]
  rw [readQuery, hsplit]
  simp only [Page.fields, map_cons, map_nil, foldl_cons, foldl_nil,
    splitOnce_field "challenge_token" (by decide), splitOnce_field "challenge_salt" (by decide),
    splitOnce_field "challenge_difficulty" (by decide), splitOnce_field "return" (by decide),
    splitOnce_field "nonce" (by decide)]
  simp only [formEncode_plain htoken, formEncode_plain hnonce, String.toList_inj, String.reduceEq,
    if_true, if_false, String.ofList_toList]

theorem fingerprint_name :
    "pingap_challenge_fp=".toList = "pingap_challenge_fp".toList ++ ['='] := by decide +kernel

theorem toList_fingerprintHeader (p : Page) (fingerprint : String) :
    (fingerprintHeader p fingerprint).toList = "pingap_challenge_fp".toList ++ ['='] ++
      encodeURIComponent (p.token ++ "|" ++ fingerprint) := by
  rw [← fingerprint_name]
  exact String.toList_ofList

/-- The server finds the cookie of the silent script. -/
theorem namedCookie_fingerprintHeader (p : Page) (fingerprint : String) :
    namedCookie (some (fingerprintHeader p fingerprint)) "pingap_challenge_fp" =
      some (String.ofList (encodeURIComponent (p.token ++ "|" ++ fingerprint))) := by
  generalize hvalue : encodeURIComponent (p.token ++ "|" ++ fingerprint) = value
  have hheader := toList_fingerprintHeader p fingerprint
  rw [hvalue] at hheader
  have hwhite : ∀ c ∈ ("pingap_challenge_fp".toList ++ ['=']) ++ value,
      isWhitespace c = false ∧ c ≠ ';' := by
    intro c hc
    rcases mem_append.mp hc with hname | hin
    · have hall : (("pingap_challenge_fp".toList ++ ['=']).all
          fun c => !Text.isWhitespace c && c != ';') = true := by decide +kernel
      simpa using all_eq_true.mp hall c hname
    rcases mem_encodeURIComponent (hvalue ▸ hin) with halnum | hfew
    · refine ⟨isWhitespace_of_isAlphanum halnum, fun heq => ?_⟩
      rw [heq] at halnum
      exact absurd halnum (by decide)
    · have hall : ("%-_.!~*'()".toList.all fun c => !Text.isWhitespace c && c != ';') = true := by
        decide
      simpa using all_eq_true.mp hall c hfew
  have hsplit : (fingerprintHeader p fingerprint).toList.splitOn ';' =
      [("pingap_challenge_fp".toList ++ ['=']) ++ value] := by
    rw [hheader, splitOn_eq_singleton fun h => (hwhite _ h).2 rfl]
  rw [namedCookie, Option.bind_some, hsplit]
  simp only [findSome?_cons, trim_eq_self fun c hc => (hwhite c hc).1,
    stripStart_append, Option.map_some]

/-! ## The solver finds what the server accepts -/

section solver

variable (sha256 : Bytes → Bytes)

/-- Masking the lead bits of a byte and shifting them out are the same test. -/
theorem mask_eq_shift (hbyte : byte < 256) (hrem : rem < 8) :
    (byte &&& (0xff <<< (8 - rem)) == 0) = (byte / 2 ^ (8 - rem) == 0) := by
  have hall : ∀ b : Fin 256, ∀ r : Fin 8,
      (b.val &&& (0xff <<< (8 - r.val)) == 0) = (b.val / 2 ^ (8 - r.val) == 0) := by
    decide +kernel
  exact hall ⟨byte, hbyte⟩ ⟨rem, hrem⟩

theorem all_range_eq_take (bytes : Bytes) (h : n ≤ bytes.length) :
    (range n).all (fun i => bytes[i]? == some 0) = (bytes.take n).all (· == 0) := by
  rw [Bool.eq_iff_iff, all_eq_true, all_eq_true]
  constructor
  · intro hall b hb
    obtain ⟨i, hi, rfl⟩ := List.mem_take_iff_getElem.mp hb
    have hzero := hall i (mem_range.mpr (by omega))
    simpa [getElem?_eq_getElem (show i < bytes.length by omega)] using hzero
  · intro hall i hi
    have hlt := mem_range.mp hi
    have hin : bytes[i] ∈ bytes.take n := List.mem_take_iff_getElem.mpr ⟨i, by omega, rfl⟩
    have hzero := hall _ hin
    simpa [getElem?_eq_getElem (show i < bytes.length by omega)] using hzero

/-- The test of the script is the test of the server. -/
theorem meets_eq_powSolved (h : difficulty < 256)
    (hdigest : (sha256 (utf8 (salt ++ toString nonce))).length = 32) :
    meets difficulty (sha256 (utf8 (salt ++ toString nonce))) =
      powSolved sha256 salt nonce difficulty := by
  simp only [meets, powSolved, ← utf8_append]
  generalize sha256 (utf8 (salt ++ toString nonce)) = digest at hdigest
  have hget : digest[difficulty / 8]? = some digest[difficulty / 8] :=
    getElem?_eq_getElem (by omega)
  rw [all_range_eq_take digest (by omega), hget]
  simp only [Option.getD_some, Option.any_some]
  rw [mask_eq_shift (UInt8.toNat_lt _) (by omega)]

theorem search_sound (hstart : start ≤ maxSafe)
    (h : search sha256 salt difficulty fuel start = some nonce) :
    nonce ≤ maxSafe ∧ meets difficulty (sha256 (utf8 (salt ++ toString nonce))) = true := by
  induction fuel generalizing start with
  | zero => cases h
  | succ fuel ih =>
    rw [search] at h
    split at h
    case isTrue hmeets =>
      cases h
      exact ⟨hstart, hmeets⟩
    case isFalse => exact ih (Nat.min_le_right _ _) h

/-- The search ends at a number that meets the test, if there is one it can count to. -/
theorem search_complete (salt : String) (gap start : Nat) (hbound : start + gap ≤ maxSafe)
    (h : meets difficulty (sha256 (utf8 (salt ++ toString (start + gap)))) = true) :
    ∃ fuel nonce, search sha256 salt difficulty fuel start = some nonce := by
  induction gap generalizing start with
  | zero => exact ⟨1, start, if_pos h⟩
  | succ gap ih =>
    by_cases hhere : meets difficulty (sha256 (utf8 (salt ++ toString start))) = true
    · exact ⟨1, start, if_pos hhere⟩
    have hnext : min (start + 1) maxSafe = start + 1 := Nat.min_eq_left (by omega)
    have hshift : start + 1 + gap = start + (gap + 1) := by omega
    obtain ⟨fuel, nonce, hfound⟩ := ih (start + 1) (by omega) (by rw [hshift]; exact h)
    refine ⟨fuel + 1, nonce, ?_⟩
    rw [search, if_neg hhere, hnext, hfound]

end solver

end ChallengePage
