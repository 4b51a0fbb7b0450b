import Pingap.KeyedMap
import Pingap.MachineArith
import Pingap.Text
import Pingap.Utf8

/-!
# Challenge tokens

The store of the challenges that wait for an answer, and the two kinds of tokens: an
id the store knows a record under, and a signed text that carries its record with it.
The hash and the message authentication code are given by the functions of their
libraries. Times are nanoseconds since the epoch.
-/

namespace ChallengeToken

open MachineArith AList List Option Text
open Utf8 (Bytes)

abbrev Time := Nat

structure ChallengeRecord where
  domain : String
  identity : String
  salt : String
  difficulty : Nat
  target : String
  kind : String
  attempts : Nat
  expiresAt : Time
deriving DecidableEq, Repr

inductive TokenError where
  | fullDomains
  | fullEntries
deriving DecidableEq, Repr

/-! ## The store -/

structure TokenStore where
  inner : KeyedMap String ChallengeRecord
  domains : List String
  expired : Nat
  expiredByDomain : KeyedMap String Nat
  maxDomains : Nat
  maxEntries : Nat

namespace TokenStore

def withLimits (maxDomains maxEntries : Nat) : TokenStore :=
  ⟨∅, [], 0, ∅, max maxDomains 1, max maxEntries 1⟩

def countExpired (s : TokenStore) (domain : String) (count : Nat) : TokenStore :=
  { s with
    expired := s.expired + count
    expiredByDomain := s.expiredByDomain.insert domain
      ((s.expiredByDomain.lookup domain).getD 0 + count) }

def holdsDomain (s : TokenStore) (domain : String) : Bool :=
  s.inner.entries.any fun e => e.2.domain == domain

/-- Drop the records that have expired, and count them. -/
def sweepExpired (s : TokenStore) (now : Time) : TokenStore :=
  let dropped := s.inner.entries.filter fun e => decide (e.2.expiresAt ≤ now)
  dropped.foldl (fun s e => s.countExpired e.2.domain 1)
    { s with inner := s.inner.retain fun _ r => if now < r.expiresAt then some r else none }

def issue (s : TokenStore) (token : String) (record : ChallengeRecord) (now : Time) :
    Except TokenError Unit × TokenStore :=
  let s := s.sweepExpired now
  let s := { s with domains := s.domains.filter s.holdsDomain }
  if !s.domains.contains record.domain && decide (s.maxDomains ≤ s.domains.length) then
    (.error .fullDomains, s)
  else if (s.inner.lookup token).isNone && decide (s.maxEntries ≤ s.inner.size) then
    (.error .fullEntries, s)
  else
    (.ok (), { s with
      domains := if s.domains.contains record.domain then s.domains
        else s.domains ++ [record.domain]
      inner := s.inner.insert token record })

def entriesFull (s : TokenStore) (token : String) (now : Time) : Bool :=
  ((s.sweepExpired now).inner.lookup token).isNone &&
    decide ((s.sweepExpired now).maxEntries ≤ (s.sweepExpired now).inner.size)

/-- The record is of the client and has not expired. -/
def belongs (domain identity : String) (now : Time) (r : ChallengeRecord) : Bool :=
  decide (now < r.expiresAt) && r.domain == domain && r.identity == identity

def get (s : TokenStore) (token domain identity : String) (now : Time) :
    Option ChallengeRecord :=
  (s.inner.lookup token).filter (belongs domain identity now)

def remove (s : TokenStore) (token : String) : Option ChallengeRecord × TokenStore :=
  match s.inner.lookup token with
  | none => (none, s)
  | some record =>
    let s := { s with inner := s.inner.erase token }
    (some record, if s.holdsDomain record.domain then s
      else { s with domains := s.domains.filter (· != record.domain) })

def take (s : TokenStore) (token domain identity : String) (now : Time) :
    Option ChallengeRecord × TokenStore :=
  match s.inner.lookup token with
  | none => (none, s)
  | some record =>
    if belongs domain identity now record then s.remove token
    else if record.expiresAt ≤ now then
      (none, { s with inner := s.inner.erase token }.countExpired record.domain 1)
    else (none, s)

def incrementAttempts (s : TokenStore) (token : String) : Option Nat × TokenStore :=
  match s.inner.lookup token with
  | none => (none, s)
  | some record =>
    (some (satAdd32 record.attempts 1), { s with
      inner := s.inner.modify token fun r => { r with attempts := satAdd32 r.attempts 1 } })

/-! ### What the operations do to a record -/

/-- The same challenge, whatever the number of attempts. -/
def SameTerms (r r' : ChallengeRecord) : Prop :=
  r'.domain = r.domain ∧ r'.identity = r.identity ∧ r'.expiresAt = r.expiresAt

theorem SameTerms.refl (r : ChallengeRecord) : SameTerms r r := ⟨rfl, rfl, rfl⟩

/-- Every record of the second store was in the first. -/
def Shrinks (s s' : TokenStore) : Prop :=
  ∀ t r', s'.inner.lookup t = some r' → ∃ r, s.inner.lookup t = some r ∧ SameTerms r r'

theorem Shrinks.refl (s : TokenStore) : Shrinks s s := fun _ r h => ⟨r, h, SameTerms.refl r⟩

/-- A store with fewer records has no new one. -/
theorem shrinks_of_lookup (h : ∀ t r, s'.inner.lookup t = some r → s.inner.lookup t = some r) :
    Shrinks s s' :=
  fun t r hr => ⟨r, h t r hr, SameTerms.refl r⟩

theorem inner_foldl_countExpired {l : List (Σ _ : String, ChallengeRecord)} (s : TokenStore) :
    (l.foldl (fun s e => s.countExpired e.2.domain 1) s).inner = s.inner := by
  induction l generalizing s with
  | nil => rfl
  | cons e l ih => exact ih _

theorem lookup_sweepExpired_iff {s : TokenStore} :
    (s.sweepExpired now).inner.lookup t = some r ↔
      s.inner.lookup t = some r ∧ now < r.expiresAt := by
  rw [sweepExpired, inner_foldl_countExpired]
  exact lookup_retain_if

/-- After an issue the store holds the new record, when it was taken, and old ones. -/
theorem lookup_issue {s : TokenStore} (h : (s.issue token record now).2.inner.lookup t = some r) :
    ((s.issue token record now).1 = .ok () ∧ t = token ∧ r = record) ∨
      (((s.issue token record now).1 = .ok () → t ≠ token) ∧ s.inner.lookup t = some r) := by
  simp only [issue] at h ⊢
  split at h
  case isTrue hdomains =>
    rw [if_pos hdomains]
    exact .inr ⟨nofun, (lookup_sweepExpired_iff.mp h).1⟩
  case isFalse hdomains =>
    rw [if_neg hdomains]
    split at h
    case isTrue hentries =>
      rw [if_pos hentries]
      exact .inr ⟨nofun, (lookup_sweepExpired_iff.mp h).1⟩
    case isFalse hentries =>
      rw [if_neg hentries]
      rw [lookup_insert_if] at h
      split at h
      case isTrue ht => exact .inl ⟨rfl, ht, (Option.some.inj h).symm⟩
      case isFalse ht => exact .inr ⟨fun _ => ht, (lookup_sweepExpired_iff.mp h).1⟩

theorem remove_shrinks (s : TokenStore) : Shrinks s (s.remove token).2 := by
  refine shrinks_of_lookup fun t r h => ?_
  simp only [remove] at h
  split at h
  · exact h
  have herased : (s.inner.erase token).lookup t = some r := by
    split at h <;> exact h
  rw [lookup_erase_if] at herased
  split at herased
  · cases herased
  · exact herased

theorem lookup_remove_self (s : TokenStore) (token : String) :
    (s.remove token).2.inner.lookup token = none := by
  simp only [remove]
  split
  case h_1 hnone => exact hnone
  case h_2 =>
    split <;> exact lookup_erase _ _

/-- A taken record was in the store, of the client and in time, and is gone. -/
theorem take_some {s : TokenStore} (h : (s.take token domain identity now).1 = some r) :
    s.inner.lookup token = some r ∧ belongs domain identity now r = true ∧
      (s.take token domain identity now).2.inner.lookup token = none := by
  simp only [take] at h ⊢
  split at h
  · cases h
  case h_2 record hrecord =>
    split at h
    case isTrue hbelongs =>
      have hremoved := lookup_remove_self s token
      simp only [remove, hrecord] at h
      cases h
      rw [hrecord, if_pos hbelongs]
      exact ⟨rfl, hbelongs, hremoved⟩
    case isFalse => split at h <;> cases h

theorem take_shrinks (s : TokenStore) :
    Shrinks s (s.take token domain identity now).2 := by
  simp only [take]
  split
  · exact Shrinks.refl s
  split
  · exact remove_shrinks s
  split
  · refine shrinks_of_lookup fun t r h => ?_
    have herased : (s.inner.erase token).lookup t = some r := h
    rw [lookup_erase_if] at herased
    split at herased
    · cases herased
    · exact herased
  · exact Shrinks.refl s

theorem incrementAttempts_shrinks (s : TokenStore) : Shrinks s (s.incrementAttempts token).2 := by
  simp only [incrementAttempts]
  split
  · exact Shrinks.refl s
  intro t r' h
  have hmodified := h
  rw [lookup_modify] at hmodified
  split at hmodified
  case isTrue ht =>
    obtain ⟨r, hr, rfl⟩ := map_eq_some_iff.mp hmodified
    exact ⟨r, ht ▸ hr, rfl, rfl, rfl⟩
  case isFalse => exact ⟨r', hmodified, SameTerms.refl r'⟩

/-! ### What the operations leave alone -/

section

variable {s : TokenStore}

/-- Issuing another token leaves a live record where it is. -/
theorem lookup_issue_of_live (token : String) (record : ChallengeRecord)
    (h : s.inner.lookup t = some r) (hlive : now < r.expiresAt)
    (hother : (s.issue token record now).1 = .ok () → t ≠ token) :
    (s.issue token record now).2.inner.lookup t = some r := by
  have hswept := lookup_sweepExpired_iff.mpr ⟨h, hlive⟩
  simp only [issue] at hother ⊢
  split
  · exact hswept
  case isFalse hdomains =>
    rw [if_neg hdomains] at hother
    split
    · exact hswept
    case isFalse hentries =>
      rw [if_neg hentries] at hother
      have hne : t ≠ token := hother rfl
      simp only [lookup_insert_if, if_neg hne]
      exact hswept

theorem lookup_issue_self (h : (s.issue token record now).1 = .ok ()) :
    (s.issue token record now).2.inner.lookup token = some record := by
  simp only [issue] at h ⊢
  split at h
  · cases h
  case isFalse hdomains =>
    rw [if_neg hdomains]
    split at h
    · cases h
    case isFalse hentries =>
      rw [if_neg hentries]
      simp

theorem lookup_remove_ne (h : t ≠ token) :
    (s.remove token).2.inner.lookup t = s.inner.lookup t := by
  simp only [remove]
  split
  · rfl
  have herased : (s.inner.erase token).lookup t = s.inner.lookup t := by
    rw [lookup_erase_if, if_neg h]
  split <;> exact herased

theorem lookup_take_ne (h : t ≠ token) :
    (s.take token domain identity now).2.inner.lookup t = s.inner.lookup t := by
  simp only [take]
  split
  · rfl
  split
  · exact lookup_remove_ne h
  split
  · have herased : (s.inner.erase token).lookup t = s.inner.lookup t := by
      rw [lookup_erase_if, if_neg h]
    exact herased
  · rfl

/-- A record of the client that is in time is taken. -/
theorem take_of_belongs (h : s.inner.lookup token = some r)
    (hbelongs : belongs domain identity now r = true) :
    (s.take token domain identity now).1 = some r := by
  simp only [take, h, hbelongs, if_true, remove]

/-- A live record that is not taken stays. -/
theorem lookup_take_of_live (h : s.inner.lookup token = some r)
    (hlive : now < r.expiresAt) (hleft : (s.take token domain identity now).1 = none) :
    (s.take token domain identity now).2.inner.lookup token = some r := by
  cases hbelongs : belongs domain identity now r with
  | true => simp [take_of_belongs h hbelongs] at hleft
  | false => simp [take, h, hbelongs, Nat.not_le.mpr hlive]

theorem lookup_incrementAttempts_ne (h : t ≠ token) :
    (s.incrementAttempts token).2.inner.lookup t = s.inner.lookup t := by
  simp only [incrementAttempts]
  split
  · rfl
  · simp only [lookup_modify, if_neg h]

theorem incrementAttempts_of_some (h : s.inner.lookup token = some r) :
    (s.incrementAttempts token).1 = some (satAdd32 r.attempts 1) ∧
      (s.incrementAttempts token).2.inner.lookup token =
        some { r with attempts := satAdd32 r.attempts 1 } := by
  simp [incrementAttempts, h, lookup_modify]

end

end TokenStore

/-! ## Tokens -/

def utf8 (text : String) : Bytes := text.toUTF8.data.toList

theorem utf8_eq : utf8 text = text.toList.flatMap String.utf8EncodeChar := by
  have h : text.toByteArray = text.toList.utf8Encode := by
    rw [← String.toByteArray_ofList, String.ofList_toList]
  rw [utf8, String.toUTF8_eq_toByteArray, h, utf8Encode, data_toByteArray]

theorem utf8_append : utf8 (a ++ b) = utf8 a ++ utf8 b := by
  simp only [utf8_eq, String.toList_append, flatMap_append]

theorem fromUtf8_utf8 : Utf8.fromUtf8 (utf8 text) = some text := by
  rw [utf8_eq, Utf8.fromUtf8_utf8Encode, String.ofList_toList]

def toBeBytes (n : Nat) : Bytes :=
  (List.range 8).map fun i => UInt8.ofNat (n / 256 ^ (7 - i) % 256)

theorem length_toBeBytes : (toBeBytes n).length = 8 := by simp [toBeBytes]

/-- Numbers with the same last digits agree below their place. -/
theorem mod_pow_of_digits {a b base n : Nat}
    (h : ∀ k < n, a / base ^ k % base = b / base ^ k % base) : a % base ^ n = b % base ^ n := by
  induction n with
  | zero => rw [Nat.pow_zero, Nat.mod_one, Nat.mod_one]
  | succ n ih =>
    rw [Nat.mod_pow_succ, Nat.mod_pow_succ, h n (Nat.lt_succ_self n),
      ih fun k hk => h k (Nat.lt_succ_of_lt hk)]

/-- The bytes of a machine number determine it. -/
theorem toBeBytes_injective {a b : Nat} (ha : a < 2 ^ 64) (hb : b < 2 ^ 64)
    (h : toBeBytes a = toBeBytes b) : a = b := by
  have hbyte : ∀ k < 8, a / 256 ^ k % 256 = b / 256 ^ k % 256 := by
    intro k hk
    have hget := congrArg (fun l => l[7 - k]?.map UInt8.toNat) h
    have hindex : 7 - (7 - k) = k := by omega
    simpa [toBeBytes, getElem?_range (show 7 - k < 8 by omega), hindex] using hget
  have hmod : a % 256 ^ 8 = b % 256 ^ 8 := mod_pow_of_digits hbyte
  omega

section tokens

variable (sha256 : Bytes → Bytes) (hmac : Bytes → Bytes → Bytes)

def tokenMessage (secret : Bytes) (sequence : Nat) (target : String) : Bytes :=
  secret ++ toBeBytes sequence ++ utf8 target

def tokenId (secret : Bytes) (sequence : Nat) (target : String) : String :=
  String.ofList (Text.hexEncode (sha256 (tokenMessage secret sequence target)))

/-- What is hashed names the number, among secrets of one length. -/
theorem sequence_of_tokenMessage (hlength : secret.length = secret'.length) (hn : n < 2 ^ 64)
    (hm : m < 2 ^ 64) (h : tokenMessage secret n target = tokenMessage secret' m target') :
    n = m := by
  have hrest : toBeBytes n ++ utf8 target = toBeBytes m ++ utf8 target' := by
    simp only [tokenMessage, append_assoc] at h
    exact (append_inj h hlength).2
  have hbytes := (append_inj hrest (by rw [length_toBeBytes, length_toBeBytes])).1
  exact toBeBytes_injective hn hm hbytes

def nanosPerSec : Nat := 1000000000

/-- The text a stateless token signs. -/
def statelessPayload (expires difficulty : Nat) (domain identity salt target : String) : String :=
  "|".intercalate [toString expires, toString difficulty, domain, identity, salt, target]

/-- `stateless`: the record in the token, and its tag. -/
def stateless (secret : Bytes) (domain identity target salt : String) (difficulty : Nat)
    (ttl : Duration) (now : Time) : String :=
  let expires := satAdd64 (now / nanosPerSec) (ttl / nanosPerSec)
  let payload := statelessPayload expires difficulty domain identity salt target
  String.ofList ("st.".toList ++ Text.hexEncode (utf8 payload) ++ '.' ::
    Text.hexEncode (hmac secret (utf8 payload)))

def parseU8 (s : List Char) : Option Nat := (Text.parseU64 s).filter fun n => decide (n < 256)

def parseStateless (secret : Bytes) (token domain identity : String) (now : Time) :
    Option ChallengeRecord := do
  let rest ← Text.stripStart "st.".toList token.toList
  let (encoded, tag) ← Text.rsplitOnce '.' rest
  let bytes ← Text.hexDecode encoded
  let payload ← Utf8.fromUtf8 bytes
  let [expires, difficulty, tokenDomain, tokenIdentity, salt, target] ←
    some (Text.splitN '|' 6 payload.toList) | none
  let expires ← Text.parseU64 expires
  let difficulty ← parseU8 difficulty
  let nowSecs := now / nanosPerSec
  if String.ofList tokenDomain ≠ domain ∨ String.ofList tokenIdentity ≠ identity ∨
      expires ≤ nowSecs then none
  else if Text.hexEncode (hmac secret (utf8 payload)) ≠ tag then none
  else some {
    domain := domain
    identity := identity
    salt := String.ofList salt
    difficulty := difficulty
    target := String.ofList target
    kind := "pow"
    attempts := 0
    expiresAt := now + (expires - nowSecs) * nanosPerSec }

/-! ### A stateless token is read back -/

/-- A signed token always reads as a proof of work. -/
theorem kind_of_parseStateless (h : parseStateless hmac secret t domain identity now = some r) :
    r.kind = "pow" := by
  simp only [parseStateless, bind_eq_bind] at h
  obtain ⟨rest, -, h⟩ := bind_eq_some_iff.mp h
  obtain ⟨⟨encoded, tag⟩, -, h⟩ := bind_eq_some_iff.mp h
  obtain ⟨bytes, -, h⟩ := bind_eq_some_iff.mp h
  obtain ⟨payload, -, h⟩ := bind_eq_some_iff.mp h
  obtain ⟨parts, -, h⟩ := bind_eq_some_iff.mp h
  split at h
  · obtain ⟨expires, -, h⟩ := bind_eq_some_iff.mp h
    obtain ⟨difficulty, -, h⟩ := bind_eq_some_iff.mp h
    split at h
    · cases h
    split at h
    · cases h
    · cases h
      rfl
  · cases h

theorem toList_statelessPayload :
    (statelessPayload expires difficulty domain identity salt target).toList =
      (toString expires).toList ++ '|' :: ((toString difficulty).toList ++ '|' :: (domain.toList ++
        '|' :: (identity.toList ++ '|' :: (salt.toList ++ '|' :: target.toList)))) := by
  have hjoined : statelessPayload expires difficulty domain identity salt target =
      toString expires ++ "|" ++ toString difficulty ++ "|" ++ domain ++ "|" ++ identity ++ "|" ++
        salt ++ "|" ++ target := rfl
  rw [hjoined]
  simp

theorem parseU8_toString (h : n < 256) : parseU8 (toString n).toList = some n := by
  rw [parseU8, parseU64_toString (by omega), filter_some_pos (by simpa using h)]

/-- The second a stateless token expires in. -/
def statelessExpiry (now : Time) (ttl : Duration) : Nat :=
  satAdd64 (now / nanosPerSec) (ttl / nanosPerSec)

theorem not_mem_hexEncode (h : hexValue c = none) : c ∉ hexEncode bytes := by
  intro hc
  obtain ⟨b, -, hb⟩ := mem_flatMap.mp hc
  have hlt : b.toNat < 256 := b.toNat_lt
  rcases List.mem_pair.mp hb with rfl | rfl
  · simp [hexValue_hexDigit (b.toNat / 16) (by omega)] at h
  · simp [hexValue_hexDigit (b.toNat % 16) (by omega)] at h

theorem splitN_statelessPayload (expires difficulty : Nat) (domain identity target : String)
    (hsalt : '|' ∉ salt.toList) :
    ∃ rest, splitN '|' 6 (statelessPayload expires difficulty domain identity salt
        target).toList = (toString expires).toList :: (toString difficulty).toList ::
          before '|' domain.toList :: rest ∧
      ('|' ∉ domain.toList → ∃ rest', rest = before '|' identity.toList :: rest' ∧
        ('|' ∉ identity.toList → rest' = [salt.toList, target.toList])) := by
  have hdigits : ∀ n : Nat, '|' ∉ (toString n).toList := not_mem_toString (by decide)
  rw [toList_statelessPayload]
  obtain ⟨r, hr, hr'⟩ := splitN_append '|' 4 (toString expires).toList _
  obtain ⟨q, hq, hq'⟩ := splitN_append '|' 3 (toString difficulty).toList _
  obtain ⟨p, hp, hp'⟩ := splitN_append '|' 2 domain.toList _
  rw [hr, hr' (hdigits _), hq, hq' (hdigits _), hp, Text.before_eq_self_iff.mpr (hdigits _),
    Text.before_eq_self_iff.mpr (hdigits _)]
  refine ⟨p, rfl, fun hdomain => ?_⟩
  obtain ⟨o, ho, ho'⟩ := splitN_append '|' 1 identity.toList _
  obtain ⟨n, hn, hn'⟩ := splitN_append '|' 0 salt.toList _
  refine ⟨o, by rw [hp' hdomain, ho], fun hidentity => ?_⟩
  rw [ho' hidentity, hn, hn' hsalt, Text.before_eq_self_iff.mpr hsalt]
  rfl

/-- A stateless token is read back for its client until it expires, unless a name in it has
the separator. -/
theorem parseStateless_stateless (secret : Bytes) (domain identity target : String) (ttl : Duration)
    (now now' : Time) (hsalt : '|' ∉ salt.toList) (hdifficulty : difficulty < 256) :
    parseStateless hmac secret (stateless hmac secret domain identity target salt difficulty ttl now)
        domain identity now' =
      if '|' ∈ domain.toList ∨ '|' ∈ identity.toList ∨
          statelessExpiry now ttl ≤ now' / nanosPerSec then none
      else some {
        domain := domain
        identity := identity
        salt := salt
        difficulty := difficulty
        target := target
        kind := "pow"
        attempts := 0
        expiresAt := now' + (statelessExpiry now ttl - now' / nanosPerSec) * nanosPerSec } := by
  have hexpires : statelessExpiry now ttl < 2 ^ 64 := Nat.lt_of_le_of_lt satAdd64_le (by decide)
  let payload := statelessPayload (statelessExpiry now ttl) difficulty domain identity salt target
  let tag := hexEncode (hmac secret (utf8 payload))
  have hstrip : Text.stripStart "st.".toList (stateless hmac secret domain identity target salt
      difficulty ttl now).toList = some (hexEncode (utf8 payload) ++ '.' :: tag) := by
    have htoken : (stateless hmac secret domain identity target salt difficulty ttl now).toList =
        "st.".toList ++ (hexEncode (utf8 payload) ++ '.' :: tag) := by
      simp only [stateless, String.toList_ofList, append_assoc]
      rfl
    rw [htoken, stripStart_append]
  have hsplit : rsplitOnce '.' (hexEncode (utf8 payload) ++ '.' :: tag) =
      some (hexEncode (utf8 payload), tag) := rsplitOnce_append (not_mem_hexEncode rfl) _
  obtain ⟨rest, hparts, hrest⟩ := splitN_statelessPayload (statelessExpiry now ttl) difficulty
    domain identity target hsalt
  simp only [parseStateless, hstrip, hsplit, hexDecode_hexEncode, fromUtf8_utf8,
    bind_eq_bind, bind_some, payload, hparts]
  have hpart : ∀ name : String, '|' ∈ name.toList →
      String.ofList (before '|' name.toList) ≠ name := fun name hin heq =>
    Text.before_eq_self_iff.mp (by rw [← String.toList_ofList (l := before _ _), heq]) hin
  by_cases hdomain : '|' ∈ domain.toList
  · rw [if_pos (.inl hdomain)]
    split
    case h_1 heq =>
      simp only [List.cons.injEq] at heq
      obtain ⟨rfl, rfl, rfl, -⟩ := heq
      simp [hpart domain hdomain]
    case h_2 => rfl
  obtain ⟨rest', rfl, hrest'⟩ := hrest hdomain
  rw [Text.before_eq_self_iff.mpr hdomain]
  by_cases hidentity : '|' ∈ identity.toList
  · rw [if_pos (.inr (.inl hidentity))]
    split
    case h_1 heq =>
      simp only [List.cons.injEq] at heq
      obtain ⟨rfl, rfl, rfl, rfl, -⟩ := heq
      simp [hpart identity hidentity]
    case h_2 => rfl
  · rw [hrest' hidentity, Text.before_eq_self_iff.mpr hidentity]
    simp only [parseU64_toString hexpires, parseU8_toString hdifficulty, bind_some,
      String.ofList_toList, tag, payload, ne_eq, not_true_eq_false, false_or, hdomain, hidentity,
      if_false]
/-- `pow::solved`: the digest of salt and nonce starts with enough zero bits. -/
def powSolved (salt : String) (nonce difficulty : Nat) : Bool :=
  let digest := sha256 (utf8 salt ++ utf8 (toString nonce))
  let full := difficulty / 8
  let rem := difficulty % 8
  (digest.take full).all (· == 0) &&
    (rem == 0 || (digest[full]?).any fun byte => byte.toNat / 2 ^ (8 - rem) == 0)

end tokens

/-- A hash on the texts it is known for. -/
def tabulated {α : Type} [DecidableEq α] (table : List (α × String)) (message : α) : Bytes :=
  ((table.find? fun e => e.1 = message).bind fun e => Text.hexDecode e.2.toList).getD
    (List.replicate 32 255)

theorem length_tabulated [DecidableEq α]
    (h : ∀ e ∈ table, (hexDecode e.2.toList).map length = some 32) (message : α) :
    (tabulated table message).length = 32 := by
  rw [tabulated]
  cases hfound : table.find? fun e => e.1 = message with
  | none => rfl
  | some e =>
    obtain ⟨bytes, hbytes, hlength⟩ := map_eq_some_iff.mp (h e (mem_of_find?_eq_some hfound))
    rw [bind_some, hbytes, getD_some, hlength]

/-- SHA-256 on the texts that the runs shown in other modules hash. -/
def testDigest : Bytes → Bytes :=
  tabulated [
    (tokenMessage (utf8 "test-secret") 1 "/a",
      "d4c4bfa3bc4a2ac5f4968c00a99fb9b45d23c8e4440158bf8e9123502dae8bac"),
    (tokenMessage (utf8 "test-secret") 1 "/b",
      "9f460d8fc5b9c6f64d25bf2e755b96040b4a5552070f9b1352410cf4ea237495"),
    (tokenMessage (utf8 "test-secret") 2 "a.test",
      "7cc57da0477ee25bb2e14785dc7525085a70c01246b241f7dc7e6d25ee4daf53"),
    (tokenMessage (utf8 "test-secret") 2 "b.test",
      "e45f852abbf94b9d7742f05cf1896b0a0a0832348800e79301dba799d615be88"),
    (tokenMessage (utf8 "test-secret") 2 "/b",
      "b7e5afdd9cd098048a76a7ad43d1893f73a3ed2d60b1db43d4304c90c21458c9"),
    (tokenMessage (utf8 "test-secret") 3 "a.test",
      "0f7440db026bf2dca785fb57bd920397426c3ccc5a2bbf9ed76ef9f0b0e6c39f"),
    (tokenMessage (utf8 "test-secret") 3 "b.test",
      "98e40b12305b83e0a982ebc666cf68900bae77307dbb609f9fa4c607d27fd013"),
    (utf8 "test-secret", "9caf06bb4436cdbfa20af9121a626bc1093c4f54b31c0fa937957856135345b6"),
    (utf8 "7cc57da0477ee25bb2e1478528",
      "07261958f1fb2e7ab033ab11ff6dcb7f1ad65e183f804f0992e2133e138d5c88"),
    (utf8 "98e40b12305b83e0a982ebc60",
      "5799b13fb1d7d929c50cc76a8fe5e96a321d26e83390f139368709ecfb38e30b"),
    (utf8 "e45f852abbf94b9d7742f05c0",
      "1b59799dd668ea6c5680e05c71dfdf2458cc631c8f231baddfdd20044da09433"),
    (utf8 "0f7440db026bf2dca785fb570",
      "f975529e8ac55c1f001626eae9e6df1eafe3389fe60570518dbad4821b39865a"),
    (utf8 "0f7440db026bf2dca785fb571",
      "e42cc6bd7e80a863d282af80a032e7d60357698d1289842c5cdd357a009336fd"),
    (utf8 "0f7440db026bf2dca785fb572",
      "2c8115a901b8190cefea67bdc8d46e496c94274fe47a9be39ab12fc5d8863ab2"),
    (utf8 "0f7440db026bf2dca785fb5718446744073709551615",
      "eadf329e6807d2db14286727dad634423763c0c19871a04ab3f07b65582263d3")]

theorem length_testDigest (message : Bytes) : (testDigest message).length = 32 :=
  length_tabulated (by decide +kernel) message

end ChallengeToken
