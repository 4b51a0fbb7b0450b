import Pingap.ChallengePage
import Pingap.ChallengeStanding

/-!
# A served challenge and its answer

A challenge is served as a page; its token is in the store, or signed when the store is
full. Whoever answers with what the script of the page computes goes through three steps
of the verification, with any other requests in between. A token of the store stands all
that time, so its answer is accepted. A signed token is read back as a proof of work.
-/

namespace ChallengeSolvable

open MachineArith ChallengeToken ChallengeVerify ChallengePage ChallengeSingleUse ChallengeStanding List Option Text
open Trace
open Utf8 (Bytes)

section served

variable (sha256 : Bytes → Bytes) (hmac : Bytes → Bytes → Bytes)
  (urlDecode : String → Option String)

/-! ## The page -/

/-- What `validate` asks of an entry, as far as issuing and verifying read it. -/
structure Validated (c : Challenge) : Prop where
  secret : c.secret ≠ []
  difficulty : 1 ≤ c.difficulty ∧ c.difficulty ≤ 10
  tokenTtl : 0 < c.tokenTtl
  maxAttempts : 0 < c.maxAttempts

/-- What a challenge is about to store, under the number it drew. -/
def pendingIssue (challenge : Challenge) (request : IssueRequest) (sequence : Nat) :
    PendingIssue where
  token := Draw.token sha256 ⟨challenge.secret, sequence, request.target⟩
  record := issueRecord sha256 challenge request sequence

def pageFor (action : String) (record : ChallengeRecord) (token : String) : Page :=
  if record.kind = "pow" then
    ChallengePage.pow token record.salt record.difficulty action record.target
  else ChallengePage.silent token action record.target

/-- The signed token that stands in for a record the store has no room for. -/
def fallbackToken (challenge : Challenge) (record : ChallengeRecord) (now : Time) : String :=
  stateless hmac challenge.secret record.domain record.identity record.target record.salt
    record.difficulty challenge.tokenTtl now

/-- The end of `issue`: the page, unless the store has no room for the domain. -/
def servedPage (challenge : Challenge) (action : String) (pending : PendingIssue) (now : Time) :
    Except TokenError Unit → Option Page
  | .ok () => some (pageFor action pending.record pending.token)
  | .error .fullDomains => none
  | .error .fullEntries =>
    some (pageFor action pending.record (fallbackToken hmac challenge pending.record now))

/-! ## The answer of the page -/

/-- The request answers the challenge of the record: it names the token, and has the proof or
the fingerprint the record asks for. -/
structure Answers (challenge : Challenge) (record : ChallengeRecord) (t : String)
    (q : VerifyRequest) : Prop where
  domain : q.domain = record.domain
  identity : q.identity = record.identity
  token : (readQuery q.query).1 = some t
  proof : record.kind = "pow" →
    powSolved sha256 record.salt ((readQuery q.query).2.getD u64Max) record.difficulty = true
  blank : record.kind ≠ "pow" → (readQuery q.query).2 = none
  fingerprint : ∀ r : ChallengeRecord, r.kind = record.kind →
    ∃ fp, signedFingerprint hmac urlDecode challenge q t r = some fp

theorem isAlphanum_hexDigit (h : n < 16) : (hexDigit n).isAlphanum = true := by
  have hall : ∀ m : Fin 16, (hexDigit m).isAlphanum = true := by decide
  exact hall ⟨n, h⟩

theorem isAlphanum_hexEncode (h : c ∈ hexEncode bytes) : c.isAlphanum = true := by
  obtain ⟨b, -, hb⟩ := mem_flatMap.mp h
  have hlt : b.toNat < 256 := b.toNat_lt
  rcases List.mem_pair.mp hb with rfl | rfl
  all_goals exact isAlphanum_hexDigit (by omega)

theorem plain_hex (h : Hex t) : Plain t := by
  obtain ⟨bytes, rfl⟩ := h
  intro c hc
  rw [String.toList_ofList] at hc
  rw [isAlphanum_hexEncode hc, Bool.true_or]

theorem plain_fallbackToken (challenge : Challenge) (record : ChallengeRecord) (now : Time) :
    Plain (fallbackToken hmac challenge record now) := by
  intro c hc
  simp only [fallbackToken, stateless, String.toList_ofList, mem_append, mem_cons] at hc
  rcases hc with (hlead | hpayload) | rfl | htag
  · have hall : ("st.".toList.all fun c => c.isAlphanum || "*-._".toList.contains c) = true := by
      decide
    exact all_eq_true.mp hall c hlead
  · rw [isAlphanum_hexEncode hpayload, Bool.true_or]
  · decide
  · rw [isAlphanum_hexEncode htag, Bool.true_or]

/-- What the script of the page sends answers the challenge. -/
theorem submits_answers (hdigest : ∀ m, (sha256 m).length = 32)
    (hdecode : ∀ text, urlDecode (String.ofList (encodeURIComponent text)) = some text)
    (challenge : Challenge) (htoken : Plain t) (hdifficulty : record.difficulty < 256)
    (hkind : record.kind = "pow" ∨ record.kind = "silent")
    (h : Submits sha256 (pageFor action record t) record.domain record.identity q) :
    Answers sha256 hmac urlDecode challenge record t q := by
  rcases hkind with hkind | hkind
  · rw [pageFor, if_pos hkind] at h
    cases h with
    | silent fingerprint hscript => cases hscript
    | pow fuel nonce cookie hscript hsolve =>
      have hread : readQuery _ = (some t, _) := readQuery_query (p := ChallengePage.pow t record.salt
        record.difficulty action record.target) htoken _ (plain_toString nonce)
      simp only [solve] at hsolve
      split at hsolve
      · cases hsolve
      obtain ⟨hsafe, hmeets⟩ := search_sound sha256 (Nat.zero_le _) hsolve
      rw [parseU64_toString (Nat.lt_of_le_of_lt hsafe (by decide))] at hread
      have hsolved := (meets_eq_powSolved sha256 hdifficulty (hdigest _)).symm.trans hmeets
      refine ⟨rfl, rfl, by rw [hread], fun _ => by rw [hread]; exact hsolved,
        fun hne => absurd hkind hne, fun r hr => ⟨none, ?_⟩⟩
      rw [signedFingerprint, hr, hkind]
      rfl
  · have hne : record.kind ≠ "pow" := by rw [hkind]; decide
    rw [pageFor, if_neg hne] at h
    cases h with
    | pow fuel nonce cookie hscript hsolve => cases hscript
    | silent fingerprint hscript =>
      have hread : readQuery _ = (some t, none) := readQuery_query
        (p := ChallengePage.silent t action record.target) htoken ""
        fun c hc => absurd hc not_mem_nil
      refine ⟨rfl, rfl, by rw [hread], fun heq => absurd heq hne, fun _ => by rw [hread],
        fun r hr => ?_⟩
      have hcookie := namedCookie_fingerprintHeader (ChallengePage.silent t action record.target)
        fingerprint
      have hstrip : Text.stripStart (t.toList ++ ['|']) (t ++ "|" ++ fingerprint).toList =
          some fingerprint.toList := by
        rw [String.toList_append, String.toList_append]
        exact stripStart_append
      simp only [signedFingerprint, hr, hkind, if_true, hcookie, bind_some, hdecode]
      exact ⟨_, by rw [show (ChallengePage.silent t action record.target).token = t from rfl, hstrip]; rfl⟩

/-- The solver ends, if there is a number it can count to. -/
theorem solve_complete (hdigest : ∀ m, (sha256 m).length = 32) (hsalt : p.salt ≠ "")
    (htoken : p.token ≠ "") (hdifficulty : 0 < p.difficulty ∧ p.difficulty < 256)
    (h : ∃ k ≤ maxSafe, powSolved sha256 p.salt k p.difficulty = true) :
    ∃ fuel nonce, solve sha256 fuel p = some nonce := by
  obtain ⟨k, hk, hsolved⟩ := h
  have hmeets := (meets_eq_powSolved sha256 hdifficulty.2 (hdigest (utf8 (p.salt ++ toString k)))).trans
    hsolved
  obtain ⟨fuel, nonce, hfound⟩ := search_complete sha256 p.salt k 0 (by omega)
    (by rw [Nat.zero_add]; exact hmeets)
  refine ⟨fuel, nonce, ?_⟩
  have hready : ¬ (p.salt = "" ∨ p.token = "" ∨ p.difficulty = 0) := by
    rintro (h | h | h)
    · exact hsalt h
    · exact htoken h
    · omega
  rw [solve, if_neg hready, hfound]

/-! ## A token of the store is accepted -/

/-- How an answer is verified: its request arrives, and its thread takes three steps. Anything
else happens before, in between and after. -/
structure Visit where
  waiting : List Event
  first : List Event
  second : List Event
  third : List Event
  t₁ : Time
  t₂ : Time
  t₃ : Time

def Visit.events (v : Visit) (challenge : Challenge) (q : VerifyRequest) (j : Nat) : List Event :=
  v.waiting ++ .verify challenge q :: (v.first ++ .advance j v.t₁ ::
    (v.second ++ .advance j v.t₂ :: (v.third ++ [.advance j v.t₃])))

/-- The thread of the visit is its own, and the steps in between are those of others. -/
structure Visit.Own (v : Visit) (s : System) (j : Nat) : Prop where
  thread : j = (final (step sha256 hmac urlDecode) s v.waiting).threads.length
  waiting : ∀ now, Event.advance j now ∉ v.waiting
  first : ∀ now, Event.advance j now ∉ v.first
  second : ∀ now, Event.advance j now ∉ v.second
  third : ∀ now, Event.advance j now ∉ v.third

theorem thread_arrives (s : System) (challenge : Challenge) (q : VerifyRequest) :
    (step sha256 hmac urlDecode s (.verify challenge q)).2.threads[s.threads.length]? =
      some (.verifying challenge q .started) := by
  simp [step]

/-- An answer to a challenge whose token stands is accepted. -/
theorem standing_accepted {v : Visit}
    (h : Standing t record limit budget s) (hown : v.Own sha256 hmac urlDecode s j)
    (hcalm : Calm sha256 hmac urlDecode j t record.expiresAt limit budget s (v.events challenge q j))
    (hanswers : Answers sha256 hmac urlDecode challenge record t q) :
    ∃ r fp, (final (step sha256 hmac urlDecode) s (v.events challenge q j)).threads[j]? =
      some (.verifying challenge q (.done (.solved r true fp))) := by
  have hbelongs : ∀ now k, now < record.expiresAt →
      TokenStore.belongs q.domain q.identity now { record with attempts := k } = true := by
    intro now k hlive
    simp [TokenStore.belongs, hlive, hanswers.domain, hanswers.identity]
  have hclock : ∀ {k now}, Event.advance k now ∈ v.events challenge q j → now < record.expiresAt :=
    fun hmem => hcalm.clock _ _ hmem
  have ht₁ : v.t₁ < record.expiresAt := hclock (k := j) (by simp [Visit.events])
  have ht₃ : v.t₃ < record.expiresAt := hclock (k := j) (by simp [Visit.events])
  -- the request arrives
  obtain ⟨hwaiting, hcalm⟩ := Calm.append _ hcalm
  have hstands := standing_run h v.waiting hown.waiting hwaiting
  have hthread := thread_arrives sha256 hmac urlDecode
    (final (step sha256 hmac urlDecode) s v.waiting) challenge q
  rw [← hown.thread] at hthread
  rw [Visit.events, final_append]
  obtain ⟨harrives, hcalm⟩ := Calm.append [.verify challenge q] hcalm
  have hstands := standing_run hstands [.verify challenge q] (by simp) harrives
  rw [final_cons]
  rw [final_cons, final_nil] at hstands hcalm
  -- it reads the record
  obtain ⟨b₁, s₁, phase₁, hstands₁, ⟨k₁, rfl⟩, hthread₁, hcalm₁, hfinal₁⟩ := own_step
    hstands hthread hown.first hcalm
    (fun phase => ∃ k, phase = .fetched t (readQuery q.query).2 (some { record with attempts := k }))
    (by simp) fun store k hlookup => ⟨k, by
      simp only [verifyStep, hanswers.token, TokenStore.get, hlookup,
        filter_some_pos (hbelongs _ _ ht₁)]⟩
  -- it finds the answer right
  obtain ⟨b₂, s₂, phase₂, hstands₂, ⟨r, fp, rfl⟩, hthread₂, hcalm₂, hfinal₂⟩ := own_step
    hstands₁ hthread₁ hown.second hcalm₁ (fun phase => ∃ r fp, phase = .taking t r fp)
    (by simp) fun store k hlookup => by
      obtain ⟨fp, hfp⟩ := hanswers.fingerprint { record with attempts := k₁ } rfl
      have hproof : ¬ (record.kind = "pow" ∧ powSolved sha256 record.salt
          ((readQuery q.query).2.getD u64Max) record.difficulty = false) := by
        rintro ⟨hkind, hwrong⟩
        rw [hanswers.proof hkind] at hwrong
        cases hwrong
      refine ⟨{ record with attempts := k₁ }, fp, ?_⟩
      simp only [verifyStep, judge, some_or, if_neg hproof, hfp, isSome_some, if_true]
  -- and takes the record out
  obtain ⟨hthird, hlast⟩ := Calm.append _ hcalm₂
  obtain ⟨k, -, hlookup⟩ := (standing_run hstands₂ v.third hown.third hthird).record
  have hthread₃ := thread_run sha256 hmac urlDecode hthread₂ hown.third
  refine ⟨r, fp, ?_⟩
  rw [hfinal₁, hfinal₂, final_append, final_cons, final_nil,
    thread_own sha256 hmac urlDecode hthread₃]
  simp only [verifyStep, TokenStore.take_of_belongs hlookup (hbelongs _ _ ht₃), isNone_some,
    Bool.false_eq_true, if_false]

/-! ## A signed token is accepted as a proof of work -/

theorem stored_of_lastIssue (h : lastIssue t history = some r) : Effect.stored t r ∈ history := by
  induction history using reverseRecOn with
  | nil => cases h
  | append_singleton history effect ih =>
    cases effect with
    | stored token record =>
      rw [lastIssue_stored] at h
      split at h
      case isTrue ht =>
        cases h
        rw [ht]
        exact mem_append_right _ (mem_singleton_self _)
      case isFalse => exact mem_append_left _ (ih h)
    | _ =>
      simp only [lastIssue, foldl_append, foldl_cons, foldl_nil] at h
      exact mem_append_left _ (ih h)

/-- The store has records of hexadecimal tokens only. -/
theorem hex_of_lookup (h : (final (step sha256 hmac urlDecode) (System.start maxDomains maxEntries)
      es).store.inner.lookup t = some r) : Hex t := by
  obtain ⟨r₀, hlast, -⟩ := known_run sha256 hmac urlDecode (known_start maxDomains maxEntries) es t r h
  exact stored_hex_run (hexPending_start maxDomains maxEntries) (stored_of_lastIssue hlast)

theorem not_hex_fallbackToken : ¬ Hex (fallbackToken hmac challenge record now) := by
  rintro ⟨bytes, heq⟩
  have hs : 's' ∈ (fallbackToken hmac challenge record now).toList := by
    simp [fallbackToken, stateless]
  rw [heq, String.toList_ofList] at hs
  exact not_mem_hexEncode (by decide) hs

/-- How the fallback token of a challenge is judged: as a proof of work, whatever its kind. -/
def fallbackVerdict (challenge : Challenge) (record : ChallengeRecord) (now now' : Time)
    (nonce : Nat) : Verdict :=
  if '|' ∈ record.domain.toList ∨ '|' ∈ record.identity.toList ∨
      statelessExpiry now challenge.tokenTtl ≤ now' / nanosPerSec then .invalidToken
  else if powSolved sha256 record.salt nonce record.difficulty then
    .solved { record with
      kind := "pow"
      attempts := 0
      expiresAt := now' + (statelessExpiry now challenge.tokenTtl - now' / nanosPerSec) *
        nanosPerSec } false none
  else .proofFailed

theorem fallbackVerdict_refusal (challenge : Challenge) (record : ChallengeRecord) (now now' : Time)
    (nonce : Nat) :
    (fallbackVerdict sha256 challenge record now now' nonce).refusal = none ↔
      ('|' ∉ record.domain.toList ∧ '|' ∉ record.identity.toList ∧
        now' / nanosPerSec < statelessExpiry now challenge.tokenTtl ∧
        powSolved sha256 record.salt nonce record.difficulty = true) := by
  rw [fallbackVerdict]
  split
  case isTrue hbad =>
    refine iff_of_false (by simp [Verdict.refusal]) ?_
    rintro ⟨hdomain, hidentity, hlive, -⟩
    rcases hbad with hbad | hbad | hbad
    · exact hdomain hbad
    · exact hidentity hbad
    · exact absurd hlive (Nat.not_lt.mpr hbad)
  case isFalse hgood =>
    simp only [not_or, Nat.not_le] at hgood
    split
    case isTrue hsolved => exact iff_of_true rfl ⟨hgood.1, hgood.2.1, hgood.2.2, hsolved⟩
    case isFalse hwrong => exact iff_of_false (by simp [Verdict.refusal]) fun h => hwrong h.2.2.2

theorem judge_fallbackToken (challenge : Challenge) (now now' : Time)
    (hsalt : '|' ∉ record.salt.toList) (hdifficulty : record.difficulty < 256)
    (hdomain : q.domain = record.domain) (hidentity : q.identity = record.identity)
    (nonce : Option Nat) :
    judge sha256 hmac urlDecode challenge q (fallbackToken hmac challenge record now) nonce none
      now' = .done (fallbackVerdict sha256 challenge record now now' (nonce.getD u64Max)) := by
  have hparsed := parseStateless_stateless hmac challenge.secret record.domain record.identity
    record.target challenge.tokenTtl now now' hsalt hdifficulty
  simp only [judge, none_or, fallbackToken, hdomain, hidentity, hparsed, fallbackVerdict]
  split
  case h_1 hnone =>
    split at hnone
    case isTrue hbad => rw [if_pos hbad]
    case isFalse => cases hnone
  case h_2 found hfound =>
    split at hfound
    case isTrue => cases hfound
    case isFalse hgood =>
      cases hfound
      rw [if_neg hgood]
      cases powSolved sha256 record.salt (nonce.getD u64Max) record.difficulty with
      | false => simp
      | true => simp [signedFingerprint]

/-- A signed token is verified in two steps, and the third one finds it done. -/
theorem fallback_done (maxDomains maxEntries : Nat) (earlier : List Event)
    {record : ChallengeRecord} {v : Visit} (hsalt : '|' ∉ record.salt.toList)
    (hdifficulty : record.difficulty < 256) (hown : v.Own sha256 hmac urlDecode
      (final (step sha256 hmac urlDecode) (System.start maxDomains maxEntries) earlier) j)
    (hanswers : Answers sha256 hmac urlDecode challenge record
      (fallbackToken hmac challenge record now) q) :
    (final (step sha256 hmac urlDecode) (System.start maxDomains maxEntries)
      (earlier ++ v.events challenge q j)).threads[j]? = some (.verifying challenge q
        (.done (fallbackVerdict sha256 challenge record now v.t₂
          ((readQuery q.query).2.getD u64Max)))) := by
  have hjudge := judge_fallbackToken sha256 hmac urlDecode challenge now v.t₂ hsalt hdifficulty
    hanswers.domain hanswers.identity (readQuery q.query).2
  have habsent : ∀ es domain identity t, (final (step sha256 hmac urlDecode)
      (System.start maxDomains maxEntries) es).store.get (fallbackToken hmac challenge record now)
        domain identity t = none := by
    intro es domain identity t
    rw [TokenStore.get]
    cases hlookup : (final (step sha256 hmac urlDecode) (System.start maxDomains maxEntries)
        es).store.inner.lookup (fallbackToken hmac challenge record now) with
    | none => rfl
    | some r =>
      exact absurd (hex_of_lookup sha256 hmac urlDecode hlookup) (not_hex_fallbackToken hmac)
  have hthread := thread_arrives sha256 hmac urlDecode (final (step sha256 hmac urlDecode)
    (final (step sha256 hmac urlDecode) (System.start maxDomains maxEntries) earlier) v.waiting)
    challenge q
  rw [← hown.thread] at hthread
  have hthread₁ := thread_run sha256 hmac urlDecode hthread hown.first
  have hfetch := thread_own sha256 hmac urlDecode hthread₁ v.t₁
  have hstate : final (step sha256 hmac urlDecode) (step sha256 hmac urlDecode
      (final (step sha256 hmac urlDecode) (final (step sha256 hmac urlDecode)
        (System.start maxDomains maxEntries) earlier) v.waiting) (.verify challenge q)).2 v.first =
      final (step sha256 hmac urlDecode) (System.start maxDomains maxEntries)
        (earlier ++ (v.waiting ++ .verify challenge q :: v.first)) := by
    rw [final_append, final_append, final_cons]
  simp only [verifyStep, hanswers.token] at hfetch
  nth_rewrite 2 [hstate] at hfetch
  rw [habsent] at hfetch
  have hthread₂ := thread_run sha256 hmac urlDecode hfetch hown.second
  have hjudged := thread_own sha256 hmac urlDecode hthread₂ v.t₂
  simp only [verifyStep, hjudge] at hjudged
  have hthread₃ := thread_run sha256 hmac urlDecode hjudged hown.third
  have hdone := thread_own sha256 hmac urlDecode hthread₃ v.t₃
  simp only [Visit.events, final_append, final_cons, final_nil]
  exact hdone

/-! ## What is issued can be answered -/

/-- A challenge that is served at all is stored when there is room, and signed otherwise. -/
theorem served_cases {store : TokenStore} (h : servedPage hmac challenge action pending now'
      (store.issue pending.token pending.record now).1 = some page) :
    (store.entriesFull pending.token now = false ∧
      (store.issue pending.token pending.record now).1 = .ok () ∧
      page = pageFor action pending.record pending.token) ∨
    (store.entriesFull pending.token now = true ∧
      page = pageFor action pending.record (fallbackToken hmac challenge pending.record now')) := by
  simp only [TokenStore.issue, TokenStore.entriesFull] at h ⊢
  split at h
  · cases h
  case isFalse hdomains =>
    rw [if_neg hdomains]
    split at h
    case isTrue hentries => exact .inr ⟨hentries, (Option.some.inj h).symm⟩
    case isFalse hentries =>
      refine .inl ⟨Bool.eq_false_iff.mpr hentries, ?_, (Option.some.inj h).symm⟩
      rw [if_neg hentries]

theorem hexEncode_digest (hdigest : ∀ m, (sha256 m).length = 32) (m : Bytes) :
    hexEncode (sha256 m) ≠ [] := by
  intro hempty
  have hnil : sha256 m = [] := hexEncode_injective hempty
  have hlength := hdigest m
  rw [hnil] at hlength
  cases hlength

/-- What every record of a challenge is like. -/
structure WellIssued (record : ChallengeRecord) : Prop where
  difficulty : 0 < record.difficulty ∧ record.difficulty < 256
  kind : record.kind = "pow" ∨ record.kind = "silent"
  salt : record.salt ≠ ""
  separator : '|' ∉ record.salt.toList
  attempts : record.attempts = 0

theorem wellIssued (hdigest : ∀ m, (sha256 m).length = 32) (hvalid : Validated challenge)
    (request : IssueRequest) (number : Nat) :
    WellIssued (issueRecord sha256 challenge request number) where
  difficulty := by
    have hrange := hvalid.difficulty
    simp only [issueRecord]
    omega
  kind := by
    simp only [issueRecord]
    generalize (if 0 < request.level ∧ request.level % 2 = 1 then ChallengeKind.silent
      else challenge.kind) = kind
    cases kind
    · exact .inl rfl
    · exact .inr rfl
  salt := by
    intro hempty
    have hnil := congrArg String.toList hempty
    simp [issueRecord, tokenId, hexEncode_digest sha256 hdigest] at hnil
  separator := by
    simp only [issueRecord, tokenId, String.toList_ofList]
    exact fun hmem => not_mem_hexEncode (by decide) (mem_of_mem_take hmem)
  attempts := rfl

theorem token_pageFor : (pageFor action record t).token = t := by
  rw [pageFor]
  split <;> rfl

/-- The solver of a page for such a record ends, if there is a number to find. -/
theorem solve_pageFor (hdigest : ∀ m, (sha256 m).length = 32) (hrecord : WellIssued record)
    (ht : t ≠ "") (hscript : (pageFor action record t).script = .powSolver)
    (h : ∃ k ≤ maxSafe, powSolved sha256 (pageFor action record t).salt k
      (pageFor action record t).difficulty = true) :
    ∃ fuel nonce, solve sha256 fuel (pageFor action record t) = some nonce := by
  by_cases hkind : record.kind = "pow"
  · rw [pageFor, if_pos hkind] at h ⊢
    exact solve_complete sha256 hdigest hrecord.salt ht hrecord.difficulty h
  · rw [pageFor, if_neg hkind] at hscript
    cases hscript

/-- The proof the record asks for, under the number a form has. -/
theorem Answers.proof_iff (h : Answers sha256 hmac urlDecode challenge record t q) :
    powSolved sha256 record.salt ((readQuery q.query).2.getD u64Max) record.difficulty = true ↔
      (record.kind = "pow" ∨ powSolved sha256 record.salt u64Max record.difficulty = true) := by
  by_cases hkind : record.kind = "pow"
  · simp [h.proof hkind, hkind]
  · simp [h.blank hkind, hkind]

/-- What a run must leave to a client that answers: its token is not used by others, does not
run out of attempts, and does not expire. -/
structure Visit.Fair (v : Visit) (earlier : List Event) (s : System) (challenge : Challenge)
    (q : VerifyRequest) (j : Nat) (t : String) (expiresAt : Time) : Prop where
  clock : ∀ k now, Event.advance k now ∈ v.events challenge q j → now < expiresAt
  unused : tally (others j (accepted t)) (step sha256 hmac urlDecode) s (v.events challenge q j) = 0
  attempts : ∀ c q', Event.verify c q' ∈ earlier ++ v.events challenge q j →
    (readQuery q'.query).1 = some t →
    tally (others j (failures t)) (step sha256 hmac urlDecode) s (v.events challenge q j) <
      c.maxAttempts

/-- The store has room for the challenge; or it has none, the challenge is one of work (or the
number a missing one is read as happens to solve it), no name in it has the separator of signed
tokens, and the answer comes before the whole second the signed token ends in. -/
def Answerable (challenge : Challenge) (pending : PendingIssue) (store : TokenStore)
    (now now' t₂ : Time) : Prop :=
  store.entriesFull pending.token now = false ∨
    ('|' ∉ pending.record.domain.toList ∧ '|' ∉ pending.record.identity.toList ∧
      t₂ / nanosPerSec < statelessExpiry now' challenge.tokenTtl ∧
      (pending.record.kind = "pow" ∨
        powSolved sha256 pending.record.salt u64Max pending.record.difficulty = true))

instance (challenge : Challenge) (pending : PendingIssue) (store : TokenStore) (now now' t₂ : Time) :
    Decidable (Answerable sha256 challenge pending store now now' t₂) :=
  inferInstanceAs (Decidable (_ ∨ _))

/-- A client that sends what the script of its page computes, in time and within the attempts,
is accepted, whatever other requests do in between, exactly if the challenge is answerable. The
solver ends if there is a number to find. -/
theorem served_challenge_accepted_iff (hdigest : ∀ m, (sha256 m).length = 32)
    (hdecode : ∀ text, urlDecode (String.ofList (encodeURIComponent text)) = some text)
    (maxDomains maxEntries : Nat) (earlier : List Event) (challenge : Challenge)
    (hvalid : Validated challenge) (request : IssueRequest) (number i : Nat) (now now' : Time)
    (action : String) (page : Page) (s : System)
    (hs : s = final (step sha256 hmac urlDecode) (System.start maxDomains maxEntries) earlier)
    (pending : PendingIssue) (hpending : pending = pendingIssue sha256 challenge request number)
    (hthread : s.threads[i]? = some (.issuing pending))
    (hserved : servedPage hmac challenge action pending now'
      (s.store.issue pending.token pending.record now).1 = some page) :
    (page.script = .powSolver →
      (∃ k ≤ maxSafe, powSolved sha256 page.salt k page.difficulty = true) →
      ∃ fuel nonce, solve sha256 fuel page = some nonce) ∧
    ∀ q, Submits sha256 page request.domain request.identity q → ∀ (v : Visit) (j : Nat),
      v.Own sha256 hmac urlDecode (step sha256 hmac urlDecode s (.advance i now)).2 j →
      v.Fair sha256 hmac urlDecode earlier (step sha256 hmac urlDecode s (.advance i now)).2
        challenge q j page.token pending.record.expiresAt →
      (draws (outputs (step sha256 hmac urlDecode) (System.start maxDomains maxEntries)
        (earlier ++ .advance i now :: v.events challenge q j))).length ≤ 2 ^ 64 →
      Distinct sha256 (draws (outputs (step sha256 hmac urlDecode)
        (System.start maxDomains maxEntries)
        (earlier ++ .advance i now :: v.events challenge q j))) →
      ∃ verdict, (final (step sha256 hmac urlDecode) (System.start maxDomains maxEntries)
          (earlier ++ .advance i now :: v.events challenge q j)).threads[j]? =
            some (.verifying challenge q (.done verdict)) ∧
        (verdict.refusal = none ↔ Answerable sha256 challenge pending s.store now now' v.t₂) := by
  subst hs hpending
  have hrecord := wellIssued sha256 hdigest hvalid request number
  have hhex : Hex (pendingIssue sha256 challenge request number).token := ⟨_, rfl⟩
  rcases served_cases hmac hserved with ⟨hroom, hok, rfl⟩ | ⟨hfull, rfl⟩
  · refine ⟨solve_pageFor sha256 hdigest hrecord fun hempty => ?_, ?_⟩
    · exact hexEncode_digest sha256 hdigest _ (String.ofList_injective hempty)
    intro q hsubmits v j hown hfair hfew hdistinct
    have hanswers := submits_answers sha256 hmac urlDecode hdigest hdecode challenge
      (plain_hex hhex) hrecord.difficulty.2 hrecord.kind hsubmits
    have hstored := congrArg Prod.fst (step_issued sha256 hmac urlDecode hthread hok)
    have honce := stored_once hstored hfew hdistinct
    have hunissued := unissued_run (unissued_start maxDomains maxEntries)
      earlier fun r => (honce r).1
    rw [token_pageFor] at hfair
    have hstands := standing_issued sha256 hmac urlDecode hunissued hthread
      hrecord.attempts hok fun c q' phase hmem hnamed => by
        rcases verifying_origin hmem with ⟨_, hstart⟩ | hevent
        · exact absurd hstart not_mem_nil
        · exact hfair.attempts c q' (mem_append_left _ hevent) hnamed
    have hcalm : Calm sha256 hmac urlDecode j (pendingIssue sha256 challenge request number).token
        (pendingIssue sha256 challenge request number).record.expiresAt _ _ _
        (v.events challenge q j) :=
      ⟨hfair.clock, fun c q' hmem => hfair.attempts c q' (mem_append_right _ hmem),
        Nat.le_refl _, hfair.unused, fun r => (honce r).2⟩
    obtain ⟨r, fp, haccepted⟩ := standing_accepted sha256 hmac urlDecode hstands hown hcalm hanswers
    refine ⟨.solved r true fp, ?_, iff_of_true rfl (.inl hroom)⟩
    rw [final_append, final_cons]
    exact haccepted
  · refine ⟨solve_pageFor sha256 hdigest hrecord fun hempty => ?_, ?_⟩
    · exact not_hex_fallbackToken hmac ⟨[], hempty⟩
    intro q hsubmits v j hown hfair hfew hdistinct
    have hanswers := submits_answers sha256 hmac urlDecode hdigest hdecode challenge
      (plain_fallbackToken hmac challenge _ now') hrecord.difficulty.2 hrecord.kind hsubmits
    have hstate : (step sha256 hmac urlDecode (final (step sha256 hmac urlDecode)
        (System.start maxDomains maxEntries) earlier) (.advance i now)).2 =
        final (step sha256 hmac urlDecode) (System.start maxDomains maxEntries)
          (earlier ++ [.advance i now]) := by
      rw [final_append, final_cons, final_nil]
    rw [hstate] at hown
    have hverdict := fallback_done sha256 hmac urlDecode _ _ _ hrecord.separator
      hrecord.difficulty.2 hown hanswers
    rw [append_assoc, singleton_append] at hverdict
    refine ⟨_, hverdict, (fallbackVerdict_refusal sha256 ..).trans ?_⟩
    rw [hanswers.proof_iff, Answerable, hfull]
    simp [pendingIssue]

end served

/-! ## A full store -/

/-- HMAC-SHA-256 on the two texts the runs below sign with their secret. -/
def fullTag (_ : Bytes) : Bytes → Bytes :=
  tabulated [
    (utf8 "300|1|a.test|203.0.113.2|0f7440db026bf2dca785fb57|/b",
      "7643e85c3b1d5711bbf8d039bc85d2c663e47f6ac2e9ce6a418cf7456a05b5e2"),
    (utf8 "300|2|a.test|203.0.113.2|0f7440db026bf2dca785fb57|/b",
      "f9d16fdb36e7aa5b1ffcf1aedc40eae6ee2d1b49afb1a1b88d6764ab24b109bd")]

/-- A client of some tier of escalation. -/
def lateRequest (level : Nat) : IssueRequest := ⟨"a.test", "203.0.113.2", "/b", level, 1⟩

/-- A store for one record has one when a second challenge is about to be issued. -/
def untilFull (level : Nat) : List Event :=
  [.issue testChallenge ⟨"a.test", "203.0.113.1", "/a", 0, 0⟩, .advance 0 0,
    .issue testChallenge (lateRequest level)]

def fullSystem (level : Nat) : System :=
  final (step testDigest fullTag percentDecode) (System.start 8 1) (untilFull level)

def latePending (level : Nat) : PendingIssue := pendingIssue testDigest testChallenge (lateRequest level) 2

def latePage (level : Nat) : Page :=
  pageFor "/.pingap/challenge/verify" (latePending level).record
    (fallbackToken fullTag testChallenge (latePending level).record 2)

theorem issue_late : ∀ level < 2,
    ((fullSystem level).store.issue (latePending level).token (latePending level).record 2).1 =
      .error .fullEntries := by
  decide +kernel

def promptVisit : Visit := ⟨[], [], [], [], 3, 3, 3⟩

theorem own_prompt (level : Nat) : promptVisit.Own testDigest fullTag percentDecode
    (step testDigest fullTag percentDecode (fullSystem level) (.advance 1 2)).2 2 where
  thread := rfl
  waiting := fun _ => not_mem_nil
  first := fun _ => not_mem_nil
  second := fun _ => not_mem_nil
  third := fun _ => not_mem_nil

/-- The proof of work of the first tier. -/
def powAnswer : VerifyRequest := ⟨"a.test", "203.0.113.2", (latePage 0).query "2", none⟩

/-- The fingerprint of the second. -/
def silentAnswer : VerifyRequest := ⟨"a.test", "203.0.113.2", (latePage 1).query "",
  some (fingerprintHeader (latePage 1) "Mozilla/5.0|en-US|1920x1080")⟩

theorem submits_pow : Submits testDigest (latePage 0) "a.test" "203.0.113.2" powAnswer := by
  have hsolve : solve testDigest 3 (latePage 0) = some 2 := by decide +kernel
  exact .pow 3 2 none (by decide +kernel) hsolve

theorem submits_silent : Submits testDigest (latePage 1) "a.test" "203.0.113.2" silentAnswer :=
  .silent "Mozilla/5.0|en-US|1920x1080" (by decide +kernel)

theorem fair_prompt (level : Nat) (q : VerifyRequest) :
    promptVisit.Fair testDigest fullTag percentDecode (untilFull level)
      (step testDigest fullTag percentDecode (fullSystem level) (.advance 1 2)).2 testChallenge q 2 t
      (latePending level).record.expiresAt where
  clock := by
    have hlive : 3 < 1 + 300 * nanosPerSec := by decide
    intro k now hmem
    simp [promptVisit, Visit.events] at hmem
    rw [hmem.2]
    exact hlive
  unused := by simp [promptVisit, Visit.events, tally, others, accepted, step]
  attempts := by
    have hnone : tally (others 2 (failures t)) (step testDigest fullTag percentDecode)
        (step testDigest fullTag percentDecode (fullSystem level) (.advance 1 2)).2
        (promptVisit.events testChallenge q 2) = 0 := by
      simp [promptVisit, Visit.events, tally, others, failures, step]
    intro c q' hmem _
    simp [promptVisit, Visit.events, untilFull] at hmem
    rw [hmem.1, hnone]
    decide

/-- With a full store the proof of work of the first tier is still accepted. -/
theorem served_challenge_accepted_iff_full :
    Answerable testDigest testChallenge (latePending 0) (fullSystem 0).store 2 2 3 ∧
    ∃ verdict, (final (step testDigest fullTag percentDecode) (System.start 8 1)
        (untilFull 0 ++ .advance 1 2 :: promptVisit.events testChallenge powAnswer 2)).threads[2]? =
          some (.verifying testChallenge powAnswer (.done verdict)) ∧
      verdict.refusal = none := by
  have hvalid : Validated testChallenge := ⟨by decide, by decide, by decide, by decide⟩
  have hanswerable : Answerable testDigest testChallenge (latePending 0) (fullSystem 0).store 2 2 3 := by
    decide +kernel
  have hserved : servedPage fullTag testChallenge "/.pingap/challenge/verify" (latePending 0) 2
      ((fullSystem 0).store.issue (latePending 0).token (latePending 0).record 2).1 =
        some (latePage 0) := by
    rw [issue_late 0 (by decide)]
    rfl
  have hdraws : draws (outputs (step testDigest fullTag percentDecode) (System.start 8 1)
      (untilFull 0 ++ .advance 1 2 :: promptVisit.events testChallenge powAnswer 2)) =
        [⟨utf8 "test-secret", 1, "/a"⟩, ⟨utf8 "test-secret", 2, "/b"⟩] := by
    have huntil : draws (outputs (step testDigest fullTag percentDecode) (System.start 8 1)
        (untilFull 0)) = [⟨utf8 "test-secret", 1, "/a"⟩, ⟨utf8 "test-secret", 2, "/b"⟩] := by
      decide +kernel
    rw [outputs_append, draws_append, huntil]
    exact congrArg _ (draws_of_no_issue (fullSystem 0)
      (.advance 1 2 :: promptVisit.events testChallenge powAnswer 2)
      (by simp [promptVisit, Visit.events]))
  obtain ⟨verdict, hdone, haccepted⟩ := (served_challenge_accepted_iff testDigest fullTag
    percentDecode length_testDigest percentDecode_encodeURIComponent 8 1 (untilFull 0) testChallenge hvalid
    (lateRequest 0) 2 1 2 2 "/.pingap/challenge/verify" (latePage 0) (fullSystem 0) rfl
    (latePending 0) rfl rfl hserved).2 powAnswer submits_pow promptVisit 2 (own_prompt 0)
    (fair_prompt 0 powAnswer) (hdraws ▸ by decide)
    (hdraws ▸ ⟨by decide +kernel, by decide +kernel⟩)
  exact ⟨hanswerable, verdict, hdone, haccepted.mpr hanswerable⟩

/-- The silent page of the second tier is refused by a full store: its token is read back as a
proof of work, and the page has none. -/
theorem silent_page_refused_full :
    (fullSystem 1).threads[1]? = some (.issuing (latePending 1)) ∧
    servedPage fullTag testChallenge "/.pingap/challenge/verify" (latePending 1) 2
      ((fullSystem 1).store.issue (latePending 1).token (latePending 1).record 2).1 =
        some (latePage 1) ∧
    Submits testDigest (latePage 1) "a.test" "203.0.113.2" silentAnswer ∧
    promptVisit.Own testDigest fullTag percentDecode
      (step testDigest fullTag percentDecode (fullSystem 1) (.advance 1 2)).2 2 ∧
    promptVisit.Fair testDigest fullTag percentDecode (untilFull 1)
      (step testDigest fullTag percentDecode (fullSystem 1) (.advance 1 2)).2 testChallenge
      silentAnswer 2 (latePage 1).token (latePending 1).record.expiresAt ∧
    (final (step testDigest fullTag percentDecode) (System.start 8 1)
      (untilFull 1 ++ .advance 1 2 :: promptVisit.events testChallenge silentAnswer 2)).threads[2]? =
        some (.verifying testChallenge silentAnswer (.done .proofFailed)) := by
  have hanswers := submits_answers testDigest fullTag percentDecode length_testDigest
    percentDecode_encodeURIComponent testChallenge (plain_fallbackToken fullTag testChallenge
      (latePending 1).record 2) (by decide +kernel) (by decide +kernel) submits_silent
  have hdone := fallback_done testDigest fullTag percentDecode 8 1 (untilFull 1 ++ [.advance 1 2])
    (by decide +kernel) (by decide +kernel) (own_prompt 1) hanswers
  have hverdict : fallbackVerdict testDigest testChallenge (latePending 1).record 2 3 u64Max =
      .proofFailed := by decide +kernel
  rw [hanswers.blank (by decide +kernel), getD_none, promptVisit, hverdict] at hdone
  refine ⟨rfl, ?_, submits_silent, own_prompt 1, fair_prompt 1 silentAnswer, hdone⟩
  rw [issue_late 1 (by decide)]
  rfl

end ChallengeSolvable
