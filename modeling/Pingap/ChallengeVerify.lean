import Pingap.ChallengeToken
import Pingap.Trace

/-!
# Issuing and verifying challenges at the same time

Every operation on the token store is atomic, and the store is shared by all requests
of the process. A request is a thread that stands between two such operations; a run
is any order in which the threads take their steps, each at the time its clock shows.
-/

namespace ChallengeVerify

open MachineArith ChallengeToken
open Utf8 (Bytes)

/-! ## Requests -/

inductive ChallengeKind where
  | pow
  | silent
deriving DecidableEq, Repr

def ChallengeKind.name : ChallengeKind → String
  | .pow => "pow"
  | .silent => "silent"

/-- An entry of the challenge plugin, as far as issuing and verifying read it. -/
structure Challenge where
  secret : Bytes
  kind : ChallengeKind
  difficulty : Nat
  maxAttempts : Nat
  tokenTtl : Duration
deriving DecidableEq

/-- The entry of the runs shown in other modules. -/
def testChallenge : Challenge where
  secret := utf8 "test-secret"
  kind := .pow
  difficulty := 1
  maxAttempts := 3
  tokenTtl := 300 * nanosPerSec

structure VerifyRequest where
  domain : String
  identity : String
  query : String
  cookie : Option String
deriving DecidableEq, Repr

/-- The last token and the last nonce a query names. -/
def readQuery (query : String) : Option String × Option Nat :=
  (query.toList.splitOn '&').foldl (fun found part =>
    match Text.splitOnce '=' part with
    | none => found
    | some (key, value) =>
      if key = "challenge_token".toList then (some (String.ofList value), found.2)
      else if key = "nonce".toList then (found.1, Text.parseU64 value)
      else found) (none, none)

def namedCookie (header : Option String) (name : String) : Option String :=
  header.bind fun h => (h.toList.splitOn ';').findSome? fun part =>
    (Text.stripStart (name.toList ++ ['=']) (Text.trim part)).map String.ofList

/-- What is left to do for a challenge that is being issued. -/
structure PendingIssue where
  token : String
  record : ChallengeRecord
deriving DecidableEq

inductive Verdict where
  | missingToken
  | invalidToken
  | proofFailed
  | fingerprintMissing
  | tokenConsumed
  | solved (record : ChallengeRecord) (stateful : Bool) (fingerprint : Option String)
deriving DecidableEq, Repr

/-- The status and text of a verification that fails. -/
def Verdict.refusal : Verdict → Option (Nat × String)
  | .missingToken => some (400, "missing challenge token")
  | .invalidToken => some (403, "Invalid or expired challenge")
  | .proofFailed => some (403, "Challenge proof failed")
  | .fingerprintMissing => some (403, "Missing silent challenge fingerprint")
  | .tokenConsumed => some (403, "Challenge token was already consumed")
  | .solved .. => none

/-- A verification between two operations on the store. -/
inductive Phase where
  | started
  | fetched (token : String) (nonce : Option Nat) (stateful : Option ChallengeRecord)
  | failing (token : String)
  | removing (token : String)
  | taking (token : String) (record : ChallengeRecord) (fingerprint : Option String)
  | done (verdict : Verdict)
deriving DecidableEq, Repr

inductive Thread where
  | issuing (pending : PendingIssue)
  | issued (answer : Except TokenError Unit)
  | verifying (challenge : Challenge) (request : VerifyRequest) (phase : Phase)
deriving DecidableEq

section verify

variable (sha256 : Bytes → Bytes) (hmac : Bytes → Bytes → Bytes)
  (urlDecode : String → Option String)

/-- `fingerprint_cookie`: the fingerprint signed for its token. -/
def fingerprintCookie (secret : Bytes) (token fingerprint : String) : String :=
  String.ofList (token.toList ++ '.' ::
    Text.hexEncode (hmac secret (utf8 token ++ utf8 "|" ++ utf8 fingerprint)))

/-- The signed fingerprint a silent challenge asks for: none needed, missing, or there. -/
def signedFingerprint (challenge : Challenge) (request : VerifyRequest) (token : String)
    (record : ChallengeRecord) : Option (Option String) :=
  if record.kind = "silent" then
    ((namedCookie request.cookie "pingap_challenge_fp").bind urlDecode).bind fun raw =>
      (Text.stripStart (token.toList ++ ['|']) raw.toList).map fun fingerprint =>
        some (fingerprintCookie hmac challenge.secret token (String.ofList fingerprint))
  else some none

/-- What a verification does between reading the record and its next operation. -/
def judge (challenge : Challenge) (request : VerifyRequest) (token : String) (nonce : Option Nat)
    (stateful : Option ChallengeRecord) (now : Time) : Phase :=
  match stateful.or (parseStateless hmac challenge.secret token request.domain request.identity
      now) with
  | none => .done .invalidToken
  | some record =>
    if record.kind = "pow" ∧
        powSolved sha256 record.salt (nonce.getD u64Max) record.difficulty = false then
      if stateful.isSome then .failing token else .done .proofFailed
    else
      match signedFingerprint hmac urlDecode challenge request token record with
      | none => .done .fingerprintMissing
      | some fingerprint =>
        if stateful.isSome then .taking token record fingerprint
        else .done (.solved record false fingerprint)

def verifyStep (challenge : Challenge) (request : VerifyRequest) (now : Time) (store : TokenStore) :
    Phase → Phase × TokenStore
  | .started =>
    match (readQuery request.query).1 with
    | none => (.done .missingToken, store)
    | some token =>
      (.fetched token (readQuery request.query).2
        (store.get token request.domain request.identity now), store)
  | .fetched token nonce stateful =>
    (judge sha256 hmac urlDecode challenge request token nonce stateful now, store)
  | .failing token =>
    let (attempts, store) := store.incrementAttempts token
    (if challenge.maxAttempts ≤ attempts.getD challenge.maxAttempts then .removing token
      else .done .proofFailed, store)
  | .removing token => (.done .proofFailed, (store.remove token).2)
  | .taking token record fingerprint =>
    let (taken, store) := store.take token request.domain request.identity now
    (.done (if taken.isNone then .tokenConsumed else .solved record true fingerprint), store)
  | .done verdict => (.done verdict, store)

end verify

/-! ## The process -/

structure System where
  store : TokenStore
  sequence : Nat
  threads : List Thread

def System.start (maxDomains maxEntries : Nat) : System :=
  ⟨TokenStore.withLimits maxDomains maxEntries, 1, []⟩

/-- What a challenge is issued for: the client, where it was going, how hard a
challenge it is to get, and when. -/
structure IssueRequest where
  domain : String
  identity : String
  target : String
  level : Nat
  now : Time

/-- The number a challenge drew, with what its token is made of. -/
structure Draw where
  secret : Bytes
  sequence : Nat
  target : String
deriving DecidableEq, Repr

/-- A request arrives, or a thread takes its next step. -/
inductive Event where
  | issue (challenge : Challenge) (request : IssueRequest)
  | verify (challenge : Challenge) (request : VerifyRequest)
  | advance (thread : Nat) (now : Time)

/-- What a step did that the rest of the process can see. -/
inductive Effect where
  | quiet
  | drawn (draw : Draw)
  | stored (token : String) (record : ChallengeRecord)
  | ended (request : VerifyRequest) (token : String) (verdict : Verdict) (now : Time)
deriving DecidableEq, Repr

section process

variable (sha256 : Bytes → Bytes) (hmac : Bytes → Bytes → Bytes)
  (urlDecode : String → Option String)

/-- The record of a challenge. An odd level asks for a silent one. -/
def issueRecord (challenge : Challenge) (request : IssueRequest) (sequence : Nat) :
    ChallengeRecord where
  domain := request.domain
  identity := request.identity
  salt := String.ofList ((tokenId sha256 challenge.secret ((sequence + 1) % 2 ^ 64)
    request.domain).toList.take 24)
  difficulty := min (min (challenge.difficulty + request.level) 255) 10
  target := request.target
  kind := (if 0 < request.level ∧ request.level % 2 = 1 then .silent else challenge.kind :
    ChallengeKind).name
  attempts := 0
  expiresAt := request.now + challenge.tokenTtl

def Draw.token (d : Draw) : String := tokenId sha256 d.secret d.sequence d.target

/-- A challenge draws its number and fixes its record. Whether its client is refused as
looping comes before the store is asked: such a thread takes no further step. -/
def beginIssue (challenge : Challenge) (request : IssueRequest) (s : System) : Effect × System :=
  let draw : Draw := ⟨challenge.secret, s.sequence, request.target⟩
  (.drawn draw, {
    store := s.store
    sequence := (s.sequence + 1) % 2 ^ 64
    threads := s.threads ++ [.issuing {
      token := draw.token sha256
      record := issueRecord sha256 challenge request s.sequence }] })

/-- The token a verification is about, once it has read it. -/
def Phase.token : Phase → String
  | .fetched token _ _ => token
  | .failing token => token
  | .removing token => token
  | .taking token _ _ => token
  | _ => ""

def advanceThread (now : Time) (store : TokenStore) : Thread → Effect × Thread × TokenStore
  | .issuing pending =>
    match store.issue pending.token pending.record now with
    | (.ok (), store) => (.stored pending.token pending.record, .issued (.ok ()), store)
    | (.error e, store) => (.quiet, .issued (.error e), store)
  | .issued answer => (.quiet, .issued answer, store)
  | .verifying challenge request phase =>
    match verifyStep sha256 hmac urlDecode challenge request now store phase with
    | (.done verdict, store) =>
      (if phase = .done verdict then .quiet else .ended request phase.token verdict now,
        .verifying challenge request (.done verdict), store)
    | (phase, store) => (.quiet, .verifying challenge request phase, store)

def step (s : System) : Event → Effect × System
  | .issue challenge request => beginIssue sha256 challenge request s
  | .verify challenge request =>
    (.quiet, { s with threads := s.threads ++ [.verifying challenge request .started] })
  | .advance i now =>
    match s.threads[i]? with
    | none => (.quiet, s)
    | some thread =>
      let (effect, thread, store) := advanceThread sha256 hmac urlDecode now s.store thread
      (effect, { s with store := store, threads := s.threads.set i thread })

end process

end ChallengeVerify
