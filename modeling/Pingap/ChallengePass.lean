import Pingap.ChallengeSingleUse
import Pingap.ChallengeTier

/-!
# Passes

A client that has solved a challenge gets a pass, a cookie that is signed with the
secret of the entry. The same secret signs two other texts, the stateless token of a
full store and the fingerprint of a silent challenge, and a client chooses much of what
they hold. The three are told apart by where their separators stand: a pass that is
accepted was signed as a pass, by a verification that succeeded.
-/

namespace ChallengePass

open MachineArith ChallengeToken ChallengeTier List Option Text
open ChallengeVerify hiding System Thread Event Effect step
open Utf8 (Bytes)

/-! ## What is signed -/

/-- A name without the separator. -/
def Plain (name : String) : Prop := '|' ∉ name.toList

section messages

variable (sha256 : Bytes → Bytes) (hmac : Bytes → Bytes → Bytes)

def passPayload (secret : Bytes) (expires : Nat) (domain identity : String) : String :=
  "|".intercalate [String.ofList (keyId sha256 secret), toString expires, domain, identity]

def passExpiry (now : Time) (ttl : Duration) : Nat :=
  satAdd64 (now / nanosPerSec) (ttl / nanosPerSec)

def sign (secret : Bytes) (domain identity : String) (ttl : Duration) (now : Time) : String :=
  let payload := passPayload sha256 secret (passExpiry now ttl) domain identity
  String.ofList ("v1.".toList ++ payload.toList ++ '.' ::
    Text.hexEncode (hmac secret (utf8 payload)))

def fingerprintMessage (token fingerprint : String) : Bytes :=
  utf8 token ++ utf8 "|" ++ utf8 fingerprint

end messages

theorem utf8_injective (h : utf8 a = utf8 b) : a = b := by
  have hdecoded := congrArg Utf8.fromUtf8 h
  rw [fromUtf8_utf8, fromUtf8_utf8] at hdecoded
  exact Option.some.inj hdecoded

/-- Texts that are split at their first separator. -/
theorem append_sep_inj {c : Char} {a a' b b' : List Char} (ha : c ∉ a) (ha' : c ∉ a')
    (h : a ++ c :: b = a' ++ c :: b') : a = a' ∧ b = b' := by
  have hsplit := congrArg (splitOnce c) h
  rw [splitOnce_append ha, splitOnce_append ha'] at hsplit
  exact Prod.mk.inj (Option.some.inj hsplit)

section messages

variable {sha256 : Bytes → Bytes}

theorem not_mem_keyId (secret : Bytes) : '|' ∉ keyId sha256 secret := not_mem_hexEncode rfl

theorem toList_passPayload :
    (passPayload sha256 secret expires domain identity).toList =
      keyId sha256 secret ++ '|' :: ((toString expires).toList ++ '|' ::
        (domain.toList ++ '|' :: identity.toList)) := by
  have hjoined : passPayload sha256 secret expires domain identity =
      String.ofList (keyId sha256 secret) ++ "|" ++ toString expires ++ "|" ++ domain ++ "|" ++
        identity := rfl
  rw [hjoined]
  simp

theorem count_passPayload (secret : Bytes) (expires : Nat) (hdomain : Plain domain)
    (hidentity : Plain identity) :
    (passPayload sha256 secret expires domain identity).toList.count '|' = 3 := by
  have hdigits : '|' ∉ (toString expires).toList := not_mem_toString (by decide) expires
  rw [toList_passPayload, count_append, count_cons_self, count_append,
    count_cons_self, count_append, count_cons_self,
    count_eq_zero_of_not_mem (not_mem_keyId secret), count_eq_zero_of_not_mem hdigits,
    count_eq_zero_of_not_mem hdomain, count_eq_zero_of_not_mem hidentity]

/-- A pass names its second, its domain and its identity. -/
theorem passPayload_inj (hdomain : Plain domain) (hdomain' : Plain domain')
    (h : passPayload sha256 secret expires domain identity =
      passPayload sha256 secret' expires' domain' identity') :
    expires = expires' ∧ domain = domain' ∧ identity = identity' := by
  have hlist := congrArg String.toList h
  have hdigits : ∀ n : Nat, '|' ∉ (toString n).toList := not_mem_toString (by decide)
  rw [toList_passPayload, toList_passPayload] at hlist
  obtain ⟨-, hlist⟩ := append_sep_inj (not_mem_keyId secret) (not_mem_keyId secret') hlist
  obtain ⟨hexpires, hlist⟩ := append_sep_inj (hdigits expires) (hdigits expires') hlist
  obtain ⟨hnames, hidentities⟩ := append_sep_inj hdomain hdomain' hlist
  exact ⟨toString_injective (String.toList_inj.mp hexpires), String.toList_inj.mp hnames,
    String.toList_inj.mp hidentities⟩

/-- A stateless token has more separators than a pass. -/
theorem statelessPayload_ne_pass (hdomain : Plain domain) (hidentity : Plain identity) :
    statelessPayload expires' difficulty domain' identity' salt target ≠
      passPayload sha256 secret expires domain identity := by
  intro heq
  have hcount := congrArg (fun text : String => text.toList.count '|') heq
  simp only [count_passPayload secret expires hdomain hidentity, toList_statelessPayload,
    count_append, count_cons_self] at hcount
  omega

theorem length_hexEncode (bytes : Bytes) : (hexEncode bytes).length = 2 * bytes.length := by
  induction bytes with
  | nil => rfl
  | cons b bytes ih =>
    have hcons : (hexEncode (b :: bytes)).length = 2 + (hexEncode bytes).length := by
      simp [hexEncode]
      omega
    rw [hcons, ih, length_cons]
    omega

/-- A token that the store knows records under: the digits of a digest. -/
def TokenId (token : String) : Prop := token.toList.length = 64 ∧ '|' ∉ token.toList

/-- The first separator of a fingerprint stands behind its token, that of a pass behind the
shorter key. -/
theorem fingerprint_ne_pass (hsha : ∀ bytes, (sha256 bytes).length = 32) (htoken : TokenId token) :
    fingerprintMessage token fingerprint ≠
      utf8 (passPayload sha256 secret expires domain identity) := by
  intro heq
  have hmessage : fingerprintMessage token fingerprint = utf8 (token ++ "|" ++ fingerprint) := by
    rw [fingerprintMessage, utf8_append, utf8_append]
  rw [hmessage] at heq
  have hlist := congrArg String.toList (utf8_injective heq)
  have htext : (token ++ "|" ++ fingerprint).toList =
      token.toList ++ '|' :: fingerprint.toList := by simp
  rw [toList_passPayload, htext] at hlist
  obtain ⟨hkey, -⟩ := append_sep_inj htoken.2 (not_mem_keyId secret) hlist
  have hlength : (keyId sha256 secret).length = 12 := by
    rw [keyId, length_hexEncode, length_take, hsha]
    rfl
  have := htoken.1
  rw [hkey, hlength] at this
  cases this

end messages

/-! ## The process, with what it signs -/

structure Deployment where
  sha256 : Bytes → Bytes
  hmac : Bytes → Bytes → Bytes
  urlDecode : String → Option String
  maxDomains : Nat
  maxEntries : Nat
  loopThreshold : Nat
  length_sha256 : ∀ bytes, (sha256 bytes).length = 32

/-- What a text was signed for. A pass is for a client, until so long after a time. -/
inductive Purpose where
  | pass (domain identity : String) (ttl : Duration) (time : Time)
  | stateless
  | fingerprint
deriving DecidableEq, Repr

structure Signature where
  secret : Bytes
  message : Bytes
  purpose : Purpose
deriving DecidableEq, Repr

/-- The process, and how long the passes of each request's entry last. -/
structure Gate extends System where
  ttls : KeyedMap RequestId Duration

/-- A request arrives at an entry, or takes its next step; what that step signs, it signs at
a time of its own. -/
inductive Event where
  | arrive (n : Nat) (entry : Entry) (passTtl : Duration) (request : Request) (now : Time)
  | advance (id : RequestId) (clock : Clock) (signedAt : Time)

def Event.base : Event → ChallengeTier.Event
  | .arrive n entry _ request now => .arrive n entry request now
  | .advance id clock _ => .advance id clock

namespace Deployment

variable (d : Deployment)

def start : Gate where
  toSystem := System.new d.maxDomains d.maxEntries d.loopThreshold
  ttls := ∅

/-- The fingerprint that a client presents for a token. -/
def presentedFingerprint (request : VerifyRequest) (token : String) : Option String :=
  ((namedCookie request.cookie "pingap_challenge_fp").bind d.urlDecode).bind fun raw =>
    (Text.stripStart (token.toList ++ ['|']) raw.toList).map String.ofList

/-- The fingerprint that `verify` signs once it has the record. -/
def signedText (challenge : Challenge) (request : VerifyRequest) (token : String)
    (nonce : Option Nat) (stateful : Option ChallengeRecord) (now : Time) : Option String :=
  (stateful.or (parseStateless d.hmac challenge.secret token request.domain request.identity
    now)).bind fun record =>
      if record.kind = "pow" ∧
          powSolved d.sha256 record.salt (nonce.getD u64Max) record.difficulty = false then none
      else if record.kind = "silent" then d.presentedFingerprint request token
      else none

def signing (entry : Entry) (passTtl : Duration) (request : Request) (clock : Clock)
    (signedAt : Time) (s : State) : Stage → Option Signature
  | .issuing _ pending =>
    if (s.tokens.issue pending.token pending.record clock.system).1 = .error .fullEntries then
      some ⟨entry.secret, utf8 (statelessPayload (statelessExpiry signedAt entry.tokenTtl)
        pending.record.difficulty request.domain request.identity pending.record.salt
        request.target), .stateless⟩
    else none
  | .verifying (.fetched token nonce stateful) =>
    (d.signedText entry.toChallenge request.verify token nonce stateful clock.system).map
      fun fingerprint => ⟨entry.secret, fingerprintMessage token fingerprint, .fingerprint⟩
  | .lowering _ =>
    some ⟨entry.secret, utf8 (passPayload d.sha256 entry.secret (passExpiry signedAt passTtl)
      request.domain request.identity), .pass request.domain request.identity passTtl signedAt⟩
  | _ => none

def step (g : Gate) (e : Event) : Option Signature × Gate :=
  let system := (ChallengeTier.step d.sha256 d.hmac d.urlDecode g.toSystem e.base).2
  match e with
  | .arrive _ _ passTtl _ _ =>
    (none, { toSystem := system, ttls :=
      if (g.threads.lookup e.base.id).isNone then g.ttls.insert e.base.id passTtl else g.ttls })
  | .advance id clock signedAt =>
    ((g.threads.lookup id).bind fun thread =>
      d.signing thread.entry ((g.ttls.lookup id).getD 0) thread.request clock signedAt g.toState
        thread.stage, { g with toSystem := system })

def verify (entry : Entry) (request : Request) (now : Time) (tokens : TokenStore) (phase : Phase) :
    Phase :=
  (verifyStep d.sha256 d.hmac d.urlDecode entry.toChallenge request.verify now tokens phase).1

def next (entry : Entry) (request : Request) (clock : Clock) (s : State) (stage : Stage) : Stage :=
  (ChallengeTier.advance d.sha256 d.hmac d.urlDecode entry request clock s stage).2.1

/-! ## What a step does to a request -/

/-- Where the next step of a request takes it, if that is one of the stages below. -/
inductive Advances (entry : Entry) (request : Request) (clock : Clock) (s : State) :
    Stage → Stage → Prop where
  | issuing {level number : Nat} {pending : PendingIssue} :
    pending.token = (ticketAt d.sha256 entry request level number clock.system).draw.token d.sha256 →
    Advances entry request clock s (.counting level number) (.issuing level pending)
  | fetched {token : String} {nonce : Option Nat} {record : ChallengeRecord} :
    s.tokens.inner.lookup token = some record →
    Advances entry request clock s (.verifying .started)
      (.verifying (.fetched token nonce (some record)))
  | clearing {phase : Phase} {record : ChallengeRecord} {stateful : Bool}
    {fingerprint : Option String} :
    d.verify entry request clock.system s.tokens phase =
      .done (.solved record stateful fingerprint) →
    Advances entry request clock s (.verifying phase) (.clearing record)
  | lowering (record : ChallengeRecord) :
    Advances entry request clock s (.clearing record) (.lowering record)

/-- The stages a request comes to from certain others only. -/
def Late : Stage → Prop
  | .issuing _ _ => True
  | .verifying (.fetched _ _ (some _)) => True
  | .verifying (.done _) => True
  | .clearing _ => True
  | .lowering _ => True
  | _ => False

theorem judge_ne_fetched :
    judge d.sha256 d.hmac d.urlDecode challenge request token nonce stateful now ≠
      .fetched token' nonce' stateful' := by
  intro h
  simp only [judge] at h
  split at h
  · cases h
  split at h
  · split at h
    all_goals cases h
  split at h
  · cases h
  · split at h
    all_goals cases h

/-- A verification comes to know a record only by finding it in the store. -/
theorem verify_fetched
    (h : d.verify entry request now tokens phase = .fetched token nonce (some record)) :
    phase = .started ∧ tokens.inner.lookup token = some record := by
  cases phase with
  | started =>
    simp only [verify, verifyStep] at h
    split at h
    · cases h
    simp only [Phase.fetched.injEq] at h
    obtain ⟨rfl, -, hget⟩ := h
    exact ⟨rfl, (filter_eq_some_iff.mp hget).1⟩
  | fetched token' nonce' stateful => exact absurd h d.judge_ne_fetched
  | failing token' =>
    simp only [verify, verifyStep] at h
    split at h
    all_goals cases h
  | removing | taking | done => cases h

theorem settle_late (h : Late (settle phase)) :
    (∃ token nonce record, phase = .fetched token nonce (some record)) ∨
      ∃ record stateful fingerprint, phase = .done (.solved record stateful fingerprint) := by
  cases phase with
  | fetched token nonce stateful =>
    cases stateful with
    | none => exact h.elim
    | some record => exact .inl ⟨token, nonce, record, rfl⟩
  | done verdict =>
    cases verdict with
    | solved record stateful fingerprint => exact .inr ⟨record, stateful, fingerprint, rfl⟩
    | _ => exact h.elim
  | _ => exact h.elim

theorem advances_of_late (h : Late (d.next entry request clock s stage)) :
    d.Advances entry request clock s stage (d.next entry request clock s stage) := by
  cases stage with
  | escalating | drawing | issuing | lowering | answered => exact h.elim
  | counting level number =>
    simp only [next, ChallengeTier.advance] at h ⊢
    split at h
    · exact h.elim
    rename_i hgo
    rw [if_neg hgo]
    exact .issuing rfl
  | verifying phase =>
    have hsettled : d.next entry request clock s (.verifying phase) =
        settle (d.verify entry request clock.system s.tokens phase) := rfl
    rw [hsettled] at h ⊢
    rcases settle_late h with ⟨token, nonce, record, hphase⟩ | ⟨record, stateful, fingerprint, hphase⟩
    · obtain ⟨rfl, hfound⟩ := d.verify_fetched hphase
      rw [hphase]
      exact .fetched hfound
    · rw [hphase]
      exact .clearing hphase
  | clearing record => exact .lowering record

/-- How a request came to be where it is after a step. -/
inductive Moved (g : Gate) (id : RequestId) : Event → Thread → Prop where
  | stayed {e : Event} {thread : Thread} : g.threads.lookup id = some thread → Moved g id e thread
  | arrived {n : Nat} {entry : Entry} {passTtl : Duration} {request : Request} {now : Time} :
    id = (request.domain, n) → g.threads.lookup id = none →
    Moved g id (.arrive n entry passTtl request now)
      (ChallengeTier.arrived d.sha256 d.hmac entry request now)
  | advanced {clock : Clock} {signedAt : Time} {old : Thread} : g.threads.lookup id = some old →
    Moved g id (.advance id clock signedAt)
      { old with stage := d.next old.entry old.request clock g.toState old.stage }

theorem moved_of_lookup {id : RequestId}
    (h : (d.step g e).2.threads.lookup id = some thread) : d.Moved g id e thread := by
  cases e with
  | arrive n entry passTtl request now =>
    simp only [step, Event.base, ChallengeTier.step] at h
    split at h
    · rename_i heq hfree
      cases heq
      rw [AList.lookup_insert_if] at h
      split at h
      · rename_i hid
        cases h
        exact .arrived hid (hid ▸ hfree)
      · exact .stayed h
    · rename_i heq hfound
      cases heq
    · exact .stayed h
  | advance id' clock signedAt =>
    simp only [step, Event.base, ChallengeTier.step] at h
    split at h
    · rename_i heq hfree
      cases heq
    · rename_i old heq hfound
      cases heq
      rw [AList.lookup_insert_if] at h
      split at h
      · rename_i hid
        cases h
        subst hid
        exact .advanced hfound
      · exact .stayed h
    · exact .stayed h

/-- A token in the store was there before, or was being issued. -/
theorem lookup_advance (h : (ChallengeTier.advance d.sha256 d.hmac d.urlDecode entry request clock s
      stage).2.2.tokens.inner.lookup t = some r) :
    (∃ r', s.tokens.inner.lookup t = some r') ∨
      ∃ level pending, stage = .issuing level pending ∧ t = pending.token := by
  cases stage with
  | counting level number =>
    simp only [ChallengeTier.advance] at h
    split at h
    all_goals exact .inl ⟨r, h⟩
  | issuing level pending =>
    rcases TokenStore.lookup_issue h with ⟨-, ht, -⟩ | ⟨-, hold⟩
    · exact .inr ⟨level, pending, rfl, ht⟩
    · exact .inl ⟨r, hold⟩
  | verifying phase =>
    obtain ⟨r', hr', -⟩ := ChallengeSingleUse.verifyStep_shrinks d.sha256 d.hmac d.urlDecode
      entry.toChallenge request.verify clock.system s.tokens phase t r h
    exact .inl ⟨r', hr'⟩
  | escalating | drawing | clearing | lowering | answered => exact .inl ⟨r, h⟩

theorem lookup_step (h : (d.step g e).2.tokens.inner.lookup t = some r) :
    (∃ r', g.tokens.inner.lookup t = some r') ∨
      ∃ id thread level pending, g.threads.lookup id = some thread ∧
        thread.stage = .issuing level pending ∧ t = pending.token := by
  have hsystem : (d.step g e).2.tokens =
      (ChallengeTier.step d.sha256 d.hmac d.urlDecode g.toSystem e.base).2.tokens := by
    cases e with
    | arrive | advance => rfl
  rw [hsystem] at h
  simp only [ChallengeTier.step] at h
  split at h
  · exact .inl ⟨r, h⟩
  · rename_i id clock thread hevent hfound
    rcases d.lookup_advance h with hold | ⟨level, pending, hstage, ht⟩
    · exact .inl hold
    · exact .inr ⟨_, thread, level, pending, hfound, hstage, ht⟩
  · exact .inl ⟨r, h⟩

/-! ## Runs -/

def run (es : List Event) : Gate := Trace.final d.step d.start es

def signatures (es : List Event) : List Signature :=
  (Trace.outputs d.step d.start es).filterMap id

theorem run_concat (es : List Event) (e : Event) : d.run (es ++ [e]) = (d.step (d.run es) e).2 := by
  rw [run, Trace.final_append]
  rfl

/-- A signature was made by some step. -/
theorem exists_of_mem_signatures (h : σ ∈ d.signatures es) :
    ∃ earlier e later, es = earlier ++ e :: later ∧ (d.step (d.run earlier) e).1 = some σ := by
  induction es using reverseRecOn with
  | nil => cases h
  | append_singleton es e ih =>
    rw [signatures, Trace.outputs_append, filterMap_append] at h
    rcases mem_append.mp h with hold | hnew
    · obtain ⟨earlier, e', later, rfl, hσ⟩ := ih hold
      exact ⟨earlier, e', later ++ [e], by simp, hσ⟩
    obtain ⟨o, ho, hσ⟩ := mem_filterMap.mp hnew
    cases mem_singleton.mp ho
    exact ⟨es, e, [], rfl, hσ⟩

/-- The verification of a request was found to be solved in a run. -/
def Solved (es : List Event) (id : RequestId) (entry : Entry) (request : Request)
    (record : ChallengeRecord) : Prop :=
  ∃ earlier clock signedAt later phase stateful fingerprint,
    es = earlier ++ .advance id clock signedAt :: later ∧
    (d.run earlier).threads.lookup id = some ⟨entry, request, .verifying phase⟩ ∧
    (∀ verdict, phase ≠ .done verdict) ∧
    d.verify entry request clock.system (d.run earlier).tokens phase =
      .done (.solved record stateful fingerprint)

theorem Solved.concat {d : Deployment} {id : RequestId} (h : d.Solved es id entry request record)
    (e : Event) : d.Solved (es ++ [e]) id entry request record := by
  obtain ⟨earlier, clock, signedAt, later, phase, stateful, fingerprint, rfl, hrest⟩ := h
  exact ⟨earlier, clock, signedAt, later ++ [e], phase, stateful, fingerprint, by simp, hrest⟩

/-- What is known of a request by where it is. -/
def StageHeld (es : List Event) (id : RequestId) (entry : Entry) (request : Request) : Stage → Prop
  | .issuing _ pending => TokenId pending.token
  | .verifying (.fetched token _ (some _)) => TokenId token
  | .verifying (.done _) => False
  | .clearing record => d.Solved es id entry request record
  | .lowering record => d.Solved es id entry request record
  | _ => True

/-- What is known of a request: its names are plain, its entry has a lifetime for passes. -/
structure ThreadHeld (es : List Event) (g : Gate) (id : RequestId) (thread : Thread) : Prop where
  domain : Plain thread.request.domain
  identity : Plain thread.request.identity
  ttl : (g.ttls.lookup id).isSome
  stage : d.StageHeld es id thread.entry thread.request thread.stage

structure Held (es : List Event) (g : Gate) : Prop where
  tokens : ∀ t r, g.tokens.inner.lookup t = some r → TokenId t
  threads : ∀ id thread, g.threads.lookup id = some thread → d.ThreadHeld es g id thread

/-- The names of a request that arrives are plain. -/
def Named : Event → Prop
  | .arrive _ _ _ request _ => Plain request.domain ∧ Plain request.identity
  | .advance _ _ _ => True

theorem tokenId_draw {draw : ChallengeVerify.Draw} : TokenId (draw.token d.sha256) := by
  refine ⟨?_, ?_⟩
  · rw [ChallengeVerify.Draw.token, tokenId, String.toList_ofList, length_hexEncode, d.length_sha256]
  · rw [ChallengeVerify.Draw.token, tokenId, String.toList_ofList]
    exact not_mem_hexEncode rfl

theorem stageHeld_of_not_late {id : RequestId} (h : ¬ Late stage) :
    d.StageHeld es id entry request stage := by
  cases stage with
  | verifying phase =>
    cases phase with
    | fetched token nonce stateful =>
      cases stateful with
      | none => trivial
      | some record => exact absurd trivial h
    | done verdict => exact absurd trivial h
    | _ => trivial
  | issuing | clearing | lowering => exact absurd trivial h
  | _ => trivial

theorem StageHeld.concat {d : Deployment} {id : RequestId}
    (h : d.StageHeld es id entry request stage) (e : Event) :
    d.StageHeld (es ++ [e]) id entry request stage := by
  cases stage with
  | clearing | lowering => exact Solved.concat h e
  | verifying phase =>
    cases phase with
    | fetched token nonce stateful =>
      cases stateful with
      | none => trivial
      | some record => exact h
    | _ => exact h
  | _ => exact h

/-- The next stage of a request in a run is held. -/
theorem stageHeld_next (h : d.Held es (d.run es)) {id : RequestId}
    (hold : (d.run es).threads.lookup id = some old) (clock : Clock) (signedAt : Time) :
    d.StageHeld (es ++ [.advance id clock signedAt]) id old.entry old.request
      (d.next old.entry old.request clock (d.run es).toState old.stage) := by
  by_cases hlate : Late (d.next old.entry old.request clock (d.run es).toState old.stage)
  case neg => exact d.stageHeld_of_not_late hlate
  obtain ⟨entry, request, stage⟩ := old
  have hstage := (h.threads id _ hold).stage
  have hadvances := d.advances_of_late hlate
  simp only at hadvances hstage ⊢
  generalize d.next entry request clock (d.run es).toState stage = after at hadvances ⊢
  cases hadvances with
  | issuing htoken =>
    show TokenId _
    rw [htoken]
    exact d.tokenId_draw
  | fetched hfound => exact h.tokens _ _ hfound
  | @clearing phase record stateful fingerprint hsolved =>
    refine ⟨es, clock, signedAt, [], phase, stateful, fingerprint, rfl, hold, fun verdict heq => ?_,
      hsolved⟩
    subst heq
    exact hstage
  | lowering record => exact Solved.concat hstage _

theorem held_step (h : d.Held es (d.run es)) (hnamed : Named e) :
    d.Held (es ++ [e]) (d.step (d.run es) e).2 := by
  refine ⟨fun t r ht => ?_, fun id thread hthread => ?_⟩
  · rcases d.lookup_step ht with ⟨r', hr'⟩ | ⟨id, thread, level, pending, hthread, hstage, rfl⟩
    · exact h.tokens t r' hr'
    have hheld := (h.threads id thread hthread).stage
    rw [hstage] at hheld
    exact hheld
  cases d.moved_of_lookup hthread with
  | stayed hold =>
    obtain ⟨hdomain, hidentity, httl, hstage⟩ := h.threads id thread hold
    refine ⟨hdomain, hidentity, ?_, hstage.concat e⟩
    cases e with
    | arrive n entry passTtl request now =>
      simp only [step]
      split
      · rw [AList.lookup_insert_if]
        split
        · rfl
        · exact httl
      · exact httl
    | advance id' clock signedAt => exact httl
  | @arrived n entry passTtl request now hid hfree =>
    subst hid
    refine ⟨hnamed.1, hnamed.2, ?_, ?_⟩
    · simp only [step, Event.base, ChallengeTier.Event.id, hfree, isNone_none, if_true,
        AList.lookup_insert, isSome_some]
    refine d.stageHeld_of_not_late fun hlate => ?_
    simp only [ChallengeTier.arrived] at hlate
    split at hlate
    all_goals exact hlate
  | @advanced clock signedAt old hold =>
    obtain ⟨hdomain, hidentity, httl, -⟩ := h.threads id old hold
    exact ⟨hdomain, hidentity, httl, d.stageHeld_next h hold clock signedAt⟩

theorem held_run (h : ∀ e ∈ es, Named e) : d.Held es (d.run es) := by
  induction es using reverseRecOn with
  | nil =>
    refine ⟨fun t r ht => ?_, fun id thread hthread => ?_⟩
    · cases ht
    · cases hthread
  | append_singleton es e ih =>
    have hes := ih fun e' he' => h e' (mem_append_left _ he')
    rw [run_concat]
    exact d.held_step hes (h e (mem_append_right _ (mem_singleton_self e)))

/-! ## Passes that are accepted -/

/-- The message that a cookie is checked for, and the tag it brings. -/
def claimed (value : String) : Option (Bytes × List Char) := do
  let rest ← Text.stripStart "v1.".toList value.toList
  let (payload, tag) ← Text.rsplitOnce '.' rest
  let [kid, expires, domain, identity] ← some (Text.splitN '|' 4 payload) | none
  let expires ← Text.parseU64 expires
  some (utf8 ("|".intercalate [String.ofList kid, toString expires, String.ofList domain,
    String.ofList identity]), tag)

theorem claimed_of_verifyPass
    (h : verifyPass d.sha256 d.hmac secret value domain identity now = true) :
    ∃ expires, claimed value = some (utf8 (passPayload d.sha256 secret expires domain identity),
        hexEncode (d.hmac secret (utf8 (passPayload d.sha256 secret expires domain
          identity)))) ∧ now / nanosPerSec < expires := by
  rw [verifyPass] at h
  cases hrest : Text.stripStart "v1.".toList value.toList with
  | none =>
    rw [hrest] at h
    cases h
  | some rest =>
    rw [hrest, bind_some] at h
    cases hsplit : rsplitOnce '.' rest with
    | none =>
      rw [hsplit] at h
      cases h
    | some parts =>
      obtain ⟨payload, tag⟩ := parts
      simp only [hsplit, any_some] at h
      split at h
      case h_1 kid expires cookieDomain cookieIdentity hfields =>
        cases hexpires : parseU64 expires with
        | none => simp [hexpires] at h
        | some seconds =>
          simp only [hexpires, any_some, Bool.and_eq_true, beq_iff_eq, decide_eq_true_eq] at h
          obtain ⟨⟨⟨⟨hkid, hdomain⟩, hidentity⟩, htag⟩, htime⟩ := h
          refine ⟨seconds, ?_, htime⟩
          subst hkid hdomain hidentity htag
          simp only [claimed, hrest, hsplit, hfields, hexpires, bind_eq_bind, bind_some]
          rfl
      case h_2 => cases h

section

variable (secret : Bytes) (identity : String) (ttl : Duration) (now : Time) (hdomain : Plain domain)
include hdomain

/-- The parts of a pass, as it is read back. -/
theorem parts_sign :
    ∃ payload, (Text.stripStart "v1.".toList
        (sign d.sha256 d.hmac secret domain identity ttl now).toList).bind (rsplitOnce '.') =
      some (payload, hexEncode (d.hmac secret (utf8 (passPayload d.sha256 secret
        (passExpiry now ttl) domain identity)))) ∧
      splitN '|' 4 payload = [keyId d.sha256 secret, (toString (passExpiry now ttl)).toList,
        domain.toList, identity.toList] ∧
      parseU64 (toString (passExpiry now ttl)).toList = some (passExpiry now ttl) := by
  let payload := passPayload d.sha256 secret (passExpiry now ttl) domain identity
  let tag := hexEncode (d.hmac secret (utf8 payload))
  have htext : (sign d.sha256 d.hmac secret domain identity ttl now).toList =
      "v1.".toList ++ (payload.toList ++ '.' :: tag) := by
    rw [sign, String.toList_ofList, append_assoc]
  have hdigits : '|' ∉ (toString (passExpiry now ttl)).toList := not_mem_toString (by decide) _
  have hexpiry : passExpiry now ttl < 2 ^ 64 := Nat.lt_of_le_of_lt satAdd64_le (by decide)
  refine ⟨payload.toList, ?_, ?_, parseU64_toString hexpiry⟩
  · rw [htext, stripStart_append, bind_some, rsplitOnce_append (not_mem_hexEncode rfl)]
  obtain ⟨r, hr, hr'⟩ := splitN_append '|' 2 (keyId d.sha256 secret)
    ((toString (passExpiry now ttl)).toList ++ '|' :: (domain.toList ++ '|' :: identity.toList))
  obtain ⟨q, hq, hq'⟩ := splitN_append '|' 1 (toString (passExpiry now ttl)).toList
    (domain.toList ++ '|' :: identity.toList)
  obtain ⟨p, hp, hp'⟩ := splitN_append '|' 0 domain.toList identity.toList
  rw [toList_passPayload, hr, hr' (not_mem_keyId secret), hq, hq' hdigits, hp, hp' hdomain,
    Text.before_eq_self_iff.mpr (not_mem_keyId secret), Text.before_eq_self_iff.mpr hdigits,
    Text.before_eq_self_iff.mpr hdomain]
  rfl

theorem claimed_sign :
    claimed (sign d.sha256 d.hmac secret domain identity ttl now) =
      some (utf8 (passPayload d.sha256 secret (passExpiry now ttl) domain identity),
        hexEncode (d.hmac secret (utf8 (passPayload d.sha256 secret (passExpiry now ttl) domain
          identity)))) := by
  obtain ⟨payload, hparts, hfields, hexpires⟩ := d.parts_sign secret identity ttl now hdomain
  obtain ⟨rest, hrest, hsplit⟩ := bind_eq_some_iff.mp hparts
  simp only [claimed, hrest, hsplit, hfields, hexpires, bind_eq_bind, bind_some,
    String.ofList_toList]
  rfl

end

section

variable (secret : Bytes) (identity : String) (ttl : Duration) (signedAt now : Time)
    (hdomain : Plain domain)
include hdomain

/-- A pass is accepted for its client until it expires. -/
theorem verifyPass_sign :
    verifyPass d.sha256 d.hmac secret (sign d.sha256 d.hmac secret domain identity ttl signedAt)
      domain identity now = decide (now / nanosPerSec < passExpiry signedAt ttl) := by
  obtain ⟨payload, hparts, hfields, hexpires⟩ := d.parts_sign secret identity ttl signedAt hdomain
  have hmessage : "|".intercalate [String.ofList (keyId d.sha256 secret),
      toString (passExpiry signedAt ttl), domain, identity] =
        passPayload d.sha256 secret (passExpiry signedAt ttl) domain identity := rfl
  simp only [verifyPass, hparts, any_some, hfields, hexpires, String.ofList_toList, hmessage,
    beq_self_eq_true, Bool.true_and]

/-- A pass is accepted for no other client. -/
theorem verifyPass_sign_iff (domain' identity' : String) :
    verifyPass d.sha256 d.hmac secret (sign d.sha256 d.hmac secret domain identity ttl signedAt)
        domain' identity' now = true ↔
      domain' = domain ∧ identity' = identity ∧ now / nanosPerSec < passExpiry signedAt ttl := by
  constructor
  · intro h
    have hsame : domain' = domain ∧ identity' = identity := by
      obtain ⟨payload, hparts, hfields, hexpires⟩ :=
        d.parts_sign secret identity ttl signedAt hdomain
      simp only [verifyPass, hparts, any_some, hfields, hexpires, String.ofList_toList,
        Bool.and_eq_true, beq_iff_eq] at h
      exact ⟨h.1.1.1.2.symm, h.1.1.2.symm⟩
    obtain ⟨rfl, rfl⟩ := hsame
    rw [d.verifyPass_sign secret _ ttl signedAt now hdomain] at h
    exact ⟨rfl, rfl, of_decide_eq_true h⟩
  · rintro ⟨rfl, rfl, h⟩
    rw [d.verifyPass_sign secret _ ttl signedAt now hdomain]
    exact decide_eq_true h

end

/-- The tag of a pass that a request presents verifies only for a message that was signed with
that secret before. -/
def Unforged (before : List Event) : Event → Prop
  | .arrive _ entry _ request _ => ∀ value message,
    namedCookie request.cookie "pingap_challenge" = some value →
    claimed value = some (message, Text.hexEncode (d.hmac entry.secret message)) →
    ∃ σ ∈ d.signatures before, σ.secret = entry.secret ∧ σ.message = message
  | .advance _ _ _ => True

/-- A verification for the client succeeded under the secret, and its pass, signed then, is not
older than it may be. -/
def PassedEarlier (before : List Event) (secret : Bytes) (domain identity : String) (now : Time) :
    Prop :=
  ∃ earlier id clock signedAt later thread record ttl,
    before = earlier ++ .advance id clock signedAt :: later ∧
    (d.run earlier).threads.lookup id = some thread ∧ thread.stage = .lowering record ∧
    d.Solved earlier id thread.entry thread.request record ∧
    (d.run earlier).ttls.lookup id = some ttl ∧
    thread.entry.secret = secret ∧ thread.request.domain = domain ∧
    thread.request.identity = identity ∧ now < signedAt + ttl

/-- What a step signs is one of the three. -/
theorem step_signs (h : d.Held es (d.run es)) (hσ : (d.step (d.run es) e).1 = some σ) :
    (∃ expires difficulty domain identity salt target, σ.purpose = .stateless ∧
      σ.message = utf8 (statelessPayload expires difficulty domain identity salt target)) ∨
    (∃ token fingerprint, σ.purpose = .fingerprint ∧ TokenId token ∧
      σ.message = fingerprintMessage token fingerprint) ∨
    ∃ id clock signedAt thread record ttl, e = .advance id clock signedAt ∧
      (d.run es).threads.lookup id = some thread ∧ thread.stage = .lowering record ∧
      (d.run es).ttls.lookup id = some ttl ∧
      σ = ⟨thread.entry.secret, utf8 (passPayload d.sha256 thread.entry.secret
        (passExpiry signedAt ttl) thread.request.domain thread.request.identity),
        .pass thread.request.domain thread.request.identity ttl signedAt⟩ := by
  cases e with
  | arrive n entry passTtl request now => cases hσ
  | advance id clock signedAt =>
    obtain ⟨thread, hthread, hsigning⟩ := bind_eq_some_iff.mp hσ
    have hheld := h.threads id thread hthread
    obtain ⟨ttl, httl⟩ := isSome_iff_exists.mp hheld.ttl
    rw [httl, getD_some] at hsigning
    have hstage := hheld.stage
    cases hat : thread.stage with
    | issuing level pending =>
      simp only [hat, signing] at hsigning
      split at hsigning
      · cases hsigning
        exact .inl ⟨_, _, _, _, _, _, rfl, rfl⟩
      · cases hsigning
    | verifying phase =>
      cases phase with
      | fetched token nonce stateful =>
        simp only [hat, signing] at hsigning
        obtain ⟨fingerprint, hsigned, rfl⟩ := map_eq_some_iff.mp hsigning
        cases stateful with
        | some record =>
          rw [hat] at hstage
          exact .inr (.inl ⟨token, fingerprint, rfl, hstage, rfl⟩)
        | none =>
          -- A stateless token is never one of a silent challenge.
          obtain ⟨record, hrecord, hsilent⟩ := bind_eq_some_iff.mp hsigned
          rw [none_or] at hrecord
          have hpow := kind_of_parseStateless d.hmac hrecord
          rw [hpow, if_neg (by decide : ¬ "pow" = "silent"), ite_self] at hsilent
          cases hsilent
      | _ => simp [hat, signing] at hsigning
    | lowering record =>
      simp only [hat, signing] at hsigning
      cases hsigning
      exact .inr (.inr ⟨id, clock, signedAt, thread, record, ttl, rfl, hthread, hat, httl, rfl⟩)
    | _ => simp [hat, signing] at hsigning

/-- A request is let through as solved only by its cookie. -/
theorem verifyPass_of_start (h : ChallengeTier.start d.sha256 d.hmac entry request now =
      .answered (.continued (some "solved"))) :
    ∃ value, namedCookie request.cookie "pingap_challenge" = some value ∧
      verifyPass d.sha256 d.hmac entry.secret value request.domain request.identity now = true := by
  simp only [ChallengeTier.start] at h
  split at h
  · cases h
  split at h
  · rename_i hany
    cases hcookie : namedCookie request.cookie "pingap_challenge" with
    | none =>
      rw [hcookie] at hany
      cases hany
    | some value =>
      rw [hcookie] at hany
      exact ⟨value, rfl, hany⟩
  · split at h
    · cases h
    split at h
    · simp only [Start.answered.injEq, Outcome.continued.injEq, Option.some.injEq] at h
      exact absurd h (by decide)
    · cases h

theorem lt_of_lt_passExpiry (h : now / nanosPerSec < passExpiry signedAt ttl) :
    now < signedAt + ttl := by
  have hle : passExpiry signedAt ttl ≤ signedAt / nanosPerSec + ttl / nanosPerSec :=
    Nat.min_le_left _ _
  unfold nanosPerSec at h hle
  omega

/-- A pass is accepted for the client it was signed for and for no other, as long as the clock's
full seconds have not reached those of its lifetime; so never once the lifetime is over, and at
least when it is signed. -/
theorem verifyPass_until_expiry {secret : Bytes} {domain identity : String} {ttl : Duration}
    {signedAt : Time} (httl : nanosPerSec ≤ ttl) (hsigned : signedAt / nanosPerSec < u64Max)
    (hdomain : Plain domain) :
    (∀ domain' identity' now, verifyPass d.sha256 d.hmac secret
        (sign d.sha256 d.hmac secret domain identity ttl signedAt) domain' identity' now = true ↔
      domain' = domain ∧ identity' = identity ∧
        now / nanosPerSec < satAdd64 (signedAt / nanosPerSec) (ttl / nanosPerSec)) ∧
    (∀ domain' identity' now, signedAt + ttl ≤ now → verifyPass d.sha256 d.hmac secret
      (sign d.sha256 d.hmac secret domain identity ttl signedAt) domain' identity' now = false) ∧
    verifyPass d.sha256 d.hmac secret (sign d.sha256 d.hmac secret domain identity ttl signedAt)
      domain identity signedAt = true := by
  have hiff := fun domain' identity' now =>
    d.verifyPass_sign_iff secret identity ttl signedAt now hdomain domain' identity'
  refine ⟨hiff, ?_, ?_⟩
  · intro domain' identity' now hlate
    rw [Bool.eq_false_iff]
    intro haccepted
    have hearly := lt_of_lt_passExpiry ((hiff domain' identity' now).mp haccepted).2.2
    exact Nat.not_lt.mpr hlate hearly
  · refine (hiff domain identity signedAt).mpr ⟨rfl, rfl, Nat.lt_min.mpr ⟨?_, hsigned⟩⟩
    have hsecond : 1 ≤ ttl / nanosPerSec := (Nat.one_le_div_iff (by decide)).mpr httl
    exact Nat.lt_add_of_pos_right hsecond

/-- In every run, a request is let through by its pass only if a verification for its domain and
identity under that secret succeeded, less than the lifetime of its pass ago; and what is signed
for stateless tokens and fingerprints is no pass for any client. -/
theorem pass_only_after_solve {es : List Event} (hnamed : ∀ e ∈ es, Named e)
    (hunforged : Trace.Throughout d.Unforged es) :
    (∀ before n entry passTtl request now after,
      es = before ++ .arrive n entry passTtl request now :: after →
      ChallengeTier.start d.sha256 d.hmac entry request now =
        .answered (.continued (some "solved")) →
      d.PassedEarlier before entry.secret request.domain request.identity now) ∧
    ∀ σ ∈ d.signatures es, σ.purpose = .stateless ∨ σ.purpose = .fingerprint →
      ∀ secret value domain identity now tag, Plain domain → Plain identity →
        claimed value = some (σ.message, tag) →
        verifyPass d.sha256 d.hmac secret value domain identity now = false := by
  constructor
  · intro before n entry passTtl request now after hes hstart
    obtain ⟨value, hvalue, hverify⟩ := d.verifyPass_of_start hstart
    obtain ⟨expires, hclaimed, htime⟩ := d.claimed_of_verifyPass hverify
    obtain ⟨σ, hσ, hsecret, hmessage⟩ := hunforged before _ after hes value _ hvalue hclaimed
    obtain ⟨hdomain, hidentity⟩ : Named (.arrive n entry passTtl request now) :=
      hnamed _ (by rw [hes]; simp)
    obtain ⟨earlier, e, later, rfl, hsigned⟩ := d.exists_of_mem_signatures hσ
    have hheld : d.Held earlier (d.run earlier) :=
      d.held_run fun e' he' => hnamed e' (by rw [hes]; simp [he'])
    rcases d.step_signs hheld hsigned with ⟨_, _, _, _, _, _, -, hstateless⟩ |
      ⟨token, fingerprint, -, htoken, hfingerprint⟩ |
      ⟨id, clock, signedAt, thread, record, ttl, rfl, hthread, hstage, httl, rfl⟩
    · have heq := utf8_injective (hstateless.symm.trans hmessage)
      exact absurd heq (statelessPayload_ne_pass hdomain hidentity)
    · exact absurd (hfingerprint.symm.trans hmessage) (fingerprint_ne_pass d.length_sha256 htoken)
    · have hthreadHeld := hheld.threads id thread hthread
      have hsame := passPayload_inj hthreadHeld.domain hdomain (utf8_injective hmessage)
      obtain ⟨rfl, hdomains, hidentities⟩ := hsame
      have hsolved := hthreadHeld.stage
      rw [hstage] at hsolved
      exact ⟨earlier, id, clock, signedAt, later, thread, record, ttl, rfl, hthread, hstage, hsolved,
        httl, hsecret, hdomains, hidentities, lt_of_lt_passExpiry htime⟩
  · intro σ hσ hpurpose secret value domain identity now tag hdomain hidentity hclaimed
    by_contra hverify
    rw [Bool.not_eq_false] at hverify
    obtain ⟨expires, hclaimed', -⟩ := d.claimed_of_verifyPass hverify
    rw [hclaimed] at hclaimed'
    have hmessage := congrArg Prod.fst (Option.some.inj hclaimed')
    obtain ⟨earlier, e, later, rfl, hsigned⟩ := d.exists_of_mem_signatures hσ
    have hheld : d.Held earlier (d.run earlier) :=
      d.held_run fun e' he' => hnamed e' (by simp [he'])
    rcases d.step_signs hheld hsigned with ⟨_, _, _, _, _, _, -, hstateless⟩ |
      ⟨token, fingerprint, -, htoken, hfingerprint⟩ |
      ⟨id, clock, signedAt, thread, record, ttl, rfl, hthread, hstage, httl, rfl⟩
    · have heq := utf8_injective (hstateless.symm.trans hmessage)
      exact statelessPayload_ne_pass hdomain hidentity heq
    · exact fingerprint_ne_pass d.length_sha256 htoken (hfingerprint.symm.trans hmessage)
    · rcases hpurpose with hpurpose | hpurpose
      all_goals cases hpurpose

end Deployment

/-! ## A client that solves its challenge -/

/-- SHA-256 and HMAC on the texts of the run below. -/
def solverDeployment : Deployment where
  sha256 := testDigest
  hmac secret message := tabulated [
    ((utf8 "test-secret", utf8 "9caf06bb4436|3602|b.test|203.0.113.2"),
      "9a075d0b5d2e1a6c06ecb7ca1811f115ad6eb79b8668a3cf4d6e46560af34e7d")] (secret, message)
  urlDecode := some
  maxDomains := 8
  maxEntries := 8
  loopThreshold := 3
  length_sha256 := length_testDigest

def solverRequest (path query : String) (cookie : Option String) (marker : Option Nat) : Request :=
  ⟨"b.test", "203.0.113.2", path, query, cookie, marker, path⟩

/-- A request and its steps, all at one time. -/
def visit (n : Nat) (request : Request) (steps : Nat) (time : Time) : List Event :=
  .arrive n testEntry (3600 * nanosPerSec) request time ::
    List.replicate steps (.advance ("b.test", n) ⟨time, time, time⟩ time)

/-- The client is challenged and answers. -/
def solving : List Event :=
  visit 0 (solverRequest "/b" "" none (some 0)) 4 (1 * nanosPerSec) ++
    visit 1 (solverRequest "/.pingap/challenge/verify" ("challenge_token=" ++
      "9f460d8fc5b9c6f64d25bf2e755b96040b4a5552070f9b1352410cf4ea237495&nonce=0") none none) 5
      (2 * nanosPerSec)

def passValue : String :=
  sign solverDeployment.sha256 solverDeployment.hmac (utf8 "test-secret") "b.test" "203.0.113.2"
    (3600 * nanosPerSec) (2 * nanosPerSec)

/-- The client comes back with the pass it was given. -/
def passing : Request := solverRequest "/b" "" (some ("pingap_challenge=" ++ passValue)) (some 0)

def passingEvent : Event := .arrive 2 testEntry (3600 * nanosPerSec) passing (100 * nanosPerSec)

/-- Requests without cookies present no tag. -/
theorem unforged_of_no_cookie {d : Deployment}
    (h : ∀ e ∈ es, ∀ n entry passTtl request now, e = .arrive n entry passTtl request now →
      request.cookie = none) : Trace.Throughout d.Unforged es := by
  intro before e after hes
  cases e with
  | advance id clock signedAt => trivial
  | arrive n entry passTtl request now =>
    intro value message hvalue
    have hnone := h _ (by rw [hes]; simp) n entry passTtl request now rfl
    rw [hnone] at hvalue
    cases hvalue

theorem arrive_of_mem_visit (h : e ∈ visit n request steps time) :
    e = .arrive n testEntry (3600 * nanosPerSec) request time ∨
      ∃ id clock signedAt, e = .advance id clock signedAt := by
  rcases mem_cons.mp h with rfl | hstep
  · exact .inl rfl
  · exact .inr ⟨_, _, _, eq_of_mem_replicate hstep⟩

theorem signed_in_solving :
    (⟨utf8 "test-secret", utf8 (passPayload solverDeployment.sha256 (utf8 "test-secret") 3602
      "b.test" "203.0.113.2"),
      .pass "b.test" "203.0.113.2" (3600 * nanosPerSec) (2 * nanosPerSec)⟩ : Signature) ∈
        solverDeployment.signatures solving := by
  decide +kernel

/-- The client solved its challenge 98 seconds before it is let through. -/
theorem pass_only_after_solve_return :
    ChallengeTier.start solverDeployment.sha256 solverDeployment.hmac testEntry passing
        (100 * nanosPerSec) = .answered (.continued (some "solved")) ∧
      solverDeployment.PassedEarlier solving (utf8 "test-secret") "b.test" "203.0.113.2"
        (100 * nanosPerSec) := by
  have hplain : Plain "b.test" ∧ Plain "203.0.113.2" := by
    unfold Plain
    decide
  have hcookie : namedCookie passing.cookie "pingap_challenge" = some passValue := by
    decide +kernel
  have hstart : ChallengeTier.start solverDeployment.sha256 solverDeployment.hmac testEntry passing
      (100 * nanosPerSec) = .answered (.continued (some "solved")) := by
    have hpath : testEntry.verifyPath.toList.isPrefixOf passing.path.toList = false := by decide
    have hpass : verifyPass solverDeployment.sha256 solverDeployment.hmac testEntry.secret
        passValue passing.domain passing.identity (100 * nanosPerSec) = true :=
      (solverDeployment.verifyPass_sign _ _ _ _ _ hplain.1).trans (by decide)
    rw [ChallengeTier.start, hpath, if_neg Bool.false_ne_true, hcookie, any_some, hpass, if_pos rfl]
  have hnamed : ∀ e ∈ solving ++ [passingEvent], Deployment.Named e := by
    intro e he
    rcases mem_append.mp he with hsolving | hlast
    · rcases mem_append.mp hsolving with hvisit | hvisit
      all_goals
        rcases arrive_of_mem_visit hvisit with rfl | ⟨_, _, _, rfl⟩
        · exact hplain
        · trivial
    · cases mem_singleton.mp hlast
      exact hplain
  have hunforged : Trace.Throughout solverDeployment.Unforged (solving ++ [passingEvent]) := by
    refine (Trace.throughout_concat _ _ _).mpr ⟨unforged_of_no_cookie ?_, ?_⟩
    · intro e he n entry passTtl request now heq
      rcases mem_append.mp he with hvisit | hvisit
      all_goals
        rcases arrive_of_mem_visit hvisit with rfl | ⟨_, _, _, rfl⟩
        · cases heq
          rfl
        · cases heq
    · intro value message hvalue hclaimed
      rw [hcookie] at hvalue
      cases hvalue
      rw [passValue, solverDeployment.claimed_sign _ _ _ _ hplain.1] at hclaimed
      have hmessage := congrArg Prod.fst (Option.some.inj hclaimed)
      exact ⟨_, signed_in_solving, rfl, hmessage⟩
  exact ⟨hstart, (solverDeployment.pass_only_after_solve hnamed hunforged).1 solving 2 testEntry
    (3600 * nanosPerSec) passing (100 * nanosPerSec) [] rfl hstart⟩

/-- A pass for one hour, signed in the middle of a second. -/
theorem verifyPass_until_expiry_hour :
    verifyPass solverDeployment.sha256 solverDeployment.hmac (utf8 "test-secret")
      (sign solverDeployment.sha256 solverDeployment.hmac (utf8 "test-secret") "b.test"
        "203.0.113.2" 3600000000000 2500000000) "b.test" "203.0.113.2" 2500000000 = true :=
  (solverDeployment.verifyPass_until_expiry (by decide) (by decide) (by simp [Plain])).2.2

/-- It is refused from half a second before its hour is over. -/
theorem pass_refused_early :
    2500000000 ≤ 3602200000000 ∧ 3602200000000 < 2500000000 + 3600000000000 ∧
    verifyPass solverDeployment.sha256 solverDeployment.hmac (utf8 "test-secret")
      (sign solverDeployment.sha256 solverDeployment.hmac (utf8 "test-secret") "b.test"
        "203.0.113.2" 3600000000000 2500000000) "b.test" "203.0.113.2" 3602200000000 = false := by
  refine ⟨by decide, by decide, ?_⟩
  rw [solverDeployment.verifyPass_sign _ _ _ _ _ (by simp [Plain])]
  decide

end ChallengePass
