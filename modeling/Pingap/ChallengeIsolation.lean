import Pingap.ChallengeStanding
import Pingap.ChallengeTier

/-!
# Domains that share the challenge tier

Two runs are compared: one with the requests of a domain, and one without them. The
numbers of the challenges differ between the two, and with them tokens and salts, so a
client of the second run presents the token of its own page where it presents that of
the first. Each step keeps the two runs related, as long as no request of the other
domains meets a shared store that is full.
-/

namespace ChallengeIsolation

open MachineArith ChallengeToken ChallengeTier Trace
open ChallengeVerify (Draw Phase PendingIssue VerifyRequest Verdict ChallengeKind issueRecord judge
  readQuery signedFingerprint verifyStep)
open ChallengeSingleUse (Distinct Hex parseStateless_hex)
open ChallengeStanding (Engaged verifyStep_engaged)
open Utf8 (Bytes)
open List hiding choose count
open TokenStore hiding maxDomains maxEntries

/-! ## The stores -/

/-- The domains of a token store are among few labels. -/
structure Roomy (labels : List String) (s : TokenStore) : Prop where
  nodup : s.domains.Nodup
  labelled : ∀ d ∈ s.domains, d ∈ labels
  bound : labels.length ≤ s.maxDomains

section roomy

variable {labels : List String} {s : TokenStore}

theorem Roomy.filter (h : Roomy labels s) (keep : String → Bool)
    (hdomains : s'.domains = s.domains.filter keep) (hmax : s'.maxDomains = s.maxDomains) :
    Roomy labels s' :=
  ⟨hdomains ▸ h.nodup.filter keep, fun d hd => h.labelled d (mem_of_mem_filter (hdomains ▸ hd)),
    hmax ▸ h.bound⟩

theorem Roomy.same (h : Roomy labels s) (hdomains : s'.domains = s.domains)
    (hmax : s'.maxDomains = s.maxDomains) : Roomy labels s' :=
  ⟨hdomains ▸ h.nodup, hdomains ▸ h.labelled, hmax ▸ h.bound⟩

/-- What a sweep leaves alone. -/
theorem sweepExpired_bounds (s : TokenStore) (now : Time) :
    (s.sweepExpired now).domains = s.domains ∧ (s.sweepExpired now).maxDomains = s.maxDomains ∧
      (s.sweepExpired now).maxEntries = s.maxEntries := by
  have hfold : ∀ (l : List (Σ _ : String, ChallengeRecord)) (s : TokenStore),
      (l.foldl (fun s e => s.countExpired e.2.domain 1) s).domains = s.domains ∧
        (l.foldl (fun s e => s.countExpired e.2.domain 1) s).maxDomains = s.maxDomains ∧
        (l.foldl (fun s e => s.countExpired e.2.domain 1) s).maxEntries = s.maxEntries := by
    intro l
    induction l with
    | nil => exact fun s => ⟨rfl, rfl, rfl⟩
    | cons e l ih => exact fun s => ih _
  exact hfold _ _

/-- A label among few finds room for itself. -/
theorem Roomy.room (h : Roomy labels s) (hd : d ∈ labels) (hnew : d ∉ s.domains) :
    s.domains.length < s.maxDomains := by
  have hnodup : (d :: s.domains).Nodup := List.nodup_cons.mpr ⟨hnew, h.nodup⟩
  have hsubset : d :: s.domains ⊆ labels := List.cons_subset.mpr ⟨hd, h.labelled⟩
  have hlength := (subperm_of_subset hnodup hsubset).length_le
  exact Nat.lt_of_lt_of_le hlength h.bound

/-- Under few labels a challenge is refused for the entries only. -/
theorem Roomy.issue (h : Roomy labels s) (token : String) (now : Time)
    (hlabel : record.domain ∈ labels) :
    (s.issue token record now).1 =
        (if s.entriesFull token now then .error .fullEntries else .ok ()) ∧
      Roomy labels (s.issue token record now).2 ∧
      (s.issue token record now).2.maxEntries = s.maxEntries := by
  obtain ⟨hdomains, hmax, hentries⟩ := sweepExpired_bounds s now
  have hswept : Roomy labels { s.sweepExpired now with
      domains := (s.sweepExpired now).domains.filter (s.sweepExpired now).holdsDomain } :=
    h.filter (s.sweepExpired now).holdsDomain (by rw [← hdomains]) hmax
  simp only [TokenStore.issue, entriesFull]
  split
  case isTrue hfull =>
    simp only [Bool.and_eq_true, Bool.not_eq_true', decide_eq_true_eq] at hfull
    have hnew : record.domain ∉ (s.sweepExpired now).domains.filter
        (s.sweepExpired now).holdsDomain := fun hmem =>
      absurd (contains_iff_mem.mpr hmem) (by simp only [hfull.1]; decide)
    have hroom := hswept.room hlabel hnew
    exact absurd hfull.2 (Nat.not_le.mpr hroom)
  · split
    case isTrue hnone => exact ⟨(if_pos hnone).symm, hswept, hentries⟩
    case isFalse hspace =>
      refine ⟨(if_neg hspace).symm, ?_, hentries⟩
      split
      · exact hswept.same rfl rfl
      case isFalse hnew =>
        have hnew' : record.domain ∉ (s.sweepExpired now).domains.filter
            (s.sweepExpired now).holdsDomain := fun hmem => hnew (contains_iff_mem.mpr hmem)
        refine ⟨List.nodup_append.mpr ⟨hswept.nodup, nodup_singleton _, ?_⟩, fun d hd => ?_,
          hswept.bound⟩
        · intro d hd d' hd' heq
          rw [heq, mem_singleton.mp hd'] at hd
          exact hnew' hd
        · rcases mem_append.mp hd with hold | hnew
          · exact hswept.labelled d hold
          · rw [mem_singleton.mp hnew]
            exact hlabel

theorem Roomy.remove (h : Roomy labels s) (token : String) :
    (s.remove token).2.maxEntries = s.maxEntries ∧ Roomy labels (s.remove token).2 := by
  simp only [TokenStore.remove]
  split
  · exact ⟨rfl, h⟩
  split
  · exact ⟨rfl, h.same rfl rfl⟩
  · exact ⟨rfl, h.filter _ rfl rfl⟩

/-- No step of a verification makes a domain. -/
theorem Roomy.verify (h : Roomy labels s) :
    (verifyStep sha256 hmac urlDecode c q now s phase).2.maxEntries = s.maxEntries ∧
      Roomy labels (verifyStep sha256 hmac urlDecode c q now s phase).2 := by
  cases phase with
  | started =>
    simp only [verifyStep]
    split <;> exact ⟨rfl, h⟩
  | fetched | done => exact ⟨rfl, h⟩
  | failing token =>
    simp only [verifyStep, incrementAttempts]
    split <;> exact ⟨rfl, h.same rfl rfl⟩
  | removing token => exact h.remove token
  | taking token record fingerprint =>
    simp only [verifyStep, TokenStore.take]
    split
    · exact ⟨rfl, h⟩
    split
    · exact h.remove token
    · split <;> exact ⟨rfl, h.same rfl rfl⟩

end roomy

/-- What is in the store after an issue has not expired. -/
theorem live_of_lookup_issue {s : TokenStore} {r : ChallengeRecord} (hne : t ≠ token)
    (h : (s.issue token record now).2.inner.lookup t = some r) : now < r.expiresAt := by
  have hswept : (s.sweepExpired now).inner.lookup t = some r := by
    simp only [TokenStore.issue] at h
    split at h
    · exact h
    split at h
    · exact h
    · rwa [AList.lookup_insert_if, if_neg hne] at h
  exact (lookup_sweepExpired_iff.mp hswept).2

section isolation

variable (sha256 : Bytes → Bytes) (hmac : Bytes → Bytes → Bytes)
  (urlDecode : String → Option String)

/-! ## Two runs -/

abbrev Ledger := RequestId → Option Ticket

def ledger (outs : List (RequestId × Effect)) : Ledger := fun id =>
  outs.findSome? fun
    | (id', .prepared ticket) => if id' = id then some ticket else none
    | _ => none

def token (p : Ticket) : String := p.draw.token sha256

/-- The record of a ticket after some attempts. -/
def recordAt (p : Ticket) (attempts : Nat) : ChallengeRecord :=
  { p.record with attempts := attempts }

/-- The same challenge under different numbers. -/
structure SameTerms (p p' : Ticket) : Prop where
  domain : p'.record.domain = p.record.domain
  identity : p'.record.identity = p.record.identity
  difficulty : p'.record.difficulty = p.record.difficulty
  target : p'.record.target = p.record.target
  kind : p'.record.kind = p.record.kind
  expiresAt : p'.record.expiresAt = p.record.expiresAt

/-- The requests answer the challenge of one request, each in its own run: both name its token,
both or none with a proof, and both or none with a fingerprint. -/
structure Answer (L L' : Ledger) (entry : Entry) (r r' : Request) (id : RequestId)
    (p p' : Ticket) : Prop where
  drawn : L id = some p
  drawn' : L' id = some p'
  named : (readQuery r.query).1 = some (token sha256 p)
  named' : (readQuery r'.query).1 = some (token sha256 p')
  proof : powSolved sha256 p.record.salt ((readQuery r.query).2.getD u64Max) p.record.difficulty =
    powSolved sha256 p'.record.salt ((readQuery r'.query).2.getD u64Max) p'.record.difficulty
  fingerprint :
    (signedFingerprint hmac urlDecode entry.toChallenge r.verify (token sha256 p)
      p.record).isSome =
    (signedFingerprint hmac urlDecode entry.toChallenge r'.verify (token sha256 p')
      p'.record).isSome

/-- The requests name no token, or texts that no challenge of the other domains has for a token
and that read as the same signed token, if as any. -/
structure Foreign (A : String) (L L' : Ledger) (r r' : Request) : Prop where
  nonce : (readQuery r'.query).2 = (readQuery r.query).2
  named : (readQuery r.query).1 = none ∧ (readQuery r'.query).1 = none ∨
    ∃ t t', (readQuery r.query).1 = some t ∧ (readQuery r'.query).1 = some t' ∧
      (∀ id p, id.1 ≠ A → L id = some p → t ≠ token sha256 p) ∧
      (∀ id p, L' id = some p → t' ≠ token sha256 p) ∧
      ∀ secret domain identity now, parseStateless hmac secret t' domain identity now =
        parseStateless hmac secret t domain identity now

/-- The requests are the same, but for what they answer. -/
structure Alike (A : String) (L L' : Ledger) (entry : Entry) (r r' : Request) : Prop where
  domain : r'.domain = r.domain
  identity : r'.identity = r.identity
  path : r'.path = r.path
  answer : entry.verifyPath.toList.isPrefixOf r.path.toList = true →
    (∃ id p p', id.1 ≠ A ∧ Answer sha256 hmac urlDecode L L' entry r r' id p p') ∨
      Foreign sha256 hmac A L L' r r'
  other : entry.verifyPath.toList.isPrefixOf r.path.toList = false → r' = r

/-- The events are the same, but for what their requests answer. -/
inductive EventAlike (A : String) (L L' : Ledger) : Event → Event → Prop where
  | arrive (n : Nat) (entry : Entry) (r r' : Request) (now : Time) :
      Alike sha256 hmac urlDecode A L L' entry r r' →
      EventAlike A L L' (.arrive n entry r now) (.arrive n entry r' now)
  | advance (id : RequestId) (clock : Clock) :
      EventAlike A L L' (.advance id clock) (.advance id clock)

def timeOf : Event → Time
  | .arrive _ _ _ now => now
  | .advance _ clock => clock.system

/-- The event is of another domain. -/
def elsewhere (A : String) (e : Event) : Bool := decide (e.id.1 ≠ A)

/-- The store the stage comes to next is full, and has no record of the client. -/
def storeFull (s : State) (entry : Entry) (r : Request) (now : Time) : Stage → Bool
  | .escalating _ => s.escalator.full (r.domain, r.identity)
  | .counting level _ => s.loops.full (r.domain, r.identity, (entry.kindAt level).name)
  | .issuing _ pending => s.tokens.entriesFull pending.token now
  | _ => false

/-- A request that is new to a shared store is about to find it full. -/
def atCap (s : System) : Event → Bool
  | .arrive .. => false
  | .advance id clock => (s.threads.lookup id).any fun thread =>
    storeFull s.toState thread.entry thread.request clock.system thread.stage

/-! ## How the runs are related -/

/-- Different requests have different tokens. -/
def Separate (L : Ledger) : Prop :=
  ∀ id id' p q, L id = some p → L id' = some q → token sha256 p = token sha256 q → id = id'

end isolation

/-- Two runs to compare: the functions they use, the domain that only the first one has, and the
challenges of each. -/
structure Pair where
  sha256 : Bytes → Bytes
  hmac : Bytes → Bytes → Bytes
  urlDecode : String → Option String
  domain : String
  L : Ledger
  L' : Ledger
  separate : Separate sha256 L
  separate' : Separate sha256 L'

section pairs

variable (w : Pair)

abbrev Pair.token (p : Ticket) : String := ChallengeIsolation.token w.sha256 p

abbrev Pair.Answer := ChallengeIsolation.Answer w.sha256 w.hmac w.urlDecode w.L w.L'

abbrev Pair.Alike := ChallengeIsolation.Alike w.sha256 w.hmac w.urlDecode w.domain w.L w.L'

abbrev Pair.verify (entry : Entry) (r : Request) :=
  verifyStep w.sha256 w.hmac w.urlDecode entry.toChallenge r.verify

abbrev Pair.advance := ChallengeTier.advance w.sha256 w.hmac w.urlDecode

abbrev Pair.step := ChallengeTier.step w.sha256 w.hmac w.urlDecode

/-- The challenges of one request of another domain, each in its own run. -/
structure Pair.Twins (id : RequestId) (p p' : Ticket) : Prop where
  other : id.1 ≠ w.domain
  drawn : w.L id = some p
  drawn' : w.L' id = some p'

/-- Challenges that have not expired are in both stores, with the same attempts. -/
structure TokensRelated (now : Time) (s s' : TokenStore) : Prop where
  kept : ∀ {id p p' r}, w.Twins id p p' → s.inner.lookup (w.token p) = some r →
    SameTerms p p' ∧ ∃ k, r = recordAt p k ∧ s'.inner.lookup (w.token p') = some (recordAt p' k)
  back : ∀ {id p p' r'}, w.Twins id p p' → s'.inner.lookup (w.token p') = some r' →
    (∃ r, s.inner.lookup (w.token p) = some r) ∨
      (r'.expiresAt = p'.record.expiresAt ∧ p'.record.expiresAt ≤ now)
  owned : ∀ {t r}, s.inner.lookup t = some r →
    ∃ id p, w.L id = some p ∧ t = w.token p ∧ r.domain = id.1
  owned' : ∀ {t r}, s'.inner.lookup t = some r → ∃ id p p', w.Twins id p p' ∧ t = w.token p'

/-- Verifications of the two runs at the same point. -/
inductive PhaseRelated (entry : Entry) (r r' : Request) : Phase → Phase → Prop where
  | started : PhaseRelated entry r r' .started .started
  | unknown {t t' : String} {n n' : Option Nat} :
      (∀ secret domain identity now, parseStateless w.hmac secret t' domain identity now =
        parseStateless w.hmac secret t domain identity now) →
      (n' = n ∨ ∀ secret domain identity now,
        parseStateless w.hmac secret t domain identity now = none) →
      PhaseRelated entry r r' (.fetched t n none) (.fetched t' n' none)
  | fetched {id : RequestId} {p p' : Ticket} (k : Nat) : w.Twins id p p' →
      w.Answer entry r r' id p p' → SameTerms p p' →
      PhaseRelated entry r r' (.fetched (w.token p) (readQuery r.query).2 (some (recordAt p k)))
        (.fetched (w.token p') (readQuery r'.query).2 (some (recordAt p' k)))
  | failing {id : RequestId} {p p' : Ticket} : w.Twins id p p' →
      PhaseRelated entry r r' (.failing (w.token p)) (.failing (w.token p'))
  | removing {id : RequestId} {p p' : Ticket} : w.Twins id p p' →
      PhaseRelated entry r r' (.removing (w.token p)) (.removing (w.token p'))
  | taking {id : RequestId} {p p' : Ticket} (k : Nat) (fp fp' : Option String) :
      w.Twins id p p' → SameTerms p p' →
      PhaseRelated entry r r' (.taking (w.token p) (recordAt p k) fp)
        (.taking (w.token p') (recordAt p' k) fp')

/-- Requests of the two runs at the same point. A verification that failed an expired challenge
may have one step more to go in the first run, where the record has been swept. -/
inductive StageRelated (now : Time) (id : RequestId) (entry : Entry) (r r' : Request) :
    Stage → Stage → Prop where
  | escalating (level : Nat) : r' = r →
      StageRelated now id entry r r' (.escalating level) (.escalating level)
  | drawing (level : Nat) : r' = r →
      StageRelated now id entry r r' (.drawing level) (.drawing level)
  | counting (level n n' : Nat) : r' = r →
      StageRelated now id entry r r' (.counting level n) (.counting level n')
  | issuing (level : Nat) {p p' : Ticket} : r' = r → w.Twins id p p' → SameTerms p p' →
      p.record.attempts = 0 → p'.record.attempts = 0 → p.record.domain = id.1 →
      StageRelated now id entry r r' (.issuing level ⟨w.token p, p.record⟩)
        (.issuing level ⟨w.token p', p'.record⟩)
  | verifying {phase phase' : Phase} : entry.verifyPath.toList.isPrefixOf r.path.toList = true →
      PhaseRelated w entry r r' phase phase' →
      StageRelated now id entry r r' (.verifying phase) (.verifying phase')
  | swept {id' : RequestId} {p p' : Ticket} : w.Twins id' p p' → p'.record.expiresAt ≤ now →
      StageRelated now id entry r r' (.verifying (.removing (w.token p)))
        (.answered (.refused 403 "Challenge proof failed"))
  | clearing {record record' : ChallengeRecord} : record'.kind = record.kind →
      record'.target = record.target →
      StageRelated now id entry r r' (.clearing record) (.clearing record')
  | lowering {record record' : ChallengeRecord} : record'.target = record.target →
      StageRelated now id entry r r' (.lowering record) (.lowering record')
  | answered (outcome : Outcome) :
      StageRelated now id entry r r' (.answered outcome) (.answered outcome)

structure ThreadRelated (now : Time) (id : RequestId) (thread thread' : Thread) : Prop where
  entry : thread'.entry = thread.entry
  domain : thread.request.domain = id.1
  request : w.Alike thread.entry thread.request thread'.request
  stage : StageRelated w now id thread.entry thread.request thread'.request thread.stage
    thread'.stage

/-- A request of the domain has to do with its own tokens only. -/
def OwnStage (id : RequestId) : Stage → Prop
  | .issuing _ pending => ∃ p, w.L id = some p ∧ pending.token = w.token p ∧
      pending.record.domain = id.1
  | .verifying phase => ∀ t, Engaged t phase →
      ∃ id' p, id'.1 = w.domain ∧ w.L id' = some p ∧ t = w.token p
  | _ => True

structure OwnThread (id : RequestId) (thread : Thread) : Prop where
  domain : thread.request.domain = id.1
  stage : OwnStage w id thread.stage

/-- The first escalator has the clients of the domain besides those of the second. -/
structure EscalatorsRelated (A : String) (e e' : Escalator) : Prop where
  inner : AList.Without Prod.fst A e.inner e'.inner
  max : e'.max = e.max

structure LoopsRelated (A : String) (l l' : LoopDetector) : Prop where
  counts : AList.Without Prod.fst A l.counts l'.counts
  maxEntries : l'.maxEntries = l.maxEntries
  threshold : l'.threshold = l.threshold

/-- The token stores of the two runs, both with room for every label. -/
structure StoresRelated (labels : List String) (now : Time) (s s' : TokenStore) : Prop where
  tokens : TokensRelated w now s s'
  maxEntries : s'.maxEntries = s.maxEntries
  roomy : Roomy labels s
  roomy' : Roomy labels s'

/-- The shared state of the two runs at the same point. -/
structure StatesRelated (labels : List String) (now : Time) (s s' : State) : Prop where
  escalator : EscalatorsRelated w.domain s.escalator s'.escalator
  loops : LoopsRelated w.domain s.loops s'.loops
  stores : StoresRelated w labels now s.tokens s'.tokens

/-- The two runs at the same point. -/
structure Related (labels : List String) (now : Time) (s s' : System) : Prop where
  states : StatesRelated w labels now s.toState s'.toState
  labelled : ∀ id thread, s.threads.lookup id = some thread → id.1 ∈ labels
  others : ∀ id, id.1 ≠ w.domain →
    (s.threads.lookup id = none ∧ s'.threads.lookup id = none) ∨
    ∃ thread thread', s.threads.lookup id = some thread ∧ s'.threads.lookup id = some thread' ∧
      ThreadRelated w now id thread thread'
  own : ∀ id thread, id.1 = w.domain → s.threads.lookup id = some thread → OwnThread w id thread

end pairs

/-! ## Steps on the token store -/

section tokens

variable {w : Pair} {now : Time} {s s' : TokenStore} {id : RequestId} {p p' : Ticket}

theorem hex_token (p : Ticket) : Hex (token sha256 p) := ⟨_, rfl⟩

theorem Pair.Twins.unique (h : w.Twins id p p') (hq : w.Twins id q q') : q = p ∧ q' = p' :=
  ⟨Option.some.inj (hq.drawn.symm.trans h.drawn), Option.some.inj (hq.drawn'.symm.trans h.drawn')⟩

section

variable (h : TokensRelated w now s s')
include h

theorem TokensRelated.later (hle : now ≤ now') : TokensRelated w now' s s' :=
  ⟨h.kept, fun htwins hr' => (h.back htwins hr').imp_right
    (And.imp_right fun hexpired => Nat.le_trans hexpired hle), h.owned, h.owned'⟩

/-- A record of the second store that has not expired is in the first one. -/
theorem TokensRelated.back_live (htwins : w.Twins id p p')
    (hr' : s'.inner.lookup (w.token p') = some r') (hlive : now < r'.expiresAt) :
    ∃ k, SameTerms p p' ∧ s.inner.lookup (w.token p) = some (recordAt p k) ∧
      r' = recordAt p' k := by
  rcases h.back htwins hr' with ⟨r, hr⟩ | ⟨hsame, hexpired⟩
  · obtain ⟨hterms, k, rfl, hk⟩ := h.kept htwins hr
    exact ⟨k, hterms, hr, Option.some.inj (hr'.symm.trans hk)⟩
  · exact absurd hlive (Nat.not_lt.mpr (hsame ▸ hexpired))

/-- Issuing a token of the domain leaves the others alone. -/
theorem TokensRelated.issue_own (hid : id.1 = w.domain) (hp : w.L id = some p)
    (hdomain : record.domain = id.1) (hle : now ≤ now') :
    TokensRelated w now' (s.issue (w.token p) record now').2 s' := by
  have hne {id₂ q q'} (htwins : w.Twins id₂ q q') : w.token q ≠ w.token p := fun heq =>
    htwins.other (w.separate id₂ id q p htwins.drawn hp heq ▸ hid)
  refine ⟨fun htwins hr => ?_, fun {id₂ q q' r'} htwins hr' => ?_, fun {t r} hr => ?_, h.owned'⟩
  · rcases lookup_issue hr with ⟨-, heq, -⟩ | ⟨-, hold⟩
    · exact absurd heq (hne htwins)
    · exact h.kept htwins hold
  · rcases h.back htwins hr' with ⟨r, hr⟩ | ⟨hsame, hexpired⟩
    · obtain ⟨hterms, k, rfl, hk⟩ := h.kept htwins hr
      cases Option.some.inj (hr'.symm.trans hk)
      rcases Nat.lt_or_ge now' q.record.expiresAt with hlive | hexpired
      · exact .inl ⟨_, lookup_issue_of_live _ record hr hlive fun _ => hne htwins⟩
      · exact .inr ⟨rfl, hterms.expiresAt ▸ hexpired⟩
    · exact .inr ⟨hsame, Nat.le_trans hexpired hle⟩
  · rcases lookup_issue hr with ⟨-, rfl, rfl⟩ | ⟨-, hold⟩
    · exact ⟨id, p, hp, rfl, hdomain⟩
    · exact h.owned hold

/-- The second store has no more live records than the first. -/
theorem TokensRelated.size_le (hle : now ≤ now') :
    (s'.sweepExpired now').inner.size ≤ (s.sweepExpired now').inner.size := by
  have htwin : ∀ t', ∃ t, ∀ r', (s'.sweepExpired now').inner.lookup t' = some r' →
      ∃ id p p', w.Twins id p p' ∧ t' = w.token p' ∧ t = w.token p := by
    intro t'
    cases hlookup : (s'.sweepExpired now').inner.lookup t' with
    | none => exact ⟨t', fun r' hr' => by cases hr'⟩
    | some r₀ =>
      obtain ⟨id, p, p', htwins, ht'⟩ := h.owned' (lookup_sweepExpired_iff.mp hlookup).1
      exact ⟨w.token p, fun _ _ => ⟨id, p, p', htwins, ht', rfl⟩⟩
  choose twin htwin using htwin
  refine AList.size_le_of_injOn _ _ twin (fun t' r' hr' => ?_) fun t₁ t₂ r₁ r₂ hr₁ hr₂ heq => ?_
  · obtain ⟨id, p, p', htwins, rfl, ht⟩ := htwin t' r' hr'
    obtain ⟨hold, hlive⟩ := lookup_sweepExpired_iff.mp hr'
    obtain ⟨k, hterms, hr, rfl⟩ := h.back_live htwins hold (Nat.lt_of_le_of_lt hle hlive)
    have hexpires := hterms.expiresAt.symm
    rw [ht]
    exact Option.isSome_iff_exists.mpr ⟨_, lookup_sweepExpired_iff.mpr ⟨hr, hexpires ▸ hlive⟩⟩
  · obtain ⟨id₁, p₁, p₁', htwins₁, ht₁, hk₁⟩ := htwin t₁ r₁ hr₁
    obtain ⟨id₂, p₂, p₂', htwins₂, ht₂, hk₂⟩ := htwin t₂ r₂ hr₂
    have hid := w.separate id₁ id₂ p₁ p₂ htwins₁.drawn htwins₂.drawn
      (hk₁.symm.trans (heq.trans hk₂))
    subst hid
    rw [ht₁, ht₂, (htwins₁.unique htwins₂).2]

/-- Where the first store has room for a token, the second one has room for its twin. -/
theorem TokensRelated.room (hmax : s'.maxEntries = s.maxEntries) (htwins : w.Twins id p p')
    (hle : now ≤ now') (hroom : s.entriesFull (w.token p) now' = false) :
    s'.entriesFull (w.token p') now' = false := by
  have hsize := h.size_le hle
  have hmax₁ := (sweepExpired_bounds s now').2.2
  have hmax₂ := (sweepExpired_bounds s' now').2.2
  simp only [entriesFull, Bool.and_eq_false_iff, decide_eq_false_iff_not,
    Option.isNone_eq_false_iff] at hroom ⊢
  rcases hroom with hsome | hfew
  · obtain ⟨r, hr⟩ := Option.isSome_iff_exists.mp hsome
    obtain ⟨hold, hlive⟩ := lookup_sweepExpired_iff.mp hr
    obtain ⟨hterms, k, rfl, hk⟩ := h.kept htwins hold
    have hexpires := hterms.expiresAt
    exact .inl (Option.isSome_iff_exists.mpr
      ⟨_, lookup_sweepExpired_iff.mpr ⟨hk, hexpires ▸ hlive⟩⟩)
  · right
    omega

/-- The domain a challenge is stored under. -/
theorem TokensRelated.domain (hp : w.L id = some p) (hr : s.inner.lookup (w.token p) = some r) :
    r.domain = id.1 := by
  obtain ⟨id₂, q, hq, heq, hdomain⟩ := h.owned hr
  rw [hdomain, w.separate id id₂ p q hp hq heq]

end

end tokens

/-! ## Steps of a verification -/

section verification

variable {w : Pair} {now : Time} {s s' : TokenStore} {id : RequestId} {p p' : Ticket}

/-- A step of a verification touches the token it has seen. -/
theorem verifyStep_frame (h : ¬ Engaged u phase) :
    (verifyStep sha256 hmac urlDecode c q now s phase).2.inner.lookup u = s.inner.lookup u := by
  cases phase with
  | started =>
    simp only [verifyStep]
    split <;> rfl
  | fetched | done => rfl
  | failing token => exact lookup_incrementAttempts_ne fun heq => h heq.symm
  | removing token => exact lookup_remove_ne fun heq => h heq.symm
  | taking token record fingerprint => exact lookup_take_ne fun heq => h heq.symm

/-- A verification comes to see records of its own domain. -/
theorem verifyStep_sees (h : Engaged t (w.verify entry r now s phase).1) :
    Engaged t phase ∨ ∃ r', s.inner.lookup t = some r' ∧ r'.domain = r.domain := by
  rcases verifyStep_engaged h with h | ⟨-, r, hget⟩
  · exact .inl h
  obtain ⟨hlookup, hbelongs⟩ := Option.filter_eq_some_iff.mp hget
  simp only [belongs, Bool.and_eq_true, beq_iff_eq] at hbelongs
  exact .inr ⟨r, hlookup, hbelongs.1.2⟩

section

variable (h : TokensRelated w now s s')
include h

/-- The step of a verification of the domain leaves the other domains alone. -/
theorem TokensRelated.verify_own (hid : id.1 = w.domain) (entry : Entry) {r : Request}
    (hdomain : r.domain = id.1) (hle : now ≤ now') (hphase : OwnStage w id (.verifying phase)) :
    TokensRelated w now' (w.verify entry r now' s phase).2 s' ∧
      OwnStage w id (settle (w.verify entry r now' s phase).1) := by
  have hframe {id₂ q q'} (htwins : w.Twins id₂ q q') :
      (w.verify entry r now' s phase).2.inner.lookup (w.token q) = s.inner.lookup (w.token q) := by
    refine verifyStep_frame fun hengaged => ?_
    obtain ⟨id₃, p, hid₃, hp, heq⟩ := hphase _ hengaged
    exact htwins.other (w.separate id₂ id₃ q p htwins.drawn hp heq ▸ hid₃)
  constructor
  · refine TokensRelated.later ⟨fun htwins hr => ?_, fun htwins hr' => ?_, fun {t r₁} hr => ?_,
      h.owned'⟩ hle
    · rw [hframe htwins] at hr
      exact h.kept htwins hr
    · rw [hframe htwins]
      exact h.back htwins hr'
    · obtain ⟨r₀, hr₀, hsame, -⟩ :=
        ChallengeSingleUse.verifyStep_shrinks _ _ _ _ _ _ s phase t r₁ hr
      obtain ⟨id₂, q, hq, ht, hr₀⟩ := h.owned hr₀
      exact ⟨id₂, q, hq, ht, hsame.trans hr₀⟩
  · have hsees {t} (h : Engaged t (w.verify entry r now' s phase).1) := verifyStep_sees h
    generalize (w.verify entry r now' s phase).1 = phase' at hsees
    have hown : OwnStage w id (.verifying phase') := by
      intro t hengaged
      rcases hsees hengaged with hbefore | ⟨r₁, hr₁, hsame⟩
      · exact hphase t hbefore
      · obtain ⟨id₂, q, hq, ht, hr₁⟩ := h.owned hr₁
        exact ⟨id₂, q, (hr₁.symm.trans hsame).trans (hdomain.trans hid), hq, ht⟩
    cases phase' with
    | done verdict => cases verdict <;> trivial
    | _ => exact hown

end

/-- Whether the record of a challenge is the client's is the same in both runs. -/
theorem belongs_recordAt (hterms : SameTerms p p') (domain identity : String) (now : Time) (k : Nat)
    :
    belongs domain identity now (recordAt p' k) = belongs domain identity now (recordAt p k) := by
  rw [belongs, belongs, recordAt, hterms.domain, hterms.identity, hterms.expiresAt]
  rfl

section twins

variable (h : TokensRelated w now s s') (htwins : w.Twins id p p')
include h htwins

/-- Issuing a token of another domain, in both runs. -/
theorem TokensRelated.issue (hterms : SameTerms p p') (hfresh : p.record.attempts = 0)
    (hfresh' : p'.record.attempts = 0) (hdomain : p.record.domain = id.1) (hle : now ≤ now')
    (hok : (s.issue (w.token p) p.record now').1 = .ok ())
    (hok' : (s'.issue (w.token p') p'.record now').1 = .ok ()) :
    TokensRelated w now' (s.issue (w.token p) p.record now').2
      (s'.issue (w.token p') p'.record now').2 := by
  have hnew := lookup_issue_self hok
  have hnew' := lookup_issue_self hok'
  have hne {id₂ q q'} (hq : w.Twins id₂ q q') (hne : id₂ ≠ id) : w.token q ≠ w.token p :=
    fun heq => hne (w.separate _ _ _ _ hq.drawn htwins.drawn heq)
  have hne' {id₂ q q'} (hq : w.Twins id₂ q q') (hne : id₂ ≠ id) : w.token q' ≠ w.token p' :=
    fun heq => hne (w.separate' _ _ _ _ hq.drawn' htwins.drawn' heq)
  refine ⟨fun {id₂ q q' r} hq hr => ?_, fun {id₂ q q' r'} hq hr' => ?_, fun {t r} hr => ?_,
    fun {t r} hr => ?_⟩
  · by_cases hsame : id₂ = id
    · subst hsame
      obtain ⟨rfl, rfl⟩ := htwins.unique hq
      cases Option.some.inj (hr.symm.trans hnew)
      refine ⟨hterms, 0, ?_, ?_⟩
      · rw [recordAt, ← hfresh]
      · rw [hnew', recordAt, ← hfresh']
    · rcases lookup_issue hr with ⟨-, heq, -⟩ | ⟨-, hold⟩
      · exact absurd heq (hne hq hsame)
      have hlive := live_of_lookup_issue (hne hq hsame) hr
      obtain ⟨hterms₂, k, rfl, hk⟩ := h.kept hq hold
      refine ⟨hterms₂, k, rfl, lookup_issue_of_live _ _ hk ?_ fun _ => hne' hq hsame⟩
      have hexpires : (recordAt q' k).expiresAt = (recordAt q k).expiresAt := hterms₂.expiresAt
      rw [hexpires]
      exact hlive
  · by_cases hsame : id₂ = id
    · subst hsame
      obtain ⟨rfl, -⟩ := htwins.unique hq
      exact .inl ⟨_, hnew⟩
    rcases lookup_issue hr' with ⟨-, heq, -⟩ | ⟨-, hold⟩
    · exact absurd heq (hne' hq hsame)
    have hlive := live_of_lookup_issue (hne' hq hsame) hr'
    obtain ⟨k, hterms₂, hr, rfl⟩ := h.back_live hq hold (Nat.lt_of_le_of_lt hle hlive)
    have hexpires := hterms₂.expiresAt.symm
    exact .inl ⟨_, lookup_issue_of_live _ _ hr (hexpires ▸ hlive) fun _ => hne hq hsame⟩
  · rcases lookup_issue hr with ⟨-, rfl, rfl⟩ | ⟨-, hold⟩
    · exact ⟨id, p, htwins.drawn, rfl, hdomain⟩
    · exact h.owned hold
  · rcases lookup_issue hr with ⟨-, rfl, -⟩ | ⟨-, hold⟩
    · exact ⟨id, p, p', htwins, rfl⟩
    · exact h.owned' hold

/-- The stores stay related when only the record of one challenge changes, in both. -/
theorem TokensRelated.at_pair
    (hframe : ∀ u, u ≠ w.token p → s₁.inner.lookup u = s.inner.lookup u)
    (hframe' : ∀ u, u ≠ w.token p' → s₁'.inner.lookup u = s'.inner.lookup u)
    (hkept : ∀ r, s₁.inner.lookup (w.token p) = some r → SameTerms p p' ∧ r.domain = id.1 ∧
      ∃ k, r = recordAt p k ∧ s₁'.inner.lookup (w.token p') = some (recordAt p' k))
    (hback : ∀ r', s₁'.inner.lookup (w.token p') = some r' →
      (∃ r, s₁.inner.lookup (w.token p) = some r) ∨
        (r'.expiresAt = p'.record.expiresAt ∧ p'.record.expiresAt ≤ now)) :
    TokensRelated w now s₁ s₁' := by
  have hother {id₂ q q'} (hq : w.Twins id₂ q q') (hne : id₂ ≠ id) :
      s₁.inner.lookup (w.token q) = s.inner.lookup (w.token q) ∧
        s₁'.inner.lookup (w.token q') = s'.inner.lookup (w.token q') :=
    ⟨hframe _ fun heq => hne (w.separate _ _ _ _ hq.drawn htwins.drawn heq),
      hframe' _ fun heq => hne (w.separate' _ _ _ _ hq.drawn' htwins.drawn' heq)⟩
  refine ⟨fun {id₂ q q' r} hq hr => ?_, fun {id₂ q q' r'} hq hr' => ?_, fun {t r} hr => ?_,
    fun {t r} hr => ?_⟩
  · by_cases hsame : id₂ = id
    · subst hsame
      obtain ⟨rfl, rfl⟩ := htwins.unique hq
      exact ⟨(hkept r hr).1, (hkept r hr).2.2⟩
    · rw [(hother hq hsame).1] at hr
      rw [(hother hq hsame).2]
      exact h.kept hq hr
  · by_cases hsame : id₂ = id
    · subst hsame
      obtain ⟨rfl, rfl⟩ := htwins.unique hq
      exact hback r' hr'
    · rw [(hother hq hsame).2] at hr'
      rw [(hother hq hsame).1]
      exact h.back hq hr'
  · by_cases ht : t = w.token p
    · exact ⟨id, p, htwins.drawn, ht, (hkept r (ht ▸ hr)).2.1⟩
    · rw [hframe t ht] at hr
      exact h.owned hr
  · by_cases ht : t = w.token p'
    · exact ⟨id, p, p', htwins, ht⟩
    · rw [hframe' t ht] at hr
      exact h.owned' hr

/-- The record of a challenge goes, in the first run and, unless it has expired, in both. -/
theorem TokensRelated.gone (hframe : ∀ u, u ≠ w.token p → s₁.inner.lookup u = s.inner.lookup u)
    (hframe' : ∀ u, u ≠ w.token p' → s₁'.inner.lookup u = s'.inner.lookup u)
    (hnone : s₁.inner.lookup (w.token p) = none)
    (hback : ∀ r', s₁'.inner.lookup (w.token p') = some r' →
      r'.expiresAt = p'.record.expiresAt ∧ p'.record.expiresAt ≤ now) :
    TokensRelated w now s₁ s₁' := by
  refine h.at_pair htwins hframe hframe' (fun r hr => ?_) fun r' hr' => .inr (hback r' hr')
  rw [hnone] at hr
  cases hr

theorem TokensRelated.remove :
    TokensRelated w now (s.remove (w.token p)).2 (s'.remove (w.token p')).2 := by
  refine h.gone htwins (fun _ => lookup_remove_ne) (fun _ => lookup_remove_ne)
    (lookup_remove_self ..) fun r' hr' => ?_
  rw [lookup_remove_self] at hr'
  cases hr'

/-- A failed attempt on a challenge, in both runs: they agree on the count, unless the first run
has swept the record, and then it has expired. -/
theorem TokensRelated.failing :
    TokensRelated w now (s.incrementAttempts (w.token p)).2
      (s'.incrementAttempts (w.token p')).2 ∧
    ((s'.incrementAttempts (w.token p')).1 = (s.incrementAttempts (w.token p)).1 ∨
      ((s.incrementAttempts (w.token p)).1 = none ∧ p'.record.expiresAt ≤ now)) := by
  have hframe' : ∀ u, u ≠ w.token p' →
      (s'.incrementAttempts (w.token p')).2.inner.lookup u = s'.inner.lookup u :=
    fun u hu => lookup_incrementAttempts_ne hu
  cases hlookup : s.inner.lookup (w.token p) with
  | some r =>
    have hdomain := h.domain htwins.drawn hlookup
    obtain ⟨hterms, k, rfl, hk⟩ := h.kept htwins hlookup
    obtain ⟨hcount, hnew⟩ := incrementAttempts_of_some hlookup
    obtain ⟨hcount', hnew'⟩ := incrementAttempts_of_some hk
    refine ⟨h.at_pair htwins (fun _ => lookup_incrementAttempts_ne) hframe' (fun r hr => ?_)
      fun _ _ => .inl ⟨_, hnew⟩, .inl (hcount'.trans hcount.symm)⟩
    cases Option.some.inj (hr.symm.trans hnew)
    exact ⟨hterms, hdomain, satAdd32 k 1, rfl, hnew'⟩
  | none =>
    have hnone : s.incrementAttempts (w.token p) = (none, s) := by
      simp [incrementAttempts, hlookup]
    rw [hnone]
    cases hlookup' : s'.inner.lookup (w.token p') with
    | none =>
      have hnone' : s'.incrementAttempts (w.token p') = (none, s') := by
        simp [incrementAttempts, hlookup']
      rw [hnone']
      exact ⟨h, .inl rfl⟩
    | some r' =>
      obtain ⟨-, hnew'⟩ := incrementAttempts_of_some hlookup'
      have hexpired := (h.back htwins hlookup').resolve_left (by simp [hlookup])
      refine ⟨h.gone htwins (fun _ _ => rfl) hframe' hlookup fun r₁' hr₁' => ?_,
        .inr ⟨rfl, hexpired.2⟩⟩
      cases Option.some.inj (hr₁'.symm.trans hnew')
      exact hexpired

/-- Taking a challenge out, in both runs. -/
theorem TokensRelated.take (domain identity : String) :
    TokensRelated w now (s.take (w.token p) domain identity now).2
      (s'.take (w.token p') domain identity now).2 ∧
    (s'.take (w.token p') domain identity now).1.isNone =
      (s.take (w.token p) domain identity now).1.isNone := by
  have hframe : ∀ (s : TokenStore) (t d u : String), u ≠ t →
      ({ s with inner := s.inner.erase t }.countExpired d 1).inner.lookup u = s.inner.lookup u :=
    fun s t _ u hu => (AList.lookup_erase_if ..).trans (if_neg hu)
  cases hlookup : s.inner.lookup (w.token p) with
  | some r =>
    obtain ⟨hterms, k, rfl, hk⟩ := h.kept htwins hlookup
    have hexpires : (recordAt p' k).expiresAt = (recordAt p k).expiresAt := hterms.expiresAt
    simp only [TokenStore.take, hlookup, hk, belongs_recordAt hterms, hexpires]
    split
    · refine ⟨h.remove htwins, ?_⟩
      simp only [TokenStore.remove, hlookup, hk, Option.isNone_some]
    split
    · refine ⟨h.gone htwins (hframe _ _ _) (hframe _ _ _) (AList.lookup_erase _ _)
        fun r' hr' => ?_, rfl⟩
      rw [countExpired, AList.lookup_erase] at hr'
      cases hr'
    · exact ⟨h, rfl⟩
  | none =>
    have hnone : s.take (w.token p) domain identity now = (none, s) := by
      simp [TokenStore.take, hlookup]
    cases hlookup' : s'.inner.lookup (w.token p') with
    | none =>
      have hnone' : s'.take (w.token p') domain identity now = (none, s') := by
        simp [TokenStore.take, hlookup']
      rw [hnone, hnone']
      exact ⟨h, rfl⟩
    | some r' =>
      obtain ⟨hsame, hexpired⟩ := (h.back htwins hlookup').resolve_left (by simp [hlookup])
      have hold : r'.expiresAt ≤ now := hsame ▸ hexpired
      have hforeign : belongs domain identity now r' = false := by
        simp [belongs, Nat.not_lt.mpr hold]
      rw [hnone]
      simp only [TokenStore.take, hlookup', hforeign, Bool.false_eq_true, if_false, if_pos hold]
      refine ⟨h.gone htwins (fun _ _ => rfl) (hframe _ _ _) hlookup fun r₁' hr₁' => ?_, trivial⟩
      rw [countExpired, AList.lookup_erase] at hr₁'
      cases hr₁'

/-- The one step more of a verification whose record has been swept. -/
theorem TokensRelated.swept (hexpired : p'.record.expiresAt ≤ now) :
    TokensRelated w now (s.remove (w.token p)).2 s' := by
  refine h.gone htwins (fun _ => lookup_remove_ne) (fun _ _ => rfl) (lookup_remove_self ..)
    fun r' hr' => ⟨?_, hexpired⟩
  rcases h.back htwins hr' with ⟨r, hr⟩ | ⟨hsame, -⟩
  · obtain ⟨-, k, -, hk⟩ := h.kept htwins hr
    cases Option.some.inj (hr'.symm.trans hk)
    rfl
  · exact hsame

end twins

/-- What the token of a request finds, in both runs. -/
theorem get_related (h : TokensRelated w now s s') (hid : id.1 ≠ w.domain)
    (hdomain : r.domain = id.1) (halike : w.Alike entry r r')
    (hpath : entry.verifyPath.toList.isPrefixOf r.path.toList = true) (hle : now ≤ now') :
    ((readQuery r.query).1 = none ∧ (readQuery r'.query).1 = none) ∨
    ∃ t t', (readQuery r.query).1 = some t ∧ (readQuery r'.query).1 = some t' ∧
      PhaseRelated w entry r r'
        (.fetched t (readQuery r.query).2 (s.get t r.domain r.identity now'))
        (.fetched t' (readQuery r'.query).2 (s'.get t' r'.domain r'.identity now')) := by
  rw [halike.domain, halike.identity]
  rcases halike.answer hpath with ⟨id₂, p, p', hid₂, hanswer⟩ | ⟨hnonce, hnone | ⟨t, t', ht, ht', hown,
    hown', hparse⟩⟩
  · refine .inr ⟨_, _, hanswer.named, hanswer.named', ?_⟩
    have htwins : w.Twins id₂ p p' := ⟨hid₂, hanswer.drawn, hanswer.drawn'⟩
    have hunknown : PhaseRelated w entry r r' (.fetched (w.token p) (readQuery r.query).2 none)
        (.fetched (w.token p') (readQuery r'.query).2 none) :=
      .unknown (fun secret domain identity now => by
        rw [parseStateless_hex (hex_token p), parseStateless_hex (hex_token p')])
        (.inr fun secret domain identity now => parseStateless_hex (hex_token p) ..)
    simp only [TokenStore.get]
    cases hlookup : s.inner.lookup (w.token p) with
    | some record =>
      obtain ⟨hterms, k, rfl, hk⟩ := h.kept htwins hlookup
      rw [hk]
      cases hbelongs : belongs r.domain r.identity now' (recordAt p k) with
      | true =>
        rw [Option.filter_some_pos hbelongs,
          Option.filter_some_pos ((belongs_recordAt hterms ..).trans hbelongs)]
        exact .fetched k htwins hanswer hterms
      | false =>
        rw [Option.filter_some_neg (by simp [hbelongs]),
          Option.filter_some_neg (by simp [belongs_recordAt hterms, hbelongs])]
        exact hunknown
    | none =>
      cases hlookup' : s'.inner.lookup (w.token p') with
      | none => exact hunknown
      | some record' =>
        obtain ⟨hsame, hexpired⟩ := (h.back htwins hlookup').resolve_left (by simp [hlookup])
        have hold : record'.expiresAt ≤ now' := Nat.le_trans (hsame ▸ hexpired) hle
        rw [Option.filter_some_neg (by simp [belongs, Nat.not_lt.mpr hold])]
        exact hunknown
  · exact .inl hnone
  · refine .inr ⟨t, t', ht, ht', ?_⟩
    have hget : s.get t r.domain r.identity now' = none := by
      rw [TokenStore.get]
      cases hlookup : s.inner.lookup t with
      | none => rfl
      | some record =>
        obtain ⟨id₂, p, hp, heq, hr⟩ := h.owned hlookup
        have hA : id₂.1 = w.domain := Classical.byContradiction fun hne => hown id₂ p hne hp heq
        have hother : record.domain ≠ r.domain := fun heq =>
          hid (hdomain.symm.trans (heq.symm.trans (hr.trans hA)))
        exact Option.filter_some_neg (by simp [belongs, hother])
    have hget' : s'.get t' r.domain r.identity now' = none := by
      rw [TokenStore.get]
      cases hlookup : s'.inner.lookup t' with
      | none => rfl
      | some record =>
        obtain ⟨id₂, p, p', htwins, heq⟩ := h.owned' hlookup
        exact absurd heq (hown' id₂ p' htwins.drawn')
    rw [hget, hget']
    exact .unknown hparse (.inl hnonce)

/-- A verification is judged the same way in both runs. -/
theorem judge_related (halike : w.Alike entry r r')
    (hpath : entry.verifyPath.toList.isPrefixOf r.path.toList = true)
    (hphase : PhaseRelated w entry r r' (.fetched t n f) (.fetched t' n' f')) :
    StageRelated w now id entry r r'
      (settle (judge w.sha256 w.hmac w.urlDecode entry.toChallenge r.verify t n f now))
      (settle (judge w.sha256 w.hmac w.urlDecode entry.toChallenge r'.verify t' n' f' now)) := by
  have hd : r'.verify.domain = r.verify.domain := halike.domain
  have hi : r'.verify.identity = r.verify.identity := halike.identity
  cases hphase with
  | unknown hparse hnonce =>
    simp only [judge, Option.none_or, hparse, hd, hi]
    cases hfound : parseStateless w.hmac entry.secret t r.verify.domain r.verify.identity now with
    | none => exact .answered _
    | some found =>
      have hkind := kind_of_parseStateless w.hmac hfound
      have hn : n' = n := hnonce.resolve_right fun hnone => by
        rw [hnone] at hfound
        cases hfound
      subst hn
      simp only [hkind, true_and, signedFingerprint, String.reduceEq, if_false]
      split
      · exact .answered _
      · exact .clearing rfl rfl
  | @fetched id₂ p p' k htwins hanswer hterms =>
    have hfp : ∀ (q : VerifyRequest) (t : String) (p : Ticket),
        signedFingerprint w.hmac w.urlDecode entry.toChallenge q t (recordAt p k) =
          signedFingerprint w.hmac w.urlDecode entry.toChallenge q t p.record := fun _ _ _ => rfl
    have hproof : (recordAt p' k).kind = "pow" ∧ powSolved w.sha256 (recordAt p' k).salt
        ((readQuery r'.query).2.getD u64Max) (recordAt p' k).difficulty = false ↔
        (recordAt p k).kind = "pow" ∧ powSolved w.sha256 (recordAt p k).salt
        ((readQuery r.query).2.getD u64Max) (recordAt p k).difficulty = false := by
      show p'.record.kind = "pow" ∧ powSolved w.sha256 p'.record.salt _ p'.record.difficulty =
        false ↔ p.record.kind = "pow" ∧ powSolved w.sha256 p.record.salt _ p.record.difficulty = false
      rw [hterms.kind, hanswer.proof]
    simp only [judge, Option.some_or, Option.isSome_some, if_true, hproof, hfp]
    split
    · exact .verifying hpath (.failing htwins)
    have hsome := hanswer.fingerprint
    cases hsigned : signedFingerprint w.hmac w.urlDecode entry.toChallenge r.verify (w.token p)
        p.record with
    | none =>
      rw [hsigned] at hsome
      rw [Option.isSome_eq_false_iff.mp hsome.symm |> Option.isNone_iff_eq_none.mp]
      exact .answered _
    | some fp =>
      rw [hsigned] at hsome
      obtain ⟨fp', hsigned'⟩ := Option.isSome_iff_exists.mp hsome.symm
      rw [hsigned']
      exact .verifying hpath (.taking k fp fp' htwins hterms)

/-- The step of a verification of another domain, in both runs. -/
theorem verify_related (h : TokensRelated w now s s') (hid : id.1 ≠ w.domain)
    (hdomain : r.domain = id.1) (halike : w.Alike entry r r')
    (hpath : entry.verifyPath.toList.isPrefixOf r.path.toList = true)
    (hphase : PhaseRelated w entry r r' phase phase') (hle : now ≤ now') :
    TokensRelated w now' (w.verify entry r now' s phase).2 (w.verify entry r' now' s' phase').2 ∧
    StageRelated w now' id entry r r' (settle (w.verify entry r now' s phase).1)
      (settle (w.verify entry r' now' s' phase').1) := by
  have hlater := h.later hle
  cases hphase with
  | started =>
    rcases get_related h hid hdomain halike hpath hle with ⟨hn, hn'⟩ | ⟨t, t', ht, ht', hfetched⟩
    · simp only [Pair.verify, verifyStep, Request.verify, hn, hn']
      exact ⟨hlater, .answered _⟩
    · simp only [Pair.verify, verifyStep, Request.verify, ht, ht']
      exact ⟨hlater, .verifying hpath hfetched⟩
  | unknown hparse hnonce =>
    exact ⟨hlater, judge_related halike hpath (.unknown hparse hnonce)⟩
  | fetched k htwins hanswer hterms =>
    exact ⟨hlater, judge_related halike hpath (.fetched k htwins hanswer hterms)⟩
  | failing htwins =>
    obtain ⟨htokens, hcount⟩ := hlater.failing htwins
    refine ⟨htokens, ?_⟩
    simp only [Pair.verify, verifyStep]
    rcases hcount with hcount | ⟨hcount, hexpired⟩
    · rw [hcount]
      split
      · exact .verifying hpath (.removing htwins)
      · exact .answered _
    · rw [hcount, Option.getD_none, if_pos (Nat.le_refl _)]
      split
      · exact .verifying hpath (.removing htwins)
      · exact .swept htwins hexpired
  | removing htwins => exact ⟨hlater.remove htwins, .answered _⟩
  | taking k fp fp' htwins hterms =>
    have hd : r'.verify.domain = r.verify.domain := halike.domain
    have hi : r'.verify.identity = r.verify.identity := halike.identity
    obtain ⟨htokens, htaken⟩ := hlater.take htwins r.verify.domain r.verify.identity
    simp only [Pair.verify, verifyStep, hd, hi, htaken]
    refine ⟨htokens, ?_⟩
    split
    · exact .answered _
    · exact .clearing hterms.kind hterms.target

end verification

/-! ## Steps on the other stores -/

section counts

variable {A : String} {e e' : Escalator} {l l' : LoopDetector} {domain identity kind : String}

section

variable (h : EscalatorsRelated A e e') (decay : Duration) (now now' : Time)
include h

/-- A failure of a client of the domain. -/
theorem EscalatorsRelated.failure_own (hdomain : domain = A) (ladder : List Nat) :
    EscalatorsRelated A (e.failure domain identity ladder decay now now').2 e' := by
  simp only [Escalator.failure]
  split
  · exact h
  · exact ⟨h.inner.insert_own hdomain _, h.max⟩

theorem EscalatorsRelated.success_own (hdomain : domain = A) :
    EscalatorsRelated A (e.success domain identity decay now now').2 e' := by
  simp only [Escalator.success]
  split
  · exact h
  · exact ⟨h.inner.insert_own hdomain _, h.max⟩

/-- A failure of a client of another domain, in both runs. -/
theorem EscalatorsRelated.failure (hdomain : domain ≠ A) (hroom : e.full (domain, identity) = false)
    (ladder : List Nat) :
    (e'.failure domain identity ladder decay now now').1 =
        (e.failure domain identity ladder decay now now').1 ∧
      EscalatorsRelated A (e.failure domain identity ladder decay now now').2
        (e'.failure domain identity ladder decay now now').2 := by
  have hlookup := h.inner.lookup (k := (domain, identity)) hdomain
  have hroom' : e'.full (domain, identity) = false := by
    have hsize := h.inner.size_le
    simp only [Escalator.full, Bool.and_eq_false_iff, decide_eq_false_iff_not, h.max,
      hlookup] at hroom ⊢
    exact hroom.imp_left fun hfew => by omega
  simp only [Escalator.failure, hroom, hroom', Bool.false_eq_true, if_false, hlookup]
  exact ⟨trivial, h.inner.insert hdomain _, h.max⟩

theorem EscalatorsRelated.success (hdomain : domain ≠ A) (identity : String) :
    EscalatorsRelated A (e.success domain identity decay now now').2
      (e'.success domain identity decay now now').2 := by
  simp only [Escalator.success, h.inner.lookup (k := (domain, identity)) hdomain]
  split
  · exact h
  · exact ⟨h.inner.insert hdomain _, h.max⟩

end

section

variable (h : LoopsRelated A l l')
include h

theorem LoopsRelated.issued_own (hdomain : domain = A) :
    LoopsRelated A (l.issued domain identity kind).2 l' := by
  simp only [LoopDetector.issued]
  split
  · exact h
  · exact ⟨h.counts.insert_own hdomain _, h.maxEntries, h.threshold⟩

/-- A challenge for a client of another domain, in both runs. -/
theorem LoopsRelated.issued (hdomain : domain ≠ A)
    (hroom : l.full (domain, identity, kind) = false) :
    (l'.issued domain identity kind).1 = (l.issued domain identity kind).1 ∧
      LoopsRelated A (l.issued domain identity kind).2 (l'.issued domain identity kind).2 := by
  have hlookup := h.counts.lookup (k := (domain, identity, kind)) hdomain
  have hroom' : l'.full (domain, identity, kind) = false := by
    have hsize := h.counts.size_le
    simp only [LoopDetector.full, Bool.and_eq_false_iff, decide_eq_false_iff_not, h.maxEntries,
      hlookup] at hroom ⊢
    exact hroom.imp_right fun hfew => by omega
  simp only [LoopDetector.issued, hroom, hroom', Bool.false_eq_true, if_false, hlookup]
  exact ⟨trivial, h.counts.insert hdomain _, h.maxEntries, h.threshold⟩

end

end counts

/-! ## Steps of the tier -/

section steps

variable {w : Pair} {labels : List String} {now now' : Time} {id : RequestId} {entry : Entry}
  {r r' : Request}

section stores

variable {s s' : TokenStore} (h : StoresRelated w labels now s s') (hle : now ≤ now')
include h hle

theorem StoresRelated.issue_own (hid : id.1 = w.domain) (hlabel : id.1 ∈ labels)
    (hp : w.L id = some p) (hdomain : record.domain = id.1) :
    StoresRelated w labels now' (s.issue (w.token p) record now').2 s' := by
  obtain ⟨-, hroomy, hmax⟩ := h.roomy.issue (w.token p) now' (hdomain ▸ hlabel)
  exact ⟨h.tokens.issue_own hid hp hdomain hle, h.maxEntries.trans hmax.symm, hroomy, h.roomy'⟩

/-- A challenge that finds room in the first store is stored in both. -/
theorem StoresRelated.issue (hlabel : id.1 ∈ labels) (htwins : w.Twins id p p')
    (hterms : SameTerms p p') (hfresh : p.record.attempts = 0) (hfresh' : p'.record.attempts = 0)
    (hdomain : p.record.domain = id.1) (hroom : s.entriesFull (w.token p) now' = false) :
    (s.issue (w.token p) p.record now').1 = .ok () ∧
      (s'.issue (w.token p') p'.record now').1 = .ok () ∧
      StoresRelated w labels now' (s.issue (w.token p) p.record now').2
        (s'.issue (w.token p') p'.record now').2 := by
  obtain ⟨hok, hroomy, hmax⟩ := h.roomy.issue (w.token p) now' (hdomain ▸ hlabel)
  obtain ⟨hok', hroomy', hmax'⟩ := h.roomy'.issue (w.token p') now'
    (hterms.domain.trans hdomain ▸ hlabel)
  rw [hroom] at hok
  rw [h.tokens.room h.maxEntries htwins hle hroom] at hok'
  exact ⟨hok, hok', h.tokens.issue htwins hterms hfresh hfresh' hdomain hle hok hok',
    hmax'.trans (h.maxEntries.trans hmax.symm), hroomy, hroomy'⟩

theorem StoresRelated.verify_own (hid : id.1 = w.domain) (hdomain : r.domain = id.1)
    (hphase : OwnStage w id (.verifying phase)) :
    StoresRelated w labels now' (w.verify entry r now' s phase).2 s' ∧
      OwnStage w id (settle (w.verify entry r now' s phase).1) := by
  obtain ⟨htokens, hown⟩ := h.tokens.verify_own hid entry hdomain hle hphase
  obtain ⟨hmax, hroomy⟩ := h.roomy.verify
  exact ⟨⟨htokens, h.maxEntries.trans hmax.symm, hroomy, h.roomy'⟩, hown⟩

theorem StoresRelated.verify (hid : id.1 ≠ w.domain) (hdomain : r.domain = id.1)
    (halike : w.Alike entry r r')
    (hpath : entry.verifyPath.toList.isPrefixOf r.path.toList = true)
    (hphase : PhaseRelated w entry r r' phase phase') :
    StoresRelated w labels now' (w.verify entry r now' s phase).2
        (w.verify entry r' now' s' phase').2 ∧
      StageRelated w now' id entry r r' (settle (w.verify entry r now' s phase).1)
        (settle (w.verify entry r' now' s' phase').1) := by
  obtain ⟨htokens, hstage⟩ := verify_related h.tokens hid hdomain halike hpath hphase hle
  obtain ⟨hmax, hroomy⟩ := h.roomy.verify
  obtain ⟨hmax', hroomy'⟩ := h.roomy'.verify
  exact ⟨⟨htokens, hmax'.trans (h.maxEntries.trans hmax.symm), hroomy, hroomy'⟩, hstage⟩

theorem StoresRelated.swept (htwins : w.Twins id p p') (hexpired : p'.record.expiresAt ≤ now) :
    StoresRelated w labels now' (s.remove (w.token p)).2 s' := by
  obtain ⟨hmax, hroomy⟩ := h.roomy.remove (w.token p)
  exact ⟨(h.tokens.later hle).swept htwins (Nat.le_trans hexpired hle), h.maxEntries.trans hmax.symm,
    hroomy, h.roomy'⟩

end stores

variable {s s' : State} {stage stage' : Stage} {clock : Clock}

theorem StatesRelated.later (h : StatesRelated w labels now s s') (hle : now ≤ now') :
    StatesRelated w labels now' s s' :=
  { h with stores := { h.stores with tokens := h.stores.tokens.later hle } }

/-- A step of a request of the domain changes nothing for the others. -/
theorem advance_own (h : StatesRelated w labels now s s') (hid : id.1 = w.domain)
    (hlabel : id.1 ∈ labels) (hdomain : r.domain = id.1) (hstage : OwnStage w id stage)
    (hle : now ≤ clock.system)
    (hprepared : ∀ p, (w.advance entry r clock s stage).1 = .prepared p → w.L id = some p) :
    StatesRelated w labels clock.system (w.advance entry r clock s stage).2.2 s' ∧
      OwnStage w id (w.advance entry r clock s stage).2.1 := by
  have hA : r.domain = w.domain := hdomain.trans hid
  have hlater := h.later hle
  cases stage with
  | escalating level =>
    exact ⟨{ hlater with escalator := h.escalator.failure_own _ _ _ hA _ }, trivial⟩
  | drawing level => exact ⟨{ hlater with }, trivial⟩
  | counting level n =>
    have hloops : LoopsRelated w.domain
        (s.loops.issued r.domain r.identity (entry.kindAt level).name).2 s'.loops :=
      h.loops.issued_own hA
    simp only [Pair.advance, advance] at hprepared ⊢
    split
    · exact ⟨{ hlater with loops := hloops }, trivial⟩
    case isFalse hissue =>
      rw [if_neg hissue] at hprepared
      exact ⟨{ hlater with loops := hloops }, _, hprepared _ rfl, rfl, hdomain⟩
  | issuing level pending =>
    obtain ⟨p, hp, htoken, hpending⟩ := hstage
    have hissued := h.stores.issue_own hle hid hlabel hp hpending
    rw [← htoken] at hissued
    exact ⟨{ hlater with stores := hissued }, trivial⟩
  | verifying phase =>
    obtain ⟨hstores, hown⟩ := h.stores.verify_own hle hid hdomain hstage
    exact ⟨{ hlater with stores := hstores }, hown⟩
  | clearing record =>
    exact ⟨{ hlater with
      loops := ⟨h.loops.counts.erase_own hA, h.loops.maxEntries, h.loops.threshold⟩ }, trivial⟩
  | lowering record =>
    exact ⟨{ hlater with escalator := h.escalator.success_own _ _ _ hA }, trivial⟩
  | answered outcome => exact ⟨hlater, trivial⟩

/-- A request of another domain is counted, in both runs. -/
theorem counting_related (h : StatesRelated w labels now s s') (hid : id.1 ≠ w.domain)
    (hdomain : r.domain = id.1) (hroom : storeFull s entry r clock.system (.counting level n) = false)
    (hprepared : ∀ p, (w.advance entry r clock s (.counting level n)).1 = .prepared p →
      w.L id = some p)
    (hprepared' : ∀ p, (w.advance entry r clock s' (.counting level n')).1 = .prepared p →
      w.L' id = some p) :
    StatesRelated w labels now (w.advance entry r clock s (.counting level n)).2.2
        (w.advance entry r clock s' (.counting level n')).2.2 ∧
      StageRelated w clock.system id entry r r (w.advance entry r clock s (.counting level n)).2.1
        (w.advance entry r clock s' (.counting level n')).2.1 := by
  obtain ⟨hcount, hloops⟩ := h.loops.issued (hdomain ▸ hid) hroom
  have hlooping : s'.loops.looping = s.loops.looping := by
    funext count
    rw [LoopDetector.looping, LoopDetector.looping, h.loops.threshold]
  simp only [Pair.advance, advance, hcount, hlooping] at hprepared hprepared' ⊢
  split
  · exact ⟨{ h with loops := hloops }, .answered _⟩
  case isFalse hissue =>
    rw [if_neg hissue] at hprepared hprepared'
    exact ⟨{ h with loops := hloops }, .issuing level rfl ⟨hid, hprepared _ rfl, hprepared' _ rfl⟩
      ⟨rfl, rfl, rfl, rfl, rfl, rfl⟩ rfl rfl hdomain⟩

/-- A step of a request of another domain, in both runs. -/
theorem advance_related (h : StatesRelated w labels now s s') (hid : id.1 ≠ w.domain)
    (hlabel : id.1 ∈ labels) (hdomain : r.domain = id.1) (halike : w.Alike entry r r')
    (hstage : StageRelated w now id entry r r' stage stage') (hle : now ≤ clock.system)
    (hroom : storeFull s entry r clock.system stage = false)
    (hprepared : ∀ p, (w.advance entry r clock s stage).1 = .prepared p → w.L id = some p)
    (hprepared' : ∀ p, (w.advance entry r' clock s' stage').1 = .prepared p → w.L' id = some p) :
    StatesRelated w labels clock.system (w.advance entry r clock s stage).2.2
        (w.advance entry r' clock s' stage').2.2 ∧
      StageRelated w clock.system id entry r r' (w.advance entry r clock s stage).2.1
        (w.advance entry r' clock s' stage').2.1 := by
  have hA : r.domain ≠ w.domain := hdomain ▸ hid
  have hlater := h.later hle
  cases hstage with
  | escalating level hsame =>
    subst hsame
    obtain ⟨hstate, hescalator⟩ := h.escalator.failure entry.decay clock.instant clock.later hA hroom
      entry.ladder
    refine ⟨{ hlater with escalator := hescalator }, ?_⟩
    simp only [Pair.advance, advance, hstate]
    exact .drawing _ rfl
  | drawing level hsame => exact ⟨{ hlater with }, .counting level _ _ hsame⟩
  | counting level n n' hsame =>
    subst hsame
    exact counting_related hlater hid hdomain hroom hprepared hprepared'
  | issuing level hsame htwins hterms hfresh hfresh' hpending =>
    subst hsame
    obtain ⟨hok, hok', hstores⟩ := h.stores.issue hle hlabel htwins hterms hfresh hfresh' hpending
      hroom
    refine ⟨{ hlater with stores := hstores }, ?_⟩
    simp only [Pair.advance, advance, hok, hok', hterms.difficulty]
    exact .answered _
  | verifying hpath hphase =>
    obtain ⟨hstores, hnext⟩ := h.stores.verify hle hid hdomain halike hpath hphase
    exact ⟨{ hlater with stores := hstores }, hnext⟩
  | swept htwins hexpired =>
    exact ⟨{ hlater with stores := h.stores.swept hle htwins hexpired }, .answered _⟩
  | clearing hkind htarget =>
    refine ⟨{ hlater with loops := ⟨?_, h.loops.maxEntries, h.loops.threshold⟩ }, .lowering htarget⟩
    simp only [Pair.advance, advance, LoopDetector.solved, halike.domain, halike.identity, hkind]
    exact h.loops.counts.erase _
  | lowering htarget =>
    simp only [Pair.advance, advance, halike.domain, halike.identity, htarget]
    exact ⟨{ hlater with escalator := h.escalator.success _ _ _ hA _ }, .answered _⟩
  | answered outcome => exact ⟨hlater, .answered _⟩

end steps

/-! ## Steps of the process -/

section process

variable {w : Pair} {labels : List String} {now now' : Time} {s s' : System} {id : RequestId}

theorem ThreadRelated.later (h : ThreadRelated w now id thread thread') (hle : now ≤ now') :
    ThreadRelated w now' id thread thread' := by
  obtain ⟨hentry, hdomain, hrequest, hstage⟩ := h
  refine ⟨hentry, hdomain, hrequest, ?_⟩
  generalize thread.stage = stage, thread'.stage = stage' at hstage
  cases hstage with
  | swept htwins hexpired => exact .swept htwins (Nat.le_trans hexpired hle)
  | _ => constructor <;> assumption

section

variable (h : Related w labels now s s')
include h

theorem Related.later (hle : now ≤ now') : Related w labels now' s s' :=
  ⟨h.states.later hle, h.labelled, fun id hid => (h.others id hid).imp_right
    fun ⟨thread, thread', hthread, hthread', hrelated⟩ =>
      ⟨thread, thread', hthread, hthread', hrelated.later hle⟩, h.own⟩

theorem Related.labelled_insert (hlabel : id.1 ∈ labels) (id₂ : RequestId) (thread₂ : Thread)
    (hthread₂ : (s.threads.insert id thread).lookup id₂ = some thread₂) : id₂.1 ∈ labels := by
  rw [AList.lookup_insert_if] at hthread₂
  split at hthread₂
  case isTrue heq => exact heq ▸ hlabel
  · exact h.labelled id₂ thread₂ hthread₂

/-- A thread of the domain goes on, in the first run. -/
theorem Related.insert_own (hid : id.1 = w.domain) (hlabel : id.1 ∈ labels)
    (hstates : StatesRelated w labels now' state s'.toState) (hle : now ≤ now')
    (hthread : OwnThread w id thread) :
    Related w labels now' ⟨state, s.threads.insert id thread⟩ s' := by
  refine ⟨hstates, h.labelled_insert hlabel, fun id₂ hid₂ => ?_, fun id₂ thread₂ hid₂ hthread₂ => ?_⟩
  · have hne : id₂ ≠ id := fun heq => hid₂ (heq ▸ hid)
    simp only [AList.lookup_insert_if, if_neg hne]
    exact (h.later hle).others id₂ hid₂
  · rw [AList.lookup_insert_if] at hthread₂
    split at hthread₂
    case isTrue heq =>
      cases hthread₂
      exact heq ▸ hthread
    · exact h.own id₂ thread₂ hid₂ hthread₂

/-- A thread of another domain goes on, in both runs. -/
theorem Related.insert (hid : id.1 ≠ w.domain) (hlabel : id.1 ∈ labels)
    (hstates : StatesRelated w labels now' state state') (hle : now ≤ now')
    (hthread : ThreadRelated w now' id thread thread') :
    Related w labels now' ⟨state, s.threads.insert id thread⟩
      ⟨state', s'.threads.insert id thread'⟩ := by
  refine ⟨hstates, h.labelled_insert hlabel, fun id₂ hid₂ => ?_, fun id₂ thread₂ hid₂ hthread₂ => ?_⟩
  · simp only [AList.lookup_insert_if]
    split
    case isTrue heq => exact .inr ⟨thread, thread', rfl, rfl, heq ▸ hthread⟩
    · exact (h.later hle).others id₂ hid₂
  · have hne : id₂ ≠ id := fun heq => hid (heq ▸ hid₂)
    rw [AList.lookup_insert_if, if_neg hne] at hthread₂
    exact h.own id₂ thread₂ hid₂ hthread₂

end

/-- The arrivals of an event have one of the labels. -/
def Labelled (labels : List String) : Event → Prop
  | .arrive _ _ r _ => r.domain ∈ labels
  | .advance .. => True

/-- A step of the domain. -/
theorem Related.own_step (h : Related w labels now s s') (hid : e.id.1 = w.domain)
    (hlabel : Labelled labels e) (hle : now ≤ timeOf e)
    (hprepared : ∀ p, (w.step s e).1 = (e.id, .prepared p) → w.L e.id = some p) :
    Related w labels (timeOf e) (w.step s e).2 s' := by
  cases e with
  | arrive n entry r now' =>
    cases hlookup : s.threads.lookup (r.domain, n) with
    | some thread =>
      simp only [Pair.step, step, Event.id, hlookup]
      exact h.later hle
    | none =>
      simp only [Pair.step, step, Event.id, hlookup]
      refine h.insert_own hid hlabel (h.states.later hle) hle ⟨rfl, ?_⟩
      simp only [arrived]
      cases start w.sha256 w.hmac entry r now' with
      | answered | marked => trivial
      | verify => exact fun t hengaged => hengaged.elim
  | advance id clock =>
    cases hlookup : s.threads.lookup id with
    | none =>
      simp only [Pair.step, step, Event.id, hlookup]
      exact h.later hle
    | some thread =>
      have hown := h.own id thread hid hlookup
      simp only [Pair.step, step, Event.id, hlookup, Prod.mk.injEq, true_and] at hprepared ⊢
      obtain ⟨hstates, hstage⟩ := advance_own h.states hid (h.labelled id thread hlookup) hown.domain
        hown.stage hle hprepared
      exact h.insert_own hid (h.labelled id thread hlookup) hstates hle ⟨hown.domain, hstage⟩

/-- Requests that are alike start alike. -/
theorem arrived_related (halike : w.Alike entry r r') :
    ThreadRelated w now (r.domain, n) (arrived w.sha256 w.hmac entry r now)
      (arrived w.sha256 w.hmac entry r' now) := by
  refine ⟨rfl, rfl, halike, ?_⟩
  simp only [arrived]
  cases hpath : entry.verifyPath.toList.isPrefixOf r.path.toList with
  | true =>
    have hpath' := halike.path ▸ hpath
    simp only [start, hpath, hpath', if_true]
    exact .verifying hpath .started
  | false =>
    have hsame := halike.other hpath
    subst hsame
    cases hstart : start w.sha256 w.hmac entry r' now with
    | answered outcome => exact .answered outcome
    | verify =>
      simp only [start, hpath, Bool.false_eq_true, if_false] at hstart
      split at hstart
      · cases hstart
      split at hstart
      · cases hstart
      · split at hstart <;> cases hstart
    | marked level => exact .escalating level rfl

/-- A step of another domain, in both runs. -/
theorem Related.both_step (h : Related w labels now s s') (hid : e.id.1 ≠ w.domain)
    (halike : EventAlike w.sha256 w.hmac w.urlDecode w.domain w.L w.L' e e')
    (hlabel : Labelled labels e) (hle : now ≤ timeOf e) (hroom : atCap s e = false)
    (hprepared : ∀ p, (w.step s e).1 = (e.id, .prepared p) → w.L e.id = some p)
    (hprepared' : ∀ p, (w.step s' e').1 = (e.id, .prepared p) → w.L' e.id = some p) :
    Related w labels (timeOf e) (w.step s e).2 (w.step s' e').2 := by
  cases halike with
  | arrive n entry r r' now' halike =>
    rcases h.others (r.domain, n) hid with ⟨hnone, hnone'⟩ | ⟨thread, thread', hthread, hthread', -⟩
    · rw [← halike.domain] at hnone'
      simp only [Pair.step, step, Event.id, hnone, hnone', halike.domain]
      exact h.insert hid hlabel (h.states.later hle) hle (arrived_related halike)
    · rw [← halike.domain] at hthread'
      simp only [Pair.step, step, Event.id, hthread, hthread']
      exact h.later hle
  | advance id clock =>
    rcases h.others id hid with ⟨hnone, hnone'⟩ | ⟨thread, thread', hthread, hthread', hrelated⟩
    · simp only [Pair.step, step, Event.id, hnone, hnone']
      exact h.later hle
    obtain ⟨hentry, hdomain, hrequest, hstage⟩ := hrelated
    simp only [Pair.step, step, Event.id, hthread, hthread', Prod.mk.injEq, true_and, hentry]
      at hprepared hprepared' ⊢
    simp only [atCap, hthread, Option.any_some] at hroom
    obtain ⟨hstates, hstage'⟩ := advance_related h.states hid (h.labelled id thread hthread) hdomain
      hrequest hstage hle hroom hprepared hprepared'
    exact h.insert hid (h.labelled id thread hthread) hstates hle ⟨rfl, hdomain, hrequest, hstage'⟩

end process

/-! ## The challenges of a run -/

section ledger

variable {sha256 : Bytes → Bytes} {hmac : Bytes → Bytes → Bytes}
  {urlDecode : String → Option String} {s : System}

def drawing : RequestId × Effect → Option (RequestId × Draw)
  | (id, .drawn draw) => some (id, draw)
  | _ => none

def draws (outs : List (RequestId × Effect)) : List Draw := (outs.filterMap drawing).map Prod.snd

/-- The request has its challenge, or will have none. -/
def Settled : Stage → Prop
  | .escalating _ | .drawing _ | .counting _ _ => False
  | _ => True

/-- What a step makes for its request, and where the thread of the request comes to. -/
inductive Moved (s : System) (id : RequestId) : Effect → System → Prop where
  | idle : Moved s id .quiet s
  | arrived (thread : Thread) : s.threads.lookup id = none →
      (∀ level n, thread.stage ≠ .counting level n) →
      Moved s id .quiet ⟨s.toState, s.threads.insert id thread⟩
  | drawn (before : Thread) (level : Nat) (state : State) : s.threads.lookup id = some before →
      ¬ Settled before.stage → state.sequence = (s.sequence + 1) % 2 ^ 64 →
      Moved s id (.drawn ⟨before.entry.secret, s.sequence, before.request.target⟩)
        ⟨state, s.threads.insert id { before with stage := .counting level s.sequence }⟩
  | prepared (before : Thread) (level n : Nat) (p : Ticket) (stage : Stage) (state : State) :
      s.threads.lookup id = some before → before.stage = .counting level n →
      p.draw = ⟨before.entry.secret, n, before.request.target⟩ → Settled stage →
      (∀ level n, stage ≠ .counting level n) → state.sequence = s.sequence →
      Moved s id (.prepared p) ⟨state, s.threads.insert id { before with stage := stage }⟩
  | quiet (before : Thread) (stage : Stage) (state : State) : s.threads.lookup id = some before →
      (Settled before.stage → Settled stage) → (∀ level n, stage ≠ .counting level n) →
      state.sequence = s.sequence →
      Moved s id .quiet ⟨state, s.threads.insert id { before with stage := stage }⟩

/-- The steps of a thread towards its challenge. -/
theorem advance_moved {id : RequestId} (h : s.threads.lookup id = some thread) (clock : Clock)
    (hnext : advance sha256 hmac urlDecode thread.entry thread.request clock s.toState thread.stage =
      (effect, stage, state)) :
    Moved s id effect ⟨state, s.threads.insert id { thread with stage := stage }⟩ := by
  cases hstage : thread.stage with
  | escalating level =>
    rw [hstage] at hnext
    cases hnext
    exact .quiet _ _ _ h (hstage ▸ False.elim) (fun _ _ => nofun) rfl
  | drawing level =>
    rw [hstage] at hnext
    cases hnext
    exact .drawn _ level _ h (hstage ▸ fun hsettled => hsettled) rfl
  | counting level n =>
    simp only [hstage, advance] at hnext
    split at hnext <;> cases hnext
    · exact .quiet _ _ _ h (hstage ▸ False.elim) (fun _ _ => nofun) rfl
    · exact .prepared _ level n _ _ _ h hstage rfl trivial (fun _ _ => nofun) rfl
  | verifying phase =>
    simp only [hstage, advance] at hnext
    generalize (verifyStep sha256 hmac urlDecode thread.entry.toChallenge thread.request.verify
      clock.system s.tokens phase).1 = phase' at hnext
    cases hnext
    cases phase' with
    | done verdict => cases verdict <;> exact .quiet _ _ _ h (fun _ => trivial) (fun _ _ => nofun) rfl
    | _ => exact .quiet _ _ _ h (fun _ => trivial) (fun _ _ => nofun) rfl
  | _ =>
    rw [hstage] at hnext
    cases hnext
    exact .quiet _ _ _ h (fun _ => trivial) (fun _ _ => nofun) rfl

theorem step_moved (s : System) (e : Event) :
    ∃ effect s', step sha256 hmac urlDecode s e = ((e.id, effect), s') ∧ Moved s e.id effect s' := by
  cases e with
  | arrive n entry r now =>
    cases hlookup : s.threads.lookup (r.domain, n) with
    | some thread => exact ⟨_, _, by simp only [step, Event.id, hlookup], .idle⟩
    | none =>
      refine ⟨_, _, by simp only [step, Event.id, hlookup]; rfl, .arrived _ hlookup ?_⟩
      simp only [ChallengeTier.arrived]
      cases start sha256 hmac entry r now <;> exact fun _ _ => nofun
  | advance id clock =>
    cases hlookup : s.threads.lookup id with
    | none => exact ⟨_, _, by simp only [step, Event.id, hlookup], .idle⟩
    | some thread =>
      exact ⟨_, _, by simp only [step, Event.id, hlookup]; rfl, advance_moved hlookup clock rfl⟩

/-- Each step draws the next number, or none. -/
theorem step_sequence (s : System) (e : Event) :
    ((drawing (step sha256 hmac urlDecode s e).1).map (Draw.sequence ∘ Prod.snd) = some s.sequence ∧
      (step sha256 hmac urlDecode s e).2.sequence = (s.sequence + 1) % 2 ^ 64) ∨
    ((drawing (step sha256 hmac urlDecode s e).1).map (Draw.sequence ∘ Prod.snd) = none ∧
      (step sha256 hmac urlDecode s e).2.sequence = s.sequence) := by
  obtain ⟨effect, s', hstep, hmoved⟩ := @step_moved sha256 hmac urlDecode s e
  rw [hstep]
  cases hmoved with
  | drawn before level state _ _ hsequence => exact .inl ⟨rfl, hsequence⟩
  | prepared _ _ _ _ _ _ _ _ _ _ _ hsequence | quiet _ _ _ _ _ _ hsequence =>
    exact .inr ⟨rfl, hsequence⟩
  | _ => exact .inr ⟨rfl, rfl⟩

/-- The requests about to be counted drew their numbers before. -/
def Drawn (outs : List (RequestId × Effect)) (s : System) : Prop :=
  ∀ id thread level n, s.threads.lookup id = some thread → thread.stage = .counting level n →
    (id, .drawn ⟨thread.entry.secret, n, thread.request.target⟩) ∈ outs

section drawn

variable {outs : List (RequestId × Effect)}

/-- The threads of the other requests are as they were. -/
theorem Drawn.insert (h : Drawn outs s) {id : RequestId}
    (hself : ∀ level n, thread.stage = .counting level n →
      effect = .drawn ⟨thread.entry.secret, n, thread.request.target⟩) :
    Drawn ((id, effect) :: outs) ⟨state, s.threads.insert id thread⟩ := by
  intro id₂ thread₂ level n hlookup hstage
  rw [AList.lookup_insert_if] at hlookup
  split at hlookup
  case isTrue heq =>
    cases hlookup
    rw [heq, hself level n hstage]
    exact mem_cons_self
  case isFalse => exact mem_cons_of_mem _ (h id₂ thread₂ level n hlookup hstage)

theorem Drawn.moved (h : Drawn outs s) {id : RequestId} (hmoved : Moved s id effect s') :
    Drawn ((id, effect) :: outs) s' ∧ ∀ p, effect = .prepared p → (id, .drawn p.draw) ∈ outs := by
  cases hmoved with
  | idle =>
    exact ⟨fun id thread level n hlookup hstage =>
      mem_cons_of_mem _ (h id thread level n hlookup hstage), nofun⟩
  | arrived _ _ hstage | quiet _ _ _ _ _ hstage =>
    exact ⟨h.insert fun level n heq => absurd heq (hstage level n), nofun⟩
  | drawn before level state =>
    refine ⟨h.insert fun level₂ n heq => ?_, nofun⟩
    cases heq
    rfl
  | prepared before level n p stage state hbefore hcounting hdraw _ hstage =>
    refine ⟨h.insert fun level n heq => absurd heq (hstage level n), fun q heq => ?_⟩
    cases heq
    rw [hdraw]
    exact h id before level n hbefore hcounting

/-- A challenge has a number its request drew. -/
theorem drawn_of_prepared (h : Drawn outs s) {id : RequestId}
    (hp : (id, Effect.prepared p) ∈ outputs (step sha256 hmac urlDecode) s es) :
    (id, .drawn p.draw) ∈ outs ∨
      (id, .drawn p.draw) ∈ outputs (step sha256 hmac urlDecode) s es := by
  induction es generalizing s outs with
  | nil => cases hp
  | cons e es ih =>
    obtain ⟨effect, s', hstep, hmoved⟩ := @step_moved sha256 hmac urlDecode s e
    obtain ⟨hnext, hself⟩ := h.moved hmoved
    rw [outputs, hstep] at hp ⊢
    rcases mem_cons.mp hp with heq | hrest
    · cases heq
      exact .inl (hself p rfl)
    have hdrawn := ih hnext hrest
    rw [mem_cons] at hdrawn ⊢
    tauto

end drawn

/-- A request that has its challenge gets no other. -/
theorem settled_step (e : Event) {id : RequestId} :
    (∀ thread, s.threads.lookup id = some thread → Settled thread.stage →
      (∀ p, (step sha256 hmac urlDecode s e).1 ≠ (id, .prepared p)) ∧
      ∃ thread', (step sha256 hmac urlDecode s e).2.threads.lookup id = some thread' ∧
        Settled thread'.stage) ∧
    ∀ p, (step sha256 hmac urlDecode s e).1 = (id, .prepared p) →
      ∃ thread', (step sha256 hmac urlDecode s e).2.threads.lookup id = some thread' ∧
        Settled thread'.stage := by
  obtain ⟨effect, s', hstep, hmoved⟩ := @step_moved sha256 hmac urlDecode s e
  simp only [hstep, Prod.mk.injEq, ne_eq, not_and]
  by_cases hid : e.id = id
  · subst hid
    cases hmoved with
    | idle => exact ⟨fun thread hthread hsettled => ⟨fun _ _ => nofun, thread, hthread, hsettled⟩, nofun⟩
    | arrived thread hnone =>
      refine ⟨fun thread hthread => ?_, nofun⟩
      rw [hnone] at hthread
      cases hthread
    | drawn before level state hbefore hfresh =>
      refine ⟨fun thread hthread hsettled => ?_, nofun⟩
      cases Option.some.inj (hbefore.symm.trans hthread)
      exact absurd hsettled hfresh
    | prepared before level n p stage state hbefore hcounting _ hnext =>
      refine ⟨fun thread hthread hsettled => ?_, fun _ _ => ⟨_, AList.lookup_insert _, hnext⟩⟩
      cases Option.some.inj (hbefore.symm.trans hthread)
      rw [hcounting] at hsettled
      exact hsettled.elim
    | quiet before stage state hbefore hkept =>
      refine ⟨fun thread hthread hsettled => ⟨fun _ _ => nofun, _, AList.lookup_insert _, ?_⟩, nofun⟩
      cases Option.some.inj (hbefore.symm.trans hthread)
      exact hkept hsettled
  · have hother : s'.threads.lookup id = s.threads.lookup id := by
      cases hmoved with
      | idle => rfl
      | _ => exact AList.lookup_insert_ne (Ne.symm hid)
    rw [hother]
    exact ⟨fun thread hthread hsettled => ⟨fun _ heq => absurd heq hid, thread, hthread, hsettled⟩,
      fun _ heq => absurd heq.1 hid⟩

theorem not_prepared_of_settled {id : RequestId}
    (hthread : s.threads.lookup id = some thread) (hsettled : Settled thread.stage) :
    (id, Effect.prepared p) ∉ outputs (step sha256 hmac urlDecode) s es := by
  induction es generalizing s thread with
  | nil => exact not_mem_nil
  | cons e es ih =>
    obtain ⟨hne, thread', hthread', hsettled'⟩ := (settled_step e).1 thread hthread hsettled
    exact fun hmem => (mem_cons.mp hmem).elim (fun heq => hne p heq.symm) (ih hthread' hsettled')

/-- The ledger of a run has every challenge of it. -/
theorem ledger_of_mem {id : RequestId}
    (hp : (id, Effect.prepared p) ∈ outputs (step sha256 hmac urlDecode) s es) :
    ledger (outputs (step sha256 hmac urlDecode) s es) id = some p := by
  induction es generalizing s with
  | nil => cases hp
  | cons e es ih =>
    rcases mem_cons.mp hp with heq | hrest
    · rw [outputs, ← heq]
      simp [ledger]
    have hrest' := ih hrest
    have hother : ∀ q, (step sha256 hmac urlDecode s e).1 ≠ (id, .prepared q) := by
      intro q heq
      obtain ⟨thread, hthread, hsettled⟩ := (settled_step e).2 q heq
      exact not_prepared_of_settled hthread hsettled hrest
    rw [outputs]
    generalize (step sha256 hmac urlDecode s e).1 = o at hother
    obtain ⟨id₂, effect⟩ := o
    cases effect with
    | prepared q =>
      have hne : id₂ ≠ id := fun heq => hother q (by rw [heq])
      simpa [ledger, hne] using hrest'
    | _ => exact hrest'

theorem mem_of_ledger {id : RequestId} (h : ledger outs id = some p) :
    (id, Effect.prepared p) ∈ outs := by
  obtain ⟨⟨id₂, effect⟩, hmem, hsome⟩ := exists_of_findSome?_eq_some h
  cases effect with
  | prepared q =>
    simp only [Option.ite_none_right_eq_some, Option.some.injEq] at hsome
    obtain ⟨rfl, rfl⟩ := hsome
    exact hmem
  | _ => cases hsome

theorem map_draws (outs : List (RequestId × Effect)) :
    (draws outs).map Draw.sequence =
      outs.filterMap fun o => (drawing o).map (Draw.sequence ∘ Prod.snd) := by
  rw [draws, map_map, map_filterMap]

/-- No two requests of a run have one token. -/
theorem separate_ledger (hthreads : s.threads = ∅) (hsequence : s.sequence < 2 ^ 64)
    (hfew : (draws (outputs (step sha256 hmac urlDecode) s es)).length ≤ 2 ^ 64)
    (hdistinct : Distinct sha256 (draws (outputs (step sha256 hmac urlDecode) s es))) :
    Separate sha256 (ledger (outputs (step sha256 hmac urlDecode) s es)) := by
  have hlt : ∀ d ∈ draws (outputs (step sha256 hmac urlDecode) s es), d.sequence < 2 ^ 64 := by
    intro d hd
    have hmem := mem_map_of_mem (f := Draw.sequence) hd
    rw [map_draws] at hmem
    exact numbers_lt (step sha256 hmac urlDecode) (fun s => s.sequence) _ (by decide) step_sequence
      es s hsequence _ hmem
  have hnumbers : ((draws (outputs (step sha256 hmac urlDecode) s es)).map Draw.sequence).Nodup := by
    rw [map_draws]
    refine numbers_nodup (step sha256 hmac urlDecode) (fun s => s.sequence) _ (by decide)
      step_sequence es s hsequence ?_
    rwa [← map_draws, length_map]
  have htokens := hdistinct.tokens_nodup hlt hnumbers
  rw [draws, map_map] at htokens
  have hempty : Drawn [] s := fun id thread level n hlookup => by
    rw [hthreads, AList.lookup_empty] at hlookup
    cases hlookup
  have hdrawn : ∀ {id p}, ledger (outputs (step sha256 hmac urlDecode) s es) id = some p →
      (id, p.draw) ∈ (outputs (step sha256 hmac urlDecode) s es).filterMap drawing := by
    intro id p hp
    have hmem := (drawn_of_prepared hempty (mem_of_ledger hp)).resolve_left not_mem_nil
    exact mem_filterMap.mpr ⟨_, hmem, rfl⟩
  intro id id' p q hp hq htoken
  have hpair := inj_on_of_nodup_map htokens (hdrawn hp) (hdrawn hq) htoken
  exact (Prod.mk.inj hpair).1

end ledger

/-! ## Runs -/

section runs

variable {w : Pair} {labels : List String}

/-- The two runs stay related. -/
theorem Related.run : ∀ {es es' : List Event} {now : Time} {s s' : System},
    Related w labels now s s' →
    Forall₂ (EventAlike w.sha256 w.hmac w.urlDecode w.domain w.L w.L')
      (es.filter (elsewhere w.domain)) es' →
    Clocked timeOf now es → (∀ e ∈ es, Labelled labels e) →
    Always (fun s e => elsewhere w.domain e = true → atCap s e = false) w.step s es →
    (∀ id p, (id, Effect.prepared p) ∈ outputs w.step s es → w.L id = some p) →
    (∀ id p, (id, Effect.prepared p) ∈ outputs w.step s' es' → w.L' id = some p) →
    ∃ now', Related w labels now' (final w.step s es) (final w.step s' es') := by
  intro es
  induction es with
  | nil =>
    intro es' now s s' h halike _ _ _ _ _
    cases halike
    exact ⟨now, h⟩
  | cons e es ih =>
    intro es' now s s' h halike hclocked hlabels hroom hL hL'
    have hprepared : ∀ p, (w.step s e).1 = (e.id, .prepared p) → w.L e.id = some p :=
      fun p heq => hL e.id p (mem_cons.mpr (.inl heq.symm))
    have hL₁ := fun id p hp => hL id p (mem_cons_of_mem _ hp)
    have hlabel := hlabels e mem_cons_self
    have hlabels₁ := fun e he => hlabels e (mem_cons_of_mem _ he)
    cases helsewhere : elsewhere w.domain e with
    | false =>
      rw [filter_cons_of_neg (by simp [helsewhere])] at halike
      have hid : e.id.1 = w.domain := Classical.not_not.mp (of_decide_eq_false helsewhere)
      exact ih (h.own_step hid hlabel hclocked.1 hprepared) halike hclocked.2 hlabels₁ hroom.2 hL₁ hL'
    | true =>
      rw [filter_cons_of_pos helsewhere] at halike
      obtain ⟨e', es', hhead, htail, rfl⟩ := List.forall₂_cons_left_iff.mp halike
      have hid : e.id.1 ≠ w.domain := of_decide_eq_true helsewhere
      have hprepared' : ∀ p, (w.step s' e').1 = (e.id, .prepared p) → w.L' e.id = some p :=
        fun p heq => hL' e.id p (mem_cons.mpr (.inl heq.symm))
      simp only [final_cons]
      exact ih (h.both_step hid hhead hlabel hclocked.1 (hroom.1 helsewhere) hprepared hprepared')
        htail hclocked.2 hlabels₁ hroom.2 hL₁ fun id p hp => hL' id p (mem_cons_of_mem _ hp)

/-- Nothing has happened in either run. -/
theorem related_new (w : Pair) (now : Time) (maxEntries loopThreshold : Nat)
    (hlabels : labels.length ≤ Nat.max maxDomains 1) :
    Related w labels now (System.new maxDomains maxEntries loopThreshold)
      (System.new maxDomains maxEntries loopThreshold) := by
  have hroomy : Roomy labels (withLimits maxDomains maxEntries) :=
    ⟨nodup_nil, fun d hd => (not_mem_nil hd).elim, hlabels⟩
  have htokens : TokensRelated w now (withLimits maxDomains maxEntries)
      (withLimits maxDomains maxEntries) := by
    constructor
    · exact fun _ hr => by cases hr
    · exact fun _ hr => by cases hr
    · exact fun hr => by cases hr
    · exact fun hr => by cases hr
  refine ⟨⟨⟨AList.without_empty, rfl⟩, ⟨AList.without_empty, rfl, rfl⟩, ⟨htokens, rfl, hroomy,
    hroomy⟩⟩, fun id thread hthread => ?_, fun id hid => .inl ⟨rfl, rfl⟩,
    fun id thread hid hthread => ?_⟩
  · cases hthread
  · cases hthread

/-- Requests at the same point are answered alike; where the first run is a step behind, it
comes to the same answer with it. -/
theorem Related.outcome (h : Related w labels now s s') {id : RequestId} (hid : id.1 ≠ w.domain)
    (o : Outcome) :
    (s.outcome id = some o → s'.outcome id = some o) ∧
    (s'.outcome id = some o → ∀ clock, (w.step s (.advance id clock)).2.outcome id = some o) := by
  rcases h.others id hid with ⟨hnone, hnone'⟩ | ⟨thread, thread', hthread, hthread', hrelated⟩
  · simp [System.outcome, hnone, hnone']
  have hstage := hrelated.stage
  simp only [Pair.step, step, Event.id, hthread, System.outcome, hthread', Option.bind_some,
    AList.lookup_insert]
  generalize thread.stage = stage, thread'.stage = stage' at hstage
  cases hstage with
  | swept htwins hexpired => exact ⟨nofun, fun heq clock => heq⟩
  | answered outcome => exact ⟨fun heq => heq, fun heq clock => heq⟩
  | _ => exact ⟨nofun, nofun⟩

end runs

/-- Below the caps of the shared stores the requests of a domain are nothing to the others. Of two
runs that have the same requests of the other domains, one with those of the domain and one
without, the second gives every answer to the others that the first gives. The first gives
every answer of the second, too, at the latest with one more step of the request, which only
the failure of an expired challenge may need. -/
theorem other_domains_undisturbed (sha256 : Bytes → Bytes) (hmac : Bytes → Bytes → Bytes)
    (urlDecode : String → Option String) (A : String) (maxDomains maxEntries loopThreshold : Nat)
    (labels : List String) (hlabels : labels.length ≤ Nat.max maxDomains 1) (es es' : List Event)
    (hlabelled : ∀ e ∈ es, Labelled labels e) (now : Time) (hclocked : Clocked timeOf now es)
    (outs outs' : List (RequestId × Effect)) (houts : outs = outputs (step sha256 hmac urlDecode)
      (System.new maxDomains maxEntries loopThreshold) es)
    (houts' : outs' = outputs (step sha256 hmac urlDecode)
      (System.new maxDomains maxEntries loopThreshold) es')
    (halike : List.Forall₂ (EventAlike sha256 hmac urlDecode A (ledger outs) (ledger outs'))
      (es.filter (elsewhere A)) es') (hfew : (draws outs).length ≤ 2 ^ 64)
    (hdistinct : Distinct sha256 (draws outs)) (hfew' : (draws outs').length ≤ 2 ^ 64)
    (hdistinct' : Distinct sha256 (draws outs'))
    (hroom : Always (fun s e => elsewhere A e = true → atCap s e = false)
      (step sha256 hmac urlDecode) (System.new maxDomains maxEntries loopThreshold) es)
    (s s' : System)
    (hs : s = final (step sha256 hmac urlDecode) (System.new maxDomains maxEntries loopThreshold) es)
    (hs' : s' = final (step sha256 hmac urlDecode)
      (System.new maxDomains maxEntries loopThreshold) es') :
    ∀ id : RequestId, id.1 ≠ A → ∀ o,
      (s.outcome id = some o → s'.outcome id = some o) ∧
      (s'.outcome id = some o → ∀ clock,
        (step sha256 hmac urlDecode s (.advance id clock)).2.outcome id = some o) := by
  subst houts houts' hs hs'
  have hone : (1 : Nat) < 2 ^ 64 := by decide
  have hsep := separate_ledger rfl hone hfew hdistinct
  have hsep' := separate_ledger rfl hone hfew' hdistinct'
  obtain ⟨now', hrelated⟩ := (related_new ⟨sha256, hmac, urlDecode, A, _, _, hsep, hsep'⟩ now
    maxEntries loopThreshold hlabels).run halike hclocked hlabelled hroom
    (fun id p hp => ledger_of_mem hp) fun id p hp => ledger_of_mem hp
  exact fun id hid o => hrelated.outcome hid o


/-! ## Two tenants -/

/-- A request of a client of its own domain that is marked for a challenge. -/
def markedRequest (domain identity target : String) : Request :=
  ⟨domain, identity, target, "", none, some 0, target⟩

def answerRequest (token : String) : Request where
  domain := "b.test"
  identity := "203.0.113.2"
  path := "/.pingap/challenge/verify"
  query := "challenge_token=" ++ token ++ "&nonce=0"
  cookie := none
  marker := none
  target := ""

/-- Some steps of a request, all at one time. -/
def stepsOf (id : RequestId) (count : Nat) (time : Time) : List Event :=
  List.replicate count (.advance id ⟨time, time, time⟩)

def firstTenant : List Event :=
  .arrive 0 testEntry (markedRequest "a.test" "203.0.113.1" "/a") 0 :: stepsOf ("a.test", 0) 4 1

def secondTenant : List Event :=
  .arrive 0 testEntry (markedRequest "b.test" "203.0.113.2" "/b") 1 :: stepsOf ("b.test", 0) 4 1

def secondAnswer (token : String) : List Event :=
  .arrive 1 testEntry (answerRequest token) 2 :: stepsOf ("b.test", 1) 5 2

/-- The challenge of the second client, under some number. -/
def secondTicket (n : Nat) : Ticket :=
  ticketAt testDigest testEntry (markedRequest "b.test" "203.0.113.2" "/b") 0 n 1

def bothTenants : List Event :=
  firstTenant ++ (secondTenant ++ secondAnswer (token testDigest (secondTicket 2)))

def secondAlone : List Event := secondTenant ++ secondAnswer (token testDigest (secondTicket 1))

section

variable {L L' : Ledger} (hL : L ("b.test", 0) = some (secondTicket 2))
    (hL' : L' ("b.test", 0) = some (secondTicket 1))
include hL hL'

theorem tenant_answer :
    Answer testDigest (fun _ _ => []) some L L' testEntry
      (answerRequest (token testDigest (secondTicket 2)))
      (answerRequest (token testDigest (secondTicket 1))) ("b.test", 0) (secondTicket 2)
      (secondTicket 1) where
  drawn := hL
  drawn' := hL'
  named := by decide +kernel
  named' := by decide +kernel
  proof := by decide +kernel
  fingerprint := by decide +kernel

theorem tenant_alike :
    Forall₂ (EventAlike testDigest (fun _ _ => []) some "a.test" L L')
      (bothTenants.filter (elsewhere "a.test")) secondAlone := by
  have hmarked : Alike testDigest (fun _ _ => []) some "a.test" L L' testEntry
      (markedRequest "b.test" "203.0.113.2" "/b") (markedRequest "b.test" "203.0.113.2" "/b") :=
    ⟨rfl, rfl, rfl, fun hpath => absurd hpath (by decide), fun _ => rfl⟩
  have hanswer : ∀ t t', Answer testDigest (fun _ _ => []) some L L' testEntry (answerRequest t)
      (answerRequest t') ("b.test", 0) (secondTicket 2) (secondTicket 1) →
      Alike testDigest (fun _ _ => []) some "a.test" L L' testEntry (answerRequest t)
        (answerRequest t') := fun t t' hanswer =>
    ⟨rfl, rfl, rfl, fun _ => .inl ⟨_, _, _, by decide, hanswer⟩,
      fun hpath => absurd hpath (by simp only [answerRequest, testEntry]; decide)⟩
  have hsteps : ∀ (id : RequestId) (count : Nat) (time : Time),
      Forall₂ (EventAlike testDigest (fun _ _ => []) some "a.test" L L')
        (stepsOf id count time) (stepsOf id count time) := by
    intro id count time
    rw [forall₂_same]
    intro e he
    obtain ⟨-, rfl⟩ := List.mem_replicate.mp he
    exact .advance _ _
  have hfilter : bothTenants.filter (elsewhere "a.test") =
      secondTenant ++ secondAnswer (token testDigest (secondTicket 2)) := by
    simp [bothTenants, firstTenant, secondTenant, secondAnswer, stepsOf, elsewhere, Event.id,
      markedRequest, answerRequest]
  rw [hfilter]
  exact rel_append (.cons (.arrive _ _ _ _ _ hmarked) (hsteps _ _ _))
    (.cons (.arrive _ _ _ _ _ (hanswer _ _ (tenant_answer hL hL'))) (hsteps _ _ _))

end

/-- What a challenge leaves behind. -/
def challengeOutputs (id : RequestId) (ticket : Ticket) : List (RequestId × Effect) :=
  [(id, .quiet), (id, .quiet), (id, .drawn ticket.draw), (id, .prepared ticket), (id, .quiet)]

theorem outputs_bothTenants :
    outputs (step testDigest (fun _ _ => []) some) (System.new 2 8 3) bothTenants =
      challengeOutputs ("a.test", 0) (ticketAt testDigest testEntry
        (markedRequest "a.test" "203.0.113.1" "/a") 0 1 1) ++
      (challengeOutputs ("b.test", 0) (secondTicket 2) ++ replicate 6 (("b.test", 1), .quiet)) := by
  decide +kernel

theorem outputs_secondAlone :
    outputs (step testDigest (fun _ _ => []) some) (System.new 2 8 3) secondAlone =
      challengeOutputs ("b.test", 0) (secondTicket 1) ++ replicate 6 (("b.test", 1), .quiet) := by
  decide +kernel

theorem other_domains_undisturbed_two_tenants :
    (final (step testDigest (fun _ _ => []) some) (System.new 2 8 3) secondAlone).outcome
        ("b.test", 1) = some (.redirected "/b") := by
  have hanswered : (final (step testDigest (fun _ _ => []) some) (System.new 2 8 3)
      bothTenants).outcome ("b.test", 1) = some (.redirected "/b") := by
    decide +kernel
  refine (other_domains_undisturbed testDigest (fun _ _ => []) some "a.test" 2 8 3
    ["a.test", "b.test"] (by decide) bothTenants secondAlone ?_ 0 (by decide) _ _
    outputs_bothTenants.symm outputs_secondAlone.symm (tenant_alike rfl rfl) (by decide)
    ⟨by decide +kernel, by decide⟩ (by decide) ⟨by decide +kernel, by decide⟩ (by decide +kernel)
    _ _ rfl rfl ("b.test", 1) (by decide) _).1 hanswered
  simp [bothTenants, firstTenant, secondTenant, secondAnswer, stepsOf, Labelled, markedRequest,
    answerRequest]

/-- A client of one domain fills a loop detector that has room for one, and the first request of a
client of another domain is refused. Alone it is given a page. -/
theorem loop_cap_refuses_other_domain :
    (firstTenant ++ secondTenant).filter (elsewhere "a.test") = secondTenant ∧
    (final (step testDigest (fun _ _ => []) some) (System.new 2 1 3)
        (firstTenant ++ secondTenant)).outcome ("b.test", 0) =
      some (.refused 403 "Challenge loop detected") ∧
    (final (step testDigest (fun _ _ => []) some) (System.new 2 1 3) secondTenant).outcome
        ("b.test", 0) = some (.page .pow 0 1 "/b") := by
  refine ⟨?_, by decide +kernel, by decide +kernel⟩
  simp [firstTenant, secondTenant, stepsOf, elsewhere, Event.id, markedRequest]

end ChallengeIsolation
