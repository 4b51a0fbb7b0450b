import Pingap.ChallengeVerify

/-!
# The challenge tier

All entries of the challenge plugin share three bounded stores of the process: the
tokens, the failures of each client, and the challenges each client has left unsolved.
A request takes one operation on one of them at a time, so requests are threads again,
under the identifier they arrived with, and a run is any order of their steps.
-/

namespace ChallengeTier

open MachineArith ChallengeToken ChallengeVerify
open Utf8 (Bytes)

/-! ## Escalation -/

structure EscalationState where
  failures : Nat
  successes : Nat
  level : Nat
  last : Option Time
deriving DecidableEq, Repr

def EscalationState.default : EscalationState := ⟨0, 0, 0, none⟩

structure Escalator where
  inner : KeyedMap (String × String) EscalationState
  max : Nat

def decayStateAt (state : EscalationState) (decay : Duration) (now : Time) : EscalationState :=
  if state.last.any fun last => decide (decay ≤ now - last) then
    { state with level := 0, failures := 0 }
  else state

/-- The last rung of the ladder the failures reach. -/
def rung (ladder : List Nat) (failures : Nat) : Nat :=
  (ladder.zipIdx.reverse.findSome? fun e =>
    if e.1 ≤ failures then some (e.2 % 256) else none).getD 0

namespace Escalator

def new (max : Nat) : Escalator := ⟨∅, Nat.max max 1⟩

def full (e : Escalator) (key : String × String) : Bool :=
  decide (e.max ≤ e.inner.size) && (e.inner.lookup key).isNone

/-- `failure`, with the two readings of its clock. -/
def failure (e : Escalator) (domain identity : String) (ladder : List Nat) (decay : Duration)
    (now now' : Time) : EscalationState × Escalator :=
  if e.full (domain, identity) then (.default, e)
  else
    let state := decayStateAt ((e.inner.lookup (domain, identity)).getD .default) decay now
    let failures := satAdd32 state.failures 1
    let state := { state with
      failures := failures
      level := rung ladder failures
      last := some now' }
    (state, { e with inner := e.inner.insert (domain, identity) state })

def success (e : Escalator) (domain identity : String) (decay : Duration) (now now' : Time) :
    EscalationState × Escalator :=
  match e.inner.lookup (domain, identity) with
  | none => (.default, e)
  | some state =>
    let state := decayStateAt state decay now
    let state := { state with
      successes := satAdd32 state.successes 1
      level := state.level - 1
      last := some now' }
    (state, { e with inner := e.inner.insert (domain, identity) state })

end Escalator

/-! ## Loops -/

abbrev LoopKey := String × String × String

structure LoopDetector where
  counts : KeyedMap LoopKey Nat
  threshold : Nat
  maxEntries : Nat

namespace LoopDetector

def withCapacity (threshold maxEntries : Nat) : LoopDetector :=
  ⟨∅, max threshold 1, max maxEntries 1⟩

def full (l : LoopDetector) (key : LoopKey) : Bool :=
  (l.counts.lookup key).isNone && decide (l.maxEntries ≤ l.counts.size)

def issued (l : LoopDetector) (domain identity kind : String) : Nat × LoopDetector :=
  if l.full (domain, identity, kind) then (l.threshold, l)
  else
    let count := satAdd32 ((l.counts.lookup (domain, identity, kind)).getD 0) 1
    (count, { l with counts := l.counts.insert (domain, identity, kind) count })

def solved (l : LoopDetector) (domain identity kind : String) : LoopDetector :=
  { l with counts := l.counts.erase (domain, identity, kind) }

def looping (l : LoopDetector) (count : Nat) : Bool := decide (l.threshold ≤ count)

end LoopDetector

/-! ## Requests -/

inductive LoopBypass where
  | refuse
  | allow
deriving DecidableEq, Repr

/-- An entry of the plugin. `exempt` is its list of addresses, as the matcher of the list
answers. -/
structure Entry extends Challenge where
  verifyPath : String
  ladder : List Nat
  decay : Duration
  exempt : String → Bool
  bypassOnLoop : LoopBypass

def testEntry : Entry :=
  { testChallenge with
    verifyPath := "/.pingap/challenge/verify"
    ladder := [2, 4, 8]
    decay := 600 * nanosPerSec
    exempt := fun _ => false
    bypassOnLoop := .refuse }

/-- A request, with the label its host is classified under and the identity of its client;
the marker has the level the policies before the plugin gave it. -/
structure Request where
  domain : String
  identity : String
  path : String
  query : String
  cookie : Option String
  marker : Option Nat
  target : String
deriving DecidableEq, Repr

def Request.verify (r : Request) : VerifyRequest := ⟨r.domain, r.identity, r.query, r.cookie⟩

inductive Outcome where
  | continued (status : Option String)
  | page (kind : ChallengeKind) (level difficulty : Nat) (target : String)
  | refused (status : Nat) (body : String)
  | redirected (target : String)
deriving DecidableEq, Repr

def validReturnPath (path : List Char) : Bool :=
  !path.isEmpty && ['/'].isPrefixOf path && !(['/', '/'].isPrefixOf path) &&
    !(['/', '\\'].isPrefixOf path) && !path.any (fun c => c.toNat < 32 || c.toNat == 127) &&
    !path.tails.any ("://".toList.isPrefixOf ·)

def safeReturnPath (path : String) : String := if validReturnPath path.toList then path else "/"

section requests

variable (sha256 : Bytes → Bytes) (hmac : Bytes → Bytes → Bytes)
  (urlDecode : String → Option String)

def keyId (secret : Bytes) : List Char := Text.hexEncode ((sha256 secret).take 6)

/-- `cookie::verify`: the pass of a client that has solved a challenge. -/
def verifyPass (secret : Bytes) (value domain identity : String) (now : Time) : Bool :=
  ((Text.stripStart "v1.".toList value.toList).bind (Text.rsplitOnce '.')).any fun (payload, tag) =>
    match Text.splitN '|' 4 payload with
    | [kid, expires, cookieDomain, cookieIdentity] =>
      (Text.parseU64 expires).any fun expires =>
        kid == keyId sha256 secret && String.ofList cookieDomain == domain &&
          String.ofList cookieIdentity == identity &&
          Text.hexEncode (hmac secret (utf8 ("|".intercalate
            [String.ofList kid, toString expires, domain, identity]))) == tag &&
          decide (now / nanosPerSec < expires)
    | _ => false

/-- A request before its first operation on a shared store. -/
inductive Start where
  | answered (outcome : Outcome)
  | verify
  | marked (level : Nat)

def start (entry : Entry) (request : Request) (now : Time) : Start :=
  if entry.verifyPath.toList.isPrefixOf request.path.toList then .verify
  else if (namedCookie request.cookie "pingap_challenge").any fun value =>
      verifyPass sha256 hmac entry.secret value request.domain request.identity now then
    .answered (.continued (some "solved"))
  else
    match request.marker with
    | none => .answered (.continued none)
    | some level =>
      if entry.exempt request.identity then .answered (.continued (some "exempt"))
      else .marked level

/-! ## Threads -/

/-- A request between two operations. -/
inductive Stage where
  | escalating (level : Nat)
  | drawing (level : Nat)
  | counting (level number : Nat)
  | issuing (level : Nat) (pending : PendingIssue)
  | verifying (phase : Phase)
  | clearing (record : ChallengeRecord)
  | lowering (record : ChallengeRecord)
  | answered (outcome : Outcome)

structure Thread where
  entry : Entry
  request : Request
  stage : Stage

/-- The clocks a step may read. -/
structure Clock where
  system : Time
  instant : Time
  later : Time
deriving DecidableEq, Repr

def Entry.kindAt (entry : Entry) (level : Nat) : ChallengeKind :=
  if 0 < level ∧ level % 2 = 1 then .silent else entry.kind

structure State where
  tokens : TokenStore
  escalator : Escalator
  loops : LoopDetector
  sequence : Nat

/-- A challenge: the number it drew, and its record. -/
structure Ticket where
  draw : Draw
  record : ChallengeRecord
deriving DecidableEq, Repr

/-- What a step makes: the number of a challenge, or the challenge. -/
inductive Effect where
  | quiet
  | drawn (draw : Draw)
  | prepared (ticket : Ticket)
deriving DecidableEq, Repr

/-- Where a verification goes on after a step. -/
def settle : Phase → Stage
  | .done (.solved record _ _) => .clearing record
  | .done verdict =>
    -- every other verdict has its refusal
    .answered (verdict.refusal.elim (.continued none) fun r => .refused r.1 r.2)
  | phase => .verifying phase

/-- The challenge of a request, under the number it drew. -/
def ticketAt (entry : Entry) (request : Request) (level number : Nat) (now : Time) : Ticket where
  draw := ⟨entry.secret, number, request.target⟩
  record := issueRecord sha256 entry.toChallenge
    ⟨request.domain, request.identity, request.target, level, now⟩ number

def advance (entry : Entry) (request : Request) (clock : Clock) (s : State) :
    Stage → Effect × Stage × State
  | .escalating level =>
    let (state, escalator) := s.escalator.failure request.domain request.identity entry.ladder
      entry.decay clock.instant clock.later
    (.quiet, .drawing (max level state.level), { s with escalator := escalator })
  | .drawing level =>
    (.drawn ⟨entry.secret, s.sequence, request.target⟩, .counting level s.sequence,
      { s with sequence := (s.sequence + 1) % 2 ^ 64 })
  | .counting level number =>
    let (count, loops) := s.loops.issued request.domain request.identity (entry.kindAt level).name
    if s.loops.looping count ∧ entry.bypassOnLoop = .refuse then
      (.quiet, .answered (.refused 403 "Challenge loop detected"), { s with loops := loops })
    else
      let ticket := ticketAt sha256 entry request level number clock.system
      (.prepared ticket, .issuing level ⟨ticket.draw.token sha256, ticket.record⟩,
        { s with loops := loops })
  | .issuing level pending =>
    let (answer, tokens) := s.tokens.issue pending.token pending.record clock.system
    (.quiet,
      .answered (if answer = .error .fullDomains then
          .refused 503 "Challenge state domain capacity reached"
        else .page (entry.kindAt level) level pending.record.difficulty request.target),
      { s with tokens := tokens })
  | .verifying phase =>
    let (phase, tokens) := verifyStep sha256 hmac urlDecode entry.toChallenge request.verify
      clock.system s.tokens phase
    (.quiet, settle phase, { s with tokens := tokens })
  | .clearing record =>
    (.quiet, .lowering record,
      { s with loops := s.loops.solved request.domain request.identity record.kind })
  | .lowering record =>
    (.quiet, .answered (.redirected (safeReturnPath record.target)), { s with
      escalator := (s.escalator.success request.domain request.identity entry.decay clock.instant
        clock.later).2 })
  | .answered outcome => (.quiet, .answered outcome, s)

/-! ## The process -/

/-- A request goes by its label and a number of its own. -/
abbrev RequestId := String × Nat

structure System extends State where
  threads : KeyedMap RequestId Thread

/-- The stores are those of the entry that was built first. -/
def System.new (maxDomains maxEntries loopThreshold : Nat) : System where
  tokens := TokenStore.withLimits maxDomains maxEntries
  escalator := Escalator.new maxEntries
  loops := LoopDetector.withCapacity loopThreshold maxEntries
  sequence := 1
  threads := ∅

/-- A request arrives, or takes its next step. -/
inductive Event where
  | arrive (n : Nat) (entry : Entry) (request : Request) (now : Time)
  | advance (id : RequestId) (clock : Clock)

/-- The thread of a request that has arrived. -/
def arrived (entry : Entry) (request : Request) (now : Time) : Thread where
  entry := entry
  request := request
  stage :=
    match start sha256 hmac entry request now with
    | .answered outcome => .answered outcome
    | .verify => .verifying .started
    | .marked level => .escalating level

def Event.id : Event → RequestId
  | .arrive n _ request _ => (request.domain, n)
  | .advance id _ => id

def step (s : System) (e : Event) : (RequestId × Effect) × System :=
  match e, s.threads.lookup e.id with
  | .arrive _ entry request now, none =>
    ((e.id, .quiet),
      { s with threads := s.threads.insert e.id (arrived sha256 hmac entry request now) })
  | .advance _ clock, some thread =>
    let (effect, stage, state) := advance sha256 hmac urlDecode thread.entry thread.request clock
      s.toState thread.stage
    ((e.id, effect),
      { toState := state, threads := s.threads.insert e.id { thread with stage := stage } })
  | _, _ => ((e.id, .quiet), s)

/-- What the request was answered with, if it has been. -/
def System.outcome (s : System) (id : RequestId) : Option Outcome :=
  (s.threads.lookup id).bind fun thread =>
    match thread.stage with
    | .answered outcome => some outcome
    | _ => none

end requests

end ChallengeTier
