import Mathlib.Data.List.Sort
import Pingap.AbuseScenario
import Pingap.DomainStore
import Pingap.EventQueue
import Pingap.IpText

/-!
# The abuse decision registry

The registry keeps one cell per client of a namespace under each domain, turns
crossed thresholds into bans, and indexes the active bans for listing. Every
operation is one lock hold at one clock reading, except a listing, which takes
the lock again for every batch and is therefore a machine of its own. The digest
`sha256` is the one of the cryptographic library; it is given the text whose
bytes the program hashes.
-/

namespace AbuseRegistry

open MachineArith AbuseScenario
open DomainStore (HostPolicy Limits ScopedStore Domain)
open EventQueue (NativeKind NativeActor NativeLifecycle AuditStatus WafEvent)

/-- The 64 hexadecimal digits of a digest. -/
def digestHex (d : Digest) : String :=
  String.ofList ((List.range 64).map fun i => Text.hexDigit (d / 16 ^ (63 - i) % 16))

structure ScenarioProfile where
  ns : String
  generation : String
  config : AbuseConfig
  maxClients : Nat
  maxPaths : Nat
  maxLogins : Nat
deriving DecidableEq, Repr

namespace ScenarioProfile

/-- What the generation is the digest of. -/
def rendered (text : String) (maxClients maxLogins maxPaths : Nat) : String :=
  text ++ ":" ++ toString maxClients ++ ":" ++ toString maxLogins ++ ":" ++ toString maxPaths

/-- `ScenarioProfile::new`; `toml` renders a configuration. -/
def new (sha256 : String → Digest) (toml : AbuseConfig → Option String)
    (methodValid : String → Bool) (ns : String) (config : AbuseConfig)
    (maxClients maxLogins maxPaths : Nat) : Except String ScenarioProfile :=
  match config.validate methodValid maxLogins maxPaths with
  | .error message => .error message
  | .ok () =>
    if (Text.trim ns.toList).isEmpty || maxClients == 0 then
      .error "abuse requires namespace and positive client capacity"
    else
      match toml config with
      | none => .error "invalid abuse configuration"
      | some text =>
        let generation := digestHex (sha256 (rendered text maxClients maxLogins maxPaths))
        .ok ⟨ns, generation, config, maxClients, maxPaths, maxLogins⟩

def ruleIdle (r : Rule) : Nat := max (durationMs r.window) (durationMs r.banTtl)

def idleMs (p : ScenarioProfile) : Nat :=
  max (p.config.failedLogin.elim 0 fun s => ruleIdle s.rule) (p.config.scan.elim 0 ruleIdle)

end ScenarioProfile

structure Ticket where
  epoch : String
  generation : String
  incarnation : Nat
  reset : Nat
  ns : String
  domain : String
  identity : String
  key : String
  login : Bool
  path : Digest
deriving DecidableEq, Repr

structure Decision where
  id : String
  epoch : String
  profile : String
  domain : String
  clientIp : String
  scenario : Scenario
  createdAtMs : Nat
  expiresAtMs : Nat
  deadline : Nat
deriving DecidableEq, Repr

structure ActiveDecision where
  decision : Decision
  domain : String
  key : String
deriving DecidableEq, Repr

inductive Admission where
  | allowed (ticket : Option Ticket)
  | blocked (ban : Decision)
  | saturated
  | unregistered
  | unavailable
deriving DecidableEq, Repr

structure RegistryCounters where
  detected : Nat := 0
  created : Nat := 0
  expired : Nat := 0
  released : Nat := 0
  saturated : Nat := 0
  staleObservations : Nat := 0
deriving DecidableEq, Repr

structure Client where
  ns : String
  generation : String
  incarnation : Nat
  reset : Nat
  counters : Counters
  ban : Option Decision
  idleAt : Nat

namespace Client

/-- The ban is due: its deadline has come. -/
def banDue (c : Client) (now : Nat) : Bool := c.ban.any fun b => decide (b.deadline ≤ now)

/-- The cell once a due ban is over: a new reset and fresh counters. -/
def settled (c : Client) (now : Nat) : Client :=
  if c.banDue now then { c with reset := c.reset + 1, counters := Counters.empty, ban := none }
  else c

def dueBan (c : Client) (now : Nat) : Option Decision := if c.banDue now then c.ban else none

end Client

/-- The clients of one domain and how many of them each namespace has. -/
structure ClientBucket where
  store : ScopedStore Client
  domain : Domain
  counts : KeyedMap String Nat

/-- The index of active bans by sequence, and their deadlines in order. -/
structure BanIndex where
  active : KeyedMap Nat ActiveDecision
  expiry : List (Nat × Nat)

/-- Where lifecycle records go, and how many found no place. -/
structure Audit where
  queue : Option EventQueue.Queue
  lostLifecycle : Nat

/-- A transition of a ban, as it is handed to the audit trail: what became of the
ban, and for which reading of the clock. -/
structure Transition where
  kind : NativeKind
  ban : Decision
  now : Nat
deriving DecidableEq, Repr

structure Registry where
  epoch : String
  limits : Limits
  wallOrigin : Nat
  monoOrigin : Nat
  profiles : KeyedMap String ScenarioProfile
  hosts : Option HostPolicy
  domains : KeyedMap String ClientBucket
  sequence : Nat
  incarnation : Nat
  index : BanIndex
  counters : RegistryCounters
  audit : Audit
  /-- Every transition reported so far, whether or not the queue took its record.
  No operation reads it. -/
  transitions : List Transition

/-- The number at the end of a decision id. -/
def decisionSequence (id : String) : Option Nat := Text.parseU64 (Text.afterLast '-' id.toList)

namespace BanIndex

def empty : BanIndex := ⟨∅, []⟩

/-- The order of `(deadline, sequence)` pairs. -/
def earlier (a b : Nat × Nat) : Prop := a.1 < b.1 ∨ (a.1 = b.1 ∧ a.2 ≤ b.2)

instance : DecidableRel earlier := fun a b =>
  inferInstanceAs (Decidable (a.1 < b.1 ∨ (a.1 = b.1 ∧ a.2 ≤ b.2)))

def insertExpiry (x : Nat × Nat) (expiry : List (Nat × Nat)) : List (Nat × Nat) :=
  if x ∈ expiry then expiry else expiry.orderedInsert earlier x

def removeActive (i : BanIndex) (sequence : Nat) : BanIndex :=
  match i.active.lookup sequence with
  | some a => ⟨i.active.erase sequence, i.expiry.erase (a.decision.deadline, sequence)⟩
  | none => i

def forget (i : BanIndex) (ban : Decision) : BanIndex :=
  match decisionSequence ban.id with
  | some sequence => i.removeActive sequence
  | none => i

def record (i : BanIndex) (ban : Decision) (domain key : String) : BanIndex :=
  match decisionSequence ban.id with
  | some sequence =>
    ⟨i.active.insert sequence ⟨ban, domain, key⟩, insertExpiry (ban.deadline, sequence) i.expiry⟩
  | none => i

/-- The unexpired bans of one domain, as the rebuild collects them. -/
def collect (domain : String) (bucket : ClientBucket) (now : Nat) : List (Nat × ActiveDecision) :=
  (bucket.store.visit now bucket.domain).filterMap fun e =>
    match e.2.ban with
    | some ban =>
      if now < ban.deadline then
        (decisionSequence ban.id).map fun sequence => (sequence, ⟨ban, domain, e.1⟩)
      else none
    | none => none

def rebuild (domains : KeyedMap String ClientBucket) (now : Nat) : BanIndex :=
  let rows := domains.entries.flatMap fun e => collect e.1 e.2 now
  let active := rows.foldl (fun (m : KeyedMap Nat ActiveDecision) row => m.insert row.1 row.2) ∅
  ⟨active, active.entries.foldl (fun l e => insertExpiry (e.2.decision.deadline, e.1) l) []⟩

end BanIndex

namespace Audit

/-- `emit`: a record that does not enter the queue is counted as lost. -/
def emit (a : Audit) (event : NativeLifecycle) : AuditStatus × Audit :=
  match a.queue with
  | some queue =>
    let (admission, queue) := queue.offerNative event
    if admission.entered then (.queued, { a with queue := some queue })
    else (.degraded, ⟨some queue, a.lostLifecycle + 1⟩)
  | none => (.degraded, { a with lostLifecycle := a.lostLifecycle + 1 })

def offer (a : Audit) (event : WafEvent) : Audit :=
  { a with queue := a.queue.map fun queue => (queue.offer event).2 }

end Audit

namespace Registry

def new (epoch : String) (limits : Limits) (wallOrigin monoOrigin : Nat)
    (queue : Option EventQueue.Queue) : Registry where
  epoch := epoch
  limits := limits
  wallOrigin := wallOrigin
  monoOrigin := monoOrigin
  profiles := ∅
  hosts := none
  domains := ∅
  sequence := 0
  incarnation := 0
  index := BanIndex.empty
  counters := {}
  audit := ⟨queue, 0⟩
  transitions := []

def wall (r : Registry) (now : Nat) : Nat := satAdd64 r.wallOrigin (now - r.monoOrigin)

def transitionReason : NativeKind → String
  | .created => "threshold"
  | .released => "operator_release"
  | .expired => "ttl_expired"
  | .detected => "threshold"

def lifecycle (r : Registry) (kind : NativeKind) (ban : Decision) (now : Nat)
    (actor : NativeActor) : NativeLifecycle where
  version := 1
  kind := kind
  id := ban.id
  epoch := ban.epoch
  profile := ban.profile
  domain := ban.domain
  clientIp := ban.clientIp
  scenario := ban.scenario.label
  mode := "block"
  createdAtMs := ban.createdAtMs
  expiresAtMs := some ban.expiresAtMs
  observedAtMs := r.wall now
  actor := actor
  reason := transitionReason kind

def transition (r : Registry) (kind : NativeKind) (ban : Decision) (now : Nat)
    (actor : NativeActor) : AuditStatus × Registry :=
  let emitted := r.audit.emit (r.lifecycle kind ban now actor)
  (emitted.1,
    { r with audit := emitted.2, transitions := r.transitions ++ [⟨kind, ban, now⟩] })

def telemetryCategory (scenario : Scenario) : String :=
  "native.abuse." ++ (if scenario = .failedLogin then "login" else scenario.label)

def wafEvent (r : Registry) (profile domain ip : String) (scenario : Scenario)
    (verdict : EventQueue.Verdict) (now : Nat) : WafEvent where
  node := domain
  domain := domain
  profile := profile
  ruleId := none
  category := some (telemetryCategory scenario)
  severity := none
  score := 0
  verdict := verdict
  clientIp := some ip
  method := none
  uri := none
  createdAt := r.wall now / 1000

def telemetry (r : Registry) (profile domain ip : String) (scenario : Scenario)
    (verdict : EventQueue.Verdict) (now : Nat) : Registry :=
  { r with audit := r.audit.offer (r.wafEvent profile domain ip scenario verdict now) }

/-- A ban whose time is up: its record, its place in the index and its count. -/
def expireBan (r : Registry) (now : Nat) (ban : Decision) : Registry :=
  let r := (r.transition .expired ban now {}).2
  { r with
    index := r.index.forget ban
    counters := { r.counters with expired := r.counters.expired + 1 } }

def expireFound (r : Registry) (now : Nat) : Option Decision → Registry
  | some ban => r.expireBan now ban
  | none => r

def bumpSaturated (r : Registry) : Registry :=
  { r with counters := { r.counters with saturated := r.counters.saturated + 1 } }

def bumpStale (r : Registry) : Registry :=
  { r with counters := { r.counters with staleObservations := r.counters.staleObservations + 1 } }

/-- `retain_hosts`: the host set of the routing that was just swapped in. -/
def retainHosts (r : Registry) (now : Nat) (hosts : HostPolicy) : Registry :=
  let domains := r.domains.retain fun domain bucket =>
    if (hosts.classify domain).isOverflow then none else some bucket
  { r with domains := domains, hosts := some hosts, index := BanIndex.rebuild domains now }

/-- The profiles an activation puts in force: the enabled ones, and the previous
one of every retained namespace that none of them names. -/
def nextProfiles (r : Registry) (profiles : List ScenarioProfile) (retained : List String) :
    KeyedMap String ScenarioProfile :=
  let fresh := (profiles.filter fun p => p.config.enabled).foldl
    (fun (m : KeyedMap String ScenarioProfile) p => m.insert p.ns p) ∅
  retained.foldl (fun m ns =>
    match r.profiles.lookup ns, m.lookup ns with
    | some previous, none => m.insert ns previous
    | _, _ => m) fresh

/-- The cell belongs to a profile in force, in the generation it was made under. -/
def inForce (profiles : KeyedMap String ScenarioProfile) (c : Client) : Bool :=
  (profiles.lookup c.ns).any fun p => p.generation == c.generation

/-- How many clients each namespace has among the given ones. -/
def countClients (clients : List (String × Client)) : KeyedMap String Nat :=
  clients.foldl (fun (m : KeyedMap String Nat) e =>
    m.insert e.2.ns ((m.lookup e.2.ns).getD 0 + 1)) ∅

/-- A bucket after an activation, or nothing when no client is left in it. -/
def reprofile (profiles : KeyedMap String ScenarioProfile) (now : Nat) (bucket : ClientBucket) :
    Option ClientBucket :=
  let store := bucket.store.retain now bucket.domain fun _ c =>
    if inForce profiles c then some c else none
  let counts := countClients (store.visit now bucket.domain)
  let counted := store.entries now bucket.domain
  if 0 < counted.1 then some { bucket with store := counted.2, counts := counts } else none

def activateWithRetained (r : Registry) (now : Nat) (profiles : List ScenarioProfile)
    (retained : List String) : Registry :=
  let profiles := r.nextProfiles profiles retained
  let domains := r.domains.retain fun _ bucket => reprofile profiles now bucket
  { r with domains := domains, index := BanIndex.rebuild domains now, profiles := profiles }

section admission

variable (sha256 : String → Digest)

/-- The key of a client: the digest of its namespace and its canonical address. -/
def clientKey (ns identity : String) : String := digestHex (sha256 ns) ++ ":" ++ identity

def pathKey (path : String) : Digest := sha256 (pathPart path)

def watchesLogin (config : AbuseConfig) (method path : String) : Bool :=
  config.failedLogin.any fun s => s.path == pathPart path && s.method == method

/-- Give the domain a bucket, unless the domains are all taken. -/
def ensureDomain (r : Registry) (domain : String) : Option Registry :=
  if (r.domains.lookup domain).isSome then some r
  else if r.limits.maxDomains ≤ r.domains.size then none
  else
    let hosts := HostPolicy.new [domain]
    let bucket : ClientBucket := ⟨ScopedStore.new hosts r.limits, hosts.classify domain, ∅⟩
    some { r with domains := r.domains.insert domain bucket }

def putStore (r : Registry) (domain : String) (bucket : ClientBucket)
    (store : ScopedStore Client) : Registry :=
  { r with domains := r.domains.insert domain { bucket with store := store } }

/-- Run an update on one client of a domain, if the domain has a bucket. -/
def updateClient {ρ : Type} (r : Registry) (now : Nat) (domain key : String)
    (change : Client → Client × ρ) : Option ρ × Registry :=
  match r.domains.lookup domain with
  | none => (none, r)
  | some bucket =>
    let updated := bucket.store.update now bucket.domain key change
    (updated.1, r.putStore domain bucket updated.2)

/-- The ban a client is under, once a due one has been settled: nothing when
there is no such client. -/
def currentBan (r : Registry) (now : Nat) (domain key : String) :
    Option (Option Decision) × Registry :=
  match r.updateClient now domain key fun c =>
    (c.settled now, (c.dueBan now, (c.settled now).ban)) with
  | (none, r) => (none, r)
  | (some (due, ban), r) => (some ban, r.expireFound now due)

/-- The clients a full bucket keeps: those under a ban and those not yet idle. -/
def keepClient (now : Nat) (c : Client) : Option Client :=
  let c := c.settled now
  if c.ban.isSome || decide (now ≤ c.idleAt) then some c else none

/-- The counts once the clients that are not kept are gone. -/
def discount (now : Nat) (clients : List (String × Client)) (counts : KeyedMap String Nat) :
    KeyedMap String Nat :=
  clients.foldl (fun (m : KeyedMap String Nat) e =>
    if (keepClient now e.2).isSome then m else m.modify e.2.ns (· - 1)) counts

/-- The purge of a full bucket, with the bans it finds due. -/
def purge (now : Nat) (bucket : ClientBucket) : List Decision × ClientBucket :=
  let clients := bucket.store.visit now bucket.domain
  (clients.filterMap fun e => e.2.dueBan now,
    { bucket with
      store := bucket.store.retain now bucket.domain fun _ c => keepClient now c
      counts := discount now clients bucket.counts })

def clientCount (bucket : ClientBucket) (ns : String) : Nat := (bucket.counts.lookup ns).getD 0

/-- Look whether a bucket is at capacity for a namespace, and purge it if so. -/
def makeRoom (r : Registry) (now : Nat) (profile : ScenarioProfile) (ns domain : String)
    (bucket : ClientBucket) : Bool × Registry :=
  let counted := bucket.store.entries now bucket.domain
  let bucket := { bucket with store := counted.2 }
  if r.limits.maxEntriesPerDomain ≤ counted.1 ∨ profile.maxClients ≤ clientCount bucket ns then
    let purged := purge now bucket
    (true, purged.1.foldl (fun r ban => r.expireBan now ban)
      { r with domains := r.domains.insert domain purged.2 })
  else (false, { r with domains := r.domains.insert domain bucket })

def freshClient (r : Registry) (now : Nat) (profile : ScenarioProfile) (ns : String) : Client where
  ns := ns
  generation := profile.generation
  incarnation := r.incarnation
  reset := 0
  counters := Counters.empty
  ban := none
  idleAt := satAdd64 now profile.idleMs

def countOneMore (counts : KeyedMap String Nat) (ns : String) : KeyedMap String Nat :=
  counts.insert ns ((counts.lookup ns).getD 0 + 1)

/-- Store a new client; the answer says whether it found a place. -/
def insertClient (r : Registry) (now : Nat) (profile : ScenarioProfile) (ns domain key : String)
    (bucket : ClientBucket) : Bool × Registry :=
  match bucket.store.insert now bucket.domain key (r.freshClient now profile ns) durationMax with
  | (.ok (), store) =>
    let bucket := { bucket with store := store, counts := countOneMore bucket.counts ns }
    (true, { r with domains := r.domains.insert domain bucket })
  | (.error _, store) => (false, r.putStore domain bucket store)

/-- Make a cell for a client that has none. Every attempt that gets past the
capacity of its namespace uses up an incarnation. -/
def createClient (r : Registry) (now : Nat) (profile : ScenarioProfile) (ns domain key : String) :
    Bool × Registry :=
  match r.domains.lookup domain with
  | none => (false, r)
  | some bucket =>
    let room := r.makeRoom now profile ns domain bucket
    let r := room.2
    match r.domains.lookup domain with
    | none => (false, r)
    | some bucket =>
      if room.1 && decide (profile.maxClients ≤ clientCount bucket ns) then (false, r)
      else
        { r with incarnation := r.incarnation + 1 }.insertClient now profile ns domain key bucket

def ticketFor (r : Registry) (profile : ScenarioProfile) (ns domain identity key : String)
    (login : Bool) (path : Digest) (c : Client) : Ticket where
  epoch := r.epoch
  generation := profile.generation
  incarnation := c.incarnation
  reset := c.reset
  ns := ns
  domain := domain
  identity := identity
  key := key
  login := login
  path := path

def issueTicket (r : Registry) (now : Nat) (profile : ScenarioProfile)
    (ns domain identity key : String) (login : Bool) (path : Digest) : Admission × Registry :=
  let updated := r.updateClient now domain key fun c =>
    ({ c with idleAt := satAdd64 now profile.idleMs },
      r.ticketFor profile ns domain identity key login path c)
  (.allowed updated.1, updated.2)

/-- A client without a cell: it gets one and a ticket, or there is no room. -/
def admitNew (r : Registry) (now : Nat) (profile : ScenarioProfile)
    (ns domain identity key : String) (login : Bool) (path : Digest) : Admission × Registry :=
  let made := r.createClient now profile ns domain key
  if made.1 then made.2.issueTicket now profile ns domain identity key login path
  else (.saturated, made.2.bumpSaturated)

/-- The rest of an admission, by what the first look at the client found. -/
def admitFound (r : Registry) (now : Nat) (profile : ScenarioProfile)
    (ns domain identity key : String) (login : Bool) (path : Digest) :
    Option (Option Decision) → Admission × Registry
  | some (some ban) => (.blocked ban, r)
  | some none =>
    if !login && profile.config.scan.isNone then (.allowed none, r)
    else r.issueTicket now profile ns domain identity key login path
  | none =>
    if !login && profile.config.scan.isNone then (.allowed none, r)
    else r.admitNew now profile ns domain identity key login path

def admitUnder (r : Registry) (now : Nat) (profile : ScenarioProfile) (ns domain identity : String)
    (login : Bool) (path : Digest) : Admission × Registry :=
  let key := clientKey sha256 ns identity
  let current := r.currentBan now domain key
  current.2.admitFound now profile ns domain identity key login path current.1

def admitAddress (r : Registry) (now : Nat) (ns : String) (expected : Option String)
    (domain identity method path : String) : Admission × Registry :=
  if r.hosts.any fun hosts => (hosts.classify domain).isOverflow then (.unregistered, r)
  else
    match r.profiles.lookup ns with
    | none => (if expected.isSome then .unavailable else .allowed none, r)
    | some profile =>
      if expected.any fun generation => generation != profile.generation then (.unavailable, r)
      else
        match r.ensureDomain domain with
        | none => (.unavailable, r.bumpSaturated)
        | some r => r.admitUnder sha256 now profile ns domain identity
            (watchesLogin profile.config method path) (pathKey sha256 path)

def admitExpected (r : Registry) (now : Nat) (ns : String) (expected : Option String)
    (domain identity method path : String) (registered : Bool) : Admission × Registry :=
  if !registered then (.unregistered, r)
  else
    match IpText.parse identity with
    | none => (.unregistered, r)
    | some ip => r.admitAddress sha256 now ns expected domain (IpText.display ip) method path

end admission

/-! ## Observation -/

/-- What an observation did to the client it found. -/
structure Observed where
  expiredBan : Option Decision := none
  stale : Bool := false
  crossings : List Crossing := []
  createdBan : Option Decision := none

def newBan (r : Registry) (ticket : Ticket) (now sequence : Nat) (crossing : Crossing) :
    Decision where
  id := r.epoch ++ "-" ++ toString sequence
  epoch := r.epoch
  profile := ticket.ns
  domain := ticket.domain
  clientIp := ticket.identity
  scenario := crossing.scenario
  createdAtMs := r.wall now
  expiresAtMs := r.wall (satAdd64 now (durationMs crossing.banTtl))
  deadline := satAdd64 now (durationMs crossing.banTtl)

/-- The ticket was not issued against this cell as it is, or the cell is banned. -/
def staleTicket (ticket : Ticket) (c : Client) : Bool :=
  c.generation != ticket.generation || c.incarnation != ticket.incarnation ||
    c.reset != ticket.reset || c.ban.isSome

def observeClient (r : Registry) (profile : ScenarioProfile) (ticket : Ticket) (status now : Nat)
    (c : Client) : Client × Observed :=
  let expiredBan := c.dueBan now
  let c := c.settled now
  if staleTicket ticket c then (c, { expiredBan := expiredBan, stale := true })
  else
    let seen := c.counters.observe profile.config now ticket.login ticket.path status
    let c := { c with counters := seen.2, idleAt := satAdd64 now profile.idleMs }
    match seen.1.find? fun crossing => crossing.mode == .block with
    | none => (c, { expiredBan := expiredBan, crossings := seen.1 })
    | some crossing =>
      let ban := r.newBan ticket now (r.sequence + 1) crossing
      ({ c with ban := some ban, idleAt := max c.idleAt ban.deadline },
        { expiredBan := expiredBan, crossings := seen.1, createdBan := some ban })

def detection (r : Registry) (ticket : Ticket) (now : Nat) (scenario : Scenario) :
    NativeLifecycle where
  version := 1
  kind := .detected
  id := r.epoch ++ "-" ++ toString (r.sequence + 1) ++ "-" ++ scenario.label
  epoch := r.epoch
  profile := ticket.ns
  domain := ticket.domain
  clientIp := ticket.identity
  scenario := scenario.label
  mode := "detect"
  createdAtMs := r.wall now
  expiresAtMs := none
  observedAtMs := r.wall now
  actor := {}
  reason := "threshold"

/-- The record and the event of a threshold crossed in detect mode. -/
def reportDetection (r : Registry) (ticket : Ticket) (now : Nat) (crossing : Crossing) : Registry :=
  if crossing.mode = .detect then
    let r := { r with audit := (r.audit.emit (r.detection ticket now crossing.scenario)).2 }
    r.telemetry ticket.ns ticket.domain ticket.identity crossing.scenario .detect now
  else r

/-- The record, the index entry and the count of a ban just created. -/
def recordBan (r : Registry) (ticket : Ticket) (now : Nat) : Option Decision → Registry
  | some ban =>
    let r := (r.transition .created ban now {}).2
    { r with
      index := r.index.record ban ticket.domain ticket.key
      counters := { r.counters with created := r.counters.created + 1 } }
  | none => r

/-- The counts of an observation; a sequence number is used up only by one that
crossed a threshold. -/
def countObserved (r : Registry) (o : Observed) : Registry :=
  let detected := !o.crossings.isEmpty
  { r with
    sequence := if detected then r.sequence + 1 else r.sequence
    counters := { r.counters with
      staleObservations := r.counters.staleObservations + if o.stale then 1 else 0
      detected := r.counters.detected + if detected then 1 else 0 } }

def settleObserved (r : Registry) (ticket : Ticket) (now : Nat) (o : Observed) : Registry :=
  let r := r.expireFound now o.expiredBan
  let r := o.crossings.foldl (fun r crossing => r.reportDetection ticket now crossing) r
  (r.recordBan ticket now o.createdBan).countObserved o

def Observed.evidence (o : Observed) : Evidence := ⟨!o.crossings.isEmpty, o.createdBan.isSome⟩

def observe (r : Registry) (now : Nat) (ticket : Ticket) (status : Nat) (localDenial : Bool) :
    Evidence × Registry :=
  if localDenial || ticket.epoch != r.epoch then ({}, r)
  else
    match (r.profiles.lookup ticket.ns).filter fun p => p.generation == ticket.generation with
    | none => ({}, r.bumpStale)
    | some profile =>
      let updated := r.updateClient now ticket.domain ticket.key
        (r.observeClient profile ticket status now)
      match updated.1 with
      | none => ({}, updated.2)
      | some o => (o.evidence, updated.2.settleObserved ticket now o)

/-! ## Release -/

structure NativeRelease where
  released : Bool
  audit : AuditStatus
deriving DecidableEq, Repr

/-- The change a release makes to the client it found: a due ban is settled, and
only the very decision named is lifted. -/
def releaseClient (now : Nat) (id : String) (c : Client) :
    Client × Option Decision × Option Decision :=
  let due := c.dueBan now
  let c := c.settled now
  match c.ban with
  | some ban =>
    if ban.id = id then
      ({ c with reset := c.reset + 1, ban := none, counters := Counters.empty }, due, some ban)
    else (c, due, none)
  | none => (c, due, none)

/-- The client key of an address as an operator wrote it. -/
def releaseKey (sha256 : String → Digest) (ns identity : String) : String :=
  clientKey sha256 ns ((IpText.parse identity).elim "" IpText.display)

/-- A due ban met by a release; it is counted only when its id names a sequence. -/
def expireReleased (r : Registry) (now : Nat) : Option Decision → Registry
  | some ban =>
    let r := (r.transition .expired ban now {}).2
    if (decisionSequence ban.id).isSome then
      { r with
        index := r.index.forget ban
        counters := { r.counters with expired := r.counters.expired + 1 } }
    else r
  | none => r

/-- The answer to a release, with the record and the count of a ban it lifted. -/
def finishRelease (r : Registry) (now : Nat) (actor : NativeActor) :
    Option Decision → NativeRelease × Registry
  | some ban =>
    let out := r.transition .released ban now actor
    let r := out.2
    (⟨true, out.1⟩, { r with
      index := r.index.forget ban
      counters := { r.counters with released := r.counters.released + 1 } })
  | none => (⟨false, .notApplicable⟩, r)

def releaseAs (sha256 : String → Digest) (r : Registry) (now : Nat)
    (ns domain identity id : String) (actor : NativeActor) : NativeRelease × Registry :=
  let updated := r.updateClient now domain (releaseKey sha256 ns identity) (releaseClient now id)
  match updated.1 with
  | none => (⟨false, .notApplicable⟩, updated.2)
  | some (due, lifted) => (updated.2.expireReleased now due).finishRelease now actor lifted

/-! ## Listing -/

/-- How many index entries a listing handles in one lock hold. -/
def BATCH : Nat := 64

inductive ListingPhase where
  | expiring
  | scanning
  | finished
deriving DecidableEq, Repr

/-- A listing between two lock holds. The clock and the last sequence are sampled
once, when it starts. -/
structure Listing where
  profile : Option String
  domain : Option String
  limit : Nat
  now : Nat
  maxSequence : Option Nat
  scannedThrough : Nat
  rows : List Decision
  phase : ListingPhase

/-- The first lock hold of `filtered_decisions`. -/
def startListing (r : Registry) (now : Nat) (profile domain : Option String) (after limit : Nat) :
    Listing where
  profile := profile
  domain := domain
  limit := limit
  now := now
  maxSequence := r.index.active.keys.max?
  scannedThrough := after
  rows := []
  phase := if limit = 0 then .finished else .expiring

/-- The bans a listing finds due, the earliest first. -/
def dueBatch (r : Registry) (listingNow : Nat) : List (Nat × Nat) :=
  (r.index.expiry.takeWhile fun e => decide (e.1 ≤ listingNow)).take BATCH

/-- The change a listing makes to the client of a due index entry. -/
def expireClient (listingNow : Nat) (id : String) (c : Client) : Client × Option Decision :=
  if c.ban.any fun ban => ban.id == id then (c.settled listingNow, c.dueBan listingNow)
  else (c, none)

/-- The record and the count of a ban a listing found over. -/
def expireListed (r : Registry) (listingNow : Nat) : Option Decision → Registry
  | some ban =>
    let r := (r.transition .expired ban listingNow {}).2
    { r with counters := { r.counters with expired := r.counters.expired + 1 } }
  | none => r

/-- One due index entry of a listing, which settles at the listing's own time. -/
def expireIndexed (r : Registry) (now listingNow : Nat) (entry : Nat × Nat) : Registry :=
  match r.index.active.lookup entry.2 with
  | none => { r with index := { r.index with expiry := r.index.expiry.erase entry } }
  | some a =>
    let updated := r.updateClient now a.domain a.key (expireClient listingNow a.decision.id)
    let r := updated.2.expireListed listingNow updated.1.join
    { r with index := r.index.removeActive entry.2 }

/-- The rows of one batch, up to the limit, and how far it was read. -/
def takeRows (l : Listing) : List (Nat × Decision) → Listing
  | [] => l
  | (sequence, ban) :: rest =>
    let l := { l with scannedThrough := sequence }
    if decide (l.now < ban.deadline) && l.profile.all (· == ban.profile) &&
        l.domain.all (· == ban.domain) then
      let l := { l with rows := l.rows ++ [ban] }
      if l.rows.length = l.limit then { l with phase := .finished } else takeRows l rest
    else takeRows l rest

/-- The next batch of index entries a listing reads, in the order of sequence. -/
def candidates (r : Registry) (l : Listing) (maxSequence : Nat) : List (Nat × Decision) :=
  let sequences := (r.index.active.keys.filter fun s =>
    decide (l.scannedThrough < s) && decide (s ≤ maxSequence)).insertionSort (· ≤ ·)
  (sequences.take BATCH).filterMap fun s =>
    (r.index.active.lookup s).map fun a => (s, a.decision)

/-- One further lock hold of a listing. -/
def stepListing (r : Registry) (now : Nat) (l : Listing) : Listing × Registry :=
  match l.phase with
  | .finished => (l, r)
  | .expiring =>
    match r.dueBatch l.now with
    | [] =>
      let more := l.maxSequence.any fun last => decide (l.scannedThrough < last)
      ({ l with phase := if more then .scanning else .finished }, r)
    | due => (l, due.foldl (fun r entry => r.expireIndexed now l.now entry) r)
  | .scanning =>
    match l.maxSequence with
    | none => ({ l with phase := .finished }, r)
    | some last =>
      if last ≤ l.scannedThrough then ({ l with phase := .finished }, r)
      else
        match r.candidates l last with
        | [] => ({ l with phase := .finished }, r)
        | batch => (takeRows l batch, r)

structure NativeBan where
  id : String
  epoch : String
  profile : String
  domain : String
  clientIp : String
  scenario : String
  mode : String
  createdAtMs : Nat
  expiresAtMs : Nat
  remainingMs : Nat
deriving DecidableEq, Repr

structure NativeBanPage where
  epoch : String
  nextCursor : Option String
  items : List NativeBan
deriving DecidableEq, Repr

def pageItem (now : Nat) (b : Decision) : NativeBan where
  id := b.id
  epoch := b.epoch
  profile := b.profile
  domain := b.domain
  clientIp := b.clientIp
  scenario := b.scenario.label
  mode := "block"
  createdAtMs := b.createdAtMs
  expiresAtMs := b.expiresAtMs
  remainingMs := b.expiresAtMs - now

/-- The cursor of a page that ends with the ban. -/
def cursorOf (r : Registry) (b : Decision) : String :=
  r.epoch ++ ":" ++ String.ofList (Text.afterLast '-' b.id.toList)

/-- `list`: the page of a finished listing. A full page has a cursor. -/
def page (r : Registry) (l : Listing) : NativeBanPage where
  epoch := r.epoch
  nextCursor := if l.rows.length = l.limit then l.rows.getLast?.map r.cursorOf else none
  items := l.rows.map (pageItem (if l.limit = 0 then 0 else r.wall l.now))

/-- Where the route starts a listing: after the sequence its cursor names, which
has to be one of this runtime. -/
def afterCursor (r : Registry) : Option String → Except String Nat
  | none => .ok 0
  | some cursor =>
    match Text.rsplitOnce ':' cursor.toList with
    | none => .error "invalid ban cursor"
    | some (epoch, sequence) =>
      if String.ofList epoch ≠ r.epoch then
        .error "ban cursor belongs to a previous runtime; refresh the first page"
      else
        match Text.parseU64 sequence with
        | none => .error "invalid ban cursor"
        | some after => .ok after

end Registry

end AbuseRegistry
