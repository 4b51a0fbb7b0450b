import Mathlib.Algebra.Order.Floor.Defs
import Mathlib.Data.Rat.Floor
import Pingap.AbuseRegistry
import Pingap.BehaviourStore

/-!
# The behaviour plugin

A client is scored on the profile that the store has of it, with the weights and
thresholds of the entry, and its request becomes an observation when the response
comes back. The store is one for all entries of the process. Numbers are exact; the
square root and the binary logarithm are those of the platform.
-/

namespace BehaviourPlugin

open MachineArith AbuseScenario AbuseRegistry BehaviourStore

/-! ## Identity -/

inductive IdentitySource where
  | trustedProxies
  | peerAddress
deriving DecidableEq, Repr

def noTrustAnchor : String :=
  "this control keys state on the client address, but `basic.trusted_proxies` is not configured " ++
  "and `client_ip_from_peer` is not asserted. With neither, `X-Forwarded-For` is honoured from " ++
  "any peer, so the client chooses its own identity: every binding keyed on it proves nothing, " ++
  "and state can be accrued against an address the request merely named. Set " ++
  "`basic.trusted_proxies` to the addresses of your own proxies; or, if this node terminates " ++
  "client connections directly with nothing in front of it, set `client_ip_from_peer = true`"

/-- `ClientIdentity::new`, under the trusted proxies of the configuration being built. -/
def clientIdentity (trustedProxies clientIpFromPeer : Bool) : Except String IdentitySource :=
  if trustedProxies then .ok .trustedProxies
  else if clientIpFromPeer then .ok .peerAddress
  else .error noTrustAnchor

/-! ## Configuration -/

structure SignalWeights where
  timingRegularity : Nat := 25
  urlEntropy : Nat := 20
  requestDiversity : Nat := 20
  requestSpeed : Nat := 15
  errorPattern : Nat := 10
  userAgentConsistency : Nat := 10
deriving DecidableEq, Repr

def SignalWeights.values (w : SignalWeights) : List Nat :=
  [w.timingRegularity, w.urlEntropy, w.requestDiversity, w.requestSpeed, w.errorPattern,
    w.userAgentConsistency]

def SignalWeights.total (w : SignalWeights) : Nat := w.values.sum

structure Thresholds where
  human : Nat := 55
  suspicious : Nat := 40
  bot : Nat := 20
deriving DecidableEq, Repr

structure BehaviourConfig where
  enabled : Bool := false
  abuse : AbuseConfig := ⟨false, none, none⟩
  abuseNamespace : Option String := none
  window : Duration := 300000000000
  maxClients : Nat := 5000
  maxUrlKeys : Nat := 64
  maxUserAgents : Nat := 8
  maxIntervalSamples : Nat := 32
  minSamples : Nat := 6
  budgetMs : Nat := 2
  weights : SignalWeights := {}
  thresholds : Thresholds := {}
  clientIpFromPeer : Bool := false
deriving DecidableEq, Repr

namespace BehaviourConfig

def maxSamples (c : BehaviourConfig) : Nat := max c.maxIntervalSamples c.minSamples

def zero (key : String) : String := "behaviour: `" ++ key ++ "` must be greater than zero"

def invalidAbuse (reason : String) : String :=
  "behaviour: invalid abuse configuration: " ++ reason

def capacities (c : BehaviourConfig) : List (String × Nat) :=
  [("window", c.window), ("max_clients", c.maxClients), ("max_url_keys", c.maxUrlKeys),
    ("max_user_agents", c.maxUserAgents), ("max_interval_samples", c.maxIntervalSamples),
    ("min_samples", c.minSamples), ("budget_ms", c.budgetMs)]

def validateAbuse (methodValid : String → Bool) (c : BehaviourConfig) : Except String Unit :=
  if c.abuse.enabled then
    match c.abuse.validate methodValid c.maxIntervalSamples c.maxUrlKeys with
    | .error reason => .error (invalidAbuse reason)
    | .ok () =>
      if c.abuseNamespace.all fun ns => (Text.trim ns.toList).isEmpty then
        .error (invalidAbuse "abuse_namespace is required")
      else .ok ()
  else .ok ()

def validate (methodValid : String → Bool) (trustedProxies : Bool) (c : BehaviourConfig) :
    Except String Unit :=
  if !c.enabled then .ok ()
  else do
    c.validateAbuse methodValid
    match c.capacities.find? fun field => field.2 == 0 with
    | some (key, _) => .error (zero key)
    | none =>
      if c.weights.total != 100 then
        .error ("behaviour: `weights` sum to " ++ toString c.weights.total ++
          "; expected exactly 100")
      else if !(decide (c.thresholds.suspicious ≤ c.thresholds.human) &&
          decide (c.thresholds.bot ≤ c.thresholds.suspicious)) then
        .error "behaviour: thresholds must descend human >= suspicious >= bot"
      else
        match clientIdentity trustedProxies c.clientIpFromPeer with
        | .error reason =>
          .error ("behaviour: identity gate refused construction: " ++ reason)
        | .ok _ => .ok ()

/-- The store as this configuration alone would make it. -/
def newStore (c : BehaviourConfig) : Store :=
  Store.new c.maxClients c.maxUrlKeys c.maxUserAgents c.maxSamples c.window

end BehaviourConfig

/-! ## Signals -/

/-- The functions of the platform that are not rational. -/
structure Elementary where
  sqrt : ℚ → ℚ
  log2 : ℚ → ℚ

def clamp (x low high : ℚ) : ℚ := max low (min x high)

/-- A signal is silent below its number of samples. -/
def signal (p : Profile) (least : Nat) (credit : Option ℚ) : Option ℚ :=
  if p.samples.length < least then none else credit

def seconds (start finish : Nat) : ℚ := (finish - start : Nat) / 10 ^ 9

def intervals (p : Profile) : List ℚ :=
  List.zipWith (fun previous current => seconds previous.instant current.instant) p.samples
    (p.samples.drop 1)

/-- The spread of the intervals, as a share of their mean. -/
def timingRegularity (f : Elementary) (p : Profile) (least : Nat) : Option ℚ :=
  signal p least <|
    if (intervals p).isEmpty then none
    else
      let n : ℚ := (intervals p).length
      let mean := (intervals p).sum / n
      if mean = 0 then some 0
      else
        let variance := ((intervals p).map fun value => (value - mean) ^ 2).sum / n
        some (clamp (f.sqrt variance / mean) 0 1 * 100)

def urlEntropy (f : Elementary) (p : Profile) (least : Nat) : Option ℚ :=
  signal p least <|
    let counts := p.urlCounts.entries.map fun e => (e.2 : ℚ)
    let total := counts.sum
    if total = 0 then none
    else
      let entropy := (counts.map fun value => -(value / total) * f.log2 (value / total)).sum
      some (clamp (entropy / max (f.log2 (max p.urlCounts.size 1 : Nat)) 1 * 100) 0 100)

def requestDiversity (p : Profile) (least : Nat) : Option ℚ :=
  signal p least (some (clamp (p.urlCounts.size / p.samples.length * 100) 0 100))

def requestSpeed (p : Profile) (least : Nat) : Option ℚ :=
  signal p least <| do
    let first ← p.samples.head?
    let last ← p.samples.getLast?
    let rps := p.samples.length / max (seconds first.instant last.instant) 1
    some (clamp (100 / (1 + rps * 2)) 0 100)

def errorPattern (p : Profile) (least : Nat) : Option ℚ :=
  let errors : ℚ := (p.samples.countP fun s => decide (400 ≤ s.status) : Nat)
  signal p least (some (clamp (100 - errors / p.samples.length * 100) 0 100))

def userAgentConsistency (p : Profile) (least : Nat) : Option ℚ :=
  signal p least (some (clamp (100 / (max p.userAgents.length 1 : Nat)) 0 100))

/-! ## Score -/

inductive Classification where
  | human
  | suspicious
  | bot
  | ddosShaped
deriving DecidableEq, Repr

structure Score where
  value : Nat
  classification : Classification
  contributingSignals : Nat
  observationCount : Nat
deriving DecidableEq, Repr

/-- The signals that speak, each with its weight. -/
def contributions (f : Elementary) (p : Profile) (weights : SignalWeights) (minSamples : Nat) :
    List (ℚ × Nat) :=
  let values := [timingRegularity f p (max minSamples 10), urlEntropy f p (max minSamples 20),
    requestDiversity p (max minSamples 20), requestSpeed p (max minSamples 10),
    errorPattern p (max minSamples 20), userAgentConsistency p (max minSamples 5)]
  (values.zip weights.values).filterMap fun (value, weight) =>
    if weight = 0 then none else value.map fun value => (value, weight)

/-- `f64::round` of a number that is not negative, into its range. -/
def roundScore (x : ℚ) : Nat := ⌊clamp (x + 1 / 2) 0 100⌋.toNat

def classify (thresholds : Thresholds) (count value : Nat) : Classification :=
  if count < 2 then .suspicious
  else if thresholds.human ≤ value then .human
  else if thresholds.suspicious ≤ value then .suspicious
  else if thresholds.bot ≤ value then .bot
  else .ddosShaped

def score (f : Elementary) (p : Profile) (weights : SignalWeights) (thresholds : Thresholds)
    (minSamples : Nat) : Score :=
  let heard := contributions f p weights minSamples
  let total := (heard.map Prod.snd).sum
  let weighted := (heard.map fun (value, weight) => value * weight).sum
  let value := if total = 0 then 0 else roundScore (weighted / total)
  ⟨value, classify thresholds heard.length value, heard.length, p.observed⟩

/-! ## The plugin -/

/-- An entry, without the store that it shares. -/
structure Behaviour where
  config : BehaviourConfig
  identity : Option IdentitySource
  nativeProfile : Option ScenarioProfile
  pendingKey : String
deriving DecidableEq

/-- What a request brings, with the answer of the abuse stage if it gives one. -/
structure Request where
  domain : String
  identity : String
  started : Nat
  elapsedMs : Nat
  abuseAnswer : Option (Nat × String) := none
deriving DecidableEq, Repr

inductive Answer where
  | skipped
  | responded (status : Nat) (body : String)
  | budgetExhausted
  | scored (score : Score)
deriving DecidableEq, Repr

structure PendingObservation where
  domain : String
  identity : String
  observation : Observation
  recordScore : Bool
deriving DecidableEq, Repr

namespace Behaviour

def budgetExceeded (elapsedMs budgetMs : Nat) : Bool := decide (budgetMs < elapsedMs)

/-- `handle_request` from where the domain and the identity are known. -/
def handleRequest (f : Elementary) (b : Behaviour) (store : Store) (r : Request) :
    Answer × Store :=
  if !b.config.enabled then (.skipped, store)
  else
    match b.nativeProfile.bind fun _ => r.abuseAnswer with
    | some (status, body) => (.responded status body, store)
    | none =>
      let (found, store) := store.snapshot r.domain r.identity r.started
      let profile := found.getD (Profile.new b.config.maxSamples b.config.maxUrlKeys
        b.config.maxUserAgents b.config.window)
      let score := score f profile b.config.weights b.config.thresholds b.config.minSamples
      if budgetExceeded r.elapsedMs b.config.budgetMs then (.budgetExhausted, store)
      else (.scored score, store)

/-- `handle_response`, for an observation that waits. -/
def handleResponse (b : Behaviour) (store : Store) (pending : PendingObservation) : Store :=
  if !b.config.enabled then store
  else if pending.recordScore then
    (store.record pending.domain pending.identity pending.observation).2
  else store

theorem limits_handleRequest (b : Behaviour) :
    (b.handleRequest f store r).2.limits = store.limits := by
  unfold handleRequest
  split
  · rfl
  split
  · rfl
  simp only
  split
  all_goals exact Store.limits_snapshot

theorem uniform_handleRequest (f : Elementary) (b : Behaviour) (h : store.Uniform) (r : Request) :
    (b.handleRequest f store r).2.Uniform := by
  unfold handleRequest
  split
  · exact h
  split
  · exact h
  simp only
  split
  all_goals exact Store.uniform_snapshot h

theorem limits_handleResponse (b : Behaviour) :
    (b.handleResponse store pending).limits = store.limits := by
  unfold handleResponse
  split
  · rfl
  split
  · exact Store.limits_record
  · rfl

theorem uniform_handleResponse {b : Behaviour} (h : store.Uniform) :
    (b.handleResponse store pending).Uniform := by
  unfold handleResponse
  split
  · exact h
  split
  · exact Store.uniform_record h
  · exact h

end Behaviour

end BehaviourPlugin
