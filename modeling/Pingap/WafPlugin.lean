import Pingap.EventQueue
import Pingap.WafEngine

/-!
# The firewall plugin

One entry of the firewall in the stages of a request: the headers and the query,
then the body chunk by chunk. What a request carries between the stages stands in
its context under the type of the value, so the entries of one location share it.
-/

namespace WafPlugin

open MachineArith WafRule WafEngine
open Utf8 (Bytes)

/-! ## Withholding a body -/

inductive OverCap where
  | inspectPrefix
  | reject
deriving DecidableEq, Repr

inductive Feed where
  | hold
  | release
  | passThrough
  | reject
deriving DecidableEq, Repr

structure BodyBuffer where
  limit : Nat
  policy : OverCap
  buf : Bytes
  released : Bool
  truncated : Bool
deriving DecidableEq, Repr

namespace BodyBuffer

def new (limit : Nat) (policy : OverCap) : BodyBuffer := ⟨limit, policy, [], false, false⟩

def feed (b : BodyBuffer) (chunk : Option Bytes) (endOfStream : Bool) : Feed × BodyBuffer :=
  if b.released then (.passThrough, b)
  else
    let b := { b with buf := b.buf ++ chunk.getD [] }
    if b.limit < b.buf.length then
      if b.policy = .reject then (.reject, b)
      else (.release, { b with truncated := true, released := true })
    else if endOfStream then (.release, { b with released := true })
    else (.hold, b)

def inspected (b : BodyBuffer) : Bytes := b.buf.take (min b.buf.length b.limit)

def take (b : BodyBuffer) : Bytes × BodyBuffer := (b.buf, { b with buf := [] })

end BodyBuffer

/-- Cover a span with asterisks, as far as it is in the body. -/
def mask (body : Bytes) (start len : Nat) : Bool × Bytes :=
  let stop := min (start + len) body.length
  if stop ≤ start then (false, body)
  else (true, body.take start ++ List.replicate (stop - start) 42 ++ body.drop stop)

/-! ## What a request carries -/

/-- The verdict of a request so far. -/
structure WafState where
  profile : String := ""
  hits : List Hit := []
  score : Nat := 0
  enforcingScore : Nat := 0
  blocked : Bool := false
  challenged : Bool := false
  truncated : Bool := false
  budgetExhausted : Bool := false
  redacted : Bool := false
  intelFeed : Option String := none
  intelCategory : Option String := none
  emittedHits : Nat := 0
  domain : String := ""
  clientIp : Option String := none
  method : String := ""
  uri : String := ""
  terminalEmitted : Bool := false
deriving DecidableEq, Repr

def WafState.absorb (s : WafState) (hits : List Hit) (score enforcing : Nat) : WafState :=
  { s with
    hits := s.hits ++ hits
    score := satAdd32 s.score score
    enforcingScore := satAdd32 s.enforcingScore enforcing }

structure ChallengeMarker where
  source : String
  reason : String
  level : Nat := 0
deriving DecidableEq, Repr

/-- The context of a request, as far as the firewall reads and writes it. -/
structure Ctx where
  waf : Option WafState := none
  requestBody : Option BodyBuffer := none
  upstreamBody : Option BodyBuffer := none
  downstreamBody : Option BodyBuffer := none
  challengeMarker : Option ChallengeMarker := none
  logVariables : KeyedMap String String := ∅
  location : String := ""
  status : Option Nat := none

/-- The context and the event queue of the process, when it has one. -/
structure World where
  ctx : Ctx
  queue : Option EventQueue.Queue

/-! ## Publishing the verdict -/

def categoryKey : Category → String
  | .protocolEnforcement => "protocol_enforcement"
  | .localFileInclusion => "local_file_inclusion"
  | .remoteCodeExecution => "remote_code_execution"
  | .php => "php"
  | .generic => "generic"
  | .xss => "xss"
  | .sqlInjection => "sql_injection"
  | .sessionFixation => "session_fixation"
  | .dataLeakage => "data_leakage"
  | .webShell => "web_shell"

def severityName : Severity → String
  | .notice => "notice"
  | .warning => "warning"
  | .error => "error"
  | .critical => "critical"

/-- The greater of the worst severity so far and another one. -/
def worse (worst : Option Severity) (s : Severity) : Option Severity :=
  match worst with
  | none => some s
  | some w => some (if w.defaultScore ≤ s.defaultScore then s else w)

def wafAction (s : WafState) : String :=
  if s.blocked then "block"
  else if s.challenged then "challenge"
  else if s.redacted then "redact"
  else if s.hits.isEmpty then "pass"
  else "detect"

/-- The variables of a log line. -/
def verdictFields (s : WafState) : List (String × String) :=
  ("waf_action", wafAction s) ::
    ((if s.hits.isEmpty then [] else
      [("waf_profile", s.profile), ("waf_score", toString s.score),
        ("waf_hits", toString s.hits.length),
        ("waf_rules", ",".intercalate (s.hits.map fun h => toString h.ruleId)),
        ("waf_categories", ",".intercalate (s.hits.map fun h => categoryKey h.category))] ++
      (((s.hits.map Hit.severity).foldl worse none).map
        fun w => ("waf_severity", severityName w)).toList) ++
    (s.intelFeed.map fun feed => ("waf_intel_feed", feed)).toList ++
    (s.intelCategory.map fun category => ("waf_intel_category", category)).toList ++
    (if s.truncated then [("waf_truncated", "true")] else []) ++
    if s.budgetExhausted then [("waf_budget_exhausted", "true")] else [])

def emitVerdict (ctx : Ctx) : Ctx :=
  match ctx.waf with
  | none => ctx
  | some s => { ctx with
      logVariables := (verdictFields s).foldl (fun vars f => vars.insert f.1 f.2) ctx.logVariables }

def eventVerdict (s : WafState) : EventQueue.Verdict :=
  if s.blocked then .block else if s.redacted then .redact else .detect

def hitEvent (now : Nat) (s : WafState) (hit : Hit) : EventQueue.WafEvent where
  node := s.domain
  domain := s.domain
  profile := s.profile
  ruleId := some hit.ruleId
  category := some (categoryKey hit.category)
  severity := some (severityName hit.severity)
  score := hit.score
  verdict := eventVerdict s
  clientIp := s.clientIp
  method := some s.method
  uri := some s.uri
  createdAt := now

/-- The event of a request without new hits. -/
def aggregateEvent (now : Nat) (s : WafState) : EventQueue.WafEvent where
  node := s.domain
  domain := s.domain
  profile := s.profile
  ruleId := none
  category := s.intelCategory
  severity := none
  score := s.score
  verdict := eventVerdict s
  clientIp := s.clientIp
  method := some s.method
  uri := some s.uri
  createdAt := now

def offerAll (events : List EventQueue.WafEvent) (q : EventQueue.Queue) : EventQueue.Queue :=
  events.foldl (fun q e => (q.offer e).2) q

def offerNewEvents (now : Nat) (terminal : Bool) (w : World) : World :=
  match w.queue, w.ctx.waf with
  | some queue, some s =>
    let events := (s.hits.drop s.emittedHits).map (hitEvent now s)
    let aggregate := terminal && events.isEmpty && !s.terminalEmitted
    let s := { s with
      emittedHits := s.hits.length
      terminalEmitted := s.terminalEmitted || aggregate }
    let queue := offerAll events queue
    { ctx := { w.ctx with waf := some s }
      queue := some (if aggregate then (queue.offer (aggregateEvent now s)).2 else queue) }
  | _, _ => w

/-- Every path out of a stage publishes. -/
def publish (now : Nat) (w : World) : World :=
  offerNewEvents now true { w with ctx := emitVerdict w.ctx }

/-! ## The request as the plugin reads it -/

structure Session where
  method : String
  uri : String
  path : String
  query : Option String
  uriHost : Option String
  headers : List (String × Bytes)
  clientIp : String

def toStr (value : Bytes) : Option String :=
  if value.all fun b => (decide (32 ≤ b.toNat) && decide (b.toNat < 127)) || b.toNat == 9 then
    some (String.ofList (value.map fun b => Char.ofNat b.toNat))
  else none

def headerPairs (session : Session) : List (String × String) :=
  session.headers.filterMap fun h => (toStr h.2).map fun v => (h.1, v)

/-- A parameter split at its first equals sign. -/
def queryPair (part : List Char) : String × String :=
  match Text.splitOnce '=' part with
  | some (k, v) => (String.ofList k, String.ofList v)
  | none => (String.ofList part, "")

def queryPairs (query : String) : List (String × String) :=
  ((query.toList.splitOn '&').filter fun part => !part.isEmpty).map queryPair

def getHost (session : Session) : Option String :=
  session.uriHost.or (((session.headers.find? fun h => h.1 == "host").bind fun h =>
    toStr h.2).map fun host => String.ofList (Text.before ':' host.toList))

def headerInput (session : Session) : RequestInput where
  method := session.method
  uri := session.uri
  headers := headerPairs session
  query := (session.query.map queryPairs).getD []

/-- The body on its own, as its stage evaluates it. -/
def bodyInput (inspected : Bytes) (truncated : Bool) : RequestInput where
  body := some inspected
  bodyTruncated := truncated

/-! ## The plugin -/

structure FeedMatch where
  feed : Option String
  category : Option String
deriving DecidableEq, Repr

/-- An entry of the firewall. The address list and the feeds are given by what they
answer for a client. -/
structure Waf where
  engine : RuleEngine
  ipFilter : Option (String → Bool) := none
  intel : Option (IpText.IpAddr → Option FeedMatch) := none
  overCap : OverCap := .inspectPrefix

inductive PluginStep where
  | earlyRequest
  | request
  | requestBody
  | proxyUpstream
  | upstreamResponse
  | response
deriving DecidableEq, Repr

structure HttpResponse where
  status : Nat
  body : String
deriving DecidableEq, Repr

inductive RequestPluginResult where
  | skipped
  | proceed
  | respond (response : HttpResponse)
deriving DecidableEq, Repr

structure HttpError where
  status : Nat
  message : String
deriving DecidableEq, Repr

def forbidden : HttpResponse := ⟨403, "Forbidden"⟩

def overCapError (limit : Nat) : HttpError where
  status := 413
  message := "waf: request body exceeds the " ++ toString limit ++
    "-byte inspection limit and `over_cap` is \"reject\""

def bodyError : HttpError := ⟨403, "waf: request body rejected"⟩

/-- What the engine was shown of a body, and what it answered. -/
structure Judgement where
  input : RequestInput
  evaluation : Evaluation RequestVerdict

/-- What one call for a chunk of a body leaves. The judgement it made, if any, stands
beside what the proxy sees. -/
structure BodyStep where
  world : World
  body : Option Bytes
  refused : Option HttpError
  judged : Option Judgement

namespace Waf

def bodyLimit (waf : Waf) : Nat := waf.engine.config.bodyInspectLimit

def profile (waf : Waf) : String := waf.engine.config.profile

/-- Change the state of the request, which is made and named on first use. -/
def updateState (waf : Waf) (f : WafState → WafState) (w : World) : World :=
  let s := w.ctx.waf.getD {}
  let s := if s.profile.isEmpty then { s with profile := waf.profile } else s
  { w with ctx := { w.ctx with waf := some (f s) } }

section handlers

variable (urlDecode : String → Decoded) (timer : Timer (Rule RequestInput)) (now : Nat)

def describe (session : Session) (location : String) (s : WafState) : WafState :=
  { s with
    domain := (getHost session).getD location
    clientIp := some session.clientIp
    method := session.method
    uri := session.path }

def recordIntel (found : FeedMatch) (s : WafState) : WafState :=
  { s with intelFeed := found.feed, intelCategory := found.category, blocked := true }

/-- The effect of the evaluation of headers and query on the state. -/
def absorbHeaders (evaluation : Evaluation RequestVerdict) (s : WafState) : WafState :=
  let s := s.absorb evaluation.verdict.hits evaluation.verdict.score evaluation.enforcingScore
  let s := { s with budgetExhausted := s.budgetExhausted || evaluation.exhausted.isSome }
  if evaluation.verdict.isChallenge then { s with challenged := true }
  else { s with blocked := s.blocked || evaluation.verdict.isEnforcing }

def handleRequest (waf : Waf) (step : PluginStep) (session : Session) (w : World) :
    RequestPluginResult × World :=
  if step ≠ .request then (.skipped, w)
  else
    let w := waf.updateState (describe session w.ctx.location) w
    if waf.ipFilter.any fun rejects => rejects session.clientIp then
      (.respond forbidden, publish now (waf.updateState (fun s => { s with blocked := true }) w))
    else
      match waf.intel.bind fun feeds => (IpText.parse session.clientIp).bind feeds with
      | some found => (.respond forbidden, publish now (waf.updateState (recordIntel found) w))
      | none =>
        let evaluation := waf.engine.evaluateRequest urlDecode timer (headerInput session)
        let w := waf.updateState (absorbHeaders evaluation) w
        if evaluation.verdict.isEnforcing then
          if evaluation.verdict.isChallenge then
            (.proceed, publish now { w with ctx := { w.ctx with
              challengeMarker := some { source := "waf", reason := "anomaly-threshold" } } })
          else (.respond forbidden, publish now w)
        else (.proceed, publish now w)

/-- The effect of the evaluation of a body on the state. -/
def absorbBody (evaluation : Evaluation RequestVerdict) (s : WafState) : WafState :=
  let s := s.absorb evaluation.verdict.hits evaluation.verdict.score evaluation.enforcingScore
  { s with
    truncated := s.truncated || evaluation.truncated
    budgetExhausted := s.budgetExhausted || evaluation.exhausted.isSome
    blocked := s.blocked || evaluation.verdict.isEnforcing }

/-- Judge a body that is to be released. -/
def judgeBody (waf : Waf) (w : World) (buffer : BodyBuffer) (endOfStream : Bool) : BodyStep :=
  let input := bodyInput buffer.inspected buffer.truncated
  let evaluation := waf.engine.evaluateRequest urlDecode timer input
  let (release, buffer) := buffer.take
  let w := waf.updateState (absorbBody evaluation)
    { w with ctx := { w.ctx with requestBody := some buffer } }
  if evaluation.verdict.isEnforcing then
    ⟨publish now w, none, some bodyError, some ⟨input, evaluation⟩⟩
  else ⟨if endOfStream then publish now w else w, some release, none, some ⟨input, evaluation⟩⟩

def handleRequestBody (waf : Waf) (w : World) (body : Option Bytes) (endOfStream : Bool) :
    BodyStep :=
  if waf.bodyLimit = 0 then ⟨w, body, none, none⟩
  else
    let buffer := w.ctx.requestBody.getD (BodyBuffer.new waf.bodyLimit waf.overCap)
    let (feed, buffer) := buffer.feed body endOfStream
    let w := { w with ctx := { w.ctx with requestBody := some buffer } }
    match feed with
    | .passThrough => ⟨w, body, none, none⟩
    | .hold => ⟨w, none, none, none⟩
    | .reject => ⟨publish now (waf.updateState (fun s => { s with blocked := true }) w), none,
        some (overCapError waf.bodyLimit), none⟩
    | .release => judgeBody urlDecode timer now waf w buffer endOfStream

end handlers

/-! ## The response -/

section responses

variable (timer : Timer (Rule ResponseInput)) (now : Nat)

/-- The effect of the evaluation of a response on the state. -/
def absorbResponse (evaluation : Evaluation ResponseVerdict) (masked : Bool) (s : WafState) :
    WafState :=
  let s := s.absorb evaluation.verdict.hits evaluation.verdict.score evaluation.enforcingScore
  { s with
    truncated := s.truncated || evaluation.truncated
    budgetExhausted := s.budgetExhausted || evaluation.exhausted.isSome
    redacted := s.redacted || masked }

/-- The span of a response body a hit was found in. -/
def maskHit (body : Bytes) (hit : Hit) : Bool × Bytes :=
  match hit.matchedField with
  | .responseBody offset len => mask body offset len
  | _ => (false, body)

/-- Mask what the hits of a verdict to redact found. -/
def maskHits (hits : List Hit) (body : Bytes) : Bool × Bytes :=
  hits.foldl (fun (masked, body) hit =>
    let (more, body) := maskHit body hit
    (masked || more, body)) (false, body)

/-- Judge the start of a response that is to be released. -/
def judgeResponse (waf : Waf) (w : World) (buffer : BodyBuffer) : World × Bytes × Bool :=
  let evaluation := waf.engine.evaluateResponse timer {
    status := w.ctx.status.getD 0
    bodyChunk := some buffer.inspected
    bodyTruncated := buffer.truncated }
  let (masked, release) :=
    if evaluation.verdict.isEnforcing then maskHits evaluation.verdict.hits buffer.take.1
    else (false, buffer.take.1)
  (waf.updateState (absorbResponse evaluation masked) w, release, masked)

/-- `scan_response`, on the buffer of one of the two hooks: the context, the body, and whether it
was partly replaced. -/
def scanResponse (waf : Waf) (buffer : Ctx → Option BodyBuffer) (keep : BodyBuffer → Ctx → Ctx)
    (w : World) (body : Option Bytes) (endOfStream : Bool) : World × Option Bytes × Bool :=
  if waf.engine.config.responsePrefixLimit = 0 ∨ waf.engine.responseRules.length = 0 then
    (w, body, false)
  else
    let held := (buffer w.ctx).getD
      (BodyBuffer.new waf.engine.config.responsePrefixLimit .inspectPrefix)
    let (feed, held) := held.feed body endOfStream
    match feed with
    | .passThrough => ({ w with ctx := keep held w.ctx }, body, false)
    | .hold => ({ w with ctx := keep held w.ctx }, none, false)
    | .reject | .release =>
      let (w, release, masked) := judgeResponse timer waf
        { w with ctx := keep held.take.2 w.ctx } held
      (w, some release, masked)

/-- Both hooks publish once, with the end of the stream. -/
def handleResponseHook (waf : Waf) (buffer : Ctx → Option BodyBuffer)
    (keep : BodyBuffer → Ctx → Ctx) (w : World) (body : Option Bytes) (endOfStream : Bool) :
    World × Option Bytes × Bool :=
  let (w, body, replaced) := scanResponse timer waf buffer keep w body endOfStream
  (if endOfStream then publish now w else w, body, replaced)

def handleUpstreamResponseBody (waf : Waf) :
    World → Option Bytes → Bool → World × Option Bytes × Bool :=
  handleResponseHook timer now waf Ctx.upstreamBody fun held ctx => { ctx with upstreamBody := held }

def handleResponseBody (waf : Waf) : World → Option Bytes → Bool → World × Option Bytes × Bool :=
  handleResponseHook timer now waf Ctx.downstreamBody fun held ctx =>
    { ctx with downstreamBody := held }

end responses

end Waf

/-! ## The body through the entries of a location -/

/-- A chunk, and whether the stream ends with it. -/
abbrev Chunk := Option Bytes × Bool

/-- A body in chunks, with the end of the stream on the last. -/
def stream : List (Option Bytes) → List Chunk
  | [] => []
  | [chunk] => [(chunk, true)]
  | chunk :: next :: rest => (chunk, false) :: stream (next :: rest)

/-- An entry with the time its evaluation takes. -/
abbrev Entry := Waf × Timer (Rule RequestInput)

/-- What one entry answered for one chunk. -/
structure Outcome where
  refused : Option HttpError
  judged : Option Judgement

structure Dispatch where
  world : World
  body : Option Bytes
  outcomes : List Outcome

def Dispatch.refused (d : Dispatch) : Option HttpError := d.outcomes.findSome? Outcome.refused

section dispatch

variable (urlDecode : String → Decoded) (now : Nat)

/-- `handle_request_body_plugin`: the entries in order, until one refuses. No other
plugin looks at a body. -/
def handleRequestBodyPlugin : List Entry → World → Option Bytes → Bool → Dispatch
  | [], w, body, _ => ⟨w, body, []⟩
  | (waf, timer) :: rest, w, body, endOfStream =>
    let s := waf.handleRequestBody urlDecode timer now w body endOfStream
    match s.refused with
    | some _ => ⟨s.world, s.body, [⟨s.refused, s.judged⟩]⟩
    | none =>
      let d := handleRequestBodyPlugin rest s.world s.body endOfStream
      { d with outcomes := ⟨none, s.judged⟩ :: d.outcomes }

/-- What became of a body: what went upstream, what the entries answered chunk by
chunk, and the error that ended it. -/
structure BodyRun where
  world : World
  forwarded : Bytes
  outcomes : List (List Outcome)
  refused : Option HttpError

/-- The chunks one after the other, until one is refused. -/
def runBody (plugins : List Entry) : World → List Chunk → BodyRun
  | w, [] => ⟨w, [], [], none⟩
  | w, (chunk, endOfStream) :: rest =>
    let d := handleRequestBodyPlugin urlDecode now plugins w chunk endOfStream
    match d.refused with
    | some err => ⟨d.world, d.body.getD [], [d.outcomes], some err⟩
    | none =>
      let r := runBody plugins d.world rest
      ⟨r.world, d.body.getD [] ++ r.forwarded, d.outcomes :: r.outcomes, r.refused⟩

end dispatch

/-- What one entry, by its place, answered over the whole body. -/
def BodyRun.column (r : BodyRun) (place : Nat) : List Outcome :=
  r.outcomes.filterMap fun outcomes => outcomes[place]?

def BodyRun.judgements (r : BodyRun) (place : Nat) : List Judgement :=
  (r.column place).filterMap Outcome.judged

/-- The decision of one entry on the body. -/
structure Decision where
  refused : Option HttpError
  hits : List Hit
  truncated : Bool
deriving DecidableEq, Repr

def BodyRun.decision (r : BodyRun) (place : Nat) : Decision where
  refused := (r.column place).findSome? Outcome.refused
  hits := (r.judgements place).flatMap fun j => j.evaluation.verdict.hits
  truncated := (r.judgements place).any fun j => j.evaluation.truncated

end WafPlugin
