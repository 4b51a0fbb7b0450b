import Mathlib.Algebra.Ring.Int.Defs
import Pingap.OrderedMap
import Pingap.Text

/-!
# Intent and the configuration generated from it

What the control plane stores (`Intent`), the configuration of the gateway as far
as it is generated (`PingapConfig`), and `generate`, which resolves every reference
and refuses what the gateway would drop without a word. Fields that the generator
leaves at their defaults are not part of the model.
-/

namespace ConfigIntent

open AList

/-! ## Configuration values -/

/-- A TOML value. A float is its bits, a datetime its text. -/
inductive TomlValue where
  | string (text : String)
  | integer (n : Int)
  | float (bits : UInt64)
  | boolean (b : Bool)
  | datetime (text : String)
  | array (items : List TomlValue)
  | table (entries : List (String × TomlValue))

/-- A TOML table, with its keys in the order they were put in. -/
abbrev Table := List (String × TomlValue)

abbrev PluginConf := Table

namespace TomlValue

def asStr : TomlValue → Option String
  | .string text => some text
  | _ => none

def asBool : TomlValue → Option Bool
  | .boolean b => some b
  | _ => none

def asInteger : TomlValue → Option Int
  | .integer n => some n
  | _ => none

def asTable : TomlValue → Option Table
  | .table entries => some entries
  | _ => none

def asArray : TomlValue → Option (List TomlValue)
  | .array items => some items
  | _ => none

def get (v : TomlValue) (key : String) : Option TomlValue := v.asTable.bind (List.lookup key)

mutual

def same : TomlValue → TomlValue → Bool
  | .string a, .string b => a == b
  | .integer a, .integer b => a == b
  | .float a, .float b => a == b
  | .boolean a, .boolean b => a == b
  | .datetime a, .datetime b => a == b
  | .array a, .array b => sameItems a b
  | .table a, .table b => sameEntries a b
  | _, _ => false

def sameItems : List TomlValue → List TomlValue → Bool
  | [], [] => true
  | a :: as, b :: bs => same a b && sameItems as bs
  | _, _ => false

def sameEntries : List (String × TomlValue) → List (String × TomlValue) → Bool
  | [], [] => true
  | (k, a) :: as, (l, b) :: bs => k == l && same a b && sameEntries as bs
  | _, _ => false

end

mutual

theorem same_iff : ∀ a b : TomlValue, same a b = true ↔ a = b
  | .string a, b => by cases b <;> simp [same]
  | .integer a, b => by cases b <;> simp [same]
  | .float a, b => by cases b <;> simp [same]
  | .boolean a, b => by cases b <;> simp [same]
  | .datetime a, b => by cases b <;> simp [same]
  | .array a, b => by cases b <;> simp [same, sameItems_iff a]
  | .table a, b => by cases b <;> simp [same, sameEntries_iff a]

theorem sameItems_iff : ∀ a b : List TomlValue, sameItems a b = true ↔ a = b
  | [], b => by cases b <;> simp [sameItems]
  | a :: as, b => by
    cases b with
    | nil => simp [sameItems]
    | cons b bs => simp [sameItems, same_iff a, sameItems_iff as]

theorem sameEntries_iff : ∀ a b : List (String × TomlValue), sameEntries a b = true ↔ a = b
  | [], b => by cases b <;> simp [sameEntries]
  | (k, a) :: as, b => by
    cases b with
    | nil => simp [sameEntries]
    | cons b bs =>
      obtain ⟨l, b⟩ := b
      simp [sameEntries, same_iff a, sameEntries_iff as, and_assoc]

end

instance : DecidableEq TomlValue := fun a b => decidable_of_iff _ (same_iff a b)

end TomlValue

/-- Put a value into a table, in the place of the one with its key. -/
def insertKey (t : Table) (key : String) (value : TomlValue) : Table :=
  if (t.lookup key).isSome then t.map fun e => if e.1 == key then (key, value) else e
  else t ++ [(key, value)]

/-! ## Intent -/

structure Backend where
  addr : String
  weight : Option Nat
deriving DecidableEq

structure Upstream where
  backends : List Backend
  lbAlgorithm : Option String
  healthCheck : Option String
  discovery : Option String
  tlsSni : Option String
  verifyCert : Option Bool
deriving DecidableEq

structure TlsSettings where
  minVersion : Option String
  maxVersion : Option String
  cipherList : Option String
  ciphersuites : Option String
deriving DecidableEq, Inhabited

structure Listener where
  addr : String
  http2 : Option Bool
  tls : Option TlsSettings
  accessLog : Option String
  serverTiming : Option Bool
deriving DecidableEq

inductive PolicyBinding where
  | waf (profile : String)
  | acl (profile : String)
  | bot (profile : String)
  | challenge (profile : String)
  | behaviour (profile : String)
  | adaptive (profile : String)
  | limit (profile : String)
deriving DecidableEq

namespace PolicyBinding

def category : PolicyBinding → String
  | .waf _ => "waf"
  | .acl _ => "acl"
  | .bot _ => "bot"
  | .challenge _ => "challenge"
  | .behaviour _ => "behaviour"
  | .adaptive _ => "adaptive"
  | .limit _ => "limit"

def profile : PolicyBinding → String
  | .waf p | .acl p | .bot p | .challenge p | .behaviour p | .adaptive p | .limit p => p

def entryName (b : PolicyBinding) : String := b.category ++ ":" ++ b.profile

end PolicyBinding

structure Domain where
  hostnames : List String
  path : Option String
  listener : String
  upstream : String
  priority : Option Nat
  notes : Option String
  clientMaxBodySize : Option String
  grpcWeb : Bool
  reverseProxyHeaders : Option Bool
  maxProcessing : Option Int
  maxRetries : Option Nat
  policies : List PolicyBinding
deriving DecidableEq

structure Certificate where
  domains : List String
  tlsCert : Option String
  tlsKey : Option String
  isDefault : Option Bool
  isCa : Option Bool
  acme : Option String
  dnsChallenge : Option Bool
  dnsProvider : Option String
  dnsServiceUrl : Option String
  bufferDays : Option Nat
  remark : Option String
deriving DecidableEq

/-- Everything the control plane knows, in one value. -/
structure Intent where
  upstreams : KeyedMap String Upstream
  listeners : KeyedMap String Listener
  domains : KeyedMap String Domain
  policies : KeyedMap String PluginConf
  certificates : KeyedMap String Certificate
  trustedProxies : Option (List String)
deriving DecidableEq

def Intent.empty : Intent := ⟨∅, ∅, ∅, ∅, ∅, none⟩

/-! ## The generated configuration -/

structure UpstreamConf where
  addrs : List String
  algo : Option String
  healthCheck : Option String
  discovery : Option String
  sni : Option String
  verifyCert : Option Bool
deriving DecidableEq

structure LocationConf where
  upstream : Option String
  path : Option String
  host : Option String
  weight : Option Nat
  plugins : Option (List String)
  clientMaxBodySize : Option Nat
  maxProcessing : Option Int
  grpcWeb : Option Bool
  enableReverseProxyHeaders : Option Bool
  maxRetries : Option Nat
  remark : Option String
deriving DecidableEq

structure ServerConf where
  addr : String
  accessLog : Option String
  locations : Option (List String)
  tlsCipherList : Option String
  tlsCiphersuites : Option String
  tlsMinVersion : Option String
  tlsMaxVersion : Option String
  globalCertificates : Option Bool
  enabledH2 : Option Bool
  modules : Option (List String)
  enableServerTiming : Option Bool
deriving DecidableEq

structure CertificateConf where
  domains : Option String
  tlsCert : Option String
  tlsKey : Option String
  isDefault : Option Bool
  isCa : Option Bool
  acme : Option String
  dnsChallenge : Option Bool
  dnsProvider : Option String
  dnsServiceUrl : Option String
  bufferDays : Option Nat
  remark : Option String
deriving DecidableEq

structure PingapConfig where
  trustedProxies : Option (List String)
  upstreams : KeyedMap String UpstreamConf
  locations : KeyedMap String LocationConf
  servers : KeyedMap String ServerConf
  plugins : KeyedMap String PluginConf
  certificates : KeyedMap String CertificateConf
deriving DecidableEq

/-- A generated configuration, with the canonical text of it. -/
structure Projected where
  config : PingapConfig
  toml : String
deriving DecidableEq

inductive ProjectionError where
  | dangling (kind name domain : String)
  | badValue (field value reason : String)
  | serialise (reason : String)
deriving DecidableEq, Repr

/-- What the generator takes from elsewhere: sizes with their units as text, and
the canonical text of a configuration. -/
structure Formats where
  parseSize : String → Except String Nat
  displaySize : Nat → String
  printToml : Table → Except String String
  parseToml : String → Option Table

/-! ## Generation -/

def upstreamConf (u : Upstream) : UpstreamConf where
  addrs := u.backends.map fun b =>
    match b.weight with
    | some w => b.addr ++ " " ++ toString w
    | none => b.addr
  algo := u.lbAlgorithm
  healthCheck := u.healthCheck
  discovery := u.discovery
  sni := u.tlsSni
  verifyCert := u.verifyCert

/-- The first waf or acl entry that follows a challenge entry. -/
def challengeBeforeWriter : List PolicyBinding → Option (PolicyBinding × PolicyBinding)
  | [] => none
  | b :: rest =>
    let writer := rest.find? fun w => match w with
      | .waf _ | .acl _ => true
      | _ => false
    match b, writer with
    | .challenge _, some w => some (b, w)
    | _, _ => challengeBeforeWriter rest

def parseBodySize (f : Formats) (name : String) : Option String → Except ProjectionError (Option Nat)
  | none => .ok none
  | some text =>
    match f.parseSize text with
    | .ok n => .ok (some n)
    | .error reason =>
      .error (.badValue ("domain `" ++ name ++ "`.client_max_body_size") text reason)

def locationConf (f : Formats) (name : String) (d : Domain) : Except ProjectionError LocationConf :=
  match challengeBeforeWriter d.policies with
  | some (b, writer) =>
    .error (.badValue ("domain `" ++ name ++ "`.policies") b.entryName
      ("precedes `" ++ writer.entryName ++ "`: plugins run in list order and a challenge entry " ++
        "reads the marker the waf/acl entry writes, so this order never challenges"))
  | none => do
    let size ← parseBodySize f name d.clientMaxBodySize
    return {
      upstream := some d.upstream
      path := d.path
      host := if d.hostnames.isEmpty then none else some (",".intercalate d.hostnames)
      weight := d.priority
      plugins := if d.policies.isEmpty then none else some (d.policies.map PolicyBinding.entryName)
      clientMaxBodySize := size
      maxProcessing := d.maxProcessing
      grpcWeb := if d.grpcWeb then some true else none
      enableReverseProxyHeaders := d.reverseProxyHeaders
      maxRetries := d.maxRetries
      remark := d.notes }

/-- One domain: every reference of it is resolved, then its location is made. -/
def projectDomain (f : Formats) (intent : Intent) (row : String × Domain) :
    Except ProjectionError (String × LocationConf) := do
  let (name, d) := row
  if (intent.upstreams.lookup d.upstream).isNone then
    throw (.dangling "upstream" d.upstream name)
  if (intent.listeners.lookup d.listener).isNone then
    throw (.dangling "listener" d.listener name)
  match d.policies.find? fun b => (intent.policies.lookup b.entryName).isNone with
  | some b => throw (.dangling "policy" b.entryName name)
  | none =>
    let location ← locationConf f name d
    return (name, location)

def onListener (intent : Intent) (listener : String) : List String :=
  (AList.inOrder intent.domains).filterMap fun row =>
    if row.2.listener = listener then some row.1 else none

def wantsGrpcWeb (intent : Intent) (listener : String) : Bool :=
  (AList.inOrder intent.domains).any fun row => row.2.listener = listener && row.2.grpcWeb

def serverConf (l : Listener) (locations : List String) (grpcWeb : Bool) : ServerConf :=
  let locations := locations.insertionSort (· ≤ ·)
  let tls := l.tls.getD ⟨none, none, none, none⟩
  { addr := l.addr
    accessLog := l.accessLog
    locations := if locations.isEmpty then none else some locations
    tlsCipherList := tls.cipherList
    tlsCiphersuites := tls.ciphersuites
    tlsMinVersion := tls.minVersion
    tlsMaxVersion := tls.maxVersion
    globalCertificates := if l.tls.isSome then some true else none
    enabledH2 := l.http2
    modules := if grpcWeb then some ["grpc-web"] else none
    enableServerTiming := l.serverTiming }

def projectListener (intent : Intent) (row : String × Listener) :
    Except ProjectionError (String × ServerConf) := do
  let (name, l) := row
  if l.tls.isSome && AList.size intent.certificates == 0 then
    throw (.badValue ("listener `" ++ name ++ "`.tls") "tls settings"
      "no certificate is defined, so there is nothing to terminate TLS with")
  return (name, serverConf l (onListener intent name) (wantsGrpcWeb intent name))

def present (value : Option String) : Bool := value.any fun v => !v.isEmpty

def certificateConf (name : String) (c : Certificate) : Except ProjectionError CertificateConf := do
  if present c.tlsCert != present c.tlsKey then
    throw (.badValue ("certificate `" ++ name ++ "`")
      (if present c.tlsCert then "tls_cert with no tls_key" else "tls_key with no tls_cert")
      "a manual certificate needs both PEM halves, and an ACME one needs neither")
  if !present c.tlsCert && !present c.acme then
    throw (.badValue ("certificate `" ++ name ++ "`") "no PEM pair and no ACME issuer"
      "there is nothing to serve and nothing that will obtain one")
  return {
    domains := if c.domains.isEmpty then none else some (",".intercalate c.domains)
    tlsCert := c.tlsCert
    tlsKey := c.tlsKey
    isDefault := c.isDefault
    isCa := c.isCa
    acme := c.acme
    dnsChallenge := c.dnsChallenge
    dnsProvider := c.dnsProvider
    dnsServiceUrl := c.dnsServiceUrl
    bufferDays := c.bufferDays
    remark := c.remark }

def projectCertificate (row : String × Certificate) :
    Except ProjectionError (String × CertificateConf) := do
  let conf ← certificateConf row.1 row.2
  return (row.1, conf)

/-- What stands before the first colon of a policy's name, if there is one. -/
def policyCategory (name : String) : String :=
  ((Text.splitOnce ':' name.toList).map fun parts => String.ofList parts.1).getD ""

/-- The policy counts clients for the native abuse protection. -/
def abuseEnabled (plugin : PluginConf) : Bool :=
  ((plugin.lookup "abuse").bind fun v => (v.get "enabled").bind TomlValue.asBool) == some true

/-- Some domain binds the policy as a limit. -/
def boundAsLimit (intent : Intent) (name : String) : Bool :=
  (AList.inOrder intent.domains).any fun row => row.2.policies.any fun b =>
    match b with
    | .limit _ => b.entryName == name
    | _ => false

def projectPolicy (intent : Intent) (row : String × PluginConf) :
    Except ProjectionError (String × PluginConf) := do
  let (name, plugin) := row
  if (plugin.lookup "abuse_namespace").isSome || (plugin.lookup "enforcement_required").isSome then
    throw (.badValue ("policy `" ++ name ++ "`") "reserved generated metadata"
      "abuse_namespace and enforcement_required are generated, not user overrides")
  let category := policyCategory name
  if (plugin.lookup "category").bind TomlValue.asStr != some category then
    throw (.badValue ("policy `" ++ name ++ "`.category") category "category must match policy entry")
  let plugin := if category == "behaviour" && abuseEnabled plugin then
    insertKey plugin "abuse_namespace" (.string name) else plugin
  let plugin := if category == "limit" && boundAsLimit intent name then
    insertKey plugin "enforcement_required" (.boolean true) else plugin
  return (name, plugin)

/-! ## Canonical text -/

def strings (l : List String) : TomlValue := .array (l.map .string)

/-- A field of a table. An absent one is left out. -/
def field {α : Type} (key : String) (toValue : α → TomlValue) : Option α → Table
  | some a => [(key, toValue a)]
  | none => []

def LocationConf.toTable (f : Formats) (l : LocationConf) : Table :=
  field "upstream" .string l.upstream ++ field "path" .string l.path ++
    field "host" .string l.host ++ field "weight" (fun n : Nat => .integer n) l.weight ++
    field "plugins" strings l.plugins ++
    field "client_max_body_size" (fun n => .string (f.displaySize n)) l.clientMaxBodySize ++
    field "max_processing" .integer l.maxProcessing ++ field "grpc_web" .boolean l.grpcWeb ++
    field "enable_reverse_proxy_headers" .boolean l.enableReverseProxyHeaders ++
    field "max_retries" (fun n : Nat => .integer n) l.maxRetries ++ field "remark" .string l.remark

def ServerConf.toTable (s : ServerConf) : Table :=
  [("addr", .string s.addr)] ++ field "access_log" .string s.accessLog ++
    field "locations" strings s.locations ++ field "tls_cipher_list" .string s.tlsCipherList ++
    field "tls_ciphersuites" .string s.tlsCiphersuites ++
    field "tls_min_version" .string s.tlsMinVersion ++
    field "tls_max_version" .string s.tlsMaxVersion ++
    field "global_certificates" .boolean s.globalCertificates ++
    field "enabled_h2" .boolean s.enabledH2 ++ field "modules" strings s.modules ++
    field "enable_server_timing" .boolean s.enableServerTiming

def UpstreamConf.toTable (u : UpstreamConf) : Table :=
  [("addrs", strings u.addrs)] ++ field "algo" .string u.algo ++
    field "health_check" .string u.healthCheck ++ field "discovery" .string u.discovery ++
    field "sni" .string u.sni ++ field "verify_cert" .boolean u.verifyCert

def CertificateConf.toTable (c : CertificateConf) : Table :=
  field "domains" .string c.domains ++ field "tls_cert" .string c.tlsCert ++
    field "tls_key" .string c.tlsKey ++ field "is_default" .boolean c.isDefault ++
    field "is_ca" .boolean c.isCa ++ field "acme" .string c.acme ++
    field "dns_challenge" .boolean c.dnsChallenge ++ field "dns_provider" .string c.dnsProvider ++
    field "dns_service_url" .string c.dnsServiceUrl ++
    field "buffer_days" (fun n : Nat => .integer n) c.bufferDays ++ field "remark" .string c.remark

/-- The entries of one category, in the order of their names. -/
def sortedTable {α : Type} (toTable : α → Table) (items : KeyedMap String α) : Table :=
  (AList.inOrder items).map fun row => (row.1, .table (toTable row.2))

def document (f : Formats) (c : PingapConfig) : Table :=
  ("basic", .table (field "trusted_proxies" strings c.trustedProxies)) ::
    ([("upstreams", sortedTable UpstreamConf.toTable c.upstreams),
      ("locations", sortedTable (LocationConf.toTable f) c.locations),
      ("servers", sortedTable ServerConf.toTable c.servers),
      ("plugins", sortedTable id c.plugins),
      ("certificates", sortedTable CertificateConf.toTable c.certificates)].filter
        (fun section_ => !section_.2.isEmpty)).map fun section_ => (section_.1, .table section_.2)

def canonicalToml (f : Formats) (c : PingapConfig) : Except ProjectionError String :=
  match f.printToml (document f c) with
  | .ok text => .ok text
  | .error reason => .error (.serialise reason)

def generate (f : Formats) (intent : Intent) : Except ProjectionError Projected := do
  let locations ← (AList.inOrder intent.domains).mapM (projectDomain f intent)
  let servers ← (AList.inOrder intent.listeners).mapM (projectListener intent)
  let certificates ← (AList.inOrder intent.certificates).mapM projectCertificate
  let plugins ← (AList.inOrder intent.policies).mapM (projectPolicy intent)
  let config : PingapConfig := {
    trustedProxies := intent.trustedProxies
    upstreams := AList.ofRows ((AList.inOrder intent.upstreams).map fun row =>
      (row.1, upstreamConf row.2))
    locations := AList.ofRows locations
    servers := AList.ofRows servers
    plugins := AList.ofRows plugins
    certificates := AList.ofRows certificates }
  let toml ← canonicalToml f config
  return ⟨config, toml⟩

/-! ## What is generated -/

section generated

variable {f : Formats} {intent : Intent}

/-- A domain that is projected has its references resolved, and its location is the one its own
record gives. -/
theorem projectDomain_ok (h : projectDomain f intent (name, d) = .ok out) :
    (intent.upstreams.lookup d.upstream).isSome ∧ (intent.listeners.lookup d.listener).isSome ∧
      (∀ b ∈ d.policies, (intent.policies.lookup b.entryName).isSome) ∧ out.1 = name ∧
      locationConf f name d = .ok out.2 := by
  simp only [projectDomain, bind, Except.bind, pure, Except.pure, throw, throwThe,
    MonadExceptOf.throw] at h
  split at h
  · cases h
  rename_i hupstream
  split at h
  · cases h
  rename_i hlistener
  split at h
  · cases h
  rename_i hpolicies
  split at h
  · cases h
  rename_i hmade
  cases h
  simp only [Option.isNone_iff_eq_none, List.find?_eq_none] at hupstream hlistener hpolicies
  exact ⟨Option.isSome_iff_ne_none.mpr hupstream, Option.isSome_iff_ne_none.mpr hlistener,
    fun b hb => Option.isSome_iff_ne_none.mpr (hpolicies b hb), rfl, hmade⟩

theorem projectDomain_key (h : projectDomain f intent row = .ok out) : out.1 = row.1 :=
  (projectDomain_ok h).2.2.2.1

theorem projectDomain_location (h : projectDomain f intent (name, d) = .ok (name, l)) :
    locationConf f name d = .ok l := (projectDomain_ok h).2.2.2.2

/-- What the fields of a location that has been made are. -/
theorem locationConf_made (h : locationConf f name d = .ok l) :
    challengeBeforeWriter d.policies = none ∧
      parseBodySize f name d.clientMaxBodySize = .ok l.clientMaxBodySize ∧
      l.upstream = some d.upstream ∧ l.weight = d.priority ∧ l.maxProcessing = d.maxProcessing ∧
      l.maxRetries = d.maxRetries ∧
      (l.plugins = if d.policies.isEmpty then none
        else some (d.policies.map PolicyBinding.entryName)) ∧
      l.host = if d.hostnames.isEmpty then none else some (",".intercalate d.hostnames) := by
  simp only [locationConf, bind, Except.bind, pure, Except.pure] at h
  split at h
  · cases h
  rename_i horder
  split at h
  · cases h
  rename_i size hsize
  cases h
  exact ⟨horder, hsize, rfl, rfl, rfl, rfl, rfl, rfl⟩

theorem projectListener_ok (h : projectListener intent row = .ok out) :
    out = (row.1, serverConf row.2 (onListener intent row.1) (wantsGrpcWeb intent row.1)) := by
  obtain ⟨name, l⟩ := row
  simp only [projectListener, bind, Except.bind, pure, Except.pure, throw, throwThe,
    MonadExceptOf.throw] at h
  split at h
  · cases h
  · cases h
    rfl

theorem projectListener_key (h : projectListener intent row = .ok out) : out.1 = row.1 :=
  congrArg Prod.fst (projectListener_ok h)

theorem projectPolicy_key (h : projectPolicy intent row = .ok out) : out.1 = row.1 := by
  obtain ⟨name, plugin⟩ := row
  simp only [projectPolicy, bind, Except.bind, pure, Except.pure, throw, throwThe,
    MonadExceptOf.throw] at h
  split at h
  · cases h
  split at h
  · cases h
  · cases h
    rfl

theorem projectCertificate_ok :
    projectCertificate row = .ok out ↔ out.1 = row.1 ∧ certificateConf row.1 row.2 = .ok out.2 := by
  obtain ⟨name, conf⟩ := out
  simp only [projectCertificate, bind, Except.bind, pure, Except.pure]
  cases certificateConf row.1 row.2 with
  | error e => simp
  | ok made => simp [eq_comm]

/-- The parts of a generated configuration, entry by entry. -/
structure Generated (f : Formats) (intent : Intent) (p : Projected) : Prop where
  proxies : p.config.trustedProxies = intent.trustedProxies
  certificates : ∀ name conf, p.config.certificates.lookup name = some conf ↔
    ∃ c, intent.certificates.lookup name = some c ∧ certificateConf name c = .ok conf
  locations : ∀ name l, p.config.locations.lookup name = some l ↔
    ∃ d, intent.domains.lookup name = some d ∧ projectDomain f intent (name, d) = .ok (name, l)
  domains : ∀ name d, intent.domains.lookup name = some d →
    ∃ l, projectDomain f intent (name, d) = .ok (name, l)
  servers : ∀ name server, p.config.servers.lookup name = some server ↔
    ∃ l, intent.listeners.lookup name = some l ∧ projectListener intent (name, l) = .ok (name, server)
  plugins : ∀ name conf, p.config.plugins.lookup name = some conf ↔
    ∃ plugin, intent.policies.lookup name = some plugin ∧
      projectPolicy intent (name, plugin) = .ok (name, conf)
  toml : canonicalToml f p.config = .ok p.toml

/-- A generation that succeeds: every step of it does, and this is what it puts together. -/
theorem generate_ok (h : generate f intent = .ok p) : ∃ locations servers certificates plugins,
    (inOrder intent.domains).mapM (projectDomain f intent) = .ok locations ∧
      (inOrder intent.listeners).mapM (projectListener intent) = .ok servers ∧
      (inOrder intent.certificates).mapM projectCertificate = .ok certificates ∧
      (inOrder intent.policies).mapM (projectPolicy intent) = .ok plugins ∧
      canonicalToml f p.config = .ok p.toml ∧
      p.config = ⟨intent.trustedProxies,
        ofRows ((inOrder intent.upstreams).map fun row => (row.1, upstreamConf row.2)),
        ofRows locations, ofRows servers, ofRows plugins, ofRows certificates⟩ := by
  simp only [generate, bind, Except.bind, pure, Except.pure] at h
  split at h
  · cases h
  rename_i locations hlocations
  split at h
  · cases h
  rename_i servers hservers
  split at h
  · cases h
  rename_i certificates hcertificates
  split at h
  · cases h
  rename_i plugins hplugins
  split at h
  · cases h
  rename_i toml htoml
  cases h
  exact ⟨locations, servers, certificates, plugins, hlocations, hservers, hcertificates, hplugins,
    htoml, rfl⟩

theorem generated_of_generate (h : generate f intent = .ok p) : Generated f intent p := by
  obtain ⟨locations, servers, certificates, plugins, hlocations, hservers, hcertificates, hplugins,
    htoml, hconfig⟩ := generate_ok h
  obtain ⟨config, toml⟩ := p
  subst hconfig
  exact {
    proxies := rfl
    certificates := fun name conf => by
      have hkey : ∀ row out, projectCertificate row = .ok out → out.1 = row.1 := fun _ _ hrow =>
        (projectCertificate_ok.mp hrow).1
      simp only [lookup_mapM hkey hcertificates, projectCertificate_ok, true_and]
    locations := fun name l => lookup_mapM (fun _ _ => projectDomain_key) hlocations
    domains := fun name d hd => by
      obtain ⟨⟨name', l⟩, hl⟩ := (mapM_ok_iff _).mp ⟨locations, hlocations⟩ (name, d)
        (mem_inOrder.mpr hd)
      obtain rfl : name' = name := projectDomain_key hl
      exact ⟨l, hl⟩
    servers := fun name server => lookup_mapM (fun _ _ => projectListener_key) hservers
    plugins := fun name conf => lookup_mapM (fun _ _ => projectPolicy_key) hplugins
    toml := htoml }

theorem lookup_upstreams (h : generate f intent = .ok p) (name : String) :
    p.config.upstreams.lookup name = (intent.upstreams.lookup name).map upstreamConf := by
  obtain ⟨_, _, _, _, _, _, _, _, _, hconfig⟩ := generate_ok h
  rw [hconfig]
  have hnodup : (((inOrder intent.upstreams).map fun row => (row.1, upstreamConf row.2)).map
      Prod.fst).Nodup := by
    rw [List.map_map]
    exact nodup_keys_inOrder intent.upstreams
  refine Option.ext fun conf => ?_
  rw [lookup_ofRows hnodup, List.mem_map, Option.map_eq_some_iff]
  constructor
  · rintro ⟨⟨name', u⟩, hrow, hpair⟩
    obtain ⟨rfl, rfl⟩ := Prod.mk.inj hpair
    exact ⟨u, mem_inOrder.mp hrow, rfl⟩
  · rintro ⟨u, hu, rfl⟩
    exact ⟨(name, u), mem_inOrder.mpr hu, rfl⟩

end generated

end ConfigIntent
