import Pingap.ConfigIntent

/-!
# Reading the data plane back

What a version expects to find running, and how the running gateway is compared
with it: the key of every plugin, the key of every location, and the order of the
locations of every server.
-/

namespace ConfigReadBack

open ConfigIntent

/-! ## Keys -/

/-- The hashes and texts that keys and messages are made of. -/
structure Hashes where
  crc32 : String → Nat
  displayValue : TomlValue → String
  locationHash : LocationConf → Nat
  debugList : List String → String

/-- The lower case hexadecimal digits of a number. -/
def hex (n : Nat) : String := String.ofList (Nat.toDigits 16 n)

def hexUpper (n : Nat) : String := String.ofList ((Nat.toDigits 16 n).map Char.toUpper)

def pluginConfigKey (h : Hashes) (conf : PluginConf) : String :=
  let items := conf.insertionSort fun a b => a.1 ≤ b.1
  hexUpper (h.crc32 ("\n".intercalate (items.map fun e => e.1 ++ ":" ++ h.displayValue e.2)))

def hashKey (h : Hashes) (l : LocationConf) : String := hex (h.locationHash l)

/-! ## Routes -/

/-- The share of the path in the weight of a location. -/
def pathWeight (path : String) : Nat :=
  if 1 < path.utf8ByteSize then
    (if path.toList.head? = some '=' then 1024 else if path.toList.head? = some '~' then 256
      else 512) + min path.utf8ByteSize 64
  else 0

/-- The share of the host. A list with a regular expression counts its length. -/
def hostWeight (host : String) : Nat :=
  let existRegex := (host.toList.splitOn ',').any fun item => item.head? == some '~'
  if !existRegex && !host.isEmpty then 128 else host.utf8ByteSize % 2 ^ 16

def getWeight (l : LocationConf) : Nat :=
  match l.weight with
  | some weight => weight
  | none => (pathWeight (l.path.getD "") + (l.host.map hostWeight).getD 0) % 2 ^ 16

/-- The weight of a location by its name, zero for an unknown one. -/
def weightOf (locations : KeyedMap String LocationConf) (name : String) : Nat :=
  ((locations.lookup name).map getWeight).getD 0

/-- Names in the order of descending weight, those of one weight as they stood. -/
def byWeight (locations : KeyedMap String LocationConf) (names : List String) : List String :=
  names.insertionSort fun a b => weightOf locations b ≤ weightOf locations a

def serverRouteLocations (c : PingapConfig) (name : String) : Option (List String) :=
  (c.servers.lookup name).bind fun server => server.locations.map (byWeight c.locations)

/-! ## Comparison -/

/-- What the data plane reports. -/
structure DataPlane where
  runningConfigKey : String → Option String
  runningLocationKey : String → Option String
  runningServerLocations : String → Option (List String)

/-- The data plane that runs a configuration. -/
def DataPlane.running (h : Hashes) (c : PingapConfig) : DataPlane where
  runningConfigKey name := (c.plugins.lookup name).map (pluginConfigKey h)
  runningLocationKey name := (c.locations.lookup name).map (hashKey h)
  runningServerLocations name := serverRouteLocations c name

def expectations (h : Hashes) (p : Projected) : List (String × String) :=
  (AList.inOrder p.config.plugins).map fun row => (row.1, pluginConfigKey h row.2)

def locationExpectations (h : Hashes) (p : Projected) : List (String × String) :=
  (AList.inOrder p.config.locations).map fun row => (row.1, hashKey h row.2)

def serverExpectations (p : Projected) : List (String × List String) :=
  (AList.inOrder p.config.servers).map fun row =>
    (row.1, (serverRouteLocations p.config row.1).getD [])

def pluginMismatch (dp : DataPlane) (expected : String × String) : Option String :=
  match dp.runningConfigKey expected.1 with
  | some key =>
    if key = expected.2 then none
    else some ("`" ++ expected.1 ++ "` is running an older config (" ++ key ++ ", expected " ++
      expected.2 ++ ")")
  | none =>
    some ("`" ++ expected.1 ++ "` is not running — its constructor rejected the config, or " ++
      "the reload did not reach it")

def locationMismatch (dp : DataPlane) (expected : String × String) : Option String :=
  match dp.runningLocationKey expected.1 with
  | some key =>
    if key = expected.2 then none
    else some ("location `" ++ expected.1 ++ "` is running an older config (" ++ key ++
      ", expected " ++ expected.2 ++ ")")
  | none => some ("location `" ++ expected.1 ++ "` is not running — its reload did not reach it")

def serverMismatch (h : Hashes) (dp : DataPlane) (expected : String × List String) : Option String :=
  match dp.runningServerLocations expected.1 with
  | some locations =>
    if locations = expected.2 then none
    else some ("server `" ++ expected.1 ++ "` is routing " ++ h.debugList locations ++
      ", expected " ++ h.debugList expected.2)
  | none =>
    if expected.2.isEmpty then none
    else some ("server `" ++ expected.1 ++ "` has no running location route")

/-- Everything in which the data plane differs from a projection. -/
def runtimeMismatches (h : Hashes) (dp : DataPlane) (p : Projected) : List String :=
  (expectations h p).filterMap (pluginMismatch dp) ++
    ((locationExpectations h p).filterMap (locationMismatch dp) ++
      (serverExpectations p).filterMap (serverMismatch h dp))

section mismatches

variable {h : Hashes} {dp : DataPlane} {p : Projected}

theorem pluginMismatch_eq_none :
    pluginMismatch dp (name, key) = none ↔ dp.runningConfigKey name = some key := by
  simp only [pluginMismatch]
  cases dp.runningConfigKey name with
  | none => simp
  | some running => by_cases heq : running = key <;> simp [heq]

theorem locationMismatch_eq_none :
    locationMismatch dp (name, key) = none ↔ dp.runningLocationKey name = some key := by
  simp only [locationMismatch]
  cases dp.runningLocationKey name with
  | none => simp
  | some running => by_cases heq : running = key <;> simp [heq]

/-- A server without a route is one that routes nothing. -/
theorem serverMismatch_eq_none :
    serverMismatch h dp (name, locations) = none ↔
      (dp.runningServerLocations name).getD [] = locations := by
  simp only [serverMismatch]
  cases dp.runningServerLocations name with
  | none =>
    cases locations with
    | nil | cons => simp
  | some running => by_cases heq : running = locations <;> simp [heq]

/-- Nothing differs exactly when every plugin and location runs under its key and
every server routes its locations in order. -/
theorem runtimeMismatches_eq_nil : runtimeMismatches h dp p = [] ↔
    (∀ name conf, p.config.plugins.lookup name = some conf →
      dp.runningConfigKey name = some (pluginConfigKey h conf)) ∧
    (∀ name conf, p.config.locations.lookup name = some conf →
      dp.runningLocationKey name = some (hashKey h conf)) ∧
    ∀ name server, p.config.servers.lookup name = some server →
      (dp.runningServerLocations name).getD [] = (serverRouteLocations p.config name).getD [] := by
  simp only [runtimeMismatches, List.append_eq_nil_iff, List.filterMap_eq_nil_iff, expectations,
    locationExpectations, serverExpectations, List.forall_mem_map, Prod.forall,
    AList.mem_inOrder, pluginMismatch_eq_none, locationMismatch_eq_none, serverMismatch_eq_none]

end mismatches

/-- The second projection has a plugin or location that the first does not have as
it is, or routes the locations of a server otherwise. -/
def Differs (first second : PingapConfig) : Prop :=
  (∃ name conf, second.plugins.lookup name = some conf ∧ first.plugins.lookup name ≠ some conf) ∨
  (∃ name conf, second.locations.lookup name = some conf ∧
    first.locations.lookup name ≠ some conf) ∨
  ∃ name server, second.servers.lookup name = some server ∧
    (serverRouteLocations first name).getD [] ≠ (serverRouteLocations second name).getD []

/-- The keys of the plugins and locations of two configurations do not collide. -/
structure Separated (h : Hashes) (first second : PingapConfig) : Prop where
  plugins : ∀ name c c', first.plugins.lookup name = some c → second.plugins.lookup name = some c' →
    pluginConfigKey h c = pluginConfigKey h c' → c = c'
  locations : ∀ name c c', first.locations.lookup name = some c →
    second.locations.lookup name = some c' → hashKey h c = hashKey h c' → c = c'

/-- The read-back tells two configurations apart exactly when they differ in what
it looks at. -/
theorem mismatches_running (hsep : Separated h first second.config) :
    runtimeMismatches h (DataPlane.running h first) second = [] ↔ ¬ Differs first second.config := by
  rw [runtimeMismatches_eq_nil]
  have hkey : ∀ {α : Type} {o : Option α} {key : α → String} {conf : α},
      (∀ c, o = some c → key c = key conf → c = conf) →
      (o.map key = some (key conf) ↔ o = some conf) := by
    intro α o key conf hinj
    cases o with
    | none => simp
    | some c =>
      simp only [Option.map_some, Option.some.injEq]
      exact ⟨hinj c rfl, fun heq => heq ▸ rfl⟩
  constructor
  · rintro ⟨hplugins, hlocations, hservers⟩ (⟨name, conf, hc, hne⟩ | ⟨name, conf, hc, hne⟩ |
      ⟨name, server, hs, hne⟩)
    · exact hne ((hkey fun c h₁ heq => hsep.plugins name c conf h₁ hc heq).mp (hplugins name conf hc))
    · exact hne ((hkey fun c h₁ heq => hsep.locations name c conf h₁ hc heq).mp
        (hlocations name conf hc))
    · exact hne (hservers name server hs)
  · intro hsame
    refine ⟨fun name conf hc => ?_, fun name conf hc => ?_, fun name server hs => ?_⟩
    · by_contra hne
      refine hsame (.inl ⟨name, conf, hc, fun heq => hne ?_⟩)
      exact (hkey fun c h₁ heq => hsep.plugins name c conf h₁ hc heq).mpr heq
    · by_contra hne
      refine hsame (.inr (.inl ⟨name, conf, hc, fun heq => hne ?_⟩))
      exact (hkey fun c h₁ heq => hsep.locations name c conf h₁ hc heq).mpr heq
    · by_contra hne
      exact hsame (.inr (.inr ⟨name, server, hs, hne⟩))

end ConfigReadBack
