import Mathlib.Data.Countable.Basic
import Mathlib.Logic.Equiv.List
import Pingap.DomainStore
import Pingap.LocationRoute
import Pingap.Trace

/-!
# Hot reload

A configuration that runs is published in parts: the hosts and the locations, and for
every server a route over them. A reload publishes again what it takes to be affected
by the new configuration: the locations when the text of one of them changes, the
routes when the list of a server does. Order and index of a route are made from the
locations, so a reload that changes locations only leaves routes that were made from
the old ones.
-/

namespace HotReload

open ConfigIntent ConfigReadBack LocationMatch LocationRoute List
open DomainStore (HostPolicy Limits)

/-! ## Differences -/

/-- The texts in which the entries of two configurations are compared. -/
structure Texts where
  basic : Option (List String) → String
  server : ServerConf → String
  location : LocationConf → String
  upstream : UpstreamConf → String
  plugin : PluginConf → String
  certificate : CertificateConf → String

inductive Category where
  | basic
  | server
  | location
  | upstream
  | plugin
  | certificate
deriving DecidableEq, Repr

/-- An entry was added or removed, or its text changed. -/
def changed {α : Type} (text : α → String) (old new : KeyedMap String α) : Bool :=
  (old.keys ++ new.keys).any fun name => (old.lookup name).map text != (new.lookup name).map text

def categoryChanged (t : Texts) (old new : PingapConfig) : Category → Bool
  | .basic => t.basic old.trustedProxies != t.basic new.trustedProxies
  | .server => changed t.server old.servers new.servers
  | .location => changed t.location old.locations new.locations
  | .upstream => changed t.upstream old.upstreams new.upstreams
  | .plugin => changed t.plugin old.plugins new.plugins
  | .certificate => changed t.certificate old.certificates new.certificates

/-- The categories in which two configurations differ. -/
def diff (t : Texts) (old new : PingapConfig) : List Category :=
  [.basic, .server, .location, .upstream, .plugin, .certificate].filter (categoryChanged t old new)

/-! ## Locations -/

/-- The hosts that the locations are restricted to, as they are registered. -/
def configuredHosts (locations : KeyedMap String LocationConf) : List String :=
  (AList.inOrder locations).flatMap fun row => (hostPatterns row.2).map toAsciiLowercase

def hostCapacityError (policy : HostPolicy) : String :=
  "Invalid error configured host count " ++ toString policy.registered ++
    " exceeds native abuse capacity " ++ toString ({} : Limits).maxDomains

/-- The policy of some hosts, if there is room for them. -/
def registerHosts (locations : KeyedMap String LocationConf) : Except String HostPolicy :=
  let policy := HostPolicy.new (configuredHosts locations)
  if ({} : Limits).maxDomains < policy.registered then .error (hostCapacityError policy)
  else .ok policy

def getLocation (published : KeyedMap String Location) (name : String) : Option Location :=
  if name.isEmpty then none else published.lookup name

/-- One turn of the loop in `try_init_locations`: a location that is published under the
same key stays. -/
def initLocation (r : Regexes) (h : Hashes) (published : KeyedMap String Location)
    (row : String × LocationConf) : Except String (String × Location) :=
  match (getLocation published row.1).filter fun found => found.key = hashKey h row.2 with
  | some found => .ok (row.1, found)
  | none =>
    match Location.new r h row.1 row.2 with
    | .ok l => .ok (row.1, l)
    | .error e => .error ("Invalid error " ++ e.display)

def tryInitLocations (r : Regexes) (h : Hashes) (published : KeyedMap String Location)
    (locations : KeyedMap String LocationConf) :
    Except String (HostPolicy × KeyedMap String Location) := do
  let policy ← registerHosts locations
  let rows ← (AList.inOrder locations).mapM (initLocation r h published)
  return (policy, AList.ofRows rows)

/-! ## Routes -/

def tryInitServerLocations (servers : KeyedMap String ServerConf)
    (locations : KeyedMap String LocationConf) (published : KeyedMap String Location) :
    KeyedMap String ServerLocationRoute :=
  servers.retain fun _ server => server.locations.map fun items =>
    ServerLocationRoute.build (byWeight locations items) (getLocation published)

/-! ## Running and reloading -/

structure Running where
  config : PingapConfig
  hosts : HostPolicy
  locations : KeyedMap String Location
  routes : KeyedMap String ServerLocationRoute

def boot (r : Regexes) (h : Hashes) (config : PingapConfig) : Except String Running := do
  let (hosts, locations) ← tryInitLocations r h ∅ config.locations
  return ⟨config, hosts, locations, tryInitServerLocations config.servers config.locations locations⟩

/-- The location that a request to a server is routed to. -/
def Running.select (r : Regexes) (s : Running) (server host path : String) : Option String :=
  (s.routes.lookup server).bind fun route => route.select r (getLocation s.locations) host path

/-- Some server that runs has another list of locations in the new configuration. -/
def serverLocationsChanged (old new : PingapConfig) : Bool :=
  (AList.inOrder new.servers).any fun row =>
    (old.servers.lookup row.1).any fun server => row.2.locations != server.locations

/-- The running configuration with what can change while it runs. -/
def hotReloadConfig (old new : PingapConfig) : PingapConfig where
  trustedProxies := old.trustedProxies
  upstreams := new.upstreams
  locations := new.locations
  servers := old.servers.retain fun name server =>
    some { server with locations := ((new.servers.lookup name).getD server).locations }
  plugins := new.plugins
  certificates :=
    if (AList.inOrder new.certificates).any fun row => row.2.acme.isSome then old.certificates
    else new.certificates

/-- The location step of a reload, with the text of its failure. -/
def reloadLocations (r : Regexes) (h : Hashes) (s : Running) (new : PingapConfig) :
    Running × Option String :=
  match tryInitLocations r h s.locations new.locations with
  | .ok (hosts, locations) => ({ s with hosts := hosts, locations := locations }, none)
  | .error e => (s, some ("location reload fail: " ++ e))

/-- The route step of a reload, which cannot fail. -/
def reloadServerLocations (s : Running) (new : PingapConfig) : Running :=
  { s with routes := tryInitServerLocations new.servers new.locations s.locations }

/-- What a reload leaves behind: the running gateway and the failures of its steps. -/
structure Outcome where
  running : Running
  failures : List String

section

variable (r : Regexes) (h : Hashes) (t : Texts)
  (updateUpstreams : KeyedMap String UpstreamConf → Option String)

/-- The locations after a reload, and why they could not be published. -/
def locationStep (s : Running) (new : PingapConfig) : Running × Option String :=
  if .location ∈ diff t s.config new then reloadLocations r h s new else (s, none)

def upstreamStep (s : Running) (new : PingapConfig) : Option String :=
  if .upstream ∈ diff t s.config new then
    (updateUpstreams new.upstreams).map fun e => "upstream reload fail: " ++ e
  else none

/-- The part of `diff_and_update_config` that runs when there is a difference. The step
of the upstreams is a parameter, and those of the plugins and certificates have no part
in routing. -/
def reloadSteps (hotReloadOnly : Bool) (s : Running) (new : PingapConfig) : Outcome :=
  let hot := hotReloadConfig s.config new
  let (located, locationFailure) := locationStep r h t s new
  let routed :=
    if serverLocationsChanged s.config new then reloadServerLocations located new else located
  let configured :=
    if hotReloadOnly && (diff t s.config hot).isEmpty then routed else { routed with config := hot }
  ⟨configured, (upstreamStep t updateUpstreams s new).toList ++ locationFailure.toList⟩

def diffAndUpdateConfig (hotReloadOnly : Bool) (s : Running) (new : PingapConfig) :
    Except String Outcome := do
  let _ ← registerHosts new.locations
  if (diff t s.config new).isEmpty then return ⟨s, []⟩
  return reloadSteps r h t updateUpstreams hotReloadOnly s new

end

/-! ## What a reload does -/

/-- Two maps have the same entries as far as a view of them shows. -/
def Agree {α β : Type} (view : α → β) (old new : KeyedMap String α) : Prop :=
  ∀ name, (old.lookup name).map view = (new.lookup name).map view

/-- Options that look the same under two views are both there or both not. -/
theorem both_of_map_eq {a : Option α} {b : Option β} {f : α → γ} {g : β → γ}
    (h : a.map f = b.map g) : (a = none ∧ b = none) ∨ ∃ x y, a = some x ∧ b = some y ∧ f x = g y := by
  cases a with
  | none => exact .inl ⟨rfl, Option.map_eq_none_iff.mp h.symm⟩
  | some x =>
    obtain ⟨y, hy, heq⟩ := Option.map_eq_some_iff.mp h.symm
    exact .inr ⟨x, y, rfl, hy, heq.symm⟩

section differences

variable {α : Type} {text : α → String} {old new : KeyedMap String α}

theorem changed_eq_false : changed text old new = false ↔ Agree text old new := by
  rw [changed, any_eq_false]
  simp only [bne_iff_ne, ne_eq, not_not]
  refine ⟨fun h name => ?_, fun h name _ => h name⟩
  by_cases hmem : name ∈ old.keys ++ new.keys
  · exact h name hmem
  · rw [mem_append, not_or, ← AList.mem_keys, ← AList.mem_keys] at hmem
    rw [AList.lookup_eq_none.mpr hmem.1, AList.lookup_eq_none.mpr hmem.2]

theorem Agree.imp {view : α → β} {view' : α → γ} (h : Agree view old new)
    (himp : ∀ {c c'}, view c = view c' → view' c = view' c') : Agree view' old new := by
  intro name
  rcases both_of_map_eq (h name) with ⟨hold, hnew⟩ | ⟨c, c', hold, hnew, heq⟩ <;> rw [hold, hnew]
  exact congrArg some (himp heq)

theorem mem_diff : category ∈ diff t c c' ↔ categoryChanged t c c' category = true := by
  have hmem : category ∈ [Category.basic, .server, .location, .upstream, .plugin, .certificate] := by
    cases category <;> decide
  rw [diff, mem_filter, and_iff_right hmem]

theorem unchanged_of_diff (h : diff t c c' = []) (category : Category) :
    categoryChanged t c c' category = false := by
  rw [← Bool.not_eq_true, ← mem_diff, h]
  exact not_mem_nil

end differences

theorem serverLocationsChanged_eq_false :
    serverLocationsChanged old new = false ↔ ∀ name server server',
      old.servers.lookup name = some server → new.servers.lookup name = some server' →
        server'.locations = server.locations := by
  rw [serverLocationsChanged, any_eq_false]
  constructor
  · intro h name server server' hserver hserver'
    have hrow := h (name, server') (AList.mem_inOrder.mpr hserver')
    simpa [hserver] using hrow
  · rintro h ⟨name, server'⟩ hrow
    cases hserver : old.servers.lookup name with
    | none => simp
    | some server => simpa using h name server server' hserver (AList.mem_inOrder.mp hrow)

theorem hotReloadConfig_server :
    (hotReloadConfig old new).servers.lookup name = (old.servers.lookup name).map fun server =>
      { server with locations := ((new.servers.lookup name).getD server).locations } := by
  rw [hotReloadConfig, AList.lookup_retain]
  cases old.servers.lookup name <;> rfl

section reload

variable {r : Regexes} {h : Hashes} {t : Texts}
  {updateUpstreams : KeyedMap String UpstreamConf → Option String} {hotReloadOnly : Bool}
  {s s' : Running} {new : PingapConfig}

/-- What routing reads of a location. -/
def routing (c : LocationConf) : Option String × Option String × Option Nat :=
  (c.host, c.path, c.weight)

/-- The texts tell apart what routing reads. A size is printed rounded, so that other fields
may change under one text. -/
structure Texts.Tells (t : Texts) : Prop where
  server : t.server c = t.server c' → c.locations = c'.locations
  location : t.location c = t.location c' → routing c = routing c'

/-- A reload in which no step failed. -/
structure Reloaded (r : Regexes) (h : Hashes) (t : Texts) (s : Running) (new : PingapConfig)
    (s' : Running) : Prop where
  locations : if changed t.location s.config.locations new.locations then
      tryInitLocations r h s.locations new.locations = .ok (s'.hosts, s'.locations)
    else s'.hosts = s.hosts ∧ s'.locations = s.locations
  routes : s'.routes = if serverLocationsChanged s.config new then
    tryInitServerLocations new.servers new.locations s'.locations else s.routes
  config : s'.config = hotReloadConfig s.config new ∨ (s'.config = s.config ∧
    changed t.location s.config.locations new.locations = false ∧
      serverLocationsChanged s.config new = false)

theorem sameLists_of_unchanged (ht : t.Tells)
    (hsame : changed t.server old.servers new.servers = false) :
    serverLocationsChanged old new = false := by
  refine serverLocationsChanged_eq_false.mpr fun name server server' hserver hserver' => ?_
  have heq := (changed_eq_false.mp hsame).imp ht.server name
  rw [hserver, hserver'] at heq
  exact (Option.some.inj heq).symm

theorem sameLists_of_hot (hsame : serverLocationsChanged old (hotReloadConfig old new) = false) :
    serverLocationsChanged old new = false := by
  rw [serverLocationsChanged_eq_false] at hsame ⊢
  intro name server server' hserver hserver'
  refine hsame name server { server with locations := server'.locations } hserver ?_
  rw [hotReloadConfig_server, hserver, hserver']
  rfl

theorem locationStep_ok (hok : locationStep r h t s new = (located, none)) :
    (if changed t.location s.config.locations new.locations then
        tryInitLocations r h s.locations new.locations = .ok (located.hosts, located.locations)
      else located.hosts = s.hosts ∧ located.locations = s.locations) ∧
      located.routes = s.routes ∧ located.config = s.config := by
  simp only [locationStep, mem_diff, categoryChanged] at hok
  split at hok
  case isTrue hchanged =>
    rw [if_pos hchanged]
    rw [reloadLocations] at hok
    split at hok
    case h_1 hosts locations hinit =>
      obtain ⟨rfl, -⟩ := Prod.mk.inj hok
      exact ⟨hinit, rfl, rfl⟩
    case h_2 => cases (Prod.mk.inj hok).2
  case isFalse hsame =>
    rw [if_neg hsame]
    obtain ⟨rfl, -⟩ := Prod.mk.inj hok
    exact ⟨⟨rfl, rfl⟩, rfl, rfl⟩

theorem reloaded_of_steps (ht : t.Tells)
    (hok : reloadSteps r h t updateUpstreams hotReloadOnly s new = ⟨s', []⟩) :
    Reloaded r h t s new s' := by
  obtain ⟨located, failure, hstep⟩ : ∃ located failure,
      locationStep r h t s new = (located, failure) := ⟨_, _, rfl⟩
  rw [reloadSteps, hstep, Outcome.mk.injEq, append_eq_nil_iff] at hok
  obtain ⟨hconfigured, -, hfailure⟩ := hok
  obtain rfl : failure = none := Option.toList_eq_nil_iff.mp hfailure
  obtain ⟨hlocations, hroutes, hconfig⟩ := locationStep_ok hstep
  have hrouted : ∀ hot, (if serverLocationsChanged s.config new then
      reloadServerLocations located new else located) = hot →
      hot.hosts = located.hosts ∧ hot.locations = located.locations ∧ hot.config = s.config ∧
      hot.routes = if serverLocationsChanged s.config new then
        tryInitServerLocations new.servers new.locations located.locations else s.routes := by
    rintro hot rfl
    split
    · exact ⟨rfl, rfl, hconfig, rfl⟩
    · exact ⟨rfl, rfl, hconfig, hroutes⟩
  split at hconfigured
  · rename_i hsame
    obtain ⟨hhosts, hpublished, hcurrent, hserved⟩ := hrouted s' hconfigured
    have hunchanged := unchanged_of_diff (List.isEmpty_iff.mp (Bool.and_eq_true_iff.mp hsame).2)
    exact ⟨by rwa [hhosts, hpublished], by rwa [hpublished], .inr ⟨hcurrent, hunchanged .location,
      sameLists_of_hot (sameLists_of_unchanged ht (hunchanged .server))⟩⟩
  · obtain ⟨hhosts, hpublished, -, hserved⟩ := hrouted _ rfl
    subst hconfigured
    exact ⟨by rwa [hhosts, hpublished], by rwa [hpublished], .inl rfl⟩

theorem reloaded_of_diffAndUpdateConfig (ht : t.Tells)
    (hok : diffAndUpdateConfig r h t updateUpstreams hotReloadOnly s new = .ok ⟨s', []⟩) :
    Reloaded r h t s new s' := by
  rw [diffAndUpdateConfig] at hok
  cases hhosts : registerHosts new.locations with
  | error e =>
    rw [hhosts] at hok
    cases hok
  | ok policy =>
    rw [hhosts] at hok
    change (if (diff t s.config new).isEmpty then Except.ok (⟨s, []⟩ : Outcome)
      else .ok (reloadSteps r h t updateUpstreams hotReloadOnly s new)) = _ at hok
    split at hok
    · rename_i hempty
      cases hok
      have hsame := unchanged_of_diff (List.isEmpty_iff.mp hempty)
      have hlocations : changed t.location s.config.locations new.locations = false :=
        hsame .location
      have hlists := sameLists_of_unchanged ht (hsame .server)
      exact ⟨by rw [hlocations]; exact ⟨rfl, rfl⟩, by rw [hlists]; rfl, .inr ⟨rfl, hlocations, hlists⟩⟩
    · exact reloaded_of_steps ht (Except.ok.inj hok)

/-! ## What is published -/

/-- Every location of the configuration can be built, and the published ones are these. -/
def Published (r : Regexes) (h : Hashes) (confs : KeyedMap String LocationConf)
    (locations : KeyedMap String Location) : Prop :=
  ∀ name, (confs.lookup name).map (Location.new r h name) = (locations.lookup name).map Except.ok

/-- The published hosts are those of the configuration, and there is room for them. -/
def Registers (confs : KeyedMap String LocationConf) (hosts : HostPolicy) : Prop :=
  hosts = HostPolicy.new (configuredHosts confs) ∧ hosts.registered ≤ ({} : Limits).maxDomains

/-- A published location with the key of the new entry is the one that the entry builds. -/
def KeysTell (r : Regexes) (h : Hashes) (locations : KeyedMap String Location)
    (new : KeyedMap String LocationConf) : Prop :=
  ∀ name l c, locations.lookup name = some l → new.lookup name = some c → l.key = hashKey h c →
    Location.new r h name c = .ok l

theorem Published.new_of_lookup (hpub : Published r h confs locations)
    (hl : locations.lookup name = some l) :
    ∃ conf, confs.lookup name = some conf ∧ Location.new r h name conf = .ok l := by
  have hname := hpub name
  rw [hl] at hname
  exact Option.map_eq_some_iff.mp hname

theorem getLocation_of_published (hpub : Published r h confs locations) (name : String) :
    getLocation locations name = locations.lookup name := by
  rw [getLocation]
  split
  · rename_i hempty
    refine (Option.eq_none_iff_forall_ne_some.mpr fun l hl => ?_).symm
    obtain ⟨conf, -, hok⟩ := hpub.new_of_lookup hl
    rw [(Location.new_ok hok).name] at hempty
    cases hempty
  · rfl

/-- A location that stays is the one that would be built. -/
theorem initLocation_ok {new : KeyedMap String LocationConf} (hpub : Published r h old locations)
    (hkeys : KeysTell r h locations new) (hconf : new.lookup name = some conf) :
    initLocation r h locations (name, conf) = .ok (name, l) ↔ Location.new r h name conf = .ok l := by
  rw [initLocation, getLocation_of_published hpub]
  cases hfound : (locations.lookup name).filter fun found => found.key = hashKey h conf with
  | none =>
    cases Location.new r h name conf with
    | error | ok => simp
  | some found =>
    obtain ⟨hlookup, hkey⟩ := Option.filter_eq_some_iff.mp hfound
    rw [hkeys name found conf hlookup hconf (of_decide_eq_true hkey)]
    simp

theorem initLocation_key (row : String × LocationConf) (out : String × Location)
    (hok : initLocation r h locations row = .ok out) : out.1 = row.1 := by
  rw [initLocation] at hok
  split at hok
  · cases hok
    rfl
  split at hok
  · cases hok
    rfl
  · cases hok

theorem published_of_tryInitLocations {old new : KeyedMap String LocationConf}
    (hpub : Published r h old locations) (hkeys : KeysTell r h locations new)
    (hok : tryInitLocations r h locations new = .ok (hosts, published)) :
    Registers new hosts ∧ Published r h new published := by
  rw [tryInitLocations] at hok
  cases hhosts : registerHosts new with
  | error e =>
    rw [hhosts] at hok
    cases hok
  | ok policy =>
    cases hrows : (AList.inOrder new).mapM (initLocation r h locations) with
    | error e =>
      simp only [hhosts, hrows] at hok
      cases hok
    | ok rows =>
      simp only [hhosts, hrows] at hok
      cases hok
      refine ⟨?_, fun name => ?_⟩
      · rw [registerHosts] at hhosts
        split at hhosts
        · cases hhosts
        rename_i hroom
        cases hhosts
        exact ⟨rfl, Nat.not_lt.mp hroom⟩
      · have hlookup := fun l => AList.lookup_mapM (w := l) (k := name) initLocation_key hrows
        cases hconf : new.lookup name with
        | none =>
          refine (Option.map_eq_none_iff.mpr ?_).symm
          refine Option.eq_none_iff_forall_ne_some.mpr fun l hl => ?_
          obtain ⟨conf, hsome, -⟩ := (hlookup l).mp hl
          rw [hconf] at hsome
          cases hsome
        | some conf =>
          obtain ⟨⟨name', l⟩, hout⟩ :=
            (AList.mapM_ok_iff _).mp ⟨rows, hrows⟩ (name, conf) (AList.mem_inOrder.mpr hconf)
          obtain rfl : name' = name := initLocation_key _ _ hout
          rw [(hlookup l).mpr ⟨conf, hconf, hout⟩]
          exact congrArg some ((initLocation_ok hpub hkeys hconf).mp hout)

theorem published_empty : Published r h ∅ ∅ := fun _ => rfl

theorem tryInitServerLocations_lookup :
    (tryInitServerLocations servers confs published).lookup name =
      (servers.lookup name).bind fun server => server.locations.map fun items =>
        ServerLocationRoute.build (byWeight confs items) (getLocation published) := by
  rw [tryInitServerLocations, AList.lookup_retain]

/-- What is published was built from entries that routing reads as those of the configuration
that runs. -/
def Steady (r : Regexes) (h : Hashes) (s : Running) : Prop :=
  ∃ confs, Agree routing confs s.config.locations ∧ Registers confs s.hosts ∧
    Published r h confs s.locations

theorem boot_ok (hok : boot r h config = .ok s) :
    ∃ published, tryInitLocations r h ∅ config.locations = .ok published ∧
      s = ⟨config, published.1, published.2,
        tryInitServerLocations config.servers config.locations published.2⟩ := by
  rw [boot] at hok
  cases hinit : tryInitLocations r h ∅ config.locations with
  | error e =>
    rw [hinit] at hok
    cases hok
  | ok published =>
    rw [hinit] at hok
    cases hok
    exact ⟨published, rfl, rfl⟩

theorem published_boot (hok : boot r h config = .ok s) :
    Registers config.locations s.hosts ∧ Published r h config.locations s.locations := by
  obtain ⟨published, hinit, rfl⟩ := boot_ok hok
  refine published_of_tryInitLocations published_empty (fun name l c hl => ?_) hinit
  simp at hl

theorem steady_boot (hok : boot r h config = .ok s) : Steady r h s := by
  have hpub := published_boot hok
  obtain ⟨published, hinit, rfl⟩ := boot_ok hok
  exact ⟨config.locations, fun _ => rfl, hpub⟩

/-- After a reload the published locations are read as those of the new configuration. -/
theorem Reloaded.published (ht : t.Tells) (hsteady : Steady r h s)
    (hkeys : KeysTell r h s.locations new.locations) (hreload : Reloaded r h t s new s') :
    ∃ confs, Agree routing confs new.locations ∧ Registers confs s'.hosts ∧
      Published r h confs s'.locations := by
  obtain ⟨confs, hagree, hhosts, hpub⟩ := hsteady
  have hlocations := hreload.locations
  split at hlocations
  case isTrue => exact ⟨new.locations, fun _ => rfl, published_of_tryInitLocations hpub hkeys hlocations⟩
  case isFalse hsame =>
    have hread := (changed_eq_false.mp (Bool.eq_false_iff.mpr hsame)).imp ht.location
    rw [hlocations.1, hlocations.2]
    exact ⟨confs, fun name => (hagree name).trans (hread name), hhosts, hpub⟩

theorem list_of_kept (hsame : serverLocationsChanged config new = false)
    (hserver : config.servers.lookup name = some server) :
    ((new.servers.lookup name).getD server).locations = server.locations := by
  cases hnew : new.servers.lookup name with
  | none => rfl
  | some conf => exact serverLocationsChanged_eq_false.mp hsame name server conf hserver hnew

/-- A server that runs after a reload ran before it, with the new list or the one it had. -/
theorem Reloaded.lists (hreload : Reloaded r h t s new s')
    (hserver' : s'.config.servers.lookup name = some server') :
    ∃ server, s.config.servers.lookup name = some server ∧
      server'.locations = ((new.servers.lookup name).getD server).locations := by
  rcases hreload.config with hconfig | ⟨hconfig, -, hsame⟩
  · rw [hconfig, hotReloadConfig_server] at hserver'
    obtain ⟨server, hserver, rfl⟩ := Option.map_eq_some_iff.mp hserver'
    exact ⟨server, hserver, rfl⟩
  rw [hconfig] at hserver'
  exact ⟨server', hserver', (list_of_kept hsame hserver').symm⟩

theorem Reloaded.steady (ht : t.Tells) (hsteady : Steady r h s)
    (hkeys : KeysTell r h s.locations new.locations) (hreload : Reloaded r h t s new s') :
    Steady r h s' := by
  rcases hreload.config with hconfig | ⟨hconfig, hsame, -⟩
  · obtain ⟨confs, hread, hpub⟩ := hreload.published ht hsteady hkeys
    exact ⟨confs, by rw [hconfig]; exact hread, hpub⟩
  · have hlocations := hreload.locations
    rw [hsame] at hlocations
    rw [Steady, hconfig, hlocations.1, hlocations.2]
    exact hsteady

/-- The routes were built from a configuration, on locations that routing reads as its own. -/
def RoutedBy (r : Regexes) (h : Hashes) (origin : PingapConfig)
    (routes : KeyedMap String ServerLocationRoute) : Prop :=
  ∃ confs published, Agree routing confs origin.locations ∧ Published r h confs published ∧
    routes = tryInitServerLocations origin.servers origin.locations published

end reload

/-- The gateway runs: it was booted, and reloaded any number of times without a step
that failed. The second configuration is the one its routes were built from. -/
inductive Runs (r : Regexes) (h : Hashes) (t : Texts)
    (updateUpstreams : KeyedMap String UpstreamConf → Option String) :
    Running → PingapConfig → Prop where
  | boot {config : PingapConfig} {s : Running} (hok : boot r h config = .ok s) :
      Runs r h t updateUpstreams s config
  | reload {s s' : Running} {origin new : PingapConfig} {hotReloadOnly : Bool}
      (hrun : Runs r h t updateUpstreams s origin) (hkeys : KeysTell r h s.locations new.locations)
      (hok : diffAndUpdateConfig r h t updateUpstreams hotReloadOnly s new = .ok ⟨s', []⟩) :
      Runs r h t updateUpstreams s' (if serverLocationsChanged s.config new then new else origin)

theorem steady_of_runs (ht : t.Tells) (hrun : Runs r h t updateUpstreams s origin) :
    Steady r h s ∧ RoutedBy r h origin s.routes ∧
      serverLocationsChanged s.config origin = false := by
  induction hrun with
  | boot hok =>
    refine ⟨steady_boot hok, ⟨_, _, fun _ => rfl, (published_boot hok).2, ?_⟩, ?_⟩ <;>
      obtain ⟨published, -, rfl⟩ := boot_ok hok
    · rfl
    · refine serverLocationsChanged_eq_false.mpr fun name server server' hserver hserver' => ?_
      rw [← Option.some.inj (hserver.symm.trans hserver')]
  | reload hrun hkeys hok ih =>
    have hreload := reloaded_of_diffAndUpdateConfig ht hok
    refine ⟨hreload.steady ht ih.1 hkeys, ?_⟩
    have hroutes := hreload.routes
    rw [serverLocationsChanged_eq_false]
    split
    case isTrue hchanged =>
      obtain ⟨confs, hagree, -, hpub⟩ := hreload.published ht ih.1 hkeys
      rw [if_pos hchanged] at hroutes
      refine ⟨⟨confs, _, hagree, hpub, hroutes⟩, fun name server' conf hserver' hconf => ?_⟩
      obtain ⟨server, -, hlists⟩ := hreload.lists hserver'
      rw [hlists, hconf]
      rfl
    case isFalse hkept =>
      rw [if_neg hkept] at hroutes
      rw [hroutes]
      refine ⟨ih.2.1, fun name server' conf hserver' hconf => ?_⟩
      obtain ⟨server, hserver, hlists⟩ := hreload.lists hserver'
      rw [hlists, list_of_kept (Bool.eq_false_iff.mpr hkept) hserver]
      exact serverLocationsChanged_eq_false.mp ih.2.2 name server conf hserver hconf

/-! ## Routing by the new configuration -/

/-- The location that the configuration builds passes a test. -/
def builds (r : Regexes) (h : Hashes) (config : PingapConfig) (test : Location → Bool)
    (name : String) : Bool :=
  (config.locations.lookup name).any fun conf =>
    match Location.new r h name conf with
    | .ok l => test l
    | .error _ => false

/-- The location of the configuration matches the request. -/
def matchesConf (r : Regexes) (h : Hashes) (config : PingapConfig) (host path : String) :
    String → Bool :=
  builds r h config (·.matchHostPath r host path)

/-- The locations of a server in descending order of weight. -/
def orderOf (config : PingapConfig) (server : String) : List String :=
  (serverRouteLocations config server).getD []

/-- The first location of a server that matches, in a scan of all of them. -/
def scan (r : Regexes) (h : Hashes) (config : PingapConfig) (server host path : String) :
    Option String :=
  (orderOf config server).find? (matchesConf r h config host path)

/-- An index built from the configuration offers the position for the host: some location of
the server stands there, up to sixteen bits, and has the host in its restriction. -/
def Offers (r : Regexes) (h : Hashes) (origin : PingapConfig) (server host : String) (i : Nat) :
    Prop :=
  ∃ j name, (orderOf origin server)[j]? = some name ∧
    builds r h origin (·.admits host) name = true ∧ i = j % 2 ^ 16

/-- Among the positions that the first configuration offers, in its order, the location stands
before every other that matches under the second. -/
def Leads (r : Regexes) (h : Hashes) (origin new : PingapConfig) (server host path name : String) :
    Prop :=
  ∃ i, Offers r h origin server host i ∧ (orderOf origin server)[i]? = some name ∧
    ∀ j < i, Offers r h origin server host j → ∀ other, (orderOf origin server)[j]? = some other →
      matchesConf r h new host path other = false

/-- Entries that routing reads alike build locations that differ in their keys only. -/
theorem new_of_routing (heq : routing c = routing c') :
    Location.new r h name c' =
      (Location.new r h name c).map fun l => { l with key := hashKey h c' } := by
  obtain ⟨hhost, hpath, -⟩ : c.host = c'.host ∧ c.path = c'.path ∧ c.weight = c'.weight := by
    simpa [routing] using heq
  have hpatterns : hostPatterns c' = hostPatterns c := by rw [hostPatterns, hostPatterns, hhost]
  rw [Location.new, Location.new, hpatterns, hpath]
  cases name.isEmpty with
  | true => rfl
  | false =>
    cases (hostPatterns c).mapM (HostSelector.new r) with
    | error e => rfl
    | ok hosts =>
      cases hselector : PathSelector.new r (c'.path.getD "") with
      | error | ok =>
        simp only [hselector]
        rfl

/-- A test of a published location is one of the entry that it is read as. -/
theorem any_of_published (hpub : Published r h confs locations)
    (hagree : Agree routing confs config.locations) {test : Location → Bool}
    (htest : ∀ l key, test { l with key := key } = test l) (name : String) :
    (getLocation locations name).any test = builds r h config test name := by
  rw [getLocation_of_published hpub, builds]
  have hname := hpub name
  rcases both_of_map_eq (hagree name) with ⟨hconf, hconf'⟩ | ⟨conf, conf', hconf, hconf', heq⟩
  · rw [hconf, Option.map_none, eq_comm, Option.map_eq_none_iff] at hname
    rw [hname, hconf']
    rfl
  · rw [hconf, Option.map_some, eq_comm] at hname
    obtain ⟨l, hl, hnew⟩ := Option.map_eq_some_iff.mp hname
    rw [hl, hconf', Option.any_some, Option.any_some, new_of_routing heq, hnew.symm]
    exact (htest l _).symm

theorem matches_of_published (hpub : Published r h confs locations)
    (hagree : Agree routing confs config.locations) (host path : String) :
    Matches r (getLocation locations) host path = matchesConf r h config host path :=
  funext fun name => any_of_published hpub hagree (fun _ _ => rfl) name

/-- The two configurations have the same servers. -/
def SameServers (old new : PingapConfig) : Prop :=
  ∀ name, (old.servers.lookup name).isSome = (new.servers.lookup name).isSome

section routing

variable {r : Regexes} {h : Hashes} {s s' : Running} {new : PingapConfig} {server : String}
  {conf : ServerConf}

theorem orderOf_eq (hconf : new.servers.lookup server = some conf) :
    orderOf new server = (conf.locations.map (byWeight new.locations)).getD [] := by
  rw [orderOf, serverRouteLocations, hconf]
  rfl

/-- A reload that changes a list routes by the new configuration, up to the positions
that an index can hold. -/
theorem select_of_lists_changed (hpub : Published r h confs s'.locations)
    (hagree : Agree routing confs new.locations)
    (hroutes : s'.routes = tryInitServerLocations new.servers new.locations s'.locations)
    (hconf : new.servers.lookup server = some conf) :
    s'.select r server host path = scan r h new server host path ↔
      ((∃ name ∈ orderOf new server, matchesConf r h new host path name = true) →
        ∃ name ∈ (orderOf new server).take (2 ^ 16), matchesConf r h new host path name = true) := by
  rw [Running.select, hroutes, tryInitServerLocations_lookup, hconf, Option.bind_some, scan,
    orderOf_eq hconf, ← matches_of_published hpub hagree]
  cases conf.locations with
  | none => simp
  | some items => exact select_build_eq_find

/-- The route of a server that was built from a configuration. -/
theorem route_of_routes (hroutes : routes = tryInitServerLocations origin.servers origin.locations
    published) (server : String) : routes.lookup server = (serverRouteLocations origin server).map
      (ServerLocationRoute.build · (getLocation published)) := by
  rw [hroutes, tryInitServerLocations_lookup, serverRouteLocations]
  cases origin.servers.lookup server with
  | none => rfl
  | some conf =>
    rw [Option.bind_some, Option.bind_some, Option.map_map]
    rfl

/-- A route built from one configuration leads a request by another to the first location that
it offers and that matches there. -/
theorem select_iff_leads (hpub : Published r h confs s'.locations)
    (hagree : Agree routing confs new.locations) (hrouted : RoutedBy r h origin s'.routes) :
    s'.select r server host path = some name ↔
      matchesConf r h new host path name = true ∧ Leads r h origin new server host path name := by
  obtain ⟨confs', published, hagree', hpub', hroutes⟩ := hrouted
  have hoffers (i : Nat) : i ∈ (LocationHostIndex.build (orderOf origin server)
      (getLocation published)).candidateIndices host ↔ Offers r h origin server host i := by
    have hadmits (name : String) : (getLocation published name).any (·.admits host) =
        builds r h origin (·.admits host) name :=
      any_of_published hpub' hagree' (fun _ _ => rfl) name
    rw [LocationHostIndex.mem_candidateIndices_build, Offers]
    simp only [← hadmits, Option.any_eq_true]
    constructor
    · rintro ⟨j, name, l, hj, hl, hadmits, rfl⟩
      exact ⟨j, name, hj, ⟨l, hl, hadmits⟩, rfl⟩
    · rintro ⟨j, name, hj, ⟨l, hl, hadmits⟩, rfl⟩
      exact ⟨j, name, l, hj, hl, hadmits, rfl⟩
  rw [Running.select, route_of_routes hroutes, ← matches_of_published hpub hagree]
  cases hordered : serverRouteLocations origin server with
  | none => simp [Leads, orderOf, hordered]
  | some ordered =>
    have horder : orderOf origin server = ordered := by rw [orderOf, hordered]; rfl
    rw [Option.map_some, Option.bind_some, select_eq_some, ← horder]
    simp only [ServerLocationRoute.build, hoffers, Leads, matches_of_published hpub hagree]
    constructor
    · rintro ⟨i, hi, hname, hmatch, hfirst⟩
      exact ⟨hmatch, i, hi, hname, fun j hlt hj => hfirst j hj hlt⟩
    · rintro ⟨hmatch, i, hi, hname, hfirst⟩
      exact ⟨i, hi, hname, hmatch, fun j hj hlt => hfirst j hlt hj⟩

/-- A reload that changes no list routes by the routes that are there. -/
theorem select_of_lists_kept (hpub : Published r h confs s'.locations)
    (hagree : Agree routing confs new.locations) (hrouted : RoutedBy r h origin s'.routes)
    (hlisted : ∀ name ∈ orderOf origin server, name ∈ orderOf new server) :
    s'.select r server host path = scan r h new server host path ↔
      ∀ name, scan r h new server host path = some name →
        Leads r h origin new server host path name := by
  cases hscan : scan r h new server host path with
  | none =>
    -- Nothing in the list matches, so nothing in an order of it does.
    refine ⟨fun _ name hname => (by cases hname), fun _ => ?_⟩
    refine Option.eq_none_iff_forall_ne_some.mpr fun name hname => ?_
    obtain ⟨hmatch, i, -, hi, -⟩ := (select_iff_leads hpub hagree hrouted).mp hname
    exact find?_eq_none.mp hscan name (hlisted name (mem_of_getElem? hi)) hmatch
  | some found =>
    have hmatch : matchesConf r h new host path found = true := find?_some hscan
    rw [select_iff_leads hpub hagree hrouted, and_iff_right hmatch]
    refine ⟨fun hleads name hname => ?_, fun hleads => hleads found rfl⟩
    rwa [← Option.some.inj hname]

end routing

/-- A reload without failures routes a request by the new configuration exactly when,
in a reload that changes the list of some server, a match is among the first `2 ^ 16`
locations if there is one; and, in one that does not, the first match stands, in the order
of the configuration that the routes were built from, before every other match that it
offers for the host. -/
theorem reload_selects_scan_iff {r : Regexes} {h : Hashes} {t : Texts}
    {updateUpstreams : KeyedMap String UpstreamConf → Option String} {hotReloadOnly : Bool}
    {s s' : Running} {origin new : PingapConfig} (ht : t.Tells)
    (hrun : Runs r h t updateUpstreams s origin) (hkeys : KeysTell r h s.locations new.locations)
    (hservers : SameServers s.config new)
    (hok : diffAndUpdateConfig r h t updateUpstreams hotReloadOnly s new = .ok ⟨s', []⟩)
    {server : String} (hserver : (new.servers.lookup server).isSome) (host path : String) :
    s'.select r server host path = scan r h new server host path ↔
      if serverLocationsChanged s.config new = true then
        (∃ name ∈ orderOf new server, matchesConf r h new host path name = true) →
          ∃ name ∈ (orderOf new server).take (2 ^ 16), matchesConf r h new host path name = true
      else
        ∀ name, scan r h new server host path = some name →
          Leads r h origin new server host path name := by
  obtain ⟨hsteady, hrouted, hcommon⟩ := steady_of_runs ht hrun
  have hreload := reloaded_of_diffAndUpdateConfig ht hok
  obtain ⟨confs, hagree, -, hpub⟩ := hreload.published ht hsteady hkeys
  obtain ⟨conf, hconf⟩ := Option.isSome_iff_exists.mp hserver
  have hroutes := hreload.routes
  split
  case isTrue hchanged =>
    rw [if_pos hchanged] at hroutes
    exact select_of_lists_changed hpub hagree hroutes hconf
  case isFalse hkept =>
    rw [if_neg hkept] at hroutes
    refine select_of_lists_kept hpub hagree (by rw [hroutes]; exact hrouted) fun name hname => ?_
    obtain ⟨old, hold⟩ := Option.isSome_iff_exists.mp ((hservers server).trans hserver)
    have hlists := serverLocationsChanged_eq_false.mp (Bool.eq_false_iff.mpr hkept) server old conf
      hold hconf
    cases horigin : origin.servers.lookup server with
    | none =>
      rw [orderOf, serverRouteLocations, horigin] at hname
      cases hname
    | some built =>
      -- The routes were built from the list that has stayed, in another order.
      rw [orderOf_eq horigin,
        serverLocationsChanged_eq_false.mp hcommon server old built hold horigin] at hname
      rw [orderOf_eq hconf, hlists]
      cases hitems : old.locations with
      | none =>
        rw [hitems] at hname
        cases hname
      | some items =>
        rw [hitems] at hname
        exact (mem_insertionSort _).mpr ((mem_insertionSort _).mp hname)

/-! ## Failures -/

/-- The gateway with the upstreams it balances over. -/
structure Gateway where
  running : Running
  upstreams : KeyedMap String UpstreamConf

section failures

variable (r : Regexes) (h : Hashes) (t : Texts)
  (updateUpstreams : KeyedMap String UpstreamConf → Option String) (new : PingapConfig)

/-- The categories whose step fails. -/
def failed (s : Running) : List Category :=
  (upstreamStep t updateUpstreams s new).toList.map (fun _ => .upstream) ++
    (locationStep r h t s new).2.toList.map fun _ => .location

/-- One reload of the stored configuration, with the categories that fail. Nothing is tried for a
configuration that is refused as a whole. -/
def tick (g : Gateway) (hotReloadOnly : Bool) : List Category × Gateway :=
  match diffAndUpdateConfig r h t updateUpstreams hotReloadOnly g.running new with
  | .error _ => ([], g)
  | .ok o => (failed r h t updateUpstreams new g.running, ⟨o.running,
      if .upstream ∈ diff t g.running.config new ∧ updateUpstreams new.upstreams = none then
        new.upstreams else g.upstreams⟩)

/-- The recorded configuration is the one that runs. -/
structure Honest (g : Gateway) : Prop where
  steady : Steady r h g.running
  locations : Published r h g.running.config.locations g.running.locations
  upstreams : ∀ name, g.running.config.upstreams.lookup name = g.upstreams.lookup name

/-- What fails is different still, and what is recorded runs. -/
def Remembered (g : Gateway) (hotReloadOnly : Bool) : Prop :=
  let (categories, g') := tick r h t updateUpstreams new g hotReloadOnly
  (∀ category ∈ categories, category ∈ diff t g'.running.config new) ∧ Honest r h g'

/-- The upstreams and locations of the stored configuration can be loaded where they differ. -/
def Loads (s : Running) : Prop :=
  (.upstream ∈ diff t s.config new → updateUpstreams new.upstreams = none) ∧
  (.location ∈ diff t s.config new →
    ∃ published, tryInitLocations r h s.locations new.locations = .ok published)

/-- A tick puts the stored configuration on record. -/
def Records (s : Running) (hotReloadOnly : Bool) : Prop :=
  diff t s.config new ≠ [] ∧
    (hotReloadOnly = true → diff t s.config (hotReloadConfig s.config new) ≠ [])

/-- No upstream and no location changes under an unchanged text. -/
def Seen (s : Running) : Prop :=
  (.upstream ∉ diff t s.config new →
    ∀ name, s.config.upstreams.lookup name = new.upstreams.lookup name) ∧
  (.location ∉ diff t s.config new → Agree (hashKey h) s.config.locations new.locations)

variable {r h t updateUpstreams new} {g : Gateway} {hotReloadOnly : Bool} {s : Running}

theorem failed_eq_nil :
    failed r h t updateUpstreams new s = [] ↔ Loads r h t updateUpstreams new s := by
  rw [failed, append_eq_nil_iff, map_eq_nil_iff, map_eq_nil_iff,
    Option.toList_eq_nil_iff, Option.toList_eq_nil_iff, upstreamStep, locationStep]
  refine and_congr ?_ ?_
  · split
    · rename_i hdiff
      rw [Option.map_eq_none_iff]
      exact ⟨fun hnone _ => hnone, fun hnone => hnone hdiff⟩
    · rename_i hdiff
      exact ⟨fun _ hmem => absurd hmem hdiff, fun _ => rfl⟩
  split
  · rename_i hdiff
    rw [reloadLocations]
    split
    · rename_i hinit
      exact ⟨fun _ _ => ⟨_, hinit⟩, fun _ => rfl⟩
    rename_i e hinit
    refine ⟨fun hnone => (by cases hnone), fun hall => ?_⟩
    obtain ⟨published, hok⟩ := hall hdiff
    rw [hinit] at hok
    cases hok
  · rename_i hdiff
    exact ⟨fun _ hmem => absurd hmem hdiff, fun _ => rfl⟩

/-- What a hot reload takes over is not different any more. -/
theorem not_mem_diff_hot (h : category = .upstream ∨ category = .location) :
    category ∉ diff t (hotReloadConfig old new) new := by
  rw [mem_diff, Bool.not_eq_true]
  rcases h with rfl | rfl <;> exact changed_eq_false.mpr fun _ => rfl

/-- A reload that puts the configuration on record does so however its steps end. -/
theorem reload_of_records (hhosts : registerHosts new.locations = .ok policy)
    (hrecords : Records t new s hotReloadOnly) :
    ∃ o, diffAndUpdateConfig r h t updateUpstreams hotReloadOnly s new = .ok o ∧
      o.running.config = hotReloadConfig s.config new ∧
      (Loads r h t updateUpstreams new s → o.failures = []) := by
  refine ⟨reloadSteps r h t updateUpstreams hotReloadOnly s new, ?_, ?_, fun hloads => ?_⟩
  · rw [diffAndUpdateConfig, hhosts]
    exact if_neg (by simpa using hrecords.1)
  · rw [reloadSteps]
    dsimp only
    rw [if_neg fun hkept => ?_]
    obtain ⟨hmode, hempty⟩ := Bool.and_eq_true_iff.mp hkept
    exact hrecords.2 hmode (List.isEmpty_iff.mp hempty)
  · have hnone := failed_eq_nil.mpr hloads
    rw [failed, append_eq_nil_iff, map_eq_nil_iff, map_eq_nil_iff] at hnone
    rw [reloadSteps]
    exact append_eq_nil_iff.mpr hnone

theorem unchanged_of_not_records (hnot : ¬ Records t new s hotReloadOnly)
    (hcategory : category = .upstream ∨ category = .location) :
    category ∉ diff t s.config new := by
  by_cases hempty : diff t s.config new = []
  · rw [hempty]
    exact not_mem_nil
  · have hhot := not_not.mp fun hne => hnot ⟨hempty, fun _ => hne⟩
    have hsame := unchanged_of_diff hhot category
    rw [mem_diff, Bool.not_eq_true]
    rcases hcategory with rfl | rfl <;> exact hsame

theorem loads_of_not_records (hnot : ¬ Records t new s hotReloadOnly) :
    Loads r h t updateUpstreams new s :=
  ⟨fun hmem => absurd hmem (unchanged_of_not_records hnot (.inl rfl)),
    fun hmem => absurd hmem (unchanged_of_not_records hnot (.inr rfl))⟩

/-- Any other tick leaves the gateway as it is. -/
theorem tick_of_not_records (ht : t.Tells) (hnot : ¬ Records t new g.running hotReloadOnly) :
    tick r h t updateUpstreams new g hotReloadOnly = ([], g) := by
  rw [tick, diffAndUpdateConfig]
  cases registerHosts new.locations with
  | error e => rfl
  | ok policy =>
    have hupstream := unchanged_of_not_records hnot (.inl rfl)
    have hlocation := unchanged_of_not_records hnot (.inr rfl)
    have hnone : failed r h t updateUpstreams new g.running = [] :=
      failed_eq_nil.mpr (loads_of_not_records hnot)
    by_cases hempty : (diff t g.running.config new).isEmpty
    · simp only [bind, Except.bind, pure, Except.pure, if_pos hempty, hnone, hupstream, false_and,
        if_false]
    · obtain ⟨hmode, hhot⟩ : hotReloadOnly = true ∧
          diff t g.running.config (hotReloadConfig g.running.config new) = [] := by
        by_contra hno
        exact hnot ⟨by simpa using hempty, fun hmode hhot => hno ⟨hmode, hhot⟩⟩
      have hlists := sameLists_of_hot (sameLists_of_unchanged ht (unchanged_of_diff hhot .server))
      have hlocated : locationStep r h t g.running new = (g.running, none) := if_neg hlocation
      simp [bind, Except.bind, pure, Except.pure, hempty, reloadSteps, hlocated, hlists, hmode, hhot,
        hnone, hupstream]

section

variable (hpub : Published r h old locations)
include hpub

/-- Entries with the keys of the published locations are theirs. -/
theorem Published.of_keys {new : KeyedMap String LocationConf} (hkeys : KeysTell r h locations new)
    (hagree : Agree (hashKey h) old new) : Published r h new locations := by
  intro name
  have hkey := hagree name
  rcases both_of_map_eq (hpub name) with ⟨hold, hl⟩ | ⟨c, l, hold, hl, hnew⟩
  · rw [hold, Option.map_none, eq_comm, Option.map_eq_none_iff] at hkey
    rw [hl, hkey]
    rfl
  · rw [hold, Option.map_some, eq_comm] at hkey
    obtain ⟨c', hc', heq⟩ := Option.map_eq_some_iff.mp hkey
    rw [hl, hc']
    exact congrArg some (hkeys name l c' hl hc' ((Location.new_ok hnew).key.trans heq.symm))

theorem Published.keys {new : KeyedMap String LocationConf} (hpub' : Published r h new locations) :
    Agree (hashKey h) old new := by
  intro name
  rcases both_of_map_eq (hpub name) with ⟨hold, hl⟩ | ⟨c, l, hold, hl, hnew⟩ <;>
    rcases both_of_map_eq (hpub' name) with ⟨hold', hl'⟩ | ⟨c', l', hold', hl', hnew'⟩ <;>
    rw [hl] at hl' <;> cases hl' <;> rw [hold, hold']
  exact congrArg some ((Location.new_ok hnew).key.symm.trans (Location.new_ok hnew').key)

end

/-- A tick that puts on record what it loads, with the gateway before and after it. -/
theorem tick_of_records (ht : t.Tells) (hsteady : Steady r h g.running)
    (hkeys : KeysTell r h g.running.locations new.locations)
    (hloads : Loads r h t updateUpstreams new g.running)
    (hhosts : registerHosts new.locations = .ok policy)
    (hrecords : Records t new g.running hotReloadOnly) :
    ∃ s', tick r h t updateUpstreams new g hotReloadOnly = ([], ⟨s',
        if .upstream ∈ diff t g.running.config new then new.upstreams else g.upstreams⟩) ∧
      s'.config = hotReloadConfig g.running.config new ∧ Steady r h s' ∧
      Reloaded r h t g.running new s' := by
  obtain ⟨⟨s', failures⟩, hok, hconfig, hfailures⟩ : ∃ o,
      diffAndUpdateConfig r h t updateUpstreams hotReloadOnly g.running new = .ok o ∧ _ :=
    reload_of_records hhosts hrecords
  obtain rfl : failures = [] := hfailures hloads
  have hreload := reloaded_of_diffAndUpdateConfig ht hok
  refine ⟨s', ?_, hconfig, hreload.steady ht hsteady hkeys, hreload⟩
  have hupstreams : (.upstream ∈ diff t g.running.config new ∧
      updateUpstreams new.upstreams = none) ↔ .upstream ∈ diff t g.running.config new :=
    ⟨And.left, fun hmem => ⟨hmem, hloads.1 hmem⟩⟩
  simp only [tick, hok, failed_eq_nil.mpr hloads, hupstreams]

/-- The gateway is honest, and stays so over ticks in the modes. -/
structure Ready (r : Regexes) (h : Hashes) (t : Texts)
    (updateUpstreams : KeyedMap String UpstreamConf → Option String) (new : PingapConfig)
    (g : Gateway) (modes : List Bool) : Prop where
  honest : Honest r h g
  keys : KeysTell r h g.running.locations new.locations
  loads : ∀ policy, registerHosts new.locations = .ok policy →
    Loads r h t updateUpstreams new g.running ∧
      ∀ mode ∈ modes, Records t new g.running mode → Seen h t new g.running

theorem Ready.tick (ht : t.Tells) (hready : Ready r h t updateUpstreams new g (mode :: modes)) :
    Remembered r h t updateUpstreams new g mode ∧
      Ready r h t updateUpstreams new (HotReload.tick r h t updateUpstreams new g mode).2 modes := by
  obtain ⟨hg, hkeys, hloads⟩ := hready
  by_cases hrecords : Records t new g.running mode
  case neg =>
    rw [Remembered, tick_of_not_records ht hrecords]
    exact ⟨⟨fun _ hmem => absurd hmem not_mem_nil, hg⟩, hg, hkeys, fun policy hhosts =>
      ⟨(hloads policy hhosts).1, fun mode hmode => (hloads policy hhosts).2 mode
        (mem_cons_of_mem _ hmode)⟩⟩
  cases hhosts : registerHosts new.locations with
  | error e =>
    have htick : HotReload.tick r h t updateUpstreams new g mode = ([], g) := by
      rw [HotReload.tick, diffAndUpdateConfig, hhosts]
      rfl
    rw [Remembered, htick]
    refine ⟨⟨fun _ hmem => absurd hmem not_mem_nil, hg⟩, hg, hkeys, fun policy hok => ?_⟩
    rw [hhosts] at hok
    cases hok
  | ok policy =>
    obtain ⟨hload, hseen⟩ := hloads policy hhosts
    obtain ⟨hupstream, hlocation⟩ := hseen mode mem_cons_self hrecords
    obtain ⟨s', htick, hconfig, hsteady, hreload⟩ : ∃ s', _ :=
      tick_of_records ht hg.steady hkeys hload hhosts hrecords
    have hpub : Published r h new.locations s'.locations := by
      have hlocations := hreload.locations
      split at hlocations
      case isTrue => exact (published_of_tryInitLocations hg.locations hkeys hlocations).2
      case isFalse hsame =>
        rw [hlocations.2]
        exact hg.locations.of_keys hkeys (hlocation (by rw [mem_diff]; exact hsame))
    have hhonest : Honest r h ⟨s',
        if .upstream ∈ diff t g.running.config new then new.upstreams else g.upstreams⟩ := by
      refine ⟨hsteady, by rw [hconfig]; exact hpub, fun name => ?_⟩
      rw [hconfig]
      change new.upstreams.lookup name = _
      split
      · rfl
      · rename_i hsame
        rw [← hupstream hsame name, hg.upstreams name]
    rw [Remembered, htick]
    refine ⟨⟨fun _ hmem => absurd hmem not_mem_nil, hhonest⟩, hhonest, ?_, fun _ _ => ?_⟩
    · intro name l c hl hc _
      obtain ⟨c', hc', hnew⟩ := hpub.new_of_lookup hl
      rwa [Option.some.inj (hc.symm.trans hc')]
    · dsimp only
      rw [Loads, Seen, hconfig]
      exact ⟨⟨fun hmem => absurd hmem (not_mem_diff_hot (.inl rfl)),
        fun hmem => absurd hmem (not_mem_diff_hot (.inr rfl))⟩, fun _ _ _ =>
        ⟨fun _ _ => rfl, fun _ _ => rfl⟩⟩

theorem Ready.ticks (ht : t.Tells) (hready : Ready r h t updateUpstreams new g modes) :
    Trace.Always (Remembered r h t updateUpstreams new) (HotReload.tick r h t updateUpstreams new) g
      modes := by
  induction modes generalizing g with
  | nil => trivial
  | cons mode modes ih => exact ⟨(hready.tick ht).1, ih (hready.tick ht).2⟩

end failures

theorem countable_string : Countable String := by
  have hchar : Function.Injective Char.toNat := fun _ _ h => Char.toNat_inj.mp h
  have hlist : Function.Injective String.toList := fun _ _ h => String.toList_inj.mp h
  have : Countable Char := hchar.countable
  exact hlist.countable

theorem exists_tells : ∃ t : Texts, t.Tells := by
  have := countable_string
  obtain ⟨list, hlist⟩ := exists_injective_nat (Option (List String))
  obtain ⟨read, hread⟩ := exists_injective_nat (Option String × Option String × Option Nat)
  exact ⟨⟨fun _ => "", fun c => toString (list c.locations), fun c => toString (read (routing c)),
    fun _ => "", fun _ => "", fun _ => ""⟩, fun h => hlist (Text.toString_injective h),
    fun h => hread (Text.toString_injective h)⟩

theorem boot_config (hok : boot r h config = .ok s) : s.config = config := by
  obtain ⟨published, -, rfl⟩ := boot_ok hok
  rfl

theorem diffAndUpdateConfig_ok (hhosts : registerHosts new.locations = .ok policy)
    (hlocations : s.config.locations = new.locations)
    (hupstreams : s.config.upstreams = new.upstreams) (t : Texts)
    (updateUpstreams : KeyedMap String UpstreamConf → Option String) (hotReloadOnly : Bool) :
    ∃ s', diffAndUpdateConfig r h t updateUpstreams hotReloadOnly s new = .ok ⟨s', []⟩ := by
  have hlocated : locationStep r h t s new = (s, none) := by
    rw [locationStep, if_neg]
    rw [mem_diff, Bool.not_eq_true, categoryChanged, hlocations]
    exact changed_eq_false.mpr fun _ => rfl
  have hupdated : upstreamStep t updateUpstreams s new = none := by
    rw [upstreamStep, if_neg]
    rw [mem_diff, Bool.not_eq_true, categoryChanged, hupstreams]
    exact changed_eq_false.mpr fun _ => rfl
  by_cases hempty : (diff t s.config new).isEmpty
  · exact ⟨s, by rw [diffAndUpdateConfig, hhosts, if_pos hempty]; rfl⟩
  refine ⟨(reloadSteps r h t updateUpstreams hotReloadOnly s new).running, ?_⟩
  rw [diffAndUpdateConfig, hhosts, if_neg hempty, reloadSteps, hlocated, hupdated]
  rfl

def oneServer (items : List String) (locations : List (String × LocationConf)) : PingapConfig :=
  ⟨none, ∅, AList.ofRows locations,
    AList.ofRows [("web", ⟨"0.0.0.0:80", none, some items, none, none, none, none, none, none, none,
      none⟩)], ∅, ∅⟩

def hostConf (host : String) : LocationConf :=
  ⟨none, none, some host, none, none, none, none, none, none, none, none⟩

/-- The library, on patterns without regular expressions. -/
def noRegexes : Regexes := ⟨fun _ => none, fun _ _ => false⟩

/-- Hashes that tell locations apart by their hosts. -/
def hostHashes : Hashes :=
  ⟨fun _ => 0, fun _ => "",
    fun c => (c.host.getD "").toList.foldl (fun n char => 256 * n + char.toNat) 0, fun _ => ""⟩

/-- Texts that show the hosts and the lists. -/
def hostTexts : Texts :=
  ⟨fun _ => "", fun c => ",".intercalate (c.locations.getD []), fun c => c.host.getD "", fun _ => "",
    fun _ => "", fun _ => ""⟩

/-- The host of a location changes, the list of its server does not. No step fails, and
requests for the new host find nothing. -/
theorem changed_host_is_not_routed :
    ((boot noRegexes hostHashes (oneServer ["app"] [("app", hostConf "a.test")])).toOption.bind
        fun s => (diffAndUpdateConfig noRegexes hostHashes hostTexts (fun _ => none) true s
          (oneServer ["app"] [("app", hostConf "b.test")])).toOption.map fun o =>
        (o.failures, o.running.select noRegexes "web" "b.test" "/")) = some ([], none) ∧
    scan noRegexes hostHashes (oneServer ["app"] [("app", hostConf "b.test")]) "web" "b.test" "/" =
      some "app" := by
  decide +kernel

def twoHosts (items : List String) : PingapConfig :=
  oneServer items [("app", hostConf "a.test"), ("api", hostConf "b.test")]

theorem sameServers_oneServer :
    SameServers (oneServer items locations) (oneServer items' locations) := by
  intro name
  simp only [oneServer, AList.ofRows, foldl_cons, foldl_nil, AList.lookup_insert_if]
  split <;> rfl

theorem twoHosts_boot : ∃ (t : Texts) (s : Running), t.Tells ∧
    boot noRegexes hostHashes (twoHosts ["app"]) = .ok s ∧ s.config = twoHosts ["app"] ∧
    s.config.locations = (twoHosts ["app", "api"]).locations ∧
    KeysTell noRegexes hostHashes s.locations (twoHosts ["app", "api"]).locations := by
  obtain ⟨t, ht⟩ := exists_tells
  obtain ⟨s, hs⟩ : ∃ s, boot noRegexes hostHashes (twoHosts ["app"]) = .ok s := ⟨_, rfl⟩
  have hconfig : s.config = twoHosts ["app"] := boot_config hs
  refine ⟨t, s, ht, hs, hconfig, by rw [hconfig]; rfl, fun name l c hl hc _ => ?_⟩
  obtain ⟨c', hc', hnew⟩ := (published_boot hs).2.new_of_lookup hl
  rwa [Option.some.inj (hc.symm.trans hc')]

/-- A location joins the list of a server, and its host is routed. -/
theorem reload_selects_scan_iff_new_list : ∃ (t : Texts) (s s' : Running),
    Runs noRegexes hostHashes t (fun _ => none) s (twoHosts ["app"]) ∧
      diffAndUpdateConfig noRegexes hostHashes t (fun _ => none) true s (twoHosts ["app", "api"]) =
        .ok ⟨s', []⟩ ∧
      s'.select noRegexes "web" "b.test" "/" = some "api" := by
  obtain ⟨t, s, ht, hs, hconfig, hlocations, hkeys⟩ := twoHosts_boot
  have hhosts : ∃ policy, registerHosts (twoHosts ["app", "api"]).locations = .ok policy := ⟨_, rfl⟩
  obtain ⟨policy, hpolicy⟩ := hhosts
  obtain ⟨s', hs'⟩ := diffAndUpdateConfig_ok hpolicy hlocations (by rw [hconfig]; rfl) t
    (fun _ => none) true
  have hservers : SameServers s.config (twoHosts ["app", "api"]) := by
    rw [hconfig]
    exact sameServers_oneServer
  have hserver : ((twoHosts ["app", "api"]).servers.lookup "web").isSome := by decide +kernel
  have hchanged : serverLocationsChanged s.config (twoHosts ["app", "api"]) = true := by
    rw [hconfig]
    decide +kernel
  have hiff := reload_selects_scan_iff ht (.boot hs) hkeys hservers hs' hserver "b.test" "/"
  rw [if_pos hchanged] at hiff
  refine ⟨t, s, s', .boot hs, hs', ?_⟩
  rw [hiff.mpr (by decide +kernel)]
  decide +kernel

end HotReload
