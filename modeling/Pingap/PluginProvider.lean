import Pingap.ConfigReadBack
import Pingap.Trace

/-!
# Publication of plugins

Requests resolve the plugins of their location in a snapshot that holds the instances,
the failures of those that could not be built, and the policies that are desired. A
configuration is staged first, which replaces the desired policies; its plugins are
built one by one under a lock and published later. In between, a required policy is
found missing and not found as it was before.
-/

namespace PluginProvider

open ConfigIntent ConfigReadBack List

/-! ## Policies that are required -/

/-- What the check of a policy takes from elsewhere: durations as they are written,
methods, and whether the addresses of proxies are trusted. -/
structure Checks where
  parseDuration : String → Option Nat
  methodValid : String → Bool
  trustedProxies : Bool

/-- The fields of a value once it is JSON. A datetime is an object there. -/
def asObject : TomlValue → Option Table
  | .table entries => some entries
  | .datetime text => some [("$__toml_private_datetime", .string text)]
  | _ => none

def asU64 (v : TomlValue) : Option Nat :=
  v.asInteger.bind fun n => if 0 ≤ n then some n.toNat else none

def isSecurityEnforcing (category : String) : Bool :=
  ["waf", "acl", "bot", "access_list", "challenge"].contains category

def advisoryCapacity (conf : Table) (key : String) (default : Nat) : Option Nat :=
  ((conf.lookup key).elim (some default) asU64).filter fun capacity => decide (0 < capacity)

def positiveDuration (c : Checks) (value : Option TomlValue) : Bool :=
  ((value.bind TomlValue.asStr).bind c.parseDuration).any fun duration => decide (0 < duration)

def advisoryFieldValues (value : Option TomlValue) (defaults : List (String × Nat)) :
    Option (List Nat) := do
  let fields ← value.elim (some []) asObject
  defaults.mapM fun field =>
    (fields.lookup field.1).elim (some field.2) fun v => (asU64 v).filter fun n => decide (n < 2 ^ 8)

def validAdvisoryBehaviourBase (c : Checks) (conf : Table) : Bool :=
  let bool := fun key => (conf.lookup key).bind TomlValue.asBool
  ((conf.lookup "window").isNone || positiveDuration c (conf.lookup "window")) &&
    ([("max_clients", 5000), ("max_url_keys", 64), ("max_user_agents", 8),
      ("max_interval_samples", 32), ("min_samples", 6), ("budget_ms", 2)].all fun field =>
        (advisoryCapacity conf field.1 field.2).isSome) &&
    ((conf.lookup "client_ip_from_peer").isNone || (bool "client_ip_from_peer").isSome) &&
    (bool "client_ip_from_peer" == some true || c.trustedProxies) &&
    ((conf.lookup "step").all fun v => v.asStr == some "request") &&
    ((advisoryFieldValues (conf.lookup "weights") [("timing_regularity", 25), ("url_entropy", 20),
      ("request_diversity", 20), ("request_speed", 15), ("error_pattern", 10),
      ("user_agent_consistency", 10)]).any fun values => values.sum == 100) &&
    ((advisoryFieldValues (conf.lookup "thresholds") [("human", 55), ("suspicious", 40),
      ("bot", 20)]).any fun values => values.Pairwise (· ≥ ·))

def validDetectScenario (c : Checks) (name : String) (value : TomlValue) (capacity : Nat) : Bool :=
  (asObject value).any fun rule =>
    (rule.lookup "mode").bind TomlValue.asStr == some "detect" &&
    ((rule.lookup "threshold").bind asU64).any (fun n => n != 0 && decide (n ≤ capacity)) &&
    positiveDuration c (rule.lookup "window") && positiveDuration c (rule.lookup "ban_ttl") &&
    (name != "failed_login" ||
      (((rule.lookup "path").bind TomlValue.asStr).any fun path =>
        path.toList.head? == some '/' && !path.toList.contains '?' && !path.toList.contains '#') &&
      ((rule.lookup "method").bind TomlValue.asStr).any c.methodValid &&
      ((rule.lookup "statuses").bind TomlValue.asArray).any fun statuses =>
        !statuses.isEmpty && statuses.all fun status =>
          (asU64 status).any fun code => decide (400 ≤ code) && decide (code ≤ 599))

/-- The scenarios of an abuse section that asks for protection, none of which may be
anything but a rule that only detects. -/
def abuseRequired (c : Checks) (conf abuse : Table) : Bool :=
  let namespaceText := ((conf.lookup "abuse_namespace").bind TomlValue.asStr).getD ""
  (Text.trim namespaceText.toList).isEmpty || !validAdvisoryBehaviourBase c conf ||
    match advisoryCapacity conf "max_interval_samples" 32, advisoryCapacity conf "max_url_keys" 64 with
    | some loginCapacity, some pathCapacity =>
      let scenarios := [("failed_login", loginCapacity), ("scan", pathCapacity)].filterMap
        fun s => (abuse.lookup s.1).map fun value => validDetectScenario c s.1 value s.2
      scenarios.isEmpty || !scenarios.all id
    | _, _ => true

def behaviourRequired (c : Checks) (conf : Table) : Bool :=
  let enabled := (conf.lookup "enabled").bind TomlValue.asBool
  if enabled == some false then false
  else
    match conf.lookup "abuse" with
    | none => false
    | some abuse =>
      if enabled != some true then true
      else
        match asObject abuse with
        | none => true
        | some fields =>
          match fields.lookup "enabled" with
          | none => fields.any fun field => field.1 != "enabled"
          | some (.boolean false) => false
          | some (.boolean true) => abuseRequired c conf fields
          | some _ => true

/-- `security_failure_intent`: the policy has to be there for requests to be served. -/
def securityFailureIntent (c : Checks) (category : String) (conf : Table) : Bool :=
  if category == "limit" then
    (conf.lookup "enforcement_required").bind TomlValue.asBool == some true
  else if category != "behaviour" then isSecurityEnforcing category
  else behaviourRequired c conf

/-! ## The snapshot -/

/-- A plugin, with the configuration it was built from. -/
structure Instance where
  conf : PluginConf
deriving DecidableEq

def Instance.configKey (h : Hashes) (i : Instance) : String := pluginConfigKey h i.conf

inductive PluginMiss where
  | unknown
  | failed (category reason : String) (enforcementRequired : Bool)
deriving DecidableEq, Repr

structure DesiredPolicy where
  key : String
  category : String
  required : Bool
deriving DecidableEq, Repr

structure ProviderSnapshot where
  plugins : KeyedMap String Instance
  failures : KeyedMap String PluginMiss
  desired : KeyedMap String DesiredPolicy

/-- The required policy of a name whose instance is not published. -/
def ProviderSnapshot.awaited (h : Hashes) (s : ProviderSnapshot) (name : String) :
    Option DesiredPolicy :=
  (s.desired.lookup name).filter fun policy =>
    policy.required && (s.plugins.lookup name).all fun i => i.configKey h != policy.key

def ProviderSnapshot.resolve (h : Hashes) (s : ProviderSnapshot) (name : String) :
    Except PluginMiss Instance :=
  match s.awaited h name with
  | some policy =>
    .error (.failed policy.category
      "required desired policy is unavailable or awaiting publication" true)
  | none =>
    match s.plugins.lookup name with
    | some i => .ok i
    | none => .error ((s.failures.lookup name).getD .unknown)

def categoryOf (conf : PluginConf) : String :=
  ((conf.lookup "category").bind TomlValue.asStr).getD ""

def desiredPolicy (h : Hashes) (c : Checks) (conf : PluginConf) : DesiredPolicy :=
  ⟨pluginConfigKey h conf, categoryOf conf, securityFailureIntent c (categoryOf conf) conf⟩

def ProviderSnapshot.stageDesired (h : Hashes) (c : Checks)
    (configs : KeyedMap String PluginConf) (s : ProviderSnapshot) : ProviderSnapshot :=
  { s with desired := configs.retain fun _ conf => some (desiredPolicy h c conf) }

def ProviderSnapshot.store (plugins : KeyedMap String Instance) (failures : KeyedMap String PluginMiss)
    (s : ProviderSnapshot) : ProviderSnapshot :=
  { s with plugins := plugins, failures := failures }

/-! ## Construction -/

def abuseNamespace (conf : PluginConf) : Option String :=
  (conf.lookup "abuse_namespace").bind TomlValue.asStr

/-- How many configurations ask for abuse protection under a namespace. -/
def namespaceCount (confs : List PluginConf) (ns : String) : Nat :=
  confs.countP fun conf =>
    categoryOf conf == "behaviour" && abuseEnabled conf && abuseNamespace conf == some ns

def duplicate (confs : List PluginConf) (conf : PluginConf) : Bool :=
  (abuseNamespace conf).any fun ns => decide (1 < namespaceCount confs ns)

/-- One turn of the filter in `try_init_plugins`: what is published under the same key
stays, everything else is to be built. -/
def reuse (h : Hashes) (configs : List PluginConf) (published : KeyedMap String Instance)
    (row : String × PluginConf) : Option Instance :=
  (published.lookup row.1).filter fun i =>
    !duplicate configs row.2 && i.configKey h == pluginConfigKey h row.2

/-- How one turn of the loop in `parse_plugins` ends: in an instance or in a failure. The
constructor's own failure is given from outside. -/
def construct (c : Checks) (batch : List PluginConf) (conf : PluginConf) (failure : Option String) :
    Except PluginMiss Instance :=
  let category := categoryOf conf
  if category.isEmpty then .error (.failed "" "no category" false)
  else
    let failure := if category == "behaviour" && duplicate batch conf then
      some ("Plugin " ++ category ++ " invalid, message: abuse_namespace must be unique") else failure
    match failure with
    | none => .ok ⟨conf⟩
    | some reason => .error (.failed category reason (securityFailureIntent c category conf))

/-! ## Runs -/

/-- A call of `try_init_plugins` that holds the lock. -/
inductive Call where
  | locked (configs : KeyedMap String PluginConf)
  | comparing (configs : KeyedMap String PluginConf) (rest : List (String × PluginConf))
      (plugins : KeyedMap String Instance) (batch : List (String × PluginConf))
  | building (batch rest : List (String × PluginConf)) (plugins : KeyedMap String Instance)
      (failures : KeyedMap String PluginMiss)

structure Sys where
  snapshot : ProviderSnapshot
  holder : Option Call
  /-- The configuration that was staged last. No operation reads it. -/
  staged : Option (KeyedMap String PluginConf)

def Sys.start : Sys := ⟨⟨∅, ∅, ∅⟩, none, none⟩

inductive Event where
  | stage (configs : KeyedMap String PluginConf)
  | tryInit (configs : KeyedMap String PluginConf)
  | advance (failure : Option String)
  | resolve (name : String)

section step

variable (h : Hashes) (c : Checks) (builtins : List (String × PluginConf))

def Sys.stage (s : Sys) (configs : KeyedMap String PluginConf) : Sys :=
  { s with snapshot := s.snapshot.stageDesired h c configs, staged := some configs }

/-- All plugins of a call: the configured ones, then those the gateway brings itself. -/
def allPlugins (configs : KeyedMap String PluginConf) : List (String × PluginConf) :=
  AList.inOrder configs ++ builtins

def Sys.advance (s : Sys) (failure : Option String) : Call → Sys
  | .locked configs =>
    { s.stage h c configs with holder := some (.comparing configs (allPlugins builtins configs) ∅ []) }
  | .comparing _ [] plugins batch => { s with holder := some (.building batch batch plugins ∅) }
  | .comparing configs (row :: rest) plugins batch =>
    match reuse h ((AList.inOrder configs).map Prod.snd) s.snapshot.plugins row with
    | some i => { s with holder := some (.comparing configs rest (plugins.insert row.1 i) batch) }
    | none => { s with holder := some (.comparing configs rest plugins (batch ++ [row])) }
  | .building batch (row :: rest) plugins failures =>
    match construct c (batch.map Prod.snd) row.2 failure with
    | .ok i => { s with holder := some (.building batch rest (plugins.insert row.1 i) failures) }
    | .error miss =>
      { s with holder := some (.building batch rest plugins (failures.insert row.1 miss)) }
  | .building _ [] plugins failures =>
    { s with snapshot := s.snapshot.store plugins failures, holder := none }

/-- One step, with the answer to a request. -/
def step (s : Sys) : Event → Option (Except PluginMiss Instance) × Sys
  | .stage configs => (none, s.stage h c configs)
  | .tryInit configs =>
    (none, if s.holder.isNone then { s with holder := some (.locked configs) } else s)
  | .advance failure => (none, s.holder.elim s (s.advance h c builtins failure))
  | .resolve name => (some (s.snapshot.resolve h name), s)

def run (events : List Event) : Sys := Trace.final (step h c builtins) Sys.start events

end step

/-! ## What a snapshot answers -/

/-- A required policy is resolved to an instance under its key or to a failure that
says so. -/
theorem resolve_required {s : ProviderSnapshot} (hdesired : s.desired.lookup name = some policy)
    (hrequired : policy.required = true) :
    (∃ i, s.resolve h name = .ok i ∧ s.plugins.lookup name = some i ∧ i.configKey h = policy.key) ∨
      ∃ reason, s.resolve h name = .error (.failed policy.category reason true) := by
  cases hplugin : s.plugins.lookup name with
  | none =>
    have hawaited : s.awaited h name = some policy := by
      simp [ProviderSnapshot.awaited, hdesired, hrequired, hplugin]
    exact .inr ⟨_, by rw [ProviderSnapshot.resolve, hawaited]⟩
  | some i =>
    by_cases hkey : i.configKey h = policy.key
    · have hawaited : s.awaited h name = none := by
        simp [ProviderSnapshot.awaited, hdesired, hplugin, hkey]
      exact .inl ⟨i, by rw [ProviderSnapshot.resolve, hawaited, hplugin], rfl, hkey⟩
    · have hawaited : s.awaited h name = some policy := by
        simp [ProviderSnapshot.awaited, hdesired, hrequired, hplugin, hkey]
      exact .inr ⟨_, by rw [ProviderSnapshot.resolve, hawaited]⟩

section runs

variable {h : Hashes} {c : Checks} {builtins : List (String × PluginConf)}

/-- The desired policies are those of the configuration that was staged last. -/
def Staged (h : Hashes) (c : Checks) (s : Sys) : Prop :=
  ∀ configs, s.staged = some configs → ∀ name,
    s.snapshot.desired.lookup name = (configs.lookup name).map (desiredPolicy h c)

theorem staged_stage (s : Sys) (configs : KeyedMap String PluginConf) :
    Staged h c (s.stage h c configs) := by
  intro staged hstaged name
  obtain rfl : configs = staged := Option.some.inj hstaged
  rw [Sys.stage, ProviderSnapshot.stageDesired, AList.lookup_retain]
  cases configs.lookup name <;> rfl

theorem Staged.congr (hs : Staged h c s) (hdesired : s'.snapshot.desired = s.snapshot.desired)
    (hstaged : s'.staged = s.staged) : Staged h c s' := by
  intro configs hconfigs name
  rw [hdesired]
  exact hs configs (hstaged ▸ hconfigs) name

theorem staged_advance (hs : Staged h c s) {failure : Option String} :
    Staged h c (s.advance h c builtins failure call) := by
  cases call with
  | locked configs => exact (staged_stage s configs).congr rfl rfl
  | comparing _ rest | building _ rest =>
    cases rest with
    | nil => exact hs.congr rfl rfl
    | cons row rest =>
      rw [Sys.advance]
      split
      all_goals exact hs.congr rfl rfl

theorem staged_step (hs : Staged h c s) : Staged h c (step h c builtins s e).2 := by
  cases e with
  | stage configs => exact staged_stage s configs
  | tryInit configs =>
    rw [step]
    split
    · exact hs.congr rfl rfl
    · exact hs
  | advance failure =>
    rw [step]
    cases s.holder with
    | none => exact hs
    | some call => exact staged_advance hs
  | resolve name => exact hs

/-! ## Where instances come from -/

/-- Every instance was built from a configuration that satisfies `P`. -/
def From (P : PluginConf → Prop) (plugins : KeyedMap String Instance) : Prop :=
  ∀ name i, plugins.lookup name = some i → P i.conf

def RowsFrom (P : PluginConf → Prop) (rows : List (String × PluginConf)) : Prop :=
  ∀ row ∈ rows, P row.2

/-- What a call has in hand satisfies `P`. -/
def Call.From (P : PluginConf → Prop) : Call → Prop
  | .locked configs => RowsFrom P (AList.inOrder configs)
  | .comparing _ rest plugins batch =>
    RowsFrom P rest ∧ PluginProvider.From P plugins ∧ RowsFrom P batch
  | .building _ rest plugins _ => RowsFrom P rest ∧ PluginProvider.From P plugins

structure Sys.From (P : PluginConf → Prop) (s : Sys) : Prop where
  published : PluginProvider.From P s.snapshot.plugins
  staged : ∀ configs, s.staged = some configs → RowsFrom P (AList.inOrder configs)
  holder : ∀ call, s.holder = some call → call.From P

variable {P : PluginConf → Prop}

theorem from_insert (hplugins : From P plugins) (hi : P i.conf) :
    From P (plugins.insert name i) := by
  intro name' i' hi'
  rw [AList.lookup_insert_if] at hi'
  split at hi'
  · obtain rfl := Option.some.inj hi'
    exact hi
  · exact hplugins name' i' hi'

theorem construct_conf {failure : Option String} (hok : construct c batch conf failure = .ok i) :
    i.conf = conf := by
  rw [construct] at hok
  split at hok
  · cases hok
  dsimp only at hok
  split at hok
  · cases hok
    rfl
  · cases hok

theorem Sys.From.withHolder {s : Sys} (hs : s.From P) (hcall : call.From P) :
    Sys.From P { s with holder := some call } := by
  refine ⟨hs.published, hs.staged, fun call' hcall' => ?_⟩
  obtain rfl := Option.some.inj hcall'
  exact hcall

theorem from_stage {s : Sys} (hs : s.From P) (hconfigs : RowsFrom P (AList.inOrder configs)) :
    Sys.From P (s.stage h c configs) := by
  refine ⟨hs.published, fun staged hstaged => ?_, hs.holder⟩
  obtain rfl : configs = staged := Option.some.inj hstaged
  exact hconfigs

theorem from_advance {s : Sys} (hs : s.From P) (hbuiltins : RowsFrom P builtins)
    {failure : Option String} (hcall : call.From P) :
    Sys.From P (s.advance h c builtins failure call) := by
  cases call with
  | locked configs =>
    have hrows : RowsFrom P (allPlugins builtins configs) := fun row hrow =>
      (mem_append.mp hrow).elim (hcall row) (hbuiltins row)
    refine (from_stage hs hcall).withHolder ⟨hrows, ?_, ?_⟩
    · intro name i hi
      simp at hi
    · exact fun row hrow => absurd hrow not_mem_nil
  | comparing configs rest plugins batch =>
    obtain ⟨hrest, hplugins, hbatch⟩ := hcall
    cases rest with
    | nil => exact hs.withHolder ⟨hbatch, hplugins⟩
    | cons row rest =>
      obtain ⟨hrow, hrest⟩ := forall_mem_cons.mp hrest
      rw [Sys.advance]
      split
      · rename_i i hreuse
        have hi : P i.conf := hs.published row.1 i (Option.filter_eq_some_iff.mp hreuse).1
        exact hs.withHolder ⟨hrest, from_insert hplugins hi, hbatch⟩
      · refine hs.withHolder ⟨hrest, hplugins, fun other hother => ?_⟩
        rcases mem_append.mp hother with hother | hother
        · exact hbatch other hother
        · rw [mem_singleton.mp hother]
          exact hrow
  | building batch rest plugins failures =>
    obtain ⟨hrest, hplugins⟩ := hcall
    cases rest with
    | nil => exact ⟨hplugins, hs.staged, fun call hcall => by cases hcall⟩
    | cons row rest =>
      obtain ⟨hrow, hrest⟩ := forall_mem_cons.mp hrest
      rw [Sys.advance]
      split
      · rename_i i hok
        have hi : P i.conf := by
          rw [construct_conf hok]
          exact hrow
        exact hs.withHolder ⟨hrest, from_insert hplugins hi⟩
      · exact hs.withHolder ⟨hrest, hplugins⟩

/-- The configurations that an event brings. -/
def Event.confs : Event → List (String × PluginConf)
  | .stage configs => AList.inOrder configs
  | .tryInit configs => AList.inOrder configs
  | .advance _ => []
  | .resolve _ => []

theorem from_step (hs : s.From P) (hbuiltins : RowsFrom P builtins) (he : RowsFrom P e.confs) :
    Sys.From P (step h c builtins s e).2 := by
  cases e with
  | stage configs => exact from_stage hs he
  | tryInit configs =>
    rw [step]
    split
    · exact hs.withHolder he
    · exact hs
  | advance failure =>
    rw [step]
    cases hholder : s.holder with
    | none => exact hs
    | some call => exact from_advance hs hbuiltins (hs.holder call hholder)
  | resolve name => exact hs

end runs

/-- The configuration is one of the gateway's own plugins or came with an event. -/
def Occurs (builtins : List (String × PluginConf)) (events : List Event) (conf : PluginConf) : Prop :=
  (∃ row ∈ builtins, row.2 = conf) ∨ ∃ e ∈ events, ∃ row ∈ e.confs, row.2 = conf

section

variable (h : Hashes) (c : Checks) (builtins : List (String × PluginConf)) (events : List Event)
include h

theorem from_run : Sys.From (Occurs builtins events) (run h c builtins events) := by
  have hrun : ∀ (rest : List Event) (s : Sys), s.From (Occurs builtins events) →
      (∀ e ∈ rest, e ∈ events) →
      Sys.From (Occurs builtins events) (Trace.final (step h c builtins) s rest) := by
    intro rest
    induction rest with
    | nil => exact fun s hs _ => hs
    | cons e rest ih =>
      intro s hs hmem
      refine ih _ (from_step hs ?_ ?_) fun e' he' => hmem e' (mem_cons_of_mem _ he')
      · exact fun row hrow => .inl ⟨row, hrow, rfl⟩
      · exact fun row hrow => .inr ⟨e, hmem e mem_cons_self, row, hrow, rfl⟩
  refine hrun events Sys.start ⟨fun name i hi => ?_, ?_, ?_⟩ fun e he => he
  · simp [Sys.start] at hi
  · exact fun configs hconfigs => by cases hconfigs
  · exact fun call hcall => by cases hcall

theorem staged_run : Staged h c (run h c builtins events) := by
  have hrun : ∀ (rest : List Event) (s : Sys), Staged h c s →
      Staged h c (Trace.final (step h c builtins) s rest) := by
    intro rest
    induction rest with
    | nil => exact fun s hs => hs
    | cons e rest ih => exact fun s hs => ih _ (staged_step hs)
  exact hrun events Sys.start fun configs hconfigs => by cases hconfigs

end

/-- While a configuration is the one that was staged last, a request that resolves a
policy it requires gets an instance built from what it says of this policy, or a
failure that has to be enforced. -/
theorem required_policy_fails_closed (h : Hashes) (c : Checks) (builtins : List (String × PluginConf))
    (events : List Event)
    (hkeys : ∀ conf conf', Occurs builtins events conf → Occurs builtins events conf' →
      pluginConfigKey h conf = pluginConfigKey h conf' → conf = conf')
    {configs : KeyedMap String PluginConf} {name : String} {conf : PluginConf}
    (hstaged : (run h c builtins events).staged = some configs)
    (hconf : configs.lookup name = some conf)
    (hrequired : securityFailureIntent c (categoryOf conf) conf = true) :
    (∃ i, (step h c builtins (run h c builtins events) (.resolve name)).1 = some (.ok i) ∧
      i.configKey h = pluginConfigKey h conf ∧ i.conf = conf) ∨
    ∃ reason, (step h c builtins (run h c builtins events) (.resolve name)).1 =
      some (.error (.failed (categoryOf conf) reason true)) := by
  have hfrom := from_run h c builtins events
  have hdesired := staged_run h c builtins events configs hstaged name
  rw [hconf] at hdesired
  rcases resolve_required hdesired hrequired with ⟨i, hresolve, hplugin, hkey⟩ | ⟨reason, hresolve⟩
  · have hbuilt := hfrom.published name i hplugin
    have hdeclared : Occurs builtins events conf :=
      hfrom.staged configs hstaged (name, conf) (AList.mem_inOrder.mpr hconf)
    exact .inl ⟨i, congrArg some hresolve, hkey, hkeys i.conf conf hbuilt hdeclared hkey⟩
  · exact .inr ⟨reason, congrArg some hresolve⟩

/-! ### A reload that is not finished -/

/-- A policy of the firewall in a mode. -/
def wafConf (mode : String) : PluginConf := [("category", .string "waf"), ("mode", .string mode)]

/-- A checksum of 32 bits that tells the texts of the two modes apart. -/
def codeHashes : Hashes :=
  ⟨fun text => text.toList.foldl (fun n char => (256 * n + char.toNat) % 2 ^ 32) 0,
    fun v => v.asStr.getD "", fun _ => 0, fun _ => ""⟩

def plainChecks : Checks := ⟨fun _ => none, fun _ => true, false⟩

def wafConfig (mode : String) : KeyedMap String PluginConf :=
  AList.ofRows [("waf:site", wafConf mode)]

/-- The first configuration is published, the second one is staged. -/
def halfReloaded : List Event :=
  [.tryInit (wafConfig "detect"), .advance none, .advance none, .advance none, .advance none,
    .advance none, .stage (wafConfig "block")]

theorem inOrder_wafConfig : AList.inOrder (wafConfig mode) = [("waf:site", wafConf mode)] := rfl

/-- The instance in place is not the one that was asked for, and a request is refused. -/
theorem required_policy_fails_closed_half_reloaded :
    (run codeHashes plainChecks [] halfReloaded).snapshot.plugins.lookup "waf:site" =
      some ⟨wafConf "detect"⟩ ∧
    ¬ (step codeHashes plainChecks [] (run codeHashes plainChecks [] halfReloaded)
      (.resolve "waf:site")).1 = some (.ok ⟨wafConf "detect"⟩) := by
  have hkeys : ∀ conf conf', Occurs [] halfReloaded conf → Occurs [] halfReloaded conf' →
      pluginConfigKey codeHashes conf = pluginConfigKey codeHashes conf' → conf = conf' := by
    have hmodes : ∀ conf, Occurs [] halfReloaded conf →
        conf = wafConf "detect" ∨ conf = wafConf "block" := by
      intro conf hconf
      simpa [Occurs, halfReloaded, Event.confs, inOrder_wafConfig, eq_comm] using hconf
    have hne : pluginConfigKey codeHashes (wafConf "detect") ≠
        pluginConfigKey codeHashes (wafConf "block") := by decide +kernel
    intro conf conf' hconf hconf' heq
    rcases hmodes conf hconf with rfl | rfl <;> rcases hmodes conf' hconf' with rfl | rfl
    · rfl
    · exact absurd heq hne
    · exact absurd heq.symm hne
    · rfl
  refine ⟨by decide +kernel, fun hold => ?_⟩
  have hstaged : (run codeHashes plainChecks [] halfReloaded).staged = some (wafConfig "block") := rfl
  have hconf : (wafConfig "block").lookup "waf:site" = some (wafConf "block") := rfl
  have hclosed := required_policy_fails_closed codeHashes plainChecks [] halfReloaded hkeys hstaged
    hconf (by decide +kernel)
  rw [hold] at hclosed
  rcases hclosed with ⟨i, hi, -, hconf⟩ | ⟨reason, hreason⟩
  · obtain rfl := Except.ok.inj (Option.some.inj hi)
    exact absurd hconf (by decide +kernel)
  · cases Option.some.inj hreason

end PluginProvider
