import Pingap.AdaptivePlugin
import Pingap.BehaviourPlugin
import Pingap.ConfigReadBack

/-!
# Entries built in one process

Adaptive and behaviour entries are built at boot, to validate candidates and at every
reload. Each has its own configuration, and its key is computed from it. The learners
and the profiles are shared: they stand in a registry and in a store that the first
construction makes, with the settings of its configuration.
-/

namespace PluginEntries

open ConfigIntent MachineArith AdaptiveLearner BehaviourStore BehaviourPlugin List Option
open AbuseScenario (AbuseConfig Digest)
open AbuseRegistry (ScenarioProfile)
open AdaptivePlugin (Effect)

/-! ## Construction -/

/-- What the entries take from elsewhere: how tables are read, rendered and hashed, which
methods are valid, and the functions of the platform. -/
structure Library where
  readAdaptive : PluginConf → Except String AdaptiveConfig
  readBehaviour : PluginConf → Except String BehaviourConfig
  renderAbuse : AbuseConfig → Option String
  methodValid : String → Bool
  sha256 : String → Digest
  hashes : ConfigReadBack.Hashes
  elementary : Elementary

structure PluginError where
  category : String
  message : String
deriving DecidableEq, Repr

def stepNames : List String :=
  ["early_request", "request", "request_body", "proxy_upstream", "upstream_response", "response"]

/-- `get_step_conf_in` for an entry that only knows the request step. -/
def checkStep (category : String) (conf : PluginConf) : Except PluginError Unit :=
  match (conf.lookup "step").bind TomlValue.asStr with
  | none => .ok ()
  | some step =>
    if stepNames.contains step && step == "request" then .ok ()
    else .error ⟨category, "Invalid step(" ++ step ++ "), expect one of: request"⟩

def zero (key : String) : String := "adaptive: `" ++ key ++ "` must be greater than zero"

/-- `AdaptiveConfig::validate`, for numbers that are finite. -/
def validateAdaptive (trustedProxies : Bool) (c : AdaptiveConfig) : Except String Unit :=
  if !c.enabled then .ok ()
  else if c.maxSamplesPerHour = 0 then .error (zero "max_samples_per_hour")
  else if c.minDaysToCalibrate = 0 then .error (zero "min_days_to_calibrate")
  else if c.minConfidence ≤ 0 ∨ 1 < c.minConfidence then .error (zero "min_confidence")
  else if ¬ (c.ratioMinor < c.ratioModerate ∧ c.ratioModerate < c.ratioSignificant ∧
      c.ratioSignificant < c.ratioMajor ∧ c.ratioMajor < c.ratioExtreme) then
    .error "adaptive: ratio thresholds must be strictly ascending"
  else if 1 ≤ c.minFactor ∨ c.minFactor ≤ 0 then
    .error ("adaptive: `min_factor` is " ++ toString c.minFactor ++ "; it must be below 1.0")
  else if c.maxBaselineAgeDays = 0 then .error (zero "max_baseline_age_days")
  else if c.sampleWindow = 0 then .error (zero "sample_window")
  else
    match clientIdentity trustedProxies c.clientIpFromPeer with
    | .error reason => .error ("adaptive: identity gate refused construction: " ++ reason)
    | .ok _ => .ok ()

/-- An adaptive entry. One that is off has a registry of its own, the others share one. -/
structure Adaptive where
  conf : PluginConf
  config : AdaptiveConfig
  own : Option AdaptivePlugin.Registry

/-- A behaviour entry, with the table its key is computed from. -/
structure BehaviourEntry where
  conf : PluginConf
  plugin : Behaviour

inductive Entry where
  | adaptive (a : Adaptive)
  | behaviour (b : BehaviourEntry)

/-- What all entries of the process share, and the entries built so far. -/
structure Process where
  registry : Option AdaptivePlugin.Registry := none
  featureEnabled : Bool := false
  store : Option Store := none
  nextInstance : Nat := 1
  entries : List Entry := []

variable (lib : Library)

/-- The configuration of an adaptive entry, up to where `registry_for` is called. -/
def adaptiveConfig (trustedProxies : Bool) (conf : PluginConf) :
    Except PluginError AdaptiveConfig := do
  let config ← (lib.readAdaptive conf).mapError (PluginError.mk "adaptive")
  (validateAdaptive trustedProxies config).mapError (PluginError.mk "adaptive")
  checkStep "adaptive" conf
  return config

/-- `registry_for`: the shared registry is made once. -/
def registryFor (config : AdaptiveConfig) (p : Process) :
    Option AdaptivePlugin.Registry × Process :=
  let p := { p with featureEnabled := config.enabled }
  if !config.enabled then (some { config := config }, p)
  else (none, { p with registry := p.registry.or (some { config := config }) })

def buildAdaptive (trustedProxies : Bool) (conf : PluginConf) (p : Process) :
    Except PluginError Entry × Process :=
  match adaptiveConfig lib trustedProxies conf with
  | .error e => (.error e, p)
  | .ok config =>
    let (own, p) := registryFor config p
    (.ok (.adaptive ⟨conf, config, own⟩), p)

/-- The switch may not be left out when the abuse section is on. -/
def explicitSwitch (conf : PluginConf) : Except PluginError Unit :=
  let abuse := (conf.lookup "abuse").bind fun v => (v.get "enabled").bind TomlValue.asBool
  if (conf.lookup "enabled").isNone && abuse == some true then
    .error ⟨"behaviour", "top-level enabled must be explicit when abuse is enabled"⟩
  else .ok ()

/-- The configuration of a behaviour entry and its identity, up to where the store is asked
for. -/
def behaviourConfig (trustedProxies : Bool) (conf : PluginConf) :
    Except PluginError (BehaviourConfig × Option IdentitySource) := do
  explicitSwitch conf
  let config ← (lib.readBehaviour conf).mapError (PluginError.mk "behaviour")
  (config.validate lib.methodValid trustedProxies).mapError (PluginError.mk "behaviour")
  if config.enabled then
    let source ← (clientIdentity trustedProxies config.clientIpFromPeer).mapError
      (PluginError.mk "behaviour")
    return (config, some source)
  else return (config, none)

def storeFor (config : BehaviourConfig) (p : Process) : Process :=
  { p with store := p.store.or (some config.newStore) }

def nativeProfile (config : BehaviourConfig) : Except PluginError (Option ScenarioProfile) :=
  if config.enabled && config.abuse.enabled then
    ((ScenarioProfile.new lib.sha256 lib.renderAbuse lib.methodValid
      (config.abuseNamespace.getD "") config.abuse config.maxClients config.maxIntervalSamples
      config.maxUrlKeys).mapError (PluginError.mk "behaviour")).map some
  else .ok none

/-- What can still fail once the store is there. -/
def finishBehaviour (conf : PluginConf) (config : BehaviourConfig) :
    Except PluginError (Option ScenarioProfile) := do
  checkStep "behaviour" conf
  nativeProfile lib config

def buildBehaviour (trustedProxies : Bool) (conf : PluginConf) (p : Process) :
    Except PluginError Entry × Process :=
  match behaviourConfig lib trustedProxies conf with
  | .error e => (.error e, p)
  | .ok (config, identity) =>
    let p := storeFor config p
    match finishBehaviour lib conf config with
    | .error e => (.error e, p)
    | .ok profile =>
      let plugin := ⟨config, identity, profile, "behaviour:" ++ toString p.nextInstance⟩
      (.ok (.behaviour ⟨conf, plugin⟩), { p with nextInstance := (p.nextInstance + 1) % 2 ^ 64 })

/-! ## The process -/

/-- What happens: entries are built, and those that were built meet requests and responses. -/
inductive Event where
  | buildAdaptive (trustedProxies : Bool) (conf : PluginConf)
  | buildBehaviour (trustedProxies : Bool) (conf : PluginConf)
  | adaptiveRequest (entry : Nat) (domain : String) (request : AdaptivePlugin.Request)
  | behaviourRequest (entry : Nat) (request : BehaviourPlugin.Request)
  | behaviourResponse (entry : Nat) (pending : PendingObservation)

inductive Outcome where
  | built (result : Except PluginError Entry)
  | adaptive (effect : Option Effect)
  | behaviour (answer : Answer)
  | done

def Adaptive.registry (a : Adaptive) (p : Process) : Option AdaptivePlugin.Registry :=
  a.own.or p.registry

def enter (result : Except PluginError Entry × Process) : Outcome × Process :=
  (.built result.1, { result.2 with entries := result.2.entries ++ result.1.toOption.toList })

def step (p : Process) : Event → Outcome × Process
  | .buildAdaptive trustedProxies conf => enter (buildAdaptive lib trustedProxies conf p)
  | .buildBehaviour trustedProxies conf => enter (buildBehaviour lib trustedProxies conf p)
  | .adaptiveRequest entry domain request =>
    match p.entries[entry]? with
    | some (.adaptive a) =>
      match a.own, p.registry with
      -- An entry that is off changes nothing in the registry of its own.
      | some own, _ => (.adaptive (own.handleRequest domain request).1, p)
      | none, some registry =>
        let (effect, registry) := registry.handleRequest domain request
        (.adaptive effect, { p with registry := some registry })
      | none, none => (.done, p)
    | _ => (.done, p)
  | .behaviourRequest entry request =>
    match p.entries[entry]?, p.store with
    | some (.behaviour b), some store =>
      let (answer, store) := b.plugin.handleRequest lib.elementary store request
      (.behaviour answer, { p with store := some store })
    | _, _ => (.done, p)
  | .behaviourResponse entry pending =>
    match p.entries[entry]?, p.store with
    | some (.behaviour b), some store =>
      (.done, { p with store := some (b.plugin.handleResponse store pending) })
    | _, _ => (.done, p)

/-! ## Settings that a decision reads -/

/-- The configuration as far as decisions go: how samples persist, the unused sample window
and the assertion about the peer are not read by any. -/
def decisive (c : AdaptiveConfig) : AdaptiveConfig :=
  { c with persist := true, maxBaselineAgeDays := 14, sampleWindow := 0, clientIpFromPeer := false }

/-- Every learner has the configuration and the cap of its registry. -/
def Uniform (registry : AdaptivePlugin.Registry) : Prop :=
  ∀ domain l, registry.profiles.lookup domain = some l →
    l.config = registry.config ∧
      ∀ hour, (l.profiles hour).maxSamples = max registry.config.maxSamplesPerHour 1

section registry

variable {registry : AdaptivePlugin.Registry}

theorem config_handleRequest : (registry.handleRequest domain r).2.config = registry.config := by
  unfold AdaptivePlugin.Registry.handleRequest
  split
  · rfl
  split
  · rfl
  simp only
  split
  all_goals rfl

theorem maxSamples_record {l : Learner} :
    ((l.record hour x b d).profiles other).maxSamples = (l.profiles other).maxSamples := by
  unfold Learner.record
  split
  · rfl
  show (Function.update l.profiles hour _ other).maxSamples = _
  by_cases hother : other = hour
  · subst hother
    rw [Function.update_self]
    rfl
  · rw [Function.update_of_ne hother]

theorem uniform_handleRequest (h : Uniform registry) (domain : String)
    (r : AdaptivePlugin.Request) : Uniform (registry.handleRequest domain r).2 := by
  have hlearner : (registry.learner domain).config = registry.config ∧ ∀ hour,
      ((registry.learner domain).profiles hour).maxSamples =
        max registry.config.maxSamplesPerHour 1 := by
    unfold AdaptivePlugin.Registry.learner
    cases hfound : registry.profiles.lookup domain with
    | none => exact ⟨rfl, fun _ => rfl⟩
    | some l => exact h domain l hfound
  have htrained : (AdaptivePlugin.Registry.train (registry.learner domain) r).1.config =
      registry.config ∧ ∀ hour,
        ((AdaptivePlugin.Registry.train (registry.learner domain) r).1.profiles hour).maxSamples =
          max registry.config.maxSamplesPerHour 1 := by
    refine ⟨?_, fun hour => ?_⟩
    · rw [AdaptivePlugin.Registry.train, AdaptivePlugin.config_record]
      exact hlearner.1
    · rw [AdaptivePlugin.Registry.train, maxSamples_record]
      exact hlearner.2 hour
  unfold AdaptivePlugin.Registry.handleRequest
  split
  · exact h
  split
  · exact h
  simp only
  split
  all_goals
    intro other l hl
    simp only [AdaptivePlugin.Registry.countModulated, AList.lookup_insert_if] at hl
    split at hl
    · cases hl
      exact htrained
    · exact h other l hl

end registry

/-! ## What the first construction decides -/

/-- The configuration an adaptive construction brings to the registry. -/
def Event.adaptiveConfig? : Event → Option AdaptiveConfig
  | .buildAdaptive trustedProxies conf => (adaptiveConfig lib trustedProxies conf).toOption
  | _ => none

/-- The configuration a behaviour construction brings to the store, whether or not the
construction succeeds afterwards. -/
def Event.behaviourConfig? : Event → Option BehaviourConfig
  | .buildBehaviour trustedProxies conf =>
    (behaviourConfig lib trustedProxies conf).toOption.map Prod.fst
  | _ => none

def firstEnabled (es : List Event) : Option AdaptiveConfig :=
  (es.filterMap (Event.adaptiveConfig? lib)).find? AdaptiveConfig.enabled

def firstStored (es : List Event) : Option BehaviourConfig :=
  (es.filterMap (Event.behaviourConfig? lib)).head?

theorem firstEnabled_cons :
    firstEnabled lib (e :: es) =
      ((e.adaptiveConfig? lib).filter AdaptiveConfig.enabled).or (firstEnabled lib es) := by
  unfold firstEnabled
  rw [filterMap_cons]
  cases e.adaptiveConfig? lib with
  | none => rfl
  | some c =>
    by_cases hc : c.enabled = true
    · rw [filter_some, if_pos hc, find?_cons_of_pos hc, some_or]
    · rw [filter_some, if_neg hc, find?_cons_of_neg hc, none_or]

theorem firstStored_cons :
    firstStored lib (e :: es) = (e.behaviourConfig? lib).or (firstStored lib es) := by
  unfold firstStored
  rw [filterMap_cons]
  cases e.behaviourConfig? lib with
  | none | some => rfl

theorem firstEnabled_append :
    firstEnabled lib (es ++ fs) = (firstEnabled lib es).or (firstEnabled lib fs) := by
  unfold firstEnabled
  rw [filterMap_append, find?_append]

theorem firstStored_append :
    firstStored lib (es ++ fs) = (firstStored lib es).or (firstStored lib fs) := by
  unfold firstStored
  rw [filterMap_append, head?_append]

/-- The shared registry is that of the first construction of an entry that is on. -/
theorem registry_step :
    (step lib p e).2.registry.map AdaptivePlugin.Registry.config =
      (p.registry.map AdaptivePlugin.Registry.config).or
        ((e.adaptiveConfig? lib).filter AdaptiveConfig.enabled) := by
  cases e with
  | buildAdaptive trustedProxies conf =>
    simp only [step, enter, buildAdaptive, Event.adaptiveConfig?]
    cases adaptiveConfig lib trustedProxies conf with
    | error e => simp [Except.toOption]
    | ok config =>
      simp only [registryFor, Except.toOption, filter_some]
      cases hc : config.enabled with
      | true => cases p.registry <;> simp
      | false => simp
  | buildBehaviour trustedProxies conf =>
    simp only [step, enter, buildBehaviour, Event.adaptiveConfig?, filter_none, or_none]
    split
    · rfl
    · split
      all_goals rfl
  | adaptiveRequest entry domain request =>
    simp only [step, Event.adaptiveConfig?, filter_none, or_none]
    split
    · split
      · rfl
      · rename_i registry hregistry
        rw [hregistry]
        simp only [map_some, config_handleRequest]
      · rfl
    · rfl
  | behaviourRequest | behaviourResponse =>
    simp only [step, Event.adaptiveConfig?, filter_none, or_none]
    split
    all_goals rfl

/-- The store is that of the first construction that asks for it. -/
theorem store_step :
    (step lib p e).2.store.map Store.limits =
      (p.store.map Store.limits).or ((e.behaviourConfig? lib).map fun c => c.newStore.limits) := by
  cases e with
  | buildAdaptive trustedProxies conf =>
    simp only [step, enter, buildAdaptive, Event.behaviourConfig?, map_none, or_none]
    split
    · rfl
    unfold registryFor
    simp only
    split
    all_goals rfl
  | buildBehaviour trustedProxies conf =>
    simp only [step, enter, buildBehaviour, Event.behaviourConfig?]
    cases behaviourConfig lib trustedProxies conf with
    | error e => simp [Except.toOption]
    | ok found =>
      simp only
      split
      all_goals cases hstore : p.store <;> simp [storeFor, Except.toOption, hstore]
  | adaptiveRequest entry domain request =>
    simp only [step, Event.behaviourConfig?, map_none, or_none]
    split
    · split
      all_goals rfl
    · rfl
  | behaviourRequest entry request =>
    simp only [step, Event.behaviourConfig?, map_none, or_none]
    split
    · rename_i b store hentry hstore
      simp only [hstore, map_some, Behaviour.limits_handleRequest]
    · rfl
  | behaviourResponse entry pending =>
    simp only [step, Event.behaviourConfig?, map_none, or_none]
    split
    · rename_i b store hentry hstore
      simp only [hstore, map_some, Behaviour.limits_handleResponse]
    · rfl

/-- What is shared is of one make. -/
structure Shared (p : Process) : Prop where
  registry : ∀ registry, p.registry = some registry → Uniform registry
  store : ∀ store, p.store = some store → store.Uniform

theorem shared_start : Shared {} := ⟨(fun _ h => by cases h), (fun _ h => by cases h)⟩

theorem shared_step (h : Shared p) : Shared (step lib p e).2 := by
  cases e with
  | buildAdaptive trustedProxies conf =>
    simp only [step, enter, buildAdaptive]
    split
    · exact ⟨h.registry, h.store⟩
    unfold registryFor
    simp only
    split
    · exact ⟨h.registry, h.store⟩
    refine ⟨fun registry hregistry => ?_, h.store⟩
    cases hold : p.registry with
    | none =>
      simp only [hold, none_or, Option.some.injEq] at hregistry
      cases hregistry
      intro domain l hl
      cases hl
    | some old =>
      simp only [hold, some_or, Option.some.injEq] at hregistry
      exact hregistry ▸ h.registry old hold
  | buildBehaviour trustedProxies conf =>
    have hstored (config : BehaviourConfig) : Shared (storeFor config p) := by
      refine ⟨h.registry, fun store hstore => ?_⟩
      cases hold : p.store with
      | none =>
        simp only [storeFor, hold, none_or, Option.some.injEq] at hstore
        exact hstore ▸ Store.uniform_new
      | some old =>
        simp only [storeFor, hold, some_or, Option.some.injEq] at hstore
        exact hstore ▸ h.store old hold
    simp only [step, enter, buildBehaviour]
    split
    · exact ⟨h.registry, h.store⟩
    rename_i config identity hconfig
    split
    all_goals exact ⟨(hstored config).registry, (hstored config).store⟩
  | adaptiveRequest entry domain request =>
    simp only [step]
    split
    · split
      · exact h
      · rename_i registry hshared hregistry
        refine ⟨fun after hafter => ?_, h.store⟩
        cases hafter
        exact uniform_handleRequest (h.registry registry hregistry) domain request
      · exact h
    · exact h
  | behaviourRequest entry request =>
    simp only [step]
    split
    · rename_i b store hentry hstore
      refine ⟨h.registry, fun after hafter => ?_⟩
      cases hafter
      exact Behaviour.uniform_handleRequest _ _ (h.store store hstore) request
    · exact h
  | behaviourResponse entry pending =>
    simp only [step]
    split
    · rename_i b store hentry hstore
      refine ⟨h.registry, fun after hafter => ?_⟩
      cases hafter
      exact Behaviour.uniform_handleResponse (h.store store hstore)
    · exact h

/-! ## Runs -/

def run (es : List Event) : Process := Trace.final (step lib) {} es

theorem shared_run (es : List Event) : Shared (run lib es) :=
  Trace.final_invariant (step lib) Shared (fun _ _ h => shared_step lib h) es {} shared_start

theorem registry_run (es : List Event) :
    (run lib es).registry.map AdaptivePlugin.Registry.config = firstEnabled lib es := by
  have hfrom : ∀ p, (Trace.final (step lib) p es).registry.map AdaptivePlugin.Registry.config =
      (p.registry.map AdaptivePlugin.Registry.config).or (firstEnabled lib es) := by
    induction es with
    | nil => exact fun p => or_none.symm
    | cons e es ih =>
      intro p
      rw [Trace.final_cons, ih, registry_step, firstEnabled_cons, Option.or_assoc]
  exact hfrom {}

theorem store_run (es : List Event) :
    (run lib es).store.map Store.limits = (firstStored lib es).map fun c => c.newStore.limits := by
  have hfrom : ∀ p, (Trace.final (step lib) p es).store.map Store.limits =
      (p.store.map Store.limits).or ((firstStored lib es).map fun c => c.newStore.limits) := by
    induction es with
    | nil => exact fun p => or_none.symm
    | cons e es ih =>
      intro p
      rw [Trace.final_cons, ih, store_step, firstStored_cons, Option.or_assoc, map_or]
  exact hfrom {}

/-! ## Entries under their own configuration -/

/-- The registry an entry works on decides by its settings: those it reads itself, those of
its learners, and the cap of their windows. -/
structure DecidesBy (registry : AdaptivePlugin.Registry) (c : AdaptiveConfig) : Prop where
  settings : decisive registry.config = decisive c
  learners : ∀ domain l, registry.profiles.lookup domain = some l →
    decisive l.config = decisive c ∧
      ∀ hour, (l.profiles hour).maxSamples = max c.maxSamplesPerHour 1

theorem decidesBy_iff (h : Uniform registry) (c : AdaptiveConfig) :
    DecidesBy registry c ↔ decisive registry.config = decisive c := by
  refine ⟨DecidesBy.settings, fun heq => ⟨heq, fun domain l hl => ?_⟩⟩
  obtain ⟨hconfig, hcap⟩ := h domain l hl
  have hsamples : registry.config.maxSamplesPerHour = c.maxSamplesPerHour := by
    have hfield := congrArg AdaptiveConfig.maxSamplesPerHour heq
    exact hfield
  exact ⟨by rw [hconfig, heq], fun hour => by rw [hcap, hsamples]⟩

/-- The store profiles clients by the window and the caps of a configuration. -/
structure ProfilesBy (store : Store) (c : BehaviourConfig) : Prop where
  limits : store.limits = c.newStore.limits
  profiles : ∀ key profile, store.inner.lookup key = some profile →
    profile.caps = c.newStore.caps

theorem profilesBy_iff (h : store.Uniform) (c : BehaviourConfig) :
    ProfilesBy store c ↔ store.limits = c.newStore.limits := by
  refine ⟨ProfilesBy.limits, fun heq => ⟨heq, fun key profile hfound => ?_⟩⟩
  rw [h key profile hfound]
  exact congrArg Prod.snd heq

/-- What an entry that is on decides by is its own configuration. -/
def Entry.Governed (p : Process) : Entry → Prop
  | .adaptive a => a.config.enabled = true →
    ∃ registry, a.registry p = some registry ∧ DecidesBy registry a.config
  | .behaviour b => b.plugin.config.enabled = true →
    ∃ store, p.store = some store ∧ ProfilesBy store b.plugin.config

/-- The configuration of an entry, with all that is derived from it, is the one of the table
that its key is computed from. -/
def Entry.ReadFromKey : Entry → Prop
  | .adaptive a => lib.readAdaptive a.conf = .ok a.config
  | .behaviour b => lib.readBehaviour b.conf = .ok b.plugin.config ∧
    nativeProfile lib b.plugin.config = .ok b.plugin.nativeProfile

/-- The first construction that made what an entry shares, if there was one before it, had the
settings of the entry. -/
def Entry.FirstAlike (before : List Event) : Entry → Prop
  | .adaptive a => a.config.enabled = true → ∀ c, firstEnabled lib before = some c →
    decisive c = decisive a.config
  | .behaviour b => b.plugin.config.enabled = true → ∀ c, firstStored lib before = some c →
    c.newStore.limits = b.plugin.config.newStore.limits

/-- What was built, and by which construction. -/
inductive BuiltBy (e : Event) : Entry → Prop
  | adaptive {trustedProxies : Bool} {conf : PluginConf} {config : AdaptiveConfig} :
    e = .buildAdaptive trustedProxies conf → adaptiveConfig lib trustedProxies conf = .ok config →
    BuiltBy e (.adaptive ⟨conf, config, if config.enabled then none else some { config := config }⟩)
  | behaviour {trustedProxies : Bool} {conf : PluginConf} {config : BehaviourConfig}
    {identity : Option IdentitySource} {profile : Option ScenarioProfile} {key : String} :
    e = .buildBehaviour trustedProxies conf →
    behaviourConfig lib trustedProxies conf = .ok (config, identity) →
    nativeProfile lib config = .ok profile →
    BuiltBy e (.behaviour ⟨conf, config, identity, profile, key⟩)

theorem builtBy_of_step (h : (step lib p e).1 = .built (.ok entry)) : BuiltBy lib e entry := by
  cases e with
  | buildAdaptive trustedProxies conf =>
    simp only [step, enter, buildAdaptive] at h
    split at h
    · cases h
    rename_i config hconfig
    have hbuilt : BuiltBy lib (.buildAdaptive trustedProxies conf) (.adaptive
        ⟨conf, config, if config.enabled then none else some { config := config }⟩) :=
      .adaptive rfl hconfig
    cases henabled : config.enabled
    all_goals
      simp only [registryFor, henabled, Bool.not_true, Bool.not_false, Bool.false_eq_true, if_true,
        if_false, Outcome.built.injEq, Except.ok.injEq] at h hbuilt
      exact h ▸ hbuilt
  | buildBehaviour trustedProxies conf =>
    simp only [step, enter, buildBehaviour] at h
    split at h
    · cases h
    rename_i config identity hconfig
    split at h
    · cases h
    rename_i profile hfinish
    simp only [Outcome.built.injEq, Except.ok.injEq] at h
    subst h
    refine .behaviour rfl hconfig ?_
    simp only [finishBehaviour, bind, Except.bind] at hfinish
    split at hfinish
    · cases hfinish
    · exact hfinish
  | adaptiveRequest entry domain request =>
    simp only [step] at h
    split at h
    · split at h
      all_goals cases h
    · cases h
  | behaviourRequest | behaviourResponse =>
    simp only [step] at h
    split at h
    all_goals cases h

theorem read_of_adaptiveConfig (h : adaptiveConfig lib trustedProxies conf = .ok config) :
    lib.readAdaptive conf = .ok config := by
  unfold adaptiveConfig at h
  cases hread : lib.readAdaptive conf with
  | error e => simp [hread, Except.mapError, bind, Except.bind] at h
  | ok read =>
    simp only [hread, Except.mapError, bind, Except.bind] at h
    split at h
    · cases h
    split at h
    · cases h
    · cases h
      rfl

theorem read_of_behaviourConfig
    (h : behaviourConfig lib trustedProxies conf = .ok (config, identity)) :
    lib.readBehaviour conf = .ok config := by
  unfold behaviourConfig at h
  cases hread : lib.readBehaviour conf with
  | error e =>
    simp only [hread, Except.mapError, bind, Except.bind] at h
    split at h
    all_goals cases h
  | ok read =>
    simp only [hread, Except.mapError, bind, Except.bind] at h
    split at h
    · cases h
    split at h
    · cases h
    split at h
    · split at h
      · cases h
      · cases h
        rfl
    · cases h
      rfl

theorem adaptive_governed_iff (before after : List Event)
    (hconfig : adaptiveConfig lib trustedProxies conf = .ok config)
    (hown : own = if config.enabled then none else some { config := config }) :
    Entry.Governed (run lib (before ++ .buildAdaptive trustedProxies conf :: after))
        (.adaptive ⟨conf, config, own⟩) ↔
      Entry.FirstAlike lib before (.adaptive ⟨conf, config, own⟩) := by
  refine forall_congr' fun henabled => ?_
  rw [henabled] at hown
  subst hown
  -- The registry is the first one, and after this construction there is one.
  have hfirst := registry_run lib (before ++ .buildAdaptive trustedProxies conf :: after)
  have hbrought : (Event.buildAdaptive trustedProxies conf).adaptiveConfig? lib = some config := by
    rw [Event.adaptiveConfig?, hconfig]
    rfl
  rw [firstEnabled_append, firstEnabled_cons, hbrought, filter_some, if_pos henabled,
    some_or] at hfirst
  have huniform := (shared_run lib (before ++ .buildAdaptive trustedProxies conf :: after)).registry
  have hregistry : Adaptive.registry ⟨conf, config, none⟩
      (run lib (before ++ .buildAdaptive trustedProxies conf :: after)) =
        (run lib (before ++ .buildAdaptive trustedProxies conf :: after)).registry := rfl
  simp only [if_true] at hregistry ⊢
  rw [hregistry]
  cases hbefore : firstEnabled lib before with
  | none =>
    rw [hbefore, none_or] at hfirst
    obtain ⟨registry, hsome, hsettings⟩ := map_eq_some_iff.mp hfirst
    have hdecides := (decidesBy_iff (huniform registry hsome) config).mpr (by rw [hsettings])
    exact ⟨(fun _ c hc => by cases hc), fun _ => ⟨registry, hsome, hdecides⟩⟩
  | some first =>
    rw [hbefore, some_or] at hfirst
    obtain ⟨registry, hsome, hsettings⟩ := map_eq_some_iff.mp hfirst
    constructor
    · rintro ⟨found, hfound, hdecides⟩ c hc
      rw [hsome] at hfound
      cases hfound
      cases hc
      rw [← hsettings]
      exact hdecides.settings
    · intro halike
      refine ⟨registry, hsome, (decidesBy_iff (huniform registry hsome) config).mpr ?_⟩
      rw [hsettings]
      exact halike first rfl

theorem behaviour_governed_iff (before after : List Event)
    (hconfig : behaviourConfig lib trustedProxies conf = .ok (plugin.config, plugin.identity)) :
    Entry.Governed (run lib (before ++ .buildBehaviour trustedProxies conf :: after))
        (.behaviour ⟨conf, plugin⟩) ↔
      Entry.FirstAlike lib before (.behaviour ⟨conf, plugin⟩) := by
  refine forall_congr' fun _ => ?_
  have hfirst := store_run lib (before ++ .buildBehaviour trustedProxies conf :: after)
  have hbrought : (Event.buildBehaviour trustedProxies conf).behaviourConfig? lib =
      some plugin.config := by
    rw [Event.behaviourConfig?, hconfig]
    rfl
  rw [firstStored_append, firstStored_cons, hbrought, some_or] at hfirst
  have huniform := (shared_run lib (before ++ .buildBehaviour trustedProxies conf :: after)).store
  cases hbefore : firstStored lib before with
  | none =>
    rw [hbefore, none_or] at hfirst
    obtain ⟨store, hsome, hlimits⟩ := map_eq_some_iff.mp hfirst
    have hprofiles := (profilesBy_iff (huniform store hsome) plugin.config).mpr hlimits
    exact ⟨(fun _ c hc => by cases hc), fun _ => ⟨store, hsome, hprofiles⟩⟩
  | some first =>
    rw [hbefore, some_or] at hfirst
    obtain ⟨store, hsome, hlimits⟩ := map_eq_some_iff.mp hfirst
    constructor
    · rintro ⟨found, hfound, hprofiles⟩ c hc
      rw [hsome] at hfound
      cases hfound
      cases hc
      exact hlimits.symm.trans hprofiles.limits
    · intro halike
      refine ⟨store, hsome, (profilesBy_iff (huniform store hsome) plugin.config).mpr ?_⟩
      exact hlimits.trans (halike first rfl)

/-- An entry keeps the configuration of its key, but decides by it, at any time later, exactly
if the first construction that made what it shares had the same settings. -/
theorem own_configuration_governs_iff (before after : List Event) {e : Event} {entry : Entry}
    (h : (step lib (run lib before) e).1 = .built (.ok entry)) :
    entry.ReadFromKey lib ∧
      (entry.Governed (run lib (before ++ e :: after)) ↔ entry.FirstAlike lib before) := by
  cases builtBy_of_step lib h with
  | adaptive he hconfig =>
    subst he
    exact ⟨read_of_adaptiveConfig lib hconfig, adaptive_governed_iff lib before after hconfig rfl⟩
  | behaviour he hconfig hprofile =>
    subst he
    exact ⟨⟨read_of_behaviourConfig lib hconfig, hprofile⟩,
      behaviour_governed_iff lib before after hconfig⟩

/-- A library that reads the fields of the runs below. -/
def sampleLibrary : Library where
  readAdaptive conf :=
    let days := ((conf.lookup "min_days_to_calibrate").bind TomlValue.asInteger).getD 7
    .ok { enabled := ((conf.lookup "enabled").bind TomlValue.asBool).getD false
          minDaysToCalibrate := days.toNat }
  readBehaviour conf :=
    let clients := ((conf.lookup "max_clients").bind TomlValue.asInteger).getD 5000
    .ok { enabled := ((conf.lookup "enabled").bind TomlValue.asBool).getD false
          maxClients := clients.toNat }
  renderAbuse _ := some ""
  methodValid _ := true
  sha256 text := text.length
  hashes := ⟨String.length, fun _ => "", fun _ => 0, fun _ => ""⟩
  elementary := ⟨id, id⟩

/-- An entry that is calibrated after so many days. -/
def calibratedAfter (days : Nat) : PluginConf :=
  [("category", .string "adaptive"), ("enabled", .boolean true),
    ("min_days_to_calibrate", .integer days)]

/-- An entry that profiles so many clients of a domain. -/
def profiling (clients : Nat) : PluginConf :=
  [("category", .string "behaviour"), ("enabled", .boolean true),
    ("max_clients", .integer clients)]

theorem adaptiveConfig_calibratedAfter (h : 0 < days) :
    adaptiveConfig sampleLibrary true (calibratedAfter days) =
      .ok { enabled := true, minDaysToCalibrate := days } := by
  have hread : sampleLibrary.readAdaptive (calibratedAfter days) =
      .ok { enabled := true, minDaysToCalibrate := days } := rfl
  have hvalid : validateAdaptive true { enabled := true, minDaysToCalibrate := days } = .ok () := by
    have hdays : days ≠ 0 := Nat.ne_of_gt h
    norm_num [validateAdaptive, clientIdentity, hdays]
  have hstep : checkStep "adaptive" (calibratedAfter days) = .ok () := rfl
  simp only [adaptiveConfig, hread, Except.mapError, hvalid, hstep, bind, Except.bind]
  rfl

theorem step_calibratedAfter (h : 0 < days) (p : Process) :
    (step sampleLibrary p (.buildAdaptive true (calibratedAfter days))).1 = .built (.ok (.adaptive
      ⟨calibratedAfter days, { enabled := true, minDaysToCalibrate := days }, none⟩)) := by
  simp only [step, enter, buildAdaptive, adaptiveConfig_calibratedAfter h]
  rfl

theorem behaviourConfig_profiling (h : 0 < clients) :
    behaviourConfig sampleLibrary true (profiling clients) =
      .ok ({ enabled := true, maxClients := clients }, some .trustedProxies) := by
  have hread : sampleLibrary.readBehaviour (profiling clients) =
      .ok { enabled := true, maxClients := clients } := rfl
  have hvalid : BehaviourConfig.validate sampleLibrary.methodValid true
      { enabled := true, maxClients := clients } = .ok () := by
    have hclients : clients ≠ 0 := Nat.ne_of_gt h
    simp [BehaviourConfig.validate, BehaviourConfig.validateAbuse, BehaviourConfig.capacities,
      SignalWeights.total, SignalWeights.values, clientIdentity, hclients, bind, Except.bind]
  have hswitch : explicitSwitch (profiling clients) = .ok () := rfl
  simp only [behaviourConfig, hread, Except.mapError, hvalid, hswitch, bind, Except.bind]
  rfl

theorem step_profiling (h : 0 < clients) {p : Process} :
    (step sampleLibrary p (.buildBehaviour true (profiling clients))).1 = .built (.ok (.behaviour
      ⟨profiling clients, { enabled := true, maxClients := clients }, some .trustedProxies, none,
        "behaviour:" ++ toString p.nextInstance⟩)) := by
  have hfinish : finishBehaviour sampleLibrary (profiling clients)
      { enabled := true, maxClients := clients } = .ok none := rfl
  simp only [step, enter, buildBehaviour, behaviourConfig_profiling h, hfinish]
  rfl

theorem firstEnabled_calibratedAfter (h : 0 < days) :
    firstEnabled sampleLibrary (.buildAdaptive true (calibratedAfter days) :: before) =
      some { enabled := true, minDaysToCalibrate := days } := by
  rw [firstEnabled_cons, Event.adaptiveConfig?, adaptiveConfig_calibratedAfter h]
  rfl

/-- An entry decides by its own configuration after another one with the same settings. -/
theorem own_configuration_governs_iff_again :
    let e := Event.buildAdaptive true (calibratedAfter 1)
    ∃ entry, (step sampleLibrary (run sampleLibrary [e]) e).1 = .built (.ok entry) ∧
      entry.Governed (run sampleLibrary ([e] ++ e :: [])) := by
  intro e
  have hbuilt := step_calibratedAfter Nat.one_pos (run sampleLibrary [e])
  refine ⟨_, hbuilt, (own_configuration_governs_iff sampleLibrary [e] [] hbuilt).2.mpr ?_⟩
  intro _ c hc
  cases (firstEnabled_calibratedAfter Nat.one_pos).symm.trans hc
  rfl

/-- An entry that wants a single day is calibrated after seven, and one that wants ten clients
gets five thousand, because entries with these settings were built before. -/
theorem later_settings_ignored :
    let before := [Event.buildAdaptive true (calibratedAfter 7),
      Event.buildBehaviour true (profiling 5000)]
    let adaptive := Event.buildAdaptive true (calibratedAfter 1)
    let behaviour := Event.buildBehaviour true (profiling 10)
    (∃ entry, (step sampleLibrary (run sampleLibrary before) adaptive).1 = .built (.ok entry) ∧
      ¬ entry.Governed (run sampleLibrary (before ++ [adaptive]))) ∧
    ∃ entry, (step sampleLibrary (run sampleLibrary before) behaviour).1 = .built (.ok entry) ∧
      ¬ entry.Governed (run sampleLibrary (before ++ [behaviour])) := by
  intro before adaptive behaviour
  constructor
  · have hfirst : firstEnabled sampleLibrary before =
        some { enabled := true, minDaysToCalibrate := 7 } :=
      firstEnabled_calibratedAfter (by decide)
    refine ⟨_, step_calibratedAfter Nat.one_pos _, fun hgoverned => ?_⟩
    have hconfig := adaptiveConfig_calibratedAfter Nat.one_pos
    have halike := (adaptive_governed_iff sampleLibrary before [] hconfig rfl).mp hgoverned
    have hdays := congrArg AdaptiveConfig.minDaysToCalibrate (halike rfl _ hfirst)
    exact absurd hdays (by decide)
  · have hfirst : firstStored sampleLibrary before =
        some { enabled := true, maxClients := 5000 } := by
      have hmany := behaviourConfig_profiling (by decide : 0 < 5000)
      have hnone : (Event.buildAdaptive true (calibratedAfter 7)).behaviourConfig? sampleLibrary =
          none := rfl
      rw [firstStored_cons, hnone, none_or, firstStored_cons, Event.behaviourConfig?, hmany]
      rfl
    refine ⟨_, step_profiling (by decide : 0 < 10), fun hgoverned => ?_⟩
    have hconfig := behaviourConfig_profiling (by decide : 0 < 10)
    have halike := (behaviour_governed_iff sampleLibrary before [] hconfig).mp hgoverned
    have hclients := congrArg Prod.fst (halike rfl _ hfirst)
    exact absurd hclients (by decide)

end PluginEntries
