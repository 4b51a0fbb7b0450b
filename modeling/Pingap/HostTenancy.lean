import Pingap.AbuseRegistry
import Pingap.HotReload

/-!
# Tenants of hosts

The hosts that locations are restricted to are read twice: the router compiles them
into patterns, and the registered set takes them as the names of tenants. The two
agree on hosts that are spelled out. A wildcard or a regular expression registers its
own text, and the hosts it matches stay strangers.
-/

namespace HostTenancy

open ConfigIntent ConfigReadBack LocationMatch HotReload
open DomainStore (HostPolicy Limits normalise OVERFLOW OVERFLOW_NAME)
open AbuseRegistry AbuseScenario

/-! ## Normal forms -/

def withoutPort (s : List Char) : List Char :=
  if ']' ∈ s then Text.upToLast ']' s else Text.before ':' s

theorem withoutPort_toAsciiLowercase :
    withoutPort (Text.toAsciiLowercase s) = Text.toAsciiLowercase (withoutPort s) := by
  have hbracket : ∀ c, Text.asciiLower c = ']' ↔ c = ']' := fun c =>
    Text.asciiLower_eq_iff (.inr ⟨by decide, by decide⟩)
  have hcolon : ∀ c, Text.asciiLower c = ':' ↔ c = ':' := fun c =>
    Text.asciiLower_eq_iff (.inl (by decide))
  have hmem : ']' ∈ Text.toAsciiLowercase s ↔ ']' ∈ s := by
    simp only [Text.toAsciiLowercase, List.mem_map, hbracket, exists_eq_right]
  have hne : ∀ (d : Char), (∀ c, Text.asciiLower c = d ↔ c = d) →
      (fun c => c != d) ∘ Text.asciiLower = fun c => c != d := by
    intro d hd
    funext c
    simp only [Function.comp_apply, bne, beq_eq_decide, hd]
  rw [withoutPort, withoutPort]
  simp only [hmem]
  split
  · rw [Text.upToLast, Text.upToLast, Text.toAsciiLowercase, ← List.map_reverse, List.dropWhile_map,
      hne _ hbracket, ← List.map_reverse, Text.toAsciiLowercase]
  · rw [Text.before, Text.before, Text.toAsciiLowercase, List.takeWhile_map, hne _ hcolon,
      Text.toAsciiLowercase]

theorem normalise_eq : normalise host =
    String.ofList (withoutPort (Text.toAsciiLowercase (Text.trim host.toList))) := by
  rw [withoutPort_toAsciiLowercase]
  rfl

/-- Names that differ in case and in the space around them have one normal form. -/
theorem normalise_congr
    (h : Text.toAsciiLowercase (Text.trim a.toList) = Text.toAsciiLowercase (Text.trim b.toList)) :
    normalise a = normalise b := by
  rw [normalise_eq, normalise_eq, h]

/-! ## The registered set -/

/-- The names that some hosts are registered under. -/
def tenants (hosts : List String) : List String :=
  (hosts.map normalise).filter fun key => !key.isEmpty

/-- What the policy of some hosts holds. -/
structure Names (keys : List String) (p : HostPolicy) : Prop where
  known : ∀ key, (p.index.lookup key).isSome ↔ key ∈ keys
  named : ∀ key slot, p.index.lookup key = some slot →
    ∃ i, slot = i % 2 ^ 32 ∧ p.names[i]? = some key

theorem names_empty : Names [] HostPolicy.empty :=
  ⟨fun key => by simp [HostPolicy.empty], fun key slot h => by simp [HostPolicy.empty] at h⟩

theorem names_register (hp : Names keys p) : Names (keys ++ tenants [host]) (p.register host) := by
  rw [HostPolicy.register]
  cases hkey : (normalise host).isEmpty with
  | true =>
    have htenants : tenants [host] = [] := by simp [tenants, hkey]
    rw [htenants, List.append_nil]
    exact hp
  | false =>
    have htenants : tenants [host] = [normalise host] := by simp [tenants, hkey]
    rw [htenants]
    cases hknown : (p.index.lookup (normalise host)).isSome with
    | true =>
      refine ⟨fun key => ?_, hp.named⟩
      have hmem := (hp.known (normalise host)).mp hknown
      rw [List.mem_append, List.mem_singleton]
      refine (hp.known key).trans ⟨.inl, ?_⟩
      rintro (h | rfl)
      · exact h
      · exact hmem
    | false =>
      simp only [Bool.or_self, Bool.false_eq_true, if_false]
      refine ⟨fun key => ?_, fun key slot h => ?_⟩
      · rw [AList.lookup_insert_if, List.mem_append, List.mem_singleton]
        split
        · rename_i heq
          simp [heq]
        · rename_i hne
          rw [hp.known, or_iff_left hne]
      · rw [AList.lookup_insert_if] at h
        split at h
        · rename_i heq
          exact ⟨p.names.length, (Option.some.inj h).symm, by rw [heq]; simp⟩
        obtain ⟨i, hslot, hi⟩ := hp.named key slot h
        refine ⟨i, hslot, ?_⟩
        rw [List.getElem?_append_left (List.getElem?_eq_some_iff.mp hi).1]
        exact hi

theorem names_new (hosts : List String) : Names (tenants hosts) (HostPolicy.new hosts) := by
  have hfold : ∀ (rest : List String) (keys : List String) (p : HostPolicy), Names keys p →
      Names (keys ++ tenants rest) (rest.foldl HostPolicy.register p) := by
    intro rest
    induction rest with
    | nil =>
      intro keys p hp
      rw [tenants, List.map_nil, List.filter_nil, List.append_nil]
      exact hp
    | cons host rest ih =>
      intro keys p hp
      have hsplit : tenants (host :: rest) = tenants [host] ++ tenants rest := by
        simp only [tenants, List.map_cons, List.map_nil, ← List.filter_append, List.singleton_append]
      rw [List.foldl_cons, hsplit, ← List.append_assoc]
      exact ih _ _ (names_register hp)
  exact hfold hosts [] HostPolicy.empty names_empty

def spelling (keys : List String) (host : String) : String :=
  if host ∈ keys then host else normalise host

section classified

variable {keys : List String} {p : HostPolicy} {host : String}

theorem lookup_spelling (hp : Names keys p) :
    (p.index.lookup host).or (p.index.lookup (normalise host)) =
      p.index.lookup (spelling keys host) := by
  by_cases hmem : host ∈ keys
  · obtain ⟨slot, hslot⟩ := Option.isSome_iff_exists.mp ((hp.known host).mpr hmem)
    rw [spelling, if_pos hmem, hslot]
    rfl
  · have hnone : p.index.lookup host = none := by
      rw [← Option.not_isSome_iff_eq_none, hp.known]
      exact hmem
    rw [spelling, if_neg hmem, hnone, Option.none_or]

/-- With room for all names, a slot is the position of the name. -/
theorem slot_of_name (hp : Names keys p) (hroom : p.registered ≤ ({} : Limits).maxDomains)
    (h : p.index.lookup key = some slot) : slot < 256 ∧ p.names[slot]? = some key := by
  obtain ⟨i, hslot, hi⟩ := hp.named key slot h
  have hlt : i < p.names.length := (List.getElem?_eq_some_iff.mp hi).1
  have hbound : p.names.length ≤ 256 := hroom
  have heq : slot = i := by omega
  rw [heq]
  exact ⟨by omega, hi⟩

theorem isOverflow_iff (hp : Names keys p) (hroom : p.registered ≤ ({} : Limits).maxDomains) :
    (p.classify host).isOverflow = true ↔ spelling keys host ∉ keys := by
  rw [← hp.known, HostPolicy.classify, lookup_spelling hp]
  cases h : p.index.lookup (spelling keys host) with
  | none => simp [DomainStore.Domain.isOverflow]
  | some slot =>
    have hlt := (slot_of_name hp hroom h).1
    have hne : slot ≠ OVERFLOW := by
      rw [OVERFLOW, MachineArith.u32Max]
      omega
    simp [DomainStore.Domain.isOverflow, hne]

/-- `label`: the registered name of a host, or the one that all others share. -/
def label (p : HostPolicy) (host : String) : String := p.name (p.classify host)

theorem label_of_mem (hp : Names keys p) (hroom : p.registered ≤ ({} : Limits).maxDomains)
    (hmem : spelling keys host ∈ keys) : label p host = spelling keys host := by
  have hover : ¬ (p.classify host).isOverflow = true := by
    rw [isOverflow_iff hp hroom, not_not]
    exact hmem
  obtain ⟨slot, hslot⟩ := Option.isSome_iff_exists.mp ((hp.known _).mpr hmem)
  rw [label, HostPolicy.name, if_neg hover, HostPolicy.classify, lookup_spelling hp, hslot,
    Option.getD_some, (slot_of_name hp hroom hslot).2, Option.getD_some]

theorem label_of_not_mem (hp : Names keys p) (hroom : p.registered ≤ ({} : Limits).maxDomains)
    (hmem : spelling keys host ∉ keys) : label p host = OVERFLOW_NAME := by
  rw [label, HostPolicy.name, if_pos ((isOverflow_iff hp hroom).mpr hmem)]

end classified

/-! ## Admission -/

section admission

variable (sha256 : String → Digest)

/-- The admission of a request under an abuse profile, as the plugin asks for it. -/
def admitRequest (reg : Registry) (now : Nat) (hosts : HostPolicy) (profile : ScenarioProfile)
    (host identity method path : String) : Admission :=
  let domain := label hosts host
  (reg.admitExpected sha256 now profile.ns (some profile.generation) domain identity method path
    (domain != OVERFLOW_NAME)).1

theorem admitUnder_ne_unregistered {reg : Registry} :
    (reg.admitUnder sha256 now profile ns domain identity login path).1 ≠ .unregistered := by
  rw [Registry.admitUnder]
  generalize (reg.currentBan now domain (Registry.clientKey sha256 ns identity)).1 = found
  rcases found with _ | _ | ban
  · rw [Registry.admitFound]
    split
    · exact Admission.noConfusion
    rw [Registry.admitNew]
    split
    all_goals exact Admission.noConfusion
  · rw [Registry.admitFound]
    split
    all_goals exact Admission.noConfusion
  · exact Admission.noConfusion

/-- On a registered name an address is never a stranger. -/
theorem admitAddress_ne_unregistered {reg : Registry} (hreg : reg.hosts = some p)
    (hdomain : (p.classify domain).isOverflow = false) :
    (reg.admitAddress sha256 now ns expected domain identity method path).1 ≠ .unregistered := by
  rw [Registry.admitAddress, hreg, Option.any_some, hdomain, if_neg Bool.false_ne_true]
  split
  · split <;> exact Admission.noConfusion
  split
  · exact Admission.noConfusion
  split
  · exact Admission.noConfusion
  · exact admitUnder_ne_unregistered sha256

theorem admitRequest_iff (hp : Names keys p) (hroom : p.registered ≤ ({} : Limits).maxDomains)
    (hreg : reg.hosts = some p) (now : Nat) (profile : ScenarioProfile)
    (host identity method path : String) :
    admitRequest sha256 reg now p profile host identity method path ≠ .unregistered ↔
      spelling keys host ∈ keys ∧ spelling keys host ≠ OVERFLOW_NAME ∧
        (IpText.parse identity).isSome := by
  rw [admitRequest]
  by_cases hmem : spelling keys host ∈ keys
  · rw [label_of_mem hp hroom hmem, Registry.admitExpected, and_iff_right hmem]
    by_cases hname : spelling keys host = OVERFLOW_NAME
    · simp [hname]
    cases hip : IpText.parse identity with
    | none => simp [hname]
    | some ip =>
      have hself : spelling keys (spelling keys host) = spelling keys host := by
        rw [spelling, if_pos hmem]
      have hdomain : (p.classify (spelling keys host)).isOverflow = false := by
        rw [Bool.eq_false_iff, ne_eq, isOverflow_iff hp hroom, not_not, hself]
        exact hmem
      simp only [bne_iff_ne.mpr hname, Bool.not_true, Bool.false_eq_true, if_false, ne_eq, hname,
        not_false_eq_true, Option.isSome_some, and_self, iff_true]
      exact admitAddress_ne_unregistered sha256 hreg hdomain
  · rw [label_of_not_mem hp hroom hmem, Registry.admitExpected]
    simp [hmem]

end admission

/-! ## Routing and tenants -/

theorem mem_configuredHosts :
    entry ∈ configuredHosts locations ↔ ∃ name conf, locations.lookup name = some conf ∧
      ∃ pattern ∈ hostPatterns conf, toAsciiLowercase pattern = entry := by
  rw [configuredHosts, List.mem_flatMap]
  simp only [List.mem_map]
  constructor
  · rintro ⟨⟨name, conf⟩, hrow, hentry⟩
    exact ⟨name, conf, AList.mem_inOrder.mp hrow, hentry⟩
  · rintro ⟨name, conf, hconf, hentry⟩
    exact ⟨(name, conf), AList.mem_inOrder.mpr hconf, hentry⟩

/-- The names under which the hosts of a configuration are registered. -/
def registeredNames (config : PingapConfig) : List String := tenants (configuredHosts config.locations)

/-- Entries that routing reads alike have the same hosts. -/
theorem mem_configuredHosts_of_agree (hagree : Agree routing confs locations)
    (hentry : entry ∈ configuredHosts confs) : entry ∈ configuredHosts locations := by
  obtain ⟨name, conf, hconf, hpatterns⟩ := mem_configuredHosts.mp hentry
  have hname := hagree name
  rw [hconf, Option.map_some, eq_comm] at hname
  obtain ⟨conf', hconf', heq⟩ := Option.map_eq_some_iff.mp hname
  have hsame : hostPatterns conf = hostPatterns conf' := by
    rw [hostPatterns, hostPatterns, show conf'.host = conf.host from congrArg Prod.fst heq]
  rw [hsame] at hpatterns
  exact mem_configuredHosts.mpr ⟨name, conf', hconf', hpatterns⟩

theorem names_of_steady (hsteady : Steady r h s) :
    Names (registeredNames s.config) s.hosts ∧ s.hosts.registered ≤ ({} : Limits).maxDomains := by
  obtain ⟨confs, hagree, ⟨hhosts, hroom⟩, -⟩ := hsteady
  refine ⟨?_, hroom⟩
  have hentries : ∀ entry, entry ∈ configuredHosts confs ↔
      entry ∈ configuredHosts s.config.locations := fun entry =>
    ⟨mem_configuredHosts_of_agree hagree,
      mem_configuredHosts_of_agree fun name => (hagree name).symm⟩
  have hsame : ∀ key, key ∈ tenants (configuredHosts confs) ↔ key ∈ registeredNames s.config := by
    intro key
    simp only [registeredNames, tenants, List.mem_filter, List.mem_map, hentries]
  have hnames := names_new (configuredHosts confs)
  rw [← hhosts] at hnames
  exact ⟨fun key => (hnames.known key).trans (hsame key), hnames.named⟩

/-- A host that an exact pattern matches has the normal form of the pattern. -/
theorem normalise_of_exact (h : toAsciiLowercase (trim pattern) = toAsciiLowercase host) :
    normalise (toAsciiLowercase pattern) = normalise host := by
  have hchars : Text.toAsciiLowercase (Text.trim pattern.toList) =
      Text.toAsciiLowercase host.toList := by
    have hlists := congrArg String.toList h
    simpa only [toAsciiLowercase, trim, String.toList_ofList] using hlists
  refine normalise_congr ?_
  rw [toAsciiLowercase, String.toList_ofList, Text.trim_toAsciiLowercase, Text.toAsciiLowercase_idem,
    ← Text.trim_toAsciiLowercase host.toList, ← hchars, Text.trim_toAsciiLowercase, Text.trim_idem]

theorem exact_registered (hsteady : Steady r h s) (hl : s.locations.lookup name = some l)
    (hvalue : HostSelector.equal value ∈ l.hosts)
    (hmatch : HostSelector.isMatch r host (.equal value) = true) (hne : normalise host ≠ "") :
    normalise host ∈ registeredNames s.config := by
  obtain ⟨confs, hagree, -, hpub⟩ := hsteady
  obtain ⟨conf, hconf, hnew⟩ := hpub.new_of_lookup hl
  obtain ⟨pattern, hpattern, hselector⟩ := (AList.mem_mapM (Location.new_ok hnew).hosts).mp hvalue
  have hlower := (HostSelector.new_equal hselector).symm.trans (beq_iff_eq.mp hmatch)
  have hentry := mem_configuredHosts_of_agree hagree
    (mem_configuredHosts.mpr ⟨name, conf, hconf, pattern, hpattern, rfl⟩)
  rw [registeredNames, tenants, List.mem_filter, ← normalise_of_exact hlower]
  refine ⟨List.mem_map_of_mem hentry, ?_⟩
  rw [normalise_of_exact hlower]
  simpa using hne

/-- A host restriction of a location matches the host. -/
def Restricts (r : Regexes) (s : Running) (l : Location) (host : String) : Prop :=
  (∃ name, s.locations.lookup name = some l) ∧ l.hosts ≠ [] ∧ l.matchHost r host = true

/-- The requests for a host that restricted locations serve have a tenant, and no abuse
profile takes them for strangers, exactly when the host is spelled as one of the
configured hosts under another name than the shared one, and the client has an address.
A host that an exact pattern matches is spelled so. -/
theorem restricted_hosts_are_tenants_iff {r : Regexes} {h : Hashes} {t : Texts}
    {updateUpstreams : KeyedMap String UpstreamConf → Option String} {s : Running} (ht : t.Tells)
    (hrun : Runs r h t updateUpstreams s origin) (sha256 : String → Digest) {reg : Registry}
    (hreg : reg.hosts = some s.hosts) (host : String) :
    (∀ now profile identity method path,
      (∀ l, Restricts r s l host → (s.hosts.classify host).isOverflow = false ∧
        admitRequest sha256 reg now s.hosts profile host identity method path ≠ .unregistered) ↔
      ((∃ l, Restricts r s l host) →
        spelling (registeredNames s.config) host ∈ registeredNames s.config ∧
          spelling (registeredNames s.config) host ≠ OVERFLOW_NAME ∧
          (IpText.parse identity).isSome)) ∧
    ∀ l value, Restricts r s l host → HostSelector.equal value ∈ l.hosts →
      HostSelector.isMatch r host (.equal value) = true → normalise host ≠ "" →
        spelling (registeredNames s.config) host ∈ registeredNames s.config := by
  have hsteady := (steady_of_runs ht hrun).1
  obtain ⟨hnames, hroom⟩ := names_of_steady hsteady
  refine ⟨fun now profile identity method path => ?_, ?_⟩
  · have hadmitted := admitRequest_iff sha256 hnames hroom hreg now profile host identity method path
    constructor
    · rintro hall ⟨l, hl⟩
      exact hadmitted.mp (hall l hl).2
    intro hcond l hl
    have hspelled := hcond ⟨l, hl⟩
    refine ⟨?_, hadmitted.mpr hspelled⟩
    rw [Bool.eq_false_iff, ne_eq, isOverflow_iff hnames hroom, not_not]
    exact hspelled.1
  · rintro l value ⟨⟨name, hl⟩, -, -⟩ hvalue hmatch hne
    have hmem := exact_registered hsteady hl hvalue hmatch hne
    rw [spelling]
    split
    · assumption
    · exact hmem

/-- A profile that bans a client which scans for paths. -/
def scanProfile : ScenarioProfile :=
  ⟨"shop", "1", ⟨true, none, some ⟨.block, 60, 10, 300⟩⟩, 100, 100, 100⟩

/-- A registry with the profile in force and the hosts of the routing. -/
def scanRegistry (hosts : HostPolicy) : Registry :=
  ((Registry.new "e" {} 0 0 none).activateWithRetained 0 [scanProfile] []).retainHosts 0 hosts

/-- A wildcard routes its subdomains, which are strangers to the profile. -/
theorem wildcard_host_is_a_stranger :
    ((boot noRegexes hostHashes (oneServer ["app"] [("app", hostConf "*.example.com")])).toOption.map
      fun s => (s.select noRegexes "web" "www.example.com" "/",
        (s.locations.lookup "app").map fun l => l.hosts.isEmpty,
        (s.hosts.classify "www.example.com").isOverflow,
        admitRequest (fun _ => 0) (scanRegistry s.hosts) 1 s.hosts scanProfile "www.example.com"
          "192.0.2.1" "GET" "/")) =
      some (some "app", some false, true, .unregistered) := by
  decide +kernel

/-- A host that is spelled out has a tenant, in any case of its letters. -/
theorem restricted_hosts_are_tenants_iff_exact : ∃ (s : Running) (l : Location),
    boot noRegexes hostHashes (oneServer ["app"] [("app", hostConf "Shop.test:443")]) = .ok s ∧
      Restricts noRegexes s l "shop.TEST:443" ∧
      (s.hosts.classify "shop.TEST:443").isOverflow = false ∧
      admitRequest (fun _ => 0) (scanRegistry s.hosts) 1 s.hosts scanProfile "shop.TEST:443"
        "192.0.2.1" "GET" "/" ≠ .unregistered := by
  obtain ⟨t, ht⟩ := exists_tells
  obtain ⟨s, l, hs, hl, hrestricted, hmatch⟩ : ∃ (s : Running) (l : Location),
      boot noRegexes hostHashes (oneServer ["app"] [("app", hostConf "Shop.test:443")]) = .ok s ∧
      s.locations.lookup "app" = some l ∧ l.hosts ≠ [] ∧
      l.matchHost noRegexes "shop.TEST:443" = true := by
    refine ⟨_, _, rfl, rfl, ?_, ?_⟩
    · decide +kernel
    · decide +kernel
  have hl' : Restricts noRegexes s l "shop.TEST:443" := ⟨⟨"app", hl⟩, hrestricted, hmatch⟩
  have hconfig := boot_config hs
  have hrun : Runs noRegexes hostHashes t (fun _ => none) s _ := .boot hs
  have hreg : (scanRegistry s.hosts).hosts = some s.hosts := rfl
  have hiff := (restricted_hosts_are_tenants_iff ht hrun (fun _ => 0) hreg "shop.TEST:443").1 1
    scanProfile "192.0.2.1" "GET" "/"
  have hspelled : spelling (registeredNames s.config) "shop.TEST:443" ∈ registeredNames s.config ∧
      spelling (registeredNames s.config) "shop.TEST:443" ≠ OVERFLOW_NAME ∧
      (IpText.parse "192.0.2.1").isSome := by
    rw [hconfig]
    decide +kernel
  exact ⟨s, l, hs, hl', hiff.mpr (fun _ => hspelled) l hl'⟩

end HostTenancy
