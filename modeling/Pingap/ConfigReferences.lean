import Pingap.ConfigToml

/-!
# References of a generated configuration

The maps of a configuration are generated one by one from the same intent. Every name that one
of them gives is found in the other.
-/

namespace ConfigReferences

open ConfigIntent AList

/-- Policies that write the marker a challenge reads. -/
def Requests : PolicyBinding → Prop
  | .waf _ | .acl _ => True
  | _ => False

theorem not_requests_after (h : challengeBeforeWriter policies = none) :
    ∀ before profile after, policies = before ++ .challenge profile :: after →
      ∀ b ∈ after, ¬ Requests b := by
  induction policies with
  | nil =>
    intro before profile after hsplit
    simp at hsplit
  | cons b rest ih =>
    intro before profile after hsplit
    cases before with
    | nil =>
      obtain ⟨rfl, rfl⟩ := List.cons.inj hsplit
      intro writer hmem hrequests
      simp only [challengeBeforeWriter] at h
      split at h
      · cases h
      rename_i hnone
      have hfind := Option.eq_none_iff_forall_ne_some.mpr fun w => hnone profile w rfl
      have hquiet := List.find?_eq_none.mp hfind writer hmem
      cases writer <;> first | exact hquiet rfl | exact hrequests
    | cons b' before =>
      obtain ⟨rfl, hrest⟩ := List.cons.inj hsplit
      refine ih ?_ before profile after hrest
      simp only [challengeBeforeWriter] at h
      split at h
      · cases h
      · exact h

theorem splitOnce_entryName {b : PolicyBinding} : policyCategory b.entryName = b.category := by
  have hplain : ':' ∉ b.category.toList := by cases b <;> simp [PolicyBinding.category]
  have hname : b.entryName.toList = b.category.toList ++ ':' :: b.profile.toList := by
    simp [PolicyBinding.entryName]
  rw [policyCategory, hname, Text.splitOnce_append hplain]
  simp

theorem lookup_replaceKey {t : Table} (hne : key' ≠ key) :
    (t.map fun e => if e.1 == key then (key, value) else e).lookup key' = t.lookup key' := by
  induction t with
  | nil => rfl
  | cons e t ih =>
    rw [List.map_cons, List.lookup_cons, List.lookup_cons, ih]
    cases he : e.1 == key with
    | true => simp [beq_iff_eq.mp he, beq_eq_false_iff_ne.mpr hne]
    | false => rfl

theorem lookup_insertKey (hne : key' ≠ key) :
    (insertKey t key value).lookup key' = t.lookup key' := by
  rw [insertKey]
  split
  · exact lookup_replaceKey hne
  · simp [List.lookup_append, List.lookup_cons, beq_eq_false_iff_ne.mpr hne]

/-- What the generator adds to a policy leaves its category. -/
theorem projectPolicy_category (h : projectPolicy intent (name, plugin) = .ok (name, conf)) :
    (conf.lookup "category").bind TomlValue.asStr = some (policyCategory name) := by
  simp only [projectPolicy, bind, Except.bind, pure, Except.pure, throw, throwThe,
    MonadExceptOf.throw] at h
  split at h
  · cases h
  split at h
  · cases h
  rename_i hcategory
  cases h
  have hkept : ∀ (c : Bool) (t : Table) key value, "category" ≠ key →
      (if c then insertKey t key value else t).lookup "category" = t.lookup "category" := by
    intro c t key value hne
    cases c with
    | true => exact lookup_insertKey hne
    | false => rfl
  rw [hkept _ _ _ _ (by decide), hkept _ _ _ _ (by decide)]
  simpa using hcategory

theorem mem_onListener : name ∈ onListener intent listener ↔
    ∃ d, intent.domains.lookup name = some d ∧ d.listener = listener := by
  simp [onListener, List.mem_filterMap, mem_inOrder]

theorem mem_locations (l : Listener) :
    name ∈ (serverConf l names grpcWeb).locations.getD [] ↔ name ∈ names := by
  have hmem : name ∈ names.insertionSort (· ≤ ·) ↔ name ∈ names :=
    (List.perm_insertionSort _ names).mem_iff
  rw [← hmem]
  dsimp only [serverConf]
  split
  · rename_i hempty
    rw [List.isEmpty_iff.mp hempty]
    rfl
  · rfl

theorem exists_lookup_mapM {ω ε : Type} {m : KeyedMap String υ} {out : List (String × ω)}
    {f : String × υ → Except ε (String × ω)} (hkey : ∀ row out, f row = .ok out → out.1 = row.1)
    (hout : (inOrder m).mapM f = .ok out) (hv : m.lookup k = some v) :
    ∃ w, (ofRows out).lookup k = some w := by
  obtain ⟨⟨k', w⟩, hw⟩ := (mapM_ok_iff _).mp ⟨out, hout⟩ (k, v) (mem_inOrder.mpr hv)
  obtain rfl : k' = k := hkey _ _ hw
  exact ⟨w, (lookup_mapM hkey hout).mpr ⟨v, hv, hw⟩⟩

/-- The names a location gives are those of its domain, and each is found. -/
structure Resolved (config : PingapConfig) (l : LocationConf) (d : Domain) : Prop where
  plugins : l.plugins.getD [] = d.policies.map PolicyBinding.entryName
  categories : ∀ b ∈ d.policies, ∃ conf, config.plugins.lookup b.entryName = some conf ∧
    (conf.lookup "category").bind TomlValue.asStr = some b.category
  upstream : ∃ u, l.upstream = some u ∧ (config.upstreams.lookup u).isSome
  server : ∃ server, config.servers.lookup d.listener = some server
  challenges : ∀ before profile after, d.policies = before ++ .challenge profile :: after →
    ∀ b ∈ after, ¬ Requests b

theorem resolved (h : generate f intent = .ok p) (hd : intent.domains.lookup name = some d)
    (hl : p.config.locations.lookup name = some l) : Resolved p.config l d := by
  have hgen := generated_of_generate h
  obtain ⟨d', hd', hproject⟩ := (hgen.locations name l).mp hl
  obtain rfl : d = d' := Option.some.inj (hd.symm.trans hd')
  obtain ⟨hupstream, hlistener, hpolicies, -, hmade⟩ := projectDomain_ok hproject
  obtain ⟨horder, -, hu, -, -, -, hplugins, -⟩ := locationConf_made hmade
  obtain ⟨_, servers, _, plugins, -, hservers, -, hpols, -, hconfig⟩ := generate_ok h
  refine ⟨?_, fun b hb => ?_, ⟨d.upstream, hu, ?_⟩, ?_, not_requests_after horder⟩
  · rw [hplugins]
    split
    · rename_i hempty
      rw [List.isEmpty_iff.mp hempty]
      rfl
    · rfl
  · obtain ⟨plugin, hplugin⟩ := Option.isSome_iff_exists.mp (hpolicies b hb)
    obtain ⟨conf, hconf⟩ := exists_lookup_mapM (fun _ _ => projectPolicy_key) hpols hplugin
    have hfound : p.config.plugins.lookup b.entryName = some conf := by rw [hconfig]; exact hconf
    obtain ⟨plugin', -, hpolicy⟩ := (hgen.plugins _ _).mp hfound
    exact ⟨conf, hfound, (projectPolicy_category hpolicy).trans (congrArg some (splitOnce_entryName))⟩
  · rw [lookup_upstreams h, Option.isSome_map]
    exact hupstream
  · obtain ⟨listener, hl⟩ := Option.isSome_iff_exists.mp hlistener
    rw [hconfig]
    exact exists_lookup_mapM (fun _ _ => projectListener_key) hservers hl

/-- In a generated configuration the location of each domain names the domain's policies in their
order, each of which exists in its category, and its upstream, which exists; no challenge stands
before a policy that requests one; a server lists the locations of the domains on its listener
and no others; and it loads the gRPC-web module exactly if one of those domains asks for it. -/
theorem references_resolve {f : Formats} {intent : Intent} {p : Projected}
    (h : generate f intent = .ok p) :
    (∀ name, (p.config.locations.lookup name).isSome ↔ (intent.domains.lookup name).isSome) ∧
      (∀ name d l, intent.domains.lookup name = some d → p.config.locations.lookup name = some l →
        Resolved p.config l d) ∧
      ∀ listener server, p.config.servers.lookup listener = some server →
        (∀ name, name ∈ server.locations.getD [] ↔
          ∃ d, intent.domains.lookup name = some d ∧ d.listener = listener) ∧
        ("grpc-web" ∈ server.modules.getD [] ↔
          ∃ name d, intent.domains.lookup name = some d ∧ d.listener = listener ∧ d.grpcWeb = true) := by
  have hgen := generated_of_generate h
  refine ⟨fun name => ⟨fun hsome => ?_, fun hsome => ?_⟩, fun _ _ _ hd hl => resolved h hd hl, ?_⟩
  · obtain ⟨l, hl⟩ := Option.isSome_iff_exists.mp hsome
    obtain ⟨d, hd, -⟩ := (hgen.locations name l).mp hl
    rw [hd]
    rfl
  · obtain ⟨d, hd⟩ := Option.isSome_iff_exists.mp hsome
    obtain ⟨l, hl⟩ := hgen.domains name d hd
    rw [(hgen.locations name l).mpr ⟨d, hd, hl⟩]
    rfl
  · intro listener server hserver
    obtain ⟨l, -, hproject⟩ := (hgen.servers listener server).mp hserver
    obtain ⟨-, rfl⟩ := Prod.mk.inj (projectListener_ok hproject)
    refine ⟨fun name => (mem_locations l).trans mem_onListener, ?_⟩
    have hmodules : "grpc-web" ∈ (if wantsGrpcWeb intent listener then some ["grpc-web"]
        else none).getD [] ↔ wantsGrpcWeb intent listener = true := by
      cases wantsGrpcWeb intent listener <;> simp
    refine hmodules.trans ?_
    simp [wantsGrpcWeb, mem_inOrder]

/-- A domain behind one policy. -/
def guardedDomain : Domain :=
  ⟨["a.test"], some "/", "web", "app", none, none, none, true, none, none, none, [.waf "a"]⟩

def guardedIntent : Intent :=
  { ConfigToml.uploads "8mb" with
    domains := ofRows [("site", guardedDomain)]
    policies := ofRows [("waf:a", [("category", .string "waf")])] }

theorem guarded_generates : ∃ p, generate ConfigToml.plainText guardedIntent = .ok p := by
  have hok : (generate ConfigToml.plainText guardedIntent).toBool = true := by decide +kernel
  cases hp : generate ConfigToml.plainText guardedIntent with
  | error e =>
    rw [hp] at hok
    cases hok
  | ok p => exact ⟨p, rfl⟩

theorem references_resolve_guarded : ∃ p l, generate ConfigToml.plainText guardedIntent = .ok p ∧
    p.config.locations.lookup "site" = some l ∧ Resolved p.config l guardedDomain := by
  obtain ⟨p, hp⟩ := guarded_generates
  have hdomain : guardedIntent.domains.lookup "site" = some guardedDomain := by decide +kernel
  obtain ⟨hlocations, hresolved, -⟩ := references_resolve hp
  obtain ⟨l, hl⟩ := Option.isSome_iff_exists.mp ((hlocations "site").mpr (by rw [hdomain]; rfl))
  exact ⟨p, l, hp, hl, hresolved "site" guardedDomain l hdomain hl⟩

end ConfigReferences
