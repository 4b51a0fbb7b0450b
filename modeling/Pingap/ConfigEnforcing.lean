import Pingap.ConfigVersions

/-!
# An applied version is running

A version becomes applied only when a read-back found its plugins, locations and
routes running. While the data plane still runs another configuration that differs
in one of these, no operation and no sequence of them makes the version applied.
-/

namespace ConfigEnforcing

open ConfigIntent ConfigReadBack ConfigApply ConfigVersions StoreOp AList List

section

variable {a : Applier} {env : Env}

/-- A read-back of the operation found the version running. -/
def FoundRunning (a : Applier) (env : Env) (v : ConfigVersion) : Prop :=
  ∃ intent projected i, Describes a v.intentJson intent ∧
    generate a.formats intent = .ok projected ∧
    runtimeMismatches a.hashes (env.readBack i) projected = []

/-- The version was applied before, for the same intent. -/
def WasApplied (s : Versions) (v : ConfigVersion) : Prop :=
  ∃ v₀ ∈ s.versions, v₀.id = v.id ∧ v₀.intentJson = v.intentJson ∧ v₀.status = .applied

theorem wasApplied_setStatus {id : String} (hstatus : status ≠ .applied)
    (hv : WasApplied (s.put (.setStatus id status error now)) v) : WasApplied s v := by
  obtain ⟨v₀, hv₀, hid, hjson, happlied⟩ := hv
  rcases mem_setStatus.mp hv₀ with ⟨hmem, -⟩ | ⟨v₁, -, -, rfl⟩
  · exact ⟨v₀, hmem, hid, hjson, happlied⟩
  · exact absurd happlied hstatus

theorem wasApplied_record (hstatus : v'.status ≠ .applied) (hv : WasApplied (s.put (.record v')) v)
    : WasApplied s v := by
  obtain ⟨v₀, hv₀, hid, hjson, happlied⟩ := hv
  rcases mem_append.mp hv₀ with hmem | hnew
  · exact ⟨v₀, hmem, hid, hjson, happlied⟩
  · rw [mem_singleton.mp hnew] at happlied
    exact absurd happlied hstatus

/-- Status changes leave the intent of a row. -/
theorem intentJson_setStatus {s : Versions} {id id' : String}
    (h : ∀ v ∈ s.versions, v.id = id → v.intentJson = json) :
    ∀ v ∈ (s.put (.setStatus id' status error now)).versions, v.id = id → v.intentJson = json := by
  intro v hv hid
  rcases mem_setStatus.mp hv with ⟨hmem, -⟩ | ⟨v₁, hv₁, -, rfl⟩
  · exact h v hmem hid
  · exact h v₁ hv₁ hid

/-- A version that a swap made applied was found running. -/
theorem wasApplied_swap (hkeyed : s.Keyed) {id : String} (hconfirmed : Confirmed a env s id)
    (hv : WasApplied (after s (swap id previous now)) v) :
    WasApplied s v ∨ FoundRunning a env v := by
  obtain ⟨c, hc, rfl, intent, projected, i, hdescribes, hgenerate, hnothing⟩ := hconfirmed
  have hrow : ∀ v' ∈ s.versions, v'.id = c.id → v'.intentJson = c.intentJson := fun v' hv' hid =>
    congrArg ConfigVersion.intentJson (hkeyed.eq hv' hc hid)
  -- The store before the last write of the swap.
  obtain ⟨s', hs', hback, hrow'⟩ : ∃ s' : Versions, after s (swap c.id previous now) =
      s'.put (.setStatus c.id .applied none now) ∧ (WasApplied s' v → WasApplied s v) ∧
      ∀ v' ∈ s'.versions, v'.id = c.id → v'.intentJson = c.intentJson := by
    cases previous with
    | none => exact ⟨s, rfl, id, hrow⟩
    | some prev =>
      exact ⟨s.put (.setStatus prev.id .superseded none now), rfl,
        wasApplied_setStatus (by decide), intentJson_setStatus hrow⟩
  rw [hs'] at hv
  obtain ⟨v₀, hv₀, hid, hjson, happlied⟩ := hv
  rcases mem_setStatus.mp hv₀ with ⟨hmem, -⟩ | ⟨v₁, hv₁, hid₁, rfl⟩
  · exact .inl (hback ⟨v₀, hmem, hid, hjson, happlied⟩)
  right
  have hsame : c.intentJson = v.intentJson := (hrow' v₁ hv₁ hid₁).symm.trans hjson
  exact ⟨intent, projected, i, hsame ▸ hdescribes, hgenerate, hnothing⟩

/-- After any part of a script, an applied version was applied before it or was
found running. -/
theorem script_applied (hscript : Script a env s ws) :
    ∀ (k : Nat), Orderly s → ∀ v, WasApplied (after s (ws.take k)) v →
      WasApplied s v ∨ FoundRunning a env v := by
  induction hscript with
  | done s =>
    intro k _ v hv
    rw [take_nil] at hv
    exact .inl hv
  | @record s ws w hid hstatus _ ih =>
    intro k h v hv
    have hnot : w.status ≠ .applied := by rcases hstatus with hs | hs <;> rw [hs] <;> decide
    cases k with
    | zero => exact .inl hv
    | succ k =>
      have hnext : Orderly (s.put (.record w)) :=
        ⟨keyed_record h.keyed hid, by rw [applied_record hnot]; exact h.one⟩
      exact (ih k hnext v hv).imp_left (wasApplied_record hnot)
  | activity row _ ih =>
    intro k h v hv
    cases k with
    | zero => exact .inl hv
    | succ k => exact ih k ⟨h.keyed, h.one⟩ v hv
  | @failed s ws id error hpending rest ih =>
    intro k h v hv
    cases k with
    | zero => exact .inl hv
    | succ k =>
      have hnext := script_orderly (.failed id error hpending rest) 1 h
      exact (ih k hnext v hv).imp_left (wasApplied_setStatus (by decide))
  | @confirmed s ws id previous hpending hconfirmed hprev rest ih =>
    intro k h v hv
    have hswap : Orderly (after s (swap id previous env.now)) := by
      have hall := script_orderly (.confirmed id previous hpending hconfirmed hprev rest)
        (swap id previous env.now).length h
      rwa [take_left] at hall
    cases k with
    | zero => exact .inl hv
    | succ k =>
      cases previous with
      | none =>
        rcases ih k hswap v hv with hold | hfound
        · exact wasApplied_swap h.keyed hconfirmed hold
        · exact .inr hfound
      | some prev =>
        cases k with
        | zero =>
          have hstatus : ConfigStatus.superseded ≠ .applied := by decide
          exact .inl (wasApplied_setStatus hstatus hv)
        | succ k =>
          rcases ih k hswap v hv with hold | hfound
          · exact wasApplied_swap h.keyed hconfirmed hold
          · exact .inr hfound

theorem step_applied (h : Orderly s) (hv : WasApplied (step a s t).2 v) :
    WasApplied s v ∨ FoundRunning a t.env v :=
  script_applied (operation_script h t.operation) t.cut h v hv

end

/-- While the data plane runs another configuration, which differs from the version
in a plugin, a location or the route of a server, nothing makes the version applied:
whatever is applied, rolled back, swept or interrupted meanwhile. -/
theorem applied_is_enforced (a : Applier)
    (hcodec : ∀ intent json, a.encode intent = .ok json → a.decode json = .ok intent)
    (running : PingapConfig) (second : Intent) (projected : Projected)
    (hsecond : generate a.formats second = .ok projected)
    (hsep : Separated a.hashes running projected.config)
    (hdiffers : Differs running projected.config) (before during : List Attempt)
    (hduring : ∀ t ∈ during, ∀ i, t.env.readBack i = DataPlane.running a.hashes running)
    (v : ConfigVersion) (hv : v ∈ (run a (before ++ during)).versions)
    (hintent : a.decode v.intentJson = .ok second) (happlied : v.status = .applied) :
    WasApplied (run a before) v := by
  have hnot : ∀ t ∈ during, ¬ FoundRunning a t.env v := by
    rintro t ht ⟨intent, p, i, hdescribes, hgenerate, hnothing⟩
    have hdecode := hdescribes.elim (hcodec intent _) id
    obtain rfl : second = intent := Except.ok.inj (hintent.symm.trans hdecode)
    obtain rfl : projected = p := Except.ok.inj (hsecond.symm.trans hgenerate)
    rw [hduring t ht i] at hnothing
    exact (mismatches_running hsep).mp hnothing hdiffers
  -- Back over the attempts, the last first.
  have hback : ∀ (attempts : List Attempt) (s : Versions), Orderly s →
      (∀ t ∈ attempts, ¬ FoundRunning a t.env v) →
      WasApplied (Trace.final (step a) s attempts) v → WasApplied s v := by
    intro attempts
    induction attempts with
    | nil => exact fun s _ _ h => h
    | cons t rest ih =>
      intro s h hnone hwas
      have hnext : Orderly (step a s t).2 := script_orderly (operation_script h t.operation) t.cut h
      have hfirst := ih _ hnext (fun t' ht' => hnone t' (mem_cons_of_mem _ ht')) hwas
      exact (step_applied h hfirst).resolve_right (hnone t mem_cons_self)
  have hsplit : run a (before ++ during) = Trace.final (step a) (run a before) during :=
    Trace.final_append (step a) Versions.empty before during
  rw [hsplit] at hv
  exact hback during _ (orderly_run a before) hnot ⟨v, hv, rfl, rfl, happlied⟩

/-! ## A policy that is not running yet -/

def crcStep (crc : Nat) : Nat := if crc % 2 = 1 then (crc >>> 1) ^^^ 0xEDB88320 else crc >>> 1

def crc32 (text : String) : Nat :=
  (text.toList.foldl (fun crc c => crcStep^[8] (crc ^^^ c.toNat)) 0xFFFFFFFF) ^^^ 0xFFFFFFFF

example : crc32 "123456789" = 0xCBF43926 := by decide +kernel

def sampleHashes : Hashes where
  crc32 := crc32
  displayValue
    | .string text => "\"" ++ text ++ "\""
    | .integer n => toString n
    | .boolean b => toString b
    | _ => ""
  locationHash l := crc32 (l.path.getD "")
  debugList names := "[" ++ ", ".intercalate names ++ "]"

def wafPlugin (mode : String) : PluginConf := [("category", .string "waf"), ("mode", .string mode)]

/-- An intent of one policy, in the given mode. -/
def wafIntent (mode : String) : Intent :=
  { Intent.empty with policies := AList.ofRows [("waf:a", wafPlugin mode)] }

/-- The mode of an intent of this form. -/
def modeOf (intent : Intent) : Except String String :=
  match intent.upstreams.entries, intent.listeners.entries, intent.domains.entries,
    intent.policies.entries, intent.certificates.entries, intent.trustedProxies with
  | [], [], [], [⟨name, [(first, .string category), (second, .string mode)]⟩], [], none =>
    if name = "waf:a" ∧ first = "category" ∧ category = "waf" ∧ second = "mode" then .ok mode
    else .error "another intent"
  | _, _, _, _, _, _ => .error "another intent"

def wafApplier : Applier where
  formats := plainFormats
  hashes := sampleHashes
  sha256 text := text
  encode := modeOf
  decode mode := .ok (wafIntent mode)
  windowSecs := 5
  windowNanos := 0

theorem decode_encode_waf (intent : Intent) (json : String) (h : modeOf intent = .ok json) :
    wafApplier.decode json = .ok intent := by
  obtain ⟨upstreams, listeners, domains, policies, certificates, proxies⟩ := intent
  simp only [modeOf] at h
  split at h
  · rename_i hu hl hd hp hc
    split at h
    · rename_i hnames
      obtain ⟨rfl, rfl, rfl, rfl⟩ := hnames
      cases h
      simp only [wafApplier, wafIntent, Intent.empty, Except.ok.injEq, Intent.mk.injEq]
      exact ⟨ext hu.symm, ext hl.symm, ext hd.symm, ext hp.symm, ext hc.symm, trivial⟩
    · cases h
  · cases h

/-- What the gateway reports while it runs the projection of an intent. -/
def reports (a : Applier) (intent : Intent) : DataPlane :=
  match generate a.formats intent with
  | .ok p => DataPlane.running a.hashes p.config
  | .error _ => ⟨fun _ => none, fun _ => none, fun _ => none⟩

/-- An apply while the gateway runs an intent, the new one or another. -/
def applyWhile (a : Applier) (newId : String) (now : Int) (intent running : Intent) : Attempt :=
  ⟨.apply intent "update", { smooth newId now with readBack := fun _ => reports a running }, 9⟩

theorem plugins_waf (h : generate wafApplier.formats (wafIntent mode) = .ok p) (name : String)
    (conf : PluginConf) :
    p.config.plugins.lookup name = some conf ↔ name = "waf:a" ∧ conf = wafPlugin mode := by
  have hlookup : ∀ plugin, (wafIntent mode).policies.lookup name = some plugin ↔
      name = "waf:a" ∧ plugin = wafPlugin mode := fun _ => lookup_ofRows_singleton
  have hproject : projectPolicy (wafIntent mode) ("waf:a", wafPlugin mode) =
      .ok ("waf:a", wafPlugin mode) := by
    have hcategory : policyCategory "waf:a" = "waf" := by decide +kernel
    simp [projectPolicy, wafPlugin, hcategory, TomlValue.asStr, lookup_cons, pure, Except.pure]
  rw [(generated_of_generate h).plugins]
  constructor
  · rintro ⟨plugin, hplugin, hconf⟩
    obtain ⟨rfl, rfl⟩ := (hlookup plugin).mp hplugin
    rw [hproject] at hconf
    cases hconf
    exact ⟨rfl, rfl⟩
  · rintro ⟨rfl, rfl⟩
    exact ⟨_, (hlookup _).mpr ⟨rfl, rfl⟩, hproject⟩

def applyDetect : Attempt := applyWhile wafApplier "v1" 100 (wafIntent "detect") (wafIntent "detect")

def applyBlock : Attempt := applyWhile wafApplier "v2" 200 (wafIntent "block") (wafIntent "detect")

/-- The gateway goes on detecting: the version that blocks does not become applied. -/
theorem applied_is_enforced_block :
    ((run wafApplier ([applyDetect] ++ [applyBlock])).find "v2").map ConfigVersion.status ≠
      some .applied := by
  have hok : ∀ mode, mode = "detect" ∨ mode = "block" →
      ∃ p, generate wafApplier.formats (wafIntent mode) = .ok p := by
    intro mode hmode
    have heval : (generate wafApplier.formats (wafIntent mode)).toBool = true := by
      rcases hmode with rfl | rfl <;> decide +kernel
    revert heval
    cases generate wafApplier.formats (wafIntent mode) with
    | error e => intro heval; cases heval
    | ok p => exact fun _ => ⟨p, rfl⟩
  obtain ⟨first, hfirst⟩ := hok "detect" (.inl rfl)
  obtain ⟨second, hsecond⟩ := hok "block" (.inr rfl)
  have hkeys : pluginConfigKey wafApplier.hashes (wafPlugin "detect") ≠
      pluginConfigKey wafApplier.hashes (wafPlugin "block") := by decide +kernel
  have hsep : Separated wafApplier.hashes first.config second.config := by
    refine ⟨fun name c c' hc hc' heq => ?_, fun name c c' hc _ _ => ?_⟩
    · obtain ⟨-, rfl⟩ := (plugins_waf hfirst name c).mp hc
      obtain ⟨-, rfl⟩ := (plugins_waf hsecond name c').mp hc'
      exact absurd heq hkeys
    · obtain ⟨d, hd, -⟩ := ((generated_of_generate hfirst).locations name c).mp hc
      cases (lookup_empty name).symm.trans hd
  have hdiffers : Differs first.config second.config := by
    refine .inl ⟨"waf:a", wafPlugin "block", (plugins_waf hsecond _ _).mpr ⟨rfl, rfl⟩, ?_⟩
    intro hrunning
    exact hkeys (congrArg _ ((plugins_waf hfirst _ _).mp hrunning).2.symm)
  have hduring : ∀ t ∈ [applyBlock], ∀ i,
      t.env.readBack i = DataPlane.running wafApplier.hashes first.config := by
    intro t ht i
    obtain rfl := mem_singleton.mp ht
    show reports wafApplier (wafIntent "detect") = _
    rw [reports, hfirst]
  intro hstatus
  obtain ⟨v, hfound, happlied⟩ := Option.map_eq_some_iff.mp hstatus
  have hjson : ((run wafApplier ([applyDetect] ++ [applyBlock])).find "v2").map
      ConfigVersion.intentJson = some "block" := by decide +kernel
  rw [hfound, Option.map_some, Option.some.injEq] at hjson
  obtain ⟨hv, hid⟩ := find_eq_some hfound
  obtain ⟨v₀, hv₀, hid₀, -⟩ := applied_is_enforced wafApplier decode_encode_waf first.config
    (wafIntent "block") second hsecond hsep hdiffers [applyDetect] [applyBlock] hduring v hv
    (by rw [hjson]; rfl) happlied
  -- The second version did not exist before.
  have hbefore : ∀ v₀ ∈ (run wafApplier [applyDetect]).versions, v₀.id ≠ "v2" := by decide +kernel
  exact hbefore v₀ hv₀ (hid₀.trans hid)

/-! ## An upstream that is not read back -/

/-- An intent of one upstream with one backend. -/
def upstreamIntent (addr : String) : Intent :=
  { Intent.empty with
    upstreams := AList.ofRows [("app", ⟨[⟨addr, none⟩], none, none, none, none, none⟩)] }

def upstreamApplier : Applier :=
  { wafApplier with
    encode := fun intent => .ok (((intent.upstreams.lookup "app").bind fun u =>
      u.backends.head?.map Backend.addr).getD "")
    decode := fun addr => .ok (upstreamIntent addr) }

/-- The gateway still sends to the old backend, and the version that names the new
one is applied. -/
theorem applied_with_old_upstream : ∃ first second,
    generate upstreamApplier.formats (upstreamIntent "10.0.0.1:80") = .ok first ∧
    generate upstreamApplier.formats (upstreamIntent "10.0.0.2:80") = .ok second ∧
    (first.config.upstreams.lookup "app").map UpstreamConf.addrs = some ["10.0.0.1:80"] ∧
    (second.config.upstreams.lookup "app").map UpstreamConf.addrs = some ["10.0.0.2:80"] ∧
    ((run upstreamApplier [applyWhile upstreamApplier "v1" 100 (upstreamIntent "10.0.0.1:80")
        (upstreamIntent "10.0.0.1:80"),
      applyWhile upstreamApplier "v2" 200 (upstreamIntent "10.0.0.2:80")
        (upstreamIntent "10.0.0.1:80")]).find "v2").map
      (fun v => (v.intentJson, v.status)) = some ("10.0.0.2:80", .applied) := by
  refine ⟨_, _, rfl, rfl, ?_, ?_, ?_⟩ <;> decide +kernel

end ConfigEnforcing
