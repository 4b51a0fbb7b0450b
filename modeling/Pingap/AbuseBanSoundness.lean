import Pingap.AbuseBanPersistence

/-!
# Bans rest on evidence

The counters of a cell are nothing but a record of observations: every login time
and every sighted path in them was put there by an observation through a ticket
of that very cell, and a ban is created only once enough of them lie inside the
rule's window. A ticket from before a ban, an eviction or a change of generation
is behind its cell for good and counts for nothing.
-/

namespace AbuseBanSoundness

open MachineArith AbuseScenario AbuseRegistry AbuseRegistryRun List Option Trace
open AbuseRegistry.Registry (clientKey watchesLogin pathKey)

variable {sha256 : String → Digest}

/-! ## The counters as a record of observations -/

/-- An observation that was not a local denial, through a ticket of this cell as
it is: the same client, generation, incarnation and reset. -/
structure Through (d k : String) (c : Client) (o : Observation) : Prop where
  upstream : o.localDenial = false
  domain : o.issue.ticket.domain = d
  key : o.issue.ticket.key = k
  generation : o.issue.ticket.generation = c.generation
  incarnation : o.issue.ticket.incarnation = c.incarnation
  reset : o.issue.ticket.reset = c.reset

theorem Through.congr (h : Through d k c o) (hg : c'.generation = c.generation)
    (hi : c'.incarnation = c.incarnation) (hr : c'.reset = c.reset) : Through d k c' o :=
  ⟨h.upstream, h.domain, h.key, h.generation.trans hg.symm, h.incarnation.trans hi.symm,
    h.reset.trans hr.symm⟩

/-- The status is one that a profile activated under this generation counts. -/
def FailureUnder (s : Sys) (generation : String) (status : Nat) : Prop :=
  ∃ p ∈ s.activated, p.generation = generation ∧
    ∃ f, p.config.failedLogin = some f ∧ status ∈ f.statuses

/-- Every entry of the cell's counters is an observation of the run. -/
structure Evidenced (s : Sys) (d k : String) (c : Client) : Prop where
  login : ∃ l : List Observation, l.Sublist s.observations ∧
    l.map Observation.time = c.counters.login ∧
    ∀ o ∈ l, Through d k c o ∧ o.issue.ticket.login = true ∧ FailureUnder s c.generation o.status
  paths : ∀ path x, c.counters.paths.lookup path = some x → ∃ o ∈ s.observations,
    Through d k c o ∧ o.issue.ticket.path = path ∧ o.status = 404 ∧ o.time = x

/-- What a step adds to the record of the run. -/
structure Grows (now : Nat) (s s' : Sys) : Prop where
  observations : s'.observations = s.observations ∨
    ∃ o : Observation, o.time = now ∧ o.issue ∈ s.issued ∧ s'.observations = s.observations ++ [o]
  activated : s.activated ⊆ s'.activated
  issued : ∃ new, s'.issued = s.issued ++ new

theorem Grows.refl (now : Nat) (s : Sys) : Grows now s s :=
  ⟨.inl rfl, fun _ h => h, [], (append_nil _).symm⟩

theorem Grows.sublist (h : Grows now s s') : s.observations.Sublist s'.observations := by
  rcases h.observations with h | ⟨o, -, -, h⟩
  · rw [h]
  · rw [h]; exact sublist_append_left _ _

theorem grows_step : Grows e.now s (step sha256 s e).2 := by
  have hsame : s.issued = s.issued ++ [] := (append_nil _).symm
  obtain ⟨now, action⟩ := e
  cases action with
  | observe i status localDenial =>
    simp only [step]
    cases hi : s.issued[i]? with
    | none => exact Grows.refl now s
    | some issue =>
      exact ⟨.inr ⟨_, rfl, mem_of_getElem? hi, rfl⟩, fun _ h => h, [], hsame⟩
  | activate profiles retained =>
    exact ⟨.inl rfl, subset_append_left _ _, [], hsame⟩
  | stepListing i =>
    simp only [step]
    cases s.listings[i]? with
    | none => exact Grows.refl now s
    | some l => exact ⟨.inl rfl, fun _ h => h, [], hsame⟩
  | admitClient ns expected domain identity method path =>
    exact ⟨.inl rfl, fun _ h => h, _, rfl⟩
  | release | retainHosts | startListing => exact ⟨.inl rfl, fun _ h => h, [], hsame⟩

section evidence

variable {s s' : Sys} {now : Nat} {d k : String} {c c' : Client}

theorem FailureUnder.grow (hg : Grows now s s') (h : FailureUnder s generation status) :
    FailureUnder s' generation status := by
  obtain ⟨p, hp, hrest⟩ := h
  exact ⟨p, hg.activated hp, hrest⟩

theorem evidenced_empty (h : c.counters = Counters.empty) : Evidenced s d k c := by
  refine ⟨⟨[], nil_sublist _, by rw [h]; rfl, fun o ho => by cases ho⟩, fun path x hx => ?_⟩
  rw [h] at hx
  simp [Counters.empty] at hx

section

variable (hg : Grows now s s') (h : Evidenced s d k c)
include hg h

/-- The evidence of a cell stays while its counters and its version do. -/
theorem evidenced_kept (hc : c'.counters = c.counters) (hgen : c'.generation = c.generation)
    (hinc : c'.incarnation = c.incarnation) (hreset : c'.reset = c.reset) :
    Evidenced s' d k c' := by
  obtain ⟨l, hl, htimes, hall⟩ := h.login
  refine ⟨⟨l, hl.trans hg.sublist, by rw [hc]; exact htimes, fun o ho => ?_⟩, fun path x hx => ?_⟩
  · obtain ⟨hthrough, hlogin, hstatus⟩ := hall o ho
    exact ⟨hthrough.congr hgen hinc hreset, hlogin, hgen ▸ hstatus.grow hg⟩
  rw [hc] at hx
  obtain ⟨o, ho, hthrough, hrest⟩ := h.paths path x hx
  exact ⟨o, hg.sublist.subset ho, hthrough.congr hgen hinc hreset, hrest⟩

theorem evidenced_settled : Evidenced s' d k { c.settled time with idleAt := x } := by
  by_cases hdue : c.banDue time = true
  · exact evidenced_empty (by simp [Client.settled, hdue])
  have hsame := Client.settled_of_not_due c time (Bool.eq_false_iff.mpr hdue)
  rw [hsame]
  exact evidenced_kept hg h rfl rfl rfl rfl

/-- An observation through a ticket of the cell is the evidence of what it adds. -/
theorem evidenced_observed (ho : s'.observations = s.observations ++ [o])
    (hthrough : Through d k c o)
    (hp : profile ∈ s.activated) (hgen : profile.generation = c.generation)
    (hcount : c'.counters = (c.counters.observe profile.config o.time o.issue.ticket.login
      o.issue.ticket.path o.status).2) (hgen' : c'.generation = c.generation)
    (hinc : c'.incarnation = c.incarnation) (hreset : c'.reset = c.reset) :
    Evidenced s' d k c' := by
  have hspec := Counters.observe_spec profile.config o.time o.issue.ticket.login
    o.issue.ticket.path o.status c.counters
  have hthrough' : Through d k c' o := hthrough.congr hgen' hinc hreset
  refine ⟨?_, fun path x hx => ?_⟩
  · obtain ⟨l, hl, htimes, hall⟩ := h.login
    obtain ⟨kept, hkept, hnew⟩ := hspec.times
    rw [← htimes] at hkept
    rw [← hcount] at hnew
    obtain ⟨l₀, hl₀, rfl⟩ := List.sublist_map_iff.mp hkept
    have hold : ∀ o' ∈ l₀, Through d k c' o' ∧ o'.issue.ticket.login = true ∧
        FailureUnder s' c'.generation o'.status := by
      intro o' ho'
      obtain ⟨ht, hlogin, hstatus⟩ := hall o' (hl₀.subset ho')
      exact ⟨ht.congr hgen' hinc hreset, hlogin, hgen' ▸ hstatus.grow hg⟩
    rcases hnew with hnew | ⟨f, hf, hlogin, hstatus, hnew⟩
    · exact ⟨l₀, (hl₀.trans hl).trans hg.sublist, hnew.symm, hold⟩
    refine ⟨l₀ ++ [o], by rw [ho]; exact (hl₀.trans hl).append (Sublist.refl _), ?_, ?_⟩
    · rw [hnew, map_append]; rfl
    intro o' ho'
    rcases mem_append.mp ho' with ho' | ho'
    · exact hold o' ho'
    · rw [mem_singleton.mp ho']
      exact ⟨hthrough', hlogin, profile, hg.activated hp, hgen.trans hgen'.symm, f, hf, hstatus⟩
  · rw [hcount] at hx
    rcases hspec.sightings path x hx with hx | ⟨hstatus, rfl, rfl⟩
    · obtain ⟨o', ho', hthrough, hrest⟩ := h.paths path x hx
      exact ⟨o', hg.sublist.subset ho', hthrough.congr hgen' hinc hreset, hrest⟩
    · exact ⟨o, by rw [ho]; exact mem_append_right _ (mem_singleton.mpr rfl), hthrough',
        rfl, hstatus, rfl⟩

end

end evidence

/-! ## The evidence along a run -/

/-- Everything the registry counts by is in the record of the run up to `t`. -/
structure Accounted (t : Nat) (s : Sys) : Prop where
  inForce : ∀ ns p, s.registry.profiles.lookup ns = some p → p ∈ s.activated
  tickets : ∀ i ∈ s.issued, ∃ p ∈ s.activated, p.generation = i.ticket.generation ∧
    i.ticket.login = watchesLogin p.config i.method i.path
  cells : ∀ d k c, s.cell d k = some c → Evidenced s d k c
  ordered : (s.observations.map Observation.time).Pairwise (· ≤ ·)
  past : ∀ o ∈ s.observations, o.time ≤ t
  observed : ∀ o ∈ s.observations, o.issue ∈ s.issued

/-- A profile in force after an activation was activated by it or was in force. -/
theorem lookup_nextProfiles {r : Registry}
    (h : (r.nextProfiles profiles retained).lookup ns = some p) :
    p ∈ profiles ∨ r.profiles.lookup ns = some p := by
  let Founded (m : KeyedMap String ScenarioProfile) : Prop :=
    m.lookup ns = some p → p ∈ profiles ∨ r.profiles.lookup ns = some p
  have hfresh : Founded ((profiles.filter fun p => p.config.enabled).foldl
      (fun (m : KeyedMap String ScenarioProfile) p => m.insert p.ns p) ∅) := by
    refine foldlRecOn _ _ (fun h => (by simp at h)) fun m hm q hq h => ?_
    rw [AList.lookup_insert_if] at h
    split at h
    · rw [← Option.some.inj h]
      exact .inl (mem_of_mem_filter hq)
    · exact hm h
  have hkept : Founded (r.nextProfiles profiles retained) := by
    refine foldlRecOn retained _ hfresh fun m hm q _ h => ?_
    split at h
    case h_1 previous hprevious _ =>
      rw [AList.lookup_insert_if] at h
      split at h
      case isTrue hq =>
        rw [hq, hprevious]
        exact .inr h
      case isFalse => exact hm h
    case h_2 => exact hm h
  exact hkept h

section

variable (hi : Inv sha256 s) (h : Accounted t s)
include hi h

theorem accounted_inForce (ns : String)
    (p : ScenarioProfile) (hp : (step sha256 s e).2.registry.profiles.lookup ns = some p) :
    p ∈ (step sha256 s e).2.activated := by
  have hgrows : Grows e.now s (step sha256 s e).2 := grows_step
  rcases (@around_step sha256 s hi.lasting e).profiles with hsame | ⟨profiles, retained, ha⟩
  · rw [hsame] at hp
    exact hgrows.activated (h.inForce ns p hp)
  obtain ⟨now, action⟩ := e
  obtain rfl : action = .activate profiles retained := ha
  rcases lookup_nextProfiles hp with hnew | hold
  · exact mem_append_right _ hnew
  · exact mem_append_left _ (h.inForce ns p hold)

theorem accounted_cell (d k : String)
    (c : Client) (hc : (step sha256 s e).2.cell d k = some c) :
    Evidenced (step sha256 s e).2 d k c := by
  have hgrows : Grows e.now s (step sha256 s e).2 := grows_step
  cases cell_origin hi.lasting hc with
  | kept c₀ hc₀ x heq =>
    subst heq
    exact evidenced_kept hgrows (h.cells d k c₀ hc₀) rfl rfl rfl rfl
  | settled c₀ hc₀ time x _ heq =>
    subst heq
    exact evidenced_settled hgrows (h.cells d k c₀ hc₀)
  | fresh ns hns profile hp identity hk hfresh => exact evidenced_empty hfresh.counters
  | observed issue hissue status profile c₀ ht hp hg hc₀ ho heq =>
    subst heq
    have hsettled : Evidenced s d k (c₀.settled e.now) :=
      evidenced_settled (Grows.refl e.now s) (h.cells d k c₀ hc₀)
    rcases observeClient_cases s.registry profile issue.ticket status e.now c₀ with
      ⟨heq, -⟩ | ⟨hgen, hinc, hreset, -, x, ban, heq⟩
    · rw [heq]
      exact evidenced_kept hgrows hsettled rfl rfl rfl rfl
    have hthrough : Through d k (c₀.settled e.now) ⟨e.now, issue, status, false⟩ :=
      ⟨rfl, ht.1, ht.2, hgen.trans (Client.settled_generation c₀ e.now).symm,
        hinc.trans (Client.settled_incarnation c₀ e.now).symm, hreset⟩
    rw [heq]
    exact evidenced_observed hgrows hsettled ho hthrough (h.inForce _ _ hp)
      (hg.trans hthrough.generation) rfl rfl rfl rfl
  | released c₀ hc₀ id heq =>
    subst heq
    have hsettled : Evidenced (step sha256 s e).2 d k (c₀.settled e.now) :=
      evidenced_settled hgrows (h.cells d k c₀ hc₀)
    simp only [Registry.releaseClient]
    split
    · split
      · exact evidenced_empty rfl
      · exact hsettled
    · exact hsettled

theorem accounted_step (e : Event) (ht : t ≤ e.now) : Accounted e.now (step sha256 s e).2 := by
  have hgrows : Grows e.now s (step sha256 s e).2 := grows_step
  have hpast : ∀ o ∈ s.observations, o.time ≤ e.now := fun o ho => Nat.le_trans (h.past o ho) ht
  refine ⟨accounted_inForce hi h, fun i hissued => ?_, accounted_cell hi h, ?_, ?_, ?_⟩
  · rcases issued_step hi.lasting hissued with hold | ⟨ns, _, _, profile, _, -, -, hp, -, -, hticket⟩
    · obtain ⟨p, hp, hrest⟩ := h.tickets i hold
      exact ⟨p, hgrows.activated hp, hrest⟩
    · exact ⟨profile, hgrows.activated (h.inForce ns profile hp), hticket.generation.symm,
        hticket.login⟩
  · rcases hgrows.observations with ho | ⟨o, hnow, -, ho⟩
    · rw [ho]; exact h.ordered
    rw [ho, map_append, pairwise_append]
    refine ⟨h.ordered, pairwise_singleton _ _, fun x hx y hy => ?_⟩
    obtain ⟨o', ho', rfl⟩ := mem_map.mp hx
    obtain rfl : y = o.time := mem_singleton.mp hy
    rw [hnow]
    exact hpast o' ho'
  · rcases hgrows.observations with ho | ⟨o, hnow, -, ho⟩
    · rw [ho]; exact hpast
    rw [ho]
    intro o' ho'
    rcases mem_append.mp ho' with ho' | ho'
    · exact hpast o' ho'
    · rw [mem_singleton.mp ho', hnow]
  · obtain ⟨new, hnew⟩ := hgrows.issued
    rw [hnew]
    intro o' ho'
    refine mem_append_left _ ?_
    rcases hgrows.observations with ho | ⟨o, -, hissue, ho⟩
    · rw [ho] at ho'; exact h.observed o' ho'
    rw [ho] at ho'
    rcases mem_append.mp ho' with ho' | ho'
    · exact h.observed o' ho'
    · rw [mem_singleton.mp ho']; exact hissue

theorem accounted_run (hc : Clocked Event.now t es) :
    Accounted (lastClock Event.now t es) (run sha256 s es) :=
  (final_clocked (step sha256) Event.now (fun t s => Inv sha256 s ∧ Accounted t s)
    (fun _ _ e ht h => ⟨inv_step h.1 e, accounted_step h.1 h.2 e ht⟩) es t s ⟨hi, h⟩ hc).2

end

theorem accounted_start :
    Accounted 0 (Sys.start (Registry.new epoch limits wallOrigin monoOrigin queue)) := by
  refine ⟨fun ns p h => ?_, fun i h => ?_, fun d k c h => ?_, List.Pairwise.nil, fun o h => ?_,
    fun o h => ?_⟩
  · simp [Sys.start, Registry.new] at h
  all_goals cases h

/-! ## What a ban rests on -/

/-- A response to a request the scenario watches, with a status it counts. -/
structure FailedLoginOf (f : FailedLogin) (o : Observation) : Prop where
  method : o.issue.method = f.method
  path : pathPart o.issue.path = f.path
  status : o.status ∈ f.statuses

/-- A recorded observation through a ticket of the cell, inside the window. -/
structure Inside (s : Sys) (d k : String) (c : Client) (now : Nat) (window : Duration)
    (o : Observation) : Prop where
  recorded : o ∈ s.observations
  through : Through d k c o
  recent : now - durationMs window ≤ o.time
  past : o.time ≤ now

/-- A threshold of evidence for a ban under this scenario of the configuration:
as many failed logins, or as many missing paths, all different. -/
def Founded (s : Sys) (d k : String) (c : Client) (now : Nat) (config : AbuseConfig) :
    Scenario → Prop
  | .failedLogin => ∃ f, config.failedLogin = some f ∧ f.rule.mode = .block ∧
      ∃ l : List Observation, l.Sublist s.observations ∧ f.rule.threshold ≤ l.length ∧
        ∀ o ∈ l, Inside s d k c now f.rule.window o ∧ FailedLoginOf f o
  | .scan => ∃ r, config.scan = some r ∧ r.mode = .block ∧
      ∃ l : List Observation, (l.map fun o => pathPart o.issue.path).Nodup ∧
        r.threshold ≤ l.length ∧ ∀ o ∈ l, Inside s d k c now r.window o ∧ o.status = 404

/-- The profiles activated under one generation have one configuration. -/
def OneConfig (s : Sys) : Prop :=
  ∀ p ∈ s.activated, ∀ q ∈ s.activated, p.generation = q.generation → p.config = q.config

/-! ### A generation stands for its configuration -/

/-- The profile came from `ScenarioProfile.new`, which digested this text for it. -/
def MadeFrom (sha256 : String → Digest) (toml : AbuseConfig → Option String)
    (methodValid : String → Bool) (text : String) (p : ScenarioProfile) : Prop :=
  ∃ rendering ns maxClients maxLogins maxPaths, toml p.config = some rendering ∧
    text = ScenarioProfile.rendered rendering maxClients maxLogins maxPaths ∧
    ScenarioProfile.new sha256 toml methodValid ns p.config maxClients maxLogins maxPaths = .ok p

theorem new_generation (htoml : toml config = some rendering)
    (h : ScenarioProfile.new sha256 toml methodValid ns config maxClients maxLogins maxPaths = .ok p)
    :
    p.generation =
      digestHex (sha256 (ScenarioProfile.rendered rendering maxClients maxLogins maxPaths)) := by
  simp only [ScenarioProfile.new, htoml] at h
  split at h
  · cases h
  split at h
  · cases h
  · cases h; rfl

/-- What stands before the last colon is found again when none follows it. -/
theorem append_colon_inj {m n : Nat} (h : x ++ ":" ++ toString m = y ++ ":" ++ toString n) :
    x = y := by
  have hdigits (n : Nat) : ':' ∉ (toString n).toList := Text.not_mem_toString (by decide) n
  have hsplit := congrArg (fun s => Text.rsplitOnce ':' s.toList) h
  simp only [String.toList_append, append_assoc] at hsplit
  have hparts := (Text.rsplitOnce_append (hdigits m) _).symm.trans
    (hsplit.trans (Text.rsplitOnce_append (hdigits n) _))
  exact String.toList_inj.mp (Prod.mk.inj (Option.some.inj hparts)).1

theorem rendered_inj (h : ScenarioProfile.rendered x a b c = ScenarioProfile.rendered y a' b' c') :
    x = y :=
  append_colon_inj (append_colon_inj (append_colon_inj h))

theorem oneConfig_of_made
    (hmade : ∀ p ∈ s.activated, ∃ text ∈ texts, MadeFrom sha256 toml methodValid text p)
    (htoml : ∀ c c' text, toml c = some text → toml c' = some text → c = c')
    (hdigests : Collisionless sha256 texts) : OneConfig s := by
  intro p hp q hq hgen
  obtain ⟨text, htext, rendering, ns, a, b, c, hr, rfl, hnew⟩ := hmade p hp
  obtain ⟨text', htext', rendering', ns', a', b', c', hr', rfl, hnew'⟩ := hmade q hq
  rw [new_generation hr hnew, new_generation hr' hnew'] at hgen
  have hsame := rendered_inj (hdigests _ htext _ htext' hgen)
  exact htoml p.config q.config rendering hr (hsame ▸ hr')

section founded

variable {s : Sys} {now : Nat} {d k : String} {c : Client} {profile : ScenarioProfile}

/-- The login times of a cell, once a threshold of them is recent, found a ban. -/
theorem founded_login (h : Accounted now s) (hone : OneConfig s) (hc : s.cell d k = some c)
    (hp : profile ∈ s.activated) (hgen : profile.generation = c.generation)
    (hf : profile.config.failedLogin = some f) (hmode : f.rule.mode = .block)
    (hthreshold : f.rule.threshold ≤ c.counters.login.length)
    (hrecent : ∀ x ∈ c.counters.login, now - durationMs f.rule.window ≤ x) :
    Founded s d k c now profile.config .failedLogin := by
  obtain ⟨l, hl, htimes, hall⟩ := (h.cells d k c hc).login
  refine ⟨f, hf, hmode, l, hl, ?_, fun o ho => ?_⟩
  · rw [← htimes, length_map] at hthreshold
    exact hthreshold
  obtain ⟨hthrough, hlogin, p, hpa, hpg, f', hf', hstatus⟩ := hall o ho
  have hrecorded : o ∈ s.observations := hl.subset ho
  have htime : o.time ∈ c.counters.login := by
    rw [← htimes]; exact mem_map_of_mem ho
  refine ⟨⟨hrecorded, hthrough, hrecent _ htime, h.past o hrecorded⟩, ?_⟩
  -- The configurations the ticket and the status were judged by are this one.
  have hsame : p.config = profile.config := hone p hpa profile hp (hpg.trans hgen.symm)
  rw [hsame, hf] at hf'
  cases hf'
  obtain ⟨q, hq, hqg, hwatch⟩ := h.tickets o.issue (h.observed o hrecorded)
  have hsame' : q.config = profile.config :=
    hone q hq profile hp (hqg.trans (hthrough.generation.trans hgen.symm))
  rw [hlogin, hsame', watchesLogin, hf, any_some, eq_comm, Bool.and_eq_true, beq_iff_eq,
    beq_iff_eq] at hwatch
  exact ⟨hwatch.2.symm, hwatch.1.symm, hstatus⟩

/-- A choice for every element of a list. -/
theorem exists_chosen {P : α → β → Prop} (h : ∀ a ∈ l, ∃ b, P a b ∧ f b = a) :
    ∃ m : List β, m.map f = l ∧ ∀ b ∈ m, P (f b) b := by
  induction l with
  | nil => exact ⟨[], rfl, fun b hb => by cases hb⟩
  | cons a l ih =>
    obtain ⟨b, hb, hfb⟩ := h a mem_cons_self
    obtain ⟨m, hm, hall⟩ := ih fun a' ha' => h a' (mem_cons_of_mem _ ha')
    refine ⟨b :: m, by rw [map_cons, hfb, hm], fun b' hb' => ?_⟩
    rcases mem_cons.mp hb' with rfl | hb'
    · rw [hfb]; exact hb
    · exact hall b' hb'

/-- The paths of a cell, once a threshold of them is recent, found a ban. -/
theorem founded_scan (hi : Inv sha256 s) (h : Accounted now s) (hc : s.cell d k = some c)
    (hr : config.scan = some r) (hmode : r.mode = .block)
    (hthreshold : r.threshold ≤ c.counters.paths.size)
    (hrecent : ∀ p x, c.counters.paths.lookup p = some x → now - durationMs r.window ≤ x) :
    Founded s d k c now config .scan := by
  have hchoice : ∀ p ∈ c.counters.paths.keys, ∃ o : Observation,
      (Inside s d k c now r.window o ∧ o.status = 404) ∧ o.issue.ticket.path = p := by
    intro p hp
    obtain ⟨x, hx⟩ := isSome_iff_exists.mp (AList.lookup_isSome.mpr hp)
    obtain ⟨o, ho, hthrough, hpath, hstatus, rfl⟩ := (h.cells d k c hc).paths p x hx
    exact ⟨o, ⟨⟨ho, hthrough, hrecent p _ hx, h.past o ho⟩, hstatus⟩, hpath⟩
  obtain ⟨l, hl, hall⟩ := exists_chosen hchoice
  refine ⟨r, hr, hmode, l, ?_, ?_, hall⟩
  · -- Equal paths have equal digests, and the digests are all different.
    have hdigests : l.map (fun o => o.issue.ticket.path) =
        (l.map fun o => pathPart o.issue.path).map sha256 := by
      rw [List.map_map]
      exact map_congr_left fun o ho =>
        (hi.tickets o.issue (h.observed o (hall o ho).1.recorded)).path
    have hnodup : c.counters.paths.keys.Nodup := c.counters.paths.keys_nodup
    rw [← hl, hdigests] at hnodup
    exact Nodup.of_map _ hnodup
  · have hlength := congrArg length hl
    rw [length_map] at hlength
    rw [hlength]
    exact Nat.le_trans hthreshold (Nat.le_of_eq (length_map _).symm)

end founded

/-- The login times of a cell stand in order. -/
theorem login_ordered (h : Accounted t s) (hc : Evidenced s d k c) :
    c.counters.login.Pairwise (· ≤ ·) := by
  obtain ⟨l, hl, htimes, -⟩ := hc.login
  rw [← htimes]
  exact h.ordered.sublist (hl.map _)

/-- An observation that reports a ban leaves its client under a ban for which a
threshold of evidence is on record. -/
theorem ban_founded (hi : Inv sha256 s) (h : Accounted t s) (hone : OneConfig s) (ht : t ≤ now)
    (hcreated : (step sha256 s ⟨now, .observe i status localDenial⟩).1 = .evidence ⟨detected, true⟩)
    :
    ∃ issue profile c ban, s.issued[i]? = some issue ∧
      s.registry.profiles.lookup issue.ticket.ns = some profile ∧
      (step sha256 s ⟨now, .observe i status localDenial⟩).2.cell issue.ticket.domain
        issue.ticket.key = some c ∧ c.ban = some ban ∧
      Founded (step sha256 s ⟨now, .observe i status localDenial⟩).2 issue.ticket.domain
        issue.ticket.key c now profile.config ban.scenario := by
  have haccounted : Accounted now (step sha256 s ⟨now, .observe i status localDenial⟩).2 :=
    accounted_step hi h ⟨now, .observe i status localDenial⟩ ht
  have hinv : Inv sha256 (step sha256 s ⟨now, .observe i status localDenial⟩).2 := inv_step hi _
  have hactivated : (step sha256 s ⟨now, .observe i status localDenial⟩).2.activated =
      s.activated := by
    simp only [step]
    cases s.issued[i]? <;> rfl
  have hone' : OneConfig (step sha256 s ⟨now, .observe i status localDenial⟩).2 := by
    rw [OneConfig, hactivated]; exact hone
  cases hissue : s.issued[i]? with
  | none => simp [step, hissue] at hcreated
  | some issue =>
    have hev : (s.registry.observe now issue.ticket status localDenial).1 = ⟨detected, true⟩ := by
      simpa [step, hissue] using hcreated
    have hcells : ∀ d k, (step sha256 s ⟨now, .observe i status localDenial⟩).2.cell d k =
        (s.registry.observe now issue.ticket status localDenial).2.cell d k := by
      simp [step, hissue, Sys.cell]
    rcases observe_cases hi.lasting now issue.ticket status localDenial with
      ⟨hnothing, -⟩ | ⟨-, profile, c, hf⟩
    · rw [hnothing] at hev; cases hev
    obtain ⟨crossing, hmade⟩ := observeClient_created s.registry profile issue.ticket status now c
      (by rw [← hf.evidence, hev])
    have hcell := (hcells _ _).trans hf.after
    have hprofile : profile ∈ (step sha256 s ⟨now, .observe i status localDenial⟩).2.activated := by
      rw [hactivated]; exact h.inForce _ _ hf.inForce
    refine ⟨issue, profile, _, _, rfl, hf.inForce, hcell, hmade.ban, ?_⟩
    have hsettled : Evidenced s issue.ticket.domain issue.ticket.key (c.settled now) :=
      evidenced_settled (Grows.refl now s) (h.cells _ _ c hf.before)
    have hspec := Counters.observe_spec profile.config now issue.ticket.login issue.ticket.path
      status (c.settled now).counters
    have hblocks := hmade.blocks
    rcases hspec.crossings crossing hmade.crossed with
      ⟨f, hfl, rfl, hthreshold, hrecent⟩ | ⟨r, hr, rfl, hthreshold, hrecent⟩
    · exact founded_login haccounted hone' hcell hprofile (hf.generation.trans hmade.generation)
        hfl hblocks (by rw [hmade.counters]; exact hthreshold)
        (by rw [hmade.counters]; exact hrecent (login_ordered h hsettled))
    · exact founded_scan hinv haccounted hcell hr hblocks
        (by rw [hmade.counters]; exact hthreshold) (by rw [hmade.counters]; exact hrecent)

/-! ## Tickets behind their cell -/

/-- The ticket is of this cell or of an earlier one. -/
def NotAhead (t : Ticket) (c : Client) : Prop :=
  t.incarnation < c.incarnation ∨
    (t.incarnation = c.incarnation ∧ t.reset ≤ c.reset ∧ t.generation = c.generation)

/-- The ticket is of an earlier cell, or of a time before the cell's last ban. -/
def Behind (t : Ticket) (c : Client) : Prop :=
  t.incarnation < c.incarnation ∨
    (t.incarnation = c.incarnation ∧ (t.reset < c.reset ∨ (t.reset = c.reset ∧ c.ban.isSome)))

/-- The ticket is behind whatever cell its client has. -/
def Outdated (s : Sys) (t : Ticket) : Prop :=
  t.incarnation ≤ s.registry.incarnation ∧ ∀ c, s.cell t.domain t.key = some c → Behind t c

section versions

variable {s : Sys} {t : Ticket} {c c' : Client}

theorem notAhead_lineage (h : NotAhead t c) (hl : Lineage c c') : NotAhead t c' := by
  rcases h with h | ⟨hi, hr, hg⟩
  · exact .inl (by rw [hl.incarnation]; exact h)
  refine .inr ⟨hi.trans hl.incarnation.symm, ?_, hg.trans hl.generation.symm⟩
  rcases hl.reset with h | ⟨h, -⟩
  · omega
  · omega

theorem behind_lineage (h : Behind t c) (hl : Lineage c c') : Behind t c' := by
  rcases h with h | ⟨hi, hr⟩
  · exact .inl (by rw [hl.incarnation]; exact h)
  refine .inr ⟨hi.trans hl.incarnation.symm, ?_⟩
  rcases hl.reset with hsame | ⟨hnext, -⟩
  · rcases hr with hr | ⟨hr, hban⟩
    · exact .inl (by omega)
    · exact .inr ⟨hr.trans hsame.symm, by rw [hl.ban hsame hban]; exact hban⟩
  · exact .inl (by rcases hr with hr | ⟨hr, -⟩ <;> omega)

/-- A ticket that is not ahead is behind once the cell is under a ban. -/
theorem behind_of_banned (h : NotAhead t c) (hb : c.ban.isSome) : Behind t c := by
  rcases h with h | ⟨hi, hr, -⟩
  · exact .inl h
  exact Or.inr ⟨hi, by rcases Nat.lt_or_eq_of_le hr with h | h
                       · exact .inl h
                       · exact .inr ⟨h, hb⟩⟩

/-- A ticket behind its cell stays behind, whatever happens. -/
theorem outdated_step (hi : Inv sha256 s) (h : Outdated s t) : Outdated (step sha256 s e).2 t := by
  have haround : Around s e.action (step sha256 s e).2 := around_step hi.lasting e
  refine ⟨Nat.le_trans h.1 haround.incarnation, fun c' hc' => ?_⟩
  rcases origin_lineage (cell_origin hi.lasting hc') with ⟨c, hc, hl⟩ | ⟨_, _, _, _, _, _, hf⟩
  · exact behind_lineage (h.2 c hc) hl
  refine .inl ?_
  rw [hf.incarnation]
  exact Nat.lt_of_le_of_lt h.1 hf.later

theorem outdated_run (hi : Inv sha256 s) (h : Outdated s t) (es : List Event) :
    Outdated (run sha256 s es) t := by
  induction es generalizing s with
  | nil => exact h
  | cons e es ih => exact ih (inv_step hi e) (outdated_step hi h)

/-- No ticket handed out is ahead of its client's cell. -/
def Trailing (s : Sys) : Prop :=
  ∀ i ∈ s.issued, ∀ c, s.cell i.ticket.domain i.ticket.key = some c → NotAhead i.ticket c

theorem trailing_step (hi : Inv sha256 s) (h : Trailing s)
    (hd : Collisionless sha256 (step sha256 s e).2.namespaces) : Trailing (step sha256 s e).2 := by
  intro i hissued c hc
  rcases issued_step hi.lasting hissued with hold | ⟨ns, domain, identity, profile, ip, -, hns,
    hprofile, hprofiles, -, ht⟩
  · rcases origin_lineage (cell_origin hi.lasting hc) with ⟨c₀, hc₀, hl⟩ | ⟨_, _, _, _, _, _, hf⟩
    · exact notAhead_lineage (h i hold c₀ hc₀) hl
    refine .inl ?_
    rw [hf.incarnation]
    exact Nat.lt_of_le_of_lt (hi.tickets i hold).incarnation hf.later
  -- The new ticket copies the version of the cell it is handed out for.
  obtain ⟨c₀, hc₀, hinc, hreset⟩ := ht.cell
  rw [ht.domain, ht.key] at hc
  obtain rfl : c₀ = c := Option.some.inj (hc₀.symm.trans hc)
  have hcns : c₀.ns = i.ticket.ns := ticket_ns (inv_step hi e) hd hissued c₀
    (by rw [ht.domain, ht.key]; exact hc)
  obtain ⟨p, hp, hpg⟩ := (inv_step hi e).inForce _ _ c₀ hc
  rw [hcns, ht.ns, hprofiles, hprofile] at hp
  cases hp
  exact .inr ⟨hinc, Nat.le_of_eq hreset, ht.generation.trans hpg⟩

theorem namespaces_run (hi : Inv sha256 s) : s.namespaces ⊆ (run sha256 s es).namespaces := by
  induction es generalizing s with
  | nil => exact fun _ h => h
  | cons e es ih =>
    have haround : Around s e.action (step sha256 s e).2 := around_step hi.lasting e
    exact fun _ h => ih (inv_step hi e) (haround.namespaces h)

theorem collisionless_before (hi : Inv sha256 s)
    (h : Collisionless sha256 (run sha256 s es).namespaces) : Collisionless sha256 s.namespaces :=
  fun a ha b hb => h a (namespaces_run hi ha) b (namespaces_run hi hb)

theorem trailing_run (hi : Inv sha256 s) (h : Trailing s) (es : List Event)
    (hd : Collisionless sha256 (run sha256 s es).namespaces) : Trailing (run sha256 s es) := by
  induction es generalizing s with
  | nil => exact h
  | cons e es ih =>
    have hi' := inv_step hi e
    have hd' := collisionless_before hi' hd
    exact ih hi' (trailing_step hi h hd') hd

/-- What ends the life of the tickets handed out so far: the client's ban is
released, the client is under a ban (which ends by a release or by its expiry),
its cell is evicted, or its namespace is no longer in force under the generation. -/
inductive Boundary (sha256 : String → Digest) (s : Sys) (e : Event) (t : Ticket) : Prop where
  | released (ns identity id : String) (actor : EventQueue.NativeActor)
      (he : e.action = .release ns t.domain identity id actor)
      (hk : Registry.releaseKey sha256 ns identity = t.key)
      (h : (Registry.releaseAs sha256 s.registry e.now ns t.domain identity id actor).1.released =
        true)
  | banned (c : Client) (hc : s.cell t.domain t.key = some c) (h : c.ban.isSome)
  | evicted (h : (step sha256 s e).2.cell t.domain t.key = none)
  | regenerated (h : ((step sha256 s e).2.registry.profiles.lookup t.ns).map
      ScenarioProfile.generation ≠ some t.generation)

theorem outdated_of_banned (hi : Inv sha256 s) (h : Trailing s) (hissue : issue ∈ s.issued)
    (hc : s.cell issue.ticket.domain issue.ticket.key = some c) (hb : c.ban.isSome) :
    Outdated s issue.ticket := by
  refine ⟨(hi.tickets issue hissue).incarnation, fun c' hc' => ?_⟩
  obtain rfl : c = c' := Option.some.inj (hc.symm.trans hc')
  exact behind_of_banned (h issue hissue c hc) hb

theorem outdated_of_boundary (hi : Inv sha256 s) (h : Trailing s) (e : Event)
    (hd : Collisionless sha256 (step sha256 s e).2.namespaces) (issue : Issue) (hissue : issue ∈ s.issued)
    (hb : Boundary sha256 s e issue.ticket) : Outdated (step sha256 s e).2 issue.ticket := by
  have hissue' : issue ∈ (step sha256 s e).2.issued := by
    have hgrows : Grows e.now s (step sha256 s e).2 := grows_step
    obtain ⟨new, hnew⟩ := hgrows.issued
    rw [hnew]
    exact mem_append_left _ hissue
  have hyoung := ((inv_step hi e).tickets issue hissue').incarnation
  cases hb with
  | released ns identity id actor he hk hr =>
    refine outdated_step hi ?_
    rcases release_cases hi.lasting sha256 e.now ns issue.ticket.domain identity id actor with
      ⟨hnot, -⟩ | ⟨c, hf⟩
    · rw [hr] at hnot; cases hnot
    have hcell := hf.before
    rw [hk] at hcell
    refine outdated_of_banned hi h hissue hcell ?_
    have hlifted := hf.released.symm.trans hr
    by_contra hnone
    have hban : c.ban = none := by simpa using hnone
    have hsettled : c.settled e.now = c :=
      Client.settled_of_not_due c e.now (by simp [Client.banDue, hban])
    simp [Registry.releaseClient, hsettled, hban] at hlifted
  | banned c hc hban => exact outdated_step hi (outdated_of_banned hi h hissue hc hban)
  | evicted hnone => exact ⟨hyoung, fun c hc => by rw [hnone] at hc; cases hc⟩
  | regenerated hgen =>
    refine ⟨hyoung, fun c hc => ?_⟩
    have hns := ticket_ns (inv_step hi e) hd hissue' c hc
    obtain ⟨p, hp, hpg⟩ := (inv_step hi e).inForce _ _ c hc
    rw [hns] at hp
    rcases trailing_step hi h hd issue hissue' c hc with hlt | ⟨-, -, hsame⟩
    · exact .inl hlt
    · exact absurd (by rw [hp, map_some, hpg, hsame]) hgen

/-- The cells after a step at `now` that at most settled the cell of the ticket. -/
def OnlySettled (now : Nat) (t : Ticket) (s s' : Sys) : Prop :=
  ∀ d k, s'.cell d k = s.cell d k ∨
    (d = t.domain ∧ k = t.key ∧ s'.cell d k = (s.cell d k).map fun c => c.settled now) ∨
    (u64Max ≤ now ∧ s'.cell d k = none)

/-- An observation through an outdated ticket reports nothing and counts nothing. -/
theorem outdated_observe (hi : Inv sha256 s) (i : Nat) (issue : Issue)
    (hissue : s.issued[i]? = some issue) (h : Outdated s issue.ticket) (now status : Nat)
    (localDenial : Bool) :
    (step sha256 s ⟨now, .observe i status localDenial⟩).1 = .evidence {} ∧
      OnlySettled now issue.ticket s (step sha256 s ⟨now, .observe i status localDenial⟩).2 := by
  simp only [step, hissue]
  rcases observe_cases hi.lasting now issue.ticket status localDenial with
    ⟨hnothing, hsame⟩ | ⟨-, profile, c, hf⟩
  · exact ⟨by rw [hnothing], fun d k => (hsame d k).imp_right .inr⟩
  rcases observeClient_cases s.registry profile issue.ticket status now c with
    ⟨hsettled, hnothing⟩ | ⟨-, hinc, hreset, hban, -⟩
  · refine ⟨by rw [hf.evidence, hnothing], fun d k => ?_⟩
    by_cases hdk : d = issue.ticket.domain ∧ k = issue.ticket.key
    · obtain ⟨rfl, rfl⟩ := hdk
      have hbefore : s.cell issue.ticket.domain issue.ticket.key = some c := hf.before
      refine .inr (.inl ⟨rfl, rfl, hf.after.trans ?_⟩)
      rw [hbefore, hsettled]; rfl
    · exact .inl (hf.others d k hdk)
  · -- A ticket behind the cell cannot agree with it once a due ban is settled.
    have hbehind := behind_lineage (h.2 c hf.before) (lineage_settled c now (c.settled now).idleAt)
    have hversion := Client.settled_incarnation c now
    rcases hbehind with hlt | ⟨-, hlt | ⟨-, hbanned⟩⟩
    · have hlt : issue.ticket.incarnation < (c.settled now).incarnation := hlt
      omega
    · have hlt : issue.ticket.reset < (c.settled now).reset := hlt
      omega
    · have hbanned := hbanned
      rw [hban] at hbanned
      cases hbanned

end versions

/-- The place of a ticket among those handed out does not change. -/
theorem issued_run (s : Sys) (es : List Event) (i : Nat) (issue : Issue)
    (h : s.issued[i]? = some issue) : (run sha256 s es).issued[i]? = some issue := by
  induction es generalizing s with
  | nil => exact h
  | cons e es ih =>
    refine ih (step sha256 s e).2 ?_
    have hgrows : Grows e.now s (step sha256 s e).2 := grows_step
    obtain ⟨new, hnew⟩ := hgrows.issued
    obtain ⟨hlt, -⟩ := List.getElem?_eq_some_iff.mp h
    rw [hnew, getElem?_append_left hlt, h]

/-- At the end of any run, an observation creates a ban only on a threshold of
evidence inside the rule's window, all of it through tickets of the cell as it is;
and through a ticket that was handed out before a release, a ban, an eviction or a
change of generation it creates nothing and counts nothing. -/
theorem bans_are_founded_and_stale_tickets_inert (sha256 : String → Digest) (epoch : String)
    (limits : DomainStore.Limits) (wallOrigin monoOrigin : Nat) (queue : Option EventQueue.Queue)
    (before : List Event) (now i status : Nat) (localDenial : Bool) (s : Sys)
    (hs : run sha256 (Sys.start (Registry.new epoch limits wallOrigin monoOrigin queue)) before = s)
    (hclock : Trace.Clocked Event.now 0 (before ++ [⟨now, .observe i status localDenial⟩]))
    (toml : AbuseConfig → Option String) (methodValid : String → Bool) (texts : List String)
    (hmade : ∀ p ∈ s.activated, ∃ text ∈ texts, MadeFrom sha256 toml methodValid text p)
    (htoml : ∀ c c' text, toml c = some text → toml c' = some text → c = c')
    (hgenerations : Collisionless sha256 texts) (hdistinct : Collisionless sha256 s.namespaces) :
    let out := step sha256 s ⟨now, .observe i status localDenial⟩
    (∀ detected, out.1 = .evidence ⟨detected, true⟩ →
      ∃ issue profile c ban, s.issued[i]? = some issue ∧
        s.registry.profiles.lookup issue.ticket.ns = some profile ∧
        out.2.cell issue.ticket.domain issue.ticket.key = some c ∧ c.ban = some ban ∧
        Founded out.2 issue.ticket.domain issue.ticket.key c now profile.config ban.scenario) ∧
      ∀ first e rest issue, before = first ++ e :: rest →
        let s₀ := run sha256 (Sys.start (Registry.new epoch limits wallOrigin monoOrigin queue)) first
        s₀.issued[i]? = some issue → Boundary sha256 s₀ e issue.ticket →
        out.1 = .evidence {} ∧ OnlySettled now issue.ticket s out.2 := by
  intro out
  subst hs
  have hstart : Inv sha256 (Sys.start (Registry.new epoch limits wallOrigin monoOrigin queue)) :=
    inv_start
  rw [clocked_append] at hclock
  refine ⟨fun detected hcreated => ?_, ?_⟩
  · have haccounted := accounted_run hstart accounted_start hclock.1
    have hone := oneConfig_of_made hmade htoml hgenerations
    exact ban_founded (inv_run hstart before) haccounted hone hclock.2.1 hcreated
  · rintro first e rest issue rfl s₀ hissue hboundary
    have hi₀ : Inv sha256 s₀ := inv_run hstart first
    have hsplit : run sha256 (Sys.start (Registry.new epoch limits wallOrigin monoOrigin queue))
        (first ++ e :: rest) = run sha256 (step sha256 s₀ e).2 rest := by
      simp only [run, final_append, final_cons, s₀]
    have hdistinct₁ : Collisionless sha256 (run sha256 (step sha256 s₀ e).2 rest).namespaces :=
      hsplit ▸ hdistinct
    have hd' : Collisionless sha256 (step sha256 s₀ e).2.namespaces :=
      collisionless_before (inv_step hi₀ e) hdistinct₁
    have hd₀ : Collisionless sha256 s₀.namespaces :=
      fun a ha b hb => hd' a ((around_step hi₀.lasting e).namespaces ha) b
        ((around_step hi₀.lasting e).namespaces hb)
    have htrailing : Trailing s₀ := trailing_run hstart (fun i h => by cases h) first hd₀
    have hold : Outdated (step sha256 s₀ e).2 issue.ticket :=
      outdated_of_boundary hi₀ htrailing e hd' issue (mem_of_getElem? hissue) hboundary
    have hissued : (run sha256 (step sha256 s₀ e).2 rest).issued[i]? = some issue :=
      issued_run s₀ (e :: rest) i issue hissue
    have hfinal := outdated_observe (inv_run (inv_step hi₀ e) rest) i issue hissued
      (outdated_run (inv_step hi₀ e) hold rest) now status localDenial
    rw [← hsplit] at hfinal
    exact hfinal

section twoLogins

open AbuseBanPersistence (digests loginConfig loginProfile loginToml twoLogins)

/-- The rendering of the one configuration the run uses. -/
def renderings (c : AbuseConfig) : Option String := if c = loginConfig then some loginToml else none

theorem renderings_inj (c c' : AbuseConfig) (text : String) (h : renderings c = some text)
    (h' : renderings c' = some text) : c = c' := by
  simp only [renderings, ite_none_right_eq_some] at h h'
  rw [h.1, h'.1]

theorem loginProfile_made :
    MadeFrom digests renderings (fun method => method == "POST")
      (ScenarioProfile.rendered loginToml 4 4 4) loginProfile :=
  ⟨loginToml, "shop", 4, 4, 4, if_pos rfl, rfl, by decide +kernel⟩

theorem loginProfile_made_of_mem (s : Sys) (hs : s.activated = [loginProfile]) :
    ∀ p ∈ s.activated, ∃ text ∈ [ScenarioProfile.rendered loginToml 4 4 4],
      MadeFrom digests renderings (fun method => method == "POST") text p := by
  intro p hp
  rw [hs] at hp
  rw [mem_singleton.mp hp]
  exact ⟨_, mem_singleton.mpr rfl, loginProfile_made⟩

def bannedLogins : List Event := twoLogins ++ [⟨13, .observe 1 401 false⟩]

def releasedLogins : List Event :=
  bannedLogins ++ [⟨20, .release "shop" "shop.test" "2001:db8::1" "e-1" {}⟩]

theorem bans_are_founded_and_stale_tickets_inert_two_logins :
    let start := Sys.start (Registry.new "e" ⟨4, 4⟩ 0 0 none)
    let s := run digests start twoLogins
    let out := step digests s ⟨13, .observe 1 401 false⟩
    (∃ issue profile c ban, s.issued[1]? = some issue ∧
      s.registry.profiles.lookup issue.ticket.ns = some profile ∧
      out.2.cell issue.ticket.domain issue.ticket.key = some c ∧ c.ban = some ban ∧
      Founded out.2 issue.ticket.domain issue.ticket.key c 13 profile.config ban.scenario) ∧
    (step digests (run digests start releasedLogins) ⟨21, .observe 0 401 false⟩).1 =
      .evidence {} := by
  intro start s out
  constructor
  · exact (bans_are_founded_and_stale_tickets_inert digests "e" ⟨4, 4⟩ 0 0 none twoLogins 13 1 401
      false s rfl (by decide) renderings (fun method => method == "POST") _
      (loginProfile_made_of_mem s (by decide)) renderings_inj (by decide +kernel) (by decide)).1 true
      (by decide)
  have hinert := (bans_are_founded_and_stale_tickets_inert digests "e" ⟨4, 4⟩ 0 0 none
    releasedLogins 21 0 401 false (run digests start releasedLogins) rfl (by decide) renderings
    (fun method => method == "POST") _ (loginProfile_made_of_mem _ (by decide)) renderings_inj
    (by decide +kernel) (by decide)).2
  obtain ⟨issue, hissue⟩ : ∃ issue, (run digests start bannedLogins).issued[0]? = some issue :=
    isSome_iff_exists.mp (by decide)
  have hticket : some issue.ticket = some ⟨"e", loginProfile.generation, 1, 0, "shop", "shop.test",
      "2001:db8::1", clientKey digests "shop" "2001:db8::1", true, digests "/login"⟩ := by
    rw [← map_some, ← hissue]; decide
  refine (hinert bannedLogins _ [] issue rfl hissue ?_).1
  rw [Option.some.inj hticket]
  exact .released "shop" "2001:db8::1" "e-1" {} rfl (by decide) (by decide)

end twoLogins

end AbuseBanSoundness
