import Pingap.AbuseRegistryRun

/-!
# A ban holds until its deadline

Once an observation has created a ban, every admission of that client before the
deadline is refused with that decision, whatever else the registry does in
between, unless the ban is released by its id, its namespace loses the generation
it was made under, or its domain is no longer routed.
-/

namespace AbuseBanPersistence

open MachineArith AbuseScenario AbuseRegistry AbuseRegistryRun List Option Trace
open AbuseRegistry.Registry (clientKey)

variable {sha256 : String → Digest}

/-- The step takes the ban away for a reason an operator gave: a release of that
very id, an activation after which its namespace is not in force under its
generation, or a host set that no longer knows its domain. -/
def Lifts (sha256 : String → Digest) (s : Sys) (e : Event) (b : Decision)
    (ns generation : String) : Prop :=
  match e.action with
  | .release ns' domain identity id actor => id = b.id ∧
      (Registry.releaseAs sha256 s.registry e.now ns' domain identity id actor).1.released = true
  | .activate profiles retained =>
      ((s.registry.nextProfiles profiles retained).lookup ns).map ScenarioProfile.generation ≠
        some generation
  | .retainHosts hosts => (hosts.classify b.domain).isOverflow = true
  | _ => False

def Undisturbed (sha256 : String → Digest) (b : Decision) (ns generation : String) :
    Sys → List Event → Prop
  | _, [] => True
  | s, e :: es => ¬ Lifts sha256 s e b ns generation ∧
      Undisturbed sha256 b ns generation (step sha256 s e).2 es

structure Held (s : Sys) (d k : String) (b : Decision) (ns generation : String) (c : Client) :
    Prop where
  cell : s.cell d k = some c
  ban : c.ban = some b
  ns : c.ns = ns
  generation : c.generation = generation

/-- The listings under way started no later than `t`. -/
def ListingsBy (t : Nat) (s : Sys) : Prop := ∀ l ∈ s.listings, l.now ≤ t

theorem listingsBy_step (s : Sys) (e : Event) (t : Nat) (ht : t ≤ e.now) (h : ListingsBy t s) :
    ListingsBy e.now (step sha256 s e).2 := by
  have hold : ListingsBy e.now s := fun l hl => Nat.le_trans (h l hl) ht
  obtain ⟨now, action⟩ := e
  cases action with
  | observe i status localDenial =>
    simp only [step]
    cases s.issued[i]? with
    | none | some => exact hold
  | startListing profile domain after limit =>
    intro l hl
    simp only [step, mem_append, mem_singleton] at hl
    rcases hl with hl | rfl
    · exact hold l hl
    · exact Nat.le_refl _
  | stepListing i =>
    simp only [step]
    cases hi : s.listings[i]? with
    | none => exact hold
    | some l₀ =>
      intro l hl
      rcases mem_or_eq_of_mem_set hl with hl | rfl
      · exact hold l hl
      · rw [stepListing_now]
        exact hold l₀ (mem_of_getElem? hi)
  | admitClient | release | activate | retainHosts => exact hold

theorem listingsBy_run (h : ListingsBy t s) (hc : Clocked Event.now t es) :
    ListingsBy (lastClock Event.now t es) (run sha256 s es) :=
  final_clocked (step sha256) Event.now ListingsBy
    (fun t s e ht h => listingsBy_step s e t ht h) es t s h hc

section kept

variable {s : Sys} {now : Nat} {d k ns generation : String} {b : Decision} {c : Client}

/-- A cell kept as it was, up to the end of the clock, is still under its ban. -/
theorem held_of_same (h : Held s d k b ns generation c) (hend : now < u64Max)
    (hs : s'.cell d k = s.cell d k ∨ (u64Max ≤ now ∧ s'.cell d k = none)) :
    Held s' d k b ns generation c := by
  rcases hs with hs | ⟨hlate, -⟩
  · exact ⟨hs.trans h.cell, h.ban, h.ns, h.generation⟩
  · omega

/-- Housekeeping does not give up a cell whose ban still runs. -/
theorem held_of_tended {made : Client → Prop} (h : Held s d k b ns generation c)
    (hnow : now < b.deadline) (hend : now < u64Max)
    (ht : Tended now made (s.cell d k) (s'.cell d k)) :
    ∃ c', Held s' d k b ns generation c' := by
  have hkept := Client.settled_of_lt h.ban hnow
  have hstays : ¬ ((c.settled now).ban = none ∨ u64Max ≤ now) := by
    rw [hkept, h.ban]
    rintro (hn | hn)
    · cases hn
    · omega
  rw [h.cell] at ht
  generalize ho : s'.cell d k = o at ht
  cases ht with
  | same => exact ⟨c, ho, h.ban, h.ns, h.generation⟩
  | idle _ x => exact ⟨_, ho, h.ban, h.ns, h.generation⟩
  | settled _ x => rw [hkept] at ho; exact ⟨_, ho, h.ban, h.ns, h.generation⟩
  | gone _ hg => exact absurd hg hstays
  | fresh _ f _ hg => exact absurd (hg c rfl) hstays

section

variable (hl : s.registry.Lasting) (h : Held s d k b ns generation c) (hnow : now < b.deadline)
  (hend : now < u64Max)

include hl h hnow hend

/-- An observation of a client under a ban decides nothing. -/
theorem held_observe (i status : Nat) (localDenial : Bool) :
    Held (step sha256 s ⟨now, .observe i status localDenial⟩).2 d k b ns generation c := by
  have hkept := Client.settled_of_lt h.ban hnow
  simp only [step]
  cases hissue : s.issued[i]? with
  | none => exact h
  | some issue =>
    rcases observe_cases hl now issue.ticket status localDenial with ⟨-, hsame⟩ | ⟨-, profile, c₀, hf⟩
    · exact held_of_same h hend (hsame d k)
    by_cases hdk : d = issue.ticket.domain ∧ k = issue.ticket.key
    · obtain ⟨rfl, rfl⟩ := hdk
      obtain rfl : c = c₀ := Option.some.inj (h.cell.symm.trans hf.before)
      rcases observeClient_cases s.registry profile issue.ticket status now c with
        ⟨hc, -⟩ | ⟨-, -, -, hnone, -⟩
      · exact ⟨hf.after.trans (by rw [hc, hkept]), h.ban, h.ns, h.generation⟩
      · rw [hkept, h.ban] at hnone; cases hnone
    · exact held_of_same h hend (.inl (hf.others d k hdk))

/-- A release of another id leaves the ban. -/
theorem held_release {id : String}
    (hlift : ¬ Lifts sha256 s ⟨now, .release ns' domain identity id actor⟩ b ns generation) :
    Held (step sha256 s ⟨now, .release ns' domain identity id actor⟩).2 d k b ns generation c := by
  have hkept := Client.settled_of_lt h.ban hnow
  rcases release_cases hl sha256 now ns' domain identity id actor with ⟨-, hsame⟩ | ⟨c₀, hf⟩
  · exact held_of_same h hend (hsame d k)
  by_cases hdk : d = domain ∧ k = Registry.releaseKey sha256 ns' identity
  · obtain ⟨rfl, rfl⟩ := hdk
    obtain rfl : c = c₀ := Option.some.inj (h.cell.symm.trans hf.before)
    have hother : b.id ≠ id := by
      rintro rfl
      refine hlift ⟨rfl, hf.released.trans ?_⟩
      simp [Registry.releaseClient, hkept, h.ban]
    have hsame : (Registry.releaseClient now id c).1 = c := by
      simp [Registry.releaseClient, hkept, h.ban, hother]
    exact ⟨hf.after.trans (by rw [hsame]), h.ban, h.ns, h.generation⟩
  · exact held_of_same h hend (.inl (hf.others d k hdk))

omit hnow in
/-- So does an activation under which its generation stays in force. -/
theorem held_activate (hlift : ¬ Lifts sha256 s ⟨now, .activate profiles retained⟩ b ns generation) :
    Held (step sha256 s ⟨now, .activate profiles retained⟩).2 d k b ns generation c := by
  have hforce : Registry.inForce (s.registry.nextProfiles profiles retained) c = true := by
    have hgen := not_not.mp hlift
    rw [← h.ns, ← h.generation] at hgen
    obtain ⟨p, hp, hg⟩ := map_eq_some_iff.mp hgen
    simp [Registry.inForce, hp, hg]
  refine held_of_same h hend ?_
  rcases activate_cell hl now profiles retained d k with hc | hc
  · refine .inl (hc.trans ?_)
    have hcell : s.registry.cell d k = some c := h.cell
    rw [hcell]
    exact (filter_some_pos hforce).trans hcell.symm
  · exact .inr hc

/-- A listing settles at the time it started, and that is no later than now. -/
theorem held_stepListing (hlist : ListingsBy now s) (i : Nat) :
    Held (step sha256 s ⟨now, .stepListing i⟩).2 d k b ns generation c := by
  simp only [step]
  cases hi : s.listings[i]? with
  | none => exact h
  | some l =>
    have hkept := Client.settled_of_lt h.ban
      (Nat.lt_of_le_of_lt (hlist l (mem_of_getElem? hi)) hnow)
    have hcell : s.registry.cell d k = some c := h.cell
    refine held_of_same h hend ?_
    rcases (stepListing_listed hl now l).cells d k with hc | hc | hc
    · exact .inl hc
    · exact .inl (hc.trans (by rw [hcell, map_some, hkept]; exact hcell.symm))
    · exact .inr hc

end

/-- A step before the deadline that does not lift the ban leaves it in force. -/
theorem held_step (hi : Inv sha256 s) (hlist : ListingsBy e.now s)
    (h : Held s d k b ns generation c) (hd : b.domain = d) (hnow : e.now < b.deadline)
    (hend : b.deadline ≤ u64Max) (hlift : ¬ Lifts sha256 s e b ns generation) :
    ∃ c', Held (step sha256 s e).2 d k b ns generation c' := by
  have hl := hi.lasting
  have hclock : e.now < u64Max := Nat.lt_of_lt_of_le hnow hend
  obtain ⟨now, action⟩ := e
  cases action with
  | admitClient ns' expected domain identity method path =>
    have hstep := admission_step sha256 hl now ns' expected domain identity method path
    exact held_of_tended h hnow hclock (hstep.cells d k)
  | observe => exact ⟨c, held_observe hl h hnow hclock _ _ _⟩
  | release => exact ⟨c, held_release hl h hnow hclock hlift⟩
  | activate => exact ⟨c, held_activate hl h hclock hlift⟩
  | retainHosts hosts =>
    have hknown : (hosts.classify d).isOverflow = false := by
      rw [← hd]; exact Bool.eq_false_iff.mpr hlift
    refine ⟨c, held_of_same h hclock (.inl ?_)⟩
    exact (retainHosts_cell now hosts d k).trans (by rw [hknown]; rfl)
  | startListing => exact ⟨c, h.cell, h.ban, h.ns, h.generation⟩
  | stepListing => exact ⟨c, held_stepListing hl h hnow hclock hlist _⟩

end kept

/-- Along a run that stays before the deadline and lifts nothing, the ban stays. -/
theorem held_run (es : List Event) (s : Sys) (t : Nat) (hi : Inv sha256 s) (hlist : ListingsBy t s)
    (h : Held s d k b ns generation c) (hd : b.domain = d) (hend : b.deadline ≤ u64Max)
    (hc : Clocked Event.now t es) (hlast : lastClock Event.now t es < b.deadline)
    (hu : Undisturbed sha256 b ns generation s es) :
    ∃ c', Held (run sha256 s es) d k b ns generation c' := by
  induction es generalizing s t c with
  | nil => exact ⟨c, h⟩
  | cons e es ih =>
    have hnow : e.now < b.deadline :=
      Nat.lt_of_le_of_lt (clocked_le_last Event.now e.now es hc.2) hlast
    have hlistNow : ListingsBy e.now s := fun l hl => Nat.le_trans (hlist l hl) hc.1
    obtain ⟨c', h'⟩ := held_step hi hlistNow h hd hnow hend hu.1
    exact ih (step sha256 s e).2 e.now (inv_step hi e) (listingsBy_step s e t hc.1 hlist) h' hc.2
      hlast hu.2

/-- The ban is of the ticket's client. -/
structure BanOf (t : Ticket) (b : Decision) : Prop where
  profile : b.profile = t.ns
  domain : b.domain = t.domain
  clientIp : b.clientIp = t.identity
  deadline : b.deadline ≤ u64Max

/-- An observation that reports a ban puts the client of its ticket under it. -/
theorem held_created (hi : Inv sha256 s) (hdistinct : Collisionless sha256 s.namespaces)
    (h : (step sha256 s ⟨now, .observe i status localDenial⟩).1 = .evidence ⟨detected, true⟩) :
    ∃ issue b c, s.issued[i]? = some issue ∧ BanOf issue.ticket b ∧
      Held (step sha256 s ⟨now, .observe i status localDenial⟩).2 issue.ticket.domain
        issue.ticket.key b issue.ticket.ns issue.ticket.generation c := by
  simp only [step] at h ⊢
  cases hissue : s.issued[i]? with
  | none => rw [hissue] at h; cases h
  | some issue =>
    rw [hissue] at h
    have hev := Answer.evidence.inj h
    rcases observe_cases hi.lasting now issue.ticket status localDenial with
      ⟨hnothing, -⟩ | ⟨-, profile, c, hf⟩
    · rw [hnothing] at hev; cases hev
    rw [hf.evidence] at hev
    obtain ⟨crossing, hmade⟩ := observeClient_created s.registry profile issue.ticket status
      now c (by rw [hev])
    have hlin := lineage_observed s.registry profile issue.ticket status now c
    have hns := ticket_ns hi hdistinct (mem_of_getElem? hissue) c hf.before
    exact ⟨issue, _, _, rfl, ⟨rfl, rfl, rfl, satAdd64_le⟩, hf.after, hmade.ban,
      hlin.ns.trans hns, hmade.generation.symm⟩

/-- Under a ban still running, the client's admissions are refused with it. -/
theorem held_blocks (hi : Inv sha256 s)
    (h : Held s d (clientKey sha256 ns (IpText.display ip)) b ns generation c)
    (hd : d ≠ DomainStore.OVERFLOW_NAME) (hend : b.deadline ≤ u64Max) (hnow : now < b.deadline)
    (hexpected : ∀ g, expected = some g → g = generation) (hip : IpText.parse identity = some ip) :
    (step sha256 s ⟨now, .admitClient ns expected d identity method path⟩).1 =
      .admission (.blocked b) := by
  obtain ⟨p, hp, hg⟩ := hi.inForce _ _ c h.cell
  rw [h.ns] at hp
  rw [h.generation] at hg
  have hcell := h.cell
  have hrouted : s.registry.Routed d := by
    apply hi.routed d
    obtain ⟨bucket, hbucket, -⟩ := bind_eq_some_iff.mp hcell
    rw [hbucket]; rfl
  have hregistered : (d != DomainStore.OVERFLOW_NAME) = true := by simpa using hd
  simp only [step, hregistered]
  rw [admitExpected_blocked hi.lasting expected method path hip hrouted hp
    (fun g hgen => (hexpected g hgen).trans hg.symm) hcell h.ban hnow
    (Nat.lt_of_lt_of_le hnow hend)]

/-- Once an observation has created a ban, every admission of that client on its
domain before the deadline, under any spelling of its address, is refused with
that very decision, whatever the run does in between short of lifting it. -/
theorem ban_holds_until_deadline (sha256 : String → Digest) (epoch : String)
    (limits : DomainStore.Limits) (wallOrigin monoOrigin : Nat) (queue : Option EventQueue.Queue)
    (before : List Event) (now i status : Nat) (localDenial detected : Bool) (s : Sys)
    (hs : run sha256 (Sys.start (Registry.new epoch limits wallOrigin monoOrigin queue)) before = s)
    (hclock : Trace.Clocked Event.now 0 (before ++ [⟨now, .observe i status localDenial⟩]))
    (hdistinct : Collisionless sha256 s.namespaces)
    (hcreated : (step sha256 s ⟨now, .observe i status localDenial⟩).1 =
      .evidence ⟨detected, true⟩) :
    let banned := (step sha256 s ⟨now, .observe i status localDenial⟩).2
    ∃ issue ban, s.issued[i]? = some issue ∧ ban.profile = issue.ticket.ns ∧
      ban.domain = issue.ticket.domain ∧ ban.clientIp = issue.ticket.identity ∧
      (banned.cell ban.domain issue.ticket.key).bind Client.ban = some ban ∧
      ∀ (after : List Event) (at_ : Nat) (expected : Option String) (identity method path : String),
        Clocked Event.now now
          (after ++ [⟨at_, .admitClient ban.profile expected ban.domain identity method path⟩]) →
        Undisturbed sha256 ban ban.profile issue.ticket.generation banned after →
        (expected = none ∨ expected = some issue.ticket.generation) →
        (IpText.parse identity).map IpText.display = some ban.clientIp → at_ < ban.deadline →
        (step sha256 (run sha256 banned after)
          ⟨at_, .admitClient ban.profile expected ban.domain identity method path⟩).1 =
            .admission (.blocked ban) := by
  intro banned
  have hi : Inv sha256 s := hs ▸ inv_run inv_start before
  subst hs
  rw [clocked_append] at hclock
  have hlist : ListingsBy now banned := by
    have hstart : ListingsBy 0 (Sys.start (Registry.new epoch limits wallOrigin monoOrigin queue)) :=
      fun l hl => by cases hl
    exact listingsBy_step _ _ _ hclock.2.1 (listingsBy_run hstart hclock.1)
  obtain ⟨issue, ban, c, hissue, hof, hheld⟩ := held_created hi hdistinct hcreated
  have hok := hi.tickets issue (mem_of_getElem? hissue)
  rw [← hof.profile, ← hof.domain] at hheld
  have hcell := (congrArg (fun o => o.bind Client.ban) hheld.cell).trans hheld.ban
  refine ⟨issue, ban, hissue, hof.profile, hof.domain, hof.clientIp, hcell, ?_⟩
  intro after at_ expected identity method path hafter hu hexpected hparse hat
  rw [clocked_append] at hafter
  obtain ⟨c', hc'⟩ := held_run after banned now (inv_step hi _) hlist hheld rfl hof.deadline hafter.1
    (Nat.lt_of_le_of_lt hafter.2.1 hat) hu
  obtain ⟨ip, hip, hspelled⟩ := map_eq_some_iff.mp hparse
  rw [hok.key, ← hof.profile, ← hof.clientIp, ← hspelled] at hc'
  refine held_blocks (inv_run (inv_step hi _) after) hc' (hof.domain ▸ hok.domain) hof.deadline
    hat ?_ hip
  rintro g rfl
  rcases hexpected with h | h
  · cases h
  · exact Option.some.inj h

def loginConfig : AbuseConfig where
  enabled := true
  failedLogin := some ⟨⟨.block, 60000000000, 2, 300000000000⟩, "/login", "POST", [401]⟩
  scan := none

def loginToml : String :=
  "enabled = true\n\n[failed_login]\nmode = \"block\"\nwindow = \"1m\"\nthreshold = 2\n" ++
    "ban_ttl = \"5m\"\npath = \"/login\"\nmethod = \"POST\"\nstatuses = [401]\n"

/-- SHA-256 on the texts of the run below. -/
def digests (text : String) : Digest :=
  if text = "shop" then
    0x8d9001d32c6a703d95921a77115050f33dd823d3f1730bd35215dcbecad6dc20
  else if text = "/login" then
    0x7e93fba0bc7adda858a2500090e639e4f563a3965c7cf4c719fb56eb6b12c666
  else if text = ScenarioProfile.rendered loginToml 4 4 4 then
    0xd15dfc9292732c2d868a33b63cb764e778dfbdb022e921cfab31981513ab13d7
  else 0

def loginProfile : ScenarioProfile where
  ns := "shop"
  generation := "d15dfc9292732c2d868a33b63cb764e778dfbdb022e921cfab31981513ab13d7"
  config := loginConfig
  maxClients := 4
  maxPaths := 4
  maxLogins := 4

/-- Two failed logins of one client, the second still to be observed. -/
def twoLogins : List Event :=
  [⟨0, .activate [loginProfile] []⟩,
    ⟨10, .admitClient "shop" none "shop.test" "2001:db8::1" "POST" "/login"⟩,
    ⟨11, .observe 0 401 false⟩,
    ⟨12, .admitClient "shop" none "shop.test" "2001:DB8:0:0:0:0:0:1" "POST" "/login?again"⟩]

/-- A listing, another client and a release of another decision after the ban. -/
def laterTraffic : List Event :=
  [⟨20, .startListing none none 0 10⟩, ⟨21, .stepListing 0⟩,
    ⟨30, .admitClient "shop" none "shop.test" "192.0.2.7" "POST" "/login"⟩,
    ⟨31, .release "shop" "shop.test" "2001:db8::1" "e-9" {}⟩]

theorem ban_holds_until_deadline_two_logins :
    let s := run digests (Sys.start (Registry.new "e" ⟨4, 4⟩ 0 0 none)) twoLogins
    let banned := (step digests s ⟨13, .observe 1 401 false⟩).2
    ∃ ban : Decision, ban.deadline = 300013 ∧
      (step digests (run digests banned laterTraffic)
        ⟨300012, .admitClient "shop" (some loginProfile.generation) "shop.test" "2001:0db8::0:1"
          "GET" "/"⟩).1 = .admission (.blocked ban) := by
  intro s banned
  obtain ⟨issue, ban, hissue, hprofile, hdomain, hclient, hcell, hblocks⟩ :=
    ban_holds_until_deadline digests "e" ⟨4, 4⟩ 0 0 none twoLogins 13 1 401 false true s rfl
      (by decide) (by decide) (by decide)
  have hticket : some issue.ticket = some ⟨"e", loginProfile.generation, 1, 0, "shop", "shop.test",
      "2001:db8::1", clientKey digests "shop" "2001:db8::1", true, digests "/login"⟩ := by
    rw [← map_some, ← hissue]; decide
  rw [Option.some.inj hticket] at hprofile hdomain hclient hcell hblocks
  rw [hdomain] at hcell hblocks
  rw [hprofile, hclient] at hblocks
  have hban : some ban = some ⟨"e-1", "e", "shop", "shop.test", "2001:db8::1", .failedLogin, 13,
      300013, 300013⟩ := by
    rw [← hcell]; decide
  have hdeadline : ban.deadline = 300013 := by rw [Option.some.inj hban]
  refine ⟨ban, hdeadline, hblocks laterTraffic 300012 (some loginProfile.generation)
    "2001:0db8::0:1" "GET" "/" (by decide) ⟨id, id, id, ?_, trivial⟩ (.inr rfl) (by decide) (by omega)⟩
  rw [Option.some.inj hban]
  exact fun h => absurd h.1 (by decide)

end AbuseBanPersistence
