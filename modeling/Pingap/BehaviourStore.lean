import Pingap.KeyedMap
import Pingap.MachineArith

/-!
# Profiles of clients

The observations of a client, in a window that is bounded in time and in number, and
the store of all profiles. The caps stand in the store; a profile takes them over when
it is made and keeps them.
-/

namespace BehaviourStore

open MachineArith

/-- One request of a client. An instant is in nanoseconds. -/
structure Observation where
  instant : Nat
  uri : String
  userAgent : String
  status : Nat
  denied : Bool := false
  challenged : Bool := false
  bot : Bool := false
deriving DecidableEq, Repr

/-- What bounds a profile. -/
structure Caps where
  maxSamples : Nat
  maxUrls : Nat
  maxUserAgents : Nat
  window : Duration
  maxSamples_pos : 0 < maxSamples

/-! ## One client -/

structure Profile where
  samples : List Observation
  urlCounts : KeyedMap String Nat
  userAgents : List String
  total : Nat
  errors : Nat
  overflowUrls : Nat
  overflowUserAgents : Nat
  observed : Nat
  last : Option Nat
  caps : Caps
  bounded : samples.length ≤ caps.maxSamples

namespace Profile

theorem max_one_pos : 0 < max n 1 := by omega

/-- No cap is below one. -/
def effective (maxSamples maxUrls maxUserAgents : Nat) (window : Duration) : Caps :=
  ⟨max maxSamples 1, max maxUrls 1, max maxUserAgents 1, window, max_one_pos⟩

def new (maxSamples maxUrls maxUserAgents : Nat) (window : Duration) : Profile where
  samples := []
  urlCounts := ∅
  userAgents := []
  total := 0
  errors := 0
  overflowUrls := 0
  overflowUserAgents := 0
  observed := 0
  last := none
  caps := effective maxSamples maxUrls maxUserAgents window
  bounded := Nat.zero_le _

/-- A URL that has a count, or can get one. -/
def countable (max : Nat) (counts : KeyedMap String Nat) (uri : String) : Bool :=
  (counts.lookup uri).isSome || decide (counts.size < max)

def countUrl (max : Nat) (counts : KeyedMap String Nat) (uri : String) : KeyedMap String Nat :=
  if countable max counts uri then
    counts.insert uri (((counts.lookup uri).getD 0 + 1) % 2 ^ 32)
  else counts

def listable (max : Nat) (agents : List String) (agent : String) : Bool :=
  agents.contains agent || decide (agents.length < max)

def listAgent (max : Nat) (agents : List String) (agent : String) : List String :=
  if !agents.contains agent && decide (agents.length < max) then agents ++ [agent] else agents

/-- `rebuild_aggregates` over the samples that are to be kept. -/
def rebuild (p : Profile) (samples : List Observation)
    (bounded : samples.length ≤ p.caps.maxSamples) : Profile :=
  { p with
    samples := samples
    bounded := bounded
    total := samples.length
    observed := samples.length
    errors := samples.countP fun s => decide (400 ≤ s.status)
    urlCounts := (samples.map Observation.uri).foldl (countUrl p.caps.maxUrls) ∅
    userAgents := (samples.map Observation.userAgent).foldl (listAgent p.caps.maxUserAgents) []
    last := if samples.isEmpty then none else p.last }

/-- The samples that the window still holds. -/
def fresh (p : Profile) (now : Nat) : List Observation :=
  p.samples.dropWhile fun s => decide (p.caps.window < now - s.instant)

theorem length_fresh_le (p : Profile) (now : Nat) : (p.fresh now).length ≤ p.samples.length :=
  (List.dropWhile_suffix _).length_le

def prune (p : Profile) (now : Nat) : Profile :=
  if (p.fresh now).length = p.samples.length then p
  else p.rebuild (p.fresh now) (Nat.le_trans (p.length_fresh_le now) p.bounded)

/-- A full window loses its oldest sample to the new one. -/
def pushed (p : Profile) (o : Observation) : List Observation :=
  (if p.samples.length = p.caps.maxSamples then p.samples.drop 1 else p.samples) ++ [o]

theorem length_pushed_le (p : Profile) (o : Observation) :
    (p.pushed o).length ≤ p.caps.maxSamples := by
  have hbounded := p.bounded
  have hpos := p.caps.maxSamples_pos
  rw [pushed, List.length_append, List.length_singleton]
  split
  · rw [List.length_drop]
    omega
  · omega

/-- `record`: what has no count of its own is counted as overflow. -/
def record (p : Profile) (o : Observation) : Profile :=
  let p := p.prune o.instant
  let p := { p with
    overflowUrls := if countable p.caps.maxUrls p.urlCounts o.uri then p.overflowUrls
      else satAdd64 p.overflowUrls 1
    overflowUserAgents := if listable p.caps.maxUserAgents p.userAgents o.userAgent then
        p.overflowUserAgents
      else satAdd64 p.overflowUserAgents 1 }
  { p.rebuild (p.pushed o) (p.length_pushed_le o) with last := some o.instant }

@[simp] theorem caps_prune (p : Profile) (now : Nat) : (p.prune now).caps = p.caps := by
  unfold prune
  split
  · rfl
  · rfl

@[simp] theorem caps_record (p : Profile) : (p.record o).caps = p.caps := p.caps_prune o.instant

end Profile

/-! ## All clients -/

structure Store where
  inner : KeyedMap (String × String) Profile
  maxClients : Nat
  maxUrls : Nat
  maxUa : Nat
  maxSamples : Nat
  window : Duration

namespace Store

def new (maxClients maxUrls maxUa maxSamples : Nat) (window : Duration) : Store :=
  ⟨∅, max maxClients 1, maxUrls, maxUa, maxSamples, window⟩

/-- The caps of the profiles that are made. -/
def caps (s : Store) : Caps := Profile.effective s.maxSamples s.maxUrls s.maxUa s.window

def domainClients (s : Store) (domain : String) : Nat :=
  s.inner.keys.countP fun key => key.1 == domain

/-- Clients that were not seen for a window are forgotten. -/
def expire (s : Store) (now : Nat) : Store :=
  { s with inner := s.inner.retain fun _ p =>
    if p.last.all fun last => decide (now - last ≤ s.window) then some p else none }

def record (s : Store) (domain identity : String) (o : Observation) : Option Profile × Store :=
  let s := s.expire o.instant
  if (s.inner.lookup (domain, identity)).isNone && decide (s.maxClients ≤ s.domainClients domain) then
    (none, s)
  else
    let profile := (s.inner.lookup (domain, identity)).getD
      (Profile.new s.maxSamples s.maxUrls s.maxUa s.window)
    let profile := profile.record o
    (some profile, { s with inner := s.inner.insert (domain, identity) profile })

/-- The pruned profile; no client is admitted by looking. -/
def snapshot (s : Store) (domain identity : String) (now : Nat) : Option Profile × Store :=
  match s.inner.lookup (domain, identity) with
  | none => (none, s)
  | some profile =>
    let profile := profile.prune now
    if profile.samples.isEmpty then
      (none, { s with inner := s.inner.erase (domain, identity) })
    else (some profile, { s with inner := s.inner.insert (domain, identity) profile })

/-! ### The caps of a store are those of its profiles -/

/-- How many clients a domain may have, and the caps of their profiles. -/
def limits (s : Store) : Nat × Caps := (s.maxClients, s.caps)

@[simp] theorem limits_record {s : Store} :
    (s.record domain identity o).2.limits = s.limits := by
  simp only [record]
  split
  · rfl
  · rfl

@[simp] theorem limits_snapshot {s : Store} :
    (s.snapshot domain identity now).2.limits = s.limits := by
  unfold snapshot
  split
  · rfl
  simp only
  split
  · rfl
  · rfl

/-- Every profile has the caps of the store. -/
def Uniform (s : Store) : Prop := ∀ key p, s.inner.lookup key = some p → p.caps = s.caps

theorem uniform_new {maxClients maxUrls maxUa maxSamples : Nat} {window : Duration} :
    Uniform (new maxClients maxUrls maxUa maxSamples window) := by
  intro key p hp
  cases hp

section

variable {s : Store} (h : s.Uniform)
include h

theorem uniform_insert (hp : p.caps = s.caps) :
    Uniform { s with inner := s.inner.insert key p } := by
  intro key' p' hp'
  rw [AList.lookup_insert_if] at hp'
  split at hp'
  · cases hp'
    exact hp
  · exact h key' p' hp'

theorem uniform_expire (now : Nat) : (s.expire now).Uniform := by
  intro key p hp
  exact h key p (AList.lookup_retain_if.mp hp).1

theorem uniform_record : (s.record domain identity o).2.Uniform := by
  have hexpired := uniform_expire h o.instant
  simp only [record]
  split
  · exact hexpired
  refine uniform_insert hexpired ?_
  rw [Profile.caps_record]
  cases hfound : (s.expire o.instant).inner.lookup (domain, identity) with
  | none => rfl
  | some p => exact hexpired _ p hfound

theorem uniform_snapshot : (s.snapshot domain identity now).2.Uniform := by
  unfold snapshot
  split
  · exact h
  rename_i profile hfound
  simp only
  split
  · intro key p hp
    rw [AList.lookup_erase_if] at hp
    split at hp
    · cases hp
    · exact h key p hp
  · refine uniform_insert h ?_
    rw [Profile.caps_prune]
    exact h _ profile hfound

end

end Store

end BehaviourStore
