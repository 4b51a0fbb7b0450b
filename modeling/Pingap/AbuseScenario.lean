import Pingap.KeyedMap
import Pingap.MachineArith
import Pingap.Text

/-!
# Abuse scenarios

The fixed predicates of the abuse registry: repeated failed logins and scans for
missing paths. A client's counters hold at most a threshold of login times and of
distinct path digests; crossing a threshold is reported once until the evidence
drops below it again.
-/

namespace AbuseScenario

open MachineArith List

inductive Mode where
  | detect
  | block
deriving DecidableEq, Repr

structure Rule where
  mode : Mode
  window : Duration
  threshold : Nat
  banTtl : Duration
deriving DecidableEq, Repr

structure FailedLogin where
  rule : Rule
  path : String
  method : String
  statuses : List Nat
deriving DecidableEq, Repr

structure AbuseConfig where
  enabled : Bool
  failedLogin : Option FailedLogin
  scan : Option Rule
deriving DecidableEq, Repr

namespace AbuseConfig

/-- A rule whose window or lifetime is empty, or whose threshold the counters
cannot hold. -/
def ruleFault (rule : Rule) (capacity : Nat) : Bool :=
  rule.window == 0 || rule.banTtl == 0 || rule.threshold == 0 || decide (capacity < rule.threshold)

def loginFault (methodValid : String → Bool) (s : FailedLogin) : Bool :=
  s.path.toList.head? != some '/' || s.path.toList.contains '?' || s.path.toList.contains '#' ||
    !methodValid s.method || s.statuses.isEmpty ||
    s.statuses.any fun status => !(decide (400 ≤ status) && decide (status ≤ 599))

/-- `validate`; `methodValid` is the check of the HTTP library for method names. -/
def validate (methodValid : String → Bool) (c : AbuseConfig) (loginCapacity pathCapacity : Nat) :
    Except String Unit :=
  if !c.enabled then .ok ()
  else if c.failedLogin.isNone && c.scan.isNone then
    .error "abuse requires at least one scenario"
  else if c.failedLogin.any (fun s => ruleFault s.rule loginCapacity) ||
      c.scan.any (fun s => ruleFault s pathCapacity) then
    .error "abuse requires positive window/ban_ttl and threshold within configured scenario capacity"
  else if c.failedLogin.any (loginFault methodValid) then
    .error
      "failed_login requires exact path, valid method and explicit upstream failure statuses"
  else .ok ()

end AbuseConfig

structure Evidence where
  detected : Bool := false
  banCreated : Bool := false
deriving DecidableEq, Repr

/-- A digest, read as a big-endian number so that the order of numbers is the
order of the byte arrays. -/
abbrev Digest := Nat

/-- `login` front first, `paths` the last sighting of each distinct path. -/
structure Counters where
  login : List Nat
  paths : KeyedMap Digest Nat
  loginCrossed : Bool
  scanCrossed : Bool

def Counters.empty : Counters := ⟨[], ∅, false, false⟩

inductive Scenario where
  | failedLogin
  | scan
deriving DecidableEq, Repr

def Scenario.label : Scenario → String
  | .failedLogin => "failed_login"
  | .scan => "scan"

structure Crossing where
  scenario : Scenario
  mode : Mode
  banTtl : Duration
deriving DecidableEq, Repr

/-- What a path is compared and digested by: the part before the query. -/
def pathPart (path : String) : String := String.ofList (Text.before '?' path.toList)

namespace Counters

/-- The oldest sighting, the first in key order among equals. -/
def oldest (paths : KeyedMap Digest Nat) : Option Digest :=
  (paths.entries.foldl (fun (best : Option (Nat × Digest)) e =>
    match best with
    | none => some (e.2, e.1)
    | some (at_, key) =>
      if e.2 < at_ ∨ (e.2 = at_ ∧ e.1 < key) then some (e.2, e.1) else some (at_, key)) none).map
    Prod.snd

def freshLogins (s : FailedLogin) (now : Nat) (login : List Nat) : List Nat :=
  login.dropWhile (· < now - durationMs s.rule.window)

def observeLogin (s : FailedLogin) (now : Nat) (login : Bool) (status : Nat) (c : Counters) :
    List Crossing × Counters :=
  let fresh := freshLogins s now c.login
  let crossed := if fresh.length < s.rule.threshold then false else c.loginCrossed
  if login && s.statuses.contains status then
    -- Only a threshold of times is kept, so the oldest makes room for the new one.
    let kept := (if fresh.length = s.rule.threshold then fresh.tail else fresh) ++ [now]
    if s.rule.threshold ≤ kept.length ∧ crossed = false then
      ([⟨.failedLogin, s.rule.mode, s.rule.banTtl⟩], { c with login := kept, loginCrossed := true })
    else ([], { c with login := kept, loginCrossed := crossed })
  else ([], { c with login := fresh, loginCrossed := crossed })

def freshPaths (s : Rule) (now : Nat) (paths : KeyedMap Digest Nat) : KeyedMap Digest Nat :=
  paths.retain fun _ at_ => if now - durationMs s.window ≤ at_ then some at_ else none

/-- The paths once `path` has a place: a new one at capacity costs the oldest. -/
def makePlace (s : Rule) (path : Digest) (paths : KeyedMap Digest Nat) : KeyedMap Digest Nat :=
  if (paths.lookup path).isNone && decide (s.threshold ≤ paths.size) then
    match oldest paths with
    | some old => paths.erase old
    | none => paths
  else paths

def observeScan (s : Rule) (now : Nat) (path : Digest) (status : Nat) (c : Counters) :
    List Crossing × Counters :=
  let fresh := freshPaths s now c.paths
  let crossed := if fresh.size < s.threshold then false else c.scanCrossed
  if status = 404 then
    let kept := (makePlace s path fresh).insert path now
    if s.threshold ≤ kept.size ∧ crossed = false then
      ([⟨.scan, s.mode, s.banTtl⟩], { c with paths := kept, scanCrossed := true })
    else ([], { c with paths := kept, scanCrossed := crossed })
  else ([], { c with paths := fresh, scanCrossed := crossed })

/-- One observed response: the thresholds it crosses, login before scan. -/
def observe (c : Counters) (config : AbuseConfig) (now : Nat) (login : Bool) (path : Digest)
    (status : Nat) : List Crossing × Counters :=
  let (loginCrossings, c) :=
    match config.failedLogin with
    | some s => observeLogin s now login status c
    | none => ([], c)
  let (scanCrossings, c) :=
    match config.scan with
    | some s => observeScan s now path status c
    | none => ([], c)
  (loginCrossings ++ scanCrossings, c)

/-! ## What an observation does to the counters -/

/-- Dropping the old times off a list in order leaves none of them. -/
theorem le_of_mem_freshLogins {login : List Nat} (h : login.Pairwise (· ≤ ·)) :
    ∀ x ∈ freshLogins s now login, now - durationMs s.rule.window ≤ x := by
  induction login with
  | nil => intro x hx; cases hx
  | cons y ys ih =>
    obtain ⟨hy, hys⟩ := List.pairwise_cons.mp h
    intro x hx
    by_cases hold : y < now - durationMs s.rule.window
    · refine ih hys x ?_
      simpa [freshLogins, dropWhile_cons, hold] using hx
    have hx : x ∈ y :: ys := by simpa [freshLogins, dropWhile_cons, hold] using hx
    rcases mem_cons.mp hx with rfl | hx
    · omega
    · exact Nat.le_trans (Nat.le_of_not_lt hold) (hy x hx)

/-- The login scenario's part of an observation: some of the old times stay, a new
one comes only from a watched request with a failure status. -/
structure LoginSpec (s : FailedLogin) (now : Nat) (login : Bool) (status : Nat) (c : Counters)
    (out : List Crossing × Counters) : Prop where
  paths : out.2.paths = c.paths
  times : ∃ kept, kept.Sublist c.login ∧ (out.2.login = kept ∨
    (login = true ∧ status ∈ s.statuses ∧ out.2.login = kept ++ [now]))
  crossings : ∀ x ∈ out.1, x = ⟨.failedLogin, s.rule.mode, s.rule.banTtl⟩ ∧
    s.rule.threshold ≤ out.2.login.length ∧
    (c.login.Pairwise (· ≤ ·) → ∀ y ∈ out.2.login, now - durationMs s.rule.window ≤ y)

theorem observeLogin_spec (s : FailedLogin) (now : Nat) (login : Bool) (status : Nat)
    (c : Counters) : LoginSpec s now login status c (observeLogin s now login status c) := by
  have hfresh : (freshLogins s now c.login).Sublist c.login := dropWhile_sublist _
  have hkept : ∀ kept, kept = (if (freshLogins s now c.login).length = s.rule.threshold then
      (freshLogins s now c.login).tail else freshLogins s now c.login) →
      kept.Sublist (freshLogins s now c.login) := by
    rintro kept rfl
    split
    · exact tail_sublist _
    · exact Sublist.refl _
  simp only [observeLogin]
  generalize (if (freshLogins s now c.login).length < s.rule.threshold then false
    else c.loginCrossed) = crossed
  split
  case isTrue hwatched =>
    simp only [Bool.and_eq_true, contains_iff_mem] at hwatched
    generalize hk : (if (freshLogins s now c.login).length = s.rule.threshold then
      (freshLogins s now c.login).tail else freshLogins s now c.login) = kept
    have hsub := hkept kept hk.symm
    have htimes : ∃ kept', kept'.Sublist c.login ∧ (kept ++ [now] = kept' ∨
        (login = true ∧ status ∈ s.statuses ∧ kept ++ [now] = kept' ++ [now])) :=
      ⟨kept, hsub.trans hfresh, .inr ⟨hwatched.1, hwatched.2, rfl⟩⟩
    split
    case isTrue hcrossed =>
      refine ⟨rfl, htimes, fun x hx => ⟨mem_singleton.mp hx, hcrossed.1, fun hsorted y hy => ?_⟩⟩
      rcases mem_append.mp hy with hy | hy
      · exact le_of_mem_freshLogins hsorted y (hsub.subset hy)
      · rw [mem_singleton.mp hy]; exact Nat.sub_le _ _
    case isFalse => exact ⟨rfl, htimes, fun x hx => by cases hx⟩
  case isFalse => exact ⟨rfl, ⟨_, hfresh, .inl rfl⟩, fun x hx => by cases hx⟩

/-- The scan scenario's part of an observation: a sighting is an old one or the
one of this very path with a 404. -/
structure ScanSpec (s : Rule) (now : Nat) (path : Digest) (status : Nat) (c : Counters)
    (out : List Crossing × Counters) : Prop where
  login : out.2.login = c.login
  sightings : ∀ p x, out.2.paths.lookup p = some x →
    c.paths.lookup p = some x ∨ (status = 404 ∧ p = path ∧ x = now)
  crossings : ∀ x ∈ out.1, x = ⟨.scan, s.mode, s.banTtl⟩ ∧ s.threshold ≤ out.2.paths.size ∧
    ∀ p y, out.2.paths.lookup p = some y → now - durationMs s.window ≤ y

theorem lookup_freshPaths {paths : KeyedMap Digest Nat}
    (h : (freshPaths s now paths).lookup p = some x) :
    paths.lookup p = some x ∧ now - durationMs s.window ≤ x :=
  AList.lookup_retain_if.mp h

theorem lookup_makePlace {paths : KeyedMap Digest Nat}
    (h : (makePlace s path paths).lookup p = some x) : paths.lookup p = some x := by
  simp only [makePlace] at h
  split at h
  · split at h
    · rw [AList.lookup_erase_if] at h
      split at h
      · cases h
      · exact h
    · exact h
  · exact h

theorem observeScan_spec (s : Rule) (now : Nat) (path : Digest) (status : Nat) (c : Counters) :
    ScanSpec s now path status c (observeScan s now path status c) := by
  simp only [observeScan]
  generalize (if (freshPaths s now c.paths).size < s.threshold then false
    else c.scanCrossed) = crossed
  split
  case isTrue hstatus =>
    -- Every sighting in the new map is this path's now, or was fresh before.
    have hlookup : ∀ p x, ((makePlace s path (freshPaths s now c.paths)).insert path now).lookup p =
        some x → (p = path ∧ x = now) ∨ (freshPaths s now c.paths).lookup p = some x := by
      intro p x h
      rw [AList.lookup_insert_if] at h
      split at h
      case isTrue hp => exact .inl ⟨hp, (Option.some.inj h).symm⟩
      case isFalse => exact .inr (lookup_makePlace h)
    have hsightings : ∀ p x, ((makePlace s path (freshPaths s now c.paths)).insert path now).lookup p
        = some x → c.paths.lookup p = some x ∨ (status = 404 ∧ p = path ∧ x = now) := by
      intro p x h
      rcases hlookup p x h with ⟨hp, hx⟩ | h
      · exact .inr ⟨hstatus, hp, hx⟩
      · exact .inl (lookup_freshPaths h).1
    split
    case isTrue hcrossed =>
      refine ⟨rfl, hsightings, fun x hx => ⟨mem_singleton.mp hx, hcrossed.1, fun p y h => ?_⟩⟩
      rcases hlookup p y h with ⟨-, rfl⟩ | h
      · exact Nat.sub_le _ _
      · exact (lookup_freshPaths h).2
    case isFalse => exact ⟨rfl, hsightings, fun x hx => by cases hx⟩
  case isFalse =>
    exact ⟨rfl, fun p x h => .inl (lookup_freshPaths h).1, fun x hx => by cases hx⟩

/-- What an observation adds to the counters, and what a crossing rests on. -/
structure ObserveSpec (config : AbuseConfig) (now : Nat) (login : Bool) (path : Digest)
    (status : Nat) (c : Counters) (out : List Crossing × Counters) : Prop where
  times : ∃ kept, kept.Sublist c.login ∧ (out.2.login = kept ∨ ∃ s, config.failedLogin = some s ∧
    login = true ∧ status ∈ s.statuses ∧ out.2.login = kept ++ [now])
  sightings : ∀ p x, out.2.paths.lookup p = some x →
    c.paths.lookup p = some x ∨ (status = 404 ∧ p = path ∧ x = now)
  crossings : ∀ x ∈ out.1,
    (∃ s, config.failedLogin = some s ∧ x = ⟨.failedLogin, s.rule.mode, s.rule.banTtl⟩ ∧
      s.rule.threshold ≤ out.2.login.length ∧
      (c.login.Pairwise (· ≤ ·) → ∀ y ∈ out.2.login, now - durationMs s.rule.window ≤ y)) ∨
    ∃ s, config.scan = some s ∧ x = ⟨.scan, s.mode, s.banTtl⟩ ∧ s.threshold ≤ out.2.paths.size ∧
      ∀ p y, out.2.paths.lookup p = some y → now - durationMs s.window ≤ y

theorem observe_spec (config : AbuseConfig) (now : Nat) (login : Bool) (path : Digest)
    (status : Nat) (c : Counters) :
    ObserveSpec config now login path status c (c.observe config now login path status) := by
  obtain ⟨enabled, failedLogin, scan⟩ := config
  cases failedLogin with
  | none =>
    cases scan with
    | none =>
      exact ⟨⟨c.login, Sublist.refl _, .inl rfl⟩, fun _ _ h => .inl h, fun x hx => by cases hx⟩
    | some r =>
      have hscan := observeScan_spec r now path status c
      exact ⟨⟨c.login, Sublist.refl _, .inl hscan.login⟩, hscan.sightings,
        fun x hx => .inr ⟨r, rfl, hscan.crossings x hx⟩⟩
  | some s =>
    have hlogin := observeLogin_spec s now login status c
    obtain ⟨kept, hkept, htimes⟩ := hlogin.times
    cases scan with
    | none =>
      refine ⟨⟨kept, hkept, htimes.imp_right fun h => ⟨s, rfl, h⟩⟩,
        fun p x h => .inl (hlogin.paths ▸ h), fun x hx => .inl ⟨s, rfl, ?_⟩⟩
      exact hlogin.crossings x (by simpa [observe] using hx)
    | some r =>
      have hscan := observeScan_spec r now path status (observeLogin s now login status c).2
      have hlist : (c.observe ⟨enabled, some s, some r⟩ now login path status).2.login =
          (observeLogin s now login status c).2.login := hscan.login
      refine ⟨⟨kept, hkept, ?_⟩, ?_, fun x hx => ?_⟩
      · rw [hlist]
        exact htimes.imp_right fun h => ⟨s, rfl, h⟩
      · intro p x h
        rw [← hlogin.paths]
        exact hscan.sightings p x h
      · rcases mem_append.mp hx with hx | hx
        · rw [hlist]
          exact .inl ⟨s, rfl, hlogin.crossings x hx⟩
        · exact .inr ⟨r, rfl, hscan.crossings x hx⟩

end Counters

end AbuseScenario
