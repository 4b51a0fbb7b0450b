import Mathlib.Data.List.Dedup
import Pingap.AbuseScenario
import Pingap.RecentEvidence
import Pingap.Trace

/-!
# Bounded abuse counters

The counters of a client keep a threshold of login times and of path digests. Beside
them stands a detector that remembers every failed login and every missing path that it
was shown, and counts those in the window. Both report the same crossings.
-/

namespace AbuseCounters

open AbuseScenario MachineArith RecentEvidence List Counters

structure Observation where
  now : Nat
  login : Bool
  path : Digest
  status : Nat
deriving DecidableEq, Repr

def countersStep (config : AbuseConfig) (c : Counters) (o : Observation) :
    List Crossing × Counters :=
  c.observe config o.now o.login o.path o.status

/-! ## A detector that forgets nothing -/

/-- Every failed login, and every missing path with the newest first. -/
structure History where
  logins : List Nat
  sightings : List (Digest × Nat)
  loginCrossed : Bool
  scanCrossed : Bool

def History.empty : History := ⟨[], [], false, false⟩

def inWindow (window : Duration) (now t : Nat) : Bool :=
  decide (now - durationMs window ≤ t) && decide (t ≤ now)

def lastSighting (sightings : List (Digest × Nat)) (path : Digest) : Option Nat :=
  (sightings.find? fun sighting => sighting.1 = path).map Prod.snd

/-- The distinct paths that were last sighted in the window. -/
def pathsInWindow (window : Duration) (now : Nat) (sightings : List (Digest × Nat)) : List Digest :=
  (sightings.map Prod.fst).dedup.filter fun path =>
    (lastSighting sightings path).any (inWindow window now)

namespace History

def observeLogin (s : FailedLogin) (now : Nat) (login : Bool) (status : Nat) (h : History) :
    List Crossing × History :=
  let crossed :=
    if h.logins.countP (inWindow s.rule.window now) < s.rule.threshold then false else h.loginCrossed
  if login && s.statuses.contains status then
    let logins := h.logins ++ [now]
    if s.rule.threshold ≤ logins.countP (inWindow s.rule.window now) ∧ crossed = false then
      ([⟨.failedLogin, s.rule.mode, s.rule.banTtl⟩], { h with logins := logins, loginCrossed := true })
    else ([], { h with logins := logins, loginCrossed := crossed })
  else ([], { h with loginCrossed := crossed })

def observeScan (s : Rule) (now : Nat) (path : Digest) (status : Nat) (h : History) :
    List Crossing × History :=
  let crossed :=
    if (pathsInWindow s.window now h.sightings).length < s.threshold then false else h.scanCrossed
  if status = 404 then
    let sightings := (path, now) :: h.sightings
    if s.threshold ≤ (pathsInWindow s.window now sightings).length ∧ crossed = false then
      ([⟨.scan, s.mode, s.banTtl⟩], { h with sightings := sightings, scanCrossed := true })
    else ([], { h with sightings := sightings, scanCrossed := crossed })
  else ([], { h with scanCrossed := crossed })

def observe (h : History) (config : AbuseConfig) (o : Observation) : List Crossing × History :=
  let (loginCrossings, h) :=
    match config.failedLogin with
    | some s => observeLogin s o.now o.login o.status h
    | none => ([], h)
  let (scanCrossings, h) :=
    match config.scan with
    | some s => observeScan s o.now o.path o.status h
    | none => ([], h)
  (loginCrossings ++ scanCrossings, h)

end History

def historyStep (config : AbuseConfig) (h : History) (o : Observation) : List Crossing × History :=
  h.observe config o

/-! ## Logins -/

section login

variable {s : FailedLogin} {t now : Nat} {c : Counters} {h : History}

/-- The kept times are the last ones, and the scenario is armed in both or in none. -/
structure LoginAgrees (s : FailedLogin) (t : Nat) (c : Counters) (h : History) : Prop where
  kept : LastOf s.rule.threshold (t - durationMs s.rule.window) c.login h.logins
  sorted : h.logins.Pairwise (· ≤ ·)
  past : ∀ x ∈ h.logins, x ≤ t
  crossed : c.loginCrossed = h.loginCrossed

theorem countP_inWindow {times : List Nat} (window : Duration) (hpast : ∀ x ∈ times, x ≤ now) :
    times.countP (inWindow window now) =
      times.countP fun x => decide (now - durationMs window ≤ x) := by
  apply countP_congr
  intro x hx
  simp [inWindow, hpast x hx]

theorem LastOf.count_lt_iff {kept times : List Nat}
    (h : LastOf threshold (now - durationMs window) kept times) (hpast : ∀ x ∈ times, x ≤ now) :
    kept.length < threshold ↔ times.countP (inWindow window now) < threshold := by
  rw [countP_inWindow window hpast]
  exact h.lt_iff

theorem observeLogin_agrees (hagrees : LoginAgrees s t c h) (ht : t ≤ now) (login : Bool)
    (status : Nat) :
    (Counters.observeLogin s now login status c).1 = (h.observeLogin s now login status).1 ∧
      LoginAgrees s now (Counters.observeLogin s now login status c).2
        (h.observeLogin s now login status).2 := by
  have hpast : ∀ x ∈ h.logins, x ≤ now := fun x hx => le_trans (hagrees.past x hx) ht
  have hfresh : LastOf s.rule.threshold (now - durationMs s.rule.window)
      (freshLogins s now c.login) h.logins :=
    hagrees.kept.prune hagrees.sorted (by omega)
  have hcount := LastOf.count_lt_iff hfresh hpast
  have hadd := hfresh.add (Nat.sub_le now _)
  have hpast' : ∀ x ∈ h.logins ++ [now], x ≤ now := by
    intro x hx
    rcases mem_append.mp hx with hx | hx
    · exact hpast x hx
    · exact le_of_eq (mem_singleton.mp hx)
  have hsorted' := pairwise_append.mpr ⟨hagrees.sorted, pairwise_singleton _ _, fun x hx y hy =>
      mem_singleton.mp hy ▸ hpast x hx⟩
  have hreach : s.rule.threshold ≤ ((if (freshLogins s now c.login).length =
      s.rule.threshold then (freshLogins s now c.login).tail
        else freshLogins s now c.login) ++ [now]).length ↔
      s.rule.threshold ≤ (h.logins ++ [now]).countP (inWindow s.rule.window now) := by
    rw [← not_lt, ← not_lt, LastOf.count_lt_iff hadd hpast']
  unfold Counters.observeLogin History.observeLogin
  simp only [hcount, hagrees.crossed, hreach]
  generalize (if h.logins.countP (inWindow s.rule.window now) < s.rule.threshold then false
    else h.loginCrossed) = crossed
  split
  · split
    all_goals exact ⟨rfl, hadd, hsorted', hpast', rfl⟩
  · exact ⟨rfl, hfresh, hagrees.sorted, hpast, rfl⟩

end login

/-! ## Paths -/

section scan

variable {s : Rule} {t now : Nat} {c : Counters} {h : History}

/-- The kept sightings are the newest ones, and the scenario is armed in both or in none. -/
structure ScanAgrees (s : Rule) (t : Nat) (c : Counters) (h : History) : Prop where
  kept : NewestOf s.threshold (t - durationMs s.window) c.paths (lastSighting h.sightings)
  past : ∀ p x, lastSighting h.sightings p = some x → x ≤ t
  crossed : c.scanCrossed = h.scanCrossed

theorem lastSighting_cons :
    lastSighting ((path, now) :: sightings) = sighted (lastSighting sightings) path now := by
  funext p
  unfold lastSighting sighted
  by_cases hp : path = p
  · simp [hp]
  · simp [hp, Ne.symm hp]

theorem mem_pathsInWindow (hpast : ∀ p x, lastSighting sightings p = some x → x ≤ now) (p : Digest) :
    p ∈ pathsInWindow window now sightings ↔
      ∃ x, lastSighting sightings p = some x ∧ now - durationMs window ≤ x := by
  unfold pathsInWindow
  rw [mem_filter, mem_dedup]
  constructor
  · rintro ⟨-, hany⟩
    obtain ⟨x, hx, hwindow⟩ := (Option.any_eq_true _ _).mp hany
    simp only [inWindow, Bool.and_eq_true, decide_eq_true_eq] at hwindow
    exact ⟨x, hx, hwindow.1⟩
  · rintro ⟨x, hx, hwindow⟩
    constructor
    · obtain ⟨sighting, hfind, -⟩ := Option.map_eq_some_iff.mp hx
      have hown := find?_some hfind
      exact of_decide_eq_true hown ▸ mem_map_of_mem (mem_of_find?_eq_some hfind)
    · rw [hx]
      simp [inWindow, hwindow, hpast p x hx]

theorem NewestOf.count_lt_iff
    (h : NewestOf threshold (now - durationMs window) kept (lastSighting sightings))
    (hpast : ∀ p x, lastSighting sightings p = some x → x ≤ now) :
    kept.size < threshold ↔ (pathsInWindow window now sightings).length < threshold :=
  h.lt_iff ((nodup_dedup _).filter _) (mem_pathsInWindow hpast)

/-- One turn of the search for the oldest sighting. -/
def older (best : Option (Nat × Digest)) (e : Σ _ : Digest, Nat) : Option (Nat × Digest) :=
  match best with
  | none => some (e.2, e.1)
  | some (at_, key) =>
    if e.2 < at_ ∨ (e.2 = at_ ∧ e.1 < key) then some (e.2, e.1) else some (at_, key)

theorem older_spec (best : Option (Nat × Digest)) (e : Σ _ : Digest, Nat) :
    ∃ first key, older best e = some (first, key) ∧
      (best = some (first, key) ∨ e = ⟨key, first⟩) ∧ first ≤ e.2 ∧ ∀ b ∈ best, first ≤ b.1 := by
  cases best with
  | none => exact ⟨e.2, e.1, rfl, .inr rfl, le_refl _, fun b hb => by cases hb⟩
  | some b =>
    obtain ⟨at_, key⟩ := b
    by_cases hless : e.2 < at_ ∨ (e.2 = at_ ∧ e.1 < key)
    · refine ⟨e.2, e.1, by simp [older, hless], .inr rfl, le_refl _, fun b hb => ?_⟩
      cases hb
      change e.2 ≤ at_
      omega
    · refine ⟨at_, key, by simp [older, hless], .inl rfl, by omega, fun b hb => ?_⟩
      cases hb
      exact le_refl _

theorem foldl_older {entries : List (Σ _ : Digest, Nat)}
    (h : entries.foldl older best = some (first, key)) :
    (best = some (first, key) ∨ (⟨key, first⟩ : Σ _ : Digest, Nat) ∈ entries) ∧
      (∀ e ∈ entries, first ≤ e.2) ∧ ∀ b ∈ best, first ≤ b.1 := by
  induction entries generalizing best with
  | nil =>
    refine ⟨.inl h, fun e he => (not_mem_nil he).elim, fun b hb => ?_⟩
    cases hb.symm.trans h
    exact le_refl _
  | cons e rest ih =>
    obtain ⟨first', key', hnext, hfrom, hle, hbest⟩ := older_spec best e
    rw [foldl_cons, hnext] at h
    obtain ⟨hmem, hrest, hfirst⟩ := ih h
    have hfirst := hfirst _ rfl
    refine ⟨?_, ?_, fun b hb => le_trans hfirst (hbest b hb)⟩
    · rcases hmem with heq | hmem
      · cases heq
        rcases hfrom with hbest | rfl
        · exact .inl hbest
        · exact .inr mem_cons_self
      · exact .inr (mem_cons_of_mem _ hmem)
    · intro e' he'
      rcases mem_cons.mp he' with rfl | he'
      · exact le_trans hfirst hle
      · exact hrest e' he'

/-- The oldest sighting is one of those there are, and none is older. -/
theorem oldest_some {paths : KeyedMap Digest Nat} (h : oldest paths = some old) :
    ∃ first, paths.lookup old = some first ∧ ∀ k x, paths.lookup k = some x → first ≤ x := by
  obtain ⟨⟨first, key⟩, hfold, rfl⟩ := Option.map_eq_some_iff.mp h
  have hfold := hfold
  obtain ⟨hmem, hrest, -⟩ := foldl_older hfold
  refine ⟨first, ?_, fun k x hk => hrest ⟨k, x⟩ ((AList.mem_entries_iff paths k x).mpr hk)⟩
  rcases hmem with hnone | hmem
  · cases hnone
  · exact (AList.mem_entries_iff paths key first).mp hmem

theorem makePlace_insert (hkept : NewestOf s.threshold (now - durationMs s.window)
      (freshPaths s now c.paths) (lastSighting h.sightings))
    (hpast : ∀ p x, lastSighting h.sightings p = some x → x ≤ now) (path : Digest) :
    NewestOf s.threshold (now - durationMs s.window)
      ((makePlace s path (freshPaths s now c.paths)).insert path now)
      (lastSighting ((path, now) :: h.sightings)) := by
  rw [lastSighting_cons]
  unfold makePlace
  split
  · rename_i hfull
    rw [Bool.and_eq_true, Option.isNone_iff_eq_none, decide_eq_true_eq] at hfull
    split
    · rename_i old hold
      obtain ⟨first, hfirst, holdest⟩ := oldest_some hold
      exact hkept.evict (Nat.sub_le now _) hpast hfirst holdest hfull.2 hfull.1
    · exact hkept.add (Nat.sub_le now _) hpast path
  · exact hkept.add (Nat.sub_le now _) hpast path

theorem observeScan_agrees (hagrees : ScanAgrees s t c h) (ht : t ≤ now) (path : Digest)
    (status : Nat) :
    (Counters.observeScan s now path status c).1 = (h.observeScan s now path status).1 ∧
      ScanAgrees s now (Counters.observeScan s now path status c).2
        (h.observeScan s now path status).2 := by
  have hpast : ∀ p x, lastSighting h.sightings p = some x → x ≤ now := fun p x hx =>
    le_trans (hagrees.past p x hx) ht
  have hfresh : NewestOf s.threshold (now - durationMs s.window)
      (freshPaths s now c.paths) (lastSighting h.sightings) :=
    hagrees.kept.prune (by omega)
  have hcount := NewestOf.count_lt_iff hfresh hpast
  have hadd := makePlace_insert hfresh hpast path
  have hpast' : ∀ p x, lastSighting ((path, now) :: h.sightings) p = some x → x ≤ now := by
    intro p x hx
    rw [lastSighting_cons] at hx
    unfold sighted at hx
    split at hx
    · cases hx
      exact le_refl now
    · exact hpast p x hx
  have hreach : s.threshold ≤ ((makePlace s path (freshPaths s now c.paths)).insert
      path now).size ↔
      s.threshold ≤ (pathsInWindow s.window now ((path, now) :: h.sightings)).length := by
    rw [← not_lt, ← not_lt, NewestOf.count_lt_iff hadd hpast']
  unfold Counters.observeScan History.observeScan
  simp only [hcount, hagrees.crossed, hreach]
  generalize (if (pathsInWindow s.window now h.sightings).length < s.threshold then false
    else h.scanCrossed) = crossed
  split
  · split
    all_goals exact ⟨rfl, hadd, hpast', rfl⟩
  · exact ⟨rfl, hfresh, hpast, rfl⟩

end scan

/-! ## Observations -/

/-- The counters and the history agree on every scenario that is configured. -/
structure Agrees (config : AbuseConfig) (t : Nat) (c : Counters) (h : History) : Prop where
  login : ∀ s, config.failedLogin = some s → LoginAgrees s t c h
  scan : ∀ s, config.scan = some s → ScanAgrees s t c h

theorem agrees_empty : Agrees config 0 Counters.empty History.empty where
  login := fun _ _ => ⟨⟨[], rfl, .inl rfl⟩, List.Pairwise.nil, (fun _ hx => by cases hx), rfl⟩
  scan := fun _ _ => ⟨⟨(fun _ _ hk => by cases hk), (fun _ _ hk => by cases hk)⟩,
    (fun _ _ hx => by cases hx), rfl⟩

section frame

variable {s : FailedLogin} {r : Rule} {now : Nat} {login : Bool} {path : Digest} {status : Nat}
  {c c' : Counters} {h h' : History}

/-- The login scenario leaves what the scan scenario rests on. -/
theorem ScanAgrees.frame (hagrees : ScanAgrees r t c h) :
    ScanAgrees r t (Counters.observeLogin s now login status c).2
      (h.observeLogin s now login status).2 := by
  have hpaths : (Counters.observeLogin s now login status c).2.paths = c.paths ∧
      (Counters.observeLogin s now login status c).2.scanCrossed = c.scanCrossed := by
    unfold Counters.observeLogin
    dsimp only
    split_ifs <;> exact ⟨rfl, rfl⟩
  have hsightings : (h.observeLogin s now login status).2.sightings = h.sightings ∧
      (h.observeLogin s now login status).2.scanCrossed = h.scanCrossed := by
    unfold History.observeLogin
    dsimp only
    split_ifs <;> exact ⟨rfl, rfl⟩
  obtain ⟨hkept, hpast, hcrossed⟩ := hagrees
  exact ⟨by rw [hpaths.1, hsightings.1]; exact hkept, by rw [hsightings.1]; exact hpast,
    by rw [hpaths.2, hsightings.2]; exact hcrossed⟩

/-- The scan scenario leaves what the login scenario rests on. -/
theorem LoginAgrees.frame (hagrees : LoginAgrees s t c h) :
    LoginAgrees s t (Counters.observeScan r now path status c).2
      (h.observeScan r now path status).2 := by
  have hlogin : (Counters.observeScan r now path status c).2.login = c.login ∧
      (Counters.observeScan r now path status c).2.loginCrossed = c.loginCrossed := by
    unfold Counters.observeScan
    dsimp only
    split_ifs <;> exact ⟨rfl, rfl⟩
  have hlogins : (h.observeScan r now path status).2.logins = h.logins ∧
      (h.observeScan r now path status).2.loginCrossed = h.loginCrossed := by
    unfold History.observeScan
    dsimp only
    split_ifs <;> exact ⟨rfl, rfl⟩
  obtain ⟨hkept, hsorted, hpast, hcrossed⟩ := hagrees
  exact ⟨by rw [hlogin.1, hlogins.1]; exact hkept, by rw [hlogins.1]; exact hsorted,
    by rw [hlogins.1]; exact hpast, by rw [hlogin.2, hlogins.2]; exact hcrossed⟩

end frame

theorem observe_agrees (t : Nat) (c : Counters) (h : History) (o : Observation) (ht : t ≤ o.now)
    (hagrees : Agrees config t c h) :
    (countersStep config c o).1 = (historyStep config h o).1 ∧
      Agrees config o.now (countersStep config c o).2 (historyStep config h o).2 := by
  obtain ⟨enabled, failedLogin, scan⟩ := config
  unfold countersStep historyStep Counters.observe History.observe
  cases failedLogin with
  | none =>
    cases scan with
    | none => exact ⟨rfl, (fun _ hs => by cases hs), fun _ hs => by cases hs⟩
    | some r =>
      obtain ⟨hcrossings, hnext⟩ := observeScan_agrees (hagrees.scan r rfl) ht o.path o.status
      refine ⟨hcrossings, (fun _ hs => by cases hs), fun s hs => ?_⟩
      cases hs
      exact hnext
  | some s =>
    obtain ⟨hcrossings, hnext⟩ := observeLogin_agrees (hagrees.login s rfl) ht o.login o.status
    cases scan with
    | none =>
      refine ⟨congrArg (· ++ []) hcrossings, fun s' hs => ?_, fun _ hs => by cases hs⟩
      cases hs
      exact hnext
    | some r =>
      obtain ⟨hcrossings', hnext'⟩ :=
        observeScan_agrees (hagrees.scan r rfl).frame ht o.path o.status
      refine ⟨congrArg₂ (· ++ ·) hcrossings hcrossings', fun s' hs => ?_, fun r' hs => ?_⟩
      · cases hs
        exact hnext.frame
      · cases hs
        exact hnext'

/-- Over every sequence of observations in the order of time the bounded counters report what
a detector reports that forgets nothing. -/
theorem bounded_counters_lose_nothing (config : AbuseConfig) (observations : List Observation)
    (hclock : Trace.Clocked Observation.now 0 observations) :
    Trace.outputs (countersStep config) Counters.empty observations =
      Trace.outputs (historyStep config) History.empty observations :=
  Trace.outputs_eq_clocked _ _ Observation.now (Agrees config) (observe_agrees) observations 0
    _ _ (agrees_empty) hclock

/-- A scan that comes back to a path which made room for another one. -/
def scanning : List Observation :=
  [⟨0, false, 1, 404⟩, ⟨1, false, 2, 404⟩, ⟨2, false, 3, 404⟩, ⟨5, false, 1, 404⟩]

theorem bounded_counters_lose_nothing_scanning :
    let config : AbuseConfig := ⟨true, none, some ⟨.block, 3000000, 2, 60000000000⟩⟩
    Trace.Clocked Observation.now 0 scanning ∧
      Trace.outputs (countersStep config) Counters.empty scanning =
        Trace.outputs (historyStep config) History.empty scanning :=
  ⟨by decide, bounded_counters_lose_nothing _ scanning (by decide)⟩

end AbuseCounters
