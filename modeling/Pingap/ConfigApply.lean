import Pingap.ConfigReadBack
import Pingap.StoreOp

/-!
# Applying a configuration

Generate, validate, commit, verify: the operations of the applier on the table of
configuration versions. What the validator, the configuration sink and the data
plane answer during an operation is part of its input.
-/

namespace ConfigApply

open ConfigIntent ConfigReadBack StoreOp List

/-! ## The table of versions -/

inductive ConfigStatus where
  | pending
  | applied
  | failed
  | superseded
deriving DecidableEq, Repr

def ConfigStatus.debug : ConfigStatus → String
  | .pending => "Pending"
  | .applied => "Applied"
  | .failed => "Failed"
  | .superseded => "Superseded"

structure ConfigVersion where
  id : String
  hash : String
  status : ConfigStatus
  actorId : Option String
  actorUsername : String
  intentJson : String
  error : Option String
  createdAt : Int
  settledAt : Option Int
deriving DecidableEq, Repr

/-- The audit row of an operation. -/
structure Activity where
  actorId : Option String
  actorUsername : String
  action : String
  target : String
  configVersion : Option String
  detail : Option String
  createdAt : Int
deriving DecidableEq, Repr

inductive Write where
  | record (version : ConfigVersion)
  | activity (row : Activity)
  | setStatus (id : String) (status : ConfigStatus) (error : Option String) (now : Int)
deriving DecidableEq, Repr

/-- The versions and audit rows, and the writes they come from, which nothing
reads. -/
structure Versions where
  versions : List ConfigVersion
  activities : List Activity
  journal : List Write

def Versions.empty : Versions := ⟨[], [], []⟩

/-- The row a status change leaves. The error is kept only for a failed version. -/
def ConfigVersion.settle (v : ConfigVersion) (status : ConfigStatus) (error : Option String)
    (now : Int) : ConfigVersion :=
  { v with
    status := status
    error := if status = .failed then error else none
    settledAt := if status = .pending then none else some now }

def Versions.put (s : Versions) (w : Write) : Versions :=
  match w with
  | .record v => { s with versions := s.versions ++ [v], journal := s.journal ++ [w] }
  | .activity row => { s with activities := s.activities ++ [row], journal := s.journal ++ [w] }
  | .setStatus id status error now =>
    { s with
      versions := s.versions.map fun v => if v.id = id then v.settle status error now else v
      journal := s.journal ++ [w] }

instance : Store Versions Write := ⟨Versions.put⟩

/-- `ORDER BY created_at DESC, id DESC`. -/
def newestFirst (rows : List ConfigVersion) : List ConfigVersion :=
  rows.insertionSort fun a b => b.createdAt < a.createdAt ∨ (b.createdAt = a.createdAt ∧ b.id ≤ a.id)

def Versions.applied (s : Versions) : List ConfigVersion :=
  s.versions.filter fun v => v.status = .applied

def Versions.latest (s : Versions) : Option ConfigVersion := (newestFirst s.versions).head?

def Versions.latestApplied (s : Versions) : Option ConfigVersion := (newestFirst s.applied).head?

def Versions.find (s : Versions) (id : String) : Option ConfigVersion :=
  s.versions.find? fun v => v.id = id

def DEFAULT_READ_LIMIT : Nat := 1000

/-! ## The applier -/

inductive StoreError where
  | notFound (kind id : String)
  | duplicate (id : String)
deriving DecidableEq, Repr

inductive ApplyError where
  | projection (source : ProjectionError)
  | store (source : StoreError)
  | commit (reason : String)
  | corruptIntent (versionId reason : String)
  | staleBase (expected actual : Option String)
  | pendingVersion (versionId : String)
deriving DecidableEq, Repr

/-- The errors of an edit that is not tried. -/
def ApplyError.refusal : ApplyError → Bool
  | .staleBase _ _ | .pendingVersion _ => true
  | _ => false

inductive Verdict where
  | accepted
  | rejected (reason : String)

structure Actor where
  id : Option String
  username : String

/-- What the applier is made with: the formats and hashes of a configuration, the
JSON of an intent, and the reload window in whole seconds and nanoseconds. -/
structure Applier where
  formats : Formats
  hashes : Hashes
  sha256 : String → String
  encode : Intent → Except String String
  decode : String → Except String Intent
  windowSecs : Nat
  windowNanos : Nat

/-- What an operation meets outside of the store: the id of its version, the clock,
the verdict on a candidate, and for each version it settles what the sink and the
data plane answer. -/
structure Env where
  newId : String
  now : Int
  actor : Actor
  validate : Projected → Except ProjectionError Verdict
  commit : String → Except String Unit
  restore : Nat → String → Except String Unit
  readBack : Nat → DataPlane
  readBackRestored : Nat → DataPlane

structure Outcome where
  version : ConfigVersion
  rolledBackTo : Option String
deriving DecidableEq, Repr

abbrev ApplyOp (α : Type) := Op Versions Write ApplyError α

section operations

variable (a : Applier) (env : Env)

/-- An id that is taken is refused by the table's key. -/
def recordConfigVersion (version : ConfigVersion) : ApplyOp ConfigVersion := ⟨fun s =>
  if (s.find version.id).isSome then ⟨[], .error (.store (.duplicate version.id))⟩
  else ⟨[.record version], .ok version⟩⟩

def setConfigVersionStatus (id : String) (status : ConfigStatus) (error : Option String) :
    ApplyOp Unit := ⟨fun s =>
  if (s.find id).isSome then ⟨[.setStatus id status error env.now], .ok ()⟩
  else ⟨[], .error (.store (.notFound "config version" id))⟩⟩

def latestConfigVersion : ApplyOp (Option ConfigVersion) := read Versions.latest

def latestAppliedConfigVersion : ApplyOp (Option ConfigVersion) := read Versions.latestApplied

def configVersion (id : String) : ApplyOp (Option ConfigVersion) := read fun s => s.find id

def listConfigVersions : ApplyOp (List ConfigVersion) :=
  read fun s => (newestFirst s.versions).take DEFAULT_READ_LIMIT

def intentOf (version : ConfigVersion) : ApplyOp Intent :=
  lift (fun reason => .corruptIntent version.id reason) (a.decode version.intentJson)

def generated (intent : Intent) : ApplyOp Projected := lift .projection (generate a.formats intent)

def audit (action : String) (version : ConfigVersion) : ApplyOp Unit :=
  write (.activity ⟨env.actor.id, env.actor.username, action, "config", some version.id,
    some ("hash " ++ version.hash), env.now⟩)

def reloadVersion (id : String) : ApplyOp Outcome := do
  match ← configVersion id with
  | some version => return ⟨version, none⟩
  | none => fail (.store (.notFound "config version" id))

/-- What the read-back finds different in the `i`th version this operation settles. -/
def missing (i : Nat) (projected : Projected) : List String :=
  runtimeMismatches a.hashes (env.readBack i) projected

/-- Take the place of the previous applied version. -/
def confirm (version : ConfigVersion) (previous : Option ConfigVersion) : ApplyOp Outcome := do
  match previous with
  | some prev => setConfigVersionStatus env prev.id .superseded none
  | none => pure ()
  setConfigVersionStatus env version.id .applied none
  reloadVersion version.id

/-- Restore the previous applied version and read it back. -/
def restorePrevious (i : Nat) (version prev : ConfigVersion) : ApplyOp Outcome := do
  let prevIntent ← intentOf a prev
  let restored ← generated a prevIntent
  match env.restore i restored.toml with
  | .error reason =>
    fail (.commit ("rollback to `" ++ prev.id ++ "` failed: " ++ reason ++
      "; the data plane may be running a config no version describes"))
  | .ok () =>
    let rollbackMissing := runtimeMismatches a.hashes (env.readBackRestored i) restored
    if !rollbackMissing.isEmpty then
      fail (.commit ("rollback to `" ++ prev.id ++ "` was not confirmed: " ++
        "; ".intercalate rollbackMissing))
    else do
      let settled ← configVersion version.id
      return ⟨settled.getD version, some prev.id⟩

def settle (i : Nat) (version : ConfigVersion) (projected : Projected)
    (previous : Option ConfigVersion) : ApplyOp Outcome :=
  if (missing a env i projected).isEmpty then confirm env version previous
  else do
    setConfigVersionStatus env version.id .failed
      (some ("post-commit verification failed: " ++ "; ".intercalate (missing a env i projected)))
    match previous with
    | none => reloadVersion version.id
    | some prev => restorePrevious a env i version prev

def newVersion (projected : Projected) (intentJson : String) (status : ConfigStatus)
    (error : Option String) : ConfigVersion where
  id := env.newId
  hash := a.sha256 projected.toml
  status := status
  actorId := env.actor.id
  actorUsername := env.actor.username
  intentJson := intentJson
  error := error
  createdAt := env.now
  settledAt := if status = .pending then none else some env.now

/-- Commit a candidate that passed validation, and verify it. -/
def commitPending (projected : Projected) (version : ConfigVersion) : ApplyOp Outcome := do
  let previous ← latestAppliedConfigVersion
  match env.commit projected.toml with
  | .error reason => do
    setConfigVersionStatus env version.id .failed (some ("commit: " ++ reason))
    reloadVersion version.id
  | .ok () => settle a env 0 version projected previous

def applyLocked (intent : Intent) (action : String) : ApplyOp Outcome := do
  let projected ← generated a intent
  let intentJson ← lift (fun e => ApplyError.commit ("intent does not serialise: " ++ e))
    (a.encode intent)
  let verdict ← lift ApplyError.projection (env.validate projected)
  match verdict with
  | .rejected reason => do
    let version ← recordConfigVersion (newVersion a env projected intentJson .failed (some reason))
    audit env action version
    return ⟨version, none⟩
  | .accepted => do
    let version ← recordConfigVersion (newVersion a env projected intentJson .pending none)
    audit env action version
    commitPending a env projected version

def applyIfCurrent (intent : Intent) (expected : Option String) (action : String) :
    ApplyOp Outcome := do
  let newest ← latestConfigVersion
  match newest.filter fun v => v.status = .pending with
  | some v => fail (.pendingVersion v.id)
  | none => do
    let actual ← latestAppliedConfigVersion
    if actual.map (·.id) ≠ expected then fail (.staleBase expected (actual.map (·.id)))
    else applyLocked a env intent action

def rollback (versionId : String) : ApplyOp Outcome := do
  match ← configVersion versionId with
  | none => fail (.store (.notFound "config version" versionId))
  | some target =>
    if target.status ≠ .applied ∧ target.status ≠ .superseded then
      fail (.commit ("version `" ++ versionId ++ "` is " ++ target.status.debug ++
        ", not a version that was ever applied"))
    else do
      let intent ← intentOf a target
      applyLocked a env intent ("config.rollback:" ++ versionId)

/-- The reload window in whole seconds, rounded up. -/
def windowSeconds : Int := min (a.windowSecs + if a.windowNanos = 0 then 0 else 1) (2 ^ 63 - 1)

def age (now createdAt : Int) : Int := max (-(2 ^ 63)) (min (2 ^ 63 - 1) (now - createdAt))

/-- Settle the versions of a list one after the other. -/
def settleEach (i : Nat) : List ConfigVersion → ApplyOp (List Outcome)
  | [] => pure []
  | version :: rest => do
    let intent ← intentOf a version
    let projected ← generated a intent
    let previous ← latestAppliedConfigVersion
    let outcome ← settle a env i version projected previous
    let outcomes ← settleEach (i + 1) rest
    return outcome :: outcomes

def settlePending : ApplyOp (List Outcome) := do
  let versions ← listConfigVersions
  settleEach a env 0 (versions.filter fun v =>
    v.status = .pending ∧ windowSeconds a < age env.now v.createdAt)

end operations

/-! ## What one operation can write -/

/-- The row with the id waits to be settled. -/
def Pending (s : Versions) (id : String) : Prop :=
  ∃ v ∈ s.versions, v.id = id ∧ v.status = .pending

/-- The intent that a row of the table describes. -/
def Describes (a : Applier) (json : String) (intent : Intent) : Prop :=
  a.encode intent = .ok json ∨ a.decode json = .ok intent

/-- The read-back found the version with the id running. -/
def Confirmed (a : Applier) (env : Env) (s : Versions) (id : String) : Prop :=
  ∃ v ∈ s.versions, v.id = id ∧ ∃ intent projected i, Describes a v.intentJson intent ∧
    generate a.formats intent = .ok projected ∧
    runtimeMismatches a.hashes (env.readBack i) projected = []

/-- The writes that put a version in the place of the previous one. -/
def swap (id : String) (previous : Option ConfigVersion) (now : Int) : List Write :=
  previous.toList.map (fun prev => .setStatus prev.id .superseded none now) ++
    [.setStatus id .applied none now]

/-- What the applier writes, piece by piece: new versions that are not applied,
audit rows, the failure of a pending version, and a confirmed pending version in
the place of the applied one. -/
inductive Script (a : Applier) (env : Env) : Versions → List Write → Prop where
  | done (s : Versions) : Script a env s []
  | record {s : Versions} {ws : List Write} (v : ConfigVersion) (hid : s.find v.id = none)
      (hstatus : v.status = .pending ∨ v.status = .failed) (rest : Script a env (s.put (.record v)) ws) :
      Script a env s (.record v :: ws)
  | activity {s : Versions} {ws : List Write} (row : Activity)
      (rest : Script a env (s.put (.activity row)) ws) : Script a env s (.activity row :: ws)
  | failed {s : Versions} {ws : List Write} (id : String) (error : Option String)
      (hpending : Pending s id)
      (rest : Script a env (s.put (.setStatus id .failed error env.now)) ws) :
      Script a env s (.setStatus id .failed error env.now :: ws)
  | confirmed {s : Versions} {ws : List Write} (id : String) (previous : Option ConfigVersion)
      (hpending : Pending s id) (hconfirmed : Confirmed a env s id)
      (hprevious : s.applied = previous.toList)
      (rest : Script a env (after s (swap id previous env.now)) ws) :
      Script a env s (swap id previous env.now ++ ws)

/-! ## Rows -/

section rows

variable {s : Versions} {id : String} {v : ConfigVersion}

theorem find_isSome : (s.find id).isSome ↔ ∃ v ∈ s.versions, v.id = id := by
  rw [Versions.find, find?_isSome]
  simp only [decide_eq_true_eq]

theorem find_eq_none : s.find id = none ↔ ∀ v ∈ s.versions, v.id ≠ id := by
  rw [Versions.find, find?_eq_none]
  simp only [decide_eq_true_eq]

theorem mem_applied : v ∈ s.applied ↔ v ∈ s.versions ∧ v.status = .applied := by
  rw [Versions.applied, mem_filter, decide_eq_true_iff]

/-- With at most one applied row, it is the latest. -/
theorem applied_eq_latest (h : s.applied.length ≤ 1) : s.applied = s.latestApplied.toList := by
  rw [Versions.latestApplied]
  cases happlied : s.applied with
  | nil => rfl
  | cons v rest =>
    cases rest with
    | nil => rfl
    | cons v' rest =>
      rw [happlied] at h
      exact absurd h (by simp)

/-- No two rows have one id. -/
def Versions.Keyed (s : Versions) : Prop := (s.versions.map ConfigVersion.id).Nodup

theorem Versions.Keyed.eq (h : s.Keyed) (hv : v ∈ s.versions) (hv' : v' ∈ s.versions)
    (hid : v.id = v'.id) : v = v' :=
  inj_on_of_nodup_map h hv hv' hid

section

variable (v : ConfigVersion) (status : ConfigStatus) (error : Option String) (now : Int)

@[simp] theorem settle_id : (v.settle status error now).id = v.id := rfl

@[simp] theorem settle_status : (v.settle status error now).status = status := rfl

@[simp] theorem settle_intentJson : (v.settle status error now).intentJson = v.intentJson := rfl

end

theorem keyed_record (h : s.Keyed) (hid : s.find v.id = none) : (s.put (.record v)).Keyed := by
  simp only [Versions.Keyed, Versions.put, map_append, map_singleton]
  refine List.nodup_append.mpr ⟨h, nodup_singleton _, ?_⟩
  rintro x hx y hy rfl
  obtain ⟨v', hv', rfl⟩ := mem_map.mp hx
  exact find_eq_none.mp hid v' hv' (mem_singleton.mp hy)

theorem ids_setStatus : (s.put (.setStatus id status error now)).versions.map ConfigVersion.id =
      s.versions.map ConfigVersion.id := by
  simp only [Versions.put, map_map]
  refine map_congr_left fun v _ => ?_
  simp only [Function.comp_apply]
  split
  · rfl
  · rfl

theorem keyed_setStatus (h : s.Keyed) (status : ConfigStatus) (error : Option String) (now : Int) :
    (s.put (.setStatus id status error now)).Keyed := by
  rw [Versions.Keyed, ids_setStatus]
  exact h

theorem mem_setStatus :
    v ∈ (s.put (.setStatus id status error now)).versions ↔
      (v ∈ s.versions ∧ v.id ≠ id) ∨ ∃ v₀ ∈ s.versions, v₀.id = id ∧ v = v₀.settle status error now := by
  simp only [Versions.put, mem_map]
  constructor
  · rintro ⟨v₀, hv₀, rfl⟩
    by_cases hid : v₀.id = id
    · rw [if_pos hid]
      exact .inr ⟨v₀, hv₀, hid, rfl⟩
    · rw [if_neg hid]
      exact .inl ⟨hv₀, hid⟩
  · rintro (⟨hv, hne⟩ | ⟨v₀, hv₀, hid, rfl⟩)
    · exact ⟨v, hv, if_neg hne⟩
    · exact ⟨v₀, hv₀, if_pos hid⟩

theorem applied_record (hstatus : v.status ≠ .applied) :
    (s.put (.record v)).applied = s.applied := by
  simp only [Versions.applied, Versions.put, filter_append, filter_singleton,
    decide_eq_false hstatus, cond_false, append_nil]

/-- A status change of a row that is not applied, to one that is not, leaves the
applied rows as they are. -/
theorem applied_setStatus (h : s.Keyed) (hv : v ∈ s.versions) (hold : v.status ≠ .applied)
    (hnew : status ≠ .applied) (error : Option String) (now : Int) :
    (s.put (.setStatus v.id status error now)).applied = s.applied := by
  simp only [Versions.applied, Versions.put]
  rw [filter_map]
  have hsame : s.versions.filter ((fun v => decide (v.status = .applied)) ∘ fun v' =>
      if v'.id = v.id then v'.settle status error now else v') =
      s.versions.filter fun v => decide (v.status = .applied) := by
    refine filter_congr fun v' hv' => ?_
    by_cases hid : v'.id = v.id
    · obtain rfl := h.eq hv' hv hid
      simp [hold, hnew]
    · simp [hid]
  rw [hsame]
  refine (map_congr_left fun v' hv' => ?_).trans (map_id _)
  obtain ⟨hmem, happlied⟩ := mem_filter.mp hv'
  refine if_neg fun hid => hold ?_
  rw [← h.eq hmem hv hid]
  exact of_decide_eq_true happlied

theorem applied_superseded {prev : ConfigVersion} (hprev : s.applied = [prev])
    (error : Option String) (now : Int) :
    (s.put (.setStatus prev.id .superseded error now)).applied = [] := by
  refine List.filter_eq_nil_iff.mpr fun v hv happlied => ?_
  have hmem : prev ∈ s.applied := by
    rw [hprev]
    exact mem_singleton_self prev
  rcases mem_setStatus.mp hv with ⟨hv, hne⟩ | ⟨v₀, -, -, rfl⟩
  · have hv' : v ∈ s.applied := mem_applied.mpr ⟨hv, of_decide_eq_true happlied⟩
    rw [hprev, mem_singleton] at hv'
    exact hne (congrArg ConfigVersion.id hv')
  · simp at happlied

theorem applied_applied (h : s.Keyed) (hv : v ∈ s.versions) (hnone : s.applied = []) :
    (s.put (.setStatus v.id .applied error now)).applied = [v.settle .applied error now] := by
  simp only [Versions.applied, Versions.put]
  rw [filter_map]
  have honly : s.versions.filter ((fun v => decide (v.status = .applied)) ∘ fun v' =>
      if v'.id = v.id then v'.settle .applied error now else v') =
      s.versions.filter fun v' => decide (v' = v) := by
    refine filter_congr fun v' hv' => ?_
    by_cases hid : v'.id = v.id
    · obtain rfl := h.eq hv' hv hid
      simp
    have hnot : v'.status ≠ .applied := fun happlied => by
      have hmem : v' ∈ s.applied := mem_applied.mpr ⟨hv', happlied⟩
      rw [hnone] at hmem
      cases hmem
    have hne : v' ≠ v := fun heq => hid (congrArg ConfigVersion.id heq)
    simp [hid, hnot, hne]
  have hcount : s.versions.count v = 1 := count_eq_one_of_mem (h.of_map _) hv
  rw [honly, filter_eq, hcount]
  simp

/-- A row that is neither confirmed nor superseded stays as it is. -/
theorem mem_swap_of_ne (hv : v ∈ s.versions) (hne : v.id ≠ id)
    (hprev : ∀ prev ∈ previous, v.id ≠ prev.id) :
    v ∈ (after s (swap id previous now)).versions := by
  cases previous with
  | none => exact mem_setStatus.mpr (.inl ⟨hv, hne⟩)
  | some prev =>
    have hfirst : v ∈ (s.put (.setStatus prev.id .superseded none now)).versions :=
      mem_setStatus.mpr (.inl ⟨hv, hprev prev rfl⟩)
    exact mem_setStatus.mpr (.inl ⟨hfirst, hne⟩)

theorem keyed_swap (h : s.Keyed) : (after s (swap id previous now)).Keyed := by
  cases previous with
  | none => exact keyed_setStatus h _ _ _
  | some prev => exact keyed_setStatus (keyed_setStatus h _ _ _) _ _ _

/-- A pending row is not the applied one. -/
theorem ne_of_pending {prev : ConfigVersion} (h : s.Keyed) (hv : v ∈ s.versions)
    (hpending : v.status = .pending) (hprev : prev ∈ s.applied) : v.id ≠ prev.id := by
  intro hid
  obtain ⟨hmem, happlied⟩ := mem_applied.mp hprev
  rw [h.eq hv hmem hid, happlied] at hpending
  cases hpending

/-- The confirmed version is the one that is applied afterwards. -/
theorem applied_swap (h : s.Keyed) (hv : v ∈ s.versions) (hpending : v.status = .pending)
    (hprev : s.applied = previous.toList) (now : Int) :
    (after s (swap v.id previous now)).applied = [v.settle .applied none now] := by
  cases previous with
  | none => exact applied_applied h hv hprev
  | some prev =>
    have hmem : prev ∈ s.applied := by
      rw [hprev]
      exact mem_singleton_self prev
    have hfirst : v ∈ (s.put (.setStatus prev.id .superseded none now)).versions :=
      mem_setStatus.mpr (.inl ⟨hv, ne_of_pending h hv hpending hmem⟩)
    exact applied_applied (keyed_setStatus h _ _ _) hfirst (applied_superseded hprev none now)

end rows

/-! ## The operations follow the script -/

section script

variable {a : Applier} {env : Env} {s : Versions}

theorem Script.append (h : Script a env s ws) :
    Script a env (after s ws) vs → Script a env s (ws ++ vs) := by
  induction h with
  | done s => exact fun h => h
  | record v hid hstatus _ ih => exact fun h => .record v hid hstatus (ih h)
  | activity row _ ih => exact fun h => .activity row (ih h)
  | failed id error hpending _ ih => exact fun h => .failed id error hpending (ih h)
  | @confirmed s ws id previous hpending hconfirmed hprevious _ ih =>
    intro h
    rw [append_assoc]
    rw [after_append] at h
    exact .confirmed id previous hpending hconfirmed hprevious (ih h)

/-- The operation only reads. -/
def ReadOnly {α : Type} (x : ApplyOp α) : Prop := ∀ s, (x.run s).writes = []

theorem readOnly_bind (hx : ReadOnly x) (hf : ∀ b, ReadOnly (f b)) : ReadOnly (x >>= f) := by
  intro s
  cases hout : x.run s with
  | mk ws result =>
    obtain rfl : ws = [] := by
      have hnil := hx s
      rwa [hout] at hnil
    cases result with
    | error e => rw [bind_error hout]
    | ok b => rw [bind_read hout]; exact hf b s

theorem readOnly_pure : ReadOnly (pure b : ApplyOp α) := fun _ => rfl

theorem readOnly_read : ReadOnly (read f : ApplyOp α) := fun _ => rfl

theorem readOnly_fail : ReadOnly (fail e : ApplyOp α) := fun _ => rfl

theorem readOnly_lift : ReadOnly (lift error x : ApplyOp α) := fun _ => rfl

theorem readOnly_reloadVersion {id : String} : ReadOnly (reloadVersion id) :=
  readOnly_bind readOnly_read fun found => by
    cases found with
    | none => exact readOnly_fail
    | some v => exact readOnly_pure

theorem readOnly_restorePrevious {prev : ConfigVersion} :
    ReadOnly (restorePrevious a env i version prev) :=
  readOnly_bind readOnly_lift fun prevIntent =>
    readOnly_bind readOnly_lift fun restored => by
      cases env.restore i restored.toml with
      | error reason => exact readOnly_fail
      | ok done =>
        by_cases hmissing : (!(runtimeMismatches a.hashes (env.readBackRestored i) restored).isEmpty) =
          true
        · simp only [hmissing, if_true]
          exact readOnly_fail
        · simp only [hmissing, Bool.false_eq_true, if_false]
          exact readOnly_bind readOnly_read fun _ => readOnly_pure

theorem after_one : after s [w] = s.put w := rfl

theorem setStatus_run (env : Env) {id : String} (hid : ∃ v ∈ s.versions, v.id = id) (status : ConfigStatus)
    (error : Option String) : (setConfigVersionStatus env id status error).run s =
      ⟨[.setStatus id status error env.now], .ok ()⟩ :=
  if_pos (find_isSome.mpr hid)

theorem has_setStatus {id : String} (hid : ∃ v ∈ s.versions, v.id = id) (id' : String)
    (status : ConfigStatus)
    (error : Option String) (now : Int) :
    ∃ v ∈ (s.put (.setStatus id' status error now)).versions, v.id = id := by
  obtain ⟨v, hv, rfl⟩ := hid
  by_cases hne : v.id = id'
  · exact ⟨_, mem_setStatus.mpr (.inr ⟨v, hv, hne, rfl⟩), rfl⟩
  · exact ⟨v, mem_setStatus.mpr (.inl ⟨hv, hne⟩), rfl⟩

theorem Pending.has {id : String} (h : Pending s id) : ∃ v ∈ s.versions, v.id = id := by
  obtain ⟨v, hv, hid, -⟩ := h
  exact ⟨v, hv, hid⟩

theorem confirm_run (hpending : Pending s version.id) (hprev : s.applied = previous.toList) :
    (confirm env version previous).run s = ⟨swap version.id previous env.now,
      ((reloadVersion version.id).run (after s (swap version.id previous env.now))).result⟩ := by
  cases previous with
  | none =>
    have hset := setStatus_run env hpending.has .applied none
    simp only [confirm]
    rw [bind_ok hset, readOnly_reloadVersion]
    rfl
  | some prev =>
    have hmem : prev ∈ s.applied := by
      rw [hprev]
      exact mem_singleton_self prev
    have hfirst := setStatus_run env ⟨prev, (mem_applied.mp hmem).1, rfl⟩ .superseded none
    have hset := setStatus_run env
      (has_setStatus hpending.has prev.id .superseded none env.now) .applied none
    simp only [confirm]
    rw [bind_ok hfirst, after_one, bind_ok hset, readOnly_reloadVersion]
    rfl

/-- The version is in the table, waiting, and its row describes the projection. -/
structure Awaits (a : Applier) (s : Versions) (version : ConfigVersion) (projected : Projected) :
    Prop where
  row : ∃ v ∈ s.versions, v.id = version.id ∧ v.status = .pending ∧
    ∃ intent, Describes a v.intentJson intent ∧ generate a.formats intent = .ok projected

theorem Awaits.pending (h : Awaits a s version projected) : Pending s version.id := by
  obtain ⟨v, hv, hid, hpending, -⟩ := h.row
  exact ⟨v, hv, hid, hpending⟩

theorem Awaits.confirmed (h : Awaits a s version projected)
    (hmissing : missing a env i projected = []) : Confirmed a env s version.id := by
  obtain ⟨v, hv, hid, -, intent, hdescribes, hgenerate⟩ := h.row
  exact ⟨v, hv, hid, intent, projected, i, hdescribes, hgenerate, hmissing⟩

theorem find_eq_some {id : String} (h : s.find id = some v) : v ∈ s.versions ∧ v.id = id := by
  have hid := find?_some h
  exact ⟨mem_of_find?_eq_some h, by simpa using hid⟩

/-- The row of a version whose status was just set has that status. -/
theorem find_setStatus {id : String} (h : (s.put (.setStatus id status error now)).find id = some v) :
    v.status = status := by
  obtain ⟨hv, hid⟩ := find_eq_some h
  rcases mem_setStatus.mp hv with ⟨-, hne⟩ | ⟨v₀, -, -, rfl⟩
  · exact absurd hid hne
  · rfl

theorem reloadVersion_result {id : String} (h : ((reloadVersion id).run s).result = .ok o) :
    s.find id = some o.version := by
  have hfind : (configVersion id).run s = ⟨[], .ok (s.find id)⟩ := rfl
  rw [reloadVersion, bind_read hfind] at h
  cases hv : s.find id with
  | none => rw [hv] at h; cases h
  | some v =>
    rw [hv] at h
    obtain rfl := Except.ok.inj h
    rfl

/-- An operation that begins with a computation does nothing, or goes on. -/
theorem lift_cases (error : ε → ApplyError) (x : Except ε α) {f : α → ApplyOp β} :
    (∃ e, (lift error x >>= f).run s = ⟨[], .error (error e)⟩) ∨
      ∃ b, x = .ok b ∧ (lift error x >>= f).run s = (f b).run s := by
  cases x with
  | error e =>
    have hout : (lift error (.error e) : ApplyOp α).run s = ⟨[], .error (error e)⟩ := rfl
    exact .inl ⟨_, bind_error hout⟩
  | ok b =>
    have hout : (lift error (.ok b) : ApplyOp α).run s = ⟨[], .ok b⟩ := rfl
    exact .inr ⟨b, rfl, bind_read hout⟩

/-- A version that is restored keeps the row it has. -/
theorem restorePrevious_result {prev : ConfigVersion}
    (h : ((restorePrevious a env i version prev).run s).result = .ok o) :
    o.version = (s.find version.id).getD version := by
  rw [restorePrevious] at h
  rcases lift_cases _ (a.decode prev.intentJson) with ⟨e, he⟩ | ⟨prevIntent, -, hrun⟩
  · rw [intentOf, he] at h
    cases h
  rw [intentOf, hrun] at h
  rcases lift_cases .projection (generate a.formats prevIntent) with ⟨e, he⟩ | ⟨restored, -, hrun⟩
  · rw [generated, he] at h
    cases h
  rw [generated, hrun] at h
  cases hrestore : env.restore i restored.toml with
  | error reason =>
    simp only [hrestore] at h
    cases h
  | ok done =>
    simp only [hrestore] at h
    by_cases hmissing : (!(runtimeMismatches a.hashes (env.readBackRestored i) restored).isEmpty) =
      true
    · simp only [hmissing, if_true] at h
      cases h
    simp only [hmissing, Bool.false_eq_true, if_false] at h
    have hfind : (configVersion version.id).run s = ⟨[], .ok (s.find version.id)⟩ := rfl
    rw [bind_read hfind] at h
    obtain rfl := Except.ok.inj h
    rfl

section

variable {previous : Option ConfigVersion} (env : Env) (i : Nat)
    (h : Awaits a s version projected) (hprev : s.applied = previous.toList)
include h hprev

/-- Settling a version confirms it or fails it, and writes nothing else. -/
theorem settle_cases :
    (missing a env i projected = [] ∧ (settle a env i version projected previous).run s =
      ⟨swap version.id previous env.now,
        ((reloadVersion version.id).run (after s (swap version.id previous env.now))).result⟩) ∨
    (∃ error, ((settle a env i version projected previous).run s).writes =
        [.setStatus version.id .failed error env.now] ∧
      ∀ o, ((settle a env i version projected previous).run s).result = .ok o →
        o.version.status = .failed) := by
  by_cases hmissing : missing a env i projected = []
  · left
    have hsettle : settle a env i version projected previous = confirm env version previous := by
      simp only [settle, hmissing, isEmpty_nil, if_true]
    rw [hsettle]
    exact ⟨hmissing, confirm_run h.pending hprev⟩
  right
  let error := some ("post-commit verification failed: " ++
    "; ".intercalate (missing a env i projected))
  have hset := setStatus_run env h.pending.has .failed error
  have hfound : ∃ v, (s.put (.setStatus version.id .failed error env.now)).find version.id =
      some v := by
    have hhas := has_setStatus h.pending.has version.id .failed error env.now
    exact Option.isSome_iff_exists.mp (find_isSome.mpr hhas)
  refine ⟨error, ?_⟩
  simp only [settle, List.isEmpty_iff, hmissing, if_false]
  rw [bind_ok hset, after_one]
  cases previous with
  | none =>
    refine ⟨by rw [readOnly_reloadVersion]; rfl, fun o ho => ?_⟩
    exact find_setStatus (reloadVersion_result ho)
  | some prev =>
    refine ⟨by rw [readOnly_restorePrevious]; rfl, fun o ho => ?_⟩
    obtain ⟨v, hv⟩ := hfound
    rw [restorePrevious_result ho, hv]
    exact find_setStatus hv

theorem settle_script :
    Script a env s ((settle a env i version projected previous).run s).writes := by
  rcases settle_cases env i h hprev with ⟨hmissing, hrun⟩ | ⟨error, hwrites, -⟩
  · rw [hrun, ← append_nil (swap _ _ _)]
    exact .confirmed _ _ h.pending (h.confirmed hmissing) hprev (.done _)
  · rw [hwrites]
    exact .failed _ _ h.pending (.done _)

end

/-- Committing a candidate fails it, or settles it. -/
theorem commitPending_cases (env : Env) (h : Awaits a s version projected) :
    (commitPending a env projected version).run s =
        (settle a env 0 version projected s.latestApplied).run s ∨
    (∃ error, ((commitPending a env projected version).run s).writes =
        [.setStatus version.id .failed error env.now] ∧
      ∀ o, ((commitPending a env projected version).run s).result = .ok o →
        o.version.status = .failed) := by
  have hread : latestAppliedConfigVersion.run s = ⟨[], .ok s.latestApplied⟩ := rfl
  rw [commitPending, bind_read hread]
  cases hcommit : env.commit projected.toml with
  | ok done => exact .inl rfl
  | error reason =>
    have hset := setStatus_run env h.pending.has .failed (some ("commit: " ++ reason))
    right
    refine ⟨some ("commit: " ++ reason), ?_⟩
    simp only
    rw [bind_ok hset, after_one]
    exact ⟨by rw [readOnly_reloadVersion]; rfl, fun o ho => find_setStatus (reloadVersion_result ho)⟩

theorem record_run :
    (s.find v.id = none ∧ (recordConfigVersion v).run s = ⟨[.record v], .ok v⟩) ∨
      ∃ e, (recordConfigVersion v).run s = ⟨[], .error (.store e)⟩ := by
  cases hfind : s.find v.id with
  | none => exact .inl ⟨rfl, if_neg (by rw [hfind]; exact Bool.false_ne_true)⟩
  | some v' => exact .inr ⟨_, if_pos (by rw [hfind]; rfl)⟩

/-- The store with a new pending version and its audit row. -/
def recorded (s : Versions) (v : ConfigVersion) (row : Activity) : Versions :=
  (s.put (.record v)).put (.activity row)

/-- An apply writes nothing, records a rejected version, or records a pending one
and commits it. -/
theorem applyLocked_cases (a : Applier) (env : Env) (intent : Intent) (action : String)
    (s : Versions) :
    (∃ e, e.refusal = false ∧ (applyLocked a env intent action).run s = ⟨[], .error e⟩) ∨
    (∃ v row, v.status = .failed ∧ s.find v.id = none ∧
      (applyLocked a env intent action).run s = ⟨[.record v, .activity row], .ok ⟨v, none⟩⟩) ∨
    (∃ v row projected, v.id = env.newId ∧ v.status = .pending ∧ s.find v.id = none ∧
      a.encode intent = .ok v.intentJson ∧ generate a.formats intent = .ok projected ∧
      (applyLocked a env intent action).run s =
        ⟨.record v :: .activity row ::
            ((commitPending a env projected v).run (recorded s v row)).writes,
          ((commitPending a env projected v).run (recorded s v row)).result⟩) := by
  rw [applyLocked]
  rcases lift_cases .projection (generate a.formats intent) with ⟨e, he⟩ | ⟨projected, hgen, hrun⟩
  · exact .inl ⟨_, by rfl, he⟩
  rw [generated, hrun]
  rcases lift_cases _ (a.encode intent) with ⟨e, he⟩ | ⟨json, hjson, hrun⟩
  · exact .inl ⟨_, by rfl, he⟩
  rw [hrun]
  rcases lift_cases _ (env.validate projected) with ⟨e, he⟩ | ⟨verdict, -, hrun⟩
  · exact .inl ⟨_, by rfl, he⟩
  rw [hrun]
  have haudit : ∀ (v : ConfigVersion) (s : Versions), ∃ row,
      (audit env action v).run s = ⟨[.activity row], .ok ()⟩ := fun v s => ⟨_, rfl⟩
  cases verdict with
  | rejected reason =>
    rcases record_run (s := s) (v := newVersion a env projected json .failed (some reason)) with
      ⟨hid, hrecord⟩ | ⟨e, he⟩
    · obtain ⟨row, hrow⟩ := haudit (newVersion a env projected json .failed (some reason))
        (s.put (.record (newVersion a env projected json .failed (some reason))))
      refine .inr (.inl ⟨_, row, rfl, hid, ?_⟩)
      simp only
      rw [bind_ok hrecord, after_one, bind_ok hrow]
      rfl
    · exact .inl ⟨_, by rfl, bind_error he⟩
  | accepted =>
    rcases record_run (s := s) (v := newVersion a env projected json .pending none) with
      ⟨hid, hrecord⟩ | ⟨e, he⟩
    · obtain ⟨row, hrow⟩ := haudit (newVersion a env projected json .pending none)
        (s.put (.record (newVersion a env projected json .pending none)))
      refine .inr (.inr ⟨_, row, projected, rfl, rfl, hid, hjson, hgen, ?_⟩)
      simp only
      rw [bind_ok hrecord, after_one, bind_ok hrow, after_one]
      rfl
    · exact .inl ⟨_, by rfl, bind_error he⟩

theorem applied_recorded (hstatus : v.status ≠ .applied) (row : Activity) :
    (recorded s v row).applied = s.applied := applied_record hstatus

theorem awaits_recorded (hpending : v.status = .pending)
    (hencode : a.encode intent = .ok v.intentJson)
    (hgenerate : generate a.formats intent = .ok projected) (row : Activity) :
    Awaits a (recorded s v row) v projected :=
  ⟨v, mem_append_right _ (mem_singleton_self v), rfl, hpending, intent, .inl hencode, hgenerate⟩

theorem commitPending_script (h : Awaits a s version projected) (hone : s.applied.length ≤ 1) :
    Script a env s ((commitPending a env projected version).run s).writes := by
  rcases commitPending_cases env h with hrun | ⟨error, hwrites, -⟩
  · rw [hrun]
    exact settle_script env 0 h (applied_eq_latest hone)
  · rw [hwrites]
    exact .failed _ _ h.pending (.done _)

theorem applyLocked_script (hone : s.applied.length ≤ 1) (intent : Intent) (action : String) :
    Script a env s ((applyLocked a env intent action).run s).writes := by
  rcases applyLocked_cases a env intent action s with ⟨e, -, hrun⟩ | ⟨v, row, hstatus, hid, hrun⟩ |
    ⟨v, row, projected, -, hstatus, hid, hencode, hgenerate, hrun⟩
  · rw [hrun]
    exact .done s
  · rw [hrun]
    exact .record v hid (.inr hstatus) (.activity row (.done _))
  · rw [hrun]
    have hone' : (recorded s v row).applied.length ≤ 1 := by
      rw [applied_recorded (by rw [hstatus]; decide)]
      exact hone
    exact .record v hid (.inl hstatus) (.activity row
      (commitPending_script (awaits_recorded hstatus hencode hgenerate row) hone'))

/-- The version recorded last is a pending one. -/
def Versions.NewestPending (s : Versions) : Prop := ∃ v, s.latest = some v ∧ v.status = .pending

/-- A conditional apply is refused, or it is an apply on the version expected. -/
theorem applyIfCurrent_cases (a : Applier) (env : Env) (intent : Intent) (expected : Option String)
    (action : String) (s : Versions) :
    (∃ e, e.refusal = true ∧ (s.NewestPending ∨ s.latestApplied.map (·.id) ≠ expected) ∧
      (applyIfCurrent a env intent expected action).run s = ⟨[], .error e⟩) ∨
    (¬ s.NewestPending ∧ s.latestApplied.map (·.id) = expected ∧
      (applyIfCurrent a env intent expected action).run s =
        (applyLocked a env intent action).run s) := by
  have hnewest : latestConfigVersion.run s = ⟨[], .ok s.latest⟩ := rfl
  have happlied : latestAppliedConfigVersion.run s = ⟨[], .ok s.latestApplied⟩ := rfl
  rw [applyIfCurrent, bind_read hnewest]
  cases hfilter : s.latest.filter fun v => v.status = .pending with
  | some v =>
    obtain ⟨hv, hpending⟩ := Option.filter_eq_some_iff.mp hfilter
    exact .inl ⟨_, rfl, .inl ⟨v, hv, of_decide_eq_true hpending⟩, rfl⟩
  | none =>
    have hnot : ¬ s.NewestPending := fun ⟨v, hv, hpending⟩ =>
      Option.filter_eq_none_iff.mp hfilter v hv (decide_eq_true hpending)
    simp only
    rw [bind_read happlied]
    by_cases hbase : s.latestApplied.map (·.id) = expected
    · exact .inr ⟨hnot, hbase, by rw [if_neg fun hne => hne hbase]⟩
    refine .inl ⟨.staleBase expected (s.latestApplied.map (·.id)), rfl, .inr hbase, ?_⟩
    rw [if_pos hbase]
    rfl

theorem applyIfCurrent_script (hone : s.applied.length ≤ 1) (intent : Intent)
    (expected : Option String) (action : String) :
    Script a env s ((applyIfCurrent a env intent expected action).run s).writes := by
  rcases applyIfCurrent_cases a env intent expected action s with ⟨e, -, -, hrun⟩ | ⟨-, -, hrun⟩
  · rw [hrun]
    exact .done s
  · rw [hrun]
    exact applyLocked_script hone intent action

theorem rollback_script (hone : s.applied.length ≤ 1) (versionId : String) :
    Script a env s ((rollback a env versionId).run s).writes := by
  have hread : (configVersion versionId).run s = ⟨[], .ok (s.find versionId)⟩ := rfl
  rw [rollback, bind_read hread]
  cases s.find versionId with
  | none => exact .done s
  | some target =>
    simp only
    split
    · exact .done s
    rcases lift_cases _ (a.decode target.intentJson) with ⟨e, he⟩ | ⟨intent, -, hrun⟩
    · rw [intentOf, he]
      exact .done s
    · rw [intentOf, hrun]
      exact applyLocked_script hone intent _

/-- Settling one version leaves the other pending rows, and at most one applied. -/
theorem settle_keeps (env : Env) (i : Nat) (hkeyed : s.Keyed) (hone : s.applied.length ≤ 1)
    (h : Awaits a s version projected) :
    let s' := after s ((settle a env i version projected s.latestApplied).run s).writes
    s'.Keyed ∧ s'.applied.length ≤ 1 ∧
      ∀ v ∈ s.versions, v.status = .pending → v.id ≠ version.id → v ∈ s'.versions := by
  have hprev := applied_eq_latest hone
  obtain ⟨v₀, hv₀, hid, hpending⟩ := h.pending
  rcases settle_cases env i h hprev with ⟨-, hrun⟩ | ⟨error, hwrites, -⟩
  · simp only [hrun, ← hid]
    refine ⟨keyed_swap hkeyed, by rw [applied_swap hkeyed hv₀ hpending hprev]; exact Nat.le_refl _,
      fun v hv hwaits hne => mem_swap_of_ne hv hne fun prev hmem => ?_⟩
    refine ne_of_pending hkeyed hv hwaits ?_
    rw [hprev, hmem]
    exact mem_singleton_self prev
  · simp only [hwrites, after_one, ← hid]
    refine ⟨keyed_setStatus hkeyed _ _ _, ?_, fun v hv _ hne => mem_setStatus.mpr (.inl ⟨hv, hne⟩)⟩
    rw [applied_setStatus hkeyed hv₀ (by rw [hpending]; decide) (by decide)]
    exact hone

theorem settleEach_script (s : Versions) (i : Nat) (hkeyed : s.Keyed) (hone : s.applied.length ≤ 1)
    (hrows : ∀ v ∈ versions, v ∈ s.versions ∧ v.status = .pending)
    (hnodup : (versions.map ConfigVersion.id).Nodup) :
    Script a env s ((settleEach a env i versions).run s).writes := by
  induction versions generalizing s i with
  | nil => exact .done s
  | cons version rest ih =>
    obtain ⟨hversion, hpending⟩ := hrows version mem_cons_self
    obtain ⟨hfresh, hnodup⟩ := List.nodup_cons.mp hnodup
    rw [settleEach]
    rcases lift_cases _ (a.decode version.intentJson) with ⟨e, he⟩ | ⟨intent, hdecode, hrun⟩
    · rw [intentOf, he]
      exact .done s
    rw [intentOf, hrun]
    rcases lift_cases .projection (generate a.formats intent) with ⟨e, he⟩ |
      ⟨projected, hgenerate, hrun⟩
    · rw [generated, he]
      exact .done s
    rw [generated, hrun]
    have hread : latestAppliedConfigVersion.run s = ⟨[], .ok s.latestApplied⟩ := rfl
    rw [bind_read hread]
    have hawaits : Awaits a s version projected :=
      ⟨version, hversion, rfl, hpending, intent, .inr hdecode, hgenerate⟩
    have hscript := settle_script env i hawaits (applied_eq_latest hone)
    obtain ⟨hkeyed', hone', hkept⟩ := settle_keeps env i hkeyed hone hawaits
    cases hout : (settle a env i version projected s.latestApplied).run s with
    | mk ws result =>
      rw [hout] at hscript hkeyed' hone' hkept
      cases result with
      | error e =>
        rw [bind_error hout]
        exact hscript
      | ok outcome =>
        rw [bind_ok hout]
        refine hscript.append ?_
        have hrest := ih (after s ws) (i + 1) hkeyed' hone' (fun v hv => ?_) hnodup
        · cases hlater : (settleEach a env (i + 1) rest).run (after s ws) with
          | mk ws' result' =>
            rw [hlater] at hrest
            cases result' with
            | error e => rw [bind_error hlater]; exact hrest
            | ok outcomes =>
              rw [bind_ok hlater, run_pure, append_nil]
              exact hrest
        · obtain ⟨hmem, hwaits⟩ := hrows v (mem_cons_of_mem _ hv)
          refine ⟨hkept v hmem hwaits fun hid => hfresh ?_, hwaits⟩
          rw [← hid]
          exact mem_map_of_mem hv

theorem settlePending_script (hkeyed : s.Keyed) (hone : s.applied.length ≤ 1) :
    Script a env s ((settlePending a env).run s).writes := by
  have hread : listConfigVersions.run s =
      ⟨[], .ok ((newestFirst s.versions).take DEFAULT_READ_LIMIT)⟩ := rfl
  rw [settlePending, bind_read hread]
  have hsub : (newestFirst s.versions).Perm s.versions := perm_insertionSort _ _
  refine settleEach_script s 0 hkeyed hone (fun v hv => ?_) ?_
  · obtain ⟨hv, hstatus⟩ := mem_filter.mp hv
    exact ⟨hsub.mem_iff.mp (mem_of_mem_take hv), (of_decide_eq_true hstatus).1⟩
  have hall := (hsub.map _).nodup_iff.mpr hkeyed
  exact hall.sublist ((filter_sublist.trans (take_sublist _ _)).map _)

end script

end ConfigApply
