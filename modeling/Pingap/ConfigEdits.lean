import Pingap.ConfigVersions

/-!
# Edits of the intent

The routes of the admin API read the applied intent, change one entry of it and
hand the result to the applier with the id of the version they read. Reading takes
no lock. The applier compares the id again under its lock, so that the edits it
confirms are as if made one after the other.
-/

namespace ConfigEdits

open ConfigIntent ConfigApply ConfigVersions StoreOp List

/-! ## Changes -/

/-- One entry with its new value, or with none when it is removed. -/
inductive Change where
  | upstream (name : String) (value : Option Upstream)
  | listener (name : String) (value : Option Listener)
  | domain (name : String) (value : Option Domain)
  | policy (name : String) (value : Option PluginConf)
  | certificate (name : String) (value : Option Certificate)
deriving DecidableEq

/-- Put a value under a key, or take the key out. -/
def update {α : Type} (m : KeyedMap String α) (name : String) : Option α → KeyedMap String α
  | some value => m.insert name value
  | none => m.erase name

namespace Change

def key : Change → String × String
  | .upstream name _ => ("upstream", name)
  | .listener name _ => ("listener", name)
  | .domain name _ => ("domain", name)
  | .policy name _ => ("policy", name)
  | .certificate name _ => ("certificate", name)

def apply : Change → Intent → Intent
  | .upstream name value, i => { i with upstreams := update i.upstreams name value }
  | .listener name value, i => { i with listeners := update i.listeners name value }
  | .domain name value, i => { i with domains := update i.domains name value }
  | .policy name value, i => { i with policies := update i.policies name value }
  | .certificate name value, i => { i with certificates := update i.certificates name value }

/-- The intent has the entry as the change left it. -/
def InForce : Change → Intent → Prop
  | .upstream name value, i => i.upstreams.lookup name = value
  | .listener name value, i => i.listeners.lookup name = value
  | .domain name value, i => i.domains.lookup name = value
  | .policy name value, i => i.policies.lookup name = value
  | .certificate name value, i => i.certificates.lookup name = value

instance (i : Intent) : (c : Change) → Decidable (c.InForce i)
  | .upstream _ _ => inferInstanceAs (Decidable (_ = _))
  | .listener _ _ => inferInstanceAs (Decidable (_ = _))
  | .domain _ _ => inferInstanceAs (Decidable (_ = _))
  | .policy _ _ => inferInstanceAs (Decidable (_ = _))
  | .certificate _ _ => inferInstanceAs (Decidable (_ = _))

/-- The intent has an entry under the key of the change. -/
def existed : Change → Intent → Bool
  | .upstream name _, i => (i.upstreams.lookup name).isSome
  | .listener name _, i => (i.listeners.lookup name).isSome
  | .domain name _, i => (i.domains.lookup name).isSome
  | .policy name _, i => (i.policies.lookup name).isSome
  | .certificate name _, i => (i.certificates.lookup name).isSome

def removes : Change → Bool
  | .upstream _ value => value.isNone
  | .listener _ value => value.isNone
  | .domain _ value => value.isNone
  | .policy _ value => value.isNone
  | .certificate _ value => value.isNone

def action (c : Change) (base : Intent) : String :=
  c.key.1 ++ "." ++
    (if c.removes then "delete" else if c.existed base then "update" else "create") ++
    ":" ++ c.key.2

end Change

theorem lookup_update_self :
    (update m name value).lookup name = value := by
  cases value with
  | none => exact AList.lookup_erase name m
  | some v => exact AList.lookup_insert m

theorem lookup_update_of_ne {m : KeyedMap String α} (h : other ≠ name)
    : (update m name value).lookup other = m.lookup other := by
  cases value with
  | none => exact AList.lookup_erase_ne h
  | some v => exact AList.lookup_insert_ne h

theorem inForce_apply {c : Change} : c.InForce (c.apply i) := by
  cases c <;> exact lookup_update_self

theorem InForce.apply {c d : Change} (h : c.InForce i) (hkey : d.key ≠ c.key) :
    c.InForce (d.apply i) := by
  cases c <;> cases d <;> first
    | exact h
    | exact (lookup_update_of_ne (fun heq => hkey (by rw [Change.key, Change.key, heq]))).trans h

/-! ## Edits -/

inductive EditError where
  | conflict (reason : String)
  | internal (reason : String)
  | badRequest (reason : String)
  | notFound (kind id : String)
  | apply (error : ApplyError)
deriving DecidableEq, Repr

/-- What a request asks for: a change of one entry, which may depend on what the
intent has there. -/
structure Edit where
  resolve : Intent → Except EditError Change

def upsert (change : Change) : Edit := ⟨fun _ => .ok change⟩

def remove (change : Change) : Edit := ⟨fun base =>
  if change.existed base then .ok change else .error (.notFound change.key.1 change.key.2)⟩

/-- A certificate without a key keeps the stored one. -/
def putCertificate (name : String) (c : Certificate) : Edit := ⟨fun base =>
  let stored := (base.certificates.lookup name).bind Certificate.tlsKey
  .ok (.certificate name (some { c with tlsKey := if c.tlsKey.isNone then stored else c.tlsKey }))⟩

/-- A policy, with the secrets it leaves out taken over from the stored one. -/
def putPolicy (mutation : PluginConf → Option PluginConf → Except String PluginConf) (name : String)
    (body : PluginConf) : Edit := ⟨fun base => do
  let body ← (mutation body (base.policies.lookup name)).mapError .badRequest
  if (body.lookup "category").bind TomlValue.asStr != some (policyCategory name) then
    throw (.badRequest "policy category must match category:profile entry name")
  return .policy name (some body)⟩

/-! ## Requests in any order -/

/-- How far a request has come. -/
inductive Client where
  | arrived (edit : Edit)
  | checked (edit : Edit)
  | ready (change : Change) (base : Intent) (expected : Option String)
  | answered (result : Except EditError Outcome)

/-- A change, the intent it was made on, and the newest applied version when the
applier took its lock for it. -/
structure Commit where
  change : Change
  base : Intent
  against : Option ConfigVersion

/-- The request that has the lock, and what the applier still has to write for it. -/
structure Holder where
  client : Nat
  commit : Commit
  todo : List Write
  result : Except ApplyError Outcome

/-- The store, the requests by their number, who has the lock, and the edits that have
been reported applied. -/
structure System where
  store : Versions
  clients : Nat → Option Client
  holder : Option Holder
  log : List Commit

def System.setClient (s : System) (id : Nat) (client : Client) : System :=
  { s with clients := fun id' => if id' = id then some client else s.clients id' }

def checkNewest (edit : Edit) (newest : Option ConfigVersion) : Client :=
  match newest.filter fun v => v.status = .pending with
  | some v => .answered (.error (.conflict ("config version `" ++ v.id ++
      "` has not been confirmed enforcing yet; retry once it settles")))
  | none => .checked edit

/-- Make the change on the base that was read. -/
def makeReady (edit : Edit) (base : Intent) (expected : Option String) : Client :=
  match edit.resolve base with
  | .ok change => .ready change base expected
  | .error e => .answered (.error e)

def readBase (a : Applier) (edit : Edit) (applied : Option ConfigVersion) : Client :=
  match applied with
  | none => makeReady edit Intent.empty none
  | some v =>
    match a.decode v.intentJson with
    | .ok base => makeReady edit base (some v.id)
    | .error e => .answered (.error (.internal ("stored intent for version `" ++ v.id ++
        "` is unreadable: " ++ e)))

def reportsApplied : Except ApplyError Outcome → Bool
  | .ok o => o.version.status = .applied
  | .error _ => false

/-- What the applier does for a request from the moment it has the lock. -/
def takeLock (a : Applier) (env : Env) (store : Versions) (id : Nat) (change : Change) (base : Intent)
    (expected : Option String) : Holder :=
  let out := (applyIfCurrent a env (change.apply base) expected (change.action base)).run store
  ⟨id, ⟨change, base, store.latestApplied⟩, out.writes, out.result⟩

inductive Event where
  | arrive (id : Nat) (edit : Edit)
  | readNewest (id : Nat)
  | readBase (id : Nat)
  | acquire (id : Nat) (env : Env)
  | write
  | release

def step (a : Applier) (s : System) : Event → Unit × System
  | .arrive id edit =>
    match s.clients id with
    | none => ((), s.setClient id (.arrived edit))
    | some _ => ((), s)
  | .readNewest id =>
    match s.clients id with
    | some (.arrived edit) => ((), s.setClient id (checkNewest edit s.store.latest))
    | _ => ((), s)
  | .readBase id =>
    match s.clients id with
    | some (.checked edit) =>
      ((), s.setClient id (ConfigEdits.readBase a edit s.store.latestApplied))
    | _ => ((), s)
  | .acquire id env =>
    match s.holder, s.clients id with
    | none, some (.ready change base expected) =>
      ((), { s with holder := some (takeLock a env s.store id change base expected) })
    | _, _ => ((), s)
  | .write =>
    match s.holder with
    | some ⟨client, commit, w :: todo, result⟩ =>
      ((), { s with store := s.store.put w, holder := some ⟨client, commit, todo, result⟩ })
    | _ => ((), s)
  | .release =>
    match s.holder with
    | some ⟨client, commit, [], result⟩ =>
      ((), { s.setClient client (.answered (result.mapError .apply)) with
        holder := none
        log := if reportsApplied result then s.log ++ [commit] else s.log })
    | _ => ((), s)

def run (a : Applier) (start : Versions) (events : List Event) : System :=
  Trace.final (step a) ⟨start, fun _ => none, none, []⟩ events

/-! ## What one edit does to the store -/

/-- The intent of a version, or the empty one where there is none. -/
def intentOf (a : Applier) : Option ConfigVersion → Except String Intent
  | none => .ok Intent.empty
  | some v => a.decode v.intentJson

section effect

variable {a : Applier} {env : Env} {s : Versions}

theorem find_of_mem (hkeyed : s.Keyed) (hv : v ∈ s.versions) : s.find v.id = some v := by
  obtain ⟨v', hv'⟩ := Option.isSome_iff_exists.mp (find_isSome.mpr ⟨v, hv, rfl⟩)
  obtain ⟨hmem, hid⟩ := find_eq_some hv'
  rw [hv', hkeyed.eq hmem hv hid]

theorem reloadVersion_run {id : String} (h : s.find id = some v) :
    (reloadVersion id).run s = ⟨[], .ok ⟨v, none⟩⟩ := by
  have hfind : (configVersion id).run s = ⟨[], .ok (s.find id)⟩ := rfl
  rw [reloadVersion, bind_read hfind, h]
  rfl

/-- Committing a pending version ends in the version being the applied one, or leaves
what is applied. -/
theorem commitPending_outcome (env : Env) (hkeyed : s.Keyed) (hone : s.applied.length ≤ 1)
    (hmem : v ∈ s.versions) (hpending : v.status = .pending) (h : Awaits a s v projected) :
    (reportsApplied ((commitPending a env projected v).run s).result = true ∧
      (after s ((commitPending a env projected v).run s).writes).applied =
        [v.settle .applied none env.now]) ∨
    (reportsApplied ((commitPending a env projected v).run s).result = false ∧
      (after s ((commitPending a env projected v).run s).writes).applied = s.applied) := by
  have hfailed : ∀ (error : Option String) (result : Except ApplyError Outcome),
      (∀ o, result = .ok o → o.version.status = .failed) →
      reportsApplied result = false ∧
        (after s [.setStatus v.id .failed error env.now]).applied = s.applied := by
    intro error result hresult
    refine ⟨?_, applied_setStatus hkeyed hmem (by rw [hpending]; decide) (by decide) _ _⟩
    cases result with
    | error e => rfl
    | ok o => simp [reportsApplied, hresult o rfl]
  rcases commitPending_cases env h with hrun | ⟨error, hwrites, hresult⟩
  · rw [hrun]
    rcases settle_cases env 0 h (applied_eq_latest hone) with ⟨-, hset⟩ | ⟨error, hwrites, hresult⟩
    · have happlied := applied_swap hkeyed hmem hpending (applied_eq_latest hone) env.now
      rw [hset]
      refine .inl ⟨?_, happlied⟩
      obtain ⟨hrow, -⟩ : v.settle .applied none env.now ∈
          (after s (swap v.id s.latestApplied env.now)).versions ∧ _ :=
        mem_applied.mp (by rw [happlied]; exact mem_singleton_self _)
      have hfind : (after s (swap v.id s.latestApplied env.now)).find v.id =
          some (v.settle .applied none env.now) := find_of_mem (keyed_swap hkeyed) hrow
      show reportsApplied ((reloadVersion v.id).run _).result = true
      rw [reloadVersion_run hfind]
      rfl
    · rw [hwrites]
      exact .inr (hfailed error _ hresult)
  · rw [hwrites]
    exact .inr (hfailed error _ hresult)

/-- An operation that ends in an applied version has put it in the place of the one
it expected; any other leaves what is applied. -/
theorem applyIfCurrent_effect (h : Orderly s) (intent : Intent) (expected : Option String)
    (action : String) :
    (reportsApplied ((applyIfCurrent a env intent expected action).run s).result = true ∧
      s.latestApplied.map (·.id) = expected ∧
      ∃ v, (after s ((applyIfCurrent a env intent expected action).run s).writes).applied = [v] ∧
        a.encode intent = .ok v.intentJson) ∨
    (reportsApplied ((applyIfCurrent a env intent expected action).run s).result = false ∧
      (after s ((applyIfCurrent a env intent expected action).run s).writes).applied = s.applied) := by
  rcases applyIfCurrent_cases a env intent expected action s with ⟨e, -, -, hrun⟩ |
    ⟨-, hexpected, hrun⟩
  · rw [hrun]
    exact .inr ⟨rfl, rfl⟩
  rw [hrun]
  rcases applyLocked_cases a env intent action s with ⟨e, -, hrun⟩ | ⟨v, row, hstatus, hid, hrun⟩ |
    ⟨v, row, projected, -, hpending, hid, hencode, hgenerate, hrun⟩
  · rw [hrun]
    exact .inr ⟨rfl, rfl⟩
  · rw [hrun]
    refine .inr ⟨?_, applied_recorded (by rw [hstatus]; decide) row⟩
    simp [reportsApplied, hstatus]
  -- The new row is in the table, and nothing else is applied yet.
  have happlied : (recorded s v row).applied = s.applied :=
    applied_recorded (by rw [hpending]; decide) row
  have hkeyed : (recorded s v row).Keyed := keyed_record h.keyed hid
  have hone : (recorded s v row).applied.length ≤ 1 := by rw [happlied]; exact h.one
  have hawaits : Awaits a (recorded s v row) v projected :=
    awaits_recorded hpending hencode hgenerate row
  have hmem : v ∈ (recorded s v row).versions := mem_append_right _ (mem_singleton_self v)
  rw [hrun]
  rcases commitPending_outcome env hkeyed hone hmem hpending hawaits with
    ⟨hreports, hv⟩ | ⟨hreports, hsame⟩
  · exact .inl ⟨hreports, hexpected, v.settle .applied none env.now, hv, hencode⟩
  · exact .inr ⟨hreports, hsame.trans happlied⟩

end effect

/-! ## One edit after the other -/

/-- The intent is the one of the version the edit names. -/
def Based (a : Applier) (s : Versions) (base : Intent) : Option String → Prop
  | none => base = Intent.empty
  | some id => ∃ v ∈ s.versions, v.id = id ∧ a.decode v.intentJson = .ok base

/-- Make the changes of some commits. -/
def replay (i : Intent) (log : List Commit) : Intent := log.foldl (fun i c => c.change.apply i) i

/-- Every commit was made on the outcome of those before it. -/
def Follows : Intent → List Commit → Prop
  | _, [] => True
  | i, c :: rest => c.base = i ∧ Follows (c.change.apply i) rest

/-- The applied intent is what the commits of the log make of the one at the start. -/
structure Serial (a : Applier) (start s : Versions) (log : List Commit) : Prop where
  current : ∀ base, intentOf a s.latestApplied = .ok base →
    ∃ i₀, intentOf a start.latestApplied = .ok i₀ ∧ Follows i₀ log ∧ base = replay i₀ log
  readable : log ≠ [] → ∃ base, intentOf a s.latestApplied = .ok base

theorem follows_append (h : Follows i log) (hbase : c.base = replay i log) :
    Follows i (log ++ [c]) := by
  induction log generalizing i with
  | nil => exact ⟨hbase, trivial⟩
  | cons first rest ih => exact ⟨h.1, ih h.2 hbase⟩

/-- What is in force stays so while only other keys are changed. -/
theorem replay_inForce {c : Change} (h : c.InForce i) (hkeys : ∀ d ∈ post, d.change.key ≠ c.key) :
    c.InForce (replay i post) := by
  induction post generalizing i with
  | nil => exact h
  | cons d rest ih =>
    exact ih (InForce.apply h (hkeys d mem_cons_self))
      fun d' hd' => hkeys d' (mem_cons_of_mem _ hd')

theorem replay_append : replay i (pre ++ post) = replay (replay i pre) post := foldl_append

section serial

variable {a : Applier} {start s : Versions} {log : List Commit}

theorem latestApplied_mem (h : s.latestApplied = some v) : v ∈ s.versions := by
  have hhead : v ∈ newestFirst s.applied := mem_of_mem_head? h
  exact (mem_applied.mp (mem_insertionSort _ |>.mp hhead)).1

theorem row_put (hv : v ∈ s.versions) (w : Write) :
    ∃ v' ∈ (s.put w).versions, v'.id = v.id ∧ v'.intentJson = v.intentJson := by
  cases w with
  | record row => exact ⟨v, mem_append_left _ hv, rfl, rfl⟩
  | activity row => exact ⟨v, hv, rfl, rfl⟩
  | setStatus id status error now =>
    by_cases hid : v.id = id
    · exact ⟨_, mem_setStatus.mpr (.inr ⟨v, hv, hid, rfl⟩), rfl, rfl⟩
    · exact ⟨v, mem_setStatus.mpr (.inl ⟨hv, hid⟩), rfl, rfl⟩

theorem Based.put (h : Based a s base expected) (w : Write) : Based a (s.put w) base expected := by
  cases expected with
  | none => exact h
  | some id =>
    obtain ⟨v, hv, rfl, hdecode⟩ := h
    obtain ⟨v', hv', hid, hjson⟩ := row_put hv w
    exact ⟨v', hv', hid, by rw [hjson]; exact hdecode⟩

/-- An edit whose version is still the applied one was made on its intent. -/
theorem Based.intentOf (h : Based a s base expected) (hkeyed : s.Keyed)
    (hexpected : s.latestApplied.map (·.id) = expected) :
    intentOf a s.latestApplied = .ok base := by
  cases hlatest : s.latestApplied with
  | none =>
    rw [hlatest] at hexpected
    obtain rfl : expected = none := hexpected.symm
    exact congrArg Except.ok (Eq.symm h)
  | some v =>
    rw [hlatest] at hexpected
    obtain rfl : expected = some v.id := hexpected.symm
    obtain ⟨v', hv', hid, hdecode⟩ := h
    obtain rfl : v' = v := hkeyed.eq hv' (latestApplied_mem hlatest) hid
    exact hdecode

theorem serial_start : Serial a s s [] :=
  ⟨fun base h => ⟨base, h, trivial, rfl⟩, fun h => absurd rfl h⟩

/-- A commit on the applied intent takes its place at the end of the log. -/
theorem Serial.commit
    (hcodec : ∀ intent json, a.encode intent = .ok json → a.decode json = .ok intent)
    (h : Serial a start s log) (hbase : intentOf a s.latestApplied = .ok c.base)
    (happlied : s'.applied = [v]) (hencode : a.encode (c.change.apply c.base) = .ok v.intentJson) :
    Serial a start s' (log ++ [c]) := by
  have hlatest : s'.latestApplied = some v := by
    rw [Versions.latestApplied, happlied]
    rfl
  have hintent : intentOf a s'.latestApplied = .ok (c.change.apply c.base) := by
    rw [hlatest]
    exact hcodec _ _ hencode
  obtain ⟨i₀, hstart, hfollows, hreplay⟩ := h.current c.base hbase
  refine ⟨fun base hcurrent => ⟨i₀, hstart, follows_append hfollows hreplay, ?_⟩,
    fun _ => ⟨_, hintent⟩⟩
  rw [hintent] at hcurrent
  rw [← Except.ok.inj hcurrent, replay_append, ← hreplay]
  rfl

theorem Serial.congr (h : Serial a start s log) (happlied : s'.applied = s.applied) :
    Serial a start s' log := by
  have hlatest : s'.latestApplied = s.latestApplied := by
    rw [Versions.latestApplied, happlied]
    rfl
  exact ⟨by rw [hlatest]; exact h.current, by rw [hlatest]; exact h.readable⟩

end serial

/-! ## The invariant of a run -/

/-- The applier is in the middle of an operation that started at a store in order. -/
def Held (a : Applier) (start : Versions) (s : System) (h : Holder) : Prop :=
  ∃ s₀ env expected done, Orderly s₀ ∧ Serial a start s₀ s.log ∧ s.store = after s₀ done ∧
    h.commit.against = s₀.latestApplied ∧ Based a s₀ h.commit.base expected ∧
    (applyIfCurrent a env (h.commit.change.apply h.commit.base) expected
      (h.commit.change.action h.commit.base)).run s₀ = ⟨done ++ h.todo, h.result⟩

structure Sound (a : Applier) (start : Versions) (s : System) : Prop where
  based : ∀ id change base expected, s.clients id = some (.ready change base expected) →
    Based a s.store base expected
  log : ∀ c ∈ s.log, intentOf a c.against = .ok c.base
  free : s.holder = none → Orderly s.store ∧ Serial a start s.store s.log
  held : ∀ h, s.holder = some h → Held a start s h

section sound

variable {a : Applier} {start : Versions} {s : System}

theorem setClient_clients {id id' : Nat} (h : (s.setClient id client).clients id' = some c) :
    c = client ∨ s.clients id' = some c := by
  have hif : (if id' = id then some client else s.clients id') = some c := h
  split at hif
  · exact .inl (Option.some.inj hif).symm
  · exact .inr hif

/-- A request that goes one step further outside the lock. -/
theorem Sound.setClient (h : Sound a start s) {id : Nat}
    (hclient : ∀ change base expected, client = .ready change base expected →
      Based a s.store base expected) : Sound a start (s.setClient id client) where
  based id' change base expected hready := by
    rcases setClient_clients hready with heq | hold
    · exact hclient change base expected heq.symm
    · exact h.based id' change base expected hold
  log := h.log
  free := h.free
  held := h.held

theorem checkNewest_ne_ready :
    checkNewest edit newest ≠ .ready change base expected := by
  rw [checkNewest]
  split <;> exact fun h => by cases h

theorem makeReady_eq_ready (h : makeReady edit base expected = .ready change base' expected') :
    base' = base ∧ expected' = expected := by
  rw [makeReady] at h
  split at h
  · cases h
    exact ⟨rfl, rfl⟩
  · cases h

theorem readBase_based {s : Versions}
    (h : readBase a edit s.latestApplied = .ready change base expected) :
    Based a s base expected := by
  cases hlatest : s.latestApplied with
  | none =>
    rw [hlatest] at h
    obtain ⟨rfl, rfl⟩ := makeReady_eq_ready h
    rfl
  | some v =>
    simp only [hlatest, readBase] at h
    split at h
    · rename_i stored hdecode
      obtain ⟨rfl, rfl⟩ := makeReady_eq_ready h
      exact ⟨v, latestApplied_mem hlatest, rfl, hdecode⟩
    · cases h

theorem Sound.acquire (h : Sound a start s) (hfree : s.holder = none) {id : Nat}
    (hready : s.clients id = some (.ready change base expected)) (env : Env) :
    Sound a start { s with holder := some (takeLock a env s.store id change base expected) } where
  based := h.based
  log := h.log
  free hnone := by cases hnone
  held holder hholder := by
    obtain rfl := Option.some.inj hholder
    exact ⟨s.store, env, expected, [], (h.free hfree).1, (h.free hfree).2, rfl, rfl,
      h.based id change base expected hready, rfl⟩

theorem Sound.write (h : Sound a start s)
    (hholder : s.holder = some ⟨client, commit, w :: todo, result⟩) :
    Sound a start { s with store := s.store.put w, holder := some ⟨client, commit, todo, result⟩ } where
  based id change base expected hready := (h.based id change base expected hready).put w
  log := h.log
  free hnone := by cases hnone
  held holder hnext := by
    obtain rfl := Option.some.inj hnext
    obtain ⟨s₀, env, expected, done, horderly, hserial, hstore, hagainst, hbased, hrun⟩ :=
      h.held _ hholder
    refine ⟨s₀, env, expected, done ++ [w], horderly, hserial, ?_, hagainst, hbased, ?_⟩
    · show s.store.put w = _
      rw [after_append, ← hstore]
      rfl
    · rw [hrun, append_assoc]
      rfl

section

variable (hcodec : ∀ intent json, a.encode intent = .ok json → a.decode json = .ok intent)
include hcodec

theorem Sound.release (h : Sound a start s) (hholder :
    s.holder = some ⟨client, commit, [], result⟩) :
    Sound a start { s.setClient client (.answered (result.mapError .apply)) with
      holder := none
      log := if reportsApplied result then s.log ++ [commit] else s.log } := by
  obtain ⟨s₀, env, expected, done, horderly, hserial, hstore, hagainst, hbased, hrun⟩ :=
    h.held _ hholder
  rw [append_nil] at hrun
  have hscript : Script a env s₀ done := by
    have hall : Script a env s₀ ((applyIfCurrent a env (commit.change.apply commit.base) expected
        (commit.change.action commit.base)).run s₀).writes :=
      applyIfCurrent_script horderly.one _ _ _
    rwa [hrun] at hall
  have horderly' : Orderly s.store := by
    have hall := script_orderly hscript done.length horderly
    rwa [take_length, ← hstore] at hall
  have hclients : ∀ id change base expected,
      (s.setClient client (.answered (result.mapError .apply))).clients id =
        some (.ready change base expected) → Based a s.store base expected := by
    intro id change base expected hready
    rcases setClient_clients hready with heq | hold
    · cases heq
    · exact h.based id change base expected hold
  rcases applyIfCurrent_effect horderly (commit.change.apply commit.base) expected
    (commit.change.action commit.base) with ⟨hreports, hexpected, v, happlied, hencode⟩ |
    ⟨hreports, happlied⟩
  · rw [hrun] at hreports happlied
    rw [← hstore] at happlied
    have hbase := hbased.intentOf horderly.keyed hexpected
    simp only [hreports, if_true]
    refine ⟨hclients, fun c hc => ?_, fun _ => ⟨horderly', ?_⟩, fun _ hnone => by cases hnone⟩
    · rcases mem_append.mp hc with hold | hnew
      · exact h.log c hold
      obtain rfl := mem_singleton.mp hnew
      rw [hagainst]
      exact hbase
    · exact hserial.commit hcodec hbase happlied hencode
  · rw [hrun] at hreports happlied
    rw [← hstore] at happlied
    simp only [hreports, Bool.false_eq_true, if_false]
    exact ⟨hclients, h.log, fun _ => ⟨horderly', hserial.congr happlied⟩,
      fun _ hnone => by cases hnone⟩

theorem Sound.step (h : Sound a start s) (event : Event) : Sound a start (step a s event).2 := by
  cases event with
  | arrive id edit =>
    simp only [ConfigEdits.step]
    split
    · exact h.setClient fun _ _ _ heq => by cases heq
    · exact h
  | readNewest id =>
    simp only [ConfigEdits.step]
    split
    · exact h.setClient fun _ _ _ heq => absurd heq checkNewest_ne_ready
    · exact h
  | readBase id =>
    simp only [ConfigEdits.step]
    split
    · exact h.setClient fun _ _ _ heq => readBase_based heq
    · exact h
  | acquire id env =>
    simp only [ConfigEdits.step]
    split
    · rename_i hfree hready
      exact h.acquire hfree hready env
    · exact h
  | write =>
    simp only [ConfigEdits.step]
    split
    · rename_i hholder
      exact h.write hholder
    · exact h
  | release =>
    simp only [ConfigEdits.step]
    split
    · rename_i hholder
      exact h.release hcodec hholder
    · exact h

theorem sound_run (horderly : Orderly start) : Sound a start (run a start events) := by
  have hall : ∀ (events : List Event) (s : System), Sound a start s →
      Sound a start (Trace.final (ConfigEdits.step a) s events) := by
    intro events
    induction events with
    | nil => exact fun s h => h
    | cons e rest ih => exact fun s h => ih _ (h.step hcodec e)
  exact hall events _ {
    based := fun _ _ _ _ hready => by cases hready
    log := fun c hc => by cases hc
    free := fun _ => ⟨horderly, serial_start⟩
    held := fun _ hnone => by cases hnone }

end

end sound

/-- However the requests of an uninterrupted applier are interleaved, every edit that is
reported applied was made on the intent of the newest applied version at the time its
commit began, and whenever nobody commits, the applied intent has every such edit that no
later one of the same entry has replaced. -/
theorem no_lost_update (a : Applier)
    (hcodec : ∀ intent json, a.encode intent = .ok json → a.decode json = .ok intent)
    (before : List Attempt) (events : List Event) :
    let s := run a (ConfigVersions.run a before) events
    (∀ c ∈ s.log, intentOf a c.against = .ok c.base) ∧
    (s.holder = none → ∀ pre c post, s.log = pre ++ c :: post →
      (∀ d ∈ post, d.change.key ≠ c.change.key) →
      ∃ intent, intentOf a s.store.latestApplied = .ok intent ∧ c.change.InForce intent) := by
  intro s
  have hsound : Sound a (ConfigVersions.run a before) s := sound_run hcodec (orderly_run a before)
  refine ⟨hsound.log, fun hfree pre c post hlog hkeys => ?_⟩
  have hserial := (hsound.free hfree).2
  obtain ⟨intent, hintent⟩ := hserial.readable (by rw [hlog]; simp)
  obtain ⟨i₀, -, -, rfl⟩ := hserial.current intent hintent
  refine ⟨_, hintent, ?_⟩
  have hsplit : replay i₀ s.log = replay (c.change.apply (replay i₀ pre)) post := by
    rw [hlog, replay_append]
    rfl
  rw [hsplit]
  exact replay_inForce inForce_apply hkeys

/-! ## Two upstreams -/

def backend (addr : String) : Upstream := ⟨[⟨addr, none⟩], none, none, none, none, none⟩

def addFirst : Change := .upstream "first" (some (backend "10.0.0.1:80"))

def addSecond : Change := .upstream "second" (some (backend "10.0.0.2:80"))

def withFirst : Intent := addFirst.apply Intent.empty

def withBoth : Intent := addSecond.apply withFirst

/-- An applier that knows the texts of two intents. -/
def pairApplier : Applier :=
  { proxyApplier with
    encode := fun intent => if intent = withFirst then .ok "first"
      else if intent = withBoth then .ok "both" else .error "unknown"
    decode := fun json => .ok (if json = "first" then withFirst else withBoth) }

theorem decode_encode_pair (intent : Intent) (json : String)
    (h : pairApplier.encode intent = .ok json) : pairApplier.decode json = .ok intent := by
  simp only [pairApplier] at h
  split at h
  · rename_i heq
    cases h
    rw [heq]
    rfl
  · split at h
    · rename_i heq
      cases h
      rw [heq]
      rfl
    · cases h

/-- Two requests read the empty intent. The one that commits second is refused, and
comes again. -/
def twoEdits : List Event :=
  [.arrive 0 (upsert addFirst), .arrive 1 (upsert addSecond), .readNewest 0, .readNewest 1,
    .readBase 0, .readBase 1, .acquire 0 (smooth "v1" 100), .write, .write, .write, .release,
    .acquire 1 (smooth "v2" 200), .release, .arrive 2 (upsert addSecond), .readNewest 2, .readBase 2,
    .acquire 2 (smooth "v3" 300), .write, .write, .write, .write, .release]

theorem no_lost_update_two_edits : ∃ intent,
    intentOf pairApplier (run pairApplier (ConfigVersions.run pairApplier []) twoEdits).store.latestApplied =
      .ok intent ∧ addFirst.InForce intent := by
  have hfree : (run pairApplier (ConfigVersions.run pairApplier []) twoEdits).holder = none :=
    Option.isNone_iff_eq_none.mp (by decide +kernel)
  have hlog : (run pairApplier (ConfigVersions.run pairApplier []) twoEdits).log.map Commit.change =
      [addFirst, addSecond] := by decide +kernel
  obtain ⟨c, post, hlog, hc, hpost⟩ := List.map_eq_cons_iff.mp hlog
  have hkeys : ∀ d ∈ post, d.change.key ≠ c.change.key := by
    intro d hd
    have hsecond : d.change ∈ [addSecond] := hpost ▸ mem_map_of_mem hd
    rw [mem_singleton.mp hsecond, hc]
    decide
  obtain ⟨intent, hintent, hforce⟩ :=
    (no_lost_update pairApplier decode_encode_pair [] twoEdits).2 hfree [] c post hlog hkeys
  exact ⟨intent, hintent, hc ▸ hforce⟩

end ConfigEdits
