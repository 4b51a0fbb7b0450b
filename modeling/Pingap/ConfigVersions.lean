import Pingap.ConfigApply
import Pingap.Trace

/-!
# The versions across interruptions

An operation of the applier can be cut after any of its writes. Never are two
versions applied. That one always is, once one has been, holds wherever an
operation is not cut between the write that supersedes the previous version and
the write that applies the new one.
-/

namespace ConfigVersions

open ConfigIntent ConfigReadBack ConfigApply StoreOp List Trace

/-! ## Interrupted operations -/

inductive Operation where
  | apply (intent : Intent) (action : String)
  | applyIfCurrent (intent : Intent) (expected : Option String) (action : String)
  | rollback (versionId : String)
  | settlePending

/-- The writes of an operation that is not interrupted. -/
def Operation.writes (a : Applier) (env : Env) (s : Versions) : Operation → List Write
  | .apply intent action => ((applyLocked a env intent action).run s).writes
  | .applyIfCurrent intent expected action =>
    ((ConfigApply.applyIfCurrent a env intent expected action).run s).writes
  | .rollback versionId => ((ConfigApply.rollback a env versionId).run s).writes
  | .settlePending => ((ConfigApply.settlePending a env).run s).writes

/-- An operation, and after how many writes a crash or a store error ends it. -/
structure Attempt where
  operation : Operation
  env : Env
  cut : Nat

def performed (a : Applier) (s : Versions) (t : Attempt) : List Write :=
  (t.operation.writes a t.env s).take t.cut

def step (a : Applier) (s : Versions) (t : Attempt) : Unit × Versions :=
  ((), after s (performed a s t))

def run (a : Applier) (attempts : List Attempt) : Versions :=
  Trace.final (step a) Versions.empty attempts

def supersedes : Write → Bool
  | .setStatus _ .superseded _ _ => true
  | _ => false

def applies : Write → Bool
  | .setStatus _ .applied _ _ => true
  | _ => false

/-- The interruption comes right after the write that supersedes a version. -/
def CutBetween (a : Applier) (s : Versions) (t : Attempt) : Prop :=
  (performed a s t).getLast?.any supersedes = true

instance (a : Applier) (s : Versions) (t : Attempt) : Decidable (CutBetween a s t) :=
  inferInstanceAs (Decidable (_ = true))

def EverApplied (s : Versions) : Prop := s.journal.any applies = true

instance (s : Versions) : Decidable (EverApplied s) := inferInstanceAs (Decidable (_ = true))

/-- At most one version is applied, and exactly one once any has been. -/
def Consistent (s : Versions) : Prop :=
  s.applied.length ≤ 1 ∧ (EverApplied s → s.applied.length = 1)

instance (s : Versions) : Decidable (Consistent s) := inferInstanceAs (Decidable (_ ∧ _))

/-! ## The invariant -/

/-- What holds whatever is cut: ids are keys, and no two versions are applied. -/
structure Orderly (s : Versions) : Prop where
  keyed : s.Keyed
  one : s.applied.length ≤ 1

theorem script_orderly (hscript : Script a env s ws) :
    ∀ (k : Nat), Orderly s → Orderly (after s (ws.take k)) := by
  induction hscript with
  | done s =>
    intro k h
    rw [take_nil]
    exact h
  | record v hid hstatus _ ih =>
    intro k h
    cases k with
    | zero => exact h
    | succ k =>
      refine ih k ⟨keyed_record h.keyed hid, ?_⟩
      rw [applied_record (by rcases hstatus with hs | hs <;> rw [hs] <;> decide)]
      exact h.one
  | activity row _ ih =>
    intro k h
    cases k with
    | zero => exact h
    | succ k => exact ih k ⟨h.keyed, h.one⟩
  | failed id error hpending _ ih =>
    intro k h
    cases k with
    | zero => exact h
    | succ k =>
      obtain ⟨v, hv, rfl, hwaits⟩ := hpending
      refine ih k ⟨keyed_setStatus h.keyed _ _ _, ?_⟩
      rw [applied_setStatus h.keyed hv (by rw [hwaits]; decide) (by decide)]
      exact h.one
  | @confirmed s ws id previous hpending _ hprev _ ih =>
    intro k h
    obtain ⟨v, hv, rfl, hwaits⟩ := hpending
    have hswap : Orderly (after s (swap v.id previous env.now)) := by
      refine ⟨keyed_swap h.keyed, ?_⟩
      rw [applied_swap h.keyed hv hwaits hprev]
      exact Nat.le_refl _
    cases k with
    | zero => exact h
    | succ k =>
      cases previous with
      | none => exact ih k hswap
      | some prev =>
        cases k with
        | zero =>
          refine ⟨keyed_setStatus h.keyed .superseded none env.now, ?_⟩
          have hnone := applied_superseded hprev none env.now
          exact (congrArg length hnone).trans_le (Nat.zero_le 1)
        | succ k => exact ih k hswap

theorem operation_script (h : Orderly s) (operation : Operation) :
    Script a env s (operation.writes a env s) := by
  cases operation with
  | apply intent action => exact applyLocked_script h.one intent action
  | applyIfCurrent intent expected action =>
    exact applyIfCurrent_script h.one intent expected action
  | rollback versionId => exact rollback_script h.one versionId
  | settlePending => exact settlePending_script h.keyed h.one

theorem orderly_run (a : Applier) (attempts : List Attempt) : Orderly (run a attempts) := by
  have hall : ∀ (attempts : List Attempt) (s : Versions), Orderly s →
      Orderly (final (step a) s attempts) := by
    intro attempts
    induction attempts with
    | nil => exact fun s h => h
    | cons t rest ih =>
      exact fun s h => ih _ (script_orderly (operation_script h t.operation) t.cut h)
  exact hall attempts Versions.empty ⟨nodup_nil, Nat.zero_le 1⟩

/-- Between operations that were not cut short. -/
structure Steady (s : Versions) : Prop where
  keyed : s.Keyed
  consistent : Consistent s
  marked : s.applied ≠ [] → EverApplied s

theorem everApplied_put (w : Write) (h : EverApplied s) : EverApplied (s.put w) := by
  have hjournal : (s.put w).journal = s.journal ++ [w] := by cases w <;> rfl
  rw [EverApplied, hjournal, any_append, Bool.or_eq_true_iff]
  exact .inl h

theorem everApplied_put_iff (hw : applies w = false) : EverApplied (s.put w) ↔ EverApplied s := by
  have hjournal : (s.put w).journal = s.journal ++ [w] := by cases w <;> rfl
  rw [EverApplied, hjournal, any_append, any_cons, any_nil, hw, Bool.or_false, Bool.or_false]
  rfl

theorem everApplied_applied {s : Versions} {id : String} {error : Option String} {now : Int} :
    EverApplied (s.put (.setStatus id .applied error now)) := by
  rw [EverApplied, Versions.put, any_append, Bool.or_eq_true_iff]
  exact .inr rfl

theorem Steady.put (h : Steady s) (hkeyed : (s.put w).Keyed)
    (happlied : (s.put w).applied = s.applied) (hw : applies w = false) : Steady (s.put w) := by
  have hever := everApplied_put_iff (s := s) hw
  refine ⟨hkeyed, ⟨by rw [happlied]; exact h.consistent.1, fun hev => ?_⟩, fun hne => ?_⟩
  · rw [happlied]
    exact h.consistent.2 (hever.mp hev)
  · rw [happlied] at hne
    exact hever.mpr (h.marked hne)

theorem Steady.swap (h : Steady s) {id : String} (hpending : Pending s id)
    (hprev : s.applied = previous.toList) (now : Int) :
    Steady (after s (swap id previous now)) := by
  obtain ⟨v, hv, rfl, hwaits⟩ := hpending
  have happlied := applied_swap h.keyed hv hwaits hprev now
  have hever : EverApplied (after s (ConfigApply.swap v.id previous now)) := by
    rw [ConfigApply.swap, after_append]
    exact everApplied_applied
  refine ⟨keyed_swap h.keyed, ⟨?_, fun _ => ?_⟩, fun _ => hever⟩
  · rw [happlied]
    exact Nat.le_refl _
  · rw [happlied]
    rfl

theorem Steady.record (h : Steady s) (hid : s.find v.id = none)
    (hstatus : v.status = .pending ∨ v.status = .failed) : Steady (s.put (.record v)) := by
  refine h.put (keyed_record h.keyed hid) (applied_record ?_) rfl
  rcases hstatus with hstatus | hstatus
  · rw [hstatus]; decide
  · rw [hstatus]; decide

theorem Steady.failed (h : Steady s) {id : String} (hpending : Pending s id) (error : Option String)
    (now : Int) : Steady (s.put (.setStatus id .failed error now)) := by
  obtain ⟨v, hv, rfl, hwaits⟩ := hpending
  exact h.put (keyed_setStatus h.keyed _ _ _)
    (applied_setStatus h.keyed hv (by rw [hwaits]; decide) (by decide) _ _) rfl

/-- What holds after a part of a script: between the two writes of a swap none is
applied, and everywhere else all is well. -/
structure Cut (s : Versions) (done : List Write) : Prop where
  between : done.getLast?.any supersedes = true →
    (after s done).applied = [] ∧ EverApplied (after s done)
  steady : ¬ done.getLast?.any supersedes = true → Steady (after s done)

theorem cut_nil (h : Steady s) : Cut s [] := ⟨(fun hlast => by cases hlast), fun _ => h⟩

theorem last_cons (hw : supersedes w = false) (done : List Write) :
    (w :: done).getLast?.any supersedes = done.getLast?.any supersedes := by
  cases done with
  | nil => simp [hw]
  | cons w' rest => rw [getLast?_cons_cons]

theorem cut_cons (hw : supersedes w = false) (h : Cut (s.put w) done) : Cut s (w :: done) := by
  refine ⟨fun hlast => ?_, fun hlast => ?_⟩
  · rw [last_cons hw] at hlast
    exact h.between hlast
  · rw [last_cons hw] at hlast
    exact h.steady hlast

theorem cut_cons_cons (hw : supersedes w' = false) (h : Cut ((s.put w).put w') done) :
    Cut s (w :: w' :: done) := by
  have hsecond := cut_cons hw h
  refine ⟨fun hlast => ?_, fun hlast => ?_⟩
  · rw [getLast?_cons_cons] at hlast
    exact hsecond.between hlast
  · rw [getLast?_cons_cons] at hlast
    exact hsecond.steady hlast

theorem script_cut (hscript : Script a env s ws) : ∀ (k : Nat), Steady s → Cut s (ws.take k) := by
  induction hscript with
  | done s =>
    intro k h
    rw [take_nil]
    exact cut_nil h
  | record v hid hstatus _ ih =>
    intro k h
    cases k with
    | zero => exact cut_nil h
    | succ k => exact cut_cons rfl (ih k (h.record hid hstatus))
  | activity row _ ih =>
    intro k h
    cases k with
    | zero => exact cut_nil h
    | succ k => exact cut_cons rfl (ih k (h.put h.keyed rfl rfl))
  | failed id error hpending _ ih =>
    intro k h
    cases k with
    | zero => exact cut_nil h
    | succ k => exact cut_cons rfl (ih k (h.failed hpending error _))
  | @confirmed s ws id previous hpending _ hprev _ ih =>
    intro k h
    have hswap := h.swap hpending hprev env.now
    cases k with
    | zero => exact cut_nil h
    | succ k =>
      cases previous with
      | none => exact cut_cons rfl (ih k hswap)
      | some prev =>
        cases k with
        | zero =>
          -- The cut that the swap does not survive.
          have hever : EverApplied s := h.marked (by rw [hprev]; exact cons_ne_nil _ _)
          exact ⟨fun _ => ⟨applied_superseded hprev none env.now,
            everApplied_put (.setStatus prev.id .superseded none env.now) hever⟩,
            fun hlast => absurd rfl hlast⟩
        | succ k => exact cut_cons_cons rfl (ih k hswap)

theorem attempt_cut (h : Steady s) (t : Attempt) : Cut s (performed a s t) :=
  script_cut (operation_script ⟨h.keyed, h.consistent.1⟩ t.operation) t.cut h

theorem steady_step (h : Steady s) (hcut : ¬ CutBetween a s t) :
    Steady (step a s t).2 := (attempt_cut h t).steady hcut

theorem steady_empty : Steady Versions.empty :=
  ⟨nodup_nil, ⟨Nat.zero_le _, fun h => by cases h⟩, fun h => absurd rfl h⟩

theorem steady_run (h : Steady s)
    (hcuts : Always (fun s t => ¬ CutBetween a s t) (step a) s attempts) :
    Steady (final (step a) s attempts) :=
  final_always _ _ Steady (fun _ _ h hcut => steady_step h hcut) attempts s h hcuts

/-- After operations none of which was cut between superseding the previous version
and applying the new one, a further operation leaves the versions consistent
exactly when it is not cut there either. -/
theorem versions_consistent_iff (a : Applier) (attempts : List Attempt) (t : Attempt)
    (hcuts : Trace.Always (fun s t => ¬ CutBetween a s t) (step a) Versions.empty attempts) :
    Consistent (run a (attempts ++ [t])) ↔ ¬ CutBetween a (run a attempts) t := by
  have hbefore : Steady (run a attempts) := steady_run steady_empty hcuts
  have hlast : run a (attempts ++ [t]) = (step a (run a attempts) t).2 :=
    final_append (step a) Versions.empty attempts [t]
  rw [hlast]
  constructor
  · rintro ⟨-, hone⟩ hcut
    obtain ⟨hnone, hever⟩ := (attempt_cut hbefore t).between hcut
    have hlength : (after (run a attempts) (performed a (run a attempts) t)).applied.length = 1 :=
      hone hever
    rw [hnone] at hlength
    cases hlength
  · exact fun hcut => (steady_step hbefore hcut).consistent

/-- While a version is pending, an edit is refused, and nothing written, exactly if the newest
version is a pending one or another version is applied than the edit expects. -/
theorem edit_refused_iff (a : Applier) (attempts : List Attempt) (env : Env) (intent : Intent)
    (expected : Option String) (action id : String) :
    (Pending (run a attempts) id → ∃ e, e.refusal = true ∧
      (applyIfCurrent a env intent expected action).run (run a attempts) = ⟨[], .error e⟩) ↔
    (Pending (run a attempts) id → (run a attempts).NewestPending ∨
      (run a attempts).latestApplied.map (·.id) ≠ expected) := by
  refine imp_congr_right fun _ => ?_
  rcases applyIfCurrent_cases a env intent expected action (run a attempts) with
    ⟨e, he, hwhy, hrun⟩ | ⟨hnewest, hbase, hrun⟩
  · exact iff_of_true ⟨e, he, hrun⟩ hwhy
  refine iff_of_false ?_ (not_or.mpr ⟨hnewest, fun hne => hne hbase⟩)
  rintro ⟨e, he, herror⟩
  -- What is not refused is applied, and an apply that writes nothing fails in another way.
  rw [hrun] at herror
  rcases applyLocked_cases a env intent action (run a attempts) with ⟨e', he', happly⟩ |
    ⟨_, _, -, -, happly⟩ | ⟨_, _, _, -, -, -, -, -, happly⟩
  · rw [happly] at herror
    cases herror
    rw [he] at he'
    cases he'
  all_goals
    rw [happly] at herror
    cases herror

/-! ## A small gateway -/

/-- Sizes in plain bytes, and a text that names the sections of a document. -/
def plainFormats : Formats where
  parseSize text := ((Text.parseU64 text.toList).map Except.ok).getD (.error "not a size")
  displaySize n := toString n
  printToml t := .ok (",".intercalate (t.map Prod.fst))
  parseToml _ := none

def plainHashes : Hashes where
  crc32 text := text.length
  displayValue _ := ""
  locationHash _ := 0
  debugList names := ",".intercalate names

/-- An applier for intents that only name trusted proxies, one at most. -/
def proxyApplier : Applier where
  formats := plainFormats
  hashes := plainHashes
  sha256 text := text
  encode intent := .ok (((intent.trustedProxies.getD []).head?).getD "none")
  decode json := .ok (if json = "none" then Intent.empty
    else { Intent.empty with trustedProxies := some [json] })
  windowSecs := 5
  windowNanos := 0

def trusting (proxy : String) : Intent := { Intent.empty with trustedProxies := some [proxy] }

def smooth (newId : String) (now : Int) : Env where
  newId := newId
  now := now
  actor := ⟨none, "admin"⟩
  validate _ := .ok .accepted
  commit _ := .ok ()
  restore _ _ := .ok ()
  readBack _ := ⟨fun _ => none, fun _ => none, fun _ => none⟩
  readBackRestored _ := ⟨fun _ => none, fun _ => none, fun _ => none⟩

def firstApply : Attempt := ⟨.apply (trusting "10.0.0.1") "settings.update", smooth "v1" 100, 9⟩

/-- A second apply, which a crash ends after so many writes. -/
def secondApply (cut : Nat) : Attempt :=
  ⟨.apply (trusting "10.0.0.2") "settings.update", smooth "v2" 200, cut⟩

theorem versions_consistent_iff_second_apply :
    Consistent (run proxyApplier ([firstApply] ++ [secondApply 9])) ∧
      Consistent (run proxyApplier ([firstApply] ++ [secondApply 2])) := by
  have hcuts : Always (fun s t => ¬ CutBetween proxyApplier s t) (step proxyApplier)
      Versions.empty [firstApply] := by decide +kernel
  exact ⟨(versions_consistent_iff proxyApplier [firstApply] (secondApply 9) hcuts).mpr
      (by decide +kernel),
    (versions_consistent_iff proxyApplier [firstApply] (secondApply 2) hcuts).mpr
      (by decide +kernel)⟩

/-- A crash after the third of the four writes: a version has been applied, and now
none is. -/
theorem no_applied_version_after_crash :
    EverApplied (run proxyApplier [firstApply, secondApply 3]) ∧
      (run proxyApplier [firstApply, secondApply 3]).applied = [] ∧
      ¬ Consistent (run proxyApplier [firstApply, secondApply 3]) := by
  decide +kernel

/-- A crash leaves the second version pending, a rollback fails validation, and the next edit
is applied. -/
theorem edit_passes_pending_version :
    let s := run proxyApplier [firstApply, secondApply 1, ⟨.rollback "v1",
      { smooth "v3" 300 with validate := fun _ => .ok (.rejected "port in use") }, 9⟩]
    let s' := after s ((applyIfCurrent proxyApplier (smooth "v4" 400) (trusting "10.0.0.4")
      (some "v1") "settings.update").run s).writes
    (∃ v ∈ s.versions, v.id = "v2" ∧ v.status = .pending) ∧
      s'.versions.map (fun v => (v.id, v.status)) = [("v1", .superseded), ("v2", .pending),
        ("v3", .failed), ("v4", .applied)] := by
  decide +kernel

end ConfigVersions
