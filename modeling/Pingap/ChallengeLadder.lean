import Pingap.ChallengeTier

/-!
# The escalation ladder

The tier of one client against the number of its failures in a row. A solve lowers the tier
and leaves the failures counted, so the two agree as long as no solve finds any.
-/

namespace ChallengeTier

open MachineArith ChallengeToken List

def Escalator.getAt (e : Escalator) (domain identity : String) (decay : Duration) (now : Time) :
    EscalationState × Escalator :=
  match e.inner.lookup (domain, identity) with
  | none => (.default, e)
  | some state =>
    let state := decayStateAt state decay now
    (state, { e with inner := e.inner.insert (domain, identity) state })

/-! ## Failures in a row -/

/-- What happens to a client, with the readings of the clock. -/
inductive Act where
  | failure (now now' : Time)
  | success (now now' : Time)
  | get (now : Time)
deriving DecidableEq, Repr

/-- The failures since the last solve or idle time, and when the client was last judged. -/
structure Streak where
  failures : Nat
  last : Option Time

namespace Streak

/-- The failures that an idle time has not ended. -/
def live (k : Streak) (decay : Duration) (now : Time) : Nat :=
  if k.last.any fun last => decide (decay ≤ now - last) then 0 else k.failures

def step (decay : Duration) (k : Streak) : Act → Streak
  | .failure now now' => ⟨k.live decay now + 1, some now'⟩
  | .success _ now' => ⟨0, some now'⟩
  | .get now => ⟨k.live decay now, k.last⟩

theorem live_of_none {k : Streak} (h : k.failures = 0) (decay : Duration) (now : Time) :
    k.live decay now = 0 := by
  unfold live
  split
  · rfl
  · exact h

end Streak

/-- The thresholds that a number of failures in a row reaches, less one. -/
def tierOf (ladder : List Nat) (failures : Nat) : Nat :=
  if failures = 0 then 0 else (ladder.filter (· ≤ failures)).length - 1

theorem tierOf_mono {m n : Nat} (h : m ≤ n) : tierOf ladder m ≤ tierOf ladder n := by
  unfold tierOf
  split
  · exact Nat.zero_le _
  rw [if_neg (by omega)]
  refine Nat.sub_le_sub_right (Sublist.length_le ?_) 1
  refine monotone_filter_right ladder fun t ht => ?_
  exact decide_eq_true (Nat.le_trans (of_decide_eq_true ht) h)

theorem tierOf_le (n : Nat) : tierOf ladder n ≤ ladder.length - 1 := by
  unfold tierOf
  split
  · exact Nat.zero_le _
  · exact Nat.sub_le_sub_right (length_filter_le _ _) 1

/-- On a ladder in order, the last rung reached is told by the number of rungs reached. -/
theorem rung_eq (hsorted : ladder.Pairwise (· ≤ ·)) (hlength : ladder.length ≤ 256) (n : Nat) :
    rung ladder n = (ladder.filter (· ≤ n)).length - 1 := by
  induction ladder using reverseRecOn with
  | nil => rfl
  | append_singleton rungs top ih =>
    obtain ⟨hrungs, -, hbelow⟩ := pairwise_append.mp hsorted
    rw [length_append, length_singleton] at hlength
    unfold rung
    rw [zipIdx_append, reverse_append, filter_append]
    by_cases htop : top ≤ n
    · have hall := List.filter_eq_self.mpr fun t ht =>
        decide_eq_true (Nat.le_trans (hbelow t ht top (mem_singleton.mpr rfl)) htop)
      simp [htop, hall]
      omega
    · have hrest := ih hrungs (by omega)
      unfold rung at hrest
      simpa [htop] using hrest

/-! ## One client -/

/-- A client, and a ladder and a decay that pass validation. -/
structure Setting where
  domain : String
  identity : String
  ladder : List Nat
  decay : Duration
  sorted : ladder.Pairwise (· ≤ ·)
  octets : ∀ t ∈ ladder, t ≤ 255
  decay_pos : 0 < decay

namespace Setting

variable (s : Setting)

def step (e : Escalator) : Act → EscalationState × Escalator
  | .failure now now' => e.failure s.domain s.identity s.ladder s.decay now now'
  | .success now now' => e.success s.domain s.identity s.decay now now'
  | .get now => e.getAt s.domain s.identity s.decay now

def run (e : Escalator) (acts : List Act) : Escalator := acts.foldl (fun e act => (s.step e act).2) e

/-- The tiers a client is told. -/
def reports (e : Escalator) : List Act → List Nat
  | [] => []
  | act :: acts => (s.step e act).1.level :: reports (s.step e act).2 acts

/-- The tiers of its failures in a row. -/
def tiers (k : Streak) : List Act → List Nat
  | [] => []
  | act :: acts => tierOf s.ladder (k.step s.decay act).failures :: tiers (k.step s.decay act) acts

/-- A solve finds no failures counted, or only such that an idle time ends. -/
def Quiet (e : Escalator) : Act → Prop
  | .success now _ => ∀ state, e.inner.lookup (s.domain, s.identity) = some state →
    (decayStateAt state s.decay now).failures = 0
  | .failure _ _ | .get _ => True

def AllQuiet (e : Escalator) : List Act → Prop
  | [] => True
  | act :: acts => s.Quiet e act ∧ AllQuiet (s.step e act).2 acts

/-- A state counts the failures in a row, up to the largest number it can hold. -/
structure Agrees (state : EscalationState) (k : Streak) : Prop where
  failures : state.failures = min k.failures u32Max
  level : state.level = tierOf s.ladder k.failures
  last : state.last = k.last

structure Tracks (e : Escalator) (k : Streak) : Prop where
  room : e.full (s.domain, s.identity) = false
  unknown : e.inner.lookup (s.domain, s.identity) = none → k.failures = 0
  known : ∀ state, e.inner.lookup (s.domain, s.identity) = some state → s.Agrees state k

variable {s}

theorem Agrees.decay (h : s.Agrees state k) (now : Time) :
    s.Agrees (decayStateAt state s.decay now) ⟨k.live s.decay now, k.last⟩ := by
  unfold decayStateAt Streak.live
  rw [h.last]
  split
  · exact ⟨rfl, rfl, rfl⟩
  · exact ⟨h.failures, h.level, h.last⟩

theorem Agrees.tracks (h : s.Agrees state k) (e : Escalator) :
    s.Tracks { e with inner := e.inner.insert (s.domain, s.identity) state } k := by
  have hfound : (e.inner.insert (s.domain, s.identity) state).lookup (s.domain, s.identity) =
      some state := AList.lookup_insert _
  refine ⟨?_, ?_, ?_⟩
  · simp [Escalator.full, hfound]
  · intro hnone
    rw [hfound] at hnone
    cases hnone
  · intro other hother
    rw [hfound] at hother
    exact Option.some.inj hother ▸ h

/-- A client that is not known is judged as one without failures. -/
theorem Tracks.current (h : s.Tracks e k) (now : Time) :
    (decayStateAt ((e.inner.lookup (s.domain, s.identity)).getD .default) s.decay now).failures =
      min (k.live s.decay now) u32Max := by
  cases hlookup : e.inner.lookup (s.domain, s.identity) with
  | none =>
    rw [Streak.live_of_none (h.unknown hlookup)]
    rfl
  | some state => exact ((h.known state hlookup).decay now).failures

theorem level_failure (s : Setting) (hlength : s.ladder.length ≤ 256) (n : Nat) :
    rung s.ladder (min (n + 1) u32Max) = tierOf s.ladder (n + 1) := by
  rw [rung_eq s.sorted hlength, tierOf, if_neg (Nat.succ_ne_zero n)]
  have hreach : s.ladder.filter (· ≤ min (n + 1) u32Max) = s.ladder.filter (· ≤ n + 1) := by
    refine filter_congr fun t ht => ?_
    have hoctet := s.octets t ht
    have hmax : 255 ≤ u32Max := by decide
    exact decide_eq_decide.mpr (by omega)
  rw [hreach]

theorem Tracks.step (hlength : s.ladder.length ≤ 256) (h : s.Tracks e k) (hquiet : s.Quiet e act) :
    s.Tracks (s.step e act).2 (k.step s.decay act) ∧
      (s.step e act).1.level = tierOf s.ladder (k.step s.decay act).failures := by
  cases act with
  | failure now now' =>
    have hfailures := h.current now
    simp only [Setting.step, Escalator.failure, h.room, Bool.false_eq_true, if_false, Streak.step]
    have hcount : satAdd32 (decayStateAt ((e.inner.lookup (s.domain, s.identity)).getD .default)
        s.decay now).failures 1 = min (k.live s.decay now + 1) u32Max := by
      rw [hfailures, satAdd32]
      omega
    rw [hcount]
    have hlevel := level_failure s hlength (k.live s.decay now)
    exact ⟨Agrees.tracks ⟨rfl, hlevel, rfl⟩ e, hlevel⟩
  | success now now' =>
    unfold Setting.step Escalator.success
    cases hlookup : e.inner.lookup (s.domain, s.identity) with
    | none =>
      refine ⟨⟨h.room, fun _ => rfl, fun state hstate => ?_⟩, rfl⟩
      rw [hlookup] at hstate
      cases hstate
    | some state =>
      have hagrees := (h.known state hlookup).decay now
      have hzero := hquiet state hlookup
      have hlive : k.live s.decay now = 0 := by
        have hmin := hagrees.failures.symm.trans hzero
        have hmax : 0 < u32Max := by decide
        dsimp only at hmin
        omega
      have hlevel : (decayStateAt state s.decay now).level - 1 = 0 := by
        rw [hagrees.level, hlive]
        rfl
      exact ⟨Agrees.tracks ⟨hzero, hlevel, rfl⟩ e, hlevel⟩
  | get now =>
    unfold Setting.step Escalator.getAt
    cases hlookup : e.inner.lookup (s.domain, s.identity) with
    | none =>
      have hlive := Streak.live_of_none (h.unknown hlookup) s.decay now
      refine ⟨⟨h.room, fun _ => hlive, fun state hstate => ?_⟩, ?_⟩
      · rw [hlookup] at hstate
        cases hstate
      · rw [Streak.step, hlive]
        rfl
    | some state =>
      have hagrees := (h.known state hlookup).decay now
      exact ⟨hagrees.tracks e, hagrees.level⟩

/-! ## Runs -/

theorem Tracks.reports (hlength : s.ladder.length ≤ 256) (h : s.Tracks e k)
    (hquiet : s.AllQuiet e acts) : s.reports e acts = s.tiers k acts := by
  induction acts generalizing e k with
  | nil => rfl
  | cons act acts ih =>
    obtain ⟨hnext, hlevel⟩ := h.step hlength hquiet.1
    rw [Setting.reports, Setting.tiers, hlevel, ih hnext hquiet.2]

theorem Tracks.run (hlength : s.ladder.length ≤ 256) (h : s.Tracks e k)
    (hquiet : s.AllQuiet e (acts ++ rest)) :
    s.Tracks (s.run e acts) (acts.foldl (Streak.step s.decay) k) ∧
      s.AllQuiet (s.run e acts) rest := by
  induction acts generalizing e k with
  | nil => exact ⟨h, hquiet⟩
  | cons act acts ih => exact ih (h.step hlength hquiet.1).1 hquiet.2

/-- When no solve finds failures counted, a client that is new to an escalator with room for it is
told the tier of its failures in a row at every step; the tier grows with them, ends with the
ladder, and is at most one higher after a solve and one more failure. -/
theorem tier_of_failures_in_a_row (s : Setting) (e : Escalator) {acts : List Act}
    (hroom : e.full (s.domain, s.identity) = false)
    (hnew : e.inner.lookup (s.domain, s.identity) = none)
    (hlength : s.ladder.length ≤ 256) (hlow : (s.ladder.filter (· ≤ 1)).length ≤ 2)
    (hquiet : s.AllQuiet e acts) :
    s.reports e acts = s.tiers ⟨0, none⟩ acts ∧
      (∀ m n, m ≤ n → tierOf s.ladder m ≤ tierOf s.ladder n) ∧
      (∀ n, tierOf s.ladder n ≤ s.ladder.length - 1) ∧
      ∀ before solvedAt solvedAt' failedAt failedAt' after,
        acts = before ++ .success solvedAt solvedAt' :: .failure failedAt failedAt' :: after →
        let solved := s.step (s.run e before) (.success solvedAt solvedAt')
        (s.step solved.2 (.failure failedAt failedAt')).1.level ≤ solved.1.level + 1 := by
  have hstart : s.Tracks e ⟨0, none⟩ :=
    ⟨hroom, fun _ => rfl, fun state h => by cases hnew.symm.trans h⟩
  refine ⟨hstart.reports hlength hquiet, fun m n => tierOf_mono, tierOf_le, ?_⟩
  intro before solvedAt solvedAt' failedAt failedAt' after hacts solved
  rw [hacts] at hquiet
  obtain ⟨hbefore, hsolve, hfail, -⟩ := hstart.run hlength hquiet
  have hsolved := (hbefore.step hlength hsolve).1
  have hlevel := (hsolved.step hlength hfail).2
  -- The solve ended the row, so that the failure is the first of the next.
  have hfirst : tierOf s.ladder 1 ≤ 1 := Nat.sub_le_sub_right hlow 1
  refine Nat.le_trans (Nat.le_of_eq hlevel) (Nat.le_trans ?_ (Nat.le_add_left 1 _))
  rw [Streak.step, Streak.live_of_none rfl]
  exact hfirst

end Setting

/-- The defaults. -/
def defaultSetting : Setting where
  domain := "b.test"
  identity := "203.0.113.2"
  ladder := [2, 4, 8]
  decay := 900000000000
  sorted := by decide
  octets := by decide
  decay_pos := by decide

def fourFailures : List Act := [.failure 1 1, .failure 2 2, .failure 3 3, .failure 4 4]

/-- Four failures, a quarter of an hour, and a solve. -/
theorem tier_of_failures_in_a_row_idle :
    defaultSetting.reports (Escalator.new 8)
        (fourFailures ++ [.success 900000000004 900000000004]) = [0, 0, 0, 1, 0] := by
  have hquiet : defaultSetting.AllQuiet (Escalator.new 8)
      (fourFailures ++ [.success 900000000004 900000000004]) := by
    refine ⟨trivial, trivial, trivial, trivial, fun state hstate => ?_, trivial⟩
    have hfour : (defaultSetting.run (Escalator.new 8) fourFailures).inner.lookup
        ("b.test", "203.0.113.2") = some ⟨4, 0, 1, some 4⟩ := by decide +kernel
    rw [← Option.some.inj (hfour.symm.trans hstate)]
    decide
  exact (defaultSetting.tier_of_failures_in_a_row _ rfl rfl (by decide) (by decide) hquiet).1

/-- Three failures, a solve, and a single failure after it: that one failure is told the tier of
four. -/
theorem solve_keeps_failures :
    defaultSetting.reports (Escalator.new 8)
        [.failure 1 1, .failure 2 2, .failure 3 3, .success 4 4, .failure 5 5] =
        [0, 0, 0, 0, 1] ∧
      defaultSetting.tiers ⟨0, none⟩
        [.failure 1 1, .failure 2 2, .failure 3 3, .success 4 4, .failure 5 5] =
        [0, 0, 0, 0, 0] := by
  decide +kernel

end ChallengeTier
