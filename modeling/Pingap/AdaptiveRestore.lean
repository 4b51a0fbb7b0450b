import Mathlib.Tactic.NormNum
import Pingap.AdaptiveLearner

/-!
# Restored baselines

A learner takes over the hours of a stored baseline that is not too old. Of an hour with more
samples than are configured it keeps the newest, but the average and the extremes it takes over
are those of all.
-/

namespace AdaptiveRestore

open MachineArith AdaptiveLearner List

structure Baseline where
  profiles : List HourlyProfile
  learnedAtSecs : Nat

/-- The stored hour under another cap, which `validate` has found positive. -/
def recapped (cap : Nat) (p : HourlyProfile) : HourlyProfile :=
  { p with
    samples := p.samples.drop (p.samples.length - cap)
    maxSamples := max 1 cap
    maxSamples_pos := by omega
    bounded := by rw [length_drop]; omega }

def restore (l : Learner) (baseline : Baseline) (nowSecs : Nat) : Bool × Learner :=
  if h : baseline.profiles.length = 24 then
    if min (l.config.maxBaselineAgeDays * 86400) u64Max < nowSecs - baseline.learnedAtSecs then
      (false, l)
    else
      (true, { l with
        profiles := fun hour =>
          recapped l.config.maxSamplesPerHour (baseline.profiles.get (hour.cast h.symm))
        samples := 0
        calibrated := false
        confidenceSq := 0 })
  else (false, l)

inductive Step where
  | record (hour : Fin 24) (rps botRate : ℚ) (disposition : SampleDisposition)
  | restore (baseline : Baseline) (nowSecs : Nat)

def step (l : Learner) : Step → Learner
  | .record hour rps botRate disposition => l.record hour rps botRate disposition
  | .restore baseline nowSecs => (restore l baseline nowSecs).2

/-- The aggregates of an hour are those of its samples, if it has any. -/
def Describes (p : HourlyProfile) : Prop :=
  p.samples ≠ [] → p.avgRps = p.samples.sum / p.samples.length ∧
    p.samples.max? = some p.maxRps ∧ p.samples.min? = some p.minRps

/-- What is kept of an hour: its samples are finite rates, and it describes them. -/
structure Sound (p : HourlyProfile) : Prop where
  range : ∀ x ∈ p.samples, 0 ≤ x ∧ x ≤ f64Max
  describes : Describes p

/-- A recorded rate is finite; of a baseline that is taken over, every hour is sound and fits
under the cap. -/
def Fits (config : AdaptiveConfig) : Step → Prop
  | .record _ rps _ _ => rps ≤ f64Max
  | .restore baseline nowSecs => (restore (Learner.new config) baseline nowSecs).1 = true →
    ∀ p ∈ baseline.profiles, Sound p ∧ p.samples.length ≤ config.maxSamplesPerHour

theorem Sound.record (h : Sound p) (hrps : rps ≤ f64Max) (botRate : ℚ) :
    Sound (p.record rps botRate) := by
  have hrange : ∀ x ∈ p.pushed rps, 0 ≤ x ∧ x ≤ f64Max := by
    intro x hx
    rcases mem_append.mp hx with hx | hx
    · refine h.range x ?_
      split at hx
      · exact mem_of_mem_drop hx
      · exact hx
    · rw [mem_singleton.mp hx]
      exact ⟨le_max_right _ _, max_le hrps (by unfold f64Max; norm_num)⟩
  refine ⟨hrange, fun hsome => ⟨rfl, ?_⟩⟩
  simp only [HourlyProfile.record] at hsome ⊢
  cases hpushed : p.pushed rps with
  | nil => exact absurd hpushed hsome
  | cons x xs =>
    obtain ⟨hpos, hle⟩ := hrange x (by simp [hpushed])
    simp only [max?_cons', min?_cons', foldl_cons, max_eq_right hpos, min_eq_right hle, and_self]

theorem Sound.recapped (h : Sound p) (hlength : p.samples.length ≤ cap) : Sound (recapped cap p) := by
  have hall : (AdaptiveRestore.recapped cap p).samples = p.samples := by
    simp [AdaptiveRestore.recapped, Nat.sub_eq_zero_of_le hlength]
  refine ⟨by rw [hall]; exact h.range, ?_⟩
  unfold Describes
  rw [hall]
  exact h.describes

/-- The hours of a learner are under its cap, and sound. -/
def Kept (config : AdaptiveConfig) (l : Learner) : Prop :=
  l.config = config ∧
    ∀ hour, (l.profiles hour).maxSamples = max config.maxSamplesPerHour 1 ∧ Sound (l.profiles hour)

theorem kept_step (h : Kept config l) (s : Step) (hfits : Fits config s) :
    Kept config (step l s) := by
  obtain ⟨rfl, h⟩ := h
  cases s with
  | record hour rps botRate disposition =>
    simp only [step, Learner.record]
    split
    · exact ⟨rfl, h⟩
    · refine ⟨rfl, fun k => ?_⟩
      by_cases hk : k = hour
      · subst hk
        simpa [Learner.recalibrate] using ⟨(h k).1, (h k).2.record hfits botRate⟩
      · simpa [Learner.recalibrate, hk] using h k
  | restore baseline nowSecs =>
    simp only [step, restore]
    split
    case isFalse => exact ⟨rfl, h⟩
    case isTrue hall =>
      split
      case isTrue => exact ⟨rfl, h⟩
      case isFalse hage =>
        have haccepted : (restore (Learner.new l.config) baseline nowSecs).1 = true := by
          rw [restore, dif_pos hall]
          exact congrArg Prod.fst (if_neg hage)
        refine ⟨rfl, fun hour => ⟨max_comm _ _, ?_⟩⟩
        obtain ⟨hsound, hlength⟩ := hfits haccepted _ (get_mem baseline.profiles _)
        exact hsound.recapped hlength

/-- In a run of finite rates and of baselines that fit or are refused, every hour holds at most as many samples
as are configured, and what it says of them is true of them. -/
theorem aggregates_describe_samples (config : AdaptiveConfig) (hcap : 0 < config.maxSamplesPerHour)
    (steps : List Step) (hfits : ∀ s ∈ steps, Fits config s) (hour : Fin 24) :
    let p := (steps.foldl step (Learner.new config)).profiles hour
    p.samples.length ≤ config.maxSamplesPerHour ∧ Describes p := by
  intro p
  have hstart : Kept config (Learner.new config) :=
    ⟨rfl, fun _ => ⟨rfl, fun _ hx => absurd hx not_mem_nil, fun h => absurd rfl h⟩⟩
  obtain ⟨hwindow, hsound⟩ :=
    (foldlRecOn steps step hstart fun l hl s hs => kept_step hl s (hfits s hs)).2 hour
  refine ⟨?_, hsound.describes⟩
  exact p.bounded.trans (hwindow.trans (Nat.max_eq_left hcap)).le

/-- An hour of one configuration with the rates 10 and 1. -/
def stored : HourlyProfile := ((HourlyProfile.new 2).record 10 0).record 1 0

theorem sound_stored : Sound stored := by
  have hrange : ∀ x ∈ stored.samples, 0 ≤ x ∧ x ≤ f64Max := by decide +kernel
  refine ⟨hrange, ?_⟩
  unfold Describes
  decide +kernel

/-- Stored hours of two samples are taken over under a cap of three, and described with what
is recorded after them; a baseline that is too old is refused. -/
theorem aggregates_describe_samples_restored :
    let p := ([Step.restore ⟨replicate 24 stored, 0⟩ 0, .record 0 7 0 .normal,
      .restore ⟨replicate 24 stored, 0⟩ (2 ^ 40), .record 0 1 0 .normal].foldl step
        (Learner.new { maxSamplesPerHour := 3 })).profiles 0
    p.samples = [1, 7, 1] ∧ p.samples.length ≤ 3 ∧ Describes p := by
  refine ⟨by decide +kernel, aggregates_describe_samples { maxSamplesPerHour := 3 } (by decide) _
    (fun s hs => ?_) 0⟩
  have hfinite : (7 : ℚ) ≤ f64Max ∧ (1 : ℚ) ≤ f64Max := by decide +kernel
  simp only [mem_cons, not_mem_nil, or_false] at hs
  rcases hs with rfl | rfl | rfl | rfl
  · intro _ p hp
    rw [eq_of_mem_replicate hp]
    exact ⟨sound_stored, by decide +kernel⟩
  · exact hfinite.1
  · intro haccepted
    exact absurd haccepted (by decide +kernel)
  · exact hfinite.2

/-- Hours with the rates 10 and 1, restored where one sample is kept. -/
def squeezed : Learner :=
  step (Learner.new { maxSamplesPerHour := 1 })
    (.restore ⟨replicate 24 stored, 0⟩ 0)

theorem squeezed_average :
    (squeezed.profiles 0).samples = [1] ∧ (squeezed.profiles 0).avgRps = 11 / 2 ∧
      ¬ Describes (squeezed.profiles 0) := by
  unfold Describes
  decide +kernel

end AdaptiveRestore
