import Mathlib.Algebra.BigOperators.Group.List.Basic
import Mathlib.Algebra.Order.Field.Rat
import Pingap.MachineArith

/-!
# The learner of hourly baselines

What the adaptive plugin keeps of one domain: a windowed rate of its requests, the
samples of the last requests of each hour, and whether they suffice to decide by.
Numbers are exact. Two square roots of the source are kept as the numbers under
them: the deviation of an hour and the confidence.
-/

namespace AdaptiveLearner

open MachineArith

/-! ## Configuration -/

structure AdaptiveConfig where
  enabled : Bool := false
  maxSamplesPerHour : Nat := 240
  minDaysToCalibrate : Nat := 7
  minConfidence : ℚ := 6 / 10
  ratioMinor : ℚ := 2
  ratioModerate : ℚ := 3
  ratioSignificant : ℚ := 5
  ratioMajor : ℚ := 10
  ratioExtreme : ℚ := 20
  factorMinor : ℚ := 9 / 10
  factorModerate : ℚ := 75 / 100
  factorSignificant : ℚ := 5 / 10
  factorMajor : ℚ := 25 / 100
  factorExtreme : ℚ := 1 / 10
  minFactor : ℚ := 1 / 10
  allowLoosening : Bool := false
  modulateRateLimit : Bool := true
  persist : Bool := true
  maxBaselineAgeDays : Nat := 14
  sampleWindow : Duration := 3600000000000
  clientIpFromPeer : Bool := false
deriving DecidableEq

/-! ## Decisions -/

structure Decision where
  ratio : ℚ
  challengeLevel : Nat
  rateLimitFactor : ℚ
  reason : String
  calibrated : Bool
deriving DecidableEq

def Decision.normal : Decision := ⟨1, 0, 1, "not_calibrated", false⟩

def clamp (x low high : ℚ) : ℚ := max low (min x high)

/-- The ladder of ratios, the steepest step first. -/
def ladder (config : AdaptiveConfig) (ratio : ℚ) : Nat × ℚ × String :=
  if config.ratioExtreme ≤ ratio then (2, config.factorExtreme, "ratio_extreme")
  else if config.ratioMajor ≤ ratio then (2, config.factorMajor, "ratio_major")
  else if config.ratioSignificant ≤ ratio then (1, config.factorSignificant, "ratio_significant")
  else if config.ratioModerate ≤ ratio then (1, config.factorModerate, "ratio_moderate")
  else if config.ratioMinor ≤ ratio then (0, config.factorMinor, "ratio_minor")
  else if ratio < 3 / 10 ∧ config.allowLoosening = true then (0, 2, "ratio_low_loosening")
  else (0, 1, "ratio_normal")

def Decision.decide (config : AdaptiveConfig) (expected current botRate : ℚ) : Decision :=
  if expected ≤ 0 then Decision.normal
  else
    let adjusted := max (expected * (1 - clamp botRate 0 1 * (1 / 2))) (1 / 1000)
    let ratio := max current 0 / adjusted
    let (level, factor, reason) := ladder config ratio
    ⟨ratio, level, factor, reason, true⟩

/-- `clamp_factor`; the smallest positive number of the source keeps the division defined. -/
def clampFactor (configured factor minFactor : ℚ) (allowLoosening : Bool) : ℚ :=
  let lower := configured * clamp minFactor (1 / 100) 1
  let upper := if allowLoosening then configured * max factor 1 else configured
  clamp (configured * factor) lower upper / max configured (1 / 2 ^ 1022)

/-! ## One hour -/

def f64Max : ℚ := (2 ^ 53 - 1) * 2 ^ 971

/-- The samples of one hour, newest last, and what is derived from them. -/
structure HourlyProfile where
  samples : List ℚ
  avgRps : ℚ
  maxRps : ℚ
  minRps : ℚ
  variance : ℚ
  avgBotRate : ℚ
  maxSamples : Nat
  maxSamples_pos : 0 < maxSamples
  bounded : samples.length ≤ maxSamples

namespace HourlyProfile

def new (maxSamples : Nat) : HourlyProfile where
  samples := []
  avgRps := 0
  maxRps := 0
  minRps := f64Max
  variance := 0
  avgBotRate := 0
  maxSamples := max maxSamples 1
  maxSamples_pos := by omega
  bounded := Nat.zero_le _

/-- A full window loses its oldest sample to the new one. -/
def pushed (p : HourlyProfile) (rps : ℚ) : List ℚ :=
  (if p.samples.length = p.maxSamples then p.samples.drop 1 else p.samples) ++ [max rps 0]

theorem length_pushed (p : HourlyProfile) :
    (p.pushed rps).length = min (p.samples.length + 1) p.maxSamples := by
  have hbounded := p.bounded
  have hpos := p.maxSamples_pos
  rw [pushed, List.length_append, List.length_singleton]
  split
  · rw [List.length_drop]
    omega
  · omega

def record (p : HourlyProfile) (rps botRate : ℚ) : HourlyProfile :=
  let samples := p.pushed rps
  let n : ℚ := samples.length
  let avg := samples.sum / n
  { samples := samples
    avgRps := avg
    maxRps := samples.foldl max 0
    minRps := samples.foldl min f64Max
    variance := (samples.map fun value => (value - avg) ^ 2).sum / n
    avgBotRate := (p.avgBotRate * (n - 1) + clamp botRate 0 1) / n
    maxSamples := p.maxSamples
    maxSamples_pos := p.maxSamples_pos
    bounded := by
      rw [length_pushed]
      exact Nat.min_le_right _ _ }

end HourlyProfile

/-! ## The rate -/

structure RateWindow where
  spanSecs : Nat
  startSecs : Nat
  count : Nat
  lastRate : ℚ
  spanSecs_pos : 0 < spanSecs
deriving DecidableEq

namespace RateWindow

def new (spanSecs : Nat) : RateWindow := ⟨max spanSecs 1, 0, 0, 0, by omega⟩

/-- Count one request; the window afterwards, and the rate it reads. -/
def observe (w : RateWindow) (nowSecs : Nat) : RateWindow × ℚ :=
  let w := if w.startSecs = 0 then { w with startSecs := nowSecs } else w
  let w := { w with count := satAdd64 w.count 1 }
  let elapsed := nowSecs - w.startSecs
  if elapsed < w.spanSecs then (w, max (w.count / (max elapsed 1 : Nat)) w.lastRate)
  else
    let rate : ℚ := w.count / elapsed
    ({ w with lastRate := rate, count := 0, startSecs := nowSecs }, rate)

section observe

variable {w : RateWindow} {t : Nat}

theorem observe_of_unstarted (h : w.startSecs = 0) :
    w.observe t = ({ w with startSecs := t, count := satAdd64 w.count 1 },
      max (satAdd64 w.count 1 : ℚ) w.lastRate) := by
  have hspan := w.spanSecs_pos
  simp [observe, h, hspan]

theorem observe_of_closed (hstart : w.startSecs ≠ 0) (h : w.startSecs + w.spanSecs ≤ t) :
    w.observe t = ({ w with
      lastRate := (satAdd64 w.count 1 : ℚ) / (t - w.startSecs : Nat)
      count := 0
      startSecs := t }, (satAdd64 w.count 1 : ℚ) / (t - w.startSecs : Nat)) := by
  have hclosed : ¬ t - w.startSecs < w.spanSecs := by omega
  simp [observe, hstart, hclosed]

theorem observe_nonneg {w : RateWindow} : 0 ≤ (w.observe t).2 := by
  have hdiv (a b : Nat) : (0 : ℚ) ≤ (a : ℚ) / b :=
    div_nonneg (Nat.cast_nonneg (α := ℚ) a) (Nat.cast_nonneg (α := ℚ) b)
  by_cases hstart : w.startSecs = 0
  · rw [observe_of_unstarted hstart]
    exact le_max_of_le_left (Nat.cast_nonneg _)
  simp only [observe, if_neg hstart]
  split
  · exact le_max_of_le_left (hdiv _ _)
  · exact hdiv _ _

end observe

end RateWindow

/-! ## The learner -/

inductive SampleDisposition where
  | normal
  | denied
  | challenged
  | bot
deriving DecidableEq, Repr

structure Learner where
  profiles : Fin 24 → HourlyProfile
  samples : Nat
  calibrated : Bool
  confidenceSq : ℚ
  config : AdaptiveConfig
  rate : RateWindow

namespace Learner

def new (config : AdaptiveConfig) : Learner where
  profiles := fun _ => HourlyProfile.new config.maxSamplesPerHour
  samples := 0
  calibrated := false
  confidenceSq := 0
  config := config
  rate := RateWindow.new 10

/-- The hours with enough samples. -/
def populated (l : Learner) : Nat :=
  (List.finRange 24).countP fun hour =>
    min l.config.maxSamplesPerHour 4 ≤ (l.profiles hour).samples.length

/-- The root of a number is at least a bound. -/
def rootAtLeast (bound square : ℚ) : Bool := bound ≤ 0 || bound ^ 2 ≤ square

def recalibrate (l : Learner) : Learner :=
  let confidenceSq : ℚ := min (l.populated / 24) 1
  { l with
    confidenceSq := confidenceSq
    calibrated := l.config.minDaysToCalibrate * 24 ≤ l.samples &&
      rootAtLeast l.config.minConfidence confidenceSq }

def observe (l : Learner) (nowSecs : Nat) : Learner × ℚ :=
  let (rate, reading) := l.rate.observe nowSecs
  ({ l with rate := rate }, reading)

/-- Only a request that was let through is a sample. -/
def record (l : Learner) (hour : Fin 24) (rps botRate : ℚ) (disposition : SampleDisposition) :
    Learner :=
  if disposition ≠ .normal then l
  else
    recalibrate { l with
      profiles := Function.update l.profiles hour ((l.profiles hour).record rps botRate)
      samples := satAdd64 l.samples 1 }

def decision (l : Learner) (hour : Fin 24) (currentRps : ℚ) : Decision :=
  if l.calibrated = false then Decision.normal
  else Decision.decide l.config (l.profiles hour).avgRps currentRps (l.profiles hour).avgBotRate

def effectiveFactor (l : Learner) (configured : ℚ) (d : Decision) : ℚ :=
  if d.calibrated = false then 1
  else clampFactor configured d.rateLimitFactor l.config.minFactor l.config.allowLoosening

end Learner

end AdaptiveLearner
