import Mathlib.Tactic.Linarith
import Pingap.AdaptiveLearner
import Pingap.KeyedMap
import Pingap.Trace

/-!
# The adaptive plugin and what trains it

The plugin counts every request of a domain in the rate window of its learner and
records the reading as a sample when the request was not denied, challenged or taken
for a bot. What is learned is therefore a matter of the readings at the other
requests, and those count the excluded requests too.
-/

namespace AdaptivePlugin

open MachineArith AdaptiveLearner List Trace

/-! ## The plugin -/

/-- What a request brings: its time, and what the entries before wrote about it. -/
structure Request where
  nowSecs : Nat
  wafAction : Option String := none
  behaviourProfile : Option String := none
deriving DecidableEq, Repr

namespace Request

def hour (r : Request) : Fin 24 := ⟨r.nowSecs / 3600 % 24, Nat.mod_lt _ (by decide)⟩

def disposition (r : Request) : SampleDisposition :=
  if r.wafAction = some "block" then .denied
  else if r.wafAction = some "challenge" then .challenged
  else if r.behaviourProfile = some "bot" ∨ r.behaviourProfile = some "ddos" then .bot
  else .normal

end Request

structure Registry where
  config : AdaptiveConfig
  profiles : KeyedMap String Learner := ∅
  modulated : KeyedMap String (KeyedMap String Nat) := ∅
  maxDomains : Nat := 256

/-- What the request is told: the reason, the decision, and the factor for a limiter. -/
structure Effect where
  reason : String
  decision : Option Decision := none
  multiplier : Option ℚ := none
deriving DecidableEq

namespace Registry

def countModulated (registry : Registry) (domain reason : String) : Registry :=
  let rows := (registry.modulated.lookup domain).getD ∅
  { registry with
    modulated := registry.modulated.insert domain
      (rows.insert reason (((rows.lookup reason).getD 0 + 1) % 2 ^ 64)) }

def learner (registry : Registry) (domain : String) : Learner :=
  (registry.profiles.lookup domain).getD (Learner.new registry.config)

/-- The learner counts the request, then records the reading. -/
def train (l : Learner) (r : Request) : Learner × ℚ :=
  let (l, current) := l.observe r.nowSecs
  let botRate := if r.disposition = .bot then 1 else 0
  (l.record r.hour current botRate r.disposition, current)

/-- `handle_request` on the domain's label, at the step of the plugin. -/
def handleRequest (domain : String) (registry : Registry) (r : Request) :
    Option Effect × Registry :=
  if registry.config.enabled = false then (none, registry)
  else if registry.profiles.lookup domain = none ∧ registry.maxDomains ≤ registry.profiles.size then
    (some { reason := "domain_capacity" }, registry)
  else
    let (learner, current) := train (registry.learner domain) r
    let decision := learner.decision r.hour current
    let modulate := registry.config.modulateRateLimit
    let registry := { registry with profiles := registry.profiles.insert domain learner }
    let moved := decision.calibrated = true ∧
      (0 < decision.challengeLevel ∨ decision.rateLimitFactor ≠ 1 ∧ modulate = true)
    let registry := if moved then registry.countModulated domain decision.reason else registry
    (some {
      reason := decision.reason
      decision := some decision
      multiplier := if modulate then some (learner.effectiveFactor 1 decision) else none }, registry)

end Registry

/-! ## What is learned -/

/-- What the decisions of a domain rest on. -/
structure Learned where
  profiles : Fin 24 → HourlyProfile
  samples : Nat
  calibrated : Bool
  confidenceSq : ℚ

def learned (l : Learner) : Learned := ⟨l.profiles, l.samples, l.calibrated, l.confidenceSq⟩

def newest {α : Type} (n : Nat) (l : List α) : List α := l.drop (l.length - n)

section newest

variable {α : Type} {n : Nat} {l xs ys : List α}

theorem newest_append (h : n ≤ xs.length) : newest n (l ++ xs) = newest n xs := by
  have hdrop : (l ++ xs).length - n = l.length + (xs.length - n) := by
    rw [length_append]
    omega
  rw [newest, hdrop, drop_append]
  simp [newest]

theorem newest_of_length_le (h : l.length ≤ n) : newest n l = l := by
  rw [newest, Nat.sub_eq_zero_of_le h, drop_zero]

theorem newest_newest (h : m ≤ n) : newest m (newest n l) = newest m l := by
  rw [newest, newest, newest, drop_drop, length_drop]
  congr 1
  omega

/-- Of lists of one length, what stands before them does not matter. -/
theorem newest_append_iff (h : xs.length = ys.length) :
    newest n (l ++ xs) = newest n (l ++ ys) ↔ newest n xs = newest n ys := by
  rcases Nat.le_total n xs.length with hle | hle
  · rw [newest_append hle, newest_append (h ▸ hle)]
  have hxs : newest n xs = xs := newest_of_length_le hle
  have hys : newest n ys = ys := newest_of_length_le (h ▸ hle)
  rw [hxs, hys]
  refine ⟨fun heq => ?_, fun heq => by rw [heq]⟩
  have hlast := congrArg (newest xs.length) heq
  rw [newest_newest hle, newest_newest hle, newest_append le_rfl, newest_append (le_of_eq h),
    newest_of_length_le le_rfl, newest_of_length_le (le_of_eq h.symm)] at hlast
  exact hlast

/-- Entries that a window has lost do not come back. -/
theorem newest_append_newest : newest n (newest n l ++ xs) = newest n (l ++ xs) := by
  rcases Nat.le_total l.length n with hle | hle
  · rw [newest_of_length_le hle]
  have hparts : l ++ xs = l.take (l.length - n) ++ (newest n l ++ xs) := by
    rw [newest, ← append_assoc, take_append_drop]
  have hlength : n ≤ (newest n l ++ xs).length := by
    rw [newest, length_append, length_drop]
    omega
  rw [hparts, newest_append hlength]

end newest

/-! ### One hour -/

/-- Two windows that have taken as many samples. -/
structure Alike (p q : HourlyProfile) : Prop where
  length : p.samples.length = q.samples.length
  maxSamples : p.maxSamples = q.maxSamples
  avgBotRate : p.avgBotRate = q.avgBotRate

section hour

variable {p q : HourlyProfile}

theorem Alike.refl (p : HourlyProfile) : Alike p p := ⟨rfl, rfl, rfl⟩

theorem Alike.record (h : Alike p q) (x y b : ℚ) : Alike (p.record x b) (q.record y b) := by
  have hlength : (p.pushed x).length = (q.pushed y).length := by
    rw [HourlyProfile.length_pushed, HourlyProfile.length_pushed, h.length, h.maxSamples]
  refine ⟨hlength, h.maxSamples, ?_⟩
  simp only [HourlyProfile.record, hlength, h.avgBotRate]

/-- What is derived from the samples is the same with them. -/
theorem Alike.record_eq (h : Alike p q) (b : ℚ) (hpushed : p.pushed x = q.pushed y) :
    p.record x b = q.record y b := by
  simp only [HourlyProfile.record, hpushed, h.maxSamples, h.avgBotRate]

def recordAll (p : HourlyProfile) (xs : List ℚ) : HourlyProfile :=
  xs.foldl (fun p x => p.record x 0) p

section

variable (p : HourlyProfile)

theorem pushed_eq_newest : p.pushed x = newest p.maxSamples (p.samples ++ [max x 0]) := by
  have hbounded := p.bounded
  have hpos := p.maxSamples_pos
  rw [HourlyProfile.pushed, newest, length_append, length_singleton]
  split
  case isTrue hfull =>
    rw [hfull, Nat.add_sub_cancel_left, drop_append_of_le_length (by omega)]
  case isFalse hfree =>
    rw [Nat.sub_eq_zero_of_le (by omega), drop_zero]

theorem recordAll_append : recordAll p (xs ++ [x]) = (recordAll p xs).record x 0 := by
  rw [recordAll, foldl_append]
  rfl

theorem maxSamples_recordAll : (recordAll p xs).maxSamples = p.maxSamples := by
  induction xs generalizing p with
  | nil => rfl
  | cons x xs ih => exact ih (p.record x 0)

theorem recordAll_alike (h : xs.length = ys.length) : Alike (recordAll p xs) (recordAll p ys) := by
  suffices hgeneral : ∀ p q, Alike p q → Alike (recordAll p xs) (recordAll q ys) from
    hgeneral p p (Alike.refl p)
  induction xs generalizing ys with
  | nil =>
    obtain rfl := List.length_eq_zero_iff.mp h.symm
    exact fun p q halike => halike
  | cons x xs ih =>
    cases ys with
    | nil => cases h
    | cons y ys => exact fun p q halike => ih (Nat.succ.inj h) _ _ (halike.record x y 0)

/-- The window holds the newest of all samples. -/
theorem samples_recordAll :
    (recordAll p xs).samples = newest p.maxSamples (p.samples ++ xs.map (max · 0)) := by
  induction xs using reverseRecOn with
  | nil => rw [map_nil, append_nil, newest_of_length_le p.bounded]; rfl
  | append_singleton xs x ih =>
    have hpush : ((recordAll p xs).record x 0).samples = (recordAll p xs).pushed x := rfl
    rw [recordAll_append, hpush, pushed_eq_newest, maxSamples_recordAll, ih, map_append,
      map_singleton, ← append_assoc, newest_append_newest]

/-- After as many samples, two windows are the same when the samples they keep are. -/
theorem recordAll_eq_iff (h : xs.length = ys.length) :
    recordAll p xs = recordAll p ys ↔
      newest p.maxSamples (xs.map (max · 0)) = newest p.maxSamples (ys.map (max · 0)) := by
  have hlength : (xs.map (max · (0 : ℚ))).length = (ys.map (max · 0)).length := by
    rw [length_map, length_map, h]
  have hsamples : (recordAll p xs).samples = (recordAll p ys).samples ↔
      newest p.maxSamples (xs.map (max · 0)) = newest p.maxSamples (ys.map (max · 0)) := by
    rw [samples_recordAll, samples_recordAll, newest_append_iff hlength]
  rw [← hsamples]
  refine ⟨fun heq => by rw [heq], fun heq => ?_⟩
  rcases eq_nil_or_concat xs with rfl | ⟨xs, x, rfl⟩
  · obtain rfl := List.length_eq_zero_iff.mp h.symm
    rfl
  rcases eq_nil_or_concat ys with rfl | ⟨ys, y, rfl⟩
  · simp at h
  · rw [concat_eq_append, concat_eq_append, recordAll_append, recordAll_append] at heq ⊢
    exact (recordAll_alike p (by simpa using h)).record_eq 0 heq

end

end hour

/-! ### All hours -/

abbrev Sample := Fin 24 × ℚ

/-- The samples of the requests that are recorded, as the window reads them. -/
def readings : RateWindow → List Request → List Sample
  | _, [] => []
  | w, r :: rs =>
    if r.disposition = .normal then (r.hour, (w.observe r.nowSecs).2) ::
      readings (w.observe r.nowSecs).1 rs
    else readings (w.observe r.nowSecs).1 rs

theorem readings_cons_of_normal (h : r.disposition = .normal) :
    readings w (r :: rs) =
      (r.hour, (w.observe r.nowSecs).2) :: readings (w.observe r.nowSecs).1 rs := if_pos h

theorem readings_cons_of_excluded (h : r.disposition ≠ .normal) :
    readings w (r :: rs) = readings (w.observe r.nowSecs).1 rs := if_neg h

def ofHour (hour : Fin 24) (xs : List Sample) : List ℚ :=
  (xs.filter fun x => x.1 = hour).map Prod.snd

def recordSamples (l : Learner) (xs : List Sample) : Learner :=
  xs.foldl (fun l x => l.record x.1 x.2 0 .normal) l

def trainAll (l : Learner) (rs : List Request) : Learner :=
  rs.foldl (fun l r => (Registry.train l r).1) l

theorem learned_record (h : learned l = learned l') (hconfig : l.config = l'.config) (x : Sample) :
    learned (l.record x.1 x.2 0 .normal) = learned (l'.record x.1 x.2 0 .normal) := by
  obtain ⟨profiles, samples, calibrated, confidence, config, rate⟩ := l
  obtain ⟨profiles', samples', calibrated', confidence', config', rate'⟩ := l'
  cases h
  cases hconfig
  rfl

theorem config_record {l : Learner} : (l.record hour x b d).config = l.config := by
  unfold Learner.record
  split <;> rfl

theorem rate_record {l : Learner} : (l.record hour x b d).rate = l.rate := by
  unfold Learner.record
  split <;> rfl

theorem learned_recordSamples (h : learned l = learned l') (hconfig : l.config = l'.config) :
    learned (recordSamples l xs) = learned (recordSamples l' xs) := by
  induction xs generalizing l l' with
  | nil => exact h
  | cons x xs ih =>
    refine ih (learned_record h hconfig x) ?_
    rw [config_record, config_record, hconfig]

/-- What is learned is a matter of the readings at the requests that are recorded. -/
theorem learned_trainAll {l : Learner} :
    learned (trainAll l rs) = learned (recordSamples l (readings l.rate rs)) := by
  induction rs generalizing l with
  | nil => rfl
  | cons r rs ih =>
    have hrate : (Registry.train l r).1.rate = (l.rate.observe r.nowSecs).1 := by
      rw [Registry.train, rate_record]
      rfl
    have hstep : trainAll l (r :: rs) = trainAll (Registry.train l r).1 rs := rfl
    rw [hstep, ih, hrate]
    by_cases hnormal : r.disposition = .normal
    case pos =>
      rw [readings_cons_of_normal hnormal]
      refine learned_recordSamples ?_ ?_
      · simp only [Registry.train, hnormal, reduceCtorEq, if_false]
        exact learned_record rfl rfl (r.hour, (l.rate.observe r.nowSecs).2)
      · rw [Registry.train, config_record, config_record]
        rfl
    case neg =>
      have hkept : (Registry.train l r).1 = { l with rate := (l.rate.observe r.nowSecs).1 } := by
        simp only [Registry.train, Learner.record, if_pos hnormal]
        rfl
      rw [readings_cons_of_excluded hnormal, hkept]
      refine learned_recordSamples ?_ ?_
      · rfl
      · rfl

theorem profiles_recordSamples :
    (recordSamples l xs).profiles hour = recordAll (l.profiles hour) (ofHour hour xs) := by
  induction xs generalizing l with
  | nil => rfl
  | cons x xs ih =>
    have hstep : recordSamples l (x :: xs) = recordSamples (l.record x.1 x.2 0 .normal) xs := rfl
    have hprofiles : (l.record x.1 x.2 0 .normal).profiles =
        Function.update l.profiles x.1 ((l.profiles x.1).record x.2 0) := rfl
    rw [hstep, ih, hprofiles]
    by_cases h : x.1 = hour
    · subst h
      rw [Function.update_self, ofHour, ofHour, filter_cons_of_pos (by simp), map_cons]
      rfl
    · rw [Function.update_of_ne (Ne.symm h), ofHour, ofHour, filter_cons_of_neg (by simp [h])]

/-- Two learners that have taken as many samples, hour by hour. -/
structure AsMany (l l' : Learner) : Prop where
  profiles : ∀ hour, Alike (l.profiles hour) (l'.profiles hour)
  samples : l.samples = l'.samples
  calibrated : l.calibrated = l'.calibrated
  confidenceSq : l.confidenceSq = l'.confidenceSq
  config : l.config = l'.config

theorem AsMany.populated (h : AsMany l l') : l.populated = l'.populated := by
  unfold Learner.populated
  congr 1
  funext hour
  rw [(h.profiles hour).length, h.config]

theorem AsMany.recalibrate (h : AsMany l l') : AsMany l.recalibrate l'.recalibrate := by
  refine ⟨h.profiles, h.samples, ?_, ?_, h.config⟩
  · simp only [Learner.recalibrate, h.populated, h.samples, h.config]
  · simp only [Learner.recalibrate, h.populated]

theorem AsMany.record (h : AsMany l l') (hour : Fin 24) (x y : ℚ) :
    AsMany (l.record hour x 0 .normal) (l'.record hour y 0 .normal) := by
  apply AsMany.recalibrate
  refine ⟨fun other => ?_, by rw [h.samples], h.calibrated, h.confidenceSq, h.config⟩
  by_cases hother : other = hour
  · subst hother
    simp only [Function.update_self]
    exact (h.profiles other).record x y 0
  · simp only [Function.update_of_ne hother]
    exact h.profiles other

theorem asMany_recordSamples (l : Learner) (h : xs.map Prod.fst = ys.map Prod.fst) :
    AsMany (recordSamples l xs) (recordSamples l ys) := by
  suffices hgeneral : ∀ l l', AsMany l l' → AsMany (recordSamples l xs) (recordSamples l' ys) from
    hgeneral l l ⟨fun _ => Alike.refl _, rfl, rfl, rfl, rfl⟩
  induction xs generalizing ys with
  | nil =>
    obtain rfl := map_eq_nil_iff.mp h.symm
    exact fun l l' halike => halike
  | cons x xs ih =>
    cases ys with
    | nil => cases h
    | cons y ys =>
      obtain ⟨hhour, hrest⟩ := List.cons.inj h
      intro l l' halike
      have hstep := halike.record x.1 x.2 y.2
      have hy : (l'.record x.1 y.2 0 .normal) = l'.record y.1 y.2 0 .normal := by rw [hhour]
      rw [hy] at hstep
      exact ih hrest _ _ hstep

theorem length_ofHour (h : xs.map Prod.fst = ys.map Prod.fst) (hour : Fin 24) :
    (ofHour hour xs).length = (ofHour hour ys).length := by
  have hcount (zs : List Sample) : (ofHour hour zs).length = (zs.map Prod.fst).count hour := by
    rw [ofHour, length_map, List.count, countP_map, countP_eq_length_filter]
    rfl
  rw [hcount, hcount, h]

/-- The samples of an hour that are still kept at the end. -/
def keptOfHour (l : Learner) (rs : List Request) (hour : Fin 24) : List ℚ :=
  newest (l.profiles hour).maxSamples ((ofHour hour (readings l.rate rs)).map (max · 0))

/-- With the same hours, as much is learned when the samples that are kept are the same. -/
theorem learned_eq_iff (h : (readings l.rate rs).map Prod.fst = (readings l.rate rs').map Prod.fst) :
    learned (trainAll l rs) = learned (trainAll l rs') ↔
      ∀ hour, keptOfHour l rs hour = keptOfHour l rs' hour := by
  rw [learned_trainAll, learned_trainAll]
  have hmany := asMany_recordSamples l h
  have hhour (hour : Fin 24) : (recordSamples l (readings l.rate rs)).profiles hour =
      (recordSamples l (readings l.rate rs')).profiles hour ↔
        keptOfHour l rs hour = keptOfHour l rs' hour := by
    rw [profiles_recordSamples, profiles_recordSamples, recordAll_eq_iff _ (length_ofHour h hour)]
    rfl
  constructor
  · intro heq hour
    exact (hhour hour).mp (congrFun (congrArg Learned.profiles heq) hour)
  intro hkept
  have hprofiles := funext fun hour => (hhour hour).mpr (hkept hour)
  simp only [learned, hprofiles, hmany.samples, hmany.calibrated, hmany.confidenceSq]

/-! ## Deleting requests -/

/-- Requests that are denied, challenged or taken for bots may be deleted. -/
inductive Deletes : List Request → List Request → Prop
  | nil : Deletes [] []
  | keep (r : Request) {rs rs' : List Request} : Deletes rs rs' → Deletes (r :: rs) (r :: rs')
  | drop {r : Request} {rs rs' : List Request} : r.disposition ≠ .normal → Deletes rs rs' →
    Deletes (r :: rs) rs'

/-- The recorded requests and their hours stay. -/
theorem Deletes.hours (h : Deletes rs rs') (w w' : RateWindow) :
    (readings w rs).map Prod.fst = (readings w' rs').map Prod.fst := by
  induction h generalizing w w' with
  | nil => rfl
  | keep r _ ih =>
    by_cases hnormal : r.disposition = .normal
    · rw [readings_cons_of_normal hnormal, readings_cons_of_normal hnormal, map_cons, map_cons, ih]
    · rw [readings_cons_of_excluded hnormal, readings_cons_of_excluded hnormal]
      exact ih _ _
  | drop hexcluded _ ih =>
    rw [readings_cons_of_excluded hexcluded]
    exact ih _ _

theorem readings_of_excluded (h : ∀ r ∈ rs, r.disposition ≠ .normal) (w : RateWindow) :
    readings w rs = [] := by
  induction rs generalizing w with
  | nil => rfl
  | cons r rs ih =>
    rw [readings_cons_of_excluded (h r mem_cons_self)]
    exact ih (fun r' hr' => h r' (mem_cons_of_mem _ hr')) _

theorem Deletes.subset (h : Deletes rs rs') : ∀ r ∈ rs', r ∈ rs := by
  induction h with
  | nil => exact fun r hr => hr
  | keep r _ ih =>
    intro r' hr'
    rcases mem_cons.mp hr' with rfl | hr'
    · exact mem_cons_self
    · exact mem_cons_of_mem _ (ih r' hr')
  | drop _ _ ih => exact fun r' hr' => mem_cons_of_mem _ (ih r' hr')

/-- No recorded request comes after one that is excluded. -/
def ExcludedLast (rs : List Request) : Prop :=
  rs.Pairwise fun a b => a.disposition ≠ .normal → b.disposition ≠ .normal

theorem Deletes.readings_eq (h : Deletes rs rs') (hlast : ExcludedLast rs) (w : RateWindow) :
    readings w rs = readings w rs' := by
  induction h generalizing w with
  | nil => rfl
  | keep r _ ih =>
    have hrest := (List.pairwise_cons.mp hlast).2
    by_cases hnormal : r.disposition = .normal
    · rw [readings_cons_of_normal hnormal, readings_cons_of_normal hnormal, ih hrest]
    · rw [readings_cons_of_excluded hnormal, readings_cons_of_excluded hnormal, ih hrest]
  | drop hexcluded hdeletes _ =>
    have hrest := fun r hr => (List.pairwise_cons.mp hlast).1 r hr hexcluded
    rw [readings_cons_of_excluded hexcluded, readings_of_excluded hrest,
      readings_of_excluded fun r hr => hrest r (hdeletes.subset r hr)]

/-! ## Excluded requests in the rate -/

def observeAll (w : RateWindow) (rs : List Request) : RateWindow :=
  rs.foldl (fun w r => (w.observe r.nowSecs).1) w

theorem readings_append :
    readings w (rs ++ rs') = readings w rs ++ readings (observeAll w rs) rs' := by
  induction rs generalizing w with
  | nil => rfl
  | cons r rs ih =>
    have hwindow : observeAll w (r :: rs) = observeAll (w.observe r.nowSecs).1 rs := rfl
    rw [cons_append, hwindow]
    by_cases hnormal : r.disposition = .normal
    · rw [readings_cons_of_normal hnormal, readings_cons_of_normal hnormal, ih, cons_append]
    · rw [readings_cons_of_excluded hnormal, readings_cons_of_excluded hnormal, ih]

/-- A request more is read at the next one, if the two stand far enough apart. -/
theorem reading_ne {w : RateWindow} :
    ((w.observe (w.startSecs + w.spanSecs + 1)).1.observe (w.startSecs + 2 * w.spanSecs + 4)).2 ≠
      (w.observe (w.startSecs + 2 * w.spanSecs + 4)).2 := by
  have hcount : 1 ≤ satAdd64 w.count 1 := by
    have hmax : 1 ≤ u64Max := by decide
    unfold satAdd64
    omega
  by_cases hstart : w.startSecs = 0
  · -- The first request would have started the window; now it closes it.
    have hnext : satAdd64 (satAdd64 w.count 1) 1 ≤ satAdd64 w.count 1 + 1 := Nat.min_le_left _ _
    rw [RateWindow.observe_of_unstarted hstart, RateWindow.observe_of_unstarted hstart,
      RateWindow.observe_of_closed (by simp) (by simp only; omega)]
    simp only
    have helapsed : 3 ≤ w.startSecs + 2 * w.spanSecs + 4 - (w.startSecs + w.spanSecs + 1) := by
      omega
    generalize w.startSecs + 2 * w.spanSecs + 4 - (w.startSecs + w.spanSecs + 1) = elapsed at helapsed ⊢
    generalize satAdd64 (satAdd64 w.count 1) 1 = second at hnext ⊢
    generalize satAdd64 w.count 1 = first at hcount hnext ⊢
    have hless : (second : ℚ) / elapsed < first := by
      have hpos : (0 : ℚ) < elapsed := by exact_mod_cast (by omega : 0 < elapsed)
      rw [div_lt_iff₀ hpos]
      exact_mod_cast (by nlinarith : second < first * elapsed)
    exact (lt_of_lt_of_le hless (le_max_left _ _)).ne
  · -- The window is closed by the request before, or only by this one.
    rw [RateWindow.observe_of_closed hstart (by omega),
      RateWindow.observe_of_closed hstart (by omega),
      RateWindow.observe_of_closed (by simp) (by simp only; omega)]
    simp only
    have helapsed : w.startSecs + 2 * w.spanSecs + 4 - (w.startSecs + w.spanSecs + 1) =
        w.spanSecs + 3 := by omega
    have hwhole : w.startSecs + 2 * w.spanSecs + 4 - w.startSecs = 2 * w.spanSecs + 4 := by omega
    have hone : satAdd64 0 1 = 1 := rfl
    rw [helapsed, hwhole, hone]
    generalize satAdd64 w.count 1 = first at hcount ⊢
    intro heq
    have hshort : (0 : ℚ) < (w.spanSecs + 3 : Nat) := by exact_mod_cast Nat.succ_pos _
    have hlong : (0 : ℚ) < (2 * w.spanSecs + 4 : Nat) := by exact_mod_cast Nat.succ_pos _
    rw [div_eq_div_iff hshort.ne' hlong.ne'] at heq
    have hnat : 1 * (2 * w.spanSecs + 4) = first * (w.spanSecs + 3) := by exact_mod_cast heq
    rcases Nat.lt_or_ge first 2 with hlt | hge
    · obtain rfl : first = 1 := by omega
      omega
    · have := Nat.mul_le_mul_right (w.spanSecs + 3) hge
      omega

/-- What is told about a request before the plugin sees it. -/
def Request.verdict (r : Request) : Option String × Option String :=
  (r.wafAction, r.behaviourProfile)

def Request.setTime (t : Nat) (r : Request) : Request := { r with nowSecs := t }

theorem disposition_eq_of_verdict {r r' : Request} (h : r.verdict = r'.verdict) :
    r.disposition = r'.disposition := by
  obtain ⟨t, action, profile⟩ := r
  obtain ⟨t', action', profile'⟩ := r'
  cases h
  rfl

theorem ExcludedLast.of_verdicts {rs rs' : List Request}
    (h : rs'.map Request.verdict = rs.map Request.verdict) (hlast : ExcludedLast rs) :
    ExcludedLast rs' := by
  induction rs generalizing rs' with
  | nil =>
    obtain rfl := map_eq_nil_iff.mp h
    exact hlast
  | cons r rs ih =>
    cases rs' with
    | nil => cases h
    | cons r' rs' =>
      obtain ⟨hverdict, hrest⟩ := List.cons.inj h
      obtain ⟨hfirst, hlast⟩ := List.pairwise_cons.mp hlast
      refine List.pairwise_cons.mpr ⟨fun b' hb' hexcluded => ?_, ih hrest hlast⟩
      have hmem := hrest ▸ mem_map_of_mem hb'
      obtain ⟨b, hb, hsame⟩ := mem_map.mp hmem
      rw [← disposition_eq_of_verdict hsame]
      exact hfirst b hb (disposition_eq_of_verdict hverdict ▸ hexcluded)

/-- Otherwise a recorded request comes right after an excluded one. -/
theorem exists_adjacent (h : ¬ ExcludedLast rs) :
    ∃ before a b after, rs = before ++ a :: b :: after ∧
      a.disposition ≠ .normal ∧ b.disposition = .normal := by
  induction rs with
  | nil => exact absurd List.Pairwise.nil h
  | cons r rs ih =>
    by_cases hrest : ExcludedLast rs
    · cases rs with
      | nil => exact absurd (pairwise_singleton _ _) h
      | cons b after =>
        by_cases hb : b.disposition = .normal
        · refine ⟨[], r, b, after, rfl, fun hr => h ?_, hb⟩
          exact List.pairwise_cons.mpr ⟨fun _ _ hexcluded => absurd hr hexcluded, hrest⟩
        have hall : ∀ c ∈ b :: after, c.disposition ≠ .normal := by
          intro c hc
          rcases mem_cons.mp hc with rfl | hc
          · exact hb
          · exact (List.pairwise_cons.mp hrest).1 c hc hb
        exact absurd (List.pairwise_cons.mpr ⟨fun c hc _ => hall c hc, hrest⟩) h
    · obtain ⟨before, a, b, after, rfl, ha, hb⟩ := ih hrest
      exact ⟨r :: before, a, b, after, rfl, ha, hb⟩

theorem Deletes.refl (rs : List Request) : Deletes rs rs := by
  induction rs with
  | nil => exact .nil
  | cons r rs ih => exact .keep r ih

theorem Deletes.append_left (before : List Request) (h : Deletes rs rs') :
    Deletes (before ++ rs) (before ++ rs') := by
  induction before with
  | nil => exact h
  | cons r before ih => exact .keep r ih

/-- Requests an hour later are samples of another hour. -/
theorem ofHour_readings_later {rs : List Request} (w : RateWindow)
    (hhour : hour.val = t / 3600 % 24) :
    ofHour hour (readings w (rs.map (Request.setTime (t + 3600)))) = [] := by
  induction rs generalizing w with
  | nil => rfl
  | cons r rs ih =>
    have hother : (r.setTime (t + 3600)).hour ≠ hour := by
      intro heq
      have hval : (t + 3600) / 3600 % 24 = t / 3600 % 24 := (congrArg Fin.val heq).trans hhour
      omega
    rw [map_cons]
    by_cases hnormal : (r.setTime (t + 3600)).disposition = .normal
    · rw [readings_cons_of_normal hnormal, ofHour, filter_cons_of_neg (by simpa using hother)]
      exact ih _
    · rw [readings_cons_of_excluded hnormal]
      exact ih _

theorem ofHour_append : ofHour hour (xs ++ ys) = ofHour hour xs ++ ofHour hour ys := by
  rw [ofHour, filter_append, map_append]
  rfl

/-- Whatever was learned before, an excluded request right before a recorded one can show. -/
theorem exists_trace (l : Learner) {rs : List Request} (h : ¬ ExcludedLast rs) :
    ∃ timed rest, timed.map Request.verdict = rs.map Request.verdict ∧ Deletes timed rest ∧
      learned (trainAll l timed) ≠ learned (trainAll l rest) := by
  obtain ⟨before, a, b, after, rfl, ha, hb⟩ := exists_adjacent h
  let w := observeAll l.rate before
  let t := w.startSecs + 2 * w.spanSecs + 4
  let a' := a.setTime (w.startSecs + w.spanSecs + 1)
  let b' := b.setTime t
  let after' := after.map (Request.setTime (t + 3600))
  have ha' : a'.disposition ≠ .normal := ha
  have hb' : b'.disposition = .normal := hb
  have hdeletes : Deletes (before ++ a' :: b' :: after') (before ++ b' :: after') :=
    Deletes.append_left before (.drop ha' (Deletes.refl _))
  refine ⟨before ++ a' :: b' :: after', before ++ b' :: after', ?_, hdeletes, fun heq => ?_⟩
  · simp only [map_append, map_cons, map_map, after']
    rfl
  have hkept := (learned_eq_iff (hdeletes.hours _ _)).mp heq b'.hour
  have hread (w' : RateWindow) :
      ofHour b'.hour (readings w' (b' :: after')) = [(w'.observe t).2] := by
    rw [readings_cons_of_normal hb', ofHour, filter_cons_of_pos (by simp), map_cons]
    exact congrArg _ (ofHour_readings_later _ rfl)
  have hpos := (l.profiles b'.hour).maxSamples_pos
  rw [keptOfHour, keptOfHour, readings_append, readings_append, readings_cons_of_excluded ha',
    ofHour_append, ofHour_append, hread, hread, map_append, map_append] at hkept
  replace hkept := (newest_append_iff (by simp)).mp hkept
  rw [newest_of_length_le hpos, newest_of_length_le hpos] at hkept
  have hreading := head_eq_of_cons_eq hkept
  simp only [max_eq_left (RateWindow.observe_nonneg)] at hreading
  exact reading_ne hreading

/-! ## The registry of learners -/

/-- The plugin is on, and has or can take a learner for the domain. -/
def Registry.Admits (registry : Registry) (domain : String) : Prop :=
  registry.config.enabled = true ∧
    (registry.profiles.lookup domain = none → registry.profiles.size < registry.maxDomains)

theorem handleRequest_of_not_admits {registry : Registry} (h : ¬ registry.Admits domain)
    (r : Request) : (registry.handleRequest domain r).2 = registry := by
  unfold Registry.handleRequest
  by_cases henabled : registry.config.enabled = false
  · rw [if_pos henabled]
  have hfull : registry.profiles.lookup domain = none ∧
      registry.maxDomains ≤ registry.profiles.size := by
    simpa [Registry.Admits, henabled] using h
  rw [if_neg henabled, if_pos hfull]

theorem learner_handleRequest {registry : Registry} (h : registry.Admits domain) (r : Request) :
    (registry.handleRequest domain r).2.learner domain =
      (Registry.train (registry.learner domain) r).1 ∧
    (registry.handleRequest domain r).2.Admits domain := by
  obtain ⟨henabled, hroom⟩ := h
  have hopen : ¬ (registry.profiles.lookup domain = none ∧
      registry.maxDomains ≤ registry.profiles.size) :=
    fun hfull => absurd (hroom hfull.1) (by omega)
  unfold Registry.handleRequest
  rw [if_neg (by simp [henabled]), if_neg hopen]
  -- Counting a modulation leaves the learners alone.
  simp only
  split
  all_goals
    refine ⟨?_, henabled, fun hnone => ?_⟩
    · simp [Registry.learner, Registry.countModulated]
    · simp [Registry.countModulated] at hnone

theorem final_of_not_admits {registry : Registry} (h : ¬ registry.Admits domain) (rs : List Request)
    : final (Registry.handleRequest domain) registry rs = registry := by
  refine final_invariant _ (· = registry) (fun s r hs => ?_) rs registry rfl
  rw [hs, handleRequest_of_not_admits h]

theorem learner_final (h : registry.Admits domain) (rs : List Request) :
    (final (Registry.handleRequest domain) registry rs).learner domain =
      trainAll (registry.learner domain) rs := by
  induction rs generalizing registry with
  | nil => rfl
  | cons r rs ih =>
    obtain ⟨hlearner, hadmits⟩ := learner_handleRequest h r
    rw [final_cons, ih hadmits, hlearner]
    rfl

/-- The learned profiles, sample count and calibration are those without the excluded requests,
whatever the times, exactly for the sequences in which no recorded request follows one of
them: the rate window counts a request before its disposition is looked at. At given times they
are when the same readings are kept of every hour. -/
theorem excluded_leave_no_trace_iff (registry : Registry) (domain : String) (rs : List Request) :
    ((∀ timed rest, timed.map Request.verdict = rs.map Request.verdict → Deletes timed rest →
      learned ((Trace.final (Registry.handleRequest domain) registry timed).learner domain) =
        learned ((Trace.final (Registry.handleRequest domain) registry rest).learner domain)) ↔
      (registry.Admits domain → ExcludedLast rs)) ∧
    (registry.Admits domain → ∀ rest, Deletes rs rest →
      (learned ((Trace.final (Registry.handleRequest domain) registry rs).learner domain) =
        learned ((Trace.final (Registry.handleRequest domain) registry rest).learner domain) ↔
        ∀ hour, keptOfHour (registry.learner domain) rs hour =
          keptOfHour (registry.learner domain) rest hour)) := by
  refine ⟨⟨?_, ?_⟩, fun hadmits rest hdeletes => ?_⟩
  · intro hsame hadmits
    by_contra hlast
    obtain ⟨timed, rest, hverdicts, hdeletes, hne⟩ := exists_trace (registry.learner domain) hlast
    have heq := hsame timed rest hverdicts hdeletes
    rw [learner_final hadmits, learner_final hadmits] at heq
    exact hne heq
  · intro hlast timed rest hverdicts hdeletes
    by_cases hadmits : registry.Admits domain
    · rw [learner_final hadmits, learner_final hadmits, learned_trainAll, learned_trainAll,
        hdeletes.readings_eq ((hlast hadmits).of_verdicts hverdicts)]
    · rw [final_of_not_admits hadmits, final_of_not_admits hadmits]
  · rw [learner_final hadmits, learner_final hadmits]
    exact learned_eq_iff (hdeletes.hours _ _)

/-- A request of a bot and an ordinary one in the same second: the sample is 2 requests per
second, and 1 without the bot. -/
theorem bot_request_trains :
    let registry : Registry := { config := { enabled := true } }
    let bot : Request := { nowSecs := 1000, behaviourProfile := some "bot" }
    let ordinary : Request := { nowSecs := 1000 }
    Deletes [bot, ordinary] [ordinary] ∧
      learned ((final (Registry.handleRequest "shop.example") registry
        [bot, ordinary]).learner "shop.example") ≠
      learned ((final (Registry.handleRequest "shop.example") registry
        [ordinary]).learner "shop.example") := by
  intro registry bot ordinary
  refine ⟨.drop (by decide) (.keep _ .nil), fun heq => ?_⟩
  have havg := congrArg (fun state => (state.profiles 0).avgRps) heq
  revert havg
  decide +kernel

end AdaptivePlugin
