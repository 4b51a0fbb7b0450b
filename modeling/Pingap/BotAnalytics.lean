import Pingap.BotFingerprint
import Pingap.KeyedMap
import Pingap.Trace

/-!
# The counts of a bot policy

Every request is counted under one verdict. A request without a fingerprint is counted as missed,
whatever the rules that read its user agent say.
-/

namespace BotAnalytics

open BotFingerprint AList List Trace

inductive Verdict where
  | allowed
  | denied
  | wouldDeny
  | knownBot
  | missed
deriving DecidableEq

structure Observation where
  domain : String
  fingerprint : Option String
  verdict : Verdict
  protocol : String

structure Analytics where
  byFingerprint : KeyedMap String Nat := ∅
  byVerdict : KeyedMap Verdict Nat := ∅
  byDomain : KeyedMap String Nat := ∅
  missesByProtocol : KeyedMap String Nat := ∅
  total : Nat := 0

def bump [DecidableEq κ] (m : KeyedMap κ Nat) (key : κ) : KeyedMap κ Nat :=
  m.insert key ((m.lookup key).getD 0 + 1)

def Analytics.record (a : Analytics) (o : Observation) : Analytics where
  byFingerprint := o.fingerprint.elim a.byFingerprint (bump a.byFingerprint)
  byVerdict := bump a.byVerdict o.verdict
  byDomain := bump a.byDomain o.domain
  missesByProtocol :=
    if o.verdict = .missed then bump a.missesByProtocol o.protocol else a.missesByProtocol
  total := a.total + 1

structure BotOutcome where
  denied : Bool
  wouldDeny : Bool
  decidedBy : Option Nat
  logged : List Nat
  knownBot : Bool

/-- The rules, the library of known bots, and whether the mode is to block. -/
structure BotProfile where
  rules : List ValidatedBotRule
  allowKnownBots : Bool
  isKnownGood : String → Bool
  block : Bool

structure Request where
  domain : String
  fingerprint : Option String
  userAgent : String
  protocol : String

variable (p : BotProfile) (r : Request)

def evaluateFrom : List ValidatedBotRule → Nat → List Nat → BotOutcome
  | [], _, logged => ⟨false, false, none, logged, false⟩
  | rule :: rest, index, logged =>
    if rule.isMatch r.fingerprint r.userAgent then
      match rule.spec.action with
      | .log => evaluateFrom rest (index + 1) (logged ++ [index])
      | .allow => ⟨false, false, some index, logged, false⟩
      | .deny => ⟨p.block, true, some index, logged, false⟩
    else evaluateFrom rest (index + 1) logged

def evaluate : BotOutcome :=
  if p.allowKnownBots && p.isKnownGood r.userAgent then ⟨false, false, none, [], true⟩
  else evaluateFrom p r p.rules 0 []

def verdict : Verdict :=
  if r.fingerprint.isNone then .missed
  else if (evaluate p r).knownBot then .knownBot
  else if (evaluate p r).denied then .denied
  else if (evaluate p r).wouldDeny then .wouldDeny
  else .allowed

/-- Whether a request is refused, and the counts after it. -/
def handleRequest (a : Analytics) (r : Request) : Bool × Analytics :=
  ((evaluate p r).denied, a.record ⟨r.domain, r.fingerprint, verdict p r, r.protocol⟩)

/-- The counts of a sequence of requests. -/
def run (rs : List Request) : Analytics := final (handleRequest p) {} rs

def reported (rs : List Request) (v : Verdict) : Nat := ((run p rs).byVerdict.lookup v).getD 0

/-- The action of the first matching rule that does more than log. -/
def firstDecision (rules : List ValidatedBotRule) : Option BotAction :=
  ((rules.filter (·.isMatch r.fingerprint r.userAgent)).map (·.spec.action)).find? (· ≠ .log)

/-- A rule denies the request, refused or not. -/
def toDeny : Bool :=
  !(p.allowKnownBots && p.isKnownGood r.userAgent) && firstDecision r p.rules = some .deny

/-- Nothing exempts the request, and no rule decides it. -/
def undecided : Bool :=
  !(p.allowKnownBots && p.isKnownGood r.userAgent) && firstDecision r p.rules = none

theorem toDeny_of_undecided (h : undecided p r) : toDeny p r = false := by
  simp_all [undecided, toDeny]

theorem evaluateFrom_eq (rules : List ValidatedBotRule) (index : Nat) (logged : List Nat) :
    let o := evaluateFrom p r rules index logged
    o.wouldDeny = decide (firstDecision r rules = some .deny) ∧
      o.denied = (o.wouldDeny && p.block) ∧ o.knownBot = false := by
  induction rules generalizing index logged with
  | nil => exact ⟨rfl, rfl, rfl⟩
  | cons rule rest ih =>
    unfold evaluateFrom
    split
    case isFalse hmatch => simpa [firstDecision, hmatch] using ih (index + 1) logged
    case isTrue hmatch =>
      cases haction : rule.spec.action with
      | log => simpa [firstDecision, hmatch, haction] using ih (index + 1) (logged ++ [index])
      | allow | deny => simp [firstDecision, hmatch, haction]

theorem evaluate_eq : (evaluate p r).wouldDeny = toDeny p r ∧
    (evaluate p r).denied = ((evaluate p r).wouldDeny && p.block) ∧
    ((evaluate p r).knownBot = true → (evaluate p r).wouldDeny = false) := by
  obtain ⟨hwould, hdenied, hknown⟩ := evaluateFrom_eq p r p.rules 0 []
  unfold evaluate toDeny
  split
  case isTrue hbot => simp [hbot]
  case isFalse hbot => exact ⟨by simp [hwould, hbot], hdenied, fun h => by cases hknown.symm.trans h⟩

theorem weigh_bump [DecidableEq κ] {key : κ} : weigh id (bump m key) = weigh id m + 1 := by
  rw [bump, weigh_insert]
  cases h : m.lookup key with
  | none => rw [erase_of_none h, Nat.add_comm]; rfl
  | some n => rw [weigh_erase_of_some id h]; simp only [Option.getD_some, id_eq]; omega

theorem sums_run (rs : List Request) :
    weigh id (run p rs).byVerdict = (run p rs).total ∧
      weigh id (run p rs).byDomain = (run p rs).total :=
  final_invariant (handleRequest p)
    (fun a => weigh id a.byVerdict = a.total ∧ weigh id a.byDomain = a.total)
    (fun a r h => by simp [handleRequest, Analytics.record, weigh_bump, h]) rs {} ⟨rfl, rfl⟩

theorem reported_eq : reported p rs v = rs.countP (verdict p · = v) := by
  suffices h : ∀ a : Analytics, ((final (handleRequest p) a rs).byVerdict.lookup v).getD 0 =
      (a.byVerdict.lookup v).getD 0 + rs.countP (verdict p · = v) from (h {}).trans (Nat.zero_add _)
  induction rs with
  | nil => exact fun a => rfl
  | cons r rs ih =>
    intro a
    rw [final_cons, ih, countP_cons]
    simp only [handleRequest, Analytics.record, bump, lookup_insert_if]
    by_cases hv : verdict p r = v
    · subst hv
      simp
      omega
    · simp [hv, Ne.symm hv]

theorem verdict_of_none {r : Request} (h : r.fingerprint.isNone) : verdict p r = .missed := if_pos h

/-- The verdict on a request that is not both without a fingerprint and decided. -/
theorem verdict_eq (h : r.fingerprint.isNone → undecided p r) :
    (verdict p r = .denied ↔ (evaluate p r).denied) ∧
    (verdict p r = .wouldDeny ↔ toDeny p r && !(evaluate p r).denied) ∧
    (verdict p r = .missed ↔ r.fingerprint.isNone && undecided p r) := by
  obtain ⟨hwould, hdenied, hknown⟩ := evaluate_eq p r
  unfold verdict
  cases hnone : r.fingerprint.isNone with
  | true => simp [hdenied, hwould, toDeny_of_undecided p r (h hnone), h hnone]
  | false =>
    cases hbot : (evaluate p r).knownBot with
    | true => simp_all
    | false => cases hdeny : toDeny p r <;> cases hblock : p.block <;> simp_all

/-- Two counts agree only if the stronger property is had wherever the weaker is. -/
theorem of_countP_eq {f g : α → Bool} {l : List α} (h : l.countP f = l.countP g)
    (hle : ∀ x, f x → g x) (hx : x ∈ l) (hg : g x) : f x := by
  rw [countP_eq_length_filter, countP_eq_length_filter] at h
  have hmem := mem_filter.mpr ⟨hx, hg⟩
  rw [← (monotone_filter_right l hle).eq_of_length h] at hmem
  exact (mem_filter.mp hmem).2

/-- The counts of a run add up. They report what was done exactly when every request without a
fingerprint is no exempted bot and is decided by no rule. -/
theorem analytics_report_iff (rs : List Request) :
    weigh id (run p rs).byVerdict = (run p rs).total ∧
    weigh id (run p rs).byDomain = (run p rs).total ∧
    ((reported p rs .denied = rs.countP (fun r => (evaluate p r).denied) ∧
      reported p rs .wouldDeny = rs.countP (fun r => toDeny p r && !(evaluate p r).denied) ∧
      reported p rs .missed = rs.countP (fun r => r.fingerprint.isNone && undecided p r)) ↔
      ∀ r ∈ rs, r.fingerprint.isNone → undecided p r) := by
  simp only [reported_eq]
  refine ⟨(sums_run p rs).1, (sums_run p rs).2, ?_, fun h => ⟨?_, ?_, ?_⟩⟩
  · rintro ⟨-, -, hmissed⟩ r hr hnone
    have hcounted := of_countP_eq hmissed.symm
      (fun x hx => decide_eq_true (verdict_of_none p (Bool.and_eq_true_iff.mp hx).1)) hr
      (decide_eq_true (verdict_of_none p hnone))
    exact (Bool.and_eq_true_iff.mp hcounted).2
  · exact countP_congr fun r hr => decide_eq_true_iff.trans (verdict_eq p r (h r hr)).1
  · exact countP_congr fun r hr => decide_eq_true_iff.trans (verdict_eq p r (h r hr)).2.1
  · exact countP_congr fun r hr => decide_eq_true_iff.trans (verdict_eq p r (h r hr)).2.2

/-- A client of no fingerprint is refused by its user agent, and counted as missed. -/
theorem refused_is_missed :
    let p : BotProfile := ⟨[⟨{ userAgent := some "curl", action := .deny }, some (· == "curl")⟩],
      false, fun _ => false, true⟩
    let r : Request := ⟨"a.test", none, "curl", "HTTP/2.0"⟩
    (evaluate p r).denied = true ∧ (run p [r]).byVerdict.lookup .denied = none ∧
      (run p [r]).byVerdict.lookup .missed = some 1 := by
  decide

end BotAnalytics
