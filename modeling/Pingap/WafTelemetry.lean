import Pingap.Trace
import Pingap.WafPlugin

/-!
# The events of a request

One entry of the firewall is called for the request, for the chunks of its body and for
those of the response. Each call may record hits, refuse the request and publish. The
events that end up offered are compared with the findings: an event for each hit as it is
recorded, and one without a rule for a request that is refused without any hit.
-/

namespace WafTelemetry

open MachineArith WafRule WafEngine WafPlugin Trace Bool List Option
open EventQueue (WafEvent Queue)
open Utf8 (Bytes)

/-! ## Calls -/

/-- A call of the entry, with the clocks it reads. -/
inductive Call where
  | request (session : Session) (timer : Timer (Rule RequestInput)) (now : Nat)
  | requestBody (chunk : Option Bytes) (endOfStream : Bool) (timer : Timer (Rule RequestInput))
      (now : Nat)
  | upstreamResponseBody (chunk : Option Bytes) (endOfStream : Bool)
      (timer : Timer (Rule ResponseInput)) (now : Nat)
  | responseBody (chunk : Option Bytes) (endOfStream : Bool) (timer : Timer (Rule ResponseInput))
      (now : Nat)

def Call.now : Call → Nat
  | .request _ _ now | .requestBody _ _ _ now | .upstreamResponseBody _ _ _ now
  | .responseBody _ _ _ now => now

section calls

variable (urlDecode : String → Decoded) (waf : Waf)

/-- Whether the call refuses the request, and the world it leaves. -/
def perform (w : World) : Call → Bool × World
  | .request session timer now =>
    let (result, w) := waf.handleRequest urlDecode timer now .request session w
    (result matches .respond _, w)
  | .requestBody chunk endOfStream timer now =>
    let s := waf.handleRequestBody urlDecode timer now w chunk endOfStream
    (s.refused.isSome, s.world)
  | .upstreamResponseBody chunk endOfStream timer now =>
    (false, (waf.handleUpstreamResponseBody timer now w chunk endOfStream).1)
  | .responseBody chunk endOfStream timer now =>
    (false, (waf.handleResponseBody timer now w chunk endOfStream).1)

def stateOf (ctx : Ctx) : WafState := ctx.waf.getD {}

/-- The events a call should offer: its hits, or the refusal of a request without any. -/
def findings (before : Ctx) (now : Nat) (refused : Bool) (after : Ctx) : List WafEvent :=
  ((stateOf after).hits.drop (stateOf before).hits.length).map (hitEvent now (stateOf after)) ++
    if refused && (stateOf after).hits.isEmpty then [aggregateEvent now (stateOf after)] else []

/-- A call, as long as the request is not refused, with its findings. -/
def step (s : World × Bool) (c : Call) : List WafEvent × (World × Bool) :=
  if s.2 then ([], s)
  else
    let (refused, w) := perform urlDecode waf s.1 c
    (findings s.1.ctx c.now refused w.ctx, (w, refused))

/-! ## What a call comes to -/

/-- The hits a call records, and whether it refuses and publishes. -/
structure Finding where
  hits : List Hit
  refuses : Bool
  publishes : Bool

def Finding.nothing : Finding := ⟨[], false, false⟩

/-- What a hook of the response comes to: it publishes with the end of the stream, if there is a
state to publish. -/
def responseFinding (ctx : Ctx) (buffer : Option BodyBuffer) (chunk : Option Bytes)
    (endOfStream : Bool) (timer : Timer (Rule ResponseInput)) : Finding :=
  if waf.engine.config.responsePrefixLimit = 0 ∨ waf.engine.responseRules.length = 0 then
    ⟨[], false, endOfStream && ctx.waf.isSome⟩
  else
    let (feed, held) := (buffer.getD
      (BodyBuffer.new waf.engine.config.responsePrefixLimit .inspectPrefix)).feed chunk endOfStream
    if feed = .passThrough ∨ feed = .hold then ⟨[], false, endOfStream && ctx.waf.isSome⟩
    else
      ⟨(waf.engine.evaluateResponse timer {
          status := ctx.status.getD 0
          bodyChunk := some held.inspected
          bodyTruncated := held.truncated }).verdict.hits, false, endOfStream⟩

/-- What a call comes to, from what the engine says of its input. -/
def finding (ctx : Ctx) : Call → Finding
  | .request session timer _ =>
    if (waf.ipFilter.any fun rejects => rejects session.clientIp) ||
        (waf.intel.bind fun feeds => (IpText.parse session.clientIp).bind feeds).isSome then
      ⟨[], true, true⟩
    else
      let verdict := (waf.engine.evaluateRequest urlDecode timer (headerInput session)).verdict
      ⟨verdict.hits, verdict.isEnforcing && !verdict.isChallenge, true⟩
  | .requestBody chunk endOfStream timer _ =>
    if waf.bodyLimit = 0 then .nothing
    else
      let (feed, buffer) :=
        (ctx.requestBody.getD (BodyBuffer.new waf.bodyLimit waf.overCap)).feed chunk endOfStream
      if feed = .passThrough ∨ feed = .hold then .nothing
      else if feed = .reject then ⟨[], true, true⟩
      else
        let verdict := (waf.engine.evaluateRequest urlDecode timer
          (bodyInput buffer.inspected buffer.truncated)).verdict
        ⟨verdict.hits, verdict.isEnforcing, verdict.isEnforcing || endOfStream⟩
  | .upstreamResponseBody chunk endOfStream timer _ =>
    responseFinding waf ctx ctx.upstreamBody chunk endOfStream timer
  | .responseBody chunk endOfStream timer _ =>
    responseFinding waf ctx ctx.downstreamBody chunk endOfStream timer

/-- A call that publishes has hits to publish, or refuses a request that has none; and one that
has hits publishes. -/
def Accountable (ctx : Ctx) (c : Call) : Prop :=
  if (finding urlDecode waf ctx c).publishes then
    (finding urlDecode waf ctx c).hits ≠ [] ∨
      ((finding urlDecode waf ctx c).refuses = true ∧ (stateOf ctx).hits = [])
  else (finding urlDecode waf ctx c).hits = []

instance decidableAccountable (ctx : Ctx) (c : Call) :
    Decidable (Accountable urlDecode waf ctx c) :=
  inferInstanceAs (Decidable (if (finding urlDecode waf ctx c).publishes = true then _ else _))

/-! ## Publishing -/

/-- The events a state has to offer. -/
def newEvents (now : Nat) (s : WafState) : List WafEvent :=
  (s.hits.drop s.emittedHits).map (hitEvent now s) ++
    if (s.hits.drop s.emittedHits).isEmpty && !s.terminalEmitted then [aggregateEvent now s] else []

/-- The state when they have been offered. -/
def reported (s : WafState) : WafState :=
  { s with
    emittedHits := s.hits.length
    terminalEmitted := s.terminalEmitted ||
      ((s.hits.drop s.emittedHits).isEmpty && !s.terminalEmitted) }

theorem offerAll_append : offerAll (l ++ l') q = offerAll l' (offerAll l q) := foldl_append

theorem publish_eq (now : Nat) (hs : ctx.waf = some s) (q : Queue) :
    publish now ⟨ctx, some q⟩ = ⟨{ emitVerdict ctx with waf := some (reported s) },
      some (offerAll (newEvents now s) q)⟩ := by
  have hemit : (emitVerdict ctx).waf = some s := by
    rw [emitVerdict, hs]
  simp only [publish, offerNewEvents, hemit, Bool.true_and, isEmpty_map, newEvents, offerAll_append]
  split <;> rfl

/-! ## What the calls record -/

/-- Hits are recorded; the accounts of the events stay as they are. -/
structure Records (hits : List Hit) (s s' : WafState) : Prop where
  hits : s'.hits = s.hits ++ hits
  emittedHits : s'.emittedHits = s.emittedHits
  terminalEmitted : s'.terminalEmitted = s.terminalEmitted

theorem Records.refl (s : WafState) : Records [] s s := ⟨(append_nil _).symm, rfl, rfl⟩

theorem Records.trans {hits hits' : List Hit} (h : Records hits s s') (h' : Records hits' s' s'') :
    Records (hits ++ hits') s s'' :=
  ⟨by rw [h'.hits, h.hits, append_assoc], h'.emittedHits.trans h.emittedHits,
    h'.terminalEmitted.trans h.terminalEmitted⟩

theorem updateState_records (hf : ∀ s, Records hits s (f s)) (w : World) :
    Records hits (stateOf w.ctx) (stateOf (waf.updateState f w).ctx) ∧
      (waf.updateState f w).ctx.waf.isSome = true := by
  refine ⟨?_, rfl⟩
  simp only [Waf.updateState, stateOf, getD_some]
  split
  · exact ⟨(hf _).hits, (hf _).emittedHits, (hf _).terminalEmitted⟩
  · exact hf _

theorem describe_records (session : Session) (location : String) (s : WafState) :
    Records [] s (Waf.describe session location s) := ⟨(append_nil _).symm, rfl, rfl⟩

theorem absorbHeaders_records (evaluation : Evaluation RequestVerdict) (s : WafState) :
    Records evaluation.verdict.hits s (Waf.absorbHeaders evaluation s) := by
  simp only [Waf.absorbHeaders, WafState.absorb]
  split <;> exact ⟨rfl, rfl, rfl⟩

theorem absorbBody_records (evaluation : Evaluation RequestVerdict) (s : WafState) :
    Records evaluation.verdict.hits s (Waf.absorbBody evaluation s) := ⟨rfl, rfl, rfl⟩

theorem absorbResponse_records {evaluation : Evaluation ResponseVerdict}
    (s : WafState) :
    Records evaluation.verdict.hits s (Waf.absorbResponse evaluation masked s) := ⟨rfl, rfl, rfl⟩

/-- What a call does: it records its hits, and then publishes or not. -/
structure Effect (ctx : Ctx) (now : Nat) (f : Finding) (call : World → Bool × World) (ctx' : Ctx) :
    Prop where
  records : Records f.hits (stateOf ctx) (stateOf ctx')
  state : f.publishes = true → ctx'.waf.isSome = true
  call : ∀ q : Queue, call ⟨ctx, some q⟩ =
    (f.refuses, if f.publishes then publish now ⟨ctx', some q⟩ else ⟨ctx', some q⟩)

theorem request_effect :
    ∃ ctx', Effect ctx now (finding urlDecode waf ctx (.request session timer now))
      (fun w => perform urlDecode waf w (.request session timer now)) ctx' := by
  -- every path describes the request first, and then updates its state once more
  have hupdated : ∀ {hits : List Hit} {f : WafState → WafState}, (∀ s, Records hits s (f s)) →
      Records hits (stateOf ctx) (stateOf (waf.updateState f
        (waf.updateState (Waf.describe session ctx.location) ⟨ctx, none⟩)).ctx) := fun hf =>
    (updateState_records waf (describe_records session ctx.location) ⟨ctx, none⟩).1.trans
      (updateState_records waf hf _).1
  have hblocked : ∀ s : WafState, Records [] s { s with blocked := true } := fun s =>
    ⟨(append_nil _).symm, rfl, rfl⟩
  have hintelled : ∀ (found : FeedMatch) (s : WafState), Records [] s (Waf.recordIntel found s) :=
    fun found s => ⟨(append_nil _).symm, rfl, rfl⟩
  cases hip : waf.ipFilter.any fun rejects => rejects session.clientIp with
  | true =>
    have hfinding : finding urlDecode waf ctx (.request session timer now) = ⟨[], true, true⟩ := by
      simp only [finding, hip, Bool.true_or, if_true]
    rw [hfinding]
    refine ⟨_, hupdated hblocked, fun _ => rfl, fun q => ?_⟩
    simp only [perform, Waf.handleRequest, hip, ne_eq, not_true_eq_false, if_false, if_true]
    rfl
  | false =>
    cases hintel : waf.intel.bind fun feeds => (IpText.parse session.clientIp).bind feeds with
    | some found =>
      have hfinding : finding urlDecode waf ctx (.request session timer now) = ⟨[], true, true⟩ := by
        simp only [finding, hip, hintel, isSome_some, Bool.or_true, if_true]
      rw [hfinding]
      refine ⟨_, hupdated (hintelled found), fun _ => rfl, fun q => ?_⟩
      simp only [perform, Waf.handleRequest, hip, hintel, ne_eq, not_true_eq_false, if_false, if_true,
        false_eq_true]
      rfl
    | none =>
      let evaluation := waf.engine.evaluateRequest urlDecode timer (headerInput session)
      have hfinding : finding urlDecode waf ctx (.request session timer now) =
          ⟨evaluation.verdict.hits, evaluation.verdict.isEnforcing && !evaluation.verdict.isChallenge,
            true⟩ := by
        simp only [finding, hip, hintel, isSome_none, Bool.or_false, false_eq_true,
          if_false, evaluation]
      have habsorbed := hupdated (absorbHeaders_records evaluation)
      rw [hfinding]
      simp only [perform, Waf.handleRequest, hip, hintel, ne_eq, not_true_eq_false, if_false,
        false_eq_true]
      cases henforcing : evaluation.verdict.isEnforcing with
      | false =>
        refine ⟨_, habsorbed, fun _ => rfl, fun q => ?_⟩
        simp only [false_eq_true, if_false]
        rfl
      | true =>
        cases hchallenge : evaluation.verdict.isChallenge with
        | false =>
          refine ⟨_, habsorbed, fun _ => rfl, fun q => ?_⟩
          simp only [false_eq_true, if_false, if_true]
          rfl
        | true =>
          refine ⟨{ (waf.updateState (Waf.absorbHeaders evaluation) (waf.updateState
            (Waf.describe session ctx.location) ⟨ctx, none⟩)).ctx with
              challengeMarker := some { source := "waf", reason := "anomaly-threshold" } },
            habsorbed, fun _ => rfl, fun q => ?_⟩
          simp only [if_true]
          rfl

theorem requestBody_effect :
    ∃ ctx', Effect ctx now (finding urlDecode waf ctx (.requestBody chunk endOfStream timer now))
      (fun w => perform urlDecode waf w (.requestBody chunk endOfStream timer now)) ctx' := by
  by_cases hlimit : waf.bodyLimit = 0
  · have hfinding : finding urlDecode waf ctx (.requestBody chunk endOfStream timer now) =
        .nothing := by simp only [finding, hlimit, if_true]
    rw [hfinding]
    refine ⟨ctx, .refl _, nofun, fun q => ?_⟩
    simp only [perform, Waf.handleRequestBody, hlimit, if_true]
    rfl
  simp only [finding, perform, Waf.handleRequestBody, hlimit, if_false]
  cases hfeed : (ctx.requestBody.getD (BodyBuffer.new waf.bodyLimit waf.overCap)).feed chunk
      endOfStream with
  | mk feed buffer =>
    cases feed with
    | passThrough | hold =>
      exact ⟨{ ctx with requestBody := some buffer }, .refl _, nofun,
        fun q => by simp only [hfeed]; rfl⟩
    | reject =>
      refine ⟨_, (updateState_records waf (f := fun s => { s with blocked := true })
        (fun s => ⟨(append_nil _).symm, rfl, rfl⟩)
        ⟨{ ctx with requestBody := some buffer }, none⟩).1, fun _ => rfl, fun q => ?_⟩
      simp only [hfeed]
      rfl
    | release =>
      let evaluation := waf.engine.evaluateRequest urlDecode timer
        (bodyInput buffer.inspected buffer.truncated)
      have habsorbed := (updateState_records waf (absorbBody_records evaluation)
        ⟨{ ctx with requestBody := some buffer.take.2 }, none⟩).1
      refine ⟨_, habsorbed, fun _ => rfl, fun q => ?_⟩
      simp only [hfeed, Waf.judgeBody]
      cases henforcing : evaluation.verdict.isEnforcing with
      | true =>
        simp only [if_true]
        rfl
      | false =>
        simp only [false_eq_true, if_false]
        cases endOfStream <;> rfl

theorem publish_none (h : ctx.waf = none) (q : Queue) :
    publish now ⟨ctx, some q⟩ = ⟨ctx, some q⟩ := by
  simp only [publish, emitVerdict, h, offerNewEvents]

theorem judgeResponse_records (timer : Timer (Rule ResponseInput)) (ctx : Ctx) (held : BodyBuffer) :
    Records (waf.engine.evaluateResponse timer {
        status := ctx.status.getD 0
        bodyChunk := some held.inspected
        bodyTruncated := held.truncated }).verdict.hits (stateOf ctx)
      (stateOf (Waf.judgeResponse timer waf ⟨ctx, none⟩ held).1.ctx) ∧
    (Waf.judgeResponse timer waf ⟨ctx, none⟩ held).1.ctx.waf.isSome = true ∧
    ∀ q : Queue, (Waf.judgeResponse timer waf ⟨ctx, some q⟩ held).1 =
      ⟨(Waf.judgeResponse timer waf ⟨ctx, none⟩ held).1.ctx, some q⟩ :=
  ⟨(updateState_records waf absorbResponse_records ⟨ctx, none⟩).1, rfl, fun _ => rfl⟩

theorem response_effect (buffer : Ctx → Option BodyBuffer) (keep : BodyBuffer → Ctx → Ctx)
    (hkeep : ∀ held ctx, (keep held ctx).waf = ctx.waf ∧ (keep held ctx).status = ctx.status) :
    ∃ ctx', Effect ctx now (responseFinding waf ctx (buffer ctx) chunk endOfStream timer)
      (fun w => (false, (waf.handleResponseHook timer now buffer keep w chunk endOfStream).1)) ctx' := by
  -- without an evaluation the state is published as it is, if there is one
  have hquiet : ∀ ctx' : Ctx, ctx'.waf = ctx.waf → ∀ q : Queue,
      (false, if endOfStream then publish now ⟨ctx', some q⟩ else ⟨ctx', some q⟩) =
        (false, if endOfStream && ctx.waf.isSome then publish now ⟨ctx', some q⟩
          else ⟨ctx', some q⟩) := by
    intro ctx' hsame q
    cases endOfStream with
    | false => rfl
    | true =>
      cases hwaf : ctx.waf with
      | none => simp [publish_none (hsame.trans hwaf)]
      | some s => rfl
  have hrecords : ∀ ctx' : Ctx, ctx'.waf = ctx.waf → Records [] (stateOf ctx) (stateOf ctx') := by
    intro ctx' hsame
    rw [stateOf, stateOf, hsame]
    exact .refl _
  have hstate : ∀ ctx' : Ctx, ctx'.waf = ctx.waf → (endOfStream && ctx.waf.isSome) = true →
      ctx'.waf.isSome = true := by
    intro ctx' hsame h
    rw [hsame]
    exact (Bool.and_eq_true_iff.mp h).2
  by_cases hoff : waf.engine.config.responsePrefixLimit = 0 ∨ waf.engine.responseRules.length = 0
  · have hfinding : responseFinding waf ctx (buffer ctx) chunk endOfStream timer =
        ⟨[], false, endOfStream && ctx.waf.isSome⟩ := if_pos hoff
    rw [hfinding]
    refine ⟨ctx, .refl _, hstate ctx rfl, fun q => ?_⟩
    simp only [Waf.handleResponseHook, Waf.scanResponse, if_pos hoff]
    exact hquiet ctx rfl q
  cases hfeed : ((buffer ctx).getD (BodyBuffer.new waf.engine.config.responsePrefixLimit
      .inspectPrefix)).feed chunk endOfStream with
  | mk feed held =>
    simp only [responseFinding, Waf.handleResponseHook, Waf.scanResponse, if_neg hoff, hfeed]
    by_cases hfed : feed = .passThrough ∨ feed = .hold
    · rw [if_pos hfed]
      refine ⟨keep held ctx, hrecords _ (hkeep held ctx).1, hstate _ (hkeep held ctx).1, fun q => ?_⟩
      have hcall := hquiet (keep held ctx) (hkeep held ctx).1 q
      rw [hfeed]
      rcases hfed with rfl | rfl <;> exact hcall
    obtain ⟨hrecorded, hsome, hqueue⟩ := judgeResponse_records waf timer (keep held.take.2 ctx) held
    rw [if_neg hfed]
    rw [stateOf, (hkeep held.take.2 ctx).1, ← stateOf, (hkeep held.take.2 ctx).2] at hrecorded
    refine ⟨_, hrecorded, fun _ => hsome, fun q => ?_⟩
    rw [hfeed]
    cases feed with
    | passThrough => exact absurd (.inl rfl) hfed
    | hold => exact absurd (.inr rfl) hfed
    | reject | release => simp only [hqueue q]

theorem perform_effect (ctx : Ctx) (c : Call) :
    ∃ ctx', Effect ctx c.now (finding urlDecode waf ctx c) (fun w => perform urlDecode waf w c) ctx' := by
  cases c with
  | request session timer now => exact request_effect urlDecode waf
  | requestBody chunk endOfStream timer now =>
    exact requestBody_effect urlDecode waf
  | upstreamResponseBody chunk endOfStream timer now =>
    exact response_effect waf Ctx.upstreamBody (fun held ctx => { ctx with upstreamBody := held })
      (fun _ _ => ⟨rfl, rfl⟩)
  | responseBody chunk endOfStream timer now =>
    exact response_effect waf Ctx.downstreamBody
      (fun held ctx => { ctx with downstreamBody := held }) (fun _ _ => ⟨rfl, rfl⟩)

/-! ## Calls that keep their accounts -/

/-- Every hit has its event, and no event was offered without one. -/
def Settled (ctx : Ctx) : Prop :=
  (stateOf ctx).emittedHits = (stateOf ctx).hits.length ∧ (stateOf ctx).terminalEmitted = false

/-- A refusal is published. -/
theorem publishes_of_refuses (ctx : Ctx) (c : Call)
    (h : (finding urlDecode waf ctx c).refuses = true) :
    (finding urlDecode waf ctx c).publishes = true := by
  cases c with
  | request session timer now =>
    simp only [finding]
    split <;> rfl
  | requestBody chunk endOfStream timer now =>
    simp only [finding] at h ⊢
    split at h
    · cases h
    case isFalse hlimit =>
      rw [if_neg hlimit]
      split at h
      · cases h
      case isFalse hfeed =>
        rw [if_neg hfeed]
        split at h
        case isTrue hreject => rw [if_pos hreject]
        case isFalse hrelease =>
          rw [if_neg hrelease]
          exact or_eq_true_iff.mpr (.inl h)
  | upstreamResponseBody | responseBody =>
    simp only [finding, responseFinding] at h
    split at h
    · cases h
    · split at h <;> cases h

/-- The events that a call offers are its findings exactly where it is accountable. -/
theorem step_offers (ctx : Ctx) (c : Call) :
    ∃ ctx₁ offered expected,
      (∀ q : Queue, step urlDecode waf (⟨ctx, some q⟩, false) c =
        (expected, (⟨ctx₁, some (offerAll offered q)⟩, (finding urlDecode waf ctx c).refuses))) ∧
      (Settled ctx → (offered = expected ↔ Accountable urlDecode waf ctx c) ∧
        (Accountable urlDecode waf ctx c → (finding urlDecode waf ctx c).refuses = false →
          Settled ctx₁)) := by
  obtain ⟨ctx', hrecords, hstate, hcall⟩ := perform_effect urlDecode waf ctx c
  obtain ⟨hhits, hemitted, hterminal⟩ := hrecords
  have hrefuses := publishes_of_refuses urlDecode waf ctx c
  rw [Accountable]
  generalize finding urlDecode waf ctx c = f at *
  have hdrop : (stateOf ctx').hits.drop (stateOf ctx).hits.length = f.hits := by
    rw [hhits, drop_left]
  cases hpublish : f.publishes with
  | false =>
    have hallowed : f.refuses = false := eq_false_iff.mpr fun h => by
      rw [hrefuses h] at hpublish
      cases hpublish
    have hexpected : findings ctx c.now f.refuses ctx' =
        f.hits.map (hitEvent c.now (stateOf ctx')) := by
      rw [findings, hdrop, hallowed]
      exact append_nil _
    refine ⟨ctx', [], findings ctx c.now f.refuses ctx', fun q => ?_, fun hsettled => ⟨?_, ?_⟩⟩
    · simp only [step, hcall, hpublish, false_eq_true, if_false]
      rfl
    · rw [hexpected, if_neg Bool.false_ne_true, eq_comm, map_eq_nil_iff]
    · intro hnone _
      rw [if_neg Bool.false_ne_true] at hnone
      rw [Settled, hemitted, hterminal, hhits, hnone, append_nil]
      exact hsettled
  | true =>
    obtain ⟨s, hs⟩ := isSome_iff_exists.mp (hstate hpublish)
    have hsame : stateOf ctx' = s := by rw [stateOf, hs, getD_some]
    rw [hsame] at hhits hemitted hterminal hdrop
    let ctx₁ : Ctx := { emitVerdict ctx' with waf := some (reported s) }
    have hexpected : findings ctx c.now f.refuses ctx₁ = f.hits.map (hitEvent c.now s) ++
        if f.refuses && s.hits.isEmpty then [aggregateEvent c.now s] else [] := by
      rw [← hdrop]
      rfl
    refine ⟨ctx₁, newEvents c.now s, findings ctx c.now f.refuses ctx₁, fun q => ?_,
      fun hsettled => ?_⟩
    · simp only [step, hcall, hpublish, false_eq_true, if_false, if_true, publish_eq c.now hs]
      rfl
    have hnew : s.hits.drop s.emittedHits = f.hits := by
      rw [hemitted, hsettled.1, hdrop]
    have hoffered : newEvents c.now s = f.hits.map (hitEvent c.now s) ++
        if f.hits.isEmpty then [aggregateEvent c.now s] else [] := by
      rw [newEvents, hnew, hterminal, hsettled.2, Bool.not_false, Bool.and_true]
    rw [hexpected, hoffered, append_cancel_left_eq, if_pos rfl, hhits]
    cases hf : f.hits with
    | nil =>
      refine ⟨?_, fun haccountable hallowed => ?_⟩
      · cases f.refuses <;> cases (stateOf ctx).hits <;> simp
      rcases haccountable with hne | ⟨hrefused, -⟩
      · exact absurd rfl hne
      · rw [hallowed] at hrefused
        cases hrefused
    | cons hit hits =>
      refine ⟨by simp, fun _ _ => ⟨rfl, ?_⟩⟩
      show (s.terminalEmitted || ((s.hits.drop s.emittedHits).isEmpty && !s.terminalEmitted)) = false
      rw [hterminal, hsettled.2, hnew, hf]
      rfl

/-! ## Runs -/

/-- A request that has been refused is not called for any more. -/
theorem stopped_run (w : World) (calls : List Call) :
    outputs (step urlDecode waf) (w, true) calls = replicate calls.length [] ∧
      final (step urlDecode waf) (w, true) calls = (w, true) ∧
      Always (fun s c => s.2 = false → Accountable urlDecode waf s.1.ctx c) (step urlDecode waf)
        (w, true) calls := by
  induction calls with
  | nil => exact ⟨rfl, rfl, trivial⟩
  | cons c calls ih =>
    obtain ⟨houtputs, hfinal, halways⟩ := ih
    have hstep : step urlDecode waf (w, true) c = ([], (w, true)) := rfl
    refine ⟨?_, ?_, nofun, ?_⟩
    · rw [outputs, hstep, houtputs]
      rfl
    · rw [final_cons, hstep, hfinal]
    · rw [hstep]
      exact halways

/-- The events that the calls offer, one list a call, are their findings exactly where all of them
are accountable. -/
theorem run_offers (calls : List Call) (ctx : Ctx) :
    ∃ offered expected : List (List WafEvent), offered.length = calls.length ∧
      expected.length = calls.length ∧
      (∀ (q : Queue) (k : Nat),
        outputs (step urlDecode waf) (⟨ctx, some q⟩, false) (calls.take k) = expected.take k ∧
        (final (step urlDecode waf) (⟨ctx, some q⟩, false) (calls.take k)).1.queue =
          some (offerAll (offered.take k).flatten q)) ∧
      (Settled ctx → ∀ q : Queue, offered = expected ↔
        Always (fun s c => s.2 = false → Accountable urlDecode waf s.1.ctx c) (step urlDecode waf)
          (⟨ctx, some q⟩, false) calls) := by
  induction calls generalizing ctx with
  | nil => exact ⟨[], [], rfl, rfl, fun q k => by simp [outputs, offerAll], fun _ => by simp [Always]⟩
  | cons c calls ih =>
    obtain ⟨ctx₁, offered₁, expected₁, hstep, hsettles⟩ := step_offers urlDecode waf ctx c
    cases hrefuses : (finding urlDecode waf ctx c).refuses with
    | true =>
      rw [hrefuses] at hstep
      refine ⟨offered₁ :: replicate calls.length [], expected₁ :: replicate calls.length [],
        by simp, by simp, fun q k => ?_, fun hsettled q => ?_⟩
      · cases k with
        | zero => simp [outputs, offerAll]
        | succ k =>
          obtain ⟨houtputs, hfinal, -⟩ := stopped_run urlDecode waf
            ⟨ctx₁, some (offerAll offered₁ q)⟩ (calls.take k)
          simp [outputs, hstep, houtputs, hfinal]
      · rw [List.cons.injEq, (hsettles hsettled).1]
        constructor
        · rintro ⟨haccountable, -⟩
          refine ⟨fun _ => haccountable, ?_⟩
          rw [hstep q]
          exact (stopped_run urlDecode waf _ calls).2.2
        · exact fun halways => ⟨halways.1 rfl, rfl⟩
    | false =>
      rw [hrefuses] at hstep
      obtain ⟨offered, expected, hoffered, hexpected, hrun, hiff⟩ := ih ctx₁
      refine ⟨offered₁ :: offered, expected₁ :: expected, by simp [hoffered], by simp [hexpected],
        fun q k => ?_, fun hsettled q => ?_⟩
      · cases k with
        | zero => simp [outputs, offerAll]
        | succ k =>
          obtain ⟨houtputs, hfinal⟩ := hrun (offerAll offered₁ q) k
          simp [outputs, hstep, houtputs, hfinal, offerAll_append]
      rw [List.cons.injEq, (hsettles hsettled).1]
      constructor
      · rintro ⟨haccountable, hrest⟩
        have hsettled₁ := (hsettles hsettled).2 haccountable hrefuses
        refine ⟨fun _ => haccountable, ?_⟩
        rw [hstep q]
        exact (hiff hsettled₁ _).mp hrest
      · rintro ⟨haccountable, halways⟩
        have hsettled₁ := (hsettles hsettled).2 (haccountable rfl) hrefuses
        rw [hstep q] at halways
        exact ⟨haccountable rfl, (hiff hsettled₁ _).mpr halways⟩

/-- A queue with room takes the events in as they are offered. -/
theorem queue_offerAll (l : List WafEvent) (q : Queue) (h : q.queue.length + l.length ≤ q.capacity) :
    (offerAll l q).queue = q.queue ++ l.map .waf := by
  induction l generalizing q with
  | nil => exact (append_nil _).symm
  | cons e l ih =>
    rw [length_cons] at h
    have hroom : q.queue.length < q.capacity := by omega
    have hoffer : (q.offer e).2.queue = q.queue ++ [.waf e] ∧
        (q.offer e).2.capacity = q.capacity := by
      simp [Queue.offer, Queue.offerNotification, Queue.place, hroom]
    have hrest := ih (q.offer e).2 (by
      rw [hoffer.1, hoffer.2, length_append, length_singleton]
      omega)
    rw [hoffer.1, append_assoc] at hrest
    exact hrest

/-- Queues tell lists of events apart. -/
theorem offerAll_injective (h : ∀ q, offerAll l q = offerAll l' q) : l = l' := by
  let q : Queue := ⟨l.length + l'.length + 1, [], {}, Nat.succ_pos _⟩
  have hl := queue_offerAll l q (by simp only [q, length_nil]; omega)
  have hl' := queue_offerAll l' q (by simp only [q, length_nil]; omega)
  rw [h q, hl'] at hl
  exact (List.map_injective_iff.mpr (fun _ _ heq => by cases heq; rfl) hl).symm

theorem eq_of_flatten_take {l l' : List (List α)} (hlength : l.length = l'.length)
    (h : ∀ k, (l.take k).flatten = (l'.take k).flatten) : l = l' := by
  induction l generalizing l' with
  | nil => exact (List.length_eq_zero_iff.mp hlength.symm).symm
  | cons a l ih =>
    cases l' with
    | nil => cases hlength
    | cons a' l' =>
      have hhead : a = a' := by simpa using h 1
      subst hhead
      rw [ih (Nat.succ.inj hlength) fun k => by simpa using h (k + 1)]

/-- From a fresh context, the events offered are the findings after every call, whatever the queue
is, if and only if every call up to a refusal is accountable. -/
theorem events_match_findings_iff (ctx : Ctx) (hfresh : ctx.waf = none) (calls : List Call)
    (q₀ : Queue) :
    (∀ (q : Queue) (k : Nat),
      (final (step urlDecode waf) (⟨ctx, some q⟩, false) (calls.take k)).1.queue =
        some (offerAll (outputs (step urlDecode waf) (⟨ctx, some q⟩, false) (calls.take k)).flatten
          q)) ↔
    Always (fun s c => s.2 = false → Accountable urlDecode waf s.1.ctx c) (step urlDecode waf)
      (⟨ctx, some q₀⟩, false) calls := by
  obtain ⟨offered, expected, hoffered, hexpected, hrun, hiff⟩ := run_offers urlDecode waf calls ctx
  have hsettled : Settled ctx := by
    rw [Settled, stateOf, hfresh]
    exact ⟨rfl, rfl⟩
  rw [← hiff hsettled q₀]
  constructor
  · intro hexact
    refine eq_of_flatten_take (hoffered.trans hexpected.symm) fun k => offerAll_injective fun q => ?_
    obtain ⟨houtputs, hfinal⟩ := hrun q k
    have hqueue := hexact q k
    rw [houtputs, hfinal] at hqueue
    exact Option.some.inj hqueue
  · rintro rfl q k
    rw [(hrun q k).1, (hrun q k).2]

end calls

/-! ### An entry that blocks one word -/

def unionEntry : Waf where
  engine := RuleEngine.assemble WafPrefilter.searchAll
    { ValidatedConfig.standard with
      requestModes := (∅ : KeyedMap Category RequestMode).insert .sqlInjection .block }
    [(literalPattern 1 .sqlInjection "union").requestRule (fun _ => .borrowed) .anyField] []

def get (query : String) : Session where
  method := "GET"
  uri := "/?" ++ query
  path := "/"
  query := some query
  uriHost := some "a.test"
  headers := []
  clientIp := "192.0.2.7"

def emptyQueue : Queue := ⟨4, [], {}, by decide⟩

/-- The one event of a request that is blocked for its query is that of the hit. -/
theorem events_match_findings_iff_blocked :
    (final (step (fun _ => .borrowed) unionEntry) (⟨{}, some emptyQueue⟩, false)
        [.request (get "q=union") (perRule _) 0]).1.queue =
      some (offerAll (outputs (step (fun _ => .borrowed) unionEntry) (⟨{}, some emptyQueue⟩, false)
        [.request (get "q=union") (perRule _) 0]).flatten emptyQueue) :=
  (events_match_findings_iff (fun _ => .borrowed) unionEntry {} rfl
    [.request (get "q=union") (perRule _) 0] emptyQueue).mpr (by decide +kernel) emptyQueue 1

/-- A request that is allowed without a hit has an event, although there is nothing to report. -/
theorem clean_request_reported :
    (step (fun _ => .borrowed) unionEntry (⟨{}, some emptyQueue⟩, false)
        (.request (get "q=hello") (perRule _) 0)).1 = [] ∧
    (step (fun _ => .borrowed) unionEntry (⟨{}, some emptyQueue⟩, false)
        (.request (get "q=hello") (perRule _) 0)).2.2 = false ∧
    (step (fun _ => .borrowed) unionEntry (⟨{}, some emptyQueue⟩, false)
        (.request (get "q=hello") (perRule _) 0)).2.1.queue.map Queue.queue =
      some [.waf ⟨"a.test", "a.test", "default", none, none, none, 0, .detect, some "192.0.2.7",
        some "GET", some "/", 0⟩] := by
  refine ⟨?_, ?_, ?_⟩ <;> decide +kernel

end WafTelemetry
