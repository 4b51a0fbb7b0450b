import Pingap.WafPlugin

/-!
# A body on its way through one entry

While an entry holds a body, its buffer is what has arrived; once it has released the
body, every chunk passes through. Between the two stands one call that judges. The
run lemmas carry this from one call to a whole body, cut in any way.
-/

namespace WafBody

open WafRule WafEngine WafPlugin List
open Utf8 (Bytes)

def bytesOf (chunks : List (Option Bytes)) : Bytes := chunks.flatMap fun c => c.getD []

/-! ## What publishing leaves alone -/

/-- States that differ only in what has been told to the event queue. -/
def SameFindings (s s' : WafState) : Prop :=
  ∃ n t, s' = { s with emittedHits := n, terminalEmitted := t }

theorem SameFindings.refl (s : WafState) : SameFindings s s := ⟨s.emittedHits, s.terminalEmitted, rfl⟩

theorem publish_requestBody (now : Nat) {w : World} :
    (publish now w).ctx.requestBody = w.ctx.requestBody := by
  obtain ⟨⟨state, buffer, marker, vars, location⟩, queue⟩ := w
  cases queue <;> cases state <;> rfl

theorem publish_waf {w : World} (h : w.ctx.waf = some s) :
    ∃ s', (publish now w).ctx.waf = some s' ∧ SameFindings s s' := by
  obtain ⟨⟨state, buffer, marker, vars, location⟩, queue⟩ := w
  cases h
  cases queue with
  | none => exact ⟨s, rfl, SameFindings.refl s⟩
  | some queue => exact ⟨_, rfl, _, _, rfl⟩

/-! ## One call -/

section call

variable (urlDecode : String → Decoded) (timer : Timer (Rule RequestInput)) (now : Nat) (waf : Waf)

/-- The state of the request as the entry finds it. -/
def named (w : World) : WafState :=
  if (w.ctx.waf.getD {}).profile.isEmpty then { w.ctx.waf.getD {} with profile := waf.profile }
  else w.ctx.waf.getD {}

/-- Naming a state writes its profile only. -/
theorem named_eq (w : World) : ∃ profile, named waf w = { w.ctx.waf.getD {} with profile } := by
  simp only [named]
  split
  · exact ⟨waf.profile, rfl⟩
  · exact ⟨_, rfl⟩

theorem bodyLimit_ne_zero : waf.bodyLimit ≠ 0 := Nat.ne_of_gt waf.engine.config.limit_pos

def withBuffer (b : BodyBuffer) (w : World) : World :=
  { w with ctx := { w.ctx with requestBody := some b } }

/-- The entry has the bytes that arrived and has released none. -/
def Holding (got : Bytes) (w : World) : Prop :=
  w.ctx.requestBody.getD (BodyBuffer.new waf.bodyLimit waf.overCap) =
    ⟨waf.bodyLimit, waf.overCap, got, false, false⟩

def Released (w : World) : Prop := ∃ b, w.ctx.requestBody = some b ∧ b.released = true

theorem holding_of_fresh (w : World) (h : w.ctx.requestBody = none) : Holding waf [] w := by
  rw [Holding, h]
  rfl

theorem holding_withBuffer (got : Bytes) (w : World) :
    Holding waf got (withBuffer ⟨waf.bodyLimit, waf.overCap, got, false, false⟩ w) := rfl

/-- After its release a body is not looked at. -/
theorem handle_released (h : Released w) (body : Option Bytes) (endOfStream : Bool) :
    waf.handleRequestBody urlDecode timer now w body endOfStream = ⟨w, body, none, none⟩ := by
  obtain ⟨b, hb, hreleased⟩ := h
  obtain ⟨⟨state, buffer, marker, vars, location⟩, queue⟩ := w
  cases hb
  simp [Waf.handleRequestBody, bodyLimit_ne_zero, BodyBuffer.feed, hreleased]

/-- What one call does to a body that is held. -/
theorem handle_holding (h : Holding waf got w) (chunk : Option Bytes) (endOfStream : Bool) :
    waf.handleRequestBody urlDecode timer now w chunk endOfStream =
      if waf.bodyLimit < (got ++ chunk.getD []).length then
        if waf.overCap = .reject then
          ⟨publish now (waf.updateState (fun s => { s with blocked := true })
            (withBuffer ⟨waf.bodyLimit, waf.overCap, got ++ chunk.getD [], false, false⟩ w)),
            none, some (overCapError waf.bodyLimit), none⟩
        else
          Waf.judgeBody urlDecode timer now waf
            (withBuffer ⟨waf.bodyLimit, waf.overCap, got ++ chunk.getD [], true, true⟩ w)
            ⟨waf.bodyLimit, waf.overCap, got ++ chunk.getD [], true, true⟩ endOfStream
      else if endOfStream then
        Waf.judgeBody urlDecode timer now waf
          (withBuffer ⟨waf.bodyLimit, waf.overCap, got ++ chunk.getD [], true, false⟩ w)
          ⟨waf.bodyLimit, waf.overCap, got ++ chunk.getD [], true, false⟩ endOfStream
      else
        ⟨withBuffer ⟨waf.bodyLimit, waf.overCap, got ++ chunk.getD [], false, false⟩ w, none, none,
          none⟩ := by
  rw [Holding] at h
  simp only [Waf.handleRequestBody, if_neg (bodyLimit_ne_zero waf), h, BodyBuffer.feed,
    Bool.false_eq_true, if_false, withBuffer]
  by_cases hover : waf.bodyLimit < (got ++ chunk.getD []).length
  · by_cases hreject : waf.overCap = .reject
    · simp only [if_pos hover, if_pos hreject]
    · simp only [if_pos hover, if_neg hreject]
  · cases endOfStream with
    | true => simp only [if_neg hover, if_true]
    | false => simp only [if_neg hover, Bool.false_eq_true, if_false]

/-- What the engine is shown of a body. -/
def shown (total : Bytes) : RequestInput :=
  bodyInput (total.take waf.bodyLimit) (decide (waf.bodyLimit < total.length))

def evaluated (total : Bytes) : Evaluation RequestVerdict :=
  waf.engine.evaluateRequest urlDecode timer (shown waf total)

def released (total : Bytes) : BodyBuffer :=
  ⟨waf.bodyLimit, waf.overCap, total, true, decide (waf.bodyLimit < total.length)⟩

/-- The call that judges a body. -/
structure Judges (total : Bytes) (w : World) (s : BodyStep) : Prop where
  judged : s.judged = some ⟨shown waf total, evaluated urlDecode timer waf total⟩
  refused : s.refused =
    if (evaluated urlDecode timer waf total).verdict.isEnforcing then some bodyError else none
  body : s.body =
    if (evaluated urlDecode timer waf total).verdict.isEnforcing then none else some total
  released : Released s.world
  state : ∃ s', s.world.ctx.waf = some s' ∧
    SameFindings (Waf.absorbBody (evaluated urlDecode timer waf total) (named waf w)) s'

theorem judgeBody_judges (total : Bytes) (w : World) (endOfStream : Bool) :
    Judges urlDecode timer waf total w (Waf.judgeBody urlDecode timer now waf
      (withBuffer (released waf total) w) (released waf total) endOfStream) := by
  have hinput : bodyInput (released waf total).inspected (released waf total).truncated =
      shown waf total := by
    have htake : total.take (min total.length waf.bodyLimit) = total.take waf.bodyLimit := by
      rw [Nat.min_comm, ← take_take, take_length]
    simp only [BodyBuffer.inspected, released, shown, htake]
  have hbuffer : ∀ w' : World, w'.ctx.requestBody =
      some ((released waf total).take).2 → Released w' := fun w' h => ⟨_, h, rfl⟩
  have heval : waf.engine.evaluateRequest urlDecode timer (shown waf total) =
      evaluated urlDecode timer waf total := rfl
  simp only [Waf.judgeBody, hinput, heval]
  cases henforcing : (evaluated urlDecode timer waf total).verdict.isEnforcing with
  | true =>
    rw [if_pos rfl]
    refine ⟨rfl, by rw [henforcing]; rfl, by rw [henforcing]; rfl, hbuffer _ ?_, ?_⟩
    · exact (publish_requestBody now).trans rfl
    · exact publish_waf rfl
  | false =>
    rw [if_neg Bool.false_ne_true]
    refine ⟨rfl, by rw [henforcing]; rfl, by rw [henforcing]; rfl, hbuffer _ ?_, ?_⟩
    · cases endOfStream
      · rfl
      · exact (publish_requestBody now).trans rfl
    · cases endOfStream
      · exact ⟨_, rfl, SameFindings.refl _⟩
      · exact publish_waf rfl

def TooLarge (total : Bytes) : Prop := waf.overCap = .reject ∧ waf.bodyLimit < total.length

instance decidableTooLarge (total : Bytes) : Decidable (TooLarge waf total) :=
  inferInstanceAs (Decidable (_ ∧ _))

/-- The call that refuses a body for its size. -/
structure Rejects (w : World) (s : BodyStep) : Prop where
  judged : s.judged = none
  refused : s.refused = some (overCapError waf.bodyLimit)
  body : s.body = none
  state : ∃ s', s.world.ctx.waf = some s' ∧ SameFindings { named waf w with blocked := true } s'

/-- A call for a body that is held goes on holding it, refuses it or judges it. -/
theorem handle_cases (h : Holding waf got w) (chunk : Option Bytes) (endOfStream : Bool) :
    ((got ++ chunk.getD []).length ≤ waf.bodyLimit ∧ endOfStream = false ∧
      waf.handleRequestBody urlDecode timer now w chunk endOfStream =
        ⟨withBuffer ⟨waf.bodyLimit, waf.overCap, got ++ chunk.getD [], false, false⟩ w, none, none,
          none⟩) ∨
    (TooLarge waf (got ++ chunk.getD []) ∧
      Rejects waf w (waf.handleRequestBody urlDecode timer now w chunk endOfStream)) ∨
    (¬ TooLarge waf (got ++ chunk.getD []) ∧
      (waf.bodyLimit < (got ++ chunk.getD []).length ∨ endOfStream = true) ∧
      Judges urlDecode timer waf (got ++ chunk.getD []) w
        (waf.handleRequestBody urlDecode timer now w chunk endOfStream)) := by
  rw [handle_holding urlDecode timer now waf h]
  by_cases hover : waf.bodyLimit < (got ++ chunk.getD []).length
  · by_cases hreject : waf.overCap = .reject
    · refine .inr (.inl ⟨⟨hreject, hover⟩, ?_⟩)
      rw [if_pos hover, if_pos hreject]
      exact ⟨rfl, rfl, rfl, publish_waf rfl⟩
    · refine .inr (.inr ⟨fun hlarge => hreject hlarge.1, .inl hover, ?_⟩)
      have hjudges := judgeBody_judges urlDecode timer now waf (got ++ chunk.getD []) w endOfStream
      rw [released, decide_eq_true hover] at hjudges
      rw [if_pos hover, if_neg hreject]
      exact hjudges
  · cases endOfStream with
    | false => exact .inl ⟨Nat.le_of_not_lt hover, rfl, by rw [if_neg hover]; rfl⟩
    | true =>
      refine .inr (.inr ⟨fun hlarge => hover hlarge.2, .inr rfl, ?_⟩)
      have hjudges := judgeBody_judges urlDecode timer now waf (got ++ chunk.getD []) w true
      rw [released, decide_eq_false hover] at hjudges
      rw [if_neg hover]
      exact hjudges

end call

/-! ## A whole body -/

section run

variable (urlDecode : String → Decoded) (timer : Timer (Rule RequestInput)) (now : Nat) (waf : Waf)

/-- A run of one entry by its first call. -/
theorem runBody_cons (w : World) (chunk : Option Bytes) (endOfStream : Bool) (rest : List Chunk)
    (hs : waf.handleRequestBody urlDecode timer now w chunk endOfStream = s) :
    runBody urlDecode now [(waf, timer)] w ((chunk, endOfStream) :: rest) =
      match s.refused with
      | some err => ⟨s.world, s.body.getD [], [[⟨s.refused, s.judged⟩]], some err⟩
      | none => ⟨(runBody urlDecode now [(waf, timer)] s.world rest).world,
          s.body.getD [] ++ (runBody urlDecode now [(waf, timer)] s.world rest).forwarded,
          [⟨s.refused, s.judged⟩] :: (runBody urlDecode now [(waf, timer)] s.world rest).outcomes,
          (runBody urlDecode now [(waf, timer)] s.world rest).refused⟩ := by
  subst hs
  simp only [runBody, handleRequestBodyPlugin]
  cases hrefused : (waf.handleRequestBody urlDecode timer now w chunk endOfStream).refused <;>
    simp [Dispatch.refused]

/-- After its release the rest of a body goes through. -/
theorem run_released (h : Released w) (rest : List Chunk) :
    runBody urlDecode now [(waf, timer)] w rest =
      ⟨w, rest.flatMap fun c => c.1.getD [], rest.map fun _ => [⟨none, none⟩], none⟩ := by
  induction rest with
  | nil => rfl
  | cons c rest ih =>
    obtain ⟨chunk, endOfStream⟩ := c
    rw [runBody_cons urlDecode timer now waf w chunk endOfStream rest
      (handle_released urlDecode timer now waf h chunk endOfStream)]
    simp only [ih]
    rfl

theorem bytes_stream : ((stream chunks).flatMap fun c => c.1.getD []) = bytesOf chunks := by
  induction chunks with
  | nil => rfl
  | cons c rest ih =>
    cases rest with
    | nil => rfl
    | cons next rest => exact congrArg (c.getD [] ++ ·) ih

/-- Beyond the limit, what follows is not shown. -/
theorem shown_append (h : waf.bodyLimit < total.length) :
    shown waf (total ++ rest) = shown waf total := by
  have htake : (total ++ rest).take waf.bodyLimit = total.take waf.bodyLimit :=
    take_append_of_le_length (Nat.le_of_lt h)
  have hover : waf.bodyLimit < (total ++ rest).length := by
    rw [length_append]
    omega
  rw [shown, shown, htake, decide_eq_true h, decide_eq_true hover]

theorem TooLarge.append (h : TooLarge waf total) (rest : Bytes) : TooLarge waf (total ++ rest) := by
  refine ⟨h.1, ?_⟩
  have := h.2
  rw [length_append]
  omega

/-- How a body of one entry ends. -/
structure Settles (total : Bytes) (w : World) (r : BodyRun) : Prop where
  tooLarge : TooLarge waf total →
    r.refused = some (overCapError waf.bodyLimit) ∧ r.forwarded = [] ∧ r.judgements 0 = [] ∧
      ∃ s', r.world.ctx.waf = some s' ∧ SameFindings { named waf w with blocked := true } s'
  judged : ¬ TooLarge waf total →
    r.judgements 0 = [⟨shown waf total, evaluated urlDecode timer waf total⟩] ∧
      r.refused = (if (evaluated urlDecode timer waf total).verdict.isEnforcing
        then some bodyError else none) ∧
      r.forwarded = (if (evaluated urlDecode timer waf total).verdict.isEnforcing
        then [] else total) ∧
      ∃ s', r.world.ctx.waf = some s' ∧
        SameFindings (Waf.absorbBody (evaluated urlDecode timer waf total) (named waf w)) s'

theorem settles_of_rejects (hs : waf.handleRequestBody urlDecode timer now w chunk endOfStream = s)
    (hlarge : TooLarge waf total) (h : Rejects waf w s) (rest : List Chunk) :
    Settles urlDecode timer waf (total ++ more) w
      (runBody urlDecode now [(waf, timer)] w ((chunk, endOfStream) :: rest)) := by
  rw [runBody_cons urlDecode timer now waf w chunk endOfStream rest hs, h.refused]
  refine ⟨fun _ => ⟨rfl, ?_, ?_, h.state⟩, fun hsmall => absurd (hlarge.append waf more) hsmall⟩
  · rw [h.body]
    rfl
  · simp [BodyRun.judgements, BodyRun.column, h.judged]

/-- The call that judges settles the body; what follows passes through. -/
theorem settles_of_judges (hs : waf.handleRequestBody urlDecode timer now w chunk endOfStream = s)
    (h : Judges urlDecode timer waf total w s) (rest : List Chunk)
    (hshown : shown waf (total ++ rest.flatMap fun c => c.1.getD []) = shown waf total)
    (hsmall : ¬ TooLarge waf (total ++ rest.flatMap fun c => c.1.getD [])) :
    Settles urlDecode timer waf (total ++ rest.flatMap fun c => c.1.getD []) w
      (runBody urlDecode now [(waf, timer)] w ((chunk, endOfStream) :: rest)) := by
  have heval : evaluated urlDecode timer waf (total ++ rest.flatMap fun c => c.1.getD []) =
      evaluated urlDecode timer waf total := by rw [evaluated, evaluated, hshown]
  refine ⟨fun hlarge => absurd hlarge hsmall, fun _ => ?_⟩
  rw [runBody_cons urlDecode timer now waf w chunk endOfStream rest hs, hshown, heval, h.refused,
    run_released urlDecode timer now waf h.released rest]
  cases henforcing : (evaluated urlDecode timer waf total).verdict.isEnforcing with
  | true | false =>
    refine ⟨?_, rfl, ?_, h.state⟩
    · simp [BodyRun.judgements, BodyRun.column, h.judged]
    · simp [h.body, henforcing]

/-- A held body ends as its bytes decide, however the rest of it is cut. -/
theorem holding_run (h : Holding waf got w) (hne : chunks ≠ []) :
    Settles urlDecode timer waf (got ++ bytesOf chunks) w
      (runBody urlDecode now [(waf, timer)] w (stream chunks)) := by
  induction chunks generalizing got w with
  | nil => exact absurd rfl hne
  | cons c rest ih =>
    have hbytes : got ++ bytesOf (c :: rest) = (got ++ c.getD []) ++ bytesOf rest := by
      simp [bytesOf]
    rw [hbytes]
    cases rest with
    | nil =>
      rcases handle_cases urlDecode timer now waf h c true with
        ⟨-, hend, -⟩ | ⟨hlarge, hrejects⟩ | ⟨hsmall, -, hjudges⟩
      · cases hend
      · exact settles_of_rejects urlDecode timer now waf rfl hlarge hrejects []
      refine settles_of_judges urlDecode timer now waf rfl hjudges [] ?_ ?_
      · simp
      · simpa using hsmall
    | cons next rest =>
      rcases handle_cases urlDecode timer now waf h c false with
        ⟨-, -, hhold⟩ | ⟨hlarge, hrejects⟩ | ⟨hsmall, hover | hend, hjudges⟩
      · have hrest := ih (holding_withBuffer waf (got ++ c.getD []) w) (cons_ne_nil _ _)
        simp only [stream]
        rw [runBody_cons urlDecode timer now waf w c false _ hhold]
        exact ⟨hrest.tooLarge, hrest.judged⟩
      · exact settles_of_rejects urlDecode timer now waf rfl hlarge hrejects _
      · rw [← bytes_stream]
        refine settles_of_judges urlDecode timer now waf rfl hjudges _ (shown_append waf hover) ?_
        intro hlarge
        exact hsmall ⟨hlarge.1, hover⟩
      · cases hend

/-- As long as nothing is judged, nothing goes upstream. -/
theorem forwarded_of_unjudged (h : Holding waf got w)
    (hnone : (runBody urlDecode now [(waf, timer)] w l).judgements 0 = []) :
    (runBody urlDecode now [(waf, timer)] w l).forwarded = [] := by
  induction l generalizing got w with
  | nil => rfl
  | cons c rest ih =>
    obtain ⟨chunk, endOfStream⟩ := c
    rcases handle_cases urlDecode timer now waf h chunk endOfStream with
      ⟨-, -, hhold⟩ | ⟨-, hrejects⟩ | ⟨-, -, hjudges⟩
    · rw [runBody_cons urlDecode timer now waf w chunk endOfStream rest hhold] at hnone ⊢
      exact ih (holding_withBuffer waf (got ++ chunk.getD []) w) hnone
    · rw [runBody_cons urlDecode timer now waf w chunk endOfStream rest rfl, hrejects.refused,
        hrejects.body]
      rfl
    · rw [runBody_cons urlDecode timer now waf w chunk endOfStream rest rfl] at hnone
      cases hrefused : (waf.handleRequestBody urlDecode timer now w chunk endOfStream).refused <;>
        simp [hrefused, BodyRun.judgements, BodyRun.column, hjudges.judged] at hnone

end run

/-- A body is shown to the engine up to the limit and marked when it is longer. -/
theorem evaluated_truncated (urlDecode : String → Decoded) :
    (evaluated urlDecode timer waf total).truncated = decide (waf.bodyLimit < total.length) := by
  have hclamp : clamp (some (total.take waf.bodyLimit)) waf.engine.config.bodyInspectLimit =
      (some (total.take waf.bodyLimit), false) := by
    have hle : ¬ waf.engine.config.bodyInspectLimit < (total.take waf.bodyLimit).length :=
      Nat.not_lt.mpr (length_take_le _ _)
    simp only [clamp, if_neg hle]
  simp only [evaluated, shown, bodyInput, RuleEngine.evaluateRequest, Progress.evaluation, hclamp,
    Bool.false_or]

/-- A body through one entry, cut in any way. Nothing goes upstream before the
decision; an allowed body goes upstream byte by byte as it came, a refused one not at
all. The engine sees the bytes up to the limit, and the rest is noted, unless the body
is beyond the limit of an entry that refuses such bodies: that one is refused unseen and
unnoted. -/
theorem body_released_after_decision (urlDecode : String → Decoded)
    (timer : Timer (Rule RequestInput)) (now : Nat) (waf : Waf) (w : World)
    (hfresh : w.ctx.requestBody = none) (chunks : List (Option Bytes)) (hne : chunks ≠ []) :
    (∀ pre rest, stream chunks = pre ++ rest →
      (runBody urlDecode now [(waf, timer)] w pre).judgements 0 = [] →
      (runBody urlDecode now [(waf, timer)] w pre).forwarded = []) ∧
    ((runBody urlDecode now [(waf, timer)] w (stream chunks)).refused = none →
      (runBody urlDecode now [(waf, timer)] w (stream chunks)).forwarded = bytesOf chunks) ∧
    ((runBody urlDecode now [(waf, timer)] w (stream chunks)).refused ≠ none →
      (runBody urlDecode now [(waf, timer)] w (stream chunks)).forwarded = []) ∧
    (¬ TooLarge waf (bytesOf chunks) → ∃ j s,
      (runBody urlDecode now [(waf, timer)] w (stream chunks)).judgements 0 = [j] ∧
      j.input.body = some ((bytesOf chunks).take (min waf.bodyLimit (bytesOf chunks).length)) ∧
      j.evaluation = waf.engine.evaluateRequest urlDecode timer j.input ∧
      j.evaluation.truncated = decide (waf.bodyLimit < (bytesOf chunks).length) ∧
      (runBody urlDecode now [(waf, timer)] w (stream chunks)).refused =
        (if j.evaluation.verdict.isEnforcing then some bodyError else none) ∧
      (runBody urlDecode now [(waf, timer)] w (stream chunks)).world.ctx.waf = some s ∧
      s.truncated =
        ((w.ctx.waf.getD {}).truncated || decide (waf.bodyLimit < (bytesOf chunks).length))) ∧
    (TooLarge waf (bytesOf chunks) →
      (runBody urlDecode now [(waf, timer)] w (stream chunks)).refused =
        some (overCapError waf.bodyLimit) ∧
      (runBody urlDecode now [(waf, timer)] w (stream chunks)).judgements 0 = [] ∧
      ∃ s, (runBody urlDecode now [(waf, timer)] w (stream chunks)).world.ctx.waf = some s ∧
        s.truncated = (w.ctx.waf.getD {}).truncated) := by
  have hholding := holding_of_fresh waf w hfresh
  have hsettles := holding_run urlDecode timer now waf hholding hne
  rw [nil_append] at hsettles
  refine ⟨fun pre rest _ hnone => forwarded_of_unjudged urlDecode timer now waf hholding hnone,
    ?_, ?_, ?_, ?_⟩
  · intro hallowed
    by_cases hlarge : TooLarge waf (bytesOf chunks)
    · rw [(hsettles.tooLarge hlarge).1] at hallowed
      cases hallowed
    obtain ⟨-, hrefused, hforwarded, -⟩ := hsettles.judged hlarge
    rw [hrefused] at hallowed
    rw [hforwarded]
    split at hallowed
    · cases hallowed
    case isFalse hnot => rw [if_neg hnot]
  · intro hrefuses
    by_cases hlarge : TooLarge waf (bytesOf chunks)
    · exact (hsettles.tooLarge hlarge).2.1
    obtain ⟨-, hrefused, hforwarded, -⟩ := hsettles.judged hlarge
    rw [hrefused] at hrefuses
    rw [hforwarded]
    split at hrefuses
    case isTrue henforcing => rw [if_pos henforcing]
    case isFalse => exact absurd rfl hrefuses
  · intro hsmall
    obtain ⟨hjudged, hrefused, -, s, hs, n, t, hfindings⟩ := hsettles.judged hsmall
    refine ⟨_, s, hjudged, ?_, rfl, evaluated_truncated urlDecode, hrefused, hs, ?_⟩
    · have htake : (bytesOf chunks).take (min waf.bodyLimit (bytesOf chunks).length) =
          (bytesOf chunks).take waf.bodyLimit := by
        rw [← take_take, take_length]
      rw [htake]
      rfl
    · obtain ⟨profile, hnamed⟩ := named_eq waf w
      simp only [hfindings, Waf.absorbBody, WafState.absorb, evaluated_truncated, hnamed]
  · intro hlarge
    obtain ⟨hrefused, -, hunjudged, s, hs, n, t, hfindings⟩ := hsettles.tooLarge hlarge
    obtain ⟨profile, hnamed⟩ := named_eq waf w
    exact ⟨hrefused, hunjudged, s, hs, by rw [hfindings, hnamed]⟩

/-! ### An entry that looks at eight bytes -/

def ascii (text : String) : Bytes := text.toList.map fun c => UInt8.ofNat c.toNat

def smallEntry (overCap : OverCap) : Waf where
  engine := RuleEngine.assemble WafPrefilter.searchAll
    { ValidatedConfig.standard with
      requestModes := (∅ : KeyedMap Category RequestMode).insert .sqlInjection .block
      bodyInspectLimit := 8
      limit_pos := by decide }
    [(literalPattern 1 .sqlInjection "union").requestRule (fun _ => .borrowed) .anyField] []
  overCap := overCap

def freshWorld : World := ⟨{}, none⟩

theorem body_released_after_decision_hello :
    (runBody (fun _ => .borrowed) 0 [(smallEntry .inspectPrefix, perRule _)] freshWorld
      (stream [some (ascii "hel"), some (ascii "lo wor"), some (ascii "ld"), none])).forwarded =
        ascii "hello world" ∧
      (runBody (fun _ => .borrowed) 0 [(smallEntry .inspectPrefix, perRule _)] freshWorld
        (stream [some (ascii "a uni"), some (ascii "on")])).forwarded = [] :=
  ⟨(body_released_after_decision (fun _ => .borrowed) (perRule _) 0 (smallEntry .inspectPrefix)
      freshWorld rfl [some (ascii "hel"), some (ascii "lo wor"), some (ascii "ld"), none]
      (cons_ne_nil _ _)).2.1 (by decide +kernel),
    (body_released_after_decision (fun _ => .borrowed) (perRule _) 0 (smallEntry .inspectPrefix)
      freshWorld rfl [some (ascii "a uni"), some (ascii "on")]
      (cons_ne_nil _ _)).2.2.1 (by decide +kernel)⟩

/-- A body beyond the limit of an entry that refuses such bodies is refused without being
shown to the engine, and is not noted as truncated. -/
theorem oversized_body_refused_unseen :
    (runBody (fun _ => .borrowed) 0 [(smallEntry .reject, perRule _)] freshWorld
        (stream [some (ascii "hello wo"), some (ascii "rld")])).judgements 0 = [] ∧
      (runBody (fun _ => .borrowed) 0 [(smallEntry .reject, perRule _)] freshWorld
        (stream [some (ascii "hello wo"), some (ascii "rld")])).refused.map HttpError.status =
          some 413 ∧
      ((runBody (fun _ => .borrowed) 0 [(smallEntry .reject, perRule _)] freshWorld
        (stream [some (ascii "hello wo"), some (ascii "rld")])).world.ctx.waf.map
          WafState.truncated) = some false ∧
      (smallEntry .reject).bodyLimit < (ascii "hello world").length := by
  refine ⟨eq_nil_of_length_eq_zero ?_, ?_, ?_, ?_⟩ <;> decide +kernel

end WafBody
