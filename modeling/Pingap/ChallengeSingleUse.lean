import Pingap.ChallengeVerify

/-!
# A token is accepted once

Only taking a record out of the store accepts a stateful token, and only issuing puts
one in, so the acceptances of a token are paid for by its issues: this is the balance
`accepted_balance`, step by step, and over a run by `Trace.tally_le`. That an accepted
token was issued to the client that presents it follows from where records come from.
-/

namespace ChallengeSingleUse

open ChallengeToken ChallengeVerify Trace List
open Utf8 (Bytes)
open TokenStore hiding maxDomains maxEntries

section steps

variable {sha256 : Bytes → Bytes} {hmac : Bytes → Bytes → Bytes}
  {urlDecode : String → Option String}

/-! ## What a step may do -/

/-- A verification that accepts a stateful token has just taken it. -/
structure Takes (request : VerifyRequest) (token : String) (now : Time) (s s' : TokenStore) :
    Prop where
  present : ∃ r, s.inner.lookup token = some r ∧
    TokenStore.belongs request.domain request.identity now r = true
  gone : s'.inner.lookup token = none

variable (sha256 hmac urlDecode) in
theorem verifyStep_shrinks (challenge : Challenge) (request : VerifyRequest) (now : Time)
    (store : TokenStore) (phase : Phase) :
    Shrinks store (verifyStep sha256 hmac urlDecode challenge request now store phase).2 := by
  cases phase with
  | started =>
    simp only [verifyStep]
    split <;> exact Shrinks.refl store
  | fetched | done => exact Shrinks.refl store
  | failing token => exact incrementAttempts_shrinks store
  | removing token => exact remove_shrinks store
  | taking token record fingerprint => exact take_shrinks store

/-- What `judge` does not do: accept a stateful token. -/
theorem judge_solved (h : judge sha256 hmac urlDecode challenge request token nonce stateful now =
      .done (.solved record known fingerprint)) :
    known = false ∧ ∃ r, parseStateless hmac challenge.secret token request.domain request.identity
      now = some r := by
  simp only [judge] at h
  split at h
  · cases h
  case h_2 found hfound =>
    split at h
    · split at h <;> cases h
    split at h
    · cases h
    split at h
    · cases h
    case isFalse hnot =>
      cases h
      cases stateful with
      | some r => exact absurd rfl hnot
      | none => exact ⟨rfl, record, hfound⟩

/-- How a verification comes to accept. -/
theorem verifyStep_solved (hopen : phase ≠ .done (.solved record known fingerprint))
    (h : verifyStep sha256 hmac urlDecode challenge request now store phase =
      (.done (.solved record known fingerprint), store')) :
    (known = true ∧ Takes request phase.token now store store') ∨
      (known = false ∧ ∃ r, parseStateless hmac challenge.secret phase.token request.domain
        request.identity now = some r) := by
  cases phase with
  | started =>
    simp only [verifyStep] at h
    split at h <;> cases h
  | fetched token nonce stateful =>
    have hjudge := congrArg Prod.fst h
    exact .inr (judge_solved hjudge)
  | failing token =>
    have hphase := congrArg Prod.fst h
    simp only [verifyStep] at hphase
    split at hphase <;> cases hphase
  | removing token => cases congrArg Prod.fst h
  | taking token taken fp =>
    have hphase := congrArg Prod.fst h
    have hstore := congrArg Prod.snd h
    simp only [verifyStep] at hphase hstore
    cases htake : (store.take token request.domain request.identity now).1 with
    | none => simp [htake] at hphase
    | some r =>
      obtain ⟨hpresent, hbelongs, hgone⟩ := take_some htake
      refine .inl ⟨?_, ⟨r, hpresent, hbelongs⟩, hstore ▸ hgone⟩
      simp [htake] at hphase
      exact hphase.2.1
  | done verdict => exact absurd (congrArg Prod.fst h) hopen

variable (sha256 hmac urlDecode) in
/-- What a step does to the store, by its effect. -/
inductive Change (s s' : TokenStore) : Effect → Prop where
  | quiet : TokenStore.Shrinks s s' → Change s s' .quiet
  | drawn (draw : Draw) : TokenStore.Shrinks s s' → Change s s' (.drawn draw)
  | stored (token : String) (record : ChallengeRecord) :
      (∀ t r, s'.inner.lookup t = some r →
        (t = token ∧ r = record) ∨ (t ≠ token ∧ s.inner.lookup t = some r)) →
      Change s s' (.stored token record)
  | ended (request : VerifyRequest) (token : String) (verdict : Verdict) (now : Time) :
      TokenStore.Shrinks s s' →
      (∀ record known fingerprint, verdict = .solved record known fingerprint →
        (known = true ∧ Takes request token now s s') ∨
          (known = false ∧ ∃ secret r,
            parseStateless hmac secret token request.domain request.identity now = some r)) →
      Change s s' (.ended request token verdict now)

theorem advanceThread_change :
    Change hmac store (advanceThread sha256 hmac urlDecode now store thread).2.2
      (advanceThread sha256 hmac urlDecode now store thread).1 := by
  cases thread with
  | issuing pending =>
    have hlookup {t r} := @lookup_issue pending.token pending.record now t r store
    simp only [advanceThread]
    rcases hissue : store.issue pending.token pending.record now with ⟨answer, store'⟩
    rw [hissue] at hlookup
    cases answer with
    | ok u =>
      exact .stored _ _ fun t r hr => (hlookup hr).imp And.right (And.imp_left fun h => h rfl)
    | error e =>
      refine .quiet (shrinks_of_lookup fun t r hr => ?_)
      rcases hlookup hr with ⟨hok, -⟩ | ⟨-, hold⟩
      · cases hok
      · exact hold
  | issued answer => exact .quiet (Shrinks.refl store)
  | verifying challenge request phase =>
    have hshrinks := verifyStep_shrinks sha256 hmac urlDecode challenge request now store phase
    simp only [advanceThread]
    rcases hstep : verifyStep sha256 hmac urlDecode challenge request now store phase with
      ⟨phase', store'⟩
    rw [hstep] at hshrinks
    cases phase' with
    | done verdict =>
      by_cases hsame : phase = .done verdict
      · simp only [if_pos hsame]
        exact .quiet hshrinks
      simp only [if_neg hsame]
      refine .ended request _ verdict now hshrinks fun record known fingerprint hverdict => ?_
      subst hverdict
      exact (verifyStep_solved hsame hstep).imp id
        fun ⟨hknown, hparsed⟩ => ⟨hknown, challenge.secret, hparsed⟩
    | _ => exact .quiet hshrinks

variable (sha256 hmac urlDecode) in
theorem step_change (s : System) (e : Event) :
    Change hmac s.store (step sha256 hmac urlDecode s e).2.store
      (step sha256 hmac urlDecode s e).1 := by
  cases e with
  | issue challenge request => exact .drawn _ (Shrinks.refl s.store)
  | verify challenge request => exact .quiet (Shrinks.refl s.store)
  | advance i now =>
    simp only [step]
    split
    · exact .quiet (Shrinks.refl s.store)
    · exact advanceThread_change

/-- What a thread does to itself: it no longer issues, it draws no number, and what it
stored it was about to issue. -/
structure Advances (thread : Thread) (effect : Effect) (thread' : Thread) : Prop where
  settled : ∀ p, thread' ≠ .issuing p
  undrawn : ∀ draw, effect ≠ .drawn draw
  origin : ∀ token record, effect = .stored token record → thread = .issuing ⟨token, record⟩

variable (sha256 hmac urlDecode) in
theorem advanceThread_advances (now : Time) (store : TokenStore) (thread : Thread) :
    Advances thread (advanceThread sha256 hmac urlDecode now store thread).1
      (advanceThread sha256 hmac urlDecode now store thread).2.1 := by
  cases thread with
  | issuing pending =>
    simp only [advanceThread]
    split
    · refine ⟨by simp, by simp, fun token record h => ?_⟩
      cases h
      rfl
    · exact ⟨by simp, by simp, by simp⟩
  | issued answer => exact ⟨by simp [advanceThread], by simp [advanceThread], by simp [advanceThread]⟩
  | verifying challenge request phase =>
    simp only [advanceThread]
    split
    · split <;> exact ⟨by simp, by simp, by simp⟩
    · exact ⟨by simp, by simp, by simp⟩

/-! ## Stateful and stateless tokens -/

/-- The token is the hexadecimal text of some bytes. -/
def Hex (t : String) : Prop := ∃ bytes, t = String.ofList (Text.hexEncode bytes)

theorem hexDigit_ne_s (n : Nat) (h : n < 16) : Text.hexDigit n ≠ 's' := by
  have hall : ∀ m : Fin 16, Text.hexDigit m ≠ 's' := by decide
  exact hall ⟨n, h⟩

/-- A hexadecimal text is no stateless token. -/
theorem parseStateless_hex (h : Hex t) (secret : Bytes) (domain identity : String) (now : Time) :
    parseStateless hmac secret t domain identity now = none := by
  obtain ⟨bytes, rfl⟩ := h
  have hstrip : Text.stripStart "st.".toList (String.ofList (Text.hexEncode bytes)).toList = none := by
    rw [String.toList_ofList]
    cases bytes with
    | nil => rfl
    | cons b bytes =>
      have hne := hexDigit_ne_s (b.toNat / 16) (by have := b.toNat_lt; omega)
      simp [Text.stripStart, Text.hexEncode, isPrefixOf, hne.symm]
  simp only [parseStateless, hstrip]
  rfl

/-- Every challenge that is being issued has a hexadecimal token. -/
def HexPending (s : System) : Prop := ∀ p, Thread.issuing p ∈ s.threads → Hex p.token

theorem hexPending_step (h : HexPending s) : HexPending (step sha256 hmac urlDecode s e).2 := by
  intro p hp
  cases e with
  | issue challenge request =>
    rcases mem_append.mp hp with hold | hnew
    · exact h p hold
    · cases mem_singleton.mp hnew
      exact ⟨_, rfl⟩
  | verify challenge request =>
    rcases mem_append.mp hp with hold | hnew
    · exact h p hold
    · cases mem_singleton.mp hnew
  | advance i now =>
    simp only [step] at hp
    split at hp
    · exact h p hp
    rcases mem_or_eq_of_mem_set hp with hold | hnew
    · exact h p hold
    · exact absurd hnew.symm ((advanceThread_advances sha256 hmac urlDecode ..).settled p)

/-- What is stored was pending. -/
theorem stored_hex (h : HexPending s)
    (heffect : (step sha256 hmac urlDecode s e).1 = .stored token record) : Hex token := by
  cases e with
  | issue | verify => cases heffect
  | advance i now =>
    simp only [step] at heffect
    split at heffect
    · cases heffect
    case h_2 thread hthread =>
      have hpending := (advanceThread_advances sha256 hmac urlDecode ..).origin _ _ heffect
      exact h ⟨token, record⟩ (hpending ▸ mem_of_getElem? hthread)

theorem stored_hex_run (h : HexPending s)
    (hmem : Effect.stored token record ∈ outputs (step sha256 hmac urlDecode) s es) :
    Hex token := by
  induction es generalizing s with
  | nil => cases hmem
  | cons e es ih =>
    rcases mem_cons.mp hmem with hfirst | hrest
    · exact stored_hex h hfirst.symm
    · exact ih (hexPending_step h) hrest

/-! ## The balance of a token -/

def accepted (t : String) (_ : Event) : Effect → Nat
  | .ended _ token (.solved ..) _ => if token = t then 1 else 0
  | _ => 0

def issues (t : String) (_ : Event) : Effect → Nat
  | .stored token _ => if token = t then 1 else 0
  | _ => 0

def stock (t : String) (s : System) : Nat := if (s.store.inner.lookup t).isSome then 1 else 0

theorem stock_le_of_lookup
    (h : ∀ r, s'.store.inner.lookup t = some r → ∃ r', s.store.inner.lookup t = some r') :
    stock t s' ≤ stock t s := by
  simp only [stock]
  split
  case isTrue hsome =>
    obtain ⟨r, hr⟩ := Option.isSome_iff_exists.mp hsome
    obtain ⟨r', hr'⟩ := h r hr
    rw [hr']
    exact Nat.le_refl 1
  case isFalse => exact Nat.zero_le _

theorem stock_le_of_shrinks (h : Shrinks s.store s'.store) : stock t s' ≤ stock t s :=
  stock_le_of_lookup fun r hr => (h t r hr).imp fun _ => And.left

theorem stock_le_one (t : String) (s : System) : stock t s ≤ 1 := by
  simp only [stock]
  split <;> omega

/-- Accepting a token takes it out of the store, and issuing puts it in. -/
theorem accepted_balance (hhex : Hex t) :
    accepted t e (step sha256 hmac urlDecode s e).1 + stock t (step sha256 hmac urlDecode s e).2 ≤
      issues t e (step sha256 hmac urlDecode s e).1 + stock t s := by
  have hchange := step_change sha256 hmac urlDecode s e
  generalize step sha256 hmac urlDecode s e = out at hchange ⊢
  obtain ⟨effect, s'⟩ := out
  cases hchange with
  | quiet h | drawn _ h => simpa [accepted, issues] using stock_le_of_shrinks h
  | stored token record h =>
    simp only [accepted, issues]
    by_cases ht : token = t
    · have hone := stock_le_one t s'
      rw [if_pos ht]
      omega
    · rw [if_neg ht, Nat.zero_add, Nat.zero_add]
      refine stock_le_of_lookup fun r hr => ?_
      rcases h t r hr with ⟨heq, -⟩ | ⟨-, hold⟩
      · exact absurd heq.symm ht
      · exact ⟨r, hold⟩
  | ended request token verdict now h hsolved =>
    have hstock : stock t s' ≤ stock t s := stock_le_of_shrinks h
    have hissues : issues t e (.ended request token verdict now) = 0 := rfl
    rw [hissues, Nat.zero_add]
    cases verdict with
    | solved record known fingerprint =>
      by_cases ht : token = t
      · subst ht
        rcases hsolved _ _ _ rfl with ⟨-, htakes⟩ | ⟨-, secret, r, hparsed⟩
        · obtain ⟨r, hr, -⟩ := htakes.present
          have hgone := htakes.gone
          simp [accepted, stock, hgone, hr]
        · rw [parseStateless_hex hhex] at hparsed
          cases hparsed
      · simpa [accepted, ht] using hstock
    | _ => simpa [accepted] using hstock

/-! ## Where records come from -/

/-- The record a token was last issued with. -/
def lastIssue (t : String) (history : List Effect) : Option ChallengeRecord :=
  history.foldl (fun found effect =>
    match effect with
    | .stored token record => if token = t then some record else found
    | _ => found) none

theorem lastIssue_stored :
    lastIssue t (history ++ [.stored token record]) =
      if token = t then some record else lastIssue t history := by
  simp [lastIssue, foldl_append]

/-- Every record in the store is that of the last issue. -/
def Known (history : List Effect) (store : TokenStore) : Prop :=
  ∀ t r, store.inner.lookup t = some r →
    ∃ r₀, lastIssue t history = some r₀ ∧ TokenStore.SameTerms r₀ r

variable (sha256 hmac urlDecode) in
theorem known_step (h : Known history s.store) (e : Event) :
    Known (history ++ [(step sha256 hmac urlDecode s e).1])
      (step sha256 hmac urlDecode s e).2.store := by
  have hchange := step_change sha256 hmac urlDecode s e
  generalize step sha256 hmac urlDecode s e = out at hchange ⊢
  obtain ⟨effect, s'⟩ := out
  have hkept : Shrinks s.store s'.store → Known history s'.store := by
    intro hless t r hr
    obtain ⟨r₁, hr₁, hdomain, hidentity, hexpires⟩ := hless t r hr
    obtain ⟨r₀, hlast, hdomain', hidentity', hexpires'⟩ := h t r₁ hr₁
    exact ⟨r₀, hlast, hdomain.trans hdomain', hidentity.trans hidentity', hexpires.trans hexpires'⟩
  cases hchange with
  | quiet hless | drawn _ hless | ended _ _ _ _ hless => simpa [Known, lastIssue] using hkept hless
  | stored token record hlookup =>
    intro t r hr
    rw [lastIssue_stored]
    rcases hlookup t r hr with ⟨rfl, rfl⟩ | ⟨hne, hold⟩
    · exact ⟨r, if_pos rfl, TokenStore.SameTerms.refl r⟩
    · rw [if_neg hne.symm]
      exact h t r hold

variable (sha256 hmac urlDecode) in
theorem known_run (h : Known history s.store) (es : List Event) :
    Known (history ++ outputs (step sha256 hmac urlDecode) s es)
      (final (step sha256 hmac urlDecode) s es).store := by
  induction es generalizing history s with
  | nil => simpa [outputs] using h
  | cons e es ih =>
    have hrest := ih (known_step sha256 hmac urlDecode h e)
    rw [append_assoc] at hrest
    exact hrest

/-- An accepted token was last issued to the client that presents it, and is in time. -/
theorem accepted_known (h : Known history s.store) (hhex : Hex token)
    (heffect : (step sha256 hmac urlDecode s e).1 =
      .ended request token (.solved record known fingerprint) now) :
    ∃ r₀, lastIssue token history = some r₀ ∧ r₀.domain = request.domain ∧
      r₀.identity = request.identity ∧ now < r₀.expiresAt := by
  have hchange := step_change sha256 hmac urlDecode s e
  rw [heffect] at hchange
  cases hchange with
  | ended _ _ _ _ _ hsolved =>
    rcases hsolved _ _ _ rfl with ⟨-, htakes⟩ | ⟨-, secret, r, hparsed⟩
    · obtain ⟨r, hr, hbelongs⟩ := htakes.present
      obtain ⟨r₀, hlast, hdomain, hidentity, hexpires⟩ := h token r hr
      simp only [belongs, Bool.and_eq_true, decide_eq_true_eq, beq_iff_eq] at hbelongs
      exact ⟨r₀, hlast, hdomain.symm.trans hbelongs.1.2, hidentity.symm.trans hbelongs.2,
        hexpires ▸ hbelongs.1.1⟩
    · rw [parseStateless_hex hhex] at hparsed
      cases hparsed

/-! ## One number, one token -/

def draws (outs : List Effect) : List Draw :=
  outs.filterMap fun
    | .drawn draw => some draw
    | _ => none

variable (sha256 hmac urlDecode) in
/-- The draws of a token. -/
def drawings (t : String) (_ : Event) : Effect → Nat
  | .drawn draw => if draw.token sha256 = t then 1 else 0
  | _ => 0

def isPending (t : String) : Thread → Bool
  | .issuing pending => pending.token == t
  | _ => false

def pendings (t : String) (s : System) : Nat := s.threads.countP (isPending t)

/-- A thread that stored a token was pending, and no thread is after its step. -/
theorem Advances.pending (h : Advances thread effect thread') (t : String) (e : Event) :
    isPending t thread' = false ∧ issues t e effect ≤ if isPending t thread then 1 else 0 := by
  constructor
  · cases thread' with
    | issuing p => exact absurd rfl (h.settled p)
    | _ => rfl
  · cases effect with
    | stored token record =>
      rw [h.origin token record rfl]
      simp [issues, isPending]
    | _ => exact Nat.zero_le _

/-- A token is stored once for every time it is drawn. -/
theorem issues_balance :
    issues t e (step sha256 hmac urlDecode s e).1 + pendings t (step sha256 hmac urlDecode s e).2 ≤
      drawings sha256 t e (step sha256 hmac urlDecode s e).1 + pendings t s := by
  cases e with
  | issue challenge request =>
    simp only [step, beginIssue, issues, drawings, pendings, countP_append,
      countP_singleton, isPending, beq_iff_eq]
    omega
  | verify challenge request =>
    simp [step, issues, drawings, pendings, countP_append, isPending]
  | advance i now =>
    cases hthread : s.threads[i]? with
    | none => simp [step, hthread, issues, drawings]
    | some thread =>
      obtain ⟨hidle, hissues⟩ := (advanceThread_advances sha256 hmac urlDecode now s.store
        thread).pending t (.advance i now)
      obtain ⟨hlt, hget⟩ := List.getElem?_eq_some_iff.mp hthread
      have hcount : (if isPending t thread then 1 else 0) ≤ s.threads.countP (isPending t) := by
        split
        case isTrue hp => exact List.countP_pos_iff.mpr ⟨thread, mem_of_getElem? hthread, hp⟩
        case isFalse => exact Nat.zero_le _
      simp only [step, hthread, pendings, countP_set hlt, hidle, hget, Bool.false_eq_true, if_false]
      omega

def drawnNumber : Effect → Option Nat
  | .drawn draw => some draw.sequence
  | _ => none

/-- A step draws the next number, or none. -/
theorem step_sequence (s : System) (e : Event) :
    (drawnNumber (step sha256 hmac urlDecode s e).1 = some s.sequence ∧
      (step sha256 hmac urlDecode s e).2.sequence = (s.sequence + 1) % 2 ^ 64) ∨
    (drawnNumber (step sha256 hmac urlDecode s e).1 = none ∧
      (step sha256 hmac urlDecode s e).2.sequence = s.sequence) := by
  cases e with
  | issue challenge request => exact .inl ⟨rfl, rfl⟩
  | verify challenge request => exact .inr ⟨rfl, rfl⟩
  | advance i now =>
    refine .inr ?_
    simp only [step]
    split
    · exact ⟨rfl, rfl⟩
    case h_2 thread _ =>
      have hundrawn := (advanceThread_advances sha256 hmac urlDecode now s.store thread).undrawn
      cases heffect : (advanceThread sha256 hmac urlDecode now s.store thread).1 with
      | drawn draw => exact absurd heffect (hundrawn draw)
      | _ => simp [drawnNumber]

theorem draws_cons_drawn : draws (.drawn draw :: outs) = draw :: draws outs := rfl

theorem draws_cons_other (h : ∀ draw, o ≠ .drawn draw) (outs : List Effect) :
    draws (o :: outs) = draws outs := by
  cases o with
  | drawn draw => exact absurd rfl (h draw)
  | _ => rfl

theorem draws_append (outs outs' : List Effect) : draws (outs ++ outs') = draws outs ++ draws outs' :=
  filterMap_append

/-- Only a challenge draws a number. -/
theorem draws_of_no_issue (s : System) (es : List Event)
    (h : ∀ challenge request, Event.issue challenge request ∉ es) :
    draws (outputs (step sha256 hmac urlDecode) s es) = [] := by
  induction es generalizing s with
  | nil => rfl
  | cons e es ih =>
    have hnone : ∀ draw, (step sha256 hmac urlDecode s e).1 ≠ .drawn draw := by
      cases e with
      | issue challenge request => exact absurd mem_cons_self (h challenge request)
      | verify challenge request => exact fun draw heq => by cases heq
      | advance i now =>
        simp only [step]
        split
        · exact fun draw heq => by cases heq
        · exact (advanceThread_advances sha256 hmac urlDecode ..).undrawn
    rw [outputs, draws_cons_other hnone]
    exact ih _ fun challenge request hmem => h challenge request (mem_cons_of_mem e hmem)

theorem map_draws (outs : List Effect) :
    (draws outs).map Draw.sequence = outs.filterMap drawnNumber := by
  rw [draws, map_filterMap]
  congr 1
  funext o
  cases o <;> rfl

/-- The numbers of a run are those of the machine. -/
theorem draws_lt (hlt : s.sequence < 2 ^ 64) (es : List Event) :
    ∀ d ∈ draws (outputs (step sha256 hmac urlDecode) s es), d.sequence < 2 ^ 64 := by
  intro d hd
  have hmem := mem_map_of_mem (f := Draw.sequence) hd
  rw [map_draws] at hmem
  exact numbers_lt (step sha256 hmac urlDecode) System.sequence drawnNumber (by decide)
    step_sequence es s hlt _ hmem

/-- Fewer draws than there are numbers have different ones. -/
theorem draws_nodup (hlt : s.sequence < 2 ^ 64)
    (hfew : (draws (outputs (step sha256 hmac urlDecode) s es)).length ≤ 2 ^ 64) :
    ((draws (outputs (step sha256 hmac urlDecode) s es)).map Draw.sequence).Nodup := by
  rw [map_draws]
  refine numbers_nodup (step sha256 hmac urlDecode) System.sequence drawnNumber (by decide)
    step_sequence es s hlt ?_
  rwa [← map_draws, length_map]

variable (sha256 hmac urlDecode) in
/-- The hash tells the messages of the draws apart, and their secrets are of one length. -/
structure Distinct (ds : List Draw) : Prop where
  hashes : ∀ d ∈ ds, ∀ d' ∈ ds,
    sha256 (tokenMessage d.secret d.sequence d.target) =
      sha256 (tokenMessage d'.secret d'.sequence d'.target) →
    tokenMessage d.secret d.sequence d.target = tokenMessage d'.secret d'.sequence d'.target
  secrets : ∀ d ∈ ds, ∀ d' ∈ ds, d.secret.length = d'.secret.length

/-- Different numbers give different tokens. -/
theorem Distinct.tokens_nodup (h : Distinct sha256 ds) (hlt : ∀ d ∈ ds, d.sequence < 2 ^ 64)
    (hnumbers : (ds.map Draw.sequence).Nodup) : (ds.map (Draw.token sha256)).Nodup := by
  refine List.pairwise_map.mpr ((List.pairwise_map.mp hnumbers).imp_of_mem ?_)
  intro d d' hd hd' hne htoken
  have hencoded := String.ofList_injective htoken
  have hmessage := h.hashes d hd d' hd' (Text.hexEncode_injective hencoded)
  exact hne (sequence_of_tokenMessage (h.secrets d hd d' hd') (hlt d hd) (hlt d' hd') hmessage)

/-- The draws of a token, counted step by step or at the end. -/
theorem tally_drawings :
    tally (drawings sha256 t) (step sha256 hmac urlDecode) s es =
      ((draws (outputs (step sha256 hmac urlDecode) s es)).map (Draw.token sha256)).count t := by
  induction es generalizing s with
  | nil => rfl
  | cons e es ih =>
    simp only [tally, outputs, ih]
    cases (step sha256 hmac urlDecode s e).1 with
    | drawn draw =>
      rw [draws_cons_drawn, map_cons, count_cons, Nat.add_comm]
      simp only [drawings, beq_iff_eq]
    | _ => exact Nat.zero_add _

/-! ## Runs from the start -/

theorem hexPending_start (maxDomains maxEntries : Nat) :
    HexPending (System.start maxDomains maxEntries) := fun _ hp => absurd hp not_mem_nil

theorem known_start (maxDomains maxEntries : Nat) :
    Known [] (System.start maxDomains maxEntries).store := by
  intro t r hr
  cases hr

variable (sha256 hmac urlDecode) in
/-- Over any part of a run the acceptances of a token are paid for by its issues and by
what was in the store. -/
theorem accepted_le (hhex : Hex t) (s : System) (es : List Event) :
    tally (accepted t) (step sha256 hmac urlDecode) s es ≤
      tally (issues t) (step sha256 hmac urlDecode) s es + stock t s := by
  have hpaid := tally_le (accepted t) (issues t) (stock t) (step sha256 hmac urlDecode) es
    (fun s e _ => accepted_balance hhex) s
  omega

variable (sha256 hmac urlDecode) in
/-- A token is stored no more often than it is drawn. -/
theorem issues_le (t : String) (maxDomains maxEntries : Nat) (es : List Event) :
    tally (issues t) (step sha256 hmac urlDecode) (System.start maxDomains maxEntries) es ≤
      tally (drawings sha256 t) (step sha256 hmac urlDecode) (System.start maxDomains maxEntries)
        es := by
  have hpaid := tally_le (issues t) (drawings sha256 t) (pendings t) (step sha256 hmac urlDecode) es
    (fun s e _ => issues_balance) (System.start maxDomains maxEntries)
  have hnone : pendings t (System.start maxDomains maxEntries) = 0 := rfl
  omega

variable (sha256 hmac urlDecode) in
/-- A token is drawn once, as long as numbers and hashes last. -/
theorem drawings_le_one (t : String)
    (hfew : (draws (outputs (step sha256 hmac urlDecode) (System.start maxDomains maxEntries)
      es)).length ≤ 2 ^ 64)
    (hdistinct : Distinct sha256 (draws (outputs (step sha256 hmac urlDecode)
      (System.start maxDomains maxEntries) es))) :
    tally (drawings sha256 t) (step sha256 hmac urlDecode) (System.start maxDomains maxEntries)
      es ≤ 1 := by
  have hone : (System.start maxDomains maxEntries).sequence < 2 ^ 64 := by
    show 1 < 2 ^ 64
    omega
  rw [tally_drawings]
  exact List.nodup_iff_count_le_one.mp (hdistinct.tokens_nodup
    (draws_lt hone es) (draws_nodup hone hfew)) t

variable (sha256 hmac urlDecode) in
/-- Whatever the order of their steps, the requests that present a token of the store are
accepted no more often than it was issued, at most once between two issues of it, and each
time for the client it was last issued to and before it expires. While the hash tells the
tokens apart and the numbers last, it is issued, and so accepted, at most once in all. -/
theorem stateful_token_accepted_once (maxDomains maxEntries : Nat) (es : List Event) (t : String)
    (r : ChallengeRecord) (hstored : Effect.stored t r ∈
      outputs (step sha256 hmac urlDecode) (System.start maxDomains maxEntries) es) :
    tally (accepted t) (step sha256 hmac urlDecode) (System.start maxDomains maxEntries) es ≤
      tally (issues t) (step sha256 hmac urlDecode) (System.start maxDomains maxEntries) es ∧
    (∀ before after, es = before ++ after →
      tally (issues t) (step sha256 hmac urlDecode)
        (final (step sha256 hmac urlDecode) (System.start maxDomains maxEntries) before) after = 0 →
      tally (accepted t) (step sha256 hmac urlDecode)
        (final (step sha256 hmac urlDecode) (System.start maxDomains maxEntries) before) after ≤ 1) ∧
    (∀ before e after request record stateful fingerprint now, es = before ++ e :: after →
      (step sha256 hmac urlDecode
        (final (step sha256 hmac urlDecode) (System.start maxDomains maxEntries) before) e).1 =
          .ended request t (.solved record stateful fingerprint) now →
      ∃ r₀, lastIssue t (outputs (step sha256 hmac urlDecode)
          (System.start maxDomains maxEntries) before) = some r₀ ∧
        r₀.domain = request.domain ∧ r₀.identity = request.identity ∧ now < r₀.expiresAt) ∧
    ((draws (outputs (step sha256 hmac urlDecode) (System.start maxDomains maxEntries)
        es)).length ≤ 2 ^ 64 →
      Distinct sha256 (draws (outputs (step sha256 hmac urlDecode)
        (System.start maxDomains maxEntries) es)) →
      tally (accepted t) (step sha256 hmac urlDecode) (System.start maxDomains maxEntries) es ≤ 1) := by
  have hhex : Hex t := stored_hex_run (hexPending_start maxDomains maxEntries) hstored
  have htotal := accepted_le sha256 hmac urlDecode hhex (System.start maxDomains maxEntries) es
  have hempty : stock t (System.start maxDomains maxEntries) = 0 := rfl
  rw [hempty, Nat.add_zero] at htotal
  refine ⟨htotal, ?_, ?_, ?_⟩
  · intro before after _ hnone
    have hpart := accepted_le sha256 hmac urlDecode hhex
      (final (step sha256 hmac urlDecode) (System.start maxDomains maxEntries) before) after
    have hone := stock_le_one t
      (final (step sha256 hmac urlDecode) (System.start maxDomains maxEntries) before)
    omega
  · intro before e after request record stateful fingerprint now _ heffect
    have hknown := known_run sha256 hmac urlDecode (known_start maxDomains maxEntries) before
    exact accepted_known hknown hhex heffect
  · intro hfew hdistinct
    exact Nat.le_trans htotal (Nat.le_trans (issues_le sha256 hmac urlDecode t maxDomains maxEntries es)
      (drawings_le_one sha256 hmac urlDecode t hfew hdistinct))

end steps

/-! ## Two answers to one challenge -/

def racedToken : String := "d4c4bfa3bc4a2ac5f4968c00a99fb9b45d23c8e4440158bf8e9123502dae8bac"

def racedEntry : Challenge := { testChallenge with difficulty := 4 }

def racedAnswer : VerifyRequest where
  domain := "a.test"
  identity := "203.0.113.1"
  query := "challenge_token=" ++ racedToken ++ "&nonce=28"
  cookie := none

/-- One challenge, and two requests with its answer that go step by step side by side. -/
def race : List Event :=
  [.issue racedEntry ⟨"a.test", "203.0.113.1", "/a", 0, 0⟩, .advance 0 1,
    .verify racedEntry racedAnswer, .verify racedEntry racedAnswer,
    .advance 1 2, .advance 2 2, .advance 1 3, .advance 2 3, .advance 1 4, .advance 2 4]

def racedRecord : ChallengeRecord where
  domain := "a.test"
  identity := "203.0.113.1"
  salt := "7cc57da0477ee25bb2e14785"
  difficulty := 4
  target := "/a"
  kind := "pow"
  attempts := 0
  expiresAt := 300 * nanosPerSec

theorem outputs_race : outputs (step testDigest (fun _ _ => []) some) (System.start 8 8) race =
    [.drawn ⟨utf8 "test-secret", 1, "/a"⟩, .stored racedToken racedRecord,
      .quiet, .quiet, .quiet, .quiet, .quiet, .quiet,
      .ended racedAnswer racedToken (.solved racedRecord true none) 4,
      .ended racedAnswer racedToken .tokenConsumed 4] := by
  decide +kernel

/-- Of the two answers one is accepted, for the client of the challenge and in time. -/
theorem stateful_token_accepted_once_race :
    tally (accepted racedToken) (step testDigest (fun _ _ => []) some) (System.start 8 8) race = 1 ∧
    tally (accepted racedToken) (step testDigest (fun _ _ => []) some) (System.start 8 8) race ≤ 1 ∧
    tally (accepted racedToken) (step testDigest (fun _ _ => []) some)
      (final (step testDigest (fun _ _ => []) some) (System.start 8 8) (race.take 4)) (race.drop 4) ≤ 1 ∧
    ∃ r₀, lastIssue racedToken (outputs (step testDigest (fun _ _ => []) some) (System.start 8 8)
        (race.take 8)) = some r₀ ∧
      r₀.domain = "a.test" ∧ r₀.identity = "203.0.113.1" ∧ 4 < r₀.expiresAt := by
  have hstored : Effect.stored racedToken racedRecord ∈
      outputs (step testDigest (fun _ _ => []) some) (System.start 8 8) race := by
    rw [outputs_race]
    exact mem_cons_of_mem _ mem_cons_self
  have hdraws : draws (outputs (step testDigest (fun _ _ => []) some) (System.start 8 8) race) =
      [⟨utf8 "test-secret", 1, "/a"⟩] := by
    rw [outputs_race]
    rfl
  obtain ⟨-, hbetween, hclient, honce⟩ := stateful_token_accepted_once testDigest (fun _ _ => []) some
    8 8 race racedToken racedRecord hstored
  refine ⟨by decide +kernel, honce (by rw [hdraws]; decide) ?_, ?_, ?_⟩
  · rw [hdraws]
    constructor <;> simp
  · exact hbetween (race.take 4) (race.drop 4) rfl (by decide +kernel)
  · exact hclient (race.take 8) (.advance 1 4) (race.drop 9) racedAnswer racedRecord true none 4 rfl
      (by decide +kernel)

end ChallengeSingleUse
