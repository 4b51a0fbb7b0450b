import Pingap.ChallengeSingleUse

/-!
# A token that stands

The threads of a run only touch a token they have read, so a token that nobody has seen
is issued undisturbed. From then on its record stays as it was issued until it is taken
or removed, and only the number of attempts grows: `standing_step` and `standing_run`.
A verification of the token therefore finds it at each of its steps: `own_step`.
-/

namespace ChallengeStanding

open MachineArith ChallengeToken ChallengeVerify ChallengeSingleUse Trace List
open Utf8 (Bytes)
open TokenStore hiding maxDomains maxEntries

section standing

variable {sha256 : Bytes → Bytes} {hmac : Bytes → Bytes → Bytes}
  {urlDecode : String → Option String}

/-! ## What other threads leave alone -/

/-- A step of another thread leaves a thread where it stands. -/
theorem thread_step (h : s.threads[j]? = some thread) (hother : ∀ now, e ≠ .advance j now) :
    (step sha256 hmac urlDecode s e).2.threads[j]? = some thread := by
  have hlt : j < s.threads.length := (List.getElem?_eq_some_iff.mp h).1
  cases e with
  | issue challenge request =>
    simp only [step, beginIssue, getElem?_append_left hlt, h]
  | verify challenge request =>
    simp only [step, getElem?_append_left hlt, h]
  | advance i now =>
    have hne : i ≠ j := fun heq => hother now (heq ▸ rfl)
    simp only [step]
    split
    · exact h
    · simp only [getElem?_set_ne hne, h]

variable (sha256 hmac urlDecode) in
theorem thread_run (h : s.threads[j]? = some thread) (hother : ∀ now, Event.advance j now ∉ es) :
    (final (step sha256 hmac urlDecode) s es).threads[j]? = some thread := by
  induction es generalizing s with
  | nil => exact h
  | cons e es ih =>
    refine ih (thread_step h fun now heq => ?_) fun now hmem => ?_
    · exact hother now (heq ▸ mem_cons_self)
    · exact hother now (mem_cons_of_mem e hmem)

/-- The verification has seen a record of the token. -/
def Engaged (t : String) : Phase → Prop
  | .fetched token _ (some _) => token = t
  | .failing token => token = t
  | .removing token => token = t
  | .taking token _ _ => token = t
  | _ => False

/-- Nobody has seen the token in the store. -/
structure Unissued (t : String) (s : System) : Prop where
  absent : s.store.inner.lookup t = none
  idle : ∀ c q phase, Thread.verifying c q phase ∈ s.threads → ¬ Engaged t phase

theorem judge_engaged
    (h : Engaged t (judge sha256 hmac urlDecode challenge request token nonce stateful now)) :
    Engaged t (.fetched token nonce stateful) := by
  simp only [judge] at h
  cases stateful with
  | none =>
    split at h
    · exact h
    split at h
    · exact h
    · split at h <;> exact h
  | some record =>
    simp only [Option.some_or, Option.isSome_some, if_true] at h
    split at h
    · exact h
    split at h
    · exact h.elim
    · exact h

/-- A verification comes to see a record of the token its query names, if it is in the store. -/
theorem verifyStep_engaged
    (h : Engaged t (verifyStep sha256 hmac urlDecode challenge request now store phase).1) :
    Engaged t phase ∨
      ((readQuery request.query).1 = some t ∧
        ∃ r, store.get t request.domain request.identity now = some r) := by
  cases phase with
  | started =>
    simp only [verifyStep] at h
    split at h
    · exact h.elim
    case h_2 token hnamed =>
      cases hget : store.get token request.domain request.identity now with
      | none => simp [hget, Engaged] at h
      | some r =>
        simp only [hget, Engaged] at h
        subst h
        exact .inr ⟨hnamed, r, hget⟩
  | fetched token nonce stateful => exact .inl (judge_engaged h)
  | failing token =>
    simp only [verifyStep] at h
    split at h
    · exact .inl h
    · exact h.elim
  | removing | taking | done => exact h.elim

/-- A verification stays one, of the same request, and takes its step. -/
theorem advanceThread_verifying
    (h : (advanceThread sha256 hmac urlDecode now store thread).2.1 = .verifying c q phase) :
    ∃ phase₀, thread = .verifying c q phase₀ ∧
      phase = (verifyStep sha256 hmac urlDecode c q now store phase₀).1 := by
  cases thread with
  | issuing pending =>
    simp only [advanceThread] at h
    split at h <;> cases h
  | issued answer => cases h
  | verifying c' q' phase₀ =>
    simp only [advanceThread] at h
    split at h
    case h_1 hstep =>
      cases h
      exact ⟨phase₀, rfl, by rw [hstep]⟩
    case h_2 hstep =>
      cases h
      exact ⟨phase₀, rfl, by rw [hstep]⟩

theorem unissued_step (h : Unissued t s)
    (hother : ∀ r, (step sha256 hmac urlDecode s e).1 ≠ .stored t r) :
    Unissued t (step sha256 hmac urlDecode s e).2 where
  absent := by
    have hchange := step_change sha256 hmac urlDecode s e
    generalize step sha256 hmac urlDecode s e = out at hchange hother ⊢
    obtain ⟨effect, s'⟩ := out
    refine Option.eq_none_iff_forall_ne_some.mpr fun r hr => ?_
    have hgone : Shrinks s.store s'.store → False := fun hless => by
      obtain ⟨r', hr', -⟩ := hless t r hr
      rw [h.absent] at hr'
      cases hr'
    cases hchange with
    | quiet hless | drawn _ hless | ended _ _ _ _ hless => exact hgone hless
    | stored token record hlookup =>
      rcases hlookup t r hr with ⟨rfl, -⟩ | ⟨-, hold⟩
      · exact hother record rfl
      · rw [h.absent] at hold
        cases hold
  idle := by
    intro c q phase hmem
    cases e with
    | issue challenge request =>
      rcases mem_append.mp hmem with hold | hnew
      · exact h.idle c q phase hold
      · cases mem_singleton.mp hnew
    | verify challenge request =>
      rcases mem_append.mp hmem with hold | hnew
      · exact h.idle c q phase hold
      · cases mem_singleton.mp hnew
        exact id
    | advance i now =>
      simp only [step] at hmem
      split at hmem
      · exact h.idle c q phase hmem
      case h_2 thread hthread =>
        rcases mem_or_eq_of_mem_set hmem with hold | hnew
        · exact h.idle c q phase hold
        obtain ⟨phase₀, rfl, rfl⟩ := advanceThread_verifying hnew.symm
        intro hengaged
        rcases verifyStep_engaged hengaged with hbefore | ⟨-, r, hget⟩
        · exact h.idle c q phase₀ (mem_of_getElem? hthread) hbefore
        rw [TokenStore.get, h.absent] at hget
        cases hget

theorem unissued_run (h : Unissued t s) (es : List Event)
    (hother : ∀ r, Effect.stored t r ∉ outputs (step sha256 hmac urlDecode) s es) :
    Unissued t (final (step sha256 hmac urlDecode) s es) := by
  induction es generalizing s with
  | nil => exact h
  | cons e es ih =>
    refine ih (unissued_step h fun r heq => ?_) fun r hmem => ?_
    · exact hother r (heq ▸ mem_cons_self)
    · exact hother r (mem_cons_of_mem _ hmem)

theorem unissued_start (maxDomains maxEntries : Nat) :
    Unissued t (System.start maxDomains maxEntries) :=
  ⟨rfl, fun _ _ _ hmem => absurd hmem not_mem_nil⟩

/-! ## A token that stands -/

def failures (t : String) (_ : Event) : Effect → Nat
  | .ended _ token .proofFailed _ => if token = t then 1 else 0
  | _ => 0

/-- A count that leaves the steps of one thread out. -/
def others (j : Nat) (f : Event → Effect → Nat) : Event → Effect → Nat
  | .advance k now, o => if k = j then 0 else f (.advance k now) o
  | e, o => f e o

theorem others_of_ne (f : Event → Effect → Nat) (h : ∀ now, e ≠ .advance j now) :
    others j f e o = f e o := by
  cases e with
  | advance k now =>
    have hne : k ≠ j := fun heq => h now (heq ▸ rfl)
    exact if_neg hne
  | _ => rfl

def isRemoving (t : String) : Thread → Bool
  | .verifying _ _ (.removing token) => token == t
  | _ => false

def removals (t : String) (s : System) : Nat := s.threads.countP (isRemoving t)

/-- The record of a token stands as it was issued. As long as fewer than `limit + 1` attempts
fail, of which `budget` are left, no verification gets to remove it. -/
structure Standing (t : String) (r : ChallengeRecord) (limit budget : Nat) (s : System) :
    Prop where
  record : ∃ k, k + budget ≤ limit + removals t s ∧
    s.store.inner.lookup t = some { r with attempts := k }
  removing : 0 < removals t s → budget = 0
  named : ∀ c q phase, Thread.verifying c q phase ∈ s.threads → Engaged t phase →
    (readQuery q.query).1 = some t
  limits : ∀ c q phase, Thread.verifying c q phase ∈ s.threads → (readQuery q.query).1 = some t →
    limit < c.maxAttempts

/-- A verification that neither removes the token nor accepts it keeps its record. -/
theorem verifyStep_keeps {r : ChallengeRecord}
    (hrecord : store.inner.lookup t = some { r with attempts := k }) (hlive : now < r.expiresAt)
    (hremoving : phase ≠ .removing t) (hleft : ∀ record fp, phase = .taking t record fp →
      (store.take t q.domain q.identity now).1 = none) :
    ∃ k', (verifyStep sha256 hmac urlDecode c q now store phase).2.inner.lookup t =
        some { r with attempts := k' } ∧
      ((k' = k ∧ (verifyStep sha256 hmac urlDecode c q now store phase).1 ≠ .removing t) ∨
        (k' ≤ k + 1 ∧ phase = .failing t ∧
          (verifyStep sha256 hmac urlDecode c q now store phase).1 =
            if c.maxAttempts ≤ k' then .removing t else .done .proofFailed)) := by
  cases phase with
  | started =>
    refine ⟨k, ?_, .inl ⟨rfl, ?_⟩⟩ <;> simp only [verifyStep] <;> split <;> simp [hrecord]
  | fetched token nonce stateful =>
    refine ⟨k, hrecord, .inl ⟨rfl, ?_⟩⟩
    simp only [verifyStep, judge]
    split
    · simp
    split
    · split <;> simp
    split
    · simp
    · split <;> simp
  | failing token =>
    by_cases ht : token = t
    · subst ht
      obtain ⟨hattempts, hkept⟩ := incrementAttempts_of_some hrecord
      refine ⟨satAdd32 k 1, hkept, .inr ⟨Nat.min_le_left _ _, rfl, ?_⟩⟩
      simp only [verifyStep, hattempts, Option.getD_some]
    · have hkept := lookup_incrementAttempts_ne (s := store) (Ne.symm ht)
      refine ⟨k, hkept.trans hrecord, .inl ⟨rfl, ?_⟩⟩
      simp only [verifyStep]
      split <;> simp [ht]
  | removing token =>
    have ht : token ≠ t := fun heq => hremoving (heq ▸ rfl)
    exact ⟨k, (lookup_remove_ne ht.symm).trans hrecord, .inl ⟨rfl, by simp [verifyStep]⟩⟩
  | taking token record fingerprint =>
    refine ⟨k, ?_, .inl ⟨rfl, by simp [verifyStep]⟩⟩
    by_cases ht : token = t
    · subst ht
      exact lookup_take_of_live hrecord hlive (hleft _ _ rfl)
    · exact (lookup_take_ne (Ne.symm ht)).trans hrecord
  | done verdict => exact ⟨k, hrecord, .inl ⟨rfl, by simp [verifyStep]⟩⟩

variable (sha256 hmac urlDecode) in
/-- The step of a verification, as a step of its thread. -/
theorem advanceThread_verify (c : Challenge) (q : VerifyRequest) (phase : Phase) (now : Time)
    (store : TokenStore) :
    (advanceThread sha256 hmac urlDecode now store (.verifying c q phase)).2 =
      (.verifying c q (verifyStep sha256 hmac urlDecode c q now store phase).1,
        (verifyStep sha256 hmac urlDecode c q now store phase).2) := by
  simp only [advanceThread]
  split
  case h_1 hstep => rw [hstep]
  case h_2 hstep => rw [hstep]

theorem advanceThread_ended {phase : Phase} {now : Time} {store : TokenStore} {verdict : Verdict}
    (hopen : phase ≠ .done verdict)
    (h : (verifyStep sha256 hmac urlDecode c q now store phase).1 = .done verdict) :
    (advanceThread sha256 hmac urlDecode now store (.verifying c q phase)).1 =
      .ended q phase.token verdict now := by
  simp only [advanceThread]
  split
  case h_1 hstep =>
    rw [hstep] at h
    cases h
    exact if_neg hopen
  case h_2 hother hstep =>
    rw [hstep] at h
    exact absurd h (hother verdict)

theorem countP_set_add (p : α → Bool) {l : List α} (b : α) (h : l[i]? = some a) :
    (l.set i b).countP p + (if p a then 1 else 0) = l.countP p + if p b then 1 else 0 := by
  obtain ⟨hlt, hget⟩ := List.getElem?_eq_some_iff.mp h
  have hcount : (if p a then 1 else 0) ≤ l.countP p := by
    split
    case isTrue hp => exact List.countP_pos_iff.mpr ⟨a, mem_of_getElem? h, hp⟩
    case isFalse => exact Nat.zero_le _
  rw [countP_set hlt, hget]
  omega

/-- What the step of a thread leaves of a live token: the new count of attempts is paid for by
the failures left, and a thread that is to remove the token finds none left. -/
def Leaves (t : String) (r : ChallengeRecord) (limit budget : Nat) (s : System) (i : Nat)
    (effect : Effect) (thread' : Thread) (store' : TokenStore) : Prop :=
  ∃ k, k + (budget - failures t (.advance i 0) effect) ≤
      limit + (s.threads.set i thread').countP (isRemoving t) ∧
    store'.inner.lookup t = some { r with attempts := k } ∧
    (isRemoving t thread' = true → budget = 0)

/-- A thread that removes nothing, before or after, and keeps the record. -/
theorem Standing.leaves_same (h : Standing t r limit budget s)
    (hthread : s.threads[i]? = some thread) (hold : isRemoving t thread = false)
    (hnew : isRemoving t thread' = false)
    (hkept : ∀ k, s.store.inner.lookup t = some { r with attempts := k } →
      store'.inner.lookup t = some { r with attempts := k }) :
    Leaves t r limit budget s i effect thread' store' := by
  obtain ⟨k, hk, hlookup⟩ := h.record
  have hcount := countP_set_add (isRemoving t) thread' hthread
  rw [hold, hnew] at hcount
  rw [removals] at hk
  exact ⟨k, by omega, hkept k hlookup, fun hr => absurd hr (by simp [hnew])⟩

variable (sha256 hmac urlDecode) in
/-- A verification that neither removes nor accepts a live token leaves it. -/
theorem Standing.leaves_verifying (h : Standing t r limit budget s)
    (hthread : s.threads[i]? = some (.verifying c q phase)) (hlive : now < r.expiresAt)
    (hbudget : failures t (.advance i now)
      (advanceThread sha256 hmac urlDecode now s.store (.verifying c q phase)).1 ≤ budget)
    (haccepted : accepted t (.advance i now)
      (advanceThread sha256 hmac urlDecode now s.store (.verifying c q phase)).1 = 0) :
    Leaves t r limit budget s i
      (advanceThread sha256 hmac urlDecode now s.store (.verifying c q phase)).1
      (.verifying c q (verifyStep sha256 hmac urlDecode c q now s.store phase).1)
      (verifyStep sha256 hmac urlDecode c q now s.store phase).2 := by
  obtain ⟨k, hk, hlookup⟩ := h.record
  have hmem := mem_of_getElem? hthread
  have hremoving : phase ≠ .removing t := by
    rintro rfl
    have hnone := h.removing (List.countP_pos_iff.mpr ⟨_, hmem, by simp [isRemoving]⟩)
    have heffect := @advanceThread_ended sha256 hmac urlDecode c q (.removing t) now s.store
      .proofFailed (by simp) rfl
    simp [heffect, failures, Phase.token, hnone] at hbudget
  have hleft : ∀ record fp, phase = .taking t record fp →
      (s.store.take t q.domain q.identity now).1 = none := by
    rintro record fp rfl
    cases htake : (s.store.take t q.domain q.identity now).1 with
    | none => rfl
    | some taken =>
      have hsolved : (verifyStep sha256 hmac urlDecode c q now s.store (.taking t record fp)).1 =
          .done (.solved record true fp) := by simp [verifyStep, htake]
      have heffect := advanceThread_ended (by simp) hsolved
      simp [heffect, accepted, Phase.token] at haccepted
  have hold : isRemoving t (.verifying c q phase) = false := by
    cases phase with
    | removing token => simpa [isRemoving] using hremoving
    | _ => rfl
  have hcount := countP_set_add (isRemoving t)
    (.verifying c q (verifyStep sha256 hmac urlDecode c q now s.store phase).1) hthread
  rw [hold] at hcount
  obtain ⟨k', hlookup', ⟨rfl, hnot⟩ | ⟨hle, rfl, hphase⟩⟩ := verifyStep_keeps
    (c := c) (q := q) hlookup hlive hremoving hleft
  · -- the record is as it was
    have hnew : isRemoving t (.verifying c q
        (verifyStep sha256 hmac urlDecode c q now s.store phase).1) = false := by
      generalize (verifyStep sha256 hmac urlDecode c q now s.store phase).1 = phase' at hnot
      cases phase' with
      | removing token => simpa [isRemoving] using hnot
      | _ => rfl
    rw [hnew] at hcount
    rw [removals] at hk
    exact ⟨k', by omega, hlookup', fun hr => absurd hr (by simp [hnew])⟩
  · -- one more attempt has failed
    refine ⟨k', ?_, hlookup', fun hnew => ?_⟩
    · rw [removals] at hk
      by_cases hmax : c.maxAttempts ≤ k'
      · rw [if_pos hmax] at hphase
        simp [hphase, isRemoving] at hcount ⊢
        omega
      · rw [if_neg hmax] at hphase
        have heffect := advanceThread_ended (by simp) hphase
        simp [heffect, failures, Phase.token, hphase, isRemoving] at hbudget hcount ⊢
        omega
    · by_cases hmax : c.maxAttempts ≤ k'
      · have hlimit := h.limits c q _ hmem (h.named c q _ hmem rfl)
        by_cases hnone : 0 < removals t s
        · exact h.removing hnone
        · omega
      · rw [if_neg hmax] at hphase
        simp [hphase, isRemoving] at hnew

/-- A step of a thread leaves a live token that it neither issues nor accepts. -/
theorem Standing.leaves (h : Standing t r limit budget s) (hthread : s.threads[i]? = some thread)
    (hlive : now < r.expiresAt)
    (hadvance : advanceThread sha256 hmac urlDecode now s.store thread = (effect, thread', store'))
    (hbudget : failures t (.advance i now) effect ≤ budget)
    (haccepted : accepted t (.advance i now) effect = 0) (hother : ∀ r', effect ≠ .stored t r') :
    Leaves t r limit budget s i effect thread' store' := by
  cases thread with
  | issuing pending =>
    simp only [advanceThread] at hadvance
    split at hadvance
    case h_1 store₁ hissue =>
      cases hadvance
      have hne : t ≠ pending.token := fun heq => hother pending.record (heq ▸ rfl)
      refine h.leaves_same hthread rfl rfl fun k hlookup => ?_
      have hkept := lookup_issue_of_live _ pending.record hlookup hlive fun _ => hne
      rwa [hissue] at hkept
    case h_2 e store₁ hissue =>
      cases hadvance
      refine h.leaves_same hthread rfl rfl fun k hlookup => ?_
      have hkept := lookup_issue_of_live pending.token pending.record hlookup hlive
        (by rw [hissue]; exact fun hok => by cases hok)
      rwa [hissue] at hkept
  | issued answer =>
    cases hadvance
    exact h.leaves_same hthread rfl rfl fun k hlookup => hlookup
  | verifying c q phase =>
    have hnext := advanceThread_verify sha256 hmac urlDecode c q phase now s.store
    have hleaves := h.leaves_verifying sha256 hmac urlDecode hthread hlive
    rw [hadvance] at hnext hleaves
    obtain ⟨rfl, rfl⟩ := Prod.mk.inj hnext
    exact hleaves hbudget haccepted

variable (sha256 hmac urlDecode) in
/-- What a run leaves undisturbed: until the token expires, no more of its verifications fail
than are left, other threads do not have it accepted, and it is not issued again. -/
structure Calm (j : Nat) (t : String) (expiresAt : Time) (limit budget : Nat) (s : System)
    (es : List Event) : Prop where
  clock : ∀ k now, Event.advance k now ∈ es → now < expiresAt
  limits : ∀ c q, Event.verify c q ∈ es → (readQuery q.query).1 = some t → limit < c.maxAttempts
  failed : tally (others j (failures t)) (step sha256 hmac urlDecode) s es ≤ budget
  unused : tally (others j (accepted t)) (step sha256 hmac urlDecode) s es = 0
  unissued : ∀ r, Effect.stored t r ∉ outputs (step sha256 hmac urlDecode) s es

theorem Calm.append (es : List Event)
    (h : Calm sha256 hmac urlDecode j t expiresAt limit budget s (es ++ fs)) :
    Calm sha256 hmac urlDecode j t expiresAt limit budget s es ∧
      Calm sha256 hmac urlDecode j t expiresAt limit
        (budget - tally (others j (failures t)) (step sha256 hmac urlDecode) s es)
        (final (step sha256 hmac urlDecode) s es) fs := by
  obtain ⟨hclock, hlimits, hfailed, hunused, hunissued⟩ := h
  rw [tally_append] at hfailed hunused
  rw [outputs_append] at hunissued
  constructor
  · exact ⟨fun k now hmem => hclock k now (mem_append_left _ hmem),
      fun c q hmem => hlimits c q (mem_append_left _ hmem), by omega, by omega,
      fun r hmem => hunissued r (mem_append_left _ hmem)⟩
  · exact ⟨fun k now hmem => hclock k now (mem_append_right _ hmem),
      fun c q hmem => hlimits c q (mem_append_right _ hmem), by omega, by omega,
      fun r hmem => hunissued r (mem_append_right _ hmem)⟩

/-- A step keeps a token standing, and uses up the failures it ends with. -/
theorem standing_step (h : Standing t r limit budget s) (e : Event)
    (hclock : ∀ i now, e = .advance i now → now < r.expiresAt)
    (hlimits : ∀ c q, e = .verify c q → (readQuery q.query).1 = some t → limit < c.maxAttempts)
    (hbudget : failures t e (step sha256 hmac urlDecode s e).1 ≤ budget)
    (haccepted : accepted t e (step sha256 hmac urlDecode s e).1 = 0)
    (hother : ∀ r', (step sha256 hmac urlDecode s e).1 ≠ .stored t r') :
    Standing t r limit (budget - failures t e (step sha256 hmac urlDecode s e).1)
      (step sha256 hmac urlDecode s e).2 := by
  cases e with
  | issue challenge request =>
    refine ⟨?_, ?_, fun c q phase hmem => ?_, fun c q phase hmem => ?_⟩
    · simpa [step, beginIssue, failures, removals, isRemoving] using h.record
    · simpa [step, beginIssue, failures, removals, isRemoving] using h.removing
    · rcases mem_append.mp hmem with hold | hnew
      · exact h.named c q phase hold
      · cases mem_singleton.mp hnew
    · rcases mem_append.mp hmem with hold | hnew
      · exact h.limits c q phase hold
      · cases mem_singleton.mp hnew
  | verify challenge request =>
    refine ⟨?_, ?_, fun c q phase hmem => ?_, fun c q phase hmem => ?_⟩
    · simpa [step, failures, removals, isRemoving] using h.record
    · simpa [step, failures, removals, isRemoving] using h.removing
    · rcases mem_append.mp hmem with hold | hnew
      · exact h.named c q phase hold
      · cases mem_singleton.mp hnew
        exact fun hengaged => hengaged.elim
    · rcases mem_append.mp hmem with hold | hnew
      · exact h.limits c q phase hold
      · cases mem_singleton.mp hnew
        exact hlimits _ _ rfl
  | advance i now =>
    cases hthread : s.threads[i]? with
    | none =>
      simp only [step, hthread] at hbudget ⊢
      exact h
    | some thread =>
      rcases hadvance : advanceThread sha256 hmac urlDecode now s.store thread with
        ⟨effect, thread', store'⟩
      simp only [step, hthread, hadvance] at hbudget haccepted hother ⊢
      obtain ⟨k, hk, hlookup, hremoving⟩ := h.leaves hthread
        (hclock i now rfl) hadvance hbudget haccepted hother
      have hverifying : ∀ c q phase, thread' = .verifying c q phase → ∃ phase₀,
          Thread.verifying c q phase₀ ∈ s.threads ∧
            phase = (verifyStep sha256 hmac urlDecode c q now s.store phase₀).1 := by
        intro c q phase heq
        obtain ⟨phase₀, rfl, rfl⟩ := advanceThread_verifying (by rw [hadvance]; exact heq)
        exact ⟨phase₀, mem_of_getElem? hthread, rfl⟩
      refine ⟨⟨k, hk, hlookup⟩, fun hpos => ?_, fun c q phase hmem => ?_, fun c q phase hmem => ?_⟩
      · obtain ⟨other, hmem, hother⟩ := List.countP_pos_iff.mp hpos
        rcases mem_or_eq_of_mem_set hmem with hold | rfl
        · rw [h.removing (List.countP_pos_iff.mpr ⟨other, hold, hother⟩), Nat.zero_sub]
        · rw [hremoving hother, Nat.zero_sub]
      · rcases mem_or_eq_of_mem_set hmem with hold | hnew
        · exact h.named c q phase hold
        obtain ⟨phase₀, hold, rfl⟩ := hverifying c q phase hnew.symm
        intro hengaged
        rcases verifyStep_engaged hengaged with hbefore | ⟨hnamed, -⟩
        · exact h.named c q phase₀ hold hbefore
        · exact hnamed
      · rcases mem_or_eq_of_mem_set hmem with hold | hnew
        · exact h.limits c q phase hold
        · obtain ⟨phase₀, hold, -⟩ := hverifying c q phase hnew.symm
          exact h.limits c q phase₀ hold

theorem standing_run (h : Standing t r limit budget s) (es : List Event)
    (hapart : ∀ now, Event.advance j now ∉ es)
    (hcalm : Calm sha256 hmac urlDecode j t r.expiresAt limit budget s es) :
    Standing t r limit (budget - tally (others j (failures t)) (step sha256 hmac urlDecode) s es)
      (final (step sha256 hmac urlDecode) s es) := by
  induction es generalizing s budget with
  | nil => exact h
  | cons e es ih =>
    obtain ⟨hhead, htail⟩ := Calm.append [e] hcalm
    have hothers : ∀ f o, others j f e o = f e o := fun f o =>
      others_of_ne f fun now heq => hapart now (heq ▸ mem_cons_self)
    have hfailed := hhead.failed
    have hunused := hhead.unused
    simp only [tally, hothers, Nat.add_zero] at hfailed hunused
    have hnext := standing_step h e
      (fun i now heq => hhead.clock i now (heq ▸ mem_cons_self))
      (fun c q heq => hhead.limits c q (heq ▸ mem_cons_self)) hfailed hunused
      fun r' heq => hhead.unissued r' (heq ▸ mem_cons_self)
    simp only [tally, hothers, Nat.add_zero, final_cons, final_nil] at htail ⊢
    rw [← Nat.sub_sub]
    exact ih hnext (fun now hmem => hapart now (mem_cons_of_mem e hmem)) htail

/-! ## A verification of the token -/

theorem advanceThread_quiet
    (h : ∀ verdict, (verifyStep sha256 hmac urlDecode c q now store phase).1 ≠ .done verdict) :
    (advanceThread sha256 hmac urlDecode now store (.verifying c q phase)).1 = .quiet := by
  rw [advanceThread]
  split
  case h_1 verdict store' hstep =>
    rw [hstep] at h
    exact absurd rfl (h verdict)
  case h_2 => rfl

/-- The step of a thread that verifies. -/
theorem step_own (h : s.threads[j]? = some (.verifying c q phase)) (now : Time) :
    (step sha256 hmac urlDecode s (.advance j now)).2 = { s with
      store := (verifyStep sha256 hmac urlDecode c q now s.store phase).2
      threads := s.threads.set j
        (.verifying c q (verifyStep sha256 hmac urlDecode c q now s.store phase).1) } := by
  simp only [step, h, advanceThread_verify]

variable (sha256 hmac urlDecode) in
theorem thread_own (h : s.threads[j]? = some (.verifying c q phase)) (now : Time) :
    (step sha256 hmac urlDecode s (.advance j now)).2.threads[j]? =
      some (.verifying c q (verifyStep sha256 hmac urlDecode c q now s.store phase).1) := by
  rw [step_own h]
  exact getElem?_set_self (List.getElem?_eq_some_iff.mp h).1

/-- Up to its next step, which ends nothing, a verification finds the token standing. -/
theorem own_step (h : Standing t r limit budget s)
    (hthread : s.threads[j]? = some (.verifying c q phase))
    (hapart : ∀ now, Event.advance j now ∉ es)
    (hcalm : Calm sha256 hmac urlDecode j t r.expiresAt limit budget s (es ++ .advance j now :: fs))
    (P : Phase → Prop) (hopen : ∀ verdict, ¬ P (.done verdict))
    (hnext : ∀ store k, store.inner.lookup t = some { r with attempts := k } →
      P (verifyStep sha256 hmac urlDecode c q now store phase).1) :
    ∃ budget' s' phase', Standing t r limit budget' s' ∧ P phase' ∧
      s'.threads[j]? = some (.verifying c q phase') ∧
      Calm sha256 hmac urlDecode j t r.expiresAt limit budget' s' fs ∧
      final (step sha256 hmac urlDecode) s (es ++ .advance j now :: fs) =
        final (step sha256 hmac urlDecode) s' fs := by
  obtain ⟨hcalm₁, hcalm₂⟩ := Calm.append _ hcalm
  have hstands := standing_run h es hapart hcalm₁
  have hthread' := thread_run sha256 hmac urlDecode hthread hapart
  rw [final_append]
  generalize budget - tally (others j (failures t)) (step sha256 hmac urlDecode) s es = budget₁
    at hcalm₂ hstands
  generalize final (step sha256 hmac urlDecode) s es = s₁ at hcalm₂ hstands hthread' ⊢
  obtain ⟨hcalm₃, hcalm₄⟩ := Calm.append [.advance j now] hcalm₂
  obtain ⟨k, -, hlookup⟩ := hstands.record
  have hphase := hnext s₁.store k hlookup
  have hquiet : (step sha256 hmac urlDecode s₁ (.advance j now)).1 = .quiet := by
    simp only [step, hthread']
    exact advanceThread_quiet fun verdict heq => hopen verdict (heq ▸ hphase)
  have hnothing : ∀ f, (others j f) (.advance j now) (step sha256 hmac urlDecode s₁
      (.advance j now)).1 = 0 := fun f => if_pos rfl
  have hstep := standing_step hstands (.advance j now)
    (fun i now' heq => hcalm₃.clock i now' (heq ▸ mem_cons_self)) (fun c q heq => by cases heq)
    (by rw [hquiet]; exact Nat.zero_le _) (by rw [hquiet]; rfl) (by rw [hquiet]; simp)
  rw [hquiet] at hstep
  simp only [tally, hnothing, Nat.add_zero, Nat.sub_zero] at hcalm₄
  exact ⟨budget₁, _, _, hstep, hphase, thread_own sha256 hmac urlDecode hthread' now, hcalm₄, rfl⟩

/-! ## How a token comes to stand -/

theorem not_mem_of_tally_issues (h : tally (issues t) (step sha256 hmac urlDecode) s es = 0) :
    Effect.stored t r ∉ outputs (step sha256 hmac urlDecode) s es := by
  induction es generalizing s with
  | nil => exact not_mem_nil
  | cons e es ih =>
    rw [tally, Nat.add_eq_zero_iff] at h
    intro hmem
    rcases mem_cons.mp hmem with hfirst | hrest
    · simp [← hfirst, issues] at h
    · exact ih h.2 hrest

/-- A verification comes from a request. -/
theorem verifying_origin
    (h : Thread.verifying c q phase ∈ (final (step sha256 hmac urlDecode) s es).threads) :
    (∃ phase₀, Thread.verifying c q phase₀ ∈ s.threads) ∨ Event.verify c q ∈ es := by
  induction es generalizing s with
  | nil => exact .inl ⟨phase, h⟩
  | cons e es ih =>
    rcases ih h with ⟨phase₁, hmem⟩ | hlater
    · cases e with
      | issue challenge request =>
        rcases mem_append.mp hmem with hold | hnew
        · exact .inl ⟨phase₁, hold⟩
        · cases mem_singleton.mp hnew
      | verify challenge request =>
        rcases mem_append.mp hmem with hold | hnew
        · exact .inl ⟨phase₁, hold⟩
        · cases mem_singleton.mp hnew
          exact .inr mem_cons_self
      | advance i now =>
        simp only [step] at hmem
        split at hmem
        · exact .inl ⟨phase₁, hmem⟩
        case h_2 thread hthread =>
          rcases mem_or_eq_of_mem_set hmem with hold | hnew
          · exact .inl ⟨phase₁, hold⟩
          · obtain ⟨phase₀, rfl, -⟩ := advanceThread_verifying hnew.symm
            exact .inl ⟨phase₀, mem_of_getElem? hthread⟩
    · exact .inr (mem_cons_of_mem e hlater)

variable (sha256 hmac urlDecode) in
theorem step_issued (hthread : s.threads[i]? = some (.issuing pending))
    (hok : (s.store.issue pending.token pending.record now).1 = .ok ()) :
    step sha256 hmac urlDecode s (.advance i now) = (.stored pending.token pending.record, { s with
      store := (s.store.issue pending.token pending.record now).2
      threads := s.threads.set i (.issued (.ok ())) }) := by
  rcases hissue : s.store.issue pending.token pending.record now with ⟨answer, store'⟩
  rw [hissue] at hok
  subst hok
  simp only [step, hthread, advanceThread, hissue]

variable (sha256 hmac urlDecode) in
/-- A challenge that is stored stands. -/
theorem standing_issued (h : Unissued pending.token s)
    (hthread : s.threads[i]? = some (.issuing pending)) (hfresh : pending.record.attempts = 0)
    (hok : (s.store.issue pending.token pending.record now).1 = .ok ())
    (hlimits : ∀ c q phase, Thread.verifying c q phase ∈ s.threads →
      (readQuery q.query).1 = some pending.token → limit < c.maxAttempts) :
    Standing pending.token pending.record limit limit
      (step sha256 hmac urlDecode s (.advance i now)).2 := by
  have hlookup := lookup_issue_self hok
  rw [step_issued sha256 hmac urlDecode hthread hok]
  have hold : ∀ {c q phase}, Thread.verifying c q phase ∈ s.threads.set i (.issued (.ok ())) →
      Thread.verifying c q phase ∈ s.threads := fun hmem => by
    rcases mem_or_eq_of_mem_set hmem with hold | hnew
    · exact hold
    · cases hnew
  have hnone : (s.threads.set i (.issued (.ok ()))).countP (isRemoving pending.token) = 0 := by
    refine countP_eq_zero.mpr fun thread hmem hremoving => ?_
    cases thread with
    | verifying c q phase =>
      cases phase with
      | removing token => exact h.idle c q _ (hold hmem) (beq_iff_eq.mp hremoving)
      | _ => cases hremoving
    | _ => cases hremoving
  refine ⟨⟨0, ?_, ?_⟩, fun hpos => ?_, fun c q phase hmem => ?_, fun c q phase hmem => ?_⟩
  · rw [removals, hnone]
    omega
  · rw [← hfresh]
    exact hlookup
  · rw [removals, hnone] at hpos
    omega
  · exact fun hengaged => absurd hengaged (h.idle c q phase (hold hmem))
  · exact hlimits c q phase (hold hmem)

/-- A challenge is stored once in a run, as long as numbers and hashes last. -/
theorem stored_once (hstored : (step sha256 hmac urlDecode (final (step sha256 hmac urlDecode)
      (System.start maxDomains maxEntries) earlier) e).1 = .stored t r)
    (hfew : (draws (outputs (step sha256 hmac urlDecode) (System.start maxDomains maxEntries)
      (earlier ++ e :: later))).length ≤ 2 ^ 64)
    (hdistinct : Distinct sha256 (draws (outputs (step sha256 hmac urlDecode)
      (System.start maxDomains maxEntries) (earlier ++ e :: later)))) (r' : ChallengeRecord) :
    Effect.stored t r' ∉ outputs (step sha256 hmac urlDecode) (System.start maxDomains maxEntries)
        earlier ∧
      Effect.stored t r' ∉ outputs (step sha256 hmac urlDecode) (step sha256 hmac urlDecode
        (final (step sha256 hmac urlDecode) (System.start maxDomains maxEntries) earlier) e).2
        later := by
  have hissues := issues_le sha256 hmac urlDecode t maxDomains maxEntries (earlier ++ e :: later)
  have hdrawings := drawings_le_one sha256 hmac urlDecode t hfew hdistinct
  have hone : issues t e (.stored t r) = 1 := if_pos rfl
  rw [tally_append, tally, hstored, hone] at hissues
  exact ⟨not_mem_of_tally_issues (by omega), not_mem_of_tally_issues (by omega)⟩

end standing

end ChallengeStanding
