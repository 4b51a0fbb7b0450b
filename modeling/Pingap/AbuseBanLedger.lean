import Pingap.AbuseBanPersistence
import Pingap.AbuseRegistryTurnover

/-!
# The books of the bans

Every ban is created once, under a number of its own, and is over at most once.
`Ledger` ties the bans in the cells, the index and the transitions reported so far
together; every lock hold keeps it. From it follows that no ban is reported over
twice, and that between activations and host changes the counters and the cells
add up.
-/

namespace AbuseBanLedger

open MachineArith AbuseScenario AbuseRegistry AbuseRegistryRun AbuseBanPersistence List Trace
open EventQueue (NativeKind NativeActor)

variable {sha256 : String → Digest}

/-! ## Numbers -/

theorem banId_injective (epoch : String) : Function.Injective (banId epoch) := by
  intro m n h
  have hchars := congrArg String.toList h
  simp only [banId, String.toList_append, append_assoc] at hchars
  have hdigits := append_cancel_left (append_cancel_left hchars)
  exact Text.toString_injective (String.toList_inj.mp hdigits)

section

variable (h : Numbered epoch lo hi bans)
include h

theorem nodup_ids : (bans.map Decision.id).Nodup := by
  obtain ⟨ns, hids, hsorted, -⟩ := h
  rw [hids]
  exact (hsorted.imp fun hlt => Nat.ne_of_lt hlt).map _ fun _ _ hne heq =>
    hne (banId_injective epoch heq)

theorem number_of_mem (hb : b ∈ bans) : ∃ n, b.id = banId epoch n ∧ lo < n ∧ n ≤ hi := by
  obtain ⟨ns, hids, -, hbound⟩ := h
  have hid := hids ▸ mem_map_of_mem hb
  obtain ⟨n, hn, heq⟩ := mem_map.mp hid
  exact ⟨n, heq.symm, hbound n hn⟩

theorem sequence_of_mem (hsmall : hi < 2 ^ 64) (hb : b ∈ bans) :
    ∃ n, decisionSequence b.id = some n ∧ lo < n ∧ n ≤ hi ∧ b.id = banId epoch n := by
  obtain ⟨n, hid, hlo, hhi⟩ := number_of_mem h hb
  exact ⟨n, by rw [hid]; exact decisionSequence_banId epoch (Nat.lt_of_le_of_lt hhi hsmall), hlo, hhi,
    hid⟩

/-- Two created bans with one number are one ban. -/
theorem eq_of_sequence (hsmall : hi < 2 ^ 64) (hb : b ∈ bans)
    (hb' : b' ∈ bans) (hn : decisionSequence b.id = some n) (hn' : decisionSequence b'.id = some n)
    : b = b' := by
  obtain ⟨m, hm, -, -, hid⟩ := sequence_of_mem h hsmall hb
  obtain ⟨m', hm', -, -, hid'⟩ := sequence_of_mem h hsmall hb'
  obtain rfl : m = m' := by
    rw [hn] at hm
    rw [hn'] at hm'
    exact (Option.some.inj hm).symm.trans (Option.some.inj hm')
  exact inj_on_of_nodup_map (nodup_ids h) hb hb' (hid.trans hid'.symm)

end

/-! ## The ledger -/

structure Ledger (t : Nat) (r : Registry) : Prop where
  numbered : Numbered r.epoch 0 r.sequence (made r.transitions)
  bounded : ∀ b ∈ made r.transitions, b.deadline ≤ u64Max
  balance : r.bans + (ended r.transitions : Multiset Decision) ≤ made r.transitions
  index : ∀ n a, r.index.active.lookup n = some a →
    a.decision ∈ made r.transitions ∧ decisionSequence a.decision.id = some n
  dated : r.index.Dated
  expiry : ∀ x n, (x, n) ∈ r.index.expiry → n ≤ r.sequence
  indexed : ∀ b ∈ r.bans, t < b.deadline → ∃ n a, decisionSequence b.id = some n ∧
    r.index.active.lookup n = some a ∧ a.decision = b

namespace Ledger

variable {t now : Nat} {r r' : Registry} {log : List Transition}

section

variable (h : Ledger t r)
include h

theorem mem_made (hb : b ∈ r.bans) : b ∈ made r.transitions :=
  Multiset.mem_coe.mp (Multiset.mem_of_le h.balance (Multiset.mem_add.mpr (.inl hb)))

theorem below (hsmall : r.sequence < 2 ^ 64) : r.index.Below r.sequence := fun n a ha => by
    obtain ⟨hmade, hn⟩ := h.index n a ha
    obtain ⟨m, hm, -, hle, -⟩ := sequence_of_mem h.numbered hsmall hmade
    rw [hn] at hm
    rw [Option.some.inj hm]
    exact hle

theorem numbers (hsmall : r.sequence < 2 ^ 64) (b : Decision) (hb : b ∈ r.bans) :
    (decisionSequence b.id).isSome := by
  obtain ⟨n, hn, -⟩ := sequence_of_mem h.numbered hsmall (h.mem_made hb)
  rw [hn]; rfl

section

variable (ht : Turnover now log r r')
include ht

theorem numbered_turnover : Numbered r'.epoch 0 r'.sequence (made r'.transitions) := by
  rw [ht.recorded.transitions, made_append, ht.recorded.epoch]
  exact h.numbered.append ht.recorded.numbered (Nat.zero_le _) ht.recorded.sequence

theorem balance_turnover :
    r'.bans + (ended r'.transitions : Multiset Decision) ≤ made r'.transitions := by
  rw [ht.recorded.transitions, ended_append, made_append, ← Multiset.coe_add, ← Multiset.coe_add]
  calc r'.bans + ((ended r.transitions : Multiset Decision) + ended log)
      = (r'.bans + ended log) + ended r.transitions := by
        rw [add_assoc, add_comm (ended log : Multiset Decision)]
    _ ≤ (r.bans + made log) + ended r.transitions := add_le_add_left ht.bans.le _
    _ = (r.bans + ended r.transitions) + made log := by rw [add_right_comm]
    _ ≤ made r.transitions + (made log : Multiset Decision) := add_le_add_left h.balance _

/-- A ban that is held after the step is not among those the step ended. -/
theorem not_ended (hb : b ∈ r'.bans) : b ∉ ended log := by
  intro hend
  have hnodup : (made r'.transitions).Nodup := (nodup_ids (h.numbered_turnover ht)).of_map _
  have hle := h.balance_turnover ht
  rw [ht.recorded.transitions, ended_append, ← Multiset.coe_add] at hle
  have htwice : ({b} : Multiset Decision) + {b} ≤ made r'.transitions := by
    rw [ht.recorded.transitions]
    refine le_trans ?_ hle
    exact add_le_add (Multiset.singleton_le.mpr hb)
      (le_trans (Multiset.singleton_le.mpr (Multiset.mem_coe.mpr hend)) (Multiset.le_add_left _ _))
  have hboth := Multiset.nodup_of_le htwice (Multiset.coe_nodup.mpr hnodup)
  exact Multiset.disjoint_singleton.mp (Multiset.nodup_add.mp hboth).2.2 (Multiset.mem_singleton_self b)

section

variable (hsmall : r'.sequence < 2 ^ 64)
include hsmall

theorem dated_turnover : r'.index.Dated := by
  have hsmall₀ := Nat.lt_of_le_of_lt ht.recorded.sequence hsmall
  have hnew : ∀ b ∈ made log, ∀ n, decisionSequence b.id = some n → r.sequence < n := by
    intro b hb n hn
    obtain ⟨m, hm, hlo, -, -⟩ := sequence_of_mem ht.recorded.numbered hsmall hb
    rw [hn] at hm
    rw [Option.some.inj hm]
    exact hlo
  intro x n a hx ha
  -- An old number is in both halves of the index from before, a new one in neither.
  rcases ht.recorded.index.expiry x n hx with hx | ⟨b, hb, hdeadline, hn⟩
  · rcases ht.recorded.index.found n a ha with ha | ⟨hmade, hn⟩
    · exact h.dated x n a hx ha
    · exact absurd (h.expiry x n hx) (Nat.not_le_of_lt (hnew _ hmade n hn))
  · rcases ht.recorded.index.found n a ha with ha | ⟨hmade, hn'⟩
    · exact absurd (h.below hsmall₀ n a ha) (Nat.not_le_of_lt (hnew b hb n hn))
    · rw [eq_of_sequence ht.recorded.numbered hsmall hmade hb hn' hn, hdeadline]

theorem expiry_turnover (x n : Nat)
    (hx : (x, n) ∈ r'.index.expiry) :
    n ≤ r'.sequence := by
  rcases ht.recorded.index.expiry x n hx with hx | ⟨b, hb, -, hn⟩
  · exact Nat.le_trans (h.expiry x n hx) ht.recorded.sequence
  obtain ⟨m, hm, -, hhi, -⟩ := sequence_of_mem ht.recorded.numbered hsmall hb
  rw [hn] at hm
  rw [Option.some.inj hm]
  exact hhi

theorem indexed_turnover (hle : t ≤ now) (b : Decision)
    (hb : b ∈ r'.bans)
    (hrun : now < b.deadline) : ∃ n a, decisionSequence b.id = some n ∧
      r'.index.active.lookup n = some a ∧ a.decision = b := by
  have hnumbered := h.numbered_turnover ht
  have hall : ∀ b', b' ∈ r'.bans ∨ b' ∈ ended log → b' ∈ made r'.transitions := by
    intro b' hb'
    have hmem : b' ∈ r'.bans + (ended r'.transitions : Multiset Decision) := by
      rw [ht.recorded.transitions, ended_append]
      simp only [Multiset.mem_add, Multiset.mem_coe, mem_append]
      exact hb'.imp id .inr
    exact Multiset.mem_coe.mp (Multiset.mem_of_le (h.balance_turnover ht) hmem)
  have hkept : ∀ n, decisionSequence b.id = some n → ¬ Named (ended log) n := by
    rintro n hn ⟨b', hb', hn'⟩
    have heq := eq_of_sequence hnumbered hsmall (hall b (.inl hb)) (hall b' (.inr hb')) hn hn'
    exact h.not_ended ht hb (heq ▸ hb')
  have hbefore := Multiset.mem_of_le ht.bans.le (Multiset.mem_add.mpr (.inl hb))
  rcases Multiset.mem_add.mp hbefore with hold | hnew
  · obtain ⟨n, a, hn, ha, hab⟩ := h.indexed b hold (Nat.lt_of_le_of_lt hle hrun)
    rcases ht.recorded.index.kept n a ha with ha | hend | hdue
    · exact ⟨n, a, hn, ha, hab⟩
    · exact absurd hend (hkept n hn)
    · rw [hab] at hdue
      exact absurd hdue (Nat.not_le_of_lt hrun)
  · obtain ⟨n, hn, -⟩ := sequence_of_mem ht.recorded.numbered hsmall (Multiset.mem_coe.mp hnew)
    rcases ht.recorded.index.entered b (Multiset.mem_coe.mp hnew) n hn with ⟨a, ha, hab⟩ | hend | hdue
    · exact ⟨n, a, hn, ha, hab⟩
    · exact absurd hend (hkept n hn)
    · exact absurd hdue (Nat.not_le_of_lt hrun)

/-- An operation that reports what it does keeps the books. -/
theorem turnover (hle : t ≤ now) : Ledger now r' where
  numbered := h.numbered_turnover ht
  bounded := fun b hb => by
    rw [ht.recorded.transitions, made_append, mem_append] at hb
    exact hb.elim (h.bounded b) (ht.recorded.bounded b)
  balance := h.balance_turnover ht
  index := fun n a ha => by
    rw [ht.recorded.transitions, made_append, mem_append]
    rcases ht.recorded.index.found n a ha with ha | ⟨hmade, hn⟩
    · exact ⟨.inl (h.index n a ha).1, (h.index n a ha).2⟩
    · exact ⟨.inr hmade, hn⟩
  dated := h.dated_turnover ht hsmall
  expiry := h.expiry_turnover ht hsmall
  indexed := h.indexed_turnover ht hsmall hle

end

end

/-- So does one that makes the index anew. -/
theorem rebuilt (hr : Rebuilt now r r') (hsmall : r.sequence < 2 ^ 64) : Ledger now r' := by
  have hmade : ∀ b ∈ r'.bans, b ∈ made r.transitions := fun b hb =>
    h.mem_made (Multiset.mem_of_le hr.bans hb)
  have hfound : ∀ n a, r'.index.active.lookup n = some a →
      a.decision ∈ r'.bans ∧ decisionSequence a.decision.id = some n := fun n a ha => by
    rw [hr.index] at ha
    exact rebuild_found hr.lasting ha
  have hexpiry : ∀ x n, (x, n) ∈ r'.index.expiry →
      ∃ a, r'.index.active.lookup n = some a ∧ a.decision.deadline = x := fun x n hx => by
    rw [hr.index] at hx ⊢
    exact rebuild_expiry hx
  refine ⟨by rw [hr.epoch, hr.sequence, hr.transitions]; exact h.numbered, fun b hb => ?_, ?_,
    fun n a ha => ?_, fun x n a hx ha => ?_, fun x n hx => ?_, fun b hb hrun => ?_⟩
  · rw [hr.transitions] at hb
    exact h.bounded b hb
  · rw [hr.transitions]
    exact le_trans (add_le_add_left hr.bans _) h.balance
  · rw [hr.transitions]
    exact ⟨hmade _ (hfound n a ha).1, (hfound n a ha).2⟩
  · obtain ⟨a', ha', hdeadline⟩ := hexpiry x n hx
    rw [ha] at ha'
    rw [Option.some.inj ha']
    exact hdeadline
  · obtain ⟨a, ha, -⟩ := hexpiry x n hx
    obtain ⟨m, hm, -, hle, -⟩ := sequence_of_mem h.numbered hsmall (hmade _ (hfound n a ha).1)
    rw [(hfound n a ha).2] at hm
    rw [hr.sequence, Option.some.inj hm]
    exact hle
  · obtain ⟨n, hn, -⟩ := sequence_of_mem h.numbered hsmall (hmade b hb)
    obtain ⟨a, ha⟩ := rebuild_entered hr.lasting hb hrun (h.bounded b (hmade b hb)) hn
    rw [← hr.index] at ha
    exact ⟨n, a, hn, ha, eq_of_sequence h.numbered hsmall (hmade _ (hfound n a ha).1) (hmade b hb)
      (hfound n a ha).2 hn⟩

end

end Ledger

/-! ## Runs -/

/-- Neither an activation nor a host change. -/
def plain : Action → Bool
  | .activate _ _ | .retainHosts _ => false
  | _ => true

section runs

variable {s : Sys} {t : Nat}

theorem sequence_observe {r : Registry}
    : r.sequence ≤ (r.observe now ticket status localDenial).2.sequence := by
  simp only [Registry.observe]
  split
  · exact Nat.le_refl _
  split
  · exact Nat.le_refl _
  case h_2 profile _ =>
    have hupdate := (updateClient_recorded now (r.observeClient profile ticket status now)
      ticket.domain ticket.key r).sequence
    split
    · exact hupdate
    · exact Nat.le_trans hupdate (settleObserved_sequence _ ticket now _)

/-- The sequence never goes back. -/
theorem sequence_step (hl : s.registry.Lasting) (e : Event) :
    s.registry.sequence ≤ (step sha256 s e).2.registry.sequence := by
  obtain ⟨now, action⟩ := e
  cases action with
  | admitClient ns expected domain identity method path =>
    obtain ⟨log, h⟩ : ∃ log, Turnover now log s.registry _ :=
      admitExpected_turnover sha256 hl ns expected domain identity method path
        (domain != DomainStore.OVERFLOW_NAME)
    exact h.recorded.sequence
  | observe i status localDenial =>
    simp only [step]
    cases s.issued[i]? with
    | none => exact Nat.le_refl _
    | some issue => exact sequence_observe
  | release ns domain identity id actor =>
    exact Nat.le_of_eq sequence_release.symm
  | activate | retainHosts | startListing => exact Nat.le_refl _
  | stepListing i =>
    simp only [step]
    cases s.listings[i]? with
    | none => exact Nat.le_refl _
    | some l => exact Nat.le_of_eq (sequence_stepListing s.registry now l).symm

theorem sequence_run (hi : Inv sha256 s) (es : List Event) :
    s.registry.sequence ≤ (run sha256 s es).registry.sequence := by
  induction es generalizing s with
  | nil => exact Nat.le_refl _
  | cons e es ih => exact Nat.le_trans (sequence_step hi.lasting e) (ih (inv_step hi e))

/-- Every lock hold reports what it does to the bans, or makes the index anew. -/
theorem step_turnover (hi : Inv sha256 s) (e : Event) (hlist : ListingsBy e.now s)
    (h : Ledger t s.registry) (hsmall : (step sha256 s e).2.registry.sequence < 2 ^ 64) :
    (∃ log, Turnover e.now log s.registry (step sha256 s e).2.registry) ∨
      (plain e.action = false ∧ Rebuilt e.now s.registry (step sha256 s e).2.registry) := by
  have hl := hi.lasting
  have hsmall₀ := Nat.lt_of_le_of_lt (sequence_step hl e) hsmall
  have hsame : ∃ log, Turnover e.now log s.registry s.registry := ⟨[], .refl e.now hl⟩
  obtain ⟨now, action⟩ := e
  cases action with
  | admitClient ns expected domain identity method path =>
    exact .inl (admitExpected_turnover sha256 hl ns expected domain identity method path
      (domain != DomainStore.OVERFLOW_NAME))
  | observe i status localDenial =>
    left
    simp only [step] at hsmall ⊢
    cases hissue : s.issued[i]? with
    | none => exact hsame
    | some issue =>
      rw [hissue] at hsmall
      exact observe_turnover hl hsmall (h.below hsmall₀)
  | release ns domain identity id actor =>
    exact .inl (release_turnover sha256 hl (h.numbers hsmall₀))
  | activate profiles retained => exact .inr ⟨rfl, activate_rebuilt hl⟩
  | retainHosts hosts => exact .inr ⟨rfl, retainHosts_rebuilt hl⟩
  | startListing profile domain after limit => exact .inl hsame
  | stepListing i =>
    left
    simp only [step]
    cases hlisting : s.listings[i]? with
    | none => exact hsame
    | some l =>
      exact stepListing_turnover hl h.dated (hlist l (mem_of_getElem? hlisting))

theorem ledger_step (hi : Inv sha256 s) (e : Event) (hlist : ListingsBy t s)
    (h : Ledger t s.registry) (hle : t ≤ e.now)
    (hsmall : (step sha256 s e).2.registry.sequence < 2 ^ 64) :
    Ledger e.now (step sha256 s e).2.registry := by
  have hlist' : ListingsBy e.now s := fun l hl => Nat.le_trans (hlist l hl) hle
  rcases step_turnover hi e hlist' h hsmall with ⟨log, hturn⟩ | ⟨-, hrebuilt⟩
  · exact h.turnover hturn hsmall hle
  · exact h.rebuilt hrebuilt (Nat.lt_of_le_of_lt (sequence_step hi.lasting e) hsmall)

theorem ledger_run (es : List Event) (s : Sys) (t : Nat) (hi : Inv sha256 s)
    (hlist : ListingsBy t s) (h : Ledger t s.registry) (hclock : Clocked Event.now t es)
    (hsmall : (run sha256 s es).registry.sequence < 2 ^ 64) :
    Ledger (lastClock Event.now t es) (run sha256 s es).registry := by
  induction es generalizing s t with
  | nil => exact h
  | cons e es ih =>
    have hnext := Nat.lt_of_le_of_lt (sequence_run (inv_step hi e) es) hsmall
    exact ih _ e.now (inv_step hi e) (listingsBy_step s e t hclock.1 hlist)
      (ledger_step hi e hlist h hclock.1 hnext) hclock.2 hsmall

theorem ledger_start :
    Ledger 0 (Sys.start (Registry.new epoch limits wallOrigin monoOrigin queue)).registry := by
  refine ⟨numbered_nil, fun b hb => (by cases hb), ?_, fun n a ha => ?_, fun x n a hx => ?_,
    fun x n hx => ?_, fun b hb => ?_⟩
  · exact le_of_eq rfl
  · simp [Sys.start, Registry.new, BanIndex.empty] at ha
  · cases hx
  · cases hx
  · cases hb

/-- From one registry to the other, as many bans are created as are counted over,
expired or released, and added to the cells. -/
def AddUp (r r' : Registry) : Prop :=
  r'.counters.created + (r.counters.expired + r.counters.released + r.held.card) =
    r.counters.created + (r'.counters.expired + r'.counters.released + r'.held.card)

instance (r r' : Registry) : Decidable (AddUp r r') := inferInstanceAs (Decidable (_ = _))

theorem addUp_turnover (hnow : now < u64Max) (h : Turnover now log r r') : AddUp r r' := by
  have hcards := congrArg Multiset.card (h.bans.eq hnow)
  simp only [Multiset.card_add, card_bans, Multiset.coe_card] at hcards
  have hcreated := h.recorded.created
  have hover := h.recorded.overs
  unfold AddUp
  omega

theorem addUp_run (es : List Event) (s : Sys) (t : Nat) (hi : Inv sha256 s) (hlist : ListingsBy t s)
    (h : Ledger t s.registry) (hclock : Clocked Event.now t es)
    (hsmall : (run sha256 s es).registry.sequence < 2 ^ 64)
    (hplain : ∀ e ∈ es, plain e.action = true ∧ e.now < u64Max) :
    AddUp s.registry (run sha256 s es).registry := by
  induction es generalizing s t with
  | nil => rfl
  | cons e es ih =>
    have hnext := Nat.lt_of_le_of_lt (sequence_run (inv_step hi e) es) hsmall
    have hfirst : AddUp s.registry (step sha256 s e).2.registry := by
      obtain ⟨hp, hnow⟩ := hplain e mem_cons_self
      rcases step_turnover hi e (fun l hl => Nat.le_trans (hlist l hl) hclock.1) h hnext with
        ⟨log, hturn⟩ | ⟨hnot, -⟩
      · exact addUp_turnover hnow hturn
      · rw [hp] at hnot; cases hnot
    have hrest := ih _ e.now (inv_step hi e) (listingsBy_step s e t hclock.1 hlist)
      (ledger_step hi e hlist h hclock.1 hnext) hclock.2 hsmall
      fun e' he' => hplain e' (mem_cons_of_mem _ he')
    unfold AddUp at hfirst hrest ⊢
    simp only [run, final_cons] at hrest ⊢
    omega

/-- The transitions that end the ban with an id. -/
def ends (r : Registry) (id : String) : List Transition :=
  r.transitions.filter fun x => x.terminal && x.ban.id == id

theorem ends_length_le (h : Ledger t r) (id : String) : (ends r id).length ≤ 1 := by
  have hle := le_trans (Multiset.le_add_left _ _) h.balance
  have hnodup : ((ended r.transitions).map Decision.id).Nodup := by
    have hids := Multiset.map_le_map hle (f := Decision.id)
    exact Multiset.coe_nodup.mp (Multiset.nodup_of_le hids (Multiset.coe_nodup.mpr
      (nodup_ids h.numbered)))
  have hcount := List.nodup_iff_count_le_one.mp hnodup id
  have hlength : ((ended r.transitions).map Decision.id).count id = (ends r id).length := by
    rw [ended, map_map, count_eq_countP, countP_map, countP_eq_length_filter, filter_filter]
    simp only [ends, Function.comp_def, Bool.and_comm]
  rwa [hlength] at hcount

/-- On a clock that does not go back, and as long as the sequence has numbers: a
ban is over at most once, and reported expired only when its deadline has come;
and until the clock ends, a stretch of the run without activations and host
changes creates as many bans as it ends and adds to the cells. -/
theorem bans_end_once_and_add_up (sha256 : String → Digest) (epoch : String)
    (limits : DomainStore.Limits) (wallOrigin monoOrigin : Nat) (queue : Option EventQueue.Queue)
    (es : List Event) (hclock : Trace.Clocked Event.now 0 es)
    (hsmall : (run sha256 (Sys.start (Registry.new epoch limits wallOrigin monoOrigin queue))
      es).registry.sequence < 2 ^ 64) :
    let start := Sys.start (Registry.new epoch limits wallOrigin monoOrigin queue)
    (∀ id, (ends (run sha256 start es).registry id).length ≤ 1) ∧
    (∀ before e after, es = before ++ e :: after → ∃ log : List Transition,
      (run sha256 start (before ++ [e])).registry.transitions =
          (run sha256 start before).registry.transitions ++ log ∧
        ∀ x ∈ log, x.kind = .expired → x.ban.deadline ≤ e.now) ∧
    ∀ before segment after, es = before ++ (segment ++ after) →
      (∀ e ∈ segment, plain e.action = true ∧ e.now < u64Max) →
      AddUp (run sha256 start before).registry (run sha256 start (before ++ segment)).registry := by
  intro start
  have hi : Inv sha256 start := inv_start
  have hlist : ListingsBy 0 start := fun l hl => by cases hl
  have hledger : Ledger 0 start.registry := ledger_start
  have hsofar : ∀ before after, es = before ++ after →
      (run sha256 start before).registry.sequence < 2 ^ 64 := by
    rintro before after rfl
    rw [run_append] at hsmall
    exact Nat.lt_of_le_of_lt (sequence_run (inv_run hi before) after) hsmall
  refine ⟨ends_length_le (ledger_run es start 0 hi hlist hledger hclock hsmall), ?_, ?_⟩
  · intro before e after hes
    obtain ⟨hbefore, hlater⟩ := (clocked_append Event.now 0 before (e :: after)).mp (hes ▸ hclock)
    have hs := hsofar before (e :: after) hes
    have hs' := hsofar (before ++ [e]) after (by rw [hes, append_assoc]; rfl)
    have hstep : run sha256 start (before ++ [e]) =
        (step sha256 (run sha256 start before) e).2 := run_append sha256 start before [e]
    rw [hstep] at hs' ⊢
    rcases step_turnover (inv_run hi before) e
      (fun l hl => Nat.le_trans (listingsBy_run hlist hbefore l hl) hlater.1)
      (ledger_run before start 0 hi hlist hledger hbefore hs) hs' with ⟨log, hturn⟩ | ⟨-, hrebuilt⟩
    · exact ⟨log, hturn.recorded.transitions, fun x hx hkind =>
        Nat.le_trans (hturn.recorded.due x hx hkind).1 (hturn.recorded.due x hx hkind).2⟩
    · exact ⟨[], by rw [hrebuilt.transitions, append_nil], fun x hx => by cases hx⟩
  · intro before segment after hes hplain
    obtain ⟨hbefore, hlater⟩ := (clocked_append Event.now 0 before (segment ++ after)).mp
      (hes ▸ hclock)
    obtain ⟨hsegment, -⟩ := (clocked_append Event.now _ segment after).mp hlater
    have hs := hsofar before (segment ++ after) hes
    have hs' := hsofar (before ++ segment) after (by rw [hes, append_assoc])
    rw [run_append] at hs' ⊢
    exact addUp_run segment _ _ (inv_run hi before)
      (listingsBy_run hlist hbefore)
      (ledger_run before start 0 hi hlist hledger hbefore hs) hsegment hs' hplain

end runs

/-- A client is banned for two failed logins. -/
def lockedOut : List Event := twoLogins ++ [⟨13, .observe 1 401 false⟩]

def letIn : List Event := [⟨20, .release "shop" "shop.test" "2001:db8::1" "e-1" {}⟩]

theorem bans_end_once_and_add_up_released :
    let start := Sys.start (Registry.new "e" ⟨4, 4⟩ 0 0 none)
    (ends (run digests start (lockedOut ++ letIn)).registry "e-1").length = 1 ∧
      AddUp (run digests start lockedOut).registry
        (run digests start (lockedOut ++ letIn)).registry := by
  intro start
  obtain ⟨hends, -, hadd⟩ := bans_end_once_and_add_up digests "e" ⟨4, 4⟩ 0 0 none
    (lockedOut ++ letIn) (by decide) (by decide +kernel)
  exact ⟨Nat.le_antisymm (hends "e-1") (by decide +kernel), hadd lockedOut letIn []
    (by rw [append_nil]) (by decide)⟩

/-- At the last reading of the clock the store of the clients is emptied: the ban
is gone from its cell, and neither reported nor counted. -/
theorem ban_gone_at_end_of_clock :
    let start := Sys.start (Registry.new "e" ⟨4, 4⟩ 0 0 none)
    let last : Event := ⟨u64Max, .admitClient "shop" none "shop.test" "2001:db8::1" "POST" "/login"⟩
    Clocked Event.now 0 (lockedOut ++ [last]) ∧ plain last.action = true ∧
      (run digests start (lockedOut ++ [last])).registry.sequence < 2 ^ 64 ∧
      ¬ AddUp (run digests start lockedOut).registry
        (run digests start (lockedOut ++ [last])).registry := by
  decide +kernel

end AbuseBanLedger
