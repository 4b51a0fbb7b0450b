import Pingap.AbuseRegistryBans

/-!
# What every operation does to the bans

For every operation of the registry: which bans it takes out of the cells and
which it puts there, that it reports and counts exactly these, and what that
leaves in the index. An activation or a host change reports nothing; it drops
cells and makes the index anew from those that are left.
-/

namespace AbuseRegistry

open MachineArith AbuseScenario DomainStoreForever AList List Option
open DomainStore (HostPolicy Limits ScopedStore Domain)
open EventQueue (NativeKind NativeActor)
open Registry hiding hosts limits profiles domains

/-- The bans after an operation make up those before, except that at the end of
the clock some may be gone unreported. -/
def Balanced (now : Nat) (after before : Multiset Decision) : Prop :=
  after = before ∨ (u64Max ≤ now ∧ after ≤ before)

namespace Balanced

variable {now : Nat} {a b c : Multiset Decision}

theorem le (h : Balanced now a b) : a ≤ b := h.elim (fun h => h.le) fun h => h.2

theorem eq (h : Balanced now a b) (hnow : now < u64Max) : a = b :=
  h.elim id fun h => absurd h.1 (Nat.not_le_of_lt hnow)

theorem trans (h : Balanced now a b) (h' : Balanced now b c) : Balanced now a c := by
  rcases h with rfl | ⟨hlate, hle⟩
  · exact h'
  · exact .inr ⟨hlate, hle.trans h'.le⟩

theorem add (h : Balanced now a b) (c : Multiset Decision) : Balanced now (a + c) (b + c) := by
  rcases h with rfl | ⟨hlate, hle⟩
  · exact .inl rfl
  · exact .inr ⟨hlate, add_le_add_left hle c⟩

end Balanced

/-- An operation at `now` that reported the transitions of `log`: the bans it took
out of the cells and put into them are the ones it reported. -/
structure Turnover (now : Nat) (log : List Transition) (r r' : Registry) : Prop where
  lasting : r'.Lasting
  recorded : Recorded now log r r'
  bans : Balanced now (r'.bans + (ended log : Multiset Decision))
    (r.bans + (made log : Multiset Decision))

namespace Turnover

variable {now : Nat} {log log' : List Transition} {r r' r'' : Registry}

theorem refl (now : Nat) (hl : r.Lasting) : Turnover now [] r r :=
  ⟨hl, Recorded.refl now r, .inl rfl⟩

theorem trans (h : Turnover now log r r') (h' : Turnover now log' r' r'') :
    Turnover now (log ++ log') r r'' where
  lasting := h'.lasting
  recorded := h.recorded.trans h'.recorded
  bans := by
    have hsecond := h'.bans.add (ended log : Multiset Decision)
    have hfirst := h.bans.add (made log' : Multiset Decision)
    rw [add_right_comm] at hfirst
    have hboth := hsecond.trans hfirst
    rw [add_assoc, add_assoc, Multiset.coe_add, Multiset.coe_add,
      Multiset.coe_eq_coe.mpr perm_append_comm] at hboth
    rw [ended_append, made_append]
    exact hboth

end Turnover

section cells

variable {now : Nat} {r r' : Registry}

theorem balanced_of_banAt (h : ∀ d k, r'.banAt d k = r.banAt d k ∨
    (u64Max ≤ now ∧ r'.banAt d k = none)) : Balanced now r'.bans r.bans := by
  by_cases hnow : now < u64Max
  · refine .inl (bans_congr fun d k => ?_)
    rcases h d k with h | ⟨hlate, -⟩
    · exact h
    · omega
  · exact .inr ⟨Nat.le_of_not_lt hnow, bans_le fun d k => (h d k).imp_right And.right⟩

theorem balanced_of_same (h : SameCells now r r') : Balanced now r'.bans r.bans :=
  balanced_of_banAt fun d k => by
    rcases h d k with h | ⟨hlate, h⟩
    · exact .inl (by rw [banAt, h, banAt])
    · exact .inr ⟨hlate, by rw [banAt, h]; rfl⟩

theorem quiet_bans (h : Quiet r r') : r'.bans = r.bans :=
  bans_congr fun d k => by rw [banAt, h.cell, banAt]

/-- The report of an operation whose cells have changed already. -/
theorem Turnover.report (hl : r₁.Lasting) (hfirst : Recorded now [] r r₁) (hquiet : Quiet r₁ r')
    (hsecond : Recorded now log r₁ r')
    (hbans : Balanced now (r₁.bans + (ended log : Multiset Decision))
      (r.bans + (made log : Multiset Decision))) : Turnover now log r r' where
  lasting := hquiet.lasting hl
  recorded := hfirst.trans hsecond
  bans := by rw [quiet_bans hquiet]; exact hbans

theorem Client.ban_settled (c : Client) (now : Nat) :
    (c.ban.toList : Multiset Decision) =
      (c.dueBan now).toList + ((c.settled now).ban.toList : Multiset Decision) := by
  unfold Client.dueBan Client.settled
  split <;> simp

theorem Client.dueBan_deadline {c : Client} (h : b ∈ c.dueBan now) :
    b.deadline ≤ now ∧ c.ban = some b := by
  unfold Client.dueBan at h
  split at h
  case isTrue hdue =>
    have hb : c.ban = some b := h
    simp only [Client.banDue, hb, any_some, decide_eq_true_eq] at hdue
    exact ⟨hdue, hb⟩
  case isFalse => cases h

/-- Two ways to account for one change: if `x` was swapped for `y` and that makes
`u` go and `v` come, then `u` has gone and `v` has come. -/
theorem bans_swap {before after x y u v : Multiset Decision} (h : after + x = before + y)
    (h' : x + v = u + y) : after + u = before + v := by
  refine add_right_cancel (b := y) ?_
  rw [add_assoc, ← h', ← add_assoc, h, add_right_comm]

section update

variable {ρ : Type} (now : Nat) (change : Client → Client × ρ) (domain key : String)

theorem updateClient_recorded (r : Registry) :
    Recorded now [] r (r.updateClient now domain key change).2 := by
  unfold updateClient
  split
  · exact Recorded.refl now r
  · exact Recorded.silent rfl rfl (Nat.le_refl _) rfl rfl rfl

theorem updateClient_lasting (hl : r.Lasting) : (r.updateClient now domain key change).2.Lasting :=
  (updateClient_spec hl now domain key change).1

theorem updateClient_missed_turnover (hl : r.Lasting)
    (h : (r.updateClient now domain key change).1 = none) :
    Turnover now [] r (r.updateClient now domain key change).2 where
  lasting := updateClient_lasting now change domain key hl
  recorded := updateClient_recorded now change domain key r
  bans := by
    simpa using balanced_of_same (updateClient_missed hl now domain key change h)

theorem updateClient_sequence (r : Registry) (now : Nat) (domain key : String)
    (change : Client → Client × ρ) :
    (r.updateClient now domain key change).2.sequence = r.sequence := by
  unfold updateClient
  split <;> rfl

/-- An update that found its client swaps the client's ban for the new one. -/
theorem updateClient_bans (hl : r.Lasting) (h : (r.updateClient now domain key change).1 = some x) :
    ∃ c, r.cell domain key = some c ∧ x = (change c).2 ∧
      (r.updateClient now domain key change).2.bans + (c.ban.toList : Multiset Decision) =
        r.bans + ((change c).1.ban.toList : Multiset Decision) := by
  obtain ⟨hnow, c, hc, hx⟩ := updateClient_some hl now domain key change x h
  have hcell := updateClient_timely hl hnow domain key change
  refine ⟨c, hc, hx, ?_⟩
  have hswap := @bans_change domain key r (r.updateClient now domain key change).2
    fun d k hdk => by rw [banAt, hcell, if_neg hdk, banAt]
  rw [banAt, hc, banAt, hcell, if_pos ⟨rfl, rfl⟩, hc] at hswap
  exact hswap

end update

end cells

/-! ## Admission -/

section admission

variable {now : Nat} {r : Registry}

theorem currentBan_turnover (hl : r.Lasting) :
    ∃ log, Turnover now log r (r.currentBan now domain key).2 := by
  unfold currentBan
  generalize hchange : (fun c : Client => (c.settled now, (c.dueBan now, (c.settled now).ban))) =
    change
  have hupdate := updateClient_recorded now change domain key r
  have hlasting := updateClient_lasting now change domain key hl
  split
  case h_1 r₁ he =>
    have hmissed := updateClient_missed_turnover now change domain key hl (by rw [he])
    rw [he] at hmissed
    exact ⟨[], hmissed⟩
  case h_2 due ban r₁ he =>
    obtain ⟨c, -, hx, hbans⟩ := updateClient_bans now change domain key hl
      (x := (due, ban)) (by rw [he])
    rw [he] at hupdate hlasting hbans
    subst hchange
    obtain ⟨rfl, -⟩ := Prod.mk.inj hx
    refine ⟨_, .report hlasting hupdate (Quiet.expireFound r₁ now _)
      (expireFound_recorded r₁ _ fun b hb => (Client.dueBan_deadline hb).1) (.inl ?_)⟩
    simp only [ended_expiredLog, made_expiredLog]
    exact bans_swap hbans (by rw [Client.ban_settled c now]; simp)

theorem issueTicket_turnover (hl : r.Lasting) :
    Turnover now [] r (r.issueTicket now profile ns domain identity key login path).2 := by
  simp only [issueTicket]
  generalize hchange : (fun c : Client => (({ c with idleAt := satAdd64 now profile.idleMs } : Client),
    r.ticketFor profile ns domain identity key login path c)) = change
  cases hfound : (r.updateClient now domain key change).1 with
  | none => exact updateClient_missed_turnover now change domain key hl hfound
  | some t =>
    obtain ⟨c, -, -, hbans⟩ := updateClient_bans now change domain key hl hfound
    subst hchange
    refine ⟨updateClient_lasting now _ domain key hl, updateClient_recorded now _ domain key r,
      .inl ?_⟩
    simpa using add_right_cancel hbans

/-- What a visit sees of a bucket whose clients all last: everything, or nothing
at the end of the clock. -/
theorem visit_clients (b : ClientBucket) (hf : Forever b.store b.domain) (now : Nat) :
    b.store.visit now b.domain = if now < u64Max then b.clients else [] := by
  unfold ScopedStore.visit ClientBucket.clients
  cases hb : b.store.peek b.domain with
  | none => simp
  | some bucket =>
    have hlast : ∀ e ∈ bucket.entries.entries, e.2.expiresAt = u64Max := fun e he =>
      lookup_forever hf hb e.1 e.2 ((mem_entries_iff _ _ _).mp he)
    by_cases hnow : now < u64Max
    · have hall : DomainStore.reclaim bucket.entries now = bucket.entries :=
        retain_eq_self fun e he => by rw [hlast e he, if_pos hnow]
      simp only [hall, if_pos hnow]
    have hnone : (DomainStore.reclaim bucket.entries now).entries = [] := by
      refine List.eq_nil_iff_forall_not_mem.mpr fun e he => ?_
      have hlook := (mem_entries_iff _ _ _).mp he
      rw [reclaim_late hnow (lookup_forever hf hb)] at hlook
      cases hlook
    simp only [hnone, map_nil, if_neg hnow]

theorem ClientBucket.nodup_clients (b : ClientBucket) : (b.clients.map Prod.fst).Nodup := by
  unfold ClientBucket.clients
  cases b.store.peek b.domain with
  | none => exact nodup_nil
  | some bucket =>
    simp only [List.map_map]
    exact bucket.entries.nodupKeys

theorem Client.settled_ban (c : Client) :
    (c.settled now).ban = c.ban.filter fun b => decide (now < b.deadline) := by
  unfold Client.settled Client.banDue
  cases hb : c.ban with
  | none => simp [hb]
  | some b =>
    by_cases h : now < b.deadline
    · simp [h, Nat.not_le_of_lt h, hb, filter_some]
    · simp [h, Nat.le_of_not_lt h, filter_some]

theorem Client.dueBan_eq (c : Client) :
    c.dueBan now = c.ban.filter fun b => decide (b.deadline ≤ now) := by
  unfold Client.dueBan Client.banDue
  cases hb : c.ban with
  | none => simp
  | some b => by_cases h : b.deadline ≤ now <;> simp [h, filter_some]

theorem keepClient_ban :
    (keepClient now c).bind Client.ban = c.ban.filter fun b => decide (now < b.deadline) := by
  rw [← Client.settled_ban]
  simp only [keepClient]
  split
  · rfl
  case isFalse h =>
    simp only [Bool.or_eq_true, not_or, Bool.not_eq_true, isSome_eq_false_iff,
      isNone_iff_eq_none] at h
    rw [h.1]
    rfl

def ClientBucket.due (domain : String) (b : ClientBucket) (now : Nat) : List ActiveDecision :=
  b.clients.filterMap fun e => (e.2.dueBan now).map fun ban => ⟨ban, domain, e.1⟩

theorem ClientBucket.nodup_due (domain : String) (b : ClientBucket) (now : Nat) :
    (b.due domain now).Nodup := by
  have hkeys : ((b.due domain now).map ActiveDecision.key).Sublist (b.clients.map Prod.fst) := by
    refine map_filterMap_sublist (fun e a h => ?_) _
    obtain ⟨ban, -, rfl⟩ := map_eq_some_iff.mp h
    rfl
  exact (hkeys.nodup b.nodup_clients).of_map _

theorem ClientBucket.mem_due {domain : String} (hb : r.domains.lookup domain = some b) (now : Nat)
    (a : ActiveDecision) :
    a ∈ b.due domain now ↔ a ∈ r.held ∧ a.domain = domain ∧ a.decision.deadline ≤ now := by
  obtain ⟨ban, d, k⟩ := a
  simp only [ClientBucket.due, mem_filterMap, map_eq_some_iff, Client.dueBan_eq,
    filter_eq_some_iff, decide_eq_true_eq, mem_held, ActiveDecision.mk.injEq]
  constructor
  · rintro ⟨⟨k', c⟩, hc, ban', ⟨hban, hdue⟩, rfl, rfl, rfl⟩
    refine ⟨?_, rfl, hdue⟩
    rw [banAt, cell_of_lookup hb, (b.mem_clients k' c).mp hc]
    exact hban
  · rintro ⟨hban, rfl, hdue⟩
    rw [banAt, cell_of_lookup hb] at hban
    obtain ⟨c, hc, hban⟩ := bind_eq_some_iff.mp hban
    exact ⟨(k, c), (b.mem_clients k c).mpr hc, ban, ⟨hban, hdue⟩, rfl, rfl, rfl⟩

section

variable (hl : r.Lasting)
include hl

/-- A purge takes the due bans out of its bucket and reports these. -/
theorem purge_bans (hb : r.domains.lookup domain = some b) (hnow : now < u64Max) :
    (r.withBucket domain (purge now b).2).bans +
      ((purge now b).1 : Multiset Decision) = r.bans := by
  have hclient : ∀ k, (purge now b).2.client k = (b.client k).bind (keepClient now) :=
    (retain_turned (hl domain b hb) now fun _ c => keepClient now c).timely hnow
  have hban : ∀ d k, (r.withBucket domain (purge now b).2).banAt d k =
      if d = domain then (r.banAt d k).filter fun ban => decide (now < ban.deadline)
      else r.banAt d k := fun d k => by
    rw [banAt, cell_withBucket]
    split
    case isFalse => rfl
    case isTrue hd =>
      rw [hd, banAt, cell_of_lookup hb, hclient]
      cases b.client k with
      | none => rfl
      | some c => exact keepClient_ban
  have hleft : (r.withBucket domain (purge now b).2).held =
      r.held.filter fun a => ¬ (a.domain = domain ∧ a.decision.deadline ≤ now) := by
    refine Finset.ext fun a => ?_
    simp only [Finset.mem_filter, mem_held, hban]
    by_cases hd : a.domain = domain
    · simp [hd, filter_eq_some_iff]
    · simp [hd]
  have hgone : ((purge now b).1 : Multiset Decision) =
      (r.held.filter fun a => a.domain = domain ∧ a.decision.deadline ≤ now).val.map
        ActiveDecision.decision := by
    have hrows : (r.held.filter fun a => a.domain = domain ∧ a.decision.deadline ≤ now) =
        (b.due domain now).toFinset := by
      refine Finset.ext fun a => ?_
      rw [Finset.mem_filter, List.mem_toFinset, ClientBucket.mem_due hb]
    have hdecisions : (purge now b).1 = (b.due domain now).map ActiveDecision.decision := by
      simp only [purge, visit_clients b (hl domain b hb) now, if_pos hnow,
        ClientBucket.due, List.map_filterMap, Option.map_map]
      simp [Function.comp_def]
    rw [hrows, toFinset_val, (b.nodup_due domain now).dedup, hdecisions, Multiset.map_coe]
  rw [hgone, Registry.bans, hleft, ← Multiset.map_add, Finset.filter_val, Finset.filter_val,
    add_comm, Multiset.filter_add_not, Registry.bans]

section

variable (profile : ScenarioProfile)

/-- Making room changes no ban, or takes the due ones out of a full bucket. -/
theorem makeRoom_turnover (hb : r.domains.lookup domain = some b) :
    ∃ log, Turnover now log r (r.makeRoom now profile ns domain b).2 := by
  have hcount := entries_turned (hl domain b hb) now
  simp only [makeRoom]
  generalize hb₁ : { b with store := (b.store.entries now b.domain).2 } = b₁
  have hlook : (r.withBucket domain b₁).domains.lookup domain = some b₁ := by
    simp [withBucket]
  have hl₁ : (r.withBucket domain b₁).Lasting :=
    lasting_withBucket hl (by rw [← hb₁]; exact hcount.forever)
  have hsame : SameCells now r (r.withBucket domain b₁) := fun d k => by
    rw [cell_withBucket]
    split
    case isFalse => exact .inl rfl
    case isTrue hd =>
      rw [hd, cell_of_lookup hb, ← hb₁]
      exact hcount.value k
  have hcounted : Turnover now [] r (r.withBucket domain b₁) :=
    ⟨hl₁, Recorded.silent rfl rfl (Nat.le_refl _) rfl rfl rfl, by
      simpa using balanced_of_same hsame⟩
  split
  case isFalse => exact ⟨[], hcounted⟩
  case isTrue =>
    have hinsert : ({ r with domains := r.domains.insert domain (purge now b₁).2 }) =
        (r.withBucket domain b₁).withBucket domain (purge now b₁).2 := by
      simp [withBucket]
    have hturned := retain_turned (hl₁ domain b₁ hlook) now fun _ c => keepClient now c
    have hdue : ∀ ban ∈ (purge now b₁).1, ban.deadline ≤ now := fun ban hban => by
      obtain ⟨e, -, he⟩ := mem_filterMap.mp hban
      exact (Client.dueBan_deadline he).1
    rw [hinsert]
    refine ⟨_, hcounted.trans (.report (lasting_withBucket hl₁ hturned.forever)
      (Recorded.silent rfl rfl (Nat.le_refl _) rfl rfl rfl)
      (Quiet.foldl _ (fun r ban => Quiet.expireBan r now ban) _ _)
      (expireBans_recorded _ hdue) ?_)⟩
    rw [ended_expiredLog, made_expiredLog]
    by_cases hnow : now < u64Max
    · exact .inl (by simpa using purge_bans hl₁ hlook hnow)
    -- At the end of the clock the pass sees no client, and drops them all.
    have hnone : (purge now b₁).1 = [] := by
      simp [purge, visit_clients b₁ (hl₁ domain b₁ hlook) now, hnow]
    refine .inr ⟨Nat.le_of_not_lt hnow, ?_⟩
    rw [hnone]
    simp only [Multiset.coe_nil, add_zero]
    refine bans_le fun d k => ?_
    rw [banAt, cell_withBucket]
    split
    case isFalse => exact .inl rfl
    case isTrue hd =>
      rw [hd, banAt, cell_of_lookup hlook]
      rcases hturned.value k with h | ⟨-, h⟩
      · have hclient : (purge now b₁).2.client k = (b₁.client k).bind (keepClient now) := h
        rw [hclient]
        cases b₁.client k with
        | none => exact .inl rfl
        | some c =>
          simp only [bind_some, keepClient_ban]
          cases c.ban with
          | none => exact .inl rfl
          | some ban => by_cases hrun : now < ban.deadline <;> simp [filter_some, hrun]
      · have hclient : (purge now b₁).2.client k = none := h
        rw [hclient]
        exact .inr rfl

/-- A new cell is under no ban. -/
theorem insertClient_turnover (hb : r.domains.lookup domain = some b)
    (hnone : ∀ c, r.cell domain key = some c → u64Max ≤ now) :
    Turnover now [] r (r.insertClient now profile ns domain key b).2 := by
  have ht := insert_turned (hl domain b hb) now key (r.freshClient now profile ns)
  have hturn : ∀ b' : ClientBucket, b'.domain = b.domain → (∀ (ok : Prop) [Decidable ok],
      Turned now b.domain (fun k v => if k = key ∧ ok then some (r.freshClient now profile ns) else v)
        b.store b'.store → Turnover now [] r (r.withBucket domain b')) := by
    intro b' hdom ok _ ht
    refine ⟨lasting_withBucket hl (by rw [hdom]; exact ht.forever),
      Recorded.silent rfl rfl (Nat.le_refl _) rfl rfl rfl, ?_⟩
    simp only [ended_nil, made_nil, Multiset.coe_nil, add_zero]
    refine balanced_of_banAt fun d k => ?_
    rw [banAt, cell_withBucket]
    split
    case isFalse => exact .inl rfl
    case isTrue hd =>
      have hclient : b'.client k = valueAt b'.store b.domain k := by rw [← hdom]; rfl
      rw [hclient, hd, banAt]
      rcases ht.value k with h | ⟨hlate, h⟩
      · rw [h]
        split
        case isFalse => exact .inl (by rw [cell_of_lookup hb]; rfl)
        case isTrue hk =>
          rw [hk.1]
          cases hc : r.cell domain key with
          | none => exact .inl rfl
          | some c => exact .inr ⟨hnone c hc, rfl⟩
      · exact .inr ⟨hlate, by rw [h]; rfl⟩
  unfold insertClient
  split
  case h_1 hi =>
    rw [hi] at ht
    exact hturn _ rfl _ ht
  case h_2 hi =>
    rw [hi] at ht
    exact hturn _ rfl _ ht

theorem createClient_turnover (ns : String)
    (hnone : ∀ c, r.cell domain key = some c → u64Max ≤ now) :
    ∃ log, Turnover now log r (r.createClient now profile ns domain key).2 := by
  unfold createClient
  cases hb : r.domains.lookup domain with
  | none => exact ⟨[], .refl now hl⟩
  | some b =>
    obtain ⟨log, hroom⟩ : ∃ log, Turnover now log r _ := makeRoom_turnover hl profile hb
    have habsent := makeRoom_absent hl profile ns key hb hnone
    simp only
    generalize (r.makeRoom now profile ns domain b).2 = r₁ at hroom habsent ⊢
    cases hb' : r₁.domains.lookup domain with
    | none => exact ⟨log, hroom⟩
    | some b' =>
      dsimp only
      split
      · exact ⟨log, hroom⟩
      have hbump : Turnover now [] r₁ { r₁ with incarnation := r₁.incarnation + 1 } :=
        ⟨hroom.lasting, Recorded.silent rfl rfl (Nat.le_refl _) rfl rfl rfl, .inl rfl⟩
      exact ⟨_, hroom.trans (hbump.trans (insertClient_turnover hbump.lasting profile hb' habsent))⟩

theorem admitNew_turnover (hnone : ∀ c, r.cell domain key = some c → u64Max ≤ now) :
    ∃ log, Turnover now log r (r.admitNew now profile ns domain identity key login path).2 := by
  obtain ⟨log, hcreate⟩ := createClient_turnover hl profile ns hnone
  simp only [admitNew]
  split
  · exact ⟨_, hcreate.trans (issueTicket_turnover hcreate.lasting)⟩
  · exact ⟨_, hcreate.trans
      ⟨hcreate.lasting, Recorded.silent rfl rfl (Nat.le_refl _) rfl rfl rfl, .inl rfl⟩⟩

theorem admitFound_turnover (ns identity : String) (login : Bool)
    (path : Digest) (hnone : found = none → ∀ c, r.cell domain key = some c → u64Max ≤ now) :
    ∃ log, Turnover now log r
      (r.admitFound now profile ns domain identity key login path found).2 := by
  have hsame : ∃ log, Turnover now log r r := ⟨[], .refl now hl⟩
  rcases found with _ | _ | ban
  · simp only [admitFound]
    split
    · exact hsame
    · exact admitNew_turnover hl profile (hnone rfl)
  · simp only [admitFound]
    split
    · exact hsame
    · exact ⟨[], issueTicket_turnover hl⟩
  · exact hsame

end

end

theorem admitUnder_turnover (sha256 : String → Digest) (hl : r.Lasting) (ns domain : String) :
    ∃ log, Turnover now log r
      (r.admitUnder sha256 now profile ns domain identity login path).2 := by
  simp only [admitUnder]
  generalize clientKey sha256 ns identity = key
  obtain ⟨log, hcurrent⟩ : ∃ log, Turnover now log r _ := currentBan_turnover hl
  obtain ⟨log', hrest⟩ := admitFound_turnover hcurrent.lasting profile ns identity login
    path (currentBan_absent hl domain key)
  exact ⟨_, hcurrent.trans hrest⟩

theorem ensureDomain_turnover (hl : r.Lasting)
    (h : r.ensureDomain domain = some r') : Turnover now [] r r' := by
  have hcell := cell_ensureDomain h
  refine ⟨lasting_ensureDomain hl h, ?_, ?_⟩
  · unfold ensureDomain at h
    split at h
    · obtain rfl := Option.some.inj h
      exact Recorded.refl now r
    split at h
    · cases h
    · obtain rfl := Option.some.inj h
      exact Recorded.silent rfl rfl (Nat.le_refl _) rfl rfl rfl
  · simpa using balanced_of_same fun d k => .inl (hcell d k)

theorem admitExpected_turnover (sha256 : String → Digest) (hl : r.Lasting) (ns : String)
    (expected : Option String) (domain identity method path : String) (registered : Bool) :
    ∃ log, Turnover now log r
      (r.admitExpected sha256 now ns expected domain identity method path registered).2 := by
  have hsame : ∃ log, Turnover now log r r := ⟨[], .refl now hl⟩
  unfold admitExpected
  split
  · exact hsame
  split
  · exact hsame
  unfold admitAddress
  split
  · exact hsame
  split
  · exact hsame
  split
  · exact hsame
  split
  · exact ⟨[], hl, Recorded.silent rfl rfl (Nat.le_refl _) rfl rfl rfl, .inl rfl⟩
  case h_2 r₁ hr₁ =>
    have hopen : Turnover now [] r r₁ := ensureDomain_turnover hl hr₁
    obtain ⟨log, hrest⟩ := admitUnder_turnover sha256 hopen.lasting ns domain
    exact ⟨_, hopen.trans hrest⟩

end admission

/-! ## Observation, release, listing -/

/-- The number of a ban is read back from its id. -/
theorem decisionSequence_banId (epoch : String) (h : n < 2 ^ 64) :
    decisionSequence (banId epoch n) = some n := by
  have hdash : '-' ∉ (toString n).toList := Text.not_mem_toString (by decide) n
  have hchars : (banId epoch n).toList = epoch.toList ++ '-' :: (toString n).toList := by
    simp [banId]
  rw [decisionSequence, hchars, Text.afterLast_append hdash, Text.parseU64_toString h]

def createdLog (now : Nat) (created : Option Decision) : List Transition :=
  created.toList.map fun b => ⟨.created, b, now⟩

@[simp] theorem made_createdLog : made (createdLog now created) = created.toList := by
  cases created <;> rfl

@[simp] theorem ended_createdLog : ended (createdLog now created) = [] := by
  cases created <;> rfl

section others

variable {now : Nat} {r : Registry}

/-- The numbers in the index are of bans that were created. -/
def BanIndex.Below (i : BanIndex) (sequence : Nat) : Prop :=
  ∀ n a, i.active.lookup n = some a → n ≤ sequence

theorem mem_insertExpiry (h : e ∈ BanIndex.insertExpiry x l) : e = x ∨ e ∈ l := by
  unfold BanIndex.insertExpiry at h
  split at h
  · exact .inr h
  · exact (mem_orderedInsert _).mp h

/-- A ban with a new number goes into the index beside what is there. -/
theorem Reindexed.record (domain key : String) (hn : decisionSequence ban.id = some n)
    (hfree : i.active.lookup n = none) :
    Reindexed now (createdLog now (some ban)) i (i.record ban domain key) := by
  have hactive : ∀ m, (i.record ban domain key).active.lookup m =
      if m = n then some ⟨ban, domain, key⟩ else i.active.lookup m := fun m => by
    simp only [BanIndex.record, hn, lookup_insert_if]
  refine ⟨fun m a ha => .inl ?_, fun m a ha => ?_, fun b hb m hm => .inl ?_, fun x m hx => ?_⟩
  · rw [hactive, if_neg]
    · exact ha
    · rintro rfl
      rw [hfree] at ha
      cases ha
  · rw [hactive] at ha
    split at ha
    case isTrue hmn =>
      obtain rfl := Option.some.inj ha
      exact .inr ⟨by simp, hmn ▸ hn⟩
    case isFalse => exact .inl ha
  · simp only [made_createdLog, toList_some, mem_singleton] at hb
    subst hb
    rw [hn] at hm
    obtain rfl := Option.some.inj hm
    exact ⟨⟨b, domain, key⟩, by rw [hactive, if_pos rfl], rfl⟩
  · simp only [BanIndex.record, hn] at hx
    rcases mem_insertExpiry hx with h | h
    · obtain ⟨rfl, rfl⟩ := Prod.mk.inj h
      exact .inr ⟨ban, by simp, rfl, hn⟩
    · exact .inl h

/-- What the ban of an observation must be for its record to be right. -/
structure NewBan (r : Registry) (o : Registry.Observed) (ban : Decision) : Prop where
  id : ban.id = banId r.epoch (r.sequence + 1)
  deadline : ban.deadline ≤ u64Max
  crossed : o.crossings.isEmpty = false

theorem reportDetections_recorded (ticket : Ticket) (crossings : List Crossing) (r : Registry) :
    Recorded now [] r
      (crossings.foldl (fun r crossing => r.reportDetection ticket now crossing) r) := by
  induction crossings generalizing r with
  | nil => exact Recorded.refl now r
  | cons crossing crossings ih =>
    have hone : Recorded now [] r (r.reportDetection ticket now crossing) := by
      unfold Registry.reportDetection
      split
      · exact Recorded.silent rfl rfl (Nat.le_refl _) rfl rfl rfl
      · exact Recorded.refl now r
    exact hone.trans (ih _)

/-- The ban of an observation is reported, indexed and counted, and uses up the
next number. -/
theorem recordBan_recorded (hnew : ∀ ban ∈ o.createdBan, NewBan r o ban)
    (hsmall : o.createdBan.isSome → r.sequence + 1 < 2 ^ 64) (hbelow : r.index.Below r.sequence) :
    Recorded now (createdLog now o.createdBan) r
      ((r.recordBan ticket now o.createdBan).countObserved o) := by
  cases hban : o.createdBan with
  | none =>
    refine Recorded.silent rfl rfl ?_ rfl rfl rfl
    simp only [Registry.recordBan, Registry.countObserved]
    split
    · exact Nat.le_succ _
    · exact Nat.le_refl _
  | some ban =>
    have hb := hnew ban hban
    have hsequence : decisionSequence ban.id = some (r.sequence + 1) := by
      rw [hb.id]; exact decisionSequence_banId _ (hsmall (by rw [hban]; rfl))
    have hnext : ((r.recordBan ticket now (some ban)).countObserved o).sequence =
        r.sequence + 1 := by
      simp [Registry.countObserved, Registry.recordBan, hb.crossed, Registry.transition]
    refine ⟨rfl, rfl, by rw [hnext]; exact Nat.le_succ _, ?_, fun b hb' => ?_, fun x hx hkind => ?_,
      rfl, rfl, Reindexed.record ticket.domain ticket.key hsequence ?_⟩
    · rw [hnext]
      exact ⟨[r.sequence + 1], by simp [hb.id], pairwise_singleton _ _, by simp⟩
    · simp only [made_createdLog, toList_some, mem_singleton] at hb'
      rw [hb']
      exact hb.deadline
    · simp only [createdLog, toList_some, map_cons, map_nil, mem_singleton] at hx
      subst hx
      cases hkind
    · cases hlook : r.index.active.lookup (r.sequence + 1) with
      | none => rfl
      | some a => exact absurd (hbelow _ a hlook) (Nat.not_succ_le_self _)

/-- The bans of a cell before and after an observation. -/
theorem observeClient_bans (r : Registry) (profile : ScenarioProfile) (t : Ticket)
    (status now : Nat) (c : Client) :
    let out := r.observeClient profile t status now c
    out.2.expiredBan = c.dueBan now ∧
      (c.ban.toList : Multiset Decision) + out.2.createdBan.toList =
        (c.dueBan now).toList + (out.1.ban.toList : Multiset Decision) := by
  simp only [observeClient]
  split
  · exact ⟨rfl, by rw [Client.ban_settled c now]; simp⟩
  case isFalse hfresh =>
    simp only [staleTicket, Bool.or_eq_true, not_or, Bool.not_eq_true,
      isSome_eq_false_iff, isNone_iff_eq_none] at hfresh
    have hban := Client.ban_settled c now
    rw [hfresh.2] at hban
    split
    · exact ⟨rfl, by rw [hban]; simp [hfresh.2]⟩
    · exact ⟨rfl, by rw [hban]; simp⟩

theorem observeClient_newBan (h : ban ∈ (r.observeClient profile t status now c).2.createdBan) :
    NewBan r (r.observeClient profile t status now c).2 ban := by
  simp only [observeClient] at h ⊢
  split at h
  · cases h
  case isFalse hfresh =>
    rw [if_neg hfresh]
    split at h
    · cases h
    case h_2 crossing hcrossing =>
      obtain rfl := Option.some.inj h
      refine ⟨rfl, satAdd64_le, ?_⟩
      have hmem := mem_of_find?_eq_some hcrossing
      cases hlist : ((c.settled now).counters.observe profile.config now t.login t.path status).1 with
      | nil => rw [hlist] at hmem; cases hmem
      | cons _ _ => rfl

theorem Recorded.below (h : Recorded now log r r') (hmade : made log = [])
    (hbelow : r.index.Below r.sequence) : r'.index.Below r.sequence :=
  fun n a ha => by
    rcases h.index.found n a ha with ha | ⟨hb, -⟩
    · exact hbelow n a ha
    · rw [hmade] at hb; cases hb

theorem expireFound_sequence (r : Registry) (now : Nat) (found : Option Decision) :
    (r.expireFound now found).sequence = r.sequence := by
  cases found <;> rfl

theorem reportDetections_sequence (ticket : Ticket) (now : Nat) (crossings : List Crossing)
    (r : Registry) :
    (crossings.foldl (fun r crossing => r.reportDetection ticket now crossing) r).sequence =
      r.sequence := by
  induction crossings generalizing r with
  | nil => rfl
  | cons crossing crossings ih =>
    have hone : (r.reportDetection ticket now crossing).sequence = r.sequence := by
      unfold Registry.reportDetection
      split <;> rfl
    exact (ih _).trans hone

theorem settleObserved_sequence (r : Registry) (ticket : Ticket) (now : Nat)
    (o : Observed) : r.sequence ≤ (r.settleObserved ticket now o).sequence := by
  have hbefore := (reportDetections_sequence ticket now o.crossings
    (r.expireFound now o.expiredBan)).trans (expireFound_sequence r now o.expiredBan)
  have hrecord : ∀ (r₁ : Registry) (ban : Option Decision),
      (r₁.recordBan ticket now ban).sequence = r₁.sequence := fun r₁ ban => by cases ban <;> rfl
  simp only [Registry.settleObserved, Registry.countObserved, hrecord, hbefore]
  split
  · exact Nat.le_succ _
  · exact Nat.le_refl _

theorem settleObserved_recorded (hdue : ∀ b ∈ o.expiredBan, b.deadline ≤ now)
    (hnew : ∀ ban ∈ o.createdBan, NewBan r o ban)
    (hsmall : (r.settleObserved ticket now o).sequence < 2 ^ 64) (hbelow : r.index.Below r.sequence) :
    Recorded now (expiredLog now o.expiredBan.toList ++ createdLog now o.createdBan) r
      (r.settleObserved ticket now o) := by
  unfold Registry.settleObserved at hsmall ⊢
  have hexpire := expireFound_recorded r o.expiredBan hdue
  have hreport : Recorded now [] _ _ :=
    reportDetections_recorded ticket o.crossings (r.expireFound now o.expiredBan)
  have hsequence := (reportDetections_sequence ticket now o.crossings
    (r.expireFound now o.expiredBan)).trans (expireFound_sequence r now o.expiredBan)
  have hfirst := hexpire.trans hreport
  rw [append_nil] at hfirst
  simp only at hsmall ⊢
  generalize o.crossings.foldl (fun r crossing => r.reportDetection ticket now crossing)
    (r.expireFound now o.expiredBan) = r₁ at hfirst hsequence hsmall ⊢
  refine hfirst.trans (recordBan_recorded (fun ban hban => ?_) (fun hsome => ?_) ?_)
  · have h := hnew ban hban
    exact ⟨by rw [hsequence, hfirst.epoch]; exact h.id, h.deadline, h.crossed⟩
  · obtain ⟨ban, hban⟩ := isSome_iff_exists.mp hsome
    have hcrossed := (hnew ban hban).crossed
    simpa [Registry.countObserved, Registry.recordBan, hban, hcrossed, Registry.transition]
      using hsmall
  · rw [hsequence]
    exact hfirst.below (made_expiredLog _ _) hbelow

theorem observe_turnover (hl : r.Lasting)
    (hsmall : (r.observe now t status localDenial).2.sequence < 2 ^ 64)
    (hbelow : r.index.Below r.sequence) :
    ∃ log, Turnover now log r (r.observe now t status localDenial).2 := by
  simp only [Registry.observe] at hsmall ⊢
  split at hsmall
  case isTrue h => rw [if_pos h]; exact ⟨[], .refl now hl⟩
  case isFalse h =>
    rw [if_neg h]
    split at hsmall
    case h_1 => exact ⟨[], hl, Recorded.silent rfl rfl (Nat.le_refl _) rfl rfl rfl, .inl rfl⟩
    case h_2 profile _ =>
      split at hsmall
      case h_1 hmissed =>
        exact ⟨[], updateClient_missed_turnover now _ t.domain t.key hl hmissed⟩
      case h_2 o ho =>
        have hupdate := updateClient_recorded now (r.observeClient profile t status now) t.domain
          t.key r
        obtain ⟨c, -, rfl, hbans⟩ := updateClient_bans now _ t.domain t.key hl ho
        have hsequence := updateClient_sequence r now t.domain t.key
          (r.observeClient profile t status now)
        obtain ⟨hexpired, hcell⟩ := observeClient_bans r profile t status now c
        refine ⟨_, .report (updateClient_lasting now _ t.domain t.key hl) hupdate
          (Quiet.settleObserved _ t now _) (settleObserved_recorded (fun b hb => ?_)
            (fun ban hban => ?_) hsmall ?_) (.inl ?_)⟩
        · rw [hexpired] at hb
          exact (Client.dueBan_deadline hb).1
        · have hnew := observeClient_newBan hban
          exact ⟨by rw [hsequence, hupdate.epoch]; exact hnew.id, hnew.deadline, hnew.crossed⟩
        · rw [hsequence]
          exact hupdate.below rfl hbelow
        · simp only [ended_append, ended_expiredLog, ended_createdLog, made_append, made_expiredLog,
            made_createdLog, append_nil, nil_append, hexpired]
          exact bans_swap hbans hcell

/-- The bans of a cell before and after a release. -/
theorem releaseClient_bans (now : Nat) (id : String) (c : Client) :
    let out := releaseClient now id c
    out.2.1 = c.dueBan now ∧ (c.ban.toList : Multiset Decision) =
      ((c.dueBan now).toList ++ out.2.2.toList : List Decision) +
        (out.1.ban.toList : Multiset Decision) := by
  have hsettled := Client.ban_settled c now
  simp only [releaseClient]
  split
  case h_1 ban hban =>
    split
    · exact ⟨rfl, by rw [hsettled, hban, ← Multiset.coe_add]; simp⟩
    · exact ⟨rfl, by rw [hsettled]; simp⟩
  case h_2 => exact ⟨rfl, by rw [hsettled]; simp⟩

theorem release_turnover (sha256 : String → Digest) (hl : r.Lasting)
    {ns domain identity id : String} (hnumbers : ∀ b ∈ r.bans, (decisionSequence b.id).isSome) :
    ∃ log, Turnover now log r (releaseAs sha256 r now ns domain identity id actor).2 := by
  simp only [releaseAs]
  generalize releaseKey sha256 ns identity = key
  split
  case h_1 hmissed => exact ⟨[], updateClient_missed_turnover now _ domain key hl hmissed⟩
  case h_2 due lifted hfound =>
    obtain ⟨c, hc, hx, hbans⟩ := updateClient_bans now _ domain key hl hfound
    obtain ⟨hdue, hcell⟩ := releaseClient_bans now id c
    obtain ⟨rfl, rfl⟩ : due = c.dueBan now ∧ lifted = (releaseClient now id c).2.2 := by
      rw [← hx] at hdue
      exact ⟨hdue, by rw [← hx]⟩
    have hdeadline : ∀ b ∈ c.dueBan now, b.deadline ≤ now ∧ c.ban = some b :=
      fun b hb => Client.dueBan_deadline hb
    have hnumber : ∀ b ∈ c.dueBan now, (decisionSequence b.id).isSome := fun b hb =>
      hnumbers b ((mem_bans r b).mpr ⟨domain, key, by
        rw [banAt, hc]; exact (hdeadline b hb).2⟩)
    refine ⟨_, .report (updateClient_lasting now _ domain key hl)
      (updateClient_recorded now _ domain key r)
      ((Quiet.expireReleased _ now _).trans (Quiet.finishRelease _ now actor _))
      ((expireReleased_recorded (fun b hb => (hdeadline b hb).1) hnumber).trans
        (finishRelease_recorded)) (.inl ?_)⟩
    simp only [ended_append, ended_expiredLog, ended_releasedLog, made_append, made_expiredLog,
      made_releasedLog, append_nil]
    exact bans_swap hbans (by rw [hcell]; simp)

theorem sequence_release {id : String} :
    (releaseAs sha256 r now ns domain identity id actor).2.sequence = r.sequence := by
  have hexpire : ∀ (r₁ : Registry) (due : Option Decision),
      (r₁.expireReleased now due).sequence = r₁.sequence := fun r₁ due => by
    cases due with
    | none => rfl
    | some ban => simp only [Registry.expireReleased]; split <;> rfl
  have hfinish : ∀ (r₁ : Registry) (lifted : Option Decision),
      (r₁.finishRelease now actor lifted).2.sequence = r₁.sequence := fun r₁ lifted => by
    cases lifted <;> rfl
  simp only [releaseAs]
  split
  · exact updateClient_sequence r now domain _ _
  · rw [hfinish, hexpire, updateClient_sequence]

theorem sequence_stepListing (r : Registry) (now : Nat) (l : Listing) :
    (r.stepListing now l).2.sequence = r.sequence := by
  have hone : ∀ (r₁ : Registry) (entry : Nat × Nat),
      (r₁.expireIndexed now l.now entry).sequence = r₁.sequence := fun r₁ entry => by
    unfold expireIndexed
    split
    · rfl
    have hlisted : ∀ (r₂ : Registry) (found : Option Decision),
        (r₂.expireListed l.now found).sequence = r₂.sequence := fun r₂ found => by
      cases found <;> rfl
    simp only [hlisted, updateClient_sequence]
  have hfold : ∀ (due : List (Nat × Nat)) (r₁ : Registry),
      (due.foldl (fun r entry => r.expireIndexed now l.now entry) r₁).sequence = r₁.sequence := by
    intro due
    induction due with
    | nil => exact fun _ => rfl
    | cons entry due ih => exact fun r₁ => (ih _).trans (hone r₁ entry)
  unfold Registry.stepListing
  split
  · rfl
  · split
    · rfl
    · exact hfold _ r
  · split
    · rfl
    split
    · rfl
    · split <;> rfl

/-- The deadlines in the expiry order are those of the entries. -/
def BanIndex.Dated (i : BanIndex) : Prop :=
  ∀ x n a, (x, n) ∈ i.expiry → i.active.lookup n = some a → a.decision.deadline = x

theorem expireClient_bans (listingNow : Nat) (id : String) (c : Client) :
    let out := expireClient listingNow id c
    (∀ b ∈ out.2, b.deadline ≤ listingNow) ∧ (c.ban.toList : Multiset Decision) =
      out.2.toList + (out.1.ban.toList : Multiset Decision) := by
  simp only [expireClient]
  split
  · exact ⟨fun b hb => (Client.dueBan_deadline hb).1, Client.ban_settled c listingNow⟩
  · exact ⟨fun b hb => (by cases hb), by simp⟩

/-- The record of a due entry of a listing, whose number leaves the index. -/
theorem expireListed_recorded (hle : listingNow ≤ now)
    (hfound : ∀ b ∈ found, b.deadline ≤ listingNow)
    (hdue : ∀ a, r.index.active.lookup n = some a → a.decision.deadline ≤ now) :
    Recorded now (expiredLog listingNow found.toList) r
      { r.expireListed listingNow found with
        index := (r.expireListed listingNow found).index.removeActive n } := by
  have hindex : (r.expireListed listingNow found).index = r.index := by cases found <;> rfl
  have hremove : Reindexed now (expiredLog listingNow found.toList) r.index
      ((r.expireListed listingNow found).index.removeActive n) := by
    rw [hindex]
    exact .of_removed n (made_expiredLog _ _) (removeActive_lookup)
      (fun a ha => .inr (hdue a ha)) (removeActive_expiry)
  cases found with
  | none =>
    exact ⟨(append_nil _).symm, rfl, Nat.le_refl _, numbered_nil, by simp,
      by simp [expiredLog], rfl, rfl, hremove⟩
  | some ban =>
    refine ⟨rfl, rfl, Nat.le_refl _, numbered_nil, by simp, fun x hx _ => ?_, rfl, ?_, hremove⟩
    · simp only [expiredLog, toList_some, map_cons, map_nil, mem_singleton] at hx
      subst hx
      exact ⟨hfound ban rfl, hle⟩
    · simp [Registry.expireListed, Registry.transition]; omega

/-- A due entry of a listing: its ban, if a cell holds it, is taken out and
reported, and the entry goes. -/
theorem expireIndexed_turnover (hl : r.Lasting) {listingNow : Nat} (hle : listingNow ≤ now)
    (hdue : ∀ a, r.index.active.lookup entry.2 = some a → a.decision.deadline ≤ now) :
    ∃ log, Turnover now log r (r.expireIndexed now listingNow entry) ∧ made log = [] := by
  unfold expireIndexed
  split
  case h_1 hnone =>
    exact ⟨[], ⟨hl, ⟨by simp, rfl, Nat.le_refl _, numbered_nil, by simp, by simp, rfl, rfl,
      ⟨fun _ _ h => .inl h, fun _ _ h => .inl h, by simp,
        fun x n h => .inl (mem_of_mem_erase h)⟩⟩, .inl rfl⟩, rfl⟩
  case h_2 a ha =>
    generalize hchange : expireClient listingNow a.decision.id = change
    have hupdate := updateClient_recorded now change a.domain a.key r
    have hlasting := updateClient_lasting now change a.domain a.key hl
    have hstill : ∀ a', (r.updateClient now a.domain a.key change).2.index.active.lookup entry.2 =
        some a' → a'.decision.deadline ≤ now := fun a' ha' => by
      rcases hupdate.index.found _ a' ha' with h | ⟨h, -⟩
      · exact hdue a' h
      · cases h
    obtain ⟨hfound, hbans⟩ :
        (∀ b ∈ (r.updateClient now a.domain a.key change).1.join, b.deadline ≤ listingNow) ∧
        Balanced now ((r.updateClient now a.domain a.key change).2.bans +
          ((r.updateClient now a.domain a.key change).1.join.toList : Multiset Decision))
            r.bans := by
      cases hfound : (r.updateClient now a.domain a.key change).1 with
      | none =>
        have hmissed := (updateClient_missed_turnover now change a.domain a.key hl hfound).bans
        exact ⟨fun b hb => (by cases hb), by simpa using hmissed⟩
      | some found =>
        obtain ⟨c, -, rfl, hswap⟩ := updateClient_bans now change a.domain a.key hl hfound
        subst hchange
        obtain ⟨hdeadline, hcell⟩ := expireClient_bans listingNow a.decision.id c
        refine ⟨hdeadline, .inl ?_⟩
        have hgone := bans_swap hswap (v := 0) (by rw [add_zero, hcell])
        rwa [add_zero] at hgone
    refine ⟨_, .report hlasting hupdate
      ((Quiet.expireListed _ listingNow _).trans ⟨rfl, rfl, rfl, rfl, rfl, rfl⟩)
      (expireListed_recorded hle hfound hstill) ?_, made_expiredLog _ _⟩
    rw [ended_expiredLog, made_expiredLog]
    simpa using hbans

/-- A lock hold of a listing. -/
theorem stepListing_turnover (hl : r.Lasting) (hdated : r.index.Dated) (hle : l.now ≤ now) :
    ∃ log, Turnover now log r (r.stepListing now l).2 := by
  have hsame : ∃ log, Turnover now log r r := ⟨[], .refl now hl⟩
  have hfold : ∀ (due : List (Nat × Nat)) (r₁ : Registry), r₁.Lasting →
      (∀ entry ∈ due, ∀ a, r₁.index.active.lookup entry.2 = some a → a.decision.deadline ≤ now) →
      ∃ log, Turnover now log r₁
        (due.foldl (fun r entry => r.expireIndexed now l.now entry) r₁) := by
    intro due
    induction due with
    | nil => exact fun r₁ hl₁ _ => ⟨[], .refl now hl₁⟩
    | cons entry due ih =>
      intro r₁ hl₁ hdue
      obtain ⟨log, hfirst, hmade⟩ := expireIndexed_turnover hl₁ hle (hdue entry (mem_cons_self ..))
      obtain ⟨log', hrest⟩ := ih _ hfirst.lasting fun e he a ha => by
        rcases hfirst.recorded.index.found _ a ha with ha | ⟨hb, -⟩
        · exact hdue e (mem_cons_of_mem _ he) a ha
        · rw [hmade] at hb; cases hb
      exact ⟨_, hfirst.trans hrest⟩
  unfold Registry.stepListing
  split
  · exact hsame
  · split
    · exact hsame
    refine hfold _ r hl fun entry hentry a ha => ?_
    have hin := mem_of_mem_take hentry
    have htime := mem_takeWhile_imp hin
    rw [hdated entry.1 entry.2 a ((takeWhile_sublist _).subset hin) ha]
    exact Nat.le_trans (of_decide_eq_true htime) hle
  · split
    · exact hsame
    split
    · exact hsame
    · split <;> exact hsame

/-! ## Rebuilding the index -/

/-- What an activation or a host change leaves: some of the bans, unreported, and
an index made from the cells. -/
structure Rebuilt (now : Nat) (r r' : Registry) : Prop where
  lasting : r'.Lasting
  epoch : r'.epoch = r.epoch
  sequence : r'.sequence = r.sequence
  transitions : r'.transitions = r.transitions
  bans : r'.bans ≤ r.bans
  index : r'.index = BanIndex.rebuild r'.domains now

theorem retainHosts_rebuilt (hl : r.Lasting) : Rebuilt now r (r.retainHosts now hosts) := by
  refine ⟨(retainHosts_steady hl now hosts).lasting, rfl, rfl, rfl, bans_le fun d k => ?_, rfl⟩
  rw [banAt, retainHosts_cell]
  split
  · exact .inr rfl
  · exact .inl rfl

theorem activate_rebuilt (hl : r.Lasting) :
    Rebuilt now r (r.activateWithRetained now profiles retained) := by
  refine ⟨(activate_steady hl now profiles retained).lasting, rfl, rfl, rfl, bans_le fun d k => ?_,
    rfl⟩
  rw [banAt]
  rcases activate_cell hl now profiles retained d k with h | ⟨-, h⟩
  · rw [h, banAt]
    cases r.cell d k with
    | none => exact .inl rfl
    | some c =>
      by_cases hin : Registry.inForce (r.activateWithRetained now profiles retained).profiles c = true
      · exact .inl (by rw [filter_some, if_pos hin])
      · exact .inr (by rw [filter_some, if_neg hin]; rfl)
  · exact .inr (by rw [h]; rfl)

/-- The rows a rebuild collects from the cells. -/
def rebuildRows (domains : KeyedMap String ClientBucket) (now : Nat) :
    List (Nat × ActiveDecision) :=
  domains.entries.flatMap fun e => BanIndex.collect e.1 e.2 now

theorem mem_collect :
    (n, a) ∈ BanIndex.collect d b now ↔ a.domain = d ∧ now < a.decision.deadline ∧
      decisionSequence a.decision.id = some n ∧
      ∃ c, (a.key, c) ∈ b.store.visit now b.domain ∧ c.ban = some a.decision := by
  simp only [BanIndex.collect, mem_filterMap]
  constructor
  · rintro ⟨⟨k, c⟩, hc, h⟩
    split at h
    case h_2 => cases h
    case h_1 ban hban =>
      split at h
      case isFalse => cases h
      case isTrue hrun =>
        obtain ⟨m, hm, he⟩ := map_eq_some_iff.mp h
        obtain ⟨rfl, rfl⟩ := Prod.mk.inj he
        exact ⟨rfl, hrun, hm, c, hc, hban⟩
  · rintro ⟨rfl, hrun, hn, c, hc, hban⟩
    exact ⟨(a.key, c), hc, by simp [hban, hrun, hn]⟩

theorem mem_rebuildRows (hl : r.Lasting) (n : Nat) (a : ActiveDecision) :
    (n, a) ∈ rebuildRows r.domains now ↔ now < u64Max ∧ a ∈ r.held ∧ now < a.decision.deadline ∧
      decisionSequence a.decision.id = some n := by
  simp only [rebuildRows, mem_flatMap, mem_collect]
  constructor
  · rintro ⟨⟨d, b⟩, hb, rfl, hrun, hn, c, hc, hban⟩
    have hlook := (mem_entries_iff _ _ _).mp hb
    rw [visit_clients b (hl _ b hlook)] at hc
    split at hc
    case isFalse => cases hc
    case isTrue hnow =>
      refine ⟨hnow, (mem_held r a).mpr ?_, hrun, hn⟩
      rw [banAt, cell_of_lookup hlook, (b.mem_clients a.key c).mp hc]
      exact hban
  · rintro ⟨hnow, hheld, hrun, hn⟩
    have hban := (mem_held r a).mp hheld
    simp only [banAt, Registry.cell, bind_eq_some_iff] at hban
    obtain ⟨c, ⟨b, hb, hc⟩, hban⟩ := hban
    refine ⟨⟨a.domain, b⟩, (mem_entries_iff _ _ _).mpr hb, rfl, hrun, hn, c, ?_, hban⟩
    rw [visit_clients b (hl a.domain b hb), if_pos hnow]
    exact (b.mem_clients a.key c).mpr hc

/-- An index entry after a rebuild is of a running ban that a cell holds. -/
theorem rebuild_found (hl : r.Lasting)
    (h : (BanIndex.rebuild r.domains now).active.lookup n = some a) :
    a.decision ∈ r.bans ∧ decisionSequence a.decision.id = some n := by
  rcases lookup_foldl_insert _ _ n a h with h | h
  · obtain ⟨-, hheld, -, hn⟩ := (mem_rebuildRows hl n a).mp h
    exact ⟨(mem_bans r _).mpr ⟨a.domain, a.key, (mem_held r a).mp hheld⟩, hn⟩
  · simp at h

/-- Every running ban that a cell holds is in the index after a rebuild. -/
theorem rebuild_entered (hl : r.Lasting) (hb : b ∈ r.bans) (hrun : now < b.deadline)
    (hbounded : b.deadline ≤ u64Max) (hn : decisionSequence b.id = some n) :
    ∃ a, (BanIndex.rebuild r.domains now).active.lookup n = some a := by
  obtain ⟨d, k, hban⟩ := (mem_bans r b).mp hb
  have hrow : (n, (⟨b, d, k⟩ : ActiveDecision)) ∈ rebuildRows r.domains now :=
    (mem_rebuildRows hl n _).mpr ⟨Nat.lt_of_lt_of_le hrun hbounded, (mem_held r _).mpr hban, hrun, hn⟩
  exact isSome_iff_exists.mp (isSome_lookup_foldl_insert _ _ n (.inl ⟨⟨b, d, k⟩, hrow⟩))

theorem mem_foldl_insertExpiry {rows : List (Σ _ : Nat, ActiveDecision)}
    (h : e ∈ rows.foldl (fun l row => BanIndex.insertExpiry (row.2.decision.deadline, row.1) l) l) :
    e ∈ l ∨ ∃ row ∈ rows, e = (row.2.decision.deadline, row.1) := by
  induction rows generalizing l with
  | nil => exact .inl h
  | cons row rows ih =>
    rcases ih h with h | ⟨row', hrow', he⟩
    · rcases mem_insertExpiry h with h | h
      · exact .inr ⟨row, mem_cons_self, h⟩
      · exact .inl h
    · exact .inr ⟨row', mem_cons_of_mem _ hrow', he⟩

theorem rebuild_expiry (h : (x, n) ∈ (BanIndex.rebuild domains now).expiry) :
    ∃ a, (BanIndex.rebuild domains now).active.lookup n = some a ∧ a.decision.deadline = x := by
  rcases mem_foldl_insertExpiry h with h | ⟨⟨m, a⟩, hrow, he⟩
  · cases h
  · obtain ⟨rfl, rfl⟩ := Prod.mk.inj he
    exact ⟨a, (mem_entries_iff _ _ _).mp hrow, rfl⟩

end others

end AbuseRegistry
