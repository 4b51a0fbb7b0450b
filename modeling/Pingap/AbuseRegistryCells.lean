import Pingap.AbuseRegistry
import Pingap.DomainStoreForever

/-!
# What the registry's operations do to a client's cell

A client's cell is found under its domain and its key. For every operation of the
registry this module says what the cell can become, and what else the operation
leaves alone. The results about bans are inductions over these facts and never
look inside an operation again.
-/

namespace AbuseRegistry

open MachineArith AbuseScenario DomainStoreForever AList Option
open DomainStore (HostPolicy Limits ScopedStore Domain)
open EventQueue (NativeKind NativeActor)
open Registry hiding hosts limits profiles

def ClientBucket.client (b : ClientBucket) (key : String) : Option Client :=
  valueAt b.store b.domain key

def Registry.cell (r : Registry) (domain key : String) : Option Client :=
  (r.domains.lookup domain).bind fun b => b.client key

/-- No client is stored with an end: cells leave only when the registry drops them. -/
def Registry.Lasting (r : Registry) : Prop :=
  ∀ domain b, r.domains.lookup domain = some b → Forever b.store b.domain

/-- The step only touched the index, the counters, the sequence or the audit trail. -/
structure Quiet (r r' : Registry) : Prop where
  domains : r'.domains = r.domains
  profiles : r'.profiles = r.profiles
  hosts : r'.hosts = r.hosts
  incarnation : r'.incarnation = r.incarnation
  epoch : r'.epoch = r.epoch
  limits : r'.limits = r.limits

namespace Quiet

variable {r r' r'' : Registry}

theorem refl (r : Registry) : Quiet r r := ⟨rfl, rfl, rfl, rfl, rfl, rfl⟩

theorem trans (h : Quiet r r') (h' : Quiet r' r'') : Quiet r r'' where
  domains := h'.domains.trans h.domains
  profiles := h'.profiles.trans h.profiles
  hosts := h'.hosts.trans h.hosts
  incarnation := h'.incarnation.trans h.incarnation
  epoch := h'.epoch.trans h.epoch
  limits := h'.limits.trans h.limits

theorem foldl (f : Registry → α → Registry) (hf : ∀ r a, Quiet r (f r a)) (l : List α)
    (r : Registry) : Quiet r (l.foldl f r) := by
  induction l generalizing r with
  | nil => exact refl r
  | cons a l ih => exact (hf r a).trans (ih (f r a))

section

variable (r : Registry)

theorem transition (kind : NativeKind) (ban : Decision) (now : Nat)
    (actor : NativeActor) : Quiet r (r.transition kind ban now actor).2 :=
  ⟨rfl, rfl, rfl, rfl, rfl, rfl⟩

theorem expireBan (now : Nat) (ban : Decision) : Quiet r (r.expireBan now ban) :=
  ⟨rfl, rfl, rfl, rfl, rfl, rfl⟩

theorem reportDetection (ticket : Ticket) (now : Nat) (crossing : Crossing) :
    Quiet r (r.reportDetection ticket now crossing) := by
  unfold Registry.reportDetection
  split
  · exact ⟨rfl, rfl, rfl, rfl, rfl, rfl⟩
  · exact refl r

theorem expireFound (now : Nat) (found : Option Decision) : Quiet r (r.expireFound now found) := by
  cases found with
  | none => exact refl r
  | some ban => exact expireBan r now ban

theorem recordBan (ticket : Ticket) (now : Nat) (created : Option Decision) :
    Quiet r (r.recordBan ticket now created) := by
  cases created with
  | none => exact refl r
  | some ban => exact ⟨rfl, rfl, rfl, rfl, rfl, rfl⟩

theorem countObserved (o : Observed) : Quiet r (r.countObserved o) := ⟨rfl, rfl, rfl, rfl, rfl, rfl⟩

theorem settleObserved (ticket : Ticket) (now : Nat) (o : Observed) :
    Quiet r (r.settleObserved ticket now o) :=
  (expireFound r now o.expiredBan).trans <|
    (foldl _ (fun r crossing => reportDetection r ticket now crossing) o.crossings _).trans <|
      (recordBan _ ticket now o.createdBan).trans (countObserved _ o)

theorem expireReleased (now : Nat) (due : Option Decision) :
    Quiet r (r.expireReleased now due) := by
  cases due with
  | none => exact refl r
  | some ban =>
    simp only [Registry.expireReleased]
    split
    · exact ⟨rfl, rfl, rfl, rfl, rfl, rfl⟩
    · exact transition r _ _ _ _

theorem finishRelease (now : Nat) (actor : NativeActor) (lifted : Option Decision) :
    Quiet r (r.finishRelease now actor lifted).2 := by
  cases lifted with
  | none => exact refl r
  | some ban => exact ⟨rfl, rfl, rfl, rfl, rfl, rfl⟩

theorem expireListed (listingNow : Nat) (found : Option Decision) :
    Quiet r (r.expireListed listingNow found) := by
  cases found with
  | none => exact refl r
  | some ban => exact ⟨rfl, rfl, rfl, rfl, rfl, rfl⟩

end

theorem cell (h : Quiet r r') (domain key : String) : r'.cell domain key = r.cell domain key := by
  unfold Registry.cell; rw [h.domains]

theorem lasting (h : Quiet r r') (hl : r.Lasting) : r'.Lasting := by
  unfold Lasting; rw [h.domains]; exact hl

end Quiet

/-! ## One client's cell -/

namespace Client

section

variable (c : Client) (now : Nat)

@[simp] theorem settled_ns : (c.settled now).ns = c.ns := by
  unfold settled; split <;> rfl

@[simp] theorem settled_generation : (c.settled now).generation = c.generation := by
  unfold settled; split <;> rfl

@[simp] theorem settled_incarnation : (c.settled now).incarnation = c.incarnation := by
  unfold settled; split <;> rfl

theorem settled_of_not_due (h : c.banDue now = false) : c.settled now = c := by
  simp [settled, h]

theorem banDue_settled : (c.settled now).banDue now = false := by
  unfold settled
  split
  case isTrue => rfl
  case isFalse h => simpa using h

theorem settled_settled : (c.settled now).settled now = c.settled now :=
  settled_of_not_due _ _ (banDue_settled c now)

end

/-- A ban that is not due stays where it is. -/
theorem settled_of_lt {c : Client} (hb : c.ban = some b) (hnow : now < b.deadline) :
    c.settled now = c :=
  settled_of_not_due c now (by simp [banDue, hb, hnow])

theorem settled_idleAt (c : Client) :
    ({ c with idleAt := x } : Client).settled now = { c.settled now with idleAt := x } := by
  unfold settled banDue
  split <;> rfl

end Client

/-- A cell made by an admission: nothing observed yet, no ban, and an incarnation
beyond every earlier one. -/
structure Fresh (before after : Nat) (ns generation : String) (c : Client) : Prop where
  later : before < after
  incarnation : c.incarnation = after
  reset : c.reset = 0
  counters : c.counters = Counters.empty
  ban : c.ban = none
  ns : c.ns = ns
  generation : c.generation = generation

/-- What housekeeping at `now` may do to a cell. A cell is given up only when it
is under no ban that still runs, or at the end of the clock; a new one, of which
`made` holds, takes its place only then or where there was none. -/
inductive Tended (now : Nat) (made : Client → Prop) : Option Client → Option Client → Prop where
  | same (o : Option Client) : Tended now made o o
  | idle (c : Client) (x : Nat) : Tended now made (some c) (some { c with idleAt := x })
  | settled (c : Client) (x : Nat) :
      Tended now made (some c) (some { c.settled now with idleAt := x })
  | gone (c : Client) (h : (c.settled now).ban = none ∨ u64Max ≤ now) :
      Tended now made (some c) none
  | fresh (o : Option Client) (f : Client) (hf : made f)
      (ho : ∀ c, o = some c → (c.settled now).ban = none ∨ u64Max ≤ now) :
      Tended now made o (some f)

namespace Tended

variable {now : Nat} {made : Client → Prop} {o o' o'' : Option Client}

theorem of_settled : Tended now made (some c) (some (c.settled now)) :=
  settled c (c.settled now).idleAt

theorem mono (h : Tended now made o o') (hm : ∀ f, made f → made' f) : Tended now made' o o' := by
  cases h with
  | same => exact same o
  | idle c x => exact idle c x
  | settled c x => exact settled c x
  | gone c h => exact gone c h
  | fresh _ f hf ho => exact fresh o f (hm f hf) ho

theorem trans (hmade : ∀ f x, made f → f.ban = none ∧ made { f with idleAt := x })
    (h : Tended now made o o') (h' : Tended now made o' o'') : Tended now made o o'' := by
  cases h' with
  | same => exact h
  | idle c x =>
    cases h with
    | same => exact idle c x
    | idle c₀ y => exact idle c₀ x
    | settled c₀ y => exact settled c₀ x
    | fresh _ f hf ho => exact fresh o _ (hmade c x hf).2 ho
  | settled c x =>
    cases h with
    | same => exact settled c x
    | idle c₀ y => rw [Client.settled_idleAt]; exact settled c₀ x
    | settled c₀ y => rw [Client.settled_idleAt, Client.settled_settled]; exact settled c₀ x
    | fresh _ f hf ho =>
      have hnot : c.banDue now = false := by simp [Client.banDue, (hmade c 0 hf).1]
      rw [Client.settled_of_not_due c now hnot]
      exact fresh o _ (hmade c x hf).2 ho
  | gone c hgone =>
    cases h with
    | same => exact gone c hgone
    | idle c₀ y => rw [Client.settled_idleAt] at hgone; exact gone c₀ hgone
    | settled c₀ y =>
      rw [Client.settled_idleAt, Client.settled_settled] at hgone
      exact gone c₀ hgone
    | fresh _ f hf ho =>
      cases o with
      | none => exact same none
      | some c₀ => exact gone c₀ (ho c₀ rfl)
  | fresh _ f hf ho' =>
    refine fresh o f hf fun c₀ hc₀ => ?_
    subst hc₀
    cases h with
    | same => exact ho' c₀ rfl
    | idle _ y => have := ho' _ rfl; rwa [Client.settled_idleAt] at this
    | settled _ y =>
      have := ho' _ rfl
      rwa [Client.settled_idleAt, Client.settled_settled] at this
    | gone _ h => exact h
    | fresh _ _ _ ho => exact ho c₀ rfl

end Tended

/-! ## One bucket written back -/

/-- The operation kept the configuration and opened no domain. -/
structure Framed (r r' : Registry) : Prop where
  profiles : r'.profiles = r.profiles
  hosts : r'.hosts = r.hosts
  epoch : r'.epoch = r.epoch
  limits : r'.limits = r.limits
  known : ∀ d, (r'.domains.lookup d).isSome → (r.domains.lookup d).isSome

namespace Framed

variable {r r' r'' : Registry}

theorem refl (r : Registry) : Framed r r := ⟨rfl, rfl, rfl, rfl, fun _ h => h⟩

theorem trans (h : Framed r r') (h' : Framed r' r'') : Framed r r'' where
  profiles := h'.profiles.trans h.profiles
  hosts := h'.hosts.trans h.hosts
  epoch := h'.epoch.trans h.epoch
  limits := h'.limits.trans h.limits
  known := fun d hd => h.known d (h'.known d hd)

theorem of_quiet (h : Quiet r r') : Framed r r' :=
  ⟨h.profiles, h.hosts, h.epoch, h.limits, fun d hd => by rwa [h.domains] at hd⟩

end Framed

def Registry.withBucket (r : Registry) (domain : String) (b : ClientBucket) : Registry :=
  { r with domains := r.domains.insert domain b }

section withBucket

variable {r : Registry} {domain : String} {b b' : ClientBucket}

theorem cell_withBucket (r : Registry) (domain : String) (d key : String) :
    (r.withBucket domain b).cell d key = if d = domain then b.client key else r.cell d key := by
  simp only [Registry.cell, Registry.withBucket, lookup_insert_if]
  split <;> rfl

theorem lasting_withBucket (hl : r.Lasting) (hb : Forever b.store b.domain) :
    (r.withBucket domain b).Lasting := by
  intro d b₀ h
  simp only [Registry.withBucket, lookup_insert_if] at h
  split at h
  · obtain rfl := Option.some.inj h; exact hb
  · exact hl d b₀ h

theorem framed_withBucket (hb : r.domains.lookup domain = some b) :
    Framed r (r.withBucket domain b') := by
  refine ⟨rfl, rfl, rfl, rfl, fun d h => ?_⟩
  simp only [Registry.withBucket, lookup_insert_if] at h
  split at h
  case isTrue hd => rw [hd, hb]; rfl
  case isFalse => exact h

theorem cell_of_lookup (hb : r.domains.lookup domain = some b) (key : String) :
    r.cell domain key = b.client key := by
  simp [Registry.cell, hb]

end withBucket

section update

variable {ρ : Type} {r : Registry}

section

variable (hl : r.Lasting) (now : Nat) (domain key : String) (change : Client → Client × ρ)
include hl

/-- An update of one client: its cell changes as asked, every other one is kept. -/
theorem updateClient_spec :
    let r' := (r.updateClient now domain key change).2
    r'.Lasting ∧ Framed r r' ∧ r'.incarnation = r.incarnation ∧ ∀ d k,
      r'.cell d k = (if d = domain ∧ k = key then (r.cell domain key).map fun c => (change c).1
        else r.cell d k) ∨ (u64Max ≤ now ∧ r'.cell d k = none) := by
  unfold updateClient
  cases hb : r.domains.lookup domain with
  | none =>
    refine ⟨hl, Framed.refl r, rfl, fun d k => .inl ?_⟩
    by_cases h : d = domain ∧ k = key
    · obtain ⟨rfl, rfl⟩ := h
      simp [Registry.cell, hb]
    · simp [h]
  | some b =>
    have hturned := touch_turned (hl domain b hb) now key change
    refine ⟨lasting_withBucket hl hturned.forever, framed_withBucket hb, rfl, fun d k => ?_⟩
    change (r.withBucket domain _).cell d k = _ ∨ (_ ∧ (r.withBucket domain _).cell d k = none)
    rw [cell_withBucket]
    by_cases hd : d = domain
    · subst hd
      simp only [if_true, true_and, cell_of_lookup hb]
      rcases hturned.value k with hv | hv
      · left
        refine Eq.trans hv ?_
        split
        case isTrue hk => rw [hk]; rfl
        case isFalse => rfl
      · exact .inr hv
    · simp [hd]

theorem updateClient_some (x : ρ) (h : (r.updateClient now domain key change).1 = some x) :
    now < u64Max ∧ ∃ c, r.cell domain key = some c ∧ x = (change c).2 := by
  unfold updateClient at h
  cases hb : r.domains.lookup domain with
  | none => simp [hb] at h
  | some b =>
    rw [cell_of_lookup hb]
    rw [hb] at h
    exact touch_some (hl domain b hb) now key change x h

theorem updateClient_none (h : (r.updateClient now domain key change).1 = none) :
    r.cell domain key = none ∨ u64Max ≤ now := by
  unfold updateClient at h
  cases hb : r.domains.lookup domain with
  | none => left; simp [Registry.cell, hb]
  | some b =>
    rw [cell_of_lookup hb]
    rw [hb] at h
    exact touch_none (hl domain b hb) now key change h

/-- An update that found nothing changed nothing, up to the end of the clock. -/
theorem updateClient_missed (h : (r.updateClient now domain key change).1 = none) (d k : String) :
    (r.updateClient now domain key change).2.cell d k = r.cell d k ∨
      (u64Max ≤ now ∧ (r.updateClient now domain key change).2.cell d k = none) := by
  unfold updateClient at h ⊢
  cases hb : r.domains.lookup domain with
  | none => exact .inl rfl
  | some b =>
    rw [hb] at h
    change (r.withBucket domain _).cell d k = _ ∨ (_ ∧ (r.withBucket domain _).cell d k = none)
    rw [cell_withBucket]
    by_cases hd : d = domain
    · subst hd
      rw [if_pos rfl, cell_of_lookup hb]
      exact touch_missed (hl d b hb) now key change h k
    · exact .inl (by simp [hd])

end

/-- Before the end of the clock an update does exactly what it says. -/
theorem updateClient_timely (hl : r.Lasting) (hnow : now < u64Max)
    (domain key : String) (change : Client → Client × ρ) (d k : String) :
    (r.updateClient now domain key change).2.cell d k =
      if d = domain ∧ k = key then (r.cell domain key).map fun c => (change c).1
      else r.cell d k := by
  rcases (updateClient_spec hl now domain key change).2.2.2 d k with h | ⟨hlate, -⟩
  · exact h
  · omega

end update

/-! ## Admission -/

/-- The registry after some housekeeping of an admission at `now`. `made d k` is
what may be assumed of a cell that the admission made under `d` and `k`. -/
structure Tends (now : Nat) (made : String → String → Client → Prop) (r r' : Registry) :
    Prop where
  lasting : r'.Lasting
  framed : Framed r r'
  incarnation : r.incarnation ≤ r'.incarnation
  cells : ∀ d k, Tended now (made d k) (r.cell d k) (r'.cell d k)

namespace Tends

variable {now : Nat} {made : String → String → Client → Prop} {r r' r'' : Registry}

theorem refl (hl : r.Lasting) : Tends now made r r :=
  ⟨hl, Framed.refl r, Nat.le_refl _, fun _ _ => Tended.same _⟩

theorem trans (hmade : ∀ d k f x, made d k f → f.ban = none ∧ made d k { f with idleAt := x })
    (h : Tends now made r r') (h' : Tends now made r' r'') : Tends now made r r'' where
  lasting := h'.lasting
  framed := h.framed.trans h'.framed
  incarnation := Nat.le_trans h.incarnation h'.incarnation
  cells := fun d k => (h.cells d k).trans (hmade d k) (h'.cells d k)

theorem quiet (h : Tends now made r r') (hq : Quiet r' r'') : Tends now made r r'' where
  lasting := hq.lasting h.lasting
  framed := h.framed.trans (Framed.of_quiet hq)
  incarnation := by rw [hq.incarnation]; exact h.incarnation
  cells := fun d k => by rw [hq.cell]; exact h.cells d k

/-- An update that settles the client, or only moves its idle time. -/
theorem update (hl : r.Lasting) (domain key : String) (change : Client → Client × ρ)
    (hchange : ∀ c, (change c).1 = c.settled now ∨ ∃ x, (change c).1 = { c with idleAt := x }) :
    Tends now made r (r.updateClient now domain key change).2 := by
  obtain ⟨hl', hframe, hinc, hcell⟩ := updateClient_spec hl now domain key change
  refine ⟨hl', hframe, Nat.le_of_eq hinc.symm, fun d k => ?_⟩
  rcases hcell d k with h | ⟨hlate, h⟩
  · rw [h]
    split
    case isFalse => exact Tended.same _
    case isTrue hdk =>
      obtain ⟨rfl, rfl⟩ := hdk
      cases hc : r.cell d k with
      | none => exact Tended.same none
      | some c =>
        rcases hchange c with hs | ⟨x, hs⟩
        · simp only [map_some, hs]; exact Tended.of_settled
        · simp only [map_some, hs]; exact Tended.idle c x
  · rw [h]
    cases r.cell d k with
    | none => exact Tended.same none
    | some c => exact Tended.gone c (.inr hlate)

/-- A bucket whose store was turned client by client. -/
theorem turned (hl : r.Lasting) (hb : r.domains.lookup domain = some b)
    (hdom : b'.domain = b.domain) (ht : Turned now b.domain g b.store b'.store)
    (hg : ∀ k, Tended now (made domain k) (b.client k) (g k (b.client k))) :
    Tends now made r (r.withBucket domain b') := by
  refine ⟨lasting_withBucket hl (by rw [hdom]; exact ht.forever), framed_withBucket hb,
    Nat.le_refl _, fun d k => ?_⟩
  rw [cell_withBucket]
  split
  case isFalse => exact Tended.same _
  case isTrue hd =>
    subst hd
    rw [cell_of_lookup hb]
    have hv : b'.client k = valueAt b'.store b.domain k := by rw [← hdom]; rfl
    rw [hv]
    rcases ht.value k with h | ⟨hlate, h⟩
    · rw [h]; exact hg k
    rw [h]
    cases b.client k with
    | none => exact Tended.same none
    | some c => exact Tended.gone c (.inr hlate)

end Tends

section admissionSteps

variable {now : Nat} {made : String → String → Client → Prop} {r : Registry}

theorem currentBan_tends (hl : r.Lasting) : Tends now made r (r.currentBan now domain key).2 := by
  have h : Tends now made r (r.updateClient now domain key fun c =>
      (c.settled now, (c.dueBan now, (c.settled now).ban))).2 :=
    Tends.update hl domain key _ fun c => .inl rfl
  unfold currentBan
  split
  case h_1 he => rw [he] at h; exact h
  case h_2 he => rw [he] at h; exact h.quiet (Quiet.expireFound _ now _)

theorem currentBan_incarnation (hl : r.Lasting) :
    (r.currentBan now domain key).2.incarnation = r.incarnation := by
  have h := (updateClient_spec hl now domain key fun c =>
    (c.settled now, (c.dueBan now, (c.settled now).ban))).2.2.1
  unfold currentBan
  split
  case h_1 he => rw [he] at h; exact h
  case h_2 he => rw [he] at h; exact (Quiet.expireFound _ now _).incarnation.trans h

theorem currentBan_some (hl : r.Lasting) (h : (r.currentBan now domain key).1 = some ban) :
    now < u64Max ∧ ∃ c, r.cell domain key = some c ∧ ban = (c.settled now).ban := by
  unfold currentBan at h
  split at h
  case h_1 => cases h
  case h_2 due ban' r' he =>
    obtain rfl := Option.some.inj h
    obtain ⟨hnow, c, hc, hx⟩ := updateClient_some hl now domain key _ (due, ban') (by rw [he])
    exact ⟨hnow, c, hc, (Prod.mk.inj hx).2⟩

theorem currentBan_none (hl : r.Lasting)
    (h : (r.currentBan now domain key).1 = none) : r.cell domain key = none ∨ u64Max ≤ now := by
  unfold currentBan at h
  split at h
  case h_1 he => exact updateClient_none hl now domain key _ (by rw [he])
  case h_2 => cases h

/-- A look that found no client leaves none. -/
theorem currentBan_absent (hl : r.Lasting) (domain key : String)
    (hnone : (r.currentBan now domain key).1 = none) (c : Client)
    (hc : (r.currentBan now domain key).2.cell domain key = some c) : u64Max ≤ now := by
  have hlook : Tends now (fun _ _ _ => False) r (r.currentBan now domain key).2 :=
    currentBan_tends hl
  rcases currentBan_none hl hnone with h | h
  · have hcell := hlook.cells domain key
    rw [h, hc] at hcell
    cases hcell with
    | fresh _ _ hf _ => exact hf.elim
  · exact h

/-- The purge of a full bucket gives up only clients under no running ban. -/
theorem keepClient_tended : Tended now (made d k) (some c) (keepClient now c) := by
  simp only [keepClient]
  split
  case isTrue => exact Tended.of_settled
  case isFalse h =>
    refine Tended.gone c (.inl ?_)
    simp only [Bool.or_eq_true, not_or, Bool.not_eq_true, isSome_eq_false_iff] at h
    simpa using h.1

theorem makeRoom_tends (hl : r.Lasting) (hb : r.domains.lookup domain = some b) :
    Tends now made r (r.makeRoom now profile ns domain b).2 := by
  have hcount := entries_turned (hl domain b hb) now
  simp only [makeRoom]
  split
  · refine Tends.quiet ?_ (Quiet.foldl _ (fun r ban => Quiet.expireBan r now ban) _ _)
    have hpurge := hcount.trans (retain_turned hcount.forever now fun _ c =>
      keepClient now c) fun _ => rfl
    refine Tends.turned hl hb rfl hpurge fun k => ?_
    cases b.client k with
    | none => exact Tended.same none
    | some c => exact keepClient_tended
  · exact Tends.turned hl hb rfl hcount fun k => Tended.same _

/-- Making room makes no cell. -/
theorem makeRoom_absent (hl : r.Lasting) (profile : ScenarioProfile) (ns key : String)
    (hb : r.domains.lookup domain = some b)
    (hnone : ∀ c, r.cell domain key = some c → u64Max ≤ now) (c : Client)
    (hc : (r.makeRoom now profile ns domain b).2.cell domain key = some c) : u64Max ≤ now := by
  have htends : Tends now (fun _ _ _ => False) r (r.makeRoom now profile ns domain b).2 :=
    makeRoom_tends hl hb
  have hcell := htends.cells domain key
  rw [hc] at hcell
  cases hbefore : r.cell domain key with
  | some c₀ => exact hnone c₀ hbefore
  | none =>
    rw [hbefore] at hcell
    cases hcell with
    | fresh _ _ hf _ => exact hf.elim

theorem makeRoom_incarnation :
    (r.makeRoom now profile ns domain b).2.incarnation = r.incarnation := by
  simp only [makeRoom]
  split
  · exact (Quiet.foldl _ (fun r ban => Quiet.expireBan r now ban) _ _).incarnation
  · rfl

/-- An insertion that finds a place makes a fresh cell there and nowhere else. -/
theorem insertClient_tends (hl : r.Lasting) (hb : r.domains.lookup domain = some b)
    (hnone : ∀ c, r.cell domain key = some c → (c.settled now).ban = none ∨ u64Max ≤ now)
    (hfresh : made domain key (r.freshClient now profile ns)) :
    Tends now made r (r.insertClient now profile ns domain key b).2 := by
  have ht := insert_turned (hl domain b hb) now key (r.freshClient now profile ns)
  have hg : ∀ (ok : Prop) [Decidable ok] (k : String), Tended now (made domain k) (b.client k)
      (if k = key ∧ ok then some (r.freshClient now profile ns) else b.client k) := by
    intro ok _ k
    split
    case isFalse => exact Tended.same _
    case isTrue h =>
      obtain ⟨rfl, -⟩ := h
      refine Tended.fresh _ _ hfresh fun c hc => hnone c ?_
      rw [cell_of_lookup hb]; exact hc
  unfold insertClient
  split
  case h_1 hi =>
    rw [hi] at ht
    exact Tends.turned hl hb rfl ht fun k => hg _ k
  case h_2 hi =>
    rw [hi] at ht
    exact Tends.turned hl hb rfl ht fun k => hg _ k

theorem insertClient_incarnation :
    (r.insertClient now profile ns domain key b).2.incarnation = r.incarnation := by
  unfold insertClient
  split <;> rfl

theorem issueTicket_tends (hl : r.Lasting) :
    Tends now made r (r.issueTicket now profile ns domain identity key login path).2 :=
  Tends.update hl domain key _ fun _ => .inr ⟨_, rfl⟩

/-- The one cell an admission may make. -/
def Made (before after : Nat) (domain key ns generation : String) (d k : String) (f : Client) :
    Prop :=
  d = domain ∧ k = key ∧ Fresh before after ns generation f

theorem made_idle (before after : Nat) (domain key ns generation d k : String) (f : Client) (x : Nat)
    (h : Made before after domain key ns generation d k f) :
    f.ban = none ∧ Made before after domain key ns generation d k { f with idleAt := x } :=
  ⟨h.2.2.ban, h.1, h.2.1, ⟨h.2.2.later, h.2.2.incarnation, h.2.2.reset, h.2.2.counters, h.2.2.ban,
    h.2.2.ns, h.2.2.generation⟩⟩

/-- A client that has no cell gets one under a new incarnation, or nothing is made. -/
theorem createClient_tends (hl : r.Lasting) (profile : ScenarioProfile) (ns : String)
    (hnone : ∀ c, r.cell domain key = some c → u64Max ≤ now) :
    let r' := (r.createClient now profile ns domain key).2
    Tends now (Made r.incarnation r'.incarnation domain key ns profile.generation) r r' := by
  unfold createClient
  cases hb : r.domains.lookup domain with
  | none => exact Tends.refl hl
  | some b =>
    have hroom : ∀ made, Tends now made r (r.makeRoom now profile ns domain b).2 :=
      fun made => makeRoom_tends hl hb
    have hinc : (r.makeRoom now profile ns domain b).2.incarnation = r.incarnation :=
      makeRoom_incarnation
    have habsent := makeRoom_absent hl profile ns key hb hnone
    simp only
    generalize (r.makeRoom now profile ns domain b).2 = r₁ at hroom hinc habsent ⊢
    cases hb' : r₁.domains.lookup domain with
    | none => exact hroom _
    | some b' =>
      dsimp only
      split
      · exact hroom _
      -- Past the capacity check the attempt has its own incarnation, stored or not.
      rw [insertClient_incarnation]
      simp only [hinc]
      have hmade := made_idle r.incarnation (r.incarnation + 1) domain key ns profile.generation
      have hbump : Tends now (Made r.incarnation (r.incarnation + 1) domain key ns
          profile.generation) r₁ { r₁ with incarnation := r.incarnation + 1 } :=
        ⟨(hroom fun _ _ _ => False).lasting, ⟨rfl, rfl, rfl, rfl, fun _ h => h⟩,
          by rw [hinc]; exact Nat.le_succ _, fun _ _ => Tended.same _⟩
      have hfresh : Made r.incarnation (r.incarnation + 1) domain key ns profile.generation domain
          key ({ r₁ with incarnation := r.incarnation + 1 }.freshClient now profile ns) :=
        ⟨rfl, rfl, Nat.lt_succ_self _, rfl, rfl, rfl, rfl, rfl, rfl⟩
      exact (hroom _).trans hmade
        (hbump.trans hmade (insertClient_tends hbump.lasting hb' (fun c hc => .inr (habsent c hc)) hfresh))

/-- A ticket handed out names its cell: the incarnation and the reset are those
the cell has when the admission returns. -/
structure TicketFor (r : Registry) (profile : ScenarioProfile) (ns domain identity key : String)
    (login : Bool) (path : Digest) (r' : Registry) (t : Ticket) : Prop where
  cell : ∃ c, r'.cell domain key = some c ∧ t.incarnation = c.incarnation ∧ t.reset = c.reset
  epoch : t.epoch = r.epoch
  generation : t.generation = profile.generation
  ns : t.ns = ns
  domain : t.domain = domain
  identity : t.identity = identity
  key : t.key = key
  login : t.login = login
  path : t.path = path

section

variable (hl : r.Lasting) (profile : ScenarioProfile) (ns domain identity key : String)
    (login : Bool) (path : Digest)
include hl

theorem issueTicket_ticket (t : Ticket)
    (h : (r.issueTicket now profile ns domain identity key login path).1 = .allowed (some t)) :
    TicketFor r profile ns domain identity key login path
      (r.issueTicket now profile ns domain identity key login path).2 t := by
  simp only [issueTicket, Admission.allowed.injEq] at h
  obtain ⟨hnow, c, hc, rfl⟩ := updateClient_some hl now domain key _ t h
  refine ⟨⟨{ c with idleAt := satAdd64 now profile.idleMs }, ?_, rfl, rfl⟩, rfl, rfl, rfl, rfl, rfl,
    rfl, rfl, rfl⟩
  simp only [issueTicket]
  rw [updateClient_timely hl hnow, if_pos ⟨rfl, rfl⟩, hc]
  rfl

theorem issueTicket_incarnation :
    (r.issueTicket now profile ns domain identity key login path).2.incarnation = r.incarnation :=
  (updateClient_spec hl now domain key _).2.2.1

end

end admissionSteps

section admitUnder

variable {now : Nat} {r : Registry} (sha256 : String → Digest)

structure AdmitSpec (now : Nat) (r : Registry) (profile : ScenarioProfile)
    (ns domain identity key : String) (login : Bool) (path : Digest)
    (out : Admission × Registry) : Prop where
  tends : Tends now (Made r.incarnation out.2.incarnation domain key ns profile.generation) r out.2
  ticket : ∀ t, out.1 = .allowed (some t) →
    TicketFor r profile ns domain identity key login path out.2 t

/-- The rest of an admission after the first look at the client. -/
theorem admitSpec_after (h₁ : Tends now (fun _ _ _ => False) r r₁)
    (hinc : r₁.incarnation = r.incarnation)
    (h : AdmitSpec now r₁ profile ns domain identity key login path out) :
    AdmitSpec now r profile ns domain identity key login path out where
  tends := by
    have hmade := made_idle r.incarnation out.2.incarnation domain key ns profile.generation
    have h₁' : Tends now (Made r.incarnation out.2.incarnation domain key ns profile.generation)
        r r₁ :=
      ⟨h₁.lasting, h₁.framed, h₁.incarnation, fun d k => (h₁.cells d k).mono fun _ hf => hf.elim⟩
    refine h₁'.trans hmade ?_
    rw [← hinc]
    exact h.tends
  ticket := fun t ht => by
    have h' := h.ticket t ht
    exact { h' with epoch := h'.epoch.trans h₁.framed.epoch }

theorem issueTicket_spec (hl : r.Lasting) :
    AdmitSpec now r profile ns domain identity key login path
      (r.issueTicket now profile ns domain identity key login path) :=
  ⟨issueTicket_tends hl, issueTicket_ticket hl profile ns domain identity key login path⟩

theorem admitSpec_refused (hl : r.Lasting) (hq : Quiet r r')
    (h : ∀ t, answer ≠ .allowed (some t)) :
    AdmitSpec now r profile ns domain identity key login path (answer, r') :=
  ⟨(Tends.refl hl).quiet hq, fun t ht => absurd ht (h t)⟩

section

variable (hl : r.Lasting) (profile : ScenarioProfile)
include hl

theorem admitNew_spec (hnone : ∀ c, r.cell domain key = some c → u64Max ≤ now) :
    AdmitSpec now r profile ns domain identity key login path
      (r.admitNew now profile ns domain identity key login path) := by
  have hcreate := createClient_tends hl profile ns hnone
  simp only [admitNew]
  generalize r.createClient now profile ns domain key = made at hcreate ⊢
  split
  · have hticket : AdmitSpec now made.2 profile ns domain identity key login path _ :=
      issueTicket_spec hcreate.lasting
    refine ⟨?_, fun t ht => ?_⟩
    · rw [issueTicket_incarnation hcreate.lasting]
      exact hcreate.trans (made_idle _ _ _ _ _ _) (issueTicket_tends hcreate.lasting)
    · have h' := hticket.ticket t ht
      exact { h' with epoch := h'.epoch.trans hcreate.framed.epoch }
  · exact ⟨hcreate.quiet ⟨rfl, rfl, rfl, rfl, rfl, rfl⟩, fun t ht => by cases ht⟩

theorem admitUnder_spec (ns domain identity : String) (login : Bool) (path : Digest) :
    AdmitSpec now r profile ns domain identity (clientKey sha256 ns identity) login path
      (r.admitUnder sha256 now profile ns domain identity login path) := by
  simp only [Registry.admitUnder]
  generalize clientKey sha256 ns identity = key
  have hlook : Tends now (fun _ _ _ => False) r (r.currentBan now domain key).2 :=
    currentBan_tends hl
  have habsent := @currentBan_absent now r hl domain key
  refine admitSpec_after hlook (currentBan_incarnation hl) ?_
  generalize r.currentBan now domain key = current at hlook habsent ⊢
  have hl₁ := hlook.lasting
  rcases hex : current.1 with _ | _ | ban
  · simp only [admitFound]
    split
    · exact admitSpec_refused hl₁ (Quiet.refl _) fun t ht => by cases ht
    · exact admitNew_spec hl₁ profile (habsent hex)
  · simp only [admitFound]
    split
    · exact admitSpec_refused hl₁ (Quiet.refl _) fun t ht => by cases ht
    · exact issueTicket_spec hl₁
  · exact admitSpec_refused hl₁ (Quiet.refl _) fun t ht => by cases ht

/-- A client under a running ban is refused with that very decision. -/
theorem admitUnder_blocked (hc : r.cell domain (clientKey sha256 ns identity) = some c)
    (hban : c.ban = some b) (hnow : now < b.deadline) (hend : now < u64Max) :
    (r.admitUnder sha256 now profile ns domain identity login path).1 = .blocked b := by
  simp only [Registry.admitUnder]
  generalize clientKey sha256 ns identity = key at hc ⊢
  have hkept := Client.settled_of_lt hban hnow
  rcases hcur : (r.currentBan now domain key).1 with _ | ban
  · rcases currentBan_none hl hcur with h | h
    · rw [hc] at h; cases h
    · omega
  · obtain ⟨-, c', hc', rfl⟩ := currentBan_some hl hcur
    rw [hc] at hc'
    obtain rfl := Option.some.inj hc'
    simp only [hkept, hban, admitFound]

end

/-- A domain that is ensured was there, or is opened with no client. -/
theorem ensureDomain_cases (h : r.ensureDomain domain = some r') :
    (r.domains.lookup domain).isSome ∧ r' = r ∨ r.domains.lookup domain = none ∧ ∃ b, r' = r.withBucket domain b ∧
      Forever b.store b.domain ∧ ∀ k, b.client k = none := by
  unfold ensureDomain at h
  split at h
  case isTrue hb => exact .inl ⟨hb, (Option.some.inj h).symm⟩
  case isFalse hnew =>
    split at h
    · cases h
    exact .inr ⟨by simpa using hnew, _, (Option.some.inj h).symm, forever_new, valueAt_new _ _ _⟩

/-- Opening a domain changes no cell. -/
theorem cell_ensureDomain (h : r.ensureDomain domain = some r') (d k : String) :
    r'.cell d k = r.cell d k := by
  obtain ⟨-, rfl⟩ | ⟨hnone, b, rfl, -, hempty⟩ := ensureDomain_cases h
  · rfl
  rw [cell_withBucket]
  split
  case isTrue hd =>
    rw [hd, hempty, Registry.cell, hnone]
    rfl
  case isFalse => rfl

theorem lasting_ensureDomain (hl : r.Lasting) (h : r.ensureDomain domain = some r') :
    r'.Lasting := by
  obtain ⟨-, rfl⟩ | ⟨-, b, rfl, hforever, -⟩ := ensureDomain_cases h
  · exact hl
  · exact lasting_withBucket hl hforever

theorem ensureDomain_known (h : r.ensureDomain domain = some r') (hd : (r'.domains.lookup d).isSome) :
    (r.domains.lookup d).isSome ∨ d = domain := by
  obtain ⟨-, rfl⟩ | ⟨-, b, rfl, -⟩ := ensureDomain_cases h
  · exact .inl hd
  simp only [Registry.withBucket, lookup_insert_if] at hd
  split at hd
  case isTrue he => exact .inr he
  case isFalse => exact .inl hd

theorem ensureDomain_config (h : r.ensureDomain domain = some r') :
    r'.profiles = r.profiles ∧ r'.hosts = r.hosts ∧ r'.epoch = r.epoch ∧ r'.limits = r.limits ∧
      r'.incarnation = r.incarnation := by
  obtain ⟨-, rfl⟩ | ⟨-, b, rfl, -⟩ := ensureDomain_cases h <;> exact ⟨rfl, rfl, rfl, rfl, rfl⟩

end admitUnder

/-- The domain is one that the current host set does not send to the overflow. -/
def Registry.Routed (r : Registry) (domain : String) : Prop :=
  ∀ hosts, r.hosts = some hosts → (hosts.classify domain).isOverflow = false

structure AdmissionStep (sha256 : String → Digest) (now : Nat) (r : Registry)
    (ns domain identity method path : String) (out : Admission × Registry) : Prop where
  lasting : out.2.Lasting
  profiles : out.2.profiles = r.profiles
  hosts : out.2.hosts = r.hosts
  epoch : out.2.epoch = r.epoch
  known : ∀ d, (out.2.domains.lookup d).isSome → (r.domains.lookup d).isSome ∨ r.Routed d
  incarnation : r.incarnation ≤ out.2.incarnation
  cells : ∀ d k, Tended now (fun f => ∃ profile ip, r.profiles.lookup ns = some profile ∧
      k = Registry.clientKey sha256 ns (IpText.display ip) ∧
      Fresh r.incarnation out.2.incarnation ns profile.generation f) (r.cell d k) (out.2.cell d k)
  ticket : ∀ t, out.1 = .allowed (some t) → ∃ profile ip, r.profiles.lookup ns = some profile ∧
    IpText.parse identity = some ip ∧ TicketFor r profile ns domain (IpText.display ip)
      (Registry.clientKey sha256 ns (IpText.display ip))
      (Registry.watchesLogin profile.config method path) (Registry.pathKey sha256 path) out.2 t

section admitExpected

variable {now : Nat} {r : Registry} {sha256 : String → Digest}

theorem admissionStep_quiet (hl : r.Lasting) {r' : Registry} (hq : Quiet r r')
    (h : ∀ t, answer ≠ .allowed (some t)) :
    AdmissionStep sha256 now r ns domain identity method path (answer, r') where
  lasting := hq.lasting hl
  profiles := hq.profiles
  hosts := hq.hosts
  epoch := hq.epoch
  known := fun d hd => .inl (by rwa [hq.domains] at hd)
  incarnation := Nat.le_of_eq hq.incarnation.symm
  cells := fun d k => by rw [hq.cell]; exact Tended.same _
  ticket := fun t ht => absurd ht (h t)

/-- The admission of a client on a domain just ensured, seen from before that. -/
theorem admitUnder_step (hl : r.Lasting) (hprofile : r.profiles.lookup ns = some profile)
    (hip : IpText.parse identity = some ip) (hr₁ : r.ensureDomain domain = some r₁)
    (hrouted : r.Routed domain) :
    AdmissionStep sha256 now r ns domain identity method path
      (r₁.admitUnder sha256 now profile ns domain (IpText.display ip)
        (watchesLogin profile.config method path) (pathKey sha256 path)) := by
  have hspec : AdmitSpec now r₁ profile ns domain (IpText.display ip)
      (clientKey sha256 ns (IpText.display ip)) _ _ _ :=
    admitUnder_spec sha256 (lasting_ensureDomain hl hr₁) profile ns domain
      (IpText.display ip) (watchesLogin profile.config method path)
      (pathKey sha256 path)
  obtain ⟨hprofiles, hhosts, hepoch, -, hinc⟩ := ensureDomain_config hr₁
  obtain ⟨htends, hticket⟩ := hspec
  refine ⟨htends.lasting, htends.framed.profiles.trans hprofiles, htends.framed.hosts.trans hhosts,
    htends.framed.epoch.trans hepoch, fun d hd => ?_, hinc ▸ htends.incarnation, fun d k => ?_,
    fun t ht => ?_⟩
  · rcases ensureDomain_known hr₁ (htends.framed.known d hd) with h | h
    · exact .inl h
    · exact .inr (h ▸ hrouted)
  · have hcell := htends.cells d k
    rw [cell_ensureDomain hr₁, hinc] at hcell
    exact hcell.mono fun f hf => ⟨profile, ip, hprofile, hf.2.1, hf.2.2⟩
  · have h := hticket t ht
    exact ⟨profile, ip, hprofile, hip, { h with epoch := h.epoch.trans hepoch }⟩

theorem admitExpected_step (hl : r.Lasting) (ns : String) (expected : Option String)
    (domain identity method path : String) (registered : Bool) :
    AdmissionStep sha256 now r ns domain identity method path
      (r.admitExpected sha256 now ns expected domain identity method path registered) := by
  unfold Registry.admitExpected
  split
  · exact admissionStep_quiet hl (Quiet.refl r) fun t ht => by cases ht
  split
  · exact admissionStep_quiet hl (Quiet.refl r) fun t ht => by cases ht
  case h_2 ip hip =>
    unfold admitAddress
    split
    · exact admissionStep_quiet hl (Quiet.refl r) fun t ht => by cases ht
    case isFalse hrouted =>
      split
      · refine admissionStep_quiet hl (Quiet.refl r) fun t ht => ?_
        split at ht <;> cases ht
      case h_2 profile hprofile =>
        split
        · exact admissionStep_quiet hl (Quiet.refl r) fun t ht => by cases ht
        split
        · exact admissionStep_quiet hl ⟨rfl, rfl, rfl, rfl, rfl, rfl⟩ fun t ht => by cases ht
        case h_2 r₁ hr₁ =>
          refine admitUnder_step hl hprofile hip hr₁ fun hosts hh => ?_
          simpa [hh] using hrouted

/-- A client under a running ban, on a domain still routed and under the same
generation, is refused with that very decision. -/
theorem admitExpected_blocked (hl : r.Lasting) (expected : Option String) (method path : String)
    (hip : IpText.parse identity = some ip) (hrouted : r.Routed domain)
    (hprofile : r.profiles.lookup ns = some profile)
    (hexpected : ∀ generation, expected = some generation → generation = profile.generation)
    (hc : r.cell domain (clientKey sha256 ns (IpText.display ip)) = some c) (hban : c.ban = some b)
    (hnow : now < b.deadline) (hend : now < u64Max) :
    (r.admitExpected sha256 now ns expected domain identity method path true).1 = .blocked b := by
  have hdomain : (r.domains.lookup domain).isSome := by
    cases h : r.domains.lookup domain with
    | none => simp [Registry.cell, h] at hc
    | some bucket => rfl
  have hopen : r.ensureDomain domain = some r := by simp [ensureDomain, hdomain]
  have hhosts : (r.hosts.any fun hosts => (hosts.classify domain).isOverflow) = false := by
    cases h : r.hosts with
    | none => rfl
    | some hosts => simpa using hrouted hosts h
  have hgen : (expected.any fun generation => generation != profile.generation) = false := by
    cases h : expected with
    | none => rfl
    | some generation => simpa using hexpected generation h
  simp only [Registry.admitExpected, hip, admitAddress, hhosts, hprofile, hgen, hopen]
  exact admitUnder_blocked sha256 hl profile hc hban hnow hend

end admitExpected

/-! ## The other operations -/

section others

variable {r : Registry}

/-- The operation kept the cells as they were, up to the end of the clock. -/
def SameCells (now : Nat) (r r' : Registry) : Prop :=
  ∀ d k, r'.cell d k = r.cell d k ∨ (u64Max ≤ now ∧ r'.cell d k = none)

/-- What every operation but an admission keeps. -/
structure Steady (r r' : Registry) : Prop where
  lasting : r'.Lasting
  incarnation : r'.incarnation = r.incarnation
  epoch : r'.epoch = r.epoch
  known : ∀ d, (r'.domains.lookup d).isSome → (r.domains.lookup d).isSome

theorem steady_refl (hl : r.Lasting) : Steady r r := ⟨hl, rfl, rfl, fun _ h => h⟩

theorem steady_trans (h : Steady r r') (h' : Steady r' r'') : Steady r r'' :=
  ⟨h'.lasting, h'.incarnation.trans h.incarnation, h'.epoch.trans h.epoch,
    fun d hd => h.known d (h'.known d hd)⟩

theorem steady_quiet (hl : r.Lasting) (hq : Quiet r r') : Steady r r' :=
  ⟨hq.lasting hl, hq.incarnation, hq.epoch, fun d hd => by rwa [hq.domains] at hd⟩

/-- An update of one client, with what follows it off the cells. -/
theorem steady_updated (hl : r.Lasting) (now : Nat) (domain key : String)
    (change : Client → Client × ρ) (hq : Quiet (r.updateClient now domain key change).2 r') :
    Steady r r' ∧ r'.profiles = r.profiles ∧ r'.hosts = r.hosts := by
  obtain ⟨hl', hframe, hinc, -⟩ := updateClient_spec hl now domain key change
  exact ⟨steady_trans ⟨hl', hinc, hframe.epoch, hframe.known⟩ (steady_quiet hl' hq),
    hq.profiles.trans hframe.profiles, hq.hosts.trans hframe.hosts⟩

theorem cells_updated (hl : r.Lasting) (hnow : now < u64Max) (hc : r.cell domain key = some c)
    (hq : Quiet (r.updateClient now domain key change).2 r') :
    r'.cell domain key = some (change c).1 ∧
      ∀ d k, ¬ (d = domain ∧ k = key) → r'.cell d k = r.cell d k := by
  have htimely := updateClient_timely hl hnow domain key change
  refine ⟨?_, fun d k hdk => ?_⟩
  · rw [hq.cell, htimely, if_pos ⟨rfl, rfl⟩, hc]; rfl
  · rw [hq.cell, htimely, if_neg hdk]

/-- An observation that found its client, before the end of the clock. -/
structure FoundBy (now : Nat) (r : Registry) (t : Ticket) (status : Nat)
    (out : Evidence × Registry) (profile : ScenarioProfile) (c : Client) : Prop where
  timely : now < u64Max
  epoch : t.epoch = r.epoch
  inForce : r.profiles.lookup t.ns = some profile
  generation : profile.generation = t.generation
  before : r.cell t.domain t.key = some c
  after : out.2.cell t.domain t.key = some (r.observeClient profile t status now c).1
  evidence : out.1 = (r.observeClient profile t status now c).2.evidence
  others : ∀ d k, ¬ (d = t.domain ∧ k = t.key) → out.2.cell d k = r.cell d k

section

variable (hl : r.Lasting) (now : Nat) (t : Ticket) (status : Nat) (localDenial : Bool)
include hl

theorem observe_steady :
    let r' := (r.observe now t status localDenial).2
    Steady r r' ∧ r'.profiles = r.profiles ∧ r'.hosts = r.hosts := by
  simp only [Registry.observe]
  split
  · exact ⟨steady_refl hl, rfl, rfl⟩
  split
  · exact ⟨steady_quiet hl ⟨rfl, rfl, rfl, rfl, rfl, rfl⟩, rfl, rfl⟩
  case h_2 profile _ =>
    split
    · exact steady_updated hl _ _ _ _ (Quiet.refl _)
    case h_2 o _ => exact steady_updated hl _ _ _ _ (Quiet.settleObserved _ t now o)

theorem observe_cases :
    let out := r.observe now t status localDenial
    (out.1 = {} ∧ SameCells now r out.2) ∨
      (localDenial = false ∧ ∃ profile c, FoundBy now r t status out profile c) := by
  simp only [Registry.observe]
  split
  · exact .inl ⟨rfl, fun d k => .inl rfl⟩
  case isFalse hguard =>
    simp only [Bool.or_eq_true, not_or, Bool.not_eq_true, bne_eq_false_iff_eq] at hguard
    split
    · exact .inl ⟨rfl, fun d k => .inl rfl⟩
    case h_2 profile hprofile =>
      obtain ⟨hin, hgen⟩ := filter_eq_some_iff.mp hprofile
      split
      case h_1 hnone =>
        exact .inl ⟨rfl, updateClient_missed hl now t.domain t.key _ hnone⟩
      case h_2 o ho =>
        obtain ⟨hnow, c, hc, rfl⟩ := updateClient_some hl now t.domain t.key _ o ho
        obtain ⟨hafter, hothers⟩ := cells_updated hl hnow hc (Quiet.settleObserved
          (r.updateClient now t.domain t.key (r.observeClient profile t status now)).2 t now
          (r.observeClient profile t status now c).2)
        exact .inr ⟨hguard.1, profile, c, hnow, hguard.2, hin, by simpa using hgen, hc, hafter, rfl,
          hothers⟩

end

theorem finishRelease_released : (r.finishRelease now actor lifted).1.released = lifted.isSome := by
  cases lifted <;> rfl

theorem release_steady (hl : r.Lasting) (sha256 : String → Digest) (now : Nat)
    (ns domain identity id : String) (actor : NativeActor) :
    let r' := (releaseAs sha256 r now ns domain identity id actor).2
    Steady r r' ∧ r'.profiles = r.profiles ∧ r'.hosts = r.hosts := by
  simp only [releaseAs]
  generalize releaseKey sha256 ns identity = key
  split
  · exact steady_updated hl _ _ _ _ (Quiet.refl _)
  case h_2 due lifted _ =>
    exact steady_updated hl _ _ _ _
      ((Quiet.expireReleased _ now due).trans (Quiet.finishRelease _ now actor lifted))

/-- A release that found its client, before the end of the clock. -/
structure ReleaseFound (now : Nat) (r : Registry) (domain key id : String)
    (out : Registry.NativeRelease × Registry) (c : Client) : Prop where
  timely : now < u64Max
  before : r.cell domain key = some c
  after : out.2.cell domain key = some (Registry.releaseClient now id c).1
  released : out.1.released = (Registry.releaseClient now id c).2.2.isSome
  others : ∀ d k, ¬ (d = domain ∧ k = key) → out.2.cell d k = r.cell d k

theorem release_cases (hl : r.Lasting) (sha256 : String → Digest) (now : Nat)
    (ns domain identity id : String) (actor : NativeActor) :
    let out := releaseAs sha256 r now ns domain identity id actor
    (out.1.released = false ∧ SameCells now r out.2) ∨
      ∃ c, ReleaseFound now r domain (releaseKey sha256 ns identity) id out c := by
  simp only [releaseAs]
  generalize releaseKey sha256 ns identity = key
  split
  case h_1 hnone => exact .inl ⟨rfl, updateClient_missed hl now domain key _ hnone⟩
  case h_2 due lifted ho =>
    obtain ⟨hnow, c, hc, hx⟩ := updateClient_some hl now domain key _ _ ho
    obtain ⟨hafter, hothers⟩ := cells_updated hl hnow hc ((Quiet.expireReleased (r.updateClient now
      domain key (releaseClient now id)).2 now due).trans (Quiet.finishRelease _ now actor lifted))
    refine .inr ⟨c, hnow, hc, hafter, ?_, hothers⟩
    rw [finishRelease_released, ← (Prod.mk.inj hx).2]

theorem lookup_retainHosts (now : Nat) (hosts : HostPolicy) (d : String) :
    (r.retainHosts now hosts).domains.lookup d =
      if (hosts.classify d).isOverflow then none else r.domains.lookup d := by
  simp only [Registry.retainHosts, lookup_retain]
  cases r.domains.lookup d <;> simp

/-- Host changes drop whole domains and touch no other cell. -/
theorem retainHosts_cell (now : Nat) (hosts : HostPolicy) (d k : String) :
    (r.retainHosts now hosts).cell d k =
      if (hosts.classify d).isOverflow then none else r.cell d k := by
  rw [Registry.cell, lookup_retainHosts]
  split <;> rfl

theorem retainHosts_steady (hl : r.Lasting) (now : Nat) (hosts : HostPolicy) :
    Steady r (r.retainHosts now hosts) := by
  refine ⟨fun d b h => ?_, rfl, rfl, fun d h => ?_⟩ <;> rw [lookup_retainHosts] at h <;>
    split at h
  · cases h
  · exact hl d b h
  · cases h
  · exact h

/-- After a host change every domain still open is routed. -/
theorem retainHosts_routed (h : ((r.retainHosts now hosts).domains.lookup d).isSome) :
    (r.retainHosts now hosts).Routed d := by
  intro hosts' hh
  obtain rfl := Option.some.inj hh
  rw [lookup_retainHosts] at h
  split at h
  · cases h
  case isFalse hno => simpa using hno

/-- A bucket after an activation keeps the clients whose generation is in force. -/
theorem reprofile_client (hf : Forever b.store b.domain) :
    ((reprofile profiles now b).bind fun b' => b'.client k) =
        (b.client k).filter (Registry.inForce profiles) ∨
      (u64Max ≤ now ∧ ((reprofile profiles now b).bind fun b' => b'.client k) = none) := by
  have hretain := retain_turned hf now fun _ c =>
    if Registry.inForce profiles c then some c else none
  have hfilter : ((b.client k).bind fun c => if Registry.inForce profiles c then some c else none) =
      (b.client k).filter (Registry.inForce profiles) := by
    cases b.client k with
    | none => rfl
    | some c => by_cases h : Registry.inForce profiles c = true <;> simp [filter_some, h]
  simp only [reprofile]
  generalize (b.store.retain now b.domain fun _ c =>
    if Registry.inForce profiles c then some c else none) = kept at hretain ⊢
  have hkept := (hretain.trans (entries_turned hretain.forever now) fun _ => rfl).value k
  rw [← hfilter]
  split
  · exact hkept
  case isFalse hcount =>
    rw [entries_zero now (by omega) k] at hkept
    exact hkept.imp_right fun h => ⟨h.1, rfl⟩

theorem reprofile_forever (hf : Forever b.store b.domain) (h : reprofile profiles now b = some b') :
    Forever b'.store b'.domain := by
  have hretain := retain_turned hf now fun _ c =>
    if Registry.inForce profiles c then some c else none
  simp only [reprofile] at h
  split at h
  · obtain rfl := Option.some.inj h
    exact (entries_turned hretain.forever now).forever
  · cases h

section

variable (hl : r.Lasting) (now : Nat) (profiles : List ScenarioProfile) (retained : List String)
include hl

theorem activate_cell (d k : String) :
    let r' := r.activateWithRetained now profiles retained
    r'.cell d k = (r.cell d k).filter (Registry.inForce r'.profiles) ∨
      (u64Max ≤ now ∧ r'.cell d k = none) := by
  simp only [Registry.cell, activateWithRetained, lookup_retain]
  cases hb : r.domains.lookup d with
  | none => exact .inl rfl
  | some b =>
    simp only [bind_some]
    exact reprofile_client (hl d b hb)

theorem activate_steady : Steady r (r.activateWithRetained now profiles retained) := by
  refine ⟨fun d b h => ?_, rfl, rfl, fun d h => ?_⟩
  · simp only [activateWithRetained, lookup_retain] at h
    obtain ⟨b₀, hb₀, hb⟩ := bind_eq_some_iff.mp h
    exact reprofile_forever (hl d b₀ hb₀) hb
  · simp only [activateWithRetained, lookup_retain] at h
    cases hb : r.domains.lookup d with
    | none => simp [hb] at h
    | some b => rfl

end

/-- What a listing does to a cell: nothing, or it settles it at its own time. -/
def ListedCell (now listingNow : Nat) (o o' : Option Client) : Prop :=
  o' = o ∨ o' = o.map (fun c => c.settled listingNow) ∨ (u64Max ≤ now ∧ o' = none)

theorem listedCell_trans (h : ListedCell now listingNow o o')
    (h' : ListedCell now listingNow o' o'') : ListedCell now listingNow o o'' := by
  rcases h' with rfl | rfl | h'
  · exact h
  · rcases h with rfl | rfl | ⟨hlate, rfl⟩
    · exact .inr (.inl rfl)
    · refine .inr (.inl ?_)
      cases o with
      | none => rfl
      | some c => simp [Client.settled_settled]
    · exact .inr (.inr ⟨hlate, rfl⟩)
  · exact .inr (.inr h')

/-- What a lock hold of a listing keeps, and what it may do to the cells. -/
structure Listed (now listingNow : Nat) (r r' : Registry) : Prop where
  steady : Steady r r'
  profiles : r'.profiles = r.profiles
  hosts : r'.hosts = r.hosts
  cells : ∀ d k, ListedCell now listingNow (r.cell d k) (r'.cell d k)

theorem listed_refl (now listingNow : Nat) (hl : r.Lasting) : Listed now listingNow r r :=
  ⟨steady_refl hl, rfl, rfl, fun _ _ => .inl rfl⟩

theorem listed_trans (h : Listed now listingNow r r') (h' : Listed now listingNow r' r'') :
    Listed now listingNow r r'' :=
  ⟨steady_trans h.steady h'.steady, h'.profiles.trans h.profiles, h'.hosts.trans h.hosts,
    fun d k => listedCell_trans (h.cells d k) (h'.cells d k)⟩

theorem listed_quiet (h : Listed now listingNow r r') (hq : Quiet r' r'') :
    Listed now listingNow r r'' :=
  ⟨steady_trans h.steady (steady_quiet h.steady.lasting hq), hq.profiles.trans h.profiles,
    hq.hosts.trans h.hosts, fun d k => by rw [hq.cell]; exact h.cells d k⟩

theorem expireClient_cell (listingNow : Nat) (id : String) (c : Client) :
    (expireClient listingNow id c).1 = c ∨
      (expireClient listingNow id c).1 = c.settled listingNow := by
  unfold expireClient
  split
  · exact .inr rfl
  · exact .inl rfl

theorem expireIndexed_listed (hl : r.Lasting) :
    Listed now listingNow r (r.expireIndexed now listingNow entry) := by
  unfold expireIndexed
  split
  · exact listed_quiet (listed_refl now listingNow hl) ⟨rfl, rfl, rfl, rfl, rfl, rfl⟩
  case h_2 a _ =>
    obtain ⟨hl', hframe, hinc, hcell⟩ := updateClient_spec hl now a.domain a.key
      (expireClient listingNow a.decision.id)
    have hu : Listed now listingNow r (r.updateClient now a.domain a.key
        (expireClient listingNow a.decision.id)).2 := by
      refine ⟨⟨hl', hinc, hframe.epoch, hframe.known⟩, hframe.profiles, hframe.hosts, fun d k => ?_⟩
      rcases hcell d k with h | h
      · rw [h]
        split
        case isFalse => exact .inl rfl
        case isTrue hdk =>
          rw [hdk.1, hdk.2]
          cases r.cell a.domain a.key with
          | none => exact .inl rfl
          | some c =>
            rcases expireClient_cell listingNow a.decision.id c with he | he
            · exact .inl (by rw [map_some, he])
            · exact .inr (.inl (by rw [map_some, he]; rfl))
      · exact .inr (.inr h)
    have hq := Quiet.expireListed (r.updateClient now a.domain a.key
      (expireClient listingNow a.decision.id)).2 listingNow
      (r.updateClient now a.domain a.key (expireClient listingNow a.decision.id)).1.join
    exact listed_quiet hu (hq.trans ⟨rfl, rfl, rfl, rfl, rfl, rfl⟩)

theorem stepListing_listed (hl : r.Lasting) (now : Nat) (l : Listing) :
    Listed now l.now r (r.stepListing now l).2 := by
  have hrefl := listed_refl now l.now hl
  have hfold : ∀ (due : List (Nat × Nat)) (r₁ : Registry), Listed now l.now r r₁ →
      Listed now l.now r (due.foldl (fun r entry => r.expireIndexed now l.now entry) r₁) := by
    intro due
    induction due with
    | nil => exact fun r₁ h => h
    | cons entry due ih =>
      intro r₁ h
      exact ih _ (listed_trans h (expireIndexed_listed h.steady.lasting))
  unfold Registry.stepListing
  split
  · exact hrefl
  · split
    · exact hrefl
    · exact hfold _ r hrefl
  · split
    · exact hrefl
    split
    · exact hrefl
    · split <;> exact hrefl

theorem stepListing_now : (r.stepListing now l).1.now = l.now := by
  have htake : ∀ (batch : List (Nat × Decision)) (l : Listing), (takeRows l batch).now = l.now := by
    intro batch
    induction batch with
    | nil => exact fun l => rfl
    | cons row batch ih =>
      intro l
      simp only [takeRows]
      split
      · split
        · rfl
        · rw [ih]
      · rw [ih]
  unfold Registry.stepListing
  split
  · rfl
  · split <;> rfl
  split
  · rfl
  split
  · rfl
  split
  · rfl
  · exact htake _ l

end others

end AbuseRegistry
