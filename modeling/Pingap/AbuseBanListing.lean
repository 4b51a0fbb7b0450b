import Pingap.AbuseBanLedger

/-!
# Listing the bans page by page

A page is read in several lock holds, with any other work of the registry between
them, and the next page starts from the cursor of the last. `Serves` is what a
listing has read so far, `Covers` is where a ban that stays in force is: read
already, or still ahead of it.
-/

namespace AbuseBanListing

open MachineArith AbuseScenario AbuseRegistry AbuseRegistryRun AbuseBanPersistence AbuseBanLedger List Option Text Trace
open AbuseRegistry.Registry

variable {sha256 : String → Digest}

/-! ## One page -/

/-- What a page is asked for, and the clock and the last number when it starts. -/
structure Query where
  profile : Option String
  domain : Option String
  after : Nat
  limit : Nat
  now : Nat
  last : Option Nat

def Matches (profile domain : Option String) (b : Decision) : Prop :=
  profile.all (· == b.profile) = true ∧ domain.all (· == b.domain) = true

instance (profile domain : Option String) (b : Decision) : Decidable (Matches profile domain b) :=
  inferInstanceAs (Decidable (_ ∧ _))

def Query.Wants (q : Query) (b : Decision) : Prop :=
  q.now < b.deadline ∧ Matches q.profile q.domain b

/-- What a listing has read for a query, from the bans created so far. -/
structure Serves (q : Query) (epoch : String) (created : List Decision) (l : Listing) : Prop where
  profile : l.profile = q.profile
  domain : l.domain = q.domain
  limit : l.limit = q.limit
  now : l.now = q.now
  last : l.maxSequence = q.last
  started : q.after ≤ l.scannedThrough
  numbered : Numbered epoch q.after l.scannedThrough l.rows
  rows : ∀ b ∈ l.rows, b ∈ created ∧ q.Wants b
  short : l.phase ≠ .finished → l.rows.length < q.limit
  full : l.rows.length = q.limit → ∀ b, l.rows.getLast? = some b → b.id = banId epoch l.scannedThrough

/-- The ban with the number `n` was read, or is before the page, or after what was
read of it; then the page is not over, or it is full. -/
def Covers (q : Query) (b : Decision) (n : Nat) (l : Listing) : Prop :=
  n ≤ q.after ∨ b ∈ l.rows ∨
    (l.scannedThrough < n ∧ (l.phase = .finished → l.rows.length = q.limit))

def passed (l : Listing) (m : Nat) : Listing := { l with scannedThrough := m }

def took (l : Listing) (m : Nat) (b : Decision) : Listing :=
  { l with scannedThrough := m, rows := l.rows ++ [b] }

section rows

variable {q : Query} {epoch : String} {created : List Decision} {l : Listing} {m n : Nat}
  {b c : Decision} {rest : List (Nat × Decision)}

theorem numbered_mono {bans : List Decision} (h : Numbered epoch lo hi bans) (hle : hi ≤ hi') :
    Numbered epoch lo hi' bans := by
  obtain ⟨ns, hids, hsorted, hbound⟩ := h
  exact ⟨ns, hids, hsorted, fun n hn => ⟨(hbound n hn).1, Nat.le_trans (hbound n hn).2 hle⟩⟩

section

variable (h : Serves q epoch created l)
include h

theorem Serves.mono (hsub : created ⊆ created') : Serves q epoch created' l :=
  { h with rows := fun b hb => ⟨hsub (h.rows b hb).1, (h.rows b hb).2⟩ }

theorem Serves.inPhase (hphase : phase = .finished ∨ l.phase ≠ .finished) :
    Serves q epoch created { l with phase := phase } :=
  { h with short := fun hne => h.short (hphase.resolve_left hne) }

theorem Serves.passed (hopen : l.phase ≠ .finished)
    (hm : l.scannedThrough < m) : Serves q epoch created (passed l m) :=
  { h with
    started := Nat.le_trans h.started (Nat.le_of_lt hm)
    numbered := numbered_mono h.numbered (Nat.le_of_lt hm)
    full := fun hfull => absurd hfull (Nat.ne_of_lt (h.short hopen)) }

theorem Serves.took (hm : l.scannedThrough < m) (hc : c ∈ created) (hid : c.id = banId epoch m)
    (hwants : q.Wants c) (hphase : phase ≠ .finished → (took l m c).rows.length < q.limit) :
    Serves q epoch created { took l m c with phase := phase } where
  profile := h.profile
  domain := h.domain
  limit := h.limit
  now := h.now
  last := h.last
  started := Nat.le_trans h.started (Nat.le_of_lt hm)
  numbered := by
    have hrow : Numbered epoch l.scannedThrough m [c] := by
      refine ⟨[m], by rw [map_singleton, map_singleton, hid], pairwise_singleton _ _,
        fun n hn => ?_⟩
      rw [mem_singleton.mp hn]
      exact ⟨hm, Nat.le_refl _⟩
    exact h.numbered.append hrow h.started (Nat.le_of_lt hm)
  rows := fun b hb => by
    rcases mem_append.mp hb with hb | hb
    · exact h.rows b hb
    · rw [mem_singleton.mp hb]
      exact ⟨hc, hwants⟩
  short := hphase
  full := fun _ b hb => by
    have hlast : (l.rows ++ [c]).getLast? = some b := hb
    rw [getLast?_concat] at hlast
    rw [← Option.some.inj hlast]
    exact hid

/-- What reading one row does to a listing. -/
theorem takeRows_cons :
    (¬ q.Wants c ∧ takeRows l ((m, c) :: rest) = takeRows (passed l m) rest) ∨
    (q.Wants c ∧ (took l m c).rows.length = q.limit ∧
      takeRows l ((m, c) :: rest) = { took l m c with phase := .finished }) ∨
    (q.Wants c ∧ (took l m c).rows.length ≠ q.limit ∧
      takeRows l ((m, c) :: rest) = takeRows (took l m c) rest) := by
  have hwants : (decide (l.now < c.deadline) && l.profile.all (· == c.profile) &&
      l.domain.all (· == c.domain)) = true ↔ q.Wants c := by
    rw [h.now, h.profile, h.domain, Bool.and_assoc, Bool.and_eq_true, Bool.and_eq_true,
      decide_eq_true_iff]
    rfl
  have hrow : takeRows l ((m, c) :: rest) =
      if (decide (l.now < c.deadline) && l.profile.all (· == c.profile) &&
          l.domain.all (· == c.domain)) then
        if (took l m c).rows.length = l.limit then { took l m c with phase := .finished }
        else takeRows (took l m c) rest
      else takeRows (passed l m) rest := rfl
  rw [hrow]
  by_cases hc : q.Wants c
  · rw [if_pos (hwants.mpr hc), h.limit]
    by_cases hfull : (took l m c).rows.length = q.limit
    · rw [if_pos hfull]
      exact .inr (.inl ⟨hc, hfull, rfl⟩)
    · rw [if_neg hfull]
      exact .inr (.inr ⟨hc, hfull, rfl⟩)
  · rw [if_neg fun heq => hc (hwants.mp heq)]
    exact .inl ⟨hc, rfl⟩

theorem took_short (hopen : l.phase ≠ .finished)
    (hne : (took l m c).rows.length ≠ q.limit) : (took l m c).rows.length < q.limit := by
  have hlength : (took l m c).rows.length = l.rows.length + 1 := length_append
  have hshort := h.short hopen
  omega

end

/-- The rows of a batch, in order, lie above the number that was read last. -/
structure Above (epoch : String) (created : List Decision) (n : Nat)
    (batch : List (Nat × Decision)) : Prop where
  sorted : batch.Pairwise fun x y => x.1 < y.1
  rows : ∀ x ∈ batch, n < x.1 ∧ x.2 ∈ created ∧ x.2.id = banId epoch x.1

theorem Above.tail (h : Above epoch created n (x :: rest)) : Above epoch created x.1 rest :=
  ⟨h.sorted.tail, fun y hy =>
    ⟨rel_of_pairwise_cons h.sorted hy, (h.rows y (mem_cons_of_mem _ hy)).2⟩⟩

section

variable (batch : List (Nat × Decision)) (l : Listing) (h : Serves q epoch created l)
    (hopen : l.phase ≠ .finished) (hbatch : Above epoch created l.scannedThrough batch)
include h hopen hbatch

theorem takeRows_serves : Serves q epoch created (takeRows l batch) := by
  induction batch generalizing l with
  | nil => exact h
  | cons x rest ih =>
    obtain ⟨m, c⟩ := x
    obtain ⟨hm, hc, hid⟩ := hbatch.rows (m, c) mem_cons_self
    rcases takeRows_cons h with ⟨-, heq⟩ | ⟨hwants, -, heq⟩ | ⟨hwants, hne, heq⟩
    · rw [heq]
      exact ih _ (h.passed hopen hm) hopen hbatch.tail
    · rw [heq]
      exact h.took hm hc hid hwants fun hne => absurd rfl hne
    · rw [heq]
      exact ih _ (h.took hm hc hid hwants fun _ => took_short h hopen hne) hopen hbatch.tail

theorem takeRows_covers (hwants : q.Wants b) (hcovers : Covers q b n l)
    (hahead : l.scannedThrough < n → (n, b) ∈ batch ∨ ∀ x ∈ batch, x.1 < n) :
    Covers q b n (takeRows l batch) := by
  induction batch generalizing l with
  | nil => exact hcovers
  | cons x rest ih =>
    obtain ⟨m, c⟩ := x
    obtain ⟨hm, hc, hid⟩ := hbatch.rows (m, c) mem_cons_self
    -- Beyond the row that was read, the ban is where it was before.
    have hahead' : m < n → (n, b) ∈ rest ∨ ∀ x ∈ rest, x.1 < n := by
      intro hlt
      rcases hahead (Nat.lt_trans hm hlt) with hmem | hall
      · rcases mem_cons.mp hmem with heq | hmem
        · exact absurd (Prod.mk.inj heq).1 (Nat.ne_of_gt hlt)
        · exact .inl hmem
      · exact .inr fun x hx => hall x (mem_cons_of_mem _ hx)
    -- A ban still ahead is this row, or stays ahead.
    have hhere : l.scannedThrough < n → (m = n ∧ c = b) ∨ m < n := by
      intro hlt
      rcases hahead hlt with hmem | hall
      · rcases mem_cons.mp hmem with heq | hmem
        · exact .inl ⟨(Prod.mk.inj heq).1.symm, (Prod.mk.inj heq).2.symm⟩
        · exact .inr (hbatch.tail.rows _ hmem).1
      · exact .inr (hall (m, c) mem_cons_self)
    have hopen' : ∀ {P : Prop}, l.phase = .finished → P := fun hfin => absurd hfin hopen
    have htook : ∀ phase, (phase = .finished → (took l m c).rows.length = q.limit) →
        Covers q b n { took l m c with phase := phase } := by
      intro phase hfull
      rcases hcovers with hbefore | hmem | ⟨hlt, -⟩
      · exact .inl hbefore
      · exact .inr (.inl (mem_append_left _ hmem))
      rcases hhere hlt with ⟨-, rfl⟩ | hlt
      · exact .inr (.inl (mem_append_right _ (mem_singleton_self _)))
      · exact .inr (.inr ⟨hlt, hfull⟩)
    rcases takeRows_cons h with ⟨hnot, heq⟩ | ⟨hc', hfull, heq⟩ | ⟨hc', hne, heq⟩
    · rw [heq]
      refine ih _ (h.passed hopen hm) hopen hbatch.tail ?_ hahead'
      rcases hcovers with hbefore | hmem | ⟨hlt, -⟩
      · exact .inl hbefore
      · exact .inr (.inl hmem)
      rcases hhere hlt with ⟨-, rfl⟩ | hlt
      · exact absurd hwants hnot
      · exact .inr (.inr ⟨hlt, hopen'⟩)
    · rw [heq]
      exact htook .finished fun _ => hfull
    · rw [heq]
      refine ih _ (h.took hm hc hid hc' fun _ => took_short h hopen hne) hopen hbatch.tail
        (htook l.phase hopen') hahead'

end

end rows

/-! ## The batches of a page -/

section batches

variable {r : Registry} {l : Listing} {last n : Nat} {a : ActiveDecision}

/-- The numbers a listing has ahead of it, in order. -/
def ahead (r : Registry) (l : Listing) (last : Nat) : List Nat :=
  (r.index.active.keys.filter fun s =>
    decide (l.scannedThrough < s) && decide (s ≤ last)).insertionSort (· ≤ ·)

theorem mem_ahead : n ∈ ahead r l last ↔
    (∃ a, r.index.active.lookup n = some a) ∧ l.scannedThrough < n ∧ n ≤ last := by
  rw [ahead, mem_insertionSort, mem_filter, Bool.and_eq_true, decide_eq_true_iff,
    decide_eq_true_iff, ← AList.mem_keys, ← AList.lookup_isSome, isSome_iff_exists]

theorem ahead_sorted (r : Registry) (l : Listing) (last : Nat) :
    (ahead r l last).Pairwise (· < ·) := by
  have hle : (ahead r l last).Pairwise (· ≤ ·) := pairwise_insertionSort _ _
  have hnodup : (ahead r l last).Nodup :=
    (perm_insertionSort (· ≤ ·) _).nodup_iff.mpr (r.index.active.keys_nodup.filter _)
  exact hle.imp₂ (fun _ _ hle hne => Nat.lt_of_le_of_ne hle hne) hnodup

theorem mem_candidates :
    x ∈ r.candidates l last ↔
    x.1 ∈ (ahead r l last).take BATCH ∧
      ∃ a, r.index.active.lookup x.1 = some a ∧ a.decision = x.2 := by
  obtain ⟨m, b⟩ := x
  have heq : r.candidates l last = ((ahead r l last).take BATCH).filterMap fun s =>
      (r.index.active.lookup s).map fun a => (s, a.decision) := rfl
  rw [heq, mem_filterMap]
  constructor
  · rintro ⟨s, hs, hmap⟩
    obtain ⟨a, ha, hab⟩ := map_eq_some_iff.mp hmap
    obtain ⟨rfl, rfl⟩ := Prod.mk.inj hab
    exact ⟨hs, a, ha, rfl⟩
  · rintro ⟨hs, a, ha, rfl⟩
    exact ⟨m, hs, by rw [ha]; rfl⟩

theorem candidates_sorted : (r.candidates l last).Pairwise fun x y => x.1 < y.1 := by
  refine List.Pairwise.filterMap _ ?_ ((ahead_sorted r l last).sublist (take_sublist _ _))
  intro m n hlt x hx y hy
  obtain ⟨a, -, rfl⟩ := map_eq_some_iff.mp hx
  obtain ⟨a', -, rfl⟩ := map_eq_some_iff.mp hy
  exact hlt

/-- An entry ahead of the listing is in its batch, or beyond all of it; and the
batch is not empty. -/
theorem candidates_reach (ha : r.index.active.lookup n = some a) (hlt : l.scannedThrough < n)
    (hle : n ≤ last) : r.candidates l last ≠ [] ∧
      ((n, a.decision) ∈ r.candidates l last ∨ ∀ x ∈ r.candidates l last, x.1 < n) := by
  have hmem : n ∈ ahead r l last := mem_ahead.mpr ⟨⟨a, ha⟩, hlt, hle⟩
  have hsplit := take_append_drop BATCH (ahead r l last)
  constructor
  · intro hnil
    cases hlist : ahead r l last with
    | nil => rw [hlist] at hmem; cases hmem
    | cons m rest =>
      have hm : m ∈ ahead r l last := by rw [hlist]; exact mem_cons_self
      obtain ⟨⟨a', ha'⟩, -⟩ := mem_ahead.mp hm
      have hfirst : (m, a'.decision) ∈ r.candidates l last :=
        mem_candidates.mpr ⟨by rw [hlist]; exact mem_cons_self, a', ha', rfl⟩
      rw [hnil] at hfirst
      cases hfirst
  · rw [← hsplit] at hmem
    rcases mem_append.mp hmem with htake | hdrop
    · exact .inl (mem_candidates.mpr ⟨htake, a, ha, rfl⟩)
    refine .inr fun x hx => ?_
    have hsorted := ahead_sorted r l last
    rw [← hsplit] at hsorted
    exact (pairwise_append.mp hsorted).2.2 _ (mem_candidates.mp hx).1 _ hdrop

end batches

/-! ## One lock hold of a page -/

section holds

variable {t now n : Nat} {r : Registry} {l : Listing} {q : Query} {b : Decision} {a : ActiveDecision}

/-- What a lock hold of a listing does to it. It ends the page only when nothing
is ahead. -/
theorem stepListing_cases (r : Registry) (now : Nat) (l : Listing) :
    (r.stepListing now l).1 = l ∨
    (l.phase ≠ .finished ∧ ∃ phase, (r.stepListing now l).1 = { l with phase := phase } ∧
      (phase = .finished → ∀ last, l.maxSequence = some last →
        last ≤ l.scannedThrough ∨ r.candidates l last = [])) ∨
    (l.phase ≠ .finished ∧ ∃ last, l.maxSequence = some last ∧
      (r.stepListing now l).1 = takeRows l (r.candidates l last)) := by
  unfold stepListing
  cases hphase : l.phase with
  | finished => exact .inl rfl
  | expiring =>
    cases r.dueBatch l.now with
    | cons entry due => exact .inl rfl
    | nil =>
      refine .inr (.inl ⟨by decide, _, rfl, fun hfin last hlast => .inl ?_⟩)
      rw [hlast] at hfin
      by_cases hmore : l.scannedThrough < last
      · simp [hmore] at hfin
      · exact Nat.le_of_not_lt hmore
  | scanning =>
    cases hlast : l.maxSequence with
    | none => exact .inr (.inl ⟨by decide, _, rfl, fun _ last hl => by cases hl⟩)
    | some last =>
      have hsame : ∀ x, some last = some x → x = last := fun x hx => (Option.some.inj hx).symm
      by_cases hover : last ≤ l.scannedThrough
      · simp only [if_pos hover]
        exact .inr (.inl ⟨by decide, _, rfl, fun _ x hx => .inl (hsame x hx ▸ hover)⟩)
      simp only [if_neg hover]
      cases hbatch : r.candidates l last with
      | nil =>
        exact .inr (.inl ⟨by decide, _, rfl, fun _ x hx => .inr (hsame x hx ▸ hbatch)⟩)
      | cons x batch => exact .inr (.inr ⟨by decide, last, rfl, by rw [hbatch]⟩)

section

variable (h : Ledger t r) (hsmall : r.sequence < 2 ^ 64)
include h hsmall

theorem entry_id (ha : r.index.active.lookup n = some a) : a.decision.id = banId r.epoch n := by
  obtain ⟨hmade, hn⟩ := h.index n a ha
  obtain ⟨m, hm, -, -, hid⟩ := sequence_of_mem h.numbered hsmall hmade
  rw [hn] at hm
  rw [hid, Option.some.inj hm]

theorem candidates_above :
    Above r.epoch (made r.transitions) l.scannedThrough (r.candidates l last) := by
  refine ⟨candidates_sorted, fun x hx => ?_⟩
  obtain ⟨htake, a, ha, hab⟩ := mem_candidates.mp hx
  refine ⟨(mem_ahead.mp (mem_of_mem_take htake)).2.1, ?_, ?_⟩
  · rw [← hab]
    exact (h.index _ a ha).1
  · rw [← hab]
    exact entry_id h hsmall ha

theorem stepListing_serves (now : Nat) (hs : Serves q r.epoch (made r.transitions) l) :
    Serves q r.epoch (made r.transitions) (r.stepListing now l).1 := by
  rcases stepListing_cases r now l with heq | ⟨hopen, phase, heq, -⟩ | ⟨hopen, last, -, heq⟩
  · rw [heq]
    exact hs
  · rw [heq]
    exact hs.inPhase (.inr hopen)
  · rw [heq]
    exact takeRows_serves _ l hs hopen (candidates_above h hsmall)

theorem stepListing_covers (hs : Serves q r.epoch (made r.transitions) l)
    (ha : r.index.active.lookup n = some a) (hlast : q.last = some last) (hle : n ≤ last)
    (hwants : q.Wants a.decision) (hcovers : Covers q a.decision n l) :
    Covers q a.decision n (r.stepListing now l).1 := by
  rcases stepListing_cases r now l with heq | ⟨hopen, phase, heq, hover⟩ | ⟨hopen, last', hlast', heq⟩
  · rw [heq]
    exact hcovers
  · rw [heq]
    rcases hcovers with hbefore | hmem | ⟨hlt, -⟩
    · exact .inl hbefore
    · exact .inr (.inl hmem)
    -- An entry is ahead, so this cannot be the end of the page.
    refine .inr (.inr ⟨hlt, fun hfin => ?_⟩)
    rcases hover hfin last (hs.last.trans hlast) with hdone | hnone
    · exact absurd (Nat.lt_of_lt_of_le hlt hle) (Nat.not_lt_of_le hdone)
    · exact absurd hnone (candidates_reach ha hlt hle).1
  · rw [heq]
    obtain rfl : last' = last := by
      rw [hs.last, hlast] at hlast'
      exact (Option.some.inj hlast').symm
    exact takeRows_covers _ l hs hopen (candidates_above h hsmall)
      hwants hcovers fun hlt => (candidates_reach ha hlt hle).2

end

end holds

/-! ## Runs -/

section runs

variable {s : Sys} {t : Nat} {q : Query}

structure Kept (sha256 : String → Digest) (t : Nat) (s : Sys) : Prop where
  inv : Inv sha256 s
  listings : ListingsBy t s
  ledger : Ledger t s.registry

theorem Kept.step (h : Kept sha256 t s) (e : Event) (hle : t ≤ e.now)
    (hsmall : (step sha256 s e).2.registry.sequence < 2 ^ 64) :
    Kept sha256 e.now (step sha256 s e).2 :=
  ⟨inv_step h.inv e, listingsBy_step s e t hle h.listings,
    ledger_step h.inv e h.listings h.ledger hle hsmall⟩

theorem Kept.run (h : Kept sha256 t s) (es : List Event) (hclock : Clocked Event.now t es)
    (hsmall : (run sha256 s es).registry.sequence < 2 ^ 64) :
    Kept sha256 (lastClock Event.now t es) (run sha256 s es) :=
  ⟨inv_run h.inv es, listingsBy_run h.listings hclock,
    ledger_run es s t h.inv h.listings h.ledger hclock hsmall⟩

theorem created_step (h : Kept sha256 t s) (e : Event) (hle : t ≤ e.now)
    (hsmall : (step sha256 s e).2.registry.sequence < 2 ^ 64) :
    (step sha256 s e).2.registry.epoch = s.registry.epoch ∧
      made s.registry.transitions ⊆ made (step sha256 s e).2.registry.transitions := by
  have hlist : ListingsBy e.now s := fun l hl => Nat.le_trans (h.listings l hl) hle
  rcases step_turnover h.inv e hlist h.ledger hsmall with ⟨log, hturn⟩ | ⟨-, hrebuilt⟩
  · refine ⟨hturn.recorded.epoch, ?_⟩
    rw [hturn.recorded.transitions, made_append]
    exact subset_append_left _ _
  · refine ⟨hrebuilt.epoch, ?_⟩
    rw [hrebuilt.transitions]
    exact Subset.refl _

theorem created_run (es : List Event) (s : Sys) (t : Nat) (h : Kept sha256 t s)
    (hclock : Clocked Event.now t es) (hsmall : (run sha256 s es).registry.sequence < 2 ^ 64) :
    (run sha256 s es).registry.epoch = s.registry.epoch ∧
      made s.registry.transitions ⊆ made (run sha256 s es).registry.transitions := by
  induction es generalizing s t with
  | nil => exact ⟨rfl, Subset.refl _⟩
  | cons e es ih =>
    have hnext := Nat.lt_of_le_of_lt (sequence_run (inv_step h.inv e) es) hsmall
    obtain ⟨hepoch, hsub⟩ := created_step h e hclock.1 hnext
    obtain ⟨hepoch', hsub'⟩ := ih _ e.now (h.step e hclock.1 hnext) hclock.2 hsmall
    exact ⟨hepoch'.trans hepoch, Subset.trans hsub hsub'⟩

/-- A lock hold leaves a listing alone or is its own. -/
theorem listing_step (e : Event) {i : Nat} (h : s.listings[i]? = some l) :
    (step sha256 s e).2.listings[i]? = some l ∨
      (step sha256 s e).2.listings[i]? = some (s.registry.stepListing e.now l).1 := by
  obtain ⟨now, action⟩ := e
  cases action with
  | observe j status localDenial =>
    simp only [step]
    cases s.issued[j]? with
    | none | some => exact .inl h
  | startListing profile domain after limit =>
    left
    exact (getElem?_append_left (List.getElem?_eq_some_iff.mp h).1).trans h
  | stepListing j =>
    simp only [step]
    cases hj : s.listings[j]? with
    | none => exact .inl h
    | some l' =>
      by_cases hij : j = i
      · subst hij
        rw [h] at hj
        obtain rfl := Option.some.inj hj
        right
        exact getElem?_set_self (List.getElem?_eq_some_iff.mp h).1
      · left
        exact (getElem?_set_ne hij).trans h
  | admitClient | release | activate | retainHosts => exact .inl h

/-- Before the first and after each of the lock holds, the ban is in its cell and
its deadline has not come. -/
def LiveThroughout (sha256 : String → Digest) (s : Sys) (t : Nat) (es : List Event) (b : Decision) :
    Prop :=
  ∀ n ≤ es.length, b ∈ (run sha256 s (es.take n)).registry.bans ∧
    Trace.lastClock Event.now t (es.take n) < b.deadline

instance (sha256 : String → Digest) (s : Sys) (t : Nat) (es : List Event) (b : Decision) :
    Decidable (LiveThroughout sha256 s t es b) :=
  inferInstanceAs (Decidable (∀ n ≤ es.length, _ ∧ _))

theorem LiveThroughout.here (h : LiveThroughout sha256 s t es b) :
    b ∈ s.registry.bans ∧ t < b.deadline :=
  h 0 (Nat.zero_le _)

theorem LiveThroughout.tail (h : LiveThroughout sha256 s t (e :: es) b) :
    LiveThroughout sha256 (step sha256 s e).2 e.now es b :=
  fun n hn => h (n + 1) (Nat.succ_le_succ hn)

theorem LiveThroughout.append (h : LiveThroughout sha256 s t (es ++ fs) b) :
    LiveThroughout sha256 s t es b ∧
      LiveThroughout sha256 (run sha256 s es) (lastClock Event.now t es) fs b := by
  induction es generalizing s t with
  | nil => exact ⟨fun n hn => by
      rw [take_nil]
      exact h.here, h⟩
  | cons e es ih =>
    obtain ⟨hfirst, hrest⟩ := ih h.tail
    refine ⟨fun n hn => ?_, hrest⟩
    cases n with
    | zero => exact h.here
    | succ n => exact hfirst n (Nat.le_of_succ_le_succ hn)

/-- A listing along a run. A ban it wants that stays in force is not missed. -/
theorem page_run (es : List Event) (s : Sys) (t : Nat) (h : Kept sha256 t s)
    (hclock : Clocked Event.now t es) (hsmall : (run sha256 s es).registry.sequence < 2 ^ 64)
    {i : Nat} (hl : s.listings[i]? = some l)
    (hs : Serves q s.registry.epoch (made s.registry.transitions) l) :
    ∃ l', (run sha256 s es).listings[i]? = some l' ∧
      Serves q (run sha256 s es).registry.epoch (made (run sha256 s es).registry.transitions) l' ∧
      ∀ b n last, decisionSequence b.id = some n → q.Wants b → q.last = some last → n ≤ last →
        LiveThroughout sha256 s t es b → Covers q b n l → Covers q b n l' := by
  induction es generalizing s t l with
  | nil => exact ⟨l, hl, hs, fun b n last _ _ _ _ _ hcovers => hcovers⟩
  | cons e es ih =>
    have hnext := Nat.lt_of_le_of_lt (sequence_run (inv_step h.inv e) es) hsmall
    have hsmall₀ := Nat.lt_of_le_of_lt (sequence_step h.inv.lasting e) hnext
    obtain ⟨hepoch, hsub⟩ := created_step h e hclock.1 hnext
    have hkept := h.step e hclock.1 hnext
    rcases listing_step e hl with hl' | hl'
    · have hs' : Serves q (AbuseRegistryRun.step sha256 s e).2.registry.epoch _ l :=
        hepoch.symm ▸ hs.mono hsub
      obtain ⟨l', hfound, hserves, hcover⟩ := ih _ e.now hkept hclock.2 hsmall hl' hs'
      exact ⟨l', hfound, hserves, fun b n last hn hw hlast hle hlive hcovers =>
        hcover b n last hn hw hlast hle hlive.tail hcovers⟩
    · have hs' : Serves q (AbuseRegistryRun.step sha256 s e).2.registry.epoch _ _ :=
        hepoch.symm ▸ (stepListing_serves h.ledger hsmall₀ e.now hs).mono hsub
      obtain ⟨l', hfound, hserves, hcover⟩ := ih _ e.now hkept hclock.2 hsmall hl' hs'
      refine ⟨l', hfound, hserves, fun b n last hn hw hlast hle hlive hcovers =>
        hcover b n last hn hw hlast hle hlive.tail ?_⟩
      -- The ban is in force, so the index has it.
      obtain ⟨n', a, hn', ha, rfl⟩ := h.ledger.indexed b hlive.here.1 hlive.here.2
      obtain rfl : n' = n := Option.some.inj (hn'.symm.trans hn)
      exact stepListing_covers h.ledger hsmall₀ hs ha hlast hle hw hcovers

end runs

/-! ## Following the cursor -/

/-- One page: the clock when it starts, and the lock holds from then on. -/
structure PageRun where
  now : Nat
  during : List Event

def pageEvents (profile domain : Option String) (after limit : Nat) (p : PageRun) : List Event :=
  ⟨p.now, .startListing profile domain after limit⟩ :: p.during

/-- Follow the cursor from page to page until there is none, each page with the
lock holds given for it, its own among them. The pages and all the lock holds, if
every page gets to its end. -/
def enumerate (sha256 : String → Digest) (profile domain : Option String) (limit : Nat) :
    Sys → Option String → List PageRun → Option (List NativeBanPage × List Event)
  | _, _, [] => none
  | s, cursor, p :: ps =>
    match s.registry.afterCursor cursor with
    | .error _ => none
    | .ok after =>
      let es := pageEvents profile domain after limit p
      let s' := run sha256 s es
      match s'.listings[s.listings.length]? with
      | none => none
      | some l =>
        if l.phase = .finished then
          let page := s'.registry.page l
          match page.nextCursor with
          | none => if ps.isEmpty then some ([page], es) else none
          | some next =>
            (enumerate sha256 profile domain limit s' (some next) ps).map fun rest =>
              (page :: rest.1, es ++ rest.2)
        else none

section enumeration

variable {s : Sys} {t limit after : Nat} {profile domain : Option String}

/-- An enumeration is its first page, which is the last one or gives the cursor
for the rest. -/
theorem enumerate_cons (hcursor : s.registry.afterCursor cursor = .ok after)
    (h : enumerate sha256 profile domain limit s cursor (p :: ps) = some (pages, es)) :
    ∃ s' l, s' = run sha256 s (pageEvents profile domain after limit p) ∧
      s'.listings[s.listings.length]? = some l ∧ l.phase = .finished ∧
      (((page s'.registry l).nextCursor = none ∧ ps = [] ∧ pages = [page s'.registry l] ∧
          es = pageEvents profile domain after limit p) ∨
        ∃ next rest, (page s'.registry l).nextCursor = some next ∧
          enumerate sha256 profile domain limit s' (some next) ps = some rest ∧
          pages = page s'.registry l :: rest.1 ∧
          es = pageEvents profile domain after limit p ++ rest.2) := by
  simp only [enumerate, hcursor] at h
  generalize hs' : run sha256 s (pageEvents profile domain after limit p) = s' at h
  cases hl : s'.listings[s.listings.length]? with
  | none => simp [hl] at h
  | some l =>
    simp only [hl] at h
    by_cases hfin : l.phase = .finished
    · refine ⟨s', l, rfl, hl, hfin, ?_⟩
      rw [if_pos hfin] at h
      cases hnext : (page s'.registry l).nextCursor with
      | none =>
        simp only [hnext] at h
        cases ps with
        | nil =>
          obtain ⟨rfl, rfl⟩ := Prod.mk.inj (Option.some.inj h)
          exact .inl ⟨rfl, rfl, rfl, rfl⟩
        | cons p' ps => cases h
      | some next =>
        simp only [hnext] at h
        obtain ⟨rest, hrest, hpair⟩ := map_eq_some_iff.mp h
        obtain ⟨rfl, rfl⟩ := Prod.mk.inj hpair
        exact .inr ⟨next, rest, rfl, hrest, rfl, rfl⟩
    · rw [if_neg hfin] at h
      cases h

/-- The cursor of a page leads back to the number of its last ban. -/
theorem afterCursor_cursorOf (r : Registry) (hid : b.id = banId r.epoch n) (hn : n < 2 ^ 64) :
    r.afterCursor (some (r.cursorOf b)) = .ok n := by
  have hdash : '-' ∉ (toString n).toList := not_mem_toString (by decide) n
  have hcolon : ':' ∉ (toString n).toList := not_mem_toString (by decide) n
  have hchars : b.id.toList = r.epoch.toList ++ '-' :: (toString n).toList := by
    rw [hid]
    simp [banId]
  have hcursor : (r.cursorOf b).toList = r.epoch.toList ++ ':' :: (toString n).toList := by
    rw [cursorOf, hchars, afterLast_append hdash]
    simp
  have hsplit : rsplitOnce ':' (r.cursorOf b).toList =
      some (r.epoch.toList, (toString n).toList) := by
    rw [hcursor, rsplitOnce_append hcolon]
  simp only [afterCursor, hsplit, String.ofList_toList, parseU64_toString hn, ne_eq,
    not_true_eq_false, if_false]

/-- A listing that has just started. -/
theorem startListing_serves {r : Registry} (hlimit : 1 ≤ limit) :
    Serves ⟨profile, domain, after, limit, now, r.index.active.keys.max?⟩ r.epoch created
      (r.startListing now profile domain after limit) where
  profile := rfl
  domain := rfl
  limit := rfl
  now := rfl
  last := rfl
  started := Nat.le_refl _
  numbered := numbered_nil
  rows := fun b hb => by cases hb
  short := fun _ => hlimit
  full := fun _ b hb => by cases hb

/-- A page is read to its end. -/
structure PageRead (sha256 : String → Digest) (profile domain : Option String)
    (after limit t : Nat) (s s' : Sys) (p : PageRun) (l : Listing) : Prop where
  kept : Kept sha256 t s
  limit_pos : 1 ≤ limit
  after_run : s' = run sha256 s (pageEvents profile domain after limit p)
  clock : Clocked Event.now t (pageEvents profile domain after limit p)
  small : s'.registry.sequence < 2 ^ 64
  found : s'.listings[s.listings.length]? = some l
  finished : l.phase = .finished

/-- What one page lists, and that it misses no ban up to where it was read. -/
theorem page_listed (h : PageRead sha256 profile domain after limit t s s' p l) :
    ∃ q : Query, q.profile = profile ∧ q.domain = domain ∧ q.after = after ∧ q.limit = limit ∧
      q.now = p.now ∧ Serves q s'.registry.epoch (made s'.registry.transitions) l ∧
      ∀ b n, decisionSequence b.id = some n → Matches profile domain b →
        LiveThroughout sha256 s t (pageEvents profile domain after limit p) b →
        n ≤ after ∨ b ∈ l.rows ∨ (l.scannedThrough < n ∧ l.rows.length = limit) := by
  obtain ⟨h, hlimit, rfl, hclock, hsmall, hl, hfin⟩ := h
  let first : Event := ⟨p.now, .startListing profile domain after limit⟩
  let l₀ := s.registry.startListing p.now profile domain after limit
  have hsmall₁ : (step sha256 s first).2.registry.sequence < 2 ^ 64 :=
    Nat.lt_of_le_of_lt (sequence_run (inv_step h.inv first) p.during) hsmall
  have hl₀ : (step sha256 s first).2.listings[s.listings.length]? = some l₀ :=
    getElem?_concat_length
  obtain ⟨l', hl', hserves, hcover⟩ := page_run p.during _ p.now (h.step first hclock.1 hsmall₁)
    hclock.2 hsmall hl₀ (startListing_serves hlimit)
  obtain rfl : l = l' := Option.some.inj (hl.symm.trans hl')
  refine ⟨_, rfl, rfl, rfl, rfl, rfl, hserves, fun b n hn hmatch hlive => ?_⟩
  obtain ⟨n', a, hn', ha, -⟩ := h.ledger.indexed b hlive.here.1 hlive.here.2
  obtain rfl : n' = n := Option.some.inj (hn'.symm.trans hn)
  -- The last number was sampled while the ban was in the index.
  have hkey : n' ∈ s.registry.index.active.keys :=
    AList.mem_keys.mp (AList.lookup_isSome.mp (by rw [ha]; rfl))
  obtain ⟨last, hlast⟩ := isSome_iff_exists.mp (isSome_max?_of_mem hkey)
  have hle : n' ≤ last := (List.max?_eq_some_iff.mp hlast).2 n' hkey
  have hstart : Covers ⟨profile, domain, after, limit, p.now, s.registry.index.active.keys.max?⟩
      b n' l₀ := by
    by_cases hbefore : n' ≤ after
    · exact .inl hbefore
    refine .inr (.inr ⟨Nat.lt_of_not_le hbefore, fun hover => ?_⟩)
    have hphase : l₀.phase = .expiring := if_neg (Nat.ne_of_gt hlimit)
    rw [hphase] at hover
    cases hover
  rcases hcover b n' last hn ⟨hlive.tail.here.2, hmatch⟩ hlast hle hlive.tail hstart with
    hbefore | hmem | ⟨hlt, hfull⟩
  · exact .inl hbefore
  · exact .inr (.inl hmem)
  · exact .inr (.inr ⟨hlt, hfull hfin⟩)

/-- The page lists bans that were created, pass the filters and had not reached
their deadline when the page started. -/
def Shows (profile domain : Option String) (created : List Decision) (p : PageRun)
    (page : NativeBanPage) : Prop :=
  ∀ item ∈ page.items, ∃ b ∈ created, (∃ wall, item = pageItem wall b) ∧
    Matches profile domain b ∧ p.now < b.deadline

theorem page_shows {epoch : String} (hs : Serves q epoch created l) (hnow : q.now = p.now) :
    Shows q.profile q.domain created p (page r l) := by
  intro item hitem
  obtain ⟨b, hb, rfl⟩ := mem_map.mp hitem
  obtain ⟨hcreated, hlive, hmatch⟩ := hs.rows b hb
  exact ⟨b, hcreated, ⟨_, rfl⟩, hmatch, hnow ▸ hlive⟩

theorem shows_created (h : Forall₂ (Shows profile domain created) ps pages) :
    (pages.flatMap NativeBanPage.items).map NativeBan.id ⊆ created.map Decision.id := by
  induction h with
  | nil => exact nil_subset _
  | cons hpage _ ih =>
    rw [flatMap_cons, map_append]
    refine List.append_subset.mpr ⟨fun id hid => ?_, ih⟩
    obtain ⟨item, hitem, rfl⟩ := mem_map.mp hid
    obtain ⟨b, hb, ⟨wall, rfl⟩, -⟩ := hpage item hitem
    exact mem_map_of_mem hb

theorem page_ids : (page r l).items.map NativeBan.id = l.rows.map Decision.id := by
  rw [page, List.map_map]
  rfl

/-- A page has a cursor exactly when it is full. -/
theorem page_next {epoch : String} (hs : Serves q epoch created l) (hlimit : 1 ≤ q.limit) :
    ((page r l).nextCursor = none ∧ l.rows.length ≠ q.limit) ∨
      ∃ b ∈ l.rows, (page r l).nextCursor = some (r.cursorOf b) ∧
        b.id = banId epoch l.scannedThrough := by
  by_cases hfull : l.rows.length = q.limit
  · have hne : l.rows ≠ [] := fun hnil => by
      rw [hnil] at hfull
      exact absurd hlimit (hfull ▸ Nat.not_succ_le_zero 0)
    have hlast := getLast?_eq_some_getLast hne
    refine .inr ⟨l.rows.getLast hne, getLast_mem hne, ?_, hs.full hfull _ hlast⟩
    simp only [page, hs.limit, if_pos hfull, hlast, map_some]
  · exact .inl ⟨by simp only [page, hs.limit, if_neg hfull], hfull⟩

/-- What the pages of an enumeration list, from the ban after `after` on. -/
structure Enumerated (sha256 : String → Digest) (profile domain : Option String) (after t : Nat)
    (s : Sys) (es : List Event) (ps : List PageRun) (pages : List NativeBanPage) : Prop where
  numbered : ∃ ns : List Nat, (pages.flatMap NativeBanPage.items).map NativeBan.id =
    ns.map (banId s.registry.epoch) ∧ ns.Pairwise (· < ·) ∧ ∀ n ∈ ns, after < n
  shown : Forall₂ (Shows profile domain (made (run sha256 s es).registry.transitions)) ps pages
  complete : ∀ b n, decisionSequence b.id = some n → Matches profile domain b →
    LiveThroughout sha256 s t es b →
    n ≤ after ∨ b.id ∈ (pages.flatMap NativeBanPage.items).map NativeBan.id

namespace PageRead

variable (h : PageRead sha256 profile domain after limit t s s' p l)

include h

theorem next_kept :
    Kept sha256 (lastClock Event.now t (pageEvents profile domain after limit p)) s' ∧
      s'.registry.epoch = s.registry.epoch := by
  obtain ⟨h, -, rfl, hclock, hsmall, -⟩ := h
  exact ⟨h.run _ hclock hsmall, (created_run _ s t h hclock hsmall).1⟩

/-- The page after a cursor starts after the last ban of this one. -/
theorem next_after {next : String} (hnext : (page s'.registry l).nextCursor = some next) :
    s'.registry.afterCursor (some next) = .ok l.scannedThrough := by
  obtain ⟨q, rfl, rfl, rfl, rfl, -, hserves, -⟩ := page_listed h
  rcases page_next (r := s'.registry) hserves h.limit_pos with ⟨hnone, -⟩ | ⟨c, hc, hsome, hid⟩
  · rw [hnone] at hnext
    cases hnext
  rw [hsome] at hnext
  obtain ⟨m, hm, hle⟩ := number_of_mem h.next_kept.1.ledger.numbered (hserves.rows c hc).1
  have hsame := banId_injective _ (hid.symm.trans hm)
  rw [← Option.some.inj hnext]
  exact afterCursor_cursorOf s'.registry hid (hsame ▸ Nat.lt_of_le_of_lt hle.2 h.small)

theorem last (hnone : (page s'.registry l).nextCursor = none) :
    Enumerated sha256 profile domain after t s (pageEvents profile domain after limit p) [p]
      [page s'.registry l] := by
  obtain ⟨q, rfl, rfl, rfl, rfl, hnow, hserves, hcover⟩ := page_listed h
  obtain ⟨ns, hids, hsorted, hbound⟩ := hserves.numbered
  rw [h.next_kept.2] at hids
  refine ⟨⟨ns, ?_, hsorted, fun n hn => (hbound n hn).1⟩, ?_, fun b n hn hmatch hlive => ?_⟩
  · rwa [flatMap_singleton, page_ids]
  · rw [← h.after_run]
    exact .cons (page_shows hserves hnow) .nil
  rw [flatMap_singleton, page_ids]
  rcases hcover b n hn hmatch hlive with hbefore | hmem | ⟨-, hfull⟩
  · exact .inl hbefore
  · exact .inr (mem_map_of_mem hmem)
  -- A page without a cursor is not full.
  rcases page_next (r := s'.registry) hserves h.limit_pos with ⟨-, hshort⟩ | ⟨c, -, hsome, -⟩
  · exact absurd hfull hshort
  · rw [hnone] at hsome
    cases hsome

theorem cons (hclock : Clocked Event.now
      (lastClock Event.now t (pageEvents profile domain after limit p)) later)
    (hsmall : (run sha256 s' later).registry.sequence < 2 ^ 64)
    (hrest : Enumerated sha256 profile domain l.scannedThrough
      (lastClock Event.now t (pageEvents profile domain after limit p)) s' later ps pages) :
    Enumerated sha256 profile domain after t s (pageEvents profile domain after limit p ++ later)
      (p :: ps) (page s'.registry l :: pages) := by
  obtain ⟨q, rfl, rfl, rfl, rfl, hnow, hserves, hcover⟩ := page_listed h
  obtain ⟨⟨ms, hids', hsorted', hbound'⟩, hshown, hcover'⟩ := hrest
  obtain ⟨ns, hids, hsorted, hbound⟩ := hserves.numbered
  obtain ⟨hkept, hepoch⟩ := h.next_kept
  have hcreated := (created_run later s' _ hkept hclock hsmall).2
  refine ⟨⟨ns ++ ms, ?_, ?_, fun n hn => ?_⟩, ?_, fun b n hn hmatch hlive => ?_⟩
  · rw [flatMap_cons, map_append, page_ids, hids, hids', hepoch, map_append]
  · exact pairwise_append.mpr ⟨hsorted, hsorted', fun n hn m hm =>
      Nat.lt_of_le_of_lt (hbound n hn).2 (hbound' m hm)⟩
  · rcases mem_append.mp hn with hn | hn
    · exact (hbound n hn).1
    · exact Nat.lt_of_le_of_lt hserves.started (hbound' n hn)
  · rw [run_append, ← h.after_run]
    exact .cons (page_shows (hserves.mono hcreated) hnow) hshown
  · obtain ⟨hlive₁, hlive₂⟩ := hlive.append
    rw [← h.after_run] at hlive₂
    rw [flatMap_cons, map_append, page_ids]
    rcases hcover b n hn hmatch hlive₁ with hbefore | hmem | ⟨hlt, -⟩
    · exact .inl hbefore
    · exact .inr (mem_append_left _ (mem_map_of_mem hmem))
    rcases hcover' b n hn hmatch hlive₂ with hle | hmem
    · exact absurd hlt (Nat.not_lt_of_le hle)
    · exact .inr (mem_append_right _ hmem)

end PageRead

theorem enumerate_listed (h : Kept sha256 t s) (hlimit : 1 ≤ limit)
    (hcursor : s.registry.afterCursor cursor = .ok after)
    (henum : enumerate sha256 profile domain limit s cursor ps = some (pages, es))
    (hclock : Clocked Event.now t es) (hsmall : (run sha256 s es).registry.sequence < 2 ^ 64) :
    Enumerated sha256 profile domain after t s es ps pages := by
  induction ps generalizing s t after cursor pages es with
  | nil => cases henum
  | cons p ps ih =>
    obtain ⟨s', l, hs', hl, hfin, hcase⟩ := enumerate_cons hcursor henum
    rcases hcase with ⟨hnone, rfl, rfl, rfl⟩ | ⟨next, ⟨pages', later⟩, hnext, hrest, rfl, rfl⟩
    · rw [← hs'] at hsmall
      exact PageRead.last ⟨h, hlimit, hs', hclock, hsmall, hl, hfin⟩ hnone
    · obtain ⟨hclock₁, hclock₂⟩ := (clocked_append Event.now t _ later).mp hclock
      rw [run_append, ← hs'] at hsmall
      have hsmall' : s'.registry.sequence < 2 ^ 64 := by
        rw [hs'] at hsmall ⊢
        exact Nat.lt_of_le_of_lt (sequence_run (inv_run h.inv _) later) hsmall
      have hread : PageRead sha256 profile domain after limit t s s' p l :=
        ⟨h, hlimit, hs', hclock₁, hsmall', hl, hfin⟩
      exact hread.cons hclock₂ hsmall
        (ih hread.next_kept.1 (hread.next_after hnext) hrest hclock₂ hsmall)

end enumeration

/-- Following the cursor to the end, with any other lock holds in between, while the
sequence has numbers: the bans listed are among those created, in the order of
their creation and each once; a page lists no ban whose deadline had come when it
started; and a ban that passes the filters and is in force throughout is listed
exactly once. -/
theorem listing_is_complete (sha256 : String → Digest) (epoch : String)
    (limits : DomainStore.Limits) (wallOrigin monoOrigin : Nat) (queue : Option EventQueue.Queue)
    (history : List Event) (profile domain : Option String) (limit : Nat) (ps : List PageRun)
    (pages : List NativeBanPage) (es : List Event) (hlimit : 1 ≤ limit)
    (henum : enumerate sha256 profile domain limit
      (run sha256 (Sys.start (Registry.new epoch limits wallOrigin monoOrigin queue)) history)
      none ps = some (pages, es)) (hclock : Trace.Clocked Event.now 0 (history ++ es))
    (hsmall : (run sha256 (Sys.start (Registry.new epoch limits wallOrigin monoOrigin queue))
      (history ++ es)).registry.sequence < 2 ^ 64) :
    let start := Sys.start (Registry.new epoch limits wallOrigin monoOrigin queue)
    let created := made (run sha256 start (history ++ es)).registry.transitions
    let listed := (pages.flatMap NativeBanPage.items).map NativeBan.id
    (created.map Decision.id).Nodup ∧ listed.Sublist (created.map Decision.id) ∧
    Forall₂ (Shows profile domain created) ps pages ∧
    ∀ b, Matches profile domain b →
      LiveThroughout sha256 (run sha256 start history) (lastClock Event.now 0 history) es b →
      listed.count b.id = 1 := by
  intro start created listed
  have hfresh : Kept sha256 0 start := ⟨inv_start, (fun l hl => by cases hl), ledger_start⟩
  obtain ⟨hbefore, hduring⟩ := (clocked_append Event.now 0 history es).mp hclock
  have hsmall' : (run sha256 (run sha256 start history) es).registry.sequence < 2 ^ 64 := by
    rw [← run_append]
    exact hsmall
  have hsmall₀ : (run sha256 start history).registry.sequence < 2 ^ 64 :=
    Nat.lt_of_le_of_lt (sequence_run (inv_run hfresh.inv history) es) hsmall'
  have hkept := hfresh.run history hbefore hsmall₀
  obtain ⟨⟨ns, hids, hsorted, -⟩, hshows, hcover⟩ := enumerate_listed hkept hlimit rfl
    henum hduring hsmall'
  have hepoch := (created_run es _ _ hkept hduring hsmall').1
  have hledger := (hkept.run es hduring hsmall').ledger
  have hcreated : created = made (run sha256 (run sha256 start history) es).registry.transitions :=
    congrArg (fun s : Sys => made s.registry.transitions) (run_append sha256 start history es)
  rw [← hcreated] at hshows
  obtain ⟨ms, hall, hsorted', -⟩ := hledger.numbered
  rw [← hcreated, hepoch] at hall
  have hnodup : (created.map Decision.id).Nodup := by
    rw [hcreated]
    exact nodup_ids hledger.numbered
  -- Both lists of ids follow the numbers, and the numbers of the one are among the other's.
  have hsub : ns ⊆ ms := by
    intro n hn
    have hid : banId (run sha256 start history).registry.epoch n ∈ created.map Decision.id :=
      shows_created hshows (by rw [hids]; exact mem_map_of_mem hn)
    rw [hall] at hid
    obtain ⟨m, hm, heq⟩ := mem_map.mp hid
    exact banId_injective _ heq ▸ hm
  have hnumbers : ns.Sublist ms :=
    sublist_of_subperm_of_pairwise
      (subperm_of_subset (hsorted.imp fun hlt => Nat.ne_of_lt hlt) hsub) hsorted hsorted'
  have hpart : listed.Sublist (created.map Decision.id) := by
    have hlisted : listed = ns.map (banId (run sha256 start history).registry.epoch) := hids
    rw [hlisted, hall]
    exact hnumbers.map _
  refine ⟨hnodup, hpart, hshows, fun b hmatch hlive => ?_⟩
  obtain ⟨n, hn, hpos, -⟩ := sequence_of_mem hkept.ledger.numbered hsmall₀
    (hkept.ledger.mem_made hlive.here.1)
  have hmem := (hcover b n hn hmatch hlive).resolve_left (Nat.not_le_of_lt hpos)
  exact count_eq_one_of_mem (hpart.nodup hnodup) hmem

def lockout : Decision :=
  ⟨"e-1", "e", "shop", "shop.test", "2001:db8::1", .failedLogin, 13, 300013, 300013⟩

/-- Two pages, with a request of another client while the first is read. -/
def twoPages : List PageRun :=
  [⟨14, [⟨15, .stepListing 0⟩,
      ⟨16, .admitClient "shop" none "shop.test" "192.0.2.7" "GET" "/"⟩, ⟨17, .stepListing 0⟩]⟩,
    ⟨18, [⟨19, .stepListing 1⟩]⟩]

theorem listing_is_complete_two_pages :
    let start := Sys.start (Registry.new "e" ⟨4, 4⟩ 0 0 none)
    ∃ pages es, enumerate digests (some "shop") none 1 (run digests start lockedOut) none twoPages =
        some (pages, es) ∧ pages.length = 2 ∧
      LiveThroughout digests (run digests start lockedOut) 13 es lockout ∧
      ((pages.flatMap NativeBanPage.items).map NativeBan.id).count "e-1" = 1 := by
  intro start
  have hrun : (enumerate digests (some "shop") none 1 (run digests start lockedOut) none
      twoPages).any (fun out => decide (out.1.length = 2 ∧
        Clocked Event.now 0 (lockedOut ++ out.2) ∧
        (run digests start (lockedOut ++ out.2)).registry.sequence < 2 ^ 64 ∧
        LiveThroughout digests (run digests start lockedOut) 13 out.2 lockout)) = true := by
    decide +kernel
  cases henum : enumerate digests (some "shop") none 1 (run digests start lockedOut) none
      twoPages with
  | none => rw [henum] at hrun; cases hrun
  | some out =>
    rw [henum] at hrun
    obtain ⟨hlength, hclock, hsmall, hlive⟩ := of_decide_eq_true hrun
    exact ⟨out.1, out.2, rfl, hlength, hlive,
      (listing_is_complete digests "e" ⟨4, 4⟩ 0 0 none lockedOut (some "shop") none 1 twoPages
        out.1 out.2 (Nat.le_refl 1) henum hclock hsmall).2.2.2 lockout (by decide) hlive⟩

end AbuseBanListing
