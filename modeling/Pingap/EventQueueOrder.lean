import Pingap.EventQueue
import Pingap.Trace

/-!
# What becomes of the entries of the event queue

Every offer is counted once, every entry that came in was drained, evicted or is still
there, and only detections are evicted. Entries come out in the order they came in, but
`drain` passes over lifecycle records and so overtakes them.
-/

namespace EventQueueOrder

open EventQueue Trace List Queue

/-! ## Evictions -/

section evictions

variable {evict : Notification → Bool} {l : List Notification}

theorem removeFirst_sublist : (removeFirst evict l).Sublist l := by
  induction l with
  | nil => exact .slnil
  | cons e l ih =>
    rw [removeFirst]
    split
    · exact sublist_cons_self e l
    · exact ih.cons_cons e

theorem length_removeFirst (h : l.any evict = true) :
    (removeFirst evict l).length + 1 = l.length := by
  induction l with
  | nil => cases h
  | cons e l ih =>
    rw [removeFirst]
    cases he : evict e with
    | true => rfl
    | false =>
      rw [any_cons, he, Bool.false_or] at h
      simpa using ih h

/-- Entries that are not to be evicted stay, in their order. -/
theorem filter_removeFirst (h : ∀ n, evict n = true → keep n = false) :
    (removeFirst evict l).filter keep = l.filter keep := by
  induction l with
  | nil => rfl
  | cons e l ih =>
    rw [removeFirst]
    split
    case isTrue he => rw [filter_cons_of_neg (by simp [h e he])]
    case isFalse => rw [filter_cons, filter_cons, ih]

end evictions

/-! ## Offers -/

/-- The counters an offer is counted in. -/
def tallies (c : Counters) : List Nat :=
  [c.queued, c.droppedDetect, c.countedEnforced, c.droppedLifecycle]

/-- Which of them counts an offer. -/
def tally (event : Notification) : Admission → Fin 4
  | .queued | .evictedADetect => 0
  | .dropped => 1
  | .counted => if event.isNative then 3 else 2

/-- What an offer does: the entry comes in at the end, where there is room or in the place of a
detection, or it is refused; one of the counters says which. -/
structure Offered (event : Notification) (admission : Admission) (q q' : Queue) : Prop where
  capacity : q'.capacity = q.capacity
  offered : q'.counters.offered = q.counters.offered + 1
  counted : tallies q'.counters = (tallies q.counters).modify (tally event admission) (· + 1)
  came : admission.entered = true →
    q'.counters.queued = q.counters.queued + 1 ∧
    (q.queue.length < q.capacity ∧ q'.queue = q.queue ++ [event] ∧
        q'.counters.evictedDetect = q.counters.evictedDetect ∨
      q.queue.any Notification.droppable = true ∧ event.droppable = false ∧
        q'.queue = Queue.removeFirst Notification.droppable q.queue ++ [event] ∧
        q'.counters.evictedDetect = q.counters.evictedDetect + 1)
  refused : admission.entered = false →
    q'.counters.queued = q.counters.queued ∧ q'.queue = q.queue ∧
    q'.counters.evictedDetect = q.counters.evictedDetect ∧ q.capacity ≤ q.queue.length ∧
    (event.droppable = false → ∀ n ∈ q.queue, n.droppable = false)

theorem offer_of_place {q : Queue} (h : q.place event = (admission, l)) :
    q.offerNotification event = (admission, { q with
      queue := l
      counters := countAdmission event (countNative event admission.entered
        { q.counters with offered := q.counters.offered + 1 }) admission }) := by
  simp only [offerNotification, h]

theorem offer_spec (q : Queue) (event : Notification) :
    Offered event (q.offerNotification event).1 q (q.offerNotification event).2 := by
  by_cases hroom : q.queue.length < q.capacity
  · rw [offer_of_place (if_pos hroom)]
    cases event <;> exact ⟨rfl, rfl, rfl, fun _ => ⟨rfl, .inl ⟨hroom, rfl, rfl⟩⟩, nofun⟩
  have hfull := Nat.not_lt.mp hroom
  by_cases hdrop : event.droppable = true
  · rw [offer_of_place ((if_neg hroom).trans (if_pos hdrop))]
    cases event with
    | waf => exact ⟨rfl, rfl, rfl, nofun,
        fun _ => ⟨rfl, rfl, rfl, hfull, fun h => by cases hdrop.symm.trans h⟩⟩
    | native => cases hdrop
  by_cases hany : q.queue.any Notification.droppable = true
  · rw [offer_of_place ((if_neg hroom).trans ((if_neg hdrop).trans (if_pos hany)))]
    rw [Bool.not_eq_true] at hdrop
    cases event <;> exact ⟨rfl, rfl, rfl, fun _ => ⟨rfl, .inr ⟨hany, hdrop, rfl, rfl⟩⟩, nofun⟩
  · rw [offer_of_place ((if_neg hroom).trans ((if_neg hdrop).trans (if_neg hany)))]
    have hkept : ∀ n ∈ q.queue, n.droppable = false := by simpa using hany
    cases event <;> exact ⟨rfl, rfl, rfl, nofun, fun _ => ⟨rfl, rfl, rfl, hfull, fun _ => hkept⟩⟩

/-! ## Drains -/

/-- What a drain does: it takes entries out. -/
structure Drained (events : List Notification) (q q' : Queue) : Prop where
  capacity : q'.capacity = q.capacity
  counters : q'.counters = q.counters
  length : events.length + q'.queue.length = q.queue.length

theorem length_takeWaf (limit : Nat) (l : List Notification) :
    (takeWaf limit l).1.length + (takeWaf limit l).2.length = l.length := by
  fun_induction takeWaf limit l with
  | case1 queue => simp
  | case2 limit => rfl
  | case3 _ _ _ _ _ hrest ih | case4 _ _ _ _ _ hrest ih =>
    simp only [hrest] at ih
    simp only [length_cons]
    omega

/-- The WAF events come out in their order, and the others keep theirs. -/
theorem filter_takeWaf
    (h : (∀ n, keep n = true → n.isNative = true) ∨ ∀ n, keep n = true → n.isNative = false) :
    ((takeWaf limit l).1.map Notification.waf ++ (takeWaf limit l).2).filter keep =
      l.filter keep := by
  fun_induction takeWaf limit l with
  | case1 | case2 => rfl
  | case3 limit event rest events queue hrest ih =>
    simp only [hrest] at ih
    simp only [map_cons, cons_append, filter_cons, ih]
  | case4 limit event rest events queue hrest ih =>
    simp only [hrest] at ih
    rcases h with hnative | hwaf
    · have hnone : (events.map Notification.waf).filter keep = [] := by
        refine List.filter_eq_nil_iff.mpr fun n hn hkeep => ?_
        obtain ⟨event, -, rfl⟩ := mem_map.mp hn
        cases hnative _ hkeep
      rw [filter_append, hnone, nil_append] at ih
      rw [filter_append, hnone, nil_append, filter_cons, filter_cons, ih]
    · have hskip : ¬ keep (.native event) = true := fun hkeep => by cases hwaf _ hkeep
      rw [filter_append] at ih
      rw [filter_append, filter_cons_of_neg hskip, filter_cons_of_neg hskip, ih]

theorem drain_spec : Drained ((q.drain limit).1.map .waf) q (q.drain limit).2 :=
  ⟨rfl, rfl, by simpa [Queue.drain] using length_takeWaf limit q.queue⟩

theorem drainNotifications_spec (q : Queue) (limit : Nat) :
    Drained (q.drainNotifications limit).1 q (q.drainNotifications limit).2 ∧
    (q.drainNotifications limit).1 ++ (q.drainNotifications limit).2.queue = q.queue := by
  have happend : (q.drainNotifications limit).1 ++ (q.drainNotifications limit).2.queue = q.queue :=
    take_append_drop _ _
  exact ⟨⟨rfl, rfl, by rw [← length_append, happend]⟩, happend⟩

/-! ## Accounts -/

/-- The accounts of a queue balance with what went in and out. -/
structure Balanced (outs : List Answer) (q : Queue) : Prop where
  bound : q.queue.length ≤ q.capacity
  counted : q.counters.offered = (tallies q.counters).sum
  came : q.counters.queued = (entered outs).length
  left : q.counters.queued = (drained outs).length + q.counters.evictedDetect + q.queue.length

theorem entered_append : entered (outs ++ [o]) = entered outs ++ entered [o] := flatMap_append

theorem drained_append : drained (outs ++ [o]) = drained outs ++ drained [o] := flatMap_append

theorem sum_tallies_modify {l : List Nat} (h : i < l.length) :
    (l.modify i (· + 1)).sum = l.sum + 1 := by
  induction l generalizing i with
  | nil => exact absurd h (Nat.not_lt_zero i)
  | cons n l ih =>
    cases i with
    | zero =>
      simp only [modify_zero_cons, sum_cons]
      omega
    | succ i =>
      have hrest := ih (Nat.lt_of_succ_lt_succ h)
      simp only [modify_succ_cons, sum_cons, hrest]
      omega

theorem Balanced.offer (h : Balanced outs q) (event : Notification) :
    Balanced (outs ++ [(step q (.offer event)).1]) (step q (.offer event)).2 := by
  obtain ⟨hbound, hcounted, hcame, hleft⟩ := h
  obtain ⟨hcapacity, hoffered, htallies, hentered, hrefused⟩ := offer_spec q event
  have hsum : (q.offerNotification event).2.counters.offered =
      (tallies (q.offerNotification event).2.counters).sum := by
    rw [htallies, sum_tallies_modify (tally event _).isLt, hoffered, hcounted]
  simp only [step]
  generalize (q.offerNotification event).1 = admission at hentered hrefused
  generalize (q.offerNotification event).2 = q' at *
  cases hadmission : admission.entered with
  | true =>
    have hone : entered [.admitted event admission] = [event] := by simp [entered, hadmission]
    obtain ⟨hqueued, hplace⟩ := hentered hadmission
    have hlengths : q'.queue.length ≤ q.capacity ∧ q'.queue.length + q'.counters.evictedDetect =
        q.queue.length + q.counters.evictedDetect + 1 := by
      rcases hplace with ⟨hroom, hqueue, hevicted⟩ | ⟨hany, -, hqueue, hevicted⟩
      · rw [hqueue, hevicted, length_append, length_singleton]
        omega
      · have hlength := length_removeFirst hany
        rw [hqueue, hevicted, length_append, length_singleton]
        omega
    refine ⟨hcapacity ▸ hlengths.1, hsum, ?_, ?_⟩
    · rw [entered_append, hone, length_append, hqueued, hcame]
      rfl
    · rw [drained_append, hqueued]
      simp only [drained, flatMap_cons, flatMap_nil, append_nil] at hleft ⊢
      omega
  | false =>
    have hnone : entered [.admitted event admission] = [] := by simp [entered, hadmission]
    obtain ⟨hqueued, hqueue, hevicted, -, -⟩ := hrefused hadmission
    refine ⟨?_, hsum, ?_, ?_⟩
    · rw [hqueue, hcapacity]
      exact hbound
    · rw [entered_append, hnone, append_nil, hqueued, hcame]
    · rw [drained_append, hqueue, hqueued, hevicted]
      simpa [drained] using hleft

theorem Balanced.drain (h : Balanced outs q) (hdrained : Drained events q q') :
    Balanced (outs ++ [.drained events]) q' := by
  obtain ⟨hbound, hcounted, hcame, hleft⟩ := h
  obtain ⟨hcapacity, hcounters, hlength⟩ := hdrained
  have hone : drained [.drained events] = events := by simp [drained]
  refine ⟨?_, ?_, ?_, ?_⟩
  · rw [hcapacity]
    omega
  · rw [hcounters, hcounted]
  · rw [hcounters, entered_append, hcame]
    simp [entered]
  · rw [hcounters, drained_append, hone, length_append]
    omega

theorem balanced_step (h : Balanced outs q) (op : Op) :
    Balanced (outs ++ [(step q op).1]) (step q op).2 := by
  cases op with
  | offer event => exact h.offer event
  | drain limit => exact h.drain (drain_spec)
  | drainNotifications limit => exact h.drain (drainNotifications_spec q limit).1

/-! ## Order -/

/-- The operation takes the entries that `keep` selects out in their order: `drain` does where they
are all of one kind. -/
def Keeps (keep : Notification → Bool) : Op → Prop
  | .drain _ => (∀ n, keep n = true → n.isNative = true) ∨ ∀ n, keep n = true → n.isNative = false
  | _ => True

/-- What came out and what is left stand in the order they came in, and nothing is missing but
detections. -/
structure Ordered (keep : Notification → Bool) (outs : List Answer) (q : Queue) : Prop where
  order : ((drained outs ++ q.queue).filter keep).Sublist ((entered outs).filter keep)
  kept : (drained outs ++ q.queue).filter (fun n => keep n && !n.droppable) =
    (entered outs).filter fun n => keep n && !n.droppable

theorem Ordered.offer (h : Ordered keep outs q) (event : Notification) :
    Ordered keep (outs ++ [(step q (.offer event)).1]) (step q (.offer event)).2 := by
  obtain ⟨horder, hkept⟩ := h
  obtain ⟨-, -, -, hentered, hrefused⟩ := offer_spec q event
  simp only [step]
  generalize (q.offerNotification event).1 = admission at hentered hrefused
  generalize (q.offerNotification event).2 = q' at *
  have hdrained : drained (outs ++ [.admitted event admission]) = drained outs := by
    simp [drained]
  cases hadmission : admission.entered with
  | true =>
    have hone : entered (outs ++ [.admitted event admission]) = entered outs ++ [event] := by
      simp [entered, hadmission]
    have hlast : ∀ (p : Notification → Bool) l, (l ++ [event]).filter p = l.filter p ++ [event].filter p :=
      fun p l => filter_append ..
    obtain ⟨-, ⟨-, hqueue, -⟩ | ⟨-, -, hqueue, -⟩⟩ := hentered hadmission
    · constructor
      · rw [hdrained, hone, hqueue, ← append_assoc, hlast, hlast]
        exact horder.append_right _
      · rw [hdrained, hone, hqueue, ← append_assoc, hlast, hlast, hkept]
    constructor
    · have hsub : ((drained outs ++ removeFirst Notification.droppable q.queue).filter
          keep).Sublist ((drained outs ++ q.queue).filter keep) :=
        (removeFirst_sublist.append_left _).filter _
      rw [hdrained, hone, hqueue, ← append_assoc, hlast, hlast]
      exact (hsub.trans horder).append_right _
    · rw [hdrained, hone, hqueue, ← append_assoc, hlast, hlast, ← hkept, filter_append,
        filter_append, filter_removeFirst fun n hn => by simp [hn]]
  | false =>
    have hnone : entered (outs ++ [.admitted event admission]) = entered outs := by
      simp [entered, hadmission]
    obtain ⟨-, hqueue, -⟩ := hrefused hadmission
    constructor
    · rw [hdrained, hnone, hqueue]
      exact horder
    · rw [hdrained, hnone, hqueue]
      exact hkept

/-- Entries that come out in their order leave the queue as ordered as it was. -/
theorem Ordered.drain (h : Ordered keep outs q)
    (hsame : (events ++ q'.queue).filter keep = q.queue.filter keep) :
    Ordered keep (outs ++ [.drained events]) q' := by
  have hdrained : drained (outs ++ [.drained events]) = drained outs ++ events := by
    simp [drained]
  have hentered : entered (outs ++ [.drained events]) = entered outs := by
    simp [entered]
  have hrefine : ∀ l : List Notification, l.filter (fun n => keep n && !n.droppable) =
      (l.filter keep).filter fun n => !n.droppable := by
    intro l
    rw [filter_filter]
    simp only [Bool.and_comm]
  have htotal : (drained outs ++ events ++ q'.queue).filter keep =
      (drained outs ++ q.queue).filter keep := by
    rw [append_assoc, filter_append, hsame, ← filter_append]
  constructor
  · rw [hdrained, hentered, htotal]
    exact h.order
  · rw [hdrained, hentered, hrefine, htotal, ← hrefine]
    exact h.kept

theorem ordered_step (h : Ordered keep outs q) (hkeeps : Keeps keep op) :
    Ordered keep (outs ++ [(step q op).1]) (step q op).2 := by
  cases op with
  | offer event => exact h.offer event
  | drain limit => exact h.drain (filter_takeWaf hkeeps)
  | drainNotifications limit =>
    exact h.drain (congrArg (filter keep) (drainNotifications_spec q limit).2)

/-! ## Runs -/

theorem balanced_run (ops : List Op) (outs : List Answer) (h : Balanced outs q) :
    Balanced (outs ++ outputs step q ops) (final step q ops) := by
  induction ops generalizing outs q with
  | nil => simpa [outputs] using h
  | cons op ops ih => simpa [outputs] using ih _ (balanced_step h op)

theorem ordered_run (outs : List Answer) (h : Ordered keep outs q)
    (hkeeps : ∀ op ∈ ops, Keeps keep op) :
    Ordered keep (outs ++ outputs step q ops) (final step q ops) := by
  induction ops generalizing outs q with
  | nil => simpa [outputs] using h
  | cons op ops ih =>
    have hrest := ih _ (ordered_step h (hkeeps op mem_cons_self))
      fun op hop => hkeeps op (mem_cons_of_mem _ hop)
    simpa [outputs] using hrest

theorem capacity_run {q : Queue} : (final step q ops).capacity = q.capacity := by
  induction ops generalizing q with
  | nil => rfl
  | cons op ops ih =>
    have hstep : (step q op).2.capacity = q.capacity := by
      cases op with
      | offer event => exact (offer_spec q event).capacity
      | drain | drainNotifications => rfl
    rw [final_cons, ih, hstep]

/-- After every sequence of offers and drains the queue is within its capacity and its accounts
balance; the next offer is counted once, as its admission and its kind have it, and an entry that
is no detection is refused only by a queue without detections. Entries of one kind come out in the
order they came in, and no lifecycle record or enforced event is ever lost on the way; without
`drain`, which passes over lifecycle records, this holds of all entries together. -/
theorem queue_conserves (capacity : Nat) (q₀ : Queue) (hnew : Queue.new capacity = some q₀)
    (ops : List Op) (q : Queue) (hq : q = final step q₀ ops) (outs : List Answer)
    (houts : outs = outputs step q₀ ops) :
    q.queue.length ≤ capacity ∧
    q.counters.offered = q.counters.queued + q.counters.droppedDetect +
      q.counters.countedEnforced + q.counters.droppedLifecycle ∧
    (∀ event, tallies (q.offerNotification event).2.counters =
      (tallies q.counters).modify (tally event (q.offerNotification event).1) (· + 1)) ∧
    q.counters.queued = (entered outs).length ∧
    q.counters.queued = (drained outs).length + q.counters.evictedDetect + q.queue.length ∧
    (∀ event, event.droppable = false → (q.offerNotification event).1.entered = false →
      q.queue.length = capacity ∧ ∀ n ∈ q.queue, n.droppable = false) ∧
    (∀ native : Bool,
      ((drained outs ++ q.queue).filter (·.isNative == native)).Sublist
        ((entered outs).filter (·.isNative == native)) ∧
      (drained outs ++ q.queue).filter (fun n => n.isNative == native && !n.droppable) =
        (entered outs).filter fun n => n.isNative == native && !n.droppable) ∧
    ((∀ op ∈ ops, ∀ limit, op ≠ .drain limit) →
      (drained outs ++ q.queue).Sublist (entered outs) ∧
      (drained outs ++ q.queue).filter (fun n => !n.droppable) =
        (entered outs).filter fun n => !n.droppable) := by
  subst hq houts
  simp only [Queue.new] at hnew
  split at hnew
  case isFalse => cases hnew
  case isTrue hpos =>
    cases hnew
    have hbalanced := balanced_run ops [] (q := ⟨capacity, [], {}, hpos⟩)
      ⟨Nat.zero_le _, rfl, rfl, rfl⟩
    have hordered : ∀ keep, (∀ op ∈ ops, Keeps keep op) → _ := fun keep hkeeps =>
      ordered_run [] (q := ⟨capacity, [], {}, hpos⟩) ⟨.slnil, rfl⟩ hkeeps
    have hcapacity : (final step ⟨capacity, [], {}, hpos⟩ ops).capacity = capacity := capacity_run
    have hbound := hbalanced.bound
    rw [hcapacity] at hbound
    rw [nil_append] at hbalanced
    refine ⟨hbound, ?_, fun event => (offer_spec _ event).counted,
      hbalanced.came, hbalanced.left, fun event hevent hrefused => ?_, fun native => ?_, fun hops => ?_⟩
    · have hcounted := hbalanced.counted
      simp only [tallies, sum_cons, sum_nil] at hcounted
      omega
    · obtain ⟨-, -, -, hfull, hdetect⟩ := (offer_spec _ event).refused hrefused
      rw [hcapacity] at hfull
      exact ⟨Nat.le_antisymm hbound hfull, hdetect hevent⟩
    · have h := hordered (·.isNative == native) fun op hop => by
        cases op with
        | drain limit => cases native <;> simp [Keeps]
        | _ => trivial
      exact ⟨h.order, h.kept⟩
    · have h := hordered (fun _ => true) fun op hop => by
        cases op with
        | drain limit => exact absurd rfl (hops _ hop limit)
        | _ => trivial
      simpa using And.intro h.order h.kept

def request (verdict : Verdict) : Notification :=
  .waf ⟨"node", "a.test", "waf", some 942100, none, none, 5, verdict, none, none, none, 0⟩

def banned : Notification :=
  .native ⟨1, .created, "1", "e", "abuse", "a.test", "203.0.113.1", "login", "ban", 0, some 60000, 0,
    {}, ""⟩

def twoPlaces : Queue := ⟨2, [], {}, by decide⟩

/-- A detection gives way to a block, which is drained. -/
def evicting : List Op :=
  [.offer (request .detect), .offer banned, .offer (request .block), .drain 4]

theorem queue_conserves_evicting :
    Queue.new 2 = some twoPlaces ∧
    (final step twoPlaces evicting).counters.queued = 1 + 1 + 1 ∧
    (drained (outputs step twoPlaces evicting) ++ (final step twoPlaces evicting).queue).filter
        (fun n => n.isNative == true && !n.droppable) =
      (entered (outputs step twoPlaces evicting)).filter
        fun n => n.isNative == true && !n.droppable := by
  obtain ⟨-, -, -, -, hleft, -, horder, -⟩ := queue_conserves 2 twoPlaces rfl evicting _ rfl _ rfl
  exact ⟨rfl, hleft, (horder true).2⟩

/-- A WAF event that is drained by itself overtakes the lifecycle record before it. -/
theorem drain_overtakes_lifecycle :
    entered (outputs step twoPlaces
        [.offer banned, .offer (request .block), .drain 1, .drainNotifications 1]) =
      [banned, request .block] ∧
    drained (outputs step twoPlaces
        [.offer banned, .offer (request .block), .drain 1, .drainNotifications 1]) =
      [request .block, banned] := by
  decide

end EventQueueOrder
