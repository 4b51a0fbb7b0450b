import Mathlib.Data.List.Induction
import Mathlib.Data.List.Nodup
import Mathlib.Data.Nat.ModEq

/-!
# Runs of deterministic machines

A machine answers each event and moves to a new state. A run is the list of its
answers and the state it ends in. The rules below are the inductions that every
development about runs needs once: an invariant carried along a run, an
invariant that also follows a clock that never goes back, and the comparison of
two machines that agree on the events one of them keeps.
-/

namespace Trace

open List

variable {σ τ ε ω : Type}

def final (step : σ → ε → ω × σ) : σ → List ε → σ
  | s, [] => s
  | s, e :: es => final step (step s e).2 es

/-- The answers given along a list of events. -/
def outputs (step : σ → ε → ω × σ) : σ → List ε → List ω
  | _, [] => []
  | s, e :: es => (step s e).1 :: outputs step (step s e).2 es

/-- The answers given to the events that `keep` selects. -/
def observed (keep : ε → Bool) (step : σ → ε → ω × σ) : σ → List ε → List ω
  | _, [] => []
  | s, e :: es =>
    if keep e then (step s e).1 :: observed keep step (step s e).2 es
    else observed keep step (step s e).2 es

section

variable (step : σ → ε → ω × σ) (s : σ)

@[simp] theorem final_nil : final step s [] = s := rfl
@[simp] theorem final_cons (step : σ → ε → ω × σ) :
    final step s (e :: es) = final step (step s e).2 es := rfl

theorem final_append (es fs : List ε) :
    final step s (es ++ fs) = final step (final step s es) fs := by
  induction es generalizing s with
  | nil => rfl
  | cons e es ih => exact ih (step s e).2

theorem outputs_append (es fs : List ε) :
    outputs step s (es ++ fs) = outputs step s es ++ outputs step (final step s es) fs := by
  induction es generalizing s with
  | nil => rfl
  | cons e es ih => exact congrArg _ (ih (step s e).2)

end

/-- Every event of a run is met in a state that allows it. -/
def Always (ok : σ → ε → Prop) (step : σ → ε → ω × σ) : σ → List ε → Prop
  | _, [] => True
  | s, e :: es => ok s e ∧ Always ok step (step s e).2 es

instance decidableAlways (ok : σ → ε → Prop) [∀ s e, Decidable (ok s e)] (step : σ → ε → ω × σ) :
    (s : σ) → (es : List ε) → Decidable (Always ok step s es)
  | _, [] => isTrue trivial
  | s, e :: es =>
    have := decidableAlways ok step (step s e).2 es
    inferInstanceAs (Decidable (ok s e ∧ Always ok step (step s e).2 es))

/-- What every step keeps holds at the end of a run. -/
theorem final_invariant (step : σ → ε → ω × σ) (P : σ → Prop)
    (hstep : ∀ s e, P s → P (step s e).2) (es : List ε) (s : σ) (hs : P s) : P (final step s es) := by
  induction es generalizing s with
  | nil => exact hs
  | cons e es ih => exact ih _ (hstep s e hs)

/-- What every allowed step keeps holds at the end of a run of them. -/
theorem final_always (ok : σ → ε → Prop) (step : σ → ε → ω × σ) (P : σ → Prop)
    (hstep : ∀ s e, P s → ok s e → P (step s e).2) (es : List ε) (s : σ) (hs : P s)
    (hok : Always ok step s es) : P (final step s es) := by
  induction es generalizing s with
  | nil => exact hs
  | cons e es ih => exact ih _ (hstep s e hs hok.1) hok.2

section numbers

variable {limit : Nat} (step : σ → ε → ω × σ) (counter : σ → Nat) (number : ω → Option Nat)
  (hlimit : 0 < limit)
  (hstep : ∀ s e, (number (step s e).1 = some (counter s) ∧
      counter (step s e).2 = (counter s + 1) % limit) ∨
    (number (step s e).1 = none ∧ counter (step s e).2 = counter s)) (es : List ε) (s : σ)
  (hs : counter s < limit)

include hlimit hstep hs

/-- The numbers a counter hands out follow one another, up to where it wraps around. -/
theorem numbers_follow :
    (outputs step s es).filterMap number =
      (range ((outputs step s es).filterMap number).length).map
        fun k => (counter s + k) % limit := by
  induction es generalizing s with
  | nil => rfl
  | cons e es ih =>
    rcases hstep s e with ⟨hnumber, hnext⟩ | ⟨hnone, hsame⟩
    · have hrest := ih (step s e).2 (hnext ▸ Nat.mod_lt _ hlimit)
      have hshift : ∀ k, ((counter s + 1) % limit + k) % limit = (counter s + (k + 1)) % limit := by
        intro k
        rw [Nat.mod_add_mod, Nat.add_right_comm, Nat.add_assoc]
      rw [hnext] at hrest
      rw [outputs, filterMap_cons_some hnumber, length_cons, range_succ_eq_map, map_cons, map_map]
      nth_rewrite 1 [hrest]
      exact List.cons_eq_cons.mpr ⟨(Nat.mod_eq_of_lt hs).symm, map_congr_left fun k _ => hshift k⟩
    · have hrest := ih (step s e).2 (hsame ▸ hs)
      rw [outputs, filterMap_cons_none hnone]
      rw [hsame] at hrest
      exact hrest

theorem numbers_lt : ∀ n ∈ (outputs step s es).filterMap number, n < limit := by
  intro n hn
  rw [numbers_follow step counter number hlimit hstep es s hs] at hn
  obtain ⟨k, -, rfl⟩ := mem_map.mp hn
  exact Nat.mod_lt _ hlimit

/-- As long as the counter has numbers, no two are the same. -/
theorem numbers_nodup (hfew : ((outputs step s es).filterMap number).length ≤ limit) :
    ((outputs step s es).filterMap number).Nodup := by
  rw [numbers_follow step counter number hlimit hstep es s hs]
  refine Nodup.map_on (fun k hk m hm heq => ?_) nodup_range
  have hk' := Nat.lt_of_lt_of_le (mem_range.mp hk) hfew
  have hm' := Nat.lt_of_lt_of_le (mem_range.mp hm) hfew
  have hmod : k ≡ m [MOD limit] := Nat.ModEq.add_left_cancel' (counter s) heq
  exact Nat.ModEq.eq_of_lt_of_lt hmod hk' hm'

end numbers

/-- The clock readings of a list of events never go back, starting from `t`. -/
def Clocked (now : ε → Nat) : Nat → List ε → Prop
  | _, [] => True
  | t, e :: es => t ≤ now e ∧ Clocked now (now e) es

instance decidableClocked (now : ε → Nat) : (t : Nat) → (es : List ε) → Decidable (Clocked now t es)
  | _, [] => isTrue trivial
  | t, e :: es =>
    have := decidableClocked now (now e) es
    inferInstanceAs (Decidable (t ≤ now e ∧ Clocked now (now e) es))

/-- The last clock reading of a list of events. -/
def lastClock (now : ε → Nat) : Nat → List ε → Nat
  | t, [] => t
  | _, e :: es => lastClock now (now e) es

theorem clocked_append (now : ε → Nat) (t : Nat) (es fs : List ε) :
    Clocked now t (es ++ fs) ↔ Clocked now t es ∧ Clocked now (lastClock now t es) fs := by
  induction es generalizing t with
  | nil => simp [Clocked, lastClock]
  | cons e es ih => simp [Clocked, lastClock, ih, and_assoc]

theorem clocked_le_last (now : ε → Nat) (t : Nat) (es : List ε) (h : Clocked now t es) :
    t ≤ lastClock now t es := by
  induction es generalizing t with
  | nil => exact Nat.le_refl t
  | cons e es ih => exact Nat.le_trans h.1 (ih (now e) h.2)

/-- Under a clock that stands still every list of events is clocked. -/
theorem clocked_const (t : Nat) (es : List ε) : Clocked (fun _ => t) t es := by
  induction es with
  | nil => trivial
  | cons e es ih => exact ⟨Nat.le_refl t, ih⟩

/-- An invariant of a state kept by every step bounds every answer of a run. -/
theorem outputs_forall (step : σ → ε → ω × σ) (P : σ → Prop) (good : ω → Prop)
    (hstep : ∀ s e, P s → good (step s e).1 ∧ P (step s e).2) (es : List ε) (s : σ) (hs : P s) :
    ∀ o ∈ outputs step s es, good o := by
  induction es generalizing s with
  | nil => simp [outputs]
  | cons e es ih =>
    obtain ⟨ho, hs'⟩ := hstep s e hs
    simp only [outputs, mem_cons, forall_eq_or_imp]
    exact ⟨ho, ih _ hs'⟩

/-- An invariant of a state and a clock, kept by every step that does not turn
the clock back, holds at the end of every clocked run. -/
theorem final_clocked (step : σ → ε → ω × σ) (now : ε → Nat) (P : Nat → σ → Prop)
    (hstep : ∀ t s e, t ≤ now e → P t s → P (now e) (step s e).2)
    (es : List ε) (t : Nat) (s : σ) (hs : P t s) (hc : Clocked now t es) :
    P (lastClock now t es) (final step s es) := by
  induction es generalizing t s with
  | nil => exact hs
  | cons e es ih => exact ih (now e) (step s e).2 (hstep t s e hc.1 hs) hc.2

/-- Two machines give the same kept answers, the second one on a run from which
every event that is not `shared` is left out, when a relation is kept by both
stepping on a shared event, with equal answers if it is a kept one, and by the
first one stepping alone on any other. `good` is what may be assumed of a kept
answer. -/
theorem observed_eq (keep shared : ε → Bool) (step : σ → ε → ω × σ) (step' : τ → ε → ω × τ)
    (now : ε → Nat) (good : ω → Prop) (R : Nat → σ → τ → Prop)
    (hsub : ∀ e, keep e = true → shared e = true)
    (hkeep : ∀ t s s' e, t ≤ now e → keep e = true → good (step s e).1 → R t s s' →
      (step s e).1 = (step' s' e).1 ∧ R (now e) (step s e).2 (step' s' e).2)
    (hshared : ∀ t s s' e, t ≤ now e → keep e = false → shared e = true → R t s s' →
      R (now e) (step s e).2 (step' s' e).2)
    (hskip : ∀ t s s' e, t ≤ now e → shared e = false → R t s s' → R (now e) (step s e).2 s')
    (es : List ε) (t : Nat) (s : σ) (s' : τ) (hR : R t s s') (hc : Clocked now t es)
    (hgood : ∀ o ∈ observed keep step s es, good o) :
    observed keep step s es = observed keep step' s' (es.filter shared) := by
  induction es generalizing t s s' with
  | nil => rfl
  | cons e es ih =>
    cases hk : keep e with
    | true =>
      simp only [observed, hk, if_true, mem_cons, forall_eq_or_imp] at hgood
      obtain ⟨ho, hR'⟩ := hkeep t s s' e hc.1 hk hgood.1 hR
      simp only [filter_cons_of_pos (hsub e hk), observed, hk, if_true]
      rw [← ho, ih (now e) _ _ hR' hc.2 hgood.2]
    | false =>
      simp only [observed, hk, Bool.false_eq_true, if_false] at hgood ⊢
      cases hs : shared e with
      | true =>
        simp only [filter_cons_of_pos hs, observed, hk, Bool.false_eq_true, if_false]
        exact ih (now e) _ _ (hshared t s s' e hc.1 hk hs hR) hc.2 hgood
      | false =>
        rw [filter_cons_of_neg (by simp [hs])]
        exact ih (now e) _ _ (hskip t s s' e hc.1 hs hR) hc.2 hgood

/-- Two machines that a relation keeps in step, under a clock that never goes back, give the
same answers. -/
theorem outputs_eq_clocked (step : σ → ε → ω × σ) (step' : τ → ε → ω × τ) (now : ε → Nat)
    (R : Nat → σ → τ → Prop) (hstep : ∀ t s s' e, t ≤ now e → R t s s' →
      (step s e).1 = (step' s' e).1 ∧ R (now e) (step s e).2 (step' s' e).2) (es : List ε) (t : Nat)
    (s : σ) (s' : τ) (hR : R t s s') (hc : Clocked now t es) :
    outputs step s es = outputs step' s' es := by
  induction es generalizing t s s' with
  | nil => rfl
  | cons e es ih =>
    obtain ⟨hanswer, hR'⟩ := hstep t s s' e hc.1 hR
    rw [outputs, outputs, hanswer, ih (now e) _ _ hR' hc.2]

/-- A quantity summed over the events of a run and their answers. -/
def tally (f : ε → ω → Nat) (step : σ → ε → ω × σ) : σ → List ε → Nat
  | _, [] => 0
  | s, e :: es => f e (step s e).1 + tally f step (step s e).2 es

theorem tally_append (f : ε → ω → Nat) (step : σ → ε → ω × σ) :
    tally f step s (es ++ fs) = tally f step s es + tally f step (final step s es) fs := by
  induction es generalizing s with
  | nil => exact (Nat.zero_add _).symm
  | cons e es ih => simp only [cons_append, tally, final_cons, ih, Nat.add_assoc]

/-- If every step pays what it gives out from what it takes in and from a stock,
the whole run does. -/
theorem tally_le (given taken : ε → ω → Nat) (stock : σ → Nat) (step : σ → ε → ω × σ)
    (es : List ε) (hstep : ∀ s, ∀ e ∈ es,
      given e (step s e).1 + stock (step s e).2 ≤ taken e (step s e).1 + stock s) (s : σ) :
    tally given step s es + stock (final step s es) ≤ tally taken step s es + stock s := by
  induction es generalizing s with
  | nil => simp [tally]
  | cons e es ih =>
    have hhead := hstep s e (mem_cons_self ..)
    have htail := ih (fun s e he => hstep s e (mem_cons_of_mem _ he)) (step s e).2
    simp only [tally, final_cons]
    omega

/-- A quantity summed over the events of a run and the states that meet them. -/
def cost (f : σ → ε → Nat) (step : σ → ε → ω × σ) : σ → List ε → Nat
  | _, [] => 0
  | s, e :: es => f s e + cost f step (step s e).2 es

theorem cost_eq_zero_iff (f : σ → ε → Nat) (step : σ → ε → ω × σ) :
    cost f step s es = 0 ↔ Always (fun s e => f s e = 0) step s es := by
  induction es generalizing s with
  | nil => exact ⟨fun _ => trivial, fun _ => rfl⟩
  | cons e es ih => rw [cost, Nat.add_eq_zero_iff, ih, Always]

/-- If every step adds to a stock what it takes in without what it loses, the run does. -/
theorem cost_balance {stock : σ → Nat} {step : σ → ε → ω × σ}
    (hstep : ∀ s e, stock (step s e).2 + lost s e = stock s + taken s e) (es : List ε) (s : σ) :
    stock (final step s es) + cost lost step s es = stock s + cost taken step s es := by
  induction es generalizing s with
  | nil => rfl
  | cons e es ih =>
    have hhead := hstep s e
    have htail := ih (step s e).2
    simp only [cost, final_cons]
    omega

/-- Every event of a list stands in relation to the events before it. -/
def Throughout (C : List ε → ε → Prop) (es : List ε) : Prop :=
  ∀ before e after, es = before ++ e :: after → C before e

theorem throughout_nil (C : List ε → ε → Prop) : Throughout C [] := by
  intro before e after h
  simp at h

theorem throughout_concat (C : List ε → ε → Prop) (es : List ε) (e : ε) :
    Throughout C (es ++ [e]) ↔ Throughout C es ∧ C es e := by
  constructor
  · intro h
    refine ⟨fun before e' after heq => h before e' (after ++ [e]) ?_, h es e [] rfl⟩
    rw [heq, append_assoc, cons_append]
  · rintro ⟨hes, he⟩ before e' after heq
    induction after using reverseRecOn with
    | nil =>
      obtain ⟨rfl, hlast⟩ := append_inj' heq rfl
      cases hlast
      exact he
    | append_singleton after last _ =>
      rw [← cons_append, ← append_assoc] at heq
      obtain ⟨rfl, -⟩ := append_inj' heq rfl
      exact hes before e' after rfl

end Trace
