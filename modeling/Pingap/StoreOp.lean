import Mathlib.Data.List.Basic

/-!
# Operations on a store that can be cut

An operation reads a store, changes it by single writes, and ends with a value or
an error. What it does is the list of its writes, in order, so that it can be cut
after any of them; what it reads after a write is the store with that write done.
-/

namespace StoreOp

/-- A store is changed by single writes. -/
class Store (σ : Type) (ω : outParam Type) where
  put : σ → ω → σ

variable {σ ω ε α β : Type}

/-- The store after some writes. -/
def after [Store σ ω] (s : σ) (ws : List ω) : σ := ws.foldl Store.put s

/-- What an operation does: its writes and how it ends. -/
structure Out (ω ε α : Type) where
  writes : List ω
  result : Except ε α

/-- An operation, by what it does to a store. -/
structure Op (σ ω ε α : Type) where
  run : σ → Out ω ε α

section monad

variable [Store σ ω]

instance : Monad (Op σ ω ε) where
  pure a := ⟨fun _ => ⟨[], .ok a⟩⟩
  bind x f := ⟨fun s =>
    match (x.run s).result with
    | .error e => ⟨(x.run s).writes, .error e⟩
    | .ok a =>
      let next := (f a).run (after s (x.run s).writes)
      ⟨(x.run s).writes ++ next.writes, next.result⟩⟩

end monad

def read (f : σ → α) : Op σ ω ε α := ⟨fun s => ⟨[], .ok (f s)⟩⟩

def write (w : ω) : Op σ ω ε Unit := ⟨fun _ => ⟨[w], .ok ()⟩⟩

def fail (e : ε) : Op σ ω ε α := ⟨fun _ => ⟨[], .error e⟩⟩

/-- A computation that may fail but does not touch the store. -/
def lift {ε' : Type} (error : ε' → ε) (x : Except ε' α) : Op σ ω ε α :=
  ⟨fun _ => ⟨[], x.mapError error⟩⟩

variable [Store σ ω] {x : Op σ ω ε α} {f : α → Op σ ω ε β} {s : σ} {ws : List ω} {a : α} {e : ε}

theorem after_append {s : σ} {ws vs : List ω} : after s (ws ++ vs) = after (after s ws) vs :=
  List.foldl_append

theorem run_pure (a : α) (s : σ) : (pure a : Op σ ω ε α).run s = ⟨[], .ok a⟩ := rfl

theorem bind_ok (h : x.run s = ⟨ws, .ok a⟩) : (x >>= f).run s =
    ⟨ws ++ ((f a).run (after s ws)).writes, ((f a).run (after s ws)).result⟩ := by
  simp only [bind, h]

/-- An operation that reads and goes on. -/
theorem bind_read (h : x.run s = ⟨[], .ok a⟩) : (x >>= f).run s = (f a).run s := by
  rw [bind_ok h]
  rfl

theorem bind_error (h : x.run s = ⟨ws, .error e⟩) : (x >>= f).run s = ⟨ws, .error e⟩ := by
  simp only [bind, h]

end StoreOp
