import Mathlib.Algebra.Ring.Int.Defs
import Mathlib.Algebra.Ring.Nat
import Mathlib.Order.Basic

/-!
# Saturating machine arithmetic

Counters and clocks are naturals; where a program saturates, the bound of the
machine type is written out. Durations are whole nanoseconds.
-/

namespace MachineArith

def u64Max : Nat := 2 ^ 64 - 1
def u32Max : Nat := 2 ^ 32 - 1

def satAdd64 (a b : Nat) : Nat := min (a + b) u64Max

def satAdd32 (a b : Nat) : Nat := min (a + b) u32Max

theorem satAdd64_le : satAdd64 a b ≤ u64Max := Nat.min_le_right _ _

abbrev Duration := Nat

/-- `Duration::MAX`: the largest second count with every nanosecond. -/
def durationMax : Duration := u64Max * 1000000000 + 999999999

/-- A duration in whole milliseconds, saturating rather than wrapping. -/
def durationMs (d : Duration) : Nat := min (d / 1000000) u64Max

theorem durationMs_max : durationMs durationMax = u64Max := by decide

theorem satAdd64_durationMax {now : Nat} : satAdd64 now (durationMs durationMax) = u64Max := by
  rw [durationMs_max]
  exact Nat.min_eq_right (Nat.le_add_left _ _)

def i64Max : Int := 2 ^ 63 - 1
def i64Min : Int := -2 ^ 63

def satSubI64 (a b : Int) : Int := max i64Min (min (a - b) i64Max)

/-- A span that is measured to be long is. -/
theorem le_sub_of_le_satSubI64 (hspan : 0 ≤ span) (h : span ≤ satSubI64 a b) : span ≤ a - b := by
  have hmin : i64Min = -9223372036854775808 := rfl
  unfold satSubI64 at h
  omega

end MachineArith
