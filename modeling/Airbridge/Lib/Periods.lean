import Mathlib.Algebra.BigOperators.Intervals
import Mathlib.Algebra.Ring.Periodic

/-!
# Sums over whole periods

A sum of a periodic function over a whole number of periods does not depend on
where it starts (`sum_window`, `sum_periods`).  `sum_grid` reads the cells of a
grid row by row.
-/

namespace Periods

variable {M : Type} [AddCommMonoid M] {g : Nat → M} {c : Nat}

/-- Any `c` consecutive values of a function of period `c` have the same sum. -/
theorem sum_window (hg : Function.Periodic g c) (y : Nat) :
    ∑ i ∈ Finset.range c, g (y + i) = ∑ i ∈ Finset.range c, g i := by
  induction y with
  | zero => simp
  | succ y ih =>
    rw [← ih]
    cases c with
    | zero => rfl
    | succ c =>
      -- the value that comes in at the end is the one that goes out in front
      have hlast : g (y + 1 + c) = g (y + 0) := by
        rw [Nat.add_right_comm]
        exact hg y
      rw [Finset.sum_range_succ, Finset.sum_range_succ', hlast]
      congr 1
      apply Finset.sum_congr rfl
      intro i _
      rw [Nat.add_right_comm, Nat.add_assoc]

/-- The sum over `k` periods is `k` times that over one. -/
theorem sum_periods (hg : Function.Periodic g c) (y k : Nat) :
    ∑ i ∈ Finset.range (c * k), g (y + i) = k • ∑ i ∈ Finset.range c, g i := by
  induction k with
  | zero => simp
  | succ k ih =>
    rw [Nat.mul_succ, Finset.sum_range_add, ih, succ_nsmul]
    congr 1
    rw [← sum_window hg (y + c * k)]
    apply Finset.sum_congr rfl
    intro i _
    rw [Nat.add_assoc]

/-- A grid row by row. -/
theorem sum_grid (g : Nat → M) (c rows : Nat) :
    ∑ j ∈ Finset.range rows, ∑ i ∈ Finset.range c, g (j * c + i) =
      ∑ i ∈ Finset.range (rows * c), g i := by
  induction rows with
  | zero => simp
  | succ rows ih => rw [Finset.sum_range_succ, ih, Nat.succ_mul, Finset.sum_range_add]

end Periods
