import Mathlib.Algebra.Order.BigOperators.Group.List
import Mathlib.Tactic
/-!
# Rounded means

The mean of natural numbers, rounded down, lies between any bounds of theirs.
-/

namespace SaneBackends.Lib

variable {xs : List Nat} {bound : Nat}

def floorMean (xs : List Nat) : Nat := xs.sum / xs.length

theorem floorMean_le (h : ∀ x ∈ xs, x ≤ bound) : floorMean xs ≤ bound := by
  have hsum := List.sum_le_card_nsmul xs bound h
  rw [smul_eq_mul, Nat.mul_comm] at hsum
  exact Nat.div_le_of_le_mul (by rwa [Nat.mul_comm])

theorem le_floorMean (hne : xs ≠ []) (h : ∀ x ∈ xs, bound ≤ x) : bound ≤ floorMean xs := by
  have hsum := List.card_nsmul_le_sum xs bound h
  rw [smul_eq_mul, Nat.mul_comm] at hsum
  exact (Nat.le_div_iff_mul_le (List.length_pos_of_ne_nil hne)).mpr hsum

end SaneBackends.Lib
