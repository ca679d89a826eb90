import Mathlib.Tactic
/-!
# Sliding windows

Sums over a window that is cut off at both ends of a sequence, and what moving an end of it
changes.
-/

namespace SaneBackends.Lib

/-- The sum of the cells from `lo` on, up to but without `hi`. -/
def spanSum (f : Nat → Nat) (lo hi : Nat) : Nat := ∑ x ∈ Finset.Ico lo hi, f x

section Sums

variable {f g : Nat → Nat} {lo hi : Nat}

@[simp] theorem spanSum_self (f : Nat → Nat) (n : Nat) : spanSum f n n = 0 := by
  rw [spanSum, Finset.Ico_self, Finset.sum_empty]

theorem spanSum_succ (h : lo ≤ hi) : spanSum f lo (hi + 1) = spanSum f lo hi + f hi :=
  Finset.sum_Ico_succ_top h f

theorem spanSum_drop (h : lo < hi) : spanSum f lo hi = f lo + spanSum f (lo + 1) hi :=
  Finset.sum_eq_sum_Ico_succ_bot h f

theorem spanSum_const (n lo hi : Nat) : spanSum (fun _ => n) lo hi = (hi - lo) * n := by
  rw [spanSum, Finset.sum_const, Nat.card_Ico, smul_eq_mul]

theorem spanSum_le {n : Nat} (h : ∀ x, lo ≤ x → x < hi → f x ≤ n) :
    spanSum f lo hi ≤ (hi - lo) * n := by
  rw [← spanSum_const n lo hi]
  exact Finset.sum_le_sum fun x hx => h x (Finset.mem_Ico.mp hx).1 (Finset.mem_Ico.mp hx).2

/-- A span in two parts. -/
theorem spanSum_split (mid : Nat) (hlo : lo ≤ mid) (hhi : mid ≤ hi) :
    spanSum f lo hi = spanSum f lo mid + spanSum f mid hi :=
  (Finset.sum_Ico_consecutive f hlo hhi).symm

theorem spanSum_of_const {n : Nat} (h : ∀ x, lo ≤ x → x < hi → f x = n) :
    spanSum f lo hi = (hi - lo) * n := by
  rw [← spanSum_const n lo hi]
  exact Finset.sum_congr rfl fun x hx => h x (Finset.mem_Ico.mp hx).1 (Finset.mem_Ico.mp hx).2

theorem spanSum_mono_right {hi' : Nat} (h : hi ≤ hi') : spanSum f lo hi ≤ spanSum f lo hi' :=
  Finset.sum_le_sum_of_subset (Finset.Ico_subset_Ico_right h)

theorem spanSum_congr (h : ∀ x, lo ≤ x → x < hi → f x = g x) : spanSum f lo hi = spanSum g lo hi :=
  Finset.sum_congr rfl fun x hx => h x (Finset.mem_Ico.mp hx).1 (Finset.mem_Ico.mp hx).2

end Sums

/-- The mean of a block of cells, rounded down. -/
def blockMean (f : Nat → Nat → Nat) (top bottom left right : Nat) : Nat :=
  spanSum (fun x => spanSum (fun y => f y x) top bottom) left right /
    ((right - left) * (bottom - top))

end SaneBackends.Lib
