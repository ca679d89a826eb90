import Mathlib.Tactic
/-!
# Distances by two sweeps

The Manhattan distance from the places of a grid to a set of targets. Values that a sweep from the
first place on has made small enough along its way, and a second sweep back along its own, are
bounded by the distance.
-/

namespace SaneBackends.Lib

/-- The Manhattan distance of two places. -/
def taxicab (i j a b : Nat) : Nat := (i - a) + (a - i) + ((j - b) + (b - j))

theorem taxicab_self (i j : Nat) : taxicab i j i j = 0 := by
  unfold taxicab
  omega

theorem eq_of_taxicab_eq_zero {i j a b : Nat} (h : taxicab i j a b = 0) : a = i ∧ b = j := by
  unfold taxicab at h
  omega

/-- The triangle inequality of a coordinate. -/
theorem distance_le (x y a : Nat) :
    (x - a) + (a - x) ≤ (y - a) + (a - y) + ((x - y) + (y - x)) := by
  omega

/-- From one place to the next the distance grows by one at most. -/
theorem taxicab_step {i j i' j' a b : Nat} (hstep : taxicab i j i' j' = 1) :
    taxicab i j a b ≤ taxicab i' j' a b + 1 := by
  have hrow := distance_le i i' a
  have hcol := distance_le j j' b
  unfold taxicab at hstep ⊢
  generalize i - a + (a - i) = row at *
  generalize j - b + (b - j) = col at *
  generalize i' - a + (a - i') = row' at *
  generalize j' - b + (b - j') = col' at *
  generalize i - i' + (i' - i) = down at *
  generalize j - j' + (j' - j) = right at *
  omega

theorem taxicab_lt {rows cols i j a b : Nat} (hi : i < rows) (hj : j < cols) (ha : a < rows)
    (hb : b < cols) : taxicab i j a b < rows + cols := by
  unfold taxicab
  omega

/-- What the sweep down and to the right leaves: no value is more than one above those before. -/
structure SweptDown (rows cols : Nat) (target : Nat → Nat → Prop) (value : Nat → Nat → Nat) :
    Prop where
  own : ∀ {i j}, i < rows → j < cols → target i j → value i j = 0
  above : ∀ {i j}, i + 1 < rows → j < cols → value (i + 1) j ≤ value i j + 1
  before : ∀ {i j}, i < rows → j + 1 < cols → value i (j + 1) ≤ value i j + 1

/-- What the sweep up and to the left makes of it: no value is more than one above those behind. -/
structure SweptUp (rows cols : Nat) (value value' : Nat → Nat → Nat) : Prop where
  le : ∀ {i j}, i < rows → j < cols → value' i j ≤ value i j
  below : ∀ {i j}, i + 1 < rows → j < cols → value' i j ≤ value' (i + 1) j + 1
  behind : ∀ {i j}, i < rows → j + 1 < cols → value' i j ≤ value' i (j + 1) + 1

section Steps

variable {f : Nat → Nat} {n : Nat}

theorem le_add_of_step (h : ∀ k < n, f (k + 1) ≤ f k + 1) : f n ≤ f 0 + n := by
  induction n with
  | zero => exact Nat.le_refl _
  | succ n ih =>
      have hlast := h n (Nat.lt_succ_self n)
      have hrest := ih fun k hk => h k (Nat.lt_succ_of_lt hk)
      omega

theorem le_add_of_step_back (h : ∀ k < n, f k ≤ f (k + 1) + 1) : f 0 ≤ f n + n := by
  induction n with
  | zero => exact Nat.le_refl _
  | succ n ih =>
      have hlast := h n (Nat.lt_succ_self n)
      have hrest := ih fun k hk => h k (Nat.lt_succ_of_lt hk)
      omega

end Steps

section Sweeps

variable {rows cols : Nat} {target : Nat → Nat → Prop} {value value' : Nat → Nat → Nat}

theorem SweptDown.add_row (h : SweptDown rows cols target value) {i j n : Nat}
    (hi : i + n < rows) (hj : j < cols) : value (i + n) j ≤ value i j + n :=
  le_add_of_step (f := fun k => value (i + k) j) fun k hk =>
    h.above (i := i + k) (by omega) hj

theorem SweptDown.add_col (h : SweptDown rows cols target value) {i j n : Nat}
    (hi : i < rows) (hj : j + n < cols) : value i (j + n) ≤ value i j + n :=
  le_add_of_step (f := fun k => value i (j + k)) fun k hk =>
    h.before (j := j + k) hi (by omega)

theorem SweptUp.sub_row (h : SweptUp rows cols value value') {i j n : Nat}
    (hi : i + n < rows) (hj : j < cols) : value' i j ≤ value' (i + n) j + n :=
  le_add_of_step_back (f := fun k => value' (i + k) j) fun k hk =>
    h.below (i := i + k) (by omega) hj

theorem SweptUp.sub_col (h : SweptUp rows cols value value') {i j n : Nat}
    (hi : i < rows) (hj : j + n < cols) : value' i j ≤ value' i (j + n) + n :=
  le_add_of_step_back (f := fun k => value' i (j + k)) fun k hk =>
    h.behind (j := j + k) hi (by omega)

/-- From a target above, the first sweep gets to its row or column, the second to the place. -/
theorem le_taxicab (hdown : SweptDown rows cols target value) (hup : SweptUp rows cols value value')
    {i j a b : Nat} (hi : i < rows) (hj : j < cols) (ha : a < rows) (hb : b < cols)
    (htarget : target a b) : value' i j ≤ taxicab i j a b := by
  have hzero := hdown.own ha hb htarget
  unfold taxicab
  by_cases hrow : a ≤ i
  · have hcolumn := hdown.add_row (i := a) (j := b) (n := i - a) (by omega) hb
    rw [Nat.add_sub_cancel' hrow, hzero] at hcolumn
    by_cases hcol : b ≤ j
    · have hplace := hdown.add_col (i := i) (j := b) (n := j - b) hi (by omega)
      rw [Nat.add_sub_cancel' hcol] at hplace
      have hle := hup.le hi hj
      omega
    · have hplace := hup.sub_col (i := i) (j := j) (n := b - j) hi (by omega)
      rw [Nat.add_sub_cancel' (by omega)] at hplace
      have hle := hup.le hi hb
      omega
  · have hplace := hup.sub_row (i := i) (j := j) (n := a - i) (by omega) hj
    rw [Nat.add_sub_cancel' (by omega)] at hplace
    by_cases hcol : b ≤ j
    · have hrowOf := hdown.add_col (i := a) (j := b) (n := j - b) ha (by omega)
      rw [Nat.add_sub_cancel' hcol, hzero] at hrowOf
      have hle := hup.le ha hj
      omega
    · have hrowOf := hup.sub_col (i := a) (j := j) (n := b - j) ha (by omega)
      rw [Nat.add_sub_cancel' (by omega)] at hrowOf
      have hle := hup.le ha hb
      omega

end Sweeps

end SaneBackends.Lib
