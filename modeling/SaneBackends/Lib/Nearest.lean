import Mathlib.Tactic
/-!
# Nearest points

The points of a grid nearest to a number, and the first of several things at which a function
is least, as a loop that keeps the best so far finds it.
-/

namespace SaneBackends.Lib

/-- A point of the set that no other point of it is nearer to `c` than. -/
def IsNearest {α : Type*} [Lattice α] [AddGroup α] (s : Set α) (c p : α) : Prop :=
  p ∈ s ∧ ∀ x ∈ s, |c - p| ≤ |c - x|

/-- The points at a multiple of `step` from `start`. -/
def grid (start step : Int) : Set Int := Set.range fun k => start + k * step

section Grid

variable {start step c : Int}

theorem start_add_mem_grid (start step : Int) : start + step ∈ grid start step := ⟨1, by simp⟩

/-- Adding half a step before dividing rounds to a nearest point. -/
theorem isNearest_round (hstep : 0 < step) (start c : Int) :
    IsNearest (grid start step) c (start + (c - start + step / 2) / step * step) := by
  refine ⟨⟨_, rfl⟩, ?_⟩
  rintro _ ⟨k, rfl⟩
  dsimp only
  have hlow := Int.emod_nonneg (c - start + step / 2) hstep.ne'
  have hhigh := Int.emod_lt_of_pos (c - start + step / 2) hstep
  have hsplit := Int.mul_ediv_add_emod (c - start + step / 2) step
  generalize (c - start + step / 2) / step = p at hsplit ⊢
  generalize (c - start + step / 2) % step = r at hlow hhigh hsplit
  have hcomm : step * p = p * step := Int.mul_comm step p
  rw [hcomm] at hsplit
  have hmiss : |c - (start + p * step)| ≤ step / 2 := by
    rw [abs_le]
    omega
  rcases lt_trichotomy k p with hlt | rfl | hgt
  · have hpoint : (k + 1) * step ≤ p * step := mul_le_mul_of_nonneg_right hlt hstep.le
    rw [Int.add_mul, Int.one_mul] at hpoint
    refine le_trans ?_ (le_abs_self _)
    omega
  · exact le_refl _
  · have hpoint : (p + 1) * step ≤ k * step := mul_le_mul_of_nonneg_right hgt hstep.le
    rw [Int.add_mul, Int.one_mul] at hpoint
    refine le_trans ?_ (neg_le_abs _)
    omega

/-- The first point of a grid is nearest only to what is in the first half step. -/
theorem le_of_isNearest_start (hstep : 0 < step) (hle : start ≤ c)
    (h : IsNearest (grid start step) c start) : 2 * (c - start) ≤ step := by
  have hnext := h.2 _ (start_add_mem_grid start step)
  rw [abs_of_nonneg (by omega)] at hnext
  rcases abs_cases (c - (start + step)) with ⟨heq, -⟩ | ⟨heq, -⟩ <;> omega

end Grid

section Least

variable {ι α : Type*} [LinearOrder α] [DecidableEq ι] {d : ι → α}

/-- The loop that keeps the best so far, starting from one. -/
def firstLeast (d : ι → α) : ι → List ι → ι
  | best, [] => best
  | best, x :: xs => if d x < d best then firstLeast d x xs else firstLeast d best xs

/-- The first member of the list at which `d` is least. -/
def IsFirstLeast (d : ι → α) (l : List ι) (y : ι) : Prop :=
  y ∈ l ∧ (∀ e ∈ l, d y ≤ d e) ∧ ∀ e ∈ l.takeWhile (· ≠ y), d y < d e

theorem isFirstLeast_firstLeast (d : ι → α) (best : ι) (xs : List ι) :
    IsFirstLeast d (best :: xs) (firstLeast d best xs) := by
  induction xs generalizing best with
  | nil => simp [firstLeast, IsFirstLeast]
  | cons x xs ih =>
      rw [firstLeast]
      split_ifs with hless
      · obtain ⟨hmem, hle, hbefore⟩ := ih x
        generalize firstLeast d x xs = y at *
        have hbest : d y < d best := (hle x (.head _)).trans_lt hless
        have hne : best ≠ y := by
          rintro rfl
          exact lt_irrefl _ hbest
        refine ⟨.tail _ hmem, List.forall_mem_cons.mpr ⟨hbest.le, hle⟩, ?_⟩
        rw [List.takeWhile_cons_of_pos (by simpa using hne)]
        exact List.forall_mem_cons.mpr ⟨hbest, hbefore⟩
      · obtain ⟨hmem, hle, hbefore⟩ := ih best
        generalize firstLeast d best xs = y at *
        obtain ⟨hbest, hrest⟩ := List.forall_mem_cons.mp hle
        have hx : d y ≤ d x := hbest.trans (not_lt.mp hless)
        have hin : y ∈ best :: x :: xs := by
          rcases List.mem_cons.mp hmem with rfl | htail
          · exact .head _
          · exact .tail _ (.tail _ htail)
        refine ⟨hin, List.forall_mem_cons.mpr ⟨hbest, List.forall_mem_cons.mpr ⟨hx, hrest⟩⟩, ?_⟩
        by_cases hsame : best = y
        · rw [List.takeWhile_cons_of_neg (by simpa using hsame)]
          simp
        · rw [List.takeWhile_cons_of_pos (by simpa using hsame)] at hbefore ⊢
          obtain ⟨hstrict, hbefore⟩ := List.forall_mem_cons.mp hbefore
          have hx' : d y < d x := hstrict.trans_le (not_lt.mp hless)
          have hne : x ≠ y := by
            rintro rfl
            exact lt_irrefl _ hx'
          rw [List.takeWhile_cons_of_pos (by simpa using hne)]
          exact List.forall_mem_cons.mpr ⟨hstrict, List.forall_mem_cons.mpr ⟨hx', hbefore⟩⟩

/-- Of two members of a list one is before the other. -/
theorem mem_takeWhile_ne {l : List ι} {x y : ι} (hx : x ∈ l) (hy : y ∈ l) (hne : x ≠ y) :
    x ∈ l.takeWhile (· ≠ y) ∨ y ∈ l.takeWhile (· ≠ x) := by
  induction l with
  | nil => cases hx
  | cons z l ih =>
      by_cases hzy : z = y
      · subst hzy
        right
        rw [List.takeWhile_cons_of_pos (by simpa using hne.symm)]
        exact .head _
      · by_cases hzx : z = x
        · subst hzx
          left
          rw [List.takeWhile_cons_of_pos (by simpa using hzy)]
          exact .head _
        · have hx' := (List.mem_cons.mp hx).resolve_left (Ne.symm hzx)
          have hy' := (List.mem_cons.mp hy).resolve_left (Ne.symm hzy)
          rw [List.takeWhile_cons_of_pos (by simpa using hzy),
            List.takeWhile_cons_of_pos (by simpa using hzx)]
          exact (ih hx' hy').imp (List.mem_cons_of_mem _) (List.mem_cons_of_mem _)

theorem IsFirstLeast.unique {l : List ι} {x y : ι} (hx : IsFirstLeast d l x)
    (hy : IsFirstLeast d l y) : x = y := by
  by_contra hne
  cases mem_takeWhile_ne hx.1 hy.1 hne with
  | inl h => exact absurd (hy.2.2 x h) (not_lt.mpr (hx.2.1 y hy.1))
  | inr h => exact absurd (hx.2.2 y h) (not_lt.mpr (hy.2.1 x hx.1))

theorem firstLeast_eq_iff {best y : ι} {xs : List ι} :
    firstLeast d best xs = y ↔ IsFirstLeast d (best :: xs) y := by
  constructor
  · rintro rfl
    exact isFirstLeast_firstLeast d best xs
  · exact (isFirstLeast_firstLeast d best xs).unique

end Least

end SaneBackends.Lib
