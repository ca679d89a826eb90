import Mathlib.Tactic
/-!
# Binary search

The search of `std::lower_bound` halves the range it is left with. It finds the place up to which
the elements lie below the one in question, as long as none below comes after one that is not.
-/

namespace SaneBackends.Lib

variable {ε : Type} {below : ε → Bool} {xs : List ε} {x : ε} {first count i : Nat}

/-- `std::lower_bound` on the `count` elements from `first` on. -/
def lowerBound (below : ε → Bool) (xs : List ε) (first count : Nat) : Nat :=
  if count = 0 then first
  else if (xs[first + count / 2]?).any below then
    lowerBound below xs (first + count / 2 + 1) (count - count / 2 - 1)
  else lowerBound below xs first (count / 2)
termination_by count

/-- The elements up to a place are below, and those from there on are not. -/
structure Partitions (below : ε → Bool) (xs : List ε) (first last : Nat) : Prop where
  before : ∀ i < first, ∀ x ∈ xs[i]?, below x = true
  behind : ∀ i, last ≤ i → ∀ x ∈ xs[i]?, below x = false

theorem below_of_lt {i j : Nat} (hsorted : xs.Pairwise fun x y => below y = true → below x = true)
    (hij : i < j) (hj : j < xs.length) (h : below xs[j] = true) : below xs[i] = true :=
  List.pairwise_iff_getElem.mp hsorted i j (by omega) hj hij h

theorem lowerBound_partitions (hsorted : xs.Pairwise fun x y => below y = true → below x = true)
    (hend : first + count ≤ xs.length) (h : Partitions below xs first (first + count)) :
    Partitions below xs (lowerBound below xs first count) (lowerBound below xs first count) := by
  induction count using Nat.strong_induction_on generalizing first with
  | _ count ih =>
      rw [lowerBound]
      by_cases hnone : count = 0
      · subst hnone
        exact h
      rw [if_neg hnone]
      have hmid : first + count / 2 < xs.length := by omega
      rw [List.getElem?_eq_getElem hmid, Option.any_some]
      by_cases hbelow : below xs[first + count / 2] = true
      · rw [if_pos hbelow]
        refine ih (count - count / 2 - 1) (by omega) (by omega) ⟨?_, ?_⟩
        · intro i hi x hx
          obtain ⟨hlt, rfl⟩ := List.getElem?_eq_some_iff.mp hx
          by_cases hmidpoint : i = first + count / 2
          · subst hmidpoint
            exact hbelow
          · exact below_of_lt hsorted (by omega) hmid hbelow
        · rw [show first + count / 2 + 1 + (count - count / 2 - 1) = first + count by omega]
          exact h.behind
      · rw [if_neg hbelow]
        refine ih (count / 2) (by omega) (by omega) ⟨h.before, ?_⟩
        intro i hi x hx
        obtain ⟨hlt, rfl⟩ := List.getElem?_eq_some_iff.mp hx
        by_contra habove
        rw [Bool.not_eq_false] at habove
        by_cases hmidpoint : i = first + count / 2
        · subst hmidpoint
          exact hbelow habove
        · exact hbelow (below_of_lt hsorted (by omega) hlt habove)

/-- On the whole of a sorted list the search ends where the elements stop to be below. -/
theorem partitions_lowerBound
    (hsorted : xs.Pairwise fun x y => below y = true → below x = true) :
    Partitions below xs (lowerBound below xs 0 xs.length) (lowerBound below xs 0 xs.length) := by
  refine lowerBound_partitions hsorted (Nat.zero_add _).le ⟨?_, ?_⟩
  · intro i hi
    exact absurd hi (Nat.not_lt_zero i)
  · intro i hi x hx
    rw [List.getElem?_eq_none (by omega)] at hx
    cases hx

end SaneBackends.Lib
