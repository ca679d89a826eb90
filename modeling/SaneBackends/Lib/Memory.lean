import SaneBackends.Lib.Ring
/-!
# Slices of a memory

The cells of a memory `Nat → α` from an address on, as a list, with the effect of
stores and moves on them.
-/

namespace SaneBackends.Lib

variable {α : Type*}

/-- The `n` cells from `base` on. -/
def slice (mem : Nat → α) (base n : Nat) : List α := (List.range n).map fun i => mem (base + i)

@[simp] theorem slice_length (mem : Nat → α) (base n : Nat) : (slice mem base n).length = n := by
  simp [slice]

@[simp] theorem slice_zero (mem : Nat → α) (base : Nat) : slice mem base 0 = [] := rfl

theorem slice_add (mem : Nat → α) (base n m : Nat) :
    slice mem base (n + m) = slice mem base n ++ slice mem (base + n) m := by
  simp only [slice, List.range_add, List.map_append, List.map_map]
  congr 1
  apply List.map_congr_left
  intro i _
  simp [Nat.add_assoc]

theorem slice_congr {mem mem' : Nat → α} {base base' n : Nat}
    (h : ∀ i < n, mem (base + i) = mem' (base' + i)) : slice mem base n = slice mem' base' n := by
  apply List.map_congr_left
  intro i hi
  exact h i (List.mem_range.mp hi)

theorem slice_storeBlock (mem : Nat → α) (base : Nat) (xs : List α) :
    slice (storeBlock mem base xs) base xs.length = xs := by
  apply List.ext_getElem
  · simp
  · intro i hi hi'
    simp [slice, storeBlock_of_mem hi']

/-- A store behind a slice leaves it alone. -/
theorem slice_storeBlock_before {mem : Nat → α} {base n at' : Nat} {xs : List α}
    (h : base + n ≤ at') : slice (storeBlock mem at' xs) base n = slice mem base n := by
  apply slice_congr
  intro i hi
  exact storeBlock_of_not_mem (by omega)

/-- A store that continues a slice. -/
theorem slice_storeBlock_append (mem : Nat → α) (base n : Nat) (xs : List α) :
    slice (storeBlock mem (base + n) xs) base (n + xs.length) = slice mem base n ++ xs := by
  rw [slice_add, slice_storeBlock, slice_storeBlock_before (Nat.le_refl _)]

end SaneBackends.Lib
