import Mathlib.Tactic
/-!
# Circular buffers

A memory `Nat → α` used as a ring of `n` cells. `RingHolds n mem i xs` says that
the cells from index `i` on, wrapping once at `n`, hold `xs`. Reads and writes of
the code are contiguous, so both are related to the ring view here: a run of
cells that does not cross the end is read off directly, and a store is described
by the ring offsets it touches.
-/

namespace SaneBackends.Lib

variable {α : Type*}

/-- The cell `k` places after `i` in a ring of `n` cells, for `i < n` and `k ≤ n`. -/
def ringIndex (n i k : Nat) : Nat := if i + k < n then i + k else i + k - n

theorem ringIndex_lt {n i k : Nat} (hi : i < n) (hk : k ≤ n) : ringIndex n i k < n := by
  unfold ringIndex
  split_ifs <;> omega

@[simp] theorem ringIndex_zero {n i : Nat} (hi : i < n) : ringIndex n i 0 = i := by
  simp [ringIndex, hi]

theorem ringIndex_add {n i j k : Nat} (hi : i < n) (hjk : j + k ≤ n) :
    ringIndex n (ringIndex n i j) k = ringIndex n i (j + k) := by
  unfold ringIndex
  split_ifs <;> omega

theorem ringIndex_inj {n i j k : Nat} (hj : j < n) (hk : k < n)
    (h : ringIndex n i j = ringIndex n i k) : j = k := by
  unfold ringIndex at h
  split_ifs at h <;> omega

/-- The ring cells from `i` on hold `xs`. -/
def RingHolds (n : Nat) (mem : Nat → α) (i : Nat) (xs : List α) : Prop :=
  ∀ k (hk : k < xs.length), mem (ringIndex n i k) = xs[k]

namespace RingHolds

variable {n i : Nat} {mem mem' : Nat → α} {xs ys : List α}

theorem nil : RingHolds n mem i [] := by
  intro k hk
  simp at hk

theorem append (hi : i < n) (hlen : xs.length + ys.length ≤ n) :
    RingHolds n mem i (xs ++ ys) ↔
      RingHolds n mem i xs ∧ RingHolds n mem (ringIndex n i xs.length) ys := by
  constructor
  · intro h
    refine ⟨fun k hk => ?_, fun k hk => ?_⟩
    · rw [h k (by simp; omega), List.getElem_append_left hk]
    · rw [ringIndex_add hi (by omega), h (xs.length + k) (by simp; omega),
        List.getElem_append_right (by omega)]
      simp
  · rintro ⟨hx, hy⟩ k hk
    simp only [List.length_append] at hk
    by_cases hkx : k < xs.length
    · rw [hx k hkx, List.getElem_append_left hkx]
    · have hy' := hy (k - xs.length) (by omega)
      rw [ringIndex_add hi (by omega), show xs.length + (k - xs.length) = k by omega] at hy'
      rw [hy', List.getElem_append_right (by omega)]

/-- Memories that agree on the cells in question hold the same list. -/
theorem congr (h : RingHolds n mem i xs)
    (hmem : ∀ k < xs.length, mem' (ringIndex n i k) = mem (ringIndex n i k)) :
    RingHolds n mem' i xs := by
  intro k hk
  rw [hmem k hk, h k hk]

/-- A prefix that does not cross the end is what a contiguous read returns. -/
theorem read_eq (h : RingHolds n mem i (xs ++ ys)) (hlen : i + xs.length ≤ n) :
    (List.range xs.length).map (fun k => mem (i + k)) = xs := by
  apply List.ext_getElem
  · simp
  · intro k hk hk'
    have hcell := h k (by simp; omega)
    rw [ringIndex, if_pos (by omega)] at hcell
    simp only [List.getElem_map, List.getElem_range, hcell, List.getElem_append_left hk']

end RingHolds

/-- The `n` cells from `i` on always hold some list. -/
theorem exists_ringHolds (n : Nat) (mem : Nat → α) (i len : Nat) :
    ∃ xs : List α, xs.length = len ∧ RingHolds n mem i xs := by
  refine ⟨(List.range len).map fun k => mem (ringIndex n i k), by simp, ?_⟩
  intro k hk
  simp

/-- The memory after storing `xs` contiguously from `base` on. -/
def storeBlock (mem : Nat → α) (base : Nat) (xs : List α) : Nat → α := fun j =>
  if h : base ≤ j ∧ j - base < xs.length then xs[j - base] else mem j

theorem storeBlock_of_mem {mem : Nat → α} {base : Nat} {xs : List α} {k : Nat}
    (hk : k < xs.length) : storeBlock mem base xs (base + k) = xs[k] := by
  unfold storeBlock
  rw [dif_pos ⟨by omega, by omega⟩]
  simp

theorem storeBlock_of_not_mem {mem : Nat → α} {base : Nat} {xs : List α} {j : Nat}
    (hj : j < base ∨ base + xs.length ≤ j) : storeBlock mem base xs j = mem j := by
  unfold storeBlock
  rw [dif_neg (by omega)]

@[simp] theorem storeBlock_nil (mem : Nat → α) (base : Nat) : storeBlock mem base [] = mem := by
  funext j
  exact storeBlock_of_not_mem (by simp; omega)

/-- A stored block that does not cross the end is held where it was stored. -/
theorem ringHolds_storeBlock {n base : Nat} (mem : Nat → α) {xs : List α}
    (hlen : base + xs.length ≤ n) : RingHolds n (storeBlock mem base xs) base xs := by
  intro k hk
  rw [ringIndex, if_pos (by omega), storeBlock_of_mem hk]

/-- The memory after storing `xs` one cell at a time from `i` on, wrapping at `n`. -/
def storeRing (n : Nat) : (Nat → α) → Nat → List α → (Nat → α)
  | mem, _, [] => mem
  | mem, i, x :: xs => storeRing n (Function.update mem i x) (ringIndex n i 1) xs

theorem storeRing_append {n : Nat} {xs ys : List α} :
    ∀ {mem : Nat → α} {i : Nat}, i < n → xs.length ≤ n →
      storeRing n mem i (xs ++ ys) =
        storeRing n (storeRing n mem i xs) (ringIndex n i xs.length) ys := by
  induction xs with
  | nil =>
      intro mem i hi _
      simp [storeRing, ringIndex_zero hi]
  | cons x xs ih =>
      intro mem i hi hlen
      simp only [List.length_cons] at hlen
      rw [List.cons_append, storeRing, ih (ringIndex_lt hi (by omega)) (by omega), storeRing,
        ringIndex_add hi (by omega), List.length_cons, Nat.add_comm 1]

theorem storeRing_of_ne {n : Nat} {xs : List α} :
    ∀ {mem : Nat → α} {i j : Nat}, i < n → xs.length ≤ n →
      (∀ k < xs.length, j ≠ ringIndex n i k) → storeRing n mem i xs j = mem j := by
  induction xs with
  | nil => intros; rfl
  | cons x xs ih =>
      intro mem i j hi hlen hj
      simp only [List.length_cons] at hlen hj
      rw [storeRing, ih (ringIndex_lt hi (by omega)) (by omega)]
      · have h0 := hj 0 (by omega)
        rw [ringIndex_zero hi] at h0
        exact Function.update_of_ne h0 _ _
      · intro k hk
        rw [ringIndex_add hi (by omega), Nat.add_comm]
        exact hj (k + 1) (by omega)

/-- What was stored around the ring is held there. -/
theorem ringHolds_storeRing {n : Nat} {xs : List α} :
    ∀ {mem : Nat → α} {i : Nat}, i < n → xs.length ≤ n →
      RingHolds n (storeRing n mem i xs) i xs := by
  induction xs with
  | nil => intros; exact .nil
  | cons x xs ih =>
      intro mem i hi hlen k hk
      simp only [List.length_cons] at hlen hk
      have hnext : ringIndex n i 1 < n := ringIndex_lt hi (by omega)
      rw [storeRing]
      cases k with
      | zero =>
          rw [ringIndex_zero hi, storeRing_of_ne hnext (by omega)]
          · simp
          · intro k' hk' h
            rw [ringIndex_add hi (by omega)] at h
            have h0 : ringIndex n i 0 = ringIndex n i (1 + k') := by
              rw [ringIndex_zero hi]; exact h
            have := ringIndex_inj (by omega) (by omega) h0
            omega
      | succ k =>
          have h := @ih (Function.update mem i x) _ hnext (by omega) k (by omega)
          rw [ringIndex_add hi (by omega), Nat.add_comm 1 k] at h
          simpa using h

/-- Storing right behind what the ring holds appends to it. -/
theorem RingHolds.storeRing_append {n i : Nat} {mem : Nat → α} {xs ys : List α}
    (h : RingHolds n mem i xs) (hi : i < n) (hlen : xs.length + ys.length ≤ n) :
    RingHolds n (storeRing n mem (ringIndex n i xs.length) ys) i (xs ++ ys) := by
  have hnext : ringIndex n i xs.length < n := ringIndex_lt hi (by omega)
  refine (RingHolds.append hi hlen).2 ⟨?_, ringHolds_storeRing hnext (by omega)⟩
  apply h.congr
  intro k hk
  apply storeRing_of_ne hnext (by omega)
  intro k' hk' heq
  rw [ringIndex_add hi (by omega)] at heq
  have := ringIndex_inj (by omega) (by omega) heq
  omega

/-- A header stored in front of a contiguous block is held together with it. -/
theorem ringHolds_storeRing_storeBlock {n i : Nat} {mem : Nat → α} {xs ys : List α}
    (hi : i < n) (hlen : xs.length + ys.length ≤ n)
    (hblock : ringIndex n i xs.length + ys.length ≤ n) :
    RingHolds n (storeRing n (storeBlock mem (ringIndex n i xs.length) ys) i xs) i (xs ++ ys) := by
  refine (RingHolds.append hi hlen).2 ⟨ringHolds_storeRing hi (by omega), ?_⟩
  apply (ringHolds_storeBlock mem hblock).congr
  intro k hk
  apply storeRing_of_ne hi (by omega)
  intro k' hk' heq
  rw [ringIndex_add hi (by omega)] at heq
  have := ringIndex_inj (by omega) (by omega) heq
  omega

end SaneBackends.Lib
