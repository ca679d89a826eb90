import SaneBackends.Lib.Loop
/-!
# Blocks of cells

A block is a number of cells with what they hold. Loads and stores outside of it fail.
-/

namespace SaneBackends.Lib

inductive CellFault where
  | outOfBounds
  | divisionByZero
  deriving DecidableEq, Repr

structure Cells (α : Type) where
  size : Nat
  cell : Nat → α

namespace Cells

variable {α : Type} {block : Cells α} {i j : Nat}

def load (block : Cells α) (i : Nat) : Except CellFault α :=
  if i < block.size then .ok (block.cell i) else .error .outOfBounds

def store (block : Cells α) (i : Nat) (value : α) : Except CellFault (Cells α) :=
  if i < block.size then .ok { block with cell := Function.update block.cell i value }
  else .error .outOfBounds

/-- `memcpy (block, src, n)`. -/
def copy (block src : Cells α) (n : Nat) : Except CellFault (Cells α) :=
  if n ≤ block.size ∧ n ≤ src.size then
    .ok { block with cell := fun i => if i < n then src.cell i else block.cell i }
  else .error .outOfBounds

/-- `memcpy (block + dst, src + start, n)`. -/
def copyAt (block : Cells α) (dst : Nat) (src : Cells α) (start n : Nat) :
    Except CellFault (Cells α) :=
  if dst + n ≤ block.size ∧ start + n ≤ src.size then
    .ok
      { block with
        cell := fun i => if dst ≤ i ∧ i < dst + n then src.cell (start + (i - dst))
          else block.cell i }
  else .error .outOfBounds

/-- The block after a store. -/
def put (block : Cells α) (i : Nat) (value : α) : Cells α :=
  { block with cell := Function.update block.cell i value }

theorem load_eq (hi : i < block.size) : block.load i = .ok (block.cell i) := if_pos hi

theorem store_eq (hi : i < block.size) (value : α) :
    block.store i value = .ok (block.put i value) :=
  if_pos hi

theorem load_ok {value : α} (h : block.load i = .ok value) :
    i < block.size ∧ value = block.cell i := by
  by_cases hi : i < block.size
  · rw [load_eq hi] at h
    exact ⟨hi, (Except.ok.inj h).symm⟩
  · have hfault : block.load i = .error .outOfBounds := if_neg hi
    rw [hfault] at h
    cases h

theorem store_ok {value : α} {block' : Cells α} (h : block.store i value = .ok block') :
    i < block.size ∧ block' = block.put i value := by
  by_cases hi : i < block.size
  · rw [store_eq hi] at h
    exact ⟨hi, (Except.ok.inj h).symm⟩
  · have hfault : block.store i value = .error .outOfBounds := if_neg hi
    rw [hfault] at h
    cases h

@[simp] theorem size_put (block : Cells α) (i : Nat) (value : α) :
    (block.put i value).size = block.size := rfl

@[simp] theorem cell_put_self (block : Cells α) (i : Nat) (value : α) :
    (block.put i value).cell i = value := Function.update_self ..

theorem cell_put_of_ne (hne : j ≠ i) (value : α) : (block.put i value).cell j = block.cell j :=
  Function.update_of_ne hne ..

theorem copy_ok {src block' : Cells α} {n : Nat} (h : block.copy src n = .ok block') :
    block'.size = block.size := by
  by_cases hn : n ≤ block.size ∧ n ≤ src.size
  · have hcopy : block.copy src n = .ok { block with
        cell := fun i => if i < n then src.cell i else block.cell i } := if_pos hn
    rw [hcopy] at h
    rw [← Except.ok.inj h]
  · have hfault : block.copy src n = .error .outOfBounds := if_neg hn
    rw [hfault] at h
    cases h

/-- What a copy to the start leaves, there and behind it. -/
theorem copy_spec {src : Cells α} {n : Nat} (hblock : n ≤ block.size) (hsrc : n ≤ src.size) :
    ∃ block', block.copy src n = .ok block' ∧ block'.size = block.size ∧
      (∀ i < n, block'.cell i = src.cell i) ∧ ∀ i, n ≤ i → block'.cell i = block.cell i :=
  ⟨_, if_pos ⟨hblock, hsrc⟩, rfl, fun _ hi => if_pos hi, fun _ hi => if_neg (Nat.not_lt.mpr hi)⟩

/-- What a copy leaves, in the place copied to and elsewhere. -/
theorem copyAt_spec {src : Cells α} {dst start n : Nat} (hdst : dst + n ≤ block.size)
    (hsrc : start + n ≤ src.size) :
    ∃ block', block.copyAt dst src start n = .ok block' ∧ block'.size = block.size ∧
      (∀ i < n, block'.cell (dst + i) = src.cell (start + i)) ∧
      ∀ i, i < dst ∨ dst + n ≤ i → block'.cell i = block.cell i := by
  refine ⟨_, if_pos ⟨hdst, hsrc⟩, rfl, fun i hi => ?_, fun i hi => if_neg (by omega)⟩
  dsimp only
  rw [if_pos (by omega), Nat.add_sub_cancel_left]

/-- A loop that stores one cell after another leaves the values in them. -/
theorem fill_spec {n : Nat} {get : Nat → Except CellFault α} {value : Nat → α}
    (hget : ∀ p < n, get p = .ok (value p)) (hsize : n ≤ block.size) :
    ∃ block', forTo n (fun p block => do
        let v ← get p
        block.store p v) block = .ok block' ∧
      block'.size = block.size ∧ ∀ p < n, block'.cell p = value p := by
  refine forTo_invariant
    (I := fun k (b : Cells α) => b.size = block.size ∧ ∀ p < k, b.cell p = value p)
    ⟨rfl, fun p hp => absurd hp (Nat.not_lt_zero p)⟩ fun k hk b hinv => ?_
  obtain ⟨hkeep, hcells⟩ := hinv
  refine ⟨b.put k (value k), ?_, hkeep, fun p hp => ?_⟩
  · rw [hget k hk, ok_bind, store_eq (by omega)]
  · by_cases hlast : p = k
    · subst hlast
      exact cell_put_self ..
    · rw [cell_put_of_ne hlast]
      exact hcells p (by omega)

/-- The block with new values in its first `n` cells. -/
def replace (block : Cells α) (n : Nat) (value : Nat → α) : Cells α :=
  { block with cell := fun i => if i < n then value i else block.cell i }

@[simp] theorem size_replace (block : Cells α) (n : Nat) (value : Nat → α) :
    (block.replace n value).size = block.size := rfl

theorem replace_zero (block : Cells α) (value : Nat → α) : block.replace 0 value = block := rfl

theorem cell_replace_of_le {n : Nat} (hi : n ≤ i) (value : Nat → α) :
    (block.replace n value).cell i = block.cell i :=
  if_neg (Nat.not_lt.mpr hi)

theorem put_replace (block : Cells α) (n : Nat) (value : Nat → α) :
    (block.replace n value).put n (value n) = block.replace (n + 1) value := by
  rw [put, replace, replace]
  congr 1
  funext i
  by_cases hi : i = n
  · rw [hi, Function.update_self, if_pos (Nat.lt_succ_self n)]
  · rw [Function.update_of_ne hi]
    exact if_congr (by omega) rfl rfl

/-- A loop that works in place, each pass on its own cell and those behind, does what it would do
with a block of its own for the results. -/
theorem inPlace_spec {n : Nat} {pass : Nat → Cells α → Except CellFault (Cells α)}
    {value : Nat → α}
    (hpass : ∀ k < n, ∀ b : Cells α, b.size = block.size →
      (∀ i, k ≤ i → b.cell i = block.cell i) → pass k b = .ok (b.put k (value k))) :
    forTo n pass block = .ok (block.replace n value) := by
  induction n with
  | zero => rfl
  | succ n ih =>
      have hbefore := ih fun k hk => hpass k (Nat.lt_succ_of_lt hk)
      have hpass := hpass n (Nat.lt_succ_self n) (block.replace n value) rfl fun i hi =>
        cell_replace_of_le hi value
      rw [forTo_succ, hbefore, ok_bind, hpass, put_replace]

/-! ## Bytes copied out -/

/-- The cells from `start` on. -/
def span (block : Cells α) (start n : Nat) : List α := (List.range' start n).map block.cell

/-- `memcpy (data, block + start, n)`. -/
def slice (block : Cells α) (start n : Nat) : Except CellFault (List α) :=
  if start + n ≤ block.size then .ok (block.span start n) else .error .outOfBounds

@[simp] theorem length_span (block : Cells α) (start n : Nat) :
    (block.span start n).length = n := by
  rw [span, List.length_map, List.length_range']

theorem span_add (block : Cells α) (start m n : Nat) :
    block.span start (m + n) = block.span start m ++ block.span (start + m) n := by
  rw [span, span, span, ← List.map_append, List.range'_append_1]

theorem slice_ok {start n : Nat} {data : List α} (h : block.slice start n = .ok data) :
    start + n ≤ block.size := by
  by_contra hlt
  rw [slice, if_neg hlt] at h
  cases h

theorem slice_eq {start n : Nat} (h : start + n ≤ block.size) :
    block.slice start n = .ok (block.span start n) :=
  if_pos h

end Cells

end SaneBackends.Lib
