import SaneBackends.Lib.Memory
/-!
# Reads of a memory

The parts of a memory that a run reads, and that all of them lie below a limit.
-/

namespace SaneBackends.Lib

/-- The `len` cells from `off` on. -/
structure Span where
  off : Nat
  len : Nat
  deriving DecidableEq, Repr

def Span.Inside (limit : Nat) (span : Span) : Prop := span.off + span.len ≤ limit

instance (limit : Nat) (span : Span) : Decidable (span.Inside limit) :=
  inferInstanceAs (Decidable (_ ≤ _))

def AllInside (limit : Nat) (spans : List Span) : Prop := ∀ span ∈ spans, span.Inside limit

variable {limit : Nat}

@[simp] theorem allInside_nil : AllInside limit [] := fun _ h => absurd h List.not_mem_nil

@[simp] theorem allInside_cons {span : Span} {spans : List Span} :
    AllInside limit (span :: spans) ↔ span.off + span.len ≤ limit ∧ AllInside limit spans :=
  List.forall_mem_cons

@[simp] theorem allInside_append {spans spans' : List Span} :
    AllInside limit (spans ++ spans') ↔ AllInside limit spans ∧ AllInside limit spans' :=
  List.forall_mem_append

/-- The cells from `i` on, of a slice that is long enough for them. -/
theorem drop_slice {α : Type*} (mem : Nat → α) (base n i : Nat) :
    (slice mem base n).drop i = slice mem (base + i) (n - i) := by
  by_cases h : i ≤ n
  · conv_lhs => rw [← Nat.add_sub_of_le h, slice_add]
    exact List.drop_left' (slice_length mem base i)
  · rw [List.drop_eq_nil_of_le (by rw [slice_length]; omega), Nat.sub_eq_zero_of_le (by omega),
      slice_zero]

theorem take_slice {α : Type*} (mem : Nat → α) (base : Nat) {n i : Nat} (h : i ≤ n) :
    (slice mem base n).take i = slice mem base i := by
  rw [← Nat.add_sub_of_le h, slice_add]
  exact List.take_left' (slice_length mem base i)

theorem getD_slice {α : Type*} (mem : Nat → α) (base : Nat) {n i : Nat} (h : i < n) (x : α) :
    (slice mem base n).getD i x = mem (base + i) := by
  simp [slice, List.getD_eq_getElem?_getD, h]

end SaneBackends.Lib
