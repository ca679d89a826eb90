import Mathlib.Data.List.Basic
/-!
# Streams that arrive in segments

What is sent arrives in segments that are not empty. A read takes from the first one no more than
asked for; what it leaves stays.
-/

namespace SaneBackends.Lib

variable {α : Type}

/-- What arrives at once. -/
structure Segment (α : Type) where
  items : List α
  ne_nil : items ≠ []

/-- All that is still to come. -/
def joined (segments : List (Segment α)) : List α := segments.flatMap Segment.items

/-- One read of at most `len` items. -/
def takeSegment (len : Nat) : List (Segment α) → List α × List (Segment α)
  | [] => ([], [])
  | segment :: segments =>
      if h : segment.items.drop len ≠ [] then
        (segment.items.take len, ⟨segment.items.drop len, h⟩ :: segments)
      else (segment.items, segments)

theorem joined_cons (segment : Segment α) (segments : List (Segment α)) :
    joined (segment :: segments) = segment.items ++ joined segments := rfl

/-- A read takes a beginning of what is to come. -/
theorem takeSegment_append (len : Nat) (segments : List (Segment α)) :
    (takeSegment len segments).1 ++ joined (takeSegment len segments).2 = joined segments := by
  cases segments with
  | nil => rfl
  | cons segment segments =>
      rw [takeSegment]
      split_ifs with h
      · change segment.items.take len ++ (segment.items.drop len ++ joined segments) = _
        rw [← List.append_assoc, List.take_append_drop]
        rfl
      · rfl

theorem takeSegment_length_le (len : Nat) (segments : List (Segment α)) :
    (takeSegment len segments).1.length ≤ len := by
  cases segments with
  | nil => exact Nat.zero_le _
  | cons segment segments =>
      rw [takeSegment]
      split_ifs with h
      · exact List.length_take_le _ _
      · exact List.drop_eq_nil_iff.mp (not_not.mp h)

theorem takeSegment_ne_nil {len : Nat} (hlen : 0 < len) {segments : List (Segment α)}
    (hsegments : segments ≠ []) : (takeSegment len segments).1 ≠ [] := by
  cases segments with
  | nil => exact absurd rfl hsegments
  | cons segment segments =>
      rw [takeSegment]
      split_ifs with h
      · intro hnil
        rcases List.take_eq_nil_iff.mp hnil with hzero | hempty
        · exact absurd hzero (Nat.ne_of_gt hlen)
        · exact segment.ne_nil hempty
      · exact segment.ne_nil

theorem joined_eq_nil_iff {segments : List (Segment α)} : joined segments = [] ↔ segments = [] := by
  cases segments with
  | nil => exact iff_of_true rfl rfl
  | cons segment segments =>
      refine iff_of_false (fun h => segment.ne_nil ?_) (List.cons_ne_nil _ _)
      exact (List.append_eq_nil_iff.mp h).1

end SaneBackends.Lib
