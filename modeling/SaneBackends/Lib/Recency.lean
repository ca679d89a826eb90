import Mathlib.Data.List.Dedup
/-!
# Lists ordered by most recent use

`touch` moves a value to the front of a list, adding it if it is new. A list built
by touches alone is the list of all values touched, each once, latest first.
-/

namespace SaneBackends.Lib

variable {α : Type*}

section Touch

variable [BEq α]

def touch (x : α) (l : List α) : List α := x :: l.erase x

theorem touch_sublist {x : α} {l l' : List α} (h : l.Sublist l') :
    (touch x l).Sublist (touch x l') :=
  (h.erase x).cons_cons x

variable [LawfulBEq α]

theorem touch_of_not_mem {x : α} {l : List α} (h : x ∉ l) : touch x l = x :: l := by
  rw [touch, List.erase_of_not_mem h]

/-- A touch that fails to add a new value does no harm to the order. -/
theorem sublist_touch {x : α} {l l' : List α} (h : l.Sublist l') (hx : x ∉ l) :
    l.Sublist (touch x l') := by
  rw [← List.erase_of_not_mem hx]
  exact (h.erase x).cons x

end Touch

section History

variable [DecidableEq α]

/-- The values of a history, each once, latest first. -/
def byRecency (history : List α) : List α := history.dedup.reverse

theorem nodup_byRecency (history : List α) : (byRecency history).Nodup :=
  List.nodup_reverse.mpr history.nodup_dedup

variable [BEq α] [LawfulBEq α]

theorem dedup_concat (history : List α) (x : α) :
    (history ++ [x]).dedup = history.dedup.erase x ++ [x] := by
  induction history with
  | nil => rfl
  | cons a history ih =>
      rw [List.cons_append]
      by_cases hmem : a ∈ history
      · rw [List.dedup_cons_of_mem (List.mem_append_left _ hmem), List.dedup_cons_of_mem hmem, ih]
      · rw [List.dedup_cons_of_notMem hmem]
        by_cases ha : a = x
        · subst ha
          rw [List.dedup_cons_of_mem (by simp), ih, List.erase_cons_head,
            List.erase_of_not_mem (by simpa using hmem)]
        · rw [List.dedup_cons_of_notMem (by simp [hmem, ha]), ih,
            List.erase_cons_tail (by simpa using ha), List.cons_append]

theorem byRecency_concat (history : List α) (x : α) :
    byRecency (history ++ [x]) = touch x (byRecency history) := by
  have herase : (history.dedup.erase x).reverse = (byRecency history).erase x := by
    rw [history.nodup_dedup.erase_eq_filter, (nodup_byRecency history).erase_eq_filter, byRecency,
      List.filter_reverse]
  rw [byRecency, dedup_concat, List.reverse_append, herase]
  rfl

end History

end SaneBackends.Lib
