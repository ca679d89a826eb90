import Mathlib.Data.List.TakeWhile
/-!
# C strings

A C string is the list of its bytes before the terminator.
-/

namespace SaneBackends.Lib

/-- `strchr`, as the string from the character on. -/
def strchr (str : List UInt8) (c : UInt8) : Option (List UInt8) :=
  match str.dropWhile (· ≠ c) with
  | [] => none
  | found => some found

variable {before after str : List UInt8} {c : UInt8}

theorem forall_ne (h : c ∉ before) : ∀ b ∈ before, (decide (b ≠ c)) = true := by
  intro b hb
  rw [decide_eq_true_eq]
  rintro rfl
  exact h hb

theorem takeWhile_ne (h : c ∉ before) : (before ++ c :: after).takeWhile (· ≠ c) = before := by
  rw [List.takeWhile_append_of_pos (forall_ne h), List.takeWhile_cons_of_neg (by simp),
    List.append_nil]

theorem dropWhile_ne (h : c ∉ before) :
    (before ++ c :: after).dropWhile (· ≠ c) = c :: after := by
  rw [List.dropWhile_append_of_pos (forall_ne h), List.dropWhile_cons_of_neg (by simp)]

/-- A character is found where it stands first. -/
theorem strchr_append (h : c ∉ before) : strchr (before ++ c :: after) c = some (c :: after) := by
  rw [strchr, dropWhile_ne h]

theorem strchr_of_not_mem (h : c ∉ str) : strchr str c = none := by
  rw [strchr, List.dropWhile_eq_nil_iff.mpr (forall_ne h)]

/-! ## Fields -/

/-- The field before the first delimiter, with the string behind the delimiter. -/
def field (c : UInt8) (str : List UInt8) : List UInt8 × Option (List UInt8) :=
  (str.takeWhile (· ≠ c), (strchr str c).map List.tail)

theorem field_append (h : c ∉ before) : field c (before ++ c :: after) = (before, some after) := by
  rw [field, takeWhile_ne h, strchr_append h]
  rfl

theorem field_of_not_mem (h : c ∉ str) : field c str = (str, none) := by
  rw [field, strchr_of_not_mem h, List.takeWhile_eq_self_iff.mpr (forall_ne h)]
  rfl

/-- A string is its field, with the delimiter and what is behind it. -/
theorem field_cases (c : UInt8) (str : List UInt8) :
    c ∉ str ∧ field c str = (str, none) ∨
      ∃ before after, c ∉ before ∧ str = before ++ c :: after ∧
        field c str = (before, some after) := by
  by_cases h : c ∈ str
  · obtain ⟨before, after, rfl, hbefore⟩ := List.eq_append_cons_of_mem h
    exact .inr ⟨before, after, hbefore, rfl, field_append hbefore⟩
  · exact .inl ⟨h, field_of_not_mem h⟩

end SaneBackends.Lib
