import SaneBackends.Lib.CString
/-!
# Strings in blocks

A block of bytes whose strings are read and cut in place. A string is read up to its terminator,
which has to be in the block.
-/

namespace SaneBackends.Lib

inductive TextFault where
  | nullPointer
  | outOfBounds
  deriving DecidableEq, Repr

/-- The string at a position. -/
def stringAt (block : List UInt8) (p : Nat) : Except TextFault (List UInt8) :=
  if 0 ∈ block.drop p then .ok ((block.drop p).takeWhile (· ≠ 0)) else .error .outOfBounds

def setByte (block : List UInt8) (p : Nat) (b : UInt8) : Except TextFault (List UInt8) :=
  if p < block.length then .ok (block.set p b) else .error .outOfBounds

/-- The string at the beginning, or as many bytes if there is no terminator among them. -/
def boundedString (source : List UInt8) (n : Nat) : Except TextFault (List UInt8) :=
  if 0 ∈ source.take n ∨ n ≤ source.length then .ok ((source.take n).takeWhile (· ≠ 0))
  else .error .outOfBounds

def setBytes (block : List UInt8) (p : Nat) (bytes : List UInt8) : Except TextFault (List UInt8) :=
  if p + bytes.length ≤ block.length then
    .ok (block.take p ++ bytes ++ block.drop (p + bytes.length))
  else .error .outOfBounds

/-- `strncpy`, to the beginning of a block. -/
def strncpy (block source : List UInt8) (n : Nat) : Except TextFault (List UInt8) :=
  match boundedString source n with
  | .ok text => setBytes block 0 (text ++ List.replicate (n - text.length) 0)
  | .error fault => .error fault

/-- What stands in front of the last such character, and behind it. -/
def splitLast (c : UInt8) : List UInt8 → Option (List UInt8 × List UInt8)
  | [] => none
  | b :: text =>
      match splitLast c text with
      | some (front, behind) => some (b :: front, behind)
      | none => if b = c then some ([], text) else none

/-- `strchr`, as an offset. -/
def firstIndex (c : UInt8) (text : List UInt8) : Option Nat :=
  if c ∈ text then some (text.takeWhile (· ≠ c)).length else none

/-- `strrchr`, as an offset. -/
def lastIndex (c : UInt8) (text : List UInt8) : Option Nat :=
  (splitLast c text).map fun cut => cut.1.length

variable {before behind text : List UInt8} {b c : UInt8}

theorem stringAt_append (h : 0 ∉ text) (before behind : List UInt8) :
    stringAt (before ++ (text ++ 0 :: behind)) before.length = .ok text := by
  have hmem : (0 : UInt8) ∈ text ++ 0 :: behind :=
    List.mem_append_right _ List.mem_cons_self
  rw [stringAt, List.drop_left, if_pos hmem, takeWhile_ne h]

theorem setByte_append (before behind : List UInt8) (b c : UInt8) :
    setByte (before ++ b :: behind) before.length c = .ok (before ++ c :: behind) := by
  have hlt : before.length < (before ++ b :: behind).length := by
    rw [List.length_append, List.length_cons]
    omega
  rw [setByte, if_pos hlt, List.set_append_right _ _ (Nat.le_refl _), Nat.sub_self, List.set_cons_zero]

theorem setByte_ok {p : Nat} (h : p < before.length) (b : UInt8) :
    setByte before p b = .ok (before.set p b) := if_pos h

theorem firstIndex_append (h : c ∉ before) (behind : List UInt8) :
    firstIndex c (before ++ c :: behind) = some before.length := by
  rw [firstIndex, if_pos (List.mem_append_right _ List.mem_cons_self), takeWhile_ne h]

theorem firstIndex_of_not_mem (h : c ∉ text) : firstIndex c text = none := if_neg h

theorem splitLast_of_not_mem (h : c ∉ text) : splitLast c text = none := by
  induction text with
  | nil => rfl
  | cons b text ih =>
      have hne : b ≠ c := fun hb => h (hb ▸ List.mem_cons_self)
      rw [splitLast, ih fun htail => h (List.mem_cons_of_mem _ htail)]
      exact if_neg hne

theorem splitLast_append (before : List UInt8) (h : c ∉ behind) :
    splitLast c (before ++ c :: behind) = some (before, behind) := by
  induction before with
  | nil =>
      rw [List.nil_append, splitLast, splitLast_of_not_mem h]
      exact if_pos rfl
  | cons b before ih => rw [List.cons_append, splitLast, ih]

/-- A text has no such character, or it is split at the last one. -/
theorem splitLast_cases (c : UInt8) (text : List UInt8) :
    c ∉ text ∧ splitLast c text = none ∨
      ∃ before behind, c ∉ behind ∧ text = before ++ c :: behind ∧
        splitLast c text = some (before, behind) := by
  induction text with
  | nil => exact .inl ⟨List.not_mem_nil, rfl⟩
  | cons b text ih =>
      rcases ih with ⟨hnone, hsplit⟩ | ⟨before, behind, hbehind, htext, hsplit⟩
      · by_cases hb : b = c
        · exact .inr ⟨[], text, hnone, hb ▸ rfl, by rw [splitLast, hsplit]; exact if_pos hb⟩
        · refine .inl ⟨fun hc => ?_, by rw [splitLast, hsplit]; exact if_neg hb⟩
          rcases List.mem_cons.mp hc with rfl | htail
          · exact hb rfl
          · exact hnone htail
      · exact .inr ⟨b :: before, behind, hbehind, by rw [htext, List.cons_append], by
          rw [splitLast, hsplit]⟩

/-! ## Bounded copies -/

theorem boundedString_length {source : List UInt8} {n : Nat}
    (h : boundedString source n = .ok text) : text.length ≤ n := by
  rw [boundedString] at h
  split_ifs at h
  rw [← Except.ok.inj h]
  exact (List.takeWhile_prefix _).length_le.trans (List.length_take_le n source)

/-- A bounded copy into a block that is large enough succeeds where the source can be read. -/
theorem exists_strncpy {block source : List UInt8} {n : Nat} (hblock : n ≤ block.length)
    (hsource : 0 ∈ source.take n ∨ n ≤ source.length) :
    ∃ copied, strncpy block source n = .ok copied ∧ copied.length = block.length := by
  have hread : boundedString source n = .ok ((source.take n).takeWhile (· ≠ 0)) := if_pos hsource
  have hle := boundedString_length hread
  generalize (source.take n).takeWhile (· ≠ 0) = text at hread hle
  have hlength : (text ++ List.replicate (n - text.length) 0).length = n := by
    rw [List.length_append, List.length_replicate]
    omega
  refine ⟨text ++ List.replicate (n - text.length) 0 ++ block.drop n, ?_, ?_⟩
  · rw [strncpy, hread]
    dsimp only
    rw [setBytes, hlength, Nat.zero_add, if_pos hblock, List.take_zero, List.nil_append]
  · rw [List.length_append, hlength, List.length_drop]
    omega

/-- A string with its terminator can be copied, whatever the bound is. -/
theorem terminated_readable (source : List UInt8) (n : Nat) :
    0 ∈ (source ++ [0]).take n ∨ n ≤ (source ++ [0]).length := by
  by_cases h : n ≤ (source ++ [0]).length
  · exact .inr h
  · rw [List.take_of_length_le (by omega)]
    exact .inl (List.mem_append_right _ List.mem_cons_self)

theorem strncpy_error {source : List UInt8} {n : Nat} (h : ¬ (0 ∈ source.take n ∨ n ≤ source.length))
    (block : List UInt8) : strncpy block source n = .error .outOfBounds := by
  rw [strncpy, boundedString, if_neg h]

end SaneBackends.Lib
