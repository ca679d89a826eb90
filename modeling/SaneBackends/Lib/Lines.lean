import Mathlib.Tactic
/-!
# Lines of a stream

A stream of items is cut into lines of one length. What is left over is the start of the next line,
so that a stream that comes in pieces can be cut piece by piece.
-/

namespace SaneBackends.Lib

variable {α : Type*} {n : Nat}

/-- The complete lines of `n` items. -/
def lines (n : Nat) (data : List α) : List (List α) :=
  (List.range (data.length / n)).map fun i => (data.drop (i * n)).take n

/-- What is behind the complete lines. -/
def remainder (n : Nat) (data : List α) : List α := data.drop (data.length / n * n)

theorem lines_of_lt {data : List α} (h : data.length < n) : lines n data = [] := by
  rw [lines, Nat.div_eq_of_lt h]
  rfl

theorem remainder_of_lt {data : List α} (h : data.length < n) : remainder n data = data := by
  rw [remainder, Nat.div_eq_of_lt h, Nat.zero_mul]
  rfl

theorem length_lines (n : Nat) (data : List α) : (lines n data).length = data.length / n := by
  rw [lines, List.length_map, List.length_range]

theorem length_of_mem_lines {data line : List α} (hline : line ∈ lines n data) :
    line.length = n := by
  obtain ⟨i, hi, rfl⟩ := List.mem_map.mp hline
  have hend : (i + 1) * n ≤ data.length :=
    (Nat.mul_le_mul_right n (List.mem_range.mp hi)).trans (Nat.div_mul_le_self _ _)
  rw [Nat.succ_mul] at hend
  rw [List.length_take, List.length_drop]
  omega

theorem length_append_div (hn : 0 < n) {line : List α} (hline : line.length = n)
    (rest : List α) : (line ++ rest).length / n = rest.length / n + 1 := by
  rw [List.length_append, hline, Nat.add_comm, Nat.add_div_right _ hn]

/-- The first line in front of those of the rest. -/
theorem lines_append_of_length (hn : 0 < n) {line : List α} (hline : line.length = n)
    (rest : List α) : lines n (line ++ rest) = line :: lines n rest := by
  rw [lines, length_append_div hn hline, List.range_succ_eq_map, List.map_cons, List.map_map]
  congr 1
  · rw [Nat.zero_mul, List.drop_zero, ← hline, List.take_left]
  · apply List.map_congr_left
    intro i _
    have hdrop : (line ++ rest).drop ((i + 1) * n) = rest.drop (i * n) := by
      rw [Nat.succ_mul, Nat.add_comm, ← List.drop_drop, ← hline, List.drop_left]
    rw [Function.comp_apply, hdrop]

theorem remainder_append_of_length (hn : 0 < n) {line : List α} (hline : line.length = n)
    (rest : List α) : remainder n (line ++ rest) = remainder n rest := by
  rw [remainder, length_append_div hn hline, Nat.succ_mul, Nat.add_comm, ← List.drop_drop, ← hline,
    List.drop_left]
  rfl

/-- Line by line: either there is no complete line, or there are a line and a rest. -/
theorem lines_induction (hn : 0 < n) {P : List α → Prop} (hshort : ∀ data, data.length < n → P data)
    (hline : ∀ line rest, line.length = n → P rest → P (line ++ rest)) (data : List α) : P data := by
  induction hlength : data.length using Nat.strongRecOn generalizing data with
  | _ length ih =>
      by_cases hlt : data.length < n
      · exact hshort data hlt
      · have htake : (data.take n).length = n := by
          rw [List.length_take]
          omega
        have hdrop : (data.drop n).length < length := by
          rw [List.length_drop]
          omega
        have hrest := hline (data.take n) (data.drop n) htake (ih _ hdrop _ rfl)
        rwa [List.take_append_drop] at hrest

/-- The lines of two pieces: those of the first, and those of what it leaves with the second. -/
theorem lines_append (hn : 0 < n) (data data' : List α) :
    lines n (data ++ data') = lines n data ++ lines n (remainder n data ++ data') := by
  induction data using lines_induction hn with
  | hshort data hlt => rw [lines_of_lt hlt, remainder_of_lt hlt, List.nil_append]
  | hline line rest hline ih =>
      rw [List.append_assoc, lines_append_of_length hn hline, lines_append_of_length hn hline,
        remainder_append_of_length hn hline, ih, List.cons_append]

theorem remainder_append (hn : 0 < n) (data data' : List α) :
    remainder n (data ++ data') = remainder n (remainder n data ++ data') := by
  induction data using lines_induction hn with
  | hshort data hlt => rw [remainder_of_lt hlt]
  | hline line rest hline ih =>
      rw [List.append_assoc, remainder_append_of_length hn hline,
        remainder_append_of_length hn hline, ih]

theorem length_remainder (n : Nat) (data : List α) : (remainder n data).length = data.length % n := by
  rw [remainder, List.length_drop, Nat.mod_eq_sub_div_mul]

theorem remainder_of_dvd {data : List α} (h : n ∣ data.length) : remainder n data = [] := by
  apply List.eq_nil_of_length_eq_zero
  rw [length_remainder, Nat.mod_eq_zero_of_dvd h]

theorem flatten_lines (hn : 0 < n) (data : List α) :
    (lines n data).flatten ++ remainder n data = data := by
  induction data using lines_induction hn with
  | hshort data hlt =>
      rw [lines_of_lt hlt, remainder_of_lt hlt]
      rfl
  | hline line rest hline ih =>
      rw [lines_append_of_length hn hline, remainder_append_of_length hn hline, List.flatten_cons,
        List.append_assoc, ih]

/-! ## Lines without their ends -/

/-- The column behind this one, in lines of `n`. -/
def wrap (n pos : Nat) : Nat := if pos = n then 0 else pos

/-- From this column on, the items in the first `m` columns of each line. -/
def crop (n m : Nat) : Nat → List α → List α
  | _, [] => []
  | pos, item :: rest => (if pos < m then [item] else []) ++ crop n m (wrap n (pos + 1)) rest

variable {m pos : Nat}

theorem wrap_of_lt (h : pos < n) : wrap n pos = pos := if_neg (Nat.ne_of_lt h)

/-- A piece that does not go beyond the end of its line. -/
theorem crop_append {piece : List α} (hpos : pos < n) (hend : pos + piece.length ≤ n)
    (rest : List α) :
    crop n m pos (piece ++ rest) =
      piece.take (m - pos) ++ crop n m (wrap n (pos + piece.length)) rest := by
  induction piece generalizing pos with
  | nil => rw [List.nil_append, List.take_nil, List.nil_append, List.length_nil, Nat.add_zero,
      wrap_of_lt hpos]
  | cons item piece ih =>
      rw [List.length_cons] at hend
      have hcolumn : pos + (item :: piece).length = pos + 1 + piece.length := by
        rw [List.length_cons]
        omega
      rw [List.cons_append, crop, hcolumn]
      have hitem : (item :: piece).take (m - pos) =
          (if pos < m then [item] else []) ++ piece.take (m - (pos + 1)) := by
        split_ifs with hvisible
        · rw [Nat.sub_add_eq, List.singleton_append, ← List.take_succ_cons,
            Nat.sub_add_cancel (Nat.sub_pos_of_lt hvisible)]
        · have hnone : m - pos = 0 := by omega
          have hnone' : m - (pos + 1) = 0 := by omega
          rw [hnone, hnone', List.take_zero, List.take_zero, List.nil_append]
      rw [hitem, List.append_assoc]
      congr 1
      by_cases hlast : pos + 1 = n
      · have hnil : piece = [] := List.eq_nil_of_length_eq_zero (by omega)
        rw [hnil, List.nil_append, List.take_nil, List.nil_append, List.length_nil, Nat.add_zero]
      · rw [wrap_of_lt (by omega)]
        exact ih (by omega) (by omega)

/-- Of complete lines the first `m` items each. -/
theorem crop_lines (hn : 0 < n) {data : List α} (h : n ∣ data.length) :
    crop n m 0 data = (lines n data).flatMap (List.take m) := by
  induction data using lines_induction hn with
  | hshort data hlt =>
      have hnil : data = [] := List.eq_nil_of_length_eq_zero (Nat.eq_zero_of_dvd_of_lt h hlt)
      rw [hnil, lines_of_lt hn]
      rfl
  | hline line rest hline ih =>
      have hrest : n ∣ rest.length := by
        rw [List.length_append, hline] at h
        exact (Nat.dvd_add_right (Nat.dvd_refl n)).mp h
      have hcolumn : wrap n (0 + line.length) = 0 := if_pos (by rw [hline, Nat.zero_add])
      rw [crop_append hn (by omega), hcolumn, ih hrest, lines_append_of_length hn hline,
        List.flatMap_cons, Nat.sub_zero]

/-- Nothing is cut off lines that are this short. -/
theorem crop_self (hn : 0 < n) {data : List α} (h : n ∣ data.length) : crop n n 0 data = data := by
  have htake : (lines n data).flatMap (List.take n) = (lines n data).flatten := by
    rw [List.flatMap_def, List.map_congr_left fun line hline =>
      List.take_of_length_le (Nat.le_of_eq (length_of_mem_lines hline)), List.map_id']
  have hall := flatten_lines hn data
  rw [remainder_of_dvd h, List.append_nil] at hall
  rw [crop_lines hn h, htake, hall]

end SaneBackends.Lib
