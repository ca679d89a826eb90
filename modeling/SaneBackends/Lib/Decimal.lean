import Mathlib.Data.Nat.Digits.Lemmas
import Mathlib.Tactic
/-!
# Numbers in decimal

The ASCII digits of a natural number, the most significant first, and the number that a row of
digits stands for.
-/

namespace SaneBackends.Lib

/-- The digits of a number. -/
def decimal (n : Nat) : List UInt8 :=
  if n = 0 then [48] else (Nat.digits 10 n).reverse.map fun d => UInt8.ofNat (48 + d)

/-- The number that a row of digits stands for, behind the digits of `n`. -/
def decimalFold (n : Nat) (text : List UInt8) : Nat :=
  text.foldl (fun n c => n * 10 + (c.toNat - 48)) n

theorem toNat_digit {d : Nat} (hd : d < 10) : (UInt8.ofNat (48 + d)).toNat = 48 + d := by
  rw [UInt8.toNat_ofNat']
  omega

theorem decimal_of_lt {n : Nat} (hn : n < 10) : decimal n = [UInt8.ofNat (48 + n)] := by
  unfold decimal
  split_ifs with hzero
  · rw [hzero]
    rfl
  · rw [Nat.digits_of_lt 10 n hzero hn]
    rfl

/-- The last digit of a number behind those of its tenth. -/
theorem decimal_step {n : Nat} (hn : 10 ≤ n) :
    decimal n = decimal (n / 10) ++ [UInt8.ofNat (48 + n % 10)] := by
  unfold decimal
  rw [if_neg (by omega), if_neg (by omega), Nat.digits_def' (by decide) (by omega),
    List.reverse_cons, List.map_append]
  rfl

theorem length_decimal_le {n k : Nat} (hk : 0 < k) (hn : n < 10 ^ k) : (decimal n).length ≤ k := by
  unfold decimal
  split_ifs
  · exact hk
  · rw [List.length_map, List.length_reverse]
    exact (Nat.digits_length_le_iff (by decide) n).mpr hn

theorem decimal_ne_nil (n : Nat) : decimal n ≠ [] := by
  unfold decimal
  split_ifs with hn
  · simp
  · simpa [Nat.digits_eq_nil_iff_eq_zero] using hn

/-- Only digits are written. -/
theorem digit_of_mem_decimal {n : Nat} {c : UInt8} (hc : c ∈ decimal n) : 48 ≤ c ∧ c ≤ 57 := by
  unfold decimal at hc
  split_ifs at hc
  · rw [List.mem_singleton] at hc
    rw [hc]
    decide
  · obtain ⟨d, hd, rfl⟩ := List.mem_map.mp hc
    have hlt : d < 10 := Nat.digits_lt_base (by decide) (List.mem_reverse.mp hd)
    rw [UInt8.le_iff_toNat_le, UInt8.le_iff_toNat_le, toNat_digit hlt]
    constructor
    · exact Nat.le_add_right 48 d
    · change 48 + d ≤ 57
      omega

theorem decimalFold_digits (digits : List Nat) (hdigits : ∀ d ∈ digits, d < 10) :
    decimalFold 0 (digits.reverse.map fun d => UInt8.ofNat (48 + d)) = Nat.ofDigits 10 digits := by
  induction digits with
  | nil => rfl
  | cons d digits ih =>
      have hd : d < 10 := hdigits d (List.mem_cons_self ..)
      have hrest := ih fun d' hd' => hdigits d' (List.mem_cons_of_mem _ hd')
      unfold decimalFold at hrest ⊢
      rw [List.reverse_cons, List.map_append, List.foldl_append, hrest, Nat.ofDigits_cons]
      simp only [List.map_cons, List.map_nil, List.foldl_cons, List.foldl_nil, toNat_digit hd]
      omega

theorem le_decimalFold (n : Nat) (text : List UInt8) : n ≤ decimalFold n text := by
  induction text generalizing n with
  | nil => exact Nat.le_refl n
  | cons c text ih => exact (by omega : n ≤ n * 10 + (c.toNat - 48)).trans (ih _)

/-- The digits of a number stand for it. -/
theorem decimalFold_decimal (n : Nat) : decimalFold 0 (decimal n) = n := by
  unfold decimal
  split_ifs with hn
  · rw [hn]
    rfl
  · rw [decimalFold_digits _ fun d hd => Nat.digits_lt_base (by decide) hd, Nat.ofDigits_digits]

end SaneBackends.Lib
