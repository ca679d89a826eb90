import SaneBackends.Lib.Decimal
import SaneBackends.Saned.PortRange
/-!
# Numerals of `strtol`

A numeral is a row of decimal digits behind an optional sign. `strtol` reads one to its end,
whatever but a digit comes next.
-/

namespace SaneBackends.Saned

open SaneBackends.Lib SaneBackends.Sanei

inductive Sign where
  | absent | plus | minus
  deriving DecidableEq, Repr

def Sign.text : Sign → List UInt8
  | absent => []
  | plus => [43]
  | minus => [45]

def Sign.apply : Sign → Nat → Int
  | minus, n => -(n : Int)
  | _, n => n

structure Numeral where
  sign : Sign := .absent
  digits : List UInt8
  digits_ne_nil : digits ≠ []
  digit_of_mem : ∀ c ∈ digits, 48 ≤ c ∧ c ≤ 57

namespace Numeral

def text (numeral : Numeral) : List UInt8 := numeral.sign.text ++ numeral.digits

def value (numeral : Numeral) : Int := numeral.sign.apply (decimalFold 0 numeral.digits)

end Numeral

/-- The `long` that `strtol` returns for a number. -/
def clampLong (n : Int) : Int := max (-2 ^ 63) (min (2 ^ 63 - 1) n)

/-- No digit comes first. -/
def NoDigit (rest : List UInt8) : Prop := ∀ c ∈ rest.head?, ¬ (48 ≤ c ∧ c ≤ 57)

variable {c : UInt8} {text str rest : List UInt8} {val : Int}

/-! ## Digits -/

theorem digitValue_of_digit (hc : 48 ≤ c ∧ c ≤ 57) : digitValue c = c.toNat - 48 := by
  rw [digitValue, if_pos hc, UInt8.toNat_sub_of_le _ _ hc.1]
  rfl

theorem digitValue_lt_iff : digitValue c < 10 ↔ 48 ≤ c ∧ c ≤ 57 := by
  constructor
  · intro h
    by_contra hc
    rw [digitValue, if_neg hc] at h
    split_ifs at h <;> omega
  · intro hc
    have hle : c.toNat ≤ 57 := UInt8.le_iff_toNat_le.mp hc.2
    rw [digitValue_of_digit hc]
    omega

theorem foldl_digitValue (text : List UInt8) (htext : ∀ c ∈ text, 48 ≤ c ∧ c ≤ 57) (n : Nat) :
    text.foldl (fun n c => n * 10 + digitValue c) n = decimalFold n text := by
  induction text generalizing n with
  | nil => rfl
  | cons c text ih =>
      have hc := htext c (List.mem_cons_self ..)
      rw [List.foldl_cons, ih (fun d hd => htext d (List.mem_cons_of_mem _ hd)),
        digitValue_of_digit hc]
      rfl

theorem isspace_of_digit (hc : 48 ≤ c ∧ c ≤ 57) : isspace c = false := by
  have hlo : 48 ≤ c.toNat := UInt8.le_iff_toNat_le.mp hc.1
  simp only [isspace, Bool.or_eq_false_iff, Bool.and_eq_false_iff, beq_eq_false_iff_ne,
    decide_eq_false_iff_not, UInt8.le_iff_toNat_le]
  refine ⟨?_, .inr ?_⟩
  · rintro rfl
    exact absurd hlo (by decide)
  · change ¬ c.toNat ≤ 13
    omega

theorem no_sign_of_digit (hc : 48 ≤ c ∧ c ≤ 57) : c ≠ 45 ∧ c ≠ 43 := by
  constructor <;> rintro rfl <;> exact absurd hc (by decide)

theorem forall_digitValue_lt (htext : ∀ c ∈ text, 48 ≤ c ∧ c ≤ 57) :
    ∀ c ∈ text, (decide (digitValue c < 10)) = true :=
  fun c hc => decide_eq_true (digitValue_lt_iff.mpr (htext c hc))

theorem takeWhile_digits (htext : ∀ c ∈ text, 48 ≤ c ∧ c ≤ 57) (hrest : NoDigit rest) :
    (text ++ rest).takeWhile (fun c => digitValue c < 10) = text := by
  rw [List.takeWhile_append_of_pos (forall_digitValue_lt htext)]
  cases rest with
  | nil => exact List.append_nil _
  | cons c rest =>
      have hc : ¬ digitValue c < 10 := fun h => hrest c rfl (digitValue_lt_iff.mp h)
      rw [List.takeWhile_cons_of_neg (by simpa using hc), List.append_nil]

theorem dropWhile_digits (htext : ∀ c ∈ text, 48 ≤ c ∧ c ≤ 57) (hrest : NoDigit rest) :
    (text ++ rest).dropWhile (fun c => digitValue c < 10) = rest := by
  rw [List.dropWhile_append_of_pos (forall_digitValue_lt htext)]
  cases rest with
  | nil => rfl
  | cons c rest =>
      have hc : ¬ digitValue c < 10 := fun h => hrest c rfl (digitValue_lt_iff.mp h)
      exact List.dropWhile_cons_of_neg (by simpa using hc)

theorem digits_append (htext : ∀ c ∈ text, 48 ≤ c ∧ c ≤ 57) (hrest : NoDigit rest) :
    digits 10 (text ++ rest) = decimalFold 0 text := by
  rw [digits, takeWhile_digits htext hrest, foldl_digitValue text htext]

theorem dropWhile_digits_lt (hne : (text.takeWhile fun c => digitValue c < 10) ≠ []) :
    (text.dropWhile fun c => digitValue c < 10).length < text.length := by
  have hparts := congrArg List.length
    (List.takeWhile_append_dropWhile (p := fun c => decide (digitValue c < 10)) (l := text))
  have hpos := List.length_pos_of_ne_nil hne
  rw [List.length_append] at hparts
  omega

/-- A number that is read has a digit. -/
theorem strtolEnd_length_lt (h : strtolEnd str = some (val, rest)) : rest.length < str.length := by
  have hspace := (List.dropWhile_suffix isspace (l := str)).length_le
  unfold strtolEnd decimalNumber at h
  simp only [Option.map_eq_some_iff, Prod.mk.injEq] at h
  obtain ⟨n, hnum, -, rfl⟩ := h
  revert hnum hspace
  generalize str.dropWhile isspace = start
  intro hspace hnum
  cases start with
  | nil => cases hnum
  | cons c text =>
      rw [List.length_cons] at hspace
      by_cases hminus : c = 45
      · subst hminus
        have hne : (text.takeWhile fun c => digitValue c < 10) ≠ [] := by
          intro hnil
          simp [hnil] at hnum
        exact (dropWhile_digits_lt hne).trans hspace
      by_cases hplus : c = 43
      · subst hplus
        have hne : (text.takeWhile fun c => digitValue c < 10) ≠ [] := by
          intro hnil
          simp [hnil] at hnum
        exact (dropWhile_digits_lt hne).trans hspace
      have hne : ((c :: text).takeWhile fun c => digitValue c < 10) ≠ [] := by
        intro hnil
        simp [hminus, hplus, hnil] at hnum
      simpa [hminus, hplus] using lt_of_lt_of_le (dropWhile_digits_lt hne) hspace

/-! ## Numerals -/

namespace Numeral

/-- The number before it is clamped. -/
theorem decimalNumber_text (numeral : Numeral) (hrest : NoDigit rest) :
    decimalNumber (numeral.text ++ rest) = some numeral.value := by
  obtain ⟨sign, text, hne, hdigit⟩ := numeral
  have htake := takeWhile_digits hdigit hrest
  have hvalue := digits_append hdigit hrest
  cases sign with
  | minus | plus =>
      simp [decimalNumber, Numeral.text, value, Sign.text, Sign.apply, isspace, htake, hvalue, hne]
  | absent =>
      obtain ⟨c, text, rfl⟩ := List.exists_cons_of_ne_nil hne
      have hc := hdigit c (List.mem_cons_self ..)
      obtain ⟨hminus, hplus⟩ := no_sign_of_digit hc
      rw [List.cons_append] at htake hvalue
      simp [decimalNumber, Numeral.text, value, Sign.text, Sign.apply, isspace_of_digit hc, hminus,
        hplus, htake, hvalue]

/-- `strtol` reads a numeral to its end. -/
theorem strtolEnd_text (numeral : Numeral) (hrest : NoDigit rest) :
    strtolEnd (numeral.text ++ rest) = some (clampLong numeral.value, rest) := by
  rw [strtolEnd, decimalNumber_text numeral hrest]
  obtain ⟨sign, text, hne, hdigit⟩ := numeral
  have hdrop := dropWhile_digits hdigit hrest
  cases sign with
  | minus | plus => simp [Numeral.text, Sign.text, isspace, clampLong, hdrop]
  | absent =>
      obtain ⟨c, text, rfl⟩ := List.exists_cons_of_ne_nil hne
      have hc := hdigit c (List.mem_cons_self ..)
      obtain ⟨hminus, hplus⟩ := no_sign_of_digit hc
      rw [List.cons_append] at hdrop
      simp [Numeral.text, Sign.text, isspace_of_digit hc, clampLong, hminus, hplus, hdrop]

end Numeral

end SaneBackends.Saned
