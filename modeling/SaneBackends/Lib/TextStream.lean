import SaneBackends.Lib.Decimal
/-!
# Formatted input

Words and decimal numbers in a stream of characters, with blanks between them, and how they are
read back: blanks before a word are skipped, what is behind it stays in the stream.
-/

namespace SaneBackends.Lib

/-! ## Reading -/

/-- `isspace`. -/
def isBlank (c : UInt8) : Bool := c == 32 || (9 ≤ c && c ≤ 13)

def skipBlanks (text : List UInt8) : List UInt8 := text.dropWhile isBlank

def isDecimalDigit (c : UInt8) : Bool := 48 ≤ c && c ≤ 57

/-- The next word, and what is behind it; none at the end. -/
def readWord (text : List UInt8) : Option (List UInt8 × List UInt8) :=
  let start := skipBlanks text
  let word := start.takeWhile (! isBlank ·)
  if word.isEmpty then none else some (word, start.dropWhile (! isBlank ·))

/-- A row of digits, its value, and what is behind it. -/
def readDigits (text : List UInt8) : Option (Nat × List UInt8) :=
  let digits := text.takeWhile isDecimalDigit
  if digits.isEmpty then none else some (decimalFold 0 digits, text.dropWhile isDecimalDigit)

/-- A number with or without a sign. -/
def readSigned (text : List UInt8) : Option (Int × List UInt8) :=
  let start := skipBlanks text
  if start.head? = some 45 then (readDigits start.tail).map fun p => (-(p.1 : Int), p.2)
  else if start.head? = some 43 then (readDigits start.tail).map fun p => ((p.1 : Int), p.2)
  else (readDigits start).map fun p => ((p.1 : Int), p.2)

/-! ## Writing -/

/-- A number, with a sign if it is negative. -/
def writeSigned (n : Int) : List UInt8 :=
  if n < 0 then 45 :: decimal n.natAbs else decimal n.natAbs

def Blanks (text : List UInt8) : Prop := ∀ c ∈ text, isBlank c = true

/-! ## Blanks -/

variable {text gap rest word : List UInt8}

theorem skipBlanks_append (hgap : Blanks gap) : skipBlanks (gap ++ rest) = skipBlanks rest := by
  rw [skipBlanks, List.dropWhile_append_of_pos hgap]
  rfl

theorem skipBlanks_of_head {c : UInt8} (hc : isBlank c = false) :
    skipBlanks (c :: rest) = c :: rest := by
  rw [skipBlanks, List.dropWhile_cons_of_neg (by rw [hc]; decide)]

theorem skipBlanks_skipBlanks (text : List UInt8) :
    skipBlanks (skipBlanks text) = skipBlanks text := by
  induction text with
  | nil => rfl
  | cons c text ih =>
      cases hc : isBlank c with
      | true =>
          have hskip : skipBlanks (c :: text) = skipBlanks text := List.dropWhile_cons_of_pos hc
          rw [hskip, ih]
      | false => rw [skipBlanks_of_head hc, skipBlanks_of_head hc]

theorem isBlank_of_isDecimalDigit {c : UInt8} (hc : isDecimalDigit c = true) : isBlank c = false := by
  rw [isDecimalDigit, Bool.and_eq_true, decide_eq_true_eq, decide_eq_true_eq] at hc
  obtain ⟨hlow, hhigh⟩ := hc
  rw [UInt8.le_iff_toNat_le] at hlow hhigh
  have hlow : 48 ≤ c.toNat := hlow
  rw [isBlank, Bool.or_eq_false_iff, beq_eq_false_iff_ne, Bool.and_eq_false_iff,
    decide_eq_false_iff_not, decide_eq_false_iff_not, UInt8.le_iff_toNat_le,
    UInt8.le_iff_toNat_le]
  constructor
  · rintro rfl
    exact absurd hlow (by decide)
  · right
    change ¬ c.toNat ≤ 13
    omega

/-! ## Words -/

/-- A word has no blank. -/
def IsWord (word : List UInt8) : Prop := word ≠ [] ∧ ∀ c ∈ word, isBlank c = false

theorem takeWhile_append_stop {p : UInt8 → Bool} {c : UInt8} (hword : ∀ d ∈ word, p d = true)
    (hc : p c = false) : (word ++ c :: rest).takeWhile p = word := by
  rw [List.takeWhile_append_of_pos hword, List.takeWhile_cons_of_neg (by rw [hc]; decide),
    List.append_nil]

theorem dropWhile_append_stop {p : UInt8 → Bool} {c : UInt8} (hword : ∀ d ∈ word, p d = true)
    (hc : p c = false) : (word ++ c :: rest).dropWhile p = c :: rest := by
  rw [List.dropWhile_append_of_pos hword, List.dropWhile_cons_of_neg (by rw [hc]; decide)]

/-- A word with a blank behind it is read back. -/
theorem readWord_append (hword : IsWord word) : readWord (word ++ 32 :: rest) =
    some (word, 32 :: rest) := by
  obtain ⟨hne, hblank⟩ := hword
  obtain ⟨c, tail, rfl⟩ := List.exists_cons_of_ne_nil hne
  have hstart : skipBlanks (c :: tail ++ 32 :: rest) = c :: tail ++ 32 :: rest :=
    skipBlanks_of_head (hblank c (List.mem_cons_self ..))
  have hword : ∀ d ∈ c :: tail, (! isBlank d) = true := fun d hd => by rw [hblank d hd]; rfl
  rw [readWord, hstart, takeWhile_append_stop hword rfl, dropWhile_append_stop hword rfl]
  rfl

/-- What is read is a word. -/
theorem readWord_isWord {behind : List UInt8} (h : readWord text = some (word, behind)) :
    IsWord word := by
  rw [readWord] at h
  split_ifs at h with hempty
  have hword := (Prod.mk.inj (Option.some.inj h)).1
  rw [List.isEmpty_iff, hword] at hempty
  refine ⟨hempty, fun c hc => ?_⟩
  rw [← hword] at hc
  have hall := List.all_takeWhile (l := skipBlanks text) (p := fun c => ! isBlank c)
  rw [List.all_eq_true] at hall
  exact (Bool.not_eq_true' _).mp (hall c hc)

/-! ## Numbers -/

theorem isDecimalDigit_of_mem {n : Nat} {c : UInt8} (hc : c ∈ decimal n) : isDecimalDigit c = true := by
  obtain ⟨hlow, hhigh⟩ := digit_of_mem_decimal hc
  rw [isDecimalDigit, Bool.and_eq_true]
  exact ⟨decide_eq_true hlow, decide_eq_true hhigh⟩

theorem readDigits_decimal (n : Nat) (rest : List UInt8) :
    readDigits (decimal n ++ 32 :: rest) =
    some (n, 32 :: rest) := by
  have hdigits : ∀ c ∈ decimal n, isDecimalDigit c = true := fun c hc => isDecimalDigit_of_mem hc
  have hsome : (decimal n).isEmpty = false := by
    rw [List.isEmpty_eq_false_iff]
    exact decimal_ne_nil n
  rw [readDigits, takeWhile_append_stop hdigits rfl, dropWhile_append_stop hdigits rfl,
    hsome, decimalFold_decimal]
  rfl

/-- A number with a blank behind it is read back. -/
theorem readSigned_writeSigned (n : Int) : readSigned (writeSigned n ++ 32 :: rest) =
    some (n, 32 :: rest) := by
  obtain ⟨c, tail, hcons⟩ := List.exists_cons_of_ne_nil (decimal_ne_nil n.natAbs)
  have hdigit : isDecimalDigit c = true :=
    isDecimalDigit_of_mem (n := n.natAbs) (by rw [hcons]; exact List.mem_cons_self ..)
  have hdigits := readDigits_decimal n.natAbs rest
  rw [writeSigned]
  split_ifs with hneg
  · have hstart : skipBlanks (45 :: decimal n.natAbs ++ 32 :: rest) =
        45 :: (decimal n.natAbs ++ 32 :: rest) := skipBlanks_of_head (by decide)
    have hsign : (45 :: (decimal n.natAbs ++ 32 :: rest)).head? = some (45 : UInt8) := rfl
    rw [readSigned, hstart, if_pos hsign, List.tail_cons, hdigits, Option.map_some, show -((n.natAbs : Nat) : Int) = n by omega]
  · have hstart : skipBlanks (decimal n.natAbs ++ 32 :: rest) = decimal n.natAbs ++ 32 :: rest := by
      rw [hcons]
      exact skipBlanks_of_head (isBlank_of_isDecimalDigit hdigit)
    have hhead : (decimal n.natAbs ++ 32 :: rest).head? = some c := by
      rw [hcons]
      rfl
    have hsign : ∀ sign : UInt8, isDecimalDigit sign = false → some c ≠ some sign := by
      intro sign hsign heq
      rw [← Option.some.inj heq, hdigit] at hsign
      cases hsign
    rw [readSigned, hstart, hhead, if_neg (hsign 45 rfl), if_neg (hsign 43 rfl), hdigits, Option.map_some,
      show ((n.natAbs : Nat) : Int) = n by omega]

theorem readSigned_skip (text : List UInt8) : readSigned (skipBlanks text) = readSigned text := by
  rw [readSigned, readSigned, skipBlanks_skipBlanks]

theorem readWord_skip (text : List UInt8) : readWord (skipBlanks text) = readWord text := by
  rw [readWord, readWord, skipBlanks_skipBlanks]

end SaneBackends.Lib
