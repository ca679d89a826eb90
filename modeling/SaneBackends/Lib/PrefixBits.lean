import Mathlib.Tactic
/-!
# Words that agree on their first bits

A mask of `n` leading ones compares two words on their first `n` bits, and a word is
compared on them byte by byte.
-/

namespace SaneBackends.Lib

/-- The first `n` bits, from the most significant one, are the same. -/
def AgreeOn {w : Nat} (n : Nat) (x y : BitVec w) : Prop :=
  ∀ i < n, x.getMsbD i = y.getMsbD i

instance {w : Nat} (n : Nat) (x y : BitVec w) : Decidable (AgreeOn n x y) :=
  inferInstanceAs (Decidable (∀ i < n, x.getMsbD i = y.getMsbD i))

/-- A word whose ones are its first `n` bits. -/
def IsPrefixMask {w : Nat} (n : Nat) (m : BitVec w) : Prop :=
  ∀ i < w, m.getMsbD i = decide (i < n)

instance {w : Nat} (n : Nat) (m : BitVec w) : Decidable (IsPrefixMask n m) :=
  inferInstanceAs (Decidable (∀ i < w, m.getMsbD i = decide (i < n)))

theorem and_eq_and_iff_agreeOn {w n : Nat} {m : BitVec w} (hmask : IsPrefixMask n m)
    (x y : BitVec w) : x &&& m = y &&& m ↔ AgreeOn n x y := by
  constructor
  · intro h i hi
    by_cases hw : i < w
    · have hbit := congrArg (·.getMsbD i) h
      simpa only [BitVec.getMsbD_and, hmask i hw, hi, decide_true, Bool.and_true] using hbit
    · rw [BitVec.getMsbD_of_ge x i (by omega), BitVec.getMsbD_of_ge y i (by omega)]
  · intro h
    refine BitVec.eq_of_getMsbD_eq fun i hi => ?_
    rw [BitVec.getMsbD_and, BitVec.getMsbD_and, hmask i hi]
    by_cases hn : i < n
    · rw [h i hn]
    · rw [decide_eq_false hn, Bool.and_false, Bool.and_false]

/-- Byte `i` of a word of `k` bytes, from the most significant one. -/
def byteAt {k : Nat} (x : BitVec (8 * k)) (i : Nat) : BitVec 8 :=
  x.extractLsb' (8 * (k - 1 - i)) 8

theorem getMsbD_byteAt {k : Nat} (x : BitVec (8 * k)) {i j : Nat} (hi : i < k) (hj : j < 8) :
    (byteAt x i).getMsbD j = x.getMsbD (8 * i + j) := by
  have hstart : 8 * (k - 1 - i) + 8 - j ≤ 8 * k := by omega
  have hbit : 8 * k - (8 * (k - 1 - i) + 8 - j) = 8 * i + j := by omega
  rw [byteAt, BitVec.getMsbD_extractLsb', decide_eq_true hj, decide_eq_true hstart, hbit,
    Bool.true_and, Bool.true_and]

theorem agreeOn_bytes {k : Nat} (n : Nat) (x y : BitVec (8 * k)) :
    (∀ i < k, AgreeOn (n - 8 * i) (byteAt x i) (byteAt y i)) ↔ AgreeOn n x y := by
  constructor
  · intro h b hb
    by_cases hk : b < 8 * k
    · have hi : b / 8 < k := by omega
      have hj : b % 8 < 8 := by omega
      have hbit := h (b / 8) hi (b % 8) (by omega)
      rwa [getMsbD_byteAt x hi hj, getMsbD_byteAt y hi hj, Nat.div_add_mod] at hbit
    · rw [BitVec.getMsbD_of_ge x b (by omega), BitVec.getMsbD_of_ge y b (by omega)]
  · intro h i hi j hj
    by_cases hj' : j < 8
    · rw [getMsbD_byteAt x hi hj', getMsbD_byteAt y hi hj']
      exact h (8 * i + j) (by omega)
    · rw [BitVec.getMsbD_of_ge _ j (by omega), BitVec.getMsbD_of_ge _ j (by omega)]

end SaneBackends.Lib
