import Mathlib.Tactic
/-!
# Single bits of a byte

How code picks a bit of a byte, and how it sets or clears one.
-/

namespace SaneBackends.Lib

variable (byte : UInt8) {k i : Nat}

theorem getLsbD_bit (hk : k < 8) (hi : i < 8) :
    ((1 : UInt8) <<< UInt8.ofNat k).toBitVec.getLsbD i = decide (i = k) := by
  interval_cases k <;> interval_cases i <;> rfl

theorem getLsbD_shiftRight (hk : k < 8) (i : Nat) :
    (byte >>> UInt8.ofNat k).toBitVec.getLsbD i = byte.toBitVec.getLsbD (k + i) := by
  interval_cases k <;> simp

/-- `byte >> k & 1` -/
theorem pickedBit_eq (hk : k < 8) :
    (byte >>> UInt8.ofNat k) &&& 1 = if byte.toBitVec.getLsbD k then 1 else 0 := by
  apply UInt8.eq_of_toBitVec_eq
  apply BitVec.eq_of_getLsbD_eq
  intro i hi
  rw [UInt8.toBitVec_and, BitVec.getLsbD_and, getLsbD_shiftRight byte hk]
  rcases Nat.eq_zero_or_pos i with rfl | hpos
  · cases byte.toBitVec.getLsbD k <;> simp
  · cases byte.toBitVec.getLsbD k <;> simp [Nat.ne_of_gt hpos]

theorem pickedBit_ne_zero (hk : k < 8) :
    (byte >>> UInt8.ofNat k) &&& 1 ≠ 0 ↔ byte.toBitVec.getLsbD k = true := by
  rw [pickedBit_eq byte hk]
  split_ifs with hbit
  · simp [hbit]
  · simp [hbit]

theorem getLsbD_setBit (hk : k < 8) (hi : i < 8) :
    (byte ||| (1 : UInt8) <<< UInt8.ofNat k).toBitVec.getLsbD i =
      if i = k then true else byte.toBitVec.getLsbD i := by
  rw [UInt8.toBitVec_or, BitVec.getLsbD_or, getLsbD_bit hk hi]
  by_cases heq : i = k
  · simp [heq]
  · simp [heq]

theorem getLsbD_clearBit (hk : k < 8) (hi : i < 8) :
    (byte &&& ~~~((1 : UInt8) <<< UInt8.ofNat k)).toBitVec.getLsbD i =
      if i = k then false else byte.toBitVec.getLsbD i := by
  rw [UInt8.toBitVec_and, UInt8.toBitVec_not, BitVec.getLsbD_and, BitVec.getLsbD_not,
    getLsbD_bit hk hi]
  by_cases heq : i = k
  · simp [heq]
  · simp [heq, hi]

/-- `0x80 >> k` -/
theorem mask_eq (hk : k < 8) :
    (0x80 : UInt8) >>> UInt8.ofNat k = (1 : UInt8) <<< UInt8.ofNat (7 - k) := by
  interval_cases k <;> rfl

/-- Bit `k` of a byte, the first one highest. -/
def pixelBit (byte : UInt8) (k : Nat) : Bool := byte.toBitVec.getLsbD (7 - k)

theorem pixelBit_setMask (hk : k < 8) (hi : i < 8) :
    pixelBit (byte ||| (0x80 : UInt8) >>> UInt8.ofNat k) i =
      if i = k then true else pixelBit byte i := by
  rw [mask_eq hk, pixelBit, getLsbD_setBit byte (by omega) (by omega), pixelBit]
  exact if_congr (by omega) rfl rfl

theorem pixelBit_clearMask (hk : k < 8) (hi : i < 8) :
    pixelBit (byte &&& ~~~((0x80 : UInt8) >>> UInt8.ofNat k)) i =
      if i = k then false else pixelBit byte i := by
  rw [mask_eq hk, pixelBit, getLsbD_clearBit byte (by omega) (by omega), pixelBit]
  exact if_congr (by omega) rfl rfl

/-- Bits shifted into a byte from the right, one after another. -/
def shiftedIn (bit : Nat → Bool) : Nat → UInt8
  | 0 => 0
  | n + 1 => shiftedIn bit n <<< 1 ||| if bit n then 1 else 0

theorem shiftedIn_congr {bit bit' : Nat → Bool} {n : Nat} (h : ∀ k < n, bit k = bit' k) :
    shiftedIn bit n = shiftedIn bit' n := by
  induction n with
  | zero => rfl
  | succ n ih =>
      rw [shiftedIn, shiftedIn, ih fun k hk => h k (Nat.lt_succ_of_lt hk),
        h n (Nat.lt_succ_self n)]

end SaneBackends.Lib
