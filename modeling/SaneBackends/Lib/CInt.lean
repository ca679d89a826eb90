import Mathlib.Tactic
/-!
# Fixed-width C integers

Conversions to the two integer types of an LP64 C compiler the sources convert
between: `int` (32 bit, signed) and `size_t` (64 bit, unsigned). Values are kept
as mathematical integers and converted where the source converts.
-/

namespace SaneBackends.Lib

/-- Conversion to `int`. -/
def toInt32 (x : Int) : Int := Int.bmod x (2 ^ 32)

/-- Conversion to `size_t`. -/
def toSize (x : Int) : Nat := (x % 2 ^ 64).toNat

def intMax : Nat := 2 ^ 31 - 1

theorem intMax_lt_iff {n : Nat} : intMax < n ↔ 2 ^ 31 ≤ n := by
  unfold intMax
  omega

theorem toInt32_eq_self {x : Int} (hlo : -2 ^ 31 ≤ x) (hhi : x < 2 ^ 31) : toInt32 x = x := by
  unfold toInt32
  rw [Int.bmod_def]
  split_ifs <;> omega

theorem toInt32_of_le {n : Nat} (h : n ≤ intMax) : toInt32 n = n := by
  unfold intMax at h
  exact toInt32_eq_self (by omega) (by omega)

theorem toInt32_lt (x : Int) : toInt32 x < 2 ^ 31 := by
  unfold toInt32
  rw [Int.bmod_def]
  split_ifs <;> omega

theorem le_toInt32 (x : Int) : -2 ^ 31 ≤ toInt32 x := by
  unfold toInt32
  rw [Int.bmod_def]
  split_ifs <;> omega

theorem toInt32_emod (x : Int) : toInt32 x % 2 ^ 32 = x % 2 ^ 32 := by
  unfold toInt32
  rw [Int.bmod_def]
  split_ifs <;> omega

theorem toInt32_eq_of_emod {x y : Int} (hlo : -2 ^ 31 ≤ y) (hhi : y < 2 ^ 31)
    (h : x % 2 ^ 32 = y % 2 ^ 32) : toInt32 x = y := by
  have hmod := toInt32_emod x
  have hx := toInt32_lt x
  have hx' := le_toInt32 x
  omega

end SaneBackends.Lib
