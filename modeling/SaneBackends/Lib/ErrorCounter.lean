import Mathlib.Tactic
/-!
# Error counters

`big` things are dealt out over `small` places in equal shares: a counter starts at half of
`big`, goes up by `small` with each thing and down by `big` with each share. The shares begin
where the counter would, were it wide enough; in 32 bits it is wide enough if it fits.
-/

namespace SaneBackends.Lib

/-- How many things the first `k` shares have, `k * big / small` rounded down at the half. -/
def shareEnd (big small k : Nat) : Nat := (k * big - big / 2 + (small - 1)) / small

section Shares

variable {big small k m : Nat}

theorem shareEnd_le_iff (hsmall : 0 < small) :
    shareEnd big small k ≤ m ↔ k * big ≤ big / 2 + m * small := by
  rw [shareEnd, Nat.div_le_iff_le_mul_add_pred hsmall, Nat.mul_comm small]
  omega

theorem lt_shareEnd_iff (hsmall : 0 < small) :
    m < shareEnd big small k ↔ big / 2 + m * small < k * big := by
  rw [← Nat.not_le, shareEnd_le_iff hsmall, Nat.not_le]

@[simp] theorem shareEnd_zero (big small : Nat) : shareEnd big small 0 = 0 := by
  rw [shareEnd, Nat.zero_mul, Nat.zero_sub, Nat.zero_add]
  exact Nat.div_eq_zero_iff.mpr (by omega)

theorem shareEnd_all (hsmall : 0 < small) : shareEnd big small small ≤ big := by
  rw [shareEnd_le_iff hsmall, Nat.mul_comm]
  exact Nat.le_add_left _ _

/-- No share is empty. -/
theorem shareEnd_lt_succ (hsmall : 0 < small) (hle : small ≤ big) :
    shareEnd big small k < shareEnd big small (k + 1) := by
  rw [lt_shareEnd_iff hsmall, Nat.succ_mul]
  cases hend : shareEnd big small k with
  | zero =>
      rw [Nat.zero_mul]
      omega
  | succ m =>
      -- one thing less would not do
      have hless : big / 2 + m * small < k * big := by
        rw [← lt_shareEnd_iff hsmall, hend]
        exact Nat.lt_succ_self m
      rw [Nat.succ_mul]
      omega

theorem shareEnd_mono (hsmall : 0 < small) {j : Nat} (hle : j ≤ k) :
    shareEnd big small j ≤ shareEnd big small k := by
  rw [shareEnd_le_iff hsmall]
  calc j * big ≤ k * big := Nat.mul_le_mul_right _ hle
    _ ≤ _ := (shareEnd_le_iff hsmall).mp (Nat.le_refl _)

end Shares

/-! ## The counter -/

/-- The counter in 32 bits, after `m` things and `k` shares. -/
def errorCounter (big small k m : Nat) : UInt32 :=
  UInt32.ofNat (big / 2 + m * small) - UInt32.ofNat (k * big)

/-- Up to the end of share `k` the counter does not wrap. -/
def ShareFits (big small k : Nat) : Prop :=
  big / 2 + shareEnd big small (k + 1) * small < k * big + 2 ^ 32

section Counter

variable {big small k m : Nat}

theorem errorCounter_zero : errorCounter big small 0 0 = UInt32.ofNat (big / 2) := by
  rw [errorCounter, Nat.zero_mul, Nat.zero_mul, Nat.add_zero]
  exact UInt32.sub_zero _

theorem errorCounter_add :
    errorCounter big small k m + UInt32.ofNat small = errorCounter big small k (m + 1) := by
  rw [errorCounter, errorCounter, Nat.succ_mul, ← Nat.add_assoc, UInt32.ofNat_add _ small]
  grind

theorem errorCounter_sub :
    errorCounter big small k m - UInt32.ofNat big = errorCounter big small (k + 1) m := by
  rw [errorCounter, errorCounter, Nat.succ_mul, UInt32.ofNat_add _ big]
  grind

theorem toNat_errorCounter (hlo : k * big ≤ big / 2 + m * small)
    (hhi : big / 2 + m * small < k * big + 2 ^ 32) :
    (errorCounter big small k m).toNat = big / 2 + m * small - k * big := by
  rw [errorCounter, ← UInt32.ofNat_sub hlo]
  exact UInt32.toNat_ofNat_of_lt' (by rw [UInt32.size]; omega)

/-- Within a share the counter tells whether the share is complete. -/
theorem errorCounter_lt_iff (hsmall : 0 < small) (hfits : ShareFits big small k)
    (hlo : shareEnd big small k ≤ m) (hhi : m ≤ shareEnd big small (k + 1)) :
    (errorCounter big small k m).toNat < big ↔ m < shareEnd big small (k + 1) := by
  have hstart := (shareEnd_le_iff hsmall).mp hlo
  have hplace : m * small ≤ shareEnd big small (k + 1) * small := Nat.mul_le_mul_right _ hhi
  rw [toNat_errorCounter hstart (by rw [ShareFits] at hfits; omega), lt_shareEnd_iff hsmall,
    Nat.succ_mul]
  omega

/-- Where the two widths together fit into 32 bits, every share does. -/
theorem shareFits_of_le (hsmall : 0 < small) (hsum : big + small ≤ 2 ^ 32) :
    ShareFits big small k := by
  rw [ShareFits]
  cases hend : shareEnd big small (k + 1) with
  | zero =>
      rw [Nat.zero_mul]
      omega
  | succ m =>
      have hless : big / 2 + m * small < (k + 1) * big := by
        rw [← lt_shareEnd_iff hsmall, hend]
        exact Nat.lt_succ_self m
      rw [Nat.succ_mul] at hless ⊢
      omega

end Counter

end SaneBackends.Lib
