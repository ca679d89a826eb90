import SaneBackends.Saned.AccessDecision
/-!
# `saned.c`: the subnet checks

What is shifted, and where it is stored, while the masks of `check_v4_in_range` and
`check_v6_in_range` are built. Behind the bits of a full prefix both loops patch one more
place, which is outside of the mask.
-/

namespace SaneBackends.Saned

open SaneBackends.Lib SaneBackends.Sanei

/-- The values that `check_v4_in_range` shifts into its mask, each with its shift amount. -/
def v4Shifts : Nat → Int → List (BitVec 32 × Int)
  | cidr + 8, i => (0xff, 8 * i) :: v4Shifts cidr (i - 1)
  | cidr, i => [((cidrtomask cidr).setWidth 32, 8 * i)]

/-- `check_v4_in_range` is as it should be for two addresses: it says whether they agree on
the prefix, and no shift amount is beyond the word. -/
def V4Exact (r : Resolver) (name netmask : List UInt8) (cidr : Nat) (base sin : BitVec 32) : Prop :=
  (checkV4InRange r sin name netmask = true ↔ AgreeOn cidr base sin) ∧
    ∀ shift ∈ v4Shifts cidr 3, 0 ≤ shift.2 ∧ shift.2 ≤ 31

/-- `check_v6_in_range` is as it should be: it stays in the mask, and says whether the
addresses agree on the prefix. -/
def V6Exact (r : Resolver) (name netmask : List UInt8) (cidr : Nat) (base sin6 : BitVec 128) :
    Prop :=
  ∃ inRange, checkV6InRange r sin6 name netmask = .ok inRange ∧
    (inRange = true ↔ AgreeOn cidr base sin6)

/-- The mask is made of the shifted values. -/
theorem v4Mask_eq_shifts (cidr : Nat) (i : Int) :
    v4Mask cidr i.toNat =
      (v4Shifts cidr i).foldr (fun shift mask => shift.1 <<< shift.2.toNat ||| mask) 0 := by
  induction cidr, i using v4Shifts.induct with
  | case1 cidr i ih =>
      have hnext : i.toNat - 1 = (i - 1).toNat := by omega
      have hamount : 8 * i.toNat = (8 * i).toNat := by omega
      rw [v4Mask, v4Shifts, List.foldr_cons, hnext, hamount, ih]
      rfl
  | case2 cidr i hsmall =>
      have hamount : 8 * i.toNat = (8 * i).toNat := by omega
      rw [v4Mask, v4Shifts, List.foldr_cons, List.foldr_nil, hamount]
      · exact (BitVec.or_zero).symm
      · exact hsmall
      · exact hsmall

/-- Only the patch behind all four bytes is shifted by a negative amount. -/
theorem v4Shifts_inside_iff {cidr : Nat} (h : cidr ≤ 32) :
    (∀ shift ∈ v4Shifts cidr 3, 0 ≤ shift.2 ∧ shift.2 ≤ 31) ↔ cidr ≠ 32 := by
  have hall : ∀ n : Fin 33, (∀ shift ∈ v4Shifts n 3, 0 ≤ shift.2 ∧ shift.2 ≤ 31) ↔ n ≠ 32 := by
    decide
  have hcidr := hall ⟨cidr, by omega⟩
  rwa [Ne, Fin.ext_iff] at hcidr

section Accepted

variable {r : Resolver} {name netmask : List UInt8} {cidr : Nat}

/-- An accepted prefix length and a base address that is found are the only ones. -/
theorem ofAccepted_iff {α : Type} {bound : Nat} {found : Option α} {base : α}
    {p : Nat → α → Prop} (hcidr : readCidr bound netmask = some cidr) (hbase : found = some base) :
    (∃ n base, decimalNumber netmask = some n ∧ 0 ≤ cInt n ∧ cInt n ≤ bound ∧
      found = some base ∧ p (cInt n).toNat base) ↔ p cidr base := by
  obtain ⟨n, hnumber, hread, hbound⟩ := readCidr_eq_some.mp hcidr
  constructor
  · rintro ⟨n', base', hn, -, -, hb, hp⟩
    obtain rfl := Option.some.inj (hnumber.symm.trans hn)
    obtain rfl := Option.some.inj (hbase.symm.trans hb)
    rwa [hread, Int.toNat_natCast] at hp
  · intro hp
    exact ⟨n, base, hnumber, by omega, by omega, hbase, by rwa [hread, Int.toNat_natCast]⟩

theorem v4Exact_iff {base sin : BitVec 32} (hcidr : readCidr 32 netmask = some cidr)
    (hbase : r.numericInet name = some base) :
    V4Exact r name netmask cidr base sin ↔ cidr ≠ 32 := by
  obtain ⟨-, -, -, hbound⟩ := readCidr_eq_some.mp hcidr
  have hresult : checkV4InRange r sin name netmask = true ↔ AgreeOn cidr base sin :=
    checkV4InRange_iff.trans
      (ofAccepted_iff (p := fun n base => AgreeOn n base sin) hcidr hbase)
  rw [V4Exact, and_iff_right hresult, v4Shifts_inside_iff hbound]

theorem v6Exact_iff {base sin6 : BitVec 128} (hcidr : readCidr 128 netmask = some cidr)
    (hbase : r.numericInet6 name = some base) :
    V6Exact r name netmask cidr base sin6 ↔ cidr ≠ 128 := by
  constructor
  · rintro ⟨inRange, hok, -⟩ rfl
    have hfault : checkV6InRange r sin6 name netmask = .error .outOfBounds := by
      unfold checkV6InRange
      rw [hcidr]
      dsimp only
      rw [v6Mask_full]
      rfl
    rw [hfault] at hok
    cases hok
  · intro hne
    obtain ⟨n, hnumber, hread, -⟩ := readCidr_eq_some.mp hcidr
    have hbits : ∀ n', decimalNumber netmask = some n' → cInt n' ≠ 128 := by
      intro n' hn
      obtain rfl := Option.some.inj (hnumber.symm.trans hn)
      omega
    obtain ⟨inRange, hok, hiff⟩ := @checkV6InRange_ok r sin6 name netmask hbits
    exact ⟨inRange, hok, hiff.trans
      (ofAccepted_iff (p := fun n base => AgreeOn n base sin6) hcidr hbase)⟩

end Accepted

/-- For every two addresses and every prefix length that is accepted, both checks are as they
should be just if the prefix is not the whole address. -/
theorem subnetCheck_iff (r : Resolver) (name netmask : List UInt8) (cidr : Nat) :
    (∀ base sin, readCidr 32 netmask = some cidr → r.numericInet name = some base →
      (V4Exact r name netmask cidr base sin ↔ cidr ≠ 32)) ∧
    ∀ base sin6, readCidr 128 netmask = some cidr → r.numericInet6 name = some base →
      (V6Exact r name netmask cidr base sin6 ↔ cidr ≠ 128) :=
  ⟨fun _ _ hcidr hbase => v4Exact_iff hcidr hbase, fun _ _ hcidr hbase => v6Exact_iff hcidr hbase⟩

/-- A resolver of `10.0.0.0` and of `fe80::`. -/
def subnetResolver : Resolver where
  getnameinfo _ := none
  numericInet t := if t = baseText then some 0x0A000000 else none
  numericInet6 t :=
    if t = ascii ['f', 'e', '8', '0', ':', ':'] then some (0xFE80 <<< 112) else none
  getaddrinfo _ := .error .noname

/-- The peers 10.0.2.7 and fe80::7 in the ranges `10.0.0.0/10` and `fe80::/10`. -/
theorem subnetCheck_iff_ten :
    (V4Exact subnetResolver baseText (ascii ['1', '0']) 10 0x0A000000 0x0A000207 ↔ 10 ≠ 32) ∧
      (V6Exact subnetResolver (ascii ['f', 'e', '8', '0', ':', ':']) (ascii ['1', '0']) 10
        (0xFE80 <<< 112) (0xFE80 <<< 112 ||| 7) ↔ 10 ≠ 128) :=
  ⟨(subnetCheck_iff subnetResolver baseText (ascii ['1', '0']) 10).1 _ _ (by decide) (by decide),
    (subnetCheck_iff subnetResolver (ascii ['f', 'e', '8', '0', ':', ':']) (ascii ['1', '0']) 10).2
      _ _ (by decide) (by decide)⟩

/-- For `fe80::/128` the mask is written behind its last element. -/
theorem not_subnetCheck_whole :
    checkV6InRange subnetResolver (0xFE80 <<< 112) (ascii ['f', 'e', '8', '0', ':', ':'])
        (ascii ['1', '2', '8']) = .error .outOfBounds ∧
      ¬ ∀ cidr base sin6, readCidr 128 (ascii ['1', '2', '8']) = some cidr →
        subnetResolver.numericInet6 (ascii ['f', 'e', '8', '0', ':', ':']) = some base →
        V6Exact subnetResolver (ascii ['f', 'e', '8', '0', ':', ':']) (ascii ['1', '2', '8']) cidr
          base sin6 := by
  have hfault : checkV6InRange subnetResolver (0xFE80 <<< 112)
      (ascii ['f', 'e', '8', '0', ':', ':']) (ascii ['1', '2', '8']) = .error .outOfBounds := by
    decide
  refine ⟨hfault, fun hall => ?_⟩
  obtain ⟨inRange, hok, -⟩ := hall 128 _ (0xFE80 <<< 112) (by decide) rfl
  rw [hfault] at hok
  cases hok

end SaneBackends.Saned
