import SaneBackends.Lib.Keyed
/-!
# Merging register setting sets

A set is merged into another with `set_value`, setting by setting. It passes on the address and
the value of each, and the mask stays behind.
-/

namespace SaneBackends.Genesys

open SaneBackends.Lib

variable {α : Type}

structure RegisterSetting (α : Type) where
  address : UInt16
  value : α
  mask : α
  deriving DecidableEq, Repr

structure RegisterSettingSet (α : Type) where
  registers : List (RegisterSetting α) := []
  deriving DecidableEq, Repr

namespace RegisterSettingSet

/-- The index, or none for -1. -/
def findRegIndex (set : RegisterSettingSet α) (address : UInt16) : Option Nat :=
  place RegisterSetting.address address set.registers

def pushBack (set : RegisterSettingSet α) (reg : RegisterSetting α) : RegisterSettingSet α where
  registers := set.registers ++ [reg]

/-- `find_reg`, or none where it throws. -/
def findReg (set : RegisterSettingSet α) (address : UInt16) : Option (RegisterSetting α) :=
  match set.findRegIndex address with
  | none => none
  | some index => set.registers[index]?

variable [OfNat α 0xff]

/-- A setting that is appended has the default mask. -/
def setValue (set : RegisterSettingSet α) (address : UInt16) (value : α) : RegisterSettingSet α :=
  match set.findRegIndex address with
  | some index => { registers := set.registers.modify index fun reg => { reg with value := value } }
  | none => set.pushBack ⟨address, value, 0xff⟩

def merge (set other : RegisterSettingSet α) : RegisterSettingSet α :=
  other.registers.foldl (fun set reg => set.setValue reg.address reg.value) set

end RegisterSettingSet

/-! ## Sets without an address that occurs twice -/

namespace RegisterSettingSet

def addresses (set : RegisterSettingSet α) : List UInt16 :=
  set.registers.map RegisterSetting.address

def Distinct (set : RegisterSettingSet α) : Prop := set.addresses.Nodup

/-- The settings of `a` are overridden by those of `b`, which come behind them. -/
structure Merges (a b merged : RegisterSettingSet α) : Prop where
  lookedUp : ∀ address, merged.findReg address = (b.findReg address).or (a.findReg address)
  distinct : merged.Distinct
  inOrder : merged.addresses = a.addresses ++ b.addresses.filter (· ∉ a.addresses)

/-- Each setting of `b` has the mask that `a` has for its address, or the default one. -/
def MasksKept [OfNat α 0xff] (a b : RegisterSettingSet α) : Prop :=
  ∀ reg ∈ b.registers, reg.mask = ((a.findReg reg.address).map RegisterSetting.mask).getD 0xff

variable {a b set : RegisterSettingSet α} {address : UInt16} {value : α} {reg : RegisterSetting α}

theorem findReg_eq (set : RegisterSettingSet α) (address : UInt16) :
    set.findReg address = lookup RegisterSetting.address address set.registers := by
  rw [findReg, findRegIndex]
  cases hplace : place RegisterSetting.address address set.registers with
  | none => exact (lookup_eq_none_iff.mpr (place_eq_none_iff.mp hplace)).symm
  | some index => exact getElem?_place hplace

theorem findReg_eq_none_iff : set.findReg address = none ↔ address ∉ set.addresses := by
  rw [findReg_eq, lookup_eq_none_iff, addresses]

theorem findReg_cons (reg : RegisterSetting α) (regs : List (RegisterSetting α))
    (address : UInt16) : findReg ⟨reg :: regs⟩ address =
      if reg.address = address then some reg else findReg ⟨regs⟩ address := by
  rw [findReg_eq, findReg_eq, lookup_cons]

theorem address_of_findReg (h : set.findReg address = some reg) : reg.address = address := by
  rw [findReg_eq] at h
  simpa using List.find?_some h

/-! ## One setting -/

section SetValue

variable [OfNat α 0xff]

/-- What is looked up behind `set_value` at its address. -/
def updated (set : RegisterSettingSet α) (address : UInt16) (value : α) : RegisterSetting α :=
  ⟨address, value, ((set.findReg address).map RegisterSetting.mask).getD 0xff⟩

theorem findReg_setValue (set : RegisterSettingSet α) (address : UInt16) (value : α)
    (address' : UInt16) : (set.setValue address value).findReg address' =
      if address' = address then some (set.updated address value) else set.findReg address' := by
  rw [setValue, findRegIndex, updated]
  cases hplace : place RegisterSetting.address address set.registers with
  | none =>
      have habsent := lookup_eq_none_iff.mpr (place_eq_none_iff.mp hplace)
      dsimp only [pushBack]
      rw [findReg_eq, findReg_eq, findReg_eq, lookup_concat, habsent]
      by_cases haddress : address' = address
      · rw [if_pos haddress, haddress, habsent, if_pos rfl]
        rfl
      · rw [if_neg haddress, if_neg (Ne.symm haddress), Option.or_none]
  | some index =>
      obtain ⟨reg, hreg, -, hat⟩ := exists_lookup_of_place hplace
      dsimp only
      rw [findReg_eq, findReg_eq, findReg_eq, hreg]
      refine (lookup_modify (g := fun reg => { reg with value := value }) (fun _ => rfl) hplace
        address').trans ?_
      rw [hreg]
      subst hat
      rfl

theorem addresses_setValue (set : RegisterSettingSet α) (address : UInt16) (value : α) :
    (set.setValue address value).addresses =
      set.addresses ++ if address ∈ set.addresses then [] else [address] := by
  rw [setValue, findRegIndex]
  cases hplace : place RegisterSetting.address address set.registers with
  | none =>
      have habsent : address ∉ set.addresses := place_eq_none_iff.mp hplace
      rw [if_neg habsent]
      exact List.map_append ..
  | some index =>
      have hpresent : address ∈ set.addresses := by
        by_contra hnot
        rw [place_eq_none_iff.mpr hnot] at hplace
        cases hplace
      rw [if_pos hpresent, List.append_nil]
      exact map_key_modify (g := fun reg : RegisterSetting α => { reg with value := value })
        (fun _ => rfl) ..

/-! ## All settings of the other set -/

/-- What is looked up at an address behind a merge. -/
def mergedReg (a b : RegisterSettingSet α) (address : UInt16) : Option (RegisterSetting α) :=
  match b.findReg address with
  | none => a.findReg address
  | some reg => some (a.updated reg.address reg.value)

theorem merge_cons (a : RegisterSettingSet α) (reg : RegisterSetting α)
    (regs : List (RegisterSetting α)) :
    a.merge ⟨reg :: regs⟩ = (a.setValue reg.address reg.value).merge ⟨regs⟩ := rfl

theorem findReg_merge (hb : b.Distinct) (address : UInt16) :
    (a.merge b).findReg address = mergedReg a b address := by
  obtain ⟨regs⟩ := b
  induction regs generalizing a with
  | nil => rfl
  | cons reg regs ih =>
      rw [Distinct, addresses, List.map_cons, List.nodup_cons] at hb
      rw [merge_cons, ih hb.2, mergedReg, mergedReg, findReg_cons]
      by_cases haddress : reg.address = address
      · -- no later setting is for the same address
        have hlater : findReg (⟨regs⟩ : RegisterSettingSet α) address = none :=
          findReg_eq_none_iff.mpr (haddress ▸ hb.1)
        rw [hlater, if_pos haddress]
        dsimp only
        rw [findReg_setValue, if_pos haddress.symm]
      · rw [if_neg haddress]
        cases hfound : findReg (⟨regs⟩ : RegisterSettingSet α) address with
        | none =>
            dsimp only
            rw [findReg_setValue, if_neg (Ne.symm haddress)]
        | some found =>
            have hat : found.address = address := address_of_findReg hfound
            dsimp only
            rw [updated, updated, findReg_setValue, if_neg (by rw [hat]; exact Ne.symm haddress)]

theorem addresses_merge (hb : b.Distinct) :
    (a.merge b).addresses = a.addresses ++ b.addresses.filter (· ∉ a.addresses) := by
  obtain ⟨regs⟩ := b
  induction regs generalizing a with
  | nil => exact (List.append_nil _).symm
  | cons reg regs ih =>
      rw [Distinct, addresses, List.map_cons, List.nodup_cons] at hb
      rw [merge_cons, ih hb.2, addresses_setValue, List.append_assoc]
      congr 1
      have hlater : ∀ address ∈ regs.map RegisterSetting.address, address ≠ reg.address := by
        rintro address hmem rfl
        exact hb.1 hmem
      have hfilter : (regs.map RegisterSetting.address).filter
          (· ∉ a.addresses ++ if reg.address ∈ a.addresses then [] else [reg.address]) =
            (regs.map RegisterSetting.address).filter (· ∉ a.addresses) := by
        refine List.filter_congr fun address hmem => ?_
        split_ifs <;> simp [hlater address hmem]
      change _ ++ (regs.map RegisterSetting.address).filter _ =
        (reg.address :: regs.map RegisterSetting.address).filter _
      rw [hfilter, List.filter_cons]
      by_cases hmem : reg.address ∈ a.addresses
      · simp [hmem]
      · simp [hmem]

theorem distinct_merge (ha : a.Distinct) (hb : b.Distinct) : (a.merge b).Distinct := by
  rw [Distinct, addresses_merge hb]
  refine List.Nodup.append ha (List.Nodup.filter _ hb) ?_
  intro address hmem hfilter
  simpa [hmem] using List.of_mem_filter hfilter

/-- A merge overrides the settings exactly if no mask of the other set is lost. -/
theorem merges_iff_masksKept (ha : a.Distinct) (hb : b.Distinct) :
    Merges a b (a.merge b) ↔ MasksKept a b := by
  constructor
  · intro h reg hmem
    have hfound : b.findReg reg.address = some reg := by
      rw [findReg_eq]
      exact (lookup_eq_some_iff hb).mpr ⟨hmem, rfl⟩
    have hlooked := h.lookedUp reg.address
    rw [findReg_merge hb, mergedReg, hfound, Option.some_or] at hlooked
    exact (congrArg RegisterSetting.mask (Option.some.inj hlooked)).symm
  · intro hkept
    refine ⟨?_, distinct_merge ha hb, addresses_merge hb⟩
    intro address
    rw [findReg_merge hb, mergedReg]
    cases hfound : b.findReg address with
    | none => rfl
    | some reg =>
        rw [findReg_eq] at hfound
        have hmask := hkept reg (List.mem_of_find?_eq_some hfound)
        dsimp only
        rw [updated, ← hmask]
        rfl

end SetValue

/-- A setting with half of its bits masked replaces one with all of them. -/
theorem not_merges_partialMask : ¬ ∀ a b : RegisterSettingSet UInt8,
    a.Distinct → b.Distinct → Merges a b (a.merge b) := by
  intro h
  have hlooked := (h ⟨[⟨0x10, 1, 0xff⟩]⟩ ⟨[⟨0x10, 2, 0x0f⟩]⟩ (List.nodup_singleton _)
    (List.nodup_singleton _)).lookedUp 0x10
  exact absurd hlooked (by decide)

theorem merges_iff_masksKept_fullMask :
    Merges (⟨[⟨0x10, 1, 0xff⟩]⟩ : RegisterSettingSet UInt8) ⟨[⟨0x11, 2, 0xff⟩, ⟨0x10, 3, 0xff⟩]⟩
        (merge ⟨[⟨0x10, 1, 0xff⟩]⟩ ⟨[⟨0x11, 2, 0xff⟩, ⟨0x10, 3, 0xff⟩]⟩) ↔
      MasksKept (⟨[⟨0x10, 1, 0xff⟩]⟩ : RegisterSettingSet UInt8)
        ⟨[⟨0x11, 2, 0xff⟩, ⟨0x10, 3, 0xff⟩]⟩ :=
  merges_iff_masksKept (List.nodup_singleton _) (show [(0x11 : UInt16), 0x10].Nodup by decide)

end RegisterSettingSet

end SaneBackends.Genesys
