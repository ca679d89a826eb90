import SaneBackends.Lib.Calls
import SaneBackends.Lib.Keyed
import SaneBackends.Lib.LowerBound
/-!
# The register container

A vector of registers, kept in order of their addresses unless the container is `SEQUENTIAL`.
Under every sequence of calls it answers as a finite map does, and its registers are those of
the map in the order of the addresses or in the order in which they came.
-/

namespace SaneBackends.Genesys

open SaneBackends.Lib

variable {α : Type}

structure Register (α : Type) where
  address : UInt16
  value : α
  deriving DecidableEq, Repr

structure RegisterContainer (α : Type) where
  sorted : Bool := true
  registers : List (Register α) := []
  deriving DecidableEq, Repr

/-- "the register does not exist" -/
inductive RegisterError where
  | doesNotExist
  deriving DecidableEq, Repr

namespace RegisterContainer

/-- `RegisterContainer(opts)` -/
def withOptions (sequential : Bool) : RegisterContainer α where
  sorted := !sequential

/-- The index, or none for -1. -/
def findRegIndex (c : RegisterContainer α) (address : UInt16) : Option Nat :=
  if c.sorted then
    let it := lowerBound (fun reg => decide (reg.address < address)) c.registers 0
      c.registers.length
    match c.registers[it]? with
    | none => none
    | some reg => if reg.address ≠ address then none else some it
  else place Register.address address c.registers

/-- `std::sort` -/
def sort (registers : List (Register α)) : List (Register α) :=
  registers.mergeSort fun lhs rhs => decide (lhs.address ≤ rhs.address)

def hasReg (c : RegisterContainer α) (address : UInt16) : Bool := (c.findRegIndex address).isSome

def findReg (c : RegisterContainer α) (address : UInt16) : Except RegisterError (Register α) :=
  match c.findRegIndex address with
  | none => .error .doesNotExist
  | some i =>
      match c.registers[i]? with
      | none => .error .doesNotExist
      | some reg => .ok reg

/-- `find_reg(address).value = value` -/
def set (c : RegisterContainer α) (address : UInt16) (value : α) :
    Except RegisterError (RegisterContainer α) :=
  match c.findRegIndex address with
  | none => .error .doesNotExist
  | some i =>
      .ok { c with registers := c.registers.modify i fun reg => { reg with value := value } }

def get (c : RegisterContainer α) (address : UInt16) : Except RegisterError α :=
  (c.findReg address).map Register.value

def removeReg (c : RegisterContainer α) (address : UInt16) :
    Except RegisterError (RegisterContainer α) :=
  match c.findRegIndex address with
  | none => .error .doesNotExist
  | some i => .ok { c with registers := c.registers.eraseIdx i }

def initReg (c : RegisterContainer α) (address : UInt16) (defaultValue : α) :
    Except RegisterError (RegisterContainer α) :=
  if c.hasReg address then c.set address defaultValue
  else
    let registers := c.registers ++ [⟨address, defaultValue⟩]
    .ok { c with registers := if c.sorted then sort registers else registers }

def clear (c : RegisterContainer α) : RegisterContainer α := { c with registers := [] }

end RegisterContainer

/-! ## Calls -/

inductive RegisterCall (α : Type) where
  | initReg (address : UInt16) (defaultValue : α)
  | set (address : UInt16) (value : α)
  | get (address : UInt16)
  | hasReg (address : UInt16)
  | findReg (address : UInt16)
  | removeReg (address : UInt16)
  | clear
  deriving DecidableEq, Repr

/-- What a call returns. -/
inductive RegisterAnswer (α : Type) where
  | done
  | found (present : Bool)
  | value (value : α)
  | register (reg : Register α)
  | thrown (error : RegisterError)
  deriving DecidableEq, Repr

namespace RegisterContainer

/-- The container behind a call that changes it, or the one before a call that throws. -/
def changed (c : RegisterContainer α) :
    Except RegisterError (RegisterContainer α) → RegisterAnswer α × RegisterContainer α
  | .ok c' => (.done, c')
  | .error e => (.thrown e, c)

def call (c : RegisterContainer α) : RegisterCall α → RegisterAnswer α × RegisterContainer α
  | .initReg address defaultValue => c.changed (c.initReg address defaultValue)
  | .set address value => c.changed (c.set address value)
  | .get address =>
      match c.get address with
      | .ok value => (.value value, c)
      | .error e => (.thrown e, c)
  | .hasReg address => (.found (c.hasReg address), c)
  | .findReg address =>
      match c.findReg address with
      | .ok reg => (.register reg, c)
      | .error e => (.thrown e, c)
  | .removeReg address => c.changed (c.removeReg address)
  | .clear => (.done, c.clear)

end RegisterContainer

/-! ## The finite map -/

/-- A finite map from addresses to values, whose addresses are listed in the order in which they
were first initialised. -/
structure RegisterMap (α : Type) where
  value : UInt16 → Option α
  order : List UInt16

namespace RegisterMap

def empty : RegisterMap α := ⟨fun _ => none, []⟩

def put (m : RegisterMap α) (address : UInt16) (value : α) : RegisterMap α where
  value := Function.update m.value address (some value)
  order := if address ∈ m.order then m.order else m.order ++ [address]

def remove (m : RegisterMap α) (address : UInt16) : RegisterMap α where
  value := Function.update m.value address none
  order := m.order.erase address

/-- What a call at an absent address does, with what it does at a present one. -/
def atPresent (m : RegisterMap α) (address : UInt16)
    (present : α → RegisterAnswer α × RegisterMap α) : RegisterAnswer α × RegisterMap α :=
  match m.value address with
  | none => (.thrown .doesNotExist, m)
  | some value => present value

def call (m : RegisterMap α) : RegisterCall α → RegisterAnswer α × RegisterMap α
  | .initReg address defaultValue => (.done, m.put address defaultValue)
  | .set address value => m.atPresent address fun _ => (.done, m.put address value)
  | .get address => m.atPresent address fun value => (.value value, m)
  | .hasReg address => (.found (m.value address).isSome, m)
  | .findReg address => m.atPresent address fun value => (.register ⟨address, value⟩, m)
  | .removeReg address => m.atPresent address fun _ => (.done, m.remove address)
  | .clear => (.done, empty)

end RegisterMap

/-! ## Looking up -/

/-- Registers in increasing order of their addresses. -/
def InAddressOrder (registers : List (Register α)) : Prop :=
  registers.Pairwise fun lhs rhs => lhs.address < rhs.address

namespace RegisterContainer

variable {c c' : RegisterContainer α} {m m' : RegisterMap α} {address : UInt16} {value : α}
  {sequential : Bool}

/-- The binary search finds what the linear one does. -/
theorem findRegIndex_eq_place (h : c.sorted = true → InAddressOrder c.registers)
    (address : UInt16) : c.findRegIndex address = place Register.address address c.registers := by
  rw [findRegIndex]
  by_cases hsorted : c.sorted = true
  · rw [if_pos hsorted]
    have hbelow : c.registers.Pairwise fun x y =>
        decide (y.address < address) = true → decide (x.address < address) = true :=
      (h hsorted).imp fun hlt hbelow => by
        simp only [decide_eq_true_eq] at hbelow ⊢
        exact UInt16.lt_trans hlt hbelow
    have hparts := partitions_lowerBound hbelow
    dsimp only
    generalize lowerBound (fun reg => decide (reg.address < address)) c.registers 0
      c.registers.length = it at hparts
    have hbefore : ∀ (i : Nat) (hi : i < c.registers.length), i < it →
        c.registers[i].address ≠ address := by
      intro i hi hit heq
      have hbelow := hparts.before i hit _ (List.getElem?_eq_getElem hi)
      rw [heq, decide_eq_true_eq] at hbelow
      exact UInt16.lt_irrefl _ hbelow
    cases hat : c.registers[it]? with
    | none =>
        refine (place_eq_none_iff.mpr fun hmem => ?_).symm
        obtain ⟨i, hi, heq⟩ := List.mem_iff_getElem.mp hmem
        rw [List.length_map] at hi
        rw [List.getElem_map] at heq
        have hlen := List.getElem?_eq_none_iff.mp hat
        exact hbefore i hi (by omega) heq
    | some reg =>
        obtain ⟨hlt, rfl⟩ := List.getElem?_eq_some_iff.mp hat
        by_cases heq : c.registers[it].address = address
        · dsimp only
          rw [if_neg (not_not_intro heq)]
          refine (List.findIdx?_eq_some_iff_getElem.mpr ⟨hlt, decide_eq_true heq, ?_⟩).symm
          intro j hj
          rw [decide_eq_true_eq]
          exact hbefore j (by omega) hj
        · dsimp only
          rw [if_pos heq]
          refine (place_eq_none_iff.mpr fun hmem => ?_).symm
          obtain ⟨i, hi, hi'⟩ := List.mem_iff_getElem.mp hmem
          rw [List.length_map] at hi
          rw [List.getElem_map] at hi'
          have hnot := hparts.behind it (Nat.le_refl it) _ (List.getElem?_eq_getElem hlt)
          rw [decide_eq_false_iff_not] at hnot
          rcases Nat.lt_trichotomy i it with hlow | hmid | hhigh
          · exact hbefore i hi hlow hi'
          · subst hmid
            exact heq hi'
          · -- the registers behind have greater addresses than the one found
            have hgreater := List.pairwise_iff_getElem.mp (h hsorted) it i hlt hi hhigh
            rw [hi'] at hgreater
            exact hnot hgreater
  · rw [if_neg hsorted]

/-- The container is one of the registers of the map, in the order of its mode. -/
structure Holds (c : RegisterContainer α) (m : RegisterMap α) : Prop where
  distinct : (c.registers.map Register.address).Nodup
  inAddressOrder : c.sorted = true → InAddressOrder c.registers
  inInitOrder : c.sorted = false → c.registers.map Register.address = m.order
  lookedUp : ∀ address, (lookup Register.address address c.registers).map Register.value =
    m.value address
  listed : ∀ address, address ∈ m.order ↔ m.value address ≠ none
  listedOnce : m.order.Nodup

theorem holds_withOptions (sequential : Bool) :
    (withOptions sequential : RegisterContainer α).Holds .empty where
  distinct := List.nodup_nil
  inAddressOrder _ := List.Pairwise.nil
  inInitOrder _ := rfl
  lookedUp _ := rfl
  listed _ := iff_of_false List.not_mem_nil (not_not_intro rfl)
  listedOnce := List.nodup_nil

namespace Holds

theorem findRegIndex_eq (h : c.Holds m) (address : UInt16) :
    c.findRegIndex address = place Register.address address c.registers :=
  findRegIndex_eq_place h.inAddressOrder address

theorem lookup_eq_none (h : c.Holds m) (habsent : m.value address = none) :
    lookup Register.address address c.registers = none := by
  have hlooked := h.lookedUp address
  rwa [habsent, Option.map_eq_none_iff] at hlooked

theorem findRegIndex_eq_none (h : c.Holds m) (habsent : m.value address = none) :
    c.findRegIndex address = none := by
  rw [h.findRegIndex_eq, place_eq_none_iff, ← lookup_eq_none_iff]
  exact h.lookup_eq_none habsent

/-- A present address is at an index, and has the value of the map there. -/
theorem exists_findRegIndex (h : c.Holds m) (hpresent : m.value address = some value) :
    ∃ i, c.findRegIndex address = some i ∧
      place Register.address address c.registers = some i ∧
      c.registers[i]? = some ⟨address, value⟩ := by
  have hlooked := h.lookedUp address
  rw [hpresent, Option.map_eq_some_iff] at hlooked
  obtain ⟨reg, hreg, rfl⟩ := hlooked
  cases hplace : place Register.address address c.registers with
  | none =>
      rw [place_eq_none_iff, ← lookup_eq_none_iff, hreg] at hplace
      cases hplace
  | some i =>
      obtain ⟨reg', hreg', hat, haddress⟩ := exists_lookup_of_place hplace
      cases hreg.symm.trans hreg'
      refine ⟨i, (h.findRegIndex_eq address).trans hplace, rfl, ?_⟩
      rw [hat, ← haddress]

theorem hasReg_eq (h : c.Holds m) (address : UInt16) :
    c.hasReg address = (m.value address).isSome := by
  cases hvalue : m.value address with
  | none => rw [hasReg, h.findRegIndex_eq_none hvalue, Option.isSome_none, Option.isSome_none]
  | some value =>
      obtain ⟨i, hindex, -⟩ := h.exists_findRegIndex hvalue
      rw [hasReg, hindex, Option.isSome_some, Option.isSome_some]

theorem findReg_eq_error (h : c.Holds m) (habsent : m.value address = none) :
    c.findReg address = .error .doesNotExist := by
  rw [findReg, h.findRegIndex_eq_none habsent]

theorem findReg_eq_ok (h : c.Holds m) (hpresent : m.value address = some value) :
    c.findReg address = .ok ⟨address, value⟩ := by
  obtain ⟨i, hindex, -, hat⟩ := h.exists_findRegIndex hpresent
  rw [findReg, hindex]
  dsimp only
  rw [hat]

/-! ## What the calls that change the container leave -/

theorem set_ok (h : c.Holds m) (hpresent : m.value address = some value) (value' : α) :
    ∃ c', c.set address value' = .ok c' ∧ c'.Holds (m.put address value') := by
  obtain ⟨i, hindex, hplace, hat⟩ := h.exists_findRegIndex hpresent
  have hmem : address ∈ m.order := (h.listed address).mpr (by rw [hpresent]; exact Option.some_ne_none _)
  have horder : (m.put address value').order = m.order := if_pos hmem
  have haddresses : (c.registers.modify i fun reg => { reg with value := value' }).map
      Register.address = c.registers.map Register.address :=
    map_key_modify (g := fun reg : Register α => { reg with value := value' }) (fun _ => rfl) ..
  refine ⟨_, by rw [set, hindex], ?_, ?_, ?_, ?_, ?_, ?_⟩
  · rw [haddresses]
    exact h.distinct
  · intro hsorted
    have hordered := List.pairwise_map.mpr (h.inAddressOrder hsorted)
    rw [← haddresses] at hordered
    exact List.pairwise_map.mp hordered
  · intro hsorted
    rw [haddresses, horder]
    exact h.inInitOrder hsorted
  · intro address'
    rw [lookup_modify (g := fun reg : Register α => { reg with value := value' }) (fun _ => rfl)
      hplace]
    rw [getElem?_place hplace] at hat
    by_cases haddress : address' = address
    · rw [if_pos haddress, hat, haddress]
      exact (Function.update_self address (some value') m.value).symm
    · rw [if_neg haddress, h.lookedUp address']
      exact (Function.update_of_ne haddress (some value') m.value).symm
  · intro address'
    rw [horder, h.listed address']
    by_cases haddress : address' = address
    · rw [haddress, hpresent]
      refine iff_of_true (Option.some_ne_none _) ?_
      change Function.update m.value address (some value') address ≠ none
      rw [Function.update_self]
      exact Option.some_ne_none _
    · change _ ↔ Function.update m.value address (some value') address' ≠ none
      rw [Function.update_of_ne haddress]
  · rw [horder]
    exact h.listedOnce

/-- A register that is new comes last, unless the registers are sorted. -/
theorem initReg_new (h : c.Holds m) (habsent : m.value address = none) (value : α) :
    ∃ c', c.initReg address value = .ok c' ∧ c'.Holds (m.put address value) := by
  have hnot : address ∉ m.order := by
    rw [h.listed address]
    exact not_not_intro habsent
  have horder : (m.put address value).order = m.order ++ [address] := if_neg hnot
  have hlookup := h.lookup_eq_none habsent
  have hperm : (c.registers ++ [Register.mk address value]).Perm
      (if c.sorted then sort (c.registers ++ [Register.mk address value])
        else c.registers ++ [Register.mk address value]) := by
    split_ifs
    · exact (List.mergeSort_perm ..).symm
    · exact List.Perm.refl _
  have hdistinct : ((c.registers ++ [Register.mk address value]).map Register.address).Nodup := by
    rw [List.map_append]
    exact h.distinct.append (List.nodup_singleton _)
      (List.disjoint_singleton.mpr (lookup_eq_none_iff.mp hlookup))
  have hlooked : ∀ address', (lookup Register.address address'
      (c.registers ++ [Register.mk address value])).map Register.value =
        Function.update m.value address (some value) address' := by
    intro address'
    rw [lookup_concat]
    by_cases haddress : address' = address
    · rw [haddress, hlookup, if_pos rfl, Function.update_self]
      rfl
    · rw [if_neg (Ne.symm haddress), Option.or_none, Function.update_of_ne haddress]
      exact h.lookedUp address'
  refine ⟨_, by rw [initReg, hasReg, h.findRegIndex_eq_none habsent]; rfl, ?_, ?_, ?_, ?_, ?_, ?_⟩
  · exact (hperm.map _).nodup hdistinct
  · intro hsorted
    rw [if_pos hsorted]
    have hle := @List.pairwise_mergeSort _
      (fun lhs rhs : Register α => decide (lhs.address ≤ rhs.address))
      (fun a b c hab hbc => by
        simp only [decide_eq_true_eq] at hab hbc ⊢
        exact UInt16.le_trans hab hbc)
      (fun a b => by
        simp only [Bool.or_eq_true, decide_eq_true_eq]
        exact UInt16.le_total ..)
      (c.registers ++ [Register.mk address value])
    have hne : (sort (c.registers ++ [Register.mk address value])).Pairwise
        fun lhs rhs => lhs.address ≠ rhs.address :=
      List.pairwise_map.mp (((List.mergeSort_perm ..).symm.map Register.address).nodup hdistinct)
    refine (hle.and hne).imp ?_
    rintro lhs rhs ⟨hle, hne⟩
    exact UInt16.lt_of_le_of_ne (of_decide_eq_true hle) hne
  · intro hsorted
    have hunsorted : ¬ c.sorted = true := Bool.eq_false_iff.mp hsorted
    rw [if_neg hunsorted, List.map_append, h.inInitOrder hsorted, horder]
    rfl
  · intro address'
    rw [lookup_perm hdistinct hperm]
    exact hlooked address'
  · intro address'
    rw [horder, List.mem_append, List.mem_singleton, h.listed address']
    change _ ↔ Function.update m.value address (some value) address' ≠ none
    by_cases haddress : address' = address
    · rw [haddress, Function.update_self]
      exact iff_of_true (.inr rfl) (Option.some_ne_none _)
    · rw [Function.update_of_ne haddress, or_iff_left haddress]
  · rw [horder]
    exact h.listedOnce.append (List.nodup_singleton _) (List.disjoint_singleton.mpr hnot)

theorem removeReg_ok (h : c.Holds m) (hpresent : m.value address = some value) :
    ∃ c', c.removeReg address = .ok c' ∧ c'.Holds (m.remove address) := by
  obtain ⟨i, hindex, hplace, -⟩ := h.exists_findRegIndex hpresent
  have hlooked : ∀ address', (lookup Register.address address' (c.registers.eraseIdx i)).map
      Register.value = Function.update m.value address none address' := by
    intro address'
    rw [lookup_eraseIdx h.distinct hplace]
    by_cases haddress : address' = address
    · rw [if_pos haddress, haddress, Function.update_self]
      rfl
    · rw [if_neg haddress, Function.update_of_ne haddress]
      exact h.lookedUp address'
  refine ⟨_, by rw [removeReg, hindex], ?_, ?_, ?_, hlooked, ?_, ?_⟩
  · exact h.distinct.sublist ((List.eraseIdx_sublist ..).map _)
  · intro hsorted
    exact (h.inAddressOrder hsorted).sublist (List.eraseIdx_sublist ..)
  · intro hsorted
    change _ = m.order.erase address
    rw [← h.inInitOrder hsorted]
    exact map_eraseIdx_place hplace
  · intro address'
    change address' ∈ m.order.erase address ↔ Function.update m.value address none address' ≠ none
    rw [h.listedOnce.mem_erase_iff, h.listed address']
    by_cases haddress : address' = address
    · rw [haddress, Function.update_self]
      exact iff_of_false (fun hmem => hmem.1 rfl) (not_not_intro rfl)
    · rw [Function.update_of_ne haddress]
      exact and_iff_right haddress
  · exact h.listedOnce.erase address

end Holds

/-! ## Sequences of calls -/

/-- The container answers each call as the map does, and keeps its registers. -/
theorem simulates_call : Simulates (call (α := α)) RegisterMap.call Holds := by
  intro c m i h
  cases i with
  | initReg address value =>
      cases hvalue : m.value address with
      | none =>
          obtain ⟨c', hinit, hholds⟩ := h.initReg_new hvalue value
          simp only [call, RegisterMap.call, hinit, changed]
          exact ⟨trivial, hholds⟩
      | some old =>
          obtain ⟨c', hset, hholds⟩ := h.set_ok hvalue value
          have hinit : c.initReg address value = .ok c' := by
            rw [initReg, h.hasReg_eq, hvalue, Option.isSome_some, if_pos rfl, hset]
          simp only [call, RegisterMap.call, hinit, changed]
          exact ⟨trivial, hholds⟩
  | set address value =>
      cases hvalue : m.value address with
      | none =>
          have hset : c.set address value = .error .doesNotExist := by
            rw [set, h.findRegIndex_eq_none hvalue]
          simp only [call, RegisterMap.call, RegisterMap.atPresent, hset, hvalue, changed]
          exact ⟨trivial, h⟩
      | some old =>
          obtain ⟨c', hset, hholds⟩ := h.set_ok hvalue value
          simp only [call, RegisterMap.call, RegisterMap.atPresent, hset, hvalue, changed]
          exact ⟨trivial, hholds⟩
  | get address =>
      cases hvalue : m.value address with
      | none =>
          have hget : c.get address = .error .doesNotExist := by
            rw [get, h.findReg_eq_error hvalue]
            rfl
          simp only [call, RegisterMap.call, RegisterMap.atPresent, hvalue, hget]
          exact ⟨trivial, h⟩
      | some value =>
          have hget : c.get address = .ok value := by
            rw [get, h.findReg_eq_ok hvalue]
            rfl
          simp only [call, RegisterMap.call, RegisterMap.atPresent, hvalue, hget]
          exact ⟨trivial, h⟩
  | hasReg address => exact ⟨congrArg RegisterAnswer.found (h.hasReg_eq address), h⟩
  | findReg address =>
      cases hvalue : m.value address with
      | none =>
          simp only [call, RegisterMap.call, RegisterMap.atPresent, hvalue,
            h.findReg_eq_error hvalue]
          exact ⟨trivial, h⟩
      | some value =>
          simp only [call, RegisterMap.call, RegisterMap.atPresent, hvalue,
            h.findReg_eq_ok hvalue]
          exact ⟨trivial, h⟩
  | removeReg address =>
      cases hvalue : m.value address with
      | none =>
          have hremove : c.removeReg address = .error .doesNotExist := by
            rw [removeReg, h.findRegIndex_eq_none hvalue]
          simp only [call, RegisterMap.call, RegisterMap.atPresent, hremove, hvalue, changed]
          exact ⟨trivial, h⟩
      | some value =>
          obtain ⟨c', hremove, hholds⟩ := h.removeReg_ok hvalue
          simp only [call, RegisterMap.call, RegisterMap.atPresent, hremove, hvalue, changed]
          exact ⟨trivial, hholds⟩
  | clear =>
      refine ⟨rfl, List.nodup_nil, fun _ => List.Pairwise.nil, fun _ => rfl, fun _ => rfl, ?_,
        List.nodup_nil⟩
      exact fun _ => iff_of_false List.not_mem_nil (not_not_intro rfl)

@[simp] theorem sorted_call (c : RegisterContainer α) (i : RegisterCall α) :
    (c.call i).2.sorted = c.sorted := by
  cases i with
  | initReg address value =>
      simp only [call, initReg, set, changed]
      split_ifs
      · cases c.findRegIndex address <;> rfl
      · rfl
      · rfl
  | set address value =>
      simp only [call, set, changed]
      cases c.findRegIndex address <;> rfl
  | get address =>
      simp only [call]
      cases c.get address <;> rfl
  | hasReg address => rfl
  | findReg address =>
      simp only [call]
      cases c.findReg address <;> rfl
  | removeReg address =>
      simp only [call, removeReg, changed]
      cases c.findRegIndex address <;> rfl
  | clear => rfl

theorem sorted_calls (sequential : Bool) (is : List (RegisterCall α)) :
    (calls call (withOptions sequential) is).2.sorted = !sequential :=
  calls_invariant (I := fun c : RegisterContainer α => c.sorted = !sequential)
    (fun c i h => (sorted_call c i).trans h) rfl is

/-- A call that throws leaves the container as it was. -/
theorem call_of_thrown {i : RegisterCall α} {e : RegisterError} (h : (c.call i).1 = .thrown e) :
    (c.call i).2 = c := by
  have hchanged : ∀ {result : Except RegisterError (RegisterContainer α)},
      (c.changed result).1 = .thrown e → (c.changed result).2 = c := by
    intro result hthrown
    cases result with
    | error e => rfl
    | ok c' => cases hthrown
  cases i with
  | initReg address value => exact hchanged h
  | set address value => exact hchanged h
  | get address =>
      simp only [call]
      cases c.get address <;> rfl
  | hasReg address => rfl
  | findReg address =>
      simp only [call]
      cases c.findReg address <;> rfl
  | removeReg address => exact hchanged h
  | clear => cases h

/-- Behind a sequence of calls, the container is a finite map in the order of its mode. -/
structure RefinesMap (sequential : Bool) (is : List (RegisterCall α)) : Prop where
  answers : (calls call (withOptions sequential) is).1 = (calls RegisterMap.call .empty is).1
  distinct : ((calls call (withOptions sequential) is).2.registers.map Register.address).Nodup
  /-- An address is looked up where it is present, and throws where it is absent. -/
  lookedUp : ∀ address, (calls call (withOptions sequential) is).2.findReg address =
    match (calls RegisterMap.call .empty is).2.value address with
    | none => .error .doesNotExist
    | some value => .ok ⟨address, value⟩
  registered : ∀ address value,
    ⟨address, value⟩ ∈ (calls call (withOptions sequential) is).2.registers ↔
      (calls RegisterMap.call .empty is).2.value address = some value
  unchanged : ∀ i e, ((calls call (withOptions sequential) is).2.call i).1 = .thrown e →
    ((calls call (withOptions sequential) is).2.call i).2 =
      (calls call (withOptions sequential) is).2
  inAddressOrder : sequential = false →
    InAddressOrder (calls call (withOptions sequential) is).2.registers
  inInitOrder : sequential = true →
    (calls call (withOptions sequential) is).2.registers.map Register.address =
      (calls RegisterMap.call .empty is).2.order

theorem calls_refinesMap (sequential : Bool) (is : List (RegisterCall α)) :
    RefinesMap sequential is := by
  obtain ⟨hanswers, hholds⟩ :=
    (simulates_call (α := α)).calls (holds_withOptions sequential) is
  have hsorted := sorted_calls sequential is
  refine ⟨hanswers, hholds.distinct, ?_, ?_, fun _ _ => call_of_thrown, ?_, ?_⟩
  · intro address
    cases hvalue : (calls RegisterMap.call .empty is).2.value address with
    | none => exact hholds.findReg_eq_error hvalue
    | some value => exact hholds.findReg_eq_ok hvalue
  · intro address value
    rw [← hholds.lookedUp address, Option.map_eq_some_iff]
    constructor
    · intro hmem
      exact ⟨_, (lookup_eq_some_iff hholds.distinct).mpr ⟨hmem, rfl⟩, rfl⟩
    · rintro ⟨reg, hreg, rfl⟩
      obtain ⟨hmem, rfl⟩ := (lookup_eq_some_iff hholds.distinct).mp hreg
      exact hmem
  · rintro rfl
    exact hholds.inAddressOrder hsorted
  · rintro rfl
    exact hholds.inInitOrder hsorted

end RegisterContainer

end SaneBackends.Genesys
