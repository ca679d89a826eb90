import Mathlib.Tactic
import SaneBackends.Lib.Transition
/-!
# The handle table of saned

`get_free_handle` and `close_handle` of `frontend/saned.c`, with the static
cursor `last_handle_checked`. The search loop is a `do … while` whose exit test
sits after the increment and whose wrap-around sits at the top of the next turn;
the model keeps that order, since it decides whether the loop ends.
-/

namespace SaneBackends.Saned

open SaneBackends.Lib

/-- `SANE_Handle`: an opaque backend pointer, `0` for `NULL`. -/
abbrev SaneHandle := Nat

/-- One slot of the table, `Handle` in the source. -/
structure Handle where
  inuse : Bool
  scanning : Bool
  docancel : Bool
  handle : SaneHandle
  deriving DecidableEq, Repr

/-- A slot after `memset`. -/
def Handle.zero : Handle := ⟨false, false, false, 0⟩

/-- `handle[0 .. num_handles)` and the static cursor of `get_free_handle`. -/
structure HandleTable where
  slots : List Handle
  lastHandleChecked : Int
  deriving DecidableEq, Repr

namespace HandleTable

/-- The table before the first allocation. -/
def empty : HandleTable := ⟨[], -1⟩

def numHandles (t : HandleTable) : Nat := t.slots.length

/-- `handle[h]`, with a free slot standing for anything outside the array. -/
def slot (t : HandleTable) (h : Nat) : Handle := t.slots.getD h Handle.zero

/-- `handle[h] = s`. -/
def setSlot (t : HandleTable) (h : Nat) (s : Handle) : HandleTable :=
  { t with slots := t.slots.set h s }

def allocIncrement : Nat := 16

/-- The growth step: `realloc` and `memset` of the new slots. -/
def grow (t : HandleTable) : HandleTable :=
  { slots := t.slots ++ List.replicate allocIncrement Handle.zero
    lastHandleChecked := (t.numHandles : Int) - 1 }

/-- The `do … while` loop of `get_free_handle`, from cursor `h`. `none` means the
fuel ran out, `some none` that the exit test ended the loop. -/
def search (t : HandleTable) : Nat → Nat → Option (Option Nat)
  | 0, _ => none
  | fuel + 1, h =>
      let h := if t.numHandles ≤ h then 0 else h
      if !(t.slot h).inuse then
        some (some h)
      else if ((h + 1 : Nat) : Int) ≠ t.lastHandleChecked then
        t.search fuel (h + 1)
      else
        some none

/-- The slot `get_free_handle` hands out: zeroed, then marked in use. -/
def take (t : HandleTable) (h : Nat) : HandleTable :=
  { slots := t.slots.set h { Handle.zero with inuse := true }
    lastHandleChecked := h }

/-- `get_free_handle`, recursion included. -/
def getFreeHandle : Nat → HandleTable → Option (Nat × HandleTable)
  | 0, _ => none
  | fuel + 1, t =>
      if 0 < t.numHandles then
        match t.search (fuel + 1) (t.lastHandleChecked + 1).toNat with
        | none => none
        | some (some h) => some (h, t.take h)
        | some none => getFreeHandle fuel t.grow
      else
        getFreeHandle fuel t.grow

/-- `close_handle`: the table afterwards and the handle passed to `sane_close`. -/
def closeHandle (t : HandleTable) (h : Int) : HandleTable × Option SaneHandle :=
  if 0 ≤ h ∧ (t.slot h.toNat).inuse then
    (t.setSlot h.toNat { t.slot h.toNat with inuse := false },
      some (t.slot h.toNat).handle)
  else
    (t, none)

@[simp] theorem numHandles_grow (t : HandleTable) :
    t.grow.numHandles = t.numHandles + allocIncrement := by
  simp [grow, numHandles]

@[simp] theorem numHandles_take (t : HandleTable) (h : Nat) :
    (t.take h).numHandles = t.numHandles := by
  simp [take, numHandles]

@[simp] theorem numHandles_setSlot (t : HandleTable) (h : Nat) (s : Handle) :
    (t.setSlot h s).numHandles = t.numHandles := by
  simp [setSlot, numHandles]

@[simp] theorem lastHandleChecked_setSlot (t : HandleTable) (h : Nat) (s : Handle) :
    (t.setSlot h s).lastHandleChecked = t.lastHandleChecked := rfl

theorem slot_of_le {t : HandleTable} {h : Nat} (hh : t.numHandles ≤ h) :
    t.slot h = Handle.zero := by
  have hh' : t.slots.length ≤ h := hh
  simp [slot, List.getElem?_eq_none hh']

theorem slot_setSlot_same {t : HandleTable} {h : Nat} (s : Handle) (hh : h < t.numHandles) :
    (t.setSlot h s).slot h = s := by
  have hh' : h < t.slots.length := hh
  simp [slot, setSlot, hh']

theorem slot_setSlot_ne {t : HandleTable} {h j : Nat} (s : Handle) (hj : j ≠ h) :
    (t.setSlot h s).slot j = t.slot j := by
  simp [slot, setSlot, List.getElem?_set_ne hj.symm]

theorem slot_take_same {t : HandleTable} {h : Nat} (hh : h < t.numHandles) :
    (t.take h).slot h = { Handle.zero with inuse := true } := by
  have hh' : h < t.slots.length := hh
  simp [slot, take, hh']

theorem slot_take_ne {t : HandleTable} {h j : Nat} (hj : j ≠ h) :
    (t.take h).slot j = t.slot j := by
  simp [slot, take, List.getElem?_set_ne hj.symm]

/-- Growing leaves the old slots alone; the new ones read as before, free. -/
@[simp] theorem slot_grow (t : HandleTable) (h : Nat) : t.grow.slot h = t.slot h := by
  by_cases hh : h < t.slots.length
  · simp [slot, grow, List.getElem?_append_left hh]
  · have hle : t.slots.length ≤ h := by omega
    rw [slot_of_le (t := t) hle]
    simp only [slot, grow, List.getD_eq_getElem?_getD, List.getElem?_append_right hle,
      List.getElem?_replicate]
    split_ifs <;> rfl

@[simp] theorem numHandles_closeHandle (t : HandleTable) (h : Int) :
    (t.closeHandle h).1.numHandles = t.numHandles := by
  unfold closeHandle
  split_ifs <;> simp

@[simp] theorem lastHandleChecked_closeHandle (t : HandleTable) (h : Int) :
    (t.closeHandle h).1.lastHandleChecked = t.lastHandleChecked := by
  unfold closeHandle
  split_ifs <;> rfl

/-! ## The search loop -/

/-- A successful search ends on a free slot of the table. -/
theorem search_sound {t : HandleTable} (hpos : 0 < t.numHandles) :
    ∀ (fuel h j : Nat), t.search fuel h = some (some j) →
      j < t.numHandles ∧ (t.slot j).inuse = false := by
  intro fuel
  induction fuel with
  | zero => intro h j hs; simp [search] at hs
  | succ fuel ih =>
      intro h j hs
      simp only [search] at hs
      set p := if t.numHandles ≤ h then 0 else h with hp
      have hlt : p < t.numHandles := by rw [hp]; split_ifs <;> omega
      split_ifs at hs with hfree hnext
      · simp only [Option.some.injEq] at hs
        subst hs
        exact ⟨hlt, by simpa using hfree⟩
      · exact ih _ _ hs
      · simp at hs

/-- With a free slot `j` the loop ends before it has gone once around. -/
theorem search_isSome_of_free {t : HandleTable} {j : Nat} (hj : j < t.numHandles)
    (hfree : (t.slot j).inuse = false) :
    ∀ (fuel h : Nat), h ≤ t.numHandles →
      (if h ≤ j then j + 1 - h else t.numHandles - h + j + 1) ≤ fuel →
      (t.search fuel h).isSome := by
  intro fuel
  induction fuel with
  | zero => intro h _ hd; split_ifs at hd <;> omega
  | succ fuel ih =>
      intro h hh hd
      simp only [search]
      set p := if t.numHandles ≤ h then 0 else h with hp
      by_cases hpj : p = j
      · simp [hpj, hfree]
      · split_ifs with hused hnext
        · rfl
        · apply ih
          · rw [hp]; split_ifs <;> omega
          · rw [hp] at hpj ⊢
            split_ifs at hd hpj ⊢ <;> omega
        · rfl

/-- With the cursor on a slot other than the first one the exit test is met
within one turn, whatever the slots hold. -/
theorem search_isSome_of_pos {t : HandleTable} {last : Nat}
    (hlast : t.lastHandleChecked = last) (hpos : 0 < last) (hlt : last < t.numHandles) :
    ∀ (fuel h : Nat), h ≤ t.numHandles →
      (if h < last then last - h else t.numHandles - h + last) ≤ fuel →
      (t.search fuel h).isSome := by
  intro fuel
  induction fuel with
  | zero => intro h _ hd; split_ifs at hd <;> omega
  | succ fuel ih =>
      intro h hh hd
      simp only [search, hlast]
      set p := if t.numHandles ≤ h then 0 else h with hp
      split_ifs with hused hnext
      · rfl
      · apply ih
        · rw [hp]; split_ifs <;> omega
        · rw [hp] at hnext ⊢
          split_ifs at hd hnext ⊢ <;> omega
      · rfl

/-- The state in which the loop never ends: cursor on slot `0`, no slot free. -/
def Stuck (t : HandleTable) : Prop :=
  t.lastHandleChecked = 0 ∧ 0 < t.numHandles ∧ ∀ h < t.numHandles, (t.slot h).inuse

instance (t : HandleTable) : Decidable t.Stuck :=
  inferInstanceAs (Decidable (_ ∧ _ ∧ _))

/-- In the stuck state the exit test compares `h ≥ 1` with `0` on every turn. -/
theorem search_eq_none_of_stuck {t : HandleTable} (hs : t.Stuck) :
    ∀ fuel h : Nat, t.search fuel h = none := by
  obtain ⟨hlast, hpos, hfull⟩ := hs
  intro fuel
  induction fuel with
  | zero => intro h; rfl
  | succ fuel ih =>
      intro h
      simp only [search, hlast]
      set p := if t.numHandles ≤ h then 0 else h with hp
      have hlt : p < t.numHandles := by rw [hp]; split_ifs <;> omega
      have hused : (t.slot p).inuse = true := hfull p hlt
      have hne : ((p + 1 : Nat) : Int) ≠ 0 := by omega
      rw [if_neg (by simp [hused]), if_pos hne, ih]

theorem getFreeHandle_eq_none_of_stuck {t : HandleTable} (hs : t.Stuck) (fuel : Nat) :
    getFreeHandle fuel t = none := by
  cases fuel with
  | zero => rfl
  | succ fuel =>
      rw [getFreeHandle, if_pos hs.2.1, search_eq_none_of_stuck hs]

/-- After growing, the first new slot is taken at once. -/
theorem getFreeHandle_grow (t : HandleTable) (fuel : Nat) :
    getFreeHandle (fuel + 1) t.grow = some (t.numHandles, t.grow.take t.numHandles) := by
  have hcur : (t.grow.lastHandleChecked + 1).toNat = t.numHandles := by
    simp [grow]
  have hfree : (t.grow.slot t.numHandles).inuse = false := by
    rw [slot_grow, slot_of_le (Nat.le_refl _)]; rfl
  have hlt : ¬ t.grow.numHandles ≤ t.numHandles := by simp [allocIncrement]
  have hsearch : t.grow.search (fuel + 1) t.numHandles = some (some t.numHandles) := by
    simp only [search, if_neg hlt, hfree]
    rfl
  rw [getFreeHandle, if_pos (by simp [allocIncrement]), hcur, hsearch]

/-! ## Allocation -/

/-- What one allocation may do: hand out a slot that was free or did not exist,
mark it, clear its flags, and leave every other slot as it was. -/
structure Allocates (t : HandleTable) (h : Nat) (t' : HandleTable) : Prop where
  index_lt : h < t'.numHandles
  was_free : (t.slot h).inuse = false
  marked : (t'.slot h).inuse = true
  scanning_cleared : (t'.slot h).scanning = false
  docancel_cleared : (t'.slot h).docancel = false
  others : ∀ j, j ≠ h → t'.slot j = t.slot j
  no_shrink : t.numHandles ≤ t'.numHandles

theorem allocates_take {t : HandleTable} {h : Nat} (hlt : h < t.numHandles)
    (hfree : (t.slot h).inuse = false) : Allocates t h (t.take h) where
  index_lt := by simpa using hlt
  was_free := hfree
  marked := by rw [slot_take_same hlt]
  scanning_cleared := by rw [slot_take_same hlt]; rfl
  docancel_cleared := by rw [slot_take_same hlt]; rfl
  others := fun _ hj => slot_take_ne hj
  no_shrink := by simp

theorem allocates_grow_take (t : HandleTable) :
    Allocates t t.numHandles (t.grow.take t.numHandles) := by
  have hlt : t.numHandles < t.grow.numHandles := by simp [allocIncrement]
  have hfree : (t.grow.slot t.numHandles).inuse = false := by
    rw [slot_grow, slot_of_le (Nat.le_refl _)]; rfl
  have h := allocates_take hlt hfree
  exact
    { h with
      was_free := by simpa using hfree
      others := fun j hj => by rw [h.others j hj, slot_grow]
      no_shrink := by simp }

/-- Whatever `get_free_handle` returns, it is a proper allocation, and the
cursor ends on the slot handed out. -/
theorem getFreeHandle_sound :
    ∀ (fuel : Nat) (t : HandleTable) (h : Nat) (t' : HandleTable),
      getFreeHandle fuel t = some (h, t') →
        Allocates t h t' ∧ t'.lastHandleChecked = h := by
  intro fuel t h t' hget
  have grown : ∀ n, getFreeHandle n t.grow = some (h, t') →
      Allocates t h t' ∧ t'.lastHandleChecked = h := by
    intro n hn
    cases n with
    | zero => simp [getFreeHandle] at hn
    | succ n =>
        rw [getFreeHandle_grow] at hn
        simp only [Option.some.injEq, Prod.mk.injEq] at hn
        obtain ⟨rfl, rfl⟩ := hn
        exact ⟨allocates_grow_take t, rfl⟩
  cases fuel with
  | zero => simp [getFreeHandle] at hget
  | succ fuel =>
      rw [getFreeHandle] at hget
      split_ifs at hget with hpos
      · cases hsearch : t.search (fuel + 1) (t.lastHandleChecked + 1).toNat with
        | none => simp [hsearch] at hget
        | some found =>
            cases found with
            | none => exact grown fuel (by simpa [hsearch] using hget)
            | some j =>
                simp only [hsearch, Option.some.injEq, Prod.mk.injEq] at hget
                obtain ⟨rfl, rfl⟩ := hget
                obtain ⟨hlt, hfree⟩ := search_sound hpos _ _ _ hsearch
                exact ⟨allocates_take hlt hfree, rfl⟩
      · exact grown fuel hget

/-- The cursor lies on a slot, or the table is still empty. -/
def Positioned (t : HandleTable) : Prop :=
  0 < t.numHandles → 0 ≤ t.lastHandleChecked ∧ t.lastHandleChecked < t.numHandles

/-- Away from the stuck state the loop is over after two turns of the table. -/
theorem getFreeHandle_isSome {t : HandleTable} (hp : t.Positioned) (hs : ¬ t.Stuck) :
    (getFreeHandle (2 * t.numHandles + 2) t).isSome := by
  rw [getFreeHandle]
  split_ifs with hpos
  · obtain ⟨hge, hlt⟩ := hp hpos
    obtain ⟨last, hlast⟩ := Int.eq_ofNat_of_zero_le hge
    have hcur : (t.lastHandleChecked + 1).toNat = last + 1 := by omega
    have hlast_lt : last < t.numHandles := by omega
    have hsome : (t.search (2 * t.numHandles + 2) (last + 1)).isSome := by
      by_cases hfull : ∀ h < t.numHandles, (t.slot h).inuse
      · have hlast_pos : 0 < last := by
          rcases Nat.eq_zero_or_pos last with h0 | h0
          · exact absurd ⟨by simpa [h0] using hlast, hpos, hfull⟩ hs
          · exact h0
        exact search_isSome_of_pos hlast hlast_pos hlast_lt _ _ hlast_lt
          (by split_ifs <;> omega)
      · push Not at hfull
        obtain ⟨j, hj, hfree⟩ := hfull
        exact search_isSome_of_free hj (by simpa using hfree) _ _ hlast_lt
          (by split_ifs <;> omega)
    rw [hcur]
    obtain ⟨found, hfound⟩ := Option.isSome_iff_exists.1 hsome
    rw [hfound]
    cases found with
    | none => simp [getFreeHandle_grow]
    | some j => rfl
  · simp [getFreeHandle_grow]

/-! ## Runs of allocations and releases -/

/-- What saned does with the table between two requests. `assign` is every write
to the flags or the backend handle of a slot, as by `start_scan` or
`SANE_NET_OPEN`; it never touches `inuse`. -/
inductive Op where
  | getFree
  | close (h : Int)
  | assign (h : Nat) (s : Handle)

/-- One operation on the table. -/
inductive Step : HandleTable → Op → HandleTable → Prop where
  | getFree {t t' : HandleTable} {fuel h : Nat} :
      getFreeHandle fuel t = some (h, t') → Step t .getFree t'
  | close {t : HandleTable} {h : Int} : Step t (.close h) (t.closeHandle h).1
  | assign {t : HandleTable} {h : Nat} {s : Handle} :
      s.inuse = (t.slot h).inuse → Step t (.assign h s) (t.setSlot h s)

/-- The table as the rest of saned drives it. -/
def tableSystem : System HandleTable Op where
  init := fun t => t = empty
  step := Step

theorem positioned_of_reachable {t : HandleTable} (h : tableSystem.Reachable t) :
    t.Positioned := by
  refine System.Reach.invariant (I := Positioned) ?_ ?_ h
  · rintro _ rfl hpos
    simp [empty, numHandles] at hpos
  · intro s op s' _ hpos _ hstep
    cases hstep with
    | getFree hget =>
        obtain ⟨halloc, hlast⟩ := getFreeHandle_sound _ _ _ _ hget
        intro _
        have := halloc.index_lt
        omega
    | close => simpa [Positioned] using hpos
    | assign => simpa [Positioned] using hpos

/-- `get_free_handle` does its job on a reachable table exactly when the table is
not full with the cursor on slot `0`; there it never returns. -/
theorem getFreeHandle_allocates_iff {t : HandleTable} (h : tableSystem.Reachable t) :
    (∃ fuel j t', getFreeHandle fuel t = some (j, t') ∧ Allocates t j t') ↔ ¬ t.Stuck := by
  constructor
  · rintro ⟨fuel, j, t', hget, -⟩ hs
    simp [getFreeHandle_eq_none_of_stuck hs] at hget
  · intro hs
    obtain ⟨⟨j, t'⟩, hget⟩ :=
      Option.isSome_iff_exists.1 (getFreeHandle_isSome (positioned_of_reachable h) hs)
    exact ⟨_, j, t', hget, (getFreeHandle_sound _ _ _ _ hget).1⟩

theorem getFreeHandle_allocates_empty :
    ∃ fuel j t', getFreeHandle fuel empty = some (j, t') ∧ Allocates empty j t' :=
  (getFreeHandle_allocates_iff (.start rfl)).2 (by decide)

/-- `n` allocations in a row. -/
def openTimes : Nat → HandleTable → HandleTable
  | 0, t => t
  | n + 1, t =>
      match getFreeHandle (2 * t.numHandles + 2) t with
      | some (_, t') => openTimes n t'
      | none => t

theorem reachable_openTimes (n : Nat) {t : HandleTable} (h : tableSystem.Reachable t) :
    tableSystem.Reachable (openTimes n t) := by
  induction n generalizing t with
  | zero => exact h
  | succ n ih =>
      rw [openTimes]
      cases hget : getFreeHandle (2 * t.numHandles + 2) t with
      | none => exact h
      | some r => exact ih (.next (i := .getFree) h trivial (.getFree hget))

/-- Sixteen opens, a close of handle `0`, and one more open: the table is full
and the cursor is back on slot `0`. -/
def reopenedFirst : HandleTable :=
  openTimes 1 ((openTimes 16 empty).closeHandle 0).1

theorem getFreeHandle_reopenedFirst :
    tableSystem.Reachable reopenedFirst ∧
      ¬ ∃ fuel j t', getFreeHandle fuel reopenedFirst = some (j, t') ∧
        Allocates reopenedFirst j t' := by
  constructor
  · have h16 := reachable_openTimes 16 (.start rfl : tableSystem.Reachable empty)
    have hclose : tableSystem.Reachable ((openTimes 16 empty).closeHandle 0).1 :=
      .next (i := .close 0) h16 trivial .close
    exact reachable_openTimes 1 hclose
  · rintro ⟨fuel, j, t', hget, -⟩
    have hs : reopenedFirst.Stuck := by decide
    simp [getFreeHandle_eq_none_of_stuck hs] at hget

end HandleTable

end SaneBackends.Saned
