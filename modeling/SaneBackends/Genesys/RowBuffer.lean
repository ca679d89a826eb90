import SaneBackends.Genesys.Session
import SaneBackends.Lib.Calls
import SaneBackends.Lib.Ring
/-!
# The row buffer of the genesys backend

The class `RowBuffer` over the contents of its `std::vector`, and the double-ended queue of
rows that it stands for. The allocations of the vector succeed, so that no `size_t` wraps.
-/

namespace SaneBackends.Genesys

open SaneBackends.Lib

/-! ## The code -/

structure RowBuffer (rowBytes : Nat) where
  first : Nat := 0
  last : Nat := 0
  bufferEnd : Nat := 0
  isLinear : Bool := true
  data : List UInt8 := []
  deriving DecidableEq, Repr

namespace RowBuffer

variable {rowBytes : Nat}

def empty (buf : RowBuffer rowBytes) : Bool := buf.isLinear && buf.first == buf.last

def height (buf : RowBuffer rowBytes) : Nat :=
  if !buf.isLinear then buf.last + buf.bufferEnd - buf.first else buf.last - buf.first

def heightCapacity (buf : RowBuffer rowBytes) : Nat := buf.bufferEnd

def getRowIndex (buf : RowBuffer rowBytes) (index : Nat) : Nat :=
  if buf.bufferEnd - buf.first ≤ index then index - (buf.bufferEnd - buf.first)
  else index + buf.first

/-- `get_row_ptr`: the place of the row in the vector. -/
def getRowPtr (buf : RowBuffer rowBytes) (y : Nat) : Except Failure Nat :=
  if buf.height ≤ y then .error (.saneException s!"y {y} is out of range")
  else .ok (rowBytes * buf.getRowIndex y)

/-- `std::rotate`, with the new first element given by its place. -/
def rotate (data : List UInt8) (newFirst : Nat) : List UInt8 :=
  data.drop newFirst ++ data.take newFirst

/-- `std::vector::resize`. -/
def resize (data : List UInt8) (size : Nat) : List UInt8 :=
  data.take size ++ List.replicate (size - data.length) 0

def linearize (buf : RowBuffer rowBytes) : RowBuffer rowBytes :=
  if !buf.isLinear then
    { buf with
      data := rotate buf.data (rowBytes * buf.first)
      last := buf.height
      first := 0
      isLinear := true }
  else buf

def ensureCapacity (buf : RowBuffer rowBytes) (capacity : Nat) : RowBuffer rowBytes :=
  if capacity < buf.heightCapacity then buf
  else
    let buf := buf.linearize
    { buf with data := resize buf.data (capacity * rowBytes), bufferEnd := capacity }

/-- What both pushes begin with. -/
def grow (buf : RowBuffer rowBytes) : RowBuffer rowBytes :=
  if buf.heightCapacity ≤ buf.height + 1 then buf.ensureCapacity (max 1 (buf.height * 2)) else buf

def pushBack (buf : RowBuffer rowBytes) : RowBuffer rowBytes :=
  let buf := buf.grow
  let buf := if buf.last = buf.bufferEnd then { buf with isLinear := false, last := 0 } else buf
  { buf with last := buf.last + 1 }

def pushFront (buf : RowBuffer rowBytes) : RowBuffer rowBytes :=
  let buf := buf.grow
  let buf := if buf.first = 0 then { buf with isLinear := false, first := buf.bufferEnd } else buf
  { buf with first := buf.first - 1 }

/-- An exception leaves the buffer as the code has made it up to there. -/
abbrev Outcome (σ : Type) := Except Failure Unit × σ

def popBack (buf : RowBuffer rowBytes) : Outcome (RowBuffer rowBytes) :=
  if buf.empty then (.error (.saneException "Trying to pop out of empty() line buffer"), buf)
  else
    let buf := if buf.last = 0 then { buf with last := buf.bufferEnd, isLinear := true } else buf
    let buf := { buf with last := buf.last - 1 }
    let buf :=
      if buf.first = buf.last then { buf with first := 0, last := 0, isLinear := true } else buf
    (.ok (), buf)

def popFront (buf : RowBuffer rowBytes) : Outcome (RowBuffer rowBytes) :=
  if buf.empty then (.error (.saneException "Trying to pop out of empty() line buffer"), buf)
  else
    let buf := { buf with first := buf.first + 1 }
    let buf :=
      if buf.first = buf.last then { buf with first := 0, last := 0, isLinear := true }
      else if buf.first = buf.bufferEnd then { buf with first := 0, isLinear := true }
      else buf
    (.ok (), buf)

/-- A byte of the row stored through `get_row_ptr`. -/
def write (buf : RowBuffer rowBytes) (y : Nat) (j : Fin rowBytes) (byte : UInt8) :
    Outcome (RowBuffer rowBytes) :=
  match buf.getRowPtr y with
  | .error failure => (.error failure, buf)
  | .ok ptr => (.ok (), { buf with data := buf.data.set (ptr + j) byte })

end RowBuffer

/-- What a client does with a row buffer. -/
inductive RowOp (rowBytes : Nat) where
  | pushBack | pushFront | popBack | popFront | linearize
  | write (y : Nat) (j : Fin rowBytes) (byte : UInt8)
  deriving DecidableEq, Repr

def RowBuffer.step {rowBytes : Nat} (buf : RowBuffer rowBytes) :
    RowOp rowBytes → RowBuffer.Outcome (RowBuffer rowBytes)
  | .pushBack => (.ok (), buf.pushBack)
  | .pushFront => (.ok (), buf.pushFront)
  | .popBack => buf.popBack
  | .popFront => buf.popFront
  | .linearize => (.ok (), buf.linearize)
  | .write y j byte => buf.write y j byte

/-! ## The queue it stands for -/

/-- The bytes of a row; `none` where nothing was written since the row was pushed. -/
abbrev QueuedRow (rowBytes : Nat) : Type := Fin rowBytes → Option UInt8

def QueuedRow.pushed (rowBytes : Nat) : QueuedRow rowBytes := fun _ => none

/-- What the operation does to a queue of rows. -/
def RowOp.onQueue {rowBytes : Nat} (rows : List (QueuedRow rowBytes)) :
    RowOp rowBytes → RowBuffer.Outcome (List (QueuedRow rowBytes))
  | .pushBack => (.ok (), rows ++ [QueuedRow.pushed rowBytes])
  | .pushFront => (.ok (), QueuedRow.pushed rowBytes :: rows)
  | .popBack =>
      if rows = [] then (.error (.saneException "Trying to pop out of empty() line buffer"), rows)
      else (.ok (), rows.dropLast)
  | .popFront =>
      match rows with
      | [] => (.error (.saneException "Trying to pop out of empty() line buffer"), rows)
      | _ :: rest => (.ok (), rest)
  | .linearize => (.ok (), rows)
  | .write y j byte =>
      if rows.length ≤ y then (.error (.saneException s!"y {y} is out of range"), rows)
      else (.ok (), rows.modify y (Function.update · j (some byte)))

/-! ## Layouts -/

namespace RowBuffer

variable {rowBytes : Nat} {buf : RowBuffer rowBytes}

/-- The layouts that the operations produce. A wrapped buffer with `first = last` is full, a
linear one is empty and then begins at the start. -/
structure Sound (buf : RowBuffer rowBytes) : Prop where
  size : buf.data.length = rowBytes * buf.bufferEnd
  linear : buf.isLinear = true →
    buf.last ≤ buf.bufferEnd ∧ (buf.first < buf.last ∨ buf.first = 0 ∧ buf.last = 0)
  wrapped : buf.isLinear = false → buf.last ≤ buf.first ∧ buf.first < buf.bufferEnd

/-- The byte `j` of row `y`. -/
def byteAt (buf : RowBuffer rowBytes) (y : Nat) (j : Fin rowBytes) : Option UInt8 :=
  buf.data[rowBytes * buf.getRowIndex y + j]?

theorem sound_fresh : Sound ({} : RowBuffer rowBytes) where
  size := rfl
  linear := fun _ => ⟨Nat.le_refl 0, .inr ⟨rfl, rfl⟩⟩
  wrapped := fun h => by cases h

namespace Sound

theorem first_le (h : Sound buf) : buf.first ≤ buf.bufferEnd := by
  cases hlinear : buf.isLinear with
  | true =>
      have hlayout := h.linear hlinear
      omega
  | false =>
      have hlayout := h.wrapped hlinear
      omega

theorem height_le (h : Sound buf) : buf.height ≤ buf.bufferEnd := by
  unfold height
  cases hlinear : buf.isLinear with
  | true =>
      have hlayout := h.linear hlinear
      simp only [Bool.not_true, Bool.false_eq_true, if_false]
      omega
  | false =>
      have hlayout := h.wrapped hlinear
      simp only [Bool.not_false, if_true]
      omega

theorem first_lt (h : Sound buf) (hheight : 0 < buf.height) : buf.first < buf.bufferEnd := by
  unfold height at hheight
  cases hlinear : buf.isLinear with
  | true =>
      have hlayout := h.linear hlinear
      simp only [hlinear, Bool.not_true, Bool.false_eq_true, if_false] at hheight
      omega
  | false => exact (h.wrapped hlinear).2

theorem empty_iff (h : Sound buf) : buf.empty = true ↔ buf.height = 0 := by
  unfold empty height
  cases hlinear : buf.isLinear with
  | true =>
      have hlayout := h.linear hlinear
      simp only [Bool.true_and, beq_iff_eq, Bool.not_true, Bool.false_eq_true, if_false]
      omega
  | false =>
      have hlayout := h.wrapped hlinear
      simp only [Bool.false_and, Bool.false_eq_true, false_iff, Bool.not_false, if_true]
      omega

theorem getRowIndex_eq (h : Sound buf) (y : Nat) :
    buf.getRowIndex y = ringIndex buf.bufferEnd buf.first y := by
  have hfirst := h.first_le
  unfold getRowIndex ringIndex
  split_ifs <;> omega

theorem getRowIndex_lt (h : Sound buf) {y : Nat} (hy : y < buf.height) :
    buf.getRowIndex y < buf.bufferEnd := by
  rw [h.getRowIndex_eq]
  have hheight := h.height_le
  exact ringIndex_lt (h.first_lt (by omega)) (by omega)

theorem getRowIndex_inj (h : Sound buf) {y z : Nat} (hy : y < buf.height) (hz : z < buf.height)
    (hindex : buf.getRowIndex y = buf.getRowIndex z) : y = z := by
  rw [h.getRowIndex_eq, h.getRowIndex_eq] at hindex
  have hheight := h.height_le
  exact ringIndex_inj (by omega) (by omega) hindex

theorem getRowIndex_of_linear (h : Sound buf) (hlinear : buf.isLinear = true) {y : Nat}
    (hy : y < buf.height) : buf.getRowIndex y = y + buf.first := by
  have hlayout := h.linear hlinear
  simp only [height, hlinear, Bool.not_true, Bool.false_eq_true, if_false] at hy
  unfold getRowIndex
  rw [if_neg (by omega)]

end Sound

/-! ## Rotation and growth -/

theorem place_lt {y rows : Nat} (hy : y < rows) (j : Fin rowBytes) :
    rowBytes * y + j < rowBytes * rows := by
  calc rowBytes * y + j < rowBytes * y + rowBytes := by omega
    _ = rowBytes * (y + 1) := by ring
    _ ≤ rowBytes * rows := Nat.mul_le_mul_left _ hy

/-- The buffer is laid out anew but holds the same rows. -/
structure Kept (buf buf' : RowBuffer rowBytes) : Prop where
  sound : Sound buf'
  height : buf'.height = buf.height
  byteAt : ∀ y < buf.height, ∀ j, buf'.byteAt y j = buf.byteAt y j

theorem Kept.refl (h : Sound buf) : Kept buf buf := ⟨h, rfl, fun _ _ _ => rfl⟩

theorem Kept.trans {buf₁ buf₂ buf₃ : RowBuffer rowBytes} (h : Kept buf₁ buf₂)
    (h' : Kept buf₂ buf₃) : Kept buf₁ buf₃ where
  sound := h'.sound
  height := h'.height.trans h.height
  byteAt := fun y hy j => (h'.byteAt y (h.height ▸ hy) j).trans (h.byteAt y hy j)

theorem length_rotate {data : List UInt8} (k : Nat) : (rotate data k).length = data.length := by
  simp only [rotate, List.length_append, List.length_drop, List.length_take]
  omega

/-- The rotated rows begin with row `first`. -/
theorem getElem?_rotate {data : List UInt8} {first rows y : Nat}
    (hlength : data.length = rowBytes * rows) (hfirst : first ≤ rows) (hy : y < rows)
    (j : Fin rowBytes) :
    (rotate data (rowBytes * first))[rowBytes * y + j]? =
      data[rowBytes * ringIndex rows first y + j]? := by
  have hdrop : (data.drop (rowBytes * first)).length = rowBytes * (rows - first) := by
    rw [List.length_drop, hlength, Nat.mul_sub]
  unfold rotate ringIndex
  by_cases hwrap : first + y < rows
  · have hplace := place_lt (show y < rows - first by omega) j
    rw [if_pos hwrap, List.getElem?_append_left (by omega), List.getElem?_drop, Nat.mul_add,
      Nat.add_assoc]
  · have hplace := place_lt (show first + y - rows < first by omega) j
    have hback : rowBytes * y = rowBytes * (first + y - rows) + rowBytes * (rows - first) := by
      rw [← Nat.mul_add]
      congr 1
      omega
    rw [if_neg hwrap, List.getElem?_append_right (by omega), hdrop, hback,
      show rowBytes * (first + y - rows) + rowBytes * (rows - first) + (j : Nat)
          - rowBytes * (rows - first) = rowBytes * (first + y - rows) + j by omega,
      List.getElem?_take_of_lt hplace]

theorem linearize_of_linear (hlinear : buf.isLinear = true) : buf.linearize = buf := by
  simp [linearize, hlinear]

theorem linearize_isLinear : buf.linearize.isLinear = true := by
  cases hlinear : buf.isLinear with
  | true => rw [linearize_of_linear hlinear, hlinear]
  | false => simp [linearize, hlinear]

@[simp] theorem linearize_bufferEnd : buf.linearize.bufferEnd = buf.bufferEnd := by
  unfold linearize
  split <;> rfl

theorem linearize_kept (h : Sound buf) : Kept buf buf.linearize := by
  cases hlinear : buf.isLinear with
  | true =>
      rw [linearize_of_linear hlinear]
      exact .refl h
  | false =>
      have hlayout := h.wrapped hlinear
      have hheight := h.height_le
      have heq : buf.linearize =
          { buf with
            data := rotate buf.data (rowBytes * buf.first)
            last := buf.height
            first := 0
            isLinear := true } := by
        simp [linearize, hlinear]
      have hpos : 0 < buf.height := by
        simp only [height, hlinear, Bool.not_false, if_true]
        omega
      rw [heq]
      refine ⟨⟨?_, fun _ => ⟨hheight, .inl hpos⟩, fun hwrapped => by cases hwrapped⟩, ?_, ?_⟩
      · rw [length_rotate]
        exact h.size
      · simp [height]
      · intro y hy j
        simp only [byteAt]
        rw [h.getRowIndex_eq, ← getElem?_rotate h.size h.first_le (by omega) j]
        simp only [getRowIndex, Nat.sub_zero, Nat.add_zero]
        rw [if_neg (by omega)]

theorem getElem?_resize {data : List UInt8} {size k : Nat} (hlength : data.length ≤ size)
    (hk : k < data.length) : (resize data size)[k]? = data[k]? := by
  rw [resize, List.take_of_length_le hlength, List.getElem?_append_left hk]

theorem length_resize {data : List UInt8} {size : Nat} (hlength : data.length ≤ size) :
    (resize data size).length = size := by
  simp only [resize, List.length_append, List.length_take, List.length_replicate]
  omega

theorem ensureCapacity_kept (h : Sound buf) (capacity : Nat) :
    Kept buf (buf.ensureCapacity capacity) := by
  unfold ensureCapacity heightCapacity
  by_cases hcapacity : capacity < buf.bufferEnd
  · rw [if_pos hcapacity]
    exact .refl h
  · rw [if_neg hcapacity]
    have hkept := linearize_kept h
    have hlinear := buf.linearize_isLinear
    have hlayout := hkept.sound.linear hlinear
    have hsize := hkept.sound.size
    have hend := buf.linearize_bufferEnd
    have hroom : buf.linearize.data.length ≤ capacity * rowBytes := by
      rw [hsize, Nat.mul_comm capacity]
      exact Nat.mul_le_mul_left _ (by omega)
    refine hkept.trans ⟨⟨?_, fun _ => ⟨?_, hlayout.2⟩, ?_⟩, ?_, ?_⟩
    · exact (length_resize hroom).trans (Nat.mul_comm _ _)
    · dsimp only
      omega
    · intro hwrapped
      rw [hlinear] at hwrapped
      cases hwrapped
    · simp [height, hlinear]
    · intro y hy j
      have hindex := hkept.sound.getRowIndex_of_linear hlinear hy
      have hinside := place_lt (hkept.sound.getRowIndex_lt hy) j
      rw [← hsize] at hinside
      have hsame : @RowBuffer.getRowIndex rowBytes
          { buf.linearize with
            data := resize buf.linearize.data (capacity * rowBytes)
            bufferEnd := capacity } y = buf.linearize.getRowIndex y := by
        simp only [height, hlinear, Bool.not_true, Bool.false_eq_true, if_false] at hy
        rw [hindex]
        unfold getRowIndex
        rw [if_neg (by dsimp only; omega)]
      simp only [byteAt, hsame]
      exact getElem?_resize hroom hinside

theorem ensureCapacity_bufferEnd {capacity : Nat} (hcapacity : buf.bufferEnd ≤ capacity) :
    (buf.ensureCapacity capacity).bufferEnd = capacity := by
  unfold ensureCapacity heightCapacity
  rw [if_neg (by omega)]

theorem grow_kept (h : Sound buf) : Kept buf buf.grow := by
  unfold grow
  split
  · exact ensureCapacity_kept h _
  · exact .refl h

/-- A push finds room for one more row. -/
theorem grow_height_lt (h : Sound buf) : buf.grow.height < buf.grow.bufferEnd := by
  rw [(grow_kept h).height]
  unfold grow heightCapacity
  have hheight := h.height_le
  by_cases hfull : buf.bufferEnd ≤ buf.height + 1
  · rw [if_pos hfull, ensureCapacity_bufferEnd (by omega)]
    omega
  · rw [if_neg hfull]
    omega

/-! ## The ends -/

theorem height_of_linear (hlinear : buf.isLinear = true) : buf.height = buf.last - buf.first := by
  simp [height, hlinear]

theorem height_of_wrapped (hlinear : buf.isLinear = false) :
    buf.height = buf.last + buf.bufferEnd - buf.first := by
  simp [height, hlinear]

theorem Sound.of_linear (hsize : buf.data.length = rowBytes * buf.bufferEnd)
    (hlinear : buf.isLinear = true) (hlast : buf.last ≤ buf.bufferEnd)
    (hrows : buf.first < buf.last ∨ buf.first = 0 ∧ buf.last = 0) : Sound buf where
  size := hsize
  linear := fun _ => ⟨hlast, hrows⟩
  wrapped := fun hwrapped => by
    rw [hlinear] at hwrapped
    cases hwrapped

theorem Sound.of_wrapped (hsize : buf.data.length = rowBytes * buf.bufferEnd)
    (hwrapped : buf.isLinear = false) (hlast : buf.last ≤ buf.first)
    (hfirst : buf.first < buf.bufferEnd) : Sound buf where
  size := hsize
  linear := fun hlinear => by
    rw [hwrapped] at hlinear
    cases hlinear
  wrapped := fun _ => ⟨hlast, hfirst⟩

/-- Over the same storage a row is found by its place in the ring. -/
theorem Sound.byteAt_congr {buf' : RowBuffer rowBytes} (h : Sound buf) (h' : Sound buf')
    (hdata : buf'.data = buf.data) (hend : buf'.bufferEnd = buf.bufferEnd) {y z : Nat}
    (hring : ringIndex buf.bufferEnd buf'.first y = ringIndex buf.bufferEnd buf.first z)
    (j : Fin rowBytes) : buf'.byteAt y j = buf.byteAt z j := by
  rw [byteAt, byteAt, h.getRowIndex_eq, h'.getRowIndex_eq, hend, hring, hdata]

theorem pushBack_spec (h : Sound buf) :
    Sound buf.pushBack ∧ buf.pushBack.height = buf.height + 1 ∧
      ∀ y < buf.height, ∀ j, buf.pushBack.byteAt y j = buf.byteAt y j := by
  have hkept := grow_kept h
  have hroom := grow_height_lt h
  have hsound := hkept.sound
  suffices hpush : Sound buf.pushBack ∧ buf.pushBack.height = buf.grow.height + 1 ∧
      ∀ y j, buf.pushBack.byteAt y j = buf.grow.byteAt y j by
    obtain ⟨hsound', hheight', hbytes⟩ := hpush
    exact ⟨hsound', hheight'.trans (congrArg (· + 1) hkept.height),
      fun y hy j => (hbytes y j).trans (hkept.byteAt y hy j)⟩
  unfold pushBack
  generalize buf.grow = grown at hroom hsound ⊢
  cases hlinear : grown.isLinear with
  | true =>
      have hlayout := hsound.linear hlinear
      rw [height_of_linear hlinear] at hroom ⊢
      by_cases hlast : grown.last = grown.bufferEnd
      · simp only [if_pos hlast]
        refine ⟨.of_wrapped hsound.size rfl ?_ ?_, ?_, fun _ _ => rfl⟩
        · dsimp only
          omega
        · dsimp only
          omega
        · rw [height_of_wrapped rfl]
          dsimp only
          omega
      · simp only [if_neg hlast]
        refine ⟨.of_linear hsound.size hlinear ?_ ?_, ?_, fun _ _ => rfl⟩
        · dsimp only
          omega
        · dsimp only
          omega
        · rw [height_of_linear (by exact hlinear)]
          dsimp only
          omega
  | false =>
      have hlayout := hsound.wrapped hlinear
      have hlast : grown.last ≠ grown.bufferEnd := by omega
      rw [height_of_wrapped hlinear] at hroom ⊢
      simp only [if_neg hlast]
      refine ⟨.of_wrapped hsound.size hlinear ?_ ?_, ?_, fun _ _ => rfl⟩
      · dsimp only
        omega
      · dsimp only
        omega
      · rw [height_of_wrapped (by exact hlinear)]
        dsimp only
        omega

theorem pushFront_spec (h : Sound buf) :
    Sound buf.pushFront ∧ buf.pushFront.height = buf.height + 1 ∧
      ∀ y < buf.height, ∀ j, buf.pushFront.byteAt (y + 1) j = buf.byteAt y j := by
  have hkept := grow_kept h
  have hroom := grow_height_lt h
  have hsound := hkept.sound
  suffices hpush : Sound buf.pushFront ∧ buf.pushFront.height = buf.grow.height + 1 ∧
      ∀ y < buf.grow.height, ∀ j, buf.pushFront.byteAt (y + 1) j = buf.grow.byteAt y j by
    obtain ⟨hsound', hheight', hbytes⟩ := hpush
    exact ⟨hsound', hheight'.trans (congrArg (· + 1) hkept.height),
      fun y hy j => (hbytes y (hkept.height ▸ hy) j).trans (hkept.byteAt y hy j)⟩
  unfold pushFront
  generalize buf.grow = grown at hroom hsound ⊢
  by_cases hfirst : grown.first = 0
  · have hfull : grown.height = grown.last := by
      cases hlinear : grown.isLinear with
      | true =>
          rw [height_of_linear hlinear]
          omega
      | false =>
          have hlayout := hsound.wrapped hlinear
          rw [height_of_wrapped hlinear] at hroom
          omega
    have hsound' : @Sound rowBytes
        { grown with isLinear := false, first := grown.bufferEnd - 1 } :=
      .of_wrapped hsound.size rfl (by dsimp only; omega) (by dsimp only; omega)
    simp only [if_pos hfirst]
    refine ⟨hsound', ?_, fun y hy => hsound.byteAt_congr hsound' rfl rfl ?_⟩
    · rw [height_of_wrapped rfl, hfull]
      dsimp only
      omega
    · unfold ringIndex
      dsimp only
      split_ifs <;> omega
  · have hsound' : @Sound rowBytes { grown with first := grown.first - 1 } := by
      cases hlinear : grown.isLinear with
      | true =>
          have hlayout := hsound.linear hlinear
          exact .of_linear hsound.size rfl (by dsimp only; omega) (by dsimp only; omega)
      | false =>
          have hlayout := hsound.wrapped hlinear
          rw [height_of_wrapped hlinear] at hroom
          exact .of_wrapped hsound.size rfl (by dsimp only; omega) (by dsimp only; omega)
    have hfirstLe := hsound.first_le
    simp only [if_neg hfirst]
    refine ⟨hsound', ?_, fun y hy => hsound.byteAt_congr hsound' rfl rfl ?_⟩
    · cases hlinear : grown.isLinear with
      | true =>
          have hlayout := hsound.linear hlinear
          rw [height_of_linear hlinear, height_of_linear rfl]
          dsimp only
          omega
      | false =>
          have hlayout := hsound.wrapped hlinear
          rw [height_of_wrapped hlinear, height_of_wrapped rfl]
          dsimp only
          omega
    · unfold ringIndex
      dsimp only
      split_ifs <;> omega

theorem height_pos_of_not_empty (h : Sound buf) (hempty : ¬ buf.empty = true) :
    0 < buf.height := by
  rw [h.empty_iff] at hempty
  omega

theorem sound_emptied (h : Sound buf) :
    @Sound rowBytes { buf with first := 0, last := 0, isLinear := true } :=
  .of_linear h.size rfl (Nat.zero_le _) (.inr ⟨rfl, rfl⟩)

theorem popBack_spec (h : Sound buf) (hempty : ¬ buf.empty = true) :
    ∃ buf', buf.popBack = (.ok (), buf') ∧ Sound buf' ∧ buf'.height = buf.height - 1 ∧
      ∀ y < buf.height - 1, ∀ j, buf'.byteAt y j = buf.byteAt y j := by
  have hpos := height_pos_of_not_empty h hempty
  refine ⟨_, by rw [popBack, if_neg hempty], ?_⟩
  cases hlinear : buf.isLinear with
  | true =>
      have hlayout := h.linear hlinear
      rw [height_of_linear hlinear] at hpos ⊢
      have hlast : buf.last ≠ 0 := by omega
      simp only [if_neg hlast]
      by_cases hone : buf.first = buf.last - 1
      · simp only [if_pos hone]
        refine ⟨sound_emptied h, ?_, fun y hy => by omega⟩
        rw [height_of_linear rfl]
        dsimp only
        omega
      · simp only [if_neg hone]
        refine ⟨.of_linear h.size hlinear (by dsimp only; omega) (by dsimp only; omega), ?_,
          fun _ _ _ => rfl⟩
        rw [height_of_linear (by exact hlinear)]
        dsimp only
        omega
  | false =>
      have hlayout := h.wrapped hlinear
      rw [height_of_wrapped hlinear] at hpos ⊢
      by_cases hlast : buf.last = 0
      · simp only [if_pos hlast]
        by_cases hone : buf.first = buf.bufferEnd - 1
        · simp only [if_pos hone]
          refine ⟨sound_emptied h, ?_, fun y hy => by omega⟩
          rw [height_of_linear rfl]
          dsimp only
          omega
        · simp only [if_neg hone]
          refine ⟨.of_linear h.size rfl (by dsimp only; omega) (by dsimp only; omega), ?_,
            fun _ _ _ => rfl⟩
          rw [height_of_linear rfl]
          dsimp only
          omega
      · have hone : buf.first ≠ buf.last - 1 := by omega
        simp only [if_neg hlast, if_neg hone]
        refine ⟨.of_wrapped h.size hlinear (by dsimp only; omega) (by dsimp only; omega), ?_,
          fun _ _ _ => rfl⟩
        rw [height_of_wrapped (by exact hlinear)]
        dsimp only
        omega

theorem popFront_spec (h : Sound buf) (hempty : ¬ buf.empty = true) :
    ∃ buf', buf.popFront = (.ok (), buf') ∧ Sound buf' ∧ buf'.height = buf.height - 1 ∧
      ∀ y < buf.height - 1, ∀ j, buf'.byteAt y j = buf.byteAt (y + 1) j := by
  have hpos := height_pos_of_not_empty h hempty
  have hfirst := h.first_lt hpos
  refine ⟨_, by rw [popFront, if_neg hempty], ?_⟩
  by_cases hone : buf.first + 1 = buf.last
  · have hlinear : buf.isLinear = true := by
      by_contra hwrapped
      have hlayout := h.wrapped (by simpa using hwrapped)
      omega
    rw [height_of_linear hlinear]
    simp only [if_pos hone]
    refine ⟨sound_emptied h, ?_, fun y hy => by omega⟩
    rw [height_of_linear rfl]
    dsimp only
    omega
  · simp only [if_neg hone]
    by_cases hend : buf.first + 1 = buf.bufferEnd
    · have hwrapped : buf.isLinear = false := by
        by_contra hlinear
        have hlayout := h.linear (by simpa using hlinear)
        rw [height_of_linear (by simpa using hlinear)] at hpos
        omega
      have hlayout := h.wrapped hwrapped
      rw [height_of_wrapped hwrapped] at hpos ⊢
      have hsound' : @Sound rowBytes
          { buf with first := 0, isLinear := true } :=
        .of_linear h.size rfl (by dsimp only; omega) (by dsimp only; omega)
      simp only [if_pos hend]
      refine ⟨hsound', ?_, fun y hy => h.byteAt_congr hsound' rfl rfl ?_⟩
      · rw [height_of_linear rfl]
        dsimp only
        omega
      · unfold ringIndex
        dsimp only
        split_ifs <;> omega
    · have hsound' : @Sound rowBytes { buf with first := buf.first + 1 } := by
        cases hlinear : buf.isLinear with
        | true =>
            have hlayout := h.linear hlinear
            rw [height_of_linear hlinear] at hpos
            exact .of_linear h.size rfl (by dsimp only; omega) (by dsimp only; omega)
        | false =>
            have hlayout := h.wrapped hlinear
            exact .of_wrapped h.size rfl (by dsimp only; omega) (by dsimp only; omega)
      have hheight := h.height_le
      simp only [if_neg hend]
      refine ⟨hsound', ?_, fun y hy => h.byteAt_congr hsound' rfl rfl ?_⟩
      · cases hlinear : buf.isLinear with
        | true =>
            rw [height_of_linear hlinear, height_of_linear rfl]
            dsimp only
            omega
        | false =>
            rw [height_of_wrapped hlinear, height_of_wrapped rfl]
            dsimp only
            omega
      · unfold ringIndex
        dsimp only
        split_ifs <;> omega

/-! ## Stores -/

/-- Bytes of different rows, and different bytes of one row, have different places. -/
theorem place_inj {y z : Nat} {j k : Fin rowBytes}
    (h : rowBytes * y + j = rowBytes * z + k) : y = z ∧ j = k := by
  have hyz : y = z := by
    by_contra hne
    cases Nat.lt_or_gt_of_ne hne with
    | inl hlt =>
        have hplace := place_lt hlt j
        omega
    | inr hgt =>
        have hplace := place_lt hgt k
        omega
  subst hyz
  exact ⟨rfl, Fin.ext (by omega)⟩

theorem write_spec (h : Sound buf) {y : Nat} (hy : y < buf.height) (j : Fin rowBytes)
    (byte : UInt8) :
    ∃ buf', buf.write y j byte = (.ok (), buf') ∧ Sound buf' ∧ buf'.height = buf.height ∧
      ∀ z < buf.height, ∀ k,
        buf'.byteAt z k = if y = z ∧ j = k then some byte else buf.byteAt z k := by
  have hptr : buf.getRowPtr y = .ok (rowBytes * buf.getRowIndex y) := by
    rw [getRowPtr, if_neg (by omega)]
  refine ⟨{ buf with data := buf.data.set (rowBytes * buf.getRowIndex y + j) byte },
    by rw [write, hptr], ⟨(List.length_set ..).trans h.size, h.linear, h.wrapped⟩, rfl, ?_⟩
  intro z hz k
  have hinside := place_lt (h.getRowIndex_lt hy) j
  rw [← h.size] at hinside
  change (buf.data.set (rowBytes * buf.getRowIndex y + j) byte)[rowBytes * buf.getRowIndex z + k]? =
    _
  by_cases hsame : y = z ∧ j = k
  · obtain ⟨rfl, rfl⟩ := hsame
    rw [if_pos ⟨rfl, rfl⟩, List.getElem?_set_self hinside]
  · rw [if_neg hsame, List.getElem?_set_ne]
    · rfl
    · intro hplace
      obtain ⟨hindex, hbyte⟩ := place_inj hplace
      exact hsame ⟨h.getRowIndex_inj hy hz hindex, hbyte⟩

/-! ## The buffer and the queue -/

/-- The rows of the queue are the rows of the buffer, as far as they were written. -/
structure Refines (buf : RowBuffer rowBytes) (rows : List (QueuedRow rowBytes)) : Prop where
  sound : Sound buf
  length : rows.length = buf.height
  written : ∀ y row, rows[y]? = some row →
    ∀ j byte, row j = some byte → buf.byteAt y j = some byte

namespace Refines

variable {rows : List (QueuedRow rowBytes)}

theorem fresh : Refines ({} : RowBuffer rowBytes) [] := by
  refine ⟨sound_fresh, rfl, ?_⟩
  intro y row hrow
  simp at hrow

theorem empty_iff (h : Refines buf rows) : buf.empty = true ↔ rows = [] := by
  rw [h.sound.empty_iff, ← h.length, List.length_eq_zero_iff]

theorem pushBack (h : Refines buf rows) :
    Refines buf.pushBack (rows ++ [QueuedRow.pushed rowBytes]) := by
  obtain ⟨hsound, hheight, hbytes⟩ := pushBack_spec h.sound
  refine ⟨hsound, ?_, ?_⟩
  · rw [hheight, ← h.length, List.length_append, List.length_singleton]
  · intro y row hrow j byte hbyte
    by_cases hy : y < rows.length
    · rw [List.getElem?_append_left hy] at hrow
      rw [hbytes y (h.length ▸ hy)]
      exact h.written y row hrow j byte hbyte
    · rw [List.getElem?_append_right (by omega)] at hrow
      have hpushed := List.mem_singleton.mp (List.mem_of_getElem? hrow)
      rw [hpushed] at hbyte
      cases hbyte

theorem pushFront (h : Refines buf rows) :
    Refines buf.pushFront (QueuedRow.pushed rowBytes :: rows) := by
  obtain ⟨hsound, hheight, hbytes⟩ := pushFront_spec h.sound
  refine ⟨hsound, ?_, ?_⟩
  · rw [hheight, ← h.length, List.length_cons]
  · intro y row hrow j byte hbyte
    cases y with
    | zero =>
        cases hrow
        cases hbyte
    | succ y =>
        rw [List.getElem?_cons_succ] at hrow
        have hy : y < rows.length := (List.getElem?_eq_some_iff.mp hrow).1
        rw [hbytes y (h.length ▸ hy)]
        exact h.written y row hrow j byte hbyte

theorem popBack (h : Refines buf rows) (hempty : ¬ buf.empty = true) :
    ∃ buf', buf.popBack = (.ok (), buf') ∧ Refines buf' rows.dropLast := by
  obtain ⟨buf', hpop, hsound, hheight, hbytes⟩ := popBack_spec h.sound hempty
  refine ⟨buf', hpop, hsound, ?_, ?_⟩
  · rw [hheight, ← h.length, List.length_dropLast]
  · intro y row hrow j byte hbyte
    rw [List.getElem?_dropLast] at hrow
    split at hrow
    · rename_i hy
      rw [hbytes y (h.length ▸ hy)]
      exact h.written y row hrow j byte hbyte
    · cases hrow

theorem popFront {row₀ : QueuedRow rowBytes} (h : Refines buf (row₀ :: rows)) :
    ∃ buf', buf.popFront = (.ok (), buf') ∧ Refines buf' rows := by
  have hempty : ¬ buf.empty = true := by simp [h.empty_iff]
  obtain ⟨buf', hpop, hsound, hheight, hbytes⟩ := popFront_spec h.sound hempty
  have hlength := h.length
  rw [List.length_cons] at hlength
  refine ⟨buf', hpop, hsound, by omega, ?_⟩
  intro y row hrow j byte hbyte
  have hy : y < rows.length := (List.getElem?_eq_some_iff.mp hrow).1
  rw [hbytes y (by omega)]
  exact h.written (y + 1) row hrow j byte hbyte

theorem linearize (h : Refines buf rows) : Refines buf.linearize rows := by
  have hkept := linearize_kept h.sound
  refine ⟨hkept.sound, h.length.trans hkept.height.symm, ?_⟩
  intro y row hrow j byte hbyte
  have hy : y < rows.length := (List.getElem?_eq_some_iff.mp hrow).1
  rw [hkept.byteAt y (h.length ▸ hy)]
  exact h.written y row hrow j byte hbyte

theorem write (h : Refines buf rows) {y : Nat} (hy : y < rows.length) (j : Fin rowBytes)
    (byte : UInt8) :
    ∃ buf', buf.write y j byte = (.ok (), buf') ∧
      Refines buf' (rows.modify y (Function.update · j (some byte))) := by
  obtain ⟨buf', hwrite, hsound, hheight, hbytes⟩ := write_spec h.sound (h.length ▸ hy) j byte
  refine ⟨buf', hwrite, hsound, ?_, ?_⟩
  · rw [List.length_modify, hheight, h.length]
  · intro z row hrow k byte' hbyte
    have hz : z < rows.length := by
      have hz := (List.getElem?_eq_some_iff.mp hrow).1
      rwa [List.length_modify] at hz
    rw [hbytes z (h.length ▸ hz)]
    rw [List.getElem?_modify, Option.map_eq_map, Option.map_eq_some_iff] at hrow
    obtain ⟨row', hrow', hrowEq⟩ := hrow
    rw [← hrowEq] at hbyte
    by_cases hyz : y = z
    · rw [if_pos hyz] at hbyte
      by_cases hjk : j = k
      · subst hjk
        rw [Function.update_self] at hbyte
        rw [if_pos ⟨hyz, rfl⟩, hbyte]
      · rw [Function.update_of_ne (Ne.symm hjk)] at hbyte
        rw [if_neg (fun hsame => hjk hsame.2)]
        exact h.written z row' hrow' k byte' hbyte
    · rw [if_neg hyz] at hbyte
      rw [if_neg (fun hsame => hyz hsame.1)]
      exact h.written z row' hrow' k byte' hbyte

end Refines

/-- Each operation does to the buffer what it does to the queue. -/
theorem step_simulates :
    Simulates (@step rowBytes) RowOp.onQueue Refines := by
  intro buf rows op h
  cases op with
  | pushBack => exact ⟨rfl, h.pushBack⟩
  | pushFront => exact ⟨rfl, h.pushFront⟩
  | linearize => exact ⟨rfl, h.linearize⟩
  | popBack =>
      by_cases hempty : buf.empty = true
      · simp only [step, RowBuffer.popBack, if_pos hempty, RowOp.onQueue,
          if_pos (h.empty_iff.mp hempty)]
        exact ⟨trivial, h⟩
      · obtain ⟨buf', hpop, hrefines⟩ := h.popBack hempty
        rw [h.empty_iff] at hempty
        simp only [step, hpop, RowOp.onQueue, if_neg hempty]
        exact ⟨trivial, hrefines⟩
  | popFront =>
      cases rows with
      | nil =>
          have hempty := h.empty_iff.mpr rfl
          simp only [step, RowBuffer.popFront, if_pos hempty, RowOp.onQueue]
          exact ⟨trivial, h⟩
      | cons row rest =>
          obtain ⟨buf', hpop, hrefines⟩ := h.popFront
          simp only [step, hpop, RowOp.onQueue]
          exact ⟨trivial, hrefines⟩
  | write y j byte =>
      have hlength := h.length
      by_cases hy : rows.length ≤ y
      · simp only [step, RowBuffer.write, getRowPtr, if_pos (hlength ▸ hy), RowOp.onQueue, if_pos hy]
        exact ⟨trivial, h⟩
      · obtain ⟨buf', hwrite, hrefines⟩ := h.write (Nat.lt_of_not_le hy) j byte
        simp only [step, hwrite, RowOp.onQueue, if_neg hy]
        exact ⟨trivial, hrefines⟩

/-- An operation that throws changes nothing. -/
theorem step_unchanged (buf : RowBuffer rowBytes) (op : RowOp rowBytes) {failure : Failure}
    (h : (buf.step op).1 = .error failure) : (buf.step op).2 = buf := by
  cases op with
  | pushBack | pushFront | linearize => cases h
  | popBack =>
      simp only [step, popBack] at h ⊢
      split at h
      · rw [if_pos ‹_›]
      · cases h
  | popFront =>
      simp only [step, popFront] at h ⊢
      split at h
      · rw [if_pos ‹_›]
      · cases h
  | write y j byte =>
      simp only [step, write] at h ⊢
      split at h
      · rfl
      · cases h

end RowBuffer

/-- A row buffer is a double-ended queue of rows, under every sequence of operations. -/
theorem rowBuffer_refines_queue {rowBytes : Nat} (ops : List (RowOp rowBytes)) :
    let code := calls RowBuffer.step {} ops
    let queue := calls RowOp.onQueue [] ops
    code.1 = queue.1 ∧ code.2.height = queue.2.length ∧ (code.2.empty = true ↔ queue.2 = []) ∧
      (∀ op, (code.2.step op).1 = (RowOp.onQueue queue.2 op).1 ∧
        ∀ failure, (code.2.step op).1 = .error failure → (code.2.step op).2 = code.2) ∧
      (∀ y, queue.2.length ≤ y →
        code.2.getRowPtr y = .error (.saneException s!"y {y} is out of range")) ∧
      ∀ y row, queue.2[y]? = some row → code.2.getRowIndex y < code.2.bufferEnd ∧
        ∃ ptr, code.2.getRowPtr y = .ok ptr ∧ ptr + rowBytes ≤ code.2.data.length ∧
          ∀ (j : Fin rowBytes) (byte : UInt8),
            row j = some byte → code.2.data[ptr + j]? = some byte := by
  intro code queue
  obtain ⟨hreturned, hrefines⟩ := RowBuffer.step_simulates.calls RowBuffer.Refines.fresh ops
  have hlength : queue.2.length = code.2.height := hrefines.length
  refine ⟨hreturned, hlength.symm, hrefines.empty_iff, fun op => ⟨?_, ?_⟩, ?_, ?_⟩
  · exact (RowBuffer.step_simulates _ _ op hrefines).1
  · intro failure hfailure
    exact code.2.step_unchanged op hfailure
  · intro y hy
    rw [RowBuffer.getRowPtr, if_pos (by omega)]
  · intro y row hrow
    have hy : y < code.2.height := hlength ▸ (List.getElem?_eq_some_iff.mp hrow).1
    have hindex := hrefines.sound.getRowIndex_lt hy
    refine ⟨hindex, rowBytes * code.2.getRowIndex y, ?_, ?_, hrefines.written y row hrow⟩
    · rw [RowBuffer.getRowPtr, if_neg (by omega)]
    · calc rowBytes * code.2.getRowIndex y + rowBytes
          = rowBytes * (code.2.getRowIndex y + 1) := by ring
        _ ≤ rowBytes * code.2.bufferEnd := Nat.mul_le_mul_left _ hindex
        _ = code.2.data.length := hrefines.sound.size.symm

/-- Two rows that wrap around the end of the storage, before and after it grows. -/
example :
    let ops : List (RowOp 1) := [.pushBack, .write 0 0 7, .pushFront, .write 0 0 5, .popBack,
      .pushFront, .write 0 0 3, .pushBack, .write 2 0 9]
    (calls RowBuffer.step {} ops).2.data = [3, 5, 9, 0] := by
  decide

end SaneBackends.Genesys
