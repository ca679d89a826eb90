import SaneBackends.Genesys.PixelBits
import SaneBackends.Genesys.RowClear
/-!
# Nodes that deliver rows

What a node of the pipeline is to the one behind it, and how rows of a node get into a row
buffer. A node delivers an image if every row of it up to its height is there.
-/

namespace SaneBackends.Genesys

open SaneBackends.Lib

/-! ## The code -/

/-- `ImagePipelineNode`: what the getters answer, and `get_next_row_data` with the state that it
changes. -/
structure RowNode (σ : Type) where
  width : Nat
  height : Nat
  format : PixelFormat
  getNextRowData : σ → List UInt8 → Except RowFailure (Bool × σ × List UInt8)

namespace RowNode

variable {σ : Type}

def rowBytes (node : RowNode σ) : Nat := rowSize node.format node.width

/-- The rows that are got one after another, each into a buffer of the caller. -/
def getRows (node : RowNode σ) :
    σ → List (List UInt8) → Except RowFailure (List (Bool × List UInt8))
  | _, [] => .ok []
  | st, out :: outs => do
      let (gotData, st, row) ← node.getNextRowData st out
      let rows ← node.getRows st outs
      .ok ((gotData, row) :: rows)

end RowNode

def ArraySource.node (source : ArraySource) : RowNode SourceState where
  width := source.width
  height := source.height
  format := source.format
  getNextRowData := source.getNextRowData

namespace RowBuffer

variable {rowBytes : Nat} {σ : Type}

/-- `source.get_next_row_data (buffer.get_row_ptr (y))`. -/
def getNextRow (buf : RowBuffer rowBytes) (source : RowNode σ) (st : σ) (y : Nat) :
    Except RowFailure (Bool × σ × RowBuffer rowBytes) := do
  let ptr ← throws (buf.getRowPtr y)
  let (gotData, st, row) ← source.getNextRowData st ((buf.data.drop ptr).take rowBytes)
  .ok (gotData, st, { buf with data := buf.data.take ptr ++ row ++ buf.data.drop (ptr + rowBytes) })

/-- The data behind `buffer.get_row_ptr (y)`. -/
def rowData (buf : RowBuffer rowBytes) (y : Nat) : Except RowFailure (List UInt8) := do
  let ptr ← throws (buf.getRowPtr y)
  .ok (buf.data.drop ptr)

end RowBuffer

/-! ## Images -/

/-- Of every row `R` holds with its number; `I` holds of the state before the row. -/
structure DeliversRows {σ : Type} (node : RowNode σ) (R : Nat → List UInt8 → Prop)
    (I : Nat → σ → Prop) : Prop where
  step : ∀ {y st out}, y < node.height → I y st → node.rowBytes ≤ out.length →
    ∃ st' row, node.getNextRowData st out = .ok (true, st', row) ∧ I (y + 1) st' ∧
      row.length = out.length ∧ R y row

/-- The row begins with these bits of an image. -/
def Shows (bits : Nat) (image : Nat → Nat → Bool) (y : Nat) (row : List UInt8) : Prop :=
  ∀ z < bits, bitAt row z = some (image y z)

/-- The data holds the rows of an image. -/
def ArrayFits (width height : Nat) (format : PixelFormat) (data : List UInt8) : Prop :=
  height < 2 ^ 64 ∧ format ≠ .unknown ∧ rowSize format width * height ≤ data.length ∧
    data.length < 2 ^ 63

def ArraySource.ofData {width height : Nat} {format : PixelFormat} {data : List UInt8}
    (fits : ArrayFits width height format data) : ArraySource where
  width
  height
  format
  data
  height_lt := fits.1
  known := fits.2.1
  enough := fits.2.2.1
  vector := fits.2.2.2

/-- The image of an array. -/
def ArraySource.image (source : ArraySource) (y : Nat) : Nat → Bool := rowBit (source.row y)

section Images

variable {σ : Type} {node : RowNode σ} {R : Nat → List UInt8 → Prop} {I : Nat → σ → Prop}

theorem Shows.mono {bits bits' y : Nat} {image : Nat → Nat → Bool} {row : List UInt8}
    (h : Shows bits image y row) (hle : bits' ≤ bits) : Shows bits' image y row :=
  fun z hz => h z (Nat.lt_of_lt_of_le hz hle)

theorem DeliversRows.mono {R' : Nat → List UInt8 → Prop} (h : DeliversRows node R I)
    (hR : ∀ y row, R y row → R' y row) : DeliversRows node R' I where
  step := fun hy hst hout => by
    obtain ⟨st', row, hget, hinv, hlength, hrow⟩ := h.step hy hst hout
    exact ⟨st', row, hget, hinv, hlength, hR _ _ hrow⟩

/-- All the rows up to the height can be got. -/
theorem DeliversRows.getRows (h : DeliversRows node R I) {y : Nat} {st : σ}
    {outs : List (List UInt8)} (hst : I y st) (hheight : y + outs.length ≤ node.height)
    (houts : ∀ out ∈ outs, node.rowBytes ≤ out.length) :
    ∃ rows, node.getRows st outs = .ok rows ∧ rows.length = outs.length ∧
      ∀ i got row, rows[i]? = some (got, row) → got = true ∧ R (y + i) row := by
  induction outs generalizing y st with
  | nil => exact ⟨[], rfl, rfl, fun i got row hrow => by simp at hrow⟩
  | cons out outs ih =>
      rw [List.length_cons] at hheight
      obtain ⟨st', row, hget, hinv, -, hrow⟩ :=
        h.step (show y < node.height by omega) hst (houts out List.mem_cons_self)
      obtain ⟨rows, hrest, hlength, hrows⟩ :=
        ih hinv (by omega) fun out hout => houts out (List.mem_cons_of_mem _ hout)
      refine ⟨(true, row) :: rows, ?_, ?_, fun i got row' hi => ?_⟩
      · rw [RowNode.getRows, hget, ok_bind]
        dsimp only
        rw [hrest, ok_bind]
      · rw [List.length_cons, List.length_cons, hlength]
      · cases i with
        | zero =>
            obtain ⟨rfl, rfl⟩ := Prod.mk.inj (Option.some.inj hi)
            exact ⟨rfl, hrow⟩
        | succ i =>
            obtain ⟨hgot, hR⟩ := hrows i got row' hi
            rw [Nat.add_right_comm] at hR
            exact ⟨hgot, hR⟩

/-- An array delivers its rows with the bits behind their pixels. -/
theorem ArraySource.delivers (source : ArraySource) :
    DeliversRows source.node (Shows (8 * source.node.rowBytes) source.image)
      (fun y st => st.nextRow = y) where
  step := fun {y st out} hy hst hout => by
    rw [← hst] at hy ⊢
    have hrow := row_le_data hy
    obtain ⟨out', hcopy, hlength, hbytes⟩ := @memcpy_spec out source.data 0
      (rowSize source.format source.width * st.nextRow) (rowSize source.format source.width)
      (by rw [Nat.zero_add]; exact hout) hrow
    refine ⟨{ st with nextRow := st.nextRow + 1 }, out', ?_, rfl, hlength, fun z hz => ?_⟩
    · change source.getNextRowData st out = _
      have hinside : ¬ source.height ≤ st.nextRow := Nat.not_le.mpr hy
      rw [ArraySource.getNextRowData, if_neg hinside, getPixelRowBytes_eq source.known]
      simp only [throws, ok_bind]
      rw [hcopy, ok_bind]
    · have hbyte : z / 8 < rowSize source.format source.width :=
        Nat.div_lt_of_lt_mul hz
      rw [ArraySource.image, ← bitAt_of_lt (by rw [length_row hy]; exact hz), bitAt, bitAt, hbytes,
        if_pos (by omega), Nat.sub_zero, ArraySource.row, List.getElem?_take_of_lt hbyte,
        List.getElem?_drop]

/-- The pixel at the same place of two rows with the same bits there. -/
theorem Shows.pixel {bits y x x' : Nat} {format : PixelFormat} {image : Nat → Nat → Bool}
    {row data : List UInt8} (h : Shows bits image y row)
    (hx : x * format.totalBits + format.totalBits ≤ bits)
    (hdata : x' * format.totalBits + format.totalBits ≤ 8 * data.length)
    (hbits : ∀ k < format.totalBits,
      image y (x * format.totalBits + k) = rowBit data (x' * format.totalBits + k)) :
    getRawPixelFromRow row x format = getRawPixelFromRow data x' format := by
  refine getRawPixelFromRow_congr_bits fun k hk => ?_
  rw [h _ (by omega), hbits k hk, bitAt_of_lt (by omega)]

end Images

/-! ## Rows of a buffer -/

namespace RowBuffer

variable {rowBytes : Nat} {buf : RowBuffer rowBytes}

/-- The bytes of a row. -/
def row (buf : RowBuffer rowBytes) (y : Nat) : List UInt8 :=
  (buf.data.drop (rowBytes * buf.getRowIndex y)).take rowBytes

theorem Sound.row_end (h : Sound buf) {y : Nat} (hy : y < buf.height) :
    rowBytes * buf.getRowIndex y + rowBytes ≤ buf.data.length := by
  rw [h.size]
  calc rowBytes * buf.getRowIndex y + rowBytes
      = rowBytes * (buf.getRowIndex y + 1) := by ring
    _ ≤ rowBytes * buf.bufferEnd := Nat.mul_le_mul_left _ (h.getRowIndex_lt hy)

theorem Sound.length_row (h : Sound buf) {y : Nat} (hy : y < buf.height) :
    (buf.row y).length = rowBytes := by
  have hend := h.row_end hy
  rw [row, List.length_take, List.length_drop]
  omega

theorem getElem?_row {y : Nat} (j : Fin rowBytes) : (buf.row y)[(j : Nat)]? = buf.byteAt y j := by
  rw [row, List.getElem?_take_of_lt j.isLt, List.getElem?_drop]
  rfl

/-- Two rows with the same bytes are the same. -/
theorem row_congr {buf' : RowBuffer rowBytes} (h : Sound buf) (h' : Sound buf') {y z : Nat}
    (hy : y < buf.height) (hz : z < buf'.height)
    (hbytes : ∀ j, buf'.byteAt z j = buf.byteAt y j) : buf'.row z = buf.row y := by
  have hlength := h.length_row hy
  have hlength' := h'.length_row hz
  apply List.ext_getElem?
  intro j
  by_cases hj : j < rowBytes
  · exact (getElem?_row ⟨j, hj⟩).trans ((hbytes ⟨j, hj⟩).trans (getElem?_row ⟨j, hj⟩).symm)
  · rw [List.getElem?_eq_none (by omega), List.getElem?_eq_none (by omega)]

theorem row_pushBack (h : Sound buf) {y : Nat} (hy : y < buf.height) :
    buf.pushBack.row y = buf.row y := by
  obtain ⟨hsound, hheight, hbytes⟩ := pushBack_spec h
  exact row_congr h hsound hy (by omega) (hbytes y hy)

theorem row_popFront (h : Sound buf) {y : Nat} (hy : y + 1 < buf.height)
    {buf' : RowBuffer rowBytes} (hsound : Sound buf') (hheight : buf'.height = buf.height - 1)
    (hbytes : ∀ y < buf.height - 1, ∀ j, buf'.byteAt y j = buf.byteAt (y + 1) j) :
    buf'.row y = buf.row (y + 1) :=
  row_congr h hsound hy (by omega) (hbytes y (by omega))

theorem getRowPtr_eq {y : Nat} (hy : y < buf.height) :
    buf.getRowPtr y = .ok (rowBytes * buf.getRowIndex y) := by
  rw [getRowPtr, if_neg (by omega)]

theorem rowData_eq {y : Nat} (hy : y < buf.height) :
    buf.rowData y = .ok (buf.data.drop (rowBytes * buf.getRowIndex y)) := by
  rw [rowData, getRowPtr_eq hy]
  rfl

/-- Through the pointer to a row the row itself is read. -/
theorem bitAt_rowData {y z : Nat} (hz : z < 8 * rowBytes) :
    bitAt (buf.data.drop (rowBytes * buf.getRowIndex y)) z = bitAt (buf.row y) z := by
  rw [bitAt, bitAt, row, List.getElem?_take_of_lt (Nat.div_lt_of_lt_mul hz)]

/-- One row is replaced. -/
theorem storeRow_spec (h : Sound buf) {y : Nat} (hy : y < buf.height) {newRow : List UInt8}
    (hlength : newRow.length = rowBytes) {buf' : RowBuffer rowBytes}
    (hbuf : buf' = { buf with
      data := buf.data.take (rowBytes * buf.getRowIndex y) ++ newRow ++
        buf.data.drop (rowBytes * buf.getRowIndex y + rowBytes) }) :
    Sound buf' ∧ buf'.height = buf.height ∧ buf'.row y = newRow ∧
      ∀ z < buf.height, z ≠ y → buf'.row z = buf.row z := by
  have hend := h.row_end hy
  have htake : (buf.data.take (rowBytes * buf.getRowIndex y)).length =
      rowBytes * buf.getRowIndex y := by
    rw [List.length_take]
    omega
  have hdata : ∀ i, buf'.data[i]? =
      if rowBytes * buf.getRowIndex y ≤ i ∧ i < rowBytes * buf.getRowIndex y + rowBytes then
        newRow[i - rowBytes * buf.getRowIndex y]?
      else buf.data[i]? := by
    intro i
    rw [hbuf]
    dsimp only
    rw [List.append_assoc]
    by_cases hbefore : i < rowBytes * buf.getRowIndex y
    · rw [List.getElem?_append_left (by omega), List.getElem?_take_of_lt hbefore,
        if_neg (by omega)]
    · rw [List.getElem?_append_right (by omega), htake]
      by_cases hinside : i < rowBytes * buf.getRowIndex y + rowBytes
      · rw [List.getElem?_append_left (by omega), if_pos (by omega)]
      · rw [List.getElem?_append_right (by omega), List.getElem?_drop, if_neg (by omega), hlength]
        congr 1
        omega
  have hsound : Sound buf' := by
    rw [hbuf]
    refine ⟨?_, h.linear, h.wrapped⟩
    have hsize := h.size
    simp only [List.length_append, List.length_take, List.length_drop, hlength]
    omega
  have hindex : ∀ z, buf'.getRowIndex z = buf.getRowIndex z := fun z => by rw [hbuf]; rfl
  have hheight : buf'.height = buf.height := by rw [hbuf]; rfl
  refine ⟨hsound, hheight, ?_, fun z hz hne => ?_⟩
  · apply List.ext_getElem?
    intro j
    by_cases hj : j < rowBytes
    · rw [getElem?_row ⟨j, hj⟩, byteAt, hindex, hdata, if_pos (by dsimp only; omega)]
      congr 1
      dsimp only
      omega
    · rw [List.getElem?_eq_none (by rw [hsound.length_row (by omega)]; omega),
        List.getElem?_eq_none (by omega)]
  · refine row_congr h hsound hz (by omega) fun j => ?_
    rw [byteAt, byteAt, hindex, hdata, if_neg]
    intro hinside
    have hother : buf.getRowIndex z ≠ buf.getRowIndex y :=
      fun heq => hne (h.getRowIndex_inj hz hy heq)
    have hj := j.isLt
    cases Nat.lt_or_gt_of_ne hother with
    | inl hlt =>
        have hplace := place_lt hlt j
        omega
    | inr hgt =>
        have hplace : rowBytes * buf.getRowIndex y + rowBytes ≤ rowBytes * buf.getRowIndex z := by
          rw [← Nat.mul_succ]
          exact Nat.mul_le_mul_left _ hgt
        omega

variable {σ : Type} {source : RowNode σ} {R : Nat → List UInt8 → Prop} {I : Nat → σ → Prop}

/-- A row of the source is got into the buffer. -/
theorem getNextRow_spec {buf : RowBuffer source.rowBytes} (h : Sound buf)
    (hsource : DeliversRows source R I) {y line : Nat} {st : σ} (hy : y < buf.height)
    (hline : line < source.height) (hst : I line st) :
    ∃ st' buf', buf.getNextRow source st y = .ok (true, st', buf') ∧ I (line + 1) st' ∧
      Sound buf' ∧ buf'.height = buf.height ∧ R line (buf'.row y) ∧
      (∀ z < buf.height, z ≠ y → buf'.row z = buf.row z) ∧
      buf'.first = buf.first ∧ buf'.isLinear = buf.isLinear := by
  have hlength := h.length_row hy
  obtain ⟨st', newRow, hget, hinv, hsize, hrow⟩ :=
    hsource.step hline hst (Nat.le_of_eq hlength.symm)
  obtain ⟨hsound, hheight, hself, hother⟩ := storeRow_spec h hy (hsize.trans hlength) rfl
  refine ⟨st', _, ?_, hinv, hsound, hheight, by rwa [hself], hother, rfl, rfl⟩
  rw [getNextRow, getRowPtr_eq hy]
  simp only [throws, ok_bind]
  rw [show (buf.data.drop (source.rowBytes * buf.getRowIndex y)).take source.rowBytes = buf.row y
    from rfl, hget, ok_bind]

/-- In a buffer that is filled from its start on, rows do not wrap. -/
theorem pushBack_linear (h : Sound buf) (hlinear : buf.isLinear = true) (hfirst : buf.first = 0) :
    buf.pushBack.isLinear = true ∧ buf.pushBack.first = 0 := by
  have hroom := grow_height_lt h
  have hgrow : buf.grow.isLinear = true ∧ buf.grow.first = 0 := by
    unfold grow ensureCapacity
    split_ifs
    · exact ⟨hlinear, hfirst⟩
    · rw [linearize_of_linear hlinear]
      exact ⟨hlinear, hfirst⟩
    · exact ⟨hlinear, hfirst⟩
  rw [height_of_linear hgrow.1, hgrow.2, Nat.sub_zero] at hroom
  unfold pushBack
  simp only [if_neg (Nat.ne_of_lt hroom)]
  exact hgrow

end RowBuffer

end SaneBackends.Genesys
