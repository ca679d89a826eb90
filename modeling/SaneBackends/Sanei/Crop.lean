import SaneBackends.Sanei.Turn
/-!
# Cropping an image

`sanei_magic_crop`, which moves the lines of a part of an image together at the start of its own
buffer.
-/

namespace SaneBackends.Sanei

open SaneBackends.Lib

/-! ## The code -/

/-- `left`, `bytes` and `pixels` once they are converted. -/
structure CropColumns where
  left : Nat
  bytes : Nat
  pixels : Nat

def cropColumns (params : ImageParams) (left right : Nat) : Option CropColumns :=
  if params.format = .rgb then
    some { left := left * 3, bytes := (right - left) * 3, pixels := right - left }
  else if params.format = .gray ∧ params.depth = 8 then
    some { left := left, bytes := right - left, pixels := right - left }
  else if params.format = .gray ∧ params.depth = 1 then
    let left := left / 8
    let right := (right + 7) / 8
    some { left := left, bytes := right - left, pixels := (right - left) * 8 }
  else none

structure CropState where
  line : Cells UInt8
  buffer : Cells UInt8
  pos : Nat

def cropRow (params : ImageParams) (columns : CropColumns) (i : Nat) (st : CropState) :
    Except CellFault CropState := do
  let line ← st.line.copyAt 0 st.buffer (i * params.bytesPerLine + columns.left) columns.bytes
  let buffer ← st.buffer.copyAt st.pos line 0 columns.bytes
  .ok { line := line, buffer := buffer, pos := st.pos + columns.bytes }

/-- The loop, up to its `k`-th row. -/
def cropRows (params : ImageParams) (columns : CropColumns) (top k : Nat) (st : CropState) :
    Except CellFault CropState :=
  forTo k (fun i => cropRow params columns (top + i)) st

def saneiMagicCrop (malloc : Nat → Option (Nat → UInt8)) (params : ImageParams)
    (buffer : Cells UInt8) (top bot left right : Nat) :
    Except CellFault (SaneStatus × ImageParams × Cells UInt8) :=
  match cropColumns params left right with
  | none => .ok (.inval, params, buffer)
  | some columns =>
      match malloc columns.bytes with
      | none => .ok (.noMem, params, buffer)
      | some contents => do
          let st ← cropRows params columns top (bot - top)
            { line := ⟨columns.bytes, contents⟩, buffer := buffer, pos := 0 }
          let params :=
            { params with
              lines := bot - top
              pixelsPerLine := columns.pixels
              bytesPerLine := columns.bytes }
          .ok (.good, params, st.buffer)

/-! ## What it is for -/

/-- A byte of a line holds a column, or a sample of it. -/
def HoldsColumn (params : ImageParams) (byte col : Nat) : Prop :=
  if params.isBinary then byte = col / 8 else byte / params.samples = col

/-- The first column that is left, with those that share its byte. -/
def firstColumn (params : ImageParams) (left : Nat) : Nat :=
  if params.isBinary then left / 8 * 8 else left

/-- The column after the last that is left. -/
def endColumn (params : ImageParams) (right : Nat) : Nat :=
  if params.isBinary then (right + 7) / 8 * 8 else right

/-- The image consists of the bytes of some lines that hold some columns. -/
structure Cropped (params : ImageParams) (buffer : Cells UInt8) (top bot left right : Nat)
    (params' : ImageParams) (buffer' : Cells UInt8) : Prop where
  format : params'.format = params.format
  depth : params'.depth = params.depth
  lines : params'.lines = bot - top
  pixels : params'.pixelsPerLine = endColumn params right - firstColumn params left
  rows : ∃ first, (∀ byte, first ≤ byte ∧ byte < first + params'.bytesPerLine ↔
      ∃ col, firstColumn params left ≤ col ∧ col < endColumn params right ∧
        HoldsColumn params byte col) ∧
    ∀ row < bot - top, ∀ byte < params'.bytesPerLine,
      buffer'.cell (row * params'.bytesPerLine + byte) =
        buffer.cell ((top + row) * params.bytesPerLine + first + byte)

section Crop

variable {params : ImageParams} {buffer : Cells UInt8} {columns : CropColumns}
  {top bot left right k : Nat}

/-- The bytes of a line that are left. -/
theorem cropColumns_spec (hkind : params.isBytes = true ∨ params.isBinary = true) :
    ∃ columns, cropColumns params left right = some columns ∧
      columns.pixels = endColumn params right - firstColumn params left ∧
      ∀ byte, columns.left ≤ byte ∧ byte < columns.left + columns.bytes ↔
        ∃ col, firstColumn params left ≤ col ∧ col < endColumn params right ∧
          HoldsColumn params byte col := by
  unfold cropColumns endColumn firstColumn HoldsColumn
  obtain hbytes | hbinary := hkind
  · rw [isBinary_of_isBytes hbytes]
    simp only [Bool.false_eq_true, if_false]
    obtain hrgb | ⟨hgray, hdepth⟩ := isBytes_iff.mp hbytes
    · refine ⟨_, if_pos hrgb, rfl, fun byte => ?_⟩
      rw [ImageParams.samples, if_pos hrgb]
      dsimp only
      exact ⟨fun h => ⟨byte / 3, by omega⟩, by rintro ⟨col, h⟩; omega⟩
    · have hrgb : params.format ≠ .rgb := by
        rw [hgray]
        decide
      rw [if_neg hrgb]
      refine ⟨_, if_pos ⟨hgray, hdepth⟩, rfl, fun byte => ?_⟩
      rw [ImageParams.samples, if_neg hrgb]
      dsimp only
      exact ⟨fun h => ⟨byte, by omega⟩, by rintro ⟨col, h⟩; omega⟩
  · obtain ⟨hgray, hdepth⟩ := isBinary_iff.mp hbinary
    rw [hbinary, if_neg (by rw [hgray]; decide), if_neg (by rw [hdepth]; omega)]
    simp only [if_true]
    refine ⟨_, if_pos ⟨hgray, hdepth⟩, ?_, fun byte => ?_⟩
    · dsimp only
      omega
    · dsimp only
      exact ⟨fun h => ⟨byte * 8, by omega⟩, by rintro ⟨col, h⟩; omega⟩

/-- The bytes that are left are bytes of the line. -/
theorem columns_inside (hholds : Holds params buffer) (hleft : left ≤ right)
    (hright : right ≤ params.pixelsPerLine)
    (hcolumns : cropColumns params left right = some columns) :
    columns.left + columns.bytes ≤ params.bytesPerLine := by
  unfold cropColumns at hcolumns
  split_ifs at hcolumns with hrgb hgray hbits
  · have hroom := hholds.bytes (isBytes_iff.mpr (.inl hrgb))
    rw [ImageParams.samples, if_pos hrgb] at hroom
    cases hcolumns
    dsimp only
    omega
  · have hroom := hholds.bytes (isBytes_iff.mpr (.inr hgray))
    rw [ImageParams.samples, if_neg hrgb] at hroom
    cases hcolumns
    dsimp only
    omega
  · have hroom := hholds.bits (isBinary_iff.mpr hbits)
    cases hcolumns
    dsimp only
    omega

/-- After `k` rows: the bytes of these are together, and behind them nothing is changed. -/
structure Moved (params : ImageParams) (columns : CropColumns) (top : Nat) (buffer : Cells UInt8)
    (k : Nat) (st : CropState) : Prop where
  line : st.line.size = columns.bytes
  size : st.buffer.size = buffer.size
  pos : st.pos = k * columns.bytes
  rows : ∀ row < k, ∀ byte < columns.bytes, st.buffer.cell (row * columns.bytes + byte) =
    buffer.cell ((top + row) * params.bytesPerLine + columns.left + byte)
  rest : ∀ p, k * columns.bytes ≤ p → st.buffer.cell p = buffer.cell p

/-- No row is moved behind its start, so what is still to be moved is unchanged. -/
theorem cropRow_moved {st : CropState} (h : Moved params columns top buffer k st)
    (hwidth : columns.left + columns.bytes ≤ params.bytesPerLine)
    (hbuffer : (top + k) * params.bytesPerLine + params.bytesPerLine ≤ buffer.size) :
    ∃ st', cropRow params columns (top + k) st = .ok st' ∧
      Moved params columns top buffer (k + 1) st' := by
  have hbehind : k * columns.bytes ≤ (top + k) * params.bytesPerLine :=
    Nat.mul_le_mul (by omega) (by omega)
  have hline := h.line
  have hsize := h.size
  have hpos := h.pos
  obtain ⟨line, hload, hlineSize, hlineCells, -⟩ := @Cells.copyAt_spec _ st.line st.buffer 0
    ((top + k) * params.bytesPerLine + columns.left) columns.bytes (by omega) (by omega)
  obtain ⟨buffer', hstore, hbufferSize, hcells, hrest⟩ := @Cells.copyAt_spec _ st.buffer line
    st.pos 0 columns.bytes (by omega) (by omega)
  refine ⟨⟨line, buffer', st.pos + columns.bytes⟩, ?_, ?_⟩
  · rw [cropRow, hload, ok_bind, hstore, ok_bind]
  · refine ⟨hlineSize.trans hline, hbufferSize.trans hsize, ?_, fun row hrow byte hbyte => ?_,
      fun p hp => ?_⟩
    · rw [Nat.succ_mul, ← hpos]
    · by_cases hlast : row = k
      · subst hlast
        rw [← hpos, hcells byte hbyte, Nat.zero_add, ← Nat.zero_add byte, hlineCells byte hbyte,
          h.rest _ (by omega), Nat.zero_add]
      · have hbefore := part_lt (show row < k by omega) hbyte
        rw [hrest _ (by omega)]
        exact h.rows row (by omega) byte hbyte
    · rw [Nat.succ_mul] at hp
      rw [hrest p (by omega)]
      exact h.rest p (by omega)

theorem cropRows_moved (contents : Nat → UInt8)
    (hwidth : columns.left + columns.bytes ≤ params.bytesPerLine)
    (hbuffer : (top + k) * params.bytesPerLine ≤ buffer.size) :
    ∃ st, cropRows params columns top k ⟨⟨columns.bytes, contents⟩, buffer, 0⟩ = .ok st ∧
      Moved params columns top buffer k st := by
  refine forTo_invariant ⟨rfl, rfl, (Nat.zero_mul _).symm,
    fun row hrow => absurd hrow (Nat.not_lt_zero row), fun _ _ => rfl⟩
    fun i hi st hst => cropRow_moved hst hwidth ?_
  calc (top + i) * params.bytesPerLine + params.bytesPerLine
      = (top + i + 1) * params.bytesPerLine := (Nat.succ_mul _ _).symm
    _ ≤ (top + k) * params.bytesPerLine := Nat.mul_le_mul_right _ (by omega)
    _ ≤ buffer.size := hbuffer

end Crop

/-- The image is cropped, and whenever the loop comes to a row, the bytes of it and of those below
that are to be moved are still there. -/
theorem saneiMagicCrop_cropped {malloc : Nat → Option (Nat → UInt8)}
    (hmalloc : ∀ n, ∃ contents, malloc n = some contents) {params : ImageParams}
    {buffer : Cells UInt8} {top bot left right : Nat} (hholds : Holds params buffer)
    (htop : top ≤ bot) (hbot : bot ≤ params.lines) (hleft : left ≤ right)
    (hright : right ≤ params.pixelsPerLine) :
    ∃ columns contents params' buffer', cropColumns params left right = some columns ∧
      malloc columns.bytes = some contents ∧
      saneiMagicCrop malloc params buffer top bot left right = .ok (.good, params', buffer') ∧
      Cropped params buffer top bot left right params' buffer' ∧
      ∀ k ≤ bot - top, ∃ st,
        cropRows params columns top k ⟨⟨columns.bytes, contents⟩, buffer, 0⟩ = .ok st ∧
        ∀ row < bot - top, k ≤ row → ∀ byte < columns.bytes,
          st.buffer.cell ((top + row) * params.bytesPerLine + columns.left + byte) =
            buffer.cell ((top + row) * params.bytesPerLine + columns.left + byte) := by
  obtain ⟨columns, hcolumns, hpixels, hheld⟩ := @cropColumns_spec params left right hholds.kind
  obtain ⟨contents, hcontents⟩ := hmalloc columns.bytes
  have hwidth := columns_inside hholds hleft hright hcolumns
  have hrows : ∀ k ≤ bot - top, ∃ st,
      cropRows params columns top k ⟨⟨columns.bytes, contents⟩, buffer, 0⟩ = .ok st ∧
        Moved params columns top buffer k st := fun k hk =>
    cropRows_moved contents hwidth
      (Nat.le_trans (Nat.mul_le_mul_right _ (by omega)) hholds.lines)
  obtain ⟨st, hrun, hmoved⟩ := hrows (bot - top) (Nat.le_refl _)
  let params' : ImageParams :=
    { params with
      lines := bot - top
      pixelsPerLine := columns.pixels
      bytesPerLine := columns.bytes }
  refine ⟨columns, contents, params', st.buffer, hcolumns, hcontents, ?_,
    ⟨rfl, rfl, rfl, hpixels, columns.left, hheld, hmoved.rows⟩, fun k hk => ?_⟩
  · rw [saneiMagicCrop, hcolumns]
    dsimp only
    rw [hcontents]
    dsimp only
    rw [hrun, ok_bind]
  · obtain ⟨st, hrun, hmoved⟩ := hrows k hk
    refine ⟨st, hrun, fun row hrow hle byte hbyte => hmoved.rest _ ?_⟩
    have hbehind : k * columns.bytes ≤ (top + row) * params.bytesPerLine :=
      Nat.mul_le_mul (by omega) (by omega)
    omega

/-- The three lower lines of an image of 10 columns of bits, from the fifth column on. -/
def bitImage : ImageParams where
  bytesPerLine := 3
  pixelsPerLine := 10
  lines := 4
  depth := 1

theorem saneiMagicCrop_cropped_bitImage :
    ∃ columns contents params' buffer', cropColumns bitImage 4 10 = some columns ∧
      (fun _ => some fun _ => 0 : Nat → Option (Nat → UInt8)) columns.bytes = some contents ∧
      saneiMagicCrop (fun _ => some fun _ => 0) bitImage ⟨12, UInt8.ofNat⟩ 1 4 4 10 =
        .ok (.good, params', buffer') ∧
      Cropped bitImage ⟨12, UInt8.ofNat⟩ 1 4 4 10 params' buffer' ∧
      ∀ k ≤ 3, ∃ st,
        cropRows bitImage columns 1 k ⟨⟨columns.bytes, contents⟩, ⟨12, UInt8.ofNat⟩, 0⟩ = .ok st ∧
        ∀ row < 3, k ≤ row → ∀ byte < columns.bytes,
          st.buffer.cell ((1 + row) * 3 + columns.left + byte) =
            UInt8.ofNat ((1 + row) * 3 + columns.left + byte) := by
  have hholds : Holds bitImage ⟨12, UInt8.ofNat⟩ :=
    ⟨.inr (by decide), fun h => absurd h (by decide), fun _ => by decide, by decide⟩
  exact saneiMagicCrop_cropped (fun _ => ⟨_, rfl⟩) hholds (by decide) (by decide) (by decide)
    (by decide)

end SaneBackends.Sanei
