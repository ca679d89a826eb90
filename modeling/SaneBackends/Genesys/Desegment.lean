import Mathlib.Data.List.GetD
import SaneBackends.Genesys.RowNode
/-!
# Segments and interleaved lines

`ImagePipelineNodeDesegment` and `ImagePipelineNodeDeinterleaveLines`, which put the pixels of
segments, or of several lines, into one row in chunks by turns. The lines lie one behind the other
in a row buffer and are addressed as one long row.
-/

namespace SaneBackends.Genesys

open SaneBackends.Lib

/-! ## The code -/

section Code

variable {σ : Type}

/-- The loop that fills a cleared buffer with rows of the source. -/
def fillBuffer (source : RowNode σ) (n : Nat) (st : σ) (buffer : RowBuffer source.rowBytes) :
    Except RowFailure (Bool × σ × RowBuffer source.rowBytes) :=
  forTo n (fun i s => do
    let (got, st, buffer) ← s.2.2.pushBack.getNextRow source s.2.1 i
    .ok (s.1 && got, st, buffer)) (true, st, buffer)

structure DesegmentNode (σ : Type) where
  source : RowNode σ
  outputWidth : Nat
  segmentOrder : List Nat
  segmentPixels : Nat
  interleavedLines : Nat
  pixelsPerChunk : Nat

namespace DesegmentNode

/-- The constructor that is given the order of the segments. -/
def ofOrder (source : RowNode σ) (outputWidth : Nat) (segmentOrder : List Nat)
    (segmentPixels interleavedLines pixelsPerChunk : Nat) : Except Failure (DesegmentNode σ) :=
  if source.height % interleavedLines > 0 then
    .error (.saneException "Height is not a multiple of the number of lines to interelave")
  else .ok
    { source, outputWidth, segmentOrder, segmentPixels, interleavedLines, pixelsPerChunk }

/-- The constructor that is given their number. -/
def ofCount (source : RowNode σ) (outputWidth segmentCount segmentPixels interleavedLines
    pixelsPerChunk : Nat) : DesegmentNode σ where
  source := source
  outputWidth := outputWidth
  segmentOrder := List.range segmentCount
  segmentPixels := segmentPixels
  interleavedLines := interleavedLines
  pixelsPerChunk := pixelsPerChunk

/-- `ImagePipelineNodeDeinterleaveLines`. -/
def deinterleaveLines (source : RowNode σ) (interleavedLines pixelsPerChunk : Nat) :
    DesegmentNode σ :=
  ofCount source (source.width * interleavedLines) interleavedLines source.width interleavedLines
    pixelsPerChunk

def height (node : DesegmentNode σ) : Nat := node.source.height / node.interleavedLines

/-- The pixels of the groups, segment by segment. -/
def copyGroups (node : DesegmentNode σ) (inData out : List UInt8) :
    Except RowFailure (List UInt8) :=
  let format := node.source.format
  let segmentCount := node.segmentOrder.length
  let groupsCount := node.outputWidth / (segmentCount * node.pixelsPerChunk)
  forTo groupsCount (fun igroup => forTo segmentCount fun isegment out =>
    let inputOffset := igroup * node.pixelsPerChunk +
      node.segmentPixels * node.segmentOrder.getD isegment 0
    let outputOffset := (igroup * segmentCount + isegment) * node.pixelsPerChunk
    forTo node.pixelsPerChunk (fun ipixel out => do
      let pixel ← getRawPixelFromRow inData (inputOffset + ipixel) format
      setRawPixelToRow out (outputOffset + ipixel) pixel format) out) out

def getNextRowData (node : DesegmentNode σ) (st : σ × RowBuffer node.source.rowBytes)
    (out : List UInt8) :
    Except RowFailure (Bool × (σ × RowBuffer node.source.rowBytes) × List UInt8) := do
  let (gotData, source, buffer) ←
    fillBuffer node.source node.interleavedLines st.1 st.2.clear
  if !buffer.isLinear then .error (.thrown (.saneException "Buffer is not linear"))
  else do
    let inData ← buffer.rowData 0
    let out ← node.copyGroups inData out
    .ok (gotData, (source, buffer), out)

def node (node : DesegmentNode σ) : RowNode (σ × RowBuffer node.source.rowBytes) where
  width := node.outputWidth
  height := node.height
  format := node.source.format
  getNextRowData := node.getNextRowData

end DesegmentNode

end Code

/-! ## Filling the buffer -/

section Fill

variable {σ : Type} {source : RowNode σ} {R : Nat → List UInt8 → Prop} {I : Nat → σ → Prop}

/-- The buffer holds `n` rows of the source, the first of them at its start. -/
structure Filled (R : Nat → List UInt8 → Prop) (y n : Nat) {rowBytes : Nat}
    (buffer : RowBuffer rowBytes) : Prop where
  sound : buffer.Sound
  linear : buffer.isLinear = true
  first : buffer.first = 0
  height : buffer.height = n
  rows : ∀ i < n, R (y + i) (buffer.row i)

theorem fillBuffer_spec (hsource : DeliversRows source R I) {buffer : RowBuffer source.rowBytes}
    (h : buffer.Sound) (hlinear : buffer.isLinear = true) {y : Nat} {st : σ} (hst : I y st)
    {n : Nat} (hheight : y + n ≤ source.height) :
    ∃ st' buffer', fillBuffer source n st buffer.clear = .ok (true, st', buffer') ∧
      I (y + n) st' ∧ Filled R y n buffer' := by
  have hcleared : Filled R y 0 buffer.clear := by
    refine ⟨RowBuffer.clear_sound h, hlinear, rfl, ?_, fun i hi => absurd hi (Nat.not_lt_zero i)⟩
    rw [RowBuffer.height_of_linear (show buffer.clear.isLinear = true from hlinear)]
    rfl
  obtain ⟨s', hrun, hgot, hinv, hfilled⟩ : ∃ s', fillBuffer source n st buffer.clear = .ok s' ∧
      s'.1 = true ∧ I (y + n) s'.2.1 ∧ Filled R y n s'.2.2 := by
    refine forTo_invariant
      (I := fun i (s : Bool × σ × RowBuffer source.rowBytes) =>
        s.1 = true ∧ I (y + i) s.2.1 ∧ Filled R y i s.2.2)
      ⟨rfl, hst, hcleared⟩ fun i hi s hs => ?_
    obtain ⟨hgot, hinv, hfilled⟩ := hs
    obtain ⟨hpushed, hpushedHeight, -⟩ := RowBuffer.pushBack_spec hfilled.sound
    obtain ⟨hstill, hstart⟩ :=
      RowBuffer.pushBack_linear hfilled.sound hfilled.linear hfilled.first
    rw [hfilled.height] at hpushedHeight
    obtain ⟨st', buffer', hget, hinv', hsound', hheight', hrow, hother, hfirst', hlinear'⟩ :=
      RowBuffer.getNextRow_spec hpushed hsource (show i < s.2.2.pushBack.height by omega)
        (show y + i < source.height by omega) hinv
    refine ⟨(true, st', buffer'), ?_, rfl, hinv', hsound', hlinear'.trans hstill,
      hfirst'.trans hstart, hheight'.trans hpushedHeight, fun j hj => ?_⟩
    · rw [hget, ok_bind, hgot]
      rfl
    · by_cases hlast : j = i
      · rw [hlast]
        exact hrow
      · have hbefore : j < i := by omega
        rw [hother j (by omega) hlast,
          RowBuffer.row_pushBack hfilled.sound (by rw [hfilled.height]; exact hbefore)]
        exact hfilled.rows j hbefore
  exact ⟨s'.2.1, s'.2.2, by rw [hrun, ← hgot], hinv, hfilled⟩

variable {rowBytes y n : Nat} {buffer : RowBuffer rowBytes}

theorem Filled.rowData (h : Filled R y n buffer) {i : Nat} (hi : i < n) :
    buffer.rowData i = .ok (buffer.data.drop (rowBytes * i)) := by
  have hinside : i < buffer.height := h.height.symm ▸ hi
  rw [RowBuffer.rowData_eq hinside, h.sound.getRowIndex_of_linear h.linear hinside, h.first]
  rfl

/-- From the start of the buffer on, its rows lie one behind the other. -/
theorem Filled.bitAt_data (h : Filled R y n buffer) {i z : Nat} (hi : i < n)
    (hz : z < 8 * rowBytes) :
    bitAt buffer.data (8 * rowBytes * i + z) = bitAt (buffer.row i) z := by
  have hinside : i < buffer.height := h.height.symm ▸ hi
  have hplace : 8 * rowBytes * i + z = 8 * (rowBytes * i) + z := by rw [Nat.mul_assoc]
  rw [← RowBuffer.bitAt_rowData hz, h.sound.getRowIndex_of_linear h.linear hinside, h.first,
    Nat.add_zero, bitAt, bitAt, List.getElem?_drop, hplace, Nat.mul_add_div (by decide),
    Nat.mul_add_mod]

theorem Filled.length_data (h : Filled R y n buffer) : rowBytes * n ≤ buffer.data.length := by
  rw [h.sound.size, ← h.height]
  exact Nat.mul_le_mul_left _ h.sound.height_le

end Fill

/-! ## The places of pixels -/

/-- Segments of lines that are interleaved: chunks divide a segment, and the segments make up the
lines. An image of so many lines fits into memory. -/
structure SegmentedLines where
  width : Nat
  height : Nat
  format : PixelFormat
  segmentOrder : List Nat
  segmentPixels : Nat
  interleavedLines : Nat
  pixelsPerChunk : Nat
  height_lt : height < 2 ^ 64
  known : format ≠ .unknown
  fits : rowSize format width * height < 2 ^ 63
  order : segmentOrder.Perm (List.range segmentOrder.length)
  segments : 0 < segmentOrder.length
  lines : 0 < interleavedLines
  chunk : 0 < pixelsPerChunk
  divides : pixelsPerChunk ∣ segmentPixels
  covers : segmentOrder.length * segmentPixels = interleavedLines * width

namespace SegmentedLines

/-- How many pixels a row has behind the node. -/
def outputWidth (lines : SegmentedLines) : Nat := lines.interleavedLines * lines.width

def groups (lines : SegmentedLines) : Nat := lines.segmentPixels / lines.pixelsPerChunk

/-- A pixel of a chunk: the group of the chunk, the segment that is here in the order, and the
pixel's place in the chunk. -/
structure ChunkPixel where
  group : Nat
  segment : Nat
  pixel : Nat
  deriving DecidableEq, Repr

/-- The chunk is one of these lines. -/
def Has (lines : SegmentedLines) : Set ChunkPixel :=
  { i | i.group < lines.groups ∧ i.segment < lines.segmentOrder.length ∧
    i.pixel < lines.pixelsPerChunk }

def outputPlace (lines : SegmentedLines) (i : ChunkPixel) : Nat :=
  (i.group * lines.segmentOrder.length + i.segment) * lines.pixelsPerChunk + i.pixel

/-- The place in the lines when they are one row. -/
def sourcePlace (lines : SegmentedLines) (i : ChunkPixel) : Nat :=
  lines.segmentPixels * lines.segmentOrder.getD i.segment 0 + i.group * lines.pixelsPerChunk +
    i.pixel

variable {lines : SegmentedLines}

theorem groups_mul (lines : SegmentedLines) :
    lines.groups * lines.pixelsPerChunk = lines.segmentPixels :=
  Nat.div_mul_cancel lines.divides

theorem outputWidth_eq (lines : SegmentedLines) :
    lines.outputWidth = lines.groups * lines.segmentOrder.length * lines.pixelsPerChunk := by
  rw [outputWidth, ← lines.covers, ← lines.groups_mul]
  ring

/-- `groups_count`. -/
theorem groupsCount_eq (lines : SegmentedLines) :
    lines.outputWidth / (lines.segmentOrder.length * lines.pixelsPerChunk) = lines.groups := by
  rw [outputWidth_eq, Nat.mul_assoc]
  exact Nat.mul_div_cancel _ (Nat.mul_pos lines.segments lines.chunk)

/-- The chunk pixel that is put at a place. -/
def chunkAt (lines : SegmentedLines) (j : Nat) : ChunkPixel where
  group := j / lines.pixelsPerChunk / lines.segmentOrder.length
  segment := j / lines.pixelsPerChunk % lines.segmentOrder.length
  pixel := j % lines.pixelsPerChunk

theorem outputPlace_chunkAt (lines : SegmentedLines) (j : Nat) :
    lines.outputPlace (lines.chunkAt j) = j := by
  rw [outputPlace, chunkAt, Nat.mul_comm (_ / _ / _), Nat.div_add_mod, Nat.mul_comm,
    Nat.div_add_mod]

theorem chunkAt_has {j : Nat} (hj : j < lines.outputWidth) : lines.chunkAt j ∈ lines.Has := by
  rw [outputWidth_eq] at hj
  refine ⟨?_, Nat.mod_lt _ lines.segments, Nat.mod_lt _ lines.chunk⟩
  refine Nat.div_lt_of_lt_mul (Nat.div_lt_of_lt_mul ?_)
  calc j < lines.groups * lines.segmentOrder.length * lines.pixelsPerChunk := hj
    _ = lines.pixelsPerChunk * (lines.segmentOrder.length * lines.groups) := by ring

theorem chunkAt_outputPlace {i : ChunkPixel} (hi : i ∈ lines.Has) :
    lines.chunkAt (lines.outputPlace i) = i := by
  obtain ⟨-, hsegment, hpixel⟩ := hi
  rw [chunkAt, outputPlace, part_div hpixel, part_mod hpixel, part_div hsegment, part_mod hsegment]

theorem outputPlace_lt {i : ChunkPixel} (hi : i ∈ lines.Has) :
    lines.outputPlace i < lines.outputWidth := by
  obtain ⟨hgroup, hsegment, hpixel⟩ := hi
  rw [outputWidth_eq]
  exact part_lt (part_lt hgroup hsegment) hpixel

/-- Every place of the output row is that of one pixel of a chunk. -/
theorem outputPlace_bijOn (lines : SegmentedLines) :
    Set.BijOn lines.outputPlace lines.Has (Set.Iio lines.outputWidth) := by
  refine ⟨fun i hi => outputPlace_lt hi, fun i hi i' hi' heq => ?_, fun j hj => ?_⟩
  · rw [← chunkAt_outputPlace hi, heq, chunkAt_outputPlace hi']
  · exact ⟨lines.chunkAt j, chunkAt_has hj, lines.outputPlace_chunkAt j⟩

theorem segmentOrder_lt {s : Nat} (hs : s < lines.segmentOrder.length) :
    lines.segmentOrder.getD s 0 < lines.segmentOrder.length := by
  rw [List.getD_eq_getElem _ _ hs]
  exact List.mem_range.mp (lines.order.mem_iff.mp (List.getElem_mem hs))

theorem segmentOrder_inj {s s' : Nat} (hs : s < lines.segmentOrder.length)
    (hs' : s' < lines.segmentOrder.length)
    (heq : lines.segmentOrder.getD s 0 = lines.segmentOrder.getD s' 0) : s = s' := by
  rw [List.getD_eq_getElem _ _ hs, List.getD_eq_getElem _ _ hs'] at heq
  exact (lines.order.nodup_iff.mpr List.nodup_range).getElem_inj_iff.mp heq

theorem segmentOrder_surj {v : Nat} (hv : v < lines.segmentOrder.length) :
    ∃ s < lines.segmentOrder.length, lines.segmentOrder.getD s 0 = v := by
  obtain ⟨s, hs, heq⟩ := List.getElem_of_mem (lines.order.mem_iff.mpr (List.mem_range.mpr hv))
  exact ⟨s, hs, (List.getD_eq_getElem _ _ hs).trans heq⟩

/-- The place of a chunk's pixel in its segment. -/
theorem inSegment_lt {i : ChunkPixel} (hi : i ∈ lines.Has) :
    i.group * lines.pixelsPerChunk + i.pixel < lines.segmentPixels := by
  rw [← lines.groups_mul]
  exact part_lt hi.1 hi.2.2

theorem sourcePlace_lt {i : ChunkPixel} (hi : i ∈ lines.Has) :
    lines.sourcePlace i < lines.outputWidth := by
  rw [outputWidth, ← lines.covers, sourcePlace, Nat.add_assoc, Nat.mul_comm lines.segmentPixels]
  exact part_lt (segmentOrder_lt hi.2.1) (inSegment_lt hi)

/-- Every place in the lines is that of one pixel of a chunk. -/
theorem sourcePlace_bijOn (lines : SegmentedLines) :
    Set.BijOn lines.sourcePlace lines.Has (Set.Iio lines.outputWidth) := by
  refine ⟨fun i hi => sourcePlace_lt hi, fun i hi i' hi' heq => ?_, fun q hq => ?_⟩
  · have hin := inSegment_lt hi
    have hin' := inSegment_lt hi'
    rw [sourcePlace, sourcePlace, Nat.add_assoc, Nat.add_assoc,
      Nat.mul_comm lines.segmentPixels, Nat.mul_comm lines.segmentPixels] at heq
    have hsegment := congrArg (· / lines.segmentPixels) heq
    simp only [part_div hin, part_div hin'] at hsegment
    have hplace := congrArg (· % lines.segmentPixels) heq
    simp only [part_mod hin, part_mod hin'] at hplace
    have hgroup := congrArg (· / lines.pixelsPerChunk) hplace
    simp only [part_div hi.2.2, part_div hi'.2.2] at hgroup
    have hpixel := congrArg (· % lines.pixelsPerChunk) hplace
    simp only [part_mod hi.2.2, part_mod hi'.2.2] at hpixel
    have hsame := segmentOrder_inj hi.2.1 hi'.2.1 hsegment
    cases i
    cases i'
    simp_all
  · rw [Set.mem_Iio, outputWidth, ← lines.covers] at hq
    have hpos : 0 < lines.segmentPixels := by
      by_contra hzero
      rw [Nat.eq_zero_of_not_pos hzero, Nat.mul_zero] at hq
      exact Nat.not_lt_zero q hq
    obtain ⟨s, hs, hv⟩ := segmentOrder_surj
      (show q / lines.segmentPixels < lines.segmentOrder.length from
        Nat.div_lt_of_lt_mul (by rwa [Nat.mul_comm]))
    refine ⟨⟨q % lines.segmentPixels / lines.pixelsPerChunk, s,
      q % lines.segmentPixels % lines.pixelsPerChunk⟩, ⟨?_, hs, Nat.mod_lt _ lines.chunk⟩, ?_⟩
    · refine Nat.div_lt_of_lt_mul ?_
      rw [Nat.mul_comm, lines.groups_mul]
      exact Nat.mod_lt _ hpos
    · dsimp only [sourcePlace]
      rw [hv, Nat.add_assoc, Nat.mul_comm _ lines.pixelsPerChunk, Nat.div_add_mod,
        Nat.div_add_mod]

/-! ## One row -/

/-- The node that puts these segments together. -/
def desegment {σ : Type} (lines : SegmentedLines) (source : RowNode σ) : DesegmentNode σ where
  source := source
  outputWidth := lines.outputWidth
  segmentOrder := lines.segmentOrder
  segmentPixels := lines.segmentPixels
  interleavedLines := lines.interleavedLines
  pixelsPerChunk := lines.pixelsPerChunk

variable {σ : Type} {source : RowNode σ} {inData out : List UInt8}

/-- The three loops put one pixel after another into the row. -/
theorem copyGroups_eq (lines : SegmentedLines) (source : RowNode σ) (inData out : List UInt8) :
    (lines.desegment source).copyGroups inData out =
      forTo lines.outputWidth (fun j out => do
        let pixel ← getRawPixelFromRow inData (lines.sourcePlace (lines.chunkAt j)) source.format
        setRawPixelToRow out j pixel source.format) out := by
  unfold DesegmentNode.copyGroups
  dsimp only [desegment]
  rw [lines.groupsCount_eq, forTo_mul, forTo_mul, ← lines.outputWidth_eq]
  refine forTo_congr (fun j _ out => ?_) out
  have hsource : j / lines.pixelsPerChunk / lines.segmentOrder.length * lines.pixelsPerChunk +
      lines.segmentPixels *
        lines.segmentOrder.getD (j / lines.pixelsPerChunk % lines.segmentOrder.length) 0 +
      j % lines.pixelsPerChunk = lines.sourcePlace (lines.chunkAt j) := by
    dsimp only [sourcePlace, chunkAt]
    ring
  have houtput : (j / lines.pixelsPerChunk / lines.segmentOrder.length *
      lines.segmentOrder.length + j / lines.pixelsPerChunk % lines.segmentOrder.length) *
      lines.pixelsPerChunk + j % lines.pixelsPerChunk = j := lines.outputPlace_chunkAt j
  rw [hsource, houtput]

theorem copyGroups_wrote (hformat : source.format = lines.format)
    (hdata : rowSize lines.format lines.width * lines.interleavedLines ≤ inData.length)
    (hout : rowSize lines.format lines.outputWidth ≤ out.length) :
    ∃ out', (lines.desegment source).copyGroups inData out = .ok out' ∧
      Wrote out out' 0 (lines.outputWidth * lines.format.totalBits) (fun z =>
        rowBit inData (lines.sourcePlace (lines.chunkAt (z / lines.format.totalBits)) *
          lines.format.totalBits + z % lines.format.totalBits)) := by
  rw [copyGroups_eq, hformat]
  refine @wrote_forTo out lines.outputWidth _ lines.format.totalBits _
    (fun j k => rowBit inData
      (lines.sourcePlace (lines.chunkAt j) * lines.format.totalBits + k))
    fun j hj out₁ hlength => ?_
  have hinside := sourcePlace_lt (chunkAt_has hj)
  have hline := bits_le_rowSize lines.format lines.width
  have hrow := bits_le_rowSize lines.format lines.outputWidth
  obtain ⟨pixel, out', hget, hset, hwrote⟩ :=
    @copyPixel_wrote inData out₁ lines.format (lines.sourcePlace (lines.chunkAt j)) j lines.known
      (by
        calc lines.sourcePlace (lines.chunkAt j) * lines.format.totalBits + lines.format.totalBits
            ≤ lines.outputWidth * lines.format.totalBits := part_end_le hinside
          _ = lines.interleavedLines * (lines.width * lines.format.totalBits) := by
              rw [outputWidth, Nat.mul_assoc]
          _ ≤ lines.interleavedLines * (8 * rowSize lines.format lines.width) :=
              Nat.mul_le_mul_left _ hline
          _ = 8 * (rowSize lines.format lines.width * lines.interleavedLines) := by ring
          _ ≤ 8 * inData.length := Nat.mul_le_mul_left _ hdata)
      (by
        calc j * lines.format.totalBits + lines.format.totalBits
            ≤ lines.outputWidth * lines.format.totalBits := part_end_le hj
          _ ≤ 8 * rowSize lines.format lines.outputWidth := hrow
          _ ≤ 8 * out₁.length := by rw [hlength]; exact Nat.mul_le_mul_left _ hout)
  exact ⟨out', by rw [hget, ok_bind, hset], hwrote⟩

/-! ## All rows -/

/-- Behind the node a row has the pixels of so many lines, which are addressed as one row. -/
def LongRow (lines : SegmentedLines) (source : ArraySource) (y : Nat) (row : List UInt8) : Prop :=
  ∃ inData : List UInt8, rowSize lines.format lines.width * lines.interleavedLines ≤ inData.length ∧
    (∀ i < lines.interleavedLines, ∀ z < 8 * rowSize lines.format lines.width,
      bitAt inData (8 * rowSize lines.format lines.width * i + z) =
        some (source.image (y * lines.interleavedLines + i) z)) ∧
    ∀ j < lines.outputWidth, getRawPixelFromRow row j lines.format =
      getRawPixelFromRow inData (lines.sourcePlace (lines.chunkAt j)) lines.format

/-- The array has lines of this kind. -/
structure Describes (lines : SegmentedLines) (source : ArraySource) : Prop where
  width : source.width = lines.width
  height : source.height = lines.height
  format : source.format = lines.format

theorem desegment_delivers {source : ArraySource} (h : lines.Describes source) :
    DeliversRows (lines.desegment source.node).node (lines.LongRow source) (fun y st =>
      st.1.nextRow = y * lines.interleavedLines ∧ st.2.Sound ∧ st.2.isLinear = true) where
  step := fun {y st out} hy hst hout => by
    obtain ⟨hnext, hsound, hlinear⟩ := hst
    have hbytes : source.node.rowBytes = rowSize lines.format lines.width := by
      rw [RowNode.rowBytes, ← h.width, ← h.format]
      rfl
    have hformat : source.node.format = lines.format := h.format
    have hroom : rowSize lines.format lines.outputWidth ≤ out.length := by
      rw [← hformat]
      exact hout
    have hheight : y * lines.interleavedLines + lines.interleavedLines ≤ source.node.height :=
      (part_end_le hy).trans (Nat.div_mul_le_self _ _)
    obtain ⟨st', buffer', hfill, hnext', hfilled⟩ :=
      fillBuffer_spec source.delivers hsound hlinear hnext hheight
    have hdata := hfilled.rowData lines.lines
    rw [Nat.mul_zero, List.drop_zero] at hdata
    have hlong : rowSize lines.format lines.width * lines.interleavedLines ≤
        buffer'.data.length := by
      calc rowSize lines.format lines.width * lines.interleavedLines
          = source.node.rowBytes * lines.interleavedLines := by rw [hbytes]
        _ ≤ buffer'.data.length := hfilled.length_data
    obtain ⟨out', hcopy, hwrote⟩ := @copyGroups_wrote _ _ source.node _ out hformat hlong hroom
    refine ⟨(st', buffer'), out', ?_, ⟨by rw [hnext', Nat.succ_mul], hfilled.sound,
      hfilled.linear⟩, hwrote.length, buffer'.data, hlong, fun i hi z hz => ?_, fun j hj => ?_⟩
    · change (lines.desegment source.node).getNextRowData st out = _
      rw [DesegmentNode.getNextRowData]
      dsimp only [desegment] at hcopy ⊢
      rw [hfill, ok_bind]
      simp only [hfilled.linear, Bool.not_true, Bool.false_eq_true, if_false]
      rw [hdata, ok_bind, hcopy, ok_bind]
    · rw [← hbytes] at hz ⊢
      rw [hfilled.bitAt_data hi hz]
      exact hfilled.rows i hi z hz
    · refine getRawPixelFromRow_congr_bits fun k hk => ?_
      have hplace : j * lines.format.totalBits + k < lines.outputWidth * lines.format.totalBits :=
        part_lt hj hk
      have hinside := hwrote.inside hplace
      rw [Nat.zero_add] at hinside
      rw [hinside, part_div hk, part_mod hk, bitAt_of_lt]
      have hsource := part_lt (sourcePlace_lt (chunkAt_has hj)) hk
      have hline := bits_le_rowSize lines.format lines.width
      calc lines.sourcePlace (lines.chunkAt j) * lines.format.totalBits + k
          < lines.outputWidth * lines.format.totalBits := hsource
        _ = lines.interleavedLines * (lines.width * lines.format.totalBits) := by
            rw [outputWidth, Nat.mul_assoc]
        _ ≤ lines.interleavedLines * (8 * rowSize lines.format lines.width) :=
            Nat.mul_le_mul_left _ hline
        _ = 8 * (rowSize lines.format lines.width * lines.interleavedLines) := by ring
        _ ≤ 8 * buffer'.data.length := Nat.mul_le_mul_left _ hlong

/-- Whatever image the lines have, the node makes a row of them in which each of their pixels is
once, and nothing else. -/
def PermutedBy (lines : SegmentedLines) (make : ArraySource → DesegmentNode SourceState) : Prop :=
  Set.BijOn lines.outputPlace lines.Has (Set.Iio lines.outputWidth) ∧
    Set.BijOn lines.sourcePlace lines.Has (Set.Iio lines.outputWidth) ∧
    ∀ source, lines.Describes source → ∀ outs : List (List UInt8),
      outs.length = lines.height / lines.interleavedLines →
      (∀ out ∈ outs, rowSize lines.format lines.outputWidth ≤ out.length) →
      ∃ rows, (make source).node.getRows ({}, {}) outs = .ok rows ∧ rows.length = outs.length ∧
        ∀ y got row, rows[y]? = some (got, row) → got = true ∧ ∀ i ∈ lines.Has,
          getRawPixelFromRow row (lines.outputPlace i) lines.format =
            source.pixel (lines.sourcePlace i % lines.width)
              (y * lines.interleavedLines + lines.sourcePlace i / lines.width)

/-- No line begins inside of a byte of the long row. -/
def Aligned (lines : SegmentedLines) : Prop :=
  lines.interleavedLines = 1 ∨ lines.width * lines.format.totalBits % 8 = 0 ∨
    lines.height < lines.interleavedLines

theorem getRows_longRow {source : ArraySource} (h : lines.Describes source)
    {outs : List (List UInt8)} (hlength : outs.length = lines.height / lines.interleavedLines)
    (houts : ∀ out ∈ outs, rowSize lines.format lines.outputWidth ≤ out.length) :
    ∃ rows, (lines.desegment source.node).node.getRows ({}, {}) outs = .ok rows ∧
      rows.length = outs.length ∧ ∀ y got row, rows[y]? = some (got, row) →
        got = true ∧ lines.LongRow source y row := by
  have hheight : (lines.desegment source.node).node.height =
      lines.height / lines.interleavedLines := by
    rw [← h.height]
    rfl
  have hroom : ∀ out ∈ outs, (lines.desegment source.node).node.rowBytes ≤ out.length := by
    intro out hout
    have hbuffer := houts out hout
    rw [← h.format] at hbuffer
    exact hbuffer
  obtain ⟨rows, hrows, hcount, hall⟩ := @DeliversRows.getRows _ _ _ _ (desegment_delivers h) 0
    ({}, {}) outs ⟨(Nat.zero_mul _).symm, RowBuffer.sound_fresh, rfl⟩
    (by rw [hheight, Nat.zero_add, hlength]) hroom
  refine ⟨rows, hrows, hcount, fun y got row hrow => ?_⟩
  have hboth := hall y got row hrow
  rwa [Nat.zero_add] at hboth

/-- If lines begin with bytes, the pixels of the long row are those of the lines. -/
theorem longRow_pixel {source : ArraySource} (h : lines.Describes source) {y q : Nat}
    {inData : List UInt8} (hq : q < lines.outputWidth)
    (hy : y < lines.height / lines.interleavedLines)
    (hplace : lines.interleavedLines = 1 ∨ lines.width * lines.format.totalBits % 8 = 0)
    (hbits : ∀ i < lines.interleavedLines, ∀ z < 8 * rowSize lines.format lines.width,
      bitAt inData (8 * rowSize lines.format lines.width * i + z) =
        some (source.image (y * lines.interleavedLines + i) z)) :
    getRawPixelFromRow inData q lines.format =
      source.pixel (q % lines.width) (y * lines.interleavedLines + q / lines.width) := by
  have hwidth : 0 < lines.width := by
    by_contra hzero
    rw [outputWidth, Nat.eq_zero_of_not_pos hzero, Nat.mul_zero] at hq
    exact Nat.not_lt_zero q hq
  have hline : q / lines.width < lines.interleavedLines :=
    Nat.div_lt_of_lt_mul (by rwa [Nat.mul_comm])
  have hcolumn : q % lines.width < lines.width := Nat.mod_lt _ hwidth
  have hinside : y * lines.interleavedLines + q / lines.width < source.height := by
    rw [h.height]
    calc y * lines.interleavedLines + q / lines.width
        < lines.height / lines.interleavedLines * lines.interleavedLines := part_lt hy hline
      _ ≤ lines.height := Nat.div_mul_le_self _ _
  have hstart : q * lines.format.totalBits =
      8 * rowSize lines.format lines.width * (q / lines.width) +
        q % lines.width * lines.format.totalBits := by
    cases hplace with
    | inl hone =>
        rw [outputWidth, hone, Nat.one_mul] at hq
        rw [Nat.div_eq_of_lt hq, Nat.mod_eq_of_lt hq, Nat.mul_zero, Nat.zero_add]
    | inr hwhole =>
        have hsize : 8 * rowSize lines.format lines.width =
            lines.width * lines.format.totalBits := by
          rw [rowSize, Nat.mul_comm lines.format.totalBits, hwhole, if_neg (Nat.lt_irrefl 0)]
          omega
        rw [hsize]
        calc q * lines.format.totalBits
            = (lines.width * (q / lines.width) + q % lines.width) * lines.format.totalBits := by
              rw [Nat.div_add_mod]
          _ = lines.width * lines.format.totalBits * (q / lines.width) +
              q % lines.width * lines.format.totalBits := by ring
  rw [ArraySource.pixel, h.format]
  refine getRawPixelFromRow_congr_bits fun k hk => ?_
  have hroom := bits_le_rowSize lines.format lines.width
  have hz : q % lines.width * lines.format.totalBits + k < 8 * rowSize lines.format lines.width :=
    Nat.lt_of_lt_of_le (part_lt hcolumn hk) hroom
  rw [hstart, Nat.add_assoc, hbits _ hline _ hz, ArraySource.image, bitAt_of_lt]
  rw [length_row hinside, h.format, h.width]
  exact hz

theorem permutedBy_of_aligned (h : lines.Aligned) :
    lines.PermutedBy fun source => lines.desegment source.node := by
  refine ⟨lines.outputPlace_bijOn, lines.sourcePlace_bijOn, fun source hsource outs hlength houts =>
    ?_⟩
  obtain ⟨rows, hrows, hcount, hall⟩ := getRows_longRow hsource hlength houts
  refine ⟨rows, hrows, hcount, fun y got row hrow => ?_⟩
  have hy : y < outs.length := hcount ▸ (List.getElem?_eq_some_iff.mp hrow).1
  rw [hlength] at hy
  obtain ⟨hgot, inData, -, hbits, hpixels⟩ := hall y got row hrow
  refine ⟨hgot, fun i hi => ?_⟩
  have hplace : lines.interleavedLines = 1 ∨ lines.width * lines.format.totalBits % 8 = 0 := by
    obtain hone | hwhole | hnone := h
    · exact .inl hone
    · exact .inr hwhole
    · rw [Nat.div_eq_of_lt hnone] at hy
      exact absurd hy (Nat.not_lt_zero y)
  rw [hpixels _ (outputPlace_lt hi), chunkAt_outputPlace hi]
  exact longRow_pixel hsource (sourcePlace_lt hi) hy hplace hbits

/-- An image that is zero but for the first byte of its second row. -/
def marked (lines : SegmentedLines) : ArraySource where
  width := lines.width
  height := lines.height
  format := lines.format
  data := (List.replicate (rowSize lines.format lines.width * lines.height) 0).set
    (rowSize lines.format lines.width) 255
  height_lt := lines.height_lt
  known := lines.known
  enough := by rw [List.length_set, List.length_replicate]
  vector := by
    rw [List.length_set, List.length_replicate]
    exact lines.fits

theorem marked_byte (hheight : 2 ≤ lines.height)
    {i : Nat} (hi : i < rowSize lines.format lines.width * 2) :
    lines.marked.data[i]? =
      some (if i = rowSize lines.format lines.width then 255 else 0) := by
  have hfits : rowSize lines.format lines.width * 2 ≤
      rowSize lines.format lines.width * lines.height := Nat.mul_le_mul_left _ hheight
  dsimp only [marked]
  by_cases hmark : i = rowSize lines.format lines.width
  · rw [if_pos hmark, hmark, List.getElem?_set_self (by rw [List.length_replicate]; omega)]
  · rw [if_neg hmark, List.getElem?_set_ne (Ne.symm hmark), List.getElem?_replicate,
      if_pos (by omega)]

theorem marked_bit (hheight : 2 ≤ lines.height)
    {y z : Nat} (hy : y < 2) (hz : z < 8 * rowSize lines.format lines.width) :
    bitAt (lines.marked.row y) z = some (decide (y = 1 ∧ z < 8)) := by
  have hbyte : z / 8 < rowSize lines.format lines.width := Nat.div_lt_of_lt_mul hz
  have hplace : rowSize lines.format lines.width * y + z / 8 <
      rowSize lines.format lines.width * 2 := by
    rw [Nat.mul_comm, Nat.mul_comm (rowSize lines.format lines.width)]
    exact part_lt hy hbyte
  have hmark : rowSize lines.format lines.width * y + z / 8 =
      rowSize lines.format lines.width ↔ y = 1 ∧ z < 8 := by
    interval_cases y <;> omega
  have hload : (lines.marked.row y)[z / 8]? =
      some (if y = 1 ∧ z < 8 then 255 else 0) := by
    rw [ArraySource.row, List.getElem?_take_of_lt
      (show z / 8 < rowSize lines.marked.format lines.marked.width from hbyte),
      List.getElem?_drop]
    refine (marked_byte hheight hplace).trans ?_
    simp only [hmark]
  rw [bitAt, hload, Option.map_some]
  congr 1
  by_cases hthere : y = 1 ∧ z < 8
  · rw [if_pos hthere, decide_eq_true hthere]
    have hrest := Nat.mod_lt z (show 0 < 8 by decide)
    interval_cases z % 8 <;> rfl
  · rw [if_neg hthere, decide_eq_false hthere]
    exact BitVec.getLsbD_zero

theorem marked_pixel (hrow : 0 < rowSize lines.format lines.width) (hheight : 2 ≤ lines.height)
    (hsub : lines.format.SubByte) :
    lines.marked.pixel 0 1 = .ok (pixelOfBits lines.format (fun _ => true)) := by
  refine getRawPixelFromRow_of_bits hsub fun k hk => ?_
  have hsmall : k < 8 := by
    have hfew : lines.format.bits ≤ 3 := by
      obtain hone | hthree := hsub
      · rw [hone]
        decide
      · rw [hthree]
        decide
    have hk' : k < lines.format.bits := hk
    omega
  rw [Nat.zero_mul, Nat.zero_add, marked_bit hheight (by decide) (by omega),
    decide_eq_true ⟨rfl, hsmall⟩]

theorem pixelOfBits_ne {format : PixelFormat} (hformat : format.SubByte) {bit : Nat → Bool}
    (hbit : bit 0 = false) : pixelOfBits format bit ≠ pixelOfBits format (fun _ => true) := by
  intro heq
  obtain rfl | rfl := hformat
  · simp only [pixelOfBits, hbit] at heq
    exact absurd (congrArg RawPixel.d0 heq) (by decide)
  · simp only [pixelOfBits, hbit] at heq
    have hpixel := congrArg RawPixel.d0 heq
    dsimp only at hpixel
    cases h1 : bit 1 <;> cases h2 : bit 2 <;> rw [h1, h2] at hpixel <;>
      exact absurd hpixel (by decide)

/-- Behind a line that ends inside of a byte, a pixel is read from the bits that are left over. -/
theorem read_padding {inData : List UInt8}
    (hsub : lines.format.SubByte) (hheight : 2 ≤ lines.height) (hlines : 2 ≤ lines.interleavedLines)
    (hpadded : lines.width * lines.format.totalBits < 8 * rowSize lines.format lines.width)
    (hwidth : 0 < lines.width)
    (hlength : rowSize lines.format lines.width * lines.interleavedLines ≤ inData.length)
    (hbits : ∀ z < 8 * rowSize lines.format lines.width,
      bitAt inData z = some (lines.marked.image 0 z)) :
    ∃ bit : Nat → Bool, bit 0 = false ∧
      getRawPixelFromRow inData lines.width lines.format = .ok (pixelOfBits lines.format bit) := by
  have htotal := totalBits_of_subByte hsub
  refine ⟨fun k => rowBit inData (lines.width * lines.format.bits + k), ?_,
    getRawPixelFromRow_of_bits hsub fun k hk => bitAt_of_lt ?_⟩
  · dsimp only
    rw [Nat.add_zero, ← htotal, rowBit, hbits _ hpadded, ArraySource.image, rowBit,
      marked_bit hheight (by decide) hpadded]
    rfl
  · have hpixel : lines.format.bits ≤ lines.width * lines.format.bits :=
      Nat.le_mul_of_pos_left _ hwidth
    have htwo : rowSize lines.format lines.width * 2 ≤
        rowSize lines.format lines.width * lines.interleavedLines := Nat.mul_le_mul_left _ hlines
    rw [htotal] at hpadded
    omega

/-- If a line ends inside of a byte, the first pixel of the second one is not where it should. -/
theorem aligned_of_permutedBy (h : lines.PermutedBy fun source => lines.desegment source.node) :
    lines.Aligned := by
  by_contra hcrooked
  obtain ⟨hlines, hwhole, hsome⟩ : ¬ lines.interleavedLines = 1 ∧
      ¬ lines.width * lines.format.totalBits % 8 = 0 ∧
      ¬ lines.height < lines.interleavedLines := by
    simpa only [Aligned, not_or] using hcrooked
  have hpositive := lines.lines
  have hsub : lines.format.SubByte := by
    refine (subByte_or_bytes lines.known).resolve_right fun hbytes => hwhole ?_
    rw [totalBits_of_bytes hbytes, Nat.mul_left_comm]
    exact Nat.mul_mod_right 8 _
  have hwidth : 0 < lines.width := by
    by_contra hzero
    rw [Nat.eq_zero_of_not_pos hzero, Nat.zero_mul] at hwhole
    exact hwhole rfl
  have hpadded : lines.width * lines.format.totalBits < 8 * rowSize lines.format lines.width := by
    have hle := bits_le_rowSize lines.format lines.width
    omega
  have hdescribes : lines.Describes lines.marked := ⟨rfl, rfl, rfl⟩
  have hrows : 0 < lines.height / lines.interleavedLines :=
    Nat.div_pos (Nat.le_of_not_lt hsome) hpositive
  -- where the first pixel of the second line goes
  obtain ⟨i, hi, hplace⟩ := lines.sourcePlace_bijOn.surjOn
    (show lines.width ∈ Set.Iio lines.outputWidth by
      calc lines.width = 1 * lines.width := (Nat.one_mul _).symm
        _ < lines.interleavedLines * lines.width := Nat.mul_lt_mul_of_pos_right (by omega) hwidth)
  obtain ⟨outs, houts⟩ : ∃ outs, outs = List.replicate (lines.height / lines.interleavedLines)
    (List.replicate (rowSize lines.format lines.outputWidth) (0 : UInt8)) := ⟨_, rfl⟩
  have hlength : outs.length = lines.height / lines.interleavedLines := by
    rw [houts, List.length_replicate]
  have hroom : ∀ out ∈ outs, rowSize lines.format lines.outputWidth ≤ out.length := by
    intro out hout
    rw [houts] at hout
    rw [List.eq_of_mem_replicate hout, List.length_replicate]
  obtain ⟨rows, hrun, hcount, hpixels⟩ := h.2.2 _ hdescribes outs hlength hroom
  obtain ⟨rows', hrun', -, hlong⟩ := getRows_longRow hdescribes hlength hroom
  rw [hrun] at hrun'
  cases hrun'
  have hfirst : rows[0]? = some rows[0] := List.getElem?_eq_getElem (by omega)
  obtain ⟨-, hpixel⟩ := hpixels 0 rows[0].1 rows[0].2 hfirst
  obtain ⟨-, inData, hinData, hread, hlongPixel⟩ := hlong 0 rows[0].1 rows[0].2 hfirst
  have hsame := hpixel i hi
  rw [hlongPixel _ (outputPlace_lt hi), chunkAt_outputPlace hi, hplace, Nat.mod_self,
    Nat.div_self hwidth, Nat.zero_mul, Nat.zero_add,
    marked_pixel (by omega) (by omega) hsub] at hsame
  obtain ⟨bit, hbit, hgot⟩ := @read_padding lines inData hsub (by omega) (by omega) hpadded
    hwidth hinData fun z hz => by
      have hline := hread 0 hpositive z hz
      rwa [Nat.mul_zero, Nat.zero_add, Nat.zero_mul, Nat.zero_add] at hline
  rw [hgot] at hsame
  exact pixelOfBits_ne hsub hbit (Except.ok.inj hsame)

end SegmentedLines

/-- Lines that are interleaved: chunks divide a line. -/
structure InterleavedLines where
  width : Nat
  height : Nat
  format : PixelFormat
  interleavedLines : Nat
  pixelsPerChunk : Nat
  height_lt : height < 2 ^ 64
  known : format ≠ .unknown
  fits : rowSize format width * height < 2 ^ 63
  lines : 0 < interleavedLines
  chunk : 0 < pixelsPerChunk
  divides : pixelsPerChunk ∣ width

namespace InterleavedLines

/-- Each of the lines is a segment. -/
def segmented (lines : InterleavedLines) : SegmentedLines where
  width := lines.width
  height := lines.height
  format := lines.format
  segmentOrder := List.range lines.interleavedLines
  segmentPixels := lines.width
  interleavedLines := lines.interleavedLines
  pixelsPerChunk := lines.pixelsPerChunk
  height_lt := lines.height_lt
  known := lines.known
  fits := lines.fits
  order := by rw [List.length_range]
  segments := by
    rw [List.length_range]
    exact lines.lines
  lines := lines.lines
  chunk := lines.chunk
  divides := lines.divides
  covers := by rw [List.length_range]

def deinterleave (lines : InterleavedLines) (source : ArraySource) :
    DesegmentNode SourceState :=
  .deinterleaveLines source.node lines.interleavedLines lines.pixelsPerChunk

theorem deinterleave_eq {lines : InterleavedLines} {source : ArraySource}
    (h : source.width = lines.width) :
    lines.deinterleave source = lines.segmented.desegment source.node := by
  have hwidth : source.node.width = lines.width := h
  have houtput : source.node.width * lines.interleavedLines =
      lines.interleavedLines * lines.width := by rw [hwidth, Nat.mul_comm]
  unfold deinterleave DesegmentNode.deinterleaveLines DesegmentNode.ofCount
  rw [houtput, hwidth]
  rfl

theorem permutedBy_deinterleave (lines : InterleavedLines) :
    lines.segmented.PermutedBy lines.deinterleave ↔
      lines.segmented.PermutedBy fun source => lines.segmented.desegment source.node := by
  unfold SegmentedLines.PermutedBy
  refine and_congr_right' (and_congr_right' (forall_congr' fun source => ?_))
  refine imp_congr_right fun hsource => ?_
  rw [deinterleave_eq hsource.width]

end InterleavedLines

/-- The constructor that is given an order makes the same node, where it makes one. -/
theorem ofOrder_eq (lines : SegmentedLines) {source : ArraySource} (h : lines.Describes source)
    (hwhole : lines.height % lines.interleavedLines = 0) :
    DesegmentNode.ofOrder source.node lines.outputWidth lines.segmentOrder lines.segmentPixels
      lines.interleavedLines lines.pixelsPerChunk = .ok (lines.desegment source.node) := by
  have hheight : source.node.height % lines.interleavedLines = 0 := by
    rw [← hwhole, ← h.height]
    rfl
  rw [DesegmentNode.ofOrder, hheight, if_neg (Nat.lt_irrefl 0)]
  rfl

/-- The nodes permute the pixels of every image if and only if no line begins inside of a byte. -/
theorem permutedBy_iff_aligned (segments : SegmentedLines) (lines : InterleavedLines) :
    (segments.PermutedBy (fun source => segments.desegment source.node) ↔ segments.Aligned) ∧
      (lines.segmented.PermutedBy lines.deinterleave ↔ lines.segmented.Aligned) := by
  have hsegmented : ∀ segments : SegmentedLines,
      segments.PermutedBy (fun source => segments.desegment source.node) ↔ segments.Aligned :=
    fun segments => ⟨SegmentedLines.aligned_of_permutedBy, SegmentedLines.permutedBy_of_aligned⟩
  exact ⟨hsegmented segments, lines.permutedBy_deinterleave.trans (hsegmented _)⟩

/-- Two lines of one bit. -/
def bitLines : InterleavedLines where
  width := 1
  height := 2
  format := .i1
  interleavedLines := 2
  pixelsPerChunk := 1
  height_lt := by decide
  known := by decide
  fits := by decide
  lines := by decide
  chunk := by decide
  divides := by decide

/-- The bit of the second line is set. -/
def bitSource : ArraySource where
  width := 1
  height := 2
  format := .i1
  data := [0, 128]
  height_lt := by decide
  known := by decide
  enough := by decide
  vector := by decide

/-- The bit that is set is lost: what is read is the second bit of the first line's byte. -/
theorem not_permutedBy_bitLines :
    (bitLines.deinterleave bitSource).node.getRows ({}, {}) [[0]] = .ok [(true, [0])] ∧
      getRawPixelFromRow [0] 1 .i1 = .ok {} ∧ bitSource.pixel 0 1 = .ok { d0 := 1 } ∧
      ¬ bitLines.segmented.PermutedBy bitLines.deinterleave := by
  have hrun : (bitLines.deinterleave bitSource).node.getRows ({}, {}) [[0]] =
      .ok [(true, [0])] := rfl
  have hread : getRawPixelFromRow [0] 1 .i1 = .ok {} := rfl
  have hthere : bitSource.pixel 0 1 = .ok { d0 := 1 } := rfl
  refine ⟨hrun, hread, hthere, fun h => ?_⟩
  obtain ⟨rows, hrows, -, hpixels⟩ := h.2.2 bitSource ⟨rfl, rfl, rfl⟩ [[0]] rfl (by decide)
  rw [hrun] at hrows
  cases hrows
  have hpixel := (hpixels 0 true [0] rfl).2 ⟨0, 1, 0⟩ ⟨by decide, by decide, by decide⟩
  have hsource : getRawPixelFromRow [0] 1 .i1 = bitSource.pixel 0 1 := hpixel
  rw [hread, hthere] at hsource
  cases hsource

end SaneBackends.Genesys
