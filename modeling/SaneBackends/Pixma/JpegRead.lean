import SaneBackends.Lib.ByteBits
import SaneBackends.Lib.Cells
import SaneBackends.Sanei.Types
/-!
# `pixma_jpeg_read`

The line buffer has the size of a line of the image in the file. A line is converted in it, and copied
out of it, by the width and the channels of the scan.
-/

namespace SaneBackends.Pixma.JpegRead

open Lib

/-- `pixma_scan_param_t`, of which the reader uses these. -/
structure ScanParam where
  w : Nat
  channels : Nat
  depth : Nat
  channels_eq : channels = 1 ∨ channels = 3
  depth_eq : depth = 1 ∨ depth = 8
  /-- `pixma_check_scan_param` keeps the area on the bed, so that no product leaves an `int`. -/
  w_lt : 3 * w < 2 ^ 31

/-- What `jpeg_read_header` and `jpeg_start_decompress` set. -/
structure Cinfo where
  outputWidth : UInt16
  outputHeight : UInt16
  outputComponents : Nat
  /-- An empty image is an error. -/
  width_pos : 0 < outputWidth.toNat
  height_pos : 0 < outputHeight.toNat
  components_eq : outputComponents = 1 ∨ outputComponents = 3

/-- What `jpeg_read_scanlines` does. -/
inductive Scanlines where
  | line (sample : Nat → UInt8)
  | suspended
  | errorExit

/-- `pixma_jpeg_src_mgr`, and how far the decompressor is. -/
structure SrcMgr where
  linebuffer : Cells UInt8
  linebufferSize : Nat := 0
  linebufferIndex : Nat := 0
  outputScanline : Nat := 0
  /-- How often `jpeg_read_scanlines` was called. -/
  asked : Nat := 0

/-- The status, and the first `*length` bytes of `data`. -/
structure Reply where
  status : SaneStatus
  data : List UInt8

variable (sp : ScanParam) (cinfo : Cinfo) (scanlines : Nat → Scanlines)

def Cinfo.lineSize : Nat := cinfo.outputWidth.toNat * cinfo.outputComponents

/-- `pixma_jpeg_read_header`, on a file it can read. -/
def pixmaJpegReadHeader (fresh : Nat → UInt8) : SrcMgr where
  linebuffer := { size := cinfo.lineSize, cell := fresh }

/-- `sanei_jpeg_put_pixel_rows`: `buffer_width` bytes. -/
def putPixelRows (linebuffer : Cells UInt8) (sample : Nat → UInt8) :
    Except CellFault (Cells UInt8) :=
  linebuffer.copy { size := cinfo.lineSize, cell := sample } cinfo.lineSize

/-- BT.709 -/
def luma (r g b : UInt8) : UInt8 :=
  UInt8.ofNat ((r.toNat * 2126 + g.toNat * 7152 + b.toNat * 722) / 10000)

def toGray (i : Nat) (linebuffer : Cells UInt8) : Except CellFault (Cells UInt8) := do
  let r ← linebuffer.load (3 * i)
  let g ← linebuffer.load (3 * i + 1)
  let b ← linebuffer.load (3 * i + 2)
  linebuffer.store i (luma r g b)

/-- The line buffer, the place of `d` in it, and `b`. -/
structure Packing where
  linebuffer : Cells UInt8
  d : Nat := 0
  b : UInt8 := 0

/-- Pass `i + 1` of the loop. -/
def packPixel (i : Nat) (p : Packing) : Except CellFault Packing := do
  let pixel ← p.linebuffer.load i
  let b := p.b <<< 1 ||| if decide (pixel ≤ 127) then 1 else 0
  if (i + 1) % 8 = 0 then
    let linebuffer ← p.linebuffer.store p.d b
    .ok { linebuffer, d := p.d + 1, b }
  else .ok { p with b }

/-- Convert RGB into grayscale -/
def grayLine (linebuffer : Cells UInt8) : Except CellFault (Cells UInt8) :=
  if sp.channels = 1 then forTo sp.w toGray linebuffer else .ok linebuffer

/-- Maybe pack into lineary binary image -/
def packLine (linebuffer : Cells UInt8) : Except CellFault (Cells UInt8) :=
  if sp.depth = 1 then do
    let packing ← forTo sp.w packPixel { linebuffer }
    .ok packing.linebuffer
  else .ok linebuffer

/-- `*length` of a whole line. -/
def lineLength : Nat := if sp.depth = 1 then sp.w * sp.channels / 8 else sp.w * sp.channels

/-- `memcpy` of `length` bytes, but not more than `max_length`. -/
def copyOut (src : SrcMgr) (length maxLength : Nat) : Except CellFault (Reply × SrcMgr) := do
  let length := if maxLength < length then maxLength else length
  let data ← src.linebuffer.slice src.linebufferIndex length
  .ok ({ status := .good, data },
    { src with linebufferIndex := src.linebufferIndex + length })

def pixmaJpegRead (src : SrcMgr) (maxLength : Nat) : Except CellFault (Reply × SrcMgr) :=
  if src.linebufferSize ≠ 0 ∧ src.linebufferIndex < src.linebufferSize then
    copyOut src (src.linebufferSize - src.linebufferIndex) maxLength
  else if cinfo.outputHeight.toNat ≤ src.outputScanline then
    .ok ({ status := .good, data := [] }, src)
  else
    let asked := src.asked + 1
    match scanlines src.asked with
    | .errorExit => .ok ({ status := .ioError, data := [] }, { src with asked })
    | .suspended => .ok ({ status := .good, data := [] }, { src with asked })
    | .line sample => do
        let linebuffer ← putPixelRows cinfo src.linebuffer sample
        let linebuffer ← grayLine sp linebuffer
        let linebuffer ← packLine sp linebuffer
        copyOut
          { linebuffer, asked
            linebufferSize := lineLength sp
            outputScanline := src.outputScanline + 1 }
          (lineLength sp) maxLength

/-- Calls with these lengths, up to one that fails. -/
def readAll (src : SrcMgr) : List Nat → Except CellFault (List Reply × SrcMgr)
  | [] => .ok ([], src)
  | maxLength :: maxLengths => do
      let (reply, src) ← pixmaJpegRead sp cinfo scanlines src maxLength
      if reply.status = .good then
        let (replies, src) ← readAll src maxLengths
        .ok (reply :: replies, src)
      else .ok ([reply], src)

/-! ## What is to be delivered -/

/-- The samples of a line, in a gray scan one for each three. -/
def graySample (sample : Nat → UInt8) (i : Nat) : UInt8 :=
  luma (sample (3 * i)) (sample (3 * i + 1)) (sample (3 * i + 2))

def dark (sample : Nat → UInt8) (i : Nat) : Bool := decide (sample i ≤ 127)

/-- Eight pixels, the first one highest. -/
def packedByte (sample : Nat → UInt8) (j : Nat) : UInt8 := shiftedIn (dark sample) (8 * j + 8)

def overwritten (n : Nat) (value sample : Nat → UInt8) (i : Nat) : UInt8 :=
  if i < n then value i else sample i

def gray (sample : Nat → UInt8) : Nat → UInt8 :=
  if sp.channels = 1 then overwritten sp.w (graySample sample) sample else sample

def packed (sample : Nat → UInt8) : Nat → UInt8 :=
  if sp.depth = 1 then overwritten (sp.w / 8) (packedByte sample) sample else sample

/-- The bytes of a decoded line, as the scan asks for them. -/
def lineBytes (sample : Nat → UInt8) : List UInt8 :=
  (List.range (lineLength sp)).map (packed sp (gray sp sample))

/-- The bytes of the lines decoded in the first `n` calls of `jpeg_read_scanlines`. -/
def decodedBytes (n : Nat) : List UInt8 :=
  (List.range n).flatMap fun k =>
    match scanlines k with
    | .line sample => lineBytes sp sample
    | _ => []

def undelivered (src : SrcMgr) : List UInt8 :=
  src.linebuffer.span src.linebufferIndex (src.linebufferSize - src.linebufferIndex)

def delivered (replies : List Reply) : List UInt8 := replies.flatMap Reply.data

/-- No access leaves the line buffer, whatever the decompressor does and however much is asked for, and
each byte of a decoded line is delivered once or still to come. -/
def ReadsInside : Prop :=
  ∀ (scanlines : Nat → Scanlines) (fresh : Nat → UInt8) (maxLengths : List Nat),
    ∃ replies src,
      readAll sp cinfo scanlines (pixmaJpegReadHeader cinfo fresh) maxLengths =
          .ok (replies, src) ∧
        delivered replies ++ undelivered src = decodedBytes sp scanlines src.asked ∧
        ∀ pair ∈ replies.zip maxLengths, pair.1.data.length ≤ pair.2

/-- How far into the line buffer a line of the scan makes the reader go. -/
def reach : Nat := if sp.channels = 3 ∧ sp.depth = 1 then sp.w else 3 * sp.w

/-! ## Conversion in place -/

section Conversion

variable {sp cinfo} {block : Cells UInt8} {sample : Nat → UInt8}

/-- A pixel is written at or before the place where the first of its samples was. -/
theorem toGray_run {n : Nat} (hsize : 3 * n ≤ block.size) :
    forTo n toGray block = .ok (block.replace n (graySample block.cell)) := by
  refine Cells.inPlace_spec fun k hk b hb hcells => ?_
  have hr := hcells (3 * k) (by omega)
  have hg := hcells (3 * k + 1) (by omega)
  have hb' := hcells (3 * k + 2) (by omega)
  rw [toGray, Cells.load_eq (by omega), ok_bind, Cells.load_eq (by omega), ok_bind,
    Cells.load_eq (by omega), ok_bind, Cells.store_eq (by omega), hr, hg, hb']
  rfl

theorem toGray_ok {n : Nat} {block' : Cells UInt8} (hrun : forTo n toGray block = .ok block') :
    block'.size = block.size ∧ 3 * n ≤ block.size := by
  refine forTo_ok (I := fun k b => b.size = block.size ∧ 3 * k ≤ block.size) hrun
    ⟨rfl, Nat.zero_le _⟩ fun i hi b b' hinv hpass => ?_
  obtain ⟨r, -, hpass⟩ := bind_eq_ok.mp hpass
  obtain ⟨g, -, hpass⟩ := bind_eq_ok.mp hpass
  obtain ⟨blue, hload, hstore⟩ := bind_eq_ok.mp hpass
  have hblue := (Cells.load_ok hload).1
  rw [(Cells.store_ok hstore).2, Cells.size_put]
  omega

/-- A byte is written at or before the last pixel that is in it. -/
theorem packPixel_run {n : Nat} (hsize : n ≤ block.size) :
    forTo n packPixel { linebuffer := block } =
      .ok { linebuffer := block.replace (n / 8) (packedByte block.cell), d := n / 8,
            b := shiftedIn (dark block.cell) n } := by
  induction n with
  | zero => rfl
  | succ n ih =>
      have hcell : (block.replace (n / 8) (packedByte block.cell)).cell n = block.cell n :=
        Cells.cell_replace_of_le (Nat.div_le_self n 8) _
      rw [forTo_succ, ih (Nat.le_of_succ_le hsize), ok_bind, packPixel,
        Cells.load_eq (by simpa using hsize), ok_bind, hcell]
      dsimp only
      by_cases hfull : (n + 1) % 8 = 0
      · have hd : (n + 1) / 8 = n / 8 + 1 := by omega
        have hlast : n + 1 = 8 * (n / 8) + 8 := by omega
        have hbyte : shiftedIn (dark block.cell) (n + 1) = packedByte block.cell (n / 8) := by
          rw [packedByte, ← hlast]
        rw [if_pos hfull, hd, hbyte, ← Cells.put_replace, ← hbyte]
        rw [Cells.store_eq (by rw [Cells.size_replace]; omega), ok_bind]
        rfl
      · have hd : (n + 1) / 8 = n / 8 := by omega
        rw [if_neg hfull, hd]
        rfl

theorem packPixel_ok {n : Nat} {p p' : Packing} (hrun : forTo n packPixel p = .ok p') :
    p'.linebuffer.size = p.linebuffer.size ∧ n ≤ p.linebuffer.size := by
  refine forTo_ok
    (I := fun k q => q.linebuffer.size = p.linebuffer.size ∧ k ≤ p.linebuffer.size) hrun
    ⟨rfl, Nat.zero_le _⟩ fun i hi q q' hinv hpass => ?_
  obtain ⟨pixel, hload, hpass⟩ := bind_eq_ok.mp hpass
  have hi := (Cells.load_ok hload).1
  dsimp only at hpass
  by_cases hfull : (i + 1) % 8 = 0
  · rw [if_pos hfull] at hpass
    obtain ⟨block, hstore, hpass⟩ := bind_eq_ok.mp hpass
    rw [← Except.ok.inj hpass, (Cells.store_ok hstore).2]
    dsimp only
    rw [Cells.size_put]
    omega
  · rw [if_neg hfull] at hpass
    rw [← Except.ok.inj hpass]
    dsimp only
    omega

theorem grayLine_run (sp : ScanParam) (block : Cells UInt8) (h : sp.channels = 1 → 3 * sp.w ≤ block.size) :
    ∃ block', grayLine sp block = .ok block' ∧ block'.size = block.size ∧
      block'.cell = gray sp block.cell := by
  rw [grayLine, gray]
  by_cases hgray : sp.channels = 1
  · rw [if_pos hgray, if_pos hgray, toGray_run (h hgray)]
    exact ⟨_, rfl, rfl, rfl⟩
  · rw [if_neg hgray, if_neg hgray]
    exact ⟨block, rfl, rfl, rfl⟩

theorem packLine_run (sp : ScanParam) (block : Cells UInt8) (h : sp.depth = 1 → sp.w ≤ block.size) :
    ∃ block', packLine sp block = .ok block' ∧ block'.size = block.size ∧
      block'.cell = packed sp block.cell := by
  rw [packLine, packed]
  by_cases hbinary : sp.depth = 1
  · rw [if_pos hbinary, if_pos hbinary, packPixel_run (h hbinary), ok_bind]
    exact ⟨_, rfl, rfl, rfl⟩
  · rw [if_neg hbinary, if_neg hbinary]
    exact ⟨block, rfl, rfl, rfl⟩

end Conversion

section Reach

variable {sp} {f g : Nat → UInt8} {size : Nat}

theorem lineLength_le_reach (sp : ScanParam) : lineLength sp ≤ reach sp := by
  rw [lineLength, reach]
  have hchannels := sp.channels_eq
  have hdepth := sp.depth_eq
  cases hchannels with
  | inl hgray =>
      have hthree : ¬(sp.channels = 3 ∧ sp.depth = 1) := by omega
      rw [if_neg hthree, hgray]
      split_ifs <;> omega
  | inr hcolor =>
      rw [hcolor]
      split_ifs <;> omega

theorem width_le_reach (sp : ScanParam) : sp.w ≤ reach sp := by
  rw [reach]
  split_ifs <;> omega

theorem gray_le_reach (h : sp.channels = 1) : 3 * sp.w ≤ reach sp := by
  have hchannels : ¬(sp.channels = 3 ∧ sp.depth = 1) := by omega
  rw [reach, if_neg hchannels]

theorem gray_congr (hreach : reach sp ≤ size) (h : ∀ i < size, f i = g i) :
    ∀ i < size, gray sp f i = gray sp g i := by
  intro i hi
  rw [gray, gray]
  by_cases hgray : sp.channels = 1
  · have hsamples := gray_le_reach hgray
    rw [if_pos hgray, if_pos hgray, overwritten, overwritten]
    by_cases hw : i < sp.w
    · rw [if_pos hw, if_pos hw, graySample, graySample, h (3 * i) (by omega),
        h (3 * i + 1) (by omega), h (3 * i + 2) (by omega)]
    · rw [if_neg hw, if_neg hw, h i hi]
  · rw [if_neg hgray, if_neg hgray, h i hi]

theorem packed_congr (hreach : reach sp ≤ size) (h : ∀ i < size, f i = g i) :
    ∀ i < size, packed sp f i = packed sp g i := by
  intro i hi
  have hwidth := width_le_reach sp
  rw [packed, packed]
  by_cases hbinary : sp.depth = 1
  · rw [if_pos hbinary, if_pos hbinary, overwritten, overwritten]
    by_cases hw : i < sp.w / 8
    · rw [if_pos hw, if_pos hw, packedByte, packedByte]
      refine shiftedIn_congr fun k hk => ?_
      rw [dark, dark, h k (by omega)]
    · rw [if_neg hw, if_neg hw, h i hi]
  · rw [if_neg hbinary, if_neg hbinary, h i hi]

end Reach

/-! ## One call -/

section Calls

variable {sp cinfo scanlines} {src : SrcMgr} {before : List UInt8}

/-- Between two calls: these bytes were delivered before. -/
structure Accounted (sp : ScanParam) (cinfo : Cinfo) (scanlines : Nat → Scanlines)
    (before : List UInt8) (src : SrcMgr) : Prop where
  size_eq : src.linebuffer.size = cinfo.lineSize
  index_le : src.linebufferIndex ≤ src.linebufferSize
  size_le : src.linebufferSize ≤ cinfo.lineSize
  bytes : before ++ undelivered src = decodedBytes sp scanlines src.asked

theorem copyOut_run (src : SrcMgr) {length : Nat} (hrest : src.linebufferIndex + length = src.linebufferSize)
    (hsize : src.linebufferSize ≤ src.linebuffer.size) (maxLength : Nat) :
    ∃ data n, copyOut src length maxLength =
        .ok ({ status := .good, data }, { src with linebufferIndex := src.linebufferIndex + n }) ∧
      data ++ undelivered { src with linebufferIndex := src.linebufferIndex + n } =
          undelivered src ∧
        n ≤ length ∧ data.length ≤ maxLength := by
  have hn : (if maxLength < length then maxLength else length) = min maxLength length := by
    rw [min_def]
    split_ifs <;> omega
  refine ⟨src.linebuffer.span src.linebufferIndex (min maxLength length),
    min maxLength length, ?_, ?_, Nat.min_le_right .., ?_⟩
  · rw [copyOut, hn, Cells.slice_eq (by omega)]
    rfl
  · have hparts : src.linebufferSize - src.linebufferIndex = min maxLength length +
        (src.linebufferSize - (src.linebufferIndex + min maxLength length)) := by
      omega
    rw [undelivered, undelivered, hparts, Cells.span_add]
  · rw [Cells.length_span]
    exact Nat.min_le_left ..

theorem decodedBytes_succ (sp : ScanParam) (scanlines : Nat → Scanlines) (n : Nat) :
    decodedBytes sp scanlines (n + 1) = decodedBytes sp scanlines n ++
      match scanlines n with
      | .line sample => lineBytes sp sample
      | _ => [] := by
  rw [decodedBytes, List.range_succ, List.flatMap_append, List.flatMap_singleton]
  rfl

/-- A line is converted in the buffer, where its bytes then are. -/
theorem convert_run (hreach : reach sp ≤ cinfo.lineSize) {block : Cells UInt8}
    (hsize : block.size = cinfo.lineSize) (sample : Nat → UInt8) :
    ∃ block₁ block₂ block₃, putPixelRows cinfo block sample = .ok block₁ ∧
      grayLine sp block₁ = .ok block₂ ∧ packLine sp block₂ = .ok block₃ ∧
        block₃.size = cinfo.lineSize ∧ block₃.span 0 (lineLength sp) = lineBytes sp sample := by
  have hsamples : cinfo.lineSize ≤ (Cells.mk cinfo.lineSize sample).size := Nat.le_refl _
  obtain ⟨block₁, hcopy, hsize₁, hsamples, -⟩ := Cells.copy_spec (Nat.le_of_eq hsize.symm) hsamples
  have hsize₁ := hsize₁.trans hsize
  obtain ⟨block₂, hgray, hsize₂, hcells₂⟩ := grayLine_run sp block₁ fun h => by
    have := gray_le_reach h
    omega
  obtain ⟨block₃, hpack, hsize₃, hcells₃⟩ := packLine_run sp block₂ fun _ => by
    have := width_le_reach sp
    omega
  refine ⟨block₁, block₂, block₃, hcopy, hgray, hpack, by omega, ?_⟩
  rw [Cells.span, lineBytes, ← List.range_eq_range']
  refine List.map_congr_left fun i hi => ?_
  have hi := List.mem_range.mp hi
  have hlength := lineLength_le_reach sp
  rw [hcells₃, hcells₂]
  exact packed_congr hreach (gray_congr hreach hsamples) i (by omega)

/-- A call delivers what is next, and asks for a line only when there is nothing left of the one
before. -/
theorem pixmaJpegRead_run (hreach : reach sp ≤ cinfo.lineSize)
    (h : Accounted sp cinfo scanlines before src)
    (maxLength : Nat) :
    ∃ reply src', pixmaJpegRead sp cinfo scanlines src maxLength = .ok (reply, src') ∧
      Accounted sp cinfo scanlines (before ++ reply.data) src' ∧
        reply.data.length ≤ maxLength := by
  have hindex := h.index_le
  have hlimit := h.size_le
  have hbytes := h.bytes
  rw [pixmaJpegRead]
  by_cases hleft : src.linebufferSize ≠ 0 ∧ src.linebufferIndex < src.linebufferSize
  · rw [if_pos hleft]
    obtain ⟨data, n, hcopy, hdata, hn, hmax⟩ := copyOut_run src
      (Nat.add_sub_cancel' hindex) (by rw [h.size_eq]; exact hlimit) maxLength
    refine ⟨_, _, hcopy, ⟨h.size_eq, ?_, hlimit, ?_⟩, hmax⟩
    · dsimp only
      omega
    · rw [List.append_assoc, hdata, hbytes]
  · have hnone : undelivered src = [] := by
      have hzero : src.linebufferSize - src.linebufferIndex = 0 := by omega
      rw [undelivered, hzero]
      rfl
    rw [if_neg hleft]
    by_cases hend : cinfo.outputHeight.toNat ≤ src.outputScanline
    · rw [if_pos hend]
      exact ⟨_, _, rfl, ⟨h.size_eq, hindex, hlimit, by rw [List.append_nil, hbytes]⟩,
        Nat.zero_le _⟩
    · rw [if_neg hend]
      dsimp only
      have hnext := decodedBytes_succ sp scanlines src.asked
      cases hanswer : scanlines src.asked with
      | errorExit =>
          rw [hanswer, List.append_nil] at hnext
          exact ⟨_, _, rfl, ⟨h.size_eq, hindex, hlimit, by
            rw [List.append_nil]
            exact hbytes.trans hnext.symm⟩, Nat.zero_le _⟩
      | suspended =>
          rw [hanswer, List.append_nil] at hnext
          exact ⟨_, _, rfl, ⟨h.size_eq, hindex, hlimit, by
            rw [List.append_nil]
            exact hbytes.trans hnext.symm⟩, Nat.zero_le _⟩
      | line sample =>
          rw [hanswer] at hnext
          dsimp only at hnext
          obtain ⟨block₁, block₂, block₃, hcopy, hgray, hpack, hsize, hline⟩ :=
            convert_run hreach h.size_eq sample
          have hlength := (lineLength_le_reach sp).trans hreach
          dsimp only
          rw [hcopy, ok_bind, hgray, ok_bind, hpack, ok_bind]
          obtain ⟨data, n, hout, hdata, hn, hmax⟩ := copyOut_run
            { linebuffer := block₃, asked := src.asked + 1
              linebufferSize := lineLength sp
              outputScanline := src.outputScanline + 1 }
            (Nat.zero_add (lineLength sp)) (by dsimp only; omega) maxLength
          refine ⟨_, _, hout, ⟨hsize, ?_, hlength, ?_⟩, hmax⟩
          · dsimp only
            omega
          · rw [hnone, List.append_nil] at hbytes
            rw [List.append_assoc, hdata, undelivered, hnext, ← hbytes, ← hline]
            rfl

/-- The same for calls one after another. -/
theorem readAll_run (hreach : reach sp ≤ cinfo.lineSize) (maxLengths : List Nat) :
    ∀ before src, Accounted sp cinfo scanlines before src →
      ∃ replies src', readAll sp cinfo scanlines src maxLengths = .ok (replies, src') ∧
        Accounted sp cinfo scanlines
          (before ++ delivered replies) src' ∧
        ∀ pair ∈ replies.zip maxLengths, pair.1.data.length ≤ pair.2 := by
  induction maxLengths with
  | nil =>
      intro before src h
      refine ⟨[], src, rfl, ?_, fun pair hpair => absurd hpair List.not_mem_nil⟩
      rwa [delivered, List.flatMap_nil, List.append_nil]
  | cons maxLength maxLengths ih =>
      intro before src h
      obtain ⟨reply, src₁, hcall, hnext, hmax⟩ := pixmaJpegRead_run hreach h maxLength
      rw [readAll, hcall, ok_bind]
      dsimp only
      by_cases hgood : reply.status = .good
      · obtain ⟨replies, src₂, hrest, hend, hall⟩ := ih _ _ hnext
        rw [if_pos hgood, hrest, ok_bind]
        refine ⟨_, _, rfl, ?_, List.forall_mem_cons.mpr ⟨hmax, hall⟩⟩
        rwa [delivered, List.flatMap_cons, ← List.append_assoc]
      · rw [if_neg hgood]
        refine ⟨_, _, rfl, ?_, List.forall_mem_cons.mpr ⟨hmax, by simp⟩⟩
        rwa [delivered, List.flatMap_singleton]

end Calls

/-! ## The two widths -/

section Widths

variable {sp cinfo}

theorem readsInside_of_reach (hreach : reach sp ≤ cinfo.lineSize) : ReadsInside sp cinfo := by
  intro scanlines fresh maxLengths
  have hstart : Accounted sp cinfo scanlines []
      (pixmaJpegReadHeader cinfo fresh) :=
    ⟨rfl, Nat.le_refl _, Nat.zero_le _, rfl⟩
  obtain ⟨replies, src, hrun, hend, hmax⟩ := readAll_run hreach maxLengths _ _ hstart
  exact ⟨replies, src, hrun, hend.bytes, hmax⟩

/-- A line that is converted and copied out as a whole makes the reader go as far as it can. -/
theorem reach_le_of_convert {block block₁ block₂ : Cells UInt8} {src : SrcMgr}
    {result : Reply × SrcMgr} (hgray : grayLine sp block = .ok block₁)
    (hpack : packLine sp block₁ = .ok block₂) (hblock : src.linebuffer = block₂)
    (hindex : src.linebufferIndex = 0)
    (hout : copyOut src (lineLength sp) (lineLength sp) = .ok result) :
    reach sp ≤ block.size := by
  rw [grayLine] at hgray
  rw [packLine] at hpack
  by_cases hchannels : sp.channels = 1
  · rw [if_pos hchannels] at hgray
    have hsize := (toGray_ok hgray).2
    rw [reach, if_neg (by omega)]
    exact hsize
  · rw [if_neg hchannels] at hgray
    have hblock₁ := Except.ok.inj hgray
    have hcolor : sp.channels = 3 := sp.channels_eq.resolve_left hchannels
    by_cases hdepth : sp.depth = 1
    · rw [if_pos hdepth] at hpack
      obtain ⟨packing, hpack, -⟩ := bind_eq_ok.mp hpack
      have hsize := (packPixel_ok hpack).2
      rw [reach, if_pos ⟨hcolor, hdepth⟩, hblock₁]
      exact hsize
    · rw [if_neg hdepth] at hpack
      have hblock₂ := Except.ok.inj hpack
      obtain ⟨data, hslice, -⟩ := bind_eq_ok.mp hout
      have hsize := Cells.slice_ok hslice
      rw [if_neg (Nat.lt_irrefl _), hindex, Nat.zero_add, hblock, ← hblock₂, ← hblock₁, lineLength,
        if_neg hdepth, hcolor, Nat.mul_comm] at hsize
      rw [reach, if_neg (fun h => hdepth h.2)]
      exact hsize

theorem reach_of_readsInside (h : ReadsInside sp cinfo) : reach sp ≤ cinfo.lineSize := by
  obtain ⟨replies, src, hrun, -⟩ := h (fun _ => .line fun _ => 0) (fun _ => 0) [lineLength sp]
  obtain ⟨result, hcall, -⟩ := bind_eq_ok.mp hrun
  have hheight : ¬cinfo.outputHeight.toNat ≤
      (pixmaJpegReadHeader cinfo fun _ => 0).outputScanline :=
    Nat.not_le.mpr cinfo.height_pos
  rw [pixmaJpegRead, if_neg (fun h => h.1 rfl), if_neg hheight] at hcall
  obtain ⟨block, hcopy, hcall⟩ := bind_eq_ok.mp hcall
  obtain ⟨block₁, hgray, hcall⟩ := bind_eq_ok.mp hcall
  obtain ⟨block₂, hpack, hout⟩ := bind_eq_ok.mp hcall
  have hsize : block.size = cinfo.lineSize := Cells.copy_ok hcopy
  rw [← hsize]
  exact reach_le_of_convert hgray hpack rfl rfl hout

/-- The reader stays in its buffer exactly when a line of the file is long enough for the scan. -/
theorem readsInside_iff (sp : ScanParam) (cinfo : Cinfo) :
    ReadsInside sp cinfo ↔ reach sp ≤ cinfo.lineSize :=
  ⟨reach_of_readsInside, readsInside_of_reach⟩

/-- A gray scan, and a gray image as wide as it: the reader takes every third byte of a line. -/
theorem not_readsInside_gray :
    ¬ReadsInside
      { w := 1280, channels := 1, depth := 8, channels_eq := .inl rfl, depth_eq := .inr rfl,
        w_lt := by decide }
      { outputWidth := 1280, outputHeight := 1, outputComponents := 1, width_pos := by decide,
        height_pos := by decide, components_eq := .inl rfl } :=
  fun h => absurd (reach_of_readsInside h) (by decide)

end Widths

end SaneBackends.Pixma.JpegRead
