import SaneBackends.Lib.CInt
import SaneBackends.Lib.Cells
import SaneBackends.Sanei.Types
/-!
# `scan_it`

The frames of an image are read and written to the output file, line by line where an encoder takes
lines, or after they have been assembled in a buffer. What the backend answers and whether the
allocator grants a size are parameters. Sums and products of `int` that overflow are faults. The
build has libpng and libjpeg, and the machine is little-endian.
-/

namespace SaneBackends.Scanimage

open SaneBackends.Lib

/-- `SANE_Frame`. -/
inductive FrameType where
  | gray | rgb | red | green | blue | jpeg | other
  deriving DecidableEq, Repr

inductive OutputFormat where
  | pnm | tiff | png | jpeg | pdf | pdfPerPage
  deriving DecidableEq, Repr

/-- `SANE_Parameters`. -/
structure Parameters where
  format : FrameType
  lastFrame : Bool := true
  bytesPerLine : Nat
  pixelsPerLine : Nat
  lines : Int
  depth : Nat := 8
  deriving DecidableEq, Repr

/-- A frame as the backend delivers it: what `sane_start` (at last) and `sane_get_parameters` return,
what each `sane_read` delivers and, if it is not the end of the frame, the error after that. -/
structure Frame where
  startStatus : SaneStatus := .good
  parametersStatus : SaneStatus := .good
  parm : Parameters
  reads : List (List UInt8)
  readError : Option SaneStatus := none
  deriving DecidableEq, Repr

inductive ScanFault where
  | outOfBounds
  | nullPointer
  | overflow
  | assertion
  | unfinished
  deriving DecidableEq, Repr

inductive PdfImage where
  | mono | gray | color
  deriving DecidableEq, Repr

/-- The calls that make the output file. `pngCreate` and `jpegCreate` are `write_png_header` and
`write_jpeg_header`. -/
inductive Output where
  | pnmHeader (format : FrameType) (width : Nat) (height : Int) (depth : Nat)
  | tiffHeader (format : FrameType) (width : Nat) (height : Int) (depth : Nat)
  | pdfPage (width : Nat) (height : Int) (image : PdfImage)
  | bytes (data : List UInt8)
  | pngCreate (format : FrameType) (width : Nat) (height : Int) (depth : Nat)
  | pngRow (row : List UInt8)
  | pngEnd
  | pngDestroy
  | jpegCreate (format : FrameType) (width : Nat) (height : Int)
  | jpegRow (row : List UInt8)
  | jpegFinish
  | jpegDestroy
  deriving DecidableEq, Repr

namespace OutputFormat

/-- Lines are written with libjpeg. -/
def usesJpeg : OutputFormat → Bool
  | jpeg | pdf | pdfPerPage => true
  | _ => false

def isPdf : OutputFormat → Bool
  | pdf | pdfPerPage => true
  | _ => false

end OutputFormat

/-! ## The image buffer -/

/-- The result of an `int` operation. -/
def int (n : Int) : Except ScanFault Int :=
  if -2 ^ 31 ≤ n ∧ n < 2 ^ 31 then .ok n else .error .overflow

def stripHeight : Int := 256

/-- `width` is in bytes. -/
structure Image where
  data : Option (Cells UInt8) := none
  width : Int := 0
  height : Int := 0
  x : Int := 0
  y : Int := 0
  numChannels : Int := 0

/-- `height * width * num_channels` -/
def Image.size (image : Image) : Except ScanFault Nat := do
  let lines ← int (image.height * image.width)
  let size ← int (lines * image.numChannels)
  .ok size.toNat

/-- `old_size` -/
def Image.oldSize (image : Image) : Except ScanFault Nat :=
  if image.data.isSome then image.size else .ok 0

/-- The buffer is allocated or reallocated with a strip more. -/
def growImage (malloc : Nat → Bool) (image : Image) : Except ScanFault Image := do
  let oldSize ← image.oldSize
  let height ← int (image.height + stripHeight)
  let newSize ← { image with height }.size
  let old : Nat → UInt8 := fun i => (image.data.map fun data => data.cell i).getD 0
  let data := if malloc newSize then some ⟨newSize, fun i => if i < oldSize then old i else 0⟩
    else none
  .ok { image with height, data }

/-- Without memory for it there is no `data` afterwards. -/
def advance (malloc : Nat → Bool) (image : Image) : Except ScanFault Image :=
  let image := { image with x := image.x + 1 }
  if image.width ≤ image.x then
    let image := { image with x := 0, y := image.y + 1 }
    if image.height ≤ image.y ∨ image.data.isNone then growImage malloc image
    else .ok image
  else .ok image

/-- A byte stored at `index`, if there is memory to go on. -/
def bufferByte (malloc : Nat → Bool) (index : Nat) (byte : UInt8) (image : Image) :
    Except ScanFault (Option Image) :=
  match image.data with
  | none => .error .nullPointer
  | some data =>
      if index < data.size then do
        let image ← advance malloc { image with data := some (data.put index byte) }
        .ok (if image.data.isSome then some image else none)
      else .error .outOfBounds

/-- The bytes of a read, stored `stride` apart. -/
def bufferBytes (malloc : Nat → Bool) (stride : Nat) :
    Nat → List UInt8 → Image → Except ScanFault (Option Image)
  | _, [], image => .ok (some image)
  | index, byte :: rest, image => do
      match ← bufferByte malloc index byte image with
      | none => .ok none
      | some image => bufferBytes malloc stride (index + stride) rest image

/-! ## Lines -/

/-- `pngbuf` and `pngrow`, or `jpegbuf` and `jpegrow`. -/
structure RowBuffer where
  buf : List UInt8 := []
  row : Nat := 0
  deriving DecidableEq, Repr

/-- `memcpy (buf + pos, src, n)` -/
def memcpy (buf : List UInt8) (pos : Nat) (src : List UInt8) (n : Nat) :
    Except ScanFault (List UInt8) :=
  if pos + n ≤ buf.length ∧ n ≤ src.length then
    .ok (buf.take pos ++ src.take n ++ buf.drop (pos + n))
  else .error .outOfBounds

/-- The bytes of each sample are exchanged. -/
def swapPairs : List UInt8 → Except ScanFault (List UInt8)
  | lsb :: msb :: rest => do
      let rest ← swapPairs rest
      .ok (msb :: lsb :: rest)
  | [] => .ok []
  | [_] => .error .outOfBounds

/-- The second byte of each sample. -/
def highBytes : List UInt8 → Except ScanFault (List UInt8)
  | _ :: msb :: rest => do
      let rest ← highBytes rest
      .ok (msb :: rest)
  | [] => .ok []
  | [_] => .error .outOfBounds

def invertBits (row : List UInt8) : List UInt8 := row.map fun byte => ~~~byte

/-- A sample for each bit. -/
def expandBits (row : List UInt8) : List UInt8 :=
  row.flatMap fun byte =>
    (List.range 8).map fun col => if byte &&& (1 <<< UInt8.ofNat (8 - col - 1)) ≠ 0 then 0 else 0xff

/-- A line for `png_write_row`. -/
def pngLine (depth : Nat) (line : List UInt8) : Except ScanFault (List UInt8) :=
  let line := if depth = 1 then invertBits line else line
  if depth = 16 then swapPairs line else .ok line

/-- A line for `jpeg_write_scanlines`. -/
def jpegLine (depth : Nat) (line : List UInt8) : Except ScanFault (List UInt8) :=
  if depth = 1 then .ok (expandBits line)
  else if depth = 16 then highBytes line
  else .ok line

/-- The loop that hands complete lines over. `emit` has the line that is written and what is in the
buffer then. -/
def feedRows (bytesPerLine : Nat) (emit : List UInt8 → Except ScanFault (Output × List UInt8)) :
    Nat → RowBuffer → List UInt8 → Except ScanFault (RowBuffer × List Output)
  | 0, _, _ => .error .unfinished
  | fuel + 1, rows, rest =>
      if bytesPerLine ≤ rows.row + rest.length then do
        let n := bytesPerLine - rows.row
        let buf ← memcpy rows.buf rows.row rest n
        let (output, buf) ← emit buf
        let (rows, outputs) ← feedRows bytesPerLine emit fuel ⟨buf, 0⟩ (rest.drop n)
        .ok (rows, output :: outputs)
      else do
        let buf ← memcpy rows.buf rows.row rest rest.length
        .ok (⟨buf, rows.row + rest.length⟩, [])

def emitPng (depth : Nat) (line : List UInt8) : Except ScanFault (Output × List UInt8) := do
  let row ← pngLine depth line
  .ok (.pngRow row, row)

def emitJpeg (depth : Nat) (line : List UInt8) : Except ScanFault (Output × List UInt8) := do
  let row ← jpegLine depth line
  .ok (.jpegRow row, line)

/-! ## Samples of 16 bits -/

/-- Pairs are exchanged as long as there are two bytes. -/
def swapSamples : List UInt8 → List UInt8
  | lsb :: msb :: rest => msb :: lsb :: swapSamples rest
  | rest => rest

/-- The bytes of a read for a file of big-endian samples, with the byte that is kept. -/
def swapChunk (hangOver : Option UInt8) (chunk : List UInt8) : Option UInt8 × List Output :=
  let (hangOver, before, start, chunk) :=
    match hangOver, chunk with
    | some byte, first :: rest => (none, [Output.bytes [first]], 1, byte :: rest)
    | hangOver, chunk => (hangOver, [], 0, chunk)
  let chunk := chunk.take start ++ swapSamples (chunk.drop start)
  if (chunk.length - start) % 2 ≠ 0 then
    (chunk.getLast?, before ++ [Output.bytes chunk.dropLast])
  else (hangOver, before ++ [.bytes chunk])

/-! ## Frames -/

/-- The local variables, and what has been written. -/
structure Scan where
  image : Image := {}
  offset : Nat := 0
  mustBuffer : Bool := false
  rawJpeg : Bool := false
  rows : RowBuffer := {}
  hangOver : Option UInt8 := none
  out : List Output := []

/-- Where `scan_it` is left. -/
inductive Exit where
  | startFailed (status : SaneStatus)
  | parametersFailed (status : SaneStatus)
  | unsupported
  | noMemory
  | readFailed (status : SaneStatus)
  | finished
  deriving DecidableEq, Repr

/-- Either goes on or is left. -/
abbrev Step := Except ScanFault (Scan × Option Exit)

/-- `format - SANE_FRAME_RED` -/
def FrameType.offset : FrameType → Nat
  | green => 1
  | blue => 2
  | _ => 0

def FrameType.isColorFrame : FrameType → Bool
  | red | green | blue => true
  | _ => false

section Run

variable (output : OutputFormat) (malloc : Nat → Bool)

/-- The header of an image whose size is known when its first line comes. -/
def streamHeader (parm : Parameters) : List Output :=
  match output with
  | .tiff => [.tiffHeader parm.format parm.pixelsPerLine parm.lines parm.depth]
  | .pnm => [.pnmHeader parm.format parm.pixelsPerLine parm.lines parm.depth]
  | .png => [.pngCreate parm.format parm.pixelsPerLine parm.lines parm.depth]
  | .jpeg => [.jpegCreate parm.format parm.pixelsPerLine parm.lines]
  | .pdf | .pdfPerPage =>
      [.pdfPage parm.pixelsPerLine parm.lines
        (if parm.format = .gray then if parm.depth = 1 then .mono else .gray else .color),
       .jpegCreate parm.format parm.pixelsPerLine parm.lines]

def assert (condition : Bool) : Except ScanFault Unit :=
  if condition then .ok () else .error .assertion

/-- What the format of the first frame decides. -/
def chooseFormat (parm : Parameters) (st : Scan) : Step := do
  let st := { st with image := { st.image with numChannels := 1 } }
  match parm.format with
  | .red | .green | .blue =>
      assert (parm.depth = 8)
      .ok ({ st with
        mustBuffer := true
        offset := parm.format.offset
        image := { st.image with numChannels := 3 } }, none)
  | .rgb | .gray =>
      if parm.format = .rgb then assert (parm.depth = 8 || parm.depth = 16)
      assert (parm.depth = 1 || parm.depth = 8 || parm.depth = 16)
      if parm.lines < 0 then .ok ({ st with mustBuffer := true, offset := 0 }, none)
      else .ok ({ st with out := st.out ++ streamHeader output parm }, none)
  | .jpeg =>
      let st := { st with rawJpeg := true }
      match output with
      | .jpeg => .ok (st, none)
      | .pdf | .pdfPerPage =>
          let image := if parm.bytesPerLine = 3 * parm.pixelsPerLine then .color else .gray
          .ok ({ st with out := st.out ++ [.pdfPage parm.pixelsPerLine parm.lines image] }, none)
      | _ => .ok (st, some .unsupported)
  | .other => .ok (st, none)

/-- The first frame. -/
def openFirst (parm : Parameters) (st : Scan) : Step := do
  let (st, exit) ← chooseFormat output parm st
  match exit with
  | some exit => .ok (st, some exit)
  | none =>
      let st := if output = .png ∨ output.usesJpeg then
          { st with rows := ⟨List.replicate parm.bytesPerLine 0, 0⟩ }
        else st
      if st.mustBuffer then do
        let height ← if 0 ≤ parm.lines then int (parm.lines - stripHeight + 1) else .ok 0
        let image ← advance malloc { st.image with
          width := parm.bytesPerLine
          height
          x := parm.bytesPerLine - 1
          y := -1 }
        .ok ({ st with image }, if image.data.isSome then none else some .noMemory)
      else .ok (st, none)

/-- A later frame. -/
def openNext (parm : Parameters) (st : Scan) : Step := do
  assert parm.format.isColorFrame
  .ok ({ st with offset := parm.format.offset, image := { st.image with x := 0, y := 0 } }, none)

/-- What a read delivers goes to the buffer. -/
def bufferChunk (parm : Parameters) (chunk : List UInt8) (st : Scan) : Step :=
  match parm.format with
  | .red | .green | .blue => do
      match ← bufferBytes malloc 3 st.offset chunk { st.image with numChannels := 3 } with
      | none => .ok (st, some .noMemory)
      | some image => do
          let offset ← int (st.offset + 3 * chunk.length)
          .ok ({ st with image, offset := offset.toNat }, none)
  | .rgb | .gray => do
      match ← bufferBytes malloc 1 st.offset chunk { st.image with numChannels := 1 } with
      | none => .ok (st, some .noMemory)
      | some image => do
          let offset ← int (st.offset + chunk.length)
          .ok ({ st with image, offset := offset.toNat }, none)
  | _ => .ok (st, none)

/-- What a read delivers goes to the file. -/
def streamChunk (parm : Parameters) (chunk : List UInt8) (st : Scan) : Step :=
  if st.rawJpeg then .ok ({ st with out := st.out ++ [.bytes chunk] }, none)
  else if output = .png then do
    let (rows, outputs) ←
      feedRows parm.bytesPerLine (emitPng parm.depth) (chunk.length + 1) st.rows chunk
    .ok ({ st with rows, out := st.out ++ outputs }, none)
  else if output.usesJpeg then do
    let (rows, outputs) ←
      feedRows parm.bytesPerLine (emitJpeg parm.depth) (chunk.length + 1) st.rows chunk
    .ok ({ st with rows, out := st.out ++ outputs }, none)
  else if output = .tiff ∨ parm.depth ≠ 16 then
    .ok ({ st with out := st.out ++ [.bytes chunk] }, none)
  else
    let (hangOver, outputs) := swapChunk st.hangOver chunk
    .ok ({ st with hangOver, out := st.out ++ outputs }, none)

def readChunk (parm : Parameters) (chunk : List UInt8) (st : Scan) : Step :=
  if st.mustBuffer then bufferChunk malloc parm chunk st else streamChunk output parm chunk st

/-- The `sane_read` calls of a frame. -/
def readChunks (parm : Parameters) : List (List UInt8) → Scan → Step
  | [], st => .ok (st, none)
  | chunk :: rest, st => do
      let (st, exit) ← readChunk output malloc parm chunk st
      match exit with
      | some exit => .ok (st, some exit)
      | none => readChunks parm rest st

/-- A frame from `sane_start` to the last `sane_read`. -/
def scanFrame (firstFrame : Bool) (frame : Frame) (st : Scan) : Step :=
  if ¬ firstFrame ∧ frame.startStatus ≠ .good then
    .ok (st, some (.startFailed frame.startStatus))
  else if frame.parametersStatus ≠ .good then
    .ok (st, some (.parametersFailed frame.parametersStatus))
  else do
    let (st, exit) ← if firstFrame then openFirst output malloc frame.parm st
      else openNext frame.parm st
    match exit with
    | some exit => .ok (st, some exit)
    | none =>
        let (st, exit) ← readChunks output malloc frame.parm frame.reads st
        match exit with
        | some exit => .ok (st, some exit)
        | none => .ok (st, frame.readError.map .readFailed)

/-- The frames up to the last one, with its parameters. -/
def scanFrames : Bool → List Frame → Scan → Except ScanFault (Scan × (Exit ⊕ Parameters))
  | _, [], _ => .error .unfinished
  | firstFrame, frame :: frames, st => do
      let (st, exit) ← scanFrame output malloc firstFrame frame st
      match exit with
      | some exit => .ok (st, .inl exit)
      | none =>
          if frame.parm.lastFrame then .ok (st, .inr frame.parm) else scanFrames false frames st

/-- The header of an image that is complete. -/
def bufferHeader (parm : Parameters) (height : Int) : List Output :=
  match output with
  | .tiff => [.tiffHeader parm.format parm.pixelsPerLine height parm.depth]
  | .pnm => [.pnmHeader parm.format parm.pixelsPerLine height parm.depth]
  | .png => [.pngCreate parm.format parm.pixelsPerLine height parm.depth]
  | .jpeg => [.jpegCreate parm.format parm.pixelsPerLine parm.lines]
  | .pdf | .pdfPerPage =>
      [.pdfPage parm.pixelsPerLine parm.lines .color,
       .jpegCreate parm.format parm.pixelsPerLine parm.lines]

/-- One turn of the loop that makes samples big-endian. -/
def swapSample (k : Nat) (data : Cells UInt8) : Except CellFault (Cells UInt8) := do
  let lsb ← data.load (2 * k)
  let msb ← data.load (2 * k + 1)
  let data ← data.store (2 * k) msb
  data.store (2 * k + 1) lsb

/-- The image that has been assembled is written. -/
def writeBuffer (parm : Parameters) (st : Scan) : Except ScanFault Scan := do
  let image := { st.image with height := st.image.y }
  let out := st.out ++ bufferHeader output parm image.height
  match image.data with
  | none => .error .nullPointer
  | some data =>
      let data ←
        if output ≠ .tiff ∧ parm.depth = 16 then do
          let bytes ← int (image.height * image.width)
          (forTo ((bytes.toNat + 1) / 2) swapSample data).mapError fun _ => .outOfBounds
        else .ok data
      let size ← image.size
      if size ≤ data.size then
        .ok { st with image, out := out ++ [.bytes ((List.range size).map data.cell)] }
      else .error .outOfBounds

/-- The label `cleanup`. -/
def cleanup (st : Scan) : List Output :=
  st.out ++
    if output = .png then [Output.pngDestroy]
    else if output.usesJpeg ∧ ¬ st.rawJpeg then [Output.jpegDestroy]
    else []

/-- What is written, and where the function is left. A read error returns at once. -/
def scanIt (frames : List Frame) : Except ScanFault (List Output × Exit) := do
  let (st, result) ← scanFrames output malloc true frames {}
  match result with
  | .inl (.readFailed status) => .ok (st.out, .readFailed status)
  | .inl exit => .ok (cleanup output st, exit)
  | .inr parm => do
      let st ← if st.mustBuffer then writeBuffer output parm st else .ok st
      let out := st.out ++
        if output = .png then [.pngEnd]
        else if output.usesJpeg ∧ ¬ st.rawJpeg then [.jpegFinish]
        else []
      .ok (cleanup output { st with out }, .finished)

end Run

/-! ## The first frame -/

section First

variable {output : OutputFormat} {parm : Parameters} {st : Scan}

theorem assert_eq {condition : Bool} (h : condition = true) : assert condition = .ok () := if_pos h

theorem chooseFormat_color (hformat : parm.format.isColorFrame = true) (hdepth : parm.depth = 8) :
    chooseFormat output parm st = .ok ({ st with
      mustBuffer := true
      offset := parm.format.offset
      image := { st.image with numChannels := 3 } }, none) := by
  have hassert : assert (parm.depth = 8) = .ok () := assert_eq (decide_eq_true hdepth)
  unfold chooseFormat
  cases hcase : parm.format with
  | red | green | blue => exact congrArg (· >>= _) hassert
  | _ => rw [hcase] at hformat; cases hformat

theorem chooseFormat_plain (hformat : parm.format = .gray ∨ parm.format = .rgb)
    (hdepth : parm.depth = 8 ∨ parm.depth = 16 ∨ parm.depth = 1 ∧ parm.format = .gray) :
    chooseFormat output parm st =
      if parm.lines < 0 then .ok ({ st with
        image := { st.image with numChannels := 1 }, mustBuffer := true, offset := 0 }, none)
      else .ok ({ st with
        image := { st.image with numChannels := 1 }, out := st.out ++ streamHeader output parm },
        none) := by
  have hsome : assert (parm.depth = 1 || parm.depth = 8 || parm.depth = 16) = .ok () := by
    apply assert_eq
    obtain h | h | ⟨h, -⟩ := hdepth <;> rw [h] <;> rfl
  unfold chooseFormat
  obtain hgray | hrgb := hformat
  · rw [hgray]
    dsimp only
    rw [if_neg (by decide), hsome]
    rfl
  · have hboth : assert (parm.depth = 8 || parm.depth = 16) = .ok () := by
      apply assert_eq
      obtain h | h | ⟨-, h⟩ := hdepth
      · rw [h]
        rfl
      · rw [h]
        rfl
      · rw [hrgb] at h
        cases h
    rw [hrgb]
    dsimp only
    rw [if_pos rfl, hboth, ok_bind, hsome]
    rfl

end First

/-! ## Frames that are buffered -/

section Buffered

variable {parm : Parameters}

/-- The bytes of a frame in this format are stored so far apart. -/
def FrameType.stride : FrameType → Nat
  | red | green | blue => 3
  | _ => 1

/-- What follows the bytes of a read. -/
def afterBytes (stride : Nat) (chunk : List UInt8) (st : Scan) : Option Image → Step
  | none => .ok (st, some .noMemory)
  | some image => do
      let offset ← int (st.offset + stride * chunk.length)
      .ok ({ st with image, offset := offset.toNat }, none)

/-- The formats that are buffered are handled alike. -/
theorem bufferChunk_eq {malloc : Nat → Bool}
    (hformat : parm.format.isColorFrame = true ∨ parm.format = .gray ∨ parm.format = .rgb)
    (chunk : List UInt8) (st : Scan) :
    let stride := parm.format.stride
    bufferChunk malloc parm chunk st =
      (bufferBytes malloc stride st.offset chunk { st.image with numChannels := stride } >>=
        afterBytes stride chunk st) := by
  unfold bufferChunk FrameType.stride
  cases hcase : parm.format with
  | red | green | blue => rfl
  | gray | rgb =>
      refine congrArg (bufferBytes malloc 1 st.offset chunk { st.image with numChannels := 1 } >>= ·)
        (funext fun stored => ?_)
      cases stored with
      | none => rfl
      | some image => rw [afterBytes, Nat.cast_one, one_mul]
  | jpeg | other =>
      rw [hcase] at hformat
      obtain h | h | h := hformat <;> cases h

end Buffered

/-! ## Frames that are read to their end -/

section Frames

variable {output : OutputFormat} {malloc : Nat → Bool} {frame : Frame} {st st₁ st₂ : Scan}

theorem scanFrame_first (hparameters : frame.parametersStatus = .good)
    (hopen : openFirst output malloc frame.parm st = .ok (st₁, none))
    (hread : readChunks output malloc frame.parm frame.reads st₁ = .ok (st₂, none)) :
    scanFrame output malloc true frame st = .ok (st₂, frame.readError.map .readFailed) := by
  rw [scanFrame, if_neg (fun h => h.1 rfl), if_neg (fun h => h hparameters), if_pos rfl, hopen,
    ok_bind]
  dsimp only
  rw [hread]
  rfl

theorem scanFrame_next (hstart : frame.startStatus = .good)
    (hparameters : frame.parametersStatus = .good)
    (hopen : openNext frame.parm st = .ok (st₁, none))
    (hread : readChunks output malloc frame.parm frame.reads st₁ = .ok (st₂, none)) :
    scanFrame output malloc false frame st = .ok (st₂, frame.readError.map .readFailed) := by
  rw [scanFrame, if_neg (fun h => h.2 hstart), if_neg (fun h => h hparameters),
    if_neg Bool.false_ne_true, hopen, ok_bind]
  dsimp only
  rw [hread]
  rfl

end Frames

end SaneBackends.Scanimage
