import SaneBackends.Lib.Reads
import SaneBackends.Sanei.Types
/-!
# The streamed pages of the eSCL backend

The end of `sane_start`, which starts the stream of a JPEG, PNG or TIFF page, and `sane_read`.
The image libraries are decoders that give one row after the other; what they report of an
image is a `Page`.
-/

namespace SaneBackends.Escl

open SaneBackends.Lib

/-- The formats whose pages are streamed. -/
inductive Format where
  | jpeg
  | png
  | tiff
  deriving DecidableEq, Repr

/-- What the decoder reports of an image, with the rows that can be read before it fails and
whether the end of the image is in order. The code of the planar configuration and of the
photometric interpretation are those of TIFF. -/
structure Page where
  width : Nat
  height : Nat
  samples : Nat
  bits : Nat
  planar : Nat
  photometric : Nat
  rows : List (List UInt8)
  endOk : Bool
  rows_le : rows.length ≤ height
  deriving DecidableEq, Repr

/-- `PLANARCONFIG_CONTIG`. -/
def planarconfigContig : Nat := 1

/-- `PHOTOMETRIC_MINISBLACK`. -/
def photometricMinisblack : Nat := 1

/-- `PHOTOMETRIC_RGB`. -/
def photometricRgb : Nat := 2

/-- `TIFFScanlineSize`, and the size of a row of the other decoders. -/
def Page.rawSize (p : Page) : Nat :=
  if p.planar = planarconfigContig then (p.width * p.samples * p.bits + 7) / 8
  else (p.width * p.bits + 7) / 8

/-- `x_off`, `y_off`, `real_width` and `real_height`. An extent of 0 also stands for one that
the code makes negative. -/
structure Crop (p : Page) where
  xOff : Nat
  yOff : Nat
  realWidth : Nat
  realHeight : Nat
  le_width : 0 < realWidth → xOff + realWidth ≤ p.width
  le_height : 0 < realHeight → yOff + realHeight ≤ p.height
  deriving DecidableEq, Repr

variable {p : Page}

/-- The line is one of the crop rectangle. -/
def Crop.HasLine (c : Crop p) (line : Nat) : Prop := c.yOff ≤ line ∧ line < c.yOff + c.realHeight

instance (c : Crop p) (line : Nat) : Decidable (c.HasLine line) :=
  inferInstanceAs (Decidable (_ ∧ _))

/-- The part of a stream that changes with reads: `row`, `row_pos`, the number of the next
line and `eof`. -/
structure Stream where
  row : List UInt8
  rowPos : Nat
  line : Nat
  eof : Bool
  deriving DecidableEq, Repr

/-- What differs between the three readers: what becomes of a line that was read, as the row
to copy from, if that starts anew, and whether the decoder has to see the end of the image. -/
structure Reader where
  load : List UInt8 → Nat → List UInt8 → Option (List UInt8)
  readEnd : Bool

/-- The columns of the crop rectangle, copied. -/
def Crop.copyRow (c : Crop p) (bps : Nat) (full : List UInt8) : List UInt8 :=
  (full.drop (c.xOff * bps)).take (c.realWidth * bps)

/-- The columns of the crop rectangle, as `escl_tiff_stream_read` fills its row. -/
def Crop.tiffRow (c : Crop p) (raw : List UInt8) : List UInt8 :=
  (List.range c.realWidth).flatMap fun x =>
    let source := if p.samples = 1 then c.xOff + x else (c.xOff + x) * 3
    if p.samples = 1 then List.replicate 3 (raw.getD source 0)
    else if source + 2 < p.rawSize then
      [raw.getD source 0, raw.getD (source + 1) 0, raw.getD (source + 2) 0]
    else List.replicate 3 (raw.getD (c.xOff + x) 0)

/-- The reader of JPEG pages goes back to the start of its row for every line. -/
def jpegReader (c : Crop p) : Reader where
  load row line full := some (if c.HasLine line then c.copyRow p.samples full else row)
  readEnd := true

def pngReader (c : Crop p) : Reader where
  load _ line full := if c.HasLine line then some (c.copyRow 3 full) else none
  readEnd := true

def tiffReader (c : Crop p) : Reader where
  load _ line full := if c.HasLine line then some (c.tiffRow full) else none
  readEnd := false

/-- The loop of a read. Each turn copies at least a byte, or takes a line, or is the last one. -/
def readLoop (p : Page) (reader : Reader) (maxlen : Nat) :
    Nat → List UInt8 → Stream → SaneStatus × List UInt8 × Stream
  | 0, buf, s => (.good, buf, s)
  | turns + 1, buf, s =>
      if buf.length < maxlen ∧ s.eof = false then
        if s.rowPos < s.row.length then
          let count := min (s.row.length - s.rowPos) (maxlen - buf.length)
          readLoop p reader maxlen turns (buf ++ (s.row.drop s.rowPos).take count)
            { s with rowPos := s.rowPos + count }
        else if p.height ≤ s.line then
          if reader.readEnd = true ∧ p.endOk = false then (.inval, buf, s)
          else readLoop p reader maxlen turns buf { s with eof := true }
        else
          match p.rows[s.line]? with
          | none => (.inval, buf, s)
          | some full =>
              match reader.load s.row s.line full with
              | none => readLoop p reader maxlen turns buf { s with line := s.line + 1 }
              | some row =>
                  readLoop p reader maxlen turns buf
                    { s with row := row, rowPos := 0, line := s.line + 1 }
      else if buf = [] ∧ s.eof = true then (.eof, buf, s)
      else (.good, buf, s)

/-- A read of a stream. -/
def streamRead (p : Page) (reader : Reader) (s : Stream) (maxlen : Nat) :
    SaneStatus × List UInt8 × Stream :=
  if maxlen = 0 then (.inval, [], s)
  else readLoop p reader maxlen (maxlen + (p.height - s.line) + 2) [] s

/-- `escl_jpeg_stream_read`. -/
def jpegStreamRead (p : Page) (c : Crop p) := streamRead p (jpegReader c)

/-- `escl_png_stream_read`. -/
def pngStreamRead (p : Page) (c : Crop p) := streamRead p (pngReader c)

/-- `escl_tiff_stream_read`. -/
def tiffStreamRead (p : Page) (c : Crop p) := streamRead p (tiffReader c)

def Format.streamRead : Format → (p : Page) → Crop p → Stream → Nat →
    SaneStatus × List UInt8 × Stream
  | .jpeg => jpegStreamRead
  | .png => pngStreamRead
  | .tiff => tiffStreamRead

/-- What `sane_start` leaves for the reads of a page. -/
structure Handler where
  stream : Option Stream
  endRead : Bool
  lines : Nat
  bytesPerLine : Nat
  deriving DecidableEq, Repr

/-- The stream behind its start, with a row from `malloc`. -/
def Stream.start (junk : Nat → UInt8) (rowSize : Nat) : Stream where
  row := (List.range rowSize).map junk
  rowPos := rowSize
  line := 0
  eof := false

/-- `ps` as it is set from `w`, `he` and `bps`. -/
def Handler.start (stream : Option Stream) (w he bps : Nat) : Handler where
  stream := stream
  endRead := false
  lines := he
  bytesPerLine := w * bps

/-- `escl_jpeg_stream_start`, for the image that the decoder finds. -/
def jpegStreamStart (junk : Nat → UInt8) (p : Page) (c : Crop p) : Option Handler :=
  let rowSize := c.realWidth * p.samples
  if rowSize = 0 then none
  else some (.start (some (.start junk rowSize)) c.realWidth c.realHeight p.samples)

/-- `escl_png_stream_start`. -/
def pngStreamStart (junk : Nat → UInt8) (p : Page) (c : Crop p) : Option Handler :=
  if p.width = 0 ∨ p.height = 0 ∨ p.samples ≠ 3 then none
  else
    let rowSize := c.realWidth * 3
    if rowSize = 0 then none
    else some (.start (some (.start junk rowSize)) c.realWidth c.realHeight 3)

/-- The tags with which `escl_tiff_stream_start` goes on. -/
def Page.TagsSupported (p : Page) : Prop :=
  p.bits = 8 ∧ p.planar = planarconfigContig ∧ (p.samples = 1 ∨ p.samples = 3) ∧
    (p.photometric = photometricRgb ∨ p.photometric = photometricMinisblack)

instance : Decidable p.TagsSupported := inferInstanceAs (Decidable (_ ∧ _ ∧ _ ∧ _))

/-- `escl_tiff_stream_start`. The exit `unsupported` reports success without a stream. -/
def tiffStreamStart (junk : Nat → UInt8) (p : Page) (c : Crop p) : Option Handler :=
  if ¬ p.TagsSupported then some (.start none 0 0 0)
  else if p.rawSize = 0 then none
  else if c.realWidth = 0 ∨ c.realHeight = 0 then some (.start none 0 0 0)
  else some (.start (some (.start junk (c.realWidth * 3))) c.realWidth c.realHeight 3)

/-- The start of a stream, from `sane_start`. Without a handler it has failed with
`SANE_STATUS_INVAL`. -/
def Format.streamStart : Format → (Nat → UInt8) → (p : Page) → Crop p → Option Handler
  | .jpeg => jpegStreamStart
  | .png => pngStreamStart
  | .tiff => tiffStreamStart

/-- `sane_read` on a handle that was not cancelled and that has no `img_data`. -/
def saneRead (f : Format) (p : Page) (c : Crop p) (h : Handler) (maxlen : Nat) :
    SaneStatus × List UInt8 × Handler :=
  match h.stream with
  | some s =>
      let (status, data, s) := f.streamRead p c s maxlen
      if status ≠ .eof then (status, data, { h with stream := some s })
      else (.eof, [], { h with stream := none, endRead := true })
  | none =>
      if h.endRead = false then (.inval, [], h)
      else (.eof, [], h)

end SaneBackends.Escl
