import SaneBackends.Genesys.PixelRow
import SaneBackends.Lib.Loop
/-!
# The node that extracts a part of an image

`ImagePipelineNodeExtract` on a source that delivers the rows of an array. Line counters have
64 bits; a row fits into memory.
-/

namespace SaneBackends.Genesys

open SaneBackends.Lib

/-! ## The code -/

def PixelFormat.totalBits : PixelFormat → Nat
  | .unknown => 0
  | .i1 => 1
  | .rgb111 => 3
  | .i8 => 8
  | .i16 => 16
  | .rgb888 | .bgr888 => 24
  | .rgb161616 | .bgr161616 => 48

/-- What `get_row_bytes` answers for the known formats. -/
def rowSize (format : PixelFormat) (width : Nat) : Nat :=
  format.totalBits * width / 8 + if 0 < format.totalBits * width % 8 then 1 else 0

/-- `ImagePipelineNodeArraySource`, as its constructor lets one be made: the array is large
enough, and is a vector. -/
structure ArraySource where
  width : Nat
  height : Nat
  format : PixelFormat
  data : List UInt8
  height_lt : height < 2 ^ 64
  known : format ≠ .unknown
  enough : rowSize format width * height ≤ data.length
  vector : data.length < 2 ^ 63

structure SourceState where
  nextRow : Nat := 0
  eof : Bool := false

/-- `memcpy (out + dst, data + start, n)`. -/
def memcpy (out : List UInt8) (dst : Nat) (data : List UInt8) (start n : Nat) :
    Except RowFailure (List UInt8) :=
  if dst + n ≤ out.length ∧ start + n ≤ data.length then
    .ok (out.take dst ++ (data.drop start).take n ++ out.drop (dst + n))
  else .error .outOfBounds

/-- `std::fill (out + dst, out + dst + n, 0)`. -/
def fillZero (out : List UInt8) (dst n : Nat) : Except RowFailure (List UInt8) :=
  if dst + n ≤ out.length then
    .ok (out.take dst ++ List.replicate n 0 ++ out.drop (dst + n))
  else .error .outOfBounds

def ArraySource.getNextRowData (source : ArraySource) (st : SourceState) (out : List UInt8) :
    Except RowFailure (Bool × SourceState × List UInt8) :=
  if source.height ≤ st.nextRow then .ok (false, { st with eof := true }, out)
  else do
    let rowBytes ← throws (getPixelRowBytes source.format source.width)
    let out ← memcpy out 0 source.data (rowBytes * st.nextRow) rowBytes
    .ok (true, { st with nextRow := st.nextRow + 1 }, out)

structure ExtractNode where
  source : ArraySource
  offsetX : Nat
  offsetY : Nat
  width : Nat
  height : Nat
  offsetY_lt : offsetY < 2 ^ 64
  height_lt : height < 2 ^ 64

structure ExtractState where
  source : SourceState
  currentLine : Nat
  cachedLine : List UInt8

namespace ExtractNode

/-- The constructor. -/
def start (node : ExtractNode) : ExtractState where
  source := {}
  currentLine := 0
  cachedLine := List.replicate (rowSize node.source.format node.source.width) 0

/-- The loop over the rows above the part that is extracted. -/
def skipRows (node : ExtractNode) :
    Nat → Bool → ExtractState → Except RowFailure (Bool × ExtractState)
  | 0, gotData, st => .ok (gotData, st)
  | k + 1, gotData, st => do
      let (got, source, cachedLine) ← node.source.getNextRowData st.source st.cachedLine
      skipRows node k (gotData && got)
        { source := source, currentLine := st.currentLine + 1, cachedLine := cachedLine }

/-- The loops that store pixels one by one. -/
def storePixels (format : PixelFormat) (pixel : Nat → Except RowFailure RawPixel) :
    Nat → Nat → List UInt8 → Except RowFailure (List UInt8)
  | 0, _, out => .ok out
  | n + 1, i, out => do
      let p ← pixel i
      let out ← setRawPixelToRow out i p format
      storePixels format pixel n (i + 1) out

/-- What is made of a row of the source. -/
def extractRow (node : ExtractNode) (cachedLine out : List UInt8) :
    Except RowFailure (List UInt8) := do
  let format := node.source.format
  let xSrcWidth := min (if node.offsetX < node.source.width then node.source.width - node.offsetX
    else 0) node.width
  let xPadAfter := if xSrcWidth < node.width then node.width - xSrcWidth else 0
  let depth ← throws (getPixelFormatDepth format)
  if depth < 8 then
    let out ← storePixels format
      (fun i => getRawPixelFromRow cachedLine (i + node.offsetX) format) xSrcWidth 0 out
    storePixels format (fun _ => .ok {}) xPadAfter xSrcWidth out
  else
    let bpp := depth / 8
    let out ←
      if 0 < xSrcWidth then memcpy out 0 cachedLine (node.offsetX * bpp) (xSrcWidth * bpp)
      else .ok out
    if 0 < xPadAfter then fillZero out (xSrcWidth * bpp) (xPadAfter * bpp) else .ok out

def getNextRowData (node : ExtractNode) (st : ExtractState) (out : List UInt8) :
    Except RowFailure (Bool × ExtractState × List UInt8) := do
  let (gotData, st) ← node.skipRows (node.offsetY - st.currentLine) true st
  if (node.offsetY + node.source.height) % 2 ^ 64 ≤ st.currentLine then
    let rowBytes ← throws (getPixelRowBytes node.source.format node.width)
    let out ← fillZero out 0 rowBytes
    .ok (gotData, { st with currentLine := (st.currentLine + 1) % 2 ^ 64 }, out)
  else
    let (got, source, cachedLine) ← node.source.getNextRowData st.source st.cachedLine
    let out ← node.extractRow cachedLine out
    .ok (gotData && got,
      { source := source
        currentLine := (st.currentLine + 1) % 2 ^ 64
        cachedLine := cachedLine }, out)

/-- The rows that are got one after another, each into a buffer of the caller. -/
def getRows (node : ExtractNode) :
    ExtractState → List (List UInt8) → Except RowFailure (List (List UInt8))
  | _, [] => .ok []
  | st, out :: outs => do
      let (_, st, row) ← node.getNextRowData st out
      let rows ← node.getRows st outs
      .ok (row :: rows)

end ExtractNode

/-! ## The image -/

/-- A row of the source. -/
def ArraySource.row (source : ArraySource) (y : Nat) : List UInt8 :=
  (source.data.drop (rowSize source.format source.width * y)).take
    (rowSize source.format source.width)

/-- A pixel of the source. -/
def ArraySource.pixel (source : ArraySource) (x y : Nat) : Except RowFailure RawPixel :=
  getRawPixelFromRow (source.row y) x source.format

/-- The pixels of the part of the image, with zeros outside of it. -/
def ExtractNode.pixel (node : ExtractNode) (x y : Nat) : Except RowFailure RawPixel :=
  if x + node.offsetX < node.source.width ∧ y + node.offsetY < node.source.height then
    node.source.pixel (x + node.offsetX) (y + node.offsetY)
  else .ok {}

/-- Whatever buffers the caller has, the rows of the node are those of that part. -/
def ExtractNode.Extracts (node : ExtractNode) : Prop :=
  ∀ outs : List (List UInt8), outs.length = node.height →
    (∀ out ∈ outs, rowSize node.source.format node.width ≤ out.length) →
    ∃ rows, node.getRows node.start outs = .ok rows ∧ rows.length = node.height ∧
      ∀ y row, rows[y]? = some row → ∀ x < node.width,
        getRawPixelFromRow row x node.source.format = node.pixel x y

/-! ## Rows in memory -/

section Memory

variable {out data : List UInt8} {dst start n : Nat}

theorem memcpy_spec (hout : dst + n ≤ out.length) (hdata : start + n ≤ data.length) :
    ∃ out', memcpy out dst data start n = .ok out' ∧ out'.length = out.length ∧
      ∀ i, out'[i]? = if dst ≤ i ∧ i < dst + n then data[start + (i - dst)]? else out[i]? := by
  refine ⟨_, if_pos ⟨hout, hdata⟩, ?_, fun i => ?_⟩
  · simp only [List.length_append, List.length_take, List.length_drop]
    omega
  · have htake : (out.take dst).length = dst := by
      rw [List.length_take]
      omega
    have hmiddle : ((data.drop start).take n).length = n := by
      rw [List.length_take, List.length_drop]
      omega
    rw [List.append_assoc]
    by_cases hbefore : i < dst
    · rw [List.getElem?_append_left (by omega), List.getElem?_take_of_lt hbefore, if_neg (by omega)]
    · rw [List.getElem?_append_right (by omega), htake]
      by_cases hinside : i < dst + n
      · rw [List.getElem?_append_left (by omega), List.getElem?_take_of_lt (by omega),
          List.getElem?_drop, if_pos (by omega)]
      · rw [List.getElem?_append_right (by omega), hmiddle, List.getElem?_drop, if_neg (by omega)]
        congr 1
        omega

theorem fillZero_spec (hout : dst + n ≤ out.length) :
    ∃ out', fillZero out dst n = .ok out' ∧ out'.length = out.length ∧
      ∀ i, out'[i]? = if dst ≤ i ∧ i < dst + n then some 0 else out[i]? := by
  obtain ⟨out', hcopy, hlength, hbytes⟩ :=
    @memcpy_spec out (List.replicate n 0) dst 0 n hout (by rw [List.length_replicate]; omega)
  have heq : fillZero out dst n = memcpy out dst (List.replicate n 0) 0 n := by
    rw [fillZero, memcpy, if_pos hout, if_pos ⟨hout, by rw [List.length_replicate]; omega⟩,
      List.drop_zero, List.take_replicate, Nat.min_self]
  refine ⟨out', heq.trans hcopy, hlength, fun i => ?_⟩
  rw [hbytes]
  split_ifs with hinside
  · rw [List.getElem?_replicate, if_pos (by omega)]
  · rfl

end Memory

/-! ## Formats -/

section Formats

variable {format : PixelFormat}

theorem getPixelRowBytes_eq (hknown : format ≠ .unknown) (width : Nat) :
    getPixelRowBytes format width = .ok (rowSize format width) := by
  cases format with
  | unknown => exact absurd rfl hknown
  | i1 | rgb111 | i8 | rgb888 | bgr888 | i16 | rgb161616 | bgr161616 => rfl

theorem rowSize_of_bytes (hformat : 0 < format.bytes) (width : Nat) :
    rowSize format width = format.bytes * width := by
  have hbits : format.totalBits = 8 * format.bytes := by
    cases format with
    | unknown | i1 | rgb111 => exact absurd hformat (Nat.lt_irrefl 0)
    | i8 | rgb888 | bgr888 | i16 | rgb161616 | bgr161616 => rfl
  rw [rowSize, hbits, Nat.mul_assoc, Nat.mul_mod_right, if_neg (Nat.lt_irrefl 0),
    Nat.mul_div_cancel_left _ (by decide), Nat.add_zero]

theorem le_rowSize_of_subByte (hformat : format.SubByte) (width : Nat) :
    format.bits * width ≤ 8 * rowSize format width := by
  have hbits : format.totalBits = format.bits := by
    obtain rfl | rfl := hformat <;> rfl
  rw [rowSize, hbits]
  generalize format.bits * width = total
  split_ifs <;> omega

/-- The depth of the format, which is that of one channel. -/
def PixelFormat.depth : PixelFormat → Nat
  | .unknown => 0
  | .i1 | .rgb111 => 1
  | .i8 | .rgb888 | .bgr888 => 8
  | .i16 | .rgb161616 | .bgr161616 => 16

theorem getPixelFormatDepth_eq (hknown : format ≠ .unknown) :
    getPixelFormatDepth format = .ok format.depth := by
  cases format with
  | unknown => exact absurd rfl hknown
  | i1 | rgb111 | i8 | rgb888 | bgr888 | i16 | rgb161616 | bgr161616 => rfl

/-- A channel is a whole pixel, or less than a byte of one. -/
def PixelFormat.Copied (format : PixelFormat) : Prop :=
  format.SubByte ∨ format = .i8 ∨ format = .i16

end Formats

/-! ## One row -/

section Row

variable {node : ExtractNode} {format : PixelFormat} {cached out : List UInt8}

/-- How many pixels of the source a row takes. -/
def ExtractNode.xSrcWidth (node : ExtractNode) : Nat :=
  min (if node.offsetX < node.source.width then node.source.width - node.offsetX else 0) node.width

theorem lt_xSrcWidth {x : Nat} :
    x < node.xSrcWidth ↔ x < node.width ∧ x + node.offsetX < node.source.width := by
  unfold ExtractNode.xSrcWidth
  split_ifs <;> omega

theorem xSrcWidth_le {x : Nat} (houtside : ¬ x + node.offsetX < node.source.width) :
    node.xSrcWidth ≤ x := by
  by_contra hlt
  exact houtside (lt_xSrcWidth.mp (not_le.mp hlt)).2

theorem xPadAfter_eq :
    (if node.xSrcWidth < node.width then node.width - node.xSrcWidth else 0) =
      node.width - node.xSrcWidth := by
  split_ifs <;> omega

/-- A bit belongs to one pixel. -/
theorem bit_index (hformat : format.SubByte) {x y k : Nat} (hk : k < format.bits) :
    y * format.bits ≤ x * format.bits + k ∧ x * format.bits + k < y * format.bits + format.bits ↔
      x = y := by
  obtain rfl | rfl := hformat
  · rw [bits_i1] at hk ⊢
    omega
  · rw [bits_rgb111] at hk ⊢
    omega

/-- The loop stores one pixel after another and leaves the others alone. -/
theorem storePixels_bits (hformat : format.SubByte) {pixel : Nat → Except RowFailure RawPixel}
    {bit : Nat → Nat → Bool} (n i : Nat)
    (hpixel : ∀ x, i ≤ x → x < i + n → pixel x = .ok (pixelOfBits format (bit x)))
    (hout : (i + n) * format.bits ≤ 8 * out.length) :
    ∃ out', ExtractNode.storePixels format pixel n i out = .ok out' ∧ out'.length = out.length ∧
      ∀ x, ∀ k < format.bits, bitAt out' (x * format.bits + k) =
        if i ≤ x ∧ x < i + n then some (bit x k) else bitAt out (x * format.bits + k) := by
  induction n generalizing i out with
  | zero =>
      refine ⟨out, rfl, rfl, fun x k _ => ?_⟩
      rw [if_neg (by omega)]
  | succ n ih =>
      have hroom : i * format.bits + format.bits ≤ 8 * out.length := by
        calc i * format.bits + format.bits = (i + 1) * format.bits := by ring
          _ ≤ (i + (n + 1)) * format.bits := Nat.mul_le_mul_right _ (by omega)
          _ ≤ 8 * out.length := hout
      obtain ⟨out₁, hset, hlength₁, hbits₁⟩ := setRawPixelToRow_bits hformat hroom (bit i)
      have hrest : (i + 1 + n) * format.bits ≤ 8 * out₁.length := by
        rw [hlength₁, Nat.add_assoc, Nat.add_comm 1 n]
        exact hout
      obtain ⟨out₂, hstore, hlength₂, hbits₂⟩ :=
        ih (i + 1) (fun x hle hlt => hpixel x (by omega) (by omega)) hrest
      refine ⟨out₂, ?_, hlength₂.trans hlength₁, fun x k hk => ?_⟩
      · rw [ExtractNode.storePixels, hpixel i (Nat.le_refl i) (by omega), ok_bind, hset, ok_bind,
          hstore]
      · rw [hbits₂ x k hk, hbits₁]
        simp only [bit_index hformat hk]
        by_cases hhere : x = i
        · rw [if_neg (by omega), if_pos hhere, if_pos (by omega), hhere, Nat.add_sub_cancel_left]
        · rw [if_neg hhere]
          by_cases hbehind : i + 1 ≤ x ∧ x < i + 1 + n
          · rw [if_pos hbehind, if_pos (by omega)]
          · rw [if_neg hbehind, if_neg (by omega)]

theorem extractRow_subByte (hformat : node.source.format.SubByte)
    (hline : cached.length = rowSize node.source.format node.source.width)
    (hout : rowSize node.source.format node.width ≤ out.length) :
    ∃ out', node.extractRow cached out = .ok out' ∧ ∀ x < node.width,
      getRawPixelFromRow out' x node.source.format =
        if x + node.offsetX < node.source.width then
          getRawPixelFromRow cached (x + node.offsetX) node.source.format
        else .ok {} := by
  have hdepth : node.source.format.depth = 1 := by
    obtain h | h := hformat <;> rw [h] <;> rfl
  have hlineBits := le_rowSize_of_subByte hformat node.source.width
  have houtBits := le_rowSize_of_subByte hformat node.width
  have hpos := bits_pos node.source.format
  obtain ⟨bits, hbits⟩ : ∃ bits, node.source.format.bits = bits := ⟨_, rfl⟩
  rw [hbits] at hlineBits houtBits hpos
  -- the bits of the pixels in the source
  obtain ⟨bit, hbit⟩ : ∃ bit : Nat → Nat → Bool, ∀ x, x + node.offsetX < node.source.width →
      ∀ k < bits, bitAt cached ((x + node.offsetX) * bits + k) = some (bit x k) := by
    refine ⟨fun x k => (bitAt cached ((x + node.offsetX) * bits + k)).getD false, ?_⟩
    intro x hx k hk
    have hindex := part_lt hx hk
    rw [Nat.mul_comm node.source.width] at hindex
    have hinside : ((x + node.offsetX) * bits + k) / 8 < cached.length := by omega
    simp only [bitAt, List.getElem?_eq_getElem hinside, Option.map_some, Option.getD_some]
  have hpixel : ∀ x, x + node.offsetX < node.source.width →
      getRawPixelFromRow cached (x + node.offsetX) node.source.format =
        .ok (pixelOfBits node.source.format (bit x)) := fun x hx =>
    getRawPixelFromRow_of_bits hformat (by rw [hbits]; exact hbit x hx)
  have hroom : node.width * bits ≤ 8 * out.length := by
    rw [Nat.mul_comm]
    omega
  have hsrc : node.xSrcWidth ≤ node.width := Nat.min_le_right _ _
  obtain ⟨out₁, hstore₁, hlength₁, hbits₁⟩ :=
    @storePixels_bits node.source.format out hformat
      (fun i => getRawPixelFromRow cached (i + node.offsetX) node.source.format) bit
      node.xSrcWidth 0
      (fun x _ hx => hpixel x (lt_xSrcWidth.mp (by omega)).2)
      (by rw [hbits]; exact (Nat.mul_le_mul_right _ (by omega)).trans hroom)
  obtain ⟨out₂, hstore₂, -, hbits₂⟩ :=
    @storePixels_bits node.source.format out₁ hformat (fun _ => .ok {}) (fun _ _ => false)
      (node.width - node.xSrcWidth) node.xSrcWidth
      (fun x _ _ => by rw [pixelOfBits_false])
      (by rw [hbits, hlength₁]; exact (Nat.mul_le_mul_right _ (by omega)).trans hroom)
  refine ⟨out₂, ?_, fun x hx => ?_⟩
  · unfold ExtractNode.extractRow
    simp only [getPixelFormatDepth_eq node.source.known, hdepth, throws, ok_bind]
    rw [if_pos (by decide)]
    have hrun : (ExtractNode.storePixels node.source.format
        (fun i => getRawPixelFromRow cached (i + node.offsetX) node.source.format) node.xSrcWidth 0
        out >>= fun out => ExtractNode.storePixels node.source.format (fun _ => .ok {})
          (if node.xSrcWidth < node.width then node.width - node.xSrcWidth else 0)
          node.xSrcWidth out) = .ok out₂ := by
      rw [hstore₁, ok_bind, xPadAfter_eq, hstore₂]
    exact hrun
  · rw [hbits] at hbits₁ hbits₂
    by_cases hinside : x + node.offsetX < node.source.width
    · have hsource : x < node.xSrcWidth := lt_xSrcWidth.mpr ⟨hx, hinside⟩
      rw [if_pos hinside, hpixel x hinside]
      refine getRawPixelFromRow_of_bits hformat fun k hk => ?_
      rw [hbits] at hk ⊢
      rw [hbits₂ x k hk, if_neg (by omega), hbits₁ x k hk, if_pos (by omega)]
    · have hpad := xSrcWidth_le hinside
      rw [if_neg hinside, ← pixelOfBits_false node.source.format]
      refine getRawPixelFromRow_of_bits hformat fun k hk => ?_
      rw [hbits] at hk ⊢
      rw [hbits₂ x k hk, if_pos (by omega)]

/-- `bpp`, which is that of one channel only. -/
def ExtractNode.bpp (node : ExtractNode) : Nat := node.source.format.depth / 8

theorem bpp_bounds (hformat : 0 < node.source.format.bytes) :
    8 ≤ node.source.format.depth ∧ 0 < node.bpp ∧ node.bpp ≤ node.source.format.bytes := by
  unfold ExtractNode.bpp
  cases hcase : node.source.format with
  | unknown | i1 | rgb111 =>
      rw [hcase] at hformat
      exact absurd hformat (Nat.lt_irrefl 0)
  | i8 | rgb888 | bgr888 | i16 | rgb161616 | bgr161616 => decide

/-- A row gets `bpp` bytes for each pixel. -/
theorem extractRow_bytes (hformat : 0 < node.source.format.bytes)
    (hline : cached.length = rowSize node.source.format node.source.width)
    (hout : rowSize node.source.format node.width ≤ out.length) :
    ∃ out', node.extractRow cached out = .ok out' ∧ out'.length = out.length ∧ ∀ i, out'[i]? =
      if i < node.xSrcWidth * node.bpp then cached[node.offsetX * node.bpp + i]?
      else if i < node.width * node.bpp then some 0 else out[i]? := by
  obtain ⟨hdepth, hbpp, hbytes⟩ := bpp_bounds hformat
  rw [rowSize_of_bytes hformat] at hline hout
  have hsrc : node.xSrcWidth ≤ node.width := Nat.min_le_right _ _
  have hroom : node.width * node.bpp ≤ out.length := by
    calc node.width * node.bpp ≤ node.width * node.source.format.bytes :=
          Nat.mul_le_mul_left _ hbytes
      _ ≤ out.length := by rwa [Nat.mul_comm]
  have hsrcRoom : node.xSrcWidth * node.bpp ≤ node.width * node.bpp := Nat.mul_le_mul_right _ hsrc
  have hrun : node.extractRow cached out =
      (if 0 < node.xSrcWidth then
        memcpy out 0 cached (node.offsetX * node.bpp) (node.xSrcWidth * node.bpp) else .ok out) >>=
      fun out => if 0 < node.width - node.xSrcWidth then
        fillZero out (node.xSrcWidth * node.bpp) ((node.width - node.xSrcWidth) * node.bpp)
      else .ok out := by
    rw [← xPadAfter_eq]
    unfold ExtractNode.extractRow
    simp only [getPixelFormatDepth_eq node.source.known, throws, ok_bind]
    rw [if_neg (by omega)]
    by_cases hsome : 0 < node.xSrcWidth
    · rw [if_pos hsome]
      exact if_pos hsome
    · rw [if_neg hsome]
      exact if_neg hsome
  obtain ⟨out₁, hcopy, hlength₁, hbytes₁⟩ : ∃ out₁, (if 0 < node.xSrcWidth then
        memcpy out 0 cached (node.offsetX * node.bpp) (node.xSrcWidth * node.bpp)
      else .ok out) = .ok out₁ ∧ out₁.length = out.length ∧
      ∀ i, out₁[i]? = if i < node.xSrcWidth * node.bpp then cached[node.offsetX * node.bpp + i]?
        else out[i]? := by
    by_cases hsome : 0 < node.xSrcWidth
    · have hlast := (lt_xSrcWidth.mp (show node.xSrcWidth - 1 < node.xSrcWidth by omega)).2
      have hsource : node.offsetX * node.bpp + node.xSrcWidth * node.bpp ≤ cached.length := by
        calc node.offsetX * node.bpp + node.xSrcWidth * node.bpp
            = (node.offsetX + node.xSrcWidth) * node.bpp := by ring
          _ ≤ node.source.width * node.bpp := Nat.mul_le_mul_right _ (by omega)
          _ ≤ node.source.width * node.source.format.bytes := Nat.mul_le_mul_left _ hbytes
          _ = cached.length := by rw [hline, Nat.mul_comm]
      obtain ⟨out₁, hcopy, hlength, hcopied⟩ :=
        @memcpy_spec out cached 0 (node.offsetX * node.bpp) (node.xSrcWidth * node.bpp)
          (by omega) hsource
      refine ⟨out₁, by rw [if_pos hsome, hcopy], hlength, fun i => ?_⟩
      rw [hcopied, Nat.sub_zero, Nat.zero_add]
      simp only [Nat.zero_le, true_and]
    · have hnone : node.xSrcWidth = 0 := by omega
      refine ⟨out, by rw [if_neg hsome], rfl, fun i => ?_⟩
      rw [hnone, Nat.zero_mul, if_neg (Nat.not_lt_zero i)]
  rw [hrun, hcopy, ok_bind]
  by_cases hpad : 0 < node.width - node.xSrcWidth
  · have hend : node.xSrcWidth * node.bpp + (node.width - node.xSrcWidth) * node.bpp =
        node.width * node.bpp := by
      rw [← Nat.add_mul, Nat.add_sub_cancel' hsrc]
    obtain ⟨out₂, hfill, hlength₂, hbytes₂⟩ :=
      @fillZero_spec out₁ (node.xSrcWidth * node.bpp) ((node.width - node.xSrcWidth) * node.bpp)
        (by omega)
    rw [if_pos hpad]
    refine ⟨out₂, hfill, hlength₂.trans hlength₁, fun i => ?_⟩
    rw [hbytes₂, hend, hbytes₁]
    split_ifs <;> first | rfl | omega
  · have hfull : node.xSrcWidth = node.width := by omega
    rw [if_neg hpad]
    refine ⟨out₁, rfl, hlength₁, fun i => ?_⟩
    rw [hbytes₁, hfull]
    split_ifs <;> rfl

/-- With one channel these are the bytes of the pixels. -/
theorem extractRow_oneChannel (hformat : node.source.format = .i8 ∨ node.source.format = .i16)
    (hline : cached.length = rowSize node.source.format node.source.width)
    (hout : rowSize node.source.format node.width ≤ out.length) :
    ∃ out', node.extractRow cached out = .ok out' ∧ ∀ x < node.width,
      getRawPixelFromRow out' x node.source.format =
        if x + node.offsetX < node.source.width then
          getRawPixelFromRow cached (x + node.offsetX) node.source.format
        else .ok {} := by
  have hbytes : 0 < node.source.format.bytes ∧ node.bpp = node.source.format.bytes := by
    unfold ExtractNode.bpp
    obtain h | h := hformat <;> rw [h] <;> decide
  obtain ⟨out', hrun, -, hrow⟩ := extractRow_bytes hbytes.1 hline hout
  rw [hbytes.2] at hrow
  refine ⟨out', hrun, fun x hx => ?_⟩
  by_cases hinside : x + node.offsetX < node.source.width
  · have hsource : x < node.xSrcWidth := lt_xSrcWidth.mpr ⟨hx, hinside⟩
    rw [if_pos hinside]
    refine getRawPixelFromRow_congr hbytes.1 fun k hk => ?_
    rw [hrow, if_pos (part_lt hsource hk)]
    congr 1
    ring
  · have hpad := xSrcWidth_le hinside
    rw [if_neg hinside]
    refine getRawPixelFromRow_of_zeros hbytes.1 fun k hk => ?_
    have hbehind : node.xSrcWidth * node.source.format.bytes ≤ x * node.source.format.bytes :=
      Nat.mul_le_mul_right _ hpad
    rw [hrow, if_neg (by omega), if_pos (part_lt hx hk)]

theorem subByte_or_bytes {format : PixelFormat} (hknown : format ≠ .unknown) :
    format.SubByte ∨ 0 < format.bytes := by
  unfold PixelFormat.SubByte
  cases format with
  | unknown => exact absurd rfl hknown
  | i1 => exact .inl (.inl rfl)
  | rgb111 => exact .inl (.inr rfl)
  | i8 | rgb888 | bgr888 | i16 | rgb161616 | bgr161616 => exact .inr (by decide)

/-- Every row can be made, whatever its pixels are. -/
theorem extractRow_ok (hline : cached.length = rowSize node.source.format node.source.width)
    (hout : rowSize node.source.format node.width ≤ out.length) :
    ∃ out', node.extractRow cached out = .ok out' := by
  cases subByte_or_bytes node.source.known with
  | inl hformat =>
      obtain ⟨out', hrun, -⟩ := extractRow_subByte hformat hline hout
      exact ⟨out', hrun⟩
  | inr hformat =>
      obtain ⟨out', hrun, -⟩ := extractRow_bytes hformat hline hout
      exact ⟨out', hrun⟩

theorem extractRow_copied (hformat : node.source.format.Copied)
    (hline : cached.length = rowSize node.source.format node.source.width)
    (hout : rowSize node.source.format node.width ≤ out.length) {out' : List UInt8}
    (hrun : node.extractRow cached out = .ok out') {x : Nat} (hx : x < node.width) :
    getRawPixelFromRow out' x node.source.format =
      if x + node.offsetX < node.source.width then
        getRawPixelFromRow cached (x + node.offsetX) node.source.format
      else .ok {} := by
  cases hformat with
  | inl hformat =>
      obtain ⟨out₁, hrun₁, hpixels⟩ := extractRow_subByte hformat hline hout
      rw [hrun] at hrun₁
      cases hrun₁
      exact hpixels x hx
  | inr hformat =>
      obtain ⟨out₁, hrun₁, hpixels⟩ := extractRow_oneChannel hformat hline hout
      rw [hrun] at hrun₁
      cases hrun₁
      exact hpixels x hx

/-- A row of zeros has the pixels that are all zero. -/
theorem getRawPixelFromRow_of_zeroRow (hknown : format ≠ .unknown) {width : Nat}
    (h : ∀ i < rowSize format width, out[i]? = some 0) {x : Nat} (hx : x < width) :
    getRawPixelFromRow out x format = .ok {} := by
  cases subByte_or_bytes hknown with
  | inl hformat =>
      rw [← pixelOfBits_false format]
      refine getRawPixelFromRow_of_bits hformat fun k hk => ?_
      have hbits := le_rowSize_of_subByte hformat width
      have hindex : x * format.bits + k < format.bits * width := by
        calc x * format.bits + k < x * format.bits + format.bits := by omega
          _ = format.bits * (x + 1) := by ring
          _ ≤ format.bits * width := Nat.mul_le_mul_left _ hx
      rw [bitAt, h _ (by omega), Option.map_some]
      have hzero : (0 : UInt8).toBitVec = 0#8 := rfl
      rw [hzero, BitVec.getLsbD_zero]
  | inr hformat =>
      refine getRawPixelFromRow_of_zeros hformat fun k hk => h _ ?_
      rw [rowSize_of_bytes hformat]
      calc x * format.bytes + k < x * format.bytes + format.bytes := by omega
        _ = format.bytes * (x + 1) := by ring
        _ ≤ format.bytes * width := Nat.mul_le_mul_left _ hx

end Row

/-! ## The source -/

section Source

variable {source : ArraySource} {y : Nat}

theorem row_le_data (hy : y < source.height) :
    rowSize source.format source.width * y + rowSize source.format source.width ≤
      source.data.length := by
  calc rowSize source.format source.width * y + rowSize source.format source.width
      = rowSize source.format source.width * (y + 1) := by ring
    _ ≤ rowSize source.format source.width * source.height := Nat.mul_le_mul_left _ hy
    _ ≤ source.data.length := source.enough

theorem length_row (hy : y < source.height) :
    (source.row y).length = rowSize source.format source.width := by
  have hrow := row_le_data hy
  rw [ArraySource.row, List.length_take, List.length_drop]
  omega

/-- What is in the cached line behind so many rows. -/
def ArraySource.lineAt (source : ArraySource) (count : Nat) : List UInt8 :=
  if count = 0 then List.replicate (rowSize source.format source.width) 0
  else source.row (count - 1)

theorem length_lineAt (hy : y ≤ source.height) :
    (source.lineAt y).length = rowSize source.format source.width := by
  unfold ArraySource.lineAt
  split_ifs with hzero
  · exact List.length_replicate ..
  · exact length_row (by omega)

/-- The next row is got; behind the last one the line stays as it is. -/
theorem getNextRowData_source {st : SourceState} (hle : st.nextRow ≤ source.height) :
    ∃ got st', source.getNextRowData st (source.lineAt st.nextRow) =
        .ok (got, st', source.lineAt (min (st.nextRow + 1) source.height)) ∧
      st'.nextRow = min (st.nextRow + 1) source.height := by
  unfold ArraySource.getNextRowData
  by_cases hend : source.height ≤ st.nextRow
  · have hlast : min (st.nextRow + 1) source.height = st.nextRow := by omega
    rw [if_pos hend, hlast]
    exact ⟨_, _, rfl, rfl⟩
  · have hnext : min (st.nextRow + 1) source.height = st.nextRow + 1 := by omega
    have hrow := @row_le_data source st.nextRow (by omega)
    have hline := @length_lineAt source st.nextRow hle
    have hdrop : (source.lineAt st.nextRow).drop (0 + rowSize source.format source.width) = [] :=
      List.drop_eq_nil_of_le (by omega)
    rw [if_neg hend, getPixelRowBytes_eq source.known, hnext]
    refine ⟨true, { st with nextRow := st.nextRow + 1 }, ?_, rfl⟩
    simp only [throws, ok_bind]
    rw [memcpy, if_pos ⟨by omega, by omega⟩, ok_bind, List.take_zero, List.nil_append, hdrop,
      List.append_nil, ArraySource.lineAt,
      if_neg (Nat.succ_ne_zero _), Nat.add_sub_cancel]
    rfl

end Source

/-! ## The node -/

namespace ExtractNode

variable {node : ExtractNode} {st : ExtractState} {y : Nat} {out row : List UInt8}

/-- The cached line is the last row that was got of the source. -/
structure Cached (node : ExtractNode) (st : ExtractState) : Prop where
  le : st.source.nextRow ≤ node.source.height
  line : st.cachedLine = node.source.lineAt st.source.nextRow

theorem cached_start (node : ExtractNode) : node.Cached node.start := ⟨Nat.zero_le _, rfl⟩

theorem skipRows_spec (h : node.Cached st) (k : Nat) (gotData : Bool) :
    ∃ got st', node.skipRows k gotData st = .ok (got, st') ∧ node.Cached st' ∧
      st'.source.nextRow = min (st.source.nextRow + k) node.source.height ∧
      st'.currentLine = st.currentLine + k := by
  induction k generalizing gotData st with
  | zero => exact ⟨gotData, st, rfl, h, (Nat.min_eq_left h.le).symm, rfl⟩
  | succ k ih =>
      obtain ⟨got, source, hgot, hnext⟩ := getNextRowData_source h.le
      have hcached : node.Cached
          { source := source
            currentLine := st.currentLine + 1
            cachedLine := node.source.lineAt (min (st.source.nextRow + 1) node.source.height) } :=
        ⟨hnext.trans_le (Nat.min_le_right _ _), by rw [hnext]⟩
      obtain ⟨got', st', hskip, hcached', hnext', hline'⟩ := ih hcached (gotData && got)
      refine ⟨got', st', ?_, hcached', ?_, ?_⟩
      · rw [skipRows, h.line, hgot, ok_bind]
        exact hskip
      · rw [hnext']
        dsimp only
        omega
      · rw [hline']
        dsimp only
        omega

/-- How far the source is when the rows above the part are skipped. -/
def rowsRead (node : ExtractNode) (st : ExtractState) : Nat :=
  min (st.source.nextRow + (node.offsetY - st.currentLine)) node.source.height

/-- All the pixels of the row are zero. -/
def ZeroRow (node : ExtractNode) (row : List UInt8) : Prop :=
  ∀ x < node.width, getRawPixelFromRow row x node.source.format = .ok {}

/-- Behind the last line the row is filled with zeros. -/
theorem getNextRowData_zeros (h : node.Cached st)
    (hout : rowSize node.source.format node.width ≤ out.length)
    (hend : (node.offsetY + node.source.height) % 2 ^ 64 ≤ max st.currentLine node.offsetY) :
    ∃ got st' row, node.getNextRowData st out = .ok (got, st', row) ∧ node.Cached st' ∧
      st'.source.nextRow = node.rowsRead st ∧
      st'.currentLine = (max st.currentLine node.offsetY + 1) % 2 ^ 64 ∧ node.ZeroRow row := by
  obtain ⟨got, st', hskip, hcached, hnext, hline⟩ :=
    skipRows_spec h (node.offsetY - st.currentLine) true
  have hmax : st'.currentLine = max st.currentLine node.offsetY := by omega
  obtain ⟨row, hfill, -, hbytes⟩ :=
    @fillZero_spec out 0 (rowSize node.source.format node.width) (by omega)
  refine ⟨got, { st' with currentLine := (st'.currentLine + 1) % 2 ^ 64 }, row, ?_,
    ⟨hcached.le, hcached.line⟩, hnext, by rw [hmax], ?_⟩
  · rw [getNextRowData, hskip, ok_bind]
    dsimp only
    rw [if_pos (hmax ▸ hend), getPixelRowBytes_eq node.source.known]
    simp only [throws, ok_bind, hfill]
  · intro x hx
    refine getRawPixelFromRow_of_zeroRow node.source.known (fun i hi => ?_) hx
    rw [hbytes, if_pos (by omega)]

/-- Otherwise the row is made of the next one of the source. -/
theorem getNextRowData_extracts (h : node.Cached st)
    (hout : rowSize node.source.format node.width ≤ out.length)
    (hend : ¬ (node.offsetY + node.source.height) % 2 ^ 64 ≤ max st.currentLine node.offsetY) :
    ∃ got st' row, node.getNextRowData st out = .ok (got, st', row) ∧ node.Cached st' ∧
      st'.source.nextRow = min (node.rowsRead st + 1) node.source.height ∧
      st'.currentLine = (max st.currentLine node.offsetY + 1) % 2 ^ 64 ∧
      node.extractRow (node.source.lineAt (min (node.rowsRead st + 1) node.source.height)) out =
        .ok row := by
  obtain ⟨got, st', hskip, hcached, hnext, hline⟩ :=
    skipRows_spec h (node.offsetY - st.currentLine) true
  have hmax : st'.currentLine = max st.currentLine node.offsetY := by omega
  obtain ⟨got', source, hgot, hnext'⟩ := getNextRowData_source hcached.le
  have hrow : st'.source.nextRow = node.rowsRead st := hnext
  rw [hrow] at hgot hnext'
  obtain ⟨row, hmade⟩ := extractRow_ok (length_lineAt
    (Nat.min_le_right (node.rowsRead st + 1) node.source.height)) hout
  refine ⟨got && got',
    { source := source
      currentLine := (st'.currentLine + 1) % 2 ^ 64
      cachedLine := node.source.lineAt (min (node.rowsRead st + 1) node.source.height) },
    row, ?_, ⟨?_, ?_⟩, hnext', by rw [hmax], hmade⟩
  · rw [getNextRowData, hskip, ok_bind]
    dsimp only
    rw [if_neg (hmax ▸ hend), hcached.line, hrow, hgot, ok_bind]
    dsimp only
    rw [hmade, ok_bind]
  · rw [hnext']
    exact Nat.min_le_right _ _
  · rw [hnext']

/-- What each call keeps and makes holds of all the rows. -/
theorem getRows_of_step {I : Nat → ExtractState → Prop}
    {O : Nat → List UInt8 → List UInt8 → Prop}
    (hstep : ∀ y st out, y < node.height → I y st →
      rowSize node.source.format node.width ≤ out.length →
      ∃ got st' row, node.getNextRowData st out = .ok (got, st', row) ∧ I (y + 1) st' ∧ O y out row)
    {outs : List (List UInt8)} (hlength : y + outs.length = node.height)
    (houts : ∀ out ∈ outs, rowSize node.source.format node.width ≤ out.length) (h : I y st) :
    ∃ rows, node.getRows st outs = .ok rows ∧ rows.length = outs.length ∧
      ∀ k row out, rows[k]? = some row → outs[k]? = some out → O (y + k) out row := by
  induction outs generalizing y st with
  | nil => exact ⟨[], rfl, rfl, fun k row out hrow => by cases hrow⟩
  | cons out outs ih =>
      rw [List.length_cons] at hlength
      obtain ⟨got, st', row, hcall, hkept, hmade⟩ :=
        hstep y st out (by omega) h (houts out (.head _))
      obtain ⟨rows, hrows, hlengths, hall⟩ :=
        ih (show y + 1 + outs.length = node.height by omega)
          (fun out' hout' => houts out' (.tail _ hout')) hkept
      refine ⟨row :: rows, ?_, congrArg (· + 1) hlengths, fun k row' out' hrow' hout' => ?_⟩
      · rw [getRows, hcall, ok_bind]
        dsimp only
        rw [hrows, ok_bind]
      · cases k with
        | zero =>
            cases hrow'
            cases hout'
            exact hmade
        | succ k =>
            rw [← Nat.add_assoc, Nat.add_right_comm]
            exact hall k row' out' hrow' hout'

/-- Line counter and source before row `y`, as long as the sum in the code does not wrap. The
counter itself may wrap when the source is at its end. -/
structure Tracks (node : ExtractNode) (y : Nat) (st : ExtractState) : Prop where
  cached : node.Cached st
  rows : node.rowsRead st = min (node.offsetY + y) node.source.height
  line : node.offsetY + y < 2 ^ 64 → max st.currentLine node.offsetY = node.offsetY + y

/-- Row `y` is made of the source's row that many rows further down, or of its last one; it is
zero only where it has to be. -/
def Makes (node : ExtractNode) (y : Nat) (out row : List UInt8) : Prop :=
  node.source.height ≤ y ∧ node.ZeroRow row ∨
    0 < node.source.height ∧ (y < node.source.height ∨ 2 ^ 64 ≤ node.offsetY + y) ∧
      node.extractRow (node.source.lineAt (min (node.offsetY + y + 1) node.source.height)) out =
        .ok row

theorem tracks_start (node : ExtractNode) : node.Tracks 0 node.start := by
  refine ⟨cached_start node, ?_, fun _ => ?_⟩
  · simp [rowsRead, start]
  · simp [start]

/-- A call keeps the counters in step. -/
theorem tracks_step (hwrap : node.offsetY + node.source.height < 2 ^ 64) (h : node.Tracks y st)
    (hout : rowSize node.source.format node.width ≤ out.length) :
    ∃ got st' row, node.getNextRowData st out = .ok (got, st', row) ∧ node.Tracks (y + 1) st' ∧
      node.Makes y out row := by
  have hrows := h.rows
  have hmod : (node.offsetY + node.source.height) % 2 ^ 64 =
      node.offsetY + node.source.height := Nat.mod_eq_of_lt hwrap
  have hline := h.line
  -- what the next call sees of a state behind the current row
  have hnext : ∀ st' : ExtractState,
      st'.currentLine = (max st.currentLine node.offsetY + 1) % 2 ^ 64 →
      st'.source.nextRow = min (node.offsetY + (y + 1)) node.source.height →
      node.rowsRead st' = min (node.offsetY + (y + 1)) node.source.height ∧
        (node.offsetY + (y + 1) < 2 ^ 64 →
          max st'.currentLine node.offsetY = node.offsetY + (y + 1)) := by
    intro st' hline' hnext'
    unfold rowsRead
    rw [hline', hnext']
    by_cases hlow : node.offsetY + (y + 1) < 2 ^ 64
    · rw [hline (by omega), Nat.mod_eq_of_lt (by omega)]
      omega
    · omega
  by_cases hend : (node.offsetY + node.source.height) % 2 ^ 64 ≤ max st.currentLine node.offsetY
  · obtain ⟨got, st', row, hcall, hcached, hsource, hline', hzero⟩ :=
      getNextRowData_zeros h.cached hout hend
    have hbehind : node.source.height ≤ y := by
      by_cases hlow : node.offsetY + y < 2 ^ 64
      · have hnow := hline hlow
        omega
      · omega
    obtain ⟨hrows', hmax'⟩ := hnext st' hline' (by rw [hsource, hrows]; omega)
    exact ⟨got, st', row, hcall, ⟨hcached, hrows', hmax'⟩, .inl ⟨hbehind, hzero⟩⟩
  · obtain ⟨got, st', row, hcall, hcached, hsource, hline', hmade⟩ :=
      getNextRowData_extracts h.cached hout hend
    have hread : min (node.rowsRead st + 1) node.source.height =
        min (node.offsetY + y + 1) node.source.height := by
      rw [hrows]
      omega
    rw [hread] at hsource hmade
    obtain ⟨hrows', hmax'⟩ := hnext st' hline' (by rw [hsource, Nat.add_assoc])
    refine ⟨got, st', row, hcall, ⟨hcached, hrows', hmax'⟩, .inr ⟨by omega, ?_, hmade⟩⟩
    by_cases hlow : node.offsetY + y < 2 ^ 64
    · have hnow := hline hlow
      omega
    · omega

/-- If the sum wraps, all rows are zero. -/
theorem zero_step (hwrap : 2 ^ 64 ≤ node.offsetY + node.source.height) (h : node.Cached st)
    (hout : rowSize node.source.format node.width ≤ out.length) :
    ∃ got st' row, node.getNextRowData st out = .ok (got, st', row) ∧ node.Cached st' ∧
      node.ZeroRow row := by
  have hoffset := node.offsetY_lt
  have hheight := node.source.height_lt
  obtain ⟨got, st', row, hcall, hcached, -, -, hzero⟩ :=
    getNextRowData_zeros h hout (by omega)
  exact ⟨got, st', row, hcall, hcached, hzero⟩

/-! ## The part of the image -/

/-- The pixels of more than one channel are only copied to a third, if a row is made of the
source at all. -/
def MissesChannels (node : ExtractNode) : Prop :=
  ¬ node.source.format.Copied ∧ 0 < node.width ∧ 0 < node.height ∧ 0 < node.source.height ∧
    node.offsetY + node.source.height < 2 ^ 64

/-- The part goes on below a source that it begins inside of, and the last row of the source,
which is then repeated, has a pixel in it that is not zero. -/
def RepeatsLastRow (node : ExtractNode) : Prop :=
  0 < node.offsetY ∧ 0 < node.height ∧ 0 < node.source.height ∧
    node.source.height < node.height + node.offsetY ∧
    node.offsetY + node.source.height < 2 ^ 64 ∧
    ∃ x < node.width, x + node.offsetX < node.source.width ∧
      node.source.pixel (x + node.offsetX) (node.source.height - 1) ≠ .ok {}

/-- An image with pixels in its rows has fewer rows than a vector has bytes. -/
theorem height_lt_of_pixel {source : ArraySource} (hwidth : 0 < source.width) :
    source.height < 2 ^ 63 := by
  have hbits : 0 < source.format.totalBits := by
    have hknown := source.known
    cases hformat : source.format with
    | unknown => exact absurd hformat hknown
    | i1 | rgb111 | i8 | rgb888 | bgr888 | i16 | rgb161616 | bgr161616 => decide
  have hrow : 0 < rowSize source.format source.width := by
    have htotal : 0 < source.format.totalBits * source.width := Nat.mul_pos hbits hwidth
    rw [rowSize]
    generalize source.format.totalBits * source.width = total at htotal
    split_ifs <;> omega
  calc source.height ≤ rowSize source.format source.width * source.height :=
        Nat.le_mul_of_pos_left _ hrow
    _ ≤ source.data.length := source.enough
    _ < 2 ^ 63 := source.vector

theorem lineAt_succ (source : ArraySource) (y : Nat) : source.lineAt (y + 1) = source.row y := by
  rw [ArraySource.lineAt, if_neg (Nat.succ_ne_zero y), Nat.add_sub_cancel]

/-- The pixels of a row that is made are those of the part, unless one of the two happens. -/
theorem makes_pixel (hmisses : ¬ node.MissesChannels) (hrepeats : ¬ node.RepeatsLastRow)
    (hwrap : node.offsetY + node.source.height < 2 ^ 64) (hy : y < node.height)
    (hout : rowSize node.source.format node.width ≤ out.length) (h : node.Makes y out row)
    {x : Nat} (hx : x < node.width) :
    getRawPixelFromRow row x node.source.format = node.pixel x y := by
  unfold pixel
  cases h with
  | inl hzero =>
      rw [hzero.2 x hx, if_neg (by omega)]
  | inr hmade =>
      obtain ⟨hheight, hplace, hmade⟩ := hmade
      have hcopied : node.source.format.Copied := by
        by_contra hformat
        exact hmisses ⟨hformat, by omega, by omega, hheight, hwrap⟩
      rw [extractRow_copied hcopied (length_lineAt (Nat.min_le_right _ _)) hout hmade hx]
      by_cases hinside : x + node.offsetX < node.source.width
      · rw [if_pos hinside]
        by_cases hbelow : y + node.offsetY < node.source.height
        · rw [if_pos ⟨hinside, hbelow⟩, Nat.min_eq_left (by omega), lineAt_succ,
            Nat.add_comm node.offsetY y]
          rfl
        · have hlast : min (node.offsetY + y + 1) node.source.height =
              node.source.height - 1 + 1 := by omega
          rw [if_neg (fun hboth => hbelow hboth.2), hlast, lineAt_succ]
          by_contra hpixel
          have hlt := node.height_lt
          exact hrepeats ⟨by omega, by omega, hheight, by omega, hwrap, x, hx, hinside, hpixel⟩
      · rw [if_neg hinside, if_neg (fun hboth => hinside hboth.1)]

/-- A row that is read of the source, for some contents of the buffers. -/
theorem extracts_row (h : node.Extracts) (hwrap : node.offsetY + node.source.height < 2 ^ 64)
    (byte : UInt8) (hy : y < node.height) (hsource : y < node.source.height) :
    ∃ row, node.extractRow (node.source.lineAt (min (node.offsetY + y + 1) node.source.height))
        (List.replicate (rowSize node.source.format node.width) byte) = .ok row ∧
      ∀ x < node.width, getRawPixelFromRow row x node.source.format = node.pixel x y := by
  obtain ⟨buffer, hbuffer⟩ : ∃ buffer,
    List.replicate (rowSize node.source.format node.width) byte = buffer := ⟨_, rfl⟩
  have hlength : rowSize node.source.format node.width ≤ buffer.length := by
    rw [← hbuffer, List.length_replicate]
  have houts : ∀ out ∈ List.replicate node.height buffer,
      rowSize node.source.format node.width ≤ out.length := by
    intro out hmem
    rw [List.eq_of_mem_replicate hmem]
    exact hlength
  obtain ⟨rows, hrows, hcount, hpixels⟩ := h _ (List.length_replicate ..) houts
  obtain ⟨rows', hrows', -, hmade⟩ := getRows_of_step
    (fun y st out _ htracks hout => @tracks_step node st y out hwrap htracks hout)
    (by rw [List.length_replicate, Nat.zero_add]) houts (tracks_start node)
  rw [hrows] at hrows'
  cases hrows'
  have hrow : rows[y]? = some rows[y] := List.getElem?_eq_getElem (by omega)
  have hmakes := hmade y rows[y] buffer hrow (by rw [List.getElem?_replicate, if_pos hy])
  rw [Nat.zero_add] at hmakes
  cases hmakes with
  | inl hzero => omega
  | inr hmakes => exact ⟨rows[y], hbuffer ▸ hmakes.2.2, fun x hx => hpixels y _ hrow x hx⟩

/-- The last byte of a row lies behind a third of the row. -/
theorem lastByte_place {width bpp : Nat} (hwidth : 0 < width) (hbpp : 0 < bpp) :
    (width - 1) * (3 * bpp) + 3 * bpp = 3 * bpp * width ∧
      width * bpp ≤ (width - 1) * (3 * bpp) + (3 * bpp - 1) := by
  obtain ⟨w, rfl⟩ := Nat.exists_eq_succ_of_ne_zero (show width ≠ 0 by omega)
  have hrow : 3 * bpp * (w + 1) = 3 * (w * bpp) + 3 * bpp := by ring
  have hpixel : w * (3 * bpp) = 3 * (w * bpp) := by ring
  have hthird : (w + 1) * bpp = w * bpp + bpp := by ring
  rw [Nat.succ_sub_one, Nat.succ_eq_add_one, hrow, hpixel, hthird]
  omega

/-- The last byte of a pixel with several channels is left as the caller had it. -/
theorem not_missesChannels (h : node.Extracts) : ¬ node.MissesChannels := by
  rintro ⟨hformat, hwidth, hheight, hsource, hwrap⟩
  have hbytes : 0 < node.source.format.bytes :=
    (subByte_or_bytes node.source.known).resolve_left fun hsub => hformat (.inl hsub)
  have hthird : 3 * node.bpp = node.source.format.bytes ∧ 0 < node.bpp := by
    unfold bpp
    unfold PixelFormat.Copied PixelFormat.SubByte at hformat
    cases hcase : node.source.format with
    | unknown => exact absurd hcase node.source.known
    | i1 | rgb111 | i8 | i16 =>
        rw [hcase] at hformat
        exact absurd hformat (by decide)
    | rgb888 | bgr888 | rgb161616 | bgr161616 => decide
  have hsize := rowSize_of_bytes hbytes node.width
  obtain ⟨hend, hbehind⟩ := lastByte_place hwidth hthird.2
  rw [hthird.1, ← hsize] at hend
  rw [hthird.1] at hbehind
  have hlast : ∀ byte : UInt8, ∃ pixel, node.pixel (node.width - 1) 0 = .ok pixel ∧
      pixel.last node.source.format = byte := by
    intro byte
    obtain ⟨row, hmade, hpixels⟩ := extracts_row h hwrap byte hheight hsource
    obtain ⟨row', hmade', hlength, hrow⟩ := extractRow_bytes hbytes
      (length_lineAt (Nat.min_le_right (node.offsetY + 0 + 1) node.source.height))
      (Nat.le_of_eq (List.length_replicate (n := rowSize node.source.format node.width)
        (a := byte)).symm)
    rw [hmade] at hmade'
    cases hmade'
    rw [List.length_replicate] at hlength
    obtain ⟨pixel, hpixel⟩ :=
      @getRawPixelFromRow_of_le row (node.width - 1) node.source.format hbytes (by omega)
    refine ⟨pixel, (hpixels _ (by omega)).symm.trans hpixel, ?_⟩
    have hless : node.xSrcWidth * node.bpp ≤ node.width * node.bpp :=
      Nat.mul_le_mul_right _ (Nat.min_le_right _ _)
    have hbyte := last_of_getRawPixelFromRow hbytes hpixel
    rw [hrow, if_neg (by omega), if_neg (by omega), List.getElem?_replicate, if_pos (by omega)]
      at hbyte
    exact (Option.some.inj hbyte).symm
  obtain ⟨pixel, hpixel, hzero⟩ := hlast 0
  obtain ⟨pixel', hpixel', hone⟩ := hlast 1
  rw [hpixel] at hpixel'
  cases hpixel'
  rw [hzero] at hone
  exact absurd hone (by decide)

theorem not_repeatsLastRow (h : node.Extracts) : ¬ node.RepeatsLastRow := by
  rintro ⟨hoffset, hheight, hsource, hbelow, hwrap, x, hx, hinside, hpixel⟩
  have hcopied : node.source.format.Copied := by
    by_contra hformat
    exact not_missesChannels h ⟨hformat, by omega, hheight, hsource, hwrap⟩
  obtain ⟨row, hmade, hpixels⟩ := @extracts_row node (node.source.height - node.offsetY) h hwrap 0
    (by omega) (by omega)
  have hread := extractRow_copied hcopied (length_lineAt (Nat.min_le_right _ _))
    (Nat.le_of_eq List.length_replicate.symm) hmade hx
  have hlast : min (node.offsetY + (node.source.height - node.offsetY) + 1) node.source.height =
      node.source.height - 1 + 1 := by omega
  rw [hpixels x hx, if_pos hinside, hlast, lineAt_succ, pixel, if_neg (by omega)] at hread
  exact hpixel hread.symm

/-- The node delivers the part of the image if and only if none of the two happens. -/
theorem extracts_iff (node : ExtractNode) :
    node.Extracts ↔ ¬ node.MissesChannels ∧ ¬ node.RepeatsLastRow := by
  constructor
  · exact fun h => ⟨not_missesChannels h, not_repeatsLastRow h⟩
  · rintro ⟨hmisses, hrepeats⟩ outs hlength houts
    by_cases hwrap : node.offsetY + node.source.height < 2 ^ 64
    · obtain ⟨rows, hrows, hcount, hmade⟩ := getRows_of_step
        (fun y st out _ htracks hout => @tracks_step node st y out hwrap htracks hout)
        ((Nat.zero_add _).trans hlength) houts (tracks_start node)
      refine ⟨rows, hrows, hcount.trans hlength, fun y row hrow x hx => ?_⟩
      have hy : y < outs.length := hcount ▸ (List.getElem?_eq_some_iff.mp hrow).1
      have hmakes := hmade y row outs[y] hrow (List.getElem?_eq_getElem hy)
      rw [Nat.zero_add] at hmakes
      exact makes_pixel hmisses hrepeats hwrap (by omega) (houts _ (List.getElem_mem hy)) hmakes hx
    · obtain ⟨rows, hrows, hcount, hzero⟩ := getRows_of_step (I := fun _ st => node.Cached st)
        (O := fun _ _ row => node.ZeroRow row)
        (fun y st out _ hcached hout =>
          @zero_step node st out (Nat.le_of_not_lt hwrap) hcached hout)
        ((Nat.zero_add _).trans hlength) houts (cached_start node)
      refine ⟨rows, hrows, hcount.trans hlength, fun y row hrow x hx => ?_⟩
      have hy : y < outs.length := hcount ▸ (List.getElem?_eq_some_iff.mp hrow).1
      rw [hzero y row outs[y] hrow (List.getElem?_eq_getElem hy) x hx, pixel, if_neg]
      rintro ⟨hinside, hbelow⟩
      have hmemory := height_lt_of_pixel (show 0 < node.source.width by omega)
      omega

end ExtractNode

/-- An image of one pixel with three bytes, all of which is extracted. -/
def colourNode : ExtractNode where
  source :=
    { width := 1
      height := 1
      format := .rgb888
      data := [1, 2, 3]
      height_lt := by decide
      known := by decide
      enough := by decide
      vector := by decide }
  offsetX := 0
  offsetY := 0
  width := 1
  height := 1
  offsetY_lt := by decide
  height_lt := by decide

/-- Of three bytes one is copied. -/
theorem not_extracts_colour :
    colourNode.getRows colourNode.start [[9, 9, 9]] = .ok [[1, 9, 9]] ∧
      ¬ colourNode.Extracts := by
  have hrun : colourNode.getRows colourNode.start [[9, 9, 9]] = .ok [[1, 9, 9]] := rfl
  refine ⟨hrun, fun h => ?_⟩
  obtain ⟨rows, hrows, -, hpixels⟩ := h [[9, 9, 9]] rfl (by decide)
  rw [hrun] at hrows
  cases hrows
  have hcopied : getRawPixelFromRow [1, 9, 9] 0 .rgb888 = .ok { d0 := 1, d1 := 9, d2 := 9 } := rfl
  have hsource : colourNode.pixel 0 0 = .ok { d0 := 1, d1 := 2, d2 := 3 } := rfl
  have hpixel := (hpixels 0 [1, 9, 9] rfl 0 (by decide)).symm.trans hcopied
  rw [hsource] at hpixel
  cases hpixel

end SaneBackends.Genesys
