import SaneBackends.Lib.ByteBits
import SaneBackends.Sanei.Image
import SaneBackends.Sanei.Types
/-!
# Turning an image

`sanei_magic_turn`, which turns an image in memory by 90, 180 or 270 degrees clockwise. What
`malloc` answers to a size is a parameter, with the contents of the new block.
-/

namespace SaneBackends.Sanei

open SaneBackends.Lib

/-! ## The code -/

namespace ImageParams

variable (params : ImageParams)

/-- `depth`, the bytes of a pixel. -/
def samples : Nat := if params.format = .rgb then 3 else 1

def isBytes : Bool := params.format = .rgb || (params.format = .gray && params.depth = 8)

def isBinary : Bool := params.format = .gray && params.depth = 1

end ImageParams

structure TurnedSize where
  opwidth : Nat
  obwidth : Nat
  oheight : Nat

/-- The size of the output image, or the status that `cleanup` is gone to with. -/
def turnedSize (params : ImageParams) (turn : Int) : Except SaneStatus TurnedSize :=
  if turn = 1 ∨ turn = 3 then
    if params.isBytes then
      .ok
        { opwidth := params.lines
          obwidth := params.lines * params.samples
          oheight := params.pixelsPerLine }
    else if params.isBinary then
      .ok
        { opwidth := params.lines / 8 * 8
          obwidth := params.lines / 8
          oheight := params.pixelsPerLine }
    else .error .inval
  else if turn = 2 then
    .ok
      { opwidth := params.pixelsPerLine
        obwidth := params.bytesPerLine
        oheight := params.lines }
  else .error .good

/-- Where a byte of the output is taken from. -/
def byteSource (params : ImageParams) (turn : Int) (i j k : Nat) : Nat :=
  if turn = 1 then
    (params.lines - j - 1) * params.bytesPerLine + i * params.samples + k
  else if turn = 2 then
    (params.lines - i - 1) * params.bytesPerLine + (params.pixelsPerLine - j - 1) * params.samples +
      k
  else j * params.bytesPerLine + (params.pixelsPerLine - i - 1) * params.samples + k

def turnByte (params : ImageParams) (turn : Int) (size : TurnedSize) (buffer : Cells UInt8)
    (i j k : Nat) (outbuf : Cells UInt8) : Except CellFault (Cells UInt8) := do
  let byte ← buffer.load (byteSource params turn i j k)
  outbuf.store (i * size.obwidth + j * params.samples + k) byte

/-- The byte that a bit of the output is taken from, and how far it is shifted to the right. -/
def bitSource (params : ImageParams) (turn : Int) (i j : Nat) : Nat × Nat :=
  if turn = 1 then ((params.lines - j - 1) * params.bytesPerLine + i / 8, 7 - i % 8)
  else if turn = 2 then
    ((params.lines - i - 1) * params.bytesPerLine + (params.pixelsPerLine - j - 1) / 8, j % 8)
  else (j * params.bytesPerLine + (params.pixelsPerLine - i - 1) / 8, i % 8)

def turnBit (params : ImageParams) (turn : Int) (size : TurnedSize) (buffer : Cells UInt8)
    (i j : Nat) (outbuf : Cells UInt8) : Except CellFault (Cells UInt8) := do
  let (source, shift) := bitSource params turn i j
  let byte ← buffer.load source
  let curr := (byte >>> UInt8.ofNat shift) &&& 1
  let mask : UInt8 := 1 <<< UInt8.ofNat (7 - j % 8)
  let out ← outbuf.load (i * size.obwidth + j / 8)
  outbuf.store (i * size.obwidth + j / 8) (if curr ≠ 0 then out ||| mask else out &&& ~~~mask)

/-- The output is copied back into the input buffer, and the parameters are updated. -/
def finishTurn (params : ImageParams) (size : TurnedSize) (buffer outbuf : Cells UInt8) :
    Except CellFault (SaneStatus × ImageParams × Cells UInt8) := do
  let buffer ← buffer.copy outbuf (size.obwidth * size.oheight)
  let params :=
    { params with
      pixelsPerLine := size.opwidth
      bytesPerLine := size.obwidth
      lines := size.oheight }
  .ok (.good, params, buffer)

def saneiMagicTurn (malloc : Nat → Option (Nat → UInt8)) (params : ImageParams)
    (buffer : Cells UInt8) (angle : Int) :
    Except CellFault (SaneStatus × ImageParams × Cells UInt8) :=
  let turn := (angle.tmod 360).tdiv 90
  match turnedSize params turn with
  | .error status => .ok (status, params, buffer)
  | .ok size =>
      match malloc (size.obwidth * size.oheight) with
      | none => .ok (.noMem, params, buffer)
      | some contents =>
          let outbuf := Cells.mk (size.obwidth * size.oheight) contents
          if params.isBytes then do
            let outbuf ← forTo size.oheight (fun i => forTo size.opwidth fun j =>
              forTo params.samples fun k => turnByte params turn size buffer i j k) outbuf
            finishTurn params size buffer outbuf
          else if params.isBinary then do
            let outbuf ← forTo size.oheight (fun i => forTo size.opwidth fun j =>
              turnBit params turn size buffer i j) outbuf
            finishTurn params size buffer outbuf
          else .ok (.inval, params, buffer)

/-! ## Images -/

/-- A sample of a pixel of bytes. -/
def byteOf (params : ImageParams) (buffer : Cells UInt8) (row col k : Nat) : UInt8 :=
  buffer.cell (row * params.bytesPerLine + col * params.samples + k)

/-- A pixel of one bit. -/
def bitOf (params : ImageParams) (buffer : Cells UInt8) (row col : Nat) : Bool :=
  (buffer.cell (row * params.bytesPerLine + col / 8)).toBitVec.getLsbD (7 - col % 8)

/-- Where a pixel of the turned image was before. -/
def turnedFrom (params : ImageParams) (turn : Int) (i j : Nat) : Nat × Nat :=
  if turn = 1 then (params.lines - j - 1, i)
  else if turn = 2 then (params.lines - i - 1, params.pixelsPerLine - j - 1)
  else (j, params.pixelsPerLine - i - 1)

/-- Lines of pixels of bytes or of bits, with no byte more than these need. -/
def Packed (params : ImageParams) : Prop :=
  params.isBytes = true ∧ params.bytesPerLine = params.pixelsPerLine * params.samples ∨
    params.isBinary = true ∧ params.bytesPerLine = (params.pixelsPerLine + 7) / 8

/-- A line of the image holds all its pixels, and the buffer holds all lines. -/
structure Holds (params : ImageParams) (buffer : Cells UInt8) : Prop where
  kind : params.isBytes = true ∨ params.isBinary = true
  bytes : params.isBytes = true → params.pixelsPerLine * params.samples ≤ params.bytesPerLine
  bits : params.isBinary = true → (params.pixelsPerLine + 7) / 8 ≤ params.bytesPerLine
  lines : params.lines * params.bytesPerLine ≤ buffer.size

/-- The three turns. -/
def IsTurn (turn : Int) : Prop := turn = 1 ∨ turn = 2 ∨ turn = 3

/-- The size of the turned image. Of one of bits whose lines become columns, only the columns that
fill bytes are left. -/
def turnedTo (params : ImageParams) (turn : Int) : TurnedSize where
  opwidth :=
    if turn = 2 then params.pixelsPerLine
    else if params.isBinary then params.lines / 8 * 8
    else params.lines
  obwidth :=
    if turn = 2 then params.bytesPerLine
    else if params.isBinary then params.lines / 8
    else params.lines * params.samples
  oheight := if turn = 2 then params.lines else params.pixelsPerLine

section Sizes

variable {params : ImageParams} {turn : Int} {i j k : Nat}

theorem isBytes_iff : params.isBytes = true ↔
    params.format = .rgb ∨ params.format = .gray ∧ params.depth = 8 := by
  simp [ImageParams.isBytes]

theorem isBinary_iff : params.isBinary = true ↔ params.format = .gray ∧ params.depth = 1 := by
  simp [ImageParams.isBinary]

theorem isBinary_of_isBytes (h : params.isBytes = true) : params.isBinary = false := by
  unfold ImageParams.isBytes at h
  unfold ImageParams.isBinary
  rw [Bool.or_eq_true, Bool.and_eq_true, decide_eq_true_eq, decide_eq_true_eq,
    decide_eq_true_eq] at h
  obtain hrgb | ⟨-, hdepth⟩ := h
  · rw [hrgb]
    rfl
  · rw [hdepth, Bool.and_eq_false_iff]
    exact .inr rfl

theorem not_isBytes_of_isBinary (h : params.isBinary = true) : ¬ params.isBytes = true := by
  intro hbytes
  rw [isBinary_of_isBytes hbytes] at h
  cases h

theorem turnedSize_eq (hturn : IsTurn turn)
    (hkind : params.isBytes = true ∨ params.isBinary = true) :
    turnedSize params turn = .ok (turnedTo params turn) := by
  unfold turnedSize turnedTo
  by_cases htwo : turn = 2
  · subst htwo
    rfl
  · have hside : turn = 1 ∨ turn = 3 := by
      obtain h | h | h := hturn
      · exact .inl h
      · exact absurd h htwo
      · exact .inr h
    simp only [if_pos hside, if_neg htwo]
    by_cases hbytes : params.isBytes = true
    · rw [if_pos hbytes, isBinary_of_isBytes hbytes]
      rfl
    · have hbinary := hkind.resolve_left hbytes
      rw [if_neg hbytes]
      simp only [hbinary, if_true]

/-- The output fits into the input buffer. -/
theorem turnedTo_fits (hpacked : Packed params) :
    (turnedTo params turn).obwidth * (turnedTo params turn).oheight ≤
      params.bytesPerLine * params.lines := by
  unfold turnedTo
  by_cases htwo : turn = 2
  · simp only [if_pos htwo]
    exact Nat.le_refl _
  · simp only [if_neg htwo]
    obtain ⟨hbytes, hwidth⟩ | ⟨hbinary, hwidth⟩ := hpacked
    · rw [if_neg (by rw [isBinary_of_isBytes hbytes]; decide), hwidth]
      exact Nat.le_of_eq (by ring)
    · rw [if_pos hbinary, hwidth]
      have hlines := Nat.div_mul_le_self params.lines 8
      have hcols : params.pixelsPerLine ≤ 8 * ((params.pixelsPerLine + 7) / 8) := by omega
      calc params.lines / 8 * params.pixelsPerLine
          ≤ params.lines / 8 * (8 * ((params.pixelsPerLine + 7) / 8)) := Nat.mul_le_mul_left _ hcols
        _ = params.lines / 8 * 8 * ((params.pixelsPerLine + 7) / 8) := by ring
        _ ≤ params.lines * ((params.pixelsPerLine + 7) / 8) := Nat.mul_le_mul_right _ hlines
        _ = (params.pixelsPerLine + 7) / 8 * params.lines := Nat.mul_comm _ _

theorem turnedTo_of_isBytes (hbytes : params.isBytes = true)
    (hwidth : params.bytesPerLine = params.pixelsPerLine * params.samples) :
    (turnedTo params turn).obwidth = (turnedTo params turn).opwidth * params.samples := by
  simp only [turnedTo, isBinary_of_isBytes hbytes, hwidth, Bool.false_eq_true, if_false]
  split_ifs <;> rfl

theorem turnedTo_of_isBinary (hbinary : params.isBinary = true)
    (hwidth : params.bytesPerLine = (params.pixelsPerLine + 7) / 8) :
    (turnedTo params turn).opwidth ≤ 8 * (turnedTo params turn).obwidth := by
  simp only [turnedTo, if_pos hbinary, hwidth]
  split_ifs <;> omega

theorem turnedFrom_lt (hi : i < (turnedTo params turn).oheight)
    (hj : j < (turnedTo params turn).opwidth) :
    (turnedFrom params turn i j).1 < params.lines ∧
      (turnedFrom params turn i j).2 < params.pixelsPerLine := by
  unfold turnedTo at hi hj
  unfold turnedFrom
  dsimp only at hi hj
  by_cases htwo : turn = 2
  · rw [if_pos htwo] at hi hj
    rw [if_neg (by omega), if_pos htwo]
    constructor <;> dsimp only <;> omega
  · rw [if_neg htwo] at hi hj
    have hcol : j < params.lines := by
      have hlines := Nat.div_mul_le_self params.lines 8
      split_ifs at hj <;> omega
    by_cases hone : turn = 1
    · rw [if_pos hone]
      constructor <;> dsimp only <;> omega
    · rw [if_neg hone, if_neg htwo]
      constructor <;> dsimp only <;> omega

end Sizes

/-! ## Pixels of bytes -/

section Bytes

variable {params : ImageParams} {turn : Int} {buffer outbuf : Cells UInt8} {i j k : Nat}

theorem byteSource_eq (params : ImageParams) (turn : Int) (i j k : Nat) :
    byteSource params turn i j k =
      (turnedFrom params turn i j).1 * params.bytesPerLine +
        (turnedFrom params turn i j).2 * params.samples + k := by
  unfold byteSource turnedFrom
  split_ifs <;> rfl

/-- What is loaded for a byte of the output is the sample where the pixel was. -/
theorem byteSource_lt (hwidth : params.bytesPerLine = params.pixelsPerLine * params.samples)
    (hi : i < (turnedTo params turn).oheight) (hj : j < (turnedTo params turn).opwidth)
    (hk : k < params.samples) :
    byteSource params turn i j k < params.lines * params.bytesPerLine := by
  obtain ⟨hrow, hcol⟩ := turnedFrom_lt hi hj
  rw [byteSource_eq, Nat.add_assoc]
  refine part_lt hrow ?_
  rw [hwidth]
  exact part_lt hcol hk

theorem turnBytes_spec (hwidth : params.bytesPerLine = params.pixelsPerLine * params.samples)
    (hbytes : params.isBytes = true)
    (hbuffer : params.lines * params.bytesPerLine ≤ buffer.size)
    (hout : (turnedTo params turn).obwidth * (turnedTo params turn).oheight ≤ outbuf.size) :
    ∃ outbuf', forTo (turnedTo params turn).oheight (fun i => forTo (turnedTo params turn).opwidth
        fun j => forTo params.samples fun k =>
          turnByte params turn (turnedTo params turn) buffer i j k) outbuf = .ok outbuf' ∧
      outbuf'.size = outbuf.size ∧
      ∀ i < (turnedTo params turn).oheight, ∀ j < (turnedTo params turn).opwidth,
        ∀ k < params.samples,
          outbuf'.cell (i * (turnedTo params turn).obwidth + j * params.samples + k) =
            byteOf params buffer (turnedFrom params turn i j).1
              (turnedFrom params turn i j).2 k := by
  obtain ⟨size, hsize⟩ : ∃ size, size = turnedTo params turn := ⟨_, rfl⟩
  have hrow : size.obwidth = size.opwidth * params.samples :=
    hsize ▸ turnedTo_of_isBytes hbytes hwidth
  have hsource : ∀ {i j k}, i < size.oheight → j < size.opwidth → k < params.samples →
      byteSource params turn i j k < buffer.size := by
    intro i j k hi hj hk
    rw [hsize] at hi hj
    exact Nat.lt_of_lt_of_le (byteSource_lt hwidth hi hj hk) hbuffer
  rw [← hsize] at hout ⊢
  have hflat : forTo size.oheight (fun i => forTo size.opwidth fun j =>
      forTo params.samples fun k => turnByte params turn size buffer i j k) outbuf =
      forTo (size.oheight * size.obwidth) (fun p block => do
        let byte ← buffer.load (byteSource params turn (p / size.obwidth)
          (p % size.obwidth / params.samples) (p % size.obwidth % params.samples))
        block.store p byte) outbuf := by
    calc forTo size.oheight (fun i => forTo size.opwidth fun j =>
          forTo params.samples fun k => turnByte params turn size buffer i j k) outbuf
        = forTo size.oheight (fun i => forTo size.obwidth fun m =>
            turnByte params turn size buffer i (m / params.samples) (m % params.samples))
          outbuf := by
          refine forTo_congr (fun i _ s => ?_) outbuf
          rw [hrow]
          exact forTo_mul size.opwidth params.samples (turnByte params turn size buffer i) s
      _ = forTo (size.oheight * size.obwidth) (fun p => turnByte params turn size buffer
            (p / size.obwidth) (p % size.obwidth / params.samples)
            (p % size.obwidth % params.samples)) outbuf := forTo_mul _ _ (fun i m =>
              turnByte params turn size buffer i (m / params.samples) (m % params.samples)) _
      _ = _ := by
          refine forTo_congr (fun p _ s => ?_) outbuf
          rw [turnByte, Nat.add_assoc, Nat.div_add_mod', Nat.div_add_mod']
  have hpixel : ∀ {i j k}, j < size.opwidth → k < params.samples →
      (i * size.obwidth + j * params.samples + k) / size.obwidth = i ∧
        (i * size.obwidth + j * params.samples + k) % size.obwidth = j * params.samples + k := by
    intro i j k hj hk
    have hinside : j * params.samples + k < size.obwidth := hrow ▸ part_lt hj hk
    rw [Nat.add_assoc, part_div hinside, part_mod hinside]
    exact ⟨rfl, rfl⟩
  obtain ⟨outbuf', hfill, hkeep, hcells⟩ := @Cells.fill_spec _ outbuf
    (size.oheight * size.obwidth)
    (fun p => buffer.load (byteSource params turn (p / size.obwidth)
      (p % size.obwidth / params.samples) (p % size.obwidth % params.samples)))
    (fun p => buffer.cell (byteSource params turn (p / size.obwidth)
      (p % size.obwidth / params.samples) (p % size.obwidth % params.samples)))
    (fun p hp => by
      have hi : p / size.obwidth < size.oheight := Nat.div_lt_of_lt_mul (by rwa [Nat.mul_comm])
      have hpos : 0 < size.obwidth := by
        refine Nat.pos_of_ne_zero fun hzero => ?_
        rw [hzero, Nat.mul_zero] at hp
        exact Nat.not_lt_zero _ hp
      have hplace := Nat.mod_lt p hpos
      rw [hrow] at hpos hplace ⊢
      have hsamples : 0 < params.samples := Nat.pos_of_mul_pos_left hpos
      have hj : p % (size.opwidth * params.samples) / params.samples < size.opwidth :=
        Nat.div_lt_of_lt_mul (by rwa [Nat.mul_comm params.samples])
      exact Cells.load_eq (hsource (hrow ▸ hi) hj (Nat.mod_lt _ hsamples)))
    (by rwa [Nat.mul_comm])
  refine ⟨outbuf', hflat.trans hfill, hkeep, fun i hi j hj k hk => ?_⟩
  obtain ⟨hdiv, hmod⟩ := hpixel (i := i) hj hk
  have hinside : i * size.obwidth + j * params.samples + k < size.oheight * size.obwidth := by
    rw [Nat.add_assoc]
    exact part_lt hi (hrow ▸ part_lt hj hk)
  rw [hcells _ hinside, hdiv, hmod, part_div hk, part_mod hk, byteSource_eq]
  rfl

end Bytes

/-! ## Pixels of one bit -/

/-- A bit of a block of lines. -/
def lineBit (bytes : Nat) (block : Cells UInt8) (row col : Nat) : Bool :=
  (block.cell (row * bytes + col / 8)).toBitVec.getLsbD (7 - col % 8)

/-- The bit that the code takes for a pixel of the output. -/
def pickedBit (params : ImageParams) (turn : Int) (buffer : Cells UInt8) (i j : Nat) : Bool :=
  (buffer.cell (bitSource params turn i j).1).toBitVec.getLsbD (bitSource params turn i j).2

section Bits

variable {params : ImageParams} {turn : Int} {buffer outbuf : Cells UInt8} {i j : Nat}

theorem bitSource_shift_lt (params : ImageParams) (turn : Int) (i j : Nat) :
    (bitSource params turn i j).2 < 8 := by
  unfold bitSource
  split_ifs <;> dsimp only <;> omega

theorem bitSource_eq (params : ImageParams) (turn : Int) (i j : Nat) :
    (bitSource params turn i j).1 =
      (turnedFrom params turn i j).1 * params.bytesPerLine +
        (turnedFrom params turn i j).2 / 8 := by
  unfold bitSource turnedFrom
  split_ifs <;> rfl

/-- The byte of the output with the one bit replaced. -/
theorem replacedBit {out picked : UInt8} {shift k k' : Nat} (hshift : shift < 8) (hk : k < 8)
    (hk' : k' < 8) :
    (if (picked >>> UInt8.ofNat shift) &&& 1 ≠ 0 then out ||| (1 : UInt8) <<< UInt8.ofNat k
      else out &&& ~~~((1 : UInt8) <<< UInt8.ofNat k)).toBitVec.getLsbD k' =
      if k' = k then picked.toBitVec.getLsbD shift else out.toBitVec.getLsbD k' := by
  by_cases hbit : picked.toBitVec.getLsbD shift = true
  · rw [if_pos ((pickedBit_ne_zero picked hshift).mpr hbit), getLsbD_setBit out hk hk', hbit]
  · rw [if_neg (fun hne => hbit ((pickedBit_ne_zero picked hshift).mp hne)),
      getLsbD_clearBit out hk hk', Bool.eq_false_iff.mpr hbit]

/-- A bit after a byte was stored. -/
theorem lineBit_put {bytes i' j' : Nat} (hj : j / 8 < bytes) (hj' : j' / 8 < bytes)
    (block : Cells UInt8) (byte : UInt8) :
    lineBit bytes (block.put (i * bytes + j / 8) byte) i' j' =
      if i' = i ∧ j' / 8 = j / 8 then byte.toBitVec.getLsbD (7 - j' % 8)
      else lineBit bytes block i' j' := by
  unfold lineBit
  by_cases hsame : i' = i ∧ j' / 8 = j / 8
  · obtain ⟨rfl, hbyte⟩ := hsame
    rw [hbyte, Cells.cell_put_self, if_pos ⟨rfl, rfl⟩]
  · have hother : i' * bytes + j' / 8 ≠ i * bytes + j / 8 := by
      intro heq
      refine hsame ⟨?_, ?_⟩
      · rw [← part_div (x := i') hj', heq, part_div hj]
      · rw [← part_mod (x := i') hj', heq, part_mod hj]
    rw [Cells.cell_put_of_ne hother, if_neg hsame]

theorem turnBit_spec {size : TurnedSize} (hsource : (bitSource params turn i j).1 < buffer.size)
    (hout : i * size.obwidth + j / 8 < outbuf.size) (hj : j / 8 < size.obwidth) :
    ∃ outbuf', turnBit params turn size buffer i j outbuf = .ok outbuf' ∧
      outbuf'.size = outbuf.size ∧
      ∀ i' j', j' / 8 < size.obwidth → lineBit size.obwidth outbuf' i' j' =
        if i' = i ∧ j' = j then pickedBit params turn buffer i j
        else lineBit size.obwidth outbuf i' j' := by
  have hshift := bitSource_shift_lt params turn i j
  rw [turnBit]
  dsimp only
  rw [Cells.load_eq hsource, ok_bind, Cells.load_eq hout, ok_bind, Cells.store_eq hout]
  refine ⟨_, rfl, rfl, fun i' j' hj' => ?_⟩
  refine (lineBit_put hj hj' outbuf _).trans ?_
  by_cases hsame : i' = i ∧ j' / 8 = j / 8
  · obtain ⟨rfl, hbyte⟩ := hsame
    rw [if_pos ⟨rfl, hbyte⟩, replacedBit hshift (by omega) (by omega)]
    by_cases hbit : j' = j
    · rw [if_pos (by rw [hbit]), if_pos ⟨rfl, hbit⟩]
      rfl
    · rw [if_neg (by omega), if_neg (fun h => hbit h.2), lineBit, hbyte]
  · rw [if_neg hsame, if_neg]
    rintro ⟨rfl, rfl⟩
    exact hsame ⟨rfl, rfl⟩

theorem turnBits_spec {size : TurnedSize} (hroom : size.opwidth ≤ 8 * size.obwidth)
    (hsource : ∀ i < size.oheight, ∀ j < size.opwidth,
      (bitSource params turn i j).1 < buffer.size)
    (hout : size.obwidth * size.oheight ≤ outbuf.size) :
    ∃ outbuf', forTo size.oheight (fun i => forTo size.opwidth fun j =>
        turnBit params turn size buffer i j) outbuf = .ok outbuf' ∧
      outbuf'.size = outbuf.size ∧
      ∀ i < size.oheight, ∀ j < size.opwidth,
        lineBit size.obwidth outbuf' i j = pickedBit params turn buffer i j := by
  obtain ⟨outbuf', hrun, hkeep, hbits⟩ := @forTo_invariant _ _ (size.oheight * size.opwidth)
    (fun q => turnBit params turn size buffer (q / size.opwidth) (q % size.opwidth)) outbuf
    (fun q block => block.size = outbuf.size ∧ ∀ p < q,
      lineBit size.obwidth block (p / size.opwidth) (p % size.opwidth) =
        pickedBit params turn buffer (p / size.opwidth) (p % size.opwidth))
    ⟨rfl, fun p hp => absurd hp (Nat.not_lt_zero p)⟩ fun q hq block hinv => by
      obtain ⟨hkeep, hbits⟩ := hinv
      have hpos : 0 < size.opwidth := by
        refine Nat.pos_of_ne_zero fun hzero => ?_
        rw [hzero, Nat.mul_zero] at hq
        exact Nat.not_lt_zero _ hq
      have hi : q / size.opwidth < size.oheight := Nat.div_lt_of_lt_mul (by rwa [Nat.mul_comm])
      have hcolumn : ∀ p, p % size.opwidth / 8 < size.obwidth := by
        intro p
        have hlt := Nat.mod_lt p hpos
        exact Nat.div_lt_of_lt_mul (Nat.lt_of_lt_of_le hlt hroom)
      have hplace : q / size.opwidth * size.obwidth + q % size.opwidth / 8 < block.size := by
        rw [hkeep]
        refine Nat.lt_of_lt_of_le (part_lt hi (hcolumn q)) ?_
        rwa [Nat.mul_comm]
      obtain ⟨block', hturn, hsize, hline⟩ :=
        turnBit_spec (hsource _ hi _ (Nat.mod_lt q hpos)) hplace (hcolumn q)
      refine ⟨block', hturn, hsize.trans hkeep, fun p hp => ?_⟩
      rw [hline _ _ (hcolumn p)]
      by_cases hlast : p = q
      · rw [hlast, if_pos ⟨rfl, rfl⟩]
      · rw [if_neg, hbits p (by omega)]
        rintro ⟨hdiv, hmod⟩
        refine hlast ?_
        rw [← Nat.div_add_mod p size.opwidth, ← Nat.div_add_mod q size.opwidth, hdiv, hmod]
  refine ⟨outbuf', ?_, hkeep, fun i hi j hj => ?_⟩
  · rw [forTo_mul]
    exact hrun
  · have hbit := hbits _ (part_lt hi hj)
    rwa [part_div hj, part_mod hj] at hbit

end Bits

/-! ## The turned image -/

/-- The parameters of the turned image. -/
def turnedParams (params : ImageParams) (turn : Int) : ImageParams :=
  { params with
    pixelsPerLine := (turnedTo params turn).opwidth
    bytesPerLine := (turnedTo params turn).obwidth
    lines := (turnedTo params turn).oheight }

/-- Each pixel is the one that was at the place turned back. -/
structure PixelsTurned (params : ImageParams) (turn : Int) (buffer buffer' : Cells UInt8) :
    Prop where
  bytes : params.isBytes = true → ∀ i < (turnedParams params turn).lines,
    ∀ j < (turnedParams params turn).pixelsPerLine, ∀ k < params.samples,
      byteOf (turnedParams params turn) buffer' i j k =
        byteOf params buffer (turnedFrom params turn i j).1 (turnedFrom params turn i j).2 k
  bits : params.isBinary = true → ∀ i < (turnedParams params turn).lines,
    ∀ j < (turnedParams params turn).pixelsPerLine,
      bitOf (turnedParams params turn) buffer' i j =
        bitOf params buffer (turnedFrom params turn i j).1 (turnedFrom params turn i j).2

/-- The column of the bit that is shifted out for the column `width - s - 1`. -/
def shiftedCol (width s : Nat) : Nat := (width - s - 1) / 8 * 8 + (7 - s % 8)

/-- The lines that are turned over. -/
def turnedRows (params : ImageParams) (turn : Int) : Nat :=
  if turn = 2 then params.lines else params.lines / 8 * 8

/-- When all the pixels are turned: those of one bit, when they are turned over, only where the
bit that is shifted out has the same value. -/
def TurnsRight (params : ImageParams) (buffer : Cells UInt8) (turn : Int) : Prop :=
  params.isBytes = true ∨ turn = 1 ∨
    ∀ row < turnedRows params turn, ∀ s < params.pixelsPerLine,
      bitOf params buffer row (shiftedCol params.pixelsPerLine s) =
        bitOf params buffer row (params.pixelsPerLine - s - 1)

section Turned

variable {params : ImageParams} {turn : Int} {buffer outbuf : Cells UInt8} {i j : Nat}

theorem bitOf_shiftedCol (params : ImageParams) (buffer : Cells UInt8) (row s : Nat) :
    bitOf params buffer row (shiftedCol params.pixelsPerLine s) =
      (buffer.cell (row * params.bytesPerLine +
        (params.pixelsPerLine - s - 1) / 8)).toBitVec.getLsbD (s % 8) := by
  have hplace : 7 - s % 8 < 8 := by omega
  have hshift : 7 - (7 - s % 8) = s % 8 := by omega
  rw [bitOf, shiftedCol, part_div hplace, part_mod hplace, hshift]

theorem pickedBit_two (i j : Nat) : pickedBit params 2 buffer i j =
    bitOf params buffer (params.lines - i - 1) (shiftedCol params.pixelsPerLine j) :=
  (bitOf_shiftedCol ..).symm

theorem pickedBit_three (i j : Nat) : pickedBit params 3 buffer i j =
    bitOf params buffer j (shiftedCol params.pixelsPerLine i) :=
  (bitOf_shiftedCol ..).symm

/-- The bits that are picked are those of the pixels in these cases exactly. -/
theorem pickedBits_iff (hturn : IsTurn turn) (hbinary : params.isBinary = true) :
    (∀ i < (turnedTo params turn).oheight, ∀ j < (turnedTo params turn).opwidth,
      pickedBit params turn buffer i j =
        bitOf params buffer (turnedFrom params turn i j).1 (turnedFrom params turn i j).2) ↔
      TurnsRight params buffer turn := by
  have hbytes : ¬ params.isBytes = true := not_isBytes_of_isBinary hbinary
  rw [TurnsRight, or_iff_right hbytes]
  obtain rfl | rfl | rfl := hturn
  · exact ⟨fun _ => .inl rfl, fun _ _ _ _ _ => rfl⟩
  · rw [or_iff_right (by decide)]
    constructor
    · intro h row hrow s hs
      have hrow' : row < params.lines := hrow
      have hpixel := h (params.lines - row - 1) (show _ < params.lines by omega) s hs
      have hback : params.lines - (params.lines - row - 1) - 1 = row := by omega
      have hfrom : turnedFrom params 2 (params.lines - row - 1) s =
          (row, params.pixelsPerLine - s - 1) := by
        change (params.lines - (params.lines - row - 1) - 1, params.pixelsPerLine - s - 1) = _
        rw [hback]
      rw [pickedBit_two, hback, hfrom] at hpixel
      exact hpixel
    · intro h i hi j hj
      have hi' : i < params.lines := hi
      rw [pickedBit_two]
      exact h (params.lines - i - 1) (show _ < params.lines by omega) j hj
  · rw [or_iff_right (by decide)]
    have hwidth : (turnedTo params 3).opwidth = params.lines / 8 * 8 := by
      unfold turnedTo
      simp only [hbinary, if_true]
      rfl
    rw [hwidth]
    constructor
    · intro h row hrow s hs
      have hpixel := h s hs row hrow
      rw [pickedBit_three] at hpixel
      exact hpixel
    · intro h i hi j hj
      rw [pickedBit_three]
      exact h j hj i hi

/-- The output buffer after the loops. -/
theorem turnLoops_spec (hturn : IsTurn turn) (hpacked : Packed params)
    (hbuffer : params.bytesPerLine * params.lines ≤ buffer.size)
    (malloc : Nat → Option (Nat → UInt8)) (hmalloc : ∀ n, ∃ contents, malloc n = some contents) :
    ∃ outbuf, saneiMagicTurn malloc params buffer (90 * turn) =
        finishTurn params (turnedTo params turn) buffer outbuf ∧
      outbuf.size = (turnedTo params turn).obwidth * (turnedTo params turn).oheight ∧
      (PixelsTurned params turn buffer outbuf ↔ TurnsRight params buffer turn) := by
  have hangle : ((90 * turn).tmod 360).tdiv 90 = turn := by
    obtain rfl | rfl | rfl := hturn <;> rfl
  have hkind : params.isBytes = true ∨ params.isBinary = true := by
    obtain ⟨hbytes, -⟩ | ⟨hbinary, -⟩ := hpacked
    · exact .inl hbytes
    · exact .inr hbinary
  obtain ⟨contents, hcontents⟩ :=
    hmalloc ((turnedTo params turn).obwidth * (turnedTo params turn).oheight)
  rw [Nat.mul_comm] at hbuffer
  rw [saneiMagicTurn, hangle]
  dsimp only
  rw [turnedSize_eq hturn hkind]
  dsimp only
  rw [hcontents]
  dsimp only
  obtain ⟨hbytes, hwidth⟩ | ⟨hbinary, hwidth⟩ := hpacked
  · obtain ⟨outbuf, hloop, hsize, hpixels⟩ := @turnBytes_spec params turn buffer
      ⟨(turnedTo params turn).obwidth * (turnedTo params turn).oheight, contents⟩
      hwidth hbytes hbuffer (Nat.le_refl _)
    refine ⟨outbuf, ?_, hsize, fun _ => .inl hbytes, fun _ => ⟨fun _ => hpixels, fun hbinary => ?_⟩⟩
    · rw [if_pos hbytes, hloop, ok_bind]
    · exact absurd hbytes (not_isBytes_of_isBinary hbinary)
  · have hbytes : ¬ params.isBytes = true := not_isBytes_of_isBinary hbinary
    have hroom := @turnedTo_of_isBinary _ turn hbinary hwidth
    have hsource : ∀ i < (turnedTo params turn).oheight, ∀ j < (turnedTo params turn).opwidth,
        (bitSource params turn i j).1 < buffer.size := by
      intro i hi j hj
      obtain ⟨hrow, hcol⟩ := turnedFrom_lt hi hj
      rw [bitSource_eq]
      exact Nat.lt_of_lt_of_le (part_lt hrow (by omega)) hbuffer
    obtain ⟨outbuf, hloop, hsize, hbits⟩ := @turnBits_spec params turn buffer
      ⟨(turnedTo params turn).obwidth * (turnedTo params turn).oheight, contents⟩ _
      hroom hsource (Nat.le_refl _)
    refine ⟨outbuf, ?_, hsize, ?_⟩
    · rw [if_neg hbytes, if_pos hbinary, hloop, ok_bind]
    · rw [← pickedBits_iff hturn hbinary]
      refine ⟨fun h i hi j hj => ?_, fun h => ⟨fun h => absurd h hbytes, fun _ i hi j hj => ?_⟩⟩
      · rw [← hbits i hi j hj]
        exact h.bits hbinary i hi j hj
      · rw [← h i hi j hj, ← hbits i hi j hj]
        rfl

/-- The pixels are in the bytes that are copied back. -/
theorem PixelsTurned.congr {buffer' : Cells UInt8} (hpacked : Packed params)
    (hcells : ∀ p < (turnedTo params turn).obwidth * (turnedTo params turn).oheight,
      buffer'.cell p = outbuf.cell p)
    (h : PixelsTurned params turn buffer outbuf) : PixelsTurned params turn buffer buffer' := by
  rw [Nat.mul_comm] at hcells
  refine ⟨fun hbytes i hi j hj k hk => ?_, fun hbinary i hi j hj => ?_⟩
  · have hwidth : params.bytesPerLine = params.pixelsPerLine * params.samples := by
      obtain ⟨-, hwidth⟩ | ⟨hbinary, -⟩ := hpacked
      · exact hwidth
      · exact absurd hbytes (not_isBytes_of_isBinary hbinary)
    have hinside : j * params.samples + k < (turnedTo params turn).obwidth := by
      rw [turnedTo_of_isBytes hbytes hwidth]
      exact part_lt hj hk
    rw [← h.bytes hbytes i hi j hj k hk]
    refine hcells _ ?_
    rw [Nat.add_assoc]
    exact part_lt hi hinside
  · have hwidth : params.bytesPerLine = (params.pixelsPerLine + 7) / 8 := by
      obtain ⟨hbytes, -⟩ | ⟨-, hwidth⟩ := hpacked
      · exact absurd hbytes (not_isBytes_of_isBinary hbinary)
      · exact hwidth
    have hroom := @turnedTo_of_isBinary _ turn hbinary hwidth
    have hinside : j / 8 < (turnedTo params turn).obwidth :=
      Nat.div_lt_of_lt_mul (Nat.lt_of_lt_of_le hj hroom)
    rw [← h.bits hbinary i hi j hj]
    exact congrArg (fun byte : UInt8 => byte.toBitVec.getLsbD (7 - j % 8))
      (hcells _ (part_lt hi hinside))

theorem saneiMagicTurn_spec (hturn : IsTurn turn) (hpacked : Packed params)
    (hbuffer : params.bytesPerLine * params.lines ≤ buffer.size)
    (malloc : Nat → Option (Nat → UInt8)) (hmalloc : ∀ n, ∃ contents, malloc n = some contents) :
    ∃ buffer', saneiMagicTurn malloc params buffer (90 * turn) =
        .ok (.good, turnedParams params turn, buffer') ∧
      buffer'.size = buffer.size ∧
      (∀ p, (turnedTo params turn).obwidth * (turnedTo params turn).oheight ≤ p →
        buffer'.cell p = buffer.cell p) ∧
      (PixelsTurned params turn buffer buffer' ↔ TurnsRight params buffer turn) := by
  obtain ⟨outbuf, hrun, hsize, hpixels⟩ := turnLoops_spec hturn hpacked hbuffer malloc hmalloc
  have hfits := @turnedTo_fits _ turn hpacked
  obtain ⟨buffer', hcopy, hkeep, hcells, hrest⟩ := Cells.copy_spec
    (Nat.le_trans hfits hbuffer) (Nat.le_of_eq hsize.symm)
  refine ⟨buffer', ?_, hkeep, hrest, ?_⟩
  · rw [hrun, finishTurn, hcopy, ok_bind]
    rfl
  · rw [← hpixels]
    exact ⟨PixelsTurned.congr hpacked fun p hp => (hcells p hp).symm,
      PixelsTurned.congr hpacked hcells⟩

/-- One bit of a line is set. -/
def oneBit (size col : Nat) : Cells UInt8 where
  size := size
  cell p := if p = col / 8 then 1 <<< UInt8.ofNat (7 - col % 8) else 0

theorem bitOf_oneBit (params : ImageParams) (size : Nat) {col col' : Nat}
    (hbyte : col' / 8 = col / 8) :
    bitOf params (oneBit size col) 0 col' = decide (col' % 8 = col % 8) := by
  have hbit := @getLsbD_setBit 0 (7 - col % 8) (7 - col' % 8) (by omega) (by omega)
  rw [UInt8.zero_or] at hbit
  rw [bitOf, Nat.zero_mul, Nat.zero_add, hbyte, oneBit]
  dsimp only
  rw [if_pos rfl, hbit]
  by_cases hsame : col' % 8 = col % 8
  · rw [if_pos (by omega), decide_eq_true hsame]
  · rw [if_neg (by omega), decide_eq_false hsame]
    simp

/-- With whatever pixels, the image is turned right in these cases only. -/
theorem forall_turnsRight_iff (hbinary : params.isBinary = true) (hturn : turn ≠ 1) (size : Nat) :
    (∀ buffer : Cells UInt8, size ≤ buffer.size → TurnsRight params buffer turn) ↔
      params.pixelsPerLine % 8 = 0 ∨ turnedRows params turn = 0 := by
  have hbytes : ¬ params.isBytes = true := not_isBytes_of_isBinary hbinary
  constructor
  · intro h
    by_contra hwrong
    have hagree := ((h (oneBit size (params.pixelsPerLine - 1)) (Nat.le_refl size)).resolve_left
      hbytes).resolve_left hturn 0 (by omega) 0 (by omega)
    have hcol : params.pixelsPerLine - 0 - 1 = params.pixelsPerLine - 1 := rfl
    rw [hcol, bitOf_oneBit params size rfl, bitOf_oneBit params size
      (by rw [shiftedCol, part_div (by omega)]; rfl), shiftedCol, part_mod (by omega),
      decide_eq_true rfl, decide_eq_true_eq] at hagree
    omega
  · intro h buffer _
    refine .inr (.inr fun row hrow s hs => ?_)
    obtain hwidth | hnone := h
    · have hsame : shiftedCol params.pixelsPerLine s = params.pixelsPerLine - s - 1 := by
        unfold shiftedCol
        omega
      rw [hsame]
    · omega

end Turned

/-- The image is turned in these cases exactly, its parameters always, and no more is written back
than there was. With whatever pixels, only images of bytes, those turned by 90 degrees, and those
whose lines fill their bytes come out right. -/
theorem pixelsTurned_iff {malloc : Nat → Option (Nat → UInt8)}
    (hmalloc : ∀ n, ∃ contents, malloc n = some contents) {params : ImageParams} {turn : Int}
    (hturn : IsTurn turn) (hpacked : Packed params) :
    (∀ buffer : Cells UInt8, params.bytesPerLine * params.lines ≤ buffer.size →
      ∃ buffer', saneiMagicTurn malloc params buffer (90 * turn) =
          .ok (.good, turnedParams params turn, buffer') ∧
        (turnedParams params turn).bytesPerLine * (turnedParams params turn).lines ≤
          params.bytesPerLine * params.lines ∧
        (∀ p, (turnedParams params turn).bytesPerLine * (turnedParams params turn).lines ≤ p →
          buffer'.cell p = buffer.cell p) ∧
        (PixelsTurned params turn buffer buffer' ↔ TurnsRight params buffer turn)) ∧
    ((∀ buffer : Cells UInt8, params.bytesPerLine * params.lines ≤ buffer.size →
        TurnsRight params buffer turn) ↔
      params.isBytes = true ∨ turn = 1 ∨ params.pixelsPerLine % 8 = 0 ∨
        turnedRows params turn = 0) := by
  constructor
  · intro buffer hbuffer
    obtain ⟨buffer', hrun, -, hrest, hpixels⟩ :=
      saneiMagicTurn_spec hturn hpacked hbuffer malloc hmalloc
    exact ⟨buffer', hrun, turnedTo_fits hpacked, hrest, hpixels⟩
  · obtain ⟨hbytes, -⟩ | ⟨hbinary, -⟩ := hpacked
    · exact ⟨fun _ => .inl hbytes, fun _ _ _ => .inl hbytes⟩
    · have hbytes : ¬ params.isBytes = true := not_isBytes_of_isBinary hbinary
      rw [or_iff_right hbytes]
      by_cases hone : turn = 1
      · exact ⟨fun _ => .inl hone, fun _ _ _ => .inr (.inl hone)⟩
      · rw [or_iff_right hone]
        exact forall_turnsRight_iff hbinary hone _

/-- A single pixel of one bit. -/
def oneBitPixel : ImageParams where
  bytesPerLine := 1
  pixelsPerLine := 1
  lines := 1
  depth := 1

theorem pixelsTurned_iff_oneBitPixel :
    (∃ buffer', saneiMagicTurn (fun _ => some fun _ => 0) oneBitPixel ⟨1, fun _ => 0x80⟩ (90 * 2) =
        .ok (.good, turnedParams oneBitPixel 2, buffer') ∧
      (PixelsTurned oneBitPixel 2 ⟨1, fun _ => 0x80⟩ buffer' ↔
        TurnsRight oneBitPixel ⟨1, fun _ => 0x80⟩ 2)) ∧
    ((∀ buffer : Cells UInt8, 1 ≤ buffer.size → TurnsRight oneBitPixel buffer 2) ↔
      oneBitPixel.isBytes = true ∨ (2 : Int) = 1 ∨ 1 % 8 = 0 ∨ 1 = 0) := by
  have hmalloc : ∀ n : Nat, ∃ contents : Nat → UInt8,
      (fun _ : Nat => some fun _ : Nat => (0 : UInt8)) n = some contents := fun _ => ⟨_, rfl⟩
  have hpacked : Packed oneBitPixel := .inr ⟨rfl, rfl⟩
  obtain ⟨hturned, hright⟩ := pixelsTurned_iff hmalloc (.inr (.inl rfl)) hpacked
  obtain ⟨buffer', hrun, -, -, hpixels⟩ := hturned ⟨1, fun _ => 0x80⟩ (by decide)
  exact ⟨⟨buffer', hrun, hpixels⟩, hright⟩

/-- Turned upside down, the only pixel is lost. -/
theorem not_pixelsTurned_oneBitPixel :
    ∃ buffer', saneiMagicTurn (fun _ => some fun _ => 0) oneBitPixel ⟨1, fun _ => 0x80⟩ 180 =
        .ok (.good, turnedParams oneBitPixel 2, buffer') ∧
      bitOf oneBitPixel ⟨1, fun _ => 0x80⟩ 0 0 = true ∧
      ¬ PixelsTurned oneBitPixel 2 ⟨1, fun _ => 0x80⟩ buffer' := by
  have hpacked : Packed oneBitPixel := .inr ⟨rfl, rfl⟩
  obtain ⟨buffer', hrun, -, -, hpixels⟩ := @saneiMagicTurn_spec _ _ ⟨1, fun _ => 0x80⟩
    (.inr (.inl rfl)) hpacked (by decide) (fun _ => some fun _ => 0) fun _ => ⟨_, rfl⟩
  refine ⟨buffer', hrun, by decide, fun hturned => ?_⟩
  have hbits := ((hpixels.mp hturned).resolve_left (by decide)).resolve_left (by decide)
  exact absurd (hbits 0 (by decide) 0 (by decide)) (by decide)

end SaneBackends.Sanei
