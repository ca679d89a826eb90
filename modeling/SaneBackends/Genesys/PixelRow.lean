import SaneBackends.Genesys.Pipeline
import SaneBackends.Lib.ByteBits
import SaneBackends.Lib.Result
/-!
# Pixels in a row

The raw pixels of `image_pixel.cpp` in the bytes of a row. Rows fit into memory, so that the
number of their bits does not wrap.
-/

namespace SaneBackends.Genesys

open SaneBackends.Lib

/-! ## The code -/

/-- What ends a call on rows: an exception, or an access outside a row. -/
inductive RowFailure where
  | thrown (failure : Failure)
  | outOfBounds

/-- An exception that is thrown while a row is computed. -/
def throws {α : Type} : Except Failure α → Except RowFailure α
  | .ok a => .ok a
  | .error failure => .error (.thrown failure)

structure RawPixel where
  d0 : UInt8 := 0
  d1 : UInt8 := 0
  d2 : UInt8 := 0
  d3 : UInt8 := 0
  d4 : UInt8 := 0
  d5 : UInt8 := 0
  deriving DecidableEq, Repr

def getPixelChannels (format : PixelFormat) : Except Failure Nat :=
  (·.channels) <$> findPixelFormat format

def getPixelRowBytes (format : PixelFormat) (width : Nat) : Except Failure Nat := do
  let depth ← getPixelFormatDepth format
  let channels ← getPixelChannels format
  let totalBits := depth * channels * width
  pure (totalBits / 8 + if 0 < totalBits % 8 then 1 else 0)

/-- `data[i]`. -/
def loadByte (data : List UInt8) (i : Nat) : Except RowFailure UInt8 :=
  match data[i]? with
  | some byte => .ok byte
  | none => .error .outOfBounds

/-- `data[i] = byte`. -/
def storeByte (data : List UInt8) (i : Nat) (byte : UInt8) : Except RowFailure (List UInt8) :=
  if i < data.length then .ok (data.set i byte) else .error .outOfBounds

def readBit (data : List UInt8) (x : Nat) : Except RowFailure UInt8 := do
  let byte ← loadByte data (x / 8)
  pure ((byte >>> UInt8.ofNat (7 - x % 8)) &&& 1)

def writeBit (data : List UInt8) (x : Nat) (value : UInt8) : Except RowFailure (List UInt8) := do
  let value := (value &&& 1) <<< UInt8.ofNat (7 - x % 8)
  let mask : UInt8 := 1 <<< UInt8.ofNat (7 - x % 8)
  let byte ← loadByte data (x / 8)
  storeByte data (x / 8) ((byte &&& ~~~mask) ||| (value &&& mask))

def unknownPixelFormat {α : Type} : Except RowFailure α :=
  .error (.thrown (.saneException "Unknown pixel format"))

def getRawPixelFromRow (data : List UInt8) (x : Nat) : PixelFormat → Except RowFailure RawPixel
  | .i1 => do
      let b ← readBit data x
      pure { d0 := b }
  | .rgb111 => do
      let r ← readBit data (x * 3)
      let g ← readBit data (x * 3 + 1)
      let b ← readBit data (x * 3 + 2)
      pure { d0 := r <<< 2 ||| g <<< 1 ||| b }
  | .i8 => do
      let d0 ← loadByte data x
      pure { d0 }
  | .i16 => do
      let d0 ← loadByte data (x * 2)
      let d1 ← loadByte data (x * 2 + 1)
      pure { d0, d1 }
  | .rgb888 | .bgr888 => do
      let d0 ← loadByte data (x * 3)
      let d1 ← loadByte data (x * 3 + 1)
      let d2 ← loadByte data (x * 3 + 2)
      pure { d0, d1, d2 }
  | .rgb161616 | .bgr161616 => do
      let d0 ← loadByte data (x * 6)
      let d1 ← loadByte data (x * 6 + 1)
      let d2 ← loadByte data (x * 6 + 2)
      let d3 ← loadByte data (x * 6 + 3)
      let d4 ← loadByte data (x * 6 + 4)
      let d5 ← loadByte data (x * 6 + 5)
      pure { d0, d1, d2, d3, d4, d5 }
  | .unknown => unknownPixelFormat

def setRawPixelToRow (data : List UInt8) (x : Nat) (pixel : RawPixel) :
    PixelFormat → Except RowFailure (List UInt8)
  | .i1 => writeBit data x (pixel.d0 &&& 1)
  | .rgb111 => do
      let data ← writeBit data (x * 3) ((pixel.d0 >>> 2) &&& 1)
      let data ← writeBit data (x * 3 + 1) ((pixel.d0 >>> 1) &&& 1)
      writeBit data (x * 3 + 2) (pixel.d0 &&& 1)
  | .i8 => storeByte data x pixel.d0
  | .i16 => do
      let data ← storeByte data (x * 2) pixel.d0
      storeByte data (x * 2 + 1) pixel.d1
  | .rgb888 | .bgr888 => do
      let data ← storeByte data (x * 3) pixel.d0
      let data ← storeByte data (x * 3 + 1) pixel.d1
      storeByte data (x * 3 + 2) pixel.d2
  | .rgb161616 | .bgr161616 => do
      let data ← storeByte data (x * 6) pixel.d0
      let data ← storeByte data (x * 6 + 1) pixel.d1
      let data ← storeByte data (x * 6 + 2) pixel.d2
      let data ← storeByte data (x * 6 + 3) pixel.d3
      let data ← storeByte data (x * 6 + 4) pixel.d4
      storeByte data (x * 6 + 5) pixel.d5
  | .unknown => unknownPixelFormat

/-! ## Bits -/

/-- The bits of a row, the highest one of a byte first. -/
def bitAt (data : List UInt8) (x : Nat) : Option Bool :=
  data[x / 8]?.map fun byte => byte.toBitVec.getLsbD (7 - x % 8)

def ofBit (b : Bool) : UInt8 := if b then 1 else 0

section Bits

variable {data : List UInt8} {x : Nat}

theorem loadByte_of_getElem? {i : Nat} {byte : UInt8} (h : data[i]? = some byte) :
    loadByte data i = .ok byte := by
  rw [loadByte, h]

theorem shiftRight_one (byte : UInt8) {k : Nat} (hk : k < 8) :
    (byte >>> UInt8.ofNat k) &&& 1 = ofBit (byte.toBitVec.getLsbD k) := by
  rw [pickedBit_eq byte hk]
  rfl

theorem replaceBit_getLsbD (byte value : UInt8) {k i : Nat} (hk : k < 8) (hi : i < 8) :
    ((byte &&& ~~~((1 : UInt8) <<< UInt8.ofNat k)) |||
        (((value &&& 1) <<< UInt8.ofNat k) &&&
          ((1 : UInt8) <<< UInt8.ofNat k))).toBitVec.getLsbD i =
      if i = k then value.toBitVec.getLsbD 0 else byte.toBitVec.getLsbD i := by
  rw [UInt8.toBitVec_or, BitVec.getLsbD_or, getLsbD_clearBit byte hk hi, UInt8.toBitVec_and,
    BitVec.getLsbD_and, getLsbD_bit hk hi]
  by_cases heq : i = k
  · subst heq
    have hshift : ((value &&& 1) <<< UInt8.ofNat i).toBitVec.getLsbD i =
        value.toBitVec.getLsbD 0 := by
      interval_cases i <;> simp
    rw [hshift]
    simp
  · simp [heq]

theorem readBit_of_bitAt {b : Bool} (h : bitAt data x = some b) :
    readBit data x = .ok (ofBit b) := by
  rw [bitAt, Option.map_eq_some_iff] at h
  obtain ⟨byte, hbyte, rfl⟩ := h
  rw [readBit, loadByte_of_getElem? hbyte, ok_bind, shiftRight_one byte (by omega)]
  rfl

/-- One bit of the row is written. -/
theorem writeBit_spec (hx : x / 8 < data.length) (value : UInt8) :
    ∃ data', writeBit data x value = .ok data' ∧ data'.length = data.length ∧
      ∀ y, bitAt data' y = if y = x then some (value.toBitVec.getLsbD 0) else bitAt data y := by
  have hbyte : data[x / 8]? = some data[x / 8] := List.getElem?_eq_getElem hx
  have hwrite : writeBit data x value = .ok (data.set (x / 8)
      ((data[x / 8] &&& ~~~((1 : UInt8) <<< UInt8.ofNat (7 - x % 8))) |||
        (((value &&& 1) <<< UInt8.ofNat (7 - x % 8)) &&&
          ((1 : UInt8) <<< UInt8.ofNat (7 - x % 8))))) := by
    rw [writeBit, loadByte_of_getElem? hbyte, ok_bind, storeByte, if_pos hx]
  refine ⟨_, hwrite, List.length_set .., ?_⟩
  · intro y
    unfold bitAt
    by_cases hsame : y / 8 = x / 8
    · rw [hsame, List.getElem?_set_self hx, Option.map_some,
        replaceBit_getLsbD _ _ (by omega) (by omega), hbyte, Option.map_some]
      by_cases heq : y = x
      · rw [heq, if_pos rfl, if_pos rfl]
      · rw [if_neg (by omega), if_neg heq]
    · rw [List.getElem?_set_ne (Ne.symm hsame), if_neg (fun heq : y = x => hsame (heq ▸ rfl))]

end Bits

/-! ## Pixels of less than a byte -/

/-- How many bits a pixel of such a format has. -/
def PixelFormat.bits : PixelFormat → Nat
  | .rgb111 => 3
  | _ => 1

/-- The formats with a depth of one bit. -/
def PixelFormat.SubByte (format : PixelFormat) : Prop := format = .i1 ∨ format = .rgb111

/-- The pixel that has these bits in a row. -/
def pixelOfBits (format : PixelFormat) (bit : Nat → Bool) : RawPixel :=
  match format with
  | .rgb111 => { d0 := ofBit (bit 0) <<< 2 ||| ofBit (bit 1) <<< 1 ||| ofBit (bit 2) }
  | _ => { d0 := ofBit (bit 0) }

section SubByte

variable {data : List UInt8} {x : Nat} {format : PixelFormat} {bit : Nat → Bool}

theorem bits_i1 : PixelFormat.bits .i1 = 1 := rfl

theorem bits_rgb111 : PixelFormat.bits .rgb111 = 3 := rfl

theorem bits_pos (format : PixelFormat) : 0 < format.bits := by
  cases format <;> decide

theorem pixelOfBits_false (format : PixelFormat) : pixelOfBits format (fun _ => false) = {} := by
  cases format <;> rfl

theorem getRawPixelFromRow_of_bits (hformat : format.SubByte)
    (h : ∀ k < format.bits, bitAt data (x * format.bits + k) = some (bit k)) :
    getRawPixelFromRow data x format = .ok (pixelOfBits format bit) := by
  obtain rfl | rfl := hformat
  · have h0 := h 0 (by decide)
    rw [bits_i1, Nat.mul_one, Nat.add_zero] at h0
    rw [getRawPixelFromRow, readBit_of_bitAt h0]
    rfl
  · have h0 := h 0 (by decide)
    have h1 := h 1 (by decide)
    have h2 := h 2 (by decide)
    rw [bits_rgb111] at h0 h1 h2
    rw [Nat.add_zero] at h0
    rw [getRawPixelFromRow, readBit_of_bitAt h0, ok_bind, readBit_of_bitAt h1, ok_bind,
      readBit_of_bitAt h2]
    rfl

/-- Storing a pixel stores its bits. -/
theorem setRawPixelToRow_bits (hformat : format.SubByte)
    (hx : x * format.bits + format.bits ≤ 8 * data.length) (bit : Nat → Bool) :
    ∃ data', setRawPixelToRow data x (pixelOfBits format bit) format = .ok data' ∧
      data'.length = data.length ∧
      ∀ y, bitAt data' y =
        if x * format.bits ≤ y ∧ y < x * format.bits + format.bits then
          some (bit (y - x * format.bits))
        else bitAt data y := by
  obtain rfl | rfl := hformat
  · rw [bits_i1, Nat.mul_one] at hx ⊢
    obtain ⟨data', hwrite, hlength, hbits⟩ :=
      @writeBit_spec data x (by omega) (ofBit (bit 0) &&& 1)
    refine ⟨data', hwrite, hlength, fun y => ?_⟩
    rw [hbits]
    by_cases heq : y = x
    · rw [if_pos heq, if_pos (by omega), heq, Nat.sub_self]
      cases bit 0 <;> rfl
    · rw [if_neg heq, if_neg (by omega)]
  · rw [bits_rgb111] at hx ⊢
    generalize hpixel : (pixelOfBits .rgb111 bit).d0 = d0
    have hb0 : ((d0 >>> 2) &&& 1).toBitVec.getLsbD 0 = bit 0 := by
      rw [← hpixel, pixelOfBits]
      cases bit 0 <;> cases bit 1 <;> cases bit 2 <;> rfl
    have hb1 : ((d0 >>> 1) &&& 1).toBitVec.getLsbD 0 = bit 1 := by
      rw [← hpixel, pixelOfBits]
      cases bit 0 <;> cases bit 1 <;> cases bit 2 <;> rfl
    have hb2 : (d0 &&& 1).toBitVec.getLsbD 0 = bit 2 := by
      rw [← hpixel, pixelOfBits]
      cases bit 0 <;> cases bit 1 <;> cases bit 2 <;> rfl
    obtain ⟨data₁, hwrite₁, hlength₁, hbits₁⟩ :=
      @writeBit_spec data (x * 3) (by omega) ((d0 >>> 2) &&& 1)
    obtain ⟨data₂, hwrite₂, hlength₂, hbits₂⟩ :=
      @writeBit_spec data₁ (x * 3 + 1) (by omega) ((d0 >>> 1) &&& 1)
    obtain ⟨data₃, hwrite₃, hlength₃, hbits₃⟩ :=
      @writeBit_spec data₂ (x * 3 + 2) (by omega) (d0 &&& 1)
    refine ⟨data₃, ?_, by omega, fun y => ?_⟩
    · rw [setRawPixelToRow, hpixel, hwrite₁, ok_bind, hwrite₂, ok_bind, hwrite₃]
    · rw [hbits₃, hbits₂, hbits₁, hb0, hb1, hb2]
      by_cases hinside : x * 3 ≤ y ∧ y < x * 3 + 3
      · rw [if_pos hinside]
        obtain hy | hy | hy : y = x * 3 ∨ y = x * 3 + 1 ∨ y = x * 3 + 2 := by omega
        · rw [if_neg (by omega), if_neg (by omega), if_pos hy, hy, Nat.sub_self]
        · rw [if_neg (by omega), if_pos hy, hy, Nat.add_sub_cancel_left]
        · rw [if_pos hy, hy, Nat.add_sub_cancel_left]
      · rw [if_neg hinside, if_neg (by omega), if_neg (by omega), if_neg (by omega)]

end SubByte

/-! ## Pixels of whole bytes -/

/-- How many bytes a pixel of such a format has. -/
def PixelFormat.bytes : PixelFormat → Nat
  | .i8 => 1
  | .i16 => 2
  | .rgb888 | .bgr888 => 3
  | .rgb161616 | .bgr161616 => 6
  | .unknown | .i1 | .rgb111 => 0

section WholeBytes

variable {data data' : List UInt8} {x x' : Nat} {format : PixelFormat}

theorem loadByte_congr {i i' : Nat} (h : data'[i']? = data[i]?) :
    loadByte data' i' = loadByte data i := by
  rw [loadByte, loadByte, h]

/-- A pixel is read from its own bytes. -/
theorem getRawPixelFromRow_congr (hformat : 0 < format.bytes)
    (h : ∀ k < format.bytes, data'[x' * format.bytes + k]? = data[x * format.bytes + k]?) :
    getRawPixelFromRow data' x' format = getRawPixelFromRow data x format := by
  have hload : ∀ k < format.bytes,
      loadByte data' (x' * format.bytes + k) = loadByte data (x * format.bytes + k) :=
    fun k hk => loadByte_congr (h k hk)
  cases format with
  | unknown | i1 | rgb111 => exact absurd hformat (Nat.lt_irrefl 0)
  | i8 =>
      have h0 := hload 0 (by decide)
      simp only [PixelFormat.bytes, Nat.mul_one, Nat.add_zero] at h0
      simp only [getRawPixelFromRow, h0]
  | i16 =>
      have h0 := hload 0 (by decide)
      have h1 := hload 1 (by decide)
      simp only [PixelFormat.bytes, Nat.add_zero] at h0 h1
      simp only [getRawPixelFromRow, h0, h1]
  | rgb888 | bgr888 =>
      have h0 := hload 0 (by decide)
      have h1 := hload 1 (by decide)
      have h2 := hload 2 (by decide)
      simp only [PixelFormat.bytes, Nat.add_zero] at h0 h1 h2
      simp only [getRawPixelFromRow, h0, h1, h2]
  | rgb161616 | bgr161616 =>
      have h0 := hload 0 (by decide)
      have h1 := hload 1 (by decide)
      have h2 := hload 2 (by decide)
      have h3 := hload 3 (by decide)
      have h4 := hload 4 (by decide)
      have h5 := hload 5 (by decide)
      simp only [PixelFormat.bytes, Nat.add_zero] at h0 h1 h2 h3 h4 h5
      simp only [getRawPixelFromRow, h0, h1, h2, h3, h4, h5]

theorem getRawPixelFromRow_zeros (hformat : 0 < format.bytes) :
    getRawPixelFromRow (List.replicate format.bytes 0) 0 format = .ok {} := by
  cases format with
  | unknown | i1 | rgb111 => exact absurd hformat (Nat.lt_irrefl 0)
  | i8 | i16 | rgb888 | bgr888 | rgb161616 | bgr161616 => rfl

theorem getRawPixelFromRow_of_zeros (hformat : 0 < format.bytes)
    (h : ∀ k < format.bytes, data[x * format.bytes + k]? = some 0) :
    getRawPixelFromRow data x format = .ok {} := by
  rw [← getRawPixelFromRow_zeros hformat]
  refine getRawPixelFromRow_congr hformat fun k hk => ?_
  rw [h k hk, Nat.zero_mul, Nat.zero_add, List.getElem?_replicate, if_pos hk]

/-- The last byte of a pixel. -/
def RawPixel.last (pixel : RawPixel) : PixelFormat → UInt8
  | .i8 | .unknown | .i1 | .rgb111 => pixel.d0
  | .i16 => pixel.d1
  | .rgb888 | .bgr888 => pixel.d2
  | .rgb161616 | .bgr161616 => pixel.d5

theorem loadByte_eq_ok {i : Nat} {byte : UInt8} (h : loadByte data i = .ok byte) :
    data[i]? = some byte := by
  unfold loadByte at h
  split at h
  · cases h
    assumption
  · cases h

theorem last_of_getRawPixelFromRow {pixel : RawPixel} (hformat : 0 < format.bytes)
    (h : getRawPixelFromRow data x format = .ok pixel) :
    data[x * format.bytes + (format.bytes - 1)]? = some (pixel.last format) := by
  cases format with
  | unknown | i1 | rgb111 => exact absurd hformat (Nat.lt_irrefl 0)
  | i8 =>
      obtain ⟨d0, h0, h⟩ := bind_eq_ok.mp h
      cases h
      simpa [PixelFormat.bytes, RawPixel.last] using loadByte_eq_ok h0
  | i16 =>
      obtain ⟨d0, -, h⟩ := bind_eq_ok.mp h
      obtain ⟨d1, h1, h⟩ := bind_eq_ok.mp h
      cases h
      exact loadByte_eq_ok h1
  | rgb888 | bgr888 =>
      obtain ⟨d0, -, h⟩ := bind_eq_ok.mp h
      obtain ⟨d1, -, h⟩ := bind_eq_ok.mp h
      obtain ⟨d2, h2, h⟩ := bind_eq_ok.mp h
      cases h
      exact loadByte_eq_ok h2
  | rgb161616 | bgr161616 =>
      obtain ⟨d0, -, h⟩ := bind_eq_ok.mp h
      obtain ⟨d1, -, h⟩ := bind_eq_ok.mp h
      obtain ⟨d2, -, h⟩ := bind_eq_ok.mp h
      obtain ⟨d3, -, h⟩ := bind_eq_ok.mp h
      obtain ⟨d4, -, h⟩ := bind_eq_ok.mp h
      obtain ⟨d5, h5, h⟩ := bind_eq_ok.mp h
      cases h
      exact loadByte_eq_ok h5

theorem loadByte_of_lt {i : Nat} (hi : i < data.length) : ∃ byte, loadByte data i = .ok byte :=
  ⟨data[i], loadByte_of_getElem? (List.getElem?_eq_getElem hi)⟩

/-- A pixel whose bytes are in the row can be read. -/
theorem getRawPixelFromRow_of_le (hformat : 0 < format.bytes)
    (h : x * format.bytes + format.bytes ≤ data.length) :
    ∃ pixel, getRawPixelFromRow data x format = .ok pixel := by
  have hload : ∀ k < format.bytes, ∃ byte, loadByte data (x * format.bytes + k) = .ok byte :=
    fun k hk => loadByte_of_lt (by omega)
  cases format with
  | unknown | i1 | rgb111 => exact absurd hformat (Nat.lt_irrefl 0)
  | i8 =>
      obtain ⟨d0, h0⟩ := hload 0 (by decide)
      simp only [PixelFormat.bytes, Nat.mul_one, Nat.add_zero] at h0
      exact ⟨_, by rw [getRawPixelFromRow, h0]; rfl⟩
  | i16 =>
      obtain ⟨d0, h0⟩ := hload 0 (by decide)
      obtain ⟨d1, h1⟩ := hload 1 (by decide)
      simp only [PixelFormat.bytes, Nat.add_zero] at h0 h1
      exact ⟨_, by rw [getRawPixelFromRow, h0, ok_bind, h1]; rfl⟩
  | rgb888 | bgr888 =>
      obtain ⟨d0, h0⟩ := hload 0 (by decide)
      obtain ⟨d1, h1⟩ := hload 1 (by decide)
      obtain ⟨d2, h2⟩ := hload 2 (by decide)
      simp only [PixelFormat.bytes, Nat.add_zero] at h0 h1 h2
      exact ⟨_, by rw [getRawPixelFromRow, h0, ok_bind, h1, ok_bind, h2]; rfl⟩
  | rgb161616 | bgr161616 =>
      obtain ⟨d0, h0⟩ := hload 0 (by decide)
      obtain ⟨d1, h1⟩ := hload 1 (by decide)
      obtain ⟨d2, h2⟩ := hload 2 (by decide)
      obtain ⟨d3, h3⟩ := hload 3 (by decide)
      obtain ⟨d4, h4⟩ := hload 4 (by decide)
      obtain ⟨d5, h5⟩ := hload 5 (by decide)
      simp only [PixelFormat.bytes, Nat.add_zero] at h0 h1 h2 h3 h4 h5
      exact ⟨_, by
        rw [getRawPixelFromRow, h0, ok_bind, h1, ok_bind, h2, ok_bind, h3, ok_bind, h4, ok_bind, h5]
        rfl⟩

end WholeBytes

end SaneBackends.Genesys
