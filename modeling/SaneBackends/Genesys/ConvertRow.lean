import SaneBackends.Genesys.ShiftLines
/-!
# Pixel formats of a row

Pixels of three 16-bit components, how rows of each format hold them, and
`convert_pixel_row_format`. The `float` arithmetic of gray pixels is a parameter.
-/

namespace SaneBackends.Genesys

open SaneBackends.Lib

/-! ## The code -/

structure Pixel where
  r : UInt16 := 0
  g : UInt16 := 0
  b : UInt16 := 0
  deriving DecidableEq, Repr

/-- The gray value that `set_pixel_to_row` computes of three components. -/
structure GrayMix where
  i8 : UInt16 → UInt16 → UInt16 → UInt16
  i16 : UInt16 → UInt16 → UInt16 → UInt16

/-- `read_bit (data, x) ? 0xffff : 0x0000`. -/
def maskOfBit (bit : UInt8) : UInt16 := if bit ≠ 0 then 0xffff else 0

def getPixelFromRow (data : List UInt8) (x : Nat) : PixelFormat → Except RowFailure Pixel
  | .i1 => do
      let bit ← readBit data x
      let val := maskOfBit bit
      pure { r := val, g := val, b := val }
  | .rgb111 => do
      let r ← readBit data (x * 3)
      let g ← readBit data (x * 3 + 1)
      let b ← readBit data (x * 3 + 2)
      pure { r := maskOfBit r, g := maskOfBit g, b := maskOfBit b }
  | .i8 => do
      let d0 ← loadByte data x
      let val := wordOfBytes d0 d0
      pure { r := val, g := val, b := val }
  | .i16 => do
      let d0 ← loadByte data (x * 2)
      let d1 ← loadByte data (x * 2 + 1)
      let val := wordOfBytes d0 d1
      pure { r := val, g := val, b := val }
  | .rgb888 => do
      let r ← loadByte data (x * 3)
      let g ← loadByte data (x * 3 + 1)
      let b ← loadByte data (x * 3 + 2)
      pure { r := wordOfBytes r r, g := wordOfBytes g g, b := wordOfBytes b b }
  | .bgr888 => do
      let b ← loadByte data (x * 3)
      let g ← loadByte data (x * 3 + 1)
      let r ← loadByte data (x * 3 + 2)
      pure { r := wordOfBytes r r, g := wordOfBytes g g, b := wordOfBytes b b }
  | .rgb161616 => do
      let r0 ← loadByte data (x * 6)
      let r1 ← loadByte data (x * 6 + 1)
      let g0 ← loadByte data (x * 6 + 2)
      let g1 ← loadByte data (x * 6 + 3)
      let b0 ← loadByte data (x * 6 + 4)
      let b1 ← loadByte data (x * 6 + 5)
      pure { r := wordOfBytes r0 r1, g := wordOfBytes g0 g1, b := wordOfBytes b0 b1 }
  | .bgr161616 => do
      let b0 ← loadByte data (x * 6)
      let b1 ← loadByte data (x * 6 + 1)
      let g0 ← loadByte data (x * 6 + 2)
      let g1 ← loadByte data (x * 6 + 3)
      let r0 ← loadByte data (x * 6 + 4)
      let r1 ← loadByte data (x * 6 + 5)
      pure { r := wordOfBytes r0 r1, g := wordOfBytes g0 g1, b := wordOfBytes b0 b1 }
  | .unknown => unknownPixelFormat

/-- `component & 0x8000 ? 1 : 0`. -/
def highBit (component : UInt16) : UInt8 := if component &&& 0x8000 ≠ 0 then 1 else 0

/-- The stores of a word with its low byte first. -/
def storeWord (data : List UInt8) (i : Nat) (word : UInt16) : Except RowFailure (List UInt8) := do
  let data ← storeByte data i (word &&& 0xff).toUInt8
  storeByte data (i + 1) ((word >>> 8) &&& 0xff).toUInt8

def setPixelToRow (mix : GrayMix) (data : List UInt8) (x : Nat) (pixel : Pixel) :
    PixelFormat → Except RowFailure (List UInt8)
  | .i1 => writeBit data x (highBit pixel.r)
  | .rgb111 => do
      let data ← writeBit data (x * 3) (highBit pixel.r)
      let data ← writeBit data (x * 3 + 1) (highBit pixel.g)
      writeBit data (x * 3 + 2) (highBit pixel.b)
  | .i8 => storeByte data x (mix.i8 (pixel.r >>> 8) (pixel.g >>> 8) (pixel.b >>> 8)).toUInt8
  | .i16 => storeWord data (x * 2) (mix.i16 pixel.r pixel.g pixel.b)
  | .rgb888 => do
      let data ← storeByte data (x * 3) (pixel.r >>> 8).toUInt8
      let data ← storeByte data (x * 3 + 1) (pixel.g >>> 8).toUInt8
      storeByte data (x * 3 + 2) (pixel.b >>> 8).toUInt8
  | .bgr888 => do
      let data ← storeByte data (x * 3) (pixel.b >>> 8).toUInt8
      let data ← storeByte data (x * 3 + 1) (pixel.g >>> 8).toUInt8
      storeByte data (x * 3 + 2) (pixel.r >>> 8).toUInt8
  | .rgb161616 => do
      let data ← storeWord data (x * 6) pixel.r
      let data ← storeWord data (x * 6 + 2) pixel.g
      storeWord data (x * 6 + 4) pixel.b
  | .bgr161616 => do
      let data ← storeWord data (x * 6) pixel.b
      let data ← storeWord data (x * 6 + 2) pixel.g
      storeWord data (x * 6 + 4) pixel.r
  | .unknown => unknownPixelFormat

/-- `convert_pixel_row_impl2`. -/
def convertPixels (mix : GrayMix) (inData : List UInt8) (inFormat : PixelFormat)
    (outData : List UInt8) (outFormat : PixelFormat) (count : Nat) :
    Except RowFailure (List UInt8) :=
  forTo count (fun i outData => do
    let pixel ← getPixelFromRow inData i inFormat
    setPixelToRow mix outData i pixel outFormat) outData

def convertPixelRowFormat (mix : GrayMix) (inData : List UInt8) (inFormat : PixelFormat)
    (outData : List UInt8) (outFormat : PixelFormat) (count : Nat) :
    Except RowFailure (List UInt8) :=
  if inFormat = outFormat then do
    let rowBytes ← throws (getPixelRowBytes inFormat count)
    memcpy outData 0 inData 0 rowBytes
  else if inFormat = .unknown then unknownPixelFormat
  else if outFormat = .unknown then unknownPixelFormat
  else convertPixels mix inData inFormat outData outFormat count

/-! ## Components of a depth -/

/-- A channel value as a component of 16 bits. -/
def widen (depth : Nat) (value : UInt16) : UInt16 :=
  if depth = 1 then if value ≠ 0 then 0xffff else 0
  else if depth = 8 then value ||| value <<< 8
  else value

/-- The high bits of a component. -/
def narrow (depth : Nat) (component : UInt16) : UInt16 := component >>> UInt16.ofNat (16 - depth)

/-- The depths of the formats. -/
def IsDepth (depth : Nat) : Prop := depth = 1 ∨ depth = 8 ∨ depth = 16

section Components

variable {depth depth' : Nat} {value component : UInt16}

theorem isDepth_of_known {format : PixelFormat} (hknown : format ≠ .unknown) :
    IsDepth format.depth := by
  cases format with
  | unknown => exact absurd rfl hknown
  | i1 | rgb111 => exact .inl rfl
  | i8 | rgb888 | bgr888 => exact .inr (.inl rfl)
  | i16 | rgb161616 | bgr161616 => exact .inr (.inr rfl)

theorem narrow_lt (h : IsDepth depth) (component : UInt16) :
    (narrow depth component).toNat < 2 ^ depth := by
  have hcomponent := component.toNat_lt
  rw [narrow, UInt16.toNat_shiftRight, Nat.shiftRight_eq_div_pow]
  obtain rfl | rfl | rfl := h
  · exact Nat.div_lt_of_lt_mul hcomponent
  · exact Nat.div_lt_of_lt_mul hcomponent
  · exact Nat.div_lt_of_lt_mul hcomponent

theorem bit_of_lt (h : value.toNat < 2 ^ 1) : value = 0 ∨ value = 1 := by
  rw [← UInt16.toNat_inj, ← UInt16.toNat_inj, UInt16.toNat_zero, UInt16.toNat_one]
  omega

theorem word_ext_bits {a b : UInt16} (h : ∀ k < 16, a.toBitVec.getLsbD k = b.toBitVec.getLsbD k) :
    a = b :=
  UInt16.eq_of_toBitVec_eq (BitVec.eq_of_getLsbD_eq h)

theorem high_of_lt (h : value.toNat < 2 ^ 8) {k : Nat} (hk : 8 ≤ k) :
    value.toBitVec.getLsbD k = false := by
  rw [← BitVec.testBit_toNat]
  exact Nat.testBit_lt_two_pow (Nat.lt_of_lt_of_le h (Nat.pow_le_pow_right (by decide) hk))

/-- A value is got back from its component. -/
theorem narrow_widen (h : IsDepth depth) (hvalue : value.toNat < 2 ^ depth) :
    narrow depth (widen depth value) = value := by
  obtain rfl | rfl | rfl := h
  · obtain rfl | rfl := bit_of_lt hvalue
    · decide
    · decide
  · refine word_ext_bits fun k hk => ?_
    by_cases hlow : k < 8
    · have hzero := high_of_lt hvalue (Nat.le_add_right 8 k)
      interval_cases k <;> simp [narrow, widen] at hzero ⊢ <;> simp [hzero]
    · rw [high_of_lt hvalue (by omega)]
      interval_cases k <;> simp [narrow, widen]
  · exact UInt16.shiftRight_zero

/-- A component of few bits is not changed by narrowing it to more of them. -/
theorem widen_narrow_widen (h : IsDepth depth) (h' : IsDepth depth') (hle : depth ≤ depth')
    (hvalue : value.toNat < 2 ^ depth) :
    widen depth' (narrow depth' (widen depth value)) = widen depth value := by
  by_cases heq : depth = depth'
  · subst heq
    rw [narrow_widen h hvalue]
  · obtain rfl | rfl | rfl := h'
    · obtain rfl | rfl | rfl := h <;> omega
    · obtain rfl | rfl | rfl := h
      · obtain rfl | rfl := bit_of_lt hvalue
        · decide
        · decide
      · omega
      · omega
    · exact UInt16.shiftRight_zero

/-- What is narrowed to few bits may be narrowed to more of them before. -/
theorem narrow_widen_narrow (h : IsDepth depth) (h' : IsDepth depth') (hle : depth ≤ depth')
    (component : UInt16) :
    narrow depth (widen depth' (narrow depth' component)) = narrow depth component := by
  by_cases heq : depth = depth'
  · subst heq
    exact narrow_widen h (narrow_lt h component)
  · obtain rfl | rfl | rfl := h'
    · obtain rfl | rfl | rfl := h <;> omega
    · obtain rfl | rfl | rfl := h
      · refine word_ext_bits fun k hk => ?_
        interval_cases k <;> simp [narrow, widen]
      · omega
      · omega
    · exact congrArg (narrow depth) UInt16.shiftRight_zero

end Components

/-! ## Pixels of a format -/

def Pixel.component (pixel : Pixel) : Component → UInt16
  | .red => pixel.r
  | .green => pixel.g
  | .blue => pixel.b

/-- The component that a channel of a colour format is for. -/
def PixelFormat.componentOf (format : PixelFormat) (channel : Nat) : Component :=
  if channel = format.channelOf .red then .red
  else if channel = format.channelOf .green then .green
  else .blue

/-- The channel that a component is read from, in a gray format always the only one. -/
def PixelFormat.sourceOf (format : PixelFormat) (component : Component) : Nat :=
  if format.channels = 3 then format.channelOf component else 0

/-- The pixel that the channel values of a format are read as. -/
def PixelFormat.pixelOf (format : PixelFormat) (value : Nat → UInt16) : Pixel where
  r := widen format.depth (value (format.sourceOf .red))
  g := widen format.depth (value (format.sourceOf .green))
  b := widen format.depth (value (format.sourceOf .blue))

/-- The channel values that a pixel is stored as. -/
def PixelFormat.valueOf (format : PixelFormat) (pixel : Pixel) (channel : Nat) : UInt16 :=
  narrow format.depth (pixel.component (format.componentOf channel))

/-- The formats in which pixels are stored without `float` arithmetic. -/
def PixelFormat.Exact (format : PixelFormat) : Prop := format.channels = 3 ∨ format = .i1

/-- What is read where a pixel was stored. -/
def PixelFormat.stored (format : PixelFormat) (pixel : Pixel) : Pixel :=
  format.pixelOf (format.valueOf pixel)

section Pixels

variable {mix : GrayMix} {data out : List UInt8} {x : Nat} {format : PixelFormat} {pixel : Pixel}

theorem maskOfBit_eq (bit : UInt8) : maskOfBit bit = widen 1 bit.toUInt16 := by
  have hzero : bit.toUInt16 = 0 ↔ bit = 0 := by
    rw [← UInt16.toNat_inj, ← UInt8.toNat_inj, UInt8.toNat_toUInt16]
    rfl
  rw [maskOfBit, widen, if_pos rfl]
  simp only [ne_eq, hzero]

theorem wordOfBytes_self (byte : UInt8) : wordOfBytes byte byte = widen 8 byte.toUInt16 := rfl

/-- The highest bit is alone in the mask. -/
theorem highBit_eq (component : UInt16) :
    highBit component = (narrow 1 component &&& 1).toUInt8 := by
  have hmask : component &&& 0x8000 = narrow 1 component <<< (15 : UInt16) := by
    refine word_ext_bits fun k hk => ?_
    interval_cases k <;> simp [narrow]
  rw [highBit, hmask]
  obtain hbit | hbit := bit_of_lt (narrow_lt (.inl rfl) component)
  · rw [hbit]
    decide
  · rw [hbit]
    decide

theorem toUInt8_and (word : UInt16) : (word &&& 0xff).toUInt8 = word.toUInt8 := by
  apply UInt8.eq_of_toBitVec_eq
  apply BitVec.eq_of_getLsbD_eq
  intro k hk
  interval_cases k <;> simp

/-- A pixel is read channel by channel. -/
theorem getPixelFromRow_of_channels (hknown : format ≠ .unknown) {value : Nat → UInt16}
    (hvalue : ∀ c < format.channels, getRawChannelFromRow data x c format = .ok (value c)) :
    getPixelFromRow data x format = .ok (format.pixelOf value) := by
  cases format with
  | unknown => exact absurd rfl hknown
  | i1 =>
      have h0 := hvalue 0 (by decide)
      simp only [getRawChannelFromRow, bind_eq_ok, pure_eq_ok] at h0
      obtain ⟨bit, hbit, hbit'⟩ := h0
      rw [getPixelFromRow, hbit, ok_bind, maskOfBit_eq, hbit']
      rfl
  | i8 =>
      have h0 := hvalue 0 (by decide)
      simp only [getRawChannelFromRow, bind_eq_ok, pure_eq_ok] at h0
      obtain ⟨d0, hd0, hd0'⟩ := h0
      rw [getPixelFromRow, hd0, ok_bind, wordOfBytes_self, hd0']
      rfl
  | i16 =>
      have h0 := hvalue 0 (by decide)
      simp only [getRawChannelFromRow, bind_eq_ok, pure_eq_ok] at h0
      obtain ⟨d0, hd0, d1, hd1, hd1'⟩ := h0
      rw [getPixelFromRow, hd0, ok_bind, hd1, ok_bind, hd1']
      rfl
  | rgb111 =>
      have h0 := hvalue 0 (by decide)
      have h1 := hvalue 1 (by decide)
      have h2 := hvalue 2 (by decide)
      simp only [getRawChannelFromRow, bind_eq_ok, pure_eq_ok, Nat.add_zero] at h0 h1 h2
      obtain ⟨r, hr, hr'⟩ := h0
      obtain ⟨g, hg, hg'⟩ := h1
      obtain ⟨b, hb, hb'⟩ := h2
      rw [getPixelFromRow, hr, ok_bind, hg, ok_bind, hb, ok_bind, maskOfBit_eq, maskOfBit_eq,
        maskOfBit_eq, hr', hg', hb']
      rfl
  | rgb888 | bgr888 =>
      have h0 := hvalue 0 (by decide)
      have h1 := hvalue 1 (by decide)
      have h2 := hvalue 2 (by decide)
      simp only [getRawChannelFromRow, bind_eq_ok, pure_eq_ok, Nat.add_zero] at h0 h1 h2
      obtain ⟨d0, hd0, hd0'⟩ := h0
      obtain ⟨d1, hd1, hd1'⟩ := h1
      obtain ⟨d2, hd2, hd2'⟩ := h2
      rw [getPixelFromRow, hd0, ok_bind, hd1, ok_bind, hd2, ok_bind, wordOfBytes_self,
        wordOfBytes_self, wordOfBytes_self, hd0', hd1', hd2']
      rfl
  | rgb161616 | bgr161616 =>
      have h0 := hvalue 0 (by decide)
      have h1 := hvalue 1 (by decide)
      have h2 := hvalue 2 (by decide)
      simp only [getRawChannelFromRow, bind_eq_ok, pure_eq_ok, Nat.add_zero, Nat.zero_mul,
        Nat.one_mul, Nat.add_assoc] at h0 h1 h2
      obtain ⟨d0, hd0, d1, hd1, hd1'⟩ := h0
      obtain ⟨d2, hd2, d3, hd3, hd3'⟩ := h1
      obtain ⟨d4, hd4, d5, hd5, hd5'⟩ := h2
      rw [getPixelFromRow, hd0, ok_bind, hd1, ok_bind, hd2, ok_bind, hd3, ok_bind, hd4, ok_bind,
        hd5, ok_bind, hd1', hd3', hd5']
      rfl

theorem storeWord_eq (data : List UInt8) (i : Nat) (word : UInt16) :
    storeWord data i word = (storeByte data i word.toUInt8 >>= fun data =>
      storeByte data (i + 1) (word >>> 8).toUInt8) := by
  rw [storeWord, toUInt8_and, toUInt8_and]

theorem narrow_sixteen (component : UInt16) : narrow 16 component = component :=
  UInt16.shiftRight_zero

/-- A pixel of a colour format is stored channel by channel. -/
theorem setPixelToRow_colour (hcolour : format.channels = 3) :
    setPixelToRow mix data x pixel format =
      setRawChannelsToRow data x (format.valueOf pixel 0) (format.valueOf pixel 1)
        (format.valueOf pixel 2) format := by
  cases format with
  | unknown | i1 | i8 | i16 => cases hcolour
  | rgb111 =>
      simp only [setPixelToRow, highBit_eq]
      rfl
  | rgb888 | bgr888 => rfl
  | rgb161616 | bgr161616 =>
      simp only [setPixelToRow, storeWord_eq]
      simp only [setRawChannelsToRow, PixelFormat.valueOf, PixelFormat.depth, narrow_sixteen]
      rfl

/-- The value that a gray pixel is stored as. -/
def GrayMix.value (mix : GrayMix) (pixel : Pixel) : PixelFormat → UInt16
  | .i8 => mix.i8 (pixel.r >>> 8) (pixel.g >>> 8) (pixel.b >>> 8)
  | .i16 => mix.i16 pixel.r pixel.g pixel.b
  | format => format.valueOf pixel 0

theorem setPixelToRow_gray (hgray : format.channels = 1) :
    setPixelToRow mix data x pixel format =
      setRawChannelToRow data x 0 (mix.value pixel format) format := by
  cases format with
  | unknown | rgb111 | rgb888 | bgr888 | rgb161616 | bgr161616 => cases hgray
  | i1 =>
      rw [setPixelToRow, highBit_eq]
      rfl
  | i8 => rfl
  | i16 =>
      rw [setPixelToRow, storeWord_eq]
      rfl

/-- The bits of a pixel that is stored. -/
def PixelFormat.pixelBit (format : PixelFormat) (pixel : Pixel) (k : Nat) : Bool :=
  channelBit format.depth (format.valueOf pixel (k / format.depth)) (k % format.depth)

theorem channels_of_known (hknown : format ≠ .unknown) :
    format.channels = 3 ∨ format.channels = 1 := by
  cases format with
  | unknown => exact absurd rfl hknown
  | rgb111 | rgb888 | bgr888 | rgb161616 | bgr161616 => exact .inl rfl
  | i1 | i8 | i16 => exact .inr rfl

theorem PixelFormat.Exact.known (h : format.Exact) : format ≠ .unknown := by
  intro hunknown
  rw [hunknown] at h
  obtain hcolour | hgray := h
  · cases hcolour
  · cases hgray

/-- Storing a pixel changes its own bits only, and those of an exact format are those of its
components. -/
theorem setPixelToRow_wrote (hknown : format ≠ .unknown)
    (hout : x * format.totalBits + format.totalBits ≤ 8 * out.length) :
    ∃ out' bit, setPixelToRow mix out x pixel format = .ok out' ∧
      Wrote out out' (x * format.totalBits) format.totalBits bit ∧
      (format.Exact → ∀ k < format.totalBits, bit k = format.pixelBit pixel k) := by
  cases channels_of_known hknown with
  | inl hcolour =>
      obtain ⟨out', hset, hwrote⟩ := setRawChannelsToRow_wrote hcolour hout (format.valueOf pixel)
      exact ⟨out', _, (setPixelToRow_colour hcolour).trans hset, hwrote, fun _ _ _ => rfl⟩
  | inr hgray =>
      have htotal : format.totalBits = format.depth := by rw [totalBits_eq, hgray, Nat.one_mul]
      have hplace : format.channelPlace x 0 = x * format.totalBits := by
        rw [PixelFormat.channelPlace, Nat.zero_mul, Nat.add_zero]
      rw [htotal] at hout
      obtain ⟨out', hset, hwrote⟩ := setRawChannelToRow_spec
        (show 0 < format.channels by omega) (by rw [hplace, htotal]; exact hout)
        (mix.value pixel format)
      rw [hplace] at hwrote
      rw [htotal] at hwrote ⊢
      refine ⟨out', _, (setPixelToRow_gray hgray).trans hset, hwrote, fun hexact k hk => ?_⟩
      obtain hcolour | hi1 := hexact
      · omega
      · subst hi1
        rw [Nat.lt_one_iff.mp hk]
        rfl

/-- A channel whose bits are those of a value is read as that value. -/
theorem getRawChannelFromRow_of_value {channel : Nat} {value : UInt16}
    (hchannel : channel < format.channels) (hvalue : value.toNat < 2 ^ format.depth)
    (hbits : ∀ k < format.depth,
      bitAt data (format.channelPlace x channel + k) = some (channelBit format.depth value k)) :
    getRawChannelFromRow data x channel format = .ok value := by
  have hknown : format ≠ .unknown := by
    intro hunknown
    rw [hunknown] at hchannel
    exact Nat.not_lt_zero _ hchannel
  have hpos := depth_pos hknown
  have hlast := lt_of_bitAt (hbits (format.depth - 1) (by omega))
  obtain ⟨value', hget, hbound, hbits'⟩ :=
    @getRawChannelFromRow_spec data format x channel hchannel (by omega)
  rw [hget, channel_ext hknown hbound hvalue fun k hk =>
    Option.some.inj ((hbits' k hk).symm.trans (hbits k hk))]

/-- Where the bits of a pixel are, it is read as it was stored. -/
theorem getPixelFromRow_of_bits (hknown : format ≠ .unknown)
    (hbits : ∀ k < format.totalBits,
      bitAt data (x * format.totalBits + k) = some (format.pixelBit pixel k)) :
    getPixelFromRow data x format = .ok (format.stored pixel) := by
  refine getPixelFromRow_of_channels hknown fun c hc => ?_
  refine getRawChannelFromRow_of_value hc (narrow_lt (isDepth_of_known hknown) _) fun k hk => ?_
  have hinside : c * format.depth + k < format.totalBits := by
    rw [totalBits_eq]
    exact part_lt hc hk
  have hbit := hbits _ hinside
  rw [PixelFormat.pixelBit, part_div hk, part_mod hk] at hbit
  rw [PixelFormat.channelPlace, Nat.add_assoc]
  exact hbit

end Pixels

/-! ## Stored pixels -/

section Stored

variable {format format' : PixelFormat} {pixel pixel' : Pixel} {value value' : Nat → UInt16}

theorem componentOf_channelOf (component : Component) :
    format.componentOf (format.channelOf component) = component := by
  cases component <;> cases format <;> rfl

theorem sourceOf_lt (hknown : format ≠ .unknown) (component : Component) :
    format.sourceOf component < format.channels := by
  cases format with
  | unknown => exact absurd rfl hknown
  | i1 | rgb111 | i8 | rgb888 | bgr888 | i16 | rgb161616 | bgr161616 =>
      cases component <;> decide

theorem component_pixelOf (component : Component) :
    (format.pixelOf value).component component =
      widen format.depth (value (format.sourceOf component)) := by
  cases component with
  | red | green | blue => rfl

theorem pixel_ext (h : ∀ component, pixel.component component = pixel'.component component) :
    pixel = pixel' := by
  have hr := h .red
  have hg := h .green
  have hb := h .blue
  cases pixel
  cases pixel'
  simp only [Pixel.component] at hr hg hb
  rw [hr, hg, hb]

theorem component_stored (hcolour : format.channels = 3) (component : Component) :
    (format.stored pixel).component component =
      widen format.depth (narrow format.depth (pixel.component component)) := by
  rw [PixelFormat.stored, component_pixelOf, PixelFormat.sourceOf, if_pos hcolour,
    PixelFormat.valueOf, componentOf_channelOf]

/-- What a pixel is stored as depends on the high bits of its components. -/
theorem stored_congr
    (h : ∀ component, narrow format.depth (pixel.component component) =
      narrow format.depth (pixel'.component component)) :
    format.stored pixel = format.stored pixel' := by
  refine pixel_ext fun component => ?_
  rw [PixelFormat.stored, PixelFormat.stored, component_pixelOf, component_pixelOf,
    PixelFormat.valueOf, PixelFormat.valueOf, h]

/-- An exact format holds what is read from it. -/
theorem stored_pixelOf (hexact : format.Exact)
    (hvalue : ∀ c < format.channels, (value c).toNat < 2 ^ format.depth) :
    format.stored (format.pixelOf value) = format.pixelOf value := by
  refine pixel_ext fun component => ?_
  have hsource := sourceOf_lt hexact.known component
  have hback : format.sourceOf (format.componentOf (format.sourceOf component)) =
      format.sourceOf component := by
    obtain hcolour | hi1 := hexact
    · rw [PixelFormat.sourceOf, PixelFormat.sourceOf, if_pos hcolour, if_pos hcolour,
        componentOf_channelOf]
    · subst hi1
      rfl
  rw [PixelFormat.stored, component_pixelOf, component_pixelOf, PixelFormat.valueOf,
    component_pixelOf, hback,
    narrow_widen (isDepth_of_known hexact.known) (hvalue _ hsource)]

/-- A colour format of no less depth holds it as well. -/
theorem stored_of_depth_le (hknown : format ≠ .unknown) (hcolour : format'.channels = 3)
    (hle : format.depth ≤ format'.depth)
    (hvalue : ∀ c < format.channels, (value c).toNat < 2 ^ format.depth) :
    format'.stored (format.pixelOf value) = format.pixelOf value := by
  refine pixel_ext fun component => ?_
  have hsource := sourceOf_lt hknown component
  rw [component_stored hcolour, component_pixelOf,
    widen_narrow_widen (isDepth_of_known hknown) (isDepth_of_known (known_of_channels hcolour)) hle
      (hvalue _ hsource)]

/-- A colour format of no less depth on the way leaves no trace. -/
theorem stored_stored (hknown : format ≠ .unknown) (hcolour : format'.channels = 3)
    (hle : format.depth ≤ format'.depth) (pixel : Pixel) :
    format.stored (format'.stored pixel) = format.stored pixel :=
  stored_congr fun component => by
    rw [component_stored hcolour, narrow_widen_narrow (isDepth_of_known hknown)
      (isDepth_of_known (known_of_channels hcolour)) hle]

end Stored

/-! ## Rows -/

section Rows

variable {mix : GrayMix} {data out : List UInt8} {inFormat outFormat : PixelFormat} {count : Nat}

/-- A pixel that is inside of a row can be read. -/
theorem getPixelFromRow_of_le {format : PixelFormat} {x : Nat} (hknown : format ≠ .unknown)
    (hdata : x * format.totalBits + format.totalBits ≤ 8 * data.length) :
    ∃ value, (∀ c < format.channels, (value c).toNat < 2 ^ format.depth ∧
        getRawChannelFromRow data x c format = .ok (value c)) ∧
      getPixelFromRow data x format = .ok (format.pixelOf value) := by
  have hchannel : ∀ c, ∃ v : UInt16, c < format.channels → v.toNat < 2 ^ format.depth ∧
      getRawChannelFromRow data x c format = .ok v := by
    intro c
    by_cases hc : c < format.channels
    · have hplace : c * format.depth + format.depth ≤ format.totalBits := by
        rw [totalBits_eq]
        exact part_end_le hc
      obtain ⟨v, hget, hbound, -⟩ := @getRawChannelFromRow_spec data format x c hc
        (by rw [PixelFormat.channelPlace]; omega)
      exact ⟨v, fun _ => ⟨hbound, hget⟩⟩
    · exact ⟨0, fun hc' => absurd hc' hc⟩
  choose value hvalue using hchannel
  exact ⟨value, hvalue, getPixelFromRow_of_channels hknown fun c hc => (hvalue c hc).2⟩

/-- The pixels of a row are inside of it. -/
theorem pixel_inside {format : PixelFormat} {x size : Nat} (hsize : rowSize format count ≤ size)
    (hx : x < count) : x * format.totalBits + format.totalBits ≤ 8 * size := by
  have hroom := bits_le_rowSize format count
  have hpixel : x * format.totalBits + format.totalBits ≤ count * format.totalBits :=
    part_end_le hx
  omega

/-- After the conversion each pixel is what the format holds of it. -/
theorem convertPixelRowFormat_spec (hin : inFormat ≠ .unknown) (hout : outFormat.Exact)
    (hdata : rowSize inFormat count ≤ data.length) (hroom : rowSize outFormat count ≤ out.length) :
    ∃ out', convertPixelRowFormat mix data inFormat out outFormat count = .ok out' ∧
      out'.length = out.length ∧ ∀ x < count, ∃ value,
        (∀ c < inFormat.channels, (value c).toNat < 2 ^ inFormat.depth) ∧
        getPixelFromRow data x inFormat = .ok (inFormat.pixelOf value) ∧
        getPixelFromRow out' x outFormat = .ok (outFormat.stored (inFormat.pixelOf value)) := by
  have hpixels : ∀ x, ∃ value, x < count →
      (∀ c < inFormat.channels, (value c).toNat < 2 ^ inFormat.depth ∧
        getRawChannelFromRow data x c inFormat = .ok (value c)) ∧
      getPixelFromRow data x inFormat = .ok (inFormat.pixelOf value) := by
    intro x
    by_cases hx : x < count
    · obtain ⟨value, hvalue, hget⟩ := getPixelFromRow_of_le hin (pixel_inside hdata hx)
      exact ⟨value, fun _ => ⟨hvalue, hget⟩⟩
    · exact ⟨fun _ => 0, fun hx' => absurd hx' hx⟩
  choose value hvalue using hpixels
  rw [convertPixelRowFormat]
  by_cases hsame : inFormat = outFormat
  · subst hsame
    obtain ⟨out', hcopy, hlength, hbytes⟩ := @memcpy_spec out data 0 0 (rowSize inFormat count)
      (by omega) (by omega)
    refine ⟨out', ?_, hlength, fun x hx => ?_⟩
    · rw [if_pos rfl, getPixelRowBytes_eq hin]
      exact hcopy
    · obtain ⟨hchannels, hget⟩ := hvalue x hx
      refine ⟨value x, fun c hc => (hchannels c hc).1, hget, ?_⟩
      rw [stored_pixelOf hout fun c hc => (hchannels c hc).1]
      refine getPixelFromRow_of_channels hin fun c hc => ?_
      rw [← (hchannels c hc).2]
      have hplace : c * inFormat.depth + inFormat.depth ≤ inFormat.totalBits := by
        rw [totalBits_eq]
        exact part_end_le hc
      have hinside := pixel_inside (Nat.le_refl (rowSize inFormat count)) hx
      refine getRawChannelFromRow_congr_bits hc hc rfl
        (by rw [PixelFormat.channelPlace]; omega) fun k hk => ?_
      rw [bitAt, bitAt, hbytes, PixelFormat.channelPlace, if_pos (by omega), Nat.sub_zero,
        Nat.zero_add]
  · rw [if_neg hsame, if_neg hin, if_neg hout.known, convertPixels]
    obtain ⟨out', hloop, hwrote⟩ := @wrote_forTo out count _ outFormat.totalBits
      (fun i outData => do
        let pixel ← getPixelFromRow data i inFormat
        setPixelToRow mix outData i pixel outFormat)
      (fun x k => outFormat.pixelBit (inFormat.pixelOf (value x)) k)
      fun x hx out₁ hlength => by
        obtain ⟨out₂, bit, hset, hwrote, hbit⟩ := @setPixelToRow_wrote mix out₁ x outFormat
          (inFormat.pixelOf (value x)) hout.known (by rw [hlength]; exact pixel_inside hroom hx)
        exact ⟨out₂, by rw [(hvalue x hx).2, ok_bind, hset], hwrote.congr (hbit hout)⟩
    refine ⟨out', hloop, hwrote.length, fun x hx => ⟨value x, fun c hc => ((hvalue x hx).1 c hc).1,
      (hvalue x hx).2, getPixelFromRow_of_bits hout.known fun k hk => ?_⟩⟩
    have hbit := hwrote.inside (part_lt hx hk)
    rw [Nat.zero_add] at hbit
    rw [hbit, part_div hk, part_mod hk]

/-- What two conversions, one after the other, make of each pixel. -/
theorem convert_convert_spec {mid : List UInt8} {colour : PixelFormat} (hin : inFormat ≠ .unknown)
    (hcolour : colour.channels = 3) (hout : outFormat.Exact)
    (hdata : rowSize inFormat count ≤ data.length) (hmid : rowSize colour count ≤ mid.length)
    (hroom : rowSize outFormat count ≤ out.length) :
    ∃ mid' out', convertPixelRowFormat mix data inFormat mid colour count = .ok mid' ∧
      convertPixelRowFormat mix mid' colour out outFormat count = .ok out' ∧
      ∀ x < count, ∃ value, (∀ c < inFormat.channels, (value c).toNat < 2 ^ inFormat.depth) ∧
        getPixelFromRow data x inFormat = .ok (inFormat.pixelOf value) ∧
        getPixelFromRow out' x outFormat =
          .ok (outFormat.stored (colour.stored (inFormat.pixelOf value))) := by
  obtain ⟨mid', hfirst, hlength, hpixels⟩ :=
    @convertPixelRowFormat_spec mix _ _ _ _ _ hin (.inl hcolour) hdata hmid
  obtain ⟨out', hsecond, -, hpixels'⟩ :=
    @convertPixelRowFormat_spec mix _ _ _ _ _ (known_of_channels hcolour) hout
      (by rw [hlength]; exact hmid) hroom
  refine ⟨mid', out', hfirst, hsecond, fun x hx => ?_⟩
  obtain ⟨value, hvalue, hget, hmidPixel⟩ := hpixels x hx
  obtain ⟨value', -, hget', houtPixel⟩ := hpixels' x hx
  have hpixel := Except.ok.inj (hget'.symm.trans hmidPixel)
  exact ⟨value, hvalue, hget, by rw [houtPixel, hpixel]⟩

end Rows

/-! ## Conversions without loss -/

/-- Two rows have the same pixels. -/
def SamePixels (format : PixelFormat) (count : Nat) (row row' : List UInt8) : Prop :=
  ∀ x < count, getPixelFromRow row x format = getPixelFromRow row' x format

/-- Through a colour format of enough depth a row can be converted as if it were not there, also
back to its own format, and a pixel that is stored leaves the others as they are. -/
theorem convertPixelRowFormat_lossless (mix : GrayMix) :
    (∀ {inFormat colour : PixelFormat} {count : Nat} {data mid out : List UInt8},
      inFormat.Exact → colour.channels = 3 → inFormat.depth ≤ colour.depth →
      rowSize inFormat count ≤ data.length → rowSize colour count ≤ mid.length →
      rowSize inFormat count ≤ out.length →
      ∃ mid' out', convertPixelRowFormat mix data inFormat mid colour count = .ok mid' ∧
        convertPixelRowFormat mix mid' colour out inFormat count = .ok out' ∧
        SamePixels inFormat count out' data) ∧
    (∀ {inFormat colour outFormat : PixelFormat} {count : Nat} {data mid out direct : List UInt8},
      inFormat ≠ .unknown → colour.channels = 3 → outFormat.Exact →
      min inFormat.depth outFormat.depth ≤ colour.depth →
      rowSize inFormat count ≤ data.length → rowSize colour count ≤ mid.length →
      rowSize outFormat count ≤ out.length → rowSize outFormat count ≤ direct.length →
      ∃ mid' out' direct', convertPixelRowFormat mix data inFormat mid colour count = .ok mid' ∧
        convertPixelRowFormat mix mid' colour out outFormat count = .ok out' ∧
        convertPixelRowFormat mix data inFormat direct outFormat count = .ok direct' ∧
        SamePixels outFormat count out' direct') ∧
    ∀ {format : PixelFormat} {out : List UInt8} {x : Nat} (pixel : Pixel), format ≠ .unknown →
      x * format.totalBits + format.totalBits ≤ 8 * out.length →
      ∃ out', setPixelToRow mix out x pixel format = .ok out' ∧ out'.length = out.length ∧
        ∀ z, z < x * format.totalBits ∨ x * format.totalBits + format.totalBits ≤ z →
          bitAt out' z = bitAt out z := by
  refine ⟨?_, ?_, ?_⟩
  · intro inFormat colour count data mid out hin hcolour hle hdata hmid hout
    obtain ⟨mid', out', hfirst, hsecond, hpixels⟩ :=
      @convert_convert_spec mix _ _ _ _ _ _ _ hin.known hcolour hin hdata hmid hout
    refine ⟨mid', out', hfirst, hsecond, fun x hx => ?_⟩
    obtain ⟨value, hvalue, hget, hget'⟩ := hpixels x hx
    rw [hget, hget', stored_of_depth_le hin.known hcolour hle hvalue, stored_pixelOf hin hvalue]
  · intro inFormat colour outFormat count data mid out direct hin hcolour hexact hle hdata hmid
      hout hdirect
    obtain ⟨mid', out', hfirst, hsecond, hpixels⟩ :=
      @convert_convert_spec mix _ _ _ _ _ _ _ hin hcolour hexact hdata hmid hout
    obtain ⟨direct', honce, -, hpixels'⟩ :=
      @convertPixelRowFormat_spec mix _ _ _ _ _ hin hexact hdata hdirect
    refine ⟨mid', out', direct', hfirst, hsecond, honce, fun x hx => ?_⟩
    obtain ⟨value, hvalue, hget, hthrough⟩ := hpixels x hx
    obtain ⟨value', -, hget', honcePixel⟩ := hpixels' x hx
    have hpixel := Except.ok.inj (hget'.symm.trans hget)
    rw [hthrough, honcePixel, hpixel]
    cases min_le_iff.mp hle with
    | inl hle => rw [stored_of_depth_le hin hcolour hle hvalue]
    | inr hle => rw [stored_stored hexact.known hcolour hle]
  · intro format out x pixel hknown hout
    obtain ⟨out', bit, hset, hwrote, -⟩ :=
      @setPixelToRow_wrote mix _ _ _ pixel hknown hout
    exact ⟨out', hset, hwrote.length, fun z hz => hwrote.outside hz⟩

/-- Gray values in whole percents. -/
def percentMix : GrayMix where
  i8 r g b := (r * 30 + g * 59 + b * 11) / 100
  i16 r g b := r / 100 * 30 + g / 100 * 59 + b / 100 * 11

theorem convertPixelRowFormat_lossless_twoPixels :
    (∃ mid' out',
      convertPixelRowFormat percentMix [0xac] .rgb111 (List.replicate 6 0) .bgr888 2 = .ok mid' ∧
      convertPixelRowFormat percentMix mid' .bgr888 [0] .rgb111 2 = .ok out' ∧
      SamePixels .rgb111 2 out' [0xac]) ∧
    (∃ mid' out' direct',
      convertPixelRowFormat percentMix [1, 2, 3, 200, 5, 6] .rgb888 [0] .rgb111 2 = .ok mid' ∧
      convertPixelRowFormat percentMix mid' .rgb111 [0] .i1 2 = .ok out' ∧
      convertPixelRowFormat percentMix [1, 2, 3, 200, 5, 6] .rgb888 [0] .i1 2 = .ok direct' ∧
      SamePixels .i1 2 out' direct') ∧
    ∃ out', setPixelToRow percentMix [0xac] 1 { g := 0xffff } .rgb111 = .ok out' ∧
      out'.length = 1 ∧ ∀ z, z < 3 ∨ 6 ≤ z → bitAt out' z = bitAt [0xac] z := by
  have hexact : PixelFormat.Exact .rgb111 := .inl rfl
  have hbits : PixelFormat.Exact .i1 := .inr rfl
  obtain ⟨hback, hthrough, hframe⟩ := convertPixelRowFormat_lossless percentMix
  exact ⟨hback hexact rfl (by decide) (by decide) (by decide) (by decide),
    hthrough (by decide) rfl hbits (by decide) (by decide) (by decide) (by decide) (by decide),
    hframe { g := 0xffff } (by decide) (by decide)⟩

end SaneBackends.Genesys
