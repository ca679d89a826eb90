import SaneBackends.Genesys.Extract
import SaneBackends.Lib.Loop
/-!
# The bits of a row

The channels of pixels in a row, and what reading and storing pixels and channels does to the
bits of the row. A pixel of any format has `totalBits` of them, a channel `depth` of these.
-/

namespace SaneBackends.Genesys

open SaneBackends.Lib

/-! ## The code -/

/-- A word that is stored with its low byte first. -/
def wordOfBytes (lo hi : UInt8) : UInt16 := lo.toUInt16 ||| hi.toUInt16 <<< 8

def getRawChannelFromRow (data : List UInt8) (x channel : Nat) :
    PixelFormat → Except RowFailure UInt16
  | .i1 => do
      let b ← readBit data x
      pure b.toUInt16
  | .rgb111 => do
      let b ← readBit data (x * 3 + channel)
      pure b.toUInt16
  | .i8 => do
      let d0 ← loadByte data x
      pure d0.toUInt16
  | .i16 => do
      let d0 ← loadByte data (x * 2)
      let d1 ← loadByte data (x * 2 + 1)
      pure (wordOfBytes d0 d1)
  | .rgb888 | .bgr888 => do
      let d0 ← loadByte data (x * 3 + channel)
      pure d0.toUInt16
  | .rgb161616 | .bgr161616 => do
      let d0 ← loadByte data (x * 6 + channel * 2)
      let d1 ← loadByte data (x * 6 + channel * 2 + 1)
      pure (wordOfBytes d0 d1)
  | .unknown => unknownPixelFormat

def setRawChannelToRow (data : List UInt8) (x channel : Nat) (pixel : UInt16) :
    PixelFormat → Except RowFailure (List UInt8)
  | .i1 => writeBit data x (pixel &&& 1).toUInt8
  | .rgb111 => writeBit data (x * 3 + channel) (pixel &&& 1).toUInt8
  | .i8 => storeByte data x pixel.toUInt8
  | .i16 => do
      let data ← storeByte data (x * 2) pixel.toUInt8
      storeByte data (x * 2 + 1) (pixel >>> 8).toUInt8
  | .rgb888 | .bgr888 => storeByte data (x * 3 + channel) pixel.toUInt8
  | .rgb161616 | .bgr161616 => do
      let data ← storeByte data (x * 6 + channel * 2) pixel.toUInt8
      storeByte data (x * 6 + channel * 2 + 1) (pixel >>> 8).toUInt8
  | .unknown => unknownPixelFormat

/-- The stores of all three channels of a pixel. -/
def setRawChannelsToRow (data : List UInt8) (x : Nat) (ch0 ch1 ch2 : UInt16)
    (format : PixelFormat) : Except RowFailure (List UInt8) := do
  let data ← setRawChannelToRow data x 0 ch0 format
  let data ← setRawChannelToRow data x 1 ch1 format
  setRawChannelToRow data x 2 ch2 format

/-! ## Bits that are written -/

/-- The row is `data` but for `n` bits from `start` on. -/
structure Wrote (data data' : List UInt8) (start n : Nat) (bit : Nat → Bool) : Prop where
  length : data'.length = data.length
  bits : ∀ z, bitAt data' z =
    if start ≤ z ∧ z < start + n then some (bit (z - start)) else bitAt data z

/-- A bit of a row, for those that are inside of it. -/
def rowBit (data : List UInt8) (z : Nat) : Bool := (bitAt data z).getD false

section Wrote

variable {data data' data₁ data₂ : List UInt8} {start n m : Nat} {bit bit' : Nat → Bool}

theorem bitAt_of_lt {z : Nat} (hz : z < 8 * data.length) : bitAt data z = some (rowBit data z) := by
  have hbyte : z / 8 < data.length := by omega
  rw [rowBit, bitAt, List.getElem?_eq_getElem hbyte]
  rfl

theorem Wrote.inside (h : Wrote data data' start n bit) {k : Nat} (hk : k < n) :
    bitAt data' (start + k) = some (bit k) := by
  rw [h.bits, if_pos (by omega), Nat.add_sub_cancel_left]

theorem Wrote.outside (h : Wrote data data' start n bit) {z : Nat}
    (hz : z < start ∨ start + n ≤ z) : bitAt data' z = bitAt data z := by
  rw [h.bits, if_neg (by omega)]

theorem Wrote.refl (data : List UInt8) (start : Nat) (bit : Nat → Bool) :
    Wrote data data start 0 bit := by
  refine ⟨rfl, fun z => ?_⟩
  rw [if_neg (by omega)]

theorem Wrote.congr (h : Wrote data data' start n bit) (heq : ∀ k < n, bit k = bit' k) :
    Wrote data data' start n bit' := by
  refine ⟨h.length, fun z => ?_⟩
  rw [h.bits]
  split_ifs with hinside
  · rw [heq _ (by omega)]
  · rfl

/-- Two writes next to each other are one. -/
theorem Wrote.append (h : Wrote data data₁ start n bit)
    (h' : Wrote data₁ data₂ (start + n) m bit') :
    Wrote data data₂ start (n + m) (fun k => if k < n then bit k else bit' (k - n)) := by
  refine ⟨h'.length.trans h.length, fun z => ?_⟩
  rw [h'.bits, h.bits]
  by_cases hbehind : start + n ≤ z ∧ z < start + n + m
  · rw [if_pos hbehind, if_pos (by omega), if_neg (by omega), Nat.sub_sub]
  · rw [if_neg hbehind]
    by_cases hinside : start ≤ z ∧ z < start + n
    · rw [if_pos hinside, if_pos (by omega), if_pos (by omega)]
    · rw [if_neg hinside, if_neg (by omega)]

/-- An item behind those that are written is one more of them. -/
theorem Wrote.item {x size : Nat} (h : Wrote data data₁ 0 (x * size) bit)
    (h' : Wrote data₁ data₂ (x * size) size bit') (hbit : ∀ k < size, bit' k = bit (x * size + k)) :
    Wrote data data₂ 0 ((x + 1) * size) bit := by
  rw [← Nat.zero_add (x * size)] at h'
  rw [Nat.succ_mul]
  refine (h.append h').congr fun z hz => ?_
  split_ifs with hbefore
  · rfl
  · rw [hbit _ (by omega), Nat.add_sub_cancel' (Nat.le_of_not_lt hbefore)]

/-- A loop that writes one item of the row after another writes all of them. -/
theorem wrote_forTo {ε : Type} {size : Nat} {body : Nat → List UInt8 → Except ε (List UInt8)}
    {bit : Nat → Nat → Bool}
    (hbody : ∀ x < n, ∀ out : List UInt8, out.length = data.length →
      ∃ out', body x out = .ok out' ∧ Wrote out out' (x * size) size (bit x)) :
    ∃ data', forTo n body data = .ok data' ∧
      Wrote data data' 0 (n * size) (fun z => bit (z / size) (z % size)) := by
  refine forTo_invariant
    (I := fun x out => Wrote data out 0 (x * size) (fun z => bit (z / size) (z % size)))
    ?_ fun x hx out hwrote => ?_
  · rw [Nat.zero_mul]
    exact .refl data 0 _
  · obtain ⟨out', hrun, hitem⟩ := hbody x hx out hwrote.length
    refine ⟨out', hrun, hwrote.item hitem fun k hk => ?_⟩
    rw [part_div hk, part_mod hk]

end Wrote

/-! ## Bytes -/

section Bytes

variable {data data' : List UInt8} {i i' : Nat}

theorem bitAt_byte {k : Nat} (hk : k < 8) :
    bitAt data (8 * i + k) = data[i]?.map fun byte => byte.toBitVec.getLsbD (7 - k) := by
  rw [bitAt, Nat.mul_comm, part_div hk, part_mod hk]

theorem byte_ext {a b : UInt8}
    (h : ∀ k < 8, a.toBitVec.getLsbD (7 - k) = b.toBitVec.getLsbD (7 - k)) : a = b := by
  apply UInt8.eq_of_toBitVec_eq
  apply BitVec.eq_of_getLsbD_eq
  intro k hk
  have hbit := h (7 - k) (by omega)
  rwa [show 7 - (7 - k) = k by omega] at hbit

/-- A byte is made of its bits. -/
theorem getElem?_of_bits (h : ∀ k < 8, bitAt data' (8 * i' + k) = bitAt data (8 * i + k)) :
    data'[i']? = data[i]? := by
  have hbits : ∀ k < 8, (data'[i']?.map fun byte => byte.toBitVec.getLsbD (7 - k)) =
      data[i]?.map fun byte => byte.toBitVec.getLsbD (7 - k) := by
    intro k hk
    rw [← bitAt_byte hk, ← bitAt_byte hk, h k hk]
  cases hbyte : data[i]? with
  | none =>
      have hnone := hbits 0 (by decide)
      rw [hbyte, Option.map_none, Option.map_eq_none_iff] at hnone
      exact hnone
  | some byte =>
      have hsome := hbits 0 (by decide)
      rw [hbyte, Option.map_some, Option.map_eq_some_iff] at hsome
      obtain ⟨byte', hbyte', -⟩ := hsome
      rw [hbyte']
      congr 1
      refine byte_ext fun k hk => ?_
      have hbit := hbits k hk
      rw [hbyte, hbyte'] at hbit
      exact Option.some.inj hbit

theorem storeByte_wrote (hi : i < data.length) (byte : UInt8) :
    ∃ data', storeByte data i byte = .ok data' ∧
      Wrote data data' (8 * i) 8 (fun k => byte.toBitVec.getLsbD (7 - k)) := by
  refine ⟨_, if_pos hi, List.length_set .., fun z => ?_⟩
  have hz : z = 8 * (z / 8) + z % 8 := (Nat.div_add_mod z 8).symm
  by_cases hsame : z / 8 = i
  · rw [if_pos (by omega), hz, hsame, bitAt_byte (Nat.mod_lt _ (by decide)),
      List.getElem?_set_self hi, Nat.add_sub_cancel_left]
    rfl
  · rw [if_neg (by omega), bitAt, bitAt, List.getElem?_set_ne (Ne.symm hsame)]

/-- Bytes that are stored one behind the other. -/
def storeBytes : List UInt8 → Nat → List UInt8 → Except RowFailure (List UInt8)
  | data, _, [] => .ok data
  | data, i, byte :: bytes => do
      let data ← storeByte data i byte
      storeBytes data (i + 1) bytes

theorem storeBytes_wrote (bytes : List UInt8) (hi : i + bytes.length ≤ data.length) :
    ∃ data', storeBytes data i bytes = .ok data' ∧
      Wrote data data' (8 * i) (8 * bytes.length) (rowBit bytes) := by
  induction bytes generalizing data i with
  | nil => exact ⟨data, rfl, .refl data _ _⟩
  | cons byte bytes ih =>
      rw [List.length_cons] at hi
      obtain ⟨data₁, hstore, hwrote₁⟩ := storeByte_wrote (show i < data.length by omega) byte
      obtain ⟨data₂, hrest, hwrote₂⟩ := @ih data₁ (i + 1) (by rw [hwrote₁.length]; omega)
      refine ⟨data₂, by rw [storeBytes, hstore, ok_bind, hrest], ?_⟩
      have hlength : 8 * (byte :: bytes).length = 8 + 8 * bytes.length := by
        rw [List.length_cons]
        omega
      rw [hlength]
      refine (hwrote₁.append ((Nat.mul_succ 8 i) ▸ hwrote₂)).congr fun k hk => ?_
      split_ifs with hfirst
      · have hplace := @bitAt_byte (byte :: bytes) 0 k hfirst
        rw [Nat.mul_zero, Nat.zero_add] at hplace
        rw [rowBit, hplace]
        rfl
      · have hdiv : k / 8 = (k - 8) / 8 + 1 := by omega
        have hmod : k % 8 = (k - 8) % 8 := by omega
        rw [rowBit, rowBit, bitAt, bitAt, hdiv, hmod, List.getElem?_cons_succ]

end Bytes

/-! ## Pixels -/

section Pixels

variable {data data' out : List UInt8} {format : PixelFormat} {x x' : Nat}

theorem totalBits_of_bytes (hformat : 0 < format.bytes) : format.totalBits = 8 * format.bytes := by
  cases format with
  | unknown | i1 | rgb111 => exact absurd hformat (Nat.lt_irrefl 0)
  | i8 | rgb888 | bgr888 | i16 | rgb161616 | bgr161616 => rfl

theorem totalBits_of_subByte (hformat : format.SubByte) : format.totalBits = format.bits := by
  obtain rfl | rfl := hformat
  · rfl
  · rfl

theorem totalBits_pos (hknown : format ≠ .unknown) : 0 < format.totalBits := by
  cases format with
  | unknown => exact absurd rfl hknown
  | i1 | rgb111 | i8 | rgb888 | bgr888 | i16 | rgb161616 | bgr161616 => decide

/-- The bits of a row's pixels are in the row. -/
theorem bits_le_rowSize (format : PixelFormat) (width : Nat) :
    width * format.totalBits ≤ 8 * rowSize format width := by
  rw [rowSize, Nat.mul_comm width]
  generalize format.totalBits * width = total
  split_ifs <;> omega

theorem readBit_congr (h : bitAt data' x' = bitAt data x) : readBit data' x' = readBit data x := by
  cases hbit : bitAt data x with
  | some b => rw [readBit_of_bitAt hbit, readBit_of_bitAt (h.trans hbit)]
  | none =>
      have hnone : ∀ {data : List UInt8} {x : Nat}, bitAt data x = none →
          readBit data x = .error .outOfBounds := by
        intro data x hx
        rw [bitAt, Option.map_eq_none_iff] at hx
        rw [readBit, loadByte, hx]
        rfl
      rw [hnone hbit, hnone (h.trans hbit)]

/-- A pixel is read from its own bits. -/
theorem getRawPixelFromRow_congr_bits (h : ∀ k < format.totalBits,
    bitAt data' (x' * format.totalBits + k) = bitAt data (x * format.totalBits + k)) :
    getRawPixelFromRow data' x' format = getRawPixelFromRow data x format := by
  by_cases hformat : 0 < format.bytes
  · refine getRawPixelFromRow_congr hformat fun i hi => getElem?_of_bits fun k hk => ?_
    have hbit := h (8 * i + k) (by rw [totalBits_of_bytes hformat]; omega)
    rw [totalBits_of_bytes hformat] at hbit
    calc bitAt data' (8 * (x' * format.bytes + i) + k)
        = bitAt data' (x' * (8 * format.bytes) + (8 * i + k)) := by congr 1; ring
      _ = bitAt data (x * (8 * format.bytes) + (8 * i + k)) := hbit
      _ = bitAt data (8 * (x * format.bytes + i) + k) := by congr 1; ring
  · cases format with
    | unknown => rfl
    | i8 | rgb888 | bgr888 | i16 | rgb161616 | bgr161616 => exact absurd (by decide) hformat
    | i1 =>
        have h0 := h 0 (by decide)
        simp only [PixelFormat.totalBits, Nat.mul_one, Nat.add_zero] at h0
        rw [getRawPixelFromRow, getRawPixelFromRow, readBit_congr h0]
    | rgb111 =>
        have h0 := h 0 (by decide)
        have h1 := h 1 (by decide)
        have h2 := h 2 (by decide)
        simp only [PixelFormat.totalBits, Nat.add_zero] at h0 h1 h2
        rw [getRawPixelFromRow, getRawPixelFromRow, readBit_congr h0, readBit_congr h1,
          readBit_congr h2]

/-- The bytes of a pixel. -/
def RawPixel.bytes (pixel : RawPixel) (format : PixelFormat) : List UInt8 :=
  [pixel.d0, pixel.d1, pixel.d2, pixel.d3, pixel.d4, pixel.d5].take format.bytes

theorem length_bytes (pixel : RawPixel) (format : PixelFormat) :
    (pixel.bytes format).length = format.bytes := by
  cases format with
  | unknown | i1 | rgb111 | i8 | rgb888 | bgr888 | i16 | rgb161616 | bgr161616 => rfl

theorem setRawPixelToRow_eq_storeBytes (hformat : 0 < format.bytes) (pixel : RawPixel) :
    setRawPixelToRow data x pixel format =
      storeBytes data (x * format.bytes) (pixel.bytes format) := by
  cases format with
  | unknown | i1 | rgb111 => exact absurd hformat (Nat.lt_irrefl 0)
  | i8 =>
      simp only [setRawPixelToRow, PixelFormat.bytes, RawPixel.bytes, List.take, storeBytes,
        bind_ok_eq, Nat.mul_one]
  | i16 | rgb888 | bgr888 | rgb161616 | bgr161616 =>
      simp only [setRawPixelToRow, PixelFormat.bytes, RawPixel.bytes, List.take, storeBytes,
        bind_ok_eq]

theorem getRawPixelFromRow_bytes (hformat : 0 < format.bytes)
    (h : x * format.bytes + format.bytes ≤ data.length) :
    ∃ pixel, getRawPixelFromRow data x format = .ok pixel ∧
      ∀ i < format.bytes, (pixel.bytes format)[i]? = data[x * format.bytes + i]? := by
  have hload : ∀ i < format.bytes, ∃ byte, data[x * format.bytes + i]? = some byte :=
    fun i hi => ⟨_, List.getElem?_eq_getElem (by omega)⟩
  cases format with
  | unknown | i1 | rgb111 => exact absurd hformat (Nat.lt_irrefl 0)
  | i8 =>
      obtain ⟨d0, h0⟩ := hload 0 (by decide)
      simp only [PixelFormat.bytes, Nat.mul_one, Nat.add_zero] at h0
      refine ⟨{ d0 }, ?_, fun i hi => ?_⟩
      · rw [getRawPixelFromRow, loadByte_of_getElem? h0]
        rfl
      · simp only [PixelFormat.bytes] at hi ⊢
        interval_cases i
        rw [Nat.mul_one]
        exact h0.symm
  | i16 =>
      obtain ⟨d0, h0⟩ := hload 0 (by decide)
      obtain ⟨d1, h1⟩ := hload 1 (by decide)
      simp only [PixelFormat.bytes, Nat.add_zero] at h0 h1
      refine ⟨{ d0, d1 }, ?_, fun i hi => ?_⟩
      · rw [getRawPixelFromRow, loadByte_of_getElem? h0, ok_bind, loadByte_of_getElem? h1]
        rfl
      · simp only [PixelFormat.bytes] at hi ⊢
        interval_cases i
        · exact h0.symm
        · exact h1.symm
  | rgb888 | bgr888 =>
      obtain ⟨d0, h0⟩ := hload 0 (by decide)
      obtain ⟨d1, h1⟩ := hload 1 (by decide)
      obtain ⟨d2, h2⟩ := hload 2 (by decide)
      simp only [PixelFormat.bytes, Nat.add_zero] at h0 h1 h2
      refine ⟨{ d0, d1, d2 }, ?_, fun i hi => ?_⟩
      · rw [getRawPixelFromRow, loadByte_of_getElem? h0, ok_bind, loadByte_of_getElem? h1,
          ok_bind, loadByte_of_getElem? h2]
        rfl
      · simp only [PixelFormat.bytes] at hi ⊢
        interval_cases i
        · exact h0.symm
        · exact h1.symm
        · exact h2.symm
  | rgb161616 | bgr161616 =>
      obtain ⟨d0, h0⟩ := hload 0 (by decide)
      obtain ⟨d1, h1⟩ := hload 1 (by decide)
      obtain ⟨d2, h2⟩ := hload 2 (by decide)
      obtain ⟨d3, h3⟩ := hload 3 (by decide)
      obtain ⟨d4, h4⟩ := hload 4 (by decide)
      obtain ⟨d5, h5⟩ := hload 5 (by decide)
      simp only [PixelFormat.bytes, Nat.add_zero] at h0 h1 h2 h3 h4 h5
      refine ⟨{ d0, d1, d2, d3, d4, d5 }, ?_, fun i hi => ?_⟩
      · rw [getRawPixelFromRow, loadByte_of_getElem? h0, ok_bind, loadByte_of_getElem? h1,
          ok_bind, loadByte_of_getElem? h2, ok_bind, loadByte_of_getElem? h3, ok_bind,
          loadByte_of_getElem? h4, ok_bind, loadByte_of_getElem? h5]
        rfl
      · simp only [PixelFormat.bytes] at hi ⊢
        interval_cases i
        · exact h0.symm
        · exact h1.symm
        · exact h2.symm
        · exact h3.symm
        · exact h4.symm
        · exact h5.symm

/-- A pixel that is read and stored is copied with all its bits. -/
theorem copyPixel_wrote (hknown : format ≠ .unknown)
    (hdata : x * format.totalBits + format.totalBits ≤ 8 * data.length)
    (hout : x' * format.totalBits + format.totalBits ≤ 8 * out.length) :
    ∃ pixel out', getRawPixelFromRow data x format = .ok pixel ∧
      setRawPixelToRow out x' pixel format = .ok out' ∧
      Wrote out out' (x' * format.totalBits) format.totalBits
        (fun k => rowBit data (x * format.totalBits + k)) := by
  cases subByte_or_bytes hknown with
  | inl hformat =>
      rw [totalBits_of_subByte hformat] at hdata hout ⊢
      have hget := @getRawPixelFromRow_of_bits data x format
        (fun k => rowBit data (x * format.bits + k)) hformat fun k hk => bitAt_of_lt (by omega)
      obtain ⟨out', hset, hlength, hbits⟩ := setRawPixelToRow_bits hformat hout
        (fun k => rowBit data (x * format.bits + k))
      exact ⟨_, out', hget, hset, hlength, hbits⟩
  | inr hformat =>
      have htotal := totalBits_of_bytes hformat
      have hplace : ∀ x, x * format.totalBits = 8 * (x * format.bytes) := by
        intro x
        rw [htotal]
        ring
      rw [hplace] at hdata hout
      obtain ⟨pixel, hget, hbytes⟩ :=
        @getRawPixelFromRow_bytes data format x hformat (by omega)
      obtain ⟨out', hstore, hwrote⟩ :=
        @storeBytes_wrote out (x' * format.bytes) (pixel.bytes format)
          (by rw [length_bytes]; omega)
      refine ⟨pixel, out', hget, ?_, ?_⟩
      · rw [setRawPixelToRow_eq_storeBytes hformat, hstore]
      · rw [hplace, htotal]
        rw [length_bytes] at hwrote
        refine hwrote.congr fun k hk => ?_
        have hbyte := hbytes (k / 8) (by omega)
        have hbit : x * (8 * format.bytes) + k = 8 * (x * format.bytes + k / 8) + k % 8 := by
          rw [← htotal, hplace]
          omega
        rw [hbit, rowBit, rowBit, bitAt_byte (Nat.mod_lt _ (by decide)), ← hbyte, bitAt]

end Pixels

/-! ## Channels -/

/-- What `get_pixel_channels` answers for the known formats. -/
def PixelFormat.channels : PixelFormat → Nat
  | .unknown => 0
  | .i1 | .i8 | .i16 => 1
  | .rgb111 | .rgb888 | .bgr888 | .rgb161616 | .bgr161616 => 3

theorem getPixelChannels_eq {format : PixelFormat} (hknown : format ≠ .unknown) :
    getPixelChannels format = .ok format.channels := by
  cases format with
  | unknown => exact absurd rfl hknown
  | i1 | rgb111 | i8 | rgb888 | bgr888 | i16 | rgb161616 | bgr161616 => rfl

theorem totalBits_eq (format : PixelFormat) :
    format.totalBits = format.channels * format.depth := by
  cases format with
  | unknown | i1 | rgb111 | i8 | rgb888 | bgr888 | i16 | rgb161616 | bgr161616 => rfl

/-- Where the bits of a channel begin. -/
def PixelFormat.channelPlace (format : PixelFormat) (x channel : Nat) : Nat :=
  x * format.totalBits + channel * format.depth

/-- A bit of a channel, in the order in which they are in the row. -/
def channelBit (depth : Nat) (value : UInt16) (k : Nat) : Bool :=
  value.toBitVec.getLsbD (k / 8 * 8 + (min depth 8 - 1 - k % 8))

section Channels

variable {data data' out : List UInt8} {format : PixelFormat} {x channel : Nat}

theorem channelBit_one (value : UInt16) : channelBit 1 value 0 = value.toBitVec.getLsbD 0 := rfl

theorem channelBit_eight (value : UInt16) {k : Nat} (hk : k < 8) :
    channelBit 8 value k = value.toUInt8.toBitVec.getLsbD (7 - k) := by
  have hplace : k / 8 * 8 + (min 8 8 - 1 - k % 8) = 7 - k := by omega
  rw [channelBit, hplace, UInt16.toBitVec_toUInt8, BitVec.getLsbD_setWidth]
  simp only [show 7 - k < 8 by omega, decide_true, Bool.true_and]

theorem channelBit_sixteen (value : UInt16) {k : Nat} (hk : k < 16) :
    channelBit 16 value k = rowBit [value.toUInt8, (value >>> 8).toUInt8] k := by
  interval_cases k <;> simp [channelBit, rowBit, bitAt]

theorem wordOfBytes_lo (lo hi : UInt8) : (wordOfBytes lo hi).toUInt8 = lo := by
  apply UInt8.eq_of_toBitVec_eq
  apply BitVec.eq_of_getLsbD_eq
  intro k hk
  interval_cases k <;> simp [wordOfBytes]

theorem wordOfBytes_hi (lo hi : UInt8) : (wordOfBytes lo hi >>> 8).toUInt8 = hi := by
  apply UInt8.eq_of_toBitVec_eq
  apply BitVec.eq_of_getLsbD_eq
  intro k hk
  interval_cases k <;> simp [wordOfBytes]

/-- A word is made of its two bytes. -/
theorem word_ext {a b : UInt16} (hlo : a.toUInt8 = b.toUInt8)
    (hhi : (a >>> 8).toUInt8 = (b >>> 8).toUInt8) : a = b := by
  apply UInt16.eq_of_toBitVec_eq
  apply BitVec.eq_of_getLsbD_eq
  intro k hk
  by_cases hlow : k < 8
  · have hbit := congrArg (fun byte : UInt8 => byte.toBitVec.getLsbD k) hlo
    interval_cases k <;> simpa using hbit
  · have hbit := congrArg (fun byte : UInt8 => byte.toBitVec.getLsbD (k - 8)) hhi
    interval_cases k <;> simpa using hbit

/-- A channel has no bits but those in its row. -/
theorem channel_ext (hknown : format ≠ .unknown) {a b : UInt16}
    (ha : a.toNat < 2 ^ format.depth) (hb : b.toNat < 2 ^ format.depth)
    (h : ∀ k < format.depth, channelBit format.depth a k = channelBit format.depth b k) :
    a = b := by
  cases format with
  | unknown => exact absurd rfl hknown
  | i1 | rgb111 =>
      have hbit := h 0 (by decide)
      simp only [PixelFormat.depth] at ha hb hbit
      rw [channelBit_one, channelBit_one] at hbit
      have ha' : a = 0 ∨ a = 1 := by
        rw [← UInt16.toNat_inj, ← UInt16.toNat_inj]
        simpa using Nat.le_one_iff_eq_zero_or_eq_one.mp (Nat.le_of_lt_succ ha)
      have hb' : b = 0 ∨ b = 1 := by
        rw [← UInt16.toNat_inj, ← UInt16.toNat_inj]
        simpa using Nat.le_one_iff_eq_zero_or_eq_one.mp (Nat.le_of_lt_succ hb)
      obtain rfl | rfl := ha' <;> obtain rfl | rfl := hb' <;> first | rfl | simp at hbit
  | i8 | rgb888 | bgr888 =>
      simp only [PixelFormat.depth] at ha hb h
      have hbyte : a.toUInt8 = b.toUInt8 := byte_ext fun k hk => by
        rw [← channelBit_eight a hk, ← channelBit_eight b hk, h k hk]
      have hvalue := congrArg UInt8.toNat hbyte
      rw [UInt16.toNat_toUInt8, UInt16.toNat_toUInt8, Nat.mod_eq_of_lt ha, Nat.mod_eq_of_lt hb]
        at hvalue
      exact UInt16.toNat_inj.mp hvalue
  | i16 | rgb161616 | bgr161616 =>
      simp only [PixelFormat.depth] at h
      have hbits : ∀ k < 16, rowBit [a.toUInt8, (a >>> 8).toUInt8] k =
          rowBit [b.toUInt8, (b >>> 8).toUInt8] k := fun k hk => by
        rw [← channelBit_sixteen a hk, ← channelBit_sixteen b hk, h k hk]
      refine word_ext (byte_ext fun k hk => ?_) (byte_ext fun k hk => ?_)
      · have hbit := hbits k (by omega)
        interval_cases k <;> exact hbit
      · have hbit := hbits (8 + k) (by omega)
        interval_cases k <;> exact hbit

theorem depth_pos (hknown : format ≠ .unknown) : 0 < format.depth := by
  cases format with
  | unknown => exact absurd rfl hknown
  | i1 | rgb111 | i8 | rgb888 | bgr888 | i16 | rgb161616 | bgr161616 => decide

theorem known_of_channels (hchannels : format.channels = 3) : format ≠ .unknown := by
  intro hunknown
  rw [hunknown] at hchannels
  cases hchannels

theorem toUInt16_lt (byte : UInt8) : byte.toUInt16.toNat < 2 ^ 8 := by
  rw [UInt8.toNat_toUInt16]
  exact byte.toNat_lt

theorem toUInt8_toUInt16 (byte : UInt8) : byte.toUInt16.toUInt8 = byte := by
  rw [← UInt8.toNat_inj, UInt16.toNat_toUInt8, UInt8.toNat_toUInt16]
  exact Nat.mod_eq_of_lt byte.toNat_lt

theorem readBit_channel (hx : x < 8 * data.length) :
    ∃ b, readBit data x = .ok b ∧ b.toUInt16.toNat < 2 ^ 1 ∧
      ∀ k < 1, bitAt data (x + k) = some (channelBit 1 b.toUInt16 k) := by
  refine ⟨_, readBit_of_bitAt (bitAt_of_lt hx), ?_, fun k hk => ?_⟩
  · cases rowBit data x <;> decide
  · rw [Nat.lt_one_iff.mp hk, Nat.add_zero, channelBit_one, bitAt_of_lt hx]
    cases rowBit data x <;> rfl

theorem loadByte_channel {i : Nat} (hi : i < data.length) :
    ∃ byte, loadByte data i = .ok byte ∧
      ∀ k < 8, bitAt data (8 * i + k) = some (channelBit 8 byte.toUInt16 k) := by
  refine ⟨_, loadByte_of_getElem? (List.getElem?_eq_getElem hi), fun k hk => ?_⟩
  rw [bitAt_byte hk, List.getElem?_eq_getElem hi, channelBit_eight _ hk, toUInt8_toUInt16,
    Option.map_some]

theorem loadWord_channel {i : Nat} (hi : i + 1 < data.length) :
    ∃ lo hi, loadByte data i = .ok lo ∧ loadByte data (i + 1) = .ok hi ∧
      ∀ k < 16, bitAt data (8 * i + k) = some (channelBit 16 (wordOfBytes lo hi) k) := by
  have hlo := List.getElem?_eq_getElem (show i < data.length by omega)
  have hhi := List.getElem?_eq_getElem hi
  refine ⟨_, _, loadByte_of_getElem? hlo, loadByte_of_getElem? hhi, fun k hk => ?_⟩
  rw [channelBit_sixteen _ hk, wordOfBytes_lo, wordOfBytes_hi]
  by_cases hlow : k < 8
  · rw [bitAt_byte hlow, hlo]
    interval_cases k <;> rfl
  · rw [show 8 * i + k = 8 * (i + 1) + (k - 8) by omega, bitAt_byte (by omega), hhi]
    interval_cases k <;> rfl

/-- Where a channel begins, in the units that the code counts in. -/
def channelStart (x channel : Nat) : PixelFormat → Nat
  | .unknown => 0
  | .i1 => x
  | .rgb111 => x * 3 + channel
  | .i8 => 8 * x
  | .i16 => 8 * (x * 2)
  | .rgb888 | .bgr888 => 8 * (x * 3 + channel)
  | .rgb161616 | .bgr161616 => 8 * (x * 6 + channel * 2)

theorem channelPlace_eq (hchannel : channel < format.channels) :
    format.channelPlace x channel = channelStart x channel format := by
  unfold PixelFormat.channelPlace channelStart
  cases format with
  | unknown => exact absurd hchannel (Nat.not_lt_zero _)
  | i1 | i8 | i16 =>
      rw [show channel = 0 from Nat.lt_one_iff.mp hchannel, Nat.zero_mul]
      simp only [PixelFormat.totalBits]
      omega
  | rgb111 | rgb888 | bgr888 | rgb161616 | bgr161616 =>
      simp only [PixelFormat.totalBits, PixelFormat.depth]
      omega

/-- A channel inside of the row is read with its bits. -/
theorem getRawChannelFromRow_spec (hchannel : channel < format.channels)
    (h : format.channelPlace x channel + format.depth ≤ 8 * data.length) :
    ∃ value, getRawChannelFromRow data x channel format = .ok value ∧
      value.toNat < 2 ^ format.depth ∧ ∀ k < format.depth,
        bitAt data (format.channelPlace x channel + k) =
          some (channelBit format.depth value k) := by
  rw [channelPlace_eq hchannel] at h ⊢
  cases format with
  | unknown => exact absurd hchannel (Nat.not_lt_zero _)
  | i1 =>
      obtain ⟨b, hread, hbound, hbits⟩ := readBit_channel (show x < 8 * data.length from h)
      exact ⟨_, by rw [getRawChannelFromRow, hread]; rfl, hbound, hbits⟩
  | rgb111 =>
      obtain ⟨b, hread, hbound, hbits⟩ :=
        readBit_channel (show x * 3 + channel < 8 * data.length from h)
      exact ⟨_, by rw [getRawChannelFromRow, hread]; rfl, hbound, hbits⟩
  | i8 =>
      simp only [PixelFormat.depth, channelStart] at h
      obtain ⟨byte, hload, hbits⟩ := loadByte_channel (show x < data.length by omega)
      exact ⟨_, by rw [getRawChannelFromRow, hload]; rfl, toUInt16_lt _, hbits⟩
  | rgb888 | bgr888 =>
      simp only [PixelFormat.depth, channelStart] at h
      obtain ⟨byte, hload, hbits⟩ := loadByte_channel (show x * 3 + channel < data.length by omega)
      exact ⟨_, by rw [getRawChannelFromRow, hload]; rfl, toUInt16_lt _, hbits⟩
  | i16 =>
      simp only [PixelFormat.depth, channelStart] at h
      obtain ⟨lo, hi, hlo, hhi, hbits⟩ := loadWord_channel (show x * 2 + 1 < data.length by omega)
      exact ⟨_, by rw [getRawChannelFromRow, hlo, ok_bind, hhi]; rfl, UInt16.toNat_lt _, hbits⟩
  | rgb161616 | bgr161616 =>
      simp only [PixelFormat.depth, channelStart] at h
      obtain ⟨lo, hi, hlo, hhi, hbits⟩ :=
        loadWord_channel (show x * 6 + channel * 2 + 1 < data.length by omega)
      exact ⟨_, by rw [getRawChannelFromRow, hlo, ok_bind, hhi]; rfl, UInt16.toNat_lt _, hbits⟩

theorem lt_of_bitAt {z : Nat} {b : Bool} (h : bitAt data z = some b) : z < 8 * data.length := by
  rw [bitAt, Option.map_eq_some_iff] at h
  obtain ⟨byte, hbyte, -⟩ := h
  have hinside := (List.getElem?_eq_some_iff.mp hbyte).1
  omega

/-- A channel is read from its own bits, in whatever format of its depth. -/
theorem getRawChannelFromRow_congr_bits {format' : PixelFormat} {x' channel' : Nat}
    (hchannel : channel < format.channels) (hchannel' : channel' < format'.channels)
    (hdepth : format'.depth = format.depth)
    (h : format.channelPlace x channel + format.depth ≤ 8 * data.length)
    (hbits : ∀ k < format.depth, bitAt data' (format'.channelPlace x' channel' + k) =
      bitAt data (format.channelPlace x channel + k)) :
    getRawChannelFromRow data' x' channel' format' =
      getRawChannelFromRow data x channel format := by
  have hknown : format ≠ .unknown := by
    intro hunknown
    rw [hunknown] at hchannel
    exact Nat.not_lt_zero _ hchannel
  obtain ⟨value, hget, hbound, hvalue⟩ := getRawChannelFromRow_spec hchannel h
  have hpos := depth_pos hknown
  have hlast := lt_of_bitAt ((hbits (format.depth - 1) (by omega)).trans
    (hvalue (format.depth - 1) (by omega)))
  obtain ⟨value', hget', hbound', hvalue'⟩ :=
    @getRawChannelFromRow_spec data' format' x' channel' hchannel' (by omega)
  rw [hdepth] at hbound' hvalue'
  rw [hget, hget', channel_ext hknown hbound' hbound fun k hk => ?_]
  exact Option.some.inj ((hvalue' k hk).symm.trans ((hbits k hk).trans (hvalue k hk)))

theorem writeBit_channel (hx : x < 8 * out.length) (value : UInt16) :
    ∃ out', writeBit out x (value &&& 1).toUInt8 = .ok out' ∧
      Wrote out out' x 1 (channelBit 1 value) := by
  obtain ⟨out', hwrite, hlength, hbits⟩ :=
    @writeBit_spec out x (by omega) (value &&& 1).toUInt8
  refine ⟨out', hwrite, hlength, fun z => ?_⟩
  rw [hbits]
  by_cases hz : z = x
  · rw [if_pos hz, if_pos (by omega), hz, Nat.sub_self, channelBit_one]
    simp
  · rw [if_neg hz, if_neg (by omega)]

theorem storeByte_channel {i : Nat} (hi : i < out.length) (value : UInt16) :
    ∃ out', storeByte out i value.toUInt8 = .ok out' ∧
      Wrote out out' (8 * i) 8 (channelBit 8 value) := by
  obtain ⟨out', hstore, hwrote⟩ := storeByte_wrote hi value.toUInt8
  exact ⟨out', hstore, hwrote.congr fun k hk => (channelBit_eight value hk).symm⟩

theorem storeWord_channel {i : Nat} (hi : i + 1 < out.length) (value : UInt16) :
    ∃ out', (storeByte out i value.toUInt8 >>= fun data =>
        storeByte data (i + 1) (value >>> 8).toUInt8) = .ok out' ∧
      Wrote out out' (8 * i) 16 (channelBit 16 value) := by
  obtain ⟨out', hstore, hwrote⟩ :=
    @storeBytes_wrote out i [value.toUInt8, (value >>> 8).toUInt8] hi
  simp only [storeBytes, bind_ok_eq] at hstore
  exact ⟨out', hstore, hwrote.congr fun k hk => (channelBit_sixteen value hk).symm⟩

/-- A channel that is stored writes its bits. -/
theorem setRawChannelToRow_spec (hchannel : channel < format.channels)
    (h : format.channelPlace x channel + format.depth ≤ 8 * out.length) (value : UInt16) :
    ∃ out', setRawChannelToRow out x channel value format = .ok out' ∧
      Wrote out out' (format.channelPlace x channel) format.depth
        (channelBit format.depth value) := by
  rw [channelPlace_eq hchannel] at h ⊢
  cases format with
  | unknown => exact absurd hchannel (Nat.not_lt_zero _)
  | i1 => exact writeBit_channel h value
  | rgb111 => exact writeBit_channel h value
  | i8 | rgb888 | bgr888 =>
      simp only [PixelFormat.depth, channelStart] at h
      exact storeByte_channel (show _ < out.length by omega) value
  | i16 | rgb161616 | bgr161616 =>
      simp only [PixelFormat.depth, channelStart] at h
      exact storeWord_channel (show _ < out.length by omega) value

/-- The bits of the pixel are those of the three channels. -/
theorem setRawChannelsToRow_wrote (hcolour : format.channels = 3)
    (hout : x * format.totalBits + format.totalBits ≤ 8 * out.length) (value : Nat → UInt16) :
    ∃ out', setRawChannelsToRow out x (value 0) (value 1) (value 2) format = .ok out' ∧
      Wrote out out' (x * format.totalBits) format.totalBits
        (fun k => channelBit format.depth (value (k / format.depth)) (k % format.depth)) := by
  have hdepth := depth_pos (known_of_channels hcolour)
  have htotal : format.totalBits = format.depth + format.depth + format.depth := by
    rw [totalBits_eq, hcolour]
    ring
  have hplace : ∀ c, format.channelPlace x c = x * format.totalBits + c * format.depth :=
    fun c => rfl
  obtain ⟨out₁, hset₁, hwrote₁⟩ := @setRawChannelToRow_spec out format x 0
    (show 0 < format.channels by omega) (by rw [hplace]; omega) (value 0)
  have hlength₁ := hwrote₁.length
  obtain ⟨out₂, hset₂, hwrote₂⟩ := @setRawChannelToRow_spec out₁ format x 1
    (show 1 < format.channels by omega) (by rw [hplace]; omega) (value 1)
  have hlength₂ := hwrote₂.length
  obtain ⟨out₃, hset₃, hwrote₃⟩ := @setRawChannelToRow_spec out₂ format x 2
    (show 2 < format.channels by omega) (by rw [hplace]; omega) (value 2)
  refine ⟨out₃, ?_, ?_⟩
  · rw [setRawChannelsToRow, hset₁, ok_bind, hset₂, ok_bind, hset₃]
  · rw [hplace, Nat.zero_mul, Nat.add_zero] at hwrote₁
    rw [hplace, Nat.one_mul] at hwrote₂
    rw [hplace, Nat.two_mul, ← Nat.add_assoc] at hwrote₃
    have hall := (hwrote₁.append hwrote₂).append (by rw [← Nat.add_assoc]; exact hwrote₃)
    rw [← htotal] at hall
    refine hall.congr fun k hk => ?_
    by_cases h1 : k < format.depth
    · rw [if_pos (by omega), if_pos h1, Nat.div_eq_of_lt h1, Nat.mod_eq_of_lt h1]
    · by_cases h2 : k < format.depth + format.depth
      · have hdiv : k / format.depth = 1 := by
          rw [Nat.div_eq_iff hdepth]
          omega
        have hmod : k % format.depth = k - format.depth := by
          rw [Nat.mod_eq_sub_mod (Nat.le_of_not_lt h1), Nat.mod_eq_of_lt (by omega)]
        rw [if_pos h2, if_neg h1, hdiv, hmod]
      · have hdiv : k / format.depth = 2 := by
          rw [Nat.div_eq_iff hdepth]
          omega
        have hmod : k % format.depth = k - (format.depth + format.depth) := by
          rw [Nat.mod_eq_sub_mod (Nat.le_of_not_lt h1), Nat.mod_eq_sub_mod (by omega),
            Nat.mod_eq_of_lt (by omega), Nat.sub_sub]
        rw [if_neg h2, hdiv, hmod]

/-- A channel whose bits are known is read as the value that they make. -/
theorem getRawChannelFromRow_of_bits (hchannel : channel < format.channels)
    {bit : Nat → Bool}
    (hbits : ∀ k < format.depth, bitAt data (format.channelPlace x channel + k) = some (bit k)) :
    ∃ value, getRawChannelFromRow data x channel format = .ok value ∧
      ∀ k < format.depth, channelBit format.depth value k = bit k := by
  have hknown : format ≠ .unknown := by
    intro hunknown
    rw [hunknown] at hchannel
    exact Nat.not_lt_zero _ hchannel
  have hpos := depth_pos hknown
  have hlast := lt_of_bitAt (hbits (format.depth - 1) (by omega))
  obtain ⟨value, hget, -, hvalue⟩ :=
    @getRawChannelFromRow_spec data format x channel hchannel (by omega)
  exact ⟨value, hget, fun k hk => Option.some.inj ((hvalue k hk).symm.trans (hbits k hk))⟩

/-- A pixel that is put together of three channels has their bits. -/
theorem copyChannels_wrote {format' : PixelFormat} (hcolour : format'.channels = 3)
    (hdepth : format'.depth = format.depth) {x' : Nat} {row : Nat → List UInt8}
    {channelOf : Nat → Nat} (hchannels : ∀ c < 3, channelOf c < format.channels)
    {bit : Nat → Nat → Bool}
    (hbits : ∀ c < 3, ∀ k < format.depth,
      bitAt (row c) (format.channelPlace x (channelOf c) + k) = some (bit c k))
    (hout : x' * format'.totalBits + format'.totalBits ≤ 8 * out.length) :
    ∃ ch0 ch1 ch2 out', getRawChannelFromRow (row 0) x (channelOf 0) format = .ok ch0 ∧
      getRawChannelFromRow (row 1) x (channelOf 1) format = .ok ch1 ∧
      getRawChannelFromRow (row 2) x (channelOf 2) format = .ok ch2 ∧
      setRawChannelsToRow out x' ch0 ch1 ch2 format' = .ok out' ∧
      Wrote out out' (x' * format'.totalBits) format'.totalBits
        (fun k => bit (k / format.depth) (k % format.depth)) := by
  have hpos := depth_pos (known_of_channels hcolour)
  obtain ⟨ch0, hget0, hvalue0⟩ :=
    getRawChannelFromRow_of_bits (hchannels 0 (by decide)) (hbits 0 (by decide))
  obtain ⟨ch1, hget1, hvalue1⟩ :=
    getRawChannelFromRow_of_bits (hchannels 1 (by decide)) (hbits 1 (by decide))
  obtain ⟨ch2, hget2, hvalue2⟩ :=
    getRawChannelFromRow_of_bits (hchannels 2 (by decide)) (hbits 2 (by decide))
  obtain ⟨out', hset, hwrote⟩ := setRawChannelsToRow_wrote hcolour hout
    (fun c => [ch0, ch1, ch2].getD c 0)
  refine ⟨ch0, ch1, ch2, out', hget0, hget1, hget2, hset, hwrote.congr fun k hk => ?_⟩
  rw [totalBits_eq, hcolour] at hk
  rw [hdepth] at hk hpos ⊢
  have hrest : k % format.depth < format.depth := Nat.mod_lt _ hpos
  have hchannel : k / format.depth < 3 := Nat.div_lt_of_lt_mul (by rwa [Nat.mul_comm])
  interval_cases k / format.depth
  · exact hvalue0 _ hrest
  · exact hvalue1 _ hrest
  · exact hvalue2 _ hrest

end Channels

end SaneBackends.Genesys
