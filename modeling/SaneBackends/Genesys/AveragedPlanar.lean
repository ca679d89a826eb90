import SaneBackends.Genesys.ShadingData
import SaneBackends.Lib.BreakLoop
/-!
# Averaged shading in planes

`compute_averaged_planar` averages each group of pixels of a colour and stores what leads from the
means to the two targets, once for the group if the sensor packs its shading data, else for each
of its pixels. All products are formed in 32 bits.
-/

namespace SaneBackends.Genesys

open SaneBackends.Lib

/-! ## The code -/

/-- `memset (shading_data, value, n)`. -/
def setBytes (n : Nat) (value : UInt8) (shading : Cells UInt8) : Except CellFault (Cells UInt8) :=
  if n ≤ shading.size then .ok (shading.replace n fun _ => value) else .error .outOfBounds

def storeShadingWord (ptr val : Nat) (shading : Cells UInt8) : Except CellFault (Cells UInt8) := do
  let shading ← shading.store ptr (UInt8.ofNat (val &&& 0xff))
  shading.store (ptr + 1) (UInt8.ofNat (val >>> 8))

/-- The arguments, with the averaging width. The LiDE 80 packs its shading data. -/
structure PlanarSetup where
  lide80 : Bool
  avgpixels : Nat
  pixelsPerLine : Nat
  wordsPerColor : Nat
  channels : Nat
  offset : Nat
  coeff : Nat
  targetBright : Nat
  targetDark : Nat

namespace PlanarSetup

def factor (s : PlanarSetup) : Nat := if s.lide80 then s.avgpixels else 1

def fill (s : PlanarSetup) : Nat := if s.lide80 then 1 else s.avgpixels

/-- The index of the first byte for pixel `i` of the group at `x`, in the plane of colour `j`. -/
def byteIndex (s : PlanarSetup) (x i j : Nat) : Nat :=
  (x / s.factor + s.offset + i) * 2 * 2 + s.wordsPerColor * 2 * j

def storeChannel (s : PlanarSetup) (data : AverageData) (x j : Nat) (shading : Cells UInt8) :
    Except CellFault (Cells UInt8) := do
  let sums ← sumAverages data s.avgpixels (fun i => x + i + s.pixelsPerLine * j)
  let br := sums.br / s.avgpixels
  let dk := sums.dk / s.avgpixels
  let val ← offsetValue s.targetBright s.targetDark br dk
  let shading ← forTo s.fill (fun i => storeShadingWord (s.byteIndex x i j) val) shading
  let val := gainValue s.coeff s.targetBright s.targetDark br dk
  forTo s.fill (fun i => storeShadingWord (s.byteIndex x i j + 2) val) shading

/-- What has been stored for the first channel is copied for a remaining one. -/
def copyChannel (s : PlanarSetup) (x j : Nat) (shading : Cells UInt8) :
    Except CellFault (Cells UInt8) :=
  forTo s.fill (fun i => forTo 4 (fun b shading =>
    shading.load (s.byteIndex x i 0 + b) >>= shading.store (s.byteIndex x i j + b))) shading

def storeGroup (s : PlanarSetup) (data : AverageData) (x : Nat) (shading : Cells UInt8) :
    Except CellFault (Cells UInt8) := do
  let shading ← forTo s.channels (s.storeChannel data x) shading
  forTo (3 - s.channels) (fun k => s.copyChannel x (s.channels + k)) shading

/-- The place of the group's first pixel, without packing, is outside of the plane. -/
def stops (s : PlanarSetup) (g : Nat) : Bool :=
  s.wordsPerColor * 2 < (g * s.avgpixels + s.offset) * 2 * 2 + 3

/-- The bound `pixels_per_line - avgpixels` is an `unsigned int`. -/
def passes (s : PlanarSetup) : Nat :=
  (s.pixelsPerLine + 2 ^ 32 - s.avgpixels) % 2 ^ 32 / s.avgpixels + 1

def storeGroups (s : PlanarSetup) (data : AverageData) (shading : Cells UInt8) :
    Except CellFault (Cells UInt8) := do
  let run ← forBreak s.passes s.stops (fun g => s.storeGroup data (g * s.avgpixels)) shading
  .ok run.1

end PlanarSetup

def computeAveragedPlanar (data : AverageData) (lide80 : Bool)
    (xres fullResolution opticalResolution pixelsPerLine wordsPerColor channels offset coeff : Nat)
    (targetBright targetDark : Nat) (shading : Cells UInt8) :
    Except CellFault (Cells UInt8) := do
  let shading ← setBytes (wordsPerColor * 3 * 2) 0xff shading
  let basepixels ← basePixels xres fullResolution opticalResolution
  PlanarSetup.storeGroups
    { lide80, avgpixels := averagingWidth basepixels, pixelsPerLine, wordsPerColor, channels,
      offset, coeff, targetBright, targetDark } data shading

/-! ## What is to be stored -/

/-- The offset in exact arithmetic. -/
def exactOffset (targetBright targetDark bright dark : Nat) : Nat :=
  (max 0 (min 65535 (((dark * targetBright : Nat) - (bright * targetDark : Nat) : Int) /
    (targetBright - targetDark : Nat)))).toNat

/-- The gain in exact arithmetic. -/
def exactPlanarGain (coeff targetBright targetDark bright dark : Nat) : Nat :=
  if bright ≤ dark then 65535
  else min 65535 (coeff * (targetBright - targetDark) / (bright - dark))

namespace PlanarSetup

/-- The means of a group of colour `j`. -/
def darkMean (s : PlanarSetup) (data : AverageData) (j g : Nat) : Nat :=
  averageMean data.dark s.avgpixels (fun i => g * s.avgpixels + i + s.pixelsPerLine * j)

def brightMean (s : PlanarSetup) (data : AverageData) (j g : Nat) : Nat :=
  averageMean data.white s.avgpixels (fun i => g * s.avgpixels + i + s.pixelsPerLine * j)

def exactOffsetOf (s : PlanarSetup) (data : AverageData) (j g : Nat) : Nat :=
  exactOffset s.targetBright s.targetDark (s.brightMean data j g) (s.darkMean data j g)

def exactGainOf (s : PlanarSetup) (data : AverageData) (j g : Nat) : Nat :=
  exactPlanarGain s.coeff s.targetBright s.targetDark (s.brightMean data j g)
    (s.darkMean data j g)

/-- The place of pixel `i` of a group in a plane. -/
def place (s : PlanarSetup) (g i : Nat) : Nat := (g * s.fill + s.offset + i) * 4

/-- The coefficients of each group are in its places, which are in the plane of the colour. -/
def StoresGroups (s : PlanarSetup) (data : AverageData) (shading : Cells UInt8) : Prop :=
  ∀ j < s.channels, ∀ g < s.pixelsPerLine / s.avgpixels, ∀ i < s.fill,
    s.place g i + 4 ≤ s.wordsPerColor * 2 ∧
      Stored shading (s.wordsPerColor * 2 * j + s.place g i) (s.exactOffsetOf data j g)
        (s.exactGainOf data j g)

/-- The gain does not come from a wrapped difference. -/
def GainFits (s : PlanarSetup) (data : AverageData) (j g : Nat) : Prop :=
  s.darkMean data j g ≤ s.brightMean data j g ∨
    2 ^ 32 ≤ 65535 * (s.darkMean data j g - s.brightMean data j g) +
      s.coeff * (s.targetBright - s.targetDark)

/-- There is a group, or none is looked for; each has its places, and a gain that does not wrap
unless the loop breaks off before, where both values have to be what the places were set to. -/
structure Fits (s : PlanarSetup) (data : AverageData) : Prop where
  line : s.avgpixels ≤ s.pixelsPerLine ∨ s.stops 0 = true
  places : ∀ g < s.pixelsPerLine / s.avgpixels, ∀ i < s.fill,
    s.place g i + 4 ≤ s.wordsPerColor * 2
  reached : ∀ j < s.channels, ∀ g < s.pixelsPerLine / s.avgpixels, s.stops g = false →
    s.GainFits data j g
  behind : ∀ j < s.channels, ∀ g < s.pixelsPerLine / s.avgpixels, s.stops g = true →
    s.exactOffsetOf data j g = 65535 ∧ s.exactGainOf data j g = 65535

/-- What the callers pass, with averages for each pixel and channel. -/
structure Input (s : PlanarSetup) (data : AverageData) (shading : Cells UInt8) : Prop where
  channelCount : s.channels = 1 ∨ s.channels = 3
  pixels_lt : s.pixelsPerLine < 2 ^ 32
  coeff : s.coeff = 0x2000 ∨ s.coeff = 0x4000
  targets : s.targetDark < s.targetBright
  bright_lt : s.targetBright < 2 ^ 16
  darkSize : data.dark.size = s.pixelsPerLine * s.channels
  whiteSize : data.white.size = s.pixelsPerLine * s.channels
  size : shading.size = s.wordsPerColor * 3 * 2

end PlanarSetup

/-! ## The values -/

section Values

variable {coeff targetBright targetDark br dk : Nat}

theorem offsetValue_eq (htargets : targetDark < targetBright) (hbright : targetBright < 2 ^ 16)
    (hbr : br < 2 ^ 16) (hdk : dk < 2 ^ 16) :
    offsetValue targetBright targetDark br dk =
      .ok (exactOffset targetBright targetDark br dk) := by
  have hdarkProduct : dk * targetBright ≤ 65535 * 65535 :=
    Nat.mul_le_mul (by omega) (by omega)
  have hbrightProduct : br * targetDark ≤ 65535 * 65535 :=
    Nat.mul_le_mul (by omega) (by omega)
  have hspan : (targetBright + 2 ^ 32 - targetDark) % 2 ^ 32 = targetBright - targetDark := by
    omega
  have hpos : 0 < targetBright - targetDark := by omega
  have hlt : targetBright - targetDark < 2 ^ 16 := by omega
  rw [offsetValue, exactOffset, hspan]
  generalize targetBright - targetDark = span at hpos hlt
  rw [Nat.mod_eq_of_lt (show dk * targetBright < 2 ^ 32 by omega),
    Nat.mod_eq_of_lt (show br * targetDark < 2 ^ 32 by omega),
    Nat.mod_eq_of_lt (show 65535 * span < 2 ^ 32 by omega)]
  generalize dk * targetBright = dark
  generalize br * targetDark = bright
  split_ifs with hbelow habove hzero
  · -- a negative offset is cut off
    have hneg : ((dark : Int) - bright) / (span : Nat) < 0 :=
      Int.ediv_neg_of_neg_of_pos (by omega) (by omega)
    rw [max_eq_left (by omega)]
    rfl
  · have hquot : 65535 ≤ (dark - bright) / span :=
      (Nat.le_div_iff_mul_le hpos).mpr (by omega)
    rw [show (dark : Int) - bright = (dark - bright : Nat) by omega, ← Int.natCast_ediv,
      min_eq_left (by omega)]
    rfl
  · omega
  · have hquot : (dark - bright) / span ≤ 65535 :=
      Nat.div_le_of_le_mul (by rw [Nat.mul_comm]; omega)
    rw [show (dark : Int) - bright = (dark - bright : Nat) by omega, ← Int.natCast_ediv,
      min_eq_right (by omega), max_eq_right (Int.natCast_nonneg _)]
    rfl

theorem exactOffset_lt : exactOffset targetBright targetDark br dk < 2 ^ 16 := by
  rw [exactOffset]
  omega

theorem exactPlanarGain_lt : exactPlanarGain coeff targetBright targetDark br dk < 2 ^ 16 := by
  rw [exactPlanarGain]
  split_ifs
  · decide
  · omega

/-- The gain is exact if its difference does not wrap, or does not look great; else it is zero. -/
theorem gainValue_eq (hcoeff : coeff = 0x2000 ∨ coeff = 0x4000)
    (htargets : targetDark < targetBright) (hbright : targetBright < 2 ^ 16)
    (hbr : br < 2 ^ 16) (hdk : dk < 2 ^ 16) :
    gainValue coeff targetBright targetDark br dk =
      if dk ≤ br ∨ 2 ^ 32 ≤ 65535 * (dk - br) + coeff * (targetBright - targetDark) then
        exactPlanarGain coeff targetBright targetDark br dk
      else 0 := by
  have hspan : (targetBright + 2 ^ 32 - targetDark) % 2 ^ 32 = targetBright - targetDark := by
    omega
  rw [gainValue, exactPlanarGain, hspan, Nat.mul_comm (targetBright - targetDark) coeff]
  have hproduct : coeff * (targetBright - targetDark) ≤ 0x4000 * 65535 := by
    refine Nat.mul_le_mul ?_ (by omega)
    rcases hcoeff with rfl | rfl <;> decide
  generalize coeff * (targetBright - targetDark) = product at hproduct
  rw [Nat.mod_eq_of_lt (show product < 2 ^ 32 by omega)]
  rcases Nat.lt_or_ge br dk with hlt | hle
  · have hval : (br + 2 ^ 32 - dk) % 2 ^ 32 = 2 ^ 32 - (dk - br) := by omega
    have hwrap : 65535 * (2 ^ 32 - (dk - br)) % 2 ^ 32 = 2 ^ 32 - 65535 * (dk - br) := by omega
    rw [hval, hwrap, if_pos (by omega : br ≤ dk)]
    by_cases hgreat : 2 ^ 32 ≤ 65535 * (dk - br) + product
    · rw [if_neg (by omega), if_pos (.inr hgreat)]
    · rw [if_pos (by omega), if_neg (by omega), Nat.div_eq_of_lt (by omega)]
  · have hval : (br + 2 ^ 32 - dk) % 2 ^ 32 = br - dk := by omega
    have hfits : dk ≤ br ∨ 2 ^ 32 ≤ 65535 * (dk - br) + product := .inl hle
    rw [hval, Nat.mod_eq_of_lt (show 65535 * (br - dk) < 2 ^ 32 by omega), if_pos hfits]
    rcases Nat.eq_or_lt_of_le hle with heq | hlt
    · rw [if_neg (by omega), if_pos (by omega)]
    · rw [if_neg (by omega : ¬ br ≤ dk)]
      split_ifs with hgreater
      · have hquot : product / (br - dk) ≤ 65535 :=
          Nat.div_le_of_le_mul (by rw [Nat.mul_comm]; omega)
        exact (min_eq_right hquot).symm
      · have hquot : 65535 ≤ product / (br - dk) :=
          (Nat.le_div_iff_mul_le (by omega)).mpr (by omega)
        exact (min_eq_left hquot).symm

theorem gainValue_lt (hcoeff : coeff = 0x2000 ∨ coeff = 0x4000)
    (htargets : targetDark < targetBright) (hbright : targetBright < 2 ^ 16)
    (hbr : br < 2 ^ 16) (hdk : dk < 2 ^ 16) :
    gainValue coeff targetBright targetDark br dk < 2 ^ 16 := by
  rw [gainValue_eq hcoeff htargets hbright hbr hdk]
  split_ifs
  · exact exactPlanarGain_lt
  · decide

theorem gainValue_exact_iff (hcoeff : coeff = 0x2000 ∨ coeff = 0x4000)
    (htargets : targetDark < targetBright) (hbright : targetBright < 2 ^ 16)
    (hbr : br < 2 ^ 16) (hdk : dk < 2 ^ 16) :
    gainValue coeff targetBright targetDark br dk =
        exactPlanarGain coeff targetBright targetDark br dk ↔
      dk ≤ br ∨ 2 ^ 32 ≤ 65535 * (dk - br) + coeff * (targetBright - targetDark) := by
  rw [gainValue_eq hcoeff htargets hbright hbr hdk]
  split_ifs with hfits
  · exact iff_of_true rfl hfits
  · refine iff_of_false ?_ hfits
    rw [exactPlanarGain, if_pos (by omega)]
    decide

end Values

namespace PlanarSetup

variable {s : PlanarSetup} {data : AverageData} {shading : Cells UInt8} {g i j : Nat}

/-! ## The bytes of a group -/

/-- The channel a plane is for; a remaining plane is a copy of the first. -/
def channelOf (s : PlanarSetup) (j : Nat) : Nat := if j < s.channels then j else 0

def gainOf (s : PlanarSetup) (data : AverageData) (j g : Nat) : Nat :=
  gainValue s.coeff s.targetBright s.targetDark (s.brightMean data j g) (s.darkMean data j g)

/-- What is stored at an address, if it is in a place of a group. -/
def content (s : PlanarSetup) (data : AverageData) (a : Nat) : UInt8 :=
  let j := s.channelOf (a / (s.wordsPerColor * 2))
  let byte := a % (s.wordsPerColor * 2)
  let g := (byte / 4 - s.offset) / s.fill
  coefficientByte (s.exactOffsetOf data j g) (s.gainOf data j g) (byte % 4)

/-- The places of a group in a plane. -/
def region (s : PlanarSetup) (g j : Nat) : Set Nat :=
  {a | ∃ i < s.fill, ∃ b < 4, a = s.wordsPerColor * 2 * j + s.place g i + b}

theorem content_at (data : AverageData) {b : Nat} (hi : i < s.fill) (hb : b < 4)
    (hplace : s.place g i + 4 ≤ s.wordsPerColor * 2) :
    s.content data (s.wordsPerColor * 2 * j + s.place g i + b) =
      coefficientByte (s.exactOffsetOf data (s.channelOf j) g)
        (s.gainOf data (s.channelOf j) g) b := by
  have hinside : s.place g i + b < s.wordsPerColor * 2 := by omega
  have hdiv : (s.wordsPerColor * 2 * j + s.place g i + b) / (s.wordsPerColor * 2) = j := by
    rw [Nat.add_assoc, Nat.mul_add_div (by omega), Nat.div_eq_of_lt hinside, Nat.add_zero]
  have hmod : (s.wordsPerColor * 2 * j + s.place g i + b) % (s.wordsPerColor * 2) =
      s.place g i + b := by
    rw [Nat.add_assoc, Nat.mul_add_mod, Nat.mod_eq_of_lt hinside]
  have hgroup : ((s.place g i + b) / 4 - s.offset) / s.fill = g := by
    rw [place, show ((g * s.fill + s.offset + i) * 4 + b) / 4 - s.offset = g * s.fill + i by omega]
    exact part_div hi
  have hbyte : (s.place g i + b) % 4 = b := by
    rw [place]
    omega
  rw [content, hdiv, hmod, hgroup, hbyte]

theorem byteIndex_eq (hpos : 0 < s.avgpixels) :
    s.byteIndex (g * s.avgpixels) i j = s.wordsPerColor * 2 * j + s.place g i := by
  have hgroup : g * s.avgpixels / s.factor = g * s.fill := by
    rw [factor, fill]
    cases s.lide80 with
    | true => rw [if_pos rfl, if_pos rfl, Nat.mul_div_cancel _ hpos, Nat.mul_one]
    | false => rw [if_neg Bool.false_ne_true, if_neg Bool.false_ne_true, Nat.div_one]
  rw [byteIndex, hgroup, place]
  omega

/-- The planes are one behind the other. -/
theorem plane_le (hj : j < 3) :
    s.wordsPerColor * 2 * j + s.wordsPerColor * 2 ≤ s.wordsPerColor * 3 * 2 := by
  calc s.wordsPerColor * 2 * j + s.wordsPerColor * 2 = s.wordsPerColor * 2 * (j + 1) := by ring
    _ ≤ s.wordsPerColor * 2 * 3 := Nat.mul_le_mul_left _ hj
    _ = s.wordsPerColor * 3 * 2 := by ring

theorem writes_storeShadingWord {size ptr val : Nat} {content : Nat → UInt8} (h : ptr + 2 ≤ size)
    (hlow : content ptr = UInt8.ofNat (val &&& 0xff))
    (hhigh : content (ptr + 1) = UInt8.ofNat (val >>> 8)) :
    Writes size (storeShadingWord ptr val) ({ptr} ∪ {ptr + 1}) content := by
  have hfirst := writes_store (show ptr < size by omega) content
  have hsecond := writes_store (show ptr + 1 < size by omega) content
  rw [hlow] at hfirst
  rw [hhigh] at hsecond
  exact hfirst.andThen hsecond

/-- The fill loop for one of the two words. -/
theorem writes_fill (hpos : 0 < s.avgpixels) (hj : j < 3) {first val : Nat} (hfirst : first ≤ 2)
    (hplaces : ∀ i < s.fill, s.place g i + 4 ≤ s.wordsPerColor * 2)
    (hlow : ∀ i < s.fill, s.content data (s.wordsPerColor * 2 * j + s.place g i + first) =
      UInt8.ofNat (val &&& 0xff))
    (hhigh : ∀ i < s.fill, s.content data (s.wordsPerColor * 2 * j + s.place g i + (first + 1)) =
      UInt8.ofNat (val >>> 8)) :
    Writes (s.wordsPerColor * 3 * 2)
      (forTo s.fill fun i => storeShadingWord (s.byteIndex (g * s.avgpixels) i j + first) val)
      {a | ∃ i < s.fill, a ∈ ({s.wordsPerColor * 2 * j + s.place g i + first} ∪
        {s.wordsPerColor * 2 * j + s.place g i + first + 1} : Set Nat)} (s.content data) := by
  refine Writes.forTo fun i hi => ?_
  have hplane := plane_le (s := s) hj
  have hplace := hplaces i hi
  rw [byteIndex_eq hpos]
  exact writes_storeShadingWord (by omega) (hlow i hi) (hhigh i hi)

theorem storeChannel_writes (hin : s.Input data shading) (hpos : 0 < s.avgpixels)
    (hle : s.avgpixels ≤ 15) (hj : j < s.channels) (hg : g < s.pixelsPerLine / s.avgpixels)
    (hplaces : ∀ i < s.fill, s.place g i + 4 ≤ s.wordsPerColor * 2) :
    Writes (s.wordsPerColor * 3 * 2) (s.storeChannel data (g * s.avgpixels) j) (s.region g j)
      (s.content data) := by
  have hthree : j < 3 := by
    rcases hin.channelCount with hcount | hcount <;> omega
  have hgroup : g * s.avgpixels + s.avgpixels ≤ s.pixelsPerLine :=
    (part_end_le hg).trans (Nat.div_mul_le_self _ _)
  have hindex : ∀ i < s.avgpixels,
      g * s.avgpixels + i + s.pixelsPerLine * j < s.pixelsPerLine * s.channels := by
    intro i hi
    have hline : s.pixelsPerLine * j + s.pixelsPerLine ≤ s.pixelsPerLine * s.channels := by
      rw [← Nat.mul_succ]
      exact Nat.mul_le_mul_left _ hj
    omega
  have hchannel : s.channelOf j = j := if_pos hj
  have hbytes : ∀ i < s.fill, ∀ b < 4,
      s.content data (s.wordsPerColor * 2 * j + s.place g i + b) =
        coefficientByte (s.exactOffsetOf data j g) (s.gainOf data j g) b := by
    intro i hi b hb
    have hat := content_at data (j := j) hi hb (hplaces i hi)
    rwa [hchannel] at hat
  have hwords := (writes_fill hpos hthree (by decide) hplaces
    (fun i hi => hbytes i hi 0 (by decide)) (fun i hi => hbytes i hi 1 (by decide))).andThen
    (writes_fill hpos hthree (by decide) hplaces
      (fun i hi => hbytes i hi 2 (by decide)) (fun i hi => hbytes i hi 3 (by decide)))
  have hset : ({a | ∃ i < s.fill, a ∈ ({s.wordsPerColor * 2 * j + s.place g i + 0} ∪
        {s.wordsPerColor * 2 * j + s.place g i + 0 + 1} : Set Nat)} ∪
      {a | ∃ i < s.fill, a ∈ ({s.wordsPerColor * 2 * j + s.place g i + 2} ∪
        {s.wordsPerColor * 2 * j + s.place g i + 2 + 1} : Set Nat)} : Set Nat) =
      s.region g j := by
    ext a
    simp only [region, Set.mem_union, Set.mem_ofPred_eq, Set.mem_singleton_iff]
    constructor
    · rintro (⟨i, hi, rfl | rfl⟩ | ⟨i, hi, rfl | rfl⟩)
      · exact ⟨i, hi, 0, by decide, rfl⟩
      · exact ⟨i, hi, 1, by decide, rfl⟩
      · exact ⟨i, hi, 2, by decide, rfl⟩
      · exact ⟨i, hi, 3, by decide, rfl⟩
    · rintro ⟨i, hi, b, hb, rfl⟩
      have hcases : b = 0 ∨ b = 1 ∨ b = 2 ∨ b = 3 := by omega
      rcases hcases with rfl | rfl | rfl | rfl
      · exact .inl ⟨i, hi, .inl rfl⟩
      · exact .inl ⟨i, hi, .inr rfl⟩
      · exact .inr ⟨i, hi, .inl rfl⟩
      · exact .inr ⟨i, hi, .inr rfl⟩
  rw [hset] at hwords
  intro block hsize
  rw [storeChannel, sumAverages_eq (fun i hi => hin.darkSize ▸ hindex i hi)
    (fun i hi => hin.whiteSize ▸ hindex i hi) (by omega), ok_bind]
  dsimp only
  rw [averageSum_div, averageSum_div, offsetValue_eq hin.targets hin.bright_lt
    (averageMean_lt _ _ _) (averageMean_lt _ _ _), ok_bind]
  exact hwords block hsize

theorem copyChannel_writes (hpos : 0 < s.avgpixels) (hfirst : 0 < s.channels) (hj : j < 3)
    (hrest : s.channels ≤ j)
    (hplaces : ∀ i < s.fill, s.place g i + 4 ≤ s.wordsPerColor * 2) :
    WritesGiven (s.wordsPerColor * 3 * 2) (s.region g 0) (s.copyChannel (g * s.avgpixels) j)
      (s.region g j) (s.content data) := by
  have hset : s.region g j = {a | ∃ i < s.fill, a ∈ {a | ∃ b < 4,
      a ∈ ({s.wordsPerColor * 2 * j + s.place g i + b} : Set Nat)}} := by
    ext a
    simp only [region, Set.mem_ofPred_eq, Set.mem_singleton_iff]
  rw [hset]
  refine WritesGiven.forTo fun i hi => WritesGiven.forTo fun b hb => ?_
  have hplace := hplaces i hi
  have hplane := plane_le (s := s) hj
  have hplane₀ := plane_le (s := s) (j := 0) (by decide)
  rw [byteIndex_eq hpos, byteIndex_eq hpos]
  refine (writesGiven_copy (by omega) (by omega) ?_).weaken ?_
  · have hchannel : s.channelOf j = 0 := if_neg (by omega)
    have hchannel₀ : s.channelOf 0 = 0 := if_pos hfirst
    rw [content_at data hi hb hplace, content_at data hi hb hplace, hchannel, hchannel₀]
  · rintro a rfl
    exact ⟨i, hi, b, hb, rfl⟩

/-- A group is stored in all three planes. -/
theorem storeGroup_writes (hin : s.Input data shading) (hpos : 0 < s.avgpixels)
    (hle : s.avgpixels ≤ 15) (hg : g < s.pixelsPerLine / s.avgpixels)
    (hplaces : ∀ i < s.fill, s.place g i + 4 ≤ s.wordsPerColor * 2) :
    Writes (s.wordsPerColor * 3 * 2) (s.storeGroup data (g * s.avgpixels))
      {a | ∃ j < 3, a ∈ s.region g j} (s.content data) := by
  have hcount : 0 < s.channels ∧ s.channels ≤ 3 := by
    rcases hin.channelCount with hcount | hcount <;> omega
  have hchannels := Writes.forTo (n := s.channels) fun j hj =>
    storeChannel_writes hin hpos hle hj hg hplaces
  have hcopies : WritesGiven (s.wordsPerColor * 3 * 2) {a | ∃ j < s.channels, a ∈ s.region g j}
      (forTo (3 - s.channels) fun k => s.copyChannel (g * s.avgpixels) (s.channels + k))
      {a | ∃ k < 3 - s.channels, a ∈ s.region g (s.channels + k)} (s.content data) :=
    WritesGiven.forTo fun k hk =>
      (copyChannel_writes hpos hcount.1 (by omega) (Nat.le_add_right _ _) hplaces).weaken
        fun a ha => ⟨0, hcount.1, ha⟩
  have hall := ((hchannels.given ∅).andThen (hcopies.weaken Set.subset_union_right)).writes
  have hset : ({a | ∃ j < s.channels, a ∈ s.region g j} ∪
      {a | ∃ k < 3 - s.channels, a ∈ s.region g (s.channels + k)} : Set Nat) =
      {a | ∃ j < 3, a ∈ s.region g j} := by
    ext a
    simp only [Set.mem_union, Set.mem_ofPred_eq]
    constructor
    · rintro (⟨j, hj, ha⟩ | ⟨k, hk, ha⟩)
      · exact ⟨j, by omega, ha⟩
      · exact ⟨s.channels + k, by omega, ha⟩
    · rintro ⟨j, hj, ha⟩
      rcases Nat.lt_or_ge j s.channels with hlt | hge
      · exact .inl ⟨j, hlt, ha⟩
      · refine .inr ⟨j - s.channels, by omega, ?_⟩
        rwa [show s.channels + (j - s.channels) = j by omega]
  rw [hset] at hall
  exact hall

/-! ## All groups -/

theorem stops_succ (hstop : s.stops g = true) : s.stops (g + 1) = true := by
  have hlt := of_decide_eq_true hstop
  refine decide_eq_true ?_
  rw [Nat.succ_mul]
  omega

theorem storeGroups_eq (data : AverageData) (shading : Cells UInt8) :
    s.storeGroups data shading = forTo s.passes (fun g shading =>
      if s.stops g = true then .ok shading else s.storeGroup data (g * s.avgpixels) shading)
        shading := by
  obtain ⟨stopped, -, hrun⟩ := forBreak_eq (fun g => s.storeGroup data (g * s.avgpixels))
    (fun k => stops_succ (s := s) (g := k)) s.passes shading
  rw [storeGroups, hrun]
  cases forTo s.passes (fun g shading =>
    if s.stops g = true then .ok shading else s.storeGroup data (g * s.avgpixels) shading)
      shading with
  | error e => rfl
  | ok shading => rfl

/-- The groups up to where the loop breaks off are stored, and nothing else is. -/
theorem storeGroups_spec (hin : s.Input data shading) (hpos : 0 < s.avgpixels)
    (hle : s.avgpixels ≤ 15)
    (hreached : ∀ g < s.passes, s.stops g = false → g < s.pixelsPerLine / s.avgpixels)
    (hplaces : ∀ g < s.pixelsPerLine / s.avgpixels, ∀ i < s.fill,
      s.place g i + 4 ≤ s.wordsPerColor * 2) :
    Writes (s.wordsPerColor * 3 * 2) (s.storeGroups data)
      {a | ∃ g < s.passes, a ∈ {a | s.stops g = false ∧ ∃ j < 3, a ∈ s.region g j}}
      (s.content data) := by
  have hpass : ∀ g < s.passes, Writes (s.wordsPerColor * 3 * 2)
      (fun shading =>
        if s.stops g = true then .ok shading else s.storeGroup data (g * s.avgpixels) shading)
      {a | s.stops g = false ∧ ∃ j < 3, a ∈ s.region g j} (s.content data) := by
    intro g hg
    cases hstop : s.stops g with
    | true =>
        have hset : {a | true = false ∧ ∃ j < 3, a ∈ s.region g j} = (∅ : Set Nat) := by
          ext a
          simp
        rw [hset]
        exact writes_nothing _
    | false =>
        have hset : {a | false = false ∧ ∃ j < 3, a ∈ s.region g j} =
            {a | ∃ j < 3, a ∈ s.region g j} := by
          ext a
          simp
        rw [hset]
        exact storeGroup_writes hin hpos hle (hreached g hg hstop)
          (hplaces g (hreached g hg hstop))
  intro block hsize
  rw [storeGroups_eq]
  exact Writes.forTo hpass block hsize

theorem passes_eq (hin : s.Input data shading) (hpos : 0 < s.avgpixels)
    (hline : s.avgpixels ≤ s.pixelsPerLine) : s.passes = s.pixelsPerLine / s.avgpixels := by
  have hpixels := hin.pixels_lt
  rw [passes, show (s.pixelsPerLine + 2 ^ 32 - s.avgpixels) % 2 ^ 32 =
    s.pixelsPerLine - s.avgpixels by omega, Nat.div_eq_sub_div hpos hline]

theorem stops_of_first (hstop : s.stops 0 = true) (g : Nat) : s.stops g = true := by
  induction g with
  | zero => exact hstop
  | succ g ih => exact stops_succ ih

/-- Only groups of the line are reached. -/
theorem reached_lt (hin : s.Input data shading) (hpos : 0 < s.avgpixels)
    (hline : s.avgpixels ≤ s.pixelsPerLine ∨ s.stops 0 = true) :
    ∀ g < s.passes, s.stops g = false → g < s.pixelsPerLine / s.avgpixels := by
  intro g hg hgoes
  rcases hline with hline | hstop
  · rwa [← passes_eq hin hpos hline]
  · rw [stops_of_first hstop g] at hgoes
    cases hgoes

/-- The places of different groups are apart. -/
theorem region_group {g' j' i' b b' : Nat} (hi : i < s.fill) (hb : b < 4)
    (hplace : s.place g i + 4 ≤ s.wordsPerColor * 2) (hi' : i' < s.fill) (hb' : b' < 4)
    (hplace' : s.place g' i' + 4 ≤ s.wordsPerColor * 2)
    (heq : s.wordsPerColor * 2 * j + s.place g i + b =
      s.wordsPerColor * 2 * j' + s.place g' i' + b') : g = g' := by
  have hmod : s.place g i + b = s.place g' i' + b' := by
    have hrest := congrArg (· % (s.wordsPerColor * 2)) heq
    rwa [Nat.add_assoc, Nat.add_assoc, Nat.mul_add_mod, Nat.mul_add_mod,
      Nat.mod_eq_of_lt (by omega), Nat.mod_eq_of_lt (by omega)] at hrest
  have hpixel : g * s.fill + i = g' * s.fill + i' := by
    rw [place, place] at hmod
    omega
  have hdiv := congrArg (· / s.fill) hpixel
  rwa [part_div hi, part_div hi'] at hdiv

theorem coefficientByte_unset {b : Nat} (hb : b < 4) : coefficientByte 65535 65535 b = 0xff := by
  interval_cases b <;> decide

/-- What is in the places of the groups behind the loop. -/
theorem storeGroups_stored (hin : s.Input data shading) (hpos : 0 < s.avgpixels)
    (hle : s.avgpixels ≤ 15) (hline : s.avgpixels ≤ s.pixelsPerLine ∨ s.stops 0 = true)
    (hplaces : ∀ g < s.pixelsPerLine / s.avgpixels, ∀ i < s.fill,
      s.place g i + 4 ≤ s.wordsPerColor * 2) :
    ∃ shading', s.storeGroups data (shading.replace (s.wordsPerColor * 3 * 2) fun _ => 0xff) =
        .ok shading' ∧ shading'.size = s.wordsPerColor * 3 * 2 ∧
      ∀ j < s.channels, ∀ g < s.pixelsPerLine / s.avgpixels, ∀ i < s.fill,
        Stored shading' (s.wordsPerColor * 2 * j + s.place g i)
          (if s.stops g = true then 65535 else s.exactOffsetOf data j g)
          (if s.stops g = true then 65535 else s.gainOf data j g) := by
  have hreached := reached_lt hin hpos hline
  obtain ⟨shading', hrun, hsize, hin', hout⟩ := storeGroups_spec hin hpos hle hreached hplaces
    (shading.replace (s.wordsPerColor * 3 * 2) fun _ => 0xff) hin.size
  refine ⟨shading', hrun, hsize, fun j hj g hg i hi => ?_⟩
  have hthree : j < 3 := by
    rcases hin.channelCount with hcount | hcount <;> omega
  have hplace := hplaces g hg i hi
  have hplane := plane_le (s := s) hthree
  have hchannel : s.channelOf j = j := if_pos hj
  refine stored_of_bytes ?_ ?_ (by omega) fun b hb => ?_
  · split_ifs
    · decide
    · exact exactOffset_lt
  · split_ifs
    · decide
    · exact gainValue_lt hin.coeff hin.targets hin.bright_lt (averageMean_lt _ _ _)
        (averageMean_lt _ _ _)
  · cases hstop : s.stops g with
    | true =>
        rw [if_pos rfl, if_pos rfl, coefficientByte_unset hb, hout]
        · exact if_pos (by omega)
        · rintro ⟨g', hg', hgoes, j', hj', i', hi', b', hb', heq⟩
          have hsame := region_group hi hb hplace hi' hb'
            (hplaces g' (hreached g' hg' hgoes) i' hi') heq
          rw [← hsame, hstop] at hgoes
          cases hgoes
    | false =>
        have hpass : g < s.passes := by
          rcases hline with hline | hfirst
          · rwa [passes_eq hin hpos hline]
          · rw [stops_of_first hfirst g] at hstop
            cases hstop
        rw [if_neg Bool.false_ne_true, if_neg Bool.false_ne_true,
          hin' _ ⟨g, hpass, hstop, j, hthree, i, hi, b, hb, rfl⟩, content_at data hi hb hplace,
          hchannel]

/-- A line that is shorter than a group is read beyond its end, unless the loop breaks off. -/
theorem line_of_ok (hin : s.Input data shading) {shading₁ shading' : Cells UInt8}
    (hrun : s.storeGroups data shading₁ = .ok shading') :
    s.avgpixels ≤ s.pixelsPerLine ∨ s.stops 0 = true := by
  by_contra hnone
  obtain ⟨hshort, hgoes⟩ := not_or.mp hnone
  have hlast : s.channels - 1 < s.channels := by
    rcases hin.channelCount with hcount | hcount <;> omega
  rw [storeGroups_eq] at hrun
  obtain ⟨before, after, hpass⟩ := forTo_pass_ok hrun (Nat.succ_pos _)
  rw [if_neg hgoes] at hpass
  obtain ⟨before₁, hchannels, -⟩ := bind_eq_ok.mp hpass
  obtain ⟨before₂, after₂, hchannel⟩ := forTo_pass_ok hchannels hlast
  obtain ⟨sums, hsums, -⟩ := bind_eq_ok.mp hchannel
  have hinside := sumAverages_ok hsums (Nat.lt_of_not_le hshort)
  rw [Nat.zero_mul, Nat.zero_add, hin.darkSize, Nat.add_comm, ← Nat.mul_succ,
    show (s.channels - 1).succ = s.channels by omega] at hinside
  exact Nat.lt_irrefl _ hinside

/-- The groups of the loop are stored exactly just if they fit. -/
theorem storeGroups_iff (hin : s.Input data shading) (hpos : 0 < s.avgpixels)
    (hle : s.avgpixels ≤ 15) :
    (∃ shading', s.storeGroups data (shading.replace (s.wordsPerColor * 3 * 2) fun _ => 0xff) =
        .ok shading' ∧ shading'.size = shading.size ∧ s.StoresGroups data shading') ↔
      s.Fits data := by
  have hgain : ∀ j g, s.gainOf data j g = s.exactGainOf data j g ↔ s.GainFits data j g :=
    fun j g => gainValue_exact_iff hin.coeff hin.targets hin.bright_lt (averageMean_lt _ _ _)
      (averageMean_lt _ _ _)
  constructor
  · rintro ⟨shading', hrun, -, hstores⟩
    have hline := line_of_ok hin hrun
    have hfirst : 0 < s.channels := by
      rcases hin.channelCount with hcount | hcount <;> omega
    have hfill : 0 < s.fill := by
      rw [fill]
      split_ifs <;> omega
    have hplaces : ∀ g < s.pixelsPerLine / s.avgpixels, ∀ i < s.fill,
        s.place g i + 4 ≤ s.wordsPerColor * 2 := fun g hg i hi => (hstores 0 hfirst g hg i hi).1
    obtain ⟨shading₁, hrun₁, -, hcode⟩ := storeGroups_stored hin hpos hle hline hplaces
    rw [hrun] at hrun₁
    rw [← Except.ok.inj hrun₁] at hcode
    refine ⟨hline, hplaces, fun j hj g hg hgoes => ?_, fun j hj g hg hstop => ?_⟩
    · have hexact := (hstores j hj g hg 0 hfill).2
      have hstored := hcode j hj g hg 0 hfill
      rw [hgoes, if_neg Bool.false_ne_true, if_neg Bool.false_ne_true] at hstored
      rw [← hgain, ← hstored.val_eq]
      exact hexact.val_eq
    · have hexact := (hstores j hj g hg 0 hfill).2
      have hstored := hcode j hj g hg 0 hfill
      rw [if_pos hstop, if_pos hstop] at hstored
      exact ⟨hexact.dk_eq.symm.trans hstored.dk_eq, hexact.val_eq.symm.trans hstored.val_eq⟩
  · intro hfits
    obtain ⟨shading', hrun, hsize, hcode⟩ := storeGroups_stored hin hpos hle hfits.line hfits.places
    refine ⟨shading', hrun, hsize.trans hin.size.symm, fun j hj g hg i hi =>
      ⟨hfits.places g hg i hi, ?_⟩⟩
    have hstored := hcode j hj g hg i hi
    cases hstop : s.stops g with
    | true =>
        obtain ⟨hoffset, hgain'⟩ := hfits.behind j hj g hg hstop
        rw [if_pos hstop, if_pos hstop] at hstored
        rw [hoffset, hgain']
        exact hstored
    | false =>
        rw [hstop, if_neg Bool.false_ne_true, if_neg Bool.false_ne_true,
          (hgain j g).mpr (hfits.reached j hj g hg hstop)] at hstored
        exact hstored

end PlanarSetup

/-- Four grey pixels that are averaged over, with room for the first two of them. -/
def shortPlane : PlanarSetup where
  lide80 := false
  avgpixels := 4
  pixelsPerLine := 4
  wordsPerColor := 4
  channels := 1
  offset := 0
  coeff := 0x2000
  targetBright := 0xe000
  targetDark := 0x0a00

def greyAverages : AverageData where
  dark := { size := 4, cell := fun _ => 1000 }
  white := { size := 4, cell := fun _ => 50000 }

def shortShading : Cells UInt8 where
  size := 24
  cell := fun _ => 0

end SaneBackends.Genesys
