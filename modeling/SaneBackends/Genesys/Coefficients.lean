import SaneBackends.Genesys.ShadingData
/-!
# Shading coefficients of all colours together

`compute_coefficients`. It takes the gain from the difference of the white and the dark average in
`unsigned int`, which wraps if the dark one is the greater.
-/

namespace SaneBackends.Genesys

open SaneBackends.Lib

/-! ## The code -/

def computeCoefficient (coeff target value : Nat) : Nat :=
  if 0 < value then
    let result : Nat := coeff * target % 2 ^ 32 / value
    if 65535 ≤ toInt32 (result : Int) then 65535 else result
  else coeff

/-- The coefficient of the difference `br - dk`. -/
def coefficientOf (coeff target dk br : Nat) : Nat :=
  computeCoefficient coeff target ((br + 2 ^ 32 - dk) % 2 ^ 32)

def coefficientPass (data : AverageData) (cmat : Cells Nat) (channels : Nat) (offset : Int)
    (coeff target c x : Nat) (shading : Cells UInt8) : Except CellFault (Cells UInt8) := do
  let slot ← cmat.load c
  let dk ← data.dark.load (x * channels + c)
  let br ← data.white.load (x * channels + c)
  storeCoefficient (4 * ((x + offset).toNat * channels + slot)) dk.toNat
    (coefficientOf coeff target dk.toNat br.toNat) shading

def coefficientStart (offset : Int) : Nat := (-offset).toNat

/-- A positive offset is subtracted in `unsigned int`. -/
def coefficientEnd (pixelsPerLine : Nat) (offset : Int) : Nat :=
  if offset < 0 then pixelsPerLine else (pixelsPerLine + 2 ^ 32 - offset.toNat) % 2 ^ 32

/-- `none` if the order of the colours is not known. -/
def computeCoefficients (data : AverageData) (pixelsPerLine channels : Nat)
    (colorOrder : ColorOrder) (offset : Int) (coeff target : Nat) (shading : Cells UInt8) :
    Except CellFault (Option (Cells UInt8)) :=
  match colorOrderToCmat colorOrder with
  | none => .ok none
  | some cmat => do
      let first := coefficientStart offset
      let shading ← forTo channels (fun c =>
        forTo (coefficientEnd pixelsPerLine offset - first) (fun k =>
          coefficientPass data cmat channels offset coeff target c (first + k))) shading
      .ok (some shading)

/-! ## What is to be stored -/

/-- Unit gain for a pixel that is not brighter in the white average. -/
def exactGain (coeff target dark white : Nat) : Nat :=
  if dark < white then min 65535 (coeff * target / (white - dark)) else coeff

/-- A pixel of the line whose place with the offset is one of the line. -/
def Covered (pixelsPerLine : Nat) (offset : Int) (x : Nat) : Prop :=
  x < pixelsPerLine ∧ 0 ≤ x + offset ∧ x + offset < pixelsPerLine

def coefficientSlot (channels slot : Nat) (offset : Int) (x : Nat) : Nat :=
  4 * ((x + offset).toNat * channels + slot)

/-- The average with this index. -/
def averageAt (averages : Cells UInt16) (i : Nat) : Nat := (averages.cell i).toNat

theorem averageAt_lt (averages : Cells UInt16) (i : Nat) : averageAt averages i < 2 ^ 16 :=
  (averages.cell i).toNat_lt

def StoresCoefficients (data : AverageData) (pixelsPerLine channels : Nat)
    (colorOrder : ColorOrder) (cmat : Cells Nat) (offset : Int) (coeff target : Nat)
    (shading : Cells UInt8) : Prop :=
  ∃ shading', computeCoefficients data pixelsPerLine channels colorOrder offset coeff target
      shading = .ok (some shading') ∧ shading'.size = shading.size ∧
    ∀ c < channels, ∀ x, Covered pixelsPerLine offset x →
      Stored shading' (coefficientSlot channels (cmat.cell c) offset x)
        (averageAt data.dark (x * channels + c))
        (exactGain coeff target (averageAt data.dark (x * channels + c))
          (averageAt data.white (x * channels + c)))

/-! ## The gain -/

section Gain

variable {coeff target dk br : Nat}

/-- What the callers pass. -/
structure GainInput (coeff target : Nat) : Prop where
  coeff : coeff = 0x2000 ∨ coeff = 0x4000
  target : target ≤ 65535

theorem GainInput.product_lt (h : GainInput coeff target) : coeff * target < 2 ^ 30 := by
  have hcoeff : coeff ≤ 0x4000 := by
    rcases h.coeff with rfl | rfl <;> decide
  calc coeff * target ≤ 0x4000 * 65535 := Nat.mul_le_mul hcoeff h.target
    _ < 2 ^ 30 := by decide

theorem computeCoefficient_zero (coeff target : Nat) :
    computeCoefficient coeff target 0 = coeff := if_neg (Nat.lt_irrefl 0)

theorem computeCoefficient_pos (h : GainInput coeff target) {value : Nat} (hvalue : 0 < value) :
    computeCoefficient coeff target value = min 65535 (coeff * target / value) := by
  have hlt := h.product_lt
  have hle : coeff * target / value ≤ coeff * target := Nat.div_le_self _ _
  have hint : toInt32 ((coeff * target / value : Nat) : Int) = (coeff * target / value : Nat) :=
    toInt32_of_le (by
      rw [intMax]
      omega)
  rw [computeCoefficient, if_pos hvalue, Nat.mod_eq_of_lt (by omega)]
  dsimp only
  rw [hint]
  split_ifs with hbig
  · exact (Nat.min_eq_left (by omega)).symm
  · exact (Nat.min_eq_right (by omega)).symm

theorem coefficientOf_eq (h : GainInput coeff target) (hbr : br < 2 ^ 16) (hle : dk ≤ br) :
    coefficientOf coeff target dk br = exactGain coeff target dk br := by
  have hdif : (br + 2 ^ 32 - dk) % 2 ^ 32 = br - dk := by omega
  rw [coefficientOf, hdif, exactGain]
  by_cases hlt : dk < br
  · rw [if_pos hlt, computeCoefficient_pos h (by omega)]
  · rw [if_neg hlt, show br - dk = 0 by omega]
    rfl

/-- The wrapped difference is so great that the gain is zero. -/
theorem coefficientOf_wrapped (h : GainInput coeff target) (hdk : dk < 2 ^ 16) (hlt : br < dk) :
    coefficientOf coeff target dk br = 0 := by
  have hproduct := h.product_lt
  rw [coefficientOf, computeCoefficient_pos h (by omega), Nat.div_eq_of_lt (by omega)]
  rfl

theorem coefficientOf_lt (h : GainInput coeff target) :
    coefficientOf coeff target dk br < 2 ^ 16 := by
  rw [coefficientOf]
  rcases Nat.eq_zero_or_pos ((br + 2 ^ 32 - dk) % 2 ^ 32) with hzero | hpos
  · rw [hzero, computeCoefficient_zero]
    rcases h.coeff with rfl | rfl <;> decide
  · rw [computeCoefficient_pos h hpos]
    omega

/-- The code has the right gain just if the dark average is not the greater. -/
theorem coefficientOf_exact_iff (h : GainInput coeff target) (hdk : dk < 2 ^ 16)
    (hbr : br < 2 ^ 16) :
    coefficientOf coeff target dk br = exactGain coeff target dk br ↔ dk ≤ br := by
  constructor
  · intro heq
    by_contra hlt
    rw [coefficientOf_wrapped h hdk (by omega), exactGain, if_neg (by omega)] at heq
    rcases h.coeff with hcoeff | hcoeff <;> omega
  · exact coefficientOf_eq h hbr

end Gain

variable {data : AverageData} {pixelsPerLine channels coeff target : Nat}
  {colorOrder : ColorOrder} {cmat : Cells Nat} {shading : Cells UInt8}

/-- There are averages for each pixel and channel, in the vectors the caller has resized. -/
structure LineInput (data : AverageData) (pixelsPerLine channels : Nat) (colorOrder : ColorOrder)
    (cmat : Cells Nat) : Prop where
  channelCount : channels = 1 ∨ channels = 3
  order : colorOrderToCmat colorOrder = some cmat
  darkSize : data.dark.size = pixelsPerLine * channels
  whiteSize : data.white.size = pixelsPerLine * channels

theorem LineInput.channel_lt (h : LineInput data pixelsPerLine channels colorOrder cmat) {c : Nat}
    (hc : c < channels) : c < 3 := by
  rcases h.channelCount with hchannels | hchannels <;> omega

/-! ## All colours together -/

section Together

variable {offset : Int}

/-- The places of the coefficients that are stored are inside the shading data. -/
def FitsTogether (pixelsPerLine channels : Nat) (cmat : Cells Nat) (offset : Int)
    (size : Nat) : Prop :=
  ∀ c < channels, ∀ x, Covered pixelsPerLine offset x →
    coefficientSlot channels (cmat.cell c) offset x + 4 ≤ size

theorem covered_iff (hoffset : offset ≤ pixelsPerLine) (hpixels : pixelsPerLine < 2 ^ 32)
    {x : Nat} : Covered pixelsPerLine offset x ↔
      ∃ k < coefficientEnd pixelsPerLine offset - coefficientStart offset,
        x = coefficientStart offset + k := by
  rw [Covered, coefficientEnd, coefficientStart]
  constructor
  · rintro ⟨hx, hlow, hhigh⟩
    refine ⟨x - (-offset).toNat, ?_, by omega⟩
    split_ifs <;> omega
  · rintro ⟨k, hk, rfl⟩
    split_ifs at hk <;> omega

theorem coefficientPass_writes (hin : LineInput data pixelsPerLine channels colorOrder cmat)
    {size c x : Nat} (hc : c < channels) (hx : Covered pixelsPerLine offset x)
    (hfits : coefficientSlot channels (cmat.cell c) offset x + 4 ≤ size) :
    Writes size (coefficientPass data cmat channels offset coeff target c x)
      (Set.Ico (coefficientSlot channels (cmat.cell c) offset x)
        (coefficientSlot channels (cmat.cell c) offset x + 4))
      fun i => coefficientByte (averageAt data.dark (x * channels + c))
        (coefficientOf coeff target (averageAt data.dark (x * channels + c))
          (averageAt data.white (x * channels + c)))
        (i - coefficientSlot channels (cmat.cell c) offset x) := by
  have hindex : x * channels + c < pixelsPerLine * channels := part_lt hx.1 hc
  intro block hsize
  rw [coefficientPass, (cmat_load hin.order (hin.channel_lt hc)).1, ok_bind,
    Cells.load_eq (hin.darkSize ▸ hindex), ok_bind, Cells.load_eq (hin.whiteSize ▸ hindex),
    ok_bind]
  exact writes_storeCoefficient _ _ hfits block hsize

/-- The places of different pixels and colours are apart. -/
theorem coefficientSlot_apart (hin : LineInput data pixelsPerLine channels colorOrder cmat)
    {c c' x x' : Nat} (hc : c < channels) (hc' : c' < channels)
    (hx : Covered pixelsPerLine offset x) (hx' : Covered pixelsPerLine offset x')
    (hne : c ≠ c' ∨ x ≠ x') :
    coefficientSlot channels (cmat.cell c) offset x + 4 ≤
        coefficientSlot channels (cmat.cell c') offset x' ∨
      coefficientSlot channels (cmat.cell c') offset x' + 4 ≤
        coefficientSlot channels (cmat.cell c) offset x := by
  have hslot := (cmat_load hin.order (hin.channel_lt hc)).2
  have hslot' := (cmat_load hin.order (hin.channel_lt hc')).2
  have hdiffer : x ≠ x' ∨ cmat.cell c ≠ cmat.cell c' := by
    rcases hne with hne | hne
    · exact .inr fun heq => hne (cmat_inj hin.order (hin.channel_lt hc) (hin.channel_lt hc') heq)
    · exact .inl hne
  obtain ⟨-, hlow, -⟩ := hx
  obtain ⟨-, hlow', -⟩ := hx'
  rw [coefficientSlot, coefficientSlot]
  rcases hin.channelCount with rfl | rfl
  · obtain rfl : c = c' := by omega
    omega
  · omega

/-- What the two loops store. -/
theorem coefficients_write (coeff target : Nat)
    (hin : LineInput data pixelsPerLine channels colorOrder cmat)
    (hoffset : offset ≤ pixelsPerLine) (hpixels : pixelsPerLine < 2 ^ 32)
    (hfits : FitsTogether pixelsPerLine channels cmat offset shading.size) :
    ∃ shading', computeCoefficients data pixelsPerLine channels colorOrder offset coeff target
        shading = .ok (some shading') ∧ shading'.size = shading.size ∧
      ∀ c < channels, ∀ x, Covered pixelsPerLine offset x → ∀ j < 4,
        shading'.cell (coefficientSlot channels (cmat.cell c) offset x + j) =
          coefficientByte (averageAt data.dark (x * channels + c))
            (coefficientOf coeff target (averageAt data.dark (x * channels + c))
              (averageAt data.white (x * channels + c))) j := by
  let first := coefficientStart offset
  let count := coefficientEnd pixelsPerLine offset - first
  let place := fun c k => coefficientSlot channels (cmat.cell c) offset (first + k)
  let byte := fun c k i => coefficientByte (averageAt data.dark ((first + k) * channels + c))
    (coefficientOf coeff target (averageAt data.dark ((first + k) * channels + c))
      (averageAt data.white ((first + k) * channels + c))) (i - place c k)
  have hcovered : ∀ k < count, Covered pixelsPerLine offset (first + k) := fun k hk =>
    (covered_iff hoffset hpixels).mpr ⟨k, hk, rfl⟩
  have happart : ∀ c < channels, ∀ c' < channels, ∀ k < count, ∀ k' < count, c ≠ c' ∨ k ≠ k' →
      ∀ i ∈ Set.Ico (place c k) (place c k + 4), i ∉ Set.Ico (place c' k') (place c' k' + 4) := by
    intro c hc c' hc' k hk k' hk' hne i hi hi'
    rcases coefficientSlot_apart hin hc hc' (hcovered k hk) (hcovered k' hk') (by omega)
      with hbelow | habove
    · exact Nat.not_lt.mpr (hbelow.trans hi'.1) hi.2
    · exact Nat.not_lt.mpr (habove.trans hi.1) hi'.2
  have hline : ∀ c < channels, ∃ content, Writes shading.size (forTo count fun k =>
      coefficientPass data cmat channels offset coeff target c (first + k))
      {i | ∃ k < count, i ∈ Set.Ico (place c k) (place c k + 4)} content ∧
      ∀ k < count, ∀ i ∈ Set.Ico (place c k) (place c k + 4), content i = byte c k i := by
    intro c hc
    refine Writes.forTo_disjoint (fun k hk => ?_) fun k hk k' hk' hne =>
      happart c hc c hc k hk k' hk' (.inr hne)
    exact coefficientPass_writes hin hc (hcovered k hk) (hfits c hc _ (hcovered k hk))
  choose! content hwrites hcontent using hline
  obtain ⟨all, hall, hagree⟩ := Writes.forTo_disjoint hwrites (by
    rintro c hc c' hc' hne i ⟨k, hk, hi⟩ ⟨k', hk', hi'⟩
    exact happart c hc c' hc' k hk k' hk' (.inl hne) i hi hi')
  obtain ⟨shading', hrun, hsize, hstored, -⟩ := hall shading rfl
  refine ⟨shading', ?_, hsize, ?_⟩
  · rw [computeCoefficients, hin.order]
    dsimp only
    rw [hrun, ok_bind]
  · intro c hc x hx j hj
    obtain ⟨k, hk, rfl⟩ := (covered_iff hoffset hpixels).mp hx
    have hi : place c k + j ∈ Set.Ico (place c k) (place c k + 4) :=
      ⟨Nat.le_add_right _ _, by omega⟩
    have hcell := hstored (place c k + j) ⟨c, hc, k, hk, hi⟩
    rw [hagree c hc _ ⟨k, hk, hi⟩, hcontent c hc k hk _ hi] at hcell
    simp only [byte, Nat.add_sub_cancel_left] at hcell
    exact hcell

/-- With an offset beyond the line the loop runs on behind it. -/
theorem offset_le_of_ok (hin : LineInput data pixelsPerLine channels colorOrder cmat)
    (hpixels : pixelsPerLine < 2 ^ 31) (hoffset : offset < 2 ^ 31) {shading' : Cells UInt8}
    (hrun : computeCoefficients data pixelsPerLine channels colorOrder offset coeff target
      shading = .ok (some shading')) : offset ≤ pixelsPerLine := by
  by_contra hlt
  have hpos : 0 < channels := by
    rcases hin.channelCount with hchannels | hchannels <;> omega
  rw [computeCoefficients, hin.order] at hrun
  obtain ⟨shading₁, hloop, -⟩ := bind_eq_ok.mp hrun
  obtain ⟨before, after, hline⟩ := forTo_pass_ok hloop hpos
  have hbehind : pixelsPerLine < coefficientEnd pixelsPerLine offset - coefficientStart offset := by
    rw [coefficientEnd, coefficientStart, if_neg (by omega)]
    omega
  obtain ⟨before', after', hpass⟩ := forTo_pass_ok hline hbehind
  rw [coefficientPass, show coefficientStart offset + pixelsPerLine = pixelsPerLine by
    rw [coefficientStart]
    omega] at hpass
  obtain ⟨slot, -, hpass⟩ := bind_eq_ok.mp hpass
  obtain ⟨dk, hload, -⟩ := bind_eq_ok.mp hpass
  have hinside := (Cells.load_ok hload).1
  rw [hin.darkSize] at hinside
  omega

theorem storesCoefficients_iff (hin : LineInput data pixelsPerLine channels colorOrder cmat)
    (hgain : GainInput coeff target) (hpixels : pixelsPerLine < 2 ^ 31)
    (hoffset : offset < 2 ^ 31) :
    StoresCoefficients data pixelsPerLine channels colorOrder cmat offset coeff target shading ↔
      offset ≤ pixelsPerLine ∧
        FitsTogether pixelsPerLine channels cmat offset shading.size ∧
        ∀ c < channels, ∀ x, Covered pixelsPerLine offset x →
          averageAt data.dark (x * channels + c) ≤ averageAt data.white (x * channels + c) := by
  have hstored : ∀ hle : offset ≤ pixelsPerLine,
      ∀ hfits : FitsTogether pixelsPerLine channels cmat offset shading.size,
      ∃ shading', computeCoefficients data pixelsPerLine channels colorOrder offset coeff target
        shading = .ok (some shading') ∧ shading'.size = shading.size ∧
      ∀ c < channels, ∀ x, Covered pixelsPerLine offset x →
        Stored shading' (coefficientSlot channels (cmat.cell c) offset x)
          (averageAt data.dark (x * channels + c))
          (coefficientOf coeff target (averageAt data.dark (x * channels + c))
            (averageAt data.white (x * channels + c))) := by
    intro hle hfits
    obtain ⟨shading', hrun, hsize, hbytes⟩ := coefficients_write coeff target hin hle
      (by omega) hfits
    refine ⟨shading', hrun, hsize, fun c hc x hx => ?_⟩
    exact stored_of_bytes (averageAt_lt _ _) (coefficientOf_lt hgain)
      (hsize ▸ hfits c hc x hx) (hbytes c hc x hx)
  constructor
  · rintro ⟨shading₁, hrun₁, hsize₁, hexact⟩
    have hle := offset_le_of_ok hin hpixels hoffset hrun₁
    have hfits : FitsTogether pixelsPerLine channels cmat offset shading.size := fun c hc x hx =>
      hsize₁ ▸ (hexact c hc x hx).inside
    obtain ⟨shading', hrun, -, hcode⟩ := hstored hle hfits
    rw [hrun] at hrun₁
    refine ⟨hle, hfits, fun c hc x hx => ?_⟩
    refine (coefficientOf_exact_iff hgain (averageAt_lt _ _) (averageAt_lt _ _)).mp ?_
    rw [← (hcode c hc x hx).val_eq, Option.some.inj (Except.ok.inj hrun₁)]
    exact (hexact c hc x hx).val_eq
  · rintro ⟨hle, hfits, hbrighter⟩
    obtain ⟨shading', hrun, hsize, hcode⟩ := hstored hle hfits
    refine ⟨shading', hrun, hsize, fun c hc x hx => ?_⟩
    rw [← coefficientOf_eq hgain (averageAt_lt _ _) (hbrighter c hc x hx)]
    exact hcode c hc x hx

end Together

end SaneBackends.Genesys
