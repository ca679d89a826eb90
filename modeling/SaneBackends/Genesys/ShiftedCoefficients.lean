import SaneBackends.Genesys.ShadingData
/-!
# Shading coefficients of shifted sensors

`compute_shifted_coefficients` averages each group of pixels, and adds up the dark averages under
the index of the pixel where those of the white ones go under that of the channel.
-/

namespace SaneBackends.Genesys

open SaneBackends.Lib

/-! ## The code -/

/-- `br_tmp` and `dk_tmp`. -/
structure ShiftedTmp where
  brTmp : Cells Nat := { size := 3, cell := fun _ => 0 }
  dkTmp : Cells Nat := { size := 3, cell := fun _ => 0 }

/-- `br_tmp[j] += ..` and `dk_tmp[i] += ..`. -/
def addAverages (data : AverageData) (channels x i j : Nat) (tmp : ShiftedTmp) :
    Except CellFault ShiftedTmp := do
  let br ← tmp.brTmp.load j
  let white ← data.white.load ((x + i) * channels + j)
  let brTmp ← tmp.brTmp.store j ((br + white.toNat) % 2 ^ 32)
  let dk ← tmp.dkTmp.load i
  let dark ← data.dark.load ((x + i) * channels + j)
  let dkTmp ← tmp.dkTmp.store i ((dk + dark.toNat) % 2 ^ 32)
  .ok { brTmp, dkTmp }

/-- The sums for the group at `x`. -/
def shiftedSums (data : AverageData) (channels avgpixels x : Nat) : Except CellFault ShiftedTmp :=
  forTo avgpixels (fun i => forTo channels (addAverages data channels x i)) {}

/-- The means of channel `j`, and what they are replaced by. -/
def shiftedPass (avgpixels coeff targetDark targetBright j : Nat) (tmp : ShiftedTmp) :
    Except CellFault ShiftedTmp := do
  let br ← tmp.brTmp.load j
  let dk ← tmp.dkTmp.load j
  let br := br / avgpixels
  let dk := dk / avgpixels
  let val1 ← offsetValue targetBright targetDark br dk
  let val2 := gainValue coeff targetBright targetDark br dk
  let brTmp ← tmp.brTmp.store j val1
  let dkTmp ← tmp.dkTmp.store j val2
  .ok { brTmp, dkTmp }

structure ShiftedState where
  shading : Cells UInt8
  ptr : Nat
  patchCnt : Nat
  cmat : Cells Nat

/-- At the end of a patch the colours move on. -/
def rotateCmat (cmat : Cells Nat) : Except CellFault (Cells Nat) := do
  let last ← cmat.load 2
  let second ← cmat.load 1
  let cmat ← cmat.store 2 second
  let first ← cmat.load 0
  let cmat ← cmat.store 1 first
  cmat.store 0 last

def storeShifted (tmp : ShiftedTmp) (patchSize j : Nat) (st : ShiftedState) :
    Except CellFault ShiftedState := do
  let slot ← st.cmat.load j
  let br ← tmp.brTmp.load slot
  let dk ← tmp.dkTmp.load slot
  let shading ← storeCoefficient st.ptr br dk st.shading
  let patchCnt := (st.patchCnt + 1) % 2 ^ 32
  if patchCnt = patchSize then
    let cmat ← rotateCmat st.cmat
    .ok { shading, ptr := st.ptr + 4, patchCnt := 0, cmat }
  else .ok { st with shading, ptr := st.ptr + 4, patchCnt }

def shiftedGroup (data : AverageData) (channels avgpixels coeff targetDark targetBright : Nat)
    (patchSize x : Nat) (st : ShiftedState) : Except CellFault ShiftedState := do
  let tmp ← shiftedSums data channels avgpixels x
  let tmp ← forTo channels (shiftedPass avgpixels coeff targetDark targetBright) tmp
  forTo avgpixels (fun _ => forTo channels (storeShifted tmp patchSize)) st

/-- `none` if the order of the colours is not known. -/
def computeShiftedCoefficients (data : AverageData)
    (xres fullResolution opticalResolution pixelsPerLine channels : Nat)
    (colorOrder : ColorOrder) (offset coeff targetDark targetBright patchSize : Nat)
    (shading : Cells UInt8) : Except CellFault (Option (Cells UInt8)) :=
  match colorOrderToCmat colorOrder with
  | none => .ok none
  | some cmat => do
      let basepixels ← basePixels xres fullResolution opticalResolution
      let avgpixels := averagingWidth basepixels
      let groups := (pixelsPerLine + 2 ^ 32 - avgpixels) % 2 ^ 32 / avgpixels + 1
      let st ← forTo groups (fun g =>
        shiftedGroup data channels avgpixels coeff targetDark targetBright patchSize
          (g * avgpixels))
        { shading, ptr := offset * 3 * 4, patchCnt := offset * 3, cmat }
      .ok (some st.shading)

/-! ## What the groups are to use -/

/-- The index of channel `j` of pixel `i` of the group at `x`. -/
def chunkyIndex (channels x i j : Nat) : Nat := (x + i) * channels + j

/-- The sums of each group are within the accumulators, and their quotients are the means of the
channels over the pixels of the group. -/
def UsesMeans (data : AverageData) (pixelsPerLine channels avgpixels : Nat) : Prop :=
  ∀ g < pixelsPerLine / avgpixels, ∃ tmp,
    shiftedSums data channels avgpixels (g * avgpixels) = .ok tmp ∧
    ∀ j < channels,
      tmp.brTmp.cell j / avgpixels =
        averageMean data.white avgpixels (fun i => chunkyIndex channels (g * avgpixels) i j) ∧
      tmp.dkTmp.cell j / avgpixels =
        averageMean data.dark avgpixels (fun i => chunkyIndex channels (g * avgpixels) i j)

/-- The dark averages of all channels of the `j`-th pixel of a group, and those of channel `j` of
all its pixels, have the same mean. -/
def SameDarkMeans (data : AverageData) (pixelsPerLine channels avgpixels : Nat) : Prop :=
  ∀ g < pixelsPerLine / avgpixels, ∀ j < channels,
    (if j < avgpixels then
      averageSum data.dark channels (fun c => chunkyIndex channels (g * avgpixels) j c)
    else 0) / avgpixels =
      averageMean data.dark avgpixels (fun i => chunkyIndex channels (g * avgpixels) i j)

variable {data : AverageData} {pixelsPerLine channels avgpixels x i : Nat} {tmp : ShiftedTmp}

/-- There are averages for each pixel and channel. -/
structure ShiftedInput (data : AverageData) (pixelsPerLine channels : Nat) : Prop where
  channelCount : channels = 1 ∨ channels = 3
  darkSize : data.dark.size = pixelsPerLine * channels
  whiteSize : data.white.size = pixelsPerLine * channels

/-! ## The sums of a group -/

theorem chunkyIndex_lt {j : Nat} (hx : x + i < pixelsPerLine) (hj : j < channels) :
    chunkyIndex channels x i j < pixelsPerLine * channels := part_lt hx hj

/-- Behind `i` pixels: the white sums of the channels, the dark sums of the pixels. -/
structure SumsBehind (data : AverageData) (channels x i : Nat) (tmp : ShiftedTmp) : Prop where
  brSize : tmp.brTmp.size = 3
  dkSize : tmp.dkTmp.size = 3
  br : ∀ j < channels,
    tmp.brTmp.cell j = averageSum data.white i (fun i => chunkyIndex channels x i j)
  dk : ∀ k < i,
    tmp.dkTmp.cell k = averageSum data.dark channels (fun c => chunkyIndex channels x k c)
  rest : ∀ k, i ≤ k → tmp.dkTmp.cell k = 0

/-- Behind `j` channels of pixel `i`. -/
structure SumsInside (data : AverageData) (channels x i j : Nat) (tmp : ShiftedTmp) : Prop where
  brSize : tmp.brTmp.size = 3
  dkSize : tmp.dkTmp.size = 3
  brDone : ∀ c < j,
    tmp.brTmp.cell c = averageSum data.white (i + 1) (fun i => chunkyIndex channels x i c)
  br : ∀ c < channels, j ≤ c →
    tmp.brTmp.cell c = averageSum data.white i (fun i => chunkyIndex channels x i c)
  dk : ∀ k < i,
    tmp.dkTmp.cell k = averageSum data.dark channels (fun c => chunkyIndex channels x k c)
  dkHere : tmp.dkTmp.cell i = averageSum data.dark j (fun c => chunkyIndex channels x i c)
  rest : ∀ k, i < k → tmp.dkTmp.cell k = 0

theorem addAverages_spec (hin : ShiftedInput data pixelsPerLine channels) {j : Nat}
    (hx : x + i < pixelsPerLine) (hi : i < 3) (hj : j < channels)
    (htmp : SumsInside data channels x i j tmp) : ∃ tmp',
      addAverages data channels x i j tmp = .ok tmp' ∧
        SumsInside data channels x i (j + 1) tmp' := by
  have hthree : channels ≤ 3 := by
    rcases hin.channelCount with hchannels | hchannels <;> omega
  have hindex := chunkyIndex_lt hx hj
  have hbr := averageSum_lt data.white (n := i + 1) (by omega)
    (fun i => chunkyIndex channels x i j)
  have hdk := averageSum_lt data.dark (n := j + 1) (by omega)
    (fun c => chunkyIndex channels x i c)
  rw [addAverages, Cells.load_eq (htmp.brSize.symm ▸ (by omega : j < 3)), ok_bind,
    Cells.load_eq (hin.whiteSize.symm ▸ hindex), ok_bind,
    Cells.store_eq (htmp.brSize.symm ▸ (by omega : j < 3)), ok_bind,
    Cells.load_eq (htmp.dkSize.symm ▸ hi), ok_bind, Cells.load_eq (hin.darkSize.symm ▸ hindex),
    ok_bind, Cells.store_eq (htmp.dkSize.symm ▸ hi), ok_bind, htmp.br j hj (Nat.le_refl j),
    htmp.dkHere]
  rw [show (data.white.cell ((x + i) * channels + j)).toNat =
      (data.white.cell (chunkyIndex channels x i j)).toNat from rfl,
    ← averageSum_succ data.white i fun i => chunkyIndex channels x i j,
    show (data.dark.cell ((x + i) * channels + j)).toNat =
      (data.dark.cell (chunkyIndex channels x i j)).toNat from rfl,
    ← averageSum_succ data.dark j fun c => chunkyIndex channels x i c,
    Nat.mod_eq_of_lt hbr, Nat.mod_eq_of_lt hdk]
  refine ⟨_, rfl, htmp.brSize, htmp.dkSize, ?_, ?_, ?_, Cells.cell_put_self .., ?_⟩
  · intro c hc
    rcases Nat.lt_succ_iff_lt_or_eq.mp hc with hlt | rfl
    · exact (Cells.cell_put_of_ne (by omega) _).trans (htmp.brDone c hlt)
    · exact Cells.cell_put_self ..
  · intro c hc hle
    exact (Cells.cell_put_of_ne (by omega) _).trans (htmp.br c hc (by omega))
  · intro k hk
    exact (Cells.cell_put_of_ne (by omega) _).trans (htmp.dk k hk)
  · intro k hk
    exact (Cells.cell_put_of_ne (by omega) _).trans (htmp.rest k hk)

/-- One pixel of a group. -/
theorem addPixel_spec (hin : ShiftedInput data pixelsPerLine channels)
    (hx : x + i < pixelsPerLine) (hi : i < 3) (htmp : SumsBehind data channels x i tmp) :
    ∃ tmp', forTo channels (addAverages data channels x i) tmp = .ok tmp' ∧
      SumsBehind data channels x (i + 1) tmp' := by
  obtain ⟨tmp', hrun, hinside⟩ : ∃ tmp',
      forTo channels (addAverages data channels x i) tmp = .ok tmp' ∧
        SumsInside data channels x i channels tmp' :=
    forTo_invariant (I := fun j tmp => SumsInside data channels x i j tmp)
    ⟨htmp.brSize, htmp.dkSize, fun c hc => absurd hc (Nat.not_lt_zero c),
      fun c hc _ => htmp.br c hc,
      htmp.dk, htmp.rest i (Nat.le_refl i), fun k hk => htmp.rest k (Nat.le_of_lt hk)⟩
    fun j hj tmp hinside => addAverages_spec hin hx hi hj hinside
  refine ⟨tmp', hrun, hinside.brSize, hinside.dkSize, hinside.brDone, ?_, hinside.rest⟩
  intro k hk
  rcases Nat.lt_succ_iff_lt_or_eq.mp hk with hlt | rfl
  · exact hinside.dk k hlt
  · exact hinside.dkHere

theorem shiftedSums_spec (hin : ShiftedInput data pixelsPerLine channels)
    (hx : x + avgpixels ≤ pixelsPerLine) (havg : avgpixels ≤ 3) :
    ∃ tmp, shiftedSums data channels avgpixels x = .ok tmp ∧
      SumsBehind data channels x avgpixels tmp :=
  forTo_invariant (I := fun i tmp => SumsBehind data channels x i tmp)
    ⟨rfl, rfl, fun _ _ => rfl, fun k hk => absurd hk (Nat.not_lt_zero k), fun _ _ => rfl⟩
    fun _ hi _ htmp => addPixel_spec hin (by omega) (by omega) htmp

/-- `addAverages` keeps the sizes of the accumulators, and stays inside of them. -/
theorem addAverages_ok {j : Nat} {tmp' : ShiftedTmp}
    (h : addAverages data channels x i j tmp = .ok tmp') :
    i < tmp.dkTmp.size ∧ tmp'.dkTmp.size = tmp.dkTmp.size := by
  obtain ⟨br, -, h⟩ := bind_eq_ok.mp h
  obtain ⟨white, -, h⟩ := bind_eq_ok.mp h
  obtain ⟨brTmp, -, h⟩ := bind_eq_ok.mp h
  obtain ⟨dk, hload, h⟩ := bind_eq_ok.mp h
  obtain ⟨dark, -, h⟩ := bind_eq_ok.mp h
  obtain ⟨dkTmp, hstore, h⟩ := bind_eq_ok.mp h
  rw [← Except.ok.inj h, (Cells.store_ok hstore).2]
  exact ⟨(Cells.load_ok hload).1, rfl⟩

/-- More than three pixels do not fit into the accumulators. -/
theorem shiftedSums_ok (hpos : 0 < channels)
    (h : shiftedSums data channels avgpixels x = .ok tmp) : avgpixels ≤ 3 := by
  have hall := forTo_ok (I := fun k (tmp : ShiftedTmp) => tmp.dkTmp.size = 3 ∧ k ≤ 3) h
    ⟨rfl, by decide⟩ (by
      rintro i - tmp tmp' ⟨hsize, -⟩ hpass
      have hinner := forTo_ok
        (I := fun j (tmp : ShiftedTmp) => tmp.dkTmp.size = 3 ∧ (0 < j → i < 3)) hpass
        ⟨hsize, fun hj => absurd hj (Nat.lt_irrefl 0)⟩ (by
          rintro j - tmp tmp' ⟨hsize, -⟩ hadd
          obtain ⟨hlt, hkeep⟩ := addAverages_ok hadd
          exact ⟨hkeep.trans hsize, fun _ => hsize ▸ hlt⟩)
      exact ⟨hinner.1, hinner.2 hpos⟩)
  exact hall.2

/-! ## All groups -/

/-- Two grey pixels that are averaged over. -/
def unequalPixels : AverageData where
  dark := { size := 2, cell := fun i => if i = 0 then 2 else 4 }
  white := { size := 2, cell := fun _ => 100 }

end SaneBackends.Genesys
