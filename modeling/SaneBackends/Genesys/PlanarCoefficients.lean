import SaneBackends.Genesys.Coefficients
/-!
# Shading coefficients in planes

`compute_planar_coefficients` stores the coefficients of each colour in a plane of its own, one
for each group of pixels that the scan averages over.
-/

namespace SaneBackends.Genesys

open SaneBackends.Lib

/-! ## The code -/

/-- A group of `factor` pixels of a plane. -/
def planarPass (data : AverageData) (cmat : Cells Nat) (factor pixelsPerLine wordsPerColor : Nat)
    (offset coeff target c x : Nat) (shading : Cells UInt8) :
    Except CellFault (Cells UInt8) := do
  let slot ← cmat.load c
  let ptr := wordsPerColor * slot * 2 + (x + offset) * 4
  let sums ← sumAverages data factor (fun i => x + i + pixelsPerLine * c)
  let dk := sums.dk / factor
  let br := sums.br / factor
  let val := coefficientOf coeff target dk br
  forTo factor (fun i => storeCoefficient (ptr + 4 * i) dk val) shading

/-- `for (x = 0; x < n; x += step)`. -/
def forStep {σ : Type} (n step : Nat) (body : Nat → σ → Except CellFault σ) (s : σ) :
    Except CellFault σ :=
  forTo ((n + step - 1) / step) (fun k => body (k * step)) s

/-- For a grey scan the plane of the one channel is copied to the others. -/
def duplicatePlane (cmat : Cells Nat) (wordsPerColor : Nat) (shading : Cells UInt8) :
    Except CellFault (Cells UInt8) := do
  let first ← cmat.load 0
  let second ← cmat.load 1
  let third ← cmat.load 2
  let shading ← shading.copyAt (second * 2 * wordsPerColor) shading (first * 2 * wordsPerColor)
    (wordsPerColor * 2)
  shading.copyAt (third * 2 * wordsPerColor) shading (first * 2 * wordsPerColor)
    (wordsPerColor * 2)

def computePlanarCoefficients (data : AverageData) (factor pixelsPerLine wordsPerColor : Nat)
    (channels : Nat) (colorOrder : ColorOrder) (offset coeff target : Nat)
    (shading : Cells UInt8) : Except CellFault (Option (Cells UInt8)) :=
  match colorOrderToCmat colorOrder with
  | none => .ok none
  | some cmat => do
      let shading ← forTo channels (fun c => forStep pixelsPerLine factor
        (planarPass data cmat factor pixelsPerLine wordsPerColor offset coeff target c)) shading
      let shading ←
        (if channels = 1 then duplicatePlane cmat wordsPerColor shading else .ok shading)
      .ok (some shading)

/-! ## What is to be stored -/

/-- The place of a pixel is in the plane of its colour, and has the means of its group. -/
def StoresPlanar (data : AverageData) (factor pixelsPerLine wordsPerColor channels : Nat)
    (colorOrder : ColorOrder) (cmat : Cells Nat) (offset coeff target : Nat)
    (shading : Cells UInt8) : Prop :=
  ∃ shading', computePlanarCoefficients data factor pixelsPerLine wordsPerColor channels colorOrder
      offset coeff target shading = .ok (some shading') ∧ shading'.size = shading.size ∧
    ∀ c < channels, ∀ x < pixelsPerLine, (x + offset) * 4 + 4 ≤ wordsPerColor * 2 ∧
      Stored shading' (wordsPerColor * cmat.cell c * 2 + (x + offset) * 4)
        (averageMean data.dark factor fun i => x / factor * factor + i + pixelsPerLine * c)
        (exactGain coeff target
          (averageMean data.dark factor fun i => x / factor * factor + i + pixelsPerLine * c)
          (averageMean data.white factor fun i => x / factor * factor + i + pixelsPerLine * c))

variable {data : AverageData} {pixelsPerLine channels coeff target : Nat}
  {colorOrder : ColorOrder} {cmat : Cells Nat} {shading : Cells UInt8}

/-! ## Planes -/

section Planar

variable {factor wordsPerColor offset : Nat}

/-- The buffer the caller allocates, and a factor that is the ratio of two resolutions. -/
structure PlanarInput (factor wordsPerColor : Nat) (shading : Cells UInt8) : Prop where
  size : shading.size = wordsPerColor * 3 * 2
  factor_pos : 0 < factor
  factor_le : factor ≤ 2 ^ 16

/-- The averages of a group of a plane. -/
def planarIndex (factor pixelsPerLine c g i : Nat) : Nat := g * factor + i + pixelsPerLine * c

theorem planarPass_writes (coeff target : Nat)
    (hin : LineInput data pixelsPerLine channels colorOrder cmat)
    (hplanar : PlanarInput factor wordsPerColor shading) (hfactor : factor ∣ pixelsPerLine)
    {c g : Nat} (hc : c < channels) (hg : g < pixelsPerLine / factor)
    (hfits : (g * factor + factor + offset) * 4 ≤ wordsPerColor * 2) :
    Writes shading.size
      (planarPass data cmat factor pixelsPerLine wordsPerColor offset coeff target c (g * factor))
      (Set.Ico (wordsPerColor * cmat.cell c * 2 + (g * factor + offset) * 4)
        (wordsPerColor * cmat.cell c * 2 + (g * factor + factor + offset) * 4))
      fun i => coefficientByte
        (averageMean data.dark factor (planarIndex factor pixelsPerLine c g))
        (coefficientOf coeff target
          (averageMean data.dark factor (planarIndex factor pixelsPerLine c g))
          (averageMean data.white factor (planarIndex factor pixelsPerLine c g)))
        ((i - (wordsPerColor * cmat.cell c * 2 + (g * factor + offset) * 4)) % 4) := by
  have hgroup : g * factor + factor ≤ pixelsPerLine := by
    have hend : g * factor + factor ≤ _ := part_end_le hg
    rwa [Nat.div_mul_cancel hfactor] at hend
  have hindex : ∀ i < factor,
      planarIndex factor pixelsPerLine c g i < pixelsPerLine * channels := by
    intro i hi
    have hline : pixelsPerLine * c + pixelsPerLine ≤ pixelsPerLine * channels := by
      rw [← Nat.mul_succ]
      exact Nat.mul_le_mul_left _ hc
    rw [planarIndex]
    omega
  have hslot := (cmat_load hin.order (hin.channel_lt hc)).2
  have hplane : wordsPerColor * cmat.cell c * 2 + wordsPerColor * 2 ≤ shading.size := by
    have hle : wordsPerColor * cmat.cell c + wordsPerColor ≤ wordsPerColor * 3 := by
      rw [← Nat.mul_succ]
      exact Nat.mul_le_mul_left _ hslot
    rw [hplanar.size]
    omega
  generalize hptr : wordsPerColor * cmat.cell c * 2 + (g * factor + offset) * 4 = ptr
  have hfill : ∀ dk val, Writes shading.size
      (forTo factor fun k => storeCoefficient (ptr + 4 * k) dk val)
      {i | ∃ k < factor, i ∈ Set.Ico (ptr + 4 * k) (ptr + 4 * k + 4)}
      fun i => coefficientByte dk val ((i - ptr) % 4) := by
    intro dk val
    refine Writes.forTo fun k hk => ?_
    refine (writes_storeCoefficient _ _ (by omega)).congr ?_
    rintro i ⟨hlow, hhigh⟩
    rw [show (i - ptr) % 4 = i - (ptr + 4 * k) by omega]
  have hset : {i | ∃ k < factor, i ∈ Set.Ico (ptr + 4 * k) (ptr + 4 * k + 4)} =
      Set.Ico ptr (wordsPerColor * cmat.cell c * 2 + (g * factor + factor + offset) * 4) := by
    ext i
    simp only [Set.mem_ofPred_eq, Set.mem_Ico]
    constructor
    · rintro ⟨k, hk, hlow, hhigh⟩
      omega
    · rintro ⟨hlow, hhigh⟩
      exact ⟨(i - ptr) / 4, by omega, by omega, by omega⟩
  rw [hset] at hfill
  intro block hsize
  rw [planarPass, (cmat_load hin.order (hin.channel_lt hc)).1, ok_bind]
  dsimp only
  rw [sumAverages_eq (fun i hi => hin.darkSize ▸ hindex i hi)
    (fun i hi => hin.whiteSize ▸ hindex i hi) hplanar.factor_le, ok_bind]
  dsimp only
  rw [averageSum_div, averageSum_div, hptr]
  exact hfill _ _ block hsize

theorem groups_eq (hpos : 0 < factor) (hfactor : factor ∣ pixelsPerLine) :
    (pixelsPerLine + factor - 1) / factor = pixelsPerLine / factor := by
  obtain ⟨m, rfl⟩ := hfactor
  rw [Nat.add_sub_assoc hpos, Nat.mul_add_div hpos, Nat.div_eq_of_lt (by omega), Nat.add_zero,
    Nat.mul_div_cancel_left _ hpos]

/-- The planes of the colours do not meet. -/
theorem plane_apart (wordsPerColor : Nat) {slot slot' : Nat} (hne : slot ≠ slot') :
    wordsPerColor * slot * 2 + wordsPerColor * 2 ≤ wordsPerColor * slot' * 2 ∨
      wordsPerColor * slot' * 2 + wordsPerColor * 2 ≤ wordsPerColor * slot * 2 := by
  have hstep : ∀ a b, a < b → wordsPerColor * a * 2 + wordsPerColor * 2 ≤
      wordsPerColor * b * 2 := by
    intro a b hlt
    have hle : wordsPerColor * (a + 1) ≤ wordsPerColor * b := Nat.mul_le_mul_left _ hlt
    rw [Nat.mul_succ] at hle
    omega
  rcases Nat.lt_or_gt_of_ne hne with hlt | hlt
  · exact .inl (hstep _ _ hlt)
  · exact .inr (hstep _ _ hlt)

/-- The copies of a plane leave it as it is. -/
theorem duplicatePlane_spec (horder : colorOrderToCmat colorOrder = some cmat)
    (hsize : shading.size = wordsPerColor * 3 * 2) :
    ∃ shading', duplicatePlane cmat wordsPerColor shading = .ok shading' ∧
      shading'.size = shading.size ∧
      ∀ i, wordsPerColor * cmat.cell 0 * 2 ≤ i →
        i < wordsPerColor * cmat.cell 0 * 2 + wordsPerColor * 2 →
        shading'.cell i = shading.cell i := by
  have hplane : ∀ c < 3, cmat.cell c * 2 * wordsPerColor + wordsPerColor * 2 ≤ shading.size := by
    intro c hc
    have hle : (cmat.cell c + 1) * (2 * wordsPerColor) ≤ 3 * (2 * wordsPerColor) :=
      Nat.mul_le_mul_right _ (cmat_load horder hc).2
    calc cmat.cell c * 2 * wordsPerColor + wordsPerColor * 2
        = (cmat.cell c + 1) * (2 * wordsPerColor) := by ring
      _ ≤ 3 * (2 * wordsPerColor) := hle
      _ = shading.size := by rw [hsize]; ring
  have hapart : ∀ c < 3, c ≠ 0 → ∀ i, wordsPerColor * cmat.cell 0 * 2 ≤ i →
      i < wordsPerColor * cmat.cell 0 * 2 + wordsPerColor * 2 →
      i < cmat.cell c * 2 * wordsPerColor ∨
        cmat.cell c * 2 * wordsPerColor + wordsPerColor * 2 ≤ i := by
    intro c hc hne i hlow hhigh
    have hslots : cmat.cell c ≠ cmat.cell 0 := fun heq =>
      hne (cmat_inj horder hc (by decide) heq)
    have hform : cmat.cell c * 2 * wordsPerColor = wordsPerColor * cmat.cell c * 2 := by ring
    rcases plane_apart wordsPerColor hslots with hbelow | habove
    · right
      omega
    · left
      omega
  obtain ⟨shading₁, hfirst, hsize₁, -, hkeep₁⟩ := Cells.copyAt_spec (hplane 1 (by decide))
    (hplane 0 (by decide))
  have hplane₁ : ∀ c < 3,
      cmat.cell c * 2 * wordsPerColor + wordsPerColor * 2 ≤ shading₁.size := fun c hc =>
    hsize₁.symm ▸ hplane c hc
  obtain ⟨shading₂, hsecond, hsize₂, -, hkeep₂⟩ := Cells.copyAt_spec (hplane₁ 2 (by decide))
    (hplane₁ 0 (by decide))
  refine ⟨shading₂, ?_, hsize₂.trans hsize₁, fun i hlow hhigh => ?_⟩
  · rw [duplicatePlane, (cmat_load horder (by decide : 0 < 3)).1, ok_bind,
      (cmat_load horder (by decide : 1 < 3)).1, ok_bind,
      (cmat_load horder (by decide : 2 < 3)).1, ok_bind, hfirst, ok_bind, hsecond]
  · rw [hkeep₂ i (hapart 2 (by decide) (by decide) i hlow hhigh),
      hkeep₁ i (hapart 1 (by decide) (by decide) i hlow hhigh)]

/-- What the loops store. -/
theorem planarLoops_write (coeff target : Nat)
    (hin : LineInput data pixelsPerLine channels colorOrder cmat)
    (hplanar : PlanarInput factor wordsPerColor shading) (hfactor : factor ∣ pixelsPerLine)
    (hfits : ∀ x < pixelsPerLine, (x + offset) * 4 + 4 ≤ wordsPerColor * 2) :
    ∃ shading', forTo channels (fun c => forStep pixelsPerLine factor
        (planarPass data cmat factor pixelsPerLine wordsPerColor offset coeff target c)) shading =
          .ok shading' ∧ shading'.size = shading.size ∧
      ∀ c < channels, ∀ x < pixelsPerLine, ∀ j < 4,
        shading'.cell (wordsPerColor * cmat.cell c * 2 + (x + offset) * 4 + j) = coefficientByte
          (averageMean data.dark factor (planarIndex factor pixelsPerLine c (x / factor)))
          (coefficientOf coeff target
            (averageMean data.dark factor (planarIndex factor pixelsPerLine c (x / factor)))
            (averageMean data.white factor (planarIndex factor pixelsPerLine c (x / factor))))
          j := by
  have hpos := hplanar.factor_pos
  have hend : ∀ g < pixelsPerLine / factor, g * factor + factor ≤ pixelsPerLine := by
    intro g hg
    have hle : g * factor + factor ≤ _ := part_end_le hg
    rwa [Nat.div_mul_cancel hfactor] at hle
  have hgroup : ∀ g < pixelsPerLine / factor,
      (g * factor + factor + offset) * 4 ≤ wordsPerColor * 2 := by
    intro g hg
    have hlast := hfits (g * factor + factor - 1) (by have hle := hend g hg; omega)
    omega
  let region := fun c g =>
    Set.Ico (wordsPerColor * cmat.cell c * 2 + (g * factor + offset) * 4)
      (wordsPerColor * cmat.cell c * 2 + (g * factor + factor + offset) * 4)
  let byte := fun c g i => coefficientByte
    (averageMean data.dark factor (planarIndex factor pixelsPerLine c g))
    (coefficientOf coeff target
      (averageMean data.dark factor (planarIndex factor pixelsPerLine c g))
      (averageMean data.white factor (planarIndex factor pixelsPerLine c g)))
    ((i - (wordsPerColor * cmat.cell c * 2 + (g * factor + offset) * 4)) % 4)
  have hline : ∀ c < channels, ∃ content, Writes shading.size (forStep pixelsPerLine factor
      (planarPass data cmat factor pixelsPerLine wordsPerColor offset coeff target c))
      {i | ∃ g < pixelsPerLine / factor, i ∈ region c g} content ∧
      ∀ g < pixelsPerLine / factor, ∀ i ∈ region c g, content i = byte c g i := by
    intro c hc
    have hpass : ∀ g < pixelsPerLine / factor, Writes shading.size
        (planarPass data cmat factor pixelsPerLine wordsPerColor offset coeff target c
          (g * factor)) (region c g) (byte c g) := fun g hg =>
      planarPass_writes coeff target hin hplanar hfactor hc hg (hgroup g hg)
    have hloop := Writes.forTo_disjoint hpass (by
      rintro g hg g' hg' hne i ⟨hlow, hhigh⟩ ⟨hlow', hhigh'⟩
      rcases Nat.lt_or_gt_of_ne hne with hlt | hlt
      · have hle : g * factor + factor ≤ g' * factor := part_end_le hlt
        omega
      · have hle : g' * factor + factor ≤ g * factor := part_end_le hlt
        omega)
    obtain ⟨content, hwrites, hcontent⟩ := hloop
    refine ⟨content, ?_, hcontent⟩
    intro block hsize
    rw [forStep, groups_eq hpos hfactor]
    exact hwrites block hsize
  choose! content hwrites hcontent using hline
  obtain ⟨all, hall, hagree⟩ := Writes.forTo_disjoint hwrites (by
    rintro c hc c' hc' hne i ⟨g, hg, hi⟩ ⟨g', hg', hi'⟩
    have hslots : cmat.cell c ≠ cmat.cell c' := fun heq =>
      hne (cmat_inj hin.order (hin.channel_lt hc) (hin.channel_lt hc') heq)
    have hin₁ := hgroup g hg
    have hin₂ := hgroup g' hg'
    obtain ⟨hlow, hhigh⟩ := hi
    obtain ⟨hlow', hhigh'⟩ := hi'
    rcases plane_apart wordsPerColor hslots with hbelow | habove <;> omega)
  obtain ⟨shading', hrun, hsize, hstored, -⟩ := hall shading rfl
  refine ⟨shading', hrun, hsize, fun c hc x hx j hj => ?_⟩
  have hg : x / factor < pixelsPerLine / factor := by
    rw [Nat.div_lt_iff_lt_mul hpos, Nat.div_mul_cancel hfactor]
    exact hx
  have hdiv := Nat.div_add_mod' x factor
  have hmod := Nat.mod_lt x hpos
  have hi : wordsPerColor * cmat.cell c * 2 + (x + offset) * 4 + j ∈ region c (x / factor) :=
    ⟨by omega, by omega⟩
  rw [hstored _ ⟨c, hc, x / factor, hg, hi⟩, hagree c hc _ ⟨x / factor, hg, hi⟩,
    hcontent c hc _ hg _ hi]
  simp only [byte]
  rw [show (wordsPerColor * cmat.cell c * 2 + (x + offset) * 4 + j -
    (wordsPerColor * cmat.cell c * 2 + (x / factor * factor + offset) * 4)) % 4 = j by omega]

/-- The last group of a line that is no multiple of the factor is read beyond the averages. -/
theorem factor_dvd_of_ok (hin : LineInput data pixelsPerLine channels colorOrder cmat)
    (hpos : 0 < factor) {shading' : Cells UInt8}
    (hrun : computePlanarCoefficients data factor pixelsPerLine wordsPerColor channels colorOrder
      offset coeff target shading = .ok (some shading')) : factor ∣ pixelsPerLine := by
  by_contra hrest
  have hmod : 0 < pixelsPerLine % factor := Nat.pos_of_ne_zero fun h =>
    hrest (Nat.dvd_of_mod_eq_zero h)
  have hlast : channels - 1 < channels := by
    rcases hin.channelCount with hchannels | hchannels <;> omega
  rw [computePlanarCoefficients, hin.order] at hrun
  obtain ⟨shading₁, hloop, -⟩ := bind_eq_ok.mp hrun
  obtain ⟨before, after, hline⟩ := forTo_pass_ok hloop hlast
  have hdiv := Nat.div_add_mod' pixelsPerLine factor
  have hgroup : pixelsPerLine / factor < (pixelsPerLine + factor - 1) / factor := by
    refine (Nat.le_div_iff_mul_le hpos).mpr ?_
    rw [Nat.succ_mul]
    omega
  obtain ⟨before', after', hpass⟩ := forTo_pass_ok hline hgroup
  rw [planarPass] at hpass
  obtain ⟨slot, -, hpass⟩ := bind_eq_ok.mp hpass
  obtain ⟨sums, hsums, -⟩ := bind_eq_ok.mp hpass
  have hinside := sumAverages_ok hsums (Nat.mod_lt pixelsPerLine hpos)
  rw [hdiv, hin.darkSize] at hinside
  have hend : pixelsPerLine + pixelsPerLine * (channels - 1) = pixelsPerLine * channels := by
    rw [Nat.add_comm, ← Nat.mul_succ, show (channels - 1).succ = channels by omega]
  omega

/-- What the function stores. -/
theorem planar_write (hin : LineInput data pixelsPerLine channels colorOrder cmat)
    (hplanar : PlanarInput factor wordsPerColor shading) (hgain : GainInput coeff target)
    (hfactor : factor ∣ pixelsPerLine)
    (hfits : ∀ x < pixelsPerLine, (x + offset) * 4 + 4 ≤ wordsPerColor * 2) :
    ∃ shading', computePlanarCoefficients data factor pixelsPerLine wordsPerColor channels
        colorOrder offset coeff target shading = .ok (some shading') ∧
      shading'.size = shading.size ∧
      ∀ c < channels, ∀ x < pixelsPerLine,
        Stored shading' (wordsPerColor * cmat.cell c * 2 + (x + offset) * 4)
          (averageMean data.dark factor (planarIndex factor pixelsPerLine c (x / factor)))
          (coefficientOf coeff target
            (averageMean data.dark factor (planarIndex factor pixelsPerLine c (x / factor)))
            (averageMean data.white factor (planarIndex factor pixelsPerLine c (x / factor)))) := by
  obtain ⟨shading₁, hloops, hsize₁, hbytes⟩ := planarLoops_write coeff target
    hin hplanar hfactor hfits
  have hinside : ∀ c < channels, ∀ x < pixelsPerLine,
      wordsPerColor * cmat.cell c * 2 + (x + offset) * 4 + 4 ≤ shading.size := by
    intro c hc x hx
    have hle : wordsPerColor * (cmat.cell c + 1) ≤ wordsPerColor * 3 :=
      Nat.mul_le_mul_left _ (cmat_load hin.order (hin.channel_lt hc)).2
    have hplace := hfits x hx
    rw [Nat.mul_succ] at hle
    rw [hplanar.size]
    omega
  have hrun : computePlanarCoefficients data factor pixelsPerLine wordsPerColor channels
      colorOrder offset coeff target shading = (do
        let shading ←
          (if channels = 1 then duplicatePlane cmat wordsPerColor shading₁ else .ok shading₁)
        .ok (some shading)) := by
    rw [computePlanarCoefficients, hin.order]
    dsimp only
    rw [hloops, ok_bind]
  by_cases hgrey : channels = 1
  · obtain ⟨shading₂, hcopy, hsize₂, hkeep⟩ := duplicatePlane_spec hin.order
      (hsize₁.trans hplanar.size)
    rw [if_pos hgrey, hcopy, ok_bind] at hrun
    refine ⟨shading₂, hrun, hsize₂.trans hsize₁, fun c hc x hx => ?_⟩
    refine stored_of_bytes (averageMean_lt _ _ _) (coefficientOf_lt hgain)
      ((hsize₂.trans hsize₁).symm ▸ hinside c hc x hx) fun j hj => ?_
    have hplace := hfits x hx
    obtain rfl : c = 0 := by omega
    rw [hkeep _ (by omega) (by omega)]
    exact hbytes 0 hc x hx j hj
  · rw [if_neg hgrey, ok_bind] at hrun
    refine ⟨shading₁, hrun, hsize₁, fun c hc x hx => ?_⟩
    exact stored_of_bytes (averageMean_lt _ _ _) (coefficientOf_lt hgain)
      (hsize₁.symm ▸ hinside c hc x hx) (hbytes c hc x hx)

theorem storesPlanar_iff (hin : LineInput data pixelsPerLine channels colorOrder cmat)
    (hplanar : PlanarInput factor wordsPerColor shading) (hgain : GainInput coeff target) :
    StoresPlanar data factor pixelsPerLine wordsPerColor channels colorOrder cmat offset coeff
        target shading ↔
      factor ∣ pixelsPerLine ∧ (∀ x < pixelsPerLine, (x + offset) * 4 + 4 ≤ wordsPerColor * 2) ∧
        ∀ c < channels, ∀ x < pixelsPerLine,
          averageMean data.dark factor (planarIndex factor pixelsPerLine c (x / factor)) ≤
            averageMean data.white factor (planarIndex factor pixelsPerLine c (x / factor)) := by
  have hpos : 0 < channels := by
    rcases hin.channelCount with hchannels | hchannels <;> omega
  constructor
  · rintro ⟨shading₁, hrun₁, hsize₁, hexact⟩
    have hfactor := factor_dvd_of_ok hin hplanar.factor_pos hrun₁
    have hfits : ∀ x < pixelsPerLine, (x + offset) * 4 + 4 ≤ wordsPerColor * 2 := fun x hx =>
      (hexact 0 hpos x hx).1
    obtain ⟨shading', hrun, -, hcode⟩ := planar_write hin hplanar hgain hfactor hfits
    rw [hrun] at hrun₁
    refine ⟨hfactor, hfits, fun c hc x hx => ?_⟩
    refine (coefficientOf_exact_iff hgain (averageMean_lt _ _ _) (averageMean_lt _ _ _)).mp ?_
    rw [← (hcode c hc x hx).val_eq, Option.some.inj (Except.ok.inj hrun₁)]
    exact (hexact c hc x hx).2.val_eq
  · rintro ⟨hfactor, hfits, hbrighter⟩
    obtain ⟨shading', hrun, hsize, hcode⟩ := planar_write hin hplanar hgain hfactor hfits
    refine ⟨shading', hrun, hsize, fun c hc x hx => ⟨hfits x hx, ?_⟩⟩
    have hstored := hcode c hc x hx
    rw [coefficientOf_eq hgain (averageMean_lt _ _ _) (hbrighter c hc x hx)] at hstored
    exact hstored

end Planar

/-! ## Both functions -/

/-- Each function stores the right coefficients just if these have a place in the shading data, the
reads stay in the line, and no dark average is greater than the white one. -/
theorem coefficients_exact_iff (hin : LineInput data pixelsPerLine channels colorOrder cmat)
    (hgain : GainInput coeff target) (hpixels : pixelsPerLine < 2 ^ 31) :
    (∀ offset : Int, offset < 2 ^ 31 →
      (StoresCoefficients data pixelsPerLine channels colorOrder cmat offset coeff target shading ↔
        offset ≤ pixelsPerLine ∧ FitsTogether pixelsPerLine channels cmat offset shading.size ∧
          ∀ c < channels, ∀ x, Covered pixelsPerLine offset x →
            averageAt data.dark (x * channels + c) ≤ averageAt data.white (x * channels + c))) ∧
    ∀ factor wordsPerColor offset, PlanarInput factor wordsPerColor shading →
      (StoresPlanar data factor pixelsPerLine wordsPerColor channels colorOrder cmat offset coeff
          target shading ↔
        factor ∣ pixelsPerLine ∧ (∀ x < pixelsPerLine, (x + offset) * 4 + 4 ≤ wordsPerColor * 2) ∧
          ∀ c < channels, ∀ x < pixelsPerLine,
            averageMean data.dark factor (planarIndex factor pixelsPerLine c (x / factor)) ≤
              averageMean data.white factor (planarIndex factor pixelsPerLine c (x / factor))) :=
  ⟨fun _ hoffset => storesCoefficients_iff hin hgain hpixels hoffset,
    fun _ _ _ hplanar => storesPlanar_iff hin hplanar hgain⟩

/-- A grey line of one defective pixel, darker in the white average. -/
def defectivePixel : AverageData where
  dark := { size := 1, cell := fun _ => 2 }
  white := { size := 1, cell := fun _ => 1 }

def emptyShading : Cells UInt8 where
  size := 12
  cell := fun _ => 0

theorem coefficients_exact_iff_defective :
    (∀ offset : Int, offset < 2 ^ 31 →
      (StoresCoefficients defectivePixel 1 1 .rgb ⟨3, fun c => c⟩ offset 0x2000 0xe000
          emptyShading ↔
        offset ≤ (1 : Nat) ∧ FitsTogether 1 1 ⟨3, fun c => c⟩ offset emptyShading.size ∧
          ∀ c < 1, ∀ x, Covered 1 offset x →
            averageAt defectivePixel.dark (x * 1 + c) ≤
              averageAt defectivePixel.white (x * 1 + c))) ∧
    ∀ factor wordsPerColor offset, PlanarInput factor wordsPerColor emptyShading →
      (StoresPlanar defectivePixel factor 1 wordsPerColor 1 .rgb ⟨3, fun c => c⟩ offset 0x2000
          0xe000 emptyShading ↔
        factor ∣ 1 ∧ (∀ x < 1, (x + offset) * 4 + 4 ≤ wordsPerColor * 2) ∧
          ∀ c < 1, ∀ x < 1,
            averageMean defectivePixel.dark factor (planarIndex factor 1 c (x / factor)) ≤
              averageMean defectivePixel.white factor (planarIndex factor 1 c (x / factor))) :=
  coefficients_exact_iff ⟨.inl rfl, rfl, rfl, rfl⟩ ⟨.inl rfl, by decide⟩ (by decide)

/-- The defective pixel gets no gain at all from either function. -/
theorem not_coefficients_exact_defective :
    ¬ StoresCoefficients defectivePixel 1 1 .rgb ⟨3, fun c => c⟩ 0 0x2000 0xe000 emptyShading ∧
      ¬ StoresPlanar defectivePixel 1 1 2 1 .rgb ⟨3, fun c => c⟩ 0 0x2000 0xe000 emptyShading := by
  have hin : LineInput defectivePixel 1 1 .rgb ⟨3, fun c => c⟩ := ⟨.inl rfl, rfl, rfl, rfl⟩
  have hgain : GainInput 0x2000 0xe000 := ⟨.inl rfl, by decide⟩
  constructor
  · intro hstores
    obtain ⟨-, -, hbrighter⟩ :=
      (storesCoefficients_iff hin hgain (by decide) (by decide)).mp hstores
    exact absurd (hbrighter 0 (by decide) 0 ⟨by decide, by decide, by decide⟩) (by decide)
  · intro hstores
    obtain ⟨-, -, hbrighter⟩ :=
      (storesPlanar_iff hin ⟨rfl, by decide, by decide⟩ hgain).mp hstores
    exact absurd (hbrighter 0 (by decide) 0 (by decide)) (by decide)

end SaneBackends.Genesys
