import SaneBackends.Sanei.Image
import SaneBackends.Sanei.Types
/-!
# Luminance and depth reduction

`sanei_ir_RGB_luminance` and `sanei_ir_to_8bit`. Both write through a pointer that runs over the
new image, and this pointer is what they hand back. What `malloc` answers is a parameter, with the
contents of the new block.
-/

namespace SaneBackends.Sanei

open SaneBackends.Lib

/-! ## The code -/

/-- A pointer that runs over an image. -/
structure SamplePtr where
  image : Cells UInt16
  pos : Nat := 0

/-- `*ptr++`. -/
def SamplePtr.next (ptr : SamplePtr) : Except CellFault (UInt16 × SamplePtr) := do
  let sample ← ptr.image.load ptr.pos
  .ok (sample, { ptr with pos := ptr.pos + 1 })

/-- `*(ptr++) = sample`. -/
def SamplePtr.emit (ptr : SamplePtr) (sample : UInt16) : Except CellFault SamplePtr := do
  let image ← ptr.image.store ptr.pos sample
  .ok { image, pos := ptr.pos + 1 }

/-- `in_img[0]`, `in_img[1]` and `in_img[2]`. -/
structure Planes where
  red : SamplePtr
  green : SamplePtr
  blue : SamplePtr

def luminance (r g b : UInt16) : UInt16 :=
  UInt16.ofNat ((218 * r.toNat + 732 * g.toNat + 74 * b.toNat) >>> 10)

def luminancePass (st : Planes × SamplePtr) : Except CellFault (Planes × SamplePtr) := do
  let (r, red) ← st.1.red.next
  let (g, green) ← st.1.green.next
  let (b, blue) ← st.1.blue.next
  let outi ← st.2.emit (luminance r g b)
  .ok ({ red, green, blue }, outi)

/-- The status, the planes with their pointers moved, and `*out_img` if it is set. -/
structure LuminanceResult where
  status : SaneStatus
  inImg : Planes
  outImg : Option SamplePtr := none

def saneiIrRGBLuminance (malloc : Nat → Option (Nat → UInt16)) (params : ImageParams)
    (inImg : Planes) : Except CellFault LuminanceResult :=
  if params.depth < 8 ∨ 16 < params.depth ∨ params.format ≠ .gray then
    .ok { status := .unsupported, inImg }
  else
    let itop := params.pixels
    match malloc (itop * 2) with
    | none => .ok { status := .noMem, inImg }
    | some contents => do
        let (inImg, outi) ← forTo itop (fun _ => luminancePass)
          (inImg, { image := { size := itop, cell := contents } })
        .ok { status := .good, inImg, outImg := some outi }

/-- `*outi = *outi >> is, outi += 2`. -/
def to8bitPass (shift : Nat) (outi : SamplePtr) : Except CellFault SamplePtr := do
  let sample ← outi.image.load outi.pos
  let image ← outi.image.store outi.pos (UInt16.ofNat (sample.toNat >>> shift))
  .ok { image, pos := outi.pos + 2 }

/-- `ssize`. -/
def ImageParams.sampleCount (params : ImageParams) : Nat :=
  if params.format = .rgb then params.pixels * 3 else params.pixels

structure To8bitResult where
  status : SaneStatus
  outParams : Option ImageParams
  outImg : Option SamplePtr := none

/-- `out_params` may be `NULL`. -/
def saneiIrTo8bit (malloc : Nat → Option (Nat → UInt16)) (params : ImageParams)
    (inImg : Cells UInt16) (outParams : Option ImageParams) : Except CellFault To8bitResult :=
  if params.depth < 8 ∨ 16 < params.depth then .ok { status := .unsupported, outParams }
  else
    let ssize := params.sampleCount
    match malloc (ssize * 2) with
    | none => .ok { status := .noMem, outParams }
    | some contents => do
        let outParams := outParams.map fun _ =>
          { params with
            bytesPerLine :=
              if params.format = .rgb then params.pixelsPerLine * 3 else params.pixelsPerLine
            depth := 8 }
        let image ← Cells.copy { size := ssize, cell := contents } inImg ssize
        let outi ← forTo ssize (fun _ => to8bitPass (params.depth - 8)) { image }
        .ok { status := .good, outParams, outImg := some outi }

/-! ## What is handed back -/

/-- A pointer to the first sample of an image. -/
structure SamplePtr.Addresses (ptr : SamplePtr) (n : Nat) (sample : Nat → Nat) : Prop where
  first : ptr.pos = 0
  size : ptr.image.size = n
  cell : ∀ i < n, (ptr.image.cell i).toNat = sample i

/-- The samples a plane is read for. -/
def SamplePtr.sample (ptr : SamplePtr) (i : Nat) : Nat := (ptr.image.cell (ptr.pos + i)).toNat

def HandsLuminance (malloc : Nat → Option (Nat → UInt16)) (params : ImageParams)
    (inImg : Planes) : Prop :=
  ∃ result outi, saneiIrRGBLuminance malloc params inImg = .ok result ∧ result.status = .good ∧
    result.outImg = some outi ∧ outi.Addresses params.pixels fun i =>
      (218 * inImg.red.sample i + 732 * inImg.green.sample i + 74 * inImg.blue.sample i) / 1024

def Hands8bit (malloc : Nat → Option (Nat → UInt16)) (params : ImageParams)
    (inImg : Cells UInt16) (outParams : Option ImageParams) : Prop :=
  ∃ result outi, saneiIrTo8bit malloc params inImg outParams = .ok result ∧
    result.status = .good ∧ result.outImg = some outi ∧
    outi.Addresses params.sampleCount fun i => (inImg.cell i).toNat >>> (params.depth - 8)

/-- There are samples for each pixel. -/
structure Planes.Holds (inImg : Planes) (n : Nat) : Prop where
  red : inImg.red.pos + n ≤ inImg.red.image.size
  green : inImg.green.pos + n ≤ inImg.green.image.size
  blue : inImg.blue.pos + n ≤ inImg.blue.image.size

variable {malloc : Nat → Option (Nat → UInt16)} {params : ImageParams} {contents : Nat → UInt16}
  {n shift : Nat}

/-! ## The luminance -/

theorem luminance_toNat (r g b : UInt16) : (luminance r g b).toNat =
    (218 * r.toNat + 732 * g.toNat + 74 * b.toNat) / 1024 := by
  have hr := r.toNat_lt
  have hg := g.toNat_lt
  have hb := b.toNat_lt
  rw [luminance, Nat.shiftRight_eq_div_pow]
  -- the weights add up to `1024`
  exact UInt16.toNat_ofNat_of_lt' (show _ < 2 ^ 16 by omega)

def SamplePtr.advance (ptr : SamplePtr) (k : Nat) : SamplePtr := { ptr with pos := ptr.pos + k }

theorem SamplePtr.next_advance {ptr : SamplePtr} {k : Nat} (h : ptr.pos + k < ptr.image.size) :
    (ptr.advance k).next =
      .ok (ptr.image.cell (ptr.pos + k), ptr.advance (k + 1)) := by
  rw [SamplePtr.next, show (ptr.advance k).image = ptr.image from rfl,
    show (ptr.advance k).pos = ptr.pos + k from rfl, Cells.load_eq h]
  rfl

def Planes.advance (inImg : Planes) (k : Nat) : Planes where
  red := inImg.red.advance k
  green := inImg.green.advance k
  blue := inImg.blue.advance k

/-- The luminance image is complete, and the pointer stands behind it. -/
theorem luminanceLoop_spec {inImg : Planes} (hin : inImg.Holds n) (image : Cells UInt16)
    (hsize : image.size = n) :
    ∃ st, forTo n (fun _ => luminancePass) (inImg, { image }) = .ok st ∧
      st.1 = inImg.advance n ∧ st.2.pos = n ∧ st.2.image.size = n ∧
      ∀ i < n, (st.2.image.cell i).toNat =
        (218 * inImg.red.sample i + 732 * inImg.green.sample i + 74 * inImg.blue.sample i) /
          1024 := by
  refine forTo_invariant (I := fun k (st : Planes × SamplePtr) => st.1 = inImg.advance k ∧
    st.2.pos = k ∧ st.2.image.size = n ∧ ∀ i < k, (st.2.image.cell i).toNat =
      (218 * inImg.red.sample i + 732 * inImg.green.sample i + 74 * inImg.blue.sample i) / 1024)
    ⟨rfl, rfl, hsize, fun i hi => absurd hi (Nat.not_lt_zero i)⟩ ?_
  rintro k hk ⟨planes, ⟨image, pos⟩⟩ ⟨hplanes, hpos, himage, hcells⟩
  dsimp only at hplanes hpos himage hcells
  subst hplanes hpos
  have hred := hin.red
  have hgreen := hin.green
  have hblue := hin.blue
  let value := luminance (inImg.red.image.cell (inImg.red.pos + pos))
    (inImg.green.image.cell (inImg.green.pos + pos)) (inImg.blue.image.cell (inImg.blue.pos + pos))
  have hstore : (⟨image, pos⟩ : SamplePtr).emit value = .ok ⟨image.put pos value, pos + 1⟩ := by
    rw [SamplePtr.emit, Cells.store_eq (show pos < image.size by omega)]
    rfl
  refine ⟨(inImg.advance (pos + 1), ⟨image.put pos value, pos + 1⟩), ?_, rfl, rfl, himage, ?_⟩
  · rw [luminancePass]
    dsimp only [Planes.advance]
    rw [SamplePtr.next_advance (by omega), SamplePtr.next_advance (by omega),
      SamplePtr.next_advance (by omega), ok_bind, ok_bind, ok_bind, hstore, ok_bind]
  · intro i hi
    by_cases hlast : i = pos
    · subst hlast
      rw [Cells.cell_put_self, luminance_toNat]
      rfl
    · rw [Cells.cell_put_of_ne hlast]
      exact hcells i (by omega)

theorem handsLuminance_iff {inImg : Planes} (hmalloc : malloc (params.pixels * 2) = some contents)
    (hdepth : 8 ≤ params.depth ∧ params.depth ≤ 16) (hformat : params.format = .gray)
    (hin : inImg.Holds params.pixels) :
    HandsLuminance malloc params inImg ↔ params.pixels = 0 := by
  obtain ⟨st, hloop, -, hpos, hsize, hcells⟩ := luminanceLoop_spec hin
    { size := params.pixels, cell := contents } rfl
  have hrun : saneiIrRGBLuminance malloc params inImg =
      .ok { status := .good, inImg := st.1, outImg := some st.2 } := by
    rw [saneiIrRGBLuminance, if_neg (by
      rintro (hlow | hhigh | hother)
      · omega
      · omega
      · exact hother hformat)]
    dsimp only
    rw [hmalloc]
    dsimp only
    rw [hloop]
    rfl
  constructor
  · rintro ⟨result, outi, hresult, -, hout, haddresses⟩
    rw [hrun] at hresult
    rw [← Except.ok.inj hresult] at hout
    rw [← Option.some.inj hout] at haddresses
    exact hpos ▸ haddresses.first
  · intro hnone
    exact ⟨_, st.2, hrun, rfl, rfl, hpos.trans hnone, hsize, hcells⟩

/-! ## Eight bits -/

/-- Each pass moves the pointer by two samples, and has one of them. -/
theorem to8bitPass_ok {outi outi' : SamplePtr} (h : to8bitPass shift outi = .ok outi') :
    outi.pos < outi.image.size ∧ outi'.pos = outi.pos + 2 ∧
      outi'.image.size = outi.image.size := by
  rw [to8bitPass] at h
  obtain ⟨sample, hload, h⟩ := bind_eq_ok.mp h
  obtain ⟨image, hstore, h⟩ := bind_eq_ok.mp h
  rw [← Except.ok.inj h, (Cells.store_ok hstore).2]
  exact ⟨(Cells.load_ok hload).1, rfl, rfl⟩

theorem to8bitLoop_ok {outi outi' : SamplePtr}
    (h : forTo n (fun _ => to8bitPass shift) outi = .ok outi') :
    outi'.pos = outi.pos + 2 * n ∧ outi'.image.size = outi.image.size ∧
      (0 < n → outi.pos + 2 * (n - 1) < outi.image.size) := by
  refine forTo_ok (I := fun k (ptr : SamplePtr) => ptr.pos = outi.pos + 2 * k ∧
    ptr.image.size = outi.image.size ∧ (0 < k → outi.pos + 2 * (k - 1) < outi.image.size)) h
    ⟨rfl, rfl, fun hk => absurd hk (Nat.lt_irrefl 0)⟩ ?_
  rintro k - ptr ptr' ⟨hpos, hsize, -⟩ hpass
  obtain ⟨hlt, hpos', hsize'⟩ := to8bitPass_ok hpass
  refine ⟨by omega, hsize'.trans hsize, fun _ => ?_⟩
  rw [Nat.add_sub_cancel]
  omega

theorem saneiIrTo8bit_eq {inImg image : Cells UInt16} (outParams : Option ImageParams)
    (hmalloc : malloc (params.sampleCount * 2) = some contents)
    (hdepth : 8 ≤ params.depth ∧ params.depth ≤ 16)
    (hcopy : Cells.copy { size := params.sampleCount, cell := contents } inImg params.sampleCount =
      .ok image) :
    saneiIrTo8bit malloc params inImg outParams = (do
      let outi ← forTo params.sampleCount (fun _ => to8bitPass (params.depth - 8)) { image }
      .ok {
        status := .good
        outParams := outParams.map fun _ =>
          { params with
            bytesPerLine :=
              if params.format = .rgb then params.pixelsPerLine * 3 else params.pixelsPerLine
            depth := 8 }
        outImg := some outi }) := by
  rw [saneiIrTo8bit, if_neg (by omega)]
  dsimp only
  rw [hmalloc]
  dsimp only
  rw [hcopy, ok_bind]

theorem hands8bit_iff {inImg : Cells UInt16} {outParams : Option ImageParams}
    (hmalloc : malloc (params.sampleCount * 2) = some contents)
    (hdepth : 8 ≤ params.depth ∧ params.depth ≤ 16) (hin : inImg.size = params.sampleCount) :
    Hands8bit malloc params inImg outParams ↔ params.sampleCount = 0 := by
  have hblock : params.sampleCount ≤ (⟨params.sampleCount, contents⟩ : Cells UInt16).size :=
    Nat.le_refl _
  obtain ⟨image, hcopy, hsize, -, -⟩ := Cells.copy_spec hblock (Nat.le_of_eq hin.symm)
  have hrun := saneiIrTo8bit_eq outParams hmalloc hdepth hcopy
  constructor
  · rintro ⟨result, outi, hresult, -, hout, haddresses⟩
    rw [hrun] at hresult
    obtain ⟨outi', hloop, hresult⟩ := bind_eq_ok.mp hresult
    rw [← Except.ok.inj hresult] at hout
    have hfirst := haddresses.first
    rw [← Option.some.inj hout, (to8bitLoop_ok hloop).1] at hfirst
    omega
  · intro hnone
    rw [hnone] at hrun
    refine ⟨_, { image }, hrun, rfl, rfl, rfl, hsize, fun i hi => ?_⟩
    rw [hnone] at hi
    exact absurd hi (Nat.not_lt_zero i)

/-! ## Both -/

/-- The image that is handed back begins where it should only if it has no samples. -/
theorem handsBack_iff_empty (inImg : Planes) (img : Cells UInt16) (outParams : Option ImageParams)
    (hmalloc : ∀ bytes, malloc bytes = some contents)
    (hdepth : 8 ≤ params.depth ∧ params.depth ≤ 16) (himg : img.size = params.sampleCount)
    (hplanes : inImg.Holds params.pixels) :
    (Hands8bit malloc params img outParams ↔ params.sampleCount = 0) ∧
      (params.format = .gray →
        (HandsLuminance malloc params inImg ↔ params.pixels = 0)) :=
  ⟨hands8bit_iff (hmalloc _) hdepth himg, fun hformat =>
    handsLuminance_iff (hmalloc _) hdepth hformat hplanes⟩

/-- Two grey pixels of 16 bits. -/
def twoPixels : ImageParams where
  bytesPerLine := 4
  pixelsPerLine := 2
  lines := 1
  depth := 16

def twoSamples : Cells UInt16 where
  size := 2
  cell := fun _ => 0x1234

def twoPlanes : Planes where
  red := { image := twoSamples }
  green := { image := twoSamples }
  blue := { image := twoSamples }

theorem handsBack_iff_empty_twoPixels :
    (Hands8bit (fun _ => some fun _ => 0) twoPixels twoSamples none ↔ twoPixels.sampleCount = 0) ∧
      (twoPixels.format = .gray →
        (HandsLuminance (fun _ => some fun _ => 0) twoPixels twoPlanes ↔ twoPixels.pixels = 0)) :=
  handsBack_iff_empty twoPlanes twoSamples none (fun _ => rfl) (by decide) (by decide)
    ⟨by decide, by decide, by decide⟩

theorem not_handsBack_twoPixels :
    ¬ Hands8bit (fun _ => some fun _ => 0) twoPixels twoSamples none ∧
      ¬ HandsLuminance (fun _ => some fun _ => 0) twoPixels twoPlanes := by
  constructor
  · intro hhands
    exact absurd ((hands8bit_iff rfl (by decide) (by decide)).mp hhands) (by decide)
  · intro hhands
    exact absurd ((handsLuminance_iff rfl (by decide) rfl
      ⟨by decide, by decide, by decide⟩).mp hhands) (by decide)

end SaneBackends.Sanei
