import SaneBackends.Genesys.PipelineSize
/-!
# When the image has the size the frontend asked for

What `compute_session` leaves in a session, the pipelines that `build_image_pipeline` makes of it,
and the exact condition under which the two agree on the size of the image.
-/

namespace SaneBackends.Genesys

open SaneBackends.Lib

/-! ## The session -/

theorem require_eq_ok {condition : Bool} {failure : Failure} {u : Unit} :
    require condition failure = .ok u ↔ condition = true := by
  unfold require
  split
  · simp_all
  · simp_all

/-- What a computed session says about lines. -/
structure LinesOf (dev : Device) (sensor : Sensor) (s s' : ScanSession) : Prop where
  depth : s.params.depth = 8 ∨ s.params.depth = 16
  depthKept : s'.params.depth = s.params.depth
  lines : s'.params.lines = s.params.lines
  channels : s'.params.channels = (sessionParams dev s.params).channels
  staggerY : s'.staggerY = sensor.staggerY
  staggered : numStaggeredLines sensor (sessionParams dev s.params) = .ok s'.numStaggeredLines
  shiftR : colorShiftLines dev (sessionParams dev s.params) dev.model.ldShiftR =
    .ok s'.colorShiftLinesR
  shiftG : colorShiftLines dev (sessionParams dev s.params) dev.model.ldShiftG =
    .ok s'.colorShiftLinesG
  shiftB : colorShiftLines dev (sessionParams dev s.params) dev.model.ldShiftB =
    .ok s'.colorShiftLinesB
  maxShift : s'.maxColorShiftLines = maxColorShiftLines (sessionParams dev s.params)
    s'.colorShiftLinesR s'.colorShiftLinesG s'.colorShiftLinesB
  count : s'.opticalLineCount =
    if dev.model.isCis then
      (s.params.lines + s'.maxColorShiftLines + s'.numStaggeredLines) * s'.params.channels
    else s.params.lines + s'.maxColorShiftLines + s'.numStaggeredLines
  gray : s'.useHostSideGray = (hostSideGray dev s.params || s.useHostSideGray)

theorem sessionParams_lines (dev : Device) (params : SetupParams) :
    (sessionParams dev params).lines = params.lines := by
  unfold sessionParams
  split <;> rfl

theorem sessionParams_depth (dev : Device) (params : SetupParams) :
    (sessionParams dev params).depth = params.depth := by
  unfold sessionParams
  split <;> rfl

theorem linesOf_computeSession {dev : Device} {sensor : Sensor} {s s' : ScanSession}
    (h : computeSession dev s sensor = .ok s') : LinesOf dev sensor s s' := by
  unfold computeSession at h
  obtain ⟨_, hvalid, h⟩ := bind_eq_ok.mp h
  obtain ⟨_, hdepth, h⟩ := bind_eq_ok.mp h
  obtain ⟨_, hresolution, h⟩ := bind_eq_ok.mp h
  obtain ⟨outputPixels, houtput, h⟩ := bind_eq_ok.mp h
  obtain ⟨opticalPixels, hoptical, h⟩ := bind_eq_ok.mp h
  obtain ⟨outputStartx, hstartx, h⟩ := bind_eq_ok.mp h
  obtain ⟨staggered, hstaggered, h⟩ := bind_eq_ok.mp h
  obtain ⟨shiftR, hshiftR, h⟩ := bind_eq_ok.mp h
  obtain ⟨shiftG, hshiftG, h⟩ := bind_eq_ok.mp h
  obtain ⟨shiftB, hshiftB, h⟩ := bind_eq_ok.mp h
  obtain ⟨raw, hraw, h⟩ := bind_eq_ok.mp h
  obtain ⟨groupCount, hgroup, h⟩ := bind_eq_ok.mp h
  obtain ⟨⟨pixelStartx, pixelEndx⟩, hoffsets, h⟩ := bind_eq_ok.mp h
  rw [pure_eq_ok] at h
  subst h
  have hparams : ∀ (c : Prop) [Decidable c] (params : SetupParams),
      (if c then { params with flags := { params.flags with disableGamma := true } }
        else params).lines = params.lines ∧
      (if c then { params with flags := { params.flags with disableGamma := true } }
        else params).depth = params.depth ∧
      (if c then { params with flags := { params.flags with disableGamma := true } }
        else params).channels = params.channels := by
    intro c _ params
    split <;> exact ⟨rfl, rfl, rfl⟩
  rw [require_eq_ok] at hdepth
  exact
    { depth := by simpa using hdepth
      depthKept := (hparams _ _).2.1.trans (sessionParams_depth dev s.params)
      lines := (hparams _ _).1.trans (sessionParams_lines dev s.params)
      channels := (hparams _ _).2.2
      staggerY := rfl
      staggered := hstaggered
      shiftR := hshiftR
      shiftG := hshiftG
      shiftB := hshiftB
      maxShift := rfl
      count := by
        rw [(hparams _ _).2.2, sessionParams_lines]
      gray := rfl }

/-! ## The pipeline -/

/-- The table of formats has the one the device sends. -/
def Model.Readable (model : Model) (channels : UInt32) : Prop :=
  if model.isCis then model.lineModeColorOrder = .rgb
  else (channels = 1 ∧ model.lineModeColorOrder = .rgb) ∨
    (channels = 3 ∧ model.lineModeColorOrder ≠ .gbr)

/-- The formats of samples after the order of their colours is settled. -/
def SampleFormat (channels : UInt32) (format : PixelFormat) : Prop :=
  if channels = 3 then format.isRgb else format.isGray

theorem createPixelFormat_gray {depth : UInt32} (hdepth : depth = 8 ∨ depth = 16) :
    ∃ format, createPixelFormat depth 1 .rgb = .ok format ∧ format.isGray := by
  rcases hdepth with rfl | rfl
  · exact ⟨.i8, rfl, .inl rfl⟩
  · exact ⟨.i16, rfl, .inr rfl⟩

theorem createPixelFormat_color {depth : UInt32} {order : ColorOrder}
    (hdepth : depth = 8 ∨ depth = 16) (horder : order ≠ .gbr) :
    ∃ format, createPixelFormat depth 3 order = .ok format ∧ (format.isRgb ∨ format.isBgr) := by
  rcases hdepth with rfl | rfl <;> cases order
  · exact ⟨.rgb888, rfl, .inl (.inl rfl)⟩
  · exact absurd rfl horder
  · exact ⟨.bgr888, rfl, .inr (.inl rfl)⟩
  · exact ⟨.rgb161616, rfl, .inl (.inr rfl)⟩
  · exact absurd rfl horder
  · exact ⟨.bgr161616, rfl, .inr (.inr rfl)⟩

theorem channels_of_createPixelFormat {depth channels : UInt32} {order : ColorOrder}
    {format : PixelFormat} (h : createPixelFormat depth channels order = .ok format) :
    (channels = 1 ∧ order = .rgb) ∨ (channels = 3 ∧ order ≠ .gbr) := by
  unfold createPixelFormat at h
  split at h
  · rename_i desc hdesc
    have hmatch := List.find?_some hdesc
    have hmem := List.mem_of_find?_eq_some hdesc
    simp only [Bool.and_eq_true, beq_iff_eq] at hmatch
    obtain ⟨⟨-, hchannels⟩, horder⟩ := hmatch
    rw [← horder]
    have hone : desc.channels = 1 → channels = 1 := fun h1 =>
      UInt32.toNat_inj.mp (hchannels.symm.trans h1)
    have hthree : desc.channels = 3 → channels = 3 := fun h3 =>
      UInt32.toNat_inj.mp (hchannels.symm.trans h3)
    have htable : ∀ desc ∈ knownPixelFormats,
        (desc.channels = 1 ∧ desc.order = .rgb) ∨ (desc.channels = 3 ∧ desc.order ≠ .gbr) := by
      decide
    exact (htable desc hmem).imp (And.imp_left hone) (And.imp_left hthree)
  · exact nomatch h

/-- The format of the device, if the table has it. -/
def deviceFormat (dev : Device) (session : ScanSession) : Except Failure PixelFormat :=
  createPixelFormat session.params.depth
    (if dev.model.isCis then 1 else session.params.channels) dev.model.lineModeColorOrder

section Pipelines

variable {dev : Device} {session : ScanSession}

theorem readable_of_deviceFormat {format : PixelFormat}
    (h : deviceFormat dev session = .ok format) : dev.model.Readable session.params.channels := by
  have hchannels := channels_of_createPixelFormat h
  unfold Model.Readable
  split_ifs with hcis
  · rw [if_pos hcis] at hchannels
    rcases hchannels with ⟨-, horder⟩ | ⟨hthree, -⟩
    · exact horder
    · exact absurd hthree (by decide)
  · rwa [if_neg hcis] at hchannels

theorem deviceFormat_of_readable (hdepth : session.params.depth = 8 ∨ session.params.depth = 16)
    (h : dev.model.Readable session.params.channels) :
    ∃ format, deviceFormat dev session = .ok format ∧
      (format.isGray ∧ (dev.model.isCis ∨ session.params.channels ≠ 3) ∧
          dev.model.lineModeColorOrder = .rgb ∨
        (format.isRgb ∨ format.isBgr) ∧ ¬dev.model.isCis ∧ session.params.channels = 3) := by
  unfold Model.Readable at h
  unfold deviceFormat
  by_cases hcis : dev.model.isCis
  · rw [if_pos hcis] at h
    obtain ⟨format, hformat, hgray⟩ := createPixelFormat_gray hdepth
    rw [if_pos hcis, h]
    exact ⟨format, hformat, .inl ⟨hgray, .inl hcis, rfl⟩⟩
  · rw [if_neg hcis] at h ⊢
    rcases h with ⟨hone, horder⟩ | ⟨hthree, horder⟩
    · obtain ⟨format, hformat, hgray⟩ := createPixelFormat_gray hdepth
      rw [hone, horder]
      exact ⟨format, hformat, .inl ⟨hgray, .inr (by decide), rfl⟩⟩
    · obtain ⟨format, hformat, hcolor⟩ := createPixelFormat_color hdepth horder
      rw [hthree]
      exact ⟨format, hformat, .inr ⟨hcolor, hcis, rfl⟩⟩

/-- The rows of the device once the rows of single colours are merged. -/
def mergedRows (dev : Device) (session : ScanSession) : Nat :=
  if dev.model.isCis ∧ session.params.channels = 3 then session.opticalLineCount.toNat / 3
  else session.opticalLineCount.toNat

theorem mergeMonoLines_sample {format : PixelFormat} {pipeline : Stack} (build : Build)
    (h : Stands (· = format) session.opticalLineCount.toNat pipeline)
    (hformat : format.isGray ∧ (dev.model.isCis ∨ session.params.channels ≠ 3) ∧
        dev.model.lineModeColorOrder = .rgb ∨
      (format.isRgb ∨ format.isBgr) ∧ ¬dev.model.isCis ∧ session.params.channels = 3) :
    ∃ pipeline', mergeMonoLines build dev session pipeline = .ok pipeline' ∧
      Stands (SampleFormat session.params.channels) (mergedRows dev session)
        (orderColors build pipeline') := by
  have hweaken : ∀ {formats : PixelFormat → Prop}, formats format →
      Stands formats session.opticalLineCount.toNat pipeline := fun hf =>
    ⟨h.height, by rw [h.format]; exact hf, h.fed⟩
  rcases hformat with ⟨hgray, hsingle, horder⟩ | ⟨hcolor, hccd, hthree⟩
  · by_cases hmono : dev.model.isCis ∧ session.params.channels = 3
    · obtain ⟨pipeline', hmerge, hstands⟩ :=
        mergeMonoLines_stands build (hweaken hgray) hmono.1 hmono.2 horder
      refine ⟨pipeline', hmerge, ?_⟩
      have hrgb := orderColors_stands build ⟨hstands.height, .inl hstands.format, hstands.fed⟩
      rw [mergedRows, if_pos hmono, show SampleFormat session.params.channels = PixelFormat.isRgb
        from funext fun _ => if_pos hmono.2]
      exact hrgb
    · have hchannels : session.params.channels ≠ 3 := by
        rcases hsingle with hcis | hne
        · exact fun hthree => hmono ⟨hcis, hthree⟩
        · exact hne
      refine ⟨pipeline, by rw [mergeMonoLines, if_neg hmono], ?_⟩
      rw [mergedRows, if_neg hmono, show SampleFormat session.params.channels = PixelFormat.isGray
        from funext fun _ => if_neg hchannels]
      exact orderColors_gray build (hweaken hgray)
  · have hmono : ¬(dev.model.isCis ∧ session.params.channels = 3) := fun h => hccd h.1
    refine ⟨pipeline, by rw [mergeMonoLines, if_neg hmono], ?_⟩
    rw [mergedRows, if_neg hmono, show SampleFormat session.params.channels = PixelFormat.isRgb
      from funext fun _ => if_pos hthree]
    exact orderColors_stands build (hweaken hcolor)

/-- The rows that a pipeline made from a session delivers. -/
def deliveredRows (dev : Device) (session : ScanSession) : Nat :=
  mergedRows dev session - colorRowsTaken session - staggerRowsTaken session

theorem depth_of_deviceFormat {format : PixelFormat} (width : Nat)
    (hformat : format.isGray ∨ format.isRgb ∨ format.isBgr) :
    ∃ depth pixels, getPixelFormatDepth format = .ok depth ∧
      getPixelsFromRowBytes format width = .ok pixels := by
  rcases hformat with (rfl | rfl) | (rfl | rfl) | (rfl | rfl)
  all_goals exact ⟨_, _, rfl, rfl⟩

/-- The pipeline up to the node that makes a colour image gray. -/
theorem buildImagePipeline_made (build : Build)
    (hdepth : session.params.depth = 8 ∨ session.params.depth = 16)
    (hreadable : dev.model.Readable session.params.channels) :
    ∃ pipeline, Stands (SampleFormat session.params.channels) (deliveredRows dev session) pipeline ∧
      buildImagePipeline build dev session = pushScale session <$> pushGray build session pipeline := by
  obtain ⟨format, hformat, hkind⟩ := deviceFormat_of_readable hdepth hreadable
  obtain ⟨depth, width, hbits, hwidth⟩ := depth_of_deviceFormat
    session.outputLineBytesRaw.toNat (hkind.imp And.left And.left)
  obtain ⟨first, hfirst, hstands⟩ := pushDesegment_stands build dev session
    (pushSource_stands build session format width)
  obtain ⟨merged, hmerged, hordered⟩ := mergeMonoLines_sample build
    (pushSamples_stands build dev depth hstands) hkind
  obtain ⟨colored, hcolored, hshifted⟩ := undoColorShift_stands build hordered
    fun hthree format hsample => by rwa [SampleFormat, if_pos hthree] at hsample
  refine ⟨_, pushCalibrate_stands build dev session
    (undoStaggerY_stands build session (undoStaggerX_stands build session hshifted)), ?_⟩
  unfold deviceFormat at hformat
  simp only [buildImagePipeline, hformat, hbits, hwidth, hfirst, hmerged, hcolored, ok_bind]
  rfl

theorem buildImagePipeline_ok (build : Build)
    (hdepth : session.params.depth = 8 ∨ session.params.depth = 16)
    (hreadable : dev.model.Readable session.params.channels)
    (hgray : session.useHostSideGray → session.params.channels = 3) :
    ∃ pipeline, buildImagePipeline build dev session = .ok pipeline ∧
      Stands (fun _ => True) (deliveredRows dev session) pipeline ∧
      pipeline.outputWidth = session.params.getRequestedPixels.toNat := by
  obtain ⟨pipeline, hstands, hbuild⟩ := buildImagePipeline_made build hdepth hreadable
  obtain ⟨grayed, hgrayed, hstands'⟩ := pushGray_stands build hstands
    fun h format hsample => by rwa [SampleFormat, if_pos (hgray h)] at hsample
  refine ⟨pushScale session grayed, ?_, pushScale_stands session hstands', pushScale_width session grayed⟩
  rw [hbuild, hgrayed]
  rfl

theorem readable_of_buildImagePipeline {build : Build} {pipeline : Stack}
    (hdepth : session.params.depth = 8 ∨ session.params.depth = 16)
    (h : buildImagePipeline build dev session = .ok pipeline) :
    dev.model.Readable session.params.channels ∧
      (session.useHostSideGray → session.params.channels = 3) := by
  have hreadable : dev.model.Readable session.params.channels := by
    obtain ⟨format, hformat, -⟩ := bind_eq_ok.mp h
    exact readable_of_deviceFormat hformat
  refine ⟨hreadable, fun hgray => ?_⟩
  obtain ⟨made, hstands, hbuild⟩ := buildImagePipeline_made build hdepth hreadable
  by_contra hchannels
  have hsample : Stands PixelFormat.isGray (deliveredRows dev session) made := by
    refine ⟨hstands.height, ?_, hstands.fed⟩
    have hformat := hstands.format
    rwa [SampleFormat, if_neg hchannels] at hformat
  obtain ⟨failure, hrefuses⟩ := pushGray_refuses build hsample hgray
  rw [hbuild, hrefuses] at h
  exact nomatch h

/-- Whatever is built stands on what the device sends. -/
theorem stands_of_buildImagePipeline {build : Build} {pipeline : Stack}
    (hdepth : session.params.depth = 8 ∨ session.params.depth = 16)
    (h : buildImagePipeline build dev session = .ok pipeline) :
    Stands (fun _ => True) (deliveredRows dev session) pipeline := by
  obtain ⟨hreadable, hgray⟩ := readable_of_buildImagePipeline hdepth h
  obtain ⟨made, hmade, hstands, -⟩ := buildImagePipeline_ok build hdepth hreadable hgray
  rw [h, Except.ok.injEq] at hmade
  exact hmade ▸ hstands

end Pipelines

/-! ## Lines that are added and rows that are taken away -/

/-- A number of lines, 0 where there is none. -/
def linesOr0 : Except Failure UInt32 → UInt32
  | .ok lines => lines
  | .error _ => 0

/-- The lines a session has for the shifts of colours. -/
def extraColorLines (dev : Device) (params : SetupParams) : Nat :=
  (maxColorShiftLines params (linesOr0 (colorShiftLines dev params dev.model.ldShiftR))
    (linesOr0 (colorShiftLines dev params dev.model.ldShiftG))
    (linesOr0 (colorShiftLines dev params dev.model.ldShiftB))).toNat

/-- The lines a session has for the vertical stagger. -/
def extraStaggerLines (sensor : Sensor) (params : SetupParams) : Nat :=
  (linesOr0 (numStaggeredLines sensor params)).toNat

/-- There is one channel or there are three, and the count of the lines does not wrap. -/
def Regular (dev : Device) (sensor : Sensor) (params : SetupParams) : Prop :=
  (params.channels = 1 ∨ params.channels = 3) ∧
    (params.lines.toNat + extraColorLines dev params + extraStaggerLines sensor params) *
      (if dev.model.isCis then params.channels.toNat else 1) < 2 ^ 32

instance (dev : Device) (sensor : Sensor) (params : SetupParams) :
    Decidable (Regular dev sensor params) :=
  inferInstanceAs (Decidable (_ ∧ _))

/-- The rows that are left of a count that may wrap, once rows of single colours are merged. -/
def wrappedRows (dev : Device) (sensor : Sensor) (params : SetupParams) : Nat :=
  let lines :=
    (params.lines.toNat + extraColorLines dev params + extraStaggerLines sensor params) % 2 ^ 32
  if dev.model.isCis then
    lines * params.channels.toNat % 2 ^ 32 / (if params.channels = 3 then 3 else 1)
  else lines

/-- The rows that the shifting nodes take away. -/
def takenRows (dev : Device) (sensor : Sensor) (params : SetupParams) : Nat :=
  (if params.channels = 3 then extraColorLines dev params else 0) +
    (if extraStaggerLines sensor params > 0 then sensor.staggerY.maxShift.toNat else 0)

/-- The stagger at the resolutions of the scan is none, or the largest shift of the sensor.
An empty image may also lose more rows than were added. A count that wraps has to come out right
by chance. -/
def RowsAccounted (dev : Device) (sensor : Sensor) (params : SetupParams) : Prop :=
  if Regular dev sensor params then
    extraStaggerLines sensor params = 0 ∨
      extraStaggerLines sensor params = sensor.staggerY.maxShift.toNat ∨
      (params.lines = 0 ∧ extraStaggerLines sensor params ≤ sensor.staggerY.maxShift.toNat)
  else
    wrappedRows dev sensor params = params.lines.toNat + takenRows dev sensor params ∨
      (params.lines = 0 ∧ wrappedRows dev sensor params ≤ takenRows dev sensor params)

section Counting

variable {dev : Device} {sensor : Sensor} {s s' : ScanSession}

theorem LinesOf.extraStaggerLines_eq (h : LinesOf dev sensor s s') :
    extraStaggerLines sensor (sessionParams dev s.params) = s'.numStaggeredLines.toNat := by
  rw [extraStaggerLines, h.staggered, linesOr0]

theorem LinesOf.extraColorLines_eq (h : LinesOf dev sensor s s') :
    extraColorLines dev (sessionParams dev s.params) = s'.maxColorShiftLines.toNat := by
  rw [extraColorLines, h.shiftR, h.shiftG, h.shiftB, h.maxShift]
  rfl

theorem LinesOf.wrappedRows_eq (h : LinesOf dev sensor s s') :
    mergedRows dev s' = wrappedRows dev sensor (sessionParams dev s.params) := by
  unfold mergedRows wrappedRows
  simp only [h.extraColorLines_eq, h.extraStaggerLines_eq, h.channels, h.count,
    sessionParams_lines]
  by_cases hcis : dev.model.isCis
  · simp only [hcis, true_and, if_true]
    split_ifs with hthree
    · simp [UInt32.toNat_add, UInt32.toNat_mul, Nat.add_mod]
    · simp [UInt32.toNat_add, UInt32.toNat_mul, Nat.add_mod]
  · simp [hcis, UInt32.toNat_add, Nat.add_mod]

theorem maxColorShiftLines_pos {params : SetupParams} {r g b : UInt32}
    (h : maxColorShiftLines params r g b > 0) :
    maxColorShiftLines params r g b = [r, g, b].foldl max 0 := by
  unfold maxColorShiftLines at h ⊢
  split_ifs at h ⊢ with hshift
  · apply UInt32.toNat_inj.mp
    simp only [List.foldl_cons, List.foldl_nil, UInt32.toNat_max, UInt32.toNat_zero]
    omega
  · exact absurd h (by decide)

theorem LinesOf.colorRowsTaken_eq (h : LinesOf dev sensor s s') :
    colorRowsTaken s' =
      if (sessionParams dev s.params).channels = 3 then
        extraColorLines dev (sessionParams dev s.params)
      else 0 := by
  rw [colorRowsTaken, h.channels, h.extraColorLines_eq]
  by_cases hthree : (sessionParams dev s.params).channels = 3
  · by_cases hshift : s'.maxColorShiftLines > 0
    · rw [if_pos ⟨hshift, hthree⟩, if_pos hthree]
      rw [h.maxShift] at hshift ⊢
      rw [maxColorShiftLines_pos hshift]
    · rw [if_neg (fun hboth => hshift hboth.1), if_pos hthree]
      have hzero : s'.maxColorShiftLines = 0 := by
        simpa [UInt32.pos_iff_ne_zero] using hshift
      rw [hzero]
      rfl
  · rw [if_neg (fun hboth => hthree hboth.2), if_neg hthree]

theorem LinesOf.staggerRowsTaken_eq (h : LinesOf dev sensor s s') :
    staggerRowsTaken s' =
      if extraStaggerLines sensor (sessionParams dev s.params) > 0 then
        sensor.staggerY.maxShift.toNat
      else 0 := by
  rw [staggerRowsTaken, h.extraStaggerLines_eq, h.staggerY]
  rfl

theorem LinesOf.deliveredRows_eq (h : LinesOf dev sensor s s') :
    deliveredRows dev s' = wrappedRows dev sensor (sessionParams dev s.params) -
      takenRows dev sensor (sessionParams dev s.params) := by
  rw [deliveredRows, h.wrappedRows_eq, h.colorRowsTaken_eq, h.staggerRowsTaken_eq, takenRows,
    Nat.sub_sub]

theorem extraColorLines_single {params : SetupParams} (h : params.channels = 1) :
    extraColorLines dev params = 0 := by
  rw [extraColorLines, maxColorShiftLines, if_neg]
  · rfl
  · rw [h]
    exact fun hboth => absurd hboth.1 (by decide)

/-- Nothing is lost in counting: the rows are the lines, and what was added to them. -/
theorem wrappedRows_regular {params : SetupParams} (h : Regular dev sensor params) :
    wrappedRows dev sensor params =
      params.lines.toNat + extraColorLines dev params + extraStaggerLines sensor params := by
  obtain ⟨hchannels, hfits⟩ := h
  unfold wrappedRows
  by_cases hcis : dev.model.isCis
  · simp only [hcis, if_true] at hfits ⊢
    rcases hchannels with hone | hthree
    · have hne : params.channels ≠ 3 := by rw [hone]; decide
      have htoNat : params.channels.toNat = 1 := by rw [hone]; rfl
      rw [if_neg hne, htoNat, Nat.div_one]
      rw [htoNat] at hfits
      omega
    · have htoNat : params.channels.toNat = 3 := by rw [hthree]; rfl
      rw [if_pos hthree, htoNat]
      rw [htoNat] at hfits
      omega
  · simp only [hcis, if_false, Bool.false_eq_true, Nat.mul_one] at hfits ⊢
    omega

theorem takenRows_regular {params : SetupParams} (h : Regular dev sensor params) :
    takenRows dev sensor params = extraColorLines dev params +
      (if extraStaggerLines sensor params > 0 then sensor.staggerY.maxShift.toNat else 0) := by
  rw [takenRows]
  rcases h.1 with hone | hthree
  · rw [extraColorLines_single hone, ite_self]
  · rw [if_pos hthree]

theorem LinesOf.deliveredRows_iff (h : LinesOf dev sensor s s') :
    deliveredRows dev s' = s'.params.lines.toNat ↔
      RowsAccounted dev sensor (sessionParams dev s.params) := by
  have hlines : s'.params.lines.toNat = (sessionParams dev s.params).lines.toNat := by
    rw [h.lines, sessionParams_lines]
  have hzero : (sessionParams dev s.params).lines = 0 ↔
      (sessionParams dev s.params).lines.toNat = 0 := by
    rw [← UInt32.toNat_inj, UInt32.toNat_zero]
  rw [h.deliveredRows_eq, hlines]
  unfold RowsAccounted
  rw [hzero]
  split_ifs with hregular
  · rw [wrappedRows_regular hregular, takenRows_regular hregular]
    split_ifs <;> omega
  · omega

end Counting

/-! ## The image -/

/-- The image of a session is delivered: the pipeline is made, and it has the lines and the pixels
of the parameters. -/
def Delivers (build : Build) (dev : Device) (session : ScanSession) : Prop :=
  ∃ pipeline, buildImagePipeline build dev session = .ok pipeline ∧
    pipeline.outputHeight = session.params.lines.toNat ∧
    pipeline.outputWidth = session.params.getRequestedPixels.toNat

/-- The device sends a format of the table, gray is made of colours only, and the rows that are
taken away are those that were added. -/
def Accounted (dev : Device) (sensor : Sensor) (s : ScanSession) : Prop :=
  dev.model.Readable (sessionParams dev s.params).channels ∧
    (s.useHostSideGray → (sessionParams dev s.params).channels = 3) ∧
    RowsAccounted dev sensor (sessionParams dev s.params)

theorem hostSideGray_channels {dev : Device} {params : SetupParams}
    (h : hostSideGray dev params = true) : (sessionParams dev params).channels = 3 := by
  rw [sessionParams, if_pos h]

theorem image_delivered_iff (build : Build) {dev : Device} {sensor : Sensor} {s s' : ScanSession}
    (h : computeSession dev s sensor = .ok s') :
    Delivers build dev s' ↔ Accounted dev sensor s := by
  have hlines := linesOf_computeSession h
  have hdepth : s'.params.depth = 8 ∨ s'.params.depth = 16 := by
    rw [hlines.depthKept]
    exact hlines.depth
  have hgray : (s'.useHostSideGray → s'.params.channels = 3) ↔
      (s.useHostSideGray → (sessionParams dev s.params).channels = 3) := by
    rw [hlines.gray, hlines.channels]
    constructor
    · intro himp hs
      exact himp (by simp [hs])
    · intro himp hs
      rcases Bool.or_eq_true_iff.mp hs with hhost | hbefore
      · exact hostSideGray_channels hhost
      · exact himp hbefore
  unfold Accounted
  rw [← hgray, ← hlines.channels, ← hlines.deliveredRows_iff]
  constructor
  · rintro ⟨pipeline, hbuild, hheight, -⟩
    obtain ⟨hreadable, hmerge⟩ := readable_of_buildImagePipeline hdepth hbuild
    refine ⟨hreadable, hmerge, ?_⟩
    rw [← (stands_of_buildImagePipeline hdepth hbuild).height]
    exact hheight
  · rintro ⟨hreadable, hmerge, hrows⟩
    obtain ⟨pipeline, hbuild, hstands, hwidth⟩ :=
      buildImagePipeline_ok build hdepth hreadable hmerge
    exact ⟨pipeline, hbuild, hstands.height.trans hrows, hwidth⟩

/-- No row of a delivered image is read after the end of what the device sends. -/
theorem fed_of_buildImagePipeline {build : Build} {dev : Device} {sensor : Sensor}
    {s s' : ScanSession} {pipeline : Stack} (h : computeSession dev s sensor = .ok s')
    (hbuild : buildImagePipeline build dev s' = .ok pipeline) : pipeline.Fed := by
  have hlines := linesOf_computeSession h
  have hdepth : s'.params.depth = 8 ∨ s'.params.depth = 16 := by
    rw [hlines.depthKept]
    exact hlines.depth
  exact (stands_of_buildImagePipeline hdepth hbuild).fed

/-- The Canon CanoScan 4400F. -/
def canon4400F : Device :=
  { model :=
      { modelId := .canon4400F
        asicType := .gl843
        ldShiftR := 96
        ldShiftG := 48
        ldShiftB := 0
        lineModeColorOrder := .rgb
        isCis := false
        motorId := .canon4400F
        flags := {} }
    baseYdpi := 2400 }

/-- Its sensor for transparencies at 4800 dpi. -/
def canon4400FSensor : Sensor :=
  { fullResolution := 4800
    opticalResolution := 4800
    outputPixelOffset := -2063
    staggerY := ⟨[0, 8]⟩
    useHostSideCalib := true }

/-- A colour scan of 100 lines of a transparency. -/
def transparencyScan (yres : UInt32) : SetupParams :=
  { xres := 4800
    yres
    startx := 22000
    starty := 0
    pixels := 4800
    lines := 100
    depth := 8
    channels := 3
    scanMethod := some .transparency
    scanMode := some .colorSinglePass
    colorFilter := some .none
    contrastAdjustment := 0
    brightnessAdjustment := 0
    exposureLperiod := 33300 }

theorem image_delivered_iff_equalResolutions :
    ∃ session, computeSession canon4400F { params := transparencyScan 4800 } canon4400FSensor =
        .ok session ∧
      Delivers {} canon4400F session := by
  obtain ⟨session, hsession⟩ : ∃ session, computeSession canon4400F
      { params := transparencyScan 4800 } canon4400FSensor = .ok session := ⟨_, rfl⟩
  have hrows : RowsAccounted canon4400F canon4400FSensor (transparencyScan 4800) := by
    rw [RowsAccounted, if_pos ⟨.inr rfl, by decide⟩]
    exact .inr (.inl rfl)
  exact ⟨session, hsession,
    (image_delivered_iff {} hsession).mpr ⟨.inr ⟨rfl, by decide⟩, fun _ => rfl, hrows⟩⟩

theorem fed_equalResolutions :
    ∃ session pipeline, computeSession canon4400F { params := transparencyScan 4800 }
        canon4400FSensor = .ok session ∧
      buildImagePipeline {} canon4400F session = .ok pipeline ∧ pipeline.Fed :=
  ⟨_, _, rfl, rfl, @fed_of_buildImagePipeline {} canon4400F canon4400FSensor
    { params := transparencyScan 4800 } _ _ rfl rfl⟩

/-- At 9600 dpi the sensor is staggered by 16 lines, of which the pipeline takes away 8. -/
theorem not_image_delivered_9600 :
    ∃ session, computeSession canon4400F { params := transparencyScan 9600 } canon4400FSensor =
        .ok session ∧
      ¬Delivers {} canon4400F session := by
  refine ⟨_, rfl, ?_⟩
  rintro ⟨pipeline, hbuild, hheight, -⟩
  have hrows : some 108 = some pipeline.outputHeight :=
    congrArg (fun built => built.toOption.map Stack.outputHeight) hbuild
  rw [hheight] at hrows
  exact absurd (Option.some.inj hrows) (by decide)

end SaneBackends.Genesys
