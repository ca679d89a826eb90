import SaneBackends.Genesys.Pipeline
/-!
# The size of the image a pipeline delivers

`compute_session` asks the device for more lines than the image has, `build_image_pipeline` takes
lines away again. Both sides are followed through the heights of the nodes, and compared.
-/

namespace SaneBackends.Genesys

open SaneBackends.Lib

/-! ## Rows a node asks its source for -/

/-- The rows `get_next_row_data` asks for with `buffered` rows in the buffer, and the rows that
are in the buffer then. -/
def NodeKind.pulls (kind : NodeKind) (buffered : Nat) : Nat × Nat :=
  match kind with
  | .bufferedCallableSource _ => (0, buffered)
  | .desegment _ _ interleavedLines _ => (interleavedLines, interleavedLines)
  | .mergeMonoLinesToColor => (3, 3)
  | .componentShiftLines _ extraHeight | .pixelShiftLines _ extraHeight =>
    (extraHeight + 1 - (buffered - 1), max (buffered - 1) (extraHeight + 1))
  | _ => (1, buffered)

/-- The rows asked for by the first calls of `get_next_row_data`, and the rows in the buffer. -/
def NodeKind.readRows (kind : NodeKind) : Nat → Nat × Nat
  | 0 => (0, 0)
  | calls + 1 =>
    let (pulled, buffered) := kind.readRows calls
    let (more, buffered) := kind.pulls buffered
    (pulled + more, buffered)

/-- The rows of the first node that go into the first `rows` rows of the last one. -/
def sourceRows : List Node → Nat → Nat
  | [], rows => rows
  | [_], rows => rows
  | node :: before, rows => sourceRows before (node.kind.readRows rows).1

/-- The rows an image needs are there: none is read after the end of the source. -/
def Stack.Fed (pipeline : Stack) : Prop :=
  ∀ rows ≤ pipeline.outputHeight,
    sourceRows (pipeline.last :: pipeline.before) rows ≤ pipeline.front.height

/-- A node makes no more rows than its source has rows for. -/
def Covers (source node : Node) : Prop :=
  ∀ rows ≤ node.height, (node.kind.readRows rows).1 ≤ source.height

theorem readRows_times {kind : NodeKind} {n : Nat} (h : ∀ buffered, (kind.pulls buffered).1 = n)
    (calls : Nat) : (kind.readRows calls).1 = calls * n := by
  induction calls with
  | zero => simp [NodeKind.readRows]
  | succ calls ih =>
    simp only [NodeKind.readRows, h, ih]
    rw [Nat.succ_mul]

/-- The first row fills the buffer, every other row takes one more. -/
theorem readRows_shift {kind : NodeKind} {extraHeight : Nat}
    (h : ∀ buffered, kind.pulls buffered =
      (extraHeight + 1 - (buffered - 1), max (buffered - 1) (extraHeight + 1)))
    (calls : Nat) : kind.readRows (calls + 1) = (calls + 1 + extraHeight, extraHeight + 1) := by
  induction calls with
  | zero =>
    simp only [NodeKind.readRows, h, Prod.mk.injEq]
    omega
  | succ calls ih =>
    rw [NodeKind.readRows, ih]
    simp only [h, Prod.mk.injEq]
    omega

theorem covers_shift {source node : Node} {extraHeight : Nat}
    (h : ∀ buffered, node.kind.pulls buffered =
      (extraHeight + 1 - (buffered - 1), max (buffered - 1) (extraHeight + 1)))
    (hheight : node.height = Node.shiftedHeight source.height extraHeight) :
    Covers source node := by
  intro rows hrows
  cases rows with
  | zero => simp [NodeKind.readRows]
  | succ rows =>
    rw [readRows_shift h]
    rw [hheight, Node.shiftedHeight] at hrows
    split_ifs at hrows with hextra <;> omega

theorem covers_times {source node : Node} {n : Nat}
    (h : ∀ buffered, (node.kind.pulls buffered).1 = n)
    (hheight : node.height * n ≤ source.height) : Covers source node := by
  intro rows hrows
  rw [readRows_times h]
  exact le_trans (Nat.mul_le_mul_right n hrows) hheight

theorem Stack.Fed.push {pipeline : Stack} {node : Node} (h : pipeline.Fed)
    (hnode : Covers pipeline.last node) : (pipeline.push node).Fed := by
  intro rows hrows
  have hfront : (pipeline.push node).front = pipeline.front := by
    simp only [Stack.front, Stack.push, List.getLastD_cons]
  rw [hfront]
  exact h _ (hnode rows hrows)

theorem Stack.fed_first (node : Node) : Stack.Fed { last := node } := by
  intro rows hrows
  exact hrows

/-! ## Heights and formats after each part of the pipeline -/

def PixelFormat.isGray (format : PixelFormat) : Prop := format = .i8 ∨ format = .i16

def PixelFormat.isRgb (format : PixelFormat) : Prop := format = .rgb888 ∨ format = .rgb161616

def PixelFormat.isBgr (format : PixelFormat) : Prop := format = .bgr888 ∨ format = .bgr161616

/-- A pipeline that delivers `height` rows, all of them fed, in one of some formats. -/
structure Stands (formats : PixelFormat → Prop) (height : Nat) (pipeline : Stack) : Prop where
  height : pipeline.outputHeight = height
  format : formats pipeline.outputFormat
  fed : pipeline.Fed

section Stages

variable {formats : PixelFormat → Prop} {height : Nat} {pipeline : Stack}

/-- A node that passes every row on. -/
theorem Stands.pass {f : Node → Node} (h : Stands formats height pipeline)
    (hkind : ∀ source buffered, ((f source).kind.pulls buffered).1 = 1)
    (hheight : ∀ source, (f source).height = source.height)
    (hformat : ∀ source, (f source).format = source.format) :
    Stands formats height (pipeline.pushNode f) where
  height := (hheight _).trans h.height
  format := by
    rw [show (pipeline.pushNode f).outputFormat = pipeline.outputFormat from hformat _]
    exact h.format
  fed := h.fed.push (covers_times (hkind _) (by rw [hheight, Nat.mul_one]))

theorem Stands.log (h : Stands formats height pipeline) (logImageData : Bool) :
    Stands formats height (pipeline.log logImageData) := by
  unfold Stack.log
  split
  · exact h.pass (fun _ _ => rfl) (fun _ => rfl) (fun _ => rfl)
  · exact h

theorem Stands.ite {c : Prop} [Decidable c] {pipeline' : Stack}
    (h' : Stands formats height pipeline') (h : Stands formats height pipeline) :
    Stands formats height (if c then pipeline' else pipeline) := by
  split
  · exact h'
  · exact h

theorem Stack.tryPushNode_ok {f : Node → Except Failure Node} {g : Node → Node}
    (h : f pipeline.last = .ok (g pipeline.last)) :
    pipeline.tryPushNode f = .ok (pipeline.pushNode g) := by
  rw [Stack.tryPushNode, h]
  rfl

theorem pushSource_stands (build : Build) (session : ScanSession) (format : PixelFormat)
    (width : Nat) :
    Stands (· = format) session.opticalLineCount.toNat
      (pushSource build session format width) := by
  apply Stands.log
  exact ⟨rfl, rfl, Stack.fed_first _⟩

theorem pushDesegment_stands (build : Build) (dev : Device) (session : ScanSession)
    (h : Stands formats height pipeline) :
    ∃ pipeline', pushDesegment build dev session pipeline = .ok pipeline' ∧
      Stands formats height pipeline' := by
  by_cases hsegments : session.segmentCount > 1
  · let node := fun source : Node =>
      { source with
        kind := .desegment dev.segmentOrder session.conseqPixelDist.toNat 1 1
        width := (session.outputSegmentPixelGroupCount * session.segmentCount).toNat
        height := source.height / 1 }
    have hnode : pipeline.last.desegment
        (session.outputSegmentPixelGroupCount * session.segmentCount).toNat dev.segmentOrder
        session.conseqPixelDist.toNat 1 1 = .ok (node pipeline.last) := by
      rw [Node.desegment, if_neg (by omega)]
    refine ⟨_, ?_, (h.pass (f := node) (fun _ _ => rfl) (fun _ => Nat.div_one _)
      (fun _ => rfl)).log build.logImageData⟩
    rw [pushDesegment, if_pos hsegments, Stack.tryPushNode_ok (g := node) hnode]
    rfl
  · exact ⟨pipeline, by rw [pushDesegment, if_neg hsegments], h⟩

theorem pushSamples_stands (build : Build) (dev : Device) (depth : Nat)
    (h : Stands formats height pipeline) :
    Stands formats height (pushSamples build dev depth pipeline) := by
  have hswap := Stands.ite (c := depth = 16 ∧
    dev.model.flags.swap16bitData ≠ build.wordsBigendian)
    ((h.pass (f := Node.swap16BitEndian) (fun _ _ => rfl) (fun _ => rfl) (fun _ => rfl)).log
      build.logImageData) h
  exact Stands.ite
    ((hswap.pass (f := Node.invert) (fun _ _ => rfl) (fun _ => rfl) (fun _ => rfl)).log
      build.logImageData) hswap

theorem Stands.convert {formats' : PixelFormat → Prop} {format : PixelFormat}
    (h : Stands formats height pipeline) (hformat : formats' format) :
    Stands formats' height (pipeline.pushNode (·.formatConvert format)) where
  height := h.height
  format := hformat
  fed := h.fed.push (covers_times (fun _ => rfl) (Nat.mul_one _).le)

theorem orderColors_stands (build : Build)
    (h : Stands (fun format => format.isRgb ∨ format.isBgr) height pipeline) :
    Stands PixelFormat.isRgb height (orderColors build pipeline) := by
  apply Stands.log
  rcases h.format with (hf | hf) | (hf | hf)
  · simp only [hf, reduceCtorEq, if_false]
    exact ⟨h.height, .inl hf, h.fed⟩
  · simp only [hf, reduceCtorEq, if_false]
    exact ⟨h.height, .inr hf, h.fed⟩
  · simp only [hf, if_true]
    exact h.convert (.inl rfl)
  · simp only [hf, reduceCtorEq, if_false, if_true]
    exact h.convert (.inr rfl)

theorem orderColors_gray (build : Build) (h : Stands PixelFormat.isGray height pipeline) :
    Stands PixelFormat.isGray height (orderColors build pipeline) := by
  apply Stands.log
  rcases h.format with hf | hf
  · simp only [hf, reduceCtorEq, if_false]
    exact h
  · simp only [hf, reduceCtorEq, if_false]
    exact h

theorem mergeMonoLinesToColor_ok {source : Node} (hformat : source.format.isGray) :
    ∃ format : PixelFormat, format.isRgb ∧ source.mergeMonoLinesToColor .rgb =
      .ok { source with kind := .mergeMonoLinesToColor, height := source.height / 3, format } := by
  rcases hformat with hf | hf
  · exact ⟨.rgb888, .inl rfl, by simp only [Node.mergeMonoLinesToColor, hf]; rfl⟩
  · exact ⟨.rgb161616, .inr rfl, by simp only [Node.mergeMonoLinesToColor, hf]; rfl⟩

theorem mergeMonoLines_stands {dev : Device} {session : ScanSession} (build : Build)
    (h : Stands PixelFormat.isGray height pipeline) (hcis : dev.model.isCis)
    (hchannels : session.params.channels = 3) (horder : dev.model.lineModeColorOrder = .rgb) :
    ∃ pipeline', mergeMonoLines build dev session pipeline = .ok pipeline' ∧
      Stands PixelFormat.isRgb (height / 3) pipeline' := by
  obtain ⟨format, hrgb, hnode⟩ := mergeMonoLinesToColor_ok h.format
  let node := fun source : Node =>
    { source with kind := .mergeMonoLinesToColor, height := source.height / 3, format }
  have hmerged : Stands PixelFormat.isRgb (height / 3) (pipeline.pushNode node) :=
    { height := congrArg (· / 3) h.height
      format := hrgb
      fed := h.fed.push (covers_times (fun _ => rfl) (Nat.div_mul_le_self _ 3)) }
  refine ⟨_, ?_, hmerged.log build.logImageData⟩
  rw [mergeMonoLines, if_pos ⟨hcis, hchannels⟩, horder, Stack.tryPushNode_ok (g := node) hnode]
  rfl

/-- The rows that undoing the shifts of colours takes away. -/
def colorRowsTaken (session : ScanSession) : Nat :=
  if session.maxColorShiftLines > 0 ∧ session.params.channels = 3 then
    ([session.colorShiftLinesR, session.colorShiftLinesG, session.colorShiftLinesB].foldl
      max 0).toNat
  else 0

/-- The rows that undoing the vertical stagger takes away. -/
def staggerRowsTaken (session : ScanSession) : Nat :=
  if session.numStaggeredLines > 0 then session.staggerY.maxShift.toNat else 0

theorem componentShiftLines_ok {source : Node} (hformat : source.format.isRgb) (r g b : UInt32) :
    source.componentShiftLines r g b =
      .ok { source with
            kind := .componentShiftLines [r, g, b] ([r, g, b].foldl max 0).toNat
            height := Node.shiftedHeight source.height ([r, g, b].foldl max 0).toNat } := by
  rcases hformat with hf | hf
  · simp only [Node.componentShiftLines, hf, Node.channelShifts, ok_bind]
    rfl
  · simp only [Node.componentShiftLines, hf, Node.channelShifts, ok_bind]
    rfl

theorem undoColorShift_stands {session : ScanSession} (build : Build)
    (h : Stands formats height pipeline)
    (hformats : session.params.channels = 3 → ∀ format, formats format → format.isRgb) :
    ∃ pipeline', undoColorShift build session pipeline = .ok pipeline' ∧
      Stands formats (height - colorRowsTaken session) pipeline' := by
  by_cases hshift : session.maxColorShiftLines > 0 ∧ session.params.channels = 3
  · let r := session.colorShiftLinesR
    let g := session.colorShiftLinesG
    let b := session.colorShiftLinesB
    let node := fun source : Node =>
      { source with
        kind := .componentShiftLines [r, g, b] ([r, g, b].foldl max 0).toNat
        height := Node.shiftedHeight source.height ([r, g, b].foldl max 0).toNat }
    have hshifted : Stands formats (height - colorRowsTaken session) (pipeline.pushNode node) :=
      { height := by
          rw [colorRowsTaken, if_pos hshift, ← h.height]
          exact shiftedHeight_eq _ _
        format := h.format
        fed := h.fed.push (covers_shift (fun _ => rfl) rfl) }
    have hnode := componentShiftLines_ok (hformats hshift.2 _ h.format) r g b
    refine ⟨_, ?_, hshifted.log build.logImageData⟩
    rw [undoColorShift, if_pos hshift, Stack.tryPushNode_ok (g := node) hnode]
    rfl
  · refine ⟨pipeline, by rw [undoColorShift, if_neg hshift], ?_⟩
    rw [colorRowsTaken, if_neg hshift]
    exact h

theorem undoStaggerX_stands (build : Build) (session : ScanSession)
    (h : Stands formats height pipeline) :
    Stands formats height (undoStaggerX build session pipeline) :=
  Stands.ite h ((h.pass (f := (·.pixelShiftColumns session.staggerX.shifts))
    (fun _ _ => rfl) (fun _ => rfl) (fun _ => rfl)).log build.logImageData)

theorem undoStaggerY_stands (build : Build) (session : ScanSession)
    (h : Stands formats height pipeline) :
    Stands formats (height - staggerRowsTaken session) (undoStaggerY build session pipeline) := by
  unfold undoStaggerY staggerRowsTaken
  split_ifs with hstagger
  · apply Stands.log
    exact
      { height := by
          rw [← h.height]
          exact shiftedHeight_eq _ _
        format := h.format
        fed := h.fed.push (covers_shift (fun _ => rfl) rfl) }
  · exact h

theorem pushCalibrate_stands (build : Build) (dev : Device) (session : ScanSession)
    (h : Stands formats height pipeline) :
    Stands formats height (pushCalibrate build dev session pipeline) := by
  unfold pushCalibrate
  split
  · exact (h.pass (f := (·.calibrate dev.darkAverageData dev.whiteAverageData _))
      (fun _ _ => rfl) (fun _ => rfl) (fun _ => rfl)).log build.logImageData
  · exact h

theorem mergeColorToGray_ok {source : Node} (hformat : source.format.isRgb) :
    ∃ format, source.mergeColorToGray = .ok { source with kind := .mergeColorToGray, format } := by
  rcases hformat with hf | hf
  · exact ⟨.i8, by simp only [Node.mergeColorToGray, hf]; rfl⟩
  · exact ⟨.i16, by simp only [Node.mergeColorToGray, hf]; rfl⟩

theorem pushGray_stands {session : ScanSession} (build : Build)
    (h : Stands formats height pipeline)
    (hformats : session.useHostSideGray → ∀ format, formats format → format.isRgb) :
    ∃ pipeline', pushGray build session pipeline = .ok pipeline' ∧
      Stands (fun _ => True) height pipeline' := by
  by_cases hgray : session.useHostSideGray
  · obtain ⟨format, hnode⟩ := mergeColorToGray_ok (hformats hgray _ h.format)
    let node := fun source : Node => { source with kind := .mergeColorToGray, format }
    have hmerged : Stands (fun _ => True) height (pipeline.pushNode node) :=
      ⟨h.height, trivial, h.fed.push (covers_times (fun _ => rfl) (Nat.mul_one _).le)⟩
    refine ⟨_, ?_, hmerged.log build.logImageData⟩
    rw [pushGray, if_pos hgray, Stack.tryPushNode_ok (g := node) hnode]
    rfl
  · exact ⟨pipeline, by rw [pushGray, if_neg hgray], h.height, trivial, h.fed⟩

theorem pushGray_refuses {session : ScanSession} (build : Build)
    (h : Stands PixelFormat.isGray height pipeline) (hgray : session.useHostSideGray) :
    ∃ failure, pushGray build session pipeline = .error failure := by
  have hnode : ∃ failure, pipeline.last.mergeColorToGray = .error failure := by
    rcases h.format with hf | hf
    · exact ⟨_, by simp only [Node.mergeColorToGray, show pipeline.last.format = _ from hf]; rfl⟩
    · exact ⟨_, by simp only [Node.mergeColorToGray, show pipeline.last.format = _ from hf]; rfl⟩
  obtain ⟨failure, hfailure⟩ := hnode
  refine ⟨failure, ?_⟩
  rw [pushGray, if_pos hgray, Stack.tryPushNode, hfailure]
  rfl

theorem pushScale_stands (session : ScanSession) (h : Stands formats height pipeline) :
    Stands formats height (pushScale session pipeline) :=
  Stands.ite (h.pass (f := (·.scaleRows session.params.getRequestedPixels.toNat))
    (fun _ _ => rfl) (fun _ => rfl) (fun _ => rfl)) h

theorem pushScale_width (session : ScanSession) (pipeline : Stack) :
    (pushScale session pipeline).outputWidth = session.params.getRequestedPixels.toNat := by
  by_cases hwidth : pipeline.outputWidth ≠ session.params.getRequestedPixels.toNat
  · rw [pushScale, if_pos hwidth]
    rfl
  · rw [pushScale, if_neg hwidth]
    exact not_not.mp hwidth

end Stages

end SaneBackends.Genesys
