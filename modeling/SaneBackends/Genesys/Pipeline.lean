import SaneBackends.Genesys.Session
/-!
# Image pipelines of the genesys backend

`build_image_pipeline` and the nodes it pushes. Of a node there are what its getters answer, and
how many rows of its source `get_next_row_data` asks for; what it computes from their pixels is
left out.
-/

namespace SaneBackends.Genesys

open SaneBackends.Lib

/-! ## Pixel formats -/

inductive PixelFormat where
  | unknown | i1 | rgb111 | i8 | rgb888 | bgr888 | i16 | rgb161616 | bgr161616
  deriving DecidableEq, Repr

structure PixelFormatDesc where
  format : PixelFormat
  depth : Nat
  channels : Nat
  order : ColorOrder

/-- `s_known_pixel_formats`. -/
def knownPixelFormats : List PixelFormatDesc :=
  [⟨.i1, 1, 1, .rgb⟩, ⟨.i8, 8, 1, .rgb⟩, ⟨.i16, 16, 1, .rgb⟩, ⟨.rgb111, 1, 3, .rgb⟩,
    ⟨.rgb888, 8, 3, .rgb⟩, ⟨.rgb161616, 16, 3, .rgb⟩, ⟨.bgr888, 8, 3, .bgr⟩,
    ⟨.bgr161616, 16, 3, .bgr⟩]

def findPixelFormat (format : PixelFormat) : Except Failure PixelFormatDesc :=
  match knownPixelFormats.find? (·.format == format) with
  | some desc => .ok desc
  | none => .error (.saneException "Unknown pixel format")

def getPixelFormatColorOrder (format : PixelFormat) : Except Failure ColorOrder :=
  (·.order) <$> findPixelFormat format

def getPixelFormatDepth (format : PixelFormat) : Except Failure Nat :=
  (·.depth) <$> findPixelFormat format

def getPixelsFromRowBytes (format : PixelFormat) (rowBytes : Nat) : Except Failure Nat := do
  let desc ← findPixelFormat format
  pure (rowBytes * 8 / (desc.depth * desc.channels))

def createPixelFormat (depth channels : UInt32) (order : ColorOrder) :
    Except Failure PixelFormat :=
  match knownPixelFormats.find? fun desc =>
      desc.depth == depth.toNat && desc.channels == channels.toNat && desc.order == order with
  | some desc => .ok desc.format
  | none => .error (.saneException "Unknown pixel format")

/-! ## Nodes -/

/-- What a node keeps beside what its getters answer. -/
inductive NodeKind where
  | bufferedCallableSource (inputBatchSize : Nat)
  | debug
  | desegment (segmentOrder : List UInt32) (segmentPixels interleavedLines pixelsPerChunk : Nat)
  | swap16BitEndian
  | invert
  | mergeMonoLinesToColor
  | formatConvert
  | componentShiftLines (channelShifts : List UInt32) (extraHeight : Nat)
  | pixelShiftColumns (pixelShifts : List UInt64) (extraWidth : Nat)
  | pixelShiftLines (pixelShifts : List UInt64) (extraHeight : Nat)
  | calibrate (size : Nat)
  | mergeColorToGray
  | scaleRows
  deriving DecidableEq, Repr

structure Node where
  kind : NodeKind
  width : Nat
  height : Nat
  format : PixelFormat
  deriving DecidableEq, Repr

namespace Node

def debug (source : Node) : Node := { source with kind := .debug }

def desegment (source : Node) (outputWidth : Nat) (segmentOrder : List UInt32)
    (segmentPixels interleavedLines pixelsPerChunk : Nat) : Except Failure Node :=
  if source.height % interleavedLines > 0 then
    .error (.saneException "Height is not a multiple of the number of lines to interelave")
  else .ok
    { source with
      kind := .desegment segmentOrder segmentPixels interleavedLines pixelsPerChunk
      width := outputWidth
      height := source.height / interleavedLines }

def swap16BitEndian (source : Node) : Node := { source with kind := .swap16BitEndian }

def invert (source : Node) : Node := { source with kind := .invert }

def mergedFormat (inputFormat : PixelFormat) (order : ColorOrder) : Except Failure PixelFormat :=
  match inputFormat, order with
  | .i1, .rgb => .ok .rgb111
  | .i8, .rgb => .ok .rgb888
  | .i8, .bgr => .ok .bgr888
  | .i16, .rgb => .ok .rgb161616
  | .i16, .bgr => .ok .bgr161616
  | _, _ => .error (.saneException "Unsupported format combidation")

def mergeMonoLinesToColor (source : Node) (order : ColorOrder) : Except Failure Node := do
  let format ← mergedFormat source.format order
  pure { source with kind := .mergeMonoLinesToColor, height := source.height / 3, format }

def formatConvert (source : Node) (dstFormat : PixelFormat) : Node :=
  { source with kind := .formatConvert, format := dstFormat }

/-- The height that is left when the last rows of a shifted image have no partner. -/
def shiftedHeight (height extraHeight : Nat) : Nat :=
  if extraHeight > height then 0 else height - extraHeight

def channelShifts (format : PixelFormat) (r g b : UInt32) : Except Failure (List UInt32) :=
  match format with
  | .rgb111 | .rgb888 | .rgb161616 => .ok [r, g, b]
  | .bgr888 | .bgr161616 => .ok [b, g, r]
  | _ => .error (.saneException "Unsupported input format")

def componentShiftLines (source : Node) (shiftR shiftG shiftB : UInt32) : Except Failure Node := do
  let shifts ← channelShifts source.format shiftR shiftG shiftB
  let extraHeight := (shifts.foldl max 0).toNat
  pure { source with
         kind := .componentShiftLines shifts extraHeight
         height := shiftedHeight source.height extraHeight }

def pixelShiftLines (source : Node) (shifts : List UInt64) : Node :=
  let extraHeight := (shifts.foldl max 0).toNat
  { source with
    kind := .pixelShiftLines shifts extraHeight
    height := shiftedHeight source.height extraHeight }

/-- The loop body of `compute_pixel_shift_extra_width` for the shift at index `i`. -/
def shiftExtraWidth (groupSize nonFilledGroup : Int) (i shift : Nat) : Int :=
  let shiftGroups := toInt32 (shift / groupSize)
  let shiftRem := toInt32 (shift % groupSize)
  let shiftGroups := if shiftRem < nonFilledGroup then shiftGroups - 1 else shiftGroups
  shiftGroups * groupSize + nonFilledGroup - i

def computePixelShiftExtraWidth (sourceWidth : Nat) (shifts : List UInt64) : Nat :=
  let nonFilledGroup := sourceWidth % shifts.length
  (shifts.zipIdx.foldl (fun extraWidth ((shift, i) : UInt64 × Nat) =>
    max extraWidth (shiftExtraWidth shifts.length nonFilledGroup i shift.toNat)) 0).toNat

def pixelShiftColumns (source : Node) (shifts : List UInt64) : Node :=
  let extraWidth := computePixelShiftExtraWidth source.width shifts
  { source with
    kind := .pixelShiftColumns shifts extraWidth
    width := if extraWidth > source.width then 0 else source.width - extraWidth }

def calibrate (source : Node) (bottom top : List UInt16) (xStart : Nat) : Node :=
  let size :=
    if bottom.length ≥ xStart ∧ top.length ≥ xStart then
      min (bottom.length - xStart) (top.length - xStart)
    else 0
  { source with kind := .calibrate size }

def grayFormat (inputFormat : PixelFormat) : Except Failure PixelFormat :=
  match inputFormat with
  | .rgb111 => .ok .i1
  | .rgb888 | .bgr888 => .ok .i8
  | .rgb161616 | .bgr161616 => .ok .i16
  | _ => .error (.saneException "Unsupported format")

def mergeColorToGray (source : Node) : Except Failure Node := do
  let format ← grayFormat source.format
  let _ ← getPixelFormatColorOrder source.format
  pure { source with kind := .mergeColorToGray, format }

def scaleRows (source : Node) (width : Nat) : Node := { source with kind := .scaleRows, width }

end Node

theorem shiftedHeight_eq (height extraHeight : Nat) :
    Node.shiftedHeight height extraHeight = height - extraHeight := by
  unfold Node.shiftedHeight
  split_ifs <;> omega

/-! ## Stacks -/

/-- `ImagePipelineStack` with at least one node, the last one first. -/
structure Stack where
  last : Node
  before : List Node := []
  deriving DecidableEq, Repr

namespace Stack

def push (pipeline : Stack) (node : Node) : Stack := ⟨node, pipeline.last :: pipeline.before⟩

def front (pipeline : Stack) : Node := pipeline.before.getLastD pipeline.last

def outputWidth (pipeline : Stack) : Nat := pipeline.last.width

def outputHeight (pipeline : Stack) : Nat := pipeline.last.height

def outputFormat (pipeline : Stack) : PixelFormat := pipeline.last.format

/-- `push_node` of a node that is always made. -/
def pushNode (pipeline : Stack) (make : Node → Node) : Stack := pipeline.push (make pipeline.last)

/-- `push_node` of a node that the constructor may refuse to make. -/
def tryPushNode (pipeline : Stack) (make : Node → Except Failure Node) : Except Failure Stack :=
  pipeline.push <$> make pipeline.last

/-- A debug node, if the images are logged. -/
def log (logImageData : Bool) (pipeline : Stack) : Stack :=
  if logImageData then pipeline.pushNode .debug else pipeline

end Stack

/-! ## Building -/

/-- How the backend was built, and whether it logs images. -/
structure Build where
  wordsBigendian : Bool := false
  logImageData : Bool := false

/-- The source node. -/
def pushSource (build : Build) (session : ScanSession) (format : PixelFormat) (width : Nat) :
    Stack :=
  Stack.log build.logImageData
    { last :=
        { kind := .bufferedCallableSource (alignMultipleCeil session.bufferSizeRead 2).toNat
          width
          height := session.opticalLineCount.toNat
          format } }

/-- The node that puts segments together. -/
def pushDesegment (build : Build) (dev : Device) (session : ScanSession) (pipeline : Stack) :
    Except Failure Stack :=
  let outputWidth := session.outputSegmentPixelGroupCount * session.segmentCount
  if session.segmentCount > 1 then
    Stack.log build.logImageData <$> pipeline.tryPushNode (·.desegment outputWidth.toNat
      dev.segmentOrder session.conseqPixelDist.toNat 1 1)
  else .ok pipeline

/-- The nodes that change values of the device to samples. -/
def pushSamples (build : Build) (dev : Device) (depth : Nat) (pipeline : Stack) : Stack :=
  let pipeline :=
    if depth = 16 ∧ dev.model.flags.swap16bitData ≠ build.wordsBigendian then
      (pipeline.pushNode .swap16BitEndian).log build.logImageData
    else pipeline
  if dev.model.flags.invertPixelData then
    (pipeline.pushNode .invert).log build.logImageData
  else pipeline

/-- The node that makes one row of the rows of three colours. -/
def mergeMonoLines (build : Build) (dev : Device) (session : ScanSession) (pipeline : Stack) :
    Except Failure Stack :=
  if dev.model.isCis ∧ session.params.channels = 3 then
    Stack.log build.logImageData <$>
      pipeline.tryPushNode (·.mergeMonoLinesToColor dev.model.lineModeColorOrder)
  else .ok pipeline

/-- The nodes that make the order of the colours the usual one. -/
def orderColors (build : Build) (pipeline : Stack) : Stack :=
  let pipeline :=
    if pipeline.outputFormat = .bgr888 then pipeline.pushNode (·.formatConvert .rgb888)
    else pipeline
  let pipeline :=
    if pipeline.outputFormat = .bgr161616 then pipeline.pushNode (·.formatConvert .rgb161616)
    else pipeline
  pipeline.log build.logImageData

/-- The node that undoes the shifts of colours. -/
def undoColorShift (build : Build) (session : ScanSession) (pipeline : Stack) :
    Except Failure Stack :=
  if session.maxColorShiftLines > 0 ∧ session.params.channels = 3 then
    Stack.log build.logImageData <$>
      pipeline.tryPushNode (·.componentShiftLines session.colorShiftLinesR session.colorShiftLinesG
        session.colorShiftLinesB)
  else .ok pipeline

/-- The node that undoes the stagger of columns. -/
def undoStaggerX (build : Build) (session : ScanSession) (pipeline : Stack) : Stack :=
  if session.staggerX.shifts.isEmpty then pipeline
  else (pipeline.pushNode (·.pixelShiftColumns session.staggerX.shifts)).log build.logImageData

/-- The node that undoes the stagger of lines. -/
def undoStaggerY (build : Build) (session : ScanSession) (pipeline : Stack) : Stack :=
  if session.numStaggeredLines > 0 then
    (pipeline.pushNode (·.pixelShiftLines session.staggerY.shifts)).log build.logImageData
  else pipeline

/-- The node that calibrates on the host. -/
def pushCalibrate (build : Build) (dev : Device) (session : ScanSession) (pipeline : Stack) :
    Stack :=
  let offsetPixels := session.params.startx + dev.calibSession.shadingPixelOffset.toUInt32
  let offsetBytes := offsetPixels * dev.calibSession.params.channels
  if session.useHostSideCalib && !dev.model.flags.disableShadingCalibration
      && !session.params.flags.disableShading then
    (pipeline.pushNode
      (·.calibrate dev.darkAverageData dev.whiteAverageData offsetBytes.toNat)).log
        build.logImageData
  else pipeline

/-- The node that makes a colour image gray. -/
def pushGray (build : Build) (session : ScanSession) (pipeline : Stack) : Except Failure Stack :=
  if session.useHostSideGray then
    Stack.log build.logImageData <$> pipeline.tryPushNode (·.mergeColorToGray)
  else .ok pipeline

/-- The node that gives rows the width the frontend asked for. -/
def pushScale (session : ScanSession) (pipeline : Stack) : Stack :=
  let requested := session.params.getRequestedPixels.toNat
  if pipeline.outputWidth ≠ requested then pipeline.pushNode (·.scaleRows requested) else pipeline

def buildImagePipeline (build : Build) (dev : Device) (session : ScanSession) :
    Except Failure Stack := do
  let format ← createPixelFormat session.params.depth
    (if dev.model.isCis then 1 else session.params.channels) dev.model.lineModeColorOrder
  let depth ← getPixelFormatDepth format
  let width ← getPixelsFromRowBytes format session.outputLineBytesRaw.toNat
  let pipeline ← pushDesegment build dev session (pushSource build session format width)
  let pipeline ← mergeMonoLines build dev session (pushSamples build dev depth pipeline)
  let pipeline ← undoColorShift build session (orderColors build pipeline)
  let pipeline ← pushGray build session
    (pushCalibrate build dev session
      (undoStaggerY build session (undoStaggerX build session pipeline)))
  pure (pushScale session pipeline)

end SaneBackends.Genesys
