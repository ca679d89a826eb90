import Mathlib.Tactic
import SaneBackends.Lib.CInt
import SaneBackends.Lib.Result
/-!
# Scan sessions of the genesys backend

`compute_session` and what it calls. An `unsigned` is a 32-bit word, a `size_t` a 64-bit one;
a division by zero and a signed overflow end the computation as an exception does.
-/

namespace SaneBackends.Genesys

open SaneBackends.Lib

inductive AsicType where
  | unknown | gl646 | gl841 | gl842 | gl843 | gl845 | gl846 | gl847 | gl124
  deriving DecidableEq, Repr

inductive ModelId where
  | unknown | canon4400F | canon5600F | canon8400F | canon8600F | canonImageFormula101
  | canonLide50 | canonLide60 | canonLide80 | canonLide90 | canonLide100 | canonLide110
  | canonLide120 | canonLide200 | canonLide210 | canonLide220 | canonLide700F
  | dctDocketport487 | hpScanjet2300C | hpScanjet2400C | hpScanjet3670 | hpScanjet4850C
  | hpScanjetG4010 | hpScanjetG4050 | hpScanjetN6310 | medionMd5345 | panasonicKvSs080
  | pentaxDsmobile600 | plustekOpticbook3800 | plustekOpticfilm7200 | plustekOpticfilm7200I
  | plustekOpticfilm7300 | plustekOpticfilm7400 | plustekOpticfilm7500I
  | plustekOpticfilm8200I | plustekOpticpro3600 | plustekOpticproSt12 | plustekOpticproSt24
  | syscanDocketport465 | syscanDocketport467 | syscanDocketport485 | syscanDocketport665
  | syscanDocketport685 | umaxAstra4500 | visioneer7100 | visioneerRoadwarrior
  | visioneerStrobeXp100Revision3 | visioneerStrobeXp200 | visioneerStrobeXp300 | xerox2400
  | xeroxTravelscanner100
  deriving DecidableEq, Repr

inductive MotorId where
  | unknown | canonLide100 | canonLide110 | canonLide120 | canonLide200 | canonLide210
  | canonLide35 | canonLide60 | canonLide700 | canonLide80 | canonLide90 | canon4400F
  | canon5600F | canon8400F | canon8600F | dp665 | dsmobile600 | g4050 | hp2300 | hp2400
  | hp3670 | img101 | kvss080 | md5345 | plustekOpticbook3800 | plustekOpticfilm7200
  | plustekOpticfilm7200I | plustekOpticfilm7300 | plustekOpticfilm7400
  | plustekOpticfilm7500I | plustekOpticfilm8200I | plustekOpticpro3600 | roadwarrior | st24
  | umax | xp200 | xp300
  deriving DecidableEq, Repr

inductive ScanMethod where
  | flatbed | transparency | transparencyInfrared
  deriving DecidableEq, Repr

inductive ScanColorMode where
  | lineart | halftone | gray | colorSinglePass
  deriving DecidableEq, Repr

inductive ColorFilter where
  | red | green | blue | none
  deriving DecidableEq, Repr

inductive ColorOrder where
  | rgb | gbr | bgr
  deriving DecidableEq, Repr

/-- The bits of `ModelFlag` that sessions and pipelines read. -/
structure ModelFlags where
  disableShadingCalibration : Bool := false
  hostSideGray : Bool := false
  sisSensor : Bool := false
  invertPixelData : Bool := false
  swap16bitData : Bool := false
  deriving DecidableEq, Repr

/-- The bits of `ScanFlag` that sessions and pipelines read or set. -/
structure ScanFlags where
  disableShading : Bool := false
  disableGamma : Bool := false
  ignoreStaggerOffset : Bool := false
  ignoreColorOffset : Bool := false
  deriving DecidableEq, Repr

inductive Failure where
  | runtimeError (text : String)
  | saneException (text : String)
  | divisionByZero
  | signedOverflow

/-! ## Arithmetic -/

def require (condition : Bool) (failure : Failure) : Except Failure Unit :=
  if condition then .ok () else .error failure

/-- `a / b` of two `unsigned`. -/
def udiv (a b : UInt32) : Except Failure UInt32 :=
  if b = 0 then .error .divisionByZero else .ok (a / b)

def alignMultipleFloor (x multiple : UInt64) : UInt64 :=
  if multiple = 0 then x else (x / multiple) * multiple

def alignMultipleCeil (x multiple : UInt64) : UInt64 :=
  if multiple = 0 then x else ((x + multiple - 1) / multiple) * multiple

def multiplyByDepthCeil (pixels depth : UInt64) : UInt64 :=
  if depth = 1 then pixels / 8 + (if pixels % 8 ≠ 0 then 1 else 0)
  else pixels * (depth / 8)

/-- `align_multiple_floor` with `unsigned` arguments and an `unsigned` result. -/
def alignFloor (x multiple : UInt32) : UInt32 :=
  (alignMultipleFloor x.toUInt64 multiple.toUInt64).toUInt32

/-- `align_multiple_ceil` with `unsigned` arguments and an `unsigned` result. -/
def alignCeil (x multiple : UInt32) : UInt32 :=
  (alignMultipleCeil x.toUInt64 multiple.toUInt64).toUInt32

structure Ratio where
  multiplier : UInt32 := 1
  divisor : UInt32 := 1
  deriving DecidableEq, Repr

def Ratio.apply (ratio : Ratio) (arg : UInt32) : Except Failure UInt32 :=
  if ratio.divisor = 0 then .error .divisionByZero
  else .ok (arg.toUInt64 * ratio.multiplier.toUInt64 / ratio.divisor.toUInt64).toUInt32

def Ratio.applyInverse (ratio : Ratio) (arg : UInt32) : Except Failure UInt32 :=
  if ratio.multiplier = 0 then .error .divisionByZero
  else .ok (arg.toUInt64 * ratio.divisor.toUInt64 / ratio.multiplier.toUInt64).toUInt32

/-! ## Sensors and devices -/

structure StaggerConfig where
  shifts : List UInt64 := []
  deriving DecidableEq, Repr

/-- `*std::max_element`, with 0 for no shifts. -/
def StaggerConfig.maxShift (config : StaggerConfig) : UInt64 := config.shifts.foldl max 0

/-- The fields of `Genesys_Sensor` that sessions use. -/
structure Sensor where
  fullResolution : UInt32
  opticalResolution : UInt32 := 0
  shadingPixelOffset : Int32 := 0
  pixelCountRatio : Ratio := {}
  outputPixelOffset : Int32 := 0
  segmentSize : UInt32 := 0
  segmentOrder : List UInt32 := []
  staggerX : StaggerConfig := {}
  staggerY : StaggerConfig := {}
  useHostSideCalib : Bool := false

def Sensor.getOpticalResolution (sensor : Sensor) : UInt32 :=
  if sensor.opticalResolution ≠ 0 then sensor.opticalResolution else sensor.fullResolution

def Sensor.getSegmentCount (sensor : Sensor) : UInt32 :=
  if sensor.segmentOrder.length < 2 then 1 else UInt32.ofNat sensor.segmentOrder.length

/-- The fields of `Genesys_Model` that sessions and pipelines use. -/
structure Model where
  modelId : ModelId
  asicType : AsicType
  ldShiftR : Int32
  ldShiftG : Int32
  ldShiftB : Int32
  lineModeColorOrder : ColorOrder
  isCis : Bool
  motorId : MotorId
  flags : ModelFlags

/-- `SetupParams::NOT_SET`. -/
def notSet : UInt32 := 0xffffffff

/-- `SetupParams::NOT_SET_I`. -/
def notSetI : Int32 := 0x7fffffff

/-- `SetupParams`; an enumeration that is not set is `none`. -/
structure SetupParams where
  xres : UInt32 := notSet
  yres : UInt32 := notSet
  startx : UInt32 := notSet
  starty : UInt32 := notSet
  pixels : UInt32 := notSet
  requestedPixels : UInt32 := 0
  lines : UInt32 := notSet
  depth : UInt32 := notSet
  channels : UInt32 := notSet
  scanMethod : Option ScanMethod := none
  scanMode : Option ScanColorMode := none
  colorFilter : Option ColorFilter := none
  contrastAdjustment : Int32 := notSetI
  brightnessAdjustment : Int32 := notSetI
  exposureLperiod : UInt32 := notSet
  flags : ScanFlags := {}

def SetupParams.getRequestedPixels (params : SetupParams) : UInt32 :=
  if params.requestedPixels ≠ 0 then params.requestedPixels else params.pixels

def SetupParams.valid (params : SetupParams) : Bool :=
  !(params.xres == notSet || params.yres == notSet || params.startx == notSet
    || params.starty == notSet || params.pixels == notSet || params.lines == notSet
    || params.depth == notSet || params.channels == notSet
    || params.scanMethod.isNone || params.scanMode.isNone || params.colorFilter.isNone
    || params.contrastAdjustment == notSetI || params.brightnessAdjustment == notSetI
    || params.exposureLperiod == notSet)

def SetupParams.assertValid (params : SetupParams) : Except Failure Unit :=
  require params.valid (.runtimeError "SetupParams are not valid")

/-- The fields of `ScanSession` that are not always zero. -/
structure ScanSession where
  params : SetupParams := {}
  computed : Bool := false
  fullResolution : UInt32 := 0
  opticalResolution : UInt32 := 0
  opticalPixels : UInt32 := 0
  opticalPixelsRaw : UInt32 := 0
  opticalLineCount : UInt32 := 0
  outputResolution : UInt32 := 0
  outputStartx : UInt32 := 0
  outputPixels : UInt32 := 0
  outputChannelBytes : UInt32 := 0
  outputLineBytes : UInt32 := 0
  outputLineBytesRaw : UInt32 := 0
  outputLineBytesRequested : UInt32 := 0
  outputLineCount : UInt32 := 0
  outputTotalBytesRaw : UInt32 := 0
  outputTotalBytes : UInt32 := 0
  numStaggeredLines : UInt32 := 0
  maxColorShiftLines : UInt32 := 0
  colorShiftLinesR : UInt32 := 0
  colorShiftLinesG : UInt32 := 0
  colorShiftLinesB : UInt32 := 0
  staggerX : StaggerConfig := {}
  staggerY : StaggerConfig := {}
  segmentCount : UInt32 := 1
  pixelStartx : UInt32 := 0
  pixelEndx : UInt32 := 0
  pixelCountRatio : Ratio := {}
  conseqPixelDist : UInt32 := 0
  outputSegmentPixelGroupCount : UInt32 := 0
  shadingPixelOffset : Int32 := 0
  bufferSizeRead : UInt64 := 0
  enableLedadd : Bool := false
  useHostSideCalib : Bool := false
  useHostSideGray : Bool := false

/-- The fields of `Genesys_Device` that sessions and pipelines use. -/
structure Device where
  model : Model
  baseYdpi : Int32
  /-- The session that was last set up. -/
  session : ScanSession := {}
  calibSession : ScanSession := {}
  segmentOrder : List UInt32 := []
  whiteAverageData : List UInt16 := []
  darkAverageData : List UInt16 := []

/-! ## Pixel counts -/

def ModelId.isPlustek7200Family (id : ModelId) : Bool :=
  id == .plustekOpticfilm7200 || id == .plustekOpticfilm7200I || id == .plustekOpticfilm7300
    || id == .plustekOpticfilm7500I

/-- The `adjust_optical_pixels` part of `session_adjust_output_pixels`. -/
def adjustOpticalPixels (outputPixels : UInt32) (dev : Device) (sensor : Sensor)
    (outputXresolution : UInt32) : Except Failure UInt32 := do
  let opticalResolution := sensor.getOpticalResolution
  let pixels ← udiv (outputPixels * opticalResolution) outputXresolution
  let pixels :=
    if dev.model.asicType = .gl841 ∨ dev.model.asicType = .gl842 then alignCeil pixels 2
    else pixels
  let pixels :=
    if dev.model.asicType = .gl646 ∧ outputXresolution = 400 then alignFloor pixels 6
    else pixels
  let pixels ←
    if dev.model.asicType = .gl843 then do
      let multiple ← udiv (2 * sensor.fullResolution) opticalResolution
      let pixels := alignCeil pixels multiple
      pure (if dev.model.modelId.isPlustek7200Family || dev.model.modelId == .plustekOpticfilm7400
          || dev.model.modelId == .plustekOpticfilm8200I then alignCeil pixels 16 else pixels)
    else pure pixels
  udiv (pixels * outputXresolution) opticalResolution

/-- The alignment `session_adjust_output_pixels` makes twice. -/
def alignForResolution (outputPixels outputXresolution outputYresolution : UInt32) : UInt32 :=
  if outputXresolution < outputYresolution then alignFloor outputPixels 8
  else alignFloor outputPixels 16

def sessionAdjustOutputPixels (outputPixels : UInt32) (dev : Device) (sensor : Sensor)
    (outputXresolution outputYresolution : UInt32) (adjustOutputPixels : Bool) :
    Except Failure UInt32 := do
  let both := dev.model.modelId == .canon5600F
  let outputPixels ←
    if !adjustOutputPixels || both then
      adjustOpticalPixels outputPixels dev sensor outputXresolution
    else pure outputPixels
  if adjustOutputPixels || both then
    let asic := dev.model.asicType
    let outputPixels :=
      if dev.model.flags.sisSensor || asic == .gl847 || asic == .gl124 || asic == .gl845
          || asic == .gl846 || asic == .gl843 then
        if outputXresolution ≤ 1200 then alignFloor outputPixels 4
        else alignForResolution outputPixels outputXresolution outputYresolution
      else outputPixels
    if outputXresolution ≥ 1200 ∧ (asic = .gl124 ∨ asic = .gl847
        ∨ dev.session.params.xres < dev.session.params.yres) then
      pure (alignForResolution outputPixels outputXresolution outputYresolution)
    else pure outputPixels
  else pure outputPixels

/-- The resolution in which some Canon models count the start of a line. -/
def startxResolution (opticalResolution outputResolution : UInt32) : UInt32 :=
  let startxXres := if outputResolution = 1200 then opticalResolution / 2 else opticalResolution
  if outputResolution ≥ 2400 then startxXres / 4 else startxXres

/-- `static_cast<int>(startx) + output_pixel_offset`, which has to be positive. -/
def computeOutputStartx (startx : UInt32) (offset : Int32) : Except Failure UInt32 :=
  let start := startx.toInt32.toInt + offset.toInt
  if toInt32 start ≠ start then .error .signedOverflow
  else if start < 0 then .error (.saneException "Invalid sensor.output_pixel_offset")
  else .ok (UInt32.ofNat start.toNat)

/-! ## Lines -/

/-- Whether the device scans in colour and the host makes the image gray. -/
def hostSideGray (dev : Device) (params : SetupParams) : Bool :=
  dev.model.flags.hostSideGray && params.channels == 1 && params.colorFilter == some .none

/-- The parameters a session goes on with. -/
def sessionParams (dev : Device) (params : SetupParams) : SetupParams :=
  if hostSideGray dev params then
    { params with channels := 3, scanMode := some .colorSinglePass }
  else params

/-- The lines the sensor is staggered by, at the resolution of the scan. -/
def numStaggeredLines (sensor : Sensor) (params : SetupParams) : Except Failure UInt32 :=
  if params.flags.ignoreStaggerOffset then .ok 0
  else if params.xres = 0 then .error .divisionByZero
  else .ok (sensor.staggerY.maxShift * params.yres.toUInt64 / params.xres.toUInt64).toUInt32

/-- The lines one colour is shifted by, at the resolution of the scan. -/
def colorShiftLines (dev : Device) (params : SetupParams) (ldShift : Int32) :
    Except Failure UInt32 := do
  let lines := ldShift.toUInt32
  let lines ←
    if dev.model.motorId = .g4050 ∧ params.yres > 600 then
      udiv (lines * 3800) dev.baseYdpi.toUInt32
    else pure lines
  udiv (lines * params.yres) dev.baseYdpi.toUInt32

/-- The largest of the three shifts, if the scan is one where colours are shifted. -/
def maxColorShiftLines (params : SetupParams) (r g b : UInt32) : UInt32 :=
  if params.channels > 1 ∧ params.flags.ignoreColorOffset = false then max r (max g b) else 0

/-! ## Segments -/

/-- Whether `compute_session` widens the lines of the device to whole segments. -/
def Model.wholeSegments (model : Model) : Bool :=
  (model.asicType == .gl845 || model.asicType == .gl846 || model.asicType == .gl847)
    && model.modelId != .plustekOpticfilm7400 && model.modelId != .plustekOpticfilm8200I

/-- `optical_pixels_raw`, once the lines are widened to whole segments. -/
def widenToSegments (dev : Device) (sensor : Sensor)
    (xres opticalResolution outputResolution outputStartx opticalPixels : UInt32) :
    Except Failure UInt32 :=
  let segmentCount := sensor.getSegmentCount
  if dev.model.modelId = .canon5600F then do
    let startxXres := startxResolution opticalResolution outputResolution
    let opticalStartx ← udiv (outputStartx * startxXres) xres
    let opticalEndx := opticalStartx + opticalPixels
    let multiSegmentSizeOutput := segmentCount * sensor.segmentSize
    let multiSegmentSizeOptical ← udiv (multiSegmentSizeOutput * opticalResolution) outputResolution
    let opticalEndx := alignCeil opticalEndx multiSegmentSizeOptical
    let multiple ← udiv (4 * opticalResolution) outputResolution
    pure (alignFloor (opticalEndx - opticalStartx) multiple)
  else do
    let extra ← sensor.pixelCountRatio.applyInverse
      (alignCeil sensor.segmentSize 2 * (segmentCount - 1))
    pure (opticalPixels + extra)

/-- What the device sends for a line before its segments are put together. -/
structure RawLine where
  opticalPixelsRaw : UInt32
  outputLineBytesRaw : UInt32
  conseqPixelDist : UInt32

def segmentedRawLine (dev : Device) (sensor : Sensor) (params : SetupParams)
    (opticalResolution outputStartx opticalPixels outputLineBytes : UInt32) :
    Except Failure RawLine :=
  let segmentCount := sensor.getSegmentCount
  if dev.model.wholeSegments then do
    let opticalPixelsRaw ←
      if segmentCount > 1 then
        widenToSegments dev sensor params.xres opticalResolution params.xres outputStartx
          opticalPixels
      else pure opticalPixels
    let outputLineBytesRaw ←
      if dev.model.modelId = .canon5600F then do
        let outputPixelsRaw ← udiv (opticalPixelsRaw * params.xres) opticalResolution
        let channelBytes := multiplyByDepthCeil outputPixelsRaw.toUInt64 params.depth.toUInt64
        pure (channelBytes * params.channels.toUInt64).toUInt32
      else do
        let pixels ← udiv (opticalPixelsRaw * params.xres) sensor.fullResolution
        let pixels ← udiv pixels segmentCount
        pure (multiplyByDepthCeil pixels.toUInt64 params.depth.toUInt64).toUInt32
    pure { opticalPixelsRaw, outputLineBytesRaw
           conseqPixelDist := if segmentCount > 1 then sensor.segmentSize else 0 }
  else pure
    { opticalPixelsRaw := opticalPixels, outputLineBytesRaw := outputLineBytes, conseqPixelDist := 0 }

/-- The raw line, with what the single chips do differently. -/
def computeRawLine (dev : Device) (sensor : Sensor) (params : SetupParams)
    (opticalResolution outputStartx opticalPixels outputPixels outputChannelBytes
      outputLineBytes : UInt32) : Except Failure RawLine := do
  let segmentCount := sensor.getSegmentCount
  let asic := dev.model.asicType
  let raw ← segmentedRawLine dev sensor params opticalResolution outputStartx opticalPixels
    outputLineBytes
  let raw :=
    if (asic = .gl841 ∨ asic = .gl842 ∨ asic = .gl124) ∧ dev.model.isCis then
      { raw with outputLineBytesRaw := outputChannelBytes }
    else raw
  let raw ←
    if asic = .gl124 then do
      let factor ← udiv sensor.fullResolution opticalResolution
      let pixels ← udiv outputPixels factor
      let dist ← udiv pixels segmentCount
      pure { raw with conseqPixelDist := dist }
    else pure raw
  if asic = .gl842 ∨ asic = .gl843 then
    if dev.model.isCis then
      pure (if segmentCount > 1 then { raw with conseqPixelDist := sensor.segmentSize } else raw)
    else do
      let dist ← udiv outputPixels segmentCount
      pure { raw with conseqPixelDist := dist }
  else pure raw

def segmentPixelGroupCount (dev : Device) (sensor : Sensor)
    (opticalResolution opticalPixels outputPixels : UInt32) : Except Failure UInt32 := do
  let segmentCount := sensor.getSegmentCount
  let asic := dev.model.asicType
  let count ←
    if asic = .gl124 ∨ asic = .gl842 ∨ asic = .gl843 then do
      let factor ← udiv sensor.fullResolution opticalResolution
      udiv outputPixels (factor * segmentCount)
    else pure 0
  let count ←
    if dev.model.modelId = .canonLide90 then udiv outputPixels segmentCount else pure count
  if asic = .gl845 ∨ asic = .gl846 ∨ asic = .gl847 then
    if dev.model.modelId = .canon5600F then udiv outputPixels segmentCount
    else sensor.pixelCountRatio.apply opticalPixels
  else pure count

/-! ## Pixel offsets -/

/-- The pixel positions before they are aligned for unstaggering. -/
def rawPixelOffsets (dev : Device) (sensor : Sensor) (params : SetupParams)
    (pixelStartx pixelEndx opticalResolution outputStartx opticalPixels opticalPixelsRaw : UInt32) :
    Except Failure (UInt32 × UInt32) := do
  match dev.model.asicType with
  | .gl646 =>
    let offset ← udiv (outputStartx * sensor.fullResolution) params.xres
    let width ← udiv (opticalPixels * sensor.fullResolution) opticalResolution
    pure (pixelStartx + offset, pixelStartx + offset + width)
  | .gl841 | .gl842 | .gl843 | .gl845 | .gl846 | .gl847 =>
    let startxXres :=
      if dev.model.modelId = .canon5600F ∨ dev.model.modelId = .canonLide90 then
        startxResolution opticalResolution params.xres
      else opticalResolution
    let start ← udiv (outputStartx * startxXres) params.xres
    pure (start, start + opticalPixelsRaw)
  | .gl124 =>
    let start ← udiv (outputStartx * sensor.fullResolution) params.xres
    pure (start, start + opticalPixelsRaw)
  | .unknown => pure (pixelStartx, pixelEndx)

def computePixelOffsets (dev : Device) (sensor : Sensor) (params : SetupParams)
    (pixelStartx pixelEndx opticalResolution outputStartx opticalPixels opticalPixelsRaw : UInt32) :
    Except Failure (UInt32 × UInt32) := do
  let (start, stop) ← rawPixelOffsets dev sensor params pixelStartx pixelEndx opticalResolution
    outputStartx opticalPixels opticalPixelsRaw
  let aligned := alignFloor start
    (UInt32.ofNat (max sensor.staggerX.shifts.length sensor.staggerY.shifts.length))
  let stop := stop - (start - aligned)
  let start ← sensor.pixelCountRatio.apply aligned
  let stop ← sensor.pixelCountRatio.apply stop
  if dev.model.modelId.isPlustek7200Family then
    pure (alignFloor start sensor.pixelCountRatio.divisor,
      alignFloor stop sensor.pixelCountRatio.divisor)
  else pure (start, stop)

/-! ## The session -/

def computeSession (dev : Device) (s : ScanSession) (sensor : Sensor) :
    Except Failure ScanSession := do
  s.params.assertValid
  require (s.params.depth == 8 || s.params.depth == 16)
    (.saneException ("Unsupported depth setting " ++ toString s.params.depth))
  let opticalResolution := sensor.getOpticalResolution
  let outputResolution := s.params.xres
  require (outputResolution ≤ opticalResolution)
    (.runtimeError "output resolution higher than optical resolution")
  let outputPixels ← sessionAdjustOutputPixels s.params.pixels dev sensor s.params.xres
    s.params.yres false
  let opticalPixels ← udiv (outputPixels * opticalResolution) outputResolution
  let outputStartx ← computeOutputStartx s.params.startx sensor.outputPixelOffset
  let params := sessionParams dev s.params
  let staggered ← numStaggeredLines sensor params
  let shiftR ← colorShiftLines dev params dev.model.ldShiftR
  let shiftG ← colorShiftLines dev params dev.model.ldShiftG
  let shiftB ← colorShiftLines dev params dev.model.ldShiftB
  let maxColorShift := maxColorShiftLines params shiftR shiftG shiftB
  let outputLineCount := params.lines + maxColorShift + staggered
  let outputChannelBytes :=
    (multiplyByDepthCeil outputPixels.toUInt64 params.depth.toUInt64).toUInt32
  let outputLineBytes := outputChannelBytes * params.channels
  let raw ← computeRawLine dev sensor params opticalResolution outputStartx opticalPixels
    outputPixels outputChannelBytes outputLineBytes
  let groupCount ← segmentPixelGroupCount dev sensor opticalResolution opticalPixels outputPixels
  let perLine := if dev.model.modelId = .canonLide90 then params.channels else 1
  let (pixelStartx, pixelEndx) ← computePixelOffsets dev sensor params s.pixelStartx s.pixelEndx
    opticalResolution outputStartx opticalPixels raw.opticalPixelsRaw
  let asic := dev.model.asicType
  pure
    { params :=
        if (asic = .gl841 ∨ asic = .gl842 ∨ asic = .gl843) ∧ params.depth = 16 then
          { params with flags := { params.flags with disableGamma := true } }
        else params
      computed := true
      fullResolution := sensor.fullResolution
      opticalResolution
      opticalPixels
      opticalPixelsRaw := raw.opticalPixelsRaw
      opticalLineCount :=
        if dev.model.isCis then outputLineCount * params.channels else outputLineCount
      outputResolution
      outputStartx
      outputPixels
      outputChannelBytes
      outputLineBytes
      outputLineBytesRaw := raw.outputLineBytesRaw
      outputLineBytesRequested :=
        (multiplyByDepthCeil (params.getRequestedPixels * params.channels).toUInt64
          params.depth.toUInt64).toUInt32
      outputLineCount
      outputTotalBytesRaw := raw.outputLineBytesRaw * outputLineCount * perLine
      outputTotalBytes := outputLineBytes * outputLineCount * perLine
      numStaggeredLines := staggered
      maxColorShiftLines := maxColorShift
      colorShiftLinesR := shiftR
      colorShiftLinesG := shiftG
      colorShiftLinesB := shiftB
      staggerX := sensor.staggerX
      staggerY := sensor.staggerY
      segmentCount := sensor.getSegmentCount
      pixelStartx
      pixelEndx
      pixelCountRatio := sensor.pixelCountRatio
      conseqPixelDist := raw.conseqPixelDist
      outputSegmentPixelGroupCount := groupCount
      shadingPixelOffset := sensor.shadingPixelOffset
      bufferSizeRead := (raw.outputLineBytesRaw * 64).toUInt64
      enableLedadd :=
        if asic = .gl124 ∨ asic = .gl845 ∨ asic = .gl846 then
          params.channels == 1 && dev.model.isCis && params.colorFilter == some .none
        else s.enableLedadd
      useHostSideCalib := sensor.useHostSideCalib
      useHostSideGray := hostSideGray dev s.params || s.useHostSideGray }

end SaneBackends.Genesys
