import SaneBackends.Lib.Transition
import SaneBackends.Sanei.Config
import SaneBackends.Sanei.ConstrainValue
/-!
# The options of the eSCL backend

`init_options`, `init_options_small` and `sane_control_option`. The lists of a source are those
that `escl_capabilities` makes of the answer of the scanner; the conversion of lengths, which
is by floating point, is a parameter.
-/

namespace SaneBackends.Escl

open SaneBackends.Lib SaneBackends.Sanei

/-- The indices of the three sources. -/
inductive Source where
  | platen
  | adfSimplex
  | adfDuplex
  deriving DecidableEq, Repr

/-- The string that `Sources` has for a source. -/
def Source.text : Source → List UInt8
  | .platen => ascii ['F', 'l', 'a', 't', 'b', 'e', 'd']
  | .adfSimplex => ascii ['A', 'D', 'F']
  | .adfDuplex => ascii ['A', 'D', 'F', ' ', 'D', 'u', 'p', 'l', 'e', 'x']

/-- What `convert_elements` makes of colour modes. -/
inductive ColorMode where
  | gray
  | color
  | lineart
  deriving DecidableEq, Repr

/-- `SANE_VALUE_SCAN_MODE_GRAY`, `SANE_VALUE_SCAN_MODE_COLOR` and
`SANE_VALUE_SCAN_MODE_LINEART`. -/
def ColorMode.text : ColorMode → List UInt8
  | .gray => ascii ['G', 'r', 'a', 'y']
  | .color => ascii ['C', 'o', 'l', 'o', 'r']
  | .lineart => ascii ['L', 'i', 'n', 'e', 'a', 'r', 't']

/-- The strings that `default_color` can be. -/
inductive DefaultColor where
  | grayscale8
  | blackAndWhite1
  | rgb24
  deriving DecidableEq, Repr

/-- The mode that a default colour stands for. -/
def DefaultColor.mode : DefaultColor → ColorMode
  | .grayscale8 => .gray
  | .blackAndWhite1 => .lineart
  | .rgb24 => .color

/-- `!strcasecmp`. -/
def sameText (a b : List UInt8) : Bool := a.map lowerCase == b.map lowerCase

/-- The default colour for a mode. -/
def defaultColorFor (mode : List UInt8) : DefaultColor :=
  if sameText mode ColorMode.gray.text then .grayscale8
  else if sameText mode ColorMode.lineart.text then .blackAndWhite1
  else .rgb24

/-- The fields of `support_t` that options use. -/
structure Support where
  min : SaneWord
  max : SaneWord
  value : SaneWord
  deriving DecidableEq, Repr

/-- The fields of `caps_t` that options use. An array that is `NULL` is empty. -/
structure Caps where
  defaultColor : Option DefaultColor
  defaultResolution : SaneWord
  minWidth : Int
  maxWidth : Int
  minHeight : Int
  maxHeight : Int
  colorModes : List ColorMode
  supportedResolutions : List SaneWord
  deriving DecidableEq, Repr

/-- `capabilities_t`. `listed` says for which sources there is an entry in `Sources`. -/
structure Scanner where
  caps : Source → Caps
  listed : Source → Bool
  source : Source
  brightness : Option Support
  contrast : Option Support
  sharpen : Option Support
  threshold : Option Support

/-- The options. -/
inductive Opt where
  | numOpts | modeGroup | mode | resolution | scanSource
  | geometryGroup | tlX | tlY | brX | brY
  | enhancementGroup | preview | grayPreview | brightness | contrast | sharpen | threshold
  deriving DecidableEq, Repr

/-- The options in the order of their indices. -/
def Opt.all : List Opt :=
  [.numOpts, .modeGroup, .mode, .resolution, .scanSource, .geometryGroup, .tlX, .tlY, .brX, .brY,
    .enhancementGroup, .preview, .grayPreview, .brightness, .contrast, .sharpen, .threshold]

/-- The option with this index, which is none outside the array. -/
def Opt.ofIndex (n : Int) : Option Opt := if n < 0 then none else Opt.all[n.toNat]?

def Opt.type : Opt → SaneValueType
  | .modeGroup | .geometryGroup | .enhancementGroup => .group
  | .mode | .scanSource => .string
  | .tlX | .tlY | .brX | .brY => .fixed
  | .preview | .grayPreview => .bool
  | .numOpts | .resolution | .brightness | .contrast | .sharpen | .threshold => .int

/-- The options that are inactive if the scanner does not support them. -/
def Opt.enhances : Opt → Bool
  | .brightness | .contrast | .sharpen | .threshold => true
  | _ => false

/-- `SANE_CAP_SOFT_SELECT`. -/
def Opt.settable : Opt → Bool
  | .numOpts | .modeGroup | .geometryGroup | .enhancementGroup => false
  | _ => true

/-- The fields of `escl_sane_t` that options use. `constraint`, `size` and `inactive` are those of
`opt`, `word` and `string` the members of `val`. -/
structure EsclSane where
  scanner : Scanner
  constraint : Opt → OptionConstraint
  size : Opt → Int
  inactive : Opt → Bool
  word : Opt → SaneWord
  string : Opt → Option (List UInt8)

/-- What `sanei_check_value` and `sanei_constrain_value` read. Neither reads the name. -/
def EsclSane.descriptor (s : EsclSane) (n : Opt) : OptionDescriptor :=
  ⟨[], n.type, s.size n, s.constraint n⟩

/-- The capabilities of the current source. -/
def Scanner.current (scanner : Scanner) : Caps := scanner.caps scanner.source

/-- The scanner with this source, and with these capabilities for it. -/
def Scanner.select (scanner : Scanner) (source : Source) (caps : Caps) : Scanner :=
  { scanner with source := source, caps := Function.update scanner.caps source caps }

/-- The strings of `Sources` before its first `NULL`. -/
def Scanner.sources (scanner : Scanner) : List (List UInt8) :=
  ([Source.platen, .adfSimplex, .adfDuplex].takeWhile scanner.listed).map Source.text

/-- The support for an enhancement. -/
def Scanner.support (scanner : Scanner) : Opt → Option Support
  | .brightness => scanner.brightness
  | .contrast => scanner.contrast
  | .sharpen => scanner.sharpen
  | .threshold => scanner.threshold
  | _ => none

/-- The source that is used if the current one has no colour modes. -/
def Scanner.usable (scanner : Scanner) : Option Source :=
  if scanner.current.colorModes ≠ [] then some scanner.source
  else [Source.platen, .adfSimplex, .adfDuplex].find? fun source =>
    decide ((scanner.caps source).colorModes ≠ [])

/-- `max_string_size` and `_source_size_max`. -/
def stringSizeMax (strings : List (List UInt8)) : Int :=
  strings.foldl (fun size s => max size (s.length + 1)) 0

def modeTexts (modes : List ColorMode) : List (List UInt8) := modes.map ColorMode.text

/-- Which enhancements are inactive in a mode, of those that the scanner supports. -/
def setActivity (scanner : Scanner) (mode : List UInt8) (inactive : Opt → Bool) : Opt → Bool :=
  fun n =>
    if (scanner.support n).isSome then
      if n = .threshold then !sameText mode ColorMode.lineart.text
      else sameText mode ColorMode.lineart.text
    else inactive n

section Conversion

variable (pixelToMm : Int → SaneWord)

/-- `x_range1` and `y_range1`. -/
def range1 (min max : Int) : OptionConstraint := .range 0 (pixelToMm (max - min)) 0

/-- `x_range2` and `y_range2`. -/
def range2 (min max : Int) : OptionConstraint := .range (pixelToMm min) (pixelToMm max) 0

/-- The constraint of an enhancement. -/
def supportConstraint : Option Support → OptionConstraint
  | some support => .range support.min support.max 1
  | none => .range 0 255 1

/-- The constraints that `init_options` sets for the current source. -/
def constraints (scanner : Scanner) : Opt → OptionConstraint
  | .mode => .stringList (modeTexts scanner.current.colorModes)
  | .resolution => .wordList scanner.current.supportedResolutions
  | .tlX => range1 pixelToMm scanner.current.minWidth scanner.current.maxWidth
  | .tlY => range1 pixelToMm scanner.current.minHeight scanner.current.maxHeight
  | .brX => range2 pixelToMm scanner.current.minWidth scanner.current.maxWidth
  | .brY => range2 pixelToMm scanner.current.minHeight scanner.current.maxHeight
  | .scanSource => .stringList scanner.sources
  | .brightness => supportConstraint scanner.brightness
  | .contrast => supportConstraint scanner.contrast
  | .sharpen => supportConstraint scanner.sharpen
  | .threshold => supportConstraint scanner.threshold
  | _ => .none

/-- What `init_options` makes of the handle, for the current source and its mode. -/
def initState (scanner : Scanner) (mode : List UInt8) : EsclSane where
  scanner := scanner
  constraint := constraints pixelToMm scanner
  size
    | .modeGroup | .geometryGroup | .enhancementGroup => 0
    | .mode => stringSizeMax (modeTexts scanner.current.colorModes)
    | .scanSource => stringSizeMax scanner.sources
    | _ => 4
  inactive := setActivity scanner mode Opt.enhances
  word
    | .numOpts => BitVec.ofNat 32 Opt.all.length
    | .resolution => scanner.current.defaultResolution
    | .brX => pixelToMm scanner.current.maxWidth
    | .brY => pixelToMm scanner.current.maxHeight
    | n => ((scanner.support n).map Support.value).getD 0
  string
    | .mode => some mode
    | .scanSource => some scanner.source.text
    | _ => none

/-- `init_options` without a name, as `sane_open` calls it. -/
def initOptions (scanner : Scanner) : Except Fault (Option EsclSane) :=
  match scanner.usable with
  | none => .ok none
  | some source =>
      let caps := scanner.caps source
      match caps.colorModes.head?, caps.supportedResolutions.head? with
      | some first, some resolution =>
          let (mode, color) := match caps.defaultColor with
            | some color => (color.mode.text, color)
            | none => (first.text, defaultColorFor first.text)
          let scanner := scanner.select source
            { caps with defaultColor := some color, defaultResolution := resolution }
          if scanner.listed source then .ok (some (initState pixelToMm scanner mode))
          else .error .nullPointer
      | _, _ => .error .nullPointer

/-- The loop of `_get_resolution`, with what stands for `old`. -/
def getResolutionLoop (resol first : SaneWord) : List SaneWord → SaneWord → SaneWord
  | [], old => old
  | resolution :: resolutions, old =>
      if resol = resolution then resol
      else if resol.slt resolution then if old = -1 then first else old
      else getResolutionLoop resol first resolutions resolution

/-- `_get_resolution`. -/
def getResolution (caps : Caps) (resol : SaneWord) : Except Fault SaneWord :=
  match caps.supportedResolutions with
  | [] => .error .nullPointer
  | first :: resolutions => .ok (getResolutionLoop resol first (first :: resolutions) (-1))

/-- The source that a name stands for. -/
def sourceOf (name : List UInt8) : Source :=
  if name = Source.adfDuplex.text then .adfDuplex
  else if name.take 1 = ascii ['A'] ∨ name = Source.adfSimplex.text then .adfSimplex
  else .platen

/-- The default colour that `init_options_small` leaves, for a source with these modes. -/
def chooseColor (first : ColorMode) (caps : Caps) : DefaultColor :=
  match caps.defaultColor with
  | some color => if color.mode ∈ caps.colorModes then color else defaultColorFor first.text
  | none => defaultColorFor first.text

/-- The mode that `init_options_small` leaves. -/
def chooseMode (first : ColorMode) (caps : Caps) : ColorMode :=
  match caps.defaultColor with
  | some color => if color.mode ∈ caps.colorModes then color.mode else first
  | none => first

/-- What `init_options_small` makes of the handle, for this source. -/
def initStateSmall (s : EsclSane) (source : Source) (first : ColorMode) : EsclSane :=
  let caps := s.scanner.caps source
  { s with
    scanner := s.scanner.select source
      { caps with defaultColor := some (chooseColor first caps) }
    constraint := fun
      | .mode => .stringList (modeTexts caps.colorModes)
      | .tlX => range1 pixelToMm caps.minWidth caps.maxWidth
      | .tlY => range1 pixelToMm caps.minHeight caps.maxHeight
      | .brX => range2 pixelToMm caps.minWidth caps.maxWidth
      | .brY => range2 pixelToMm caps.minHeight caps.maxHeight
      | n => s.constraint n
    word := Function.update s.word .resolution caps.defaultResolution
    string := fun
      | .mode => some (chooseMode first caps).text
      | .scanSource => some source.text
      | n => s.string n }

/-- `init_options_small`, behind the choice of the source. -/
def initOptionsSource (s : EsclSane) : Except Fault EsclSane :=
  match s.scanner.usable with
  | none => .ok s
  | some source =>
      match (s.scanner.caps source).colorModes.head? with
      | none => .error .nullPointer
      | some first =>
          if s.scanner.listed source then .ok (initStateSmall pixelToMm s source first)
          else .error .nullPointer

/-- `init_options_small`. -/
def initOptionsSmall (name : List UInt8) (s : EsclSane) : Except Fault EsclSane :=
  let source := sourceOf name
  if source = s.scanner.source then .ok s
  else
    match s.scanner.current.defaultColor with
    | none => .error .nullPointer
    | some color =>
        match getResolution (s.scanner.caps source) s.scanner.current.defaultResolution with
        | .error fault => .error fault
        | .ok resolution =>
            initOptionsSource pixelToMm { s with
              scanner := s.scanner.select source
                { s.scanner.caps source with
                  defaultColor := some color, defaultResolution := resolution } }

/-- `SANE_Action`. -/
inductive Action where
  | getValue
  | setValue
  | setAuto
  deriving DecidableEq, Repr

/-- The arguments of `sane_control_option` besides the handle. -/
structure OptionCall where
  n : Int
  a : Action
  v : Option OptionMemory
  deriving DecidableEq, Repr

/-- What `SANE_ACTION_GET_VALUE` stores. -/
def EsclSane.getValue (s : EsclSane) (n : Opt) (v : OptionMemory) : Except Fault OptionMemory :=
  match n.type with
  | .group => .ok v
  | .string =>
      match s.string n with
      | some string => .ok { v with string := string }
      | none => .error .nullPointer
  | _ => .ok { v with word := s.word n }

/-- `SANE_ACTION_SET_VALUE`, for a value that is inside the constraint. -/
def EsclSane.setValue (s : EsclSane) (n : Opt) (v : OptionMemory) : Except Fault EsclSane :=
  match n with
  | .scanSource => initOptionsSmall pixelToMm v.string s
  | .mode =>
      .ok { s with
        string := Function.update s.string .mode (some v.string)
        scanner := s.scanner.select s.scanner.source
          { s.scanner.current with defaultColor := some (defaultColorFor v.string) }
        inactive := setActivity s.scanner v.string s.inactive }
  | .resolution =>
      match getResolution s.scanner.current v.word with
      | .error fault => .error fault
      | .ok resolution =>
          .ok { s with
            word := Function.update s.word .resolution resolution
            scanner := s.scanner.select s.scanner.source
              { s.scanner.current with defaultResolution := resolution } }
  | .modeGroup | .geometryGroup | .enhancementGroup => .ok s
  | n => .ok { s with word := Function.update s.word n v.word }

/-- `sane_control_option`: the status, what `v` points to behind the call, and the handle. -/
def saneControlOption (s : EsclSane) (call : OptionCall) :
    Except Fault (SaneStatus × Option OptionMemory × EsclSane) :=
  match call.v, Opt.ofIndex call.n with
  | some v, some n =>
      if s.inactive n then .ok (.inval, some v, s)
      else
        match call.a with
        | .getValue => do
            let v ← s.getValue n v
            .ok (.good, some v, s)
        | .setValue =>
            if n.settable then do
              match ← saneiConstrainValue (s.descriptor n) v with
              | none => .ok (.inval, some v, s)
              | some v =>
                  let s ← s.setValue pixelToMm n v
                  .ok (.good, some v, s)
            else .ok (.inval, some v, s)
        | .setAuto => .ok (.unsupported, some v, s)
  | v, _ => .ok (.inval, v, s)

/-- A handle and its calls. -/
def optionSystem (scanner : Scanner) : System EsclSane OptionCall where
  init s := initOptions pixelToMm scanner = .ok (some s)
  step s call s' := ∃ status v, saneControlOption pixelToMm s call = .ok (status, v, s')

end Conversion

end SaneBackends.Escl
