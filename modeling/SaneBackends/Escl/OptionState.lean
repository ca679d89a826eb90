import SaneBackends.Escl.Options
/-!
# The state of the options of the eSCL backend

A handle whose options are those of the current source stays so through calls that change
options. A change of the source keeps it as far as `init_options_small` repeats `init_options`:
the resolutions, the values of the geometry and the activity of the enhancements stay as
they are.
-/

namespace SaneBackends.Escl

open SaneBackends.Lib SaneBackends.Sanei

/-- What is stored for an option, as `sanei_check_value` gets it. -/
def EsclSane.stored (s : EsclSane) (n : Opt) : List UInt8 :=
  match n.type with
  | .string => match s.string n with
      | some string => string ++ [0]
      | none => []
  | _ => storedWord (s.word n)

/-- The value is inside the constraint. -/
def EsclSane.Accepted (s : EsclSane) (n : Opt) : Prop :=
  saneiCheckValue (s.descriptor n) (s.stored n) = .ok .good

section State

variable (pixelToMm : Int → SaneWord)

/-- What a frontend relies on. -/
structure Consistent (s : EsclSane) : Prop where
  safe : ∀ call, ∃ result, saneControlOption pixelToMm s call = .ok result
  modes : s.constraint .mode = .stringList (modeTexts s.scanner.current.colorModes)
  resolutions : s.constraint .resolution = .wordList s.scanner.current.supportedResolutions
  tlX : s.constraint .tlX =
    range1 pixelToMm s.scanner.current.minWidth s.scanner.current.maxWidth
  tlY : s.constraint .tlY =
    range1 pixelToMm s.scanner.current.minHeight s.scanner.current.maxHeight
  brX : s.constraint .brX =
    range2 pixelToMm s.scanner.current.minWidth s.scanner.current.maxWidth
  brY : s.constraint .brY =
    range2 pixelToMm s.scanner.current.minHeight s.scanner.current.maxHeight
  accepted : ∀ n, s.inactive n = false → s.Accepted n
  resolution : s.word .resolution = s.scanner.current.defaultResolution
  mode : ∃ color, s.scanner.current.defaultColor = some color ∧
    s.string .mode = some color.mode.text
  threshold : s.inactive .threshold = false ↔
    s.scanner.threshold.isSome ∧ s.string .mode = some ColorMode.lineart.text
  enhancements : ∀ n ∈ [Opt.brightness, .contrast, .sharpen], s.inactive n = false ↔
    (s.scanner.support n).isSome ∧ s.string .mode ≠ some ColorMode.lineart.text

/-- The source that a call switches to. -/
def switches (s : EsclSane) (call : OptionCall) : Option Source :=
  match call.v with
  | none => none
  | some v =>
      if Opt.ofIndex call.n = some .scanSource ∧ call.a = .setValue then
        match saneiConstrainValue (s.descriptor .scanSource) v with
        | .ok (some v) =>
            if sourceOf v.string = s.scanner.source then none else some (sourceOf v.string)
        | _ => none
      else none

/-- The word is inside a range. -/
def OptionHolds (constraint : OptionConstraint) (w : SaneWord) : Prop :=
  match constraint with
  | .range min max quant => inRange min max quant w = true
  | _ => True

/-- The mode that a source starts with if it is chosen with this default colour. -/
def modeAt (caps : Caps) (color : DefaultColor) : ColorMode :=
  if color.mode ∈ caps.colorModes then color.mode else caps.colorModes.headD .gray

/-- A source for which what `init_options_small` leaves as it is fits: it has the resolutions of
the current source, its ranges have the values of the geometry, and its mode is Lineart where
the current one is, if there are enhancements at all. -/
structure Fits (s : EsclSane) (source : Source) : Prop where
  resolutions : (s.scanner.caps source).supportedResolutions =
    s.scanner.current.supportedResolutions
  tlX : OptionHolds (range1 pixelToMm (s.scanner.caps source).minWidth
    (s.scanner.caps source).maxWidth) (s.word .tlX)
  tlY : OptionHolds (range1 pixelToMm (s.scanner.caps source).minHeight
    (s.scanner.caps source).maxHeight) (s.word .tlY)
  brX : OptionHolds (range2 pixelToMm (s.scanner.caps source).minWidth
    (s.scanner.caps source).maxWidth) (s.word .brX)
  brY : OptionHolds (range2 pixelToMm (s.scanner.caps source).minHeight
    (s.scanner.caps source).maxHeight) (s.word .brY)
  lineart : (∃ n, (s.scanner.support n).isSome) → ∀ color ∈ s.scanner.current.defaultColor,
    (modeAt (s.scanner.caps source) color = .lineart ↔ color.mode = .lineart)

/-- The calls that keep the options consistent: every one that does not switch to a source that
does not fit. -/
def Keeps (s : EsclSane) (call : OptionCall) : Prop :=
  ∀ source ∈ switches s call, Fits pixelToMm s source

/-- What `escl_capabilities` gives for a scanner each of whose listed sources has a mode and a
resolution and minimum sizes below the maximum ones. -/
structure Scanner.Usable (scanner : Scanner) : Prop where
  colorModes : ∀ source, scanner.listed source = true ↔ (scanner.caps source).colorModes ≠ []
  resolutions : ∀ source, scanner.listed source = true →
    (scanner.caps source).supportedResolutions ≠ []
  width : ∀ source, scanner.listed source = true →
    (scanner.caps source).minWidth < (scanner.caps source).maxWidth
  height : ∀ source, scanner.listed source = true →
    (scanner.caps source).minHeight < (scanner.caps source).maxHeight
  defaultColor : ∀ source, (scanner.caps source).defaultColor = none
  source : scanner.source = .platen

/-- The largest number of pixels whose length in millimetres is a `SANE_Fixed`. -/
def maxPixels : Int := 387023

/-- A conversion that keeps the order of lengths which it can represent. -/
structure Converts : Prop where
  zero : pixelToMm 0 = 0
  mono : ∀ a b, -maxPixels ≤ a → a ≤ b → b ≤ maxPixels → (pixelToMm a).sle (pixelToMm b) = true

/-- A scanner with a flatbed, with supports whose value is inside their range and with sizes that
can be represented. -/
structure Scanner.Plain (scanner : Scanner) : Prop where
  platen : scanner.listed .platen = true
  supports : ∀ n, ∀ support ∈ scanner.support n,
    inRange support.min support.max 1 support.value = true
  width : ∀ source, scanner.listed source = true → -maxPixels ≤ (scanner.caps source).minWidth ∧
    (scanner.caps source).maxWidth ≤ maxPixels ∧
    (scanner.caps source).maxWidth - (scanner.caps source).minWidth ≤ maxPixels
  height : ∀ source, scanner.listed source = true → -maxPixels ≤ (scanner.caps source).minHeight ∧
    (scanner.caps source).maxHeight ≤ maxPixels ∧
    (scanner.caps source).maxHeight - (scanner.caps source).minHeight ≤ maxPixels

/-- The part of the capabilities that is never changed. -/
def Caps.lists (caps : Caps) : Int × Int × Int × Int × List ColorMode × List SaneWord :=
  (caps.minWidth, caps.maxWidth, caps.minHeight, caps.maxHeight, caps.colorModes,
    caps.supportedResolutions)

/-- The two scanners differ in nothing but the current source and the defaults. -/
structure SameScanner (scanner scanner' : Scanner) : Prop where
  lists : ∀ source, (scanner'.caps source).lists = (scanner.caps source).lists
  listed : scanner'.listed = scanner.listed
  brightness : scanner'.brightness = scanner.brightness
  contrast : scanner'.contrast = scanner.contrast
  sharpen : scanner'.sharpen = scanner.sharpen
  threshold : scanner'.threshold = scanner.threshold

/-- A source whose string is in the constraint of the source option. -/
def Scanner.Available (scanner : Scanner) (source : Source) : Prop :=
  source ∈ [Source.platen, .adfSimplex, .adfDuplex].takeWhile scanner.listed

/-- What every call keeps that does not switch to a source that does not fit. -/
structure Inv (scanner : Scanner) (s : EsclSane) : Prop where
  same : SameScanner scanner s.scanner
  available : s.scanner.Available s.scanner.source
  color : ∃ color ∈ s.scanner.current.defaultColor, s.string .mode = some color.mode.text ∧
    color.mode ∈ s.scanner.current.colorModes
  scanSource : s.string .scanSource = some s.scanner.source.text
  constraint : s.constraint = constraints pixelToMm s.scanner
  size : ∀ n, n.type ≠ .group → n.type ≠ .string → s.size n = 4
  accepted : ∀ n, s.Accepted n
  resolution : s.word .resolution = s.scanner.current.defaultResolution
  inactive : ∀ mode ∈ s.string .mode, s.inactive = setActivity s.scanner mode Opt.enhances

end State

section Scanner

variable {scanner scanner' : Scanner} {source : Source} {caps : Caps}

@[simp] theorem select_source : (scanner.select source caps).source = source := rfl

@[simp] theorem select_current : (scanner.select source caps).current = caps :=
  Function.update_self _ _ _

@[simp] theorem select_support : (scanner.select source caps).support = scanner.support := by
  funext n
  cases n <;> rfl

@[simp] theorem select_sources : (scanner.select source caps).sources = scanner.sources := rfl

theorem select_select (caps' : Caps) :
    (scanner.select source caps).select source caps' = scanner.select source caps' := by
  rw [Scanner.select, Scanner.select, Scanner.select, Function.update_idem]

/-- Only the defaults of the selected source change. -/
theorem SameScanner.select (h : SameScanner scanner scanner')
    (hcaps : caps.lists = (scanner'.caps source).lists) :
    SameScanner scanner (scanner'.select source caps) where
  lists other := by
    by_cases heq : other = source
    · subst heq
      exact (congrArg Caps.lists select_current).trans (hcaps.trans (h.lists _))
    · have hother : (scanner'.select source caps).caps other = scanner'.caps other :=
        Function.update_of_ne heq _ _
      rw [hother, h.lists]
  listed := h.listed
  brightness := h.brightness
  contrast := h.contrast
  sharpen := h.sharpen
  threshold := h.threshold

theorem SameScanner.support (h : SameScanner scanner scanner') :
    scanner'.support = scanner.support := by
  funext n
  cases n <;> first | rfl | exact h.brightness | exact h.contrast | exact h.sharpen | exact h.threshold

/-- The sources that can be chosen are those whose strings are in the list. -/
theorem available_sourceOf {name : List UInt8} (h : name ∈ scanner.sources) :
    scanner.Available (sourceOf name) ∧ (sourceOf name).text = name := by
  obtain ⟨source, hsource, rfl⟩ := List.mem_map.mp h
  have heq : sourceOf source.text = source := by cases source <;> decide
  rw [heq]
  exact ⟨hsource, rfl⟩

theorem Scanner.Available.listed (h : scanner.Available source) : scanner.listed source = true :=
  List.mem_takeWhile_imp h

theorem Scanner.Available.mem_sources (h : scanner.Available source) :
    source.text ∈ scanner.sources := List.mem_map.mpr ⟨source, h, rfl⟩

theorem zero_notMem_source (source : Source) : 0 ∉ source.text := by cases source <;> decide

theorem zero_notMem_mode (mode : ColorMode) : 0 ∉ mode.text := by cases mode <;> decide

theorem defaultColorFor_text (mode : ColorMode) : (defaultColorFor mode.text).mode = mode := by
  cases mode <;> rfl

theorem text_injective {mode mode' : ColorMode} (h : mode.text = mode'.text) : mode = mode' := by
  cases mode <;> cases mode' <;> first | rfl | exact absurd h (by decide)

theorem sameText_lineart (mode : ColorMode) :
    sameText mode.text ColorMode.lineart.text = decide (mode = .lineart) := by
  cases mode <;> rfl

end Scanner

section Accepted

variable {s s' : EsclSane} {n : Opt}

/-- Whether a value is accepted depends on its option only. -/
theorem EsclSane.Accepted.congr (h : s.Accepted n) (hconstraint : s'.constraint n = s.constraint n)
    (hsize : s'.size n = s.size n) (hword : s'.word n = s.word n)
    (hstring : s'.string n = s.string n) : s'.Accepted n := by
  unfold EsclSane.Accepted EsclSane.descriptor EsclSane.stored at *
  rwa [hconstraint, hsize, hword, hstring]

theorem stored_word (htype : n.type ≠ .string) : s.stored n = storedWord (s.word n) := by
  unfold EsclSane.stored
  split
  · next h => exact absurd h htype
  · rfl

theorem stored_string {text : List UInt8} (htype : n.type = .string)
    (htext : s.string n = some text) : s.stored n = text ++ [0] := by
  rw [EsclSane.stored, htype, htext]

theorem accepted_string {strings : List (List UInt8)} {text : List UInt8} (htype : n.type = .string)
    (hconstraint : s.constraint n = .stringList strings) (htext : s.string n = some text)
    (hmem : text ∈ strings) (hzero : 0 ∉ text) : s.Accepted n := by
  rw [EsclSane.Accepted, stored_string htype htext]
  exact (@check_string_iff (s.descriptor n) _ _ hconstraint hzero).mpr hmem

theorem accepted_range {min max quant : SaneWord} (htype : n.type ≠ .string)
    (hsize : s.size n = 4) (hconstraint : s.constraint n = .range min max quant) :
    s.Accepted n ↔ inRange min max quant (s.word n) = true := by
  have hrange : (s.descriptor n).constraint = .range min max quant := hconstraint
  rw [EsclSane.Accepted, stored_word htype, check_word_iff hsize (by simp [hrange]) (by simp [hrange]),
    hrange]

theorem accepted_of_inRange {min max quant w : SaneWord} (htype : n.type ≠ .string)
    (hsize : s.size n = 4) (hconstraint : s.constraint n = .range min max quant)
    (hword : s.word n = w) (h : inRange min max quant w = true) : s.Accepted n :=
  (accepted_range htype hsize hconstraint).mpr (hword ▸ h)

theorem accepted_wordList {words : List SaneWord} (htype : n.type ≠ .string)
    (hsize : s.size n = 4) (hconstraint : s.constraint n = .wordList words)
    (hmem : s.word n ∈ words) : s.Accepted n := by
  have hlist : (s.descriptor n).constraint = .wordList words := hconstraint
  have hne : words ≠ [] := List.ne_nil_of_mem hmem
  rw [EsclSane.Accepted, stored_word htype, check_word_iff hsize (by simp [hlist]) (by simp [hlist, hne]),
    hlist]
  exact hmem

/-- Without a constraint everything is accepted but truth values that are none. -/
theorem accepted_none (htype : n.type ≠ .string) (hconstraint : s.constraint n = .none)
    (hbool : n.type = .bool → s.size n = 4 ∧ (s.word n = 0 ∨ s.word n = 1)) : s.Accepted n := by
  have hnone : (s.descriptor n).constraint = .none := hconstraint
  by_cases hb : n.type = .bool
  · obtain ⟨hsize, hword⟩ := hbool hb
    rw [EsclSane.Accepted, stored_word htype,
      check_word_iff hsize (by simp [hnone]) (by simp [hnone]), hnone]
    exact fun _ => hword
  · have hdescriptor : (s.descriptor n).type = n.type := rfl
    unfold EsclSane.Accepted saneiCheckValue
    rw [hnone]
    simp only [hdescriptor]

/-- A value that was brought into its constraint is accepted. -/
theorem accepted_constrained {v v' : OptionMemory} (htype : n.type ≠ .string)
    (hsize : s.size n = 4) (hsound : (s.constraint n).Sound)
    (hlist : ∀ l, s.constraint n ≠ .stringList l)
    (h : saneiConstrainValue (s.descriptor n) v = .ok (some v'))
    (hconstraint' : s'.constraint n = s.constraint n) (hsize' : s'.size n = s.size n)
    (hword' : s'.word n = v'.word) : s'.Accepted n := by
  have hsame : s'.descriptor n = s.descriptor n := by
    rw [EsclSane.descriptor, EsclSane.descriptor, hconstraint', hsize']
  rw [EsclSane.Accepted, stored_word htype, hword', hsame]
  exact check_of_constrain_word hsize hsound hlist h

end Accepted

section Constraints

variable {pixelToMm : Int → SaneWord} {scanner scanner' : Scanner} {source : Source} {caps : Caps}

theorem lists_eq {caps caps' : Caps} (h : caps.lists = caps'.lists) :
    caps.minWidth = caps'.minWidth ∧ caps.maxWidth = caps'.maxWidth ∧
      caps.minHeight = caps'.minHeight ∧ caps.maxHeight = caps'.maxHeight ∧
      caps.colorModes = caps'.colorModes ∧
      caps.supportedResolutions = caps'.supportedResolutions := by
  simpa only [Caps.lists, Prod.mk.injEq] using h

/-- New defaults leave the constraints as they are. -/
theorem constraints_select (h : caps.lists = scanner.current.lists) :
    constraints pixelToMm (scanner.select scanner.source caps) = constraints pixelToMm scanner := by
  obtain ⟨hw, hW, hh, hH, hmodes, hresolutions⟩ := lists_eq h
  funext n
  cases n <;> simp only [constraints, select_current, select_sources, hw, hW, hh, hH, hmodes,
    hresolutions] <;> rfl

theorem range1_sound (hconv : Converts pixelToMm) {min max : Int} (hlt : min < max)
    (hfits : max - min ≤ maxPixels) : (range1 pixelToMm min max).Sound := by
  have hmono := hconv.mono 0 (max - min) (by decide) (by omega) hfits
  rw [hconv.zero] at hmono
  exact ⟨hmono, .inl rfl⟩

theorem range2_sound (hconv : Converts pixelToMm) {min max : Int} (hlt : min < max)
    (hmin : -maxPixels ≤ min) (hmax : max ≤ maxPixels) : (range2 pixelToMm min max).Sound :=
  ⟨hconv.mono min max hmin (by omega) hmax, .inl rfl⟩

theorem between_of_inRange {min max quant w : SaneWord} (h : inRange min max quant w = true) :
    min.sle w = true ∧ w.sle max = true := by
  rw [inRange] at h
  split at h
  · cases h
  · next hin =>
      simp only [BitVec.slt_iff_toInt_lt, BitVec.sle_iff_toInt_le] at *
      omega

theorem supportConstraint_ne_stringList (support : Option Support) (l : List (List UInt8)) :
    supportConstraint support ≠ .stringList l := by
  cases support <;> nofun

theorem supportConstraint_ne_wordList (support : Option Support) (l : List SaneWord) :
    supportConstraint support ≠ .wordList l := by
  cases support <;> nofun

theorem constraints_ne_stringList {n : Opt} (hstring : n.type ≠ .string) (l : List (List UInt8)) :
    constraints pixelToMm scanner n ≠ .stringList l := by
  cases n with
  | mode | scanSource => exact absurd rfl hstring
  | brightness | contrast | sharpen | threshold => exact supportConstraint_ne_stringList _ l
  | _ => nofun

theorem supportConstraint_sound {support : Option Support}
    (h : ∀ sup ∈ support, inRange sup.min sup.max 1 sup.value = true) :
    (supportConstraint support).Sound := by
  cases support with
  | none => exact ⟨by decide, .inr rfl⟩
  | some sup =>
      obtain ⟨hmin, hmax⟩ := between_of_inRange (h sup rfl)
      simp only [BitVec.sle_iff_toInt_le] at hmin hmax
      exact ⟨by rw [BitVec.sle_iff_toInt_le]; omega, .inr rfl⟩

/-- A value can be brought into every constraint. -/
theorem constraints_sound (hconv : Converts pixelToMm) (husable : scanner.Usable)
    (hplain : scanner.Plain) (hsame : SameScanner scanner scanner')
    (hlisted : scanner'.listed scanner'.source = true) (n : Opt) :
    (constraints pixelToMm scanner' n).Sound := by
  rw [hsame.listed] at hlisted
  obtain ⟨hw, hW, hh, hH, -, hresolutions⟩ := lists_eq (hsame.lists scanner'.source)
  obtain ⟨hwmin, hwmax, hwfits⟩ := hplain.width _ hlisted
  obtain ⟨hhmin, hhmax, hhfits⟩ := hplain.height _ hlisted
  have hwidth := husable.width _ hlisted
  have hheight := husable.height _ hlisted
  have hsupport (n : Opt) : ∀ sup ∈ scanner'.support n, inRange sup.min sup.max 1 sup.value = true :=
    hsame.support ▸ hplain.supports n
  cases n with
  | mode | scanSource => trivial
  | resolution =>
      have hne := husable.resolutions _ hlisted
      rw [← hresolutions] at hne
      exact hne
  | tlX => exact range1_sound hconv (by rw [Scanner.current]; omega) (by rw [Scanner.current]; omega)
  | tlY => exact range1_sound hconv (by rw [Scanner.current]; omega) (by rw [Scanner.current]; omega)
  | brX =>
      exact range2_sound hconv (by rw [Scanner.current]; omega) (by rw [Scanner.current]; omega)
        (by rw [Scanner.current]; omega)
  | brY =>
      exact range2_sound hconv (by rw [Scanner.current]; omega) (by rw [Scanner.current]; omega)
        (by rw [Scanner.current]; omega)
  | brightness => exact supportConstraint_sound (hsupport .brightness)
  | contrast => exact supportConstraint_sound (hsupport .contrast)
  | sharpen => exact supportConstraint_sound (hsupport .sharpen)
  | threshold => exact supportConstraint_sound (hsupport .threshold)
  | _ => trivial

end Constraints

section Open

variable {pixelToMm : Int → SaneWord} {scanner : Scanner} {s : EsclSane}

theorem inRange_min {min max : SaneWord} (h : min.sle max = true) : inRange min max 0 min = true :=
  inRange_of_between (.inl rfl) (by simp [BitVec.sle_iff_toInt_le]) h

theorem inRange_max {min max : SaneWord} (h : min.sle max = true) : inRange min max 0 max = true :=
  inRange_of_between (.inl rfl) h (by simp [BitVec.sle_iff_toInt_le])

/-- The value of an enhancement behind `init_options`. -/
theorem accepted_support {n : Opt} {support : Option Support} (htype : n.type ≠ .string)
    (hsize : s.size n = 4) (hconstraint : s.constraint n = supportConstraint support)
    (hword : s.word n = (support.map Support.value).getD 0)
    (h : ∀ sup ∈ support, inRange sup.min sup.max 1 sup.value = true) : s.Accepted n := by
  cases support with
  | none =>
      rw [accepted_range htype hsize hconstraint, hword]
      decide
  | some sup =>
      rw [accepted_range htype hsize hconstraint, hword]
      exact h sup rfl

/-- The state that `init_options` sets up, for a source with this mode and this resolution. -/
theorem inv_initState {scanner' : Scanner} {color : DefaultColor} (hconv : Converts pixelToMm)
    (husable : scanner.Usable) (hplain : scanner.Plain) (hsame : SameScanner scanner scanner')
    (havailable : scanner'.Available scanner'.source)
    (hcolor : scanner'.current.defaultColor = some color)
    (hmode : color.mode ∈ scanner'.current.colorModes)
    (hresolution : scanner'.current.defaultResolution ∈ scanner'.current.supportedResolutions) :
    Inv pixelToMm scanner (initState pixelToMm scanner' color.mode.text) := by
  have hsound := constraints_sound hconv husable hplain hsame havailable.listed
  have hsupport (n : Opt) : ∀ sup ∈ scanner'.support n, inRange sup.min sup.max 1 sup.value = true :=
    hsame.support ▸ hplain.supports n
  have hzero : inRange 0 255 1 0 = true := by decide
  refine ⟨hsame, havailable, ⟨color, hcolor, rfl, hmode⟩, rfl, rfl, ?_, ?_, rfl, ?_⟩
  · intro n hgroup hstring
    cases n <;> first | rfl | exact absurd rfl hgroup | exact absurd rfl hstring
  · intro n
    cases n with
    | mode =>
        exact accepted_string rfl rfl rfl (List.mem_map_of_mem hmode) (zero_notMem_mode _)
    | scanSource =>
        exact accepted_string rfl rfl rfl havailable.mem_sources (zero_notMem_source _)
    | resolution => exact accepted_wordList nofun rfl rfl hresolution
    | tlX => exact accepted_of_inRange (n := .tlX) nofun rfl rfl rfl (inRange_min (hsound .tlX).1)
    | tlY => exact accepted_of_inRange (n := .tlY) nofun rfl rfl rfl (inRange_min (hsound .tlY).1)
    | brX => exact accepted_of_inRange (n := .brX) nofun rfl rfl rfl (inRange_max (hsound .brX).1)
    | brY => exact accepted_of_inRange (n := .brY) nofun rfl rfl rfl (inRange_max (hsound .brY).1)
    | brightness => exact accepted_support (n := .brightness) nofun rfl rfl rfl (hsupport .brightness)
    | contrast => exact accepted_support (n := .contrast) nofun rfl rfl rfl (hsupport .contrast)
    | sharpen => exact accepted_support (n := .sharpen) nofun rfl rfl rfl (hsupport .sharpen)
    | threshold => exact accepted_support (n := .threshold) nofun rfl rfl rfl (hsupport .threshold)
    | preview | grayPreview => exact accepted_none nofun rfl fun _ => ⟨rfl, .inl rfl⟩
    | numOpts | modeGroup | geometryGroup | enhancementGroup =>
        exact accepted_none nofun rfl nofun
  · intro mode hmode
    cases hmode
    rfl

/-- `init_options` makes the options consistent. -/
theorem inv_initOptions (hconv : Converts pixelToMm) (husable : scanner.Usable)
    (hplain : scanner.Plain) (h : initOptions pixelToMm scanner = .ok (some s)) :
    Inv pixelToMm scanner s := by
  have hcurrent : scanner.current = scanner.caps .platen := by rw [Scanner.current, husable.source]
  have hmodes := (husable.colorModes .platen).mp hplain.platen
  have husing : scanner.usable = some .platen := by
    rw [Scanner.usable, hcurrent, if_pos hmodes, husable.source]
  have hresolutions := husable.resolutions .platen hplain.platen
  obtain ⟨first, hfirst⟩ := Option.isSome_iff_exists.mp (List.isSome_head?.mpr hmodes)
  obtain ⟨resolution, hresolution⟩ :=
    Option.isSome_iff_exists.mp (List.isSome_head?.mpr hresolutions)
  rw [initOptions, husing] at h
  simp only [hfirst, hresolution, husable.defaultColor] at h
  rw [if_pos (by exact hplain.platen)] at h
  cases h
  have hmode := defaultColorFor_text first
  generalize defaultColorFor first.text = color at hmode ⊢
  subst hmode
  refine inv_initState hconv husable hplain
    (SameScanner.select ⟨fun _ => rfl, rfl, rfl, rfl, rfl, rfl⟩ rfl) ?_ ?_ ?_ ?_
  · have havailable : scanner.Available .platen := by
      rw [Scanner.Available, List.takeWhile_cons_of_pos hplain.platen]
      exact .head _
    exact havailable
  · rw [select_current]
  · rw [select_current]
    exact List.mem_of_mem_head? hfirst
  · rw [select_current]
    exact List.mem_of_mem_head? hresolution

end Open

section Set

variable {pixelToMm : Int → SaneWord} {scanner : Scanner} {s s' : EsclSane}
  {n : Opt} {v v' : OptionMemory}

/-- What the last mode says of the enhancements counts. -/
theorem setActivity_setActivity (mode mode' : List UInt8) (inactive : Opt → Bool) :
    setActivity scanner mode' (setActivity scanner mode inactive) =
      setActivity scanner mode' inactive := by
  funext n
  unfold setActivity
  split <;> rfl

theorem setActivity_select (source : Source) (caps : Caps) :
    setActivity (scanner.select source caps) = setActivity scanner := by
  funext mode inactive n
  rw [setActivity, setActivity, select_support]

theorem getResolutionLoop_mem {resol first : SaneWord} {resolutions all : List SaneWord}
    {old : SaneWord} (hfirst : first ∈ all) (hsub : ∀ r ∈ resolutions, r ∈ all)
    (hold : old ∈ all ∨ (old = -1 ∧ resolutions ≠ [])) :
    getResolutionLoop resol first resolutions old ∈ all := by
  induction resolutions generalizing old with
  | nil => exact hold.resolve_right fun h => h.2 rfl
  | cons resolution resolutions ih =>
      have hmem := hsub resolution (.head _)
      rw [getResolutionLoop]
      split
      · next heq => exact heq ▸ hmem
      · split
        · split
          · exact hfirst
          · next hne => exact hold.resolve_right fun h => hne h.1
        · exact ih (fun r hr => hsub r (.tail _ hr)) (.inl hmem)

/-- The resolution that is found is one of the source. -/
theorem getResolution_mem {caps : Caps} {resol resolution : SaneWord}
    (h : getResolution caps resol = .ok resolution) : resolution ∈ caps.supportedResolutions := by
  unfold getResolution at h
  split at h
  · cases h
  · next first resolutions hlist =>
      cases h
      rw [hlist]
      exact getResolutionLoop_mem (.head _) (fun r hr => hr) (.inr ⟨rfl, nofun⟩)

theorem Inv.constraint_sound (hinv : Inv pixelToMm scanner s) (hconv : Converts pixelToMm)
    (husable : scanner.Usable) (hplain : scanner.Plain) (n : Opt) : (s.constraint n).Sound :=
  hinv.constraint ▸ constraints_sound hconv husable hplain hinv.same hinv.available.listed n

/-- An option that is a word takes the value that was brought into its constraint. -/
theorem Inv.setWord (hinv : Inv pixelToMm scanner s) (hsound : (s.constraint n).Sound)
    (hstring : n.type ≠ .string) (hgroup : n.type ≠ .group) (hresolution : n ≠ .resolution)
    (hvalue : saneiConstrainValue (s.descriptor n) v = .ok (some v')) :
    Inv pixelToMm scanner { s with word := Function.update s.word n v'.word } where
  same := hinv.same
  available := hinv.available
  color := hinv.color
  scanSource := hinv.scanSource
  constraint := hinv.constraint
  size := hinv.size
  accepted m := by
    by_cases heq : m = n
    · subst heq
      have hlist : ∀ l, s.constraint m ≠ .stringList l := by
        rw [hinv.constraint]
        exact constraints_ne_stringList hstring
      exact accepted_constrained hstring (hinv.size m hgroup hstring) hsound hlist hvalue rfl rfl
        (Function.update_self _ _ _)
    · exact (hinv.accepted m).congr rfl rfl (Function.update_of_ne heq _ _) rfl
  resolution := (Function.update_of_ne (Ne.symm hresolution) _ _).trans hinv.resolution
  inactive := hinv.inactive

/-- A call that sets the mode. -/
theorem Inv.setMode (hinv : Inv pixelToMm scanner s)
    (hvalue : saneiConstrainValue (s.descriptor .mode) v = .ok (some v'))
    (h : s.setValue pixelToMm .mode v' = .ok s') : Inv pixelToMm scanner s' := by
  have hconstraint : (s.descriptor .mode).constraint =
      .stringList (modeTexts s.scanner.current.colorModes) := congrFun hinv.constraint .mode
  obtain ⟨mode, hmode, htext⟩ := List.mem_map.mp (mem_of_constrain_string hconstraint hvalue)
  rw [EsclSane.setValue] at h
  cases h
  rw [← htext]
  have hconstraints : constraints pixelToMm (s.scanner.select s.scanner.source
      { s.scanner.current with defaultColor := some (defaultColorFor mode.text) }) =
      constraints pixelToMm s.scanner := constraints_select rfl
  have hself : Function.update s.string .mode (some mode.text) .mode = some mode.text :=
    Function.update_self _ _ _
  have hother (n : Opt) (hn : n ≠ .mode) :
      Function.update s.string .mode (some mode.text) n = s.string n :=
    Function.update_of_ne hn _ _
  refine ⟨hinv.same.select rfl, hinv.available, ⟨defaultColorFor mode.text, ?_, ?_, ?_⟩, ?_, ?_,
    hinv.size, fun n => ?_, ?_, ?_⟩
  · rw [select_current]
    exact Option.mem_def.mpr rfl
  · rw [defaultColorFor_text]
    exact hself
  · rw [select_current, defaultColorFor_text]
    exact hmode
  · exact (hother .scanSource nofun).trans hinv.scanSource
  · exact hinv.constraint.trans hconstraints.symm
  · by_cases heq : n = .mode
    · subst heq
      exact accepted_string rfl hconstraint hself (List.mem_map_of_mem hmode) (zero_notMem_mode _)
    · exact (hinv.accepted n).congr rfl rfl rfl (hother n heq)
  · rw [select_current]
    exact hinv.resolution
  · intro text htext
    obtain ⟨color, hcolor, hold, -⟩ := hinv.color
    obtain rfl : mode.text = text := Option.some.inj (hself.symm.trans htext)
    rw [setActivity_select, hinv.inactive _ hold, setActivity_setActivity]

/-- A call that sets the resolution. -/
theorem Inv.setResolution (hinv : Inv pixelToMm scanner s)
    (h : s.setValue pixelToMm .resolution v = .ok s') : Inv pixelToMm scanner s' := by
  rw [EsclSane.setValue] at h
  split at h
  · cases h
  · next resolution hresolution =>
      cases h
      have hmem := getResolution_mem hresolution
      have hconstraints : constraints pixelToMm (s.scanner.select s.scanner.source
          { s.scanner.current with defaultResolution := resolution }) =
          constraints pixelToMm s.scanner := constraints_select rfl
      have hself : Function.update s.word .resolution resolution .resolution = resolution :=
        Function.update_self _ _ _
      obtain ⟨color, hcolor, htext, hmode⟩ := hinv.color
      refine ⟨hinv.same.select rfl, hinv.available, ⟨color, ?_, htext, ?_⟩, hinv.scanSource, ?_,
        hinv.size, fun n => ?_, ?_, ?_⟩
      · rw [select_current]
        exact hcolor
      · rw [select_current]
        exact hmode
      · exact hinv.constraint.trans hconstraints.symm
      · by_cases heq : n = .resolution
        · subst heq
          have hconstraint : s.constraint .resolution =
              .wordList s.scanner.current.supportedResolutions :=
            congrFun hinv.constraint .resolution
          have hword : Function.update s.word .resolution resolution .resolution ∈
              s.scanner.current.supportedResolutions := hself.symm ▸ hmem
          exact accepted_wordList nofun (hinv.size .resolution nofun nofun) hconstraint hword
        · exact (hinv.accepted n).congr rfl rfl (Function.update_of_ne heq _ _) rfl
      · rw [select_current]
        exact hself
      · intro text htext
        rw [hinv.inactive text htext, setActivity_select]

end Set

end SaneBackends.Escl
