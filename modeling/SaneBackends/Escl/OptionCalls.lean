import SaneBackends.Escl.OptionState
/-!
# The calls that change the options of the eSCL backend

A change of the source, and the calls of `sane_control_option`: what they keep of the state of
the options.
-/

namespace SaneBackends.Escl

open SaneBackends.Lib SaneBackends.Sanei

section Switch

variable {pixelToMm : Int → SaneWord} {scanner : Scanner} {s : EsclSane} {source : Source}
  {first : ColorMode} {color : DefaultColor} {resolution : SaneWord} {caps : Caps}

theorem chooseColor_mode : (chooseColor first caps).mode = chooseMode first caps := by
  unfold chooseColor chooseMode
  split
  · split
    · rfl
    · exact defaultColorFor_text first
  · exact defaultColorFor_text first

theorem chooseMode_mem (hfirst : caps.colorModes.head? = some first) :
    chooseMode first caps ∈ caps.colorModes := by
  unfold chooseMode
  split
  · split
    · assumption
    · exact List.mem_of_mem_head? hfirst
  · exact List.mem_of_mem_head? hfirst

/-- The source with the defaults that are taken over from the one before. -/
def Caps.takeOver (caps : Caps) (color : DefaultColor) (resolution : SaneWord) : Caps :=
  { caps with defaultColor := some color, defaultResolution := resolution }

theorem chooseMode_takeOver (resolution : SaneWord) (hfirst : caps.colorModes.head? = some first) :
    chooseMode first (caps.takeOver color resolution) = modeAt caps color := by
  rw [modeAt, List.headD_eq_head?_getD, hfirst]
  rfl

theorem constraints_of_fits (hfits : Fits pixelToMm s source)
    (hconstraint : s.constraint = constraints pixelToMm s.scanner)
    (hcaps : caps.lists = (s.scanner.caps source).lists) (n : Opt) :
    constraints pixelToMm (s.scanner.select source caps) n =
      match n with
      | .mode => .stringList (modeTexts caps.colorModes)
      | .tlX => range1 pixelToMm caps.minWidth caps.maxWidth
      | .tlY => range1 pixelToMm caps.minHeight caps.maxHeight
      | .brX => range2 pixelToMm caps.minWidth caps.maxWidth
      | .brY => range2 pixelToMm caps.minHeight caps.maxHeight
      | n => s.constraint n := by
  obtain ⟨-, -, -, -, -, hresolutions⟩ := lists_eq hcaps
  rw [hconstraint]
  cases n with
  | resolution =>
      simp only [constraints, select_current]
      rw [hresolutions, hfits.resolutions]
  | mode | tlX | tlY | brX | brY => simp only [constraints, select_current]
  | _ => rfl

/-- Enhancements are active for a mode as for another that is Lineart where that is. -/
theorem setActivity_congr {mode mode' : ColorMode} {inactive : Opt → Bool}
    (h : (∃ n, (scanner.support n).isSome) → (mode = .lineart ↔ mode' = .lineart)) :
    setActivity scanner mode.text inactive = setActivity scanner mode'.text inactive := by
  funext n
  unfold setActivity
  split
  · next hsupport =>
      have hsame : decide (mode = .lineart) = decide (mode' = .lineart) :=
        decide_eq_decide.mpr (h ⟨n, hsupport⟩)
      rw [sameText_lineart, sameText_lineart, hsame]
  · rfl

/-- The handle behind the choice of a source. -/
def EsclSane.choose (s : EsclSane) (source : Source) (color : DefaultColor)
    (resolution : SaneWord) : EsclSane :=
  { s with
    scanner := s.scanner.select source ((s.scanner.caps source).takeOver color resolution) }

/-- A change to a source that fits sets up the state as `init_options` does for it, but for what
stays. -/
theorem initStateSmall_choose (color : DefaultColor) (resolution : SaneWord)
    (hinv : Inv pixelToMm scanner s)
    (hfirst : (s.scanner.caps source).colorModes.head? = some first)
    (hfits : Fits pixelToMm s source) :
    ∃ caps color', caps.lists = (s.scanner.caps source).lists ∧
      caps.defaultColor = some color' ∧ caps.defaultResolution = resolution ∧
      color'.mode = modeAt (s.scanner.caps source) color ∧
      initStateSmall pixelToMm (s.choose source color resolution) source first =
        { s with
          scanner := s.scanner.select source caps
          constraint := constraints pixelToMm (s.scanner.select source caps)
          word := Function.update s.word .resolution resolution
          string := fun
            | .mode => some color'.mode.text
            | .scanSource => some source.text
            | n => s.string n } := by
  have hcaps : (s.choose source color resolution).scanner.caps source =
      (s.scanner.caps source).takeOver color resolution := Function.update_self _ _ _
  have hmode : (chooseColor first ((s.scanner.caps source).takeOver color resolution)).mode =
      modeAt (s.scanner.caps source) color := by
    rw [chooseColor_mode, chooseMode_takeOver resolution hfirst]
  refine ⟨(s.scanner.caps source).takeOver
    (chooseColor first ((s.scanner.caps source).takeOver color resolution)) resolution, _, rfl, rfl,
    rfl, hmode, ?_⟩
  rw [initStateSmall, hcaps]
  have hselect : ∀ caps, (s.choose source color resolution).scanner.select source caps =
      s.scanner.select source caps := fun caps => select_select caps
  simp only [hselect]
  congr 1
  · have hconstraints := constraints_of_fits hfits hinv.constraint (rfl :
      ((s.scanner.caps source).takeOver
        (chooseColor first ((s.scanner.caps source).takeOver color resolution)) resolution).lists =
        (s.scanner.caps source).lists)
    funext n
    exact (hconstraints n).symm
  · funext n
    cases n <;> first | rfl | exact congrArg some (congrArg _ chooseColor_mode.symm)

/-- A change to a source that fits keeps the options consistent. -/
theorem Inv.switch (hinv : Inv pixelToMm scanner s) (havailable : s.scanner.Available source)
    (hcolor : color ∈ s.scanner.current.defaultColor)
    (hfirst : (s.scanner.caps source).colorModes.head? = some first)
    (hresolution : resolution ∈ (s.scanner.caps source).supportedResolutions)
    (hfits : Fits pixelToMm s source) :
    Inv pixelToMm scanner
      (initStateSmall pixelToMm (s.choose source color resolution) source first) := by
  obtain ⟨caps, color', hlists, hcolor', hdefault, hmode, heq⟩ :=
    initStateSmall_choose color resolution hinv hfirst hfits
  obtain ⟨hw, hW, hh, hH, hmodes, hresolutions⟩ := lists_eq hlists
  have hmem : color'.mode ∈ caps.colorModes := by
    rw [hmode, hmodes, ← chooseMode_takeOver resolution hfirst]
    exact chooseMode_mem hfirst
  rw [heq]
  have hself : Function.update s.word .resolution resolution .resolution = resolution :=
    Function.update_self _ _ _
  have hother (n : Opt) (hn : n ≠ .resolution) :
      Function.update s.word .resolution resolution n = s.word n := Function.update_of_ne hn _ _
  refine ⟨hinv.same.select hlists, havailable, ⟨color', ?_, rfl, ?_⟩, rfl, rfl, hinv.size, ?_, ?_,
    ?_⟩
  · rw [select_current]
    exact hcolor'
  · rw [select_current]
    exact hmem
  · have hnew := constraints_of_fits hfits hinv.constraint hlists
    have htlX := hfits.tlX
    have htlY := hfits.tlY
    have hbrX := hfits.brX
    have hbrY := hfits.brY
    rw [← hw, ← hW] at htlX hbrX
    rw [← hh, ← hH] at htlY hbrY
    have hkept (n : Opt) (hconstraint : constraints pixelToMm (s.scanner.select source caps) n =
        s.constraint n) (hn : n ≠ .resolution) (htype : n.type ≠ .string) :
        EsclSane.Accepted { s with
          scanner := s.scanner.select source caps
          constraint := constraints pixelToMm (s.scanner.select source caps)
          word := Function.update s.word .resolution resolution
          string := fun
            | .mode => some color'.mode.text
            | .scanSource => some source.text
            | n => s.string n } n := by
      refine (hinv.accepted n).congr hconstraint rfl (hother n hn) ?_
      cases n <;> first | rfl | exact absurd rfl htype
    intro n
    cases n with
    | mode => exact accepted_string rfl (hnew .mode) rfl (List.mem_map_of_mem hmem) (zero_notMem_mode _)
    | scanSource => exact accepted_string rfl rfl rfl havailable.mem_sources (zero_notMem_source _)
    | resolution =>
        have hlist : constraints pixelToMm (s.scanner.select source caps) .resolution =
            .wordList caps.supportedResolutions := by
          rw [constraints, select_current]
        have hword : Function.update s.word .resolution resolution .resolution ∈
            caps.supportedResolutions := by
          rw [hself, hresolutions]
          exact hresolution
        exact accepted_wordList (by decide) (hinv.size .resolution (by decide) (by decide)) hlist hword
    | tlX =>
        exact accepted_of_inRange (n := .tlX) (by decide)
          (hinv.size .tlX (by decide) (by decide)) (hnew .tlX) (hother .tlX (by decide)) htlX
    | tlY =>
        exact accepted_of_inRange (n := .tlY) (by decide)
          (hinv.size .tlY (by decide) (by decide)) (hnew .tlY) (hother .tlY (by decide)) htlY
    | brX =>
        exact accepted_of_inRange (n := .brX) (by decide)
          (hinv.size .brX (by decide) (by decide)) (hnew .brX) (hother .brX (by decide)) hbrX
    | brY =>
        exact accepted_of_inRange (n := .brY) (by decide)
          (hinv.size .brY (by decide) (by decide)) (hnew .brY) (hother .brY (by decide)) hbrY
    | numOpts | modeGroup | geometryGroup | enhancementGroup | preview | grayPreview |
      brightness | contrast | sharpen | threshold =>
        exact hkept _ (hnew _) (by decide) (by decide)
  · rw [select_current, hdefault]
    exact hself
  · intro text htext
    cases htext
    obtain ⟨old, hold, htext, -⟩ := hinv.color
    obtain rfl : color = old := Option.some.inj (hcolor.symm.trans hold)
    rw [setActivity_select, hinv.inactive _ htext, hmode]
    exact setActivity_congr fun hsome => (hfits.lineart hsome color hcolor).symm

theorem getResolution_eq (hne : caps.supportedResolutions ≠ []) (resol : SaneWord) :
    ∃ resolution, getResolution caps resol = .ok resolution := by
  obtain ⟨first, resolutions, hlist⟩ := List.exists_cons_of_ne_nil hne
  rw [getResolution, hlist]
  exact ⟨_, rfl⟩

/-- `init_options_small` for a source that can be chosen. -/
theorem initOptionsSmall_eq (hinv : Inv pixelToMm scanner s) (husable : scanner.Usable)
    {name : List UInt8} (hname : name ∈ s.scanner.sources)
    (hother : sourceOf name ≠ s.scanner.source) :
    ∃ color ∈ s.scanner.current.defaultColor, ∃ first resolution,
      (s.scanner.caps (sourceOf name)).colorModes.head? = some first ∧
      resolution ∈ (s.scanner.caps (sourceOf name)).supportedResolutions ∧
      initOptionsSmall pixelToMm name s =
        .ok (initStateSmall pixelToMm (s.choose (sourceOf name) color resolution)
          (sourceOf name) first) := by
  obtain ⟨havailable, -⟩ := available_sourceOf hname
  generalize hname' : sourceOf name = source at hother havailable ⊢
  have hlisted : s.scanner.listed source = true := havailable.listed
  have hlisted' : scanner.listed source = true := hinv.same.listed ▸ hlisted
  obtain ⟨-, -, -, -, hmodes, hresolutions⟩ := lists_eq (hinv.same.lists source)
  have hmodes' : (s.scanner.caps source).colorModes ≠ [] :=
    hmodes ▸ (husable.colorModes source).mp hlisted'
  have hresolutions' : (s.scanner.caps source).supportedResolutions ≠ [] :=
    hresolutions ▸ husable.resolutions source hlisted'
  obtain ⟨color, hcolor, -⟩ := hinv.color
  obtain ⟨first, hfirst⟩ := Option.isSome_iff_exists.mp (List.isSome_head?.mpr hmodes')
  obtain ⟨resolution, hresolution⟩ := getResolution_eq hresolutions'
    s.scanner.current.defaultResolution
  refine ⟨color, hcolor, first, resolution, hfirst, getResolution_mem hresolution, ?_⟩
  have hchosen : (s.choose source color resolution).scanner.current =
      (s.scanner.caps source).takeOver color resolution := select_current
  have husing : (s.choose source color resolution).scanner.usable = some source := by
    rw [Scanner.usable, hchosen, if_pos (by exact hmodes')]
    rfl
  have hcaps : (s.choose source color resolution).scanner.caps source =
      (s.scanner.caps source).takeOver color resolution := hchosen
  have hsource : initOptionsSource pixelToMm (s.choose source color resolution) =
      .ok (initStateSmall pixelToMm (s.choose source color resolution) source first) := by
    rw [initOptionsSource, husing]
    simp only [hcaps]
    rw [show ((s.scanner.caps source).takeOver color resolution).colorModes.head? = some first
      from hfirst]
    exact if_pos hlisted
  simp only [initOptionsSmall, hname', if_neg hother, Option.mem_def.mp hcolor, hresolution]
  exact hsource

end Switch

section Call

variable {pixelToMm : Int → SaneWord} {scanner : Scanner} {s s' : EsclSane} {n : Opt}
  {v v' : OptionMemory}

theorem Inv.resolutions_ne_nil (hinv : Inv pixelToMm scanner s) (husable : scanner.Usable) :
    s.scanner.current.supportedResolutions ≠ [] := by
  obtain ⟨-, -, -, -, -, hresolutions⟩ := lists_eq (hinv.same.lists s.scanner.source)
  rw [Scanner.current, hresolutions]
  exact husable.resolutions _ (hinv.same.listed ▸ hinv.available.listed)

/-- A value inside its constraint can be set. -/
theorem setValue_safe (hinv : Inv pixelToMm scanner s) (husable : scanner.Usable)
    (hvalue : saneiConstrainValue (s.descriptor n) v = .ok (some v')) :
    ∃ s', s.setValue pixelToMm n v' = .ok s' := by
  cases n with
  | scanSource =>
      have hconstraint : (s.descriptor .scanSource).constraint = .stringList s.scanner.sources :=
        congrFun hinv.constraint .scanSource
      have hname := mem_of_constrain_string hconstraint hvalue
      rw [EsclSane.setValue]
      by_cases hother : sourceOf v'.string = s.scanner.source
      · exact ⟨s, by rw [initOptionsSmall]; exact if_pos hother⟩
      · obtain ⟨_, _, _, _, _, _, heq⟩ := initOptionsSmall_eq hinv husable hname hother
        exact ⟨_, heq⟩
  | resolution =>
      obtain ⟨resolution, hresolution⟩ :=
        getResolution_eq (hinv.resolutions_ne_nil husable) v'.word
      rw [EsclSane.setValue, hresolution]
      exact ⟨_, rfl⟩
  | _ => exact ⟨_, rfl⟩

/-- A value that is stored can be read. -/
theorem getValue_safe (hinv : Inv pixelToMm scanner s) (n : Opt) (v : OptionMemory) :
    ∃ v', s.getValue n v = .ok v' := by
  obtain ⟨color, -, hmode, -⟩ := hinv.color
  cases n with
  | mode =>
      rw [EsclSane.getValue, hmode]
      exact ⟨_, rfl⟩
  | scanSource =>
      rw [EsclSane.getValue, hinv.scanSource]
      exact ⟨_, rfl⟩
  | _ => exact ⟨_, rfl⟩

/-- A value can be brought into every constraint, or is refused. -/
theorem constrain_safe (hinv : Inv pixelToMm scanner s) (husable : scanner.Usable) (n : Opt)
    (v : OptionMemory) : ∃ result, saneiConstrainValue (s.descriptor n) v = .ok result := by
  have hne : (s.descriptor n).constraint ≠ .wordList [] := by
    have hconstraint : (s.descriptor n).constraint = constraints pixelToMm s.scanner n :=
      congrFun hinv.constraint n
    rw [hconstraint]
    cases n with
    | resolution =>
        have hsome := hinv.resolutions_ne_nil husable
        simpa only [constraints, ne_eq, OptionConstraint.wordList.injEq] using hsome
    | brightness | contrast | sharpen | threshold => exact supportConstraint_ne_wordList _ _
    | _ =>
        intro h
        cases h
  unfold saneiConstrainValue
  split
  · exact ⟨_, rfl⟩
  · next heq => exact absurd heq hne
  · exact ⟨_, rfl⟩
  · exact ⟨_, rfl⟩
  · split <;> exact ⟨_, rfl⟩

/-- Every call returns. -/
theorem controlOption_safe (hinv : Inv pixelToMm scanner s) (husable : scanner.Usable)
    (call : OptionCall) : ∃ result, saneControlOption pixelToMm s call = .ok result := by
  unfold saneControlOption
  split
  · next v n hv hn =>
      split
      · exact ⟨_, rfl⟩
      · split
        · obtain ⟨v', hget⟩ := getValue_safe hinv n v
          rw [hget]
          exact ⟨_, rfl⟩
        · split
          · obtain ⟨result, hconstrain⟩ := constrain_safe hinv husable n v
            rw [hconstrain]
            cases result with
            | none => exact ⟨_, rfl⟩
            | some v' =>
                obtain ⟨s', hset⟩ := setValue_safe hinv husable hconstrain
                simp only [ok_bind, hset]
                exact ⟨_, rfl⟩
          · exact ⟨_, rfl⟩
        · exact ⟨_, rfl⟩
  · exact ⟨_, rfl⟩

theorem setValue_inv (hinv : Inv pixelToMm scanner s) (hconv : Converts pixelToMm)
    (husable : scanner.Usable) (hplain : scanner.Plain)
    (hfits : n = .scanSource → sourceOf v'.string ≠ s.scanner.source →
      Fits pixelToMm s (sourceOf v'.string))
    (hvalue : saneiConstrainValue (s.descriptor n) v = .ok (some v'))
    (h : s.setValue pixelToMm n v' = .ok s') : Inv pixelToMm scanner s' := by
  have hsound := hinv.constraint_sound hconv husable hplain n
  cases n with
  | scanSource =>
      have hconstraint : (s.descriptor .scanSource).constraint = .stringList s.scanner.sources :=
        congrFun hinv.constraint .scanSource
      have hname := mem_of_constrain_string hconstraint hvalue
      rw [EsclSane.setValue] at h
      by_cases hother : sourceOf v'.string = s.scanner.source
      · rw [initOptionsSmall] at h
        simp only [hother, if_true, Except.ok.injEq] at h
        exact h ▸ hinv
      · obtain ⟨color, hcolor, first, resolution, hfirst, hresolution, heq⟩ :=
          initOptionsSmall_eq hinv husable hname hother
        rw [heq] at h
        cases h
        exact hinv.switch (available_sourceOf hname).1 hcolor hfirst hresolution
          (hfits rfl hother)
  | mode => exact hinv.setMode hvalue h
  | resolution => exact hinv.setResolution h
  | modeGroup | geometryGroup | enhancementGroup =>
      cases h
      exact hinv
  | numOpts | tlX | tlY | brX | brY | preview | grayPreview | brightness | contrast | sharpen |
    threshold =>
      cases h
      exact hinv.setWord hsound (by decide) (by decide) (by decide) hvalue

/-- A call that does not switch to a source that does not fit keeps the options consistent. -/
theorem controlOption_inv (hinv : Inv pixelToMm scanner s) (hconv : Converts pixelToMm)
    (husable : scanner.Usable) (hplain : scanner.Plain) {call : OptionCall}
    (hkeeps : Keeps pixelToMm s call) {status : SaneStatus} {v : Option OptionMemory}
    (h : saneControlOption pixelToMm s call = .ok (status, v, s')) : Inv pixelToMm scanner s' := by
  unfold saneControlOption at h
  split at h
  · next v n hv hn =>
      split at h
      · cases h
        exact hinv
      · split at h
        · obtain ⟨v', hget⟩ := getValue_safe hinv n v
          rw [hget] at h
          cases h
          exact hinv
        · next ha =>
            split at h
            · obtain ⟨result, hconstrain⟩ := constrain_safe hinv husable n v
              rw [hconstrain] at h
              cases result with
              | none =>
                  cases h
                  exact hinv
              | some v' =>
                  obtain ⟨s₁, hset⟩ := setValue_safe hinv husable hconstrain
                  simp only [ok_bind, hset] at h
                  cases h
                  refine setValue_inv hinv hconv husable hplain ?_ hconstrain hset
                  rintro rfl hother
                  refine hkeeps _ ?_
                  simp only [switches, hv, hn, ha, and_self, if_true, hconstrain, hother, if_false]
                  exact Option.mem_some_self _
            · cases h
              exact hinv
        · cases h
          exact hinv
  · cases h
    exact hinv

/-- What the invariant says for a frontend. -/
theorem Inv.consistent (hinv : Inv pixelToMm scanner s) (husable : scanner.Usable) :
    Consistent pixelToMm s := by
  obtain ⟨color, hcolor, hmode, -⟩ := hinv.color
  have hlineart : s.string .mode = some ColorMode.lineart.text ↔ color.mode = .lineart := by
    rw [hmode, Option.some.injEq]
    exact ⟨text_injective, congrArg _⟩
  have hinactive := congrFun (hinv.inactive _ hmode)
  refine ⟨controlOption_safe hinv husable, congrFun hinv.constraint .mode,
    congrFun hinv.constraint .resolution, congrFun hinv.constraint .tlX,
    congrFun hinv.constraint .tlY, congrFun hinv.constraint .brX, congrFun hinv.constraint .brY,
    fun n _ => hinv.accepted n, hinv.resolution, ⟨color, hcolor, hmode⟩, ?_, ?_⟩
  · rw [hinactive, hlineart, setActivity, sameText_lineart]
    have hsupport : s.scanner.support .threshold = s.scanner.threshold := rfl
    rw [hsupport]
    split
    · next hsome => simp [hsome]
    · next hnone => simp [hnone, Opt.enhances]
  · intro n hn
    have henhances : n.enhances = true ∧ n ≠ .threshold := by
      simp only [List.mem_cons, List.not_mem_nil, or_false] at hn
      obtain rfl | rfl | rfl := hn <;> exact ⟨rfl, by decide⟩
    rw [hinactive, ne_eq, hlineart, setActivity, sameText_lineart, if_neg henhances.2]
    split
    · next hsome => simp [hsome]
    · next hnone => simp [hnone, henhances.1]

/-- In every run whose calls keep the options consistent, they are. -/
theorem consistent_of_reach (pixelToMm : Int → SaneWord) (hconv : Converts pixelToMm)
    (scanner : Scanner) (husable : scanner.Usable) (hplain : scanner.Plain) {s : EsclSane}
    (h : (optionSystem pixelToMm scanner).Reach (Keeps pixelToMm) s) :
    Consistent pixelToMm s := by
  have hinv : Inv pixelToMm scanner s := by
    have hinit (s : EsclSane) (hs : initOptions pixelToMm scanner = .ok (some s)) :
        Inv pixelToMm scanner s := inv_initOptions hconv husable hplain hs
    refine h.invariant hinit ?_
    rintro s call s' - hinv hkeeps ⟨status, v, hcall⟩
    exact controlOption_inv hinv hconv husable hplain hkeeps hcall
  exact hinv.consistent husable

/-- The conversion at 300 pixels an inch, without the rounding of floating point. -/
def pixelToMm300 (pixels : Int) : SaneWord := BitVec.ofInt 32 (pixels * 16646144 / 3000)

theorem converts_300 : Converts pixelToMm300 where
  zero := rfl
  mono a b hlow hle hhigh := by
    simp only [maxPixels] at hlow hhigh
    have htoInt (x : Int) (hx : -387023 ≤ x) (hx' : x ≤ 387023) :
        (pixelToMm300 x).toInt = x * 16646144 / 3000 := by
      rw [pixelToMm300, BitVec.toInt_ofInt, Int.bmod_def]
      omega
    rw [BitVec.sle_iff_toInt_le, htoInt a hlow (by omega), htoInt b (by omega) hhigh]
    omega

/-- A source of letter size. -/
def letterCaps (modes : List ColorMode) (resolutions : List SaneWord) : Caps :=
  ⟨none, 0, 16, 2550, 16, 3300, modes, resolutions⟩

/-- A scanner with a flatbed and a feeder. -/
def feederScanner (resolutions : List SaneWord) : Scanner where
  caps
    | .platen => letterCaps [.gray, .color] [100, 300]
    | .adfSimplex => letterCaps [.color] resolutions
    | .adfDuplex => ⟨none, 0, 0, 0, 0, 0, [], []⟩
  listed
    | .platen | .adfSimplex => true
    | .adfDuplex => false
  source := .platen
  brightness := none
  contrast := none
  sharpen := none
  threshold := none

theorem usable_feeder {resolutions : List SaneWord} (hne : resolutions ≠ []) :
    (feederScanner resolutions).Usable where
  colorModes source := by
    cases source with
    | platen | adfSimplex => exact ⟨fun _ => nofun, fun _ => rfl⟩
    | adfDuplex => exact ⟨nofun, fun h => absurd rfl h⟩
  resolutions source hlisted := by
    cases source with
    | platen => exact nofun
    | adfSimplex => exact hne
    | adfDuplex => cases hlisted
  width source hlisted := by
    cases source with
    | platen | adfSimplex => exact (by decide : (16 : Int) < 2550)
    | adfDuplex => cases hlisted
  height source hlisted := by
    cases source with
    | platen | adfSimplex => exact (by decide : (16 : Int) < 3300)
    | adfDuplex => cases hlisted
  defaultColor source := by cases source <;> rfl
  source := rfl

theorem plain_feeder (resolutions : List SaneWord) : (feederScanner resolutions).Plain where
  platen := rfl
  supports n support hsupport := by cases n <;> cases hsupport
  width source hlisted := by
    cases source with
    | platen | adfSimplex =>
        exact (by decide : -maxPixels ≤ 16 ∧ 2550 ≤ maxPixels ∧ 2550 - 16 ≤ maxPixels)
    | adfDuplex => cases hlisted
  height source hlisted := by
    cases source with
    | platen | adfSimplex =>
        exact (by decide : -maxPixels ≤ 16 ∧ 3300 ≤ maxPixels ∧ 3300 - 16 ≤ maxPixels)
    | adfDuplex => cases hlisted

/-- The call that changes the source to the feeder. -/
def chooseFeeder : OptionCall := ⟨4, .setValue, some ⟨0, Source.adfSimplex.text⟩⟩

/-- The handle behind `sane_open`. -/
def feederStart (resolutions : List SaneWord) : EsclSane :=
  initState pixelToMm300 ((feederScanner resolutions).select .platen
    ((letterCaps [.gray, .color] [100, 300]).takeOver .grayscale8 100)) ColorMode.gray.text

theorem reach_feederStart (C : EsclSane → OptionCall → Prop) (resolutions : List SaneWord) :
    (optionSystem pixelToMm300 (feederScanner resolutions)).Reach C (feederStart resolutions) :=
  .start rfl

theorem consistent_of_reach_feeder :
    ∃ s, s.scanner.source = .adfSimplex ∧ Consistent pixelToMm300 s := by
  have hkeeps : Keeps pixelToMm300 (feederStart [100, 300]) chooseFeeder := by
    intro source hsource
    cases hsource
    exact ⟨rfl, rfl, rfl, rfl, rfl, fun ⟨n, hn⟩ => by cases n <;> cases hn⟩
  have hstep : (optionSystem pixelToMm300 (feederScanner [100, 300])).step
      (feederStart [100, 300]) chooseFeeder _ := ⟨.good, _, rfl⟩
  have hreach := (reach_feederStart (Keeps pixelToMm300) [100, 300]).next hkeeps hstep
  exact ⟨_, rfl, consistent_of_reach pixelToMm300 converts_300 (feederScanner [100, 300])
    (usable_feeder nofun) (plain_feeder _) hreach⟩

/-- A change to a feeder with other resolutions leaves those of the flatbed in the constraint. -/
theorem not_consistent_feeder :
    ¬ ∀ pixelToMm : Int → SaneWord, Converts pixelToMm → ∀ scanner : Scanner, scanner.Usable →
      ∀ s, (optionSystem pixelToMm scanner).Reachable s → Consistent pixelToMm s := by
  intro hall
  have hstep : (optionSystem pixelToMm300 (feederScanner [200])).step
      (feederStart [200]) chooseFeeder _ := ⟨.good, _, rfl⟩
  have hreach := (reach_feederStart (fun _ _ => True) [200]).next trivial hstep
  have hconsistent := hall pixelToMm300 converts_300 (feederScanner [200]) (usable_feeder nofun) _
    hreach
  have hstale := hconsistent.resolutions
  cases hstale

end Call
end SaneBackends.Escl
