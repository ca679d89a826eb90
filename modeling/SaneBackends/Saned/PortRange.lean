import SaneBackends.Lib.CString
import SaneBackends.Saned.CheckHost
/-!
# The port range of `saned.conf`

`read_config` stores the start of the range before it has read the end, and sets it to 0 again if
there is no end. The end it has stored for an earlier line stays.
-/

namespace SaneBackends.Saned

open SaneBackends.Lib SaneBackends.Sanei

/-! ## The code -/

/-- What `read_config` sets. -/
structure ServerConfig where
  dataPortLo : UInt16 := 0
  dataPortHi : UInt16 := 0
  dataConnectTimeout : Int := 4000
  deriving DecidableEq

/-- `strtol` of base 10, with the text at `endval`, unless that is where it started. -/
def strtolEnd (str : List UInt8) : Option (Int × List UInt8) :=
  let unsigned :=
    match str.dropWhile isspace with
    | 45 :: str => str
    | 43 :: str => str
    | str => str
  (decimalNumber str).map fun val =>
    (max (-2 ^ 63) (min (2 ^ 63 - 1) val), unsigned.dropWhile fun c => digitValue c < 10)

def portrangeWord : List UInt8 :=
  ascii ['d', 'a', 't', 'a', '_', 'p', 'o', 'r', 't', 'r', 'a', 'n', 'g', 'e']

def timeoutWord : List UInt8 :=
  ascii ['d', 'a', 't', 'a', '_', 'c', 'o', 'n', 'n', 'e', 'c', 't', '_', 't', 'i', 'm', 'e', 'o',
    'u', 't']

/-- `data_portrange`, from the text behind the `=` on. -/
def readPortRange (optval : List UInt8) (config : ServerConfig) : ServerConfig :=
  let optval := saneiConfigSkipWhitespace optval
  if optval = [] then config
  else
    match strtolEnd optval with
    | none => config
    | some (val, endval) =>
        if val < 0 ∨ 65535 < val then config
        else
          match strchr endval 45 with
          | none => config
          | some optval =>
              let optval := saneiConfigSkipWhitespace optval.tail
              let config := { config with dataPortLo := UInt16.ofNat val.toNat }
              match strtolEnd optval with
              | none => { config with dataPortLo := 0 }
              | some (val, _) =>
                  if val < 0 ∨ 65535 < val then { config with dataPortLo := 0 }
                  else if val < config.dataPortLo.toNat then { config with dataPortLo := 0 }
                  else { config with dataPortHi := UInt16.ofNat val.toNat }

/-- `data_connect_timeout`, from the text behind the `=` on. -/
def readTimeout (optval : List UInt8) (config : ServerConfig) : ServerConfig :=
  let optval := saneiConfigSkipWhitespace optval
  if optval = [] then config
  else
    match strtolEnd optval with
    | none => config
    | some (val, _) =>
        if val < 0 ∨ 65535 < val then config else { config with dataConnectTimeout := val }

/-- One turn of the loop over the lines. -/
def readConfigLine (config : ServerConfig) (configLine : List UInt8) : ServerConfig :=
  if configLine.head? = some 35 then config
  else
    match strchr configLine 61 with
    | none => config
    | some optval =>
        if configLine = [] then config
        else if portrangeWord <:+: configLine then readPortRange optval.tail config
        else if timeoutWord <:+: configLine then readTimeout optval.tail config
        else config

def readConfigLines (config : ServerConfig) (lines : List (List UInt8)) : ServerConfig :=
  lines.foldl readConfigLine config

/-- `read_config` with the contents of the file, if it can be opened. -/
def readConfig (config : ServerConfig) (file : Option (List UInt8)) : ServerConfig :=
  match file with
  | none => config
  | some stream => readConfigLines config (configLines stream.length stream)

/-! ## What the lines say -/

/-- The number of a port. -/
def portOf (val : Int) : Option UInt16 :=
  if val < 0 ∨ 65535 < val then none else some (UInt16.ofNat val.toNat)

/-- The start of a range, with the text behind the hyphen. -/
def startPort (text : List UInt8) : Option (UInt16 × List UInt8) := do
  let (val, endval) ← strtolEnd (saneiConfigSkipWhitespace text)
  let lo ← portOf val
  let rest ← strchr endval 45
  some (lo, rest.tail)

def endPort (text : List UInt8) : Option UInt16 := do
  let (val, _) ← strtolEnd (saneiConfigSkipWhitespace text)
  portOf val

/-- The range that a text gives, unless it is malformed. -/
def portRange (text : List UInt8) : Option (UInt16 × UInt16) := do
  let (lo, rest) ← startPort text
  let hi ← endPort rest
  if lo ≤ hi then some (lo, hi) else none

/-- The text of a line for the port range. -/
def rangeText (line : List UInt8) : Option (List UInt8) :=
  if line.head? ≠ some 35 ∧ portrangeWord <:+: line then (strchr line 61).map List.tail else none

/-- The range of a well-formed line. -/
def lineRange (line : List UInt8) : Option (UInt16 × UInt16) := rangeText line >>= portRange

/-- A line for the port range without one. -/
def Malformed (line : List UInt8) : Prop :=
  ∃ text, rangeText line = some text ∧ portRange text = none

/-- A malformed line with nothing wrong before its end number. -/
def MalformedEnd (line : List UInt8) : Prop :=
  ∃ text, rangeText line = some text ∧ portRange text = none ∧ startPort text ≠ none

/-- The range of the last well-formed line. -/
def lastRange (lines : List (List UInt8)) : Option (UInt16 × UInt16) :=
  (lines.filterMap lineRange).getLast?

def ServerConfig.ports (config : ServerConfig) : UInt16 × UInt16 :=
  (config.dataPortLo, config.dataPortHi)

/-- The range is that of a line, and malformed lines leave it. -/
structure RangesKept (stream : List UInt8) : Prop where
  absent : (∀ line ∈ configLines stream.length stream, lineRange line = none) →
    (readConfig {} (some stream)).ports = (0, 0)
  given : (∃ line ∈ configLines stream.length stream, lineRange line ≠ none) →
    (∃ line ∈ configLines stream.length stream,
      lineRange line = some (readConfig {} (some stream)).ports) ∧
      (readConfig {} (some stream)).dataPortLo ≤ (readConfig {} (some stream)).dataPortHi
  kept : ∀ before line, before ++ [line] <+: configLines stream.length stream → Malformed line →
    (readConfigLines {} (before ++ [line])).ports = (readConfigLines {} before).ports

/-- Before each line with a malformed end, there is no well-formed one, or the last starts at 0. -/
def HarmlessEnds (lines : List (List UInt8)) : Prop :=
  ∀ before line, before ++ [line] <+: lines → MalformedEnd line →
    ∀ range, lastRange before = some range → range.1 = 0

section Ranges

variable {config : ServerConfig} {line text : List UInt8} {lines : List (List UInt8)}
  {stream : List UInt8} {range : UInt16 × UInt16}

/-- What a line for the port range sets. -/
theorem readPortRange_ports (text : List UInt8) (config : ServerConfig) :
    (readPortRange text config).ports =
      match portRange text with
      | some range => range
      | none => if startPort text = none then config.ports else (0, config.dataPortHi) := by
  unfold readPortRange portRange startPort endPort portOf
  by_cases hempty : saneiConfigSkipWhitespace text = []
  · rw [hempty]
    rfl
  · dsimp only
    rw [if_neg hempty]
    cases strtolEnd (saneiConfigSkipWhitespace text) with
    | none => rfl
    | some start =>
        obtain ⟨val, endval⟩ := start
        by_cases hval : val < 0 ∨ 65535 < val
        · simp only [if_pos hval, Option.bind_eq_bind, Option.bind_some, Option.bind_none, if_true]
        · cases hrest : strchr endval 45 with
          | none => simp [hval, hrest]
          | some rest =>
              simp only [if_neg hval, hrest, Option.bind_eq_bind, Option.bind_some,
                reduceCtorEq, if_false]
              cases strtolEnd (saneiConfigSkipWhitespace rest.tail) with
              | none => rfl
              | some stop =>
                  obtain ⟨val', -⟩ := stop
                  by_cases hval' : val' < 0 ∨ 65535 < val'
                  · simp [hval', ServerConfig.ports]
                  · have horder : val' < (UInt16.ofNat val.toNat).toNat ↔
                        ¬ UInt16.ofNat val.toNat ≤ UInt16.ofNat val'.toNat := by
                      rw [UInt16.le_iff_toNat_le, UInt16.toNat_ofNat', UInt16.toNat_ofNat']
                      omega
                    by_cases hle : UInt16.ofNat val.toNat ≤ UInt16.ofNat val'.toNat
                    · simp only [if_neg hval', Option.bind_some, horder, hle, not_true, if_true,
                        if_false]
                      rfl
                    · simp only [if_neg hval', Option.bind_some, horder, hle, not_false_iff, if_true,
                        if_false]
                      rfl

theorem readTimeout_ports (text : List UInt8) (config : ServerConfig) :
    (readTimeout text config).ports = config.ports := by
  unfold readTimeout
  dsimp only
  split
  · rfl
  · split
    · rfl
    · split_ifs <;> rfl

/-- A well-formed line sets the range, and a malformed end the start to 0. -/
theorem readConfigLine_ports (config : ServerConfig) (line : List UInt8) :
    (∀ range, lineRange line = some range → (readConfigLine config line).ports = range) ∧
      (MalformedEnd line → (readConfigLine config line).ports = (0, config.dataPortHi)) ∧
      (lineRange line = none → ¬ MalformedEnd line →
        (readConfigLine config line).ports = config.ports) := by
  unfold readConfigLine MalformedEnd lineRange rangeText
  by_cases hcomment : line.head? = some 35
  · simp [hcomment]
  · cases hopt : strchr line 61 with
    | none => simp [hcomment]
    | some optval =>
        have hne : line ≠ [] := by
          rintro rfl
          cases hopt
        by_cases hword : portrangeWord <:+: line
        · have hports := readPortRange_ports optval.tail config
          simp only [hcomment, hne, hword, ne_eq, not_false_iff, true_and, if_true, if_false,
            Option.map_some, Option.bind_eq_bind, Option.bind_some, Option.some.injEq,
            exists_eq_left']
          cases hrange : portRange optval.tail with
          | some range =>
              rw [hrange] at hports
              dsimp only at hports
              simp [hports]
          | none =>
              rw [hrange] at hports
              dsimp only at hports
              by_cases hstart : startPort optval.tail = none
              · simp [hports, hstart]
              · simp [hports, hstart]
        · simp only [hcomment, hne, hword, ne_eq, and_false, if_false]
          have hports := readTimeout_ports optval.tail config
          split_ifs <;> simp [hports]

theorem lastRange_concat (lines : List (List UInt8)) (line : List UInt8) :
    lastRange (lines ++ [line]) = (lineRange line).or (lastRange lines) := by
  unfold lastRange
  rw [List.filterMap_append]
  cases hrange : lineRange line with
  | none => simp [hrange]
  | some range => simp [hrange]

theorem malformed_of_malformedEnd (h : MalformedEnd line) : Malformed line := by
  obtain ⟨text, htext, hrange, -⟩ := h
  exact ⟨text, htext, hrange⟩

theorem lineRange_of_malformed (h : Malformed line) : lineRange line = none := by
  obtain ⟨text, htext, hrange⟩ := h
  rw [lineRange, htext]
  exact hrange

theorem readConfigLines_concat (config : ServerConfig) (lines : List (List UInt8))
    (line : List UInt8) : readConfigLines config (lines ++ [line]) =
      readConfigLine (readConfigLines config lines) line := by
  rw [readConfigLines, List.foldl_append]
  rfl

/-- As long as no malformed end changes the range, it is that of the last well-formed line. -/
theorem ports_of_kept (h : ∀ before line, before ++ [line] <+: lines → MalformedEnd line →
      (readConfigLines {} (before ++ [line])).ports = (readConfigLines {} before).ports) :
    (readConfigLines {} lines).ports = (lastRange lines).getD (0, 0) := by
  induction lines using List.reverseRecOn with
  | nil => rfl
  | append_singleton lines line ih =>
      have hbefore := ih fun before line' hpart =>
        h before line' (hpart.trans (List.prefix_append ..))
      have hlast := h lines line (List.prefix_refl _)
      obtain ⟨hrange, -, hother⟩ := readConfigLine_ports (readConfigLines {} lines) line
      rw [readConfigLines_concat] at hlast ⊢
      rw [lastRange_concat]
      cases hline : lineRange line with
      | some range => exact hrange range hline
      | none =>
          rw [Option.none_or, ← hbefore]
          by_cases hend : MalformedEnd line
          · exact hlast hend
          · exact hother hline hend

/-- If the ends matter nowhere else, the malformed lines leave the range. -/
theorem kept_of_harmlessEnds (h : HarmlessEnds lines) : ∀ before line, before ++ [line] <+: lines →
    MalformedEnd line →
    (readConfigLines {} (before ++ [line])).ports = (readConfigLines {} before).ports := by
  intro before
  induction hn : before.length using Nat.strong_induction_on generalizing before with
  | h n ih =>
      intro line hbefore hend
      have hports : (readConfigLines {} before).ports = (lastRange before).getD (0, 0) := by
        refine ports_of_kept fun earlier line' hearlier hend' => ?_
        have hlength := hearlier.length_le
        rw [List.length_append, List.length_singleton] at hlength
        exact ih earlier.length (by omega) earlier rfl line'
          (hearlier.trans ((List.prefix_append ..).trans hbefore)) hend'
      obtain ⟨-, hzero, -⟩ := readConfigLine_ports (readConfigLines {} before) line
      rw [readConfigLines_concat, hzero hend]
      have hlo : (readConfigLines {} before).dataPortLo = 0 := by
        change (readConfigLines {} before).ports.1 = 0
        rw [hports]
        cases hlast : lastRange before with
        | none => rfl
        | some range => exact h before line hbefore hend range hlast
      rw [ServerConfig.ports, hlo]

theorem portRange_le (h : portRange text = some range) : range.1 ≤ range.2 := by
  unfold portRange at h
  simp only [Option.bind_eq_bind, Option.bind_eq_some_iff] at h
  obtain ⟨⟨lo, rest⟩, -, hi, -, hsome⟩ := h
  split_ifs at hsome with hle
  cases hsome
  exact hle

theorem lineRange_le (h : lineRange line = some range) : range.1 ≤ range.2 := by
  obtain ⟨text, -, hrange⟩ := Option.bind_eq_some_iff.mp h
  exact portRange_le hrange

theorem lastRange_eq_some (h : lastRange lines = some range) :
    ∃ line ∈ lines, lineRange line = some range :=
  List.mem_filterMap.mp (List.mem_of_getLast? h)

theorem lastRange_eq_none : lastRange lines = none ↔ ∀ line ∈ lines, lineRange line = none := by
  rw [lastRange, List.getLast?_eq_none_iff, List.filterMap_eq_nil_iff]

end Ranges

/-- The range is that of a line, whatever is malformed, just if the malformed ends come where
they make no difference. -/
theorem rangesKept_iff (stream : List UInt8) :
    RangesKept stream ↔ HarmlessEnds (configLines stream.length stream) := by
  constructor
  · intro h before line hbefore hend range hlast
    have hports : (readConfigLines {} before).ports = (lastRange before).getD (0, 0) :=
      ports_of_kept fun earlier line' hearlier hend' =>
        h.kept earlier line' (hearlier.trans ((List.prefix_append ..).trans hbefore))
          (malformed_of_malformedEnd hend')
    have hkept := h.kept before line hbefore (malformed_of_malformedEnd hend)
    obtain ⟨-, hzero, -⟩ := readConfigLine_ports (readConfigLines {} before) line
    rw [readConfigLines_concat, hzero hend, hports, hlast] at hkept
    exact (congrArg Prod.fst hkept).symm
  · intro h
    have hkept := kept_of_harmlessEnds h
    have hports : (readConfig {} (some stream)).ports = _ := ports_of_kept hkept
    refine ⟨fun hnone => ?_, fun hsome => ?_, fun before line hbefore hbad => ?_⟩
    · rw [hports, lastRange_eq_none.mpr hnone]
      rfl
    · cases hlast : lastRange (configLines stream.length stream) with
      | none =>
          obtain ⟨line, hline, hrange⟩ := hsome
          exact absurd (lastRange_eq_none.mp hlast line hline) hrange
      | some range =>
          rw [hlast] at hports
          obtain ⟨line, hline, hrange⟩ := lastRange_eq_some hlast
          have hle := lineRange_le hrange
          rw [← show _ = range from hports] at hle hrange
          exact ⟨⟨line, hline, hrange⟩, hle⟩
    · by_cases hend : MalformedEnd line
      · exact hkept before line hbefore hend
      · obtain ⟨-, -, hother⟩ := readConfigLine_ports (readConfigLines {} before) line
        rw [readConfigLines_concat]
        exact hother (lineRange_of_malformed hbad) hend

/-- A range, and behind it a line without an end. -/
def openRange : List UInt8 :=
  portrangeWord ++ ascii ['=', '7', '-', '9', '\n'] ++ portrangeWord ++ ascii ['=', '7', '-']

/-- The range is none that a line gives. -/
theorem not_rangesKept_openRange :
    (readConfig {} (some openRange)).ports = (0, 9) ∧ ¬ RangesKept openRange := by
  have hports : (readConfig {} (some openRange)).ports = (0, 9) := by decide
  have hranges : (configLines openRange.length openRange).filterMap lineRange = [(7, 9)] := by
    decide
  refine ⟨hports, fun h => ?_⟩
  have hgiven : (7, 9) ∈ (configLines openRange.length openRange).filterMap lineRange := by
    rw [hranges]
    exact List.mem_singleton_self _
  obtain ⟨line, hline, hrange⟩ := List.mem_filterMap.mp hgiven
  obtain ⟨⟨line', hline', hrange'⟩, -⟩ := h.given ⟨line, hline, by rw [hrange]; simp⟩
  rw [hports] at hrange'
  have hmem := List.mem_filterMap.mpr ⟨line', hline', hrange'⟩
  rw [hranges, List.mem_singleton] at hmem
  cases hmem

end SaneBackends.Saned
