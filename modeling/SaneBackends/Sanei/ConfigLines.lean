import SaneBackends.Sanei.Config
/-!
# Which lines of a configuration file set options

A line sets the option its first token names, or its second one behind the word
`option`; a line with well-formed tokens that names no option is passed on. The loop
takes every token that begins with `option` for that word, and searches for a second
token without asking whether there is one.
-/

namespace SaneBackends.Sanei

open SaneBackends.Lib

/-- A line whose option is to be found by `token`, with the text behind it. -/
def keyedLine (names : List (List UInt8)) (line text token : List UInt8) : LineKind :=
  match names.findIdx? (· == token) with
  | some i => .option i text
  | none => .attach line

/-- How a trimmed line ought to be handled, given the names of the options. -/
def lineKind (names : List (List UInt8)) (line : List UInt8) : LineKind :=
  if line = [] ∨ line.head? = some 35 then .skip
  else
    match saneiConfigGetString line with
    | (_, none) => .skip
    | (rest, some token) =>
        if token = optionWord then
          match saneiConfigGetString rest with
          | (_, none) => .skip
          | (rest, some token) => keyedLine names line rest token
        else keyedLine names line rest token

/-- A first token that begins like the keyword, and the second token by which its line
is handled all the same: there is none, or the first token is another word and one of the
two names an option. -/
def MisreadTokens (names : List (List UInt8)) (token : List UInt8) (second : Option (List UInt8)) :
    Prop :=
  optionWord <+: token ∧
    match second with
    | none => token = optionWord ∨ names ≠ []
    | some second => token ≠ optionWord ∧ (second ∈ names ∨ token ∈ names)

/-- A line, neither empty nor a comment, whose first two tokens are misread. -/
def Misread (names : List (List UInt8)) (line : List UInt8) : Prop :=
  line ≠ [] ∧ line.head? ≠ some 35 ∧
    ∃ rest token, saneiConfigGetString line = (rest, some token) ∧
      MisreadTokens names token (saneiConfigGetString rest).2

def optionNames (config : SaneiConfig) : List (List UInt8) := config.map (·.descriptor.name)

theorem length_dropWhile_lt {p : UInt8 → Bool} {l : List UInt8} (h : l.takeWhile p ≠ []) :
    (l.dropWhile p).length < l.length := by
  have hsplit := congrArg List.length (List.takeWhile_append_dropWhile (p := p) (l := l))
  have hpos := List.length_pos_iff.mpr h
  rw [List.length_append] at hsplit
  omega

/-- A token that is not empty is taken off the text. -/
theorem saneiConfigGetString_length {str rest token : List UInt8}
    (h : saneiConfigGetString str = (rest, some token)) (htoken : token ≠ []) :
    rest.length < str.length := by
  have hskip : (saneiConfigSkipWhitespace str).length ≤ str.length :=
    (List.dropWhile_sublist _).length_le
  unfold saneiConfigGetString at h
  split at h
  · next start hstart =>
      rw [hstart, List.length_cons] at hskip
      split at h
      · cases h
      · next c after hafter =>
          obtain ⟨rfl, -⟩ := Prod.mk.inj h
          have hle := (List.dropWhile_sublist (· ≠ 34) (l := start)).length_le
          rw [hafter, List.length_cons] at hle
          omega
  · obtain ⟨rfl, htok⟩ := Prod.mk.inj h
    rw [Option.some.injEq] at htok
    subst htok
    exact (length_dropWhile_lt htoken).trans_le hskip

theorem strncmpEq_optionWord {token : List UInt8} :
    strncmpEq token optionWord 6 = true ↔ optionWord <+: token := by
  have hword : (optionWord ++ [0]).take 6 = optionWord := rfl
  rw [strncmpEq, hword, beq_iff_eq, List.prefix_iff_eq_take, eq_comm]
  have hlen : optionWord.length = 6 := rfl
  rw [hlen]
  by_cases h : 6 ≤ token.length
  · rw [List.take_append_of_le_length h]
  · have hend : (token ++ [0]).take 6 = token ++ [0] := List.take_of_length_le (by simp; omega)
    have hall : token.take 6 = token := List.take_of_length_le (by omega)
    rw [hend, hall]
    constructor
    · intro hword
      have hmem : (0 : UInt8) ∈ optionWord := by
        rw [hword]
        simp
      exact absurd hmem (by decide)
    · rintro rfl
      exact absurd (show 6 ≤ optionWord.length from Nat.le_refl 6) h

theorem findOption_some (config : SaneiConfig) (token : List UInt8) :
    findOption config (some token) = .ok ((optionNames config).findIdx? (· == token)) := by
  induction config with
  | nil => rfl
  | cons option options ih =>
      rw [findOption, ih]
      by_cases hname : option.descriptor.name = token
      · simp [hname, optionNames, List.findIdx?_cons]
      · simp [hname, optionNames, List.findIdx?_cons, ok_bind]

theorem findOption_none (config : SaneiConfig) :
    findOption config none = if config = [] then .ok none else .error .nullPointer := by
  cases config with
  | nil => rfl
  | cons option options => simp [findOption]

theorem keyedLine_of_not_mem {names : List (List UInt8)} {token : List UInt8}
    (h : token ∉ names) (line text : List UInt8) :
    keyedLine names line text token = .attach line := by
  have hnone : names.findIdx? (· == token) = none := by
    rw [List.findIdx?_eq_none_iff]
    intro name hname
    exact beq_false_of_ne fun heq => h (heq ▸ hname)
  rw [keyedLine, hnone]

theorem keyedLine_of_mem {names : List (List UInt8)} {token : List UInt8}
    (h : token ∈ names) (line text : List UInt8) :
    ∃ i, keyedLine names line text token = .option i text ∧ names[i]? = some token := by
  cases hfound : names.findIdx? (· == token) with
  | none =>
      rw [List.findIdx?_eq_none_iff] at hfound
      have hself := hfound token h
      rw [beq_self_eq_true] at hself
      cases hself
  | some i =>
      obtain ⟨hlt, hname, -⟩ := List.findIdx?_eq_some_iff_getElem.mp hfound
      refine ⟨i, by rw [keyedLine, hfound], ?_⟩
      rw [List.getElem?_eq_getElem hlt, eq_of_beq hname]

/-- Two tokens lead to the same handling only if neither names an option, unless it is
the same option and the same text. -/
theorem keyedLine_eq_iff {names : List (List UInt8)} {line text text' token token' : List UInt8}
    (htext : token = token' → text ≠ text') :
    keyedLine names line text token = keyedLine names line text' token' ↔
      ¬ (token ∈ names ∨ token' ∈ names) := by
  by_cases hmem : token ∈ names <;> by_cases hmem' : token' ∈ names
  · obtain ⟨i, hkind, hi⟩ := keyedLine_of_mem hmem line text
    obtain ⟨j, hkind', hj⟩ := keyedLine_of_mem hmem' line text'
    rw [hkind, hkind']
    refine iff_of_false (fun heq => ?_) (not_not.mpr (.inl hmem))
    cases heq
    rw [hi] at hj
    exact htext (Option.some.inj hj) rfl
  · obtain ⟨i, hkind, -⟩ := keyedLine_of_mem hmem line text
    rw [hkind, keyedLine_of_not_mem hmem']
    exact iff_of_false (by simp) (not_not.mpr (.inl hmem))
  · obtain ⟨j, hkind', -⟩ := keyedLine_of_mem hmem' line text'
    rw [hkind', keyedLine_of_not_mem hmem]
    exact iff_of_false (by simp) (not_not.mpr (.inr hmem'))
  · rw [keyedLine_of_not_mem hmem, keyedLine_of_not_mem hmem']
    exact iff_of_true rfl (by simp [hmem, hmem'])

theorem searchLine_some (config : SaneiConfig) (line text token : List UInt8) :
    searchLine config line text (some token) =
      .ok (keyedLine (optionNames config) line text token) := by
  rw [searchLine, findOption_some, ok_bind, keyedLine]
  cases (optionNames config).findIdx? (· == token) <;> rfl

/-- Without a second token the search is right only if there is nothing to search. -/
theorem searchLine_none_iff (config : SaneiConfig) (line rest rest' token : List UInt8) :
    searchLine config line rest' none =
        .ok (if token = optionWord then .skip else keyedLine (optionNames config) line rest token) ↔
      ¬ (token = optionWord ∨ optionNames config ≠ []) := by
  rw [searchLine, findOption_none]
  cases config with
  | nil =>
      by_cases hword : token = optionWord
      · simp [hword, ok_bind]
      · simp [hword, ok_bind, optionNames, keyedLine]
  | cons option options => simp [error_bind, optionNames]

/-- The handling by the second token. -/
theorem searchLine_second_iff (config : SaneiConfig) {line rest rest' token : List UInt8}
    {second : Option (List UInt8)} (hleads : optionWord <+: token)
    (hsecond : saneiConfigGetString rest = (rest', second)) :
    searchLine config line rest' second =
        .ok (if token = optionWord then
            match (rest', second) with
            | (_, none) => .skip
            | (rest, some token) => keyedLine (optionNames config) line rest token
          else keyedLine (optionNames config) line rest token) ↔
      ¬ MisreadTokens (optionNames config) token second := by
  cases second with
  | none =>
      rw [searchLine_none_iff]
      simp [MisreadTokens, hleads]
  | some second =>
      rw [searchLine_some, Except.ok.injEq]
      by_cases hword : token = optionWord
      · simp [MisreadTokens, hword]
      · rw [if_neg hword, keyedLine_eq_iff]
        · simp [MisreadTokens, hleads, hword]
        · rintro rfl rfl
          have hne : second ≠ [] := by
            rintro rfl
            exact absurd (List.prefix_nil.mp hleads) (by decide)
          exact absurd (saneiConfigGetString_length hsecond hne) (Nat.lt_irrefl _)

/-- The loop body handles a trimmed line as it ought to be handled exactly if it does not
misread the line. -/
theorem readLine_eq_lineKind_iff (config : SaneiConfig) {line : List UInt8}
    (htrim : saneiConfigSkipWhitespace line = line) :
    readLine config line = .ok (lineKind (optionNames config) line) ↔
      ¬ Misread (optionNames config) line := by
  unfold readLine lineKind Misread
  simp only [htrim]
  by_cases hblank : line = []
  · simp [hblank]
  by_cases hcomment : line.head? = some 35
  · simp [hcomment]
  rw [if_neg hblank, if_neg hcomment, if_neg (not_or.mpr ⟨hblank, hcomment⟩)]
  rcases saneiConfigGetString line with ⟨rest, _ | token⟩
  · simp
  have hmisread : (line ≠ [] ∧ line.head? ≠ some 35 ∧ ∃ rest₂ token₂,
      (rest, some token) = (rest₂, some token₂) ∧
        MisreadTokens (optionNames config) token₂ (saneiConfigGetString rest₂).2) ↔
      MisreadTokens (optionNames config) token (saneiConfigGetString rest).2 := by
    constructor
    · rintro ⟨-, -, rest₂, token₂, heq, h⟩
      cases heq
      exact h
    · exact fun h => ⟨hblank, hcomment, rest, token, rfl, h⟩
  rw [hmisread]
  by_cases hleads : optionWord <+: token
  · dsimp only
    rw [if_pos (strncmpEq_optionWord.mpr hleads)]
    exact searchLine_second_iff config hleads rfl
  · have hword : token ≠ optionWord := by
      rintro rfl
      exact hleads List.prefix_rfl
    dsimp only
    rw [if_neg (mt strncmpEq_optionWord.mp hleads), if_neg hword, searchLine_some]
    exact iff_of_true rfl fun h => hleads h.1

theorem skipWhitespace_configLine {fuel : Nat} {stream line : List UInt8}
    (h : line ∈ configLines fuel stream) : saneiConfigSkipWhitespace line = line := by
  induction fuel generalizing stream with
  | zero => cases h
  | succ fuel ih =>
      rw [configLines] at h
      split at h
      · cases h
      · next read rest hread =>
          rcases List.mem_cons.mp h with rfl | h
          · rw [saneiConfigRead, Option.bind_eq_bind, Option.bind_eq_some_iff] at hread
            obtain ⟨p, -, hp⟩ := hread
            obtain ⟨rfl, -⟩ := Prod.mk.inj (Option.some.inj hp)
            exact List.dropWhile_idempotent ..
          · exact ih h

/-- The handling that led to an event. -/
def LineEvent.kind : LineEvent → LineKind
  | skipped => .skip
  | stored i text _ => .option i text
  | rejected i text _ => .option i text
  | attached devname => .attach devname

section Run

variable {saneFix : List UInt8 → SaneWord}

theorem configureOption_kind {heap : Nat → UInt8} {descriptor : OptionDescriptor} {i size : Nat}
    {lp : List UInt8} {event : LineEvent} {size' : Nat}
    (h : configureOption saneFix heap descriptor i size lp = .ok (event, size')) :
    event.kind = .option i lp := by
  obtain ⟨parsed, -, h⟩ := bind_eq_ok.mp h
  rcases parsed with _ | ⟨value, n⟩
  · cases h
    rfl
  · obtain ⟨status, -, h⟩ := bind_eq_ok.mp h
    cases status with
    | good =>
        dsimp only at h
        split_ifs at h
        cases h
        rfl
    | _ =>
        cases h
        rfl

theorem configureLine_kind {heap : Nat → UInt8} {config : SaneiConfig} {size : Nat}
    {line : List UInt8} {event : LineEvent} {size' : Nat}
    (h : configureLine saneFix heap config size line = .ok (event, size')) :
    readLine config line = .ok event.kind := by
  obtain ⟨kind, hread, h⟩ := bind_eq_ok.mp h
  rw [hread]
  cases kind with
  | skip =>
      cases h
      rfl
  | attach devname =>
      cases h
      rfl
  | option i text =>
      dsimp only at h
      split at h
      · cases h
      · rw [configureOption_kind h]

/-- What performing an event leaves alone, and how it is logged. -/
theorem perform_eq {event : LineEvent} {st st' : ConfigState} (h : st.perform event = .ok st') :
    st'.events = st.events ++ [event] ∧
      st'.config.map (·.descriptor) = st.config.map (·.descriptor) := by
  cases event with
  | stored i text value =>
      simp only [ConfigState.perform] at h
      split at h
      · cases h
      · next option hoption =>
          obtain ⟨option', hstore, h⟩ := bind_eq_ok.mp h
          cases h
          refine ⟨rfl, ?_⟩
          have hdescriptor : option'.descriptor = option.descriptor := by
            rw [ConfigOption.store] at hstore
            split_ifs at hstore
            cases hstore
            rfl
          obtain ⟨hlt, rfl⟩ := List.getElem?_eq_some_iff.mp hoption
          have hmem : i < (st.config.map (·.descriptor)).length := by rwa [List.length_map]
          have hsame : (st.config.map (·.descriptor))[i] = st.config[i].descriptor :=
            List.getElem_map ..
          rw [List.map_set, hdescriptor, ← hsame, List.set_getElem_self hmem]
  | rejected i text status =>
      cases h
      exact ⟨rfl, rfl⟩
  | skipped =>
      cases h
      exact ⟨rfl, rfl⟩
  | attached devname =>
      cases h
      exact ⟨rfl, rfl⟩

theorem configureLines_of_bad {heap : Nat → Nat → UInt8} {st : ConfigState}
    (hbad : st.status ≠ .good) (lines : List (List UInt8)) :
    configureLines saneFix heap lines st = .ok st := by
  cases lines with
  | nil => rfl
  | cons line lines => rw [configureLines, if_pos hbad]

theorem configureLines_append (heap : Nat → Nat → UInt8) (lines lines' : List (List UInt8))
    (st : ConfigState) :
    configureLines saneFix heap (lines ++ lines') st =
      (configureLines saneFix heap lines st >>= configureLines saneFix heap lines') := by
  induction lines generalizing st with
  | nil => rfl
  | cons line lines ih =>
      by_cases hbad : st.status ≠ .good
      · rw [configureLines_of_bad hbad, configureLines_of_bad hbad, ok_bind,
          configureLines_of_bad hbad]
      · rw [List.cons_append, configureLines, configureLines, if_neg hbad, if_neg hbad]
        cases configureLine saneFix (heap st.events.length) st.config st.size line with
        | error f => rfl
        | ok p =>
            obtain ⟨event, size⟩ := p
            rw [ok_bind, ok_bind]
            dsimp only
            cases st.perform event with
            | error f => rfl
            | ok st' => exact ih _

/-- The last line of a run: it is not handled if a value had been rejected before. -/
theorem configureLines_concat {heap : Nat → Nat → UInt8} {lines : List (List UInt8)}
    {line : List UInt8} {st st₂ : ConfigState}
    (h : configureLines saneFix heap (lines ++ [line]) st = .ok st₂) :
    ∃ st₁, configureLines saneFix heap lines st = .ok st₁ ∧
      (st₁.status ≠ .good ∧ st₂ = st₁ ∨
        st₁.status = .good ∧ ∃ event size st',
          configureLine saneFix (heap st₁.events.length) st₁.config st₁.size line =
            .ok (event, size) ∧ st₁.perform event = .ok st' ∧ st₂ = { st' with size }) := by
  rw [configureLines_append] at h
  obtain ⟨st₁, hlines, h⟩ := bind_eq_ok.mp h
  refine ⟨st₁, hlines, ?_⟩
  by_cases hbad : st₁.status ≠ .good
  · rw [configureLines_of_bad hbad] at h
    cases h
    exact .inl ⟨hbad, rfl⟩
  · rw [configureLines, if_neg hbad] at h
    obtain ⟨⟨event, size⟩, hline, h⟩ := bind_eq_ok.mp h
    obtain ⟨st', hperform, h⟩ := bind_eq_ok.mp h
    cases h
    exact .inr ⟨not_not.mp hbad, event, size, st', hline, hperform, rfl⟩

theorem take_succ_of_getElem? {lines : List (List UInt8)} {k : Nat} {line : List UInt8}
    (h : lines[k]? = some line) : lines.take (k + 1) = lines.take k ++ [line] := by
  rw [List.take_add_one, h]
  rfl

theorem take_succ_of_none {lines : List (List UInt8)} {k : Nat} (h : lines[k]? = none) :
    lines.take (k + 1) = lines.take k := by
  have hle := List.getElem?_eq_none_iff.mp h
  rw [List.take_of_length_le hle, List.take_of_length_le (by omega)]

theorem configureLines_descriptors {heap : Nat → Nat → UInt8} {lines : List (List UInt8)}
    {st st' : ConfigState} (h : configureLines saneFix heap lines st = .ok st') :
    st'.config.map (·.descriptor) = st.config.map (·.descriptor) := by
  induction lines generalizing st with
  | nil =>
      cases h
      rfl
  | cons line lines ih =>
      rw [configureLines] at h
      split_ifs at h
      · cases h
        rfl
      · obtain ⟨⟨event, size⟩, -, h⟩ := bind_eq_ok.mp h
        obtain ⟨st₁, hperform, h⟩ := bind_eq_ok.mp h
        exact (ih h).trans (perform_eq hperform).2

theorem optionNames_eq {config config' : SaneiConfig}
    (h : config'.map (·.descriptor) = config.map (·.descriptor)) :
    optionNames config' = optionNames config := by
  have hnames : ∀ c : SaneiConfig,
      optionNames c = (c.map (·.descriptor)).map OptionDescriptor.name := by
    intro c
    rw [List.map_map]
    rfl
  rw [hnames, hnames, h]

end Run

section Classification

variable (saneFix : List UInt8 → SaneWord) (heap : Nat → Nat → UInt8) (config : SaneiConfig)
  (lines : List (List UInt8))

/-- The state of the loop after its first `k` lines, none of whose values was rejected. -/
def AfterLines (k : Nat) (st : ConfigState) : Prop :=
  configureLines saneFix heap (lines.take k) ⟨config, .good, 0, []⟩ = .ok st ∧ st.status = .good

/-- As long as no value was rejected, each line is read without a fault as it ought to be,
and the lines were handled in this way one after the other. -/
structure Classified : Prop where
  reads : ∀ k line st, AfterLines saneFix heap config lines k st → lines[k]? = some line →
    readLine st.config line = .ok (lineKind (optionNames config) line)
  handles : ∀ k st, AfterLines saneFix heap config lines k st →
    st.events.map LineEvent.kind = (lines.take k).map (lineKind (optionNames config))

end Classification

variable {saneFix : List UInt8 → SaneWord} {heap : Nat → Nat → UInt8} {config : SaneiConfig}

theorem AfterLines.names {lines : List (List UInt8)} {k : Nat} {st : ConfigState}
    (h : AfterLines saneFix heap config lines k st) : optionNames st.config = optionNames config :=
  optionNames_eq (configureLines_descriptors h.1)

/-- Lines that are read as they ought to be are handled so. -/
theorem events_kind {lines : List (List UInt8)}
    (hreads : ∀ k line st, AfterLines saneFix heap config lines k st → lines[k]? = some line →
      readLine st.config line = .ok (lineKind (optionNames config) line))
    {k : Nat} {st : ConfigState} (h : AfterLines saneFix heap config lines k st) :
    st.events.map LineEvent.kind = (lines.take k).map (lineKind (optionNames config)) := by
  induction k generalizing st with
  | zero =>
      obtain ⟨hrun, -⟩ := h
      cases hrun
      rfl
  | succ k ih =>
      obtain ⟨hrun, hgood⟩ := h
      cases hline : lines[k]? with
      | none =>
          rw [take_succ_of_none hline] at hrun ⊢
          exact ih ⟨hrun, hgood⟩
      | some line =>
          rw [take_succ_of_getElem? hline] at hrun ⊢
          obtain ⟨st₁, hlines, ⟨hbad, rfl⟩ | ⟨hgood₁, event, size, st', hline₁, hperform, rfl⟩⟩ :=
            configureLines_concat hrun
          · exact absurd hgood hbad
          have hread := configureLine_kind hline₁
          rw [hreads k line st₁ ⟨hlines, hgood₁⟩ hline] at hread
          change st'.events.map LineEvent.kind = _
          rw [(perform_eq hperform).1, List.map_append, List.map_append, ih ⟨hlines, hgood₁⟩]
          simp only [List.map_cons, List.map_nil]
          rw [Except.ok.inj hread]

/-- The lines of a file are handled as they ought to be if and only if the loop comes to
no line that it misreads. -/
theorem classified_iff (saneFix : List UInt8 → SaneWord) (heap : Nat → Nat → UInt8)
    (config : SaneiConfig) (file : List UInt8) :
    Classified saneFix heap config (configLines file.length file) ↔
      ∀ k line st, AfterLines saneFix heap config (configLines file.length file) k st →
        (configLines file.length file)[k]? = some line → ¬ Misread (optionNames config) line := by
  have hread : ∀ k line st, AfterLines saneFix heap config (configLines file.length file) k st →
      (configLines file.length file)[k]? = some line →
      (readLine st.config line = .ok (lineKind (optionNames config) line) ↔
        ¬ Misread (optionNames config) line) := by
    intro k line st hafter hline
    have htrim := skipWhitespace_configLine (List.mem_of_getElem? hline)
    rw [← hafter.names]
    exact readLine_eq_lineKind_iff st.config htrim
  constructor
  · intro h k line st hafter hline
    exact (hread k line st hafter hline).mp (h.reads k line st hafter hline)
  · intro h
    have hreads := fun k line st hafter hline =>
      (hread k line st hafter hline).mpr (h k line st hafter hline)
    exact ⟨hreads, fun k st hafter => events_kind hreads hafter⟩

/-- A table of one option named `devid`. -/
def devidConfig : SaneiConfig :=
  [{ descriptor := ⟨ascii ['d', 'e', 'v', 'i', 'd'], .int, 4, .none⟩
     value := [0, 0, 0, 0]
     room := by decide }]

def optionalDevid : List UInt8 :=
  ascii ['o', 'p', 't', 'i', 'o', 'n', 'a', 'l', ' ', 'd', 'e', 'v', 'i', 'd']

def openQuote : List UInt8 :=
  ascii ['o', 'p', 't', 'i', 'o', 'n', ' ', '"', 'd', 'e', 'v', 'i', 'd']

/-- The line `optional devid` is a device, not a setting, and `option "devid` has no
second token. -/
theorem not_classified_optionalDevid :
    ¬ Classified (fun _ => 0) (fun _ _ => 0) devidConfig
        (configLines optionalDevid.length optionalDevid) ∧
      readLine devidConfig openQuote = .error .nullPointer := by
  refine ⟨fun h => ?_, rfl⟩
  have hread := h.reads 0 optionalDevid ⟨devidConfig, .good, 0, []⟩ ⟨rfl, rfl⟩ (by decide)
  have hoption : readLine devidConfig optionalDevid = .ok (.option 0 []) := rfl
  rw [hoption] at hread
  exact absurd (Except.ok.inj hread) (by decide)

end SaneBackends.Sanei
