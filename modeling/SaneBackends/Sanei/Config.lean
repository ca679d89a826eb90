import Mathlib.Data.List.DropRight
import SaneBackends.Sanei.CheckValue
/-!
# `sanei_config.c`: configuration files

A stream and the lines of it are lists of bytes; a C string is the list of its bytes
without the terminator. `isspace` is that of the C locale.
-/

namespace SaneBackends.Sanei

open SaneBackends.Lib

def pathMax : Nat := 4096

/-- The bytes of a text. -/
def ascii (text : List Char) : List UInt8 := text.map fun c => UInt8.ofNat c.toNat

def isspace (c : UInt8) : Bool := c == 32 || (9 ≤ c && c ≤ 13)

/-- `fgets` into a buffer of `n` bytes: the bytes up to the first newline, and at most
`n - 1` of them, with what is left of the stream. -/
def fgets (n : Nat) (stream : List UInt8) : Option (List UInt8 × List UInt8) :=
  if stream = [] then none
  else
    let len := min (n - 1) (stream.idxOf 10 + 1)
    some (stream.take len, stream.drop len)

/-- `sanei_config_read`: the string left in the buffer. -/
def saneiConfigRead (n : Nat) (stream : List UInt8) : Option (List UInt8 × List UInt8) := do
  let (str, rest) ← fgets n stream
  pure (((str.takeWhile (· ≠ 0)).rdropWhile isspace).dropWhile isspace, rest)

def saneiConfigSkipWhitespace (str : List UInt8) : List UInt8 := str.dropWhile isspace

/-- `sanei_config_get_string`: where the scan stopped, and the string constant or `NULL`
if its final double quote is missing. -/
def saneiConfigGetString (str : List UInt8) : List UInt8 × Option (List UInt8) :=
  match saneiConfigSkipWhitespace str with
  | 34 :: start =>
      match start.dropWhile (· ≠ 34) with
      | [] => ([], none)
      | _ :: str => (str, some (start.takeWhile (· ≠ 34)))
  | str => (str.dropWhile fun c => !isspace c, some (str.takeWhile fun c => !isspace c))

/-- The lines the loop reads from a stream; `fuel` bounds their number. -/
def configLines : Nat → List UInt8 → List (List UInt8)
  | 0, _ => []
  | fuel + 1, stream =>
      match saneiConfigRead pathMax stream with
      | none => []
      | some (line, rest) => line :: configLines fuel rest

/-! `strtol` of base 0. -/

def digitValue (c : UInt8) : Nat :=
  if 48 ≤ c ∧ c ≤ 57 then (c - 48).toNat
  else if 97 ≤ c ∧ c ≤ 122 then (c - 97).toNat + 10
  else if 65 ≤ c ∧ c ≤ 90 then (c - 65).toNat + 10
  else 36

/-- The number at the start of the string. -/
def digits (base : Nat) (str : List UInt8) : Nat :=
  (str.takeWhile fun c => digitValue c < base).foldl (fun n c => n * base + digitValue c) 0

def unsignedValue : List UInt8 → Nat
  | 48 :: x :: str =>
      if x = 120 ∨ x = 88 then
        if (str.headD 0 |> digitValue) < 16 then digits 16 str else 0
      else digits 8 (x :: str)
  | str => digits 10 str

def strtol (str : List UInt8) : Int :=
  let clamp (n : Int) : Int := max (-2 ^ 63) (min (2 ^ 63 - 1) n)
  match str.dropWhile isspace with
  | 45 :: str => clamp (-unsignedValue str)
  | 43 :: str => clamp (unsignedValue str)
  | str => clamp (unsignedValue str)

/-- `strncmp (a, b, n) == 0`, terminators included. -/
def strncmpEq (a b : List UInt8) (n : Nat) : Bool := (a ++ [0]).take n == (b ++ [0]).take n

def optionWord : List UInt8 := ascii ['o', 'p', 't', 'i', 'o', 'n']

/-- An option with the buffer for its value, which has room for it. -/
structure ConfigOption where
  descriptor : OptionDescriptor
  value : List UInt8
  room : descriptor.size ≤ value.length

/-- `SANEI_Config`, the arrays of descriptors and values taken together. -/
abbrev SaneiConfig := List ConfigOption

/-- How a line is to be handled. An option is set from the text behind its name. -/
inductive LineKind where
  | skip
  | option (i : Nat) (text : List UInt8)
  | attach (devname : List UInt8)
  deriving DecidableEq, Repr

/-- The search for the descriptor named by a token, which may be `NULL`. -/
def findOption : SaneiConfig → Option (List UInt8) → Except Fault (Option Nat)
  | [], _ => .ok none
  | _ :: _, none => .error .nullPointer
  | option :: options, some token =>
      if option.descriptor.name = token then .ok (some 0)
      else do
        let i ← findOption options (some token)
        .ok (i.map (· + 1))

/-- What the search decides about a line, whose token may be `NULL`. -/
def searchLine (config : SaneiConfig) (line text : List UInt8) (token : Option (List UInt8)) :
    Except Fault LineKind := do
  match ← findOption config token with
  | none => .ok (.attach line)
  | some i => .ok (.option i text)

/-- The loop body as far as it decides what to do with the line. There is no newline
left to delete. -/
def readLine (config : SaneiConfig) (line : List UInt8) : Except Fault LineKind :=
  let lp := saneiConfigSkipWhitespace line
  if lp = [] then .ok .skip
  else if line.head? = some 35 then .ok .skip
  else
    match saneiConfigGetString lp with
    | (_, none) => .ok .skip
    | (rest, some token) =>
        if strncmpEq token optionWord 6 then
          let (rest, token) := saneiConfigGetString rest
          searchLine config lp rest token
        else searchLine config lp rest (some token)

/-- What a line did. -/
inductive LineEvent where
  | skipped
  | stored (i : Nat) (text value : List UInt8)
  | rejected (i : Nat) (text : List UInt8) (status : SaneStatus)
  | attached (devname : List UInt8)
  deriving DecidableEq, Repr

section Parsing

-- `SANE_FIX (strtod (string, NULL))`
variable (saneFix : List UInt8 → SaneWord)

/-- A boolean as its value names it. -/
def parseBool (string : List UInt8) : Option SaneWord :=
  if string = ascii ['1'] ∨ string = ascii ['t', 'r', 'u', 'e'] then some 1
  else if string = ascii ['0'] ∨ string = ascii ['f', 'a', 'l', 's', 'e'] then some 0
  else none

/-- The loop over the elements of an array value; `none` is an early return of
`SANE_STATUS_INVAL`. -/
def parseWords (parse : List UInt8 → Option SaneWord) : Nat → List UInt8 → Option (List UInt8)
  | 0, _ => some []
  | count + 1, lp =>
      match saneiConfigGetString lp with
      | (_, none) => none
      | (lp, some string) => do
          let word ← parse string
          let words ← parseWords parse count lp
          pure (storedWord word ++ words)

/-- `malloc (size)` with the words stored at its start; the bytes behind them are those
of the heap. -/
def arrayBlock (heap : Nat → UInt8) (size : Nat) (words : List UInt8) : List UInt8 :=
  words ++ (List.range (size - words.length)).map heap

/-- The `switch` over the type: `value` and `size`, or `none` for an early return. A
`NULL` value is an empty block; other types leave `size` as the line before left it. -/
def parseValue (heap : Nat → UInt8) (descriptor : OptionDescriptor) (size : Nat)
    (lp : List UInt8) : Except Fault (Option (List UInt8 × Nat)) :=
  let array (parse : List UInt8 → Option SaneWord) : Except Fault (Option (List UInt8 × Nat)) :=
    if descriptor.size < 0 then .error .outOfBounds
    else
      let size := descriptor.size.toNat
      .ok ((parseWords parse (size / sizeofWord) lp).map fun words =>
        (arrayBlock heap size words, size))
  match descriptor.type with
  | .int => array fun string => some (BitVec.ofInt 32 (strtol string))
  | .bool => array parseBool
  | .fixed => array fun string => some (saneFix string)
  | .string =>
      match (saneiConfigGetString lp).2 with
      | none => .ok none
      | some string =>
          if descriptor.size < string.length + 1 then
            if descriptor.size ≤ 0 then .error .outOfBounds
            else
              let size := (descriptor.size - 1).toNat
              .ok (some ((string ++ [0]).set size 0, size))
          else .ok (some (string ++ [0], string.length + 1))
  | _ => .ok (some ([], size))

/-- The body of the search loop for the option that was found. -/
def configureOption (heap : Nat → UInt8) (descriptor : OptionDescriptor) (i size : Nat)
    (lp : List UInt8) : Except Fault (LineEvent × Nat) := do
  match ← parseValue saneFix heap descriptor size lp with
  | none => .ok (.rejected i lp .inval, size)
  | some (value, size) =>
      match ← saneiCheckValue descriptor value with
      | .good =>
          if value.length < size then .error .outOfBounds
          else .ok (.stored i lp (value.take size), size)
      | status => .ok (.rejected i lp status, size)

/-- One turn of the loop over the lines. -/
def configureLine (heap : Nat → UInt8) (config : SaneiConfig) (size : Nat) (line : List UInt8) :
    Except Fault (LineEvent × Nat) := do
  match ← readLine config line with
  | .skip => .ok (.skipped, size)
  | .attach devname => .ok (.attached devname, size)
  | .option i text =>
      match config[i]? with
      | none => .error .outOfBounds
      | some option => configureOption saneFix heap option.descriptor i size text

/-- The variables of the loop, and what the lines so far did. -/
structure ConfigState where
  config : SaneiConfig
  status : SaneStatus
  size : Nat
  events : List LineEvent

/-- `memcpy` to the start of the buffer of an option. -/
def ConfigOption.store (option : ConfigOption) (value : List UInt8) : Except Fault ConfigOption :=
  if h : value.length ≤ option.value.length then
    .ok { option with
      value := value ++ option.value.drop value.length
      room := by
        have hroom := option.room
        simp only [List.length_append, List.length_drop]
        omega }
  else .error .outOfBounds

def ConfigState.perform (event : LineEvent) (st : ConfigState) : Except Fault ConfigState :=
  match event with
  | .stored i _ value =>
      match st.config[i]? with
      | none => .error .outOfBounds
      | some option => do
          let option ← option.store value
          .ok { st with config := st.config.set i option, events := st.events ++ [event] }
  | .rejected _ _ status => .ok { st with status, events := st.events ++ [event] }
  | _ => .ok { st with events := st.events ++ [event] }

/-- The loop; `heap` tells what fresh memory holds at each line. -/
def configureLines (heap : Nat → Nat → UInt8) : List (List UInt8) → ConfigState →
    Except Fault ConfigState
  | [], st => .ok st
  | line :: lines, st =>
      if st.status ≠ .good then .ok st
      else do
        let (event, size) ← configureLine saneFix (heap st.events.length) st.config st.size line
        let st ← st.perform event
        configureLines heap lines { st with size }

/-- `sanei_configure_attach` with the contents of the file, if there is one. A `NULL`
config has no options. -/
def saneiConfigureAttach (heap : Nat → Nat → UInt8) (file : Option (List UInt8))
    (config : SaneiConfig) : Except Fault ConfigState :=
  match file with
  | none => .ok ⟨config, .accessDenied, 0, []⟩
  | some stream =>
      configureLines saneFix heap (configLines stream.length stream) ⟨config, .good, 0, []⟩

end Parsing

end SaneBackends.Sanei
