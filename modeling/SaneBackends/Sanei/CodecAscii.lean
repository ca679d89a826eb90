import SaneBackends.Sanei.Wire
import SaneBackends.Sanei.CodecBin
/-!
# `sanei_codec_ascii.c`: the ASCII codec

Words travel as decimal numbers, characters between apostrophes and strings between quotes,
each on a line of its own. White space in front of a value is skipped by all but `ascii_w_char`.
-/

namespace SaneBackends.Sanei

open SaneBackends.Lib

/-- `isspace` of the C locale. -/
def isSpace (c : UInt8) : Bool := (9 ≤ c && c ≤ 13) || c = 32

def isDigit (c : UInt8) : Bool := 48 ≤ c && c ≤ 57

/-- `*w->buffer.curr`. -/
def peekByte : WireM UInt8 := do
  let w ← get
  if w.buffer.curr < w.buffer.size then pure (w.buffer.mem w.buffer.curr) else throw .outOfBounds

/-- `*w->buffer.curr++`. -/
def takeByte : WireM UInt8 := do
  let c ← peekByte
  modify fun w => { w with buffer := { w.buffer with curr := w.buffer.curr + 1 } }
  pure c

/-- A bound on the turns of a loop that takes a byte in each. -/
def byteTurns (w : Wire) : Nat := w.buffer.endPos - w.buffer.curr + w.io.incoming.length + 1

def skipWsLoop : Nat → WireM Unit
  | 0 => pure ()
  | fuel + 1 => do
      modify (saneiWSpace 1)
      if (← get).status ≠ 0 then pure ()
      else if isSpace (← peekByte) then do
        let _ ← takeByte
        skipWsLoop fuel
      else pure ()

def skipWs : WireM Unit := do skipWsLoop (byteTurns (← get))

def getDigit : WireM (BitVec 32) := do
  modify (saneiWSpace 1)
  let c ← takeByte
  -- `tolower` of a `char`, which is signed
  let lower := if 65 ≤ c && c ≤ 90 then c + 32 else c
  let digit := lower.toBitVec.signExtend 32 - 48
  let digit := if 9 < digit.toNat then digit - (97 - (57 + 1)) else digit
  if 0xf < digit.toNat then do
    setStatus einval
    pure 0
  else pure digit

/-- The operands of `|` are evaluated from left to right. -/
def getByte : WireM UInt8 := do
  let hi ← getDigit
  let lo ← getDigit
  pure (UInt8.ofBitVec ((hi <<< 4 ||| lo).setWidth 8))

def hexDigit (n : Nat) : UInt8 := UInt8.ofNat (if n < 10 then 48 + n else 87 + n)

def asciiWByte : WireCodecFunc UInt8 where
  run b := do
    match (← get).direction with
    | .encode => do
        modify (saneiWSpace 3)
        putBytes [hexDigit (b.toNat / 16), hexDigit (b.toNat % 16), 10]
        pure b
    | .decode => do
        skipWs
        getByte
    | .free => pure b
  stray := do
    match (← get).direction with
    | .free => pure ()
    | _ => throw .outOfBounds

/-- A character that a backslash has to precede between the quotes `quote`. -/
def isEscaped (quote c : UInt8) : Bool := c = quote || c = 92

def escape (quote c : UInt8) : List UInt8 := if isEscaped quote c then [92, c] else [c]

/-- The character that `c`, just read, stands for: the next one if it is a backslash. -/
def takeEscaped (howmuch : Nat) (c : UInt8) : WireM UInt8 := do
  if c = 92 then do
    modify (saneiWSpace howmuch)
    takeByte
  else pure c

def asciiWChar : WireCodecFunc UInt8 where
  run c := do
    match (← get).direction with
    | .encode => do
        modify (saneiWSpace 5)
        putBytes [39]
        putBytes (escape 39 c)
        putBytes [39, 10]
        pure c
    | .decode => do
        modify (saneiWSpace 4)
        if (← takeByte) ≠ 39 then do
          setStatus einval
          pure c
        else do
          let c ← takeByte
          let c ← takeEscaped 2 c
          if (← takeByte) ≠ 39 then setStatus einval
          pure c
    | .free => pure c
  stray := do
    match (← get).direction with
    | .encode => throw .outOfBounds
    | .decode => do
        modify (saneiWSpace 4)
        if (← takeByte) ≠ 39 then setStatus einval else throw .outOfBounds
    | .free => pure ()

/-- The loop over the characters of a string, which must end within its block. -/
def putChars : List UInt8 → WireM Unit
  | [] => throw .outOfBounds
  | ch :: str =>
      if ch = 0 then pure ()
      else do
        modify (saneiWSpace 2)
        putBytes (escape 34 ch)
        putChars str

/-- `malloc` and `realloc` of memory that is not charged to the wire. A block that is
reallocated moves. -/
def mallocBlock : WireM (Option Nat) := do
  let w ← get
  let (addr, heap) := w.heap.malloc
  set { w with heap }
  pure addr

def reallocBlock (old : Nat) : WireM (Option Nat) := do
  match ← mallocBlock with
  | none => pure none
  | some addr => do
      freeBlock old
      pure (some addr)

/-- `str`, the `len` characters stored in it and `alloced_len`. -/
structure StringBuffer where
  str : Option Nat
  chars : List UInt8
  allocedLen : Nat

/-- Room for one more character; `none` if there is no memory for it. -/
def StringBuffer.reserve (b : StringBuffer) : WireM (Option StringBuffer) := do
  if b.allocedLen ≤ b.chars.length then
    let str ← match b.str with
      | none => mallocBlock
      | some addr => reallocBlock addr
    match str with
    | none => pure none
    | some addr => pure (some { b with str := some addr, allocedLen := b.allocedLen + 1024 })
  else pure (some b)

/-- `str[len++] = ch`; `none` if there is no memory for it. -/
def StringBuffer.store (b : StringBuffer) (ch : UInt8) : WireM (Option StringBuffer) := do
  match ← b.reserve with
  | none => do
      setStatus enomem
      pure none
  | some b => pure (some { b with chars := b.chars ++ [ch] })

/-- The loop that reads a string up to the closing quote, which it stores too; `none` if it
returns with a bad status. -/
def takeString : Nat → StringBuffer → WireM (Option StringBuffer)
  | 0, _ => pure none
  | fuel + 1, b => do
      modify (saneiWSpace 1)
      if (← get).status ≠ 0 then pure none
      else do
        let ch ← takeByte
        match ← b.store (← takeEscaped 1 ch) with
        | none => pure none
        | some b => if ch = 34 then pure (some b) else takeString fuel b

/-- The comparison of the next bytes with `expected`, given up at the first that differs. -/
def takeExpected : List UInt8 → WireM Bool
  | [] => pure true
  | c :: expected => do
      if (← takeByte) ≠ c then pure false else takeExpected expected

def asciiWString : WireCodecFunc SaneString where
  run s := do
    match (← get).direction with
    | .encode => do
        match s with
        | some block => do
            modify (saneiWSpace 1)
            putBytes [34]
            putChars block.val
            putBytes [34]
        | none => do
            modify (saneiWSpace 5)
            putBytes [40, 110, 105, 108, 41]
        modify (saneiWSpace 1)
        putBytes [10]
        pure s
    | .decode => do
        skipWs
        modify (saneiWSpace 1)
        let ch ← takeByte
        if ch = 34 then
          match ← takeString (byteTurns (← get)) ⟨none, [], 0⟩ with
          | none => pure s
          | some ⟨none, _, _⟩ => throw .nullPointer
          | some ⟨some str, chars, _⟩ => do
              match ← reallocBlock str with
              | none => do
                  setStatus enomem
                  pure none
              | some addr => pure (some ⟨addr, chars.set (chars.length - 1) 0⟩)
        else if ch = 40 then do
          modify (saneiWSpace 4)
          if ← takeExpected [110, 105, 108, 41] then pure none
          else do
            setStatus einval
            pure s
        else do
          setStatus einval
          pure s
    | .free => do
        match s with
        | some block => freeBlock block.addr
        | none => pure ()
        pure s
  stray := throw .outOfBounds

/-- The `do … while (val)` loop: the digits of `val` stored in `buf`, the last one first. Each
turn fills a cell of `buf`. -/
def storeDigits : Nat → Nat → List UInt8 → List UInt8
  | 0, _, buf => buf
  | fuel + 1, val, buf =>
      let buf := UInt8.ofNat (48 + val % 10) :: buf
      if val / 10 = 0 then buf else storeDigits fuel (val / 10) buf

def sizeofBuf : Nat := 16

/-- The loop over the digits of a word; `none` if it returns with a bad status. -/
def takeDigits : Nat → Nat → WireM (Option Nat)
  | 0, _ => pure none
  | fuel + 1, val => do
      modify (saneiWSpace 1)
      if (← get).status ≠ 0 then pure none
      else if isDigit (← peekByte) then do
        let c ← takeByte
        let val := 10 * val + (c.toNat - 48)
        if intMax < val then throw .signedOverflow
        else takeDigits fuel val
      else pure (some val)

/-- The decoding of a word; `none` if it returns with a bad status. -/
def takeWord : WireM (Option SaneWord) := do
  skipWs
  modify (saneiWSpace 1)
  let isNegative ← if (← peekByte) = 45 then do
      let _ ← takeByte
      pure true
    else pure false
  match ← takeDigits (byteTurns (← get)) 0 with
  | none => pure none
  | some val =>
      pure (some (if isNegative then -BitVec.ofNat 32 val else BitVec.ofNat 32 val))

def asciiWWord : WireCodecFunc SaneWord where
  run v := do
    match (← get).direction with
    | .encode => do
        -- the most negative word has no negative
        if intMax < -v.toInt then throw .signedOverflow
        else do
          let digits := storeDigits sizeofBuf v.toInt.natAbs []
          let text := if v.toInt < 0 then 45 :: digits else digits
          modify (saneiWSpace (text.length + 1))
          putBytes text
          putBytes [10]
          pure v
    | .decode => do
        match ← takeWord with
        | none => pure v
        | some val => pure val
    | .free => pure v
  stray := do
    match (← get).direction with
    | .encode => throw .outOfBounds
    | .decode => do
        match ← takeWord with
        | none => pure ()
        | some _ => throw .outOfBounds
    | .free => pure ()

/-- `sanei_codec_ascii_init`. -/
def asciiCodec : Codec where
  wByte := asciiWByte
  wChar := asciiWChar
  wWord := asciiWWord
  wString := asciiWString

end SaneBackends.Sanei
