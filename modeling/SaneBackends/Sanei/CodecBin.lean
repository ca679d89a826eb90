import SaneBackends.Sanei.Wire
/-!
# `sanei_codec_bin.c`: the binary codec

Words travel in big-endian byte order, bytes as they are, and a string as the
array of its characters, terminator included.
-/

namespace SaneBackends.Sanei

open SaneBackends.Lib

/-- The bytes of a word, most significant first. -/
def wordBytes (val : SaneWord) : List UInt8 :=
  [24, 16, 8, 0].map fun shift => UInt8.ofBitVec (((val >>> shift) &&& 0xff).setWidth 8)

/-- The word in the four bytes read from `buffer.curr`. -/
def bytesWord : List UInt8 → SaneWord
  | [a, b, c, d] =>
      (a.toBitVec.setWidth 32 <<< 24) ||| (b.toBitVec.setWidth 32 <<< 16) |||
        (c.toBitVec.setWidth 32 <<< 8) ||| (d.toBitVec.setWidth 32 <<< 0)
  | _ => 0

/-- Stores at `buffer.curr`, which moves past them. -/
def putBytes (bytes : List UInt8) : WireM Unit := do
  let w ← get
  if w.buffer.size < w.buffer.curr + bytes.length then throw .outOfBounds
  else
    set { w with
      buffer := { w.buffer with
        mem := storeBlock w.buffer.mem w.buffer.curr bytes
        curr := w.buffer.curr + bytes.length } }

/-- Loads from `buffer.curr`, which moves past them. -/
def takeBytes (n : Nat) : WireM (List UInt8) := do
  let w ← get
  if w.buffer.size < w.buffer.curr + n then throw .outOfBounds
  else do
    set { w with buffer := { w.buffer with curr := w.buffer.curr + n } }
    pure ((List.range n).map fun i => w.buffer.mem (w.buffer.curr + i))

/-- The common body of `bin_w_byte` and `bin_w_word`: `n` bytes for one cell. -/
def binWScalar {α : Type} (n : Nat) (put : α → List UInt8) (peek : List UInt8 → α) :
    WireCodecFunc α where
  run v := do
    modify (saneiWSpace n)
    if (← get).status ≠ 0 then pure v
    else
      match (← get).direction with
      | .encode => do
          putBytes (put v)
          pure v
      | .decode => do
          let bytes ← takeBytes n
          pure (peek bytes)
      | .free => pure v
  stray := do
    modify (saneiWSpace n)
    if (← get).status ≠ 0 then pure ()
    else
      match (← get).direction with
      | .free => pure ()
      | _ => throw .outOfBounds

def binWByte : WireCodecFunc UInt8 := binWScalar 1 (fun b => [b]) (fun bytes => bytes.headD 0)

def binWWord : WireCodecFunc SaneWord := binWScalar 4 wordBytes bytesWord

/-- The characters before the first NUL; the scan must find one in the block. -/
def strlen (s : List UInt8) : Except Fault Nat :=
  if 0 ∈ s then .ok (s.idxOf 0) else .error .outOfBounds

/-- The length `bin_w_string` computes from the string itself. -/
def stringLen : SaneString → Except Fault SaneWord
  | none => .ok 0
  | some block => do
      let n ← strlen block.val
      .ok (BitVec.ofNat 32 (n + 1))

/-- `*(*s + len - 1) = '\0'`. -/
def terminate (len : SaneWord) : SaneString → Except Fault SaneString
  | none => .error .nullPointer
  | some block =>
      if 0 < len.toInt ∧ len.toInt ≤ block.val.length then
        .ok (some { block with val := block.val.set (len.toInt - 1).toNat 0 })
      else .error .outOfBounds

def binWString : WireCodecFunc SaneString where
  run s := do
    let len ← if (← get).direction ≠ .decode then liftM (stringLen s) else pure (← get).stale
    let (len, s) ← saneiWArray binWWord binWByte 0 1 len s
    if (← get).direction = .decode then
      if len = 0 then pure none
      else if (← get).status = 0 then liftM (terminate len s)
      else pure s
    else pure s
  stray := throw .outOfBounds

/-- `sanei_codec_bin_init`. -/
def binCodec : Codec where
  wByte := binWByte
  wChar := binWByte
  wWord := binWWord
  wString := binWString

end SaneBackends.Sanei
