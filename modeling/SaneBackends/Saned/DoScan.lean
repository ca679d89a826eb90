import SaneBackends.Lib.CInt
import SaneBackends.Lib.Ring
import SaneBackends.Sanei.Types
/-!
# The scan loop of saned

`store_reclen` and the loop of `do_scan` from `frontend/saned.c`. Records of scan
data pass through a circular buffer of `bufferSize` bytes: a turn either drains
bytes to the data socket or, once the buffer is empty, reads one record from the
backend, and the closing status follows as a record of length `0xffffffff`.
The `int`/`size_t` mixture of the source is kept; `bufferSize` itself is a
`size_t`, set by `-B` in units of 1024 bytes.
-/

namespace SaneBackends.Saned

open SaneBackends.Lib

/-- `buffer_size` after `-B`; an argument out of range leaves the default. -/
def bufferSizeOf (bufferArg : BitVec 32) : Nat :=
  if bufferArg.toInt < 0 ∨ (2 ^ 64 - 1) / 1024 < bufferArg.toInt then
    1 * 1024 * 1024
  else
    1024 * bufferArg.toInt.toNat

theorem bufferSizeOf_lt (bufferArg : BitVec 32) : bufferSizeOf bufferArg < 2 ^ 41 := by
  have hlt := BitVec.toInt_lt (x := bufferArg)
  unfold bufferSizeOf
  split_ifs <;> omega

theorem bufferSizeOf_dvd (bufferArg : BitVec 32) : 1024 ∣ bufferSizeOf bufferArg := by
  unfold bufferSizeOf
  split_ifs <;> omega

/-- The contents of `buf`. -/
abbrev Bytes := Nat → UInt8

/-- `buf[i] = b`. -/
def poke (bufferSize : Nat) (buf : Bytes) (i : Int) (b : UInt8) : Except Fault Bytes :=
  if 0 ≤ i ∧ i < bufferSize then
    .ok (Function.update buf i.toNat b)
  else
    .error .outOfBounds

/-- `if (i >= (int) buf_size) i = 0`. -/
def wrapIndex (bufferSize : Nat) (i : Int) : Int :=
  if toInt32 bufferSize ≤ i then 0 else i

/-- `(reclen >> shift) & 0xff`. -/
def reclenByte (reclen shift : Nat) : UInt8 := UInt8.ofNat (reclen >>> shift)

def storeReclen (bufferSize : Nat) (buf : Bytes) (i : Int) (reclen : Nat) :
    Except Fault (Bytes × Int) := do
  let buf ← poke bufferSize buf i (reclenByte reclen 24)
  let i := wrapIndex bufferSize (i + 1)
  let buf ← poke bufferSize buf i (reclenByte reclen 16)
  let i := wrapIndex bufferSize (i + 1)
  let buf ← poke bufferSize buf i (reclenByte reclen 8)
  let i := wrapIndex bufferSize (i + 1)
  let buf ← poke bufferSize buf i (reclenByte reclen 0)
  return (buf, wrapIndex bufferSize (i + 1))

/-- The locals of `do_scan` that outlive a turn. `beFd` says whether `be_fd` is a
descriptor, `polling` whether `timeout` points to the zero timeout. -/
structure ScanLocals where
  buf : Bytes
  reader : Int
  writer : Nat
  bytesInBuf : Int
  status : SaneStatus
  statusDirty : Bool
  beFd : Bool
  polling : Bool

/-- The locals before the first turn; `malloc` leaves `buf` as it finds it, and
`fd` is the answer of `sane_get_select_fd`. -/
def ScanLocals.start (buf : Bytes) (fd : Bool) : ScanLocals where
  buf := buf
  reader := 0
  writer := 0
  bytesInBuf := 0
  status := .good
  statusDirty := false
  beFd := fd
  polling := !fd

/-- How `select` returns: an error (`EBADF` or another), or the descriptors ready. -/
inductive Select where
  | badFd
  | failed
  | ready (data be : Bool)
  deriving DecidableEq, Repr

/-- What the world answers in one turn: `select`, `write` (`none` for an error)
and `sane_read` with the bytes it leaves in the buffer. Counts beyond what was
asked for are cut to the request. -/
structure ScanInput where
  select : Select
  write : Option Nat
  read : SaneStatus × List UInt8

/-- What a turn does to the outside: the bytes accepted by the data socket and
the answer of `sane_read`, if it was called. -/
structure ScanOutput where
  written : List UInt8
  read : Option (SaneStatus × List UInt8)
  deriving DecidableEq

/-- How a turn goes on: to the request part, to the loop test (`continue`), or
out of the loop, with `docancel` set or not. -/
inductive Flow where
  | next
  | again
  | leave (docancel : Bool)
  deriving DecidableEq, Repr

/-- Whether the turn ends in a `break`, given the request served after `next`. -/
def Flow.breaks : Flow → Option Bool → Bool
  | .next, rpc => rpc = some true
  | .again, _ => false
  | .leave _, _ => true

/-- "write more input data", for a `write` that accepts `accepted` bytes. -/
def drain (bufferSize : Nat) (l : ScanLocals) (accepted : Nat) : ScanLocals × List UInt8 :=
  let nbytes := l.bytesInBuf.toNat
  let nbytes := if bufferSize < l.writer + nbytes then bufferSize - l.writer else nbytes
  let nwritten := min accepted nbytes
  let writer := l.writer + nwritten
  ({ l with
      bytesInBuf := l.bytesInBuf - nwritten
      writer := if writer = bufferSize then 0 else writer },
    (List.range nwritten).map fun k => l.buf (l.writer + k))

/-- The bytes `sane_read` stores at `buf + reader`. -/
def storeData (bufferSize : Nat) (buf : Bytes) (reader : Int) (data : List UInt8) :
    Except Fault Bytes :=
  if data = [] then
    .ok buf
  else if 0 ≤ reader ∧ reader + data.length ≤ bufferSize then
    .ok (storeBlock buf reader.toNat data)
  else
    .error .outOfBounds

/-- "reserve 4 bytes to store the length of the data record": the reader index
past the header of a record that starts at `i`. -/
def reserveHeader (bufferSize : Nat) (i : Int) : Int :=
  let reader := i + 4
  if toInt32 bufferSize ≤ reader then toInt32 (reader - bufferSize) else reader

/-- `nbytes`, the room `sane_read` is offered at `buf + reader`. -/
def readRequest (bufferSize : Nat) (reader : Int) : Nat :=
  let nbytes := toSize ((bufferSize : Int) - 4)
  if bufferSize < toSize (reader + nbytes) then toSize (bufferSize - reader) else nbytes

/-- `reader += length`, back to the start at the end of the buffer. -/
def advanceReader (bufferSize : Nat) (reader : Int) (length : Nat) : Int :=
  let reader := toInt32 (reader + length)
  if toInt32 bufferSize ≤ reader then 0 else reader

/-- "get more input data": one `sane_read`, framed as a record if it is `GOOD`. -/
def fill (bufferSize : Nat) (l : ScanLocals) (read : SaneStatus × List UInt8) :
    Except Fault (ScanLocals × (SaneStatus × List UInt8)) := do
  let i := l.reader
  let reader := reserveHeader bufferSize i
  let data := read.2.take (toInt32 (readRequest bufferSize reader)).toNat
  let buf ← storeData bufferSize l.buf reader data
  -- the header is charged even when no record is stored
  let bytesInBuf := toInt32 (l.bytesInBuf + data.length + 4)
  if read.1 = .good then
    let (buf, _) ← storeReclen bufferSize buf i data.length
    return ({ l with
      status := read.1
      bytesInBuf, buf
      reader := advanceReader bufferSize reader data.length }, (read.1, data))
  else
    return ({ l with
      status := read.1
      bytesInBuf, buf
      reader := i
      statusDirty := true }, (read.1, data))

/-- The trailer, once there is room for its five bytes. -/
def addTrailer (bufferSize : Nat) (l : ScanLocals) : Except Fault ScanLocals :=
  if l.statusDirty ∧ 5 ≤ toSize (bufferSize - l.bytesInBuf) then do
    let (buf, reader) ← storeReclen bufferSize l.buf l.reader 0xffffffff
    let buf ← poke bufferSize buf reader l.status.byte
    return { l with
      buf, reader
      statusDirty := false
      bytesInBuf := toInt32 (l.bytesInBuf + 5) }
  else
    .ok l

/-- The "write more" / "get more" part of a turn; `none` when `write` failed. -/
def transfer (bufferSize : Nat) (l : ScanLocals) (input : ScanInput) (data be : Bool) :
    Except Fault (Option (ScanLocals × ScanOutput)) :=
  if l.bytesInBuf ≠ 0 then
    if data ∧ 0 < l.bytesInBuf then
      match input.write with
      | none => .ok none
      | some accepted =>
          let (l, written) := drain bufferSize l accepted
          .ok (some (l, ⟨written, none⟩))
    else
      .ok (some (l, ⟨[], none⟩))
  else if l.status = .good ∧ (l.polling ∨ be) then do
    let (l, answer) ← fill bufferSize l input.read
    return some (l, ⟨[], some answer⟩)
  else
    .ok (some (l, ⟨[], none⟩))

/-- One turn of the loop up to the point where a pending request is served. -/
def scanBody (bufferSize : Nat) (l : ScanLocals) (input : ScanInput) :
    Except Fault (ScanLocals × ScanOutput × Flow) :=
  match input.select with
  | .badFd =>
      if l.beFd then
        .ok ({ l with
          beFd := false
          statusDirty := l.statusDirty || l.status = .good
          status := .eof }, ⟨[], none⟩, .again)
      else
        .ok ({ l with status := .ioError }, ⟨[], none⟩, .leave false)
  | .failed => .ok ({ l with status := .ioError }, ⟨[], none⟩, .leave false)
  | .ready data be => do
      match ← transfer bufferSize l input data be with
      | none => return ({ l with status := .cancelled }, ⟨[], none⟩, .leave true)
      | some (l, out) =>
          let l ← addTrailer bufferSize l
          return (l, out, .next)

/-- The `while` condition of the loop. -/
def ScanLocals.continues (l : ScanLocals) : Bool :=
  l.status = .good || 0 < l.bytesInBuf || l.statusDirty

/-- One turn with its request: `rpc` is `handle[h].docancel` after the request
served in it, if one was pending. -/
structure ScanTurn where
  input : ScanInput
  rpc : Option Bool

/-- Whether the turns given were not enough, the loop test ended the scan, or a
`break` did. -/
inductive ScanEnd where
  | running
  | finished
  | left
  deriving DecidableEq, Repr

/-- A scan seen from outside: bytes sent on `data_fd`, answers of `sane_read`. -/
structure ScanRun where
  locals : ScanLocals
  written : List UInt8
  reads : List (SaneStatus × List UInt8)
  ended : ScanEnd

/-- The loop of `do_scan` over the given turns. -/
def scanLoop (bufferSize : Nat) : ScanLocals → List ScanTurn → Except Fault ScanRun
  | l, [] => .ok ⟨l, [], [], .running⟩
  | l, turn :: turns => do
      let (l, out, flow) ← scanBody bufferSize l turn.input
      if flow.breaks turn.rpc then
        return ⟨l, out.written, out.read.toList, .left⟩
      else if l.continues then do
        let run ← scanLoop bufferSize l turns
        return { run with
          written := out.written ++ run.written
          reads := out.read.toList ++ run.reads }
      else
        return ⟨l, out.written, out.read.toList, .finished⟩

end SaneBackends.Saned
