import SaneBackends.Lib.CInt
import SaneBackends.Sanei.Types
/-!
# `sane_read` of the net backend

The receiving end of a scan, from `backend/net.c`: record headers are put together
over several calls, and 16-bit samples are turned to the client's byte order with
two carry bytes. The static variables the function uses are kept next to the
fields of `Net_Scanner`.
-/

namespace SaneBackends.Net

open SaneBackends.Lib

/-- `Net_Scanner` and the statics of one scan. `data` says whether the data pipe
exists; `reclenBuf` is the filled part of `reclen_buf`. -/
structure NetScanner where
  data : Bool
  reclenBuf : List UInt8
  bytesRemaining : Nat
  depth : Nat
  serverBigEndian : Bool
  clientBigEndian : Bool
  hangOver : Option UInt8
  leftOver : Option UInt8
  deriving DecidableEq, Repr

/-- The state after a successful `sane_start`. -/
def NetScanner.start (depth : Nat) (serverBigEndian clientBigEndian : Bool) : NetScanner where
  data := true
  reclenBuf := []
  bytesRemaining := 0
  depth := depth
  serverBigEndian := serverBigEndian
  clientBigEndian := clientBigEndian
  hangOver := none
  leftOver := none

/-- What `read` on the data pipe answers; bytes beyond the request are not taken. -/
inductive ReadResult where
  | again
  | failed
  | bytes (bs : List UInt8)
  deriving DecidableEq, Repr

def ReadResult.cut (request : Nat) : ReadResult → ReadResult
  | .bytes bs => .bytes (bs.take request)
  | r => r

/-- Which part of a record a `read` is after. -/
inductive ReadKind where
  | header | payload | status
  deriving DecidableEq, Repr

/-- A `read` a call has made, with its answer. -/
structure ReadCall where
  kind : ReadKind
  request : Nat
  answer : ReadResult
  deriving DecidableEq, Repr

/-- What `sane_read` returns: the status and the bytes counted by `*length`. -/
structure ReadReply where
  status : Int
  data : List UInt8
  deriving DecidableEq, Repr

/-- A reply with one of the enumerators of `SANE_Status`. -/
def ReadReply.of (status : SaneStatus) (data : List UInt8) : ReadReply := ⟨status.code, data⟩

/-- The status in a `char`. -/
def statusOfChar (ch : UInt8) : Int := Int.bmod ch.toNat 256

/-- `(depth == 16) && (server_big_endian != client_big_endian)`. -/
def NetScanner.swaps (s : NetScanner) : Bool :=
  s.depth = 16 && s.serverBigEndian != s.clientBigEndian

def doCancel (s : NetScanner) : NetScanner := { s with data := false }

/-- "swap the bytes": the loop over `cnt` from `0` while `cnt < end_cnt - 1`. -/
def swapBytes : List UInt8 → Nat → List UInt8
  | a :: b :: rest, endCnt =>
      if 2 ≤ endCnt then b :: a :: swapBytes rest (endCnt - 2) else a :: b :: rest
  | data, _ => data

/-- The byte order part of `sane_read`, for the `nread` bytes in `data`. -/
def convert (s : NetScanner) (data : List UInt8) : NetScanner × List UInt8 :=
  let nread := data.length
  if !s.swaps then
    (s, data)
  else
    match s.hangOver with
    | some hang =>
        if nread = 1 then
          ({ s with leftOver := some hang, hangOver := none }, data)
        else if 1 < nread then
          let last := data.getLastD 0
          -- `memmove` makes room for the pending byte, which pushes one byte out
          let moved := hang :: data.dropLast
          if nread % 2 = 0 then
            ({ s with leftOver := some (moved.getLastD 0), hangOver := none },
              swapBytes (moved.dropLast ++ [last]) (nread - 2))
          else
            ({ s with hangOver := some last, leftOver := none }, swapBytes moved (nread - 1))
        else
          (s, data)
    | none =>
        if nread % 2 = 0 then
          (s, swapBytes data nread)
        else
          ({ s with hangOver := some (data.getLastD 0) }, swapBytes data.dropLast (nread - 1))

/-- The part of `sane_read` inside a record, with the answer of its `read`. -/
def readRecord (s : NetScanner) (maxLength : Int) (answer : ReadResult) :
    NetScanner × ReadReply × List ReadCall :=
  let remaining := toInt32 s.bytesRemaining
  let request := toSize (if remaining < maxLength then remaining else maxLength)
  let answer := answer.cut request
  let calls := [⟨.payload, request, answer⟩]
  match answer with
  | .again => (s, .of .good [], calls)
  | .failed => (doCancel s, .of .ioError [], calls)
  | .bytes bs =>
      let s := { s with bytesRemaining := toSize (s.bytesRemaining - bs.length) }
      let (s, data) := convert s bs
      (s, .of .good data, calls)

/-- `bytes_remaining` as put together from `reclen_buf`. -/
def reclenValue : List UInt8 → Nat
  | [a, b, c, d] => a.toNat <<< 24 ||| b.toNat <<< 16 ||| c.toNat <<< 8 ||| d.toNat <<< 0
  | _ => 0

/-- "received error signal": one blocking read for the status byte. -/
def readStatus (s : NetScanner) (answer : ReadResult) : NetScanner × ReadReply × List ReadCall :=
  let answer := answer.cut 1
  let ch := match answer with
    | .bytes [b] => b
    | _ => SaneStatus.ioError.byte
  (doCancel s, ⟨statusOfChar ch, []⟩, [⟨.status, 1, answer⟩])

/-- `sane_read` once nothing is left over from the call before. -/
def readPipe (s : NetScanner) (maxLength : Int) (header answer : ReadResult) :
    NetScanner × ReadReply × List ReadCall :=
  if !s.data then
    (s, .of .cancelled [], [])
  else if s.bytesRemaining = 0 then
    let request := 4 - s.reclenBuf.length
    let header := header.cut request
    let call : ReadCall := ⟨.header, request, header⟩
    match header with
    | .again => (s, .of .good [], [call])
    | .failed => (doCancel s, .of .ioError [], [call])
    | .bytes bs =>
        let buf := s.reclenBuf ++ bs
        if buf.length < 4 then
          ({ s with reclenBuf := buf }, .of .good [], [call])
        else
          let s := { s with reclenBuf := [], bytesRemaining := reclenValue buf }
          let (s, reply, calls) :=
            if s.bytesRemaining = 0xffffffff then readStatus s answer
            else readRecord s maxLength answer
          (s, reply, call :: calls)
  else
    readRecord s maxLength answer

/-- `sane_read` with a non-null `length`. A call makes at most two reads: `header`
answers the one for the record length, `answer` the one for data or status. -/
def saneRead (s : NetScanner) (maxLength : Int) (header answer : ReadResult) :
    NetScanner × ReadReply × List ReadCall :=
  if s.swaps then
    match s.leftOver with
    | some b => ({ s with leftOver := none }, .of .good [b], [])
    | none => readPipe s maxLength header answer
  else
    readPipe s maxLength header answer

end SaneBackends.Net
