import SaneBackends.Lib.Transition
import Mathlib.Tactic
/-!
# `pixma_bjnp.c`: bulk transfers

`sanei_bjnp_read_bulk` and `sanei_bjnp_write_bulk` on one TCP connection, with what the
scanner sends on it and how the calls of `recv` and `send` end. What happens on the
connection is logged.
-/

namespace SaneBackends.Bjnp

open SaneBackends.Lib

/-- `sizeof (struct BJNP_command)`. -/
def headerSize : Nat := 16

/-- `sizeof` the `scan_data` of a `struct SCAN_BUF`. -/
def scanDataSize : Nat := 65536

/-- `BJNP_BLOCKSIZE_START`. -/
def blocksizeStart : Nat := 512

/-- `SSIZE_MAX`. -/
def ssizeMax : Nat := 2 ^ 63 - 1

/-- `CMD_TCP_REQ`. -/
def cmdTcpReq : UInt8 := 0x20

/-- `CMD_TCP_SEND`. -/
def cmdTcpSend : UInt8 := 0x21

inductive Status where
  | good
  | eof
  | ioError
  deriving DecidableEq, Repr

/-- What is logged: a command sent, a header parsed that was taken at a position of the
stream, the length of a block announced in answer to a read request. -/
inductive Event where
  | readRequest
  | write
  | header (position : Nat)
  | block (length : Nat)
  deriving DecidableEq, Repr

/-- The fields of `bjnp_device_t` behind bulk transfers, and the connection. `serial` stands
for its low 16 bits. `incoming` is what the scanner sends and `recv` has not taken, behind
`taken` bytes. A `recv` fails or takes some bytes at most; once `recvs` is empty, `select`
times out. A `send` fails or sends some bytes at most; once `sends` is empty, all. -/
structure Device where
  serial : BitVec 16
  lastCmd : UInt8
  scannerDataLeft : Nat
  blocksize : Nat
  lastBlock : Bool
  incoming : List UInt8
  taken : Nat
  recvs : List (Option Nat)
  sends : List (Option Nat)
  events : List Event
  deriving DecidableEq, Repr

/-- `ntohs` and `ntohl`. -/
def ntoh (bytes : List UInt8) : Nat := bytes.foldl (fun n b => 256 * n + b.toNat) 0

/-- `cmd_code` of a `struct BJNP_command`. -/
def cmdCode (header : List UInt8) : UInt8 := header.getD 5 0

/-- `seq_no` of a `struct BJNP_command`. -/
def seqNo (header : List UInt8) : Nat := ntoh ((header.drop 8).take 2)

/-- `payload_len` of a `struct BJNP_command`. -/
def payloadLen (header : List UInt8) : Nat := ntoh ((header.drop 12).take 4)

def Device.log (d : Device) (e : Event) : Device := { d with events := d.events ++ [e] }

/-- `select` and `recv` of at most `len` bytes. -/
def recv (len : Nat) (d : Device) : Option (List UInt8) × Device :=
  match d.recvs with
  | [] => (none, d)
  | none :: recvs => (none, { d with recvs := recvs })
  | some most :: recvs =>
      let bytes := d.incoming.take (min len most)
      (some bytes, { d with
        recvs := recvs, incoming := d.incoming.drop (min len most),
        taken := d.taken + bytes.length })

/-- `send` of `len` bytes: the number of bytes sent. -/
def send (len : Nat) (d : Device) : Option Nat × Device :=
  match d.sends with
  | [] => (some len, d)
  | none :: sends => (none, { d with sends := sends })
  | some most :: sends => (some (min len most), { d with sends := sends })

/-- `set_cmd_for_dev`. -/
def setCmdForDev (cmd : UInt8) (d : Device) : Device :=
  { d with serial := d.serial + 1, lastCmd := cmd }

/-- `bjnp_write`; `none` stands for -1. Bytes left of a block are reported and nothing else
is done about them. -/
def bjnpWrite (count : Nat) (d : Device) : Option Nat × Device :=
  match send (headerSize + count) ((setCmdForDev cmdTcpSend d).log .write) with
  | (none, d) => (none, d)
  | (some sent, d) => if sent < headerSize + count then (some sent, d) else (some count, d)

/-- `bjnp_send_read_request`, and whether it returns 0. -/
def bjnpSendReadRequest (d : Device) : Bool × Device :=
  match send headerSize ((setCmdForDev cmdTcpReq d).log .readRequest) with
  | (none, d) => (false, d)
  | (some _, d) => (true, d)

/-- The loop of `bjnp_recv_header`, with what was received of the header. Each turn adds to
it, so that `headerSize` turns are enough. -/
def recvHeaderLoop : Nat → List UInt8 → Device → Option (List UInt8) × Device
  | 0, header, d => (if headerSize ≤ header.length then some header else none, d)
  | turns + 1, header, d =>
      if headerSize ≤ header.length then (some header, d)
      else
        match recv (headerSize - header.length) d with
        | (none, d) => (none, d)
        | (some [], d) => (none, d)
        | (some (b :: bytes), d) => recvHeaderLoop turns (header ++ b :: bytes) d

/-- `bjnp_recv_header`: the size of the payload. -/
def bjnpRecvHeader (d : Device) : Option Nat × Device :=
  match recvHeaderLoop headerSize [] d with
  | (none, d) => (none, d)
  | (some header, d') =>
      let d' := d'.log (.header d.taken)
      if cmdCode header ≠ d'.lastCmd then (none, d')
      else if seqNo header ≠ d'.serial.toNat then (none, d')
      else (some (payloadLen header), d')

/-- `bjnp_recv_data`: the payload received. -/
def bjnpRecvData (len : Nat) (d : Device) : Option (List UInt8) × Device :=
  if len = 0 then (some [], d) else recv (min len ssizeMax) d

/-- The part of `sanei_bjnp_read_bulk` for a device with no data in flight, and whether it
goes on. -/
def requestBlock (d : Device) : Bool × Device :=
  match bjnpSendReadRequest d with
  | (false, d) => (false, d)
  | (true, d) =>
      match bjnpRecvHeader d with
      | (none, d) => (false, { d with scannerDataLeft := 0 })
      | (some left, d) =>
          let blocksize := max d.blocksize left
          (true, { d.log (.block left) with
            scannerDataLeft := left, blocksize := blocksize,
            lastBlock := d.lastBlock || decide (left < blocksize) })

/-- The loop of `sanei_bjnp_read_bulk`, with what was received. `none` stands for a loop that
goes on after the turns given. -/
def readLoop (requested : Nat) :
    Nat → List UInt8 → Device → Option (Bool × List UInt8 × Device)
  | 0, _, _ => none
  | turns + 1, buffer, d =>
      if buffer.length < requested ∧ ¬(d.lastBlock = true ∧ d.scannerDataLeft = 0) then
        match if d.scannerDataLeft = 0 then requestBlock d else (true, d) with
        | (false, d) => some (false, buffer, d)
        | (true, d) =>
            match bjnpRecvData (min d.scannerDataLeft (requested - buffer.length)) d with
            | (none, d) => some (false, buffer, d)
            | (some bytes, d) =>
                readLoop requested turns (buffer ++ bytes)
                  { d with scannerDataLeft := d.scannerDataLeft - bytes.length }
      else some (true, buffer, d)

/-- `sanei_bjnp_read_bulk`: the status and what it leaves in the buffer. Each turn of the loop
waits in `select` or is the last. -/
def readBulk (size : Nat) (d : Device) : Option (Status × List UInt8 × Device) :=
  match readLoop size (d.recvs.length + 1) [] d with
  | none => none
  | some (false, buffer, d) => some (.ioError, buffer, d)
  | some (true, buffer, d) => some (if buffer.length = 0 then .eof else .good, buffer, d)

/-- `sanei_bjnp_write_bulk`. -/
def writeBulk (size : Nat) (d : Device) : Status × Device :=
  match bjnpWrite size d with
  | (none, d) => (.ioError, d)
  | (some sent, d) =>
      if sent ≠ size then (.ioError, d)
      else
        match bjnpRecvHeader d with
        | (none, d) => (.ioError, d)
        | (some payloadSize, d) =>
            if payloadSize ≠ 4 then (.ioError, d)
            else
              match bjnpRecvData payloadSize d with
              | (none, d) => (.ioError, d)
              | (some buf, d) =>
                  if buf.length ≠ payloadSize then (.ioError, d)
                  else if ntoh buf ≠ size then (.ioError, d)
                  else (.good, { d with lastBlock := false })

/-- A response of the scanner: a header that announces the length of the payload behind it. -/
structure Response where
  header : List UInt8
  payload : List UInt8
  length_header : header.length = headerSize
  announced : payloadLen header = payload.length

/-- What the scanner sends for some responses. -/
def stream (responses : List Response) : List UInt8 :=
  responses.flatMap fun r => r.header ++ r.payload

/-- One open connection as its user has it: the device, whether a call returned an error, the
bytes returned by reads, and the sizes asked and returned of each. -/
structure Link where
  device : Device
  failed : Bool
  returned : List UInt8
  reads : List (Nat × Nat)
  deriving DecidableEq, Repr

inductive Call where
  | readBulk (size : Nat)
  | writeBulk (size : Nat)
  deriving DecidableEq, Repr

/-- A connection after a call; `none` behind an error, and where `bjnp_write` would copy past
its buffer. -/
def Link.call (l : Link) : Call → Option Link
  | .readBulk size =>
      if l.failed then none
      else
        match readBulk size l.device with
        | none => none
        | some (status, buffer, d) => some {
            device := d, failed := decide (status = .ioError),
            returned := l.returned ++ buffer, reads := l.reads ++ [(size, buffer.length)] }
  | .writeBulk size =>
      if l.failed ∨ scanDataSize < size then none
      else
        match writeBulk size l.device with
        | (status, d) => some { l with device := d, failed := decide (status = .ioError) }

/-- A connection of a device that was initialised, on which the scanner will send some bytes. -/
def Link.opened (incoming : List UInt8) (serial : BitVec 16) (lastCmd : UInt8)
    (recvs sends : List (Option Nat)) : Link where
  device := {
    serial := serial, lastCmd := lastCmd, scannerDataLeft := 0, blocksize := blocksizeStart,
    lastBlock := false, incoming := incoming, taken := 0, recvs := recvs, sends := sends,
    events := [] }
  failed := false
  returned := []
  reads := []

/-- Connections to a scanner that sends some responses. -/
def bulk (responses : List Response) : System Link Call where
  init l := ∃ serial lastCmd recvs sends,
    l = Link.opened (stream responses) serial lastCmd recvs sends
  step l c l' := l.call c = some l'

end SaneBackends.Bjnp
