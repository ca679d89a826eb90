import SaneBackends.Lib.Transition
import SaneBackends.Saned.DoScan
import SaneBackends.Saned.Handles
/-!
# `saned.c`: the requests of a connection

`process_request` and `do_scan` call each other. Their calls on the stack are the frames
of the scans that wait for a request, and a step is one request or one turn of the loop of
the innermost scan. What the client, the backend and the data connection answer is the
label of the step.
-/

namespace SaneBackends.Saned

open SaneBackends.Lib

/-- The calls of the backend that take a handle. -/
inductive BackendCall where
  | saneOpen (be : SaneHandle)
  | saneClose (be : SaneHandle)
  | saneGetOptionDescriptor (be : SaneHandle)
  | saneControlOption (be : SaneHandle)
  | saneGetParameters (be : SaneHandle)
  | saneStart (be : SaneHandle)
  | saneRead (be : SaneHandle)
  | saneCancel (be : SaneHandle)
  | saneSetIoMode (be : SaneHandle)
  | saneGetSelectFd (be : SaneHandle)
  deriving DecidableEq, Repr

/-- The set-up of the data connection: `poll`, `accept`, `getpeername` and `getnameinfo`
succeed, and the address is that of the client. -/
structure DataAnswer where
  polled : Bool
  accepted : Bool
  peername : Bool
  nameinfo : Bool
  authorized : Bool
  deriving DecidableEq, Repr

/-- What `SANE_NET_START` and the start of `do_scan` are answered: the listening socket,
`sane_start`, the data connection, `malloc` and `sane_get_select_fd`. -/
structure StartAnswer where
  listening : Bool
  start : SaneStatus
  data : DataAnswer
  buf : Option Bytes
  selectFd : Bool

/-- How `SANE_NET_OPEN` goes. -/
inductive OpenAnswer where
  | undecoded | noName | noDevice | denied | failed
  | opened (be : SaneHandle)
  deriving DecidableEq, Repr

/-- A request as it is decoded, with the answers it is given. An argument that cannot be
decoded is `none`. -/
inductive Request where
  | undecoded
  | netGetDevices
  | netOpen (answer : OpenAnswer)
  | netClose (word : Option SaneWord)
  | netGetOptionDescriptors (word : Option SaneWord) (numOptions : SaneWord)
  | netControlOption (word : Option SaneWord) (memory : Bool)
  | netGetParameters (word : Option SaneWord)
  | netStart (word : Option SaneWord) (answer : StartAnswer)
  | netCancel (word : Option SaneWord)
  | netExit
  | unexpected

/-- How a request ends: with the value returned, in `do_scan`, or not at all. -/
inductive Served where
  | returned (code : Int)
  | scanning (h : Nat) (answer : StartAnswer)
  | hung

namespace HandleTable

/-- `decode_handle`; `none` is -1. -/
def decodeHandle (t : HandleTable) (word : Option SaneWord) : Option Nat :=
  match word with
  | none => none
  | some h => if t.numHandles ≤ h.toNat ∨ (t.slot h.toNat).inuse = false then none else some h.toNat

/-- Stores to the flags of a slot. -/
def setFlags (t : HandleTable) (h : Nat) (scanning docancel : Bool) : HandleTable :=
  t.setSlot h { t.slot h with scanning, docancel }

end HandleTable

open HandleTable

/-- `SANE_NET_OPEN` behind the decoding. A device that finds no slot stays open. -/
def serveOpen (t : HandleTable) : OpenAnswer → HandleTable × List BackendCall × Served
  | .undecoded => (t, [], .returned 1)
  | .noName => (t, [], .returned 1)
  | .noDevice => (t, [], .returned 0)
  | .denied => (t, [], .returned 0)
  | .failed => (t, [], .returned 0)
  | .opened be =>
      match getFreeHandle (2 * t.numHandles + 2) t with
      | none => (t, [.saneOpen be], .hung)
      | some (h, t) => (t.setSlot h { t.slot h with handle := be }, [.saneOpen be], .returned 0)

/-- `start_scan`, with the status it leaves in the reply. -/
def startScan (t : HandleTable) (h : Nat) (answer : StartAnswer) :
    HandleTable × List BackendCall × SaneStatus :=
  let be := (t.slot h).handle
  if answer.listening = false then (t, [], .ioError)
  else if answer.start = .good then (t.setFlags h true false, [.saneStart be], .good)
  else (t, [.saneStart be], answer.start)

/-- `SANE_NET_START` up to its reply. -/
def replyStart (t : HandleTable) (h : Nat) (answer : StartAnswer) :
    HandleTable × List BackendCall × SaneStatus :=
  if (t.slot h).scanning then (t, [], .deviceBusy) else startScan t h answer

/-- The data connection of a scan that was started. -/
def acceptData (t : HandleTable) (h : Nat) (answer : StartAnswer) :
    HandleTable × List BackendCall × Served :=
  if answer.data.peername = false then (t, [], .returned 1)
  else if answer.data.nameinfo = false then (t, [], .returned 1)
  else if answer.data.authorized = false then (t, [], .returned (-1))
  else if answer.data.polled = false ∨ answer.data.accepted = false then
    (t.setFlags h false false, [.saneCancel (t.slot h).handle], .returned 1)
  else (t, [], .scanning h answer)

/-- `SANE_NET_START` for a handle in use. -/
def serveStart (t : HandleTable) (h : Nat) (answer : StartAnswer) :
    HandleTable × List BackendCall × Served :=
  let (t, calls, status) := replyStart t h answer
  if status = .good then
    let (t, calls', served) := acceptData t h answer
    (t, calls ++ calls', served)
  else (t, calls, .returned 0)

/-- `process_request`. -/
def processRequest (t : HandleTable) : Request → HandleTable × List BackendCall × Served
  | .undecoded => (t, [], .returned (-1))
  | .netGetDevices => (t, [], .returned 0)
  | .netOpen answer => serveOpen t answer
  | .netClose word =>
      let (t, closed) := t.closeHandle (match t.decodeHandle word with
        | none => -1
        | some h => h)
      (t, closed.toList.map .saneClose, .returned 0)
  | .netGetOptionDescriptors word numOptions =>
      match t.decodeHandle word with
      | none => (t, [], .returned 1)
      | some h =>
          let be := (t.slot h).handle
          (t, .saneControlOption be ::
            List.replicate numOptions.toInt.toNat (.saneGetOptionDescriptor be), .returned 0)
  | .netControlOption word memory =>
      match t.decodeHandle word with
      | none => (t, [], .returned 1)
      | some h =>
          if memory = false then (t, [], .returned 1)
          else (t, [.saneControlOption (t.slot h).handle], .returned 0)
  | .netGetParameters word =>
      match t.decodeHandle word with
      | none => (t, [], .returned 1)
      | some h => (t, [.saneGetParameters (t.slot h).handle], .returned 0)
  | .netStart word answer =>
      match t.decodeHandle word with
      | none => (t, [], .returned 1)
      | some h => serveStart t h answer
  | .netCancel word =>
      match t.decodeHandle word with
      | none => (t, [], .returned 0)
      | some h =>
          (t.setFlags h (t.slot h).scanning true, [.saneCancel (t.slot h).handle], .returned 0)
  | .netExit => (t, [], .returned (-1))
  | .unexpected => (t, [], .returned (-1))

/-- A call of `do_scan` with its locals. -/
structure Frame where
  h : Nat
  beHandle : SaneHandle
  locals : ScanLocals

/-- Whether `process_request` waits for a request, the innermost scan is at the start of a
turn, the connection is over, or a call does not return. -/
inductive Control where
  | request | turn | finished | lost
  deriving DecidableEq, Repr

/-- A connection: the table of handles, and the scans on the stack, innermost first. -/
structure Session where
  table : HandleTable
  frames : List Frame
  control : Control

/-- `do_scan` behind its loop. -/
def leaveScan (t : HandleTable) (h : Nat) : HandleTable × List BackendCall :=
  (t.setFlags h false false, if (t.slot h).docancel then [.saneCancel (t.slot h).handle] else [])

/-- `process_request` has returned: to `handle_connection`, or into the loop of a scan, which
may end and let the request it belongs to return. -/
def returnTo (t : HandleTable) : Int → List Frame → Session × List BackendCall
  | code, [] => (⟨t, [], if code < 0 then .finished else .request⟩, [])
  | code, f :: frames =>
      let t := if code < 0 then t.setFlags f.h (t.slot f.h).scanning true else t
      if (t.slot f.h).docancel || !f.locals.continues then
        let (t, calls) := leaveScan t f.h
        let (s, calls') := returnTo t 0 frames
        (s, calls ++ calls')
      else (⟨t, f :: frames, .turn⟩, [])

/-- The innermost scan ends. -/
def endScan (t : HandleTable) (h : Nat) (frames : List Frame) : Session × List BackendCall :=
  let (t, calls) := leaveScan t h
  let (s, calls') := returnTo t 0 frames
  (s, calls ++ calls')

/-- `do_scan` up to its loop; without memory there is none. -/
def enterScan (t : HandleTable) (h : Nat) (answer : StartAnswer) (frames : List Frame) :
    Session × List BackendCall :=
  let be := (t.slot h).handle
  match answer.buf with
  | none => endScan t h frames
  | some buf =>
      (⟨t, ⟨h, be, .start buf answer.selectFd⟩ :: frames, .turn⟩,
        [.saneSetIoMode be, .saneGetSelectFd be])

/-- Whether a turn calls `sane_read`. -/
def ScanLocals.reads (l : ScanLocals) (input : ScanInput) : Bool :=
  match input.select with
  | .ready _ be => l.bytesInBuf = 0 && l.status = .good && (l.polling || be)
  | _ => false

/-- What happens next: a request arrives, or the innermost scan takes a turn, in which a
request may be pending. -/
inductive Event where
  | request (r : Request)
  | turn (input : ScanInput) (rpc : Bool)

section Step

variable (bufferSize : Nat)

def serve (s : Session) (r : Request) : Session × List BackendCall :=
  let (t, calls, served) := processRequest s.table r
  match served with
  | .hung => (⟨t, s.frames, .lost⟩, calls)
  | .returned code =>
      let (s, calls') := returnTo t code s.frames
      (s, calls ++ calls')
  | .scanning h answer =>
      let (s, calls') := enterScan t h answer s.frames
      (s, calls ++ calls')

/-- A turn of the loop of `do_scan`. -/
def scanTurn (t : HandleTable) (f : Frame) (frames : List Frame) (input : ScanInput)
    (rpc : Bool) : Session × List BackendCall :=
  let calls := if f.locals.reads input then [.saneRead f.beHandle] else []
  match scanBody bufferSize f.locals input with
  | .error _ => (⟨t, f :: frames, .lost⟩, calls)
  | .ok (l, _, flow) =>
      let f := { f with locals := l }
      let loopTest : Session × List BackendCall :=
        if l.continues then (⟨t, f :: frames, .turn⟩, calls)
        else
          let (s, calls') := endScan t f.h frames
          (s, calls ++ calls')
      match flow with
      | .next => if rpc then (⟨t, f :: frames, .request⟩, calls) else loopTest
      | .again => loopTest
      | .leave docancel =>
          let t := if docancel then t.setFlags f.h (t.slot f.h).scanning true else t
          let (s, calls') := endScan t f.h frames
          (s, calls ++ calls')

/-- An event that the connection is ready for, with the calls of the backend it makes. -/
def Session.step (s : Session) : Event → Option (Session × List BackendCall)
  | .request r => if s.control = .request then some (serve s r) else none
  | .turn input rpc =>
      match s.control, s.frames with
      | .turn, f :: frames => some (scanTurn bufferSize s.table f frames input rpc)
      | _, _ => none

end Step

/-- The connection behind `init`. -/
def Session.start : Session := ⟨HandleTable.empty, [], .request⟩

end SaneBackends.Saned
