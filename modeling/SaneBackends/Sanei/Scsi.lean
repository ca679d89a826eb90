import SaneBackends.Lib.Transition
import SaneBackends.Sanei.Types
/-!
# `sanei_scsi.c`: the Linux interface

`issue`, `sanei_scsi_req_enter2`, `sanei_scsi_req_wait` and `sanei_scsi_req_flush_all_extended`
on one file descriptor, for both interfaces of the SG driver. Requests are named by their
`pack_id`. What the kernel answers is given.
-/

namespace SaneBackends.Scsi

open SaneBackends.Lib

/-- The fields of a `struct sg_header` that are examined; `sense` stands for the first byte of
its sense buffer. -/
structure SgHeader where
  result : Int
  sense : UInt8
  targetStatus : UInt8
  hostStatus : UInt8
  driverStatus : UInt8
  deriving DecidableEq, Repr

/-- The fields of a `struct sg_io_hdr` that are examined, with the first byte of the sense
buffer. -/
structure SgIoHdr where
  info : UInt32
  sbLenWr : UInt8
  sense : UInt8
  status : UInt8
  maskedStatus : UInt8
  hostStatus : UInt16
  driverStatus : UInt16
  deriving DecidableEq, Repr

/-- What `memset` leaves. -/
def SgIoHdr.zero : SgIoHdr := ⟨0, 0, 0, 0, 0, 0, 0⟩

/-- The outcome of one submission, a `write` or an `SG_IO` `ioctl`: the command was accepted,
`EAGAIN`, `ENOMEM`, or any other failure. The `ioctl` returns with the header filled in. -/
inductive Answer where
  | ok (hdr : SgIoHdr)
  | again
  | noMem
  | error
  deriving DecidableEq, Repr

/-- `struct req`. -/
structure Req where
  running : Bool
  done : Bool
  status : SaneStatus
  hdr : SgIoHdr
  deriving DecidableEq, Repr

/-- `fdparms`, with the requests its list holds one behind the other, the number of those on
the free list, the next `pack_id`, and the requests the kernel accepted so far. -/
structure Fdparms where
  sgQueueUsed : Int
  sgQueueMax : Int
  queue : List Nat
  reqs : Nat → Req
  freeList : Nat
  packId : Nat
  accepted : List (Nat × SgIoHdr)

def Fdparms.update (f : Fdparms) (id : Nat) (change : Req → Req) : Fdparms :=
  { f with reqs := Function.update f.reqs id (change (f.reqs id)) }

/-- The loop of `issue` that submits one request: the last answer, and the answers that are
left. Only the first request in the queue is tried again on `EAGAIN`. Where no answer is left
the submission fails. -/
def submit (head : Bool) : Nat → List Answer → Answer × List Answer
  | 0, answers => (.again, answers)
  | _ + 1, [] => (.error, [])
  | retries + 1, .again :: answers =>
      if head then submit head retries answers else (.again, answers)
  | _ + 1, answer :: answers => (answer, answers)

/-- The value of `retries` at first. -/
def maxRetries : Nat := 20

/-- What a failure that is final leaves of a request. -/
def failed (version : Int) (status : SaneStatus) (r : Req) : Req :=
  { r with
    running := decide (version < 30000), done := true,
    status := if version < 30000 then status else .ioError }

/-- The status that `issue` stores in its argument when it has submitted a request. -/
def issuedStatus (version : Int) (status : SaneStatus) : SaneStatus :=
  if version < 30000 then .ioError else if 30000 < version then .good else status

/-- The kernel accepts a request. -/
def Fdparms.accept (f : Fdparms) (rp : Nat) (hdr : SgIoHdr) : Fdparms :=
  { f.update rp fun r => { r with running := true, hdr := hdr } with
    accepted := f.accepted ++ [(rp, hdr)] }

/-- The loop of `issue` over the requests from the first one on that is not running. -/
def issueLoop (version : Int) (req : Nat) :
    List Nat → Fdparms → List Answer → Fdparms × List Answer
  | [], f, answers => (f, answers)
  | rp :: rest, f, answers =>
      if f.sgQueueUsed < f.sgQueueMax then
        let head := f.queue.head? == some rp
        match submit head maxRetries answers with
        | (.ok hdr, answers) =>
            let f := (f.accept rp hdr).update req fun r =>
              { r with status := issuedStatus version r.status }
            issueLoop version req rest { f with sgQueueUsed := f.sgQueueUsed + 1 } answers
        | (.again, answers) => (f.update rp fun r => { r with running := false }, answers)
        | (.noMem, answers) =>
            if head then (f.update rp (failed version .noMem), answers)
            else (f.update rp fun r => { r with running := false }, answers)
        | (.error, answers) => (f.update rp (failed version .ioError), answers)
      else (f, answers)

/-- `issue`. -/
def issue (version : Int) (req : Option Nat) (f : Fdparms) (answers : List Answer) :
    Fdparms × List Answer :=
  match req with
  | none => (f, answers)
  | some req =>
      issueLoop version req (f.queue.dropWhile fun rp => (f.reqs rp).running) f answers

/-- A request as it is entered. -/
def Req.entered : Req where
  running := false
  done := false
  status := .good
  hdr := .zero

/-- `sanei_scsi_req_enter2`, and whether `malloc` finds room for a request. -/
def reqEnter2 (version : Int) (malloc : Bool) (answers : List Answer) (f : Fdparms) :
    SaneStatus × Fdparms :=
  if f.freeList = 0 ∧ malloc = false then (.noMem, f)
  else
    let f' := { f with
      freeList := f.freeList - 1, packId := f.packId + 1, queue := f.queue ++ [f.packId],
      reqs := Function.update f.reqs f.packId .entered }
    (.good, (issue version (some f.packId) f' answers).1)

/-- The error classification of `sanei_scsi_req_wait` for the write interface. `handler` is
what the sense handler returns, if there is one. -/
def cdbStatus (handler : Option SaneStatus) (hdr : SgHeader) : SaneStatus :=
  if hdr.result ≠ 0 ∨ (hdr.sense &&& 0x7f ≠ 0 ∧ hdr.driverStatus &&& 0x08 ≠ 0) then
    if hdr.hostStatus = 1 ∨ hdr.hostStatus = 2 ∨ hdr.hostStatus = 3 ∨
        hdr.driverStatus = 1 ∨ hdr.targetStatus = 4 then .deviceBusy
    else handler.getD .ioError
  else .good

/-- The error classification of `sanei_scsi_req_wait` for `SG_IO`. -/
def sg3Status (handler : Option SaneStatus) (hdr : SgIoHdr) : SaneStatus :=
  if hdr.info &&& 1 ≠ 0 ∨
      (0 < hdr.sbLenWr ∧ hdr.sense &&& 0x7f ≠ 0 ∧ hdr.driverStatus &&& 0x08 ≠ 0) then
    if hdr.hostStatus = 1 ∨ hdr.hostStatus = 2 ∨ hdr.hostStatus = 3 ∨
        hdr.driverStatus = 1 ∨ hdr.maskedStatus = 4 then .deviceBusy
    else
      match handler, decide (hdr.sbLenWr ≠ 0) with
      | some status, true => status
      | _, _ =>
          if hdr.status &&& 0x2a = 0 ∧ hdr.hostStatus = 0 ∧ hdr.driverStatus &&& ~~~0x08 = 0 then
            .good
          else .ioError
  else .good

/-- The status of a completion: of what `read` returned, `none` if it failed, or of what the
`ioctl` left in the header. -/
def completionStatus (version : Int) (handler : Option SaneStatus) (read : Option SgHeader)
    (hdr : SgIoHdr) : SaneStatus :=
  if version < 30000 then
    match read with
    | none => .ioError
    | some hdr => cdbStatus handler hdr
  else sg3Status handler hdr

/-- The end of `sanei_scsi_req_wait`. -/
def Fdparms.dequeue (f : Fdparms) : Fdparms :=
  { f with queue := f.queue.tail, freeList := f.freeList + 1 }

/-- `sanei_scsi_req_wait`; `none` where the request is not the first one in the queue, which is
asserted. -/
def reqWait (version : Int) (req : Nat) (answers : List Answer) (read : Option SgHeader)
    (handler : Option SaneStatus) (f : Fdparms) : Option (SaneStatus × Fdparms) :=
  match f.queue with
  | [] => none
  | qhead :: rest =>
      if qhead ≠ req then none
      else
        let (f, answers) := issue version (some req) f answers
        if (f.reqs req).done then
          let f := (issue version rest.head? f answers).1
          some ((f.reqs req).status, f.dequeue)
        else
          let f := f.update req fun r => { r with done := true }
          let f := { f with sgQueueUsed := f.sgQueueUsed - 1 }
          let f := (issue version rest.head? f answers).1
          some (completionStatus version handler read (f.reqs req).hdr, f.dequeue)

/-- `sanei_scsi_req_flush_all_extended`. Each `read` is given up in the end. -/
def reqFlush (f : Fdparms) : Fdparms :=
  { f with
    sgQueueUsed := f.queue.foldl (fun used id =>
      if (f.reqs id).running ∧ ¬(f.reqs id).done then used - 1 else used) f.sgQueueUsed
    queue := []
    freeList := f.freeList + f.queue.length }

/-- A wait that returned: the request, what was read, what the sense handler would return, and
the status. -/
structure Waited where
  req : Nat
  read : Option SgHeader
  handler : Option SaneStatus
  status : SaneStatus
  deriving DecidableEq, Repr

/-- A file descriptor and the waits that returned. -/
structure Session where
  fd : Fdparms
  waited : List Waited

inductive Call where
  | enter2 (malloc : Bool) (answers : List Answer)
  | wait (req : Nat) (answers : List Answer) (read : Option SgHeader) (handler : Option SaneStatus)
  | flush
  deriving DecidableEq, Repr

def Session.call (version : Int) (s : Session) : Call → Option Session
  | .enter2 malloc answers => some { s with fd := (reqEnter2 version malloc answers s.fd).2 }
  | .wait req answers read handler =>
      match reqWait version req answers read handler s.fd with
      | none => none
      | some (status, f) =>
          some { fd := f, waited := s.waited ++ [⟨req, read, handler, status⟩] }
  | .flush => some { s with fd := reqFlush s.fd }

/-- A file descriptor as `sanei_scsi_open` leaves it. -/
def Session.opened (queueMax : Int) (packId : Nat) : Session where
  fd := {
    sgQueueUsed := 0, sgQueueMax := queueMax, queue := [], reqs := fun _ => .entered,
    freeList := 0, packId := packId, accepted := [] }
  waited := []

/-- Runs on one file descriptor. `sanei_scsi_open` sees to it that there is room in the queue
of the kernel. -/
def scsi (version : Int) : System Session Call where
  init s := ∃ queueMax packId, 0 < queueMax ∧ s = Session.opened queueMax packId
  step s c s' := s.call version c = some s'

end SaneBackends.Scsi
