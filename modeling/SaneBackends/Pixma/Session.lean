import Mathlib.Tactic
/-!
# `pixma_common.c`: scanning

`pixma_scan`, `pixma_read_image`, `pixma_cancel` and `pixma_close` on a session, with the
calls they make of the driver of the model. What the driver answers is given.
-/

namespace SaneBackends.Pixma

/-- `PIXMA_ECANCELED`. -/
def ecanceled : Int := -7

/-- The parts of `pixma_scan_param_t` that are read. -/
structure ScanParam where
  imageSize : Nat
  modeJpeg : Bool
  deriving DecidableEq, Repr

/-- `pixma_t`. `buffered` is what is left between `imagebuf.rptr` and `imagebuf.rend`. -/
structure Session where
  scanning : Bool
  underrun : Bool
  cancel : Bool
  curImageSize : Nat
  buffered : Nat
  param : ScanParam
  deriving DecidableEq, Repr

/-- The calls of the driver; `scan` with whether it succeeds. -/
inductive DriverCall where
  | scan (ok : Bool)
  | fillBuffer
  | finishScan
  | close
  deriving DecidableEq, Repr

/-- What `fill_buffer` does: its result, the bytes it writes at `wptr`, at most as many as
there is room for, and the bytes it leaves in a buffer of its own. -/
structure FillResult where
  result : Int
  written : Nat
  internal : Nat
  deriving DecidableEq, Repr

/-- A session that `pixma_open` returns. -/
def Session.opened : Session where
  scanning := false
  underrun := false
  cancel := false
  curImageSize := 0
  buffered := 0
  param := ⟨0, false⟩

/-- `pixma_scan`, for the results of `pixma_check_scan_param` and of the driver. -/
def pixmaScan (s : Session) (sp : ScanParam) (check result : Int) :
    Session × List DriverCall × Int :=
  if check < 0 then (s, [], check)
  else
    let s := { s with
      param := sp, cancel := false, curImageSize := 0, buffered := 0, underrun := false }
    if 0 ≤ result then ({ s with scanning := true }, [.scan true], result)
    else (s, [.scan false], result)

/-- `fill_pixels`: the session afterwards and the pixels filled, if there is room for `room`. -/
def fillPixels (s : Session) (room : Nat) : Session × Nat :=
  if s.curImageSize < s.param.imageSize then
    let n := min (s.param.imageSize - s.curImageSize) room
    ({ s with curImageSize := s.curImageSize + n }, n)
  else (s, 0)

/-- The loop of `pixma_read_image`, entered with `room` bytes between `wptr` and `wend`. What
is buffered is copied; if there is room left then, the buffer is empty and is filled. The
result is an error of the driver or the room that is left. `none` stands for a loop that is
still waiting for the driver. -/
def readLoop (s : Session) : Nat → Nat → List FillResult →
    Option (Session × List DriverCall × Except Int Nat)
  | buffered, room, fills =>
      let count := min buffered room
      let buffered := buffered - count
      let room := room - count
      if room = 0 then some ({ s with buffered }, [], .ok room)
      else
        match fills with
        | [] => none
        | f :: fills =>
            let room := room - min f.written room
            if f.result < 0 then
              some ({ s with scanning := false }, [.fillBuffer, .finishScan], .error f.result)
            else if f.result = 0 then
              let s := { s with buffered := f.internal }
              if s.curImageSize < s.param.imageSize ∧ s.param.modeJpeg = false then
                let (s, n) := fillPixels { s with underrun := true } room
                some (s, [.fillBuffer, .finishScan], .ok (room - n))
              else some ({ s with scanning := false }, [.fillBuffer, .finishScan], .ok room)
            else
              (readLoop { s with curImageSize := s.curImageSize + f.result.toNat } f.internal room
                fills).map fun (s, calls, end') => (s, .fillBuffer :: calls, end')

/-- `pixma_read_image`, with the bytes it returns or its error. -/
def pixmaReadImage (s : Session) (len : Nat) (fills : List FillResult) :
    Option (Session × List DriverCall × Except Int Nat) :=
  if s.scanning = false then some (s, [], .ok 0)
  else if s.cancel then some ({ s with scanning := false }, [.finishScan], .error ecanceled)
  else if s.underrun then
    if s.curImageSize < s.param.imageSize then
      let (s, n) := fillPixels s len
      some (s, [], .ok n)
    else some ({ s with scanning := false }, [], .ok 0)
  else
    (readLoop s s.buffered len fills).map fun (s, calls, end') =>
      (s, calls, end'.map fun room => len - room)

def pixmaCancel (s : Session) : Session := { s with cancel := true }

/-- `pixma_close` of a connected session. -/
def pixmaClose (s : Session) : List DriverCall :=
  if s.scanning then [.finishScan, .close] else [.close]

/-- A call of the functions above, with the answers it gets. -/
inductive Event where
  | scan (sp : ScanParam) (check result : Int)
  | readImage (len : Nat) (fills : List FillResult)
  | cancel
  | close
  deriving DecidableEq, Repr

/-- A call on a session that is open. Its caller starts a scan only when the last one has
ended. `none` is a session that is closed. -/
def Event.step : Option Session → Event → Option (Option Session × List DriverCall)
  | none, _ => none
  | some s, .scan sp check result =>
      if s.scanning then none
      else
        let (s, calls, _) := pixmaScan s sp check result
        some (some s, calls)
  | some s, .readImage len fills =>
      (pixmaReadImage s len fills).map fun (s, calls, _) => (some s, calls)
  | some s, .cancel => some (some (pixmaCancel s), [])
  | some s, .close => some (none, pixmaClose s)

end SaneBackends.Pixma
