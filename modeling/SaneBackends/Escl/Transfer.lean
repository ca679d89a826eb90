import SaneBackends.Sanei.Types
/-!
# The transfer of an eSCL page

The request for the next document and its retries, as `escl_scan` and the workers of the JPEG,
PNG and TIFF streams make them. `escl_scan` starts each attempt with an empty file; the
workers keep in their pipe or file what earlier answers left there.
-/

namespace SaneBackends.Escl

/-- `MAX_RETRIES`. -/
def maxRetries : Nat := 20

/-- `escl_http_status`. -/
def httpStatus (response : Int) : SaneStatus :=
  if 200 ≤ response ∧ response < 300 then .good
  else if response = 401 ∨ response = 403 then .accessDenied
  else if response = 404 ∨ response = 409 then .noDocs
  else if response = 423 ∨ response = 429 ∨ response = 503 then .deviceBusy
  else if response = 400 ∨ response = 405 ∨ response = 415 then .unsupported
  else .ioError

/-- One `curl_easy_perform`: the chunks passed to the write callback, each with the counts
that the writes of it return, whether the transport succeeds, and the response code if it is
known. -/
structure Attempt where
  chunks : List (List UInt8 × List Nat)
  ok : Bool
  response : Option Int
  deriving DecidableEq, Repr

/-- The body of the response. -/
def Attempt.body (a : Attempt) : List UInt8 := (a.chunks.map Prod.fst).flatten

/-- `escl_curl_status`. -/
def curlStatus (ok : Bool) (response : Option Int) : SaneStatus :=
  if ok then
    match response with
    | none => .ioError
    | some response => httpStatus response
  else .ioError

/-- `escl_curl_retry`. -/
def curlRetry (status : SaneStatus) (attempt maxAttempts : Nat) : Bool :=
  decide (status = .deviceBusy ∧ attempt + 1 < maxAttempts)

/-- What `write_callback` and `tiff_stream_write` put into the file, by one `fwrite`. -/
def fileWrite (counts : List Nat) (chunk : List UInt8) : List UInt8 := chunk.take (counts.headD 0)

/-- What `stream_write_callback` and `png_stream_write` put into the pipe. A `write` that takes
nothing has failed. -/
def pipeWrite : List Nat → List UInt8 → List UInt8
  | [], _ => []
  | count :: counts, chunk =>
      if count = 0 ∨ chunk = [] then []
      else chunk.take count ++ pipeWrite counts (chunk.drop count)

/-- What an attempt leaves in the sink, and whether the callback took every chunk. -/
def deliver (write : List Nat → List UInt8 → List UInt8) :
    List (List UInt8 × List Nat) → List UInt8 × Bool
  | [] => ([], true)
  | (chunk, counts) :: chunks =>
      let taken := write counts chunk
      if taken.length < chunk.length then (taken, false)
      else
        let (rest, all) := deliver write chunks
        (taken ++ rest, all)

/-- The status of an attempt. A callback that takes less than it is passed ends the transfer. -/
def attemptStatus (write : List Nat → List UInt8 → List UInt8) (a : Attempt) : SaneStatus :=
  curlStatus ((deliver write a.chunks).2 && a.ok) a.response

/-- The loop of a stream worker, with what its sink holds and counts: the status it stores. The
loop always ends with an attempt that is not repeated. -/
def workerLoop (write : List Nat → List UInt8 → List UInt8) (attempts : Nat → Attempt) :
    Nat → Nat → List UInt8 → SaneStatus × List UInt8
  | 0, _, sink => (.ioError, sink)
  | turns + 1, attempt, sink =>
      let sink := sink ++ (deliver write (attempts attempt).chunks).1
      let status := attemptStatus write (attempts attempt)
      if curlRetry status attempt maxRetries then
        workerLoop write attempts turns (attempt + 1) sink
      else if status ≠ .good then (status, sink)
      else if sink.length = 0 then (.noDocs, sink)
      else (.good, sink)

/-- The worker of a stream: the status it ends with and what its sink holds. `init` says
whether there is a handle. -/
def streamWorker (write : List Nat → List UInt8 → List UInt8) (init : Bool)
    (attempts : Nat → Attempt) : SaneStatus × List UInt8 :=
  if init then workerLoop write attempts maxRetries 0 [] else (.noMem, [])

/-- `stream_worker` of `escl_jpeg.c`. -/
def jpegStreamWorker := streamWorker pipeWrite

/-- `png_stream_worker`. -/
def pngStreamWorker := streamWorker pipeWrite

/-- `tiff_stream_worker`. -/
def tiffStreamWorker := streamWorker fileWrite

/-- The loop of `escl_scan`: the status, and what the temporary file holds if it is kept.
`tmpfile` says which files can be opened. -/
def scanLoop (tmpfile : Nat → Bool) (attempts : Nat → Attempt) :
    Nat → Nat → SaneStatus → SaneStatus × List UInt8
  | 0, _, status => (status, [])
  | turns + 1, i, _ =>
      if tmpfile i then
        let file := (deliver fileWrite (attempts i).chunks).1
        let status := attemptStatus fileWrite (attempts i)
        if curlRetry status i maxRetries then scanLoop tmpfile attempts turns (i + 1) status
        else if status ≠ .good then (status, [])
        else if 0 < file.length then (.good, file)
        else (.noDocs, [])
      else (.noMem, [])

/-- `escl_scan`. -/
def esclScan (init : Bool) (tmpfile : Nat → Bool) (attempts : Nat → Attempt) :
    SaneStatus × List UInt8 :=
  if init then scanLoop tmpfile attempts maxRetries 0 .good else (.noMem, [])

/-- The four places where the next document is asked for. -/
inductive Kind where
  | scan
  | jpeg
  | png
  | tiff
  deriving DecidableEq, Repr

/-- The write callback. -/
def Kind.write : Kind → List Nat → List UInt8 → List UInt8
  | .scan | .tiff => fileWrite
  | .jpeg | .png => pipeWrite

/-- The transfer, with a handle and with room for files. -/
def Kind.transfer : Kind → (Nat → Attempt) → SaneStatus × List UInt8
  | .scan => esclScan true fun _ => true
  | .jpeg => jpegStreamWorker true
  | .png => pngStreamWorker true
  | .tiff => tiffStreamWorker true

/-- The answers to one request: busy ones that are followed by another attempt, and the last
one. -/
structure Answers (write : List Nat → List UInt8 → List UInt8) where
  busy : List Attempt
  last : Attempt
  status_busy : ∀ a ∈ busy, attemptStatus write a = .deviceBusy
  length_busy : busy.length < maxRetries
  final : busy.length + 1 = maxRetries ∨ attemptStatus write last ≠ .deviceBusy

/-- The attempts that meet these answers. -/
def Answers.attempts {write : List Nat → List UInt8 → List UInt8} (r : Answers write) (i : Nat) :
    Attempt := r.busy.getD i r.last

/-- The response came, with a code. -/
def Answered (write : List Nat → List UInt8 → List UInt8) (a : Attempt) (code : Int) : Prop :=
  (deliver write a.chunks).2 = true ∧ a.ok = true ∧ a.response = some code

end SaneBackends.Escl
