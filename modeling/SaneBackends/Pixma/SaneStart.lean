import SaneBackends.Sanei.Types
/-!
# `sane_start`

A scan needs a pipe, a reader task at the other end of it and, for a JPEG, a decompressor that has read
its header. The steps that get them may fail one by one, and what was there before has to go then.
-/

namespace SaneBackends.Pixma.SaneStart

/-! The `PIXMA_E*` that have a status of their own. -/

def eacces : Int := -3
def enomem : Int := -4
def einval : Int := -5
def ebusy : Int := -6
def ecanceled : Int := -7
def enotsup : Int := -8
def epaperJammed : Int := -11
def ecoverOpen : Int := -12
def enoPaper : Int := -13

def mapError (error : Int) : SaneStatus :=
  if 0 ≤ error then .good
  else if error = enomem then .noMem
  else if error = ecanceled then .cancelled
  else if error = ebusy then .deviceBusy
  else if error = einval then .inval
  else if error = eacces then .accessDenied
  else if error = epaperJammed then .jammed
  else if error = enoPaper then .noDocs
  else if error = ecoverOpen then .coverOpen
  else if error = enotsup then .unsupported
  else .ioError

/-- `pixma_paper_source_t` -/
inductive PaperSource where
  | flatbed | adf | tpu | adfdup
  deriving DecidableEq, Repr

def PaperSource.feeds (source : PaperSource) : Bool := source = .adf || source = .adfdup

/-- `pixma_scan_param_t`, of which these are read. -/
structure ScanParam where
  source : PaperSource
  modeJpeg : Bool
  w : Nat
  channels : Nat
  depth : Nat
  deriving DecidableEq, Repr

/-- `pixma_sane_t`. Pipe ends and the task are `none` for `-1`. -/
structure Handle where
  sp : ScanParam
  /-- `source_map[OVAL (opt_source).w]` -/
  optSource : PaperSource
  cancel : Bool
  idle : Bool
  scanning : Bool
  lastReadStatus : SaneStatus
  bytePosInLine : Nat
  outputLineSize : Nat
  imageBytesRead : Nat
  pageCount : Nat
  readerTaskid : Option Nat
  wpipe : Option Nat
  rpipe : Option Nat
  readerStop : Bool
  jpegInitialized : Bool
  jpegHeaderSeen : Bool
  deriving DecidableEq, Repr

/-- The handle, and what the system holds for it: the pipe ends that are open in this process, and the
reader tasks that were not waited for. -/
structure State extends Handle where
  openEnds : List Nat
  running : List Nat
  deriving DecidableEq, Repr

/-- The system holds what the handle knows of. -/
def Handle.attach (h : Handle) : State :=
  { h with openEnds := h.rpipe.toList ++ h.wpipe.toList, running := h.readerTaskid.toList }

/-- What `pipe` returns. -/
structure PipeEnds where
  rd : Nat
  wr : Nat
  ne : rd ≠ wr

/-- How the steps of `sane_start` end. -/
structure Steps where
  /-- The result of `calc_scan_param`, and what it leaves in `sp`. -/
  calcScanParam : Int × ScanParam
  /-- Whether `jpeg_create_decompress` and the allocations return. -/
  jpegStart : Bool
  /-- What `sanei_thread_waitpid` finds for a task of an earlier scan; `none` if it fails. -/
  staleExit : Option SaneStatus
  pipe : Option PipeEnds
  /-- What `sanei_thread_begin` returns. -/
  task : Option Nat
  /-- Whether `pixma_jpeg_read_header` gets through. -/
  header : Bool
  /-- What `sanei_thread_waitpid` finds for the new task. -/
  exit : Option SaneStatus

variable (forked : Bool) (s : State) (steps : Steps)

/-- `close (fd)` -/
def State.close (fd : Option Nat) : State :=
  { s with openEnds := s.openEnds.filter fun n => some n ≠ fd }

/-- The task is gone. A thread has closed `wpipe` at its end. -/
def State.joined (pid : Nat) : State :=
  let s := { s with running := s.running.erase pid }
  if forked then s else { s.close s.wpipe with wpipe := none }

/-- `terminate_reader_task`: whether it returns a valid task, and the exit code if it stores one. -/
def terminateReaderTask (wait : Option SaneStatus) : State × Bool × Option SaneStatus :=
  match s.readerTaskid with
  | none => (s, false, none)
  | some pid =>
      let s := if forked then s else { s with readerStop := true }
      let s := { s with
        readerTaskid := none
        idle := if s.sp.source.feeds then s.idle else true }
      match wait with
      | some status => (s.joined forked pid, true, some status)
      | none => (s, false, none)

def closeStale : State :=
  if s.rpipe ≠ none ∨ s.wpipe ≠ none then
    { (s.close s.rpipe).close s.wpipe with rpipe := none, wpipe := none }
  else s

/-- What `start_reader_task` does first. -/
def dropStale (wait : Option SaneStatus) : State :=
  let s := closeStale s
  if s.readerTaskid ≠ none then (terminateReaderTask forked s wait).1 else s

def startReaderTask : Int × State :=
  let s := dropStale forked s steps.staleExit
  match steps.pipe with
  | none => (enomem, s)
  | some ends =>
      let s := { s with
        rpipe := some ends.rd
        wpipe := some ends.wr
        readerStop := false
        openEnds := ends.rd :: ends.wr :: s.openEnds }
      match steps.task with
      | none => (enomem, { (s.close s.wpipe).close s.rpipe with wpipe := none, rpipe := none })
      | some pid =>
          let s := { s with running := pid :: s.running }
          let s := if forked then { s.close s.wpipe with wpipe := none } else s
          (0, { s with readerTaskid := some pid })

def pixmaJpegStart : SaneStatus × State :=
  if steps.jpegStart then
    (.good, { s with jpegInitialized := true, jpegHeaderSeen := false })
  else (.ioError, { s with jpegInitialized := false })

def pixmaJpegReadHeader : SaneStatus × State :=
  if steps.header then (.good, { s with jpegHeaderSeen := true })
  else (.ioError, { s with jpegHeaderSeen := false })

def pixmaJpegFinish : State :=
  if s.jpegInitialized then { s with jpegInitialized := false } else s

/-- The scan is given up. `error` is that of `start_reader_task`, or the exit code of the task. -/
def headerFailed (error : Int) : SaneStatus × State :=
  let s := { pixmaJpegFinish (s.close s.rpipe) with rpipe := none }
  let terminated := terminateReaderTask forked s steps.exit
  match terminated.2.2 with
  | some status =>
      if terminated.2.1 ∧ status ≠ .good then (status, terminated.1)
      else (mapError status.code, terminated.1)
  | none => (mapError error, terminated.1)

/-- The last step: the header of a JPEG. -/
def readHeader (error : Int) : SaneStatus × State :=
  if s.sp.modeJpeg ∧ s.jpegHeaderSeen = false then
    let (status, s) := pixmaJpegReadHeader s steps
    if status ≠ .good then headerFailed forked s steps error else (mapError error, s)
  else (mapError error, s)

/-- The steps behind `calc_scan_param` and the set-up of the decompressor. -/
def startScan : SaneStatus × State :=
  let (error, s) := startReaderTask forked { s with imageBytesRead := 0 } steps
  let s := if error < 0 ∧ s.sp.modeJpeg then pixmaJpegFinish s else s
  if 0 ≤ error then
    readHeader forked
      { s with
        outputLineSize := s.sp.w * s.sp.channels * s.sp.depth / 8
        bytePosInLine := 0
        lastReadStatus := .good
        scanning := true
        idle := false }
      steps error
  else (mapError error, s)

def saneStart : SaneStatus × State :=
  if s.idle = false ∧ s.scanning = true ∧ s.sp.source.feeds = false then (.inval, s)
  else
    let s := { s with
      cancel := false
      pageCount :=
        if s.idle ∨ s.optSource = .flatbed ∨ s.optSource = .tpu then 0 else s.pageCount + 1
      sp := steps.calcScanParam.2 }
    if steps.calcScanParam.1 < 0 then (.inval, s)
    else if s.sp.modeJpeg then
      let (status, s) := pixmaJpegStart s steps
      if status ≠ .good then (status, s) else startScan forked s steps
    else startScan forked s steps

/-! ## What is to be there afterwards -/

/-- There is what a scan needs. -/
structure State.Ready (s : State) : Prop where
  rpipe : ∃ fd, s.rpipe = some fd ∧ fd ∈ s.openEnds
  reader : ∃ pid, s.readerTaskid = some pid ∧ pid ∈ s.running
  jpeg : s.sp.modeJpeg = true → s.jpegInitialized = true ∧ s.jpegHeaderSeen = true

/-- There is no reader task and no pipe, neither for the handle nor for the system. -/
structure State.Stopped (s : State) : Prop where
  running : s.running = []
  reader : s.readerTaskid = none
  openEnds : s.openEnds = []
  rpipe : s.rpipe = none
  wpipe : s.wpipe = none

/-- All of it, or nothing. -/
def Settled (result : SaneStatus × State) : Prop :=
  if result.1 = .good then result.2.Ready
  else result.2.Stopped ∧ result.2.jpegInitialized = false

/-! ## When it is -/

/-- Another scan goes on. -/
def Handle.Refuses (h : Handle) : Prop :=
  h.idle = false ∧ h.scanning = true ∧ h.sp.source.feeds = false

def Handle.Stopped (h : Handle) : Prop :=
  h.readerTaskid = none ∧ h.rpipe = none ∧ h.wpipe = none

/-- A task of an earlier scan, if there is one, can be waited for. -/
def Handle.Clears (h : Handle) (steps : Steps) : Prop :=
  h.readerTaskid = none ∨ steps.staleExit ≠ none

/-- The task ends with an error that can be seen. -/
def Steps.ExitFails (steps : Steps) : Prop := ∃ status, steps.exit = some status ∧ status ≠ .good

instance (h : Handle) : Decidable h.Refuses :=
  inferInstanceAs (Decidable (h.idle = false ∧ h.scanning = true ∧ h.sp.source.feeds = false))

/-- The steps that fail find nothing that they do not undo, and a task whose header cannot be read
ends with an error. -/
def Undoes (h : Handle) (steps : Steps) : Prop :=
  if h.Refuses ∨ steps.calcScanParam.1 < 0 then h.Stopped ∧ h.jpegInitialized = false
  else if steps.calcScanParam.2.modeJpeg = true ∧ steps.jpegStart = false then h.Stopped
  else if steps.pipe.isNone ∨ steps.task.isNone then
    h.Clears steps ∧ (steps.calcScanParam.2.modeJpeg = true ∨ h.jpegInitialized = false)
  else
    steps.calcScanParam.2.modeJpeg = true ∧ steps.header = false → h.Clears steps ∧ steps.ExitFails

/-! ## The reader task -/

section Reader

variable {forked} {s s' : State} {steps} {stuck : List Nat}

/-- The system holds nothing that the handle does not know of. -/
structure State.Tracked (s : State) : Prop where
  openEnds : ∀ fd ∈ s.openEnds, some fd = s.rpipe ∨ some fd = s.wpipe
  running : s.running = s.readerTaskid.toList

theorem attach_tracked (h : Handle) : h.attach.Tracked := by
  refine ⟨fun fd hfd => ?_, rfl⟩
  cases List.mem_append.mp hfd with
  | inl hrpipe => exact .inl (Option.mem_toList.mp hrpipe).symm
  | inr hwpipe => exact .inr (Option.mem_toList.mp hwpipe).symm

/-- The ends that are left after `close`. -/
theorem mem_close {fd : Option Nat} {n : Nat} :
    n ∈ (s.close fd).openEnds ↔ n ∈ s.openEnds ∧ some n ≠ fd := by
  rw [State.close, List.mem_filter, decide_eq_true_iff]

/-- Both ends are closed. -/
theorem close_both (h : ∀ fd ∈ s.openEnds, some fd = s.rpipe ∨ some fd = s.wpipe) :
    ((s.close s.rpipe).close s.wpipe).openEnds = [] := by
  apply List.eq_nil_iff_forall_not_mem.mpr
  intro fd hfd
  obtain ⟨hfd, hwpipe⟩ := mem_close.mp hfd
  obtain ⟨hfd, hrpipe⟩ := mem_close.mp hfd
  exact (h fd hfd).elim hrpipe hwpipe

/-- What is the same as before: all that the reader task has nothing to do with. -/
structure Keeps (s s' : State) : Prop where
  sp : s'.sp = s.sp
  jpegInitialized : s'.jpegInitialized = s.jpegInitialized
  jpegHeaderSeen : s'.jpegHeaderSeen = s.jpegHeaderSeen

/-- There is no pipe and no task but those that could not be waited for. -/
structure Dropped (s s' : State) (stuck : List Nat) : Prop where
  keeps : Keeps s s'
  openEnds : s'.openEnds = []
  rpipe : s'.rpipe = none
  wpipe : s'.wpipe = none
  reader : s'.readerTaskid = none
  running : s'.running = stuck

/-- The tasks that `terminate_reader_task` leaves. -/
def leftOver (reader : Option Nat) (wait : Option SaneStatus) : List Nat :=
  if wait = none then reader.toList else []

theorem terminateReaderTask_none (h : s.readerTaskid = none) (wait : Option SaneStatus) :
    terminateReaderTask forked s wait = (s, false, none) := by
  rw [terminateReaderTask, h]

/-- The state in which `terminate_reader_task` waits. -/
def State.terminated (forked : Bool) (s : State) : State :=
  { s with
    readerStop := if forked then s.readerStop else true
    readerTaskid := none
    idle := if s.sp.source.feeds then s.idle else true }

theorem terminateReaderTask_some {pid : Nat} (h : s.readerTaskid = some pid)
    (wait : Option SaneStatus) :
    terminateReaderTask forked s wait =
      match wait with
      | some status => ((s.terminated forked).joined forked pid, true, some status)
      | none => (s.terminated forked, false, none) := by
  rw [terminateReaderTask, h]
  cases forked with
  | false => rfl
  | true => rfl

/-- A task that was waited for has left no pipe end, if no other was open. -/
theorem joined_openEnds (forked : Bool) (s : State) (pid : Nat)
    (hends : ∀ fd ∈ s.openEnds, some fd = s.wpipe)
    (hforked : forked = true → s.wpipe = none) :
    (s.joined forked pid).openEnds = [] ∧ (s.joined forked pid).wpipe = none := by
  rw [State.joined]
  cases forked with
  | true =>
      have hwpipe := hforked rfl
      refine ⟨List.eq_nil_iff_forall_not_mem.mpr fun fd hfd => ?_, hwpipe⟩
      have hopen := hends fd hfd
      rw [hwpipe] at hopen
      cases hopen
  | false =>
      refine ⟨List.eq_nil_iff_forall_not_mem.mpr fun fd hfd => ?_, rfl⟩
      obtain ⟨hopen, hne⟩ := mem_close.mp hfd
      exact hne (hends fd hopen)

theorem joined_keeps (forked : Bool) (s : State) (pid : Nat) :
    Keeps s (s.joined forked pid) ∧
    (s.joined forked pid).rpipe = s.rpipe ∧
    (s.joined forked pid).readerTaskid = s.readerTaskid ∧
    (s.joined forked pid).running = s.running.erase pid := by
  cases forked with
  | true => exact ⟨⟨rfl, rfl, rfl⟩, rfl, rfl, rfl⟩
  | false => exact ⟨⟨rfl, rfl, rfl⟩, rfl, rfl, rfl⟩

/-- A task whose pipe is closed ends, or is left over. -/
theorem terminateReaderTask_dropped (forked : Bool) (wait : Option SaneStatus) (hrpipe : s.rpipe = none)
    (hwpipe : s.wpipe = none) (hends : s.openEnds = [])
    (hrunning : s.running = s.readerTaskid.toList) :
    Dropped s (terminateReaderTask forked s wait).1 (leftOver s.readerTaskid wait) := by
  cases hreader : s.readerTaskid with
  | none =>
      rw [hreader] at hrunning
      rw [terminateReaderTask_none hreader]
      exact ⟨⟨rfl, rfl, rfl⟩, hends, hrpipe, hwpipe, hreader, by
        rw [hrunning, leftOver, Option.toList_none, ite_self]⟩
  | some pid =>
      rw [hreader] at hrunning
      rw [terminateReaderTask_some hreader]
      cases wait with
      | none => exact ⟨⟨rfl, rfl, rfl⟩, hends, hrpipe, hwpipe, rfl, hrunning⟩
      | some status =>
          obtain ⟨hkeeps, hrpipe', hreader', hrunning'⟩ :=
            joined_keeps forked (s.terminated forked) pid
          have hclosed := joined_openEnds forked (s.terminated forked) pid
            (fun fd hfd => absurd (hends ▸ hfd) List.not_mem_nil) fun _ => hwpipe
          refine ⟨⟨hkeeps.sp, hkeeps.jpegInitialized, hkeeps.jpegHeaderSeen⟩, hclosed.1,
            hrpipe'.trans hrpipe, hclosed.2, hreader', hrunning'.trans ?_⟩
          show s.running.erase pid = []
          rw [hrunning, Option.toList_some, List.erase_cons_head]

theorem closeStale_spec (h : s.Tracked) :
    Keeps s (closeStale s) ∧ (closeStale s).openEnds = [] ∧ (closeStale s).rpipe = none ∧
      (closeStale s).wpipe = none ∧ (closeStale s).readerTaskid = s.readerTaskid ∧
      (closeStale s).running = s.running := by
  rw [closeStale]
  by_cases hpipe : s.rpipe ≠ none ∨ s.wpipe ≠ none
  · rw [if_pos hpipe]
    exact ⟨⟨rfl, rfl, rfl⟩, close_both h.openEnds, rfl, rfl, rfl, rfl⟩
  · rw [if_neg hpipe]
    rw [not_or, not_not, not_not] at hpipe
    obtain ⟨hrpipe, hwpipe⟩ := hpipe
    refine ⟨⟨rfl, rfl, rfl⟩, List.eq_nil_iff_forall_not_mem.mpr fun fd hfd => ?_, hrpipe, hwpipe,
      rfl, rfl⟩
    have hopen := h.openEnds fd hfd
    rw [hrpipe, hwpipe] at hopen
    exact hopen.elim (fun h => by cases h) fun h => by cases h

theorem dropStale_dropped (forked : Bool) (h : s.Tracked) (wait : Option SaneStatus) :
    Dropped s (dropStale forked s wait) (leftOver s.readerTaskid wait) := by
  obtain ⟨hkeeps, hends, hrpipe, hwpipe, hreader, hrunning⟩ := closeStale_spec h
  rw [dropStale]
  by_cases hvalid : (closeStale s).readerTaskid ≠ none
  · have hdropped := terminateReaderTask_dropped forked wait hrpipe hwpipe hends
      (by rw [hrunning, hreader]; exact h.running)
    rw [hreader] at hdropped
    rw [if_pos hvalid]
    exact
      { hdropped with
        keeps :=
          ⟨hdropped.keeps.sp.trans hkeeps.sp,
            hdropped.keeps.jpegInitialized.trans hkeeps.jpegInitialized,
            hdropped.keeps.jpegHeaderSeen.trans hkeeps.jpegHeaderSeen⟩ }
  · rw [if_neg hvalid]
    rw [not_not] at hvalid
    have hnone := hreader.symm.trans hvalid
    exact ⟨hkeeps, hends, hrpipe, hwpipe, hvalid, by
      rw [hrunning, h.running, hnone, leftOver, Option.toList_none, ite_self]⟩

/-- Without a pipe or a task there is only an error. -/
theorem startReaderTask_fails (forked : Bool) (h : s.Tracked)
    (hfail : steps.pipe.isNone = true ∨ steps.task.isNone = true) :
    ∃ s', startReaderTask forked s steps = (enomem, s') ∧
      Dropped s s' (leftOver s.readerTaskid steps.staleExit) := by
  have hdropped := dropStale_dropped forked h steps.staleExit
  obtain ⟨hsp, hinitialized, hseen⟩ := hdropped.keeps
  rw [startReaderTask]
  cases hpipe : steps.pipe with
  | none => exact ⟨_, rfl, hdropped⟩
  | some ends =>
      cases htask : steps.task with
      | none =>
          refine ⟨_, rfl, ⟨hsp, hinitialized, hseen⟩, ?_, rfl, rfl, hdropped.reader, hdropped.running⟩
          apply List.eq_nil_iff_forall_not_mem.mpr
          intro fd hfd
          obtain ⟨hfd, hrpipe⟩ := mem_close.mp hfd
          obtain ⟨hfd, hwpipe⟩ := mem_close.mp hfd
          dsimp only at hfd
          rw [hdropped.openEnds, List.mem_cons, List.mem_singleton] at hfd
          exact hfd.elim (fun h => hrpipe (congrArg some h)) fun h => hwpipe (congrArg some h)
      | some pid =>
          rw [hpipe, htask] at hfail
          exact hfail.elim (fun h => by cases h) fun h => by cases h

/-- The pipe and the task are there. -/
structure Started (forked : Bool) (s s' : State) (stuck : List Nat) : Prop where
  keeps : Keeps s s'
  rpipe : ∃ fd, s'.rpipe = some fd ∧ fd ∈ s'.openEnds
  openEnds : ∀ fd ∈ s'.openEnds, some fd = s'.rpipe ∨ some fd = s'.wpipe
  wpipe : forked = true → s'.wpipe = none
  reader : ∃ pid, s'.readerTaskid = some pid ∧ s'.running = pid :: stuck

theorem startReaderTask_starts (forked : Bool) (h : s.Tracked)
    (hstart : ¬(steps.pipe.isNone = true ∨ steps.task.isNone = true)) :
    ∃ s', startReaderTask forked s steps = (0, s') ∧
      Started forked s s' (leftOver s.readerTaskid steps.staleExit) := by
  have hdropped := dropStale_dropped forked h steps.staleExit
  obtain ⟨hsp, hinitialized, hseen⟩ := hdropped.keeps
  rw [startReaderTask]
  cases hpipe : steps.pipe with
  | none => exact absurd (.inl (by rw [hpipe]; rfl)) hstart
  | some ends =>
      cases htask : steps.task with
      | none => exact absurd (.inr (by rw [htask]; rfl)) hstart
      | some pid =>
          cases forked with
          | true =>
              refine ⟨_, rfl, ⟨hsp, hinitialized, hseen⟩, ⟨ends.rd, rfl, mem_close.mpr ⟨?_, ?_⟩⟩, ?_, ?_, ?_⟩
              · exact List.mem_cons_self
              · exact fun h => ends.ne (Option.some.inj h)
              · intro fd hfd
                obtain ⟨hfd, hwpipe⟩ := mem_close.mp hfd
                dsimp only at hfd
                rw [hdropped.openEnds, List.mem_cons, List.mem_singleton] at hfd
                exact .inl (congrArg some (hfd.resolve_right fun h => hwpipe (congrArg some h)))
              · exact fun _ => rfl
              · exact ⟨pid, rfl, congrArg (pid :: ·) hdropped.running⟩
          | false =>
              refine ⟨_, rfl, ⟨hsp, hinitialized, hseen⟩, ⟨ends.rd, rfl, List.mem_cons_self⟩, ?_, ?_, ?_⟩
              · intro fd hfd
                have hfd : fd ∈ ends.rd :: ends.wr :: (dropStale false s steps.staleExit).openEnds :=
                  hfd
                rw [hdropped.openEnds, List.mem_cons, List.mem_singleton] at hfd
                exact hfd.imp (congrArg some) (congrArg some)
              · exact fun h => by cases h
              · exact ⟨pid, rfl, congrArg (pid :: ·) hdropped.running⟩

theorem leftOver_eq_nil {reader : Option Nat} {wait : Option SaneStatus} :
    leftOver reader wait = [] ↔ reader = none ∨ wait ≠ none := by
  rw [leftOver]
  by_cases hwait : wait = none
  · rw [if_pos hwait, Option.toList_eq_nil_iff]
    exact ⟨.inl, fun h => h.resolve_right fun hne => hne hwait⟩
  · rw [if_neg hwait]
    exact ⟨fun _ => .inr hwait, fun _ => rfl⟩

end Reader

/-! ## The header -/

section Header

variable {forked} {s s' : State} {steps} {stuck : List Nat}

theorem settled_good {s : State} : Settled (.good, s) ↔ s.Ready := by
  rw [Settled, if_pos rfl]

theorem settled_bad {s : State} {status : SaneStatus} (h : status ≠ .good) :
    Settled (status, s) ↔ s.Stopped ∧ s.jpegInitialized = false := by
  rw [Settled, if_neg h]

theorem Started.ready (h : Started forked s s' stuck)
    (hjpeg : s'.sp.modeJpeg = true → s'.jpegInitialized = true ∧ s'.jpegHeaderSeen = true) :
    s'.Ready := by
  obtain ⟨pid, hreader, hrunning⟩ := h.reader
  exact ⟨h.rpipe, ⟨pid, hreader, hrunning ▸ List.mem_cons_self⟩, hjpeg⟩

theorem pixmaJpegFinish_eq (s : State) :
    pixmaJpegFinish s = { s with jpegInitialized := false } := by
  rw [pixmaJpegFinish]
  by_cases hinitialized : s.jpegInitialized = true
  · rw [if_pos hinitialized]
  · rw [if_neg hinitialized]
    rw [Bool.not_eq_true] at hinitialized
    rw [← hinitialized]

/-- The state in which the task is terminated if the header cannot be read. -/
def State.headerless (s : State) : State :=
  { s with
    openEnds := (s.close s.rpipe).openEnds
    rpipe := none
    jpegInitialized := false }

theorem headerFailed_eq (s : State) {pid : Nat} (hreader : s.readerTaskid = some pid) :
    headerFailed forked s steps 0 =
      match steps.exit with
      | some status => (status, (s.headerless.terminated forked).joined forked pid)
      | none => (.good, s.headerless.terminated forked) := by
  have hstate : { pixmaJpegFinish (s.close s.rpipe) with rpipe := none } = s.headerless := by
    rw [pixmaJpegFinish_eq]
    rfl
  rw [headerFailed, hstate, terminateReaderTask_some (s := s.headerless) hreader]
  cases steps.exit with
  | none => rfl
  | some status => cases status <;> rfl

/-- Without a header there is no scan any more. Only a task that ends with an error shows it. -/
theorem headerFailed_settled (s' : State) (steps : Steps) (h : Started forked s s' stuck) :
    Settled (headerFailed forked s' steps 0) ↔ stuck = [] ∧ steps.ExitFails := by
  obtain ⟨pid, hreader, hrunning⟩ := h.reader
  rw [headerFailed_eq s' hreader, Steps.ExitFails]
  cases hexit : steps.exit with
  | none =>
      rw [settled_good]
      constructor
      · intro hready
        obtain ⟨fd, hfd, -⟩ := hready.rpipe
        cases hfd
      · rintro ⟨-, status, hstatus, -⟩
        cases hstatus
  | some status =>
      obtain ⟨hkeeps, hrpipe, htask, hleft⟩ :=
        joined_keeps forked (s'.headerless.terminated forked) pid
      have hends : ∀ fd ∈ s'.headerless.openEnds, some fd = s'.wpipe := fun fd hfd =>
        (h.openEnds fd (mem_close.mp hfd).1).resolve_left (mem_close.mp hfd).2
      have hclosed := joined_openEnds forked (s'.headerless.terminated forked)
        pid hends h.wpipe
      have hstuck : ((s'.headerless.terminated forked).joined forked pid).running = stuck := by
        rw [hleft]
        show s'.running.erase pid = stuck
        rw [hrunning, List.erase_cons_head]
      by_cases hgood : status = .good
      · rw [hgood, settled_good]
        constructor
        · intro hready
          obtain ⟨fd, hfd, -⟩ := hready.rpipe
          rw [hrpipe] at hfd
          cases hfd
        · rintro ⟨-, status', hstatus, hne⟩
          exact absurd (Option.some.inj hstatus).symm hne
      · dsimp only
        rw [settled_bad hgood]
        constructor
        · intro hstopped
          exact ⟨hstuck.symm.trans hstopped.1.running, status, rfl, hgood⟩
        · intro hnone
          exact ⟨⟨hstuck.trans hnone.1, htask, hclosed.1, hrpipe, hclosed.2⟩,
            hkeeps.jpegInitialized⟩

theorem readHeader_settled (steps : Steps) (h : Started forked s s' stuck)
    (hjpeg : s'.sp.modeJpeg = true → s'.jpegInitialized = true ∧ s'.jpegHeaderSeen = false) :
    Settled (readHeader forked s' steps 0) ↔
      (s'.sp.modeJpeg = true ∧ steps.header = false → stuck = [] ∧ steps.ExitFails) := by
  rw [readHeader]
  by_cases hmode : s'.sp.modeJpeg = true
  · obtain ⟨hinitialized, hseen⟩ := hjpeg hmode
    rw [if_pos ⟨hmode, hseen⟩, pixmaJpegReadHeader]
    cases hheader : steps.header with
    | true =>
        refine iff_of_true (settled_good.mpr ?_) fun h => by cases h.2
        obtain ⟨pid, hreader, hrunning⟩ := h.reader
        exact ⟨h.rpipe, ⟨pid, hreader, hrunning ▸ List.mem_cons_self⟩, fun _ => ⟨hinitialized, rfl⟩⟩
    | false =>
        have hfailed := headerFailed_settled { s' with jpegHeaderSeen := false } steps
          ⟨⟨h.keeps.sp, h.keeps.jpegInitialized, hseen.symm.trans h.keeps.jpegHeaderSeen⟩, h.rpipe,
            h.openEnds, h.wpipe, h.reader⟩
        refine Iff.trans hfailed ⟨fun h _ => h, fun h => h ⟨hmode, rfl⟩⟩
  · rw [if_neg (fun h => hmode h.1)]
    refine iff_of_true (settled_good.mpr ?_) fun h => absurd h.1 hmode
    exact h.ready fun h => absurd h hmode

end Header

/-! ## All steps -/

section Start

variable {forked} {s : State} {steps}

theorem attach_stopped (h : Handle) : h.attach.Stopped ↔ h.Stopped := by
  constructor
  · intro hstopped
    exact ⟨hstopped.reader, hstopped.rpipe, hstopped.wpipe⟩
  · rintro ⟨hreader, hrpipe, hwpipe⟩
    refine ⟨?_, hreader, ?_, hrpipe, hwpipe⟩
    · show h.readerTaskid.toList = []
      rw [hreader, Option.toList_none]
    · show h.rpipe.toList ++ h.wpipe.toList = []
      rw [hrpipe, hwpipe, Option.toList_none, List.append_nil]

theorem enomem_lt : enomem < 0 := by decide

theorem Dropped.settled {s' : State} {stuck : List Nat} (h : Dropped s s' stuck) :
    s'.Stopped ↔ stuck = [] :=
  ⟨fun hstopped => h.running.symm.trans hstopped.running,
    fun hstuck => ⟨h.running.trans hstuck, h.reader, h.openEnds, h.rpipe, h.wpipe⟩⟩

theorem stopped_finish {initialized : Bool} :
    ({ s with jpegInitialized := initialized } : State).Stopped ↔ s.Stopped :=
  ⟨fun h => ⟨h.running, h.reader, h.openEnds, h.rpipe, h.wpipe⟩,
    fun h => ⟨h.running, h.reader, h.openEnds, h.rpipe, h.wpipe⟩⟩

theorem startScan_settled (forked : Bool) (steps : Steps) (h : s.Tracked)
    (hjpeg : s.sp.modeJpeg = true → s.jpegInitialized = true ∧ s.jpegHeaderSeen = false) :
    Settled (startScan forked s steps) ↔
      if steps.pipe.isNone = true ∨ steps.task.isNone = true then
        leftOver s.readerTaskid steps.staleExit = [] ∧
          (s.sp.modeJpeg = true ∨ s.jpegInitialized = false)
      else
        s.sp.modeJpeg = true ∧ steps.header = false →
          leftOver s.readerTaskid steps.staleExit = [] ∧ steps.ExitFails := by
  have htracked : State.Tracked { s with imageBytesRead := 0 } := ⟨h.openEnds, h.running⟩
  rw [startScan]
  by_cases hfail : steps.pipe.isNone = true ∨ steps.task.isNone = true
  · obtain ⟨s', hrun, hdropped⟩ := startReaderTask_fails forked htracked hfail
    obtain ⟨hsp, hinitialized, -⟩ := hdropped.keeps
    have hbad : mapError enomem ≠ .good := by decide
    rw [if_pos hfail, hrun]
    dsimp only
    rw [if_neg (Int.not_le.mpr enomem_lt), settled_bad hbad]
    by_cases hmode : s.sp.modeJpeg = true
    · have hfinish : enomem < 0 ∧ s'.sp.modeJpeg = true := ⟨enomem_lt, by rw [hsp, hmode]⟩
      rw [if_pos hfinish, pixmaJpegFinish_eq, stopped_finish, hdropped.settled]
      exact ⟨fun h => ⟨h.1, .inl hmode⟩, fun h => ⟨h.1, rfl⟩⟩
    · have hno : ¬(enomem < 0 ∧ s'.sp.modeJpeg = true) := fun h => hmode (hsp ▸ h.2)
      rw [if_neg hno, hdropped.settled, hinitialized]
      exact ⟨fun h => ⟨h.1, .inr h.2⟩, fun h => ⟨h.1, h.2.resolve_left hmode⟩⟩
  · obtain ⟨s', hrun, hstarted⟩ := startReaderTask_starts forked htracked hfail
    obtain ⟨hsp, hinitialized, hseen⟩ := hstarted.keeps
    have hkept : s'.sp.modeJpeg = true → s'.jpegInitialized = true ∧ s'.jpegHeaderSeen = false := by
      rw [hsp, hinitialized, hseen]
      exact hjpeg
    have hno : ¬((0 : Int) < 0 ∧ s'.sp.modeJpeg = true) := fun h => Int.lt_irrefl 0 h.1
    rw [if_neg hfail, hrun]
    dsimp only
    rw [if_neg hno, if_pos (Int.le_refl 0)]
    have hscanning : Started forked s
        { s' with
          outputLineSize := s'.sp.w * s'.sp.channels * s'.sp.depth / 8
          bytePosInLine := 0
          lastReadStatus := .good
          scanning := true
          idle := false } (leftOver s.readerTaskid steps.staleExit) :=
      ⟨⟨hsp, hinitialized, hseen⟩, hstarted.rpipe, hstarted.openEnds, hstarted.wpipe,
        hstarted.reader⟩
    have hheader := readHeader_settled steps hscanning hkept
    rw [← hsp]
    exact hheader

/-- The handle for which the steps are taken. -/
def Handle.prepared (h : Handle) (steps : Steps) : Handle :=
  { h with
    cancel := false
    pageCount :=
      if h.idle ∨ h.optSource = .flatbed ∨ h.optSource = .tpu then 0 else h.pageCount + 1
    sp := steps.calcScanParam.2 }

theorem saneStart_refuses {h : Handle} (hrefuses : h.Refuses) :
    saneStart forked h.attach steps = (.inval, h.attach) :=
  if_pos hrefuses

theorem saneStart_eq {h : Handle} (hrefuses : ¬h.Refuses) :
    saneStart forked h.attach steps =
      if steps.calcScanParam.1 < 0 then (.inval, (h.prepared steps).attach)
      else if steps.calcScanParam.2.modeJpeg then
        if steps.jpegStart then
          startScan forked
            { h.prepared steps with jpegInitialized := true, jpegHeaderSeen := false : Handle }.attach
            steps
        else (.ioError, { h.prepared steps with jpegInitialized := false : Handle }.attach)
      else startScan forked (h.prepared steps).attach steps := by
  rw [saneStart]
  refine (if_neg hrefuses).trans ?_
  unfold pixmaJpegStart
  cases steps.jpegStart with
  | true => rfl
  | false => rfl

/-- `sane_start` gets all that a scan needs, or leaves nothing, exactly when its steps undo what there
is if they fail. -/
theorem saneStart_settled (forked : Bool) (h : Handle) (steps : Steps) :
    Settled (saneStart forked h.attach steps) ↔ Undoes h steps := by
  rw [Undoes]
  by_cases hrefuses : h.Refuses
  · rw [saneStart_refuses hrefuses, if_pos (.inl hrefuses), settled_bad (by decide),
      attach_stopped]
    rfl
  · rw [saneStart_eq hrefuses]
    by_cases hparam : steps.calcScanParam.1 < 0
    · have hnot : h.Refuses ∨ steps.calcScanParam.1 < 0 := .inr hparam
      rw [if_pos hparam, if_pos hnot, settled_bad (by decide), attach_stopped]
      rfl
    · have hnot : ¬(h.Refuses ∨ steps.calcScanParam.1 < 0) := not_or.mpr ⟨hrefuses, hparam⟩
      rw [if_neg hparam, if_neg hnot]
      by_cases hmode : steps.calcScanParam.2.modeJpeg = true
      · rw [if_pos hmode]
        cases hstart : steps.jpegStart with
        | false =>
            rw [if_neg Bool.false_ne_true, if_pos ⟨hmode, rfl⟩, settled_bad (by decide),
              attach_stopped]
            exact and_iff_left rfl
        | true =>
            have hstarted : ¬(steps.calcScanParam.2.modeJpeg = true ∧ true = false) :=
              fun h => by cases h.2
            have hscan := startScan_settled forked steps
              (attach_tracked
                { h.prepared steps with jpegInitialized := true, jpegHeaderSeen := false })
              fun _ => ⟨rfl, rfl⟩
            rw [leftOver_eq_nil] at hscan
            rw [if_pos rfl, if_neg hstarted, hscan]
            by_cases hfail : steps.pipe.isNone = true ∨ steps.task.isNone = true
            · rw [if_pos hfail, if_pos hfail]
              exact and_congr_right fun _ => iff_of_true (.inl hmode) (.inl hmode)
            · rw [if_neg hfail, if_neg hfail]
              rfl
      · have hscan := startScan_settled forked steps
          (attach_tracked (h.prepared steps)) fun h => absurd h hmode
        rw [leftOver_eq_nil] at hscan
        rw [if_neg hmode, if_neg (fun h => hmode h.1), hscan]
        rfl

/-- A handle on which the task exits well before its header can be read. -/
theorem saneStart_not_settled :
    ¬Settled (saneStart true
      (Handle.attach
        { sp := { source := .flatbed, modeJpeg := false, w := 0, channels := 0, depth := 0 }
          optSource := .flatbed, cancel := false, idle := true, scanning := false
          lastReadStatus := .good, bytePosInLine := 0, outputLineSize := 0, imageBytesRead := 0
          pageCount := 0, readerTaskid := none, wpipe := none, rpipe := none, readerStop := false
          jpegInitialized := false, jpegHeaderSeen := false })
      { calcScanParam :=
          (0, { source := .flatbed, modeJpeg := true, w := 640, channels := 3, depth := 8 })
        jpegStart := true, staleExit := none, pipe := some { rd := 3, wr := 4, ne := by decide }
        task := some 100, header := false, exit := some .good }) := by
  intro h
  obtain ⟨fd, hfd, -⟩ := (settled_good.mp h).rpipe
  cases hfd

end Start

end SaneBackends.Pixma.SaneStart
