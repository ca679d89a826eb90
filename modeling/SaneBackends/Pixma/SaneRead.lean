import SaneBackends.Lib.Lines
import SaneBackends.Sanei.Types
/-!
# `sane_read` of the pixma backend

The image comes through a pipe from the reader task, in whatever pieces the pipe has. Where its lines
are longer than those of the frontend, their ends are read into a scratch buffer. Without JPEG. The
sizes of a line come from the width of the scanner, and `int` and `unsigned` hold them.
-/

namespace SaneBackends.Pixma.SaneRead

open SaneBackends.Lib

/-- What `read` on the pipe does: `EINTR`, `EAGAIN`, another error, the end of file with the exit
status of the reader task, or up to so many bytes and one more. -/
inductive PipeAnswer where
  | interrupted
  | wouldBlock
  | failed
  | closed (exitStatus : SaneStatus)
  | bytes (more : Nat)
  deriving DecidableEq, Repr

/-- `pixma_sane_t`. `rpipe` is what the reader task has to write to an open pipe, and `adf` says
whether `sp.source` is one of the feeders. -/
structure Scan where
  lineSize : Nat
  imageSize : Nat
  outputLineSize : Nat
  softwareLineart : Bool := false
  adf : Bool := false
  cancel : Bool := false
  idle : Bool := false
  scanning : Bool := true
  lastReadStatus : SaneStatus := .good
  bytePosInLine : Nat := 0
  imageBytesRead : Nat := 0
  rpipe : Option (List UInt8)
  deriving DecidableEq, Repr

/-- The scan, the answers of the pipe to come, the status and the bytes. -/
abbrev Read := Scan × List PipeAnswer × SaneStatus × List UInt8

/-- `close` and `terminate_reader_task`. -/
def Scan.endReader (s : Scan) : Scan := { s with rpipe := none, idle := s.idle || !s.adf }

/-- The status for a pipe that has been closed too early. -/
def closedStatus (exitStatus : SaneStatus) : SaneStatus :=
  if exitStatus ≠ .good then exitStatus else .ioError

/-- What follows a `read` that returned these bytes. -/
def received (s : Scan) (answers : List PipeAnswer) (data : List UInt8) : Read :=
  let s := { s with imageBytesRead := s.imageBytesRead + data.length }
  if s.imageSize ≤ s.imageBytesRead then (s.endReader, answers, .good, data)
  else if data = [] then (s.endReader, answers, .ioError, [])
  else (s, answers, .good, data)

/-- The loop in `read_image`. `none` stands for a read that waits. -/
def readPipe (s : Scan) (size : Nat) : List PipeAnswer → Option Read
  | [] => none
  | answer :: answers =>
      if s.cancel then some (s, answer :: answers, .cancelled, [])
      else match s.rpipe with
        | none => some (s.endReader, answers, .ioError, [])
        | some data =>
            match answer with
            | .interrupted => readPipe s size answers
            | .wouldBlock => some (s, answers, .good, [])
            | .failed => some (s.endReader, answers, .ioError, [])
            | .closed exitStatus => some (s.endReader, answers, closedStatus exitStatus, [])
            | .bytes more =>
                let n := min (more + 1) size
                some (received { s with rpipe := some (data.drop n) } answers (data.take n))

/-- `read_image`. -/
def readImage (s : Scan) (size : Nat) (answers : List PipeAnswer) : Option Read :=
  if s.imageSize ≤ s.imageBytesRead then some (s, answers, .eof, [])
  else readPipe s size answers

/-- `sizeof (temp)` -/
def tempSize : Nat := 100

/-- The loop that removes padding, with what it has read. -/
def padLoop (maxlen : Nat) : Nat → Scan → List PipeAnswer → SaneStatus → List UInt8 → Option Read
  | 0, _, _, _, _ => none
  | fuel + 1, s, answers, status, sum =>
      if sum.length < maxlen then
        if s.bytePosInLine < s.outputLineSize then
          let n := min (s.outputLineSize - s.bytePosInLine) (maxlen - sum.length)
          match readImage s n answers with
          | none => none
          | some (s, answers, status, data) =>
              if data = [] then some (s, answers, status, sum)
              else padLoop maxlen fuel { s with bytePosInLine := s.bytePosInLine + data.length }
                answers status (sum ++ data)
        else
          let n := min (s.lineSize - s.bytePosInLine) tempSize
          match readImage s n answers with
          | none => none
          | some (s, answers, status, data) =>
              if data = [] then some (s, answers, status, sum)
              else
                let pos := s.bytePosInLine + data.length
                padLoop maxlen fuel
                  { s with bytePosInLine := if pos = s.lineSize then 0 else pos } answers status sum
      else some (s, answers, status, sum)

/-- The end of `sane_read`: `status` and `sum` become the status and the bytes of the call. -/
def finish : Read → Read
  | (s, answers, status, sum) =>
      let (status, sum) :=
        if s.cancel then (SaneStatus.cancelled, [])
        else if (status = .good ∨ status = .eof) ∧ sum ≠ [] then (.good, sum)
        else (status, [])
      ({ s with scanning := status = .good, lastReadStatus := status }, answers, status, sum)

/-- `sane_read`. Each pass of its loop but the last takes an answer of the pipe. -/
def saneRead (s : Scan) (maxlen : Nat) (answers : List PipeAnswer) : Option Read :=
  if s.cancel then some (s, answers, .cancelled, [])
  else if s.idle ∧ s.adf then some (s, answers, .inval, [])
  else if s.scanning = false then some (s, answers, s.lastReadStatus, [])
  else if s.lineSize = (if s.softwareLineart then s.outputLineSize * 8 else s.outputLineSize) then
    (readImage s maxlen answers).map finish
  else (padLoop maxlen (answers.length + 1) s answers .good []).map finish

/-- Calls with these lengths, one after another. -/
def readAll (s : Scan) (answers : List PipeAnswer) :
    List Nat → Option (List (SaneStatus × List UInt8) × Scan × List PipeAnswer)
  | [] => some ([], s, answers)
  | maxlen :: maxlens =>
      match saneRead s maxlen answers with
      | none => none
      | some (s, answers, status, data) =>
          (readAll s answers maxlens).map fun (results, end') => ((status, data) :: results, end')

/-! ## The pipe -/

namespace PipeAnswer

/-- Neither an error nor the end of the file. -/
def delivers : PipeAnswer → Bool
  | interrupted | wouldBlock | bytes _ => true
  | _ => false

def isBytes : PipeAnswer → Bool
  | bytes _ => true
  | _ => false

def isWouldBlock : PipeAnswer → Bool
  | wouldBlock => true
  | _ => false

end PipeAnswer

section Pipe

variable {s s' : Scan} {size maxlen : Nat} {answers answers' : List PipeAnswer} {data : List UInt8}

/-- What has not been read from the pipe. -/
def Scan.left (s : Scan) : List UInt8 := s.rpipe.getD []

/-- The pipe delivers what is left. -/
structure Ready (s : Scan) (answers : List PipeAnswer) : Prop where
  delivers : ∀ answer ∈ answers, answer.delivers = true
  supply : s.left.length ≤ answers.countP PipeAnswer.isBytes

/-- The bytes that are left, and the reads that return none. -/
def potential (s : Scan) (answers : List PipeAnswer) : Nat :=
  s.left.length + answers.countP PipeAnswer.isWouldBlock

/-- The image is on its way. -/
structure Running (s : Scan) : Prop where
  scanning : s.scanning = true
  cancel : s.cancel = false
  fed : ¬ (s.idle = true ∧ s.adf = true)
  softwareLineart : s.softwareLineart = false
  nonempty : 0 < s.outputLineSize
  outputLineSize : s.outputLineSize ≤ s.lineSize
  count : s.imageBytesRead + s.left.length = s.imageSize
  column : s.bytePosInLine < s.lineSize

/-- What `read_image` does to the rest of the image. -/
structure Took (s : Scan) (answers : List PipeAnswer) (size : Nat) (data : List UInt8) (s' : Scan)
    (answers' : List PipeAnswer) : Prop where
  short : data.length ≤ size
  left : data ++ s'.left = s.left
  running : Running s'
  position : s'.bytePosInLine = s.bytePosInLine
  sizes : s'.lineSize = s.lineSize ∧ s'.outputLineSize = s.outputLineSize
  ready : Ready s' answers'
  taken : answers'.length < answers.length
  potential : potential s' answers' < potential s answers

theorem left_of_some {data : List UInt8} (h : s.rpipe = some data) : s.left = data := by
  rw [Scan.left, h]
  rfl

/-- While bytes are left the pipe is open. -/
theorem Running.rpipe (h : Running s) (hmore : s.imageBytesRead < s.imageSize) :
    s.rpipe = some s.left ∧ 0 < s.left.length := by
  have hcount := h.count
  refine ⟨?_, by omega⟩
  cases hpipe : s.rpipe with
  | none =>
      have hnone : s.left = [] := by
        rw [Scan.left, hpipe]
        rfl
      rw [hnone, List.length_nil] at hcount
      omega
  | some data => rw [left_of_some hpipe]

/-- The reader task is ended with the last byte. -/
theorem Running.received (h : Running s) {rest : List UInt8} (hleft : data ++ rest = s.left)
    (hdata : data ≠ []) (answers : List PipeAnswer) :
    ∃ s', received { s with rpipe := some rest } answers data = (s', answers, .good, data) ∧
      s'.left = rest ∧ Running s' ∧ s'.bytePosInLine = s.bytePosInLine ∧
      s'.lineSize = s.lineSize ∧ s'.outputLineSize = s.outputLineSize := by
  have hcount := h.count
  have hlength : data.length + rest.length = s.left.length := by
    rw [← hleft, List.length_append]
  unfold SaneRead.received
  dsimp only
  by_cases hlast : s.imageSize ≤ s.imageBytesRead + data.length
  · have hnil : rest = [] := List.eq_nil_of_length_eq_zero (by omega)
    rw [if_pos hlast]
    refine ⟨_, rfl, hnil.symm, ⟨h.scanning, h.cancel, ?_, h.softwareLineart, h.nonempty,
      h.outputLineSize, ?_, h.column⟩, rfl, rfl, rfl⟩
    · intro hboth
      obtain ⟨hidle, hadf⟩ := hboth
      have hadf' : s.adf = true := hadf
      have hidle' : (s.idle || !s.adf) = true := hidle
      rw [hadf', Bool.not_true, Bool.or_false] at hidle'
      exact h.fed ⟨hidle', hadf'⟩
    · change s.imageBytesRead + data.length + 0 = s.imageSize
      omega
  · rw [if_neg hlast, if_neg hdata]
    refine ⟨_, rfl, rfl, ⟨h.scanning, h.cancel, h.fed, h.softwareLineart, h.nonempty,
      h.outputLineSize, ?_, h.column⟩, rfl, rfl, rfl⟩
    change s.imageBytesRead + data.length + rest.length = s.imageSize
    omega

theorem readPipe_took (h : Running s) (hmore : s.imageBytesRead < s.imageSize) (hsize : 0 < size)
    (hready : Ready s answers) :
    ∃ s' answers' data, readPipe s size answers = some (s', answers', .good, data) ∧
      Took s answers size data s' answers' := by
  obtain ⟨hpipe, hleft⟩ := h.rpipe hmore
  induction answers with
  | nil =>
      have hsupply := hready.supply
      rw [List.countP_nil] at hsupply
      omega
  | cons answer answers ih =>
      have hdelivers := hready.delivers answer List.mem_cons_self
      have hsupply := hready.supply
      have hrest : ∀ other ∈ answers, other.delivers = true := fun other hother =>
        hready.delivers other (List.mem_cons_of_mem _ hother)
      rw [readPipe, if_neg (by rw [h.cancel]; exact Bool.false_ne_true), hpipe]
      dsimp only
      cases answer with
      | interrupted =>
          obtain ⟨s', answers', data, hrun, htook⟩ := ih ⟨hrest, hsupply⟩
          exact ⟨s', answers', data, hrun, htook.short, htook.left, htook.running, htook.position,
            htook.sizes, htook.ready, Nat.lt_succ_of_lt htook.taken, htook.potential⟩
      | wouldBlock =>
          refine ⟨s, answers, [], rfl, Nat.zero_le _, rfl, h, rfl, ⟨rfl, rfl⟩, ⟨hrest, hsupply⟩,
            Nat.lt_succ_self _, ?_⟩
          rw [potential, potential, List.countP_cons_of_pos rfl]
          omega
      | bytes more =>
          set n := min (more + 1) size with hn
          have hpos : 0 < n := Nat.lt_min.mpr ⟨Nat.succ_pos _, hsize⟩
          have hdata : s.left.take n ≠ [] := by
            intro hnil
            have hzero := congrArg List.length hnil
            rw [List.length_take, List.length_nil] at hzero
            omega
          have hsome : 0 < (s.left.take n).length := List.length_pos_iff.mpr hdata
          obtain ⟨s', hrun, hleft', hrunning, hposition, hsizes⟩ :=
            h.received (List.take_append_drop n s.left) hdata answers
          have hlength : (s.left.take n).length + s'.left.length = s.left.length := by
            rw [hleft', ← List.length_append, List.take_append_drop]
          rw [List.countP_cons_of_pos rfl] at hsupply
          refine ⟨s', answers, s.left.take n, congrArg some hrun, ?_, ?_, hrunning, hposition, hsizes,
            ⟨hrest, by omega⟩, Nat.lt_succ_self _, ?_⟩
          · rw [List.length_take]
            omega
          · rw [hleft', List.take_append_drop]
          · rw [potential, potential, List.countP_cons_of_neg Bool.false_ne_true]
            omega
      | failed => cases hdelivers
      | closed exitStatus => cases hdelivers

/-- `read_image` knows the end of the image. -/
theorem readImage_cases (h : Running s) (hsize : 0 < size) (hready : Ready s answers) :
    readImage s size answers = some (s, answers, .eof, []) ∧ s.left = [] ∨
      ∃ s' answers' data, readImage s size answers = some (s', answers', .good, data) ∧
        Took s answers size data s' answers' := by
  have hcount := h.count
  by_cases hend : s.imageSize ≤ s.imageBytesRead
  · exact .inl ⟨if_pos hend, List.eq_nil_of_length_eq_zero (by omega)⟩
  · have hread : readImage s size answers = readPipe s size answers := if_neg hend
    rw [hread]
    exact .inr (readPipe_took h (by omega) hsize hready)

end Pipe

/-! ## A call -/

section Call

variable {s s' : Scan} {size maxlen : Nat} {answers answers' : List PipeAnswer}
  {sum : List UInt8}

/-- What is left of the image for the frontend. -/
def Scan.pending (s : Scan) : List UInt8 :=
  if s.lineSize = s.outputLineSize then s.left
  else crop s.lineSize s.outputLineSize s.bytePosInLine s.left

/-- The end of the image has been returned. -/
structure Ended (s : Scan) : Prop where
  scanning : s.scanning = false
  cancel : s.cancel = false
  fed : ¬ (s.idle = true ∧ s.adf = true)
  lastReadStatus : s.lastReadStatus = .eof

/-- How the loop that removes padding ends: with a byte of the image or without. -/
structure PadEnd (maxlen : Nat) (s : Scan) (answers : List PipeAnswer) (sum : List UInt8) (s' : Scan)
    (answers' : List PipeAnswer) (status : SaneStatus) (out : List UInt8) : Prop where
  short : (sum ++ out).length ≤ maxlen
  left : out ++ crop s'.lineSize s'.outputLineSize s'.bytePosInLine s'.left =
    crop s.lineSize s.outputLineSize s.bytePosInLine s.left
  running : Running s'
  sizes : s'.lineSize = s.lineSize ∧ s'.outputLineSize = s.outputLineSize
  ready : Ready s' answers'
  ends : status = .good ∨ status = .eof ∧ s'.left = []
  potential : potential s' answers' < potential s answers ∨
    potential s' answers' = potential s answers ∧ out = [] ∧ (status = .eof ∨ maxlen ≤ sum.length)

/-- Bytes of the image, and those behind them. -/
theorem Took.crop_left {data : List UInt8} (h : Took s answers size data s' answers')
    (hs : Running s) (hend : s.bytePosInLine + data.length ≤ s.lineSize) :
    crop s.lineSize s.outputLineSize s.bytePosInLine s.left =
      data.take (s.outputLineSize - s.bytePosInLine) ++
        crop s.lineSize s.outputLineSize (wrap s.lineSize (s.bytePosInLine + data.length)) s'.left := by
  rw [← h.left]
  exact crop_append hs.column hend _

theorem Running.move (h : Running s) {pos : Nat} (hpos : pos < s.lineSize) :
    Running { s with bytePosInLine := pos } :=
  ⟨h.scanning, h.cancel, h.fed, h.softwareLineart, h.nonempty, h.outputLineSize, h.count, hpos⟩

theorem Ready.move (h : Ready s answers) (pos : Nat) : Ready { s with bytePosInLine := pos } answers :=
  ⟨h.delivers, h.supply⟩

/-- The loop goes on behind what it has taken. -/
theorem PadEnd.after {data visible out : List UInt8} {s₁ : Scan} {answers₁ : List PipeAnswer}
    {status : SaneStatus} (hs : Running s) (htook : Took s answers size data s₁ answers₁)
    (hend : s.bytePosInLine + data.length ≤ s.lineSize)
    (hvisible : data.take (s.outputLineSize - s.bytePosInLine) = visible)
    (hrest : PadEnd maxlen
      { s₁ with bytePosInLine := wrap s.lineSize (s.bytePosInLine + data.length) } answers₁
      (sum ++ visible) s' answers' status out) :
    PadEnd maxlen s answers sum s' answers' status (visible ++ out) := by
  obtain ⟨hline, houtput⟩ := htook.sizes
  have hleft := hrest.left
  dsimp only at hleft
  rw [hline, houtput] at hleft
  refine ⟨?_, ?_, hrest.running, ?_, hrest.ready, hrest.ends, .inl ?_⟩
  · rw [← List.append_assoc]
    exact hrest.short
  · rw [htook.crop_left hs hend, hvisible, List.append_assoc]
    exact congrArg _ hleft
  · exact ⟨hrest.sizes.1.trans hline, hrest.sizes.2.trans houtput⟩
  · have hless := htook.potential
    obtain hlater | ⟨hsame, -, -⟩ := hrest.potential
    · exact Nat.lt_trans hlater hless
    · exact Nat.lt_of_le_of_lt (Nat.le_of_eq hsame) hless

/-- The loop ends where it cannot go on. -/
theorem PadEnd.stop {status : SaneStatus} (h : Running s) (hready : Ready s answers)
    (hsum : sum.length ≤ maxlen) (hends : status = .good ∨ status = .eof ∧ s.left = [])
    (hstop : status = .eof ∨ maxlen ≤ sum.length) :
    PadEnd maxlen s answers sum s answers status [] := by
  refine ⟨?_, rfl, h, ⟨rfl, rfl⟩, hready, hends, .inr ⟨rfl, rfl, hstop⟩⟩
  rwa [List.append_nil]

/-- Where the pipe has nothing the loop ends too. -/
theorem PadEnd.blocked {s₁ : Scan} {answers₁ : List PipeAnswer}
    (htook : Took s answers size [] s₁ answers₁) (hsum : sum.length ≤ maxlen) :
    PadEnd maxlen s answers sum s₁ answers₁ .good [] := by
  obtain ⟨hline, houtput⟩ := htook.sizes
  have hleft : s₁.left = s.left := htook.left
  refine ⟨?_, ?_, htook.running, ⟨hline, houtput⟩, htook.ready, .inl rfl, .inl htook.potential⟩
  · rwa [List.append_nil]
  · rw [hline, houtput, htook.position, hleft]
    rfl

theorem padLoop_spec {fuel : Nat} (h : Running s) (hready : Ready s answers)
    (hlong : s.outputLineSize < s.lineSize) (hsum : sum.length ≤ maxlen)
    (hfuel : answers.length < fuel) :
    ∃ s' answers' status out, padLoop maxlen fuel s answers .good sum =
        some (s', answers', status, sum ++ out) ∧
      PadEnd maxlen s answers sum s' answers' status out := by
  induction fuel generalizing s answers sum with
  | zero => exact absurd hfuel (Nat.not_lt_zero _)
  | succ fuel ih =>
      have hcolumn := h.column
      rw [padLoop]
      by_cases hroom : sum.length < maxlen
      · rw [if_pos hroom]
        by_cases hvisible : s.bytePosInLine < s.outputLineSize
        · -- bytes of the line
          rw [if_pos hvisible]
          dsimp only
          have hn : 0 < min (s.outputLineSize - s.bytePosInLine) (maxlen - sum.length) := by omega
          obtain ⟨hrun, hnone⟩ | ⟨s₁, answers₁, data, hrun, htook⟩ := readImage_cases h hn hready
          · rw [hrun]
            refine ⟨s, answers, .eof, [], ?_, .stop h hready hsum (.inr ⟨rfl, hnone⟩) (.inl rfl)⟩
            rw [List.append_nil]
            exact if_pos rfl
          · rw [hrun]
            dsimp only
            by_cases hdata : data = []
            · subst hdata
              refine ⟨s₁, answers₁, .good, [], ?_, .blocked htook hsum⟩
              rw [List.append_nil]
              exact if_pos rfl
            · obtain ⟨hline, houtput⟩ := htook.sizes
              have hshort := htook.short
              have htake : data.take (s.outputLineSize - s.bytePosInLine) = data :=
                List.take_of_length_le (by omega)
              have hwrap : wrap s.lineSize (s.bytePosInLine + data.length) =
                  s₁.bytePosInLine + data.length := by
                rw [htook.position, wrap_of_lt (by omega)]
              have hmoved : Running { s₁ with bytePosInLine := s₁.bytePosInLine + data.length } :=
                htook.running.move (by rw [htook.position, hline]; omega)
              have hsum' : (sum ++ data).length ≤ maxlen := by
                rw [List.length_append]
                omega
              obtain ⟨s', answers', status, out, hloop, hrest⟩ := ih hmoved (htook.ready.move _)
                (by dsimp only; omega) hsum' (Nat.lt_of_lt_of_le htook.taken (Nat.le_of_lt_succ hfuel))
              rw [if_neg hdata]
              refine ⟨s', answers', status, data ++ out, ?_, ?_⟩
              · rw [hloop, List.append_assoc]
              · rw [← hwrap] at hrest
                exact .after h htook (by omega) htake hrest
        · -- bytes behind it
          rw [if_neg hvisible]
          dsimp only
          have hn : 0 < min (s.lineSize - s.bytePosInLine) tempSize := by
            unfold tempSize
            omega
          obtain ⟨hrun, hnone⟩ | ⟨s₁, answers₁, data, hrun, htook⟩ := readImage_cases h hn hready
          · rw [hrun]
            refine ⟨s, answers, .eof, [], ?_, .stop h hready hsum (.inr ⟨rfl, hnone⟩) (.inl rfl)⟩
            rw [List.append_nil]
            exact if_pos rfl
          · rw [hrun]
            dsimp only
            by_cases hdata : data = []
            · subst hdata
              refine ⟨s₁, answers₁, .good, [], ?_, .blocked htook hsum⟩
              rw [List.append_nil]
              exact if_pos rfl
            · obtain ⟨hline, houtput⟩ := htook.sizes
              have hshort := htook.short
              have htake : data.take (s.outputLineSize - s.bytePosInLine) = [] := by
                rw [Nat.sub_eq_zero_of_le (Nat.not_lt.mp hvisible), List.take_zero]
              have hwrap : wrap s.lineSize (s.bytePosInLine + data.length) =
                  if s₁.bytePosInLine + data.length = s₁.lineSize then 0
                  else s₁.bytePosInLine + data.length := by
                rw [htook.position, hline]
                rfl
              have hinside : wrap s.lineSize (s.bytePosInLine + data.length) < s₁.lineSize := by
                rw [hline]
                unfold wrap
                split_ifs <;> omega
              rw [if_neg hdata, ← hwrap]
              obtain ⟨s', answers', status, out, hloop, hrest⟩ := ih (htook.running.move hinside)
                (htook.ready.move _) (by dsimp only; omega) hsum
                (Nat.lt_of_lt_of_le htook.taken (Nat.le_of_lt_succ hfuel))
              refine ⟨s', answers', status, out, hloop, ?_⟩
              have hrest' : PadEnd maxlen
                  { s₁ with bytePosInLine := wrap s.lineSize (s.bytePosInLine + data.length) }
                  answers₁ (sum ++ []) s' answers' status out := by
                rwa [List.append_nil]
              exact .after h htook (by omega) htake hrest'
      · rw [if_neg hroom]
        refine ⟨s, answers, .good, [], ?_, .stop h hready hsum (.inl rfl) (.inr (Nat.not_lt.mp hroom))⟩
        rw [List.append_nil]

/-- What a call makes of the image. -/
inductive Called (s : Scan) (answers : List PipeAnswer) (maxlen : Nat) : Read → Prop where
  | good {s' : Scan} {answers' : List PipeAnswer} {data : List UInt8} (hshort : data.length ≤ maxlen)
      (hpending : data ++ s'.pending = s.pending) (hrunning : Running s')
      (hready : Ready s' answers') (hless : potential s' answers' < potential s answers) :
      Called s answers maxlen (s', answers', .good, data)
  | eof {s' : Scan} {answers' : List PipeAnswer} (hpending : s.pending = []) (hended : Ended s') :
      Called s answers maxlen (s', answers', .eof, [])

theorem Running.resume (h : Running s) :
    Running { s with scanning := true, lastReadStatus := .good } :=
  ⟨rfl, h.cancel, h.fed, h.softwareLineart, h.nonempty, h.outputLineSize, h.count, h.column⟩

theorem finish_good (h : Running s) (data : List UInt8) :
    finish (s, answers, .good, data) =
      ({ s with scanning := true, lastReadStatus := .good }, answers, .good, data) := by
  unfold finish
  dsimp only
  rw [if_neg (by rw [h.cancel]; exact Bool.false_ne_true)]
  by_cases hdata : data = []
  · rw [if_neg fun hboth => hboth.2 hdata, hdata]
    rfl
  · rw [if_pos ⟨.inl rfl, hdata⟩]
    rfl

theorem finish_eof (h : Running s) (data : List UInt8) :
    finish (s, answers, .eof, data) =
      if data = [] then ({ s with scanning := false, lastReadStatus := .eof }, answers, .eof, [])
      else ({ s with scanning := true, lastReadStatus := .good }, answers, .good, data) := by
  unfold finish
  dsimp only
  rw [if_neg (by rw [h.cancel]; exact Bool.false_ne_true)]
  by_cases hdata : data = []
  · rw [if_neg fun hboth => hboth.2 hdata, if_pos hdata]
    rfl
  · rw [if_pos ⟨.inr rfl, hdata⟩, if_neg hdata]
    rfl

theorem Running.end (h : Running s) : Ended { s with scanning := false, lastReadStatus := .eof } :=
  ⟨rfl, h.cancel, h.fed, rfl⟩

/-- Without padding. -/
theorem readImage_called (h : Running s) (hready : Ready s answers)
    (hequal : s.lineSize = s.outputLineSize) (hmaxlen : 0 < maxlen) :
    ∃ read, (readImage s maxlen answers).map finish = some read ∧ Called s answers maxlen read := by
  have hpending : s.pending = s.left := if_pos hequal
  obtain ⟨hrun, hnone⟩ | ⟨s', answers', data, hrun, htook⟩ := readImage_cases h hmaxlen hready
  · rw [hrun, Option.map_some, finish_eof h, if_pos rfl]
    exact ⟨_, rfl, .eof (hpending.trans hnone) h.end⟩
  · rw [hrun, Option.map_some, finish_good htook.running]
    have hequal' : s'.lineSize = s'.outputLineSize := by
      rw [htook.sizes.1, htook.sizes.2, hequal]
    have hpending' : Scan.pending { s' with scanning := true, lastReadStatus := .good } = s'.left :=
      if_pos hequal'
    refine ⟨_, rfl, .good htook.short ?_ htook.running.resume ⟨htook.ready.delivers,
      htook.ready.supply⟩ htook.potential⟩
    rw [hpending', hpending]
    exact htook.left

/-- With padding. -/
theorem padLoop_called (h : Running s) (hready : Ready s answers)
    (hunequal : s.lineSize ≠ s.outputLineSize) (hmaxlen : 0 < maxlen) :
    ∃ read, (padLoop maxlen (answers.length + 1) s answers .good []).map finish = some read ∧
      Called s answers maxlen read := by
  have hlong : s.outputLineSize < s.lineSize :=
    Nat.lt_of_le_of_ne h.outputLineSize (Ne.symm hunequal)
  have hsum : ([] : List UInt8).length ≤ maxlen := Nat.zero_le maxlen
  obtain ⟨s', answers', status, out, hloop, hend⟩ :=
    padLoop_spec h hready hlong hsum (Nat.lt_succ_self _)
  obtain ⟨hline, houtput⟩ := hend.sizes
  have hunequal' : s'.lineSize ≠ s'.outputLineSize := by
    rw [hline, houtput]
    exact hunequal
  have hpending : s.pending = out ++ s'.pending := by
    rw [Scan.pending, if_neg hunequal, Scan.pending, if_neg hunequal', hend.left]
  rw [List.nil_append] at hloop
  rw [hloop, Option.map_some]
  have hgood : out ≠ [] ∨ status = .good → Called s answers maxlen
      ({ s' with scanning := true, lastReadStatus := .good }, answers', .good, out) := by
    intro hprogress
    refine .good hend.short hpending.symm hend.running.resume ⟨hend.ready.delivers,
      hend.ready.supply⟩ ?_
    obtain hless | ⟨-, hnone, heof | hfull⟩ := hend.potential
    · exact hless
    · obtain hsome | hstatus := hprogress
      · exact absurd hnone hsome
      · rw [hstatus] at heof
        cases heof
    · exact absurd hmaxlen (Nat.not_lt.mpr hfull)
  obtain rfl | ⟨rfl, hnone⟩ := hend.ends
  · rw [finish_good hend.running]
    exact ⟨_, rfl, hgood (.inr rfl)⟩
  · rw [finish_eof hend.running]
    by_cases hout : out = []
    · rw [if_pos hout]
      refine ⟨_, rfl, .eof ?_ hend.running.end⟩
      rw [hpending, hout, Scan.pending, if_neg hunequal', hnone]
      rfl
    · rw [if_neg hout]
      exact ⟨_, rfl, hgood (.inl hout)⟩

theorem saneRead_called (h : Running s) (hready : Ready s answers) (hmaxlen : 0 < maxlen) :
    ∃ read, saneRead s maxlen answers = some read ∧ Called s answers maxlen read := by
  rw [saneRead, if_neg (by rw [h.cancel]; exact Bool.false_ne_true), if_neg h.fed,
    if_neg (by rw [h.scanning]; exact Bool.noConfusion), h.softwareLineart,
    if_neg Bool.false_ne_true]
  by_cases hequal : s.lineSize = s.outputLineSize
  · rw [if_pos hequal]
    exact readImage_called h hready hequal hmaxlen
  · rw [if_neg hequal]
    exact padLoop_called h hready hequal hmaxlen

theorem saneRead_ended (h : Ended s) : saneRead s maxlen answers = some (s, answers, .eof, []) := by
  rw [saneRead, if_neg (by rw [h.cancel]; exact Bool.false_ne_true), if_neg h.fed,
    if_pos h.scanning, h.lastReadStatus]

end Call

/-! ## All calls -/

section Calls

variable {s : Scan} {answers : List PipeAnswer} {maxlens : List Nat}

theorem readAll_ended (h : Ended s) (maxlens : List Nat) :
    readAll s answers maxlens = some (List.replicate maxlens.length (.eof, []), s, answers) := by
  induction maxlens with
  | nil => rfl
  | cons maxlen maxlens ih =>
      rw [readAll, saneRead_ended h]
      dsimp only
      rw [ih]
      rfl

/-- Calls return what is pending, and then that there is no more. -/
theorem readAll_pending (h : Running s) (hready : Ready s answers)
    (hmaxlens : ∀ maxlen ∈ maxlens, 0 < maxlen) :
    ∃ reads k s' answers', readAll s answers maxlens =
        some (reads.map (fun data => (.good, data)) ++ List.replicate k (.eof, []), s', answers') ∧
      List.Forall₂ (fun data maxlen => data.length ≤ maxlen) reads (maxlens.take reads.length) ∧
      reads.flatten <+: s.pending ∧ (0 < k → reads.flatten = s.pending) ∧
      (potential s answers < maxlens.length → 0 < k) := by
  induction maxlens generalizing s answers with
  | nil =>
      exact ⟨[], 0, s, answers, rfl, .nil, List.nil_prefix, fun h => absurd h (Nat.lt_irrefl 0),
        fun h => absurd h (Nat.not_lt_zero _)⟩
  | cons maxlen maxlens ih =>
      obtain ⟨read, hrun, hcalled⟩ := saneRead_called h hready (hmaxlens maxlen List.mem_cons_self)
      cases hcalled with
      | good hshort hpending hrunning hready' hless =>
          rename_i s₁ answers₁ data
          obtain ⟨reads, k, s', answers', hrest, hshorts, hstart, hall, hmany⟩ :=
            ih hrunning hready' fun other hother => hmaxlens other (List.mem_cons_of_mem _ hother)
          refine ⟨data :: reads, k, s', answers', ?_, .cons hshort hshorts, ?_, fun hk => ?_,
            fun hlong => ?_⟩
          · rw [readAll, hrun]
            dsimp only
            rw [hrest]
            rfl
          · rw [← hpending, List.flatten_cons]
            exact (List.prefix_append_right_inj data).mpr hstart
          · rw [← hpending, List.flatten_cons, hall hk]
          · rw [List.length_cons] at hlong
            exact hmany (by omega)
      | eof hpending hended =>
          rename_i s₁ answers₁
          refine ⟨[], maxlens.length + 1, s₁, answers₁, ?_, .nil, List.nil_prefix, fun _ => hpending.symm,
            fun _ => Nat.succ_pos _⟩
          rw [readAll, hrun]
          dsimp only
          rw [readAll_ended hended]
          rfl

end Calls

/-- An image of whole lines, of which the frontend gets the start. -/
structure PaddedImage where
  lineSize : Nat
  outputLineSize : Nat
  height : Nat
  data : List UInt8
  adf : Bool
  nonempty : 0 < outputLineSize
  padded : outputLineSize ≤ lineSize
  size : data.length = lineSize * height

namespace PaddedImage

variable (d : PaddedImage)

/-- The scan that `sane_start` leaves. -/
def start : Scan where
  lineSize := d.lineSize
  imageSize := d.lineSize * d.height
  outputLineSize := d.outputLineSize
  adf := d.adf
  rpipe := some d.data

/-- The lines without padding. -/
def visible : List UInt8 := (lines d.lineSize d.data).flatMap (List.take d.outputLineSize)

theorem running : Running d.start := by
  refine ⟨rfl, rfl, fun h => Bool.false_ne_true h.1, rfl, d.nonempty, d.padded, ?_,
    Nat.lt_of_lt_of_le d.nonempty d.padded⟩
  change 0 + d.data.length = d.lineSize * d.height
  rw [Nat.zero_add, d.size]

theorem pending_start : d.start.pending = d.visible := by
  have hpos : 0 < d.lineSize := Nat.lt_of_lt_of_le d.nonempty d.padded
  have hdvd : d.lineSize ∣ d.data.length := d.size ▸ Nat.dvd_mul_right ..
  have hcrop : d.visible = crop d.lineSize d.outputLineSize 0 d.data := (crop_lines hpos hdvd).symm
  rw [hcrop]
  by_cases hequal : d.lineSize = d.outputLineSize
  · rw [← hequal, crop_self hpos hdvd]
    exact if_pos hequal
  · exact if_neg hequal

end PaddedImage

/-- As long as the pipe delivers the image, calls with any lengths return the start of each of its
lines, each call at most as much as asked for, and then the end of the file. Each call before takes
something from the image or finds the pipe without data. -/
theorem readAll_visible (d : PaddedImage) (maxlens : List Nat) (answers : List PipeAnswer)
    (hmaxlens : ∀ maxlen ∈ maxlens, 0 < maxlen)
    (hdelivers : ∀ answer ∈ answers, answer.delivers = true)
    (hsupply : d.lineSize * d.height ≤ answers.countP PipeAnswer.isBytes) :
    ∃ reads k s answers', readAll d.start answers maxlens =
        some (reads.map (fun data => (.good, data)) ++ List.replicate k (.eof, []), s, answers') ∧
      List.Forall₂ (fun data maxlen => data.length ≤ maxlen) reads (maxlens.take reads.length) ∧
      reads.flatten <+: d.visible ∧ (0 < k → reads.flatten = d.visible) ∧
      (d.lineSize * d.height + answers.countP PipeAnswer.isWouldBlock < maxlens.length → 0 < k) := by
  have hlength : d.start.left.length = d.lineSize * d.height := d.size
  have hready : Ready d.start answers := ⟨hdelivers, hlength ▸ hsupply⟩
  obtain ⟨reads, k, s, answers', hrun, hshorts, hstart, hall, hmany⟩ :=
    readAll_pending d.running hready hmaxlens
  rw [d.pending_start] at hstart hall
  rw [potential, hlength] at hmany
  exact ⟨reads, k, s, answers', hrun, hshorts, hstart, hall, hmany⟩

/-- Two lines of two bytes and one of padding. -/
def twoLines : PaddedImage where
  lineSize := 3
  outputLineSize := 2
  height := 2
  data := [1, 2, 0, 3, 4, 0]
  adf := false
  nonempty := Nat.succ_pos 1
  padded := Nat.le_succ 2
  size := rfl

example : twoLines.visible = [1, 2, 3, 4] := by decide

/-- The pipe has a byte, nothing, two bytes and then what is asked for. -/
theorem readAll_visible_twoLines :
    let answers : List PipeAnswer :=
      [.bytes 0, .wouldBlock, .bytes 1, .bytes 8, .interrupted, .bytes 8, .bytes 8, .bytes 8]
    let maxlens := [3, 3, 3, 1, 1, 1, 1, 1]
    ∃ reads k s answers', readAll twoLines.start answers maxlens =
        some (reads.map (fun data => (.good, data)) ++ List.replicate k (.eof, []), s, answers') ∧
      List.Forall₂ (fun data maxlen => data.length ≤ maxlen) reads (maxlens.take reads.length) ∧
      reads.flatten <+: twoLines.visible ∧ (0 < k → reads.flatten = twoLines.visible) ∧
      (3 * 2 + answers.countP PipeAnswer.isWouldBlock < maxlens.length → 0 < k) :=
  readAll_visible twoLines [3, 3, 3, 1, 1, 1, 1, 1]
    [.bytes 0, .wouldBlock, .bytes 1, .bytes 8, .interrupted, .bytes 8, .bytes 8, .bytes 8]
    (by decide) (by decide) (by decide)

end SaneBackends.Pixma.SaneRead
