import SaneBackends.Scanimage.ScanIt
/-!
# Encoder objects

What the calls of a scan do to the objects of libpng and libjpeg. Objects are created where the
first frame can be streamed or where the buffer is written, and what is destroyed depends on the
output format alone. So they match on some ways through `scan_it` and not on others.
-/

namespace SaneBackends.Scanimage

open SaneBackends.Lib

/-- The objects that exist. -/
structure Encoders where
  png : Bool := false
  jpeg : Bool := false
  deriving DecidableEq, Repr

/-- What exists after a call that may be made. -/
def Encoders.after (live : Encoders) : Output → Option Encoders
  | .pngCreate .. => if live.png then none else some { live with png := true }
  | .pngEnd => if live.png then some live else none
  | .pngDestroy => if live.png then some { live with png := false } else none
  | .jpegCreate .. => if live.jpeg then none else some { live with jpeg := true }
  | .jpegFinish => if live.jpeg then some live else none
  | .jpegDestroy => if live.jpeg then some { live with jpeg := false } else none
  | _ => some live

def follow (live : Encoders) : List Output → Option Encoders
  | [] => some live
  | call :: calls => do
      let live ← live.after call
      follow live calls

/-- Only what exists is finished or destroyed, and nothing is left. -/
def Lawful (out : List Output) : Prop := follow {} out = some {}

instance (out : List Output) : Decidable (Lawful out) := inferInstanceAs (Decidable (_ = _))

/-- The encoder of an output format. -/
def encoderOf (output : OutputFormat) : Encoders where
  png := output = .png
  jpeg := output.usesJpeg

/-- What the first frame is to `scan_it`. -/
inductive FirstFrame where
  | failed
  | streamed
  | buffered
  | raw
  | other
  deriving DecidableEq, Repr

def firstFrame (frame : Frame) : FirstFrame :=
  if frame.parametersStatus ≠ .good then .failed
  else match frame.parm.format with
    | .gray | .rgb => if frame.parm.lines < 0 then .buffered else .streamed
    | .red | .green | .blue => .buffered
    | .jpeg => .raw
    | .other => .other

/-- A read has failed. -/
def Exit.isReadFailed : Exit → Bool
  | readFailed _ => true
  | _ => false

def Exit.isFinished : Exit → Bool
  | finished => true
  | _ => false

/-- The ways through `scan_it` on which objects are created and destroyed alike. -/
def matched (output : OutputFormat) (first : FirstFrame) (readFailed finished : Bool) : Bool :=
  if output = .pnm ∨ output = .tiff then true
  else match first with
    | .failed => false
    | .streamed => !readFailed
    | .buffered => finished || readFailed
    | .raw => output ≠ .png
    | .other => readFailed

def Matched (output : OutputFormat) (first : Frame) (exit : Exit) : Prop :=
  matched output (firstFrame first) exit.isReadFailed exit.isFinished = true

/-! ## Sequences of calls -/

section Follow

variable {live live' : Encoders} {out out' : List Output}

theorem follow_append (live : Encoders) (out out' : List Output) :
    follow live (out ++ out') = (follow live out).bind fun live => follow live out' := by
  induction out generalizing live with
  | nil => rfl
  | cons call out ih =>
      rw [List.cons_append, follow, follow]
      cases live.after call with
      | none => rfl
      | some next => exact ih next

/-- A call that leaves the objects alone. -/
def Neutral (call : Output) : Prop := ∀ live : Encoders, live.after call = some live

theorem follow_neutral (h : ∀ call ∈ out, Neutral call) : follow live out = some live := by
  induction out with
  | nil => rfl
  | cons call out ih =>
      rw [follow, h call List.mem_cons_self]
      exact ih fun other hother => h other (List.mem_cons_of_mem _ hother)

theorem follow_append_neutral (hout : follow live out = some live')
    (h : ∀ call ∈ out', Neutral call) : follow live (out ++ out') = some live' := by
  rw [follow_append, hout]
  exact follow_neutral h

theorem neutral_bytes (data : List UInt8) : Neutral (.bytes data) := fun _ => rfl

end Follow

/-! ## What a read writes -/

section Stream

variable {output : OutputFormat} {malloc : Nat → Bool} {parm : Parameters}

theorem feedRows_neutral {n fuel : Nat} {emit : List UInt8 → Except ScanFault (Output × List UInt8)}
    (hemit : ∀ line call buf, emit line = .ok (call, buf) → Neutral call)
    {rows rows' : RowBuffer} {rest : List UInt8} {calls : List Output}
    (hrun : feedRows n emit fuel rows rest = .ok (rows', calls)) : ∀ call ∈ calls, Neutral call := by
  induction fuel generalizing rows rest calls with
  | zero => cases hrun
  | succ fuel ih =>
      rw [feedRows] at hrun
      split_ifs at hrun with hfull
      · obtain ⟨buf, -, hrun⟩ := bind_eq_ok.mp hrun
        obtain ⟨⟨call, buf'⟩, hcall, hrun⟩ := bind_eq_ok.mp hrun
        obtain ⟨⟨rows₁, calls₁⟩, hrest, hrun⟩ := bind_eq_ok.mp hrun
        cases hrun
        intro other hother
        obtain rfl | hlater := List.mem_cons.mp hother
        · exact hemit _ _ _ hcall
        · exact ih hrest other hlater
      · obtain ⟨buf, -, hrun⟩ := bind_eq_ok.mp hrun
        cases hrun
        intro other hother
        cases hother

theorem emitPng_neutral {depth : Nat} (line : List UInt8) (call : Output) (buf : List UInt8)
    (hrun : emitPng depth line = .ok (call, buf)) : Neutral call := by
  obtain ⟨row, -, hrun⟩ := bind_eq_ok.mp hrun
  cases hrun
  exact fun _ => rfl

theorem emitJpeg_neutral {depth : Nat} (line : List UInt8) (call : Output) (buf : List UInt8)
    (hrun : emitJpeg depth line = .ok (call, buf)) : Neutral call := by
  obtain ⟨row, -, hrun⟩ := bind_eq_ok.mp hrun
  cases hrun
  exact fun _ => rfl

theorem neutral_append_bytes {before : List Output} (h : ∀ call ∈ before, Neutral call)
    (data : List UInt8) : ∀ call ∈ before ++ [Output.bytes data], Neutral call := by
  intro call hcall
  obtain hbefore | hlast := List.mem_append.mp hcall
  · exact h call hbefore
  · rw [List.mem_singleton.mp hlast]
    exact neutral_bytes data

theorem neutral_nil : ∀ call ∈ ([] : List Output), Neutral call := by
  intro call hcall
  cases hcall

theorem swapChunk_neutral (hangOver : Option UInt8) (chunk : List UInt8) :
    ∀ call ∈ (swapChunk hangOver chunk).2, Neutral call := by
  unfold swapChunk
  cases hangOver with
  | none =>
      dsimp only
      split_ifs
      · exact neutral_append_bytes neutral_nil _
      · exact neutral_append_bytes neutral_nil _
  | some byte =>
      cases chunk with
      | nil => exact neutral_append_bytes neutral_nil _
      | cons first rest =>
          dsimp only
          split_ifs
          · exact neutral_append_bytes (neutral_append_bytes neutral_nil [first]) _
          · exact neutral_append_bytes (neutral_append_bytes neutral_nil [first]) _

/-- The objects that exist, and how the first frame is written. -/
structure Opened (live : Encoders) (mustBuffer rawJpeg : Bool) (st : Scan) : Prop where
  live : follow {} st.out = some live
  mustBuffer : st.mustBuffer = mustBuffer
  rawJpeg : st.rawJpeg = rawJpeg

variable {live : Encoders} {mustBuffer rawJpeg : Bool} {st st' : Scan} {exit : Option Exit}

theorem Opened.streamChunk (h : Opened live mustBuffer rawJpeg st) {chunk : List UInt8}
    (hrun : streamChunk output parm chunk st = .ok (st', exit)) :
    Opened live mustBuffer rawJpeg st' ∧ exit = none := by
  unfold Scanimage.streamChunk at hrun
  split_ifs at hrun with hraw hpng hjpeg hplain
  · cases hrun
    exact ⟨⟨follow_append_neutral h.live (neutral_append_bytes neutral_nil chunk), h.mustBuffer,
      h.rawJpeg⟩, rfl⟩
  · obtain ⟨⟨rows, calls⟩, hrows, hrun⟩ := bind_eq_ok.mp hrun
    cases hrun
    exact ⟨⟨follow_append_neutral h.live (feedRows_neutral emitPng_neutral hrows), h.mustBuffer,
      h.rawJpeg⟩, rfl⟩
  · obtain ⟨⟨rows, calls⟩, hrows, hrun⟩ := bind_eq_ok.mp hrun
    cases hrun
    exact ⟨⟨follow_append_neutral h.live (feedRows_neutral emitJpeg_neutral hrows), h.mustBuffer,
      h.rawJpeg⟩, rfl⟩
  · cases hrun
    exact ⟨⟨follow_append_neutral h.live (neutral_append_bytes neutral_nil chunk), h.mustBuffer,
      h.rawJpeg⟩, rfl⟩
  · cases hrun
    exact ⟨⟨follow_append_neutral h.live (swapChunk_neutral st.hangOver chunk), h.mustBuffer,
      h.rawJpeg⟩, rfl⟩

/-- The buffer is not written yet, so nothing is. Without memory the image is left. -/
theorem Opened.bufferChunk (h : Opened live mustBuffer rawJpeg st) {chunk : List UInt8}
    (hrun : bufferChunk malloc parm chunk st = .ok (st', exit)) :
    Opened live mustBuffer rawJpeg st' ∧ (exit = none ∨ exit = some .noMemory) := by
  by_cases hformat : parm.format.isColorFrame = true ∨ parm.format = .gray ∨ parm.format = .rgb
  · rw [bufferChunk_eq hformat] at hrun
    obtain ⟨stored, -, hrun⟩ := bind_eq_ok.mp hrun
    cases stored with
    | none =>
        cases hrun
        exact ⟨h, .inr rfl⟩
    | some image =>
        obtain ⟨offset, -, hrun⟩ := bind_eq_ok.mp hrun
        cases hrun
        exact ⟨⟨h.live, h.mustBuffer, h.rawJpeg⟩, .inl rfl⟩
  · have hkeep : Scanimage.bufferChunk malloc parm chunk st = .ok (st, none) := by
      unfold Scanimage.bufferChunk
      cases hcase : parm.format with
      | jpeg | other => rfl
      | gray => exact absurd (.inr (.inl hcase)) hformat
      | rgb => exact absurd (.inr (.inr hcase)) hformat
      | red | green | blue =>
          refine absurd (.inl ?_) hformat
          rw [hcase]
          rfl
    rw [hkeep] at hrun
    cases hrun
    exact ⟨h, .inl rfl⟩

/-- Memory is only asked for where the image is buffered. -/
theorem Opened.readChunks (h : Opened live mustBuffer rawJpeg st) {reads : List (List UInt8)}
    (hrun : readChunks output malloc parm reads st = .ok (st', exit)) :
    Opened live mustBuffer rawJpeg st' ∧
      (exit = none ∨ exit = some .noMemory ∧ mustBuffer = true) := by
  induction reads generalizing st with
  | nil =>
      cases hrun
      exact ⟨h, .inl rfl⟩
  | cons chunk reads ih =>
      rw [Scanimage.readChunks] at hrun
      obtain ⟨⟨st₁, exit₁⟩, hread, hrest⟩ := bind_eq_ok.mp hrun
      have hchunk : Opened live mustBuffer rawJpeg st₁ ∧
          (exit₁ = none ∨ exit₁ = some .noMemory ∧ mustBuffer = true) := by
        rw [Scanimage.readChunk, h.mustBuffer] at hread
        split_ifs at hread with hbuffer
        · exact (h.bufferChunk hread).imp_right fun hexit => hexit.imp_right fun hno => ⟨hno, hbuffer⟩
        · exact (h.streamChunk hread).imp_right .inl
      obtain ⟨hopened, rfl | ⟨rfl, hbuffer⟩⟩ := hchunk
      · exact ih hopened hrest
      · cases hrest
        exact ⟨hopened, .inr ⟨rfl, hbuffer⟩⟩

end Stream

/-! ## Frames -/

section Frames

variable {output : OutputFormat} {malloc : Nat → Bool} {live : Encoders}
  {mustBuffer rawJpeg : Bool} {st st' : Scan} {frame : Frame} {frames : List Frame}

/-- What the first frame creates. -/
def objects (output : OutputFormat) : FirstFrame → Encoders
  | .streamed => encoderOf output
  | _ => {}

/-- The state behind the first frame, and behind each one after it. -/
abbrev OpenedAs (output : OutputFormat) (first : FirstFrame) (st : Scan) : Prop :=
  Opened (objects output first) (first = .buffered) (first = .raw) st

/-- How the frames can end. -/
def Leaves (output : OutputFormat) (first : FirstFrame) : Exit ⊕ Parameters → Prop
  | .inl .noMemory => first = .buffered
  | .inl .unsupported => first = .raw ∧ output.usesJpeg = false
  | .inl (.parametersFailed _) => first = .raw → output.usesJpeg = true
  | .inl .finished => False
  | _ => first ≠ .failed ∧ (first = .raw → output.usesJpeg = true)

/-- How a step can end, or the next one can begin. -/
def Goes (output : OutputFormat) (first : FirstFrame) : Option Exit → Prop
  | none => first ≠ .failed ∧ (first = .raw → output.usesJpeg = true)
  | some exit => Leaves output first (.inl exit)

theorem goes_none {first : FirstFrame} (hfailed : first ≠ .failed) (hraw : first ≠ .raw) :
    Goes output first none := ⟨hfailed, fun h => absurd h hraw⟩

theorem follow_streamHeader (parm : Parameters) :
    follow {} (streamHeader output parm) = some (encoderOf output) := by
  cases output <;> rfl

/-- The assertions hold where `chooseFormat` ends. -/
theorem chooseFormat_plain_ok {parm : Parameters} {exit : Option Exit}
    (hformat : parm.format = .gray ∨ parm.format = .rgb)
    (hrun : chooseFormat output parm {} = .ok (st, exit)) :
    exit = none ∧ st = if parm.lines < 0 then
        { image := { numChannels := 1 }, mustBuffer := true }
      else { image := { numChannels := 1 }, out := streamHeader output parm } := by
  unfold chooseFormat at hrun
  obtain hgray | hrgb := hformat
  · rw [hgray] at hrun
    obtain ⟨_, -, hrun⟩ := bind_eq_ok.mp hrun
    split_ifs at hrun ⊢
    · cases hrun
      exact ⟨rfl, rfl⟩
    · cases hrun
      exact ⟨rfl, rfl⟩
  · rw [hrgb] at hrun
    obtain ⟨_, -, hrun⟩ := bind_eq_ok.mp hrun
    obtain ⟨_, -, hrun⟩ := bind_eq_ok.mp hrun
    split_ifs at hrun ⊢
    · cases hrun
      exact ⟨rfl, rfl⟩
    · cases hrun
      exact ⟨rfl, rfl⟩

theorem firstFrame_plain (hgood : frame.parametersStatus = .good)
    (hformat : frame.parm.format = .gray ∨ frame.parm.format = .rgb) :
    firstFrame frame = if frame.parm.lines < 0 then .buffered else .streamed := by
  rw [firstFrame, if_neg (not_not.mpr hgood)]
  obtain hgray | hrgb := hformat
  · rw [hgray]
  · rw [hrgb]

theorem chooseFormat_opened (hgood : frame.parametersStatus = .good) {exit : Option Exit}
    (hrun : chooseFormat output frame.parm {} = .ok (st, exit)) :
    OpenedAs output (firstFrame frame) st ∧ Goes output (firstFrame frame) exit := by
  by_cases hformat : frame.parm.format = .gray ∨ frame.parm.format = .rgb
  · obtain ⟨rfl, rfl⟩ := chooseFormat_plain_ok hformat hrun
    rw [firstFrame_plain hgood hformat]
    split_ifs
    · exact ⟨⟨rfl, rfl, rfl⟩, goes_none (fun h => by cases h) (fun h => by cases h)⟩
    · exact ⟨⟨follow_streamHeader _, rfl, rfl⟩, goes_none (by decide) (by decide)⟩
  · rw [firstFrame, if_neg (not_not.mpr hgood)]
    unfold chooseFormat at hrun
    cases hcase : frame.parm.format with
    | gray => exact absurd (.inl hcase) hformat
    | rgb => exact absurd (.inr hcase) hformat
    | red | green | blue =>
        rw [hcase] at hrun
        obtain ⟨_, -, hrun⟩ := bind_eq_ok.mp hrun
        cases hrun
        exact ⟨⟨rfl, rfl, rfl⟩, goes_none (fun h => by cases h) (fun h => by cases h)⟩
    | jpeg =>
        rw [hcase] at hrun
        cases output with
        | jpeg | pdf | pdfPerPage =>
            cases hrun
            exact ⟨⟨rfl, rfl, rfl⟩, ⟨(fun h => by cases h), fun _ => rfl⟩⟩
        | pnm | tiff | png =>
            cases hrun
            exact ⟨⟨rfl, rfl, rfl⟩, ⟨rfl, rfl⟩⟩
    | other =>
        rw [hcase] at hrun
        cases hrun
        exact ⟨⟨rfl, rfl, rfl⟩, goes_none (fun h => by cases h) (fun h => by cases h)⟩

theorem openFirst_opened (hgood : frame.parametersStatus = .good) {exit : Option Exit}
    (hrun : openFirst output malloc frame.parm {} = .ok (st, exit)) :
    OpenedAs output (firstFrame frame) st ∧ Goes output (firstFrame frame) exit := by
  obtain ⟨⟨st₁, exit₁⟩, hchoose, hrun⟩ := bind_eq_ok.mp hrun
  obtain ⟨hopened, hgoes⟩ := chooseFormat_opened hgood hchoose
  cases exit₁ with
  | some exit₁ =>
      cases hrun
      exact ⟨hopened, hgoes⟩
  | none =>
      dsimp only at hrun
      generalize hst₂ : (if output = .png ∨ output.usesJpeg = true then
        { st₁ with rows := ⟨List.replicate frame.parm.bytesPerLine 0, 0⟩ } else st₁ : Scan) = st₂
        at hrun
      have hopened₂ : OpenedAs output (firstFrame frame) st₂ := by
        rw [← hst₂]
        split_ifs
        · exact ⟨hopened.live, hopened.mustBuffer, hopened.rawJpeg⟩
        · exact hopened
      have hbuffer := hopened₂.mustBuffer
      by_cases hmust : st₂.mustBuffer = true
      · rw [if_pos hmust] at hrun
        have hkind : firstFrame frame = .buffered := of_decide_eq_true (hbuffer ▸ hmust)
        have hlast : ∀ height : Int, (do
            let image ← advance malloc { st₂.image with
              width := frame.parm.bytesPerLine
              height
              x := frame.parm.bytesPerLine - 1
              y := -1 }
            .ok ({ st₂ with image }, if image.data.isSome then none else some Exit.noMemory)) =
              (.ok (st, exit) : Step) →
            OpenedAs output (firstFrame frame) st ∧ Goes output (firstFrame frame) exit := by
          intro height hrun
          obtain ⟨image, -, hrun⟩ := bind_eq_ok.mp hrun
          cases hrun
          refine ⟨⟨hopened₂.live, hopened₂.mustBuffer, hopened₂.rawJpeg⟩, ?_⟩
          split_ifs
          · exact hgoes
          · exact hkind
        split_ifs at hrun
        · obtain ⟨height, -, hrun⟩ := bind_eq_ok.mp hrun
          exact hlast height hrun
        · exact hlast 0 hrun
      · rw [if_neg hmust] at hrun
        cases hrun
        exact ⟨hopened₂, hgoes⟩

/-- Objects do not depend on the frames behind the first one. -/
theorem openNext_opened {first : FirstFrame} {parm : Parameters} {exit : Option Exit}
    (h : OpenedAs output first st) (hrun : openNext parm st = .ok (st', exit)) :
    OpenedAs output first st' ∧ exit = none := by
  obtain ⟨_, -, hrun⟩ := bind_eq_ok.mp hrun
  cases hrun
  exact ⟨⟨h.live, h.mustBuffer, h.rawJpeg⟩, rfl⟩

/-- The reads of a frame, and its end. -/
theorem readFrame_opened {first : FirstFrame} {exit : Option Exit} (h : OpenedAs output first st)
    (hgoes : Goes output first none)
    (hrun : (do
      let (st, exit) ← readChunks output malloc frame.parm frame.reads st
      match exit with
      | some exit => .ok (st, some exit)
      | none => .ok (st, frame.readError.map .readFailed) : Step) = .ok (st', exit)) :
    OpenedAs output first st' ∧ Goes output first exit := by
  obtain ⟨⟨st₁, exit₁⟩, hread, hrun⟩ := bind_eq_ok.mp hrun
  obtain ⟨hopened, hexit⟩ := h.readChunks hread
  obtain rfl | ⟨rfl, hbuffer⟩ := hexit
  · cases hrun
    refine ⟨hopened, ?_⟩
    cases frame.readError with
    | none => exact hgoes
    | some status => exact hgoes
  · cases hrun
    have hkind : first = .buffered := of_decide_eq_true hbuffer
    exact ⟨hopened, hkind⟩

theorem scanFrame_first_opened {exit : Option Exit}
    (hrun : scanFrame output malloc true frame {} = .ok (st, exit)) :
    OpenedAs output (firstFrame frame) st ∧ Goes output (firstFrame frame) exit := by
  rw [scanFrame, if_neg (fun h => h.1 rfl)] at hrun
  by_cases hgood : frame.parametersStatus = .good
  · rw [if_neg (not_not.mpr hgood), if_pos rfl] at hrun
    obtain ⟨⟨st₁, exit₁⟩, hopen, hrun⟩ := bind_eq_ok.mp hrun
    obtain ⟨hopened, hgoes⟩ := openFirst_opened hgood hopen
    cases exit₁ with
    | none => exact readFrame_opened hopened hgoes hrun
    | some exit₁ =>
        cases hrun
        exact ⟨hopened, hgoes⟩
  · rw [if_pos hgood] at hrun
    cases hrun
    rw [firstFrame, if_pos hgood]
    exact ⟨⟨rfl, rfl, rfl⟩, fun h => by cases h⟩

theorem scanFrame_next_opened {first : FirstFrame} {exit : Option Exit}
    (h : OpenedAs output first st) (hgoes : Goes output first none)
    (hrun : scanFrame output malloc false frame st = .ok (st', exit)) :
    OpenedAs output first st' ∧ Goes output first exit := by
  rw [scanFrame] at hrun
  by_cases hstart : ¬ false = true ∧ frame.startStatus ≠ .good
  · rw [if_pos hstart] at hrun
    cases hrun
    exact ⟨h, hgoes⟩
  · rw [if_neg hstart] at hrun
    by_cases hgood : frame.parametersStatus ≠ .good
    · rw [if_pos hgood] at hrun
      cases hrun
      exact ⟨h, hgoes.2⟩
    · rw [if_neg hgood, if_neg Bool.false_ne_true] at hrun
      obtain ⟨⟨st₁, exit₁⟩, hopen, hrun⟩ := bind_eq_ok.mp hrun
      obtain ⟨hopened, rfl⟩ := openNext_opened h hopen
      exact readFrame_opened hopened hgoes hrun

/-- All frames behind the first one. -/
theorem scanFrames_next_opened {first : FirstFrame} {result : Exit ⊕ Parameters}
    (h : OpenedAs output first st) (hgoes : Goes output first none)
    (hrun : scanFrames output malloc false frames st = .ok (st', result)) :
    OpenedAs output first st' ∧ Leaves output first result := by
  induction frames generalizing st with
  | nil => cases hrun
  | cons frame frames ih =>
      rw [scanFrames] at hrun
      obtain ⟨⟨st₁, exit⟩, hframe, hrun⟩ := bind_eq_ok.mp hrun
      obtain ⟨hopened, hexit⟩ := scanFrame_next_opened h hgoes hframe
      cases exit with
      | some exit =>
          cases hrun
          exact ⟨hopened, hexit⟩
      | none =>
          dsimp only at hrun
          split_ifs at hrun
          · cases hrun
            exact ⟨hopened, hexit⟩
          · exact ih hopened hrun

theorem scanFrames_opened {result : Exit ⊕ Parameters}
    (hrun : scanFrames output malloc true (frame :: frames) {} = .ok (st, result)) :
    OpenedAs output (firstFrame frame) st ∧ Leaves output (firstFrame frame) result := by
  rw [scanFrames] at hrun
  obtain ⟨⟨st₁, exit⟩, hframe, hrun⟩ := bind_eq_ok.mp hrun
  obtain ⟨hopened, hexit⟩ := scanFrame_first_opened hframe
  cases exit with
  | some exit =>
      cases hrun
      exact ⟨hopened, hexit⟩
  | none =>
      dsimp only at hrun
      split_ifs at hrun
      · cases hrun
        exact ⟨hopened, hexit⟩
      · exact scanFrames_next_opened hopened hexit hrun

end Frames

/-! ## The ways out -/

section Ways

variable {output : OutputFormat} {first : FirstFrame} {live : Encoders} {out : List Output}
  {st st' : Scan}

/-- What is destroyed at the end. -/
def destroyed (output : OutputFormat) (rawJpeg : Bool) : List Output :=
  if output = .png then [.pngDestroy]
  else if output.usesJpeg ∧ ¬ rawJpeg then [.jpegDestroy]
  else []

/-- What is finished before. -/
def finished (output : OutputFormat) (rawJpeg : Bool) : List Output :=
  if output = .png then [.pngEnd]
  else if output.usesJpeg ∧ ¬ rawJpeg then [.jpegFinish]
  else []

theorem cleanup_eq (st : Scan) : cleanup output st = st.out ++ destroyed output st.rawJpeg := rfl

theorem lawful_append (h : follow {} out = some live) (tail : List Output) :
    Lawful (out ++ tail) ↔ follow live tail = some {} := by
  rw [Lawful, follow_append, h]
  rfl

theorem follow_bufferHeader (parm : Parameters) (height : Int) :
    follow {} (bufferHeader output parm height) = some (encoderOf output) := by
  cases output <;> rfl

theorem writeBuffer_opened {parm : Parameters} (h : OpenedAs output .buffered st)
    (hrun : writeBuffer output parm st = .ok st') : Opened (encoderOf output) true false st' := by
  have hout : ∃ height data, st'.rawJpeg = st.rawJpeg ∧ st'.mustBuffer = st.mustBuffer ∧
      st'.out = st.out ++ bufferHeader output parm height ++ [Output.bytes data] := by
    rw [writeBuffer] at hrun
    dsimp only at hrun
    cases hdata : st.image.data with
    | none =>
        rw [hdata] at hrun
        cases hrun
    | some data =>
        rw [hdata] at hrun
        dsimp only at hrun
        have hwrite : ∀ data' : Cells UInt8, (do
            let size ← ({ st.image with data := some data, height := st.image.y } : Image).size
            if size ≤ data'.size then
              .ok { st with
                image := { st.image with data := some data, height := st.image.y }
                out := st.out ++ bufferHeader output parm st.image.y ++
                  [.bytes ((List.range size).map data'.cell)] }
            else .error .outOfBounds) = (.ok st' : Except ScanFault Scan) →
            ∃ height data, st'.rawJpeg = st.rawJpeg ∧ st'.mustBuffer = st.mustBuffer ∧
              st'.out = st.out ++ bufferHeader output parm height ++ [Output.bytes data] := by
          intro data' hrun
          obtain ⟨size, -, hrun⟩ := bind_eq_ok.mp hrun
          split_ifs at hrun
          cases hrun
          exact ⟨_, _, rfl, rfl, rfl⟩
        split_ifs at hrun
        · obtain ⟨bytes, -, hrun⟩ := bind_eq_ok.mp hrun
          obtain ⟨data', -, hrun⟩ := bind_eq_ok.mp hrun
          exact hwrite data' hrun
        · exact hwrite data hrun
  obtain ⟨height, data, hraw, hmust, hout⟩ := hout
  refine ⟨?_, hmust.trans h.mustBuffer, hraw.trans h.rawJpeg⟩
  rw [hout]
  refine follow_append_neutral ?_ (neutral_append_bytes neutral_nil data)
  rw [follow_append, h.live]
  exact follow_bufferHeader parm height

/-- After a read error what was created stays. -/
theorem objects_eq_empty_iff (hfirst : first ≠ .failed)
    (hraw : first = .raw → output.usesJpeg = true) :
    objects output first = {} ↔ matched output first true false = true := by
  revert hfirst hraw
  cases first <;> cases output <;> decide

/-- An error exit destroys the object of the output format. -/
theorem follow_destroyed_iff (hraw : first = .raw → output.usesJpeg = true) :
    follow (objects output first) (destroyed output (first = .raw)) = some {} ↔
      matched output first false false = true := by
  revert hraw
  cases first <;> cases output <;> decide

theorem follow_unsupported_iff (hjpeg : output.usesJpeg = false) :
    follow (objects output .raw) (destroyed output true) = some {} ↔
      matched output .raw false false = true := by
  revert hjpeg
  cases output <;> decide

/-- At the end of a scan the buffer has been written. -/
theorem follow_finished_iff (hfirst : first ≠ .failed)
    (hraw : first = .raw → output.usesJpeg = true) :
    follow (if first = .buffered then encoderOf output else objects output first)
        (finished output (first = .raw) ++ destroyed output (first = .raw)) = some {} ↔
      matched output first false true = true := by
  revert hfirst hraw
  cases first <;> cases output <;> decide

end Ways

/-- Objects are created and destroyed alike on these ways through `scan_it` and on no other. -/
theorem scanIt_lawful (output : OutputFormat) (malloc : Nat → Bool) (frame : Frame)
    (frames : List Frame) {out : List Output} {exit : Exit}
    (hrun : scanIt output malloc (frame :: frames) = .ok (out, exit)) :
    Lawful out ↔ Matched output frame exit := by
  obtain ⟨⟨st, result⟩, hframes, hrun⟩ := bind_eq_ok.mp hrun
  obtain ⟨hopened, hleaves⟩ := scanFrames_opened hframes
  have hcleanup : (firstFrame frame = .raw → output.usesJpeg = true) →
      (Lawful (cleanup output st) ↔ matched output (firstFrame frame) false false = true) := by
    intro hraw
    rw [cleanup_eq, lawful_append hopened.live, hopened.rawJpeg]
    exact follow_destroyed_iff hraw
  cases result with
  | inl exit' =>
      cases exit' with
      | readFailed status =>
          cases hrun
          rw [Lawful, hopened.live, Option.some_inj]
          exact objects_eq_empty_iff hleaves.1 hleaves.2
      | startFailed status =>
          cases hrun
          exact hcleanup hleaves.2
      | parametersFailed status =>
          cases hrun
          exact hcleanup hleaves
      | unsupported =>
          cases hrun
          obtain ⟨hkind, hjpeg⟩ := hleaves
          rw [hkind] at hopened
          rw [Matched, hkind, cleanup_eq, lawful_append hopened.live, hopened.rawJpeg]
          exact follow_unsupported_iff hjpeg
      | noMemory =>
          cases hrun
          refine hcleanup fun hraw => ?_
          rw [hraw] at hleaves
          cases hleaves
      | finished => exact absurd hleaves id
  | inr parm =>
      obtain ⟨hfirst, hraw⟩ := hleaves
      have hlast : ∀ st', Opened (if firstFrame frame = .buffered then encoderOf output
            else objects output (firstFrame frame)) (firstFrame frame = .buffered)
            (firstFrame frame = .raw) st' →
          (Lawful (cleanup output { st' with out := st'.out ++ finished output st'.rawJpeg }) ↔
            Matched output frame .finished) := by
        intro st' hopened'
        rw [cleanup_eq, List.append_assoc, lawful_append hopened'.live, hopened'.rawJpeg]
        exact follow_finished_iff hfirst hraw
      obtain ⟨st', hwrite, hrun⟩ : ∃ st', (if st.mustBuffer = true then writeBuffer output parm st
          else .ok st) = .ok st' ∧
          (cleanup output { st' with out := st'.out ++ finished output st'.rawJpeg }, .finished) =
            (out, exit) := by
        dsimp only at hrun
        by_cases hmust : st.mustBuffer = true
        · rw [if_pos hmust] at hrun ⊢
          obtain ⟨st', hwrite, hrun⟩ := bind_eq_ok.mp hrun
          exact ⟨st', hwrite, Except.ok.inj hrun⟩
        · rw [if_neg hmust] at hrun ⊢
          exact ⟨st, rfl, Except.ok.inj hrun⟩
      cases hrun
      refine hlast st' ?_
      by_cases hkind : firstFrame frame = .buffered
      · rw [hkind] at hopened
        have hmust : st.mustBuffer = true := hopened.mustBuffer
        rw [if_pos hmust] at hwrite
        rw [if_pos hkind, hkind]
        exact writeBuffer_opened hopened hwrite
      · have hmust : ¬ st.mustBuffer = true := by
          rw [hopened.mustBuffer, decide_eq_true_iff]
          exact hkind
        rw [if_neg hmust] at hwrite
        cases hwrite
        rw [if_neg hkind]
        exact hopened

/-- A gray PNG image whose first read fails. -/
theorem scanIt_lawful_readFailed :
    Lawful [.pngCreate .gray 1 1 8] ↔ Matched .png
      { parm := { format := .gray, bytesPerLine := 1, pixelsPerLine := 1, lines := 1 }
        reads := [], readError := some .ioError } (.readFailed .ioError) :=
  scanIt_lawful .png (fun _ => true) _ [] rfl

/-- Without parameters a PNG object is destroyed that has not been created. -/
theorem scanIt_unlawful : ¬ ∀ (output : OutputFormat) (malloc : Nat → Bool) (frames : List Frame)
    (out : List Output) (exit : Exit),
    scanIt output malloc frames = .ok (out, exit) → Lawful out := by
  intro hall
  have hlawful : Lawful [.pngDestroy] := hall .png (fun _ => true) [{
    parametersStatus := .ioError
    parm := { format := .gray, bytesPerLine := 1, pixelsPerLine := 1, lines := 1 }
    reads := [] }] _ (.parametersFailed .ioError) rfl
  exact absurd hlawful (by decide)

end SaneBackends.Scanimage
