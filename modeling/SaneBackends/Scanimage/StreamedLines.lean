import SaneBackends.Lib.Lines
import SaneBackends.Scanimage.ScanIt
/-!
# Lines of a streamed scan

However the backend cuts a frame, the encoders get its lines, and a file of big-endian samples gets
each sample with its bytes exchanged.
-/

namespace SaneBackends.Scanimage

open SaneBackends.Lib

/-! ## What is to be written -/

/-- Each sample of two bytes with these exchanged. -/
def exchanged (data : List UInt8) : List UInt8 := (lines 2 data).flatMap List.reverse

/-- Of each sample of two bytes the second. -/
def reduced (data : List UInt8) : List UInt8 := (lines 2 data).flatMap fun sample => sample.drop 1

/-- A line as libpng takes it. -/
def pngRowOf (depth : Nat) (line : List UInt8) : List UInt8 :=
  if depth = 1 then invertBits line else if depth = 16 then exchanged line else line

/-- A line as libjpeg takes it. -/
def jpegRowOf (depth : Nat) (line : List UInt8) : List UInt8 :=
  if depth = 1 then expandBits line else if depth = 16 then reduced line else line

/-- The lines that are passed to `png_write_row`. -/
def pngRows (out : List Output) : List (List UInt8) :=
  out.filterMap fun | .pngRow row => some row | _ => none

/-- The lines that are passed to `jpeg_write_scanlines`. -/
def jpegRows (out : List Output) : List (List UInt8) :=
  out.filterMap fun | .jpegRow row => some row | _ => none

/-- The bytes behind the header. -/
def written (out : List Output) : List UInt8 :=
  out.flatMap fun | .bytes data => data | _ => []

/-- An image whose height is known, in a frame of whole lines. -/
structure StreamedScan where
  parm : Parameters
  reads : List (List UInt8)
  format : parm.format = .gray ∨ parm.format = .rgb
  depth : parm.depth = 8 ∨ parm.depth = 16 ∨ parm.depth = 1 ∧ parm.format = .gray
  known : 0 ≤ parm.lines
  last : parm.lastFrame = true
  nonempty : 0 < parm.bytesPerLine
  samples : parm.depth = 16 → 2 ∣ parm.bytesPerLine
  whole : parm.bytesPerLine ∣ reads.flatten.length

namespace StreamedScan

variable (s : StreamedScan)

def frame : Frame where
  parm := s.parm
  reads := s.reads

/-- The stream of the frame. -/
def data : List UInt8 := s.reads.flatten

end StreamedScan

/-! ## Samples -/

section Samples

variable {data line : List UInt8}

theorem exchanged_cons (lsb msb : UInt8) (rest : List UInt8) :
    exchanged (lsb :: msb :: rest) = msb :: lsb :: exchanged rest := by
  have hlines := lines_append_of_length (by decide : 0 < 2) (rfl : [lsb, msb].length = 2) rest
  rw [List.cons_append, List.cons_append, List.nil_append] at hlines
  rw [exchanged, hlines]
  rfl

theorem reduced_cons (lsb msb : UInt8) (rest : List UInt8) :
    reduced (lsb :: msb :: rest) = msb :: reduced rest := by
  have hlines := lines_append_of_length (by decide : 0 < 2) (rfl : [lsb, msb].length = 2) rest
  rw [List.cons_append, List.cons_append, List.nil_append] at hlines
  rw [reduced, hlines]
  rfl

theorem swapPairs_eq (h : 2 ∣ line.length) : swapPairs line = .ok (exchanged line) := by
  induction line using swapPairs.induct with
  | case1 lsb msb rest ih =>
      have hrest : 2 ∣ rest.length := (Nat.dvd_add_left (Nat.dvd_refl 2)).mp h
      rw [swapPairs, ih hrest, exchanged_cons]
      rfl
  | case2 => rfl
  | case3 byte => exact absurd (Nat.le_of_dvd Nat.one_pos h) (by decide)

theorem highBytes_eq (h : 2 ∣ line.length) : highBytes line = .ok (reduced line) := by
  induction line using highBytes.induct with
  | case1 lsb msb rest ih =>
      have hrest : 2 ∣ rest.length := (Nat.dvd_add_left (Nat.dvd_refl 2)).mp h
      rw [highBytes, ih hrest, reduced_cons]
      rfl
  | case2 => rfl
  | case3 byte => exact absurd (Nat.le_of_dvd Nat.one_pos h) (by decide)

/-- Pairs are exchanged, and a byte that is left over stays. -/
theorem swapSamples_eq (data : List UInt8) :
    swapSamples data = exchanged data ++ remainder 2 data := by
  induction data using swapSamples.induct with
  | case1 lsb msb rest ih =>
      have hrest := remainder_append_of_length (by decide : 0 < 2) (rfl : [lsb, msb].length = 2) rest
      rw [List.cons_append, List.cons_append, List.nil_append] at hrest
      rw [swapSamples, ih, exchanged_cons, hrest]
      rfl
  | case2 rest hshort =>
      have hlt : rest.length < 2 := by
        match rest, hshort with
        | [], _ => decide
        | [_], _ => exact Nat.one_lt_two
        | lsb :: msb :: rest, hshort => exact absurd rfl (hshort lsb msb rest)
      rw [swapSamples, exchanged, lines_of_lt hlt, remainder_of_lt hlt]
      · rfl
      · exact hshort

theorem length_exchanged (data : List UInt8) :
    (exchanged data).length = data.length / 2 * 2 := by
  rw [exchanged, List.length_flatMap, ← length_lines 2 data]
  have hsum : ∀ rows : List (List UInt8), (∀ row ∈ rows, row.length = 2) →
      (rows.map fun row => row.reverse.length).sum = rows.length * 2 := by
    intro rows hrows
    induction rows with
    | nil => rfl
    | cons row rows ih =>
        rw [List.map_cons, List.sum_cons, ih fun row' hrow => hrows row' (List.mem_cons_of_mem _ hrow),
          List.length_reverse, hrows row List.mem_cons_self, List.length_cons]
        ring
  exact hsum _ fun row hrow => length_of_mem_lines hrow

theorem exchanged_append (data data' : List UInt8) :
    exchanged (data ++ data') = exchanged data ++ exchanged (remainder 2 data ++ data') := by
  rw [exchanged, lines_append (by decide), List.flatMap_append]
  rfl

end Samples

/-! ## Complete lines -/

section Rows

variable {n : Nat} {rows : RowBuffer} {pending : List UInt8}

/-- The buffer of a line holds its start. -/
structure Holds (n : Nat) (pending : List UInt8) (rows : RowBuffer) : Prop where
  size : rows.buf.length = n
  row : rows.row = pending.length
  start : rows.buf.take rows.row = pending
  short : pending.length < n

theorem memcpy_eq {buf src : List UInt8} {pos m : Nat} (hbuf : pos + m ≤ buf.length)
    (hsrc : m ≤ src.length) :
    memcpy buf pos src m = .ok (buf.take pos ++ src.take m ++ buf.drop (pos + m)) :=
  if_pos ⟨hbuf, hsrc⟩

/-- The loop hands over the lines of what was pending with what comes, and keeps the rest. -/
theorem feedRows_spec {emit : List UInt8 → Except ScanFault (Output × List UInt8)}
    {output : List UInt8 → Output}
    (hemit : ∀ line, line.length = n → ∃ buf, emit line = .ok (output line, buf) ∧ buf.length = n)
    {fuel : Nat} {rest : List UInt8} (hrows : Holds n pending rows) (hfuel : rest.length < fuel) :
    ∃ rows', feedRows n emit fuel rows rest =
        .ok (rows', (lines n (pending ++ rest)).map output) ∧
      Holds n (remainder n (pending ++ rest)) rows' := by
  have hpos : 0 < n := Nat.zero_lt_of_lt hrows.short
  have hsize := hrows.size
  have hrow := hrows.row
  have hshort := hrows.short
  induction fuel generalizing rows pending rest with
  | zero => exact absurd hfuel (Nat.not_lt_zero _)
  | succ fuel ih =>
      by_cases hfull : n ≤ rows.row + rest.length
      · -- the line is completed with the next bytes
        have hsrc : n - rows.row ≤ rest.length := by omega
        have hcopy := memcpy_eq (by omega : rows.row + (n - rows.row) ≤ rows.buf.length) hsrc
        have hdrop : rows.buf.drop (rows.row + (n - rows.row)) = [] :=
          List.drop_of_length_le (by omega)
        rw [hdrop, List.append_nil, hrows.start] at hcopy
        have hline : (pending ++ rest.take (n - rows.row)).length = n := by
          rw [List.length_append, List.length_take]
          omega
        obtain ⟨buf, hrun, hbuf⟩ := hemit _ hline
        have hfresh : Holds n [] ⟨buf, 0⟩ := ⟨hbuf, rfl, rfl, hpos⟩
        have hless : (rest.drop (n - rows.row)).length < fuel := by
          rw [List.length_drop]
          omega
        obtain ⟨rows', hrest, hheld⟩ := ih hfresh hless hbuf rfl hpos
        have hsplit : pending ++ rest =
            (pending ++ rest.take (n - rows.row)) ++ rest.drop (n - rows.row) := by
          rw [List.append_assoc, List.take_append_drop]
        refine ⟨rows', ?_, ?_⟩
        · rw [feedRows, if_pos hfull]
          dsimp only
          rw [hcopy, ok_bind, hrun, ok_bind]
          dsimp only
          rw [hrest, ok_bind, hsplit, lines_append_of_length hpos hline]
          rfl
        · rw [hsplit, remainder_append_of_length hpos hline]
          exact hheld
      · have hlt : (pending ++ rest).length < n := by
          rw [List.length_append]
          omega
        have hcopy := memcpy_eq (by omega : rows.row + rest.length ≤ rows.buf.length)
          (Nat.le_refl rest.length)
        rw [List.take_length, hrows.start] at hcopy
        refine ⟨⟨pending ++ rest ++ rows.buf.drop (rows.row + rest.length),
          rows.row + rest.length⟩, ?_, ?_⟩
        · rw [feedRows, if_neg hfull, hcopy, lines_of_lt hlt]
          rfl
        · rw [remainder_of_lt hlt]
          have hboth : rows.row + rest.length = (pending ++ rest).length := by
            rw [List.length_append, hrow]
          refine ⟨?_, hboth, ?_, hlt⟩
          · rw [List.length_append, List.length_drop, ← hboth]
            omega
          · dsimp only
            rw [hboth, List.take_left]

theorem pngLine_eq {depth : Nat} {line : List UInt8} (h : depth = 16 → 2 ∣ line.length) :
    pngLine depth line = .ok (pngRowOf depth line) := by
  unfold pngLine pngRowOf
  by_cases hbits : depth = 1
  · subst hbits
    rfl
  · by_cases hsamples : depth = 16
    · rw [if_neg hbits, if_pos hsamples, if_neg hbits, if_pos hsamples]
      exact swapPairs_eq (h hsamples)
    · rw [if_neg hbits, if_neg hsamples, if_neg hbits, if_neg hsamples]

theorem jpegLine_eq {depth : Nat} {line : List UInt8} (h : depth = 16 → 2 ∣ line.length) :
    jpegLine depth line = .ok (jpegRowOf depth line) := by
  unfold jpegLine jpegRowOf
  split_ifs with hbits hsamples
  · rfl
  · exact highBytes_eq (h hsamples)
  · rfl

theorem length_pngRowOf {depth : Nat} {line : List UInt8} (h : depth = 16 → 2 ∣ line.length) :
    (pngRowOf depth line).length = line.length := by
  unfold pngRowOf
  split_ifs with hbits hsamples
  · rw [invertBits, List.length_map]
  · rw [length_exchanged, Nat.div_mul_cancel (h hsamples)]
  · rfl

end Rows

/-! ## A streamed frame -/

section Stream

variable {output : OutputFormat} {malloc : Nat → Bool} {parm : Parameters}

/-- The row of an encoder. -/
def rowOutput (output : OutputFormat) (depth : Nat) (line : List UInt8) : Output :=
  if output = .png then .pngRow (pngRowOf depth line) else .jpegRow (jpegRowOf depth line)

/-- The lines of what the frame has delivered are written, its rest waits in the buffer. -/
structure RowsWritten (output : OutputFormat) (parm : Parameters) (data : List UInt8) (st : Scan) :
    Prop where
  streamed : st.mustBuffer = false
  encoded : st.rawJpeg = false
  out : st.out = streamHeader output parm ++
    (lines parm.bytesPerLine data).map (rowOutput output parm.depth)
  rows : Holds parm.bytesPerLine (remainder parm.bytesPerLine data) st.rows

theorem RowsWritten.feed {data : List UInt8} {st : Scan} (h : RowsWritten output parm data st)
    (emit : List UInt8 → Except ScanFault (Output × List UInt8))
    (hemit : ∀ line, line.length = parm.bytesPerLine → ∃ buf,
      emit line = .ok (rowOutput output parm.depth line, buf) ∧ buf.length = parm.bytesPerLine)
    (chunk : List UInt8) :
    ∃ rows outputs, feedRows parm.bytesPerLine emit (chunk.length + 1) st.rows chunk =
        .ok (rows, outputs) ∧
      RowsWritten output parm (data ++ chunk) { st with rows, out := st.out ++ outputs } := by
  have hpos : 0 < parm.bytesPerLine := Nat.zero_lt_of_lt h.rows.short
  obtain ⟨rows, hrun, hheld⟩ := feedRows_spec hemit h.rows (Nat.lt_succ_self chunk.length)
  rw [← remainder_append hpos] at hheld
  refine ⟨rows, _, hrun, h.streamed, h.encoded, ?_, hheld⟩
  dsimp only
  rw [h.out, lines_append hpos data chunk, List.map_append, List.append_assoc]

theorem RowsWritten.readChunk (hrows : output = .png ∨ output.usesJpeg)
    (hsamples : parm.depth = 16 → 2 ∣ parm.bytesPerLine) {data : List UInt8} {st : Scan}
    (h : RowsWritten output parm data st) (chunk : List UInt8) :
    ∃ st', readChunk output malloc parm chunk st = .ok (st', none) ∧
      RowsWritten output parm (data ++ chunk) st' := by
  have hdvd : ∀ line : List UInt8, line.length = parm.bytesPerLine →
      parm.depth = 16 → 2 ∣ line.length := fun line hline hdepth => hline ▸ hsamples hdepth
  have hread : Scanimage.readChunk output malloc parm chunk st = streamChunk output parm chunk st :=
    if_neg (by rw [h.streamed]; exact Bool.false_ne_true)
  have hraw : ¬ st.rawJpeg = true := by
    rw [h.encoded]
    exact Bool.false_ne_true
  rw [hread, streamChunk, if_neg hraw]
  by_cases hpng : output = .png
  · obtain ⟨rows, outputs, hrun, hwritten⟩ := h.feed (emitPng parm.depth)
      (fun line hline => ⟨pngRowOf parm.depth line,
        by rw [emitPng, pngLine_eq (hdvd line hline), ok_bind, rowOutput, if_pos hpng],
        by rw [length_pngRowOf (hdvd line hline), hline]⟩) chunk
    refine ⟨_, ?_, hwritten⟩
    rw [if_pos hpng, hrun]
    rfl
  · obtain ⟨rows, outputs, hrun, hwritten⟩ := h.feed (emitJpeg parm.depth)
      (fun line hline => ⟨line,
        by rw [emitJpeg, jpegLine_eq (hdvd line hline), ok_bind, rowOutput, if_neg hpng],
        hline⟩) chunk
    refine ⟨_, ?_, hwritten⟩
    rw [if_neg hpng, if_pos (hrows.resolve_left hpng), hrun]
    rfl

/-- What each read leads from one stream to the next, all of them lead from its start to its end. -/
theorem readChunks_invariant {I : List UInt8 → Scan → Prop}
    (hstep : ∀ data chunk st, I data st → ∃ st', readChunk output malloc parm chunk st =
      .ok (st', none) ∧ I (data ++ chunk) st')
    (reads : List (List UInt8)) {data : List UInt8} {st : Scan} (h : I data st) :
    ∃ st', readChunks output malloc parm reads st = .ok (st', none) ∧
      I (data ++ reads.flatten) st' := by
  induction reads generalizing data st with
  | nil =>
      refine ⟨st, rfl, ?_⟩
      rwa [List.flatten_nil, List.append_nil]
  | cons chunk reads ih =>
      obtain ⟨st₁, hread, h₁⟩ := hstep data chunk st h
      obtain ⟨st₂, hrest, h₂⟩ := ih h₁
      refine ⟨st₂, ?_, ?_⟩
      · rw [readChunks, hread, ok_bind]
        exact hrest
      · rwa [List.flatten_cons, ← List.append_assoc]

/-- Complete samples are written with their bytes exchanged, half of one is kept. -/
structure SamplesWritten (parm : Parameters) (data : List UInt8) (st : Scan) : Prop where
  streamed : st.mustBuffer = false
  encoded : st.rawJpeg = false
  out : written st.out = exchanged data
  hangOver : st.hangOver.toList = remainder 2 data

theorem written_append (out out' : List Output) : written (out ++ out') = written out ++ written out' :=
  List.flatMap_append

theorem exchanged_of_lt {data : List UInt8} (h : data.length < 2) : exchanged data = [] := by
  rw [exchanged, lines_of_lt h]
  rfl

/-- Behind samples that are exchanged, half of one is cut off. -/
theorem cutHalf_spec (pre rest : List UInt8) :
    let chunk := pre ++ swapSamples rest
    let cut := if (chunk.length - pre.length) % 2 ≠ 0 then (chunk.getLast?, chunk.dropLast)
      else (none, chunk)
    cut.1.toList = remainder 2 rest ∧ cut.2 = pre ++ exchanged rest := by
  have hlength : (pre ++ swapSamples rest).length - pre.length = rest.length / 2 * 2 +
      (remainder 2 rest).length := by
    rw [List.length_append, Nat.add_sub_cancel_left, swapSamples_eq, List.length_append,
      length_exchanged]
  have hmod : (rest.length / 2 * 2 + (remainder 2 rest).length) % 2 = (remainder 2 rest).length := by
    rw [length_remainder]
    omega
  intro chunk cut
  have hodd : (chunk.length - pre.length) % 2 = (remainder 2 rest).length := by
    rw [← hmod, ← hlength]
  have hcut : cut = if (remainder 2 rest).length ≠ 0 then (chunk.getLast?, chunk.dropLast)
      else (none, chunk) := by rw [← hodd]
  have hchunk : chunk = pre ++ exchanged rest ++ remainder 2 rest := by
    rw [List.append_assoc, ← swapSamples_eq]
  rw [hcut]
  by_cases hnone : (remainder 2 rest).length = 0
  · have hnil := List.eq_nil_of_length_eq_zero hnone
    rw [if_neg (not_not.mpr hnone), hchunk, hnil, List.append_nil]
    exact ⟨rfl, rfl⟩
  · have hlt := length_remainder 2 rest
    obtain ⟨byte, hbyte⟩ : ∃ byte, remainder 2 rest = [byte] := List.length_eq_one_iff.mp (by omega)
    rw [if_pos hnone, hchunk, hbyte, List.getLast?_concat, List.dropLast_concat]
    exact ⟨rfl, rfl⟩

/-- The bytes of one read, behind the one that was kept. -/
theorem swapChunk_spec {hangOver : Option UInt8} {data : List UInt8}
    (h : hangOver.toList = remainder 2 data) (chunk : List UInt8) :
    written (swapChunk hangOver chunk).2 = exchanged (remainder 2 data ++ chunk) ∧
      (swapChunk hangOver chunk).1.toList = remainder 2 (data ++ chunk) := by
  have htwo : 0 < 2 := by decide
  rw [remainder_append htwo, ← h]
  cases hangOver with
  | none =>
      obtain ⟨hkept, hcut⟩ := cutHalf_spec [] chunk
      rw [List.nil_append, List.length_nil] at hkept hcut
      unfold swapChunk
      simp only [List.take_zero, List.drop_zero, List.nil_append, Option.toList_none] at hkept hcut ⊢
      split_ifs at hkept hcut ⊢ with hodd
      · exact ⟨by simpa [written] using hcut, hkept⟩
      · exact ⟨by simpa [written] using hcut, hkept⟩
  | some byte =>
      cases chunk with
      | nil =>
          have hlt : ((some byte).toList ++ []).length < 2 := Nat.one_lt_two
          rw [exchanged_of_lt hlt, remainder_of_lt hlt]
          exact ⟨rfl, rfl⟩
      | cons first rest =>
          obtain ⟨hkept, hcut⟩ := cutHalf_spec [byte] rest
          have hsplit : (some byte).toList ++ first :: rest = [byte, first] ++ rest := rfl
          rw [hsplit, remainder_append_of_length htwo rfl, List.cons_append, List.cons_append,
            List.nil_append, exchanged_cons]
          unfold swapChunk
          simp only [List.take_succ_cons, List.take_zero, List.drop_succ_cons, List.drop_zero,
            List.length_singleton] at hkept hcut ⊢
          split_ifs at hkept hcut ⊢ with hodd
          · exact ⟨by simpa [written] using hcut, hkept⟩
          · exact ⟨by simpa [written] using hcut, hkept⟩

theorem SamplesWritten.readChunk (houtput : output = .pnm) (hdepth : parm.depth = 16)
    {data : List UInt8} {st : Scan} (h : SamplesWritten parm data st) (chunk : List UInt8) :
    ∃ st', readChunk output malloc parm chunk st = .ok (st', none) ∧
      SamplesWritten parm (data ++ chunk) st' := by
  have hread : Scanimage.readChunk output malloc parm chunk st = streamChunk output parm chunk st :=
    if_neg (by rw [h.streamed]; exact Bool.false_ne_true)
  have hraw : ¬ st.rawJpeg = true := by
    rw [h.encoded]
    exact Bool.false_ne_true
  obtain ⟨hwritten, hkept⟩ := swapChunk_spec h.hangOver chunk
  refine ⟨{ st with
    hangOver := (swapChunk st.hangOver chunk).1
    out := st.out ++ (swapChunk st.hangOver chunk).2 }, ?_, h.streamed, h.encoded, ?_, hkept⟩
  · subst houtput
    have hswap : ¬ (OutputFormat.pnm = .tiff ∨ parm.depth ≠ 16) := by
      rw [hdepth]
      decide
    rw [hread, streamChunk, if_neg hraw, if_neg (by decide), if_neg (by decide), if_neg hswap]
  · dsimp only
    rw [written_append, h.out, hwritten, ← exchanged_append]

end Stream

/-! ## Whole scans -/

namespace StreamedScan

variable (s : StreamedScan) (output : OutputFormat) (malloc : Nat → Bool)

/-- The state behind the header. -/
def opened : Scan where
  image := { numChannels := 1 }
  rows := if output = .png ∨ output.usesJpeg then ⟨List.replicate s.parm.bytesPerLine 0, 0⟩ else {}
  out := streamHeader output s.parm

theorem openFirst_eq : openFirst output malloc s.parm {} = .ok (s.opened output, none) := by
  have hchoose : chooseFormat output s.parm {} =
      .ok ({ image := { numChannels := 1 }, out := streamHeader output s.parm }, none) := by
    rw [chooseFormat_plain s.format s.depth, if_neg (Int.not_lt.mpr s.known)]
    rfl
  have hstreamed : ¬ (s.opened output).mustBuffer = true := Bool.false_ne_true
  rw [openFirst, hchoose, ok_bind]
  dsimp only
  have hrows : (if output = .png ∨ output.usesJpeg = true then
      { image := { numChannels := 1 }, rows := ⟨List.replicate s.parm.bytesPerLine 0, 0⟩,
        out := streamHeader output s.parm : Scan }
      else { image := { numChannels := 1 }, out := streamHeader output s.parm }) =
      s.opened output := by
    unfold opened
    split_ifs <;> rfl
  rw [hrows, if_neg hstreamed]

/-- The frame is read to its end, and the encoder finishes and is destroyed. -/
theorem scanIt_eq {st : Scan}
    (hread : readChunks output malloc s.parm s.reads (s.opened output) = .ok (st, none))
    (hstreamed : st.mustBuffer = false) (hencoded : st.rawJpeg = false) :
    scanIt output malloc [s.frame] = .ok (st.out ++
      (if output = .png then [Output.pngEnd, Output.pngDestroy]
       else if output.usesJpeg then [Output.jpegFinish, Output.jpegDestroy] else []), .finished) := by
  have hframe : scanFrame output malloc true s.frame {} = .ok (st, none) :=
    scanFrame_first rfl (s.openFirst_eq output malloc) hread
  have hframes : scanFrames output malloc true [s.frame] {} = .ok (st, .inr s.parm) := by
    rw [scanFrames, hframe, ok_bind]
    exact if_pos s.last
  rw [scanIt, hframes, ok_bind]
  dsimp only
  have hbuffer : ¬ st.mustBuffer = true := by
    rw [hstreamed]
    exact Bool.false_ne_true
  rw [if_neg hbuffer, ok_bind, cleanup]
  dsimp only
  rw [hencoded, List.append_assoc]
  cases output <;> rfl

end StreamedScan

/-! ## What the encoders get -/

section Rows

variable {output : OutputFormat} {parm : Parameters} {depth : Nat}

theorem pngRows_append (out out' : List Output) :
    pngRows (out ++ out') = pngRows out ++ pngRows out' := List.filterMap_append

theorem jpegRows_append (out out' : List Output) :
    jpegRows (out ++ out') = jpegRows out ++ jpegRows out' := List.filterMap_append

theorem pngRows_map (rows : List (List UInt8)) :
    pngRows (rows.map (rowOutput .png depth)) = rows.map (pngRowOf depth) := by
  induction rows with
  | nil => rfl
  | cons row rows ih =>
      rw [List.map_cons, List.map_cons, ← ih]
      rfl

theorem jpegRows_map (h : output ≠ .png) (rows : List (List UInt8)) :
    jpegRows (rows.map (rowOutput output depth)) = rows.map (jpegRowOf depth) := by
  induction rows with
  | nil => rfl
  | cons row rows ih =>
      have hrow : rowOutput output depth row = .jpegRow (jpegRowOf depth row) := if_neg h
      rw [List.map_cons, List.map_cons, ← ih, hrow]
      rfl

theorem jpegRows_streamHeader : jpegRows (streamHeader output parm) = [] := by
  cases output <;> rfl

theorem written_streamHeader : written (streamHeader output parm) = [] := by
  cases output <;> rfl

end Rows

/-! ## Files without an encoder -/

/-- Neither a buffer nor a JPEG file. -/
structure Unencoded (st : Scan) : Prop where
  streamed : st.mustBuffer = false
  encoded : st.rawJpeg = false

theorem Unencoded.readChunk {output : OutputFormat} {malloc : Nat → Bool} {parm : Parameters}
    {st : Scan} (hrows : ¬ (output = .png ∨ output.usesJpeg = true)) (h : Unencoded st)
    (chunk : List UInt8) :
    ∃ st', readChunk output malloc parm chunk st = .ok (st', none) ∧ Unencoded st' := by
  have hstreamed : ¬ st.mustBuffer = true := by
    rw [h.streamed]
    exact Bool.false_ne_true
  have hraw : ¬ st.rawJpeg = true := by
    rw [h.encoded]
    exact Bool.false_ne_true
  obtain ⟨hpng, hjpeg⟩ := not_or.mp hrows
  rw [Scanimage.readChunk, if_neg hstreamed, streamChunk, if_neg hraw, if_neg hpng, if_neg hjpeg]
  split_ifs
  · exact ⟨_, rfl, h.streamed, h.encoded⟩
  · exact ⟨_, rfl, h.streamed, h.encoded⟩

/-! ## Whole scans with their lines -/

namespace StreamedScan

variable (s : StreamedScan) (output : OutputFormat) (malloc : Nat → Bool)

/-- With an encoder. -/
theorem scanIt_rows (hrows : output = .png ∨ output.usesJpeg = true) :
    ∃ tail, scanIt output malloc [s.frame] = .ok (streamHeader output s.parm ++
      (lines s.parm.bytesPerLine s.data).map (rowOutput output s.parm.depth) ++ tail, .finished) ∧
      pngRows tail = [] ∧ jpegRows tail = [] := by
  have hopened : RowsWritten output s.parm [] (s.opened output) := by
    refine ⟨rfl, rfl, ?_, ?_⟩
    · rw [lines_of_lt s.nonempty, List.map_nil, List.append_nil]
      rfl
    · rw [remainder_of_lt s.nonempty, StreamedScan.opened, if_pos hrows]
      exact ⟨List.length_replicate, rfl, rfl, s.nonempty⟩
  obtain ⟨st, hread, hwritten⟩ := @readChunks_invariant output malloc s.parm
    (RowsWritten output s.parm) (fun _ chunk _ h => h.readChunk hrows s.samples chunk)
    s.reads [] _ hopened
  have hrun := s.scanIt_eq output malloc hread hwritten.streamed hwritten.encoded
  rw [hwritten.out] at hrun
  exact ⟨_, hrun, by cases output <;> rfl, by cases output <;> rfl⟩

/-- With 16-bit samples in a PNM file. -/
theorem scanIt_samples (hdepth : s.parm.depth = 16) :
    ∃ out, scanIt .pnm malloc [s.frame] = .ok (out, .finished) ∧ written out = exchanged s.data := by
  have hopened : SamplesWritten s.parm [] (s.opened .pnm) := by
    refine ⟨rfl, rfl, ?_, ?_⟩
    · rw [exchanged_of_lt (by decide)]
      exact (written_streamHeader : written (streamHeader .pnm s.parm) = [])
    · rw [remainder_of_lt (by decide)]
      rfl
  obtain ⟨st, hread, hwritten⟩ := @readChunks_invariant .pnm malloc s.parm
    (SamplesWritten s.parm) (fun _ chunk _ h => h.readChunk rfl hdepth chunk) s.reads [] _ hopened
  refine ⟨_, s.scanIt_eq .pnm malloc hread hwritten.streamed hwritten.encoded, ?_⟩
  rw [written_append, hwritten.out]
  exact List.append_nil _

/-- With neither. -/
theorem scanIt_finished (hrows : ¬ (output = .png ∨ output.usesJpeg = true)) :
    ∃ out, scanIt output malloc [s.frame] = .ok (out, .finished) := by
  have hopened : Unencoded (s.opened output) := ⟨rfl, rfl⟩
  obtain ⟨st, hread, hst⟩ := @readChunks_invariant output malloc s.parm (fun _ => Unencoded)
    (fun _ chunk _ h => h.readChunk hrows chunk) s.reads [] _ hopened
  exact ⟨_, s.scanIt_eq output malloc hread hst.streamed hst.encoded⟩

end StreamedScan

/-- Two lines of two 16-bit samples in reads of three, none and five bytes. -/
example : scanIt .png (fun _ => true) [{
    parm := { format := .gray, bytesPerLine := 4, pixelsPerLine := 2, lines := 2, depth := 16 }
    reads := [[1, 2, 3], [], [4, 5, 6, 7, 8]] }] =
    .ok ([.pngCreate .gray 2 2 16, .pngRow [2, 1, 4, 3], .pngRow [6, 5, 8, 7], .pngEnd, .pngDestroy],
      .finished) := by decide

end SaneBackends.Scanimage
