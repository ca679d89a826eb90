import SaneBackends.Scanimage.FrameAssembly
/-!
# Images that are buffered

Three frames of one colour each, or one frame of unknown height, become a PNM file whose bytes are
those of the frames one after another. The size of the buffer is computed as an `int`, and this is
the limit.
-/

namespace SaneBackends.Scanimage

open SaneBackends.Lib

/-- The first `n` bytes of the streams, one of each in turn. -/
def interleave (streams : List (List UInt8)) (n : Nat) : List UInt8 :=
  (List.range n).flatMap fun k => streams.map fun stream => stream.getD k 0

/-- A frame of such an image: its format and what each read delivers. -/
abbrev Channel := FrameType × List (List UInt8)

/-- Frames in the three colours in any order, or one frame whose height is not known. -/
structure BufferedScan where
  bytesPerLine : Nat
  pixelsPerLine : Nat
  lines : Int
  frameBytes : Nat
  channels : List Channel
  nonempty : 0 < bytesPerLine
  order : (channels.map Prod.fst).Perm [.red, .green, .blue] ∨
    lines < 0 ∧ (channels.map Prod.fst = [.gray] ∨ channels.map Prod.fst = [.rgb])
  equal : ∀ channel ∈ channels, channel.2.flatten.length = frameBytes

/-- The streams by offset, those of the channels and else those given. -/
def streamsOf (channels : List Channel) (streams : Nat → List UInt8) (offset : Nat) : List UInt8 :=
  ((channels.find? fun channel => channel.1.offset = offset).map fun channel =>
    channel.2.flatten).getD (streams offset)

namespace BufferedScan

variable (s : BufferedScan)

def parm (format : FrameType) (lastFrame : Bool) : Parameters where
  format
  lastFrame
  bytesPerLine := s.bytesPerLine
  pixelsPerLine := s.pixelsPerLine
  lines := s.lines

def frameOf (channel : Channel) (lastFrame : Bool) : Frame where
  parm := s.parm channel.1 lastFrame
  reads := channel.2

def framesOf : List Channel → List Frame
  | [] => []
  | channel :: channels => s.frameOf channel channels.isEmpty :: framesOf channels

def frames : List Frame := s.framesOf s.channels

/-- The complete lines. -/
def height : Nat := s.frameBytes / s.bytesPerLine

/-- Red, green and blue, or the only stream. -/
def streams : List (List UInt8) :=
  (List.range s.channels.length).map (streamsOf s.channels fun _ => [])

def body : List UInt8 := interleave s.streams (s.height * s.bytesPerLine)

def lastFormat (channels : List Channel) : FrameType := (channels.getLast?.map Prod.fst).getD .gray

/-- The file. -/
def file : List Output :=
  [.pnmHeader (lastFormat s.channels) s.pixelsPerLine s.height 8, .bytes s.body]

/-- The lines that there is room for at first. -/
def startLines : Nat := if s.lines < 0 then 256 else s.lines.toNat + 1

/-- The bytes of the buffer at last. -/
def bufferSize : Nat :=
  bufferLines s.startLines s.height * s.bytesPerLine * s.channels.length

end BufferedScan

/-! ## Streams -/

section Streams

variable {channels : List Channel} {channel : Channel} {streams : Nat → List UInt8}

theorem interleave_succ (streams : List (List UInt8)) (n : Nat) :
    interleave streams (n + 1) =
      interleave streams n ++ streams.map fun stream => stream.getD n 0 := by
  rw [interleave, List.range_succ, List.flatMap_append]
  exact congrArg _ (List.append_nil _)

/-- The cells from the first on. -/
theorem Interleaved.map_range {C n : Nat} {data : Cells UInt8} (h : Interleaved C streams data)
    (hn : ∀ c < C, n ≤ (streams c).length) :
    (List.range (n * C)).map data.cell = interleave ((List.range C).map streams) n := by
  induction n with
  | zero =>
      rw [Nat.zero_mul]
      rfl
  | succ n ih =>
      rw [Nat.succ_mul, List.range_add, List.map_append, interleave_succ,
        ih fun c hc => Nat.le_of_succ_le (hn c hc), List.map_map, List.map_map]
      congr 1
      refine List.map_congr_left fun c hc => ?_
      have hlt := List.mem_range.mp hc
      have hcell := h c hlt n (hn c hlt)
      rw [Nat.mul_comm, Nat.add_comm] at hcell
      exact hcell

theorem streamsOf_nil (streams : Nat → List UInt8) : streamsOf [] streams = streams := rfl

/-- A channel more, behind those before it. -/
theorem streamsOf_cons (hnew : channel.1.offset ∉ channels.map fun channel => channel.1.offset) :
    streamsOf (channel :: channels) streams =
      streamsOf channels (Function.update streams channel.1.offset channel.2.flatten) := by
  funext c
  rw [streamsOf, streamsOf, List.find?_cons]
  by_cases hc : channel.1.offset = c
  · subst hc
    have hnone : channels.find? (fun other => decide (other.1.offset = channel.1.offset)) = none := by
      rw [List.find?_eq_none]
      intro other hother heq
      exact hnew (List.mem_map.mpr ⟨other, hother, of_decide_eq_true heq⟩)
    rw [hnone, decide_eq_true rfl, Option.map_none, Option.getD_none, Function.update_self]
    rfl
  · rw [decide_eq_false hc, Function.update_of_ne (Ne.symm hc)]

theorem streamsOf_mem {c : Nat} (h : ∃ channel ∈ channels, channel.1.offset = c) :
    ∃ channel ∈ channels, streamsOf channels streams c = channel.2.flatten := by
  obtain ⟨channel, hmem, hoffset⟩ := h
  have hsome : (channels.find? fun channel => decide (channel.1.offset = c)).isSome = true :=
    List.find?_isSome.mpr ⟨channel, hmem, decide_eq_true hoffset⟩
  obtain ⟨found, hfound⟩ := Option.isSome_iff_exists.mp hsome
  refine ⟨found, List.mem_of_find?_eq_some hfound, ?_⟩
  rw [streamsOf, hfound]
  rfl

end Streams

/-! ## Frames -/

namespace BufferedScan

variable (s : BufferedScan)

/-- A channel that this scan can have. -/
structure IsChannel (channel : Channel) : Prop where
  stride : channel.1.stride = s.channels.length
  offset : channel.1.offset < s.channels.length
  kind : channel.1.isColorFrame = true ∨ (channel.1 = .gray ∨ channel.1 = .rgb) ∧ s.lines < 0
  length : channel.2.flatten.length = s.frameBytes

variable {s}

theorem length_channels {formats : List FrameType} (h : (s.channels.map Prod.fst).Perm formats) :
    s.channels.length = formats.length := by
  rw [← h.length_eq, List.length_map]

theorem length_single {format : FrameType} (h : s.channels.map Prod.fst = [format]) :
    s.channels.length = 1 := by
  have hperm : (s.channels.map Prod.fst).Perm [format] := .of_eq h
  exact length_channels hperm

variable (s)

theorem isChannel {channel : Channel} (hmem : channel ∈ s.channels) : s.IsChannel channel := by
  have hformat : channel.1 ∈ s.channels.map Prod.fst := List.mem_map_of_mem hmem
  have hequal := s.equal channel hmem
  obtain hcolor | ⟨hlines, hgray | hrgb⟩ := s.order
  · have hlength := length_channels hcolor
    have hcases : channel.1 = .red ∨ channel.1 = .green ∨ channel.1 = .blue := by
      simpa using (hcolor.mem_iff).mp hformat
    obtain h | h | h := hcases <;>
      exact ⟨by rw [h, hlength]; rfl, by rw [h, hlength]; decide, .inl (by rw [h]; rfl), hequal⟩
  · have hlength := length_single hgray
    have h : channel.1 = .gray := by simpa [hgray] using hformat
    exact ⟨by rw [h, hlength]; rfl, by rw [h, hlength]; decide, .inr ⟨.inl h, hlines⟩, hequal⟩
  · have hlength := length_single hrgb
    have h : channel.1 = .rgb := by simpa [hrgb] using hformat
    exact ⟨by rw [h, hlength]; rfl, by rw [h, hlength]; decide, .inr ⟨.inr h, hlines⟩, hequal⟩

/-- Each offset is that of one channel. -/
theorem offsets : (s.channels.map fun channel => channel.1.offset).Perm
    (List.range s.channels.length) := by
  have hmap : (s.channels.map fun channel => channel.1.offset) =
      (s.channels.map Prod.fst).map FrameType.offset := by
    rw [List.map_map]
    rfl
  rw [hmap]
  obtain hcolor | ⟨-, hgray | hrgb⟩ := s.order
  · rw [length_channels hcolor]
    exact hcolor.map FrameType.offset
  · rw [hgray, length_single hgray]
    rfl
  · rw [hrgb, length_single hrgb]
    rfl

end BufferedScan

/-! ## Reading a channel -/

section Chunks

variable {start W C peak b o : Nat} {streams : Nat → List UInt8} {st : Scan} {parm : Parameters}

/-- The state behind `b` bytes of the frame with this offset. -/
structure Assembling (start W C peak b o : Nat) (streams : Nat → List UInt8) (st : Scan) :
    Prop where
  buffered : st.mustBuffer = true
  out : st.out = []
  offset : st.offset = o + C * b
  filled : Filled start W C peak b streams st.image

theorem Assembling.readChunk (h : Assembling start W C peak b o streams st) (hW : 0 < W)
    (ho : o < C) (hb : (streams o).length = b) (hstride : parm.format.stride = C)
    (hformat : parm.format.isColorFrame = true ∨ parm.format = .gray ∨ parm.format = .rgb)
    (chunk : List UInt8) :
    SucceedsIff (readChunk .pnm (fun _ => true) parm chunk st)
      (bufferLines start (max peak ((b + chunk.length) / W)) * W * C < 2 ^ 31)
      (fun r => r.2 = none ∧ Assembling start W C (max peak ((b + chunk.length) / W))
        (b + chunk.length) o (Function.update streams o (streams o ++ chunk)) r.1) := by
  have hC : 0 < C := Nat.zero_lt_of_lt ho
  have himage : { st.image with numChannels := (C : Int) } = st.image := by
    rw [← h.filled.numChannels]
  rw [Scanimage.readChunk, if_pos h.buffered, bufferChunk_eq hformat, hstride, himage, h.offset]
  refine (h.filled.bufferBytes hW hC ho hb chunk).bind id fun hfits _ hnext => ?_
  obtain ⟨image, rfl, hfilled⟩ := hnext
  have hbelow : b + chunk.length <
      bufferLines start (max peak ((b + chunk.length) / W)) * W :=
    (Nat.div_lt_iff_lt_mul hW).mp
      (Nat.lt_of_le_of_lt hfilled.reached (lt_bufferLines start _))
  have hoffset : o + C * b + C * chunk.length < 2 ^ 31 := by
    calc o + C * b + C * chunk.length < C + C * b + C * chunk.length := by omega
      _ = (b + chunk.length + 1) * C := by ring
      _ ≤ bufferLines start (max peak ((b + chunk.length) / W)) * W * C :=
        Nat.mul_le_mul_right C hbelow
      _ < 2 ^ 31 := hfits
  have hint : int (((o + C * b : Nat) : Int) + (C : Int) * chunk.length) =
      .ok ((o + C * b + C * chunk.length : Nat) : Int) := by
    rw [← int_eq hoffset]
    push_cast
    rfl
  rw [afterBytes, h.offset, hint, ok_bind]
  refine .ok ⟨rfl, h.buffered, h.out, ?_, hfilled⟩ hfits
  change (((o + C * b + C * chunk.length : Nat) : Int)).toNat = _
  rw [Int.toNat_natCast, Nat.mul_add, Nat.add_assoc]

theorem Assembling.readChunks (h : Assembling start W C peak b o streams st) (hW : 0 < W)
    (ho : o < C) (hb : (streams o).length = b) (hstride : parm.format.stride = C)
    (hformat : parm.format.isColorFrame = true ∨ parm.format = .gray ∨ parm.format = .rgb)
    (reads : List (List UInt8)) :
    SucceedsIff (readChunks .pnm (fun _ => true) parm reads st)
      (bufferLines start (max peak ((b + reads.flatten.length) / W)) * W * C < 2 ^ 31)
      (fun r => r.2 = none ∧ Assembling start W C (max peak ((b + reads.flatten.length) / W))
        (b + reads.flatten.length) o (Function.update streams o (streams o ++ reads.flatten)) r.1) := by
  induction reads generalizing peak b streams st with
  | nil =>
      rw [List.flatten_nil, List.length_nil, Nat.add_zero, Nat.max_eq_left h.filled.reached,
        List.append_nil, Function.update_eq_self]
      exact .ok ⟨rfl, h⟩ h.filled.fits
  | cons chunk reads ih =>
      have hcount : b + (chunk :: reads).flatten.length = b + chunk.length + reads.flatten.length := by
        rw [List.flatten_cons, List.length_append, Nat.add_assoc]
      have hpeak : max peak ((b + (chunk :: reads).flatten.length) / W) =
          max (max peak ((b + chunk.length) / W)) ((b + chunk.length + reads.flatten.length) / W) := by
        rw [hcount, Nat.max_assoc, Nat.max_eq_right (Nat.div_le_div_right (Nat.le_add_right ..))]
      rw [hpeak, Scanimage.readChunks]
      refine (h.readChunk hW ho hb hstride hformat chunk).bind
        (bufferSize_mono (Nat.le_max_left ..)) fun _ next hnext => ?_
      obtain ⟨next, exit⟩ := next
      obtain ⟨rfl, hassembling⟩ := hnext
      have hlength : (Function.update streams o (streams o ++ chunk) o).length = b + chunk.length := by
        rw [Function.update_self, List.length_append, hb]
      have hrest := ih hassembling hlength
      rw [Function.update_self, Function.update_idem, List.append_assoc] at hrest
      rw [hcount]
      exact hrest

end Chunks

/-! ## Whole frames -/

namespace BufferedScan

variable (s : BufferedScan) {channel : Channel} {channels : List Channel} {peak b o : Nat}
  {streams : Nat → List UInt8} {st st' : Scan}

/-- The state between reads, `b` bytes behind the start of a frame. -/
abbrev At (peak b o : Nat) (streams : Nat → List UInt8) (st : Scan) : Prop :=
  Assembling s.startLines s.bytesPerLine s.channels.length peak b o streams st

/-- A buffer for so many lines has a size that is an `int`. -/
abbrev FitsFor (complete : Nat) : Prop :=
  bufferLines s.startLines complete * s.bytesPerLine * s.channels.length < 2 ^ 31

theorem startLines_pos : 0 < s.startLines := by
  unfold startLines
  split_ifs <;> omega

theorem IsChannel.format (h : s.IsChannel channel) :
    channel.1.isColorFrame = true ∨ channel.1 = .gray ∨ channel.1 = .rgb :=
  h.kind.imp_right And.left

theorem IsChannel.chooseFormat (h : s.IsChannel channel) (lastFrame : Bool) :
    chooseFormat .pnm (s.parm channel.1 lastFrame) {} = .ok ({
      mustBuffer := true
      offset := channel.1.offset
      image := { numChannels := s.channels.length } }, none) := by
  rw [← h.stride]
  obtain hcolor | ⟨hplain, hlines⟩ := h.kind
  · rw [chooseFormat_color hcolor rfl]
    cases hcase : channel.1 with
    | red | green | blue =>
        dsimp only [parm]
        rfl
    | _ => rw [hcase] at hcolor; cases hcolor
  · have hunknown : (s.parm channel.1 lastFrame).lines < 0 := hlines
    rw [chooseFormat_plain hplain (.inl rfl), if_pos hunknown]
    obtain hgray | hrgb := hplain
    · rw [hgray]
      rfl
    · rw [hrgb]
      rfl

/-- Before the first line there is no buffer. -/
theorem advance_succeeds {height : Int} (hheight : height + stripHeight = s.startLines)
    (hC : 0 < s.channels.length) :
    SucceedsIff (advance (fun _ => true) {
      width := s.bytesPerLine
      height
      x := s.bytesPerLine - 1
      y := -1
      numChannels := s.channels.length }) (s.FitsFor 0)
      (Filled s.startLines s.bytesPerLine s.channels.length 0 0 fun _ => []) := by
  have hstart : bufferLines s.startLines 0 = s.startLines := bufferLines_zero s.startLines_pos
  have hsize : bufferLines s.startLines 0 * s.bytesPerLine * s.channels.length =
      s.startLines * s.bytesPerLine * s.channels.length := by rw [hstart]
  rw [advance]
  dsimp only
  rw [if_pos (by omega), if_pos (.inr rfl), FitsFor, hsize]
  have hold : (⟨none, s.bytesPerLine, height, 0, -1 + 1, s.channels.length⟩ : Image).oldSize =
      .ok 0 := rfl
  refine (growImage_succeeds hold hheight rfl rfl s.nonempty hC).conseq fun hfits next hnext => ?_
  subst hnext
  have hzero : (0 : Int) = (0 % s.bytesPerLine : Nat) := by
    rw [Nat.zero_mod]
    rfl
  have hline : (-1 + 1 : Int) = (0 / s.bytesPerLine : Nat) := by
    rw [Nat.zero_div]
    rfl
  exact ⟨rfl, congrArg Nat.cast hstart.symm, hzero, hline, rfl,
    ⟨_, rfl, hsize.symm, fun c _ k hk => absurd hk (Nat.not_lt_zero k)⟩, fun c _ => Nat.zero_le _,
    Nat.le_of_eq (Nat.zero_div _), hsize ▸ hfits⟩

/-- The buffer has room for a line more than announced. -/
theorem IsChannel.openFirst (h : s.IsChannel channel) (lastFrame : Bool) :
    SucceedsIff (openFirst .pnm (fun _ => true) (s.parm channel.1 lastFrame) {}) (s.FitsFor 0)
      (fun r => r.2 = none ∧ s.At 0 0 channel.1.offset (fun _ => []) r.1) := by
  have hC : 0 < s.channels.length := Nat.zero_lt_of_lt h.offset
  have hplain : ¬ (OutputFormat.pnm = .png ∨ OutputFormat.pnm.usesJpeg = true) := by decide
  have hopened : ∀ height : Int, height + stripHeight = s.startLines →
      SucceedsIff (do
        let image ← advance (fun _ => true) {
          width := s.bytesPerLine
          height
          x := s.bytesPerLine - 1
          y := -1
          numChannels := s.channels.length }
        .ok (({
          mustBuffer := true
          offset := channel.1.offset
          image } : Scan), if image.data.isSome then none else some Exit.noMemory)) (s.FitsFor 0)
        (fun r => r.2 = none ∧ s.At 0 0 channel.1.offset (fun _ => []) r.1) := by
    intro height hheight
    refine (s.advance_succeeds hheight hC).bind id fun hfits image hfilled => ?_
    obtain ⟨data, hdata, -, -⟩ := hfilled.data
    refine .ok ⟨if_pos ?_, rfl, rfl, ?_, hfilled⟩ hfits
    · rw [hdata]
      rfl
    · rw [Nat.mul_zero, Nat.add_zero]
  rw [Scanimage.openFirst, h.chooseFormat s lastFrame, ok_bind]
  dsimp only
  rw [if_neg hplain, if_pos rfl]
  by_cases hlines : 0 ≤ s.lines
  · have hstart : s.startLines = s.lines.toNat + 1 := if_neg (Int.not_lt.mpr hlines)
    have hparm : 0 ≤ (s.parm channel.1 lastFrame).lines := hlines
    have hheight : s.lines - stripHeight + 1 + stripHeight = s.startLines := by omega
    rw [if_pos hparm]
    by_cases hint : s.lines - stripHeight + 1 < 2 ^ 31
    · have hrun : int ((s.parm channel.1 lastFrame).lines - stripHeight + 1) =
          .ok (s.lines - stripHeight + 1) := if_pos ⟨by unfold stripHeight; omega, hint⟩
      rw [hrun]
      exact hopened _ hheight
    · have hrun : int ((s.parm channel.1 lastFrame).lines - stripHeight + 1) = .error .overflow :=
        if_neg fun h => hint h.2
      rw [hrun]
      refine .error _ fun hfits => ?_
      have hle : s.startLines ≤ bufferLines s.startLines 0 * s.bytesPerLine * s.channels.length := by
        rw [bufferLines_zero s.startLines_pos]
        exact Nat.le_trans (Nat.le_mul_of_pos_right _ s.nonempty) (Nat.le_mul_of_pos_right _ hC)
      unfold stripHeight at hint
      have hlt := Nat.lt_of_le_of_lt hle hfits
      omega
  · have hstart : s.startLines = 256 := if_pos (Int.not_le.mp hlines)
    have hparm : ¬ 0 ≤ (s.parm channel.1 lastFrame).lines := hlines
    rw [if_neg hparm]
    refine hopened 0 ?_
    rw [hstart]
    rfl

/-- The reads of a frame. -/
theorem IsChannel.readChunks (h : s.IsChannel channel) (lastFrame : Bool)
    (hat : s.At peak 0 channel.1.offset streams st) (hempty : streams channel.1.offset = [])
    (hpeak : peak ≤ s.height) :
    SucceedsIff (readChunks .pnm (fun _ => true) (s.parm channel.1 lastFrame) channel.2 st)
      (s.FitsFor s.height)
      (fun r => r.2 = none ∧ s.At s.height s.frameBytes channel.1.offset
        (Function.update streams channel.1.offset channel.2.flatten) r.1) := by
  have hlength : (streams channel.1.offset).length = 0 := by rw [hempty, List.length_nil]
  have hstride : (s.parm channel.1 lastFrame).format.stride = s.channels.length :=
    h.stride
  have hread := Assembling.readChunks hat s.nonempty h.offset hlength hstride (h.format s) channel.2
  rw [Nat.zero_add, h.length, hempty, List.nil_append] at hread
  have hmax : max peak (s.frameBytes / s.bytesPerLine) = s.height := Nat.max_eq_right hpeak
  rwa [hmax] at hread

theorem IsChannel.firstFrame (h : s.IsChannel channel) (lastFrame : Bool) :
    SucceedsIff (scanFrame .pnm (fun _ => true) true (s.frameOf channel lastFrame) {})
      (s.FitsFor s.height)
      (fun r => r.2 = none ∧ s.At s.height s.frameBytes channel.1.offset
        (Function.update (fun _ => []) channel.1.offset channel.2.flatten) r.1) := by
  rw [scanFrame, if_neg (fun h => h.1 rfl), if_neg (fun h => h rfl), if_pos rfl]
  refine (h.openFirst s lastFrame).bind (bufferSize_mono (Nat.zero_le _)) fun _ opened hopened => ?_
  obtain ⟨st, exit⟩ := opened
  obtain ⟨rfl, hat⟩ := hopened
  refine (h.readChunks s lastFrame hat rfl (Nat.zero_le _)).bind id fun hfits read hread => ?_
  obtain ⟨st, exit⟩ := read
  obtain ⟨rfl, hat⟩ := hread
  exact .ok ⟨rfl, hat⟩ hfits

theorem IsChannel.nextFrame (h : s.IsChannel channel) (hcolor : channel.1.isColorFrame = true)
    (lastFrame : Bool) (hat : s.At s.height b o streams st)
    (hempty : streams channel.1.offset = []) (hfits : s.FitsFor s.height) :
    ∃ st', scanFrame .pnm (fun _ => true) false (s.frameOf channel lastFrame) st =
        .ok (st', none) ∧
      s.At s.height s.frameBytes channel.1.offset
        (Function.update streams channel.1.offset channel.2.flatten) st' := by
  have hopen : openNext (s.parm channel.1 lastFrame) st = .ok ({ st with
      offset := channel.1.offset, image := { st.image with x := 0, y := 0 } }, none) := by
    have hassert : assert (s.parm channel.1 lastFrame).format.isColorFrame = .ok () :=
      assert_eq hcolor
    rw [openNext, hassert]
    rfl
  have hzero : (0 : Int) = (0 % s.bytesPerLine : Nat) := by
    rw [Nat.zero_mod]
    rfl
  have hline : (0 : Int) = (0 / s.bytesPerLine : Nat) := by
    rw [Nat.zero_div]
    rfl
  have hfilled := hat.filled
  have hopened : s.At s.height 0 channel.1.offset streams { st with
      offset := channel.1.offset, image := { st.image with x := 0, y := 0 } } := by
    refine ⟨hat.buffered, hat.out, ?_, hfilled.width, hfilled.height, hzero, hline,
      hfilled.numChannels, hfilled.data, hfilled.room, ?_, hfilled.fits⟩
    · rw [Nat.mul_zero, Nat.add_zero]
    · rw [Nat.zero_div]
      exact Nat.zero_le _
  obtain ⟨⟨st', exit⟩, hread, hnone, hat'⟩ :=
    (h.readChunks s lastFrame hopened hempty (Nat.le_refl _)).ends hfits
  subst hnone
  have hrun : scanFrame .pnm (fun _ => true) false (s.frameOf channel lastFrame) st =
      .ok (st', (s.frameOf channel lastFrame).readError.map .readFailed) :=
    scanFrame_next rfl rfl hopen hread
  exact ⟨st', hrun, hat'⟩

theorem scanFrames_cons {firstFrame : Bool}
    (hframe : scanFrame .pnm (fun _ => true) firstFrame (s.frameOf channel channels.isEmpty) st =
      .ok (st', none)) :
    scanFrames .pnm (fun _ => true) firstFrame (s.framesOf (channel :: channels)) st =
      if channels.isEmpty then .ok (st', .inr (s.parm channel.1 true))
      else scanFrames .pnm (fun _ => true) false (s.framesOf channels) st' := by
  rw [framesOf, scanFrames, hframe, ok_bind]
  cases channels with
  | nil => rfl
  | cons next channels => rfl

/-- The frames after the first one. -/
theorem scanFrames_next (hne : channels ≠ [])
    (hchannels : ∀ channel ∈ channels, s.IsChannel channel ∧ channel.1.isColorFrame = true)
    (hnodup : (channels.map fun channel => channel.1.offset).Nodup)
    (hempty : ∀ channel ∈ channels, streams channel.1.offset = [])
    (hat : s.At s.height b o streams st) (hfits : s.FitsFor s.height) :
    ∃ st' o', scanFrames .pnm (fun _ => true) false (s.framesOf channels) st =
        .ok (st', .inr (s.parm (lastFormat channels) true)) ∧
      s.At s.height s.frameBytes o' (streamsOf channels streams) st' := by
  induction channels generalizing b o streams st with
  | nil => exact absurd rfl hne
  | cons channel channels ih =>
      obtain ⟨hchannel, hcolor⟩ := hchannels channel List.mem_cons_self
      obtain ⟨hnew, hnodup⟩ := List.nodup_cons.mp hnodup
      obtain ⟨st₁, hframe, hat₁⟩ := hchannel.nextFrame s hcolor channels.isEmpty hat
        (hempty channel List.mem_cons_self) hfits
      rw [s.scanFrames_cons hframe, streamsOf_cons hnew]
      cases channels with
      | nil => exact ⟨st₁, _, rfl, hat₁⟩
      | cons next channels =>
          refine ih (List.cons_ne_nil _ _)
            (fun other hother => hchannels other (List.mem_cons_of_mem _ hother)) hnodup
            (fun other hother => ?_) hat₁
          have hne : other.1.offset ≠ channel.1.offset := fun heq =>
            hnew (List.mem_map.mpr ⟨other, hother, heq⟩)
          rw [Function.update_of_ne hne]
          exact hempty other (List.mem_cons_of_mem _ hother)

theorem isColorFrame_of_stride {format : FrameType} (h : 1 < format.stride) :
    format.isColorFrame = true := by
  cases format with
  | red | green | blue => rfl
  | _ => exact absurd h (Nat.lt_irrefl 1)

theorem exists_channels : ∃ channel channels, s.channels = channel :: channels := by
  apply List.exists_cons_of_ne_nil
  intro hnil
  obtain hcolor | ⟨-, hgray | hrgb⟩ := s.order
  · have hlength := length_channels hcolor
    rw [hnil] at hlength
    cases hlength
  · rw [hnil] at hgray
    cases hgray
  · rw [hnil] at hrgb
    cases hrgb

/-- All frames. The buffer is largest behind the first one. -/
theorem scanFrames_succeeds :
    SucceedsIff (scanFrames .pnm (fun _ => true) true s.frames {}) (s.FitsFor s.height)
      (fun r => r.2 = .inr (s.parm (lastFormat s.channels) true) ∧
        ∃ o, s.At s.height s.frameBytes o (streamsOf s.channels fun _ => []) r.1) := by
  obtain ⟨channel, channels, hcons⟩ := s.exists_channels
  have hframes : s.frames = s.framesOf (channel :: channels) := congrArg s.framesOf hcons
  have hmem : ∀ other ∈ channel :: channels, s.IsChannel other := fun other hother =>
    s.isChannel (hcons ▸ hother)
  have hnodup : ((channel :: channels).map fun channel => channel.1.offset).Nodup := by
    rw [← hcons]
    exact s.offsets.nodup_iff.mpr List.nodup_range
  obtain ⟨hnew, hnodup⟩ := List.nodup_cons.mp hnodup
  have hfirst := (hmem channel List.mem_cons_self).firstFrame s channels.isEmpty
  rw [hframes]
  constructor
  · intro hfits
    obtain ⟨⟨st, exit⟩, hframe, hnone, hat⟩ := hfirst.ends hfits
    dsimp only at hnone
    subst hnone
    rw [s.scanFrames_cons hframe, hcons, streamsOf_cons hnew]
    cases channels with
    | nil => exact ⟨_, rfl, rfl, _, hat⟩
    | cons next channels =>
        have hlength : 1 < s.channels.length := by
          rw [hcons]
          exact Nat.succ_lt_succ (Nat.succ_pos _)
        obtain ⟨st', o', hrun, hat'⟩ := s.scanFrames_next (List.cons_ne_nil _ _)
          (fun other hother => by
            have hother := hmem other (List.mem_cons_of_mem _ hother)
            exact ⟨hother, isColorFrame_of_stride (by rw [hother.stride]; exact hlength)⟩)
          hnodup (fun other hother => Function.update_of_ne
            (fun heq => hnew (List.mem_map.mpr ⟨other, hother, heq⟩)) _ _) hat hfits
        exact ⟨_, hrun, rfl, o', hat'⟩
  · intro hfits
    obtain ⟨fault, hframe⟩ := hfirst.fails hfits
    refine ⟨fault, ?_⟩
    rw [framesOf, scanFrames, hframe]
    rfl

theorem length_stream {c : Nat} (hc : c < s.channels.length) :
    (streamsOf s.channels (fun _ => []) c).length = s.frameBytes := by
  have hoffset : c ∈ s.channels.map fun channel => channel.1.offset :=
    s.offsets.mem_iff.mpr (List.mem_range.mpr hc)
  obtain ⟨channel, hmem, heq⟩ := @streamsOf_mem s.channels (fun _ => []) c (List.mem_map.mp hoffset)
  rw [heq]
  exact s.equal channel hmem

/-- The bytes of the complete lines. -/
theorem writeBuffer_eq (hat : s.At s.height s.frameBytes o (streamsOf s.channels fun _ => []) st)
    (format : FrameType) :
    ∃ st', writeBuffer .pnm (s.parm format true) st = .ok st' ∧
      st'.out = [.pnmHeader format s.pixelsPerLine s.height 8, .bytes s.body] := by
  have hfilled := hat.filled
  have hC : 0 < s.channels.length := by
    obtain ⟨channel, channels, hcons⟩ := s.exists_channels
    rw [hcons]
    exact Nat.succ_pos _
  obtain ⟨data, himage, hdata, hheld⟩ := hfilled.data
  have hle : s.height * s.bytesPerLine * s.channels.length ≤ data.size := by
    rw [hdata]
    exact Nat.mul_le_mul_right _ (Nat.mul_le_mul_right _ (Nat.le_of_lt (lt_bufferLines ..)))
  have hfits : s.height * s.bytesPerLine * s.channels.length < 2 ^ 31 :=
    Nat.lt_of_le_of_lt hle (hdata ▸ hfilled.fits)
  have hsize : (⟨some data, st.image.width, st.image.y, st.image.x, st.image.y,
      st.image.numChannels⟩ : Image).size =
      .ok (s.height * s.bytesPerLine * s.channels.length) := by
    obtain ⟨size, hrun, rfl⟩ := (@size_succeeds ⟨some data, st.image.width, st.image.y, st.image.x,
      st.image.y, st.image.numChannels⟩ s.height s.bytesPerLine s.channels.length
      hfilled.y hfilled.width hfilled.numChannels hC).ends hfits
    exact hrun
  have hbody : (List.range (s.height * s.bytesPerLine * s.channels.length)).map data.cell =
      s.body := by
    refine hheld.map_range fun c hc => ?_
    rw [s.length_stream hc]
    exact Nat.div_mul_le_self ..
  have hdepth : (s.parm format true).depth = 8 := rfl
  have hplain : ¬ (OutputFormat.pnm ≠ .tiff ∧ (s.parm format true).depth = 16) := by
    rw [hdepth]
    decide
  rw [writeBuffer]
  dsimp only
  rw [himage]
  dsimp only
  rw [if_neg hplain, ok_bind, hsize, ok_bind, if_pos hle, hbody, hat.out, hfilled.y]
  exact ⟨_, rfl, rfl⟩

theorem scanIt_succeeds :
    SucceedsIff (scanIt .pnm (fun _ => true) s.frames) (s.FitsFor s.height)
      (· = (s.file, .finished)) := by
  refine s.scanFrames_succeeds.bind id fun hfits scanned hscanned => ?_
  obtain ⟨st, result⟩ := scanned
  obtain ⟨hresult, o, hat⟩ := hscanned
  dsimp only at hresult
  subst hresult
  obtain ⟨st', hwrite, hout⟩ := s.writeBuffer_eq hat (lastFormat s.channels)
  dsimp only
  rw [if_pos hat.buffered, hwrite, ok_bind]
  refine .ok (Prod.ext ?_ rfl) hfits
  rw [cleanup, hout]
  rfl

end BufferedScan

/-- The file has the bytes of the frames one after another as long as the size of the buffer is an
`int`. -/
theorem scanIt_buffered (s : BufferedScan) :
    scanIt .pnm (fun _ => true) s.frames = .ok (s.file, .finished) ↔ s.bufferSize < 2 ^ 31 := by
  constructor
  · intro hrun
    by_contra hsize
    obtain ⟨fault, hfault⟩ := s.scanIt_succeeds.fails hsize
    rw [hrun] at hfault
    cases hfault
  · intro hsize
    obtain ⟨_, hrun, rfl⟩ := s.scanIt_succeeds.ends hsize
    exact hrun

/-- About 8.3 by 7.5 inches at 4800 dpi, in three passes. Modulo `2 ^ 32` the buffer has 72704
bytes. -/
def largeScan : BufferedScan where
  bytesPerLine := 40000
  pixelsPerLine := 40000
  lines := 35791
  frameBytes := 35791 * 40000
  channels := [.red, .green, .blue].map fun format =>
    (format, List.replicate 35791 (List.replicate 40000 0))
  nonempty := Nat.succ_pos _
  order := .inl (.refl _)
  equal := by
    intro channel hmem
    obtain ⟨format, -, rfl⟩ := List.mem_map.mp hmem
    dsimp only
    rw [List.flatten_replicate_replicate, List.length_replicate]

theorem scanIt_largeScan : ¬ ∀ s : BufferedScan,
    scanIt .pnm (fun _ => true) s.frames = .ok (s.file, .finished) := by
  intro hall
  have hsize : ¬ largeScan.FitsFor largeScan.height := by
    have hheight : largeScan.height = 35791 := Nat.mul_div_cancel _ (Nat.succ_pos _)
    rw [hheight]
    decide
  obtain ⟨fault, hfault⟩ := largeScan.scanIt_succeeds.fails hsize
  rw [hall largeScan] at hfault
  cases hfault

/-- Green, blue and red lines of two bytes, the last of them cut. -/
example : scanIt .pnm (fun _ => true) (BufferedScan.frames {
    bytesPerLine := 2, pixelsPerLine := 2, lines := 1, frameBytes := 3
    channels := [(.green, [[3], [4, 5]]), (.blue, [[6, 7, 8]]), (.red, [[0, 1], [], [2]])]
    nonempty := by decide, order := .inl (by decide), equal := by decide }) =
    .ok ([.pnmHeader .red 2 1 8, .bytes [0, 3, 6, 1, 4, 7]], .finished) := by decide

end SaneBackends.Scanimage
