import SaneBackends.Genesys.ShiftLines
/-!
# Colours as lines

`ImagePipelineNodeSplitMonoLines`, which delivers each channel of a row as a row of its own, and
`ImagePipelineNodeMergeMonoLinesToColor`, which makes a colour row of three. Heights are those of
images that fit into memory, so that no `size_t` wraps.
-/

namespace SaneBackends.Genesys

open SaneBackends.Lib

/-! ## The code -/

section Code

variable {σ : Type}

structure MergeColorNode (σ : Type) where
  source : RowNode σ
  outputFormat : PixelFormat

namespace MergeColorNode

/-- The constructor. -/
def ofSource (source : RowNode σ) (colorOrder : ColorOrder) :
    Except Failure (MergeColorNode σ) := do
  let outputFormat ← Node.mergedFormat source.format colorOrder
  pure { source, outputFormat }

def getNextRowData (node : MergeColorNode σ) (st : σ × RowBuffer node.source.rowBytes)
    (out : List UInt8) :
    Except RowFailure (Bool × (σ × RowBuffer node.source.rowBytes) × List UInt8) := do
  let (gotData, source, buffer) ← fillBuffer node.source 3 st.1 st.2.clear
  let row0 ← buffer.rowData 0
  let row1 ← buffer.rowData 1
  let row2 ← buffer.rowData 2
  let format := node.source.format
  let out ← forTo node.source.width (fun x out => do
    let ch0 ← getRawChannelFromRow row0 x 0 format
    let ch1 ← getRawChannelFromRow row1 x 0 format
    let ch2 ← getRawChannelFromRow row2 x 0 format
    setRawChannelsToRow out x ch0 ch1 ch2 node.outputFormat) out
  .ok (gotData, (source, buffer), out)

def node (node : MergeColorNode σ) : RowNode (σ × RowBuffer node.source.rowBytes) where
  width := node.source.width
  height := node.source.height / 3
  format := node.outputFormat
  getNextRowData := node.getNextRowData

end MergeColorNode

structure SplitMonoNode (σ : Type) where
  source : RowNode σ
  outputFormat : PixelFormat

structure SplitState (σ : Type) where
  source : σ
  nextChannel : Nat := 0
  buffer : List UInt8 := []

namespace SplitMonoNode

def outputFormatOf (inputFormat : PixelFormat) : Except Failure PixelFormat :=
  match inputFormat with
  | .rgb111 => .ok .i1
  | .rgb888 | .bgr888 => .ok .i8
  | .rgb161616 | .bgr161616 => .ok .i16
  | _ => .error (.saneException "Unsupported input format")

/-- The constructor. -/
def ofSource (source : RowNode σ) : Except Failure (SplitMonoNode σ) := do
  let outputFormat ← outputFormatOf source.format
  pure { source, outputFormat }

/-- Before the first channel, the next row is got of the source. -/
def readSource (node : SplitMonoNode σ) (st : SplitState σ) :
    Except RowFailure (Bool × σ × List UInt8) :=
  if st.nextChannel = 0 then
    node.source.getNextRowData st.source (RowBuffer.resize st.buffer node.source.rowBytes)
  else .ok (true, st.source, st.buffer)

def getNextRowData (node : SplitMonoNode σ) (st : SplitState σ) (out : List UInt8) :
    Except RowFailure (Bool × SplitState σ × List UInt8) := do
  let (gotData, source, buffer) ← node.readSource st
  let format := node.source.format
  let out ← forTo node.source.width (fun x out => do
    let ch ← getRawChannelFromRow buffer x st.nextChannel format
    setRawChannelToRow out x 0 ch node.outputFormat) out
  .ok (gotData, { source, nextChannel := (st.nextChannel + 1) % 3, buffer }, out)

def node (node : SplitMonoNode σ) : RowNode (SplitState σ) where
  width := node.source.width
  height := node.source.height * 3
  format := node.outputFormat
  getNextRowData := node.getNextRowData

end SplitMonoNode

end Code

/-! ## Formats -/

/-- A format of one channel, and one of three channels of the same depth. -/
structure Separates (mono colour : PixelFormat) : Prop where
  single : mono.channels = 1
  triple : colour.channels = 3
  depth : mono.depth = colour.depth

section Formats

variable {mono colour : PixelFormat}

theorem separates_of_mergedFormat {order : ColorOrder}
    (h : Node.mergedFormat mono order = .ok colour) : Separates mono colour := by
  cases mono <;> cases order <;> cases h <;> exact ⟨rfl, rfl, rfl⟩

theorem separates_of_outputFormatOf (h : SplitMonoNode.outputFormatOf colour = .ok mono) :
    Separates mono colour := by
  cases colour <;> cases h <;> exact ⟨rfl, rfl, rfl⟩

theorem Separates.known (h : Separates mono colour) : mono ≠ .unknown := by
  intro hunknown
  have hchannels := h.single
  rw [hunknown] at hchannels
  cases hchannels

theorem Separates.depth_pos (h : Separates mono colour) : 0 < colour.depth :=
  h.depth ▸ SaneBackends.Genesys.depth_pos h.known

theorem Separates.monoBits (h : Separates mono colour) : mono.totalBits = colour.depth := by
  rw [totalBits_eq, h.single, Nat.one_mul, h.depth]

theorem Separates.colourBits (h : Separates mono colour) :
    colour.totalBits = 3 * colour.depth := by
  rw [totalBits_eq, h.triple]

theorem Separates.monoPlace (h : Separates mono colour) (x : Nat) :
    mono.channelPlace x 0 = x * colour.depth := by
  rw [PixelFormat.channelPlace, h.monoBits, Nat.zero_mul, Nat.add_zero]

end Formats

/-! ## Images -/

/-- The rows of the channels, one behind the other. -/
def splitImage (depth : Nat) (image : Nat → Nat → Bool) (y z : Nat) : Bool :=
  image (y / 3) (z / depth * (3 * depth) + (y % 3 * depth + z % depth))

/-- The rows of which each holds the channels of three. -/
def mergeImage (depth : Nat) (image : Nat → Nat → Bool) (y z : Nat) : Bool :=
  image (y * 3 + z % (3 * depth) / depth) (z / (3 * depth) * depth + z % (3 * depth) % depth)

section Images

variable {depth : Nat} {image : Nat → Nat → Bool}

theorem mergeImage_at {y x c k : Nat} (hc : c < 3) (hk : k < depth) :
    mergeImage depth image y (x * (3 * depth) + (c * depth + k)) =
      image (y * 3 + c) (x * depth + k) := by
  have hpixel : c * depth + k < 3 * depth := part_lt hc hk
  rw [mergeImage, part_div hpixel, part_mod hpixel, part_div hk, part_mod hk]

theorem splitImage_at {y x c k : Nat} (hc : c < 3) (hk : k < depth) :
    splitImage depth image (y * 3 + c) (x * depth + k) =
      image y (x * (3 * depth) + (c * depth + k)) := by
  rw [splitImage, part_div hc, part_mod hc, part_div hk, part_mod hk]

/-- A bit of a colour row belongs to a pixel, to a channel of it, and to a place in that. -/
theorem colourBit_eq (depth z : Nat) :
    z = z / (3 * depth) * (3 * depth) + (z % (3 * depth) / depth * depth +
      z % (3 * depth) % depth) := by
  rw [Nat.mul_comm (_ % _ / _), Nat.div_add_mod, Nat.mul_comm, Nat.div_add_mod]

theorem colourChannel_lt (hpos : 0 < depth) (z : Nat) : z % (3 * depth) / depth < 3 :=
  Nat.div_lt_of_lt_mul (by
    rw [Nat.mul_comm depth]
    exact Nat.mod_lt _ (by omega))

theorem mergeImage_splitImage (hpos : 0 < depth) (y z : Nat) :
    mergeImage depth (splitImage depth image) y z = image y z := by
  have hchannel := colourChannel_lt hpos z
  have hplace := Nat.mod_lt (z % (3 * depth)) hpos
  rw [mergeImage, splitImage_at hchannel hplace, ← colourBit_eq]

theorem splitImage_mergeImage (hpos : 0 < depth) (y z : Nat) :
    splitImage depth (mergeImage depth image) y z = image y z := by
  have hplace := Nat.mod_lt z hpos
  have hrow : y / 3 * 3 + y % 3 = y := by omega
  have hbit : z / depth * depth + z % depth = z := by rw [Nat.mul_comm, Nat.div_add_mod]
  rw [splitImage, mergeImage_at (Nat.mod_lt y (by decide)) hplace, hrow, hbit]

end Images

/-! ## The nodes -/

section Nodes

variable {σ : Type} {image : Nat → Nat → Bool} {I : Nat → σ → Prop} {bits : Nat}

/-- A channel that is read and stored is copied with its bits. -/
theorem copyChannel_wrote {format format' : PixelFormat} (hdepth : format'.depth = format.depth)
    {x x' channel channel' : Nat} (hchannel : channel < format.channels)
    (hchannel' : channel' < format'.channels) {data out : List UInt8} {bit : Nat → Bool}
    (hbits : ∀ k < format.depth, bitAt data (format.channelPlace x channel + k) = some (bit k))
    (hout : format'.channelPlace x' channel' + format'.depth ≤ 8 * out.length) :
    ∃ ch out', getRawChannelFromRow data x channel format = .ok ch ∧
      setRawChannelToRow out x' channel' ch format' = .ok out' ∧
      Wrote out out' (format'.channelPlace x' channel') format'.depth bit := by
  obtain ⟨ch, hget, hvalue⟩ := getRawChannelFromRow_of_bits hchannel hbits
  obtain ⟨out', hset, hwrote⟩ := setRawChannelToRow_spec hchannel' hout ch
  refine ⟨ch, out', hget, hset, hwrote.congr fun k hk => ?_⟩
  rw [hdepth] at hk ⊢
  exact hvalue k hk

theorem MergeColorNode.delivers {node : MergeColorNode σ}
    (h : Separates node.source.format node.outputFormat)
    (hsource : DeliversRows node.source
      (Shows (node.source.width * node.source.format.totalBits) image) I) :
    DeliversRows node.node
      (Shows (node.node.width * node.node.format.totalBits)
        (mergeImage node.outputFormat.depth image))
      (fun y s => I (y * 3) s.1 ∧ s.2.Sound ∧ s.2.isLinear = true) where
  step := fun {y s out} hy hs hout => by
    obtain ⟨hinv, hsound, hlinear⟩ := hs
    have hyHeight : y < node.source.height / 3 := hy
    obtain ⟨st', buffer', hfill, hinv', hfilled⟩ :=
      fillBuffer_spec hsource hsound hlinear hinv (n := 3) (by omega)
    have hroom := bits_le_rowSize node.outputFormat node.source.width
    have hout' : rowSize node.outputFormat node.source.width ≤ out.length := hout
    have hline := bits_le_rowSize node.source.format node.source.width
    rw [h.monoBits] at hline
    have hshows : ∀ c < 3, Shows (node.source.width * node.outputFormat.depth) image
        (y * 3 + c) (buffer'.data.drop (node.source.rowBytes * c)) := by
      intro c hc z hz
      have hrow := hfilled.rows c hc z (by rw [h.monoBits]; exact hz)
      have hinside : c < buffer'.height := hfilled.height.symm ▸ hc
      have hread := @RowBuffer.bitAt_rowData _ buffer' c _
        (show z < 8 * node.source.rowBytes from Nat.lt_of_lt_of_le hz hline)
      rw [hfilled.sound.getRowIndex_of_linear hfilled.linear hinside, hfilled.first,
        Nat.add_zero] at hread
      rw [hread, hrow]
    obtain ⟨out', hloop, hwrote⟩ := @wrote_forTo out node.source.width _
      node.outputFormat.totalBits
      (fun x out => do
        let ch0 ← getRawChannelFromRow (buffer'.data.drop (node.source.rowBytes * 0)) x 0
          node.source.format
        let ch1 ← getRawChannelFromRow (buffer'.data.drop (node.source.rowBytes * 1)) x 0
          node.source.format
        let ch2 ← getRawChannelFromRow (buffer'.data.drop (node.source.rowBytes * 2)) x 0
          node.source.format
        setRawChannelsToRow out x ch0 ch1 ch2 node.outputFormat)
      (fun x k => mergeImage node.outputFormat.depth image y
        (x * node.outputFormat.totalBits + k))
      fun x hx out₁ hlength => by
        have hpixel : x * node.outputFormat.totalBits + node.outputFormat.totalBits ≤
            node.source.width * node.outputFormat.totalBits := part_end_le hx
        obtain ⟨ch0, ch1, ch2, out₂, hget0, hget1, hget2, hset, hwrote⟩ :=
          @copyChannels_wrote out₁ node.source.format x node.outputFormat h.triple h.depth.symm x
            (fun c => buffer'.data.drop (node.source.rowBytes * c)) (fun _ => 0)
            (fun c _ => by rw [h.single]; exact Nat.one_pos)
            (fun c k => image (y * 3 + c) (x * node.outputFormat.depth + k))
            (fun c hc k hk => by
              rw [h.monoPlace]
              rw [h.depth] at hk
              exact hshows c hc _ (part_lt hx hk))
            (by omega)
        refine ⟨out₂, ?_, hwrote.congr fun k hk => ?_⟩
        · rw [hget0, ok_bind, hget1, ok_bind, hget2, ok_bind, hset]
        · rw [h.depth, h.colourBits]
          rw [h.colourBits] at hk
          have hchannel : k / node.outputFormat.depth < 3 :=
            Nat.div_lt_of_lt_mul (by rwa [Nat.mul_comm])
          have hplace : k = k / node.outputFormat.depth * node.outputFormat.depth +
              k % node.outputFormat.depth := by rw [Nat.mul_comm, Nat.div_add_mod]
          conv_rhs => rw [hplace]
          rw [mergeImage_at hchannel (Nat.mod_lt _ h.depth_pos)]
    refine ⟨(st', buffer'), out', ?_, ⟨?_, hfilled.sound, hfilled.linear⟩, hwrote.length,
      fun z hz => ?_⟩
    · change node.getNextRowData s out = _
      rw [getNextRowData, hfill, ok_bind]
      dsimp only
      rw [hfilled.rowData (by decide), ok_bind, hfilled.rowData (by decide), ok_bind,
        hfilled.rowData (by decide), ok_bind, hloop, ok_bind]
    · rw [Nat.succ_mul]
      exact hinv'
    · have hbit := hwrote.inside hz
      rw [Nat.zero_add] at hbit
      rw [hbit, Nat.mul_comm (z / _), Nat.div_add_mod]

/-- Before the rows of the second and of the third channel, the buffer holds the row that they
belong to. -/
structure SplitReady (bits : Nat) (image : Nat → Nat → Bool) (I : Nat → σ → Prop) (y : Nat)
    (st : SplitState σ) : Prop where
  channel : st.nextChannel = y % 3
  first : y % 3 = 0 → I (y / 3) st.source
  later : y % 3 ≠ 0 → I (y / 3 + 1) st.source ∧ Shows bits image (y / 3) st.buffer

theorem length_resize (data : List UInt8) (size : Nat) :
    (RowBuffer.resize data size).length = size := by
  rw [RowBuffer.resize, List.length_append, List.length_take, List.length_replicate]
  omega

theorem SplitMonoNode.delivers {node : SplitMonoNode σ}
    (h : Separates node.outputFormat node.source.format)
    (hsource : DeliversRows node.source
      (Shows (node.source.width * node.source.format.totalBits) image) I) :
    DeliversRows node.node
      (Shows (node.node.width * node.node.format.totalBits)
        (splitImage node.source.format.depth image))
      (SplitReady (node.source.width * node.source.format.totalBits) image I) where
  step := fun {y st out} hy hst hout => by
    have hyHeight : y < node.source.height * 3 := hy
    have hline : y / 3 < node.source.height := by omega
    have hchannel : y % 3 < 3 := Nat.mod_lt y (by decide)
    obtain ⟨source', buffer', hread, hinv', hshows⟩ : ∃ source' buffer',
        node.readSource st = .ok (true, source', buffer') ∧ I (y / 3 + 1) source' ∧
          Shows (node.source.width * node.source.format.totalBits) image (y / 3) buffer' := by
      unfold readSource
      rw [hst.channel]
      by_cases hfirst : y % 3 = 0
      · rw [if_pos hfirst]
        obtain ⟨source', buffer', hget, hinv', -, hshows⟩ :=
          hsource.step hline (hst.first hfirst) (Nat.le_of_eq (length_resize st.buffer _).symm)
        exact ⟨source', buffer', hget, hinv', hshows⟩
      · rw [if_neg hfirst]
        obtain ⟨hinv, hshows⟩ := hst.later hfirst
        exact ⟨st.source, st.buffer, rfl, hinv, hshows⟩
    have hroom := bits_le_rowSize node.outputFormat node.source.width
    rw [h.monoBits] at hroom
    have hout' : rowSize node.outputFormat node.source.width ≤ out.length := hout
    obtain ⟨out', hloop, hwrote⟩ := @wrote_forTo out node.source.width _ node.source.format.depth
      (fun x out => do
        let ch ← getRawChannelFromRow buffer' x st.nextChannel node.source.format
        setRawChannelToRow out x 0 ch node.outputFormat)
      (fun x k => image (y / 3) (node.source.format.channelPlace x (y % 3) + k))
      fun x hx out₁ hlength => by
        have hpixel : x * node.source.format.depth + node.source.format.depth ≤
            node.source.width * node.source.format.depth := part_end_le hx
        have hvalid : y % 3 < node.source.format.channels := h.triple.symm ▸ hchannel
        have hsingle : 0 < node.outputFormat.channels := by
          rw [h.single]
          exact Nat.one_pos
        obtain ⟨ch, out₂, hget, hset, hwrote⟩ := @copyChannel_wrote _ _ h.depth _ x _ _ hvalid
          hsingle buffer' out₁ _ (fun k hk => hshows _ (channelPlace_lt hx hvalid hk))
          (by rw [h.monoPlace, h.depth]; omega)
        rw [h.monoPlace, h.depth] at hwrote
        exact ⟨out₂, by rw [hst.channel, hget, ok_bind, hset], hwrote⟩
    refine ⟨⟨source', (st.nextChannel + 1) % 3, buffer'⟩, out', ?_,
      ⟨?_, fun hnext => ?_, fun hnext => ?_⟩, hwrote.length, fun z hz => ?_⟩
    · change node.getNextRowData st out = _
      rw [getNextRowData, hread, ok_bind]
      dsimp only
      rw [hloop, ok_bind]
    · dsimp only
      rw [hst.channel]
      omega
    · have hrow : (y + 1) / 3 = y / 3 + 1 := by omega
      rw [hrow]
      exact hinv'
    · have hrow : (y + 1) / 3 = y / 3 := by omega
      rw [hrow]
      exact ⟨hinv', hshows⟩
    · have hz' : z < node.source.width * node.source.format.depth := by
        rw [← h.monoBits]
        exact hz
      have hbit := hwrote.inside hz'
      rw [Nat.zero_add] at hbit
      rw [hbit, splitImage, PixelFormat.channelPlace, h.colourBits, Nat.add_assoc]

end Nodes

/-! ## Both nodes -/

section RoundTrip

variable {source : ArraySource}

/-- A row that shows the image of the source has the pixels of the source. -/
theorem pixel_of_shows {y : Nat} (hy : y < source.height) {row : List UInt8}
    {image : Nat → Nat → Bool} (himage : ∀ y z, image y z = source.image y z)
    (h : Shows (source.width * source.format.totalBits) image y row) {x : Nat}
    (hx : x < source.width) : getRawPixelFromRow row x source.format = source.pixel x y := by
  have hroom := bits_le_rowSize source.format source.width
  have hpixel : x * source.format.totalBits + source.format.totalBits ≤
      source.width * source.format.totalBits := part_end_le hx
  exact h.pixel hpixel (by rw [length_row hy]; omega) fun k _ => himage y _

theorem split_formats {colour : PixelFormat} {order : ColorOrder} (hcolour : colour.channels = 3)
    (horder : getPixelFormatColorOrder colour = .ok order) :
    ∃ mono, SplitMonoNode.outputFormatOf colour = .ok mono ∧
      Node.mergedFormat mono order = .ok colour := by
  cases colour with
  | unknown | i1 | i8 | i16 => cases hcolour
  | rgb111 =>
      cases horder
      exact ⟨.i1, rfl, rfl⟩
  | rgb888 | bgr888 =>
      cases horder
      exact ⟨.i8, rfl, rfl⟩
  | rgb161616 | bgr161616 =>
      cases horder
      exact ⟨.i16, rfl, rfl⟩

theorem merge_formats {mono colour : PixelFormat} {order : ColorOrder}
    (h : Node.mergedFormat mono order = .ok colour) :
    SplitMonoNode.outputFormatOf colour = .ok mono := by
  cases mono <;> cases order <;> cases h <;> rfl

end RoundTrip

/-- Splitting a colour image into lines and merging these again gives its pixels, and so does
merging the lines of a mono image and splitting them again. -/
theorem monoLines_roundTrip :
    (∀ (source : ArraySource) (order : ColorOrder), source.format.channels = 3 →
      getPixelFormatColorOrder source.format = .ok order →
      ∃ split merge, SplitMonoNode.ofSource source.node = .ok split ∧
        MergeColorNode.ofSource split.node order = .ok merge ∧
        merge.node.width = source.width ∧ merge.node.height = source.height ∧
        merge.node.format = source.format ∧
        HasRows merge.node ({ source := {} }, {}) fun y row => ∀ x < source.width,
          getRawPixelFromRow row x source.format = source.pixel x y) ∧
    ∀ (source : ArraySource) (order : ColorOrder) (colour : PixelFormat),
      Node.mergedFormat source.format order = .ok colour → source.height % 3 = 0 →
      ∃ merge split, MergeColorNode.ofSource source.node order = .ok merge ∧
        SplitMonoNode.ofSource merge.node = .ok split ∧
        split.node.width = source.width ∧ split.node.height = source.height ∧
        split.node.format = source.format ∧
        HasRows split.node { source := ({}, {}) } fun y row => ∀ x < source.width,
          getRawPixelFromRow row x source.format = source.pixel x y := by
  constructor
  · intro source order hcolour horder
    obtain ⟨mono, hmono, hmerged⟩ := split_formats hcolour horder
    obtain ⟨split, hsplit⟩ : ∃ split : SplitMonoNode SourceState,
      split = { source := source.node, outputFormat := mono } := ⟨_, rfl⟩
    obtain ⟨merge, hmerge⟩ : ∃ merge : MergeColorNode (SplitState SourceState),
      merge = { source := split.node, outputFormat := source.format } := ⟨_, rfl⟩
    have hheight : source.height * 3 / 3 = source.height := Nat.mul_div_cancel _ (by decide)
    have hsplits : Separates split.outputFormat split.source.format := by
      rw [hsplit]
      exact separates_of_outputFormatOf hmono
    have hmerges : Separates merge.source.format merge.outputFormat := by
      rw [hmerge, hsplit]
      exact separates_of_mergedFormat hmerged
    have hlines := @SplitMonoNode.delivers _ source.image (fun y st => st.nextRow = y) _ hsplits
      (by rw [hsplit]; exact source.deliversPixels)
    have hrows := MergeColorNode.delivers hmerges (by rw [hmerge]; exact hlines)
    refine ⟨split, merge, ?_, ?_, ?_, ?_, ?_, ?_⟩
    · have hformat : SplitMonoNode.outputFormatOf source.node.format = .ok mono := hmono
      rw [SplitMonoNode.ofSource, hformat, hsplit]
      rfl
    · have hformat : Node.mergedFormat split.node.format order = .ok source.format := by
        rw [hsplit]
        exact hmerged
      rw [MergeColorNode.ofSource, hformat, hmerge]
      rfl
    · rw [hmerge, hsplit]
      rfl
    · rw [hmerge, hsplit]
      exact hheight
    · rw [hmerge]
      rfl
    · subst hmerge hsplit
      refine hrows.hasRows ⟨⟨rfl, fun _ => rfl, fun hlater => absurd rfl hlater⟩,
        RowBuffer.sound_fresh, rfl⟩ fun y hy row hrow x hx => ?_
      refine pixel_of_shows (show y < source.height from hheight ▸ hy)
        (fun y z => mergeImage_splitImage hmerges.depth_pos y z) hrow hx
  · intro source order colour hmerged hthird
    have hheight : source.height / 3 * 3 = source.height := by omega
    obtain ⟨split, hsplit⟩ : ∃ split, split = SplitMonoNode.mk
      (MergeColorNode.mk source.node colour).node source.format := ⟨_, rfl⟩
    have hmerges : Separates source.node.format colour := separates_of_mergedFormat hmerged
    have hsplits : Separates split.outputFormat split.source.format := by
      rw [hsplit]
      exact separates_of_outputFormatOf (merge_formats hmerged)
    have hlines := @MergeColorNode.delivers _ _ _ (MergeColorNode.mk source.node colour) hmerges
      source.deliversPixels
    have hrows := SplitMonoNode.delivers hsplits (by rw [hsplit]; exact hlines)
    refine ⟨MergeColorNode.mk source.node colour, split, ?_, ?_, ?_, ?_, ?_, ?_⟩
    · have hformat : Node.mergedFormat source.node.format order = .ok colour := hmerged
      rw [MergeColorNode.ofSource, hformat]
      rfl
    · have hformat := merge_formats hmerged
      rw [hsplit]
      change (SplitMonoNode.outputFormatOf colour >>= _) = _
      rw [hformat]
      rfl
    · rw [hsplit]
      rfl
    · rw [hsplit]
      exact hheight
    · rw [hsplit]
      rfl
    · subst hsplit
      refine hrows.hasRows ⟨rfl, fun _ => ⟨rfl, RowBuffer.sound_fresh, rfl⟩,
        fun hlater => absurd rfl hlater⟩ fun y hy row hrow x hx => ?_
      refine pixel_of_shows (show y < source.height from hheight ▸ hy)
        (fun y z => splitImage_mergeImage hsplits.depth_pos y z) hrow hx

theorem onePixel_fits : ArrayFits 1 1 .bgr888 [1, 2, 3] := by
  unfold ArrayFits
  decide

/-- A row of one colour pixel. -/
def onePixel : ArraySource := .ofData onePixel_fits

theorem threeLines_fits : ArrayFits 1 3 .i8 [1, 2, 3] := by
  unfold ArrayFits
  decide

/-- Three rows of one pixel each. -/
def threeLines : ArraySource := .ofData threeLines_fits

theorem monoLines_roundTrip_onePixel :
    (onePixel.format.channels = 3 ∧ getPixelFormatColorOrder onePixel.format = .ok .bgr ∧
      ∃ split merge, SplitMonoNode.ofSource onePixel.node = .ok split ∧
        MergeColorNode.ofSource split.node .bgr = .ok merge ∧
        HasRows merge.node ({ source := {} }, {}) fun y row => ∀ x < 1,
          getRawPixelFromRow row x .bgr888 = onePixel.pixel x y) ∧
    Node.mergedFormat threeLines.format .bgr = .ok .bgr888 ∧ threeLines.height % 3 = 0 ∧
      ∃ merge split, MergeColorNode.ofSource threeLines.node .bgr = .ok merge ∧
        SplitMonoNode.ofSource merge.node = .ok split ∧
        HasRows split.node { source := ({}, {}) } fun y row => ∀ x < 1,
          getRawPixelFromRow row x .i8 = threeLines.pixel x y := by
  have hcolour : onePixel.format.channels = 3 := rfl
  have horder : getPixelFormatColorOrder onePixel.format = .ok .bgr := rfl
  have hmerged : Node.mergedFormat threeLines.format .bgr = .ok .bgr888 := rfl
  have hthird : threeLines.height % 3 = 0 := rfl
  obtain ⟨split, merge, hsplit, hmerge, -, -, -, hrows⟩ :=
    monoLines_roundTrip.1 onePixel .bgr hcolour horder
  obtain ⟨merge', split', hmerge', hsplit', -, -, -, hrows'⟩ :=
    monoLines_roundTrip.2 threeLines .bgr .bgr888 hmerged hthird
  exact ⟨⟨hcolour, horder, split, merge, hsplit, hmerge, hrows⟩, hmerged, hthird, merge', split',
    hmerge', hsplit', hrows'⟩

end SaneBackends.Genesys
