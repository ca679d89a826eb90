import SaneBackends.Genesys.Desegment
/-!
# Shifted lines

`ImagePipelineNodeComponentShiftLines` and `ImagePipelineNodePixelShiftLines`, which make a row of
several rows of the source. Those that are still needed lie in a row buffer, a window that moves
down by one row with every call.
-/

namespace SaneBackends.Genesys

open SaneBackends.Lib

/-! ## The code -/

section Code

variable {σ : Type}

def popFrontRow {rowBytes : Nat} (buffer : RowBuffer rowBytes) :
    Except RowFailure (RowBuffer rowBytes) :=
  match buffer.popFront with
  | (.ok (), buffer) => .ok buffer
  | (.error failure, _) => .error (.thrown failure)

/-- The loop that fills the buffer up to a height. Each pass adds a row, so that it ends after at
most that many. -/
def refill (source : RowNode σ) (rows : Nat) :
    Nat → Bool × σ × RowBuffer source.rowBytes →
      Except RowFailure (Bool × σ × RowBuffer source.rowBytes)
  | 0, s => .ok s
  | fuel + 1, s =>
      if s.2.2.height < rows then do
        let buffer := s.2.2.pushBack
        let (got, st, buffer) ← buffer.getNextRow source s.2.1 (buffer.height - 1)
        refill source rows fuel (s.1 && got, st, buffer)
      else .ok s

/-- The row that is no longer needed is popped. -/
def popUnneeded {rowBytes : Nat} (buffer : RowBuffer rowBytes) :
    Except RowFailure (RowBuffer rowBytes) :=
  if !buffer.empty then popFrontRow buffer else .ok buffer

/-- What both nodes begin with. -/
def nextWindow (source : RowNode σ) (extraHeight : Nat) (st : σ)
    (buffer : RowBuffer source.rowBytes) :
    Except RowFailure (Bool × σ × RowBuffer source.rowBytes) := do
  let buffer ← popUnneeded buffer
  let rows := (extraHeight + 1) % 2 ^ 64
  refill source rows rows (true, st, buffer)

structure ComponentShiftNode (σ : Type) where
  source : RowNode σ
  channelShifts : List UInt32
  extraHeight : Nat
  height : Nat

namespace ComponentShiftNode

/-- The constructor. -/
def ofShifts (source : RowNode σ) (shiftR shiftG shiftB : UInt32) :
    Except Failure (ComponentShiftNode σ) := do
  let shifts ← Node.channelShifts source.format shiftR shiftG shiftB
  let extraHeight := (shifts.foldl max 0).toNat
  pure
    { source
      channelShifts := shifts
      extraHeight
      height := Node.shiftedHeight source.height extraHeight }

def shift (node : ComponentShiftNode σ) (channel : Nat) : Nat :=
  (node.channelShifts.getD channel 0).toNat

def getNextRowData (node : ComponentShiftNode σ) (st : σ × RowBuffer node.source.rowBytes)
    (out : List UInt8) :
    Except RowFailure (Bool × (σ × RowBuffer node.source.rowBytes) × List UInt8) := do
  let (gotData, source, buffer) ← nextWindow node.source node.extraHeight st.1 st.2
  let format := node.source.format
  let row0 ← buffer.rowData (node.shift 0)
  let row1 ← buffer.rowData (node.shift 1)
  let row2 ← buffer.rowData (node.shift 2)
  let out ← forTo node.source.width (fun x out => do
    let ch0 ← getRawChannelFromRow row0 x 0 format
    let ch1 ← getRawChannelFromRow row1 x 1 format
    let ch2 ← getRawChannelFromRow row2 x 2 format
    setRawChannelsToRow out x ch0 ch1 ch2 format) out
  .ok (gotData, (source, buffer), out)

def node (node : ComponentShiftNode σ) : RowNode (σ × RowBuffer node.source.rowBytes) where
  width := node.source.width
  height := node.height
  format := node.source.format
  getNextRowData := node.getNextRowData

end ComponentShiftNode

structure PixelShiftLinesNode (σ : Type) where
  source : RowNode σ
  pixelShifts : List UInt64
  extraHeight : Nat
  height : Nat

namespace PixelShiftLinesNode

/-- The constructor. -/
def ofShifts (source : RowNode σ) (shifts : List UInt64) : PixelShiftLinesNode σ :=
  let extraHeight := (shifts.foldl max 0).toNat
  { source
    pixelShifts := shifts
    extraHeight
    height := Node.shiftedHeight source.height extraHeight }

/-- The inner loop, with `x` and the row as its state. -/
def shiftGroup (width : Nat) (format : PixelFormat) (rows : List (List UInt8))
    (s : Nat × List UInt8) : Except RowFailure (Nat × List UInt8) :=
  forTo rows.length (fun irow s =>
    if s.1 < width then do
      let pixel ← getRawPixelFromRow (rows.getD irow []) s.1 format
      let out ← setRawPixelToRow s.2 s.1 pixel format
      .ok (s.1 + 1, out)
    else .ok s) s

/-- The outer loop. Each pass stores a pixel, so that it ends after at most `width` of them. -/
def shiftGroups (width : Nat) (format : PixelFormat) (rows : List (List UInt8)) :
    Nat → Nat × List UInt8 → Except RowFailure (Nat × List UInt8)
  | 0, s => .ok s
  | fuel + 1, s =>
      if s.1 < width then do
        let s ← shiftGroup width format rows s
        shiftGroups width format rows fuel s
      else .ok s

def getNextRowData (node : PixelShiftLinesNode σ) (st : σ × RowBuffer node.source.rowBytes)
    (out : List UInt8) :
    Except RowFailure (Bool × (σ × RowBuffer node.source.rowBytes) × List UInt8) := do
  let (gotData, source, buffer) ← nextWindow node.source node.extraHeight st.1 st.2
  let rows ← node.pixelShifts.mapM fun shift => buffer.rowData shift.toNat
  let s ← shiftGroups node.source.width node.source.format rows node.source.width (0, out)
  .ok (gotData, (source, buffer), s.2)

def node (node : PixelShiftLinesNode σ) : RowNode (σ × RowBuffer node.source.rowBytes) where
  width := node.source.width
  height := node.height
  format := node.source.format
  getNextRowData := node.getNextRowData

end PixelShiftLinesNode

end Code

/-! ## The window -/

section Window

variable {σ : Type} {source : RowNode σ} {R : Nat → List UInt8 → Prop} {I : Nat → σ → Prop}

/-- The buffer holds rows of the source from row `y` on, and the source is behind them. -/
structure Window (R : Nat → List UInt8 → Prop) (I : Nat → σ → Prop) (y : Nat) (st : σ)
    {rowBytes : Nat} (buffer : RowBuffer rowBytes) : Prop where
  sound : buffer.Sound
  state : I (y + buffer.height) st
  rows : ∀ i < buffer.height, R (y + i) (buffer.row i)

/-- The window is full before every row but the first. -/
def Ready (R : Nat → List UInt8 → Prop) (I : Nat → σ → Prop) (height : Nat) {rowBytes : Nat} :
    Nat → σ × RowBuffer rowBytes → Prop
  | 0, s => Window R I 0 s.1 s.2 ∧ s.2.height = 0
  | y + 1, s => Window R I y s.1 s.2 ∧ s.2.height = height

theorem ready_start {rowBytes : Nat} {st : σ} (h : I 0 st) (height : Nat) :
    Ready R I height 0 (st, ({} : RowBuffer rowBytes)) :=
  ⟨⟨RowBuffer.sound_fresh, h, fun i hi => absurd hi (Nat.not_lt_zero i)⟩, rfl⟩

/-- The row that is no longer needed leaves the window. -/
theorem popFrontRow_window {rowBytes y : Nat} {st : σ} {buffer : RowBuffer rowBytes}
    (h : Window R I y st buffer) (hheight : 0 < buffer.height) :
    ∃ buffer', popFrontRow buffer = .ok buffer' ∧ Window R I (y + 1) st buffer' ∧
      buffer'.height + 1 = buffer.height := by
  have hempty : ¬ buffer.empty = true := by
    rw [h.sound.empty_iff]
    omega
  obtain ⟨buffer', hpop, hsound, hheight', hbytes⟩ := RowBuffer.popFront_spec h.sound hempty
  refine ⟨buffer', by rw [popFrontRow, hpop], ⟨hsound, ?_, fun i hi => ?_⟩, by omega⟩
  · rw [Nat.add_assoc, Nat.add_comm 1, hheight', Nat.sub_add_cancel hheight]
    exact h.state
  · rw [RowBuffer.row_popFront h.sound (by omega) hsound hheight' hbytes, Nat.add_assoc,
      Nat.add_comm 1]
    exact h.rows (i + 1) (by omega)

theorem refill_window (hsource : DeliversRows source R I) {y rows : Nat}
    (hrows : y + rows ≤ source.height) (fuel : Nat) {st : σ}
    {buffer : RowBuffer source.rowBytes} (h : Window R I y st buffer)
    (hheight : buffer.height ≤ rows) (hfuel : rows ≤ buffer.height + fuel) :
    ∃ st' buffer', refill source rows fuel (true, st, buffer) = .ok (true, st', buffer') ∧
      Window R I y st' buffer' ∧ buffer'.height = rows := by
  induction fuel generalizing st buffer with
  | zero => exact ⟨st, buffer, rfl, h, by omega⟩
  | succ fuel ih =>
      rw [refill]
      dsimp only
      by_cases hfull : buffer.height < rows
      · obtain ⟨hpushed, hpushedHeight, -⟩ := RowBuffer.pushBack_spec h.sound
        obtain ⟨st', buffer', hget, hinv, hsound, hheight', hrow, hother, -, -⟩ :=
          RowBuffer.getNextRow_spec hpushed hsource
            (show buffer.pushBack.height - 1 < buffer.pushBack.height by omega)
            (show y + buffer.height < source.height by omega) h.state
        have hlast : buffer.pushBack.height - 1 = buffer.height := by omega
        have hwindow : Window R I y st' buffer' := by
          refine ⟨hsound, ?_, fun i hi => ?_⟩
          · rw [hheight', hpushedHeight]
            exact hinv
          · by_cases hnew : i = buffer.height
            · rw [hnew, ← hlast]
              rwa [← hlast] at hrow
            · have hold : i < buffer.height := by omega
              rw [hother i (by omega) (by omega), RowBuffer.row_pushBack h.sound hold]
              exact h.rows i hold
        obtain ⟨st'', buffer'', hrest, hdone⟩ := ih hwindow (by omega) (by omega)
        refine ⟨st'', buffer'', ?_, hdone⟩
        rw [if_pos hfull, hget, ok_bind]
        exact hrest
      · rw [if_neg hfull]
        exact ⟨st, buffer, rfl, h, by omega⟩

/-- The window moves down by one row. -/
theorem nextWindow_spec (hsource : DeliversRows source R I) {y extraHeight : Nat}
    (hrows : y + extraHeight < source.height) (hsize : source.height < 2 ^ 64)
    {s : σ × RowBuffer source.rowBytes} (h : Ready R I (extraHeight + 1) y s) :
    ∃ st' buffer', nextWindow source extraHeight s.1 s.2 = .ok (true, st', buffer') ∧
      Ready R I (extraHeight + 1) (y + 1) (st', buffer') := by
  obtain ⟨buffer, hpop, hwindow, hheight⟩ : ∃ buffer, popUnneeded s.2 = .ok buffer ∧
      Window R I y s.1 buffer ∧ buffer.height ≤ extraHeight + 1 := by
    unfold popUnneeded
    cases y with
    | zero =>
        obtain ⟨hwindow, hheight⟩ := h
        have hempty : s.2.empty = true := hwindow.sound.empty_iff.mpr hheight
        rw [hempty]
        exact ⟨s.2, rfl, hwindow, by omega⟩
    | succ y =>
        obtain ⟨hwindow, hheight⟩ := h
        have hempty : s.2.empty = false := by
          rw [Bool.eq_false_iff, ne_eq, hwindow.sound.empty_iff]
          omega
        obtain ⟨buffer, hpop, hwindow', hheight'⟩ := popFrontRow_window hwindow (by omega)
        rw [hempty]
        exact ⟨buffer, hpop, hwindow', by omega⟩
  have hmod : (extraHeight + 1) % 2 ^ 64 = extraHeight + 1 := Nat.mod_eq_of_lt (by omega)
  obtain ⟨st', buffer', hrefill, hwindow', hheight'⟩ :=
    @refill_window _ _ _ _ hsource _ (extraHeight + 1) (by omega) (extraHeight + 1) _ _ hwindow
      hheight (by omega)
  refine ⟨st', buffer', ?_, hwindow', hheight'⟩
  rw [nextWindow, hpop, ok_bind]
  dsimp only
  rw [hmod, hrefill]

/-- What is read through the pointer to a row of the window. -/
theorem Window.rowData {bits y i : Nat} {image : Nat → Nat → Bool} {st : σ}
    {buffer : RowBuffer source.rowBytes} (h : Window (Shows bits image) I y st buffer)
    (hi : i < buffer.height) (hbits : bits ≤ 8 * source.rowBytes) :
    ∃ data, buffer.rowData i = .ok data ∧ Shows bits image (y + i) data := by
  refine ⟨_, RowBuffer.rowData_eq hi, fun z hz => ?_⟩
  rw [RowBuffer.bitAt_rowData (by omega)]
  exact h.rows i hi z hz

end Window

/-! ## Shifted components -/

namespace ComponentShiftNode

variable {σ : Type} {node : ComponentShiftNode σ} {image : Nat → Nat → Bool} {I : Nat → σ → Prop}

/-- The bits of a channel come from the row that is that far down. -/
def shiftedImage (node : ComponentShiftNode σ) (image : Nat → Nat → Bool) (y z : Nat) : Bool :=
  image (y + node.shift (z % node.source.format.totalBits / node.source.format.depth)) z

theorem delivers (hcolour : node.source.format.channels = 3)
    (hsource : DeliversRows node.source
      (Shows (node.source.width * node.source.format.totalBits) image) I)
    (hsize : node.source.height < 2 ^ 64) (hshift : ∀ c < 3, node.shift c ≤ node.extraHeight)
    (hheight : node.height + node.extraHeight ≤ node.source.height ∨ node.height = 0) :
    DeliversRows node.node
      (Shows (node.source.width * node.source.format.totalBits) (node.shiftedImage image))
      (Ready (Shows (node.source.width * node.source.format.totalBits) image) I
        (node.extraHeight + 1)) where
  step := fun {y s out} hy hready hout => by
    have hyHeight : y < node.height := hy
    have hroom := bits_le_rowSize node.source.format node.source.width
    have hout' : rowSize node.source.format node.source.width ≤ out.length := hout
    obtain ⟨st', buffer', hnext, hready'⟩ :=
      nextWindow_spec hsource (show y + node.extraHeight < node.source.height by omega) hsize
        hready
    obtain ⟨hwindow, hfull⟩ : Window (Shows _ image) I y st' buffer' ∧
      buffer'.height = node.extraHeight + 1 := hready'
    have hrow : ∀ c < 3, ∃ data, buffer'.rowData (node.shift c) = .ok data ∧
        Shows (node.source.width * node.source.format.totalBits) image (y + node.shift c) data := by
      intro c hc
      have hle := hshift c hc
      exact hwindow.rowData (by omega) hroom
    obtain ⟨row0, hrow0, hshows0⟩ := hrow 0 (by decide)
    obtain ⟨row1, hrow1, hshows1⟩ := hrow 1 (by decide)
    obtain ⟨row2, hrow2, hshows2⟩ := hrow 2 (by decide)
    have hdepth := totalBits_eq node.source.format
    rw [hcolour] at hdepth
    have hpos := depth_pos (known_of_channels hcolour)
    obtain ⟨out', hloop, hwrote⟩ := @wrote_forTo out node.source.width _
      node.source.format.totalBits
      (fun x out => do
        let ch0 ← getRawChannelFromRow row0 x 0 node.source.format
        let ch1 ← getRawChannelFromRow row1 x 1 node.source.format
        let ch2 ← getRawChannelFromRow row2 x 2 node.source.format
        setRawChannelsToRow out x ch0 ch1 ch2 node.source.format)
      (fun x k => node.shiftedImage image y (x * node.source.format.totalBits + k))
      fun x hx out₁ hlength => by
        have hpixel : x * node.source.format.totalBits + node.source.format.totalBits ≤
            node.source.width * node.source.format.totalBits := part_end_le hx
        obtain ⟨ch0, ch1, ch2, out₂, hget0, hget1, hget2, hset, hwrote⟩ :=
          @copyChannels_wrote out₁ node.source.format x node.source.format hcolour rfl x
            (fun c => [row0, row1, row2].getD c []) (fun c => c)
            (fun c hc => by rw [hcolour]; exact hc)
            (fun c k => image (y + node.shift c)
              (node.source.format.channelPlace x c + k))
            (fun c hc k hk => by
              have hplace : node.source.format.channelPlace x c + k <
                  node.source.width * node.source.format.totalBits := by
                rw [PixelFormat.channelPlace]
                interval_cases c <;> omega
              interval_cases c
              · exact hshows0 _ hplace
              · exact hshows1 _ hplace
              · exact hshows2 _ hplace)
            (by omega)
        refine ⟨out₂, ?_, hwrote.congr fun k hk => ?_⟩
        · have hget0' : getRawChannelFromRow row0 x 0 node.source.format = .ok ch0 := hget0
          have hget1' : getRawChannelFromRow row1 x 1 node.source.format = .ok ch1 := hget1
          have hget2' : getRawChannelFromRow row2 x 2 node.source.format = .ok ch2 := hget2
          rw [hget0', ok_bind, hget1', ok_bind, hget2', ok_bind, hset]
        · have hplace : node.source.format.channelPlace x (k / node.source.format.depth) +
              k % node.source.format.depth = x * node.source.format.totalBits + k := by
            rw [PixelFormat.channelPlace, Nat.add_assoc, Nat.mul_comm (_ / _), Nat.div_add_mod]
          rw [hplace, shiftedImage, Nat.mul_add_mod_self_right, Nat.mod_eq_of_lt hk]
    refine ⟨(st', buffer'), out', ?_, ⟨hwindow, hfull⟩, hwrote.length, fun z hz => ?_⟩
    · change node.getNextRowData s out = _
      rw [getNextRowData, hnext, ok_bind]
      dsimp only
      rw [hrow0, ok_bind, hrow1, ok_bind, hrow2, ok_bind, hloop, ok_bind]
    · have hbit := hwrote.inside hz
      rw [Nat.zero_add] at hbit
      rw [hbit, Nat.mul_comm (z / _), Nat.div_add_mod]

end ComponentShiftNode

/-! ## Shifted pixels -/

theorem mapM_eq_ok {α β ε : Type} {f : α → Except ε β} {g : α → β} (as : List α)
    (h : ∀ a ∈ as, f a = .ok (g a)) : as.mapM f = .ok (as.map g) := by
  induction as with
  | nil => rfl
  | cons a as ih =>
      rw [List.mapM_cons, h a List.mem_cons_self, ok_bind,
        ih fun b hb => h b (List.mem_cons_of_mem a hb)]
      rfl

namespace PixelShiftLinesNode

section Row

variable {width : Nat} {format : PixelFormat} {rows : List (List UInt8)} {out : List UInt8}

/-- A bit of the row that is made of these rows by turns. -/
def turnBit (format : PixelFormat) (rows : List (List UInt8)) (z : Nat) : Bool :=
  rowBit (rows.getD (z / format.totalBits % rows.length) []) z

/-- The pixels in front of `x` are stored. -/
def Stored (format : PixelFormat) (rows : List (List UInt8)) (out : List UInt8)
    (s : Nat × List UInt8) : Prop :=
  Wrote out s.2 0 (s.1 * format.totalBits) (turnBit format rows)

/-- One pixel is stored. -/
theorem stored_step (hknown : format ≠ .unknown) {s : Nat × List UInt8} (hx : s.1 < width)
    (hrows : ∀ row ∈ rows, width * format.totalBits ≤ 8 * row.length)
    (hout : width * format.totalBits ≤ 8 * out.length) {irow : Nat} (hirow : irow < rows.length)
    (hturn : s.1 % rows.length = irow) (h : Stored format rows out s) :
    ∃ pixel out', getRawPixelFromRow (rows.getD irow []) s.1 format = .ok pixel ∧
      setRawPixelToRow s.2 s.1 pixel format = .ok out' ∧
      Stored format rows out (s.1 + 1, out') := by
  have hmem : rows.getD irow [] ∈ rows := by
    rw [List.getD_eq_getElem _ _ hirow]
    exact List.getElem_mem hirow
  have hline := hrows _ hmem
  have hpixel : s.1 * format.totalBits + format.totalBits ≤ width * format.totalBits :=
    part_end_le hx
  have hlength := h.length
  obtain ⟨pixel, out', hget, hset, hwrote⟩ := @copyPixel_wrote (rows.getD irow [])
    s.2 format s.1 s.1 hknown (by omega) (by omega)
  refine ⟨pixel, out', hget, hset, h.item hwrote fun k hk => ?_⟩
  rw [turnBit, part_div hk, hturn]

/-- The inner loop stores a pixel of every row, as far as the row goes. -/
theorem shiftGroup_stored (hknown : format ≠ .unknown) {s : Nat × List UInt8}
    (hx : s.1 ≤ width) (hturn : s.1 % rows.length = 0)
    (hrows : ∀ row ∈ rows, width * format.totalBits ≤ 8 * row.length)
    (hout : width * format.totalBits ≤ 8 * out.length) (h : Stored format rows out s) :
    ∃ s', shiftGroup width format rows s = .ok s' ∧ s'.1 = min (s.1 + rows.length) width ∧
      Stored format rows out s' := by
  refine forTo_invariant (I := fun i (t : Nat × List UInt8) =>
    t.1 = min (s.1 + i) width ∧ Stored format rows out t) ⟨by omega, h⟩ fun i hi t ht => ?_
  obtain ⟨hplace, hstored⟩ := ht
  by_cases hinside : t.1 < width
  · have hnow : t.1 = s.1 + i := by omega
    obtain ⟨pixel, out', hget, hset, hstored'⟩ := stored_step hknown hinside hrows hout hi
      (by rw [hnow, Nat.add_mod, hturn, Nat.zero_add, Nat.mod_mod, Nat.mod_eq_of_lt hi]) hstored
    refine ⟨(t.1 + 1, out'), ?_, by dsimp only; omega, hstored'⟩
    rw [if_pos hinside, hget, ok_bind, hset, ok_bind]
  · exact ⟨t, if_neg hinside, by omega, hstored⟩

theorem shiftGroups_stored (hknown : format ≠ .unknown) (hsome : 0 < rows.length)
    (hrows : ∀ row ∈ rows, width * format.totalBits ≤ 8 * row.length)
    (hout : width * format.totalBits ≤ 8 * out.length) (fuel : Nat) {s : Nat × List UInt8}
    (hx : s.1 ≤ width) (hfuel : width ≤ s.1 + fuel)
    (hturn : s.1 % rows.length = 0 ∨ s.1 = width) (h : Stored format rows out s) :
    ∃ s', shiftGroups width format rows fuel s = .ok s' ∧ s'.1 = width ∧
      Stored format rows out s' := by
  induction fuel generalizing s with
  | zero => exact ⟨s, rfl, by omega, h⟩
  | succ fuel ih =>
      rw [shiftGroups]
      by_cases hinside : s.1 < width
      · have hstart : s.1 % rows.length = 0 := hturn.resolve_right (Nat.ne_of_lt hinside)
        obtain ⟨s₁, hgroup, hplace, hstored⟩ :=
          shiftGroup_stored hknown hx hstart hrows hout h
        have hturn' : s₁.1 % rows.length = 0 ∨ s₁.1 = width := by
          by_cases hend : s.1 + rows.length ≤ width
          · left
            rw [hplace, Nat.min_eq_left hend, Nat.add_mod_right, hstart]
          · right
            omega
        obtain ⟨s₂, hrest, hdone⟩ := ih (by omega) (by omega) hturn' hstored
        exact ⟨s₂, by rw [if_pos hinside, hgroup, ok_bind, hrest], hdone⟩
      · rw [if_neg hinside]
        exact ⟨s, rfl, by omega, h⟩

end Row

variable {σ : Type} {node : PixelShiftLinesNode σ} {image : Nat → Nat → Bool} {I : Nat → σ → Prop}

/-- How far down the row is that a pixel comes from. -/
def shift (node : PixelShiftLinesNode σ) (x : Nat) : Nat :=
  (node.pixelShifts.getD (x % node.pixelShifts.length) 0).toNat

/-- The bits of a pixel come from the row that is that far down. -/
def shiftedImage (node : PixelShiftLinesNode σ) (image : Nat → Nat → Bool) (y z : Nat) : Bool :=
  image (y + node.shift (z / node.source.format.totalBits)) z

theorem delivers (hknown : node.source.format ≠ .unknown) (hsome : node.pixelShifts ≠ [])
    (hsource : DeliversRows node.source
      (Shows (node.source.width * node.source.format.totalBits) image) I)
    (hsize : node.source.height < 2 ^ 64)
    (hshift : ∀ shift ∈ node.pixelShifts, shift.toNat ≤ node.extraHeight)
    (hheight : node.height + node.extraHeight ≤ node.source.height ∨ node.height = 0) :
    DeliversRows node.node
      (Shows (node.source.width * node.source.format.totalBits) (node.shiftedImage image))
      (Ready (Shows (node.source.width * node.source.format.totalBits) image) I
        (node.extraHeight + 1)) where
  step := fun {y s out} hy hready hout => by
    have hyHeight : y < node.height := hy
    have hroom := bits_le_rowSize node.source.format node.source.width
    have hout' : rowSize node.source.format node.source.width ≤ out.length := hout
    have hlength : 0 < node.pixelShifts.length := List.length_pos_of_ne_nil hsome
    obtain ⟨st', buffer', hnext, hready'⟩ :=
      nextWindow_spec hsource (show y + node.extraHeight < node.source.height by omega) hsize
        hready
    obtain ⟨hwindow, hfull⟩ : Window (Shows _ image) I y st' buffer' ∧
      buffer'.height = node.extraHeight + 1 := hready'
    -- the rows behind the pointers
    obtain ⟨rowOf, hrowOf⟩ : ∃ rowOf : UInt64 → List UInt8, ∀ shift ∈ node.pixelShifts,
        buffer'.rowData shift.toNat = .ok (rowOf shift) ∧
          Shows (node.source.width * node.source.format.totalBits) image (y + shift.toNat)
            (rowOf shift) := by
      refine ⟨fun shift => buffer'.data.drop
        (node.source.rowBytes * buffer'.getRowIndex shift.toNat), fun shift hmem => ?_⟩
      have hle := hshift shift hmem
      have hinside : shift.toNat < buffer'.height := by omega
      obtain ⟨data, hdata, hshows⟩ := hwindow.rowData hinside hroom
      rw [RowBuffer.rowData_eq hinside] at hdata ⊢
      cases hdata
      exact ⟨rfl, hshows⟩
    have hrows : ∀ row ∈ node.pixelShifts.map rowOf,
        node.source.width * node.source.format.totalBits ≤ 8 * row.length := by
      intro row hmem
      obtain ⟨shift, hin, rfl⟩ := List.mem_map.mp hmem
      by_contra hshort
      have hshows := (hrowOf shift hin).2 (8 * (rowOf shift).length) (by omega)
      exact Nat.lt_irrefl _ (lt_of_bitAt hshows)
    obtain ⟨s', hloop, hwidth, hstored⟩ := @shiftGroups_stored _ _
      (node.pixelShifts.map rowOf) _ hknown (by rw [List.length_map]; exact hlength) hrows
      (show node.source.width * node.source.format.totalBits ≤ 8 * out.length by omega)
      node.source.width (0, out) (Nat.zero_le _) (by omega) (.inl (Nat.zero_mod _))
      (by
        unfold Stored
        rw [Nat.zero_mul]
        exact .refl out 0 _)
    rw [Stored, hwidth] at hstored
    refine ⟨(st', buffer'), s'.2, ?_, ⟨hwindow, hfull⟩, hstored.length, fun z hz => ?_⟩
    · change node.getNextRowData s out = _
      rw [getNextRowData, hnext, ok_bind]
      dsimp only
      rw [mapM_eq_ok _ fun shift hmem => (hrowOf shift hmem).1, ok_bind, hloop, ok_bind]
    · have hbit := hstored.inside hz
      rw [Nat.zero_add] at hbit
      have hturn : z / node.source.format.totalBits % node.pixelShifts.length <
          node.pixelShifts.length := Nat.mod_lt _ hlength
      have hmem := List.getElem_mem hturn
      rw [hbit, turnBit, List.length_map, rowBit, shiftedImage, shift,
        List.getD_eq_getElem _ _ (by rw [List.length_map]; exact hturn), List.getElem_map,
        (hrowOf _ hmem).2 z hz, List.getD_eq_getElem _ _ hturn]
      rfl

end PixelShiftLinesNode

/-! ## Shifted images -/

inductive Component where
  | red | green | blue
  deriving DecidableEq, Repr

/-- The channel in which a colour format has a component. -/
def PixelFormat.channelOf (format : PixelFormat) : Component → Nat
  | .red => if format = .bgr888 ∨ format = .bgr161616 then 2 else 0
  | .green => 1
  | .blue => if format = .bgr888 ∨ format = .bgr161616 then 0 else 2

/-- A channel of a pixel of the source. -/
def ArraySource.channel (source : ArraySource) (x y channel : Nat) : Except RowFailure UInt16 :=
  getRawChannelFromRow (source.row y) x channel source.format

def Component.shift (r g b : UInt32) : Component → Nat
  | .red => r.toNat
  | .green => g.toNat
  | .blue => b.toNat

/-- All rows of the node can be got, and `P` holds of each with its number. -/
def HasRows {σ : Type} (node : RowNode σ) (start : σ) (P : Nat → List UInt8 → Prop) : Prop :=
  ∀ outs : List (List UInt8), outs.length = node.height →
    (∀ out ∈ outs, node.rowBytes ≤ out.length) →
    ∃ rows, node.getRows start outs = .ok rows ∧ rows.length = node.height ∧
      ∀ y got row, rows[y]? = some (got, row) → got = true ∧ P y row

theorem DeliversRows.hasRows {σ : Type} {node : RowNode σ} {R : Nat → List UInt8 → Prop}
    {I : Nat → σ → Prop} (h : DeliversRows node R I) {start : σ} (hstart : I 0 start)
    {P : Nat → List UInt8 → Prop} (hP : ∀ y < node.height, ∀ row, R y row → P y row) :
    HasRows node start P := by
  intro outs hlength houts
  obtain ⟨rows, hrun, hcount, hrows⟩ := h.getRows hstart (by omega) houts
  refine ⟨rows, hrun, hcount.trans hlength, fun y got row hrow => ?_⟩
  have hy := (List.getElem?_eq_some_iff.mp hrow).1
  obtain ⟨hgot, hR⟩ := hrows y got row hrow
  rw [Nat.zero_add] at hR
  exact ⟨hgot, hP y (by omega) row hR⟩

section Array

variable {source : ArraySource}

/-- The image of an array, as far as its pixels go. -/
theorem ArraySource.deliversPixels (source : ArraySource) :
    DeliversRows source.node (Shows (source.width * source.format.totalBits) source.image)
      (fun y st => st.nextRow = y) :=
  source.delivers.mono fun _ _ hshows => hshows.mono (bits_le_rowSize _ _)

theorem toNat_max32 (a b : UInt32) : (max a b).toNat = max a.toNat b.toNat := by
  rw [show max a b = if a ≤ b then b else a from rfl]
  split_ifs with hle <;> rw [UInt32.le_iff_toNat_le] at hle <;> omega

theorem toNat_max64 (a b : UInt64) : (max a b).toNat = max a.toNat b.toNat := by
  rw [show max a b = if a ≤ b then b else a from rfl]
  split_ifs with hle <;> rw [UInt64.le_iff_toNat_le] at hle <;> omega

/-- The greatest shift is one of them, or the one that the search begins with. -/
theorem foldl_max_spec (shifts : List UInt64) (init : UInt64) :
    (∀ shift ∈ shifts, shift.toNat ≤ (shifts.foldl max init).toNat) ∧
      init.toNat ≤ (shifts.foldl max init).toNat ∧
      ((shifts.foldl max init).toNat = init.toNat ∨
        ∃ shift ∈ shifts, shift.toNat = (shifts.foldl max init).toNat) := by
  induction shifts generalizing init with
  | nil => exact ⟨fun shift hmem => absurd hmem List.not_mem_nil, Nat.le_refl _, .inl rfl⟩
  | cons first shifts ih =>
      obtain ⟨hall, hinit, hmost⟩ := ih (max init first)
      rw [List.foldl_cons]
      rw [toNat_max64] at hinit hmost
      refine ⟨fun shift hmem => ?_, by omega, ?_⟩
      · cases List.mem_cons.mp hmem with
        | inl heq =>
            rw [heq]
            omega
        | inr hmem => exact hall shift hmem
      · cases hmost with
        | inr hlater =>
            obtain ⟨shift, hmem, heq⟩ := hlater
            exact .inr ⟨shift, List.mem_cons_of_mem _ hmem, heq⟩
        | inl heq =>
            by_cases hle : first.toNat ≤ init.toNat
            · exact .inl (by omega)
            · exact .inr ⟨first, List.mem_cons_self, by omega⟩

/-- The shifts of the channels are those of the components. -/
theorem ofShifts_eq {r g b : UInt32} (hcolour : source.format.channels = 3) :
    ∃ node, ComponentShiftNode.ofShifts source.node r g b = .ok node ∧ node.source = source.node ∧
      node.extraHeight = max r.toNat (max g.toNat b.toNat) ∧
      node.height = source.height - max r.toNat (max g.toNat b.toNat) ∧
      ∀ component, node.shift (source.format.channelOf component) = component.shift r g b := by
  have hmax : ∀ r g b : UInt32, ([r, g, b].foldl max 0).toNat =
      max r.toNat (max g.toNat b.toNat) := by
    intro r g b
    simp only [List.foldl_cons, List.foldl_nil, toNat_max32, UInt32.toNat_zero]
    omega
  have hmade : ∀ shifts : List UInt32,
      Node.channelShifts source.format r g b = .ok shifts →
      (shifts.foldl max 0).toNat = max r.toNat (max g.toNat b.toNat) →
      (∀ component : Component, (shifts.getD (source.format.channelOf component) 0).toNat =
        component.shift r g b) →
      ∃ node, ComponentShiftNode.ofShifts source.node r g b = .ok node ∧
        node.source = source.node ∧ node.extraHeight = max r.toNat (max g.toNat b.toNat) ∧
        node.height = source.height - max r.toNat (max g.toNat b.toNat) ∧
        ∀ component, node.shift (source.format.channelOf component) = component.shift r g b := by
    intro shifts hshifts hextra hcomponents
    have hformat : Node.channelShifts source.node.format r g b = .ok shifts := hshifts
    refine ⟨{ source := source.node, channelShifts := shifts
              extraHeight := (shifts.foldl max 0).toNat
              height := Node.shiftedHeight source.node.height (shifts.foldl max 0).toNat },
      by rw [ComponentShiftNode.ofShifts, hformat]; rfl, rfl, hextra, ?_, hcomponents⟩
    dsimp only
    rw [hextra, shiftedHeight_eq]
    rfl
  cases hformat : source.format with
  | unknown | i1 | i8 | i16 =>
      rw [hformat] at hcolour
      cases hcolour
  | rgb111 | rgb888 | rgb161616 =>
      rw [hformat] at hmade
      refine hmade [r, g, b] rfl (hmax r g b) fun component => ?_
      cases component <;> rfl
  | bgr888 | bgr161616 =>
      rw [hformat] at hmade
      refine hmade [b, g, r] rfl ?_ fun component => ?_
      · rw [hmax]
        omega
      · cases component <;> rfl

theorem source_ready {R : Nat → List UInt8 → Prop} {height rowBytes : Nat} :
    Ready R (fun y st => st.nextRow = y) height 0
      (({} : SourceState), ({} : RowBuffer rowBytes)) :=
  @ready_start SourceState R (fun y st => st.nextRow = y) rowBytes {} rfl height

theorem channelOf_lt (format : PixelFormat) (component : Component) :
    format.channelOf component < 3 := by
  cases component with
  | green => exact Nat.lt_succ_of_lt (Nat.lt_succ_self 1)
  | red | blue =>
      dsimp only [PixelFormat.channelOf]
      split_ifs
      · decide
      · decide

/-- The bits of a channel lie in those of its pixel. -/
theorem channelPlace_lt {format : PixelFormat} {x width channel k : Nat} (hx : x < width)
    (hchannel : channel < format.channels) (hk : k < format.depth) :
    format.channelPlace x channel + k < width * format.totalBits := by
  have hpart := part_lt hchannel hk
  rw [PixelFormat.channelPlace, Nat.add_assoc]
  refine part_lt hx ?_
  rw [totalBits_eq]
  exact hpart

theorem component_pixel {node : ComponentShiftNode SourceState} {r g b : UInt32}
    (hcolour : source.format.channels = 3) (hsource : node.source = source.node)
    (hshift : ∀ component,
      node.shift (source.format.channelOf component) = component.shift r g b) {y : Nat}
    {row : List UInt8}
    (hinside : ∀ component : Component, y + component.shift r g b < source.height)
    (h : Shows (source.width * source.format.totalBits) (node.shiftedImage source.image) y row)
    {x : Nat} (hx : x < source.width) (component : Component) :
    getRawChannelFromRow row x (source.format.channelOf component) source.format =
      source.channel x (y + component.shift r g b) (source.format.channelOf component) := by
  have hchannel : source.format.channelOf component < source.format.channels :=
    hcolour ▸ channelOf_lt source.format component
  have hformat : node.source.format = source.format := by rw [hsource]; rfl
  have hroom := bits_le_rowSize source.format source.width
  have hlength := length_row (hinside component)
  have hpos := depth_pos (known_of_channels hcolour)
  have hlast := channelPlace_lt (k := source.format.depth - 1) hx hchannel (by omega)
  refine getRawChannelFromRow_congr_bits hchannel hchannel rfl (by omega) fun k hk => ?_
  have hz := channelPlace_lt hx hchannel hk
  have hin : source.format.channelOf component * source.format.depth + k <
      source.format.totalBits := by
    rw [totalBits_eq]
    exact part_lt hchannel hk
  have hplace : source.format.channelPlace x (source.format.channelOf component) + k =
      x * source.format.totalBits +
        (source.format.channelOf component * source.format.depth + k) := by
    rw [PixelFormat.channelPlace, Nat.add_assoc]
  rw [h _ hz, ComponentShiftNode.shiftedImage, hformat, bitAt_of_lt (by omega)]
  rw [hplace, part_mod hin, part_div hk, hshift]
  rfl

theorem shifted_pixel {shifts : List UInt64} {y : Nat} {row : List UInt8}
    (hinside : ∀ x, y + (PixelShiftLinesNode.ofShifts source.node shifts).shift x < source.height)
    (h : Shows (source.width * source.format.totalBits)
      ((PixelShiftLinesNode.ofShifts source.node shifts).shiftedImage source.image) y row)
    {x : Nat} (hx : x < source.width) :
    getRawPixelFromRow row x source.format =
      source.pixel x (y + (PixelShiftLinesNode.ofShifts source.node shifts).shift x) := by
  have hroom := bits_le_rowSize source.format source.width
  refine getRawPixelFromRow_congr_bits fun k hk => ?_
  have hz := part_lt hx hk
  have hformat : (PixelShiftLinesNode.ofShifts source.node shifts).source.format =
      source.format := rfl
  rw [h _ hz, PixelShiftLinesNode.shiftedImage, hformat, part_div hk, bitAt_of_lt]
  · rfl
  · rw [length_row (hinside x)]
    omega

end Array

/-- Every row of the two nodes is made of the rows of the source that are that far down. -/
theorem shiftLines_rows :
    (∀ (source : ArraySource) (r g b : UInt32), source.format.channels = 3 →
      ∃ node, ComponentShiftNode.ofShifts source.node r g b = .ok node ∧
        node.node.width = source.width ∧ node.node.format = source.format ∧
        node.node.height = source.height - max r.toNat (max g.toNat b.toNat) ∧
        HasRows node.node ({}, {}) fun y row => ∀ x < source.width, ∀ component : Component,
          getRawChannelFromRow row x (source.format.channelOf component) source.format =
            source.channel x (y + component.shift r g b) (source.format.channelOf component)) ∧
    ∀ (source : ArraySource) (shifts : List UInt64), shifts ≠ [] →
      let node := (PixelShiftLinesNode.ofShifts source.node shifts).node
      node.width = source.width ∧ node.format = source.format ∧
        (∃ most ∈ shifts, (∀ shift ∈ shifts, shift.toNat ≤ most.toNat) ∧
          node.height = source.height - most.toNat) ∧
        HasRows node ({}, {}) fun y row => ∀ x < source.width,
          getRawPixelFromRow row x source.format =
            source.pixel x (y + (shifts.getD (x % shifts.length) 0).toNat) := by
  constructor
  · intro source r g b hcolour
    obtain ⟨node, hmade, hsource, hextra, hheight, hshift⟩ := ofShifts_eq (r := r) (g := g) (b := b)
      hcolour
    have hcomponent : ∀ component : Component, component.shift r g b ≤ node.extraHeight := by
      intro component
      rw [hextra]
      cases component <;> unfold Component.shift <;> dsimp only <;> omega
    have hchannel : ∀ c < 3, node.shift c ≤ node.extraHeight := by
      intro c hc
      obtain ⟨component, hthere⟩ : ∃ component, source.format.channelOf component = c := by
        unfold PixelFormat.channelOf
        by_cases hbgr : source.format = .bgr888 ∨ source.format = .bgr161616
        · interval_cases c
          · exact ⟨.blue, if_pos hbgr⟩
          · exact ⟨.green, rfl⟩
          · exact ⟨.red, if_pos hbgr⟩
        · interval_cases c
          · exact ⟨.red, if_neg hbgr⟩
          · exact ⟨.green, rfl⟩
          · exact ⟨.blue, if_neg hbgr⟩
      rw [← hthere, hshift]
      exact hcomponent component
    have hsize : node.source.height < 2 ^ 64 := by
      rw [hsource]
      exact source.height_lt
    have hlow : node.height + node.extraHeight ≤ node.source.height ∨ node.height = 0 := by
      have hsourceHeight : node.source.height = source.height := by rw [hsource]; rfl
      omega
    have hwidth : node.source.width = source.width := by rw [hsource]; rfl
    have hformat : node.source.format = source.format := by rw [hsource]; rfl
    have hdelivers := @ComponentShiftNode.delivers _ node source.image
      (fun y st => st.nextRow = y) (by rw [hformat]; exact hcolour)
      (by rw [hsource]; exact source.deliversPixels) hsize hchannel hlow
    rw [hwidth, hformat] at hdelivers
    refine ⟨node, hmade, hwidth, hformat, hheight,
      hdelivers.hasRows source_ready fun y hy row hrow x hx component => ?_⟩
    have hy' : y < node.height := hy
    refine component_pixel hcolour hsource hshift (fun component => ?_) hrow hx component
    have hle := hcomponent component
    omega
  · intro source shifts hsome node
    obtain ⟨hall, -, hmost⟩ := foldl_max_spec shifts 0
    have hheight : node.height = source.height - (shifts.foldl max 0).toNat :=
      shiftedHeight_eq _ _
    have hmem : ∀ x, shifts.getD (x % shifts.length) 0 ∈ shifts := by
      intro x
      have hturn : x % shifts.length < shifts.length :=
        Nat.mod_lt _ (List.length_pos_of_ne_nil hsome)
      rw [List.getD_eq_getElem _ _ hturn]
      exact List.getElem_mem hturn
    have hdelivers := @PixelShiftLinesNode.delivers _
      (PixelShiftLinesNode.ofShifts source.node shifts) _ _ source.known hsome
      source.deliversPixels source.height_lt hall
      (by
        have hthis : (PixelShiftLinesNode.ofShifts source.node shifts).height =
          source.height - (shifts.foldl max 0).toNat := hheight
        have hextra : (PixelShiftLinesNode.ofShifts source.node shifts).extraHeight =
          (shifts.foldl max 0).toNat := rfl
        have hsource : (PixelShiftLinesNode.ofShifts source.node shifts).source.height =
          source.height := rfl
        omega)
    refine ⟨rfl, rfl, ?_, hdelivers.hasRows source_ready fun y hy row hrow x hx =>
      shifted_pixel (fun x => ?_) hrow hx⟩
    · cases hmost with
      | inr hthere =>
          obtain ⟨most, hin, heq⟩ := hthere
          exact ⟨most, hin, fun shift hshift => heq ▸ hall shift hshift, by rw [hheight, heq]⟩
      | inl hzero =>
          rw [UInt64.toNat_zero] at hzero
          have hfirst := hall _ (hmem 0)
          refine ⟨_, hmem 0, fun shift hshift => ?_, ?_⟩
          · have hle := hall shift hshift
            omega
          · omega
    · have hle := hall _ (hmem x)
      have hthis : (PixelShiftLinesNode.ofShifts source.node shifts).shift x =
        (shifts.getD (x % shifts.length) 0).toNat := rfl
      have hy' : y < node.height := hy
      omega

theorem twoRows_fits : ArrayFits 1 2 .bgr888 [1, 2, 3, 4, 5, 6] := by
  unfold ArrayFits
  decide

/-- Two rows of one colour pixel. -/
def twoRows : ArraySource := .ofData twoRows_fits

theorem shiftLines_rows_twoRows :
    (twoRows.format.channels = 3 ∧
      ∃ node, ComponentShiftNode.ofShifts twoRows.node 1 0 0 = .ok node ∧ node.node.height = 1 ∧
        HasRows node.node ({}, {}) fun y row => ∀ x < 1, ∀ component : Component,
          getRawChannelFromRow row x (twoRows.format.channelOf component) .bgr888 =
            twoRows.channel x (y + component.shift 1 0 0) (twoRows.format.channelOf component)) ∧
    [1, 0] ≠ ([] : List UInt64) ∧
      HasRows (PixelShiftLinesNode.ofShifts twoRows.node [1, 0]).node ({}, {}) fun y row =>
        ∀ x < 1, getRawPixelFromRow row x .bgr888 =
          twoRows.pixel x (y + (([1, 0] : List UInt64).getD (x % 2) 0).toNat) := by
  have hcolour : twoRows.format.channels = 3 := rfl
  have hsome : [1, 0] ≠ ([] : List UInt64) := by decide
  obtain ⟨node, hmade, -, -, hheight, hrows⟩ := shiftLines_rows.1 twoRows 1 0 0 hcolour
  exact ⟨⟨hcolour, node, hmade, hheight, hrows⟩, hsome,
    (shiftLines_rows.2 twoRows [1, 0] hsome).2.2.2⟩

end SaneBackends.Genesys
