import SaneBackends.Sanei.Turn
/-!
# First transitions

`sanei_magic_getTransY` and `sanei_magic_getTransX`, which look in each column or row for the first
change of color from an edge of the image on. The buffer is a function of the address, which may
fail. What `calloc` answers to a number of cells is a parameter.
-/

namespace SaneBackends.Sanei

open SaneBackends.Lib

/-! ## The code -/

inductive TransFault where
  | unreadable
  | unfinished
  deriving DecidableEq, Repr

/-- The lines or columns that are scanned, and whether from the first one on. -/
structure Scan where
  extent : Nat
  forward : Bool

namespace Scan

variable (s : Scan)

/-- `firstLine` or `firstCol`. -/
def first : Int := if s.forward then 0 else (s.extent : Int) - 1

/-- `lastLine` or `lastCol`, the one behind the image. -/
def last : Int := if s.forward then s.extent else -1

def direction : Int := if s.forward then 1 else -1

/-- `farLine` and `nearLine`, or `farCol` and `nearCol`. -/
def clamp (p : Int) : Int := if p < 0 ∨ (s.extent : Int) ≤ p then s.first else p

end Scan

def winLen : Int := 9

section Scans

variable (s : Scan) (depth : Nat) (load : Int → Nat → Except TransFault UInt8)

/-- The windows are moved to `j`, as far as the sample `k` is concerned. -/
def slideSample (j : Int) (k : Nat) (windows : Int × Int) : Except TransFault (Int × Int) := do
  let (near, far) := windows
  let leaving ← load (s.clamp (j - winLen * 2 * s.direction)) k
  let passing ← load (s.clamp (j - winLen * s.direction)) k
  let entering ← load j k
  .ok (near - passing.toNat + entering.toNat, far - leaving.toNat + passing.toNat)

def slide (j : Int) (windows : Int × Int) : Except TransFault (Int × Int) :=
  forTo depth (slideSample s load j) windows

def isSignificant (windows : Int × Int) : Bool :=
  50 * winLen * depth - (windows.1 * 40).tdiv 255 < |windows.1 - windows.2|

/-- The loop over the pixels from `j` on. -/
def findByte : Nat → Int → Int × Int → Except TransFault Int
  | 0, _, _ => .error .unfinished
  | fuel + 1, j, windows =>
      if j = s.last then .ok s.last
      else do
        let windows ← slide s depth load j windows
        if isSignificant depth windows then .ok j
        else findByte fuel (j + s.direction) windows

def addSample (start : Int) (k : Nat) (near : Int) : Except TransFault Int := do
  let sample ← load start k
  .ok (near + sample.toNat)

/-- The windows filled with copies of the pixel at `start`. -/
def loadWindow (start : Int) : Except TransFault Int := do
  let near ← forTo depth (addSample load start) 0
  .ok (near * winLen)

def byteTransition (start : Int) : Except TransFault Int := do
  let near ← loadWindow depth load start
  findByte s depth load s.extent (s.first + s.direction) (near, near)

/-- The loop over the pixels of one bit from `j` on. -/
def findBit (load : Int → Except TransFault UInt8) (near : UInt8) :
    Nat → Int → Except TransFault Int
  | 0, _ => .error .unfinished
  | fuel + 1, j =>
      if j = s.last then .ok s.last
      else do
        let bit ← load j
        if bit ≠ near then .ok j
        else findBit load near fuel (j + s.direction)

def bitTransition (load : Int → Except TransFault UInt8) : Except TransFault Int := do
  let near ← load s.first
  findBit s load near s.extent (s.first + s.direction)

end Scans

/-- Transitions with few neighbors are ignored. A cell is changed after those before it, and looks
only at later ones. -/
def dropLonely (dpi last : Int) : List Int → List Int
  | [] => []
  | x :: rest =>
      (if 7 ≤ rest.length ∧ (rest.take 7).countP (fun y => |y - x| < dpi.tdiv 2) < 2 then last
        else x) :: dropLonely dpi last rest

/-- The transitions in each of `count` columns or rows. -/
def eachTransition (count : Nat) (find : Nat → Except TransFault Int) :
    Except TransFault (List Int) :=
  forTo count (fun i buff => do
    let transition ← find i
    .ok (buff ++ [transition])) []

/-- `(byte >> shift) & 1` -/
def pickBit (byte : UInt8) (shift : Int) : UInt8 := (byte >>> UInt8.ofNat shift.toNat) &&& 1

section Transitions

variable (calloc : Nat → Bool) (params : ImageParams) (dpi : Int)
  (buffer : Int → Except TransFault UInt8)

/-- What the two functions have in common. -/
def transitions (s : Scan) (count : Nat) (findInBytes findInBits : Nat → Except TransFault Int) :
    Except TransFault (Option (List Int)) :=
  if calloc count then
    if params.isBytes then do
      let buff ← eachTransition count findInBytes
      .ok (some (dropLonely dpi s.last buff))
    else if params.isBinary then do
      let buff ← eachTransition count findInBits
      .ok (some (dropLonely dpi s.last buff))
    else .ok none
  else .ok none

def saneiMagicGetTransY (top : Bool) : Except TransFault (Option (List Int)) :=
  let width : Int := params.pixelsPerLine
  let s : Scan := { extent := params.lines, forward := top }
  transitions calloc params dpi s params.pixelsPerLine
    (fun i => byteTransition s params.samples
      (fun j k => buffer ((j * width + i) * params.samples + k)) s.first)
    (fun i => bitTransition s fun j => do
      let byte ← buffer ((j * width + i).tdiv 8)
      .ok (pickBit byte (7 - i % 8)))

def saneiMagicGetTransX (left : Bool) : Except TransFault (Option (List Int)) :=
  let bwidth : Int := params.bytesPerLine
  let s : Scan := { extent := params.pixelsPerLine, forward := left }
  transitions calloc params dpi s params.lines
    (fun i => byteTransition s params.samples
      (fun j k => buffer (i * bwidth + j * params.samples + k)) 0)
    (fun i => bitTransition s fun j => do
      let byte ← buffer (i * bwidth + j.tdiv 8)
      .ok (pickBit byte (7 - j.tmod 8)))

end Transitions

/-! ## Images and their transposes -/

/-- The parameters of the transposed image, whose lines take `bytesPerLine`. -/
def ImageParams.transpose (params : ImageParams) (bytesPerLine : Nat) : ImageParams :=
  { params with
    bytesPerLine
    pixelsPerLine := params.lines
    lines := params.pixelsPerLine }

/-- The bytes of a line that hold pixels. -/
def ImageParams.rowBytes (params : ImageParams) : Nat :=
  if params.isBytes then params.pixelsPerLine * params.samples else (params.pixelsPerLine + 7) / 8

/-- The buffer as far as it holds pixels. -/
def visible (params : ImageParams) (buffer : Cells UInt8) (addr : Int) : Except TransFault UInt8 :=
  if 0 ≤ addr ∧ addr.toNat / params.bytesPerLine < params.lines ∧
      addr.toNat % params.bytesPerLine < params.rowBytes then
    .ok (buffer.cell addr.toNat)
  else .error .unreadable

/-- The second image is the first one transposed. -/
structure IsTranspose (params params' : ImageParams) (buffer buffer' : Cells UInt8) : Prop where
  bytes : params.isBytes = true → ∀ row < params.lines, ∀ col < params.pixelsPerLine,
    ∀ k < params.samples, byteOf params' buffer' col row k = byteOf params buffer row col k
  bits : params.isBinary = true → ∀ row < params.lines, ∀ col < params.pixelsPerLine,
    bitOf params' buffer' col row = bitOf params buffer row col

/-- The lines are long enough for their pixels. -/
structure Shaped (params : ImageParams) : Prop where
  kind : params.isBytes = true ∨ params.isBinary = true
  fits : params.rowBytes ≤ params.bytesPerLine

/-- For all images of these sizes and their transposes the two functions find the same, reading
only bytes that hold pixels. -/
def TransposesAgree (calloc : Nat → Bool) (params : ImageParams) (bytesPerLine : Nat) (dpi : Int)
    (forward : Bool) : Prop :=
  ∀ buffer buffer', Holds params buffer → Holds (params.transpose bytesPerLine) buffer' →
    IsTranspose params (params.transpose bytesPerLine) buffer buffer' →
    ∃ found, saneiMagicGetTransX calloc params dpi (visible params buffer) forward = .ok found ∧
      saneiMagicGetTransY calloc (params.transpose bytesPerLine) dpi
        (visible (params.transpose bytesPerLine) buffer') forward = .ok found

/-! ## Scans -/

section Scans

variable {s : Scan} {depth fuel : Nat} {load : Int → Nat → Except TransFault UInt8}
  {bits : Int → Except TransFault UInt8}

/-- Where the loop is with so many turns left. -/
def Scan.position (s : Scan) (fuel : Nat) : Int :=
  if s.forward then (s.extent : Int) + 1 - fuel else (fuel : Int) - 2

theorem Scan.position_extent : s.position s.extent = s.first + s.direction := by
  unfold Scan.position Scan.first Scan.direction
  split_ifs <;> omega

theorem Scan.position_add : s.position (fuel + 1) + s.direction = s.position fuel := by
  unfold Scan.position Scan.direction
  split_ifs <;> push_cast <;> omega

theorem Scan.position_one : s.position 1 = s.last := by
  unfold Scan.position Scan.last
  split_ifs <;> simp

theorem Scan.position_ne_last (hfuel : 2 ≤ fuel) : s.position fuel ≠ s.last := by
  unfold Scan.position Scan.last
  split_ifs <;> omega

/-- A position inside the image. -/
def Scan.Inside (s : Scan) (p : Int) : Prop := 0 ≤ p ∧ p < s.extent

theorem Scan.inside_position (hlo : 2 ≤ fuel) (hhi : fuel ≤ s.extent) :
    s.Inside (s.position fuel) := by
  unfold Scan.Inside Scan.position
  split_ifs <;> omega

theorem Scan.inside_first (hextent : 1 ≤ s.extent) : s.Inside s.first := by
  unfold Scan.Inside Scan.first
  split_ifs <;> omega

theorem Scan.inside_clamp (hextent : 1 ≤ s.extent) (p : Int) : s.Inside (s.clamp p) := by
  unfold Scan.clamp
  split_ifs with h
  · exact s.inside_first hextent
  · unfold Scan.Inside
    omega

/-- The buffer holds these samples. -/
def LoadsSamples (s : Scan) (depth : Nat) (sample : Int → Nat → UInt8)
    (load : Int → Nat → Except TransFault UInt8) : Prop :=
  ∀ p, s.Inside p → ∀ k < depth, load p k = .ok (sample p k)

variable (sample : Int → Nat → UInt8) (bit : Int → UInt8)

theorem slide_reads (hextent : 1 ≤ s.extent) {j : Int} (hj : s.Inside j) (windows : Int × Int) :
    ∃ windows', ∀ load, LoadsSamples s depth sample load →
      slide s depth load j windows = .ok windows' := by
  obtain ⟨windows', hrun⟩ := @forTo_total TransFault _ depth (fun k (windows : Int × Int) =>
    (windows.1 - (sample (s.clamp (j - winLen * s.direction)) k).toNat + (sample j k).toNat,
      windows.2 - (sample (s.clamp (j - winLen * 2 * s.direction)) k).toNat +
        (sample (s.clamp (j - winLen * s.direction)) k).toNat)) windows
  refine ⟨windows', fun load hload => ?_⟩
  rw [← hrun]
  apply forTo_congr
  intro k hk windows
  unfold slideSample
  rw [hload _ (s.inside_clamp hextent _) k hk, hload _ (s.inside_clamp hextent _) k hk,
    hload j hj k hk]
  rfl

theorem findByte_reads (hlo : 1 ≤ fuel) (hhi : fuel ≤ s.extent) (windows : Int × Int) :
    ∃ p, ∀ load, LoadsSamples s depth sample load →
      findByte s depth load fuel (s.position fuel) windows = .ok p := by
  induction fuel generalizing windows with
  | zero => omega
  | succ fuel ih =>
      by_cases hfuel : fuel = 0
      · subst hfuel
        refine ⟨s.last, fun load _ => ?_⟩
        rw [findByte, if_pos s.position_one]
      · have hpos : 2 ≤ fuel + 1 := by omega
        obtain ⟨windows', hslide⟩ : ∃ windows', ∀ load, LoadsSamples s depth sample load →
            slide s depth load (s.position (fuel + 1)) windows = .ok windows' :=
          slide_reads sample (by omega) (s.inside_position hpos hhi) windows
        obtain ⟨p, hrest⟩ := ih (by omega) (by omega) windows'
        refine ⟨if isSignificant depth windows' then s.position (fuel + 1) else p,
          fun load hload => ?_⟩
        rw [findByte, if_neg (s.position_ne_last hpos), hslide load hload, ok_bind, s.position_add,
          hrest load hload]
        split_ifs <;> rfl

theorem loadWindow_reads {start : Int} (hstart : s.Inside start) :
    ∃ near, ∀ load, LoadsSamples s depth sample load → loadWindow depth load start = .ok near := by
  obtain ⟨near, hrun⟩ := @forTo_total TransFault _ depth
    (fun k (near : Int) => near + (sample start k).toNat) 0
  refine ⟨near * winLen, fun load hload => ?_⟩
  have hsame : forTo depth (addSample load start) 0 =
      forTo depth (fun k (near : Int) => .ok (near + (sample start k).toNat)) 0 := by
    apply forTo_congr
    intro k hk near
    rw [addSample, hload start hstart k hk]
    rfl
  rw [loadWindow, hsame, hrun]
  rfl

/-- What is found depends on the samples inside the image only. -/
theorem byteTransition_reads (hextent : 1 ≤ s.extent) {start : Int} (hstart : s.Inside start) :
    ∃ p, ∀ load, LoadsSamples s depth sample load → byteTransition s depth load start = .ok p := by
  obtain ⟨near, hnear⟩ : ∃ near, ∀ load, LoadsSamples s depth sample load →
    loadWindow depth load start = .ok near := loadWindow_reads sample hstart
  obtain ⟨p, hfind⟩ : ∃ p, ∀ load, LoadsSamples s depth sample load →
      findByte s depth load s.extent (s.position s.extent) (near, near) = .ok p :=
    findByte_reads sample hextent (Nat.le_refl _) (near, near)
  refine ⟨p, fun load hload => ?_⟩
  rw [byteTransition, hnear load hload, ok_bind, ← s.position_extent]
  exact hfind load hload

theorem byteTransition_eq (hextent : 1 ≤ s.extent) {start : Int} (hstart : s.Inside start)
    {load' : Int → Nat → Except TransFault UInt8} (hload : LoadsSamples s depth sample load)
    (hload' : LoadsSamples s depth sample load') :
    byteTransition s depth load start = byteTransition s depth load' start := by
  obtain ⟨p, hp⟩ : ∃ p, ∀ load, LoadsSamples s depth sample load →
      byteTransition s depth load start = .ok p := byteTransition_reads sample hextent hstart
  rw [hp load hload, hp load' hload']

theorem findBit_reads (near : UInt8) (hlo : 1 ≤ fuel) (hhi : fuel ≤ s.extent) :
    ∃ p, ∀ bits, (∀ p, s.Inside p → bits p = .ok (bit p)) →
      findBit s bits near fuel (s.position fuel) = .ok p := by
  induction fuel with
  | zero => omega
  | succ fuel ih =>
      by_cases hfuel : fuel = 0
      · subst hfuel
        refine ⟨s.last, fun bits _ => ?_⟩
        rw [findBit, if_pos s.position_one]
      · have hpos : 2 ≤ fuel + 1 := by omega
        obtain ⟨p, hrest⟩ := ih (by omega) (by omega)
        refine ⟨if bit (s.position (fuel + 1)) ≠ near then s.position (fuel + 1) else p,
          fun bits hbits => ?_⟩
        rw [findBit, if_neg (s.position_ne_last hpos), hbits _ (s.inside_position hpos hhi),
          ok_bind, s.position_add, hrest bits hbits]
        split_ifs <;> rfl

theorem bitTransition_reads (hextent : 1 ≤ s.extent) :
    ∃ p, ∀ bits, (∀ p, s.Inside p → bits p = .ok (bit p)) → bitTransition s bits = .ok p := by
  obtain ⟨p, hfind⟩ : ∃ p, ∀ bits, (∀ p, s.Inside p → bits p = .ok (bit p)) →
      findBit s bits (bit s.first) s.extent (s.position s.extent) = .ok p :=
    findBit_reads bit (bit s.first) hextent (Nat.le_refl _)
  refine ⟨p, fun bits hbits => ?_⟩
  rw [bitTransition, hbits _ (s.inside_first hextent), ok_bind, ← s.position_extent]
  exact hfind bits hbits

end Scans

section Rows

variable {count : Nat} {find find' : Nat → Except TransFault Int} {buff : List Int}

theorem eachTransition_succ (count : Nat) (find : Nat → Except TransFault Int) :
    eachTransition (count + 1) find = (do
      let buff ← eachTransition count find
      let transition ← find count
      .ok (buff ++ [transition])) := rfl

theorem eachTransition_agree (h : ∀ i < count, ∃ p, find i = .ok p ∧ find' i = .ok p) :
    ∃ buff, eachTransition count find = .ok buff ∧ eachTransition count find' = .ok buff := by
  induction count with
  | zero => exact ⟨[], rfl, rfl⟩
  | succ count ih =>
      obtain ⟨buff, hfind, hfind'⟩ := ih fun i hi => h i (Nat.lt_succ_of_lt hi)
      obtain ⟨p, hp, hp'⟩ := h count (Nat.lt_succ_self _)
      refine ⟨buff ++ [p], ?_, ?_⟩
      · rw [eachTransition_succ, hfind, ok_bind, hp, ok_bind]
      · rw [eachTransition_succ, hfind', ok_bind, hp', ok_bind]

/-- Every cell holds what was found for it. -/
theorem eachTransition_ok (h : eachTransition count find = .ok buff) :
    buff.length = count ∧ ∀ i < count, ∃ p, find i = .ok p ∧ buff[i]? = some p := by
  induction count generalizing buff with
  | zero =>
      cases h
      exact ⟨rfl, nofun⟩
  | succ count ih =>
      rw [eachTransition_succ] at h
      obtain ⟨buff', hbuff, h⟩ := bind_eq_ok.mp h
      obtain ⟨p, hp, h⟩ := bind_eq_ok.mp h
      cases h
      obtain ⟨hlength, hcells⟩ := ih hbuff
      refine ⟨by rw [List.length_append, hlength]; rfl, fun i hi => ?_⟩
      by_cases hlast : i = count
      · subst hlast
        exact ⟨p, hp, by rw [← hlength, List.getElem?_concat_length]⟩
      · have hlt : i < count := by omega
        obtain ⟨q, hq, hcell⟩ := hcells i hlt
        exact ⟨q, hq, by rw [List.getElem?_append_left (by omega), hcell]⟩

/-- The last seven cells are kept. -/
theorem dropLonely_getElem? (dpi last : Int) {i : Nat} (hi : buff.length ≤ i + 7) :
    (dropLonely dpi last buff)[i]? = buff[i]? := by
  induction buff generalizing i with
  | nil => rfl
  | cons x rest ih =>
      rw [List.length_cons] at hi
      cases i with
      | zero =>
          rw [dropLonely, if_neg (by omega)]
          rfl
      | succ i =>
          rw [dropLonely, List.getElem?_cons_succ, List.getElem?_cons_succ]
          exact ih (by omega)

end Rows

/-! ## Pixels in the buffer -/

section Pixels

variable {params : ImageParams} {buffer : Cells UInt8} {row col k : Nat}

theorem visible_eq (hfits : params.rowBytes ≤ params.bytesPerLine) (hrow : row < params.lines)
    {x : Nat} (hx : x < params.rowBytes) {addr : Int}
    (haddr : addr = (row * params.bytesPerLine + x : Nat)) :
    visible params buffer addr = .ok (buffer.cell (row * params.bytesPerLine + x)) := by
  subst haddr
  rw [visible, Int.toNat_natCast, part_div (hx.trans_le hfits), part_mod (hx.trans_le hfits),
    if_pos ⟨Int.natCast_nonneg _, hrow, hx⟩]

theorem rowBytes_of_isBytes (h : params.isBytes = true) :
    params.rowBytes = params.pixelsPerLine * params.samples := if_pos h

theorem rowBytes_of_isBinary (h : params.isBinary = true) :
    params.rowBytes = (params.pixelsPerLine + 7) / 8 := if_neg (not_isBytes_of_isBinary h)

theorem visible_byte (hparams : Shaped params) (hbytes : params.isBytes = true)
    (hrow : row < params.lines) (hcol : col < params.pixelsPerLine) (hk : k < params.samples)
    {addr : Int} (haddr : addr = (row * params.bytesPerLine + (col * params.samples + k) : Nat)) :
    visible params buffer addr = .ok (byteOf params buffer row col k) := by
  have hx : col * params.samples + k < params.rowBytes := by
    rw [rowBytes_of_isBytes hbytes]
    exact part_lt hcol hk
  rw [visible_eq hparams.fits hrow hx haddr, byteOf, Nat.add_assoc]

/-- The value of a pixel of one bit. -/
def bitValue (bit : Bool) : UInt8 := if bit then 1 else 0

theorem pickBit_eq (byte : UInt8) {shift : Int} (n : Nat) (hshift : shift = 7 - (n % 8 : Nat)) :
    pickBit byte shift = bitValue (byte.toBitVec.getLsbD (7 - n % 8)) := by
  have hnat : shift.toNat = 7 - n % 8 := by omega
  rw [pickBit, hnat, pickedBit_eq byte (by omega)]
  rfl

theorem visible_bit (hparams : Shaped params) (hbits : params.isBinary = true)
    (hrow : row < params.lines) (hcol : col < params.pixelsPerLine) {addr shift : Int}
    (haddr : addr = (row * params.bytesPerLine + col / 8 : Nat))
    (hshift : shift = 7 - (col % 8 : Nat)) :
    (do let byte ← visible params buffer addr; .ok (pickBit byte shift)) =
      (.ok (bitValue (bitOf params buffer row col)) : Except TransFault UInt8) := by
  rw [visible_eq hparams.fits hrow (by rw [rowBytes_of_isBinary hbits]; omega) haddr, ok_bind,
    pickBit_eq _ col hshift]
  rfl

end Pixels

section Agree

variable {calloc : Nat → Bool} {params : ImageParams} {bytesPerLine : Nat} {dpi : Int}
  {forward : Bool} {buffer buffer' : Cells UInt8}

/-- The sizes for which the two functions agree. -/
def Agreeable (params : ImageParams) (bytesPerLine : Nat) (forward : Bool) : Prop :=
  params.lines = 0 ∨
    1 ≤ params.pixelsPerLine ∧
      (params.pixelsPerLine = 1 ∨
        (params.isBytes = true → forward = true ∧ bytesPerLine = params.lines * params.samples) ∧
        (params.isBinary = true → 8 * bytesPerLine = params.lines))

theorem readsX (hparams : Shaped params) (hbytes : params.isBytes = true) {i : Nat}
    (hi : i < params.lines) :
    LoadsSamples ⟨params.pixelsPerLine, forward⟩ params.samples
      (fun p k => byteOf params buffer i p.toNat k)
      (fun j k => visible params buffer
        (i * (params.bytesPerLine : Int) + j * params.samples + k)) := by
  rintro q ⟨hq, hq'⟩ k hk
  obtain ⟨q, rfl⟩ := Int.eq_ofNat_of_zero_le hq
  have hcol : q < params.pixelsPerLine := by exact_mod_cast hq'
  apply visible_byte hparams hbytes hi hcol hk
  push_cast
  ring

/-- The lines are where the function looks for them. -/
def Strides (params : ImageParams) (bytesPerLine : Nat) : Prop :=
  ∀ p < params.pixelsPerLine, p * (params.lines * params.samples) = p * bytesPerLine

theorem readsY (htranspose : Shaped (params.transpose bytesPerLine))
    (hbytes : params.isBytes = true) (hline : Strides params bytesPerLine)
    (himage : IsTranspose params (params.transpose bytesPerLine) buffer buffer') {i : Nat}
    (hi : i < params.lines) :
    LoadsSamples ⟨params.pixelsPerLine, forward⟩ params.samples
      (fun p k => byteOf params buffer i p.toNat k)
      (fun j k => visible (params.transpose bytesPerLine) buffer'
        ((j * (params.lines : Int) + i) * params.samples + k)) := by
  rintro q ⟨hq, hq'⟩ k hk
  obtain ⟨q, rfl⟩ := Int.eq_ofNat_of_zero_le hq
  have hcol : q < params.pixelsPerLine := by exact_mod_cast hq'
  have hsame := himage.bytes hbytes i hi q hcol k hk
  dsimp only
  rw [Int.toNat_natCast, ← hsame]
  apply visible_byte htranspose hbytes hcol hi hk
  have hstride := hline q hcol
  change _ = ((q * bytesPerLine + (i * params.samples + k) : Nat) : Int)
  rw [← hstride]
  push_cast
  ring

theorem byteTransitions_agree (hparams : Shaped params)
    (htranspose : Shaped (params.transpose bytesPerLine)) (hbytes : params.isBytes = true)
    (hagree : Agreeable params bytesPerLine forward)
    (himage : IsTranspose params (params.transpose bytesPerLine) buffer buffer') {i : Nat}
    (hi : i < params.lines) :
    ∃ p, byteTransition ⟨params.pixelsPerLine, forward⟩ params.samples
        (fun j k => visible params buffer
          (i * (params.bytesPerLine : Int) + j * params.samples + k)) 0 = .ok p ∧
      byteTransition ⟨params.pixelsPerLine, forward⟩ params.samples
        (fun j k => visible (params.transpose bytesPerLine) buffer'
          ((j * (params.lines : Int) + i) * params.samples + k))
        (Scan.first ⟨params.pixelsPerLine, forward⟩) = .ok p := by
  obtain hnone | ⟨hextent, hshape⟩ := hagree
  · omega
  have hline : Strides params bytesPerLine := by
    intro p hp
    obtain hone | ⟨hshape, -⟩ := hshape
    · have hzero : p = 0 := by omega
      rw [hzero, Nat.zero_mul, Nat.zero_mul]
    · rw [(hshape hbytes).2]
  have hfirst : Scan.first ⟨params.pixelsPerLine, forward⟩ = 0 := by
    obtain hone | ⟨hshape, -⟩ := hshape
    · unfold Scan.first
      split_ifs
      · rfl
      · dsimp only
        omega
    · exact if_pos (hshape hbytes).1
  obtain ⟨p, hp⟩ : ∃ p, ∀ load, LoadsSamples ⟨params.pixelsPerLine, forward⟩ params.samples
      (fun p k => byteOf params buffer i p.toNat k) load →
      byteTransition ⟨params.pixelsPerLine, forward⟩ params.samples load 0 = .ok p :=
    byteTransition_reads _ hextent ⟨Int.le_refl 0, by dsimp only; omega⟩
  refine ⟨p, hp _ (readsX hparams hbytes hi), ?_⟩
  rw [hfirst]
  exact hp _ (readsY htranspose hbytes hline himage hi)

theorem bitTransitions_agree (hparams : Shaped params)
    (htranspose : Shaped (params.transpose bytesPerLine)) (hbits : params.isBinary = true)
    (hagree : Agreeable params bytesPerLine forward)
    (himage : IsTranspose params (params.transpose bytesPerLine) buffer buffer') {i : Nat}
    (hi : i < params.lines) :
    ∃ p, bitTransition ⟨params.pixelsPerLine, forward⟩
        (fun j => do
          let byte ← visible params buffer (i * (params.bytesPerLine : Int) + j.tdiv 8)
          .ok (pickBit byte (7 - j.tmod 8))) = .ok p ∧
      bitTransition ⟨params.pixelsPerLine, forward⟩
        (fun j => do
          let byte ← visible (params.transpose bytesPerLine) buffer'
            ((j * (params.lines : Int) + i).tdiv 8)
          .ok (pickBit byte (7 - i % 8))) = .ok p := by
  obtain hnone | ⟨hextent, hshape⟩ := hagree
  · omega
  have hline : ∀ p < params.pixelsPerLine, p * params.lines = 8 * (p * bytesPerLine) := by
    intro p hp
    obtain hone | ⟨-, hshape⟩ := hshape
    · have hzero : p = 0 := by omega
      rw [hzero, Nat.zero_mul, Nat.zero_mul]
    · rw [← hshape hbits]
      ring
  obtain ⟨p, hp⟩ : ∃ p, ∀ bits, (∀ p, Scan.Inside ⟨params.pixelsPerLine, forward⟩ p →
      bits p = .ok (bitValue (bitOf params buffer i p.toNat))) →
      bitTransition ⟨params.pixelsPerLine, forward⟩ bits = .ok p := bitTransition_reads _ hextent
  refine ⟨p, hp _ ?_, hp _ ?_⟩
  · rintro q ⟨hq, hq'⟩
    obtain ⟨q, rfl⟩ := Int.eq_ofNat_of_zero_le hq
    have hcol : q < params.pixelsPerLine := by exact_mod_cast hq'
    apply visible_bit hparams hbits hi hcol
    · push_cast
      rw [Int.tdiv_eq_ediv_of_nonneg hq]
    · push_cast
      rw [Int.tmod_eq_emod_of_nonneg hq]
  · rintro q ⟨hq, hq'⟩
    obtain ⟨q, rfl⟩ := Int.eq_ofNat_of_zero_le hq
    have hcol : q < params.pixelsPerLine := by exact_mod_cast hq'
    rw [Int.toNat_natCast, ← himage.bits hbits i hi q hcol]
    apply visible_bit htranspose hbits hcol hi
    · have hstride := hline q hcol
      have hdiv : (q * params.lines + i) / 8 = q * bytesPerLine + i / 8 := by
        rw [hstride, Nat.mul_add_div (by decide)]
      rw [Int.tdiv_eq_ediv_of_nonneg (by positivity)]
      change _ = ((q * bytesPerLine + i / 8 : Nat) : Int)
      rw [← hdiv]
      push_cast
      rfl
    · push_cast
      rfl

theorem transitions_bytes {s : Scan} {count : Nat}
    {findInBytes findInBits : Nat → Except TransFault Int} (halloc : calloc count = true)
    (hbytes : params.isBytes = true) :
    transitions calloc params dpi s count findInBytes findInBits =
      (do let buff ← eachTransition count findInBytes
          .ok (some (dropLonely dpi s.last buff))) := by
  rw [transitions, if_pos halloc, if_pos hbytes]

theorem transitions_bits {s : Scan} {count : Nat}
    {findInBytes findInBits : Nat → Except TransFault Int} (halloc : calloc count = true)
    (hbits : params.isBinary = true) :
    transitions calloc params dpi s count findInBytes findInBits =
      (do let buff ← eachTransition count findInBits
          .ok (some (dropLonely dpi s.last buff))) := by
  rw [transitions, if_pos halloc, if_neg (not_isBytes_of_isBinary hbits), if_pos hbits]

/-- Where the sizes allow it, the functions agree. -/
theorem transposesAgree_of_agreeable (halloc : calloc params.lines = true) (hparams : Shaped params)
    (htranspose : Shaped (params.transpose bytesPerLine))
    (hagree : Agreeable params bytesPerLine forward) :
    TransposesAgree calloc params bytesPerLine dpi forward := by
  intro buffer buffer' _ _ himage
  obtain hbytes | hbits := hparams.kind
  · obtain ⟨buff, hx, hy⟩ := eachTransition_agree fun i hi =>
      byteTransitions_agree hparams htranspose hbytes hagree himage hi
    refine ⟨some (dropLonely dpi (Scan.last ⟨params.pixelsPerLine, forward⟩) buff), ?_, ?_⟩
    · refine (transitions_bytes halloc hbytes).trans ?_
      rw [hx]
      rfl
    · refine (transitions_bytes halloc hbytes).trans ?_
      exact (congrArg (· >>= _) hy).trans rfl
  · obtain ⟨buff, hx, hy⟩ := eachTransition_agree fun i hi =>
      bitTransitions_agree hparams htranspose hbits hagree himage hi
    refine ⟨some (dropLonely dpi (Scan.last ⟨params.pixelsPerLine, forward⟩) buff), ?_, ?_⟩
    · refine (transitions_bits halloc hbits).trans ?_
      rw [hx]
      rfl
    · refine (transitions_bits halloc hbits).trans ?_
      exact (congrArg (· >>= _) hy).trans rfl

end Agree

/-! ## Images that are told apart -/

section Zero

variable {s : Scan} {depth fuel : Nat} {load : Int → Nat → Except TransFault UInt8}

/-- The samples that can be loaded are 0. -/
def Black (load : Int → Nat → Except TransFault UInt8) : Prop :=
  ∀ p k byte, load p k = .ok byte → byte = 0

theorem loadWindow_black (hblack : Black load) {start near : Int}
    (hrun : loadWindow depth load start = .ok near) :
    near = 0 ∧ ∀ k < depth, ∃ byte, load start k = .ok byte := by
  obtain ⟨sum, hsum, hnear⟩ := bind_eq_ok.mp hrun
  have hinv : sum = 0 ∧ ∀ k < depth, ∃ byte, load start k = .ok byte := by
    apply forTo_ok (I := fun m near => near = 0 ∧ ∀ k < m, ∃ byte, load start k = .ok byte) hsum
      ⟨rfl, nofun⟩
    rintro m - c d ⟨rfl, hbefore⟩ hpass
    obtain ⟨byte, hload, hpass⟩ := bind_eq_ok.mp hpass
    cases hpass
    refine ⟨by rw [hblack _ _ _ hload]; rfl, fun k hk => ?_⟩
    by_cases hlast : k = m
    · subst hlast
      exact ⟨byte, hload⟩
    · exact hbefore k (by omega)
  cases hnear
  rw [hinv.1]
  exact ⟨rfl, hinv.2⟩

theorem slide_black (hblack : Black load) {j : Int} {windows : Int × Int}
    (hrun : slide s depth load j (0, 0) = .ok windows) :
    windows = (0, 0) ∧ ∀ k < depth, ∃ byte, load j k = .ok byte := by
  apply forTo_ok (I := fun m windows => windows = (0, 0) ∧ ∀ k < m, ∃ byte, load j k = .ok byte)
    hrun ⟨rfl, nofun⟩
  rintro m - c d ⟨rfl, hbefore⟩ hpass
  obtain ⟨leaving, hleaving, hpass⟩ := bind_eq_ok.mp hpass
  obtain ⟨passing, hpassing, hpass⟩ := bind_eq_ok.mp hpass
  obtain ⟨entering, hentering, hpass⟩ := bind_eq_ok.mp hpass
  cases hpass
  refine ⟨?_, fun k hk => ?_⟩
  · rw [hblack _ _ _ hleaving, hblack _ _ _ hpassing, hblack _ _ _ hentering]
    rfl
  · by_cases hlast : k = m
    · subst hlast
      exact ⟨entering, hentering⟩
    · exact hbefore k (by omega)

theorem not_isSignificant_zero : isSignificant depth (0, 0) = false := by
  simp [isSignificant, winLen]

/-- A scan that finds nothing but 0 goes over all pixels. -/
theorem findByte_black (hblack : Black load) {p : Int}
    (hrun : findByte s depth load fuel (s.position fuel) (0, 0) = .ok p) {m : Nat} (hlo : 2 ≤ m)
    (hhi : m ≤ fuel) : ∀ k < depth, ∃ byte, load (s.position m) k = .ok byte := by
  induction fuel with
  | zero => omega
  | succ fuel ih =>
      rw [findByte, if_neg (s.position_ne_last (by omega))] at hrun
      obtain ⟨windows, hslide, hrun⟩ := bind_eq_ok.mp hrun
      obtain ⟨rfl, hhere⟩ := slide_black hblack hslide
      rw [not_isSignificant_zero, if_neg Bool.false_ne_true, s.position_add] at hrun
      by_cases hlast : m = fuel + 1
      · subst hlast
        exact hhere
      · exact ih hrun (by omega)

/-- The second line is loaded. -/
theorem byteTransition_black (hblack : Black load) (hextent : 2 ≤ s.extent) {p : Int}
    (hrun : byteTransition s depth load s.first = .ok p) :
    ∀ k < depth, ∃ byte, load 1 k = .ok byte := by
  obtain ⟨near, hwindow, hrun⟩ := bind_eq_ok.mp hrun
  obtain ⟨rfl, hfirst⟩ := loadWindow_black hblack hwindow
  rw [← s.position_extent] at hrun
  have hall : ∀ m, 2 ≤ m → m ≤ s.extent → ∀ k < depth, ∃ byte, load (s.position m) k = .ok byte :=
    fun m => findByte_black hblack hrun
  by_cases hforward : s.forward = true
  · have hposition : s.position s.extent = 1 := by
      unfold Scan.position
      rw [if_pos hforward]
      omega
    rw [← hposition]
    exact hall s.extent hextent (Nat.le_refl _)
  · by_cases htwo : s.extent = 2
    · have hone : s.first = 1 := by
        unfold Scan.first
        rw [if_neg hforward, htwo]
        rfl
      rw [← hone]
      exact hfirst
    · have hposition : s.position 3 = 1 := by
        unfold Scan.position
        rw [if_neg hforward]
        rfl
      rw [← hposition]
      exact hall 3 (by decide) (by omega)

end Zero

section White

variable {s : Scan} {depth fuel : Nat}

/-- Samples of an image that is white in its first column and black elsewhere. -/
def whiteFirst (p : Int) (_ : Nat) : UInt8 := if p.toNat = 0 then 255 else 0

theorem loadWindow_whiteFirst (start : Int) :
    loadWindow depth (fun p k => .ok (whiteFirst p k)) start =
      .ok (depth * (whiteFirst start 0).toNat * winLen) := by
  have hsum : forTo depth (addSample (fun p k => .ok (whiteFirst p k)) start) 0 =
      .ok (depth * (whiteFirst start 0).toNat) := by
    induction depth with
    | zero => simp
    | succ depth ih =>
        have hpass : ∀ k near, addSample (fun p k => .ok (whiteFirst p k)) start k near =
            .ok (near + (whiteFirst start 0).toNat) := fun _ _ => rfl
        rw [forTo_succ, ih, ok_bind, hpass]
        push_cast
        rw [add_mul, one_mul]
  rw [loadWindow, hsum]
  rfl

theorem whiteFirst_clamp (hforward : s.forward = false) (hextent : 2 ≤ s.extent) {q : Int}
    (hq : 9 ≤ q) (k : Nat) : whiteFirst (s.clamp q) k = 0 := by
  apply if_neg
  unfold Scan.clamp Scan.first
  rw [hforward]
  split_ifs with hin hfalse
  · cases hfalse
  · omega
  · omega

/-- Going backwards, the windows hold no part of the first column before its pixel is entered. -/
theorem slide_whiteFirst (hforward : s.forward = false) (hextent : 2 ≤ s.extent) {j : Int}
    (hj : s.Inside j) (windows : Int × Int) :
    slide s depth (fun p k => .ok (whiteFirst p k)) j windows =
      .ok (windows.1 + depth * (whiteFirst j 0).toNat, windows.2) := by
  have hlo := hj.1
  have hdirection : s.direction = -1 := by
    unfold Scan.direction
    rw [hforward]
    rfl
  have hpass : ∀ k windows, slideSample s (fun p k => .ok (whiteFirst p k)) j k windows =
      .ok (windows.1 + (whiteFirst j 0).toNat, windows.2) := by
    intro k windows
    have hnear := whiteFirst_clamp hforward hextent
      (by rw [hdirection, winLen]; omega : 9 ≤ j - winLen * s.direction) k
    have hfar := whiteFirst_clamp hforward hextent
      (by rw [hdirection, winLen]; omega : 9 ≤ j - winLen * 2 * s.direction) k
    change (.ok (windows.1 - (whiteFirst (s.clamp (j - winLen * s.direction)) k).toNat +
        (whiteFirst j 0).toNat,
        windows.2 - (whiteFirst (s.clamp (j - winLen * 2 * s.direction)) k).toNat +
        (whiteFirst (s.clamp (j - winLen * s.direction)) k).toNat) :
      Except TransFault (Int × Int)) = _
    rw [hnear, hfar, UInt8.toNat_zero, Nat.cast_zero, sub_zero, sub_zero, add_zero]
  unfold slide
  induction depth with
  | zero => simp
  | succ depth ih =>
      rw [forTo_succ, ih, ok_bind, hpass]
      push_cast
      rw [add_mul, one_mul, add_assoc]

/-- The last pixel of the scan, the white one, is a transition just if it is one after the windows
before it. -/
theorem findByte_whiteFirst (hforward : s.forward = false) (hextent : 2 ≤ s.extent) {near : Int}
    (hquiet : isSignificant depth (near, near) = false) (hlo : 2 ≤ fuel) (hhi : fuel ≤ s.extent) :
    findByte s depth (fun p k => .ok (whiteFirst p k)) fuel (s.position fuel) (near, near) =
      .ok (if isSignificant depth (near + depth * 255, near) then 0 else -1) := by
  have hlast : s.last = -1 := by
    unfold Scan.last
    rw [hforward]
    rfl
  induction fuel with
  | zero => omega
  | succ fuel ih =>
      have hposition : s.position (fuel + 1) = (fuel : Int) - 1 := by
        unfold Scan.position
        rw [hforward]
        simp
        ring
      rw [findByte, if_neg (s.position_ne_last hlo),
        slide_whiteFirst hforward hextent (s.inside_position hlo hhi), ok_bind, s.position_add]
      by_cases hone : fuel = 1
      · subst hone
        have hwhite : whiteFirst (s.position (1 + 1)) 0 = 255 := by
          rw [hposition]
          rfl
        rw [hwhite, findByte, if_pos s.position_one, hlast, hposition]
        change (if isSignificant depth (near + depth * 255, near) then _ else _) = _
        split_ifs <;> rfl
      · have hblack : whiteFirst (s.position (fuel + 1)) 0 = 0 := by
          rw [hposition]
          apply if_neg
          omega
        have hsame : near + depth * ((0 : UInt8).toNat : Int) = near := by simp
        rw [hblack, hsame, hquiet, if_neg Bool.false_ne_true]
        exact ih (by omega) (by omega)

/-- With its windows filled from the first column the white pixel is found, with them filled from
the last one it is not. -/
theorem byteTransition_whiteFirst (hforward : s.forward = false) (hextent : 2 ≤ s.extent)
    (hdepth : 1 ≤ depth) :
    byteTransition s depth (fun p k => .ok (whiteFirst p k)) 0 = .ok 0 ∧
      byteTransition s depth (fun p k => .ok (whiteFirst p k)) s.first = .ok (-1) := by
  have hlast : whiteFirst s.first 0 = 0 := by
    apply if_neg
    unfold Scan.first
    rw [hforward]
    simp
    omega
  have hdiv : ∀ m : Int, (255 * m).tdiv 255 = m := fun m => Int.mul_tdiv_cancel_left m (by decide)
  have hpos : (1 : Int) ≤ depth := by exact_mod_cast hdepth
  constructor
  · have hquiet :
        isSignificant depth ((depth : Int) * 255 * 9, (depth : Int) * 255 * 9) = false := by
      have hnear : (depth : Int) * 255 * 9 * 40 = 255 * (depth * 360) := by ring
      simp only [isSignificant, winLen, hnear, hdiv, sub_self, abs_zero, decide_eq_false_iff_not]
      omega
    have hloud : isSignificant depth
        ((depth : Int) * 255 * 9 + depth * 255, (depth : Int) * 255 * 9) = true := by
      have hnear : ((depth : Int) * 255 * 9 + depth * 255) * 40 = 255 * (depth * 400) := by ring
      have habs : |(depth : Int) * 255 * 9 + depth * 255 - depth * 255 * 9| = depth * 255 := by
        rw [add_sub_cancel_left, abs_of_nonneg (by omega)]
      simp only [isSignificant, winLen, hnear, hdiv, habs, decide_eq_true_eq]
      omega
    rw [byteTransition, loadWindow_whiteFirst, ok_bind, ← s.position_extent]
    have hrun := findByte_whiteFirst hforward hextent hquiet hextent (Nat.le_refl _)
    rw [if_pos hloud] at hrun
    exact hrun
  · have hquiet : isSignificant depth ((0 : Int) + depth * 255, 0) = false := by
      have hnear : ((0 : Int) + depth * 255) * 40 = 255 * (depth * 40) := by ring
      have habs : |(0 : Int) + depth * 255 - 0| = depth * 255 := by
        rw [zero_add, sub_zero, abs_of_nonneg (by omega)]
      simp only [isSignificant, winLen, hnear, hdiv, habs, decide_eq_false_iff_not]
      omega
    rw [byteTransition, loadWindow_whiteFirst, ok_bind, ← s.position_extent, hlast]
    have hrun := findByte_whiteFirst hforward hextent (@not_isSignificant_zero depth)
      hextent (Nat.le_refl _)
    rw [hquiet, if_neg Bool.false_ne_true] at hrun
    have hzero : (depth : Int) * ((0 : UInt8).toNat : Int) * winLen = 0 := by simp
    rw [hzero]
    exact hrun

end White

section Bits

variable {s : Scan} {fuel : Nat} {load : Int → Except TransFault UInt8} {near : UInt8}

/-- A bit that differs from the one before it is found at once. -/
theorem bitTransition_second (hextent : 2 ≤ s.extent) {bit : UInt8}
    (hfirst : load s.first = .ok near) (hsecond : load (s.position s.extent) = .ok bit)
    (hne : bit ≠ near) :
    bitTransition s load = .ok (s.position s.extent) := by
  obtain ⟨fuel, hfuel⟩ := Nat.exists_eq_succ_of_ne_zero (by omega : s.extent ≠ 0)
  rw [bitTransition, hfirst, ok_bind, ← s.position_extent]
  rw [hfuel] at hextent hsecond ⊢
  rw [findBit, if_neg (s.position_ne_last hextent), hsecond, ok_bind, if_pos hne]

theorem findBit_found {p : Int} (hrun : findBit s load near fuel (s.position fuel) = .ok p) :
    ∃ m, m ≤ fuel ∧ p = s.position m := by
  induction fuel with
  | zero => cases hrun
  | succ fuel ih =>
      rw [findBit] at hrun
      split_ifs at hrun with hlast
      · cases hrun
        exact ⟨fuel + 1, Nat.le_refl _, hlast.symm⟩
      · obtain ⟨bit, -, hrun⟩ := bind_eq_ok.mp hrun
        split_ifs at hrun
        · cases hrun
          exact ⟨fuel + 1, Nat.le_refl _, rfl⟩
        · rw [s.position_add] at hrun
          obtain ⟨m, hm, hp⟩ := ih hrun
          exact ⟨m, hm.trans (Nat.le_succ _), hp⟩

theorem Scan.position_ne {m m' : Nat} (h : m < m') : s.position m ≠ s.position m' := by
  unfold Scan.position
  split_ifs <;> omega

/-- Bits that are equal are passed over. -/
theorem bitTransition_ne (hextent : 2 ≤ s.extent)
    (hfirst : ∀ bit, load s.first = .ok bit → bit = near)
    (hsecond : ∀ bit, load (s.position s.extent) = .ok bit → bit = near) :
    bitTransition s load ≠ .ok (s.position s.extent) := by
  intro hrun
  obtain ⟨fuel, hfuel⟩ := Nat.exists_eq_succ_of_ne_zero (by omega : s.extent ≠ 0)
  obtain ⟨bit, hbit, hrun⟩ := bind_eq_ok.mp hrun
  rw [← s.position_extent] at hrun
  rw [hfirst bit hbit] at hrun
  rw [hfuel] at hextent hsecond hrun
  rw [findBit, if_neg (s.position_ne_last hextent)] at hrun
  obtain ⟨bit', hbit', hrun⟩ := bind_eq_ok.mp hrun
  rw [hsecond bit' hbit', if_neg (not_not.mpr rfl), s.position_add] at hrun
  obtain ⟨m, hm, hp⟩ := findBit_found hrun
  exact s.position_ne (Nat.lt_succ_of_le hm) hp.symm

end Bits

section Contents

variable {params : ImageParams} {f : Nat → Nat → UInt8} {row col k : Nat}

/-- A buffer with given bytes in the lines. -/
def filled (params : ImageParams) (f : Nat → Nat → UInt8) : Cells UInt8 where
  size := params.lines * params.bytesPerLine
  cell a := f (a / params.bytesPerLine) (a % params.bytesPerLine)

theorem cell_filled (a : Nat) : (filled params f).cell a =
    f (a / params.bytesPerLine) (a % params.bytesPerLine) := rfl

theorem holds_filled (hparams : Shaped params) : Holds params (filled params f) where
  kind := hparams.kind
  bytes hbytes := rowBytes_of_isBytes hbytes ▸ hparams.fits
  bits hbits := rowBytes_of_isBinary hbits ▸ hparams.fits
  lines := Nat.le_refl _

theorem byteOf_filled (hparams : Shaped params) (hbytes : params.isBytes = true)
    (hcol : col < params.pixelsPerLine) (hk : k < params.samples) :
    byteOf params (filled params f) row col k = f row (col * params.samples + k) := by
  have hlt : col * params.samples + k < params.bytesPerLine :=
    (part_lt hcol hk).trans_le (rowBytes_of_isBytes hbytes ▸ hparams.fits)
  rw [byteOf, cell_filled, Nat.add_assoc, part_div hlt, part_mod hlt]

theorem bitOf_filled (hparams : Shaped params) (hbits : params.isBinary = true)
    (hcol : col < params.pixelsPerLine) :
    bitOf params (filled params f) row col = (f row (col / 8)).toBitVec.getLsbD (7 - col % 8) := by
  have hfits : (params.pixelsPerLine + 7) / 8 ≤ params.bytesPerLine :=
    rowBytes_of_isBinary hbits ▸ hparams.fits
  have hlt : col / 8 < params.bytesPerLine := by omega
  rw [bitOf, cell_filled, part_div hlt, part_mod hlt]

theorem visible_filled {addr : Int} {byte : UInt8}
    (h : visible params (filled params f) addr = .ok byte) :
    0 ≤ addr ∧ addr.toNat % params.bytesPerLine < params.rowBytes ∧
      byte = f (addr.toNat / params.bytesPerLine) (addr.toNat % params.bytesPerLine) := by
  unfold visible at h
  split_ifs at h with hin
  cases h
  exact ⟨hin.1, hin.2.2, rfl⟩

/-- A byte with the bit of one pixel set. -/
def singleBit (n : Nat) : UInt8 := 0 ||| (1 : UInt8) <<< UInt8.ofNat (7 - n % 8)

theorem getLsbD_singleBit (n m : Nat) :
    (singleBit n).toBitVec.getLsbD (7 - m % 8) = decide (m % 8 = n % 8) := by
  have hn := Nat.mod_lt n (by decide : 0 < 8)
  have hm := Nat.mod_lt m (by decide : 0 < 8)
  rw [singleBit, getLsbD_setBit 0 (by omega) (by omega)]
  have hsame : 7 - m % 8 = 7 - n % 8 ↔ m % 8 = n % 8 := by omega
  simp [hsame]

/-- Lines of bits with one pixel set. -/
def singlePixel (row col : Nat) (line x : Nat) : UInt8 :=
  if line = row ∧ x = col / 8 then singleBit col else 0

theorem getLsbD_singlePixel (row col line n : Nat) :
    (singlePixel row col line (n / 8)).toBitVec.getLsbD (7 - n % 8) =
      decide (line = row ∧ n = col) := by
  unfold singlePixel
  split_ifs with h
  · rw [getLsbD_singleBit]
    have hsame : n % 8 = col % 8 ↔ line = row ∧ n = col := by omega
    rw [decide_eq_decide]
    exact hsame
  · have hnot : ¬ (line = row ∧ n = col) := by
      rintro ⟨rfl, rfl⟩
      exact h ⟨rfl, rfl⟩
    simp [hnot]

/-- Where the lines do not take whole bytes, a line is looked for in front of where it is, in one
of the last columns. -/
theorem exists_misplaced {lines bytesPerLine : Nat} (hpos : 0 < lines)
    (hlt : lines < 8 * bytesPerLine) :
    ∃ i < lines, lines ≤ i + 7 ∧ ∀ t ≥ 1, ∀ q ≤ t,
      (q * lines + i) / 8 < t * bytesPerLine + i / 8 := by
  have hstep : ∀ t ≥ 1, ∀ q ≤ t,
      q * lines + (8 * bytesPerLine - lines) ≤ 8 * (t * bytesPerLine) := by
    intro t ht q hq
    calc q * lines + (8 * bytesPerLine - lines)
        ≤ t * lines + t * (8 * bytesPerLine - lines) :=
          Nat.add_le_add (Nat.mul_le_mul_right _ hq) (Nat.le_mul_of_pos_left _ ht)
      _ = t * (8 * bytesPerLine) := by
          rw [← Nat.mul_add, Nat.add_sub_cancel' (Nat.le_of_lt hlt)]
      _ = 8 * (t * bytesPerLine) := Nat.mul_left_comm ..
  by_cases hwhole : lines % 8 = 0
  · refine ⟨lines - 1, by omega, by omega, fun t ht q hq => ?_⟩
    have hbound := hstep t ht q hq
    omega
  · refine ⟨8 * (lines / 8), by omega, by omega, fun t ht q hq => ?_⟩
    have hbound := hstep t ht q hq
    omega

end Contents

section Disagree

variable {calloc : Nat → Bool} {params : ImageParams} {bytesPerLine : Nat} {dpi : Int}
  {forward : Bool} {f f' : Nat → Nat → UInt8} {i : Nat}

/-- What both functions found in a column, if they return the same. -/
theorem found_of_eq {count : Nat} {last : Int} {find find' : Nat → Except TransFault Int}
    {result : Option (List Int)}
    (h : (do let buff ← eachTransition count find; .ok (some (dropLonely dpi last buff))) =
      (.ok result : Except TransFault (Option (List Int))))
    (h' : (do let buff ← eachTransition count find'; .ok (some (dropLonely dpi last buff))) =
      (.ok result : Except TransFault (Option (List Int))))
    (hi : i < count) :
    ∃ p p', find i = .ok p ∧ find' i = .ok p' ∧ (count ≤ i + 7 → p = p') := by
  obtain ⟨found, hfind, hbuff⟩ := bind_eq_ok.mp h
  obtain ⟨found', hfind', hbuff'⟩ := bind_eq_ok.mp h'
  obtain ⟨hlength, hcells⟩ := eachTransition_ok hfind
  obtain ⟨hlength', hcells'⟩ := eachTransition_ok hfind'
  obtain ⟨p, hp, hcell⟩ := hcells i hi
  obtain ⟨p', hp', hcell'⟩ := hcells' i hi
  refine ⟨p, p', hp, hp', fun hlate => ?_⟩
  have hkept : (dropLonely dpi last found)[i]? = found[i]? :=
    dropLonely_getElem? dpi last (by omega)
  have hkept' : (dropLonely dpi last found')[i]? = found'[i]? :=
    dropLonely_getElem? dpi last (by omega)
  have hsame : some (dropLonely dpi last found) = some (dropLonely dpi last found') :=
    Except.ok.inj (hbuff.trans hbuff'.symm)
  rw [Option.some.inj hsame, hkept', hcell, hcell'] at hkept
  exact (Option.some.inj hkept).symm

theorem samples_pos (params : ImageParams) : 0 < params.samples := by
  unfold ImageParams.samples
  split_ifs <;> decide

theorem isTranspose_filled_bytes (f f' : Nat → Nat → UInt8) (hparams : Shaped params)
    (htranspose : Shaped (params.transpose bytesPerLine)) (hbytes : params.isBytes = true)
    (hsame : ∀ row < params.lines, ∀ col < params.pixelsPerLine, ∀ k < params.samples,
      f' col (row * params.samples + k) = f row (col * params.samples + k)) :
    IsTranspose params (params.transpose bytesPerLine) (filled params f)
      (filled (params.transpose bytesPerLine) f') where
  bytes _ row hrow col hcol k hk := by
    rw [byteOf_filled hparams hbytes hcol hk, byteOf_filled htranspose hbytes hrow hk]
    exact hsame row hrow col hcol k hk
  bits hbits := absurd hbytes (not_isBytes_of_isBinary hbits)

/-- What the two functions find in the bytes of an image and its transpose. -/
theorem found_bytes (halloc : calloc params.lines = true) (hparams : Shaped params)
    (htranspose : Shaped (params.transpose bytesPerLine)) (hbytes : params.isBytes = true)
    (h : TransposesAgree calloc params bytesPerLine dpi forward)
    (himage : IsTranspose params (params.transpose bytesPerLine) (filled params f)
      (filled (params.transpose bytesPerLine) f'))
    (hi : i < params.lines) :
    ∃ p p', byteTransition ⟨params.pixelsPerLine, forward⟩ params.samples
        (fun j k => visible params (filled params f)
          (i * (params.bytesPerLine : Int) + j * params.samples + k)) 0 = .ok p ∧
      byteTransition ⟨params.pixelsPerLine, forward⟩ params.samples
        (fun j k => visible (params.transpose bytesPerLine)
          (filled (params.transpose bytesPerLine) f')
          ((j * (params.lines : Int) + i) * params.samples + k))
        (Scan.first ⟨params.pixelsPerLine, forward⟩) = .ok p' ∧
      (params.lines ≤ i + 7 → p = p') := by
  obtain ⟨buff, hx, hy⟩ := h _ _ (holds_filled hparams) (holds_filled htranspose) himage
  exact found_of_eq ((transitions_bytes halloc hbytes).symm.trans hx)
    ((transitions_bytes halloc hbytes).symm.trans hy) hi

/-- Of an image that is black, whatever can be loaded is 0. -/
theorem black_filled {addr : Int → Nat → Int} :
    Black fun j k => visible params (filled params fun _ _ => 0) (addr j k) := by
  intro p k byte h
  exact (visible_filled h).2.2

/-- Of bytes, an image needs a column, and lines that are as long as their pixels from the second
one on. -/
theorem sizes_of_bytes (halloc : calloc params.lines = true) (hparams : Shaped params)
    (htranspose : Shaped (params.transpose bytesPerLine)) (hbytes : params.isBytes = true)
    (h : TransposesAgree calloc params bytesPerLine dpi forward) (hlines : 0 < params.lines) :
    1 ≤ params.pixelsPerLine ∧
      (2 ≤ params.pixelsPerLine → bytesPerLine = params.lines * params.samples) := by
  have hsamples := samples_pos params
  have hbytes' : (params.transpose bytesPerLine).isBytes = true := hbytes
  obtain ⟨p, p', hx, hy, -⟩ := found_bytes halloc hparams htranspose hbytes h
    (isTranspose_filled_bytes (fun _ _ => 0) (fun _ _ => 0) hparams htranspose hbytes
      fun _ _ _ _ _ _ => rfl) hlines
  constructor
  · obtain ⟨near, hwindow, -⟩ := bind_eq_ok.mp hx
    obtain ⟨-, hloads⟩ := loadWindow_black black_filled hwindow
    obtain ⟨byte, hload⟩ := hloads 0 hsamples
    have hin := (visible_filled hload).2.1
    rw [rowBytes_of_isBytes hbytes] at hin
    by_contra hnone
    have hzero : params.pixelsPerLine = 0 := by omega
    rw [hzero, Nat.zero_mul] at hin
    omega
  · intro hextent
    -- the second line of a black image is loaded from behind the pixels of the first one
    obtain ⟨byte, hload⟩ := byteTransition_black black_filled hextent hy 0 hsamples
    have hin := (visible_filled hload).2.1
    have hfits := htranspose.fits
    rw [rowBytes_of_isBytes hbytes'] at hin hfits
    have haddr : ((1 * (params.lines : Int) + (0 : Nat)) * params.samples + (0 : Nat)).toNat =
        params.lines * params.samples := by
      rw [one_mul, Nat.cast_zero, add_zero, add_zero, ← Nat.cast_mul, Int.toNat_natCast]
    rw [haddr] at hin
    change params.lines * params.samples % bytesPerLine < params.lines * params.samples at hin
    change params.lines * params.samples ≤ bytesPerLine at hfits
    by_contra hne
    rw [Nat.mod_eq_of_lt (by omega)] at hin
    exact absurd hin (Nat.lt_irrefl _)

/-- Lines whose first pixel is white and the others black. -/
def whiteColumn (samples : Nat) (_ x : Nat) : UInt8 := if x < samples then 255 else 0

/-- A white line and black ones. -/
def whiteLine (line _ : Nat) : UInt8 := if line = 0 then 255 else 0

theorem whiteColumn_at {samples row col k : Nat} (hk : k < samples) :
    whiteColumn samples row (col * samples + k) = if col = 0 then 255 else 0 := by
  unfold whiteColumn
  by_cases hcol : col = 0
  · subst hcol
    rw [Nat.zero_mul, Nat.zero_add, if_pos hk, if_pos rfl]
  · have hle : samples ≤ col * samples := Nat.le_mul_of_pos_left _ (Nat.pos_of_ne_zero hcol)
    rw [if_neg (by omega), if_neg hcol]

theorem isTranspose_whiteColumn (hparams : Shaped params)
    (htranspose : Shaped (params.transpose bytesPerLine)) (hbytes : params.isBytes = true) :
    IsTranspose params (params.transpose bytesPerLine)
      (filled params (whiteColumn params.samples))
      (filled (params.transpose bytesPerLine) whiteLine) :=
  isTranspose_filled_bytes _ _ hparams htranspose hbytes fun _ _ _ _ _ hk =>
    (whiteColumn_at hk).symm

/-- What loads the samples of such an image loads white in the first column only. -/
theorem loads_whiteFirst (hparams : Shaped params) (hbytes : params.isBytes = true) {row : Nat}
    {load : Int → Nat → Except TransFault UInt8}
    (h : LoadsSamples ⟨params.pixelsPerLine, forward⟩ params.samples (fun q k =>
      byteOf params (filled params (whiteColumn params.samples)) row q.toNat k) load) :
    LoadsSamples ⟨params.pixelsPerLine, forward⟩ params.samples whiteFirst load := by
  intro q hq k hk
  have hcol : q.toNat < params.pixelsPerLine := by
    have hlo := hq.1
    have hhi := hq.2
    dsimp only at hhi
    omega
  rw [h q hq k hk]
  dsimp only
  rw [byteOf_filled hparams hbytes hcol hk, whiteColumn_at hk]
  rfl

/-- Going backwards, an image whose first column is white is told from its transpose. -/
theorem forward_of_bytes (halloc : calloc params.lines = true) (hparams : Shaped params)
    (htranspose : Shaped (params.transpose bytesPerLine)) (hbytes : params.isBytes = true)
    (h : TransposesAgree calloc params bytesPerLine dpi forward) (hlines : 0 < params.lines)
    (hextent : 2 ≤ params.pixelsPerLine) (hstride : bytesPerLine = params.lines * params.samples) :
    forward = true := by
  by_contra hbackward
  rw [Bool.not_eq_true] at hbackward
  have hi : params.lines - 1 < params.lines := by omega
  have himage := isTranspose_whiteColumn hparams htranspose hbytes
  obtain ⟨p, p', hx, hy, hsame⟩ := found_bytes halloc hparams htranspose hbytes h himage hi
  obtain ⟨hfound, hmissed⟩ := @byteTransition_whiteFirst ⟨params.pixelsPerLine, forward⟩
    params.samples hbackward hextent (samples_pos params)
  have hpos : 1 ≤ Scan.extent ⟨params.pixelsPerLine, forward⟩ := by dsimp only; omega
  have hzero : Scan.Inside ⟨params.pixelsPerLine, forward⟩ 0 :=
    ⟨Int.le_refl 0, by dsimp only; omega⟩
  have hline : Strides params bytesPerLine := fun _ _ => by rw [hstride]
  have hwhite : LoadsSamples ⟨params.pixelsPerLine, forward⟩ params.samples whiteFirst
      fun q k => .ok (whiteFirst q k) := fun _ _ _ _ => rfl
  rw [byteTransition_eq _ hpos hzero
    (loads_whiteFirst hparams hbytes (readsX hparams hbytes hi)) hwhite, hfound] at hx
  rw [byteTransition_eq _ hpos (Scan.inside_first hpos)
    (loads_whiteFirst hparams hbytes (readsY htranspose hbytes hline himage hi)) hwhite,
    hmissed] at hy
  have hp : p = 0 := (Except.ok.inj hx).symm
  have hp' : p' = -1 := (Except.ok.inj hy).symm
  have hwrong := hsame (by omega)
  omega

theorem agreeable_of_bytes (halloc : calloc params.lines = true) (hparams : Shaped params)
    (htranspose : Shaped (params.transpose bytesPerLine)) (hbytes : params.isBytes = true)
    (h : TransposesAgree calloc params bytesPerLine dpi forward) :
    Agreeable params bytesPerLine forward := by
  by_cases hlines : params.lines = 0
  · exact .inl hlines
  have hpos : 0 < params.lines := Nat.pos_of_ne_zero hlines
  obtain ⟨hextent, hstride⟩ := sizes_of_bytes halloc hparams htranspose hbytes h hpos
  refine .inr ⟨hextent, ?_⟩
  by_cases hone : params.pixelsPerLine = 1
  · exact .inl hone
  have htwo : 2 ≤ params.pixelsPerLine := by omega
  refine .inr ⟨fun _ => ?_, fun hbits => absurd hbytes (not_isBytes_of_isBinary hbits)⟩
  exact ⟨forward_of_bytes halloc hparams htranspose hbytes h hpos htwo (hstride htwo), hstride htwo⟩

theorem isTranspose_singlePixel (row col : Nat) (hparams : Shaped params)
    (htranspose : Shaped (params.transpose bytesPerLine)) (hbits : params.isBinary = true) :
    IsTranspose params (params.transpose bytesPerLine) (filled params (singlePixel row col))
      (filled (params.transpose bytesPerLine) (singlePixel col row)) where
  bytes hbytes := absurd hbytes (not_isBytes_of_isBinary hbits)
  bits _ line hline x hx := by
    rw [bitOf_filled hparams hbits hx, bitOf_filled htranspose hbits hline, getLsbD_singlePixel,
      getLsbD_singlePixel, decide_eq_decide]
    exact And.comm

/-- What the two functions find in the bits of an image and its transpose. -/
theorem found_bits (halloc : calloc params.lines = true) (hparams : Shaped params)
    (htranspose : Shaped (params.transpose bytesPerLine)) (hbits : params.isBinary = true)
    (h : TransposesAgree calloc params bytesPerLine dpi forward)
    (himage : IsTranspose params (params.transpose bytesPerLine) (filled params f)
      (filled (params.transpose bytesPerLine) f'))
    (hi : i < params.lines) :
    ∃ p p', bitTransition ⟨params.pixelsPerLine, forward⟩ (fun j => do
        let byte ← visible params (filled params f) (i * (params.bytesPerLine : Int) + j.tdiv 8)
        .ok (pickBit byte (7 - j.tmod 8))) = .ok p ∧
      bitTransition ⟨params.pixelsPerLine, forward⟩ (fun j => do
        let byte ← visible (params.transpose bytesPerLine)
          (filled (params.transpose bytesPerLine) f') ((j * (params.lines : Int) + i).tdiv 8)
        .ok (pickBit byte (7 - i % 8))) = .ok p' ∧
      (params.lines ≤ i + 7 → p = p') := by
  obtain ⟨buff, hx, hy⟩ := h _ _ (holds_filled hparams) (holds_filled htranspose) himage
  exact found_of_eq ((transitions_bits halloc hbits).symm.trans hx)
    ((transitions_bits halloc hbits).symm.trans hy) hi

/-- The first two positions of a scan. -/
theorem Scan.first_two {s : Scan} (hextent : 2 ≤ s.extent) :
    ∃ a b : Nat, s.first = a ∧ s.position s.extent = b ∧ a < s.extent ∧ b < s.extent ∧ a ≠ b := by
  refine ⟨s.first.toNat, (s.position s.extent).toNat, ?_⟩
  unfold Scan.first Scan.position
  split_ifs <;> omega

/-- A pixel of a row as it is loaded. -/
theorem load_singlePixel {row col q : Nat} (hparams : Shaped params)
    (hbits : params.isBinary = true) (hrow : row < params.lines) (hq : q < params.pixelsPerLine) :
    (do let byte ← visible params (filled params (singlePixel row col))
          (row * (params.bytesPerLine : Int) + (q : Int).tdiv 8)
        .ok (pickBit byte (7 - (q : Int).tmod 8))) =
      (.ok (bitValue (decide (q = col))) : Except TransFault UInt8) := by
  rw [visible_bit hparams hbits hrow hq
    (by push_cast; rw [Int.tdiv_eq_ediv_of_nonneg (Int.natCast_nonneg q)])
    (by push_cast; rw [Int.tmod_eq_emod_of_nonneg (Int.natCast_nonneg q)]),
    bitOf_filled hparams hbits hq, getLsbD_singlePixel]
  simp

/-- What is loaded from in front of the pixel that is set is 0. -/
theorem load_before_singlePixel {row col : Nat} {addr shift : Int}
    (hbefore : addr < (row * params.bytesPerLine + col / 8 : Nat)) (bit : UInt8)
    (h : (do let byte ← visible params (filled params (singlePixel row col)) addr
             .ok (pickBit byte shift)) = (.ok bit : Except TransFault UInt8)) : bit = 0 := by
  obtain ⟨byte, hload, hbit⟩ := bind_eq_ok.mp h
  obtain ⟨hnonneg, -, hbyte⟩ := visible_filled hload
  have hzero : byte = 0 := by
    rw [hbyte]
    apply if_neg
    rintro ⟨hline, hx⟩
    have hsplit := Nat.div_add_mod' addr.toNat params.bytesPerLine
    rw [hline, hx] at hsplit
    omega
  cases hbit
  rw [hzero, pickBit, UInt8.zero_shiftRight, UInt8.zero_and]

theorem extent_of_bits (halloc : calloc params.lines = true) (hparams : Shaped params)
    (htranspose : Shaped (params.transpose bytesPerLine)) (hbits : params.isBinary = true)
    (h : TransposesAgree calloc params bytesPerLine dpi forward) (hlines : 0 < params.lines) :
    1 ≤ params.pixelsPerLine := by
  obtain ⟨p, p', hx, -, -⟩ := found_bits halloc hparams htranspose hbits h
    (isTranspose_singlePixel 0 0 hparams htranspose hbits) hlines
  obtain ⟨bit, hload, -⟩ := bind_eq_ok.mp hx
  obtain ⟨byte, hload, -⟩ := bind_eq_ok.mp hload
  have hin := (visible_filled hload).2.1
  rw [rowBytes_of_isBinary hbits] at hin
  omega

/-- Where of the two pixels of a row that are loaded first just the one further right is set, the
second is found. -/
theorem found_singlePixel (hparams : Shaped params) (hbits : params.isBinary = true)
    (hi : i < params.lines) {a b : Nat} (ha : a < params.pixelsPerLine)
    (hb : b < params.pixelsPerLine) (hab : a ≠ b)
    (hfirst : Scan.first ⟨params.pixelsPerLine, forward⟩ = a)
    (hsecond : Scan.position ⟨params.pixelsPerLine, forward⟩ params.pixelsPerLine = b) :
    bitTransition ⟨params.pixelsPerLine, forward⟩ (fun j => do
      let byte ← visible params (filled params (singlePixel i (max a b)))
        (i * (params.bytesPerLine : Int) + j.tdiv 8)
      .ok (pickBit byte (7 - j.tmod 8))) = .ok (b : Int) := by
  have hbit : bitValue (decide (b = max a b)) ≠ bitValue (decide (a = max a b)) := by
    obtain hlt | hlt := Nat.lt_or_gt_of_ne hab
    · rw [Nat.max_eq_right hlt.le, decide_eq_true rfl, decide_eq_false hlt.ne]
      decide
    · rw [Nat.max_eq_left hlt.le, decide_eq_true rfl, decide_eq_false hlt.ne]
      decide
  rw [← hsecond]
  refine bitTransition_second (by dsimp only; omega) ?_ ?_ hbit
  · rw [hfirst]
    exact load_singlePixel hparams hbits hi ha
  · dsimp only
    rw [hsecond]
    exact load_singlePixel hparams hbits hi hb

/-- Where lines of the transpose do not end with their pixels, a pixel is missed. -/
theorem stride_of_bits (halloc : calloc params.lines = true) (hparams : Shaped params)
    (htranspose : Shaped (params.transpose bytesPerLine)) (hbits : params.isBinary = true)
    (h : TransposesAgree calloc params bytesPerLine dpi forward) (hlines : 0 < params.lines)
    (hextent : 2 ≤ params.pixelsPerLine) : 8 * bytesPerLine = params.lines := by
  have hbits' : (params.transpose bytesPerLine).isBinary = true := hbits
  have hfits := htranspose.fits
  rw [rowBytes_of_isBinary hbits'] at hfits
  change (params.lines + 7) / 8 ≤ bytesPerLine at hfits
  by_contra hne
  have hlt : params.lines < 8 * bytesPerLine := by omega
  obtain ⟨i, hi, hlate, hbefore⟩ := exists_misplaced hlines hlt
  have hextent' : 2 ≤ Scan.extent ⟨params.pixelsPerLine, forward⟩ := hextent
  obtain ⟨a, b, hfirst, hsecond, ha, hb, hab⟩ := Scan.first_two hextent'
  obtain ⟨p, p', hx, hy, hsame⟩ := found_bits halloc hparams htranspose hbits h
    (isTranspose_singlePixel i (max a b) hparams htranspose hbits) hi
  rw [found_singlePixel hparams hbits hi ha hb hab hfirst hsecond] at hx
  rw [← hsame hlate, ← Except.ok.inj hx, ← hsecond] at hy
  have hmissed : ∀ q ≤ max a b, ∀ bit, (do
      let byte ← visible (params.transpose bytesPerLine)
        (filled (params.transpose bytesPerLine) (singlePixel (max a b) i))
        (((q : Int) * (params.lines : Int) + i).tdiv 8)
      .ok (pickBit byte (7 - i % 8))) = (.ok bit : Except TransFault UInt8) → bit = 0 := by
    intro q hq
    apply load_before_singlePixel
    have hlt := hbefore (max a b) (by omega) q hq
    rw [Int.tdiv_eq_ediv_of_nonneg (by positivity)]
    exact_mod_cast hlt
  refine @bitTransition_ne _ _ 0 hextent' ?_ ?_ hy
  · rw [hfirst]
    exact hmissed a (Nat.le_max_left a b)
  · rw [hsecond]
    exact hmissed b (Nat.le_max_right a b)

theorem agreeable_of_bits (halloc : calloc params.lines = true) (hparams : Shaped params)
    (htranspose : Shaped (params.transpose bytesPerLine)) (hbits : params.isBinary = true)
    (h : TransposesAgree calloc params bytesPerLine dpi forward) :
    Agreeable params bytesPerLine forward := by
  by_cases hlines : params.lines = 0
  · exact .inl hlines
  have hpos : 0 < params.lines := Nat.pos_of_ne_zero hlines
  have hextent := extent_of_bits halloc hparams htranspose hbits h hpos
  refine .inr ⟨hextent, ?_⟩
  by_cases hone : params.pixelsPerLine = 1
  · exact .inl hone
  refine .inr ⟨fun hbytes => absurd hbytes (not_isBytes_of_isBinary hbits), fun _ => ?_⟩
  exact stride_of_bits halloc hparams htranspose hbits h hpos (by omega)

theorem transposesAgree_of_calloc (h : calloc params.lines = false) :
    TransposesAgree calloc params bytesPerLine dpi forward := by
  intro buffer buffer' _ _ _
  have hnone : ∀ {params' : ImageParams} {s : Scan}
      {findInBytes findInBits : Nat → Except TransFault Int},
      transitions calloc params' dpi s params.lines findInBytes findInBits = .ok none :=
    if_neg (by rw [h]; exact Bool.false_ne_true)
  exact ⟨none, hnone, hnone⟩

/-- The two functions agree on all images and their transposes just if there is no memory, or the
images are one column wide, or they are scanned forwards and the lines of the transposes have no
bytes, or for one bit no bits, but those of their pixels. -/
theorem transposesAgree_iff (hparams : Shaped params)
    (htranspose : Shaped (params.transpose bytesPerLine)) :
    TransposesAgree calloc params bytesPerLine dpi forward ↔
      calloc params.lines = false ∨ Agreeable params bytesPerLine forward := by
  by_cases halloc : calloc params.lines = true
  · constructor
    · intro h
      obtain hbytes | hbits := hparams.kind
      · exact .inr (agreeable_of_bytes halloc hparams htranspose hbytes h)
      · exact .inr (agreeable_of_bits halloc hparams htranspose hbits h)
    · rintro (hfailed | hagree)
      · exact transposesAgree_of_calloc hfailed
      · exact transposesAgree_of_agreeable halloc hparams htranspose hagree
  · rw [Bool.not_eq_true] at halloc
    exact iff_of_true (transposesAgree_of_calloc halloc) (.inl halloc)

/-- A line of two gray pixels. -/
def twoGray : ImageParams where
  bytesPerLine := 2
  pixelsPerLine := 2
  lines := 1

theorem transposesAgree_twoGray : TransposesAgree (fun _ => true) twoGray 1 300 true :=
  (transposesAgree_iff ⟨.inl rfl, by decide⟩ ⟨.inl rfl, by decide⟩).mpr
    (.inr (.inr ⟨by decide, .inr ⟨fun _ => ⟨rfl, rfl⟩, fun hbits => absurd hbits (by decide)⟩⟩))

/-- Scanned from the right, a line of a white pixel and a black one is told from its transpose. -/
theorem not_transposesAgree_twoGray : ¬ TransposesAgree (fun _ => true) twoGray 1 300 false := by
  intro h
  obtain ⟨found, hx, hy⟩ := h (filled twoGray (whiteColumn 1))
    (filled (twoGray.transpose 1) whiteLine)
    (holds_filled ⟨.inl rfl, by decide⟩) (holds_filled ⟨.inl rfl, by decide⟩)
    (isTranspose_whiteColumn ⟨.inl rfl, by decide⟩ ⟨.inl rfl, by decide⟩ rfl)
  have hfound : (Except.ok (some [0]) : Except TransFault (Option (List Int))) = .ok found := hx
  have hmissed : (Except.ok (some [-1]) : Except TransFault (Option (List Int))) = .ok found := hy
  cases hfound
  cases hmissed

end Disagree

end SaneBackends.Sanei
