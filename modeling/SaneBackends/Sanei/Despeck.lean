import SaneBackends.Lib.Component
import SaneBackends.Sanei.Turn
/-!
# Removing small spots

`sanei_magic_despeck`, which looks at windows of `diam` lines and columns in turn, and erases what
is in a window with nothing around it. The windows see what was erased before.
-/

namespace SaneBackends.Sanei

open SaneBackends.Lib

/-! ## The code -/

/-- `k != -1 && k != diam && l != -1 && l != diam`, with both counted from the ring on. -/
def inWindow (diam k l : Nat) : Bool := k ≠ 0 && k ≠ diam + 1 && l ≠ 0 && l ≠ diam + 1

section Bytes

variable (params : ImageParams) (diam : Nat)

/-- The samples of a pixel, added up. -/
def pixelSum (buffer : Cells UInt8) (row col : Nat) : Except CellFault Nat :=
  forTo params.samples (fun n tmp => do
    let byte ← buffer.load (row * params.bytesPerLine + col * params.samples + n)
    .ok (tmp + byte.toNat)) 0

/-- The darkest pixel of a window. -/
def darkestPixel (buffer : Cells UInt8) (i j : Nat) : Except CellFault Nat :=
  forTo diam (fun k => forTo diam fun l thresh => do
    let tmp ← pixelSum params buffer (i + k) (j + l)
    .ok (if tmp < thresh then tmp else thresh)) (255 * params.samples)

/-- `hits`, and `outer` for each sample, which is not used once there is a hit. -/
structure RingState where
  hits : Nat
  outer : Nat → Nat

/-- The columns of the ring from `l` on, up to the first that is too dark. -/
def ringRowBytes (buffer : Cells UInt8) (thresh i j k : Nat) :
    Nat → Nat → RingState → Except CellFault RingState
  | 0, _, st => .ok st
  | n + 1, l, st =>
      if inWindow diam k l then ringRowBytes buffer thresh i j k n (l + 1) st
      else do
        let tmp ← pixelSum params buffer (i + k - 1) (j + l - 1)
        if tmp < thresh then .ok { st with hits := st.hits + 1 }
        else do
          let outer ← forTo params.samples (fun s outer => do
            let byte ← buffer.load
              ((i + k - 1) * params.bytesPerLine + (j + l - 1) * params.samples + s)
            .ok (Function.update outer s (outer s + byte.toNat))) st.outer
          ringRowBytes buffer thresh i j k n (l + 1) { st with outer := outer }

def despeckWindowBytes (i j : Nat) (buffer : Cells UInt8) : Except CellFault (Cells UInt8) := do
  let darkest ← darkestPixel params diam buffer i j
  let thresh := (darkest + 255 * params.samples + 255 * params.samples) / 3
  let st ← forTo (diam + 2) (fun k st =>
    ringRowBytes params diam buffer thresh i j k (diam + 2) 0 st)
    { hits := 0, outer := fun _ => 0 }
  if st.hits = 0 then
    forTo diam (fun k => forTo diam fun l => forTo params.samples fun n buffer =>
      buffer.store ((i + k) * params.bytesPerLine + (j + l) * params.samples + n)
        (UInt8.ofNat (st.outer n / (4 * diam + 4)))) buffer
  else .ok buffer

end Bytes

section Bits

variable (params : ImageParams) (diam : Nat)

def loadBit (buffer : Cells UInt8) (row col : Nat) : Except CellFault Nat := do
  let byte ← buffer.load (row * params.bytesPerLine + col / 8)
  .ok ((byte >>> UInt8.ofNat (7 - col % 8)) &&& 1).toNat

def clearBit (row col : Nat) (buffer : Cells UInt8) : Except CellFault (Cells UInt8) := do
  let byte ← buffer.load (row * params.bytesPerLine + col / 8)
  buffer.store (row * params.bytesPerLine + col / 8) (byte &&& ~~~(1 <<< UInt8.ofNat (7 - col % 8)))

/-- `curr`. -/
def windowBits (buffer : Cells UInt8) (i j : Nat) : Except CellFault Nat :=
  forTo diam (fun k => forTo diam fun l curr => do
    let bit ← loadBit params buffer (i + k) (j + l)
    .ok (curr + bit)) 0

/-- The columns of the ring from `l` on, up to the first with a hit. -/
def ringRow (buffer : Cells UInt8) (i j k : Nat) : Nat → Nat → Nat → Except CellFault Nat
  | 0, _, hits => .ok hits
  | n + 1, l, hits =>
      if inWindow diam k l then ringRow buffer i j k n (l + 1) hits
      else do
        let bit ← loadBit params buffer (i + k - 1) (j + l - 1)
        if hits + bit ≠ 0 then .ok (hits + bit) else ringRow buffer i j k n (l + 1) (hits + bit)

/-- `hits`. -/
def ringBits (buffer : Cells UInt8) (i j : Nat) : Except CellFault Nat :=
  forTo (diam + 2) (fun k hits => ringRow params diam buffer i j k (diam + 2) 0 hits) 0

def clearWindow (i j : Nat) (buffer : Cells UInt8) : Except CellFault (Cells UInt8) :=
  forTo diam (fun k => forTo diam fun l => clearBit params (i + k) (j + l)) buffer

def despeckWindow (i j : Nat) (buffer : Cells UInt8) : Except CellFault (Cells UInt8) := do
  let curr ← windowBits params diam buffer i j
  if curr = 0 then .ok buffer
  else do
    let hits ← ringBits params diam buffer i j
    if hits = 0 then clearWindow params diam i j buffer else .ok buffer

end Bits

/-- The loops over the windows, from the second line and column on. -/
def despeckWindows (params : ImageParams) (diam : Nat)
    (window : Nat → Nat → Cells UInt8 → Except CellFault (Cells UInt8)) (buffer : Cells UInt8) :
    Except CellFault (Cells UInt8) :=
  forTo (params.lines - 2 - diam)
    (fun i => forTo (params.pixelsPerLine - 2 - diam) fun j => window (i + 1) (j + 1)) buffer

def saneiMagicDespeck (params : ImageParams) (buffer : Cells UInt8) (diam : Nat) :
    Except CellFault (SaneStatus × Cells UInt8) :=
  if params.isBytes then do
    let buffer ← despeckWindows params diam (despeckWindowBytes params diam) buffer
    .ok (.good, buffer)
  else if params.isBinary then do
    let buffer ← despeckWindows params diam (despeckWindow params diam) buffer
    .ok (.good, buffer)
  else .ok (.inval, buffer)

/-! ## What it is for -/

/-- The black pixels of an image of bits. -/
def blackOf (params : ImageParams) (buffer : Cells UInt8) : Set (Nat × Nat) :=
  {p | p.1 < params.lines ∧ p.2 < params.pixelsPerLine ∧ bitOf params buffer p.1 p.2 = true}

/-- Two pixels touch, if only at their corners. -/
def Touches (p q : Nat × Nat) : Prop :=
  (p.1 ≤ q.1 + 1 ∧ q.1 ≤ p.1 + 1) ∧ p.2 ≤ q.2 + 1 ∧ q.2 ≤ p.2 + 1

def square (diam i j : Nat) : Set (Nat × Nat) :=
  {p | (i ≤ p.1 ∧ p.1 < i + diam) ∧ j ≤ p.2 ∧ p.2 < j + diam}

def IsSquare (diam : Nat) (area : Set (Nat × Nat)) : Prop := ∃ i j, area = square diam i j

/-- Pixels were only erased, each with all that hangs together with it, and only what fits in a
square. -/
structure Despeckled (params : ImageParams) (buffer : Cells UInt8) (diam : Nat)
    (buffer' : Cells UInt8) : Prop where
  cleared : ∀ row < params.lines, ∀ col < params.pixelsPerLine,
    bitOf params buffer' row col = true → bitOf params buffer row col = true
  whole : ∀ p q, Linked Touches (blackOf params buffer) p q →
    (p ∈ blackOf params buffer' ↔ q ∈ blackOf params buffer')
  fits : ∀ p ∈ blackOf params buffer, p ∉ blackOf params buffer' →
    ∃ i j, ∀ q, Linked Touches (blackOf params buffer) p q → q ∈ square diam i j

section Bits

variable {params : ImageParams} {buffer : Cells UInt8} {diam i j k l n hits row col : Nat}

theorem touches_symm (p q : Nat × Nat) (h : Touches p q) : Touches q p :=
  ⟨⟨h.1.2, h.1.1⟩, h.2.2, h.2.1⟩

/-- The byte of a pixel is in the buffer. -/
theorem byte_inside (hbinary : params.isBinary = true) (hholds : Holds params buffer)
    (hrow : row < params.lines) (hcol : col < params.pixelsPerLine) :
    col / 8 < params.bytesPerLine ∧ row * params.bytesPerLine + col / 8 < buffer.size := by
  have hroom := hholds.bits hbinary
  have hbyte : col / 8 < params.bytesPerLine := by omega
  exact ⟨hbyte, Nat.lt_of_lt_of_le (part_lt hrow hbyte) hholds.lines⟩

theorem loadBit_eq (hbinary : params.isBinary = true) (hholds : Holds params buffer)
    (hrow : row < params.lines) (hcol : col < params.pixelsPerLine) :
    ∃ bit, loadBit params buffer row col = .ok bit ∧
      (bit = 0 ↔ bitOf params buffer row col = false) := by
  obtain ⟨-, hinside⟩ := byte_inside hbinary hholds hrow hcol
  refine ⟨_, by rw [loadBit, Cells.load_eq hinside, ok_bind], ?_⟩
  have hpicked := pickedBit_ne_zero (buffer.cell (row * params.bytesPerLine + col / 8))
    (show 7 - col % 8 < 8 by omega)
  rw [bitOf, Bool.eq_false_iff, ne_eq, ← hpicked, not_not, ← UInt8.toNat_inj]
  rfl

theorem windowBits_ok (hbinary : params.isBinary = true) (hholds : Holds params buffer)
    (hi : i + diam ≤ params.lines) (hj : j + diam ≤ params.pixelsPerLine) :
    ∃ curr, windowBits params diam buffer i j = .ok curr := by
  unfold windowBits
  obtain ⟨curr, hrun, -⟩ := @forTo_invariant _ _ diam (fun k => forTo diam fun l curr => do
      let bit ← loadBit params buffer (i + k) (j + l)
      .ok (curr + bit)) 0 (fun _ _ => True) trivial fun k hk curr _ =>
    forTo_invariant (I := fun _ _ => True) trivial fun l hl curr _ => by
      obtain ⟨bit, hbit, -⟩ := @loadBit_eq params buffer (i + k) (j + l) hbinary hholds
        (by omega) (by omega)
      exact ⟨curr + bit, by rw [hbit, ok_bind], trivial⟩
  exact ⟨curr, hrun⟩

/-- There is no hit in a row of the ring only if all its pixels are white. -/
theorem ringRow_spec (hbinary : params.isBinary = true) (hholds : Holds params buffer)
    (hrow : i + k ≤ params.lines) (hpos : 0 < i + k) (hcols : j + l + n ≤ params.pixelsPerLine + 1)
    (hj : 0 < j) :
    ∃ hits', ringRow params diam buffer i j k n l hits = .ok hits' ∧
      (hits' = 0 → hits = 0 ∧ ∀ l', l ≤ l' → l' < l + n → inWindow diam k l' = false →
        bitOf params buffer (i + k - 1) (j + l' - 1) = false) := by
  induction n generalizing l hits with
  | zero => exact ⟨hits, rfl, fun h => ⟨h, fun l' hle hlt => by omega⟩⟩
  | succ n ih =>
      rw [ringRow]
      by_cases hwindow : inWindow diam k l = true
      · rw [if_pos hwindow]
        obtain ⟨hits', hrun, hwhite⟩ := @ih (l + 1) hits (by omega)
        refine ⟨hits', hrun, fun h => ⟨(hwhite h).1, fun l' hle hlt hout => ?_⟩⟩
        by_cases hfirst : l' = l
        · rw [hfirst, hwindow] at hout
          cases hout
        · exact (hwhite h).2 l' (by omega) (by omega) hout
      · rw [if_neg hwindow]
        obtain ⟨bit, hbit, hzero⟩ := @loadBit_eq params buffer (i + k - 1) (j + l - 1) hbinary
          hholds (by omega) (by omega)
        rw [hbit, ok_bind]
        by_cases hhit : hits + bit ≠ 0
        · rw [if_pos hhit]
          exact ⟨hits + bit, rfl, fun h => absurd h hhit⟩
        · rw [if_neg hhit]
          obtain ⟨hits', hrun, hwhite⟩ := @ih (l + 1) (hits + bit) (by omega)
          refine ⟨hits', hrun, fun h => ⟨by omega, fun l' hle hlt hout => ?_⟩⟩
          by_cases hfirst : l' = l
          · rw [hfirst]
            exact hzero.mp (by omega)
          · exact (hwhite h).2 l' (by omega) (by omega) hout

/-- There is no hit only if all pixels of the ring are white. -/
theorem ringBits_spec (hbinary : params.isBinary = true) (hholds : Holds params buffer)
    (hi : i + diam < params.lines) (hipos : 0 < i) (hj : j + diam < params.pixelsPerLine)
    (hjpos : 0 < j) :
    ∃ hits, ringBits params diam buffer i j = .ok hits ∧
      (hits = 0 → ∀ k < diam + 2, ∀ l < diam + 2, inWindow diam k l = false →
        bitOf params buffer (i + k - 1) (j + l - 1) = false) := by
  refine forTo_invariant (I := fun n hits => hits = 0 → ∀ k < n, ∀ l < diam + 2,
    inWindow diam k l = false → bitOf params buffer (i + k - 1) (j + l - 1) = false)
    (fun _ k hk => absurd hk (Nat.not_lt_zero k)) fun k hk hits hinv => ?_
  obtain ⟨hits', hrun, hwhite⟩ := @ringRow_spec params buffer diam i j k 0 (diam + 2) hits hbinary
    hholds (by omega) (by omega) (by omega) hjpos
  refine ⟨hits', hrun, fun h k' hk' l hl hout => ?_⟩
  obtain ⟨hbefore, hrow⟩ := hwhite h
  by_cases hlast : k' = k
  · rw [hlast] at hout ⊢
    exact hrow l (Nat.zero_le l) (by omega) hout
  · exact hinv hbefore k' (by omega) l hl hout

theorem clearBit_spec (hbinary : params.isBinary = true) (hholds : Holds params buffer)
    (hrow : row < params.lines) (hcol : col < params.pixelsPerLine) :
    ∃ buffer', clearBit params row col buffer = .ok buffer' ∧ buffer'.size = buffer.size ∧
      ∀ row' < params.lines, ∀ col' < params.pixelsPerLine,
        (bitOf params buffer' row' col' = true ↔
          ¬ (row' = row ∧ col' = col) ∧ bitOf params buffer row' col' = true) := by
  obtain ⟨hbyte, hinside⟩ := byte_inside hbinary hholds hrow hcol
  have hrun : clearBit params row col buffer = .ok (buffer.put (row * params.bytesPerLine + col / 8)
      (buffer.cell (row * params.bytesPerLine + col / 8) &&& ~~~(1 <<< UInt8.ofNat (7 - col % 8)))) := by
    rw [clearBit, Cells.load_eq hinside, ok_bind, Cells.store_eq hinside]
  refine ⟨_, hrun, rfl, fun row' hrow' col' hcol' => ?_⟩
  obtain ⟨hbyte', -⟩ := byte_inside hbinary hholds hrow' hcol'
  have hput : bitOf params (buffer.put (row * params.bytesPerLine + col / 8)
      (buffer.cell (row * params.bytesPerLine + col / 8) &&& ~~~(1 <<< UInt8.ofNat (7 - col % 8))))
      row' col' = _ := lineBit_put hbyte hbyte' buffer _
  rw [hput]
  by_cases hsame : row' = row ∧ col' / 8 = col / 8
  · obtain ⟨rfl, hpart⟩ := hsame
    rw [if_pos ⟨rfl, hpart⟩, getLsbD_clearBit _ (by omega) (by omega), bitOf, hpart]
    by_cases hbit : col' = col
    · simp [hbit]
    · have hother : ¬ 7 - col' % 8 = 7 - col % 8 := by omega
      simp [hbit, hother]
  · have hother : ¬ (row' = row ∧ col' = col) := by
      rintro ⟨rfl, rfl⟩
      exact hsame ⟨rfl, rfl⟩
    rw [if_neg hsame, and_iff_right hother]
    exact Iff.rfl

theorem Holds.of_size {buffer' : Cells UInt8} (hholds : Holds params buffer)
    (hsize : buffer'.size = buffer.size) : Holds params buffer' :=
  ⟨hholds.kind, hholds.bytes, hholds.bits, hsize ▸ hholds.lines⟩

/-- The bits of the window up to a place, line by line. -/
def Before (diam i j k l row col : Nat) : Prop :=
  (i ≤ row ∧ row < i + k ∧ j ≤ col ∧ col < j + diam) ∨ (row = i + k ∧ j ≤ col ∧ col < j + l)

/-- What is cleared once the loops have come to a place of the window. -/
structure ClearedTo (params : ImageParams) (buffer : Cells UInt8) (diam i j k l : Nat)
    (buffer' : Cells UInt8) : Prop where
  size : buffer'.size = buffer.size
  bits : ∀ row < params.lines, ∀ col < params.pixelsPerLine,
    (bitOf params buffer' row col = true ↔
      ¬ Before diam i j k l row col ∧ bitOf params buffer row col = true)

theorem clearWindow_spec (hbinary : params.isBinary = true) (hholds : Holds params buffer)
    (hi : i + diam ≤ params.lines) (hj : j + diam ≤ params.pixelsPerLine) :
    ∃ buffer', clearWindow params diam i j buffer = .ok buffer' ∧
      ClearedTo params buffer diam i j diam 0 buffer' := by
  refine forTo_invariant (I := fun k => ClearedTo params buffer diam i j k 0)
    ⟨rfl, fun row _ col _ => (and_iff_right (by unfold Before; omega)).symm⟩
    fun k hk block hblock => ?_
  obtain ⟨block', hrun, hblock'⟩ := @forTo_invariant _ _ diam
    (fun l => clearBit params (i + k) (j + l)) block
    (fun l => ClearedTo params buffer diam i j k l) hblock fun l hl block hblock => by
      obtain ⟨block', hclear, hsize, hbits⟩ := @clearBit_spec params block (i + k) (j + l) hbinary
        (hholds.of_size hblock.size) (by omega) (by omega)
      refine ⟨block', hclear, hsize.trans hblock.size, fun row hrow col hcol => ?_⟩
      rw [hbits row hrow col hcol, hblock.bits row hrow col hcol, ← and_assoc]
      refine and_congr_left fun _ => ?_
      unfold Before
      omega
  refine ⟨block', hrun, hblock'.size, fun row hrow col hcol => ?_⟩
  rw [hblock'.bits row hrow col hcol]
  refine and_congr_left fun _ => ?_
  unfold Before
  omega

theorem mem_square {p : Nat × Nat} :
    p ∈ square diam i j ↔ Before diam i j diam 0 p.1 p.2 := by
  have hmem : p ∈ square diam i j ↔ (i ≤ p.1 ∧ p.1 < i + diam) ∧ j ≤ p.2 ∧ p.2 < j + diam :=
    Iff.rfl
  rw [hmem, Before]
  omega

/-- A cleared window takes its square from the black pixels. -/
theorem blackOf_cleared {buffer' : Cells UInt8}
    (h : ClearedTo params buffer diam i j diam 0 buffer') :
    blackOf params buffer' = blackOf params buffer \ square diam i j := by
  ext p
  rw [Set.mem_sdiff, mem_square]
  constructor
  · rintro ⟨hrow, hcol, hbit⟩
    obtain ⟨hout, hbit⟩ := (h.bits p.1 hrow p.2 hcol).mp hbit
    exact ⟨⟨hrow, hcol, hbit⟩, hout⟩
  · rintro ⟨⟨hrow, hcol, hbit⟩, hout⟩
    exact ⟨hrow, hcol, (h.bits p.1 hrow p.2 hcol).mpr ⟨hout, hbit⟩⟩

/-- What touches a pixel of the window from outside is in the ring. -/
theorem square_alone (hipos : 0 < i) (hjpos : 0 < j)
    (hring : ∀ k < diam + 2, ∀ l < diam + 2, inWindow diam k l = false →
      bitOf params buffer (i + k - 1) (j + l - 1) = false) {p q : Nat × Nat}
    (hp : p ∈ square diam i j) (hq : q ∈ blackOf params buffer) (htouch : Touches p q) :
    q ∈ square diam i j := by
  obtain ⟨⟨hp1, hp2⟩, hp3, hp4⟩ := hp
  obtain ⟨⟨ht1, ht2⟩, ht3, ht4⟩ := htouch
  obtain ⟨-, -, hbit⟩ := hq
  by_contra hout
  have hborder : inWindow diam (q.1 + 1 - i) (q.2 + 1 - j) = false := by
    rw [← Bool.not_eq_true]
    intro hin
    simp only [inWindow, Bool.and_eq_true, decide_eq_true_eq] at hin
    exact hout ⟨⟨by omega, by omega⟩, by omega, by omega⟩
  have hwhite := hring (q.1 + 1 - i) (by omega) (q.2 + 1 - j) (by omega) hborder
  rw [show i + (q.1 + 1 - i) - 1 = q.1 by omega, show j + (q.2 + 1 - j) - 1 = q.2 by omega,
    hbit] at hwhite
  cases hwhite

/-- One window erases whole parts of the image, or nothing. -/
theorem despeckWindow_thinned {original : Set (Nat × Nat)} (hbinary : params.isBinary = true)
    (hholds : Holds params buffer) (hi : i + diam < params.lines) (hipos : 0 < i)
    (hj : j + diam < params.pixelsPerLine) (hjpos : 0 < j)
    (hthinned : Thinned Touches (IsSquare diam) original (blackOf params buffer)) :
    ∃ buffer', despeckWindow params diam i j buffer = .ok buffer' ∧ buffer'.size = buffer.size ∧
      Thinned Touches (IsSquare diam) original (blackOf params buffer') := by
  obtain ⟨curr, hcurr⟩ := @windowBits_ok params buffer diam i j hbinary hholds (by omega) (by omega)
  rw [despeckWindow, hcurr, ok_bind]
  by_cases hempty : curr = 0
  · rw [if_pos hempty]
    exact ⟨buffer, rfl, rfl, hthinned⟩
  · obtain ⟨hits, hhits, hring⟩ := ringBits_spec hbinary hholds hi hipos hj hjpos
    rw [if_neg hempty, hhits, ok_bind]
    by_cases hnone : hits = 0
    · obtain ⟨buffer', hclear, hcleared⟩ := @clearWindow_spec params buffer diam i j hbinary hholds
        (by omega) (by omega)
      rw [if_pos hnone, hclear]
      refine ⟨buffer', rfl, hcleared.size, ?_⟩
      rw [blackOf_cleared hcleared]
      exact hthinned.erase touches_symm ⟨i, j, rfl⟩ fun p _ hp q hq htouch =>
        square_alone hipos hjpos (hring hnone) hp hq htouch
    · rw [if_neg hnone]
      exact ⟨buffer, rfl, rfl, hthinned⟩

theorem despeckWindows_thinned (hbinary : params.isBinary = true) (hholds : Holds params buffer) :
    ∃ buffer', despeckWindows params diam (despeckWindow params diam) buffer = .ok buffer' ∧
      buffer'.size = buffer.size ∧
      Thinned Touches (IsSquare diam) (blackOf params buffer) (blackOf params buffer') := by
  refine forTo_invariant (I := fun _ block => block.size = buffer.size ∧
    Thinned Touches (IsSquare diam) (blackOf params buffer) (blackOf params block))
    ⟨rfl, Thinned.refl ..⟩ fun i hi block hblock => ?_
  refine forTo_invariant (I := fun _ block => block.size = buffer.size ∧
    Thinned Touches (IsSquare diam) (blackOf params buffer) (blackOf params block))
    hblock fun j hj block hblock => ?_
  obtain ⟨hsize, hthinned⟩ := hblock
  obtain ⟨block', hrun, hsize', hthinned'⟩ := @despeckWindow_thinned params block diam (i + 1)
    (j + 1) _ hbinary (hholds.of_size hsize) (by omega) (by omega) (by omega) (by omega) hthinned
  exact ⟨block', hrun, hsize'.trans hsize, hthinned'⟩

end Bits

/-- Of an image of bits, only small spots are erased, and these as a whole. -/
theorem saneiMagicDespeck_despeckled {params : ImageParams} {buffer : Cells UInt8}
    (hbinary : params.isBinary = true) (hholds : Holds params buffer) (diam : Nat) :
    ∃ buffer', saneiMagicDespeck params buffer diam = .ok (.good, buffer') ∧
      Despeckled params buffer diam buffer' := by
  have hbytes : ¬ params.isBytes = true := not_isBytes_of_isBinary hbinary
  obtain ⟨buffer', hrun, -, hthinned⟩ := @despeckWindows_thinned params buffer diam hbinary hholds
  refine ⟨buffer', ?_, fun row hrow col hcol hbit => ?_, fun p q hlinked => ?_, fun p hp hgone => ?_⟩
  · rw [saneiMagicDespeck, if_neg hbytes, if_pos hbinary, hrun, ok_bind]
  · exact (hthinned.subset (show (row, col) ∈ blackOf params buffer' from ⟨hrow, hcol, hbit⟩)).2.2
  · exact hthinned.mem_iff touches_symm hlinked
  · obtain ⟨area, ⟨i, j, rfl⟩, hinside⟩ := hthinned.inside p hp hgone
    exact ⟨i, j, hinside⟩

/-- Five lines of five pixels, with one black pixel in the middle. -/
def oneSpot : ImageParams where
  bytesPerLine := 1
  pixelsPerLine := 5
  lines := 5
  depth := 1

theorem saneiMagicDespeck_despeckled_oneSpot :
    ∃ buffer', saneiMagicDespeck oneSpot ⟨5, fun p => if p = 2 then 32 else 0⟩ 1 =
        .ok (.good, buffer') ∧
      Despeckled oneSpot ⟨5, fun p => if p = 2 then 32 else 0⟩ 1 buffer' := by
  have hholds : Holds oneSpot ⟨5, fun p => if p = 2 then 32 else 0⟩ :=
    ⟨.inr (by decide), fun h => absurd h (by decide), fun _ => by decide, by decide⟩
  exact saneiMagicDespeck_despeckled (by decide) hholds 1

end SaneBackends.Sanei
