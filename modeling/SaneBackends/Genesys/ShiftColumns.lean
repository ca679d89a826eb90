import SaneBackends.Genesys.ShiftLines
/-!
# Shifted columns

`ImagePipelineNodePixelShiftColumns`, whose pixels come from further right in the row of the
source, and the width that `compute_pixel_shift_extra_width` leaves it.
-/

namespace SaneBackends.Genesys

open SaneBackends.Lib

/-! ## The code -/

section Code

variable {σ : Type}

structure PixelShiftColumnsNode (σ : Type) where
  source : RowNode σ
  pixelShifts : List UInt64
  extraWidth : Nat
  width : Nat

namespace PixelShiftColumnsNode

/-- The constructor. -/
def ofShifts (source : RowNode σ) (shifts : List UInt64) : PixelShiftColumnsNode σ :=
  let extraWidth := Node.computePixelShiftExtraWidth source.width shifts
  { source
    pixelShifts := shifts
    extraWidth
    width := if extraWidth > source.width then 0 else source.width - extraWidth }

/-- The inner loop. -/
def shiftGroup (node : PixelShiftColumnsNode σ) (data : List UInt8) (x : Nat)
    (out : List UInt8) : Except RowFailure (List UInt8) :=
  forTo node.pixelShifts.length (fun ishift out =>
    if x + ishift < node.width then do
      let pixel ← getRawPixelFromRow data (x + (node.pixelShifts.getD ishift 0).toNat)
        node.source.format
      setRawPixelToRow out (x + ishift) pixel node.source.format
    else .ok out) out

/-- The outer loop. Each pass goes on by at least one pixel, so that it ends after at most `width`
of them. -/
def shiftGroups (node : PixelShiftColumnsNode σ) (data : List UInt8) :
    Nat → Nat → List UInt8 → Except RowFailure (List UInt8)
  | 0, _, out => .ok out
  | fuel + 1, x, out =>
      if x < node.width then do
        let out ← node.shiftGroup data x out
        shiftGroups node data fuel (x + node.pixelShifts.length) out
      else .ok out

/-- The state is that of the source and `temp_buffer_`. -/
def getNextRowData (node : PixelShiftColumnsNode σ) (st : σ × List UInt8) (out : List UInt8) :
    Except RowFailure (Bool × (σ × List UInt8) × List UInt8) := do
  if node.width = 0 then .error (.thrown (.saneException "Attempt to read zero-width line"))
  else
    let (gotData, source, tempBuffer) ← node.source.getNextRowData st.1 st.2
    let out ← node.shiftGroups tempBuffer node.width 0 out
    .ok (gotData, (source, tempBuffer), out)

def node (node : PixelShiftColumnsNode σ) : RowNode (σ × List UInt8) where
  width := node.width
  height := node.source.height
  format := node.source.format
  getNextRowData := node.getNextRowData

end PixelShiftColumnsNode

end Code

/-! ## The width -/

/-- Every pixel of such a width is read below the width of the source. -/
def ReadsInside (sourceWidth : Nat) (shifts : List UInt64) (width : Nat) : Prop :=
  ∀ g i, shifts.length ∣ g → i < shifts.length → g + i < width →
    g + (shifts.getD i 0).toNat < sourceWidth

section Width

variable {sourceWidth : Nat} {shifts : List UInt64} {i : Nat}

/-- How many pixels the shift at an index takes off. -/
def extraAt (sourceWidth : Nat) (shifts : List UInt64) (i : Nat) : Int :=
  Node.shiftExtraWidth shifts.length (sourceWidth % shifts.length) i (shifts.getD i 0).toNat

/-- A maximum that begins with zero is zero or that of one of the items. -/
theorem foldl_max_zipIdx (f : Nat → UInt64 → Int) (shifts : List UInt64) (k : Nat) (init : Int) :
    let most := (shifts.zipIdx k).foldl (fun extraWidth p => max extraWidth (f p.2 p.1)) init
    init ≤ most ∧ (∀ i < shifts.length, f (k + i) (shifts.getD i 0) ≤ most) ∧
      (most = init ∨ ∃ i < shifts.length, f (k + i) (shifts.getD i 0) = most) := by
  induction shifts generalizing k init with
  | nil => exact ⟨le_refl init, fun i hi => absurd hi (Nat.not_lt_zero i), .inl rfl⟩
  | cons shift shifts ih =>
      obtain ⟨hinit, hall, hmost⟩ := ih (k + 1) (max init (f k shift))
      rw [List.zipIdx_cons, List.foldl_cons]
      generalize (shifts.zipIdx (k + 1)).foldl
        (fun extraWidth p => max extraWidth (f p.2 p.1)) (max init (f k shift)) = most at *
      refine ⟨(le_max_left _ _).trans hinit, fun i hi => ?_, ?_⟩
      · cases i with
        | zero => exact (le_max_right _ _).trans hinit
        | succ i =>
            have hle := hall i (Nat.lt_of_succ_lt_succ hi)
            rwa [Nat.add_assoc, Nat.add_comm 1] at hle
      · cases hmost with
        | inl heq =>
            cases max_choice init (f k shift) with
            | inl hleft => exact .inl (heq.trans hleft)
            | inr hright =>
                exact .inr ⟨0, Nat.succ_pos _, (heq.trans hright).symm⟩
        | inr hlater =>
            obtain ⟨i, hi, heq⟩ := hlater
            refine .inr ⟨i + 1, Nat.succ_lt_succ hi, ?_⟩
            rwa [Nat.add_assoc, Nat.add_comm 1] at heq

/-- The extra width is what the shift takes off that takes off most, and not less than zero. -/
theorem computePixelShiftExtraWidth_spec (sourceWidth : Nat) (shifts : List UInt64) :
    (∀ i < shifts.length,
      extraAt sourceWidth shifts i ≤ Node.computePixelShiftExtraWidth sourceWidth shifts) ∧
    (Node.computePixelShiftExtraWidth sourceWidth shifts = 0 ∨ ∃ i < shifts.length,
      extraAt sourceWidth shifts i = Node.computePixelShiftExtraWidth sourceWidth shifts) := by
  obtain ⟨hinit, hall, hmost⟩ := foldl_max_zipIdx
    (fun i shift => Node.shiftExtraWidth shifts.length (sourceWidth % shifts.length) i
      shift.toNat) shifts 0 0
  have hvalue : (Node.computePixelShiftExtraWidth sourceWidth shifts : Int) =
      (shifts.zipIdx 0).foldl (fun extraWidth p => max extraWidth
        (Node.shiftExtraWidth shifts.length (sourceWidth % shifts.length) p.2 p.1.toNat)) 0 :=
    Int.toNat_of_nonneg hinit
  rw [hvalue]
  simp only [Nat.zero_add] at hall hmost
  refine ⟨hall, ?_⟩
  cases hmost with
  | inl hzero =>
      left
      rw [← Int.natCast_inj, hvalue]
      exact hzero
  | inr hone => exact .inr hone

/-- What a shift takes off, if the values fit into `int`. -/
theorem extraAt_eq (hshift : (shifts.getD i 0).toNat ≤ intMax) :
    extraAt sourceWidth shifts i =
      (if (shifts.getD i 0).toNat % shifts.length < sourceWidth % shifts.length then
        (((shifts.getD i 0).toNat / shifts.length : Nat) : Int) - 1
      else (((shifts.getD i 0).toNat / shifts.length : Nat) : Int)) * shifts.length +
        ((sourceWidth % shifts.length : Nat) : Int) - i := by
  have hdiv : toInt32 ((shifts.getD i 0).toNat / (shifts.length : Int)) =
      ((shifts.getD i 0).toNat / shifts.length : Nat) := by
    rw [← Int.natCast_ediv]
    exact toInt32_of_le ((Nat.div_le_self _ _).trans hshift)
  have hmod : toInt32 ((shifts.getD i 0).toNat % (shifts.length : Int)) =
      ((shifts.getD i 0).toNat % shifts.length : Nat) := by
    rw [← Int.natCast_emod]
    exact toInt32_of_le ((Nat.mod_le _ _).trans hshift)
  rw [extraAt, Node.shiftExtraWidth, hdiv, hmod]
  simp only [← Int.natCast_emod, Int.ofNat_lt]

theorem mul_lt_iff_nonpos {m n bound : Int} (hn : 0 < n) (hpos : 0 < bound) (hle : bound ≤ n) :
    m * n < bound ↔ m ≤ 0 := by
  constructor
  · intro h
    by_contra hm
    have hfull : n ≤ m * n := le_mul_of_one_le_left hn.le (by omega)
    omega
  · intro hm
    exact (mul_nonpos_of_nonpos_of_nonneg hm hn.le).trans_lt hpos

/-- So many groups are left whole in front of a pixel that would be read outside. -/
theorem extraAt_group (hi : i < shifts.length) (hshift : (shifts.getD i 0).toNat ≤ intMax) :
    ∃ groups : Int, (sourceWidth : Int) - extraAt sourceWidth shifts i =
        groups * shifts.length + i ∧
      ∀ k : Int, k * shifts.length + (shifts.getD i 0).toNat < sourceWidth ↔ k < groups := by
  have hn : (0 : Int) < shifts.length := by omega
  have hwidth := Nat.div_add_mod sourceWidth shifts.length
  have hplace := Nat.div_add_mod (shifts.getD i 0).toNat shifts.length
  have hr := Nat.mod_lt sourceWidth (show 0 < shifts.length by omega)
  have hb := Nat.mod_lt (shifts.getD i 0).toNat (show 0 < shifts.length by omega)
  rw [extraAt_eq hshift]
  generalize (shifts.getD i 0).toNat = shift at *
  generalize shift / shifts.length = a at *
  generalize shift % shifts.length = b at *
  generalize sourceWidth / shifts.length = q at *
  generalize sourceWidth % shifts.length = r at *
  generalize shifts.length = n at *
  zify at hwidth hplace hr hb
  have hk : ∀ k : Int, k * n + shift < sourceWidth ↔ (k + a - q) * n < r - b := by
    intro k
    have hproduct : (k + a - q) * n = k * n + n * a - n * q := by ring
    rw [← hwidth, ← hplace, hproduct]
    constructor <;> intro h <;> linarith only [h]
  by_cases hless : b < r
  · refine ⟨q - (a - 1), ?_, fun k => ?_⟩
    · rw [if_pos hless, ← hwidth]
      ring
    · have hless' : (b : Int) < r := by exact_mod_cast hless
      rw [hk, mul_lt_iff_nonpos hn (by omega) (by omega)]
      omega
  · refine ⟨q - a, ?_, fun k => ?_⟩
    · rw [if_neg hless, ← hwidth]
      ring
    · have hge' : (r : Int) ≤ b := by exact_mod_cast Nat.le_of_not_lt hless
      -- one group more on both sides
      have hmore : (k + a - q) * n < r - b ↔ (k + a - q + 1) * n < r - b + n := by
        rw [add_mul, one_mul, Int.add_lt_add_iff_right]
      rw [hk, hmore, mul_lt_iff_nonpos hn (by omega) (by omega)]
      omega

end Width

/-- The width that the node has of a source. -/
theorem ofShifts_width {σ : Type} (source : RowNode σ) (shifts : List UInt64) :
    (PixelShiftColumnsNode.ofShifts source shifts).width =
      source.width - Node.computePixelShiftExtraWidth source.width shifts := by
  unfold PixelShiftColumnsNode.ofShifts
  dsimp only
  split_ifs <;> omega

theorem toNat_getD_le {shifts : List UInt64} (hshifts : ∀ shift ∈ shifts, shift.toNat ≤ intMax)
    {i : Nat} (hi : i < shifts.length) : (shifts.getD i 0).toNat ≤ intMax := by
  rw [List.getD_eq_getElem _ _ hi]
  exact hshifts _ (List.getElem_mem hi)

theorem readsInside_ofShifts {σ : Type} (source : RowNode σ) {shifts : List UInt64}
    (hshifts : ∀ shift ∈ shifts, shift.toNat ≤ intMax) :
    ReadsInside source.width shifts (PixelShiftColumnsNode.ofShifts source shifts).width := by
  rw [ofShifts_width]
  rintro g i ⟨k, rfl⟩ hi hplace
  have hall := (computePixelShiftExtraWidth_spec source.width shifts).1 i hi
  obtain ⟨groups, hgroups, hinside⟩ :=
    @extraAt_group source.width _ _ hi (toNat_getD_le hshifts hi)
  have hn : (0 : Int) < shifts.length := by omega
  have hbefore : (k : Int) * shifts.length < groups * shifts.length := by
    have hcast : ((shifts.length * k : Nat) : Int) = (k : Int) * shifts.length := by
      rw [Nat.cast_mul, mul_comm]
    omega
  have hread := (hinside k).mpr (lt_of_mul_lt_mul_right hbefore (le_of_lt hn))
  have hcast : ((shifts.length * k : Nat) : Int) = (k : Int) * shifts.length := by
    rw [Nat.cast_mul, mul_comm]
  omega

/-- A width in front of the source's end, in which all pixels are read inside, is not greater. -/
theorem le_ofShifts_width {σ : Type} (source : RowNode σ) {shifts : List UInt64}
    (hshifts : ∀ shift ∈ shifts, shift.toNat ≤ intMax)
    (hpositive : 0 < (PixelShiftColumnsNode.ofShifts source shifts).width) {width : Nat}
    (hwidth : width ≤ source.width) (hreads : ReadsInside source.width shifts width) :
    width ≤ (PixelShiftColumnsNode.ofShifts source shifts).width := by
  rw [ofShifts_width] at hpositive ⊢
  by_contra hgreater
  have hextra : Node.computePixelShiftExtraWidth source.width shifts ≠ 0 := by omega
  obtain ⟨i, hi, hmost⟩ :=
    (computePixelShiftExtraWidth_spec source.width shifts).2.resolve_left hextra
  obtain ⟨groups, hgroups, hinside⟩ :=
    @extraAt_group source.width _ _ hi (toNat_getD_le hshifts hi)
  have hn : (0 : Int) < shifts.length := by omega
  have hnonneg : 0 ≤ groups := by
    by_contra hneg
    have hproduct : groups * shifts.length ≤ -1 * shifts.length :=
      mul_le_mul_of_nonneg_right (by omega) (le_of_lt hn)
    omega
  obtain ⟨k, rfl⟩ := Int.eq_ofNat_of_zero_le hnonneg
  have hcast : ((shifts.length * k : Nat) : Int) = (k : Int) * shifts.length := by
    rw [Nat.cast_mul, mul_comm]
  have hread := hreads (shifts.length * k) i (Nat.dvd_mul_right _ _) hi (by omega)
  have hless := (hinside k).mp (by omega)
  exact lt_irrefl _ hless

/-- Of the widths that are not greater than the source's, the node has the greatest in which all
pixels are read inside of the row, unless there is nothing left. -/
theorem ofShifts_width_greatest {σ : Type} (source : RowNode σ) (shifts : List UInt64)
    (hshifts : ∀ shift ∈ shifts, shift.toNat ≤ intMax) :
    ReadsInside source.width shifts (PixelShiftColumnsNode.ofShifts source shifts).width ∧
      (0 < (PixelShiftColumnsNode.ofShifts source shifts).width →
        ∀ width ≤ source.width, ReadsInside source.width shifts width →
          width ≤ (PixelShiftColumnsNode.ofShifts source shifts).width) :=
  ⟨readsInside_ofShifts source hshifts, fun hpositive _ hwidth hreads =>
    le_ofShifts_width source hshifts hpositive hwidth hreads⟩

theorem fivePixels_fits : ArrayFits 5 1 .i8 [1, 2, 3, 4, 5] := by
  unfold ArrayFits
  decide

/-- A row of five pixels. -/
def fivePixels : ArraySource := .ofData fivePixels_fits

theorem ofShifts_width_greatest_fivePixels :
    (∀ shift ∈ ([1, 0] : List UInt64), shift.toNat ≤ intMax) ∧
      (PixelShiftColumnsNode.ofShifts fivePixels.node [1, 0]).width = 4 ∧
      ReadsInside 5 [1, 0] 4 ∧ ∀ width ≤ 5, ReadsInside 5 [1, 0] width → width ≤ 4 := by
  have hshifts : ∀ shift ∈ ([1, 0] : List UInt64), shift.toNat ≤ intMax := by simp [intMax]
  have hwidth : (PixelShiftColumnsNode.ofShifts fivePixels.node [1, 0]).width = 4 := by decide
  obtain ⟨hreads, hgreatest⟩ := ofShifts_width_greatest fivePixels.node [1, 0] hshifts
  rw [hwidth] at hreads hgreatest
  exact ⟨hshifts, hwidth, hreads, hgreatest (by decide)⟩

/-- Without shifts the node has all five pixels; a sixth would not be read outside either. -/
theorem not_ofShifts_width_largest :
    (PixelShiftColumnsNode.ofShifts fivePixels.node [0, 0]).width = 5 ∧
      ReadsInside fivePixels.width [0, 0] 6 := by
  refine ⟨by decide, fun g i hgroup hi hplace => ?_⟩
  have heven : 2 ∣ g := hgroup
  have hi' : i < 2 := hi
  have hzero : (([0, 0] : List UInt64).getD i 0).toNat = 0 := by
    interval_cases i <;> rfl
  have hwidth : fivePixels.width = 5 := rfl
  omega

/-! ## The rows -/

section Rows

variable {σ : Type} {node : PixelShiftColumnsNode σ} {data out : List UInt8}

/-- Where a pixel is read. -/
def PixelShiftColumnsNode.column (node : PixelShiftColumnsNode σ) (x : Nat) : Nat :=
  x / node.pixelShifts.length * node.pixelShifts.length +
    (node.pixelShifts.getD (x % node.pixelShifts.length) 0).toNat

/-- The bits of a pixel come from the column that is that far right. -/
def PixelShiftColumnsNode.shiftedBit (node : PixelShiftColumnsNode σ) (bit : Nat → Bool)
    (z : Nat) : Bool :=
  bit (node.column (z / node.source.format.totalBits) * node.source.format.totalBits +
    z % node.source.format.totalBits)

/-- The pixels in front of `x` are stored. -/
def ColumnsStored (node : PixelShiftColumnsNode σ) (data out : List UInt8) (x : Nat)
    (row : List UInt8) : Prop :=
  Wrote out row 0 (min x node.width * node.source.format.totalBits)
    (node.shiftedBit (rowBit data))

/-- The node reads inside of its data. -/
structure Columns (node : PixelShiftColumnsNode σ) (data out : List UInt8) : Prop where
  known : node.source.format ≠ .unknown
  some : node.pixelShifts ≠ []
  reads : ReadsInside node.source.width node.pixelShifts node.width
  data : node.source.width * node.source.format.totalBits ≤ 8 * data.length
  out : node.width * node.source.format.totalBits ≤ 8 * out.length

theorem Columns.length_pos (h : Columns node data out) : 0 < node.pixelShifts.length :=
  List.length_pos_of_ne_nil h.some

theorem Columns.column_lt (h : Columns node data out) {x : Nat} (hx : x < node.width) :
    node.column x < node.source.width := by
  refine h.reads _ _ (Nat.dvd_mul_left _ _) (Nat.mod_lt _ h.length_pos) ?_
  rwa [Nat.mul_comm, Nat.div_add_mod]

theorem columns_step (h : Columns node data out) {g ishift : Nat} {row : List UInt8}
    (hishift : ishift < node.pixelShifts.length)
    (hinside : g * node.pixelShifts.length + ishift < node.width)
    (hrow : ColumnsStored node data out (g * node.pixelShifts.length + ishift) row) :
    ∃ pixel row', getRawPixelFromRow data
        (g * node.pixelShifts.length + (node.pixelShifts.getD ishift 0).toNat)
        node.source.format = .ok pixel ∧
      setRawPixelToRow row (g * node.pixelShifts.length + ishift) pixel node.source.format =
        .ok row' ∧
      ColumnsStored node data out (g * node.pixelShifts.length + ishift + 1) row' := by
  have hcolumn : node.column (g * node.pixelShifts.length + ishift) =
      g * node.pixelShifts.length + (node.pixelShifts.getD ishift 0).toNat := by
    rw [PixelShiftColumnsNode.column, part_div hishift, part_mod hishift]
  have hread := h.column_lt hinside
  generalize hx : g * node.pixelShifts.length + ishift = x at *
  have hlast : node.column x * node.source.format.totalBits + node.source.format.totalBits ≤
      node.source.width * node.source.format.totalBits := part_end_le hread
  have hplace : x * node.source.format.totalBits + node.source.format.totalBits ≤
      node.width * node.source.format.totalBits := part_end_le hinside
  have hdata := h.data
  have hout := h.out
  have hlength := hrow.length
  obtain ⟨pixel, row', hget, hset, hwrote⟩ := @copyPixel_wrote data row
    node.source.format (node.column x) x h.known (by omega) (by omega)
  refine ⟨pixel, row', hcolumn ▸ hget, hset, ?_⟩
  rw [ColumnsStored, Nat.min_eq_left (by omega)] at hrow ⊢
  refine hrow.item hwrote fun k hk => ?_
  rw [PixelShiftColumnsNode.shiftedBit, part_div hk, part_mod hk]

theorem shiftGroup_columns (h : Columns node data out) {g : Nat} {row : List UInt8}
    (hrow : ColumnsStored node data out (g * node.pixelShifts.length) row) :
    ∃ row', node.shiftGroup data (g * node.pixelShifts.length) row = .ok row' ∧
      ColumnsStored node data out ((g + 1) * node.pixelShifts.length) row' := by
  rw [Nat.succ_mul]
  refine forTo_invariant
    (I := fun i row => ColumnsStored node data out (g * node.pixelShifts.length + i) row)
    hrow fun ishift hishift row hstored => ?_
  by_cases hinside : g * node.pixelShifts.length + ishift < node.width
  · obtain ⟨pixel, row', hget, hset, hstored'⟩ := columns_step h hishift hinside hstored
    exact ⟨row', by rw [if_pos hinside, hget, ok_bind, hset], hstored'⟩
  · refine ⟨row, if_neg hinside, ?_⟩
    rw [ColumnsStored, Nat.min_eq_right (by omega)] at hstored ⊢
    exact hstored

theorem shiftGroups_columns (h : Columns node data out) (fuel : Nat) {g : Nat} {row : List UInt8}
    (hfuel : node.width ≤ g * node.pixelShifts.length + fuel)
    (hrow : ColumnsStored node data out (g * node.pixelShifts.length) row) :
    ∃ row', node.shiftGroups data fuel (g * node.pixelShifts.length) row = .ok row' ∧
      ColumnsStored node data out node.width row' := by
  have hlength := h.length_pos
  induction fuel generalizing g row with
  | zero =>
      refine ⟨row, rfl, ?_⟩
      rw [ColumnsStored, Nat.min_eq_right (by omega)] at hrow
      rwa [ColumnsStored, Nat.min_self]
  | succ fuel ih =>
      rw [PixelShiftColumnsNode.shiftGroups]
      by_cases hinside : g * node.pixelShifts.length < node.width
      · obtain ⟨row₁, hgroup, hstored⟩ := shiftGroup_columns h hrow
        obtain ⟨row₂, hrest, hdone⟩ := ih (by rw [Nat.succ_mul]; omega) hstored
        rw [Nat.succ_mul] at hrest
        exact ⟨row₂, by rw [if_pos hinside, hgroup, ok_bind, hrest], hdone⟩
      · rw [ColumnsStored, Nat.min_eq_right (by omega)] at hrow
        refine ⟨row, if_neg hinside, ?_⟩
        rwa [ColumnsStored, Nat.min_self]

end Rows

end SaneBackends.Genesys
