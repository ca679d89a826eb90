import SaneBackends.Lib.Window
import SaneBackends.Sanei.Image
import SaneBackends.Sanei.Types
/-!
# The mean filter

`sanei_ir_filter_mean`. It keeps the sums of the columns over the rows of the window, and slides a
second sum over these. Sums fit into an `int`. What `malloc` answers is a parameter, with the
contents of the new block; the output image is the list of the values that are stored through
`dest` one behind the other.
-/

namespace SaneBackends.Sanei

open SaneBackends.Lib

/-! ## The code -/

/-- `block[i]`. -/
def loadAt {α : Type} (block : Cells α) (i : Int) : Except CellFault α :=
  if 0 ≤ i then block.load i.toNat else .error .outOfBounds

/-- `for (j = first; j < last; j++)`. -/
def forRange {σ : Type} (first last : Int) (body : Int → σ → Except CellFault σ) (s : σ) :
    Except CellFault σ :=
  forTo (last - first).toNat (fun k => body (first + k)) s

/-- `*dest++ = sum / count`. -/
def emit (sum count : Int) (out : List Nat) : Except CellFault (List Nat) :=
  if count = 0 then .error .divisionByZero else .ok (out ++ [(sum.tdiv count).toNat])

/-- The first rows, summed up for a column. -/
def initColumn (img : Cells Nat) (cols hwr : Nat) (j : Nat) (sum : Cells Int) :
    Except CellFault (Cells Int) := do
  let sum ← sum.store j 0
  forTo hwr (fun i sum => do
    let value ← img.load (j + i * cols)
    let old ← sum.load j
    sum.store j (old + value)) sum

/-- `sum[j] -= *src++` or `sum[j] += *src++` for all columns. -/
def updateSums (change : Int → Int → Int) (img : Cells Nat) (cols : Nat) (first : Int)
    (sum : Cells Int) : Except CellFault (Cells Int) :=
  forTo cols (fun j sum => do
    let value ← loadAt img (first + j)
    let old ← sum.load j
    sum.store j (change old value)) sum

structure ColumnState where
  theSum : Int
  ncol : Int
  out : List Nat

/-- At the left margin. -/
def leftColumn (sum : Cells Int) (nrow j : Int) (st : ColumnState) :
    Except CellFault ColumnState := do
  let ncol := st.ncol + 1
  let value ← loadAt sum j
  let theSum := st.theSum + value
  let out ← emit theSum (ncol * nrow) st.out
  pure { theSum, ncol, out }

/-- In the middle. -/
def middleColumn (sum : Cells Int) (winCols ndiv j : Int) (st : ColumnState) :
    Except CellFault ColumnState := do
  let left ← loadAt sum j
  let entered ← loadAt sum (j + winCols)
  let theSum := st.theSum - left + entered
  let out ← emit theSum ndiv st.out
  pure { st with theSum, out }

/-- At the right margin. -/
def rightColumn (sum : Cells Int) (nrow j : Int) (st : ColumnState) :
    Except CellFault ColumnState := do
  let ncol := st.ncol - 1
  let value ← loadAt sum j
  let theSum := st.theSum - value
  let out ← emit theSum (ncol * nrow) st.out
  pure { theSum, ncol, out }

/-- The columns of a row, of which only the sums are needed. -/
def filterColumns (cols winCols hwc : Nat) (sum : Cells Int) (nrow : Int) (out : List Nat) :
    Except CellFault (List Nat) := do
  let theSum ← forTo hwc (fun j theSum => do
    let value ← sum.load j
    pure (theSum + value)) (0 : Int)
  let st ← forRange hwc winCols (leftColumn sum nrow) { theSum, ncol := hwc, out }
  let ndiv := st.ncol * nrow
  let st ← forRange 0 (cols - winCols) (middleColumn sum winCols ndiv) st
  let st ← forRange (cols - winCols) (cols - hwc - 1) (rightColumn sum nrow) st
  pure st.out

structure MeanState where
  sum : Cells Int
  isub : Int
  iadd : Int
  nrow : Int
  out : List Nat := []

/-- Subtract the row that leaves the window. -/
def leaveRow (img : Cells Nat) (cols : Nat) (st : MeanState) : Except CellFault MeanState :=
  if 0 ≤ st.isub then do
    let sum ← updateSums (· - ·) img cols st.isub st.sum
    pure { st with sum, nrow := st.nrow - 1, isub := st.isub + cols }
  else pure { st with isub := st.isub + cols }

/-- Add the row that enters it. -/
def enterRow (img : Cells Nat) (cols itop : Nat) (st : MeanState) : Except CellFault MeanState :=
  if st.iadd < itop then do
    let sum ← updateSums (· + ·) img cols st.iadd st.sum
    pure { st with sum, nrow := st.nrow + 1, iadd := st.iadd + cols }
  else pure { st with iadd := st.iadd + cols }

def filterRow (params : ImageParams) (img : Cells Nat) (winCols hwc : Nat) (st : MeanState) :
    Except CellFault MeanState := do
  let st ← leaveRow img params.pixelsPerLine st
  let st ← enterRow img params.pixelsPerLine params.pixels st
  let out ← filterColumns params.pixelsPerLine winCols hwc st.sum st.nrow st.out
  pure { st with out }

def saneiIrFilterMean (malloc : Nat → Option (Nat → Int)) (params : ImageParams) (img : Cells Nat)
    (winRows winCols : Nat) : Except CellFault (SaneStatus × List Nat) :=
  if winRows % 2 = 0 ∨ winCols % 2 = 0 then .ok (.inval, [])
  else
    match malloc params.pixelsPerLine with
    | none => .ok (.noMem, [])
    | some contents => do
        let cols := params.pixelsPerLine
        let hwr := winRows / 2
        let hwc := winCols / 2
        let sum ← forTo cols (initColumn img cols hwr) { size := cols, cell := contents }
        let st ← forTo params.lines (fun _ => filterRow params img winCols hwc)
          { sum
            isub := ((hwr : Int) - winRows) * cols
            iadd := hwr * cols
            nrow := hwr }
        .ok (.good, st.out)

/-! ## Columns -/

section Columns

variable {α : Type} {block : Cells α} {sum : Cells Int} {S : Nat → Nat} {cols half h : Nat}
  {out : List Nat}

theorem loadAt_natCast {i : Nat} (hi : i < block.size) :
    loadAt block (i : Int) = .ok (block.cell i) := by
  rw [loadAt, if_pos (Int.natCast_nonneg i), Int.toNat_natCast, Cells.load_eq hi]

theorem forRange_natCast {σ : Type} {first n : Nat} {last : Int} (hlast : last = (first + n : Nat))
    (body : Int → σ → Except CellFault σ) (s : σ) :
    forRange first last body s = forTo n (fun k => body (first + k : Nat)) s := by
  have hcount : (last - first).toNat = n := by
    rw [hlast]
    omega
  rw [forRange, hcount]
  refine forTo_congr (fun k _ s => ?_) s
  rw [Nat.cast_add]

theorem forRange_zero {σ : Type} {n : Nat} {last : Int} (hlast : last = (n : Nat))
    (body : Int → σ → Except CellFault σ) (s : σ) :
    forRange 0 last body s = forTo n (fun k => body (k : Nat)) s := by
  have hrun := @forRange_natCast σ 0 n last (by rw [hlast, Nat.zero_add]) body s
  simp only [Nat.zero_add] at hrun
  exact hrun

theorem emit_natCast {a b : Nat} {sum count : Int} (hsum : sum = a) (hcount : count = b)
    (hb : 0 < b) (out : List Nat) : emit sum count out = .ok (out ++ [a / b]) := by
  rw [emit, if_neg (by omega), hsum, hcount, ← Int.ofNat_tdiv, Int.toNat_natCast]

/-- The sums of the columns, and how many rows they are over. -/
structure ColumnSums (cols : Nat) (sum : Cells Int) (S : Nat → Nat) : Prop where
  size : sum.size = cols
  cells : ∀ x < cols, sum.cell x = S x

/-- The mean for a column, of column sums over `h` rows. -/
def columnMean (S : Nat → Nat) (cols half h c : Nat) : Nat :=
  spanSum S (c - half) (min (c + half + 1) cols) / ((min (c + half + 1) cols - (c - half)) * h)

/-- The state behind the first columns. -/
structure Slid (S : Nat → Nat) (cols half h : Nat) (out : List Nat) (lo hi n : Nat)
    (st : ColumnState) : Prop where
  theSum : st.theSum = spanSum S lo hi
  ncol : st.ncol = (hi - lo : Nat)
  out : st.out = out ++ (List.range n).map (columnMean S cols half h)

theorem map_range_succ {f : Nat → Nat} {n : Nat} (out : List Nat) :
    out ++ (List.range n).map f ++ [f n] = out ++ (List.range (n + 1)).map f := by
  rw [List.range_succ, List.map_append, List.map_singleton, List.append_assoc]

theorem leftColumn_spec (hsums : ColumnSums cols sum S) (hh : 0 < h)
    (hwin : 2 * half + 1 ≤ cols) {k : Nat} (hk : k < half + 1) {st : ColumnState}
    (hst : Slid S cols half h out 0 (half + k) k st) :
    ∃ st', leftColumn sum h (half + k : Nat) st = .ok st' ∧
      Slid S cols half h out 0 (half + (k + 1)) (k + 1) st' := by
  have hcell := hsums.cells (half + k) (by omega)
  have hsum : st.theSum + sum.cell (half + k) = spanSum S 0 (half + k + 1) := by
    rw [hst.theSum, hcell, spanSum_succ (Nat.zero_le _), Nat.cast_add]
  have hcount : (st.ncol + 1) * (h : Int) = ((half + k + 1) * h : Nat) := by
    rw [hst.ncol, Nat.sub_zero, Nat.cast_mul, Nat.cast_add (half + k) 1, Nat.cast_one]
  have hmean : columnMean S cols half h k =
      spanSum S 0 (half + k + 1) / ((half + k + 1) * h) := by
    have hlo : k - half = 0 := by omega
    have hhi : min (k + half + 1) cols = half + k + 1 := by omega
    rw [columnMean, hlo, hhi, Nat.sub_zero]
  rw [leftColumn, loadAt_natCast (by rw [hsums.size]; omega), ok_bind]
  dsimp only
  rw [emit_natCast hsum hcount (Nat.mul_pos (by omega) hh), ok_bind]
  refine ⟨_, rfl, hsum, ?_, ?_⟩
  · dsimp only
    rw [hst.ncol]
    omega
  · dsimp only
    rw [hst.out, ← hmean, map_range_succ]

theorem middleColumn_spec (hsums : ColumnSums cols sum S) (hh : 0 < h)
    {k : Nat} (hk : k + (2 * half + 1) < cols) {st : ColumnState}
    (hst : Slid S cols half h out k (k + (2 * half + 1)) (half + 1 + k) st) :
    ∃ st', middleColumn sum (2 * half + 1 : Nat) ((2 * half + 1) * h : Nat) (k : Nat) st =
        .ok st' ∧
      Slid S cols half h out (k + 1) (k + 1 + (2 * half + 1)) (half + 1 + (k + 1)) st' := by
  have hleft := hsums.cells k (by omega)
  have hentered := hsums.cells (k + (2 * half + 1)) hk
  have hspan : spanSum S k (k + (2 * half + 1)) + S (k + (2 * half + 1)) =
      S k + spanSum S (k + 1) (k + 1 + (2 * half + 1)) := by
    have hend : k + 1 + (2 * half + 1) = k + (2 * half + 1) + 1 := by omega
    rw [← spanSum_succ (by omega), hend, spanSum_drop (by omega)]
  have hsum : st.theSum - sum.cell k + sum.cell (k + (2 * half + 1)) =
      spanSum S (k + 1) (k + 1 + (2 * half + 1)) := by
    rw [hst.theSum, hleft, hentered]
    omega
  have hmean : columnMean S cols half h (half + 1 + k) =
      spanSum S (k + 1) (k + 1 + (2 * half + 1)) / ((2 * half + 1) * h) := by
    have hlo : half + 1 + k - half = k + 1 := by omega
    have hhi : min (half + 1 + k + half + 1) cols = k + 1 + (2 * half + 1) := by omega
    rw [columnMean, hlo, hhi, Nat.add_sub_cancel_left]
  rw [middleColumn, loadAt_natCast (by rw [hsums.size]; omega), ok_bind, ← Nat.cast_add,
    loadAt_natCast (by rw [hsums.size]; exact hk), ok_bind]
  dsimp only
  rw [emit_natCast hsum rfl (Nat.mul_pos (by omega) hh), ok_bind]
  refine ⟨_, rfl, hsum, ?_, ?_⟩
  · dsimp only
    rw [hst.ncol]
    omega
  · dsimp only
    rw [hst.out, ← hmean, map_range_succ, Nat.add_assoc]

theorem rightColumn_spec (hsums : ColumnSums cols sum S) (hh : 0 < h)
    (hwin : 2 * half + 1 ≤ cols) {k : Nat} (hk : k < half) {st : ColumnState}
    (hst : Slid S cols half h out (cols - (2 * half + 1) + k) cols
      (half + 1 + (cols - (2 * half + 1)) + k) st) :
    ∃ st', rightColumn sum h (cols - (2 * half + 1) + k : Nat) st = .ok st' ∧
      Slid S cols half h out (cols - (2 * half + 1) + (k + 1)) cols
        (half + 1 + (cols - (2 * half + 1)) + (k + 1)) st' := by
  obtain ⟨first, hfirst⟩ : ∃ first, first = cols - (2 * half + 1) + k := ⟨_, rfl⟩
  rw [← hfirst] at hst ⊢
  have hcell := hsums.cells first (by omega)
  have hspan := @spanSum_drop S first cols (by omega)
  have hsum : st.theSum - sum.cell first = spanSum S (first + 1) cols := by
    rw [hst.theSum, hcell]
    omega
  have hcount : (st.ncol - 1) * (h : Int) = ((cols - (first + 1)) * h : Nat) := by
    have hone : st.ncol - 1 = (cols - (first + 1) : Nat) := by
      rw [hst.ncol]
      omega
    rw [hone, Nat.cast_mul]
  have hmean : columnMean S cols half h (half + 1 + (cols - (2 * half + 1)) + k) =
      spanSum S (first + 1) cols / ((cols - (first + 1)) * h) := by
    have hlo : half + 1 + (cols - (2 * half + 1)) + k - half = first + 1 := by omega
    have hhi : min (half + 1 + (cols - (2 * half + 1)) + k + half + 1) cols = cols := by omega
    rw [columnMean, hlo, hhi]
  rw [rightColumn, loadAt_natCast (by rw [hsums.size]; omega), ok_bind]
  dsimp only
  rw [emit_natCast hsum hcount (Nat.mul_pos (by omega) hh), ok_bind]
  have hnext : cols - (2 * half + 1) + (k + 1) = first + 1 := by omega
  rw [hnext]
  refine ⟨_, rfl, hsum, ?_, ?_⟩
  · dsimp only
    rw [hst.ncol]
    omega
  · dsimp only
    rw [hst.out, ← hmean, map_range_succ, Nat.add_assoc]

/-- A row of the output is made of the means of its columns. -/
theorem filterColumns_spec (hsums : ColumnSums cols sum S) (hh : 0 < h)
    (hwin : 2 * half + 1 ≤ cols) (out : List Nat) :
    filterColumns cols (2 * half + 1) half sum h out =
      .ok (out ++ (List.range cols).map (columnMean S cols half h)) := by
  obtain ⟨theSum, hpre, htheSum⟩ := @forTo_invariant CellFault Int half
    (fun j theSum => do
      let value ← sum.load j
      pure (theSum + value)) 0 (fun k theSum => theSum = spanSum S 0 k)
    (by rw [spanSum_self]; rfl) fun k hk theSum hinv => by
      refine ⟨theSum + sum.cell k, ?_, ?_⟩
      · rw [Cells.load_eq (by rw [hsums.size]; omega), ok_bind]
        rfl
      · rw [hinv, hsums.cells k (by omega), spanSum_succ (Nat.zero_le k), Nat.cast_add]
  obtain ⟨st₁, hleft, hst₁⟩ := @forTo_invariant _ _ (half + 1)
    (fun k => leftColumn sum h (half + k : Nat)) { theSum, ncol := half, out }
    (fun k st => Slid S cols half h out 0 (half + k) k st)
    ⟨htheSum, by rw [Nat.add_zero, Nat.sub_zero], (List.append_nil out).symm⟩
    fun k hk st hst => leftColumn_spec hsums hh hwin hk hst
  have hstart : half + (half + 1) = 0 + (2 * half + 1) := by omega
  obtain ⟨st₂, hmiddle, hst₂⟩ := @forTo_invariant _ _ (cols - (2 * half + 1))
    (fun k => middleColumn sum (2 * half + 1 : Nat) ((2 * half + 1) * h : Nat) (k : Nat)) st₁
    (fun k st => Slid S cols half h out k (k + (2 * half + 1)) (half + 1 + k) st)
    (by rw [← hstart, Nat.add_zero]; exact hst₁)
    fun k hk st hst => middleColumn_spec hsums hh (by omega) hst
  have hend : cols - (2 * half + 1) + (2 * half + 1) = cols := by omega
  rw [hend] at hst₂
  obtain ⟨st₃, hright, hst₃⟩ := @forTo_invariant _ _ half
    (fun k => rightColumn sum h (cols - (2 * half + 1) + k : Nat)) st₂
    (fun k st => Slid S cols half h out (cols - (2 * half + 1) + k) cols
      (half + 1 + (cols - (2 * half + 1)) + k) st)
    hst₂ fun k hk st hst => rightColumn_spec hsums hh hwin hk hst
  have hall : half + 1 + (cols - (2 * half + 1)) + half = cols := by omega
  have hout := hst₃.out
  rw [hall] at hout
  have hndiv : st₁.ncol * (h : Int) = ((2 * half + 1) * h : Nat) := by
    have hncol : st₁.ncol = (2 * half + 1 : Nat) := by
      rw [hst₁.ncol]
      omega
    rw [hncol, Nat.cast_mul]
  have hmiddleEnd : (cols : Int) - (2 * half + 1 : Nat) = (cols - (2 * half + 1) : Nat) := by omega
  have hrightEnd : (cols : Int) - half - 1 = (cols - (2 * half + 1) + half : Nat) := by omega
  rw [filterColumns, hpre, ok_bind, forRange_natCast (n := half + 1) (by omega), hleft, ok_bind]
  dsimp only
  rw [hndiv, forRange_zero hmiddleEnd, hmiddle, ok_bind, hmiddleEnd, forRange_natCast hrightEnd,
    hright, ok_bind, hout]
  rfl

end Columns

/-! ## Rows -/

/-- The sum of a column over some rows. -/
def columnSum (params : ImageParams) (img : Cells Nat) (lo hi x : Nat) : Nat :=
  spanSum (fun y => img.cell (y * params.pixelsPerLine + x)) lo hi

/-- The mean over the window around a pixel, cut off at the margins of the image. -/
def windowMean (params : ImageParams) (img : Cells Nat) (winRows winCols p : Nat) : Nat :=
  let row := p / params.pixelsPerLine
  let col := p % params.pixelsPerLine
  blockMean (fun y x => img.cell (y * params.pixelsPerLine + x)) (row - winRows / 2)
    (min (row + winRows / 2 + 1) params.lines) (col - winCols / 2)
    (min (col + winCols / 2 + 1) params.pixelsPerLine)

/-- The sums over the rows from `lo` on, before `hi`. -/
structure Summed (params : ImageParams) (img : Cells Nat) (lo hi : Nat) (st : MeanState) :
    Prop where
  sums : ColumnSums params.pixelsPerLine st.sum (columnSum params img lo hi)
  nrow : st.nrow = (hi - lo : Nat)

/-- The state before a row. -/
structure BeforeRow (params : ImageParams) (img : Cells Nat) (winRows winCols i : Nat)
    (st : MeanState) : Prop where
  summed : Summed params img (i - (winRows / 2 + 1)) (min (i + winRows / 2) params.lines) st
  isub : st.isub = ((i : Int) - (winRows / 2 + 1 : Nat)) * params.pixelsPerLine
  iadd : st.iadd = ((i + winRows / 2) * params.pixelsPerLine : Nat)
  out : st.out =
    (List.range (i * params.pixelsPerLine)).map (windowMean params img winRows winCols)

section Rows

variable {params : ImageParams} {img : Cells Nat} {winRows winCols i lo hi row : Nat}
  {sum : Cells Int} {st : MeanState}

theorem updateSums_spec {first : Nat} (change : Int → Int → Int)
    (hsize : sum.size = params.pixelsPerLine) (himg : first + params.pixelsPerLine ≤ img.size) :
    ∃ sum', updateSums change img params.pixelsPerLine first sum = .ok sum' ∧
      sum'.size = params.pixelsPerLine ∧
      ∀ x < params.pixelsPerLine, sum'.cell x = change (sum.cell x) (img.cell (first + x)) := by
  obtain ⟨sum', hrun, hkeep, hdone, -⟩ := @forTo_invariant _ _ params.pixelsPerLine
    (fun j (sum : Cells Int) => do
      let value ← loadAt img ((first : Int) + j)
      let old ← sum.load j
      sum.store j (change old value)) sum
    (fun k block => block.size = params.pixelsPerLine ∧
      (∀ x < k, block.cell x = change (sum.cell x) (img.cell (first + x))) ∧
      ∀ x, k ≤ x → block.cell x = sum.cell x)
    ⟨hsize, fun x hx => absurd hx (Nat.not_lt_zero x), fun _ _ => rfl⟩ fun k hk block hinv => by
      obtain ⟨hkeep, hdone, hrest⟩ := hinv
      refine ⟨block.put k (change (sum.cell k) (img.cell (first + k))), ?_, hkeep, fun x hx => ?_,
        fun x hx => ?_⟩
      · rw [← Nat.cast_add, loadAt_natCast (by omega), ok_bind, Cells.load_eq (by omega), ok_bind,
          hrest k (Nat.le_refl k), Cells.store_eq (by omega)]
      · by_cases hlast : x = k
        · subst hlast
          exact Cells.cell_put_self ..
        · rw [Cells.cell_put_of_ne hlast]
          exact hdone x (by omega)
      · rw [Cells.cell_put_of_ne (by omega)]
        exact hrest x (by omega)
  exact ⟨sum', hrun, hkeep, hdone⟩

/-- A row of the image is inside of it. -/
theorem row_inside (himg : params.pixels ≤ img.size) (hrow : row < params.lines) :
    row * params.pixelsPerLine + params.pixelsPerLine ≤ img.size := by
  rw [← Nat.succ_mul]
  exact Nat.le_trans (Nat.mul_le_mul_right _ hrow) himg

theorem leaveRow_spec (himg : params.pixels ≤ img.size) (hcols : 0 < params.pixelsPerLine)
    (hi : i < params.lines) (h : BeforeRow params img winRows winCols i st) :
    ∃ st', leaveRow img params.pixelsPerLine st = .ok st' ∧
      Summed params img (i - winRows / 2) (min (i + winRows / 2) params.lines) st' ∧
      st'.isub = ((i + 1 : Nat) - (winRows / 2 + 1 : Nat) : Int) * params.pixelsPerLine ∧
      st'.iadd = st.iadd ∧ st'.out = st.out := by
  obtain ⟨half, hhalf⟩ : ∃ half, half = winRows / 2 := ⟨_, rfl⟩
  have hisub := h.isub
  have hsums := h.summed.sums
  have hnrow := h.summed.nrow
  rw [← hhalf] at hisub hsums hnrow ⊢
  have hnext : st.isub + params.pixelsPerLine =
      ((i + 1 : Nat) - (half + 1 : Nat) : Int) * params.pixelsPerLine := by
    rw [hisub, Nat.cast_add i 1, Nat.cast_one]
    ring
  by_cases hleaves : half + 1 ≤ i
  · have hfirst : st.isub = ((i - (half + 1)) * params.pixelsPerLine : Nat) := by
      rw [hisub, Nat.cast_mul, Nat.cast_sub hleaves]
    obtain ⟨sum', hrun, hsize, hcells⟩ := updateSums_spec (· - ·) hsums.size
      (row_inside himg (show i - (half + 1) < params.lines by omega))
    have hlo : i - half = i - (half + 1) + 1 := by omega
    refine
      ⟨{ st with sum := sum', nrow := st.nrow - 1, isub := st.isub + params.pixelsPerLine }, ?_,
      ⟨⟨hsize, fun x hx => ?_⟩, ?_⟩, hnext, rfl, rfl⟩
    · rw [leaveRow, if_pos (by rw [hfirst]; exact Int.natCast_nonneg _), hfirst, hrun, ok_bind]
      rfl
    · have hdrop := @spanSum_drop (fun y => img.cell (y * params.pixelsPerLine + x))
        (i - (half + 1)) (min (i + half) params.lines) (by omega)
      dsimp only
      rw [hcells x hx, hsums.cells x hx, hlo, columnSum, columnSum, hdrop]
      omega
    · dsimp only
      rw [hnrow]
      omega
  · have hneg : ¬ 0 ≤ st.isub := by
      rw [hisub]
      have hlt : (i : Int) - (half + 1 : Nat) < 0 := by omega
      exact not_le.mpr (mul_neg_of_neg_of_pos hlt (by omega))
    have hlo : i - half = i - (half + 1) := by omega
    refine ⟨{ st with isub := st.isub + params.pixelsPerLine }, ?_, ⟨?_, ?_⟩, hnext, rfl, rfl⟩
    · rw [leaveRow, if_neg hneg]
      rfl
    · rw [hlo]
      exact hsums
    · rw [hlo]
      exact hnrow

theorem enterRow_spec (himg : params.pixels ≤ img.size) (hcols : 0 < params.pixelsPerLine)
    (h : Summed params img (i - winRows / 2) (min (i + winRows / 2) params.lines) st)
    (hiadd : st.iadd = ((i + winRows / 2) * params.pixelsPerLine : Nat)) :
    ∃ st', enterRow img params.pixelsPerLine params.pixels st = .ok st' ∧
      Summed params img (i - winRows / 2) (min (i + winRows / 2 + 1) params.lines) st' ∧
      st'.iadd = ((i + 1 + winRows / 2) * params.pixelsPerLine : Nat) ∧
      st'.isub = st.isub ∧ st'.out = st.out := by
  obtain ⟨half, hhalf⟩ : ∃ half, half = winRows / 2 := ⟨_, rfl⟩
  rw [← hhalf] at h hiadd ⊢
  have hnext : st.iadd + params.pixelsPerLine =
      ((i + 1 + half) * params.pixelsPerLine : Nat) := by
    rw [hiadd, ← Nat.cast_add, ← Nat.succ_mul]
    congr 2
    omega
  by_cases henters : i + half < params.lines
  · have hinside : st.iadd < params.pixels := by
      rw [hiadd]
      exact Int.ofNat_lt.mpr (Nat.mul_lt_mul_of_pos_right henters hcols)
    obtain ⟨sum', hrun, hsize, hcells⟩ := updateSums_spec (· + ·) h.sums.size
      (row_inside himg henters)
    have hbefore : min (i + half) params.lines = i + half := by omega
    have hafter : min (i + half + 1) params.lines = i + half + 1 := by omega
    refine
      ⟨{ st with sum := sum', nrow := st.nrow + 1, iadd := st.iadd + params.pixelsPerLine }, ?_,
      ⟨⟨hsize, fun x hx => ?_⟩, ?_⟩, hnext, rfl, rfl⟩
    · rw [enterRow, if_pos hinside, hiadd, hrun, ok_bind]
      rfl
    · dsimp only
      rw [hcells x hx, h.sums.cells x hx, hbefore, hafter, columnSum, columnSum,
        spanSum_succ (by omega), Nat.cast_add]
    · dsimp only
      rw [h.nrow]
      omega
  · have houtside : ¬ st.iadd < params.pixels := by
      rw [hiadd]
      exact not_lt.mpr (Int.ofNat_le.mpr (Nat.mul_le_mul_right _ (by omega)))
    have hsame : min (i + half + 1) params.lines = min (i + half) params.lines := by omega
    refine ⟨{ st with iadd := st.iadd + params.pixelsPerLine }, ?_, ?_, hnext, rfl, rfl⟩
    · rw [enterRow, if_neg houtside]
      rfl
    · rw [hsame]
      exact ⟨h.sums, h.nrow⟩

/-- The means of a row's columns are those over the windows around its pixels. -/
theorem map_columnMean (i : Nat) :
    (List.range (i * params.pixelsPerLine)).map (windowMean params img winRows winCols) ++
      (List.range params.pixelsPerLine).map (columnMean
        (columnSum params img (i - winRows / 2) (min (i + winRows / 2 + 1) params.lines))
        params.pixelsPerLine (winCols / 2)
        (min (i + winRows / 2 + 1) params.lines - (i - winRows / 2))) =
      (List.range ((i + 1) * params.pixelsPerLine)).map
        (windowMean params img winRows winCols) := by
  rw [Nat.succ_mul, List.range_add, List.map_append, List.map_map]
  congr 1
  refine List.map_congr_left fun x hx => ?_
  have hx' : x < params.pixelsPerLine := List.mem_range.mp hx
  rw [Function.comp_apply, windowMean, part_div hx', part_mod hx']
  rfl

theorem BeforeRow.step (himg : params.pixels ≤ img.size) (hrows : winRows % 2 = 1)
    (hcols : winCols % 2 = 1) (hwin : winCols ≤ params.pixelsPerLine) (hi : i < params.lines)
    (h : BeforeRow params img winRows winCols i st) :
    ∃ st', filterRow params img winCols (winCols / 2) st = .ok st' ∧
      BeforeRow params img winRows winCols (i + 1) st' := by
  have hpos : 0 < params.pixelsPerLine := by omega
  obtain ⟨st₁, hleave, hsummed₁, hisub₁, hiadd₁, hout₁⟩ := leaveRow_spec himg hpos hi h
  obtain ⟨st₂, henter, hsummed₂, hiadd₂, hisub₂, hout₂⟩ :=
    enterRow_spec himg hpos hsummed₁ (hiadd₁.trans h.iadd)
  have hheight : 0 < min (i + winRows / 2 + 1) params.lines - (i - winRows / 2) := by omega
  have hodd : winCols = 2 * (winCols / 2) + 1 := by omega
  have hrow := filterColumns_spec hsummed₂.sums hheight
    (show 2 * (winCols / 2) + 1 ≤ params.pixelsPerLine by omega) st₂.out
  rw [← hodd, ← hsummed₂.nrow, hout₂, hout₁, h.out, map_columnMean] at hrow
  have hlo : i + 1 - (winRows / 2 + 1) = i - winRows / 2 := by omega
  have hhi : i + 1 + winRows / 2 = i + winRows / 2 + 1 := by omega
  refine ⟨{ st₂ with out :=
    (List.range ((i + 1) * params.pixelsPerLine)).map (windowMean params img winRows winCols) }, ?_,
    ⟨⟨?_, ?_⟩, ?_, hiadd₂, rfl⟩⟩
  · rw [filterRow, hleave, ok_bind, henter, ok_bind, hout₂, hout₁, h.out, hrow, ok_bind]
    rfl
  · rw [hlo, hhi]
    exact hsummed₂.sums
  · rw [hlo, hhi]
    exact hsummed₂.nrow
  · exact hisub₂.trans hisub₁

theorem initColumn_spec {half j : Nat} (himg : params.pixels ≤ img.size)
    (hhalf : half ≤ params.lines) (hj : j < params.pixelsPerLine)
    (hsize : sum.size = params.pixelsPerLine) :
    ∃ sum', initColumn img params.pixelsPerLine half j sum = .ok sum' ∧
      sum'.size = params.pixelsPerLine ∧ sum'.cell j = columnSum params img 0 half j ∧
      ∀ x, x ≠ j → sum'.cell x = sum.cell x := by
  obtain ⟨sum', hrun, hkeep, hself, hother⟩ := @forTo_invariant CellFault (Cells Int) half
    (fun i sum => do
      let value ← img.load (j + i * params.pixelsPerLine)
      let old ← sum.load j
      sum.store j (old + value)) (sum.put j 0)
    (fun k block => block.size = params.pixelsPerLine ∧
      block.cell j = columnSum params img 0 k j ∧ ∀ x, x ≠ j → block.cell x = sum.cell x)
    ⟨hsize, by rw [Cells.cell_put_self, columnSum, spanSum_self]; rfl,
      fun x hx => Cells.cell_put_of_ne hx _⟩ fun k hk block hinv => by
      obtain ⟨hkeep, hself, hother⟩ := hinv
      have hinside := row_inside himg (show k < params.lines by omega)
      refine ⟨block.put j (block.cell j + img.cell (k * params.pixelsPerLine + j)), ?_, hkeep, ?_,
        fun x hx => ?_⟩
      · rw [Nat.add_comm j, Cells.load_eq (by omega), ok_bind, Cells.load_eq (by omega), ok_bind,
          Cells.store_eq (by omega)]
      · rw [Cells.cell_put_self, hself, columnSum, columnSum, spanSum_succ (Nat.zero_le k),
          Nat.cast_add]
      · rw [Cells.cell_put_of_ne hx]
        exact hother x hx
  refine ⟨sum', ?_, hkeep, hself, hother⟩
  rw [initColumn, Cells.store_eq (by omega), ok_bind]
  exact hrun

theorem initColumns_spec {half : Nat} (himg : params.pixels ≤ img.size)
    (hhalf : half ≤ params.lines) (hsize : sum.size = params.pixelsPerLine) :
    ∃ sum', forTo params.pixelsPerLine (initColumn img params.pixelsPerLine half) sum = .ok sum' ∧
      ColumnSums params.pixelsPerLine sum' (columnSum params img 0 half) := by
  obtain ⟨sum', hrun, hkeep, hcells⟩ := @forTo_invariant _ _ params.pixelsPerLine
    (initColumn img params.pixelsPerLine half) sum
    (fun k block => block.size = params.pixelsPerLine ∧
      ∀ x < k, block.cell x = columnSum params img 0 half x)
    ⟨hsize, fun x hx => absurd hx (Nat.not_lt_zero x)⟩ fun k hk block hinv => by
      obtain ⟨hkeep, hcells⟩ := hinv
      obtain ⟨block', hrun, hkeep', hself, hother⟩ := initColumn_spec himg hhalf hk hkeep
      refine ⟨block', hrun, hkeep', fun x hx => ?_⟩
      by_cases hlast : x = k
      · rw [hlast, hself]
      · rw [hother x hlast]
        exact hcells x (by omega)
  exact ⟨sum', hrun, hkeep, hcells⟩

end Rows

/-- One value is stored for each pixel, the mean over the window around it. -/
theorem filterMean_eq_windowMean {malloc : Nat → Option (Nat → Int)}
    (hmalloc : ∀ n, ∃ contents, malloc n = some contents) {params : ImageParams} {img : Cells Nat}
    {winRows winCols : Nat} (hrows : winRows % 2 = 1) (hcols : winCols % 2 = 1)
    (htall : winRows ≤ params.lines) (hwide : winCols ≤ params.pixelsPerLine)
    (himg : params.pixels ≤ img.size) :
    saneiIrFilterMean malloc params img winRows winCols =
      .ok (.good, (List.range params.pixels).map (windowMean params img winRows winCols)) := by
  obtain ⟨contents, hcontents⟩ := hmalloc params.pixelsPerLine
  obtain ⟨sum, hinit, hsums⟩ := @initColumns_spec _ _
    { size := params.pixelsPerLine, cell := contents } (winRows / 2) himg (by omega) rfl
  have hstart : BeforeRow params img winRows winCols 0
      { sum
        isub := ((winRows / 2 : Nat) - winRows : Int) * params.pixelsPerLine
        iadd := (winRows / 2 : Nat) * params.pixelsPerLine
        nrow := (winRows / 2 : Nat) } := by
    have hhi : min (0 + winRows / 2) params.lines = winRows / 2 := by omega
    have hlo : 0 - (winRows / 2 + 1) = 0 := by omega
    refine ⟨⟨?_, ?_⟩, ?_, ?_, ?_⟩
    · rw [hhi, hlo]
      exact hsums
    · rw [hhi, hlo, Nat.sub_zero]
    · dsimp only
      congr 1
      omega
    · dsimp only
      rw [Nat.zero_add, Nat.cast_mul]
    · rw [Nat.zero_mul]
      rfl
  obtain ⟨st, hrun, hst⟩ := forTo_invariant hstart fun i hi st h =>
    BeforeRow.step himg hrows hcols hwide hi h
  have hout := hst.out
  rw [saneiIrFilterMean, if_neg (by omega), hcontents]
  dsimp only
  rw [hinit, ok_bind, hrun, ok_bind, hout]
  rfl

/-- Three rows of three pixels. -/
def ninePixels : ImageParams where
  bytesPerLine := 6
  pixelsPerLine := 3
  lines := 3
  depth := 16

theorem filterMean_eq_windowMean_ninePixels :
    saneiIrFilterMean (fun _ => some fun _ => 0) ninePixels ⟨9, fun p => 1000 * p⟩ 3 1 =
      .ok (.good, [1500, 2500, 3500, 3000, 4000, 5000, 4500, 5500, 6500]) := by
  have hmalloc : ∀ n : Nat, ∃ contents : Nat → Int,
      (fun _ : Nat => some fun _ : Nat => (0 : Int)) n = some contents := fun _ => ⟨_, rfl⟩
  have hrun := @filterMean_eq_windowMean _ hmalloc ninePixels
    ⟨9, fun p => 1000 * p⟩ 3 1 rfl rfl (by decide) (by decide)
    (by decide)
  rw [hrun]
  decide

end SaneBackends.Sanei
