import SaneBackends.Lib.ByteBits
import SaneBackends.Lib.Cells
import SaneBackends.Lib.CInt
import SaneBackends.Lib.Window
/-!
# `pixma_binarize_line`

A line is stretched between its darkest and its brightest pixel, and each pixel is compared with a
threshold that may follow the mean of a window. The line and the bits may lie in one place.
-/

namespace SaneBackends.Pixma.BinarizeLine

open Lib

/-- Where `src` and `dst` may point to. -/
inductive Place where
  | line
  | other
  deriving DecidableEq, Repr

/-- The bytes from both places on. -/
abbrev Memory := Place → Nat → UInt8

def Memory.store (mem : Memory) (place : Place) (i : Nat) (byte : UInt8) : Memory :=
  Function.update mem place (Function.update (mem place) i byte)

/-- `pixma_scan_param_t`, of which these are read. -/
structure ScanParam where
  xdpi : UInt32
  threshold : UInt32
  thresholdCurve : UInt32
  lineartLut : Fin 256 → UInt8

/-- ~1mm works best, but the window needs to have odd # of pixels -/
def windowX (xdpi : UInt32) : Nat :=
  let windowX := 6 * xdpi.toNat % 2 ^ 32 / 150
  if windowX % 2 = 0 then windowX + 1 else windowX

def offsetX (windowX : Nat) : Nat := 1 + windowX / 2 / 8

/-! ## Normalization -/

def lineMax (src : Nat → UInt8) : Nat → UInt8
  | 0 => 0
  | x + 1 => if lineMax src x < src x then src x else lineMax src x

def lineMin (src : Nat → UInt8) : Nat → UInt8
  | 0 => 255
  | x + 1 => if src x < lineMin src x then src x else lineMin src x

/-- safeguard against dark or white areas -/
def safeMin (min : UInt8) : UInt8 := if 80 < min then 0 else min

def safeMax (max : UInt8) : UInt8 := if max < 80 then 255 else max

/-- `((pixel - min) * 255) / (max - min)`, where no difference is negative. -/
def stretched (min max pixel : UInt8) : UInt8 :=
  UInt8.ofNat ((pixel.toNat - min.toNat) * 255 / (max.toNat - min.toNat))

def normalizePixel (min max : UInt8) (x : Nat) (mem : Memory) : Except CellFault Memory :=
  if max.toNat - min.toNat = 0 then .error .divisionByZero
  else .ok (mem.store .line x (stretched min max (mem .line x)))

/-! ## The window -/

/-- The sliding sum before the first pixel, in `unsigned`. -/
def prefill (src : Nat → UInt8) (windowX : Nat) : Nat :=
  spanSum (fun j => (src j).toNat) (offsetX windowX) (windowX + 1) % 2 ^ 32

/-- Move sum. `dropCol` is an `int`. -/
def moveSum (src : Nat → UInt8) (width windowX j sum : Nat) : Nat :=
  let addCol : Nat := (j + windowX / 2) % 2 ^ 32
  let dropCol := toInt32 ((addCol : Int) - windowX)
  if (offsetX windowX : Int) ≤ dropCol ∧ addCol < width then
    let sum := (sum + (src addCol).toNat) % 2 ^ 32
    sum - if sum < (src dropCol.toNat).toNat then sum else (src dropCol.toNat).toNat
  else sum

/-- `sum` and `threshold` at a pixel. -/
def update (sp : ScanParam) (src : Nat → UInt8) (width j sum : Nat) :
    Except CellFault (Nat × Nat) :=
  if sp.thresholdCurve ≠ 0 then
    let sum := moveSum src width (windowX sp.xdpi) j sum
    if h : sum / windowX sp.xdpi < 256 then
      .ok (sum, (sp.lineartLut ⟨sum / windowX sp.xdpi, h⟩).toNat)
    else .error .outOfBounds
  else .ok (sum, sp.threshold.toNat)

structure Walk where
  mem : Memory
  sum : Nat

/-- `dst` is moved on after every eighth pixel. -/
def binarizePixel (sp : ScanParam) (dst : Place) (width j : Nat) (s : Walk) :
    Except CellFault Walk := do
  let (sum, threshold) ← update sp (s.mem .line) width j s.sum
  let mask := (0x80 : UInt8) >>> UInt8.ofNat (j % 8)
  let byte := s.mem dst (j / 8)
  let byte := if threshold < (s.mem .line j).toNat then byte &&& ~~~mask else byte ||| mask
  .ok { mem := s.mem.store dst (j / 8) byte, sum }

/-- A line of one channel, in bytes: the memory, and how far `dst` has moved. -/
def pixmaBinarizeLine (sp : ScanParam) (dst : Place) (mem : Memory) (width : UInt32) :
    Except CellFault (Memory × Nat) := do
  let min := safeMin (lineMin (mem .line) width.toNat)
  let max := safeMax (lineMax (mem .line) width.toNat)
  let mem ← forTo width.toNat (normalizePixel min max) mem
  let walk ← forTo width.toNat (binarizePixel sp dst width.toNat)
    { mem, sum := prefill (mem .line) (windowX sp.xdpi) }
  .ok (walk.mem, width.toNat / 8)

/-! ## What is to hold -/

/-- Bit `j` of a line of bits. -/
def outputBit (bytes : Nat → UInt8) (j : Nat) : Bool := pixelBit (bytes (j / 8)) (j % 8)

/-- The bits of the line are the same wherever they go and whatever else is in memory. -/
def Sound (sp : ScanParam) (width : UInt32) (line : Nat → UInt8) : Prop :=
  ∀ (dst dst' : Place) (mem mem' : Memory),
    (∀ x < width.toNat, mem .line x = line x) → (∀ x < width.toNat, mem' .line x = line x) →
      ∃ out out', pixmaBinarizeLine sp dst mem width = .ok out ∧
        pixmaBinarizeLine sp dst' mem' width = .ok out' ∧
          ∀ j < width.toNat, outputBit (out.1 dst) j = outputBit (out'.1 dst') j

/-! ## The darkest and the brightest pixel -/

section Extremes

variable {src src' : Nat → UInt8} {n x : Nat} {bound : UInt8}

theorem lineMax_succ (src : Nat → UInt8) (n : Nat) :
    lineMax src (n + 1) = if lineMax src n < src n then src n else lineMax src n := rfl

theorem lineMin_succ (src : Nat → UInt8) (n : Nat) :
    lineMin src (n + 1) = if src n < lineMin src n then src n else lineMin src n := rfl

theorem le_lineMax (hx : x < n) : src x ≤ lineMax src n := by
  induction n with
  | zero => exact absurd hx (Nat.not_lt_zero x)
  | succ n ih =>
      rw [lineMax_succ]
      by_cases hlast : x = n
      · rw [hlast]
        split_ifs with hmax
        · exact UInt8.le_refl _
        · exact UInt8.not_lt.mp hmax
      · have hle := ih (by omega)
        split_ifs with hmax
        · exact UInt8.le_trans hle (UInt8.le_of_lt hmax)
        · exact hle

theorem lineMin_le (hx : x < n) : lineMin src n ≤ src x := by
  induction n with
  | zero => exact absurd hx (Nat.not_lt_zero x)
  | succ n ih =>
      rw [lineMin_succ]
      by_cases hlast : x = n
      · rw [hlast]
        split_ifs with hmin
        · exact UInt8.le_refl _
        · exact UInt8.not_lt.mp hmin
      · have hle := ih (by omega)
        split_ifs with hmin
        · exact UInt8.le_trans (UInt8.le_of_lt hmin) hle
        · exact hle

theorem lineMax_congr (h : ∀ x < n, src x = src' x) : lineMax src n = lineMax src' n := by
  induction n with
  | zero => rfl
  | succ n ih =>
      rw [lineMax_succ, lineMax_succ, ih fun x hx => h x (Nat.lt_succ_of_lt hx),
        h n (Nat.lt_succ_self n)]

theorem lineMin_congr (h : ∀ x < n, src x = src' x) : lineMin src n = lineMin src' n := by
  induction n with
  | zero => rfl
  | succ n ih =>
      rw [lineMin_succ, lineMin_succ, ih fun x hx => h x (Nat.lt_succ_of_lt hx),
        h n (Nat.lt_succ_self n)]

theorem lineMax_le (h : ∀ x < n, src x ≤ bound) : lineMax src n ≤ bound := by
  induction n with
  | zero => exact UInt8.zero_le
  | succ n ih =>
      rw [lineMax_succ]
      split_ifs with hmax
      · exact h n (Nat.lt_succ_self n)
      · exact ih fun x hx => h x (Nat.lt_succ_of_lt hx)

theorem le_lineMin (h : ∀ x < n, bound ≤ src x) : bound ≤ lineMin src n := by
  induction n with
  | zero => exact UInt8.le_iff_toNat_le.mpr (Nat.le_of_lt_succ bound.toNat_lt)
  | succ n ih =>
      rw [lineMin_succ]
      split_ifs with hmin
      · exact h n (Nat.lt_succ_self n)
      · exact ih fun x hx => h x (Nat.lt_succ_of_lt hx)

theorem safeMin_toNat (min : UInt8) :
    (safeMin min).toNat = if 80 < min.toNat then 0 else min.toNat := by
  rw [safeMin, apply_ite UInt8.toNat]
  exact if_congr UInt8.lt_iff_toNat_lt rfl rfl

theorem safeMax_toNat (max : UInt8) :
    (safeMax max).toNat = if max.toNat < 80 then 255 else max.toNat := by
  rw [safeMax, apply_ite UInt8.toNat]
  exact if_congr UInt8.lt_iff_toNat_lt rfl rfl

/-- There is no stretch for a line that is 80 throughout. -/
theorem flat_iff (hn : 0 < n) :
    (safeMax (lineMax src n)).toNat - (safeMin (lineMin src n)).toNat = 0 ↔
      ∀ x < n, src x = 80 := by
  have hfirst : (src 0).toNat ≤ (lineMax src n).toNat := UInt8.le_iff_toNat_le.mp (le_lineMax hn)
  have hfirst' : (lineMin src n).toNat ≤ (src 0).toNat :=
    UInt8.le_iff_toNat_le.mp (lineMin_le hn)
  have hbyte := (lineMin src n).toNat_lt
  rw [safeMax_toNat, safeMin_toNat]
  constructor
  · intro hflat x hx
    have hmax : (src x).toNat ≤ (lineMax src n).toNat := UInt8.le_iff_toNat_le.mp (le_lineMax hx)
    have hmin : (lineMin src n).toNat ≤ (src x).toNat := UInt8.le_iff_toNat_le.mp (lineMin_le hx)
    have hpixel : (src x).toNat = 80 := by split_ifs at hflat <;> omega
    exact UInt8.toNat_inj.mp hpixel
  · intro hall
    have hmax : (lineMax src n).toNat ≤ 80 :=
      UInt8.le_iff_toNat_le.mp (lineMax_le fun x hx => UInt8.le_of_eq (hall x hx))
    have hmin : 80 ≤ (lineMin src n).toNat :=
      UInt8.le_iff_toNat_le.mp (le_lineMin fun x hx => UInt8.le_of_eq (hall x hx).symm)
    split_ifs <;> omega

end Extremes

section Normalized

variable {mem : Memory} {line line' : Nat → UInt8} {width x : Nat} {min max : UInt8}

/-- The line with its pixels stretched, and what is behind it. -/
def normalized (line : Nat → UInt8) (width x : Nat) : UInt8 :=
  if x < width then
    stretched (safeMin (lineMin line width)) (safeMax (lineMax line width)) (line x)
  else line x

theorem normalized_congr (h : ∀ x < width, line x = line' x) (hx : x < width) :
    normalized line width x = normalized line' width x := by
  rw [normalized, normalized, if_pos hx, if_pos hx, lineMin_congr h, lineMax_congr h, h x hx]

theorem normalizePixel_run (hdiff : max.toNat - min.toNat ≠ 0) (mem : Memory) (n : Nat) :
    ∃ mem', forTo n (normalizePixel min max) mem = .ok mem' ∧
      ∀ x, mem' .line x = if x < n then stretched min max (mem .line x) else mem .line x := by
  refine forTo_invariant
    (I := fun k (m : Memory) => ∀ x, m .line x =
      if x < k then stretched min max (mem .line x) else mem .line x)
    (fun x => (if_neg (Nat.not_lt_zero x)).symm) fun k hk m hinv => ?_
  refine ⟨_, if_neg hdiff, fun x => ?_⟩
  rw [Memory.store, Function.update_self]
  by_cases hlast : x = k
  · rw [hlast, Function.update_self, if_pos (Nat.lt_succ_self k), hinv k,
      if_neg (Nat.lt_irrefl k)]
  · rw [Function.update_of_ne hlast, hinv x]
    exact if_congr (by omega) rfl rfl

end Normalized

/-! ## The sums of the window -/

section Sums

variable {src src' : Nat → UInt8} {width w j k : Nat}

/-- The window is moved at pixel `j`. -/
def Moves (width w j : Nat) : Prop :=
  w / 2 + 1 + offsetX w ≤ j ∧ j + w / 2 < width ∧ j ≤ 2 ^ 31 + w / 2

instance (width w j : Nat) : Decidable (Moves width w j) :=
  inferInstanceAs (Decidable (_ ∧ _ ∧ _))

/-- Half the window ahead comes in, and half of it behind goes out. -/
def movedSum (src : Nat → UInt8) (w j sum : Nat) : Nat :=
  (sum + (src (j + w / 2)).toNat) % 2 ^ 32 - (src (j - w / 2 - 1)).toNat

/-- A width that `windowX` may have. -/
structure IsWindow (w : Nat) : Prop where
  odd : w % 2 = 1
  lt : w < 2 ^ 25

theorem windowX_isWindow (xdpi : UInt32) : IsWindow (windowX xdpi) := by
  have hwrap : 6 * xdpi.toNat % 2 ^ 32 < 2 ^ 32 := Nat.mod_lt _ (by decide)
  rw [windowX]
  split_ifs <;> constructor <;> omega

theorem moveSum_eq (hw : IsWindow w) (hwidth : width < 2 ^ 32) (hj : j < width) (sum : Nat) :
    moveSum src width w j sum = if Moves width w j then movedSum src w j sum else sum := by
  obtain ⟨hodd, hlt⟩ := hw
  rw [moveSum]
  dsimp only
  by_cases hmoves : Moves width w j
  · have hfrom : w / 2 + 1 + offsetX w ≤ j := hmoves.1
    have hto : j + w / 2 < width := hmoves.2.1
    have hint : j ≤ 2 ^ 31 + w / 2 := hmoves.2.2
    have hadd : (j + w / 2) % 2 ^ 32 = j + w / 2 := Nat.mod_eq_of_lt (by omega)
    have hdrop : toInt32 (((j + w / 2 : Nat) : Int) - w) = (j - w / 2 - 1 : Nat) :=
      toInt32_eq_of_emod (by omega) (by omega) (by omega)
    have hcond : (offsetX w : Int) ≤ ((j - w / 2 - 1 : Nat) : Int) ∧ j + w / 2 < width :=
      ⟨by omega, hto⟩
    rw [hadd, hdrop, if_pos hcond, if_pos hmoves, Int.toNat_natCast, movedSum]
    split_ifs <;> omega
  · have hcond : ¬((offsetX w : Int) ≤ toInt32 ((((j + w / 2) % 2 ^ 32 : Nat) : Int) - w) ∧
        (j + w / 2) % 2 ^ 32 < width) := by
      have hmod := toInt32_emod ((((j + w / 2) % 2 ^ 32 : Nat) : Int) - w)
      have hlow := le_toInt32 ((((j + w / 2) % 2 ^ 32 : Nat) : Int) - w)
      have hhigh := toInt32_lt ((((j + w / 2) % 2 ^ 32 : Nat) : Int) - w)
      rw [Moves] at hmoves
      omega
    rw [if_neg hcond, if_neg hmoves]

/-- The sum before pixel `k`. -/
def sumAt (src : Nat → UInt8) (width w : Nat) : Nat → Nat
  | 0 => prefill src w
  | k + 1 =>
      if Moves width w k then movedSum src w k (sumAt src width w k) else sumAt src width w k

theorem sumAt_of_still (h : ∀ j < k, ¬Moves width w j) : sumAt src width w k = prefill src w := by
  induction k with
  | zero => rfl
  | succ k ih =>
      rw [sumAt, if_neg (h k (Nat.lt_succ_self k)), ih fun j hj => h j (Nat.lt_succ_of_lt hj)]

theorem not_moves_of_lt (hj : j < w / 2 + 1 + offsetX w) : ¬Moves width w j :=
  fun h => Nat.not_le.mpr hj h.1

/-- The window holds no more than its width in pixels: what was left out at its start goes out of it
all the same. -/
theorem sumAt_le_span (src : Nat → UInt8) (width : Nat) (hw : IsWindow w) (t : Nat)
    (h : ∀ i < t, Moves width w (w / 2 + 1 + offsetX w + i)) :
    sumAt src width w (w / 2 + 1 + offsetX w + t) ≤
      spanSum (fun j => (src j).toNat) (offsetX w + t) (offsetX w + t + w) := by
  have hodd := hw.odd
  induction t with
  | zero =>
      have hoffset : w + 1 ≤ offsetX w + 0 + w := by
        rw [offsetX]
        omega
      rw [Nat.add_zero, sumAt_of_still fun j hj => not_moves_of_lt hj, prefill]
      exact (Nat.mod_le _ _).trans (spanSum_mono_right hoffset)
  | succ t ih =>
      have hbefore := ih fun i hi => h i (Nat.lt_succ_of_lt hi)
      have hadd : w / 2 + 1 + offsetX w + t + w / 2 = offsetX w + t + w := by omega
      have hdrop : w / 2 + 1 + offsetX w + t - w / 2 - 1 = offsetX w + t := by omega
      have hmove : sumAt src width w (w / 2 + 1 + offsetX w + (t + 1)) =
          (sumAt src width w (w / 2 + 1 + offsetX w + t) + (src (offsetX w + t + w)).toNat) %
            2 ^ 32 - (src (offsetX w + t)).toNat := by
        rw [← Nat.add_assoc, sumAt, if_pos (h t (Nat.lt_succ_self t)), movedSum, hadd, hdrop]
      have hdropped : spanSum (fun j => (src j).toNat) (offsetX w + t) (offsetX w + t + w) = _ :=
        spanSum_drop (by omega)
      have hadded : spanSum (fun j => (src j).toNat) (offsetX w + t + 1)
          (offsetX w + t + w + 1) = _ :=
        spanSum_succ (by omega)
      have hmod := Nat.mod_le
        (sumAt src width w (w / 2 + 1 + offsetX w + t) + (src (offsetX w + t + w)).toNat) (2 ^ 32)
      have hnext : offsetX w + (t + 1) + w = offsetX w + t + w + 1 := by omega
      rw [hmove, hnext, ← Nat.add_assoc, hadded]
      omega

theorem Moves.of_le {j' : Nat} (h : Moves width w j) (hfrom : w / 2 + 1 + offsetX w ≤ j')
    (hle : j' ≤ j) : Moves width w j' :=
  ⟨hfrom, by have := h.2.1; omega, by have := h.2.2; omega⟩

theorem span_le (src : Nat → UInt8) (lo w : Nat) :
    spanSum (fun j => (src j).toNat) lo (lo + w) ≤ w * 255 := by
  have hbytes : spanSum (fun j => (src j).toNat) lo (lo + w) ≤ (lo + w - lo) * 255 :=
    spanSum_le fun j _ _ => Nat.le_of_lt_succ (src j).toNat_lt
  rwa [Nat.add_sub_cancel_left] at hbytes

/-- The mean of the window is a byte. -/
theorem sumAt_le (hw : IsWindow w) (k : Nat) : sumAt src width w k ≤ w * 255 := by
  induction k with
  | zero =>
      have hstart := sumAt_le_span src width hw 0 fun i hi =>
         absurd hi (Nat.not_lt_zero i)
      rw [Nat.add_zero, sumAt_of_still fun j hj => not_moves_of_lt hj] at hstart
      exact hstart.trans (span_le src _ w)
  | succ k ih =>
      by_cases hmoves : Moves width w k
      · have hfrom := hmoves.1
        have hsum := sumAt_le_span src width hw (k + 1 - (w / 2 + 1 + offsetX w))
          fun i hi => hmoves.of_le (Nat.le_add_right _ _) (by omega)
        rw [Nat.add_sub_cancel' (by omega)] at hsum
        exact hsum.trans (span_le src _ w)
      · rw [sumAt, if_neg hmoves]
        exact ih

theorem prefill_congr (h : ∀ x ≤ w, src x = src' x) : prefill src w = prefill src' w := by
  rw [prefill, prefill, spanSum_congr fun x _ hx => congrArg UInt8.toNat (h x (by omega))]

/-- The sums are those of the line if all of the window lies on it. -/
theorem sumAt_congr (hlong : w < width) (h : ∀ x < width, src x = src' x) (k : Nat) :
    sumAt src width w k = sumAt src' width w k := by
  induction k with
  | zero => exact prefill_congr fun x hx => h x (by omega)
  | succ k ih =>
      rw [sumAt, sumAt, ih]
      by_cases hmoves : Moves width w k
      · have hto := hmoves.2.1
        rw [if_pos hmoves, if_pos hmoves, movedSum, movedSum, h _ hto,
          h (k - w / 2 - 1) (by omega)]
      · rw [if_neg hmoves, if_neg hmoves]

end Sums

/-! ## The walk -/

section Walk

variable {sp : ScanParam} {src src' : Nat → UInt8} {dst : Place} {width j k : Nat} {s : Walk}

def lutAt (lut : Fin 256 → UInt8) (i : Nat) : Nat :=
  if h : i < 256 then (lut ⟨i, h⟩).toNat else 0

/-- The threshold at a pixel. -/
def thresholdAt (sp : ScanParam) (src : Nat → UInt8) (width k : Nat) : Nat :=
  if sp.thresholdCurve ≠ 0 then
    lutAt sp.lineartLut (sumAt src width (windowX sp.xdpi) (k + 1) / windowX sp.xdpi)
  else sp.threshold.toNat

def black (sp : ScanParam) (src : Nat → UInt8) (width k : Nat) : Bool :=
  decide ((src k).toNat ≤ thresholdAt sp src width k)

theorem outputBit_store (bytes : Nat → UInt8) (white : Prop) [Decidable white] (j k : Nat) :
    outputBit (Function.update bytes (k / 8)
        (if white then bytes (k / 8) &&& ~~~((0x80 : UInt8) >>> UInt8.ofNat (k % 8))
          else bytes (k / 8) ||| (0x80 : UInt8) >>> UInt8.ofNat (k % 8))) j =
      if j = k then decide ¬white else outputBit bytes j := by
  have hk : k % 8 < 8 := Nat.mod_lt k (by decide)
  have hj : j % 8 < 8 := Nat.mod_lt j (by decide)
  rw [outputBit, outputBit]
  by_cases hbyte : j / 8 = k / 8
  · rw [hbyte, Function.update_self]
    have hbit : j % 8 = k % 8 ↔ j = k := by omega
    by_cases hwhite : white
    · rw [if_pos hwhite, pixelBit_clearMask _ hk hj, decide_eq_false (not_not_intro hwhite)]
      exact if_congr hbit rfl rfl
    · rw [if_neg hwhite, pixelBit_setMask _ hk hj, decide_eq_true hwhite]
      exact if_congr hbit rfl rfl
  · rw [Function.update_of_ne hbyte, if_neg fun h => hbyte (congrArg (· / 8) h)]

/-- Before pixel `k`: the bits of the pixels before it are there, and those of its place that may have
been overwritten are behind. -/
structure Walked (sp : ScanParam) (dst : Place) (src : Nat → UInt8) (width k : Nat) (s : Walk) :
    Prop where
  line : ∀ i, (dst = .line → (k + 7) / 8 ≤ i) → s.mem .line i = src i
  sum : sp.thresholdCurve ≠ 0 → s.sum = sumAt src width (windowX sp.xdpi) k
  bits : ∀ j < k, outputBit (s.mem dst) j = black sp src width j

/-- A pixel that goes out of the window was not overwritten. -/
def Apart (sp : ScanParam) (dst : Place) (width k : Nat) : Prop :=
  sp.thresholdCurve ≠ 0 → dst = .line → Moves width (windowX sp.xdpi) k →
    (k + 7) / 8 ≤ k - windowX sp.xdpi / 2 - 1

theorem update_eq {sum : Nat} (hcurve : sp.thresholdCurve ≠ 0)
    (hindex : moveSum src width (windowX sp.xdpi) k sum / windowX sp.xdpi < 256) :
    update sp src width k sum =
      .ok (moveSum src width (windowX sp.xdpi) k sum,
        lutAt sp.lineartLut (moveSum src width (windowX sp.xdpi) k sum / windowX sp.xdpi)) := by
  rw [update, if_pos hcurve, lutAt]
  exact (dif_pos hindex).trans (by rw [dif_pos hindex])

theorem update_run (hwidth : width < 2 ^ 32) (hk : k < width) (h : Walked sp dst src width k s)
    (hapart : Apart sp dst width k) :
    ∃ sum, update sp (s.mem .line) width k s.sum = .ok (sum, thresholdAt sp src width k) ∧
      (sp.thresholdCurve ≠ 0 → sum = sumAt src width (windowX sp.xdpi) (k + 1)) := by
  have hw := windowX_isWindow sp.xdpi
  rw [thresholdAt]
  by_cases hcurve : sp.thresholdCurve ≠ 0
  · have hsum : moveSum (s.mem .line) width (windowX sp.xdpi) k s.sum =
        sumAt src width (windowX sp.xdpi) (k + 1) := by
      rw [moveSum_eq hw hwidth hk, h.sum hcurve, sumAt]
      by_cases hmoves : Moves width (windowX sp.xdpi) k
      · have hadd := h.line (k + windowX sp.xdpi / 2) fun _ => by omega
        have hdrop := h.line (k - windowX sp.xdpi / 2 - 1) fun hdst => hapart hcurve hdst hmoves
        rw [if_pos hmoves, if_pos hmoves, movedSum, movedSum, hadd, hdrop]
      · rw [if_neg hmoves, if_neg hmoves]
    have hodd := hw.odd
    have hindex : sumAt src width (windowX sp.xdpi) (k + 1) / windowX sp.xdpi < 256 :=
      Nat.lt_of_le_of_lt (Nat.div_le_of_le_mul (sumAt_le hw (k + 1))) (by decide)
    rw [update_eq hcurve (by rw [hsum]; exact hindex), if_pos hcurve, hsum]
    exact ⟨_, rfl, fun _ => rfl⟩
  · rw [update, if_neg hcurve, if_neg hcurve]
    exact ⟨_, rfl, fun h => absurd h hcurve⟩

theorem binarizePixel_run (hwidth : width < 2 ^ 32) (hk : k < width)
    (h : Walked sp dst src width k s) (hapart : Apart sp dst width k) :
    ∃ s', binarizePixel sp dst width k s = .ok s' ∧ Walked sp dst src width (k + 1) s' := by
  obtain ⟨sum, hupdate, hsum⟩ := update_run hwidth hk h hapart
  have hpixel := h.line k fun _ => by omega
  rw [binarizePixel, hupdate, ok_bind]
  refine ⟨_, rfl, fun i hi => ?_, hsum, fun j hj => ?_⟩
  · dsimp only [Memory.store]
    by_cases hdst : dst = .line
    · have hi := hi hdst
      rw [hdst, Function.update_self, Function.update_of_ne (by omega)]
      exact h.line i fun _ => by omega
    · rw [Function.update_of_ne (Ne.symm hdst)]
      exact h.line i fun hline => absurd hline hdst
  · dsimp only [Memory.store]
    rw [Function.update_self, outputBit_store]
    by_cases hlast : j = k
    · rw [if_pos hlast, hpixel, hlast, black]
      exact decide_eq_decide.mpr Nat.not_lt
    · rw [if_neg hlast]
      exact h.bits j (by omega)

theorem walk_run {n : Nat} (sp : ScanParam) (dst : Place) (hwidth : width < 2 ^ 32) (hn : n ≤ width)
    (hapart : ∀ k < n, Apart sp dst width k) {mem : Memory} (hmem : mem .line = src) :
    ∃ s, forTo n (binarizePixel sp dst width) { mem, sum := prefill src (windowX sp.xdpi) } =
        .ok s ∧ Walked sp dst src width n s := by
  refine forTo_invariant (I := Walked sp dst src width)
    ⟨fun i _ => congrFun hmem i, fun _ => rfl, fun j hj => absurd hj (Nat.not_lt_zero j)⟩
    fun k hk s h => binarizePixel_run hwidth (by omega) h (hapart k hk)

end Walk

end SaneBackends.Pixma.BinarizeLine
