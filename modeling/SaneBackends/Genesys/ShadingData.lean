import SaneBackends.Genesys.Session
import SaneBackends.Lib.FloorMean
import SaneBackends.Lib.Writes
/-!
# Shading data

What the functions that compute shading coefficients share: the averages of the calibration scan,
the order of the colours, the averaging width, and the little-endian words of the shading data.
Products and sums are formed in `unsigned int`; indices are those of buffers in memory, which do
not wrap.
-/

namespace SaneBackends.Genesys

open SaneBackends.Lib

/-! ## The code -/

/-- `dark_average_data` and `white_average_data`. -/
structure AverageData where
  dark : Cells UInt16
  white : Cells UInt16

/-- `none` is the `logic_error` of an order that is not known. -/
def colorOrderToCmat : ColorOrder → Option (Cells Nat)
  | .rgb => some { size := 3, cell := fun c => c }
  | .gbr => some { size := 3, cell := fun c => (c + 2) % 3 }
  | .bgr => none

/-- `full_resolution / x`, with `x` twice the resolution for a sensor in half-ccd mode. -/
def basePixels (xres fullResolution opticalResolution : Nat) : Except CellFault Nat :=
  let x := if opticalResolution < fullResolution then xres * 2 % 2 ^ 32 else xres
  if x = 0 then .error .divisionByZero else .ok (fullResolution / x)

/-- The averaging width of the gl841 for a ratio of resolutions. -/
def averagingWidth (basepixels : Nat) : Nat :=
  if basepixels < 1 then 1
  else if basepixels < 6 then basepixels
  else if basepixels < 8 then 6
  else if basepixels < 10 then 8
  else if basepixels < 12 then 10
  else if basepixels < 15 then 12
  else 15

/-- `dk` and `br` while they add up averages. -/
structure AverageSums where
  dk : Nat := 0
  br : Nat := 0
  deriving DecidableEq, Repr

/-- The sums over the averages with these indices. -/
def sumAverages (data : AverageData) (n : Nat) (index : Nat → Nat) :
    Except CellFault AverageSums :=
  forTo n (fun i sums => do
    let dark ← data.dark.load (index i)
    let white ← data.white.load (index i)
    .ok {
      dk := (sums.dk + dark.toNat) % 2 ^ 32
      br := (sums.br + white.toNat) % 2 ^ 32 }) {}

/-- Two words, `ptr[0]` to `ptr[3]`. -/
def storeCoefficient (ptr dk val : Nat) (shading : Cells UInt8) :
    Except CellFault (Cells UInt8) := do
  let shading ← shading.store ptr (UInt8.ofNat (dk &&& 0xff))
  let shading ← shading.store (ptr + 1) (UInt8.ofNat (dk >>> 8))
  let shading ← shading.store (ptr + 2) (UInt8.ofNat (val &&& 0xff))
  shading.store (ptr + 3) (UInt8.ofNat (val >>> 8))

/-- The offset that leads to the two targets. -/
def offsetValue (targetBright targetDark br dk : Nat) : Except CellFault Nat :=
  let span := (targetBright + 2 ^ 32 - targetDark) % 2 ^ 32
  let dark := dk * targetBright % 2 ^ 32
  let bright := br * targetDark % 2 ^ 32
  if dark < bright then .ok 0
  else if 65535 * span % 2 ^ 32 < dark - bright then .ok 65535
  else if span = 0 then .error .divisionByZero
  else .ok ((dark - bright) / span)

/-- The gain that leads to them. -/
def gainValue (coeff targetBright targetDark br dk : Nat) : Nat :=
  let span := (targetBright + 2 ^ 32 - targetDark) % 2 ^ 32
  let val := (br + 2 ^ 32 - dk) % 2 ^ 32
  if span * coeff % 2 ^ 32 < 65535 * val % 2 ^ 32 then coeff * span % 2 ^ 32 / val else 65535

/-! ## Words -/

def wordAt (shading : Cells UInt8) (pos : Nat) : Nat :=
  (shading.cell pos).toNat + 256 * (shading.cell (pos + 1)).toNat

/-- Two words are at a place inside the shading data. -/
structure Stored (shading : Cells UInt8) (slot dk val : Nat) : Prop where
  inside : slot + 4 ≤ shading.size
  dk_eq : wordAt shading slot = dk
  val_eq : wordAt shading (slot + 2) = val

/-- The bytes of two words. -/
def coefficientByte (dk val : Nat) : Nat → UInt8
  | 0 => UInt8.ofNat (dk &&& 0xff)
  | 1 => UInt8.ofNat (dk >>> 8)
  | 2 => UInt8.ofNat (val &&& 0xff)
  | _ => UInt8.ofNat (val >>> 8)

theorem word_bytes {v : Nat} (hv : v < 2 ^ 16) :
    (UInt8.ofNat (v &&& 0xff)).toNat + 256 * (UInt8.ofNat (v >>> 8)).toNat = v := by
  rw [UInt8.toNat_ofNat', UInt8.toNat_ofNat', Nat.shiftRight_eq_div_pow,
    show v &&& 0xff = v % 2 ^ 8 from Nat.and_two_pow_sub_one_eq_mod v 8]
  omega

theorem stored_of_bytes {shading : Cells UInt8} {slot dk val : Nat} (hdk : dk < 2 ^ 16)
    (hval : val < 2 ^ 16) (hinside : slot + 4 ≤ shading.size)
    (hbytes : ∀ j < 4, shading.cell (slot + j) = coefficientByte dk val j) :
    Stored shading slot dk val where
  inside := hinside
  dk_eq := by
    rw [wordAt, show shading.cell slot = _ from hbytes 0 (by decide), hbytes 1 (by decide)]
    exact word_bytes hdk
  val_eq := by
    rw [wordAt, hbytes 2 (by decide), show slot + 2 + 1 = slot + 3 from rfl,
      hbytes 3 (by decide)]
    exact word_bytes hval

theorem writes_storeCoefficient {size ptr : Nat} (dk val : Nat) (h : ptr + 4 ≤ size) :
    Writes size (storeCoefficient ptr dk val) (Set.Ico ptr (ptr + 4))
      fun i => coefficientByte dk val (i - ptr) := by
  have hbyte : ∀ j < 4, Writes size
      (fun shading => shading.store (ptr + j) (coefficientByte dk val j)) {ptr + j}
      fun i => coefficientByte dk val (i - ptr) := by
    intro j hj
    have hstore := writes_store (show ptr + j < size by omega)
      fun i => coefficientByte dk val (i - ptr)
    simp only [Nat.add_sub_cancel_left] at hstore
    exact hstore
  have hall := (hbyte 0 (by decide)).andThen ((hbyte 1 (by decide)).andThen
    ((hbyte 2 (by decide)).andThen (hbyte 3 (by decide))))
  have hset : ({ptr + 0} ∪ ({ptr + 1} ∪ ({ptr + 2} ∪ {ptr + 3})) : Set Nat) =
      Set.Ico ptr (ptr + 4) := by
    ext i
    simp only [Set.mem_union, Set.mem_singleton_iff, Set.mem_Ico]
    omega
  rw [hset] at hall
  exact hall

/-! ## Averages -/

/-- The mean of some averages, rounded down. -/
def averageMean (averages : Cells UInt16) (n : Nat) (index : Nat → Nat) : Nat :=
  floorMean ((List.range n).map fun i => (averages.cell (index i)).toNat)

theorem averageMean_lt (averages : Cells UInt16) (n : Nat) (index : Nat → Nat) :
    averageMean averages n index < 2 ^ 16 := by
  have hle : averageMean averages n index ≤ 2 ^ 16 - 1 := floorMean_le (by
    intro value hvalue
    obtain ⟨i, -, rfl⟩ := List.mem_map.mp hvalue
    exact Nat.le_sub_one_of_lt (averages.cell (index i)).toNat_lt)
  omega

/-- The sum of some averages. -/
def averageSum (averages : Cells UInt16) (n : Nat) (index : Nat → Nat) : Nat :=
  ((List.range n).map fun i => (averages.cell (index i)).toNat).sum

theorem averageSum_succ (averages : Cells UInt16) (n : Nat) (index : Nat → Nat) :
    averageSum averages (n + 1) index =
      averageSum averages n index + (averages.cell (index n)).toNat := by
  rw [averageSum, averageSum, List.range_succ, List.map_append, List.sum_append, List.map_singleton,
    List.sum_singleton]

theorem averageSum_lt (averages : Cells UInt16) {n : Nat} (hn : n ≤ 2 ^ 16) (index : Nat → Nat) :
    averageSum averages n index < 2 ^ 32 := by
  have hle : averageSum averages n index ≤ n * (2 ^ 16 - 1) := by
    clear hn
    induction n with
    | zero => exact Nat.zero_le _
    | succ n ih =>
        have hlt := (averages.cell (index n)).toNat_lt
        rw [averageSum_succ]
        omega
  have hmul : n * (2 ^ 16 - 1) ≤ 2 ^ 16 * (2 ^ 16 - 1) := Nat.mul_le_mul_right _ hn
  omega

theorem averageSum_div (averages : Cells UInt16) (n : Nat) (index : Nat → Nat) :
    averageSum averages n index / n = averageMean averages n index := by
  rw [averageMean, floorMean, List.length_map, List.length_range]
  rfl

variable {data : AverageData} {n : Nat} {index : Nat → Nat}

theorem sumAverages_eq (hdark : ∀ i < n, index i < data.dark.size)
    (hwhite : ∀ i < n, index i < data.white.size) (hn : n ≤ 2 ^ 16) :
    sumAverages data n index =
      .ok { dk := averageSum data.dark n index, br := averageSum data.white n index } := by
  induction n with
  | zero => rfl
  | succ n ih =>
      have hbefore := ih (fun i hi => hdark i (Nat.lt_succ_of_lt hi))
        (fun i hi => hwhite i (Nat.lt_succ_of_lt hi)) (by omega)
      have hdk := averageSum_lt data.dark hn index
      have hbr := averageSum_lt data.white hn index
      rw [averageSum_succ] at hdk hbr
      rw [sumAverages] at hbefore ⊢
      rw [forTo_succ, hbefore, ok_bind, Cells.load_eq (hdark n (Nat.lt_succ_self n)), ok_bind,
        Cells.load_eq (hwhite n (Nat.lt_succ_self n)), ok_bind]
      dsimp only
      rw [Nat.mod_eq_of_lt hdk, Nat.mod_eq_of_lt hbr, averageSum_succ, averageSum_succ]

/-- What is summed up is inside the averages. -/
theorem sumAverages_ok {sums : AverageSums} (h : sumAverages data n index = .ok sums) {i : Nat}
    (hi : i < n) : index i < data.dark.size := by
  obtain ⟨before, after, hpass⟩ := forTo_pass_ok h hi
  obtain ⟨dark, hload, -⟩ := bind_eq_ok.mp hpass
  exact (Cells.load_ok hload).1

theorem averagingWidth_le (basepixels : Nat) :
    0 < averagingWidth basepixels ∧ averagingWidth basepixels ≤ 15 := by
  rw [averagingWidth]
  split_ifs <;> omega

/-! ## The order of the colours -/

variable {order : ColorOrder} {cmat : Cells Nat}

theorem cmat_load (h : colorOrderToCmat order = some cmat) {c : Nat} (hc : c < 3) :
    cmat.load c = .ok (cmat.cell c) ∧ cmat.cell c < 3 := by
  cases order with
  | rgb =>
      rw [← Option.some.inj h]
      exact ⟨if_pos hc, hc⟩
  | gbr =>
      rw [← Option.some.inj h]
      exact ⟨if_pos hc, Nat.mod_lt _ (by decide)⟩
  | bgr => cases h

theorem cmat_inj (h : colorOrderToCmat order = some cmat) {c c' : Nat} (hc : c < 3) (hc' : c' < 3)
    (heq : cmat.cell c = cmat.cell c') : c = c' := by
  cases order with
  | rgb =>
      rw [← Option.some.inj h] at heq
      exact heq
  | gbr =>
      rw [← Option.some.inj h] at heq
      dsimp only at heq
      omega
  | bgr => cases h

end SaneBackends.Genesys
