import SaneBackends.Lib.Cells
import SaneBackends.Lib.FloorMean
/-!
# Splitting a calibration image into dark and white

Each column of the image has a range of samples. Those in its lowest eighth are averaged for the
dark value of the column and those in its highest eighth for the white value.
-/

namespace SaneBackends.Genesys

open SaneBackends.Lib

/-! ## The averages of a column, in `std::uint32_t` -/

/-- The 16-bit sample in column `x` of line `y`. -/
def calibrationSample (calibrationData : Nat → UInt8) (width x y : Nat) : Nat :=
  (calibrationData ((x + y * width) * 2)).toNat |||
    (calibrationData ((x + y * width) * 2 + 1)).toNat <<< 8

/-- `dark` and `white` behind the first loop over the lines. -/
def columnRange (col : Nat → Nat) : Nat → Nat × Nat
  | 0 => (0xffff, 0)
  | y + 1 =>
      let (dark, white) := columnRange col y
      (if col y < dark then col y else dark, if white < col y then col y else white)

/-- A sum with the number of its terms. -/
structure Tally where
  sum : Nat := 0
  count : Nat := 0
  deriving DecidableEq, Repr

def Tally.add (t : Tally) (col : Nat) : Tally where
  sum := (t.sum + col) % 2 ^ 32
  count := (t.count + 1) % 2 ^ 32

/-- `dark_sum`, `dark_count`, `white_sum` and `white_count` behind the second loop. -/
def tallies (dark white : Nat) (col : Nat → Nat) : Nat → Tally × Tally
  | 0 => ({}, {})
  | y + 1 =>
      let (darkTally, whiteTally) := tallies dark white col y
      (if col y ≤ dark then darkTally.add (col y) else darkTally,
        if white ≤ col y then whiteTally.add (col y) else whiteTally)

def Tally.mean (t : Tally) : Except CellFault Nat :=
  if t.count = 0 then .error .divisionByZero else .ok (t.sum / t.count)

def averageColumn (col : Nat → Nat) (lines : Nat) : Except CellFault (Nat × Nat) := do
  let (dark, white) := columnRange col lines
  let dif := (white + 2 ^ 32 - dark) % 2 ^ 32
  let dark := (dark + dif / 8) % 2 ^ 32
  let white := (white + 2 ^ 32 - dif / 8) % 2 ^ 32
  let (darkTally, whiteTally) := tallies dark white col lines
  let darkMean ← darkTally.mean
  let whiteMean ← whiteTally.mean
  .ok (darkMean, whiteMean)

/-- `dark_average_data` and `white_average_data`. -/
structure ShadingAverages where
  dark : Nat → UInt16
  white : Nat → UInt16

/-- The averages of the `width` columns, stored from the start offset on. -/
def averageColumns (calibrationData : Nat → UInt8) (width lines start : Nat)
    (averages : ShadingAverages) : Except CellFault ShadingAverages :=
  forTo width (fun x averages => do
    let (dark, white) ← averageColumn (calibrationSample calibrationData width x) lines
    .ok {
      dark := Function.update averages.dark (start + x) (UInt16.ofNat dark)
      white := Function.update averages.white (start + x) (UInt16.ofNat white) }) averages

/-! ## What the averages are to be -/

/-- The samples of a column that meet a condition. -/
def samplesWith (col : Nat → Nat) (lines : Nat) (p : Nat → Bool) : List Nat :=
  ((List.range lines).map col).filter p

/-- The means of the lowest and of the highest eighth of a column with the range from `low` to
`high`. -/
structure SplitsColumn (col : Nat → Nat) (lines low high dark white : Nat) : Prop where
  least : IsLeast {sample | ∃ y < lines, col y = sample} low
  greatest : IsGreatest {sample | ∃ y < lines, col y = sample} high
  dark_eq : dark = floorMean (samplesWith col lines (· ≤ low + (high - low) / 8))
  white_eq : white = floorMean (samplesWith col lines (high - (high - low) / 8 ≤ ·))
  dark_le_white : dark ≤ white
  low_le_dark : low ≤ dark
  white_le_high : white ≤ high
  darkSum : (samplesWith col lines (· ≤ low + (high - low) / 8)).sum < 2 ^ 32
  whiteSum : (samplesWith col lines (high - (high - low) / 8 ≤ ·)).sum < 2 ^ 32

variable {col : Nat → Nat} {lines low high dark white : Nat} {p : Nat → Bool}

/-! ## The range -/

theorem calibrationSample_lt (calibrationData : Nat → UInt8) (width x y : Nat) :
    calibrationSample calibrationData width x y < 2 ^ 16 := by
  refine Nat.or_lt_two_pow ?_ ?_
  · exact (UInt8.toNat_lt _).trans (by decide)
  · have hlt := (calibrationData ((x + y * width) * 2 + 1)).toNat_lt
    rw [Nat.shiftLeft_eq]
    omega

theorem columnRange_succ (col : Nat → Nat) (y : Nat) : columnRange col (y + 1) =
    (min (col y) (columnRange col y).1, max (columnRange col y).2 (col y)) := by
  rw [columnRange]
  refine Prod.ext ?_ ?_
  · dsimp only
    split_ifs <;> omega
  · dsimp only
    split_ifs <;> omega

theorem columnRange_spec (hcol : ∀ y < lines, col y < 2 ^ 16) (hlines : 0 < lines) :
    IsLeast {sample | ∃ y < lines, col y = sample} (columnRange col lines).1 ∧
      IsGreatest {sample | ∃ y < lines, col y = sample} (columnRange col lines).2 := by
  induction lines with
  | zero => exact absurd hlines (Nat.lt_irrefl 0)
  | succ y ih =>
      have hy := hcol y (Nat.lt_succ_self y)
      rw [columnRange_succ]
      have hset : {sample | ∃ y' < y + 1, col y' = sample} =
          insert (col y) {sample | ∃ y' < y, col y' = sample} := by
        ext sample
        simp only [Set.mem_ofPred_eq, Set.mem_insert_iff, Nat.lt_succ_iff_lt_or_eq]
        constructor
        · rintro ⟨y', hlt | rfl, rfl⟩
          · exact .inr ⟨y', hlt, rfl⟩
          · exact .inl rfl
        · rintro (rfl | ⟨y', hlt, rfl⟩)
          · exact ⟨y, .inr rfl, rfl⟩
          · exact ⟨y', .inl hlt, rfl⟩
      rw [hset]
      rcases Nat.eq_zero_or_pos y with rfl | hpos
      · have hnone : {sample | ∃ y' < 0, col y' = sample} = ∅ := by
          ext sample
          simp
        rw [hnone, insert_empty_eq, show columnRange col 0 = (0xffff, 0) from rfl,
          Nat.min_eq_left (by omega), Nat.max_eq_right (Nat.zero_le _)]
        exact ⟨isLeast_singleton, isGreatest_singleton⟩
      · obtain ⟨hleast, hgreatest⟩ := ih (fun y' hy' => hcol y' (Nat.lt_succ_of_lt hy')) hpos
        rw [Nat.max_comm]
        exact ⟨hleast.insert _, hgreatest.insert _⟩

/-! ## The tallies -/

theorem samplesWith_succ (col : Nat → Nat) (y : Nat) (p : Nat → Bool) :
    samplesWith col (y + 1) p =
      samplesWith col y p ++ if p (col y) then [col y] else [] := by
  rw [samplesWith, samplesWith, List.range_succ, List.map_append, List.filter_append,
    List.map_singleton, List.filter_singleton, Bool.cond_eq_ite]

theorem length_samplesWith_le (col : Nat → Nat) (lines : Nat) (p : Nat → Bool) :
    (samplesWith col lines p).length ≤ lines := by
  refine (List.length_filter_le ..).trans ?_
  rw [List.length_map, List.length_range]

/-- Sums of 16-bit samples of no more than 65536 lines fit. -/
theorem sum_samplesWith_lt (hcol : ∀ y < lines, col y < 2 ^ 16) (hlines : lines ≤ 65536)
    (p : Nat → Bool) : (samplesWith col lines p).sum < 2 ^ 32 := by
  have hle := List.sum_le_card_nsmul (samplesWith col lines p) (2 ^ 16 - 1) (by
    intro sample hsample
    obtain ⟨y, hy, rfl⟩ := List.mem_map.mp (List.mem_filter.mp hsample).1
    exact Nat.le_sub_one_of_lt (hcol y (List.mem_range.mp hy)))
  rw [smul_eq_mul] at hle
  have hlength := length_samplesWith_le col lines p
  have hmul : (samplesWith col lines p).length * (2 ^ 16 - 1) ≤ 65536 * (2 ^ 16 - 1) :=
    Nat.mul_le_mul_right _ (by omega)
  omega

theorem tally_add_eq {samples : List Nat} {sample : Nat}
    (hsum : (samples ++ [sample]).sum < 2 ^ 32) (hlength : samples.length + 1 < 2 ^ 32) :
    Tally.add ⟨samples.sum, samples.length⟩ sample =
      ⟨(samples ++ [sample]).sum, (samples ++ [sample]).length⟩ := by
  rw [Tally.add, List.sum_append, List.sum_singleton, List.length_append, List.length_singleton]
  rw [List.sum_append, List.sum_singleton] at hsum
  rw [Nat.mod_eq_of_lt hsum, Nat.mod_eq_of_lt hlength]

theorem tallies_eq (hcol : ∀ y < lines, col y < 2 ^ 16) (hlines : lines ≤ 65536)
    (dark white : Nat) : tallies dark white col lines =
      (⟨(samplesWith col lines (· ≤ dark)).sum, (samplesWith col lines (· ≤ dark)).length⟩,
        ⟨(samplesWith col lines (white ≤ ·)).sum, (samplesWith col lines (white ≤ ·)).length⟩) := by
  induction lines with
  | zero => rfl
  | succ y ih =>
      have hbefore := ih (fun y' hy' => hcol y' (Nat.lt_succ_of_lt hy')) (by omega)
      have hadd : ∀ p : Nat → Bool,
          (if p (col y) = true then Tally.add ⟨(samplesWith col y p).sum,
            (samplesWith col y p).length⟩ (col y)
          else ⟨(samplesWith col y p).sum, (samplesWith col y p).length⟩) =
            ⟨(samplesWith col (y + 1) p).sum, (samplesWith col (y + 1) p).length⟩ := by
        intro p
        have hsum := sum_samplesWith_lt hcol hlines p
        have hlength := length_samplesWith_le col y p
        rw [samplesWith_succ] at hsum ⊢
        by_cases hp : p (col y) = true
        · rw [if_pos hp] at hsum ⊢
          rw [if_pos hp]
          exact tally_add_eq hsum (by omega)
        · rw [if_neg hp, if_neg hp, List.append_nil]
      have hdark := hadd (· ≤ dark)
      have hwhite := hadd (white ≤ ·)
      simp only [decide_eq_true_eq] at hdark hwhite
      rw [tallies, hbefore]
      exact Prod.ext hdark hwhite

theorem mean_eq {samples : List Nat} (hne : samples ≠ []) :
    Tally.mean ⟨samples.sum, samples.length⟩ = .ok (floorMean samples) :=
  if_neg (Nat.ne_of_gt (List.length_pos_of_ne_nil hne))

/-! ## A column -/

theorem mem_samplesWith {sample : Nat} : sample ∈ samplesWith col lines p ↔
    (∃ y < lines, col y = sample) ∧ p sample = true := by
  rw [samplesWith, List.mem_filter, List.mem_map]
  simp only [List.mem_range]

theorem averageColumn_splits (hcol : ∀ y < lines, col y < 2 ^ 16) (hpos : 0 < lines)
    (hlines : lines ≤ 65536) : ∃ low high dark white,
      averageColumn col lines = .ok (dark, white) ∧
      SplitsColumn col lines low high dark white := by
  obtain ⟨hleast, hgreatest⟩ := columnRange_spec hcol hpos
  have hhigh : (columnRange col lines).2 < 2 ^ 16 := by
    obtain ⟨y, hy, heq⟩ := hgreatest.1
    exact heq ▸ hcol y hy
  have hrange : (columnRange col lines).1 ≤ (columnRange col lines).2 := hleast.2 hgreatest.1
  have hdef : ∀ low high, columnRange col lines = (low, high) → averageColumn col lines = (do
      let dif := (high + 2 ^ 32 - low) % 2 ^ 32
      let darkMean ← (tallies ((low + dif / 8) % 2 ^ 32) ((high + 2 ^ 32 - dif / 8) % 2 ^ 32) col
        lines).1.mean
      let whiteMean ← (tallies ((low + dif / 8) % 2 ^ 32) ((high + 2 ^ 32 - dif / 8) % 2 ^ 32) col
        lines).2.mean
      .ok (darkMean, whiteMean)) := by
    intro low high heq
    rw [averageColumn, heq]
  have hrun := hdef _ _ rfl
  generalize (columnRange col lines).1 = low at hleast hrange hrun
  generalize (columnRange col lines).2 = high at hgreatest hhigh hrange hrun
  have hdif : (high + 2 ^ 32 - low) % 2 ^ 32 = high - low := by omega
  have hdark : (low + (high - low) / 8) % 2 ^ 32 = low + (high - low) / 8 := by omega
  have hwhite : (high + 2 ^ 32 - (high - low) / 8) % 2 ^ 32 = high - (high - low) / 8 := by omega
  have hdarkNe : samplesWith col lines (· ≤ low + (high - low) / 8) ≠ [] :=
    List.ne_nil_of_mem (mem_samplesWith.mpr ⟨hleast.1, by simp⟩)
  have hwhiteNe : samplesWith col lines (high - (high - low) / 8 ≤ ·) ≠ [] :=
    List.ne_nil_of_mem (mem_samplesWith.mpr ⟨hgreatest.1, by simp⟩)
  have hbelow : floorMean (samplesWith col lines (· ≤ low + (high - low) / 8)) ≤
      low + (high - low) / 8 :=
    floorMean_le fun sample hsample => of_decide_eq_true (mem_samplesWith.mp hsample).2
  have habove : high - (high - low) / 8 ≤
      floorMean (samplesWith col lines (high - (high - low) / 8 ≤ ·)) :=
    le_floorMean hwhiteNe fun sample hsample => of_decide_eq_true (mem_samplesWith.mp hsample).2
  refine ⟨low, high, _, _, ?_, hleast, hgreatest, rfl, rfl, ?_, ?_, ?_, ?_, ?_⟩
  · rw [hrun, hdif]
    dsimp only
    rw [hdark, hwhite, tallies_eq hcol hlines]
    dsimp only
    rw [mean_eq hdarkNe, mean_eq hwhiteNe]
    rfl
  · -- twice an eighth of the range is no more than the range
    omega
  · exact le_floorMean hdarkNe fun sample hsample => hleast.2 (mem_samplesWith.mp hsample).1
  · exact floorMean_le fun sample hsample => hgreatest.2 (mem_samplesWith.mp hsample).1
  · exact sum_samplesWith_lt hcol hlines _
  · exact sum_samplesWith_lt hcol hlines _

/-! ## The image -/

/-- Every column is split, and what is stored of it is in the places of that column. -/
theorem averageColumns_splits (calibrationData : Nat → UInt8) (width start : Nat)
    (averages : ShadingAverages) (hpos : 0 < lines) (hlines : lines ≤ 65536) :
    ∃ averages', averageColumns calibrationData width lines start averages = .ok averages' ∧
      ∀ x < width, ∃ low high,
        SplitsColumn (calibrationSample calibrationData width x) lines low high
          (averages'.dark (start + x)).toNat (averages'.white (start + x)).toNat := by
  refine forTo_invariant (I := fun k (averages : ShadingAverages) => ∀ x < k, ∃ low high,
    SplitsColumn (calibrationSample calibrationData width x) lines low high
      (averages.dark (start + x)).toNat (averages.white (start + x)).toNat)
    (fun x hx => absurd hx (Nat.not_lt_zero x)) ?_
  intro k _ averages hinv
  have hcol : ∀ y < lines, calibrationSample calibrationData width k y < 2 ^ 16 :=
    fun y _ => calibrationSample_lt calibrationData width k y
  obtain ⟨low, high, dark, white, hrun, hsplits⟩ := averageColumn_splits hcol hpos hlines
  refine ⟨_, by rw [hrun, ok_bind], ?_⟩
  intro x hx
  by_cases hlast : x = k
  · subst hlast
    obtain ⟨y, hy, hhigh⟩ := hsplits.greatest.1
    have hlt := calibrationSample_lt calibrationData width x y
    rw [hhigh] at hlt
    have hwhite := hsplits.white_le_high
    have hdark := hsplits.dark_le_white
    dsimp only
    rw [Function.update_self, Function.update_self,
      UInt16.toNat_ofNat_of_lt' (show dark < 2 ^ 16 by omega),
      UInt16.toNat_ofNat_of_lt' (show white < 2 ^ 16 by omega)]
    exact ⟨low, high, hsplits⟩
  · dsimp only
    rw [Function.update_of_ne (by omega), Function.update_of_ne (by omega)]
    exact hinv x (by omega)

/-- Two lines of one column. -/
theorem averageColumns_splits_twoLines : ∃ averages',
    averageColumns (fun i => UInt8.ofNat i) 1 2 0 ⟨fun _ => 0, fun _ => 0⟩ = .ok averages' ∧
      ∀ x < 1, ∃ low high, SplitsColumn (calibrationSample (fun i => UInt8.ofNat i) 1 x) 2 low high
        (averages'.dark (0 + x)).toNat (averages'.white (0 + x)).toNat :=
  averageColumns_splits _ 1 0 _ (by decide) (by decide)

end SaneBackends.Genesys
