import SaneBackends.Sanei.Manhattan
/-!
# Growing and shrinking a mask

`sanei_ir_dilate`. When it is to shrink the 0 valued area, it compares distances to the 255 pixels
in the same sense as when it is to enlarge it.
-/

namespace SaneBackends.Sanei

open SaneBackends.Lib

/-! ## The code -/

/-- One pass of the last loop. -/
def thresholdPixel (maps : DistMaps) (thresh i : Nat) (mask : Cells Nat) :
    Except CellFault (Cells Nat) := do
  let manhattan ← maps.dist.load i
  mask.store i (if manhattan ≤ thresh then 0 else 255)

def saneiIrDilate (params : ImageParams) (mask : Cells Nat) (maps : DistMaps) (byPixels : Int)
    (rand : Nat → Nat) : Except CellFault (Cells Nat × DistMaps) :=
  if byPixels = 0 then .ok (mask, maps)
  else do
    let erode := if 0 < byPixels then 0 else 1
    let thresh := if 0 < byPixels then byPixels.toNat else (-byPixels).toNat
    let maps ← saneiIrManhattanDist params mask maps erode rand
    let mask ← forTo params.pixels (thresholdPixel maps thresh) mask
    .ok (mask, maps)

/-! ## What it is for -/

/-- Some pixel with the value is no further away. -/
def WithinOf (params : ImageParams) (mask : Cells Nat) (value distance p : Nat) : Prop :=
  ∃ t, IsTarget params mask value t ∧ params.distance p t ≤ distance

/-- The mask with its 0 valued area grown by so many pixels, or shrunk. -/
structure Morphed (params : ImageParams) (mask : Cells Nat) (byPixels : Int) (mask' : Cells Nat) :
    Prop where
  same : byPixels = 0 → ∀ p < params.pixels, mask'.cell p = mask.cell p
  grown : 0 < byPixels → ∀ p < params.pixels,
    (WithinOf params mask 0 byPixels.toNat p → mask'.cell p = 0) ∧
      (¬ WithinOf params mask 0 byPixels.toNat p → mask'.cell p = 255)
  shrunk : byPixels < 0 → ∀ p < params.pixels,
    (WithinOf params mask 255 (-byPixels).toNat p → mask'.cell p = 255) ∧
      (¬ WithinOf params mask 255 (-byPixels).toNat p → mask'.cell p = 0)

section Dilate

variable {params : ImageParams} {mask : Cells Nat} {maps : DistMaps} {value p d x n : Nat}
  {rand : Nat → Nat} {byPixels : Int}

/-- Where there is a target, the distance says what is within reach. -/
theorem Closest.withinOf (h : Closest params mask value p d x)
    (hsome : ∃ t, IsTarget params mask value t) : WithinOf params mask value n p ↔ d ≤ n := by
  constructor
  · rintro ⟨t, htarget, hle⟩
    exact Nat.le_trans (h.least t htarget) hle
  · intro hle
    obtain ⟨htarget, hdist⟩ := h.reached hsome
    exact ⟨x, htarget, hdist ▸ hle⟩

theorem thresholdPixels_spec (thresh : Nat) (hmask : params.pixels ≤ mask.size)
    (hsized : Sized params.pixels maps) :
    ∃ mask', forTo params.pixels (thresholdPixel maps thresh) mask = .ok mask' ∧
      ∀ p < params.pixels, mask'.cell p = if maps.dist.cell p ≤ thresh then 0 else 255 := by
  have hdist := hsized.dist
  have hget : ∀ p < params.pixels, (do
      let d ← maps.dist.load p
      .ok (if d ≤ thresh then 0 else 255)) =
      (.ok (if maps.dist.cell p ≤ thresh then 0 else 255) : Except CellFault Nat) := by
    intro p hp
    rw [Cells.load_eq (by omega), ok_bind]
  obtain ⟨mask', hrun, -, hcells⟩ := Cells.fill_spec hget hmask
  refine ⟨mask', ?_, hcells⟩
  rw [← hrun]
  apply forTo_congr
  intro p hp mask
  rw [thresholdPixel, Cells.load_eq (by omega)]
  rfl

/-- What the code leaves: within the distance of a pixel with the value 0, or if the mask is to
shrink 255, there is 0. -/
theorem saneiIrDilate_spec (hmask : params.pixels ≤ mask.size) (hsized : Sized params.pixels maps)
    (hby : byPixels ≠ 0) (hvalue : value = if 0 < byPixels then 0 else 255) :
    ∃ mask' maps', saneiIrDilate params mask maps byPixels rand = .ok (mask', maps') ∧
      ∀ p < params.pixels, ∃ d x, Closest params mask value p d x ∧
        mask'.cell p = if d ≤ byPixels.natAbs then 0 else 255 := by
  obtain ⟨maps', hdist, hsized', hclosest⟩ := @saneiIrManhattanDist_spec params mask value maps rand
    (if 0 < byPixels then 0 else 1) (by rw [hvalue]; split_ifs <;> simp_all) hmask hsized
  obtain ⟨mask', hloop, hcells⟩ := thresholdPixels_spec byPixels.natAbs hmask hsized'
  have hthresh :
      (if 0 < byPixels then byPixels.toNat else (-byPixels).toNat) = byPixels.natAbs := by
    split_ifs <;> omega
  refine ⟨mask', maps', ?_, fun p hp => ⟨_, _, hclosest p hp, hcells p hp⟩⟩
  rw [saneiIrDilate, if_neg hby, hthresh]
  dsimp only
  rw [hdist, ok_bind, hloop, ok_bind]

/-- A pixel of the mask that grows is right, unless all are clean and it is near for no reason. -/
theorem grown_pixel {cell : Nat} (h : Closest params mask 0 p d x)
    (hcell : cell = if d ≤ n then 0 else 255) :
    ((WithinOf params mask 0 n p → cell = 0) ∧ (¬ WithinOf params mask 0 n p → cell = 255)) ↔
      (∃ t, IsTarget params mask 0 t) ∨ n < params.pixelsPerLine + params.lines := by
  by_cases hsome : ∃ t, IsTarget params mask 0 t
  · rw [h.withinOf hsome, hcell]
    exact ⟨fun _ => .inl hsome, fun _ => ⟨fun hle => if_pos hle, fun hgt => if_neg hgt⟩⟩
  · have hnear : ¬ WithinOf params mask 0 n p := by
      rintro ⟨t, htarget, -⟩
      exact hsome ⟨t, htarget⟩
    rw [hcell, (h.absent hsome).1]
    refine ⟨fun hright => .inr ?_, fun hfar => ⟨fun hwithin => absurd hwithin hnear, fun _ => ?_⟩⟩
    · by_contra hle
      have hclean := hright.2 hnear
      rw [if_pos (by omega)] at hclean
      cases hclean
    · rw [if_neg (by have hfar' := hfar.resolve_left hsome; omega)]

/-- A pixel of the mask that shrinks is right only where nothing is clean and all are far. -/
theorem shrunk_pixel {cell : Nat} (h : Closest params mask 255 p d x)
    (hcell : cell = if d ≤ n then 0 else 255) :
    ((WithinOf params mask 255 n p → cell = 255) ∧ (¬ WithinOf params mask 255 n p → cell = 0)) ↔
      (¬ ∃ t, IsTarget params mask 255 t) ∧ params.pixelsPerLine + params.lines ≤ n := by
  by_cases hsome : ∃ t, IsTarget params mask 255 t
  · rw [h.withinOf hsome, hcell]
    refine ⟨fun hright => ?_, fun hnone => absurd hsome hnone.1⟩
    by_cases hle : d ≤ n
    · have hwrong := hright.1 hle
      rw [if_pos hle] at hwrong
      cases hwrong
    · have hwrong := hright.2 hle
      rw [if_neg hle] at hwrong
      cases hwrong
  · have hnear : ¬ WithinOf params mask 255 n p := by
      rintro ⟨t, htarget, -⟩
      exact hsome ⟨t, htarget⟩
    rw [hcell, (h.absent hsome).1]
    refine ⟨fun hright => ⟨hsome, ?_⟩,
      fun hfar => ⟨fun hwithin => absurd hwithin hnear, fun _ => ?_⟩⟩
    · by_contra hgt
      have hwrong := hright.2 hnear
      rw [if_neg hgt] at hwrong
      cases hwrong
    · rw [if_pos hfar.2]

/-- When growing and shrinking come out as they should. -/
def DilatesRight (params : ImageParams) (mask : Cells Nat) (byPixels : Int) : Prop :=
  params.pixels = 0 ∨ byPixels = 0 ∨
    0 < byPixels ∧ ((∃ t, IsTarget params mask 0 t) ∨
      byPixels < params.pixelsPerLine + params.lines) ∨
    byPixels < 0 ∧ (¬ ∃ t, IsTarget params mask 255 t) ∧
      params.pixelsPerLine + params.lines ≤ -byPixels

theorem forall_lt_const {n : Nat} {C : Prop} : (∀ p < n, C) ↔ n = 0 ∨ C := by
  cases n with
  | zero => simp
  | succ n => exact ⟨fun h => .inr (h 0 (Nat.succ_pos n)), fun h _ _ => h.resolve_left (by omega)⟩

theorem dilate_spec (hmask : params.pixels ≤ mask.size) (hsized : Sized params.pixels maps) :
    ∃ mask' maps', saneiIrDilate params mask maps byPixels rand = .ok (mask', maps') ∧
      (Morphed params mask byPixels mask' ↔ DilatesRight params mask byPixels) := by
  by_cases hby : byPixels = 0
  · refine ⟨mask, maps, by rw [saneiIrDilate, if_pos hby], fun _ => .inr (.inl hby), fun _ => ?_⟩
    exact ⟨fun _ _ _ => rfl, fun h => by omega, fun h => by omega⟩
  · obtain ⟨mask', maps', hrun, hpixels⟩ :=
      @saneiIrDilate_spec _ _ _ _ rand _ hmask hsized hby rfl
    refine ⟨mask', maps', hrun, ?_⟩
    by_cases hgrow : 0 < byPixels
    · rw [if_pos hgrow] at hpixels
      calc Morphed params mask byPixels mask'
          ↔ ∀ p < params.pixels, (WithinOf params mask 0 byPixels.natAbs p → mask'.cell p = 0) ∧
              (¬ WithinOf params mask 0 byPixels.natAbs p → mask'.cell p = 255) := by
            have habs : byPixels.toNat = byPixels.natAbs := by omega
            rw [← habs]
            exact ⟨fun h => h.grown hgrow, fun h => ⟨fun h0 => by omega, fun _ => h,
              fun hneg => by omega⟩⟩
        _ ↔ ∀ p < params.pixels, (∃ t, IsTarget params mask 0 t) ∨
              byPixels.natAbs < params.pixelsPerLine + params.lines := by
            refine forall₂_congr fun p hp => ?_
            obtain ⟨d, x, hclosest, hcell⟩ := hpixels p hp
            exact grown_pixel hclosest hcell
        _ ↔ DilatesRight params mask byPixels := by
            have hfar : byPixels.natAbs < params.pixelsPerLine + params.lines ↔
                byPixels < params.pixelsPerLine + params.lines := by omega
            have hneg : ¬ byPixels < 0 := by omega
            rw [forall_lt_const, DilatesRight, hfar]
            simp only [hby, hgrow, hneg, true_and, false_and, false_or, or_false]
    · rw [if_neg hgrow] at hpixels
      calc Morphed params mask byPixels mask'
          ↔ ∀ p < params.pixels, (WithinOf params mask 255 byPixels.natAbs p → mask'.cell p = 255) ∧
              (¬ WithinOf params mask 255 byPixels.natAbs p → mask'.cell p = 0) := by
            have habs : (-byPixels).toNat = byPixels.natAbs := by omega
            rw [← habs]
            exact ⟨fun h => h.shrunk (by omega), fun h => ⟨fun h0 => by omega, fun hpos => by omega,
              fun _ => h⟩⟩
        _ ↔ ∀ p < params.pixels, (¬ ∃ t, IsTarget params mask 255 t) ∧
              params.pixelsPerLine + params.lines ≤ byPixels.natAbs := by
            refine forall₂_congr fun p hp => ?_
            obtain ⟨d, x, hclosest, hcell⟩ := hpixels p hp
            exact shrunk_pixel hclosest hcell
        _ ↔ DilatesRight params mask byPixels := by
            have hfar : params.pixelsPerLine + params.lines ≤ byPixels.natAbs ↔
                (params.pixelsPerLine + params.lines : Int) ≤ -byPixels := by omega
            have hneg : byPixels < 0 := by omega
            rw [forall_lt_const, DilatesRight, hfar]
            simp only [hby, hgrow, hneg, true_and, false_and, false_or]

end Dilate

/-- The code grows or shrinks the mask as it should in these cases exactly. -/
theorem morphed_iff_dilatesRight {params : ImageParams} {mask : Cells Nat} {maps : DistMaps}
    (byPixels : Int) (rand : Nat → Nat) (hmask : params.pixels ≤ mask.size)
    (hsized : Sized params.pixels maps) :
    ∃ mask' maps', saneiIrDilate params mask maps byPixels rand = .ok (mask', maps') ∧
      (Morphed params mask byPixels mask' ↔ DilatesRight params mask byPixels) :=
  dilate_spec hmask hsized

/-- One pixel, and the maps for it. -/
def oneByOne : ImageParams where
  bytesPerLine := 1
  pixelsPerLine := 1
  lines := 1

def oneByOneMaps : DistMaps where
  dist := ⟨1, fun _ => 0⟩
  idx := ⟨1, fun _ => 0⟩

theorem morphed_iff_dilatesRight_oneByOne :
    ∃ mask' maps', saneiIrDilate oneByOne ⟨1, fun _ => 0⟩ oneByOneMaps 1 (fun _ => 0) =
        .ok (mask', maps') ∧
      (Morphed oneByOne ⟨1, fun _ => 0⟩ 1 mask' ↔ DilatesRight oneByOne ⟨1, fun _ => 0⟩ 1) := by
  have hmask : oneByOne.pixels ≤ 1 := by decide
  have hsized : Sized oneByOne.pixels oneByOneMaps := ⟨by decide, by decide⟩
  exact morphed_iff_dilatesRight 1 (fun _ => 0) hmask hsized

/-- A clean pixel that is to stay clean becomes dirty. -/
theorem not_morphed_oneByOne :
    ∃ mask' maps', saneiIrDilate oneByOne ⟨1, fun _ => 255⟩ oneByOneMaps (-1) (fun _ => 0) =
        .ok (mask', maps') ∧ mask'.cell 0 = 0 ∧
      ¬ Morphed oneByOne ⟨1, fun _ => 255⟩ (-1) mask' := by
  have hmask : oneByOne.pixels ≤ 1 := by decide
  have hsized : Sized oneByOne.pixels oneByOneMaps := ⟨by decide, by decide⟩
  have htarget : IsTarget oneByOne ⟨1, fun _ => 255⟩ 255 0 := ⟨by decide, rfl⟩
  obtain ⟨mask', maps', hrun, hpixels⟩ := @saneiIrDilate_spec _ ⟨1, fun _ => 255⟩ _ _
    (fun _ => 0) _ hmask hsized (show (-1 : Int) ≠ 0 by decide) rfl
  obtain ⟨d, x, hclosest, hcell⟩ := hpixels 0 (by decide)
  have hzero := hclosest.least 0 htarget
  rw [distance_self] at hzero
  rw [if_pos (by omega)] at hcell
  refine ⟨mask', maps', hrun, hcell, fun hmorphed => ?_⟩
  have hclean := (hmorphed.shrunk (by decide) 0 (by decide)).1
    ⟨0, htarget, by rw [distance_self]; exact Nat.zero_le _⟩
  rw [hcell] at hclean
  cases hclean

end SaneBackends.Sanei
