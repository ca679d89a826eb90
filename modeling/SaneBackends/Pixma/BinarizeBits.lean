import SaneBackends.Pixma.BinarizeLine
/-!
# `pixma_binarize_line`: what the bits depend on

A line that is 80 throughout is divided by zero. Of the others, those that the first window goes beyond
take its sum from what is behind them, and a window that is too wide for its offset takes back what was
overwritten.
-/

namespace SaneBackends.Pixma.BinarizeLine

open Lib

/-! ## Lines that the window fits -/

/-- The line is 80 throughout. -/
def Flat (width : UInt32) (line : Nat → UInt8) : Prop := ∀ x < width.toNat, line x = 80

/-- There is no curve, or the first window is on the line, and what goes out of the window is ahead of
the bits unless the window does not move at all. -/
def WindowFits (width xdpi curve : UInt32) : Prop :=
  let w := windowX xdpi
  curve = 0 ∨ w < width.toNat ∧ (w / 2 < 7 * offsetX w ∨ width.toNat ≤ offsetX w + w)

instance (width xdpi curve : UInt32) : Decidable (WindowFits width xdpi curve) :=
  inferInstanceAs (Decidable (_ ∨ _ ∧ _))

section Fits

variable {sp : ScanParam} {width : UInt32} {dst : Place} {mem : Memory} {line line' : Nat → UInt8}

theorem normalize_error {min max : UInt8} (hdiff : max.toNat - min.toNat = 0) (n : Nat) :
    forTo (n + 1) (normalizePixel min max) mem = .error .divisionByZero := by
  induction n with
  | zero => exact if_pos hdiff
  | succ n ih => rw [forTo_succ, ih, error_bind]

theorem pixmaBinarizeLine_flat (hwidth : 0 < width.toNat) (hflat : Flat width (mem .line)) :
    pixmaBinarizeLine sp dst mem width = .error .divisionByZero := by
  obtain ⟨n, hn⟩ := Nat.exists_eq_succ_of_ne_zero (Nat.ne_of_gt hwidth)
  have hdiff := (flat_iff hwidth).mpr hflat
  rw [hn] at hdiff
  rw [pixmaBinarizeLine, hn, normalize_error hdiff, error_bind]

/-- The bits of a line that is stretched and walked along. -/
theorem pixmaBinarizeLine_run (sp : ScanParam) (dst : Place) (mem : Memory)
    (hwidth : 0 < width.toNat) (hflat : ¬Flat width (mem .line))
    (hapart : ∀ k < width.toNat, Apart sp dst width.toNat k) :
    ∃ out, pixmaBinarizeLine sp dst mem width = .ok out ∧
      ∀ j < width.toNat, outputBit (out.1 dst) j =
        black sp (normalized (mem .line) width.toNat) width.toNat j := by
  obtain ⟨mem', hnormalize, hline⟩ := normalizePixel_run
    (fun h => hflat ((flat_iff hwidth).mp h)) mem width.toNat
  have hmem : mem' .line = normalized (mem .line) width.toNat := funext hline
  obtain ⟨walk, hwalk, hwalked⟩ := walk_run sp dst width.toNat_lt (Nat.le_refl width.toNat) hapart hmem
  refine ⟨(walk.mem, width.toNat / 8), ?_, hwalked.bits⟩
  rw [pixmaBinarizeLine, hnormalize, ok_bind, hmem, hwalk, ok_bind]

/-- The bits are those of the line. -/
theorem black_congr (hfits : WindowFits width sp.xdpi sp.thresholdCurve)
    (h : ∀ x < width.toNat, line x = line' x) {j : Nat} (hj : j < width.toNat) :
    black sp line width.toNat j = black sp line' width.toNat j := by
  rw [black, black, h j hj, thresholdAt, thresholdAt]
  by_cases hcurve : sp.thresholdCurve ≠ 0
  · have hlong := (hfits.resolve_left hcurve).1
    rw [if_pos hcurve, if_pos hcurve, sumAt_congr hlong h]
  · rw [if_neg hcurve, if_neg hcurve]

theorem apart_of_fits (hfits : WindowFits width sp.xdpi sp.thresholdCurve) (k : Nat) :
    Apart sp dst width.toNat k := by
  intro hcurve _ hmoves
  have hodd := (windowX_isWindow sp.xdpi).odd
  have hfrom := hmoves.1
  have hto := hmoves.2.1
  have hroom := (hfits.resolve_left hcurve).2
  omega

theorem sound_of_fits (hwidth : 0 < width.toNat)
    (hfits : WindowFits width sp.xdpi sp.thresholdCurve) (hflat : ¬Flat width line) :
    Sound sp width line := by
  have hrun : ∀ (dst : Place) (mem : Memory), (∀ x < width.toNat, mem .line x = line x) →
      ∃ out, pixmaBinarizeLine sp dst mem width = .ok out ∧
        ∀ j < width.toNat, outputBit (out.1 dst) j =
          black sp (normalized line width.toNat) width.toNat j := by
    intro dst mem hmem
    obtain ⟨out, hout, hbits⟩ := pixmaBinarizeLine_run sp dst mem hwidth
      (fun h => hflat fun x hx => (hmem x hx).symm.trans (h x hx)) fun k _ => apart_of_fits hfits k
    refine ⟨out, hout, fun j hj => (hbits j hj).trans ?_⟩
    exact black_congr hfits (fun x hx => normalized_congr hmem hx) hj
  intro dst dst' mem mem' hmem hmem'
  obtain ⟨out, hout, hbits⟩ := hrun dst mem hmem
  obtain ⟨out', hout', hbits'⟩ := hrun dst' mem' hmem'
  exact ⟨out, out', hout, hout', fun j hj => (hbits j hj).trans (hbits' j hj).symm⟩

end Fits

/-! ## A line on which the window shows

Its first pixel keeps the stretch from changing it. The cells of the first window but the last add up to
one less than its width. -/

/-- White, black up to the start of the window, and then almost black. -/
def probe (w x : Nat) : UInt8 :=
  if x = 0 then 255
  else if x ≤ offsetX w then 0
  else if x ≤ 2 * offsetX w then 2
  else if x ≤ w then 1
  else 0

/-- Only a mean of 1 makes the first pixel black. -/
def probeParam (xdpi curve : UInt32) : ScanParam where
  xdpi
  threshold := 0
  thresholdCurve := curve
  lineartLut i := if i.val = 1 then 255 else 0

section Probe

variable {w x : Nat} {width xdpi curve : UInt32} {line : Nat → UInt8}

theorem lutAt_probe (i : Nat) :
    lutAt (probeParam xdpi curve).lineartLut i = if i = 1 then 255 else 0 := by
  rw [lutAt]
  by_cases hi : i < 256
  · rw [dif_pos hi]
    exact apply_ite UInt8.toNat _ _ _
  · rw [dif_neg hi, if_neg (by omega)]

theorem spanSum_probe (hw : IsWindow w) :
    spanSum (fun x => (probe w x).toNat) (offsetX w) w = w - 1 := by
  have hodd := hw.odd
  have hoffset : offsetX w = 1 + w / 2 / 8 := rfl
  by_cases hone : w = 1
  · subst hone
    rfl
  · have hstart : (probe w (offsetX w)).toNat = 0 := by
      rw [probe, if_neg (by omega), if_pos (Nat.le_refl _)]
      rfl
    have htwos : spanSum (fun x => (probe w x).toNat) (offsetX w + 1) (2 * offsetX w + 1) =
        (2 * offsetX w + 1 - (offsetX w + 1)) * 2 := by
      refine spanSum_of_const fun x hlo hhi => ?_
      rw [probe, if_neg (by omega), if_neg (by omega), if_pos (by omega)]
      rfl
    have hones : spanSum (fun x => (probe w x).toNat) (2 * offsetX w + 1) w =
        (w - (2 * offsetX w + 1)) * 1 := by
      refine spanSum_of_const fun x hlo hhi => ?_
      rw [probe, if_neg (by omega), if_neg (by omega), if_neg (by omega), if_pos (by omega)]
      rfl
    rw [spanSum_drop (by omega), hstart,
      spanSum_split (2 * offsetX w + 1) (by omega) (by omega), htwos, hones]
    omega

/-- A line whose first pixel is white and whose second one, if there is one, is black is not
stretched. -/
theorem normalized_of_white (hwidth : 0 < width.toNat) (hfirst : line 0 = 255)
    (hsecond : 1 < width.toNat → line 1 = 0) : normalized line width.toNat = line := by
  have hmax : safeMax (lineMax line width.toNat) = 255 := by
    have hle : (line 0).toNat ≤ (lineMax line width.toNat).toNat :=
      UInt8.le_iff_toNat_le.mp (le_lineMax hwidth)
    have hlt := (lineMax line width.toNat).toNat_lt
    have h255 : (255 : UInt8).toNat = 255 := rfl
    rw [hfirst] at hle
    rw [← UInt8.toNat_inj, safeMax_toNat, if_neg (by omega)]
    omega
  have hmin : safeMin (lineMin line width.toNat) = 0 := by
    rw [← UInt8.toNat_inj, safeMin_toNat]
    by_cases hone : 1 < width.toNat
    · have hle : (lineMin line width.toNat).toNat ≤ (line 1).toNat :=
        UInt8.le_iff_toNat_le.mp (lineMin_le hone)
      have hzero : (0 : UInt8).toNat = 0 := rfl
      rw [hsecond hone] at hle
      rw [if_neg (by omega)]
      omega
    · have hwidth : width.toNat = 1 := by omega
      have hlast : lineMin line 1 = 255 := by
        rw [lineMin, hfirst]
        rfl
      rw [hwidth, hlast]
      rfl
  funext x
  rw [normalized, hmin, hmax, stretched]
  split_ifs with hx
  · have hsame : ((line x).toNat - (0 : UInt8).toNat) * 255 /
        ((255 : UInt8).toNat - (0 : UInt8).toNat) = (line x).toNat :=
      Nat.mul_div_cancel _ (by decide)
    rw [hsame, UInt8.ofNat_toNat]
  · rfl

theorem probe_one (w : Nat) : probe w 1 = 0 := by
  have hoffset : 1 ≤ offsetX w := Nat.le_add_right 1 _
  rw [probe, if_neg Nat.one_ne_zero, if_pos hoffset]

/-- The first window with its last cell set. -/
theorem prefill_probe (hw : IsWindow w) (last : UInt8) :
    prefill (Function.update (probe w) w last) w = (w - 1 + last.toNat) % 2 ^ 32 := by
  have hodd := hw.odd
  have hoffset : offsetX w ≤ w := by
    rw [offsetX]
    omega
  have hcells : spanSum (fun x => (Function.update (probe w) w last x).toNat) (offsetX w) w =
      w - 1 := by
    rw [← spanSum_probe hw]
    exact spanSum_congr fun x _ hx => by rw [Function.update_of_ne (Nat.ne_of_lt hx)]
  rw [prefill, spanSum_succ hoffset, hcells, Function.update_self]

/-- While the window does not move, its first sum decides. -/
theorem thresholdAt_probe (hcurve : curve ≠ 0) (n k : Nat) (last : UInt8)
    (hstill : ∀ j < k + 1, ¬Moves n (windowX xdpi) j)
    (hline : line = Function.update (probe (windowX xdpi)) (windowX xdpi) last) :
    thresholdAt (probeParam xdpi curve) line n k =
      if (windowX xdpi - 1 + last.toNat) / windowX xdpi = 1 then 255 else 0 := by
  have hw := windowX_isWindow xdpi
  have hlt := hw.lt
  have hbyte := last.toNat_lt
  have hsum : sumAt line n (windowX xdpi) (k + 1) = windowX xdpi - 1 + last.toNat := by
    rw [sumAt_of_still hstill, hline, prefill_probe hw, Nat.mod_eq_of_lt (by omega)]
  have hcurve' : (probeParam xdpi curve).thresholdCurve ≠ 0 := hcurve
  rw [thresholdAt, if_pos hcurve', lutAt_probe]
  exact if_congr (by rw [← hsum]; rfl) rfl rfl

/-- What lies behind the line decides about its first pixel. -/
theorem not_sound_of_short (hwidth : 0 < width.toNat) (hcurve : curve ≠ 0)
    (hshort : width.toNat ≤ windowX xdpi) :
    ¬Sound (probeParam xdpi curve) width (probe (windowX xdpi)) := by
  intro hsound
  have hodd := (windowX_isWindow xdpi).odd
  have hrun : ∀ last : UInt8, ∃ out,
      pixmaBinarizeLine (probeParam xdpi curve) .other
          (fun _ => Function.update (probe (windowX xdpi)) (windowX xdpi) last) width = .ok out ∧
        outputBit (out.1 .other) 0 =
          decide (255 ≤ if (windowX xdpi - 1 + last.toNat) / windowX xdpi = 1 then 255 else 0) := by
    intro last
    have hfirst : Function.update (probe (windowX xdpi)) (windowX xdpi) last 0 = 255 :=
      Function.update_of_ne (by omega) _ _
    have hsame := normalized_of_white hwidth hfirst fun h => by
      rw [Function.update_of_ne (by omega), probe_one]
    obtain ⟨out, hout, hbits⟩ := pixmaBinarizeLine_run (probeParam xdpi curve) .other
      (fun _ => Function.update (probe (windowX xdpi)) (windowX xdpi) last) hwidth
      (fun h => by have h80 := h 0 hwidth; rw [hfirst] at h80; cases h80)
      fun k _ _ hdst => by cases hdst
    have hthreshold := thresholdAt_probe hcurve width.toNat 0 last
      (fun j hj => not_moves_of_lt (by omega))
      (rfl : Function.update (probe (windowX xdpi)) (windowX xdpi) last = _)
    refine ⟨out, hout, (hbits 0 hwidth).trans ?_⟩
    rw [hsame, black, hfirst, hthreshold]
    rfl
  obtain ⟨out, hout, hbit⟩ := hrun 0
  obtain ⟨out', hout', hbit'⟩ := hrun 1
  have hline : ∀ last : UInt8, ∀ x < width.toNat,
      Function.update (probe (windowX xdpi)) (windowX xdpi) last x = probe (windowX xdpi) x :=
    fun last x hx => Function.update_of_ne (Nat.ne_of_lt (Nat.lt_of_lt_of_le hx hshort)) _ _
  obtain ⟨o, o', ho, ho', hsame⟩ := hsound .other .other
    (fun _ => Function.update (probe (windowX xdpi)) (windowX xdpi) 0)
    (fun _ => Function.update (probe (windowX xdpi)) (windowX xdpi) 1) (hline 0) (hline 1)
  have hbits := hsame 0 hwidth
  rw [Except.ok.inj (ho.symm.trans hout), Except.ok.inj (ho'.symm.trans hout'), hbit, hbit'] at hbits
  have hless : (windowX xdpi - 1 + (0 : UInt8).toNat) / windowX xdpi = 0 :=
    Nat.div_eq_of_lt (show windowX xdpi - 1 < windowX xdpi by omega)
  have hmean : (windowX xdpi - 1 + (1 : UInt8).toNat) / windowX xdpi = 1 := by
    rw [show windowX xdpi - 1 + (1 : UInt8).toNat = windowX xdpi from Nat.sub_add_cancel (by omega)]
    exact Nat.div_self (by omega)
  rw [hless, hmean] at hbits
  cases hbits

end Probe

/-! ## A pixel that goes out of the window overwritten -/

section Overwritten

variable {sp : ScanParam} {dst : Place} {n k : Nat} {s s' : Walk}

theorem pixelBit_zero (k : Nat) : pixelBit 0 k = false := by
  rw [pixelBit]
  exact BitVec.getLsbD_zero

/-- A pixel sets its own bit and no other one. -/
theorem binarizePixel_ok (h : binarizePixel sp dst n k s = .ok s') :
    ∃ sum threshold, update sp (s.mem .line) n k s.sum = .ok (sum, threshold) ∧
      ∀ j, outputBit (s'.mem dst) j =
        if j = k then decide ¬threshold < (s.mem .line k).toNat else outputBit (s.mem dst) j := by
  obtain ⟨⟨sum, threshold⟩, hupdate, hstore⟩ := bind_eq_ok.mp h
  refine ⟨sum, threshold, hupdate, fun j => ?_⟩
  rw [← Except.ok.inj hstore]
  dsimp only [Memory.store]
  rw [Function.update_self, outputBit_store]

/-- A bit that is written stays. -/
theorem walk_keeps {m : Nat} (h : forTo m (fun i => binarizePixel sp dst n (k + 1 + i)) s = .ok s') :
    outputBit (s'.mem dst) k = outputBit (s.mem dst) k := by
  refine forTo_ok (I := fun _ t => outputBit (t.mem dst) k = outputBit (s.mem dst) k) h rfl
    fun i _ t t' hkeep hpass => ?_
  obtain ⟨_, _, _, hbits⟩ := binarizePixel_ok hpass
  rw [hbits k, if_neg (by omega)]
  exact hkeep

/-- The bit of a pixel in a walk that does not fail. -/
theorem walk_bit {mem : Memory} {sum : Nat} {walk : Walk} (hk : k < n)
    (hbefore : forTo k (binarizePixel sp dst n) { mem, sum } = .ok s)
    (hall : forTo n (binarizePixel sp dst n) { mem, sum } = .ok walk) :
    ∃ sum threshold, update sp (s.mem .line) n k s.sum = .ok (sum, threshold) ∧
      outputBit (walk.mem dst) k = decide ¬threshold < (s.mem .line k).toNat := by
  have hn : n = k + 1 + (n - (k + 1)) := by omega
  rw [hn, forTo_add, forTo_succ, ← hn, hbefore, ok_bind] at hall
  obtain ⟨s₁, hpass, hrest⟩ := bind_eq_ok.mp hall
  obtain ⟨sum', threshold, hupdate, hbits⟩ := binarizePixel_ok hpass
  refine ⟨sum', threshold, hupdate, ?_⟩
  rw [walk_keeps hrest, hbits k, if_pos rfl]

variable {width xdpi curve : UInt32} {w : Nat}

theorem probe_last (hwide : 7 * offsetX w ≤ w / 2) : probe w w = 1 := by
  have hoffset : offsetX w = 1 + w / 2 / 8 := rfl
  rw [probe, if_neg (by omega), if_neg (by omega), if_neg (by omega), if_pos (Nat.le_refl w)]

/-- The pixel at which the window is moved first. -/
theorem probe_first_move (hwide : 7 * offsetX w ≤ w / 2) : probe w (w / 2 + 1 + offsetX w) = 1 := by
  have hoffset : offsetX w = 1 + w / 2 / 8 := rfl
  rw [probe, if_neg (by omega), if_neg (by omega), if_neg (by omega), if_pos (by omega)]

theorem probe_offset (w : Nat) : probe w (offsetX w) = 0 := by
  have hoffset : offsetX w = 1 + w / 2 / 8 := rfl
  rw [probe, if_neg (by omega), if_pos (Nat.le_refl _)]

theorem probe_behind (hwide : 7 * offsetX w ≤ w / 2) : probe w (offsetX w + w) = 0 := by
  have hoffset : offsetX w = 1 + w / 2 / 8 := rfl
  rw [probe, if_neg (by omega), if_neg (by omega), if_neg (by omega), if_neg (by omega)]

theorem prefill_probe_self (hw : IsWindow w) (hwide : 7 * offsetX w ≤ w / 2) :
    prefill (probe w) w = w := by
  have hodd := hw.odd
  have hlt := hw.lt
  have hself : Function.update (probe w) w 1 = probe w := by
    rw [← probe_last hwide, Function.update_eq_self]
  have hsum := prefill_probe hw 1
  have hone : (1 : UInt8).toNat = 1 := rfl
  rw [hself, Nat.mod_eq_of_lt (by omega)] at hsum
  omega

theorem moves_first (hw : IsWindow w) (hlong : offsetX w + w < n) :
    Moves n w (w / 2 + 1 + offsetX w) := by
  have hodd := hw.odd
  have hlt := hw.lt
  have hoffset : offsetX w = 1 + w / 2 / 8 := rfl
  exact ⟨Nat.le_refl _, by omega, by omega⟩

/-- A first move in which a black pixel comes in. -/
theorem movedSum_first {src : Nat → UInt8} (hw : IsWindow w) (hbehind : src (offsetX w + w) = 0) :
    movedSum src w (w / 2 + 1 + offsetX w) w = w - (src (offsetX w)).toNat := by
  have hodd := hw.odd
  have hlt := hw.lt
  have hadd : w / 2 + 1 + offsetX w + w / 2 = offsetX w + w := by omega
  have hdrop : w / 2 + 1 + offsetX w - w / 2 - 1 = offsetX w := by omega
  have hzero : (0 : UInt8).toNat = 0 := rfl
  rw [movedSum, hadd, hdrop, hbehind, hzero, Nat.add_zero, Nat.mod_eq_of_lt (by omega)]

/-- At the first move nothing changes, since a black pixel comes in and one goes out. -/
theorem threshold_first_move (hcurve : curve ≠ 0)
    (hwide : 7 * offsetX (windowX xdpi) ≤ windowX xdpi / 2)
    (hlong : offsetX (windowX xdpi) + windowX xdpi < n) :
    thresholdAt (probeParam xdpi curve) (probe (windowX xdpi)) n
      (windowX xdpi / 2 + 1 + offsetX (windowX xdpi)) = 255 := by
  have hw := windowX_isWindow xdpi
  have hodd := hw.odd
  have hcurve' : (probeParam xdpi curve).thresholdCurve ≠ 0 := hcurve
  have hsum : sumAt (probe (windowX xdpi)) n (windowX xdpi)
      (windowX xdpi / 2 + 1 + offsetX (windowX xdpi) + 1) = windowX xdpi := by
    rw [sumAt, if_pos (moves_first hw hlong), sumAt_of_still fun j hj => not_moves_of_lt hj,
      prefill_probe_self hw hwide, movedSum_first hw (probe_behind hwide), probe_offset]
    rfl
  have hmean : sumAt (probe (windowX xdpi)) n (windowX xdpi)
      (windowX xdpi / 2 + 1 + offsetX (windowX xdpi) + 1) / windowX xdpi = 1 := by
    rw [hsum]
    exact Nat.div_self (by omega)
  rw [thresholdAt, if_pos hcurve', lutAt_probe]
  exact if_pos hmean

/-- A white first pixel, so that the probe is not flat. -/
theorem not_flat_probe (hwidth : 0 < width.toNat) : ¬Flat width (probe w) := by
  intro hflat
  have h80 := hflat 0 hwidth
  cases h80

/-- In place the first pixel that goes out of the window is no longer black, and less of a sum is left
than without it. -/
theorem update_overwritten (hcurve : curve ≠ 0)
    (hwide : 7 * offsetX (windowX xdpi) ≤ windowX xdpi / 2) (hn : n < 2 ^ 32)
    (hlong : offsetX (windowX xdpi) + windowX xdpi < n)
    (h : Walked (probeParam xdpi curve) .line (probe (windowX xdpi)) n
      (windowX xdpi / 2 + 1 + offsetX (windowX xdpi)) s) :
    ∃ sum, update (probeParam xdpi curve) (s.mem .line) n
      (windowX xdpi / 2 + 1 + offsetX (windowX xdpi)) s.sum = .ok (sum, 0) := by
  have hw := windowX_isWindow xdpi
  have hodd := hw.odd
  have hcurve' : (probeParam xdpi curve).thresholdCurve ≠ 0 := hcurve
  have hfirst := moves_first hw hlong
  have hself : probe (windowX xdpi) = Function.update (probe (windowX xdpi)) (windowX xdpi) 1 := by
    rw [← probe_last hwide, Function.update_eq_self]
  have hblack : black (probeParam xdpi curve) (probe (windowX xdpi)) n
      (8 * offsetX (windowX xdpi)) = true := by
    have hmean : (windowX xdpi - 1 + (1 : UInt8).toNat) / windowX xdpi = 1 := by
      have hone : (1 : UInt8).toNat = 1 := rfl
      rw [hone, Nat.sub_add_cancel (by omega)]
      exact Nat.div_self (by omega)
    rw [black, thresholdAt_probe hcurve _ _ _ (fun j hj => not_moves_of_lt (by omega)) hself, if_pos hmean]
    exact decide_eq_true (Nat.le_of_lt_succ (UInt8.toNat_lt _))
  have hset : 0 < (s.mem .line (offsetX (windowX xdpi))).toNat := by
    have hbit := h.bits (8 * offsetX (windowX xdpi)) (by omega)
    rw [hblack, outputBit, Nat.mul_div_cancel_left _ (by decide), Nat.mul_mod_right] at hbit
    by_contra hzero
    have hbyte : s.mem .line (offsetX (windowX xdpi)) = 0 :=
      UInt8.toNat_inj.mp (Nat.eq_zero_of_not_pos hzero)
    rw [hbyte, pixelBit_zero] at hbit
    cases hbit
  have hstart : s.sum = windowX xdpi := by
    have hstill : sumAt (probe (windowX xdpi)) n (windowX xdpi)
        (windowX xdpi / 2 + 1 + offsetX (windowX xdpi)) = _ :=
      sumAt_of_still fun j hj => not_moves_of_lt hj
    exact (h.sum hcurve').trans (hstill.trans (prefill_probe_self hw hwide))
  have hbehind : s.mem .line (offsetX (windowX xdpi) + windowX xdpi) = 0 := by
    rw [h.line _ fun _ => by omega, probe_behind hwide]
  have hsum : moveSum (s.mem .line) n (windowX xdpi)
      (windowX xdpi / 2 + 1 + offsetX (windowX xdpi)) s.sum =
        windowX xdpi - (s.mem .line (offsetX (windowX xdpi))).toNat := by
    rw [moveSum_eq hw hn (by omega), if_pos hfirst, hstart, movedSum_first hw hbehind]
  have hindex : (windowX xdpi - (s.mem .line (offsetX (windowX xdpi))).toNat) / windowX xdpi = 0 :=
    Nat.div_eq_of_lt (by omega)
  have hindex' : moveSum (s.mem .line) n (windowX (probeParam xdpi curve).xdpi)
      (windowX xdpi / 2 + 1 + offsetX (windowX xdpi)) s.sum /
        windowX (probeParam xdpi curve).xdpi = 0 := by
    rw [probeParam, hsum, hindex]
  have hupdate := update_eq hcurve' (Nat.lt_of_le_of_lt (Nat.le_of_eq hindex') (by decide))
  rw [lutAt_probe, hindex', if_neg Nat.zero_ne_one] at hupdate
  exact ⟨_, hupdate⟩

/-- In place the first move makes a pixel white that is black elsewhere. -/
theorem not_sound_of_overwritten (hcurve : curve ≠ 0)
    (hwide : 7 * offsetX (windowX xdpi) ≤ windowX xdpi / 2)
    (hlong : offsetX (windowX xdpi) + windowX xdpi < width.toNat) :
    ¬Sound (probeParam xdpi curve) width (probe (windowX xdpi)) := by
  intro hsound
  have hw := windowX_isWindow xdpi
  have hodd := hw.odd
  have hwidth : 0 < width.toNat := by omega
  have hk : windowX xdpi / 2 + 1 + offsetX (windowX xdpi) < width.toNat := by omega
  have hflat := not_flat_probe (w := windowX xdpi) hwidth
  have hsame : normalized (probe (windowX xdpi)) width.toNat = _ :=
    normalized_of_white hwidth rfl fun _ => probe_one _
  obtain ⟨out, out', hout, hout', hbits⟩ := hsound .other .line (fun _ => probe (windowX xdpi))
    (fun _ => probe (windowX xdpi)) (fun _ _ => rfl) fun _ _ => rfl
  -- Elsewhere the pixel is black.
  obtain ⟨o, ho, helsewhere⟩ := pixmaBinarizeLine_run (probeParam xdpi curve) .other
    (fun _ => probe (windowX xdpi)) hwidth hflat
    fun k _ _ hdst => by cases hdst
  have hblack := helsewhere _ hk
  rw [hsame, black, threshold_first_move hcurve hwide hlong, Except.ok.inj (ho.symm.trans hout),
    decide_eq_true (Nat.le_of_lt_succ (UInt8.toNat_lt _))] at hblack
  -- In place it is white.
  obtain ⟨mem, hnormalize, hline⟩ := normalizePixel_run
    (fun h => hflat ((flat_iff hwidth).mp h)) (fun _ => probe (windowX xdpi)) width.toNat
  have hmem : mem .line = probe (windowX xdpi) := (funext hline).trans hsame
  obtain ⟨s, hbefore, hwalked⟩ := walk_run (probeParam xdpi curve) .line width.toNat_lt (Nat.le_of_lt hk)
    (fun k hk _ _ hmoves => absurd hmoves (not_moves_of_lt hk)) hmem
  rw [pixmaBinarizeLine, hnormalize, ok_bind, hmem] at hout'
  obtain ⟨walk, hwalk, hend⟩ := bind_eq_ok.mp hout'
  obtain ⟨sum, threshold, hupdate, hbit⟩ := walk_bit hk hbefore hwalk
  obtain ⟨sum', hupdate'⟩ := update_overwritten hcurve hwide width.toNat_lt hlong hwalked
  have hzero : threshold = 0 :=
    congrArg Prod.snd (Except.ok.inj (hupdate.symm.trans hupdate'))
  have hpixel := hwalked.line (windowX xdpi / 2 + 1 + offsetX (windowX xdpi)) fun _ => by omega
  rw [hpixel, probe_first_move hwide, hzero] at hbit
  have hwhite := hbits _ hk
  rw [hblack, ← Except.ok.inj hend, hbit] at hwhite
  cases hwhite

end Overwritten

/-- Lines that are 80 throughout fail. For all others the bits are those of the line, wherever they go,
exactly when the window fits. -/
theorem pixmaBinarizeLine_sound_iff (width xdpi curve : UInt32) (hwidth : 0 < width.toNat) :
    (∀ threshold lut line, Flat width line → ¬Sound ⟨xdpi, threshold, curve, lut⟩ width line) ∧
      ((∀ threshold lut line, ¬Flat width line → Sound ⟨xdpi, threshold, curve, lut⟩ width line) ↔
        WindowFits width xdpi curve) := by
  constructor
  · intro threshold lut line hflat hsound
    obtain ⟨out, -, hout, -⟩ := hsound .other .other (fun _ => line) (fun _ => line)
      (fun _ _ => rfl) fun _ _ => rfl
    rw [pixmaBinarizeLine_flat hwidth hflat] at hout
    cases hout
  · constructor
    · intro hsound
      by_contra hfits
      have hprobe := hsound 0 (fun i => if i.val = 1 then 255 else 0) (probe (windowX xdpi))
        (not_flat_probe hwidth)
      rw [WindowFits, not_or, not_and_or] at hfits
      obtain ⟨hcurve, hfits⟩ := hfits
      cases hfits with
      | inl hshort => exact not_sound_of_short hwidth hcurve (Nat.not_lt.mp hshort) hprobe
      | inr hroom =>
          rw [not_or, Nat.not_lt, Nat.not_le] at hroom
          exact not_sound_of_overwritten hcurve hroom.1 hroom.2 hprobe
    · intro hfits threshold lut line hflat
      exact sound_of_fits hwidth hfits hflat

theorem pixmaBinarizeLine_sound_iff_a4 :
    WindowFits 2480 300 127 ∧
      ∀ threshold lut line, ¬Flat 2480 line → Sound ⟨300, threshold, 127, lut⟩ 2480 line :=
  ⟨by decide, (pixmaBinarizeLine_sound_iff 2480 300 127 (by decide)).2.mpr (by decide)⟩

/-- A pixel of 80. -/
theorem not_sound_flat :
    ¬Sound { xdpi := 300, threshold := 127, thresholdCurve := 127, lineartLut := fun _ => 127 } 1
      fun _ => 80 := by
  intro hsound
  obtain ⟨out, -, hout, -⟩ := hsound .other .other (fun _ _ => 80) (fun _ _ => 80)
    (fun _ _ => rfl) fun _ _ => rfl
  rw [pixmaBinarizeLine_flat (by decide) fun _ _ => rfl] at hout
  cases hout

end SaneBackends.Pixma.BinarizeLine
