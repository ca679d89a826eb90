import Mathlib.Data.Finset.Lattice.Fold
import SaneBackends.Lib.CInt
import SaneBackends.Sanei.Image
import SaneBackends.Sanei.Types
/-!
# Spectral cleaning

`sanei_ir_spectral_clean` samples pixels at random until it has seen enough bright ones, fits a
line through them and subtracts it from the infrared image. The arithmetic of `double` is a
parameter, as are the answers of `malloc`, of `rand` and of the three threshold functions. The
sampling loop is followed for a number of passes.
-/

namespace SaneBackends.Sanei

open SaneBackends.Lib

/-! ## The code -/

/-- What is done with a `double`. -/
structure Doubles (δ : Type) where
  ofInt : Int → δ
  toInt : δ → Int
  toUint : δ → UInt16
  add : δ → δ → δ
  sub : δ → δ → δ
  mul : δ → δ → δ
  div : δ → δ → δ
  half : δ
  log : δ → δ

def sampleSize : Nat := 40000

/-- What the functions called before the sampling loop answer: the contents of the new buffers,
whether there is a histogram, and the thresholds. -/
structure CleanCalls (δ : Type) where
  calcBuf : Option (Nat → Int)
  table : Option (Nat → δ)
  histogram : Bool
  maxentropy : Option Int
  otsu : Option Int
  yen : Option Int

variable {δ : Type}

def saneiIrLnTable (D : Doubles δ) (malloc : Option (Nat → δ)) (len : Nat) :
    Except CellFault (Option (Cells δ)) :=
  match malloc with
  | none => .ok none
  | some contents => do
      let llut ← Cells.store { size := len, cell := contents } 0 (D.ofInt 0)
      let llut ← llut.store 1 (D.ofInt 0)
      let llut ← forTo (len - 2) (fun k llut =>
        llut.store (k + 2) (D.log (D.ofInt (k + 2)))) llut
      .ok (some llut)

/-- The threshold of a function that succeeds, if it is a lower one. -/
def lowerThreshold (answer : Option Int) (threshLow : Int) : Int :=
  match answer with
  | some thresh => if thresh < threshLow then thresh else threshLow
  | none => threshLow

def CleanCalls.threshLow (calls : CleanCalls δ) : Int :=
  let least := lowerThreshold calls.yen (lowerThreshold calls.otsu (calls.maxentropy.getD intMax))
  if least = intMax then 0 else least.tdiv 2

/-- How many samples are to be collected. -/
def ssize (itop : Nat) : Nat := if sampleSize < itop / 2 then sampleSize else itop / 2

/-- The sums, and `i`, the number of samples still to collect. -/
structure SampleState (δ : Type) where
  isum : Int
  rsum : δ
  rrsum : δ
  risum : δ
  left : Nat

/-- The loop ends when nothing is left to collect. -/
def samplePass (D : Doubles δ) (itop : Nat) (llut : Cells δ) (redData irData : Cells UInt16)
    (threshLow : Int) (rand : Nat) (st : SampleState δ) : Except CellFault (SampleState δ) :=
  if 0 < st.left then
    if itop = 0 then .error .divisionByZero
    else do
      let irand := rand % itop
      let red ← redData.load irand
      let rval ← llut.load red.toNat
      let ival ← irData.load irand
      if threshLow < ival.toNat then
        .ok {
          isum := st.isum + ival.toNat
          rsum := D.add st.rsum rval
          rrsum := D.add st.rrsum (D.mul rval rval)
          risum := D.add st.risum (D.mul rval (D.ofInt ival.toNat))
          left := st.left - 1 }
      else .ok st
  else .ok st

def sampleLoop (D : Doubles δ) (itop : Nat) (llut : Cells δ) (redData irData : Cells UInt16)
    (threshLow : Int) (rand : Nat → Nat) (passes : Nat) (st : SampleState δ) :
    Except CellFault (SampleState δ) :=
  forTo passes (fun k => samplePass D itop llut redData irData threshLow (rand k)) st

def SampleState.start (D : Doubles δ) (itop : Nat) : SampleState δ where
  isum := 0
  rsum := D.ofInt 0
  rrsum := D.ofInt 0
  risum := D.ofInt 0
  left := ssize itop

/-- `rfac`, the slope of the regression. -/
def SampleState.slope (D : Doubles δ) (itop : Nat) (st : SampleState δ) : δ :=
  D.div
    (D.sub (D.mul (D.ofInt (ssize itop)) st.risum) (D.mul st.rsum (D.ofInt st.isum)))
    (D.sub (D.mul (D.ofInt (ssize itop)) st.rrsum) (D.mul st.rsum st.rsum))

structure CalcState where
  calcBuf : Cells Int
  imin : Int
  imax : Int

/-- `*calc_ptr++ = *iptr++ - (int) (rfac * llut[*rptr++] + 0.5)`. -/
def calcPass (D : Doubles δ) (llut : Cells δ) (redData irData : Cells UInt16) (rfac : δ)
    (k : Nat) (st : CalcState) : Except CellFault CalcState := do
  let sample ← irData.load k
  let red ← redData.load k
  let rval ← llut.load red.toNat
  let ival := sample.toNat - D.toInt (D.add (D.mul rfac rval) D.half)
  let calcBuf ← st.calcBuf.store k ival
  .ok {
    calcBuf
    imin := if ival < st.imin then ival else st.imin
    imax := if st.imax < ival then ival else st.imax }

/-- `*iptr++ = (double) (*calc_ptr++ - imin) * rfac`. -/
def scalePass (D : Doubles δ) (st : CalcState) (rfac : δ) (k : Nat) (irData : Cells UInt16) :
    Except CellFault (Cells UInt16) := do
  let ival ← st.calcBuf.load k
  irData.store k (D.toUint (D.mul (D.ofInt (ival - st.imin)) rfac))

/-- From the sampling loop on. `none` if it has not ended after so many passes. -/
def cleanWith (D : Doubles δ) (params : ImageParams) (threshLow : Int) (contents : Nat → Int)
    (llut : Cells δ) (redData irData : Cells UInt16) (rand : Nat → Nat) (passes : Nat) :
    Except CellFault (Option (SaneStatus × Cells UInt16)) := do
  let itop := params.pixels
  let st ← sampleLoop D itop llut redData irData threshLow rand passes (.start D itop)
  if 0 < st.left then .ok none
  else do
    let cleaned ← forTo itop (calcPass D llut redData irData (st.slope D itop))
      { calcBuf := { size := itop, cell := contents }, imin := intMax, imax := -(intMax : Int) - 1 }
    let rfac := D.div (D.ofInt (2 ^ params.depth - 1)) (D.ofInt (cleaned.imax - cleaned.imin))
    let irData ← forTo itop (scalePass D cleaned rfac) irData
    .ok (some (.good, irData))

def logTable (D : Doubles δ) (calls : CleanCalls δ) (params : ImageParams)
    (lutLn : Option (Cells δ)) : Except CellFault (Option (Cells δ)) :=
  match lutLn with
  | some llut => .ok (some llut)
  | none => saneiIrLnTable D calls.table (2 ^ params.depth)

def saneiIrSpectralClean (D : Doubles δ) (calls : CleanCalls δ) (params : ImageParams)
    (lutLn : Option (Cells δ)) (redData irData : Cells UInt16) (rand : Nat → Nat)
    (passes : Nat) : Except CellFault (Option (SaneStatus × Cells UInt16)) :=
  match calls.calcBuf with
  | none => .ok (some (.noMem, irData))
  | some contents => do
      match ← logTable D calls params lutLn with
      | none => .ok (some (.noMem, irData))
      | some llut =>
          if calls.histogram then
            cleanWith D params calls.threshLow contents llut redData irData rand passes
          else .ok (some (.noMem, irData))

/-! ## What is to hold -/

/-- The calls before the sampling loop succeed. -/
def CleanCalls.Enters (calls : CleanCalls δ) (lutLn : Option (Cells δ)) : Prop :=
  calls.calcBuf ≠ none ∧ (lutLn ≠ none ∨ calls.table ≠ none) ∧ calls.histogram = true

/-- There is a pixel the sampling loop counts, if it has to, and no index is out of bounds. -/
structure CleanEnds (D : Doubles δ) (calls : CleanCalls δ) (params : ImageParams)
    (lutLn : Option (Cells δ)) (redData irData : Cells UInt16) : Prop where
  accepts : calls.Enters lutLn → 0 < ssize params.pixels →
    ∃ p < params.pixels, calls.threshLow < (irData.cell p).toNat
  safe : ∀ rand passes, ∃ result,
    saneiIrSpectralClean D calls params lutLn redData irData rand passes = .ok result

def largestSample (irData : Cells UInt16) (itop : Nat) : Nat :=
  (Finset.range itop).sup fun p => (irData.cell p).toNat

/-- A threshold is one of the brightnesses of the image. -/
structure CleanCalls.InRange (calls : CleanCalls δ) (irData : Cells UInt16) (itop : Nat) :
    Prop where
  maxentropy : ∀ thresh, calls.maxentropy = some thresh →
    0 ≤ thresh ∧ thresh ≤ largestSample irData itop
  otsu : ∀ thresh, calls.otsu = some thresh →
    0 ≤ thresh ∧ thresh ≤ largestSample irData itop
  yen : ∀ thresh, calls.yen = some thresh →
    0 ≤ thresh ∧ thresh ≤ largestSample irData itop

/-- The images have their pixels, the red one no sample from `2 ^ depth` on, and a table that is
given has an entry for each value. -/
structure CleanInput (params : ImageParams) (lutLn : Option (Cells δ))
    (redData irData : Cells UInt16) : Prop where
  depth : 0 < params.depth
  redSize : redData.size = params.pixels
  irSize : irData.size = params.pixels
  red : ∀ p < params.pixels, (redData.cell p).toNat < 2 ^ params.depth
  ir : ∀ p < params.pixels, (irData.cell p).toNat < 2 ^ params.depth
  table : ∀ llut, lutLn = some llut → llut.size = 2 ^ params.depth

variable {D : Doubles δ} {calls : CleanCalls δ} {params : ImageParams} {lutLn : Option (Cells δ)}
  {redData irData : Cells UInt16} {llut : Cells δ} {itop : Nat} {threshLow : Int}
  {st : SampleState δ}

/-! ## The threshold -/

theorem ssize_pos_iff : 0 < ssize itop ↔ 2 ≤ itop := by
  rw [ssize, sampleSize]
  split_ifs <;> omega

/-- The least of the thresholds, if there is one. -/
theorem lowerThreshold_range {answer : Option Int} {bound : Int}
    (hanswer : ∀ thresh, answer = some thresh → 0 ≤ thresh ∧ thresh ≤ bound) {least : Int}
    (hleast : least = intMax ∨ 0 ≤ least ∧ least ≤ bound) :
    lowerThreshold answer least = intMax ∨
      0 ≤ lowerThreshold answer least ∧ lowerThreshold answer least ≤ bound := by
  cases answer with
  | none => exact hleast
  | some thresh =>
      obtain ⟨hpos, hle⟩ := hanswer thresh rfl
      rw [lowerThreshold]
      split_ifs
      · exact .inr ⟨hpos, hle⟩
      · exact hleast

/-- The low threshold is no more than half of the largest sample. -/
theorem threshLow_range (hrange : calls.InRange irData itop) :
    0 ≤ calls.threshLow ∧ calls.threshLow ≤ largestSample irData itop / 2 := by
  have hfirst : calls.maxentropy.getD intMax = intMax ∨
      0 ≤ calls.maxentropy.getD intMax ∧
        calls.maxentropy.getD intMax ≤ largestSample irData itop := by
    cases hanswer : calls.maxentropy with
    | none => exact .inl rfl
    | some thresh => exact .inr (hrange.maxentropy thresh hanswer)
  have hleast := lowerThreshold_range hrange.yen (lowerThreshold_range hrange.otsu hfirst)
  rw [CleanCalls.threshLow]
  generalize lowerThreshold calls.yen (lowerThreshold calls.otsu
    (calls.maxentropy.getD intMax)) = least at hleast
  split_ifs with hnone
  · exact ⟨Int.le_refl 0, by omega⟩
  · obtain ⟨hpos, hle⟩ := hleast.resolve_left hnone
    rw [Int.tdiv_eq_ediv_of_nonneg hpos]
    omega

/-- Some pixel is brighter than the low threshold just if some is not black. -/
theorem exists_brighter_iff (hrange : calls.InRange irData itop) :
    (∃ p < itop, calls.threshLow < (irData.cell p).toNat) ↔
      ∃ p < itop, 0 < (irData.cell p).toNat := by
  obtain ⟨hlow, hhigh⟩ := threshLow_range hrange
  constructor
  · rintro ⟨p, hp, hbright⟩
    exact ⟨p, hp, by omega⟩
  · rintro ⟨p, hp, hbright⟩
    obtain ⟨q, hq, hmax⟩ := Finset.exists_mem_eq_sup (Finset.range itop)
      ⟨p, Finset.mem_range.mpr hp⟩ fun p => (irData.cell p).toNat
    have hle : (irData.cell p).toNat ≤ largestSample irData itop :=
      Finset.le_sup (f := fun p => (irData.cell p).toNat) (Finset.mem_range.mpr hp)
    change largestSample irData itop = (irData.cell q).toNat at hmax
    exact ⟨q, Finset.mem_range.mp hq, by omega⟩

/-! ## The sampling loop -/

/-- What the loop reads is there. -/
structure SampleInput (itop : Nat) (llut : Cells δ) (redData irData : Cells UInt16) : Prop where
  redSize : redData.size = itop
  irSize : irData.size = itop
  table : ∀ p < itop, (redData.cell p).toNat < llut.size

theorem samplePass_eq (hin : SampleInput itop llut redData irData) (hpos : 0 < itop)
    (rand : Nat) (hleft : 0 < st.left) :
    samplePass D itop llut redData irData threshLow rand st =
      .ok (if threshLow < (irData.cell (rand % itop)).toNat then {
        isum := st.isum + (irData.cell (rand % itop)).toNat
        rsum := D.add st.rsum (llut.cell (redData.cell (rand % itop)).toNat)
        rrsum := D.add st.rrsum (D.mul (llut.cell (redData.cell (rand % itop)).toNat)
          (llut.cell (redData.cell (rand % itop)).toNat))
        risum := D.add st.risum (D.mul (llut.cell (redData.cell (rand % itop)).toNat)
          (D.ofInt (irData.cell (rand % itop)).toNat))
        left := st.left - 1 } else st) := by
  have hrand : rand % itop < itop := Nat.mod_lt _ hpos
  have hred : rand % itop < redData.size := hin.redSize ▸ hrand
  have hir : rand % itop < irData.size := hin.irSize ▸ hrand
  rw [samplePass, if_pos hleft, if_neg hpos.ne']
  dsimp only
  rw [Cells.load_eq hred, ok_bind, Cells.load_eq (hin.table _ hrand), ok_bind,
    Cells.load_eq hir, ok_bind, apply_ite Except.ok]

theorem samplePass_done {rand : Nat} (hleft : st.left = 0) :
    samplePass D itop llut redData irData threshLow rand st = .ok st :=
  if_neg (by omega)

theorem samplePass_ok (D : Doubles δ) (threshLow : Int) (st : SampleState δ)
    (hin : SampleInput itop llut redData irData) (hpos : 0 < st.left → 0 < itop) (rand : Nat) :
    ∃ st', samplePass D itop llut redData irData threshLow rand st = .ok st' ∧
      st'.left = if threshLow < (irData.cell (rand % itop)).toNat then st.left - 1
        else st.left := by
  rcases Nat.eq_zero_or_pos st.left with hdone | hleft
  · refine ⟨st, samplePass_done hdone, ?_⟩
    rw [hdone, Nat.zero_sub, ite_self]
  · refine ⟨_, samplePass_eq hin (hpos hleft) rand hleft, ?_⟩
    split_ifs <;> rfl

theorem sampleLoop_ok (D : Doubles δ) (threshLow : Int) (st : SampleState δ)
    (hin : SampleInput itop llut redData irData) (hpos : 0 < st.left → 0 < itop)
    (rand : Nat → Nat) (passes : Nat) : ∃ st',
      sampleLoop D itop llut redData irData threshLow rand passes st = .ok st' ∧
        st'.left ≤ st.left := by
  refine forTo_invariant (I := fun _ (st' : SampleState δ) => st'.left ≤ st.left)
    (Nat.le_refl _) ?_
  intro k _ st' hle
  obtain ⟨st₁, hpass, hleft⟩ := samplePass_ok D threshLow st' hin
    (fun hleft => hpos (by omega)) (rand k)
  refine ⟨st₁, hpass, ?_⟩
  rw [hleft]
  split_ifs <;> omega

/-! ## The other loops -/

theorem lnTable_size (contents : Nat → δ) {len : Nat} (hlen : 2 ≤ len) :
    ∃ llut, saneiIrLnTable D (some contents) len = .ok (some llut) ∧ llut.size = len := by
  obtain ⟨llut, hfill, hsize⟩ : ∃ llut, forTo (len - 2)
      (fun k llut => Cells.store llut (k + 2) (D.log (D.ofInt (k + 2))))
      ((Cells.put { size := len, cell := contents } 0 (D.ofInt 0)).put 1 (D.ofInt 0)) =
        .ok llut ∧ llut.size = len :=
    forTo_invariant (I := fun _ (llut : Cells δ) => llut.size = len) rfl
      fun k hk llut hsize => ⟨_, Cells.store_eq (by omega) _, hsize⟩
  refine ⟨llut, ?_, hsize⟩
  rw [saneiIrLnTable, Cells.store_eq (by dsimp only; omega), ok_bind,
    Cells.store_eq (by dsimp only [Cells.size_put]; omega), ok_bind, hfill, ok_bind]

theorem calcLoop_ok (hin : SampleInput itop llut redData irData) (rfac : δ)
    (contents : Nat → Int) (imin imax : Int) : ∃ st,
      forTo itop (calcPass D llut redData irData rfac)
        { calcBuf := { size := itop, cell := contents }, imin, imax } = .ok st ∧
        st.calcBuf.size = itop := by
  refine forTo_invariant (I := fun _ (st : CalcState) => st.calcBuf.size = itop) rfl ?_
  intro k hk st hsize
  rw [calcPass, Cells.load_eq (hin.irSize ▸ hk), ok_bind, Cells.load_eq (hin.redSize ▸ hk),
    ok_bind, Cells.load_eq (hin.table k hk), ok_bind]
  dsimp only
  rw [Cells.store_eq (hsize ▸ hk), ok_bind]
  exact ⟨_, rfl, hsize⟩

theorem scaleLoop_ok {cleaned : CalcState} (hcleaned : cleaned.calcBuf.size = itop)
    (hir : irData.size = itop) (rfac : δ) : ∃ irData',
      forTo itop (scalePass D cleaned rfac) irData = .ok irData' ∧ irData'.size = itop := by
  refine forTo_invariant (I := fun _ (irData : Cells UInt16) => irData.size = itop) hir ?_
  intro k hk irData hsize
  rw [scalePass, Cells.load_eq (hcleaned ▸ hk), ok_bind, Cells.store_eq (hsize ▸ hk)]
  exact ⟨_, rfl, hsize⟩

/-! ## The function -/

theorem cleanWith_ok (hin : SampleInput params.pixels llut redData irData)
    (contents : Nat → Int) (rand : Nat → Nat) (passes : Nat) : ∃ result,
      cleanWith D params threshLow contents llut redData irData rand passes = .ok result := by
  have hpos : 0 < ssize params.pixels → 0 < params.pixels := fun h => by
    have htwo := ssize_pos_iff.mp h
    omega
  obtain ⟨st, hsample, -⟩ := sampleLoop_ok D threshLow
    (.start D params.pixels) hin hpos rand passes
  rw [cleanWith]
  dsimp only
  rw [hsample, ok_bind]
  split_ifs
  · exact ⟨none, rfl⟩
  · obtain ⟨cleaned, hcalc, hsize⟩ := calcLoop_ok (D := D) hin (st.slope D params.pixels) contents
      intMax (-(intMax : Int) - 1)
    obtain ⟨irData', hscale, -⟩ := scaleLoop_ok (D := D) hsize hin.irSize
      (D.div (D.ofInt (2 ^ params.depth - 1)) (D.ofInt (cleaned.imax - cleaned.imin)))
    rw [hcalc, ok_bind, hscale]
    exact ⟨_, rfl⟩

theorem logTable_ok (D : Doubles δ) (calls : CleanCalls δ)
    (hin : CleanInput params lutLn redData irData) :
    ∃ answer, logTable D calls params lutLn = .ok answer ∧
      ∀ llut, answer = some llut → llut.size = 2 ^ params.depth := by
  cases lutLn with
  | some llut => exact ⟨some llut, rfl, hin.table⟩
  | none =>
      have hlen : 2 ≤ 2 ^ params.depth := Nat.le_self_pow hin.depth.ne' 2
      rw [logTable]
      cases calls.table with
      | none => exact ⟨none, rfl, fun llut h => by cases h⟩
      | some contents =>
          obtain ⟨llut, htable, hsize⟩ := lnTable_size (D := D) contents hlen
          refine ⟨some llut, htable, ?_⟩
          intro llut' h
          rw [← Option.some.inj h, hsize]

theorem spectralClean_ok (hin : CleanInput params lutLn redData irData) (rand : Nat → Nat)
    (passes : Nat) : ∃ result,
      saneiIrSpectralClean D calls params lutLn redData irData rand passes = .ok result := by
  rw [saneiIrSpectralClean]
  cases calls.calcBuf with
  | none => exact ⟨_, rfl⟩
  | some contents =>
      obtain ⟨answer, htable, hsize⟩ := logTable_ok D calls hin
      dsimp only
      rw [htable, ok_bind]
      cases answer with
      | none => exact ⟨_, rfl⟩
      | some llut =>
          dsimp only
          split_ifs
          · refine cleanWith_ok ⟨hin.redSize, hin.irSize, ?_⟩ contents rand passes
            intro p hp
            rw [hsize llut rfl]
            exact hin.red p hp
          · exact ⟨_, rfl⟩

/-- The loop can end just if the infrared image is not black where samples are to be collected. -/
theorem spectralClean_ends_iff (hin : CleanInput params lutLn redData irData)
    (hrange : calls.InRange irData params.pixels) :
    CleanEnds D calls params lutLn redData irData ↔
      (calls.Enters lutLn → 2 ≤ params.pixels →
        ∃ p < params.pixels, 0 < (irData.cell p).toNat) := by
  rw [← exists_brighter_iff hrange, ← ssize_pos_iff]
  exact ⟨fun hends => hends.accepts, fun haccepts => ⟨haccepts, spectralClean_ok hin⟩⟩

/-- Two pixels that are black in both images, and functions that succeed. -/
def blackPixels : ImageParams where
  bytesPerLine := 2
  pixelsPerLine := 2
  lines := 1

def blackImage : Cells UInt16 where
  size := 2
  cell := fun _ => 0

def wholeDoubles : Doubles Int where
  ofInt := id
  toInt := id
  toUint := fun x => UInt16.ofNat x.toNat
  add := (· + ·)
  sub := (· - ·)
  mul := (· * ·)
  div := Int.tdiv
  half := 0
  log := id

def succeedingCalls : CleanCalls Int where
  calcBuf := some fun _ => 0
  table := some fun _ => 0
  histogram := true
  maxentropy := none
  otsu := some 0
  yen := none

theorem spectralClean_ends_iff_black :
    CleanEnds wholeDoubles succeedingCalls blackPixels none blackImage blackImage ↔
      (succeedingCalls.Enters none → 2 ≤ blackPixels.pixels →
        ∃ p < blackPixels.pixels, 0 < (blackImage.cell p).toNat) :=
  spectralClean_ends_iff
    ⟨by decide, rfl, rfl, fun _ _ => (by decide : 0 < 2 ^ 8), fun _ _ => (by decide : 0 < 2 ^ 8),
      fun _ h => by cases h⟩
    ⟨fun _ h => (by cases h), fun _ h => Option.some.inj h ▸ (by decide), fun _ h => (by cases h)⟩

theorem not_spectralClean_ends_black :
    ¬ CleanEnds wholeDoubles succeedingCalls blackPixels none blackImage blackImage := by
  intro hends
  obtain ⟨p, -, hbright⟩ := hends.accepts ⟨by decide, .inr (by decide), rfl⟩ (by decide)
  exact absurd hbright (by change ¬ (0 : Int) < (0 : Nat); decide)

end SaneBackends.Sanei
