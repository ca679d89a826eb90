import SaneBackends.Genesys.ConvertRow
import SaneBackends.Lib.ErrorCounter
import SaneBackends.Lib.Window
/-!
# Scaled rows

`ImagePipelineNodeScaleRows`, whose pixels are averages of those of the source, or copies of
them, dealt out by a counter of 32 bits.
-/

namespace SaneBackends.Genesys

open SaneBackends.Lib

/-! ## The code -/

/-- What ends a call: a failure of the rows, or of the arithmetic. -/
inductive ScaleFailure where
  | row (failure : RowFailure)
  | divisionByZero
  | unfinished

/-- A failure of the rows while one is scaled. -/
def inRow {α : Type} : Except RowFailure α → Except ScaleFailure α
  | .ok a => .ok a
  | .error failure => .error (.row failure)

/-- How the row of the source is read, and the new one stored. -/
structure RowAccess (σ : Type) where
  get : Nat → Nat → Except ScaleFailure UInt16
  set : σ → Nat → Nat → UInt16 → Except ScaleFailure σ

/-- `get_raw_channel_from_row` and `set_raw_channel_to_row`. -/
def rowAccess (srcData : List UInt8) (format : PixelFormat) : RowAccess (List UInt8) where
  get x c := inRow (getRawChannelFromRow srcData x c format)
  set outData x c value := inRow (setRawChannelToRow outData x c value format)

/-- `sum / count`, converted to the type of a channel. -/
def averageOf (sum count : UInt32) : Except ScaleFailure UInt16 :=
  if count = 0 then .error .divisionByZero else .ok (sum / count).toUInt16

/-- The variables of the loop over the pixels of a group. -/
structure PixelGroup where
  counter : UInt32
  srcX : UInt32
  count : UInt32
  avg : Nat → UInt32

/-- The variables of the loops over the pixels of a row. -/
structure ScaleState (σ : Type) where
  counter : UInt32
  srcX : UInt32
  dstX : UInt32
  out : σ

namespace RowAccess

variable {σ : Type}

/-- `avg[c] += get_raw_channel_from_row (src_data, x, c, format)` for all channels. -/
def addPixel (access : RowAccess σ) (channels x : Nat) (avg : Nat → UInt32) :
    Except ScaleFailure (Nat → UInt32) :=
  forTo channels (fun c avg => do
    let value ← access.get x c
    .ok (Function.update avg c (avg c + value.toUInt32))) avg

/-- The loop over the source when the row is shrunk. -/
def sumGroup (access : RowAccess σ) (fuel channels srcWidth dstWidth : Nat) :
    PixelGroup → Except ScaleFailure PixelGroup :=
  whileLoop .unfinished (fun group => group.counter.toNat < srcWidth ∧ group.srcX.toNat < srcWidth)
    (fun group => do
      let avg ← access.addPixel channels group.srcX.toNat group.avg
      .ok {
        counter := group.counter + UInt32.ofNat dstWidth
        srcX := group.srcX + 1
        count := group.count + 1
        avg }) fuel

/-- One pixel of a row that is shrunk. -/
def averagePixel (access : RowAccess σ) (fuel channels srcWidth dstWidth : Nat)
    (state : ScaleState σ) : Except ScaleFailure (ScaleState σ) := do
  let group ← access.sumGroup fuel channels srcWidth dstWidth
    { counter := state.counter, srcX := state.srcX, count := 0, avg := fun _ => 0 }
  let out ← forTo channels (fun c out => do
    let value ← averageOf (group.avg c) group.count
    access.set out state.dstX.toNat c value) state.out
  .ok {
    counter := group.counter - UInt32.ofNat srcWidth
    srcX := group.srcX
    dstX := state.dstX + 1
    out }

def shrinkRow (access : RowAccess σ) (fuel channels srcWidth dstWidth : Nat) (out : σ) :
    Except ScaleFailure σ := do
  let state ← whileLoop .unfinished (fun state => state.dstX.toNat < dstWidth)
    (access.averagePixel fuel channels srcWidth dstWidth) fuel
    { counter := UInt32.ofNat (srcWidth / 2), srcX := 0, dstX := 0, out }
  .ok state.out

/-- The loop over the new row when it is enlarged. -/
def repeatPixel (access : RowAccess σ) (fuel channels srcWidth dstWidth : Nat)
    (avg : Nat → UInt32) : ScaleState σ → Except ScaleFailure (ScaleState σ) :=
  whileLoop .unfinished
    (fun state => (state.counter.toNat < dstWidth ∨ (state.srcX + 1).toNat = srcWidth) ∧
      state.dstX.toNat < dstWidth)
    (fun state => do
      let out ← forTo channels (fun c out => access.set out state.dstX.toNat c (avg c).toUInt16)
        state.out
      .ok { state with
        counter := state.counter + UInt32.ofNat srcWidth
        dstX := state.dstX + 1
        out }) fuel

/-- One pixel of the source of a row that is enlarged. -/
def copyPixel (access : RowAccess σ) (fuel channels srcWidth dstWidth : Nat)
    (state : ScaleState σ) : Except ScaleFailure (ScaleState σ) := do
  let avg ← access.addPixel channels state.srcX.toNat (fun _ => 0)
  let state ← access.repeatPixel fuel channels srcWidth dstWidth avg state
  .ok { state with
    counter := state.counter - UInt32.ofNat dstWidth
    srcX := state.srcX + 1 }

def enlargeRow (access : RowAccess σ) (fuel channels srcWidth dstWidth : Nat) (out : σ) :
    Except ScaleFailure σ := do
  let state ← whileLoop .unfinished (fun state => state.srcX.toNat < srcWidth)
    (access.copyPixel fuel channels srcWidth dstWidth) fuel
    { counter := UInt32.ofNat (dstWidth / 2), srcX := 0, dstX := 0, out }
  .ok state.out

def scaleRow (access : RowAccess σ) (fuel channels srcWidth dstWidth : Nat) (out : σ) :
    Except ScaleFailure σ :=
  if srcWidth > dstWidth then access.shrinkRow fuel channels srcWidth dstWidth out
  else access.enlargeRow fuel channels srcWidth dstWidth out

end RowAccess

structure ScaleRowsNode (σ : Type) where
  source : RowNode σ
  width : Nat

namespace ScaleRowsNode

variable {σ : Type}

/-- `get_next_row_data`; with the state of the source goes `cached_line_`. -/
def getNextRowData (node : ScaleRowsNode σ) (fuel : Nat) (st : σ × List UInt8)
    (out : List UInt8) : Except ScaleFailure (Bool × (σ × List UInt8) × List UInt8) := do
  let (gotData, st, cachedLine) ← inRow (node.source.getNextRowData st.1 st.2)
  let channels ← inRow (throws (getPixelChannels node.source.format))
  let out ← (rowAccess cachedLine node.source.format).scaleRow fuel channels node.source.width
    node.width out
  .ok (gotData, (st, cachedLine), out)

end ScaleRowsNode

/-! ## What the loops compute -/

def RowAccess.writePixel {σ : Type} (access : RowAccess σ) (channels : Nat)
    (value : Nat → Nat → UInt16) (x : Nat) : σ → Except ScaleFailure σ :=
  forTo channels fun c out => access.set out x c (value x c)

/-- Every pixel of the new row is stored once. -/
def RowAccess.writePixels {σ : Type} (access : RowAccess σ) (channels width : Nat)
    (value : Nat → Nat → UInt16) : σ → Except ScaleFailure σ :=
  forTo width (access.writePixel channels value)

/-- Inside of the width the row of the source holds these values. -/
def RowAccess.Reads {σ : Type} (access : RowAccess σ) (channels width : Nat)
    (src : Nat → Nat → UInt16) : Prop :=
  ∀ x < width, ∀ c < channels, access.get x c = .ok (src x c)

/-- The sum of the pixels of a group. -/
def groupSum (srcWidth dstWidth : Nat) (src : Nat → Nat → UInt16) (k c : Nat) : Nat :=
  spanSum (fun x => (src x c).toNat) (shareEnd srcWidth dstWidth k)
    (shareEnd srcWidth dstWidth (k + 1))

/-- The number of the pixels of a group. -/
def groupSize (srcWidth dstWidth k : Nat) : Nat :=
  shareEnd srcWidth dstWidth (k + 1) - shareEnd srcWidth dstWidth k

/-- What becomes of a group in 32 bits. -/
def groupMean (srcWidth dstWidth : Nat) (src : Nat → Nat → UInt16) (k c : Nat) : UInt16 :=
  (UInt32.ofNat (groupSum srcWidth dstWidth src k c) /
    UInt32.ofNat (groupSize srcWidth dstWidth k)).toUInt16

/-- While pixels are dealt out the counter does not wrap. -/
def CounterFits (srcWidth dstWidth : Nat) : Prop :=
  if dstWidth < srcWidth then ∀ k < dstWidth, ShareFits srcWidth dstWidth k
  else dstWidth < 2 ^ 32 ∧ ∀ k, k + 1 < srcWidth → ShareFits dstWidth srcWidth k

theorem toNat_ofNat_of_lt {n : Nat} (h : n < 2 ^ 32) : (UInt32.ofNat n).toNat = n :=
  UInt32.toNat_ofNat_of_lt' h

theorem ofNat_succ (n : Nat) : UInt32.ofNat n + 1 = UInt32.ofNat (n + 1) :=
  (UInt32.ofNat_add n 1).symm

section Sums

variable {σ : Type} {access : RowAccess σ} {channels width : Nat} {src : Nat → Nat → UInt16}

/-- The sums of the channels of some pixels, in 32 bits. -/
def channelSums (channels : Nat) (src : Nat → Nat → UInt16) (lo hi c : Nat) : UInt32 :=
  if c < channels then UInt32.ofNat (spanSum (fun x => (src x c).toNat) lo hi) else 0

theorem channelSums_self (lo : Nat) : channelSums channels src lo lo = fun _ => 0 := by
  funext c
  rw [channelSums, spanSum_self]
  split_ifs <;> rfl

theorem addPixel_channelSums (hreads : access.Reads channels width src) {lo x : Nat}
    (hle : lo ≤ x) (hx : x < width) :
    access.addPixel channels x (channelSums channels src lo x) =
      .ok (channelSums channels src lo (x + 1)) := by
  have hloop : ∃ avg : Nat → UInt32,
      access.addPixel channels x (channelSums channels src lo x) = .ok avg ∧ ∀ c,
        avg c = if c < channels then channelSums channels src lo (x + 1) c
          else channelSums channels src lo x c := by
    refine forTo_invariant
      (I := fun i (avg : Nat → UInt32) => ∀ c,
        avg c = if c < i then channelSums channels src lo (x + 1) c
          else channelSums channels src lo x c)
      (fun c => (if_neg (Nat.not_lt_zero c)).symm) fun i hi avg havg => ?_
    refine ⟨_, by rw [hreads x hx i hi, ok_bind], fun c => ?_⟩
    by_cases hc : c = i
    · rw [hc, Function.update_self, havg, if_neg (Nat.lt_irrefl i), if_pos (Nat.lt_succ_self i),
        channelSums, channelSums, if_pos hi, if_pos hi, spanSum_succ hle, UInt32.ofNat_add,
        UInt32.ofNat_uInt16ToNat]
    · rw [Function.update_of_ne hc, havg]
      exact if_congr (by omega) rfl rfl
  obtain ⟨avg, hadd, havg⟩ := hloop
  rw [hadd]
  congr 1
  funext c
  rw [havg]
  by_cases hc : c < channels
  · rw [if_pos hc]
  · rw [if_neg hc, channelSums, channelSums, if_neg hc, if_neg hc]

theorem addPixels_channelSums (hreads : access.Reads channels width src) {lo n : Nat}
    (hn : lo + n ≤ width) :
    forTo n (fun j => access.addPixel channels (lo + j)) (fun _ => 0) =
      .ok (channelSums channels src lo (lo + n)) := by
  have hloop : ∃ avg, forTo n (fun j => access.addPixel channels (lo + j)) (fun _ => 0) = .ok avg ∧
      avg = channelSums channels src lo (lo + n) := by
    refine forTo_invariant (I := fun j avg => avg = channelSums channels src lo (lo + j))
      (channelSums_self lo).symm fun j hj avg havg => ?_
    rw [havg]
    exact ⟨_, addPixel_channelSums hreads (Nat.le_add_right lo j) (by omega), rfl⟩
  obtain ⟨avg, hadd, rfl⟩ := hloop
  exact hadd

end Sums

section Shrink

variable {σ : Type} {access : RowAccess σ} {channels srcWidth dstWidth fuel : Nat}
  {src : Nat → Nat → UInt16}

/-- The groups lie inside of the row. -/
theorem shareEnd_le_srcWidth {k : Nat} (hk : k < dstWidth) :
    shareEnd srcWidth dstWidth (k + 1) ≤ srcWidth :=
  Nat.le_trans (shareEnd_mono (Nat.zero_lt_of_lt hk) hk) (shareEnd_all (Nat.zero_lt_of_lt hk))

theorem groupSize_pos (hshrink : dstWidth < srcWidth) {k : Nat} (hk : k < dstWidth) :
    0 < groupSize srcWidth dstWidth k :=
  Nat.sub_pos_of_lt (shareEnd_lt_succ (Nat.zero_lt_of_lt hk) (Nat.le_of_lt hshrink))

theorem groupSize_le {k : Nat} (hk : k < dstWidth) : groupSize srcWidth dstWidth k ≤ srcWidth :=
  Nat.le_trans (Nat.sub_le _ _) (shareEnd_le_srcWidth hk)

theorem CounterFits.share (hfits : CounterFits srcWidth dstWidth) (hshrink : dstWidth < srcWidth)
    {k : Nat} (hk : k < dstWidth) : ShareFits srcWidth dstWidth k := by
  rw [CounterFits, if_pos hshrink] at hfits
  exact hfits k hk

/-- The counter has gone over the width of the source. -/
theorem CounterFits.srcWidth_lt (hfits : CounterFits srcWidth dstWidth)
    (hshrink : dstWidth < srcWidth) {k : Nat} (hk : k < dstWidth) : srcWidth < 2 ^ 32 := by
  have hpos := Nat.zero_lt_of_lt hk
  have hfirst := hfits.share hshrink hpos
  have hend := (shareEnd_le_iff hpos).mp (Nat.le_refl (shareEnd srcWidth dstWidth (0 + 1)))
  rw [ShareFits] at hfirst
  omega

/-- The variables after `j` pixels of group `k`. -/
def groupAfter (srcWidth dstWidth k j : Nat) (avg : Nat → UInt32) : PixelGroup where
  counter := errorCounter srcWidth dstWidth k (shareEnd srcWidth dstWidth k + j)
  srcX := UInt32.ofNat (shareEnd srcWidth dstWidth k + j)
  count := UInt32.ofNat j
  avg

theorem groupAfter_more (hfits : CounterFits srcWidth dstWidth) (hshrink : dstWidth < srcWidth)
    {k j : Nat} (hk : k < dstWidth) (hj : j ≤ groupSize srcWidth dstWidth k)
    (avg : Nat → UInt32) :
    (groupAfter srcWidth dstWidth k j avg).srcX.toNat = shareEnd srcWidth dstWidth k + j ∧
      ((groupAfter srcWidth dstWidth k j avg).counter.toNat < srcWidth ↔
        j < groupSize srcWidth dstWidth k) := by
  have hpos := Nat.zero_lt_of_lt hk
  have hwidth := hfits.srcWidth_lt hshrink hk
  have hinside := @shareEnd_le_srcWidth srcWidth dstWidth k hk
  have hmono := @shareEnd_mono srcWidth dstWidth (k + 1) hpos k (Nat.le_succ k)
  rw [groupSize] at hj ⊢
  refine ⟨toNat_ofNat_of_lt (by omega), ?_⟩
  rw [groupAfter, errorCounter_lt_iff hpos (hfits.share hshrink hk) (Nat.le_add_right _ _)
    (by omega)]
  omega

/-- The loop over the source takes the pixels of one group. -/
theorem sumGroup_eq (hreads : access.Reads channels srcWidth src)
    (hfits : CounterFits srcWidth dstWidth) (hshrink : dstWidth < srcWidth) {k : Nat}
    (hk : k < dstWidth) (hfuel : srcWidth ≤ fuel) :
    access.sumGroup fuel channels srcWidth dstWidth
        (groupAfter srcWidth dstWidth k 0 fun _ => 0) =
      .ok (groupAfter srcWidth dstWidth k (groupSize srcWidth dstWidth k)
        (channelSums channels src (shareEnd srcWidth dstWidth k)
          (shareEnd srcWidth dstWidth (k + 1)))) := by
  have hinside := @shareEnd_le_srcWidth srcWidth dstWidth k hk
  have hsize : shareEnd srcWidth dstWidth k + groupSize srcWidth dstWidth k =
      shareEnd srcWidth dstWidth (k + 1) :=
    Nat.add_sub_cancel' (shareEnd_mono (Nat.zero_lt_of_lt hk) (Nat.le_succ k))
  have hloop : access.sumGroup fuel channels srcWidth dstWidth
      (groupAfter srcWidth dstWidth k 0 fun _ => 0) =
      forTo (groupSize srcWidth dstWidth k)
        (fun j => access.addPixel channels (shareEnd srcWidth dstWidth k + j)) (fun _ => 0) >>=
        fun avg => .ok (groupAfter srcWidth dstWidth k (groupSize srcWidth dstWidth k) avg) := by
    refine whileLoop_passes (groupAfter srcWidth dstWidth k) (fun j hj avg => ?_) (fun avg => ?_)
      (Nat.le_trans (groupSize_le hk) hfuel) _
    · obtain ⟨hsrcX, hmore⟩ := groupAfter_more hfits hshrink hk (Nat.le_of_lt hj) avg
      refine ⟨decide_eq_true ⟨hmore.mpr hj, by rw [hsrcX]; omega⟩, ?_⟩
      rw [hsrcX]
      congr 1
      funext avg
      rw [groupAfter, groupAfter]
      simp only [errorCounter_add, ofNat_succ, Nat.add_assoc]
    · obtain ⟨hsrcX, hmore⟩ := groupAfter_more hfits hshrink hk (Nat.le_refl _) avg
      exact decide_eq_false fun hcond => Nat.lt_irrefl _ (hmore.mp hcond.1)
  rw [hloop, addPixels_channelSums hreads (by omega), ok_bind, hsize]

/-- The variables after `k` pixels of the new row. -/
def shrinkState (srcWidth dstWidth k : Nat) (out : σ) : ScaleState σ where
  counter := errorCounter srcWidth dstWidth k (shareEnd srcWidth dstWidth k)
  srcX := UInt32.ofNat (shareEnd srcWidth dstWidth k)
  dstX := UInt32.ofNat k
  out

theorem averagePixel_eq (hreads : access.Reads channels srcWidth src)
    (hfits : CounterFits srcWidth dstWidth) (hshrink : dstWidth < srcWidth) {k : Nat}
    (hk : k < dstWidth) (hfuel : srcWidth ≤ fuel) (out : σ) :
    access.averagePixel fuel channels srcWidth dstWidth (shrinkState srcWidth dstWidth k out) =
      access.writePixel channels (groupMean srcWidth dstWidth src) k out >>=
        fun out => .ok (shrinkState srcWidth dstWidth (k + 1) out) := by
  have hwidth := hfits.srcWidth_lt hshrink hk
  have hsize : shareEnd srcWidth dstWidth k + groupSize srcWidth dstWidth k =
      shareEnd srcWidth dstWidth (k + 1) :=
    Nat.add_sub_cancel' (shareEnd_mono (Nat.zero_lt_of_lt hk) (Nat.le_succ k))
  have hplace : (shrinkState srcWidth dstWidth k out).dstX.toNat = k :=
    toNat_ofNat_of_lt (by omega)
  have hcount : UInt32.ofNat (groupSize srcWidth dstWidth k) ≠ 0 := by
    intro hzero
    have hpositive := groupSize_pos hshrink hk
    have hle := @groupSize_le srcWidth dstWidth k hk
    rw [← UInt32.toNat_inj, toNat_ofNat_of_lt (by omega)] at hzero
    exact Nat.ne_of_gt hpositive hzero
  have hsum : access.sumGroup fuel channels srcWidth dstWidth {
      counter := (shrinkState srcWidth dstWidth k out).counter
      srcX := (shrinkState srcWidth dstWidth k out).srcX
      count := 0
      avg := fun _ => 0 } = _ := sumGroup_eq hreads hfits hshrink hk hfuel
  have hstore : ∀ c < channels, ∀ row : σ,
      (do
        let value ← averageOf (channelSums channels src (shareEnd srcWidth dstWidth k)
          (shareEnd srcWidth dstWidth (k + 1)) c) (UInt32.ofNat (groupSize srcWidth dstWidth k))
        access.set row k c value) = access.set row k c (groupMean srcWidth dstWidth src k c) := by
    intro c hc row
    rw [averageOf, if_neg hcount, ok_bind, channelSums, if_pos hc]
    rfl
  rw [RowAccess.averagePixel, hsum, ok_bind, hplace]
  dsimp only [groupAfter]
  rw [forTo_congr hstore, hsize, RowAccess.writePixel]
  congr 1
  funext row
  rw [errorCounter_sub]
  dsimp only [shrinkState]
  rw [ofNat_succ]

/-- A row that is shrunk holds the averages of its groups. -/
theorem shrinkRow_eq (hreads : access.Reads channels srcWidth src)
    (hfits : CounterFits srcWidth dstWidth) (hshrink : dstWidth < srcWidth)
    (hfuel : srcWidth ≤ fuel) (out : σ) :
    access.shrinkRow fuel channels srcWidth dstWidth out =
      access.writePixels channels dstWidth (groupMean srcWidth dstWidth src) out := by
  have hplace : ∀ k ≤ dstWidth, ∀ row : σ,
      (shrinkState srcWidth dstWidth k row).dstX.toNat = k := by
    intro k hk row
    cases Nat.eq_zero_or_pos dstWidth with
    | inl hzero =>
        rw [show k = 0 by omega]
        rfl
    | inr hpos =>
        have hwidth := hfits.srcWidth_lt hshrink hpos
        exact toNat_ofNat_of_lt (by omega)
  have hstart : shrinkState srcWidth dstWidth 0 out =
      { counter := UInt32.ofNat (srcWidth / 2), srcX := 0, dstX := 0, out } := by
    rw [shrinkState, shareEnd_zero, errorCounter_zero]
    rfl
  have hloop : whileLoop .unfinished (fun state => state.dstX.toNat < dstWidth)
      (access.averagePixel fuel channels srcWidth dstWidth) fuel
      (shrinkState srcWidth dstWidth 0 out) =
      access.writePixels channels dstWidth (groupMean srcWidth dstWidth src) out >>=
        fun out => .ok (shrinkState srcWidth dstWidth dstWidth out) := by
    refine whileLoop_passes (shrinkState srcWidth dstWidth) (fun k hk row => ?_) (fun row => ?_)
      (by omega) out
    · exact ⟨decide_eq_true (by rwa [hplace k (Nat.le_of_lt hk)]),
        averagePixel_eq hreads hfits hshrink hk hfuel row⟩
    · exact decide_eq_false (by rw [hplace _ (Nat.le_refl _)]; exact Nat.lt_irrefl _)
  rw [RowAccess.shrinkRow, ← hstart, hloop, bind_assoc]
  exact bind_ok_eq _

end Shrink

section Enlarge

variable {σ : Type} {access : RowAccess σ} {channels srcWidth dstWidth fuel : Nat}
  {src : Nat → Nat → UInt16}

/-- How many pixels of the new row the first `x` of the source fill; the last fills the rest. -/
def copyEnd (srcWidth dstWidth x : Nat) : Nat :=
  if x < srcWidth then shareEnd dstWidth srcWidth x else dstWidth

/-- The pixel of the source that is copied. -/
def copySource (srcWidth dstWidth k : Nat) : Nat :=
  min (srcWidth - 1) ((dstWidth / 2 + k * srcWidth) / dstWidth)

theorem copyEnd_of_lt {x : Nat} (hx : x < srcWidth) :
    copyEnd srcWidth dstWidth x = shareEnd dstWidth srcWidth x := if_pos hx

theorem copyEnd_last : copyEnd srcWidth dstWidth srcWidth = dstWidth := if_neg (Nat.lt_irrefl _)

/-- Every pixel of the source fills some. -/
theorem copyEnd_lt_succ (henlarge : srcWidth ≤ dstWidth) {x : Nat} (hx : x < srcWidth) :
    copyEnd srcWidth dstWidth x < copyEnd srcWidth dstWidth (x + 1) := by
  have hpos := Nat.zero_lt_of_lt hx
  have hless := @shareEnd_lt_succ dstWidth srcWidth x hpos henlarge
  rw [copyEnd_of_lt hx, copyEnd]
  split_ifs with hnext
  · exact hless
  · have hall := @shareEnd_all dstWidth srcWidth hpos
    rw [show x + 1 = srcWidth by omega] at hless
    omega

theorem copyEnd_le {x : Nat} (hx : x ≤ srcWidth) : copyEnd srcWidth dstWidth x ≤ dstWidth := by
  rw [copyEnd]
  split_ifs with hless
  · have hpos := Nat.zero_lt_of_lt hless
    exact Nat.le_trans (shareEnd_mono hpos hx) (shareEnd_all hpos)
  · exact Nat.le_refl _

theorem copySource_lt (hpos : 0 < srcWidth) (k : Nat) :
    copySource srcWidth dstWidth k < srcWidth := by
  rw [copySource]
  omega

/-- The pixels that a pixel of the source fills are those that copy it. -/
theorem copySource_eq {x k : Nat} (hx : x < srcWidth) (hlo : copyEnd srcWidth dstWidth x ≤ k)
    (hhi : k < copyEnd srcWidth dstWidth (x + 1)) : copySource srcWidth dstWidth k = x := by
  have hpos := Nat.zero_lt_of_lt hx
  have hdst : 0 < dstWidth := Nat.zero_lt_of_lt (Nat.lt_of_lt_of_le hhi (copyEnd_le hx))
  rw [copyEnd_of_lt hx, shareEnd_le_iff hpos] at hlo
  have hge : x ≤ (dstWidth / 2 + k * srcWidth) / dstWidth := (Nat.le_div_iff_mul_le hdst).mpr hlo
  rw [copySource]
  by_cases hnext : x + 1 < srcWidth
  · rw [copyEnd_of_lt hnext, lt_shareEnd_iff hpos] at hhi
    have hlt : (dstWidth / 2 + k * srcWidth) / dstWidth < x + 1 :=
      (Nat.div_lt_iff_lt_mul hdst).mpr hhi
    omega
  · omega

/-- The values of a row that is enlarged. -/
def pixelCopy (srcWidth dstWidth : Nat) (src : Nat → Nat → UInt16) (k c : Nat) : UInt16 :=
  src (copySource srcWidth dstWidth k) c

/-- The variables when pixel `k` of the new row is next and pixel `x` of the source at hand. -/
def copyState (srcWidth dstWidth x k : Nat) (out : σ) : ScaleState σ where
  counter := errorCounter dstWidth srcWidth x k
  srcX := UInt32.ofNat x
  dstX := UInt32.ofNat k
  out

theorem CounterFits.copies (hfits : CounterFits srcWidth dstWidth)
    (henlarge : srcWidth ≤ dstWidth) :
    dstWidth < 2 ^ 32 ∧ ∀ k, k + 1 < srcWidth → ShareFits dstWidth srcWidth k := by
  rw [CounterFits, if_neg (Nat.not_lt.mpr henlarge)] at hfits
  exact hfits

/-- When the loop over the new row goes on. -/
theorem copyState_more (hfits : CounterFits srcWidth dstWidth) (henlarge : srcWidth ≤ dstWidth)
    {x k : Nat} (hx : x < srcWidth) (hlo : copyEnd srcWidth dstWidth x ≤ k)
    (hhi : k ≤ copyEnd srcWidth dstWidth (x + 1)) (out : σ) :
    ((copyState srcWidth dstWidth x k out).counter.toNat < dstWidth ∨
        ((copyState srcWidth dstWidth x k out).srcX + 1).toNat = srcWidth) ∧
      (copyState srcWidth dstWidth x k out).dstX.toNat < dstWidth ↔
    k < copyEnd srcWidth dstWidth (x + 1) := by
  obtain ⟨hwidth, hshares⟩ := hfits.copies henlarge
  have hend := @copyEnd_le srcWidth dstWidth (x + 1) hx
  have hplace : (copyState srcWidth dstWidth x k out).dstX.toNat = k :=
    toNat_ofNat_of_lt (by omega)
  have hsource : ((copyState srcWidth dstWidth x k out).srcX + 1).toNat = x + 1 := by
    rw [copyState, ofNat_succ]
    exact toNat_ofNat_of_lt (by omega)
  rw [hplace, hsource]
  by_cases hnext : x + 1 < srcWidth
  · have hbefore := @copyEnd_lt_succ srcWidth dstWidth henlarge (x + 1) hnext
    have hlast := @copyEnd_le srcWidth dstWidth (x + 1 + 1) hnext
    rw [copyEnd_of_lt hx] at hlo
    rw [copyEnd_of_lt hnext] at hhi hbefore ⊢
    rw [copyState, errorCounter_lt_iff (Nat.zero_lt_of_lt hx) (hshares x hnext) hlo hhi]
    omega
  · rw [show x + 1 = srcWidth by omega, copyEnd_last]
    omega

/-- The loop over the new row copies the pixel to all that it fills. -/
theorem repeatPixel_eq (hfits : CounterFits srcWidth dstWidth) (henlarge : srcWidth ≤ dstWidth)
    (hfuel : dstWidth ≤ fuel) {x : Nat} (hx : x < srcWidth) (out : σ) :
    access.repeatPixel fuel channels srcWidth dstWidth (channelSums channels src x (x + 1))
        (copyState srcWidth dstWidth x (copyEnd srcWidth dstWidth x) out) =
      forTo (copyEnd srcWidth dstWidth (x + 1) - copyEnd srcWidth dstWidth x)
        (fun j => access.writePixel channels (pixelCopy srcWidth dstWidth src)
          (copyEnd srcWidth dstWidth x + j)) out >>=
        fun out => .ok (copyState srcWidth dstWidth x (copyEnd srcWidth dstWidth (x + 1)) out) := by
  have hless := copyEnd_lt_succ henlarge hx
  have hend := @copyEnd_le srcWidth dstWidth (x + 1) hx
  have hwidth := (hfits.copies henlarge).1
  have hmore := fun k => @copyState_more σ srcWidth dstWidth hfits henlarge x k hx
  generalize hfirst : copyEnd srcWidth dstWidth x = first at *
  obtain ⟨count, hcount⟩ := Nat.exists_eq_add_of_lt hless
  have hloop : access.repeatPixel fuel channels srcWidth dstWidth
      (channelSums channels src x (x + 1)) (copyState srcWidth dstWidth x (first + 0) out) =
      forTo (count + 1) (fun j => access.writePixel channels (pixelCopy srcWidth dstWidth src)
        (first + j)) out >>=
        fun out => .ok (copyState srcWidth dstWidth x (first + (count + 1)) out) := by
    have hpasses : count + 1 ≤ fuel := by omega
    refine whileLoop_passes (fun j => copyState srcWidth dstWidth x (first + j))
      (fun j hj row => ?_) (fun row => ?_) hpasses out
    · refine ⟨decide_eq_true ((hmore _ (by omega) (by omega) row).mpr (by omega)), ?_⟩
      have hplace : (copyState srcWidth dstWidth x (first + j) row).dstX.toNat = first + j :=
        toNat_ofNat_of_lt (by omega)
      have hsource : copySource srcWidth dstWidth (first + j) = x :=
        copySource_eq hx (by omega) (by omega)
      have hstore : ∀ c < channels, ∀ row : σ,
          access.set row (first + j) c (channelSums channels src x (x + 1) c).toUInt16 =
            access.set row (first + j) c (pixelCopy srcWidth dstWidth src (first + j) c) := by
        intro c hc row
        rw [channelSums, if_pos hc, spanSum_succ (Nat.le_refl x), spanSum_self, Nat.zero_add,
          pixelCopy, hsource, UInt32.ofNat_uInt16ToNat, UInt16.toUInt16_toUInt32]
      rw [hplace, forTo_congr hstore, RowAccess.writePixel]
      congr 1
      funext row
      dsimp only [copyState]
      rw [errorCounter_add, ofNat_succ, Nat.add_assoc]
    · exact decide_eq_false fun hcond => by
        have hagain := (hmore _ (by omega) (by omega) row).mp hcond
        omega
  rw [Nat.add_zero] at hloop
  rw [hcount, show first + count + 1 - first = count + 1 by omega, Nat.add_assoc first count 1]
  exact hloop

theorem copyPixel_eq (hreads : access.Reads channels srcWidth src)
    (hfits : CounterFits srcWidth dstWidth) (henlarge : srcWidth ≤ dstWidth)
    (hfuel : dstWidth ≤ fuel) {x : Nat} (hx : x < srcWidth) (out : σ) :
    access.copyPixel fuel channels srcWidth dstWidth
        (copyState srcWidth dstWidth x (copyEnd srcWidth dstWidth x) out) =
      forTo (copyEnd srcWidth dstWidth (x + 1) - copyEnd srcWidth dstWidth x)
        (fun j => access.writePixel channels (pixelCopy srcWidth dstWidth src)
          (copyEnd srcWidth dstWidth x + j)) out >>=
        fun out =>
          .ok (copyState srcWidth dstWidth (x + 1) (copyEnd srcWidth dstWidth (x + 1)) out) := by
  have hwidth := (hfits.copies henlarge).1
  have hplace : (copyState srcWidth dstWidth x (copyEnd srcWidth dstWidth x) out).srcX.toNat = x :=
    toNat_ofNat_of_lt (by omega)
  have hadd := addPixel_channelSums hreads (Nat.le_refl x) hx
  rw [channelSums_self] at hadd
  rw [RowAccess.copyPixel, hplace, hadd, ok_bind, repeatPixel_eq hfits henlarge hfuel hx,
    bind_assoc]
  congr 1
  funext row
  rw [ok_bind]
  dsimp only [copyState]
  rw [errorCounter_sub, ofNat_succ]

/-- A row that is enlarged holds copies. -/
theorem enlargeRow_eq (hreads : access.Reads channels srcWidth src)
    (hfits : CounterFits srcWidth dstWidth) (henlarge : srcWidth ≤ dstWidth)
    (hpos : 0 < srcWidth) (hfuel : dstWidth ≤ fuel) (out : σ) :
    access.enlargeRow fuel channels srcWidth dstWidth out =
      access.writePixels channels dstWidth (pixelCopy srcWidth dstWidth src) out := by
  have hwidth := (hfits.copies henlarge).1
  have hfirst : copyEnd srcWidth dstWidth 0 = 0 := by
    rw [copyEnd_of_lt hpos, shareEnd_zero]
  have hplace : ∀ x ≤ srcWidth, ∀ row : σ,
      (copyState srcWidth dstWidth x (copyEnd srcWidth dstWidth x) row).srcX.toNat = x :=
    fun x hx row => toNat_ofNat_of_lt (by omega)
  have hstart : copyState srcWidth dstWidth 0 (copyEnd srcWidth dstWidth 0) out =
      { counter := UInt32.ofNat (dstWidth / 2), srcX := 0, dstX := 0, out } := by
    rw [hfirst, copyState, errorCounter_zero]
    rfl
  have hloop : whileLoop .unfinished (fun state => state.srcX.toNat < srcWidth)
      (access.copyPixel fuel channels srcWidth dstWidth) fuel
      (copyState srcWidth dstWidth 0 (copyEnd srcWidth dstWidth 0) out) =
      forTo (copyEnd srcWidth dstWidth srcWidth)
        (access.writePixel channels (pixelCopy srcWidth dstWidth src)) out >>=
        fun out => .ok (copyState srcWidth dstWidth srcWidth
          (copyEnd srcWidth dstWidth srcWidth) out) := by
    refine whileLoop_forTo (fun x => copyState srcWidth dstWidth x (copyEnd srcWidth dstWidth x))
      hfirst (fun x hx => Nat.le_of_lt (copyEnd_lt_succ henlarge hx)) (fun x hx row => ?_)
      (fun row => ?_) (Nat.le_trans henlarge hfuel) out
    · exact ⟨decide_eq_true (by rwa [hplace x (Nat.le_of_lt hx)]),
        copyPixel_eq hreads hfits henlarge hfuel hx row⟩
    · exact decide_eq_false (by rw [hplace _ (Nat.le_refl _)]; exact Nat.lt_irrefl _)
  rw [RowAccess.enlargeRow, ← hstart, hloop, copyEnd_last, bind_assoc]
  exact bind_ok_eq _

end Enlarge

/-- The values of the new row. -/
def scaledValue (srcWidth dstWidth : Nat) (src : Nat → Nat → UInt16) : Nat → Nat → UInt16 :=
  if dstWidth < srcWidth then groupMean srcWidth dstWidth src
  else pixelCopy srcWidth dstWidth src

/-- With nothing but the pixels of the source, each pixel of the new row is stored once. -/
def ScalesTo (channels srcWidth dstWidth : Nat) (src value : Nat → Nat → UInt16) : Prop :=
  ∀ {σ : Type} (access : RowAccess σ) (fuel : Nat) (out : σ), max srcWidth dstWidth ≤ fuel →
    access.Reads channels srcWidth src →
    access.scaleRow fuel channels srcWidth dstWidth out =
      access.writePixels channels dstWidth value out

/-- The loops end, and divide by no zero. -/
theorem scalesTo_scaledValue {channels srcWidth dstWidth : Nat} {src : Nat → Nat → UInt16}
    (hpos : 0 < srcWidth) (hfits : CounterFits srcWidth dstWidth) :
    ScalesTo channels srcWidth dstWidth src (scaledValue srcWidth dstWidth src) := by
  intro σ access fuel out hfuel hreads
  rw [RowAccess.scaleRow, scaledValue]
  by_cases hshrink : dstWidth < srcWidth
  · rw [if_pos hshrink, if_pos hshrink]
    exact shrinkRow_eq hreads hfits hshrink (by omega) out
  · rw [if_neg hshrink, if_neg hshrink]
    exact enlargeRow_eq hreads hfits (Nat.le_of_not_lt hshrink) hpos (by omega) out

/-! ## Averages and copies -/

/-- The pixels are averages, rounded down, of groups of the source, from its start on. -/
def AveragesGroups (channels srcWidth dstWidth : Nat) (src value : Nat → Nat → UInt16) : Prop :=
  ∃ ends : Nat → Nat, ends 0 = 0 ∧ ∀ k < dstWidth,
    ends k < ends (k + 1) ∧ ends (k + 1) ≤ srcWidth ∧
      ∀ c < channels, (value k c).toNat =
        spanSum (fun x => (src x c).toNat) (ends k) (ends (k + 1)) / (ends (k + 1) - ends k)

/-- The pixels are those of the source in their order, none left out. -/
def CopiesPixels (channels srcWidth dstWidth : Nat) (src value : Nat → Nat → UInt16) : Prop :=
  ∃ source : Nat → Nat,
    (∀ k < dstWidth, source k < srcWidth ∧ ∀ c < channels, value k c = src (source k) c) ∧
    (∀ k l, k ≤ l → l < dstWidth → source k ≤ source l) ∧
    (∀ x < srcWidth, ∃ k < dstWidth, source k = x) ∧
    (srcWidth = dstWidth → ∀ k < dstWidth, source k = k)

/-- What a scaled row is to be. -/
def Scaled (channels srcWidth dstWidth : Nat) (src value : Nat → Nat → UInt16) : Prop :=
  (dstWidth < srcWidth → AveragesGroups channels srcWidth dstWidth src value) ∧
    (srcWidth ≤ dstWidth → CopiesPixels channels srcWidth dstWidth src value)

section Scaled

variable {channels srcWidth dstWidth : Nat} {src value : Nat → Nat → UInt16}

theorem copiesPixels_pixelCopy (hpos : 0 < srcWidth) (henlarge : srcWidth ≤ dstWidth) :
    CopiesPixels channels srcWidth dstWidth src (pixelCopy srcWidth dstWidth src) := by
  refine ⟨copySource srcWidth dstWidth, fun k hk => ⟨copySource_lt hpos k, fun c hc => rfl⟩,
    fun k l hle hl => ?_, fun x hx => ?_, fun hsame k hk => ?_⟩
  · have hmono : (dstWidth / 2 + k * srcWidth) / dstWidth ≤
        (dstWidth / 2 + l * srcWidth) / dstWidth :=
      Nat.div_le_div_right (Nat.add_le_add_left (Nat.mul_le_mul_right _ hle) _)
    rw [copySource, copySource]
    omega
  · have hless := copyEnd_lt_succ henlarge hx
    exact ⟨copyEnd srcWidth dstWidth x, Nat.lt_of_lt_of_le hless (copyEnd_le hx),
      copySource_eq hx (Nat.le_refl _) hless⟩
  · rw [copySource, hsame, Nat.add_mul_div_right _ _ (by omega), Nat.div_eq_of_lt (by omega)]
    omega

/-- The quotient of two numbers of 32 bits, cut to those of a channel. -/
theorem toNat_quotient {sum size : Nat} (hsize : size < 2 ^ 32)
    (hfits : sum % 2 ^ 32 / size < 2 ^ 16) :
    (UInt32.ofNat sum / UInt32.ofNat size).toUInt16.toNat = sum % 2 ^ 32 / size := by
  rw [UInt32.toNat_toUInt16, UInt32.toNat_div, UInt32.toNat_ofNat', UInt32.toNat_ofNat',
    Nat.mod_eq_of_lt hsize, Nat.mod_eq_of_lt hfits]

/-- A group whose sum fits into 32 bits is averaged. -/
theorem toNat_groupMean {k c : Nat} (hsize : groupSize srcWidth dstWidth k < 2 ^ 32)
    (hsum : groupSum srcWidth dstWidth src k c < 2 ^ 32) :
    (groupMean srcWidth dstWidth src k c).toNat =
      groupSum srcWidth dstWidth src k c / groupSize srcWidth dstWidth k := by
  have hle : groupSum srcWidth dstWidth src k c / groupSize srcWidth dstWidth k ≤ 2 ^ 16 - 1 :=
    Nat.div_le_of_le_mul (spanSum_le fun x _ _ => Nat.le_sub_one_of_lt (UInt16.toNat_lt _))
  have hsame := Nat.mod_eq_of_lt hsum
  rw [groupMean, toNat_quotient hsize (by rw [hsame]; omega), hsame]

/-- Averages are right if the sums fit into 32 bits. -/
theorem averagesGroups_groupMean (hfits : CounterFits srcWidth dstWidth)
    (hshrink : dstWidth < srcWidth)
    (hsums : ∀ k < dstWidth, ∀ c < channels, groupSum srcWidth dstWidth src k c < 2 ^ 32) :
    AveragesGroups channels srcWidth dstWidth src (groupMean srcWidth dstWidth src) := by
  refine ⟨shareEnd srcWidth dstWidth, shareEnd_zero _ _, fun k hk => ?_⟩
  have hwidth := hfits.srcWidth_lt hshrink hk
  have hsize := @groupSize_le srcWidth dstWidth k hk
  exact ⟨shareEnd_lt_succ (Nat.zero_lt_of_lt hk) (Nat.le_of_lt hshrink), shareEnd_le_srcWidth hk,
    fun c hc => toNat_groupMean (by omega) (hsums k hk c hc)⟩

/-- A row whose sums fit is scaled as it is to be. -/
theorem scaled_scaledValue (hpos : 0 < srcWidth) (hfits : CounterFits srcWidth dstWidth)
    (hsums : dstWidth < srcWidth → ∀ k < dstWidth, ∀ c < channels,
      groupSum srcWidth dstWidth src k c < 2 ^ 32) :
    Scaled channels srcWidth dstWidth src (scaledValue srcWidth dstWidth src) := by
  refine ⟨fun hshrink => ?_, fun henlarge => ?_⟩
  · rw [scaledValue, if_pos hshrink]
    exact averagesGroups_groupMean hfits hshrink (hsums hshrink)
  · rw [scaledValue, if_neg (Nat.not_lt.mpr henlarge)]
    exact copiesPixels_pixelCopy hpos henlarge

/-- The row as a function of the pixel and the channel. -/
def recordAccess (channels width : Nat) (src : Nat → Nat → UInt16) :
    RowAccess (Nat → Nat → UInt16) where
  get x c := if x < width ∧ c < channels then .ok (src x c) else .error .unfinished
  set out x c value := .ok (Function.update out x (Function.update (out x) c value))

theorem recordAccess_writePixel (k : Nat) (out : Nat → Nat → UInt16) :
    ∃ out', (recordAccess channels srcWidth src).writePixel channels value k out = .ok out' ∧
      (∀ c < channels, out' k c = value k c) ∧ ∀ l ≠ k, out' l = out l := by
  have hloop : ∃ out' : Nat → Nat → UInt16,
      (recordAccess channels srcWidth src).writePixel channels value k out = .ok out' ∧
      (∀ c < channels, out' k c = value k c) ∧ ∀ l ≠ k, out' l = out l := by
    refine forTo_invariant (I := fun i (row : Nat → Nat → UInt16) =>
      (∀ c < i, row k c = value k c) ∧ ∀ l ≠ k, row l = out l)
      ⟨fun c hc => absurd hc (Nat.not_lt_zero c), fun l _ => rfl⟩ fun i hi row hrow => ?_
    refine ⟨_, rfl, fun c hc => ?_, fun l hl => ?_⟩
    · rw [Function.update_self]
      by_cases hlast : c = i
      · rw [hlast, Function.update_self]
      · rw [Function.update_of_ne hlast]
        exact hrow.1 c (by omega)
    · rw [Function.update_of_ne hl]
      exact hrow.2 l hl
  exact hloop

theorem recordAccess_writePixels (width : Nat) (out : Nat → Nat → UInt16) :
    ∃ out', (recordAccess channels srcWidth src).writePixels channels width value out = .ok out' ∧
      ∀ k < width, ∀ c < channels, out' k c = value k c := by
  refine forTo_invariant (I := fun i (row : Nat → Nat → UInt16) =>
    ∀ k < i, ∀ c < channels, row k c = value k c)
    (fun k hk => absurd hk (Nat.not_lt_zero k)) fun i hi row hrow => ?_
  obtain ⟨row', hwrite, hself, hother⟩ := @recordAccess_writePixel channels srcWidth src value i row
  refine ⟨row', hwrite, fun k hk c hc => ?_⟩
  by_cases hlast : k = i
  · rw [hlast]
    exact hself c hc
  · rw [hother k hlast]
    exact hrow k (by omega) c hc

/-- There is only one row that a row is scaled to. -/
theorem ScalesTo.unique {value' : Nat → Nat → UInt16}
    (h : ScalesTo channels srcWidth dstWidth src value)
    (h' : ScalesTo channels srcWidth dstWidth src value') {k c : Nat} (hk : k < dstWidth)
    (hc : c < channels) : value k c = value' k c := by
  have hreads : (recordAccess channels srcWidth src).Reads channels srcWidth src :=
    fun x hx c hc => if_pos ⟨hx, hc⟩
  have hrun := h _ (max srcWidth dstWidth) (fun _ _ => 0) (Nat.le_refl _) hreads
  rw [h' _ (max srcWidth dstWidth) (fun _ _ => 0) (Nat.le_refl _) hreads] at hrun
  obtain ⟨out, hwrite, hout⟩ := @recordAccess_writePixels channels srcWidth src value dstWidth
    (fun _ _ => 0)
  obtain ⟨out', hwrite', hout'⟩ := @recordAccess_writePixels channels srcWidth src value' dstWidth
    (fun _ _ => 0)
  rw [hwrite, hwrite'] at hrun
  rw [← hout k hk c hc, ← hout' k hk c hc, Except.ok.inj hrun]

/-- Of pixels that are all the same, whatever they are grouped to, the average is the same. -/
theorem average_of_same {pixel : UInt16}
    (haverages : AveragesGroups channels srcWidth dstWidth (fun _ _ => pixel) value) {k c : Nat}
    (hk : k < dstWidth) (hc : c < channels) : (value k c).toNat = pixel.toNat := by
  obtain ⟨ends, -, hends⟩ := haverages
  obtain ⟨hless, -, hvalue⟩ := hends k hk
  rw [hvalue c hc, spanSum_const, Nat.mul_div_cancel_left _ (Nat.sub_pos_of_lt hless)]

/-- Where the sum of a group does not fit, a row of the greatest values is not scaled right. -/
theorem not_scaled_of_sum (hpos : 0 < srcWidth) (hfits : CounterFits srcWidth dstWidth)
    (hshrink : dstWidth < srcWidth) (hchannels : 0 < channels) {pixel : UInt16} {k : Nat}
    (hk : k < dstWidth) (hsum : 2 ^ 32 ≤ groupSize srcWidth dstWidth k * pixel.toNat)
    (hscales : ScalesTo channels srcWidth dstWidth (fun _ _ => pixel) value) :
    ¬ AveragesGroups channels srcWidth dstWidth (fun _ _ => pixel) value := by
  intro haverages
  have hvalue := average_of_same haverages hk hchannels
  have hwidth := hfits.srcWidth_lt hshrink hk
  have hsize := @groupSize_le srcWidth dstWidth k hk
  have hall : groupSum srcWidth dstWidth (fun _ _ => pixel) k 0 =
      groupSize srcWidth dstWidth k * pixel.toNat := spanSum_const _ _ _
  rw [hscales.unique (scalesTo_scaledValue hpos hfits) hk hchannels, scaledValue, if_pos hshrink,
    groupMean, hall] at hvalue
  -- what is left of the sum is less than it
  have hless : groupSize srcWidth dstWidth k * pixel.toNat % 2 ^ 32 / groupSize srcWidth dstWidth k
      < pixel.toNat := by
    refine Nat.div_lt_of_lt_mul ?_
    have hmod := Nat.mod_lt (groupSize srcWidth dstWidth k * pixel.toNat)
      (show 2 ^ 32 > 0 by decide)
    omega
  have hbound := UInt16.toNat_lt pixel
  rw [toNat_quotient (by omega) (by omega)] at hvalue
  omega

end Scaled

/-! ## All rows of a format -/

/-- Every row of the format is scaled as it is to be. -/
def ScalesRight (format : PixelFormat) (srcWidth dstWidth : Nat) : Prop :=
  ∀ src : Nat → Nat → UInt16,
    (∀ x < srcWidth, ∀ c < format.channels, (src x c).toNat < 2 ^ format.depth) →
    ∃ value, ScalesTo format.channels srcWidth dstWidth src value ∧
      Scaled format.channels srcWidth dstWidth src value

/-- When a row is shrunk, even the greatest sum of a group fits into 32 bits. -/
def SumsFit (format : PixelFormat) (srcWidth dstWidth : Nat) : Prop :=
  dstWidth < srcWidth → ∀ k < dstWidth,
    groupSize srcWidth dstWidth k * (2 ^ format.depth - 1) < 2 ^ 32

section Formats

variable {format : PixelFormat} {srcWidth dstWidth : Nat}

/-- Widths that fit into 32 bits together. -/
theorem counterFits_of_le (hpos : 0 < srcWidth) (hsum : srcWidth + dstWidth ≤ 2 ^ 32) :
    CounterFits srcWidth dstWidth := by
  rw [CounterFits]
  split_ifs with hshrink
  · exact fun k hk => shareFits_of_le (Nat.zero_lt_of_lt hk) hsum
  · exact ⟨by omega, fun k hk => shareFits_of_le hpos (by omega)⟩

theorem sumsFit_of_scalesRight (hknown : format ≠ .unknown) (hpos : 0 < srcWidth)
    (hfits : CounterFits srcWidth dstWidth) (hright : ScalesRight format srcWidth dstWidth) :
    SumsFit format srcWidth dstWidth := by
  intro hshrink k hk
  have hchannels : 0 < format.channels := by
    have hsome := channels_of_known hknown
    omega
  have hpower : 1 ≤ 2 ^ format.depth ∧ 2 ^ format.depth ≤ 2 ^ 16 := by
    obtain hdepth | hdepth | hdepth := isDepth_of_known hknown
    · rw [hdepth]
      decide
    · rw [hdepth]
      decide
    · rw [hdepth]
      decide
  have hwhite : (UInt16.ofNat (2 ^ format.depth - 1)).toNat = 2 ^ format.depth - 1 :=
    UInt16.toNat_ofNat_of_lt' (by rw [UInt16.size]; omega)
  by_contra hsum
  obtain ⟨value, hscales, hscaled⟩ := hright (fun _ _ => UInt16.ofNat (2 ^ format.depth - 1))
    fun x _ c _ => by
      rw [hwhite]
      omega
  refine not_scaled_of_sum hpos hfits hshrink hchannels hk ?_ hscales (hscaled.1 hshrink)
  rw [hwhite]
  exact Nat.le_of_not_lt hsum

theorem scalesRight_of_sumsFit (hpos : 0 < srcWidth) (hfits : CounterFits srcWidth dstWidth)
    (hsums : SumsFit format srcWidth dstWidth) : ScalesRight format srcWidth dstWidth := by
  intro src hsrc
  refine ⟨_, scalesTo_scaledValue hpos hfits,
    scaled_scaledValue hpos hfits fun hshrink k hk c hc => ?_⟩
  have hinside := @shareEnd_le_srcWidth srcWidth dstWidth k hk
  calc groupSum srcWidth dstWidth src k c
      ≤ groupSize srcWidth dstWidth k * (2 ^ format.depth - 1) :=
        spanSum_le fun x _ hx =>
          Nat.le_sub_one_of_lt (hsrc x (Nat.lt_of_lt_of_le hx hinside) c hc)
    _ < 2 ^ 32 := hsums hshrink k hk

/-- As long as its counter does not wrap, the node scales all rows as it is to do, if and only if
the greatest sums fit. -/
theorem scalesRight_iff (hknown : format ≠ .unknown) (hpos : 0 < srcWidth)
    (hfits : CounterFits srcWidth dstWidth) :
    ScalesRight format srcWidth dstWidth ↔ SumsFit format srcWidth dstWidth :=
  ⟨sumsFit_of_scalesRight hknown hpos hfits, scalesRight_of_sumsFit hpos hfits⟩

theorem scalesRight_iff_fivePixels :
    PixelFormat.i8 ≠ .unknown ∧ 0 < 5 ∧ CounterFits 5 2 ∧ ScalesRight .i8 5 2 := by
  have hknown : PixelFormat.i8 ≠ .unknown := by decide
  have hfits : CounterFits 5 2 := counterFits_of_le (by decide) (by decide)
  have hsums : SumsFit .i8 5 2 := by
    intro _ k hk
    interval_cases k <;> decide
  exact ⟨hknown, by decide, hfits, (scalesRight_iff hknown (by decide) hfits).mpr hsums⟩

/-- The sum of more than 65537 white pixels of 16 bits does not fit; they are stored as black. -/
theorem not_scalesRight_wideRow :
    ¬ ScalesRight .i16 131076 1 ∧ ∃ value, ScalesTo 1 131076 1 (fun _ _ => 0xffff) value ∧
      value 0 0 = 0 ∧ ¬ AveragesGroups 1 131076 1 (fun _ _ => 0xffff) value := by
  have hfits : CounterFits 131076 1 := counterFits_of_le (by decide) (by decide)
  have hsize : groupSize 131076 1 0 = 65538 := by
    rw [groupSize, shareEnd, shareEnd]
  have hscales : ScalesTo 1 131076 1 (fun _ _ => 0xffff)
      (scaledValue 131076 1 fun _ _ => 0xffff) := scalesTo_scaledValue (by decide) hfits
  refine ⟨fun hright => ?_, _, hscales, ?_, ?_⟩
  · have hsum := sumsFit_of_scalesRight (by decide) (by decide) hfits hright (by decide) 0
      (by decide)
    rw [hsize] at hsum
    exact absurd hsum (by decide)
  · have hall : groupSum 131076 1 (fun _ _ => 0xffff) 0 0 = 65538 * 65535 := by
      rw [← hsize]
      exact spanSum_const _ _ _
    rw [scaledValue, if_pos (by decide), groupMean, hall, hsize]
    decide
  · refine not_scaled_of_sum (by decide) hfits (by decide) Nat.one_pos Nat.one_pos ?_ hscales
    rw [hsize]
    decide

end Formats

/-! ## Rows of the node -/

section Rows

variable {format : PixelFormat} {data out : List UInt8} {width : Nat}

/-- The values that a row holds. -/
def HoldsRow (format : PixelFormat) (width : Nat) (row : List UInt8)
    (value : Nat → Nat → UInt16) : Prop :=
  ∀ x < width, ∀ c < format.channels, getRawChannelFromRow row x c format = .ok (value x c)

theorem channel_inside {x c : Nat} (hx : x < width) (hc : c < format.channels)
    (hroom : rowSize format width ≤ data.length) :
    format.channelPlace x c + format.depth ≤ 8 * data.length := by
  have hpixel := pixel_inside hroom hx
  have hchannel : c * format.depth + format.depth ≤ format.channels * format.depth :=
    part_end_le hc
  rw [totalBits_eq] at hpixel
  rw [PixelFormat.channelPlace, totalBits_eq]
  omega

theorem rowAccess_reads (hroom : rowSize format width ≤ data.length) :
    ∃ src : Nat → Nat → UInt16, HoldsRow format width data src ∧
      (rowAccess data format).Reads format.channels width src ∧
      ∀ x < width, ∀ c < format.channels, (src x c).toNat < 2 ^ format.depth := by
  have hchannel : ∀ x c, ∃ value : UInt16, x < width → c < format.channels →
      getRawChannelFromRow data x c format = .ok value ∧ value.toNat < 2 ^ format.depth := by
    intro x c
    by_cases hinside : x < width ∧ c < format.channels
    · obtain ⟨value, hget, hbound, -⟩ :=
        getRawChannelFromRow_spec hinside.2 (channel_inside hinside.1 hinside.2 hroom)
      exact ⟨value, fun _ _ => ⟨hget, hbound⟩⟩
    · exact ⟨0, fun hx hc => absurd ⟨hx, hc⟩ hinside⟩
  choose src hsrc using hchannel
  refine ⟨src, fun x hx c hc => (hsrc x c hx hc).1, fun x hx c hc => ?_,
    fun x hx c hc => (hsrc x c hx hc).2⟩
  exact congrArg inRow (hsrc x c hx hc).1

/-- The row holds the values that are stored into it. -/
theorem rowAccess_writePixels {value : Nat → Nat → UInt16}
    (hvalue : ∀ x < width, ∀ c < format.channels, (value x c).toNat < 2 ^ format.depth)
    (hroom : rowSize format width ≤ out.length) :
    ∃ row, (rowAccess data format).writePixels format.channels width value out = .ok row ∧
      row.length = out.length ∧ HoldsRow format width row value := by
  have hplace : ∀ x c, format.channelPlace x c = (x * format.channels + c) * format.depth := by
    intro x c
    rw [PixelFormat.channelPlace, totalBits_eq]
    ring
  obtain ⟨row, hloop, hwrote⟩ := @wrote_forTo out (width * format.channels) ScaleFailure
    format.depth
    (fun k row => (rowAccess data format).set row (k / format.channels) (k % format.channels)
      (value (k / format.channels) (k % format.channels)))
    (fun k => channelBit format.depth (value (k / format.channels) (k % format.channels)))
    fun k hk row hlength => by
      have hx : k / format.channels < width :=
        Nat.div_lt_of_lt_mul (by rwa [Nat.mul_comm format.channels])
      have hc : k % format.channels < format.channels :=
        Nat.mod_lt _ (Nat.pos_of_mul_pos_left (Nat.zero_lt_of_lt hk))
      obtain ⟨row', hset, hwrote⟩ := setRawChannelToRow_spec hc
        (channel_inside hx hc (hlength ▸ hroom))
        (value (k / format.channels) (k % format.channels))
      rw [hplace, Nat.mul_comm _ format.channels, Nat.div_add_mod] at hwrote
      exact ⟨row', congrArg inRow hset, hwrote⟩
  refine ⟨row, ?_, hwrote.length, fun x hx c hc => ?_⟩
  · rw [← hloop]
    exact forTo_mul width format.channels
      (fun x c row => (rowAccess data format).set row x c (value x c)) out
  · refine getRawChannelFromRow_of_value hc (hvalue x hx c hc) fun k hk => ?_
    have hbit := hwrote.inside (part_lt (part_lt hx hc) hk)
    rw [Nat.zero_add, part_div hk, part_mod hk, part_div hc, part_mod hc] at hbit
    rw [hplace, hbit]

/-- Averages and copies are values of the format too. -/
theorem Scaled.lt {channels srcWidth dstWidth bound : Nat} {src value : Nat → Nat → UInt16}
    (h : Scaled channels srcWidth dstWidth src value)
    (hsrc : ∀ x < srcWidth, ∀ c < channels, (src x c).toNat < bound) :
    ∀ k < dstWidth, ∀ c < channels, (value k c).toNat < bound := by
  intro k hk c hc
  by_cases hshrink : dstWidth < srcWidth
  · obtain ⟨ends, -, hends⟩ := h.1 hshrink
    obtain ⟨hless, hinside, hvalue⟩ := hends k hk
    have hfirst := hsrc (ends k) (by omega) c hc
    have hle : spanSum (fun x => (src x c).toNat) (ends k) (ends (k + 1)) ≤
        (ends (k + 1) - ends k) * (bound - 1) :=
      spanSum_le fun x _ hx => Nat.le_sub_one_of_lt (hsrc x (by omega) c hc)
    have hmean := Nat.div_le_of_le_mul hle
    rw [hvalue c hc]
    omega
  · obtain ⟨source, hcopy, -⟩ := h.2 (Nat.le_of_not_lt hshrink)
    obtain ⟨hinside, hvalue⟩ := hcopy k hk
    rw [hvalue c hc]
    exact hsrc _ hinside c hc

/-- The node makes of a row of its source the row that it is to be scaled to. -/
theorem scaleRows_row {σ : Type} {node : ScaleRowsNode σ} (hknown : node.source.format ≠ .unknown)
    (hpos : 0 < node.source.width) (hfits : CounterFits node.source.width node.width)
    (hsums : SumsFit node.source.format node.source.width node.width) {st st' : σ}
    {cachedLine cachedLine' : List UInt8} {gotData : Bool}
    (hget : node.source.getNextRowData st cachedLine = .ok (gotData, st', cachedLine'))
    (hcached : node.source.rowBytes ≤ cachedLine'.length)
    (hout : rowSize node.source.format node.width ≤ out.length) {fuel : Nat}
    (hfuel : max node.source.width node.width ≤ fuel) :
    ∃ row src value, node.getNextRowData fuel (st, cachedLine) out =
        .ok (gotData, (st', cachedLine'), row) ∧ row.length = out.length ∧
      HoldsRow node.source.format node.source.width cachedLine' src ∧
      HoldsRow node.source.format node.width row value ∧
      Scaled node.source.format.channels node.source.width node.width src value := by
  obtain ⟨src, hholds, hreads, hsrc⟩ := @rowAccess_reads _ cachedLine' _ hcached
  obtain ⟨value, hscales, hscaled⟩ := scalesRight_of_sumsFit hpos hfits hsums src hsrc
  obtain ⟨row, hwrite, hlength, hrow⟩ :=
    @rowAccess_writePixels _ cachedLine' _ _ _ (hscaled.lt hsrc) hout
  refine ⟨row, src, value, ?_, hlength, hholds, hrow, hscaled⟩
  rw [ScaleRowsNode.getNextRowData, hget, getPixelChannels_eq hknown]
  simp only [inRow, throws, ok_bind]
  rw [hscales _ fuel out hfuel hreads, hwrite, ok_bind]

end Rows

end SaneBackends.Genesys
