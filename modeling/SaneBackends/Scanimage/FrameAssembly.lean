import Mathlib.Data.List.GetD
import SaneBackends.Lib.Succeeds
import SaneBackends.Scanimage.ScanIt
/-!
# Assembly in the image buffer

The bytes of a frame are stored as far apart as there are frames, in a buffer that gets a strip of
lines more whenever a line more is complete than it had announced room for. `Filled` is what holds
behind each byte.
-/

namespace SaneBackends.Scanimage

open SaneBackends.Lib

/-- The lines of the buffer once so many are complete. -/
def bufferLines (start complete : Nat) : Nat :=
  start + (complete + 1 - start + 255) / 256 * 256

/-! ## Lines of the buffer -/

section Lines

variable {start complete complete' : Nat}

theorem lt_bufferLines (start complete : Nat) : complete < bufferLines start complete := by
  unfold bufferLines
  omega

theorem bufferLines_zero (h : 0 < start) : bufferLines start 0 = start := by
  unfold bufferLines
  omega

theorem bufferLines_mono (h : complete ≤ complete') :
    bufferLines start complete ≤ bufferLines start complete' := by
  unfold bufferLines
  omega

theorem bufferLines_of_lt (hle : complete ≤ complete') (h : complete' < bufferLines start complete) :
    bufferLines start complete' = bufferLines start complete := by
  unfold bufferLines at *
  omega

theorem bufferLines_succ (h : bufferLines start complete ≤ complete + 1) :
    bufferLines start (complete + 1) = bufferLines start complete + 256 := by
  unfold bufferLines at *
  omega

end Lines

/-! ## Sizes -/

section Sizes

theorem int_eq {n : Nat} (h : n < 2 ^ 31) : int n = .ok (n : Int) := if_pos (by omega)

theorem int_overflow {n : Nat} (h : 2 ^ 31 ≤ n) : int n = .error .overflow := if_neg (by omega)

variable {image : Image} {H W C : Nat}

/-- The product is computed from the left, and each factor is positive. -/
theorem size_succeeds (hheight : image.height = H) (hwidth : image.width = W)
    (hchannels : image.numChannels = C) (hC : 0 < C) :
    SucceedsIff image.size (H * W * C < 2 ^ 31) (· = H * W * C) := by
  have hle : H * W ≤ H * W * C := Nat.le_mul_of_pos_right _ hC
  rw [Image.size, hheight, hwidth, hchannels, ← Nat.cast_mul]
  by_cases hlines : H * W < 2 ^ 31
  · rw [int_eq hlines, ok_bind, ← Nat.cast_mul]
    by_cases hsize : H * W * C < 2 ^ 31
    · rw [int_eq hsize]
      exact .ok (Int.toNat_natCast _) hsize
    · rw [int_overflow (Nat.not_lt.mp hsize)]
      exact .error _ hsize
  · rw [int_overflow (Nat.not_lt.mp hlines)]
    exact .error _ fun hsize => hlines (Nat.lt_of_le_of_lt hle hsize)

/-- The buffer after it has grown. -/
def grown (image : Image) (oldSize H size : Nat) : Image :=
  { image with
    height := H
    data := some ⟨size, fun i => if i < oldSize then
      (image.data.map fun data => data.cell i).getD 0 else 0⟩ }

theorem growImage_succeeds {oldSize : Nat}
    (hold : image.oldSize = .ok oldSize) (hheight : image.height + stripHeight = H)
    (hwidth : image.width = W) (hchannels : image.numChannels = C) (hW : 0 < W) (hC : 0 < C) :
    SucceedsIff (growImage (fun _ => true) image) (H * W * C < 2 ^ 31)
      (· = grown image oldSize H (H * W * C)) := by
  have hle : H ≤ H * W * C := Nat.le_trans (Nat.le_mul_of_pos_right _ hW)
    (Nat.le_mul_of_pos_right _ hC)
  rw [growImage, hold, ok_bind, hheight]
  by_cases hH : H < 2 ^ 31
  · rw [int_eq hH, ok_bind]
    have hnew : SucceedsIff ({ image with height := (H : Int) } : Image).size (H * W * C < 2 ^ 31)
        (· = H * W * C) := size_succeeds rfl hwidth hchannels hC
    refine hnew.bind id fun hfits size hsize => ?_
    rw [hsize]
    exact .ok rfl hfits
  · rw [int_overflow (Nat.not_lt.mp hH)]
    exact .error _ fun hsize => hH (Nat.lt_of_le_of_lt hle hsize)

end Sizes

/-! ## What the buffer holds -/

section Filled

variable {start W C peak b o : Nat} {streams : Nat → List UInt8} {image : Image}
  {data : Cells UInt8}

/-- The cells have the bytes of each stream, `C` apart. -/
def Interleaved (C : Nat) (streams : Nat → List UInt8) (data : Cells UInt8) : Prop :=
  ∀ c < C, ∀ k < (streams c).length, data.cell (c + C * k) = (streams c).getD k 0

theorem Interleaved.put (h : Interleaved C streams data) (ho : o < C) (byte : UInt8) :
    Interleaved C (Function.update streams o (streams o ++ [byte]))
      (data.put (o + C * (streams o).length) byte) := by
  intro c hc k hk
  by_cases hco : c = o
  · subst hco
    rw [Function.update_self] at hk ⊢
    by_cases hlast : k = (streams c).length
    · subst hlast
      rw [Cells.cell_put_self, List.getD_append_right _ _ _ _ (Nat.le_refl _), Nat.sub_self]
      rfl
    · have hbefore : k < (streams c).length := by
        rw [List.length_append, List.length_singleton] at hk
        omega
      have hne : c + C * k ≠ c + C * (streams c).length := by
        intro heq
        exact hlast (Nat.eq_of_mul_eq_mul_left (by omega) (Nat.add_left_cancel heq))
      rw [Cells.cell_put_of_ne hne, List.getD_append _ _ _ _ hbefore]
      exact h c hc k hbefore
  · rw [Function.update_of_ne hco] at hk ⊢
    have hne : c + C * k ≠ o + C * (streams o).length := by
      intro heq
      have hmod := congrArg (· % C) heq
      rw [Nat.add_mul_mod_self_left, Nat.add_mul_mod_self_left, Nat.mod_eq_of_lt hc,
        Nat.mod_eq_of_lt ho] at hmod
      exact hco hmod
    rw [Cells.cell_put_of_ne hne]
    exact h c hc k hk

/-- Behind `b` bytes of a frame, when so many lines have been complete at most. -/
structure Filled (start W C peak b : Nat) (streams : Nat → List UInt8) (image : Image) : Prop where
  width : image.width = W
  height : image.height = bufferLines start peak
  x : image.x = (b % W : Nat)
  y : image.y = (b / W : Nat)
  numChannels : image.numChannels = C
  data : ∃ data, image.data = some data ∧ data.size = bufferLines start peak * W * C ∧
    Interleaved C streams data
  room : ∀ c < C, (streams c).length ≤ bufferLines start peak * W
  reached : b / W ≤ peak
  fits : bufferLines start peak * W * C < 2 ^ 31

theorem Interleaved.grown {H : Nat} (h : Interleaved C streams data)
    (hroom : ∀ c < C, (streams c).length ≤ H * W) (himage : image.data = some data) (H' size : Nat) :
    ∃ data', (grown image (H * W * C) H' size).data = some data' ∧ data'.size = size ∧
      Interleaved C streams data' := by
  refine ⟨_, rfl, rfl, fun c hc k hk => ?_⟩
  have hlt : c + C * k < H * W * C := by
    have hnext : k + 1 ≤ H * W := Nat.le_trans hk (hroom c hc)
    calc c + C * k < C + C * k := Nat.add_lt_add_right hc _
      _ = (k + 1) * C := by ring
      _ ≤ H * W * C := Nat.mul_le_mul_right C hnext
  dsimp only
  rw [if_pos hlt, himage]
  exact h c hc k hk

theorem succ_within (hline : b % W + 1 < W) : (b + 1) / W = b / W ∧ (b + 1) % W = b % W + 1 := by
  have hdiv := Nat.div_add_mod b W
  exact (Nat.div_mod_unique (Nat.zero_lt_of_lt hline)).mpr ⟨by omega, hline⟩

theorem succ_line (hW : 0 < W) (hline : W ≤ b % W + 1) :
    (b + 1) / W = b / W + 1 ∧ (b + 1) % W = 0 := by
  have hdiv := Nat.div_add_mod b W
  have hmod := Nat.mod_lt b hW
  refine (Nat.div_mod_unique hW).mpr ⟨?_, hW⟩
  rw [Nat.mul_add, Nat.mul_one]
  omega

/-- The position behind a byte more, in a line more where it ends one. -/
theorem Filled.advance (h : Filled start W C peak b streams image) (hW : 0 < W) (hC : 0 < C)
    (data : Cells UInt8) (streams' : Nat → List UInt8)
    (hsize : data.size = bufferLines start peak * W * C) (hheld : Interleaved C streams' data)
    (hroom : ∀ c < C, (streams' c).length ≤ bufferLines start peak * W) :
    SucceedsIff (advance (fun _ => true) { image with data := some data })
      (bufferLines start (max peak ((b + 1) / W)) * W * C < 2 ^ 31)
      (Filled start W C (max peak ((b + 1) / W)) (b + 1) streams') := by
  rw [Scanimage.advance]
  dsimp only
  by_cases hline : b % W + 1 < W
  · -- the line goes on
    obtain ⟨hdiv, hmod⟩ := succ_within hline
    rw [if_neg (by rw [h.width, h.x]; omega), hdiv, Nat.max_eq_left h.reached]
    refine .ok ⟨h.width, h.height, ?_, ?_, h.numChannels, ⟨data, rfl, hsize, hheld⟩, hroom, ?_,
      h.fits⟩ h.fits
    · dsimp only
      rw [h.x, hmod]
      omega
    · rw [hdiv]
      exact h.y
    · rw [hdiv]
      exact h.reached
  · obtain ⟨hdiv, hmod⟩ := succ_line hW (Nat.not_lt.mp hline)
    have hpeak := h.reached
    have hlt := lt_bufferLines start peak
    rw [if_pos (by rw [h.width, h.x]; omega), hdiv]
    by_cases hroomLeft : b / W + 1 < bufferLines start peak
    · -- the buffer has another line
      have hkeep : bufferLines start (max peak (b / W + 1)) = bufferLines start peak :=
        bufferLines_of_lt (Nat.le_max_left ..) (by omega)
      have hgrow : ¬ (image.height ≤ image.y + 1 ∨ (some data).isNone = true) := by
        rw [h.height, h.y]
        rintro (hle | hnone)
        · omega
        · cases hnone
      rw [if_neg hgrow, hkeep]
      refine .ok ⟨h.width, ?_, ?_, ?_, h.numChannels, ⟨data, rfl, ?_, hheld⟩, ?_, ?_, ?_⟩ h.fits
      · rw [hkeep]
        exact h.height
      · rw [hmod]
        rfl
      · dsimp only
        rw [h.y, hdiv]
        omega
      · rw [hkeep]
        exact hsize
      · rw [hkeep]
        exact hroom
      · rw [hdiv]
        exact Nat.le_max_right ..
      · rw [hkeep]
        exact h.fits
    · -- it gets a strip
      have hlast : b / W = peak := by omega
      have hstrip : bufferLines start (peak + 1) = bufferLines start peak + 256 :=
        bufferLines_succ (by omega)
      rw [hlast, Nat.max_eq_right (Nat.le_succ peak)]
      rw [if_pos (Or.inl (by rw [h.height, h.y]; omega))]
      set lined : Image := { image with data := some data, x := 0, y := image.y + 1 } with hlined
      have hold : lined.oldSize = .ok (bufferLines start peak * W * C) := by
        obtain ⟨size, hrun, rfl⟩ :=
          (@size_succeeds lined _ W C h.height h.width h.numChannels hC).ends h.fits
        exact hrun
      have hheight : lined.height + stripHeight = (bufferLines start (peak + 1) : Nat) := by
        rw [hstrip, Nat.cast_add, ← h.height]
        rfl
      refine (growImage_succeeds hold hheight h.width h.numChannels hW hC).conseq
        fun hfits next hnext => ?_
      subst hnext
      refine ⟨h.width, rfl, ?_, ?_, h.numChannels, hheld.grown hroom rfl _ _, fun c hc => ?_, ?_,
        hfits⟩
      · rw [hmod]
        rfl
      · rw [hdiv]
        change image.y + 1 = _
        rw [h.y]
        omega
      · exact Nat.le_trans (hroom c hc) (Nat.mul_le_mul_right W (bufferLines_mono (Nat.le_succ peak)))
      · omega

/-- A byte is stored, and the position goes on. -/
theorem Filled.bufferByte (h : Filled start W C peak b streams image) (hW : 0 < W) (hC : 0 < C)
    (ho : o < C) (hb : (streams o).length = b) (byte : UInt8) :
    SucceedsIff (bufferByte (fun _ => true) (o + C * b) byte image)
      (bufferLines start (max peak ((b + 1) / W)) * W * C < 2 ^ 31)
      (∃ image', · = some image' ∧ Filled start W C (max peak ((b + 1) / W)) (b + 1)
        (Function.update streams o (streams o ++ [byte])) image') := by
  obtain ⟨data, himage, hsize, hheld⟩ := h.data
  have hbelow : b < bufferLines start peak * W :=
    (Nat.div_lt_iff_lt_mul hW).mp (Nat.lt_of_le_of_lt h.reached (lt_bufferLines start peak))
  have hindex : o + C * b < data.size := by
    rw [hsize]
    calc o + C * b < C + C * b := Nat.add_lt_add_right ho _
      _ = (b + 1) * C := by ring
      _ ≤ bufferLines start peak * W * C := Nat.mul_le_mul_right C hbelow
  have hput := hheld.put ho byte
  rw [hb] at hput
  rw [Scanimage.bufferByte, himage]
  dsimp only
  rw [if_pos hindex]
  refine (h.advance hW hC (data.put (o + C * b) byte) _ hsize hput fun c hc => ?_).bind id
    fun hfits next hnext => ?_
  · by_cases hco : c = o
    · rw [hco, Function.update_self, List.length_append, hb]
      exact hbelow
    · rw [Function.update_of_ne hco]
      exact h.room c hc
  · obtain ⟨data', hdata', -, -⟩ := hnext.data
    refine .ok ⟨next, if_pos ?_, hnext⟩ hfits
    rw [hdata']
    rfl

theorem bufferSize_mono {peak' : Nat} (hle : peak ≤ peak')
    (hfits : bufferLines start peak' * W * C < 2 ^ 31) :
    bufferLines start peak * W * C < 2 ^ 31 :=
  Nat.lt_of_le_of_lt
    (Nat.mul_le_mul_right C (Nat.mul_le_mul_right W (bufferLines_mono hle))) hfits

/-- The bytes of a read are stored. -/
theorem Filled.bufferBytes (h : Filled start W C peak b streams image) (hW : 0 < W) (hC : 0 < C)
    (ho : o < C) (hb : (streams o).length = b) (chunk : List UInt8) :
    SucceedsIff (bufferBytes (fun _ => true) C (o + C * b) chunk image)
      (bufferLines start (max peak ((b + chunk.length) / W)) * W * C < 2 ^ 31)
      (∃ image', · = some image' ∧ Filled start W C (max peak ((b + chunk.length) / W))
        (b + chunk.length) (Function.update streams o (streams o ++ chunk)) image') := by
  induction chunk generalizing peak b streams image with
  | nil =>
      rw [List.length_nil, Nat.add_zero, Nat.max_eq_left h.reached, List.append_nil,
        Function.update_eq_self]
      exact .ok ⟨image, rfl, h⟩ h.fits
  | cons byte rest ih =>
      have hcount : b + (byte :: rest).length = b + 1 + rest.length := by
        rw [List.length_cons]
        omega
      have hpeak : max peak ((b + (byte :: rest).length) / W) =
          max (max peak ((b + 1) / W)) ((b + 1 + rest.length) / W) := by
        rw [hcount, Nat.max_assoc, Nat.max_eq_right (Nat.div_le_div_right (Nat.le_add_right ..))]
      rw [hpeak, Scanimage.bufferBytes]
      refine (h.bufferByte hW hC ho hb byte).bind
        (bufferSize_mono (Nat.le_max_left ..)) fun _ next hnext => ?_
      obtain ⟨image', rfl, hfilled⟩ := hnext
      have hlength : (Function.update streams o (streams o ++ [byte]) o).length = b + 1 := by
        rw [Function.update_self, List.length_append, hb]
        rfl
      have hrest := ih hfilled hlength
      rw [Function.update_self, Function.update_idem, List.append_assoc] at hrest
      rw [Nat.mul_succ, ← Nat.add_assoc] at hrest
      rw [hcount]
      exact hrest

end Filled

end SaneBackends.Scanimage
