import SaneBackends.Escl.StreamReads
/-!
# The crop rectangle that a streamed page gives

Reads of a page return the crop rectangle of the decoded image, with three bytes a pixel, where
the JPEG reader has no line to leave out and the TIFF reader supports the image.
-/

namespace SaneBackends.Escl

open SaneBackends.Lib

/-- What a decoder gives for a whole image: all its rows, and three samples a pixel where these
are asked for. -/
structure Page.Decoded (f : Format) (p : Page) : Prop where
  length_rows : p.rows.length = p.height
  length_row : ∀ row ∈ p.rows, row.length = p.rawSize
  endOk : p.endOk = true
  rgb : f ≠ .tiff → p.samples = 3 ∧ p.bits = 8 ∧ p.planar = planarconfigContig

variable {p : Page}

/-- The columns of the crop rectangle with three bytes a pixel. A gray sample is repeated. -/
def Crop.columns (c : Crop p) (row : List UInt8) : List UInt8 :=
  if p.samples = 1 then ((row.drop c.xOff).take c.realWidth).flatMap (List.replicate 3)
  else c.copyRow 3 row

/-- The crop rectangle of the decoded image. -/
def Crop.cropped (c : Crop p) : List UInt8 :=
  ((p.rows.take (c.yOff + c.realHeight)).drop c.yOff).flatMap c.columns

/-- What `escl_tiff_stream_start` makes a stream for. -/
def Crop.Supported (c : Crop p) : Prop := p.TagsSupported ∧ 0 < c.realWidth ∧ 0 < c.realHeight

instance (c : Crop p) : Decidable c.Supported := inferInstanceAs (Decidable (_ ∧ _ ∧ _))

section Rows

variable {c : Crop p} {reader : Reader} {copy : List UInt8 → List UInt8}

/-- A reader that leaves out what is above and below the crop rectangle. -/
theorem emitted_crop
    (hload : ∀ row line full, reader.load row line full = if c.HasLine line then some (copy full) else none)
    (rows : List (List UInt8)) (line : Nat) (row : List UInt8) :
    reader.emitted rows line row =
      ((rows.take (c.yOff + c.realHeight - line)).drop (c.yOff - line)).flatMap copy := by
  induction rows generalizing line row with
  | nil => simp [Reader.emitted]
  | cons full rows ih =>
      rw [Reader.emitted, hload]
      by_cases habove : line < c.yOff
      · have hno : ¬ c.HasLine line := fun h => absurd h.1 (by omega)
        obtain ⟨above, habove'⟩ : ∃ n, c.yOff - line = n + 1 := ⟨c.yOff - line - 1, by omega⟩
        obtain ⟨left, hleft⟩ : ∃ n, c.yOff + c.realHeight - line = n + 1 :=
          ⟨c.yOff + c.realHeight - line - 1, by omega⟩
        rw [if_neg hno, habove', hleft, List.take_succ_cons, List.drop_succ_cons]
        simp only [ih]
        congr 3 <;> omega
      · by_cases hbelow : line < c.yOff + c.realHeight
        · have hyes : c.HasLine line := ⟨by omega, hbelow⟩
          obtain ⟨left, hleft⟩ : ∃ n, c.yOff + c.realHeight - line = n + 1 :=
            ⟨c.yOff + c.realHeight - line - 1, by omega⟩
          rw [if_pos hyes, hleft, List.take_succ_cons, show c.yOff - line = 0 by omega,
            List.drop_zero, List.flatMap_cons]
          simp only [ih]
          rw [show c.yOff - (line + 1) = 0 by omega, List.drop_zero,
            show c.yOff + c.realHeight - (line + 1) = left by omega]
        · have hno : ¬ c.HasLine line := fun h => hbelow h.2
          rw [if_neg hno, show c.yOff + c.realHeight - line = 0 by omega]
          simp only [ih]
          rw [show c.yOff + c.realHeight - (line + 1) = 0 by omega]
          simp

/-- A reader that copies from every line. -/
theorem emitted_all {rows : List (List UInt8)} {line : Nat} {row : List UInt8}
    (hload : ∀ row i full, line ≤ i → i < line + rows.length →
      reader.load row i full = some (copy full)) :
    reader.emitted rows line row = rows.flatMap copy := by
  induction rows generalizing line row with
  | nil => rfl
  | cons full rows ih =>
      rw [Reader.emitted, hload row line full (Nat.le_refl _) (by simp)]
      simp only [List.flatMap_cons]
      rw [ih fun row i full hlow hhigh =>
        hload row i full (by omega) (by rw [List.length_cons]; omega)]

/-- The JPEG reader gives a row for every line. -/
theorem length_emitted_jpeg (rowSize : Nat) {rows : List (List UInt8)}
    (hcopy : ∀ full ∈ rows, (c.copyRow p.samples full).length = rowSize) {line : Nat}
    {row : List UInt8} (hrow : row.length = rowSize) :
    ((jpegReader c).emitted rows line row).length = rows.length * rowSize := by
  induction rows generalizing line row with
  | nil => simp [Reader.emitted]
  | cons full rows ih =>
      obtain ⟨row', hload, hrow'⟩ : ∃ row', (jpegReader c).load row line full = some row' ∧
          row'.length = rowSize := by
        refine ⟨_, rfl, ?_⟩
        split
        · exact hcopy full (by simp)
        · exact hrow
      rw [Reader.emitted, hload]
      simp only [List.length_append, hrow', List.length_cons]
      rw [ih (fun full hfull => hcopy full (by simp [hfull])) hrow']
      ring

end Rows

section Columns

variable {α : Type*}

/-- A part of a list, element by element. -/
theorem take_drop_eq_map (l : List α) (d : α) {i n : Nat} (h : i + n ≤ l.length) :
    (l.drop i).take n = (List.range n).map fun j => l.getD (i + j) d := by
  refine List.ext_getElem (by simp; omega) ?_
  intro j hj _
  have hlt : i + j < l.length := by
    rw [List.length_take] at hj
    omega
  simp [List.getElem?_eq_getElem hlt]

theorem tiffRow_eq_columns (c : Crop p) (hsupported : c.Supported) {raw : List UInt8}
    (hraw : raw.length = p.rawSize) : c.tiffRow raw = c.columns raw := by
  obtain ⟨⟨hbits, hplanar, hsamples, -⟩, hwidth, -⟩ := hsupported
  have hin := c.le_width hwidth
  have hsize : p.rawSize = p.width * p.samples := by
    rw [Page.rawSize, if_pos hplanar, hbits]
    omega
  rw [hsize] at hraw
  unfold Crop.tiffRow Crop.columns
  cases hsamples with
  | inl hone =>
      rw [hone, Nat.mul_one] at hraw
      simp only [hone, if_true]
      rw [take_drop_eq_map raw 0 (by omega), List.flatMap_map]
  | inr hthree =>
      rw [hthree] at hraw hsize
      simp only [hthree, show ¬ (3 = 1) by decide, if_false, hsize]
      -- three samples for each column
      have hcolumns : ∀ n ≤ c.realWidth,
          ((List.range n).flatMap fun x =>
            if (c.xOff + x) * 3 + 2 < p.width * 3 then
              [raw.getD ((c.xOff + x) * 3) 0, raw.getD ((c.xOff + x) * 3 + 1) 0,
                raw.getD ((c.xOff + x) * 3 + 2) 0]
            else List.replicate 3 (raw.getD (c.xOff + x) 0)) =
          (raw.drop (c.xOff * 3)).take (n * 3) := by
        intro n hn
        induction n with
        | zero => simp
        | succ n ih =>
            have hpixel : (raw.drop ((c.xOff + n) * 3)).take 3 =
                [raw.getD ((c.xOff + n) * 3) 0, raw.getD ((c.xOff + n) * 3 + 1) 0,
                  raw.getD ((c.xOff + n) * 3 + 2) 0] :=
              take_drop_eq_map raw 0 (by omega)
            rw [List.range_succ, List.flatMap_append, ih (by omega), Nat.succ_mul, List.take_add,
              List.drop_drop, List.flatMap_singleton, if_pos (by omega), ← Nat.add_mul, hpixel]
      exact hcolumns c.realWidth (Nat.le_refl _)

end Columns

/-- What a user of a streamed page relies on. -/
structure Streamed (f : Format) (c : Crop p) (h : Handler) : Prop where
  reads : ∀ maxlen : Nat → Nat, (∀ i, 0 < maxlen i) →
    Ends (saneRead f p c) .good maxlen 0 h .eof c.cropped
  size : c.cropped.length = h.lines * h.bytesPerLine

section Sizes

variable {f : Format} {c : Crop p}

theorem length_flatMap_const {α β : Type*} {l : List α} {g : α → List β} {n : Nat}
    (hg : ∀ x ∈ l, (g x).length = n) : (l.flatMap g).length = l.length * n := by
  rw [List.length_flatMap, List.map_eq_replicate_iff.mpr hg, List.sum_replicate_nat]

theorem rawSize_rgb (hrgb : p.samples = 3 ∧ p.bits = 8 ∧ p.planar = planarconfigContig) :
    p.rawSize = p.width * 3 := by
  obtain ⟨hsamples, hbits, hplanar⟩ := hrgb
  rw [Page.rawSize, if_pos hplanar, hsamples, hbits]
  omega

theorem length_copyRow (hwidth : 0 < c.realWidth) {row : List UInt8}
    (hrow : row.length = p.width * 3) : (c.copyRow 3 row).length = c.realWidth * 3 := by
  have hin := c.le_width hwidth
  rw [Crop.copyRow, List.length_take, List.length_drop, hrow]
  omega

/-- The crop rectangle has three bytes for each of its pixels. -/
theorem length_cropped (hrows : p.rows.length = p.height)
    (hcolumns : ∀ row ∈ p.rows, (c.columns row).length = c.realWidth * 3) :
    c.cropped.length = c.realHeight * (c.realWidth * 3) := by
  have hlines : ((p.rows.take (c.yOff + c.realHeight)).drop c.yOff).length = c.realHeight := by
    have hin := c.le_height
    rw [List.length_drop, List.length_take, hrows]
    omega
  rw [Crop.cropped, length_flatMap_const fun row hrow =>
    hcolumns row (List.mem_of_mem_take (List.mem_of_mem_drop hrow)), hlines]

theorem columns_eq_copyRow (hsamples : p.samples = 3) : c.columns = c.copyRow 3 := by
  funext row
  rw [Crop.columns, if_neg (by omega)]

theorem length_columns_tiff (hsupported : c.Supported) {row : List UInt8}
    (hrow : row.length = p.rawSize) : (c.columns row).length = c.realWidth * 3 := by
  rw [← tiffRow_eq_columns c hsupported hrow, Crop.tiffRow, length_flatMap_const,
    List.length_range]
  intro x _
  dsimp only
  split
  · rfl
  · split <;> rfl

end Sizes

section Members

variable {f : Format} {c : Crop p} {h : Handler} {junk : Nat → UInt8}

/-- What `sane_start` leaves behind if there is a stream. -/
theorem streamStart_eq (hstart : f.streamStart junk p c = some h)
    (hsupported : f = .tiff → c.Supported) (hrgb : f ≠ .tiff → p.samples = 3) :
    0 < c.realWidth ∧ h.stream = some (.start junk (c.realWidth * 3)) ∧
      h.lines = c.realHeight ∧ h.bytesPerLine = c.realWidth * 3 := by
  cases f with
  | jpeg =>
      simp only [Format.streamStart, jpegStreamStart, hrgb (by decide),
        Option.ite_none_left_eq_some, Option.some.injEq] at hstart
      obtain ⟨hwidth, rfl⟩ := hstart
      exact ⟨by omega, rfl, rfl, rfl⟩
  | png =>
      simp only [Format.streamStart, pngStreamStart, Option.ite_none_left_eq_some,
        Option.some.injEq] at hstart
      obtain ⟨-, hwidth, rfl⟩ := hstart
      exact ⟨by omega, rfl, rfl, rfl⟩
  | tiff =>
      obtain ⟨htags, hwidth, hheight⟩ := hsupported rfl
      simp only [Format.streamStart, tiffStreamStart, htags, not_true_eq_false, if_false,
        Option.ite_none_left_eq_some] at hstart
      obtain ⟨-, hstart⟩ := hstart
      rw [if_neg (by omega)] at hstart
      cases hstart
      exact ⟨hwidth, rfl, rfl, rfl⟩

/-- A TIFF image that is not supported starts without a stream. -/
theorem streamStart_unsupported (hstart : Format.streamStart .tiff junk p c = some h)
    (hno : ¬ c.Supported) : h.stream = none ∧ h.endRead = false := by
  simp only [Format.streamStart, tiffStreamStart] at hstart
  split at hstart
  · cases hstart
    exact ⟨rfl, rfl⟩
  · next htags =>
      split at hstart
      · cases hstart
      · split at hstart
        · cases hstart
          exact ⟨rfl, rfl⟩
        · next hempty => exact absurd ⟨not_not.mp htags, by omega, by omega⟩ hno

/-- What the reads of a page return together. -/
theorem emitted_eq_cropped (hdec : p.Decoded f) (hjpeg : f = .jpeg → c.realHeight = p.height)
    (hsupported : f = .tiff → c.Supported) (row : List UInt8) :
    (f.reader c).emitted p.rows 0 row = c.cropped := by
  have hcrop {reader : Reader} {copy : List UInt8 → List UInt8}
      (hload : ∀ row line full,
        reader.load row line full = if c.HasLine line then some (copy full) else none)
      (hcopy : ∀ full ∈ p.rows, copy full = c.columns full) :
      reader.emitted p.rows 0 row = c.cropped := by
    rw [emitted_crop hload, Crop.cropped, Nat.sub_zero, Nat.sub_zero]
    exact List.flatMap_congr fun full hfull =>
      hcopy full (List.mem_of_mem_take (List.mem_of_mem_drop hfull))
  cases f with
  | jpeg =>
      have hsamples := (hdec.rgb (by decide)).1
      have hheight := hjpeg rfl
      have hlines : ∀ line < p.rows.length, c.HasLine line := by
        intro line hline
        have hin := c.le_height
        rw [hdec.length_rows] at hline
        exact ⟨by omega, by omega⟩
      have hall : (jpegReader c).emitted p.rows 0 row = p.rows.flatMap (c.copyRow p.samples) :=
        emitted_all fun row line full _ hline =>
          congrArg some (if_pos (hlines line (by omega)))
      have hwhole : (p.rows.take (c.yOff + c.realHeight)).drop c.yOff = p.rows := by
        have hin := c.le_height
        have hrows := hdec.length_rows
        rw [List.take_of_length_le (by omega)]
        cases hzero : p.height with
        | zero =>
            rw [List.eq_nil_of_length_eq_zero (hrows.trans hzero), List.drop_nil]
        | succ n => rw [show c.yOff = 0 by omega, List.drop_zero]
      rw [Crop.cropped, hwhole, columns_eq_copyRow hsamples]
      exact hsamples ▸ hall
  | png =>
      have hsamples := (hdec.rgb (by decide)).1
      exact hcrop (fun _ _ _ => rfl) fun full _ => (congrFun (columns_eq_copyRow hsamples) full).symm
  | tiff =>
      exact hcrop (fun _ _ _ => rfl) fun full hfull =>
        tiffRow_eq_columns c (hsupported rfl) (hdec.length_row full hfull)

theorem final_of_decoded (hdec : p.Decoded f) : (f.reader c).final p = .eof := by
  have hall : (f.reader c).ReadsAll p :=
    ⟨hdec.length_rows.ge, fun h => by rw [hdec.endOk] at h; exact Bool.noConfusion h.2⟩
  rw [Reader.final, if_pos hall]

theorem length_columns (hdec : p.Decoded f) (hwidth : 0 < c.realWidth)
    (hsupported : f = .tiff → c.Supported) {row : List UInt8} (hrow : row ∈ p.rows) :
    (c.columns row).length = c.realWidth * 3 := by
  by_cases hf : f = .tiff
  · exact length_columns_tiff (hsupported hf) (hdec.length_row row hrow)
  · have hrgb := hdec.rgb hf
    rw [columns_eq_copyRow hrgb.1, length_copyRow hwidth]
    rw [hdec.length_row row hrow, rawSize_rgb hrgb]

/-- Reads of a JPEG page return a row for every line of the image. -/
theorem length_emitted_of_jpeg (hdec : p.Decoded .jpeg) (hwidth : 0 < c.realWidth)
    (row : List UInt8) (hrow : row.length = c.realWidth * 3) :
    ((jpegReader c).emitted p.rows 0 row).length = p.height * (c.realWidth * 3) := by
  have hrgb := hdec.rgb (by decide)
  rw [length_emitted_jpeg (c.realWidth * 3) _ hrow, hdec.length_rows]
  intro full hfull
  rw [hrgb.1, length_copyRow hwidth]
  rw [hdec.length_row full hfull, rawSize_rgb hrgb]

/-- A page for which `sane_start` succeeds is given as its crop rectangle exactly if a JPEG crop
rectangle has all lines of the image and a TIFF image is supported. -/
theorem streamed_iff (f : Format) (p : Page) (c : Crop p) (junk : Nat → UInt8) (h : Handler)
    (hdec : p.Decoded f) (hstart : f.streamStart junk p c = some h) :
    Streamed f c h ↔ (f = .jpeg → c.realHeight = p.height) ∧ (f = .tiff → c.Supported) := by
  constructor
  · intro hstreamed
    have hreads := hstreamed.reads (fun _ => 1) fun _ => Nat.one_pos
    constructor
    · rintro rfl
      have hsamples := (hdec.rgb (by decide)).1
      obtain ⟨hwidth, hstream, -⟩ := streamStart_eq hstart nofun fun _ => hsamples
      have hends := ends_start (f := .jpeg) (c := c) hstream fun _ : Nat => Nat.one_pos
      have hlength := congrArg List.length (hends.unique hreads).2
      rw [length_cropped hdec.length_rows fun _ => length_columns hdec hwidth nofun] at hlength
      have hall := length_emitted_of_jpeg (c := c) hdec hwidth
        ((List.range (c.realWidth * 3)).map junk) (by simp)
      exact (Nat.eq_of_mul_eq_mul_right (by omega) (hall.symm.trans hlength)).symm
    · rintro rfl
      by_contra hno
      obtain ⟨hstream, hend⟩ := streamStart_unsupported hstart hno
      exact absurd (hreads.unique (ends_noStream hstream hend)).1 (by decide)
  · rintro ⟨hjpeg, hsupported⟩
    obtain ⟨hwidth, hstream, hlines, hbytes⟩ :=
      streamStart_eq hstart hsupported fun hf => (hdec.rgb hf).1
    constructor
    · intro maxlen hpos
      have hends := ends_start (f := f) (c := c) hstream hpos
      rwa [final_of_decoded hdec, emitted_eq_cropped hdec hjpeg hsupported] at hends
    · rw [length_cropped hdec.length_rows fun _ => length_columns hdec hwidth hsupported, hlines,
        hbytes]

/-- A gray TIFF image of two rows. -/
def grayPage : Page where
  width := 2
  height := 2
  samples := 1
  bits := 8
  planar := planarconfigContig
  photometric := photometricMinisblack
  rows := [[1, 2], [3, 4]]
  endOk := true
  rows_le := by decide

/-- The pixel in the corner. -/
def grayCrop : Crop grayPage := ⟨1, 1, 1, 1, by decide, by decide⟩

theorem streamed_iff_gray :
    ∃ h, Format.streamStart .tiff (fun _ => 0xa5) grayPage grayCrop = some h ∧
      (Streamed .tiff grayCrop h ↔
        (Format.tiff = .jpeg → grayCrop.realHeight = grayPage.height) ∧
          (Format.tiff = .tiff → grayCrop.Supported)) :=
  ⟨_, rfl, streamed_iff .tiff grayPage grayCrop (fun _ => 0xa5) _
    ⟨rfl, by decide, rfl, nofun⟩ rfl⟩

/-- A JPEG image of two rows. -/
def colourPage : Page where
  width := 1
  height := 2
  samples := 3
  bits := 8
  planar := planarconfigContig
  photometric := photometricRgb
  rows := [[1, 2, 3], [4, 5, 6]]
  endOk := true
  rows_le := by decide

/-- The second row. -/
def secondRow : Crop colourPage := ⟨0, 1, 1, 1, by decide, by decide⟩

/-- The JPEG reader gives what its row held from the start for the line above the crop
rectangle. -/
theorem not_streamed_secondRow :
    ¬ ∀ (f : Format) (p : Page) (c : Crop p) (junk : Nat → UInt8) (h : Handler),
      p.Decoded f → f.streamStart junk p c = some h → Streamed f c h := by
  intro hall
  have hstreamed := hall .jpeg colourPage secondRow (fun _ => 0xa5) _
    ⟨rfl, by decide, rfl, fun _ => ⟨rfl, rfl, rfl⟩⟩ rfl
  have hends : Ends (saneRead .jpeg colourPage secondRow) .good (fun _ => 8) 0
      (.start (some (.start (fun _ => 0xa5) 3)) 1 1 3) .eof ([0xa5, 0xa5, 0xa5, 4, 5, 6] ++ []) :=
    .more rfl (.last rfl (by decide))
  have hreturned := ((hstreamed.reads (fun _ => 8) fun _ => by decide).unique hends).2
  exact absurd hreturned (by decide)

end Members
end SaneBackends.Escl
