import SaneBackends.Pixma.Session
/-!
# `pixma_read_image`: the bytes

The same loop as in `Session`, now with the bytes that it moves. A call returns the next bytes of the
image, which is what the driver delivers with `0xff` behind it, however long its chunks and the reads
are.
-/

namespace SaneBackends.Pixma.ReadImage

/-- What `fill_buffer` answers: its result, what it writes at `wptr`, and what it leaves between
`rptr` and `rend`. -/
structure Fill where
  result : Int
  written : List UInt8 := []
  exposed : List UInt8 := []
  deriving DecidableEq, Repr

/-- `pixma_t`. `imagebuf` is what lies between `imagebuf.rptr` and `imagebuf.rend`. -/
structure Session where
  scanning : Bool := true
  underrun : Bool := false
  cancel : Bool := false
  curImageSize : Nat := 0
  imagebuf : List UInt8 := []
  imageSize : Nat
  modeJpeg : Bool := false
  deriving DecidableEq, Repr

/-- The session, the answers of the driver to come, and the bytes that are returned or the error. -/
abbrev Read := Session × List Fill × Except Int (List UInt8)

/-- `fill_pixels` with `0xff`. -/
def fillPixels (s : Session) (room : Nat) : Session × List UInt8 :=
  if s.curImageSize < s.imageSize then
    let n := min (s.imageSize - s.curImageSize) room
    ({ s with curImageSize := s.curImageSize + n }, List.replicate n 0xff)
  else (s, [])

/-- The loop on the copy `ib` of the buffer, with `room` bytes between `wptr` and `wend`. -/
def readLoop (s : Session) : List UInt8 → Nat → List Fill → Option Read
  | ib, room, fills =>
      let copied := ib.take room
      let ib := ib.drop room
      let room := room - copied.length
      if room = 0 then some ({ s with imagebuf := ib }, fills, .ok copied)
      else
        match fills with
        | [] => none
        | fill :: fills =>
            let written := fill.written.take room
            let room := room - written.length
            if fill.result < 0 then some ({ s with scanning := false }, fills, .error fill.result)
            else if fill.result = 0 then
              let s := { s with imagebuf := fill.exposed }
              if s.curImageSize < s.imageSize ∧ s.modeJpeg = false then
                let (s, padding) := fillPixels { s with underrun := true } room
                some (s, fills, .ok (copied ++ written ++ padding))
              else some ({ s with scanning := false }, fills, .ok (copied ++ written))
            else
              (readLoop { s with curImageSize := s.curImageSize + fill.result.toNat } fill.exposed
                room fills).map fun (s, fills, result) =>
                  (s, fills, result.map fun rest => copied ++ written ++ rest)

/-- `pixma_read_image`. In an underrun the buffer is not stored. -/
def pixmaReadImage (s : Session) (len : Nat) (fills : List Fill) : Option Read :=
  if s.scanning = false then some (s, fills, .ok [])
  else if s.cancel then some ({ s with scanning := false }, fills, .error ecanceled)
  else if s.underrun then
    if s.curImageSize < s.imageSize then
      let (s, padding) := fillPixels s len
      some (s, fills, .ok padding)
    else some ({ s with scanning := false }, fills, .ok [])
  else readLoop s s.imagebuf len fills

/-- Calls with these lengths, one after another. -/
def readAll (s : Session) (fills : List Fill) :
    List Nat → Option (List (List UInt8) × Session × List Fill)
  | [] => some ([], s, fills)
  | len :: lens =>
      match pixmaReadImage s len fills with
      | some (s, fills, .ok bytes) =>
          (readAll s fills lens).map fun (results, end') => (bytes :: results, end')
      | _ => none

/-! ## A scan to its end -/

/-- The answers of a driver that exposes these chunks and then has no more. -/
def fillsOf (chunks : List (List UInt8)) : List Fill :=
  chunks.map (fun chunk => { result := chunk.length, exposed := chunk }) ++ [{ result := 0 }]

/-- The chunks of an image that may be cut short. -/
structure Delivery where
  chunks : List (List UInt8)
  imageSize : Nat
  nonempty : ∀ chunk ∈ chunks, chunk ≠ []
  fits : chunks.flatten.length ≤ imageSize

namespace Delivery

variable (d : Delivery)

/-- The session that `pixma_scan` leaves. -/
def start : Session where
  imageSize := d.imageSize

/-- The chunks, and white up to the size of the image. -/
def image : List UInt8 :=
  d.chunks.flatten ++ List.replicate (d.imageSize - d.chunks.flatten.length) 0xff

end Delivery

section Spec

variable {s : Session} {len room : Nat} {fills : List Fill} {ib pending : List UInt8}
  {chunks : List (List UInt8)}

/-- What is left of an image from which `curImageSize` bytes have come, `ib` last. -/
def rest (s : Session) (ib : List UInt8) (chunks : List (List UInt8)) : List UInt8 :=
  ib ++ (chunks.flatten ++
    List.replicate (s.imageSize - (s.curImageSize + chunks.flatten.length)) 0xff)

/-- The driver has these chunks left. -/
structure Delivering (s : Session) (chunks : List (List UInt8)) : Prop where
  scanning : s.scanning = true
  underrun : s.underrun = false
  cancel : s.cancel = false
  modeJpeg : s.modeJpeg = false
  nonempty : ∀ chunk ∈ chunks, chunk ≠ []
  fits : s.curImageSize + chunks.flatten.length ≤ s.imageSize

/-- What is pending before a call. -/
inductive Pending : Session → List Fill → List UInt8 → Prop where
  | delivering {s : Session} {chunks : List (List UInt8)} (h : Delivering s chunks) :
      Pending s (fillsOf chunks) (rest s s.imagebuf chunks)
  | padding {s : Session} {fills : List Fill} (hscanning : s.scanning = true)
      (hunderrun : s.underrun = true) (hcancel : s.cancel = false)
      (hle : s.curImageSize ≤ s.imageSize) :
      Pending s fills (List.replicate (s.imageSize - s.curImageSize) 0xff)
  | done {s : Session} {fills : List Fill} (hscanning : s.scanning = false) : Pending s fills []

/-- The call returns the next bytes, and after the last one the scan is over. -/
def Serves (read : Option Read) (len : Nat) (pending : List UInt8) : Prop :=
  ∃ s' fills', read = some (s', fills', .ok (pending.take len)) ∧
    Pending s' fills' (pending.drop len) ∧ (pending = [] → s'.scanning = false)

theorem fillPixels_eq (h : s.curImageSize < s.imageSize) (room : Nat) :
    fillPixels s room =
      ({ s with curImageSize := s.curImageSize + min (s.imageSize - s.curImageSize) room },
        (List.replicate (s.imageSize - s.curImageSize) 0xff).take room) := by
  rw [fillPixels, if_pos h, List.take_replicate, Nat.min_comm]

/-- The padding goes on behind what a call has filled. -/
theorem fillPixels_pending (hscanning : s.scanning = true) (hunderrun : s.underrun = true)
    (hcancel : s.cancel = false) (h : s.curImageSize < s.imageSize) (room : Nat) :
    Pending (fillPixels s room).1 fills
      ((List.replicate (s.imageSize - s.curImageSize) 0xff).drop room) := by
  rw [fillPixels_eq h, List.drop_replicate]
  have hmissing : s.imageSize - s.curImageSize - room =
      s.imageSize - (s.curImageSize + min (s.imageSize - s.curImageSize) room) := by omega
  rw [hmissing]
  exact .padding hscanning hunderrun hcancel (by dsimp only; omega)

/-- What the buffer has is enough. -/
theorem readLoop_full (hfull : room ≤ ib.length) :
    readLoop s ib room fills = some ({ s with imagebuf := ib.drop room }, fills, .ok (ib.take room)) := by
  have hroom : room - (ib.take room).length = 0 := by
    rw [List.length_take]
    omega
  cases fills with
  | nil =>
      rw [readLoop]
      exact if_pos hroom
  | cons fill fills =>
      rw [readLoop]
      exact if_pos hroom

/-- The end of the driver's data. -/
theorem readLoop_end (hshort : ib.length < room) :
    readLoop s ib room (fillsOf []) =
      if s.curImageSize < s.imageSize ∧ s.modeJpeg = false then
        some ((fillPixels { s with imagebuf := [], underrun := true } (room - ib.length)).1, [],
          .ok (ib ++ (fillPixels { s with imagebuf := [], underrun := true } (room - ib.length)).2))
      else some ({ s with imagebuf := [], scanning := false }, [], .ok ib) := by
  have hcopied : ib.take room = ib := List.take_of_length_le (Nat.le_of_lt hshort)
  have hroom : ¬ room - ib.length = 0 := by omega
  have hfills : fillsOf [] = [{ result := 0 }] := rfl
  rw [hfills, readLoop, hcopied]
  dsimp only
  rw [if_neg hroom, if_neg (Int.lt_irrefl 0), if_pos rfl, List.take_nil, List.append_nil]
  rfl

/-- A chunk of the driver. -/
theorem readLoop_chunk {chunk : List UInt8} (hshort : ib.length < room) (hchunk : chunk ≠ []) :
    readLoop s ib room (fillsOf (chunk :: chunks)) =
      (readLoop { s with curImageSize := s.curImageSize + chunk.length } chunk (room - ib.length)
        (fillsOf chunks)).map fun (s, fills, result) =>
          (s, fills, result.map fun rest => ib ++ rest) := by
  have hcopied : ib.take room = ib := List.take_of_length_le (Nat.le_of_lt hshort)
  have hroom : ¬ room - ib.length = 0 := by omega
  have hlength : 0 < chunk.length := List.length_pos_iff.mpr hchunk
  have hfills : fillsOf (chunk :: chunks) =
      { result := chunk.length, exposed := chunk } :: fillsOf chunks := rfl
  rw [hfills, readLoop, hcopied]
  dsimp only
  rw [if_neg hroom, if_neg (by omega), if_neg (by omega), List.take_nil, List.append_nil,
    Int.toNat_natCast]
  rfl

theorem readLoop_serves_full (h : Delivering s chunks) (hroom : 0 < room) (hfull : room ≤ ib.length) :
    Serves (readLoop s ib room (fillsOf chunks)) room (rest s ib chunks) := by
  have hkeep : Delivering { s with imagebuf := ib.drop room } chunks :=
    ⟨h.scanning, h.underrun, h.cancel, h.modeJpeg, h.nonempty, h.fits⟩
  refine ⟨{ s with imagebuf := ib.drop room }, fillsOf chunks, ?_, ?_, fun hnone => ?_⟩
  · rw [readLoop_full hfull, rest, List.take_append_of_le_length hfull]
  · rw [rest, List.drop_append_of_le_length hfull]
    exact .delivering hkeep
  · have hib := (List.append_eq_nil_iff.mp hnone).1
    rw [hib] at hfull
    exact absurd hroom (Nat.not_lt.mpr hfull)

/-- What the buffer has comes first. -/
theorem take_rest (hshort : ib.length ≤ room) :
    (rest s ib chunks).take room = ib ++ (rest s [] chunks).take (room - ib.length) := by
  rw [rest, List.take_append, List.take_of_length_le hshort]
  rfl

theorem drop_rest (hshort : ib.length ≤ room) :
    (rest s ib chunks).drop room = (rest s [] chunks).drop (room - ib.length) := by
  rw [rest, List.drop_append, List.drop_of_length_le hshort]
  rfl

theorem rest_cons (s : Session) (chunk : List UInt8) (chunks : List (List UInt8)) :
    rest s [] (chunk :: chunks) =
      rest { s with curImageSize := s.curImageSize + chunk.length } chunk chunks := by
  rw [rest, rest, List.flatten_cons, List.length_append, List.nil_append, List.append_assoc,
    Nat.add_assoc]

theorem readLoop_serves (h : Delivering s chunks) (hroom : 0 < room) :
    Serves (readLoop s ib room (fillsOf chunks)) room (rest s ib chunks) := by
  induction chunks generalizing s ib room with
  | nil =>
      by_cases hfull : room ≤ ib.length
      · exact readLoop_serves_full h hroom hfull
      have hshort : ib.length < room := Nat.not_le.mp hfull
      have hrest : rest s [] [] = List.replicate (s.imageSize - s.curImageSize) 0xff := rfl
      by_cases hmissing : s.curImageSize < s.imageSize
      · -- the rest of the image is filled
        set end' : Session := { s with imagebuf := [], underrun := true } with hend
        have hrun : readLoop s ib room (fillsOf []) = some
            ((fillPixels end' (room - ib.length)).1, [],
              .ok (ib ++ (fillPixels end' (room - ib.length)).2)) := by
          rw [readLoop_end hshort]
          exact if_pos ⟨hmissing, h.modeJpeg⟩
        have hbytes : (fillPixels end' (room - ib.length)).2 =
            (rest s [] []).take (room - ib.length) := by
          rw [fillPixels_eq (s := end') hmissing]
          rfl
        refine ⟨(fillPixels end' (room - ib.length)).1, [], ?_, ?_, fun hnone => ?_⟩
        · rw [take_rest (Nat.le_of_lt hshort), ← hbytes]
          exact hrun
        · rw [drop_rest (Nat.le_of_lt hshort)]
          exact fillPixels_pending (s := end') h.scanning rfl h.cancel hmissing _
        · have hlength := congrArg List.length hnone
          rw [rest, List.length_append, List.length_append, List.length_replicate] at hlength
          simp at hlength
          omega
      · have hnothing : s.imageSize - s.curImageSize = 0 := Nat.sub_eq_zero_of_le (Nat.not_lt.mp hmissing)
        have hrun : readLoop s ib room (fillsOf []) =
            some ({ s with imagebuf := [], scanning := false }, [], .ok ib) := by
          rw [readLoop_end hshort]
          exact if_neg fun hboth => hmissing hboth.1
        refine ⟨{ s with imagebuf := [], scanning := false }, [], ?_, ?_, fun _ => rfl⟩
        · rw [take_rest (Nat.le_of_lt hshort), hrest, hnothing, List.replicate_zero, List.take_nil,
            List.append_nil]
          exact hrun
        · rw [drop_rest (Nat.le_of_lt hshort), hrest, hnothing, List.replicate_zero, List.drop_nil]
          exact .done rfl
  | cons chunk chunks ih =>
      by_cases hfull : room ≤ ib.length
      · exact readLoop_serves_full h hroom hfull
      have hshort : ib.length < room := Nat.not_le.mp hfull
      have hchunk := h.nonempty chunk List.mem_cons_self
      have hfits := h.fits
      rw [List.flatten_cons, List.length_append, ← Nat.add_assoc] at hfits
      have hnext : Delivering { s with curImageSize := s.curImageSize + chunk.length } chunks :=
        ⟨h.scanning, h.underrun, h.cancel, h.modeJpeg,
          fun other hother => h.nonempty other (List.mem_cons_of_mem _ hother), hfits⟩
      obtain ⟨s', fills', hrun, hpending, -⟩ := ih hnext (Nat.sub_pos_of_lt hshort)
      refine ⟨s', fills', ?_, ?_, fun hnone => ?_⟩
      · rw [readLoop_chunk hshort hchunk, hrun, take_rest (Nat.le_of_lt hshort), rest_cons]
        rfl
      · rw [drop_rest (Nat.le_of_lt hshort), rest_cons]
        exact hpending
      · have hnil := (List.append_eq_nil_iff.mp (List.append_eq_nil_iff.mp hnone).2).1
        rw [List.flatten_cons] at hnil
        exact absurd (List.append_eq_nil_iff.mp hnil).1 hchunk

/-- Each call returns the next bytes. -/
theorem pixmaReadImage_serves (h : Pending s fills pending) (hlen : 0 < len) :
    Serves (pixmaReadImage s len fills) len pending := by
  cases h with
  | delivering h =>
      rw [pixmaReadImage, if_neg (by rw [h.scanning]; exact Bool.noConfusion),
        if_neg (by rw [h.cancel]; exact Bool.noConfusion),
        if_neg (by rw [h.underrun]; exact Bool.noConfusion)]
      exact readLoop_serves h hlen
  | padding hscanning hunderrun hcancel hle =>
      rw [pixmaReadImage, if_neg (by rw [hscanning]; exact Bool.noConfusion),
        if_neg (by rw [hcancel]; exact Bool.noConfusion), if_pos hunderrun]
      by_cases hmissing : s.curImageSize < s.imageSize
      · rw [if_pos hmissing]
        refine ⟨(fillPixels s len).1, fills, ?_,
          fillPixels_pending hscanning hunderrun hcancel hmissing len, fun hnone => ?_⟩
        · rw [fillPixels_eq hmissing]
        · have hlength := congrArg List.length hnone
          rw [List.length_replicate, List.length_nil] at hlength
          omega
      · have hnothing : s.imageSize - s.curImageSize = 0 :=
          Nat.sub_eq_zero_of_le (Nat.not_lt.mp hmissing)
        rw [if_neg hmissing, hnothing, List.replicate_zero]
        exact ⟨{ s with scanning := false }, fills, by rw [List.take_nil],
          by rw [List.drop_nil]; exact .done rfl, fun _ => rfl⟩
  | done hscanning =>
      rw [pixmaReadImage, if_pos hscanning]
      exact ⟨s, fills, by rw [List.take_nil], by rw [List.drop_nil]; exact .done hscanning,
        fun _ => hscanning⟩

/-- Calls one after another return what is pending. -/
theorem readAll_serves (h : Pending s fills pending) (lens : List Nat)
    (hlens : ∀ len ∈ lens, 0 < len) :
    ∃ results s' fills', readAll s fills lens = some (results, s', fills') ∧
      results.flatten = pending.take lens.sum ∧ Pending s' fills' (pending.drop lens.sum) := by
  induction lens generalizing s fills pending with
  | nil => exact ⟨[], s, fills, rfl, rfl, h⟩
  | cons len lens ih =>
      obtain ⟨s₁, fills₁, hrun, hpending, -⟩ := pixmaReadImage_serves h (hlens len List.mem_cons_self)
      obtain ⟨results, s₂, fills₂, hrest, hresults, hlast⟩ :=
        ih hpending fun other hother => hlens other (List.mem_cons_of_mem _ hother)
      refine ⟨pending.take len :: results, s₂, fills₂, ?_, ?_, ?_⟩
      · rw [readAll, hrun]
        dsimp only
        rw [hrest]
        rfl
      · rw [List.flatten_cons, hresults, List.sum_cons, List.take_add]
      · rw [List.sum_cons, ← List.drop_drop]
        exact hlast

theorem Delivery.start_pending (d : Delivery) : Pending d.start (fillsOf d.chunks) d.image := by
  have himage : d.image = rest d.start d.start.imagebuf d.chunks := by
    rw [rest, Delivery.image, Delivery.start, Nat.zero_add, List.nil_append]
  rw [himage]
  exact .delivering ⟨rfl, rfl, rfl, rfl, d.nonempty, by rw [Delivery.start, Nat.zero_add]; exact d.fits⟩

theorem Delivery.length_image (d : Delivery) : d.image.length = d.imageSize := by
  rw [Delivery.image, List.length_append, List.length_replicate, Nat.add_sub_cancel' d.fits]

end Spec

/-- Reads of any lengths return the chunks of the driver with `0xff` behind them up to the size of
the image, and once they have, the next one returns nothing and ends the scan. -/
theorem readAll_image (d : Delivery) (lens : List Nat) (hlens : ∀ len ∈ lens, 0 < len) :
    ∃ results s fills, readAll d.start (fillsOf d.chunks) lens = some (results, s, fills) ∧
      results.flatten = d.image.take lens.sum ∧
      (d.imageSize ≤ lens.sum → ∀ len, 0 < len → ∃ s' fills',
        pixmaReadImage s len fills = some (s', fills', .ok []) ∧ s'.scanning = false) := by
  obtain ⟨results, s, fills, hrun, hresults, hpending⟩ := readAll_serves d.start_pending lens hlens
  refine ⟨results, s, fills, hrun, hresults, fun hall len hlen => ?_⟩
  have hnone : d.image.drop lens.sum = [] :=
    List.drop_of_length_le (by rw [d.length_image]; exact hall)
  rw [hnone] at hpending
  obtain ⟨s', fills', hread, -, hscanning⟩ := pixmaReadImage_serves hpending hlen
  rw [List.take_nil] at hread
  exact ⟨s', fills', hread, hscanning rfl⟩

/-- Two chunks and a byte of white, in reads of one, three and four bytes. -/
theorem readAll_image_chunks :
    ∃ results s fills, readAll (Delivery.start ⟨[[1, 2], [3]], 4, by decide, by decide⟩)
        (fillsOf [[1, 2], [3]]) [1, 3, 4] = some (results, s, fills) ∧
      results.flatten = [1, 2, 3, 0xff] ∧
      (4 ≤ [1, 3, 4].sum → ∀ len, 0 < len → ∃ s' fills',
        pixmaReadImage s len fills = some (s', fills', .ok []) ∧ s'.scanning = false) :=
  readAll_image ⟨[[1, 2], [3]], 4, by decide, by decide⟩ [1, 3, 4] (by decide)

end SaneBackends.Pixma.ReadImage
