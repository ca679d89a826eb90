import SaneBackends.Escl.PageStream
/-!
# What the reads of a streamed page return

The bytes that a stream still has to give, and how its reads end. The three readers share one
loop; the PNG and TIFF readers give the crop rectangle of a supported image, and the JPEG reader
a row for every line.
-/

namespace SaneBackends.Escl

open SaneBackends.Lib

/-- What a reader copies from these lines, the first of which has this number. -/
def Reader.emitted (reader : Reader) : List (List UInt8) → Nat → List UInt8 → List UInt8
  | [], _, _ => []
  | full :: rows, line, row =>
      match reader.load row line full with
      | none => reader.emitted rows (line + 1) row
      | some row => row ++ reader.emitted rows (line + 1) row

/-- What a stream still has to give. -/
def Reader.pending (reader : Reader) (p : Page) (s : Stream) : List UInt8 :=
  s.row.drop s.rowPos ++ reader.emitted (p.rows.drop s.line) s.line s.row

/-- All lines can be read, and the end of the image as far as that is looked at. -/
def Reader.ReadsAll (reader : Reader) (p : Page) : Prop :=
  p.height ≤ p.rows.length ∧ ¬ (reader.readEnd = true ∧ p.endOk = false)

instance (reader : Reader) (p : Page) : Decidable (reader.ReadsAll p) :=
  inferInstanceAs (Decidable (_ ∧ ¬ (_ ∧ _)))

/-- How reads end. -/
def Reader.final (reader : Reader) (p : Page) : SaneStatus :=
  if reader.ReadsAll p then .eof else .inval

/-- Between two reads a stream is not beyond the lines it has read, and has seen the end of the
image only behind all of it. -/
structure Stream.Inv (reader : Reader) (p : Page) (s : Stream) : Prop where
  line_le : s.line ≤ p.rows.length
  eof_done : s.eof = true → reader.ReadsAll p ∧ reader.pending p s = []

section Loop

variable {reader : Reader} {p : Page} {s s' : Stream} {maxlen turns : Nat}
  {buf buf' : List UInt8}

/-- What can come of a read that has so far put `buf` into its buffer. -/
inductive Outcome (reader : Reader) (p : Page) (buf : List UInt8) (s : Stream) :
    SaneStatus × List UInt8 × Stream → Prop where
  | some {buf' : List UInt8} {s' : Stream} : s'.Inv reader p → buf' ≠ [] →
      buf' ++ reader.pending p s' = buf ++ reader.pending p s →
      Outcome reader p buf s (.good, buf', s')
  | ended {s' : Stream} : reader.final p = .eof → buf ++ reader.pending p s = [] →
      Outcome reader p buf s (.eof, [], s')
  | failed {buf' : List UInt8} {s' : Stream} : reader.final p = .inval →
      buf' = buf ++ reader.pending p s → Outcome reader p buf s (.inval, buf', s')

/-- A turn keeps what is in the buffer together with what is pending. -/
theorem Outcome.of_eq {result : SaneStatus × List UInt8 × Stream}
    (h : Outcome reader p buf' s' result)
    (heq : buf' ++ reader.pending p s' = buf ++ reader.pending p s) :
    Outcome reader p buf s result := by
  cases h with
  | some hinv hbuf hpending => exact .some hinv hbuf (hpending.trans heq)
  | ended hfinal hnil => exact .ended hfinal (heq.symm.trans hnil)
  | failed hfinal hbuf => exact .failed hfinal (hbuf.trans heq)

/-- The turns that a loop can still make. -/
def turnsLeft (p : Page) (maxlen : Nat) (buf : List UInt8) (s : Stream) : Nat :=
  (maxlen - buf.length) + (p.height - s.line) + (if s.eof then 0 else 1)

theorem drop_row (hrow : ¬ s.rowPos < s.row.length) : s.row.drop s.rowPos = [] :=
  List.drop_eq_nil_iff.mpr (Nat.le_of_not_lt hrow)

/-- The bytes that are copied from the row are the first ones of what is pending. -/
theorem pending_copy (count : Nat) :
    (s.row.drop s.rowPos).take count ++ reader.pending p { s with rowPos := s.rowPos + count } =
      reader.pending p s := by
  rw [Reader.pending, Reader.pending, ← List.append_assoc, ← List.drop_drop,
    List.take_append_drop]

/-- A line that was read moves its bytes from the image to the row. -/
theorem pending_load (reader : Reader) {full : List UInt8} (hrow : ¬ s.rowPos < s.row.length)
    (hfull : p.rows[s.line]? = some full) :
    reader.pending p s =
      match reader.load s.row s.line full with
      | none => reader.pending p { s with line := s.line + 1 }
      | some row => reader.pending p { s with row := row, rowPos := 0, line := s.line + 1 } := by
  obtain ⟨hlt, hget⟩ := List.getElem?_eq_some_iff.mp hfull
  rw [Reader.pending, drop_row hrow, List.drop_eq_getElem_cons hlt, hget, List.nil_append,
    Reader.emitted]
  cases hload : reader.load s.row s.line full with
  | none =>
      have hnext : ¬ ({ s with line := s.line + 1 } : Stream).rowPos <
          ({ s with line := s.line + 1 } : Stream).row.length := hrow
      rw [Reader.pending, drop_row hnext, List.nil_append]
  | some row => rfl

theorem pending_end (reader : Reader) (hrow : ¬ s.rowPos < s.row.length) (hline : p.rows.length ≤ s.line) :
    reader.pending p s = [] := by
  rw [Reader.pending, drop_row hrow, List.drop_eq_nil_iff.mpr hline]
  rfl

/-- The loop of a read, from any point of it. The induction is on the turns that are left. -/
theorem readLoop_outcome (hinv : s.Inv reader p) (hturns : turnsLeft p maxlen buf s < turns)
    (hpos : 0 < maxlen) (hbuf : buf.length ≤ maxlen) :
    Outcome reader p buf s (readLoop p reader maxlen turns buf s) := by
  induction turns generalizing buf s with
  | zero => omega
  | succ turns ih =>
      rw [readLoop]
      split
      · next hmore =>
          obtain ⟨hshort, heof⟩ := hmore
          simp only [turnsLeft, heof, Bool.false_eq_true, if_false] at hturns
          split
          · next hrow =>
              -- some bytes of the row
              dsimp only
              generalize hcount : min (s.row.length - s.rowPos) (maxlen - buf.length) = count
              have htaken : ((s.row.drop s.rowPos).take count).length = count := by
                rw [List.length_take, List.length_drop]
                omega
              have hinv' : Stream.Inv reader p { s with rowPos := s.rowPos + count } :=
                ⟨hinv.line_le, fun h => absurd (heof.symm.trans h) Bool.false_ne_true⟩
              refine (ih hinv' ?_ ?_).of_eq ?_
              · simp only [turnsLeft, heof, List.length_append, htaken, Bool.false_eq_true, if_false]
                omega
              · rw [List.length_append, htaken]
                omega
              · rw [List.append_assoc, pending_copy]
          · next hrow =>
              split
              · next hline =>
                  have hnil := pending_end reader hrow (p.rows_le.trans hline)
                  split
                  · next hend =>
                      refine .failed ?_ (by rw [hnil, List.append_nil])
                      rw [Reader.final, if_neg fun h : reader.ReadsAll p => h.2 hend]
                  · next hend =>
                      have hall : reader.ReadsAll p := ⟨hline.trans hinv.line_le, hend⟩
                      have hinv' : Stream.Inv reader p { s with eof := true } :=
                        ⟨hinv.line_le, fun _ => ⟨hall, hnil⟩⟩
                      refine (ih hinv' ?_ hbuf).of_eq rfl
                      simp only [turnsLeft, if_true]
                      omega
              · next hline =>
                  split
                  · next hnone =>
                      have hrows : p.rows.length ≤ s.line := List.getElem?_eq_none_iff.mp hnone
                      refine .failed ?_ (by rw [pending_end reader hrow hrows, List.append_nil])
                      rw [Reader.final, if_neg fun h : reader.ReadsAll p => hline (h.1.trans hrows)]
                  · next full hfull =>
                      have hload := pending_load reader hrow hfull
                      obtain ⟨hlt, -⟩ := List.getElem?_eq_some_iff.mp hfull
                      split
                      · next hskip =>
                          rw [hskip] at hload
                          have hinv' : Stream.Inv reader p { s with line := s.line + 1 } :=
                            ⟨hlt, fun h => absurd (heof.symm.trans h) Bool.false_ne_true⟩
                          refine (ih hinv' ?_ hbuf).of_eq (congrArg _ hload.symm)
                          simp only [turnsLeft, heof, Bool.false_eq_true, if_false]
                          omega
                      · next row hnew =>
                          rw [hnew] at hload
                          have hinv' : Stream.Inv reader p
                              { s with row := row, rowPos := 0, line := s.line + 1 } :=
                            ⟨hlt, fun h => absurd (heof.symm.trans h) Bool.false_ne_true⟩
                          refine (ih hinv' ?_ hbuf).of_eq (congrArg _ hload.symm)
                          simp only [turnsLeft, heof, Bool.false_eq_true, if_false]
                          omega
      · next hstop =>
          split
          · next hend =>
              obtain ⟨rfl, heof⟩ := hend
              obtain ⟨hall, hnil⟩ := hinv.eof_done heof
              refine .ended ?_ hnil
              rw [Reader.final, if_pos hall]
          · next hend =>
              refine .some hinv (fun hnil => hend ⟨hnil, ?_⟩) rfl
              rw [hnil] at hstop
              simpa [hpos] using hstop

/-- A read of a positive size. -/
theorem streamRead_outcome (hinv : s.Inv reader p) (hpos : 0 < maxlen) :
    Outcome reader p [] s (streamRead p reader s maxlen) := by
  rw [streamRead, if_neg (by omega)]
  refine readLoop_outcome hinv ?_ hpos (Nat.zero_le _)
  rw [turnsLeft, List.length_nil]
  split <;> omega

end Loop

section Handle

variable {f : Format} {p : Page} {c : Crop p}

/-- The reader of a page. -/
def Format.reader (f : Format) (c : Crop p) : Reader :=
  match f with
  | .jpeg => jpegReader c
  | .png => pngReader c
  | .tiff => tiffReader c

theorem Format.streamRead_eq (f : Format) (c : Crop p) :
    f.streamRead p c = Escl.streamRead p (f.reader c) := by
  cases f <;> rfl

/-- What a handle still has to give. -/
def Handler.pending (f : Format) (c : Crop p) (h : Handler) : List UInt8 :=
  match h.stream with
  | some s => (f.reader c).pending p s
  | none => []

/-- The handle has a stream. -/
def Handler.Open (f : Format) (c : Crop p) (h : Handler) : Prop :=
  ∃ s ∈ h.stream, s.Inv (f.reader c) p

/-- Reads return what is pending, and end with an error if the image could not be decoded to
its end. -/
theorem saneRead_serves (f : Format) (c : Crop p) :
    Serves (saneRead f p c) .good (Handler.Open f c) (Handler.pending f c)
      ((f.reader c).final p) := by
  intro h n hopen hpos r data h' hread
  obtain ⟨s, hs, hinv⟩ := hopen
  have hpending : h.pending f c = (f.reader c).pending p s := by rw [Handler.pending, hs]
  have houtcome := streamRead_outcome hinv hpos
  rw [saneRead, hs] at hread
  simp only [f.streamRead_eq] at hread
  generalize streamRead p (f.reader c) s n = result at hread houtcome
  cases houtcome with
  | some hinv' hdata heq =>
      cases hread
      exact .inl ⟨rfl, ⟨_, rfl, hinv'⟩, hdata, heq.trans hpending.symm⟩
  | ended hfinal hnil =>
      cases hread
      exact .inr ⟨by decide, hfinal.symm, hnil.symm.trans hpending.symm⟩
  | failed hfinal heq =>
      cases hread
      exact .inr ⟨nofun, hfinal.symm, heq.trans hpending.symm⟩

/-- A stream behind its start. -/
theorem Stream.start_inv (reader : Reader) (junk : Nat → UInt8) (rowSize : Nat) :
    (Stream.start junk rowSize).Inv reader p :=
  ⟨Nat.zero_le _, fun h => absurd h Bool.false_ne_true⟩

theorem pending_start (reader : Reader) (junk : Nat → UInt8) (rowSize : Nat) :
    reader.pending p (Stream.start junk rowSize) =
      reader.emitted p.rows 0 ((List.range rowSize).map junk) := by
  have hrow : ¬ (Stream.start junk rowSize).rowPos < (Stream.start junk rowSize).row.length := by
    simp [Stream.start]
  rw [Reader.pending, drop_row hrow]
  rfl

/-- The reads of a page that has a stream. -/
theorem ends_start {h : Handler} {junk : Nat → UInt8} {rowSize : Nat} {maxlen : Nat → Nat}
    (hstream : h.stream = some (.start junk rowSize)) (hpos : ∀ i, 0 < maxlen i) :
    Ends (saneRead f p c) .good maxlen 0 h ((f.reader c).final p)
      ((f.reader c).emitted p.rows 0 ((List.range rowSize).map junk)) := by
  have hends := (saneRead_serves f c).ends hpos ⟨_, hstream, Stream.start_inv _ junk rowSize⟩ 0
  have hpending : h.pending f c =
      (f.reader c).emitted p.rows 0 ((List.range rowSize).map junk) := by
    rw [Handler.pending, hstream]
    exact pending_start _ junk rowSize
  rwa [hpending] at hends

/-- Without a stream the first read fails. -/
theorem ends_noStream {h : Handler} {maxlen : Nat → Nat} (hstream : h.stream = none)
    (hend : h.endRead = false) : Ends (saneRead f p c) .good maxlen 0 h .inval [] := by
  have hread : saneRead f p c h (maxlen 0) = (.inval, [], h) := by
    rw [saneRead, hstream, hend]
    rfl
  exact .last hread (by decide)

end Handle

end SaneBackends.Escl
