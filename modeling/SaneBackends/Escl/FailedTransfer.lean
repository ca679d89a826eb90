import SaneBackends.Escl.StreamReads
import SaneBackends.Escl.Transfer
/-!
# Transfers of streamed pages that fail

The status with which the worker of a stream ends is stored next to the stream and nowhere read:
`sane_start` and `sane_read` see the bytes that were received. A failure shows in what the
decoder makes of these, and a start that fails has a status of its own.
-/

namespace SaneBackends.Escl

open SaneBackends.Lib

/-- The worker of a stream. -/
def Format.worker : Format → Bool → (Nat → Attempt) → SaneStatus × List UInt8
  | .jpeg => jpegStreamWorker
  | .png => pngStreamWorker
  | .tiff => tiffStreamWorker

/-- The bytes that `png_check_sig` wants. -/
def pngSignature : List UInt8 := [0x89, 0x50, 0x4e, 0x47, 0x0d, 0x0a, 0x1a, 0x0a]

/-- A decoder together with the crop rectangle that is taken from its images. -/
structure Decoder where
  decode : List UInt8 → Option Page
  crop : (p : Page) → Crop p

/-- What the libraries make of the bytes. Only PNG data is looked at before. -/
def Decoder.open (d : Decoder) (f : Format) (data : List UInt8) : Option Page :=
  if f = .png ∧ data.take 8 ≠ pngSignature then none else d.decode data

/-- The start of the page with these bytes: the status of `sane_start`, and the handler. -/
def Decoder.start (d : Decoder) (f : Format) (junk : Nat → UInt8) (data : List UInt8) :
    SaneStatus × Option (Page × Handler) :=
  match d.open f data with
  | none => (.inval, none)
  | some p =>
      match f.streamStart junk p (d.crop p) with
      | none => (.inval, none)
      | some h => (.good, some (p, h))

/-- The start of the page fails, or a read of it before one says that it is complete. -/
def Decoder.ErrorBeforeEof (d : Decoder) (f : Format) (junk : Nat → UInt8) (data : List UInt8) :
    Prop :=
  match (d.start f junk data).2 with
  | none => (d.start f junk data).1 ≠ .good
  | some (p, h) => ∀ maxlen : Nat → Nat, (∀ i, 0 < maxlen i) →
      ∃ status out, Ends (saneRead f p (d.crop p)) .good maxlen 0 h status out ∧ status ≠ .eof

/-- What a user relies on if a transfer fails. -/
structure Decoder.FailureSeen (d : Decoder) (f : Format) (junk : Nat → UInt8)
    (status : SaneStatus) (data : List UInt8) : Prop where
  error : status ≠ .good → d.ErrorBeforeEof f junk data
  own : data = [] → (d.start f junk data).1 = status

/-- A page that can be given to its end. -/
def Format.Complete (f : Format) {p : Page} (c : Crop p) : Prop :=
  match f with
  | .jpeg => c.realWidth * p.samples ≠ 0
  | .png => p.width ≠ 0 ∧ p.height ≠ 0 ∧ p.samples = 3 ∧ c.realWidth ≠ 0 ∧
      p.height ≤ p.rows.length ∧ p.endOk = true
  | .tiff => p.TagsSupported ∧ p.rawSize ≠ 0 ∧ c.realWidth ≠ 0 ∧ c.realHeight ≠ 0 ∧
      p.height ≤ p.rows.length

/-- The bytes are not an image that can be given to its end. -/
def Decoder.Rejects (d : Decoder) (f : Format) (data : List UInt8) : Prop :=
  ∀ p ∈ d.open f data, ¬ f.Complete (d.crop p)

section Worker

variable {write : List Nat → List UInt8 → List UInt8} {attempts : Nat → Attempt}

theorem httpStatus_ne_inval (response : Int) : httpStatus response ≠ .inval := by
  unfold httpStatus
  split_ifs <;> decide

theorem attemptStatus_ne_inval (a : Attempt) : attemptStatus write a ≠ .inval := by
  unfold attemptStatus curlStatus
  split
  · split
    · decide
    · exact httpStatus_ne_inval _
  · decide

/-- A worker has no failure of the kind that a start reports, and succeeds with bytes only. -/
theorem workerLoop_status (turns attempt : Nat) (sink : List UInt8) :
    (workerLoop write attempts turns attempt sink).1 ≠ .inval ∧
      ((workerLoop write attempts turns attempt sink).1 = .good →
        (workerLoop write attempts turns attempt sink).2 ≠ []) := by
  induction turns generalizing attempt sink with
  | zero => exact ⟨nofun, nofun⟩
  | succ turns ih =>
      simp only [workerLoop]
      split
      · exact ih _ _
      · split
        · next hstatus => exact ⟨attemptStatus_ne_inval _, fun h => absurd h hstatus⟩
        · split
          · exact ⟨nofun, nofun⟩
          · next hsize =>
              exact ⟨nofun, fun _ hnil => hsize (List.length_eq_zero_iff.mpr hnil)⟩

theorem worker_status (f : Format) (init : Bool) (attempts : Nat → Attempt) :
    (f.worker init attempts).1 ≠ .inval ∧
      ((f.worker init attempts).1 = .good → (f.worker init attempts).2 ≠ []) := by
  have hworker (write : List Nat → List UInt8 → List UInt8) :
      (streamWorker write init attempts).1 ≠ .inval ∧
        ((streamWorker write init attempts).1 = .good →
          (streamWorker write init attempts).2 ≠ []) := by
    cases init with
    | true => exact workerLoop_status _ _ _
    | false => exact ⟨nofun, nofun⟩
  cases f with
  | jpeg | png => exact hworker pipeWrite
  | tiff => exact hworker fileWrite

end Worker

section Page

variable {f : Format} {p : Page} {c : Crop p} {h : Handler} {junk : Nat → UInt8}

/-- A start that succeeds leaves a fresh stream or none. -/
theorem streamStart_stream (hstart : f.streamStart junk p c = some h) :
    (h.stream = none ∧ h.endRead = false) ∨ ∃ rowSize, h.stream = some (.start junk rowSize) := by
  cases f with
  | jpeg =>
      simp only [Format.streamStart, jpegStreamStart, Option.ite_none_left_eq_some,
        Option.some.injEq] at hstart
      obtain ⟨-, rfl⟩ := hstart
      exact .inr ⟨_, rfl⟩
  | png =>
      simp only [Format.streamStart, pngStreamStart, Option.ite_none_left_eq_some,
        Option.some.injEq] at hstart
      obtain ⟨-, -, rfl⟩ := hstart
      exact .inr ⟨_, rfl⟩
  | tiff =>
      simp only [Format.streamStart, tiffStreamStart] at hstart
      split at hstart
      · cases hstart
        exact .inl ⟨rfl, rfl⟩
      · split at hstart
        · cases hstart
        · split at hstart
          · cases hstart
            exact .inl ⟨rfl, rfl⟩
          · cases hstart
            exact .inr ⟨_, rfl⟩

/-- A page that can be given to its end is one that starts with a stream whose lines can all be
read. -/
theorem complete_iff (junk : Nat → UInt8)
    (hjpeg : f = .jpeg → p.height ≤ p.rows.length ∧ p.endOk = true) :
    f.Complete c ↔
      ∃ h, f.streamStart junk p c = some h ∧ h.stream ≠ none ∧ (f.reader c).ReadsAll p := by
  cases f with
  | jpeg =>
      have hall : (jpegReader c).ReadsAll p := by
        obtain ⟨hrows, hend⟩ := hjpeg rfl
        exact ⟨hrows, fun h => by rw [hend] at h; exact Bool.noConfusion h.2⟩
      simp [Format.Complete, Format.streamStart, jpegStreamStart, Format.reader, hall,
        Handler.start]
  | png =>
      simp [Format.Complete, Format.streamStart, pngStreamStart, Format.reader, Handler.start,
        Reader.ReadsAll, pngReader]
      tauto
  | tiff =>
      simp only [Format.Complete, Format.streamStart, tiffStreamStart]
      constructor
      · rintro ⟨htags, hraw, hwidth, hheight, hrows⟩
        refine ⟨.start (some (.start junk (c.realWidth * 3))) c.realWidth c.realHeight 3, ?_,
          Option.some_ne_none _, hrows, fun hend => Bool.noConfusion hend.1⟩
        rw [if_neg (not_not.mpr htags), if_neg hraw, if_neg (by omega)]
      · rintro ⟨h, hstart, hstream, hrows, -⟩
        split at hstart
        · cases hstart
          exact absurd rfl hstream
        · next htags =>
            rw [Option.ite_none_left_eq_some] at hstart
            obtain ⟨hraw, hstart⟩ := hstart
            split at hstart
            · cases hstart
              exact absurd rfl hstream
            · next hempty =>
                exact ⟨not_not.mp htags, hraw, fun h => hempty (.inl h), fun h => hempty (.inr h),
                  hrows⟩

/-- Without an error every read before the end of the page succeeds, and only then. -/
theorem ends_of_start (hjpeg : f = .jpeg → p.height ≤ p.rows.length ∧ p.endOk = true)
    (hstart : f.streamStart junk p c = some h) {maxlen : Nat → Nat} (hpos : ∀ i, 0 < maxlen i) :
    ∃ status out, Ends (saneRead f p c) .good maxlen 0 h status out ∧
      (status = .eof ↔ f.Complete c) := by
  have hcomplete : f.Complete c ↔ h.stream ≠ none ∧ (f.reader c).ReadsAll p := by
    rw [complete_iff junk hjpeg, hstart]
    simp only [Option.some.injEq, exists_eq_left']
  rw [hcomplete]
  obtain ⟨hstream, hend⟩ | ⟨rowSize, hstream⟩ := streamStart_stream hstart
  · exact ⟨_, _, ends_noStream hstream hend, by simp [hstream]⟩
  · refine ⟨_, _, ends_start hstream hpos, ?_⟩
    rw [Reader.final, hstream]
    split
    · next hall => simp [hall]
    · next hall => simp [hall]

end Page

section Start

variable {d : Decoder} {f : Format} {junk : Nat → UInt8} {data : List UInt8}

/-- The start succeeds for what is complete. -/
theorem errorBeforeEof_iff
    (hjpeg : f = .jpeg → ∀ data, ∀ p ∈ d.decode data, p.height ≤ p.rows.length ∧ p.endOk = true) :
    d.ErrorBeforeEof f junk data ↔ d.Rejects f data := by
  unfold Decoder.ErrorBeforeEof Decoder.Rejects Decoder.start
  cases hopen : d.open f data with
  | none => simp
  | some p =>
      have hrows : f = .jpeg → p.height ≤ p.rows.length ∧ p.endOk = true := by
        intro hf
        have hdecode : p ∈ d.decode data := by
          rw [Decoder.open, if_neg fun h => absurd (hf.symm.trans h.1) (by decide)] at hopen
          exact hopen
        exact hjpeg hf data p hdecode
      simp only [Option.mem_def, Option.some.injEq, forall_eq']
      cases hstart : f.streamStart junk p (d.crop p) with
      | none =>
          have hno : ¬ f.Complete (d.crop p) := by
            rw [complete_iff junk hrows, hstart]
            simp
          simp [hno]
      | some h =>
          constructor
          · intro hreads hcomplete
            obtain ⟨status, out, hends, hstatus⟩ := hreads (fun _ => 1) fun _ => Nat.one_pos
            obtain ⟨status', out', hends', hiff⟩ :=
              ends_of_start hrows hstart fun _ : Nat => Nat.one_pos
            rw [(hends.unique hends').1] at hstatus
            exact hstatus (hiff.mpr hcomplete)
          · intro hno maxlen hpos
            obtain ⟨status, out, hends, hiff⟩ := ends_of_start hrows hstart hpos
            exact ⟨status, out, hends, fun h => hno (hiff.mp h)⟩

theorem start_empty (hempty : d.decode [] = none) : (d.start f junk []).1 = .inval := by
  have hopen : d.open f [] = none := by
    rw [Decoder.open, hempty]
    split <;> rfl
  rw [Decoder.start, hopen]

/-- A transfer that fails looks like one exactly if some bytes came and are no complete image. -/
theorem failureSeen_iff (f : Format) (d : Decoder) (junk : Nat → UInt8) (init : Bool)
    (attempts : Nat → Attempt)
    (hjpeg : f = .jpeg → ∀ data, ∀ p ∈ d.decode data, p.height ≤ p.rows.length ∧ p.endOk = true)
    (hempty : d.decode [] = none) :
    d.FailureSeen f junk (f.worker init attempts).1 (f.worker init attempts).2 ↔
      (f.worker init attempts).1 = .good ∨
        ((f.worker init attempts).2 ≠ [] ∧ d.Rejects f (f.worker init attempts).2) := by
  obtain ⟨hinval, hgood⟩ := worker_status f init attempts
  generalize f.worker init attempts = result at *
  obtain ⟨status, data⟩ := result
  constructor
  · intro hseen
    by_cases hstatus : status = .good
    · exact .inl hstatus
    · refine .inr ⟨fun hnil => ?_, (errorBeforeEof_iff hjpeg).mp (hseen.error hstatus)⟩
      have hown := hseen.own hnil
      rw [hnil, start_empty hempty] at hown
      exact hinval hown.symm
  · intro h
    refine ⟨fun hstatus => ?_, fun hnil => ?_⟩
    · obtain h | ⟨-, hrejects⟩ := h
      · exact absurd h hstatus
      · exact (errorBeforeEof_iff hjpeg).mpr hrejects
    · obtain h | ⟨hdata, -⟩ := h
      · exact absurd hnil (hgood h)
      · exact absurd hnil hdata

/-- A decoder that makes nothing of what it gets. -/
def noDecoder : Decoder := ⟨fun _ => none, fun _ => ⟨0, 0, 0, 0, nofun, nofun⟩⟩

/-- The connection breaks within the signature of a PNG image. -/
def brokenPng : Nat → Attempt := fun _ => ⟨[([0x89, 0x50, 0x4e], [3])], false, none⟩

theorem failureSeen_iff_brokenPng :
    noDecoder.FailureSeen .png (fun _ => 0) (Format.png.worker true brokenPng).1
        (Format.png.worker true brokenPng).2 ↔
      (Format.png.worker true brokenPng).1 = .good ∨
        ((Format.png.worker true brokenPng).2 ≠ [] ∧
          noDecoder.Rejects .png (Format.png.worker true brokenPng).2) :=
  failureSeen_iff .png noDecoder (fun _ => 0) true brokenPng nofun rfl

/-- The feeder is empty. -/
def notFound : Nat → Attempt := fun _ => ⟨[], true, some 404⟩

/-- The start of a JPEG page does not report that the feeder is empty. -/
theorem not_failureSeen_notFound :
    ¬ ∀ (f : Format) (d : Decoder) (junk : Nat → UInt8) (init : Bool) (attempts : Nat → Attempt),
      (f = .jpeg → ∀ data, ∀ p ∈ d.decode data, p.height ≤ p.rows.length ∧ p.endOk = true) →
      d.decode [] = none →
      d.FailureSeen f junk (f.worker init attempts).1 (f.worker init attempts).2 := by
  intro hall
  have hseen := hall .jpeg noDecoder (fun _ => 0) true notFound (fun _ _ _ h => nomatch h) rfl
  exact absurd (hseen.own rfl) (by decide)

end Start

end SaneBackends.Escl
