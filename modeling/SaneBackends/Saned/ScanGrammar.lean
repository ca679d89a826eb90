import SaneBackends.Saned.ScanStream
/-!
# The grammar of the data connection

Which runs of `do_scan` put exactly the records of the backend's data and one
trailer on the data connection.
-/

namespace SaneBackends.Saned

open SaneBackends.Lib

/-- A record: the length of `data` and its bytes. -/
def record (data : List UInt8) : List UInt8 := reclenBytes data.length ++ data

/-- The records of the backend's `GOOD` answers, in order. -/
def records (reads : List (SaneStatus × List UInt8)) : List UInt8 :=
  (reads.filter fun r => r.1 = .good).flatMap fun r => record r.2

@[simp] theorem records_nil : records [] = [] := rfl

theorem records_append (xs ys : List (SaneStatus × List UInt8)) :
    records (xs ++ ys) = records xs ++ records ys := by
  simp [records]

theorem records_good (data : List UInt8) : records [(.good, data)] = record data := by
  simp [records]

/-- What the data connection is to carry in a whole run. -/
def ScanRun.Grammatical (run : ScanRun) : Prop :=
  run.written = records run.reads ++ trailerBytes run.locals.status

instance : DecidablePred ScanRun.Grammatical := fun run =>
  inferInstanceAs (Decidable (run.written = _))

/-- The trailer is still to come. -/
def ScanLocals.OwesTrailer (l : ScanLocals) : Prop := l.status = .good ∨ l.statusDirty

instance (l : ScanLocals) : Decidable l.OwesTrailer := by
  unfold ScanLocals.OwesTrailer
  infer_instance

/-- The trailer that goes into the buffer on the way from `l` to `l'`. -/
def addedTrailer (l l' : ScanLocals) : List UInt8 :=
  if l.OwesTrailer ∧ ¬ l'.OwesTrailer then trailerBytes l'.status else []

theorem addedTrailer_of_owes {l l' : ScanLocals} (h : l'.OwesTrailer) : addedTrailer l l' = [] := by
  simp [addedTrailer, h]

theorem addedTrailer_self (l : ScanLocals) : addedTrailer l l = [] := by
  simp [addedTrailer]

section InRange

variable {bufferSize : Nat} (hmin : 4 ≤ bufferSize) (hmax : bufferSize ≤ intMax)

/-- The state between turns while every read so far was `GOOD`. The trailer leaves
`reader` on its status byte, so the index is only tied to the queue before that. -/
structure Clean (bufferSize : Nat) (l : ScanLocals) (pend : List UInt8) : Prop
    extends Queued bufferSize l pend where
  reader : l.OwesTrailer → l.reader = (ringIndex bufferSize l.writer pend.length : Nat)
  good_clean : l.status = .good → l.statusDirty = false
  ended_noFd : l.status ≠ .good → l.beFd = false

include hmin in
theorem Clean.start (buf : Bytes) (fd : Bool) : Clean bufferSize (.start buf fd) [] where
  writer_lt := by change 0 < bufferSize; omega
  bytes := rfl
  fits := by simp
  holds := .nil
  reader := by
    intro _
    change (0 : Int) = (ringIndex bufferSize 0 0 : Nat)
    rw [ringIndex_zero (by omega)]
    rfl
  good_clean := fun _ => rfl
  ended_noFd := fun h => absurd rfl h

include hmin hmax in
/-- The transfer part of a turn moves queued bytes out and a record in. -/
theorem Clean.transfer {l l₁ : ScanLocals} {pend : List UInt8} {input : ScanInput}
    {data be : Bool} {out : ScanOutput} (h : Clean bufferSize l pend)
    (hgood : ∀ r ∈ out.read, r.1 = SaneStatus.good)
    (hrun : Saned.transfer bufferSize l input data be = .ok (some (l₁, out))) :
    ∃ pend₁, Clean bufferSize l₁ pend₁ ∧ l₁.status = l.status ∧
      l₁.statusDirty = l.statusDirty ∧
      out.written ++ pend₁ = pend ++ records out.read.toList ∧
      (l.status ≠ .good → out.read = none) := by
  obtain ⟨accepted, -, hnone, hdrain⟩ | ⟨answer, hbytes, hst, rfl, hfill⟩ | ⟨rfl, rfl⟩ :=
    transfer_cases hrun
  · obtain ⟨n, hn, hsent, hq, hwriter, -⟩ := h.toQueued.drain accepted
    rw [← hdrain] at hsent hq hwriter
    dsimp only at hsent hq hwriter
    have hframe : l₁ = (Saned.drain bufferSize l accepted).1 := by rw [← hdrain]
    have hst : l₁.status = l.status := by rw [hframe]; rfl
    have hdirty : l₁.statusDirty = l.statusDirty := by rw [hframe]; rfl
    have hfd : l₁.beFd = l.beFd := by rw [hframe]; rfl
    have hreader : l₁.reader = l.reader := by rw [hframe]; rfl
    refine ⟨pend.drop n, ⟨hq, ?_, ?_, ?_⟩, hst, hdirty, ?_, fun _ => hnone⟩
    · intro howes
      rw [hreader, hwriter, List.length_drop,
        ringIndex_add h.writer_lt (by have := h.fits; omega),
        show n + (pend.length - n) = pend.length by omega]
      apply h.reader
      rwa [ScanLocals.OwesTrailer, hst, hdirty] at howes
    · rw [hst, hdirty]
      exact h.good_clean
    · rw [hst, hfd]
      exact h.ended_noFd
    · rw [hnone, hsent]
      simp
  · have hempty : pend = [] := by
      apply List.eq_nil_of_length_eq_zero
      have := h.bytes
      omega
    subst hempty
    have hreader : l.reader = l.writer := by
      rw [h.reader (.inl hst), List.length_nil, ringIndex_zero h.writer_lt]
    rw [fill_eq hmin hmax hreader h.writer_lt hbytes] at hfill
    dsimp only at hfill
    obtain ⟨hd4, hdr⟩ := length_fillData_le bufferSize l.writer input.read
    have hr4 := ringIndex_lt h.writer_lt hmin
    split_ifs at hfill with hread
    · simp only [Except.ok.injEq, Prod.mk.injEq] at hfill
      obtain ⟨rfl, rfl⟩ := hfill
      refine ⟨record (fillData bufferSize l.writer input.read),
        ⟨⟨h.writer_lt, ?_, ?_, ?_⟩, ?_, ?_, ?_⟩, ?_, rfl, ?_, ?_⟩
      · simp [record]; omega
      · simp [record]; omega
      · exact ringHolds_storeRing_storeBlock h.writer_lt (by simp; omega)
          (by simp only [length_reclenBytes]; omega)
      · intro _
        simp [record]
      · exact fun _ => h.good_clean hst
      · exact fun hbad => absurd hread hbad
      · rw [hread, hst]
      · simp [hread, records_good]
      · exact fun hbad => absurd hst hbad
    · simp only [Except.ok.injEq, Prod.mk.injEq] at hfill
      obtain ⟨-, rfl⟩ := hfill
      exact absurd (hgood _ rfl) hread
  · exact ⟨pend, h, rfl, rfl, by simp, fun _ => rfl⟩

include hmin hmax in
theorem Clean.addTrailer {l₁ l₂ : ScanLocals} {pend : List UInt8} (h : Clean bufferSize l₁ pend)
    (hrun : Saned.addTrailer bufferSize l₁ = .ok l₂) :
    Clean bufferSize l₂ (pend ++ addedTrailer l₁ l₂) ∧ l₂.status = l₁.status ∧
      (l₂.OwesTrailer → l₁.OwesTrailer) := by
  by_cases hdirty : l₁.statusDirty = true
  · have howes : l₁.OwesTrailer := .inr hdirty
    have hfits := h.fits
    have hr := ringIndex_lt h.writer_lt hfits
    have hbad : l₁.status ≠ .good := fun hg => by simp [h.good_clean hg] at hdirty
    rw [addTrailer_eq hmin hmax (h.reader howes) hr (by rw [h.bytes]; omega)
      (by rw [h.bytes]; omega)] at hrun
    split_ifs at hrun with hc
    · have hroom := hc.2
      rw [h.bytes] at hroom
      simp only [Except.ok.injEq] at hrun
      subst hrun
      have hadded : ∀ (buf : Bytes) (reader bytesInBuf : Int),
          addedTrailer l₁ { l₁ with buf, reader, statusDirty := false, bytesInBuf } =
            trailerBytes l₁.status := by
        intros
        simp [addedTrailer, hdirty, ScanLocals.OwesTrailer, hbad]
      rw [hadded]
      refine ⟨⟨⟨h.writer_lt, ?_, ?_, ?_⟩, ?_, ?_, ?_⟩, rfl, fun _ => howes⟩
      · simp only [List.length_append, length_trailerBytes, h.bytes]
        omega
      · simp only [List.length_append, length_trailerBytes]
        omega
      · exact h.holds.storeRing_append h.writer_lt (by simp only [length_trailerBytes]; omega)
      · intro hbad'
        simp [ScanLocals.OwesTrailer, hbad] at hbad'
      · exact fun _ => rfl
      · exact h.ended_noFd
    · simp only [Except.ok.injEq] at hrun
      subst hrun
      rw [addedTrailer_self, List.append_nil]
      exact ⟨h, rfl, id⟩
  · have hsame : l₂ = l₁ := by
      simpa [Saned.addTrailer, hdirty, eq_comm] using hrun
    subst hsame
    rw [addedTrailer_self, List.append_nil]
    exact ⟨h, rfl, id⟩

include hmin hmax in
/-- One turn with a `GOOD` read or none. -/
theorem Clean.scanBody {l l' : ScanLocals} {pend : List UInt8} {input : ScanInput}
    {out : ScanOutput} {flow : Flow} (h : Clean bufferSize l pend)
    (hrun : Saned.scanBody bufferSize l input = .ok (l', out, flow))
    (hgood : ∀ r ∈ out.read, r.1 = SaneStatus.good) (hflow : ∀ d, flow ≠ .leave d) :
    ∃ pend', Clean bufferSize l' pend' ∧ (l'.OwesTrailer → l.OwesTrailer) ∧
      out.written ++ pend' = pend ++ records out.read.toList ++ addedTrailer l l' ∧
      (l.status ≠ .good → out.read = none ∧ l'.status = l.status) := by
  obtain ⟨hfd, rfl, rfl⟩ | ⟨data, be, l₁, htransfer, htrailer⟩ := scanBody_cases hrun hflow
  · have hg : l.status = .good := by
      by_contra hbad
      rw [h.ended_noFd hbad] at hfd
      cases hfd
    refine ⟨pend, ⟨⟨h.writer_lt, h.bytes, h.fits, h.holds⟩, ?_, ?_, ?_⟩, fun _ => .inl hg, ?_,
      fun hbad => absurd hg hbad⟩
    · exact fun _ => h.reader (.inl hg)
    · intro hbad
      cases hbad
    · exact fun _ => rfl
    · rw [addedTrailer_of_owes (.inr (by simp [hg]))]
      simp
  · obtain ⟨pend₁, h₁, hst₁, hdirty₁, hsent, hnone⟩ := h.transfer hmin hmax hgood htransfer
    obtain ⟨h₂, hst₂, howes₂⟩ := h₁.addTrailer hmin hmax htrailer
    have howes₁ : l₁.OwesTrailer ↔ l.OwesTrailer := by
      simp only [ScanLocals.OwesTrailer, hst₁, hdirty₁]
    have hadded : addedTrailer l₁ l' = addedTrailer l l' := by
      simp only [addedTrailer, howes₁]
    refine ⟨_, h₂, fun ho => howes₁.1 (howes₂ ho), ?_,
      fun hbad => ⟨hnone hbad, hst₂.trans hst₁⟩⟩
    rw [← List.append_assoc, hsent, hadded]

include hmin hmax in
/-- A scan without a bad read sends its records and one trailer. -/
theorem Clean.scanLoop {turns : List ScanTurn} :
    ∀ {l : ScanLocals} {pend : List UInt8} {run : ScanRun}, Clean bufferSize l pend →
      Saned.scanLoop bufferSize l turns = .ok run → run.ended = .finished →
      (∀ r ∈ run.reads, r.1 = .good) →
      run.written = pend ++ records run.reads ++
          (if l.OwesTrailer then trailerBytes run.locals.status else []) ∧
        (l.status ≠ .good → run.reads = [] ∧ run.locals.status = l.status) := by
  induction turns with
  | nil =>
      intro l pend run _ hrun hfin _
      simp only [Saned.scanLoop, Except.ok.injEq] at hrun
      subst hrun
      cases hfin
  | cons turn turns ih =>
      intro l pend run h hrun hfin hgood
      obtain ⟨l', out, flow, hbody, hflow, ⟨hcont, rfl⟩ |
        ⟨-, rest, hrest, hrestFin, hlocals, hwritten, hreads⟩⟩ := scanLoop_finished hrun hfin
      · obtain ⟨pend', h', howes, hsent, hbad⟩ :=
          h.scanBody hmin hmax hbody (by simpa using hgood) hflow
        simp only [ScanLocals.continues, Bool.or_eq_false_iff, decide_eq_false_iff_not] at hcont
        have hnone : ¬ l'.OwesTrailer := by
          simp [ScanLocals.OwesTrailer, hcont]
        have hdone : pend' = [] := by
          apply List.eq_nil_of_length_eq_zero
          have := h'.bytes
          omega
        rw [hdone, List.append_nil] at hsent
        refine ⟨?_, fun hst => ?_⟩
        · rw [hsent, addedTrailer]
          simp only [hnone, not_false_eq_true, and_true]
        · exact ⟨by simp [hbad hst], (hbad hst).2⟩
      · obtain ⟨pend', h', howes, hsent, hbad⟩ :=
          h.scanBody hmin hmax hbody
            (fun r hr => hgood r (by simp [hreads, Option.mem_def.1 hr])) hflow
        obtain ⟨ihWritten, ihBad⟩ :=
          ih h' hrest hrestFin (fun r hr => hgood r (by simp [hreads, hr]))
        refine ⟨?_, fun hst => ?_⟩
        · rw [hwritten, hreads, hlocals, ihWritten, records_append, addedTrailer] at *
          by_cases ho : l'.OwesTrailer
          · have hl := howes ho
            simp only [ho, hl, not_true_eq_false, and_false, if_false, if_true,
              List.append_nil] at hsent ⊢
            simp only [← List.append_assoc, hsent]
          · have hbad' : l'.status ≠ .good := fun hg => ho (.inl hg)
            obtain ⟨hnoReads, hst'⟩ := ihBad hbad'
            simp only [ho, not_false_eq_true, and_true, if_false, List.append_nil, hnoReads,
              records_nil, hst'] at hsent ⊢
            exact hsent
        · obtain ⟨hnone, hst'⟩ := hbad hst
          obtain ⟨hnoReads, hst''⟩ := ihBad (by rw [hst']; exact hst)
          exact ⟨by simp [hreads, hnone, hnoReads], by rw [hlocals, hst'', hst']⟩

/-- The state between turns, whatever the reads were. -/
structure Bounded (bufferSize : Nat) (l : ScanLocals) : Prop where
  writer_lt : l.writer < bufferSize
  nonneg : 0 ≤ l.bytesInBuf
  fits : l.bytesInBuf ≤ bufferSize
  reader : ∃ r < bufferSize, l.reader = (r : Int)
  good_clean : l.status = .good → l.statusDirty = false

include hmin in
theorem Bounded.start (buf : Bytes) (fd : Bool) : Bounded bufferSize (.start buf fd) where
  writer_lt := by change 0 < bufferSize; omega
  nonneg := le_refl 0
  fits := by change (0 : Int) ≤ bufferSize; omega
  reader := ⟨0, by omega, rfl⟩
  good_clean := fun _ => rfl

theorem Bounded.queued {l : ScanLocals} (h : Bounded bufferSize l) :
    ∃ pend, Queued bufferSize l pend := by
  obtain ⟨pend, hlen, hholds⟩ :=
    exists_ringHolds bufferSize l.buf l.writer l.bytesInBuf.toNat
  have hnonneg := h.nonneg
  have hfits := h.fits
  exact ⟨pend, h.writer_lt, by omega, by omega, hholds⟩

/-- The bytes still to be sent for `l`, the trailer included. -/
def ScanLocals.due (l : ScanLocals) : Int := l.bytesInBuf + if l.OwesTrailer then 5 else 0

/-- What the reads of a scan add to `bytes_in_buf`. -/
def charges (reads : List (SaneStatus × List UInt8)) : Int :=
  (reads.map fun r => (r.2.length : Int) + 4).sum

theorem charges_append (xs ys : List (SaneStatus × List UInt8)) :
    charges (xs ++ ys) = charges xs + charges ys := by
  simp [charges]

include hmin hmax in
theorem Bounded.transfer {l l₁ : ScanLocals} {input : ScanInput} {data be : Bool}
    {out : ScanOutput} (h : Bounded bufferSize l)
    (hrun : Saned.transfer bufferSize l input data be = .ok (some (l₁, out))) :
    Bounded bufferSize l₁ ∧
      out.written.length + l₁.due = l.due + charges out.read.toList := by
  obtain ⟨accepted, -, hnone, hdrain⟩ | ⟨answer, hbytes, hst, rfl, hfill⟩ | ⟨rfl, rfl⟩ :=
    transfer_cases hrun
  · obtain ⟨pend, hq⟩ := h.queued
    obtain ⟨n, hn, hsent, hq', -, -⟩ := hq.drain accepted
    rw [← hdrain] at hsent hq'
    dsimp only at hsent hq'
    have hframe : l₁ = (Saned.drain bufferSize l accepted).1 := by rw [← hdrain]
    have howes : l₁.OwesTrailer ↔ l.OwesTrailer := by rw [hframe]; rfl
    have hreader : l₁.reader = l.reader := by rw [hframe]; rfl
    have hclean : l₁.status = .good → l₁.statusDirty = false := by
      rw [hframe]
      exact h.good_clean
    have hbytes := hq.bytes
    have hbytes' := hq'.bytes
    have hfits' := hq'.fits
    rw [List.length_drop] at hbytes' hfits'
    refine ⟨⟨hq'.writer_lt, by omega, by omega, by rw [hreader]; exact h.reader, hclean⟩, ?_⟩
    · simp only [ScanLocals.due, howes, hnone, hsent, List.length_take, Option.toList_none, charges,
        List.map_nil, List.sum_nil]
      omega
  · obtain ⟨r, hr, hreader⟩ := h.reader
    rw [fill_eq hmin hmax hreader hr hbytes] at hfill
    dsimp only at hfill
    obtain ⟨hd4, hdr⟩ := length_fillData_le bufferSize r input.read
    have howes : l.OwesTrailer := .inl hst
    split_ifs at hfill with hread
    · simp only [Except.ok.injEq, Prod.mk.injEq] at hfill
      obtain ⟨rfl, rfl⟩ := hfill
      refine ⟨⟨h.writer_lt, by dsimp only; omega, by dsimp only; omega,
        ⟨_, ringIndex_lt hr (by omega), rfl⟩, fun _ => h.good_clean hst⟩, ?_⟩
      simp [ScanLocals.due, ScanLocals.OwesTrailer, hst, hread, hbytes, charges]
      omega
    · simp only [Except.ok.injEq, Prod.mk.injEq] at hfill
      obtain ⟨rfl, rfl⟩ := hfill
      refine ⟨⟨h.writer_lt, by dsimp only; omega, by dsimp only; omega,
        ⟨r, hr, rfl⟩, fun hg => absurd hg hread⟩, ?_⟩
      simp [ScanLocals.due, ScanLocals.OwesTrailer, hst, hbytes, charges]
      omega
  · exact ⟨h, by simp [charges]⟩

include hmin hmax in
theorem Bounded.addTrailer {l₁ l₂ : ScanLocals} (h : Bounded bufferSize l₁)
    (hrun : Saned.addTrailer bufferSize l₁ = .ok l₂) :
    Bounded bufferSize l₂ ∧ l₂.due = l₁.due := by
  obtain ⟨r, hr, hreader⟩ := h.reader
  rw [addTrailer_eq hmin hmax hreader hr h.nonneg h.fits] at hrun
  split_ifs at hrun with hc
  · obtain ⟨hdirty, hroom⟩ := hc
    have hbad : l₁.status ≠ .good := fun hg => by simp [h.good_clean hg] at hdirty
    have hnonneg := h.nonneg
    simp only [Except.ok.injEq] at hrun
    subst hrun
    refine ⟨⟨h.writer_lt, by dsimp only; omega, hroom, ⟨_, ringIndex_lt hr hmin, rfl⟩,
      fun _ => rfl⟩, ?_⟩
    simp [ScanLocals.due, ScanLocals.OwesTrailer, hdirty, hbad]
  · simp only [Except.ok.injEq] at hrun
    subst hrun
    exact ⟨h, rfl⟩

include hmin hmax in
/-- One turn, bad reads included, sends what is due. -/
theorem Bounded.scanBody {l l' : ScanLocals} {input : ScanInput} {out : ScanOutput} {flow : Flow}
    (h : Bounded bufferSize l)
    (hrun : Saned.scanBody bufferSize l input = .ok (l', out, flow))
    (hflow : ∀ d, flow ≠ .leave d) :
    Bounded bufferSize l' ∧ out.written.length + l'.due = l.due + charges out.read.toList := by
  obtain ⟨-, rfl, rfl⟩ | ⟨data, be, l₁, htransfer, htrailer⟩ := scanBody_cases hrun hflow
  · refine ⟨⟨h.writer_lt, h.nonneg, h.fits, h.reader, fun hg => by cases hg⟩, ?_⟩
    have howes : l.OwesTrailer ↔ l.status = .good ∨ l.statusDirty := Iff.rfl
    by_cases hg : l.status = .good <;>
      simp [ScanLocals.due, ScanLocals.OwesTrailer, charges, hg]
  · obtain ⟨h₁, hsent⟩ := h.transfer hmin hmax htransfer
    obtain ⟨h₂, hdue⟩ := h₁.addTrailer hmin hmax htrailer
    exact ⟨h₂, by rw [hdue, hsent]⟩

include hmin hmax in
theorem Bounded.scanLoop {turns : List ScanTurn} :
    ∀ {l : ScanLocals} {run : ScanRun}, Bounded bufferSize l →
      Saned.scanLoop bufferSize l turns = .ok run → run.ended = .finished →
      (run.written.length : Int) = l.due + charges run.reads := by
  induction turns with
  | nil =>
      intro l run _ hrun hfin
      simp only [Saned.scanLoop, Except.ok.injEq] at hrun
      subst hrun
      cases hfin
  | cons turn turns ih =>
      intro l run h hrun hfin
      obtain ⟨l', out, flow, hbody, hflow, ⟨hcont, rfl⟩ |
        ⟨-, rest, hrest, hrestFin, -, hwritten, hreads⟩⟩ := scanLoop_finished hrun hfin
      · obtain ⟨h', hsent⟩ := h.scanBody hmin hmax hbody hflow
        simp only [ScanLocals.continues, Bool.or_eq_false_iff, decide_eq_false_iff_not] at hcont
        have hdone : l'.due = 0 := by
          have := h'.nonneg
          simp only [ScanLocals.due, ScanLocals.OwesTrailer, hcont]
          simp
          omega
        change (out.written.length : Int) = l.due + charges out.read.toList
        omega
      · obtain ⟨h', hsent⟩ := h.scanBody hmin hmax hbody hflow
        have hrestSent := ih h' hrest hrestFin
        rw [hwritten, hreads, charges_append, List.length_append]
        push_cast
        omega

theorem length_records_le_charges (reads : List (SaneStatus × List UInt8)) :
    ((records reads).length : Int) ≤ charges reads := by
  induction reads with
  | nil => simp [charges]
  | cons r reads ih =>
      rw [show r :: reads = [r] ++ reads by rfl, records_append, charges_append,
        List.length_append]
      by_cases hr : r.1 = .good <;> simp [records, record, charges, hr] at ih ⊢ <;> omega

/-- The records account for every charge exactly if no read was bad. -/
theorem length_records_eq_charges_iff (reads : List (SaneStatus × List UInt8)) :
    ((records reads).length : Int) = charges reads ↔ ∀ r ∈ reads, r.1 = .good := by
  induction reads with
  | nil => simp [charges]
  | cons r reads ih =>
      have hle := length_records_le_charges reads
      rw [List.forall_mem_cons]
      constructor
      · intro h
        rw [show r :: reads = [r] ++ reads by rfl, records_append, charges_append,
          List.length_append] at h
        by_cases hr : r.1 = .good <;> simp [records, record, charges, hr] at h hle
        · exact ⟨hr, ih.1 (by simp [records, record, charges]; omega)⟩
        · omega
      · rintro ⟨hr, hrest⟩
        have h := ih.2 hrest
        rw [show r :: reads = [r] ++ reads by rfl, records_append, charges_append,
          List.length_append]
        simp [records, record, charges, hr] at h ⊢
        omega

include hmin hmax in
/-- In range, a finished scan keeps the grammar exactly if no read was bad. -/
theorem grammatical_iff {buf : Bytes} {fd : Bool} {turns : List ScanTurn} {run : ScanRun}
    (hrun : Saned.scanLoop bufferSize (.start buf fd) turns = .ok run)
    (hfin : run.ended = .finished) :
    run.Grammatical ↔ ∀ r ∈ run.reads, r.1 = .good := by
  constructor
  · intro hgram
    have hlen := (Bounded.start hmin buf fd).scanLoop hmin hmax hrun hfin
    rw [hgram, List.length_append, length_trailerBytes] at hlen
    change _ = (0 : Int) + 5 + _ at hlen
    apply (length_records_eq_charges_iff _).1
    push_cast at hlen
    omega
  · intro hgood
    obtain ⟨hwritten, -⟩ := (Clean.start hmin buf fd).scanLoop hmin hmax hrun hfin hgood
    rw [if_pos (.inl rfl), List.nil_append] at hwritten
    exact hwritten

end InRange

end SaneBackends.Saned
