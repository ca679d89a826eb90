import SaneBackends.Genesys.ImageBuffer
/-!
# Failed batches of the image buffer

What a call of the producer that failed has left in the buffer is not data. Whether any of it
is delivered is told by comparing with a producer that leaves something else there.
-/

namespace SaneBackends.Genesys

namespace ImageBuffer

/-! ## Runs -/

/-- `get_data` with so many passes of its loop. -/
def getDataWithin (producer : Producer) (fuel : Nat) (buf : ImageBuffer) (size : Nat) :
    Option (Answer × ImageBuffer) :=
  let bytesCopy := min size buf.available
  let copied := if 0 < buf.available then buf.copyBuffer size else ([], buf)
  let wanted := size - bytesCopy
  if wanted = 0 then some (⟨true, copied.1⟩, copied.2)
  else getDataLoop producer fuel copied.2 wanted copied.1 true

theorem getData_eq_within (producer : Producer) (buf : ImageBuffer) (size : Nat) :
    getData producer buf size =
      getDataWithin producer (size - min size buf.available + 1) buf size := rfl

/-- A sequence of calls that all return within so many passes. -/
def getDataAllWithin (producer : Producer) (fuel : Nat) :
    ImageBuffer → List Nat → Option (List Answer × ImageBuffer)
  | buf, [] => some ([], buf)
  | buf, size :: sizes => do
      let (answer, buf) ← getDataWithin producer fuel buf size
      let (answers, buf) ← getDataAllWithin producer fuel buf sizes
      return (answer :: answers, buf)

end ImageBuffer

/-- A new buffer whose sizes are set. -/
def newBuffer (size remaining multiple : Nat) : ImageBuffer :=
  { size := size, remainingSize := remaining, lastReadMultiple := multiple }

/-- The producers get the same batches; they differ in what they store when they fail. -/
def AgreeOnData (producer producer' : Producer) : Prop :=
  ∀ i n, (producer' i n).1 = (producer i n).1 ∧
    ((producer i n).1 = true → (producer' i n).2 = (producer i n).2)

section Planned

variable (producer : Producer) (size remaining multiple : Nat)

/-- How much the producer is asked for as the `i`-th batch. -/
def alignedSize (i : Nat) : Nat :=
  if (remaining ≠ bufferSizeUnset ∧ remaining ≤ (i + 1) * size) ∧ multiple ≠ bufferSizeUnset then
    roundUp (plannedSize size remaining i) multiple
  else plannedSize size remaining i

/-- The producer does not get the `i`-th batch. -/
def fails (i : Nat) : Bool := !(producer i (alignedSize size remaining multiple i)).1

/-- The producer did not get the last batch that it was to store something of. -/
def holdsFailed : Nat → Bool
  | 0 => false
  | i + 1 =>
      if alignedSize size remaining multiple i = 0 then holdsFailed i
      else fails producer size remaining multiple i

/-- The calls of `get_data` on a new buffer are not taken in by a producer that fails. -/
structure Contained (sizes : List Nat) : Prop where
  /-- A call that asks for a batch which fails returns, and returns false. -/
  reported : ∀ before wanted after, sizes = before ++ wanted :: after → ∀ fuel answers buf,
    ImageBuffer.getDataAllWithin producer fuel (newBuffer size remaining multiple) before =
      some (answers, buf) →
    (∃ fuel answer buf',
      ImageBuffer.getDataWithin producer fuel buf wanted = some (answer, buf') ∧
      (answer.gotData = true → ∀ i, buf.batches.length ≤ i → i < buf'.batches.length →
        fails producer size remaining multiple i = false)) ∨
    ∀ i, buf.batches.length ≤ i → fails producer size remaining multiple i = false
  /-- Whatever is stored for the batches that fail, the answers that are true are the same. -/
  withheld : ∀ fuel answers buf,
    ImageBuffer.getDataAllWithin producer fuel (newBuffer size remaining multiple) sizes =
      some (answers, buf) →
    ∀ producer', AgreeOnData producer producer' → ∃ answers' buf',
      ImageBuffer.getDataAllWithin producer' fuel (newBuffer size remaining multiple) sizes =
        some (answers', buf') ∧
      List.Forall₂ (fun answer answer' => answer'.gotData = answer.gotData ∧
        (answer.gotData = true → answer'.out = answer.out)) answers answers'

/-- The request can be met: enough is left, and no batch that it takes fails. -/
def CanServe (buf : ImageBuffer) (wanted : Nat) : Prop :=
  (buf.remainingSize ≠ bufferSizeUnset → wanted - buf.available ≤ buf.remainingSize) ∧
    ∀ i, i * size < wanted - buf.available →
      fails producer size remaining multiple (buf.batches.length + i) = false

/-- The request can be met, but begins with what a failed batch left in the buffer: such bytes
are available, or the next batch is asked for with size zero and leaves them in its place. -/
def Spoils (buf : ImageBuffer) (wanted : Nat) : Prop :=
  0 < wanted ∧ holdsFailed producer size remaining multiple buf.batches.length = true ∧
    (0 < buf.available ∨ alignedSize size remaining multiple buf.batches.length = 0) ∧
    CanServe producer size remaining multiple buf wanted

/-- The byte that place `j` of the buffer has from the first batches. -/
def heldByte : Nat → Nat → UInt8
  | 0, _ => 0
  | i + 1, j =>
      if alignedSize size remaining multiple i = 0 then heldByte i j
      else (producer i (alignedSize size remaining multiple i)).2 j

/-- How many places of the buffer the first batches have filled. -/
def heldSize : Nat → Nat
  | 0 => size
  | i + 1 =>
      if alignedSize size remaining multiple i = 0 then heldSize i
      else alignedSize size remaining multiple i

end Planned

section Held

variable {producer producer' : Producer} {size remaining multiple : Nat}

theorem plannedSize_le (i : Nat) : plannedSize size remaining i ≤ size := by
  unfold plannedSize
  split_ifs <;> omega

theorem alignedSize_last {i : Nat} (hlast : (remaining ≠ bufferSizeUnset ∧
    remaining ≤ (i + 1) * size) ∧ multiple ≠ bufferSizeUnset) :
    alignedSize size remaining multiple i = roundUp (plannedSize size remaining i) multiple :=
  if_pos hlast

theorem alignedSize_more {i : Nat} (hmore : ¬ ((remaining ≠ bufferSizeUnset ∧
    remaining ≤ (i + 1) * size) ∧ multiple ≠ bufferSizeUnset)) :
    alignedSize size remaining multiple i = plannedSize size remaining i :=
  if_neg hmore

theorem heldSize_succ (i : Nat) : heldSize size remaining multiple (i + 1) =
    if alignedSize size remaining multiple i = 0 then heldSize size remaining multiple i
    else alignedSize size remaining multiple i := rfl

theorem heldByte_succ (i j : Nat) : heldByte producer size remaining multiple (i + 1) j =
    if alignedSize size remaining multiple i = 0 then heldByte producer size remaining multiple i j
    else (producer i (alignedSize size remaining multiple i)).2 j := rfl

theorem holdsFailed_succ (i : Nat) : holdsFailed producer size remaining multiple (i + 1) =
    if alignedSize size remaining multiple i = 0 then
      holdsFailed producer size remaining multiple i
    else fails producer size remaining multiple i := rfl

/-- A batch is asked for in full or, when rounding up wraps, not at all. -/
theorem alignedSize_cases (hsize : size < 2 ^ 64) (hmultiple : multiple < 2 ^ 64) (i : Nat) :
    plannedSize size remaining i ≤ alignedSize size remaining multiple i ∨
      alignedSize size remaining multiple i = 0 ∧ remaining ≠ bufferSizeUnset ∧
        remaining ≤ (i + 1) * size := by
  have hplanned : plannedSize size remaining i ≤ size := plannedSize_le i
  by_cases hlast : (remaining ≠ bufferSizeUnset ∧ remaining ≤ (i + 1) * size) ∧
      multiple ≠ bufferSizeUnset
  · rw [alignedSize_last hlast]
    by_cases hwraps : 2 ^ 64 ≤ plannedSize size remaining i + multiple - 1
    · exact .inr ⟨roundUp_of_wrap (by omega) hmultiple hwraps, hlast.1⟩
    · exact .inl (le_roundUp (by omega) hmultiple (by omega))
  · rw [alignedSize_more hlast]
    exact .inl (Nat.le_refl _)

/-- Up to a batch that is left to read, all batches have filled the buffer. -/
theorem size_le_heldSize {i : Nat} (hleft : 0 < plannedSize size remaining i) :
    size ≤ heldSize size remaining multiple i := by
  cases i with
  | zero => exact Nat.le_refl _
  | succ i =>
      have hmore : ¬ (remaining ≠ bufferSizeUnset ∧ remaining ≤ (i + 1) * size) := by
        rintro ⟨hset, hend⟩
        rw [plannedSize, if_neg hset] at hleft
        omega
      have hfull : plannedSize size remaining i = size := ImageBuffer.plannedSize_of_more hmore
      have haligned : alignedSize size remaining multiple i = size := by
        rw [alignedSize_more (fun hlast => hmore hlast.1), hfull]
      rw [heldSize_succ, haligned]
      have hpos : size ≠ 0 := by
        have hle : plannedSize size remaining (i + 1) ≤ size := plannedSize_le _
        omega
      rw [if_neg hpos]

/-- What is available of a batch lies in the part of the buffer that is filled. -/
theorem plannedSize_le_heldSize (hsize : size < 2 ^ 64) (hmultiple : multiple < 2 ^ 64) (i : Nat) :
    plannedSize size remaining i ≤ heldSize size remaining multiple (i + 1) := by
  rw [heldSize_succ]
  by_cases hnone : alignedSize size remaining multiple i = 0
  · rw [if_pos hnone]
    by_cases hleft : 0 < plannedSize size remaining i
    · exact (plannedSize_le i).trans (size_le_heldSize hleft)
    · omega
  · rw [if_neg hnone]
    exact (alignedSize_cases hsize hmultiple i).resolve_right fun hwraps => hnone hwraps.1

theorem fails_congr (h : AgreeOnData producer producer') (i : Nat) :
    fails producer' size remaining multiple i = fails producer size remaining multiple i := by
  rw [fails, fails, (h _ _).1]

/-- Bytes of a batch that did not fail are the same for both producers. -/
theorem heldByte_congr (h : AgreeOnData producer producer') {count : Nat}
    (hgood : holdsFailed producer size remaining multiple count = false) :
    heldByte producer' size remaining multiple count =
      heldByte producer size remaining multiple count := by
  funext j
  induction count with
  | zero => rfl
  | succ i ih =>
      rw [holdsFailed_succ] at hgood
      rw [heldByte_succ, heldByte_succ]
      by_cases hnone : alignedSize size remaining multiple i = 0
      · rw [if_pos hnone] at hgood ⊢
        rw [if_pos hnone]
        exact ih hgood
      · rw [if_neg hnone] at hgood ⊢
        rw [if_neg hnone, (h _ _).2 (by simpa [fails] using hgood)]

/-- The producer that stores other bytes when it fails. -/
def Producer.altered (producer : Producer) : Producer := fun i n =>
  if (producer i n).1 = true then producer i n
  else ((producer i n).1, fun j => (producer i n).2 j + 1)

theorem agreeOnData_altered (producer : Producer) : AgreeOnData producer producer.altered := by
  intro i n
  unfold Producer.altered
  by_cases hgood : (producer i n).1 = true
  · rw [if_pos hgood]
    exact ⟨rfl, fun _ => rfl⟩
  · rw [if_neg hgood]
    exact ⟨rfl, fun h => absurd h hgood⟩

theorem heldByte_altered {count : Nat}
    (hfailed : holdsFailed producer size remaining multiple count = true) (j : Nat) :
    heldByte producer.altered size remaining multiple count j ≠
      heldByte producer size remaining multiple count j := by
  induction count with
  | zero => cases hfailed
  | succ i ih =>
      rw [holdsFailed_succ] at hfailed
      rw [heldByte_succ, heldByte_succ]
      by_cases hnone : alignedSize size remaining multiple i = 0
      · rw [if_pos hnone] at hfailed ⊢
        rw [if_pos hnone]
        exact ih hfailed
      · rw [if_neg hnone] at hfailed ⊢
        rw [if_neg hnone, Producer.altered, if_neg (by simpa [fails] using hfailed)]
        intro heq
        exact absurd (UInt8.add_eq_left.mp heq) (by decide)

end Held

/-! ## States between calls -/

namespace ImageBuffer

variable {producer producer' : Producer} {size remaining multiple : Nat} {buf buf' : ImageBuffer}
  {wanted fuel : Nat} {answer : Answer} {out : List UInt8}

/-- A state that calls lead to, with what the batches have left in the buffer. -/
structure Reached (producer : Producer) (size remaining multiple : Nat) (buf : ImageBuffer) :
    Prop where
  served : ∃ consumed, Served producer size remaining multiple buf consumed
  held : ∀ j < heldSize size remaining multiple buf.batches.length,
    buf.buffer[j]? = some (heldByte producer size remaining multiple buf.batches.length j)
  curr : buf.currSize ≤ heldSize size remaining multiple buf.batches.length

theorem reached_new :
    Reached producer size remaining multiple (newBuffer size remaining multiple) where
  served := ⟨[], served_fresh⟩
  held := by
    intro j hj
    have hj' : j < size := hj
    change (List.replicate size (0 : UInt8))[j]? = some 0
    rw [List.getElem?_replicate, if_pos hj']
  curr := Nat.zero_le _

namespace Reached

theorem copyBuffer (h : Reached producer size remaining multiple buf) (wanted : Nat) :
    Reached producer size remaining multiple (buf.copyBuffer wanted).2 ∧
      (buf.copyBuffer wanted).2.available = buf.available - min wanted buf.available := by
  obtain ⟨consumed, hserved⟩ := h.served
  obtain ⟨hserved', -, havailable⟩ := hserved.copyBuffer wanted
  exact ⟨⟨⟨_, hserved'⟩, h.held, h.curr⟩, havailable⟩

/-- What is copied are bytes of the batches. -/
theorem copyBuffer_fst (h : Reached producer size remaining multiple buf) (wanted : Nat) :
    (buf.copyBuffer wanted).1 = (List.range (min wanted buf.available)).map fun j =>
      heldByte producer size remaining multiple buf.batches.length (buf.bufferOffset + j) := by
  obtain ⟨consumed, hserved⟩ := h.served
  have hcurr := h.curr
  apply List.ext_getElem?
  intro j
  by_cases hj : j < min wanted buf.available
  · have hplace : buf.bufferOffset + j < heldSize size remaining multiple buf.batches.length := by
      unfold available at hj
      omega
    rw [ImageBuffer.copyBuffer, List.getElem?_take_of_lt hj, List.getElem?_drop, h.held _ hplace,
      List.getElem?_map, List.getElem?_range hj, Option.map_some]
  · have hlength := (hserved.copyBuffer wanted).2.1
    rw [List.getElem?_eq_none (by omega), List.getElem?_eq_none]
    rw [List.length_map, List.length_range]
    omega

theorem readBatch (h : Reached producer size remaining multiple buf) (hsize : size < 2 ^ 64)
    (hmultiple : multiple < 2 ^ 64) (hremaining : remaining ≤ bufferSizeUnset)
    (hempty : buf.available = 0) :
    Reached producer size remaining multiple (ImageBuffer.readBatch producer buf).2 ∧
      (ImageBuffer.readBatch producer buf).1 =
        !fails producer size remaining multiple buf.batches.length ∧
      (ImageBuffer.readBatch producer buf).2.available =
        plannedSize size remaining buf.batches.length ∧
      (ImageBuffer.readBatch producer buf).2.batches.length = buf.batches.length + 1 ∧
      (ImageBuffer.readBatch producer buf).2.bufferOffset = 0 := by
  obtain ⟨consumed, hserved⟩ := h.served
  obtain ⟨hserved', havailable, hcount⟩ :=
    @Served.readBatch producer size remaining multiple buf consumed hserved hremaining hempty
  have heq := hserved.readBatch_eq hremaining
  have hread : (ImageBuffer.readBatch producer buf).1 =
      !fails producer size remaining multiple buf.batches.length := by
    rw [heq, fails, Bool.not_not]
    rfl
  refine ⟨⟨⟨consumed, hserved'⟩, ?_, ?_⟩, hread, havailable, hcount, rfl⟩
  · intro j hj
    rw [hcount, heldSize_succ] at hj
    have hbuffer : (ImageBuffer.readBatch producer buf).2.buffer =
        (List.range (alignedSize size remaining multiple buf.batches.length)).map
            (producer buf.batches.length
              (alignedSize size remaining multiple buf.batches.length)).2 ++
          buf.buffer.drop (alignedSize size remaining multiple buf.batches.length) := by
      rw [heq]
      rfl
    rw [hcount, heldByte_succ, hbuffer]
    by_cases hnone : alignedSize size remaining multiple buf.batches.length = 0
    · rw [if_pos hnone] at hj ⊢
      rw [hnone, List.range_zero, List.map_nil, List.nil_append, List.drop_zero]
      exact h.held j hj
    · rw [if_neg hnone] at hj ⊢
      rw [List.getElem?_append_left (by simpa using hj), List.getElem?_map,
        List.getElem?_range hj, Option.map_some]
  · have hcurr : (ImageBuffer.readBatch producer buf).2.currSize =
        plannedSize size remaining buf.batches.length := by
      rw [heq]
      rfl
    rw [hcurr, hcount]
    exact plannedSize_le_heldSize hsize hmultiple _

end Reached

/-- The loop goes on behind a batch that was not enough, unless it was the last or failed. -/
def GoesOn (producer : Producer) (size remaining multiple count wanted : Nat) : Prop :=
  plannedSize size remaining count < wanted ∧
    ¬ (remaining ≠ bufferSizeUnset ∧ remaining ≤ (count + 1) * size) ∧
    fails producer size remaining multiple count = false

instance (producer : Producer) (size remaining multiple count wanted : Nat) :
    Decidable (GoesOn producer size remaining multiple count wanted) :=
  inferInstanceAs (Decidable (_ ∧ _ ∧ _))

/-- The state behind one pass of the loop. -/
def passed (producer : Producer) (buf : ImageBuffer) (wanted : Nat) : List UInt8 × ImageBuffer :=
  (readBatch producer buf).2.copyBuffer wanted

section Pass

variable (h : Reached producer size remaining multiple buf) (hsize : size < 2 ^ 64)
  (hmultiple : multiple < 2 ^ 64) (hremaining : remaining ≤ bufferSizeUnset)
  (hempty : buf.available = 0)

include h hsize hmultiple hremaining hempty

theorem passed_spec (wanted : Nat) :
    Reached producer size remaining multiple (passed producer buf wanted).2 ∧
      (passed producer buf wanted).1 =
        (List.range (min wanted (plannedSize size remaining buf.batches.length))).map
          (heldByte producer size remaining multiple (buf.batches.length + 1)) ∧
      (passed producer buf wanted).2.available = plannedSize size remaining buf.batches.length -
        min wanted (plannedSize size remaining buf.batches.length) ∧
      (passed producer buf wanted).2.batches.length = buf.batches.length + 1 ∧
      (passed producer buf wanted).2.bufferOffset =
        min wanted (plannedSize size remaining buf.batches.length) := by
  obtain ⟨hread, -, havailable, hcount, hoffset⟩ :=
    h.readBatch hsize hmultiple hremaining hempty
  obtain ⟨hcopied, hleft⟩ := hread.copyBuffer wanted
  refine ⟨hcopied, ?_, ?_, hcount, ?_⟩
  · rw [passed, hread.copyBuffer_fst, havailable, hcount, hoffset]
    simp only [Nat.zero_add]
  · rw [passed, hleft, havailable]
  · change (readBatch producer buf).2.bufferOffset +
      min wanted (readBatch producer buf).2.available = _
    rw [hoffset, havailable, Nat.zero_add]

theorem getDataLoop_succ (wanted fuel : Nat) (out : List UInt8) :
    getDataLoop producer (fuel + 1) buf wanted out true =
      if GoesOn producer size remaining multiple buf.batches.length wanted then
        getDataLoop producer fuel (passed producer buf wanted).2
          (wanted - plannedSize size remaining buf.batches.length)
          (out ++ (passed producer buf wanted).1) true
      else
        some (⟨decide (wanted ≤ plannedSize size remaining buf.batches.length) &&
            !fails producer size remaining multiple buf.batches.length,
          out ++ (passed producer buf wanted).1⟩, (passed producer buf wanted).2) := by
  obtain ⟨-, hflag, havailable, hcount, -⟩ := h.readBatch hsize hmultiple hremaining hempty
  obtain ⟨consumed, hserved⟩ := (passed_spec h hsize hmultiple hremaining hempty wanted).1.served
  have hbatches := (passed_spec h hsize hmultiple hremaining hempty wanted).2.2.2.1
  have hrest : (passed producer buf wanted).2.remainingSize = 0 ↔
      remaining ≠ bufferSizeUnset ∧ remaining ≤ (buf.batches.length + 1) * size := by
    have hpos : bufferSizeUnset ≠ 0 := by decide
    rw [hserved.remaining_eq, hbatches]
    split_ifs <;> omega
  obtain ⟨got, hgot⟩ : ∃ got, got = (true && (readBatch producer buf).1 &&
      !decide ((passed producer buf wanted).2.remainingSize = 0 ∧
        0 < wanted - min wanted (readBatch producer buf).2.available)) := ⟨_, rfl⟩
  have hstep : getDataLoop producer (fuel + 1) buf wanted out true =
      if 0 < wanted - min wanted (readBatch producer buf).2.available ∧ got = true then
        getDataLoop producer fuel (passed producer buf wanted).2
          (wanted - min wanted (readBatch producer buf).2.available)
          (out ++ (passed producer buf wanted).1) got
      else
        some (⟨got, out ++ (passed producer buf wanted).1⟩, (passed producer buf wanted).2) := by
    rw [hgot]
    rfl
  rw [hstep, havailable]
  rw [hflag, havailable] at hgot
  simp only [hrest, Bool.true_and] at hgot
  by_cases henough : wanted ≤ plannedSize size remaining buf.batches.length
  · have hsmall : ¬ GoesOn producer size remaining multiple buf.batches.length wanted :=
      fun hgoes => absurd hgoes.1 (Nat.not_lt.mpr henough)
    rw [Nat.min_eq_left henough, Nat.sub_self] at hgot ⊢
    rw [if_neg (fun hmore => absurd hmore.1 (Nat.lt_irrefl 0)), if_neg hsmall, hgot,
      decide_eq_true henough, decide_eq_false (fun hmore => absurd hmore.2 (Nat.lt_irrefl 0))]
    rw [Bool.not_false, Bool.and_true, Bool.true_and]
  · have hmin : min wanted (plannedSize size remaining buf.batches.length) =
        plannedSize size remaining buf.batches.length := Nat.min_eq_right (by omega)
    have hmore : 0 < wanted - plannedSize size remaining buf.batches.length := by omega
    rw [hmin] at hgot ⊢
    by_cases hgoes : GoesOn producer size remaining multiple buf.batches.length wanted
    · obtain ⟨-, hlast, hgood⟩ := id hgoes
      have htrue : got = true := by
        rw [hgot, hgood, decide_eq_false (fun hstop => hlast hstop.1)]
        rfl
      rw [htrue, if_pos ⟨hmore, rfl⟩, if_pos hgoes]
    · have hfalse : got = false := by
        by_contra htrue
        rw [Bool.not_eq_false, hgot, Bool.and_eq_true, Bool.not_eq_true', Bool.not_eq_true',
          decide_eq_false_iff_not] at htrue
        exact hgoes ⟨by omega, fun hlast => htrue.2 ⟨hlast, hmore⟩, htrue.1⟩
      rw [hfalse, if_neg (fun hstop => Bool.false_ne_true hstop.2), if_neg hgoes,
        decide_eq_false henough, Bool.false_and]

/-- The loop ends where a batch fails. -/
theorem getDataLoop_of_fails {k : Nat}
    (hfails : fails producer size remaining multiple (buf.batches.length + k) = true)
    (wanted : Nat) (out : List UInt8) :
    ∃ result, getDataLoop producer (k + 1) buf wanted out true = some result := by
  induction k generalizing buf wanted out with
  | zero =>
      rw [getDataLoop_succ h hsize hmultiple hremaining hempty, if_neg]
      · exact ⟨_, rfl⟩
      · intro hgoes
        have hgood := hgoes.2.2
        rw [← Nat.add_zero buf.batches.length, hfails] at hgood
        cases hgood
  | succ k ih =>
      rw [getDataLoop_succ h hsize hmultiple hremaining hempty]
      split_ifs with hgoes
      · obtain ⟨hreached, -, havailable, hcount, -⟩ :=
          passed_spec h hsize hmultiple hremaining hempty wanted
        refine ih hreached ?_ ?_ _ _
        · rw [havailable, Nat.min_eq_right (Nat.le_of_lt hgoes.1), Nat.sub_self]
        · rw [hcount, Nat.add_assoc, Nat.add_comm 1 k]
          exact hfails
      · exact ⟨_, rfl⟩

/-- The loop ends when its batches are not empty. -/
theorem getDataLoop_of_pos (hpos : 0 < size) (hwanted : 0 < wanted) (hfuel : wanted ≤ fuel)
    (out : List UInt8) : ∃ result, getDataLoop producer fuel buf wanted out true = some result := by
  induction fuel generalizing buf wanted out with
  | zero => omega
  | succ fuel ih =>
      rw [getDataLoop_succ h hsize hmultiple hremaining hempty]
      split_ifs with hgoes
      · obtain ⟨hreached, -, havailable, -, -⟩ :=
          passed_spec h hsize hmultiple hremaining hempty wanted
        have hfull : plannedSize size remaining buf.batches.length = size :=
          plannedSize_of_more hgoes.2.1
        have hless := hgoes.1
        refine ih hreached ?_ (by omega) (by omega) _
        rw [havailable, Nat.min_eq_right (Nat.le_of_lt hgoes.1), Nat.sub_self]
      · exact ⟨_, rfl⟩

/-- What it takes to serve a request behind one batch that was not enough. -/
theorem canServe_succ (hgoes : GoesOn producer size remaining multiple buf.batches.length wanted) :
    CanServe producer size remaining multiple buf wanted ↔
      CanServe producer size remaining multiple (passed producer buf wanted).2
        (wanted - plannedSize size remaining buf.batches.length) := by
  obtain ⟨hless, hlast, hgood⟩ := hgoes
  obtain ⟨hreached, -, havailable, hcount, -⟩ :=
    passed_spec h hsize hmultiple hremaining hempty wanted
  obtain ⟨consumed, hserved⟩ := h.served
  obtain ⟨consumed', hserved'⟩ := hreached.served
  have hfull : plannedSize size remaining buf.batches.length = size := plannedSize_of_more hlast
  rw [Nat.min_eq_right (Nat.le_of_lt hless), Nat.sub_self] at havailable
  unfold CanServe
  rw [hempty, havailable, hcount, hserved.remaining_eq, hserved'.remaining_eq, hcount, hfull,
    Nat.sub_zero, Nat.sub_zero]
  rw [Nat.succ_mul] at hlast ⊢
  have hrest : ((if remaining = bufferSizeUnset then remaining
        else remaining - buf.batches.length * size) ≠ bufferSizeUnset →
      wanted ≤ if remaining = bufferSizeUnset then remaining
        else remaining - buf.batches.length * size) ↔
      ((if remaining = bufferSizeUnset then remaining
        else remaining - (buf.batches.length * size + size)) ≠ bufferSizeUnset →
      wanted - size ≤ if remaining = bufferSizeUnset then remaining
        else remaining - (buf.batches.length * size + size)) := by
    split_ifs <;> omega
  refine and_congr hrest ?_
  constructor
  · intro hall i hi
    rw [Nat.add_assoc, Nat.add_comm 1 i]
    exact hall (i + 1) (by rw [Nat.succ_mul]; omega)
  · intro hall i hi
    cases i with
    | zero => exact hgood
    | succ i =>
        rw [Nat.succ_mul] at hi
        have hrec := hall i (by omega)
        rwa [Nat.add_assoc, Nat.add_comm 1 i] at hrec

omit hsize hmultiple in
/-- Where the loop does not go on, the batch has to be enough. -/
theorem canServe_last (hwanted : 0 < wanted)
    (hstop : ¬ GoesOn producer size remaining multiple buf.batches.length wanted) :
    CanServe producer size remaining multiple buf wanted ↔
      wanted ≤ plannedSize size remaining buf.batches.length ∧
        fails producer size remaining multiple buf.batches.length = false := by
  obtain ⟨consumed, hserved⟩ := h.served
  have hplanned := @plannedSize_le size remaining buf.batches.length
  unfold CanServe
  rw [hempty, Nat.sub_zero, hserved.remaining_eq]
  constructor
  · rintro ⟨hrest, hall⟩
    have hgood := hall 0 (by rw [Nat.zero_mul]; exact hwanted)
    rw [Nat.add_zero] at hgood
    refine ⟨?_, hgood⟩
    by_contra hmore
    have hlast : remaining ≠ bufferSizeUnset ∧ remaining ≤ (buf.batches.length + 1) * size := by
      by_contra hlast
      exact hstop ⟨by omega, hlast, hgood⟩
    rw [Nat.succ_mul] at hlast
    rw [plannedSize, if_neg hlast.1] at hmore
    rw [if_neg hlast.1] at hrest
    omega
  · rintro ⟨henough, hgood⟩
    refine ⟨?_, ?_⟩
    · unfold plannedSize at henough
      split_ifs at henough ⊢ <;> omega
    · intro i hi
      cases i with
      | zero => exact hgood
      | succ i =>
          rw [Nat.succ_mul] at hi
          omega

/-- What the loop returns. -/
theorem getDataLoop_spec (hwanted : 0 < wanted)
    (hrun : getDataLoop producer fuel buf wanted out true = some (answer, buf')) :
    Reached producer size remaining multiple buf' ∧
      (answer.gotData = true ↔ CanServe producer size remaining multiple buf wanted) ∧
      (answer.gotData = true → ∀ i, buf.batches.length ≤ i → i < buf'.batches.length →
        fails producer size remaining multiple i = false) ∧
      ∃ rest, answer.out = out ++
        (List.range (min wanted (plannedSize size remaining buf.batches.length))).map
          (heldByte producer size remaining multiple (buf.batches.length + 1)) ++ rest := by
  induction fuel generalizing buf wanted out with
  | zero => cases hrun
  | succ fuel ih =>
      obtain ⟨hreached, hcopied, havailable, hcount, -⟩ :=
        passed_spec h hsize hmultiple hremaining hempty wanted
      rw [getDataLoop_succ h hsize hmultiple hremaining hempty] at hrun
      by_cases hgoes : GoesOn producer size remaining multiple buf.batches.length wanted
      · rw [if_pos hgoes] at hrun
        have hless := hgoes.1
        rw [Nat.min_eq_right (Nat.le_of_lt hless), Nat.sub_self] at havailable
        obtain ⟨hend, hserve, hgood, rest, hout⟩ := ih hreached havailable (by omega) hrun
        refine ⟨hend, ?_, ?_, ?_⟩
        · rw [hserve, canServe_succ h hsize hmultiple hremaining hempty hgoes]
        · intro hgot i hle hlt
          by_cases hfirst : i = buf.batches.length
          · rw [hfirst]
            exact hgoes.2.2
          · exact hgood hgot i (by omega) hlt
        · rw [hcopied, List.append_assoc] at hout
          exact ⟨_, hout⟩
      · rw [if_neg hgoes] at hrun
        cases hrun
        refine ⟨hreached, ?_, ?_, [], ?_⟩
        · rw [canServe_last h hremaining hempty hwanted hgoes, Bool.and_eq_true,
            decide_eq_true_iff, Bool.not_eq_true']
        · intro hgot i hle hlt
          rw [hcount] at hlt
          rw [Bool.and_eq_true, Bool.not_eq_true'] at hgot
          rw [show i = buf.batches.length by omega]
          exact hgot.2
        · rw [hcopied, List.append_nil]

end Pass

/-! ## One call -/

theorem getDataWithin_eq (producer : Producer) (fuel : Nat) (buf : ImageBuffer) (wanted : Nat) :
    getDataWithin producer fuel buf wanted =
      if wanted ≤ buf.available then
        some (⟨true, (buf.copyBuffer wanted).1⟩, (buf.copyBuffer wanted).2)
      else
        getDataLoop producer fuel (buf.copyBuffer wanted).2 (wanted - buf.available)
          (buf.copyBuffer wanted).1 true := by
  have hcopy : (if 0 < buf.available then buf.copyBuffer wanted else ([], buf)) =
      buf.copyBuffer wanted := by
    split_ifs with havailable
    · rfl
    · rw [copyBuffer_of_empty (by omega)]
  rw [getDataWithin, hcopy]
  by_cases henough : wanted ≤ buf.available
  · rw [Nat.min_eq_left henough, Nat.sub_self, if_pos rfl, if_pos henough]
  · rw [Nat.min_eq_right (by omega), if_neg (by omega), if_neg henough]

section Call

variable (h : Reached producer size remaining multiple buf)

include h

theorem copyBuffer_available (hmore : ¬ wanted ≤ buf.available) :
    (buf.copyBuffer wanted).2.available = 0 := by
  rw [(h.copyBuffer wanted).2]
  omega

theorem canServe_copyBuffer (hmore : ¬ wanted ≤ buf.available) :
    CanServe producer size remaining multiple (buf.copyBuffer wanted).2 (wanted - buf.available) ↔
      CanServe producer size remaining multiple buf wanted := by
  unfold CanServe
  rw [copyBuffer_available h hmore, Nat.sub_zero]
  rfl

/-- The first byte of an answer is the next one that is available, or else the first one of the
next batch. -/
theorem getDataWithin_spec (hsize : size < 2 ^ 64) (hmultiple : multiple < 2 ^ 64)
    (hremaining : remaining ≤ bufferSizeUnset)
    (hrun : getDataWithin producer fuel buf wanted = some (answer, buf')) :
    Reached producer size remaining multiple buf' ∧
      (answer.gotData = true ↔ CanServe producer size remaining multiple buf wanted) ∧
      (answer.gotData = true → ∀ i, buf.batches.length ≤ i → i < buf'.batches.length →
        fails producer size remaining multiple i = false) ∧
      (0 < wanted → 0 < buf.available → answer.out[0]? =
        some (heldByte producer size remaining multiple buf.batches.length buf.bufferOffset)) ∧
      (0 < wanted → buf.available = 0 → 0 < plannedSize size remaining buf.batches.length →
        answer.out[0]? =
          some (heldByte producer size remaining multiple (buf.batches.length + 1) 0)) := by
  have hcopied := h.copyBuffer_fst wanted
  rw [getDataWithin_eq] at hrun
  by_cases henough : wanted ≤ buf.available
  · rw [if_pos henough] at hrun
    cases hrun
    refine ⟨(h.copyBuffer wanted).1, iff_of_true rfl ⟨?_, ?_⟩, ?_, ?_, ?_⟩
    · omega
    · intro i hi
      omega
    · intro _ i hle hlt
      exact absurd hle (Nat.not_le.mpr hlt)
    · intro hwanted havailable
      rw [hcopied, List.getElem?_map, List.getElem?_range (by omega)]
      rfl
    · intro hwanted hempty
      omega
  · rw [if_neg henough] at hrun
    obtain ⟨hend, hserve, hgood, rest, hout⟩ :=
      getDataLoop_spec (h.copyBuffer wanted).1 hsize hmultiple hremaining
        (copyBuffer_available h henough) (by omega) hrun
    refine ⟨hend, hserve.trans (canServe_copyBuffer h henough), hgood, ?_, ?_⟩
    · intro hwanted havailable
      rw [hout, List.append_assoc, List.getElem?_append_left, hcopied, List.getElem?_map,
        List.getElem?_range (by omega)]
      · rfl
      · rw [hcopied, List.length_map, List.length_range]
        omega
    · intro hwanted hempty hplanned
      have hnothing : (buf.copyBuffer wanted).1 = [] := by rw [copyBuffer_of_empty hempty]
      have hcount : (buf.copyBuffer wanted).2.batches.length = buf.batches.length := rfl
      rw [hout, hnothing, List.nil_append, hcount, List.getElem?_append_left, List.getElem?_map,
        List.getElem?_range (by omega)]
      · rfl
      · rw [List.length_map, List.length_range]
        omega

/-- A call returns if a batch fails some time. -/
theorem getDataWithin_of_fails (hsize : size < 2 ^ 64) (hmultiple : multiple < 2 ^ 64)
    (hremaining : remaining ≤ bufferSizeUnset) {k : Nat}
    (hfails : fails producer size remaining multiple (buf.batches.length + k) = true)
    (wanted : Nat) : ∃ result, getDataWithin producer (k + 1) buf wanted = some result := by
  rw [getDataWithin_eq]
  split_ifs with henough
  · exact ⟨_, rfl⟩
  · exact getDataLoop_of_fails (h.copyBuffer wanted).1 hsize hmultiple hremaining
      (copyBuffer_available h henough) hfails _ _

/-- A call returns if batches are not empty. -/
theorem getDataWithin_of_pos (hsize : size < 2 ^ 64) (hmultiple : multiple < 2 ^ 64)
    (hremaining : remaining ≤ bufferSizeUnset) (hpos : 0 < size) (hfuel : wanted ≤ fuel) :
    ∃ result, getDataWithin producer fuel buf wanted = some result := by
  rw [getDataWithin_eq]
  split_ifs with henough
  · exact ⟨_, rfl⟩
  · exact getDataLoop_of_pos (h.copyBuffer wanted).1 hsize hmultiple hremaining
      (copyBuffer_available h henough) hpos (by omega) (by omega) _

end Call

/-! ## Two producers -/

/-- The two buffers are in the same state but for what failed batches have left there. -/
structure Twin (producer producer' : Producer) (size remaining multiple : Nat)
    (buf buf' : ImageBuffer) : Prop where
  left : Reached producer size remaining multiple buf
  right : Reached producer' size remaining multiple buf'
  count : buf'.batches.length = buf.batches.length
  currSize : buf'.currSize = buf.currSize
  offset : buf'.bufferOffset = buf.bufferOffset

theorem twin_new : Twin producer producer' size remaining multiple
    (newBuffer size remaining multiple) (newBuffer size remaining multiple) :=
  ⟨reached_new, reached_new, rfl, rfl, rfl⟩

namespace Twin

theorem available (h : Twin producer producer' size remaining multiple buf buf') :
    buf'.available = buf.available := by
  rw [ImageBuffer.available, ImageBuffer.available, h.currSize, h.offset]

theorem copyBuffer (h : Twin producer producer' size remaining multiple buf buf') (wanted : Nat) :
    Twin producer producer' size remaining multiple (buf.copyBuffer wanted).2
      (buf'.copyBuffer wanted).2 where
  left := (h.left.copyBuffer wanted).1
  right := (h.right.copyBuffer wanted).1
  count := h.count
  currSize := h.currSize
  offset := by
    change buf'.bufferOffset + min wanted buf'.available =
      buf.bufferOffset + min wanted buf.available
    rw [h.available, h.offset]

theorem copyBuffer_fst (h : Twin producer producer' size remaining multiple buf buf')
    (hagree : AgreeOnData producer producer')
    (hgood : holdsFailed producer size remaining multiple buf.batches.length = false)
    (wanted : Nat) : (buf'.copyBuffer wanted).1 = (buf.copyBuffer wanted).1 := by
  rw [h.left.copyBuffer_fst, h.right.copyBuffer_fst, h.available, h.offset, h.count,
    heldByte_congr hagree hgood]

end Twin

section Pass

variable (hsize : size < 2 ^ 64) (hmultiple : multiple < 2 ^ 64)
  (hremaining : remaining ≤ bufferSizeUnset)

include hsize hmultiple hremaining

theorem Twin.passed (h : Twin producer producer' size remaining multiple buf buf')
    (hempty : buf.available = 0) (wanted : Nat) :
    Twin producer producer' size remaining multiple (passed producer buf wanted).2
      (passed producer' buf' wanted).2 := by
  have hempty' := h.available.trans hempty
  obtain ⟨hleft, -, -, hcount, hoffset⟩ :=
    passed_spec h.left hsize hmultiple hremaining hempty wanted
  obtain ⟨hright, -, -, hcount', hoffset'⟩ :=
    passed_spec h.right hsize hmultiple hremaining hempty' wanted
  obtain ⟨consumed, hserved⟩ := h.left.served
  obtain ⟨consumed', hserved'⟩ := h.right.served
  refine ⟨hleft, hright, ?_, ?_, ?_⟩
  · rw [hcount, hcount', h.count]
  · change (readBatch producer' buf').2.currSize = (readBatch producer buf).2.currSize
    rw [hserved.readBatch_eq hremaining, hserved'.readBatch_eq hremaining, h.count]
    rfl
  · rw [hoffset, hoffset', h.count]

theorem getDataLoop_twin (hagree : AgreeOnData producer producer')
    (h : Twin producer producer' size remaining multiple buf buf') (hempty : buf.available = 0)
    {out' : List UInt8} {last : ImageBuffer}
    (hrun : getDataLoop producer fuel buf wanted out true = some (answer, last)) :
    ∃ answer' last', getDataLoop producer' fuel buf' wanted out' true = some (answer', last') ∧
      Twin producer producer' size remaining multiple last last' ∧
      answer'.gotData = answer.gotData ∧
      (answer.gotData = true → out' = out →
        holdsFailed producer size remaining multiple buf.batches.length = false ∨
          alignedSize size remaining multiple buf.batches.length ≠ 0 →
        answer'.out = answer.out) := by
  induction fuel generalizing buf buf' wanted out out' with
  | zero => cases hrun
  | succ fuel ih =>
      have hempty' := h.available.trans hempty
      have htwin := h.passed hsize hmultiple hremaining hempty wanted
      obtain ⟨-, hcopied, havailable, hcount, -⟩ :=
        passed_spec h.left hsize hmultiple hremaining hempty wanted
      obtain ⟨-, hcopied', -, -, -⟩ :=
        passed_spec h.right hsize hmultiple hremaining hempty' wanted
      -- the batch that was got covers what was in the buffer, if it is not asked for with size 0
      have hheld : fails producer size remaining multiple buf.batches.length = false →
          holdsFailed producer size remaining multiple buf.batches.length = false ∨
            alignedSize size remaining multiple buf.batches.length ≠ 0 →
          holdsFailed producer size remaining multiple (buf.batches.length + 1) = false := by
        intro hgood hclean
        rw [holdsFailed_succ]
        split_ifs with hnone
        · exact hclean.resolve_right fun hsome => hsome hnone
        · exact hgood
      have hsame : holdsFailed producer size remaining multiple (buf.batches.length + 1) = false →
          (ImageBuffer.passed producer' buf' wanted).1 =
            (ImageBuffer.passed producer buf wanted).1 := by
        intro hgood
        rw [hcopied, hcopied', h.count, heldByte_congr hagree hgood]
      rw [getDataLoop_succ h.left hsize hmultiple hremaining hempty] at hrun
      rw [getDataLoop_succ h.right hsize hmultiple hremaining hempty', h.count]
      have hgoesIff : GoesOn producer' size remaining multiple buf.batches.length wanted ↔
          GoesOn producer size remaining multiple buf.batches.length wanted := by
        unfold GoesOn
        rw [fails_congr hagree]
      by_cases hgoes : GoesOn producer size remaining multiple buf.batches.length wanted
      · rw [if_pos hgoes] at hrun
        rw [if_pos (hgoesIff.mpr hgoes)]
        rw [Nat.min_eq_right (Nat.le_of_lt hgoes.1), Nat.sub_self] at havailable
        obtain ⟨answer', last', hrun', hend, hflag, hout⟩ := ih htwin havailable hrun
        refine ⟨answer', last', hrun', hend, hflag, fun hgot heq hclean => ?_⟩
        have hgood := hheld hgoes.2.2 hclean
        exact hout hgot (by rw [heq, hsame hgood]) (.inl (hcount ▸ hgood))
      · rw [if_neg hgoes] at hrun
        rw [if_neg (mt hgoesIff.mp hgoes), fails_congr hagree]
        cases hrun
        refine ⟨_, _, rfl, htwin, rfl, fun hgot heq hclean => ?_⟩
        rw [Bool.and_eq_true, Bool.not_eq_true'] at hgot
        rw [heq, hsame (hheld hgot.2 hclean)]

/-- A call does the same with both producers, except that what it stores may differ when it
returns false or begins with what a failed batch has left. -/
theorem getDataWithin_twin (hagree : AgreeOnData producer producer')
    (h : Twin producer producer' size remaining multiple buf buf') {last : ImageBuffer}
    (hrun : getDataWithin producer fuel buf wanted = some (answer, last)) :
    ∃ answer' last', getDataWithin producer' fuel buf' wanted = some (answer', last') ∧
      Twin producer producer' size remaining multiple last last' ∧
      answer'.gotData = answer.gotData ∧
      (answer.gotData = true → ¬ Spoils producer size remaining multiple buf wanted →
        answer'.out = answer.out) := by
  have hserve := (getDataWithin_spec h.left hsize hmultiple hremaining hrun).2.1
  rw [getDataWithin_eq] at hrun
  rw [getDataWithin_eq, h.available]
  have hclean : answer.gotData = true → ¬ Spoils producer size remaining multiple buf wanted →
      0 < wanted → holdsFailed producer size remaining multiple buf.batches.length = false ∨
        buf.available = 0 ∧ alignedSize size remaining multiple buf.batches.length ≠ 0 := by
    intro hgot hspoils hwanted
    by_contra hheld
    rw [not_or, Bool.not_eq_false] at hheld
    refine hspoils ⟨hwanted, hheld.1, ?_, hserve.mp hgot⟩
    by_contra hnext
    exact hheld.2 ⟨by omega, fun hnone => hnext (.inr hnone)⟩
  by_cases henough : wanted ≤ buf.available
  · rw [if_pos henough] at hrun ⊢
    cases hrun
    refine ⟨_, _, rfl, h.copyBuffer wanted, rfl, fun hgot hspoils => ?_⟩
    by_cases hwanted : 0 < wanted
    · have hgood := (hclean hgot hspoils hwanted).resolve_right fun hempty => by omega
      exact h.copyBuffer_fst hagree hgood wanted
    · have hnone : wanted = 0 := by omega
      rw [hnone]
      rfl
  · rw [if_neg henough] at hrun ⊢
    have hempty := copyBuffer_available h.left henough
    obtain ⟨answer', last', hrun', hend, hflag, hout⟩ :=
      getDataLoop_twin hsize hmultiple hremaining hagree (h.copyBuffer wanted) hempty hrun
    refine ⟨answer', last', hrun', hend, hflag, fun hgot hspoils => ?_⟩
    cases hclean hgot hspoils (by omega) with
    | inl hgood => exact hout hgot (h.copyBuffer_fst hagree hgood wanted) (.inl hgood)
    | inr hnext =>
        refine hout hgot ?_ (.inr hnext.2)
        rw [copyBuffer_of_empty hnext.1, copyBuffer_of_empty (h.available.trans hnext.1)]

end Pass

/-! ## All calls -/

theorem getDataAllWithin_cons {sizes : List Nat} {answers : List Answer} :
    getDataAllWithin producer fuel buf (wanted :: sizes) = some (answers, buf') ↔
      ∃ answer next rest, getDataWithin producer fuel buf wanted = some (answer, next) ∧
        getDataAllWithin producer fuel next sizes = some (rest, buf') ∧
        answers = answer :: rest := by
  constructor
  · intro hrun
    rw [getDataAllWithin, Option.bind_eq_bind, Option.bind_eq_some_iff] at hrun
    obtain ⟨⟨answer, next⟩, hcall, hrun⟩ := hrun
    dsimp only at hrun
    rw [Option.bind_eq_bind, Option.bind_eq_some_iff] at hrun
    obtain ⟨⟨rest, last⟩, hrest, hrun⟩ := hrun
    cases hrun
    exact ⟨answer, next, rest, hcall, hrest, rfl⟩
  · rintro ⟨answer, next, rest, hcall, hrest, hanswers⟩
    rw [getDataAllWithin, hcall, Option.bind_eq_bind, Option.bind_some]
    dsimp only
    rw [hrest, hanswers]
    rfl

/-- More passes change nothing for a loop that ends. -/
theorem getDataLoop_mono {fuel' : Nat} (hle : fuel ≤ fuel') {got : Bool}
    {result : Answer × ImageBuffer}
    (hrun : getDataLoop producer fuel buf wanted out got = some result) :
    getDataLoop producer fuel' buf wanted out got = some result := by
  induction fuel generalizing fuel' buf wanted out got with
  | zero => cases hrun
  | succ fuel ih =>
      obtain ⟨fuel', rfl⟩ := Nat.exists_eq_succ_of_ne_zero (show fuel' ≠ 0 by omega)
      rw [getDataLoop] at hrun ⊢
      split_ifs at hrun ⊢
      · exact ih (by omega) hrun
      · exact hrun

theorem getDataWithin_mono {fuel' : Nat} (hle : fuel ≤ fuel') {result : Answer × ImageBuffer}
    (hrun : getDataWithin producer fuel buf wanted = some result) :
    getDataWithin producer fuel' buf wanted = some result := by
  rw [getDataWithin_eq] at hrun ⊢
  split_ifs at hrun ⊢
  · exact hrun
  · exact getDataLoop_mono hle hrun

theorem getDataAllWithin_mono {fuel' : Nat} (hle : fuel ≤ fuel') {sizes : List Nat}
    {answers : List Answer}
    (hrun : getDataAllWithin producer fuel buf sizes = some (answers, buf')) :
    getDataAllWithin producer fuel' buf sizes = some (answers, buf') := by
  induction sizes generalizing buf answers with
  | nil => exact hrun
  | cons wanted sizes ih =>
      obtain ⟨answer, next, rest, hcall, hrest, rfl⟩ := getDataAllWithin_cons.mp hrun
      exact getDataAllWithin_cons.mpr
        ⟨answer, next, rest, getDataWithin_mono hle hcall, ih hrest, rfl⟩

section Runs

variable (hsize : size < 2 ^ 64) (hmultiple : multiple < 2 ^ 64)
  (hremaining : remaining ≤ bufferSizeUnset)

include hsize hmultiple hremaining

theorem getDataAllWithin_reached {sizes : List Nat} {answers : List Answer}
    (h : Reached producer size remaining multiple buf)
    (hrun : getDataAllWithin producer fuel buf sizes = some (answers, buf')) :
    Reached producer size remaining multiple buf' := by
  induction sizes generalizing buf answers with
  | nil =>
      cases hrun
      exact h
  | cons wanted sizes ih =>
      obtain ⟨answer, next, rest, hcall, hrest, -⟩ := getDataAllWithin_cons.mp hrun
      exact ih (getDataWithin_spec h hsize hmultiple hremaining hcall).1 hrest

theorem getDataAllWithin_of_pos (hpos : 0 < size) {sizes : List Nat}
    (h : Reached producer size remaining multiple buf) (hfuel : sizes.sum ≤ fuel) :
    ∃ answers last, getDataAllWithin producer fuel buf sizes = some (answers, last) := by
  induction sizes generalizing buf with
  | nil => exact ⟨_, _, rfl⟩
  | cons wanted sizes ih =>
      rw [List.sum_cons] at hfuel
      have hwanted : wanted ≤ fuel := by omega
      obtain ⟨⟨answer, next⟩, hcall⟩ :=
        getDataWithin_of_pos h hsize hmultiple hremaining hpos hwanted
      obtain ⟨answers, last, hrest⟩ :=
        ih (getDataWithin_spec h hsize hmultiple hremaining hcall).1 (by omega)
      exact ⟨_, _, getDataAllWithin_cons.mpr ⟨answer, next, answers, hcall, hrest, rfl⟩⟩

/-- Without a call that begins with failed bytes the answers do not depend on them. -/
theorem getDataAllWithin_twin (hagree : AgreeOnData producer producer') {sizes : List Nat}
    {answers : List Answer} {last : ImageBuffer}
    (h : Twin producer producer' size remaining multiple buf buf')
    (hclean : ∀ before wanted after, sizes = before ++ wanted :: after → ∀ answers next,
      getDataAllWithin producer fuel buf before = some (answers, next) →
      ¬ Spoils producer size remaining multiple next wanted)
    (hrun : getDataAllWithin producer fuel buf sizes = some (answers, last)) :
    ∃ answers' last', getDataAllWithin producer' fuel buf' sizes = some (answers', last') ∧
      List.Forall₂ (fun answer answer' => answer'.gotData = answer.gotData ∧
        (answer.gotData = true → answer'.out = answer.out)) answers answers' := by
  induction sizes generalizing buf buf' answers with
  | nil =>
      cases hrun
      exact ⟨[], buf', rfl, .nil⟩
  | cons wanted sizes ih =>
      obtain ⟨answer, next, rest, hcall, hrest, rfl⟩ := getDataAllWithin_cons.mp hrun
      obtain ⟨answer', next', hcall', htwin, hflag, hout⟩ :=
        getDataWithin_twin hsize hmultiple hremaining hagree h hcall
      have hhere := hclean [] wanted sizes rfl [] buf rfl
      obtain ⟨rest', last', hrest', hall⟩ := ih htwin
        (fun before wanted' after heq answers next' hbefore =>
          hclean (wanted :: before) wanted' after (by rw [heq]; rfl) (answer :: answers) next'
            (getDataAllWithin_cons.mpr ⟨answer, next, answers, hcall, hbefore, rfl⟩)) hrest
      refine ⟨answer' :: rest', last', ?_, .cons ⟨hflag, fun hgot => hout hgot hhere⟩ hall⟩
      exact getDataAllWithin_cons.mpr ⟨answer', next', rest', hcall', hrest', rfl⟩

omit hremaining in
/-- Batches of no bytes leave nothing behind. -/
theorem pos_of_holdsFailed {count : Nat}
    (hfailed : holdsFailed producer size remaining multiple count = true) : 0 < size := by
  by_contra hzero
  have hnone : ∀ i, alignedSize size remaining multiple i = 0 := by
    intro i
    have hplanned : plannedSize size remaining i = 0 := by
      have hle : plannedSize size remaining i ≤ size := plannedSize_le i
      omega
    unfold alignedSize
    rw [hplanned]
    split_ifs
    · by_cases hmultiple' : multiple = 0
      · rw [hmultiple']
        exact roundUp_zero 0 (by decide)
      · rw [roundUp_eq (by decide) hmultiple (by omega), Nat.mod_eq_of_lt (by omega),
          Nat.div_eq_of_lt (by omega), Nat.zero_mul]
    · rfl
  induction count with
  | zero => cases hfailed
  | succ i ih =>
      rw [holdsFailed_succ, if_pos (hnone i)] at hfailed
      exact ih hfailed

/-- The first byte of an answer that begins with failed bytes is one of them. -/
theorem spoiled_ne (h : Twin producer producer.altered size remaining multiple buf buf')
    (hspoils : Spoils producer size remaining multiple buf wanted) {next next' : ImageBuffer}
    {answer' : Answer} (hrun : getDataWithin producer fuel buf wanted = some (answer, next))
    (hrun' : getDataWithin producer.altered fuel buf' wanted = some (answer', next')) :
    answer.gotData = true ∧ answer'.out ≠ answer.out := by
  obtain ⟨hwanted, hfailed, hplace, hserve⟩ := hspoils
  obtain ⟨-, hgot, -, havailable, hnext⟩ :=
    getDataWithin_spec h.left hsize hmultiple hremaining hrun
  obtain ⟨-, -, -, havailable', hnext'⟩ :=
    getDataWithin_spec h.right hsize hmultiple hremaining hrun'
  refine ⟨hgot.mpr hserve, fun heq => ?_⟩
  rw [h.available, h.count, h.offset, heq] at havailable'
  rw [h.available, h.count, heq] at hnext'
  by_cases hsome : 0 < buf.available
  · have hbytes := (havailable' hwanted hsome).symm.trans (havailable hwanted hsome)
    exact heldByte_altered hfailed _ (Option.some.inj hbytes)
  · have hempty : buf.available = 0 := by omega
    have hnone := hplace.resolve_left hsome
    have hpos := pos_of_holdsFailed hsize hmultiple hfailed
    have hplanned : 0 < plannedSize size remaining buf.batches.length := by
      obtain ⟨consumed, hserved⟩ := h.left.served
      have hrest := hserve.1
      rw [hserved.remaining_eq, hempty] at hrest
      unfold plannedSize
      split_ifs at hrest ⊢ <;> omega
    have hbytes := (hnext' hwanted hempty hplanned).symm.trans (hnext hwanted hempty hplanned)
    have hfailed' :
        holdsFailed producer size remaining multiple (buf.batches.length + 1) = true := by
      rw [holdsFailed_succ, if_pos hnone, hfailed]
    exact heldByte_altered hfailed' _ (Option.some.inj hbytes)

theorem getDataAllWithin_spoiled {before after : List Nat}
    {answers answers' answersBefore : List Answer} {next last last' : ImageBuffer}
    (h : Twin producer producer.altered size remaining multiple buf buf')
    (hbefore : getDataAllWithin producer fuel buf before = some (answersBefore, next))
    (hspoils : Spoils producer size remaining multiple next wanted)
    (hrun : getDataAllWithin producer fuel buf (before ++ wanted :: after) = some (answers, last))
    (hrun' : getDataAllWithin producer.altered fuel buf' (before ++ wanted :: after) =
      some (answers', last')) :
    ¬ List.Forall₂ (fun answer answer' => answer'.gotData = answer.gotData ∧
        (answer.gotData = true → answer'.out = answer.out)) answers answers' := by
  intro hall
  induction before generalizing buf buf' answers answers' answersBefore with
  | nil =>
      cases hbefore
      obtain ⟨answer, next, rest, hcall, -, rfl⟩ := getDataAllWithin_cons.mp hrun
      obtain ⟨answer', next', rest', hcall', -, rfl⟩ := getDataAllWithin_cons.mp hrun'
      obtain ⟨hgot, hne⟩ := spoiled_ne hsize hmultiple hremaining h hspoils hcall hcall'
      cases hall with
      | cons hhere _ => exact hne (hhere.2 hgot)
  | cons size₀ before ih =>
      obtain ⟨answer, next₀, rest, hcall, hrest, rfl⟩ := getDataAllWithin_cons.mp hrun
      obtain ⟨answer', next', rest', hcall', hrest', rfl⟩ := getDataAllWithin_cons.mp hrun'
      obtain ⟨answer₁, next₁, rest₁, hcall₁, hrest₁, -⟩ := getDataAllWithin_cons.mp hbefore
      obtain ⟨answer₂, next₂, hcall₂, htwin, -⟩ := getDataWithin_twin hsize hmultiple hremaining
        (agreeOnData_altered producer) h hcall
      rw [hcall] at hcall₁
      rw [hcall'] at hcall₂
      cases hcall₁
      cases hcall₂
      cases hall with
      | cons _ htail => exact ih htwin hrest₁ hrest hrest' htail

end Runs

end ImageBuffer

/-! ## What is withheld -/

open ImageBuffer

theorem contained_reported {producer : Producer} {size remaining multiple : Nat}
    (hsize : size < 2 ^ 64) (hmultiple : multiple < 2 ^ 64)
    (hremaining : remaining ≤ bufferSizeUnset) {buf : ImageBuffer}
    (h : Reached producer size remaining multiple buf) (wanted : Nat) :
    (∃ fuel answer buf', getDataWithin producer fuel buf wanted = some (answer, buf') ∧
      (answer.gotData = true → ∀ i, buf.batches.length ≤ i → i < buf'.batches.length →
        fails producer size remaining multiple i = false)) ∨
    ∀ i, buf.batches.length ≤ i → fails producer size remaining multiple i = false := by
  by_cases hfails : ∃ i, buf.batches.length ≤ i ∧ fails producer size remaining multiple i = true
  · obtain ⟨i, hle, hfails⟩ := hfails
    obtain ⟨k, rfl⟩ := Nat.exists_eq_add_of_le hle
    obtain ⟨⟨answer, buf'⟩, hcall⟩ :=
      getDataWithin_of_fails h hsize hmultiple hremaining hfails wanted
    have hgood := (getDataWithin_spec h hsize hmultiple hremaining hcall).2.2.1
    exact .inl ⟨_, answer, buf', hcall, hgood⟩
  · refine .inr fun i hle => ?_
    rw [← Bool.not_eq_true]
    exact fun hfail => hfails ⟨i, hle, hfail⟩

/-- Failures of the producer are reported and what failed batches have left is withheld if and
only if no request that can be met begins with bytes of a failed batch. -/
theorem getData_contained_iff (producer : Producer) (size remaining multiple : UInt64)
    (sizes : List Nat) :
    Contained producer size.toNat remaining.toNat multiple.toNat sizes ↔
      ∀ before wanted after, sizes = before ++ wanted :: after → ∀ fuel answers buf,
        getDataAllWithin producer fuel
            (newBuffer size.toNat remaining.toNat multiple.toNat) before = some (answers, buf) →
        ¬ Spoils producer size.toNat remaining.toNat multiple.toNat buf wanted := by
  have hsize := size.toNat_lt
  have hmultiple := multiple.toNat_lt
  have hremaining : remaining.toNat ≤ bufferSizeUnset := Nat.le_sub_one_of_lt remaining.toNat_lt
  generalize size.toNat = size at *
  generalize remaining.toNat = remaining at *
  generalize multiple.toNat = multiple at *
  constructor
  · intro hcontained before wanted after hsizes fuel answersBefore buf hbefore hspoils
    have hpos := pos_of_holdsFailed hsize hmultiple hspoils.2.1
    -- with enough passes all the calls return
    have hall : sizes.sum ≤ fuel + sizes.sum := Nat.le_add_left _ _
    obtain ⟨answers, last, hrun⟩ :=
      @getDataAllWithin_of_pos producer size remaining multiple _ _ hsize hmultiple hremaining hpos
        sizes reached_new hall
    obtain ⟨answers', last', hrun', hforall⟩ :=
      hcontained.withheld _ _ _ hrun producer.altered (agreeOnData_altered producer)
    have hbefore' := getDataAllWithin_mono (Nat.le_add_right fuel sizes.sum) hbefore
    rw [hsizes] at hrun hrun' hbefore'
    exact getDataAllWithin_spoiled hsize hmultiple hremaining twin_new hbefore' hspoils hrun hrun'
      hforall
  · intro hclean
    refine ⟨?_, ?_⟩
    · intro before wanted after _ fuel answers buf hbefore
      exact contained_reported hsize hmultiple hremaining
        (getDataAllWithin_reached hsize hmultiple hremaining reached_new hbefore) wanted
    · intro fuel answers buf hrun producer' hagree
      exact getDataAllWithin_twin hsize hmultiple hremaining hagree twin_new
        (fun before wanted after heq answers next hbefore =>
          hclean before wanted after heq fuel answers next hbefore) hrun

/-- The first batch of four bytes fails when one byte is wanted: the next byte comes from it. -/
theorem not_getData_contained_leftOver :
    ¬ Contained (fun _ _ => (false, fun _ => 7)) 4 8 bufferSizeUnset [1, 1] := by
  intro hcontained
  have hrun : getDataAllWithin (fun _ _ => (false, fun _ => 7)) 2 (newBuffer 4 8 bufferSizeUnset)
      [1, 1] = some ([⟨false, [7]⟩, ⟨true, [7]⟩],
        { newBuffer 4 8 bufferSizeUnset with
          currSize := 4
          remainingSize := 4
          bufferOffset := 2
          buffer := [7, 7, 7, 7]
          batches := [⟨4, 4, [7, 7, 7, 7]⟩] }) := by
    decide
  obtain ⟨answers', buf', hrun', hall⟩ := hcontained.withheld _ _ _ hrun
    (fun _ _ => (false, fun _ => 8)) (fun _ _ => ⟨rfl, fun hgood => by cases hgood⟩)
  have heq : answers' = [⟨false, [8]⟩, ⟨true, [8]⟩] := by
    have hanswers : (getDataAllWithin (fun _ _ => (false, fun _ => 8)) 2
        (newBuffer 4 8 bufferSizeUnset) [1, 1]).map (·.1) =
          some [⟨false, [8]⟩, ⟨true, [8]⟩] := by
      decide
    rw [hrun'] at hanswers
    exact Option.some.inj hanswers
  rw [heq] at hall
  cases hall with
  | cons _ htail =>
      cases htail with
      | cons hsecond _ => exact absurd (hsecond.2 rfl) (by decide)

end SaneBackends.Genesys
