import SaneBackends.Genesys.Session
/-!
# The image buffer of the genesys backend

`ImageBuffer::get_data` serves requests of any size out of batches of one size. The batches
that the producer was asked for are kept beside the buffer. The counters of the code never
wrap; only `align_multiple_ceil` computes with 64 bits here.
-/

namespace SaneBackends.Genesys

/-! ## The code -/

def bufferSizeUnset : Nat := 2 ^ 64 - 1

/-- A batch as the producer was asked for it, and what it stored. -/
structure Batch where
  sizeToRead : Nat
  alignedSizeToRead : Nat
  bytes : List UInt8
  deriving DecidableEq, Repr

/-- The producer: by the number of the call and the size asked for, whether it got the data, and
the byte it stores at each place. -/
abbrev Producer := Nat → Nat → Bool × (Nat → UInt8)

structure ImageBuffer where
  size : Nat
  currSize : Nat := 0
  remainingSize : Nat := bufferSizeUnset
  lastReadMultiple : Nat := bufferSizeUnset
  bufferOffset : Nat := 0
  buffer : List UInt8 := List.replicate size 0
  /-- The calls of the producer up to now. -/
  batches : List Batch := []
  deriving DecidableEq, Repr

/-- What `get_data` returns, and what it stored at `out_data`. -/
structure Answer where
  gotData : Bool
  out : List UInt8
  deriving DecidableEq, Repr

/-- `align_multiple_ceil` on two sizes. -/
def roundUp (x multiple : Nat) : Nat :=
  (alignMultipleCeil (UInt64.ofNat x) (UInt64.ofNat multiple)).toNat

namespace ImageBuffer

def available (buf : ImageBuffer) : Nat := buf.currSize - buf.bufferOffset

/-- The bytes that wait in the buffer. -/
def pending (buf : ImageBuffer) : List UInt8 :=
  (buf.buffer.drop buf.bufferOffset).take buf.available

/-- `copy_buffer`, with `wanted` bytes up to `out_data_end`. -/
def copyBuffer (buf : ImageBuffer) (wanted : Nat) : List UInt8 × ImageBuffer :=
  let bytesCopy := min wanted buf.available
  ((buf.buffer.drop buf.bufferOffset).take bytesCopy,
    { buf with bufferOffset := buf.bufferOffset + bytesCopy })

def sizeToRead (buf : ImageBuffer) : Nat :=
  if buf.remainingSize ≠ bufferSizeUnset then min buf.size buf.remainingSize else buf.size

/-- One call of the producer. What it stores past the end of the buffer is not read again. -/
def readBatch (producer : Producer) (buf : ImageBuffer) : Bool × ImageBuffer :=
  let sizeToRead := buf.sizeToRead
  let remainingSize :=
    if buf.remainingSize ≠ bufferSizeUnset then buf.remainingSize - sizeToRead
    else buf.remainingSize
  let alignedSizeToRead :=
    if remainingSize = 0 ∧ buf.lastReadMultiple ≠ bufferSizeUnset then
      roundUp sizeToRead buf.lastReadMultiple
    else sizeToRead
  let produced := producer buf.batches.length alignedSizeToRead
  let bytes := (List.range alignedSizeToRead).map produced.2
  (produced.1,
    { buf with
      remainingSize := remainingSize
      bufferOffset := 0
      currSize := sizeToRead
      buffer := bytes ++ buf.buffer.drop alignedSizeToRead
      batches := buf.batches ++ [⟨sizeToRead, alignedSizeToRead, bytes⟩] })

/-- The loop of `get_data`, entered with nothing available; `none` when it goes on after so many
passes. -/
def getDataLoop (producer : Producer) :
    Nat → ImageBuffer → Nat → List UInt8 → Bool → Option (Answer × ImageBuffer)
  | 0, _, _, _, _ => none
  | fuel + 1, buf, wanted, out, gotData =>
      let read := readBatch producer buf
      let bytesCopy := min wanted read.2.available
      let copied := read.2.copyBuffer wanted
      let out := out ++ copied.1
      let wanted := wanted - bytesCopy
      let gotData := gotData && read.1 && !(copied.2.remainingSize = 0 ∧ 0 < wanted : Bool)
      if 0 < wanted ∧ gotData then getDataLoop producer fuel copied.2 wanted out gotData
      else some (⟨gotData, out⟩, copied.2)

def getData (producer : Producer) (buf : ImageBuffer) (size : Nat) :
    Option (Answer × ImageBuffer) :=
  let bytesCopy := min size buf.available
  let copied := if 0 < buf.available then buf.copyBuffer size else ([], buf)
  let wanted := size - bytesCopy
  if wanted = 0 then some (⟨true, copied.1⟩, copied.2)
  else getDataLoop producer (wanted + 1) copied.2 wanted copied.1 true

/-- A sequence of calls of `get_data`. -/
def getDataAll (producer : Producer) :
    ImageBuffer → List Nat → Option (List Answer × ImageBuffer)
  | buf, [] => some ([], buf)
  | buf, size :: sizes => do
      let (answer, buf) ← getData producer buf size
      let (answers, buf) ← getDataAll producer buf sizes
      return (answer :: answers, buf)

end ImageBuffer

/-! ## Rounding up -/

theorem roundUp_zero (x : Nat) (hx : x < 2 ^ 64) : roundUp x 0 = x := by
  simpa [roundUp, alignMultipleCeil] using hx

/-- The sum under the division wraps, the rest does not. -/
theorem roundUp_eq {x multiple : Nat} (hx : x < 2 ^ 64) (hmultiple : multiple < 2 ^ 64)
    (hpos : 0 < multiple) :
    roundUp x multiple = (x + multiple - 1) % 2 ^ 64 / multiple * multiple := by
  have hne : UInt64.ofNat multiple ≠ 0 := by
    intro hzero
    have hzero := congrArg UInt64.toNat hzero
    simp only [UInt64.toNat_ofNat', UInt64.toNat_zero, Nat.mod_eq_of_lt hmultiple] at hzero
    omega
  have hsum : (UInt64.ofNat x + UInt64.ofNat multiple - 1).toNat =
      (x + multiple - 1) % 2 ^ 64 := by
    simp only [UInt64.toNat_sub, UInt64.toNat_add, UInt64.toNat_ofNat', UInt64.toNat_one]
    omega
  have hback : (x + multiple - 1) % 2 ^ 64 / multiple * multiple < 2 ^ 64 :=
    Nat.lt_of_le_of_lt (Nat.div_mul_le_self _ _) (Nat.mod_lt _ (by decide))
  rw [roundUp, alignMultipleCeil, if_neg hne, UInt64.toNat_mul, UInt64.toNat_div, hsum,
    UInt64.toNat_ofNat', Nat.mod_eq_of_lt hmultiple, Nat.mod_eq_of_lt hback]

theorem le_roundUp {x multiple : Nat} (hx : x < 2 ^ 64) (hmultiple : multiple < 2 ^ 64)
    (hsum : multiple = 0 ∨ x + multiple - 1 < 2 ^ 64) : x ≤ roundUp x multiple := by
  by_cases hzero : multiple = 0
  · rw [hzero, roundUp_zero x hx]
  · have hpos : 0 < multiple := Nat.pos_of_ne_zero hzero
    rw [roundUp_eq hx hmultiple hpos, Nat.mod_eq_of_lt (hsum.resolve_left hzero)]
    have hfloor := Nat.div_add_mod (x + multiple - 1) multiple
    have hrest := Nat.mod_lt (x + multiple - 1) hpos
    rw [Nat.mul_comm] at hfloor
    omega

theorem roundUp_of_wrap {x multiple : Nat} (hx : x < 2 ^ 64) (hmultiple : multiple < 2 ^ 64)
    (hsum : 2 ^ 64 ≤ x + multiple - 1) : roundUp x multiple = 0 := by
  have hwrapped : (x + multiple - 1) % 2 ^ 64 < multiple := by omega
  rw [roundUp_eq hx hmultiple (by omega), Nat.div_eq_of_lt hwrapped, Nat.zero_mul]

theorem roundUp_le {x multiple size : Nat} (hx : x ≤ size) (hsize : size < 2 ^ 64)
    (hmultiple : multiple < 2 ^ 64) (hdvd : multiple ∣ size) : roundUp x multiple ≤ size := by
  by_cases hzero : multiple = 0
  · rw [hzero, roundUp_zero x (by omega)]
    exact hx
  · have hpos : 0 < multiple := Nat.pos_of_ne_zero hzero
    obtain ⟨count, hcount⟩ := hdvd
    rw [roundUp_eq (by omega) hmultiple hpos, hcount, Nat.mul_comm multiple]
    refine Nat.mul_le_mul_right _ (Nat.le_of_lt_succ ?_)
    rw [Nat.div_lt_iff_lt_mul hpos, Nat.succ_mul, Nat.mul_comm count, ← hcount]
    have hmod := Nat.mod_le (x + multiple - 1) (2 ^ 64)
    omega

/-! ## The batches -/

section Plan

variable (producer : Producer) (size remaining multiple : Nat)

/-- How much of the `i`-th batch is read. -/
def plannedSize (i : Nat) : Nat :=
  if remaining = bufferSizeUnset then size else min size (remaining - i * size)

/-- The `i`-th batch. -/
def planned (i : Nat) : Batch :=
  let sizeToRead := plannedSize size remaining i
  let alignedSizeToRead :=
    if (remaining ≠ bufferSizeUnset ∧ remaining ≤ (i + 1) * size) ∧ multiple ≠ bufferSizeUnset then
      roundUp sizeToRead multiple
    else sizeToRead
  ⟨sizeToRead, alignedSizeToRead, (List.range alignedSizeToRead).map (producer i alignedSizeToRead).2⟩

def plan (count : Nat) : List Batch :=
  (List.range count).map (planned producer size remaining multiple)

/-- How much of the first batches is read. -/
def taken (count : Nat) : Nat :=
  if remaining = bufferSizeUnset then count * size else min remaining (count * size)

end Plan

/-- The bytes of some batches, each up to the size that is read of it. -/
def stream (batches : List Batch) : List UInt8 :=
  batches.flatMap fun batch => batch.bytes.take batch.sizeToRead

/-- The batch has all the bytes that are read of it. -/
def Batch.Full (batch : Batch) : Prop := batch.sizeToRead ≤ batch.bytes.length

section Plan

variable {producer : Producer} {size remaining multiple : Nat}

theorem plan_succ (count : Nat) :
    plan producer size remaining multiple (count + 1) =
      plan producer size remaining multiple count ++
        [planned producer size remaining multiple count] := by
  rw [plan, List.range_succ, List.map_append]
  rfl

@[simp] theorem length_plan (count : Nat) :
    (plan producer size remaining multiple count).length = count := by
  simp [plan]

theorem stream_append (batches batches' : List Batch) :
    stream (batches ++ batches') = stream batches ++ stream batches' := List.flatMap_append

theorem stream_singleton (batch : Batch) :
    stream [batch] = batch.bytes.take batch.sizeToRead := by
  simp [stream]

theorem taken_succ (count : Nat) :
    taken size remaining (count + 1) =
      taken size remaining count + plannedSize size remaining count := by
  unfold taken plannedSize
  rw [Nat.succ_mul]
  split_ifs
  · rfl
  · omega

theorem sum_plan (count : Nat) :
    ((plan producer size remaining multiple count).map (·.sizeToRead)).sum =
      taken size remaining count := by
  induction count with
  | zero => simp [plan, taken]
  | succ count ih =>
      rw [plan_succ, List.map_append, List.sum_append, ih, taken_succ]
      simp [planned]

theorem length_stream_plan {count : Nat}
    (hfull : ∀ i < count, (planned producer size remaining multiple i).Full) :
    (stream (plan producer size remaining multiple count)).length = taken size remaining count := by
  induction count with
  | zero => simp [plan, taken, stream]
  | succ count ih =>
      have hlast : (planned producer size remaining multiple count).Full :=
        hfull count (Nat.lt_succ_self _)
      have hrest := ih fun i hi => hfull i (Nat.lt_succ_of_lt hi)
      rw [plan_succ, stream_append, stream_singleton, List.length_append, hrest, taken_succ,
        List.length_take, Nat.min_eq_left hlast]
      rfl

theorem stream_plan_begins {m count : Nat} (hm : m ≤ count) :
    stream (plan producer size remaining multiple m) <+:
      stream (plan producer size remaining multiple count) := by
  induction count with
  | zero =>
      have hzero : m = 0 := by omega
      rw [hzero]
  | succ count ih =>
      by_cases hlast : m = count + 1
      · rw [hlast]
      · rw [plan_succ, stream_append]
        exact (ih (by omega)).trans (List.prefix_append _ _)

end Plan

/-! ## One call -/

namespace ImageBuffer

variable {producer : Producer} {size remaining multiple : Nat} {buf : ImageBuffer}
  {consumed : List UInt8}

/-- The state between two copies: `consumed` was stored at `out_data` up to now. -/
structure Served (producer : Producer) (size remaining multiple : Nat) (buf : ImageBuffer)
    (consumed : List UInt8) : Prop where
  size_eq : buf.size = size
  multiple_eq : buf.lastReadMultiple = multiple
  batches_eq : buf.batches = plan producer size remaining multiple buf.batches.length
  remaining_eq : buf.remainingSize =
    if remaining = bufferSizeUnset then remaining else remaining - buf.batches.length * size
  memory : size ≤ buf.buffer.length
  offset_le : buf.bufferOffset ≤ buf.currSize
  curr_le : buf.currSize ≤ size
  count : consumed.length + buf.available = taken size remaining buf.batches.length
  content : ∀ m ≤ buf.batches.length,
    (∀ i < m, (planned producer size remaining multiple i).Full) →
    stream (plan producer size remaining multiple m) <+: consumed ++ buf.pending

theorem served_fresh :
    Served producer size remaining multiple
      { size := size, remainingSize := remaining, lastReadMultiple := multiple } [] where
  size_eq := rfl
  multiple_eq := rfl
  batches_eq := rfl
  remaining_eq := by simp
  memory := by simp
  offset_le := Nat.le_refl 0
  curr_le := Nat.zero_le _
  count := by simp [available, taken]
  content := by
    intro m hm _
    have hzero : m = 0 := by simpa using hm
    rw [hzero]
    exact List.nil_prefix

namespace Served

theorem length_pending (h : Served producer size remaining multiple buf consumed) :
    buf.pending.length = buf.available := by
  have hmemory := h.memory
  have hoffset := h.offset_le
  have hcurr := h.curr_le
  simp only [pending, List.length_take, List.length_drop, available]
  omega

/-- Copying moves bytes from the buffer to `out_data`. -/
theorem copyBuffer (h : Served producer size remaining multiple buf consumed) (wanted : Nat) :
    Served producer size remaining multiple (buf.copyBuffer wanted).2
        (consumed ++ (buf.copyBuffer wanted).1) ∧
      (buf.copyBuffer wanted).1.length = min wanted buf.available ∧
      (buf.copyBuffer wanted).2.available = buf.available - min wanted buf.available := by
  have hmemory := h.memory
  have hoffset := h.offset_le
  have hcurr := h.curr_le
  have hlength : (buf.copyBuffer wanted).1.length = min wanted buf.available := by
    simp only [ImageBuffer.copyBuffer, List.length_take, List.length_drop, available]
    omega
  have havailable :
      (buf.copyBuffer wanted).2.available = buf.available - min wanted buf.available := by
    simp only [ImageBuffer.copyBuffer, available]
    omega
  have hpending : (buf.copyBuffer wanted).1 ++ (buf.copyBuffer wanted).2.pending = buf.pending := by
    rw [pending, havailable]
    simp only [ImageBuffer.copyBuffer, pending]
    rw [← List.drop_drop, ← List.take_add, Nat.add_sub_cancel' (Nat.min_le_right _ _)]
  refine ⟨?_, hlength, havailable⟩
  exact {
    size_eq := h.size_eq
    multiple_eq := h.multiple_eq
    batches_eq := h.batches_eq
    remaining_eq := h.remaining_eq
    memory := h.memory
    offset_le := by
      simp only [ImageBuffer.copyBuffer, available]
      omega
    curr_le := h.curr_le
    count := by
      have hcount := h.count
      rw [List.length_append, hlength, havailable]
      change _ = taken size remaining buf.batches.length
      omega
    content := by
      intro m hm hfull
      rw [List.append_assoc, hpending]
      exact h.content m hm hfull }

theorem readBatch_eq (h : Served producer size remaining multiple buf consumed)
    (hremaining : remaining ≤ bufferSizeUnset) :
    ImageBuffer.readBatch producer buf =
      let batch := planned producer size remaining multiple buf.batches.length
      ((producer buf.batches.length batch.alignedSizeToRead).1,
        { buf with
          remainingSize :=
            if remaining = bufferSizeUnset then remaining
            else remaining - (buf.batches.length + 1) * size
          bufferOffset := 0
          currSize := batch.sizeToRead
          buffer := batch.bytes ++ buf.buffer.drop batch.alignedSizeToRead
          batches := buf.batches ++ [batch] }) := by
  have hsize : buf.sizeToRead = plannedSize size remaining buf.batches.length := by
    rw [sizeToRead, plannedSize, h.remaining_eq, h.size_eq]
    split_ifs <;> first | rfl | omega
  have hrest : (if buf.remainingSize ≠ bufferSizeUnset then
        buf.remainingSize - plannedSize size remaining buf.batches.length
      else buf.remainingSize) =
      if remaining = bufferSizeUnset then remaining
      else remaining - (buf.batches.length + 1) * size := by
    rw [plannedSize, h.remaining_eq, Nat.succ_mul]
    split_ifs <;> omega
  have hlast : (if remaining = bufferSizeUnset then remaining
      else remaining - (buf.batches.length + 1) * size) = 0 ↔
      remaining ≠ bufferSizeUnset ∧ remaining ≤ (buf.batches.length + 1) * size := by
    have hpos : bufferSizeUnset ≠ 0 := by decide
    split_ifs <;> omega
  simp only [ImageBuffer.readBatch, hsize, hrest, hlast, h.multiple_eq, planned]

theorem pending_eq_nil (h : Served producer size remaining multiple buf consumed)
    (hempty : buf.available = 0) : buf.pending = [] := by
  rw [← List.length_eq_zero_iff, h.length_pending, hempty]

/-- The next batch is the planned one, and is then all that is available. -/
theorem readBatch (h : Served producer size remaining multiple buf consumed)
    (hremaining : remaining ≤ bufferSizeUnset) (hempty : buf.available = 0) :
    Served producer size remaining multiple (ImageBuffer.readBatch producer buf).2 consumed ∧
      (ImageBuffer.readBatch producer buf).2.available =
        plannedSize size remaining buf.batches.length ∧
      (ImageBuffer.readBatch producer buf).2.batches.length = buf.batches.length + 1 := by
  have hcount := h.count
  have hpending := h.pending_eq_nil hempty
  rw [h.readBatch_eq hremaining]
  refine ⟨?_, Nat.sub_zero _, List.length_append⟩
  exact {
    size_eq := h.size_eq
    multiple_eq := h.multiple_eq
    batches_eq := by
      rw [List.length_append, List.length_singleton, plan_succ, ← h.batches_eq]
    remaining_eq := by rw [List.length_append, List.length_singleton]
    memory := by
      have hmemory := h.memory
      simp only [planned, List.length_append, List.length_map, List.length_range,
        List.length_drop]
      omega
    offset_le := Nat.zero_le _
    curr_le := by
      simp only [planned, plannedSize]
      split_ifs <;> omega
    count := by
      rw [List.length_append, List.length_singleton, taken_succ, ← hcount, hempty]
      rfl
    content := by
      intro m hm hfull
      rw [List.length_append, List.length_singleton] at hm
      by_cases hlast : m ≤ buf.batches.length
      · have hbegins := h.content m hlast hfull
        rw [hpending, List.append_nil] at hbegins
        exact hbegins.trans (List.prefix_append _ _)
      · have hm' : m = buf.batches.length + 1 := by omega
        subst hm'
        have hfull' : ∀ i < buf.batches.length,
            (planned producer size remaining multiple i).Full :=
          fun i hi => hfull i (Nat.lt_succ_of_lt hi)
        have hbefore := h.content buf.batches.length (Nat.le_refl _) hfull'
        rw [hpending, List.append_nil] at hbefore
        have hconsumed := hbefore.eq_of_length (by rw [length_stream_plan hfull']; omega)
        have hbytes := hfull buf.batches.length (Nat.lt_succ_self _)
        rw [plan_succ, stream_append, stream_singleton, hconsumed]
        simp only [pending, available, List.drop_zero, Nat.sub_zero]
        rw [List.take_append_of_le_length hbytes] }

end Served

/-- How much of a request is stored when so much was consumed before it. -/
def portion (remaining consumed wanted : Nat) : Nat :=
  if remaining = bufferSizeUnset then wanted else min wanted (remaining - consumed)

section Portion

variable {count consumedSize wanted : Nat}

theorem portion_of_le (hconsumed : consumedSize = taken size remaining count)
    (hwanted : wanted ≤ plannedSize size remaining count) :
    portion remaining consumedSize wanted = wanted := by
  unfold taken at hconsumed
  unfold plannedSize at hwanted
  unfold portion
  split_ifs at * <;> omega

/-- The last batch is all that is left. -/
theorem portion_of_last (hconsumed : consumedSize = taken size remaining count)
    (hlast : remaining ≠ bufferSizeUnset ∧ remaining ≤ (count + 1) * size)
    (hwanted : plannedSize size remaining count < wanted) :
    portion remaining consumedSize wanted = plannedSize size remaining count := by
  rw [Nat.succ_mul] at hlast
  unfold taken at hconsumed
  unfold plannedSize at hwanted ⊢
  unfold portion
  split_ifs at * <;> omega

theorem plannedSize_of_more (hmore : ¬ (remaining ≠ bufferSizeUnset ∧
    remaining ≤ (count + 1) * size)) : plannedSize size remaining count = size := by
  rw [Nat.succ_mul] at hmore
  unfold plannedSize
  split_ifs <;> omega

theorem portion_of_more (hsize : size ≤ wanted) (hmore : ¬ (remaining ≠ bufferSizeUnset ∧
      remaining ≤ (count + 1) * size)) (hconsumed : consumedSize = taken size remaining count) :
    portion remaining consumedSize wanted =
      size + portion remaining (consumedSize + size) (wanted - size) := by
  rw [Nat.succ_mul] at hmore
  unfold taken at hconsumed
  unfold portion
  split_ifs at * <;> omega

end Portion

/-- A call that is asked for `wanted` bytes stores its portion and says whether that is all. -/
def Serves (producer : Producer) (size remaining multiple : Nat) (consumed : List UInt8)
    (wanted : Nat) (out : List UInt8) (answer : Option (Answer × ImageBuffer)) : Prop :=
  ∃ copied buf', answer = some (⟨decide (copied.length = wanted), out ++ copied⟩, buf') ∧
    Served producer size remaining multiple buf' (consumed ++ copied) ∧
    copied.length = portion remaining consumed.length wanted

theorem readBatch_fst (hproducer : ∀ i n, (producer i n).1 = true) (buf : ImageBuffer) :
    (readBatch producer buf).1 = true := hproducer _ _

theorem getDataLoop_serves (hproducer : ∀ i n, (producer i n).1 = true) (hsize : 0 < size)
    (hremaining : remaining ≤ bufferSizeUnset) (fuel : Nat) {buf : ImageBuffer}
    {consumed : List UInt8} (h : Served producer size remaining multiple buf consumed)
    (hempty : buf.available = 0) {wanted : Nat} (hwanted : 0 < wanted) (hfuel : wanted < fuel)
    (out : List UInt8) :
    Serves producer size remaining multiple consumed wanted out
      (getDataLoop producer fuel buf wanted out true) := by
  induction fuel generalizing buf consumed wanted out with
  | zero => omega
  | succ fuel ih =>
      have hcount := h.count
      rw [hempty, Nat.add_zero] at hcount
      obtain ⟨hread, havailable, hbatches⟩ := h.readBatch hremaining hempty
      obtain ⟨hcopied, hlength, hleft⟩ := hread.copyBuffer wanted
      have hremainingSize : ((readBatch producer buf).2.copyBuffer wanted).2.remainingSize =
          if remaining = bufferSizeUnset then remaining
          else remaining - (buf.batches.length + 1) * size := hbatches ▸ hread.remaining_eq
      have hrest : ((readBatch producer buf).2.copyBuffer wanted).2.remainingSize = 0 ↔
          remaining ≠ bufferSizeUnset ∧ remaining ≤ (buf.batches.length + 1) * size := by
        have hpos : bufferSizeUnset ≠ 0 := by decide
        rw [hremainingSize]
        split_ifs <;> omega
      rw [havailable] at hlength hleft
      rw [getDataLoop]
      simp only [readBatch_fst hproducer, havailable, hrest, Bool.true_and]
      generalize (readBatch producer buf).2.copyBuffer wanted = copied at *
      obtain ⟨copied, buf'⟩ := copied
      dsimp only at *
      by_cases henough : wanted ≤ plannedSize size remaining buf.batches.length
      · -- the batch covers what is still wanted
        rw [Nat.min_eq_left henough] at hlength
        rw [Nat.min_eq_left henough, Nat.sub_self, if_neg (by simp)]
        refine ⟨copied, buf', by simp [hlength], hcopied, ?_⟩
        rw [portion_of_le hcount henough, hlength]
      · rw [Nat.min_eq_right (by omega)] at hlength hleft ⊢
        have hpos : 0 < wanted - plannedSize size remaining buf.batches.length := by omega
        by_cases hlast : remaining ≠ bufferSizeUnset ∧
            remaining ≤ (buf.batches.length + 1) * size
        · -- nothing is left behind this batch
          rw [if_neg (by simp [hlast, hpos])]
          refine ⟨copied, buf', ?_, hcopied, ?_⟩
          · have hshort : copied.length ≠ wanted := by omega
            simp [hlast, hpos, hshort]
          · rw [portion_of_last hcount hlast (by omega), hlength]
        · have hfull := plannedSize_of_more hlast
          have hgot : (!decide ((remaining ≠ bufferSizeUnset ∧
              remaining ≤ (buf.batches.length + 1) * size) ∧
              0 < wanted - plannedSize size remaining buf.batches.length)) = true := by
            rw [decide_eq_false (fun hstop => hlast hstop.1)]
            rfl
          rw [hgot, if_pos ⟨hpos, rfl⟩, hfull]
          rw [hfull] at hlength hpos
          obtain ⟨copied', buf'', hloop, hserved, hportion⟩ :=
            ih hcopied (by rw [hleft, Nat.sub_self]) hpos (by omega) (out ++ copied)
          rw [List.length_append, hlength] at hportion
          refine ⟨copied ++ copied', buf'', ?_, ?_, ?_⟩
          · rw [hloop, List.length_append, hlength, List.append_assoc]
            congr 4
            exact propext ⟨by omega, by omega⟩
          · rw [← List.append_assoc]
            exact hserved
          · rw [List.length_append, hlength, portion_of_more (by omega) hlast hcount, hportion]

theorem copyBuffer_of_empty (hempty : buf.available = 0) (wanted : Nat) :
    buf.copyBuffer wanted = ([], buf) := by
  simp [copyBuffer, hempty]

/-- Every call ends, stores its portion and says whether that is all. -/
theorem getData_serves (hproducer : ∀ i n, (producer i n).1 = true) (hsize : 0 < size)
    (hremaining : remaining ≤ bufferSizeUnset)
    (h : Served producer size remaining multiple buf consumed) (wanted : Nat) :
    Serves producer size remaining multiple consumed wanted [] (getData producer buf wanted) := by
  have hcount := h.count
  have hcopy : (if 0 < buf.available then buf.copyBuffer wanted else ([], buf)) =
      buf.copyBuffer wanted := by
    split_ifs with havailable
    · rfl
    · rw [copyBuffer_of_empty (by omega)]
  obtain ⟨hcopied, hlength, hleft⟩ := h.copyBuffer wanted
  rw [getData, hcopy]
  generalize buf.copyBuffer wanted = copied at *
  obtain ⟨copied, buf'⟩ := copied
  dsimp only at *
  unfold taken at hcount
  by_cases henough : wanted ≤ buf.available
  · rw [Nat.min_eq_left henough] at hlength ⊢
    rw [if_pos (Nat.sub_self wanted)]
    refine ⟨copied, buf', by simp [hlength], hcopied, ?_⟩
    rw [hlength, portion]
    split_ifs at * <;> omega
  · rw [Nat.min_eq_right (by omega)] at hlength hleft ⊢
    rw [if_neg (by omega)]
    have hpos : 0 < wanted - buf.available := by omega
    obtain ⟨copied', buf'', hloop, hserved, hportion⟩ :=
      getDataLoop_serves hproducer hsize hremaining (wanted - buf.available + 1) hcopied
        (by rw [hleft, Nat.sub_self]) hpos (Nat.lt_succ_self _) copied
    refine ⟨copied ++ copied', buf'', ?_, ?_, ?_⟩
    · rw [hloop, List.length_append, hlength, List.nil_append]
      congr 4
      exact propext ⟨by omega, by omega⟩
    · rw [← List.append_assoc]
      exact hserved
    · rw [List.length_append] at hportion ⊢
      rw [hportion, hlength]
      unfold portion
      split_ifs at * <;> omega

end ImageBuffer

/-! ## All calls -/

/-- The bytes that the calls stored. -/
def stored (answers : List Answer) : List UInt8 := answers.flatMap (·.out)

/-- The bytes that the calls which returned true stored. -/
def delivered (answers : List Answer) : List UInt8 := stored (answers.filter (·.gotData))

/-- Each call stores its portion of what was asked for. -/
inductive Portions (remaining : Nat) : Nat → List Nat → List Answer → Prop where
  | nil (consumed : Nat) : Portions remaining consumed [] []
  | cons {consumed wanted : Nat} {sizes : List Nat} {answer : Answer} {answers : List Answer} :
      answer.gotData = decide (answer.out.length = wanted) →
      answer.out.length = ImageBuffer.portion remaining consumed wanted →
      Portions remaining (consumed + answer.out.length) sizes answers →
      Portions remaining consumed (wanted :: sizes) (answer :: answers)

section Portions

variable {remaining consumed : Nat} {sizes : List Nat} {answers : List Answer}

@[simp] theorem stored_nil : stored [] = [] := rfl

@[simp] theorem stored_cons (answer : Answer) (answers : List Answer) :
    stored (answer :: answers) = answer.out ++ stored answers := rfl

theorem delivered_cons (answer : Answer) (answers : List Answer) :
    delivered (answer :: answers) =
      (if answer.gotData then answer.out else []) ++ delivered answers := by
  unfold delivered
  rw [List.filter_cons]
  split_ifs <;> simp

/-- Behind the end nothing is stored. -/
theorem Portions.stored_eq_nil (h : Portions remaining consumed sizes answers)
    (hset : remaining ≠ bufferSizeUnset) (hend : remaining ≤ consumed) : stored answers = [] := by
  induction h with
  | nil => rfl
  | cons _ hportion _ ih =>
      rw [ImageBuffer.portion, if_neg hset] at hportion
      have hnone := List.eq_nil_of_length_eq_zero (hportion.trans (by omega))
      rw [stored_cons, hnone, ih (by omega)]
      rfl

theorem delivered_eq_nil (h : stored answers = []) : delivered answers = [] := by
  induction answers with
  | nil => rfl
  | cons answer answers ih =>
      rw [stored_cons, List.append_eq_nil_iff] at h
      rw [delivered_cons, h.1, ih h.2]
      simp

/-- What the calls that returned true stored comes first. -/
theorem Portions.delivered_prefix (h : Portions remaining consumed sizes answers) :
    delivered answers <+: stored answers := by
  induction h with
  | nil => exact List.prefix_refl _
  | @cons consumed wanted sizes answer answers hgot hportion hrest ih =>
      rw [stored_cons, delivered_cons]
      by_cases hall : answer.out.length = wanted
      · rw [hgot, decide_eq_true hall, if_pos rfl]
        exact (List.prefix_append_right_inj _).mpr ih
      · rw [hgot, decide_eq_false hall, if_neg (by simp)]
        unfold ImageBuffer.portion at hportion
        split at hportion
        · exact absurd hportion hall
        · rw [delivered_eq_nil (hrest.stored_eq_nil ‹_› (by omega))]
          exact List.nil_prefix

/-- The calls that returned true are those up to some point, apart from requests for nothing. -/
theorem Portions.exists_length_delivered (h : Portions remaining consumed sizes answers) :
    ∃ n, (delivered answers).length = (sizes.take n).sum := by
  induction h with
  | nil => exact ⟨0, rfl⟩
  | @cons consumed wanted sizes answer answers hgot hportion hrest ih =>
      rw [delivered_cons]
      by_cases hall : answer.out.length = wanted
      · obtain ⟨n, hn⟩ := ih
        refine ⟨n + 1, ?_⟩
        rw [hgot, decide_eq_true hall, if_pos rfl, List.length_append, hn, hall, List.take_succ_cons,
          List.sum_cons]
      · unfold ImageBuffer.portion at hportion
        split at hportion
        · exact absurd hportion hall
        · refine ⟨0, ?_⟩
          rw [hgot, decide_eq_false hall, if_neg (by simp),
            delivered_eq_nil (hrest.stored_eq_nil ‹_› (by omega))]
          rfl

/-- The calls return true as long as enough is left. -/
theorem Portions.le_length_delivered (h : Portions remaining consumed sizes answers) (n : Nat)
    (hn : consumed + (sizes.take n).sum ≤ remaining) :
    (sizes.take n).sum ≤ (delivered answers).length := by
  induction h generalizing n with
  | nil => simp
  | @cons consumed wanted sizes answer answers hgot hportion hrest ih =>
      cases n with
      | zero => exact Nat.zero_le _
      | succ n =>
          rw [List.take_succ_cons, List.sum_cons] at hn ⊢
          have hall : answer.out.length = wanted := by
            unfold ImageBuffer.portion at hportion
            split at hportion <;> omega
          have hrest' := ih n (by omega)
          rw [delivered_cons, hgot, decide_eq_true hall, if_pos rfl, List.length_append, hall]
          omega

theorem Portions.length_eq (h : Portions remaining consumed sizes answers) :
    answers.length = sizes.length := by
  induction h with
  | nil => rfl
  | cons _ _ _ ih => rw [List.length_cons, List.length_cons, ih]

/-- A call returns false if less than the request is left, and otherwise stores all of it. -/
theorem Portions.gotData_iff (h : Portions remaining consumed sizes answers) (n : Nat)
    {answer : Answer} {wanted : Nat} (hanswer : answers[n]? = some answer)
    (hwanted : sizes[n]? = some wanted) :
    (answer.gotData = false ↔ remaining ≠ bufferSizeUnset ∧
        remaining - (consumed + (stored (answers.take n)).length) < wanted) ∧
      (answer.gotData = true → answer.out.length = wanted) := by
  induction h generalizing n with
  | nil => cases hanswer
  | @cons consumed wanted' sizes answer' answers hgot hportion hrest ih =>
      cases n with
      | zero =>
          cases hanswer
          cases hwanted
          rw [hgot, decide_eq_false_iff_not, decide_eq_true_iff]
          refine ⟨?_, id⟩
          unfold ImageBuffer.portion at hportion
          rw [List.take_zero, stored_nil, List.length_nil]
          split at hportion <;> omega
      | succ n =>
          have hrest' := ih n hanswer hwanted
          rw [List.take_succ_cons, stored_cons, List.length_append, ← Nat.add_assoc]
          exact hrest'

end Portions

namespace ImageBuffer

variable {producer : Producer} {size remaining multiple : Nat}

theorem getDataAll_served (hproducer : ∀ i n, (producer i n).1 = true) (hsize : 0 < size)
    (hremaining : remaining ≤ bufferSizeUnset) (sizes : List Nat) {buf : ImageBuffer}
    {consumed : List UInt8} (h : Served producer size remaining multiple buf consumed) :
    ∃ answers buf', getDataAll producer buf sizes = some (answers, buf') ∧
      Served producer size remaining multiple buf' (consumed ++ stored answers) ∧
      Portions remaining consumed.length sizes answers := by
  induction sizes generalizing buf consumed with
  | nil => exact ⟨[], buf, rfl, by simpa using h, .nil _⟩
  | cons wanted sizes ih =>
      obtain ⟨copied, buf₁, hcall, hserved, hportion⟩ :=
        getData_serves hproducer hsize hremaining h wanted
      obtain ⟨answers, buf₂, hcalls, hserved₂, hportions⟩ := ih hserved
      rw [List.length_append] at hportions
      refine ⟨⟨decide (copied.length = wanted), copied⟩ :: answers, buf₂, ?_, ?_,
        .cons rfl hportion hportions⟩
      · rw [getDataAll, hcall, Option.bind_eq_bind, Option.bind_some]
        dsimp only
        rw [hcalls]
        rfl
      · rw [stored_cons, ← List.append_assoc]
        exact hserved₂

end ImageBuffer

/-! ## The last batch -/

/-- Rounding up the last batch wraps around 64 bits. -/
def RoundingWraps (size remaining multiple : Nat) : Prop :=
  remaining ≠ bufferSizeUnset ∧ multiple ≠ bufferSizeUnset ∧
    2 ^ 64 ≤ (remaining - 1) % size + multiple

instance (size remaining multiple : Nat) : Decidable (RoundingWraps size remaining multiple) :=
  inferInstanceAs (Decidable (_ ∧ _ ∧ _))

/-- Where the last batch begins. -/
def lastBegin (size remaining : Nat) : Nat := (remaining - 1) / size * size

section LastBatch

variable {producer : Producer} {size remaining multiple : Nat}

theorem lastBegin_add (size remaining : Nat) :
    lastBegin size remaining + (remaining - 1) % size = remaining - 1 := Nat.div_add_mod' _ _

theorem length_bytes_planned (i : Nat) :
    (planned producer size remaining multiple i).bytes.length =
      (planned producer size remaining multiple i).alignedSizeToRead := by
  simp [planned]

theorem planned_full_of_not_last {i : Nat}
    (hlast : ¬ ((remaining ≠ bufferSizeUnset ∧ remaining ≤ (i + 1) * size) ∧
      multiple ≠ bufferSizeUnset)) : (planned producer size remaining multiple i).Full := by
  rw [Batch.Full, length_bytes_planned]
  simp only [planned, if_neg hlast]
  exact Nat.le_refl _

/-- What is left for the last batch. -/
theorem plannedSize_last (hset : remaining ≠ bufferSizeUnset) {i : Nat} (hbegin : i * size < remaining)
    (hend : remaining ≤ (i + 1) * size) :
    i = (remaining - 1) / size ∧
      plannedSize size remaining i = (remaining - 1) % size + 1 := by
  rw [Nat.succ_mul] at hend
  have hquotient : i = (remaining - 1) / size := by
    symm
    rw [Nat.div_eq_iff (by omega)]
    constructor <;> omega
  refine ⟨hquotient, ?_⟩
  have hsum := lastBegin_add size remaining
  rw [lastBegin, ← hquotient] at hsum
  rw [plannedSize, if_neg hset]
  omega

theorem planned_full (hsize : 0 < size) (hsize' : size < 2 ^ 64) (hmultiple : multiple < 2 ^ 64)
    (hwraps : ¬ RoundingWraps size remaining multiple) (i : Nat) :
    (planned producer size remaining multiple i).Full := by
  by_cases hlast : (remaining ≠ bufferSizeUnset ∧ remaining ≤ (i + 1) * size) ∧
      multiple ≠ bufferSizeUnset
  · rw [Batch.Full, length_bytes_planned]
    simp only [planned, if_pos hlast]
    obtain ⟨⟨hset, hend⟩, hunset⟩ := hlast
    by_cases hbegin : i * size < remaining
    · have hlastSize := (plannedSize_last hset hbegin hend).2
      have hmod := Nat.mod_lt (remaining - 1) hsize
      have hsum : ¬ 2 ^ 64 ≤ (remaining - 1) % size + multiple := fun hsum =>
        hwraps ⟨hset, hunset, hsum⟩
      exact le_roundUp (by omega) hmultiple (by omega)
    · have hnone : plannedSize size remaining i = 0 := by
        rw [plannedSize, if_neg hset]
        omega
      rw [hnone]
      exact Nat.zero_le _
  · exact planned_full_of_not_last hlast

theorem planned_full_of_lt {i : Nat} (hi : i < (remaining - 1) / size) :
    (planned producer size remaining multiple i).Full := by
  refine planned_full_of_not_last fun hlast => ?_
  have hle : (i + 1) * size ≤ lastBegin size remaining := Nat.mul_le_mul_right _ hi
  have hsum := lastBegin_add size remaining
  have hpos : 0 < (remaining - 1) / size := by omega
  have hremaining : remaining - 1 ≠ 0 := by
    intro hzero
    rw [hzero, Nat.zero_div] at hpos
    omega
  omega

/-- A last batch that wraps brings nothing. -/
theorem stream_planned_of_wraps (hsize : 0 < size) (hsize' : size < 2 ^ 64)
    (hmultiple : multiple < 2 ^ 64) (hwraps : RoundingWraps size remaining multiple) {i : Nat}
    (hi : (remaining - 1) / size ≤ i) :
    stream [planned producer size remaining multiple i] = [] := by
  obtain ⟨hset, hunset, hsum⟩ := hwraps
  have hbegin : lastBegin size remaining ≤ i * size := Nat.mul_le_mul_right _ hi
  have hadd := lastBegin_add size remaining
  have hmod := Nat.mod_lt (remaining - 1) hsize
  rw [stream_singleton]
  by_cases hleft : i * size < remaining
  · have hend : remaining ≤ (i + 1) * size := by
      rw [Nat.succ_mul]
      omega
    have hlastSize := (plannedSize_last hset hleft hend).2
    have hnone : roundUp (plannedSize size remaining i) multiple = 0 :=
      roundUp_of_wrap (by omega) hmultiple (by omega)
    simp [planned, hset, hend, hunset, hnone]
  · have hnone : plannedSize size remaining i = 0 := by
      rw [plannedSize, if_neg hset]
      omega
    simp [planned, hnone]

theorem length_stream_le_of_wraps (hsize : 0 < size) (hsize' : size < 2 ^ 64)
    (hmultiple : multiple < 2 ^ 64) (hwraps : RoundingWraps size remaining multiple)
    (count : Nat) :
    (stream (plan producer size remaining multiple count)).length ≤ lastBegin size remaining := by
  induction count with
  | zero => exact Nat.zero_le _
  | succ count ih =>
      by_cases hcount : (remaining - 1) / size ≤ count
      · rw [plan_succ, stream_append,
          stream_planned_of_wraps hsize hsize' hmultiple hwraps hcount, List.append_nil]
        exact ih
      · have hfull : ∀ i < count + 1, (planned producer size remaining multiple i).Full :=
          fun i hi => planned_full_of_lt (by omega)
        have hle : (count + 1) * size ≤ lastBegin size remaining :=
          Nat.mul_le_mul_right _ (by omega)
        rw [length_stream_plan hfull, taken]
        split_ifs <;> omega

end LastBatch

/-! ## The stream -/

/-- What is expected of a sequence of calls on a new buffer with this batch size, remaining size
and last-read multiple. -/
def Streams (producer : Producer) (size remaining multiple : Nat) (sizes : List Nat) : Prop :=
  ∃ answers buf,
    ImageBuffer.getDataAll producer
        { size := size, remainingSize := remaining, lastReadMultiple := multiple } sizes =
      some (answers, buf) ∧
    answers.length = sizes.length ∧
    delivered answers <+: stream buf.batches ∧
    (remaining ≠ bufferSizeUnset → (buf.batches.map (·.sizeToRead)).sum ≤ remaining) ∧
    (∀ n answer wanted, answers[n]? = some answer → sizes[n]? = some wanted →
      (answer.gotData = false ↔ remaining ≠ bufferSizeUnset ∧
          remaining - (stored (answers.take n)).length < wanted) ∧
        (answer.gotData = true → answer.out.length = wanted)) ∧
    (multiple ∣ size → ∀ batch ∈ buf.batches, batch.alignedSizeToRead ≤ size)

section Stream

variable {producer : Producer} {size remaining multiple : Nat}

open ImageBuffer

/-- The parts of the expectation that hold whether the rounding wraps or not. -/
theorem streams_iff_prefix (hproducer : ∀ i n, (producer i n).1 = true) (hsize : 0 < size)
    (hsize' : size < 2 ^ 64) (hremaining : remaining ≤ bufferSizeUnset)
    (hmultiple : multiple < 2 ^ 64) (sizes : List Nat) :
    ∃ answers buf, Served producer size remaining multiple buf (stored answers) ∧
      Portions remaining 0 sizes answers ∧
      (Streams producer size remaining multiple sizes ↔
        delivered answers <+: stream buf.batches) := by
  obtain ⟨answers, buf, hcalls, hserved, hportions⟩ :=
    @getDataAll_served producer size remaining multiple hproducer hsize hremaining sizes _ _
      served_fresh
  refine ⟨answers, buf, hserved, hportions, ?_, ?_⟩
  · rintro ⟨answers', buf', hcalls', -, hbegins, -⟩
    rw [hcalls] at hcalls'
    cases hcalls'
    exact hbegins
  · intro hbegins
    refine ⟨answers, buf, hcalls, hportions.length_eq, hbegins, ?_, ?_, ?_⟩
    · intro hset
      rw [hserved.batches_eq, sum_plan, taken, if_neg hset]
      exact Nat.min_le_left _ _
    · intro n answer wanted hanswer hwanted
      have hgot := hportions.gotData_iff n hanswer hwanted
      rwa [List.length_nil, Nat.zero_add] at hgot
    · intro hdvd batch hbatch
      rw [hserved.batches_eq, plan, List.mem_map] at hbatch
      obtain ⟨i, -, rfl⟩ := hbatch
      have hle : plannedSize size remaining i ≤ size := by
        unfold plannedSize
        split_ifs <;> omega
      simp only [planned]
      split_ifs
      · exact roundUp_le hle hsize' hmultiple hdvd
      · exact hle

theorem delivered_prefix_stream {answers : List Answer} {sizes : List Nat} {buf : ImageBuffer}
    (hserved : Served producer size remaining multiple buf (stored answers))
    (hportions : Portions remaining 0 sizes answers) {m : Nat} (hm : m ≤ buf.batches.length)
    (hfull : ∀ i < m, (planned producer size remaining multiple i).Full)
    (hlength : (delivered answers).length ≤ taken size remaining m) :
    delivered answers <+: stream buf.batches := by
  have hstored : delivered answers <+: stored answers ++ buf.pending :=
    hportions.delivered_prefix.trans (List.prefix_append _ _)
  have hstream : delivered answers <+: stream (plan producer size remaining multiple m) :=
    List.prefix_of_prefix_length_le hstored (hserved.content m hm hfull)
      (by rw [length_stream_plan hfull]; exact hlength)
  rw [hserved.batches_eq]
  exact hstream.trans (stream_plan_begins hm)

theorem length_delivered_le {answers : List Answer} {sizes : List Nat} {buf : ImageBuffer}
    (hserved : Served producer size remaining multiple buf (stored answers))
    (hportions : Portions remaining 0 sizes answers) :
    (delivered answers).length ≤ taken size remaining buf.batches.length := by
  have hcount := hserved.count
  have hle := hportions.delivered_prefix.length_le
  omega

end Stream

/-- The calls of `get_data` stream the batches, unless one that returns true reaches into a last
batch whose rounding wraps. -/
theorem getData_streams_iff (producer : Producer) (hproducer : ∀ i n, (producer i n).1 = true)
    (size remaining multiple : UInt64) (hsize : 0 < size) (sizes : List Nat) :
    Streams producer size.toNat remaining.toNat multiple.toNat sizes ↔
      ¬ (RoundingWraps size.toNat remaining.toNat multiple.toNat ∧
        ∃ n, lastBegin size.toNat remaining.toNat < (sizes.take n).sum ∧
          (sizes.take n).sum ≤ remaining.toNat) := by
  have hsize' : 0 < size.toNat := hsize
  have hsizeLt := size.toNat_lt
  have hmultipleLt := multiple.toNat_lt
  have hremaining : remaining.toNat ≤ bufferSizeUnset := Nat.le_sub_one_of_lt remaining.toNat_lt
  generalize size.toNat = size at *
  generalize remaining.toNat = remaining at *
  generalize multiple.toNat = multiple at *
  obtain ⟨answers, buf, hserved, hportions, hiff⟩ :=
    streams_iff_prefix hproducer hsize' hsizeLt hremaining hmultipleLt sizes
  have hdelivered := length_delivered_le hserved hportions
  rw [hiff]
  constructor
  · rintro hbegins ⟨hwraps, n, hbegin, hend⟩
    have hshort := @length_stream_le_of_wraps producer size remaining multiple hsize' hsizeLt
      hmultipleLt hwraps buf.batches.length
    rw [← hserved.batches_eq] at hshort
    have hlong := hportions.le_length_delivered n (by rwa [Nat.zero_add])
    have hlength := hbegins.length_le
    omega
  · intro hcondition
    by_cases hwraps : RoundingWraps size remaining multiple
    · have hset := hwraps.1
      rw [taken, if_neg hset] at hdelivered
      have hbefore : (delivered answers).length ≤ lastBegin size remaining := by
        obtain ⟨n, hn⟩ := hportions.exists_length_delivered
        by_contra hbegin
        exact hcondition ⟨hwraps, n, by omega, by omega⟩
      -- only the batches before the last one count, if the last one was read at all
      refine delivered_prefix_stream hserved hportions
        (Nat.min_le_left buf.batches.length ((remaining - 1) / size))
        (fun i hi => planned_full_of_lt (by omega)) ?_
      rw [taken, if_neg hset]
      by_cases hread : buf.batches.length ≤ (remaining - 1) / size
      · rw [Nat.min_eq_left hread]
        exact hdelivered
      · have hlast : min buf.batches.length ((remaining - 1) / size) = (remaining - 1) / size :=
          Nat.min_eq_right (by omega)
        rw [hlast]
        exact Nat.le_min.mpr ⟨by omega, hbefore⟩
    · exact delivered_prefix_stream hserved hportions (Nat.le_refl _)
        (fun i _ => planned_full hsize' hsizeLt hmultipleLt hwraps i) hdelivered

theorem getData_streams_iff_sixBytes :
    Streams (fun i _ => (true, fun j => UInt8.ofNat (4 * i + j))) 4 6 2 [3, 0, 2, 1, 1] ↔
      ¬ (RoundingWraps 4 6 2 ∧
        ∃ n, lastBegin 4 6 < (([3, 0, 2, 1, 1] : List Nat).take n).sum ∧
          (([3, 0, 2, 1, 1] : List Nat).take n).sum ≤ 6) :=
  getData_streams_iff _ (fun _ _ => rfl) 4 6 2 (by decide) [3, 0, 2, 1, 1]

/-- A last batch of three bytes, rounded up to a multiple of `2 ^ 64 - 2`, is asked for with size
zero. -/
theorem not_streams_wrappedMultiple :
    ¬ Streams (fun _ _ => (true, fun _ => 7)) 3 3 (2 ^ 64 - 2) [3] := by
  have hcalls : ImageBuffer.getDataAll (fun _ _ => (true, fun _ => 7))
      { size := 3, remainingSize := 3, lastReadMultiple := 2 ^ 64 - 2 } [3] =
      some ([⟨true, [0, 0, 0]⟩],
        { size := 3
          currSize := 3
          remainingSize := 0
          lastReadMultiple := 2 ^ 64 - 2
          bufferOffset := 3
          buffer := [0, 0, 0]
          batches := [⟨3, 0, []⟩] }) := by
    decide
  rintro ⟨answers, buf, hcalls', -, hbegins, -⟩
  rw [hcalls] at hcalls'
  cases hcalls'
  exact absurd hbegins (by decide)

end SaneBackends.Genesys
