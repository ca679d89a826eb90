import SaneBackends.Net.ReadBounds
/-!
# The end of the data connection in `sane_read`

A `read` that returns 0 is taken for one that brought no bytes yet. Only the read of the status
byte tells the end of the connection from that, so before the trailer it goes unreported, and
a frontend that asks again gets the same answer for ever.
-/

namespace SaneBackends.Net

open SaneBackends.Lib

/-- A `read` for at least a byte of a record or of its header that finds the connection
closed. -/
def ReadCall.AtEnd (call : ReadCall) : Prop :=
  call.kind ≠ .status ∧ 0 < call.request ∧ call.answer = .bytes []

/-- A call in which the connection is found closed before the trailer. -/
def Call.FindsClosed (s : NetScanner) (c : Call) : Prop :=
  ∃ call ∈ (saneRead s c.maxLength c.header c.answer).2.2, call.AtEnd

/-- A call during which the connection is closed. -/
def Call.Closed (c : Call) : Prop := c.header = .bytes [] ∧ c.answer = .bytes []

/-- What successive calls return. -/
def replies : NetScanner → List Call → List ReadReply
  | _, [] => []
  | s, c :: cs =>
      let (s, reply, _) := saneRead s c.maxLength c.header c.answer
      reply :: replies s cs

/-- What holds between two calls: the header is incomplete, the count is a `size_t`. -/
structure NetScanner.WellFormed (s : NetScanner) : Prop where
  header : s.reclenBuf.length < 4
  size : s.bytesRemaining < 2 ^ 64

/-- An open scan that waits for data, with no byte left over. -/
structure NetScanner.Waits (s : NetScanner) : Prop extends s.WellFormed where
  opened : s.data = true
  noLeftOver : s.swaps = true → s.leftOver = none

theorem convert_empty (s : NetScanner) : convert s [] = (s, []) := by
  cases hswaps : s.swaps with
  | true => exact convert_nil hswaps
  | false =>
      unfold convert
      rw [hswaps]
      rfl

theorem convert_reclenBuf (s : NetScanner) (bs : List UInt8) :
    (convert s bs).1.reclenBuf = s.reclenBuf := by
  unfold convert
  dsimp only
  split
  · rfl
  · cases s.hangOver with
    | some hang =>
        dsimp only
        split_ifs <;> rfl
    | none =>
        dsimp only
        split_ifs <;> rfl

theorem toSize_lt (x : Int) : toSize x < 2 ^ 64 := by
  unfold toSize
  omega

theorem readRecord_wellFormed {s : NetScanner} (h : s.WellFormed) (maxLength : Int)
    (answer : ReadResult) : (readRecord s maxLength answer).1.WellFormed := by
  unfold readRecord
  dsimp only
  generalize answer.cut _ = taken
  cases taken with
  | again => exact h
  | failed => exact ⟨h.header, h.size⟩
  | bytes bs =>
      dsimp only
      refine ⟨?_, ?_⟩
      · rw [convert_reclenBuf]
        exact h.header
      · rw [convert_bytesRemaining]
        exact toSize_lt _

theorem readPipe_wellFormed {s : NetScanner} (h : s.WellFormed) (maxLength : Int)
    (header answer : ReadResult) : (readPipe s maxLength header answer).1.WellFormed := by
  unfold readPipe
  split_ifs with hclosed hnew
  · exact h
  · dsimp only
    generalize header.cut _ = taken
    cases taken with
    | again => exact h
    | failed => exact ⟨h.header, h.size⟩
    | bytes bs =>
        have hsize : reclenValue (s.reclenBuf ++ bs) < 2 ^ 64 :=
          (reclenValue_lt _).trans (by decide)
        dsimp only
        split_ifs with hpart htrailer
        · exact ⟨hpart, h.size⟩
        · exact ⟨by simp [readStatus, doCancel], by simpa [readStatus, doCancel] using hsize⟩
        · exact readRecord_wellFormed (s := { s with reclenBuf := [], bytesRemaining := _ })
            ⟨Nat.zero_lt_succ 3, hsize⟩ maxLength answer
  · exact readRecord_wellFormed h maxLength answer

theorem saneRead_wellFormed {s : NetScanner} (h : s.WellFormed) (maxLength : Int)
    (header answer : ReadResult) : (saneRead s maxLength header answer).1.WellFormed := by
  unfold saneRead
  split_ifs
  · split
    · exact ⟨h.header, h.size⟩
    · exact readPipe_wellFormed h maxLength header answer
  · exact readPipe_wellFormed h maxLength header answer

theorem runCalls_wellFormed {s : NetScanner} (h : s.WellFormed) (calls : List Call) :
    (runCalls s calls).scanner.WellFormed := by
  induction calls generalizing s with
  | nil => exact h
  | cons c cs ih => exact ih (saneRead_wellFormed h c.maxLength c.header c.answer)

/-- Inside a record the end of the connection is an empty piece of the record. -/
theorem readRecord_empty {s : NetScanner} (hs : s.bytesRemaining < 2 ^ 64) {maxLength : Int}
    {answer : ReadResult}
    (hcut : answer.cut (payloadRequest s.bytesRemaining maxLength) = .bytes []) :
    (readRecord s maxLength answer).1 = s ∧ (readRecord s maxLength answer).2.1 = .of .good [] := by
  have hkept : toSize (s.bytesRemaining - (([] : List UInt8).length : Nat)) =
      s.bytesRemaining := by
    unfold toSize
    simp only [List.length_nil]
    omega
  unfold payloadRequest at hcut
  unfold readRecord
  dsimp only
  rw [hcut]
  dsimp only
  rw [hkept, convert_empty]
  exact ⟨rfl, rfl⟩

theorem readRecord_atEnd {s : NetScanner} (hs : s.bytesRemaining < 2 ^ 64) {maxLength : Int}
    {answer : ReadResult} {call : ReadCall} (hcall : call ∈ (readRecord s maxLength answer).2.2)
    (hend : call.AtEnd) :
    (readRecord s maxLength answer).1 = s ∧ (readRecord s maxLength answer).2.1 = .of .good [] := by
  rw [(readRecord_request s maxLength answer).1] at hcall
  obtain rfl := List.mem_singleton.mp hcall
  exact readRecord_empty hs hend.2.2

/-- A header read that brings nothing completes no header. -/
theorem readPipe_headerAtEnd {s : NetScanner} {maxLength : Int} {header answer : ReadResult}
    (hdata : s.data = true) (hnew : s.bytesRemaining = 0) (hpart : s.reclenBuf.length < 4)
    (hheader : header.cut (4 - s.reclenBuf.length) = .bytes []) :
    readPipe s maxLength header answer =
      (s, .of .good [], [⟨.header, 4 - s.reclenBuf.length, .bytes []⟩]) := by
  unfold readPipe
  rw [if_neg (by simp [hdata]), if_pos hnew]
  dsimp only
  rw [hheader]
  dsimp only
  rw [List.append_nil, if_pos hpart]

/-- A header read that brings no bytes is the only read of the call. -/
theorem readPipe_headerFails {s : NetScanner} {maxLength : Int} {header answer : ReadResult}
    (hdata : s.data = true) (hnew : s.bytesRemaining = 0)
    (hnone : ∀ bs, header.cut (4 - s.reclenBuf.length) ≠ .bytes bs) :
    (readPipe s maxLength header answer).2.2 =
      [⟨.header, 4 - s.reclenBuf.length, header.cut (4 - s.reclenBuf.length)⟩] := by
  unfold readPipe
  rw [if_neg (by simp [hdata]), if_pos hnew]
  dsimp only
  cases hheader : header.cut (4 - s.reclenBuf.length) with
  | again => rfl
  | failed => rfl
  | bytes bs => exact absurd hheader (hnone bs)

/-- The pipe is found closed: `GOOD` with no data, and the scan waits as before. -/
theorem readPipe_atEnd {s : NetScanner} (h : s.WellFormed)
    (hleft : s.swaps = true → s.leftOver = none) {maxLength : Int} {header answer : ReadResult}
    {call : ReadCall} (hcall : call ∈ (readPipe s maxLength header answer).2.2)
    (hend : call.AtEnd) :
    (readPipe s maxLength header answer).2.1 = .of .good [] ∧
      (readPipe s maxLength header answer).1.Waits := by
  by_cases hdata : s.data = true
  · have hwaits : s.Waits := ⟨h, hdata, hleft⟩
    by_cases hnew : s.bytesRemaining = 0
    · cases hheader : header.cut (4 - s.reclenBuf.length) with
      | again | failed =>
          rw [readPipe_headerFails hdata hnew (by simp [hheader])] at hcall
          obtain rfl := List.mem_singleton.mp hcall
          rw [hheader] at hend
          cases hend.2.2
      | bytes bs =>
          cases bs with
          | nil =>
              rw [readPipe_headerAtEnd hdata hnew h.header hheader]
              exact ⟨rfl, hwaits⟩
          | cons b bs =>
              have hsize : reclenValue (s.reclenBuf ++ b :: bs) < 2 ^ 64 :=
                (reclenValue_lt _).trans (by decide)
              -- the header read brought bytes, so the closed one is the next
              have hnot : call ≠ ⟨.header, 4 - s.reclenBuf.length, .bytes (b :: bs)⟩ := by
                rintro rfl
                cases hend.2.2
              unfold readPipe at hcall ⊢
              rw [if_neg (by simp [hdata]), if_pos hnew] at hcall ⊢
              dsimp only at hcall ⊢
              rw [hheader] at hcall ⊢
              dsimp only at hcall ⊢
              split_ifs at hcall ⊢ with hpart htrailer
              · exact absurd (List.mem_singleton.mp hcall) hnot
              · cases List.mem_cons.mp hcall with
                | inl hfirst => exact absurd hfirst hnot
                | inr hstatus =>
                    obtain rfl := List.mem_singleton.mp hstatus
                    exact absurd rfl hend.1
              · cases List.mem_cons.mp hcall with
                | inl hfirst => exact absurd hfirst hnot
                | inr hrecord =>
                    obtain ⟨hsame, hreply⟩ := readRecord_atEnd hsize hrecord hend
                    dsimp only
                    rw [hsame]
                    exact ⟨hreply, ⟨Nat.zero_lt_succ 3, hsize⟩, hdata, hleft⟩
    · unfold readPipe at hcall ⊢
      rw [if_neg (by simp [hdata]), if_neg hnew] at hcall ⊢
      obtain ⟨hsame, hreply⟩ := readRecord_atEnd h.size hcall hend
      rw [hsame]
      exact ⟨hreply, hwaits⟩
  · unfold readPipe at hcall
    rw [if_pos (by simpa using hdata)] at hcall
    cases hcall

theorem saneRead_atEnd {s : NetScanner} (h : s.WellFormed) {c : Call} (hend : c.FindsClosed s) :
    (saneRead s c.maxLength c.header c.answer).2.1 = .of .good [] ∧
      (saneRead s c.maxLength c.header c.answer).1.Waits := by
  obtain ⟨call, hcall, hend⟩ := hend
  unfold saneRead at hcall ⊢
  by_cases hswaps : s.swaps = true
  · rw [if_pos hswaps] at hcall ⊢
    cases hleft : s.leftOver with
    | some b =>
        rw [hleft] at hcall
        cases hcall
    | none =>
        rw [hleft] at hcall
        exact readPipe_atEnd h (fun _ => hleft) hcall hend
  · rw [if_neg hswaps] at hcall ⊢
    exact readPipe_atEnd h (fun hs => absurd hs hswaps) hcall hend

/-- A scan that waits keeps waiting on a closed connection. -/
theorem saneRead_closed {s : NetScanner} (h : s.Waits) {c : Call} (hclosed : c.Closed) :
    saneRead s c.maxLength c.header c.answer = (s, .of .good [],
      (saneRead s c.maxLength c.header c.answer).2.2) := by
  have hpipe : (readPipe s c.maxLength c.header c.answer).1 = s ∧
      (readPipe s c.maxLength c.header c.answer).2.1 = .of .good [] := by
    by_cases hnew : s.bytesRemaining = 0
    · rw [readPipe_headerAtEnd h.opened hnew h.header (by simp [hclosed.1, ReadResult.cut])]
      exact ⟨rfl, rfl⟩
    · unfold readPipe
      rw [if_neg (by simp [h.opened]), if_neg hnew]
      exact readRecord_empty h.size (by simp [hclosed.2, ReadResult.cut])
  unfold saneRead
  by_cases hswaps : s.swaps = true
  · rw [if_pos hswaps, h.noLeftOver hswaps]
    exact Prod.ext hpipe.1 (Prod.ext hpipe.2 rfl)
  · rw [if_neg hswaps]
    exact Prod.ext hpipe.1 (Prod.ext hpipe.2 rfl)

theorem replies_closed {s : NetScanner} (h : s.Waits) {calls : List Call}
    (hclosed : ∀ c ∈ calls, c.Closed) : ∀ reply ∈ replies s calls, reply = .of .good [] := by
  induction calls with
  | nil => simp [replies]
  | cons c cs ih =>
      intro reply hreply
      rw [replies, saneRead_closed h (hclosed c (.head _))] at hreply
      cases List.mem_cons.mp hreply with
      | inl hfirst => exact hfirst
      | inr hrest => exact ih (fun c hc => hclosed c (.tail _ hc)) reply hrest

/-- At whatever point of a scan the connection is found closed before the trailer, the call
returns `GOOD` with no data, and so does every call after it. -/
theorem endOfData_good (depth : Nat) (server client : Bool) (before : List Call) (c : Call)
    (hend : c.FindsClosed (runCalls (.start depth server client) before).scanner) :
    let out := saneRead (runCalls (.start depth server client) before).scanner
      c.maxLength c.header c.answer
    out.2.1 = .of .good [] ∧
      ∀ after : List Call, (∀ c ∈ after, c.Closed) →
        ∀ reply ∈ replies out.1 after, reply = .of .good [] := by
  have hstart : (NetScanner.start depth server client).WellFormed :=
    ⟨Nat.zero_lt_succ 3, Nat.two_pow_pos 64⟩
  obtain ⟨hreply, hwaits⟩ := saneRead_atEnd (runCalls_wellFormed hstart before) hend
  exact ⟨hreply, fun after hafter => replies_closed hwaits hafter⟩

/-- Closed after two of the three bytes of a record. -/
theorem endOfData_good_insideRecord :
    let s := (runCalls (.start 8 false false) [⟨9, .bytes [0, 0, 0, 3], .bytes [1, 2]⟩]).scanner
    (saneRead s 9 .again (.bytes [])).2.1 = .of .good [] ∧
      ∀ after : List Call, (∀ c ∈ after, c.Closed) →
        ∀ reply ∈ replies (saneRead s 9 .again (.bytes [])).1 after, reply = .of .good [] :=
  endOfData_good 8 false false [⟨9, .bytes [0, 0, 0, 3], .bytes [1, 2]⟩] ⟨9, .again, .bytes []⟩
    ⟨⟨.payload, 1, .bytes []⟩, by decide +kernel, by decide, by decide, rfl⟩

/-- The status of a call that finds the connection closed before the trailer is not always
another than `GOOD`: at the very start of a scan it is `GOOD`. -/
theorem not_endOfData_reported :
    ¬ ∀ (before : List Call) (c : Call),
      c.FindsClosed (runCalls (.start 8 false false) before).scanner →
        (saneRead (runCalls (.start 8 false false) before).scanner c.maxLength c.header
          c.answer).2.1.status ≠ SaneStatus.good.code := by
  intro h
  have hreported := h [] ⟨32768, .bytes [], .again⟩
    ⟨⟨.header, 4, .bytes []⟩, by decide, by decide, by decide, rfl⟩
  exact hreported (by decide)

end SaneBackends.Net
