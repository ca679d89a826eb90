import SaneBackends.Lib.Transition
import SaneBackends.Net.SaneRead
import SaneBackends.Saned.ScanOversize
/-!
# The scan data link

The loop of `do_scan` and the `sane_read` calls of a net client of the same byte
order, joined by the data connection. No request is served in between, `select`
and the sockets do not fail, and the backend ends the scan with one bad status.
-/

namespace SaneBackends.Net

open SaneBackends.Lib SaneBackends.Saned

/-- Both ends of a scan. `channel` holds the bytes in flight, `produced` and `final`
what the backend answered, `returned` and `seen` what the client's calls did. -/
structure Link where
  server : ScanLocals
  running : Bool
  channel : List UInt8
  client : NetScanner
  produced : List UInt8
  final : Option SaneStatus
  returned : List UInt8
  seen : Option Int

/-- A turn of the server or a call of the client, with the answers they get. -/
inductive LinkStep where
  | turn (input : ScanInput)
  | call (maxLength : Int) (header answer : ReadResult)

/-- `select` and `write` work, and a bad status comes without data. -/
def Orderly (input : ScanInput) : Prop :=
  (∃ data be, input.select = .ready data be) ∧ input.write ≠ none ∧
    (input.read.1 ≠ .good → input.read.2 = [])

/-- Reads served from the bytes in flight: any prefix of them, end of file only
after the server is done, and no retry for the blocking read of the status. -/
inductive Serves (running : Bool) : List UInt8 → List ReadCall → List UInt8 → Prop where
  | done {ch : List UInt8} : Serves running ch [] ch
  | again {ch ch' : List UInt8} {call : ReadCall} {calls : List ReadCall}
      (hanswer : call.answer = .again) (hkind : call.kind ≠ .status)
      (h : Serves running ch calls ch') : Serves running ch (call :: calls) ch'
  | bytes {bs ch ch' : List UInt8} {call : ReadCall} {calls : List ReadCall}
      (hanswer : call.answer = .bytes bs) (hsome : bs ≠ [] ∨ call.request = 0)
      (h : Serves running ch calls ch') : Serves running (bs ++ ch) (call :: calls) ch'
  | closed {ch' : List UInt8} {call : ReadCall} {calls : List ReadCall}
      (hanswer : call.answer = .bytes []) (hdone : running = false)
      (h : Serves running [] calls ch') : Serves running [] (call :: calls) ch'

/-- The data of a `GOOD` read, if there was one. -/
def goodData : Option (SaneStatus × List UInt8) → List UInt8
  | some (.good, data) => data
  | _ => []

/-- The bad status of a read, if there was one. -/
def badStatus : Option (SaneStatus × List UInt8) → Option SaneStatus
  | some (.good, _) => none
  | some (st, _) => some st
  | none => none

def Link.afterTurn (s : Link) (l : ScanLocals) (out : ScanOutput) : Link :=
  { s with
    server := l
    running := l.continues
    channel := s.channel ++ out.written
    produced := s.produced ++ goodData out.read
    final := s.final.or (badStatus out.read) }

/-- `seen` is the first bad status, since no call is made after one. -/
def Link.afterCall (s : Link) (channel : List UInt8)
    (result : NetScanner × ReadReply × List ReadCall) : Link :=
  { s with
    channel
    client := result.1
    returned := s.returned ++ result.2.1.data
    seen := if result.2.1.status = 0 then none else some result.2.1.status }

/-- The joint system, for a buffer of `bufferSize` bytes. -/
def linkSystem (bufferSize : Nat) : System Link LinkStep where
  init s := ∃ buf fd depth bigEndian,
    s = ⟨.start buf fd, true, [], .start depth bigEndian bigEndian, [], none, [], none⟩
  step s i s' :=
    match i with
    | .turn input =>
        s.running = true ∧ Orderly input ∧
          ∃ l out flow, scanBody bufferSize s.server input = .ok (l, out, flow) ∧
            s' = s.afterTurn l out
    | .call maxLength header answer =>
        s.seen = none ∧ 0 < maxLength ∧
          ∃ channel, Serves s.running s.channel
              (saneRead s.client maxLength header answer).2.2 channel ∧
            s' = s.afterCall channel (saneRead s.client maxLength header answer)

/-- The client has what the backend produced so far or a part of it, and sees a
bad status only as the backend's, after all data. -/
def Link.Faithful (s : Link) : Prop :=
  s.returned <+: s.produced ∧
    ∀ v, s.seen = some v → ∃ st, s.final = some st ∧ v = st.code ∧ s.returned = s.produced

section Server

variable {bufferSize : Nat} (hmin : 9 ≤ bufferSize) (hmax : bufferSize ≤ intMax)

/-- The server between turns of an orderly scan: `pend` is still to be sent. -/
structure Sending (bufferSize : Nat) (l : ScanLocals) (pend : List UInt8) : Prop
    extends Queued bufferSize l pend where
  clean : l.statusDirty = false
  reader : l.status = .good → l.reader = (ringIndex bufferSize l.writer pend.length : Nat)

theorem Sending.continues {l : ScanLocals} {pend : List UInt8} (h : Sending bufferSize l pend) :
    l.continues = true ↔ l.status = .good ∨ pend ≠ [] := by
  have hpos : 0 < l.bytesInBuf ↔ pend ≠ [] := by
    rw [h.bytes, ← List.length_pos_iff]
    omega
  simp [ScanLocals.continues, h.clean, hpos]

include hmin in
theorem Sending.start (buf : Bytes) (fd : Bool) : Sending bufferSize (.start buf fd) [] := by
  have hclean := Clean.start (show 4 ≤ bufferSize by omega) buf fd
  exact ⟨hclean.toQueued, rfl, fun hgood => hclean.reader (.inl hgood)⟩

/-- A part of what is pending goes out. -/
theorem Sending.drain {l : ScanLocals} {pend : List UInt8} (h : Sending bufferSize l pend)
    (accepted : Nat) :
    ∃ n ≤ pend.length, (Saned.drain bufferSize l accepted).2 = pend.take n ∧
      Sending bufferSize (Saned.drain bufferSize l accepted).1 (pend.drop n) ∧
      (0 < accepted → pend ≠ [] → 0 < n) := by
  obtain ⟨n, hn, hsent, hq, hwriter, hpos⟩ := h.toQueued.drain accepted
  refine ⟨n, hn, hsent, ⟨hq, h.clean, fun hgood => ?_⟩, hpos⟩
  rw [hwriter, List.length_drop, ringIndex_add h.writer_lt (by have := h.fits; omega),
    show n + (pend.length - n) = pend.length by omega]
  exact h.reader hgood

include hmin hmax in
/-- A `GOOD` read into the empty buffer makes one record pending. -/
theorem Sending.fill_good {l : ScanLocals} (h : Sending bufferSize l []) (hgood : l.status = .good)
    (data : List UInt8) :
    ∃ l' taken, fill bufferSize l (.good, data) = .ok (l', (.good, taken)) ∧
      taken.length + 4 ≤ bufferSize ∧ l'.status = .good ∧
      Sending bufferSize l' (record taken) := by
  have hreader : l.reader = l.writer := by
    rw [h.reader hgood, List.length_nil, ringIndex_zero h.writer_lt]
  obtain ⟨hd4, hdr⟩ :=
    length_fillData_le bufferSize l.writer (SaneStatus.good, data)
  have hr4 := ringIndex_lt h.writer_lt (show 4 ≤ bufferSize by omega)
  have hfill := fill_eq (show 4 ≤ bufferSize by omega) hmax hreader h.writer_lt
    (by simpa using h.bytes) (.good, data)
  dsimp only at hfill
  rw [if_pos rfl] at hfill
  refine ⟨_, _, hfill, by omega, rfl, ⟨⟨h.writer_lt, ?_, ?_, ?_⟩, h.clean, fun _ => ?_⟩⟩
  · simp [record]; omega
  · simp [record]; omega
  · exact ringHolds_storeRing_storeBlock h.writer_lt (by simp; omega)
      (by simp only [length_reclenBytes]; omega)
  · simp [record]

include hmin hmax in
/-- A bad read without data makes the trailer pending in the same turn, followed by
the four bytes the read was charged for. -/
theorem Sending.fill_bad {l : ScanLocals} (h : Sending bufferSize l []) (hgood : l.status = .good)
    {st : SaneStatus} (hbad : st ≠ .good) :
    ∃ l' l'' junk, fill bufferSize l (st, []) = .ok (l', (st, [])) ∧
      addTrailer bufferSize l' = .ok l'' ∧ l''.status = st ∧ junk.length = 4 ∧
      Sending bufferSize l'' (trailerBytes st ++ junk) := by
  have hreader : l.reader = l.writer := by
    rw [h.reader hgood, List.length_nil, ringIndex_zero h.writer_lt]
  have hdata : fillData bufferSize l.writer (st, []) = [] := by simp [fillData]
  have hfill := fill_eq (show 4 ≤ bufferSize by omega) hmax hreader h.writer_lt
    (by simpa using h.bytes) (st, [])
  dsimp only at hfill
  rw [if_neg hbad, hdata, storeBlock_nil] at hfill
  have htrailer := addTrailer_eq (show 4 ≤ bufferSize by omega) hmax
    (l := { l with
      status := st
      bytesInBuf := (0 : Nat) + 4
      buf := l.buf
      reader := (l.writer : Int)
      statusDirty := true }) rfl h.writer_lt (by simp) (by simp; omega)
  rw [if_pos ⟨rfl, by simp; omega⟩] at htrailer
  obtain ⟨junk, hjunk, hholds⟩ := exists_ringHolds bufferSize
    (storeRing bufferSize l.buf l.writer (trailerBytes st)) (ringIndex bufferSize l.writer 5) 4
  refine ⟨_, _, junk, hfill, htrailer, rfl, hjunk, ⟨⟨h.writer_lt, ?_, ?_, ?_⟩, rfl,
    fun hst => absurd hst hbad⟩⟩
  · simp [hjunk]
  · simp [hjunk]; omega
  · apply (RingHolds.append h.writer_lt (by simp [hjunk]; omega)).2
    exact ⟨ringHolds_storeRing h.writer_lt (by simp; omega), hholds⟩

/-- How an orderly turn goes. -/
inductive TurnEffect (bufferSize : Nat) (l : ScanLocals) (pend : List UInt8) :
    ScanLocals → ScanOutput → Prop where
  | send {l' : ScanLocals} (n : Nat) (hn : n ≤ pend.length) (hst : l'.status = l.status)
      (h : Sending bufferSize l' (pend.drop n)) :
      TurnEffect bufferSize l pend l' ⟨pend.take n, none⟩
  | record {l' : ScanLocals} (data : List UInt8) (hpend : pend = []) (hgood : l.status = .good)
      (hlen : data.length + 4 ≤ bufferSize) (hst : l'.status = .good)
      (h : Sending bufferSize l' (record data)) :
      TurnEffect bufferSize l pend l' ⟨[], some (.good, data)⟩
  | final {l' : ScanLocals} (st : SaneStatus) (junk : List UInt8) (hpend : pend = [])
      (hgood : l.status = .good) (hbad : st ≠ .good) (hst : l'.status = st)
      (h : Sending bufferSize l' (trailerBytes st ++ junk)) :
      TurnEffect bufferSize l pend l' ⟨[], some (st, [])⟩

theorem addTrailer_clean {l : ScanLocals} (h : l.statusDirty = false) :
    addTrailer bufferSize l = .ok l := by
  simp [addTrailer, h]

include hmin hmax in
/-- An orderly turn never faults. -/
theorem Sending.turn {l : ScanLocals} {pend : List UInt8} (h : Sending bufferSize l pend)
    {input : ScanInput} (horderly : Orderly input) :
    ∃ l' out, scanBody bufferSize l input = .ok (l', out, .next) ∧
      TurnEffect bufferSize l pend l' out := by
  obtain ⟨⟨data, be, hselect⟩, hwrite, hread⟩ := horderly
  have hbody : ∀ {l₁ l₂ out}, transfer bufferSize l input data be = .ok (some (l₁, out)) →
      addTrailer bufferSize l₁ = .ok l₂ →
      scanBody bufferSize l input = .ok (l₂, out, .next) := by
    intro l₁ l₂ out htransfer htrailer
    simp only [scanBody, hselect, htransfer, ok_bind, htrailer]
    rfl
  have hidle : TurnEffect bufferSize l pend l ⟨[], none⟩ := by
    have heffect : TurnEffect bufferSize l pend l ⟨pend.take 0, none⟩ :=
      .send 0 (Nat.zero_le _) rfl (by rw [List.drop_zero]; exact h)
    rwa [List.take_zero] at heffect
  by_cases hbytes : l.bytesInBuf = 0
  · have hempty : pend = [] := by
      apply List.eq_nil_of_length_eq_zero
      have := h.bytes
      omega
    subst hempty
    by_cases hfill : l.status = .good ∧ (l.polling ∨ be)
    · rcases hanswer : input.read with ⟨status, bytes⟩
      by_cases hgood : status = .good
      · subst hgood
        obtain ⟨l', taken, hfilled, hlen, hst, h'⟩ := h.fill_good hmin hmax hfill.1 bytes
        exact ⟨l', _, hbody (by simp [transfer, hbytes, hfill, hanswer, hfilled])
          (addTrailer_clean h'.clean), .record taken rfl hfill.1 hlen hst h'⟩
      · obtain rfl : bytes = [] := by simpa [hanswer] using hread (by rw [hanswer]; exact hgood)
        obtain ⟨l', l'', junk, hfilled, htrailer, hst, -, h''⟩ :=
          h.fill_bad hmin hmax hfill.1 hgood
        exact ⟨l'', _, hbody (by simp [transfer, hbytes, hfill, hanswer, hfilled])
          htrailer, .final status junk rfl hfill.1 hgood hst h''⟩
    · exact ⟨l, _, hbody (by simp [transfer, hbytes, hfill]) (addTrailer_clean h.clean), hidle⟩
  · by_cases hdata : data = true
    · obtain ⟨accepted, haccepted⟩ := Option.ne_none_iff_exists'.1 hwrite
      obtain ⟨n, hn, hsent, h', -⟩ := h.drain accepted
      have hpos : 0 < l.bytesInBuf := by
        have := h.bytes
        omega
      refine ⟨_, ⟨(Saned.drain bufferSize l accepted).2, none⟩, hbody
        (by simp [transfer, hbytes, hdata, hpos, haccepted]) (addTrailer_clean h'.clean), ?_⟩
      rw [hsent]
      exact .send n hn rfl h'
    · exact ⟨l, _, hbody (by simp [transfer, hbytes, hdata]) (addTrailer_clean h.clean), hidle⟩

/-- A turn in which the socket takes at least one byte. -/
theorem Sending.send_some {l : ScanLocals} {pend : List UInt8} (h : Sending bufferSize l pend)
    (hne : pend ≠ []) :
    ∃ l' n, 0 < n ∧ n ≤ pend.length ∧ l'.status = l.status ∧
      Sending bufferSize l' (pend.drop n) ∧
      scanBody bufferSize l (ScanTurn.send 1).input = .ok (l', ⟨pend.take n, none⟩, .next) := by
  obtain ⟨n, hn, hsent, h', hpos⟩ := h.drain 1
  have hbytes : l.bytesInBuf ≠ 0 ∧ 0 < l.bytesInBuf := by
    have := h.bytes
    have := List.length_pos_iff.2 hne
    omega
  refine ⟨(Saned.drain bufferSize l 1).1, n, hpos (by omega) hne, hn, rfl, h', ?_⟩
  simp [scanBody, ScanTurn.send, transfer, hbytes, ok_bind, addTrailer_clean h'.clean, hsent]

/-- A turn in which the backend ends the scan. -/
def ScanInput.eof : ScanInput := ⟨.ready false true, some 0, .eof, []⟩

include hmin hmax in
theorem Sending.end_scan {l : ScanLocals} (h : Sending bufferSize l []) (hgood : l.status = .good) :
    ∃ l' junk, junk.length = 4 ∧ l'.status = .eof ∧
      Sending bufferSize l' (trailerBytes .eof ++ junk) ∧
      scanBody bufferSize l ScanInput.eof = .ok (l', ⟨[], some (.eof, [])⟩, .next) := by
  obtain ⟨l', l'', junk, hfilled, htrailer, hst, hjunk, h''⟩ :=
    h.fill_bad hmin hmax hgood (show SaneStatus.eof ≠ .good by decide)
  refine ⟨l'', junk, hjunk, hst, h'', ?_⟩
  have hbytes : l.bytesInBuf = 0 := by simpa using h.bytes
  simp [scanBody, ScanInput.eof, transfer, hbytes, hgood, hfilled, ok_bind, htrailer]

end Server

section Client

theorem Serves.nil_eq {running : Bool} {ch ch' : List UInt8} (h : Serves running ch [] ch') :
    ch' = ch := by
  cases h
  rfl

theorem Serves.cons_again {running : Bool} {ch ch' : List UInt8} {kind : ReadKind} {request : Nat}
    {calls : List ReadCall} (h : Serves running ch (⟨kind, request, .again⟩ :: calls) ch') :
    kind ≠ .status ∧ Serves running ch calls ch' := by
  cases h with
  | again hanswer hkind h => exact ⟨hkind, h⟩
  | bytes hanswer => cases hanswer
  | closed hanswer => cases hanswer

theorem Serves.not_failed {running : Bool} {ch ch' : List UInt8} {kind : ReadKind} {request : Nat}
    {calls : List ReadCall} : ¬ Serves running ch (⟨kind, request, .failed⟩ :: calls) ch' := by
  intro h
  cases h with
  | again hanswer => cases hanswer
  | bytes hanswer => cases hanswer
  | closed hanswer => cases hanswer

theorem Serves.cons_bytes {running : Bool} {ch ch' bs : List UInt8} {kind : ReadKind}
    {request : Nat} {calls : List ReadCall}
    (h : Serves running ch (⟨kind, request, .bytes bs⟩ :: calls) ch') :
    ∃ ch₁, ch = bs ++ ch₁ ∧ Serves running ch₁ calls ch' ∧
      (bs ≠ [] ∨ request = 0 ∨ running = false ∧ ch = []) := by
  cases h with
  | again hanswer => cases hanswer
  | bytes hanswer hsome h =>
      cases hanswer
      exact ⟨_, rfl, h, hsome.imp_right .inl⟩
  | closed hanswer hdone h =>
      cases hanswer
      exact ⟨[], rfl, h, .inr (.inr ⟨hdone, rfl⟩)⟩

theorem reclenValue_reclenBytes {n : Nat} (hn : n < 2 ^ 32) : reclenValue (reclenBytes n) = n := by
  have hor : ∀ a b k : Nat, b < 2 ^ k → a <<< k ||| b = a * 2 ^ k + b := by
    intro a b k hb
    rw [← Nat.shiftLeft_add_eq_or_of_lt hb, Nat.shiftLeft_eq]
  have hbyte : ∀ k, (reclenByte n k).toNat = n / 2 ^ k % 256 := by
    intro k
    simp [reclenByte, Nat.shiftRight_eq_div_pow]
  simp only [reclenValue, reclenBytes, hbyte, Nat.or_assoc, Nat.shiftLeft_zero]
  rw [hor _ _ 8 (by omega), hor _ _ 16 (by omega), hor _ _ 24 (by omega)]
  omega

/-- A read inside a record of which `n` bytes remain. -/
theorem readRecord_eq {c : NetScanner} (horder : c.swaps = false) {n : Nat}
    (hremaining : c.bytesRemaining = n) (hn : n < 2 ^ 31) {maxLength : Int} (hmax : 0 < maxLength)
    (answer : ReadResult) :
    ∃ request ≤ n, (0 < n → 0 < request) ∧ (maxLength = n → request = n) ∧
      readRecord c maxLength answer =
        match answer.cut request with
        | .again => (c, .of .good [], [⟨.payload, request, .again⟩])
        | .failed => (doCancel c, .of .ioError [], [⟨.payload, request, .failed⟩])
        | .bytes bs =>
            ({ c with bytesRemaining := n - bs.length }, .of .good bs,
              [⟨.payload, request, .bytes bs⟩]) := by
  have hint : toInt32 c.bytesRemaining = n := by
    rw [hremaining]
    exact toInt32_eq_self (by omega) (by omega)
  have hrequest : toSize (if (n : Int) < maxLength then (n : Int) else maxLength) ≤ n ∧
      (0 < n → 0 < toSize (if (n : Int) < maxLength then (n : Int) else maxLength)) ∧
      (maxLength = n → toSize (if (n : Int) < maxLength then (n : Int) else maxLength) = n) := by
    unfold toSize
    split_ifs <;> omega
  refine ⟨_, hrequest.1, hrequest.2.1, hrequest.2.2, ?_⟩
  unfold readRecord
  dsimp only
  rw [hint]
  generalize hr : toSize (if (n : Int) < maxLength then (n : Int) else maxLength) = request at *
  cases answer with
  | again => rfl
  | failed => rfl
  | bytes full =>
      have hlen : (full.take request).length ≤ n := by
        rw [List.length_take]
        omega
      have hsub : toSize ((c.bytesRemaining : Int) - (full.take request).length) =
          n - (full.take request).length := by
        rw [hremaining]
        unfold toSize
        omega
      have hconvert : ∀ (c' : NetScanner) (bs : List UInt8), c'.swaps = false →
          convert c' bs = (c', bs) := by
        intro c' bs h
        simp [convert, h]
      simp only [ReadResult.cut]
      rw [hsub, hconvert]
      exact horder

end Client

/-- The joint state while the client waits for more: what is on its way is the rest
`cur` of the record it is in, the records of `chunks`, and `tail`. -/
structure Flowing (bufferSize : Nat) (s : Link) (pend cur : List UInt8)
    (chunks : List (List UInt8)) (tail : List UInt8) : Prop where
  sending : Sending bufferSize s.server pend
  running : s.running = s.server.continues
  pipe : s.client.data = true
  sameOrder : s.client.swaps = false
  header : s.client.reclenBuf.length < 4
  remaining : s.client.bytesRemaining = cur.length
  between : cur ≠ [] → s.client.reclenBuf = []
  wire : s.client.reclenBuf ++ s.channel ++ pend = cur ++ chunks.flatMap record ++ tail
  short : ∀ c ∈ cur :: chunks, c.length < 2 ^ 31
  produced : s.produced = s.returned ++ cur ++ chunks.flatten
  ending : s.final = none ∧ s.server.status = .good ∧ tail = [] ∨
    ∃ st junk, s.final = some st ∧ s.server.status = st ∧ st ≠ .good ∧
      tail = trailerBytes st ++ junk
  seen : s.seen = none

/-- The joint state once the client has the backend's status. -/
structure Over (bufferSize : Nat) (s : Link) (pend : List UInt8) (st : SaneStatus) : Prop where
  sending : Sending bufferSize s.server pend
  final : s.final = some st
  bad : s.server.status ≠ .good
  seen : s.seen = some (st.code : Int)
  returned : s.returned = s.produced

def LinkInv (bufferSize : Nat) (s : Link) : Prop :=
  (∃ pend cur chunks tail, Flowing bufferSize s pend cur chunks tail) ∨
    ∃ pend st, Over bufferSize s pend st

theorem LinkInv.faithful {bufferSize : Nat} {s : Link} (h : LinkInv bufferSize s) :
    s.Faithful := by
  obtain ⟨pend, cur, chunks, tail, h⟩ | ⟨pend, st, h⟩ := h
  · refine ⟨?_, fun v hv => ?_⟩
    · rw [h.produced, List.append_assoc]
      exact List.prefix_append _ _
    · rw [h.seen] at hv
      cases hv
  · refine ⟨by rw [h.returned], fun v hv => ⟨st, h.final, ?_, h.returned⟩⟩
    rw [h.seen, Option.some.injEq] at hv
    exact hv.symm

section Steps

variable {bufferSize : Nat} (hmin : 9 ≤ bufferSize) (hmax : bufferSize ≤ intMax)

include hmax in
/-- What a turn does to the stream between backend and client. -/
theorem Flowing.turn {s : Link} {pend cur tail : List UInt8} {chunks : List (List UInt8)}
    (h : Flowing bufferSize s pend cur chunks tail) {l : ScanLocals} {out : ScanOutput}
    (heffect : TurnEffect bufferSize s.server pend l out) :
    ∃ pend' chunks' tail', Flowing bufferSize (s.afterTurn l out) pend' cur chunks' tail' := by
  unfold intMax at hmax
  cases heffect with
  | send n hn hst h' =>
      refine ⟨pend.drop n, chunks, tail, h', rfl, h.pipe, h.sameOrder, h.header, h.remaining,
        h.between, ?_, h.short, ?_, ?_, h.seen⟩
      · have hwire := h.wire
        rw [← List.take_append_drop n pend] at hwire
        simpa only [Link.afterTurn, List.append_assoc] using hwire
      · simpa [Link.afterTurn, goodData] using h.produced
      · simpa [Link.afterTurn, badStatus, hst] using h.ending
  | record data hpend hgood hlen hst h' =>
      have hnone : s.final = none ∧ tail = [] := by
        obtain ⟨hfinal, -, htail⟩ | ⟨st, junk, -, hserver, hbad, -⟩ := h.ending
        · exact ⟨hfinal, htail⟩
        · exact absurd (hserver.symm.trans hgood) hbad
      refine ⟨Saned.record data, chunks ++ [data], [], h', rfl, h.pipe, h.sameOrder, h.header,
        h.remaining, h.between, ?_, ?_, ?_, 
        .inl ⟨by simp [Link.afterTurn, hnone.1, badStatus], hst, rfl⟩, h.seen⟩
      · have hwire := h.wire
        rw [hpend, hnone.2, List.append_nil, List.append_nil] at hwire
        simp only [Link.afterTurn, List.append_nil, hwire, List.flatMap_append,
          List.flatMap_singleton, List.append_assoc]
      · intro c hc
        rw [← List.cons_append, List.mem_append] at hc
        obtain hc | hc := hc
        · exact h.short c hc
        · rw [List.mem_singleton.1 hc]
          omega
      · simp [Link.afterTurn, h.produced, goodData]
  | final st junk hpend hgood hbad hst h' =>
      have hnone : s.final = none ∧ tail = [] := by
        obtain ⟨hfinal, -, htail⟩ | ⟨st, junk, -, hserver, hbad, -⟩ := h.ending
        · exact ⟨hfinal, htail⟩
        · exact absurd (hserver.symm.trans hgood) hbad
      have hread : goodData (some (st, [])) = [] ∧ badStatus (some (st, [])) = some st := by
        cases st <;> first | exact absurd rfl hbad | exact ⟨rfl, rfl⟩
      refine ⟨trailerBytes st ++ junk, chunks, trailerBytes st ++ junk, h', rfl, h.pipe,
        h.sameOrder, h.header, h.remaining, h.between, ?_, h.short, ?_,
        .inr ⟨st, junk, ?_, hst, hbad, rfl⟩, h.seen⟩
      · have hwire := h.wire
        rw [hpend, hnone.2, List.append_nil, List.append_nil] at hwire
        simp only [Link.afterTurn, List.append_nil, hwire]
      · simpa [Link.afterTurn, hread.1] using h.produced
      · simp [Link.afterTurn, hnone.1, hread.2]

/-- After the client has its status the server only sends. -/
theorem Over.turn {s : Link} {pend : List UInt8} {st : SaneStatus} (h : Over bufferSize s pend st)
    {l : ScanLocals} {out : ScanOutput} (heffect : TurnEffect bufferSize s.server pend l out) :
    ∃ pend', Over bufferSize (s.afterTurn l out) pend' st := by
  cases heffect with
  | send n hn hst h' =>
      exact ⟨pend.drop n, h', by simp [Link.afterTurn, h.final],
        by simpa [Link.afterTurn, hst] using h.bad, h.seen,
        by simpa [Link.afterTurn, goodData] using h.returned⟩
  | record data hpend hgood => exact absurd hgood h.bad
  | final st junk hpend hgood => exact absurd hgood h.bad

/-- A read inside a record hands on the next bytes of the record. -/
theorem Flowing.readRecord {s : Link} {pend cur tail : List UInt8} {chunks : List (List UInt8)}
    (h : Flowing bufferSize s pend cur chunks tail) (hbetween : s.client.reclenBuf = [])
    {maxLength : Int} (hmaxLength : 0 < maxLength) {answer : ReadResult} {channel : List UInt8}
    (hserves : Serves s.running s.channel (Net.readRecord s.client maxLength answer).2.2 channel) :
    ∃ cur', Flowing bufferSize (s.afterCall channel (Net.readRecord s.client maxLength answer))
      pend cur' chunks tail := by
  obtain ⟨request, hle, -, -, heq⟩ := readRecord_eq h.sameOrder h.remaining
    (h.short cur (List.mem_cons_self ..)) hmaxLength answer
  rw [heq] at hserves ⊢
  cases hcut : answer.cut request with
  | again =>
      rw [hcut] at hserves
      obtain ⟨-, hrest⟩ := hserves.cons_again
      obtain rfl := hrest.nil_eq
      refine ⟨cur, h.sending, h.running, h.pipe, h.sameOrder, h.header, h.remaining, h.between,
        h.wire, h.short, ?_, h.ending, rfl⟩
      simpa [Link.afterCall, ReadReply.of] using h.produced
  | failed =>
      rw [hcut] at hserves
      exact absurd hserves Serves.not_failed
  | bytes bs =>
      rw [hcut] at hserves
      obtain ⟨ch₁, hch, hrest, -⟩ := hserves.cons_bytes
      obtain rfl := hrest.nil_eq
      have hlen : bs.length ≤ cur.length := by
        cases answer with
        | again => cases hcut
        | failed => cases hcut
        | bytes full =>
            cases hcut
            rw [List.length_take]
            omega
      have hwire := h.wire
      rw [hbetween, hch, List.nil_append, List.append_assoc, List.append_assoc] at hwire
      obtain ⟨rest, rfl⟩ : ∃ rest, cur = bs ++ rest := by
        have hleads := List.prefix_of_prefix_length_le
          (List.prefix_append bs (channel ++ pend)) (hwire ▸ List.prefix_append cur _) hlen
        obtain ⟨rest, hrest⟩ := hleads
        exact ⟨rest, hrest.symm⟩
      rw [List.append_assoc] at hwire
      refine ⟨rest, h.sending, h.running, h.pipe, h.sameOrder, h.header, ?_, fun _ => hbetween, ?_,
        ?_, ?_, h.ending, rfl⟩
      · simp [Link.afterCall]
      · rw [List.append_assoc rest]
        simpa [Link.afterCall, hbetween] using List.append_cancel_left hwire
      · intro c hc
        obtain rfl | hc := List.mem_cons.1 hc
        · have := h.short _ (List.mem_cons_self ..)
          rw [List.length_append] at this
          omega
        · exact h.short c (List.mem_cons_of_mem _ hc)
      · simpa [Link.afterCall, ReadReply.of] using h.produced

theorem statusOfChar_byte (st : SaneStatus) : statusOfChar st.byte = st.code := by
  cases st <;> decide

theorem SaneStatus_code_ne_zero {st : SaneStatus} (h : st ≠ .good) : (st.code : Int) ≠ 0 := by
  revert h
  cases st <;> decide

theorem ReadResult.length_of_cut {r : ReadResult} {request : Nat} {bs : List UInt8}
    (h : r.cut request = .bytes bs) : bs.length ≤ request := by
  cases r with
  | again => cases h
  | failed => cases h
  | bytes full =>
      cases h
      rw [List.length_take]
      omega

/-- The read of the status byte, right behind the trailer's length. -/
theorem Flowing.readStatus {s : Link} {pend : List UInt8} {st : SaneStatus} {junk ch₁ : List UInt8}
    (hsending : Sending bufferSize s.server pend) (hrunning : s.running = s.server.continues)
    (hfinal : s.final = some st) (hserver : s.server.status = st) (hbad : st ≠ .good)
    (hproduced : s.produced = s.returned) (hwire : ch₁ ++ pend = st.byte :: junk)
    {client : NetScanner} {answer : ReadResult} {calls : List ReadCall} {channel : List UInt8}
    (hserves : Serves s.running ch₁ (Net.readStatus client answer).2.2 channel) :
    Over bufferSize (s.afterCall channel
      ((Net.readStatus client answer).1, (Net.readStatus client answer).2.1, calls)) pend st := by
  unfold Net.readStatus at hserves ⊢
  dsimp only at hserves ⊢
  cases hcut : answer.cut 1 with
  | again =>
      rw [hcut] at hserves
      exact absurd rfl hserves.cons_again.1
  | failed =>
      rw [hcut] at hserves
      exact absurd hserves Serves.not_failed
  | bytes bs =>
      rw [hcut] at hserves
      obtain ⟨ch₂, hch, -, hsome⟩ := hserves.cons_bytes
      have hlen := ReadResult.length_of_cut hcut
      have hne : bs ≠ [] := by
        obtain hne | hone | ⟨hstopped, hempty⟩ := hsome
        · exact hne
        · cases hone
        · -- a server that is done has nothing left to send, but the status is missing
          have hpend : pend = [] := by
            by_contra hpend
            rw [hsending.continues.2 (.inr hpend)] at hrunning
            rw [hrunning] at hstopped
            cases hstopped
          rw [hempty, hpend] at hwire
          cases hwire
      obtain ⟨b, rfl⟩ : ∃ b, bs = [b] := List.length_eq_one_iff.1 (by
        have := List.length_pos_iff.2 hne
        omega)
      rw [hch, List.append_assoc, List.singleton_append, List.cons.injEq] at hwire
      rw [hwire.1]
      dsimp only
      refine ⟨hsending, hfinal, by rw [← hserver] at hbad; exact hbad, ?_, ?_⟩
      · simp only [Link.afterCall, statusOfChar_byte]
        rw [if_neg (SaneStatus_code_ne_zero hbad)]
      · simp [Link.afterCall, hproduced]

/-- What a call of the client does to the stream. -/
theorem Flowing.call {s : Link} {pend cur tail : List UInt8} {chunks : List (List UInt8)}
    (h : Flowing bufferSize s pend cur chunks tail) {maxLength : Int} (hmaxLength : 0 < maxLength)
    {header answer : ReadResult} {channel : List UInt8}
    (hserves : Serves s.running s.channel (saneRead s.client maxLength header answer).2.2 channel) :
    LinkInv bufferSize (s.afterCall channel (saneRead s.client maxLength header answer)) := by
  have hpipe : saneRead s.client maxLength header answer =
      readPipe s.client maxLength header answer := by
    simp [saneRead, h.sameOrder]
  rw [hpipe] at hserves ⊢
  unfold readPipe at hserves ⊢
  have hopen : ¬ (!s.client.data) = true := by simp [h.pipe]
  rw [if_neg hopen] at hserves ⊢
  by_cases hremaining : s.client.bytesRemaining = 0
  · obtain rfl : cur = [] := List.eq_nil_of_length_eq_zero (h.remaining ▸ hremaining)
    rw [if_pos hremaining] at hserves ⊢
    dsimp only at hserves ⊢
    cases hcut : header.cut (4 - s.client.reclenBuf.length) with
    | again =>
        rw [hcut] at hserves
        obtain rfl := hserves.cons_again.2.nil_eq
        refine .inl ⟨pend, [], chunks, tail, h.sending, h.running, h.pipe, h.sameOrder, h.header,
          h.remaining, h.between, h.wire, h.short, ?_, h.ending, rfl⟩
        simpa [Link.afterCall, ReadReply.of] using h.produced
    | failed =>
        rw [hcut] at hserves
        exact absurd hserves Serves.not_failed
    | bytes bs =>
        rw [hcut] at hserves
        have hlen := ReadResult.length_of_cut hcut
        have hheader := h.header
        have hproduced : s.produced = s.returned ++ chunks.flatten := by
          simpa using h.produced
        have hwire := h.wire
        by_cases hshort : (s.client.reclenBuf ++ bs).length < 4
        · simp only [hshort, if_true] at hserves ⊢
          obtain ⟨ch₁, hch, hrest, -⟩ := hserves.cons_bytes
          obtain rfl := hrest.nil_eq
          refine .inl ⟨pend, [], chunks, tail, h.sending, h.running, h.pipe, h.sameOrder, hshort,
            h.remaining, fun hne => absurd rfl hne, ?_, h.short, ?_, h.ending, rfl⟩
          · rw [hch] at hwire
            simpa [Link.afterCall] using hwire
          · simpa [Link.afterCall, ReadReply.of] using hproduced
        · simp only [hshort, if_false] at hserves ⊢
          obtain ⟨ch₁, hch, hrest, -⟩ := hserves.cons_bytes
          rw [hch, List.append_assoc, List.append_assoc, List.nil_append, ← List.append_assoc]
            at hwire
          have hfour : (s.client.reclenBuf ++ bs).length = 4 := by
            rw [List.length_append] at hshort ⊢
            omega
          cases chunks with
          | cons c cs =>
              have hsplit : s.client.reclenBuf ++ bs = reclenBytes c.length ∧
                  ch₁ ++ pend = c ++ (cs.flatMap record ++ tail) := by
                rw [List.flatMap_cons, record, List.append_assoc (reclenBytes _ ++ c),
                  List.append_assoc (reclenBytes _)] at hwire
                exact List.append_inj hwire hfour
              have hc := h.short c (by simp)
              rw [hsplit.1, reclenValue_reclenBytes (by omega), if_neg (by omega)] at hrest ⊢
              have h₁ : Flowing bufferSize { s with
                  channel := ch₁
                  client := { s.client with reclenBuf := [], bytesRemaining := c.length } }
                  pend c cs tail := by
                refine ⟨h.sending, h.running, h.pipe, h.sameOrder, by simp, rfl, fun _ => rfl, ?_,
                  fun c' hc' => h.short c' (List.mem_cons_of_mem _ hc'), ?_, h.ending, h.seen⟩
                · simpa using hsplit.2
                · simpa using hproduced
              obtain ⟨cur', h'⟩ := h₁.readRecord rfl hmaxLength hrest
              exact .inl ⟨pend, cur', cs, tail, h'⟩
          | nil =>
              obtain ⟨-, -, htail⟩ | ⟨st, junk, hfinal, hserver, hbad, htail⟩ := h.ending
              · rw [htail, List.flatMap_nil, List.append_nil] at hwire
                have hnil := (List.append_eq_nil_iff.1 hwire).1
                rw [hnil] at hfour
                cases hfour
              · have hsplit : s.client.reclenBuf ++ bs = reclenBytes 0xffffffff ∧
                    ch₁ ++ pend = st.byte :: junk := by
                  rw [htail, List.flatMap_nil, List.nil_append, trailerBytes,
                    List.append_assoc (reclenBytes _)] at hwire
                  exact List.append_inj hwire hfour
                rw [hsplit.1, reclenValue_reclenBytes (by omega), if_pos rfl] at hrest ⊢
                exact .inr ⟨pend, st, Flowing.readStatus h.sending h.running hfinal hserver hbad
                  (by simpa using hproduced) hsplit.2 hrest⟩
  · have hne : cur ≠ [] := by
      rintro rfl
      exact hremaining h.remaining
    rw [if_neg hremaining] at hserves ⊢
    obtain ⟨cur', h'⟩ := h.readRecord (h.between hne) hmaxLength hserves
    exact .inl ⟨pend, cur', chunks, tail, h'⟩

include hmin hmax in
theorem linkInv_of_reachable {s : Link} (h : (linkSystem bufferSize).Reachable s) :
    LinkInv bufferSize s := by
  apply h.invariant
  · rintro s ⟨buf, fd, depth, bigEndian, rfl⟩
    refine .inl ⟨[], [], [], [], Sending.start hmin buf fd, rfl, rfl, ?_,
      by simp [NetScanner.start], rfl, fun hne => absurd rfl hne, rfl, ?_, rfl,
      .inl ⟨rfl, rfl, rfl⟩, rfl⟩
    · simp [NetScanner.swaps, NetScanner.start]
    · intro c hc
      rw [List.mem_singleton.1 hc]
      decide
  · intro s i s' _ hinv _ hstep
    cases i with
    | turn input =>
        obtain ⟨-, horderly, l, out, flow, hbody, rfl⟩ := hstep
        have heffect : ∀ pend, Sending bufferSize s.server pend →
            TurnEffect bufferSize s.server pend l out := by
          intro pend hsending
          obtain ⟨l', out', hbody', heffect⟩ := hsending.turn hmin hmax horderly
          rw [hbody', Except.ok.injEq, Prod.mk.injEq, Prod.mk.injEq] at hbody
          obtain ⟨rfl, rfl, -⟩ := hbody
          exact heffect
        obtain ⟨pend, cur, chunks, tail, h⟩ | ⟨pend, st, h⟩ := hinv
        · obtain ⟨pend', chunks', tail', h'⟩ := h.turn hmax (heffect pend h.sending)
          exact .inl ⟨pend', cur, chunks', tail', h'⟩
        · obtain ⟨pend', h'⟩ := h.turn (heffect pend h.sending)
          exact .inr ⟨pend', st, h'⟩
    | call maxLength header answer =>
        obtain ⟨hseen, hmaxLength, channel, hserves, rfl⟩ := hstep
        obtain ⟨pend, cur, chunks, tail, h⟩ | ⟨pend, st, h⟩ := hinv
        · exact h.call hmaxLength hserves
        · rw [h.seen] at hseen
          cases hseen

/-- Once the server is done a call can take something off the connection. -/
theorem Flowing.exists_call {s : Link} {cur junk : List UInt8} {chunks : List (List UInt8)}
    {st : SaneStatus} (h : Flowing bufferSize s [] cur chunks (trailerBytes st ++ junk)) :
    ∃ header answer channel, channel.length < s.channel.length ∧
      Serves s.running s.channel (saneRead s.client 1 header answer).2.2 channel := by
  have hpipe : ∀ header answer, saneRead s.client 1 header answer =
      readPipe s.client 1 header answer := by
    intro header answer
    simp [saneRead, h.sameOrder]
  have hopen : ¬ (!s.client.data) = true := by simp [h.pipe]
  have hwire := h.wire
  rw [List.append_nil] at hwire
  by_cases hremaining : s.client.bytesRemaining = 0
  · -- the header completes, and what follows it is read only for the status
    have hheader := h.header
    have hlong : 5 ≤ s.client.reclenBuf.length + s.channel.length := by
      rw [← List.length_append, hwire]
      simp only [List.length_append, length_trailerBytes]
      omega
    obtain ⟨bs, b, rest, hchannel, hbs⟩ : ∃ bs b rest, s.channel = bs ++ b :: rest ∧
        bs.length = 4 - s.client.reclenBuf.length := by
      have hlt : 4 - s.client.reclenBuf.length < s.channel.length := by omega
      refine ⟨s.channel.take (4 - s.client.reclenBuf.length), s.channel[4 - s.client.reclenBuf.length],
        s.channel.drop (4 - s.client.reclenBuf.length + 1), ?_, ?_⟩
      · rw [List.getElem_cons_drop, List.take_append_drop]
      · rw [List.length_take]
        omega
    have hcut : (ReadResult.bytes bs).cut (4 - s.client.reclenBuf.length) = .bytes bs := by
      rw [ReadResult.cut, ← hbs, List.take_length]
    have hshort : ¬ (s.client.reclenBuf ++ bs).length < 4 := by
      rw [List.length_append]
      omega
    have hne : bs ≠ [] := by
      rintro rfl
      rw [List.length_nil] at hbs
      omega
    by_cases htrailer : reclenValue (s.client.reclenBuf ++ bs) = 0xffffffff
    · refine ⟨.bytes bs, .bytes [b], rest, by rw [hchannel]; simp; omega, ?_⟩
      rw [hpipe, readPipe, if_neg hopen, if_pos hremaining, hchannel]
      simp only [hcut, hshort, if_false, htrailer, if_true]
      have hstatus : Serves s.running ([b] ++ rest) [⟨.status, 1, .bytes [b]⟩] rest :=
        .bytes rfl (.inl (by simp)) .done
      exact .bytes rfl (.inl hne) hstatus
    · refine ⟨.bytes bs, .again, b :: rest, ?_, ?_⟩
      · rw [hchannel, List.length_append]
        have := List.length_pos_iff.2 hne
        omega
      · rw [hpipe, readPipe, if_neg hopen, if_pos hremaining, hchannel]
        simp only [hcut, hshort, if_false, htrailer]
        exact .bytes rfl (.inl hne) (.again rfl (by simp) .done)
  · obtain ⟨b, rest, rfl⟩ : ∃ b rest, cur = b :: rest := by
      cases cur with
      | nil => exact absurd h.remaining hremaining
      | cons b rest => exact ⟨b, rest, rfl⟩
    rw [h.between (by simp), List.nil_append] at hwire
    obtain ⟨request, -, hpos, -, heq⟩ := readRecord_eq h.sameOrder h.remaining
      (h.short _ (List.mem_cons_self ..)) (show (0 : Int) < 1 by omega) (.bytes [b])
    have hcut : (ReadResult.bytes [b]).cut request = .bytes [b] := by
      rw [ReadResult.cut, List.take_of_length_le (hpos (by simp))]
    rw [hcut] at heq
    refine ⟨.again, .bytes [b], rest ++ (chunks.flatMap record ++ (trailerBytes st ++ junk)), ?_, ?_⟩
    · rw [hwire]
      simp
    · rw [hpipe, readPipe, if_neg hopen, if_neg hremaining, heq, hwire, List.append_assoc]
      have hbyte : Serves s.running
          ([b] ++ (rest ++ (chunks.flatMap record ++ (trailerBytes st ++ junk))))
          [⟨.payload, request, .bytes [b]⟩]
          (rest ++ (chunks.flatMap record ++ (trailerBytes st ++ junk))) :=
        .bytes rfl (.inl (by simp)) .done
      exact hbyte

/-- What is left to do for both ends of a scan. -/
def Link.left (s : Link) : Nat :=
  (if s.server.status = .good then 19 else 0) + 2 * s.server.bytesInBuf.toNat + s.channel.length

include hmin hmax in
/-- As long as the client has not seen a bad status, the scan can go on towards it. -/
theorem Flowing.progress {s : Link} {pend cur tail : List UInt8} {chunks : List (List UInt8)}
    (h : Flowing bufferSize s pend cur chunks tail) :
    ∃ i s', (linkSystem bufferSize).step s i s' ∧ LinkInv bufferSize s' ∧ s'.left < s.left := by
  have hbytes := h.sending.bytes
  by_cases hpend : pend = []
  · subst hpend
    obtain ⟨-, hgood, -⟩ | ⟨st, junk, -, hserver, hbad, rfl⟩ := h.ending
    · have hrunning : s.running = true := by
        rw [h.running, h.sending.continues]
        exact .inl hgood
      obtain ⟨l, junk, hjunk, hst, h', hbody⟩ := h.sending.end_scan hmin hmax hgood
      have horderly : Orderly ScanInput.eof :=
        ⟨⟨false, true, rfl⟩, by simp [ScanInput.eof], by simp [ScanInput.eof]⟩
      obtain ⟨pend', chunks', tail', hflow⟩ :=
        h.turn hmax (.final .eof junk rfl hgood (by decide) hst h')
      refine ⟨.turn ScanInput.eof, _, ⟨hrunning, horderly, l, _, _, hbody, rfl⟩,
        .inl ⟨pend', cur, chunks', tail', hflow⟩, ?_⟩
      have hbytes' := h'.bytes
      rw [List.length_append, length_trailerBytes, hjunk] at hbytes'
      simp only [Link.left, Link.afterTurn, hst, hgood, List.append_nil, if_true]
      rw [if_neg (by decide)]
      omega
    · obtain ⟨header, answer, channel, hlt, hserves⟩ := h.exists_call
      refine ⟨.call 1 header answer, _, ⟨h.seen, by omega, channel, hserves, rfl⟩,
        h.call (by omega) hserves, ?_⟩
      change (if s.server.status = .good then 19 else 0) + 2 * s.server.bytesInBuf.toNat +
        channel.length < s.left
      unfold Link.left
      omega
  · have hrunning : s.running = true := by
      rw [h.running, h.sending.continues]
      exact .inr hpend
    obtain ⟨l, n, hpos, hn, hst, h', hbody⟩ := h.sending.send_some hpend
    have horderly : Orderly (ScanTurn.send 1).input :=
      ⟨⟨true, false, rfl⟩, by simp [ScanTurn.send], by simp [ScanTurn.send]⟩
    obtain ⟨pend', chunks', tail', hflow⟩ := h.turn hmax (.send n hn hst h')
    refine ⟨.turn (ScanTurn.send 1).input, _, ⟨hrunning, horderly, l, _, _, hbody, rfl⟩,
      .inl ⟨pend', cur, chunks', tail', hflow⟩, ?_⟩
    have hbytes' := h'.bytes
    rw [List.length_drop] at hbytes'
    simp only [Link.left, Link.afterTurn, hst, List.length_append, List.length_take]
    omega

include hmin hmax in
/-- From every state met by the joint system the client can still get to see a bad
status. -/
theorem exists_seen_of_reachable {s : Link} (h : (linkSystem bufferSize).Reachable s) :
    ∃ s', (linkSystem bufferSize).Leads s s' ∧ s'.seen ≠ none := by
  have hstep : ∀ s : Link, LinkInv bufferSize s → ¬ s.seen ≠ none →
      ∃ i s', (linkSystem bufferSize).step s i s' ∧ LinkInv bufferSize s' ∧ s'.left < s.left := by
    intro s hinv hgoal
    obtain ⟨pend, cur, chunks, tail, hflow⟩ | ⟨pend, st, hover⟩ := hinv
    · exact hflow.progress hmin hmax
    · exact absurd (by simp [hover.seen]) hgoal
  obtain ⟨s', hleads, -, hseen⟩ :=
    System.leads_of_measure Link.left hstep (linkInv_of_reachable hmin hmax h)
  exact ⟨s', hleads, hseen⟩

end Steps

end SaneBackends.Net
