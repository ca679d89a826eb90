import SaneBackends.Dell.Responses
import SaneBackends.Lib.Frames
/-!
# `dell1600n_net.c`: a session as a stream of messages

What the messages of a scanner say, and that `ProcessTcpResponse` does it, wherever the connection
cuts the stream.
-/

namespace SaneBackends.Dell

open SaneBackends.Lib

/-! ## Messages -/

/-- An item as the scanner sends it; a chunk of scan data comes behind its value, with six bytes and
its size in front. -/
structure SentItem where
  type : UInt8
  name : List UInt8
  valueType : UInt8
  value : List UInt8
  chunk : Option (List UInt8 × List UInt8)
  deriving DecidableEq, Repr

def chunkBytes : Option (List UInt8 × List UInt8) → List UInt8
  | none => []
  | some (head, data) => head ++ htons data.length ++ data

def SentItem.bytes (item : SentItem) : List UInt8 :=
  [item.type] ++ htons item.name.length ++ item.name ++ [item.valueType] ++
    htons item.value.length ++ item.value ++ chunkBytes item.chunk

/-- What follows the value is what the use of the value asks for. -/
def Use.Given (value : List UInt8) (chunk : Option (List UInt8 × List UInt8)) : Use → Prop
  | .nothing => chunk = none
  | .value n => n ≤ value.length ∧ chunk = none
  | .chunk => ∃ head data, chunk = some (head, data) ∧ head.length = 6 ∧ data.length < 65536

/-- The sizes can be said in two bytes, and there is what the name asks for. -/
structure SentItem.Good (item : SentItem) : Prop where
  name : item.name.length < 65536
  value : item.value.length < 65536
  given : (tcpUse item.name).Given item.value item.chunk

structure Message where
  type : UInt8
  items : List SentItem
  deriving DecidableEq, Repr

def Message.body (m : Message) : List UInt8 := (m.items.map SentItem.bytes).flatten

def Message.bytes (m : Message) : List UInt8 :=
  [2, 0, m.type, 2, 0, 0] ++ htons m.body.length ++ m.body

structure Message.Good (m : Message) : Prop where
  items : ∀ item ∈ m.items, item.Good
  size : m.body.length < 65536

/-! ## What they say -/

/-- What an item says to a session. -/
def SentItem.apply (item : SentItem) (s : TcpLoop) : TcpLoop :=
  let scanner := s.scanner
  match tcpName item.name with
  | some .sessionOpen =>
      { s with scanner := scanner.send (response "std-scan-session-open-response") }
  | some .getclientpref => { s with scanner := scanner.send (preferences scanner) }
  | some .documentStart =>
      { s with scanner := scanner.send (response "std-scan-document-start-response") }
  | some .documentFileType => { s with scanner := { scanner with fileType := item.value.take 4 } }
  | some .documentImageCompression =>
      { s with scanner := { scanner with compression := item.value.take 4 } }
  | some .documentXresolution => { s with scanner := { scanner with xres := item.value.take 2 } }
  | some .documentYresolution => { s with scanner := { scanner with yres := item.value.take 2 } }
  | some .pageWidthpixel => { s with scanner := { scanner with pixelWidth := item.value.take 4 } }
  | some .pageHeightpixel => { s with scanner := { scanner with pixelHeight := item.value.take 4 } }
  | some .pageStart =>
      { s with
        scanner := { scanner.send (response "std-scan-page-start-response") with
          buf := [], currentPageBytes := 0, pixelWidth := [0, 0, 0, 0]
          pixelHeight := [0, 0, 0, 0] } }
  | some .pageEnd => ⟨scanner.send (response "std-scan-page-end-response"), true⟩
  | some .documentEnd =>
      { s with
        scanner := { scanner.send (response "std-scan-document-end-response") with buf := [] } }
  | some .sessionEnd =>
      { s with
        scanner := { scanner.send (response "std-scan-session-end-response") with
          shutDown := true } }
  | some .scandataError =>
      { s with
        scanner := { scanner with
          buf := scanner.buf ++ (item.chunk.elim [] Prod.snd) } }
  | none => s

/-- What a message says, with whether its page could not be processed. -/
def Message.apply (processPageData : ScannerState → ScannerState × Nat) (s : ScannerState)
    (m : Message) : ScannerState × Bool :=
  let loop := m.items.foldl (fun s item => item.apply s) { scanner := s }
  if loop.bProcessImage then
    let page := processPageData loop.scanner
    (page.1, page.2 ≠ 0)
  else (loop.scanner, false)

/-! ## Items in memory -/

section Memory

variable {memory : Nat → UInt8} {p : Nat}

/-- The bytes lie in memory from `p` on. -/
def LiesAt (memory : Nat → UInt8) (p : Nat) (bytes : List UInt8) : Prop :=
  slice memory p bytes.length = bytes

theorem liesAt_append {l l' : List UInt8} :
    LiesAt memory p (l ++ l') ↔ LiesAt memory p l ∧ LiesAt memory (p + l.length) l' := by
  rw [LiesAt, List.length_append, slice_add]
  constructor
  · intro h
    exact List.append_inj h (slice_length memory p l.length)
  · intro h
    rw [show slice memory p l.length = l from h.1,
      show slice memory (p + l.length) l'.length = l' from h.2]

theorem htons_length (n : Nat) : (htons n).length = 2 := rfl

theorem shortAt_htons {n : Nat} (hn : n < 65536) (h : LiesAt memory p (htons n)) :
    shortAt memory p = n := by
  have hcells : [memory (p + 0), memory (p + 1)] = [UInt8.ofNat (n / 256), UInt8.ofNat n] := h
  obtain ⟨hhigh, hlow, -⟩ : memory (p + 0) = UInt8.ofNat (n / 256) ∧ memory (p + 1) = UInt8.ofNat n ∧
    True := by simpa using hcells
  rw [Nat.add_zero] at hhigh
  rw [shortAt, hhigh, hlow, UInt8.toNat_ofNat', UInt8.toNat_ofNat']
  omega

/-- What is known of an item in memory. -/
structure ItemAt (memory : Nat → UInt8) (p : Nat) (sent : SentItem) : Prop where
  name : (readItem memory p).name memory = sent.name
  valueSize : (readItem memory p).valueSize = sent.value.length
  value : LiesAt memory (readItem memory p).pValue sent.value
  chunk : LiesAt memory (readItem memory p).next (chunkBytes sent.chunk)
  length : (readItem memory p).next + (chunkBytes sent.chunk).length = p + sent.bytes.length

theorem itemAt_of_liesAt {sent : SentItem} (hgood : sent.Good) (h : LiesAt memory p sent.bytes) :
    ItemAt memory p sent := by
  rw [SentItem.bytes] at h
  simp only [liesAt_append, List.length_append, List.length_singleton, htons_length] at h
  obtain ⟨⟨⟨⟨⟨⟨-, hnameSize⟩, hname⟩, -⟩, hvalueSize⟩, hvalue⟩, hchunk⟩ := h
  have hsize : (readItem memory p).nameSize = sent.name.length := shortAt_htons hgood.name hnameSize
  have hpValue : (readItem memory p).pValue = p + 6 + sent.name.length := by
    change p + 3 + (readItem memory p).nameSize + 3 = _
    rw [hsize]
    omega
  have hvalueSize' : (readItem memory p).valueSize = sent.value.length := by
    refine shortAt_htons hgood.value ?_
    change LiesAt memory (p + 3 + (readItem memory p).nameSize + 1) _
    rw [hsize]
    convert hvalueSize using 1
    omega
  have hnext : (readItem memory p).next = p + 6 + sent.name.length + sent.value.length := by
    rw [Item.next, hpValue, hvalueSize']
  refine ⟨?_, hvalueSize', ?_, ?_, ?_⟩
  · rw [Item.name, hsize]
    exact hname
  · rw [hpValue]
    convert hvalue using 1
    omega
  · rw [hnext]
    convert hchunk using 1
    omega
  · rw [hnext, SentItem.bytes]
    simp only [List.length_append, List.length_singleton, htons_length]
    omega

/-- An item is done as it says, and the loop goes on behind it. -/
theorem tcpItem_sent {sent : SentItem} (hgood : sent.Good) (h : LiesAt memory p sent.bytes)
    (s : TcpLoop) :
    (tcpItem memory (readItem memory p) s).state = sent.apply s ∧
    (tcpItem memory (readItem memory p) s).result = none ∧
    (readItem memory p).next + (tcpItem memory (readItem memory p) s).skip =
      p + sent.bytes.length := by
  have hitem := itemAt_of_liesAt hgood h
  obtain ⟨-, hskip, hresult⟩ := tcpItem_handled memory (readItem memory p) s
  have hgiven := hgood.given
  rw [hitem.name] at hskip
  refine ⟨?_, hresult, ?_⟩
  · have htake {n : Nat} (hn : n ≤ sent.value.length) :
        slice memory (readItem memory p).pValue n = sent.value.take n := by
      rw [← show slice memory _ sent.value.length = sent.value from hitem.value, take_slice memory _ hn]
    rw [tcpItem, SentItem.apply, hitem.name]
    rw [tcpUse] at hgiven
    cases hname : tcpName sent.name with
    | none => rfl
    | some name =>
        rw [hname] at hgiven
        cases name with
        | scandataError =>
            obtain ⟨head, data, hchunk, hhead, hdata⟩ := hgiven
            have hlies := hitem.chunk
            rw [hchunk, chunkBytes, liesAt_append, liesAt_append, List.length_append, hhead,
              htons_length] at hlies
            dsimp only
            rw [shortAt_htons hdata hlies.1.2, hchunk]
            congr 3
            exact hlies.2
        | documentFileType | documentImageCompression | documentXresolution | documentYresolution
          | pageWidthpixel | pageHeightpixel =>
            dsimp only [copyItem]
            rw [htake hgiven.1]
        | _ => rfl
  · rw [hskip, ← hitem.length]
    congr 1
    cases huse : tcpUse sent.name with
    | nothing =>
        rw [huse] at hgiven
        rw [show sent.chunk = none from hgiven]
        rfl
    | value n =>
        rw [huse] at hgiven
        rw [hgiven.2]
        rfl
    | chunk =>
        rw [huse] at hgiven
        obtain ⟨head, data, hchunk, hhead, hdata⟩ := hgiven
        have hlies := hitem.chunk
        rw [hchunk, chunkBytes, liesAt_append, liesAt_append, hhead] at hlies
        rw [Use.skip, Item.chunkSize, shortAt_htons hdata hlies.1.2, hchunk, chunkBytes,
          List.length_append, List.length_append, hhead, htons_length]

/-- The loop does what the items say, one after another. -/
theorem itemLoop_sent (items : List SentItem) (hgood : ∀ item ∈ items, item.Good)
    (h : LiesAt memory p ((items.map SentItem.bytes).flatten)) (s : TcpLoop) :
    (itemLoop memory (tcpItem memory) (p + ((items.map SentItem.bytes).flatten).length) p s).state =
      items.foldl (fun s item => item.apply s) s := by
  induction items generalizing p s with
  | nil => exact congrArg Run.state (itemLoop_done (Nat.lt_irrefl p) s)
  | cons item items ih =>
      have hitem := hgood item List.mem_cons_self
      rw [List.map_cons, List.flatten_cons, liesAt_append] at h
      obtain ⟨hstate, hresult, hnext⟩ := tcpItem_sent hitem h.1 s
      have hpos : 0 < item.bytes.length := by
        rw [SentItem.bytes]
        simp only [List.length_append, List.length_singleton]
        omega
      rw [List.map_cons, List.flatten_cons, List.length_append, itemLoop,
        if_pos (show p < p + (item.bytes.length + _) by omega)]
      dsimp only
      rw [hresult]
      dsimp only
      rw [hnext, hstate, ← Nat.add_assoc, List.foldl_cons]
      exact ih (fun i hi => hgood i (List.mem_cons_of_mem item hi)) h.2 (item.apply s)

theorem liesAt_memoryOf (before bytes behind : List UInt8) (stale : Nat → UInt8) :
    LiesAt (memoryOf (before ++ bytes ++ behind) stale) before.length bytes := by
  apply List.ext_getElem
  · rw [slice_length]
  · intro i hi hi'
    have hthere : before.length + i < (before ++ bytes ++ behind).length := by
      simp only [List.length_append]
      omega
    have hcell : memoryOf (before ++ bytes ++ behind) stale (before.length + i) = bytes[i] := by
      rw [memoryOf, List.getD_eq_getElem?_getD, List.getElem?_eq_getElem hthere, Option.getD_some]
      rw [List.getElem_append_left (by rw [List.length_append]; omega),
        List.getElem_append_right (Nat.le_add_right _ i)]
      congr 1
      exact Nat.add_sub_cancel_left ..
    rw [← hcell]
    simp [slice]

end Memory

/-! ## Messages that are received -/

section Received

variable {m : Message} (processPageData : ScannerState → ScannerState × Nat)
  (stale : List UInt8 → Nat → UInt8)

theorem Message.bytes_length (m : Message) : m.bytes.length = 8 + m.body.length := by
  rw [Message.bytes, List.length_append]
  rfl

theorem messageSize_bytes (hgood : m.Good) (rest : List UInt8) :
    messageSize (m.bytes ++ rest) = m.body.length := by
  have hsize : messageSize (m.bytes ++ rest) =
      (UInt8.ofNat (m.body.length / 256)).toNat * 256 + (UInt8.ofNat m.body.length).toNat := rfl
  have := hgood.size
  rw [hsize, UInt8.toNat_ofNat', UInt8.toNat_ofNat']
  omega

theorem messageIsComplete_bytes (hgood : m.Good) (rest : List UInt8) :
    messageIsComplete (m.bytes ++ rest) = true := by
  rw [complete_iff, messageSize_bytes hgood, List.length_append, m.bytes_length]
  omega

/-- The beginning of a message is not complete. -/
theorem messageIsComplete_beginning (hgood : m.Good) {p q : List UInt8} (h : m.bytes = p ++ q)
    (hq : q ≠ []) : messageIsComplete p = false := by
  have hlength := congrArg List.length h
  rw [m.bytes_length, List.length_append] at hlength
  have hpos := List.length_pos_of_ne_nil hq
  rw [← Bool.not_eq_true, complete_iff]
  intro hcomplete
  obtain ⟨h8, hall⟩ := hcomplete
  have hsame : messageSize p = messageSize (m.bytes ++ []) := by
    rw [List.append_nil, h, messageSize, messageSize, sizeAt, sizeAt,
      List.getD_eq_getElem?_getD, List.getD_eq_getElem?_getD, List.getD_eq_getElem?_getD,
      List.getD_eq_getElem?_getD, List.getElem?_append_left (by omega),
      List.getElem?_append_left (by omega)]
  rw [hsame, messageSize_bytes hgood] at hall
  omega

/-- A message is done as it says, and what comes behind it is left. -/
theorem processTcpResponse_bytes (hgood : m.Good) (s : ScannerState) (rest : List UInt8)
    (stale : Nat → UInt8) :
    (processTcpResponse processPageData s (m.bytes ++ rest) stale).scanner =
        (m.apply processPageData s).1 ∧
      (processTcpResponse processPageData s (m.bytes ++ rest) stale).tcpBuf = rest ∧
      ((processTcpResponse processPageData s (m.bytes ++ rest) stale).errorCheck ≠ 0 ↔
        (m.apply processPageData s).2 = true) := by
  have hlies := liesAt_memoryOf ([2, 0, m.type, 2, 0, 0] ++ htons m.body.length) m.body rest stale
  have hloop := itemLoop_sent m.items hgood.items hlies { scanner := s }
  have hpop : popFromComBuf (m.bytes ++ rest) (m.body.length + 8) = rest := by
    rw [popFromComBuf, Nat.add_comm, ← m.bytes_length]
    exact List.drop_left
  rw [processTcpResponse, if_pos (messageIsComplete_bytes hgood rest), messageSize_bytes hgood,
    Message.apply]
  dsimp only
  have hstate : (itemLoop (memoryOf (m.bytes ++ rest) stale)
      (tcpItem (memoryOf (m.bytes ++ rest) stale)) (8 + m.body.length) 8 { scanner := s }).state =
      m.items.foldl (fun s item => item.apply s) { scanner := s } := hloop
  rw [hstate, hpop]
  split_ifs with hpage
  · refine ⟨rfl, rfl, ?_⟩
    rw [decide_eq_true_iff]
  · exact ⟨rfl, rfl, by simp⟩

/-- `processAvailable`, as a reader of messages. -/
def available (s : ScannerState) (tcpBuf : List UInt8) : Received ScannerState UInt8 :=
  let session := processAvailable processPageData stale s tcpBuf
  ⟨session.scanner, session.tcpBuf, session.failed⟩

theorem available_framed : Framed Message.Good Message.bytes (Message.apply processPageData)
    (available processPageData stale) where
  nothing s := by
    rw [available, processAvailable, if_pos rfl]
  message s m rest hgood := by
    obtain ⟨hscanner, hrest, herror⟩ :=
      processTcpResponse_bytes processPageData hgood s rest (stale (m.bytes ++ rest))
    have hlength : (m.bytes ++ rest).length ≠ rest.length := by
      rw [List.length_append, m.bytes_length]
      omega
    have hne : m.bytes ++ rest ≠ [] := by
      intro hnil
      rw [hnil] at hlength
      have := congrArg List.length hnil
      rw [List.length_append, m.bytes_length, List.length_nil] at this
      omega
    rw [available, processAvailable, if_neg hne]
    dsimp only
    simp only [hscanner, hrest, herror]
    split_ifs with hfailed hsame
    · rfl
    · exact absurd hsame.symm hlength
    · rfl
  incomplete s m p q hgood h hq := by
    have hincomplete := messageIsComplete_beginning hgood h hq
    rw [available, processAvailable]
    by_cases hnil : p = []
    · rw [if_pos hnil]
    · have hcalled : processTcpResponse processPageData s p (stale p) =
          ⟨s, p, 0, headerSpans p⟩ := if_neg (by rw [hincomplete]; exact Bool.false_ne_true)
      rw [if_neg hnil]
      dsimp only
      simp only [hcalled]
      rw [if_neg (not_not_intro rfl), dif_pos trivial]

theorem tcpReadLoop_eq (session : TcpSession) (reads : List (List UInt8))
    (hreads : ∀ read ∈ reads, read ≠ []) :
    readPieces (available processPageData stale)
        ⟨session.scanner, session.tcpBuf, session.failed⟩ reads =
      ⟨(tcpReadLoop processPageData stale session reads).scanner,
        (tcpReadLoop processPageData stale session reads).tcpBuf,
        (tcpReadLoop processPageData stale session reads).failed⟩ := by
  induction reads generalizing session with
  | nil => rfl
  | cons read reads ih =>
      cases read with
      | nil => exact absurd rfl (hreads [] List.mem_cons_self)
      | cons b chunk =>
          rw [readPieces, tcpReadLoop, available]
          dsimp only
          split_ifs with hfailed
          · rfl
          · exact ih _ fun read hread => hreads read (List.mem_cons_of_mem _ hread)

/-- Where nothing is read, nothing was sent. -/
theorem unread {reads : List (List UInt8)} {ms : List Message}
    (hstream : reads.flatten = streamOf Message.bytes ms) (hnil : reads = []) : ms = [] := by
  cases ms with
  | nil => rfl
  | cons m ms =>
      have hlength := congrArg List.length hstream
      rw [hnil, streamOf, List.map_cons, List.flatten_cons, List.length_append,
        m.bytes_length] at hlength
      rw [List.flatten_nil, List.length_nil] at hlength
      omega

/-- Wherever the connection cuts the stream of the scanner's messages, the session does what the
messages say, one after another, up to the first whose page cannot be processed; if there is none,
nothing is left over. -/
theorem session_delivers (s : ScannerState) (ms : List Message) (hgood : ∀ m ∈ ms, m.Good)
    (reads : List (List UInt8)) (hreads : ∀ read ∈ reads, read ≠ [])
    (hstream : reads.flatten = streamOf Message.bytes ms) :
    let session := tcpReadLoop processPageData stale ⟨s, [], false⟩ reads
    (session.scanner, session.failed) = runMessages (Message.apply processPageData) s ms ∧
      (session.failed = false → session.tcpBuf = []) := by
  obtain ⟨hstate, hfailed, hkept⟩ := (available_framed processPageData stale).readPieces_eq hgood
    reads (show (Received.mk s [] false).failed = false from rfl) hstream (unread hstream)
  rw [tcpReadLoop_eq processPageData stale ⟨s, [], false⟩ reads hreads] at hstate hfailed hkept
  exact ⟨Prod.ext hstate hfailed, hkept⟩

/-- The resolution comes in two reads. -/
theorem resolution_delivers :
    let m : Message := ⟨2, [⟨34, ascii "std-scan-document-xresolution", 4, [1, 44], none⟩]⟩
    let session := tcpReadLoop (fun s => (s, 0)) (fun _ _ => 0) ⟨default, [], false⟩
      [m.bytes.take 20, m.bytes.drop 20]
    (session.scanner, session.failed) = runMessages (Message.apply fun s => (s, 0)) default [m] ∧
      (session.failed = false → session.tcpBuf = []) := by
  have huse : tcpUse (ascii "std-scan-document-xresolution") = .value 2 := by decide +kernel
  have hitem : SentItem.Good ⟨34, ascii "std-scan-document-xresolution", 4, [1, 44], none⟩ :=
    ⟨by decide +kernel, by decide, by rw [huse]; exact ⟨Nat.le_refl 2, rfl⟩⟩
  refine session_delivers (fun s => (s, 0)) (fun _ _ => 0) default _ (fun m hm => ?_) _
    (by decide +kernel) ?_
  · rw [List.mem_singleton.mp hm]
    refine ⟨fun item hitem' => ?_, by decide +kernel⟩
    rw [List.mem_singleton.mp hitem']
    exact hitem
  · rw [List.flatten_cons, List.flatten_singleton, List.take_append_drop, streamOf,
      List.map_singleton, List.flatten_singleton]

end Received

end SaneBackends.Dell
