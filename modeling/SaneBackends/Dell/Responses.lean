import SaneBackends.Dell.Items
import SaneBackends.Lib.Decimal
/-!
# `dell1600n_net.c`: the messages of the scanner

`ProcessFindResponse`, `ProcessUdpResponse` and `ProcessTcpResponse`. Memory is always to be had,
and what is sent is listed. The values that the source keeps in network byte order are the bytes
that were received.
-/

namespace SaneBackends.Dell

open SaneBackends.Lib

def ascii (text : String) : List UInt8 := text.toList.map fun c => UInt8.ofNat c.toNat

/-! ## Packets -/

/-- `htons`, as it lies in memory. -/
def htons (n : Nat) : List UInt8 := [UInt8.ofNat (n / 256), UInt8.ofNat n]

/-- `InitPacket`. -/
def initPacket (type : UInt8) : List UInt8 := [2, 0, type, 2, 0, 0, 0, 0]

/-- `AppendMessageToPacket`. -/
def appendMessageToPacket (buf : List UInt8) (messageType : UInt8) (messageName : List UInt8)
    (valueType : UInt8) (value : List UInt8) : List UInt8 :=
  buf ++ ([messageType] ++ htons messageName.length ++ messageName ++ [valueType] ++
    htons value.length ++ value)

/-- `FinalisePacket`. -/
def finalisePacket (buf : List UInt8) : List UInt8 :=
  if buf.length < 8 then buf
  else buf.take 6 ++ htons (buf.length - 8) ++ buf.drop 8

/-- `PopFromComBuf`, which leaves nothing if there is less than it shall remove. -/
def popFromComBuf (buf : List UInt8) (datSize : Nat) : List UInt8 := buf.drop datSize

/-! ## Messages -/

/-- The memory that the received bytes are at the beginning of. -/
def memoryOf (bytes : List UInt8) (stale : Nat → UInt8) (i : Nat) : UInt8 :=
  bytes.getD i (stale i)

/-- The size that the header has. -/
def messageSize (bytes : List UInt8) : Nat := sizeAt bytes 6

/-- `MessageIsComplete`. -/
def messageIsComplete (bytes : List UInt8) : Bool :=
  decide (8 ≤ bytes.length ∧ messageSize bytes + 8 ≤ bytes.length)

/-- The size is read by `MessageIsComplete`, and again if the message is complete. -/
def headerSpans (bytes : List UInt8) : List Span :=
  if 8 ≤ bytes.length then [⟨6, 2⟩] else []

/-! ## Discovery -/

/-- What `ProcessFindResponse` has found. -/
structure Found where
  printerName : List UInt8 := []
  printerModel : List UInt8 := ascii "1600n"
  deriving DecidableEq, Repr

/-- `snprintf ("%d.%d.%d.%d")` -/
def dotted (a b c d : UInt8) : List UInt8 :=
  decimal a.toNat ++ ascii "." ++ decimal b.toNat ++ ascii "." ++ decimal c.toNat ++ ascii "." ++
    decimal d.toNat

def findItem (memory : Nat → UInt8) (item : Item) (found : Found) : Handled Found :=
  let name := item.name memory
  if sameName (ascii "std-scan-discovery-ip") name then
    { state := { found with
        printerName := dotted (memory item.pValue) (memory (item.pValue + 1))
          (memory (item.pValue + 2)) (memory (item.pValue + 3)) }
      spans := [⟨item.pValue, item.valueSize⟩, ⟨item.pValue, 4⟩] }
  else if sameName (ascii "std-scan-discovery-model-name") name then
    let valueSize := min item.valueSize 255
    { state := { found with
        printerModel := (slice memory item.pValue valueSize).takeWhile (· != 0) }
      spans := [⟨item.pValue, item.valueSize⟩, ⟨item.pValue, valueSize⟩] }
  else { state := found }

/-- The names of a device that was found, if it has one, with all that is read. -/
structure FindResponse where
  device : Option (List UInt8 × List UInt8)
  spans : List Span

/-- `ProcessFindResponse`. -/
def processFindResponse (bytes : List UInt8) (stale : Nat → UInt8) : FindResponse :=
  if messageIsComplete bytes then
    let memory := memoryOf bytes stale
    let run := itemLoop memory (findItem memory) (8 + messageSize bytes) 8 {}
    { device :=
        if run.state.printerName = [] then none
        else if (ascii "Dell ").isPrefixOf run.state.printerModel then
          some (run.state.printerName, run.state.printerModel.drop 5)
        else some (run.state.printerName, run.state.printerModel)
      spans := headerSpans bytes ++ run.spans }
  else ⟨none, headerSpans bytes⟩

/-! ## A session over TCP -/

/-- The parts of `struct ScannerState` that the messages change. -/
structure ScannerState where
  buf : List UInt8
  imageData : List UInt8
  pageInfo : List UInt8
  numPages : Nat
  bFinish : Bool
  xres : List UInt8
  yres : List UInt8
  composition : List UInt8
  brightness : List UInt8
  compression : List UInt8
  fileType : List UInt8
  pixelWidth : List UInt8
  pixelHeight : List UInt8
  currentPageBytes : Nat
  /-- What was sent over `m_tcpFd`. -/
  sent : List (List UInt8)
  /-- `shutdown` was called. -/
  shutDown : Bool
  deriving DecidableEq, Repr, Inhabited

/-- The names that `ProcessTcpResponse` looks for, in its order. -/
inductive TcpName where
  | sessionOpen
  | getclientpref
  | documentStart
  | documentFileType
  | documentImageCompression
  | documentXresolution
  | documentYresolution
  | pageWidthpixel
  | pageHeightpixel
  | pageStart
  | pageEnd
  | documentEnd
  | sessionEnd
  | scandataError
  deriving DecidableEq, Repr

def TcpName.key : TcpName → List UInt8
  | sessionOpen => ascii "std-scan-session-open"
  | getclientpref => ascii "std-scan-getclientpref"
  | documentStart => ascii "std-scan-document-start"
  | documentFileType => ascii "std-scan-document-file-type"
  | documentImageCompression => ascii "std-scan-document-image-compression"
  | documentXresolution => ascii "std-scan-document-xresolution"
  | documentYresolution => ascii "std-scan-document-yresolution"
  | pageWidthpixel => ascii "std-scan-page-widthpixel"
  | pageHeightpixel => ascii "std-scan-page-heightpixel"
  | pageStart => ascii "std-scan-page-start"
  | pageEnd => ascii "std-scan-page-end"
  | documentEnd => ascii "std-scan-document-end"
  | sessionEnd => ascii "std-scan-session-end"
  | scandataError => ascii "std-scan-scandata-error"

def tcpNames : List TcpName :=
  [.sessionOpen, .getclientpref, .documentStart, .documentFileType, .documentImageCompression,
    .documentXresolution, .documentYresolution, .pageWidthpixel, .pageHeightpixel, .pageStart,
    .pageEnd, .documentEnd, .sessionEnd, .scandataError]

/-- The first of them that `strncmp` takes the name for. -/
def tcpName (name : List UInt8) : Option TcpName :=
  tcpNames.find? fun candidate => sameName candidate.key name

/-- A packet with one response, the word zero. -/
def response (name : String) : List UInt8 :=
  finalisePacket (appendMessageToPacket (initPacket 0x02) 0x22 (ascii name) 0x05 [0, 0, 0, 0])

/-- The packet with the preferences of the client. -/
def preferences (s : ScannerState) : List UInt8 :=
  let message (name : String) (valueType : UInt8) (value buf : List UInt8) :=
    appendMessageToPacket buf 0x22 (ascii ("std-scan-getclientpref-" ++ name)) valueType value
  let zero : List UInt8 := [0, 0, 0, 0]
  finalisePacket <| message "paper-scanner-type" 0x06 zero <|
    message "paper-size-detect" 0x06 zero <| message "file-type" 0x06 s.fileType <|
    message "image-compression" 0x06 s.compression <| message "brightness" 0x02 s.brightness <|
    message "image-composition" 0x06 s.composition <| message "yresolution" 0x04 s.yres <|
    message "xresolution" 0x04 s.xres <| message "y2" 0x05 zero <| message "y1" 0x05 zero <|
    message "x2" 0x05 zero <| message "x1" 0x05 zero <| initPacket 0x02

def ScannerState.send (s : ScannerState) (packet : List UInt8) : ScannerState :=
  { s with sent := s.sent ++ [packet] }

/-- The loop of `ProcessTcpResponse`: the scanner, and whether a page is complete. -/
structure TcpLoop where
  scanner : ScannerState
  bProcessImage : Bool := false

/-- `memcpy (&field, pValue, n)`, for a field that `store` sets. -/
def copyItem (memory : Nat → UInt8) (item : Item) (n : Nat) (store : List UInt8 → ScannerState)
    (s : TcpLoop) : Handled TcpLoop :=
  { state := { s with scanner := store (slice memory item.pValue n) }
    spans := [⟨item.pValue, item.valueSize⟩, ⟨item.pValue, n⟩] }

def tcpItem (memory : Nat → UInt8) (item : Item) (s : TcpLoop) : Handled TcpLoop :=
  match tcpName (item.name memory) with
  | some .sessionOpen =>
      { state := { s with scanner := s.scanner.send (response "std-scan-session-open-response") } }
  | some .getclientpref =>
      { state := { s with scanner := s.scanner.send (preferences s.scanner) } }
  | some .documentStart =>
      { state := { s with scanner := s.scanner.send (response "std-scan-document-start-response") } }
  | some .documentFileType => copyItem memory item 4 (fun v => { s.scanner with fileType := v }) s
  | some .documentImageCompression =>
      copyItem memory item 4 (fun v => { s.scanner with compression := v }) s
  | some .documentXresolution => copyItem memory item 2 (fun v => { s.scanner with xres := v }) s
  | some .documentYresolution => copyItem memory item 2 (fun v => { s.scanner with yres := v }) s
  | some .pageWidthpixel => copyItem memory item 4 (fun v => { s.scanner with pixelWidth := v }) s
  | some .pageHeightpixel => copyItem memory item 4 (fun v => { s.scanner with pixelHeight := v }) s
  | some .pageStart =>
      { state := { s with
          scanner := { s.scanner.send (response "std-scan-page-start-response") with
            buf := [], currentPageBytes := 0, pixelWidth := [0, 0, 0, 0]
            pixelHeight := [0, 0, 0, 0] } } }
  | some .pageEnd =>
      { state := ⟨s.scanner.send (response "std-scan-page-end-response"), true⟩ }
  | some .documentEnd =>
      { state := { s with
          scanner := { s.scanner.send (response "std-scan-document-end-response") with
            buf := [] } } }
  | some .sessionEnd =>
      { state := { s with
          scanner := { s.scanner.send (response "std-scan-session-end-response") with
            shutDown := true } } }
  | some .scandataError =>
      let dataChunkSize := shortAt memory (item.next + 6)
      { state := { s with
          scanner := { s.scanner with
            buf := s.scanner.buf ++ slice memory (item.next + 8) dataChunkSize } }
        spans := [⟨item.next + 6, 2⟩, ⟨item.next + 8, dataChunkSize⟩]
        skip := 8 + dataChunkSize }
  | none => { state := s }

/-- What `ProcessTcpResponse` leaves. -/
structure TcpResponse where
  scanner : ScannerState
  tcpBuf : List UInt8
  errorCheck : Nat
  spans : List Span

/-- `ProcessTcpResponse`, for a `ProcessPageData`. -/
def processTcpResponse (processPageData : ScannerState → ScannerState × Nat)
    (s : ScannerState) (bytes : List UInt8) (stale : Nat → UInt8) : TcpResponse :=
  if messageIsComplete bytes then
    let memory := memoryOf bytes stale
    let run := itemLoop memory (tcpItem memory) (8 + messageSize bytes) 8 { scanner := s }
    let page := if run.state.bProcessImage then processPageData run.state.scanner
      else (run.state.scanner, 0)
    { scanner := page.1
      tcpBuf := popFromComBuf bytes (messageSize bytes + 8)
      errorCheck := page.2
      spans := headerSpans bytes ++ run.spans }
  else ⟨s, bytes, 0, headerSpans bytes⟩

theorem processTcpResponse_length_le (processPageData : ScannerState → ScannerState × Nat)
    (s : ScannerState) (bytes : List UInt8) (stale : Nat → UInt8) :
    (processTcpResponse processPageData s bytes stale).tcpBuf.length ≤ bytes.length := by
  rw [processTcpResponse]
  split_ifs
  · exact (List.drop_sublist _ bytes).length_le
  · exact Nat.le_refl _

/-! ## The connection of a session -/

/-- What `socket` and `connect` give, with what is then read. -/
inductive Connection where
  | noSocket
  | refused
  | opened (reads : List (List UInt8))

variable (processPageData : ScannerState → ScannerState × Nat)
  (stale : List UInt8 → Nat → UInt8)

/-- Where a session stands. -/
structure TcpSession where
  scanner : ScannerState
  tcpBuf : List UInt8
  /-- A response could not be processed. -/
  failed : Bool := false

/-- Process all available responses. -/
def processAvailable (s : ScannerState) (tcpBuf : List UInt8) : TcpSession :=
  if tcpBuf = [] then ⟨s, tcpBuf, false⟩
  else
    let called := processTcpResponse processPageData s tcpBuf (stale tcpBuf)
    if called.errorCheck ≠ 0 then ⟨called.scanner, called.tcpBuf, true⟩
    else if _h : called.tcpBuf.length = tcpBuf.length then ⟨called.scanner, called.tcpBuf, false⟩
    else processAvailable called.scanner called.tcpBuf
termination_by tcpBuf.length
decreasing_by
  exact lt_of_le_of_ne (processTcpResponse_length_le processPageData s tcpBuf (stale tcpBuf)) _h

/-- The TCP read loop, which ends with a read that gives nothing. -/
def tcpReadLoop (session : TcpSession) : List (List UInt8) → TcpSession
  | [] | [] :: _ => session
  | (b :: chunk) :: reads =>
      let session := processAvailable processPageData stale session.scanner
        (session.tcpBuf ++ b :: chunk)
      if session.failed then session else tcpReadLoop session reads

/-- The loop of `ProcessUdpResponse`: the scanner, and how many connections there were. -/
structure UdpLoop where
  scanner : ScannerState
  connects : Nat := 0

def udpItem (connection : Nat → Connection) (memory : Nat → UInt8) (item : Item) (s : UdpLoop) :
    Handled UdpLoop :=
  if sameName (ascii "std-scan-request-tcp-connection") (item.name memory) then
    match connection s.connects with
    | .noSocket => { state := s, result := some 2 }
    | .refused => { state := s, result := some 3 }
    | .opened reads =>
        let session := tcpReadLoop processPageData stale ⟨s.scanner, [], false⟩ reads
        if session.failed then { state := ⟨session.scanner, s.connects + 1⟩, result := some 3 }
        else { state := ⟨{ session.scanner with bFinish := true }, s.connects + 1⟩ }
  else { state := s }

/-- What `ProcessUdpResponse` leaves. -/
structure UdpResponse where
  scanner : ScannerState
  result : Nat
  spans : List Span

/-- `ProcessUdpResponse`. -/
def processUdpResponse (connection : Nat → Connection) (s : ScannerState) (bytes : List UInt8) :
    UdpResponse :=
  if messageIsComplete bytes then
    let memory := memoryOf bytes (stale bytes)
    let run := itemLoop memory (udpItem processPageData stale connection memory)
      (8 + messageSize bytes) 8 { scanner := s }
    ⟨run.state.scanner, run.result.getD 0, headerSpans bytes ++ run.spans⟩
  else ⟨s, 1, headerSpans bytes⟩

/-! ## What is read -/

/-- The three functions that take messages. -/
inductive Parser where
  | find
  | udp
  | tcp
  deriving DecidableEq, Repr

/-- Where the message ends: behind its items if it is complete. -/
def messageEnd (bytes : List UInt8) : Nat :=
  if messageIsComplete bytes then 8 + messageSize bytes else bytes.length

/-- Whatever lies behind the bytes and whatever else happens, only bytes of the message are read,
and the name and the value of an item lie inside of it where they are used. -/
def Contained (bytes : List UInt8) : Parser → Prop
  | .find => ∀ stale, AllInside (messageEnd bytes) (processFindResponse bytes stale).spans
  | .udp => ∀ processPageData stale connection s, AllInside (messageEnd bytes)
      (processUdpResponse processPageData stale connection s bytes).spans
  | .tcp => ∀ processPageData s stale, AllInside (messageEnd bytes)
      (processTcpResponse processPageData s bytes stale).spans

/-- The use of a value in discovery. -/
def findUse (name : List UInt8) : Use :=
  if sameName (ascii "std-scan-discovery-ip") name then .value 4
  else if sameName (ascii "std-scan-discovery-model-name") name then .value 0
  else .nothing

def TcpName.use : TcpName → Use
  | documentFileType | documentImageCompression | pageWidthpixel | pageHeightpixel => .value 4
  | documentXresolution | documentYresolution => .value 2
  | scandataError => .chunk
  | _ => .nothing

/-- The use of a value in a session. -/
def tcpUse (name : List UInt8) : Use := (tcpName name).elim .nothing TcpName.use

def Parser.use : Parser → List UInt8 → Use
  | find => findUse
  | udp => fun _ => .nothing
  | tcp => tcpUse

/-- The items of a complete message. -/
def messageItems (bytes : List UInt8) : List UInt8 := (bytes.drop 8).take (messageSize bytes)

/-- A message that is complete is made of items that fit. -/
def MessageFits (bytes : List UInt8) (parser : Parser) : Prop :=
  messageIsComplete bytes → Fits parser.use (messageItems bytes)

/-! ## Each of them -/

variable {bytes : List UInt8}

theorem complete_iff : messageIsComplete bytes = true ↔
    8 ≤ bytes.length ∧ messageSize bytes + 8 ≤ bytes.length := decide_eq_true_iff

/-- The items in memory are those that were received. -/
theorem bytesFrom_memoryOf (h : messageIsComplete bytes) (stale : Nat → UInt8) :
    bytesFrom (memoryOf bytes stale) (8 + messageSize bytes) 8 = messageItems bytes := by
  have hlength := (complete_iff.mp h).2
  apply List.ext_getElem
  · rw [bytesFrom_length, messageItems, List.length_take, List.length_drop]
    omega
  · intro i hi hi'
    rw [bytesFrom_length] at hi
    have hthere : 8 + i < bytes.length := by omega
    simp [bytesFrom, slice, memoryOf, messageItems, hthere]

theorem headerSpans_inside (bytes : List UInt8) :
    AllInside (messageEnd bytes) (headerSpans bytes) := by
  rw [headerSpans]
  split_ifs with h8
  · rw [messageEnd, allInside_cons]
    refine ⟨?_, allInside_nil⟩
    dsimp only
    split_ifs <;> omega
  · exact allInside_nil

theorem messageEnd_of_complete (h : messageIsComplete bytes) :
    messageEnd bytes = 8 + messageSize bytes := if_pos h

theorem findItem_uses (memory : Nat → UInt8) : Uses findUse memory (findItem memory) where
  spans item s limit := by
    rw [findItem, findUse]
    dsimp only
    split_ifs
    · exact Iff.rfl
    · have hmin := Nat.min_le_left item.valueSize 255
      simp only [Use.spans, allInside_cons, allInside_nil, and_true]
      -- The model's name is a part of the value, which is inside of the message already.
      exact and_congr_right fun hvalue => iff_of_true (by omega) (by omega)
    · exact Iff.rfl
  skip item s := by
    rw [findItem, findUse]
    dsimp only
    split_ifs <;> rfl

theorem findItem_result (memory : Nat → UInt8) (item : Item) (s : Found) :
    (findItem memory item s).result = none := by
  rw [findItem]
  dsimp only
  split_ifs <;> rfl

/-- What each name does with its item, apart from the state. -/
theorem tcpItem_handled (memory : Nat → UInt8) (item : Item) (s : TcpLoop) :
    (tcpItem memory item s).spans = (tcpUse (item.name memory)).spans memory item ∧
    (tcpItem memory item s).skip = (tcpUse (item.name memory)).skip memory item ∧
    (tcpItem memory item s).result = none := by
  rw [tcpItem, tcpUse]
  cases tcpName (item.name memory) with
  | none => exact ⟨rfl, rfl, rfl⟩
  | some name => cases name <;> exact ⟨rfl, rfl, rfl⟩

theorem tcpItem_uses (memory : Nat → UInt8) : Uses tcpUse memory (tcpItem memory) where
  spans item s limit := by rw [(tcpItem_handled memory item s).1]
  skip item s := (tcpItem_handled memory item s).2.1

theorem udpItem_uses (connection : Nat → Connection) (memory : Nat → UInt8) :
    Uses Parser.udp.use memory (udpItem processPageData stale connection memory) where
  spans item s limit := by
    rw [udpItem]
    split_ifs
    · cases connection s.connects with
      | noSocket => exact Iff.rfl
      | refused => exact Iff.rfl
      | opened reads =>
          dsimp only
          split_ifs <;> exact Iff.rfl
    · exact Iff.rfl
  skip item s := by
    rw [udpItem]
    split_ifs
    · cases connection s.connects with
      | noSocket => rfl
      | refused => rfl
      | opened reads =>
          dsimp only
          split_ifs <;> rfl
    · rfl

/-- Where every connection is closed at once, no item ends the loop. -/
theorem udpItem_result (memory : Nat → UInt8) (item : Item) (s : UdpLoop) :
    (udpItem processPageData stale (fun _ => .opened []) memory item s).result = none := by
  rw [udpItem]
  split_ifs <;> rfl

/-! ## The messages that are read inside of their bounds -/

theorem contained_run_iff (h : messageIsComplete bytes) (spans : List Span) :
    AllInside (messageEnd bytes) (headerSpans bytes ++ spans) ↔
      AllInside (8 + messageSize bytes) spans := by
  have hheader := headerSpans_inside bytes
  rw [messageEnd_of_complete h] at hheader ⊢
  rw [allInside_append]
  exact and_iff_right hheader

theorem find_contained_iff : Contained bytes .find ↔ MessageFits bytes .find := by
  rw [Contained, MessageFits]
  by_cases hcomplete : messageIsComplete bytes
  · have hrun (stale : Nat → UInt8) :
        AllInside (messageEnd bytes) (processFindResponse bytes stale).spans ↔
          Fits Parser.find.use (messageItems bytes) := by
      rw [processFindResponse, if_pos hcomplete]
      exact (contained_run_iff hcomplete _).trans <|
        bytesFrom_memoryOf hcomplete stale ▸
          itemLoop_inside_iff (findItem_uses _) (findItem_result _) 8 {}
    constructor
    · intro h _
      exact (hrun fun _ => 0).mp (h fun _ => 0)
    · intro h stale
      exact (hrun stale).mpr (h hcomplete)
  · constructor
    · intro _ h
      exact absurd h hcomplete
    · intro _ stale
      rw [processFindResponse, if_neg hcomplete]
      exact headerSpans_inside bytes

theorem tcp_contained_iff : Contained bytes .tcp ↔ MessageFits bytes .tcp := by
  rw [Contained, MessageFits]
  by_cases hcomplete : messageIsComplete bytes
  · have hrun (processPageData : ScannerState → ScannerState × Nat) (s : ScannerState)
        (stale : Nat → UInt8) : AllInside (messageEnd bytes)
          (processTcpResponse processPageData s bytes stale).spans ↔
            Fits Parser.tcp.use (messageItems bytes) := by
      rw [processTcpResponse, if_pos hcomplete]
      exact (contained_run_iff hcomplete _).trans <|
        bytesFrom_memoryOf hcomplete stale ▸
          itemLoop_inside_iff (tcpItem_uses _) (fun item s => (tcpItem_handled _ item s).2.2) 8 _
    constructor
    · intro h _
      exact (hrun (fun s => (s, 0)) default fun _ => 0).mp (h _ _ _)
    · intro h processPageData s stale
      exact (hrun processPageData s stale).mpr (h hcomplete)
  · constructor
    · intro _ h
      exact absurd h hcomplete
    · intro _ processPageData s stale
      rw [processTcpResponse, if_neg hcomplete]
      exact headerSpans_inside bytes

theorem udp_contained_iff : Contained bytes .udp ↔ MessageFits bytes .udp := by
  rw [Contained, MessageFits]
  by_cases hcomplete : messageIsComplete bytes
  · constructor
    · intro h _
      have hinside := h (fun s => (s, 0)) (fun _ _ => 0) (fun _ => .opened []) default
      rw [processUdpResponse, if_pos hcomplete] at hinside
      rw [← bytesFrom_memoryOf hcomplete fun _ => 0]
      exact fits_of_itemLoop_inside (udpItem_uses _ _ _ _) (udpItem_result _ _ _) 8 _
        ((contained_run_iff hcomplete _).mp hinside)
    · intro h processPageData stale connection s
      have hfits := h hcomplete
      rw [← bytesFrom_memoryOf hcomplete (stale bytes)] at hfits
      rw [processUdpResponse, if_pos hcomplete]
      exact (contained_run_iff hcomplete _).mpr <|
        itemLoop_inside (udpItem_uses processPageData stale connection _) 8 _ hfits
  · constructor
    · intro _ h
      exact absurd h hcomplete
    · intro _ processPageData stale connection s
      rw [processUdpResponse, if_neg hcomplete]
      exact headerSpans_inside bytes

/-- A message is read inside of its bounds by one of the functions exactly if, as soon as it is
complete, it is made of items that fit. -/
theorem contained_iff (bytes : List UInt8) (parser : Parser) :
    Contained bytes parser ↔ MessageFits bytes parser := by
  cases parser with
  | find => exact find_contained_iff
  | udp => exact udp_contained_iff
  | tcp => exact tcp_contained_iff

/-- An answer to the discovery that ends in the size of a name, of 65535 bytes. -/
def nameTooLong : List UInt8 := [2, 0, 2, 2, 0, 0, 0, 3, 34, 255, 255]

theorem nameTooLong_not_contained : ¬ ∀ bytes parser, Contained bytes parser := by
  intro h
  have hfits := find_contained_iff.mp (h nameTooLong .find) (by decide)
  rw [Fits, dif_neg (by decide)] at hfits
  have hhead := hfits.1
  revert hhead
  decide

end SaneBackends.Dell
