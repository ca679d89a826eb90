import SaneBackends.Dell.Stream
import SaneBackends.Lib.Result
/-!
# `dell1600n_net.c`: the pages of a session

`ProcessPageData` puts the pages into the store of the scanner, and `sane_read` and `sane_start`
take them out. What libjpeg and libtiff make of a page is a parameter, and numbers are those of pages
for which no `int` overflows.
-/

namespace SaneBackends.Dell

open SaneBackends.Lib

/-! ## The code -/

/-- `struct PageInfo`. -/
structure PageInfo where
  width : Nat
  height : Nat
  totalSize : Nat
  bytesRemaining : Nat
  deriving DecidableEq, Repr

/-- An `int` in the memory of the host. -/
def intBytes (n : Nat) : List UInt8 :=
  [UInt8.ofNat n, UInt8.ofNat (n / 256), UInt8.ofNat (n / 65536), UInt8.ofNat (n / 16777216)]

def intAt (bytes : List UInt8) (p : Nat) : Nat :=
  (bytes.getD p 0).toNat + 256 * (bytes.getD (p + 1) 0).toNat +
    65536 * (bytes.getD (p + 2) 0).toNat + 16777216 * (bytes.getD (p + 3) 0).toNat

def PageInfo.bytes (info : PageInfo) : List UInt8 :=
  intBytes info.width ++ intBytes info.height ++ intBytes info.totalSize ++
    intBytes info.bytesRemaining

def readPageInfo (bytes : List UInt8) : PageInfo :=
  ⟨intAt bytes 0, intAt bytes 4, intAt bytes 8, intAt bytes 12⟩

/-- `ntohl`. -/
def ntohl (bytes : List UInt8) : Nat :=
  (bytes.getD 0 0).toNat * 16777216 + (bytes.getD 1 0).toNat * 65536 +
    (bytes.getD 2 0).toNat * 256 + (bytes.getD 3 0).toNat

/-- `htonl`, as it lies in memory. -/
def htonl (n : Nat) : List UInt8 :=
  [UInt8.ofNat (n / 16777216), UInt8.ofNat (n / 65536), UInt8.ofNat (n / 256), UInt8.ofNat n]

/-- An image as libjpeg gives it, line by line. -/
structure JpegImage where
  width : Nat
  height : Nat
  lines : List (List UInt8)

/-- What libtiff makes of a page. -/
inductive TiffImage where
  | failed
  | read (pixels : List (UInt8 × UInt8 × UInt8))

structure Decoders where
  jpeg : List UInt8 → JpegImage
  tiff : Nat → Nat → List UInt8 → TiffImage

/-- The page is added to the store. -/
def addPage (width height : Nat) (data : List UInt8) (s : ScannerState) : ScannerState :=
  { s with
    imageData := s.imageData ++ data
    pageInfo := s.pageInfo ++
      (PageInfo.mk width height (width * height * 3) (width * height * 3)).bytes
    numPages := s.numPages + 1 }

/-- `ProcessPageData`. -/
def processPage (decoders : Decoders) (s : ScannerState) : ScannerState × Nat :=
  if s.buf = [] then (s, 0)
  else if ntohl s.compression = 0x20 then
    let image := decoders.jpeg s.buf
    (addPage image.width image.height image.lines.flatten
      { s with pixelWidth := htonl image.width, pixelHeight := htonl image.height }, 0)
  else if ntohl s.compression = 0x08 then
    let width := ntohl s.pixelWidth
    let height := ntohl s.pixelHeight
    match decoders.tiff width height s.buf with
    | .failed => (s, 9)
    | .read pixels =>
        (addPage width height (pixels.flatMap fun pixel => [pixel.1, pixel.2.1, pixel.2.2]) s, 0)
  else (s, 9)

inductive ReadResult where
  | good (data : List UInt8)
  | eof
  | noMem
  deriving DecidableEq, Repr

inductive PageFault where
  /-- There is no `PageInfo` to read. -/
  | noPageInfo
  deriving DecidableEq, Repr

/-- `sane_read`. -/
def saneRead (maxLength : Nat) (s : ScannerState) : Except PageFault (ReadResult × ScannerState) :=
  if s.imageData = [] ∨ s.numPages = 0 then
    .ok (.eof, { s with pageInfo := popFromComBuf s.pageInfo 16 })
  else if s.pageInfo.length < 16 then .error .noPageInfo
  else
    let pageInfo := readPageInfo s.pageInfo
    if pageInfo.bytesRemaining < 1 then .ok (.eof, s)
    else
      let dataSize := min pageInfo.bytesRemaining maxLength
      let pageInfo := { pageInfo with bytesRemaining := pageInfo.bytesRemaining - dataSize }
      let s := { s with pageInfo := pageInfo.bytes ++ s.pageInfo.drop 16 }
      let s := if pageInfo.bytesRemaining < 1 then { s with numPages := s.numPages - 1 } else s
      if s.imageData.length < dataSize then .ok (.noMem, { s with imageData := [] })
      else .ok (.good (s.imageData.take dataSize),
        { s with imageData := popFromComBuf s.imageData dataSize })

/-- The beginning of `sane_start`: there are pages left, or a session has to be begun. -/
def outstandingPage (s : ScannerState) : Option ScannerState :=
  if s.imageData ≠ [] then some { s with pageInfo := popFromComBuf s.pageInfo 16 } else none

/-- A scanner that `sane_open` has opened. -/
def openScanner : ScannerState where
  buf := []
  imageData := []
  pageInfo := []
  numPages := 0
  bFinish := false
  xres := [0, 200]
  yres := [0, 200]
  composition := [0, 0, 0, 1]
  brightness := [0x80]
  compression := [0, 0, 0, 8]
  fileType := [0, 0, 0, 2]
  pixelWidth := [0, 0, 0, 0]
  pixelHeight := [0, 0, 0, 0]
  currentPageBytes := 0
  sent := []
  shutDown := false

/-! ## The frontend -/

/-- A frontend reads a page to its end, with a buffer of another size each time. -/
def readToEnd (maxLengths : Nat → Nat) : Nat → ScannerState →
    Except PageFault (Option (List UInt8 × ScannerState))
  | 0, _ => .ok none
  | fuel + 1, s => do
      let (result, s) ← saneRead (maxLengths fuel) s
      match result with
      | .eof => .ok (some ([], s))
      | .noMem => .ok none
      | .good data => do
          let rest ← readToEnd maxLengths fuel s
          .ok (rest.map fun pair => (data ++ pair.1, pair.2))

/-- A frontend reads all pages, as long as `sane_start` finds one. -/
def readPages (maxLengths : Nat → Nat) (fuel : Nat) : Nat → ScannerState →
    Except PageFault (Option (List (List UInt8) × ScannerState))
  | 0, _ => .ok none
  | pages + 1, s => do
      match ← readToEnd maxLengths fuel s with
      | none => .ok none
      | some (page, s) =>
          match outstandingPage s with
          | none => .ok (some ([page], s))
          | some s => do
              let rest ← readPages maxLengths fuel pages s
              .ok (rest.map fun pair => (page :: pair.1, pair.2))

/-! ## The store -/

/-- A page as the store has it. -/
structure Page where
  width : Nat
  height : Nat
  data : List UInt8
  deriving DecidableEq, Repr

/-- There are three bytes for each pixel, and the size is an `int`. -/
structure Page.Good (page : Page) : Prop where
  nonempty : page.data ≠ []
  length : page.data.length = page.width * page.height * 3
  width : page.width < 2 ^ 31
  height : page.height < 2 ^ 31
  size : page.data.length < 2 ^ 31

def Page.info (page : Page) (bytesRemaining : Nat) : PageInfo :=
  ⟨page.width, page.height, page.width * page.height * 3, bytesRemaining⟩

/-- The store holds what is left of a page and the pages behind it. -/
structure Stored (page : Page) (left : List UInt8) (pages : List Page) (s : ScannerState) : Prop where
  imageData : s.imageData = left ++ (pages.map Page.data).flatten
  pageInfo : s.pageInfo = (page.info left.length).bytes ++
    (pages.map fun p => (p.info p.data.length).bytes).flatten
  numPages : s.numPages = pages.length + if left = [] then 0 else 1

section Info

theorem PageInfo.bytes_length (info : PageInfo) : info.bytes.length = 16 := rfl

theorem intAt_eq {n : Nat} (hn : n < 2 ^ 32) :
    (UInt8.ofNat n).toNat + 256 * (UInt8.ofNat (n / 256)).toNat +
      65536 * (UInt8.ofNat (n / 65536)).toNat + 16777216 * (UInt8.ofNat (n / 16777216)).toNat = n := by
  simp only [UInt8.toNat_ofNat']
  omega

/-- A `PageInfo` is read as it was written. -/
theorem readPageInfo_bytes {info : PageInfo} (hwidth : info.width < 2 ^ 32)
    (hheight : info.height < 2 ^ 32) (htotal : info.totalSize < 2 ^ 32)
    (hremaining : info.bytesRemaining < 2 ^ 32) (rest : List UInt8) :
    readPageInfo (info.bytes ++ rest) = info := by
  have hread : readPageInfo (info.bytes ++ rest) = ⟨_, _, _, _⟩ := rfl
  rw [hread]
  congr 1
  · exact intAt_eq hwidth
  · exact intAt_eq hheight
  · exact intAt_eq htotal
  · exact intAt_eq hremaining

end Info

section Read

variable {page : Page} {left : List UInt8} {pages : List Page} {s : ScannerState}

theorem pages_ne_nil (hgood : ∀ p ∈ pages, p.Good) :
    (pages.map Page.data).flatten = [] ↔ pages = [] := by
  cases pages with
  | nil => exact Iff.rfl.trans (by simp)
  | cons p ps =>
      rw [List.map_cons, List.flatten_cons, List.append_eq_nil_iff]
      constructor
      · intro h
        exact absurd h.1 (hgood p List.mem_cons_self).nonempty
      · intro h
        exact absurd h (List.cons_ne_nil p ps)

/-- The store has nothing any more. -/
structure Emptied (s : ScannerState) : Prop where
  imageData : s.imageData = []
  pageInfo : s.pageInfo = []
  numPages : s.numPages = 0

theorem readPageInfo_stored (hpage : page.Good) (hleft : left.length ≤ page.data.length)
    (h : Stored page left pages s) : readPageInfo s.pageInfo = page.info left.length := by
  have hlength := hpage.length
  have hsize := hpage.size
  have hwidth := hpage.width
  have hheight := hpage.height
  have htotal : page.width * page.height * 3 < 2 ^ 32 := by omega
  rw [h.pageInfo]
  exact readPageInfo_bytes (by omega : page.width < 2 ^ 32) (by omega : page.height < 2 ^ 32)
    htotal (by omega : left.length < 2 ^ 32) _

/-- There is more of the page: as much as there is room for is read. -/
theorem saneRead_more (hpage : page.Good) (hleft : left.length ≤ page.data.length)
    (hne : left ≠ []) (h : Stored page left pages s) (maxLength : Nat) :
    ∃ s', saneRead maxLength s = .ok (.good (left.take maxLength), s') ∧
      Stored page (left.drop maxLength) pages s' ∧ s'.compression = s.compression := by
  have hpos := List.length_pos_of_ne_nil hne
  have hdata : s.imageData ≠ [] := by
    rw [h.imageData]
    exact List.append_ne_nil_of_left_ne_nil hne _
  have hpages : s.numPages ≠ 0 := by
    rw [h.numPages, if_neg hne]
    exact Nat.succ_ne_zero _
  have hinfo : ¬s.pageInfo.length < 16 := by
    rw [h.pageInfo, List.length_append, PageInfo.bytes_length]
    omega
  let n := min left.length maxLength
  have htake : s.imageData.take n = left.take maxLength := by
    rw [h.imageData, List.take_append_of_le_length (Nat.min_le_left ..)]
    rcases Nat.le_total left.length maxLength with hle | hle
    · rw [Nat.min_eq_left hle, List.take_length, List.take_of_length_le hle]
    · rw [Nat.min_eq_right hle]
  have hdrop : s.imageData.drop n = left.drop maxLength ++ (pages.map Page.data).flatten := by
    rw [h.imageData, List.drop_append_of_le_length (Nat.min_le_left ..)]
    congr 1
    rcases Nat.le_total left.length maxLength with hle | hle
    · rw [List.drop_eq_nil_of_le hle, List.drop_eq_nil_of_le (by omega)]
    · rw [Nat.min_eq_right hle]
  have hrest : s.pageInfo.drop 16 = (pages.map fun p => (p.info p.data.length).bytes).flatten := by
    rw [h.pageInfo]
    rfl
  have hlength : (left.drop maxLength).length = left.length - n := by
    rw [List.length_drop]
    omega
  have hlast : left.length - n < 1 ↔ left.drop maxLength = [] := by
    rw [← List.length_eq_zero_iff, hlength]
    omega
  let s₁ : ScannerState := { s with
    pageInfo := (page.info (left.length - n)).bytes ++ s.pageInfo.drop 16 }
  let s₂ : ScannerState := if left.length - n < 1 then { s₁ with numPages := s₁.numPages - 1 } else s₁
  have hs₂ : s₂.imageData = s.imageData ∧ s₂.pageInfo = s₁.pageInfo ∧
      s₂.compression = s.compression ∧
      s₂.numPages = pages.length + if left.drop maxLength = [] then 0 else 1 := by
    have hcount : s₁.numPages = pages.length + 1 := by
      rw [show s₁.numPages = s.numPages from rfl, h.numPages, if_neg hne]
    dsimp only [s₂]
    split_ifs with h1 h2 h2
    · exact ⟨rfl, rfl, rfl, by rw [hcount, Nat.add_sub_cancel]; rfl⟩
    · exact absurd (hlast.mp h1) h2
    · exact absurd (hlast.mpr h2) h1
    · exact ⟨rfl, rfl, rfl, hcount⟩
  refine ⟨{ s₂ with imageData := popFromComBuf s₂.imageData n }, ?_, ⟨?_, ?_, hs₂.2.2.2⟩,
    hs₂.2.2.1⟩
  · rw [saneRead, if_neg (not_or.mpr ⟨hdata, hpages⟩), if_neg hinfo,
      readPageInfo_stored hpage hleft h]
    dsimp only [Page.info]
    rw [if_neg (Nat.not_lt.mpr hpos)]
    have hroom : ¬s₂.imageData.length < n := by
      rw [hs₂.1, h.imageData, List.length_append]
      omega
    have hcode : (if s₂.imageData.length < n then
        (.ok (.noMem, { s₂ with imageData := [] }) : Except PageFault (ReadResult × ScannerState))
        else .ok (.good (s₂.imageData.take n),
          { s₂ with imageData := popFromComBuf s₂.imageData n })) =
      .ok (.good (left.take maxLength), { s₂ with imageData := popFromComBuf s₂.imageData n }) := by
      rw [if_neg hroom, hs₂.1, htake]
    exact hcode
  · rw [popFromComBuf, hs₂.1]
    exact hdrop
  · rw [hlength]
    exact hs₂.2.1.trans (by rw [← hrest])

/-- The page is at its end, and there are more of them: the store stays as it is. -/
theorem saneRead_end (hpage : page.Good) (hgood : ∀ p ∈ pages, p.Good) (hmore : pages ≠ [])
    (h : Stored page [] pages s) (maxLength : Nat) : saneRead maxLength s = .ok (.eof, s) := by
  have hdata : s.imageData ≠ [] := by
    rw [h.imageData, List.nil_append]
    exact fun hnil => hmore ((pages_ne_nil hgood).mp hnil)
  have hpages : s.numPages ≠ 0 := by
    rw [h.numPages, if_pos rfl]
    exact Nat.ne_of_gt (List.length_pos_of_ne_nil hmore)
  have hinfo : ¬s.pageInfo.length < 16 := by
    rw [h.pageInfo, List.length_append, PageInfo.bytes_length]
    omega
  rw [saneRead, if_neg (not_or.mpr ⟨hdata, hpages⟩), if_neg hinfo,
    readPageInfo_stored hpage (Nat.zero_le _) h]
  exact if_pos Nat.zero_lt_one

/-- The last page is at its end: nothing is left. -/
theorem saneRead_last (h : Stored page [] [] s) (maxLength : Nat) :
    ∃ s', saneRead maxLength s = .ok (.eof, s') ∧ Emptied s' := by
  have hdata : s.imageData = [] := h.imageData
  refine ⟨_, if_pos (.inl hdata), hdata, ?_, h.numPages⟩
  rw [h.pageInfo]
  rfl

/-- What is left when a page was read to its end. -/
def AfterPage (page : Page) (pages : List Page) (s : ScannerState) : Prop :=
  if pages = [] then Emptied s else Stored page [] pages s

theorem readToEnd_stored (hpage : page.Good) (hgood : ∀ p ∈ pages, p.Good)
    {maxLengths : Nat → Nat} (hmax : ∀ i, 0 < maxLengths i) {fuel : Nat}
    (hleft : left.length ≤ page.data.length) (hfuel : left.length < fuel)
    (h : Stored page left pages s) :
    ∃ s', readToEnd maxLengths fuel s = .ok (some (left, s')) ∧ AfterPage page pages s' := by
  induction fuel generalizing left s with
  | zero => exact absurd hfuel (Nat.not_lt_zero _)
  | succ fuel ih =>
      rw [readToEnd]
      by_cases hne : left = []
      · subst hne
        by_cases hmore : pages = []
        · subst hmore
          obtain ⟨s', hread, hempty⟩ := saneRead_last h (maxLengths fuel)
          refine ⟨s', by rw [hread]; rfl, ?_⟩
          rw [AfterPage, if_pos rfl]
          exact hempty
        · refine ⟨s, by rw [saneRead_end hpage hgood hmore h]; rfl, ?_⟩
          rw [AfterPage, if_neg hmore]
          exact h
      · obtain ⟨s₁, hread, hstored, -⟩ := saneRead_more hpage hleft hne h (maxLengths fuel)
        have hlength := List.length_drop (i := maxLengths fuel) (l := left)
        have hpos := List.length_pos_of_ne_nil hne
        have hone := hmax fuel
        obtain ⟨s₂, hrest, hafter⟩ := ih (by omega) (by omega) hstored
        refine ⟨s₂, ?_, hafter⟩
        rw [hread, ok_bind]
        dsimp only
        rw [hrest, ok_bind, Option.map_some, List.take_append_drop]

/-- `sane_start` goes on to the next page. -/
theorem outstandingPage_stored {next : Page} (hgood : ∀ p ∈ next :: pages, p.Good)
    (h : Stored page [] (next :: pages) s) :
    ∃ s', outstandingPage s = some s' ∧ Stored next next.data pages s' := by
  have hdata : s.imageData ≠ [] := by
    rw [h.imageData, List.nil_append]
    exact fun hnil => List.cons_ne_nil _ _ ((pages_ne_nil hgood).mp hnil)
  refine ⟨_, if_pos hdata, ?_, ?_, ?_⟩
  · exact h.imageData
  · dsimp only
    rw [popFromComBuf, h.pageInfo]
    rfl
  · dsimp only
    rw [h.numPages, if_pos rfl, if_neg (hgood next List.mem_cons_self).nonempty]
    rfl

/-- All pages are read, each as it is, and then nothing is left. -/
theorem readPages_stored {maxLengths : Nat → Nat} (hmax : ∀ i, 0 < maxLengths i) {fuel : Nat}
    (hpage : page.Good) (hgood : ∀ p ∈ pages, p.Good)
    (hfuel : ∀ p ∈ page :: pages, p.data.length < fuel)
    (h : Stored page page.data pages s) :
    ∃ s', readPages maxLengths fuel (pages.length + 1) s =
        .ok (some ((page :: pages).map Page.data, s')) ∧ Emptied s' := by
  induction pages generalizing page s with
  | nil =>
      obtain ⟨s', hread, hafter⟩ := readToEnd_stored hpage hgood hmax (Nat.le_refl _)
        (hfuel page List.mem_cons_self) h
      rw [AfterPage, if_pos rfl] at hafter
      refine ⟨s', ?_, hafter⟩
      have hnone : outstandingPage s' = none := if_neg (not_not_intro hafter.imageData)
      rw [List.length_nil, readPages, hread, ok_bind]
      dsimp only
      rw [hnone]
      rfl
  | cons next pages ih =>
      obtain ⟨s', hread, hafter⟩ := readToEnd_stored hpage hgood hmax (Nat.le_refl _)
        (hfuel page List.mem_cons_self) h
      rw [AfterPage, if_neg (List.cons_ne_nil next pages)] at hafter
      obtain ⟨s₁, hnext, hstored⟩ := outstandingPage_stored hgood hafter
      obtain ⟨s₂, hrest, hempty⟩ := ih (hgood next List.mem_cons_self)
        (fun p hp => hgood p (List.mem_cons_of_mem next hp))
        (fun p hp => hfuel p (List.mem_cons_of_mem page hp)) hstored
      refine ⟨s₂, ?_, hempty⟩
      rw [readPages, hread, ok_bind]
      dsimp only
      rw [hnext]
      dsimp only
      rw [List.length_cons, hrest, ok_bind]
      rfl

end Read

/-! ## Documents -/

/-- A page as the scanner sends it: its size, and its data in chunks. -/
structure SentPage where
  width : List UInt8
  height : List UInt8
  chunks : List (List UInt8 × List UInt8)
  deriving DecidableEq, Repr

/-- A message with one item. -/
def itemMessage (name : String) (value : List UInt8) (chunk : Option (List UInt8 × List UInt8)) :
    Message :=
  ⟨2, [⟨34, ascii name, 5, value, chunk⟩]⟩

def SentPage.messages (page : SentPage) : List Message :=
  [itemMessage "std-scan-page-start" [] none,
    itemMessage "std-scan-page-widthpixel" page.width none,
    itemMessage "std-scan-page-heightpixel" page.height none] ++
  page.chunks.map (fun chunk => itemMessage "std-scan-scandata-error" [] (some chunk)) ++
  [itemMessage "std-scan-page-end" [] none]

structure SentPage.Good (page : SentPage) : Prop where
  width : page.width.length = 4
  height : page.height.length = 4
  chunks : ∀ chunk ∈ page.chunks, chunk.1.length = 6 ∧ chunk.2.length + 37 < 65536

def SentPage.data (page : SentPage) : List UInt8 := (page.chunks.map Prod.snd).flatten

/-- The image of a page, if it can be decoded. -/
def SentPage.decode (decoders : Decoders) (compression : Nat) (page : SentPage) : Option Page :=
  if page.data = [] then none
  else if compression = 0x20 then
    let image := decoders.jpeg page.data
    some ⟨image.width, image.height, image.lines.flatten⟩
  else if compression = 0x08 then
    match decoders.tiff (ntohl page.width) (ntohl page.height) page.data with
    | .failed => none
    | .read pixels =>
        some ⟨ntohl page.width, ntohl page.height,
          pixels.flatMap fun pixel => [pixel.1, pixel.2.1, pixel.2.2]⟩
  else none

section Document

variable {decoders : Decoders} {s : ScannerState} {page : SentPage}

theorem itemMessage_good {name : String} {value : List UInt8}
    {chunk : Option (List UInt8 × List UInt8)}
    (hgiven : (tcpUse (ascii name)).Given value chunk)
    (hsize : (ascii name).length + value.length + (chunkBytes chunk).length + 6 < 65536) :
    (itemMessage name value chunk).Good := by
  have hitem : SentItem.Good ⟨34, ascii name, 5, value, chunk⟩ :=
    ⟨show (ascii name).length < 65536 by omega, show value.length < 65536 by omega, hgiven⟩
  refine ⟨fun item hitem' => ?_, ?_⟩
  · rw [List.mem_singleton.mp hitem']
    exact hitem
  · have hlength : (itemMessage name value chunk).body.length =
        (ascii name).length + value.length + (chunkBytes chunk).length + 6 := by
      rw [Message.body, itemMessage, List.map_singleton, List.flatten_singleton, SentItem.bytes]
      simp only [List.length_append, List.length_singleton, htons_length]
      omega
    rw [hlength]
    exact hsize

theorem tcpName_pageStart : tcpName (ascii "std-scan-page-start") = some .pageStart := by
  decide +kernel

theorem tcpName_widthpixel : tcpName (ascii "std-scan-page-widthpixel") = some .pageWidthpixel := by
  decide +kernel

theorem tcpName_heightpixel :
    tcpName (ascii "std-scan-page-heightpixel") = some .pageHeightpixel := by
  decide +kernel

theorem tcpName_scandata : tcpName (ascii "std-scan-scandata-error") = some .scandataError := by
  decide +kernel

theorem tcpName_pageEnd : tcpName (ascii "std-scan-page-end") = some .pageEnd := by
  decide +kernel

theorem tcpUse_of_tcpName {name : List UInt8} {tcp : TcpName} (h : tcpName name = some tcp) :
    tcpUse name = tcp.use := by
  rw [tcpUse, h]
  rfl

theorem SentPage.messages_good (hpage : page.Good) : ∀ m ∈ page.messages, m.Good := by
  have hstart : (ascii "std-scan-page-start").length = 19 := by decide +kernel
  have hwidth : (ascii "std-scan-page-widthpixel").length = 24 := by decide +kernel
  have hheight : (ascii "std-scan-page-heightpixel").length = 25 := by decide +kernel
  have hscan : (ascii "std-scan-scandata-error").length = 23 := by decide +kernel
  have hend : (ascii "std-scan-page-end").length = 17 := by decide +kernel
  intro m hm
  simp only [SentPage.messages, List.mem_append, List.mem_cons, List.not_mem_nil, or_false,
    List.mem_map] at hm
  obtain ((rfl | rfl | rfl) | ⟨chunk, hchunk, rfl⟩) | rfl := hm
  · refine itemMessage_good ?_ (by rw [hstart]; decide)
    rw [tcpUse_of_tcpName tcpName_pageStart]
    rfl
  · refine itemMessage_good ?_ (by rw [hwidth, hpage.width]; decide)
    rw [tcpUse_of_tcpName tcpName_widthpixel]
    exact ⟨hpage.width.ge, rfl⟩
  · refine itemMessage_good ?_ (by rw [hheight, hpage.height]; decide)
    rw [tcpUse_of_tcpName tcpName_heightpixel]
    exact ⟨hpage.height.ge, rfl⟩
  · obtain ⟨hhead, hdata⟩ := hpage.chunks chunk hchunk
    refine itemMessage_good ?_ ?_
    · rw [tcpUse_of_tcpName tcpName_scandata]
      exact ⟨chunk.1, chunk.2, rfl, hhead, by omega⟩
    · rw [hscan, chunkBytes, List.length_append, List.length_append, hhead, htons_length,
        List.length_nil]
      omega
  · refine itemMessage_good ?_ (by rw [hend]; decide)
    rw [tcpUse_of_tcpName tcpName_pageEnd]
    rfl

/-- What one item in a message of its own says. -/
theorem apply_itemMessage (processPageData : ScannerState → ScannerState × Nat) (name : String)
    (value : List UInt8) (chunk : Option (List UInt8 × List UInt8)) (s : ScannerState) :
    (itemMessage name value chunk).apply processPageData s =
      let loop := SentItem.apply ⟨34, ascii name, 5, value, chunk⟩ { scanner := s }
      if loop.bProcessImage then
        ((processPageData loop.scanner).1, decide ((processPageData loop.scanner).2 ≠ 0))
      else (loop.scanner, false) := rfl

theorem run_chunks (processPageData : ScannerState → ScannerState × Nat)
    (chunks : List (List UInt8 × List UInt8)) (s : ScannerState) :
    runMessages (Message.apply processPageData) s
        (chunks.map fun chunk => itemMessage "std-scan-scandata-error" [] (some chunk)) =
      ({ s with buf := s.buf ++ (chunks.map Prod.snd).flatten }, false) := by
  induction chunks generalizing s with
  | nil => rw [List.map_nil, List.map_nil, List.flatten_nil, List.append_nil]; rfl
  | cons chunk chunks ih =>
      have hone : (itemMessage "std-scan-scandata-error" [] (some chunk)).apply processPageData s =
          ({ s with buf := s.buf ++ chunk.2 }, false) := by
        rw [apply_itemMessage, SentItem.apply, tcpName_scandata]
        rfl
      rw [List.map_cons, runMessages, hone, if_neg Bool.false_ne_true, ih, List.map_cons,
        List.flatten_cons, List.append_assoc]

/-- The messages of a page add it to the store. -/
theorem run_page (hpage : page.Good) {image : Page}
    (himage : page.decode decoders (ntohl s.compression) = some image)
    (hlength : image.data.length = image.width * image.height * 3) :
    ∃ s', runMessages (Message.apply (processPage decoders)) s page.messages = (s', false) ∧
      s'.imageData = s.imageData ++ image.data ∧
      s'.pageInfo = s.pageInfo ++ (image.info image.data.length).bytes ∧
      s'.numPages = s.numPages + 1 ∧ s'.compression = s.compression := by
  let s₁ : ScannerState := { s.send (response "std-scan-page-start-response") with
    buf := [], currentPageBytes := 0, pixelWidth := page.width, pixelHeight := page.height }
  have hbegin : runMessages (Message.apply (processPage decoders)) s
      [itemMessage "std-scan-page-start" [] none,
        itemMessage "std-scan-page-widthpixel" page.width none,
        itemMessage "std-scan-page-heightpixel" page.height none] = (s₁, false) := by
    have hwidth : page.width.take 4 = page.width := List.take_of_length_le hpage.width.le
    have hheight : page.height.take 4 = page.height := List.take_of_length_le hpage.height.le
    simp only [runMessages, apply_itemMessage, SentItem.apply, tcpName_pageStart,
      tcpName_widthpixel, tcpName_heightpixel, hwidth, hheight, Bool.false_eq_true, if_false]
    rfl
  let s₂ : ScannerState := { s₁ with buf := page.data }
  have hchunks : runMessages (Message.apply (processPage decoders)) s₁
      (page.chunks.map fun chunk => itemMessage "std-scan-scandata-error" [] (some chunk)) =
        (s₂, false) := run_chunks _ page.chunks s₁
  let s₃ : ScannerState := s₂.send (response "std-scan-page-end-response")
  have hend : runMessages (Message.apply (processPage decoders)) s₂
      [itemMessage "std-scan-page-end" [] none] =
        ((processPage decoders s₃).1, decide ((processPage decoders s₃).2 ≠ 0)) := by
    rw [runMessages_singleton, apply_itemMessage, SentItem.apply, tcpName_pageEnd]
    rfl
  have hrun : runMessages (Message.apply (processPage decoders)) s page.messages =
      ((processPage decoders s₃).1, decide ((processPage decoders s₃).2 ≠ 0)) := by
    rw [SentPage.messages, List.append_assoc, runMessages_append hbegin,
      runMessages_append hchunks, hend]
  rw [SentPage.decode] at himage
  have hbuf : s₃.buf = page.data := rfl
  have hcompression : ntohl s₃.compression = ntohl s.compression := rfl
  split_ifs at himage with hempty hjpeg htiff
  · have hdone : processPage decoders s₃ = (addPage (decoders.jpeg page.data).width
        (decoders.jpeg page.data).height (decoders.jpeg page.data).lines.flatten
        { s₃ with
          pixelWidth := htonl (decoders.jpeg page.data).width
          pixelHeight := htonl (decoders.jpeg page.data).height }, 0) := by
      rw [processPage, hbuf, if_neg hempty, hcompression, if_pos hjpeg]
    rw [hdone] at hrun
    obtain rfl := Option.some.inj himage
    refine ⟨_, hrun, rfl, ?_, rfl, rfl⟩
    dsimp only at hlength ⊢
    rw [hlength]
    rfl
  · cases hread : decoders.tiff (ntohl page.width) (ntohl page.height) page.data with
    | failed =>
        rw [hread] at himage
        cases himage
    | read pixels =>
        rw [hread] at himage
        have hsize : decoders.tiff (ntohl s₃.pixelWidth) (ntohl s₃.pixelHeight) s₃.buf =
          .read pixels := hread
        have hdone : processPage decoders s₃ = (addPage (ntohl page.width) (ntohl page.height)
            (pixels.flatMap fun pixel => [pixel.1, pixel.2.1, pixel.2.2]) s₃, 0) := by
          rw [processPage, hbuf, if_neg hempty, hcompression, if_neg hjpeg, if_pos htiff]
          dsimp only
          rw [← hbuf, hsize]
          rfl
        rw [hdone] at hrun
        obtain rfl := Option.some.inj himage
        refine ⟨_, hrun, rfl, ?_, rfl, rfl⟩
        dsimp only at hlength ⊢
        rw [hlength]
        rfl

/-- The messages of pages add all of them to the store. -/
theorem run_pages {pages : List SentPage} {images : List Page} (hpages : ∀ p ∈ pages, p.Good)
    (himages : ∀ image ∈ images, image.Good)
    (hdecode : pages.map (SentPage.decode decoders (ntohl s.compression)) = images.map some) :
    ∃ s', runMessages (Message.apply (processPage decoders)) s (pages.flatMap SentPage.messages) =
        (s', false) ∧
      s'.imageData = s.imageData ++ (images.map Page.data).flatten ∧
      s'.pageInfo = s.pageInfo ++ (images.map fun p => (p.info p.data.length).bytes).flatten ∧
      s'.numPages = s.numPages + images.length := by
  induction pages generalizing s images with
  | nil =>
      obtain rfl : images = [] := List.map_eq_nil_iff.mp hdecode.symm
      exact ⟨s, rfl, (List.append_nil _).symm, (List.append_nil _).symm, rfl⟩
  | cons page pages ih =>
      cases images with
      | nil => exact absurd hdecode (List.cons_ne_nil _ _)
      | cons image images =>
          rw [List.map_cons, List.map_cons] at hdecode
          obtain ⟨himage, hrest⟩ := List.cons.inj hdecode
          obtain ⟨s₁, hrun, hdata, hinfo, hcount, hcompression⟩ :=
            run_page (hpages page List.mem_cons_self) himage
              (himages image List.mem_cons_self).length
          rw [← hcompression] at hrest
          obtain ⟨s₂, hrun', hdata', hinfo', hcount'⟩ :=
            ih (fun p hp => hpages p (List.mem_cons_of_mem page hp))
              (fun p hp => himages p (List.mem_cons_of_mem image hp)) hrest
          refine ⟨s₂, ?_, ?_, ?_, ?_⟩
          · rw [List.flatMap_cons, runMessages_append hrun, hrun']
          · rw [hdata', hdata, List.map_cons, List.flatten_cons, List.append_assoc]
          · rw [hinfo', hinfo, List.map_cons, List.flatten_cons, List.append_assoc]
          · rw [hcount', hcount, List.length_cons]
            omega

end Document

end SaneBackends.Dell
