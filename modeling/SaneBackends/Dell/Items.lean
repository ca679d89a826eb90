import SaneBackends.Lib.Spans
/-!
# `dell1600n_net.c`: the items of a message

A message is a header of eight bytes and the items behind it. An item has a name and a value, each
with its size in front. The pointers of the source are offsets into the memory that the message is
in; what lies behind the bytes that were received is arbitrary. Every read is listed.
-/

namespace SaneBackends.Dell

open SaneBackends.Lib

/-! ## The loop over the items -/

/-- `(((unsigned short) p[0]) << 8) | p[1]` -/
def shortAt (memory : Nat → UInt8) (p : Nat) : Nat :=
  (memory p).toNat * 256 + (memory (p + 1)).toNat

/-- What the loop knows of an item when it looks at its name. -/
structure Item where
  pName : Nat
  nameSize : Nat
  pValue : Nat
  valueSize : Nat
  deriving DecidableEq, Repr

/-- The item that begins at `pItem`. -/
def readItem (memory : Nat → UInt8) (pItem : Nat) : Item :=
  let nameSize := shortAt memory (pItem + 1)
  let pName := pItem + 3
  { pName, nameSize
    pValue := pName + nameSize + 3
    valueSize := shortAt memory (pName + nameSize + 1) }

/-- `pItem` behind the value. -/
def Item.next (item : Item) : Nat := item.pValue + item.valueSize

/-- The name, with what `strncmp` may look at. -/
def Item.name (memory : Nat → UInt8) (item : Item) : List UInt8 :=
  slice memory item.pName item.nameSize

/-- The two sizes and the name. -/
def Item.headSpans (item : Item) : List Span :=
  [⟨item.pName - 2, 2⟩, ⟨item.pValue - 2, 2⟩, ⟨item.pName, item.nameSize⟩]

/-- `!strncmp (key, pName, nameSize)`. -/
def sameName : List UInt8 → List UInt8 → Bool
  | _, [] => true
  | [], b :: _ => b == 0
  | k :: key, b :: name => k == b && sameName key name

/-- What the code does with an item: the new state, what it reads of the value and behind it, by
how much it moves `pItem` on behind the value, and the result if it returns. -/
structure Handled (σ : Type) where
  state : σ
  spans : List Span := []
  skip : Nat := 0
  result : Option Nat := none

/-- What the loop leaves. -/
structure Run (σ : Type) where
  state : σ
  spans : List Span
  result : Option Nat

/-- `while (pItem < pEnd)`. An item takes five bytes at least, so that the loop ends. -/
def itemLoop {σ : Type} (memory : Nat → UInt8) (handle : Item → σ → Handled σ) (pEnd pItem : Nat)
    (s : σ) : Run σ :=
  if pItem < pEnd then
    let item := readItem memory pItem
    let handled := handle item s
    let spans := item.headSpans ++ handled.spans
    match handled.result with
    | some result => ⟨handled.state, spans, some result⟩
    | none =>
        let rest := itemLoop memory handle pEnd (item.next + handled.skip) handled.state
        { rest with spans := spans ++ rest.spans }
  else ⟨s, [], none⟩
termination_by pEnd - pItem
decreasing_by
  simp only [readItem, Item.next]
  omega

/-! ## Uses of a value -/

/-- What is read of an item apart from its sizes and its name. -/
inductive Use where
  /-- Nothing. -/
  | nothing
  /-- The value, and `n` bytes from its beginning. -/
  | value (n : Nat)
  /-- A chunk of data behind the value: eight bytes, the last two of them its size, and the data. -/
  | chunk
  deriving DecidableEq, Repr

def Item.chunkSize (memory : Nat → UInt8) (item : Item) : Nat := shortAt memory (item.next + 6)

def Use.spans (memory : Nat → UInt8) (item : Item) : Use → List Span
  | nothing => []
  | value n => [⟨item.pValue, item.valueSize⟩, ⟨item.pValue, n⟩]
  | chunk => [⟨item.next + 6, 2⟩, ⟨item.next + 8, item.chunkSize memory⟩]

def Use.skip (memory : Nat → UInt8) (item : Item) : Use → Nat
  | nothing | value _ => 0
  | chunk => 8 + item.chunkSize memory

/-- The handler uses a value as its name says. -/
structure Uses {σ : Type} (use : List UInt8 → Use) (memory : Nat → UInt8)
    (handle : Item → σ → Handled σ) : Prop where
  spans : ∀ item s limit, AllInside limit (handle item s).spans ↔
    AllInside limit ((use (item.name memory)).spans memory item)
  skip : ∀ item s, (handle item s).skip = (use (item.name memory)).skip memory item

/-! ## The format -/

/-- A size in a list of bytes. -/
def sizeAt (bytes : List UInt8) (p : Nat) : Nat :=
  (bytes.getD p 0).toNat * 256 + (bytes.getD (p + 1) 0).toNat

/-- How many of the bytes from the value on are used. -/
def Use.need (valueSize : Nat) (bytes : List UInt8) : Use → Nat
  | nothing => 0
  | value n => max valueSize n
  | chunk => valueSize + 8 + sizeAt bytes (valueSize + 6)

/-- How many of the bytes from the value on belong to the item. -/
def Use.length (valueSize : Nat) (bytes : List UInt8) : Use → Nat
  | nothing | value _ => valueSize
  | chunk => valueSize + 8 + sizeAt bytes (valueSize + 6)

/-- Behind the header there are items only: the two sizes and the name of each are there, and as
much of its value and of what follows as its use needs. -/
def Fits (use : List UInt8 → Use) (bytes : List UInt8) : Prop :=
  if h : bytes = [] then True
  else
    let nameSize := sizeAt bytes 1
    let valueSize := sizeAt bytes (nameSize + 4)
    let use' := use ((bytes.drop 3).take nameSize)
    let behind := bytes.drop (nameSize + 6)
    nameSize + 6 ≤ bytes.length ∧ use'.need valueSize behind ≤ behind.length ∧
      Fits use (behind.drop (use'.length valueSize behind))
termination_by bytes.length
decreasing_by
  have := List.length_pos_of_ne_nil h
  simp only [List.length_drop]
  omega

theorem sizeAt_slice (memory : Nat → UInt8) (base : Nat) {n p : Nat} (h : p + 2 ≤ n) :
    sizeAt (slice memory base n) p = shortAt memory (base + p) := by
  rw [sizeAt, getD_slice memory base (by omega), getD_slice memory base (by omega)]
  rfl

variable {σ : Type} {use : List UInt8 → Use} {memory : Nat → UInt8}
  {handle : Item → σ → Handled σ} {pEnd : Nat}

/-- The bytes from `p` to the end of the message. -/
def bytesFrom (memory : Nat → UInt8) (pEnd p : Nat) : List UInt8 := slice memory p (pEnd - p)

theorem bytesFrom_length (memory : Nat → UInt8) (pEnd p : Nat) :
    (bytesFrom memory pEnd p).length = pEnd - p := slice_length memory p _

theorem drop_bytesFrom (memory : Nat → UInt8) (pEnd p i : Nat) :
    (bytesFrom memory pEnd p).drop i = bytesFrom memory pEnd (p + i) := by
  rw [bytesFrom, drop_slice, bytesFrom, Nat.sub_add_eq]

theorem bytesFrom_eq_nil_iff {p : Nat} : bytesFrom memory pEnd p = [] ↔ pEnd ≤ p := by
  rw [← List.length_eq_zero_iff, bytesFrom_length, Nat.sub_eq_zero_iff_le]

/-- What the use needs is there exactly if it is read inside of the message. -/
theorem Use.spans_inside_iff (u : Use) {item : Item} (h : item.pValue ≤ pEnd) :
    AllInside pEnd (u.spans memory item) ↔
      u.need item.valueSize (bytesFrom memory pEnd item.pValue) ≤ pEnd - item.pValue := by
  cases u with
  | nothing => simp [Use.spans, Use.need]
  | value n =>
      simp only [Use.spans, Use.need, allInside_cons, allInside_nil, and_true]
      omega
  | chunk =>
      simp only [Use.spans, Use.need, allInside_cons, allInside_nil, and_true, Item.chunkSize,
        Item.next]
      by_cases hthere : item.valueSize + 8 ≤ pEnd - item.pValue
      · rw [bytesFrom, sizeAt_slice memory _ (by omega), ← Nat.add_assoc]
        omega
      · omega

/-- Then the item ends where the code goes on. -/
theorem Use.skip_eq_length (u : Use) {item : Item}
    (h : u.need item.valueSize (bytesFrom memory pEnd item.pValue) ≤ pEnd - item.pValue) :
    item.pValue + u.length item.valueSize (bytesFrom memory pEnd item.pValue) =
      item.next + u.skip memory item := by
  cases u with
  | nothing => rfl
  | value n => rfl
  | chunk =>
      have hneed : item.valueSize + 8 + sizeAt (bytesFrom memory pEnd item.pValue)
          (item.valueSize + 6) ≤ pEnd - item.pValue := h
      have hsize : sizeAt (bytesFrom memory pEnd item.pValue) (item.valueSize + 6) =
          item.chunkSize memory := by
        rw [bytesFrom, sizeAt_slice memory _ (by omega), ← Nat.add_assoc]
        rfl
      change item.pValue + (item.valueSize + 8 + sizeAt _ _) =
        item.pValue + item.valueSize + (8 + item.chunkSize memory)
      rw [hsize]
      omega

theorem headSpans_inside_iff {p : Nat} :
    AllInside pEnd (readItem memory p).headSpans ↔ p + 3 + shortAt memory (p + 1) + 3 ≤ pEnd := by
  simp only [Item.headSpans, readItem, allInside_cons, allInside_nil, and_true]
  omega

/-- There is room for the sizes and the name exactly if they are read inside of the message. -/
theorem room_iff_headSpans_inside {p : Nat} :
    sizeAt (bytesFrom memory pEnd p) 1 + 6 ≤ (bytesFrom memory pEnd p).length ↔
      AllInside pEnd (readItem memory p).headSpans := by
  rw [headSpans_inside_iff, bytesFrom_length]
  -- Where the size itself is cut off, the bytes and the memory may differ in it.
  by_cases hsize : p + 3 ≤ pEnd
  · rw [bytesFrom, sizeAt_slice memory p (by omega)]
    omega
  · omega

/-- One item: it fits exactly if its sizes, its name and the use of its value lie inside, and what
comes behind it fits. -/
theorem fits_bytesFrom_iff {p : Nat} (hp : p < pEnd) :
    Fits use (bytesFrom memory pEnd p) ↔
      AllInside pEnd (readItem memory p).headSpans ∧
      AllInside pEnd ((use ((readItem memory p).name memory)).spans memory (readItem memory p)) ∧
      Fits use (bytesFrom memory pEnd ((readItem memory p).next +
        (use ((readItem memory p).name memory)).skip memory (readItem memory p))) := by
  have hne : bytesFrom memory pEnd p ≠ [] := by
    rw [Ne, bytesFrom_eq_nil_iff]
    omega
  rw [Fits, dif_neg hne]
  simp only [room_iff_headSpans_inside, drop_bytesFrom]
  refine and_congr_right fun hhead => ?_
  have hhere := headSpans_inside_iff.mp hhead
  have hinside : (readItem memory p).pValue ≤ pEnd := hhere
  have hname : sizeAt (bytesFrom memory pEnd p) 1 = shortAt memory (p + 1) :=
    sizeAt_slice memory p (by omega)
  have hvalue : sizeAt (bytesFrom memory pEnd p) (shortAt memory (p + 1) + 4) =
      (readItem memory p).valueSize := by
    rw [bytesFrom, sizeAt_slice memory p (by omega)]
    change shortAt memory _ = shortAt memory _
    congr 1
    omega
  have hslice : (bytesFrom memory pEnd (p + 3)).take (shortAt memory (p + 1)) =
      (readItem memory p).name memory := take_slice memory (p + 3) (by omega)
  have hpos : p + (shortAt memory (p + 1) + 6) = (readItem memory p).pValue := by
    change _ = p + 3 + shortAt memory (p + 1) + 3
    omega
  rw [hname, hvalue, hslice, hpos, bytesFrom_length, Use.spans_inside_iff _ hinside]
  refine and_congr_right fun hneed => ?_
  rw [Use.skip_eq_length _ hneed]

theorem fits_of_le {p : Nat} (hp : pEnd ≤ p) : Fits use (bytesFrom memory pEnd p) := by
  rw [bytesFrom_eq_nil_iff.mpr hp, Fits, dif_pos rfl]
  trivial

theorem itemLoop_done {p : Nat} (hp : ¬ p < pEnd) (s : σ) :
    itemLoop memory handle pEnd p s = ⟨s, [], none⟩ := by
  rw [itemLoop, if_neg hp]

/-- The reads of one pass, with those of the rest if there is one. -/
theorem itemLoop_spans {p : Nat} (hp : p < pEnd) (s : σ) :
    (itemLoop memory handle pEnd p s).spans =
      (readItem memory p).headSpans ++ (handle (readItem memory p) s).spans ++
        if (handle (readItem memory p) s).result = none then
          (itemLoop memory handle pEnd ((readItem memory p).next + (handle (readItem memory p) s).skip)
            (handle (readItem memory p) s).state).spans
        else [] := by
  rw [itemLoop, if_pos hp]
  dsimp only
  cases (handle (readItem memory p) s).result with
  | none => rw [if_pos rfl]
  | some result => rw [if_neg (Option.some_ne_none result), List.append_nil]

/-- Where the items fit, the loop stays inside of the message, also when it is left early. -/
theorem itemLoop_inside (h : Uses use memory handle) (p : Nat) (s : σ)
    (hfits : Fits use (bytesFrom memory pEnd p)) :
    AllInside pEnd (itemLoop memory handle pEnd p s).spans := by
  induction hn : pEnd - p using Nat.strong_induction_on generalizing p s with
  | h n ih =>
      by_cases hp : p < pEnd
      · rw [fits_bytesFrom_iff hp] at hfits
        obtain ⟨hhead, huse, hrest⟩ := hfits
        have hnext : p < (readItem memory p).next := by
          change p < p + 3 + shortAt memory (p + 1) + 3 + (readItem memory p).valueSize
          omega
        rw [itemLoop_spans hp, allInside_append, allInside_append, h.spans, h.skip]
        refine ⟨⟨hhead, huse⟩, ?_⟩
        split_ifs with hresult
        · exact ih _ (by omega) _ _ hrest rfl
        · exact allInside_nil
      · rw [itemLoop_done hp]
        exact allInside_nil

/-- A loop that is not left early stays inside of the message only where the items fit. -/
theorem fits_of_itemLoop_inside (h : Uses use memory handle)
    (hresult : ∀ item s, (handle item s).result = none) (p : Nat) (s : σ)
    (hinside : AllInside pEnd (itemLoop memory handle pEnd p s).spans) :
    Fits use (bytesFrom memory pEnd p) := by
  induction hn : pEnd - p using Nat.strong_induction_on generalizing p s with
  | h n ih =>
      by_cases hp : p < pEnd
      · have hnext : p < (readItem memory p).next := by
          change p < p + 3 + shortAt memory (p + 1) + 3 + (readItem memory p).valueSize
          omega
        rw [itemLoop_spans hp, if_pos (hresult _ s), allInside_append, allInside_append, h.spans,
          h.skip] at hinside
        obtain ⟨⟨hhead, huse⟩, hrest⟩ := hinside
        exact (fits_bytesFrom_iff hp).mpr ⟨hhead, huse, ih _ (by omega) _ _ hrest rfl⟩
      · exact fits_of_le (by omega)

theorem itemLoop_inside_iff (h : Uses use memory handle)
    (hresult : ∀ item s, (handle item s).result = none) (p : Nat) (s : σ) :
    AllInside pEnd (itemLoop memory handle pEnd p s).spans ↔
      Fits use (bytesFrom memory pEnd p) :=
  ⟨fits_of_itemLoop_inside h hresult p s, itemLoop_inside h p s⟩

end SaneBackends.Dell
