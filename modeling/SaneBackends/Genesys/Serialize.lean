import SaneBackends.Lib.Result
import SaneBackends.Lib.TextStream
/-!
# Serialisation of the calibration cache

The `serialize` overloads for a text stream: a number or a word with a blank behind it, and for a
container its size and its items, each on a line. A type that is serialised is put together from
these. A stream that has failed stays so, and whoever reads from it cannot use what was read.
-/

namespace SaneBackends.Genesys

open SaneBackends.Lib

/-! ## Integers -/

inductive IntKind where
  | char | unsignedChar | signedChar | short | unsignedShort | int | unsignedInt | long
  | unsignedLong | longLong | unsignedLongLong
  deriving DecidableEq, Repr

namespace IntKind

def bits : IntKind → Nat
  | char | unsignedChar | signedChar => 8
  | short | unsignedShort => 16
  | int | unsignedInt => 32
  | long | unsignedLong | longLong | unsignedLongLong => 64

def isSigned : IntKind → Bool
  | char | signedChar | short | int | long | longLong => true
  | unsignedChar | unsignedShort | unsignedInt | unsignedLong | unsignedLongLong => false

def least (k : IntKind) : Int := if k.isSigned then -2 ^ (k.bits - 1) else 0

def greatest (k : IntKind) : Int := k.least + 2 ^ k.bits - 1

/-- A value of the type. -/
def Val (k : IntKind) : Type := { n : Int // k.least ≤ n ∧ n ≤ k.greatest }

/-- Conversion to the type. -/
def ofInt (k : IntKind) (n : Int) : k.Val :=
  ⟨(n - k.least) % 2 ^ k.bits + k.least,
    Int.le_add_of_nonneg_left (Int.emod_nonneg _ (Int.ne_of_gt (Int.pow_pos (by decide)))), by
      have hlt : (n - k.least) % 2 ^ k.bits < 2 ^ k.bits :=
        Int.emod_lt_of_pos _ (Int.pow_pos (by decide))
      rw [greatest]
      omega⟩

/-- Characters are written and read as `int` or `unsigned`. -/
def wire : IntKind → IntKind
  | char | signedChar => int
  | unsignedChar => unsignedInt
  | k => k

/-- What `>>` takes for a number of the type; of an unsigned one the negative. -/
def Takes (k : IntKind) (n : Int) : Prop :=
  if k.isSigned then k.least ≤ n ∧ n ≤ k.greatest else (n.natAbs : Int) ≤ k.greatest

instance (k : IntKind) (n : Int) : Decidable (k.Takes n) := by
  unfold Takes
  infer_instance

end IntKind

/-! ## Reading and writing -/

inductive SerialFault where
  | badStream
  | vectorSize
  | arraySize
  | lengthError
  deriving DecidableEq, Repr

/-- How a type is written and read, into what the target contains, and what a new value of it is
before anything is read. -/
structure Codec (α : Type) where
  write : α → List UInt8
  read : α → List UInt8 → Except SerialFault (α × List UInt8)
  fresh : α

def readInt (k : IntKind) (text : List UInt8) : Except SerialFault (k.Val × List UInt8) :=
  match readSigned text with
  | none => .error .badStream
  | some (n, rest) => if k.wire.Takes n then .ok (k.ofInt n, rest) else .error .badStream

def writeInt (n : Int) : List UInt8 := writeSigned n ++ [32]

def intCodec (k : IntKind) : Codec k.Val where
  write n := writeInt n.val
  read _ text := readInt k text
  fresh := k.ofInt 0

def boolCodec : Codec Bool where
  write x := writeInt x.toNat
  read _ text := do
    let (v, text) ← readInt .unsignedInt text
    .ok (v.val != 0, text)
  fresh := false

def stringCodec : Codec (List UInt8) where
  write word := word ++ [32]
  read _ text :=
    match readWord text with
    | none => .error .badStream
    | some (word, rest) => .ok (word, rest)
  fresh := []

section Containers

variable {α : Type}

/-- The size of a container, and the newline behind it. -/
def writeSize (size : Nat) : List UInt8 := writeInt size ++ [10]

def writeItems (c : Codec α) (items : List α) : List UInt8 :=
  items.flatMap fun item => c.write item ++ [10]

/-- One item after the other is read, each into its target. -/
def readEach (c : Codec α) : (targets : List α) → List UInt8 →
    Except SerialFault ({ items : List α // items.length = targets.length } × List UInt8)
  | [], text => .ok (⟨[], rfl⟩, text)
  | target :: targets, text => do
      let (item, text) ← c.read target text
      let (items, text) ← readEach c targets text
      .ok (⟨item :: items.val, congrArg Nat.succ items.property⟩, text)

/-- A vector, whose size is a `size_t`. -/
def Vec (α : Type) : Type := { items : List α // items.length < 2 ^ 64 }

def Vec.empty : Vec α := ⟨[], Nat.two_pow_pos 64⟩

/-- Every item is read into a new one, which is appended. -/
def readVector (c : Codec α) (maxSize : Nat) (target : Vec α) (text : List UInt8) :
    Except SerialFault (Vec α × List UInt8) := do
  let (size, text) ← readInt .unsignedLong text
  if (maxSize : Int) < size.val then .error .vectorSize
  else do
    let (items, text) ← readEach c (List.replicate size.val.toNat c.fresh) text
    if h : (target.val ++ items.val).length < 2 ^ 64 then
      .ok (⟨target.val ++ items.val, h⟩, text)
    else .error .lengthError

def vectorCodec (c : Codec α) : Codec (Vec α) where
  write v := writeSize v.val.length ++ writeItems c v.val
  read := readVector c (2 ^ 64 - 1)
  fresh := .empty

/-- An array of a size. -/
def Arr (size : UInt64) (α : Type) : Type := { items : List α // items.length = size.toNat }

def readArray (c : Codec α) (size : UInt64) (target : Arr size α) (text : List UInt8) :
    Except SerialFault (Arr size α × List UInt8) := do
  let (newSize, text) ← readInt .unsignedLong text
  if (size.toNat : Int) < newSize.val then .error .arraySize
  else do
    let (items, text) ← readEach c target.val text
    .ok (⟨items.val, items.property.trans target.property⟩, text)

def arrayCodec (c : Codec α) (size : UInt64) : Codec (Arr size α) where
  write v := writeSize v.val.length ++ writeItems c v.val
  read := readArray c size
  fresh := ⟨List.replicate size.toNat c.fresh, List.length_replicate⟩

end Containers

/-- A `RegisterSetting` with values of a type. -/
structure SerialSetting (k : IntKind) where
  address : IntKind.unsignedShort.Val
  value : k.Val
  mask : k.Val

def settingCodec (k : IntKind) : Codec (SerialSetting k) where
  write reg := writeInt reg.address.val ++ writeInt reg.value.val ++ writeInt reg.mask.val
  read _ text := do
    let (address, text) ← readInt .unsignedShort text
    let (value, text) ← readInt k text
    let (mask, text) ← readInt k text
    .ok (⟨address, value, mask⟩, text)
  fresh := ⟨IntKind.ofInt _ 0, k.ofInt 0, k.ofInt 0⟩

/-- A `RegisterSettingSet` is cleared before it is read. -/
def settingSetCodec (k : IntKind) : Codec (Vec (SerialSetting k)) where
  write v := writeSize v.val.length ++ writeItems (settingCodec k) v.val
  read _ text := readVector (settingCodec k) (2 ^ 16) .empty text
  fresh := .empty

/-! ## The types -/

/-- The types with an overload. -/
inductive SerialType where
  | int (k : IntKind)
  | bool
  | string
  | vector (item : SerialType)
  | array (size : UInt64) (item : SerialType)
  | setting (k : IntKind)
  | settingSet (k : IntKind)

namespace SerialType

def Val : SerialType → Type
  | int k => k.Val
  | bool => Bool
  | string => List UInt8
  | vector item => Vec item.Val
  | array size item => Arr size item.Val
  | setting k => SerialSetting k
  | settingSet k => Vec (SerialSetting k)

def codec : (t : SerialType) → Codec t.Val
  | int k => intCodec k
  | bool => boolCodec
  | string => stringCodec
  | vector item => vectorCodec item.codec
  | array size item => arrayCodec item.codec size
  | setting k => settingCodec k
  | settingSet k => settingSetCodec k

/-- What has been written is read back, whatever is behind it, up to blanks at its end. -/
def RoundTrips (t : SerialType) (v target : t.Val) (rest : List UInt8) : Prop :=
  ∃ gap, Blanks gap ∧ gap <:+ t.codec.write v ∧
    t.codec.read target (t.codec.write v ++ rest) = .ok (v, gap ++ rest)

/-- An array with another stored length is rejected, whatever is behind that. -/
def RejectsLength (size : UInt64) (item : SerialType) (stored : UInt64) : Prop :=
  ∀ (target : (array size item).Val) (rest : List UInt8),
    (array size item).codec.read target (writeSize stored.toNat ++ rest) = .error .arraySize

/-- Each string is a word, each vector that is read into is empty, and a set of settings has no
more than there are addresses. -/
def Clean : (t : SerialType) → t.Val → t.Val → Prop
  | int _, _, _ => True
  | bool, _, _ => True
  | string, v, _ => IsWord v
  | vector item, v, target => target.val = [] ∧ ∀ x ∈ v.val, item.Clean x item.codec.fresh
  | array _ item, v, target => List.Forall₂ item.Clean v.val target.val
  | setting _, _, _ => True
  | settingSet _, v, _ => v.val.length ≤ 2 ^ 16

end SerialType

/-! ## Laws of a codec -/

/-- Blanks in front do not matter, a clean value is read back, and no other is. -/
structure Codec.Lawful {α : Type} (c : Codec α) (clean : α → α → Prop) : Prop where
  skips : ∀ target text, c.read target (skipBlanks text) = c.read target text
  reads : ∀ v target, clean v target → ∃ gap, Blanks gap ∧ gap <:+ c.write v ∧
    ∀ rest, c.read target (c.write v ++ rest) = .ok (v, gap ++ rest)
  only : ∀ v target rest behind, c.read target (c.write v ++ rest) = .ok (v, behind) →
    clean v target

section Laws

variable {α : Type} {c : Codec α} {clean : α → α → Prop}

theorem blanks_singleton {b : UInt8} (hb : isBlank b = true) : Blanks [b] := by
  intro d hd
  rw [List.mem_singleton.mp hd]
  exact hb

theorem blanks_append {gap gap' : List UInt8} (h : Blanks gap) (h' : Blanks gap') :
    Blanks (gap ++ gap') := by
  intro d hd
  rcases List.mem_append.mp hd with hd | hd
  · exact h d hd
  · exact h' d hd

theorem Codec.Lawful.read_blanks (h : c.Lawful clean) {gap : List UInt8} (hgap : Blanks gap)
    (target : α) (text : List UInt8) : c.read target (gap ++ text) = c.read target text := by
  rw [← h.skips, skipBlanks_append hgap, h.skips]

/-! ## Integers -/

theorem IntKind.ofInt_of_range {k : IntKind} {n : Int} (h : k.least ≤ n ∧ n ≤ k.greatest) :
    k.ofInt n = ⟨n, h⟩ := by
  have hlt := h.2
  rw [IntKind.greatest] at hlt
  refine Subtype.ext ?_
  change (n - k.least) % 2 ^ k.bits + k.least = n
  rw [Int.emod_eq_of_lt (by omega) (by omega)]
  omega

/-- A value of a type is taken where it is written. -/
theorem IntKind.takes_of_range {k : IntKind} {n : Int} (h : k.least ≤ n ∧ n ≤ k.greatest) :
    k.wire.Takes n := by
  obtain ⟨hlow, hhigh⟩ := h
  cases k <;>
    simp only [least, greatest, isSigned, bits, wire, Takes, if_true, Bool.false_eq_true,
      if_false] at hlow hhigh ⊢ <;> omega

theorem readInt_skip (k : IntKind) (text : List UInt8) :
    readInt k (skipBlanks text) = readInt k text := by
  rw [readInt, readInt, readSigned_skip]

theorem readInt_writeInt {k : IntKind} (v : k.Val) (rest : List UInt8) :
    readInt k (writeInt v.val ++ rest) = .ok (v, 32 :: rest) := by
  rw [readInt, writeInt, List.append_assoc, show [32] ++ rest = 32 :: rest from rfl,
    readSigned_writeSigned]
  dsimp only
  rw [if_pos (IntKind.takes_of_range v.property), IntKind.ofInt_of_range v.property]
  rfl

theorem lawful_int (k : IntKind) : (intCodec k).Lawful fun _ _ => True where
  skips _ text := readInt_skip k text
  reads v _ _ := ⟨[32], blanks_singleton rfl, List.suffix_append _ _, readInt_writeInt v⟩
  only _ _ _ _ _ := trivial

theorem size_range {size : Nat} (hsize : size < 2 ^ 64) :
    IntKind.unsignedLong.least ≤ (size : Int) ∧ (size : Int) ≤ IntKind.unsignedLong.greatest := by
  constructor
  · exact Int.natCast_nonneg size
  · change (size : Int) ≤ 0 + 2 ^ 64 - 1
    omega

/-- The size of a container is read back. -/
theorem readSize {size : Nat} (hsize : size < 2 ^ 64) (rest : List UInt8) :
    readInt .unsignedLong (writeSize size ++ rest) =
      .ok (⟨size, size_range hsize⟩, 32 :: 10 :: rest) := by
  rw [writeSize, List.append_assoc]
  exact readInt_writeInt (k := .unsignedLong) ⟨size, size_range hsize⟩ _

theorem lawful_bool : boolCodec.Lawful fun _ _ => True where
  skips target text := by
    change (readInt .unsignedInt (skipBlanks text) >>= _) = (readInt .unsignedInt text >>= _)
    rw [readInt_skip]
  reads v _ _ := by
    refine ⟨[32], blanks_singleton rfl, List.suffix_append _ _, fun rest => ?_⟩
    have hrange : IntKind.unsignedInt.least ≤ (v.toNat : Int) ∧
        (v.toNat : Int) ≤ IntKind.unsignedInt.greatest := by
      cases v <;> decide
    have hread := readInt_writeInt (k := .unsignedInt) ⟨v.toNat, hrange⟩ rest
    change (readInt .unsignedInt (writeInt v.toNat ++ rest) >>= _) = _
    rw [hread]
    cases v <;> rfl
  only _ _ _ _ _ := trivial

/-! ## Strings -/

theorem lawful_string : stringCodec.Lawful fun v _ => IsWord v where
  skips target text := by
    rw [stringCodec]
    dsimp only
    rw [readWord_skip]
  reads v _ hword := by
    refine ⟨[32], blanks_singleton rfl, List.suffix_append _ _, fun rest => ?_⟩
    rw [stringCodec]
    dsimp only
    rw [List.append_assoc, show [32] ++ rest = 32 :: rest from rfl, readWord_append hword]
  only v _ rest behind hread := by
    rw [stringCodec] at hread
    dsimp only at hread
    cases hnext : readWord (v ++ [32] ++ rest) with
    | none =>
        rw [hnext] at hread
        cases hread
    | some next =>
        obtain ⟨word, after⟩ := next
        rw [hnext] at hread
        rw [← (Prod.mk.inj (Except.ok.inj hread)).1]
        exact readWord_isWord hnext

/-! ## Items one after the other -/

theorem writeItems_cons (c : Codec α) (item : α) (items : List α) :
    writeItems c (item :: items) = c.write item ++ [10] ++ writeItems c items := rfl

theorem readEach_cons (target : α) (targets : List α) (text : List UInt8) :
    readEach c (target :: targets) text = c.read target text >>= fun p =>
      readEach c targets p.2 >>= fun q =>
        .ok (⟨p.1 :: q.1.val, congrArg Nat.succ q.1.property⟩, q.2) := rfl

/-- The first item behind blanks. -/
theorem Codec.Lawful.read_first (h : c.Lawful clean) {before : List UInt8} (hbefore : Blanks before)
    (target item : α) (items : List α) (rest : List UInt8) :
    c.read target (before ++ writeItems c (item :: items) ++ rest) =
      c.read target (c.write item ++ ([10] ++ (writeItems c items ++ rest))) := by
  rw [writeItems_cons, List.append_assoc, h.read_blanks hbefore, List.append_assoc,
    List.append_assoc]

/-- Clean items are read back, each into its target. -/
theorem readEach_write (h : c.Lawful clean) {items targets : List α}
    (hclean : List.Forall₂ clean items targets) {before : List UInt8} (hbefore : Blanks before) :
    ∃ gap, Blanks gap ∧ gap <:+ before ++ writeItems c items ∧
      ∀ rest, ∃ read, read.val = items ∧
        readEach c targets (before ++ writeItems c items ++ rest) = .ok (read, gap ++ rest) := by
  induction hclean generalizing before with
  | nil =>
      refine ⟨before, hbefore, ⟨[], (List.append_nil before).symm⟩, fun rest =>
        ⟨⟨[], rfl⟩, rfl, ?_⟩⟩
      rw [show writeItems c ([] : List α) = [] from rfl, List.append_nil]
      rfl
  | @cons item target items targets hitem hitems ih =>
      obtain ⟨gap, hgap, ⟨used, hused⟩, hread⟩ := h.reads item target hitem
      obtain ⟨gap', hgap', hsuffix', hread'⟩ :=
        ih (blanks_append hgap (blanks_singleton (show isBlank 10 = true from rfl)))
      refine ⟨gap', hgap', hsuffix'.trans ⟨before ++ used, ?_⟩, fun rest => ?_⟩
      · rw [writeItems_cons, ← hused]
        simp only [List.append_assoc]
      · obtain ⟨read, hval, hrest⟩ := hread' rest
        refine ⟨⟨item :: read.val, congrArg Nat.succ read.property⟩, congrArg _ hval, ?_⟩
        rw [readEach_cons, h.read_first hbefore, hread, ok_bind]
        dsimp only
        rw [show gap ++ ([10] ++ (writeItems c items ++ rest)) =
          gap ++ [10] ++ writeItems c items ++ rest by simp only [List.append_assoc], hrest]
        rfl

/-- If items are read back, they are clean. -/
theorem readEach_only (h : c.Lawful clean) {targets items : List α} {before : List UInt8}
    (hbefore : Blanks before) {rest behind : List UInt8}
    {read : { items : List α // items.length = targets.length }}
    (hrun : readEach c targets (before ++ writeItems c items ++ rest) = .ok (read, behind))
    (hval : read.val = items) : List.Forall₂ clean items targets := by
  induction targets generalizing items before behind with
  | nil =>
      rw [← hval, List.eq_nil_of_length_eq_zero read.property]
      exact .nil
  | cons target targets ih =>
      cases items with
      | nil =>
          have hlength := read.property
          rw [hval] at hlength
          cases hlength
      | cons item items =>
          rw [readEach_cons, h.read_first hbefore] at hrun
          obtain ⟨first, hfirst, hrun⟩ := bind_eq_ok.mp hrun
          obtain ⟨others, hothers, hrun⟩ := bind_eq_ok.mp hrun
          rw [← (Prod.mk.inj (Except.ok.inj hrun)).1] at hval
          obtain ⟨hitem, hitems⟩ := List.cons.inj hval
          have hclean : clean item target := by
            refine h.only item target ([10] ++ (writeItems c items ++ rest)) first.2 ?_
            rw [hfirst, ← hitem]
          obtain ⟨gap, hgap, -, hread⟩ := h.reads item target hclean
          rw [hread] at hfirst
          have hblanks : Blanks (gap ++ [10]) :=
            blanks_append hgap (blanks_singleton (show isBlank 10 = true from rfl))
          have hrest : readEach c targets (gap ++ [10] ++ writeItems c items ++ rest) =
              .ok (others.1, others.2) := by
            rw [← hothers, ← Except.ok.inj hfirst]
            simp only [List.append_assoc]
          exact .cons hclean (ih hblanks hrest hitems)

theorem forall₂_replicate {items : List α} {target : α} :
    List.Forall₂ clean items (List.replicate items.length target) ↔
      ∀ x ∈ items, clean x target := by
  induction items with
  | nil => exact iff_of_true .nil fun x hx => absurd hx (List.not_mem_nil)
  | cons item items ih =>
      rw [List.length_cons, List.replicate_succ, List.forall₂_cons, ih, List.forall_mem_cons]

/-! ## Containers -/

theorem blanks_behindSize : Blanks [32, 10] := by
  intro b hb
  rcases List.mem_cons.mp hb with rfl | hb
  · rfl
  · rw [List.mem_singleton.mp hb]
    rfl

/-- What is read behind the size of a container. -/
theorem readVector_size {maxSize : Nat} {size : Nat} (hsize : size < 2 ^ 64)
    (hmax : size ≤ maxSize) (target : Vec α) (text : List UInt8) :
    readVector c maxSize target (writeSize size ++ text) =
      readEach c (List.replicate size c.fresh) ([32, 10] ++ text) >>= fun p =>
        if h : (target.val ++ p.1.val).length < 2 ^ 64 then
          .ok (⟨target.val ++ p.1.val, h⟩, p.2)
        else .error .lengthError := by
  rw [readVector, readSize hsize, ok_bind]
  dsimp only
  rw [if_neg (by omega), Int.toNat_natCast]
  rfl

theorem readArray_size {size : UInt64} {stored : Nat} (hstored : stored ≤ size.toNat)
    (target : Arr size α) (text : List UInt8) :
    readArray c size target (writeSize stored ++ text) =
      readEach c target.val ([32, 10] ++ text) >>= fun p =>
        .ok (⟨p.1.val, p.1.property.trans target.property⟩, p.2) := by
  have hlt := size.toNat_lt
  rw [readArray, readSize (show stored < 2 ^ 64 by omega), ok_bind]
  dsimp only
  rw [if_neg (by omega)]
  rfl

theorem suffix_container {gap : List UInt8} {size : Nat} {items : List α}
    (h : gap <:+ [32, 10] ++ writeItems c items) :
    gap <:+ writeSize size ++ writeItems c items := by
  refine h.trans ⟨writeSigned size, ?_⟩
  rw [writeSize, writeInt]
  simp only [List.append_assoc]
  rfl

/-- Clean items are read into an empty vector. -/
theorem readVector_write (h : c.Lawful clean) {maxSize : Nat} {v : Vec α}
    (hmax : v.val.length ≤ maxSize) (hclean : ∀ x ∈ v.val, clean x c.fresh) {target : Vec α}
    (htarget : target.val = []) : ∃ gap, Blanks gap ∧
      gap <:+ writeSize v.val.length ++ writeItems c v.val ∧
      ∀ rest, readVector c maxSize target
        (writeSize v.val.length ++ writeItems c v.val ++ rest) = .ok (v, gap ++ rest) := by
  obtain ⟨gap, hgap, hsuffix, hread⟩ :=
    readEach_write h (forall₂_replicate.mpr hclean) blanks_behindSize
  refine ⟨gap, hgap, suffix_container hsuffix, fun rest => ?_⟩
  obtain ⟨read, hval, hitems⟩ := hread rest
  have happend : target.val ++ read.val = v.val := by rw [htarget, hval, List.nil_append]
  have hlength : (target.val ++ read.val).length < 2 ^ 64 := by
    rw [happend]
    exact v.property
  have hvec : (⟨target.val ++ read.val, hlength⟩ : Vec α) = v := Subtype.ext happend
  rw [List.append_assoc, readVector_size v.property hmax, ← List.append_assoc, hitems, ok_bind,
    dif_pos hlength, hvec]

/-- If a vector is read back, its items are clean, there are not too many, and the target was
empty. -/
theorem readVector_only (h : c.Lawful clean) {maxSize : Nat} {v target : Vec α}
    {rest behind : List UInt8}
    (hrun : readVector c maxSize target (writeSize v.val.length ++ writeItems c v.val ++ rest) =
      .ok (v, behind)) :
    v.val.length ≤ maxSize ∧ target.val = [] ∧ ∀ x ∈ v.val, clean x c.fresh := by
  rw [List.append_assoc] at hrun
  have hmax : v.val.length ≤ maxSize := by
    by_contra hlong
    rw [readVector, readSize v.property, ok_bind] at hrun
    dsimp only at hrun
    rw [if_pos (by omega)] at hrun
    cases hrun
  rw [readVector_size v.property hmax] at hrun
  obtain ⟨read, hitems, hrun⟩ := bind_eq_ok.mp hrun
  split_ifs at hrun with hlength
  have hval : target.val ++ read.1.val = v.val :=
    congrArg Subtype.val (Prod.mk.inj (Except.ok.inj hrun)).1
  have hsize : read.1.val.length = v.val.length :=
    read.1.property.trans List.length_replicate
  have hempty : target.val = [] := by
    have hboth := congrArg List.length hval
    rw [List.length_append] at hboth
    exact List.eq_nil_of_length_eq_zero (by omega)
  rw [hempty, List.nil_append] at hval
  have hread : readEach c (List.replicate v.val.length c.fresh)
      ([32, 10] ++ writeItems c v.val ++ rest) = .ok (read.1, read.2) := by
    rw [List.append_assoc]
    exact hitems
  exact ⟨hmax, hempty, forall₂_replicate.mp (readEach_only h blanks_behindSize hread hval)⟩

theorem readVector_skip (maxSize : Nat) (target : Vec α) (text : List UInt8) :
    readVector c maxSize target (skipBlanks text) = readVector c maxSize target text := by
  rw [readVector, readVector, readInt_skip]

theorem lawful_vector (h : c.Lawful clean) : (vectorCodec c).Lawful fun v target =>
    target.val = [] ∧ ∀ x ∈ v.val, clean x c.fresh where
  skips := readVector_skip _
  reads v _ hclean := readVector_write h (Nat.le_sub_one_of_lt v.property) hclean.2 hclean.1
  only _ _ _ _ hrun := (readVector_only h hrun).2

theorem lawful_array (h : c.Lawful clean) (size : UInt64) :
    (arrayCodec c size).Lawful fun v target => List.Forall₂ clean v.val target.val where
  skips target text := by
    change readArray c size target (skipBlanks text) = readArray c size target text
    rw [readArray, readArray, readInt_skip]
  reads v target hclean := by
    obtain ⟨gap, hgap, hsuffix, hread⟩ := readEach_write h hclean blanks_behindSize
    refine ⟨gap, hgap, suffix_container hsuffix, fun rest => ?_⟩
    obtain ⟨read, hval, hitems⟩ := hread rest
    change readArray c size target (writeSize v.val.length ++ writeItems c v.val ++ rest) = _
    rw [List.append_assoc, readArray_size v.property.le, ← List.append_assoc, hitems, ok_bind]
    exact congrArg Except.ok (Prod.ext (Subtype.ext hval) rfl)
  only v target rest behind hrun := by
    change readArray c size target (writeSize v.val.length ++ writeItems c v.val ++ rest) = _ at hrun
    rw [List.append_assoc, readArray_size v.property.le] at hrun
    obtain ⟨read, hitems, hrun⟩ := bind_eq_ok.mp hrun
    have hread : readEach c target.val ([32, 10] ++ writeItems c v.val ++ rest) =
        .ok (read.1, read.2) := by
      rw [List.append_assoc]
      exact hitems
    exact readEach_only h blanks_behindSize hread
      (congrArg Subtype.val (Prod.mk.inj (Except.ok.inj hrun)).1)

/-! ## Register settings -/

theorem lawful_setting (k : IntKind) : (settingCodec k).Lawful fun _ _ => True where
  skips target text := by
    change (readInt .unsignedShort (skipBlanks text) >>= _) =
      (readInt .unsignedShort text >>= _)
    rw [readInt_skip]
  reads v _ _ := by
    refine ⟨[32], blanks_singleton rfl, ?_, fun rest => ?_⟩
    · exact (List.suffix_append _ _).trans (List.suffix_append _ _)
    · change (readInt .unsignedShort (writeInt v.address.val ++ writeInt v.value.val ++
        writeInt v.mask.val ++ rest) >>= _) = _
      have hskip : ∀ text, readInt k (32 :: text) = readInt k text := fun text => by
        rw [← readInt_skip, show skipBlanks (32 :: text) = skipBlanks text from rfl, readInt_skip]
      rw [List.append_assoc, List.append_assoc, readInt_writeInt, ok_bind]
      dsimp only
      rw [hskip, readInt_writeInt, ok_bind]
      dsimp only
      rw [hskip, readInt_writeInt, ok_bind]
      rfl
  only _ _ _ _ _ := trivial

theorem lawful_settingSet (k : IntKind) :
    (settingSetCodec k).Lawful fun v _ => v.val.length ≤ 2 ^ 16 where
  skips _ := readVector_skip _ _
  reads _ _ hle := readVector_write (lawful_setting k) hle (fun _ _ => trivial) rfl
  only _ _ _ _ hrun := (readVector_only (lawful_setting k) hrun).1

end Laws

/-! ## All types -/

namespace SerialType

theorem lawful (t : SerialType) : t.codec.Lawful t.Clean := by
  induction t with
  | int k => exact lawful_int k
  | bool => exact lawful_bool
  | string => exact lawful_string
  | vector item ih => exact lawful_vector ih
  | array size item ih => exact lawful_array ih size
  | setting k => exact lawful_setting k
  | settingSet k => exact lawful_settingSet k

theorem roundTrips_iff (t : SerialType) (v target : t.Val) (rest : List UInt8) :
    t.RoundTrips v target rest ↔ t.Clean v target := by
  constructor
  · rintro ⟨gap, -, -, hread⟩
    exact t.lawful.only v target rest _ hread
  · intro hclean
    obtain ⟨gap, hgap, hsuffix, hread⟩ := t.lawful.reads v target hclean
    exact ⟨gap, hgap, hsuffix, hread rest⟩

/-- Each type has a value that is read into a new one. -/
theorem exists_clean (t : SerialType) : ∃ v, t.Clean v t.codec.fresh := by
  induction t with
  | int k => exact ⟨k.ofInt 0, trivial⟩
  | bool => exact ⟨false, trivial⟩
  | string => exact ⟨[48], List.cons_ne_nil _ _, fun c hc => by rw [List.mem_singleton.mp hc]; rfl⟩
  | vector item ih => exact ⟨.empty, rfl, fun x hx => absurd hx List.not_mem_nil⟩
  | array size item ih =>
      obtain ⟨v, hv⟩ := ih
      refine ⟨⟨List.replicate size.toNat v, List.length_replicate⟩, ?_⟩
      change List.Forall₂ item.Clean (List.replicate size.toNat v)
        (List.replicate size.toNat item.codec.fresh)
      generalize size.toNat = n
      induction n with
      | zero => exact .nil
      | succ n ih => exact .cons hv ih
  | setting k => exact ⟨(settingCodec k).fresh, trivial⟩
  | settingSet k => exact ⟨.empty, Nat.zero_le _⟩

/-- A stored length that is too short is not seen if there is enough to read behind it. -/
theorem rejectsLength_iff (size : UInt64) (item : SerialType) (stored : UInt64) :
    RejectsLength size item stored ↔ size < stored := by
  rw [UInt64.lt_iff_toNat_lt]
  constructor
  · intro hrejects
    by_contra hle
    obtain ⟨v, hv⟩ := (array size item).exists_clean
    obtain ⟨gap, -, -, hread⟩ := readEach_write item.lawful hv blanks_behindSize
    obtain ⟨read, -, hitems⟩ := hread []
    have hfault : readArray item.codec size (arrayCodec item.codec size).fresh
        (writeSize stored.toNat ++ (writeItems item.codec v.val ++ [])) = .error .arraySize :=
      hrejects _ _
    have hstored : stored.toNat ≤ size.toNat := Nat.le_of_not_lt hle
    rw [readArray_size hstored, ← List.append_assoc] at hfault
    have hitems' : readEach item.codec (arrayCodec item.codec size).fresh.val
        ([32, 10] ++ writeItems item.codec v.val ++ []) = .ok (read, gap ++ []) := hitems
    rw [hitems', ok_bind] at hfault
    cases hfault
  · intro hlt target rest
    have hread : readArray item.codec size target (writeSize stored.toNat ++ rest) =
        .error .arraySize := by
      unfold readArray
      rw [readSize stored.toNat_lt, ok_bind]
      dsimp only
      rw [if_pos (by omega)]
    exact hread

/-- A value is read back just if it is clean, and another length of an array rejected just if it
is a greater one. -/
theorem serialize_exact_iff (t : SerialType) :
    (∀ v target rest, t.RoundTrips v target rest ↔ t.Clean v target) ∧
      ∀ size stored, RejectsLength size t stored ↔ size < stored :=
  ⟨t.roundTrips_iff, fun size stored => rejectsLength_iff size t stored⟩

/-- A vector of one number, and one that is read into a vector with another. -/
def oneNumber (n : Int) : (vector (int .int)).Val :=
  ⟨[IntKind.ofInt .int n], Nat.one_lt_two_pow (Nat.succ_ne_zero 63)⟩

theorem not_serialize_exact_reused :
    ¬ (vector (int .int)).RoundTrips (oneNumber 1) (oneNumber 2) [] ∧
      ¬ RejectsLength 2 (int .int) 1 := by
  constructor
  · intro hround
    have hempty := ((roundTrips_iff _ _ _ _).mp hround).1
    cases hempty
  · intro hrejects
    exact absurd ((rejectsLength_iff _ _ _).mp hrejects) (by decide)

end SerialType

end SaneBackends.Genesys
