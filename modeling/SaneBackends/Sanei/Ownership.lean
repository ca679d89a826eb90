import SaneBackends.Sanei.Sending
/-!
# What a value owns

The `Holding` of a value lists the blocks it keeps and what freeing it does about
them. The two need not agree: the sizes of arrays are taken from the wire when a
value is decoded and computed from its contents when it is freed.
-/

namespace SaneBackends.Sanei

/-- A block of a value and the bytes allocated for it. -/
structure Owned where
  addr : Nat
  bytes : Nat
  deriving DecidableEq, Repr

/-- One effect of freeing: a block freed together with the bytes taken off
`allocated_memory`, or an access outside the value. -/
inductive FreeAct where
  | release (addr : Nat) (bytes : BitVec 32)
  | fault (f : Fault)
  deriving DecidableEq, Repr

/-- `decoded` is what decoding ensures. The walk that frees the value stays inside of
it if it is `walkable` and reaches every block if moreover they are all `kept`. -/
structure Holding where
  blocks : List Owned
  acts : List FreeAct
  decoded : Prop
  walkable : Prop
  kept : Prop

namespace Holding

def empty : Holding := ⟨[], [], True, True, True⟩

instance : Append Holding where
  append g h := ⟨g.blocks ++ h.blocks, g.acts ++ h.acts, g.decoded ∧ h.decoded,
    g.walkable ∧ h.walkable, g.kept ∧ h.kept⟩

@[simp] theorem append_blocks (g h : Holding) : (g ++ h).blocks = g.blocks ++ h.blocks := rfl
@[simp] theorem append_acts (g h : Holding) : (g ++ h).acts = g.acts ++ h.acts := rfl
@[simp] theorem append_decoded (g h : Holding) :
    (g ++ h).decoded = (g.decoded ∧ h.decoded) := rfl
@[simp] theorem append_walkable (g h : Holding) :
    (g ++ h).walkable = (g.walkable ∧ h.walkable) := rfl
@[simp] theorem append_kept (g h : Holding) : (g ++ h).kept = (g.kept ∧ h.kept) := rfl

end Holding

section Combinators

variable {α : Type}

/-- A target of `size` bytes behind a pointer. -/
def ptrHolding (size : Nat) (target : α → Holding) : Ptr α → Holding
  | none => .empty
  | some block =>
      { blocks := ⟨block.addr, size⟩ :: (target block.val).blocks
        acts := (target block.val).acts ++ [.release block.addr (BitVec.ofNat 32 size)]
        decoded := (target block.val).decoded
        walkable := (target block.val).walkable
        kept := (target block.val).kept }

/-- Walking over `n` elements where there are `length` of them; `stray` is the fault of
going past the end. -/
def strayActs : Option Fault → Nat → Nat → List FreeAct
  | none, _, _ => []
  | some f, n, length => if length < n then [.fault f] else []

def elementActs (element : α → Holding) (stray : Option Fault) (n : Nat) (xs : List α) :
    List FreeAct :=
  (xs.take n).flatMap (fun x => (element x).acts) ++ strayActs stray n xs.length

def arrayBlocks (size : Nat) (element : α → Holding) : Ptr (List α) → List Owned
  | none => []
  | some block =>
      ⟨block.addr, block.val.length * size⟩ :: block.val.flatMap fun x => (element x).blocks

def arrayActs (size : Nat) (element : α → Holding) (stray : Option Fault) :
    Except Fault SaneWord → Ptr (List α) → List FreeAct
  | .error f, _ => [.fault f]
  | .ok _, none => []
  | .ok n, some block =>
      if n = 0 then []
      else elementActs element stray n.toInt.toNat block.val ++
        [.release block.addr (BitVec.ofInt 32 (n.toInt * size))]

/-- An array of elements of `size` bytes that is freed as one of `len` elements. -/
def arrayHolding (size : Nat) (element : α → Holding) (stray : Option Fault)
    (len : Except Fault SaneWord) (v : Ptr (List α)) : Holding where
  blocks := arrayBlocks size element v
  acts := arrayActs size element stray len v
  decoded := ∀ block ∈ v, block.val ≠ [] ∧ block.val.length ≤ maxMem ∧
    ∀ x ∈ block.val, (element x).decoded
  walkable := ∃ n, len = .ok n ∧ ∀ block ∈ v, n ≠ 0 →
    (stray = none ∨ n.toInt ≤ block.val.length) ∧
    ∀ x ∈ block.val.take n.toInt.toNat, (element x).walkable
  kept := ∀ n, len = .ok n → ∀ block ∈ v, n ≠ 0 ∧
    (∀ x ∈ block.val.take n.toInt.toNat, (element x).kept) ∧
    ∀ x ∈ block.val.drop n.toInt.toNat, (element x).blocks = []

end Combinators

/-! The structures of `sane.h` and the messages. -/

def scalarHolding {α : Type} (_ : α) : Holding := .empty

theorem arrayBlocks_scalar {α : Type} (size : Nat) (block : Block (List α)) :
    arrayBlocks size scalarHolding (some block) = [⟨block.addr, block.val.length * size⟩] := by
  simp [arrayBlocks, scalarHolding, Holding.empty]

def stringHolding (s : SaneString) : Holding :=
  { arrayHolding 1 scalarHolding none (stringLen s) s with
    decoded := ∀ block ∈ s, 0 ∈ block.val ∧ block.val.length ≤ maxMem }

theorem stringHolding_blocks (s : SaneString) :
    (stringHolding s).blocks = arrayBlocks 1 scalarHolding s := rfl

def deviceHolding (v : SaneDevice) : Holding :=
  stringHolding v.name ++ stringHolding v.vendor ++ stringHolding v.model ++ stringHolding v.type

def devicePtrHolding : Ptr SaneDevice → Holding := ptrHolding sizeofDevice deviceHolding

def constraintHolding (constraintType : SaneWord) (v : SaneConstraint) : Holding :=
  if constraintType = constraintRange then ptrHolding sizeofRange scalarHolding v.range
  else if constraintType = constraintWordList then
    arrayHolding sizeofWord scalarHolding none (wordListLen v.wordList) v.wordList
  else if constraintType = constraintStringList then
    arrayHolding sizeofPointer stringHolding (some .outOfBounds) (stringListLen v.stringList)
      v.stringList
  else .empty

def optionDescriptorHolding (v : SaneOptionDescriptor) : Holding :=
  stringHolding v.name ++ stringHolding v.title ++ stringHolding v.desc ++
    constraintHolding v.constraintType v.constraint

def optionDescriptorPtrHolding : Ptr SaneOptionDescriptor → Holding :=
  ptrHolding sizeofOptionDescriptor optionDescriptorHolding

/-- The option value of a message, freed as an array of the length that its type and
`value_size` give. -/
def optionValueHolding (type size : SaneWord) (value : Ptr OptionValue) : Holding :=
  if type = typeBool ∨ type = typeInt ∨ type = typeFixed then
    { arrayHolding sizeofWord scalarHolding none (.ok (size.sdiv (BitVec.ofNat 32 sizeofWord)))
        (Ptr.cast OptionValue.asWords value) with
      decoded := Ptr.cast OptionValue.words (Ptr.cast OptionValue.asWords value) = value }
  else if type = typeString then
    { arrayHolding sizeofChar scalarHolding none (.ok size)
        (Ptr.cast OptionValue.asChars value) with
      decoded := Ptr.cast OptionValue.chars (Ptr.cast OptionValue.asChars value) = value }
  else if type = typeButton ∨ type = typeGroup then
    { arrayHolding 0 scalarHolding none (.ok 0) (Ptr.cast OptionValue.asVoids value) with
      decoded := Ptr.cast OptionValue.voids (Ptr.cast OptionValue.asVoids value) = value }
  else { Holding.empty with decoded := False }

/-- The holding of a message under a protocol version. -/
def messageHolding (version : Int) : NetMessage → Holding
  | .initReq req => stringHolding req.username
  | .initReply _ => .empty
  | .getDevicesReply reply =>
      arrayHolding sizeofPointer devicePtrHolding (some .outOfBounds)
        (deviceListLen reply.deviceList) reply.deviceList
  | .openReply reply => stringHolding reply.resourceToAuthorize
  | .optionDescriptorArray a =>
      { arrayHolding sizeofPointer optionDescriptorPtrHolding (some .outOfBounds)
          (.ok a.numOptions) a.desc with
        decoded := (arrayHolding sizeofPointer optionDescriptorPtrHolding (some .outOfBounds)
            (.ok a.numOptions) a.desc).decoded ∧
          ∀ block ∈ a.desc, a.numOptions = BitVec.ofNat 32 block.val.length }
  | .controlOptionReq req =>
      if carriesValue version req.action then
        optionValueHolding req.valueType req.valueSize req.value
      else .empty
  | .controlOptionReply reply =>
      optionValueHolding reply.valueType reply.valueSize reply.value ++
        stringHolding reply.resourceToAuthorize
  | .getParametersReply _ => .empty
  | .startReply reply => stringHolding reply.resourceToAuthorize
  | .authorizationReq req =>
      stringHolding req.resource ++ stringHolding req.username ++ stringHolding req.password

end SaneBackends.Sanei
