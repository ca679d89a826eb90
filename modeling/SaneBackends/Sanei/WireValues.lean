import SaneBackends.Sanei.Wire
/-!
# `sanei_wire.c`: the values of `sane.h`

Transfer of the structures of `sane.h`, by way of the codec of the wire, and the
calls that set a direction and run a transfer under it.
-/

namespace SaneBackends.Sanei

structure SaneRange where
  min : SaneWord
  max : SaneWord
  quant : SaneWord
  deriving DecidableEq, Repr

structure SaneDevice where
  name : SaneString
  vendor : SaneString
  model : SaneString
  type : SaneString
  deriving DecidableEq, Repr

/-- The union `constraint`. Only the arm that `constraint_type` selects is read or
written. -/
structure SaneConstraint where
  range : Ptr SaneRange
  wordList : Ptr (List SaneWord)
  stringList : Ptr (List SaneString)
  deriving DecidableEq, Repr

structure SaneOptionDescriptor where
  name : SaneString
  title : SaneString
  desc : SaneString
  type : SaneWord
  unit : SaneWord
  size : SaneWord
  cap : SaneWord
  constraintType : SaneWord
  constraint : SaneConstraint
  deriving DecidableEq, Repr

structure SaneParameters where
  format : SaneWord
  lastFrame : SaneWord
  bytesPerLine : SaneWord
  pixelsPerLine : SaneWord
  lines : SaneWord
  depth : SaneWord
  deriving DecidableEq, Repr

/-! The structures as `memset` leaves them, and their sizes. -/

def SaneRange.zero : SaneRange := ⟨0, 0, 0⟩
def SaneDevice.zero : SaneDevice := ⟨none, none, none, none⟩
def SaneOptionDescriptor.zero : SaneOptionDescriptor :=
  ⟨none, none, none, 0, 0, 0, 0, 0, ⟨none, none, none⟩⟩

def sizeofWord : Nat := 4
def sizeofChar : Nat := 1
def sizeofPointer : Nat := 8
def sizeofRange : Nat := 12
def sizeofDevice : Nat := 32
def sizeofOptionDescriptor : Nat := 56

/-- The enumerators of `SANE_Constraint_Type`. -/
def constraintNone : SaneWord := 0
def constraintRange : SaneWord := 1
def constraintWordList : SaneWord := 2
def constraintStringList : SaneWord := 3

section Transfer

variable (codec : Codec)

def saneiWVoid : WireCodecFunc Unit where
  run _ := pure ()
  stray := pure ()

def saneiWChar : WireCodecFunc UInt8 := codec.wChar

def saneiWWord : WireCodecFunc SaneWord := codec.wWord

def saneiWString : WireCodecFunc SaneString := codec.wString

/-- The common body of the transfers of an enumeration, by way of a local word. -/
def saneiWEnum (v : SaneWord) : WireM SaneWord := do
  let word ← (saneiWWord codec).run v
  if (← get).direction = .decode then pure word else pure v

def saneiWStatus (v : SaneWord) : WireM SaneWord := saneiWEnum codec v
def saneiWBool (v : SaneWord) : WireM SaneWord := saneiWEnum codec v
def saneiWConstraintType (v : SaneWord) : WireM SaneWord := saneiWEnum codec v
def saneiWValueType (v : SaneWord) : WireM SaneWord := saneiWEnum codec v
def saneiWUnit (v : SaneWord) : WireM SaneWord := saneiWEnum codec v
def saneiWFrame (v : SaneWord) : WireM SaneWord := saneiWEnum codec v

def saneiWRange (v : SaneRange) : WireM SaneRange := do
  let min ← (saneiWWord codec).run v.min
  let max ← (saneiWWord codec).run v.max
  let quant ← (saneiWWord codec).run v.quant
  pure { min, max, quant }

def saneiWDevice (v : SaneDevice) : WireM SaneDevice := do
  let name ← (saneiWString codec).run v.name
  let vendor ← (saneiWString codec).run v.vendor
  let model ← (saneiWString codec).run v.model
  let type ← (saneiWString codec).run v.type
  pure { name, vendor, model, type }

def saneiWDevicePtr : WireCodecFunc (Ptr SaneDevice) where
  run v := saneiWPtr codec.wWord (saneiWDevice codec) SaneDevice.zero sizeofDevice v
  stray := throw .outOfBounds

/-- `v->constraint.word_list[0] + 1`. -/
def wordListLen : Ptr (List SaneWord) → Except Fault SaneWord
  | none => .error .nullPointer
  | some block =>
      match block.val with
      | [] => .error .outOfBounds
      | count :: _ => .ok (count + 1)

/-- The entries before the first `NULL` of a list of pointers, found by scanning it. -/
def nullScan {α : Type} : List (Ptr α) → Except Fault Nat
  | [] => .error .outOfBounds
  | none :: _ => .ok 0
  | some _ :: entries => do
      let n ← nullScan entries
      .ok (n + 1)

/-- The entries of a string list, `NULL` string included. -/
def stringListLen : Ptr (List SaneString) → Except Fault SaneWord
  | none => .error .nullPointer
  | some block => do
      let n ← nullScan block.val
      .ok (BitVec.ofNat 32 n + 1)

/-- The `switch` over the constraint type. -/
def saneiWConstraint (constraintType : SaneWord) (v : SaneConstraint) : WireM SaneConstraint := do
  if constraintType = constraintRange then
    let range ← saneiWPtr codec.wWord (saneiWRange codec) SaneRange.zero sizeofRange v.range
    pure { v with range }
  else if constraintType = constraintWordList then
    let len ← if (← get).direction ≠ .decode then liftM (wordListLen v.wordList)
      else pure (← get).stale
    let (_, wordList) ← saneiWArray codec.wWord codec.wWord 0 sizeofWord len v.wordList
    pure { v with wordList }
  else if constraintType = constraintStringList then
    let len ← if (← get).direction ≠ .decode then liftM (stringListLen v.stringList)
      else pure (← get).stale
    let (_, stringList) ← saneiWArray codec.wWord codec.wString none sizeofPointer len v.stringList
    pure { v with stringList }
  else pure v

def saneiWOptionDescriptor (v : SaneOptionDescriptor) : WireM SaneOptionDescriptor := do
  let name ← (saneiWString codec).run v.name
  let title ← (saneiWString codec).run v.title
  let desc ← (saneiWString codec).run v.desc
  let type ← saneiWValueType codec v.type
  let unit ← saneiWUnit codec v.unit
  let size ← (saneiWWord codec).run v.size
  let cap ← (saneiWWord codec).run v.cap
  let constraintType ← saneiWConstraintType codec v.constraintType
  let constraint ← saneiWConstraint codec constraintType v.constraint
  pure { name, title, desc, type, unit, size, cap, constraintType, constraint }

def saneiWOptionDescriptorPtr : WireCodecFunc (Ptr SaneOptionDescriptor) where
  run v := saneiWPtr codec.wWord (saneiWOptionDescriptor codec) SaneOptionDescriptor.zero
    sizeofOptionDescriptor v
  stray := throw .outOfBounds

def saneiWParameters (v : SaneParameters) : WireM SaneParameters := do
  let format ← saneiWFrame codec v.format
  let lastFrame ← saneiWBool codec v.lastFrame
  let bytesPerLine ← (saneiWWord codec).run v.bytesPerLine
  let pixelsPerLine ← (saneiWWord codec).run v.pixelsPerLine
  let lines ← (saneiWWord codec).run v.lines
  let depth ← (saneiWWord codec).run v.depth
  pure { format, lastFrame, bytesPerLine, pixelsPerLine, lines, depth }

end Transfer

def flush (w : Wire) : Wire :=
  match w.direction with
  | .encode => saneiWSpace (w.buffer.size + 1) w
  | .decode => { w with buffer := { w.buffer with curr := 0, endPos := 0 } }
  | .free => w

def saneiWSetDir (dir : WireDirection) (w : Wire) : Wire :=
  flush { flush w with direction := dir }

def saneiWCall {α β : Type} (codec : Codec) (procnum : SaneWord) (wArg : α → WireM α) (arg : α)
    (wReply : β → WireM β) (reply : β) : WireM β := do
  modify fun w => { w with status := 0 }
  modify (saneiWSetDir .encode)
  let _ ← (saneiWWord codec).run procnum
  let _ ← wArg arg
  if (← get).status = 0 then do
    modify (saneiWSetDir .decode)
    wReply reply
  else pure reply

def saneiWReply {α : Type} (wReply : α → WireM α) (reply : α) : WireM α := do
  modify fun w => { w with status := 0 }
  modify (saneiWSetDir .encode)
  let reply ← wReply reply
  modify flush
  pure reply

/-- `sanei_w_init` when its buffer can be allocated, with the fields its caller sets. -/
def saneiWInit (version : Int) (io : WireIo) (heap : Heap) (mem : Nat → UInt8) (stale : SaneWord) :
    Wire where
  version
  direction := .encode
  status := 0
  allocatedMemory := 0
  buffer := { size := 8192, curr := 0, endPos := 8192, mem }
  io
  heap
  stale
  charges := []

/-- `sanei_w_free`; what the freed value holds afterwards is of no use. -/
def saneiWFree {α : Type} (wReply : α → WireM α) (reply : α) : WireM Unit := do
  let savedDir := (← get).direction
  modify fun w => { w with direction := .free }
  let _ ← wReply reply
  modify fun w => { w with direction := savedDir }

end SaneBackends.Sanei
