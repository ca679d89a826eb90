import SaneBackends.Saned.Handles
import SaneBackends.Sanei.CodecBin
import SaneBackends.Sanei.Net
/-!
# `saned.c`: `SANE_NET_CONTROL_OPTION`

The handling of the request up to the call of the backend, and the reply that is made of
its answer. `stale` is what the uninitialised request holds.
-/

namespace SaneBackends.Saned

open SaneBackends.Lib SaneBackends.Sanei

/-- `malloc (req.value_size)`: the sizes a negative word is converted to are refused. -/
def mallocValue (valueSize : SaneWord) : WireM (Option Nat) := do
  let w ← get
  if valueSize.toInt < 0 then do
    set { w with status := enomem }
    pure none
  else
    match w.heap.malloc with
    | (none, heap) => do
        set { w with heap, status := enomem }
        pure none
    | (some addr, heap) => do
        set { w with heap, allocatedMemory := w.allocatedMemory + valueSize }
        pure (some addr)

/-- The string the client sent is given back. -/
def freeString (value : Ptr OptionValue) : WireM Unit := do
  match value with
  | some block => do
      let n ← liftM (strlen block.val.asChars)
      release (BitVec.ofNat 32 (1 + n))
      freeBlock block.addr
  | none => pure ()

/-- A string of the size the client states takes the place of the one it sent. -/
def replaceString (req : SaneControlOptionReq) : WireM (Option SaneControlOptionReq) := do
  freeString req.value
  match ← mallocValue req.valueSize with
  | none => pure none
  | some addr =>
      pure (some { req with
        value := some ⟨addr, .chars (List.replicate req.valueSize.toInt.toNat 0)⟩ })

/-- The request as it is handed to the backend, or `none` if it is not executed. -/
def controlOptionCall (t : HandleTable) (stale : SaneControlOptionReq) :
    WireM (Option SaneControlOptionReq) := do
  let req ← saneiWControlOptionReq binCodec stale
  let w ← get
  if w.status ≠ 0 ∨ t.numHandles ≤ req.handle.toNat ∨ (t.slot req.handle.toNat).inuse = false then
    pure none
  else if w.direction = .decode ∧ req.valueType = typeString ∧ req.action = actionGetValue then
    replaceString req
  else pure (some req)

/-- What the backend answers: the status, the information word if it writes it, and what it
leaves in the block of the value. -/
structure ControlAnswer where
  status : SaneWord
  info : Option SaneWord
  store : OptionValue → OptionValue

/-- The reply; `memset` clears what the backend does not write. -/
def controlOptionReply (req : SaneControlOptionReq) (answer : ControlAnswer) :
    SaneControlOptionReply where
  status := answer.status
  info := answer.info.getD 0
  valueType := req.valueType
  valueSize := req.valueSize
  value := req.value.map fun block => { block with val := answer.store block.val }
  resourceToAuthorize := none

end SaneBackends.Saned
