import SaneBackends.Sanei.WireValues
/-!
# `sanei_net.c`: the messages of the network protocol
-/

namespace SaneBackends.Sanei

structure SaneInitReq where
  versionCode : SaneWord
  username : SaneString
  deriving DecidableEq, Repr

structure SaneInitReply where
  status : SaneWord
  versionCode : SaneWord
  deriving DecidableEq, Repr

structure SaneGetDevicesReply where
  status : SaneWord
  deviceList : Ptr (List (Ptr SaneDevice))
  deriving DecidableEq, Repr

structure SaneOpenReply where
  status : SaneWord
  handle : SaneWord
  resourceToAuthorize : SaneString
  deriving DecidableEq, Repr

structure SaneOptionDescriptorArray where
  numOptions : SaneWord
  desc : Ptr (List (Ptr SaneOptionDescriptor))
  deriving DecidableEq, Repr

/-- What the `void *` of an option value points to. -/
inductive OptionValue where
  | words (ws : List SaneWord)
  | chars (cs : List UInt8)
  | voids (us : List Unit)
  deriving DecidableEq, Repr

structure SaneControlOptionReq where
  handle : SaneWord
  option : SaneWord
  action : SaneWord
  valueType : SaneWord
  valueSize : SaneWord
  value : Ptr OptionValue
  deriving DecidableEq, Repr

structure SaneControlOptionReply where
  status : SaneWord
  info : SaneWord
  valueType : SaneWord
  valueSize : SaneWord
  value : Ptr OptionValue
  resourceToAuthorize : SaneString
  deriving DecidableEq, Repr

structure SaneGetParametersReply where
  status : SaneWord
  params : SaneParameters
  deriving DecidableEq, Repr

structure SaneStartReply where
  status : SaneWord
  port : SaneWord
  byteOrder : SaneWord
  resourceToAuthorize : SaneString
  deriving DecidableEq, Repr

structure SaneAuthorizationReq where
  resource : SaneString
  username : SaneString
  password : SaneString
  deriving DecidableEq, Repr

/-! The cells of an option value, read at one of the three element types. -/

def OptionValue.asWords : OptionValue → List SaneWord
  | words ws => ws
  | _ => []

def OptionValue.asChars : OptionValue → List UInt8
  | chars cs => cs
  | _ => []

def OptionValue.asVoids : OptionValue → List Unit
  | voids us => us
  | _ => []

/-- A block seen at another type. -/
def Ptr.cast {α β : Type} (f : α → β) (p : Ptr α) : Ptr β :=
  p.map fun block => { addr := block.addr, val := f block.val }

theorem Ptr.cast_cast {α β : Type} {f : α → β} {g : β → α} (h : ∀ x, g (f x) = x) (p : Ptr α) :
    Ptr.cast g (Ptr.cast f p) = p := by
  cases p with
  | none => rfl
  | some block => simp [Ptr.cast, h]

/-- The enumerators of `SANE_Value_Type` and the one of `SANE_Action` the transfer
depends on. -/
def typeBool : SaneWord := 0
def typeInt : SaneWord := 1
def typeFixed : SaneWord := 2
def typeString : SaneWord := 3
def typeButton : SaneWord := 4
def typeGroup : SaneWord := 5
def actionGetValue : SaneWord := 0
def actionSetValue : SaneWord := 1
def actionSetAuto : SaneWord := 2

section Transfer

variable (codec : Codec)

def saneiWInitReq (req : SaneInitReq) : WireM SaneInitReq := do
  let versionCode ← (saneiWWord codec).run req.versionCode
  let username ← (saneiWString codec).run req.username
  pure { versionCode, username }

def saneiWInitReply (reply : SaneInitReply) : WireM SaneInitReply := do
  let status ← saneiWStatus codec reply.status
  let versionCode ← (saneiWWord codec).run reply.versionCode
  pure { status, versionCode }

/-- The entries of a device list, `NULL` included; no entries if there is no list. -/
def deviceListLen : Ptr (List (Ptr SaneDevice)) → Except Fault SaneWord
  | none => .ok 0
  | some block => do
      let n ← nullScan block.val
      .ok (BitVec.ofNat 32 n + 1)

def saneiWGetDevicesReply (reply : SaneGetDevicesReply) : WireM SaneGetDevicesReply := do
  let len ← if (← get).direction ≠ .decode then liftM (deviceListLen reply.deviceList)
    else pure (← get).stale
  let status ← saneiWStatus codec reply.status
  let (_, deviceList) ← saneiWArray codec.wWord (saneiWDevicePtr codec) none sizeofPointer len
    reply.deviceList
  pure { status, deviceList }

def saneiWOpenReply (reply : SaneOpenReply) : WireM SaneOpenReply := do
  let status ← saneiWStatus codec reply.status
  let handle ← (saneiWWord codec).run reply.handle
  let resourceToAuthorize ← (saneiWString codec).run reply.resourceToAuthorize
  pure { status, handle, resourceToAuthorize }

def wOptionValue (type size : SaneWord) (value : Ptr OptionValue) : WireM (Ptr OptionValue) := do
  if type = typeBool ∨ type = typeInt ∨ type = typeFixed then
    let (_, v) ← saneiWArray codec.wWord (saneiWWord codec) 0 sizeofWord
      (size.sdiv (BitVec.ofNat 32 sizeofWord)) (Ptr.cast OptionValue.asWords value)
    pure (Ptr.cast OptionValue.words v)
  else if type = typeString then
    let (_, v) ← saneiWArray codec.wWord (saneiWChar codec) 0 sizeofChar size
      (Ptr.cast OptionValue.asChars value)
    pure (Ptr.cast OptionValue.chars v)
  else if type = typeButton ∨ type = typeGroup then
    let (_, v) ← saneiWArray codec.wWord saneiWVoid () 0 0 (Ptr.cast OptionValue.asVoids value)
    pure (Ptr.cast OptionValue.voids v)
  else do
    setStatus einval
    pure value

def saneiWOptionDescriptorArray (a : SaneOptionDescriptorArray) :
    WireM SaneOptionDescriptorArray := do
  let (numOptions, desc) ← saneiWArray codec.wWord (saneiWOptionDescriptorPtr codec) none
    sizeofPointer a.numOptions a.desc
  pure { numOptions, desc }

def saneiWControlOptionReq (req : SaneControlOptionReq) : WireM SaneControlOptionReq := do
  let handle ← (saneiWWord codec).run req.handle
  let option ← (saneiWWord codec).run req.option
  let action ← (saneiWWord codec).run req.action
  if (← get).version < 3 ∨ action ≠ actionSetAuto then
    let valueType ← (saneiWWord codec).run req.valueType
    let valueSize ← (saneiWWord codec).run req.valueSize
    let value ← wOptionValue codec valueType valueSize req.value
    pure { handle, option, action, valueType, valueSize, value }
  else pure { req with handle, option, action }

def saneiWControlOptionReply (reply : SaneControlOptionReply) : WireM SaneControlOptionReply := do
  let status ← saneiWStatus codec reply.status
  let info ← (saneiWWord codec).run reply.info
  let valueType ← (saneiWWord codec).run reply.valueType
  let valueSize ← (saneiWWord codec).run reply.valueSize
  let value ← wOptionValue codec valueType valueSize reply.value
  let resourceToAuthorize ← (saneiWString codec).run reply.resourceToAuthorize
  pure { status, info, valueType, valueSize, value, resourceToAuthorize }

def saneiWGetParametersReply (reply : SaneGetParametersReply) : WireM SaneGetParametersReply := do
  let status ← saneiWStatus codec reply.status
  let params ← saneiWParameters codec reply.params
  pure { status, params }

def saneiWStartReply (reply : SaneStartReply) : WireM SaneStartReply := do
  let status ← saneiWStatus codec reply.status
  let port ← (saneiWWord codec).run reply.port
  let byteOrder ← (saneiWWord codec).run reply.byteOrder
  let resourceToAuthorize ← (saneiWString codec).run reply.resourceToAuthorize
  pure { status, port, byteOrder, resourceToAuthorize }

def saneiWAuthorizationReq (req : SaneAuthorizationReq) : WireM SaneAuthorizationReq := do
  let resource ← (saneiWString codec).run req.resource
  let username ← (saneiWString codec).run req.username
  let password ← (saneiWString codec).run req.password
  pure { resource, username, password }

end Transfer

/-- A message with the transfer function of its type. -/
inductive NetMessage where
  | initReq (req : SaneInitReq)
  | initReply (reply : SaneInitReply)
  | getDevicesReply (reply : SaneGetDevicesReply)
  | openReply (reply : SaneOpenReply)
  | optionDescriptorArray (a : SaneOptionDescriptorArray)
  | controlOptionReq (req : SaneControlOptionReq)
  | controlOptionReply (reply : SaneControlOptionReply)
  | getParametersReply (reply : SaneGetParametersReply)
  | startReply (reply : SaneStartReply)
  | authorizationReq (req : SaneAuthorizationReq)
  deriving DecidableEq, Repr

def transferMessage (codec : Codec) : NetMessage → WireM NetMessage
  | .initReq req => .initReq <$> saneiWInitReq codec req
  | .initReply reply => .initReply <$> saneiWInitReply codec reply
  | .getDevicesReply reply => .getDevicesReply <$> saneiWGetDevicesReply codec reply
  | .openReply reply => .openReply <$> saneiWOpenReply codec reply
  | .optionDescriptorArray a => .optionDescriptorArray <$> saneiWOptionDescriptorArray codec a
  | .controlOptionReq req => .controlOptionReq <$> saneiWControlOptionReq codec req
  | .controlOptionReply reply => .controlOptionReply <$> saneiWControlOptionReply codec reply
  | .getParametersReply reply => .getParametersReply <$> saneiWGetParametersReply codec reply
  | .startReply reply => .startReply <$> saneiWStartReply codec reply
  | .authorizationReq req => .authorizationReq <$> saneiWAuthorizationReq codec req

end SaneBackends.Sanei
