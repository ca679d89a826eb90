import SaneBackends.Sanei.Config
/-!
# `dll.c`: the list of backends and `sane_open`

The list headed by `first_backend` is a list of records, and a pointer to one of them
its position. What the loader, the backends, the allocator and the testing mode of
`sanei_usb` answer is an argument.
-/

namespace SaneBackends.Dll

open SaneBackends.Lib SaneBackends.Sanei

/-- The bytes of a C string. -/
abbrev Name := List UInt8

/-- `struct backend`. The operations are `op_unsupported` until a library supplies them. -/
structure Backend where
  name : Name
  loaded : Bool
  inited : Bool
  supported : Bool
  deriving DecidableEq, Repr

/-- `struct alias`; a hidden device has no new name. -/
structure Alias where
  oldname : Name
  newname : Option Name
  deriving DecidableEq, Repr

def dllName : Name := ascii ['d', 'l', 'l']

/-- Whether the two allocations of a new entry succeed. -/
structure Memory where
  calloc : Bool
  strdup : Bool

/-- `add_backend`: the status, the list, and what `*bep` is set to, if it is set. -/
def addBackend (memory : Memory) (name : Name) (backends : List Backend) :
    SaneStatus × List Backend × Option Nat :=
  if name = dllName then (.good, backends, none)
  else
    match backends.find? (·.name = name) with
    | some be => (.good, be :: backends.eraseP (·.name = name), some 0)
    | none =>
        if memory.calloc = false then (.noMem, backends, none)
        else if memory.strdup = false then (.noMem, backends, none)
        else (.good, ⟨name, false, false, false⟩ :: backends, some 0)

/-- The loop body of `read_config` up to its call of `add_backend`: the name it passes. -/
def configBackend (configLine : List UInt8) : Option Name :=
  match saneiConfigGetString configLine with
  | (_, none) => none
  | (cp, some backendName) =>
      if cp = configLine then none
      else if backendName.head? = some 35 then none
      else some (backendName.takeWhile (· ≠ 35))

/-- What `load`, the operation `init` of the backend and its `version` come to. -/
structure InitAnswer where
  load : SaneStatus
  init : SaneStatus
  version : SaneWord

def saneVersionMajor (code : SaneWord) : Nat := (code >>> 24).toNat

def saneCurrentMajor : Nat := 1

def load (status : SaneStatus) (be : Backend) : SaneStatus × Backend :=
  (status, { be with loaded := true, supported := status = .good })

def init (answer : InitAnswer) (be : Backend) : SaneStatus × Backend :=
  let (status, be) := if be.loaded then (.good, be) else load answer.load be
  if status ≠ .good then (status, be)
  else
    let status := if be.supported then answer.init else .unsupported
    if status ≠ .good then (status, be)
    else if saneVersionMajor answer.version ≠ saneCurrentMajor then (.inval, be)
    else (.good, { be with inited := true })

/-- The old name of the first alias whose new name is the given one. -/
def resolveAlias (aliases : List Alias) (fullName : Name) : Name :=
  match aliases.find? (·.newname = some fullName) with
  | some entry => entry.oldname
  | none => fullName

/-- The name up to its first colon and behind it, if it has one. -/
def splitColon (fullName : Name) : Option (Name × Name) :=
  match fullName.dropWhile (· ≠ 58) with
  | [] => none
  | _ :: devName => some (fullName.takeWhile (· ≠ 58), devName)

/-- A name without a colon is that of a backend, whose first device is meant. -/
def beAndDevName (fullName : Name) : Name × Name := (splitColon fullName).getD (fullName, [])

def fakeusb : Name := ascii ['f', 'a', 'k', 'e', 'u', 's', 'b']

def fakeusbdev : Name := fakeusb ++ ascii ['d', 'e', 'v']

def fakeusbout : Name := fakeusb ++ ascii ['o', 'u', 't']

/-- What one call of `sane_open` is answered. `capture` is the document read for a
replay with the backend it names. -/
structure OpenAnswers where
  capture : Option (Option Name)
  pathCopy : Bool
  nameCopy : Bool
  memory : Memory
  init : InitAnswer
  openStatus : SaneStatus
  handle : Nat
  scanner : Bool

section Open

-- `WITH_USB_RECORD_REPLAY`
variable (recordReplay : Bool)

def saneiUsbTestingEnableReplay (capture : Option (Option Name)) : SaneStatus :=
  if recordReplay then if capture.isSome then .good else .accessDenied else .unsupported

def saneiUsbTestingGetBackend (capture : Option (Option Name)) : Option Name :=
  if recordReplay then capture.join else none

/-- Both names are copied with `strdup`. -/
def saneiUsbTestingEnableRecord (path beName : Option Name) : Except Fault SaneStatus :=
  if recordReplay then
    match path, beName with
    | some _, some _ => .ok .good
    | _, _ => .error .nullPointer
  else .ok .unsupported

/-- `strndup` or `strdup` when it succeeds or not. -/
def copied (success : Bool) (name : Name) : Option Name := if success then some name else none

/-- What the first half of `sane_open` makes of a name: an early return, or the names of
a backend and of one of its devices. -/
inductive OpenNames where
  | returned (status : SaneStatus)
  | names (beName devName : Name)
  deriving DecidableEq, Repr

/-- The names for the backend's copy, which may have failed. -/
def OpenNames.ofCopy (beName : Option Name) (devName : Name) : OpenNames :=
  match beName with
  | none => .returned .noMem
  | some beName => .names beName devName

def replayNames (answers : OpenAnswers) (path : Name) : OpenNames :=
  let status := saneiUsbTestingEnableReplay recordReplay answers.capture
  if status ≠ .good then .returned status
  else
    match saneiUsbTestingGetBackend recordReplay answers.capture with
    | none => .returned .accessDenied
    | some beName => .names beName path

def recordNames (answers : OpenAnswers) (name : Name) : Except Fault OpenNames :=
  match splitColon name with
  | none => .ok (.returned .inval)
  | some (path, fullName) => do
      let (beName, devName) := beAndDevName fullName
      let beName := copied answers.nameCopy beName
      let status ← saneiUsbTestingEnableRecord recordReplay (copied answers.pathCopy path) beName
      if status ≠ .good then .ok (.returned status) else .ok (.ofCopy beName devName)

/-- The first half of `sane_open`, behind the search for an alias. -/
def openNames (answers : OpenAnswers) (fullName : Name) : Except Fault OpenNames :=
  match splitColon fullName with
  | none => .ok (.ofCopy (copied answers.nameCopy fullName) [])
  | some (beName, devName) =>
      if beName = fakeusb ∨ beName = fakeusbdev then .ok (replayNames recordReplay answers devName)
      else if beName = fakeusbout then recordNames recordReplay answers devName
      else .ok (.ofCopy (copied answers.nameCopy beName) devName)

/-- What a call of `sane_open` did: the status it returned, the name it passed to
`add_backend`, the backend it called with the device name, and the scanner it made. -/
structure Opened where
  status : SaneStatus
  added : Option Name
  forwarded : Option (Nat × Name)
  scanner : Option (Nat × Nat)
  deriving DecidableEq, Repr

/-- `sane_open` once `be` points to a backend. -/
def openBackend (answers : OpenAnswers) (added : Option Name) (i : Nat) (devName : Name)
    (backends : List Backend) : Except Fault (Opened × List Backend) :=
  match backends[i]? with
  | none => .error .outOfBounds
  | some be =>
      let (status, be) := if be.inited then (.good, be) else init answers.init be
      let backends := backends.set i be
      if status ≠ .good then .ok (⟨status, added, none, none⟩, backends)
      else
        let status := if be.supported then answers.openStatus else .unsupported
        if status ≠ .good then .ok (⟨status, added, some (i, devName), none⟩, backends)
        else if answers.scanner = false then
          .ok (⟨.noMem, added, some (i, devName), none⟩, backends)
        else .ok (⟨.good, added, some (i, devName), some (i, answers.handle)⟩, backends)

/-- The search for the backend; an empty name stands for the first one. -/
def findBackend (beName : Name) (backends : List Backend) : Option Nat :=
  if beName = [] then if backends = [] then none else some 0
  else backends.findIdx? (·.name = beName)

/-- `sane_open` for the names of a backend and a device: a backend that is not in the list
is added to it. -/
def openNamed (answers : OpenAnswers) (beName devName : Name) (backends : List Backend) :
    Except Fault (Opened × List Backend) :=
  match findBackend beName backends with
  | some i => openBackend answers none i devName backends
  | none =>
      match addBackend answers.memory beName backends with
      | (.good, backends, some i) => openBackend answers (some beName) i devName backends
      | (.good, _, none) => .error .nullPointer
      | (status, backends, _) => .ok (⟨status, some beName, none, none⟩, backends)

def saneOpen (aliases : List Alias) (answers : OpenAnswers) (fullName : Name)
    (backends : List Backend) : Except Fault (Opened × List Backend) := do
  match ← openNames recordReplay answers (resolveAlias aliases fullName) with
  | .returned status => .ok (⟨status, none, none, none⟩, backends)
  | .names beName devName => openNamed answers beName devName backends

end Open

end SaneBackends.Dll
