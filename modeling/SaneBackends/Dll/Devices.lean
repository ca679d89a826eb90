import SaneBackends.Dll.Backends
/-!
# `dll.c`: `sane_get_devices`

The array `devlist` is the list of its first `devlist_len` entries, `none` for `NULL`,
with the number of entries it has room for. The allocations of a call are counted, so
that each of them may fail.
-/

namespace SaneBackends.Dll

open SaneBackends.Lib SaneBackends.Sanei

/-- `SANE_Device`. -/
structure Device where
  name : Name
  vendor : Name
  model : Name
  type : Name
  deriving DecidableEq, Repr

/-- `devlist`, `devlist_len` and `devlist_size`. -/
structure Devlist where
  devices : Option (List Device)
  size : Nat

/-- What one call of `sane_get_devices` is answered by the backend at each position and
by each of its allocations. -/
structure DevicesAnswers where
  init : Nat → InitAnswer
  devices : Nat → SaneStatus × Option (List Device)
  memory : Nat → Bool

/-- The list so far, and the number of allocations made for it. -/
structure Listing where
  devlist : Devlist
  allocs : Nat

def Listing.devices (l : Listing) : List Device := l.devlist.devices.getD []

/-- `ASSERT_SPACE`. -/
def Listing.assertSpace (memory : Nat → Bool) (n : Nat) (l : Listing) : SaneStatus × Listing :=
  if l.devlist.size < l.devices.length + n then
    let size := l.devlist.size + n + 15
    if memory l.allocs then (.good, ⟨⟨some l.devices, size⟩, l.allocs + 1⟩)
    else (.noMem, ⟨⟨none, size⟩, l.allocs + 1⟩)
  else (.good, l)

/-- A write behind the last entry. -/
def Listing.write (devices : List Device) (l : Listing) : Except Fault Listing :=
  match l.devlist.devices with
  | none => .error .nullPointer
  | some entries =>
      if entries.length < l.devlist.size then
        .ok { l with devlist.devices := some (entries ++ devices) }
      else .error .outOfBounds

/-- The first alias of a device: its old name consists of the two names around a colon. -/
def findAlias (aliases : List Alias) (beName devName : Name) : Option Alias :=
  aliases.find? fun entry =>
    let len := beName.length
    if entry.oldname.length ≤ len then false
    else entry.oldname.take len = beName ∧ entry.oldname[len]? = some 58 ∧
      entry.oldname.drop (len + 1) = devName

/-- The name a device is listed under, if it is not hidden. -/
def listedName (aliases : List Alias) (beName devName : Name) : Option Name :=
  match findAlias aliases beName devName with
  | some entry => entry.newname
  | none => some (beName ++ [58] ++ devName)

section Loops

variable (aliases : List Alias) (answers : DevicesAnswers)

/-- The loop over the devices of a backend. -/
def listDevices (beName : Name) : List Device → Listing → Except Fault (SaneStatus × Listing)
  | [], l => .ok (.good, l)
  | dev :: beList, l =>
      match listedName aliases beName dev.name with
      | none => listDevices beName beList l
      | some fullName =>
          if answers.memory l.allocs = false then .ok (.noMem, { l with allocs := l.allocs + 1 })
          else do
            let l ← { l with allocs := l.allocs + 1 }.write [{ dev with name := fullName }]
            listDevices beName beList l

/-- What the operation of a backend answers. -/
def getDevicesOp (i : Nat) (be : Backend) : SaneStatus × Option (List Device) :=
  if be.supported then answers.devices i else (.unsupported, none)

/-- The body of the loop over the backends. -/
def listBackend (i : Nat) (be : Backend) (l : Listing) :
    Except Fault (SaneStatus × Backend × Listing) :=
  let (status, be) := if be.inited then (.good, be) else init (answers.init i) be
  if status ≠ .good then .ok (.good, be, l)
  else
    match getDevicesOp answers i be with
    | (.good, some beList) =>
        match l.assertSpace answers.memory beList.length with
        | (.good, l) => do
            let (status, l) ← listDevices aliases answers be.name beList l
            .ok (status, be, l)
        | (status, l) => .ok (status, be, l)
    | _ => .ok (.good, be, l)

def listBackends : Nat → List Backend → Listing → Except Fault (SaneStatus × List Backend × Listing)
  | _, [], l => .ok (.good, [], l)
  | i, be :: backends, l => do
      let (status, be, l) ← listBackend aliases answers i be l
      if status ≠ .good then .ok (status, be :: backends, l)
      else
        let (status, backends, l) ← listBackends (i + 1) backends l
        .ok (status, be :: backends, l)

/-- `sane_get_devices`: the status, the list returned with a good one, and what becomes of
the backends and of `devlist`. -/
def saneGetDevices (backends : List Backend) (devlist : Devlist) :
    Except Fault (SaneStatus × List Device × List Backend × Devlist) := do
  let l := ⟨{ devlist with devices := devlist.devices.map fun _ => [] }, 0⟩
  let (status, backends, l) ← listBackends aliases answers 0 backends l
  if status ≠ .good then .ok (status, [], backends, l.devlist)
  else
    match l.assertSpace answers.memory 1 with
    | (.good, l) => do
        let _ ← l.write []
        .ok (.good, l.devices, backends, l.devlist)
    | (status, l) => .ok (status, [], backends, l.devlist)

end Loops

end SaneBackends.Dll
