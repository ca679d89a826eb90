import SaneBackends.Escl.DeviceName
/-!
# Fail-over between the addresses of an eSCL device

`escl_device_add`, which merges the announcements of a scanner into one device, and the part of
`sane_open` that asks for the capabilities. Memory is never short; whether a secure address
answers to TLS, and what each call of `escl_capabilities` returns, are parameters.
-/

namespace SaneBackends.Escl

open SaneBackends.Sanei

/-! ## The list of devices -/

def uscanType : List UInt8 := ascii ['_', 'u', 's', 'c', 'a', 'n', '.', '_', 't', 'c', 'p']

def uscansType : List UInt8 := ascii ['_', 'u', 's', 'c', 'a', 'n', 's', '.', '_', 't', 'c', 'p']

def esclAddAddress (device : EsclDevice) (address : EsclAddress) : EsclDevice :=
  if device.addresses.any fun known => known.portNb == address.portNb &&
      known.ipAddress == address.ipAddress && known.type == address.type then device
  else { device with addresses := address :: device.addresses }

def esclCopyAddresses (destination source : EsclDevice) : EsclDevice :=
  source.addresses.foldl esclAddAddress destination

def isSecureType (type : List UInt8) : Bool := type == uscansType || type == httpsType

/-- The loop of `escl_device_add`; `none` when no device of the list takes the address. -/
def mergeAddress (address : EsclAddress) (uuid : Option (List UInt8)) :
    List EsclDevice → Option (List EsclDevice)
  | [] => none
  | current :: rest =>
      if current.ipAddress = address.ipAddress ∨ (uuid.isSome ∧ current.uuid = uuid) then
        if current.ipAddress ≠ address.ipAddress ∨ current.portNb ≠ address.portNb ∨
            current.type ≠ address.type then
          some (esclAddAddress current address :: rest)
        else if current.type ≠ address.type then
          if isSecureType address.type then
            some ({ current with
              type := address.type
              ipAddress := address.ipAddress
              portNb := address.portNb
              https := true
              tls := address.tls } :: rest)
          else some (current :: rest)
        else if current.portNb = address.portNb then some (current :: rest)
        else (mergeAddress address uuid rest).map (current :: ·)
      else (mergeAddress address uuid rest).map (current :: ·)

/-- `escl_device_add`; `supported` is what curl says of TLS at the address. -/
def esclDeviceAdd (devices : List EsclDevice) (portNb : Nat) (modelName ipAddress : List UInt8)
    (is uuid : Option (List UInt8)) (type : List UInt8) (supported : Bool) : List EsclDevice :=
  let tls := isSecureType type && supported
  let address : EsclAddress := ⟨ipAddress, portNb, type, tls, isSecureType type⟩
  match mergeAddress address uuid devices with
  | some devices => devices
  | none =>
      let https := type != uscanType && type != httpType
      -- a device without a port is refused
      if portNb = 0 then devices
      else
        { modelName :=
            if https then snprintf pathMax (modelName ++ ascii [' ', 'S', 'S', 'L']) else modelName
          portNb := portNb
          ipAddress := ipAddress
          is := snprintf pathMax
            (is.getD (ascii ['f', 'l', 'a', 't', 'b', 'e', 'd', ' ', 'o', 'r', ' ', 'A', 'D', 'F']) ++
              ascii [' ', 's', 'c', 'a', 'n', 'n', 'e', 'r'])
          tls := tls
          uuid := uuid
          type := type
          https := https } :: devices

/-! ## Opening -/

/-- The address that a device is asked at. -/
def EsclDevice.current (device : EsclDevice) : EsclAddress :=
  ⟨device.ipAddress, device.portNb, device.type, device.tls, device.https⟩

/-- `escl_use_next_address`. -/
def EsclDevice.use (device : EsclDevice) (address : EsclAddress) (rest : List EsclAddress) :
    EsclDevice :=
  { device with
    addresses := rest
    ipAddress := address.ipAddress
    type := address.type
    portNb := address.portNb
    tls := address.tls
    https := address.https }

/-- The loop of `sane_open`: the addresses it asks, with what the last of them answers. The calls
of `escl_capabilities` are numbered. -/
def askAddresses (answers : Nat → SaneStatus) :
    Nat → List EsclAddress → EsclDevice → List EsclAddress × SaneStatus
  | i, [], device => ([device.current], answers i)
  | i, address :: rest, device =>
      if answers i = .good then ([device.current], answers i)
      else
        let later := askAddresses answers (i + 1) rest (device.use address rest)
        (device.current :: later.1, later.2)

/-- The entry of the list that has the address of an opened device. -/
def knownDevice (devices : List EsclDevice) (device : EsclDevice) : Option EsclDevice :=
  devices.find? fun known => known.portNb == device.portNb &&
    known.ipAddress == device.ipAddress && known.type == device.type

/-- The device that `escl_parse_name` fills. -/
def ParsedName.device (parsed : ParsedName) : EsclDevice :=
  { modelName := []
    portNb := parsed.portNb
    ipAddress := parsed.ipAddress
    is := []
    type := parsed.type
    https := parsed.https
    unixSocket := parsed.unixSocket }

/-- `sane_open` up to the options. -/
def saneOpen (devices : List EsclDevice) (answers : Nat → SaneStatus) (name : List UInt8) :
    List EsclAddress × SaneStatus :=
  match esclParseName name with
  | none => ([], .inval)
  | some parsed =>
      let device := parsed.device
      let device := match knownDevice devices device with
        | none => device
        | some known => esclCopyAddresses device known
      askAddresses answers 0 device.addresses device

/-! ## Announcements -/

/-- What the discovery learns of a scanner over one address, port and service type. -/
structure Announcement where
  modelName : List UInt8
  ipAddress : List UInt8
  port : UInt16
  secure : Bool
  is : Option (List UInt8)
  uuid : Option (List UInt8)
  supported : Bool
  deriving DecidableEq, Repr

def Announcement.type (a : Announcement) : List UInt8 := if a.secure then uscansType else uscanType

/-- The list of devices behind some announcements. -/
def announced (announcements : List Announcement) : List EsclDevice :=
  announcements.foldl (fun devices a =>
    esclDeviceAdd devices a.port.toNat a.modelName a.ipAddress a.is a.uuid a.type a.supported) []

/-! ## Scanners -/

/-- Where an announcement says that the scanner is. -/
structure Place where
  ipAddress : List UInt8
  portNb : Nat
  secure : Bool
  deriving DecidableEq, Repr

def Announcement.place (a : Announcement) : Place := ⟨a.ipAddress, a.port.toNat, a.secure⟩

/-- Where a request for an address goes to. -/
def EsclAddress.place (address : EsclAddress) : Place :=
  ⟨address.ipAddress, address.portNb, address.https⟩

/-- A scanner: the announcement it was first known by, and all that were merged with it. -/
structure Group where
  founder : Announcement
  members : List Announcement
  deriving DecidableEq, Repr

/-- The announcements are of one device: they agree on the address or on the uuid. -/
def SameDevice (founder a : Announcement) : Prop :=
  founder.ipAddress = a.ipAddress ∨ (a.uuid.isSome ∧ founder.uuid = a.uuid)

instance (founder a : Announcement) : Decidable (SameDevice founder a) :=
  inferInstanceAs (Decidable (_ ∨ _))

/-- An announcement joins the scanner that was last founded among those it is of one device
with. -/
def joinGroup (a : Announcement) : List Group → Option (List Group)
  | [] => none
  | g :: rest =>
      if SameDevice g.founder a then some ({ g with members := g.members ++ [a] } :: rest)
      else (joinGroup a rest).map (g :: ·)

/-- An announcement that joins none founds one, if it has a port. -/
def addToGroups (groups : List Group) (a : Announcement) : List Group :=
  match joinGroup a groups with
  | some groups => groups
  | none => if a.port = 0 then groups else ⟨a, [a]⟩ :: groups

def groupsOf (announcements : List Announcement) : List Group :=
  announcements.foldl addToGroups []

/-- What is expected of `sane_open` for a scanner: the addresses it asks, what they answer and
what it returns. -/
structure FailsOver (g : Group) (answers : Nat → SaneStatus) (asked : List Place)
    (status : SaneStatus) : Prop where
  first : asked.head? = some g.founder.place
  once : asked.Nodup
  known : ∀ place ∈ asked, ∃ a ∈ g.members, a.place = place
  stops : ∀ i, i + 1 < asked.length → answers i ≠ .good
  all : (∀ i < asked.length, answers i ≠ .good) → ∀ a ∈ g.members, a.place ∈ asked
  status : status = .good ↔ ∃ i < asked.length, answers i = .good

/-! ## The list of devices and the scanners -/

/-- The entry of the list that stands for a scanner. -/
structure StandsFor (g : Group) (device : EsclDevice) : Prop where
  ipAddress : device.ipAddress = g.founder.ipAddress
  portNb : device.portNb = g.founder.port.toNat
  https : device.https = g.founder.secure
  type : device.type = g.founder.type
  uuid : device.uuid = g.founder.uuid
  unixSocket : device.unixSocket = none
  portPos : g.founder.port ≠ 0
  founder : g.founder ∈ g.members

theorem StandsFor.join {g : Group} {device : EsclDevice} (h : StandsFor g device)
    (a : Announcement) : StandsFor { g with members := g.members ++ [a] } device :=
  { h with founder := List.mem_append_left _ h.founder }

theorem StandsFor.addAddress {g : Group} {device : EsclDevice} (h : StandsFor g device)
    (address : EsclAddress) : StandsFor g (esclAddAddress device address) := by
  unfold esclAddAddress
  split_ifs
  · exact h
  · exact { h with }

/-- The loop of `escl_device_add` finds the entry of the scanner that the announcement joins. -/
theorem mergeAddress_joins {groups : List Group} {devices : List EsclDevice}
    (h : List.Forall₂ StandsFor groups devices) (a : Announcement) {address : EsclAddress}
    (haddress : address.ipAddress = a.ipAddress) :
    (joinGroup a groups = none ∧ mergeAddress address a.uuid devices = none) ∨
      ∃ groups' devices', joinGroup a groups = some groups' ∧
        mergeAddress address a.uuid devices = some devices' ∧
        List.Forall₂ StandsFor groups' devices' := by
  induction h with
  | nil => exact .inl ⟨rfl, rfl⟩
  | @cons g device groups devices hfirst hrest ih =>
      have hsame : (device.ipAddress = address.ipAddress ∨
          (a.uuid.isSome = true ∧ device.uuid = a.uuid)) ↔ SameDevice g.founder a := by
        rw [SameDevice, hfirst.ipAddress, hfirst.uuid, haddress]
      rw [joinGroup, mergeAddress]
      by_cases hjoin : SameDevice g.founder a
      · refine .inr ⟨_, if hnew : device.ipAddress ≠ address.ipAddress ∨
            device.portNb ≠ address.portNb ∨ device.type ≠ address.type then
            esclAddAddress device address :: devices else device :: devices,
          if_pos hjoin, ?_, ?_⟩
        · rw [if_pos (hsame.mpr hjoin)]
          by_cases hnew : device.ipAddress ≠ address.ipAddress ∨
              device.portNb ≠ address.portNb ∨ device.type ≠ address.type
          · rw [if_pos hnew, dif_pos hnew]
          · obtain ⟨-, hnew'⟩ := not_or.mp hnew
            obtain ⟨hport, htype⟩ := not_or.mp hnew'
            rw [if_neg hnew, if_neg htype, if_pos (Classical.not_not.mp hport), dif_neg hnew]
        · split_ifs with hnew
          · exact .cons ((hfirst.join a).addAddress address) hrest
          · exact .cons (hfirst.join a) hrest
      · rw [if_neg hjoin, if_neg (fun hcode => hjoin (hsame.mp hcode))]
        cases ih with
        | inl hnone =>
            rw [hnone.1, hnone.2]
            exact .inl ⟨rfl, rfl⟩
        | inr hsome =>
            obtain ⟨groups', devices', hgroups, hdevices, hrest'⟩ := hsome
            rw [hgroups, hdevices]
            exact .inr ⟨_, _, rfl, rfl, .cons hfirst hrest'⟩

theorem type_ne_uscan (a : Announcement) :
    (a.type != uscanType && a.type != httpType) = a.secure := by
  unfold Announcement.type
  cases a.secure <;> decide

/-- One announcement keeps the list of devices in step with the scanners. -/
theorem esclDeviceAdd_standsFor {groups : List Group} {devices : List EsclDevice}
    (h : List.Forall₂ StandsFor groups devices) (a : Announcement) :
    List.Forall₂ StandsFor (addToGroups groups a)
      (esclDeviceAdd devices a.port.toNat a.modelName a.ipAddress a.is a.uuid a.type
        a.supported) := by
  unfold addToGroups esclDeviceAdd
  dsimp only
  have hip : (⟨a.ipAddress, a.port.toNat, a.type, isSecureType a.type && a.supported,
      isSecureType a.type⟩ : EsclAddress).ipAddress = a.ipAddress := rfl
  cases mergeAddress_joins h a hip with
  | inr hsome =>
      obtain ⟨groups', devices', hgroups, hdevices, hrest⟩ := hsome
      rw [hgroups, hdevices]
      exact hrest
  | inl hnone =>
      rw [hnone.1, hnone.2]
      dsimp only
      by_cases hport : a.port = 0
      · rw [if_pos hport, if_pos (by rw [hport]; rfl)]
        exact h
      · have hport' : a.port.toNat ≠ 0 := fun hzero => hport (UInt16.toNat_inj.mp hzero)
        rw [if_neg hport, if_neg hport']
        exact .cons ⟨rfl, rfl, type_ne_uscan a, rfl, rfl, rfl, hport, List.mem_singleton.mpr rfl⟩ h

theorem announced_standsFor (announcements : List Announcement) :
    List.Forall₂ StandsFor (groupsOf announcements) (announced announcements) := by
  unfold groupsOf announced
  suffices h : ∀ (groups : List Group) (devices : List EsclDevice),
      List.Forall₂ StandsFor groups devices → List.Forall₂ StandsFor
        (announcements.foldl addToGroups groups) (announcements.foldl (fun devices a =>
          esclDeviceAdd devices a.port.toNat a.modelName a.ipAddress a.is a.uuid a.type
            a.supported) devices) from
    h [] [] .nil
  induction announcements with
  | nil => exact fun _ _ h => h
  | cons a announcements ih => exact fun _ _ h => ih _ _ (esclDeviceAdd_standsFor h a)

/-! ## What is asked -/

theorem mem_standsFor {groups : List Group} {devices : List EsclDevice}
    (h : List.Forall₂ StandsFor groups devices) {device : EsclDevice} (hdevice : device ∈ devices) :
    ∃ g, StandsFor g device := by
  induction h with
  | nil => cases hdevice
  | cons hfirst _ ih =>
      cases hdevice with
      | head => exact ⟨_, hfirst⟩
      | tail _ hmem => exact ih hmem

theorem type_ne_http (a : Announcement) (secure : Bool) :
    a.type ≠ if secure then httpsType else httpType := by
  unfold Announcement.type
  cases a.secure <;> cases secure <;> decide

/-- The types of announced devices are not those of names, so that none is found. -/
theorem knownDevice_announced (announcements : List Announcement) (device : EsclDevice)
    (secure : Bool) (htype : device.type = if secure then httpsType else httpType) :
    knownDevice (announced announcements) device = none := by
  rw [knownDevice, List.find?_eq_none]
  intro known hknown
  obtain ⟨g, hg⟩ := mem_standsFor (announced_standsFor announcements) hknown
  have hne : known.type ≠ device.type := by
    rw [hg.type, htype]
    exact type_ne_http g.founder secure
  simp [hne]

/-- Of an announced scanner only the listed address is asked. -/
theorem saneOpen_announced (announcements : List Announcement) {g : Group} {device : EsclDevice}
    (h : StandsFor g device) (hhost : 58 ∉ device.ipAddress) (answers : Nat → SaneStatus) :
    ∃ address, address.place = g.founder.place ∧
      saneOpen (announced announcements) answers (deviceName device) =
        ([address], answers 0) := by
  have hsocket : parseSocket (deviceName device) = some (none, deviceUrl device) := by
    rw [parseSocket_deviceName, h.unixSocket] <;> simp [h.unixSocket]
  have hport : device.portNb ≠ 0 := by
    rw [h.portNb]
    exact fun hzero => h.portPos (UInt16.toNat_inj.mp hzero)
  have hportLt : device.portNb < 65536 := by
    rw [h.portNb]
    exact g.founder.port.toNat_lt
  have hparsed := esclParseName_of_socket hsocket (by omega) (by omega) hhost
  unfold saneOpen
  rw [hparsed]
  dsimp only
  rw [knownDevice_announced announcements _ device.https rfl]
  refine ⟨_, ?_, rfl⟩
  rw [EsclDevice.current, EsclAddress.place, Announcement.place]
  simp only [ParsedName.device, h.ipAddress, h.portNb, h.https]

/-- The first address is the only one asked, which is enough if it answers or there is no
other. -/
theorem failsOver_singleton_iff {g : Group} (hfounder : g.founder ∈ g.members)
    (answers : Nat → SaneStatus) :
    FailsOver g answers [g.founder.place] (answers 0) ↔
      (∀ a ∈ g.members, a.place = g.founder.place) ∨ answers 0 = .good := by
  constructor
  · intro h
    by_cases hgood : answers 0 = .good
    · exact .inr hgood
    · refine .inl fun a ha => ?_
      have hasked : ∀ i < [g.founder.place].length, answers i ≠ .good := by
        intro i hi
        have hzero : i = 0 := by simpa using hi
        rw [hzero]
        exact hgood
      exact List.mem_singleton.mp (h.all hasked a ha)
  · intro h
    exact {
      first := rfl
      once := List.nodup_singleton _
      known := fun place hplace =>
        ⟨g.founder, hfounder, (List.mem_singleton.mp hplace).symm⟩
      stops := fun i hi => by simp at hi
      all := fun hbad a ha => by
        have hsame := h.resolve_right (hbad 0 (by simp))
        exact List.mem_singleton.mpr (hsame a ha)
      status := by simp }

/-- Opening a listed scanner fails over between its addresses exactly if it was announced at one
address only, or the first answers. -/
theorem saneOpen_failsOver_iff (announcements : List Announcement) {g : Group}
    {device : EsclDevice}
    (hlisted : (g, device) ∈ (groupsOf announcements).zip (announced announcements))
    (hhost : 58 ∉ device.ipAddress) (answers : Nat → SaneStatus) :
    FailsOver g answers
        ((saneOpen (announced announcements) answers (deviceName device)).1.map EsclAddress.place)
        (saneOpen (announced announcements) answers (deviceName device)).2 ↔
      (∀ a ∈ g.members, a.place = g.founder.place) ∨ answers 0 = .good := by
  have hstands : StandsFor g device :=
    (List.forall₂_iff_zip.mp (announced_standsFor announcements)).2 hlisted
  obtain ⟨address, hplace, hopen⟩ := saneOpen_announced announcements hstands hhost answers
  rw [hopen, List.map_singleton, hplace]
  exact failsOver_singleton_iff hstands.founder answers

def scannerAt (last : Char) : Announcement where
  modelName := ascii ['M']
  ipAddress := ascii ['1', '0', '.', '0', '.', '0', '.', last]
  port := 80
  secure := false
  is := none
  uuid := some (ascii ['u'])
  supported := false

/-- A scanner announced at two addresses. -/
def twoAddresses : List Announcement := [scannerAt '1', scannerAt '2']

theorem mem_zip_twoAddresses :
    ((⟨scannerAt '1', [scannerAt '1', scannerAt '2']⟩ : Group),
      ({ modelName := ascii ['M']
         portNb := 80
         ipAddress := ascii ['1', '0', '.', '0', '.', '0', '.', '1']
         is := ascii ['f', 'l', 'a', 't', 'b', 'e', 'd', ' ', 'o', 'r', ' ', 'A', 'D', 'F', ' ',
           's', 'c', 'a', 'n', 'n', 'e', 'r']
         uuid := some (ascii ['u'])
         type := uscanType
         https := false
         addresses := [⟨ascii ['1', '0', '.', '0', '.', '0', '.', '2'], 80, uscanType, false,
           false⟩] } : EsclDevice)) ∈
      (groupsOf twoAddresses).zip (announced twoAddresses) := by
  decide

theorem saneOpen_failsOver_iff_twoAddresses :
    ∃ g device, (g, device) ∈ (groupsOf twoAddresses).zip (announced twoAddresses) ∧
      (FailsOver g (fun _ => .good)
          ((saneOpen (announced twoAddresses) (fun _ => .good) (deviceName device)).1.map
            EsclAddress.place)
          (saneOpen (announced twoAddresses) (fun _ => .good) (deviceName device)).2 ↔
        (∀ a ∈ g.members, a.place = g.founder.place) ∨ SaneStatus.good = .good) :=
  ⟨_, _, mem_zip_twoAddresses,
    saneOpen_failsOver_iff twoAddresses mem_zip_twoAddresses (by decide) fun _ => .good⟩

/-- The second address is not asked when the first fails. -/
theorem not_failsOver_twoAddresses :
    ∃ g device, (g, device) ∈ (groupsOf twoAddresses).zip (announced twoAddresses) ∧
      58 ∉ device.ipAddress ∧
      ¬ FailsOver g (fun _ => .ioError)
          ((saneOpen (announced twoAddresses) (fun _ => .ioError) (deviceName device)).1.map
            EsclAddress.place)
          (saneOpen (announced twoAddresses) (fun _ => .ioError) (deviceName device)).2 := by
  refine ⟨_, _, mem_zip_twoAddresses, by decide, fun h => ?_⟩
  have hstands := (List.forall₂_iff_zip.mp (announced_standsFor twoAddresses)).2
    mem_zip_twoAddresses
  obtain ⟨address, hplace, hopen⟩ :=
    saneOpen_announced twoAddresses hstands (by decide) fun _ => .ioError
  rw [hopen, List.map_singleton, hplace, failsOver_singleton_iff hstands.founder] at h
  revert h
  decide

end SaneBackends.Escl
