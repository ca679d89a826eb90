import Mathlib.Tactic
import SaneBackends.Lib.CString
import SaneBackends.Lib.Result
import SaneBackends.Sanei.Types
/-!
# Names of devices behind a host

`sane_get_devices` of the net backend puts the host in front of the name that the server gives a
device, in brackets if there is a colon in it, and `sane_open` takes the two apart again. Whether
there is a connection to a host is left to what it answers.
-/

namespace SaneBackends.Net

open SaneBackends.Lib

/-! ## The code -/

/-- `Net_Device`, with the answer of `getaddrinfo`. -/
structure NetDevice (α : Type) where
  name : List UInt8
  addr : α

structure SaneDevice where
  name : List UInt8
  vendor : List UInt8
  model : List UInt8
  type : List UInt8

section Code

variable {α : Type}

/-- `add_device`, with the entry it finds or makes and the list from `first_device` on. -/
def addDevice (name : List UInt8) (res : Option α) (devices : List (NetDevice α)) :
    Except SaneStatus (NetDevice α × List (NetDevice α)) :=
  match devices.find? fun nd => nd.name = name with
  | some nd => .ok (nd, devices)
  | none =>
      match res with
      | none => .error .ioError
      | some addr => .ok (⟨name, addr⟩, ⟨name, addr⟩ :: devices)

/-- `sane_init` adds a host, with what `getaddrinfo` answers. -/
def addHost (devices : List (NetDevice α)) (host : List UInt8 × Option α) : List (NetDevice α) :=
  match addDevice host.1 host.2 devices with
  | .ok (_, devices) => devices
  | .error _ => devices

def addHosts (hosts : List (List UInt8 × Option α)) (devices : List (NetDevice α)) :
    List (NetDevice α) :=
  hosts.foldl addHost devices

/-- `full_name`. -/
def fullName (name devName : List UInt8) : List UInt8 :=
  (if 58 ∈ name then [91] ++ name ++ [93] else name) ++ [58] ++ devName

/-- `devlist` and `devlist_size`, with the number of allocations so far. -/
structure Listing where
  devlist : List SaneDevice
  devlistSize : Nat
  allocs : Nat

-- which allocations succeed
variable (memory : Nat → Bool)

def Listing.alloc (l : Listing) : Except SaneStatus Listing :=
  if memory l.allocs then .ok { l with allocs := l.allocs + 1 } else .error .noMem

/-- `ASSERT_SPACE`. -/
def Listing.assertSpace (n : Nat) (l : Listing) : Except SaneStatus Listing :=
  if l.devlistSize < l.devlist.length + n then
    Listing.alloc memory { l with devlistSize := l.devlistSize + n + 15 }
  else .ok l

/-- The entry for a device of the reply. The other strings of it are copied. -/
def listDevice (dev : NetDevice α) (l : Listing) (device : SaneDevice) :
    Except SaneStatus Listing := do
  let l ← l.alloc memory
  let l ← l.alloc memory
  let l ← l.alloc memory
  let l ← l.alloc memory
  .ok { l with devlist := l.devlist ++ [{ device with name := fullName dev.name device.name }] }

-- the devices each host reports, unless it cannot be reached or refuses
variable (reports : NetDevice α → Option (List SaneDevice))

def listHost (l : Listing) (dev : NetDevice α) : Except SaneStatus Listing :=
  match reports dev with
  | none => .ok l
  | some deviceList => do
      let l ← l.assertSpace memory deviceList.length
      deviceList.foldlM (listDevice memory dev) l

def saneGetDevices (localOnly : Bool) (devices : List (NetDevice α)) :
    Except SaneStatus (List SaneDevice) :=
  if localOnly then .ok []
  else do
    let l ← devices.foldlM (listHost memory reports)
      { devlist := [], devlistSize := 0, allocs := 0 }
    let l ← l.assertSpace memory 1
    .ok l.devlist

/-- `nd_name` and `dev_name` as `sane_open` makes them of the name. -/
def splitName (fullName : List UInt8) : Except SaneStatus (List UInt8 × List UInt8) :=
  let v6addr := fullName.head? = some 91
  match if v6addr then strchr fullName 93 else some fullName with
  | none => .error .inval
  | some tmpName =>
      match strchr tmpName 58 with
      | some devName =>
          let len := fullName.length - devName.length
          .ok (if v6addr then fullName.tail.take (len - 2) else fullName.take len, devName.tail)
      | none => .ok (if v6addr then fullName.tail.take (fullName.length - 2) else fullName, [])

/-- `sane_open` up to the call of the server, with the entry of the host and the name that is sent
to it. -/
def saneOpen (getaddrinfo : List UInt8 → Option α) (fullName : List UInt8)
    (devices : List (NetDevice α)) :
    Except SaneStatus (NetDevice α × List UInt8 × List (NetDevice α)) := do
  let (ndName, devName) ← splitName fullName
  if ndName = [] then .error .inval
  else
    match devices.find? fun dev => dev.name = ndName with
    | some dev => .ok (dev, devName, devices)
    | none =>
        let (dev, devices) ← addDevice ndName (getaddrinfo ndName) devices
        .ok (dev, devName, devices)

end Code

/-! ## What it is for -/

/-- The name of a host, or an address. -/
structure IsHost (host : List UInt8) : Prop where
  ne_nil : host ≠ []
  plain : 58 ∉ host → host.head? ≠ some 91
  address : 58 ∈ host → 93 ∉ host

/-- The devices that are reported, each with its host. -/
def sources {α : Type} (reports : NetDevice α → Option (List SaneDevice))
    (devices : List (NetDevice α)) : List (NetDevice α × SaneDevice) :=
  devices.flatMap fun dev => ((reports dev).getD []).map fun device => (dev, device)

section Names

variable {α : Type} {host devName : List UInt8} {devices : List (NetDevice α)}
  {hosts : List (List UInt8 × Option α)} {memory : Nat → Bool}
  {reports : NetDevice α → Option (List SaneDevice)} {dev : NetDevice α} {l l' : Listing}

theorem splitName_fullName (h : IsHost host) (devName : List UInt8) :
    splitName (fullName host devName) = .ok (host, devName) := by
  unfold splitName fullName
  by_cases hcolon : 58 ∈ host
  · have hshape : [91] ++ host ++ [93] ++ [58] ++ devName =
        (91 :: host) ++ 93 :: ([] ++ 58 :: devName) := by simp
    have hbracket : (93 : UInt8) ∉ 91 :: host := by
      rw [List.mem_cons, not_or]
      exact ⟨by decide, h.address hcolon⟩
    have hfound : strchr ([93] ++ 58 :: devName) 58 = some (58 :: devName) :=
      strchr_append (by decide)
    have hlen : host.length + (devName.length + 1 + 1) - devName.length - 2 = host.length := by
      omega
    rw [if_pos hcolon, hshape]
    simp only [List.cons_append, List.head?_cons, if_true]
    rw [← List.cons_append, strchr_append hbracket]
    dsimp only [List.nil_append]
    rw [show 93 :: 58 :: devName = [93] ++ 58 :: devName from rfl, hfound]
    simp [hlen]
  · have hhead : ¬ (host ++ [58] ++ devName).head? = some 91 := by
      rw [List.append_assoc, List.head?_append_of_ne_nil _ h.ne_nil]
      exact h.plain hcolon
    rw [if_neg hcolon]
    simp only [if_neg hhead]
    rw [List.append_assoc, List.singleton_append, strchr_append hcolon]
    simp

/-! ## The list of hosts -/

theorem addHost_cases (host : List UInt8 × Option α) (devices : List (NetDevice α)) :
    addHost devices host = devices ∨ (∀ dev ∈ devices, dev.name ≠ host.1) ∧
      ∃ addr, addHost devices host = ⟨host.1, addr⟩ :: devices := by
  unfold addHost addDevice
  cases hfind : devices.find? fun nd => nd.name = host.1 with
  | some nd => exact .inl rfl
  | none =>
      cases hres : host.2 with
      | none => exact .inl rfl
      | some addr =>
          rw [List.find?_eq_none] at hfind
          refine .inr ⟨fun dev hdev => ?_, addr, rfl⟩
          simpa using hfind dev hdev

/-- Hosts are added in front, each once. -/
theorem addHosts_spec (hnodup : (devices.map (·.name)).Nodup) :
    ((addHosts hosts devices).map (·.name)).Nodup ∧ devices <:+ addHosts hosts devices ∧
      ∀ dev ∈ addHosts hosts devices, dev ∈ devices ∨ ∃ host ∈ hosts, host.1 = dev.name := by
  induction hosts generalizing devices with
  | nil => exact ⟨hnodup, List.suffix_refl _, fun dev hdev => .inl hdev⟩
  | cons host hosts ih =>
      rw [show addHosts (host :: hosts) devices = addHosts hosts (addHost devices host) from rfl]
      obtain hsame | ⟨hnew, addr, hadd⟩ := addHost_cases host devices
      · rw [hsame]
        obtain ⟨hnodup', hsuffix, hnames⟩ := ih hnodup
        refine ⟨hnodup', hsuffix, fun dev hdev => (hnames dev hdev).imp_right ?_⟩
        rintro ⟨host', hhost', hname⟩
        exact ⟨host', List.mem_cons_of_mem _ hhost', hname⟩
      · rw [hadd]
        have hfresh : host.1 ∉ devices.map (·.name) := by
          rw [List.mem_map]
          rintro ⟨dev, hdev, hname⟩
          exact hnew dev hdev hname
        obtain ⟨hnodup', hsuffix, hnames⟩ := @ih (⟨host.1, addr⟩ :: devices)
          (List.nodup_cons.mpr ⟨hfresh, hnodup⟩)
        refine ⟨hnodup', (List.suffix_cons _ _).trans hsuffix, fun dev hdev => ?_⟩
        obtain hold | ⟨host', hhost', hname⟩ := hnames dev hdev
        · obtain rfl | hold := List.mem_cons.mp hold
          · exact .inr ⟨host, List.mem_cons_self .., rfl⟩
          · exact .inl hold
        · exact .inr ⟨host', List.mem_cons_of_mem _ hhost', hname⟩

theorem find_of_mem (hnodup : (devices.map (·.name)).Nodup) (hdev : dev ∈ devices) :
    (devices.find? fun nd => nd.name = dev.name) = some dev := by
  cases hfind : devices.find? fun nd => nd.name = dev.name with
  | none =>
      rw [List.find?_eq_none] at hfind
      simpa using hfind dev hdev
  | some nd =>
      have hname : nd.name = dev.name := by simpa using List.find?_some hfind
      rw [List.inj_on_of_nodup_map hnodup (List.mem_of_find?_eq_some hfind) hdev hname]

/-- The name of a device behind a host of the list leads to that host and that device. -/
theorem saneOpen_fullName (hnodup : (devices.map (·.name)).Nodup) (hdev : dev ∈ devices)
    (hhost : IsHost dev.name) (getaddrinfo : List UInt8 → Option α) (devName : List UInt8) :
    saneOpen getaddrinfo (fullName dev.name devName) devices = .ok (dev, devName, devices) := by
  rw [saneOpen, splitName_fullName hhost, ok_bind]
  dsimp only
  rw [if_neg hhost.ne_nil, find_of_mem hnodup hdev]

/-! ## The listing -/

theorem alloc_devlist (h : l.alloc memory = .ok l') : l'.devlist = l.devlist := by
  unfold Listing.alloc at h
  split_ifs at h
  cases h
  rfl

theorem assertSpace_devlist {n : Nat} (h : l.assertSpace memory n = .ok l') :
    l'.devlist = l.devlist := by
  unfold Listing.assertSpace at h
  split_ifs at h
  · have hkeep := alloc_devlist h
    exact hkeep
  · cases h
    rfl

/-- The entry for a device that a host reports. -/
def entryOf (src : NetDevice α × SaneDevice) : SaneDevice :=
  { src.2 with name := fullName src.1.name src.2.name }

theorem listDevice_devlist {device : SaneDevice} (h : listDevice memory dev l device = .ok l') :
    l'.devlist = l.devlist ++ [entryOf (dev, device)] := by
  unfold listDevice at h
  obtain ⟨l₁, h₁, h⟩ := bind_eq_ok.mp h
  obtain ⟨l₂, h₂, h⟩ := bind_eq_ok.mp h
  obtain ⟨l₃, h₃, h⟩ := bind_eq_ok.mp h
  obtain ⟨l₄, h₄, h⟩ := bind_eq_ok.mp h
  cases h
  dsimp only
  rw [alloc_devlist h₄, alloc_devlist h₃, alloc_devlist h₂, alloc_devlist h₁]
  rfl

theorem listDevices_devlist {deviceList : List SaneDevice}
    (h : deviceList.foldlM (listDevice memory dev) l = .ok l') :
    l'.devlist = l.devlist ++ deviceList.map fun device => entryOf (dev, device) := by
  induction deviceList generalizing l with
  | nil =>
      cases h
      simp
  | cons device deviceList ih =>
      rw [List.foldlM_cons] at h
      obtain ⟨l₁, h₁, h⟩ := bind_eq_ok.mp h
      rw [ih h, listDevice_devlist h₁]
      simp

theorem listHosts_devlist (h : devices.foldlM (listHost memory reports) l = .ok l') :
    l'.devlist = l.devlist ++ (sources reports devices).map entryOf := by
  induction devices generalizing l with
  | nil =>
      cases h
      simp [sources]
  | cons dev devices ih =>
      rw [List.foldlM_cons] at h
      obtain ⟨l₁, h₁, h⟩ := bind_eq_ok.mp h
      rw [ih h]
      unfold listHost at h₁
      cases hreport : reports dev with
      | none =>
          rw [hreport] at h₁
          cases h₁
          simp [sources, hreport]
      | some deviceList =>
          rw [hreport] at h₁
          obtain ⟨l₂, h₂, h₃⟩ := bind_eq_ok.mp h₁
          rw [listDevices_devlist h₃, assertSpace_devlist h₂]
          simp [sources, hreport, Function.comp_def]

theorem saneGetDevices_eq {listed : List SaneDevice}
    (h : saneGetDevices memory reports false devices = .ok listed) :
    listed = (sources reports devices).map entryOf := by
  unfold saneGetDevices at h
  rw [if_neg Bool.false_ne_true] at h
  obtain ⟨l₁, h₁, h⟩ := bind_eq_ok.mp h
  obtain ⟨l₂, h₂, h⟩ := bind_eq_ok.mp h
  cases h
  rw [assertSpace_devlist h₂, listHosts_devlist h₁, List.nil_append]

theorem mem_of_mem_sources {src : NetDevice α × SaneDevice} (h : src ∈ sources reports devices) :
    src.1 ∈ devices := by
  obtain ⟨dev, hdev, hsrc⟩ := List.mem_flatMap.mp h
  obtain ⟨device, -, rfl⟩ := List.mem_map.mp hsrc
  exact hdev

end Names

/-- Opening the listed devices one by one leads to the hosts and the devices that they were listed
for, also when more hosts have been added. -/
theorem saneGetDevices_saneOpen {α : Type} {hosts : List (List UInt8 × Option α)}
    (hhosts : ∀ host ∈ hosts, IsHost host.1) {memory : Nat → Bool}
    {reports : NetDevice α → Option (List SaneDevice)} {localOnly : Bool}
    {listed : List SaneDevice}
    (hlisted : saneGetDevices memory reports localOnly (addHosts hosts []) = .ok listed)
    (getaddrinfo : List UInt8 → Option α) (more : List (List UInt8 × Option α)) :
    (listed.map fun device =>
        saneOpen getaddrinfo device.name (addHosts more (addHosts hosts []))) =
      (if localOnly then [] else sources reports (addHosts hosts [])).map fun src =>
        .ok (src.1, src.2.name, addHosts more (addHosts hosts [])) := by
  cases localOnly with
  | true =>
      cases hlisted
      rfl
  | false =>
      obtain ⟨hnodup, -, hnames⟩ := @addHosts_spec α [] hosts List.nodup_nil
      obtain ⟨hnodup', hsuffix, -⟩ := @addHosts_spec α (addHosts hosts []) more hnodup
      rw [saneGetDevices_eq hlisted, if_neg Bool.false_ne_true, List.map_map]
      refine List.map_congr_left fun src hsrc => ?_
      have hdev := mem_of_mem_sources hsrc
      obtain hnone | ⟨host, hhost, hname⟩ := hnames src.1 hdev
      · cases hnone
      · exact saneOpen_fullName hnodup' (hsuffix.subset hdev) (hname ▸ hhosts host hhost)
          getaddrinfo src.2.name

/-- A scanner behind an address with colons, and one behind a name. -/
theorem saneGetDevices_saneOpen_twoHosts :
    (([⟨[91, 58, 58, 49, 93, 58, 97, 58, 93], [], [], []⟩, ⟨[104, 58, 91], [], [], []⟩] :
        List SaneDevice).map fun device =>
          saneOpen (fun _ => none) device.name
            (addHosts [] (addHosts [([104], some 0), ([58, 58, 49], some 1)] []))) =
      (if false then [] else sources
          (fun dev : NetDevice Nat =>
            some [⟨if dev.addr = 0 then [91] else [97, 58, 93], [], [], []⟩])
          (addHosts [([104], some 0), ([58, 58, 49], some 1)] [])).map fun src =>
        .ok (src.1, src.2.name,
          addHosts [] (addHosts [([104], some 0), ([58, 58, 49], some 1)] [])) := by
  have hhosts : ∀ host ∈ [(([104], some 0) : List UInt8 × Option Nat), ([58, 58, 49], some 1)],
      IsHost host.1 := by
    intro host hhost
    fin_cases hhost
    · exact ⟨by decide, fun _ => by decide, fun _ => by decide⟩
    · exact ⟨by decide, fun _ => by decide, fun _ => by decide⟩
  exact @saneGetDevices_saneOpen Nat _ hhosts (fun _ => true) _ false _ rfl (fun _ => none) []

end SaneBackends.Net
