import SaneBackends.Pixma.BjnpUri
/-!
# `pixma_bjnp.c`: the table of devices

`bjnp_allocate_device`, with the loop over the addresses of a host. Each address is tried in the
first slot that is free; the slot is taken when the loop is over.
-/

namespace SaneBackends.Bjnp

open SaneBackends.Lib

/-! ## Devices -/

/-- `BJNP_NO_DEVICES`. -/
def maxDevices : Nat := 16

/-- `CMD_UDP_DISCOVER`. -/
def cmdUdpDiscover : UInt8 := 0x01

/-- One address of a host: what it is compared by, and the MAC address in its answer to the
discover command, if it answers. -/
structure HostAddress where
  address : Nat
  addressLevel : Int
  answer : Option (List UInt8)
  deriving DecidableEq, Repr

/-- `bjnp_device_t`, without the state of status polls. -/
structure BjnpDevice where
  isOpen : Bool
  protocol : Option Protocol
  singleTcpSession : Bool
  tcpSocket : Int
  serial : BitVec 16
  sessionId : Int
  lastCmd : UInt8
  blocksize : Nat
  scannerDataLeft : Nat
  lastBlock : Bool
  macAddress : List UInt8
  addr : Option Nat
  addressLevel : Int
  scannerTimeout : Int
  ipTimeout : Int
  deriving DecidableEq, Repr

/-- A device as `bjnp_init_device_structure` leaves it for an address that answers. -/
def deviceFor (protocol : Protocol) (ipTimeout : Int) (a : HostAddress) (mac : List UInt8) :
    BjnpDevice where
  isOpen := true
  protocol := some protocol
  singleTcpSession := protocol = .mfnp
  tcpSocket := -1
  -- -1, until the discover command is sent
  serial := 0
  sessionId := 0
  lastCmd := cmdUdpDiscover
  blocksize := blocksizeStart
  scannerDataLeft := 0
  lastBlock := false
  macAddress := mac
  addr := some a.address
  addressLevel := a.addressLevel
  scannerTimeout := 1000
  ipTimeout := ipTimeout

/-- `bjnp_init_device_structure`, in a slot, and whether it returns 0. -/
def initDeviceStructure (protocol : Protocol) (ipTimeout : Int) (a : HostAddress)
    (slot : BjnpDevice) : Bool × BjnpDevice :=
  match a.answer with
  | some mac => (true, deviceFor protocol ipTimeout a mac)
  | none =>
      (false, { deviceFor protocol ipTimeout a slot.macAddress with isOpen := false, addr := none })

/-! ## The table -/

/-- `device` and `bjnp_no_devices`. -/
structure Table where
  device : Nat → BjnpDevice
  noDevices : Nat

def Table.set (t : Table) (i : Nat) (d : BjnpDevice) : Table :=
  { t with device := Function.update t.device i d }

inductive BjnpStatus where
  | good
  | inval
  | alreadyAllocated
  deriving DecidableEq, Repr

/-- The first device in use with a MAC address. -/
def Table.find (t : Table) (mac : List UInt8) : Option Nat :=
  (List.range t.noDevices).find? fun i => (t.device i).macAddress == mac

/-- The device found before, with the better of two addresses; the new slot is freed. -/
def Table.merge (t : Table) (i : Nat) : Table :=
  let new := t.device t.noDevices
  let old := t.device i
  let t :=
    if old.addressLevel < new.addressLevel then
      t.set i { old with addr := new.addr, addressLevel := new.addressLevel }
    else t
  t.set t.noDevices { new with addr := none, isOpen := false }

/-- The loop of `bjnp_allocate_device` and what follows it: the status, `*dn` where it is set, and
the table. -/
def allocateLoop (protocol : Protocol) (ipTimeout : Int) :
    List HostAddress → Table → BjnpStatus × Option Nat × Table
  | [], t =>
      if (t.device t.noDevices).isOpen then
        (.good, some t.noDevices, { t with noDevices := t.noDevices + 1 })
      else (.inval, none, t)
  | a :: addresses, t =>
      if t.noDevices = maxDevices then (.inval, none, t)
      else
        let init := initDeviceStructure protocol ipTimeout a (t.device t.noDevices)
        let t := t.set t.noDevices init.2
        if init.1 then
          match t.find init.2.macAddress with
          | some i => (.alreadyAllocated, some i, t.merge i)
          | none => allocateLoop protocol ipTimeout addresses t
        else allocateLoop protocol ipTimeout addresses t

/-- A call: the name, and the addresses that a host and a port resolve to; there are none where
`getaddrinfo` fails. -/
structure AllocateCall where
  devname : List UInt8
  resolve : List UInt8 → List UInt8 → List HostAddress

/-- `get_protocol_by_method`. -/
def protocolByMethod (method : List UInt8) : Option Protocol :=
  if method = ['b', 'j', 'n', 'p'].map (fun c => UInt8.ofNat c.toNat) then some .bjnp
  else if method = ['m', 'f', 'n', 'p'].map (fun c => UInt8.ofNat c.toNat) then some .mfnp
  else none

/-- `BJNP_TIMEOUT_DEFAULT`. -/
def timeoutDefault : Int := 10000

/-- The timeout of the arguments; `none` if they are something else. -/
def argsTimeout (args : List UInt8) : Option Int :=
  if args = [] then some timeoutDefault
  else if timeoutKey <+: args then some (atoi (args.drop timeoutKey.length))
  else none

/-- The part of `bjnp_allocate_device` in front of the loop: the protocol, the timeout and the
addresses. -/
def AllocateCall.resolved (c : AllocateCall) : Option (Protocol × Int × List HostAddress) :=
  match splitUri c.devname with
  | .ok (some parts) => do
      let ipTimeout ← argsTimeout parts.args
      let protocol ← protocolByMethod parts.method
      let port := if parts.port = [] then writeSigned (defaultPort parts.method) else parts.port
      if c.resolve parts.host port = [] then none
      else some (protocol, ipTimeout, c.resolve parts.host port)
  | _ => none

/-- `bjnp_allocate_device`. -/
def bjnpAllocateDevice (c : AllocateCall) (t : Table) : BjnpStatus × Option Nat × Table :=
  match c.resolved with
  | none => (.inval, none, t)
  | some (protocol, ipTimeout, addresses) => allocateLoop protocol ipTimeout addresses t

/-! ## Runs -/

/-- The table before the first call. -/
def Table.empty : Table where
  device _ :=
    { isOpen := false, protocol := some .bjnp, singleTcpSession := false, tcpSocket := 0,
      serial := 0, sessionId := 0, lastCmd := 0, blocksize := 0, scannerDataLeft := 0,
      lastBlock := false, macAddress := [], addr := none, addressLevel := 0, scannerTimeout := 0,
      ipTimeout := 0 }
  noDevices := 0

/-- The table after some calls. -/
def afterCalls (calls : List AllocateCall) : Table :=
  calls.foldl (fun t c => (bjnpAllocateDevice c t).2.2) .empty

/-! ## What is claimed -/

/-- A device in use has the MAC address. -/
def Table.Knows (t : Table) (mac : List UInt8) : Prop :=
  ∃ i < t.noDevices, (t.device i).macAddress = mac

/-- No two devices in use have the same MAC address. -/
def Table.Distinct (t : Table) : Prop :=
  ∀ i < t.noDevices, ∀ j < t.noDevices, (t.device i).macAddress = (t.device j).macAddress → i = j

/-- One of the addresses answers, and its device is in the table or there is a free slot. -/
def Table.Allocates (t : Table) (addresses : List HostAddress) : Prop :=
  ∃ a ∈ addresses, ∃ mac ∈ a.answer, t.Knows mac ∨ t.noDevices < maxDevices

/-- The call succeeds just if a device can be allocated, the table has no device twice, and the
slot returned is open and belongs to an address that answered; where it is new, it is as that
address alone would leave it. -/
def CallKept (c : AllocateCall) (t : Table) : Prop :=
  let result := bjnpAllocateDevice c t
  (result.1 ≠ .inval ↔ ∃ r ∈ c.resolved, t.Allocates r.2.2) ∧ result.2.2.Distinct ∧
    (result.1 ≠ .inval → ∃ r ∈ c.resolved, ∃ i < result.2.2.noDevices, result.2.1 = some i ∧
      (result.2.2.device i).isOpen = true ∧
      ∃ a ∈ r.2.2, ∃ mac ∈ a.answer, (result.2.2.device i).macAddress = mac ∧
        (result.1 = .good → result.2.2.device i = deviceFor r.1 r.2.1 a mac))

/-- With a full table no address that answers is known; with a free slot the last address answers,
or one whose device is known, or none does. -/
def Allocatable (c : AllocateCall) (t : Table) : Prop :=
  ∀ r ∈ c.resolved, ∀ a ∈ r.2.2, ∀ mac ∈ a.answer,
    if t.noDevices = maxDevices then ¬ t.Knows mac
    else (∃ a ∈ r.2.2, ∃ mac ∈ a.answer, t.Knows mac) ∨
      ∃ a ∈ r.2.2.getLast?, a.answer ≠ none

/-! ## Slots -/

section Slots

variable {t t' : Table} {i : Nat} {d : BjnpDevice} {mac : List UInt8}

theorem Table.set_device_lt (hi : i < t.noDevices) :
    (t.set t.noDevices d).device i = t.device i :=
  Function.update_of_ne (Nat.ne_of_lt hi) _ _

theorem Table.set_device_self (i : Nat) : (t.set i d).device i = d := Function.update_self _ _ _

/-- The devices in use are the same, up to their addresses. -/
def Table.Same (t t' : Table) : Prop :=
  t'.noDevices = t.noDevices ∧ ∀ i < t.noDevices,
    (t'.device i).macAddress = (t.device i).macAddress ∧
      (t'.device i).isOpen = (t.device i).isOpen

theorem Table.Same.knows_iff (h : t.Same t') : t'.Knows mac ↔ t.Knows mac := by
  rw [Knows, Knows, h.1]
  refine exists_congr fun i => and_congr_right fun hi => ?_
  rw [(h.2 i hi).1]

theorem Table.Same.distinct (h : t.Same t') (hdistinct : t.Distinct) : t'.Distinct := by
  intro i hi j hj hmac
  rw [h.1] at hi hj
  rw [(h.2 i hi).1, (h.2 j hj).1] at hmac
  exact hdistinct i hi j hj hmac

theorem Table.Same.trans {t'' : Table} (h : t.Same t') (h' : t'.Same t'') : t.Same t'' := by
  refine ⟨h'.1.trans h.1, fun i hi => ?_⟩
  obtain ⟨hmac, hopen⟩ := h.2 i hi
  obtain ⟨hmac', hopen'⟩ := h'.2 i (h.1.symm ▸ hi)
  exact ⟨hmac'.trans hmac, hopen'.trans hopen⟩

theorem Table.same_set (t : Table) (d : BjnpDevice) : t.Same (t.set t.noDevices d) := by
  refine ⟨rfl, fun i hi => ?_⟩
  rw [set_device_lt hi]
  exact ⟨rfl, rfl⟩

theorem Table.find_none_iff : t.find mac = none ↔ ¬ t.Knows mac := by
  rw [find, List.find?_eq_none]
  constructor
  · rintro h ⟨i, hi, hmac⟩
    exact h i (List.mem_range.mpr hi) (beq_iff_eq.mpr hmac)
  · intro h i hi hmac
    exact h ⟨i, List.mem_range.mp hi, beq_iff_eq.mp hmac⟩

theorem Table.of_find (h : t.find mac = some i) :
    i < t.noDevices ∧ (t.device i).macAddress = mac := by
  rw [find] at h
  have hmac := List.find?_some h
  exact ⟨List.mem_range.mp (List.mem_of_find?_eq_some h), beq_iff_eq.mp hmac⟩

/-- A better address changes nothing else of the device found. -/
theorem Table.same_merge (t : Table) (i : Nat) : t.Same (t.merge i) := by
  have hbetter : ∀ addr level, t.Same (t.set i { t.device i with
      addr := addr, addressLevel := level }) := by
    refine fun addr level => ⟨rfl, fun j _ => ?_⟩
    by_cases hj : j = i
    · rw [hj, set_device_self]
      exact ⟨rfl, rfl⟩
    · rw [show (t.set i _).device j = t.device j from Function.update_of_ne hj _ _]
      exact ⟨rfl, rfl⟩
  rw [merge]
  split_ifs
  · exact (hbetter _ _).trans (same_set _ _)
  · exact same_set t _

end Slots

/-! ## The loop -/

section Loop

variable {protocol : Protocol} {ipTimeout : Int} {addresses : List HostAddress} {t : Table}

/-- One address that does not answer, or whose device is new. -/
theorem allocateLoop_skip {a : HostAddress} (hn : t.noDevices < maxDevices)
    (hnew : ∀ mac ∈ a.answer, ¬ t.Knows mac) :
    allocateLoop protocol ipTimeout (a :: addresses) t =
      allocateLoop protocol ipTimeout addresses
        (t.set t.noDevices
          (initDeviceStructure protocol ipTimeout a (t.device t.noDevices)).2) := by
  rw [allocateLoop, if_neg (Nat.ne_of_lt hn), initDeviceStructure]
  cases hanswer : a.answer with
  | none => rfl
  | some mac =>
      have hnone : (t.set t.noDevices (deviceFor protocol ipTimeout a mac)).find mac = none := by
        rw [Table.find_none_iff, (t.same_set _).knows_iff]
        exact hnew mac hanswer
      dsimp only
      rw [if_pos rfl]
      change (match (t.set t.noDevices (deviceFor protocol ipTimeout a mac)).find mac with
        | some i => _
        | none => _) = _
      rw [hnone]

variable (protocol ipTimeout) in
/-- If the device of an address that answers is known, the first such is found. -/
theorem allocateLoop_known (hn : t.noDevices < maxDevices)
    (hknown : ∃ a ∈ addresses, ∃ mac ∈ a.answer, t.Knows mac) :
    ∃ i < t.noDevices, ∃ t', allocateLoop protocol ipTimeout addresses t =
        (.alreadyAllocated, some i, t') ∧ t.Same t' ∧
      ∃ a ∈ addresses, a.answer = some (t.device i).macAddress := by
  induction addresses generalizing t with
  | nil =>
      obtain ⟨a, ha, -⟩ := hknown
      cases ha
  | cons a addresses ih =>
      by_cases hfirst : ∃ mac ∈ a.answer, t.Knows mac
      · obtain ⟨mac, hanswer, hmac⟩ := hfirst
        have hsome : ∃ i, (t.set t.noDevices (deviceFor protocol ipTimeout a mac)).find mac =
            some i := by
          apply Option.ne_none_iff_exists'.mp
          rw [Ne, Table.find_none_iff, (t.same_set _).knows_iff, not_not]
          exact hmac
        obtain ⟨i, hfind⟩ := hsome
        obtain ⟨hlt, hfound⟩ := Table.of_find hfind
        have hi : i < t.noDevices := hlt
        rw [Table.set_device_lt hi] at hfound
        refine ⟨i, hi, (t.set t.noDevices (deviceFor protocol ipTimeout a mac)).merge i, ?_,
          (t.same_set _).trans (Table.same_merge _ i), a, List.mem_cons_self,
          hanswer.trans (congrArg some hfound.symm)⟩
        have hanswer' : a.answer = some mac := hanswer
        rw [allocateLoop, if_neg (Nat.ne_of_lt hn), initDeviceStructure, hanswer']
        dsimp only
        rw [if_pos rfl]
        change (match (t.set t.noDevices (deviceFor protocol ipTimeout a mac)).find mac with
          | some i => _
          | none => _) = _
        rw [hfind]
      · have hsame := t.same_set
          (initDeviceStructure protocol ipTimeout a (t.device t.noDevices)).2
        have hrest : ∃ b ∈ addresses, ∃ mac ∈ b.answer, (t.set t.noDevices
            (initDeviceStructure protocol ipTimeout a (t.device t.noDevices)).2).Knows mac := by
          obtain ⟨b, hb, mac, hmac, hknows⟩ := hknown
          rcases List.mem_cons.mp hb with rfl | hb
          · exact absurd ⟨mac, hmac, hknows⟩ hfirst
          · exact ⟨b, hb, mac, hmac, hsame.knows_iff.mpr hknows⟩
        obtain ⟨i, hlt, t', hrun, hsame', b, hb, hanswer⟩ := ih (t := t.set t.noDevices _) hn hrest
        have hi : i < t.noDevices := hlt
        rw [Table.set_device_lt hi] at hanswer
        rw [allocateLoop_skip hn fun mac hmac hknows => hfirst ⟨mac, hmac, hknows⟩]
        exact ⟨i, hi, t', hrun, hsame.trans hsame', b, List.mem_cons_of_mem _ hb, hanswer⟩

variable (protocol ipTimeout) in
/-- If none is known, the last address decides. -/
theorem allocateLoop_last (hn : t.noDevices < maxDevices)
    (hnew : ∀ a ∈ addresses, ∀ mac ∈ a.answer, ¬ t.Knows mac) {last : HostAddress}
    (hlast : addresses.getLast? = some last) :
    ∃ t', t'.noDevices = t.noDevices ∧ (∀ i < t.noDevices, t'.device i = t.device i) ∧
      t'.device t.noDevices = (initDeviceStructure protocol ipTimeout last
        (t'.device t.noDevices)).2 ∧
      allocateLoop protocol ipTimeout addresses t = allocateLoop protocol ipTimeout [] t' := by
  induction addresses generalizing t with
  | nil => cases hlast
  | cons a addresses ih =>
      rw [allocateLoop_skip hn (hnew a List.mem_cons_self)]
      by_cases hnil : addresses = []
      · subst hnil
        obtain rfl : a = last := Option.some.inj hlast
        refine ⟨t.set t.noDevices
            (initDeviceStructure protocol ipTimeout a (t.device t.noDevices)).2, rfl,
          fun i hi => Table.set_device_lt hi, ?_, rfl⟩
        rw [Table.set_device_self, initDeviceStructure, initDeviceStructure]
        cases a.answer <;> rfl
      · have hsame := t.same_set
          (initDeviceStructure protocol ipTimeout a (t.device t.noDevices)).2
        have hlast' : addresses.getLast? = some last := by
          rw [← hlast, List.getLast?_cons_of_ne_nil hnil]
        obtain ⟨t', hcount, hdevices, hslot, hrun⟩ := ih (t := t.set t.noDevices _) hn
          (fun b hb mac hmac hknows => hnew b (List.mem_cons_of_mem _ hb) mac hmac
            (hsame.knows_iff.mp hknows)) hlast'
        refine ⟨t', hcount, fun i hi => ?_, hslot, hrun⟩
        rw [hdevices i hi, Table.set_device_lt hi]

/-- How a call ends for the addresses of a host. -/
inductive Allocated (protocol : Protocol) (ipTimeout : Int) (addresses : List HostAddress)
    (t : Table) : BjnpStatus × Option Nat × Table → Prop where
  | full : t.noDevices = maxDevices →
      Allocated protocol ipTimeout addresses t (.inval, none, t)
  | known {i : Nat} {t' : Table} {a : HostAddress} : t.noDevices < maxDevices →
      i < t.noDevices → t.Same t' → a ∈ addresses →
      a.answer = some (t.device i).macAddress →
      Allocated protocol ipTimeout addresses t (.alreadyAllocated, some i, t')
  | silent {t' : Table} {last : HostAddress} : t.noDevices < maxDevices →
      (∀ a ∈ addresses, ∀ mac ∈ a.answer, ¬ t.Knows mac) → addresses.getLast? = some last →
      last.answer = none → t.Same t' →
      Allocated protocol ipTimeout addresses t (.inval, none, t')
  | new {t' : Table} {last : HostAddress} {mac : List UInt8} : t.noDevices < maxDevices →
      (∀ a ∈ addresses, ∀ mac ∈ a.answer, ¬ t.Knows mac) → addresses.getLast? = some last →
      last.answer = some mac → t'.noDevices = t.noDevices + 1 →
      (∀ i < t.noDevices, t'.device i = t.device i) →
      t'.device t.noDevices = deviceFor protocol ipTimeout last mac →
      Allocated protocol ipTimeout addresses t (.good, some t.noDevices, t')

theorem allocateLoop_allocated (hle : t.noDevices ≤ maxDevices) (hne : addresses ≠ []) :
    Allocated protocol ipTimeout addresses t (allocateLoop protocol ipTimeout addresses t) := by
  rcases Nat.eq_or_lt_of_le hle with hfull | hn
  · obtain ⟨a, addresses, rfl⟩ := List.exists_cons_of_ne_nil hne
    rw [allocateLoop, if_pos hfull]
    exact .full hfull
  by_cases hknown : ∃ a ∈ addresses, ∃ mac ∈ a.answer, t.Knows mac
  · obtain ⟨i, hi, t', hrun, hsame, a, ha, hanswer⟩ := allocateLoop_known protocol
      ipTimeout hn hknown
    rw [hrun]
    exact .known hn hi hsame ha hanswer
  have hnew : ∀ a ∈ addresses, ∀ mac ∈ a.answer, ¬ t.Knows mac := fun a ha mac hmac hknows =>
    hknown ⟨a, ha, mac, hmac, hknows⟩
  obtain ⟨last, hlast⟩ := Option.ne_none_iff_exists'.mp fun h => hne (List.getLast?_eq_none_iff.mp h)
  obtain ⟨t', hcount, hdevices, hslot, hrun⟩ := allocateLoop_last protocol
    ipTimeout hn hnew hlast
  rw [hrun, allocateLoop, hcount]
  cases hanswer : last.answer with
  | none =>
      have hclosed : (t'.device t.noDevices).isOpen = false := by
        rw [hslot, initDeviceStructure, hanswer]
      rw [hclosed, if_neg Bool.false_ne_true]
      refine .silent hn hnew hlast hanswer ⟨hcount, fun i hi => ?_⟩
      rw [hdevices i hi]
      exact ⟨rfl, rfl⟩
  | some mac =>
      have hdevice : t'.device t.noDevices = deviceFor protocol ipTimeout last mac := by
        rw [hslot, initDeviceStructure, hanswer]
      rw [hdevice, if_pos (show (deviceFor protocol ipTimeout last mac).isOpen = true from rfl)]
      exact .new hn hnew hlast hanswer rfl hdevices hdevice

end Loop

/-! ## Every run -/

/-- What holds of the table after every call. -/
structure Table.Inv (t : Table) : Prop where
  le : t.noDevices ≤ maxDevices
  distinct : t.Distinct
  opened : ∀ i < t.noDevices, (t.device i).isOpen = true

section Runs

variable {protocol : Protocol} {ipTimeout : Int} {addresses : List HostAddress} {t t' : Table}
  {c : AllocateCall}

theorem Table.Inv.same (h : t.Inv) (hsame : t.Same t') : t'.Inv where
  le := hsame.1.symm ▸ h.le
  distinct := hsame.distinct h.distinct
  opened i hi := by
    rw [hsame.1] at hi
    rw [(hsame.2 i hi).2]
    exact h.opened i hi

theorem Table.Inv.allocated (h : t.Inv) {result : BjnpStatus × Option Nat × Table}
    (hresult : Allocated protocol ipTimeout addresses t result) : result.2.2.Inv := by
  cases hresult with
  | full => exact h
  | known _ _ hsame => exact h.same hsame
  | silent _ _ _ _ hsame => exact h.same hsame
  | @new t' last mac hn hnew hlast hanswer hcount hdevices hslot =>
      have hmem : last ∈ addresses := List.mem_of_getLast? hlast
      have hother : ∀ i < t.noDevices, (t.device i).macAddress ≠ mac := fun i hi hmac =>
        hnew last hmem mac hanswer ⟨i, hi, hmac⟩
      have hmac : (t'.device t.noDevices).macAddress = mac := by
        rw [hslot]
        rfl
      refine ⟨?_, ?_, ?_⟩
      · dsimp only
        omega
      · intro i hi j hj hsame
        dsimp only at hi hj hsame
        rw [hcount] at hi hj
        rcases Nat.eq_or_lt_of_le (Nat.le_of_lt_succ hi) with rfl | hi'
        · rcases Nat.eq_or_lt_of_le (Nat.le_of_lt_succ hj) with rfl | hj'
          · rfl
          · rw [hmac, hdevices j hj'] at hsame
            exact absurd hsame.symm (hother j hj')
        · rcases Nat.eq_or_lt_of_le (Nat.le_of_lt_succ hj) with rfl | hj'
          · rw [hmac, hdevices i hi'] at hsame
            exact absurd hsame (hother i hi')
          · rw [hdevices i hi', hdevices j hj'] at hsame
            exact h.distinct i hi' j hj' hsame
      · intro i hi
        dsimp only at hi ⊢
        rw [hcount] at hi
        rcases Nat.eq_or_lt_of_le (Nat.le_of_lt_succ hi) with rfl | hi'
        · rw [hslot]
          rfl
        · rw [hdevices i hi']
          exact h.opened i hi'

theorem resolved_ne_nil {r : Protocol × Int × List HostAddress} (h : c.resolved = some r) :
    r.2.2 ≠ [] := by
  rw [AllocateCall.resolved] at h
  split at h
  · obtain ⟨ipTimeout, -, h⟩ := Option.bind_eq_some_iff.mp h
    obtain ⟨protocol, -, h⟩ := Option.bind_eq_some_iff.mp h
    dsimp only at h
    split_ifs at h with hnil
    all_goals
      rw [← Option.some.inj h]
      assumption
  · cases h

theorem bjnpAllocateDevice_none (h : c.resolved = none) :
    bjnpAllocateDevice c t = (.inval, none, t) := by
  rw [bjnpAllocateDevice, h]

theorem bjnpAllocateDevice_some (hinv : t.Inv) {r : Protocol × Int × List HostAddress}
    (h : c.resolved = some r) :
    Allocated r.1 r.2.1 r.2.2 t (bjnpAllocateDevice c t) := by
  rw [bjnpAllocateDevice, h]
  exact allocateLoop_allocated hinv.le (resolved_ne_nil h)

theorem inv_call (hinv : t.Inv) (c : AllocateCall) : (bjnpAllocateDevice c t).2.2.Inv := by
  cases hresolved : c.resolved with
  | none =>
      rw [bjnpAllocateDevice_none hresolved]
      exact hinv
  | some r => exact hinv.allocated (bjnpAllocateDevice_some hinv hresolved)

theorem inv_afterCalls (calls : List AllocateCall) : (afterCalls calls).Inv := by
  have hrun : ∀ t : Table, t.Inv →
      (calls.foldl (fun t c => (bjnpAllocateDevice c t).2.2) t).Inv := by
    induction calls with
    | nil => exact fun t h => h
    | cons c calls ih => exact fun t h => ih _ (inv_call h c)
  exact hrun .empty ⟨Nat.zero_le _, fun _ hi => absurd hi (Nat.not_lt_zero _),
    fun _ hi => absurd hi (Nat.not_lt_zero _)⟩

/-- After every sequence of calls, the next call does what is claimed just if a full table knows
none of the addresses that answer, and with a free slot the last address is not silent where only
devices that are not known answer. -/
theorem callKept_iff (calls : List AllocateCall) (c : AllocateCall) :
    CallKept c (afterCalls calls) ↔ Allocatable c (afterCalls calls) := by
  have hinv := inv_afterCalls calls
  generalize afterCalls calls = t at hinv
  have hdistinct := (inv_call hinv c).distinct
  cases hresolved : c.resolved with
  | none =>
      have hno : ∀ {P : Protocol × Int × List HostAddress → Prop}, ¬ ∃ r ∈ c.resolved, P r := by
        rintro P ⟨r, hr, -⟩
        cases hresolved.symm.trans hr
      rw [CallKept, bjnpAllocateDevice_none hresolved]
      refine iff_of_true ⟨iff_of_false (fun h => h rfl) hno, hinv.distinct, fun h => absurd rfl h⟩ ?_
      intro r hr
      cases hresolved.symm.trans hr
  | some r =>
      have hall : ∀ {P : Protocol × Int × List HostAddress → Prop},
          (∃ r ∈ c.resolved, P r) ↔ P r := by
        intro P
        refine ⟨?_, fun h => ⟨r, hresolved, h⟩⟩
        rintro ⟨r', hr', h⟩
        rw [Option.some.inj (hresolved.symm.trans hr')]
        exact h
      have hcondition : Allocatable c t ↔ ∀ a ∈ r.2.2, ∀ mac ∈ a.answer,
          if t.noDevices = maxDevices then ¬ t.Knows mac
          else (∃ a ∈ r.2.2, ∃ mac ∈ a.answer, t.Knows mac) ∨
            ∃ a ∈ r.2.2.getLast?, a.answer ≠ none := by
        refine ⟨fun h => h r hresolved, fun h r' hr' => ?_⟩
        rw [← Option.some.inj (hresolved.symm.trans hr')]
        exact h
      rw [CallKept, hcondition, hall, hall]
      have hend := bjnpAllocateDevice_some hinv hresolved
      generalize bjnpAllocateDevice c t = result at hend hdistinct
      cases hend with
      | full hfull =>
          constructor
          · rintro ⟨hsuccess, -⟩ a ha mac hmac
            rw [if_pos hfull]
            exact fun hknows => hsuccess.mpr ⟨a, ha, mac, hmac, .inl hknows⟩ rfl
          · intro h
            refine ⟨iff_of_false (fun hne => hne rfl) ?_, hdistinct, fun hne => absurd rfl hne⟩
            rintro ⟨a, ha, mac, hmac, hknows | hlt⟩
            · have hnot := h a ha mac hmac
              rw [if_pos hfull] at hnot
              exact hnot hknows
            · exact absurd hfull (Nat.ne_of_lt hlt)
      | @known i t' a hn hi hsame ha hanswer =>
          have hknows : t.Knows (t.device i).macAddress := ⟨i, hi, rfl⟩
          refine iff_of_true ⟨iff_of_true nofun ⟨a, ha, _, hanswer, .inl hknows⟩, hdistinct,
            fun _ => ⟨i, hsame.1.symm ▸ hi, rfl, ?_, a, ha, _, hanswer, (hsame.2 i hi).1, nofun⟩⟩ ?_
          · exact (hsame.2 i hi).2.trans (hinv.opened i hi)
          · intro b hb mac hmac
            rw [if_neg (Nat.ne_of_lt hn)]
            exact .inl ⟨a, ha, _, hanswer, hknows⟩
      | @silent t' last hn hnew hlast hanswer hsame =>
          constructor
          · rintro ⟨hsuccess, -⟩ a ha mac hmac
            exact absurd rfl (hsuccess.mpr ⟨a, ha, mac, hmac, .inr hn⟩)
          · intro h
            refine ⟨iff_of_false (fun hne => hne rfl) ?_, hdistinct, fun hne => absurd rfl hne⟩
            rintro ⟨a, ha, mac, hmac, -⟩
            have hor := h a ha mac hmac
            rw [if_neg (Nat.ne_of_lt hn)] at hor
            rcases hor with ⟨b, hb, mac', hmac', hknows⟩ | ⟨b, hb, hsome⟩
            · exact hnew b hb mac' hmac' hknows
            · rw [← Option.some.inj (hlast.symm.trans hb)] at hsome
              exact hsome hanswer
      | @new t' last mac hn hnew hlast hanswer hcount hdevices hslot =>
          have hmem : last ∈ r.2.2 := List.mem_of_getLast? hlast
          refine iff_of_true ⟨iff_of_true nofun ⟨last, hmem, mac, hanswer, .inr hn⟩, hdistinct,
            fun _ => ⟨t.noDevices, ?_, rfl, ?_, last, hmem, mac, hanswer, ?_, fun _ => hslot⟩⟩ ?_
          · dsimp only
            omega
          · rw [hslot]
            rfl
          · rw [hslot]
            rfl
          · intro b hb mac' hmac'
            rw [if_neg (Nat.ne_of_lt hn)]
            refine .inr ⟨last, hlast, ?_⟩
            rw [hanswer]
            exact Option.some_ne_none mac

end Runs

/-- A host with two addresses, of which only the first answers. -/
def secondSilent : AllocateCall where
  devname := [98, 106, 110, 112, 58, 47, 47, 97]
  resolve _ _ := [⟨1, 0, some [48]⟩, ⟨2, 0, none⟩]

theorem not_callKept_secondSilent : ¬ ∀ calls c, CallKept c (afterCalls calls) := by
  intro h
  have hkept := (callKept_iff [] secondSilent).mp (h [] secondSilent)
  have hor := hkept (.bjnp, timeoutDefault, [⟨1, 0, some [48]⟩, ⟨2, 0, none⟩]) (by decide)
    ⟨1, 0, some [48]⟩ List.mem_cons_self [48] rfl
  rw [if_neg (by decide)] at hor
  rcases hor with ⟨a, -, mac, -, i, hi, -⟩ | ⟨a, ha, hsome⟩
  · exact absurd hi (Nat.not_lt_zero i)
  · rw [← Option.some.inj ha] at hsome
    exact hsome rfl

end SaneBackends.Bjnp
