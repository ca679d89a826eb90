import SaneBackends.Lib.CInt
import SaneBackends.Lib.PrefixBits
import SaneBackends.Sanei.Config
/-!
# `saned.c`: who may connect

`check_host` and the two subnet checks as they are with `SANED_USES_AF_INDEP` and
`ENABLE_IPV6`. An address is a number in host byte order; the resolver, the name of the
host and the contents of the files are parameters.
-/

namespace SaneBackends.Saned

open SaneBackends.Lib SaneBackends.Sanei

/-- A socket address of `AF_INET` or `AF_INET6`. -/
inductive Address where
  | v4 (addr : BitVec 32)
  | v6 (addr : BitVec 128)
  deriving DecidableEq, Repr

/-- `EAI_NONAME`, and every other error of `getaddrinfo`. -/
inductive GaiError where
  | noname | other
  deriving DecidableEq, Repr

/-- The resolver: `getnameinfo` with `NI_NUMERICHOST`, `getaddrinfo` with `AI_NUMERICHOST` for
`PF_INET` and for `PF_INET6`, and `getaddrinfo` for a name. -/
structure Resolver where
  getnameinfo : Address → Option (List UInt8)
  numericInet : List UInt8 → Option (BitVec 32)
  numericInet6 : List UInt8 → Option (BitVec 128)
  getaddrinfo : List UInt8 → Except GaiError (List Address)

/-- What the other calls are answered: the peer, with what its `sin_addr` reads if it is of
`AF_INET6`, the name of the host, and the access files that can be opened. -/
structure HostAnswers where
  getpeername : Option Address
  flowinfo : BitVec 32
  gethostname : Option (List UInt8)
  files : List (Option (List UInt8))

def tolower (c : UInt8) : UInt8 := if 65 ≤ c ∧ c ≤ 90 then c + 32 else c

/-- `strcasecmp (a, b) == 0`. -/
def strcasecmpEq (a b : List UInt8) : Bool := a.map tolower == b.map tolower

/-- `strtol` of base 10 before the value is clamped to a `long`, unless it stops where it
started. -/
def decimalNumber (str : List UInt8) : Option Int :=
  let number (str : List UInt8) : Option Nat :=
    if (str.takeWhile fun c => digitValue c < 10) = [] then none else some (digits 10 str)
  match str.dropWhile isspace with
  | 45 :: str => (number str).map fun n => -(n : Int)
  | 43 :: str => (number str).map fun n => (n : Int)
  | str => (number str).map fun n => (n : Int)

/-- The `int` a number read by `strtol` is stored as. -/
def cInt (n : Int) : Int := toInt32 (max (-2 ^ 63) (min (2 ^ 63 - 1) n))

/-- The number of bits behind the slash, if it passes the check. -/
def readCidr (bound : Nat) (netmask : List UInt8) : Option Nat :=
  match decimalNumber netmask with
  | none => none
  | some n => if cInt n < 0 ∨ bound < cInt n then none else some (cInt n).toNat

def cidrtomask (cidr : Nat) : BitVec 8 :=
  [0x00#8, 0x80#8, 0xC0#8, 0xE0#8, 0xF0#8, 0xF8#8, 0xFC#8, 0xFE#8, 0xFF#8].getD cidr 0

/-- The bitmask of `check_v4_in_range`; `cidr` bits are still to be set. Behind the last byte
the value that is shifted is zero. -/
def v4Mask : Nat → Nat → BitVec 32
  | cidr + 8, i => (0xff#32 <<< (8 * i)) ||| v4Mask cidr (i - 1)
  | cidr, i => (cidrtomask cidr).setWidth 32 <<< (8 * i)

/-- A store to the array `mask`. -/
def setMask (mask : List (BitVec 8)) (i : Nat) (value : BitVec 8) :
    Except Fault (List (BitVec 8)) :=
  if i < mask.length then .ok (mask.set i value) else .error .outOfBounds

/-- The bitmask of `check_v6_in_range` from byte `i` on. -/
def v6Mask : Nat → Nat → List (BitVec 8) → Except Fault (List (BitVec 8))
  | cidr + 8, i, mask => do
      let mask ← setMask mask i 0xff
      v6Mask cidr (i + 1) mask
  | cidr, i, mask => setMask mask i (cidrtomask cidr)

section Check

variable (r : Resolver)

def checkV4InRange (sin : BitVec 32) (baseIp netmask : List UInt8) : Bool :=
  match readCidr 32 netmask with
  | none => false
  | some cidr =>
      match r.numericInet baseIp with
      | none => false
      | some base => base &&& v4Mask cidr 3 == sin &&& v4Mask cidr 3

def checkV6InRange (sin6 : BitVec (8 * 16)) (baseIp netmask : List UInt8) : Except Fault Bool :=
  match readCidr 128 netmask with
  | none => .ok false
  | some cidr => do
      let mask ← v6Mask cidr 0 (.replicate 16 0)
      match r.numericInet6 baseIp with
      | none => .ok false
      | some base =>
          .ok ((List.range 16).all fun i =>
            byteAt (k := 16) base i &&& mask.getD i 0 == byteAt sin6 i &&& mask.getD i 0)

/-- `IN6_IS_ADDR_V4MAPPED`; the bytes behind an `AF_INET` address are zero. -/
def Address.isV4Mapped : Address → Bool
  | .v4 _ => false
  | .v6 a => a.extractLsb' 32 96 == 0xffff

/-- The family is `AF_INET`. -/
def Address.isInet : Address → Bool
  | .v4 _ => true
  | .v6 _ => false

/-- `IN_LOOPBACK`. -/
def inLoopback (a : BitVec 32) : Bool := a &&& 0xff000000 == 0x7f000000

/-- The `switch` over the family. -/
def Address.isLoopback : Address → Bool
  | .v4 a => inLoopback a
  | .v6 a => a == 1

/-- The variable `res`. -/
inductive ResPtr where
  | unset | null | list | freed
  deriving DecidableEq, Repr

/-- The variable `sin`: it points to the address of the peer or into the list of `res`. -/
inductive SinPtr where
  | remote
  | resolved (a : BitVec 32)
  | dangling
  deriving DecidableEq, Repr

/-- What is known of the peer: `remote_ip`, and the address `remote_ipv4` is resolved to if
`IPv4map` is set. -/
structure Peer where
  address : Address
  flowinfo : BitVec 32
  remoteIp : List UInt8
  ipv4Map : Option (BitVec 32)
  deriving DecidableEq, Repr

def Peer.remoteIpv4 (peer : Peer) : List UInt8 := peer.remoteIp.drop 7

def findPeer (address : Address) (flowinfo : BitVec 32) (remoteIp : List UInt8) : Peer :=
  ⟨address, flowinfo, remoteIp,
    if address.isV4Mapped then r.numericInet (remoteIp.drop 7) else none⟩

/-- The comparison of a numeric text with the address of the peer. -/
def Peer.hasText (peer : Peer) (text : List UInt8) : Bool :=
  strcasecmpEq text peer.remoteIp || (peer.ipv4Map.isSome && text == peer.remoteIpv4)

/-- The loop over a list of addresses. -/
def anySame (peer : Peer) (addrs : List Address) : Bool :=
  addrs.any fun a => peer.hasText ((r.getnameinfo a).getD (ascii ['[', 'e', 'r', 'r', 'o', 'r', ']']))

/-- The variables that outlive a line. -/
structure Access where
  accessOk : Bool
  res : ResPtr
  sin : SinPtr
  deriving DecidableEq, Repr

/-- The address `sin` points to. -/
def Access.sinAddr (peer : Peer) (s : Access) : Except Fault (BitVec 32) :=
  match s.sin with
  | .remote =>
      match peer.address with
      | .v4 a => .ok a
      | .v6 _ => .ok peer.flowinfo
  | .resolved a => .ok a
  | .dangling => .error .outOfBounds

/-- `freeaddrinfo` unless `res` is `NULL`. -/
def Access.dropRes (s : Access) : Except Fault Access :=
  match s.res with
  | .null => .ok s
  | .list => .ok { s with res := .null, sin := if s.sin = .remote then .remote else .dangling }
  | .unset => .error .badFree
  | .freed => .error .badFree

/-- `sin` is made to point to the IPv4 address of an IPv4-mapped peer. -/
def redirectSin (peer : Peer) (s : Access) : Access :=
  if peer.ipv4Map.isSome then
    match r.numericInet peer.remoteIpv4 with
    | none => s
    | some a => { s with res := .list, sin := .resolved a }
  else s

/-- The branch for a line with a slash. -/
def checkRange (peer : Peer) (name netmask : List UInt8) (s : Access) : Except Fault Access :=
  if 58 ∈ name then
    match peer.address with
    | .v4 _ => .ok s
    | .v6 a => do
        let inRange ← checkV6InRange r a name netmask
        .ok (if inRange then { s with accessOk := true } else s)
  else
    let s := redirectSin r peer s
    if peer.address.isInet || peer.ipv4Map.isSome then do
      let sin ← s.sinAddr peer
      let s : Access :=
        if checkV4InRange r sin name netmask then { s with accessOk := true }
        else { s with sin := .remote }
      s.dropRes
    else .ok s

/-- The branch for a line without one. The pointer is left as it was if the name is not
resolved. -/
def checkName (peer : Peer) (name : List UInt8) (s : Access) : Access :=
  match r.getaddrinfo name with
  | .error _ => s
  | .ok addrs => { s with accessOk := s.accessOk || anySame r peer addrs, res := .null }

/-- A line cut at the slash and freed from brackets, unless it is skipped: the text to be
compared, and what stands behind the slash. -/
def hostEntry (line : List UInt8) : Option (List UInt8 × Option (List UInt8)) :=
  if line.head? = some 35 then none
  else if 61 ∈ line then none
  else if line = [] then none
  else
    let netmask := if 47 ∈ line then some (line.dropWhile (· ≠ 47)).tail else none
    match line.takeWhile (· ≠ 47) with
    | 91 :: text => if 93 ∈ text then some (text.takeWhile (· ≠ 93), netmask) else none
    | text => some (text, netmask)

/-- The body of the loop over the lines. -/
def checkLine (peer : Peer) (line : List UInt8) (s : Access) : Except Fault Access :=
  match hostEntry line with
  | none => .ok s
  | some (name, netmask) =>
      if name = [43] then .ok { s with accessOk := true }
      else if peer.hasText name then .ok { s with accessOk := true }
      else
        match netmask with
        | some netmask => checkRange r peer name netmask s
        | none => .ok (checkName r peer name s)

def checkLines (peer : Peer) : List (List UInt8) → Access → Except Fault Access
  | [], s => .ok s
  | line :: lines, s =>
      if s.accessOk then .ok s
      else do
        let s ← checkLine r peer line s
        checkLines peer lines s

/-- The lines `sanei_config_read` returns; `fuel` bounds their number. -/
def hostLines : Nat → List UInt8 → List (List UInt8)
  | 0, _ => []
  | fuel + 1, stream =>
      match saneiConfigRead 1024 stream with
      | none => []
      | some (line, rest) => line :: hostLines fuel rest

/-- The loop over the files. -/
def checkFiles (peer : Peer) : List (Option (List UInt8)) → Access → Except Fault Access
  | [], s => .ok s
  | none :: files, s => checkFiles peer files s
  | some stream :: files, s => do
      let s ← checkLines r peer (hostLines stream.length stream) s
      checkFiles peer files s

/-- The part of `check_host` behind the checks for the local host. -/
def readFiles (peer : Peer) (files : List (Option (List UInt8))) (res : ResPtr) :
    Except Fault SaneStatus := do
  let s ← checkFiles r peer files ⟨false, res, .remote⟩
  .ok (if s.accessOk then .good else .accessDenied)

/-- `check_host`. -/
def checkHost (w : HostAnswers) : Except Fault SaneStatus :=
  match w.getpeername with
  | none => .ok .inval
  | some address =>
      match r.getnameinfo address with
      | none => .ok .inval
      | some remoteIp =>
          let peer := findPeer r address w.flowinfo remoteIp
          if peer.ipv4Map.any inLoopback || address.isLoopback then .ok .good
          else
            match w.gethostname with
            | none => .ok .inval
            | some hostname =>
                match r.getaddrinfo hostname with
                | .error .other => .ok .inval
                | .error .noname =>
                    readFiles r peer w.files (if peer.ipv4Map.isSome then .freed else .unset)
                | .ok addrs => if anySame r peer addrs then .ok .good else readFiles r peer w.files .null

end Check

end SaneBackends.Saned
