import SaneBackends.Escl.Options
import SaneBackends.Lib.Decimal
import SaneBackends.Saned.Numerals
/-!
# The names of eSCL devices

`convertFromESCLDev`, which prints the name of a device, and `escl_parse_name`, which reads it.
Memory is never short.
-/

namespace SaneBackends.Escl

open SaneBackends.Lib SaneBackends.Sanei
open SaneBackends.Saned (Numeral NoDigit decimalNumber cInt)

/-! ## Devices -/

/-- `ESCL_Address`, without its link. -/
structure EsclAddress where
  ipAddress : List UInt8
  portNb : Nat
  type : List UInt8
  tls : Bool
  https : Bool
  deriving DecidableEq, Repr

/-- The fields of `ESCL_Device` that the list of devices and the names use; the port is one that
`escl_parse_name` and the discovery let pass. -/
structure EsclDevice where
  modelName : List UInt8
  portNb : Nat
  ipAddress : List UInt8
  is : List UInt8
  tls : Bool := false
  uuid : Option (List UInt8) := none
  type : List UInt8
  https : Bool
  unixSocket : Option (List UInt8) := none
  addresses : List EsclAddress := []
  deriving DecidableEq, Repr

/-- The strings of `SANE_Device`. -/
structure SaneDevice where
  name : List UInt8
  vendor : List UInt8
  model : List UInt8
  type : List UInt8
  deriving DecidableEq, Repr

/-! ## Printing -/

/-- `strcasestr (haystack, needle) != NULL`. -/
def strcasestr (haystack needle : List UInt8) : Bool :=
  haystack.tails.any fun rest => (needle.map lowerCase).isPrefixOf (rest.map lowerCase)

def vendors : List (List UInt8) :=
  [ ascii ['E', 'p', 's', 'o', 'n'],
    ascii ['F', 'u', 'j', 'i', 't', 's', 'u'],
    ascii ['H', 'P'],
    ascii ['C', 'a', 'n', 'o', 'n'],
    ascii ['L', 'e', 'x', 'm', 'a', 'r', 'k'],
    ascii ['S', 'a', 'm', 's', 'u', 'n', 'g'],
    ascii ['X', 'e', 'r', 'o', 'x'],
    ascii ['O', 'K', 'I'],
    ascii ['H', 'e', 'w', 'l', 'e', 't', 't', ' ', 'P', 'a', 'c', 'k', 'a', 'r', 'd'],
    ascii ['I', 'B', 'M'],
    ascii ['M', 'u', 's', 't', 'e', 'k'],
    ascii ['R', 'i', 'c', 'o', 'h'],
    ascii ['S', 'h', 'a', 'r', 'p'],
    ascii ['U', 'M', 'A', 'X'],
    ascii ['P', 'I', 'N', 'T'],
    ascii ['B', 'r', 'o', 't', 'h', 'e', 'r'] ]

def getVendor (search : List UInt8) : Option (List UInt8) := vendors.find? (strcasestr search)

def pathMax : Nat := 4096

/-- `snprintf` into a buffer of this size. -/
def snprintf (size : Nat) (text : List UInt8) : List UInt8 := text.take (size - 1)

def unixPath (cdev : EsclDevice) : List UInt8 :=
  match cdev.unixSocket with
  | none => []
  | some socket =>
      if socket = [] then []
      else snprintf (pathMax + 7) (ascii ['u', 'n', 'i', 'x', ':'] ++ socket ++ [58])

/-- The name without the socket. -/
def deviceUrl (cdev : EsclDevice) : List UInt8 :=
  ascii ['h', 't', 't', 'p'] ++ (if cdev.https then [115] else []) ++ ascii [':', '/', '/'] ++
    (cdev.ipAddress ++ 58 :: decimal cdev.portNb)

def deviceName (cdev : EsclDevice) : List UInt8 := unixPath cdev ++ deviceUrl cdev

def convertFromEsclDev (cdev : EsclDevice) : Except Fault SaneDevice :=
  let found := getVendor cdev.modelName
  let vendor := found.getD (ascii ['E', 'S', 'C', 'L'])
  let lv := match found with
    | some vendor => vendor.length + 1
    | none => 0
  -- the pointer behind the vendor, which is read up to the end of the string
  if lv ≤ cdev.modelName.length then
    .ok ⟨deviceName cdev, vendor, cdev.modelName.drop lv, cdev.is⟩
  else .error .outOfBounds

/-! ## Reading -/

def httpType : List UInt8 := ascii ['h', 't', 't', 'p']

def httpsType : List UInt8 := ascii ['h', 't', 't', 'p', 's']

/-- What `escl_parse_name` sets in a new device. -/
structure ParsedName where
  unixSocket : Option (List UInt8)
  https : Bool
  type : List UInt8
  portNb : Nat
  ipAddress : List UInt8
  deriving DecidableEq, Repr

/-- The string cut at what `strchr` finds. -/
def cutAt (c : UInt8) (str : List UInt8) : Option (List UInt8 × List UInt8) :=
  if c ∈ str then some (str.takeWhile (· ≠ c), (str.dropWhile (· ≠ c)).tail) else none

def atoi (str : List UInt8) : Int := ((decimalNumber str).map cInt).getD 0

/-- The socket in front of the address. -/
def parseSocket (name : List UInt8) : Option (Option (List UInt8) × List UInt8) :=
  if (ascii ['u', 'n', 'i', 'x', ':']).isPrefixOf name then
    (cutAt 58 (name.drop 5)).map fun (socket, rest) => (some socket, rest)
  else some (none, name)

/-- The scheme, with what stands behind it. -/
def parseScheme (name : List UInt8) : Option (Bool × List UInt8) :=
  if (ascii ['h', 't', 't', 'p', 's', ':', '/', '/']).isPrefixOf name then some (true, name.drop 8)
  else if (ascii ['h', 't', 't', 'p', ':', '/', '/']).isPrefixOf name then some (false, name.drop 7)
  else none

/-- `escl_parse_name`; `none` is `SANE_STATUS_INVAL`. -/
def esclParseName (name : List UInt8) : Option ParsedName := do
  let (unixSocket, name) ← parseSocket name
  let (https, host) ← parseScheme name
  let (ipAddress, port) ← cutAt 58 host
  let portNb := atoi port
  if portNb < 1 ∨ 65535 < portNb then none
  else
    some
      { unixSocket, https, ipAddress
        type := if https then httpsType else httpType
        portNb := portNb.toNat }

/-! ## Ports -/

/-- The digits of a number, as a numeral. -/
def numeral (n : Nat) : Numeral where
  digits := decimal n
  digits_ne_nil := decimal_ne_nil n
  digit_of_mem := fun _ hc => digit_of_mem_decimal hc

theorem decimalNumber_decimal (n : Nat) : decimalNumber (decimal n) = some (n : Int) := by
  have hend : NoDigit [] := fun _ hc => by cases hc
  have hread := (numeral n).decimalNumber_text hend
  have hvalue : (numeral n).value = n := congrArg Nat.cast (decimalFold_decimal n)
  rw [List.append_nil, hvalue] at hread
  exact hread

theorem atoi_decimal {n : Nat} (hn : n ≤ 65535) : atoi (decimal n) = n := by
  rw [atoi, decimalNumber_decimal, Option.map_some, Option.getD_some, cInt]
  have hclamp : max (-2 ^ 63) (min (2 ^ 63 - 1) (n : Int)) = n := by omega
  rw [hclamp, toInt32_eq_self (by omega) (by omega)]

/-! ## Cutting -/

/-- What is cut at the first `c` of a string that begins without one. -/
theorem cutAt_append {c : UInt8} {before : List UInt8} (hbefore : c ∉ before) (rest : List UInt8) :
    cutAt c (before ++ c :: rest) = some (before, rest) := by
  have hall : ∀ d ∈ before, (decide (d ≠ c)) = true := by
    intro d hd
    exact decide_eq_true fun h => hbefore (h ▸ hd)
  rw [cutAt, if_pos (by simp), List.takeWhile_append_of_pos hall, List.dropWhile_append_of_pos hall]
  simp

/-- What stands before the cut has no `c`. -/
theorem not_mem_of_cutAt {c : UInt8} {str before rest : List UInt8}
    (h : cutAt c str = some (before, rest)) : c ∉ before := by
  rw [cutAt] at h
  split_ifs at h
  cases h
  intro hmem
  have hne := List.mem_takeWhile_imp hmem
  simp at hne

section Names

variable {cdev : EsclDevice} {name : List UInt8} {socket : Option (List UInt8)}

theorem parseScheme_deviceUrl (cdev : EsclDevice) :
    parseScheme (deviceUrl cdev) =
      some (cdev.https, cdev.ipAddress ++ 58 :: decimal cdev.portNb) := by
  unfold deviceUrl
  cases cdev.https <;> rfl

/-- A name without a socket. -/
theorem parseSocket_deviceUrl (cdev : EsclDevice) :
    parseSocket (deviceUrl cdev) = some (none, deviceUrl cdev) := by
  unfold deviceUrl
  cases cdev.https <;> rfl

/-- What is read of the name behind the socket. -/
theorem esclParseName_of_socket (hname : parseSocket name = some (socket, deviceUrl cdev))
    (hlo : 1 ≤ cdev.portNb) (hhi : cdev.portNb ≤ 65535) (hcolon : 58 ∉ cdev.ipAddress) :
    esclParseName name =
      some
        { unixSocket := socket
          https := cdev.https
          type := if cdev.https then httpsType else httpType
          portNb := cdev.portNb
          ipAddress := cdev.ipAddress } := by
  have hport : ¬ ((cdev.portNb : Int) < 1 ∨ 65535 < (cdev.portNb : Int)) := by omega
  simp only [esclParseName, hname, parseScheme_deviceUrl, cutAt_append hcolon, atoi_decimal hhi,
    Option.bind_eq_bind, Option.bind_some, if_neg hport, Int.toNat_natCast]

/-- An address with a colon is not read back. -/
theorem ipAddress_ne_of_colon (hname : parseSocket name = some (socket, deviceUrl cdev))
    (hcolon : 58 ∈ cdev.ipAddress) {p : ParsedName} (hp : esclParseName name = some p) :
    p.ipAddress ≠ cdev.ipAddress := by
  simp only [esclParseName, hname, parseScheme_deviceUrl, Option.bind_eq_bind,
    Option.bind_some, Option.bind_eq_some_iff] at hp
  obtain ⟨⟨ipAddress, port⟩, hcut, hp⟩ := hp
  dsimp only at hp
  rw [Option.ite_none_left_eq_some] at hp
  obtain ⟨-, hp⟩ := hp
  cases hp
  rintro rfl
  exact not_mem_of_cutAt hcut hcolon

/-- The socket in front of the address. -/
def socketText (socket : List UInt8) : List UInt8 :=
  ascii ['u', 'n', 'i', 'x', ':'] ++ socket ++ [58]

theorem unixPath_of_fits {socket : List UInt8} (hsocket : cdev.unixSocket = some socket)
    (hne : socket ≠ []) (hlength : socket.length ≤ pathMax) :
    unixPath cdev = socketText socket := by
  rw [unixPath, hsocket]
  dsimp only
  rw [if_neg hne, snprintf, List.take_of_length_le]
  · rfl
  · simp [ascii]
    omega

theorem parseSocket_socketText {socket : List UInt8} (hcolon : 58 ∉ socket) (rest : List UInt8) :
    parseSocket (socketText socket ++ rest) = some (some socket, rest) := by
  have hcut := cutAt_append hcolon rest
  have hdrop : (socketText socket ++ rest).drop 5 = socket ++ 58 :: rest := by
    simp [socketText, ascii]
  have hprefix : (ascii ['u', 'n', 'i', 'x', ':']).isPrefixOf (socketText socket ++ rest) = true := by
    rw [List.isPrefixOf_iff_prefix, socketText, List.append_assoc, List.append_assoc]
    exact List.prefix_append _ _
  rw [parseSocket, if_pos hprefix, hdrop, hcut]
  rfl

/-- A socket that does not fit is cut before the colon, and the scheme is lost. -/
theorem esclParseName_of_long {socket : List UInt8} (hsocket : cdev.unixSocket = some socket)
    (hcolon : 58 ∉ socket) (hlength : pathMax < socket.length) :
    esclParseName (deviceName cdev) = none := by
  let scheme := ascii ['h', 't', 't', 'p'] ++ if cdev.https then [115] else []
  let rest := 47 :: 47 :: (cdev.ipAddress ++ 58 :: decimal cdev.portNb)
  have hne : socket ≠ [] := by
    rintro rfl
    exact absurd hlength (by simp)
  have hpath : unixPath cdev = ascii ['u', 'n', 'i', 'x', ':'] ++ socket.take 4097 := by
    rw [unixPath, hsocket]
    dsimp only
    rw [if_neg hne, snprintf, List.take_append_of_le_length, List.take_append]
    · rfl
    · simp only [pathMax] at hlength ⊢
      simp [ascii]
      omega
  have hurl : deviceUrl cdev = scheme ++ 58 :: rest := by
    simp [deviceUrl, scheme, rest, ascii]
  have hname : deviceName cdev =
      ascii ['u', 'n', 'i', 'x', ':'] ++ ((socket.take 4097 ++ scheme) ++ 58 :: rest) := by
    rw [deviceName, hpath, hurl]
    simp only [List.append_assoc]
  have hbefore : 58 ∉ socket.take 4097 ++ scheme := by
    rw [List.mem_append, not_or]
    refine ⟨fun hmem => hcolon (List.mem_of_mem_take hmem), ?_⟩
    simp only [scheme]
    cases cdev.https <;> decide
  have hparsed : parseSocket (deviceName cdev) = some (some (socket.take 4097 ++ scheme), rest) := by
    have hprefix : (ascii ['u', 'n', 'i', 'x', ':']).isPrefixOf (deviceName cdev) = true := by
      rw [List.isPrefixOf_iff_prefix, hname]
      exact List.prefix_append _ _
    have hdrop : (deviceName cdev).drop 5 = (socket.take 4097 ++ scheme) ++ 58 :: rest := by
      rw [hname]
      rfl
    rw [parseSocket, if_pos hprefix, hdrop, cutAt_append hbefore]
    rfl
  have hscheme : parseScheme rest = none := rfl
  simp only [esclParseName, hparsed, hscheme, Option.bind_eq_bind, Option.bind_some,
    Option.bind_none]

theorem parseSocket_deviceName
    (hfits : ∀ socket, cdev.unixSocket = some socket → socket ≠ [] ∧ socket.length ≤ pathMax)
    (hcolon : ∀ socket, cdev.unixSocket = some socket → 58 ∉ socket) :
    parseSocket (deviceName cdev) = some (cdev.unixSocket, deviceUrl cdev) := by
  unfold deviceName
  cases hsocket : cdev.unixSocket with
  | none =>
      have hpath : unixPath cdev = [] := by rw [unixPath, hsocket]
      rw [hpath]
      exact parseSocket_deviceUrl cdev
  | some socket =>
      obtain ⟨hne, hlength⟩ := hfits socket hsocket
      rw [unixPath_of_fits hsocket hne hlength]
      exact parseSocket_socketText (hcolon socket hsocket) _

theorem unixSocket_of_parsed {rest : List UInt8} (hname : parseSocket name = some (socket, rest))
    {p : ParsedName} (hp : esclParseName name = some p) : p.unixSocket = socket := by
  simp only [esclParseName, hname, Option.bind_eq_bind, Option.bind_some,
    Option.bind_eq_some_iff] at hp
  obtain ⟨⟨https, host⟩, -, ⟨ipAddress, port⟩, -, hp⟩ := hp
  dsimp only at hp
  rw [Option.ite_none_left_eq_some] at hp
  obtain ⟨-, hp⟩ := hp
  cases hp
  rfl

/-- An empty socket is not named, and a socket is read back only if it is. -/
theorem socket_fits_of_parsed {socket : List UInt8} (hsocket : cdev.unixSocket = some socket)
    (hcolon : 58 ∉ socket) {p : ParsedName} (hp : esclParseName (deviceName cdev) = some p)
    (hsame : p.unixSocket = some socket) : socket ≠ [] ∧ socket.length ≤ pathMax := by
  constructor
  · rintro rfl
    have hname : deviceName cdev = deviceUrl cdev := by
      rw [deviceName, unixPath, hsocket]
      rfl
    rw [hname] at hp
    rw [unixSocket_of_parsed (parseSocket_deviceUrl cdev) hp] at hsame
    cases hsame
  · by_contra hlength
    rw [esclParseName_of_long hsocket hcolon (by omega)] at hp
    cases hp

end Names

/-! ## The round trip -/

/-- What the name and the model of a listed device are expected to be. -/
def NamesBack (cdev : EsclDevice) : Prop :=
  ∃ sdev, convertFromEsclDev cdev = .ok sdev ∧ sdev.model <:+ cdev.modelName ∧
    ∃ p, esclParseName sdev.name = some p ∧ p.https = cdev.https ∧
      p.ipAddress = cdev.ipAddress ∧ p.portNb = cdev.portNb ∧ p.unixSocket = cdev.unixSocket

/-- The name fits, its address has no colon, and the model goes on behind the vendor. -/
structure Nameable (cdev : EsclDevice) : Prop where
  address : 58 ∉ cdev.ipAddress
  socket : ∀ socket, cdev.unixSocket = some socket → socket ≠ [] ∧ socket.length ≤ pathMax
  model : ∀ vendor, getVendor cdev.modelName = some vendor →
    vendor.length < cdev.modelName.length

theorem convertFromEsclDev_ok_iff (cdev : EsclDevice) :
    (∃ sdev, convertFromEsclDev cdev = .ok sdev) ↔
      ∀ vendor, getVendor cdev.modelName = some vendor →
        vendor.length < cdev.modelName.length := by
  unfold convertFromEsclDev
  cases hvendor : getVendor cdev.modelName with
  | none => simp
  | some vendor =>
      simp only [Option.some.injEq, forall_eq']
      split_ifs with hfits
      · exact iff_of_true ⟨_, rfl⟩ hfits
      · refine iff_of_false ?_ hfits
        rintro ⟨sdev, hsdev⟩
        cases hsdev

theorem convertFromEsclDev_spec {cdev : EsclDevice} {sdev : SaneDevice}
    (h : convertFromEsclDev cdev = .ok sdev) :
    sdev.name = deviceName cdev ∧ sdev.model <:+ cdev.modelName := by
  unfold convertFromEsclDev at h
  dsimp only at h
  split at h
  · split at h <;> cases h
    exact ⟨rfl, List.drop_suffix _ _⟩
  · split at h <;> cases h
    exact ⟨rfl, List.drop_suffix _ _⟩

/-- A device of the list is named so that its name is read back, and its model is what stands
behind the vendor, exactly if it is nameable. -/
theorem namesBack_iff (cdev : EsclDevice) (hlo : 1 ≤ cdev.portNb) (hhi : cdev.portNb ≤ 65535)
    (hsocket : ∀ socket, cdev.unixSocket = some socket → 58 ∉ socket) :
    NamesBack cdev ↔ Nameable cdev := by
  constructor
  · rintro ⟨sdev, hsdev, -, p, hp, -, haddress, -, hsame⟩
    rw [(convertFromEsclDev_spec hsdev).1] at hp
    have hfits : ∀ socket, cdev.unixSocket = some socket →
        socket ≠ [] ∧ socket.length ≤ pathMax := fun socket hs =>
      socket_fits_of_parsed hs (hsocket socket hs) hp (hsame.trans hs)
    exact {
      address := fun hcolon =>
        ipAddress_ne_of_colon (parseSocket_deviceName hfits hsocket) hcolon hp haddress
      socket := hfits
      model := (convertFromEsclDev_ok_iff cdev).mp ⟨sdev, hsdev⟩ }
  · intro h
    obtain ⟨sdev, hsdev⟩ := (convertFromEsclDev_ok_iff cdev).mpr h.model
    obtain ⟨hname, hmodel⟩ := convertFromEsclDev_spec hsdev
    have hparsed := esclParseName_of_socket (parseSocket_deviceName h.socket hsocket) hlo hhi
      h.address
    rw [← hname] at hparsed
    exact ⟨sdev, hsdev, hmodel, _, hparsed, rfl, rfl, rfl, rfl⟩

theorem namesBack_iff_hostName :
    NamesBack
        { modelName := ascii ['E', 'P', 'S', 'O', 'N', ' ', 'X', 'P']
          portNb := 443
          ipAddress := ascii ['s', 'c', 'a', 'n']
          is := ascii ['p', 'l', 'a', 't', 'e', 'n']
          type := ascii ['h', 't', 't', 'p', 's']
          https := true
          unixSocket := some (ascii ['/', 'r', 'u', 'n']) } ↔
      Nameable
        { modelName := ascii ['E', 'P', 'S', 'O', 'N', ' ', 'X', 'P']
          portNb := 443
          ipAddress := ascii ['s', 'c', 'a', 'n']
          is := ascii ['p', 'l', 'a', 't', 'e', 'n']
          type := ascii ['h', 't', 't', 'p', 's']
          https := true
          unixSocket := some (ascii ['/', 'r', 'u', 'n']) } :=
  namesBack_iff _ (by decide) (by decide) fun socket hsocket => by
    cases hsocket
    decide

/-- The name of a device with an IPv6 address is cut at the first colon of the address. -/
theorem not_namesBack_ipv6 :
    ¬ NamesBack
      { modelName := ascii ['S', 'c', 'a', 'n', 'n', 'e', 'r']
        portNb := 80
        ipAddress := ascii ['[', 'f', 'e', '8', '0', ':', ':', '1', ']']
        is := ascii ['p', 'l', 'a', 't', 'e', 'n']
        type := ascii ['h', 't', 't', 'p']
        https := false } := by
  rintro ⟨sdev, hsdev, -, p, hp, -, haddress, -⟩
  rw [(convertFromEsclDev_spec hsdev).1] at hp
  exact ipAddress_ne_of_colon (parseSocket_deviceUrl _) (by decide) hp haddress

end SaneBackends.Escl
